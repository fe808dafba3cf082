import NetFrame.Basic
import NetFrame.Lib.Machine
import NetFrame.Lib.Table
import Mathlib.Logic.Function.Basic

/-!
# Handlers, the epoll poller and the kernel's interest set

`Handler.h`, `Handler.cpp` and `EPollPoller.cpp`. What a handler wants to hear
of is kept three times: in the handler (`m_events`, `m_state`), in the poller's
`m_handlermap`, and in the kernel's interest set, which `epoll_ctl` changes.
`EventLoop::updateHandler` and `EventLoop::removeHandler` only forward.

The handlers are named by an arbitrary type `H`; a `Handler*` is such a name.

Results:
1. `updateHandler_spec`, `remove_spec`: on a poller that agrees with its
   handlers each call succeeds, issues legal `epoll_ctl`s and keeps agreement.
2. `poller_agrees`: so it is after every sequence of calls, and `epoll_wait`
   never reports more events than `m_handlermap` has entries.
-/

namespace NetFrame

/-! ## 1. Handlers -/

/-- A mask of `epoll` events. -/
abbrev Events := BitVec 32

def EPOLLIN : Events := 0x001
def EPOLLPRI : Events := 0x002
def POLLPRI : Events := 0x002
def EPOLLOUT : Events := 0x004
def EPOLLERR : Events := 0x008
def EPOLLHUP : Events := 0x010
def POLLNVAL : Events := 0x020
def EPOLLRDHUP : Events := 0x2000

/-- `m_state` of a handler: its place in the poller. -/
inductive HandlerState where
  | kNew
  | kAdded
  | kDeleted
  deriving DecidableEq, Repr

structure Handler where
  fd : Int
  events : Events
  revents : Events
  state : HandlerState
  deriving DecidableEq, Repr

namespace Handler

def kNoneEvent : Events := 0
def kReadEvent : Events := EPOLLIN ||| EPOLLPRI
def kWriteEvent : Events := EPOLLOUT

/-- The constructor. -/
def make (fd : Int) : Handler where
  fd := fd
  events := 0
  revents := 0
  state := .kNew

def isNoneEvent (h : Handler) : Bool := h.events == kNoneEvent

def isWriting (h : Handler) : Bool := h.events &&& kWriteEvent != 0

theorem isWriting_or {h : Handler} (e : Events) (he : h.events = e ||| kWriteEvent) :
    h.isWriting = true := by
  have hself : (e ||| kWriteEvent) &&& kWriteEvent = kWriteEvent := by
    ext i
    simp +contextual
  rw [isWriting, he, hself]
  decide

theorem isWriting_and {h : Handler} (e : Events) (he : h.events = e &&& ~~~kWriteEvent) :
    h.isWriting = false := by
  have hself : e &&& ~~~kWriteEvent &&& kWriteEvent = 0 := by
    ext i
    simp
  rw [isWriting, he, hself]
  decide

/-- The callbacks of a handler. -/
inductive Callback where
  | close
  | error
  | read
  | write
  deriving DecidableEq, Repr

/-- The callbacks that `Handler::m_handleEvent` makes for `m_revents`, in order. -/
def handleEvent (revents : Events) : List Callback :=
  (if revents &&& EPOLLHUP != 0 ∧ revents &&& EPOLLIN = 0 then [.close] else []) ++
  (if revents &&& (EPOLLERR ||| POLLNVAL) != 0 then [.error] else []) ++
  (if revents &&& (EPOLLIN ||| POLLPRI ||| EPOLLRDHUP) != 0 then [.read] else []) ++
  (if revents &&& EPOLLOUT != 0 then [.write] else [])

end Handler

/-! ## 2. The kernel and the poller -/

inductive CtlOp where
  | EPOLL_CTL_ADD
  | EPOLL_CTL_MOD
  | EPOLL_CTL_DEL
  deriving DecidableEq, Repr

/-- The kernel's interest set: for a descriptor its mask and its `data.ptr`. -/
abbrev Interest (H : Type) := Table Int (Events × H)

/-- `epoll_ctl` and what it returns: an `EPOLL_CTL_ADD` of a present descriptor
(`EEXIST`) and any other operation on an absent one (`ENOENT`) fail. -/
def epollCtl {H : Type} (k : Interest H) (op : CtlOp) (fd : Int) (event : Events × H) :
    Interest H × Int :=
  match op, (k.find fd).isSome with
  | .EPOLL_CTL_ADD, false => (k.insert fd event, 0)
  | .EPOLL_CTL_MOD, true => (k.insert fd event, 0)
  | .EPOLL_CTL_DEL, true => (k.erase fd, 0)
  | _, _ => (k, -1)

/-- An `EPollPoller` with the handlers it may point to and the interest set of
its `m_epollfd`. `errors` are the lines that `update` has printed. -/
structure EPollPoller (H : Type) where
  handlers : H → Handler
  handlermap : Table Int H
  interest : Interest H
  errors : List (CtlOp × Int)
  eventlistSize : Nat

namespace EPollPoller

variable {H : Type}

def kInitEventListSize : Nat := 16

/-- A new poller and new handlers on the descriptors `fds`. -/
def make (fds : H → Int) : EPollPoller H where
  handlers := fun h => Handler.make (fds h)
  handlermap := ∅
  interest := ∅
  errors := []
  eventlistSize := kInitEventListSize

/-- `EPollPoller::update`. -/
def update (p : EPollPoller H) (operation : CtlOp) (h : H) : EPollPoller H :=
  let fd := (p.handlers h).fd
  let (interest, ret) := epollCtl p.interest operation fd ((p.handlers h).events, h)
  { p with
    interest := interest
    errors := if ret < 0 then p.errors ++ [(operation, fd)] else p.errors }

theorem update_add {p : EPollPoller H} {h : H}
    (hnone : p.interest.find (p.handlers h).fd = none) :
    p.update .EPOLL_CTL_ADD h =
      { p with interest := p.interest.insert (p.handlers h).fd ((p.handlers h).events, h) } := by
  simp [update, epollCtl, hnone]

theorem update_mod {p : EPollPoller H} {h : H} {ev : Events × H}
    (hsome : p.interest.find (p.handlers h).fd = some ev) :
    p.update .EPOLL_CTL_MOD h =
      { p with interest := p.interest.insert (p.handlers h).fd ((p.handlers h).events, h) } := by
  simp [update, epollCtl, hsome]

theorem update_del {p : EPollPoller H} {h : H} {ev : Events × H}
    (hsome : p.interest.find (p.handlers h).fd = some ev) :
    p.update .EPOLL_CTL_DEL h =
      { p with interest := p.interest.erase (p.handlers h).fd } := by
  simp [update, epollCtl, hsome]

section

variable [DecidableEq H]

def setHandler (p : EPollPoller H) (h : H) (hd : Handler) : EPollPoller H :=
  { p with handlers := Function.update p.handlers h hd }

def setState (p : EPollPoller H) (h : H) (s : HandlerState) : EPollPoller H :=
  p.setHandler h { p.handlers h with state := s }

def setEvents (p : EPollPoller H) (h : H) (e : Events) : EPollPoller H :=
  p.setHandler h { p.handlers h with events := e }

@[simp] theorem setHandler_handlers (p : EPollPoller H) (h : H) (hd : Handler) :
    (p.setHandler h hd).handlers = Function.update p.handlers h hd := rfl

@[simp] theorem setHandler_handlermap (p : EPollPoller H) (h : H) (hd : Handler) :
    (p.setHandler h hd).handlermap = p.handlermap := rfl

@[simp] theorem setHandler_interest (p : EPollPoller H) (h : H) (hd : Handler) :
    (p.setHandler h hd).interest = p.interest := rfl

def updateHandler (p : EPollPoller H) (h : H) : Except Fault (EPollPoller H) := do
  let fd := (p.handlers h).fd
  let found := p.handlermap.find fd
  match (p.handlers h).state with
  | .kNew =>
    check (found = none) "m_handlermap.find(fd) == m_handlermap.end()"
    let p₁ := { p with handlermap := p.handlermap.insert fd h }
    return (p₁.setState h .kAdded).update .EPOLL_CTL_ADD h
  | .kDeleted =>
    check (found ≠ none) "m_handlermap.find(fd) != m_handlermap.end()"
    check (found = some h) "m_handlermap[fd] == handler"
    return (p.setState h .kAdded).update .EPOLL_CTL_ADD h
  | .kAdded =>
    check (found ≠ none) "m_handlermap.find(fd) != m_handlermap.end()"
    check (found = some h) "m_handlermap[fd] == handler"
    if (p.handlers h).isNoneEvent then
      return (p.update .EPOLL_CTL_DEL h).setState h .kDeleted
    else
      return p.update .EPOLL_CTL_MOD h

def removeHandler (p : EPollPoller H) (h : H) : Except Fault (EPollPoller H) := do
  let fd := (p.handlers h).fd
  let state := (p.handlers h).state
  check (p.handlermap.find fd ≠ none) "m_handlermap.find(fd) != m_handlermap.end()"
  check (p.handlermap.find fd = some h) "m_handlermap[fd] == handler"
  check ((p.handlers h).isNoneEvent = true) "handler->isNoneEvent()"
  check (state = .kAdded ∨ state = .kDeleted) "state == kAdded || state == kDeleted"
  let p₁ := { p with handlermap := p.handlermap.erase fd }
  let p₂ := if state = .kAdded then p₁.update .EPOLL_CTL_DEL h else p₁
  return p₂.setState h .kNew

/-! The calls of `Handler.h`, which change the mask and update. -/

def enableReading (p : EPollPoller H) (h : H) : Except Fault (EPollPoller H) :=
  (p.setEvents h ((p.handlers h).events ||| Handler.kReadEvent)).updateHandler h

def enableWriting (p : EPollPoller H) (h : H) : Except Fault (EPollPoller H) :=
  (p.setEvents h ((p.handlers h).events ||| Handler.kWriteEvent)).updateHandler h

def disableWriting (p : EPollPoller H) (h : H) : Except Fault (EPollPoller H) :=
  (p.setEvents h ((p.handlers h).events &&& ~~~Handler.kWriteEvent)).updateHandler h

def disableAll (p : EPollPoller H) (h : H) : Except Fault (EPollPoller H) :=
  (p.setEvents h Handler.kNoneEvent).updateHandler h

/-- `Handler::removeHandler`. -/
def remove (p : EPollPoller H) (h : H) : Except Fault (EPollPoller H) := do
  check ((p.handlers h).isNoneEvent = true) "isNoneEvent()"
  p.removeHandler h

/-- `fillActiveHandlers` on the events that `epoll_wait` has stored, with the
active handlers it adds. -/
def fillActiveHandlers (p : EPollPoller H) (events : List (Events × H)) :
    Except Fault (EPollPoller H × List H) := do
  check (events.length ≤ p.handlermap.keys.length) "numEvents <= m_handlermap.size()"
  return (events.foldl (fun q ev => q.setHandler ev.2 { q.handlers ev.2 with revents := ev.1 }) p,
    events.map Prod.snd)

/-- `PollEvent`, given what `epoll_wait` returns: the events, or an errno. -/
def pollEvent (p : EPollPoller H) (r : Except Int (List (Events × H))) :
    Except Fault (EPollPoller H × List H) :=
  match r with
  | .error _ => .ok (p, [])
  | .ok [] => .ok (p, [])
  | .ok events => do
    let (q, active) ← p.fillActiveHandlers events
    if events.length = q.eventlistSize then
      return ({ q with eventlistSize := q.eventlistSize * 2 }, active)
    else
      return (q, active)

end

/-- `close(fd)`: the kernel forgets the descriptor, the poller does not. -/
def close (p : EPollPoller H) (fd : Int) : EPollPoller H :=
  { p with interest := p.interest.erase fd }

/-- What `epoll_wait` can report, with the descriptors: no more events than the
list has room for, of different registered descriptors, each a part of its mask
or one of `EPOLLERR` and `EPOLLHUP`, which are always reported. -/
def EpollWait (p : EPollPoller H) (ready : List (Int × Events × H)) : Prop :=
  ready.length ≤ p.eventlistSize ∧ (ready.map Prod.fst).Nodup ∧
  ∀ r ∈ ready, ∃ mask, p.interest.find r.1 = some (mask, r.2.2) ∧
    r.2.1 &&& ~~~(mask ||| EPOLLERR ||| EPOLLHUP) = 0

theorem epollWait_iff {p : EPollPoller H} {ready : List (Int × Events × H)} :
    p.EpollWait ready ↔ ready.length ≤ p.eventlistSize ∧ (ready.map Prod.fst).Nodup ∧
      ∀ r ∈ ready, ∃ entry ∈ p.interest.find r.1, r.2.2 = entry.2 ∧
        r.2.1 &&& ~~~(entry.1 ||| EPOLLERR ||| EPOLLHUP) = 0 := by
  refine and_congr_right fun _ => and_congr_right fun _ => forall₂_congr fun r _ => ?_
  constructor
  · rintro ⟨mask, hfind, hmask⟩
    exact ⟨_, hfind, rfl, hmask⟩
  · rintro ⟨⟨mask, h⟩, hfind, rfl, hmask⟩
    exact ⟨mask, hfind, hmask⟩

instance [DecidableEq H] (p : EPollPoller H) (ready : List (Int × Events × H)) :
    Decidable (p.EpollWait ready) :=
  decidable_of_iff _ epollWait_iff.symm

/-! ## 3. Agreement -/

/-- The map and the interest set say what the handlers say, and no `epoll_ctl`
has failed. -/
structure Agree (p : EPollPoller H) : Prop where
  map_iff : ∀ fd h, p.handlermap.find fd = some h ↔
    (p.handlers h).fd = fd ∧ (p.handlers h).state ≠ .kNew
  interest_iff : ∀ fd mask h, p.interest.find fd = some (mask, h) ↔
    (p.handlers h).fd = fd ∧ (p.handlers h).state = .kAdded ∧ mask = (p.handlers h).events
  errors_nil : p.errors = []

/-- The handlers have different descriptors. -/
def Distinct (p : EPollPoller H) : Prop :=
  Function.Injective fun h => (p.handlers h).fd

/-- A poller that agrees with handlers of different descriptors. -/
structure Sound (p : EPollPoller H) : Prop where
  agree : Agree p
  distinct : Distinct p

/-- The two entries of the descriptor of `h` say what `h` says. -/
structure AgreeAt (p : EPollPoller H) (h : H) : Prop where
  map : p.handlermap.find (p.handlers h).fd =
    if (p.handlers h).state = .kNew then none else some h
  interest : p.interest.find (p.handlers h).fd =
    if (p.handlers h).state = .kAdded then some ((p.handlers h).events, h) else none

section

variable {p p' : EPollPoller H} {h : H}

/-- The fault of `updateHandler` for a new handler whose descriptor is in the map. -/
def clash : Fault := .assertion "m_handlermap.find(fd) == m_handlermap.end()"

theorem AgreeAt.found (hA : AgreeAt p h) (hs : (p.handlers h).state ≠ .kNew) :
    p.handlermap.find (p.handlers h).fd = some h := by
  rw [hA.map, if_neg hs]

theorem AgreeAt.not_found (hA : AgreeAt p h) (hs : (p.handlers h).state = .kNew) :
    p.handlermap.find (p.handlers h).fd = none := by
  rw [hA.map, if_pos hs]

theorem AgreeAt.registered (hA : AgreeAt p h) (hs : (p.handlers h).state = .kAdded) :
    p.interest.find (p.handlers h).fd = some ((p.handlers h).events, h) := by
  rw [hA.interest, if_pos hs]

theorem AgreeAt.not_registered (hA : AgreeAt p h) (hs : (p.handlers h).state ≠ .kAdded) :
    p.interest.find (p.handlers h).fd = none := by
  rw [hA.interest, if_neg hs]

theorem Sound.agreeAt (hp : Sound p) (h : H) : AgreeAt p h := by
  obtain ⟨hA, hp⟩ := hp
  constructor
  · split_ifs with hs
    · rw [Option.eq_none_iff_forall_ne_some]
      intro g hg
      obtain ⟨hfd, hstate⟩ := (hA.map_iff _ _).mp hg
      cases hp hfd
      exact hstate hs
    · exact (hA.map_iff _ _).mpr ⟨rfl, hs⟩
  · split_ifs with hs
    · exact (hA.interest_iff _ _ _).mpr ⟨rfl, hs, rfl⟩
    · rw [Option.eq_none_iff_forall_ne_some]
      rintro ⟨mask, g⟩ hg
      obtain ⟨hfd, hstate, -⟩ := (hA.interest_iff _ _ _).mp hg
      cases hp hfd
      exact hs hstate

/-- A poller agrees with its handlers when it agrees with each of them and has no
entry under the descriptor of another. -/
theorem Agree.of_agreeAt (hA : ∀ g, AgreeAt p g)
    (hmap : ∀ fd g, p.handlermap.find fd = some g → (p.handlers g).fd = fd)
    (hinterest : ∀ fd mask g, p.interest.find fd = some (mask, g) → (p.handlers g).fd = fd)
    (herrors : p.errors = []) : Agree p := by
  refine ⟨fun fd g => ⟨fun hfind => ?_, ?_⟩, fun fd mask g => ⟨fun hfind => ?_, ?_⟩, herrors⟩
  · obtain rfl := hmap fd g hfind
    refine ⟨rfl, fun hs => ?_⟩
    rw [(hA g).not_found hs] at hfind
    cases hfind
  · rintro ⟨rfl, hs⟩
    exact (hA g).found hs
  · obtain rfl := hinterest fd mask g hfind
    rw [(hA g).interest] at hfind
    split_ifs at hfind with hs
    cases hfind
    exact ⟨rfl, hs, rfl⟩
  · rintro ⟨rfl, hs, rfl⟩
    exact (hA g).registered hs

variable [DecidableEq H]

/-- What a call on `h` may change: the record of `h`, and the two entries of its
descriptor, which say what the new record says. -/
structure Local (p p' : EPollPoller H) (h : H) (hd : Handler) : Prop where
  handlers : p'.handlers = Function.update p.handlers h hd
  fd : hd.fd = (p.handlers h).fd
  map : ∀ fd, p'.handlermap.find fd =
    if fd = hd.fd then (if hd.state = .kNew then none else some h) else p.handlermap.find fd
  interest : ∀ fd, p'.interest.find fd =
    if fd = hd.fd then (if hd.state = .kAdded then some (hd.events, h) else none)
    else p.interest.find fd
  errors : p'.errors = p.errors
  size : p'.eventlistSize = p.eventlistSize

theorem Local.self {hd : Handler} (hl : Local p p' h hd) : p'.handlers h = hd := by
  rw [hl.handlers, Function.update_self]

theorem Local.other {hd : Handler} (hl : Local p p' h hd) {g : H} (hg : g ≠ h) :
    p'.handlers g = p.handlers g := by
  rw [hl.handlers, Function.update_of_ne hg]

theorem Local.fd_eq {hd : Handler} (hl : Local p p' h hd) (g : H) :
    (p'.handlers g).fd = (p.handlers g).fd := by
  by_cases hg : g = h
  · rw [hg, hl.self, hl.fd]
  · rw [hl.other hg]

theorem Local.agreeAt {hd : Handler} (hl : Local p p' h hd) : AgreeAt p' h := by
  constructor
  · rw [hl.self, hl.map, if_pos rfl]
  · rw [hl.self, hl.interest, if_pos rfl]

/-- A call on `h` keeps the agreement at a handler on another descriptor. -/
theorem Local.agreeAt_other {hd : Handler} (hl : Local p p' h hd) {g : H} (hA : AgreeAt p g)
    (hfd : (p.handlers g).fd ≠ (p.handlers h).fd) : AgreeAt p' g := by
  have hg : g ≠ h := fun heq => hfd (heq ▸ rfl)
  have hne : (p.handlers g).fd ≠ hd.fd := fun heq => hfd (heq.trans hl.fd)
  constructor
  · rw [hl.other hg, hl.map, if_neg hne]
    exact hA.map
  · rw [hl.other hg, hl.interest, if_neg hne]
    exact hA.interest

theorem Local.refl (hA : AgreeAt p h) : Local p p h (p.handlers h) :=
  ⟨(Function.update_eq_self _ _).symm, rfl, Table.find_rewrite hA.map,
    Table.find_rewrite hA.interest, rfl, rfl⟩

theorem Local.trans {q : EPollPoller H} {hd hd' : Handler} (hl : Local p p' h hd)
    (hl' : Local p' q h hd') : Local p q h hd' := by
  have hfd : hd'.fd = hd.fd := hl'.fd.trans (by rw [hl.self])
  refine ⟨?_, hfd.trans hl.fd, fun fd => ?_, fun fd => ?_, hl'.errors.trans hl.errors,
    hl'.size.trans hl.size⟩
  · rw [hl'.handlers, hl.handlers, Function.update_idem]
  · rw [hl'.map, hl.map, hfd]
    split_ifs <;> rfl
  · rw [hl'.interest, hl.interest, hfd]
    split_ifs <;> rfl

theorem Local.distinct {hd : Handler} (hl : Local p p' h hd) (hp : Distinct p) : Distinct p' := by
  intro g g' heq
  apply hp
  simpa only [hl.fd_eq] using heq

/-- A local change keeps agreement. -/
theorem Local.agree {hd : Handler} (hl : Local p p' h hd) (hA : Agree p) (hp : Distinct p) :
    Agree p' := by
  refine .of_agreeAt (fun g => ?_) (fun fd g hfind => ?_) (fun fd mask g hfind => ?_)
    (hl.errors.trans hA.errors_nil)
  · by_cases hg : g = h
    · exact hg ▸ hl.agreeAt
    · exact hl.agreeAt_other (Sound.agreeAt ⟨hA, hp⟩ g) fun hfd => hg (hp hfd)
  · rw [hl.map] at hfind
    rw [hl.fd_eq]
    split_ifs at hfind with hfd hs
    · cases hfind
      exact (hfd.trans hl.fd).symm
    · exact ((hA.map_iff fd g).mp hfind).1
  · rw [hl.interest] at hfind
    rw [hl.fd_eq]
    split_ifs at hfind with hfd hs
    · cases hfind
      exact (hfd.trans hl.fd).symm
    · exact ((hA.interest_iff fd mask g).mp hfind).1

theorem Local.sound {hd : Handler} (hl : Local p p' h hd) (hp : Sound p) : Sound p' :=
  ⟨hl.agree hp.agree hp.distinct, hl.distinct hp.distinct⟩

/-! ## 4. The calls on one handler -/

/-- The state after `updateHandler` with the mask `e`. -/
def nextState (s : HandlerState) (e : Events) : HandlerState :=
  if s = .kAdded ∧ e = Handler.kNoneEvent then .kDeleted else .kAdded

theorem nextState_ne_kNew (s : HandlerState) (e : Events) : nextState s e ≠ .kNew := by
  unfold nextState
  split <;> simp

/-- The record of a handler after a call that gives it the mask `e`. -/
def nextHandler (hd : Handler) (e : Events) : Handler :=
  { hd with events := e, state := nextState hd.state e }

theorem nextHandler_added {hd : Handler} {e : Events}
    (h : ¬(hd.state = .kAdded ∧ e = Handler.kNoneEvent)) :
    nextHandler hd e = { hd with events := e, state := .kAdded } := by
  rw [nextHandler, nextState, if_neg h]

theorem nextHandler_deleted {hd : Handler} {e : Events} (hs : hd.state = .kAdded)
    (he : e = Handler.kNoneEvent) :
    nextHandler hd e = { hd with events := e, state := .kDeleted } := by
  rw [nextHandler, nextState, if_pos ⟨hs, he⟩]

/-- `updateHandler` after a change of the mask: the four calls of `Handler.h`. -/
theorem updateHandler_spec (hA : AgreeAt p h) (e : Events) :
    ∃ p', (p.setEvents h e).updateHandler h = .ok p' ∧
      Local p p' h (nextHandler (p.handlers h) e) := by
  have hself : (p.setEvents h e).handlers h = { p.handlers h with events := e } := by
    simp [setEvents]
  unfold updateHandler
  rw [hself]
  cases hs : (p.handlers h).state with
  | kNew =>
    -- the descriptor is unknown to the map and to the kernel
    have hreg := hA.not_registered (by simp [hs])
    rw [nextHandler_added (by simp [hs])]
    refine ⟨_, check_bind (hA.not_found hs), ?_⟩
    rw [update_add (by simpa [setState, setEvents] using hreg)]
    refine ⟨by simp [setState, setEvents], rfl, fun fd => ?_, fun fd => ?_, rfl, rfl⟩
    · refine (Table.find_insert p.handlermap (p.handlers h).fd fd h).trans ?_
      simp
    · simpa [setState, setEvents] using
        Table.find_insert p.interest (p.handlers h).fd fd (e, h)
  | kDeleted =>
    -- it is in the map, but not in the interest set
    have hfound := hA.found (by simp [hs])
    have hreg := hA.not_registered (by simp [hs])
    rw [nextHandler_added (by simp [hs])]
    refine ⟨_, (check_bind (hfound.trans_ne (by simp))).trans (check_bind hfound), ?_⟩
    rw [update_add (by simpa [setState, setEvents] using hreg)]
    refine ⟨by simp [setState, setEvents], rfl, fun fd => ?_, fun fd => ?_, rfl, rfl⟩
    · refine (Table.find_rewrite hfound fd).trans ?_
      simp
    · simpa [setState, setEvents] using
        Table.find_insert p.interest (p.handlers h).fd fd (e, h)
  | kAdded =>
    have hfound := hA.found (by simp [hs])
    have hin : (p.setEvents h e).interest.find ((p.setEvents h e).handlers h).fd =
        some ((p.handlers h).events, h) := by
      rw [hself]
      exact hA.registered hs
    by_cases he : e = Handler.kNoneEvent
    · rw [nextHandler_deleted hs he]
      refine ⟨_, ((check_bind (hfound.trans_ne (by simp))).trans (check_bind hfound)).trans
        (if_pos (by simp [Handler.isNoneEvent, he])), ?_⟩
      rw [update_del hin, hself]
      refine ⟨by simp [setState, setEvents, he], rfl, fun fd => ?_, fun fd => ?_,
        rfl, rfl⟩
      · refine (Table.find_rewrite hfound fd).trans ?_
        simp
      · refine (Table.find_erase p.interest (p.handlers h).fd fd).trans ?_
        simp
    · rw [nextHandler_added (by simp [he])]
      refine ⟨_, ((check_bind (hfound.trans_ne (by simp))).trans (check_bind hfound)).trans
        (if_neg (by simp [Handler.isNoneEvent, he])), ?_⟩
      rw [update_mod hin, hself]
      refine ⟨by simp [setEvents, hs], rfl, fun fd => ?_, fun fd => ?_, rfl, rfl⟩
      · refine (Table.find_rewrite hfound fd).trans ?_
        simp
      · refine (Table.find_insert p.interest (p.handlers h).fd fd (e, h)).trans ?_
        simp

/-- `removeHandler` of a handler without events that is in the map. -/
theorem remove_spec (hA : AgreeAt p h) (hs : (p.handlers h).state ≠ .kNew)
    (he : (p.handlers h).events = Handler.kNoneEvent) :
    ∃ p', p.remove h = .ok p' ∧ Local p p' h { p.handlers h with state := .kNew } := by
  have hfound := hA.found hs
  have hnone : (p.handlers h).isNoneEvent = true := by simp [Handler.isNoneEvent, he]
  have hstate : (p.handlers h).state = .kAdded ∨ (p.handlers h).state = .kDeleted := by
    cases hst : (p.handlers h).state <;> simp_all
  refine ⟨_, (check_bind hnone).trans ((check_bind (by simp [hfound])).trans
    ((check_bind hfound).trans ((check_bind hnone).trans (check_bind hstate)))), ?_⟩
  by_cases hadd : (p.handlers h).state = .kAdded
  · have hin : ({ p with handlermap := p.handlermap.erase (p.handlers h).fd } :
        EPollPoller H).interest.find (p.handlers h).fd = some ((p.handlers h).events, h) :=
      hA.registered hadd
    rw [if_pos hadd, update_del hin]
    refine ⟨rfl, rfl, fun fd => ?_, fun fd => ?_, rfl, rfl⟩
    · exact Table.find_erase p.handlermap (p.handlers h).fd fd
    · exact Table.find_erase p.interest (p.handlers h).fd fd
  · rw [if_neg hadd]
    refine ⟨rfl, rfl, fun fd => ?_, fun fd => ?_, rfl, rfl⟩
    · exact Table.find_erase p.handlermap (p.handlers h).fd fd
    · exact Table.find_rewrite (hA.not_registered hadd) fd

end

/-! ## 5. What enters the interest set -/

section

variable {p q : EPollPoller H} {h h' : H} {fd : Int} {mask : Events}

theorem update_find {op : CtlOp} (hfind : (p.update op h).interest.find fd = some (mask, h')) :
    h' = h ∨ p.interest.find fd = some (mask, h') := by
  have hinsert : (Table.find (p.interest.insert (p.handlers h).fd ((p.handlers h).events, h)) fd) =
      some (mask, h') → h' = h ∨ p.interest.find fd = some (mask, h') := by
    intro hfind
    rw [Table.find_insert] at hfind
    split at hfind
    · cases hfind
      exact .inl rfl
    · exact .inr hfind
  have herase : Table.find (p.interest.erase (p.handlers h).fd) fd = some (mask, h') →
      h' = h ∨ p.interest.find fd = some (mask, h') := by
    intro hfind
    rw [Table.find_erase] at hfind
    split at hfind
    · cases hfind
    · exact .inr hfind
  cases hsome : (p.interest.find (p.handlers h).fd).isSome <;> cases op <;>
    simp only [update, epollCtl, hsome] at hfind
  · exact hinsert hfind
  · exact .inr hfind
  · exact .inr hfind
  · exact .inr hfind
  · exact hinsert hfind
  · exact herase hfind

variable [DecidableEq H]

theorem updateHandler_find (hok : p.updateHandler h = .ok q)
    (hfind : q.interest.find fd = some (mask, h')) :
    h' = h ∨ p.interest.find fd = some (mask, h') := by
  unfold updateHandler at hok
  cases hstate : (p.handlers h).state with
  | kNew =>
    rw [hstate] at hok
    cases (check_bind_ok.mp hok).2
    have hentered := update_find hfind
    exact hentered
  | kDeleted =>
    rw [hstate] at hok
    cases (check_bind_ok.mp (check_bind_ok.mp hok).2).2
    have hentered := update_find hfind
    exact hentered
  | kAdded =>
    rw [hstate] at hok
    replace hok := (check_bind_ok.mp (check_bind_ok.mp hok).2).2
    split at hok
    · cases hok
      exact update_find hfind
    · cases hok
      exact update_find hfind

/-- `removeHandler` enters nothing. -/
theorem remove_find (hok : p.remove h = .ok q) (hfind : q.interest.find fd = some (mask, h')) :
    h' = h ∨ p.interest.find fd = some (mask, h') := by
  replace hok := (check_bind_ok.mp hok).2
  unfold removeHandler at hok
  cases (check_bind_ok.mp (check_bind_ok.mp (check_bind_ok.mp (check_bind_ok.mp hok).2).2).2).2
  split at hfind
  · exact update_find hfind
  · exact .inr hfind

theorem setHandlers_interest (events : List (Events × H)) (p : EPollPoller H) :
    (events.foldl (fun q ev => q.setHandler ev.2 { q.handlers ev.2 with revents := ev.1 })
      p).interest = p.interest := by
  induction events generalizing p with
  | nil => rfl
  | cons ev events ih =>
    rw [List.foldl_cons, ih]
    rfl

/-- `PollEvent` marks the handlers of the events as active. -/
theorem pollEvent_spec {events : List (Events × H)} {active : List H}
    (hok : p.pollEvent (.ok events) = .ok (q, active)) :
    q.interest = p.interest ∧ active = events.map Prod.snd := by
  unfold pollEvent at hok
  split at hok
  · next heq => cases heq
  · next heq =>
    cases heq
    cases hok
    exact ⟨rfl, rfl⟩
  · next evs _ heq =>
    cases heq
    obtain ⟨⟨r, found⟩, hfill, hok⟩ := bind_ok.mp hok
    cases (check_bind_ok.mp hfill).2
    dsimp only at hok
    split at hok
    · cases hok
      exact ⟨setHandlers_interest _ p, rfl⟩
    · cases hok
      exact ⟨setHandlers_interest _ p, rfl⟩

end

/-! ## 6. Runs -/

section

variable [DecidableEq H]

/-- The calls that change what a handler wants to hear of. -/
inductive Call (H : Type) where
  | enableReading (h : H)
  | enableWriting (h : H)
  | disableWriting (h : H)
  | disableAll (h : H)
  | removeHandler (h : H)
  deriving DecidableEq, Repr

def execCall (p : EPollPoller H) (c : Call H) : Except Fault (EPollPoller H × Unit) :=
  (match c with
    | .enableReading h => p.enableReading h
    | .enableWriting h => p.enableWriting h
    | .disableWriting h => p.disableWriting h
    | .disableAll h => p.disableAll h
    | .removeHandler h => p.remove h).map fun q => (q, ())

/-- `removeHandler` is called only without events and with the handler in the map. -/
def Legal (p : EPollPoller H) : Call H → Prop
  | .removeHandler h =>
    (p.handlers h).isNoneEvent = true ∧ p.handlermap.find (p.handlers h).fd = some h
  | _ => True

instance (p : EPollPoller H) (c : Call H) : Decidable (Legal p c) := by
  cases c <;> unfold Legal <;> infer_instance

/-- What the calls mean for the handlers alone: each record is changed by the
calls on it and by no other. -/
def specCall (t : H → Handler) (c : Call H) : (H → Handler) × Unit :=
  (match c with
    | .enableReading h =>
      Function.update t h (nextHandler (t h) ((t h).events ||| Handler.kReadEvent))
    | .enableWriting h =>
      Function.update t h (nextHandler (t h) ((t h).events ||| Handler.kWriteEvent))
    | .disableWriting h =>
      Function.update t h (nextHandler (t h) ((t h).events &&& ~~~Handler.kWriteEvent))
    | .disableAll h => Function.update t h (nextHandler (t h) Handler.kNoneEvent)
    | .removeHandler h => Function.update t h { t h with state := .kNew }, ())

/-- A sound poller with the handler records `t`. -/
structure Models (p : EPollPoller H) (t : H → Handler) : Prop extends Sound p where
  handlers : p.handlers = t

theorem execCall_implements :
    Trans.Implements (execCall (H := H)) specCall Legal Models := by
  rintro p t c hm hl
  obtain rfl := hm.handlers
  have hevents : ∀ h e, ∃ p', (p.setEvents h e).updateHandler h = .ok p' ∧
      Models p' (Function.update p.handlers h (nextHandler (p.handlers h) e)) := by
    intro h e
    obtain ⟨p', hok, hlocal⟩ := updateHandler_spec (hm.agreeAt h) e
    exact ⟨p', hok, hlocal.sound hm.toSound, hlocal.handlers⟩
  cases c with
  | enableReading h =>
    obtain ⟨p', hok, hm'⟩ := hevents h ((p.handlers h).events ||| Handler.kReadEvent)
    exact ⟨p', by simp [execCall, enableReading, hok, Except.map, specCall], hm'⟩
  | enableWriting h =>
    obtain ⟨p', hok, hm'⟩ := hevents h ((p.handlers h).events ||| Handler.kWriteEvent)
    exact ⟨p', by simp [execCall, enableWriting, hok, Except.map, specCall], hm'⟩
  | disableWriting h =>
    obtain ⟨p', hok, hm'⟩ := hevents h ((p.handlers h).events &&& ~~~Handler.kWriteEvent)
    exact ⟨p', by simp [execCall, disableWriting, hok, Except.map, specCall], hm'⟩
  | disableAll h =>
    obtain ⟨p', hok, hm'⟩ := hevents h Handler.kNoneEvent
    exact ⟨p', by simp [execCall, disableAll, hok, Except.map, specCall], hm'⟩
  | removeHandler h =>
    obtain ⟨hnone, hfound⟩ := hl
    obtain ⟨p', hok, hlocal⟩ := remove_spec (hm.agreeAt h)
      ((hm.agree.map_iff _ _).mp hfound).2 (by simpa [Handler.isNoneEvent] using hnone)
    exact ⟨p', by simp [execCall, hok, Except.map, specCall], hlocal.sound hm.toSound,
      hlocal.handlers⟩

end

theorem make_models {fds : H → Int} (hfds : Function.Injective fds) :
    Models (make fds) fun h => Handler.make (fds h) :=
  ⟨⟨⟨by simp [make, Handler.make], by simp [make, Handler.make], rfl⟩, hfds⟩, rfl⟩

/-- On a poller that agrees, `epoll_wait` reports no more events than the map
has entries, since the registered descriptors are in the map. -/
theorem Agree.ready_le [DecidableEq H] {p : EPollPoller H} (hA : Agree p)
    {ready : List (Int × Events × H)} (hw : EpollWait p ready) :
    ready.length ≤ p.handlermap.keys.length := by
  obtain ⟨-, hnd, hreg⟩ := hw
  rw [← List.length_map Prod.fst]
  refine Table.keys_length_le hnd fun fd hfd => ?_
  obtain ⟨r, hr, rfl⟩ := List.mem_map.mp hfd
  obtain ⟨mask, hfind, -⟩ := hreg r hr
  obtain ⟨hfd, hstate, -⟩ := (hA.interest_iff _ _ _).mp hfind
  exact ⟨r.2.2, (hA.map_iff _ _).mpr ⟨hfd, by simp [hstate]⟩⟩

theorem fillActiveHandlers_ok [DecidableEq H] {p : EPollPoller H} {events : List (Events × H)}
    (hle : events.length ≤ p.handlermap.keys.length) :
    ∃ r, p.fillActiveHandlers events = .ok r :=
  ⟨_, check_bind hle⟩

theorem pollEvent_ok [DecidableEq H] {p : EPollPoller H} {events : List (Events × H)}
    (hle : events.length ≤ p.handlermap.keys.length) :
    ∃ r, p.pollEvent (.ok events) = .ok r := by
  cases events with
  | nil => exact ⟨_, rfl⟩
  | cons ev evs =>
    obtain ⟨⟨q, active⟩, hfill⟩ := fillActiveHandlers_ok hle
    simp only [pollEvent, hfill, ok_bind]
    split <;> exact ⟨_, rfl⟩

/-- Poller, handlers and kernel agree after every sequence of legal calls on
handlers with different descriptors, each of which is then as its own calls
made it; and what `epoll_wait` may report then passes the assertion of
`fillActiveHandlers`. -/
theorem poller_agrees [DecidableEq H] (fds : H → Int) (hfds : Function.Injective fds)
    (calls : List (Call H)) (hl : Trans.LegalOps execCall Legal (make fds) calls) :
    ∃ p rs, Trans.runOps execCall (make fds) calls = .ok (p, rs) ∧ Agree p ∧
      p.handlers = (Trans.specOps specCall (fun h => Handler.make (fds h)) calls).1 ∧
      ∀ ready, EpollWait p ready → ready.length ≤ p.handlermap.keys.length ∧
        ∃ r, p.pollEvent (.ok (ready.map Prod.snd)) = .ok r := by
  obtain ⟨p, hrun, hm⟩ := execCall_implements.run calls (make_models hfds) hl
  refine ⟨p, _, hrun, hm.agree, hm.handlers, fun ready hw => ⟨hm.agree.ready_le hw, ?_⟩⟩
  apply pollEvent_ok
  rw [List.length_map]
  exact hm.agree.ready_le hw

/-- Two handlers whose calls meet every branch of `updateHandler` and
`removeHandler`: the second call on `true` finds it deleted. -/
def twoHandlers : List (Call Bool) :=
  [.enableReading true, .enableReading false, .enableWriting true, .disableAll true,
    .enableReading true, .disableAll true, .removeHandler true, .enableWriting true]

theorem twoHandlers_agree :
    ∃ p rs, Trans.runOps execCall (make fun b : Bool => if b then 5 else 7) twoHandlers =
        .ok (p, rs) ∧ Agree p ∧
      p.handlers = (Trans.specOps specCall
        (fun b : Bool => Handler.make (if b then 5 else 7)) twoHandlers).1 ∧
      ∀ ready, EpollWait p ready → ready.length ≤ p.handlermap.keys.length ∧
        ∃ r, p.pollEvent (.ok (ready.map Prod.snd)) = .ok r :=
  poller_agrees _ (by unfold Function.Injective; decide) twoHandlers (by decide +kernel)

end EPollPoller

end NetFrame
