import NetFrame.PollerLinks
import Mathlib.Data.List.Infix

/-!
# The handlers of a loop and what they point to

`EventLoop::loop`, `EventLoop::updateHandler` and `EventLoop::removeHandler` with
`Handler::handleEvent` and the poller. A `Handler` is an object of the user, who
constructs and destroys it; the loop, the poller and the kernel keep bare pointers to
it, in `m_activeHandlers`, `m_handlermap` and `epoll_event::data`. The callbacks and the
functors are any calls on handlers, constructions and destructions.

Results:
1. `no_dangling_handler`: while no handler is destroyed that is still in the poller, no
   pointer to a destroyed one is ever followed.
2. `handles_reported`: each event that `epoll_wait` reports is handled once, in order,
   with the callbacks that its mask asks for.
3. `eventlist_bounded`: `m_eventlist` doubles and stays within twice the largest number
   of handlers.
-/

namespace NetFrame

/-! ## 1. handleEvent -/

namespace Handler

/-- The conditions of `m_handleEvent`, by the callback that each guards. -/
def fires (revents : Events) : Callback → Bool
  | .close => decide (revents &&& EPOLLHUP != 0 ∧ revents &&& EPOLLIN = 0)
  | .error => revents &&& (EPOLLERR ||| POLLNVAL) != 0
  | .read => revents &&& (EPOLLIN ||| POLLPRI ||| EPOLLRDHUP) != 0
  | .write => revents &&& EPOLLOUT != 0

def callbacks : List Callback := [.close, .error, .read, .write]

theorem filter_fires (revents : Events) :
    callbacks.filter (fires revents) = handleEvent revents := by
  have hsplit : callbacks = [.close] ++ [.error] ++ [.read] ++ [.write] := rfl
  simp only [hsplit, List.filter_append, List.filter_singleton, fires, handleEvent,
    Bool.cond_eq_ite, decide_eq_true_eq]

end Handler

namespace ActiveHandlers

open EPollPoller (Call Linked Touches)
open Handler (Callback callbacks fires)

/-! ## 2. The loop -/

/-- Where the loop's thread is. -/
inductive Pc (H : Type) where
  /-- In code outside of `loop`. -/
  | outside
  | polling
  /-- At the test of the `for`, with the handlers from `it` on. -/
  | iterating (todo : List H)
  /-- In `m_handleEvent` of a handler: the callbacks made so far, the conditions that
  are left, and whether it is in the last of these callbacks. -/
  | handling (h : H) (made checks : List Callback) (inCallback : Bool) (todo : List H)
  /-- At the end of `handleEvent`, where the guard of a tie is released. -/
  | releasing (todo : List H)
  /-- In `m_doPendingFunctors`. -/
  | functors
  deriving DecidableEq, Repr

/-- The code of a user runs: before and after `loop`, in a callback, in the destructor of
the owner that a guard was the last to hold, in a functor. -/
def Pc.userRuns {H : Type} : Pc H → Bool
  | .outside | .functors | .releasing _ => true
  | .handling _ _ _ inCallback _ => inCallback
  | .polling | .iterating _ => false

inductive Crash (H : Type) where
  | fault (f : Fault)
  /-- A pointer to a handler was followed after its destruction. -/
  | useAfterFree (h : H)
  deriving DecidableEq, Repr

structure State (H : Type) where
  poller : EPollPoller H
  /-- The handlers between their constructor and their destructor. -/
  alive : H → Bool
  /-- `m_bEventHandling` of each handler. -/
  bEventHandling : H → Bool
  pc : Pc H
  activeHandlers : List H
  currentActiveHandler : Option H
  /-- `m_beventHandling` of the loop. -/
  beventHandling : Bool
  crashed : Option (Crash H)
  /-- All events that `epoll_wait` has reported. -/
  reported : List (Events × H)
  /-- The handlers on which `handleEvent` has returned, each with the callbacks that it
  has made, or without when its tie had expired. -/
  handled : List (H × Option (List Callback))

/-- The steps of the loop, and what the code of a user may do. -/
inductive Act (H : Type) where
  | construct (h : H) (fd : Int)
  | destroy (h : H)
  | call (c : Call H)
  | close (fd : Int)
  | loop
  /-- `PollEvent`, where `epoll_wait` reports these events or fails. -/
  | pollEvent (r : Except Int (List (Int × Events × H)))
  /-- `(*it)->handleEvent()`, up to the first condition of `m_handleEvent`. -/
  | handleEvent (expired : Bool)
  /-- The next condition of `m_handleEvent`. -/
  | test
  /-- The callback returns; an empty one does so at once. -/
  | returns
  | eventHandled
  | released
  /-- The end of the `for`. -/
  | iterated
  /-- The functors have been run, and `m_bquit` is tested. -/
  | doneFunctors (quit : Bool)

section

variable {H : Type}

/-- What `epoll_wait` can return. -/
def Reports (p : EPollPoller H) : Except Int (List (Int × Events × H)) → Prop
  | .ok ready => p.EpollWait ready
  | .error _ => True

def State.crash (s : State H) (c : Crash H) : State H := { s with crashed := some c }

/-- The loop goes on to `t` by following a pointer to `h`. -/
def State.follow (s : State H) (h : H) (t : State H) : State H :=
  if s.alive h then t else s.crash (.useAfterFree h)

/-- The events that were reported. -/
def reports : Except Int (List (Int × Events × H)) → List (Events × H)
  | .ok ready => ready.map Prod.snd
  | .error _ => []

variable [DecidableEq H]

instance (p : EPollPoller H) (r : Except Int (List (Int × Events × H))) :
    Decidable (Reports p r) := by
  cases r <;> unfold Reports <;> infer_instance

/-- The assert of `EventLoop::removeHandler`. -/
def State.assertRemovable (s : State H) (h : H) : Except Fault Unit :=
  if s.beventHandling then
    check (s.currentActiveHandler = some h ∨ h ∉ s.activeHandlers)
      "m_currentActiveHandler == handle || std::find(...) == m_activeHandlers.end()"
  else .ok ()

/-- `Handler::removeHandler` with `EventLoop::removeHandler`. -/
def State.removeHandler (s : State H) (h : H) : Except Fault (EPollPoller H) := do
  check ((s.poller.handlers h).isNoneEvent = true) "isNoneEvent()"
  s.assertRemovable h
  s.poller.removeHandler h

/-- A call on a handler, through `EventLoop::updateHandler` or `removeHandler`. -/
def State.exec (s : State H) : Call H → Except Fault (EPollPoller H)
  | .enableReading h => s.poller.enableReading h
  | .enableWriting h => s.poller.enableWriting h
  | .disableWriting h => s.poller.disableWriting h
  | .disableAll h => s.poller.disableAll h
  | .removeHandler h => s.removeHandler h

/-- `PollEvent` and `m_activeHandlers.clear()` before it. -/
def State.pollEvent (s : State H) (r : Except Int (List (Int × Events × H))) : State H :=
  match s.poller.pollEvent (r.map fun ready => ready.map Prod.snd) with
  | .error f => { s with activeHandlers := [] }.crash (.fault f)
  | .ok (p, active) =>
    -- `fillActiveHandlers` calls `setRevents` on each of them
    match active.find? fun h => !s.alive h with
    | some h => { s with activeHandlers := [] }.crash (.useAfterFree h)
    | none => { s with
        poller := p
        pc := .iterating active
        activeHandlers := active
        beventHandling := true
        reported := s.reported ++ reports r }

def State.go (s : State H) : Act H → Option (State H)
  | .construct h fd =>
    if s.pc.userRuns ∧ s.alive h = false then
      some { s with
        poller := s.poller.setHandler h (.make fd)
        alive := Function.update s.alive h true
        bEventHandling := Function.update s.bEventHandling h false }
    else none
  | .destroy h =>
    if s.pc.userRuns ∧ s.alive h then
      some (if s.bEventHandling h then s.crash (.fault (.assertion "!m_bEventHandling"))
        else { s with alive := Function.update s.alive h false })
    else none
  | .call c =>
    if s.pc.userRuns ∧ s.alive c.handler then
      some (match s.exec c with
        | .ok p => { s with poller := p }
        | .error f => s.crash (.fault f))
    else none
  | .close fd => if s.pc.userRuns then some { s with poller := s.poller.close fd } else none
  | .loop =>
    if s.pc.userRuns then
      some (match s.pc with
        | .outside => { s with pc := .polling }
        | _ => s.crash (.fault (.assertion "!m_blooping")))
    else none
  | .pollEvent r =>
    match s.pc with
    | .polling => if Reports s.poller r then some (s.pollEvent r) else none
    | _ => none
  | .handleEvent expired =>
    match s.pc with
    | .iterating (h :: todo) =>
      let s := { s with currentActiveHandler := some h }
      some (s.follow h (
        if expired then
          { s with pc := .iterating todo, handled := s.handled ++ [(h, none)] }
        else
          { s with
            pc := .handling h [] callbacks false todo
            bEventHandling := Function.update s.bEventHandling h true }))
    | _ => none
  | .test =>
    match s.pc with
    | .handling h made (c :: checks) false todo =>
      some (s.follow h { s with
        pc := if fires (s.poller.handlers h).revents c then
            .handling h (made ++ [c]) checks true todo
          else .handling h made checks false todo })
    | _ => none
  | .returns =>
    match s.pc with
    | .handling h made checks true todo =>
      some { s with pc := .handling h made checks false todo }
    | _ => none
  | .eventHandled =>
    match s.pc with
    | .handling h made [] false todo =>
      some (s.follow h { s with
        pc := .releasing todo
        bEventHandling := Function.update s.bEventHandling h false
        handled := s.handled ++ [(h, some made)] })
    | _ => none
  | .released =>
    match s.pc with
    | .releasing todo => some { s with pc := .iterating todo }
    | _ => none
  | .iterated =>
    match s.pc with
    | .iterating [] =>
      some { s with pc := .functors, currentActiveHandler := none, beventHandling := false }
    | _ => none
  | .doneFunctors quit =>
    match s.pc with
    | .functors => some { s with pc := if quit then .outside else .polling }
    | _ => none

/-- A step of the loop's thread, while it has not crashed. -/
def step (s : State H) (a : Act H) : Option (State H) :=
  if s.crashed = none then s.go a else none

/-- A loop right after its constructor; no handler has been constructed yet. -/
def start : State H where
  poller := .make fun _ => -1
  alive := fun _ => false
  bEventHandling := fun _ => false
  pc := .outside
  activeHandlers := []
  currentActiveHandler := none
  beventHandling := false
  crashed := none
  reported := []
  handled := []

variable (H) in
def machine : Trans.Machine (State H) (Act H) where
  init := (· = start)
  step := step

/-- A handler is destroyed only when it is not in the poller. -/
def Prudent (s : State H) : Act H → Prop
  | .destroy h => (s.poller.handlers h).state = .kNew
  | _ => True

instance (s : State H) (a : Act H) : Decidable (Prudent s a) := by
  cases a <;> unfold Prudent <;> infer_instance

end

/-! ## 3. The invariant -/

/-- The handler whose `m_handleEvent` runs. -/
def Pc.handler? {H : Type} : Pc H → Option H
  | .handling h _ _ _ _ => some h
  | _ => none

/-- The handlers whose turn is still to come. -/
def Pc.todo {H : Type} : Pc H → List H
  | .iterating todo | .handling _ _ _ _ todo | .releasing todo => todo
  | _ => []

/-- The loop is at its handlers. -/
def Pc.inEvents {H : Type} : Pc H → Bool
  | .iterating _ | .handling _ _ _ _ _ | .releasing _ => true
  | _ => false

/-- What `handleEvent` owes to a report: no callback when the tie had expired, and else
those that the mask asks for. -/
def Served {H : Type} (r : Events × H) (d : H × Option (List Callback)) : Prop :=
  d.1 = r.2 ∧ ∀ made, d.2 = some made → made = Handler.handleEvent r.1

section

variable {H : Type} [DecidableEq H] {s t : State H} {past waiting : List (Events × H)} {h : H}

/-- The report that is being handled. -/
def State.now (s : State H) : List (Events × H) :=
  s.pc.handler?.toList.map fun h => ((s.poller.handlers h).revents, h)

/-- The report waits for the turn of its handler. -/
structure Waits (s : State H) (r : Events × H) : Prop where
  alive : s.alive r.2 = true
  kept : (s.poller.handlers r.2).state ≠ .kNew
  active : r.2 ∈ s.activeHandlers
  notCurrent : s.currentActiveHandler ≠ some r.2
  revents : (s.poller.handlers r.2).revents = r.1

/-- The handler `h` is in `m_handleEvent`. -/
structure Handles (s : State H) (h : H) (made checks : List Callback) : Prop where
  current : s.currentActiveHandler = some h
  alive : s.alive h = true
  callbacks : made ++ checks.filter (fires (s.poller.handlers h).revents) =
    Handler.handleEvent (s.poller.handlers h).revents

/-- The reports in `past` have been handled, and those in `waiting` are to come. -/
structure Inv (s : State H) (past waiting : List (Events × H)) : Prop where
  running : s.crashed = none
  linked : Linked s.poller s.alive
  busy : ∀ h, s.bEventHandling h = true ↔ s.pc.handler? = some h
  events : s.beventHandling = s.pc.inEvents
  idle : s.pc.inEvents = false → s.currentActiveHandler = none
  todo : s.pc.todo = waiting.map Prod.snd
  nodup : s.pc.todo.Nodup
  waits : ∀ r ∈ waiting, Waits s r
  handles : ∀ h made checks inCallback todo, s.pc = .handling h made checks inCallback todo →
    Handles s h made checks
  served : List.Forall₂ Served past s.handled
  reported : s.reported = past ++ s.now ++ waiting

omit [DecidableEq H] in
theorem Inv.start : Inv (start : State H) [] [] := by
  refine ⟨rfl, ⟨fun fd h => ?_, fun fd mask h hfind => ?_⟩, ?_, rfl, fun _ => rfl, rfl, .nil,
    by simp, ?_, .nil, rfl⟩
  · exact iff_of_false (by simp [ActiveHandlers.start, EPollPoller.make]) fun hr => by cases hr.1
  · simp [ActiveHandlers.start, EPollPoller.make] at hfind
  · exact fun h => iff_of_false Bool.false_ne_true (Option.some_ne_none h).symm
  · intro h made checks inCallback todo hpc
    cases hpc

omit [DecidableEq H] in
/-- A user's code leaves the handlers alone whose turn is still to come. -/
theorem Inv.user (hs : Inv s past waiting) {p : EPollPoller H} {alive busy : H → Bool}
    (hlinked : Linked p alive)
    (hwaits : ∀ h, s.alive h = true → (s.poller.handlers h).state ≠ .kNew → h ∈ s.pc.todo →
      alive h = true ∧ (p.handlers h).state ≠ .kNew ∧
        (p.handlers h).revents = (s.poller.handlers h).revents)
    (hhandles : ∀ h, s.alive h = true → s.pc.handler? = some h →
      alive h = true ∧ (p.handlers h).revents = (s.poller.handlers h).revents)
    (hbusy : ∀ h, busy h = s.bEventHandling h) :
    Inv { s with poller := p, alive := alive, bEventHandling := busy } past waiting := by
  refine ⟨hs.running, hlinked, fun h => ?_, hs.events, hs.idle, hs.todo, hs.nodup, fun r hr => ?_,
    ?_, hs.served, ?_⟩
  · rw [← hs.busy h, ← hbusy h]
  · have hw := hs.waits r hr
    have htodo : r.2 ∈ s.pc.todo := hs.todo ▸ List.mem_map_of_mem hr
    obtain ⟨halive, hkept, hrevents⟩ := hwaits r.2 hw.alive hw.kept htodo
    exact ⟨halive, hkept, hw.active, hw.notCurrent, hrevents.trans hw.revents⟩
  · intro h made checks inCallback todo hpc
    obtain ⟨hcurrent, halive, hcallbacks⟩ := hs.handles h made checks inCallback todo hpc
    obtain ⟨halive', hrevents⟩ := hhandles h halive (by rw [hpc]; rfl)
    exact ⟨hcurrent, halive', by rw [hrevents]; exact hcallbacks⟩
  · rw [hs.reported]
    congr 2
    show s.now = s.pc.handler?.toList.map _
    rw [State.now]
    cases hpc : s.pc with
    | handling h made checks inCallback todo =>
      have halive := (hs.handles h made checks inCallback todo hpc).alive
      obtain ⟨-, hrevents⟩ := hhandles h halive (by rw [hpc]; rfl)
      simp only [Pc.handler?, Option.toList, List.map_cons, List.map_nil, hrevents]
    | _ => rfl

theorem exec_touches {c : Call H} {p : EPollPoller H} (hl : Linked s.poller s.alive)
    (hok : s.exec c = .ok p) :
    Touches s.poller p c.handler (c.next (s.poller.handlers c.handler)) := by
  cases c with
  | removeHandler h =>
    obtain ⟨-, hok⟩ := check_bind_ok.mp hok
    obtain ⟨-, -, hok⟩ := bind_ok.mp hok
    exact hl.removeHandler hok
  | _ => exact hl.updateHandler hok

/-- While the loop is at its handlers, none but the current one of those that were
reported is removed. -/
theorem exec_kept {h : H} {p : EPollPoller H} (hok : s.exec (.removeHandler h) = .ok p)
    (hevents : s.beventHandling = true) :
    s.currentActiveHandler = some h ∨ h ∉ s.activeHandlers := by
  obtain ⟨-, hok⟩ := check_bind_ok.mp hok
  obtain ⟨_, hcheck, -⟩ := bind_ok.mp hok
  unfold State.assertRemovable at hcheck
  rw [if_pos hevents] at hcheck
  by_contra hnot
  rw [check, if_neg hnot] at hcheck
  cases hcheck

omit [DecidableEq H] in
theorem Inv.waits_of_todo (hs : Inv s past waiting) (htodo : h ∈ s.pc.todo) :
    ∃ r ∈ waiting, r.2 = h ∧ Waits s r := by
  rw [hs.todo] at htodo
  obtain ⟨r, hr, rfl⟩ := List.mem_map.mp htodo
  exact ⟨r, hr, rfl, hs.waits r hr⟩

omit [DecidableEq H] in
theorem inEvents_of_todo {pc : Pc H} (htodo : h ∈ pc.todo) : pc.inEvents = true := by
  cases pc with
  | outside | polling | functors => cases htodo
  | _ => rfl

/-- A call that returns leaves a handler in the poller whose turn is still to come. -/
theorem Inv.call (hs : Inv s past waiting) {c : Call H} {p : EPollPoller H}
    (halive : s.alive c.handler = true) (hok : s.exec c = .ok p) :
    Inv { s with poller := p } past waiting := by
  have ht := exec_touches hs.linked hok
  have hrevents : ∀ h, (p.handlers h).revents = (s.poller.handlers h).revents := by
    intro h
    by_cases hh : h = c.handler
    · rw [hh, ht.self]
      cases c <;> rfl
    · rw [ht.other hh]
  refine hs.user (hs.linked.touch halive ht) (fun h hh hkept htodo => ⟨hh, ?_, hrevents h⟩)
    (fun h hh _ => ⟨hh, hrevents h⟩) fun _ => rfl
  by_cases hne : h = c.handler
  · subst hne
    rw [ht.self]
    cases c with
    | removeHandler h =>
      obtain ⟨r, -, rfl, hw⟩ := hs.waits_of_todo htodo
      have hasserted := exec_kept hok (hs.events.trans (inEvents_of_todo htodo))
      exact absurd hasserted (not_or.mpr ⟨hw.notCurrent, fun hnot => hnot hw.active⟩)
    | _ => exact EPollPoller.nextState_ne_kNew _ _
  · rw [ht.other hne]
    exact hkept

theorem Inv.construct (hs : Inv s past waiting) (hdead : s.alive h = false) (fd : Int) :
    Inv { s with
      poller := s.poller.setHandler h (.make fd)
      alive := Function.update s.alive h true
      bEventHandling := Function.update s.bEventHandling h false } past waiting := by
  have hne : ∀ g, s.alive g = true → g ≠ h := by
    rintro g hg rfl
    rw [hdead] at hg
    cases hg
  refine hs.user (hs.linked.construct hdead fd) (fun g hg hkept _ => ?_) (fun g hg _ => ?_)
    fun g => ?_
  · rw [EPollPoller.setHandler_handlers, Function.update_of_ne (hne g hg),
      Function.update_of_ne (hne g hg)]
    exact ⟨hg, hkept, rfl⟩
  · rw [EPollPoller.setHandler_handlers, Function.update_of_ne (hne g hg),
      Function.update_of_ne (hne g hg)]
    exact ⟨hg, rfl⟩
  · by_cases hg : g = h
    · subst hg
      rw [Function.update_self, eq_comm, Bool.eq_false_iff, ne_eq, hs.busy]
      intro hhandler
      cases hpc : s.pc with
      | handling k made checks inCallback todo =>
        have hk : k = g := Option.some.inj (by simpa [hpc, Pc.handler?] using hhandler)
        exact hne g (hk ▸ (hs.handles k made checks inCallback todo hpc).alive) rfl
      | _ =>
        rw [hpc] at hhandler
        cases hhandler
    · rw [Function.update_of_ne hg]

theorem Inv.destroy (hs : Inv s past waiting) (hnew : (s.poller.handlers h).state = .kNew)
    (hidle : s.bEventHandling h = false) :
    Inv { s with alive := Function.update s.alive h false } past waiting := by
  refine hs.user (hs.linked.destroy hnew) (fun g hg hkept _ => ?_) (fun g hg hhandler => ?_)
    fun _ => rfl
  · have hne : g ≠ h := by
      rintro rfl
      exact hkept hnew
    rw [Function.update_of_ne hne]
    exact ⟨hg, hkept, rfl⟩
  · have hne : g ≠ h := by
      rintro rfl
      rw [(hs.busy g).mpr hhandler] at hidle
      cases hidle
    rw [Function.update_of_ne hne]
    exact ⟨hg, rfl⟩

theorem poll_marks {alive : H → Bool} {p q : EPollPoller H} {active : List H}
    {r : Except Int (List (Int × Events × H))} (hl : Linked p alive) (hr : Reports p r)
    (hok : p.pollEvent (r.map fun ready => ready.map Prod.snd) = .ok (q, active)) :
    active = (reports r).map Prod.snd ∧ EPollPoller.Marks p q (reports r) ∧
      ((reports r).map Prod.snd).Nodup ∧
      ∀ h ∈ (reports r).map Prod.snd, alive h = true ∧ (p.handlers h).state = .kAdded := by
  cases r with
  | error e =>
    cases hok
    exact ⟨rfl, EPollPoller.marks_nil, List.nodup_nil,
      fun h hh => absurd hh List.not_mem_nil⟩
  | ok ready =>
    obtain ⟨hnodup, hready⟩ := hl.ready hr
    obtain ⟨hactive, hmarks⟩ := EPollPoller.pollEvent_marks hok hnodup
    exact ⟨hactive, hmarks, hnodup, hready⟩

/-- A poll ends in a failed assert or leaves each report with a handler that is alive. -/
theorem Inv.pollEvent (hs : Inv s past waiting) (hpc : s.pc = .polling)
    {r : Except Int (List (Int × Events × H))} (hr : Reports s.poller r) :
    Inv (s.pollEvent r) past (reports r) ∨ ∃ f, (s.pollEvent r).crashed = some (.fault f) := by
  unfold State.pollEvent
  cases hok : s.poller.pollEvent (r.map fun ready => ready.map Prod.snd) with
  | error f => exact .inr ⟨f, rfl⟩
  | ok result =>
    obtain ⟨p, active⟩ := result
    obtain ⟨rfl, hmarks, hnodup, hready⟩ := poll_marks hs.linked hr hok
    have halive : ((reports r).map Prod.snd).find? (fun h => !s.alive h) = none := by
      rw [List.find?_eq_none]
      intro h hh
      simp [(hready h hh).1]
    have hnone : waiting = [] := by
      have htodo := hs.todo
      rw [hpc] at htodo
      exact List.map_eq_nil_iff.mp htodo.symm
    simp only [halive]
    refine .inl ⟨hs.running, hs.linked.marks hmarks, fun h => ?_, rfl, fun hout => ?_, rfl, hnodup,
      fun e he => ?_, ?_, hs.served, ?_⟩
    · rw [hs.busy h, hpc]
      rfl
    · cases hout
    · have hmem := List.mem_map_of_mem (f := Prod.snd) he
      obtain ⟨hal, hadded⟩ := hready e.2 hmem
      have hrecord := hmarks.reported e he
      refine ⟨hal, ?_, hmem, ?_, ?_⟩
      · show (p.handlers e.2).state ≠ _
        rw [hrecord, hadded]
        exact HandlerState.noConfusion
      · show s.currentActiveHandler ≠ _
        rw [hs.idle (by rw [hpc]; rfl)]
        exact (Option.some_ne_none _).symm
      · show (p.handlers e.2).revents = _
        rw [hrecord]
    · intro h made checks inCallback todo hpc'
      cases hpc'
    · show s.reported ++ reports r = past ++ [] ++ reports r
      rw [hs.reported, State.now, hpc, hnone]
      simp [Pc.handler?]

/-- The next handler gets its turn. -/
theorem Inv.handleEvent (hs : Inv s past waiting) {todo : List H}
    (hpc : s.pc = .iterating (h :: todo)) : s.alive h = true ∧ ∃ r rest, waiting = r :: rest ∧
      Inv { s with
        currentActiveHandler := some h
        pc := .iterating todo
        handled := s.handled ++ [(h, none)] } (past ++ [r]) rest ∧
      Inv { s with
        currentActiveHandler := some h
        pc := .handling h [] callbacks false todo
        bEventHandling := Function.update s.bEventHandling h true } past rest := by
  have htodo := hs.todo
  have hnodup := hs.nodup
  rw [hpc] at htodo hnodup
  cases hwaiting : waiting with
  | nil =>
    rw [hwaiting] at htodo
    cases htodo
  | cons r rest =>
    rw [hwaiting] at htodo
    obtain ⟨rfl, rfl⟩ := List.cons.inj htodo
    obtain ⟨hnot, hrest⟩ := List.nodup_cons.mp hnodup
    have hw := hs.waits r (by rw [hwaiting]; exact List.mem_cons_self)
    have hbusy : ∀ g, s.bEventHandling g = false := fun g => by
      rw [Bool.eq_false_iff, ne_eq, hs.busy, hpc]
      exact (Option.some_ne_none g).symm
    have hwaits : ∀ e ∈ rest, s.alive e.2 = true ∧ (s.poller.handlers e.2).state ≠ .kNew ∧
        e.2 ∈ s.activeHandlers ∧ some r.2 ≠ some e.2 ∧
        (s.poller.handlers e.2).revents = e.1 := fun e he => by
      have hwe := hs.waits e (by rw [hwaiting]; exact List.mem_cons_of_mem _ he)
      refine ⟨hwe.alive, hwe.kept, hwe.active, fun heq => hnot ?_, hwe.revents⟩
      rw [Option.some.inj heq]
      exact List.mem_map_of_mem he
    have hreported : s.reported = past ++ [r] ++ rest := by
      rw [hs.reported, hwaiting, State.now, hpc]
      simp [Pc.handler?]
    refine ⟨hw.alive, r, rest, rfl, ?_, ?_⟩
    · refine ⟨hs.running, hs.linked, fun g => ?_, ?_, fun hout => ?_, rfl, hrest, fun e he => ?_,
        ?_, ?_, ?_⟩
      · exact iff_of_false (by rw [hbusy]; exact Bool.false_ne_true) (Option.some_ne_none g).symm
      · rw [hs.events, hpc]
        rfl
      · cases hout
      · obtain ⟨h₁, h₂, h₃, h₄, h₅⟩ := hwaits e he
        exact ⟨h₁, h₂, h₃, h₄, h₅⟩
      · intro g made checks inCallback todo hpc'
        cases hpc'
      · exact List.rel_append hs.served (.cons ⟨rfl, fun made hmade => by cases hmade⟩ .nil)
      · rw [hreported, State.now]
        simp [Pc.handler?]
    · refine ⟨hs.running, hs.linked, fun g => ?_, ?_, fun hout => ?_, rfl, hrest, fun e he => ?_,
        ?_, hs.served, ?_⟩
      · show Function.update s.bEventHandling r.2 true g = true ↔ some r.2 = some g
        rw [Function.update_apply, Option.some.injEq, eq_comm (a := r.2)]
        split_ifs with hg
        · exact iff_of_true rfl hg
        · exact iff_of_false (by rw [hbusy]; exact Bool.false_ne_true) hg
      · rw [hs.events, hpc]
        rfl
      · cases hout
      · obtain ⟨h₁, h₂, h₃, h₄, h₅⟩ := hwaits e he
        exact ⟨h₁, h₂, h₃, h₄, h₅⟩
      · intro g made checks inCallback todo hpc'
        cases hpc'
        exact ⟨rfl, hw.alive, Handler.filter_fires _⟩
      · rw [hreported, State.now]
        simp [Pc.handler?, hw.revents]

omit [DecidableEq H] in
/-- A step that only moves the thread. -/
theorem Inv.goto (hs : Inv s past waiting) {pc : Pc H} (hhandler : pc.handler? = s.pc.handler?)
    (hevents : pc.inEvents = s.pc.inEvents) (htodo : pc.todo = s.pc.todo)
    (hhandles : ∀ h made checks inCallback todo, pc = .handling h made checks inCallback todo →
      Handles s h made checks) : Inv { s with pc := pc } past waiting := by
  refine ⟨hs.running, hs.linked, fun h => ?_, hs.events.trans hevents.symm,
    fun hout => hs.idle (hevents.symm.trans hout), htodo.trans hs.todo, ?_, fun r hr => ?_,
    fun h made checks inCallback todo hpc => ?_, hs.served, ?_⟩
  · rw [hs.busy h, ← hhandler]
  · show pc.todo.Nodup
    rw [htodo]
    exact hs.nodup
  · obtain ⟨h₁, h₂, h₃, h₄, h₅⟩ := hs.waits r hr
    exact ⟨h₁, h₂, h₃, h₄, h₅⟩
  · obtain ⟨h₁, h₂, h₃⟩ := hhandles h made checks inCallback todo hpc
    exact ⟨h₁, h₂, h₃⟩
  · rw [hs.reported, State.now, State.now, hhandler]

omit [DecidableEq H] in
theorem Handles.test {c : Callback} {made checks : List Callback}
    (hs : Handles s h made (c :: checks)) :
    (fires (s.poller.handlers h).revents c = true → Handles s h (made ++ [c]) checks) ∧
    (¬fires (s.poller.handlers h).revents c = true → Handles s h made checks) := by
  obtain ⟨hcurrent, halive, hcallbacks⟩ := hs
  constructor
  · intro hfires
    rw [List.filter_cons_of_pos hfires] at hcallbacks
    exact ⟨hcurrent, halive, by rw [List.append_assoc]; exact hcallbacks⟩
  · intro hfires
    rw [List.filter_cons_of_neg hfires] at hcallbacks
    exact ⟨hcurrent, halive, hcallbacks⟩

/-- `m_handleEvent` returns, with all callbacks made. -/
theorem Inv.eventHandled (hs : Inv s past waiting) {made : List Callback} {todo : List H}
    (hpc : s.pc = .handling h made [] false todo) :
    Inv { s with
      pc := .releasing todo
      bEventHandling := Function.update s.bEventHandling h false
      handled := s.handled ++ [(h, some made)] }
      (past ++ [((s.poller.handlers h).revents, h)]) waiting := by
  have hhandles := hs.handles h made [] false todo hpc
  have htodo := hs.todo
  have hnodup := hs.nodup
  have hidle := hs.idle
  rw [hpc] at htodo hnodup hidle
  refine ⟨hs.running, hs.linked, fun g => ?_, ?_, hidle, htodo, hnodup, fun r hr => ?_, ?_, ?_, ?_⟩
  · refine iff_of_false ?_ (Option.some_ne_none g).symm
    show ¬Function.update s.bEventHandling h false g = true
    rw [Function.update_apply]
    split_ifs with hg
    · exact not_false
    · rw [hs.busy, hpc]
      exact fun heq => hg (Option.some.inj heq).symm
  · rw [hs.events, hpc]
    rfl
  · obtain ⟨h₁, h₂, h₃, h₄, h₅⟩ := hs.waits r hr
    exact ⟨h₁, h₂, h₃, h₄, h₅⟩
  · intro g made checks inCallback todo hpc'
    cases hpc'
  · refine List.rel_append hs.served (.cons ⟨rfl, fun made' hmade => ?_⟩ .nil)
    cases hmade
    simpa using hhandles.callbacks
  · rw [hs.reported, State.now, State.now, hpc]
    simp [Pc.handler?]

omit [DecidableEq H] in
/-- The `for` ends. -/
theorem Inv.iterated (hs : Inv s past waiting) (hpc : s.pc = .iterating []) :
    Inv { s with pc := .functors, currentActiveHandler := none, beventHandling := false }
      past waiting := by
  have htodo := hs.todo
  rw [hpc] at htodo
  refine ⟨hs.running, hs.linked, fun g => ?_, rfl, fun _ => rfl, htodo, List.nodup_nil,
    fun r hr => ?_, ?_, hs.served, ?_⟩
  · rw [hs.busy g, hpc]
    rfl
  · rw [List.map_eq_nil_iff.mp htodo.symm] at hr
    cases hr
  · intro g made checks inCallback todo hpc'
    cases hpc'
  · rw [hs.reported, State.now, State.now, hpc]
    rfl

/-- The loop is in order, or an assert has failed. -/
def Sane (s : State H) : Prop :=
  (∃ past waiting, Inv s past waiting) ∨ ∃ f, s.crashed = some (.fault f)

theorem Inv.step (hs : Inv s past waiting) {a : Act H} (hprudent : Prudent s a)
    (h : (machine H).step s a = some t) : Sane t := by
  replace h : s.go a = some t := (Option.ite_none_right_eq_some.mp h).2
  cases a with
  | construct g fd =>
    obtain ⟨⟨-, hdead⟩, h⟩ := Option.ite_none_right_eq_some.mp h
    cases h
    exact .inl ⟨past, waiting, hs.construct hdead fd⟩
  | destroy g =>
    replace h := (Option.ite_none_right_eq_some.mp h).2
    split at h <;> cases h
    · exact .inr ⟨_, rfl⟩
    · next hidle => exact .inl ⟨past, waiting, hs.destroy hprudent (Bool.eq_false_iff.mpr hidle)⟩
  | call c =>
    obtain ⟨⟨-, halive⟩, hexec⟩ := Option.ite_none_right_eq_some.mp h
    clear h
    split at hexec <;> cases hexec
    · next hok => exact .inl ⟨past, waiting, hs.call halive hok⟩
    · exact .inr ⟨_, rfl⟩
  | close fd =>
    replace h := (Option.ite_none_right_eq_some.mp h).2
    cases h
    exact .inl ⟨past, waiting, hs.user (hs.linked.close fd) (fun g hg hkept _ => ⟨hg, hkept, rfl⟩)
      (fun g hg _ => ⟨hg, rfl⟩) fun _ => rfl⟩
  | loop =>
    replace h := (Option.ite_none_right_eq_some.mp h).2
    split at h <;> cases h
    · next hpc => exact .inl ⟨past, waiting, hs.goto (by rw [hpc]; rfl) (by rw [hpc]; rfl)
        (by rw [hpc]; rfl) fun _ _ _ _ _ hpc' => by cases hpc'⟩
    · exact .inr ⟨_, rfl⟩
  | pollEvent r =>
    simp only [State.go] at h
    split at h
    · next hpc =>
      obtain ⟨hr, h⟩ := Option.ite_none_right_eq_some.mp h
      cases h
      exact (hs.pollEvent hpc hr).imp_left fun ht => ⟨past, _, ht⟩
    · cases h
  | handleEvent expired =>
    simp only [State.go] at h
    split at h
    · next g todo hpc =>
      obtain ⟨halive, r, rest, -, hskip, hbegin⟩ := hs.handleEvent hpc
      cases h
      refine .inl ?_
      simp only [State.follow, if_pos halive]
      split
      · exact ⟨_, _, hskip⟩
      · exact ⟨_, _, hbegin⟩
    · cases h
  | test =>
    simp only [State.go] at h
    split at h
    · next g made c checks todo hpc =>
      have hhandles := hs.handles g made (c :: checks) false todo hpc
      cases h
      refine .inl ⟨past, waiting, ?_⟩
      simp only [State.follow, if_pos hhandles.alive]
      split
      · next hfires =>
        refine hs.goto (by rw [hpc]; rfl) (by rw [hpc]; rfl) (by rw [hpc]; rfl) ?_
        rintro _ _ _ _ _ ⟨⟩
        exact hhandles.test.1 hfires
      · next hfires =>
        refine hs.goto (by rw [hpc]; rfl) (by rw [hpc]; rfl) (by rw [hpc]; rfl) ?_
        rintro _ _ _ _ _ ⟨⟩
        exact hhandles.test.2 hfires
    · cases h
  | returns =>
    simp only [State.go] at h
    split at h
    · next g made checks todo hpc =>
      cases h
      refine .inl ⟨past, waiting,
        hs.goto (by rw [hpc]; rfl) (by rw [hpc]; rfl) (by rw [hpc]; rfl) ?_⟩
      rintro _ _ _ _ _ ⟨⟩
      exact hs.handles g made checks true todo hpc
    · cases h
  | eventHandled =>
    simp only [State.go] at h
    split at h
    · next g made todo hpc =>
      have hhandles := hs.handles g made [] false todo hpc
      cases h
      simp only [State.follow, if_pos hhandles.alive]
      exact .inl ⟨_, waiting, hs.eventHandled hpc⟩
    · cases h
  | released =>
    simp only [State.go] at h
    split at h
    · next todo hpc =>
      cases h
      exact .inl ⟨past, waiting, hs.goto (by rw [hpc]; rfl) (by rw [hpc]; rfl) (by rw [hpc]; rfl)
        fun _ _ _ _ _ hpc' => by cases hpc'⟩
    · cases h
  | iterated =>
    simp only [State.go] at h
    split at h
    · next hpc =>
      cases h
      exact .inl ⟨past, waiting, hs.iterated hpc⟩
    · cases h
  | doneFunctors quit =>
    simp only [State.go] at h
    split at h
    · next hpc =>
      cases h
      refine .inl ⟨past, waiting, hs.goto ?_ ?_ ?_ fun _ _ _ _ _ hpc' => ?_⟩
      · rw [hpc]
        cases quit <;> rfl
      · rw [hpc]
        cases quit <;> rfl
      · rw [hpc]
        cases quit <;> rfl
      · cases quit <;> cases hpc'
    · cases h

theorem run_sane {as : List (Act H)} (hprudent : (machine H).Along Prudent start as)
    (hrun : (machine H).run start as = some s) : Sane s := by
  refine Trans.Machine.run_invariant (C := Prudent) (fun s a t hs ha h => ?_)
    (.inl ⟨[], [], Inv.start⟩) hprudent hrun
  rcases hs with ⟨past, waiting, hs⟩ | ⟨f, hf⟩
  · exact hs.step ha h
  · obtain ⟨hrunning, -⟩ := Option.ite_none_right_eq_some.mp h
    rw [hf] at hrunning
    cases hrunning

/-! ## 4. Pointers and reports -/

/-- No handler is used after its destruction: as long as handlers are destroyed only
when they are not in the poller, every handler whose turn is to come, and every one that
`m_handlermap` or the kernel points to, is alive. -/
theorem no_dangling_handler {as : List (Act H)} (hrun : (machine H).run start as = some s)
    (hprudent : (machine H).Along Prudent start as) (h : H) :
    s.crashed ≠ some (.useAfterFree h) ∧
    (s.crashed = none → h ∈ s.pc.todo ∨ (∃ fd, s.poller.handlermap.find fd = some h) ∨
      (∃ fd mask, s.poller.interest.find fd = some (mask, h)) → s.alive h = true) := by
  rcases run_sane hprudent hrun with ⟨past, waiting, hs⟩ | ⟨f, hf⟩
  · refine ⟨fun hcrashed => ?_, fun _ hpoints => ?_⟩
    · rw [hs.running] at hcrashed
      cases hcrashed
    · rcases hpoints with htodo | ⟨fd, hmap⟩ | ⟨fd, mask, hfind⟩
      · obtain ⟨r, -, rfl, hw⟩ := hs.waits_of_todo htodo
        exact hw.alive
      · exact ((hs.linked.map_iff fd h).mp hmap).1
      · exact ((hs.linked.map_iff fd h).mp (hs.linked.interest fd mask h hfind).1).1
  · rw [hf]
    refine ⟨?_, ?_⟩ <;> rintro ⟨⟩

/-- What `epoll_wait` reports is handled once, in the order of the reports, with the
callbacks that the reported mask asks for; what has not been handled is the report in
hand and those of the handlers whose turn is to come. -/
theorem handles_reported {as : List (Act H)} (hrun : (machine H).run start as = some s)
    (hprudent : (machine H).Along Prudent start as) (hcrashed : s.crashed = none) :
    ∃ past waiting, s.reported = past ++ s.now ++ waiting ∧ List.Forall₂ Served past s.handled ∧
      waiting.map Prod.snd = s.pc.todo := by
  rcases run_sane hprudent hrun with ⟨past, waiting, hs⟩ | ⟨f, hf⟩
  · exact ⟨past, waiting, hs.reported, hs.served, hs.todo.symm⟩
  · rw [hcrashed] at hf
    cases hf

/-! ## 5. The size of m_eventlist -/

theorem updateHandler_size {p q : EPollPoller H} (hok : p.updateHandler h = .ok q) :
    q.eventlistSize = p.eventlistSize := by
  unfold EPollPoller.updateHandler at hok
  cases hstate : (p.handlers h).state with
  | kNew =>
    rw [hstate] at hok
    cases (check_bind_ok.mp hok).2
    rfl
  | kDeleted =>
    rw [hstate] at hok
    cases (check_bind_ok.mp (check_bind_ok.mp hok).2).2
    rfl
  | kAdded =>
    rw [hstate] at hok
    replace hok := (check_bind_ok.mp (check_bind_ok.mp hok).2).2
    split at hok <;> cases hok <;> rfl

theorem setEvents_size {p q : EPollPoller H} {e : Events}
    (hok : (p.setEvents h e).updateHandler h = .ok q) : q.eventlistSize = p.eventlistSize := by
  have hsize := updateHandler_size hok
  exact hsize

theorem removeHandler_size {p q : EPollPoller H} (hok : p.removeHandler h = .ok q) :
    q.eventlistSize = p.eventlistSize := by
  unfold EPollPoller.removeHandler at hok
  cases (check_bind_ok.mp (check_bind_ok.mp (check_bind_ok.mp (check_bind_ok.mp hok).2).2).2).2
  split <;> rfl

theorem exec_size {c : Call H} {p : EPollPoller H} (hok : s.exec c = .ok p) :
    p.eventlistSize = s.poller.eventlistSize := by
  cases c with
  | removeHandler h =>
    obtain ⟨-, hok⟩ := check_bind_ok.mp hok
    obtain ⟨-, -, hok⟩ := bind_ok.mp hok
    exact removeHandler_size hok
  | enableReading h => exact setEvents_size hok
  | enableWriting h => exact setEvents_size hok
  | disableWriting h => exact setEvents_size hok
  | disableAll h => exact setEvents_size hok

theorem setHandlers_size (events : List (Events × H)) (p : EPollPoller H) :
    (events.foldl (fun q ev => q.setHandler ev.2 { q.handlers ev.2 with revents := ev.1 })
      p).eventlistSize = p.eventlistSize := by
  induction events generalizing p with
  | nil => rfl
  | cons ev events ih => exact ih _

/-- `m_eventlist` doubles only when the poll has filled it, with no more events than
there are handlers in the map. -/
theorem pollEvent_size {p q : EPollPoller H} {active : List H}
    {r : Except Int (List (Events × H))} (hok : p.pollEvent r = .ok (q, active)) :
    q.eventlistSize = p.eventlistSize ∨
      q.eventlistSize = p.eventlistSize * 2 ∧ p.eventlistSize ≤ p.handlermap.keys.length := by
  unfold EPollPoller.pollEvent at hok
  split at hok
  · cases hok
    exact .inl rfl
  · cases hok
    exact .inl rfl
  · next events _ =>
    obtain ⟨⟨p', found⟩, hfill, hok⟩ := bind_ok.mp hok
    obtain ⟨hlen, hfill⟩ := check_bind_ok.mp hfill
    cases hfill
    dsimp only at hok
    split at hok
    · next hfull =>
      cases hok
      rw [setHandlers_size] at hfull
      exact .inr ⟨congrArg (· * 2) (setHandlers_size events p), hfull ▸ hlen⟩
    · cases hok
      exact .inl (setHandlers_size events p)

theorem go_size {a : Act H} (h : s.go a = some t) :
    t.poller.eventlistSize = s.poller.eventlistSize ∨
      t.poller.eventlistSize = s.poller.eventlistSize * 2 ∧
        s.poller.eventlistSize ≤ s.poller.handlermap.keys.length := by
  cases a with
  | call c =>
    obtain ⟨-, hexec⟩ := Option.ite_none_right_eq_some.mp h
    clear h
    split at hexec <;> cases hexec
    · next hok => exact .inl (exec_size hok)
    · exact .inl rfl
  | pollEvent r =>
    simp only [State.go] at h
    split at h
    · replace h := (Option.ite_none_right_eq_some.mp h).2
      cases h
      unfold State.pollEvent
      split
      · exact .inl rfl
      · next hok =>
        split
        · exact .inl rfl
        · exact pollEvent_size hok
    · cases h
  | handleEvent expired =>
    simp only [State.go] at h
    split at h
    · cases h
      unfold State.follow
      split_ifs <;> exact .inl rfl
    · cases h
  | test | eventHandled =>
    simp only [State.go] at h
    split at h
    · cases h
      unfold State.follow
      split_ifs <;> exact .inl rfl
    · cases h
  | returns | released | iterated | doneFunctors =>
    simp only [State.go] at h
    split at h
    · cases h
      exact .inl rfl
    · cases h
  | construct | close =>
    replace h := (Option.ite_none_right_eq_some.mp h).2
    cases h
    exact .inl rfl
  | destroy | loop =>
    replace h := (Option.ite_none_right_eq_some.mp h).2
    split at h <;> cases h <;> exact .inl rfl

/-- `m_eventlist` has 16 entries times a power of two, and never more than twice the
largest number of handlers that the map has had. -/
theorem eventlist_bounded {as : List (Act H)} {N : Nat} (hrun : (machine H).run start as = some s)
    (hN : (machine H).Throughout (fun s => s.poller.handlermap.keys.length ≤ N) start as) :
    (∃ k, s.poller.eventlistSize = EPollPoller.kInitEventListSize * 2 ^ k) ∧
      s.poller.eventlistSize ≤ max EPollPoller.kInitEventListSize (2 * N) := by
  have halong : (machine H).Along (fun s _ => s.poller.handlermap.keys.length ≤ N) start as :=
    Trans.Machine.along_of_throughout (I := fun _ => True) (fun _ _ _ _ _ => trivial)
      (fun _ _ _ _ hs _ _ => hs) trivial hrun hN
  refine Trans.Machine.run_invariant (I := fun s : State H =>
    (∃ k, s.poller.eventlistSize = EPollPoller.kInitEventListSize * 2 ^ k) ∧
      s.poller.eventlistSize ≤ max EPollPoller.kInitEventListSize (2 * N))
    (fun s a t hs hkeys h => ?_) ⟨⟨0, rfl⟩, Nat.le_max_left _ _⟩ halong hrun
  obtain ⟨⟨k, hk⟩, hle⟩ := hs
  rcases go_size (Option.ite_none_right_eq_some.mp h).2 with hsame | ⟨hdouble, hfull⟩
  · rw [hsame]
    exact ⟨⟨k, hk⟩, hle⟩
  · rw [hdouble]
    refine ⟨⟨k + 1, by rw [hk, Nat.pow_succ, Nat.mul_assoc]⟩,
      Nat.le_trans ?_ (Nat.le_max_right _ _)⟩
    rw [Nat.mul_comm]
    exact Nat.mul_le_mul_left 2 (Nat.le_trans hfull hkeys)

end

/-! ## 6. Examples -/

/-- Two handlers are reported at once. The first is removed by its own callback and
destroyed by a functor, before the next poll. -/
def selfRemoval : List (Act Bool) :=
  [.construct true 5, .construct false 6, .call (.enableReading true),
    .call (.enableReading false), .loop,
    .pollEvent (.ok [(5, EPOLLIN, true), (6, EPOLLIN, false)]),
    .handleEvent false, .test, .test, .test, .call (.disableAll true),
    .call (.removeHandler true), .returns, .test, .eventHandled, .released,
    .handleEvent false, .test, .test, .test, .returns, .test, .eventHandled, .released,
    .iterated, .destroy true, .doneFunctors false, .pollEvent (.ok [(6, EPOLLIN, false)])]

theorem selfRemoval_runs : ∃ s, (machine Bool).run start selfRemoval = some s ∧
    s.crashed = none ∧ s.alive true = false ∧ s.pc.todo = [false] ∧
    s.handled.length = 2 := by
  have hruns : ((machine Bool).run start selfRemoval).map (fun s =>
      (s.crashed.isNone, s.alive true, s.pc.todo, s.handled.length)) =
        some (true, false, [false], 2) := by
    decide +kernel
  obtain ⟨s, hrun, heq⟩ := Option.map_eq_some_iff.mp hruns
  simp only [Prod.mk.injEq, Option.isNone_iff_eq_none] at heq
  exact ⟨s, hrun, heq⟩

theorem selfRemoval_safe : ∃ s, (machine Bool).run start selfRemoval = some s ∧
    s.alive true = false ∧ ∀ h, s.crashed ≠ some (.useAfterFree h) ∧
      (s.crashed = none → h ∈ s.pc.todo ∨ (∃ fd, s.poller.handlermap.find fd = some h) ∨
        (∃ fd mask, s.poller.interest.find fd = some (mask, h)) → s.alive h = true) := by
  obtain ⟨s, hrun, -, hdead, -⟩ := selfRemoval_runs
  exact ⟨s, hrun, hdead, no_dangling_handler hrun (by decide +kernel)⟩

theorem selfRemoval_handled : ∃ s past waiting,
    (machine Bool).run start selfRemoval = some s ∧ s.handled.length = 2 ∧
    s.reported = past ++ s.now ++ waiting ∧ List.Forall₂ Served past s.handled ∧
    waiting.map Prod.snd = [false] := by
  obtain ⟨s, hrun, hcrashed, -, htodo, hlen⟩ := selfRemoval_runs
  obtain ⟨past, waiting, hreported, hserved, hwaiting⟩ :=
    handles_reported hrun (by decide +kernel) hcrashed
  exact ⟨s, past, waiting, hrun, hlen, hreported, hserved, hwaiting.trans htodo⟩

/-- A handler that is destroyed while the kernel points to it is used again. -/
def earlyDestruction : List (Act Bool) :=
  [.construct true 5, .call (.enableReading true), .destroy true, .loop,
    .pollEvent (.ok [(5, EPOLLIN, true)])]

theorem earlyDestruction_dangles :
    (((machine Bool).run start earlyDestruction).bind State.crashed) =
      some (.useAfterFree true) := by
  decide +kernel

/-- Sixteen handlers, all of which are reported at once. -/
def fullPoll : List (Act Nat) :=
  (List.range 16).map (fun h => .construct h h) ++
    (List.range 16).map (fun h => .call (.enableReading h)) ++
    [.loop, .pollEvent (.ok ((List.range 16).map fun h : Nat => (Int.ofNat h, EPOLLIN, h)))]

theorem fullPoll_bounded : ∃ s, (machine Nat).run start fullPoll = some s ∧
    s.poller.eventlistSize = 32 ∧
    (∃ k, s.poller.eventlistSize = EPollPoller.kInitEventListSize * 2 ^ k) ∧
    s.poller.eventlistSize ≤ max EPollPoller.kInitEventListSize (2 * 16) := by
  have hruns : ((machine Nat).run start fullPoll).map (fun s => s.poller.eventlistSize) =
      some 32 := by decide +kernel
  obtain ⟨s, hrun, hsize⟩ := Option.map_eq_some_iff.mp hruns
  have hprefixes : ∀ bs ∈ fullPoll.inits, ∀ t ∈ (machine Nat).run start bs,
      t.poller.handlermap.keys.length ≤ 16 := by decide +kernel
  exact ⟨s, hrun, hsize, eventlist_bounded hrun fun bs t hbs hrun =>
    hprefixes bs ((List.mem_inits bs fullPoll).mpr hbs) t hrun⟩

end ActiveHandlers

end NetFrame
