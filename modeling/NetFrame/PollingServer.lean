import NetFrame.Poller
import NetFrame.Connection
import NetFrame.Lib.Decimal
import NetFrame.Lib.Tickets

/-!
# PollingServer

`pollingserver.cpp`: a service that answers a request, whose text is a key, with
the number of requests for this key so far. A request is read in one event and
answered in a later one.

Results:
1. `replies_mixed_up`: with two clients a reply is made from the other client's
   request, so that two clients get the same number.
2. `refines_tickets`: the service hands out each number of a key once.
3. `replies_own`: each reply is the client's own number, and no two replies for a
   key are equal, in every run in which a reply is written whole and before the
   next request is read.
-/

namespace NetFrame

namespace PollingServer

/-! ## 1. The state -/

def EAGAIN : Int := 11

/-- `BUFFER_SIZE`. -/
def bufferSize : Nat := 10

/-- `MAX_EVENT_NUMBER` of `Polling`. -/
def maxEventNumber : Nat := 1024

/-- A `std::string` of the service: the bytes of a key. -/
abbrev Key := List Byte

/-- What `ConvertToString` makes of a number. -/
def decimal (n : Nat) : List Char := Nat.toDigits 10 n

/-- A reply that the kernel has taken, and the key and the number that the last
`m_handleReadfd` of the descriptor is about. -/
structure Reply where
  text : List Char
  own : Option (Key × Nat)
  deriving DecidableEq, Repr

structure State where
  listenfd : Int
  serviceKey : Table Key Nat
  key : Key
  /-- The interest set of `m_poll`, whose data are the descriptors. -/
  interest : Interest Int
  openFds : List Int
  /-- The events of the current `LtModel` that are left. -/
  batch : List (Int × Events)
  crashed : Option Fault
  /-- What the last successful `m_handleReadfd` of each descriptor is about. -/
  own : Int → Option (Key × Nat)
  /-- The descriptor of the last successful `m_handleReadfd`. -/
  lastReader : Option Int
  replies : List Reply

namespace State

/-! ## 2. The functions -/

/-- `epoll_ctl` of `Polling`; a closed descriptor is refused. -/
def ctl (s : State) (op : CtlOp) (fd : Int) (ev : Events) : State :=
  if fd ∈ s.openFds then { s with interest := (epollCtl s.interest op fd (ev, fd)).1 } else s

def addFd (s : State) (fd : Int) (ev : Events) : State := s.ctl .EPOLL_CTL_ADD fd ev

def modFd (s : State) (fd : Int) (ev : Events) : State := s.ctl .EPOLL_CTL_MOD fd ev

def removeFd (s : State) (fd : Int) : State := s.ctl .EPOLL_CTL_DEL fd 0

/-- `close(fd)`. -/
def close (s : State) (fd : Int) : State :=
  { s with openFds := s.openFds.erase fd, interest := s.interest.erase fd }

/-- `accept` has returned `connfd`, which is -1 where it has failed. -/
def handleListenFd (s : State) (connfd : Int) : State :=
  let s₁ := if connfd = -1 then s else { s with openFds := connfd :: s.openFds }
  s₁.addFd connfd EPOLLIN

/-- `++m_serviceKey[m_key]`, or its initialisation. -/
def increment : Option Nat → Except Fault Nat
  | some v => if v + 1 < 2 ^ 31 then .ok (v + 1) else .error .intOverflow
  | none => .ok 1

/-- `m_handleReadfd`, with what it returns. The key is the C string in `buf`. -/
def handleReadfd (s : State) (sockfd : Int) (r : Buffer.ReadResult) : Except Fault (State × Int) :=
  match r with
  -- the caller removes the descriptor, and nobody closes it
  | .bytes [] => .ok (s, 0)
  | .bytes data => do
    -- `buf` ends with a zero byte that `read` cannot reach
    let key := data.takeWhile (· ≠ 0)
    let value ← increment (s.serviceKey.find key)
    let s₁ := { s with
      key := key
      serviceKey := s.serviceKey.insert key value
      own := Function.update s.own sockfd (some (key, value))
      lastReader := some sockfd }
    return (s₁.modFd sockfd EPOLLOUT, 1)
  | .error errno =>
    if errno = EAGAIN then .ok (s, -1) else .ok ((s.removeFd sockfd).close sockfd, -2)

/-- The value of `m_serviceKey[m_key]`. -/
def current (s : State) : Nat := (s.serviceKey.find s.key).getD 0

/-- What `m_serviceKey[m_key]` makes of the map. -/
def touch (s : State) : State :=
  match s.serviceKey.find s.key with
  | some _ => s
  | none => { s with serviceKey := s.serviceKey.insert s.key 0 }

/-- `m_handleSendFd`, with what it returns. -/
def handleSendFd (s : State) (sockfd : Int) (r : WriteResult) : State × Int :=
  let text := decimal s.current
  let s₁ := s.touch
  match r with
  | .wrote n =>
    -- a part of the text is a success, too
    if n > 0 then
      let reply : Reply := ⟨text.take n, s.own sockfd⟩
      (({ s₁ with replies := s₁.replies ++ [reply] } : State).modFd sockfd EPOLLIN, 1)
    else ((s₁.removeFd sockfd).close sockfd, -3)
  | .error errno =>
    if errno = EAGAIN then (s₁, -1) else ((s₁.removeFd sockfd).close sockfd, -2)

end State

def canRead (event : Events) : Bool := event &&& EPOLLIN != 0

def canWrite (event : Events) : Bool := event &&& EPOLLOUT != 0

/-- What the system calls of one event return, if they are called. -/
structure Results where
  accept : Int
  read : Buffer.ReadResult
  write : WriteResult
  deriving DecidableEq, Repr

/-- The body of the loop of `LtModel`. -/
def ltModel (s : State) (sockfd : Int) (event : Events) (r : Results) : Except Fault State :=
  if sockfd = s.listenfd then .ok (s.handleListenFd r.accept)
  else if canRead event then do
    let (t, ret) ← s.handleReadfd sockfd r.read
    return if ret = 0 then t.removeFd sockfd else t
  else if canWrite event then .ok (s.handleSendFd sockfd r.write).1
  else .ok s

/-! ## 3. Runs -/

inductive Act where
  /-- `epoll_wait` returns these events. -/
  | wait (events : List (Int × Events))
  /-- `LtModel` handles the next event. -/
  | next (r : Results)
  deriving DecidableEq, Repr

/-- `epoll_wait` can report `event` for `fd`. -/
def State.Reports (s : State) (fd : Int) (event : Events) : Prop :=
  match s.interest.find fd with
  | some (mask, data) => data = fd ∧ event &&& ~~~(mask ||| EPOLLERR ||| EPOLLHUP) = 0
  | none => False

instance (s : State) (fd : Int) (event : Events) : Decidable (s.Reports fd event) := by
  unfold State.Reports
  cases s.interest.find fd <;> infer_instance

/-- The kernel can return `r`: a new descriptor, what fits in `buf`, and no more
than the text. -/
def State.Possible (s : State) (r : Results) : Prop :=
  (r.accept = -1 ∨ 0 ≤ r.accept ∧ r.accept ∉ s.openFds) ∧
  (match r.read with
    | .bytes data => data.length < bufferSize
    | .error _ => True) ∧
  r.write.Fits (decimal s.current).length

instance (s : State) (r : Results) : Decidable (s.Possible r) := by
  unfold State.Possible
  cases r.read <;> infer_instance

def guard (s : State) (a : Act) : Prop :=
  s.crashed = none ∧
  match a with
  | .wait events => s.batch = [] ∧ events.length ≤ maxEventNumber ∧
      (events.map Prod.fst).Nodup ∧ ∀ e ∈ events, s.Reports e.1 e.2
  | .next r => s.batch ≠ [] ∧ s.Possible r

instance (s : State) (a : Act) : Decidable (guard s a) := by
  unfold guard
  cases a <;> infer_instance

def effect (s : State) : Act → State
  | .wait events => { s with batch := events }
  | .next r =>
    match s.batch with
    | [] => s
    | (fd, event) :: rest =>
      match ltModel { s with batch := rest } fd event r with
      | .ok t => t
      | .error e => { s with crashed := some e }

/-- `Run`, up to its loop. -/
def start (listenfd : Int) : State where
  listenfd := listenfd
  serviceKey := ∅
  key := []
  interest := (∅ : Interest Int).insert listenfd (EPOLLIN, listenfd)
  openFds := [listenfd]
  batch := []
  crashed := none
  own := fun _ => none
  lastReader := none
  replies := []

def machine : Trans.Machine State Act :=
  Trans.Machine.guarded (fun s => ∃ listenfd, 0 ≤ listenfd ∧ s = start listenfd) guard effect

/-- A reply is the number that the descriptor's own last request got. -/
def Reply.Own (r : Reply) : Prop :=
  ∃ key value, r.own = some (key, value) ∧ r.text = decimal value

/-- Each client is sent its own number, and the replies for one key differ. -/
structure State.Answers (s : State) : Prop where
  own : ∀ r ∈ s.replies, r.Own
  differ : s.replies.Pairwise fun r r' =>
    r.own.map Prod.fst = r'.own.map Prod.fst → r.text ≠ r'.text

/-- Two clients send the same key before either of them is answered. -/
def twoClients : List Act :=
  [.wait [(3, EPOLLIN)], .next ⟨5, .error EAGAIN, .error EAGAIN⟩,
    .wait [(3, EPOLLIN)], .next ⟨6, .error EAGAIN, .error EAGAIN⟩,
    .wait [(5, EPOLLIN), (6, EPOLLIN)],
    .next ⟨-1, .bytes [97], .error EAGAIN⟩, .next ⟨-1, .bytes [97], .error EAGAIN⟩,
    .wait [(5, EPOLLOUT), (6, EPOLLOUT)],
    .next ⟨-1, .error EAGAIN, .wrote 1⟩, .next ⟨-1, .error EAGAIN, .wrote 1⟩]

/-- Both clients get the number 2. -/
theorem twoClients_replies : (machine.run (start 3) twoClients).map State.replies =
    some [⟨['2'], some ([97], 1)⟩, ⟨['2'], some ([97], 2)⟩] := by
  decide +kernel

theorem replies_mixed_up : ¬∀ (s₀ s : State) (as : List Act), machine.init s₀ →
    machine.run s₀ as = some s → s.Answers := by
  intro hall
  obtain ⟨s, hrun, hreplies⟩ := Option.map_eq_some_iff.mp twoClients_replies
  have hanswers := hall (start 3) s twoClients ⟨3, by decide, rfl⟩ hrun
  have hdiffer := hanswers.differ
  rw [hreplies] at hdiffer
  simp at hdiffer

/-! ## 4. What one event does to a well-formed server -/

section

variable {s t : State} {fd : Int} {event : Events} {r : Results}

/-- `LtModel` calls `m_handleSendFd` for the event. -/
def State.Sends (s : State) (fd : Int) (event : Events) : Prop :=
  fd ≠ s.listenfd ∧ ¬canRead event ∧ canWrite event

instance : Decidable (s.Sends fd event) := by
  unfold State.Sends
  infer_instance

/-- The handling of an event on `fd`. -/
inductive Handled (s : State) (fd : Int) (event : Events) (r : Results) : State → Prop where
  | accepted (hnonneg : 0 ≤ r.accept) (hnew : r.accept ∉ s.openFds) :
      Handled s fd event r { s with
        openFds := r.accept :: s.openFds
        interest := s.interest.insert r.accept (EPOLLIN, r.accept) }
  | request (key : Key) (value : Nat) (hvalue : value = (s.serviceKey.find key).getD 0 + 1)
      (hmode : s.interest.find fd = some (EPOLLIN, fd)) :
      Handled s fd event r { s with
        key := key
        serviceKey := s.serviceKey.insert key value
        own := Function.update s.own fd (some (key, value))
        lastReader := some fd
        interest := s.interest.insert fd (EPOLLOUT, fd) }
  | reply (n : Nat) (hsends : s.Sends fd event) (hwrote : r.write = .wrote n) (hn : 0 < n)
      (hmode : s.interest.find fd = some (EPOLLOUT, fd)) :
      Handled s fd event r { s with
        replies := s.replies ++ [⟨(decimal s.current).take n, s.own fd⟩]
        interest := s.interest.insert fd (EPOLLIN, fd) }
  | removed (openFds : List Int) (hopen : openFds = s.openFds ∨ openFds = s.openFds.erase fd) :
      Handled s fd event r { s with openFds := openFds, interest := s.interest.erase fd }
  | idle : Handled s fd event r s

/-- What a call of the kernel has done for a client. -/
inductive Event where
  | accepted (fd : Int)
  | read (fd : Int) (data : List Byte)
  | wrote (fd : Int)
  /-- `write` has failed, and not because it would block. -/
  | writeFailed (fd : Int)
  deriving DecidableEq, Repr

def readEvent (fd : Int) : Buffer.ReadResult → Option Event
  | .bytes data => if data = [] then none else some (.read fd data)
  | .error _ => none

def writeEvent (fd : Int) : WriteResult → Option Event
  | .wrote n => if n > 0 then some (.wrote fd) else some (.writeFailed fd)
  | .error errno => if errno = EAGAIN then none else some (.writeFailed fd)

/-- What happens in the handling of an event on `fd`. -/
def State.happens (s : State) (fd : Int) (event : Events) (r : Results) : Option Event :=
  if fd = s.listenfd then if r.accept = -1 then none else some (.accepted r.accept)
  else if canRead event then readEvent fd r.read
  else if canWrite event then writeEvent fd r.write
  else none

/-- `Handled` by what has happened. -/
inductive Logged (s : State) (fd : Int) (event : Events) (r : Results) :
    Option Event → State → Prop where
  | accepted (hnonneg : 0 ≤ r.accept) (hnew : r.accept ∉ s.openFds) :
      Logged s fd event r (some (.accepted r.accept)) { s with
        openFds := r.accept :: s.openFds
        interest := s.interest.insert r.accept (EPOLLIN, r.accept) }
  | read (data : List Byte) (value : Nat)
      (hvalue : value = (s.serviceKey.find (data.takeWhile (· ≠ 0))).getD 0 + 1)
      (hmode : s.interest.find fd = some (EPOLLIN, fd)) :
      Logged s fd event r (some (.read fd data)) { s with
        key := data.takeWhile (· ≠ 0)
        serviceKey := s.serviceKey.insert (data.takeWhile (· ≠ 0)) value
        own := Function.update s.own fd (some (data.takeWhile (· ≠ 0), value))
        lastReader := some fd
        interest := s.interest.insert fd (EPOLLOUT, fd) }
  | wrote (n : Nat) (hsends : s.Sends fd event) (hwrote : r.write = .wrote n) (hn : 0 < n)
      (hmode : s.interest.find fd = some (EPOLLOUT, fd)) :
      Logged s fd event r (some (.wrote fd)) { s with
        replies := s.replies ++ [⟨(decimal s.current).take n, s.own fd⟩]
        interest := s.interest.insert fd (EPOLLIN, fd) }
  | writeFailed (hmode : s.interest.find fd = some (EPOLLOUT, fd)) :
      Logged s fd event r (some (.writeFailed fd))
        { s with openFds := s.openFds.erase fd, interest := s.interest.erase fd }
  | removed (openFds : List Int) (hopen : openFds = s.openFds ∨ openFds = s.openFds.erase fd)
      (hmode : s.interest.find fd = some (EPOLLIN, fd)) :
      Logged s fd event r none { s with openFds := openFds, interest := s.interest.erase fd }
  | idle : Logged s fd event r none s

theorem Logged.handled {e : Option Event} (h : Logged s fd event r e t) :
    Handled s fd event r t := by
  cases h with
  | accepted hnonneg hnew => exact .accepted hnonneg hnew
  | read data value hvalue hmode => exact .request _ value hvalue hmode
  | wrote n hsends hwrote hn hmode => exact .reply n hsends hwrote hn hmode
  | writeFailed hmode => exact .removed _ (.inr rfl)
  | removed openFds hopen hmode => exact .removed openFds hopen
  | idle => exact .idle

/-- A well-formed server: its interest set holds open descriptors, each waiting
for a request or for the reply to one, and the events that are left are theirs. -/
structure Wf (s : State) : Prop where
  nonneg : ∀ fd ∈ s.openFds, 0 ≤ fd
  entry : ∀ fd mask data, s.interest.find fd = some (mask, data) →
    fd ∈ s.openFds ∧ (mask = EPOLLIN ∨ mask = EPOLLOUT ∧ s.own fd ≠ none)
  batch_nodup : (s.batch.map Prod.fst).Nodup
  reports : ∀ e ∈ s.batch, s.Reports e.1 e.2
  last : ∀ fd, s.lastReader = some fd →
    ∃ value, s.own fd = some (s.key, value) ∧ s.serviceKey.find s.key = some value
  read : ∀ fd, s.own fd ≠ none → s.lastReader ≠ none

namespace State

theorem addFd_new {ev : Events} (hopen : fd ∈ s.openFds) (hnone : s.interest.find fd = none) :
    s.addFd fd ev = { s with interest := s.interest.insert fd (ev, fd) } := by
  simp [addFd, ctl, epollCtl, hopen, hnone]

theorem addFd_closed {ev : Events} (hclosed : fd ∉ s.openFds) : s.addFd fd ev = s := by
  simp [addFd, ctl, hclosed]

theorem modFd_present {ev : Events} {e : Events × Int} (hopen : fd ∈ s.openFds)
    (hsome : s.interest.find fd = some e) :
    s.modFd fd ev = { s with interest := s.interest.insert fd (ev, fd) } := by
  simp [modFd, ctl, epollCtl, hopen, hsome]

theorem removeFd_present {e : Events × Int} (hopen : fd ∈ s.openFds)
    (hsome : s.interest.find fd = some e) :
    s.removeFd fd = { s with interest := s.interest.erase fd } := by
  simp [removeFd, ctl, epollCtl, hopen, hsome]

theorem removeFd_close {e : Events × Int} (hopen : fd ∈ s.openFds)
    (hsome : s.interest.find fd = some e) :
    (s.removeFd fd).close fd =
      { s with openFds := s.openFds.erase fd, interest := s.interest.erase fd } := by
  rw [removeFd_present hopen hsome]
  simp [close, Table.erase_erase_self]

end State

theorem Wf.key_present (hs : Wf s) (hown : s.own fd ≠ none) :
    s.serviceKey.find s.key = some s.current := by
  obtain ⟨reader, hreader⟩ := Option.ne_none_iff_exists'.mp (hs.read fd hown)
  obtain ⟨value, -, hvalue⟩ := hs.last reader hreader
  simp [State.current, hvalue]

theorem State.touch_present {value : Nat} (h : s.serviceKey.find s.key = some value) :
    s.touch = s := by
  simp [touch, h]

theorem State.increment_ok {value : Nat} {old : Option Nat} (h : increment old = .ok value) :
    value = old.getD 0 + 1 := by
  cases old with
  | none =>
    cases h
    rfl
  | some v =>
    rw [increment] at h
    split at h
    · exact (Except.ok.inj h).symm
    · cases h

theorem handleReadfd_logged {ret : Int} (hopen : fd ∈ s.openFds)
    (hmode : s.interest.find fd = some (EPOLLIN, fd))
    (h : s.handleReadfd fd r.read = .ok (t, ret)) :
    Logged s fd event r (readEvent fd r.read) (if ret = 0 then t.removeFd fd else t) := by
  unfold State.handleReadfd at h
  split at h
  · next hread =>
    cases h
    rw [hread, if_pos rfl, State.removeFd_present hopen hmode]
    exact .removed s.openFds (.inl rfl) hmode
  · next data hdata hread =>
    obtain ⟨value, hvalue, h⟩ := bind_ok.mp h
    cases h
    rw [hread, if_neg (by decide), State.modFd_present (e := (EPOLLIN, fd)), readEvent,
      if_neg hdata]
    · exact .read data value (State.increment_ok hvalue) hmode
    · exact hopen
    · exact hmode
  · next errno hread =>
    rw [hread]
    split at h
    · cases h
      exact .idle
    · cases h
      rw [if_neg (by decide), State.removeFd_close hopen hmode]
      exact .removed _ (.inr rfl) hmode

theorem handleSendFd_logged (hs : Wf s) (hsends : s.Sends fd event) (hopen : fd ∈ s.openFds)
    (hown : s.own fd ≠ none) (hmode : s.interest.find fd = some (EPOLLOUT, fd)) :
    Logged s fd event r (writeEvent fd r.write) (s.handleSendFd fd r.write).1 := by
  unfold State.handleSendFd
  rw [State.touch_present (hs.key_present hown)]
  dsimp only
  split
  · next n hwrote =>
    rw [hwrote, writeEvent]
    split
    · next hn =>
      rw [State.modFd_present (e := (EPOLLOUT, fd))]
      · exact .wrote n hsends hwrote hn hmode
      · exact hopen
      · exact hmode
    · rw [State.removeFd_close hopen hmode]
      exact .writeFailed hmode
  · next errno hwrote =>
    rw [hwrote, writeEvent]
    split
    · exact .idle
    · rw [State.removeFd_close hopen hmode]
      exact .writeFailed hmode

theorem handleListenFd_logged (hs : Wf s) (hr : s.Possible r) :
    Logged s fd event r (if r.accept = -1 then none else some (.accepted r.accept))
      (s.handleListenFd r.accept) := by
  unfold State.handleListenFd
  rcases hr.1 with hfailed | ⟨hnonneg, hnew⟩
  · have hclosed : r.accept ∉ s.openFds := by
      intro hmem
      have := hs.nonneg _ hmem
      omega
    rw [if_pos hfailed, if_pos hfailed, State.addFd_closed hclosed]
    exact .idle
  · have hok : r.accept ≠ -1 := by omega
    rw [if_neg hok, if_neg hok, State.addFd_new]
    · exact .accepted hnonneg hnew
    · exact List.mem_cons_self
    · exact Option.eq_none_iff_forall_ne_some.mpr fun ev hev => hnew (hs.entry _ ev.1 ev.2 hev).1

theorem reports_iff : s.Reports fd event ↔ ∃ mask, s.interest.find fd = some (mask, fd) ∧
    event &&& ~~~(mask ||| EPOLLERR ||| EPOLLHUP) = 0 := by
  unfold State.Reports
  split
  · next mask data hmode =>
    simp [hmode, and_comm, eq_comm]
  · next hnone => simp [hnone]

theorem and_eq_zero {m b : Events} (h : event &&& ~~~m = 0) (hb : ~~~m &&& b = b) :
    event &&& b = 0 := by
  rw [← hb, ← BitVec.and_assoc, h]
  exact BitVec.zero_and

theorem not_canRead (h : event &&& ~~~(EPOLLOUT ||| EPOLLERR ||| EPOLLHUP) = 0) :
    ¬canRead event := by
  simp [canRead, and_eq_zero h (b := EPOLLIN) (by decide)]

theorem not_canWrite (h : event &&& ~~~(EPOLLIN ||| EPOLLERR ||| EPOLLHUP) = 0) :
    ¬canWrite event := by
  simp [canWrite, and_eq_zero h (b := EPOLLOUT) (by decide)]

theorem ltModel_logged (hs : Wf s) (hreports : s.Reports fd event) (hr : s.Possible r)
    (h : ltModel s fd event r = .ok t) : Logged s fd event r (s.happens fd event r) t := by
  obtain ⟨mask, hmode, hevent⟩ := reports_iff.mp hreports
  obtain ⟨hopen, hmask⟩ := hs.entry fd mask fd hmode
  unfold ltModel at h
  unfold State.happens
  split at h
  · next hfd =>
    cases h
    rw [if_pos hfd]
    exact handleListenFd_logged hs hr
  · next hfd =>
    rw [if_neg hfd]
    split at h
    · next hcan =>
      obtain ⟨⟨u, ret⟩, hu, h⟩ := bind_ok.mp h
      cases h
      rw [if_pos hcan]
      rcases hmask with rfl | ⟨rfl, -⟩
      · exact handleReadfd_logged hopen hmode hu
      · exact absurd hcan (not_canRead hevent)
    · next hread =>
      rw [if_neg hread]
      split at h
      · next hcan =>
        cases h
        rw [if_pos hcan]
        rcases hmask with rfl | ⟨rfl, hown⟩
        · exact absurd hcan (not_canWrite hevent)
        · exact handleSendFd_logged hs ⟨hfd, hread, hcan⟩ hopen hown hmode
      · next hcan =>
        cases h
        rw [if_neg hcan]
        exact .idle

theorem ltModel_handled (hs : Wf s) (hreports : s.Reports fd event) (hr : s.Possible r)
    (h : ltModel s fd event r = .ok t) : Handled s fd event r t :=
  (ltModel_logged hs hreports hr h).handled

/-! ## 5. The invariant -/

theorem Handled.nonneg (hs : Wf s) (h : Handled s fd event r t) : ∀ fd' ∈ t.openFds, 0 ≤ fd' := by
  intro fd' hfd'
  cases h with
  | accepted hnonneg hnew =>
    rcases List.mem_cons.mp hfd' with rfl | hold
    · exact hnonneg
    · exact hs.nonneg fd' hold
  | removed openFds hfds =>
    rcases hfds with rfl | rfl
    · exact hs.nonneg fd' hfd'
    · exact hs.nonneg fd' (List.mem_of_mem_erase hfd')
  | request key value hvalue hmode => exact hs.nonneg fd' hfd'
  | reply n hsends hwrote hn hmode => exact hs.nonneg fd' hfd'
  | idle => exact hs.nonneg fd' hfd'

theorem Handled.entry (hs : Wf s) (h : Handled s fd event r t) {fd' : Int} {mask : Events}
    {data : Int} (hfind : t.interest.find fd' = some (mask, data)) :
    fd' ∈ t.openFds ∧ (mask = EPOLLIN ∨ mask = EPOLLOUT ∧ t.own fd' ≠ none) := by
  cases h with
  | accepted hnonneg hnew =>
    rw [Table.find_insert] at hfind
    split at hfind
    · next heq =>
      cases hfind
      exact ⟨heq ▸ List.mem_cons_self, .inl rfl⟩
    · obtain ⟨hopen, hmask⟩ := hs.entry fd' mask data hfind
      exact ⟨List.mem_cons_of_mem _ hopen, hmask⟩
  | request key value hvalue hmode =>
    rw [Table.find_insert] at hfind
    split at hfind
    · next heq =>
      cases hfind
      subst heq
      exact ⟨(hs.entry fd' _ _ hmode).1, .inr ⟨rfl, by simp⟩⟩
    · next hne => simpa [Function.update_of_ne hne] using hs.entry fd' mask data hfind
  | reply n hsends hwrote hn hmode =>
    rw [Table.find_insert] at hfind
    split at hfind
    · next heq =>
      cases hfind
      exact ⟨heq ▸ (hs.entry fd _ _ hmode).1, .inl rfl⟩
    · exact hs.entry fd' mask data hfind
  | removed openFds hfds =>
    rw [Table.find_erase] at hfind
    split at hfind
    · cases hfind
    · next hne =>
      obtain ⟨hopen, hmask⟩ := hs.entry fd' mask data hfind
      refine ⟨?_, hmask⟩
      rcases hfds with rfl | rfl
      · exact hopen
      · exact (List.mem_erase_of_ne hne).mpr hopen
  | idle => exact hs.entry fd' mask data hfind

/-- The modes of the other descriptors stay. -/
theorem Handled.interest_other (hs : Wf s) (h : Handled s fd event r t) {fd' : Int}
    {e : Events × Int} (hother : fd' ≠ fd) (hfind : s.interest.find fd' = some e) :
    t.interest.find fd' = some e := by
  cases h with
  | accepted hnonneg hnew =>
    have hne : fd' ≠ r.accept := fun heq => hnew (heq ▸ (hs.entry fd' e.1 e.2 hfind).1)
    rw [Table.find_insert, if_neg hne, hfind]
  | request key value hvalue hmode => rw [Table.find_insert, if_neg hother, hfind]
  | reply n hsends hwrote hn hmode => rw [Table.find_insert, if_neg hother, hfind]
  | removed openFds hfds => rw [Table.find_erase, if_neg hother, hfind]
  | idle => exact hfind

theorem Handled.batch_eq (h : Handled s fd event r t) : t.batch = s.batch := by
  cases h <;> rfl

theorem Wf.handled (hs : Wf s) (hfd : fd ∉ s.batch.map Prod.fst) (h : Handled s fd event r t) :
    Wf t := by
  refine ⟨h.nonneg hs, fun _ _ _ => h.entry hs, h.batch_eq ▸ hs.batch_nodup, fun e he => ?_,
    ?_, ?_⟩
  · -- the other events of the batch are on other descriptors
    rw [h.batch_eq] at he
    obtain ⟨mask, hmode, hevent⟩ := reports_iff.mp (hs.reports e he)
    have hne : e.1 ≠ fd := fun heq => hfd (heq ▸ List.mem_map_of_mem he)
    exact reports_iff.mpr ⟨mask, h.interest_other hs hne hmode, hevent⟩
  · intro fd' hlast
    cases h with
    | request key value hvalue hmode =>
      cases hlast
      exact ⟨value, by simp, by simp⟩
    | accepted hnonneg hnew => exact hs.last fd' hlast
    | reply n hsends hwrote hn hmode => exact hs.last fd' hlast
    | removed openFds hfds => exact hs.last fd' hlast
    | idle => exact hs.last fd' hlast
  · intro fd' hown
    cases h with
    | request key value hvalue hmode => simp
    | accepted hnonneg hnew => exact hs.read fd' hown
    | reply n hsends hwrote hn hmode => exact hs.read fd' hown
    | removed openFds hfds => exact hs.read fd' hown
    | idle => exact hs.read fd' hown

/-- Taking the next event, or crashing in its handling, changes nothing else. -/
theorem Wf.next (hs : Wf s) {rest : List (Int × Events)} (hbatch : s.batch = (fd, event) :: rest) :
    Wf { s with batch := rest } ∧ fd ∉ rest.map Prod.fst := by
  have hnodup := hs.batch_nodup
  have hreports := hs.reports
  rw [hbatch, List.map_cons, List.nodup_cons] at hnodup
  rw [hbatch] at hreports
  exact ⟨⟨hs.nonneg, hs.entry, hnodup.2, fun e he => hreports e (List.mem_cons_of_mem _ he),
    hs.last, hs.read⟩, hnodup.1⟩

theorem Wf.start {listenfd : Int} (h : 0 ≤ listenfd) : Wf (start listenfd) := by
  refine ⟨fun fd hfd => ?_, fun fd mask data hfind => ?_, by simp [PollingServer.start],
    by simp [PollingServer.start], by simp [PollingServer.start], by simp [PollingServer.start]⟩
  · cases List.mem_singleton.mp hfd
    exact h
  · rw [PollingServer.start, Table.find_insert, Table.find_empty] at hfind
    split at hfind
    · next heq =>
      cases hfind
      exact ⟨List.mem_singleton.mpr heq, .inl rfl⟩
    · cases hfind

/-- What one step does. -/
inductive Stepped (s : State) : Act → State → Prop where
  | wait (events : List (Int × Events)) (hnodup : (events.map Prod.fst).Nodup)
      (hreports : ∀ e ∈ events, s.Reports e.1 e.2) :
      Stepped s (.wait events) { s with batch := events }
  | next {fd : Int} {event : Events} {rest : List (Int × Events)} {r : Results} {t : State}
      (hbatch : s.batch = (fd, event) :: rest) (h : Handled { s with batch := rest } fd event r t) :
      Stepped s (.next r) t
  | crash (r : Results) (e : Fault) : Stepped s (.next r) { s with crashed := some e }

theorem step_stepped {a : Act} (hs : Wf s) (h : machine.step s a = some t) :
    Stepped s a t := by
  obtain ⟨⟨-, hg⟩, rfl⟩ := Trans.Machine.guarded_step.mp h
  cases a with
  | wait events => exact .wait events hg.2.2.1 hg.2.2.2
  | next r =>
    unfold effect
    dsimp only
    split
    · next hnil => exact absurd hnil hg.1
    · next fd event rest hbatch =>
      split
      · next u hu =>
        refine .next hbatch (ltModel_handled (hs.next hbatch).1 ?_ hg.2 hu)
        exact hs.reports (fd, event) (hbatch ▸ List.mem_cons_self)
      · next e he => exact .crash r e

theorem Wf.stepped {a : Act} (hs : Wf s) (h : Stepped s a t) : Wf t := by
  cases h with
  | wait events hnodup hreports => exact ⟨hs.nonneg, hs.entry, hnodup, hreports, hs.last, hs.read⟩
  | next hbatch h => exact (hs.next hbatch).1.handled (hs.next hbatch).2 h
  | crash r e => exact ⟨hs.nonneg, hs.entry, hs.batch_nodup, hs.reports, hs.last, hs.read⟩

/-! ## 6. The numbers as tickets -/

/-- The number that waits to be replied on `fd`. -/
def pending (interest : Interest Int) (own : Int → Option (Key × Nat)) (fd : Int) :
    Option (Key × Nat) :=
  if (interest.find fd).map Prod.fst = some EPOLLOUT then own fd else none

/-- The counters, the numbers that wait to be replied, and those replied. -/
def State.tickets (s : State) : Tickets Key Int where
  count := fun key => (s.serviceKey.find key).getD 0
  held := pending s.interest s.own
  used := s.replies.filterMap Reply.own

section

variable (interest : Interest Int) (own : Int → Option (Key × Nat))

theorem pending_read (fd : Int) :
    pending (interest.insert fd (EPOLLIN, fd)) own =
      Function.update (pending interest own) fd none := by
  funext fd'
  by_cases heq : fd' = fd
  · rw [heq, Function.update_self, pending, Table.find_insert_self]
    simp [EPOLLIN, EPOLLOUT]
  · rw [Function.update_of_ne heq, pending, pending, Table.find_insert, if_neg heq]

theorem pending_write (fd : Int) (x : Option (Key × Nat)) :
    pending (interest.insert fd (EPOLLOUT, fd)) (Function.update own fd x) =
      Function.update (pending interest own) fd x := by
  funext fd'
  by_cases heq : fd' = fd
  · rw [heq, Function.update_self, pending, Table.find_insert_self, Function.update_self]
    simp
  · rw [Function.update_of_ne heq, pending, pending, Table.find_insert, if_neg heq,
      Function.update_of_ne heq]

theorem pending_erase (fd : Int) :
    pending (interest.erase fd) own = Function.update (pending interest own) fd none := by
  funext fd'
  by_cases heq : fd' = fd
  · rw [heq, Function.update_self, pending, Table.find_erase, if_pos rfl]
    rfl
  · rw [Function.update_of_ne heq, pending, pending, Table.find_erase, if_neg heq]

end

theorem Handled.tickets (hs : Wf s) (h : Handled s fd event r t) :
    ∃ bs, (Tickets.machine Key Int).run s.tickets bs = some t.tickets := by
  cases h with
  | accepted hnonneg hnew =>
    have hnone : s.interest.find r.accept = none :=
      Option.eq_none_iff_forall_ne_some.mpr fun e he => hnew (hs.entry _ e.1 e.2 he).1
    have hpending : pending s.interest s.own r.accept = none := by simp [pending, hnone]
    -- a new descriptor waits for a request, so that it holds no number
    refine ⟨[], congrArg some (Tickets.ext rfl ?_ rfl)⟩
    calc pending s.interest s.own
      _ = Function.update (pending s.interest s.own) r.accept none := by
        rw [← hpending, Function.update_eq_self]
      _ = pending (s.interest.insert r.accept (EPOLLIN, r.accept)) s.own :=
        (pending_read _ _ _).symm
  | request key value hvalue hmode =>
    refine ⟨[.take fd key], ?_⟩
    rw [Trans.Machine.run_singleton]
    refine congrArg some (Tickets.ext (funext fun key' => ?_) ?_ rfl)
    · subst hvalue
      simp only [State.tickets, Function.update_apply, Table.find_insert]
      split <;> rfl
    · subst hvalue
      exact (pending_write _ _ _ _).symm
  | reply n hsends hwrote hn hmode =>
    obtain ⟨x, hown⟩ : ∃ x, s.own fd = some x := by
      rcases (hs.entry fd _ _ hmode).2 with hin | ⟨-, hown⟩
      · cases hin
      · exact Option.ne_none_iff_exists'.mp hown
    have hheld : s.tickets.held fd = some x := by
      simp [State.tickets, pending, hmode, hown]
    refine ⟨[.use fd], ?_⟩
    rw [Trans.Machine.run_singleton]
    show (s.tickets.held fd).map _ = _
    rw [hheld]
    refine congrArg some (Tickets.ext rfl (pending_read _ _ _).symm ?_)
    simp [State.tickets, hown]
  | removed openFds hfds =>
    refine ⟨[.drop fd], ?_⟩
    rw [Trans.Machine.run_singleton]
    exact congrArg some (Tickets.ext rfl (pending_erase _ _ _).symm rfl)
  | idle => exact ⟨[], rfl⟩

theorem refines_tickets : Trans.Refines machine (Tickets.machine Key Int) Wf State.tickets := by
  refine ⟨?_, fun s a t hs h => ?_⟩
  · rintro s ⟨listenfd, hnonneg, rfl⟩
    exact ⟨.start hnonneg, fun fd => ite_self none, rfl⟩
  · have hstepped := step_stepped hs h
    refine ⟨hs.stepped hstepped, ?_⟩
    cases hstepped with
    | wait events hnodup hreports => exact ⟨[], rfl⟩
    | next hbatch h =>
      obtain ⟨bs, hbs⟩ := h.tickets (hs.next hbatch).1
      exact ⟨bs, hbs⟩
    | crash r e => exact ⟨[], rfl⟩

/-! ## 7. Prompt replies -/

/-- Where the step is a successful write, it writes all of the text, and the last
request that the server has read is the descriptor's own. -/
def Prompt (s : State) : Act → Prop
  | .wait _ => True
  | .next r =>
    match s.batch, r.write with
    | (fd, event) :: _, .wrote n => s.Sends fd event → 0 < n →
        s.lastReader = some fd ∧ n = (decimal s.current).length
    | _, _ => True

instance (s : State) (a : Act) : Decidable (Prompt s a) := by
  unfold Prompt
  split
  · infer_instance
  · split <;> infer_instance

theorem Stepped.own {a : Act} (hs : Wf s) (hprompt : Prompt s a) (h : Stepped s a t)
    (hown : ∀ reply ∈ s.replies, reply.Own) : ∀ reply ∈ t.replies, reply.Own := by
  cases h with
  | wait events hnodup hreports => exact hown
  | crash r e => exact hown
  | next hbatch h =>
    cases h with
    | accepted hnonneg hnew => exact hown
    | request key value hvalue hmode => exact hown
    | removed openFds hfds => exact hown
    | idle => exact hown
    | reply n hsends hwrote hn hmode =>
      intro reply hreply
      rcases List.mem_append.mp hreply with hold | hnew
      · exact hown reply hold
      · -- the last request read is this descriptor's, so that its key and its count are current
        rw [Prompt, hbatch, hwrote] at hprompt
        obtain ⟨hlast, rfl⟩ := hprompt hsends hn
        obtain ⟨value, hvalue, hcount⟩ := hs.last _ hlast
        cases List.mem_singleton.mp hnew
        refine ⟨s.key, value, hvalue, ?_⟩
        have hcurrent : s.current = value := by simp [State.current, hcount]
        show (decimal s.current).take _ = _
        rw [List.take_length, hcurrent]

/-- Each reply is the client's own number and no two replies for a key are equal,
in every state of every run whose replies are prompt. -/
theorem replies_own {s₀ : State} {as : List Act} (hinit : machine.init s₀)
    (hprompt : machine.Along Prompt s₀ as) (hrun : machine.run s₀ as = some s) : s.Answers := by
  have hown : ∀ reply ∈ s.replies, reply.Own := by
    refine (Trans.Machine.run_invariant (I := fun s => Wf s ∧ ∀ reply ∈ s.replies, reply.Own)
      ?_ ?_ hprompt hrun).2
    · rintro s a t ⟨hs, hown⟩ hprompt hstep
      have hstepped := step_stepped hs hstep
      exact ⟨hs.stepped hstepped, hstepped.own hs hprompt hown⟩
    · obtain ⟨listenfd, hnonneg, rfl⟩ := hinit
      exact ⟨.start hnonneg, fun reply hreply => absurd hreply List.not_mem_nil⟩
  have hnodup : (s.replies.filterMap Reply.own).Nodup :=
    Tickets.used_nodup (refines_tickets.reachable ⟨s₀, as, hinit, hrun⟩)
  refine ⟨hown, (List.pairwise_filterMap.mp hnodup).imp_of_mem ?_⟩
  intro reply reply' hmem hmem' hdistinct hkey htext
  obtain ⟨key, value, hr, hrtext⟩ := hown reply hmem
  obtain ⟨key', value', hr', hrtext'⟩ := hown reply' hmem'
  rw [hr, hr'] at hkey
  rw [hrtext, hrtext'] at htext
  refine hdistinct _ hr _ hr' (Prod.ext (Option.some.inj hkey) (Decimal.toDigits_injective htext))

/-- One client is answered twice. -/
def oneClient : List Act :=
  [.wait [(3, EPOLLIN)], .next ⟨5, .error EAGAIN, .error EAGAIN⟩,
    .wait [(5, EPOLLIN)], .next ⟨-1, .bytes [97], .error EAGAIN⟩,
    .wait [(5, EPOLLOUT)], .next ⟨-1, .error EAGAIN, .error EAGAIN⟩,
    .wait [(5, EPOLLOUT)], .next ⟨-1, .error EAGAIN, .wrote 1⟩,
    .wait [(5, EPOLLIN)], .next ⟨-1, .bytes [97], .error EAGAIN⟩,
    .wait [(5, EPOLLOUT)], .next ⟨-1, .error EAGAIN, .wrote 1⟩]

theorem oneClient_replies : ∃ s, machine.run (start 3) oneClient = some s ∧ s.Answers ∧
    s.replies = [⟨['1'], some ([97], 1)⟩, ⟨['2'], some ([97], 2)⟩] := by
  have hreplies : (machine.run (start 3) oneClient).map State.replies =
      some [⟨['1'], some ([97], 1)⟩, ⟨['2'], some ([97], 2)⟩] := by
    decide +kernel
  obtain ⟨s, hrun, hs⟩ := Option.map_eq_some_iff.mp hreplies
  have hprompt : machine.Along Prompt (start 3) oneClient := by decide +kernel
  exact ⟨s, hrun, replies_own ⟨3, by decide, rfl⟩ hprompt hrun, hs⟩

end

end PollingServer

end NetFrame
