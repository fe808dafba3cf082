import NetFrame.Buffer
import NetFrame.Poller

/-!
# TcpConnection

The functions of `TcpConnection.cpp` that run on the connection's loop. A
connection is modelled with what its functions change besides its own fields:
the poller its handler is in, the system calls on its descriptor, and the calls
it makes to its user, to the server and to the loop.

Results:
1. `sendInLoop_spec`, `handleWrite_spec`: what the two functions do to the
   bytes taken by the kernel and to the output buffer.
2. `sendInLoop_ok`, `handleWrite_ok`: when they return.
-/

namespace NetFrame

open Outcome

/-! ## 1. System calls -/

/-- What `SocketOps::write` returns: an errno, or how many bytes it took. -/
inductive WriteResult where
  | error (errno : Int)
  | wrote (n : Nat)
  deriving DecidableEq, Repr

/-- The kernel takes no more bytes than it is given. -/
def WriteResult.Fits : WriteResult → Nat → Prop
  | .error _, _ => True
  | .wrote n, count => n ≤ count

instance (r : WriteResult) (count : Nat) : Decidable (r.Fits count) := by
  cases r <;> unfold WriteResult.Fits <;> infer_instance

/-- The kernel takes a part of what it is given, but not all. -/
def WriteResult.Short : WriteResult → Nat → Prop
  | .error _, _ => False
  | .wrote n, count => 0 < n ∧ n < count

instance (r : WriteResult) (count : Nat) : Decidable (r.Short count) := by
  cases r <;> unfold WriteResult.Short <;> infer_instance

/-- The system calls on a connection's descriptor that concern its output. -/
inductive Syscall where
  | write (data : List Byte) (result : WriteResult)
  | shutdownWrite
  deriving DecidableEq, Repr

namespace Syscall

/-- The bytes that the kernel takes in a call. -/
def taken : Syscall → List Byte
  | write data (.wrote n) => data.take n
  | write _ (.error _) => []
  | shutdownWrite => []

end Syscall

/-! ## 2. The functions -/

/-- `m_state` of a connection. -/
inductive StateE where
  | kDisconnected
  | kConnecting
  | kConnected
  | kDisconnecting
  deriving DecidableEq, Repr

/-- The calls that leave a connection: of its callbacks, and of
`queueInLoop(boost::bind(m_writeCompleteCB, shared_from_this()))`. -/
inductive Upcall where
  | connectionCB
  | messageCB
  | closeCB
  | queueWriteComplete
  deriving DecidableEq, Repr

structure TcpConnection (H : Type) where
  state : StateE
  handler : H
  inputBuffer : Buffer
  outputBuffer : Buffer
  /-- Whether `m_writeCompleteCB` is set. -/
  writeCompleteCB : Bool
  poller : EPollPoller H
  syscalls : List Syscall
  upcalls : List Upcall

namespace TcpConnection

variable {H : Type}

/-- The handler, with its mask and its place in the poller. -/
def hd (c : TcpConnection H) : Handler := c.poller.handlers c.handler

def isWriting (c : TcpConnection H) : Bool := c.hd.isWriting

def setState (c : TcpConnection H) (s : StateE) : TcpConnection H := { c with state := s }

def upcall (c : TcpConnection H) (u : Upcall) : TcpConnection H :=
  { c with upcalls := c.upcalls ++ [u] }

/-- `if(m_writeCompleteCB) m_ploop->queueInLoop(..)`. -/
def queueWriteComplete (c : TcpConnection H) : TcpConnection H :=
  { c with
    upcalls := if c.writeCompleteCB then c.upcalls ++ [.queueWriteComplete] else c.upcalls }

def syscall (c : TcpConnection H) (call : Syscall) : TcpConnection H :=
  { c with syscalls := c.syscalls ++ [call] }

/-- The bytes that the kernel has taken so far. -/
def taken (c : TcpConnection H) : List Byte := c.syscalls.flatMap Syscall.taken

def shutdownInLoop (c : TcpConnection H) : TcpConnection H :=
  if c.isWriting then c else c.syscall .shutdownWrite

section

variable [DecidableEq H]

/-- The constructor, for a new handler `h` of the poller `p`. -/
def make (p : EPollPoller H) (h : H) (sockfd : Int) (writeCompleteCB : Bool) : TcpConnection H where
  state := .kConnecting
  handler := h
  inputBuffer := Buffer.fresh
  outputBuffer := Buffer.fresh
  writeCompleteCB := writeCompleteCB
  poller := p.setHandler h (Handler.make sockfd)
  syscalls := []
  upcalls := []

def enableReading (c : TcpConnection H) : Except Fault (TcpConnection H) := do
  return { c with poller := ← c.poller.enableReading c.handler }

def enableWriting (c : TcpConnection H) : Except Fault (TcpConnection H) := do
  return { c with poller := ← c.poller.enableWriting c.handler }

def disableWriting (c : TcpConnection H) : Except Fault (TcpConnection H) := do
  return { c with poller := ← c.poller.disableWriting c.handler }

def disableAll (c : TcpConnection H) : Except Fault (TcpConnection H) := do
  return { c with poller := ← c.poller.disableAll c.handler }

def removeHandler (c : TcpConnection H) : Except Fault (TcpConnection H) := do
  return { c with poller := ← c.poller.remove c.handler }

/-- The direct write of `sendInLoop`: the connection, `nwrote` and `remaining`. -/
def directWrite (c : TcpConnection H) (data : List Byte) (r : WriteResult) :
    TcpConnection H × Nat × Nat :=
  if c.isWriting = false ∧ c.outputBuffer.readableBytes = 0 then
    let c₁ := c.syscall (.write data r)
    match r with
    | .wrote n =>
      let remaining := data.length - n
      (if remaining = 0 then c₁.queueWriteComplete else c₁, n, remaining)
    | .error _ => (c₁, 0, data.length)
  else (c, 0, data.length)

/-- The end of `sendInLoop`, for the bytes that the direct write has left. -/
def appendOutput (c : TcpConnection H) (data : List Byte) : Except Fault (TcpConnection H) := do
  let c₁ := { c with outputBuffer := ← c.outputBuffer.append data }
  if c₁.isWriting = false then c₁.enableWriting else return c₁

/-- `sendInLoop`, where `r` is what `write` returns if it is called and
`asserts` says whether line 123 is compiled. -/
def sendInLoop (asserts : Bool) (c : TcpConnection H) (data : List Byte) (r : WriteResult) :
    Except Fault (TcpConnection H) := do
  let (c₁, nwrote, remaining) := c.directWrite data r
  check (asserts = true → remaining < data.length) "remaining < len"
  if remaining > 0 then c₁.appendOutput ((data.drop nwrote).take remaining) else return c₁

/-- The branch of `handleWrite` in which no output is left. -/
def outputDrained (c : TcpConnection H) : Except Fault (TcpConnection H) := do
  let c₁ := (← c.disableWriting).queueWriteComplete
  if c₁.state = .kDisconnecting then return c₁.shutdownInLoop else return c₁

def handleWrite (c : TcpConnection H) (r : WriteResult) : Except Fault (TcpConnection H) :=
  if c.isWriting then
    let c₁ := c.syscall (.write c.outputBuffer.content r)
    match r with
    | .error _ => .ok c₁
    | .wrote n =>
      if n > 0 then do
        let c₂ := { c₁ with outputBuffer := ← c₁.outputBuffer.retrieve n }
        if c₂.outputBuffer.readableBytes = 0 then c₂.outputDrained else return c₂
      else .ok c₁
  else .ok c

def handleClose (c : TcpConnection H) : Except Fault (TcpConnection H) := do
  check (c.state = .kConnected ∨ c.state = .kDisconnecting)
    "m_state == kConnected || m_state == kDisconnecting"
  let c₁ ← (c.setState .kDisconnected).disableAll
  return (c₁.upcall .connectionCB).upcall .closeCB

def handleRead (c : TcpConnection H) (r : Buffer.ReadResult) : Except Fault (TcpConnection H) := do
  let (b, n, _) ← c.inputBuffer.readFd r
  let c₁ := { c with inputBuffer := b }
  if n > 0 then return c₁.upcall .messageCB
  else if n = 0 then c₁.handleClose
  else return c₁

def connectionEstablished (c : TcpConnection H) : Except Fault (TcpConnection H) := do
  check (c.state = .kConnecting) "m_state == kConnecting"
  let c₁ ← (c.setState .kConnected).enableReading
  return c₁.upcall .connectionCB

/-- `connectionDestroyed`. The `if` of the source is followed by a `;`, so that
its block runs in every state. -/
def connectionDestroyed (c : TcpConnection H) : Except Fault (TcpConnection H) := do
  let c₁ ← (c.setState .kDisconnected).disableAll
  (c₁.upcall .connectionCB).removeHandler

end

/-! ## 3. The invariant -/

/-- The poller and the handler of the connection agree. -/
def Placed (c : TcpConnection H) : Prop := c.poller.AgreeAt c.handler

/-- What every call of the connection keeps, also after its close. -/
structure Wf (c : TcpConnection H) : Prop where
  sound : c.poller.Sound
  input : c.inputBuffer.Inv
  output : c.outputBuffer.Inv

theorem Wf.placed {c : TcpConnection H} (hc : c.Wf) : c.Placed := hc.sound.agreeAt c.handler

/-- Until the close, write events are asked for exactly while output is pending. -/
structure Inv (c : TcpConnection H) : Prop extends Wf c where
  writing : c.isWriting = true ↔ c.outputBuffer.content ≠ []

theorem Inv.direct_iff {c : TcpConnection H} (hc : c.Inv) :
    c.isWriting = false ∧ c.outputBuffer.readableBytes = 0 ↔ c.outputBuffer.content = [] := by
  rw [Buffer.content_eq_nil hc.output, and_iff_right_iff_imp]
  intro h
  rw [Bool.eq_false_iff, ne_eq, hc.writing, not_not, Buffer.content_eq_nil hc.output]
  exact h

theorem Inv.writing_iff {c : TcpConnection H} (hc : c.Inv) :
    c.isWriting = true ↔ 0 < c.outputBuffer.readableBytes := by
  rw [hc.writing, ne_eq, Buffer.content_eq_nil hc.output, Nat.pos_iff_ne_zero]

section

variable {c c' : TcpConnection H} {data : List Byte} {r : WriteResult}

/-- The system calls of `sendInLoop`. -/
def sendCalls (c : TcpConnection H) (data : List Byte) (r : WriteResult) : List Syscall :=
  if c.isWriting = false ∧ c.outputBuffer.readableBytes = 0 then [.write data r] else []

/-- `c` after the system calls `calls`, with `k` write-complete callbacks queued. -/
def advance (c : TcpConnection H) (calls : List Syscall) (k : Nat) : TcpConnection H :=
  { c with
    syscalls := c.syscalls ++ calls
    upcalls := c.upcalls ++ List.replicate k .queueWriteComplete }

theorem queueWriteComplete_eq (c : TcpConnection H) :
    ∃ k, c.queueWriteComplete =
      { c with upcalls := c.upcalls ++ List.replicate k .queueWriteComplete } := by
  unfold queueWriteComplete
  cases c.writeCompleteCB with
  | true => exact ⟨1, rfl⟩
  | false => exact ⟨0, by simp⟩

theorem directWrite_spec (hr : r.Fits data.length) :
    ∃ k nwrote remaining,
      c.directWrite data r = (c.advance (c.sendCalls data r) k, nwrote, remaining) ∧
      nwrote + remaining = data.length ∧
      (c.sendCalls data r).flatMap Syscall.taken = data.take nwrote ∧
      (nwrote ≠ 0 →
        c.isWriting = false ∧ c.outputBuffer.readableBytes = 0 ∧ r = .wrote nwrote) := by
  unfold directWrite sendCalls
  by_cases hd : c.isWriting = false ∧ c.outputBuffer.readableBytes = 0
  · rw [if_pos hd, if_pos hd]
    cases r with
    | error errno =>
      exact ⟨0, 0, _, by simp [syscall, advance], Nat.zero_add _, rfl, fun h => absurd rfl h⟩
    | wrote n =>
      obtain ⟨k, hk⟩ := queueWriteComplete_eq (c.syscall (.write data (.wrote n)))
      refine ⟨if data.length - n = 0 then k else 0, n, data.length - n, ?_,
        Nat.add_sub_cancel' hr, by simp [Syscall.taken], fun _ => ⟨hd.1, hd.2, rfl⟩⟩
      dsimp only
      rw [hk]
      split <;> simp [syscall, advance]
  · rw [if_neg hd, if_neg hd]
    exact ⟨0, 0, _, by simp [advance], Nat.zero_add _, rfl, fun h => absurd rfl h⟩

/-- The system calls at the end of a drain. -/
def drainCalls (c : TcpConnection H) : List Syscall :=
  if c.state = .kDisconnecting then [.shutdownWrite] else []

theorem taken_drainCalls (c : TcpConnection H) : c.drainCalls.flatMap Syscall.taken = [] := by
  unfold drainCalls
  split <;> rfl

/-- The system calls of `handleWrite`: with the last byte of a connection that
is shutting down it issues the half-close. -/
def writeCalls (c : TcpConnection H) (r : WriteResult) : List Syscall :=
  if c.isWriting then
    .write c.outputBuffer.content r ::
      (if r = .wrote c.outputBuffer.content.length then c.drainCalls else [])
  else []

theorem taken_append {calls : List Syscall} (h : c'.syscalls = c.syscalls ++ calls) :
    c'.taken = c.taken ++ calls.flatMap Syscall.taken := by
  rw [taken, h, List.flatMap_append]
  rfl

theorem shutdownInLoop_eq (c : TcpConnection H) :
    c.shutdownInLoop =
      { c with syscalls := c.syscalls ++ if c.isWriting then [] else [.shutdownWrite] } := by
  unfold shutdownInLoop syscall
  split <;> simp

end

/-! ## 4. The calls on the handler -/

section

variable [DecidableEq H] {c c' : TcpConnection H} {data : List Byte} {r : WriteResult}

theorem hd_make (p : EPollPoller H) (h : H) (sockfd : Int) (cb : Bool) :
    (make p h sockfd cb).hd = Handler.make sockfd := by
  simp [hd, make]

/-- What a call on the handler changes in the poller: it leaves `hd` there. -/
abbrev Leaves (c : TcpConnection H) (p : EPollPoller H) (hd : Handler) : Prop :=
  EPollPoller.Local c.poller p c.handler hd

/-- What a call on the handler with the new mask `e` does. -/
theorem setEvents_spec (hp : c.Placed) (e : Events) :
    ∃ p, (c.poller.setEvents c.handler e).updateHandler c.handler = .ok p ∧
      c.Leaves p (EPollPoller.nextHandler c.hd e) :=
  EPollPoller.updateHandler_spec hp e

theorem enableWriting_spec (hp : c.Placed) :
    ∃ p, c.enableWriting = .ok { c with poller := p } ∧
      c.Leaves p (EPollPoller.nextHandler c.hd (c.hd.events ||| Handler.kWriteEvent)) := by
  obtain ⟨p, hok, hl⟩ := setEvents_spec hp (c.hd.events ||| Handler.kWriteEvent)
  exact ⟨p, bind_ok.mpr ⟨p, hok, rfl⟩, hl⟩

theorem disableWriting_spec (hp : c.Placed) :
    ∃ p, c.disableWriting = .ok { c with poller := p } ∧
      c.Leaves p (EPollPoller.nextHandler c.hd (c.hd.events &&& ~~~Handler.kWriteEvent)) := by
  obtain ⟨p, hok, hl⟩ := setEvents_spec hp (c.hd.events &&& ~~~Handler.kWriteEvent)
  exact ⟨p, bind_ok.mpr ⟨p, hok, rfl⟩, hl⟩

theorem enableReading_spec (hp : c.Placed) :
    ∃ p, c.enableReading = .ok { c with poller := p } ∧
      c.Leaves p (EPollPoller.nextHandler c.hd (c.hd.events ||| Handler.kReadEvent)) := by
  obtain ⟨p, hok, hl⟩ := setEvents_spec hp (c.hd.events ||| Handler.kReadEvent)
  exact ⟨p, bind_ok.mpr ⟨p, hok, rfl⟩, hl⟩

theorem disableAll_spec (hp : c.Placed) :
    ∃ p, c.disableAll = .ok { c with poller := p } ∧
      c.Leaves p (EPollPoller.nextHandler c.hd Handler.kNoneEvent) := by
  obtain ⟨p, hok, hl⟩ := setEvents_spec hp Handler.kNoneEvent
  exact ⟨p, bind_ok.mpr ⟨p, hok, rfl⟩, hl⟩

theorem connectionEstablished_spec (hp : c.Placed) (hst : c.state = .kConnecting) :
    ∃ p, c.connectionEstablished = .ok { c with
        state := .kConnected, poller := p, upcalls := c.upcalls ++ [.connectionCB] } ∧
      c.Leaves p (EPollPoller.nextHandler c.hd (c.hd.events ||| Handler.kReadEvent)) := by
  obtain ⟨p, hok, hl⟩ := enableReading_spec (c := c.setState .kConnected) hp
  exact ⟨p, (check_bind hst).trans (bind_ok_eq hok), hl⟩

theorem handleClose_spec (hp : c.Placed) (hst : c.state = .kConnected ∨ c.state = .kDisconnecting) :
    ∃ p, c.handleClose = .ok { c with
        state := .kDisconnected, poller := p,
        upcalls := c.upcalls ++ [.connectionCB] ++ [.closeCB] } ∧
      c.Leaves p (EPollPoller.nextHandler c.hd Handler.kNoneEvent) := by
  obtain ⟨p, hok, hl⟩ := disableAll_spec (c := c.setState .kDisconnected) hp
  exact ⟨p, (check_bind hst).trans (bind_ok_eq hok), hl⟩

/-- A `handleClose` that returns has found the connection open. -/
theorem handleClose_ok (hp : c.Placed) (h : c.handleClose = .ok c') :
    (c.state = .kConnected ∨ c.state = .kDisconnecting) ∧
    ∃ p, c' = { c with
        state := .kDisconnected, poller := p,
        upcalls := c.upcalls ++ [.connectionCB] ++ [.closeCB] } ∧
      c.Leaves p (EPollPoller.nextHandler c.hd Handler.kNoneEvent) := by
  obtain ⟨hst, -⟩ := check_bind_ok.mp h
  obtain ⟨p, hok, hl⟩ := handleClose_spec hp hst
  rw [h] at hok
  exact ⟨hst, p, Except.ok.inj hok, hl⟩

/-- `connectionDestroyed` returns in every state: where the handler is not in
the map, `disableAll` puts it there for `removeHandler` to take it out. -/
theorem connectionDestroyed_spec (hp : c.Placed) :
    ∃ p, c.connectionDestroyed = .ok { c with
        state := .kDisconnected, poller := p, upcalls := c.upcalls ++ [.connectionCB] } ∧
      c.Leaves p { c.hd with events := Handler.kNoneEvent, state := .kNew } := by
  obtain ⟨p, hok, hl⟩ := disableAll_spec (c := c.setState .kDisconnected) hp
  have hhd : p.handlers c.handler = EPollPoller.nextHandler c.hd Handler.kNoneEvent := hl.self
  have hin : (p.handlers c.handler).state ≠ .kNew := by
    rw [hhd]
    exact EPollPoller.nextState_ne_kNew _ _
  have hnone : (p.handlers c.handler).events = Handler.kNoneEvent := by
    rw [hhd]
    rfl
  obtain ⟨q, hrem, hl'⟩ := EPollPoller.remove_spec hl.agreeAt hin hnone
  have hgone : { p.handlers c.handler with state := .kNew } =
      { c.hd with events := Handler.kNoneEvent, state := .kNew } := by
    rw [hhd]
    rfl
  refine ⟨q, (bind_ok_eq hok).trans (bind_ok_eq hrem), ?_⟩
  rw [← hgone]
  exact hl.trans hl'

/-! ## 5. Output -/

/-- A handler that waits for input, as one does between `connectionEstablished`
and the close. -/
structure Listening (hd : Handler) : Prop where
  added : hd.state = .kAdded
  reads : hd.events &&& Handler.kReadEvent = Handler.kReadEvent

theorem listening_next {hd : Handler} {e : Events}
    (he : e &&& Handler.kReadEvent = Handler.kReadEvent) :
    Listening (EPollPoller.nextHandler hd e) := by
  refine ⟨if_neg ?_, he⟩
  rintro ⟨-, rfl⟩
  exact absurd he (by decide)

theorem Listening.or {hd : Handler} (h : Listening hd) :
    Listening (EPollPoller.nextHandler hd (hd.events ||| Handler.kWriteEvent)) := by
  apply listening_next
  have hdisj : Handler.kWriteEvent &&& Handler.kReadEvent = 0 := by decide
  rw [BitVec.and_or_distrib_right, h.reads, hdisj]
  decide

theorem Listening.and {hd : Handler} (h : Listening hd) :
    Listening (EPollPoller.nextHandler hd (hd.events &&& ~~~Handler.kWriteEvent)) := by
  apply listening_next
  have hsub : ~~~Handler.kWriteEvent &&& Handler.kReadEvent = Handler.kReadEvent := by decide
  rw [BitVec.and_assoc, hsub, h.reads]

/-- What a call that writes does: with the system calls `calls` it takes on the
bytes `data`, which go to the kernel or to the output buffer, behind those that
were pending. -/
structure Output (c c' : TcpConnection H) (calls : List Syscall) (data : List Byte) : Prop where
  inv : c'.Inv
  syscalls : c'.syscalls = c.syscalls ++ calls
  content : calls.flatMap Syscall.taken ++ c'.outputBuffer.content =
    c.outputBuffer.content ++ data
  state : c'.state = c.state
  handler : c'.handler = c.handler
  listening : Listening c.hd → Listening c'.hd
  upcalls : ∃ k, c'.upcalls = c.upcalls ++ List.replicate k .queueWriteComplete

/-- The part of the output that is to be buffered is appended, and write events
are asked for from then on. -/
theorem appendOutput_spec (hc : c.Wf) (h : c.appendOutput data = .ok c') :
    ∃ b p, c' = { c with outputBuffer := b, poller := p } ∧ b.Inv ∧
      b.content = c.outputBuffer.content ++ data ∧ p.Sound ∧
      (p.handlers c.handler).isWriting = true ∧
      (Listening c.hd → Listening (p.handlers c.handler)) := by
  obtain ⟨b, happ, hrest⟩ := bind_ok.mp h
  obtain ⟨hinv, hcontent⟩ := Buffer.append_ok hc.output happ
  dsimp only at hrest
  split at hrest
  · obtain ⟨p, hok, hl⟩ := enableWriting_spec (c := { c with outputBuffer := b }) hc.placed
    have hhd : p.handlers c.handler =
        EPollPoller.nextHandler c.hd (c.hd.events ||| Handler.kWriteEvent) := hl.self
    rw [hok] at hrest
    cases hrest
    refine ⟨b, p, rfl, hinv, hcontent, hl.sound hc.sound, ?_, fun hlisten => ?_⟩
    · exact hhd ▸ Handler.isWriting_or _ rfl
    · exact hhd ▸ hlisten.or
  · next hw =>
    cases hrest
    exact ⟨b, c.poller, rfl, hinv, hcontent, hc.sound, Bool.eq_true_of_not_eq_false hw, id⟩

theorem appendOutput_ok (hc : c.Wf)
    (hsz : c.outputBuffer.writerIndex + data.length + Buffer.kCheapPrepend < sizeMod) :
    ∃ c', c.appendOutput data = .ok c' := by
  obtain ⟨b, happ, -⟩ := Buffer.append_spec hc.output hsz
  unfold appendOutput
  rw [happ, ok_bind]
  dsimp only
  split
  · obtain ⟨p, hok, -⟩ := enableWriting_spec (c := { c with outputBuffer := b }) hc.placed
    exact ⟨_, hok⟩
  · exact ⟨_, rfl⟩

/-- `sendInLoop` takes on all of `data`. -/
theorem sendInLoop_spec {asserts : Bool} (hc : c.Inv) (hr : r.Fits data.length)
    (h : sendInLoop asserts c data r = .ok c') : Output c c' (c.sendCalls data r) data := by
  obtain ⟨k, nwrote, remaining, hdirect, hsum, htaken, hpend⟩ := directWrite_spec (c := c) hr
  rw [sendInLoop, hdirect] at h
  obtain ⟨-, hrest⟩ := check_bind_ok.mp h
  -- bytes are written directly only past an empty output buffer
  have hnil : nwrote ≠ 0 → c.outputBuffer.content = [] := fun hn =>
    hc.direct_iff.mp ⟨(hpend hn).1, (hpend hn).2.1⟩
  have hsplit : data.take nwrote ++ data.drop nwrote = data := List.take_append_drop _ _
  split at hrest
  · have hlen : (data.drop nwrote).take remaining = data.drop nwrote := by
      rw [List.take_of_length_le]
      rw [List.length_drop]
      omega
    rw [hlen] at hrest
    obtain ⟨b, p, rfl, hb, hcontent, hs, hw, hl⟩ := appendOutput_spec
      (c := c.advance _ k) ⟨hc.sound, hc.input, hc.output⟩ hrest
    have hne : b.content ≠ [] := by
      rw [hcontent, ne_eq, List.append_eq_nil_iff, List.drop_eq_nil_iff]
      omega
    refine ⟨⟨⟨hs, hc.input, hb⟩, ⟨fun _ => hne, fun _ => hw⟩⟩, rfl, ?_, rfl, rfl, hl, k, rfl⟩
    show _ ++ b.content = _
    rw [htaken, hcontent]
    by_cases hn : nwrote = 0
    · simp [hn, advance]
    · show _ ++ (c.outputBuffer.content ++ _) = _
      rw [hnil hn, List.nil_append, List.nil_append, hsplit]
  · cases hrest
    have hn : nwrote = data.length := by omega
    refine ⟨⟨⟨hc.sound, hc.input, hc.output⟩, hc.writing⟩, rfl, ?_, rfl, rfl, id, k, rfl⟩
    show _ ++ c.outputBuffer.content = _
    rw [htaken, hn, List.take_length]
    by_cases hz : nwrote = 0
    · simp [List.length_eq_zero_iff.mp (hn.symm.trans hz)]
    · simp [hnil hz]

/-- Without the assertion of line 123, `sendInLoop` returns as long as the
output fits in `size_t`. -/
theorem sendInLoop_ok (hc : c.Inv) (hr : r.Fits data.length)
    (hsz : c.outputBuffer.writerIndex + data.length + Buffer.kCheapPrepend < sizeMod) :
    ∃ c', sendInLoop false c data r = .ok c' := by
  obtain ⟨k, nwrote, remaining, hdirect, hsum, -, -⟩ := directWrite_spec (c := c) hr
  rw [sendInLoop, hdirect]
  dsimp only
  rw [check_bind (by simp)]
  split
  · have hlen := List.length_take_le remaining (data.drop nwrote)
    refine appendOutput_ok (c := c.advance _ k)
      ⟨hc.sound, hc.input, hc.output⟩ (Nat.lt_of_le_of_lt ?_ hsz)
    show c.outputBuffer.writerIndex + _ + _ ≤ _
    omega
  · exact ⟨_, rfl⟩

theorem outputDrained_spec (hp : c.Placed) :
    ∃ p k, c.outputDrained = .ok { c with
        poller := p
        syscalls := c.syscalls ++ c.drainCalls
        upcalls := c.upcalls ++ List.replicate k .queueWriteComplete } ∧
      c.Leaves p (EPollPoller.nextHandler c.hd (c.hd.events &&& ~~~Handler.kWriteEvent)) ∧
      (p.handlers c.handler).isWriting = false ∧
      (Listening c.hd → Listening (p.handlers c.handler)) := by
  obtain ⟨p, hok, hl⟩ := disableWriting_spec hp
  obtain ⟨k, hk⟩ := queueWriteComplete_eq { c with poller := p }
  have hhd := hl.self
  have hoff : (p.handlers c.handler).isWriting = false := hhd ▸ Handler.isWriting_and _ rfl
  refine ⟨p, k, ?_, hl, hoff, fun hlisten => hhd ▸ Listening.and hlisten⟩
  unfold outputDrained drainCalls
  rw [hok, ok_bind, hk]
  by_cases hst : c.state = .kDisconnecting
  · refine (if_pos hst).trans ?_
    rw [if_pos hst]
    exact congrArg Except.ok (if_neg (by simpa [isWriting, hd] using hoff))
  · refine (if_neg hst).trans ?_
    rw [if_neg hst, List.append_nil]
    rfl

/-- The case of `handleWrite` in which the kernel takes bytes. -/
theorem handleWrite_wrote {n : Nat} {b : Buffer} (hw : c.isWriting = true) (hn : n > 0)
    (hret : c.outputBuffer.retrieve n = .ok b) :
    c.handleWrite (.wrote n) =
      if b.readableBytes = 0 then
        outputDrained
          { c.syscall (.write c.outputBuffer.content (.wrote n)) with outputBuffer := b }
      else .ok { c.syscall (.write c.outputBuffer.content (.wrote n)) with outputBuffer := b } := by
  rw [handleWrite, if_pos hw]
  dsimp only
  rw [if_pos hn]
  exact bind_ok_eq hret

/-- `handleWrite` returns, and moves the front of the output to the kernel. -/
theorem handleWrite_spec (hc : c.Inv) (hr : r.Fits c.outputBuffer.content.length) :
    ∃ c', c.handleWrite r = .ok c' ∧ Output c c' (c.writeCalls r) [] := by
  have hnone : ∃ k, c.upcalls = c.upcalls ++ List.replicate k .queueWriteComplete :=
    ⟨0, (List.append_nil _).symm⟩
  by_cases hw : c.isWriting = true
  swap
  · rw [handleWrite, writeCalls, if_neg hw, if_neg hw]
    exact ⟨c, rfl, hc, (List.append_nil _).symm, (List.append_nil _).symm, rfl, rfl, id, hnone⟩
  have hne := hc.writing.mp hw
  rw [writeCalls, if_pos hw]
  cases r with
  | error errno =>
    rw [handleWrite, if_pos hw]
    exact ⟨_, rfl, ⟨⟨hc.sound, hc.input, hc.output⟩, hc.writing⟩, rfl, (List.append_nil _).symm,
      rfl, rfl, id, hnone⟩
  | wrote n =>
    have hlen : n ≤ c.outputBuffer.content.length := hr
    rcases Nat.eq_zero_or_pos n with rfl | hn
    · -- nothing is taken, and something was pending
      have hpart : WriteResult.wrote 0 ≠ .wrote c.outputBuffer.content.length := by
        intro h
        injection h with h
        exact hne (List.length_eq_zero_iff.mp h.symm)
      rw [handleWrite, if_pos hw, if_neg hpart]
      exact ⟨_, rfl, ⟨⟨hc.sound, hc.input, hc.output⟩, hc.writing⟩, rfl, (List.append_nil _).symm,
        rfl, rfl, id, hnone⟩
    obtain ⟨b, hret, hb, hcontent, -⟩ :=
      Buffer.retrieve_spec hc.output (hlen.trans (Buffer.length_content hc.output).le)
    have hempty : b.content = [] ↔ n = c.outputBuffer.content.length := by
      rw [hcontent, List.drop_eq_nil_iff]
      exact ⟨fun h => Nat.le_antisymm hlen h, fun h => h.ge⟩
    have hsplit : c.outputBuffer.content.take n ++ b.content = c.outputBuffer.content ++ [] := by
      rw [hcontent, List.take_append_drop, List.append_nil]
    rw [handleWrite_wrote hw hn hret]
    by_cases hd : b.readableBytes = 0
    · -- the last pending byte is taken
      have hnil := (Buffer.content_eq_nil hb).mpr hd
      obtain ⟨p, k, hok, hl, hoff, hlisten⟩ := outputDrained_spec (c := { c.syscall
        (.write c.outputBuffer.content (.wrote n)) with outputBuffer := b }) hc.placed
      rw [if_pos hd, if_pos (by rw [hempty.mp hnil])]
      refine ⟨_, hok, ⟨⟨hl.sound hc.sound, hc.input, hb⟩, ?_⟩, List.append_assoc _ _ _, ?_, rfl,
        rfl, hlisten, k, rfl⟩
      · exact ⟨fun h => absurd (h.symm.trans hoff) (by decide), fun h => absurd hnil h⟩
      · rw [List.flatMap_cons, taken_drainCalls, List.append_nil]
        exact hsplit
    · have hnil : b.content ≠ [] := fun h => hd ((Buffer.content_eq_nil hb).mp h)
      rw [if_neg hd, if_neg (by simpa using fun h => hnil (hempty.mpr h))]
      refine ⟨_, rfl, ⟨⟨hc.sound, hc.input, hb⟩, ⟨fun _ => hnil, fun _ => hw⟩⟩, rfl, ?_, rfl, rfl,
        id, hnone⟩
      simpa [Syscall.taken] using hsplit

/-! ## 6. Birth and close -/

/-- A new connection on a sound poller, right after `connectionEstablished`. -/
def Established (c : TcpConnection H) : Prop :=
  ∃ p h sockfd cb, (make p h sockfd cb).poller.Sound ∧
    (make p h sockfd cb).connectionEstablished = .ok c

/-- What is known of an established connection. -/
structure New (c : TcpConnection H) : Prop where
  inv : c.Inv
  listening : Listening c.hd
  state : c.state = .kConnected
  syscalls : c.syscalls = []
  content : c.outputBuffer.content = []

theorem established_spec (hc : Established c) : c.New := by
  obtain ⟨p, h, sockfd, cb, hp, hok⟩ := hc
  obtain ⟨q, heq, hl⟩ := connectionEstablished_spec (hp.agreeAt _) rfl
  have hq : q.Sound := hl.sound hp
  have hhd := hl.self
  rw [hok] at heq
  cases heq
  rw [hd_make] at hhd
  have hhd : q.handlers h =
      EPollPoller.nextHandler (Handler.make sockfd) (0 ||| Handler.kReadEvent) :=
    hhd
  have hoff : (q.handlers h).isWriting = false := by
    rw [hhd]
    show ((0 ||| Handler.kReadEvent) &&& Handler.kWriteEvent != 0) = false
    decide
  refine ⟨⟨⟨hq, Buffer.inv_fresh, Buffer.inv_fresh⟩, ?_⟩, ?_, rfl, rfl, Buffer.content_fresh⟩
  · exact ⟨fun h => absurd (h.symm.trans hoff) (by decide), fun h => absurd Buffer.content_fresh h⟩
  · show Listening (q.handlers h)
    rw [hhd]
    exact listening_next (by decide)

theorem established_input (hc : Established c) : c.inputBuffer = Buffer.fresh := by
  obtain ⟨p, h, sockfd, cb, hp, hok⟩ := hc
  obtain ⟨q, heq, -⟩ := connectionEstablished_spec (hp.agreeAt _) rfl
  rw [hok] at heq
  cases heq
  rfl

/-- After the close, a `sendInLoop` that returns has been taken whole, unless the
kernel has taken a part of it. -/
theorem sendInLoop_closed (hr : r.Fits data.length)
    (hshort : c.outputBuffer.readableBytes = 0 → ¬r.Short data.length)
    (h : sendInLoop true c data r = .ok c') : ∃ calls k, c' = c.advance calls k := by
  obtain ⟨k, nwrote, remaining, hdirect, hsum, -, hpend⟩ := directWrite_spec (c := c) hr
  rw [sendInLoop, hdirect] at h
  obtain ⟨hassert, hrest⟩ := check_bind_ok.mp h
  have hless : remaining < data.length := hassert rfl
  obtain ⟨-, hempty, rfl⟩ := hpend (by omega)
  have hall : ¬(0 < nwrote ∧ nwrote < data.length) := hshort hempty
  rw [if_neg (by omega)] at hrest
  cases hrest
  exact ⟨_, _, rfl⟩

theorem handleWrite_off (hw : c.isWriting = false) : c.handleWrite r = .ok c := by
  rw [handleWrite, if_neg (by simp [hw])]

theorem handleRead_spec {rr : Buffer.ReadResult} (hc : c.Wf) (hne : rr ≠ .bytes [])
    (h : c.handleRead rr = .ok c') :
    ∃ b us, c' = { c with inputBuffer := b, upcalls := us } ∧ b.Inv ∧
      (us = c.upcalls ∨ us = c.upcalls ++ [.messageCB]) := by
  obtain ⟨⟨b, n, e⟩, hread, hrest⟩ := bind_ok.mp h
  cases rr with
  | error errno =>
    cases hread
    cases hrest
    exact ⟨_, _, rfl, hc.input, .inl rfl⟩
  | bytes data =>
    obtain ⟨hinv, -, rfl⟩ := Buffer.readFd_ok hc.input hread
    have hpos : (data.length : Int) > 0 := by
      have : data ≠ [] := fun h => hne (h ▸ rfl)
      have := List.length_pos_iff.mpr this
      omega
    dsimp only at hrest
    rw [if_pos hpos] at hrest
    cases hrest
    exact ⟨_, _, rfl, hinv, .inr rfl⟩

/-- A `read` that returns 0 is the peer's close. -/
theorem handleRead_nil (hc : c.Wf) :
    ∃ b, b.Inv ∧ c.handleRead (.bytes []) = handleClose { c with inputBuffer := b } := by
  obtain ⟨b, hread⟩ := Buffer.readFd_nil hc.input
  obtain ⟨hinv, -, -⟩ := Buffer.readFd_ok hc.input hread
  exact ⟨b, hinv, bind_ok_eq hread⟩

end

/-! ## 7. What every call keeps -/

section

variable [DecidableEq H] {c c' : TcpConnection H} {data : List Byte} {r : WriteResult}

/-- A call on `c` changes no other handler of the poller. -/
def Keeps (c c' : TcpConnection H) : Prop :=
  c'.handler = c.handler ∧ ∃ hd, c.Leaves c'.poller hd

/-- The call ends without a clash of descriptors, and changes no other handler. -/
abbrev Keeping (c : TcpConnection H) (x : Except Fault (TcpConnection H)) : Prop :=
  Ends x (· ≠ EPollPoller.clash) c.Keeps

theorem Keeps.refl (hp : c.Placed) : c.Keeps c := ⟨rfl, _, .refl hp⟩

theorem ends_buffer {α : Type} {x : Except Fault α} (h : Buffer.Faulty x) :
    Ends x (· ≠ EPollPoller.clash) fun _ => True := by
  refine h.mono (fun e he => ?_) fun _ => id
  rintro rfl
  revert he
  decide

theorem appendOutput_keeping (hp : c.Placed) : c.Keeping (c.appendOutput data) := by
  refine (ends_buffer (Buffer.append_faulty _ _)).bind fun b _ => ?_
  dsimp only
  split
  · obtain ⟨p, hok, hl⟩ := enableWriting_spec (c := { c with outputBuffer := b }) hp
    exact .of_ok hok ⟨rfl, _, hl⟩
  · exact .ok ⟨rfl, _, .refl hp⟩

theorem sendInLoop_keeping {asserts : Bool} (hp : c.Placed) (hr : r.Fits data.length) :
    c.Keeping (c.sendInLoop asserts data r) := by
  obtain ⟨k, nwrote, remaining, hdirect, -⟩ := directWrite_spec (c := c) hr
  rw [sendInLoop, hdirect]
  refine ends_check (by decide) fun _ => ?_
  split
  · exact appendOutput_keeping (c := c.advance _ k) hp
  · exact .ok ⟨rfl, _, .refl hp⟩

theorem handleWrite_keeping (hp : c.Placed) : c.Keeping (c.handleWrite r) := by
  unfold handleWrite
  split
  swap
  · exact .ok (.refl hp)
  cases r with
  | error errno => exact .ok ⟨rfl, _, .refl hp⟩
  | wrote n =>
    dsimp only
    split
    swap
    · exact .ok ⟨rfl, _, .refl hp⟩
    refine (ends_buffer (Buffer.retrieve_faulty _ _)).bind fun b _ => ?_
    split
    · obtain ⟨p, k, hok, hl, -⟩ := outputDrained_spec
        (c := { c.syscall (.write c.outputBuffer.content (.wrote n)) with outputBuffer := b }) hp
      exact .of_ok hok ⟨rfl, _, hl⟩
    · exact .ok ⟨rfl, _, .refl hp⟩

theorem handleClose_keeping (hp : c.Placed) : c.Keeping c.handleClose := by
  refine ends_check (by decide) fun _ => ?_
  obtain ⟨p, hok, hl⟩ := disableAll_spec (c := c.setState .kDisconnected) hp
  exact .of_ok (bind_ok_eq hok) ⟨rfl, _, hl⟩

theorem handleRead_keeping {rr : Buffer.ReadResult} (hp : c.Placed) :
    c.Keeping (c.handleRead rr) := by
  refine (ends_buffer (Buffer.readFd_faulty _ _)).bind fun res _ => ?_
  obtain ⟨b, n, e⟩ := res
  dsimp only
  split_ifs
  · exact .ok ⟨rfl, _, .refl hp⟩
  · exact handleClose_keeping (c := { c with inputBuffer := b }) hp
  · exact .ok ⟨rfl, _, .refl hp⟩

theorem connectionEstablished_keeping (hp : c.Placed) : c.Keeping c.connectionEstablished := by
  refine ends_check (by decide) fun _ => ?_
  obtain ⟨p, hok, hl⟩ := enableReading_spec (c := c.setState .kConnected) hp
  exact .of_ok (bind_ok_eq hok) ⟨rfl, _, hl⟩

theorem connectionEstablished_upcalls (h : c.connectionEstablished = .ok c') :
    c'.upcalls = c.upcalls ++ [.connectionCB] := by
  obtain ⟨-, h⟩ := check_bind_ok.mp h
  obtain ⟨c₁, henable, hret⟩ := bind_ok.mp h
  obtain ⟨p, -, hp⟩ := bind_ok.mp henable
  cases hp
  cases hret
  rfl

theorem connectionDestroyed_keeping (hp : c.Placed) : c.Keeping c.connectionDestroyed := by
  obtain ⟨p, hok, hl⟩ := connectionDestroyed_spec hp
  exact .of_ok hok ⟨rfl, _, hl⟩

theorem shutdownInLoop_keeps (hp : c.Placed) :
    c.Keeps (c.setState .kDisconnecting).shutdownInLoop := by
  rw [shutdownInLoop_eq]
  exact ⟨rfl, _, .refl hp⟩

end

/-! ## 8. What the output calls leave alone -/

section

variable [DecidableEq H] {c c' : TcpConnection H} {data : List Byte} {r : WriteResult}

/-- A call that keeps `m_state` and calls no callback: it may queue the
write-complete callback. -/
structure Quiet (c c' : TcpConnection H) : Prop where
  state : c'.state = c.state
  upcalls : ∃ k, c'.upcalls = c.upcalls ++ List.replicate k .queueWriteComplete

omit [DecidableEq H] in
theorem Quiet.of_same (hstate : c'.state = c.state) (hup : c'.upcalls = c.upcalls) : c.Quiet c' :=
  ⟨hstate, 0, hup.trans (List.append_nil _).symm⟩

theorem appendOutput_quiet (hp : c.Placed) (h : c.appendOutput data = .ok c') : c.Quiet c' := by
  obtain ⟨b, -, hrest⟩ := bind_ok.mp h
  dsimp only at hrest
  split at hrest
  · obtain ⟨p, hok, -⟩ := enableWriting_spec (c := { c with outputBuffer := b }) hp
    rw [hok] at hrest
    cases hrest
    exact .of_same rfl rfl
  · cases hrest
    exact .of_same rfl rfl

theorem sendInLoop_quiet {asserts : Bool} (hp : c.Placed) (hr : r.Fits data.length)
    (h : sendInLoop asserts c data r = .ok c') : c.Quiet c' := by
  obtain ⟨k, nwrote, remaining, hdirect, -⟩ := directWrite_spec (c := c) hr
  rw [sendInLoop, hdirect] at h
  obtain ⟨-, hrest⟩ := check_bind_ok.mp h
  split at hrest
  · obtain ⟨hstate, k', hup⟩ := appendOutput_quiet (c := c.advance _ k) hp hrest
    exact ⟨hstate, k + k', by rw [hup, ← List.replicate_append_replicate, ← List.append_assoc]; rfl⟩
  · cases hrest
    exact ⟨rfl, k, rfl⟩

theorem handleWrite_quiet (hp : c.Placed) (h : c.handleWrite r = .ok c') : c.Quiet c' := by
  unfold handleWrite at h
  split at h
  swap
  · cases h
    exact .of_same rfl rfl
  cases r with
  | error errno =>
    cases h
    exact .of_same rfl rfl
  | wrote n =>
    dsimp only at h
    split at h
    swap
    · cases h
      exact .of_same rfl rfl
    obtain ⟨b, -, hrest⟩ := bind_ok.mp h
    split at hrest
    · obtain ⟨p, k, hok, -⟩ := outputDrained_spec
        (c := { c.syscall (.write c.outputBuffer.content (.wrote n)) with outputBuffer := b }) hp
      rw [hok] at hrest
      cases hrest
      exact ⟨rfl, k, rfl⟩
    · cases hrest
      exact .of_same rfl rfl

/-- With the assertion of line 123, `sendInLoop` returns exactly when it writes
at once and the kernel takes a byte. -/
theorem sendInLoop_asserting_iff (hc : c.Inv) (hr : r.Fits data.length)
    (hsz : c.outputBuffer.writerIndex + data.length + Buffer.kCheapPrepend < sizeMod) :
    (∃ c', sendInLoop true c data r = .ok c') ↔
      c.isWriting = false ∧ c.outputBuffer.readableBytes = 0 ∧ ∃ n, 0 < n ∧ r = .wrote n := by
  obtain ⟨c₁, hok₁⟩ := sendInLoop_ok hc hr hsz
  obtain ⟨k, nwrote, remaining, hdirect, hsum, -, hpend⟩ := directWrite_spec (c := c) hr
  rw [sendInLoop, hdirect] at hok₁
  rw [sendInLoop, hdirect]
  obtain ⟨-, hrest⟩ := check_bind_ok.mp hok₁
  constructor
  · rintro ⟨c', h⟩
    obtain ⟨hassert, -⟩ := check_bind_ok.mp h
    have hless : remaining < data.length := hassert rfl
    have hn : nwrote ≠ 0 := by omega
    obtain ⟨hw, hempty, hr⟩ := hpend hn
    exact ⟨hw, hempty, nwrote, Nat.pos_of_ne_zero hn, hr⟩
  · rintro ⟨hw, hempty, n, hn, rfl⟩
    have hremaining : remaining = data.length - n := by
      unfold directWrite at hdirect
      rw [if_pos ⟨hw, hempty⟩] at hdirect
      exact (congrArg (fun t => t.2.2) hdirect).symm
    have hfits : n ≤ data.length := hr
    exact ⟨c₁, check_bind_ok.mpr ⟨fun _ => by omega, hrest⟩⟩

end

/-! ## 9. An example -/

/-- A new connection on descriptor 5, alone on its poller. -/
def aConnection : TcpConnection Unit := make (EPollPoller.make fun _ => 5) () 5 true

/-- The same connection, established. -/
def anEstablished : TcpConnection Unit :=
  aConnection.connectionEstablished.toOption.getD aConnection

theorem aConnection_sound : aConnection.poller.Sound := by
  have hsame : aConnection.poller = EPollPoller.make fun _ => 5 := by
    simp [aConnection, make, EPollPoller.setHandler, EPollPoller.make]
  rw [hsame]
  exact (EPollPoller.make_models fun _ _ _ => rfl).toSound

theorem anEstablished_established : anEstablished.Established := by
  obtain ⟨p, hok, -⟩ := connectionEstablished_spec (aConnection_sound.agreeAt _) rfl
  have hest : aConnection.connectionEstablished = .ok anEstablished := by
    rw [anEstablished, hok]
    rfl
  exact ⟨_, _, _, _, aConnection_sound, hest⟩

end TcpConnection

end NetFrame
