import NetFrame.Connection
import NetFrame.Lib.Machine
import Mathlib.Data.List.Infix

/-!
# The user of `test_TcpServer`

The callbacks that `main.cpp` gives to its server, on one connection:
`onConnection` sends `message`, `onWriteComplete` sends it again, `onMessage`
throws the input away. So the connection's own write-complete callback decides
when the next `message` is sent. The functions of the connection may be called in
any order, with any results of `read` and `write`, and a queued `onWriteComplete`
may run at any later time. A call that faults ends the run.

The runs are those of a connection that an owner keeps alive. `main.cpp` keeps none:
there a connection lives as long as a queued functor holds it, so that it is destroyed
after the first short write, in which no `onWriteComplete` is queued.

Results:
1. `one_message_pending`: while the connection is open, one `onWriteComplete` is
   queued or a part of one `message` is pending, never both and never neither; so
   a slow peer costs the memory of one `message`.
2. `keeps_flowing`: from every such state `n` more messages reach the kernel in `n`
   runs of `onWriteComplete` and at most one `handleWrite`, when it takes all of each.
-/

namespace NetFrame

namespace TcpConnection

/-! ## 1. When the write-complete callback is queued -/

section

variable {H : Type} [DecidableEq H] {c c' : TcpConnection H} {data : List Byte} {r : WriteResult}

/-- How many write-complete callbacks the connection has queued. -/
def completions {H : Type} (c : TcpConnection H) : Nat := c.upcalls.count .queueWriteComplete

omit [DecidableEq H] in
theorem completions_append {us : List Upcall} (h : c'.upcalls = c.upcalls ++ us) :
    c'.completions = c.completions + us.count .queueWriteComplete := by
  rw [completions, h, List.count_append, completions]

omit [DecidableEq H] in
theorem queueWriteComplete_on (hcb : c.writeCompleteCB = true) :
    c.queueWriteComplete = { c with upcalls := c.upcalls ++ [.queueWriteComplete] } := by
  rw [queueWriteComplete, if_pos hcb]

/-- A call that queues the callback exactly when it leaves no output. -/
structure Completes (c c' : TcpConnection H) (added : Nat) : Prop where
  callback : c'.writeCompleteCB = true
  upcalls : c'.upcalls = c.upcalls ++ List.replicate added .queueWriteComplete

/-- A send past an empty output buffer queues the callback, unless it leaves output. -/
theorem sendInLoop_completes {asserts : Bool} (hc : c.Inv) (hcb : c.writeCompleteCB = true)
    (hnil : c.outputBuffer.content = []) (hne : data ≠ []) (hr : r.Fits data.length)
    (h : sendInLoop asserts c data r = .ok c') :
    c.Completes c' (if c'.outputBuffer.content = [] then 1 else 0) := by
  have hdirect := hc.direct_iff.mpr hnil
  have hlen : 0 < data.length := List.length_pos_iff.mpr hne
  rw [sendInLoop, directWrite, if_pos hdirect] at h
  cases r with
  | error errno =>
    -- all of `data` goes to the output buffer
    obtain ⟨-, hrest⟩ := check_bind_ok.mp h
    rw [if_pos hlen, List.drop_zero, List.take_length] at hrest
    obtain ⟨b, p, rfl, -, hcontent, -⟩ := appendOutput_spec
      (c := c.syscall (.write data (.error errno))) ⟨hc.sound, hc.input, hc.output⟩ hrest
    have hleft : b.content ≠ [] := by
      rw [hcontent]
      exact List.append_ne_nil_of_right_ne_nil _ hne
    exact ⟨hcb, by simp [hleft, syscall]⟩
  | wrote n =>
    obtain ⟨-, hrest⟩ := check_bind_ok.mp h
    by_cases hall : data.length - n = 0
    · rw [if_pos hall, if_neg (by omega),
        queueWriteComplete_on (c := c.syscall (.write data (.wrote n))) hcb] at hrest
      cases hrest
      exact ⟨hcb, by simp [hnil, syscall]⟩
    · rw [if_neg hall, if_pos (Nat.pos_of_ne_zero hall)] at hrest
      obtain ⟨b, p, rfl, -, hcontent, -⟩ := appendOutput_spec
        (c := c.syscall (.write data (.wrote n))) ⟨hc.sound, hc.input, hc.output⟩ hrest
      have hleft : b.content ≠ [] := by
        have hrem : (data.drop n).take (data.length - n) ≠ [] := by
          rw [← List.length_pos_iff, List.length_take, List.length_drop]
          omega
        rw [hcontent]
        exact List.append_ne_nil_of_right_ne_nil _ hrem
      exact ⟨hcb, by simp [hleft, syscall]⟩

theorem outputDrained_completes (hp : c.Placed) (hcb : c.writeCompleteCB = true)
    (h : c.outputDrained = .ok c') :
    c.Completes c' 1 ∧ c'.outputBuffer = c.outputBuffer := by
  obtain ⟨p, hok, -⟩ := disableWriting_spec hp
  rw [outputDrained, hok, ok_bind, queueWriteComplete_on (c := { c with poller := p }) hcb] at h
  dsimp only at h
  split at h
  · rw [shutdownInLoop_eq] at h
    cases h
    exact ⟨⟨hcb, rfl⟩, rfl⟩
  · cases h
    exact ⟨⟨hcb, rfl⟩, rfl⟩

/-- `handleWrite` queues the callback when it writes the last pending byte. -/
theorem handleWrite_completes (hc : c.Inv) (hcb : c.writeCompleteCB = true)
    (hr : r.Fits c.outputBuffer.content.length) (h : c.handleWrite r = .ok c') :
    c.Completes c'
      (if c.outputBuffer.content ≠ [] ∧ c'.outputBuffer.content = [] then 1 else 0) := by
  by_cases hw : c.isWriting = true
  swap
  · rw [handleWrite_off (Bool.eq_false_iff.mpr hw)] at h
    cases h
    exact ⟨hcb, by simp⟩
  have hne := hc.writing.mp hw
  cases r with
  | error errno =>
    rw [handleWrite, if_pos hw] at h
    cases h
    exact ⟨hcb, by simp [syscall, hne]⟩
  | wrote n =>
    rcases Nat.eq_zero_or_pos n with rfl | hn
    · rw [handleWrite, if_pos hw] at h
      cases h
      exact ⟨hcb, by simp [syscall, hne]⟩
    have hlen : n ≤ c.outputBuffer.content.length := hr
    obtain ⟨b, hret, hb, -⟩ :=
      Buffer.retrieve_spec hc.output (hlen.trans (Buffer.length_content hc.output).le)
    rw [handleWrite_wrote hw hn hret] at h
    split at h
    · next hd =>
      obtain ⟨hdone, hbuf⟩ := outputDrained_completes (c := { c.syscall
        (.write c.outputBuffer.content (.wrote n)) with outputBuffer := b }) hc.placed hcb h
      have hnil : c'.outputBuffer.content = [] := by
        rw [hbuf]
        exact (Buffer.content_eq_nil hb).mpr hd
      rw [if_pos ⟨hne, hnil⟩]
      exact ⟨hdone.callback, hdone.upcalls⟩
    · next hd =>
      cases h
      have hleft : b.content ≠ [] := fun hnil => hd ((Buffer.content_eq_nil hb).mp hnil)
      exact ⟨hcb, by simp [syscall, hleft]⟩

end

end TcpConnection

namespace MessageStream

/-! ## 2. The callbacks and the runs -/

/-- One connection of the server. -/
structure State (H : Type) where
  conn : TcpConnection H
  /-- How many times `message` has been passed to `sendInLoop`. -/
  sends : Nat
  /-- How many of the queued `onWriteComplete` have run. -/
  completed : Nat

/-- The calls of the loop and of the server on the connection. -/
inductive Call where
  | connectionEstablished
  | handleRead (rr : Buffer.ReadResult)
  | handleWrite
  | handleClose
  | handleError
  | onWriteComplete
  | connectionDestroyed
  deriving DecidableEq, Repr

/-- A call, with what `write` returns if it is called meanwhile. -/
structure Act where
  call : Call
  write : WriteResult
  deriving DecidableEq, Repr

variable {H : Type} [DecidableEq H]

/-- `conn->send(message)`, on the thread of the connection's loop. -/
def send (asserts : Bool) (message : List Byte) (s : State H) (r : WriteResult) :
    Except Fault (State H) :=
  if s.conn.state = .kConnected then do
    return { s with conn := ← s.conn.sendInLoop asserts message r, sends := s.sends + 1 }
  else .ok s

/-- Of a connection that is down it prints the name only. -/
def onConnection (asserts : Bool) (message : List Byte) (s : State H) (r : WriteResult) :
    Except Fault (State H) :=
  if s.conn.state = .kConnected then send asserts message s r else .ok s

def onMessage (s : State H) : Except Fault (State H) := do
  let (b, _) ← s.conn.inputBuffer.retrieveAllAsString
  return { s with conn := { s.conn with inputBuffer := b.retrieveAll } }

def onWriteComplete (asserts : Bool) (message : List Byte) (s : State H) (r : WriteResult) :
    Except Fault (State H) :=
  send asserts message s r

/-- What the user does in a call that leaves the connection. `closeCB` is the
server's, and a queued `onWriteComplete` runs later. -/
def callback (asserts : Bool) (message : List Byte) (r : WriteResult) (s : State H) :
    Upcall → Except Fault (State H)
  | .connectionCB => onConnection asserts message s r
  | .messageCB => onMessage s
  | .closeCB | .queueWriteComplete => .ok s

/-- A call of a function of the connection, with the callbacks that it makes. It
sets `m_state` before the first of them and not afterwards. -/
def serve (asserts : Bool) (message : List Byte) (s : State H) (r : WriteResult)
    (x : Except Fault (TcpConnection H)) : Except Fault (State H) := do
  let c ← x
  (c.upcalls.drop s.conn.upcalls.length).foldlM (callback asserts message r) { s with conn := c }

def exec (asserts : Bool) (message : List Byte) (s : State H) (a : Act) :
    Except Fault (State H) :=
  match a.call with
  | .connectionEstablished => serve asserts message s a.write s.conn.connectionEstablished
  | .handleRead rr => serve asserts message s a.write (s.conn.handleRead rr)
  | .handleWrite => serve asserts message s a.write (s.conn.handleWrite a.write)
  | .handleClose => serve asserts message s a.write s.conn.handleClose
  | .handleError => .ok s
  | .onWriteComplete =>
    onWriteComplete asserts message { s with completed := s.completed + 1 } a.write
  | .connectionDestroyed => serve asserts message s a.write s.conn.connectionDestroyed

/-- The kernel takes no more than it is given, and a functor runs once. -/
def allowed (message : List Byte) (s : State H) (a : Act) : Prop :=
  match a.call with
  | .handleWrite => a.write.Fits s.conn.outputBuffer.content.length
  | .onWriteComplete => a.write.Fits message.length ∧ s.completed < s.conn.completions
  | _ => a.write.Fits message.length

omit [DecidableEq H] in
instance (message : List Byte) (s : State H) (a : Act) : Decidable (allowed message s a) := by
  unfold allowed
  split <;> infer_instance

def step (asserts : Bool) (message : List Byte) (s : State H) (a : Act) : Option (State H) :=
  if allowed message s a then (exec asserts message s a).toOption else none

/-- A connection as `newConnection` of this server makes it. -/
def start (c : TcpConnection H) : State H := ⟨c, 0, 0⟩

def machine (asserts : Bool) (message : List Byte) (H : Type) [DecidableEq H] :
    Trans.Machine (State H) Act where
  init := fun s => ∃ p h sockfd,
    (TcpConnection.make p h sockfd true).poller.Sound ∧
    s = start (TcpConnection.make p h sockfd true)
  step := step asserts message

/-! ## 3. What every call keeps -/

/-- `message`, `k` times. -/
def stream (message : List Byte) (k : Nat) : List Byte := (List.replicate k message).flatten

@[simp] theorem stream_zero (message : List Byte) : stream message 0 = [] := rfl

theorem stream_succ (message : List Byte) (k : Nat) :
    stream message (k + 1) = stream message k ++ message := by
  rw [stream, List.replicate_succ', List.flatten_append, List.flatten_singleton, stream]

/-- How many `onWriteComplete` are queued and have not run. -/
def State.queued (s : State H) : Nat := s.conn.completions - s.completed

/-- What holds of an open connection: the bytes sent so far are in the kernel or
pending, what is pending is the end of one `message`, and the next
`onWriteComplete` is queued when nothing is. -/
structure Open (message : List Byte) (s : State H) : Prop where
  inv : s.conn.Inv
  sends : s.sends = s.completed + 1
  sent : s.conn.taken ++ s.conn.outputBuffer.content = stream message s.sends
  pending : s.conn.outputBuffer.content <:+ message
  completions : s.conn.completions =
    s.completed + if s.conn.outputBuffer.content = [] then 1 else 0

/-- What holds before `connectionEstablished`. -/
structure Fresh (s : State H) : Prop where
  idle : s.conn.isWriting = false
  sends : s.sends = 0
  completed : s.completed = 0
  taken : s.conn.taken = []
  content : s.conn.outputBuffer.content = []
  completions : s.conn.completions = 0

/-- What holds of a connection that is down. -/
structure Down (message : List Byte) (s : State H) : Prop where
  idle : s.conn.isWriting = false
  sent : s.conn.taken <+: stream message s.sends
  pending : s.conn.outputBuffer.content <:+ message

structure Kept (message : List Byte) (s : State H) : Prop where
  wf : s.conn.Wf
  callback : s.conn.writeCompleteCB = true
  new : s.conn.state = .kConnecting → Fresh s
  connected : s.conn.state = .kConnected → Open message s
  never : s.conn.state ≠ .kDisconnecting
  down : s.conn.state = .kDisconnected → Down message s

section

variable {asserts : Bool} {message : List Byte} {s t : State H} {a : Act} {r : WriteResult}

omit [DecidableEq H] in
theorem Kept.prefix_suffix (hs : Kept message s) :
    s.conn.taken <+: stream message s.sends ∧ s.conn.outputBuffer.content <:+ message := by
  cases hst : s.conn.state with
  | kConnecting =>
    have hnew := hs.new hst
    rw [hnew.taken, hnew.content]
    exact ⟨List.nil_prefix, List.nil_suffix⟩
  | kConnected =>
    have hopen := hs.connected hst
    exact ⟨⟨_, hopen.sent⟩, hopen.pending⟩
  | kDisconnecting => exact absurd hst hs.never
  | kDisconnected => exact ⟨(hs.down hst).sent, (hs.down hst).pending⟩

omit [DecidableEq H] in
/-- A call that changes the input buffer only, and maybe has called `onMessage`. -/
theorem Kept.of_input (hs : Kept message s) {b : Buffer} {us : List Upcall} (hb : b.Inv)
    (hus : us.count .queueWriteComplete = s.conn.completions) :
    Kept message { s with conn := { s.conn with inputBuffer := b, upcalls := us } } where
  wf := ⟨hs.wf.sound, hb, hs.wf.output⟩
  callback := hs.callback
  new hst :=
    have h := hs.new hst
    ⟨h.idle, h.sends, h.completed, h.taken, h.content, hus.trans h.completions⟩
  connected hst :=
    have h := hs.connected hst
    ⟨⟨⟨h.inv.sound, hb, h.inv.output⟩, h.inv.writing⟩, h.sends, h.sent, h.pending,
      hus.trans h.completions⟩
  never := hs.never
  down hst :=
    have h := hs.down hst
    ⟨h.idle, h.sent, h.pending⟩

omit [DecidableEq H] in
/-- The connection has been taken down: with `p` its handler waits for nothing. -/
theorem Kept.take_down (hs : Kept message s) {p : EPollPoller H} {us : List Upcall} (hp : p.Sound)
    (hoff : (p.handlers s.conn.handler).isWriting = false) :
    Kept message { s with conn := { s.conn with
      state := .kDisconnected, poller := p, upcalls := us } } where
  wf := ⟨hp, hs.wf.input, hs.wf.output⟩
  callback := hs.callback
  new h := StateE.noConfusion h
  connected h := StateE.noConfusion h
  never h := StateE.noConfusion h
  down _ := ⟨hoff, hs.prefix_suffix.1, hs.prefix_suffix.2⟩

/-- A callback that does nothing: of a connection that is down, or not of the user. -/
theorem callback_idle {u : Upcall} (hconn : u = .connectionCB → s.conn.state ≠ .kConnected)
    (hmsg : u ≠ .messageCB) : callback asserts message r s u = .ok s := by
  cases u with
  | connectionCB => exact if_neg (hconn rfl)
  | messageCB => exact absurd rfl hmsg
  | closeCB => rfl
  | queueWriteComplete => rfl

theorem callbacks_idle {us : List Upcall} (hconn : .connectionCB ∈ us → s.conn.state ≠ .kConnected)
    (hmsg : .messageCB ∉ us) : us.foldlM (callback asserts message r) s = .ok s := by
  induction us with
  | nil => rfl
  | cons u us ih =>
    have hhead : callback asserts message r s u = .ok s :=
      callback_idle (fun h => hconn (h ▸ List.mem_cons_self)) fun h => hmsg (h ▸ List.mem_cons_self)
    rw [List.foldlM_cons, hhead, ok_bind]
    exact ih (fun h => hconn (List.mem_cons_of_mem _ h)) fun h => hmsg (List.mem_cons_of_mem _ h)

/-- What a call has done that made the callbacks `us`. -/
theorem serve_ok {x : Except Fault (TcpConnection H)} {c : TcpConnection H} {us : List Upcall}
    (hx : x = .ok c) (hus : c.upcalls = s.conn.upcalls ++ us)
    (h : serve asserts message s r x = .ok t) :
    us.foldlM (callback asserts message r) { s with conn := c } = .ok t := by
  rw [serve, hx, ok_bind, hus, List.drop_left] at h
  exact h

theorem serve_idle {x : Except Fault (TcpConnection H)} {c : TcpConnection H} {us : List Upcall}
    (hx : x = .ok c) (hus : c.upcalls = s.conn.upcalls ++ us)
    (hconn : .connectionCB ∈ us → c.state ≠ .kConnected) (hmsg : .messageCB ∉ us)
    (h : serve asserts message s r x = .ok t) : t = { s with conn := c } := by
  have hall := serve_ok hx hus h
  rw [callbacks_idle (s := { s with conn := c }) hconn hmsg] at hall
  exact (Except.ok.inj hall).symm

theorem serve_same {x : Except Fault (TcpConnection H)} {c : TcpConnection H}
    (hx : x = .ok c) (hus : c.upcalls = s.conn.upcalls)
    (h : serve asserts message s r x = .ok t) : t = { s with conn := c } := by
  rw [← List.append_nil s.conn.upcalls] at hus
  exact serve_idle hx hus (by simp) (by simp) h

/-- A connection whose user is about to send the next `message`. -/
structure Due (message : List Byte) (s : State H) : Prop where
  inv : s.conn.Inv
  callback : s.conn.writeCompleteCB = true
  state : s.conn.state = .kConnected
  content : s.conn.outputBuffer.content = []
  sends : s.sends = s.completed
  taken : s.conn.taken = stream message s.sends
  completions : s.conn.completions = s.completed

theorem Due.send (hne : message ≠ []) (hs : Due message s) (hr : r.Fits message.length)
    (h : send asserts message s r = .ok t) : Kept message t ∧ t.conn.state = .kConnected := by
  rw [MessageStream.send, if_pos hs.state] at h
  obtain ⟨c, hsend, hret⟩ := bind_ok.mp h
  cases hret
  have hout := TcpConnection.sendInLoop_spec hs.inv hr hsend
  have hdone := TcpConnection.sendInLoop_completes hs.inv hs.callback hs.content hne hr hsend
  have hst : c.state = .kConnected := hout.state.trans hs.state
  have hsplit := hout.content
  rw [hs.content, List.nil_append] at hsplit
  have hopen : Open message { s with conn := c, sends := s.sends + 1 } := by
    refine ⟨hout.inv, congrArg (· + 1) hs.sends, ?_, ⟨_, hsplit⟩, ?_⟩
    · show c.taken ++ c.outputBuffer.content = _
      rw [TcpConnection.taken_append hout.syscalls, List.append_assoc, hsplit, hs.taken,
        stream_succ]
    · show c.completions = _
      rw [TcpConnection.completions_append hdone.upcalls, hs.completions,
        List.count_replicate_self]
  refine ⟨⟨hout.inv.toWf, hdone.callback, ?_, fun _ => hopen, ?_, ?_⟩, hst⟩ <;>
    simp [hst]

/-! ## 4. The calls -/

theorem isWriting_reading (hd : Handler) :
    (EPollPoller.nextHandler hd (hd.events ||| Handler.kReadEvent)).isWriting = hd.isWriting := by
  have hdisj : Handler.kReadEvent &&& Handler.kWriteEvent = 0#32 := by decide
  show ((hd.events ||| Handler.kReadEvent) &&& Handler.kWriteEvent != 0) = _
  rw [BitVec.and_or_distrib_right, hdisj, BitVec.or_zero, Handler.isWriting]

theorem isWriting_none {hd : Handler} (h : hd.events = Handler.kNoneEvent) :
    hd.isWriting = false := by
  rw [Handler.isWriting, h]
  decide

/-- The first `message` is sent by `onConnection`. -/
theorem Kept.connectionEstablished (hne : message ≠ []) (hs : Kept message s)
    (hr : r.Fits message.length)
    (h : serve asserts message s r s.conn.connectionEstablished = .ok t) : Kept message t := by
  obtain ⟨c, hok, -⟩ := bind_ok.mp h
  obtain ⟨hst, -⟩ := check_bind_ok.mp hok
  have hnew := hs.new hst
  obtain ⟨p, hok, hl⟩ := TcpConnection.connectionEstablished_spec hs.wf.placed hst
  have hall := serve_ok hok rfl h
  rw [List.foldlM_cons] at hall
  obtain ⟨u, hsend, hret⟩ := bind_ok.mp hall
  cases hret
  have hoff : (p.handlers s.conn.handler).isWriting = false := by
    have hself : p.handlers s.conn.handler =
        EPollPoller.nextHandler s.conn.hd (s.conn.hd.events ||| Handler.kReadEvent) := hl.self
    rw [hself, isWriting_reading]
    exact hnew.idle
  have hwf : (⟨.kConnected, s.conn.handler, s.conn.inputBuffer, s.conn.outputBuffer,
      s.conn.writeCompleteCB, p, s.conn.syscalls, s.conn.upcalls ++ [.connectionCB]⟩ :
      TcpConnection H).Wf := ⟨hl.sound hs.wf.sound, hs.wf.input, hs.wf.output⟩
  have hcount := hnew.completions
  have hdue : Due message (H := H) { s with conn := { s.conn with
      state := .kConnected, poller := p, upcalls := s.conn.upcalls ++ [.connectionCB] } } := by
    refine ⟨⟨hwf, ?_⟩, hs.callback, rfl, hnew.content, hnew.sends.trans hnew.completed.symm, ?_, ?_⟩
    · exact ⟨fun hw => absurd (hw.symm.trans hoff) (by decide), fun hw => absurd hnew.content hw⟩
    · show s.conn.taken = stream message s.sends
      rw [hnew.taken, hnew.sends, stream_zero]
    · rw [TcpConnection.completions_append (c := s.conn) rfl, hcount, hnew.completed]
      rfl
  exact (hdue.send hne hr hsend).1

theorem Kept.onWriteComplete (hne : message ≠ []) (hs : Kept message s)
    (hr : r.Fits message.length) (hqueued : s.completed < s.conn.completions)
    (h : MessageStream.onWriteComplete asserts message { s with completed := s.completed + 1 } r =
      .ok t) : Kept message t := by
  by_cases hst : s.conn.state = .kConnected
  · have hopen := hs.connected hst
    have hcompletions := hopen.completions
    -- it has been queued, so that nothing is pending
    by_cases hnil : s.conn.outputBuffer.content = []
    · rw [if_pos hnil] at hcompletions
      have hsent := hopen.sent
      rw [hnil, List.append_nil] at hsent
      have hdue : Due message { s with completed := s.completed + 1 } :=
        ⟨hopen.inv, hs.callback, hst, hnil, hopen.sends, hsent, hcompletions⟩
      exact (hdue.send hne hr h).1
    · rw [if_neg hnil, Nat.add_zero] at hcompletions
      exact absurd hqueued (by rw [hcompletions]; exact Nat.lt_irrefl _)
  · have hsame : t = { s with completed := s.completed + 1 } := by
      rw [MessageStream.onWriteComplete, MessageStream.send, if_neg hst] at h
      exact (Except.ok.inj h).symm
    subst hsame
    refine ⟨hs.wf, hs.callback, fun hnew => ?_, fun hconn => absurd hconn hst, hs.never,
      fun hdown => ⟨(hs.down hdown).idle, (hs.down hdown).sent, (hs.down hdown).pending⟩⟩
    have hzero := (hs.new hnew).completions
    exact absurd hqueued (by rw [hzero]; exact Nat.not_lt_zero _)

theorem Kept.handleWrite (hs : Kept message s) (hr : r.Fits s.conn.outputBuffer.content.length)
    (h : serve asserts message s r (s.conn.handleWrite r) = .ok t) : Kept message t := by
  by_cases hst : s.conn.state = .kConnected
  · have hopen := hs.connected hst
    obtain ⟨c, hok, hout⟩ := TcpConnection.handleWrite_spec hopen.inv hr
    have hdone := TcpConnection.handleWrite_completes hopen.inv hs.callback hr hok
    have hsame := serve_idle hok hdone.upcalls (by simp) (by simp) h
    subst hsame
    have hstate : c.state = .kConnected := hout.state.trans hst
    have hsplit := hout.content
    rw [List.append_nil] at hsplit
    have hnext : Open message { s with conn := c } := by
      refine ⟨hout.inv, hopen.sends, ?_, ?_, ?_⟩
      · show c.taken ++ c.outputBuffer.content = _
        rw [TcpConnection.taken_append hout.syscalls, List.append_assoc, hsplit, hopen.sent]
      · exact List.IsSuffix.trans ⟨_, hsplit⟩ hopen.pending
      · show c.completions = _
        rw [TcpConnection.completions_append hdone.upcalls, hopen.completions,
          List.count_replicate_self, Nat.add_assoc]
        by_cases hnil : s.conn.outputBuffer.content = []
        · have hstill : c.outputBuffer.content = [] :=
            (List.append_eq_nil_iff.mp (hsplit.trans hnil)).2
          simp [hnil, hstill]
        · simp [hnil]
    refine ⟨hout.inv.toWf, hdone.callback, ?_, fun _ => hnext, ?_, ?_⟩ <;> simp [hstate]
  · -- a connection that is not open does not write
    have hoff : s.conn.isWriting = false := by
      cases hst' : s.conn.state with
      | kConnecting => exact (hs.new hst').idle
      | kConnected => exact absurd hst' hst
      | kDisconnecting => exact absurd hst' hs.never
      | kDisconnected => exact (hs.down hst').idle
    have hsame := serve_same (TcpConnection.handleWrite_off hoff) rfl h
    subst hsame
    exact hs

theorem Kept.handleClose (hs : Kept message s)
    (h : serve asserts message s r s.conn.handleClose = .ok t) : Kept message t := by
  obtain ⟨c, hok, -⟩ := bind_ok.mp h
  obtain ⟨-, p, rfl, hl⟩ := TcpConnection.handleClose_ok hs.wf.placed hok
  have hsame := serve_idle hok (List.append_assoc _ _ _) (by simp) (by simp) h
  subst hsame
  refine hs.take_down (hl.sound hs.wf.sound) ?_
  have hself : p.handlers s.conn.handler =
      EPollPoller.nextHandler s.conn.hd Handler.kNoneEvent := hl.self
  exact isWriting_none (by rw [hself]; rfl)

theorem Kept.connectionDestroyed (hs : Kept message s)
    (h : serve asserts message s r s.conn.connectionDestroyed = .ok t) : Kept message t := by
  obtain ⟨p, hok, hl⟩ := TcpConnection.connectionDestroyed_spec hs.wf.placed
  have hsame := serve_idle hok rfl (by simp) (by simp) h
  subst hsame
  refine hs.take_down (hl.sound hs.wf.sound) ?_
  have hself : p.handlers s.conn.handler =
      { s.conn.hd with events := Handler.kNoneEvent, state := .kNew } := hl.self
  exact isWriting_none (by rw [hself])

omit [DecidableEq H] in
theorem Kept.onMessage (hs : Kept message s) (h : MessageStream.onMessage s = .ok t) :
    Kept message t := by
  obtain ⟨b, hok, hb, -⟩ := Buffer.retrieveAllAsString_spec hs.wf.input
  rw [MessageStream.onMessage, hok] at h
  cases h
  exact hs.of_input (Buffer.retrieveAll_spec hb).1 rfl

theorem Kept.handleRead {rr : Buffer.ReadResult} (hs : Kept message s)
    (h : serve asserts message s r (s.conn.handleRead rr) = .ok t) : Kept message t := by
  by_cases hnil : rr = .bytes []
  · subst hnil
    obtain ⟨b, hb, heq⟩ := TcpConnection.handleRead_nil hs.wf
    rw [heq] at h
    exact (hs.of_input hb rfl).handleClose (r := r) h
  · obtain ⟨c, hok, -⟩ := bind_ok.mp h
    obtain ⟨b, us, rfl, hb, rfl | rfl⟩ := TcpConnection.handleRead_spec hs.wf hnil hok
    · have hsame := serve_same hok rfl h
      subst hsame
      exact hs.of_input hb rfl
    · have hall := serve_ok hok rfl h
      rw [List.foldlM_cons] at hall
      obtain ⟨u, hmessage, hret⟩ := bind_ok.mp hall
      cases hret
      have hcount : (s.conn.upcalls ++ [Upcall.messageCB]).count .queueWriteComplete =
          s.conn.completions := List.count_append
      exact (hs.of_input hb hcount).onMessage hmessage

theorem Kept.step (hne : message ≠ []) (hs : Kept message s)
    (h : (machine asserts message H).step s a = some t) : Kept message t := by
  simp only [machine, MessageStream.step] at h
  split at h
  swap
  · cases h
  next hok =>
  rw [toOption_eq_some] at h
  obtain ⟨call, r⟩ := a
  cases call with
  | connectionEstablished => exact hs.connectionEstablished hne hok h
  | handleRead rr => exact hs.handleRead h
  | handleWrite => exact hs.handleWrite hok h
  | handleClose => exact hs.handleClose h
  | handleError =>
    cases h
    exact hs
  | onWriteComplete => exact hs.onWriteComplete hne hok.1 hok.2 h
  | connectionDestroyed => exact hs.connectionDestroyed h

theorem kept_init (h : (machine asserts message H).init s) : Kept message s := by
  obtain ⟨p, hd, sockfd, hsound, rfl⟩ := h
  have hidle : (TcpConnection.make p hd sockfd true).isWriting = false := by
    rw [TcpConnection.isWriting, TcpConnection.hd_make]
    exact isWriting_none rfl
  refine ⟨⟨hsound, Buffer.inv_fresh, Buffer.inv_fresh⟩, rfl, fun _ => ?_,
    fun hst => StateE.noConfusion hst, fun hst => StateE.noConfusion hst,
    fun hst => StateE.noConfusion hst⟩
  exact ⟨hidle, rfl, rfl, rfl, Buffer.content_fresh, rfl⟩

theorem kept_reachable (hne : message ≠ []) (h : (machine asserts message H).Reachable s) :
    Kept message s :=
  Trans.Machine.reachable_invariant (fun _ h => kept_init h) (fun _ _ _ hs h => hs.step hne h) h

/-! ## 5. Flow control -/

/-- While the connection is open, the bytes sent so far are in the kernel or
pending, and either nothing is pending and one `onWriteComplete` is queued, or a
part of the last `message` is pending, write events are asked for and no
`onWriteComplete` is queued. At no time, also after the close, is more than one
`message` pending, or has the kernel got anything else than `message`s. -/
theorem one_message_pending (hne : message ≠ [])
    (hs : (machine asserts message H).Reachable s) :
    s.conn.outputBuffer.content <:+ message ∧
    s.conn.taken <+: stream message s.sends ∧
    (s.conn.state = .kConnected →
      s.conn.taken ++ s.conn.outputBuffer.content = stream message s.sends ∧
      s.sends = s.completed + 1 ∧
      (s.conn.outputBuffer.content = [] ∧ s.queued = 1 ∧ s.conn.isWriting = false ∨
        s.conn.outputBuffer.content ≠ [] ∧ s.queued = 0 ∧ s.conn.isWriting = true)) := by
  have hkept := kept_reachable hne hs
  refine ⟨hkept.prefix_suffix.2, hkept.prefix_suffix.1, fun hst => ?_⟩
  have hopen := hkept.connected hst
  have hcompletions := hopen.completions
  refine ⟨hopen.sent, hopen.sends, ?_⟩
  by_cases hnil : s.conn.outputBuffer.content = []
  · rw [if_pos hnil] at hcompletions
    refine .inl ⟨hnil, ?_, (hopen.inv.direct_iff.mpr hnil).1⟩
    rw [State.queued, hcompletions, Nat.add_sub_cancel_left]
  · rw [if_neg hnil, Nat.add_zero] at hcompletions
    refine .inr ⟨hnil, ?_, hopen.inv.writing.mpr hnil⟩
    rw [State.queued, hcompletions, Nat.sub_self]

/-- An open connection on which nothing is pending. -/
structure Flushed (message : List Byte) (s : State H) : Prop where
  kept : Kept message s
  state : s.conn.state = .kConnected
  content : s.conn.outputBuffer.content = []

omit [DecidableEq H] in
theorem Flushed.taken (hs : Flushed message s) : s.conn.taken = stream message s.sends := by
  have hsent := (hs.kept.connected hs.state).sent
  rwa [hs.content, List.append_nil] at hsent

theorem step_of_exec (ha : allowed message s a) (h : exec asserts message s a = .ok t) :
    (machine asserts message H).step s a = some t := by
  show (if allowed message s a then _ else none) = _
  rw [if_pos ha, h]
  rfl

variable (asserts) in
/-- One `handleWrite` flushes the output, when the kernel takes all of it. -/
theorem Kept.flush (hne : message ≠ []) (hs : Kept message s) (hst : s.conn.state = .kConnected)
    (hpending : s.conn.outputBuffer.content ≠ []) :
    ∃ t, (machine asserts message H).step s
        ⟨.handleWrite, .wrote s.conn.outputBuffer.content.length⟩ = some t ∧
      Flushed message t ∧ t.sends = s.sends := by
  have hopen := hs.connected hst
  have hr : (WriteResult.wrote s.conn.outputBuffer.content.length).Fits
      s.conn.outputBuffer.content.length := Nat.le_refl _
  obtain ⟨c, hok, hout⟩ := TcpConnection.handleWrite_spec hopen.inv hr
  have hdone := TcpConnection.handleWrite_completes hopen.inv hs.callback hr hok
  have hrun : (machine asserts message H).step s
      ⟨.handleWrite, .wrote s.conn.outputBuffer.content.length⟩ =
        some { s with conn := c } := by
    refine step_of_exec (a := ⟨.handleWrite, _⟩) hr ?_
    show serve asserts message s _ (s.conn.handleWrite _) = _
    rw [serve, hok, ok_bind, hdone.upcalls, List.drop_left]
    exact callbacks_idle (by simp) (by simp)
  refine ⟨_, hrun, ⟨hs.step hne hrun, hout.state.trans hst, ?_⟩, rfl⟩
  have hsplit := hout.content
  rw [TcpConnection.writeCalls, if_pos (hopen.inv.writing.mpr hpending), if_pos rfl,
    List.flatMap_cons, TcpConnection.taken_drainCalls, Syscall.taken, List.take_length,
    List.append_nil] at hsplit
  exact List.append_right_eq_self.mp hsplit

variable (asserts) in
/-- The queued `onWriteComplete` sends one `message`, when the kernel takes all of it. -/
theorem Flushed.next (hne : message ≠ []) (hs : Flushed message s) :
    ∃ t, (machine asserts message H).step s ⟨.onWriteComplete, .wrote message.length⟩ = some t ∧
      Flushed message t ∧ t.sends = s.sends + 1 := by
  have hopen := hs.kept.connected hs.state
  have hlen : 0 < message.length := List.length_pos_iff.mpr hne
  have hsend : s.conn.sendInLoop asserts message (.wrote message.length) =
      .ok (s.conn.syscall (.write message (.wrote message.length))).queueWriteComplete := by
    rw [TcpConnection.sendInLoop, TcpConnection.directWrite,
      if_pos (hopen.inv.direct_iff.mpr hs.content)]
    dsimp only
    rw [Nat.sub_self, if_pos rfl, check_bind (fun _ => hlen)]
    rfl
  have hcompletions := hopen.completions
  rw [if_pos hs.content] at hcompletions
  have hrun : (machine asserts message H).step s ⟨.onWriteComplete, .wrote message.length⟩ =
      some ⟨(s.conn.syscall (.write message (.wrote message.length))).queueWriteComplete,
        s.sends + 1, s.completed + 1⟩ := by
    refine step_of_exec (a := ⟨.onWriteComplete, _⟩) ⟨Nat.le_refl _, by omega⟩ ?_
    show MessageStream.send asserts message { s with completed := s.completed + 1 } _ = _
    rw [MessageStream.send, if_pos hs.state]
    exact bind_ok_eq hsend
  exact ⟨_, hrun, ⟨hs.kept.step hne hrun, hs.state, hs.content⟩, rfl⟩

variable (asserts) in
theorem Flushed.run (hne : message ≠ []) (hs : Flushed message s) (n : Nat) :
    ∃ t, (machine asserts message H).run s
        (List.replicate n ⟨.onWriteComplete, .wrote message.length⟩) = some t ∧
      Flushed message t ∧ t.sends = s.sends + n := by
  induction n generalizing s with
  | zero => exact ⟨s, rfl, hs, rfl⟩
  | succ n ih =>
    obtain ⟨u, hstep, hu, hsends⟩ := hs.next asserts hne
    obtain ⟨t, hrun, ht, hmore⟩ := ih hu
    refine ⟨t, ?_, ht, by omega⟩
    rw [List.replicate_succ, Trans.Machine.run_cons, hstep]
    exact hrun

/-- Of an open connection that is kept alive `n` more messages can always reach the kernel,
with nothing from the peer and no other call, when each write takes all: the rest of the
pending one in a `handleWrite`, and each of the others in the `onWriteComplete` of the one
before. -/
theorem keeps_flowing (hne : message ≠ []) (hs : (machine asserts message H).Reachable s)
    (hst : s.conn.state = .kConnected) (n : Nat) :
    ∃ as t, (machine asserts message H).run s
        (as ++ List.replicate n ⟨.onWriteComplete, .wrote message.length⟩) = some t ∧
      (as = [] ∨ as = [⟨.handleWrite, .wrote s.conn.outputBuffer.content.length⟩]) ∧
      t.conn.state = .kConnected ∧ t.sends = s.sends + n ∧
      t.conn.taken = stream message t.sends := by
  have hkept := kept_reachable hne hs
  by_cases hnil : s.conn.outputBuffer.content = []
  · have hflushed : Flushed message s := ⟨hkept, hst, hnil⟩
    obtain ⟨t, hrun, ht, hsends⟩ := hflushed.run asserts hne n
    exact ⟨[], t, hrun, .inl rfl, ht.state, hsends, ht.taken⟩
  · obtain ⟨u, hstep, hu, hsame⟩ := hkept.flush asserts hne hst hnil
    obtain ⟨t, hrun, ht, hsends⟩ := hu.run asserts hne n
    refine ⟨_, t, ?_, .inr rfl, ht.state, hsends.trans (by rw [hsame]), ht.taken⟩
    rw [List.singleton_append, Trans.Machine.run_cons, hstep]
    exact hrun

end

/-! ## 6. A run -/

/-- `"bbbbbbbbbbbbbbb\n"`, as `test_TcpServer` sets it. -/
def message : List Byte := List.replicate 15 98 ++ [10]

def newConn : State Unit := start TcpConnection.aConnection

theorem newConn_starts : (machine true message Unit).init newConn :=
  ⟨_, _, _, TcpConnection.aConnection_sound, rfl⟩

/-- The first message of a connection with an owner goes out in two parts, the peer sends
three bytes, and the second message is taken in part. -/
def slowPeer : List Act :=
  [⟨.connectionEstablished, .wrote 5⟩, ⟨.handleRead (.bytes [1, 2, 3]), .wrote 0⟩,
    ⟨.handleWrite, .wrote 11⟩, ⟨.onWriteComplete, .wrote 9⟩]

theorem slowPeer_pending :
    ∃ s, (machine true message Unit).run newConn slowPeer = some s ∧ s.sends = 2 ∧
      s.conn.outputBuffer.content <:+ message ∧
      s.conn.taken <+: stream message s.sends ∧
      (s.conn.state = .kConnected →
        s.conn.taken ++ s.conn.outputBuffer.content = stream message s.sends ∧
        s.sends = s.completed + 1 ∧
        (s.conn.outputBuffer.content = [] ∧ s.queued = 1 ∧ s.conn.isWriting = false ∨
          s.conn.outputBuffer.content ≠ [] ∧ s.queued = 0 ∧ s.conn.isWriting = true)) := by
  have hsends : ((machine true message Unit).run newConn slowPeer).map State.sends = some 2 := by
    decide +kernel
  obtain ⟨s, hrun, hs⟩ := Option.map_eq_some_iff.mp hsends
  exact ⟨s, hrun, hs, one_message_pending (by decide) ⟨_, _, newConn_starts, hrun⟩⟩

theorem slowPeer_flows :
    ∃ s as t, (machine true message Unit).run newConn slowPeer = some s ∧
      (machine true message Unit).run s
        (as ++ List.replicate 3 ⟨.onWriteComplete, .wrote message.length⟩) = some t ∧
      (as = [] ∨ as = [⟨.handleWrite, .wrote s.conn.outputBuffer.content.length⟩]) ∧
      t.conn.state = .kConnected ∧ t.sends = s.sends + 3 ∧
      t.conn.taken = stream message t.sends := by
  have hstate : ((machine true message Unit).run newConn slowPeer).map (fun s => s.conn.state) =
      some .kConnected := by
    decide +kernel
  obtain ⟨s, hrun, hs⟩ := Option.map_eq_some_iff.mp hstate
  obtain ⟨as, t, hflow⟩ := keeps_flowing (by decide) ⟨_, _, newConn_starts, hrun⟩ hs 3
  exact ⟨s, as, t, hrun, hflow⟩

end MessageStream

end NetFrame
