import NetFrame.BufferMemory
import NetFrame.InputStream
import NetFrame.Lib.Pipe
import NetFrame.Lib.Progress

/-!
# Two connections and the bytes between them

Two `TcpConnection`s, each on its own loop, that the kernel joins: it takes the bytes
that one writes and delivers them to the other, in order, at its own pace, and it
reports the end of the stream after the last of them. The loops call `sendInLoop`,
`shutdown`, `shutdownInLoop`, and what `epoll_wait` gives rise to, in any order; the
users retrieve from the input buffers at any time. A connection that has been closed
makes no more calls, and the end of the stream comes of a half-close only.

Results:
1. `runs_as_pipe`: in each direction the two buffers and the kernel between them are
   one lossless pipe from `sendInLoop` to the retrievals at the other end.
2. `eof_complete`: whoever sees the end of the stream has received every byte that
   was sent before the half-close, and no other.
3. `delivers`: bytes that are under way arrive, unless they stand behind a half-close,
   since each connection asks for the events that it needs.
4. `moves_bounded`: in every run the bytes move in at most two calls for each byte.
-/

namespace NetFrame

open Buffer (ReadResult Retrieval retrievedBy execOp)

/-- `readFd` makes the vector larger by at most what it reads. -/
theorem Buffer.readFd_grows {b b' : Buffer} {data : List Byte} {n : Int} {e : Option Int}
    (h : b.readFd (.bytes data) = .ok (b', n, e)) :
    b'.buffer.length ≤ b.buffer.length + data.length := by
  obtain hlen | ⟨-, bytes, hbytes, happ⟩ := readFd_cases h
  · exact hlen ▸ Nat.le_add_right _ _
  · obtain ⟨b₁, hens, hlen⟩ := append_memory happ
    have hspill : (data.drop b.writableBytes).length ≤ data.length := by
      rw [List.length_drop]
      exact Nat.sub_le _ _
    have hadd : szAdd b.buffer.length (data.drop b.writableBytes).length ≤
        b.buffer.length + (data.drop b.writableBytes).length := Nat.mod_le _ _
    rcases ensureWritableBytes_length hens with heq | heq
    · rw [hlen, heq]
      exact hbytes ▸ Nat.le_add_right _ _
    · rw [hlen, heq]
      exact Nat.le_trans hadd (Nat.add_le_add_left hspill _)

namespace TcpConnection

section

variable {H : Type} [DecidableEq H] {c c' : TcpConnection H} {data : List Byte} {r : WriteResult}

/-- Output leaves the input alone. -/
theorem sendInLoop_input {asserts : Bool} (hc : c.Wf) (hr : r.Fits data.length)
    (h : sendInLoop asserts c data r = .ok c') : c'.inputBuffer = c.inputBuffer := by
  obtain ⟨k, nwrote, remaining, hdirect, -⟩ := directWrite_spec (c := c) hr
  rw [sendInLoop, hdirect] at h
  obtain ⟨-, hrest⟩ := check_bind_ok.mp h
  split at hrest
  · obtain ⟨b, p, rfl, -⟩ := appendOutput_spec (c := c.advance _ k) ⟨hc.sound, hc.input, hc.output⟩
      hrest
    rfl
  · cases hrest
    rfl

theorem handleWrite_input (hp : c.Placed) (h : c.handleWrite r = .ok c') :
    c'.inputBuffer = c.inputBuffer := by
  unfold handleWrite at h
  split at h
  swap
  · cases h
    rfl
  cases r with
  | error errno =>
    cases h
    rfl
  | wrote n =>
    dsimp only at h
    split at h
    swap
    · cases h
      rfl
    obtain ⟨b, -, hrest⟩ := bind_ok.mp h
    split at hrest
    · obtain ⟨p, k, hok, -⟩ := outputDrained_spec
        (c := { c.syscall (.write c.outputBuffer.content (.wrote n)) with outputBuffer := b }) hp
      rw [hok] at hrest
      cases hrest
      rfl
    · cases hrest
      rfl

/-- `handleRead` calls the message callback when something has been read. -/
theorem handleRead_bytes {rr : ReadResult} {b : Buffer} {n : Int} {e : Option Int}
    (hread : c.inputBuffer.readFd rr = .ok (b, n, e)) (hn : n > 0) :
    c.handleRead rr = .ok (upcall { c with inputBuffer := b } .messageCB) := by
  rw [handleRead, bind_ok_eq hread]
  exact if_pos hn

end

/-- `epoll_wait` may report an event of the mask `e` for the connection's descriptor. -/
def asks {H : Type} (c : TcpConnection H) (e : Events) : Bool :=
  match c.poller.interest.find c.hd.fd with
  | some (mask, _) => mask &&& e != 0
  | none => false

theorem asks_eq {H : Type} {c : TcpConnection H} (hc : c.Wf) (hl : Listening c.hd) (e : Events) :
    c.asks e = (c.hd.events &&& e != 0) := by
  rw [asks, show c.poller.interest.find c.hd.fd = _ from hc.placed.registered hl.added]
  rfl

end TcpConnection

namespace Peers

/-! ## 1. The two ends -/

inductive Side where
  | left
  | right
  deriving DecidableEq, Repr

def Side.other : Side → Side
  | .left => .right
  | .right => .left

/-- A connection with what its user and the kernel know of it. -/
structure Peer (H : Type) where
  conn : TcpConnection H
  /-- The bytes passed to `sendInLoop`. -/
  sent : List Byte
  /-- The bytes retrieved from the input buffer. -/
  retrieved : List Byte
  /-- The bytes that the kernel has taken and not yet delivered to the other end. -/
  wire : List Byte
  /-- The bytes that had been sent when the half-close was issued. -/
  fin : Option (List Byte)

abbrev State (H : Type) := Side → Peer H

variable {H : Type}

/-- The states in which the ends `x` and `x.other` are `p` and `q`. -/
def both (x : Side) (p q : Peer H) : State H := fun y => if y = x then p else q

@[simp] theorem both_self (x : Side) (p q : Peer H) : both x p q x = p := if_pos rfl

@[simp] theorem both_other (x : Side) (p q : Peer H) : both x p q x.other = q := by
  cases x <;> rfl

namespace Peer

/-- The connection has not been closed. -/
def Open (p : Peer H) : Prop := p.conn.state ≠ .kDisconnected

instance (p : Peer H) : Decidable p.Open := inferInstanceAs (Decidable (¬_))

/-- After a half-close the kernel takes nothing. -/
def Takes (p : Peer H) : WriteResult → Prop
  | .wrote _ => p.fin = none
  | .error _ => True

instance (p : Peer H) : ∀ r, Decidable (p.Takes r)
  | .wrote _ => inferInstanceAs (Decidable (_ = _))
  | .error _ => .isTrue trivial

/-- What a `readv` at the other end may return: some of the bytes under way, or 0 when
there are none and there will be none. -/
def Delivers (p : Peer H) : ReadResult → Prop
  | .error _ => True
  | .bytes data => data <+: p.wire ∧ (data = [] → p.wire = [] ∧ p.fin ≠ none)

instance (p : Peer H) : ∀ r, Decidable (p.Delivers r)
  | .error _ => .isTrue trivial
  | .bytes _ => inferInstanceAs (Decidable (_ ∧ (_ → _)))

/-- After a call on the connection: the kernel has what the call has written. -/
def settle (p : Peer H) (c : TcpConnection H) : Peer H :=
  let calls := c.syscalls.drop p.conn.syscalls.length
  { p with
    conn := c
    wire := p.wire ++ calls.flatMap Syscall.taken
    fin := if .shutdownWrite ∈ calls ∧ p.fin = none then some p.sent else p.fin }

end Peer

/-! ## 2. The steps -/

inductive Act where
  | sendInLoop (x : Side) (data : List Byte) (r : WriteResult)
  | handleWrite (x : Side) (r : WriteResult)
  | handleRead (x : Side) (r : ReadResult)
  /-- The user retrieves. -/
  | retrieve (x : Side) (op : Retrieval)
  | shutdown (x : Side)
  | shutdownInLoop (x : Side)

section

variable [DecidableEq H] (o : ByteOrder)

/-- A call that faults ends the run. -/
def step (s : State H) : Act → Option (State H)
  | .sendInLoop x data r =>
    if (s x).Open ∧ r.Fits data.length ∧ (s x).Takes r then
      match (s x).conn.sendInLoop false data r with
      | .ok c => some (both x (Peer.settle { s x with sent := (s x).sent ++ data } c) (s x.other))
      | .error _ => none
    else none
  | .handleWrite x r =>
    if (s x).Open ∧ (s x).conn.asks Handler.kWriteEvent = true ∧
        r.Fits (s x).conn.outputBuffer.content.length ∧ (s x).Takes r then
      match (s x).conn.handleWrite r with
      | .ok c => some (both x ((s x).settle c) (s x.other))
      | .error _ => none
    else none
  | .handleRead x r =>
    if (s x).Open ∧ (s x).conn.asks Handler.kReadEvent = true ∧
        r.Fits (s x).conn.inputBuffer ∧ (s x.other).Delivers r then
      match (s x).conn.handleRead r with
      | .ok c => some (both x { s x with conn := c }
          { s x.other with wire := (s x.other).wire.drop r.data.length })
      | .error _ => none
    else none
  | .retrieve x op =>
    match execOp o (s x).conn.inputBuffer op with
    | .ok (b, out) => some (both x { s x with
        conn := { (s x).conn with inputBuffer := b }
        retrieved := (s x).retrieved ++ retrievedBy (s x).conn.inputBuffer out op } (s x.other))
    | .error _ => none
  | .shutdown x =>
    if (s x).conn.state = .kConnected then
      some (both x { s x with conn := (s x).conn.setState .kDisconnecting } (s x.other))
    else none
  | .shutdownInLoop x =>
    if (s x).conn.state = .kDisconnecting then
      some (both x ((s x).settle (s x).conn.shutdownInLoop) (s x.other))
    else none

/-- A new connection at each end. -/
structure Start (p : Peer H) : Prop where
  established : TcpConnection.Established p.conn
  sent : p.sent = []
  retrieved : p.retrieved = []
  wire : p.wire = []
  fin : p.fin = none

def machine (H : Type) [DecidableEq H] : Trans.Machine (State H) Act where
  init := fun s => ∀ x, Start (s x)
  step := step o

end

/-! ## 3. One end -/

section

variable [DecidableEq H] {p p' q q' : Peer H} {data : List Byte} {r : WriteResult}

/-- What every call keeps of a connection that is not closed. -/
structure Live (c : TcpConnection H) : Prop where
  inv : c.Inv
  listening : TcpConnection.Listening c.hd
  opened : c.state ≠ .kDisconnected

/-- What every call keeps. -/
structure Kept (p : Peer H) : Prop where
  wf : p.conn.Wf
  live : p.Open → Live p.conn

omit [DecidableEq H] in
theorem Kept.inv (hp : Kept p) (ho : p.Open) : p.conn.Inv := (hp.live ho).inv

/-- A call that writes, with the bytes `data` that it is given. -/
structure Writes (p : Peer H) (data : List Byte) (p' : Peer H) : Prop where
  live : Live p'.conn
  input : p'.conn.inputBuffer = p.conn.inputBuffer
  sent : p'.sent = p.sent ++ data
  retrieved : p'.retrieved = p.retrieved
  /-- The kernel gets the front of the output. -/
  moved : ∃ new, p'.wire = p.wire ++ new ∧
    new ++ p'.conn.outputBuffer.content = p.conn.outputBuffer.content ++ data ∧
    (p.fin ≠ none → new = [])
  fin : p'.fin = p.fin ∨ p.fin = none ∧ p'.fin = some p'.sent ∧ p'.conn.outputBuffer.content = []

omit [DecidableEq H] in
theorem settle_calls {c : TcpConnection H} {calls : List Syscall}
    (h : c.syscalls = p.conn.syscalls ++ calls) :
    c.syscalls.drop p.conn.syscalls.length = calls := by
  rw [h, List.drop_left]

omit [DecidableEq H] in
theorem not_mem_sendCalls (c : TcpConnection H) (data : List Byte) (r : WriteResult) :
    .shutdownWrite ∉ c.sendCalls data r := by
  unfold TcpConnection.sendCalls
  split <;> simp

omit [DecidableEq H] in
/-- After a half-close a write takes nothing. -/
theorem taken_nil (hr : p.Takes r) (hfin : p.fin ≠ none) {bytes : List Byte} :
    (Syscall.write bytes r).taken = [] := by
  cases r with
  | wrote n => exact absurd hr hfin
  | error errno => rfl

omit [DecidableEq H] in
theorem error_takes (c : TcpConnection H) (errno : Int) :
    (c.writeCalls (.error errno)).flatMap Syscall.taken = [] := by
  unfold TcpConnection.writeCalls
  split
  · simp [Syscall.taken]
  · rfl

omit [DecidableEq H] in
/-- `handleWrite` issues the half-close with the last byte. -/
theorem halfClose_drains {c : TcpConnection H} (h : .shutdownWrite ∈ c.writeCalls r) :
    c.isWriting = true ∧ r = .wrote c.outputBuffer.content.length := by
  unfold TcpConnection.writeCalls at h
  split at h
  · next hw =>
    refine ⟨hw, ?_⟩
    by_contra hne
    rw [if_neg hne] at h
    simp at h
  · cases h

omit [DecidableEq H] in
theorem taken_all {c : TcpConnection H} (hw : c.isWriting = true) :
    (c.writeCalls (.wrote c.outputBuffer.content.length)).flatMap Syscall.taken =
      c.outputBuffer.content := by
  rw [TcpConnection.writeCalls, if_pos hw, if_pos rfl, List.flatMap_cons,
    TcpConnection.taken_drainCalls, List.append_nil, Syscall.taken, List.take_length]

theorem send_writes (hp : Kept p) (ho : p.Open) (hr : r.Fits data.length) (htakes : p.Takes r)
    {c : TcpConnection H} (h : p.conn.sendInLoop false data r = .ok c) :
    Writes p data (Peer.settle { p with sent := p.sent ++ data } c) := by
  have hinv := hp.inv ho
  have hout := TcpConnection.sendInLoop_spec hinv hr h
  have hcalls := settle_calls hout.syscalls
  refine ⟨⟨hout.inv, hout.listening (hp.live ho).listening, ?_⟩,
    TcpConnection.sendInLoop_input hp.wf hr h, rfl, rfl, ⟨_, rfl, ?_, fun hfin => ?_⟩, .inl ?_⟩
  · exact hout.state ▸ ho
  · rw [hcalls]
    exact hout.content
  · rw [hcalls, TcpConnection.sendCalls]
    split
    · rw [List.flatMap_singleton, taken_nil htakes hfin]
    · rfl
  · simp only [Peer.settle, hcalls]
    rw [if_neg fun h => not_mem_sendCalls _ _ _ h.1]

theorem write_writes (hp : Kept p) (ho : p.Open) (hr : r.Fits p.conn.outputBuffer.content.length)
    (htakes : p.Takes r) {c : TcpConnection H} (h : p.conn.handleWrite r = .ok c) :
    Writes p [] (p.settle c) := by
  have hinv := hp.inv ho
  obtain ⟨c', hok, hout⟩ := TcpConnection.handleWrite_spec hinv hr
  rw [h] at hok
  cases hok
  have hcalls := settle_calls hout.syscalls
  refine ⟨⟨hout.inv, hout.listening (hp.live ho).listening, ?_⟩,
    TcpConnection.handleWrite_input hp.wf.placed h, (List.append_nil _).symm, rfl,
    ⟨_, rfl, ?_, fun hfin => ?_⟩, ?_⟩
  · exact hout.state ▸ ho
  · rw [hcalls]
    exact hout.content
  · rw [hcalls]
    cases r with
    | wrote n => exact absurd htakes hfin
    | error errno => exact error_takes _ _
  · rw [Peer.settle, hcalls]
    by_cases hhalf : .shutdownWrite ∈ p.conn.writeCalls r
    · -- the last byte has gone
      obtain ⟨hw, rfl⟩ := halfClose_drains hhalf
      have hfin : p.fin = none := htakes
      refine .inr ⟨hfin, if_pos ⟨hhalf, hfin⟩, ?_⟩
      have hcontent := hout.content
      rw [taken_all hw, List.append_nil] at hcontent
      exact List.append_right_eq_self.mp hcontent
    · exact .inl (if_neg fun h => hhalf h.1)

omit [DecidableEq H] in
theorem shutdown_writes (hp : Kept p) (ho : p.Open) :
    Writes p [] (p.settle p.conn.shutdownInLoop) := by
  obtain ⟨hinv, hlisten, hopen⟩ := hp.live ho
  have heq := TcpConnection.shutdownInLoop_eq p.conn
  have hcalls := settle_calls (congrArg TcpConnection.syscalls heq)
  have htaken : (if p.conn.isWriting then [] else [Syscall.shutdownWrite]).flatMap Syscall.taken =
      [] := by
    split <;> rfl
  refine ⟨?_, ?_, (List.append_nil _).symm, rfl, ⟨[], ?_, ?_, fun _ => rfl⟩, ?_⟩
  · show Live p.conn.shutdownInLoop
    rw [heq]
    exact ⟨⟨⟨hinv.sound, hinv.input, hinv.output⟩, hinv.writing⟩, hlisten, hopen⟩
  · show p.conn.shutdownInLoop.inputBuffer = _
    rw [heq]
  · rw [Peer.settle, hcalls, htaken]
  · show [] ++ p.conn.shutdownInLoop.outputBuffer.content = _
    rw [heq, List.nil_append, List.append_nil]
  · simp only [Peer.settle, hcalls]
    by_cases hw : p.conn.isWriting = true
    · exact .inl (if_neg (by simp [hw]))
    · by_cases hfin : p.fin = none
      · refine .inr ⟨hfin, if_pos ⟨by simp [hw], hfin⟩, ?_⟩
        rw [heq]
        exact Classical.not_not.mp fun hne => hw (hinv.writing.mpr hne)
      · exact .inl (if_neg fun h => hfin h.2)

omit [DecidableEq H] in
theorem setState_writes (hp : Kept p) (hst : p.conn.state = .kConnected) :
    Writes p [] { p with conn := p.conn.setState .kDisconnecting } := by
  have ho : p.Open := by
    rw [Peer.Open, hst]
    exact StateE.noConfusion
  obtain ⟨hinv, hlisten, -⟩ := hp.live ho
  exact ⟨⟨⟨⟨hinv.sound, hinv.input, hinv.output⟩, hinv.writing⟩, hlisten, StateE.noConfusion⟩, rfl,
    (List.append_nil _).symm, rfl, ⟨[], (List.append_nil _).symm, (List.append_nil _).symm,
      fun _ => rfl⟩, .inl rfl⟩

/-! ## 4. The two directions -/

/-- What the sender `p` and the receiver `q` know of one direction. -/
structure Carries (p q : Peer H) : Prop where
  bytes : q.retrieved ++ q.conn.inputBuffer.content ++ p.wire ++ p.conn.outputBuffer.content =
    p.sent
  fin : ∀ b, p.fin = some b → q.retrieved ++ q.conn.inputBuffer.content ++ p.wire = b
  /-- Only the end of the stream closes a connection. -/
  closed : ¬q.Open → p.fin ≠ none ∧ p.wire = []

/-- A direction as a pipe. -/
def pipeOf (p q : Peer H) : Pipe Byte where
  sent := p.sent
  taken := q.retrieved
  pending := q.conn.inputBuffer.content ++ p.wire ++ p.conn.outputBuffer.content

omit [DecidableEq H] in
/-- Writing is a push, and moves bytes towards the other end. -/
theorem Writes.sender (h : Writes p data p') (hc : Carries p q) :
    Carries p' q ∧ (Pipe.machine Byte).run (pipeOf p q) [.push data] = some (pipeOf p' q) := by
  obtain ⟨new, hwire, hmoved, hnew⟩ := h.moved
  have hpending : q.conn.inputBuffer.content ++ p'.wire ++ p'.conn.outputBuffer.content =
      q.conn.inputBuffer.content ++ p.wire ++ p.conn.outputBuffer.content ++ data := by
    rw [hwire, List.append_assoc, List.append_assoc, hmoved]
    simp only [List.append_assoc]
  have hbytes : q.retrieved ++ q.conn.inputBuffer.content ++ p'.wire ++
      p'.conn.outputBuffer.content = p'.sent := by
    rw [h.sent, ← hc.bytes]
    simpa only [List.append_assoc] using congrArg (q.retrieved ++ ·) hpending
  refine ⟨⟨hbytes, fun b hb => ?_, fun hclosed => ?_⟩, ?_⟩
  · rcases h.fin with heq | ⟨-, hsome, hempty⟩
    · rw [hwire, hnew (by rw [← heq, hb]; exact Option.some_ne_none b), List.append_nil]
      exact hc.fin b (heq ▸ hb)
    · rw [hempty, List.append_nil] at hbytes
      exact hbytes.trans (Option.some.inj (hsome.symm.trans hb))
  · obtain ⟨hfin, hnil⟩ := hc.closed hclosed
    refine ⟨?_, ?_⟩
    · rcases h.fin with heq | ⟨-, hsome, -⟩
      · rwa [heq]
      · rw [hsome]
        exact Option.some_ne_none _
    · rw [hwire, hnil, hnew hfin, List.append_nil]
  · show some _ = some _
    simp only [pipeOf, h.sent, hpending]

omit [DecidableEq H] in
/-- The direction in which it receives is left alone. -/
theorem Writes.receiver (h : Writes p data p') (hc : Carries q p) :
    Carries q p' ∧ pipeOf q p' = pipeOf q p := by
  refine ⟨⟨?_, fun b hb => ?_, fun hclosed => absurd h.live.opened hclosed⟩, ?_⟩
  · rw [h.retrieved, h.input]
    exact hc.bytes
  · rw [h.retrieved, h.input]
    exact hc.fin b hb
  · simp only [pipeOf, h.retrieved, h.input]

/-- What `handleRead` makes of a connection to which `readv` has delivered `data`. -/
structure Reads (p : Peer H) (data : List Byte) (c : TcpConnection H) : Prop where
  wf : c.Wf
  live : c.state ≠ .kDisconnected → Live c
  output : c.outputBuffer = p.conn.outputBuffer
  input : c.inputBuffer.content = p.conn.inputBuffer.content ++ data

theorem reads_of_handleRead (hp : Kept p) (ho : p.Open) {r : ReadResult} {c : TcpConnection H}
    (h : p.conn.handleRead r = .ok c) :
    Reads p r.data c ∧ (c.state = .kDisconnected → r = .bytes []) := by
  obtain ⟨hwf, hinput⟩ := InputStream.conn_handleRead hp.wf h
  obtain ⟨hinv, hlisten, hopen⟩ := hp.live ho
  by_cases hnil : r = .bytes []
  · refine ⟨⟨hwf, ?_, ?_, hinput⟩, fun _ => hnil⟩
    all_goals
      subst hnil
      obtain ⟨b, hb, heq⟩ := TcpConnection.handleRead_nil hp.wf
      rw [h] at heq
      obtain ⟨-, poller, rfl, -⟩ := TcpConnection.handleClose_ok
        (c := { p.conn with inputBuffer := b }) hp.wf.placed heq.symm
    · exact fun hst => absurd rfl hst
    · rfl
  · obtain ⟨b, us, rfl, hb, -⟩ := TcpConnection.handleRead_spec hp.wf hnil h
    refine ⟨⟨hwf, fun _ => ⟨⟨hwf, hinv.writing⟩, hlisten, hopen⟩, rfl, hinput⟩, ?_⟩
    exact fun hclosed => absurd hclosed hopen

omit [DecidableEq H] in
theorem delivers_split {r : ReadResult} (h : q.Delivers r) :
    r.data ++ q.wire.drop r.data.length = q.wire := by
  cases r with
  | error errno => rfl
  | bytes data =>
    obtain ⟨⟨rest, hrest⟩, -⟩ := h
    rw [← hrest]
    show data ++ (data ++ rest).drop data.length = _
    rw [List.drop_left]

omit [DecidableEq H] in
/-- Reading moves bytes from the kernel to the input buffer. -/
theorem Reads.receiver {r : ReadResult} {c : TcpConnection H} (h : Reads p r.data c)
    (hc : Carries q p) (hr : q.Delivers r) (hclosed : c.state = .kDisconnected → r = .bytes []) :
    Carries { q with wire := q.wire.drop r.data.length } { p with conn := c } ∧
      pipeOf { q with wire := q.wire.drop r.data.length } { p with conn := c } = pipeOf q p := by
  have hsplit := delivers_split hr
  have hpending : c.inputBuffer.content ++ q.wire.drop r.data.length =
      p.conn.inputBuffer.content ++ q.wire := by
    rw [h.input, List.append_assoc, hsplit]
  refine ⟨⟨?_, fun b hb => ?_, fun hnot => ?_⟩, ?_⟩
  · show p.retrieved ++ c.inputBuffer.content ++ _ ++ q.conn.outputBuffer.content = q.sent
    rw [List.append_assoc p.retrieved, hpending, ← List.append_assoc p.retrieved]
    exact hc.bytes
  · rw [← hc.fin b hb, List.append_assoc, hpending, List.append_assoc]
  · have hnil : r = .bytes [] := hclosed (Classical.not_not.mp hnot)
    subst hnil
    obtain ⟨hwire, hfin⟩ := hr.2 rfl
    refine ⟨hfin, ?_⟩
    show q.wire.drop _ = []
    rw [hwire, List.drop_nil]
  · simp only [pipeOf, hpending]

omit [DecidableEq H] in
theorem Reads.sender {r : ReadResult} {c : TcpConnection H} (h : Reads p r.data c)
    (hc : Carries p q) :
    Carries { p with conn := c } { q with wire := q.wire.drop r.data.length } ∧
      pipeOf { p with conn := c } { q with wire := q.wire.drop r.data.length } = pipeOf p q := by
  refine ⟨⟨?_, hc.fin, hc.closed⟩, ?_⟩
  · rw [h.output]
    exact hc.bytes
  · simp only [pipeOf, h.output]

omit [DecidableEq H] in
/-- A retrieval is a drain of the pipe. -/
theorem retrieval_receiver {b : Buffer} {new : List Byte}
    (hsplit : new ++ b.content = p.conn.inputBuffer.content) (hc : Carries q p) :
    Carries q { p with
      conn := { p.conn with inputBuffer := b }, retrieved := p.retrieved ++ new } ∧
    (Pipe.machine Byte).run (pipeOf q p) [.drain new.length] = some (pipeOf q { p with
      conn := { p.conn with inputBuffer := b }, retrieved := p.retrieved ++ new }) := by
  have hkeep : p.retrieved ++ new ++ b.content = p.retrieved ++ p.conn.inputBuffer.content := by
    rw [List.append_assoc, hsplit]
  refine ⟨⟨?_, fun b' hb => ?_, hc.closed⟩, ?_⟩
  · rw [← hc.bytes, ← hkeep]
  · rw [← hc.fin b' hb, ← hkeep]
  · refine Pipe.run_drain ?_
    show new ++ (b.content ++ q.wire ++ q.conn.outputBuffer.content) = _
    simp only [pipeOf, ← hsplit, List.append_assoc]

/-! ## 5. Every run -/

/-- What holds in every run. -/
structure Inv (s : State H) : Prop where
  kept : ∀ x, Kept (s x)
  carries : ∀ x, Carries (s x) (s x.other)

theorem other_other (x : Side) : x.other.other = x := by cases x <;> rfl

theorem forall_side {P : Side → Prop} (x : Side) (hx : P x) (ho : P x.other) : ∀ y, P y := by
  intro y
  by_cases hy : y = x
  · exact hy ▸ hx
  · have heq : y = x.other := by
      cases x <;> cases y <;> first | rfl | exact absurd rfl hy
    exact heq ▸ ho

omit [DecidableEq H] in
theorem Inv.of_ends {x : Side} (hp : Kept p) (hq : Kept q) (hpq : Carries p q) (hqp : Carries q p) :
    Inv (both x p q) := by
  refine ⟨forall_side x ?_ ?_, forall_side x ?_ ?_⟩
  · rwa [both_self]
  · rwa [both_other]
  · rwa [both_self, both_other]
  · rwa [other_other, both_self, both_other]

variable {o : ByteOrder} {s t : State H} {a : Act}

/-- What a step does to the direction from `y` to the other end. -/
def Piped (s t : State H) : Prop :=
  ∀ y, ∃ as, (Pipe.machine Byte).run (pipeOf (s y) (s y.other)) as =
    some (pipeOf (t y) (t y.other))

omit [DecidableEq H] in
theorem Piped.of_ends {x : Side} (as bs : List (Pipe.Act Byte))
    (hsend : (Pipe.machine Byte).run (pipeOf (s x) (s x.other)) as = some (pipeOf p q))
    (hreceive : (Pipe.machine Byte).run (pipeOf (s x.other) (s x)) bs = some (pipeOf q p)) :
    Piped s (both x p q) := by
  refine forall_side x ⟨as, ?_⟩ ⟨bs, ?_⟩
  · rwa [both_self, both_other]
  · rwa [other_other, both_self, both_other]

omit [DecidableEq H] in
/-- A call that writes. -/
theorem Inv.writes (hs : Inv s) {x : Side} (h : Writes (s x) data p) :
    Inv (both x p (s x.other)) ∧ Piped s (both x p (s x.other)) := by
  have hreverse : Carries (s x.other) (s x) := by simpa [other_other] using hs.carries x.other
  obtain ⟨hsend, hpush⟩ := h.sender (hs.carries x)
  obtain ⟨hreceive, hsame⟩ := h.receiver hreverse
  exact ⟨.of_ends ⟨h.live.inv.toWf, fun _ => h.live⟩ (hs.kept _) hsend hreceive,
    .of_ends _ [] hpush (congrArg some hsame.symm)⟩

theorem Inv.step (hs : Inv s) (h : (machine o H).step s a = some t) : Inv t ∧ Piped s t := by
  cases a with
  | sendInLoop x data r =>
    simp only [machine, Peers.step] at h
    split_ifs at h with hg
    split at h
    · next c hok =>
      cases h
      exact hs.writes (send_writes (hs.kept x) hg.1 hg.2.1 hg.2.2 hok)
    · cases h
  | handleWrite x r =>
    simp only [machine, Peers.step] at h
    split_ifs at h with hg
    split at h
    · next c hok =>
      cases h
      exact hs.writes (write_writes (hs.kept x) hg.1 hg.2.2.1 hg.2.2.2 hok)
    · cases h
  | handleRead x r =>
    simp only [machine, Peers.step] at h
    split_ifs at h with hg
    split at h
    · next c hok =>
      cases h
      obtain ⟨hreads, hclosed⟩ := reads_of_handleRead (hs.kept x) hg.1 hok
      have hreverse : Carries (s x.other) (s x) := by simpa [other_other] using hs.carries x.other
      obtain ⟨hreceive, hsame⟩ := hreads.receiver hreverse hg.2.2.2 hclosed
      obtain ⟨hsend, hsame'⟩ := hreads.sender (hs.carries x)
      refine ⟨.of_ends ⟨hreads.wf, hreads.live⟩ ?_ hsend hreceive,
        .of_ends [] [] (congrArg some hsame'.symm) (congrArg some hsame.symm)⟩
      exact ⟨(hs.kept x.other).wf, (hs.kept x.other).live⟩
    · cases h
  | retrieve x op =>
    simp only [machine, Peers.step] at h
    split at h
    · next b out hexec =>
      cases h
      obtain ⟨hb, hsplit⟩ := Buffer.retrieval_spec (hs.kept x).wf.input op.2 hexec
      have hreverse : Carries (s x.other) (s x) := by simpa [other_other] using hs.carries x.other
      obtain ⟨hreceive, hdrain⟩ := retrieval_receiver hsplit hreverse
      have hsend := hs.carries x
      refine ⟨.of_ends ⟨⟨(hs.kept x).wf.sound, hb, (hs.kept x).wf.output⟩, fun ho => ?_⟩
        (hs.kept _) ⟨hsend.bytes, hsend.fin, hsend.closed⟩ hreceive, .of_ends [] _ rfl hdrain⟩
      obtain ⟨hinv, hlisten, hopen⟩ := (hs.kept x).live ho
      exact ⟨⟨⟨hinv.sound, hb, hinv.output⟩, hinv.writing⟩, hlisten, hopen⟩
    · cases h
  | shutdown x =>
    simp only [machine, Peers.step] at h
    split_ifs at h with hg
    cases h
    exact hs.writes (setState_writes (hs.kept x) hg)
  | shutdownInLoop x =>
    simp only [machine, Peers.step] at h
    split_ifs at h with hg
    cases h
    refine hs.writes (shutdown_writes (hs.kept x) ?_)
    rw [Peer.Open, hg]
    exact StateE.noConfusion

/-- In each direction the two connections and the kernel between them are one pipe. -/
theorem refines_pipe (o : ByteOrder) (x : Side) :
    Trans.Refines (machine o H) (Pipe.machine Byte) Inv fun s => pipeOf (s x) (s x.other) where
  init := by
    intro s hs
    have hnew := fun y => TcpConnection.established_spec (hs y).established
    have hinput : ∀ y, (s y).conn.inputBuffer.content = [] := fun y => by
      rw [TcpConnection.established_input (hs y).established, Buffer.content_fresh]
    have hlive : ∀ y, Live (s y).conn := fun y =>
      ⟨(hnew y).inv, (hnew y).listening, by rw [(hnew y).state]; exact StateE.noConfusion⟩
    refine ⟨⟨fun y => ⟨(hnew y).inv.toWf, fun _ => hlive y⟩, fun y => ⟨?_, fun b hb => ?_, ?_⟩⟩, ?_⟩
    · rw [(hs y.other).retrieved, hinput, (hs y).wire, (hnew y).content, (hs y).sent]
      rfl
    · rw [(hs y).fin] at hb
      cases hb
    · exact fun hclosed => absurd (hlive y.other).opened hclosed
    · refine ⟨(hs x).sent, (hs x.other).retrieved, ?_⟩
      simp only [pipeOf, hinput, (hs x).wire, (hnew x).content, List.append_nil]
  step := by
    intro s a t hs h
    exact ⟨(hs.step h).1, (hs.step h).2 x⟩

/-- What a run does to the bytes of one direction, a run of one pipe does to them too, from
`sendInLoop` to the retrievals at the other end: they are retrieved in the order in which
they were sent, and those that have not been retrieved are in the two buffers and the
kernel. -/
theorem runs_as_pipe {s₀ : State H} {as : List Act} (hinit : (machine o H).init s₀)
    (hrun : (machine o H).run s₀ as = some s) (x : Side) :
    (∃ bs, (Pipe.machine Byte).run ⟨[], [], []⟩ bs = some (pipeOf (s x) (s x.other))) ∧
    (s x.other).retrieved ++ ((s x.other).conn.inputBuffer.content ++ (s x).wire ++
      (s x).conn.outputBuffer.content) = (s x).sent := by
  obtain ⟨hinv, hempty⟩ := (refines_pipe o x).init s₀ hinit
  obtain ⟨bs, hpipe⟩ := (refines_pipe o x).run hinv hrun
  have hall : (pipeOf (s x) (s x.other)).Conserved := Pipe.conserved ⟨_, bs, hempty, hpipe⟩
  obtain ⟨hsent, htaken, hpending⟩ := hempty
  have hfirst : pipeOf (s₀ x) (s₀ x.other) = ⟨[], [], []⟩ :=
    congr (congr (congrArg Pipe.mk hsent) htaken) hpending
  exact ⟨⟨bs, hfirst ▸ hpipe⟩, hall⟩

/-- The end of the stream comes after the last byte: a connection that has been closed has
received exactly what the other end had sent when it issued its half-close. -/
theorem eof_complete (hs : (machine o H).Reachable s) (x : Side) (hclosed : ¬(s x.other).Open) :
    ∃ b, (s x).fin = some b ∧ b <+: (s x).sent ∧
      (s x.other).retrieved ++ (s x.other).conn.inputBuffer.content = b := by
  have hcarries := ((refines_pipe o x).invariant hs).carries x
  obtain ⟨hfin, hwire⟩ := hcarries.closed hclosed
  obtain ⟨b, hb⟩ := Option.ne_none_iff_exists'.mp hfin
  have hreceived := hcarries.fin b hb
  refine ⟨b, hb, ⟨(s x).conn.outputBuffer.content, ?_⟩, ?_⟩
  · rw [← hreceived]
    exact hcarries.bytes
  · rw [← hreceived, hwire, List.append_nil]

/-! ## 6. The bytes move -/

/-- The moves that the bytes of one direction have before them. -/
def weight (p : Peer H) : Nat := 2 * p.conn.outputBuffer.content.length + p.wire.length

def rank (s : State H) : Nat := weight (s .left) + weight (s .right)

omit [DecidableEq H] in
theorem rank_eq (s : State H) (x : Side) : rank s = weight (s x) + weight (s x.other) := by
  cases x with
  | left => rfl
  | right => exact Nat.add_comm _ _

omit [DecidableEq H] in
theorem rank_both (x : Side) (p q : Peer H) : rank (both x p q) = weight p + weight q := by
  rw [rank_eq _ x, both_self, both_other]

/-- The call moves a byte. -/
def Act.moves : Act → Bool
  | .handleWrite _ (.wrote n) => 0 < n
  | .handleRead _ (.bytes data) => !data.isEmpty
  | _ => false

/-- The moves of the bytes that a call sends. -/
def Act.cost : Act → Nat
  | .sendInLoop _ data _ => 2 * data.length
  | _ => 0

omit [DecidableEq H] in
theorem Writes.weight_le (h : Writes p data p') : weight p' ≤ weight p + 2 * data.length := by
  obtain ⟨new, hwire, hmoved, -⟩ := h.moved
  have hlen := congrArg List.length hmoved
  rw [List.length_append, List.length_append] at hlen
  rw [weight, weight, hwire, List.length_append]
  omega

/-- With room in the kernel, `handleWrite` makes the output shorter. -/
theorem write_weight (hp : Kept p) (ho : p.Open) {n : Nat} (hn : 0 < n)
    (hr : n ≤ p.conn.outputBuffer.content.length) {c : TcpConnection H}
    (h : p.conn.handleWrite (.wrote n) = .ok c) : weight (p.settle c) < weight p := by
  have hinv := hp.inv ho
  obtain ⟨c', hok, hout⟩ := TcpConnection.handleWrite_spec (r := .wrote n) hinv hr
  rw [h] at hok
  cases hok
  have hne : p.conn.outputBuffer.content ≠ [] := by
    intro hnil
    rw [hnil] at hr
    exact Nat.not_lt.mpr hr hn
  have htaken : (p.conn.writeCalls (.wrote n)).flatMap Syscall.taken =
      p.conn.outputBuffer.content.take n := by
    rw [TcpConnection.writeCalls, if_pos (hinv.writing.mpr hne), List.flatMap_cons]
    split
    · rw [TcpConnection.taken_drainCalls, List.append_nil, Syscall.taken]
    · exact List.append_nil _
  have hcontent := congrArg List.length hout.content
  rw [htaken, List.append_nil, List.length_append, List.length_take_of_le hr] at hcontent
  simp only [weight, Peer.settle, settle_calls hout.syscalls, htaken, List.length_append,
    List.length_take_of_le hr]
  omega

theorem step_rank (hs : Inv s) (h : (machine o H).step s a = some t) :
    rank t + (if a.moves then 1 else 0) ≤ rank s + a.cost := by
  have hwrites : ∀ {x p data}, Writes (s x) data p →
      rank (both x p (s x.other)) ≤ rank s + 2 * data.length := by
    intro x p data h
    have := h.weight_le
    rw [rank_both, rank_eq s x]
    omega
  cases a with
  | sendInLoop x data r =>
    simp only [machine, Peers.step] at h
    split_ifs at h with hg
    split at h
    · next c hok =>
      cases h
      exact hwrites (send_writes (hs.kept x) hg.1 hg.2.1 hg.2.2 hok)
    · cases h
  | handleWrite x r =>
    simp only [machine, Peers.step] at h
    split_ifs at h with hg
    split at h
    · next c hok =>
      cases h
      by_cases hm : (Act.handleWrite x r).moves = true
      · rw [if_pos hm, rank_both, rank_eq s x]
        cases r with
        | error errno => cases hm
        | wrote n =>
          have hlt := write_weight (hs.kept x) hg.1 (of_decide_eq_true hm) hg.2.2.1 hok
          simp only [Act.cost]
          omega
      · rw [if_neg hm]
        exact hwrites (write_writes (hs.kept x) hg.1 hg.2.2.1 hg.2.2.2 hok)
    · cases h
  | handleRead x r =>
    simp only [machine, Peers.step] at h
    split_ifs at h with hg
    split at h
    · next c hok =>
      cases h
      obtain ⟨hreads, -⟩ := reads_of_handleRead (hs.kept x) hg.1 hok
      have hsplit := congrArg List.length (delivers_split hg.2.2.2)
      rw [List.length_append] at hsplit
      have hmoves : (if (Act.handleRead x r).moves = true then 1 else 0) ≤ r.data.length := by
        cases r with
        | error errno => exact Nat.le_refl _
        | bytes data => cases data <;> simp [Act.moves, ReadResult.data]
      rw [rank_both, rank_eq s x]
      simp only [weight, Act.cost, hreads.output]
      omega
    · cases h
  | retrieve x op =>
    simp only [machine, Peers.step] at h
    split at h
    · cases h
      rw [rank_both, rank_eq s x]
      exact Nat.le_refl _
    · cases h
  | shutdown x =>
    simp only [machine, Peers.step] at h
    split_ifs at h with hg
    cases h
    exact hwrites (setState_writes (hs.kept x) hg)
  | shutdownInLoop x =>
    simp only [machine, Peers.step] at h
    split_ifs at h with hg
    cases h
    refine hwrites (shutdown_writes (hs.kept x) ?_)
    rw [Peer.Open, hg]
    exact StateE.noConfusion

/-- The bytes do not move for ever: the calls of a run that move bytes are at most two
for each byte that it sends. -/
theorem moves_bounded {s₀ : State H} {as : List Act} (hinit : (machine o H).init s₀)
    (hrun : (machine o H).run s₀ as = some t) :
    as.countP Act.moves ≤ (as.map Act.cost).sum := by
  have hstart := ((refines_pipe o .left).init s₀ hinit).1
  have hcount := Trans.Machine.countP_le rank Act.moves Act.cost
    (fun s a t hs h => ⟨(hs.step h).1, step_rank hs h⟩) hstart hrun
  have hzero : rank s₀ = 0 := by
    have hweight : ∀ x, weight (s₀ x) = 0 := fun x => by
      rw [weight, (TcpConnection.established_spec (hinit x).established).content, (hinit x).wire]
      rfl
    rw [rank, hweight, hweight]
  rw [hzero, Nat.zero_add] at hcount
  exact Nat.le_trans (Nat.le_add_right _ _) hcount

/-- Bytes are on their way from `x`, and have room at the other end. -/
structure UnderWay (s : State H) (x : Side) : Prop where
  inv : Inv s
  sender : (s x).Open
  receiver : (s x.other).Open
  /-- After the half-close there is no output. -/
  fin : (s x).fin = none ∨ (s x).conn.outputBuffer.content = []
  room : (s x.other).conn.inputBuffer.buffer.length + (s x).wire.length +
    (s x).conn.outputBuffer.content.length < Buffer.maxSize

/-- The bytes that have not been retrieved at the other end. -/
def pending (s : State H) (x : Side) : List Byte := (pipeOf (s x) (s x.other)).pending

omit [DecidableEq H] in
theorem asks_write (hp : Kept p) (ho : p.Open) (hne : p.conn.outputBuffer.content ≠ []) :
    p.conn.asks Handler.kWriteEvent = true := by
  obtain ⟨hinv, hlisten, -⟩ := hp.live ho
  rw [TcpConnection.asks_eq hp.wf hlisten]
  exact hinv.writing.mpr hne

omit [DecidableEq H] in
theorem asks_read (hp : Kept p) (ho : p.Open) : p.conn.asks Handler.kReadEvent = true := by
  obtain ⟨-, hlisten, -⟩ := hp.live ho
  rw [TcpConnection.asks_eq hp.wf hlisten, hlisten.reads]
  decide

/-- `handleWrite` is called while there is output, and moves what the kernel takes. -/
theorem UnderWay.write (o : ByteOrder) {x : Side} (hs : UnderWay s x) {n : Nat} (hn : 0 < n)
    (hle : n ≤ (s x).conn.outputBuffer.content.length) :
    ∃ t, (machine o H).step s (.handleWrite x (.wrote n)) = some t ∧ UnderWay t x ∧
      pending t x = pending s x ∧ weight (t x) < weight (s x) := by
  have hkept := hs.inv.kept x
  have hne : (s x).conn.outputBuffer.content ≠ [] := by
    intro hnil
    rw [hnil] at hle
    exact Nat.not_lt.mpr hle hn
  have hfin : (s x).fin = none := hs.fin.resolve_right hne
  obtain ⟨c, hok, -⟩ := TcpConnection.handleWrite_spec (r := .wrote n) (hkept.inv hs.sender) hle
  have hwrites := write_writes (r := .wrote n) hkept hs.sender hle hfin hok
  have hstep : (machine o H).step s (.handleWrite x (.wrote n)) =
      some (both x ((s x).settle c) (s x.other)) := by
    simp only [machine, Peers.step]
    rw [if_pos ⟨hs.sender, asks_write hkept hs.sender hne, hle, hfin⟩, hok]
  obtain ⟨new, hwire, hmoved, -⟩ := hwrites.moved
  rw [List.append_nil] at hmoved
  have hlen := congrArg List.length hmoved
  rw [List.length_append] at hlen
  refine ⟨_, hstep, ⟨(hs.inv.step hstep).1, ?_, ?_, ?_, ?_⟩, ?_, ?_⟩
  · rw [both_self]
    exact hwrites.live.opened
  · rw [both_other]
    exact hs.receiver
  · rw [both_self]
    exact hwrites.fin.imp (fun heq => heq.trans hfin) fun h => h.2.2
  · have hroom := hs.room
    rw [both_self, both_other, hwire, List.length_append]
    omega
  · simp only [pending, pipeOf, both_self, both_other, hwire, List.append_assoc, hmoved]
  · rw [both_self]
    exact write_weight hkept hs.sender hn hle hok

omit [DecidableEq H] in
theorem both_back (x : Side) (p q : Peer H) : both x.other p q x = q := by
  cases x <;> rfl

theorem read_step (o : ByteOrder) {x : Side} {data rest : List Byte} {c : TcpConnection H}
    (ho : (s x.other).Open) (hasks : (s x.other).conn.asks Handler.kReadEvent = true)
    (hfits : ReadResult.Fits (s x.other).conn.inputBuffer (.bytes data))
    (hdelivers : (s x).Delivers (.bytes data)) (hwire : data ++ rest = (s x).wire)
    (hok : (s x.other).conn.handleRead (.bytes data) = .ok c) :
    (machine o H).step s (.handleRead x.other (.bytes data)) =
      some (both x.other { s x.other with conn := c } { s x with wire := rest }) := by
  have hdrop : (s x).wire.drop data.length = rest := by rw [← hwire, List.drop_left]
  refine (if_pos ⟨ho, hasks, hfits, by rwa [other_other]⟩).trans ?_
  rw [hok]
  simp only [other_other, ReadResult.data, hdrop]

/-- `handleRead` is called, and moves what the kernel delivers. -/
theorem UnderWay.read (o : ByteOrder) {x : Side} (hs : UnderWay s x) {data rest : List Byte}
    (hwire : data ++ rest = (s x).wire) (hne : data ≠ [])
    (hfits : ReadResult.Fits (s x.other).conn.inputBuffer (.bytes data)) :
    ∃ t, (machine o H).step s (.handleRead x.other (.bytes data)) = some t ∧ UnderWay t x ∧
      pending t x = pending s x ∧ weight (t x) < weight (s x) := by
  have hkept := hs.inv.kept x.other
  have hlen := congrArg List.length hwire
  rw [List.length_append] at hlen
  have hpos : 0 < data.length := List.length_pos_iff.mpr hne
  have hroom := hs.room
  obtain ⟨⟨b, n, e⟩, hread⟩ := Buffer.readFd_total hkept.wf.input (by omega) hfits
  have hgrows := Buffer.readFd_grows hread
  obtain ⟨-, hcontent, rfl, -⟩ := Buffer.readFd_spec hkept.wf.input hread
  have hok := TcpConnection.handleRead_bytes hread (Int.natCast_pos.mpr hpos)
  have hdelivers : (s x).Delivers (.bytes data) := ⟨⟨rest, hwire⟩, fun h => absurd h hne⟩
  have hstep := read_step o hs.receiver (asks_read hkept hs.receiver) hfits
    hdelivers hwire hok
  refine ⟨_, hstep, ⟨(hs.inv.step hstep).1, ?_, ?_, ?_, ?_⟩, ?_, ?_⟩
  · rw [both_back]
    exact hs.sender
  · rw [both_self]
    exact hs.receiver
  · rw [both_back]
    exact hs.fin
  · rw [both_back, both_self]
    show b.buffer.length + rest.length + (s x).conn.outputBuffer.content.length < _
    omega
  · simp only [pending, pipeOf, both_back, both_self]
    show b.content ++ rest ++ _ = _
    rw [hcontent, ← hwire]
    simp only [ReadResult.data, List.append_assoc]
  · rw [both_back]
    show 2 * (s x).conn.outputBuffer.content.length + rest.length < 2 * _ + _
    omega

/-- The call moves bytes that come from `x`. -/
def Act.carries (x : Side) : Act → Bool
  | .handleWrite y (.wrote n) => y = x && 0 < n
  | .handleRead y (.bytes data) => y = x.other && !data.isEmpty
  | _ => false

theorem UnderWay.step {x : Side} {a : Act} (hs : UnderWay s x) (ha : a.carries x = true)
    (h : (machine o H).step s a = some t) :
    UnderWay t x ∧ pending t x = pending s x ∧ weight (t x) < weight (s x) := by
  cases a with
  | handleWrite y r =>
    cases r with
    | error errno => cases ha
    | wrote n =>
      simp only [Act.carries, Bool.and_eq_true, decide_eq_true_eq] at ha
      obtain ⟨rfl, hn⟩ := ha
      have hg := h
      simp only [machine, Peers.step] at hg
      split_ifs at hg with hcall
      obtain ⟨u, hstep, hu⟩ := hs.write o hn hcall.2.2.1
      rw [hstep] at h
      cases h
      exact hu
  | handleRead y r =>
    have hg := h
    simp only [machine, Peers.step] at hg
    split_ifs at hg with hcall
    clear hg
    cases r with
    | error errno => cases ha
    | bytes data =>
      simp only [Act.carries, Bool.and_eq_true, decide_eq_true_eq, Bool.not_eq_true',
        List.isEmpty_eq_false_iff] at ha
      obtain ⟨rfl, hne⟩ := ha
      have hdelivers := hcall.2.2.2
      rw [other_other] at hdelivers
      obtain ⟨rest, hwire⟩ := hdelivers.1
      obtain ⟨u, hstep, hu⟩ := hs.read o hwire hne hcall.2.2.1
      rw [hstep] at h
      cases h
      exact hu
  | sendInLoop _ _ _ | retrieve _ _ | shutdown _ | shutdownInLoop _ => cases ha

/-- Bytes that are under way arrive. As long as both connections are open, the input buffer
has room and there is no output behind a half-close, the calls of `handleWrite` at one end
and `handleRead` at the other that move bytes are at most so many, with any results and in
any order; and while bytes are left, `epoll_wait` may report for a call, which moves what
the kernel takes or delivers. -/
theorem delivers {as : List Act} (hs : (machine o H).Reachable s) (x : Side)
    (hsender : (s x).Open) (hreceiver : (s x.other).Open)
    (hfin : (s x).fin = none ∨ (s x).conn.outputBuffer.content = [])
    (hroom : (s x.other).conn.inputBuffer.buffer.length + (s x).wire.length +
      (s x).conn.outputBuffer.content.length < Buffer.maxSize)
    (hcarries : ∀ a ∈ as, a.carries x = true) (hrun : (machine o H).run s as = some t) :
    as.length ≤ 2 * (s x).conn.outputBuffer.content.length + (s x).wire.length ∧
    (t x.other).conn.inputBuffer.content ++ (t x).wire ++ (t x).conn.outputBuffer.content =
      (s x.other).conn.inputBuffer.content ++ (s x).wire ++ (s x).conn.outputBuffer.content ∧
    (∀ n, 0 < n → n ≤ (t x).conn.outputBuffer.content.length →
      ∃ u, (machine o H).step t (.handleWrite x (.wrote n)) = some u) ∧
    (∀ data rest, data ≠ [] → data ++ rest = (t x).wire →
      ReadResult.Fits (t x.other).conn.inputBuffer (.bytes data) →
      ∃ u, (machine o H).step t (.handleRead x.other (.bytes data)) = some u) := by
  have hstart : UnderWay s x :=
    ⟨(refines_pipe o x).invariant hs, hsender, hreceiver, hfin, hroom⟩
  have halong := Trans.Machine.along_of_forall (M := machine o H)
    (C := fun _ a => Act.carries x a = true) (fun a ha _ => hcarries a ha) s
  have hstep : ∀ t a u, UnderWay t x ∧ pending t x = pending s x → Act.carries x a = true →
      (machine o H).step t a = some u → False ∨ (UnderWay u x ∧ pending u x = pending s x) ∧
        weight (u x) + 1 ≤ weight (t x) := by
    rintro t a u ⟨ht, hpending⟩ ha h
    obtain ⟨hu, heq, hlt⟩ := ht.step ha h
    exact .inr ⟨⟨hu, heq.trans hpending⟩, hlt⟩
  obtain ⟨-, -, -, -, hfalse⟩ | ⟨⟨ht, hpending⟩, hcount⟩ := Trans.Machine.countP_le_until
    (G := fun _ => False) (fun t : State H => weight (t x)) (fun _ => true) hstep ⟨hstart, rfl⟩
    halong hrun
  · exact hfalse.elim
  refine ⟨?_, ?_, fun n hn hle => ?_, fun data rest hne hwire hfits => ?_⟩
  · rw [List.countP_true] at hcount
    exact Nat.le_trans (Nat.le_add_right _ _) hcount
  · simpa only [pending, pipeOf] using hpending
  · obtain ⟨u, hstep, -⟩ := ht.write o hn hle
    exact ⟨u, hstep⟩
  · obtain ⟨u, hstep, -⟩ := ht.read o hwire hne hfits
    exact ⟨u, hstep⟩

/-! ## 7. An example -/

/-- Two new connections. -/
def connected : State Unit := fun _ => ⟨TcpConnection.anEstablished, [], [], [], none⟩

theorem connected_starts : (machine o Unit).init connected := fun _ =>
  ⟨TcpConnection.anEstablished_established, rfl, rfl, rfl, rfl⟩

/-- A message of which the kernel takes one byte at once. -/
def halfSent : List Act := [.sendInLoop .left [1, 2, 3] (.wrote 1)]

/-- The sender shuts down meanwhile, and the receiver reads until the end of the stream. -/
def shutDown : List Act :=
  halfSent ++ [.shutdown .left, .shutdownInLoop .left, .handleRead .right (.bytes [1]),
    .retrieve .right ⟨.retrieve 1, rfl⟩, .handleWrite .left (.wrote 2),
    .handleRead .right (.bytes [2, 3]), .handleRead .right (.bytes [])]

theorem shutDown_as_pipe : ∃ s, (machine .little Unit).run connected shutDown = some s ∧
    (∃ bs, (Pipe.machine Byte).run ⟨[], [], []⟩ bs = some (pipeOf (s .left) (s .right))) ∧
    (s .right).retrieved ++ ((s .right).conn.inputBuffer.content ++ (s .left).wire ++
      (s .left).conn.outputBuffer.content) = (s .left).sent := by
  have hruns : ((machine .little Unit).run connected shutDown).isSome := by decide +kernel
  obtain ⟨s, hrun⟩ := Option.isSome_iff_exists.mp hruns
  exact ⟨s, hrun, runs_as_pipe connected_starts hrun .left⟩

theorem shutDown_complete : ∃ s b, (machine .little Unit).run connected shutDown = some s ∧
    (s .right).retrieved = [1] ∧ (s .left).fin = some b ∧ b <+: (s .left).sent ∧
    (s .right).retrieved ++ (s .right).conn.inputBuffer.content = b := by
  have hruns : ((machine .little Unit).run connected shutDown).map (fun s =>
      ((s .right).conn.state, (s .right).retrieved)) = some (.kDisconnected, [1]) := by
    decide +kernel
  obtain ⟨s, hrun, heq⟩ := Option.map_eq_some_iff.mp hruns
  obtain ⟨hclosed, hretrieved⟩ := Prod.mk.inj heq
  obtain ⟨b, hb⟩ := eof_complete ⟨_, _, connected_starts, hrun⟩ .left (fun ho => ho hclosed)
  exact ⟨s, b, hrun, hretrieved, hb⟩

theorem shutDown_bounded : shutDown.countP Act.moves ≤ (shutDown.map Act.cost).sum := by
  have hruns : ((machine .little Unit).run connected shutDown).isSome := by decide +kernel
  obtain ⟨s, hrun⟩ := Option.isSome_iff_exists.mp hruns
  exact moves_bounded connected_starts hrun

/-- The rest in two parts, of which the receiver reads the first one with a byte that has
arrived before. -/
def inParts : List Act :=
  [.handleWrite .left (.wrote 1), .handleRead .right (.bytes [1, 2]),
    .handleWrite .left (.wrote 1), .handleRead .right (.bytes [3])]

theorem halfSent_arrives : ∃ s t, (machine .little Unit).run connected halfSent = some s ∧
    (s .left).conn.outputBuffer.content = [2, 3] ∧ (s .left).wire = [1] ∧
    (machine .little Unit).run s inParts = some t ∧ inParts.length ≤ 2 * 2 + 1 ∧
    (t .right).conn.inputBuffer.content = [1, 2, 3] := by
  have hlefts : ((machine .little Unit).run connected halfSent).map (fun s =>
      ((s .left).conn.state, (s .left).fin, (s .left).wire,
        (s .left).conn.outputBuffer.content)) = some (.kConnected, none, [1], [2, 3]) := by
    decide +kernel
  have hrights : ((machine .little Unit).run connected halfSent).map (fun s =>
      ((s .right).conn.state, (s .right).conn.inputBuffer.content,
        (s .right).conn.inputBuffer.buffer.length)) = some (.kConnected, [], 1032) := by
    decide +kernel
  have hlater : ((machine .little Unit).run connected (halfSent ++ inParts)).map (fun s =>
      ((s .left).wire, (s .left).conn.outputBuffer.content)) = some ([], []) := by
    decide +kernel
  obtain ⟨s, hrun, heq⟩ := Option.map_eq_some_iff.mp hlefts
  rw [hrun] at hrights
  rw [Trans.Machine.run_append, hrun, Option.bind_some] at hlater
  simp only [Option.map_some, Option.some.injEq, Prod.mk.injEq] at heq hrights
  obtain ⟨hleft, hfin, hwire, hout⟩ := heq
  obtain ⟨hright, hin, hlen⟩ := hrights
  obtain ⟨t, hrun', hdone⟩ := Option.map_eq_some_iff.mp hlater
  obtain ⟨hwire', hout'⟩ := Prod.mk.inj hdone
  have hopen : ∀ {x}, (s x).conn.state = .kConnected → (s x).Open := fun h => by
    rw [Peer.Open, h]
    exact StateE.noConfusion
  have hlen : (s (Side.other .left)).conn.inputBuffer.buffer.length = 1032 := hlen
  obtain ⟨hbound, harrived, -⟩ := delivers ⟨_, _, connected_starts, hrun⟩ .left (hopen hleft)
    (hopen hright) (.inl hfin) (by rw [hlen, hwire, hout]; decide) (by decide) hrun'
  rw [hwire', hout', hwire, hout, List.append_nil, List.append_nil,
    show (s (Side.other .left)).conn.inputBuffer.content = [] from hin] at harrived
  rw [hwire, hout] at hbound
  exact ⟨s, t, hrun, hout, hwire, hrun', hbound, harrived⟩

end

end Peers

end NetFrame
