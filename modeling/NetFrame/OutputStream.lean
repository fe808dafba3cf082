import NetFrame.Connection
import NetFrame.Lib.Pipe

/-!
# The output of a connection is a lossless pipe

The runs of one connection between `connectionEstablished` and its close: calls
of `sendInLoop` and `handleWrite` in any order, with any results of `write`, and
a `shutdown` at any time. The `assert` of line 123 is left out.

Results:
1. `refines_pipe`: each call is a push, a drain or both on the pipe whose
   pending bytes are the output buffer.
2. `output_intact`: so no byte is lost, duplicated or reordered, and write
   events are asked for exactly while bytes are pending.
-/

namespace NetFrame

namespace OutputStream

/-! ## 1. Runs -/

/-- A connection, with the bytes passed to `sendInLoop` so far. -/
structure State (H : Type) where
  conn : TcpConnection H
  sent : List Byte

inductive Act where
  | sendInLoop (data : List Byte) (r : WriteResult)
  | handleWrite (r : WriteResult)
  /-- `shutdown` has set the state. -/
  | shutdown
  | shutdownInLoop
  deriving DecidableEq, Repr

variable {H : Type} [DecidableEq H]

/-- A call that faults ends the run. -/
def step (s : State H) : Act → Option (State H)
  | .sendInLoop data r =>
    if r.Fits data.length then
      match s.conn.sendInLoop false data r with
      | .ok c => some ⟨c, s.sent ++ data⟩
      | .error _ => none
    else none
  | .handleWrite r =>
    if r.Fits s.conn.outputBuffer.content.length then
      match s.conn.handleWrite r with
      | .ok c => some { s with conn := c }
      | .error _ => none
    else none
  | .shutdown => some { s with conn := s.conn.setState .kDisconnecting }
  | .shutdownInLoop => some { s with conn := s.conn.shutdownInLoop }

def machine (H : Type) [DecidableEq H] : Trans.Machine (State H) Act where
  init := fun s => TcpConnection.Established s.conn ∧ s.sent = []
  step := step

/-! ## 2. Refinement -/

/-- What the connection is for: a pipe from its callers to the kernel. -/
def pipe (s : State H) : Pipe Byte where
  sent := s.sent
  taken := s.conn.taken
  pending := s.conn.outputBuffer.content

theorem refines_pipe :
    Trans.Refines (machine H) (Pipe.machine Byte) (fun s => s.conn.Inv) pipe where
  init := by
    rintro s ⟨hest, hsent⟩
    have hnew := TcpConnection.established_spec hest
    refine ⟨hnew.inv, hsent, ?_, hnew.content⟩
    rw [pipe, TcpConnection.taken, hnew.syscalls]
    rfl
  step := by
    intro s a t hs ht
    cases a with
    | sendInLoop data r =>
      simp only [machine, step] at ht
      split_ifs at ht with hr
      split at ht
      · next c hok =>
        cases ht
        have hout := TcpConnection.sendInLoop_spec hs hr hok
        -- the send is one push of the pipe, and what the kernel takes one drain
        refine ⟨hout.inv, _, (Pipe.run_push_drain hout.content).trans ?_⟩
        rw [pipe, pipe, TcpConnection.taken_append hout.syscalls]
      · cases ht
    | handleWrite r =>
      simp only [machine, step] at ht
      split_ifs at ht with hr
      obtain ⟨c, hok, hout⟩ := TcpConnection.handleWrite_spec hs hr
      rw [hok] at ht
      cases ht
      refine ⟨hout.inv, _, (Pipe.run_drain (hout.content.trans (List.append_nil _))).trans ?_⟩
      rw [pipe, pipe, TcpConnection.taken_append hout.syscalls]
    | shutdown =>
      cases ht
      exact ⟨⟨⟨hs.sound, hs.input, hs.output⟩, hs.writing⟩, [], rfl⟩
    | shutdownInLoop =>
      cases ht
      have heq := TcpConnection.shutdownInLoop_eq s.conn
      refine ⟨?_, [], ?_⟩
      · show s.conn.shutdownInLoop.Inv
        rw [heq]
        exact ⟨⟨hs.sound, hs.input, hs.output⟩, hs.writing⟩
      · have htaken : s.conn.shutdownInLoop.taken = s.conn.taken := by
          rw [TcpConnection.taken_append (congrArg TcpConnection.syscalls heq)]
          split <;> simp [Syscall.taken]
        rw [pipe, pipe, htaken, heq]
        rfl

/-- Output stream integrity: in every state that a run reaches, the bytes that
the kernel has taken, followed by the readable bytes of the output buffer, are
the bytes passed to `sendInLoop`, in order; and write events are asked for
exactly while there are readable bytes. Nor does any of these runs end in a
fault, as long as the output fits in `size_t`. -/
theorem output_intact {s : State H} (hs : (machine H).Reachable s) :
    s.conn.taken ++ s.conn.outputBuffer.content = s.sent ∧
    (s.conn.isWriting = true ↔ 0 < s.conn.outputBuffer.readableBytes) ∧
    (∀ data r, r.Fits data.length →
      s.conn.outputBuffer.writerIndex + data.length + Buffer.kCheapPrepend < sizeMod →
      ∃ c, s.conn.sendInLoop false data r = .ok c) ∧
    (∀ r, r.Fits s.conn.outputBuffer.content.length → ∃ c, s.conn.handleWrite r = .ok c) := by
  have hinv : s.conn.Inv := refines_pipe.invariant hs
  have hpipe : (pipe s).Conserved := Pipe.conserved (refines_pipe.reachable hs)
  refine ⟨hpipe, hinv.writing_iff, fun data r hr hsz => ?_, fun r hr => ?_⟩
  · exact TcpConnection.sendInLoop_ok hinv hr hsz
  · obtain ⟨c, hok, -⟩ := TcpConnection.handleWrite_spec hinv hr
    exact ⟨c, hok⟩

/-- A short write, a refused one, a send while output is pending, and a drain. -/
def shortWrites : List Act :=
  [.sendInLoop [1, 2, 3] (.wrote 1), .handleWrite (.error 11), .sendInLoop [4] (.wrote 0),
    .handleWrite (.wrote 2), .shutdown, .handleWrite (.wrote 1)]

theorem shortWrites_intact :
    ∃ s, (machine Unit).run ⟨TcpConnection.anEstablished, []⟩ shortWrites = some s ∧
      s.sent = [1, 2, 3, 4] ∧
      s.conn.taken ++ s.conn.outputBuffer.content = s.sent ∧
      (s.conn.isWriting = true ↔ 0 < s.conn.outputBuffer.readableBytes) ∧
      (∀ data r, r.Fits data.length →
        s.conn.outputBuffer.writerIndex + data.length + Buffer.kCheapPrepend < sizeMod →
        ∃ c, s.conn.sendInLoop false data r = .ok c) ∧
      (∀ r, r.Fits s.conn.outputBuffer.content.length → ∃ c, s.conn.handleWrite r = .ok c) := by
  have hsent : ((machine Unit).run ⟨TcpConnection.anEstablished, []⟩ shortWrites).map State.sent =
      some [1, 2, 3, 4] := by
    decide +kernel
  obtain ⟨s, hrun, hs⟩ := Option.map_eq_some_iff.mp hsent
  have hinit : (machine Unit).init ⟨TcpConnection.anEstablished, []⟩ :=
    ⟨TcpConnection.anEstablished_established, rfl⟩
  exact ⟨s, hrun, hs, output_intact ⟨_, _, hinit, hrun⟩⟩

end OutputStream

end NetFrame
