import NetFrame.Connection
import Mathlib.Data.Fintype.Basic

/-!
# Graceful shutdown

One established connection: `send` calls from any threads, the loop's included,
one `shutdown` from any thread, the functors they queue, and `handleWrite`s.

Results:
1. `shutdown_loses_data`: two runs in which the half-close overtakes a send that
   had returned before `shutdown` was called.
2. `shutdown_graceful`: no byte is lost, and none is written too late, in every
   run that issues the half-close only when no send is in flight or queued.
-/

namespace NetFrame

namespace Shutdown

/-! ## 1. The threads -/

/-- The functors of the loop that concern the connection. A send is numbered. -/
inductive Functor where
  | sendInLoop (id : Nat) (message : List Byte)
  | writeComplete
  | shutdownInLoop
  deriving DecidableEq, Repr

/-- Whether the loop is in `m_doPendingFunctors`. -/
inductive LoopPc where
  | idle
  | running
  deriving DecidableEq, Repr

/-- How far the call of `shutdown` is. -/
inductive CallerPc where
  | notCalled
  /-- It has found `kConnected`. -/
  | called
  /-- It has set `kDisconnecting`. -/
  | stateSet
  | returned
  deriving DecidableEq, Repr

structure State (T H : Type) where
  conn : TcpConnection H
  pc : LoopPc
  tmpFunctors : List Functor
  pendingFuntors : List Functor
  /-- The threads in `send` that have read `kConnected` and not yet queued. -/
  senders : T → Option (Nat × List Byte)
  caller : CallerPc
  crashed : Option Fault
  /-- The number of the next send. -/
  nextId : Nat
  /-- The sends that found `kConnected` and have returned. -/
  returned : List Nat
  /-- Those that had returned when `shutdown` was called. -/
  early : List Nat
  /-- The sends that `sendInLoop` has taken on, in order. -/
  executed : List (Nat × List Byte)

variable {T H : Type}

/-- After a call on the connection: the write-complete callbacks are queued. -/
def State.settle (s : State T H) (c : TcpConnection H) : State T H :=
  { s with
    conn := { c with upcalls := [] }
    pendingFuntors := s.pendingFuntors ++
      List.replicate (c.upcalls.count .queueWriteComplete) .writeComplete }

/-! ## 2. What a graceful shutdown is -/

/-- The bytes contain all bytes of the early sends, each in its place in the
stream of the sends. -/
def State.EarlyTaken (s : State T H) (bytes : List Byte) : Prop :=
  ∀ id ∈ s.early, ∃ before message after, s.executed = before ++ (id, message) :: after ∧
    before.flatMap Prod.snd ++ message <+: bytes

/-- At each `shutdownWrite` the bytes taken by then satisfy `E`, and no `write` follows. -/
def HalfCloses (E : List Byte → Prop) (calls : List Syscall) : Prop :=
  ∀ before after, calls = before ++ .shutdownWrite :: after →
    E (before.flatMap Syscall.taken) ∧ ∀ call ∈ after, call = .shutdownWrite

/-- Each half-close so far was graceful. -/
def Graceful (s : State T H) : Prop := HalfCloses s.EarlyTaken s.conn.syscalls

section

variable {E E' : List Byte → Prop} {calls : List Syscall} {s s' : State T H} {bytes : List Byte}

theorem HalfCloses.mono (h : HalfCloses E calls) (hE : ∀ bytes, E bytes → E' bytes) :
    HalfCloses E' calls := by
  intro before after heq
  obtain ⟨htaken, hafter⟩ := h before after heq
  exact ⟨hE _ htaken, hafter⟩

theorem HalfCloses.of_not_mem (h : .shutdownWrite ∉ calls) : HalfCloses E calls := by
  rintro before after rfl
  simp at h

/-- A further half-close. -/
theorem HalfCloses.shutdown (h : HalfCloses E calls) (hE : E (calls.flatMap Syscall.taken)) :
    HalfCloses E (calls ++ [.shutdownWrite]) := by
  intro before after heq
  rcases List.append_eq_append_iff.mp heq with ⟨mid, rfl, hmid⟩ | ⟨mid, rfl, hmid⟩
  · -- it is the last one
    cases mid with
    | nil =>
      cases hmid
      rw [List.append_nil]
      exact ⟨hE, by simp⟩
    | cons call mid =>
      injection hmid with _ hnil
      simp at hnil
  · cases mid with
    | nil =>
      cases hmid
      rw [List.append_nil] at hE
      exact ⟨hE, by simp⟩
    | cons call mid =>
      injection hmid with hcall hmid
      subst hcall hmid
      obtain ⟨htaken, hafter⟩ := h before mid rfl
      refine ⟨htaken, fun call hcall => ?_⟩
      rcases List.mem_append.mp hcall with hcall | hcall
      · exact hafter call hcall
      · exact List.mem_singleton.mp hcall

theorem State.EarlyTaken.mono (h : s.EarlyTaken bytes) (hearly : s'.early = s.early)
    (hexec : s.executed <+: s'.executed) : s'.EarlyTaken bytes := by
  obtain ⟨more, hmore⟩ := hexec
  intro id hid
  obtain ⟨before, message, after, heq, htaken⟩ := h id (hearly ▸ hid)
  exact ⟨before, message, after ++ more, by rw [← hmore, heq]; simp, htaken⟩

end

/-! ## 3. The steps -/

inductive Act (T : Type) where
  /-- `handleWrite`, where `write` returns `r` if it is called. -/
  | handleWrite (r : WriteResult)
  | swap
  /-- The next functor runs, where `write` returns `r` if it is called. -/
  | runFunctor (r : WriteResult)
  | batchDone
  /-- `send` and `shutdown` in the loop's thread. -/
  | loopSend (data : List Byte) (r : WriteResult)
  | loopShutdown
  /-- `send` in another thread finds `kConnected`. -/
  | checkState (t : T) (data : List Byte)
  /-- It queues `sendInLoop` and returns. -/
  | queueSend (t : T)
  /-- `shutdown` in another thread, in three steps. -/
  | callShutdown
  | setDisconnecting
  | queueShutdown
  deriving DecidableEq, Repr

def guard (s : State T H) (a : Act T) : Prop :=
  s.crashed = none ∧
  match a with
  | .handleWrite r => s.pc = .idle ∧ r.Fits s.conn.outputBuffer.content.length
  | .swap => s.pc = .idle
  | .runFunctor r => s.pc = .running ∧
      match s.tmpFunctors with
      | [] => False
      | .sendInLoop _ message :: _ => r.Fits message.length
      | _ :: _ => True
  | .batchDone => s.pc = .running ∧ s.tmpFunctors = []
  | .loopSend data r => s.conn.state = .kConnected ∧ r.Fits data.length
  | .loopShutdown => s.caller = .notCalled ∧ s.conn.state = .kConnected
  | .checkState t _ => s.conn.state = .kConnected ∧ s.senders t = none
  | .queueSend t => s.senders t ≠ none
  | .callShutdown => s.caller = .notCalled ∧ s.conn.state = .kConnected
  | .setDisconnecting => s.caller = .called
  | .queueShutdown => s.caller = .stateSet

instance (s : State T H) (a : Act T) : Decidable (guard s a) := by
  unfold guard
  cases a with
  | runFunctor r =>
    match s.tmpFunctors with
    | [] => infer_instance
    | .sendInLoop _ _ :: _ => infer_instance
    | .writeComplete :: _ => infer_instance
    | .shutdownInLoop :: _ => infer_instance
  | _ => infer_instance

section

variable [DecidableEq H]

/-- `sendInLoop` for the send `id`, in the state that it leaves if it returns. -/
def State.sendInLoop (asserts : Bool) (s : State T H) (id : Nat) (message : List Byte)
    (r : WriteResult) (next : State T H) : State T H :=
  match s.conn.sendInLoop asserts message r with
  | .error f => { s with crashed := some f }
  | .ok c => { next with executed := s.executed ++ [(id, message)] }.settle c

def effect [DecidableEq T] (asserts : Bool) (s : State T H) : Act T → State T H
  | .handleWrite r =>
    match s.conn.handleWrite r with
    | .error f => { s with crashed := some f }
    | .ok c => s.settle c
  | .swap => { s with pc := .running, tmpFunctors := s.pendingFuntors, pendingFuntors := [] }
  | .runFunctor r =>
    match s.tmpFunctors with
    | [] => s
    | .sendInLoop id message :: rest =>
      s.sendInLoop asserts id message r { s with tmpFunctors := rest }
    | .writeComplete :: rest => { s with tmpFunctors := rest }
    | .shutdownInLoop :: rest => { s with tmpFunctors := rest, conn := s.conn.shutdownInLoop }
  | .batchDone => { s with pc := .idle }
  | .loopSend data r =>
    s.sendInLoop asserts s.nextId data r
      { s with nextId := s.nextId + 1, returned := s.returned ++ [s.nextId] }
  | .loopShutdown =>
    { s with
      conn := (s.conn.setState .kDisconnecting).shutdownInLoop
      caller := .returned
      early := s.returned }
  | .checkState t data =>
    { s with
      senders := Function.update s.senders t (some (s.nextId, data))
      nextId := s.nextId + 1 }
  | .queueSend t =>
    { s with
      pendingFuntors := s.pendingFuntors ++ (s.senders t).toList.map fun m => .sendInLoop m.1 m.2
      returned := s.returned ++ (s.senders t).toList.map Prod.fst
      senders := Function.update s.senders t none }
  | .callShutdown => { s with caller := .called, early := s.returned }
  | .setDisconnecting =>
    { s with caller := .stateSet, conn := s.conn.setState .kDisconnecting }
  | .queueShutdown =>
    { s with caller := .returned, pendingFuntors := s.pendingFuntors ++ [.shutdownInLoop] }

/-- The state right after `connectionEstablished`. -/
def start (c : TcpConnection H) : State T H where
  conn := { c with upcalls := [] }
  pc := .idle
  tmpFunctors := []
  pendingFuntors := []
  senders := fun _ => none
  caller := .notCalled
  crashed := none
  nextId := 0
  returned := []
  early := []
  executed := []

/-- The runs of an established connection; `asserts` if line 123 is compiled. -/
def machine (T H : Type) [DecidableEq T] [DecidableEq H] (asserts : Bool) :
    Trans.Machine (State T H) (Act T) :=
  Trans.Machine.guarded (fun s => ∃ c, c.Established ∧ s = start c) guard (effect asserts)

end

/-! ## 4. Two half-closes that come too early -/

/-- A thread's `send` has returned, and its functor is queued, when the loop's
thread calls `shutdown`. -/
def inlineShutdown : List (Act Unit) :=
  [.checkState () [1], .queueSend (), .loopShutdown, .swap, .runFunctor (.wrote 1)]

/-- A thread's `send` is queued behind pending output. `shutdown` sets
`kDisconnecting`, so that the drain of that output issues the half-close. -/
def earlyDrain : List (Act Unit) :=
  [.loopSend [1, 2] (.wrote 1), .checkState () [3], .queueSend (), .callShutdown,
    .setDisconnecting, .handleWrite (.wrote 1)]

theorem not_earlyTaken {s : State T H} {bytes : List Byte} {id : Nat} (hid : id ∈ s.early)
    (hexec : id ∉ s.executed.map Prod.fst) : ¬s.EarlyTaken bytes := by
  intro h
  obtain ⟨before, message, after, heq, -⟩ := h id hid
  simp [heq] at hexec

/-- In the first run a byte is written after the half-close, in the second one
the half-close comes before the third byte has been written. -/
theorem shutdown_loses_data :
    (∃ s, (machine Unit Unit true).run (start TcpConnection.anEstablished) inlineShutdown = some s ∧
      s.crashed = none ∧ s.conn.syscalls = [.shutdownWrite, .write [1] (.wrote 1)] ∧
      ¬Graceful s) ∧
    (∃ s, (machine Unit Unit true).run (start TcpConnection.anEstablished) earlyDrain = some s ∧
      s.crashed = none ∧ ¬s.EarlyTaken s.conn.taken ∧ ¬Graceful s) := by
  have hrun₁ : ((machine Unit Unit true).run (start TcpConnection.anEstablished)
      inlineShutdown).map (fun s => (s.crashed, s.conn.syscalls)) =
        some (none, [.shutdownWrite, .write [1] (.wrote 1)]) := by
    decide +kernel
  have hrun₂ : ((machine Unit Unit true).run (start TcpConnection.anEstablished)
      earlyDrain).map (fun s => (s.crashed, s.conn.syscalls, s.early, s.executed.map Prod.fst)) =
        some (none, [.write [1, 2] (.wrote 1), .write [2] (.wrote 1), .shutdownWrite], [0, 1],
          [0]) := by
    decide +kernel
  obtain ⟨s₁, h₁, hs₁⟩ := Option.map_eq_some_iff.mp hrun₁
  obtain ⟨s₂, h₂, hs₂⟩ := Option.map_eq_some_iff.mp hrun₂
  simp only [Prod.mk.injEq] at hs₁ hs₂
  obtain ⟨hok₁, hcalls₁⟩ := hs₁
  obtain ⟨hok₂, hcalls₂, hearly, hexec⟩ := hs₂
  have hlost : ∀ bytes, ¬s₂.EarlyTaken bytes := fun bytes =>
    not_earlyTaken (hearly ▸ List.mem_cons_of_mem 0 List.mem_cons_self) (by simp [hexec])
  refine ⟨⟨s₁, h₁, hok₁, hcalls₁, fun hg => ?_⟩, ⟨s₂, h₂, hok₂, hlost _, fun hg => ?_⟩⟩
  · obtain ⟨-, hafter⟩ := hg [] [.write [1] (.wrote 1)] hcalls₁
    simp at hafter
  · exact hlost _ (hg [_, _] [] hcalls₂).1

/-! ## 5. The invariant -/

section

/-- The send that a functor is for. -/
def Functor.send : Functor → Option (Nat × List Byte)
  | .sendInLoop id message => some (id, message)
  | .writeComplete => none
  | .shutdownInLoop => none

/-- The sends that are queued, in the order in which they will run. -/
def State.queuedSends (s : State T H) : List (Nat × List Byte) :=
  (s.tmpFunctors ++ s.pendingFuntors).filterMap Functor.send

/-- `m_state`, by how far the call of `shutdown` is. -/
def CallerPc.state : CallerPc → StateE
  | .notCalled => .kConnected
  | .called => .kConnected
  | .stateSet => .kDisconnecting
  | .returned => .kDisconnecting

/-- What every step keeps. -/
structure Inv (s : State T H) : Prop where
  conn : s.conn.Inv
  stream : s.conn.taken ++ s.conn.outputBuffer.content = s.executed.flatMap Prod.snd
  known : s.returned ⊆ (s.executed ++ s.queuedSends).map Prod.fst
  early : s.early ⊆ s.returned
  state : s.conn.state = s.caller.state
  asked : .shutdownInLoop ∈ s.tmpFunctors ++ s.pendingFuntors → s.caller = .returned
  drained : s.pc = .idle → s.tmpFunctors = []

/-- The connection is ready for its half-close: no send can follow. -/
structure Finished (s : State T H) : Prop where
  state : s.conn.state = .kDisconnecting
  content : s.conn.outputBuffer.content = []
  senders : ∀ t, s.senders t = none
  queuedSends : s.queuedSends = []

/-- What every step keeps that issues no half-close too early. -/
structure Ordered (s : State T H) : Prop extends Inv s where
  finished : .shutdownWrite ∈ s.conn.syscalls → Finished s
  graceful : Graceful s

variable {c : TcpConnection H} {s s' : State T H}

/-- When all sends are taken, those that had returned early are. -/
theorem Finished.earlyTaken (hs : Inv s) (hf : Finished s) : s.EarlyTaken s.conn.taken := by
  intro id hid
  have hknown := hs.known (hs.early hid)
  rw [hf.queuedSends, List.append_nil] at hknown
  obtain ⟨⟨id, message⟩, hmem, rfl⟩ := List.mem_map.mp hknown
  obtain ⟨before, after, heq⟩ := List.append_of_mem hmem
  refine ⟨before, message, after, heq, after.flatMap Prod.snd, ?_⟩
  have hstream := hs.stream
  rw [hf.content, List.append_nil, heq, List.flatMap_append, List.flatMap_cons] at hstream
  rw [hstream, List.append_assoc]

/-- A step without a system call. -/
theorem Ordered.of_silent (hs : Ordered s) (hinv : Inv s')
    (hcalls : s'.conn.syscalls = s.conn.syscalls)
    (hearly : .shutdownWrite ∈ s.conn.syscalls → s'.early = s.early)
    (hexec : s.executed <+: s'.executed) (hf : Finished s → Finished s') : Ordered s' := by
  refine ⟨hinv, fun h => hf (hs.finished (hcalls ▸ h)), ?_⟩
  rw [Graceful, hcalls]
  by_cases h : .shutdownWrite ∈ s.conn.syscalls
  · exact hs.graceful.mono fun bytes hb => hb.mono (hearly h) hexec
  · exact .of_not_mem h

/-- A step that leaves the connection and the senders alone, and queues no send. -/
theorem Ordered.of_same (hs : Ordered s) (hinv : Inv s') (hconn : s'.conn = s.conn)
    (hsenders : s'.senders = s.senders) (hearly : s'.early = s.early)
    (hexec : s'.executed = s.executed) (hqueue : s'.queuedSends = s.queuedSends) : Ordered s' :=
  hs.of_silent hinv (by rw [hconn]) (fun _ => hearly) (by rw [hexec]) fun hf =>
    ⟨hconn ▸ hf.state, hconn ▸ hf.content, hsenders ▸ hf.senders, hqueue.trans hf.queuedSends⟩

/-- A step after which there has been no half-close. -/
theorem Ordered.of_open (hinv : Inv s') (h : .shutdownWrite ∉ s'.conn.syscalls) : Ordered s' :=
  ⟨hinv, fun h' => absurd h' h, .of_not_mem h⟩

/-- A step that ends with a half-close. -/
theorem Ordered.of_halfClose {calls : List Syscall} (hinv : Inv s') (hf : Finished s')
    (hcalls : s'.conn.syscalls = calls ++ [.shutdownWrite])
    (hgraceful : HalfCloses s'.EarlyTaken calls) : Ordered s' := by
  refine ⟨hinv, fun _ => hf, ?_⟩
  have htaken := hf.earlyTaken hinv
  rw [TcpConnection.taken, hcalls, List.flatMap_append] at htaken
  rw [Graceful, hcalls]
  exact hgraceful.shutdown (by simpa [Syscall.taken] using htaken)

theorem queuedSends_settle (c : TcpConnection H) : (s.settle c).queuedSends = s.queuedSends := by
  have hnone : ∀ n, (List.replicate n Functor.writeComplete).filterMap Functor.send = [] := by
    simp [Functor.send]
  simp [State.queuedSends, State.settle, hnone]

theorem Inv.settle (hs : Inv { s with conn := c }) : Inv (s.settle c) := by
  refine ⟨⟨⟨hs.conn.sound, hs.conn.input, hs.conn.output⟩, hs.conn.writing⟩, hs.stream, ?_,
    hs.early, hs.state, fun h => hs.asked ?_, hs.drained⟩
  · rw [queuedSends_settle]
    exact hs.known
  · simpa [State.settle] using h

theorem Inv.crash (hs : Inv s) (f : Fault) : Inv { s with crashed := some f } :=
  ⟨hs.conn, hs.stream, hs.known, hs.early, hs.state, hs.asked, hs.drained⟩

end

/-! ## 6. The invariant holds -/

section

variable {c : TcpConnection H} {s : State T H} {asserts : Bool}

theorem Inv.stream_output {calls : List Syscall} {data : List Byte} (hs : Inv s)
    (h : TcpConnection.Output s.conn c calls data) :
    c.taken ++ c.outputBuffer.content = s.executed.flatMap Prod.snd ++ data := by
  rw [TcpConnection.taken_append h.syscalls, List.append_assoc, h.content, ← List.append_assoc,
    hs.stream]

theorem Inv.shutdownInLoop (hs : Inv s) : Inv { s with conn := s.conn.shutdownInLoop } := by
  have htaken : s.conn.shutdownInLoop.taken = s.conn.taken := by
    rw [TcpConnection.taken_append (congrArg TcpConnection.syscalls
      (TcpConnection.shutdownInLoop_eq s.conn))]
    split <;> simp [Syscall.taken]
  have hstream := hs.stream
  rw [← htaken] at hstream
  rw [TcpConnection.shutdownInLoop_eq] at hstream ⊢
  exact ⟨⟨⟨hs.conn.sound, hs.conn.input, hs.conn.output⟩, hs.conn.writing⟩, hstream, hs.known,
    hs.early, hs.state, hs.asked, hs.drained⟩

theorem Ordered.open_of_connected (hs : Ordered s) (h : s.conn.state = .kConnected) :
    .shutdownWrite ∉ s.conn.syscalls := by
  intro hmem
  exact absurd (h.symm.trans (hs.finished hmem).state) (by decide)

theorem Ordered.open_of_writing (hs : Ordered s) (h : s.conn.isWriting = true) :
    .shutdownWrite ∉ s.conn.syscalls := fun hmem =>
  hs.conn.writing.mp h (hs.finished hmem).content

theorem queuedSends_pop {f : Functor} {rest : List Functor} (h : s.tmpFunctors = f :: rest) :
    s.queuedSends = f.send.toList ++ State.queuedSends { s with tmpFunctors := rest } := by
  rw [State.queuedSends, h]
  cases hf : f.send <;> simp [State.queuedSends, hf]

/-- A functor that is not for a send is taken out of the batch. -/
theorem Inv.pop {f : Functor} {rest : List Functor} (hs : Inv s) (h : s.tmpFunctors = f :: rest)
    (hf : f.send = none) : Inv { s with tmpFunctors := rest } := by
  have hknown := hs.known
  rw [queuedSends_pop h, hf] at hknown
  refine ⟨hs.conn, hs.stream, hknown, hs.early, hs.state, fun hmem => hs.asked ?_, fun hpc => ?_⟩
  · rw [h]
    exact List.mem_cons_of_mem _ hmem
  · rw [hs.drained hpc] at h
    cases h

theorem Ordered.crash (hs : Ordered s) (f : Fault) : Ordered { s with crashed := some f } :=
  hs.of_same (hs.toInv.crash f) rfl rfl rfl rfl rfl

/-- A functor that is not for a send is taken out of the batch. -/
theorem Ordered.pop {f : Functor} {rest : List Functor} (hs : Ordered s)
    (h : s.tmpFunctors = f :: rest) (hf : f.send = none) :
    Ordered { s with tmpFunctors := rest } := by
  have hqueued := queuedSends_pop h
  rw [hf] at hqueued
  exact hs.of_same (hs.toInv.pop h hf) rfl rfl rfl rfl hqueued.symm

/-- The half-close of `shutdownInLoop`. -/
theorem Ordered.shutdownInLoop (hs : Ordered s) (hstate : s.conn.state = .kDisconnecting)
    (hquiet : s.conn.isWriting = false → (∀ t, s.senders t = none) ∧ s.queuedSends = []) :
    Ordered { s with conn := s.conn.shutdownInLoop } := by
  have hinv := hs.toInv.shutdownInLoop
  rw [TcpConnection.shutdownInLoop_eq] at hinv ⊢
  by_cases hw : s.conn.isWriting = true
  · rw [if_pos hw, List.append_nil] at hinv ⊢
    exact ⟨hinv, hs.finished, hs.graceful⟩
  · have hcontent : s.conn.outputBuffer.content = [] := by
      rw [hs.conn.writing, not_not] at hw
      exact hw
    obtain ⟨hsenders, hqueued⟩ := hquiet (Bool.eq_false_of_not_eq_true hw)
    rw [if_neg hw] at hinv ⊢
    exact .of_halfClose hinv ⟨hstate, hcontent, hsenders, hqueued⟩ rfl hs.graceful

/-- `handleWrite`, which issues the half-close where it drains the output. -/
theorem Ordered.handleWrite {r : WriteResult} (hs : Ordered s) (hinv : Inv (s.settle c))
    (hout : TcpConnection.Output s.conn c (s.conn.writeCalls r) [])
    (hquiet : s.conn.isWriting = true → r = .wrote s.conn.outputBuffer.content.length →
      s.conn.state = .kDisconnecting → (∀ t, s.senders t = none) ∧ s.queuedSends = []) :
    Ordered (s.settle c) := by
  have hcalls : (s.settle c).conn.syscalls = s.conn.syscalls ++ s.conn.writeCalls r :=
    hout.syscalls
  by_cases hw : s.conn.isWriting = true
  swap
  · -- `handleWrite` does nothing
    rw [TcpConnection.writeCalls, if_neg hw, List.append_nil] at hcalls
    have hcontent : c.outputBuffer.content = s.conn.outputBuffer.content := by
      simpa [TcpConnection.writeCalls, if_neg hw] using hout.content
    exact hs.of_silent hinv hcalls (fun _ => rfl) (List.prefix_refl _) fun hf =>
      ⟨hout.state.trans hf.state, hcontent.trans hf.content, hf.senders,
        (queuedSends_settle c).trans hf.queuedSends⟩
  have hopen := hs.open_of_writing hw
  rw [TcpConnection.writeCalls, if_pos hw] at hcalls
  by_cases hclose : r = .wrote s.conn.outputBuffer.content.length ∧
    s.conn.state = .kDisconnecting
  · -- the last byte is drained after `shutdown`
    obtain ⟨rfl, hstate⟩ := hclose
    obtain ⟨hsenders, hqueued⟩ := hquiet hw rfl hstate
    rw [if_pos rfl, TcpConnection.drainCalls, if_pos hstate, ← List.singleton_append,
      ← List.append_assoc] at hcalls
    have hcontent : c.outputBuffer.content = [] := by
      have hsplit := hout.content
      rw [TcpConnection.writeCalls, if_pos hw, if_pos rfl, List.flatMap_cons,
        TcpConnection.taken_drainCalls] at hsplit
      simpa [Syscall.taken] using hsplit
    refine .of_halfClose hinv ⟨hout.state.trans hstate, hcontent, hsenders,
      (queuedSends_settle c).trans hqueued⟩ hcalls (.of_not_mem ?_)
    simpa using hopen
  · refine .of_open hinv ?_
    rw [hcalls]
    have hdrain : (if r = .wrote s.conn.outputBuffer.content.length then s.conn.drainCalls
        else []) = [] := by
      split_ifs with hr
      · exact if_neg fun hstate => hclose ⟨hr, hstate⟩
      · rfl
    simpa [hdrain] using hopen

theorem Inv.start (hnew : c.New) : Inv (start (T := T) c) := by
  refine ⟨⟨⟨hnew.inv.sound, hnew.inv.input, hnew.inv.output⟩, hnew.inv.writing⟩, ?_, ?_, ?_,
    hnew.state, ?_, fun _ => rfl⟩
  · show c.taken ++ c.outputBuffer.content = []
    rw [TcpConnection.taken, hnew.syscalls, hnew.content]
    rfl
  · exact List.nil_subset _
  · exact List.nil_subset _
  · exact fun h => absurd h List.not_mem_nil

theorem Ordered.start (hnew : c.New) : Ordered (start (T := T) c) := by
  refine .of_open (.start hnew) ?_
  show _ ∉ c.syscalls
  rw [hnew.syscalls]
  exact List.not_mem_nil

theorem open_of_send {data : List Byte} {r : WriteResult}
    (h : TcpConnection.Output s.conn c (s.conn.sendCalls data r) data)
    (hopen : .shutdownWrite ∉ s.conn.syscalls) : .shutdownWrite ∉ c.syscalls := by
  rw [h.syscalls, TcpConnection.sendCalls]
  split <;> simpa using hopen

/-- What `queueSend` queues for a thread. -/
theorem filterMap_send (m : Option (Nat × List Byte)) :
    (m.toList.map fun m => Functor.sendInLoop m.1 m.2).filterMap Functor.send = m.toList := by
  cases m <;> simp [Functor.send]

variable [DecidableEq T] [DecidableEq H] {a : Act T}

theorem Inv.step (hs : Inv s) (hg : guard s a) : Inv (effect asserts s a) := by
  obtain ⟨-, hg⟩ := hg
  cases a with
  | handleWrite r =>
    obtain ⟨c, hok, hout⟩ := TcpConnection.handleWrite_spec hs.conn hg.2
    simp only [effect, hok]
    refine Inv.settle ⟨hout.inv, ?_, hs.known, hs.early, hout.state.trans hs.state, hs.asked,
      hs.drained⟩
    exact (hs.stream_output hout).trans (List.append_nil _)
  | swap =>
    have hdrained := hs.drained hg
    have hqueue : s.tmpFunctors ++ s.pendingFuntors = s.pendingFuntors ++ [] := by simp [hdrained]
    refine ⟨hs.conn, hs.stream, ?_, hs.early, hs.state, ?_, fun h => by cases h⟩
    · have hknown := hs.known
      rw [State.queuedSends, hqueue] at hknown
      exact hknown
    · exact fun h => hs.asked (hqueue ▸ h)
  | runFunctor r =>
    obtain ⟨hpc, hfits⟩ := hg
    have hnot : s.pc ≠ .idle := by simp [hpc]
    simp only [effect]
    cases htmp : s.tmpFunctors with
    | nil => simp [htmp] at hfits
    | cons f rest =>
      cases f with
      | sendInLoop id message =>
        rw [htmp] at hfits
        dsimp only [State.sendInLoop]
        cases hsend : s.conn.sendInLoop asserts message r with
        | error f => exact hs.crash f
        | ok c =>
          have hout := TcpConnection.sendInLoop_spec hs.conn hfits hsend
          refine Inv.settle ⟨hout.inv, ?_, ?_, hs.early, hout.state.trans hs.state,
            fun h => hs.asked ?_, fun h => absurd h hnot⟩
          · simpa using hs.stream_output hout
          · have hknown := hs.known
            rw [queuedSends_pop htmp] at hknown
            simpa [State.queuedSends, Functor.send] using hknown
          · rw [htmp]
            exact List.mem_cons_of_mem _ h
      | writeComplete => exact hs.pop htmp rfl
      | shutdownInLoop => exact (hs.pop htmp rfl).shutdownInLoop
  | batchDone =>
    exact ⟨hs.conn, hs.stream, hs.known, hs.early, hs.state, hs.asked, fun _ => hg.2⟩
  | loopSend data r =>
    simp only [effect, State.sendInLoop]
    cases hsend : s.conn.sendInLoop asserts data r with
    | error f => exact hs.crash f
    | ok c =>
      have hout := TcpConnection.sendInLoop_spec hs.conn hg.2 hsend
      refine Inv.settle ⟨hout.inv, ?_, ?_, fun id hid => ?_, hout.state.trans hs.state, hs.asked,
        hs.drained⟩
      · simpa using hs.stream_output hout
      · intro id hid
        have hknown := @hs.known id
        simp only [List.map_append, List.mem_append] at hid hknown ⊢
        rcases hid with hid | hid
        · exact (hknown hid).imp .inl fun h => h
        · exact .inl (.inr hid)
      · exact List.mem_append_left _ (hs.early hid)
  | loopShutdown =>
    have hs' : Inv { s with
        conn := s.conn.setState .kDisconnecting, caller := .returned, early := s.returned } :=
      ⟨⟨⟨hs.conn.sound, hs.conn.input, hs.conn.output⟩, hs.conn.writing⟩, hs.stream, hs.known,
        fun _ h => h, rfl, fun _ => rfl, hs.drained⟩
    exact hs'.shutdownInLoop
  | checkState t data =>
    exact ⟨hs.conn, hs.stream, hs.known, hs.early, hs.state, hs.asked, hs.drained⟩
  | queueSend t =>
    refine ⟨hs.conn, hs.stream, ?_, ?_, hs.state, ?_, hs.drained⟩
    · have hqueued : (effect asserts s (.queueSend t)).queuedSends =
          s.queuedSends ++ (s.senders t).toList := by
        simp only [State.queuedSends, effect, List.filterMap_append, filterMap_send,
          List.append_assoc]
      rw [hqueued, ← List.append_assoc, List.map_append]
      exact List.append_subset.mpr
        ⟨List.subset_append_of_subset_left _ hs.known, List.subset_append_right _ _⟩
    · exact fun id hid => List.mem_append_left _ (hs.early hid)
    · intro h
      refine hs.asked ?_
      simpa [effect] using h
  | callShutdown =>
    refine ⟨hs.conn, hs.stream, hs.known, fun _ h => h, ?_, ?_, hs.drained⟩
    · exact hg.2
    · intro h
      exact absurd (hg.1.symm.trans (hs.asked h)) (by decide)
  | setDisconnecting =>
    refine ⟨⟨⟨hs.conn.sound, hs.conn.input, hs.conn.output⟩, hs.conn.writing⟩, hs.stream,
      hs.known, hs.early, rfl, ?_, hs.drained⟩
    intro h
    have hcaller : s.caller = .called := hg
    exact absurd (hcaller.symm.trans (hs.asked h)) (by decide)
  | queueShutdown =>
    refine ⟨hs.conn, hs.stream, ?_, hs.early, ?_, fun _ => rfl, hs.drained⟩
    · have hnone : [Functor.shutdownInLoop].filterMap Functor.send = [] := rfl
      simpa [State.queuedSends, effect, hnone] using hs.known
    · have hcaller : s.caller = .stateSet := hg
      exact hs.state.trans (by rw [hcaller]; rfl)

/-- The step calls `shutdownWrite`. -/
def HalfClosing (s : State T H) : Act T → Prop
  | .handleWrite r => s.conn.isWriting = true ∧ r = .wrote s.conn.outputBuffer.content.length ∧
      s.conn.state = .kDisconnecting
  | .runFunctor _ => s.conn.isWriting = false ∧ s.tmpFunctors.head? = some .shutdownInLoop
  | .loopShutdown => s.conn.isWriting = false
  | _ => False

instance (s : State T H) (a : Act T) : Decidable (HalfClosing s a) := by
  cases a <;> unfold HalfClosing <;> infer_instance

/-- The exact condition: when the half-close is issued, no thread is in `send`
and no send is queued. -/
def Quiet (s : State T H) (a : Act T) : Prop :=
  HalfClosing s a → (∀ t, s.senders t = none) ∧ s.queuedSends = []

instance [Fintype T] (s : State T H) (a : Act T) : Decidable (Quiet s a) := by
  unfold Quiet
  infer_instance

theorem Ordered.step (hs : Ordered s) (hc : Quiet s a) (hg : guard s a) :
    Ordered (effect asserts s a) := by
  have hinv : Inv (effect asserts s a) := hs.toInv.step hg
  obtain ⟨-, hg⟩ := hg
  cases a with
  | handleWrite r =>
    obtain ⟨c, hok, hout⟩ := TcpConnection.handleWrite_spec hs.conn hg.2
    simp only [effect, hok] at hinv ⊢
    exact hs.handleWrite hinv hout fun hw hr hstate => hc ⟨hw, hr, hstate⟩
  | swap =>
    refine hs.of_same hinv rfl rfl rfl rfl ?_
    simp [State.queuedSends, hs.drained hg, effect]
  | runFunctor r =>
    obtain ⟨hpc, hfits⟩ := hg
    simp only [effect]
    cases htmp : s.tmpFunctors with
    | nil => simp [htmp] at hfits
    | cons f rest =>
      have hqueued := queuedSends_pop htmp
      cases f with
      | sendInLoop id message =>
        -- a send is queued, so that there has been no half-close
        have hopen : .shutdownWrite ∉ s.conn.syscalls := fun h => by
          simp [(hs.finished h).queuedSends, Functor.send] at hqueued
        rw [htmp] at hfits
        dsimp only [State.sendInLoop]
        cases hsend : s.conn.sendInLoop asserts message r with
        | error f => exact hs.crash f
        | ok c =>
          simp only [effect, htmp, State.sendInLoop, hsend] at hinv
          have hout := TcpConnection.sendInLoop_spec hs.conn hfits hsend
          have hopen' := open_of_send hout hopen
          exact .of_open hinv hopen'
      | writeComplete => exact hs.pop htmp rfl
      | shutdownInLoop =>
        -- the functor was queued by a `shutdown` that has returned
        have hcaller : s.caller = .returned := hs.asked (by simp [htmp])
        refine (hs.pop htmp rfl).shutdownInLoop (hs.state.trans (by rw [hcaller]; rfl)) fun hw => ?_
        obtain ⟨hsenders, hnone⟩ := hc ⟨hw, by rw [htmp]; rfl⟩
        exact ⟨hsenders, hqueued.symm.trans hnone⟩
  | batchDone =>
    exact hs.of_same hinv rfl rfl rfl rfl rfl
  | loopSend data r =>
    have hopen := hs.open_of_connected hg.1
    simp only [effect, State.sendInLoop] at hinv ⊢
    cases hsend : s.conn.sendInLoop asserts data r with
    | error f => exact hs.crash f
    | ok c =>
      simp only [hsend] at hinv
      have hout := TcpConnection.sendInLoop_spec hs.conn hg.2 hsend
      have hopen' := open_of_send hout hopen
      exact .of_open hinv hopen'
  | loopShutdown =>
    have hopen := hs.open_of_connected hg.2
    have hs' : Ordered { s with
        conn := s.conn.setState .kDisconnecting, caller := .returned, early := s.returned } := by
      refine .of_open ⟨⟨⟨hs.conn.sound, hs.conn.input, hs.conn.output⟩, hs.conn.writing⟩,
        hs.stream, hs.known, fun _ h => h, rfl, fun _ => rfl, hs.drained⟩ hopen
    exact hs'.shutdownInLoop rfl hc
  | checkState t data => exact .of_open hinv (hs.open_of_connected hg.1)
  | queueSend t => exact .of_open hinv fun h => hg ((hs.finished h).senders t)
  | callShutdown => exact .of_open hinv (hs.open_of_connected hg.2)
  | setDisconnecting =>
    refine .of_open hinv (hs.open_of_connected (hs.state.trans ?_))
    have hcaller : s.caller = .called := hg
    rw [hcaller]
    rfl
  | queueShutdown =>
    refine hs.of_same hinv rfl rfl rfl rfl ?_
    have hnone : [Functor.shutdownInLoop].filterMap Functor.send = [] := rfl
    simp [State.queuedSends, effect, hnone]

/-! ## 7. Runs -/

/-- The shutdown is graceful in every state of every run of an established
connection that issues the half-close only when no send is in flight or queued. -/
theorem shutdown_graceful {as : List (Act T)} (hestablished : c.Established)
    (hquiet : (machine T H asserts).Along Quiet (Shutdown.start c) as)
    (hrun : (machine T H asserts).run (Shutdown.start c) as = some s) : Graceful s := by
  have hinv : Ordered s := by
    refine Trans.Machine.run_invariant (I := Ordered) ?_
      (.start (TcpConnection.established_spec hestablished)) hquiet hrun
    intro s a t hs hc hstep
    obtain ⟨hg, rfl⟩ := Trans.Machine.guarded_step.mp hstep
    exact hs.step hc hg
  exact hinv.graceful

end

/-- `shutdown` in another thread than the loop's, after a `send` of the same thread. -/
def sendThenShutdown : List (Act Unit) :=
  [.checkState () [1], .queueSend (), .callShutdown, .setDisconnecting, .queueShutdown,
    .swap, .runFunctor (.wrote 1), .runFunctor (.wrote 0)]

theorem sendThenShutdown_graceful :
    ∃ s, (machine Unit Unit true).run (start TcpConnection.anEstablished) sendThenShutdown =
      some s ∧
      s.conn.syscalls = [.write [1] (.wrote 1), .shutdownWrite] ∧ Graceful s := by
  have hcalls : ((machine Unit Unit true).run (start TcpConnection.anEstablished)
      sendThenShutdown).map (fun s => s.conn.syscalls) =
        some [.write [1] (.wrote 1), .shutdownWrite] := by
    decide +kernel
  obtain ⟨s, hrun, hs⟩ := Option.map_eq_some_iff.mp hcalls
  exact ⟨s, hrun, hs, shutdown_graceful TcpConnection.anEstablished_established
    (by decide +kernel) hrun⟩

end Shutdown

end NetFrame
