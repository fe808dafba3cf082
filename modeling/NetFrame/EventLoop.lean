import NetFrame.Lib.Machine
import NetFrame.Lib.Pipe
import Mathlib.Logic.Function.Basic

/-!
# EventLoop: queueing functors from other threads

`EventLoop.cpp` and the `threadFunc` of `EventLoopThread.cpp`. The state is what
the threads share (`m_pendingFuntors`, `m_callingPendingFunctors`, `m_bquit`,
the eventfd counter) and where each thread is; every access is a step of its
own, and the steps of all threads interleave. The threads other than the loop's
are named by an arbitrary type `T`.

Results:
1. `no_lost_wakeup`: a loop that polls while a functor is pending will be woken.
2. `functors_in_order`: the functors run once and in the order in which they
   were pushed, and a functor pushed during a batch runs after another poll.
3. `startup_loses_nothing`: what the window before `loop()` may lose, and that
   otherwise no quit and no functor is forgotten.
-/

namespace NetFrame

namespace EventLoop

/-! ## 1. The threads -/

/-- Where the loop's thread is. -/
inductive LoopPc where
  /-- In the `ThreadInitCallback` of `threadFunc`. -/
  | initCallback
  /-- `m_ploop` is published, `loop` has not yet reset `m_bquit`. -/
  | entering
  /-- At `while(!m_bquit)`. -/
  | testing
  /-- In `PollEvent`. -/
  | polling
  /-- Among the active handlers; `wake` if `m_handleRead` is still to be called. -/
  | handling (wake : Bool)
  /-- In `m_doPendingFunctors`, the flag set, before the swap. -/
  | swapping
  /-- Between two functors of `tmpFunctors`. -/
  | running
  /-- In a functor of `tmpFunctors`. -/
  | inFunctor
  | exited
  deriving DecidableEq, Repr

/-- Where the loop's thread is in a `queueInLoop` of its own. -/
inductive CallPc where
  | none
  | pushed
  | mustWake
  deriving DecidableEq, Repr

/-- Where another thread is in `queueInLoop` or `quit`. -/
inductive ThreadPc where
  | outside
  /-- Between its push and its wakeup write. -/
  | pushed
  /-- Between its store to `m_bquit` and its wakeup write. -/
  | quitStored
  deriving DecidableEq, Repr

/-- A functor in the queue, with the number of polls that had returned when it
was pushed and whether a batch was running then. -/
structure Queued (F : Type) where
  functor : F
  polls : Nat
  inBatch : Bool
  deriving DecidableEq, Repr

structure State (T F : Type) where
  pc : LoopPc
  call : CallPc
  threads : T → ThreadPc
  bquit : Bool
  callingPendingFunctors : Bool
  /-- The counter of `m_wakeupFd`. -/
  eventfd : Nat
  pendingFuntors : List (Queued F)
  /-- The part of `tmpFunctors` that has not been executed. -/
  tmpFunctors : List (Queued F)
  /-- The functors executed so far, with the polls returned before each. -/
  executed : List (Queued F × Nat)
  /-- The functors pushed so far. -/
  pushed : List (Queued F)
  /-- How many polls have returned. -/
  polls : Nat
  /-- A `quit` of another thread has returned. -/
  quitReturned : Bool

namespace State

variable {T F : Type}

/-- A constructed loop whose thread is at `pc`. -/
def start (pc : LoopPc) : State T F where
  pc := pc
  call := .none
  threads := fun _ => .outside
  bquit := false
  callingPendingFunctors := false
  eventfd := 0
  pendingFuntors := []
  tmpFunctors := []
  executed := []
  pushed := []
  polls := 0
  quitReturned := false

/-- A batch is running. -/
def InBatch (s : State T F) : Prop := s.pc = .running ∨ s.pc = .inFunctor

instance (s : State T F) : Decidable s.InBatch := inferInstanceAs (Decidable (_ ∨ _))

/-- What the push in `queueInLoop` puts into the queue. -/
def queued (s : State T F) (f : F) : Queued F := ⟨f, s.polls, decide s.InBatch⟩

/-- `m_pendingFuntors.push_back(cb)`. -/
def push (s : State T F) (f : F) : State T F :=
  { s with
    pendingFuntors := s.pendingFuntors ++ [s.queued f]
    pushed := s.pushed ++ [s.queued f] }

/-- `wakeup`, the write to the eventfd. -/
def wakeup (s : State T F) : State T F := { s with eventfd := s.eventfd + 1 }

end State

/-! ## 2. The steps -/

inductive Act (T F : Type) where
  /-- `threadFunc` publishes `m_ploop` and calls `loop`. -/
  | publish
  /-- `m_bquit = false`. -/
  | resetQuit
  | testQuit
  /-- `PollEvent` returns, with the wakeup handler active or not. -/
  | pollReturn (wake : Bool)
  /-- `m_handleRead` reads the eventfd. -/
  | handleRead
  /-- `m_doPendingFunctors` sets `m_callingPendingFunctors`. -/
  | setCalling
  | swap
  | runFunctor
  | functorReturns
  | clearCalling
  /-- The push of a `queueInLoop` in the loop's thread. -/
  | loopPush (f : F)
  /-- Its read of `m_callingPendingFunctors`. -/
  | readCalling
  | loopWakeup
  /-- `quit` in the loop's thread, which needs no wakeup. -/
  | loopQuit
  | push (t : T) (f : F)
  | wakeup (t : T)
  | storeQuit (t : T)
  | quitWakeup (t : T)
  deriving DecidableEq, Repr

variable {T F : Type}

/-- User code runs in the loop's thread: the init callback, a handler's callback
or a functor. -/
def State.InUserCode (s : State T F) : Prop :=
  s.pc = .initCallback ∨ s.pc = .handling true ∨ s.pc = .handling false ∨ s.pc = .inFunctor

instance (s : State T F) : Decidable s.InUserCode := inferInstanceAs (Decidable (_ ∨ _))

/-- When a step can be taken. -/
def guard (s : State T F) : Act T F → Prop
  | .publish => s.pc = .initCallback ∧ s.call = .none
  | .resetQuit => s.pc = .entering
  | .testQuit => s.pc = .testing
  | .pollReturn wake => s.pc = .polling ∧ (wake = true → 0 < s.eventfd)
  | .handleRead => s.pc = .handling true ∧ s.call = .none
  | .setCalling => s.pc = .handling false ∧ s.call = .none
  | .swap => s.pc = .swapping
  | .runFunctor => s.pc = .running ∧ s.tmpFunctors.isEmpty = false
  | .functorReturns => s.pc = .inFunctor ∧ s.call = .none
  | .clearCalling => s.pc = .running ∧ s.tmpFunctors.isEmpty = true
  | .loopPush _ => s.InUserCode ∧ s.call = .none
  | .readCalling => s.call = .pushed
  | .loopWakeup => s.call = .mustWake
  | .loopQuit => s.InUserCode ∧ s.call = .none
  | .push t _ => s.pc ≠ .initCallback ∧ s.threads t = .outside
  | .wakeup t => s.threads t = .pushed
  | .storeQuit t => s.pc ≠ .initCallback ∧ s.threads t = .outside
  | .quitWakeup t => s.threads t = .quitStored

instance (s : State T F) (a : Act T F) : Decidable (guard s a) := by
  cases a <;> unfold guard <;> infer_instance

def effect [DecidableEq T] (s : State T F) : Act T F → State T F
  | .publish => { s with pc := .entering }
  | .resetQuit => { s with pc := .testing, bquit := false }
  | .testQuit => { s with pc := if s.bquit then .exited else .polling }
  | .pollReturn wake => { s with pc := .handling wake, polls := s.polls + 1 }
  | .handleRead => { s with pc := .handling false, eventfd := 0 }
  | .setCalling => { s with pc := .swapping, callingPendingFunctors := true }
  -- `tmpFunctors` is new and empty before the swap
  | .swap => { s with pc := .running, tmpFunctors := s.pendingFuntors, pendingFuntors := [] }
  | .runFunctor =>
    { s with
      pc := .inFunctor
      tmpFunctors := s.tmpFunctors.tail
      executed := s.executed ++ (s.tmpFunctors.head?.map fun q => (q, s.polls)).toList }
  | .functorReturns => { s with pc := .running }
  | .clearCalling => { s with pc := .testing, callingPendingFunctors := false }
  | .loopPush f => { s.push f with call := .pushed }
  | .readCalling => { s with call := if s.callingPendingFunctors then .mustWake else .none }
  | .loopWakeup => { s.wakeup with call := .none }
  | .loopQuit => { s with bquit := true }
  | .push t f => { s.push f with threads := Function.update s.threads t .pushed }
  | .wakeup t => { s.wakeup with threads := Function.update s.threads t .outside }
  | .storeQuit t => { s with bquit := true, threads := Function.update s.threads t .quitStored }
  | .quitWakeup t =>
    { s.wakeup with
      threads := Function.update s.threads t .outside
      quitReturned := true }

/-- The runs of a loop whose thread starts at `pc`: at `initCallback` in a new
`EventLoopThread`, at `entering` when `loop` is called. -/
def machine (T F : Type) [DecidableEq T] (pc : LoopPc) :
    Trans.Machine (State T F) (Act T F) :=
  Trans.Machine.guarded (· = .start pc) guard effect

/-! ## 3. Wakeups -/

/-- The loop's thread will poll before it swaps again. -/
def State.PollsNext (s : State T F) : Prop :=
  s.pc = .entering ∨ s.pc = .testing ∨ s.pc = .polling ∨ s.InBatch

/-- The next poll will return at once, or a thread is about to see to that. -/
def State.Woken (s : State T F) : Prop := 0 < s.eventfd ∨ ∃ t, s.threads t = .pushed

/-- Where the loop's thread is when it calls `queueInLoop`, and what it then
reads in `m_callingPendingFunctors`. -/
structure Placed (s : State T F) : Prop where
  calling : s.callingPendingFunctors = true ↔ s.pc = .swapping ∨ s.InBatch
  call : s.call ≠ .none → s.InUserCode

/-- The wakeup that `queueInLoop` leaves out in the loop's own thread is not
missed: where it leaves it out, a swap comes before the next poll. -/
structure Awake (s : State T F) : Prop extends Placed s where
  init : s.pc = .initCallback → s.pendingFuntors = []
  woken : s.PollsNext → s.pendingFuntors ≠ [] → s.call = .none → s.Woken

section

variable {s : State T F} {a : Act T F}

theorem Placed.step [DecidableEq T] (hs : Placed s) (hg : guard s a) : Placed (effect s a) := by
  obtain ⟨hcalling, hcall⟩ := hs
  constructor
  · cases a <;> simp only [guard, effect, State.InBatch, State.InUserCode, State.push,
      State.wakeup] at * <;> grind
  · cases a <;> simp only [guard, effect, State.InBatch, State.InUserCode, State.push,
      State.wakeup] at * <;> grind

/-- A thread elsewhere keeps the loop woken when it moves. -/
theorem Woken.update [DecidableEq T] {t : T} {pc : ThreadPc} (h : s.Woken)
    (ht : s.threads t ≠ .pushed) :
    0 < s.eventfd ∨ ∃ u, Function.update s.threads t pc u = .pushed := by
  refine h.imp_right fun ⟨u, hu⟩ => ⟨u, ?_⟩
  rwa [Function.update_of_ne]
  rintro rfl
  exact ht hu

theorem pc_ne_initCallback [DecidableEq T] (h : s.pc ≠ .initCallback) :
    (effect s a).pc ≠ .initCallback := by
  cases a <;> simp only [effect, State.push, State.wakeup] <;> grind

/-- A functor that is pushed in the init callback is the one push without a
wakeup before a poll. -/
theorem Awake.step [DecidableEq T] (hs : Awake s) (hg : guard s a)
    (hinit : ∀ f, a = .loopPush f → s.pc ≠ .initCallback) : Awake (effect s a) := by
  obtain ⟨hplaced, hempty, hwoken⟩ := hs
  refine ⟨hplaced.step hg, ?_, ?_⟩
  · cases a <;> simp only [guard, effect, State.push, State.wakeup] at * <;> grind
  intro hpolls hpending hcall
  cases a with
  | publish => exact absurd (hempty hg.1) hpending
  | resetQuit => exact hwoken (.inl hg) hpending hcall
  | testQuit => exact hwoken (.inr (.inl hg)) hpending hcall
  | pollReturn wake => simp [State.PollsNext, State.InBatch, effect] at hpolls
  | handleRead => simp [State.PollsNext, State.InBatch, effect] at hpolls
  | setCalling => simp [State.PollsNext, State.InBatch, effect] at hpolls
  | swap => exact absurd rfl hpending
  | runFunctor => exact hwoken (.inr (.inr (.inr (.inl hg.1)))) hpending hcall
  | functorReturns => exact hwoken (.inr (.inr (.inr (.inr hg.1)))) hpending hcall
  | clearCalling => exact hwoken (.inr (.inr (.inr (.inl hg.1)))) hpending hcall
  | loopPush f => exact absurd hcall (by simp [effect])
  | readCalling =>
    -- in a functor the flag is set, so the wakeup follows; in a handler a swap does
    have hoff : s.callingPendingFunctors ≠ true := by
      intro hon
      simp [effect, hon] at hcall
    rw [ne_eq, hplaced.calling] at hoff
    have huser : s.InUserCode := hplaced.call (by rw [hg]; simp)
    rcases huser with hpc | hpc | hpc | hpc <;>
      simp [State.PollsNext, State.InBatch, effect, hpc] at hpolls hoff
  | loopWakeup => exact .inl (Nat.succ_pos _)
  | loopQuit => exact hwoken hpolls hpending hcall
  | push t f => exact .inr ⟨t, Function.update_self ..⟩
  | wakeup t => exact .inl (Nat.succ_pos _)
  | storeQuit t => exact Woken.update (hwoken hpolls hpending hcall) (by rw [hg.2]; simp)
  | quitWakeup t => exact .inl (Nat.succ_pos _)

end

theorem Awake.start {pc : LoopPc} (hpc : pc = .initCallback ∨ pc = .entering) :
    Awake (State.start pc : State T F) := by
  refine ⟨⟨?_, fun h => absurd rfl h⟩, fun _ => rfl, fun _ h => absurd rfl h⟩
  rcases hpc with rfl | rfl <;> simp [State.start, State.InBatch]

theorem Awake.polling_woken {s : State T F} (hs : Awake s) (hpc : s.pc = .polling)
    (hpending : s.pendingFuntors ≠ []) : s.Woken := by
  refine hs.woken (.inr (.inr (.inl hpc))) hpending ?_
  by_contra hcall
  have huser : s.InUserCode := hs.call hcall
  simp [State.InUserCode, hpc] at huser

/-- No lost wakeup: in every state that the loop and any number of other threads
reach, if the loop is in `PollEvent` with functors pending, the eventfd is
readable or another thread is between its push and its wakeup. -/
theorem no_lost_wakeup [DecidableEq T] {s : State T F}
    (hs : (machine T F .entering).Reachable s) (hpc : s.pc = .polling)
    (hpending : s.pendingFuntors ≠ []) : 0 < s.eventfd ∨ ∃ t, s.threads t = .pushed := by
  have hinv : Awake s ∧ s.pc ≠ .initCallback := by
    refine Trans.Machine.reachable_invariant (I := fun s => Awake s ∧ s.pc ≠ .initCallback)
      ?_ ?_ hs
    · rintro s rfl
      exact ⟨Awake.start (.inr rfl), by simp [State.start]⟩
    · rintro s a t ⟨hawake, hinit⟩ hstep
      obtain ⟨hg, rfl⟩ := Trans.Machine.guarded_step.mp hstep
      exact ⟨hawake.step hg fun _ _ => hinit, pc_ne_initCallback hinit⟩
  exact hinv.1.polling_woken hpc hpending

/-- Another thread pushes while the loop polls, and the loop is woken. -/
def foreignPush : List (Act Bool Nat) :=
  [.resetQuit, .push true 1, .testQuit, .push false 2, .wakeup true]

theorem foreignPush_woken :
    ∃ s, (machine Bool Nat .entering).run (.start .entering) foreignPush = some s ∧
      s.pc = .polling ∧ s.pendingFuntors ≠ [] ∧
      (0 < s.eventfd ∨ ∃ t, s.threads t = .pushed) := by
  have hpc : ((machine Bool Nat .entering).run (.start .entering) foreignPush).map
      (fun s => (s.pc, s.pendingFuntors.isEmpty)) = some (.polling, false) := by decide
  obtain ⟨s, hrun, hs⟩ := Option.map_eq_some_iff.mp hpc
  injection hs with hpolling hpending
  have hpending : s.pendingFuntors ≠ [] := by simpa using hpending
  exact ⟨s, hrun, hpolling, hpending, no_lost_wakeup ⟨_, _, rfl, hrun⟩ hpolling hpending⟩

/-! ## 4. Order -/

/-- What the queue is for: a pipe from `queueInLoop` to the loop. -/
def queue (s : State T F) : Pipe (Queued F) where
  sent := s.pushed
  taken := s.executed.map Prod.fst
  pending := s.tmpFunctors ++ s.pendingFuntors

/-- Outside of a batch, `tmpFunctors` has been executed. -/
def Drained (s : State T F) : Prop := ¬s.InBatch → s.tmpFunctors = []

theorem Drained.step [DecidableEq T] {s : State T F} {a : Act T F} (hs : Drained s)
    (hg : guard s a) : Drained (effect s a) := by
  cases a <;> simp only [Drained, guard, effect, State.InBatch, State.push, State.wakeup] at * <;>
    grind

theorem run_push (p : Pipe (Queued F)) (q : Queued F) :
    (Pipe.machine (Queued F)).run p [.push [q]] =
      some { p with sent := p.sent ++ [q], pending := p.pending ++ [q] } := rfl

theorem queue_push (s : State T F) (f : F) :
    (Pipe.machine (Queued F)).run (queue s) [.push [s.queued f]] = some (queue (s.push f)) := by
  rw [run_push]
  simp [queue, State.push]

theorem refines_queue [DecidableEq T] (pc : LoopPc) :
    Trans.Refines (machine T F pc) (Pipe.machine (Queued F)) Drained queue where
  init := by
    rintro s rfl
    exact ⟨fun _ => rfl, rfl, rfl, rfl⟩
  step := by
    intro s a t hs ht
    obtain ⟨hg, rfl⟩ := Trans.Machine.guarded_step.mp ht
    refine ⟨hs.step hg, ?_⟩
    cases a with
    | loopPush f => exact ⟨_, queue_push s f⟩
    | push t f => exact ⟨_, queue_push s f⟩
    | runFunctor =>
      obtain ⟨-, hne⟩ := hg
      cases htmp : s.tmpFunctors with
      | nil => simp [htmp] at hne
      | cons q rest =>
        have hsplit : [q] ++ (rest ++ s.pendingFuntors) = (queue s).pending := by
          simp [queue, htmp]
        refine ⟨_, (Pipe.run_drain hsplit).trans ?_⟩
        simp [queue, effect, htmp]
    | swap =>
      have htmp : s.tmpFunctors = [] := hs (by simp [State.InBatch, show s.pc = .swapping from hg])
      exact ⟨[], by simp [queue, effect, htmp]⟩
    | _ => exact ⟨[], rfl⟩

/-- A functor pushed during a batch waits for a poll: it is not in the batch of
that poll count, and leaves the queue only with a later one. -/
structure Stamped (s : State T F) : Prop where
  pending_le : ∀ q ∈ s.pendingFuntors, q.inBatch = true → q.polls ≤ s.polls
  pending_lt : s.pc = .handling true ∨ s.pc = .handling false ∨ s.pc = .swapping →
    ∀ q ∈ s.pendingFuntors, q.inBatch = true → q.polls < s.polls
  batch_lt : ∀ q ∈ s.tmpFunctors, q.inBatch = true → q.polls < s.polls
  executed_lt : ∀ x ∈ s.executed, x.1.inBatch = true → x.1.polls < x.2

theorem Stamped.push {s : State T F} (hs : Stamped s) (f : F) : Stamped (s.push f) := by
  obtain ⟨hle, hlt, hbatch, hexec⟩ := hs
  refine ⟨fun q hq hb => ?_, fun hpc q hq hb => ?_, hbatch, hexec⟩
  · rcases List.mem_append.mp hq with hq | hq
    · exact hle q hq hb
    · rw [List.mem_singleton.mp hq]
      exact Nat.le_refl _
  · rcases List.mem_append.mp hq with hq | hq
    · exact hlt hpc q hq hb
    · -- no batch is running here
      have hin : s.InBatch := by
        rw [List.mem_singleton.mp hq] at hb
        simpa [State.queued] using hb
      have hpc : s.pc = .handling true ∨ s.pc = .handling false ∨ s.pc = .swapping := hpc
      rcases hin with h | h <;> simp [h] at hpc

theorem Stamped.step [DecidableEq T] {s : State T F} {a : Act T F} (hs : Stamped s)
    (hg : guard s a) : Stamped (effect s a) := by
  have hpush := hs.push
  obtain ⟨hle, hlt, hbatch, hexec⟩ := hs
  cases a with
  | pollReturn wake =>
    exact ⟨fun q hq hb => Nat.le_succ_of_le (hle q hq hb),
      fun _ q hq hb => Nat.lt_succ_of_le (hle q hq hb),
      fun q hq hb => Nat.lt_succ_of_lt (hbatch q hq hb), hexec⟩
  | handleRead => exact ⟨hle, fun _ => hlt (.inl hg.1), hbatch, hexec⟩
  | setCalling => exact ⟨hle, fun _ => hlt (.inr (.inl hg.1)), hbatch, hexec⟩
  | swap =>
    exact ⟨fun q hq => absurd hq List.not_mem_nil, fun _ q hq => absurd hq List.not_mem_nil,
      hlt (.inr (.inr hg)), hexec⟩
  | runFunctor =>
    refine ⟨hle, by simp [effect], fun q hq => hbatch q (List.mem_of_mem_tail hq), ?_⟩
    intro x hx hb
    rcases List.mem_append.mp hx with hx | hx
    · exact hexec x hx hb
    · cases htmp : s.tmpFunctors with
      | nil => simp [htmp] at hx
      | cons q rest =>
        obtain rfl : x = (q, s.polls) := by simpa [htmp] using hx
        exact hbatch q (by simp [htmp]) hb
  | loopPush f => exact ⟨(hpush f).pending_le, (hpush f).pending_lt, hbatch, hexec⟩
  | push t f => exact ⟨(hpush f).pending_le, (hpush f).pending_lt, hbatch, hexec⟩
  | publish => exact ⟨hle, by simp [effect], hbatch, hexec⟩
  | resetQuit => exact ⟨hle, by simp [effect], hbatch, hexec⟩
  | testQuit => exact ⟨hle, by simp [effect]; grind, hbatch, hexec⟩
  | functorReturns => exact ⟨hle, by simp [effect], hbatch, hexec⟩
  | clearCalling => exact ⟨hle, by simp [effect], hbatch, hexec⟩
  | _ => exact ⟨hle, hlt, hbatch, hexec⟩

/-- Functors run once and in order: in every reachable state the functors that
have been executed, the rest of the batch and the pending functors are, in this
order, the functors pushed; and one that was pushed during a batch has been
executed only after at least one further poll. -/
theorem functors_in_order [DecidableEq T] {s : State T F}
    (hs : (machine T F .initCallback).Reachable s) :
    s.executed.map Prod.fst ++ s.tmpFunctors ++ s.pendingFuntors = s.pushed ∧
    ∀ x ∈ s.executed, x.1.inBatch = true → x.1.polls < x.2 := by
  constructor
  · have hqueue : (queue s).Conserved := Pipe.conserved ((refines_queue _).reachable hs)
    rw [List.append_assoc]
    exact hqueue
  · refine (Trans.Machine.reachable_invariant (I := Stamped) ?_ ?_ hs).executed_lt
    · rintro s rfl
      constructor <;> simp [State.start]
    · intro s a t hs ht
      obtain ⟨hg, rfl⟩ := Trans.Machine.guarded_step.mp ht
      exact hs.step hg

/-- A functor that pushes itself again, in two rounds of the loop. -/
def requeue : List (Act Unit Nat) :=
  [.publish, .push () 7, .resetQuit, .testQuit, .wakeup (), .pollReturn true, .handleRead,
    .setCalling, .swap, .runFunctor, .loopPush 7, .readCalling, .loopWakeup, .functorReturns,
    .clearCalling, .testQuit, .pollReturn true, .handleRead, .setCalling, .swap, .runFunctor]

theorem requeue_in_order :
    ∃ s, (machine Unit Nat .initCallback).run (.start .initCallback) requeue = some s ∧
      s.executed = [(⟨7, 0, false⟩, 1), (⟨7, 1, true⟩, 2)] ∧
      s.executed.map Prod.fst ++ s.tmpFunctors ++ s.pendingFuntors = s.pushed ∧
      ∀ x ∈ s.executed, x.1.inBatch = true → x.1.polls < x.2 := by
  have hexec : ((machine Unit Nat .initCallback).run (.start .initCallback) requeue).map
      State.executed = some [(⟨7, 0, false⟩, 1), (⟨7, 1, true⟩, 2)] := by decide
  obtain ⟨s, hrun, hs⟩ := Option.map_eq_some_iff.mp hexec
  exact ⟨s, hrun, hs, functors_in_order ⟨_, _, rfl, hrun⟩⟩

/-! ## 5. Start-up -/

/-- The loop waits for an event although it should go on: a `quit` has returned,
or a functor is pending that no thread is about to wake it for. -/
def Forgets (s : State T F) : Prop :=
  s.pc = .polling ∧ s.eventfd = 0 ∧
    (s.quitReturned = true ∨ (s.pendingFuntors ≠ [] ∧ ∀ t, s.threads t ≠ .pushed))

/-- The owner quits right after `startLoop` returns, before `loop` resets `m_bquit`. -/
def earlyQuit : List (Act Unit Nat) :=
  [.publish, .storeQuit (), .quitWakeup (), .resetQuit, .testQuit, .pollReturn true, .handleRead,
    .setCalling, .swap, .clearCalling, .testQuit]

/-- The init callback queues a functor: it is the loop's own thread and no batch
is running, so `queueInLoop` does not wake the loop. -/
def initFunctor : List (Act Unit Nat) :=
  [.loopPush 7, .readCalling, .publish, .resetQuit, .testQuit]

theorem startup_forgets :
    (∃ s, (machine Unit Nat .initCallback).run (.start .initCallback) earlyQuit = some s ∧
      Forgets s ∧ s.quitReturned = true) ∧
    (∃ s, (machine Unit Nat .initCallback).run (.start .initCallback) initFunctor = some s ∧
      Forgets s ∧ s.quitReturned = false) := by
  refine ⟨⟨_, rfl, ⟨rfl, rfl, .inl rfl⟩, rfl⟩, ⟨_, rfl, ⟨rfl, rfl, .inr ⟨?_, ?_⟩⟩, rfl⟩⟩
  · decide
  · rintro ⟨⟩
    decide

/-- The init callback queues nothing, and `m_bquit` is stored only after `loop`
has reset it. -/
def Careful (s : State T F) : Act T F → Prop
  | .loopPush _ => s.pc ≠ .initCallback
  | .storeQuit _ => s.pc ≠ .entering
  | _ => True

instance (s : State T F) (a : Act T F) : Decidable (Careful s a) := by
  cases a <;> unfold Careful <;> infer_instance

/-- A quit that is stored stays, and wakes the loop if it polls. -/
structure QuitKept (s : State T F) : Prop where
  before : s.pc = .initCallback ∨ s.pc = .entering →
    (∀ t, s.threads t ≠ .quitStored) ∧ s.quitReturned = false
  stored : ∀ t, s.threads t = .quitStored → s.bquit = true
  returned : s.quitReturned = true → s.bquit = true
  woken : s.pc = .polling → s.quitReturned = true → 0 < s.eventfd

theorem QuitKept.step [DecidableEq T] {s : State T F} {a : Act T F} (hs : QuitKept s)
    (hg : guard s a) (hc : ∀ t, a = .storeQuit t → s.pc ≠ .entering) : QuitKept (effect s a) := by
  obtain ⟨hbefore, hstored, hreturned, hwoken⟩ := hs
  cases a with
  | resetQuit =>
    -- no quit has been stored that this could undo
    obtain ⟨hnone, hnot⟩ := hbefore (.inr hg)
    refine ⟨by simp [effect], fun t ht => absurd ht (hnone t), fun h => ?_, by simp [effect]⟩
    exact absurd (h.symm.trans hnot) (by decide)
  | testQuit =>
    -- a stored quit ends the loop, so that it polls only without one
    have hpc : s.pc = .testing := hg
    refine ⟨fun h => ?_, hstored, hreturned, fun hpoll hret => ?_⟩
    · simp only [effect] at h
      split at h <;> simp at h
    · simp [effect, hreturned hret] at hpoll
  | storeQuit t =>
    refine ⟨fun h => ?_, fun _ _ => rfl, fun _ => rfl, hwoken⟩
    exact absurd h (not_or.mpr ⟨hg.1, hc t rfl⟩)
  | quitWakeup t =>
    refine ⟨fun h => absurd hg ((hbefore h).1 t), fun u hu => hstored t hg,
      fun _ => hstored t hg, fun _ _ => Nat.succ_pos _⟩
  | _ => constructor <;> simp only [guard, effect, State.push, State.wakeup] at * <;> grind

/-- Start-up loses nothing as long as the init callback queues nothing and
`quit` is called only when `loop` has reset `m_bquit`: in every state of such a
run, a loop that waits has no quit to see, and each pending functor has a thread
that will wake it. -/
theorem startup_loses_nothing [DecidableEq T] {s : State T F} {as : List (Act T F)}
    (hc : (machine T F .initCallback).Along Careful (.start .initCallback) as)
    (hr : (machine T F .initCallback).run (.start .initCallback) as = some s) : ¬Forgets s := by
  have hinv : Awake s ∧ QuitKept s := by
    refine Trans.Machine.run_invariant (I := fun s => Awake s ∧ QuitKept s) ?_ ?_ hc hr
    · rintro s a t ⟨hawake, hkept⟩ hcareful hstep
      obtain ⟨hg, rfl⟩ := Trans.Machine.guarded_step.mp hstep
      refine ⟨hawake.step hg ?_, hkept.step hg ?_⟩
      · rintro f rfl
        exact hcareful
      · rintro t rfl
        exact hcareful
    · exact ⟨Awake.start (.inl rfl), by constructor <;> simp [State.start]⟩
  obtain ⟨hawake, hkept⟩ := hinv
  rintro ⟨hpc, hzero, hquit | ⟨hpending, hthreads⟩⟩
  · exact Nat.ne_of_gt (hkept.woken hpc hquit) hzero
  · rcases hawake.polling_woken hpc hpending with hpos | ⟨t, ht⟩
    · exact Nat.ne_of_gt hpos hzero
    · exact hthreads t ht

/-- The owner queues a functor and quits, once the loop has started. -/
def lateQuit : List (Act Unit Nat) :=
  [.publish, .resetQuit, .push () 7, .testQuit, .wakeup (), .storeQuit (), .quitWakeup ()]

theorem lateQuit_loses_nothing :
    ∃ s, (machine Unit Nat .initCallback).run (.start .initCallback) lateQuit = some s ∧
      s.quitReturned = true ∧ s.pc = .polling ∧ ¬Forgets s := by
  have hrun : ((machine Unit Nat .initCallback).run (.start .initCallback) lateQuit).map
      (fun s => (s.quitReturned, s.pc)) = some (true, .polling) := by decide
  obtain ⟨s, hrun, hs⟩ := Option.map_eq_some_iff.mp hrun
  injection hs with hquit hpc
  exact ⟨s, hrun, hquit, hpc, startup_loses_nothing (by decide) hrun⟩

end EventLoop

end NetFrame
