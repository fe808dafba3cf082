import NetFrame.Lib.Progress
import NetFrame.Quitting

/-!
# How a quit ends the loop

What is left to `EventLoop::loop` once `m_bquit` is set, after `loop` has reset it: the
iteration that it is in.

Results:
1. `quit_bounded`: from then on `loop` polls and swaps at most once more, and after the
   swap runs no functor that is not in `tmpFunctors`, whatever the functors queue.
2. `quit_ends`: its own steps lead the loop's thread out of `loop`, in a number that the
   functors in its two vectors bound.
-/

namespace NetFrame

namespace EventLoop

variable {T F : Type}

/-! ## 1. What is left of the iteration -/

/-- `PollEvent` returns. -/
def Act.isPoll : Act T F → Bool
  | .pollReturn _ => true
  | _ => false

def Act.isSwap : Act T F → Bool
  | .swap => true
  | _ => false

def Act.runsFunctor : Act T F → Bool
  | .runFunctor => true
  | _ => false

/-- `loop` has reset `m_bquit`, and `quit` has set it. -/
structure Quits (s : State T F) : Prop where
  bquit : s.bquit = true
  entered : s.pc ≠ .initCallback ∧ s.pc ≠ .entering

def State.pollsLeft (s : State T F) : Nat := if s.pc = .polling then 1 else 0

def State.swapsLeft (s : State T F) : Nat := if s.SwapComing then 1 else 0

section

variable [DecidableEq T] {s t : State T F} {a : Act T F} {pc : LoopPc}

theorem Quits.step (hs : Quits s) (hg : guard s a) : Quits (effect s a) := by
  obtain ⟨hquit, hinit, hentering⟩ := hs
  refine ⟨?_, ?_⟩
  · cases a <;> simp only [guard, effect, State.push, State.wakeup] at * <;> grind
  · cases a <;> simp only [guard, effect, State.push, State.wakeup] at * <;> grind

theorem pollsLeft_step (hs : Quits s) (hg : guard s a) :
    (effect s a).pollsLeft + (if a.isPoll then 1 else 0) ≤ s.pollsLeft := by
  obtain ⟨hquit, hinit, hentering⟩ := hs
  cases a <;> simp only [guard, effect, State.pollsLeft, Act.isPoll, State.push, State.wakeup]
    at * <;> grind

theorem swapsLeft_step (hs : Quits s) (hg : guard s a) :
    (effect s a).swapsLeft + (if a.isSwap then 1 else 0) ≤ s.swapsLeft := by
  obtain ⟨hquit, hinit, hentering⟩ := hs
  cases a <;> simp only [guard, effect, State.swapsLeft, State.SwapComing, Act.isSwap,
    State.push, State.wakeup] at * <;> grind

/-- After the swap a functor that is run leaves `tmpFunctors`, which no push fills. -/
theorem tmpFunctors_step (hs : Quits s) (hcoming : ¬s.SwapComing) (hg : guard s a) :
    ¬(effect s a).SwapComing ∧
      (effect s a).tmpFunctors.length + (if a.runsFunctor then 1 else 0) ≤
        s.tmpFunctors.length := by
  obtain ⟨hquit, hinit, hentering⟩ := hs
  constructor
  · cases a <;> simp only [guard, effect, State.SwapComing, State.push, State.wakeup] at * <;>
      grind
  · cases a with
    | runFunctor =>
      obtain ⟨-, hne⟩ := hg
      cases htmp : s.tmpFunctors with
      | nil => simp [htmp] at hne
      | cons q rest => simp [effect, htmp, Act.runsFunctor]
    | swap => exact absurd (.inr (.inr (.inr (.inr (.inr hg))))) hcoming
    | _ => exact Nat.le_refl _

/-- Once `m_bquit` is set, after `loop` has reset it, every continuation has at most one more
return of `PollEvent` and one more swap; and after the swap, no functor is run that was not
in `tmpFunctors`, so that functors which queue functors do not keep the loop running. -/
theorem quit_bounded {as : List (Act T F)} (hquit : s.bquit = true)
    (hentered : s.pc ≠ .initCallback ∧ s.pc ≠ .entering)
    (hrun : (machine T F pc).run s as = some t) :
    as.countP Act.isPoll ≤ 1 ∧ as.countP Act.isSwap ≤ 1 ∧
      (¬s.SwapComing → as.countP Act.runsFunctor ≤ s.tmpFunctors.length) := by
  have hs : Quits s := ⟨hquit, hentered⟩
  refine ⟨?_, ?_, fun hcoming => ?_⟩
  · have hcount := Trans.Machine.countP_le_rank State.pollsLeft Act.isPoll (fun s a t hs h => by
      obtain ⟨hg, rfl⟩ := Trans.Machine.guarded_step.mp h
      exact ⟨hs.step hg, pollsLeft_step hs hg⟩) hs hrun
    refine Nat.le_trans hcount ?_
    unfold State.pollsLeft
    split <;> decide
  · have hcount := Trans.Machine.countP_le_rank State.swapsLeft Act.isSwap (fun s a t hs h => by
      obtain ⟨hg, rfl⟩ := Trans.Machine.guarded_step.mp h
      exact ⟨hs.step hg, swapsLeft_step hs hg⟩) hs hrun
    refine Nat.le_trans hcount ?_
    unfold State.swapsLeft
    split <;> decide
  · exact Trans.Machine.countP_le_rank (I := fun s => Quits s ∧ ¬s.SwapComing)
      (fun s => s.tmpFunctors.length) Act.runsFunctor (fun s a t hs h => by
        obtain ⟨hg, rfl⟩ := Trans.Machine.guarded_step.mp h
        obtain ⟨hafter, hle⟩ := tmpFunctors_step hs.1 hs.2 hg
        exact ⟨⟨hs.1.step hg, hafter⟩, hle⟩) ⟨hs, hcoming⟩ hrun

/-! ## 2. The way out -/

/-- A step of the loop's thread that is not user code. -/
def Act.ofLoop : Act T F → Bool
  | .testQuit | .pollReturn _ | .handleRead | .setCalling | .swap | .runFunctor
  | .functorReturns | .clearCalling | .readCalling | .loopWakeup => true
  | _ => false

/-- The steps to the end of `loop` from each place in the iteration. -/
def State.stepsLeft (s : State T F) : Nat :=
  (match s.call with
    | .none => 0
    | .mustWake => 1
    | .pushed => 2) +
  (match s.pc with
    | .exited => 0
    | .testing => 1
    | .running => 2 + 2 * s.tmpFunctors.length
    | .inFunctor => 3 + 2 * s.tmpFunctors.length
    | .swapping => 3 + 2 * s.pendingFuntors.length
    | .handling false => 4 + 2 * s.pendingFuntors.length
    | _ => 5 + 2 * s.pendingFuntors.length)

theorem Quits.progress (hs : Quits s) (hexit : s.pc ≠ .exited) :
    ∃ a, Act.ofLoop a = true ∧ guard s a ∧
      (effect s a).stepsLeft < s.stepsLeft := by
  obtain ⟨hquit, hinit, hentering⟩ := hs
  cases hcall : s.call with
  | pushed =>
    refine ⟨.readCalling, rfl, hcall, ?_⟩
    cases hflag : s.callingPendingFunctors <;>
      simp [State.stepsLeft, effect, hcall, hflag]
  | mustWake =>
    exact ⟨.loopWakeup, rfl, hcall, by simp [State.stepsLeft, effect, State.wakeup, hcall]⟩
  | none =>
    cases hpc : s.pc with
    | initCallback => exact absurd hpc hinit
    | entering => exact absurd hpc hentering
    | exited => exact absurd hpc hexit
    | testing => exact ⟨.testQuit, rfl, hpc, by simp [State.stepsLeft, effect, hcall, hpc, hquit]⟩
    | polling =>
      exact ⟨.pollReturn false, rfl, ⟨hpc, by simp⟩, by
        simp [State.stepsLeft, effect, hcall, hpc]⟩
    | handling wake =>
      cases wake with
      | false => exact ⟨.setCalling, rfl, ⟨hpc, hcall⟩, by
          simp [State.stepsLeft, effect, hcall, hpc]⟩
      | true => exact ⟨.handleRead, rfl, ⟨hpc, hcall⟩, by
          simp [State.stepsLeft, effect, hcall, hpc]⟩
    | swapping => exact ⟨.swap, rfl, hpc, by simp [State.stepsLeft, effect, hcall, hpc]⟩
    | running =>
      cases htmp : s.tmpFunctors with
      | nil =>
        exact ⟨.clearCalling, rfl, ⟨hpc, by rw [htmp]; rfl⟩, by
          simp [State.stepsLeft, effect, hcall, hpc, htmp]⟩
      | cons q rest =>
        refine ⟨.runFunctor, rfl, ⟨hpc, by rw [htmp]; rfl⟩, ?_⟩
        simp [State.stepsLeft, effect, hcall, hpc, htmp]
        omega
    | inFunctor =>
      exact ⟨.functorReturns, rfl, ⟨hpc, hcall⟩, by simp [State.stepsLeft, effect, hcall, hpc]⟩

omit [DecidableEq T] in
theorem stepsLeft_le (s : State T F) :
    s.stepsLeft ≤ 7 + 2 * (s.tmpFunctors.length + s.pendingFuntors.length) := by
  have hcall : (match s.call with
      | .none => 0
      | .mustWake => 1
      | .pushed => 2) ≤ 2 := by
    split <;> decide
  unfold State.stepsLeft
  split at hcall <;> split <;> omega

/-- `loop` returns after a quit: whenever `m_bquit` is set, steps of the loop's own
thread lead out of `loop`, at most two for each functor in its two vectors and seven
more, and no other thread is needed. -/
theorem quit_ends (pc : LoopPc) (hquit : s.bquit = true)
    (hentered : s.pc ≠ .initCallback ∧ s.pc ≠ .entering) :
    ∃ as t, (∀ a ∈ as, Act.ofLoop a = true) ∧
      as.length ≤ 7 + 2 * (s.tmpFunctors.length + s.pendingFuntors.length) ∧
      (machine T F pc).run s as = some t ∧ t.pc = .exited := by
  obtain ⟨as, t, hown, hlen, hrun, -, hexit⟩ := Trans.Machine.reaches (M := machine T F pc)
    (I := Quits) (G := fun s => s.pc = .exited) (P := fun a => Act.ofLoop a = true)
    State.stepsLeft (fun s hs hnot => by
      obtain ⟨a, hown, hg, hlt⟩ := hs.progress hnot
      exact ⟨a, _, hown, Trans.Machine.guarded_step.mpr ⟨hg, rfl⟩, hs.step hg, hlt⟩)
    (s := s) ⟨hquit, hentered⟩
  exact ⟨as, t, hown, Nat.le_trans hlen (stepsLeft_le s), hrun, hexit⟩

/-- A functor that queues itself runs for the second time when another thread quits. -/
def requeueQuit : List (Act Unit Nat) :=
  [.resetQuit, .push () 7, .wakeup (), .testQuit, .pollReturn true, .handleRead, .setCalling,
    .swap, .runFunctor, .storeQuit (), .loopPush 7]

/-- What follows until `loop` returns. -/
def requeueRest : List (Act Unit Nat) :=
  [.readCalling, .loopWakeup, .functorReturns, .quitWakeup (), .clearCalling, .testQuit]

theorem requeueQuit_runs : ∃ s,
    (machine Unit Nat .entering).run (.start .entering) requeueQuit = some s ∧
    s.bquit = true ∧ s.pc = .inFunctor ∧ s.tmpFunctors = [] ∧ s.pendingFuntors.length = 1 :=
  ⟨_, rfl, rfl, rfl, rfl, rfl⟩

theorem requeueQuit_bounded : ∃ s t,
    (machine Unit Nat .entering).run (.start .entering) requeueQuit = some s ∧
    (machine Unit Nat .entering).run s requeueRest = some t ∧ t.pc = .exited ∧
    requeueRest.countP Act.isPoll ≤ 1 ∧ requeueRest.countP Act.isSwap ≤ 1 ∧
    (¬s.SwapComing → requeueRest.countP Act.runsFunctor ≤ s.tmpFunctors.length) := by
  obtain ⟨s, hrun, hquit, hpc, -⟩ := requeueQuit_runs
  have hexits : (((machine Unit Nat .entering).run (.start .entering) requeueQuit).bind fun s =>
      (machine Unit Nat .entering).run s requeueRest).map State.pc = some .exited := rfl
  rw [hrun, Option.bind_some] at hexits
  obtain ⟨t, hrest, hexit⟩ := Option.map_eq_some_iff.mp hexits
  exact ⟨s, t, hrun, hrest, hexit, quit_bounded hquit (by rw [hpc]; decide) hrest⟩

theorem requeueQuit_ends : ∃ s as t,
    (machine Unit Nat .entering).run (.start .entering) requeueQuit = some s ∧
    (∀ a ∈ as, Act.ofLoop a = true) ∧ as.length ≤ 9 ∧
    (machine Unit Nat .entering).run s as = some t ∧ t.pc = .exited := by
  obtain ⟨s, hrun, hquit, hpc, htmp, hpending⟩ := requeueQuit_runs
  obtain ⟨as, t, hown, hlen, hends⟩ := quit_ends (s := s) .entering hquit (by rw [hpc]; decide)
  rw [htmp, hpending] at hlen
  exact ⟨s, as, t, hrun, hown, hlen, hends⟩

end

end EventLoop

end NetFrame
