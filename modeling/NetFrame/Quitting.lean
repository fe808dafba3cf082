import NetFrame.EventLoop

/-!
# Quitting an EventLoop

What becomes of the functors that are pending when `quit` sets `m_bquit`.

Results:
1. `quit_drops_functor`: a functor that is pushed after the swap of an iteration,
   right before a quit, never runs.
2. `quit_runs_pushed_iff`: every functor that is pushed before a quit runs before
   `loop` returns, in exactly those runs in which no quit comes between the swap
   of an iteration and its test of `m_bquit` with functors pending.
-/

namespace NetFrame

namespace EventLoop

variable {T F : Type}

/-! ## 1. Quits -/

/-- In this step `quit` sets `m_bquit`. -/
def SetsQuit (s : State T F) : Act T F → Prop
  | .loopQuit | .storeQuit _ => s.bquit = false
  | _ => False

def Act.storesQuit : Act T F → Bool
  | .loopQuit | .storeQuit _ => true
  | _ => false

instance (s : State T F) (a : Act T F) : Decidable (SetsQuit s a) :=
  decidable_of_iff (a.storesQuit = true ∧ s.bquit = false) (by
    cases a <;> simp [SetsQuit, Act.storesQuit])

/-- The loop will swap before it tests `m_bquit` again. -/
def State.SwapComing (s : State T F) : Prop :=
  s.pc = .initCallback ∨ s.pc = .entering ∨ s.pc = .polling ∨ s.pc = .handling true ∨
    s.pc = .handling false ∨ s.pc = .swapping

instance (s : State T F) : Decidable s.SwapComing := inferInstanceAs (Decidable (_ ∨ _))

/-- Every functor whose push came before a quit that set `m_bquit` in the run of
`as` has been executed. -/
def RunsPushed [DecidableEq T] (pc : LoopPc) (as : List (Act T F)) (s : State T F) : Prop :=
  ∀ bs a cs u, as = bs ++ a :: cs → (machine T F pc).run (.start pc) bs = some u → SetsQuit u a →
    u.pushed <+: s.executed.map Prod.fst

/-- Another thread queues a functor and quits while a batch is running. -/
def quitInBatch : List (Act Unit Nat) :=
  [.resetQuit, .testQuit, .pollReturn false, .setCalling, .swap, .push () 7, .wakeup (),
    .storeQuit (), .clearCalling, .testQuit]

theorem quit_drops_functor :
    ∃ s, (machine Unit Nat .entering).run (.start .entering) quitInBatch = some s ∧
      s.pc = .exited ∧ s.executed = [] ∧ s.pendingFuntors = [⟨7, 1, true⟩] ∧
      ¬RunsPushed .entering quitInBatch s := by
  refine ⟨_, rfl, rfl, rfl, rfl, fun hruns => ?_⟩
  have hprefix := hruns (quitInBatch.take 7) (.storeQuit ()) (quitInBatch.drop 8) _ rfl rfl rfl
  exact absurd hprefix.length_le (by decide)

/-! ## 2. The functors that the loop has taken -/

/-- The functors that have left the queue. -/
def State.taken (s : State T F) : List (Queued F) := s.executed.map Prod.fst ++ s.tmpFunctors

/-- The loop in every run: the queue is a pipe, `tmpFunctors` lives in a batch
only, and `loop` returns after a quit only. -/
structure Looping (s : State T F) : Prop where
  conserved : s.taken ++ s.pendingFuntors = s.pushed
  drained : Drained s
  exited : s.pc = .exited → s.bquit = true

section

variable [DecidableEq T] {s t : State T F} {a : Act T F}

theorem Looping.exited_step (hs : s.pc = .exited → s.bquit = true) (hg : guard s a) :
    (effect s a).pc = .exited → (effect s a).bquit = true := by
  cases a <;> simp only [guard, effect, State.push, State.wakeup] at * <;> grind

theorem Looping.reachable {pc : LoopPc} (hpc : pc ≠ .exited)
    (hs : (machine T F pc).Reachable s) : Looping s := by
  refine ⟨?_, (refines_queue pc).invariant hs, ?_⟩
  · have hqueue : (queue s).Conserved := Pipe.conserved ((refines_queue pc).reachable hs)
    rw [State.taken, List.append_assoc]
    exact hqueue
  · refine Trans.Machine.reachable_invariant (I := fun s => s.pc = .exited → s.bquit = true)
      ?_ ?_ hs
    · rintro s rfl hexit
      exact absurd hexit hpc
    · intro s a t hs ht
      obtain ⟨hg, rfl⟩ := Trans.Machine.guarded_step.mp ht
      exact Looping.exited_step hs hg

/-- A swap empties the queue. -/
theorem taken_swap (hs : Looping s) (hg : guard s .swap) :
    (effect s .swap).taken = s.pushed := by
  have htmp : s.tmpFunctors = [] := hs.drained (by simp [State.InBatch, show s.pc = _ from hg])
  simpa [State.taken, htmp, effect] using hs.conserved

/-- The other steps take no functor from the queue. -/
theorem taken_eq (ha : a ≠ .swap) (hg : guard s a) : (effect s a).taken = s.taken := by
  cases a with
  | swap => exact absurd rfl ha
  | runFunctor =>
    obtain ⟨-, hne⟩ := hg
    cases htmp : s.tmpFunctors with
    | nil => simp [htmp] at hne
    | cons q rest => simp [State.taken, effect, htmp]
  | _ => rfl

theorem pushed_prefix : s.pushed <+: (effect s a).pushed := by
  cases a with
  | loopPush f => exact List.prefix_append _ _
  | push t f => exact List.prefix_append _ _
  | _ => exact List.prefix_refl _

/-- The functors `q` will have left the queue when `loop` returns. -/
structure Due (q : List (Queued F)) (s : State T F) : Prop where
  pushed : q <+: s.pushed
  taken : s.bquit = true → s.SwapComing ∨ q <+: s.taken

/-- A quit is heard when the loop has still to swap, or has nothing to swap. -/
def Heard (s : State T F) (a : Act T F) : Prop :=
  SetsQuit s a → s.pendingFuntors = [] ∨ s.SwapComing

instance [DecidableEq F] (s : State T F) (a : Act T F) : Decidable (Heard s a) :=
  inferInstanceAs (Decidable (_ → _))

omit [DecidableEq T] in
theorem Looping.taken_of_idle (hs : Looping s) (hidle : s.pendingFuntors = []) :
    s.taken = s.pushed := by
  rw [← hs.conserved, hidle, List.append_nil]

omit [DecidableEq T] in
/-- A quit that is heard leaves no functor behind. -/
theorem Due.quit {q : List (Queued F)} (hs : Looping s) (hdue : Due q s)
    (hheard : s.bquit = false → s.pendingFuntors = [] ∨ s.SwapComing) :
    s.SwapComing ∨ q <+: s.taken := by
  cases hquit : s.bquit with
  | true => exact hdue.taken hquit
  | false =>
    rcases hheard hquit with hidle | hcoming
    · exact .inr (hs.taken_of_idle hidle ▸ hdue.pushed)
    · exact .inl hcoming

theorem Due.step {q : List (Queued F)} (hs : Looping s) (hdue : Due q s) (hheard : Heard s a)
    (hg : guard s a) : Due q (effect s a) := by
  refine ⟨hdue.pushed.trans pushed_prefix, fun hquit => ?_⟩
  cases a with
  | swap => exact .inr (taken_swap hs hg ▸ hdue.pushed)
  | resetQuit => cases hquit
  | publish => exact .inl (.inr (.inl rfl))
  | pollReturn wake => cases wake <;> simp [State.SwapComing, effect]
  | handleRead => simp [State.SwapComing, effect]
  | setCalling => simp [State.SwapComing, effect]
  | loopQuit =>
    have hkept : s.SwapComing ∨ q <+: s.taken := hdue.quit hs hheard
    exact hkept
  | storeQuit t =>
    have hkept : s.SwapComing ∨ q <+: s.taken := hdue.quit hs hheard
    exact hkept
  | testQuit =>
    -- the loop has swapped since the test before
    refine .inr ((hdue.taken hquit).resolve_left ?_)
    simp [State.SwapComing, show s.pc = .testing from hg]
  | runFunctor =>
    rw [taken_eq (by simp) hg]
    exact .inr ((hdue.taken hquit).resolve_left (by simp [State.SwapComing, hg.1]))
  | functorReturns =>
    exact .inr ((hdue.taken hquit).resolve_left (by simp [State.SwapComing, hg.1]))
  | clearCalling => exact .inr ((hdue.taken hquit).resolve_left (by simp [State.SwapComing, hg.1]))
  | _ => exact hdue.taken hquit

/-- The functors `q` are left when `loop` returns. -/
structure Missed (q : List (Queued F)) (s : State T F) : Prop where
  bquit : s.bquit = true
  pc : s.pc = .testing ∨ s.InBatch ∨ s.pc = .exited
  taken : s.taken = q

theorem Missed.step {q : List (Queued F)} (hs : Missed q s) (hg : guard s a) :
    Missed q (effect s a) := by
  obtain ⟨hquit, hpc, htaken⟩ := hs
  have hswap : a ≠ .swap := by
    rintro rfl
    simp [State.InBatch, show s.pc = .swapping from hg] at hpc
  refine ⟨?_, ?_, (taken_eq hswap hg).trans htaken⟩
  · cases a <;> simp only [guard, effect, State.InBatch, State.push, State.wakeup] at * <;> grind
  · cases a <;> simp only [guard, effect, State.InBatch, State.push, State.wakeup] at * <;> grind

/-- A quit that is not heard. -/
theorem Missed.quit (hs : Looping s) (hg : guard s a) (hsets : SetsQuit s a)
    (hcoming : ¬s.SwapComing) : Missed s.taken (effect s a) := by
  have hpc : s.pc = .testing ∨ s.InBatch := by
    have hexit : s.pc ≠ .exited := by
      intro hexit
      have hquit := hs.exited hexit
      unfold SetsQuit at hsets
      split at hsets <;> simp_all
    unfold State.SwapComing at hcoming
    unfold State.InBatch
    cases hs : s.pc with
    | handling wake => cases wake <;> simp [hs] at hcoming
    | _ => simp_all
  cases a with
  | loopQuit => exact ⟨rfl, hpc.imp_right .inl, rfl⟩
  | storeQuit t => exact ⟨rfl, hpc.imp_right .inl, rfl⟩
  | _ => exact hsets.elim

/-! ## 3. Every run -/

/-- When `loop` has returned, the functors that were pushed before a quit have
run, in exactly those runs in which each quit comes before the swap of the
current iteration or finds no functor pending. -/
theorem quit_runs_pushed_iff {pc : LoopPc} {as : List (Act T F)}
    (hpc : pc = .initCallback ∨ pc = .entering)
    (hrun : (machine T F pc).run (.start pc) as = some s) (hexit : s.pc = .exited) :
    RunsPushed pc as s ↔ (machine T F pc).Along Heard (.start pc) as := by
  have hne : pc ≠ .exited := by rcases hpc with rfl | rfl <;> decide
  have hfinal := Looping.reachable hne ⟨_, as, rfl, hrun⟩
  have htaken : s.taken = s.executed.map Prod.fst := by
    rw [State.taken, hfinal.drained (by simp [State.InBatch, hexit]), List.append_nil]
  constructor
  · intro hruns
    refine Trans.Machine.along_iff.mpr fun bs a cs u heq hu hsets => ?_
    by_contra hunheard
    obtain ⟨hpending, hcoming⟩ := not_or.mp hunheard
    have hlooping := Looping.reachable hne ⟨_, bs, rfl, hu⟩
    have hprefix := hruns bs a cs u heq hu hsets
    rw [heq, Trans.Machine.run_append, hu, Option.bind_some] at hrun
    obtain ⟨v, hstep, hrest⟩ := (machine T F pc).run_cons_some hrun
    obtain ⟨hg, rfl⟩ := Trans.Machine.guarded_step.mp hstep
    -- the functors in the queue stay there until the loop has returned
    have hmissed : Missed u.taken s := by
      refine Trans.Machine.run_invariant (C := fun _ _ => True) ?_
        (Missed.quit hlooping hg hsets hcoming) (Trans.Machine.along_true _ _) hrest
      intro v a w hv _ hstep
      obtain ⟨hg, rfl⟩ := Trans.Machine.guarded_step.mp hstep
      exact hv.step hg
    rw [← htaken, hmissed.taken, ← hlooping.conserved] at hprefix
    have hlength := hprefix.length_le
    rw [List.length_append] at hlength
    exact hpending (List.eq_nil_of_length_eq_zero (by omega))
  · rintro hheard bs a cs u rfl hu hsets
    have hrest := hheard.after hu
    rw [Trans.Machine.run_append, hu, Option.bind_some] at hrun
    have hdue : Due u.pushed u := by
      refine ⟨List.prefix_refl _, fun hquit => ?_⟩
      unfold SetsQuit at hsets
      split at hsets <;> simp_all
    have hend : (machine T F pc).Reachable s ∧ Due u.pushed s := by
      refine Trans.Machine.run_invariant
        (I := fun v => (machine T F pc).Reachable v ∧ Due u.pushed v) ?_
        ⟨⟨_, bs, rfl, hu⟩, hdue⟩ hrest hrun
      rintro v a w ⟨hv, hdue⟩ hheard hstep
      have hw := hv.step hstep
      obtain ⟨hg, rfl⟩ := Trans.Machine.guarded_step.mp hstep
      exact ⟨hw, hdue.step (.reachable hne hv) hheard hg⟩
    rw [← htaken]
    refine (hend.2.taken (hfinal.exited hexit)).resolve_left ?_
    simp [State.SwapComing, hexit]

/-- Another thread quits before the swap, and the functor that it has queued
queues one that is left. -/
def lastRound : List (Act Unit Nat) :=
  [.publish, .resetQuit, .push () 7, .wakeup (), .testQuit, .pollReturn true, .storeQuit (),
    .handleRead, .setCalling, .swap, .quitWakeup (), .runFunctor, .loopPush 8, .readCalling,
    .loopWakeup, .functorReturns, .clearCalling, .testQuit]

theorem lastRound_runs_pushed :
    ∃ s, (machine Unit Nat .initCallback).run (.start .initCallback) lastRound = some s ∧
      s.executed.map (fun x => x.1.functor) = [7] ∧
      s.pendingFuntors.map Queued.functor = [8] ∧ RunsPushed .initCallback lastRound s :=
  ⟨_, rfl, rfl, rfl, (quit_runs_pushed_iff (.inl rfl) rfl rfl).mpr (by decide)⟩

end

end EventLoop

end NetFrame
