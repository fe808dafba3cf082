import NetFrame.Lib.Machine
import Mathlib.Algebra.GroupWithZero.Nat

/-!
# Progress by a rank

A machine gets to a goal when each state that is not there yet has a step to a
state of lower rank. Where every step lowers the rank but for a known cost, the
steps of a run are as many as the rank and the costs allow; and where it does so
until a goal is reached, so are those of a run that does not visit the goal.
-/

namespace Trans

namespace Machine

variable {σ α : Type*} {M : Machine σ α}

/-- The progress rule: the goal is reached by steps that satisfy `P`, in at most
as many as the rank. -/
theorem reaches {I G : σ → Prop} {P : α → Prop} (rank : σ → Nat)
    (hstep : ∀ s, I s → ¬G s → ∃ a t, P a ∧ M.step s a = some t ∧ I t ∧ rank t < rank s)
    {s : σ} (hs : I s) :
    ∃ as t, (∀ a ∈ as, P a) ∧ as.length ≤ rank s ∧ M.run s as = some t ∧ I t ∧ G t := by
  induction hn : rank s using Nat.strongRecOn generalizing s with
  | ind n ih =>
    by_cases hG : G s
    · exact ⟨[], s, by simp, Nat.zero_le _, rfl, hs, hG⟩
    · obtain ⟨a, t, hPa, hstep, ht, hlt⟩ := hstep s hs hG
      obtain ⟨as, u, hP, hlen, hrun, hu, hGu⟩ := ih (rank t) (hn ▸ hlt) ht rfl
      refine ⟨a :: as, u, ?_, ?_, ?_, hu, hGu⟩
      · intro b hb
        rcases List.mem_cons.mp hb with rfl | hb
        · exact hPa
        · exact hP b hb
      · rw [List.length_cons, ← hn]
        exact Nat.lt_of_le_of_lt hlen hlt
      · rw [run_cons, hstep, Option.bind_some, hrun]

/-- The steps of a run that move, when these lower the rank and each step may
raise it by its cost. -/
theorem countP_le {I : σ → Prop} (rank : σ → Nat) (moves : α → Bool) (cost : α → Nat)
    (hstep : ∀ s a t, I s → M.step s a = some t →
      I t ∧ rank t + (if moves a then 1 else 0) ≤ rank s + cost a)
    {s t : σ} {as : List α} (hs : I s) (hr : M.run s as = some t) :
    as.countP moves + rank t ≤ rank s + (as.map cost).sum := by
  induction as generalizing s with
  | nil =>
    cases hr
    simp
  | cons a as ih =>
    obtain ⟨u, hsu, hut⟩ := M.run_cons_some hr
    obtain ⟨hu, hrank⟩ := hstep s a u hs hsu
    have hrest := ih hu hut
    rw [List.countP_cons, List.map_cons, List.sum_cons]
    omega

/-- The steps of a run that move, when these lower the rank and no step raises it. -/
theorem countP_le_rank {I : σ → Prop} (rank : σ → Nat) (moves : α → Bool)
    (hstep : ∀ s a t, I s → M.step s a = some t →
      I t ∧ rank t + (if moves a then 1 else 0) ≤ rank s)
    {s t : σ} {as : List α} (hs : I s) (hr : M.run s as = some t) :
    as.countP moves ≤ rank s := by
  have hcount := countP_le rank moves (fun _ => 0) hstep hs hr
  have hzero : (as.map fun _ => 0).sum = 0 := by
    clear hcount hr
    induction as with
    | nil => rfl
    | cons a as ih => rw [List.map_cons, List.sum_cons, ih]
  rw [hzero] at hcount
  exact Nat.le_trans (Nat.le_add_right _ _) hcount

/-- The waiting rule: along the steps that meet `C`, those that move are at most as
many as the rank, unless the run visits the goal. -/
theorem countP_le_until {I G : σ → Prop} {C : σ → α → Prop} (rank : σ → Nat) (moves : α → Bool)
    (hstep : ∀ s a t, I s → C s a → M.step s a = some t →
      G t ∨ I t ∧ rank t + (if moves a then 1 else 0) ≤ rank s)
    {s t : σ} {as : List α} (hs : I s) (hc : M.Along C s as) (hr : M.run s as = some t) :
    (∃ bs u, bs <+: as ∧ M.run s bs = some u ∧ G u) ∨
      I t ∧ as.countP moves + rank t ≤ rank s := by
  induction as generalizing s with
  | nil =>
    cases hr
    exact .inr ⟨hs, by simp⟩
  | cons a as ih =>
    obtain ⟨u, hsu, hut⟩ := M.run_cons_some hr
    rcases hstep s a u hs hc.1 hsu with hG | ⟨hu, hrank⟩
    · exact .inl ⟨[a], u, ⟨as, rfl⟩, by rw [run_singleton, hsu], hG⟩
    · rcases ih hu (hc.2 u hsu) hut with ⟨bs, v, ⟨cs, rfl⟩, hrun, hG⟩ | ⟨ht, hcount⟩
      · exact .inl ⟨a :: bs, v, ⟨cs, rfl⟩, by rw [run_cons, hsu, Option.bind_some, hrun], hG⟩
      · rw [List.countP_cons]
        exact .inr ⟨ht, by omega⟩

end Machine

end Trans
