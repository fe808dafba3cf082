import NetFrame.Lib.Machine
import Mathlib.Data.List.Nodup
import Mathlib.Logic.Function.Basic

/-!
# Numbered tickets

The purpose of an id generator: a client takes the next number of a key, and
uses it once or drops it.

Result:
`Tickets.used_nodup`: no ticket is used twice.
-/

/-- For each key the last number given out, for each client the ticket it holds,
and the tickets that have been used. -/
@[ext]
structure Tickets (κ ι : Type*) where
  count : κ → Nat
  held : ι → Option (κ × Nat)
  used : List (κ × Nat)

namespace Tickets

inductive Act (κ ι : Type*) where
  | take (i : ι) (k : κ)
  | use (i : ι)
  | drop (i : ι)

variable {κ ι : Type*} [DecidableEq κ] [DecidableEq ι]

/-- A client that takes a ticket gives up the one it holds. -/
def step (s : Tickets κ ι) : Act κ ι → Option (Tickets κ ι)
  | .take i k => some { s with
      count := Function.update s.count k (s.count k + 1)
      held := Function.update s.held i (some (k, s.count k + 1)) }
  | .use i => (s.held i).map fun t =>
      { s with held := Function.update s.held i none, used := s.used ++ [t] }
  | .drop i => some { s with held := Function.update s.held i none }

def machine (κ ι : Type*) [DecidableEq κ] [DecidableEq ι] :
    Trans.Machine (Tickets κ ι) (Act κ ι) where
  init := fun s => (∀ i, s.held i = none) ∧ s.used = []
  step := step

/-- Tickets have been given out, and each is at one place only. -/
structure Inv (s : Tickets κ ι) : Prop where
  held_le : ∀ i t, s.held i = some t → t.2 ≤ s.count t.1
  used_le : ∀ t ∈ s.used, t.2 ≤ s.count t.1
  distinct : ∀ i j t, s.held i = some t → s.held j = some t → i = j
  unused : ∀ i t, s.held i = some t → t ∉ s.used
  nodup : s.used.Nodup

variable {s t : Tickets κ ι}

omit [DecidableEq κ] in
/-- Fewer clients hold a ticket. -/
theorem Inv.drop (hs : Inv s) (i : ι) :
    Inv { s with held := Function.update s.held i none } := by
  have hkept : ∀ {j t}, Function.update s.held i none j = some t → s.held j = some t := by
    intro j t hj
    by_cases hji : j = i
    · subst hji
      simp at hj
    · rwa [Function.update_of_ne hji] at hj
  exact ⟨fun j t hj => hs.held_le j t (hkept hj), hs.used_le,
    fun j j' t hj hj' => hs.distinct j j' t (hkept hj) (hkept hj'),
    fun j t hj => hs.unused j t (hkept hj), hs.nodup⟩

/-- The number that is taken is new. -/
theorem Inv.take (hs : Inv s) (i : ι) (k : κ) :
    Inv { s with
      count := Function.update s.count k (s.count k + 1)
      held := Function.update s.held i (some (k, s.count k + 1)) } := by
  have hle : ∀ t : κ × Nat, t.2 ≤ s.count t.1 →
      t.2 ≤ Function.update s.count k (s.count k + 1) t.1 := by
    intro t ht
    by_cases hk : t.1 = k
    · rw [hk, Function.update_self]
      exact Nat.le_succ_of_le (hk ▸ ht)
    · rwa [Function.update_of_ne hk]
  have hnew : ∀ t : κ × Nat, t.2 ≤ s.count t.1 → t ≠ (k, s.count k + 1) := by
    rintro t ht rfl
    exact absurd ht (Nat.not_succ_le_self _)
  have hheld : ∀ {j t}, Function.update s.held i (some (k, s.count k + 1)) j = some t →
      j = i ∧ t = (k, s.count k + 1) ∨ j ≠ i ∧ s.held j = some t := by
    intro j t hj
    by_cases hji : j = i
    · subst hji
      rw [Function.update_self] at hj
      exact .inl ⟨rfl, (Option.some.inj hj).symm⟩
    · rw [Function.update_of_ne hji] at hj
      exact .inr ⟨hji, hj⟩
  refine ⟨fun j t hj => ?_, fun t ht => hle t (hs.used_le t ht), fun j j' t hj hj' => ?_,
    fun j t hj ht => ?_, hs.nodup⟩
  · rcases hheld hj with ⟨-, rfl⟩ | ⟨-, hj⟩
    · simp
    · exact hle t (hs.held_le j t hj)
  · rcases hheld hj with ⟨hji, ht⟩ | ⟨-, hold⟩ <;>
      rcases hheld hj' with ⟨hji', ht'⟩ | ⟨-, hold'⟩
    · exact hji.trans hji'.symm
    · exact absurd ht (hnew t (hs.held_le j' t hold'))
    · exact absurd ht' (hnew t (hs.held_le j t hold))
    · exact hs.distinct j j' t hold hold'
  · rcases hheld hj with ⟨-, rfl⟩ | ⟨-, hold⟩
    · exact hnew _ (hs.used_le _ ht) rfl
    · exact hs.unused j t hold ht

theorem Inv.step {a : Act κ ι} (hs : Inv s) (h : step s a = some t) : Inv t := by
  cases a with
  | take i k =>
    cases h
    exact hs.take i k
  | drop i =>
    cases h
    exact hs.drop i
  | use i =>
    obtain ⟨x, hx, rfl⟩ := Option.map_eq_some_iff.mp h
    have hdropped := hs.drop i
    refine ⟨hdropped.held_le, fun y hy => ?_, hdropped.distinct, fun j y hj hy => ?_, ?_⟩
    · rcases List.mem_append.mp hy with hy | hy
      · exact hs.used_le y hy
      · cases List.mem_singleton.mp hy
        exact hs.held_le i x hx
    · rcases List.mem_append.mp hy with hy | hy
      · exact hdropped.unused j y hj hy
      · -- only `i` has held the ticket
        cases List.mem_singleton.mp hy
        replace hj : Function.update s.held i none j = some x := hj
        by_cases hji : j = i
        · subst hji
          simp at hj
        · rw [Function.update_of_ne hji] at hj
          exact hji (hs.distinct j i x hj hx)
    · rw [List.nodup_append]
      refine ⟨hs.nodup, List.nodup_singleton _, ?_⟩
      intro y hy z hz heq
      rw [List.mem_singleton.mp hz] at heq
      exact hs.unused i x hx (heq ▸ hy)

theorem used_nodup (hs : (machine κ ι).Reachable s) : s.used.Nodup := by
  have hinv : Inv s := by
    refine Trans.Machine.reachable_invariant (I := Inv) ?_ (fun s a t hs ht => hs.step ht) hs
    rintro s ⟨hheld, hused⟩
    refine ⟨fun i t hi => ?_, fun t ht => ?_, fun i j t hi => ?_, fun i t hi => ?_, ?_⟩
    all_goals simp_all
  exact hinv.nodup

end Tickets
