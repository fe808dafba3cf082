import Mathlib.Data.List.Infix
import Mathlib.Data.List.TakeDrop
import Mathlib.Data.Nat.Find

/-!
# Searching a pattern in a range

`std::search` on a range of a list, where an iterator is a position and the end
of the range says that there is no occurrence, and what becomes of the first
occurrence when the list grows at its end.

Results:
1. `Search.search_spec`: the search returns the first occurrence that lies wholly
   inside the range, and the end of the range when there is none.
2. `Search.First.append`: a first occurrence stays the first one.
3. `Search.first_append_iff`: after growth only those occurrences are new that
   end behind the old end.
-/

namespace Search

universe u

variable {α : Type u} {pat l l' : List α} {start k : Nat}

/-- The pattern lies in the list at position `k`. -/
def Occurs (pat l : List α) (k : Nat) : Prop := pat <+: l.drop k

/-- `k` is the first position from `start` on at which the pattern lies in the list. -/
structure First (pat l : List α) (start k : Nat) : Prop where
  start_le : start ≤ k
  occurs : Occurs pat l k
  before : ∀ j, start ≤ j → j < k → ¬Occurs pat l j

section

variable [DecidableEq α]

instance (pat l : List α) (k : Nat) : Decidable (Occurs pat l k) :=
  inferInstanceAs (Decidable (pat <+: l.drop k))

/-- Looks at `n` positions from `i` on. -/
def searchFrom (pat l : List α) : Nat → Nat → Nat
  | 0, i => i
  | n + 1, i => if Occurs pat l i then i else searchFrom pat l n (i + 1)

/-- `std::search(first, last, pat.begin(), pat.end())` on the positions of `l`. -/
def search (l : List α) (first last : Nat) (pat : List α) : Nat :=
  searchFrom pat (l.take last) (last - first) first

theorem searchFrom_spec (pat l : List α) (n i : Nat) :
    (searchFrom pat l n i = i + n ∧ ∀ j, i ≤ j → j < i + n → ¬Occurs pat l j) ∨
    (searchFrom pat l n i < i + n ∧ First pat l i (searchFrom pat l n i)) := by
  induction n generalizing i with
  | zero =>
    left
    exact ⟨rfl, fun j hij hji => absurd hij (Nat.not_le_of_lt hji)⟩
  | succ n ih =>
    rw [searchFrom]
    split
    · next hocc =>
      exact .inr ⟨Nat.lt_add_of_pos_right (Nat.succ_pos n), Nat.le_refl i, hocc,
        fun j hij hji => absurd hij (Nat.not_le_of_lt hji)⟩
    · next hnot =>
      have hfirst : ∀ j, i ≤ j → ¬Occurs pat l j ∨ i + 1 ≤ j := by
        intro j hij
        rcases Nat.eq_or_lt_of_le hij with rfl | hlt
        · exact .inl hnot
        · exact .inr hlt
      rcases ih (i + 1) with ⟨hend, hnone⟩ | ⟨hlt, hpos⟩
      · refine .inl ⟨hend.trans (Nat.succ_add_eq_add_succ i n), fun j hij hji => ?_⟩
        rcases hfirst j hij with h | h
        · exact h
        · exact hnone j h (hji.trans_eq (Nat.succ_add_eq_add_succ i n).symm)
      · refine .inr ⟨hlt.trans_eq (Nat.succ_add_eq_add_succ i n),
          Nat.le_of_succ_le hpos.start_le, hpos.occurs, fun j hij hji => ?_⟩
        rcases hfirst j hij with h | h
        · exact h
        · exact hpos.before j h hji

theorem search_spec (pat l : List α) {first last : Nat} (hle : first ≤ last) :
    (search l first last pat = last ∧
      ∀ j, first ≤ j → j < last → ¬Occurs pat (l.take last) j) ∨
    (search l first last pat < last ∧
      First pat (l.take last) first (search l first last pat)) := by
  have h := searchFrom_spec pat (l.take last) (last - first) first
  rwa [Nat.add_sub_cancel' hle] at h

end

/-- Positions are counted from the start of a part. -/
theorem first_drop_iff (n : Nat) :
    First pat l (n + start) (n + k) ↔ First pat (l.drop n) start k := by
  have hocc : ∀ j, Occurs pat l (n + j) ↔ Occurs pat (l.drop n) j := by
    intro j
    unfold Occurs
    rw [List.drop_drop]
  constructor
  · intro h
    refine ⟨Nat.le_of_add_le_add_left h.start_le, (hocc k).mp h.occurs, fun j hj hjk => ?_⟩
    rw [← hocc]
    exact h.before (n + j) (Nat.add_le_add_left hj n) (Nat.add_lt_add_left hjk n)
  · intro h
    refine ⟨Nat.add_le_add_left h.start_le n, (hocc k).mpr h.occurs, fun j hj hjk => ?_⟩
    obtain ⟨i, rfl⟩ := Nat.exists_eq_add_of_le (Nat.le_of_add_right_le hj)
    rw [hocc]
    exact h.before i (Nat.le_of_add_le_add_left hj) (Nat.lt_of_add_lt_add_left hjk)

/-- There is a first occurrence where there is one. -/
theorem exists_first_iff : (∃ k, First pat l start k) ↔ ∃ k, start ≤ k ∧ Occurs pat l k := by
  classical
  constructor
  · rintro ⟨k, h⟩
    exact ⟨k, h.start_le, h.occurs⟩
  · intro h
    refine ⟨Nat.find h, (Nat.find_spec h).1, (Nat.find_spec h).2, fun j hj hlt hocc => ?_⟩
    exact Nat.find_min h hlt ⟨hj, hocc⟩

theorem First.unique {k' : Nat} (h : First pat l start k) (h' : First pat l start k') : k = k' := by
  rcases Nat.lt_trichotomy k k' with hlt | heq | hlt
  · exact absurd h.occurs (h'.before k h.start_le hlt)
  · exact heq
  · exact absurd h'.occurs (h.before k' h'.start_le hlt)

/-! ## Growth at the end -/

theorem Occurs.add_length_le (h : Occurs pat l k) (hpat : pat ≠ []) :
    k + pat.length ≤ l.length := by
  have hlen := List.IsPrefix.length_le h
  have hpos := List.length_pos_iff.mpr hpat
  rw [List.length_drop] at hlen
  omega

/-- What lies inside the old list is not changed. -/
theorem occurs_append (h : k + pat.length ≤ l.length) :
    Occurs pat (l ++ l') k ↔ Occurs pat l k := by
  unfold Occurs
  rw [List.drop_append_of_le_length (by omega)]
  constructor
  · intro hpre
    refine List.prefix_of_prefix_length_le hpre (List.prefix_append _ _) ?_
    rw [List.length_drop]
    omega
  · intro hpre
    exact hpre.trans (List.prefix_append _ _)

theorem First.append (h : First pat l start k) (hpat : pat ≠ []) (l' : List α) :
    First pat (l ++ l') start k := by
  have hlen := h.occurs.add_length_le hpat
  refine ⟨h.start_le, (occurs_append hlen).mpr h.occurs, fun j hj hjk => ?_⟩
  rw [occurs_append (by omega)]
  exact h.before j hj hjk

/-- Where the old list has no occurrence, the search may start at the first position
at which the pattern reaches into the new part. -/
theorem first_append_iff (hnone : ∀ j, ¬Occurs pat l j)
    (hstart : start + pat.length ≤ l.length + 1) :
    First pat (l ++ l') start k ↔ First pat (l ++ l') 0 k := by
  have hold : ∀ j, j < start → ¬Occurs pat (l ++ l') j := by
    intro j hj
    rw [occurs_append (by omega)]
    exact hnone j
  constructor
  · intro h
    refine ⟨Nat.zero_le k, h.occurs, fun j _ hjk => ?_⟩
    by_cases hj : start ≤ j
    · exact h.before j hj hjk
    · exact hold j (Nat.lt_of_not_le hj)
  · intro h
    refine ⟨?_, h.occurs, fun j _ hjk => h.before j (Nat.zero_le j) hjk⟩
    by_contra hk
    exact hold k (Nat.lt_of_not_le hk) h.occurs

end Search
