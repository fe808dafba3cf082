import Mathlib.Data.Int.CardIntervalMod

/-!
# Taking turns

At the time `c` it is the turn of `c % n`, so that `n` take turns one after the
other.

Results:
1. `RoundRobin.mod_succ`: a counter that wraps around takes the turns in order.
2. `RoundRobin.fair`: in every window of time the numbers of turns of any two
   differ by at most one.
-/

namespace RoundRobin

/-- Whose turn it is at the times from `start` on. -/
def turns (n start len : Nat) : List Nat := (List.range' start len).map (· % n)

variable {α : Type*} {n i j : Nat}

/-- Who is next, for a counter that wraps around by a test after the increment. -/
theorem mod_succ (hn : n ≠ 0) (c : Nat) :
    (c + 1) % n = if n ≤ c % n + 1 then 0 else c % n + 1 := by
  have hlt := Nat.mod_lt c (Nat.pos_of_ne_zero hn)
  rw [← Nat.mod_add_mod]
  split
  · next hle =>
    have heq : c % n + 1 = n := Nat.le_antisymm hlt hle
    rw [heq, Nat.mod_self]
  · next hnot => exact Nat.mod_eq_of_lt (Nat.lt_of_not_le hnot)

theorem infix_range' {f : Nat → α} {a m : Nat} {window : List α}
    (h : window <:+: (List.range' a m).map f) :
    ∃ start len, window = (List.range' start len).map f := by
  obtain ⟨before, after, heq⟩ := h
  obtain ⟨l, l₂, hsplit, hl, -⟩ := List.map_eq_append_iff.mp heq.symm
  obtain ⟨l₁, l', rfl, -, rfl⟩ := List.map_eq_append_iff.mp hl
  obtain ⟨k, -, hleft, -⟩ := List.range'_eq_append_iff.mp hsplit
  obtain ⟨j, -, -, hright⟩ := List.range'_eq_append_iff.mp hleft.symm
  exact ⟨_, _, by rw [hright]⟩

theorem count_mod (hi : i < n) (c : Nat) :
    Nat.count (· % n = i) c = c / n + if i < c % n then 1 else 0 := by
  have hcard := Nat.count_modEq_card c (Nat.zero_lt_of_lt hi) i
  rw [Nat.mod_eq_of_lt hi] at hcard
  simpa only [Nat.ModEq, Nat.mod_eq_of_lt hi] using hcard

theorem count_turns (n start len i : Nat) :
    Nat.count (· % n = i) start + (turns n start len).count i =
      Nat.count (· % n = i) (start + len) := by
  rw [Nat.count_add, turns, List.range'_eq_map_range, List.map_map, List.count, List.countP_map]
  rfl

theorem fair (hi : i < n) (hj : j < n) (start len : Nat) :
    (turns n start len).count i ≤ (turns n start len).count j + 1 := by
  have hcounti := count_turns n start len i
  have hcountj := count_turns n start len j
  rw [count_mod hi, count_mod hi] at hcounti
  rw [count_mod hj, count_mod hj] at hcountj
  generalize start / n = q, start % n = a, (start + len) / n = q', (start + len) % n = b at *
  -- the two ends are in some rounds at `a` and `b`, and only what lies between the two is
  -- passed once more or once less than the rest
  split_ifs at hcounti hcountj <;> omega

end RoundRobin
