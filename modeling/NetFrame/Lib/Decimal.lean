import Mathlib.Algebra.Group.Nat.Defs
import Mathlib.Data.List.Nodup
import Mathlib.Data.List.Range

/-!
# Decimal numerals

The numerals of the natural numbers as a printer writes them, whole or cut after
the first `r` digits by a buffer of fixed size.

Results:
1. `Decimal.toDigits_ofDigitChars`, `Decimal.isNumeral_toDigits`: the numerals
   are the texts of digits without a leading zero, and each is the numeral of the
   number that it is read as.
2. `Decimal.numbered_nodup_iff`: the first `n` numerals from 1 on, each cut after
   `r` digits, differ from each other exactly when none is cut, that is, when
   `n < 10 ^ r`.
-/

namespace Decimal

/-! ## Numerals cut to a width -/

theorem toDigits_injective : Function.Injective (Nat.toDigits 10) := by
  intro m n h
  calc m = Nat.ofDigitChars 10 (Nat.toDigits 10 m) 0 := Nat.ofDigitChars_ten_toDigits.symm
    _ = Nat.ofDigitChars 10 (Nat.toDigits 10 n) 0 := by rw [h]
    _ = n := Nat.ofDigitChars_ten_toDigits

/-- A numeral with room for all of its digits is not cut. -/
theorem take_toDigits {r n : Nat} (hr : 0 < r) (h : n < 10 ^ r) :
    (Nat.toDigits 10 n).take r = Nat.toDigits 10 n :=
  List.take_of_length_le ((Nat.length_toDigits_le_iff (by decide) hr).mpr h)

theorem toDigits_pow_succ (r : Nat) :
    Nat.toDigits 10 (10 ^ (r + 1)) = Nat.toDigits 10 (10 ^ r) ++ ['0'] := by
  have happend := Nat.toDigits_append_toDigits (b := 10) (n := 10 ^ r) (d := 0) (by decide)
    (Nat.pow_pos (by decide)) (by decide)
  rw [Nat.pow_succ, Nat.mul_comm]
  exact happend.symm

theorem length_toDigits_pow (r : Nat) : (Nat.toDigits 10 (10 ^ r)).length = r + 1 := by
  induction r with
  | zero => rfl
  | succ r ih => rw [toDigits_pow_succ, List.length_append, ih, List.length_singleton]

/-- The first power of ten that is cut loses its last zero. -/
theorem take_toDigits_pow (r : Nat) :
    (Nat.toDigits 10 (10 ^ (r + 1))).take (r + 1) = Nat.toDigits 10 (10 ^ r) := by
  rw [toDigits_pow_succ]
  exact List.take_left' (length_toDigits_pow r)

theorem numbered_nodup_iff {r : Nat} (hr : 0 < r) (n : Nat) :
    ((List.range' 1 n).map fun i => (Nat.toDigits 10 i).take r).Nodup ↔ n < 10 ^ r := by
  rw [List.nodup_map_iff_inj_on List.nodup_range']
  constructor
  · intro hinj
    by_contra hle
    obtain ⟨r, rfl⟩ : ∃ r', r = r' + 1 := ⟨r - 1, by omega⟩
    have hlt : 10 ^ r < 10 ^ (r + 1) := Nat.pow_lt_pow_right (by decide) (Nat.lt_succ_self r)
    have hpos : 0 < 10 ^ r := Nat.pow_pos (by decide)
    have hfull : (Nat.toDigits 10 (10 ^ r)).take (r + 1) = Nat.toDigits 10 (10 ^ r) :=
      take_toDigits hr hlt
    have heq := hinj (10 ^ r) (List.mem_range'_1.mpr ⟨hpos, by omega⟩) (10 ^ (r + 1))
      (List.mem_range'_1.mpr ⟨by omega, by omega⟩) (by rw [hfull, take_toDigits_pow])
    exact absurd heq (Nat.ne_of_lt hlt)
  · intro hn i hi j hj heq
    have hroom : ∀ {k}, k ∈ List.range' 1 n → k < 10 ^ r := by
      intro k hk
      have := (List.mem_range'_1.mp hk).2
      omega
    rw [take_toDigits hr (hroom hi), take_toDigits hr (hroom hj)] at heq
    exact toDigits_injective heq

/-! ## Reading a numeral -/

/-- A numeral as a printer writes it: digits, with no leading zero. -/
structure IsNumeral (ds : List Char) : Prop where
  ne_nil : ds ≠ []
  digits : ∀ c ∈ ds, c.isDigit = true
  noLeadingZero : ds.head? = some '0' → ds = ['0']

theorem digitChar_sub {c : Char} (h : c.isDigit = true) :
    c.toNat - '0'.toNat < 10 ∧ (c.toNat - '0'.toNat).digitChar = c := by
  have hrange : '0'.toNat ≤ c.toNat ∧ c.toNat ≤ '9'.toNat := Char.isDigit_iff_toNat.mp h
  have hlow : 48 ≤ c.toNat := hrange.1
  have hhigh : c.toNat ≤ 57 := hrange.2
  have hlt : c.toNat - 48 < 10 := by omega
  refine ⟨hlt, Char.toNat_inj.mp ?_⟩
  show (c.toNat - 48).digitChar.toNat = c.toNat
  rw [Nat.toNat_digitChar_of_lt_ten hlt]
  omega

theorem ofDigitChars_snoc (ds : List Char) (c : Char) :
    Nat.ofDigitChars 10 (ds ++ [c]) 0 =
      10 * Nat.ofDigitChars 10 ds 0 + (c.toNat - '0'.toNat) := by
  rw [Nat.ofDigitChars_append, Nat.ofDigitChars_cons, Nat.ofDigitChars_nil]

/-- Printing what has been read gives the numeral back. -/
theorem toDigits_ofDigitChars {ds : List Char} (h : IsNumeral ds) :
    Nat.toDigits 10 (Nat.ofDigitChars 10 ds 0) = ds := by
  induction ds using List.reverseRecOn with
  | nil => exact absurd rfl h.ne_nil
  | append_singleton ds c ih =>
    obtain ⟨hlt, hchar⟩ := digitChar_sub (h.digits c (by simp))
    rw [ofDigitChars_snoc]
    by_cases hnil : ds = []
    · rw [hnil, Nat.ofDigitChars_nil, Nat.mul_zero, Nat.zero_add, List.nil_append,
        Nat.toDigits_of_lt_base hlt, hchar]
    · have hlead : ds.head? ≠ some '0' := by
        intro hzero
        have hsingle := h.noLeadingZero (by rw [List.head?_append, hzero]; rfl)
        have hlen := congrArg List.length hsingle
        have := List.length_pos_iff.mpr hnil
        simp only [List.length_append, List.length_singleton] at hlen
        omega
      have hds : IsNumeral ds :=
        ⟨hnil, fun x hx => h.digits x (List.mem_append_left _ hx), fun hz => absurd hz hlead⟩
      have hback := ih hds
      have hpos : 0 < Nat.ofDigitChars 10 ds 0 := by
        refine Nat.pos_of_ne_zero fun hzero => hlead ?_
        rw [← hback, hzero, Nat.toDigits_zero]
        rfl
      rw [← Nat.toDigits_append_toDigits (by decide) hpos hlt, hback,
        Nat.toDigits_of_lt_base hlt, hchar]

/-- What is printed is a numeral. -/
theorem isNumeral_toDigits (n : Nat) : IsNumeral (Nat.toDigits 10 n) where
  ne_nil := Nat.toDigits_ne_nil
  digits _ hc := Nat.isDigit_of_mem_toDigits (by decide) (by decide) hc
  noLeadingZero := by
    induction n using Nat.strongRecOn with
    | ind n ih =>
      intro hzero
      rcases Nat.lt_or_ge n 10 with hlt | hge
      · rw [Nat.toDigits_of_lt_base hlt] at hzero ⊢
        simpa using hzero
      · rw [Nat.toDigits_of_base_le (by decide) hge,
          List.head?_append_of_ne_nil _ Nat.toDigits_ne_nil] at hzero
        have hone := ih (n / 10) (by omega) hzero
        have hpos : n / 10 = 0 := toDigits_injective (hone.trans (Nat.toDigits_zero 10).symm)
        omega

end Decimal
