import Mathlib.Algebra.Order.Ring.Nat
import Mathlib.Tactic.Ring
import Mathlib.Data.List.Basic

/-!
# Numbers as strings of bytes

`ofNat n v` is the number `v` in `n` bytes, lowest byte first, and `toNat` reads
such a string back. The two are inverse to each other up to the size of the
string (`toNat_ofNat`, `ofNat_toNat`).
-/

namespace Bytes

/-- The `n` lowest bytes of `v`, lowest first. -/
def ofNat : Nat → Nat → List (BitVec 8)
  | 0, _ => []
  | n + 1, v => BitVec.ofNat 8 v :: ofNat n (v / 256)

/-- The number whose bytes, lowest first, are given. -/
def toNat : List (BitVec 8) → Nat
  | [] => 0
  | b :: bs => b.toNat + 256 * toNat bs

@[simp] theorem length_ofNat (n v : Nat) : (ofNat n v).length = n := by
  induction n generalizing v with
  | zero => rfl
  | succ n ih => simp [ofNat, ih]

theorem toNat_lt (bs : List (BitVec 8)) : toNat bs < 256 ^ bs.length := by
  induction bs with
  | nil => simp [toNat]
  | cons b bs ih =>
    have hb : b.toNat < 256 := b.isLt
    rw [toNat, List.length_cons, Nat.pow_succ]
    omega

theorem toNat_ofNat (n v : Nat) : toNat (ofNat n v) = v % 256 ^ n := by
  induction n generalizing v with
  | zero => simp [ofNat, toNat, Nat.mod_one]
  | succ n ih =>
    rw [ofNat, toNat, ih, BitVec.toNat_ofNat]
    show v % 256 + 256 * (v / 256 % 256 ^ n) = v % (256 ^ n * 256)
    rw [Nat.mul_comm (256 ^ n) 256, Nat.mod_mul]

theorem ofNat_toNat (bs : List (BitVec 8)) : ofNat bs.length (toNat bs) = bs := by
  induction bs with
  | nil => rfl
  | cons b bs ih =>
    have hb : b.toNat < 256 := b.isLt
    have hdiv : toNat (b :: bs) / 256 = toNat bs := by
      rw [toNat]
      omega
    rw [List.length_cons, ofNat, hdiv, ih, List.cons.injEq]
    refine ⟨?_, rfl⟩
    apply BitVec.eq_of_toNat_eq
    rw [BitVec.toNat_ofNat, toNat]
    omega

/-- Writing the number that a reversed string denotes gives that string. -/
theorem ofNat_toNat_reverse {bs : List (BitVec 8)} {n : Nat} (h : bs.length = n) :
    ofNat n (toNat bs.reverse) = bs.reverse := by
  have hlen : bs.reverse.length = n := by simpa using h
  rw [← hlen]
  exact ofNat_toNat bs.reverse

end Bytes
