import Mathlib.Data.List.Basic

/-!
# Shared pointers

An object that lives as long as somebody holds a pointer to it: the use count of
a `shared_ptr` with the holders that it counts, and the `lock` of a `weak_ptr`.
The holders have names, and one name may hold several pointers.

Results:
1. `SharedPtr.useCount_pos`: who holds a pointer keeps the object alive.
2. `SharedPtr.mem_release`: releases by others do not take it away.
3. `SharedPtr.lock_eq_none`: the object is gone exactly when `lock` fails.
-/

universe u

/-- The use count with its holders; they agree by construction. -/
structure SharedPtr (κ : Type u) where
  holders : List κ
  useCount : Nat
  counted : useCount = holders.length

namespace SharedPtr

variable {κ : Type u} {p : SharedPtr κ} {k k' : κ}

/-- `k` takes a copy of a pointer. -/
def copy (p : SharedPtr κ) (k : κ) : SharedPtr κ where
  holders := k :: p.holders
  useCount := p.useCount + 1
  counted := by rw [p.counted, List.length_cons]

/-- `k` gives up a pointer. -/
def release [DecidableEq κ] (p : SharedPtr κ) (k : κ) : SharedPtr κ :=
  if h : k ∈ p.holders then
    { holders := p.holders.erase k
      useCount := p.useCount - 1
      counted := by rw [List.length_erase_of_mem h, p.counted] }
  else p

/-- `weak_ptr::lock`, into a pointer of `k`. -/
def lock (p : SharedPtr κ) (k : κ) : Option (SharedPtr κ) :=
  if 0 < p.useCount then some (p.copy k) else none

theorem useCount_pos (h : k ∈ p.holders) : 0 < p.useCount := by
  rw [p.counted]
  exact List.length_pos_of_mem h

/-- A pointer stays when another holder gives one up. -/
theorem mem_release [DecidableEq κ] (h : k ∈ p.holders) (hne : k ≠ k') :
    k ∈ (p.release k').holders := by
  unfold release
  split
  · exact (List.mem_erase_of_ne hne).mpr h
  · exact h

theorem count_copy [DecidableEq κ] :
    (p.copy k).holders.count k' = p.holders.count k' + if k = k' then 1 else 0 := by
  rw [copy, List.count_cons]
  simp

theorem count_release [DecidableEq κ] :
    (p.release k).holders.count k' = p.holders.count k' - if k = k' then 1 else 0 := by
  unfold release
  split
  · rw [List.count_erase]
    simp
  · next h =>
    split
    · next heq => rw [← heq, List.count_eq_zero_of_not_mem h]
    · rw [Nat.sub_zero]

theorem lock_eq_some {q : SharedPtr κ} (h : p.lock k = some q) : q = p.copy k := by
  unfold lock at h
  split at h
  · exact (Option.some.inj h).symm
  · cases h

theorem lock_eq_none : p.lock k = none ↔ p.useCount = 0 := by
  unfold lock
  split
  · next h => simp [Nat.ne_of_gt h]
  · next h => simp [Nat.eq_zero_of_not_pos h]

/-- Nobody holds a pointer to an object that is gone. -/
theorem not_mem (h : p.useCount = 0) : k ∉ p.holders := fun hk => Nat.ne_of_gt (useCount_pos hk) h

end SharedPtr
