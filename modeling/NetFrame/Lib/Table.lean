import Mathlib.Algebra.GroupWithZero.Nat
import Mathlib.Data.List.AList

/-!
# Finite tables

Association lists whose values all have one type, read by a lookup that does
not depend on the key, so that a key can be rewritten in a goal.

Results:
1. `find_insert`, `find_erase`: what a changed table answers.
2. `keys_length_le`: a table that has an entry for each of a list of different
   keys is at least as long as the list.
3. `sum_insert`, `sum_of_find`: a sum over the entries, one entry at a time.
-/

universe u v

/-- A finite map from `κ` to `β`. -/
abbrev Table (κ : Type u) (β : Type v) := AList fun _ : κ => β

namespace Table

variable {κ : Type u} {β : Type v} [DecidableEq κ]

def find (m : Table κ β) (k : κ) : Option β := m.lookup k

@[simp] theorem find_empty (k : κ) : find (∅ : Table κ β) k = none :=
  AList.lookup_empty k

theorem find_insert (m : Table κ β) (k k' : κ) (b : β) :
    find (m.insert k b) k' = if k' = k then some b else find m k' := by
  unfold find
  split
  · next heq => rw [heq, AList.lookup_insert]
  · next hne => rw [AList.lookup_insert_ne hne]

@[simp] theorem find_insert_self (m : Table κ β) (k : κ) (b : β) :
    find (m.insert k b) k = some b := by
  rw [find_insert, if_pos rfl]

theorem find_erase (m : Table κ β) (k k' : κ) :
    find (m.erase k) k' = if k' = k then none else find m k' := by
  unfold find
  split
  · next heq => rw [heq, AList.lookup_erase]
  · next hne => rw [AList.lookup_erase_ne hne]

theorem erase_of_find_none {m : Table κ β} {k : κ} (h : find m k = none) : m.erase k = m :=
  AList.ext (List.kerase_of_notMem_keys (AList.lookup_eq_none.mp h))

theorem erase_erase_self (m : Table κ β) (k : κ) : (m.erase k).erase k = m.erase k := by
  refine erase_of_find_none ?_
  rw [find_erase, if_pos rfl]

/-- An entry may be read as if it had just been written. -/
theorem find_rewrite {m : Table κ β} {k : κ} {r : Option β} (h : find m k = r) (k' : κ) :
    find m k' = if k' = k then r else find m k' := by
  split
  · next heq => rw [heq, h]
  · rfl

theorem mem_keys_iff {m : Table κ β} {k : κ} : k ∈ m.keys ↔ ∃ b, find m k = some b := by
  unfold find
  rw [← Option.isSome_iff_exists, AList.lookup_isSome]
  rfl

theorem keys_length_le {m : Table κ β} {ks : List κ} (hnd : ks.Nodup)
    (h : ∀ k ∈ ks, ∃ b, find m k = some b) : ks.length ≤ m.keys.length := by
  refine (List.subperm_of_subset hnd fun k hk => ?_).length_le
  exact mem_keys_iff.mpr (h k hk)

/-! ## Sums -/

/-- The sum of `f` over the entries. -/
def sum (f : κ → β → Nat) (m : Table κ β) : Nat := (m.entries.map fun e => f e.1 e.2).sum

theorem sum_insert (f : κ → β → Nat) (m : Table κ β) (k : κ) (b : β) :
    sum f (m.insert k b) = f k b + sum f (m.erase k) := by
  unfold sum
  rw [AList.entries_insert, List.map_cons, List.sum_cons]
  rfl

theorem sum_of_find {f : κ → β → Nat} {m : Table κ β} {k : κ} {b : β} (h : find m k = some b) :
    sum f m = f k b + sum f (m.erase k) := by
  have hk : k ∈ m.keys := mem_keys_iff.mpr ⟨b, h⟩
  obtain ⟨b', l₁, l₂, -, hentries, herase⟩ := List.exists_of_kerase hk
  replace herase : (m.erase k).entries = l₁ ++ l₂ := herase
  have hb' : find m k = some b' := by
    refine AList.mem_lookup_iff.mpr ?_
    rw [hentries]
    exact List.mem_append_cons_self
  have hb : b' = b := Option.some.inj (hb'.symm.trans h)
  subst hb
  unfold sum
  rw [herase, hentries]
  simp only [List.map_append, List.map_cons, List.sum_append, List.sum_cons]
  exact Nat.add_left_comm _ _ _

end Table
