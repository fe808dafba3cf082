import NetFrame.Lib.Table
import Mathlib.Data.List.Range

/-!
# The descriptor table of a process

A process has descriptors below a limit, each of which stands for something. A
new descriptor gets the lowest number that is free; where none is, the table is
full and the call fails.

Results:
1. `newFd_some`, `newFd_none`: a new descriptor was free and below the limit, and
   there is none exactly when every number below the limit is taken.
2. `newFd_close`: closing a descriptor makes room.
-/

universe u

structure FdTable (ι : Type u) where
  limit : Nat
  files : Table Int ι

namespace FdTable

variable {ι : Type u}

/-- What the descriptor stands for, if it is open. -/
def find (t : FdTable ι) (fd : Int) : Option ι := t.files.find fd

/-- The number for a new descriptor. -/
def newFd (t : FdTable ι) : Option Int :=
  ((List.range t.limit).map Int.ofNat).find? fun fd => t.find fd = none

def add (t : FdTable ι) (fd : Int) (f : ι) : FdTable ι := { t with files := t.files.insert fd f }

/-- A call that makes a descriptor, and what it returns. -/
def openFile (t : FdTable ι) (f : ι) : FdTable ι × Int :=
  match t.newFd with
  | some fd => (t.add fd f, fd)
  | none => (t, -1)

def close (t : FdTable ι) (fd : Int) : FdTable ι := { t with files := t.files.erase fd }

variable {t : FdTable ι} {fd fd' : Int} {f : ι}

theorem find_add : (t.add fd f).find fd' = if fd' = fd then some f else t.find fd' :=
  Table.find_insert _ _ _ _

theorem find_close : (t.close fd).find fd' = if fd' = fd then none else t.find fd' :=
  Table.find_erase _ _ _

/-- The number is below the limit. -/
def InRange (t : FdTable ι) (fd : Int) : Prop := 0 ≤ fd ∧ fd < t.limit

theorem mem_range : fd ∈ (List.range t.limit).map Int.ofNat ↔ t.InRange fd := by
  unfold InRange
  rw [List.mem_map]
  constructor
  · rintro ⟨n, hn, rfl⟩
    exact ⟨Int.natCast_nonneg n, Int.ofNat_lt.mpr (List.mem_range.mp hn)⟩
  · rintro ⟨hnonneg, hlt⟩
    obtain ⟨n, rfl⟩ := Int.eq_ofNat_of_zero_le hnonneg
    exact ⟨n, List.mem_range.mpr (Int.ofNat_lt.mp hlt), rfl⟩

theorem newFd_some (h : t.newFd = some fd) : t.find fd = none ∧ t.InRange fd := by
  have hfree := List.find?_some h
  exact ⟨of_decide_eq_true hfree, mem_range.mp (List.mem_of_find?_eq_some h)⟩

theorem newFd_none : t.newFd = none ↔ ∀ fd, t.InRange fd → t.find fd ≠ none := by
  unfold newFd
  rw [List.find?_eq_none]
  simp only [mem_range, decide_eq_true_eq]

theorem exists_newFd (hrange : t.InRange fd) (hfree : t.find fd = none) :
    ∃ fd', t.newFd = some fd' := by
  refine Option.ne_none_iff_exists'.mp fun hnone => ?_
  exact newFd_none.mp hnone fd hrange hfree

theorem newFd_close (hrange : t.InRange fd) : ∃ fd', (t.close fd).newFd = some fd' := by
  have hrange' : (t.close fd).InRange fd := hrange
  refine exists_newFd hrange' ?_
  rw [find_close, if_pos rfl]

end FdTable
