import Mathlib.Data.List.Basic
import Mathlib.Data.List.TakeDrop

/-!
# Windows of a list

A program that keeps its data between two indices of an array reads a window
`[i, j)` of a list and copies bytes over a window. This module has the two
operations and how they commute.
-/

namespace Window

universe u

variable {α : Type u}

/-- The elements at the positions `i ≤ k < j`. -/
def window (l : List α) (i j : Nat) : List α := (l.drop i).take (j - i)

/-- `d` copied over `l`, from position `i` on. -/
def overwrite (l : List α) (i : Nat) (d : List α) : List α :=
  l.take i ++ d ++ l.drop (i + d.length)

/-- `l` cut or padded with `x` to the length `n`. -/
def resize (l : List α) (n : Nat) (x : α) : List α := l.take n ++ List.replicate (n - l.length) x

theorem getElem?_window (l : List α) (i j k : Nat) :
    (window l i j)[k]? = if i + k < j then l[i + k]? else none := by
  unfold window
  rw [List.getElem?_take, List.getElem?_drop]
  grind

theorem getElem?_overwrite {l : List α} {i : Nat} {d : List α} (h : i + d.length ≤ l.length)
    (k : Nat) :
    (overwrite l i d)[k]? = if k < i then l[k]? else if k < i + d.length then d[k - i]?
      else l[k]? := by
  unfold overwrite
  grind

theorem getElem?_resize (l : List α) (n : Nat) (x : α) (k : Nat) :
    (resize l n x)[k]? = if k < n then if k < l.length then l[k]? else some x else none := by
  unfold resize
  grind

@[simp] theorem length_window (l : List α) (i j : Nat) :
    (window l i j).length = min (j - i) (l.length - i) := by
  simp [window]

theorem length_overwrite {l : List α} {i : Nat} {d : List α} (h : i + d.length ≤ l.length) :
    (overwrite l i d).length = l.length := by
  simp only [overwrite, List.length_append, List.length_take, List.length_drop]
  omega

@[simp] theorem length_resize (l : List α) (n : Nat) (x : α) : (resize l n x).length = n := by
  simp only [resize, List.length_append, List.length_take, List.length_replicate]
  omega

@[simp] theorem window_self (l : List α) (i : Nat) : window l i i = [] := by
  simp [window]

/-- Two adjacent windows make one. -/
theorem window_append (l : List α) {i j k : Nat} (hij : i ≤ j) (hjk : j ≤ k) :
    window l i j ++ window l j k = window l i k := by
  unfold window
  have hdrop : l.drop j = (l.drop i).drop (j - i) := by
    rw [List.drop_drop]
    congr 1
    omega
  have hk : k - i = (j - i) + (k - j) := by omega
  rw [hdrop, hk, List.take_add]

theorem window_drop (l : List α) (i j n : Nat) : (window l i j).drop n = window l (i + n) j := by
  unfold window
  rw [List.drop_take, List.drop_drop, Nat.sub_sub]

theorem window_take (l : List α) {i j n : Nat} (h : i + n ≤ j) :
    (window l i j).take n = window l i (i + n) := by
  unfold window
  rw [List.take_take]
  congr 1
  omega

/-- What has been copied is read back. -/
theorem window_overwrite_self {l : List α} {i : Nat} {d : List α} (h : i + d.length ≤ l.length) :
    window (overwrite l i d) i (i + d.length) = d := by
  apply List.ext_getElem?
  intro k
  rw [getElem?_window, getElem?_overwrite h]
  grind

/-- A copy leaves the window before it alone. -/
theorem window_overwrite_before {l : List α} {i : Nat} {d : List α} (h : i + d.length ≤ l.length)
    {j k : Nat} (hk : k ≤ i) : window (overwrite l i d) j k = window l j k := by
  apply List.ext_getElem?
  intro n
  rw [getElem?_window, getElem?_window, getElem?_overwrite h]
  grind

/-- A copy leaves the window behind it alone. -/
theorem window_overwrite_after {l : List α} {i : Nat} {d : List α} (h : i + d.length ≤ l.length)
    {j k : Nat} (hj : i + d.length ≤ j) : window (overwrite l i d) j k = window l j k := by
  apply List.ext_getElem?
  intro n
  rw [getElem?_window, getElem?_window, getElem?_overwrite h]
  grind

/-- Growing or cutting a list behind a window leaves the window alone. -/
theorem window_resize {l : List α} {n : Nat} (x : α) {i j : Nat} (hl : j ≤ l.length)
    (hn : j ≤ n) : window (resize l n x) i j = window l i j := by
  apply List.ext_getElem?
  intro k
  rw [getElem?_window, getElem?_window, getElem?_resize]
  grind

end Window
