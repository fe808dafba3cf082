import NetFrame.Lib.Outcome
import Mathlib.Algebra.Group.Nat.Defs
import Mathlib.Data.List.Basic

/-!
# Faults and machine words

What the models of all components share: the way a call can end abnormally,
and the arithmetic of `size_t`.
-/

namespace NetFrame

open Outcome

/-- A `char` of a buffer. -/
abbrev Byte := BitVec 8

/-- The abnormal ends of a call. The Makefile builds without `NDEBUG`, so a
failed `assert` aborts the process. -/
inductive Fault where
  /-- The `assert` of this expression failed. -/
  | assertion (expr : String)
  /-- `std::copy` ran past the end of its destination. -/
  | outOfBounds
  /-- A signed `int` left its range. -/
  | intOverflow
  deriving DecidableEq, Repr

/-- `assert(c)`. -/
def check (c : Prop) [Decidable c] (expr : String) : Except Fault Unit :=
  if c then .ok () else .error (.assertion expr)

/-- The number of values of `size_t`. -/
def sizeMod : Nat := 2 ^ 64

/-- `a + b` on `size_t`. -/
def szAdd (a b : Nat) : Nat := (a + b) % sizeMod

/-- `a - b` on `size_t`. -/
def szSub (a b : Nat) : Nat := (a + sizeMod - b) % sizeMod

theorem szAdd_eq {a b : Nat} (h : a + b < sizeMod) : szAdd a b = a + b :=
  Nat.mod_eq_of_lt h

theorem szSub_eq {a b : Nat} (h : b ≤ a) (ha : a < sizeMod) : szSub a b = a - b := by
  unfold szSub sizeMod at *
  omega

theorem szAdd_lt (a b : Nat) : szAdd a b < sizeMod :=
  Nat.mod_lt _ (by decide)

/-! ## Calls that may fault -/

theorem bind_ok {α β : Type} {x : Except Fault α} {f : α → Except Fault β} {r : β} :
    (x >>= f) = .ok r ↔ ∃ a, x = .ok a ∧ f a = .ok r := by
  cases x <;> simp [bind, Except.bind]

theorem ok_bind {α β : Type} (a : α) (f : α → Except Fault β) : (Except.ok a >>= f) = f a := rfl

theorem bind_ok_eq {α β : Type} {x : Except Fault α} {f : α → Except Fault β} {a : α}
    (h : x = .ok a) : (x >>= f) = f a := by
  rw [h, ok_bind]

theorem toOption_eq_some {α : Type} {x : Except Fault α} {a : α} :
    x.toOption = some a ↔ x = .ok a := by
  cases x <;> simp [Except.toOption]

/-- A passed check disappears. -/
theorem check_bind {c : Prop} [Decidable c] {expr : String} {α : Type}
    {f : Unit → Except Fault α} (h : c) : (check c expr >>= f) = f () := by
  simp [check, h, bind, Except.bind]

theorem check_bind_ok {c : Prop} [Decidable c] {expr : String} {α : Type}
    {f : Unit → Except Fault α} {r : α} :
    (check c expr >>= f) = .ok r ↔ c ∧ f () = .ok r := by
  by_cases h : c
  · rw [check_bind h]
    exact ⟨fun hr => ⟨h, hr⟩, fun hr => hr.2⟩
  · simp [check, h, bind, Except.bind]

/-- The rule for `assert`: it may fail with its own fault only. -/
theorem ends_check {c : Prop} [Decidable c] {expr : String} {α : Type}
    {f : Unit → Except Fault α} {E : Fault → Prop} {Q : α → Prop} (hE : E (.assertion expr))
    (hf : c → Ends (f ()) E Q) : Ends (check c expr >>= f) E Q := by
  by_cases h : c
  · rw [check_bind h]
    exact hf h
  · have herror : (check c expr >>= f) = .error (.assertion expr) := by
      simp [check, h, bind, Except.bind]
    rw [herror]
    exact hE

end NetFrame
