import Mathlib.Logic.Basic

/-!
# The outcome of a call that may fail

Pre- and postconditions for calls in `Except`: `Ends x E Q` says of the call `x`
which errors it may end in and what holds of its result.

Results:
1. `Ends.bind`, `Ends.mono`: the rules of sequence and of consequence.
2. `Ends.result`, `Ends.fault`: what is known after a call.
-/

namespace Outcome

universe u v

variable {ε : Type u} {α : Type v}

/-- The call ends in an error that meets `E` or with a result that meets `Q`. -/
def Ends (x : Except ε α) (E : ε → Prop) (Q : α → Prop) : Prop :=
  match x with
  | .error e => E e
  | .ok a => Q a

variable {x : Except ε α} {E E' : ε → Prop} {Q Q' : α → Prop}

theorem Ends.ok {a : α} (h : Q a) : Ends (.ok a) E Q := h

theorem Ends.of_ok {a : α} (hx : x = .ok a) (h : Q a) : Ends x E Q := by
  rw [hx]
  exact h

theorem Ends.result {a : α} (h : Ends x E Q) (hx : x = .ok a) : Q a := by
  rw [hx] at h
  exact h

theorem Ends.fault {e : ε} (h : Ends x E Q) (hx : x = .error e) : E e := by
  rw [hx] at h
  exact h

/-- The rule of consequence. -/
theorem Ends.mono (h : Ends x E Q) (hE : ∀ e, E e → E' e) (hQ : ∀ a, Q a → Q' a) :
    Ends x E' Q' := by
  cases x with
  | error e => exact hE e h
  | ok a => exact hQ a h

/-- The rule of sequence. -/
theorem Ends.bind {β : Type v} {f : α → Except ε β} {R : β → Prop} (h : Ends x E Q)
    (hf : ∀ a, Q a → Ends (f a) E R) : Ends (x >>= f) E R := by
  cases x with
  | error e => exact h
  | ok a => exact hf a h

end Outcome
