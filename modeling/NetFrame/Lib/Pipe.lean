import NetFrame.Lib.Machine

/-!
# A lossless pipe

The purpose of an output buffer, in its own terms: elements are pushed at one
end and drained at the other, a part at a time.

Results:
1. `Pipe.conserved`: what has been drained, followed by what is pending, is what
   has been pushed, in order.
2. `Pipe.run_drain`, `Pipe.run_push_drain`: a drain, and a push with a drain
   right after it, by the elements that go and those that are left.
-/

structure Pipe (α : Type*) where
  sent : List α
  taken : List α
  pending : List α

namespace Pipe

variable {α : Type*}

inductive Act (α : Type*) where
  | push (data : List α)
  | drain (n : Nat)

def step (p : Pipe α) : Act α → Option (Pipe α)
  | .push data => some { p with sent := p.sent ++ data, pending := p.pending ++ data }
  | .drain n =>
    if n ≤ p.pending.length then
      some { p with taken := p.taken ++ p.pending.take n, pending := p.pending.drop n }
    else none

/-- The pipe, empty at first. -/
def machine (α : Type*) : Trans.Machine (Pipe α) (Act α) where
  init := fun p => p.sent = [] ∧ p.taken = [] ∧ p.pending = []
  step := step

/-- Nothing is lost, duplicated or reordered. -/
def Conserved (p : Pipe α) : Prop := p.taken ++ p.pending = p.sent

theorem step_conserved {p q : Pipe α} {a : Act α} (hp : p.Conserved) (h : step p a = some q) :
    q.Conserved := by
  cases a with
  | push data =>
    cases h
    simp only [Conserved] at hp ⊢
    rw [← List.append_assoc, hp]
  | drain n =>
    obtain ⟨-, hq⟩ := Option.ite_none_right_eq_some.mp h
    cases hq
    simp only [Conserved] at hp ⊢
    rw [List.append_assoc, List.take_append_drop, hp]

theorem conserved {p : Pipe α} (h : (machine α).Reachable p) : p.Conserved := by
  refine Trans.Machine.reachable_invariant (I := Conserved) ?_ ?_ h
  · rintro p ⟨hs, ht, hpe⟩
    simp [Conserved, hs, ht, hpe]
  · exact fun p a q hp hs => step_conserved hp hs

/-- Draining `new`, where `left` is left. -/
theorem run_drain {p : Pipe α} {new left : List α} (h : new ++ left = p.pending) :
    (machine α).run p [.drain new.length] =
      some { p with taken := p.taken ++ new, pending := left } := by
  simp [Trans.Machine.run_cons, machine, step, ← h]

theorem run_push_drain {p : Pipe α} {data new left : List α} (h : new ++ left = p.pending ++ data) :
    (machine α).run p [.push data, .drain new.length] =
      some { sent := p.sent ++ data, taken := p.taken ++ new, pending := left } := by
  rw [Trans.Machine.run_cons]
  exact run_drain h

end Pipe
