import Mathlib.Logic.Basic
import Mathlib.Data.List.Basic

/-!
# Machines, runs and simulations

A `Machine` is a transition system whose labels carry every choice (which
thread moves, what a system call returns), so that a run is a list of labels
and can be evaluated.

Results:
1. `Machine.run_invariant`, `Machine.reachable_invariant`: an invariant that
   every step keeps holds at the end of every run.
2. `Machine.throughout_of_invariant`: what the invariant implies holds in every
   state that a run visits.
3. `Machine.recorded_invariant`: the invariant may speak of what the run has
   recorded so far.
4. `Refines.reachable`: a simulation with stuttering carries the reachable
   states of the concrete machine to reachable states of the abstract one, so
   that the invariants of the abstract machine hold of the concrete one.
5. `Implements.run`: the functional counterpart, for an implementation that
   answers each operation of a specification.
-/

namespace Trans

universe u v w x

/-! ## 1. Machines and their runs -/

/-- `step s a = none` when the action `a` is not enabled in `s`. -/
structure Machine (σ : Type u) (α : Type v) where
  init : σ → Prop
  step : σ → α → Option σ

namespace Machine

variable {σ : Type u} {α : Type v} (M : Machine σ α)

/-- The state after the actions `as`, when each is enabled in its turn. -/
def run (s : σ) (as : List α) : Option σ := as.foldlM M.step s

@[simp] theorem run_nil (s : σ) : M.run s [] = some s := rfl

theorem run_cons (s : σ) (a : α) (as : List α) :
    M.run s (a :: as) = (M.step s a).bind fun t => M.run t as := by
  simp [run, Option.bind_eq_bind]

theorem run_singleton (s : σ) (a : α) : M.run s [a] = M.step s a := by
  rw [run_cons]
  cases M.step s a <;> rfl

theorem run_append (s : σ) (as bs : List α) :
    M.run s (as ++ bs) = (M.run s as).bind fun t => M.run t bs := by
  simp [run, Option.bind_eq_bind]

theorem run_cons_some {s u : σ} {a : α} {as : List α} (h : M.run s (a :: as) = some u) :
    ∃ t, M.step s a = some t ∧ M.run t as = some u := by
  rw [run_cons] at h
  exact Option.bind_eq_some_iff.mp h

/-- Every step of the run of `as` from `s` meets the condition `C`. -/
def Along (C : σ → α → Prop) : σ → List α → Prop
  | _, [] => True
  | s, a :: as => C s a ∧ ∀ t, M.step s a = some t → Along C t as

theorem along_cons {C : σ → α → Prop} {s : σ} {a : α} {as : List α} :
    M.Along C s (a :: as) ↔ C s a ∧
      match M.step s a with
      | some t => M.Along C t as
      | none => True := by
  rw [Along]
  cases M.step s a <;> simp

instance decidableAlong (C : σ → α → Prop) [∀ s a, Decidable (C s a)] :
    ∀ s as, Decidable (M.Along C s as)
  | _, [] => .isTrue trivial
  | s, a :: as =>
    have : Decidable (match M.step s a with
        | some t => M.Along C t as
        | none => True) :=
      match M.step s a with
      | some t => decidableAlong C t as
      | none => .isTrue trivial
    decidable_of_iff _ (M.along_cons).symm

/-- The states that some run from an initial state ends in. -/
def Reachable (s : σ) : Prop := ∃ s₀ as, M.init s₀ ∧ M.run s₀ as = some s

variable {M}

theorem Reachable.step {s t : σ} {a : α} (h : M.Reachable s) (ht : M.step s a = some t) :
    M.Reachable t := by
  obtain ⟨s₀, as, hinit, hrun⟩ := h
  refine ⟨s₀, as ++ [a], hinit, ?_⟩
  rw [run_append, hrun, Option.bind_some, run_singleton, ht]

/-- The invariant rule for the runs whose steps all meet `C`. -/
theorem run_invariant {I : σ → Prop} {C : σ → α → Prop}
    (hstep : ∀ s a t, I s → C s a → M.step s a = some t → I t)
    {s t : σ} {as : List α} (hs : I s) (hc : M.Along C s as) (hr : M.run s as = some t) : I t := by
  induction as generalizing s with
  | nil =>
    cases hr
    exact hs
  | cons a as ih =>
    obtain ⟨u, hsu, hut⟩ := M.run_cons_some hr
    exact ih (hstep s a u hs hc.1 hsu) (hc.2 u hsu) hut

/-- What the steps of a run record, in their order. -/
def recorded {ε : Type*} (M : Machine σ α) (note : σ → α → List ε) : σ → List α → List ε
  | _, [] => []
  | s, a :: as => note s a ++
      match M.step s a with
      | some t => recorded M note t as
      | none => []

/-- The invariant rule for states with what the run has recorded so far. -/
theorem recorded_invariant {ε : Type*} {note : σ → α → List ε} {I : σ → List ε → Prop}
    (hstep : ∀ s es a t, I s es → M.step s a = some t → I t (es ++ note s a))
    {s t : σ} {as : List α} (hs : I s []) (hr : M.run s as = some t) :
    I t (M.recorded note s as) := by
  have hlater : ∀ es, I s es → I t (es ++ M.recorded note s as) := by
    clear hs
    induction as generalizing s with
    | nil =>
      intro es hs
      cases hr
      rwa [recorded, List.append_nil]
    | cons a as ih =>
      intro es hs
      obtain ⟨u, hsu, hut⟩ := M.run_cons_some hr
      rw [recorded, hsu, ← List.append_assoc]
      exact ih hut (es ++ note s a) (hstep s es a u hs hsu)
  exact hlater [] hs

theorem along_true (s : σ) (as : List α) : M.Along (fun _ _ => True) s as := by
  induction as generalizing s with
  | nil => trivial
  | cons a as ih => exact ⟨trivial, fun t _ => ih t⟩

theorem along_of_forall {C : σ → α → Prop} {as : List α} (h : ∀ a ∈ as, ∀ s, C s a) (s : σ) :
    M.Along C s as := by
  induction as generalizing s with
  | nil => trivial
  | cons a as ih =>
    exact ⟨h a List.mem_cons_self s, fun t _ => ih (fun b hb => h b (List.mem_cons_of_mem _ hb)) t⟩

theorem Along.of_append {C : σ → α → Prop} {s : σ} {as bs : List α}
    (hc : M.Along C s (as ++ bs)) : M.Along C s as := by
  induction as generalizing s with
  | nil => trivial
  | cons a as ih => exact ⟨hc.1, fun t ht => ih (hc.2 t ht)⟩

/-- `Along` by the steps of the run. -/
theorem along_iff {C : σ → α → Prop} {s : σ} {as : List α} :
    M.Along C s as ↔ ∀ bs a cs t, as = bs ++ a :: cs → M.run s bs = some t → C t a := by
  induction as generalizing s with
  | nil => simp [Along]
  | cons b as ih =>
    constructor
    · rintro ⟨hb, hrest⟩ bs a cs t heq hrun
      cases bs with
      | nil =>
        cases heq
        cases hrun
        exact hb
      | cons b' bs =>
        cases heq
        obtain ⟨u, hstep, hrun⟩ := M.run_cons_some hrun
        exact ih.mp (hrest u hstep) bs a cs t rfl hrun
    · intro hall
      refine ⟨hall [] b as s rfl rfl, fun u hstep => ih.mpr fun bs a cs t heq hrun => ?_⟩
      refine hall (b :: bs) a cs t (by rw [heq, List.cons_append]) ?_
      rw [run_cons, hstep, Option.bind_some, hrun]

theorem Along.after {C : σ → α → Prop} {s t : σ} {as bs : List α}
    (hc : M.Along C s (as ++ bs)) (hr : M.run s as = some t) : M.Along C t bs := by
  rw [along_iff] at hc ⊢
  intro cs a ds u heq hrun
  refine hc (as ++ cs) a ds u (by rw [heq, List.append_assoc]) ?_
  rw [run_append, hr, Option.bind_some, hrun]

/-- The invariant rule for all runs. -/
theorem reachable_invariant {I : σ → Prop} (hinit : ∀ s, M.init s → I s)
    (hstep : ∀ s a t, I s → M.step s a = some t → I t) {s : σ} (h : M.Reachable s) : I s := by
  obtain ⟨s₀, as, hi, hr⟩ := h
  exact run_invariant (C := fun _ _ => True) (fun s a t hs _ => hstep s a t hs)
    (hinit s₀ hi) (along_true s₀ as) hr

/-- Every state that the run of `as` from `s` visits satisfies `P`. -/
def Throughout (M : Machine σ α) (P : σ → Prop) (s : σ) (as : List α) : Prop :=
  ∀ bs t, bs <+: as → M.run s bs = some t → P t

/-- The invariant rule for every visited state. -/
theorem throughout_of_invariant {I P : σ → Prop} {C : σ → α → Prop} (hP : ∀ s, I s → P s)
    (hstep : ∀ s a t, I s → C s a → M.step s a = some t → I t)
    {s : σ} {as : List α} (hs : I s) (hc : M.Along C s as) : M.Throughout P s as := by
  rintro bs t ⟨cs, rfl⟩ hr
  exact hP t (run_invariant hstep hs (hc.of_append) hr)

/-- What holds between visited states that satisfy `P` holds along the run. -/
theorem along_of_throughout {I P : σ → Prop} {C : σ → α → Prop}
    (hstep : ∀ s a t, I s → M.step s a = some t → I t)
    (hC : ∀ s a t, I s → P s → P t → M.step s a = some t → C s a)
    {s t : σ} {as : List α} (hs : I s) (hr : M.run s as = some t) (hP : M.Throughout P s as) :
    M.Along C s as := by
  refine along_iff.mpr fun bs a cs u heq hu => ?_
  subst heq
  have hI : I u := run_invariant (fun s a t hs _ => hstep s a t hs) hs (along_true s bs) hu
  rw [run_append, hu, Option.bind_some] at hr
  obtain ⟨v, huv, -⟩ := M.run_cons_some hr
  refine hC u a v hI (hP bs u (List.prefix_append _ _) hu) (hP (bs ++ [a]) v ?_ ?_) huv
  · exact ⟨cs, by simp⟩
  · rw [run_append, hu, Option.bind_some, run_singleton, huv]

/-- The machine whose actions are given by a guard and an effect. -/
def guarded (init : σ → Prop) (guard : σ → α → Prop) [∀ s a, Decidable (guard s a)]
    (effect : σ → α → σ) : Machine σ α where
  init := init
  step := fun s a => if guard s a then some (effect s a) else none

theorem guarded_step {init : σ → Prop} {guard : σ → α → Prop} [∀ s a, Decidable (guard s a)]
    {effect : σ → α → σ} {s t : σ} {a : α} :
    (guarded init guard effect).step s a = some t ↔ guard s a ∧ effect s a = t := by
  simp [guarded]

end Machine

/-! ## 2. Simulation with stuttering -/

/-- `M` refines `N` through `abs` on the states that satisfy `I`: `I` is an
invariant of `M`, and each step of `M` is a run of `N` (empty: a stutter). -/
structure Refines {σ : Type u} {α : Type v} {τ : Type w} {β : Type x}
    (M : Machine σ α) (N : Machine τ β) (I : σ → Prop) (abs : σ → τ) : Prop where
  init : ∀ s, M.init s → I s ∧ N.init (abs s)
  step : ∀ s a t, I s → M.step s a = some t → I t ∧ ∃ bs, N.run (abs s) bs = some (abs t)

namespace Refines

variable {σ : Type u} {α : Type v} {τ : Type w} {β : Type x}
variable {M : Machine σ α} {N : Machine τ β} {I : σ → Prop} {abs : σ → τ}

theorem invariant (h : Refines M N I abs) {s : σ} (hs : M.Reachable s) : I s :=
  Machine.reachable_invariant (fun s hi => (h.init s hi).1)
    (fun s a t hI ht => (h.step s a t hI ht).1) hs

theorem run {s t : σ} {as : List α} (h : Refines M N I abs) (hs : I s)
    (hr : M.run s as = some t) : ∃ bs, N.run (abs s) bs = some (abs t) := by
  induction as generalizing s with
  | nil =>
    cases hr
    exact ⟨[], rfl⟩
  | cons a as ih =>
    obtain ⟨u, hsu, hut⟩ := M.run_cons_some hr
    obtain ⟨hu, bs, hbs⟩ := h.step s a u hs hsu
    obtain ⟨cs, hcs⟩ := ih hu hut
    exact ⟨bs ++ cs, by rw [N.run_append, hbs, Option.bind_some, hcs]⟩

theorem reachable (h : Refines M N I abs) {s : σ} (hs : M.Reachable s) : N.Reachable (abs s) := by
  obtain ⟨s₀, as, hi, hr⟩ := hs
  obtain ⟨hI, hN⟩ := h.init s₀ hi
  obtain ⟨bs, hbs⟩ := h.run hI hr
  exact ⟨abs s₀, bs, hN, hbs⟩

end Refines

/-! ## 3. Implementing a specification operation by operation -/

section Implements

variable {σ : Type u} {τ : Type w} {ω : Type v} {ρ : Type x} {ε : Type*}

/-- The operations `ops` in turn, with what each returns. -/
def runOps (exec : σ → ω → Except ε (σ × ρ)) : σ → List ω → Except ε (σ × List ρ)
  | s, [] => .ok (s, [])
  | s, op :: ops =>
    match exec s op with
    | .error e => .error e
    | .ok (t, r) =>
      match runOps exec t ops with
      | .error e => .error e
      | .ok (u, rs) => .ok (u, r :: rs)

/-- The specification of the same operations, which never fails. -/
def specOps (spec : τ → ω → τ × ρ) : τ → List ω → τ × List ρ
  | t, [] => (t, [])
  | t, op :: ops => ((specOps spec (spec t op).1 ops).1,
      (spec t op).2 :: (specOps spec (spec t op).1 ops).2)

/-- Each operation meets its precondition when its turn comes. -/
def LegalOps (exec : σ → ω → Except ε (σ × ρ)) (legal : σ → ω → Prop) : σ → List ω → Prop
  | _, [] => True
  | s, op :: ops => legal s op ∧ ∀ t r, exec s op = .ok (t, r) → LegalOps exec legal t ops

theorem legalOps_cons {exec : σ → ω → Except ε (σ × ρ)} {legal : σ → ω → Prop} {s : σ} {op : ω}
    {ops : List ω} : LegalOps exec legal s (op :: ops) ↔ legal s op ∧
      match exec s op with
      | .ok (t, _) => LegalOps exec legal t ops
      | .error _ => True := by
  rw [LegalOps]
  cases exec s op with
  | error e => simp
  | ok p =>
    obtain ⟨t, r⟩ := p
    simp only [Except.ok.injEq, Prod.mk.injEq, and_congr_right_iff]
    exact fun _ => ⟨fun h => h t r ⟨rfl, rfl⟩, fun h t' r' heq => heq.1 ▸ h⟩

instance decidableLegalOps (exec : σ → ω → Except ε (σ × ρ)) (legal : σ → ω → Prop)
    [∀ s op, Decidable (legal s op)] : ∀ s ops, Decidable (LegalOps exec legal s ops)
  | _, [] => .isTrue trivial
  | s, op :: ops =>
    have : Decidable (match exec s op with
        | .ok (t, _) => LegalOps exec legal t ops
        | .error _ => True) :=
      match exec s op with
      | .ok (t, _) => decidableLegalOps exec legal t ops
      | .error _ => .isTrue trivial
    decidable_of_iff _ legalOps_cons.symm

theorem runOps_cons_ok {exec : σ → ω → Except ε (σ × ρ)} {s u : σ} {op : ω} {ops : List ω}
    {rs : List ρ} (h : runOps exec s (op :: ops) = .ok (u, rs)) :
    ∃ t r rs', exec s op = .ok (t, r) ∧ runOps exec t ops = .ok (u, rs') ∧ rs = r :: rs' := by
  rw [runOps] at h
  split at h
  · cases h
  next t r hexec =>
    split at h
    · cases h
    next v rs' hrest =>
      cases h
      exact ⟨t, r, rs', hexec, hrest, rfl⟩

/-- `LegalOps` by the operations of the run. -/
theorem legalOps_iff {exec : σ → ω → Except ε (σ × ρ)} {legal : σ → ω → Prop} {s : σ}
    {ops : List ω} : LegalOps exec legal s ops ↔ ∀ pre op post t rs, ops = pre ++ op :: post →
      runOps exec s pre = .ok (t, rs) → legal t op := by
  induction ops generalizing s with
  | nil => simp [LegalOps]
  | cons first ops ih =>
    constructor
    · rintro ⟨hfirst, hrest⟩ pre op post t rs heq hrun
      cases pre with
      | nil =>
        cases heq
        cases hrun
        exact hfirst
      | cons first' pre =>
        cases heq
        obtain ⟨u, r, rs', hexec, hrun, -⟩ := runOps_cons_ok hrun
        exact ih.mp (hrest u r hexec) pre op post t rs' rfl hrun
    · intro hall
      refine ⟨hall [] first ops s [] rfl rfl, fun u r hexec => ih.mpr ?_⟩
      intro pre op post t rs heq hrun
      refine hall (first :: pre) op post t (r :: rs) (by rw [heq, List.cons_append]) ?_
      rw [runOps, hexec]
      dsimp only
      rw [hrun]

theorem LegalOps.of_append {exec : σ → ω → Except ε (σ × ρ)} {legal : σ → ω → Prop} {s : σ}
    {ops ops' : List ω} (h : LegalOps exec legal s (ops ++ ops')) : LegalOps exec legal s ops := by
  rw [legalOps_iff] at h ⊢
  intro pre op post t rs heq
  exact h pre op (post ++ ops') t rs (by simp [heq])

theorem LegalOps.and {exec : σ → ω → Except ε (σ × ρ)} {legal legal' : σ → ω → Prop} {s : σ}
    {ops : List ω} (h : LegalOps exec legal s ops) (h' : LegalOps exec legal' s ops) :
    LegalOps exec (fun s op => legal s op ∧ legal' s op) s ops := by
  rw [legalOps_iff] at h h' ⊢
  intro pre op post t rs heq hrun
  exact ⟨h pre op post t rs heq hrun, h' pre op post t rs heq hrun⟩

theorem LegalOps.and_forall {exec : σ → ω → Except ε (σ × ρ)} {legal : σ → ω → Prop}
    {P : ω → Prop} {s : σ} {ops : List ω} (h : LegalOps exec legal s ops) (hP : ∀ op ∈ ops, P op) :
    LegalOps exec (fun s op => legal s op ∧ P op) s ops := by
  induction ops generalizing s with
  | nil => trivial
  | cons op ops ih =>
    refine ⟨⟨h.1, hP op List.mem_cons_self⟩, fun t r ht => ?_⟩
    exact ih (h.2 t r ht) fun op' hop => hP op' (List.mem_cons_of_mem _ hop)

/-- The invariant rule for the operations that return. -/
theorem runOps_invariant {exec : σ → ω → Except ε (σ × ρ)} {legal : σ → ω → Prop} {I : σ → Prop}
    (hstep : ∀ s op t r, I s → legal s op → exec s op = .ok (t, r) → I t) {s t : σ} {ops : List ω}
    {rs : List ρ} (hs : I s) (hl : LegalOps exec legal s ops)
    (hrun : runOps exec s ops = .ok (t, rs)) : I t := by
  induction ops generalizing s rs with
  | nil =>
    cases hrun
    exact hs
  | cons op ops ih =>
    obtain ⟨u, r, rs', hexec, hrest, -⟩ := runOps_cons_ok hrun
    exact ih (hstep s op u r hs hl.1 hexec) (hl.2 u r hexec) hrest

/-- Where each legal operation returns under an invariant, so does the run. -/
theorem runOps_returns {exec : σ → ω → Except ε (σ × ρ)} {legal : σ → ω → Prop} {I : σ → Prop}
    (hreturns : ∀ s op, I s → legal s op → ∃ t r, exec s op = .ok (t, r) ∧ I t) {s : σ}
    {ops : List ω} (hs : I s) (hl : LegalOps exec legal s ops) :
    ∃ t rs, runOps exec s ops = .ok (t, rs) := by
  induction ops generalizing s with
  | nil => exact ⟨s, [], rfl⟩
  | cons op ops ih =>
    obtain ⟨t, r, hexec, ht⟩ := hreturns s op hs hl.1
    obtain ⟨u, rs, hrun⟩ := ih ht (hl.2 t r hexec)
    exact ⟨u, r :: rs, by rw [runOps, hexec]; dsimp only; rw [hrun]⟩

/-- `exec` implements `spec` under the relation `R`: a legal operation
succeeds, returns what the specification returns and keeps the relation. -/
def Implements (exec : σ → ω → Except ε (σ × ρ)) (spec : τ → ω → τ × ρ)
    (legal : σ → ω → Prop) (R : σ → τ → Prop) : Prop :=
  ∀ s t op, R s t → legal s op →
    ∃ s', exec s op = .ok (s', (spec t op).2) ∧ R s' (spec t op).1

theorem Implements.run {exec : σ → ω → Except ε (σ × ρ)} {spec : τ → ω → τ × ρ}
    {legal : σ → ω → Prop} {R : σ → τ → Prop} (h : Implements exec spec legal R)
    {s : σ} {t : τ} (ops : List ω) (hR : R s t) (hl : LegalOps exec legal s ops) :
    ∃ s', runOps exec s ops = .ok (s', (specOps spec t ops).2) ∧ R s' (specOps spec t ops).1 := by
  induction ops generalizing s t with
  | nil => exact ⟨s, rfl, hR⟩
  | cons op ops ih =>
    obtain ⟨s₁, hexec, hR₁⟩ := h s t op hR hl.1
    obtain ⟨s₂, hrun, hR₂⟩ := ih hR₁ (hl.2 _ _ hexec)
    exact ⟨s₂, by simp [runOps, specOps, hexec, hrun], hR₂⟩

end Implements

end Trans
