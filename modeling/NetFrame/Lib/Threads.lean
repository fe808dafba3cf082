import NetFrame.Lib.Machine
import Mathlib.Logic.Function.Basic

/-!
# Threads with call stacks

Any number of threads over a shared state, each with the calls that it has still
to make. A thread executes its next call in one step: the shared state changes,
and the calls that the body makes come before the rest.

Results:
1. `mem_stack_after`, `returned_step`: where a call on a stack comes from, and that
   a thread which has returned stays so.
2. `Confines.reachable`: if each body calls only what belongs on its thread, then
   every call that has been executed belonged on the thread that executed it.
-/

namespace Threads

universe u v w x

variable {T : Type u} {K : Type v} {σ : Type w} {β : Type x}

/-! ## 1. Programs and their runs -/

/-- What the execution of a call does. -/
structure Result (T : Type u) (K : Type v) (σ : Type w) where
  shared : σ
  /-- The calls that the body makes, in order. -/
  calls : List K
  /-- The thread that it starts, with its first call. -/
  start : Option (T × K)

/-- `exec` gives the body of a call on a thread, where the threads have `stack`
to do and `β` is what the environment decides; it is `none` while the call
blocks. Threads from elsewhere begin with the call `outside`. -/
structure Program (T : Type u) (K : Type v) (σ : Type w) (β : Type x) where
  exec : σ → (T → List K) → T → K → β → Option (Result T K σ)
  outside : K

/-- A call that has been executed, and the shared state that it found. -/
structure Executed (T : Type u) (K : Type v) (σ : Type w) where
  thread : T
  call : K
  shared : σ

structure State (T : Type u) (K : Type v) (σ : Type w) where
  shared : σ
  stack : T → List K
  started : List T
  trace : List (Executed T K σ)

inductive Act (T : Type u) (β : Type x) where
  /-- The thread executes its next call. -/
  | run (t : T) (b : β)
  /-- A thread from elsewhere begins. -/
  | begin (t : T)
  deriving DecidableEq, Repr

section

variable [DecidableEq T]

/-- The new thread, if there is one. -/
def State.start (s : State T K σ) : Option (T × K) → State T K σ
  | some (t, k) =>
    { s with stack := Function.update s.stack t [k], started := t :: s.started }
  | none => s

/-- The thread `t` has executed `k` with the result `r`. -/
def State.after (s : State T K σ) (t : T) (k : K) (rest : List K) (r : Result T K σ) :
    State T K σ :=
  { s with
    shared := r.shared
    stack := Function.update s.stack t (r.calls ++ rest)
    trace := s.trace ++ [⟨t, k, s.shared⟩] }

/-- A thread is started once. -/
def State.New (s : State T K σ) (start : Option (T × K)) : Prop := ∀ x ∈ start, x.1 ∉ s.started

instance (s : State T K σ) (start : Option (T × K)) : Decidable (s.New start) :=
  match start with
  | none => .isTrue (by simp [State.New])
  | some x => decidable_of_iff (x.1 ∉ s.started) (by simp [State.New])

namespace Program

variable (P : Program T K σ β)

def step (s : State T K σ) : Act T β → Option (State T K σ)
  | .run t b =>
    match s.stack t with
    | [] => none
    | k :: rest => (P.exec s.shared s.stack t k b).bind fun r =>
        if s.New r.start then some ((s.after t k rest r).start r.start) else none
  | .begin t => if t ∈ s.started then none else some (s.start (some (t, P.outside)))

def machine (init : State T K σ → Prop) : Trans.Machine (State T K σ) (Act T β) where
  init := init
  step := P.step

/-- What one step does. -/
inductive Stepped (s : State T K σ) : Act T β → State T K σ → Prop where
  | run {t : T} {b : β} {k : K} {rest : List K} {r : Result T K σ} (hstack : s.stack t = k :: rest)
      (hexec : P.exec s.shared s.stack t k b = some r) (hnew : s.New r.start) :
      Stepped s (.run t b) ((s.after t k rest r).start r.start)
  | begin {t : T} (hnew : t ∉ s.started) : Stepped s (.begin t) (s.start (some (t, P.outside)))

variable {P}

theorem step_stepped {s s' : State T K σ} {a : Act T β} (h : P.step s a = some s') :
    P.Stepped s a s' := by
  cases a with
  | run t b =>
    rw [step] at h
    split at h
    · cases h
    next k rest hstack =>
      obtain ⟨r, hexec, h⟩ := Option.bind_eq_some_iff.mp h
      split at h
      · next hnew =>
        cases h
        exact .run hstack hexec hnew
      · cases h
  | begin t =>
    rw [step] at h
    split at h
    · cases h
    · next hnew =>
      cases h
      exact .begin hnew

end Program

end

/-! ## 2. The calls on the stacks -/

/-- Every call that a thread has still to make satisfies `Q`. -/
def State.Everywhere (s : State T K σ) (Q : K → Prop) : Prop := ∀ u, ∀ k ∈ s.stack u, Q k

section

variable [DecidableEq T] {P : Program T K σ β} {s s' : State T K σ} {t u : T} {k k' : K}
variable {rest : List K} {r : Result T K σ} {x : Option (T × K)} {Q : K → Prop}

omit [DecidableEq T] in
theorem head_mem (hstack : s.stack t = k :: rest) : k ∈ s.stack t := by
  rw [hstack]
  exact List.mem_cons_self

@[simp] theorem start_shared : (s.start x).shared = s.shared := by
  cases x <;> rfl

@[simp] theorem start_trace : (s.start x).trace = s.trace := by
  cases x <;> rfl

theorem started_start (hu : u ∈ s.started) : u ∈ (s.start x).started := by
  cases x with
  | none => exact hu
  | some y => exact List.mem_cons_of_mem _ hu

theorem start_stack_ne (hne : u ≠ t) : (s.start (some (t, k))).stack u = s.stack u :=
  Function.update_of_ne hne _ _

theorem mem_stack_start (h : k ∈ (s.start x).stack u) : k ∈ s.stack u ∨ x = some (u, k) := by
  cases x with
  | none => exact .inl h
  | some y =>
    simp only [State.start, Function.update_apply] at h
    split at h
    · next heq =>
      cases List.mem_singleton.mp h
      exact .inr (by rw [heq])
    · exact .inl h

/-- A call on a stack was there before, or the body has just made it, or it is
the first one of a new thread. -/
theorem mem_stack_after (hstack : s.stack t = k :: rest)
    (h : k' ∈ ((s.after t k rest r).start r.start).stack u) :
    (u = t ∧ k' ∈ r.calls) ∨ k' ∈ s.stack u ∨ r.start = some (u, k') := by
  rcases mem_stack_start h with h | h
  · simp only [State.after, Function.update_apply] at h
    split at h
    · next heq =>
      rcases List.mem_append.mp h with hnew | hold
      · exact .inl ⟨heq, hnew⟩
      · refine .inr (.inl ?_)
        rw [heq, hstack]
        exact List.mem_cons_of_mem _ hold
    · exact .inr (.inl h)
  · exact .inr (.inr h)

theorem State.Everywhere.after (hs : s.Everywhere Q) (hstack : s.stack t = k :: rest)
    (hcalls : ∀ k' ∈ r.calls, Q k') (hstart : ∀ x ∈ r.start, Q x.2) :
    ((s.after t k rest r).start r.start).Everywhere Q := by
  intro u k' hk'
  rcases mem_stack_after hstack hk' with ⟨-, hnew⟩ | hold | hnew
  · exact hcalls k' hnew
  · exact hs u k' hold
  · exact hstart (u, k') hnew

theorem State.Everywhere.start (hs : s.Everywhere Q) (hstart : ∀ y ∈ x, Q y.2) :
    (s.start x).Everywhere Q := by
  intro u k hk
  rcases mem_stack_start hk with hold | hnew
  · exact hs u k hold
  · exact hstart (u, k) hnew

/-- Only threads that have been started have calls to make. -/
def State.Begun (s : State T K σ) : Prop := ∀ u, s.stack u ≠ [] → u ∈ s.started

theorem State.Begun.start (hs : s.Begun) : (s.start x).Begun := by
  cases x with
  | none => exact hs
  | some y =>
    intro u hu
    simp only [State.start, Function.update_apply] at hu
    split at hu
    · next heq => exact heq ▸ List.mem_cons_self
    · exact List.mem_cons_of_mem _ (hs u hu)

theorem State.Begun.step (hs : s.Begun) {a : Act T β} (h : P.step s a = some s') : s'.Begun := by
  cases Program.step_stepped h with
  | begin hnew => exact hs.start
  | @run t b k rest r hstack hexec hnew =>
    refine State.Begun.start fun u hu => ?_
    simp only [State.after, Function.update_apply] at hu
    split at hu
    · next heq => exact hs u (by simp [heq, hstack])
    · exact hs u hu

/-- A thread that has returned does nothing any more. -/
theorem returned_step {a : Act T β} (hu : u ∈ s.started) (hend : s.stack u = [])
    (h : P.step s a = some s') : s'.stack u = [] := by
  refine List.eq_nil_iff_forall_not_mem.mpr fun k hk => ?_
  cases Program.step_stepped h with
  | begin hnew =>
    rcases mem_stack_start hk with hold | hfirst
    · simp [hend] at hold
    · cases hfirst
      exact hnew hu
  | run hstack hexec hnew =>
    rcases mem_stack_after hstack hk with ⟨rfl, -⟩ | hold | hfirst
    · simp [hend] at hstack
    · simp [hend] at hold
    · exact hnew _ hfirst hu

end

/-! ## 3. Confinement -/

/-- A body that is executed where it belongs calls what belongs there, starts
threads with what belongs on them, and leaves everything else in its place. -/
structure Confines (P : Program T K σ β) (I : σ → Prop) (At : σ → T → K → Prop) : Prop where
  outside : ∀ s t, At s t P.outside
  exec : ∀ s stack t k b r, I s → At s t k → P.exec s stack t k b = some r →
    I r.shared ∧ (∀ k' ∈ r.calls, At r.shared t k') ∧
      (∀ x ∈ r.start, At r.shared x.1 x.2) ∧ ∀ u k', At s u k' → At r.shared u k'

/-- All calls are where they belong. -/
structure Confined (I : σ → Prop) (At : σ → T → K → Prop) (s : State T K σ) : Prop where
  shared : I s.shared
  stack : ∀ t, ∀ k ∈ s.stack t, At s.shared t k
  trace : ∀ e ∈ s.trace, At e.shared e.thread e.call

section

variable [DecidableEq T] {P : Program T K σ β} {I : σ → Prop} {At : σ → T → K → Prop}
variable {s s' : State T K σ}

theorem Confined.start (hs : Confined I At s) {start : Option (T × K)}
    (hstart : ∀ x ∈ start, At s.shared x.1 x.2) : Confined I At (s.start start) := by
  refine ⟨?_, fun u k hk => ?_, ?_⟩
  · rw [start_shared]
    exact hs.shared
  · rw [start_shared]
    rcases mem_stack_start hk with hold | hnew
    · exact hs.stack u k hold
    · exact hstart (u, k) hnew
  · rw [start_trace]
    exact hs.trace

theorem Confines.step (hP : Confines P I At) (hs : Confined I At s) {a : Act T β}
    (h : P.step s a = some s') : Confined I At s' := by
  cases Program.step_stepped h with
  | begin hnew =>
    refine hs.start fun x hx => ?_
    cases hx
    exact hP.outside _ _
  | @run t b k rest r hstack hexec hnew =>
    have hk := hs.stack t k (head_mem hstack)
    obtain ⟨hI, hcalls, hstart, hkeep⟩ := hP.exec _ _ _ _ _ _ hs.shared hk hexec
    refine ⟨?_, fun u k' hk' => ?_, fun e he => ?_⟩
    · rw [start_shared]
      exact hI
    · rw [start_shared]
      rcases mem_stack_after hstack hk' with ⟨rfl, hcall⟩ | hold | hfirst
      · exact hcalls k' hcall
      · exact hkeep u k' (hs.stack u k' hold)
      · exact hstart (u, k') hfirst
    · rw [start_trace] at he
      rcases List.mem_append.mp he with hold | hnew
      · exact hs.trace e hold
      · cases List.mem_singleton.mp hnew
        exact hk

theorem Confines.reachable (hP : Confines P I At) {init : State T K σ → Prop}
    (hinit : ∀ s, init s → Confined I At s) (hs : (P.machine init).Reachable s) :
    Confined I At s := by
  refine Trans.Machine.reachable_invariant (I := Confined I At) hinit ?_ hs
  intro s a t hs h
  exact hP.step hs h

end

end Threads
