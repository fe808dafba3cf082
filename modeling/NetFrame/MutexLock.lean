import NetFrame.Basic
import NetFrame.Lib.Machine
import NetFrame.Lib.Outcome
import Mathlib.Logic.Function.Basic

/-!
# The holder of a `MutexLock`

`Mutex.h` and `Condition.h`, `Condition.cpp`: a `MutexLock` keeps the thread that
has its pthread mutex in `holder_`, for `assertLocked`. `lock` and `unlock` write
it; `Condition::wait` and `Condition::waitForSeconds` release the mutex and take
it again inside pthread, and do not.

Any number of threads take turns at the level of the pthread calls and the
writes to `holder_`. A thread is named by its tid.

Results:
1. `wait_loses_holder`: a thread that comes back from a wait may not be the
   holder, so that its `assertLocked` fails.
2. `holder_tracks_iff`: `holder_` follows the mutex throughout a run if and only
   if each wait begins while another thread is in `lock` and ends before another
   thread has got the mutex by `lock`; so it does where nobody waits.
-/

namespace NetFrame

namespace MutexLock

open Outcome Function

/-! ## 1. The state -/

/-- What `CurrentThread::tid()` returns. -/
abbrev Tid := { tid : Int // 0 < tid }

/-- Tids for examples. -/
def Tid.succ (n : Nat) : Tid := ⟨(n + 1 : Nat), Int.natCast_succ_pos n⟩

theorem Tid.succ_injective : Function.Injective Tid.succ := fun _ _ h =>
  Nat.succ.inj (Int.ofNat.inj (congrArg Subtype.val h))

/-- Where a thread is. -/
inductive Pc where
  /-- Outside of the calls, and without the mutex. -/
  | outside
  /-- In `lock`, before `pthread_mutex_lock` has the mutex. -/
  | locking
  /-- In `lock`, before `holder_` is written. -/
  | locked
  /-- Outside of the calls, with the mutex. -/
  | holding
  /-- In `lock` again, for ever: the mutex is its own. -/
  | relocking
  /-- In `unlock`, after `holder_` is written. -/
  | unlocking
  /-- In `wait` or `waitForSeconds` of a condition. -/
  | waiting (cond : Nat) (timed : Bool)
  deriving DecidableEq, Repr

namespace Pc

def inLock : Pc → Bool
  | .locking | .locked | .relocking => true
  | _ => false

def inUnlock : Pc → Bool
  | .unlocking => true
  | _ => false

def inWait : Pc → Bool
  | .waiting _ _ => true
  | _ => false

/-- The thread has the mutex. -/
def owns : Pc → Bool
  | .locked | .holding | .relocking | .unlocking => true
  | _ => false

end Pc

structure State where
  /-- The owner of the pthread mutex `mutex_`. -/
  mutex : Option Tid
  holder : Int
  pc : Tid → Pc
  /-- The threads that no one has woken yet, with their conditions. -/
  blocked : List (Tid × Nat)
  /-- The thread that has got the mutex by `lock` last. -/
  lastLock : Option Tid

namespace State

/-! ## 2. The functions -/

def isLockedByThisThread (s : State) (t : Tid) : Bool := s.holder = t.1

def assertLocked (s : State) (t : Tid) : Except Fault Unit :=
  check (s.isLockedByThisThread t) "isLockedByThisThread()"

def goto (s : State) (t : Tid) (pc : Pc) : State := { s with pc := update s.pc t pc }

/-- `lock` is called. -/
def lock (s : State) (t : Tid) : State :=
  s.goto t (if s.pc t = .holding then .relocking else .locking)

/-- `pthread_mutex_lock` of `lock` returns. -/
def acquire (s : State) (t : Tid) : State :=
  ({ s with mutex := some t, lastLock := some t } : State).goto t .locked

/-- `holder_ = CurrentThread::tid()`, and `lock` returns. -/
def hold (s : State) (t : Tid) : State := ({ s with holder := t.1 } : State).goto t .holding

/-- `unlock` is called: `holder_ = 0`. -/
def unlock (s : State) (t : Tid) : State := ({ s with holder := 0 } : State).goto t .unlocking

/-- `pthread_mutex_unlock`, and `unlock` returns. -/
def release (s : State) (t : Tid) : State := ({ s with mutex := none } : State).goto t .outside

/-- `pthread_cond_wait` and `pthread_cond_timedwait` release the mutex. -/
def wait (s : State) (t : Tid) (cond : Nat) (timed : Bool) : State :=
  ({ s with mutex := none, blocked := s.blocked ++ [(t, cond)] } : State).goto t
    (.waiting cond timed)

/-- They have the mutex again, and return. -/
def reacquire (s : State) (t : Tid) : State := ({ s with mutex := some t } : State).goto t .holding

end State

/-! ## 3. Runs -/

inductive Act where
  /-- `lock` is called. -/
  | lock (t : Tid)
  | acquire (t : Tid)
  | hold (t : Tid)
  | unlock (t : Tid)
  | release (t : Tid)
  | wait (t : Tid) (cond : Nat)
  | waitForSeconds (t : Tid) (cond : Nat)
  /-- `notify` wakes a thread that is blocked on the condition, if there is one. -/
  | notify (t : Tid) (cond : Nat) (woken : Option Tid)
  | notifyAll (t : Tid) (cond : Nat)
  /-- A wait is woken up spuriously, or is over its time. -/
  | wake (t : Tid)
  | reacquire (t : Tid)
  deriving DecidableEq

/-- `unlock` and the waits are called by the thread that has the mutex. -/
def guard (s : State) : Act → Prop
  | .lock t => s.pc t = .outside ∨ s.pc t = .holding
  | .acquire t => s.pc t = .locking ∧ s.mutex = none
  | .hold t => s.pc t = .locked
  | .unlock t | .wait t _ | .waitForSeconds t _ => s.pc t = .holding
  | .release t => s.pc t = .unlocking
  | .notify t cond woken => (s.pc t = .outside ∨ s.pc t = .holding) ∧
      match woken with
      | some u => (u, cond) ∈ s.blocked
      | none => ∀ b ∈ s.blocked, b.2 ≠ cond
  | .notifyAll t _ => s.pc t = .outside ∨ s.pc t = .holding
  | .wake t => t ∈ s.blocked.map Prod.fst
  | .reacquire t => (s.pc t).inWait ∧ t ∉ s.blocked.map Prod.fst ∧ s.mutex = none

instance (s : State) : ∀ a, Decidable (guard s a)
  | .lock t => inferInstanceAs (Decidable (s.pc t = .outside ∨ s.pc t = .holding))
  | .acquire t => inferInstanceAs (Decidable (s.pc t = .locking ∧ s.mutex = none))
  | .hold t => inferInstanceAs (Decidable (s.pc t = .locked))
  | .unlock t | .wait t _ | .waitForSeconds t _ => inferInstanceAs (Decidable (s.pc t = .holding))
  | .release t => inferInstanceAs (Decidable (s.pc t = .unlocking))
  | .notify t cond (some u) => inferInstanceAs (Decidable
      ((s.pc t = .outside ∨ s.pc t = .holding) ∧ (u, cond) ∈ s.blocked))
  | .notify t cond none => inferInstanceAs (Decidable
      ((s.pc t = .outside ∨ s.pc t = .holding) ∧ ∀ b ∈ s.blocked, b.2 ≠ cond))
  | .notifyAll t _ => inferInstanceAs (Decidable (s.pc t = .outside ∨ s.pc t = .holding))
  | .wake t => inferInstanceAs (Decidable (t ∈ s.blocked.map Prod.fst))
  | .reacquire t => inferInstanceAs (Decidable
      ((s.pc t).inWait ∧ t ∉ s.blocked.map Prod.fst ∧ s.mutex = none))

def effect (s : State) : Act → State
  | .lock t => s.lock t
  | .acquire t => s.acquire t
  | .hold t => s.hold t
  | .unlock t => s.unlock t
  | .release t => s.release t
  | .wait t cond => s.wait t cond false
  | .waitForSeconds t cond => s.wait t cond true
  | .notify _ cond (some u) => { s with blocked := s.blocked.erase (u, cond) }
  | .notify _ _ none => s
  | .notifyAll _ cond => { s with blocked := s.blocked.filter (·.2 ≠ cond) }
  | .wake t => { s with blocked := s.blocked.filter (·.1 ≠ t) }
  | .reacquire t => s.reacquire t

/-- The constructor. -/
def start : State where
  mutex := none
  holder := 0
  pc := fun _ => .outside
  blocked := []
  lastLock := none

def machine : Trans.Machine State Act := Trans.Machine.guarded (· = start) guard effect

/-- `holder_` is the thread that has the mutex, or 0. -/
structure Tracks (s : State) : Prop where
  held : ∀ t, s.mutex = some t → ¬(s.pc t).inLock → ¬(s.pc t).inUnlock → ¬(s.pc t).inWait →
    s.holder = t.1 ∧ s.assertLocked t = .ok ()
  free : s.mutex = none → (∀ t, ¬(s.pc t).inLock ∧ ¬(s.pc t).inUnlock) → s.holder = 0

/-- A thread waits while another one locks and unlocks the mutex. -/
def notified : List Act :=
  [.lock ⟨1, by decide⟩, .acquire ⟨1, by decide⟩, .hold ⟨1, by decide⟩, .wait ⟨1, by decide⟩ 0,
    .lock ⟨2, by decide⟩, .acquire ⟨2, by decide⟩, .hold ⟨2, by decide⟩,
    .notify ⟨2, by decide⟩ 0 (some ⟨1, by decide⟩), .unlock ⟨2, by decide⟩,
    .release ⟨2, by decide⟩, .reacquire ⟨1, by decide⟩]

theorem wait_loses_holder : ∃ s, machine.run start notified = some s ∧
    s.mutex = some ⟨1, by decide⟩ ∧ s.pc ⟨1, by decide⟩ = .holding ∧ s.holder = 0 ∧
    s.assertLocked ⟨1, by decide⟩ = .error (.assertion "isLockedByThisThread()") ∧ ¬Tracks s := by
  have hruns : (machine.run start notified).map
      (fun s => (s.mutex, s.pc ⟨1, by decide⟩, s.holder)) =
        some (some ⟨1, by decide⟩, .holding, 0) := by
    decide +kernel
  obtain ⟨s, hrun, heq⟩ := Option.map_eq_some_iff.mp hruns
  simp only [Prod.mk.injEq] at heq
  obtain ⟨hmutex, hpc, hholder⟩ := heq
  refine ⟨s, hrun, hmutex, hpc, hholder, ?_, fun htracks => ?_⟩
  · simp [State.assertLocked, State.isLockedByThisThread, check, hholder]
  · have hheld := (htracks.held _ hmutex (by simp [hpc, Pc.inLock]) (by simp [hpc, Pc.inUnlock])
      (by simp [hpc, Pc.inWait])).1
    rw [hholder] at hheld
    exact absurd hheld (by decide)

/-! ## 4. The invariants -/

section

variable {s t : State} {a : Act} {u : Tid} {pc : Pc}

/-- The mutex and the places of the threads agree. -/
def Owned (s : State) : Prop := ∀ t, s.mutex = some t ↔ (s.pc t).owns

/-- `holder_` is 0 or the thread that has locked the mutex last. -/
def Known (s : State) : Prop := s.holder = 0 ∨ ∃ t : Tid, s.holder = t.1 ∧ s.lastLock = some t

theorem assertLocked_iff : s.assertLocked u = .ok () ↔ s.holder = u.1 := by
  unfold State.assertLocked State.isLockedByThisThread check
  split
  · next h => exact iff_of_true rfl (of_decide_eq_true h)
  · next h => exact iff_of_false nofun fun heq => h (decide_eq_true heq)

/-- What holds in every run. -/
structure Inv (s : State) : Prop where
  owned : Owned s
  locked : ∀ t, s.pc t = .locked → s.lastLock = some t
  unlocking : ∀ t, s.pc t = .unlocking → s.holder = 0
  known : (∀ t, s.pc t ≠ .locked) → Known s

theorem enabled (hg : guard s a) : machine.step s a = some (effect s a) :=
  Trans.Machine.guarded_step.mpr ⟨hg, rfl⟩

theorem goto_cases {v : Tid} {p : Pc → Prop} (h : p (update s.pc u pc v)) :
    v = u ∧ p pc ∨ v ≠ u ∧ p (s.pc v) := by
  rw [update_apply] at h
  split at h
  · next heq => exact .inl ⟨heq, h⟩
  · next hne => exact .inr ⟨hne, h⟩

/-- A thread goes on, with or without the mutex. -/
theorem Owned.keep (hs : Owned s) (hpc : pc.owns = (s.pc u).owns) (v : Tid) :
    s.mutex = some v ↔ (update s.pc u pc v).owns := by
  rw [update_apply]
  split
  · next heq => rw [hpc, heq, hs]
  · exact hs v

/-- A thread gets the free mutex. -/
theorem Owned.take (hs : Owned s) (hfree : s.mutex = none) (hpc : pc.owns) (v : Tid) :
    some u = some v ↔ (update s.pc u pc v).owns := by
  rw [update_apply, Option.some_inj]
  split
  · next heq => exact iff_of_true heq.symm hpc
  · next hne =>
    have hnot : ¬(s.pc v).owns := by
      rw [← hs, hfree]
      exact (Option.some_ne_none v).symm
    exact iff_of_false (fun h => hne h.symm) hnot

/-- The owner gives the mutex back. -/
theorem Owned.give (hs : Owned s) (howns : (s.pc u).owns) (hpc : ¬pc.owns) (v : Tid) :
    none = some v ↔ (update s.pc u pc v).owns := by
  rw [update_apply]
  split
  · exact iff_of_false (Option.some_ne_none v).symm hpc
  · next hne =>
    have hnot : ¬(s.pc v).owns := by
      rw [← hs, (hs u).mpr howns, Option.some_inj]
      exact fun h => hne h.symm
    exact iff_of_false (Option.some_ne_none v).symm hnot

theorem Inv.start : Inv start :=
  ⟨fun t => iff_of_false (Option.some_ne_none t).symm Bool.false_ne_true,
    fun _ h => Pc.noConfusion h, fun _ h => Pc.noConfusion h, fun _ => .inl rfl⟩

theorem Inv.mutex_eq (hs : Inv s) (howns : (s.pc u).owns) : s.mutex = some u :=
  (hs.owned u).mpr howns

/-- At most one thread owns the mutex. -/
theorem Inv.alone {v : Tid} (hs : Inv s) (hu : (s.pc u).owns) (hv : (s.pc v).owns) : v = u :=
  Option.some.inj ((hs.mutex_eq hv).symm.trans (hs.mutex_eq hu))

theorem Inv.not_owns (hs : Inv s) (hfree : s.mutex = none) (v : Tid) : ¬(s.pc v).owns := by
  intro hv
  exact Option.some_ne_none v ((hs.mutex_eq hv).symm.trans hfree)

/-- A call that leaves `holder_` alone. -/
theorem Inv.goto (hs : Inv s) (howned : ∀ v, t.mutex = some v ↔ (update s.pc u pc v).owns)
    (hpcs : t.pc = update s.pc u pc) (hholder : t.holder = s.holder)
    (hlast : t.lastLock = s.lastLock) (hold : s.pc u ≠ .locked) (hlocked : pc ≠ .locked)
    (hunlocking : pc ≠ .unlocking) : Inv t := by
  refine ⟨fun v => hpcs ▸ howned v, fun v hv => ?_, fun v hv => ?_, fun hno => ?_⟩
  · rcases goto_cases (p := (· = _)) (hpcs ▸ hv) with ⟨-, heq⟩ | ⟨-, hv⟩
    · exact absurd heq hlocked
    · exact hlast.trans (hs.locked v hv)
  · rcases goto_cases (p := (· = _)) (hpcs ▸ hv) with ⟨-, heq⟩ | ⟨-, hv⟩
    · exact absurd heq hunlocking
    · exact hholder.trans (hs.unlocking v hv)
  · unfold Known
    rw [hholder, hlast]
    refine hs.known fun v hv => ?_
    by_cases hvu : v = u
    · exact hold (hvu ▸ hv)
    · refine hno v ?_
      rw [hpcs, update_of_ne hvu, hv]

theorem Inv.acquire (hs : Inv s) (hpc : s.pc u = .locking) (hfree : s.mutex = none) :
    Inv (s.acquire u) := by
  have hnone := hs.not_owns hfree
  refine ⟨hs.owned.take hfree rfl, fun v hv => ?_, fun v hv => ?_, fun hno => ?_⟩
  · rcases goto_cases (p := (· = _)) hv with ⟨rfl, -⟩ | ⟨-, hv⟩
    · rfl
    · exact absurd (hv ▸ rfl) (hnone v)
  · rcases goto_cases (p := (· = _)) hv with ⟨-, heq⟩ | ⟨-, hv⟩
    · cases heq
    · exact absurd (hv ▸ rfl) (hnone v)
  · exact absurd (update_self _ _ _) (hno u)

theorem Inv.hold (hs : Inv s) (hpc : s.pc u = .locked) : Inv (s.hold u) := by
  have howns : (s.pc u).owns := hpc ▸ rfl
  refine ⟨hs.owned.keep howns.symm, fun v hv => ?_, fun v hv => ?_, fun _ => ?_⟩
  · rcases goto_cases (p := (· = _)) hv with ⟨-, heq⟩ | ⟨-, hv⟩
    · cases heq
    · exact hs.locked v hv
  · rcases goto_cases (p := (· = _)) hv with ⟨-, heq⟩ | ⟨hne, hv⟩
    · cases heq
    · exact absurd (hs.alone howns (hv ▸ rfl)) hne
  · exact .inr ⟨u, rfl, hs.locked u hpc⟩

theorem Inv.unlock (hs : Inv s) (hpc : s.pc u = .holding) : Inv (s.unlock u) := by
  have howns : (s.pc u).owns := hpc ▸ rfl
  refine ⟨hs.owned.keep howns.symm, fun v hv => ?_, fun v _ => rfl, fun _ => .inl rfl⟩
  rcases goto_cases (p := (· = _)) hv with ⟨-, heq⟩ | ⟨-, hv⟩
  · cases heq
  · exact hs.locked v hv

theorem Inv.lock (hs : Inv s) (hpc : s.pc u = .outside ∨ s.pc u = .holding) : Inv (s.lock u) := by
  unfold State.lock
  split
  · next hholding =>
    refine hs.goto (hs.owned.keep ?_) rfl rfl rfl ?_ Pc.noConfusion Pc.noConfusion
    · rw [hholding]
      rfl
    · rw [hholding]
      exact Pc.noConfusion
  · next hnot =>
    have hout : s.pc u = .outside := hpc.resolve_right hnot
    refine hs.goto (hs.owned.keep ?_) rfl rfl rfl ?_ Pc.noConfusion Pc.noConfusion
    · rw [hout]
      rfl
    · rw [hout]
      exact Pc.noConfusion

theorem Inv.release (hs : Inv s) (hpc : s.pc u = .unlocking) : Inv (s.release u) := by
  have howned : Owned (s.release u) := hs.owned.give (hpc ▸ rfl) Bool.false_ne_true
  refine hs.goto howned rfl rfl rfl ?_ Pc.noConfusion Pc.noConfusion
  rw [hpc]
  exact Pc.noConfusion

theorem Inv.wait (hs : Inv s) (hpc : s.pc u = .holding) (cond : Nat) (timed : Bool) :
    Inv (s.wait u cond timed) := by
  have howned : Owned (s.wait u cond timed) := hs.owned.give (hpc ▸ rfl) Bool.false_ne_true
  refine hs.goto howned rfl rfl rfl ?_ Pc.noConfusion Pc.noConfusion
  rw [hpc]
  exact Pc.noConfusion

theorem Inv.reacquire (hs : Inv s) (hwait : (s.pc u).inWait) (hfree : s.mutex = none) :
    Inv (s.reacquire u) := by
  refine hs.goto (hs.owned.take hfree rfl) rfl rfl rfl ?_ Pc.noConfusion Pc.noConfusion
  intro heq
  rw [heq] at hwait
  cases hwait

theorem Inv.step (hs : Inv s) (h : machine.step s a = some t) : Inv t := by
  obtain ⟨hg, rfl⟩ := Trans.Machine.guarded_step.mp h
  cases a with
  | lock u => exact hs.lock hg
  | acquire u => exact hs.acquire hg.1 hg.2
  | hold u => exact hs.hold hg
  | unlock u => exact hs.unlock hg
  | release u => exact hs.release hg
  | wait u cond => exact hs.wait hg cond false
  | waitForSeconds u cond => exact hs.wait hg cond true
  | notify u cond woken =>
    cases woken with
    | some v => exact ⟨hs.owned, hs.locked, hs.unlocking, hs.known⟩
    | none => exact hs
  | notifyAll u cond => exact ⟨hs.owned, hs.locked, hs.unlocking, hs.known⟩
  | wake u => exact ⟨hs.owned, hs.locked, hs.unlocking, hs.known⟩
  | reacquire u => exact hs.reacquire hg.1 hg.2.2

/-! ## 5. The runs in which `holder_` follows the mutex -/

/-- A wait begins while another thread is in `lock`, and ends before another thread
has got the mutex by `lock`. -/
def Undisturbed (s : State) : Act → Prop
  | .wait _ _ | .waitForSeconds _ _ => ∃ u, s.pc u = .locking
  | .reacquire t => s.lastLock = some t
  | _ => True

/-- What holds in every undisturbed run. -/
structure Follows (s : State) : Prop where
  inv : Inv s
  last : ∀ t, s.mutex = some t → s.lastLock = some t
  waiting : ∀ t, (s.pc t).inWait → s.lastLock = some t → s.holder = t.1
  free : s.mutex = none → s.holder = 0 ∨ ∃ u, s.pc u = .locking
  held : ∀ t, s.pc t = .holding → s.holder = t.1

theorem Follows.start : Follows start :=
  ⟨.start, fun _ h => absurd h.symm (Option.some_ne_none _), fun _ h => Bool.noConfusion h,
    fun _ => .inl rfl, fun _ h => Pc.noConfusion h⟩

theorem Follows.lock (hs : Follows s) (hpc : s.pc u = .outside ∨ s.pc u = .holding) :
    Follows (s.lock u) := by
  have hinv := hs.inv.lock hpc
  refine ⟨hinv, hs.last, fun v hv hlast => ?_, fun hfree => ?_, fun v hv => ?_⟩
  · rcases goto_cases (p := (Pc.inWait ·)) hv with ⟨-, hin⟩ | ⟨-, hv⟩
    · split at hin <;> cases hin
    · exact hs.waiting v hv hlast
  · right
    refine ⟨u, ?_⟩
    have hnot : s.pc u ≠ .holding := fun hholding => hs.inv.not_owns hfree u (hholding ▸ rfl)
    show update s.pc u _ u = _
    rw [update_self, if_neg hnot]
  · rcases goto_cases (p := (· = _)) hv with ⟨-, heq⟩ | ⟨-, hv⟩
    · split at heq <;> cases heq
    · exact hs.held v hv

theorem Follows.acquire (hs : Follows s) (hpc : s.pc u = .locking) (hfree : s.mutex = none) :
    Follows (s.acquire u) := by
  refine ⟨hs.inv.acquire hpc hfree, fun v hv => hv, fun v hv hlast => ?_, fun hnone => ?_,
    fun v hv => ?_⟩
  · rcases goto_cases (p := (Pc.inWait ·)) hv with ⟨-, hin⟩ | ⟨hne, -⟩
    · cases hin
    · exact absurd (Option.some.inj hlast).symm hne
  · cases hnone
  · rcases goto_cases (p := (· = _)) hv with ⟨-, heq⟩ | ⟨-, hv⟩
    · cases heq
    · exact hs.held v hv

theorem Follows.hold (hs : Follows s) (hpc : s.pc u = .locked) : Follows (s.hold u) := by
  have howns : (s.pc u).owns := hpc ▸ rfl
  refine ⟨hs.inv.hold hpc, hs.last, fun v hv hlast => ?_, fun hfree => ?_, fun v hv => ?_⟩
  · rcases goto_cases (p := (Pc.inWait ·)) hv with ⟨-, hin⟩ | ⟨hne, -⟩
    · cases hin
    · have heq : some v = some u := hlast.symm.trans (hs.inv.locked u hpc)
      exact absurd (Option.some.inj heq) hne
  · exact absurd howns (hs.inv.not_owns hfree u)
  · rcases goto_cases (p := (· = _)) hv with ⟨rfl, -⟩ | ⟨hne, hv⟩
    · rfl
    · exact absurd (hs.inv.alone howns (hv ▸ rfl)) hne

theorem Follows.unlock (hs : Follows s) (hpc : s.pc u = .holding) : Follows (s.unlock u) := by
  have howns : (s.pc u).owns := hpc ▸ rfl
  refine ⟨hs.inv.unlock hpc, hs.last, fun v hv hlast => ?_, fun _ => .inl rfl, fun v hv => ?_⟩
  · rcases goto_cases (p := (Pc.inWait ·)) hv with ⟨-, hin⟩ | ⟨hne, -⟩
    · cases hin
    · have heq : some v = some u := hlast.symm.trans (hs.last u (hs.inv.mutex_eq howns))
      exact absurd (Option.some.inj heq) hne
  · rcases goto_cases (p := (· = _)) hv with ⟨-, heq⟩ | ⟨hne, hv⟩
    · cases heq
    · exact absurd (hs.inv.alone howns (hv ▸ rfl)) hne

theorem Follows.release (hs : Follows s) (hpc : s.pc u = .unlocking) : Follows (s.release u) := by
  refine ⟨hs.inv.release hpc, fun v hv => ?_, fun v hv hlast => ?_, fun _ => ?_, fun v hv => ?_⟩
  · cases hv
  · rcases goto_cases (p := (Pc.inWait ·)) hv with ⟨-, hin⟩ | ⟨-, hv⟩
    · cases hin
    · exact hs.waiting v hv hlast
  · exact .inl (hs.inv.unlocking u hpc)
  · rcases goto_cases (p := (· = _)) hv with ⟨-, heq⟩ | ⟨-, hv⟩
    · cases heq
    · exact hs.held v hv

theorem Follows.wait (hs : Follows s) (hpc : s.pc u = .holding) {w : Tid}
    (hw : s.pc w = .locking) (cond : Nat) (timed : Bool) : Follows (s.wait u cond timed) := by
  refine ⟨hs.inv.wait hpc cond timed, fun v hv => ?_, fun v hv hlast => ?_, fun _ => ?_,
    fun v hv => ?_⟩
  · cases hv
  · rcases goto_cases (p := (Pc.inWait ·)) hv with ⟨rfl, -⟩ | ⟨-, hv⟩
    · exact hs.held v hpc
    · exact hs.waiting v hv hlast
  · have hne : w ≠ u := by
      rintro rfl
      cases hpc.symm.trans hw
    exact .inr ⟨w, (update_of_ne hne _ _).trans hw⟩
  · rcases goto_cases (p := (· = _)) hv with ⟨-, heq⟩ | ⟨-, hv⟩
    · cases heq
    · exact hs.held v hv

theorem Follows.reacquire (hs : Follows s) (hwait : (s.pc u).inWait) (hfree : s.mutex = none)
    (hlast : s.lastLock = some u) : Follows (s.reacquire u) := by
  refine ⟨hs.inv.reacquire hwait hfree, fun v hv => ?_, fun v hv hlast' => ?_, fun hnone => ?_,
    fun v hv => ?_⟩
  · cases hv
    exact hlast
  · rcases goto_cases (p := (Pc.inWait ·)) hv with ⟨-, hin⟩ | ⟨-, hv⟩
    · cases hin
    · exact hs.waiting v hv hlast'
  · cases hnone
  · rcases goto_cases (p := (· = _)) hv with ⟨rfl, -⟩ | ⟨-, hv⟩
    · exact hs.waiting v hwait hlast
    · exact hs.held v hv

theorem Follows.step (hs : Follows s) (hundisturbed : Undisturbed s a)
    (h : machine.step s a = some t) : Follows t := by
  obtain ⟨hg, rfl⟩ := Trans.Machine.guarded_step.mp h
  cases a with
  | lock u => exact hs.lock hg
  | acquire u => exact hs.acquire hg.1 hg.2
  | hold u => exact hs.hold hg
  | unlock u => exact hs.unlock hg
  | release u => exact hs.release hg
  | wait u cond =>
    obtain ⟨w, hw⟩ := hundisturbed
    exact hs.wait hg hw cond false
  | waitForSeconds u cond =>
    obtain ⟨w, hw⟩ := hundisturbed
    exact hs.wait hg hw cond true
  | notify u cond woken =>
    have hinv := hs.inv.step h
    cases woken with
    | some v => exact ⟨hinv, hs.last, hs.waiting, hs.free, hs.held⟩
    | none => exact hs
  | notifyAll u cond => exact ⟨hs.inv.step h, hs.last, hs.waiting, hs.free, hs.held⟩
  | wake u => exact ⟨hs.inv.step h, hs.last, hs.waiting, hs.free, hs.held⟩
  | reacquire u => exact hs.reacquire hg.1 hg.2.2 hundisturbed

theorem Pc.eq_holding {pc : Pc} (howns : pc.owns) (hlock : ¬pc.inLock) (hunlock : ¬pc.inUnlock) :
    pc = .holding := by
  cases pc with
  | holding => rfl
  | locked | relocking => exact absurd rfl hlock
  | unlocking => exact absurd rfl hunlock
  | outside | locking | waiting _ _ => cases howns

theorem Pc.in_lock_or_unlock {pc : Pc} (h : pc.inLock ∨ pc.inUnlock) :
    pc = .locking ∨ pc.owns := by
  cases pc with
  | locking => exact .inl rfl
  | locked | relocking | unlocking => exact .inr rfl
  | outside | holding | waiting _ _ => rcases h with h | h <;> cases h

theorem Follows.tracks (hs : Follows s) : Tracks s := by
  refine ⟨fun u hmutex hlock hunlock _ => ?_, fun hfree hnone => ?_⟩
  · have hholder := hs.held u (Pc.eq_holding ((hs.inv.owned u).mp hmutex) hlock hunlock)
    exact ⟨hholder, assertLocked_iff.mpr hholder⟩
  · rcases hs.free hfree with hzero | ⟨w, hw⟩
    · exact hzero
    · exact absurd (hw ▸ rfl) (hnone w).1

/-- A wait that leaves no thread in `lock` leaves its thread in `holder_`. -/
theorem Tracks.wait (hs : Inv s) (htracks : Tracks s) (hpc : s.pc u = .holding) {cond : Nat}
    {timed : Bool} (hafter : Tracks (s.wait u cond timed)) : ∃ w, s.pc w = .locking := by
  by_contra hnone
  have howns : (s.pc u).owns := hpc ▸ rfl
  have hholder : s.holder = u.1 := by
    refine (htracks.held u (hs.mutex_eq howns) ?_ ?_ ?_).1 <;>
      simp [hpc, Pc.inLock, Pc.inUnlock, Pc.inWait]
  have hzero : s.holder = 0 := by
    refine hafter.free rfl fun v => not_or.mp fun hin => ?_
    rcases goto_cases (p := fun pc => pc.inLock ∨ pc.inUnlock) hin with ⟨-, hin⟩ | ⟨hne, hin⟩
    · rcases hin with hin | hin <;> cases hin
    · rcases Pc.in_lock_or_unlock hin with hlocking | hv
      · exact hnone ⟨v, hlocking⟩
      · exact hne (hs.alone howns hv)
  exact absurd (hholder.symm.trans hzero) (Int.ne_of_gt u.2)

theorem Tracks.reacquire (hs : Inv s) (hfree : s.mutex = none) (hafter : Tracks (s.reacquire u)) :
    s.lastLock = some u := by
  have hpc : (s.reacquire u).pc u = .holding := update_self _ _ _
  have hholder : s.holder = u.1 := by
    refine (hafter.held u rfl ?_ ?_ ?_).1 <;> simp [hpc, Pc.inLock, Pc.inUnlock, Pc.inWait]
  have hknown := hs.known fun v hv => hs.not_owns hfree v (hv ▸ rfl)
  rcases hknown with hzero | ⟨v, hv, hlast⟩
  · exact absurd (hholder.symm.trans hzero) (Int.ne_of_gt u.2)
  · rw [hlast, Subtype.ext (hv.symm.trans hholder)]

theorem Tracks.undisturbed (hs : Inv s) (hbefore : Tracks s) (hafter : Tracks t)
    (h : machine.step s a = some t) : Undisturbed s a := by
  obtain ⟨hg, rfl⟩ := Trans.Machine.guarded_step.mp h
  cases a with
  | wait u cond => exact hbefore.wait hs hg hafter
  | waitForSeconds u cond => exact hbefore.wait hs hg hafter
  | reacquire u => exact Tracks.reacquire hs hg.2.2 hafter
  | _ => trivial

/-- `holder_` follows the mutex in every state of a run if and only if each wait of
the run is undisturbed. -/
theorem holder_tracks_iff {s₀ s : State} {as : List Act} (hinit : machine.init s₀)
    (hrun : machine.run s₀ as = some s) :
    machine.Throughout Tracks s₀ as ↔ machine.Along Undisturbed s₀ as := by
  cases hinit
  constructor
  · intro htracks
    exact Trans.Machine.along_of_throughout (I := Inv) (fun _ _ _ hI hstep => hI.step hstep)
      (fun _ _ _ hI hbefore hafter hstep => hbefore.undisturbed hI hafter hstep) .start hrun htracks
  · intro hundisturbed
    exact Trans.Machine.throughout_of_invariant (I := Follows) (fun _ hs => hs.tracks)
      (fun _ _ _ hs hC hstep => hs.step hC hstep) .start hundisturbed

/-- A wait that is over before the other thread in `lock` gets the mutex. -/
def shortWait : List Act :=
  [.lock ⟨1, by decide⟩, .acquire ⟨1, by decide⟩, .hold ⟨1, by decide⟩, .lock ⟨2, by decide⟩,
    .waitForSeconds ⟨1, by decide⟩ 0, .wake ⟨1, by decide⟩, .reacquire ⟨1, by decide⟩]

theorem shortWait_tracks : machine.Throughout Tracks start shortWait := by
  have hruns : (machine.run start shortWait).isSome := by decide +kernel
  obtain ⟨s, hrun⟩ := Option.isSome_iff_exists.mp hruns
  refine (holder_tracks_iff rfl hrun).mpr ?_
  refine ⟨trivial, fun s₁ h₁ => ⟨trivial, fun s₂ h₂ => ⟨trivial, fun s₃ h₃ => ⟨trivial,
    fun s₄ h₄ => ⟨?_, fun s₅ h₅ => ⟨trivial, fun s₆ h₆ => ⟨?_, fun _ _ => trivial⟩⟩⟩⟩⟩⟩⟩
  all_goals
    obtain ⟨-, rfl⟩ := Trans.Machine.guarded_step.mp h₁
    obtain ⟨-, rfl⟩ := Trans.Machine.guarded_step.mp h₂
    obtain ⟨-, rfl⟩ := Trans.Machine.guarded_step.mp h₃
    obtain ⟨-, rfl⟩ := Trans.Machine.guarded_step.mp h₄
  · exact ⟨⟨2, by decide⟩, rfl⟩
  · obtain ⟨-, rfl⟩ := Trans.Machine.guarded_step.mp h₅
    obtain ⟨-, rfl⟩ := Trans.Machine.guarded_step.mp h₆
    rfl

end

end MutexLock

end NetFrame
