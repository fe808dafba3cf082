import NetFrame.Basic
import NetFrame.Lib.Machine
import NetFrame.Lib.Outcome
import NetFrame.Lib.RoundRobin

/-!
# EventLoopThreadPool

`EventLoopThreadPool.cpp`: a pool of threads, each with a loop, of which
`getNextLoop` gives out one after the other. `start` and `getNextLoop` assert
that they are called in the thread of the base loop, and so is every call here.

A loop is named by the thread that runs it.

Results:
1. `getNextLoop_implements`: the pool hands out its loops as `RoundRobin.turns`.
2. `getNextLoop_fair`: after any number of calls `m_next` is an index of
   `m_loops`, each call has returned the loop whose turn it was, and in every
   window of calls two loops were returned equally often, up to one.
-/

namespace NetFrame

namespace EventLoopThreadPool

open Outcome Trans

/-! ## 1. The pool -/

/-- An `EventLoop*`. -/
inductive Loop where
  | base
  /-- What `startLoop` of the `i`-th thread returns. -/
  | ofThread (i : Nat)
  deriving DecidableEq, Repr

structure State where
  started : Bool
  threadsNum : Int
  next : Int
  /-- The length of `m_threads`. -/
  threads : Nat
  loops : List Loop
  /-- The loops that `start` itself has called its callback for. -/
  called : List Loop
  deriving DecidableEq, Repr

/-- The constructor. -/
def ctor : State where
  started := false
  threadsNum := 0
  next := 0
  threads := 0
  loops := []
  called := []

namespace State

def setThreadNum (s : State) (threadnum : Int) : State := { s with threadsNum := threadnum }

/-- `k` rounds of the loop of `start`. -/
def startThreads (s : State) : Nat → State
  | 0 => s
  | k + 1 =>
    let t := s.startThreads k
    { t with threads := t.threads + 1, loops := t.loops ++ [.ofThread t.threads] }

/-- `start(cb)`, where `cb` may be empty. -/
def start (s : State) (cb : Bool) : Except Fault State := do
  check (¬s.started) "!m_started"
  let t := ({ s with started := true } : State).startThreads s.threadsNum.toNat
  return if s.threadsNum = 0 ∧ cb then { t with called := t.called ++ [.base] } else t

/-- `m_loops[m_next]`. -/
def nextLoop (s : State) : Except Fault Loop :=
  if s.next < 0 then .error .outOfBounds
  else
    match s.loops[s.next.toNat]? with
    | some loop => .ok loop
    | none => .error .outOfBounds

/-- `++m_next`. -/
def increment (next : Int) : Except Fault Int :=
  if next + 1 < 2 ^ 31 then .ok (next + 1) else .error .intOverflow

def getNextLoop (s : State) : Except Fault (State × Loop) :=
  if s.loops = [] then .ok (s, .base)
  else do
    let loop ← s.nextLoop
    let next ← increment s.next
    return ({ s with next := if next ≥ s.loops.length then 0 else next }, loop)

/-- Any number of calls. -/
def exec (s : State) (_ : Unit) : Except Fault (State × Loop) := s.getNextLoop

end State

/-! ## 2. Taking turns -/

/-- The loop whose turn it is at the call `c`, among `n`. -/
def turn (n c : Nat) : Loop := if n = 0 then .base else .ofThread (c % n)

/-- A pool of `n` threads before the call `c`. -/
structure Turns (n : Nat) (s : State) (c : Nat) : Prop where
  loops : s.loops = (List.range n).map .ofThread
  next : n ≠ 0 → s.next = (c % n : Nat)

section

variable {n c : Nat} {s : State}

theorem Turns.length (h : Turns n s c) : s.loops.length = n := by
  rw [h.loops, List.length_map, List.length_range]

theorem Turns.loops_eq_nil (h : Turns n s c) : s.loops = [] ↔ n = 0 := by
  rw [← List.length_eq_zero_iff, h.length]

theorem Turns.valid (h : Turns n s c) (hn : n ≠ 0) : 0 ≤ s.next ∧ s.next < s.loops.length := by
  rw [h.next hn, h.length]
  exact ⟨Int.natCast_nonneg _, Int.ofNat_lt.mpr (Nat.mod_lt c (Nat.pos_of_ne_zero hn))⟩

theorem getNextLoop_spec (hn : n < 2 ^ 31) (h : Turns n s c) :
    ∃ s', s.getNextLoop = .ok (s', turn n c) ∧ Turns n s' (c + 1) := by
  unfold State.getNextLoop turn
  by_cases hzero : n = 0
  · rw [if_pos (h.loops_eq_nil.mpr hzero), if_pos hzero]
    exact ⟨s, rfl, h.loops, fun hne => absurd hzero hne⟩
  · rw [if_neg fun hnil => hzero (h.loops_eq_nil.mp hnil), if_neg hzero]
    have hlt := Nat.mod_lt c (Nat.pos_of_ne_zero hzero)
    have hloop : s.nextLoop = .ok (.ofThread (c % n)) := by
      unfold State.nextLoop
      rw [h.next hzero, h.loops, if_neg (Int.not_lt.mpr (Int.natCast_nonneg _)),
        Int.toNat_natCast, List.getElem?_map, List.getElem?_range hlt]
      rfl
    have hnext : State.increment s.next = .ok ((c % n + 1 : Nat) : Int) := by
      unfold State.increment
      rw [h.next hzero]
      exact if_pos (by omega)
    rw [bind_ok_eq hloop, bind_ok_eq hnext]
    refine ⟨_, rfl, h.loops, fun _ => ?_⟩
    dsimp only
    rw [h.length, RoundRobin.mod_succ hzero]
    simp only [ge_iff_le, Int.ofNat_le]
    split <;> rfl

theorem getNextLoop_implements (hn : n < 2 ^ 31) :
    Implements State.exec (fun c _ => (c + 1, turn n c)) (fun _ _ => True) (Turns n) :=
  fun _ _ _ h _ => getNextLoop_spec hn h

theorem specOps_turn (n c m : Nat) :
    specOps (fun c (_ : Unit) => (c + 1, turn n c)) c (List.replicate m ()) =
      (c + m, (List.range' c m).map (turn n)) := by
  induction m generalizing c with
  | zero => rfl
  | succ m ih =>
    rw [List.replicate_succ, specOps, ih, List.range'_succ, List.map_cons,
      Nat.succ_add_eq_add_succ]

/-! ## 3. The pool after `start` -/

theorem startThreads_spec (hloops : s.loops = []) (hthreads : s.threads = 0) (k : Nat) :
    (s.startThreads k).loops = (List.range k).map .ofThread ∧
      (s.startThreads k).threads = k ∧ (s.startThreads k).next = s.next := by
  induction k with
  | zero => exact ⟨hloops, hthreads, rfl⟩
  | succ k ih =>
    obtain ⟨hl, ht, hn⟩ := ih
    refine ⟨?_, congrArg (· + 1) ht, hn⟩
    rw [List.range_succ, List.map_append, ← hl]
    simp only [State.startThreads, ht, List.map_cons, List.map_nil]

theorem start_spec (threadnum : Int) (cb : Bool) :
    ∃ s, (ctor.setThreadNum threadnum).start cb = .ok s ∧ Turns threadnum.toNat s 0 := by
  let started : State := { ctor.setThreadNum threadnum with started := true }
  have hturns : Turns threadnum.toNat (started.startThreads threadnum.toNat) 0 := by
    obtain ⟨hl, -, hn⟩ := startThreads_spec (s := started) rfl rfl threadnum.toNat
    refine ⟨hl, fun _ => ?_⟩
    rw [hn, Nat.zero_mod]
    rfl
  refine ⟨_, rfl, ?_⟩
  -- the callback on the base loop leaves the loops and `m_next` alone
  split
  · exact ⟨hturns.loops, hturns.next⟩
  · exact hturns

/-! ## 4. Fairness -/

theorem loops_getElem (h : Turns n s 0) (hne : n ≠ 0) (c : Nat) :
    s.loops[c % s.loops.length]? = some (turn n c) := by
  have hlt := Nat.mod_lt c (Nat.pos_of_ne_zero hne)
  rw [h.length, h.loops, List.getElem?_map, List.getElem?_range hlt, turn, if_neg hne]
  rfl

theorem count_turn (n start len i : Nat) (hne : n ≠ 0) :
    ((List.range' start len).map (turn n)).count (.ofThread i) =
      (RoundRobin.turns n start len).count i := by
  have hinj : Function.Injective Loop.ofThread := fun _ _ => Loop.ofThread.inj
  have hmap : (List.range' start len).map (turn n) =
      (RoundRobin.turns n start len).map .ofThread := by
    rw [RoundRobin.turns, List.map_map]
    exact List.map_congr_left fun c _ => if_neg hne
  rw [hmap, List.count_map_of_injective _ _ hinj]

end

/-- `m_next` is a valid index after any number of calls, the call `c` returns
`m_loops[c % n]`, and no window of calls returns one loop of the pool twice more
often than another. -/
theorem getNextLoop_fair {threadnum : Int} (hint : threadnum < 2 ^ 31) (cb : Bool) (m : Nat) :
    ∃ s t returned, (ctor.setThreadNum threadnum).start cb = .ok s ∧
      s.loops.length = threadnum.toNat ∧
      runOps State.exec s (List.replicate m ()) = .ok (t, returned) ∧ t.loops = s.loops ∧
      (t.loops ≠ [] → 0 ≤ t.next ∧ t.next < t.loops.length) ∧
      (∀ c < m, returned[c]? =
        if s.loops = [] then some .base else s.loops[c % s.loops.length]?) ∧
      ∀ window, window <:+: returned → ∀ x ∈ s.loops, ∀ y ∈ s.loops,
        window.count x ≤ window.count y + 1 := by
  obtain ⟨s, hstart, hs⟩ := start_spec threadnum cb
  have hn : threadnum.toNat < 2 ^ 31 := by omega
  obtain ⟨t, hrun, ht⟩ := (getNextLoop_implements hn).run (List.replicate m ()) hs
    (legalOps_iff.mpr fun _ _ _ _ _ _ _ => trivial)
  rw [specOps_turn] at hrun ht
  refine ⟨s, t, _, hstart, hs.length, hrun, ht.loops.trans hs.loops.symm, ?_, ?_, ?_⟩
  · intro hne
    exact ht.valid fun hzero => hne (ht.loops_eq_nil.mpr hzero)
  · intro c hc
    rw [List.getElem?_map, List.getElem?_range' hc, Option.map_some]
    split
    · next hnil => simp [turn, hs.loops_eq_nil.mp hnil]
    · next hne =>
      rw [loops_getElem hs fun hzero => hne (hs.loops_eq_nil.mpr hzero)]
      simp
  · intro window hwindow x hx y hy
    obtain ⟨start, len, rfl⟩ := RoundRobin.infix_range' hwindow
    rw [hs.loops, List.mem_map] at hx hy
    obtain ⟨i, hi, rfl⟩ := hx
    obtain ⟨j, hj, rfl⟩ := hy
    rw [List.mem_range] at hi hj
    have hne : threadnum.toNat ≠ 0 := Nat.ne_of_gt (Nat.zero_lt_of_lt hi)
    rw [count_turn _ _ _ _ hne, count_turn _ _ _ _ hne]
    exact RoundRobin.fair hi hj start len

/-- What three threads return in five calls. -/
def fiveCalls : List Loop := [.ofThread 0, .ofThread 1, .ofThread 2, .ofThread 0, .ofThread 1]

theorem threeThreads_fair :
    ∃ s t, (ctor.setThreadNum 3).start true = .ok s ∧ s.loops.length = 3 ∧
      runOps State.exec s (List.replicate 5 ()) = .ok (t, fiveCalls) ∧ t.next = 2 ∧
      ∀ window, window <:+: fiveCalls → ∀ x ∈ s.loops, ∀ y ∈ s.loops,
        window.count x ≤ window.count y + 1 := by
  have hint : (3 : Int) < 2 ^ 31 := by decide
  obtain ⟨s, t, returned, hstart, hlength, hrun, -, -, -, hfair⟩ := getNextLoop_fair hint true 5
  cases hstart
  cases hrun
  exact ⟨_, _, rfl, hlength, rfl, rfl, hfair⟩

end EventLoopThreadPool

end NetFrame
