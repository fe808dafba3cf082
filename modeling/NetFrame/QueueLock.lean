import NetFrame.EventLoopThread
import NetFrame.Lib.Progress
import NetFrame.MutexLock
import Mathlib.Logic.Embedding.Basic

/-!
# The queue of a loop under its mutex

`EventLoop::queueInLoop` and `EventLoop::m_doPendingFunctors` of `EventLoop.cpp`
with `MutexLock` and `MutexLockGuard` of `Mutex.h`. In `EventLoop` the push into
`m_pendingFuntors` and the swap with `tmpFunctors` are single steps. Here each is
a block under `m_mutex`: the guard locks, the vector is read, the vector is
written, the guard unlocks, and any other thread may take steps in between.

Results:
1. `blocks_exclude`: no two threads are in their blocks at once, and what a thread
   is about to write follows from what the vector still holds.
2. `runs_as_loop`: the loop with the mutex refines the loop of `EventLoop`, so that
   its functors run once and in the order of their writes.
3. `block_ends`: a thread that is at a block gets through it, with the help of no
   other thread than the one that has the mutex.
4. `poll_ends`: a loop that has been called with an empty queue, and polls while a
   functor is pending, is woken by the next three steps of one other thread, wherever
   the remaining threads are.
-/

namespace NetFrame

namespace QueueLock

open EventLoop (Queued LoopPc)

/-! ## 1. The blocks -/

/-- What a block is entered for. -/
inductive Op (T F : Type) where
  /-- The `push_back` of a `queueInLoop` in another thread. -/
  | push (t : T) (f : F)
  /-- The `push_back` of a `queueInLoop` in the loop's thread. -/
  | loopPush (f : F)
  /-- The `swap` of `m_doPendingFunctors`. -/
  | swap
  deriving DecidableEq

/-- Where a thread is in its block. -/
inductive Call (T F : Type) where
  | outside
  /-- In `MutexLock::lock`, before it has the mutex. -/
  | locking (op : Op T F)
  /-- Before `holder_` is written. -/
  | locked (op : Op T F)
  /-- Before the vector is read. -/
  | reading (op : Op T F)
  /-- Before the vector is written, which had the functors `seen`. -/
  | writing (op : Op T F) (seen : List (Queued F))
  /-- Before the guard is destroyed. -/
  | written
  /-- In `MutexLock::unlock`, `holder_` being 0. -/
  | unlocking
  deriving DecidableEq

variable {T F : Type}

/-- The thread of a block; `none` is the loop's. -/
def Op.thread : Op T F → Option T
  | .push t _ => some t
  | .loopPush _ | .swap => none

/-- The block as one step. -/
def Op.act : Op T F → EventLoop.Act T F
  | .push t f => .push t f
  | .loopPush f => .loopPush f
  | .swap => .swap

/-- The second half of a block: the vector had the functors `seen` when it was read. -/
def Op.write [DecidableEq T] (loop : EventLoop.State T F) (seen : List (Queued F)) :
    Op T F → EventLoop.State T F
  | .push t f =>
    { loop with
      pendingFuntors := seen ++ [loop.queued f]
      pushed := loop.pushed ++ [loop.queued f]
      threads := Function.update loop.threads t .pushed }
  | .loopPush f =>
    { loop with
      pendingFuntors := seen ++ [loop.queued f]
      pushed := loop.pushed ++ [loop.queued f]
      call := .pushed }
  | .swap => { loop with pc := .running, tmpFunctors := seen, pendingFuntors := [] }

namespace Call

def isOutside : Call T F → Bool
  | .outside => true
  | _ => false

/-- The block that has not been done yet. -/
def op? : Call T F → Option (Op T F)
  | .locking op | .locked op | .reading op | .writing op _ => some op
  | .outside | .written | .unlocking => none

/-- Where the thread is for the mutex. -/
def pc : Call T F → MutexLock.Pc
  | .outside => .outside
  | .locking _ => .locking
  | .locked _ => .locked
  | .reading _ | .writing _ _ | .written => .holding
  | .unlocking => .unlocking

/-- The steps up to the end of the block. -/
def rest : Call T F → Nat
  | .outside => 0
  | .locking _ => 6
  | .locked _ => 5
  | .reading _ => 4
  | .writing _ _ => 3
  | .written => 2
  | .unlocking => 1

end Call

structure State (T F : Type) where
  loop : EventLoop.State T F
  /-- `m_mutex` -/
  mutex : MutexLock.State
  calls : Option T → Call T F

inductive Act (T F : Type) where
  /-- A block is entered: the guard calls `lock`. -/
  | enter (op : Op T F)
  /-- A thread takes the next step of its block. -/
  | go (u : Option T)
  /-- Any other step of the loop or of a thread that uses it. -/
  | other (a : EventLoop.Act T F)

/-- This step of the loop is not a block. -/
def Unlocked : EventLoop.Act T F → Prop
  | .push _ _ | .loopPush _ | .swap => False
  | _ => True

instance (a : EventLoop.Act T F) : Decidable (Unlocked a) :=
  match a with
  | .push _ _ | .loopPush _ | .swap => .isFalse id
  | .publish | .resetQuit | .testQuit | .pollReturn _ | .handleRead | .setCalling | .runFunctor
  | .functorReturns | .clearCalling | .readCalling | .loopWakeup | .loopQuit | .wakeup _
  | .storeQuit _ | .quitWakeup _ => .isTrue trivial

section

variable [DecidableEq T] (tid : Option T ↪ MutexLock.Tid)

namespace State

def goto (s : State T F) (u : Option T) (mutex : MutexLock.State) (call : Call T F) :
    State T F :=
  { s with mutex := mutex, calls := Function.update s.calls u call }

omit tid in
@[simp] theorem goto_self (s : State T F) (u : Option T) (mutex : MutexLock.State)
    (call : Call T F) : (s.goto u mutex call).calls u = call := Function.update_self ..

omit tid in
theorem goto_of_ne {s : State T F} {u v : Option T} {mutex : MutexLock.State} {call : Call T F}
    (hne : v ≠ u) : (s.goto u mutex call).calls v = s.calls v := Function.update_of_ne hne ..

/-- The next step of a thread in its block. -/
def go (s : State T F) (u : Option T) : Option (State T F) :=
  match s.calls u with
  | .outside => none
  | .locking op => do
    let mutex ← MutexLock.machine.step s.mutex (.acquire (tid u))
    some (s.goto u mutex (.locked op))
  | .locked op => do
    let mutex ← MutexLock.machine.step s.mutex (.hold (tid u))
    some (s.goto u mutex (.reading op))
  | .reading op => some (s.goto u s.mutex (.writing op s.loop.pendingFuntors))
  | .writing op seen => some { s.goto u s.mutex .written with loop := op.write s.loop seen }
  | .written => do
    let mutex ← MutexLock.machine.step s.mutex (.unlock (tid u))
    some (s.goto u mutex .unlocking)
  | .unlocking => do
    let mutex ← MutexLock.machine.step s.mutex (.release (tid u))
    some (s.goto u mutex .outside)

end State

/-- A block is entered where the loop allows it as a step. -/
def step (s : State T F) : Act T F → Option (State T F)
  | .enter op =>
    if (s.calls op.thread).isOutside = true ∧ EventLoop.guard s.loop op.act then do
      let mutex ← MutexLock.machine.step s.mutex (.lock (tid op.thread))
      some (s.goto op.thread mutex (.locking op))
    else none
  | .go u => s.go tid u
  | .other a =>
    if Unlocked a ∧ (s.calls (EventLoopThread.caller a)).isOutside = true ∧
        EventLoop.guard s.loop a then
      some { s with loop := EventLoop.effect s.loop a }
    else none

def start (pc : LoopPc) : State T F where
  loop := .start pc
  mutex := MutexLock.start
  calls := fun _ => .outside

/-- The runs of a loop with its mutex; `tid` names the threads. -/
def machine (F : Type) (pc : LoopPc) : Trans.Machine (State T F) (Act T F) where
  init := (· = start pc)
  step := step tid

end

/-! ## 2. The invariant -/

section

variable [DecidableEq T] {tid : Option T ↪ MutexLock.Tid} {s t : State T F} {u : Option T}
  {op : Op T F} {pc : LoopPc}

/-- What holds in every run. -/
structure Inv (tid : Option T ↪ MutexLock.Tid) (s : State T F) : Prop where
  mutex : MutexLock.Inv s.mutex
  pcs : ∀ u, s.mutex.pc (tid u) = (s.calls u).pc
  others : ∀ v, (∀ u, tid u ≠ v) → s.mutex.pc v = .outside
  /-- The loop would allow the block as a step at any time until it is done. -/
  ready : ∀ u op, (s.calls u).op? = some op → op.thread = u ∧ EventLoop.guard s.loop op.act
  /-- The vector does not change between the read and the write. -/
  seen : ∀ u op seen, s.calls u = .writing op seen → seen = s.loop.pendingFuntors

/-- The two halves of a block make the step. -/
theorem write_eq (op : Op T F) (l : EventLoop.State T F) :
    op.write l l.pendingFuntors = EventLoop.effect l op.act := by
  cases op <;> rfl

/-- A step of another thread does not get in the way of a block. -/
theorem guard_keep {l : EventLoop.State T F} {a : EventLoop.Act T F}
    (hop : EventLoop.guard l op.act) (hne : EventLoopThread.caller a ≠ op.thread)
    (hg : EventLoop.guard l a) : EventLoop.guard (EventLoop.effect l a) op.act := by
  cases op with
  | push t f =>
    obtain ⟨hpc, hout⟩ := hop
    refine ⟨EventLoop.pc_ne_initCallback hpc, ?_⟩
    cases a with
    | push v _ | wakeup v | storeQuit v | quitWakeup v =>
      have hvt : t ≠ v := fun heq => hne (congrArg some heq.symm)
      exact (Function.update_of_ne hvt _ _).trans hout
    | _ => exact hout
  | loopPush f =>
    cases a with
    | push _ _ | wakeup _ | storeQuit _ | quitWakeup _ => exact hop
    | _ => exact absurd rfl hne
  | swap =>
    cases a with
    | push _ _ | wakeup _ | storeQuit _ | quitWakeup _ => exact hop
    | _ => exact absurd rfl hne

omit [DecidableEq T] in
theorem caller_act (op : Op T F) : EventLoopThread.caller op.act = op.thread := by
  cases op <;> rfl

theorem pending_keep {l : EventLoop.State T F} {a : EventLoop.Act T F} (ha : Unlocked a) :
    (EventLoop.effect l a).pendingFuntors = l.pendingFuntors := by
  cases a with
  | push _ _ | loopPush _ | swap => exact ha.elim
  | _ => rfl

omit [DecidableEq T] in
/-- At most one thread has got the mutex. -/
theorem Inv.exclusive (hs : Inv tid s) {v : Option T} (hu : (s.calls u).pc.owns)
    (hv : (s.calls v).pc.owns) : v = u := by
  rw [← hs.pcs] at hu hv
  exact tid.injective (hs.mutex.alone hu hv)

omit [DecidableEq T] in
theorem Inv.start : Inv tid (start pc : State T F) where
  mutex := .start
  pcs := fun _ => rfl
  others := fun _ _ => rfl
  ready := fun _ _ h => absurd h.symm (Option.some_ne_none _)
  seen := by
    intro u op seen h
    cases h

/-- A thread goes on in its block. -/
theorem Inv.goto (hs : Inv tid s) {mutex : MutexLock.State} {call : Call T F}
    (hmutex : MutexLock.Inv mutex)
    (hpc : mutex.pc = Function.update s.mutex.pc (tid u) call.pc)
    (hready : ∀ op, call.op? = some op → op.thread = u ∧ EventLoop.guard s.loop op.act)
    (hseen : ∀ op seen, call = .writing op seen → seen = s.loop.pendingFuntors) :
    Inv tid (s.goto u mutex call) := by
  refine ⟨hmutex, fun v => ?_, fun v hv => ?_, fun v op' hop => ?_, fun v op' seen hv => ?_⟩
  · simp only [State.goto, hpc, Function.update_apply, tid.injective.eq_iff]
    split
    · rfl
    · exact hs.pcs v
  · show mutex.pc v = .outside
    rw [hpc, Function.update_of_ne (hv u).symm]
    exact hs.others v hv
  · by_cases hvu : v = u
    · subst hvu
      exact hready op' (by simpa using hop)
    · rw [State.goto_of_ne hvu] at hop
      exact hs.ready v op' hop
  · by_cases hvu : v = u
    · subst hvu
      exact hseen op' seen (by simpa using hv)
    · rw [State.goto_of_ne hvu] at hv
      exact hs.seen v op' seen hv

/-- The loop takes a step, while its thread is at no block. -/
theorem Inv.act (hs : Inv tid s) {a : EventLoop.Act T F} (hg : EventLoop.guard s.loop a)
    (hcall : (s.calls (EventLoopThread.caller a)).op? = none)
    (hpending : ∀ u op seen, s.calls u = .writing op seen →
      (EventLoop.effect s.loop a).pendingFuntors = s.loop.pendingFuntors) :
    Inv tid { s with loop := EventLoop.effect s.loop a } := by
  refine ⟨hs.mutex, hs.pcs, hs.others, fun v op' hop => ?_, fun v op' seen hv => ?_⟩
  · obtain ⟨hthread, hready⟩ := hs.ready v op' hop
    refine ⟨hthread, guard_keep hready ?_ hg⟩
    intro heq
    rw [heq, hthread, hop] at hcall
    cases hcall
  · exact (hs.seen v op' seen hv).trans (hpending v op' seen hv).symm

omit [DecidableEq T] in
theorem outside_op? {call : Call T F} (h : call.isOutside = true) : call = .outside := by
  cases call with
  | outside => rfl
  | _ => cases h

/-- Until its write, a block leaves the loop as it is; with the write it takes the
step that it stands for. -/
theorem go_loop (hs : Inv tid s) (h : s.go tid u = some t) :
    t.loop = s.loop ∨ ∃ op : Op T F, EventLoop.guard s.loop op.act ∧
      t.loop = EventLoop.effect s.loop op.act := by
  unfold State.go at h
  cases hcall : s.calls u with
  | writing op seen =>
    rw [hcall] at h
    cases h
    refine .inr ⟨op, (hs.ready u op (by rw [hcall]; rfl)).2, ?_⟩
    rw [← write_eq]
    simp only [hs.seen u op seen hcall]
  | outside =>
    rw [hcall] at h
    cases h
  | reading op =>
    rw [hcall] at h
    cases h
    exact .inl rfl
  | locking _ | locked _ | written | unlocking =>
    rw [hcall] at h
    obtain ⟨mutex, -, hgoto⟩ := Option.bind_eq_some_iff.mp h
    cases hgoto
    exact .inl rfl

theorem Inv.go (hs : Inv tid s) (h : s.go tid u = some t) : Inv tid t := by
  unfold State.go at h
  have hready : ∀ op, (s.calls u).op? = some op →
      op.thread = u ∧ EventLoop.guard s.loop op.act := hs.ready u
  have hpcu := hs.pcs u
  cases hcall : s.calls u with
  | outside =>
    rw [hcall] at h
    cases h
  | locking op | locked op | written | unlocking =>
    rw [hcall] at h hready
    obtain ⟨mutex, hstep, hgoto⟩ := Option.bind_eq_some_iff.mp h
    cases hgoto
    have hmutex := hs.mutex.step hstep
    obtain ⟨-, rfl⟩ := Trans.Machine.guarded_step.mp hstep
    exact hs.goto hmutex rfl hready (by simp)
  | reading op =>
    rw [hcall] at h hready hpcu
    cases h
    refine hs.goto hs.mutex ?_ hready ?_
    · exact (Function.update_eq_self_iff.mpr hpcu.symm).symm
    · rintro op' seen heq
      cases heq
      rfl
  | writing op seen =>
    rw [hcall] at h hready hpcu
    cases h
    have hop := (hready op rfl)
    have hgoto : Inv tid (s.goto u s.mutex .written) := by
      refine hs.goto hs.mutex ?_ (by simp [Call.op?]) (by simp)
      exact (Function.update_eq_self_iff.mpr hpcu.symm).symm
    have hact := hgoto.act (a := op.act) hop.2 ?_ ?_
    · rw [hs.seen u op seen hcall]
      simpa [State.goto, write_eq] using hact
    · rw [caller_act, hop.1]
      simp [State.goto, Call.op?]
    · intro v op' seen' hv
      -- nobody else has the mutex
      have hvu : v = u := hgoto.exclusive (by simp [State.goto]; rfl) (by rw [hv]; rfl)
      rw [hvu] at hv
      simp [State.goto] at hv

theorem step_enter (h : (machine tid F pc).step s (.enter op) = some t) :
    s.calls op.thread = .outside ∧ EventLoop.guard s.loop op.act ∧
      ∃ mutex, MutexLock.machine.step s.mutex (.lock (tid op.thread)) = some mutex ∧
        t = s.goto op.thread mutex (.locking op) := by
  simp only [machine, step] at h
  split at h
  · next hg =>
    obtain ⟨mutex, hstep, hgoto⟩ := Option.bind_eq_some_iff.mp h
    cases hgoto
    exact ⟨outside_op? hg.1, hg.2, mutex, hstep, rfl⟩
  · cases h

theorem step_other {a : EventLoop.Act T F} (h : (machine tid F pc).step s (.other a) = some t) :
    Unlocked a ∧ s.calls (EventLoopThread.caller a) = .outside ∧ EventLoop.guard s.loop a ∧
      t = { s with loop := EventLoop.effect s.loop a } := by
  simp only [machine, step] at h
  split at h
  · next hg =>
    cases h
    exact ⟨hg.1, outside_op? hg.2.1, hg.2.2, rfl⟩
  · cases h

theorem Inv.step (hs : Inv tid s) {a : Act T F} (h : (machine tid F pc).step s a = some t) :
    Inv tid t := by
  cases a with
  | enter op =>
    obtain ⟨hout, hg, mutex, hstep, rfl⟩ := step_enter h
    have hnot : s.mutex.pc (tid op.thread) ≠ .holding := by
      rw [hs.pcs, hout]
      exact MutexLock.Pc.noConfusion
    have hmutex := hs.mutex.step hstep
    obtain ⟨-, rfl⟩ := Trans.Machine.guarded_step.mp hstep
    refine hs.goto hmutex ?_ (fun op' hop => ?_) (by simp)
    · show Function.update _ _ (if _ then _ else _) = _
      rw [if_neg hnot]
      rfl
    · cases hop
      exact ⟨rfl, hg⟩
  | go u => exact hs.go h
  | other a =>
    obtain ⟨hunlocked, hout, hg, rfl⟩ := step_other h
    exact hs.act hg (by rw [hout]; rfl) fun _ _ _ _ => pending_keep hunlocked

/-! ## 3. The queue -/

/-- The loop with its mutex refines the loop whose pushes and swaps are single
steps: a block is the step of its write. -/
theorem refines_loop (tid : Option T ↪ MutexLock.Tid) (pc : LoopPc) :
    Trans.Refines (machine tid F pc) (EventLoop.machine T F pc) (Inv tid) State.loop where
  init := by
    rintro s rfl
    exact ⟨.start, rfl⟩
  step := by
    intro s a t hs h
    refine ⟨hs.step h, ?_⟩
    have hone : ∀ a, EventLoop.guard s.loop a → t.loop = EventLoop.effect s.loop a →
        (EventLoop.machine T F pc).run s.loop [a] = some t.loop := by
      intro a hg heq
      rw [Trans.Machine.run_singleton]
      exact Trans.Machine.guarded_step.mpr ⟨hg, heq.symm⟩
    cases a with
    | enter op =>
      obtain ⟨-, -, mutex, -, rfl⟩ := step_enter h
      exact ⟨[], rfl⟩
    | go u =>
      rcases go_loop hs h with heq | ⟨op, hg, heq⟩
      · exact ⟨[], by rw [heq]; rfl⟩
      · exact ⟨[op.act], hone op.act hg heq⟩
    | other a =>
      obtain ⟨-, -, hg, rfl⟩ := step_other h
      exact ⟨[a], hone a hg rfl⟩

/-- The blocks exclude each other, so that no push and no swap is lost: in every
reachable state at most one thread is between its `lock` and the end of its
`unlock`, one that is about to write the vector has seen the vector as it is, and
the functors run once and in the order of the writes. -/
theorem blocks_exclude (hs : (machine tid F pc).Reachable s) :
    (∀ u v, (s.calls u).pc.owns → (s.calls v).pc.owns → v = u) ∧
    (∀ u op seen, s.calls u = .writing op seen → seen = s.loop.pendingFuntors) ∧
    s.loop.executed.map Prod.fst ++ s.loop.tmpFunctors ++ s.loop.pendingFuntors =
      s.loop.pushed := by
  have hinv : Inv tid s := (refines_loop tid pc).invariant hs
  refine ⟨fun u v => hinv.exclusive, hinv.seen, ?_⟩
  have hloop := (refines_loop tid pc).reachable hs
  have hqueue : (EventLoop.queue s.loop).Conserved :=
    Pipe.conserved ((EventLoop.refines_queue pc).reachable hloop)
  rw [List.append_assoc]
  exact hqueue

/-- What a run with the mutex does to the loop, a run in which every push and every swap
is a single step does to it too. -/
theorem runs_as_loop {as : List (Act T F)}
    (hrun : (machine tid F pc).run (start pc) as = some s) :
    ∃ bs, (EventLoop.machine T F pc).run (.start pc) bs = some s.loop :=
  (refines_loop tid pc).run .start hrun

end

/-- Three threads, of which the loop's is the first. -/
def threadNo : Option Bool → Nat
  | none => 0
  | some false => 1
  | some true => 2

theorem threadNo_injective : Function.Injective threadNo := by
  rintro (_ | _ | _) (_ | _ | _) heq <;> first | rfl | exact absurd heq (by decide)

def threeTids : Option Bool ↪ MutexLock.Tid :=
  ⟨fun u => .succ (threadNo u), MutexLock.Tid.succ_injective.comp threadNo_injective⟩

/-- A thread has pushed while the loop polls, and another one waits for its mutex. -/
def contended : List (Act Bool Nat) :=
  [.other .resetQuit, .other .testQuit, .enter (.push false 7), .go (some false),
    .go (some false), .go (some false), .go (some false), .enter (.push true 8)]

theorem contended_runs : ∃ s, (machine threeTids Nat .entering).run (start .entering) contended =
    some s ∧ s.loop.pc = .polling ∧ s.loop.pendingFuntors ≠ [] ∧ s.loop.eventfd = 0 ∧
      s.calls (some false) = .written ∧ s.calls (some true) = .locking (.push true 8) := by
  have hruns : ((machine threeTids Nat .entering).run (start .entering) contended).map (fun s =>
      (s.loop.pc, s.loop.pendingFuntors.isEmpty, s.loop.eventfd, s.calls (some false),
        s.calls (some true))) = some (.polling, false, 0, .written, .locking (.push true 8)) := by
    decide +kernel
  obtain ⟨s, hrun, heq⟩ := Option.map_eq_some_iff.mp hruns
  simp only [Prod.mk.injEq] at heq
  obtain ⟨hpc, hpending, heventfd, hcalls⟩ := heq
  exact ⟨s, hrun, hpc, by simpa using hpending, heventfd, hcalls⟩

theorem contended_excludes : ∃ s,
    (machine threeTids Nat .entering).run (start .entering) contended = some s ∧
    (∀ u v, (s.calls u).pc.owns → (s.calls v).pc.owns → v = u) ∧
    (∀ u op seen, s.calls u = .writing op seen → seen = s.loop.pendingFuntors) ∧
    s.loop.executed.map Prod.fst ++ s.loop.tmpFunctors ++ s.loop.pendingFuntors =
      s.loop.pushed := by
  obtain ⟨s, hrun, -⟩ := contended_runs
  exact ⟨s, hrun, blocks_exclude ⟨_, _, rfl, hrun⟩⟩

theorem contended_as_loop : ∃ s bs,
    (machine threeTids Nat .entering).run (start .entering) contended = some s ∧
    (EventLoop.machine Bool Nat .entering).run (.start .entering) bs = some s.loop := by
  obtain ⟨s, hrun, -⟩ := contended_runs
  obtain ⟨bs, hloop⟩ := runs_as_loop hrun
  exact ⟨s, bs, hrun, hloop⟩

/-! ## 4. Progress -/

section

variable [DecidableEq T] {tid : Option T ↪ MutexLock.Tid} {s t : State T F} {u : Option T}
  {pc : LoopPc}

/-- What a step in the block of `u` does. -/
structure Goes (s : State T F) (u : Option T) (t : State T F) : Prop where
  rest : (t.calls u).rest < (s.calls u).rest
  /-- The thread still has the mutex, or has given it back. -/
  mutex : (t.calls u).pc.owns ∨ t.mutex.mutex = none
  others : ∀ v, v ≠ u → t.calls v = s.calls v
  loop : (s.calls u).op? = none → (t.calls u).op? = none ∧ t.loop = s.loop

theorem Goes.goto {mutex : MutexLock.State} {call : Call T F} (hrest : call.rest < (s.calls u).rest)
    (hmutex : call.pc.owns ∨ mutex.mutex = none) (hop : (s.calls u).op? = none → call.op? = none) :
    Goes s u (s.goto u mutex call) := by
  refine ⟨?_, ?_, fun v hv => State.goto_of_ne hv, fun h => ⟨?_, rfl⟩⟩
  · rwa [State.goto_self]
  · rwa [State.goto_self]
  · rw [State.goto_self, hop h]

/-- A thread that has the mutex or can get it takes a step. -/
theorem go_some (hs : Inv tid s) (hcall : s.calls u ≠ .outside)
    (hmutex : (s.calls u).pc.owns ∨ s.mutex.mutex = none) :
    ∃ t, s.go tid u = some t ∧ Goes s u t := by
  have hpcu := hs.pcs u
  unfold State.go
  cases hu : s.calls u with
  | outside => exact absurd hu hcall
  | locking op =>
    rw [hu] at hpcu hmutex
    have hfree : s.mutex.mutex = none := hmutex.resolve_left Bool.false_ne_true
    simp only [MutexLock.enabled (a := .acquire (tid u)) ⟨hpcu, hfree⟩]
    exact ⟨_, rfl, .goto (by simp [hu, Call.rest]) (.inl rfl) (by simp [hu, Call.op?])⟩
  | locked op =>
    rw [hu] at hpcu
    simp only [MutexLock.enabled (a := .hold (tid u)) hpcu]
    exact ⟨_, rfl, .goto (by simp [hu, Call.rest]) (.inl rfl) (by simp [hu, Call.op?])⟩
  | reading op =>
    exact ⟨_, rfl, .goto (by simp [hu, Call.rest]) (.inl rfl) (by simp [hu, Call.op?])⟩
  | writing op seen =>
    have hgoes : Goes s u (s.goto u s.mutex .written) :=
      .goto (by simp [hu, Call.rest]) (.inl rfl) (by simp [hu, Call.op?])
    exact ⟨_, rfl, hgoes.rest, hgoes.mutex, hgoes.others, by simp [hu, Call.op?]⟩
  | written =>
    rw [hu] at hpcu
    simp only [MutexLock.enabled (a := .unlock (tid u)) hpcu]
    exact ⟨_, rfl, .goto (by simp [hu, Call.rest]) (.inl rfl) fun _ => rfl⟩
  | unlocking =>
    rw [hu] at hpcu
    simp only [MutexLock.enabled (a := .release (tid u)) hpcu]
    exact ⟨_, rfl, .goto (by simp [hu, Call.rest]) (.inr rfl) fun _ => rfl⟩

/-- Such a thread gets to the end of its block on its own, and leaves the mutex free. -/
theorem finishes (pc : LoopPc) (hs : Inv tid s)
    (hmutex : (s.calls u).pc.owns ∨ s.mutex.mutex = none) :
    ∃ as t, (∀ a ∈ as, a = .go u) ∧ as.length ≤ (s.calls u).rest ∧
      (machine tid F pc).run s as = some t ∧ Inv tid t ∧ t.calls u = .outside ∧
      t.mutex.mutex = none ∧ (∀ v, v ≠ u → t.calls v = s.calls v) ∧
      ((s.calls u).op? = none → t.loop = s.loop) := by
  let I := fun t : State T F => Inv tid t ∧ ((t.calls u).pc.owns ∨ t.mutex.mutex = none) ∧
    (∀ v, v ≠ u → t.calls v = s.calls v) ∧
    ((s.calls u).op? = none → (t.calls u).op? = none ∧ t.loop = s.loop)
  have hstart : I s := ⟨hs, hmutex, fun _ _ => rfl, fun h => ⟨h, rfl⟩⟩
  have hstep : ∀ t, I t → t.calls u ≠ .outside → ∃ a t', a = .go u ∧
      (machine tid F pc).step t a = some t' ∧ I t' ∧ (t'.calls u).rest < (t.calls u).rest := by
    rintro t ⟨ht, hmutex, hothers, hloop⟩ hnot
    obtain ⟨t', hgo, hgoes⟩ := go_some ht hnot hmutex
    refine ⟨.go u, t', rfl, hgo, ⟨ht.go hgo, hgoes.mutex, fun v hv => ?_, fun h => ?_⟩, hgoes.rest⟩
    · rw [hgoes.others v hv, hothers v hv]
    · obtain ⟨hop, heq⟩ := hgoes.loop (hloop h).1
      exact ⟨hop, heq.trans (hloop h).2⟩
  obtain ⟨as, t, hP, hlen, hrun, ⟨ht, hfree, hothers, hloop⟩, hout⟩ :=
    Trans.Machine.reaches (G := fun t => t.calls u = .outside) (fun t => (t.calls u).rest) hstep
      hstart
  refine ⟨as, t, hP, hlen, hrun, ht, hout, hfree.resolve_left ?_, hothers, fun h => (hloop h).2⟩
  rw [hout]
  exact Bool.false_ne_true

omit [DecidableEq T] in
theorem rest_le (call : Call T F) (howns : call.pc.owns) : call.rest ≤ 5 := by
  cases call with
  | outside | locking _ => cases howns
  | _ => simp [Call.rest]

/-- A thread at a block gets through it: at most the thread that has the mutex must
move before it, and the two take at most 11 steps. -/
theorem block_ends (hs : (machine tid F pc).Reachable s) (u : Option T) :
    ∃ v as t, (∀ a ∈ as, a = .go v ∨ a = .go u) ∧ as.length ≤ 11 ∧
      (machine tid F pc).run s as = some t ∧ t.calls u = .outside := by
  have hinv : Inv tid s := (refines_loop tid pc).invariant hs
  have hrest : ∀ call : Call T F, call.rest ≤ 6 := fun call => by cases call <;> simp [Call.rest]
  cases hmutex : s.mutex.mutex with
  | none =>
    obtain ⟨as, t, hP, hlen, hrun, -, hout, -⟩ := finishes (u := u) pc hinv (.inr hmutex)
    have := hrest (s.calls u)
    exact ⟨u, as, t, fun a ha => .inl (hP a ha), by omega, hrun, hout⟩
  | some w =>
    -- the owner is one of the threads of the loop, in its block
    have hw : (s.mutex.pc w).owns := (hinv.mutex.owned w).mp hmutex
    obtain ⟨v, rfl⟩ : ∃ v, tid v = w := by
      by_contra hnone
      rw [hinv.others w fun v hv => hnone ⟨v, hv⟩] at hw
      cases hw
    rw [hinv.pcs] at hw
    obtain ⟨as, t, hP, hlen, hrun, ht, hout, hfree, hothers, -⟩ :=
      finishes pc hinv (.inl hw)
    have hfive := rest_le _ hw
    by_cases huv : u = v
    · subst huv
      exact ⟨u, as, t, fun a ha => .inl (hP a ha), by omega, hrun, hout⟩
    · obtain ⟨bs, t', hP', hlen', hrun', -, hout', -⟩ :=
        finishes (u := u) pc ht (.inr hfree)
      have := hrest (t.calls u)
      refine ⟨v, as ++ bs, t', fun a ha => ?_, ?_, ?_, hout'⟩
      · rcases List.mem_append.mp ha with ha | ha
        · exact .inl (hP a ha)
        · exact .inr (hP' a ha)
      · rw [List.length_append]
        omega
      · rw [Trans.Machine.run_append, hrun, Option.bind_some, hrun']

theorem awake_of_reachable {l : EventLoop.State T F}
    (hl : (EventLoop.machine T F .entering).Reachable l) : EventLoop.Awake l := by
  refine (Trans.Machine.reachable_invariant
    (I := fun l => EventLoop.Awake l ∧ l.pc ≠ .initCallback) ?_ ?_ hl).1
  · rintro l rfl
    exact ⟨.start (.inr rfl), by simp [EventLoop.State.start]⟩
  · rintro l a l' ⟨hawake, hinit⟩ hstep
    obtain ⟨hg, rfl⟩ := Trans.Machine.guarded_step.mp hstep
    exact ⟨hawake.step hg fun _ _ => hinit, EventLoop.pc_ne_initCallback hinit⟩

/-- A poll ends, if no functor was queued before the call of `loop`, as by an init callback:
if the loop polls while a functor is pending, the eventfd is readable, or one other thread
makes it so with its next steps, which are at most three and wait for nobody: the end of
its block and its wakeup. -/
theorem poll_ends (hs : (machine tid F .entering).Reachable s) (hpc : s.loop.pc = .polling)
    (hpending : s.loop.pendingFuntors ≠ []) :
    0 < s.loop.eventfd ∨ ∃ u as t, (∀ a ∈ as, a = .go (some u) ∨ a = .other (.wakeup u)) ∧
      as.length ≤ 3 ∧ (machine tid F .entering).run s as = some t ∧
      t.loop.pc = .polling ∧ 0 < t.loop.eventfd := by
  have hinv : Inv tid s := (refines_loop tid .entering).invariant hs
  have hawake := awake_of_reachable ((refines_loop tid .entering).reachable hs)
  refine (hawake.polling_woken hpc hpending).imp_right fun ⟨u, hu⟩ => ?_
  have hop : (s.calls (some u)).op? = none := by
    by_contra hsome
    obtain ⟨op, hop⟩ := Option.ne_none_iff_exists'.mp hsome
    obtain ⟨hthread, hready⟩ := hinv.ready _ op hop
    cases op with
    | push t f =>
      cases hthread
      exact EventLoop.ThreadPc.noConfusion (hu.symm.trans hready.2)
    | loopPush f | swap => cases hthread
  have hwakeup : ∀ t, t.calls (some u) = .outside → t.loop = s.loop →
      ∃ t', (machine tid F .entering).step t (.other (.wakeup u)) = some t' ∧
        t'.loop.pc = .polling ∧ 0 < t'.loop.eventfd := by
    intro t hout hloop
    have hg : EventLoop.guard t.loop (.wakeup u) := by rwa [hloop]
    have hcaller : (t.calls (EventLoopThread.caller (.wakeup u : EventLoop.Act T F))).isOutside =
        true := by
      rw [show EventLoopThread.caller (.wakeup u : EventLoop.Act T F) = some u from rfl, hout]
      rfl
    exact ⟨_, if_pos ⟨trivial, hcaller, hg⟩, by rw [hloop]; exact hpc, Nat.succ_pos _⟩
  by_cases hout : s.calls (some u) = .outside
  · obtain ⟨t, hstep, ht⟩ := hwakeup s hout rfl
    refine ⟨u, [.other (.wakeup u)], t, by simp, by simp, ?_, ht⟩
    rwa [Trans.Machine.run_singleton]
  · -- the thread is at the end of its block
    have howns : (s.calls (some u)).pc.owns ∧ (s.calls (some u)).rest ≤ 2 := by
      cases hcall : s.calls (some u) with
      | outside => exact absurd hcall hout
      | written | unlocking => exact ⟨rfl, by simp [Call.rest]⟩
      | locking op | locked op | reading op | writing op _ =>
        rw [hcall] at hop
        cases hop
    obtain ⟨as, t, hP, hlen, hrun, -, hout, -, -, hloop⟩ :=
      finishes .entering hinv (.inl howns.1)
    obtain ⟨t', hstep, ht'⟩ := hwakeup t hout (hloop hop)
    refine ⟨u, as ++ [.other (.wakeup u)], t', fun a ha => ?_, ?_, ?_, ht'⟩
    · rcases List.mem_append.mp ha with ha | ha
      · exact .inl (hP a ha)
      · exact .inr (List.mem_singleton.mp ha)
    · rw [List.length_append, List.length_singleton]
      have := howns.2
      omega
    · rwa [Trans.Machine.run_append, hrun, Option.bind_some, Trans.Machine.run_singleton]

end

theorem contended_block_ends : ∃ s v as t,
    (machine threeTids Nat .entering).run (start .entering) contended = some s ∧
    s.calls (some true) = .locking (.push true 8) ∧
    (∀ a ∈ as, a = .go v ∨ a = .go (some true)) ∧ as.length ≤ 11 ∧
    (machine threeTids Nat .entering).run s as = some t ∧ t.calls (some true) = .outside := by
  obtain ⟨s, hrun, -, -, -, -, hlocking⟩ := contended_runs
  obtain ⟨v, as, t, hends⟩ := block_ends ⟨_, _, rfl, hrun⟩ (some true)
  exact ⟨s, v, as, t, hrun, hlocking, hends⟩

theorem contended_poll_ends : ∃ s u as t,
    (machine threeTids Nat .entering).run (start .entering) contended = some s ∧
    (∀ a ∈ as, a = .go (some u) ∨ a = .other (.wakeup u)) ∧ as.length ≤ 3 ∧
    (machine threeTids Nat .entering).run s as = some t ∧
    t.loop.pc = .polling ∧ 0 < t.loop.eventfd := by
  obtain ⟨s, hrun, hpc, hpending, hzero, -⟩ := contended_runs
  have hends := poll_ends ⟨_, _, rfl, hrun⟩ hpc hpending
  obtain ⟨u, as, t, hends⟩ := hends.resolve_left (by simp [hzero])
  exact ⟨s, u, as, t, hrun, hends⟩

end QueueLock

end NetFrame
