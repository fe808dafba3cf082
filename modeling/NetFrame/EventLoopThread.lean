import NetFrame.Quitting

/-!
# EventLoopThread: a loop on the stack of another thread

`EventLoopThread.cpp` with the `start` and `join` of `Thread.cpp`. `startLoop`
returns a pointer to the `EventLoop` that is a local variable of `threadFunc`;
`~EventLoopThread` calls its `quit`. The loop itself and those who use it take the
steps of `EventLoop`; the thread that starts and destroys the `EventLoopThread` is
`owner`, one of the threads that may use the loop.

Results:
1. `quit_after_quit`: the owner quits the loop, `threadFunc` returns, and the
   destructor quits the destroyed loop; without `startLoop` it quits `NULL`.
2. `loop_live_when`: no such run is possible when the destructor follows a
   `startLoop` and nobody else quits the loop once it runs; otherwise there is one.
-/

namespace NetFrame

namespace EventLoopThread

open Trans

/-! ## 1. The threads -/

/-- Where the new thread is. -/
inductive ThreadPc where
  | notStarted
  /-- `pthread_create` has returned, `threadFunc` has not constructed its loop. -/
  | created
  /-- In `threadFunc`, whose local `loop` exists. -/
  | running
  /-- `threadFunc` has returned. -/
  | finished
  deriving DecidableEq, Repr

/-- Where the owner is. -/
inductive OwnerPc where
  /-- Outside the functions of the `EventLoopThread`, which exists. -/
  | outside
  /-- In `startLoop`, while `m_ploop` is `NULL`. -/
  | awaiting
  /-- In `~EventLoopThread`, before `m_ploop->quit()`. -/
  | destroying
  /-- In this `quit`, between its store to `m_bquit` and its wakeup write. -/
  | quitting
  /-- Before `m_thread.join()`. -/
  | hasQuit
  /-- In `pthread_join`. -/
  | joining
  | destroyed
  deriving DecidableEq, Repr

/-- What ends the process, or leaves its behaviour undefined. -/
inductive Crash where
  /-- `assert(!m_thread.started())` -/
  | startedTwice
  /-- `m_ploop->quit()` with `m_ploop == NULL` -/
  | nullLoop
  /-- `m_ploop->quit()` on a loop that has been destroyed -/
  | deadLoop
  /-- `assert(started_)` -/
  | notStarted
  deriving DecidableEq, Repr

structure State (T F : Type) where
  /-- The local variable of `threadFunc`. -/
  loop : EventLoop.State T F
  thread : ThreadPc
  owner : OwnerPc
  /-- `m_thread.started_` -/
  started : Bool
  /-- `m_ploop != NULL` -/
  ploop : Bool
  crashed : Option Crash

inductive Act (T F : Type) where
  /-- `startLoop`, up to its wait; `pthread_create` may fail. -/
  | startLoop (created : Bool)
  | startLoopReturns
  /-- The new thread enters `threadFunc` and constructs `loop`. -/
  | construct
  /-- A step of the loop, or of a thread that uses it. -/
  | loop (a : EventLoop.Act T F)
  /-- Another thread uses the loop after its end. -/
  | lateUse (t : T)
  /-- `threadFunc` returns, which destroys `loop`. -/
  | destroyLoop
  /-- `~EventLoopThread` is entered. -/
  | destroy
  /-- Its `m_ploop->quit()`, up to the store to `m_bquit`. -/
  | quitLoop
  | quitWakeup
  | join
  | joined
  deriving DecidableEq, Repr

/-- A new `EventLoopThread`. -/
def start {T F : Type} : State T F where
  loop := .start .initCallback
  thread := .notStarted
  owner := .outside
  started := false
  ploop := false
  crashed := none

variable {T F : Type} [DecidableEq T]

/-- The thread other than the loop's that takes a step. -/
def caller : EventLoop.Act T F → Option T
  | .push t _ | .wakeup t | .storeQuit t | .quitWakeup t => some t
  | _ => none

/-- This step is `m_ploop = &loop`. -/
def publishes : EventLoop.Act T F → Bool
  | .publish => true
  | _ => false

def guard (owner : T) (s : State T F) (a : Act T F) : Prop :=
  s.crashed = none ∧
  match a with
  | .startLoop _ => s.owner = .outside
  | .startLoopReturns => s.owner = .awaiting ∧ s.ploop = true
  | .construct => s.thread = .created
  | .loop a =>
    s.thread = .running ∧ EventLoop.guard s.loop a ∧ (caller a = some owner → s.owner = .outside)
  | .lateUse t => s.thread = .finished ∧ (t = owner → s.owner = .outside)
  | .destroyLoop => s.thread = .running ∧ s.loop.pc = .exited
  | .destroy => s.owner = .outside ∧ s.loop.threads owner = .outside
  | .quitLoop => s.owner = .destroying
  | .quitWakeup => s.owner = .quitting
  | .join => s.owner = .hasQuit
  | .joined => s.owner = .joining ∧ s.thread = .finished

instance (owner : T) (s : State T F) (a : Act T F) : Decidable (guard owner s a) := by
  unfold guard
  cases a <;> infer_instance

def effect (owner : T) (s : State T F) : Act T F → State T F
  | .startLoop created =>
    if s.started then { s with crashed := some .startedTwice }
    else { s with
      started := true
      thread := if created then .created else .notStarted
      owner := .awaiting }
  | .startLoopReturns => { s with owner := .outside }
  | .construct => { s with thread := .running, loop := .start .initCallback }
  | .loop a =>
    { s with loop := EventLoop.effect s.loop a, ploop := s.ploop || publishes a }
  | .lateUse t =>
    { s with loop := { s.loop with threads := Function.update s.loop.threads t .outside } }
  | .destroyLoop => { s with thread := .finished }
  | .destroy => { s with owner := .destroying }
  | .quitLoop =>
    if s.ploop = false then { s with crashed := some .nullLoop }
    else if s.thread ≠ .running then { s with crashed := some .deadLoop }
    else { s with loop := EventLoop.effect s.loop (.storeQuit owner), owner := .quitting }
  | .quitWakeup =>
    { s with
      loop := if s.thread = .running then EventLoop.effect s.loop (.quitWakeup owner) else s.loop
      owner := .hasQuit }
  | .join =>
    if s.started then { s with owner := .joining } else { s with crashed := some .notStarted }
  | .joined => { s with owner := .destroyed }

/-- The runs of an `EventLoopThread`. -/
def machine (F : Type) (owner : T) : Machine (State T F) (Act T F) :=
  Machine.guarded (· = start) (guard owner) (effect owner)

/-! ## 2. What the destructor may touch -/

/-- `m_ploop->quit()` is called on a loop that exists, `join` on a started thread. -/
def Live (s : State T F) : Act T F → Prop
  | .quitLoop => s.ploop = true ∧ s.thread = .running
  | .join => s.started = true
  | _ => True

instance (s : State T F) (a : Act T F) : Decidable (Live s a) :=
  match a with
  | .quitLoop => inferInstanceAs (Decidable (_ ∧ _))
  | .join => inferInstanceAs (Decidable (_ = _))
  | .startLoop _ | .startLoopReturns | .construct | .loop _ | .lateUse _ | .destroyLoop
  | .destroy | .quitWakeup | .joined => .isTrue trivial

/-- The test program of `main.cpp`: the owner quits the loop, which returns before
the destructor runs. -/
def ownerQuits : List (Act Unit Unit) :=
  [.startLoop true, .construct, .loop .publish, .startLoopReturns, .loop .resetQuit,
    .loop .testQuit, .loop (.storeQuit ()), .loop (.quitWakeup ()), .loop (.pollReturn true),
    .loop .handleRead, .loop .setCalling, .loop .swap, .loop .clearCalling, .loop .testQuit,
    .destroyLoop, .destroy, .quitLoop]

/-- The destructor of an `EventLoopThread` whose `startLoop` was never called. -/
def neverStarted : List (Act Unit Unit) := [.destroy, .quitLoop]

theorem quit_after_quit :
    (∃ s, (machine Unit ()).run start ownerQuits = some s ∧ s.crashed = some .deadLoop ∧
      ¬(machine Unit ()).Along Live start ownerQuits) ∧
    (∃ s, (machine Unit ()).run start neverStarted = some s ∧ s.crashed = some .nullLoop ∧
      ¬(machine Unit ()).Along Live start neverStarted) :=
  ⟨⟨_, rfl, rfl, by decide⟩, ⟨_, rfl, rfl, by decide⟩⟩

/-- The destructor has called `quit`. -/
def OwnerPc.afterQuit : OwnerPc → Bool
  | .outside | .awaiting | .destroying => false
  | .quitting | .hasQuit | .joining | .destroyed => true

/-- The loop has not yet reset `m_bquit`. -/
def Entering (l : EventLoop.State T F) : Prop := l.pc = .initCallback ∨ l.pc = .entering

instance (l : EventLoop.State T F) : Decidable (Entering l) := inferInstanceAs (Decidable (_ ∨ _))

/-- The destructor is called after `startLoop`, and nobody quits a loop that runs
before the destructor does. -/
def Prudent (s : State T F) : Act T F → Prop
  | .destroy => s.started = true
  | .loop a => a.storesQuit = true → Entering s.loop ∨ s.owner.afterQuit = true
  | _ => True

instance (s : State T F) (a : Act T F) : Decidable (Prudent s a) :=
  match a with
  | .destroy => inferInstanceAs (Decidable (_ = _))
  | .loop _ => inferInstanceAs (Decidable (_ → _))
  | .startLoop _ | .startLoopReturns | .construct | .lateUse _ | .destroyLoop | .quitLoop
  | .quitWakeup | .join | .joined => .isTrue trivial

/-! ## 3. Every run -/

section

variable {owner : T} {s t : State T F} {a : Act T F}

/-- What the two threads know of each other. -/
structure Paired (s : State T F) : Prop where
  started : s.thread ≠ .notStarted → s.started = true
  published : s.ploop = true ↔
    s.thread = .finished ∨ s.thread = .running ∧ s.loop.pc ≠ .initCallback
  returned : s.owner = .outside ∨ s.owner = .destroying → s.started = true → s.ploop = true
  awaiting : s.owner = .awaiting → s.started = true
  afterQuit : s.owner.afterQuit = true → s.started = true

theorem publish_pc {l : EventLoop.State T F} {a : EventLoop.Act T F} (hg : EventLoop.guard l a) :
    (EventLoop.effect l a).pc ≠ .initCallback ↔ l.pc ≠ .initCallback ∨ publishes a = true := by
  cases a <;> simp only [EventLoop.guard, EventLoop.effect, EventLoop.State.push,
    EventLoop.State.wakeup, publishes] at * <;> grind

theorem Paired.step (hs : Paired s) (hg : guard owner s a) : Paired (effect owner s a) := by
  obtain ⟨hstarted, hpublished, hreturned, hawaiting, hafter⟩ := hs
  obtain ⟨hcrashed, hg⟩ := hg
  cases a with
  | startLoop created =>
    simp only [effect]
    split
    · exact ⟨hstarted, hpublished, hreturned, hawaiting, hafter⟩
    · next hnot =>
      have hthread : s.thread = .notStarted := by
        by_contra hne
        exact hnot (hstarted hne)
      refine ⟨fun _ => rfl, ?_, by simp, fun _ => rfl, fun _ => rfl⟩
      rw [hpublished, hthread]
      cases created <;> simp
  | startLoopReturns =>
    exact ⟨hstarted, hpublished, fun _ _ => hg.2, by simp [effect],
      by simp [effect, OwnerPc.afterQuit]⟩
  | construct =>
    have hthread : s.thread = .created := hg
    refine ⟨fun _ => hstarted (by simp [hthread]), ?_, hreturned, hawaiting, hafter⟩
    simp [effect, hpublished, hthread, EventLoop.State.start]
  | loop a =>
    obtain ⟨hthread, hg, -⟩ := hg
    refine ⟨hstarted, ?_, fun ho hst => ?_, hawaiting, hafter⟩
    · simp only [effect, Bool.or_eq_true, hpublished, publish_pc hg, hthread]
      simp
    · simp [effect, hreturned ho hst]
  | lateUse t => exact ⟨hstarted, hpublished, hreturned, hawaiting, hafter⟩
  | destroyLoop =>
    obtain ⟨hthread, hpc⟩ := hg
    refine ⟨fun _ => hstarted (by simp [hthread]), ?_, hreturned, hawaiting, hafter⟩
    simp [effect, hpublished, hthread, hpc]
  | destroy =>
    exact ⟨hstarted, hpublished, fun _ => hreturned (.inl hg.1), by simp [effect],
      by simp [effect, OwnerPc.afterQuit]⟩
  | quitLoop =>
    simp only [effect]
    split_ifs with hnull hdead
    · exact ⟨hstarted, hpublished, hreturned, hawaiting, hafter⟩
    · exact ⟨hstarted, hpublished, hreturned, hawaiting, hafter⟩
    · have hthread : s.thread = .running := by simpa using hdead
      refine ⟨hstarted, ?_, by simp, by simp, fun _ => hstarted (by simp [hthread])⟩
      simpa [EventLoop.effect] using hpublished
  | quitWakeup =>
    refine ⟨hstarted, ?_, by simp [effect], by simp [effect], fun _ => hafter ?_⟩
    · simp only [effect]
      split <;> simpa [EventLoop.effect, EventLoop.State.wakeup] using hpublished
    · rw [show s.owner = .quitting from hg]
      rfl
  | join =>
    simp only [effect]
    split_ifs with hst
    · exact ⟨hstarted, hpublished, by simp, by simp, fun _ => hst⟩
    · exact ⟨hstarted, hpublished, hreturned, hawaiting, hafter⟩
  | joined =>
    refine ⟨hstarted, hpublished, by simp [effect], by simp [effect], fun _ => hafter ?_⟩
    rw [hg.1]
    rfl

omit [DecidableEq T] in
theorem Paired.start : Paired (start : State T F) := by
  constructor <;> simp [EventLoopThread.start, OwnerPc.afterQuit]

/-- Until the destructor quits it, the loop has no quit to see once it runs. -/
structure Alone (s : State T F) : Prop where
  quit : s.owner.afterQuit = false → s.thread = .running → s.loop.bquit = true → Entering s.loop
  pc : s.owner.afterQuit = false → s.thread = .running → s.loop.pc ≠ .exited
  thread : s.owner.afterQuit = false → s.thread ≠ .finished
  destroying : s.owner = .destroying → s.started = true

omit [DecidableEq T] in
theorem Alone.start : Alone (start : State T F) := by
  constructor <;> simp [EventLoopThread.start]

/-- A loop that has no quit to see goes on, as long as none is stored. -/
theorem quiet_step {l : EventLoop.State T F} {a : EventLoop.Act T F} (hg : EventLoop.guard l a)
    (hquit : l.bquit = true → Entering l) (hpc : l.pc ≠ .exited)
    (hstores : a.storesQuit = true → Entering l) :
    ((EventLoop.effect l a).bquit = true → Entering (EventLoop.effect l a)) ∧
      (EventLoop.effect l a).pc ≠ .exited := by
  unfold Entering at *
  cases a <;> simp only [EventLoop.guard, EventLoop.effect, EventLoop.State.push,
    EventLoop.State.wakeup, EventLoop.Act.storesQuit] at * <;> grind

theorem Alone.step (hs : Alone s) (hp : Prudent s a) (hg : guard owner s a) :
    Alone (effect owner s a) := by
  obtain ⟨hquit, hpc, hthread, hdestroying⟩ := hs
  obtain ⟨hcrashed, hg⟩ := hg
  cases a with
  | startLoop created =>
    simp only [effect]
    split
    · exact ⟨hquit, hpc, hthread, hdestroying⟩
    · refine ⟨fun _ h => ?_, fun _ h => ?_, fun _ => ?_, by simp⟩
      · cases created <;> cases h
      · cases created <;> cases h
      · cases created <;> simp
  | startLoopReturns =>
    have ho : s.owner.afterQuit = false := by rw [hg.1]; rfl
    exact ⟨fun _ => hquit ho, fun _ => hpc ho, fun _ => hthread ho, by simp [effect]⟩
  | construct =>
    refine ⟨fun _ _ _ => .inl rfl, fun _ _ => ?_, fun _ => ?_, hdestroying⟩
    · simp [effect, EventLoop.State.start]
    · simp [effect]
  | loop a =>
    obtain ⟨hrunning, hg, -⟩ := hg
    have hquiet : s.owner.afterQuit = false →
        ((EventLoop.effect s.loop a).bquit = true → Entering (EventLoop.effect s.loop a)) ∧
          (EventLoop.effect s.loop a).pc ≠ .exited := by
      intro ho
      refine quiet_step hg (hquit ho hrunning) (hpc ho hrunning) fun hstores => ?_
      exact (hp hstores).resolve_right (by simp [ho])
    exact ⟨fun ho _ => (hquiet ho).1, fun ho _ => (hquiet ho).2, hthread, hdestroying⟩
  | lateUse t => exact ⟨hquit, hpc, hthread, hdestroying⟩
  | destroyLoop =>
    -- the loop ends only after the destructor has quit it
    have ho : s.owner.afterQuit = true := by
      by_contra hnot
      exact hpc (by simpa using hnot) hg.1 hg.2
    refine ⟨fun h => ?_, fun h => ?_, fun h => ?_, hdestroying⟩
    all_goals exact absurd h (by simp [effect, ho])
  | destroy =>
    have ho : s.owner.afterQuit = false := by rw [hg.1]; rfl
    exact ⟨fun _ => hquit ho, fun _ => hpc ho, fun _ => hthread ho, fun _ => hp⟩
  | quitLoop =>
    simp only [effect]
    split_ifs
    · exact ⟨hquit, hpc, hthread, hdestroying⟩
    · exact ⟨hquit, hpc, hthread, hdestroying⟩
    · constructor <;> simp [OwnerPc.afterQuit]
  | quitWakeup => constructor <;> simp [effect, OwnerPc.afterQuit]
  | join =>
    simp only [effect]
    split
    · constructor <;> simp [OwnerPc.afterQuit]
    · exact ⟨hquit, hpc, hthread, hdestroying⟩
  | joined => constructor <;> simp [effect, OwnerPc.afterQuit]

omit [DecidableEq T] in
/-- The destructor finds the loop as it should be. -/
theorem Alone.live (hs : Alone s) (hpaired : Paired s) (hg : guard owner s a) : Live s a := by
  cases a with
  | quitLoop =>
    have ho : s.owner = .destroying := hg.2
    have hploop : s.ploop = true := hpaired.returned (.inr ho) (hs.destroying ho)
    refine ⟨hploop, ?_⟩
    rcases hpaired.published.mp hploop with hfinished | ⟨hrunning, -⟩
    · exact absurd hfinished (hs.thread (by rw [ho]; rfl))
    · exact hrunning
  | join =>
    refine hpaired.afterQuit ?_
    rw [show s.owner = .hasQuit from hg.2]
    rfl
  | _ => trivial

/-! ## 4. A quit that comes too early -/

/-- The run can go on to a use of a loop that does not exist. -/
def Violates (owner : T) (s : State T F) : Prop :=
  ∃ as t, (machine F owner).run s as = some t ∧ ¬(machine F owner).Along Live s as

theorem Violates.step (hstep : (machine F owner).step s a = some t) (ht : Violates owner t) :
    Violates owner s := by
  obtain ⟨as, u, hrun, hnot⟩ := ht
  refine ⟨a :: as, u, ?_, fun hlive => hnot (hlive.2 t hstep)⟩
  rw [Machine.run_cons, hstep, Option.bind_some, hrun]

theorem Violates.act (hg : guard owner s a) (ht : Violates owner (effect owner s a)) :
    Violates owner s :=
  ht.step (Machine.guarded_step.mpr ⟨hg, rfl⟩)

/-- The destructor is about to quit a loop that does not exist. -/
theorem violates_quitLoop (hcrashed : s.crashed = none) (ho : s.owner = .destroying)
    (hdead : s.thread ≠ .running) : Violates owner s := by
  refine ⟨[.quitLoop], effect owner s .quitLoop, ?_, fun hlive => hdead hlive.1.2⟩
  rw [Machine.run_singleton]
  exact Machine.guarded_step.mpr ⟨⟨hcrashed, ho⟩, rfl⟩

/-- When `threadFunc` has returned, the destructor comes too late. -/
theorem violates_finished (hcrashed : s.crashed = none) (hthread : s.thread = .finished)
    (hploop : s.ploop = true) (ho : s.owner.afterQuit = false) : Violates owner s := by
  have hdead : ∀ {t : State T F}, t.thread = .finished → t.thread ≠ .running := by
    intro t ht
    simp [ht]
  have houtside : ∀ {t : State T F}, t.crashed = none → t.thread = .finished →
      t.owner = .outside → Violates owner t := by
    intro t hcrashed hthread ho
    -- the owner's own calls on the loop come to their end first
    refine Violates.act (a := .lateUse owner) ⟨hcrashed, hthread, fun _ => ho⟩ ?_
    refine Violates.act (a := .destroy) ⟨hcrashed, ho, by simp [effect]⟩ ?_
    exact violates_quitLoop hcrashed rfl (hdead hthread)
  cases howner : s.owner with
  | outside => exact houtside hcrashed hthread howner
  | awaiting =>
    refine Violates.act (a := .startLoopReturns) ⟨hcrashed, howner, hploop⟩ ?_
    exact houtside hcrashed hthread rfl
  | destroying => exact violates_quitLoop hcrashed howner (hdead hthread)
  | _ => simp [OwnerPc.afterQuit, howner] at ho

/-- The loop `l` of `threadFunc` runs, and the destructor has not quit it. -/
structure Unquit (s : State T F) : Prop where
  crashed : s.crashed = none
  thread : s.thread = .running
  ploop : s.ploop = true
  owner : s.owner.afterQuit = false

/-- The loop's thread takes a step. -/
theorem Unquit.violates {l : EventLoop.State T F} {a : EventLoop.Act T F} (hs : Unquit s)
    (hg : EventLoop.guard l a) (hcaller : caller a = none)
    (ht : Violates owner { s with loop := EventLoop.effect l a }) :
    Violates owner { s with loop := l } := by
  refine Violates.act (a := .loop a) ⟨hs.crashed, hs.thread, hg, by simp [hcaller]⟩ ?_
  simpa [effect, hs.ploop] using ht

variable {l : EventLoop.State T F}

theorem violates_exited (hs : Unquit s) (hpc : l.pc = .exited) :
    Violates owner { s with loop := l } :=
  Violates.act (a := .destroyLoop) ⟨hs.crashed, hs.thread, hpc⟩
    (violates_finished hs.crashed rfl hs.ploop hs.owner)

theorem violates_testing (hs : Unquit s) (hquit : l.bquit = true) (hpc : l.pc = .testing) :
    Violates owner { s with loop := l } := by
  refine hs.violates (a := .testQuit) hpc rfl (violates_exited hs ?_)
  exact if_pos hquit

/-- The rest of a batch runs before the loop sees the quit. -/
theorem violates_running (hs : Unquit s) (hquit : l.bquit = true) (hcall : l.call = .none)
    (hpc : l.pc = .running) : Violates owner { s with loop := l } := by
  generalize htmp : l.tmpFunctors = tmp
  induction tmp generalizing l with
  | nil =>
    refine hs.violates (a := .clearCalling) ⟨hpc, by simp [htmp]⟩ rfl ?_
    exact violates_testing hs hquit rfl
  | cons q rest ih =>
    refine hs.violates (a := .runFunctor) ⟨hpc, by simp [htmp]⟩ rfl ?_
    refine hs.violates (a := .functorReturns) ⟨rfl, hcall⟩ rfl ?_
    exact ih hquit hcall rfl (by simp [EventLoop.effect, htmp])

theorem violates_swapping (hs : Unquit s) (hquit : l.bquit = true) (hcall : l.call = .none)
    (hpc : l.pc = .swapping) : Violates owner { s with loop := l } :=
  hs.violates (a := .swap) hpc rfl (violates_running hs hquit hcall rfl)

theorem violates_handling (hs : Unquit s) (hquit : l.bquit = true) (hcall : l.call = .none)
    {wake : Bool} (hpc : l.pc = .handling wake) : Violates owner { s with loop := l } := by
  have hdone : ∀ {l : EventLoop.State T F}, l.bquit = true → l.call = .none →
      l.pc = .handling false → Violates owner { s with loop := l } := by
    intro l hquit hcall hpc
    exact hs.violates (a := .setCalling) ⟨hpc, hcall⟩ rfl (violates_swapping hs hquit hcall rfl)
  cases wake with
  | false => exact hdone hquit hcall hpc
  | true => exact hs.violates (a := .handleRead) ⟨hpc, hcall⟩ rfl (hdone hquit hcall rfl)

/-- A running loop that has been quit comes to its end. -/
theorem violates_quit (hs : Unquit s) (hquit : l.bquit = true) (hentered : ¬Entering l)
    (hcall : l.call = .none) : Violates owner { s with loop := l } := by
  cases hpc : l.pc with
  | initCallback => exact absurd (.inl hpc) hentered
  | entering => exact absurd (.inr hpc) hentered
  | testing => exact violates_testing hs hquit hpc
  | polling =>
    exact hs.violates (a := .pollReturn false) ⟨hpc, by simp⟩ rfl
      (violates_handling hs hquit hcall rfl)
  | handling wake => exact violates_handling hs hquit hcall hpc
  | swapping => exact violates_swapping hs hquit hcall hpc
  | running => exact violates_running hs hquit hcall hpc
  | inFunctor =>
    exact hs.violates (a := .functorReturns) ⟨hpc, hcall⟩ rfl
      (violates_running hs hquit hcall rfl)
  | exited => exact violates_exited hs hpc

theorem violates_mustWake (hs : Unquit s) (hquit : l.bquit = true) (hentered : ¬Entering l)
    (hcall : l.call = .mustWake) : Violates owner { s with loop := l } :=
  hs.violates (a := .loopWakeup) hcall rfl (violates_quit hs hquit hentered rfl)

/-- So it does when its thread is in a `queueInLoop`. -/
theorem violates_call (hs : Unquit s) (hquit : s.loop.bquit = true) (hentered : ¬Entering s.loop) :
    Violates owner s := by
  show Violates owner { s with loop := s.loop }
  cases hcall : s.loop.call with
  | none => exact violates_quit hs hquit hentered hcall
  | pushed =>
    refine hs.violates (a := .readCalling) hcall rfl ?_
    cases hcalling : s.loop.callingPendingFunctors with
    | false => exact violates_quit hs hquit hentered (by simp [EventLoop.effect, hcalling])
    | true => exact violates_mustWake hs hquit hentered (by simp [EventLoop.effect, hcalling])
  | mustWake => exact violates_mustWake hs hquit hentered hcall

/-- After a step that is not prudent the destructor may meet a loop that does not
exist. -/
theorem violates_of_not_prudent (hs : Paired s) (hg : guard owner s a) (hp : ¬Prudent s a) :
    Violates owner (effect owner s a) := by
  obtain ⟨hcrashed, hg⟩ := hg
  cases a with
  | destroy =>
    refine violates_quitLoop hcrashed rfl fun hrunning => hp (hs.started ?_)
    rw [show s.thread = .running from hrunning]
    decide
  | loop a =>
    obtain ⟨hrunning, hg, -⟩ := hg
    simp only [Prudent, Classical.not_imp, not_or] at hp
    obtain ⟨hstores, hentered, ho⟩ := hp
    have hploop : s.ploop = true :=
      hs.published.mpr (.inr ⟨hrunning, fun h => hentered (.inl h)⟩)
    refine violates_call ⟨hcrashed, hrunning, by simp [effect, hploop],
      by simpa [effect] using ho⟩ ?_ ?_
    · cases a <;> simp [EventLoop.Act.storesQuit] at hstores <;> rfl
    · cases a <;> simp [EventLoop.Act.storesQuit] at hstores <;> exact hentered
  | _ => exact absurd trivial hp

/-- The destructor quits a loop that exists, and joins a thread that was started, in
every run in which it follows a `startLoop` and nobody else quits the loop between
its reset of `m_bquit` and the destructor's `quit`. Each other run has a beginning
after which the destructor may quit a loop that does not exist. -/
theorem loop_live_when {as : List (Act T F)} (hrun : (machine F owner).run start as = some s) :
    ((machine F owner).Along Prudent start as → (machine F owner).Along Live start as) ∧
    (¬(machine F owner).Along Prudent start as → ∃ bs cs t, bs <+: as ∧
      (machine F owner).run start (bs ++ cs) = some t ∧
      ¬(machine F owner).Along Live start (bs ++ cs)) := by
  have hpaired : ∀ {bs u}, (machine F owner).run start bs = some u → Paired u := by
    intro bs u hu
    refine Machine.run_invariant (C := fun _ _ => True) (fun v a w hv _ hstep => ?_) Paired.start
      (Machine.along_true _ _) hu
    obtain ⟨hg, rfl⟩ := Machine.guarded_step.mp hstep
    exact hv.step hg
  refine ⟨fun hprudent => ?_, fun hnot => ?_⟩
  · refine Machine.along_iff.mpr fun bs a cs u heq hu => ?_
    subst heq
    have halone : Alone u := by
      refine Machine.run_invariant (fun v a w hv hp hstep => ?_) Alone.start hprudent.of_append hu
      obtain ⟨hg, rfl⟩ := Machine.guarded_step.mp hstep
      exact hv.step hp hg
    rw [Machine.run_append, hu, Option.bind_some] at hrun
    obtain ⟨v, hstep, -⟩ := (machine F owner).run_cons_some hrun
    exact halone.live (hpaired hu) (Machine.guarded_step.mp hstep).1
  · simp only [Machine.along_iff, not_forall] at hnot
    obtain ⟨bs, a, cs, u, rfl, hu, hp⟩ := hnot
    rw [Machine.run_append, hu, Option.bind_some] at hrun
    obtain ⟨v, hstep, -⟩ := (machine F owner).run_cons_some hrun
    have hg := (Machine.guarded_step.mp hstep).1
    obtain ⟨ds, w, hw, hviolates⟩ :=
      (violates_of_not_prudent (hpaired hu) hg hp).act hg
    refine ⟨bs, ds, w, List.prefix_append _ _, ?_, fun hlive => hviolates (hlive.after hu)⟩
    rw [Machine.run_append, hu, Option.bind_some, hw]

/-- The owner only destroys what it has started; the loop is quit while it polls. -/
def destroyed : List (Act Unit Unit) :=
  [.startLoop true, .construct, .loop .publish, .loop .resetQuit, .startLoopReturns,
    .loop .testQuit, .destroy, .quitLoop, .quitWakeup, .join, .loop (.pollReturn true),
    .loop .handleRead, .loop .setCalling, .loop .swap, .loop .clearCalling, .loop .testQuit,
    .destroyLoop, .joined]

theorem destroyed_live : (machine Unit ()).Along Live start destroyed := by
  have hrun : ∃ s, (machine Unit ()).run start destroyed = some s := ⟨_, rfl⟩
  obtain ⟨s, hrun⟩ := hrun
  exact (loop_live_when hrun).1 (by decide)

/-- The loop sees the destructor's quit before the wakeup write. -/
def quickExit : List (Act Unit Unit) :=
  [.startLoop true, .construct, .loop .publish, .loop .resetQuit, .startLoopReturns, .destroy,
    .quitLoop, .loop .testQuit, .destroyLoop]

/-- The loop exists when the destructor calls `quit`, but not always until `quit`
returns: its `isInLoopThread` and `wakeup` come after the store to `m_bquit`. -/
theorem quit_outlives_loop :
    (machine Unit ()).Along Prudent start quickExit ∧
    ∃ s, (machine Unit ()).run start quickExit = some s ∧ s.owner = .quitting ∧
      s.thread = .finished :=
  ⟨by decide, _, rfl, rfl, rfl⟩

end

end EventLoopThread

end NetFrame
