import NetFrame.EventLoopThread
import NetFrame.MutexLock

/-!
# startLoop: the handshake under the mutex

The `startLoop` and the `threadFunc` of `EventLoopThread.cpp` with `Mutex.h` and
`Condition.h`. In `EventLoopThread` the owner waits until `m_ploop` is not `NULL`.
Here it does so as the source does: it locks `m_mutex`, tests `m_ploop`, waits on
`m_cond` and tests again, while the new thread locks the mutex, writes `m_ploop` and
notifies. A wait may also end with no notification.

Results:
1. `runs_as_thread`: the handshake refines the `EventLoopThread` whose `startLoop`
   returns only a pointer to a loop.
2. `handshake_safe`: no notification is lost, and `~MutexLock` finds its `holder_` 0.
-/

namespace NetFrame

namespace StartLoop

open EventLoopThread (Paired caller)

/-! ## 1. The two blocks -/

/-- The tids of the owner and of the new thread. -/
structure Tids where
  owner : MutexLock.Tid
  looper : MutexLock.Tid
  ne : owner ≠ looper

/-- Where the owner is in `startLoop`. -/
inductive OwnerPc where
  | outside
  /-- In `MutexLock::lock`, before it has the mutex. -/
  | locking
  | locked
  /-- At `while(m_ploop == NULL)`. -/
  | testing
  /-- Before `m_cond.wait()`. -/
  | sleeping
  | waiting
  /-- Before the guard is destroyed. -/
  | leaving
  | unlocking
  /-- Before `return m_ploop`. -/
  | returning
  deriving DecidableEq, Repr

/-- Where the new thread is in `threadFunc`. -/
inductive ThreadPc where
  /-- Before the block; perhaps not created. -/
  | constructing
  | locking
  | locked
  /-- Before `m_ploop = &loop`. -/
  | publishing
  /-- Before `m_cond.notify()`. -/
  | notifying
  /-- Before the guard is destroyed. -/
  | leaving
  | unlocking
  /-- At `loop.loop()` or later. -/
  | done
  deriving DecidableEq, Repr

/-- Where the owner is for the mutex; `m_cond` is the condition 0. -/
def OwnerPc.pc : OwnerPc → MutexLock.Pc
  | .outside | .returning => .outside
  | .locking => .locking
  | .locked => .locked
  | .testing | .sleeping | .leaving => .holding
  | .waiting => .waiting 0 false
  | .unlocking => .unlocking

/-- The owner has seen that `m_ploop` is not `NULL`. -/
def OwnerPc.tested : OwnerPc → Bool
  | .leaving | .unlocking | .returning => true
  | _ => false

def ThreadPc.pc : ThreadPc → MutexLock.Pc
  | .constructing | .done => .outside
  | .locking => .locking
  | .locked => .locked
  | .publishing | .notifying | .leaving => .holding
  | .unlocking => .unlocking

/-- `m_ploop` has been written. -/
def ThreadPc.published : ThreadPc → Bool
  | .notifying | .leaving | .unlocking | .done => true
  | _ => false

/-- The thread is outside of its block. -/
def ThreadPc.isFree : ThreadPc → Bool
  | .constructing | .done => true
  | _ => false

structure State (T F : Type) where
  base : EventLoopThread.State T F
  /-- `m_mutex`, and the threads that are blocked on `m_cond`. -/
  mutex : MutexLock.State
  owner : OwnerPc
  thread : ThreadPc

inductive Act (T F : Type) where
  /-- `startLoop` is called and starts its thread, which may fail. -/
  | startLoop (created : Bool)
  /-- Any other step outside of the two blocks. -/
  | base (a : EventLoopThread.Act T F)
  /-- The next step of the owner in `startLoop`. -/
  | owner
  /-- The next step of the new thread in its block. -/
  | thread
  /-- Its `m_cond.notify()`. -/
  | notify (woken : Option MutexLock.Tid)
  /-- The owner's wait is woken up spuriously. -/
  | wake

variable {T F : Type}

/-- This step is taken outside of the two blocks. -/
def Outer : EventLoopThread.Act T F → Prop
  | .startLoop _ | .startLoopReturns | .loop .publish => False
  | _ => True

instance (a : EventLoopThread.Act T F) : Decidable (Outer a) :=
  match a with
  | .startLoop _ | .startLoopReturns | .loop .publish => .isFalse id
  | .construct | .lateUse _ | .destroyLoop | .destroy | .quitLoop | .quitWakeup
  | .join | .joined => .isTrue trivial
  | .loop .resetQuit | .loop .testQuit | .loop (.pollReturn _) | .loop .handleRead
  | .loop .setCalling | .loop .swap | .loop .runFunctor | .loop .functorReturns
  | .loop .clearCalling | .loop (.loopPush _) | .loop .readCalling | .loop .loopWakeup
  | .loop .loopQuit | .loop (.push _ _) | .loop (.wakeup _) | .loop (.storeQuit _)
  | .loop (.quitWakeup _) => .isTrue trivial

/-- This step is taken by the new thread. -/
def byLooper : EventLoopThread.Act T F → Bool
  | .construct | .destroyLoop => true
  | .loop a => (caller a).isNone
  | _ => false

section

variable [DecidableEq T] (tids : Tids) (owner : T)

namespace State

/-- The owner goes on, with what its call leaves of the mutex. -/
def owns (s : State T F) (a : MutexLock.Act) (pc : OwnerPc) : Option (State T F) := do
  let mutex ← MutexLock.machine.step s.mutex a
  some { s with mutex := mutex, owner := pc }

/-- The new thread goes on. -/
def threads (s : State T F) (a : MutexLock.Act) (pc : ThreadPc) : Option (State T F) := do
  let mutex ← MutexLock.machine.step s.mutex a
  some { s with mutex := mutex, thread := pc }

/-- `startLoop` from its guard on. -/
def goOwner (s : State T F) : Option (State T F) :=
  match s.owner with
  | .outside => none
  | .locking => s.owns (.acquire tids.owner) .locked
  | .locked => s.owns (.hold tids.owner) .testing
  | .testing => some { s with owner := if s.base.ploop then .leaving else .sleeping }
  | .sleeping => s.owns (.wait tids.owner 0) .waiting
  | .waiting => s.owns (.reacquire tids.owner) .testing
  | .leaving => s.owns (.unlock tids.owner) .unlocking
  | .unlocking => s.owns (.release tids.owner) .returning
  | .returning => some { s with base := { s.base with owner := .outside }, owner := .outside }

/-- The init callback has returned. -/
def Called (s : State T F) : Prop :=
  s.base.thread = .running ∧ s.base.loop.pc = .initCallback ∧ s.base.loop.call = .none

instance (s : State T F) : Decidable s.Called := inferInstanceAs (Decidable (_ ∧ _))

/-- The block of `threadFunc` but for its `notify`. -/
def goThread (s : State T F) : Option (State T F) :=
  match s.thread with
  | .constructing => if s.Called then s.threads (.lock tids.looper) .locking else none
  | .locking => s.threads (.acquire tids.looper) .locked
  | .locked => s.threads (.hold tids.looper) .publishing
  | .publishing =>
    some { s with
      base := EventLoopThread.effect owner s.base (.loop .publish)
      thread := .notifying }
  | .leaving => s.threads (.unlock tids.looper) .unlocking
  | .unlocking => s.threads (.release tids.looper) .done
  | .notifying | .done => none

end State

/-- After a failed assertion nothing moves. -/
def step (s : State T F) (a : Act T F) : Option (State T F) :=
  if s.base.crashed ≠ none then none
  else
    match a with
    | .startLoop created => do
      let base ← (EventLoopThread.machine F owner).step s.base (.startLoop created)
      -- its guard calls `lock`
      if base.crashed = none then State.owns { s with base := base } (.lock tids.owner) .locking
      else some { s with base := base }
    | .base a =>
      if Outer a ∧ (byLooper a = true → s.thread.isFree = true) then do
        let base ← (EventLoopThread.machine F owner).step s.base a
        some { s with base := base }
      else none
    | .owner => s.goOwner tids
    | .thread => s.goThread tids owner
    | .notify woken =>
      if s.thread = .notifying then s.threads (.notify tids.looper 0 woken) .leaving else none
    | .wake => s.owns (.wake tids.owner) s.owner

def start : State T F where
  base := EventLoopThread.start
  mutex := MutexLock.start
  owner := .outside
  thread := .constructing

/-- The runs of an `EventLoopThread` with its mutex and condition. -/
def machine (F : Type) : Trans.Machine (State T F) (Act T F) where
  init := (· = start)
  step := step tids owner

end

/-! ## 2. The invariant -/

section

variable [DecidableEq T] {tids : Tids} {owner : T} {s t : State T F}

/-- Where the new thread is, as far as the `EventLoopThread` without a mutex shows it. -/
def ThreadAt (b : EventLoopThread.State T F) : ThreadPc → Prop
  | .constructing => b.thread ≠ .finished ∧ (b.thread = .running → b.loop.pc = .initCallback)
  | .locking | .locked | .publishing =>
    b.thread = .running ∧ b.loop.pc = .initCallback ∧ b.loop.call = .none
  | .notifying | .leaving | .unlocking => b.thread = .running ∧ b.loop.pc ≠ .initCallback
  | .done => b.thread = .finished ∨ b.thread = .running ∧ b.loop.pc ≠ .initCallback

/-- The handshake and the `EventLoopThread` without a mutex agree. -/
structure Placed (b : EventLoopThread.State T F) (o : OwnerPc) (pc : ThreadPc) : Prop where
  paired : Paired b
  thread : ThreadAt b pc
  owner : o ≠ .outside ↔ b.owner = .awaiting
  crashed : o ≠ .outside → b.crashed = none

/-- The protocol of the two blocks. -/
structure Handshake (tids : Tids) (m : MutexLock.State) (o : OwnerPc) (pc : ThreadPc) : Prop where
  inv : MutexLock.Inv m
  owner : m.pc tids.owner = o.pc
  thread : m.pc tids.looper = pc.pc
  others : ∀ v, v ≠ tids.owner → v ≠ tids.looper → m.pc v = .outside
  /-- The owner goes to wait only while `m_ploop` is `NULL`. -/
  sleeping : o = .sleeping → pc.published = false
  tested : o.tested = true → pc.published = true
  /-- Only the owner waits, and not when it has been notified. -/
  blocked : m.blocked = [] ∨ m.blocked = [(tids.owner, 0)] ∧ o = .waiting ∧
    (pc.published = true → pc = .notifying)
  free : m.mutex = none → o ≠ .waiting → m.holder = 0

/-- What holds in every run. -/
structure Inv (tids : Tids) (s : State T F) : Prop where
  placed : Placed s.base s.owner s.thread
  handshake : Handshake tids s.mutex s.owner s.thread

omit [DecidableEq T] in
theorem published_iff {b : EventLoopThread.State T F} {pc : ThreadPc} (hb : Paired b)
    (hat : ThreadAt b pc) : b.ploop = true ↔ pc.published = true := by
  rw [hb.published]
  cases pc <;> simp only [ThreadAt, ThreadPc.published] at * <;> grind

/-- What the steps outside of the blocks leave alone. -/
theorem outer_frame (owner : T) {b : EventLoopThread.State T F}
    {a : EventLoopThread.Act T F} (ha : Outer a)
    (hlooper : byLooper a = false) :
    (EventLoopThread.effect owner b a).thread = b.thread ∧
    (EventLoopThread.effect owner b a).loop.pc = b.loop.pc ∧
    (EventLoopThread.effect owner b a).loop.call = b.loop.call := by
  cases a with
  | startLoop _ | startLoopReturns => exact ha.elim
  | construct | destroyLoop => cases hlooper
  | loop a =>
    cases a with
    | push _ _ | wakeup _ | storeQuit _ | quitWakeup _ => exact ⟨rfl, rfl, rfl⟩
    | _ => cases hlooper
  | lateUse _ | destroy | joined => exact ⟨rfl, rfl, rfl⟩
  | quitLoop =>
    simp only [EventLoopThread.effect]
    split_ifs <;> exact ⟨rfl, rfl, rfl⟩
  | quitWakeup =>
    refine ⟨rfl, ?_, ?_⟩ <;> simp only [EventLoopThread.effect] <;> split <;> rfl
  | join =>
    simp only [EventLoopThread.effect]
    split_ifs <;> exact ⟨rfl, rfl, rfl⟩

theorem ThreadAt.outer {b : EventLoopThread.State T F} {a : EventLoopThread.Act T F}
    {pc : ThreadPc} (hat : ThreadAt b pc) (ha : Outer a)
    (hfree : byLooper a = true → pc.isFree = true) (hg : EventLoopThread.guard owner b a) :
    ThreadAt (EventLoopThread.effect owner b a) pc := by
  cases hlooper : byLooper a with
  | false =>
    obtain ⟨hthread, hpc, hcall⟩ := outer_frame owner (b := b) ha hlooper
    cases pc <;> simpa only [ThreadAt, hthread, hpc, hcall] using hat
  | true =>
    have hisFree : pc.isFree = true := hfree hlooper
    clear hfree
    obtain ⟨hcrashed, hg⟩ := hg
    cases a with
    | startLoop _ | startLoopReturns => exact ha.elim
    | construct =>
      have hcreated : b.thread = .created := hg
      cases pc with
      | constructing => exact ⟨EventLoopThread.ThreadPc.noConfusion, fun _ => rfl⟩
      | done =>
        rcases hat with heq | ⟨heq, -⟩ <;> cases hcreated.symm.trans heq
      | _ => cases hisFree
    | destroyLoop =>
      obtain ⟨hrunning, hexited⟩ := hg
      cases pc with
      | constructing => cases hexited.symm.trans (hat.2 hrunning)
      | done => exact .inl rfl
      | _ => cases hisFree
    | loop a =>
      obtain ⟨hrunning, hg, -⟩ := hg
      have hpc := EventLoopThread.publish_pc hg
      have hnot : EventLoopThread.publishes a = false := by
        cases a with
        | publish => exact ha.elim
        | _ => rfl
      rw [hnot] at hpc
      cases pc with
      | constructing =>
        refine ⟨hat.1, fun _ => ?_⟩
        by_contra hne
        exact (hpc.mp hne).elim (fun h => h (hat.2 hrunning)) Bool.false_ne_true
      | done =>
        refine hat.imp_right fun ⟨h, hne⟩ => ⟨h, hpc.mpr (.inl hne)⟩
      | _ => cases hisFree
    | _ => cases hlooper

theorem outer_owner {b : EventLoopThread.State T F} {a : EventLoopThread.Act T F} (ha : Outer a)
    (hg : EventLoopThread.guard owner b a) :
    ((EventLoopThread.effect owner b a).owner = .awaiting ↔ b.owner = .awaiting) ∧
      (b.owner = .awaiting → (EventLoopThread.effect owner b a).crashed = none) := by
  obtain ⟨hcrashed, hg⟩ := hg
  cases a with
  | startLoop _ | startLoopReturns => exact ha.elim
  | construct | loop _ | lateUse _ | destroyLoop => exact ⟨.rfl, fun _ => hcrashed⟩
  | destroy =>
    have ho : b.owner = .outside := hg.1
    simp [EventLoopThread.effect, ho]
  | quitLoop =>
    have ho : b.owner = .destroying := hg
    simp only [EventLoopThread.effect]
    split_ifs <;> simp [ho]
  | quitWakeup =>
    have ho : b.owner = .quitting := hg
    simp [EventLoopThread.effect, ho]
  | join =>
    have ho : b.owner = .hasQuit := hg
    simp only [EventLoopThread.effect]
    split_ifs <;> simp [ho]
  | joined =>
    have ho : b.owner = .joining := hg.1
    simp [EventLoopThread.effect, ho]

omit [DecidableEq T] in
theorem Placed.start :
    Placed (EventLoopThread.start : EventLoopThread.State T F) .outside .constructing := by
  refine ⟨.start, ⟨?_, ?_⟩, ?_, fun h => absurd rfl h⟩ <;> simp [EventLoopThread.start]

theorem Placed.outer {b : EventLoopThread.State T F} {o : OwnerPc} {pc : ThreadPc}
    (hb : Placed b o pc) {a : EventLoopThread.Act T F} (ha : Outer a)
    (hfree : byLooper a = true → pc.isFree = true) (hg : EventLoopThread.guard owner b a) :
    Placed (EventLoopThread.effect owner b a) o pc := by
  obtain ⟨howner, hcrashed⟩ := outer_owner ha hg
  exact ⟨hb.paired.step hg, hb.thread.outer ha hfree hg, hb.owner.trans howner.symm,
    fun h => hcrashed (hb.owner.mp h)⟩

end

section

variable {tids : Tids} {m m' : MutexLock.State} {o o' : OwnerPc} {pc pc' : ThreadPc}

theorem Handshake.start : Handshake tids MutexLock.start .outside .constructing where
  inv := .start
  owner := rfl
  thread := rfl
  others := fun _ _ _ => rfl
  sleeping := fun _ => rfl
  tested := fun h => Bool.noConfusion h
  blocked := .inl rfl
  free := fun _ _ => rfl

/-- Nobody is blocked while the owner does not wait, nor after the notification. -/
theorem Handshake.unblocked (h : Handshake tids m o pc)
    (hnot : o ≠ .waiting ∨ pc.published = true ∧ pc ≠ .notifying) : m.blocked = [] := by
  refine h.blocked.resolve_right fun ⟨_, hwaiting, hnotifying⟩ => ?_
  rcases hnot with hnot | ⟨hpublished, hnot⟩
  · exact hnot hwaiting
  · exact hnot (hnotifying hpublished)

theorem Handshake.ownerHolds (h : Handshake tids m o pc) (howns : o.pc.owns) : m.mutex ≠ none := by
  rw [h.inv.mutex_eq (u := tids.owner) (by rwa [h.owner])]
  exact Option.some_ne_none _

theorem Handshake.threadHolds (h : Handshake tids m o pc) (howns : pc.pc.owns) :
    m.mutex ≠ none := by
  rw [h.inv.mutex_eq (u := tids.looper) (by rwa [h.thread])]
  exact Option.some_ne_none _

/-- The two threads exclude each other. -/
theorem Handshake.exclusive (h : Handshake tids m o pc) (ho : o.pc.owns) : ¬pc.pc.owns := by
  intro hpc
  exact tids.ne (h.inv.alone (by rwa [h.thread]) (by rwa [h.owner]))

/-- The owner goes on with the mutex. -/
theorem Handshake.ownerGoes (h : Handshake tids m o pc) (hinv : MutexLock.Inv m')
    (hpc : m'.pc = Function.update m.pc tids.owner o'.pc)
    (hsleeping : o' = .sleeping → pc.published = false)
    (htested : o'.tested = true → pc.published = true)
    (hblocked : m'.blocked = [] ∨ m'.blocked = [(tids.owner, 0)] ∧ o' = .waiting ∧
      (pc.published = true → pc = .notifying))
    (hfree : m'.mutex = none → o' ≠ .waiting → m'.holder = 0) : Handshake tids m' o' pc := by
  refine ⟨hinv, ?_, ?_, fun v ho hl => ?_, hsleeping, htested, hblocked, hfree⟩
  · rw [hpc, Function.update_self]
  · rw [hpc, Function.update_of_ne tids.ne.symm, h.thread]
  · rw [hpc, Function.update_of_ne ho, h.others v ho hl]

/-- The new thread goes on with the mutex. -/
theorem Handshake.threadGoes (h : Handshake tids m o pc) (hinv : MutexLock.Inv m')
    (hpc : m'.pc = Function.update m.pc tids.looper pc'.pc)
    (hsleeping : o = .sleeping → pc'.published = false)
    (htested : pc.published = true → pc'.published = true)
    (hblocked : m'.blocked = [] ∨ m'.blocked = [(tids.owner, 0)] ∧ o = .waiting ∧
      (pc'.published = true → pc' = .notifying))
    (hfree : m'.mutex = none → o ≠ .waiting → m'.holder = 0) : Handshake tids m' o pc' := by
  refine ⟨hinv, ?_, ?_, fun v ho hl => ?_, hsleeping, fun ht => htested (h.tested ht), hblocked,
    hfree⟩
  · rw [hpc, Function.update_of_ne tids.ne, h.owner]
  · rw [hpc, Function.update_self]
  · rw [hpc, Function.update_of_ne hl, h.others v ho hl]

end

/-! ## 3. The steps -/

section

variable [DecidableEq T] {tids : Tids} {owner : T} {s t : State T F} {a : MutexLock.Act}

omit [DecidableEq T] in
theorem Placed.ownerGoes {b : EventLoopThread.State T F} {o o' : OwnerPc} {pc : ThreadPc}
    (hb : Placed b o pc) (ho : o ≠ .outside) (ho' : o' ≠ .outside) : Placed b o' pc :=
  ⟨hb.paired, hb.thread, iff_of_true ho' (hb.owner.mp ho), fun _ => hb.crashed ho⟩

omit [DecidableEq T] in
/-- What `startLoop` is about to return is not `NULL`. -/
theorem Inv.returning (owner : T) (hs : Inv tids s) (ho : s.owner = .returning) :
    EventLoopThread.guard owner s.base .startLoopReturns := by
  have hne : s.owner ≠ .outside := by
    rw [ho]
    exact OwnerPc.noConfusion
  refine ⟨hs.placed.crashed hne, hs.placed.owner.mp hne, ?_⟩
  refine (published_iff hs.placed.paired hs.placed.thread).mpr (hs.handshake.tested ?_)
  rw [ho]
  rfl

theorem Placed.returns {b : EventLoopThread.State T F} {o : OwnerPc} {pc : ThreadPc}
    (hb : Placed b o pc) (hg : EventLoopThread.guard owner b .startLoopReturns) :
    Placed { b with owner := .outside } .outside pc := by
  refine ⟨hb.paired.step hg, ?_, ?_, fun h => absurd rfl h⟩
  · cases pc <;> exact hb.thread
  · simp

omit [DecidableEq T] in
theorem Placed.threadGoes {b : EventLoopThread.State T F} {o : OwnerPc} {pc pc' : ThreadPc}
    (hb : Placed b o pc) (hat : ThreadAt b pc') : Placed b o pc' :=
  ⟨hb.paired, hat, hb.owner, hb.crashed⟩

omit [DecidableEq T] in
theorem Inv.owns {o : OwnerPc} (hs : Inv tids s) (h : s.owns a o = some t)
    (hplaced : Placed s.base o s.thread)
    (hgoes : MutexLock.guard s.mutex a → MutexLock.Inv (MutexLock.effect s.mutex a) →
      Handshake tids (MutexLock.effect s.mutex a) o s.thread) : Inv tids t := by
  obtain ⟨m, hstep, heq⟩ := Option.bind_eq_some_iff.mp h
  cases heq
  have hinv := hs.handshake.inv.step hstep
  obtain ⟨hg, rfl⟩ := Trans.Machine.guarded_step.mp hstep
  exact ⟨hplaced, hgoes hg hinv⟩

omit [DecidableEq T] in
theorem Inv.threads {pc : ThreadPc} (hs : Inv tids s) (h : s.threads a pc = some t)
    (hat : ThreadAt s.base pc)
    (hgoes : MutexLock.guard s.mutex a → MutexLock.Inv (MutexLock.effect s.mutex a) →
      Handshake tids (MutexLock.effect s.mutex a) s.owner pc) : Inv tids t := by
  obtain ⟨m, hstep, heq⟩ := Option.bind_eq_some_iff.mp h
  cases heq
  have hinv := hs.handshake.inv.step hstep
  obtain ⟨hg, rfl⟩ := Trans.Machine.guarded_step.mp hstep
  exact ⟨hs.placed.threadGoes hat, hgoes hg hinv⟩

theorem some_ne {u : MutexLock.Tid} {p : Prop} (h : some u = none) : p :=
  absurd h (Option.some_ne_none u)

/-- The owner in its block. -/
theorem Inv.goOwner (owner : T) (hs : Inv tids s) (h : s.goOwner tids = some t) : Inv tids t := by
  have hshake := hs.handshake
  have hne : s.owner ≠ .outside := by
    intro ho
    rw [State.goOwner, ho] at h
    cases h
  have hplaced : ∀ o, o ≠ .outside → Placed s.base o s.thread :=
    fun o => hs.placed.ownerGoes hne
  unfold State.goOwner at h
  cases ho : s.owner with
  | outside => exact absurd ho hne
  | locking =>
    rw [ho] at h hshake
    have hblocked := hshake.unblocked (.inl OwnerPc.noConfusion)
    exact hs.owns h (hplaced _ OwnerPc.noConfusion) fun _ hinv => hshake.ownerGoes hinv rfl
      OwnerPc.noConfusion Bool.noConfusion (.inl hblocked) fun h => some_ne h
  | locked =>
    rw [ho] at h hshake
    have hblocked := hshake.unblocked (.inl OwnerPc.noConfusion)
    exact hs.owns h (hplaced _ OwnerPc.noConfusion) fun _ hinv => hshake.ownerGoes hinv rfl
      OwnerPc.noConfusion Bool.noConfusion (.inl hblocked) fun h => absurd h (hshake.ownerHolds rfl)
  | testing =>
    rw [ho] at h hshake
    cases h
    have hploop := published_iff hs.placed.paired hs.placed.thread
    have hown : s.mutex.pc = Function.update s.mutex.pc tids.owner .holding :=
      (Function.update_eq_self_iff.mpr hshake.owner.symm).symm
    have hblocked := hshake.unblocked (.inl OwnerPc.noConfusion)
    have hfree : s.mutex.mutex ≠ none := hshake.ownerHolds rfl
    cases hnull : s.base.ploop with
    | true =>
      exact ⟨hplaced _ OwnerPc.noConfusion, hshake.ownerGoes hshake.inv hown
        OwnerPc.noConfusion (fun _ => hploop.mp hnull) (.inl hblocked) fun h => absurd h hfree⟩
    | false =>
      refine ⟨hplaced _ OwnerPc.noConfusion, hshake.ownerGoes hshake.inv hown
        (fun _ => ?_) Bool.noConfusion (.inl hblocked) fun h => absurd h hfree⟩
      rw [← Bool.not_eq_true, ← hploop, hnull]
      exact Bool.false_ne_true
  | sleeping =>
    rw [ho] at h hshake
    refine hs.owns h (hplaced _ OwnerPc.noConfusion) fun _ hinv => hshake.ownerGoes hinv rfl
      OwnerPc.noConfusion Bool.noConfusion (.inr ⟨?_, rfl, fun h => ?_⟩) fun _ h => absurd rfl h
    · show s.mutex.blocked ++ _ = _
      rw [hshake.unblocked (.inl OwnerPc.noConfusion), List.nil_append]
    · rw [hshake.sleeping rfl] at h
      cases h
  | waiting =>
    rw [ho] at h hshake
    refine hs.owns h (hplaced _ OwnerPc.noConfusion) fun hg hinv => hshake.ownerGoes hinv rfl
      OwnerPc.noConfusion Bool.noConfusion (.inl ?_) fun h => some_ne h
    -- it goes on only when it has been woken
    refine hshake.blocked.resolve_right fun ⟨heq, _⟩ => hg.2.1 ?_
    rw [heq]
    exact List.mem_singleton_self _
  | leaving =>
    rw [ho] at h hshake
    have hblocked := hshake.unblocked (.inl OwnerPc.noConfusion)
    exact hs.owns h (hplaced _ OwnerPc.noConfusion) fun _ hinv => hshake.ownerGoes hinv rfl
      OwnerPc.noConfusion (fun _ => hshake.tested rfl) (.inl hblocked) fun _ _ => rfl
  | unlocking =>
    rw [ho] at h hshake
    have hblocked := hshake.unblocked (.inl OwnerPc.noConfusion)
    exact hs.owns h (hplaced _ OwnerPc.noConfusion) fun hg hinv => hshake.ownerGoes hinv rfl
      OwnerPc.noConfusion (fun _ => hshake.tested rfl) (.inl hblocked)
      fun _ _ => hshake.inv.unlocking _ hg
  | returning =>
    rw [ho] at h hshake
    cases h
    have hblocked := hshake.unblocked (.inl OwnerPc.noConfusion)
    exact ⟨hs.placed.returns (hs.returning owner ho), { hshake with
      sleeping := OwnerPc.noConfusion
      tested := Bool.noConfusion
      blocked := .inl hblocked
      free := fun h _ => hshake.free h OwnerPc.noConfusion }⟩

omit [DecidableEq T] in
/-- The new thread can do so. -/
theorem publish_guard (owner : T) {b : EventLoopThread.State T F} (hat : ThreadAt b .publishing)
    (hcrashed : b.crashed = none) : EventLoopThread.guard owner b (.loop .publish) :=
  ⟨hcrashed, hat.1, hat.2, fun h => absurd h.symm (Option.some_ne_none _)⟩

theorem Inv.publish (hs : Inv tids s) (hpc : s.thread = .publishing)
    (hcrashed : s.base.crashed = none) :
    Inv tids { s with
      base := EventLoopThread.effect owner s.base (.loop .publish)
      thread := .notifying } := by
  obtain ⟨hplaced, hshake⟩ := hs
  rw [hpc] at hplaced hshake
  have hg := publish_guard owner hplaced.thread hcrashed
  have hat : ThreadAt (EventLoopThread.effect owner s.base (.loop .publish)) .notifying :=
    ⟨hplaced.thread.1, EventLoop.LoopPc.noConfusion⟩
  refine ⟨⟨hplaced.paired.step hg, hat, hplaced.owner, hplaced.crashed⟩, ?_⟩
  refine hshake.threadGoes hshake.inv ?_ (fun ho => ?_) (fun _ => rfl) ?_ hshake.free
  · exact (Function.update_eq_self_iff.mpr hshake.thread.symm).symm
  · -- the owner would have the mutex
    rw [ho] at hshake
    exact absurd rfl (hshake.exclusive rfl)
  · exact hshake.blocked.imp_right fun ⟨heq, hwaiting, _⟩ => ⟨heq, hwaiting, fun _ => rfl⟩

/-- The new thread in its block. -/
theorem Inv.goThread (hs : Inv tids s) (hcrashed : s.base.crashed = none)
    (h : s.goThread tids owner = some t) : Inv tids t := by
  have hshake := hs.handshake
  have hat := hs.placed.thread
  unfold State.goThread at h
  cases hpc : s.thread with
  | notifying | done =>
    rw [hpc] at h
    cases h
  | constructing =>
    rw [hpc] at h hshake
    dsimp only at h
    split at h
    · next hcalled =>
      refine hs.threads h hcalled fun _ hinv => hshake.threadGoes hinv ?_ (fun _ => rfl)
        Bool.noConfusion ?_ hshake.free
      · show Function.update _ _ (if _ then _ else _) = _
        rw [if_neg]
        · rfl
        · rw [hshake.thread]
          exact MutexLock.Pc.noConfusion
      · exact hshake.blocked.imp_right fun ⟨heq, ho, _⟩ => ⟨heq, ho, Bool.noConfusion⟩
    · cases h
  | locking =>
    rw [hpc] at h hshake hat
    refine hs.threads h hat fun _ hinv => hshake.threadGoes hinv rfl (fun _ => rfl)
      Bool.noConfusion ?_ fun h => some_ne h
    exact hshake.blocked.imp_right fun ⟨heq, ho, _⟩ => ⟨heq, ho, Bool.noConfusion⟩
  | locked =>
    rw [hpc] at h hshake hat
    refine hs.threads h hat fun _ hinv => hshake.threadGoes hinv rfl (fun _ => rfl)
      Bool.noConfusion ?_ fun h => absurd h (hshake.threadHolds rfl)
    exact hshake.blocked.imp_right fun ⟨heq, ho, _⟩ => ⟨heq, ho, Bool.noConfusion⟩
  | publishing =>
    rw [hpc] at h
    cases h
    exact hs.publish hpc hcrashed
  | leaving =>
    rw [hpc] at h hshake hat
    have hblocked := hshake.unblocked (.inr ⟨rfl, ThreadPc.noConfusion⟩)
    exact hs.threads h hat fun _ hinv => hshake.threadGoes hinv rfl hshake.sleeping
      (fun _ => rfl) (.inl hblocked) fun _ _ => rfl
  | unlocking =>
    rw [hpc] at h hshake hat
    have hblocked := hshake.unblocked (.inr ⟨rfl, ThreadPc.noConfusion⟩)
    exact hs.threads h (.inr hat) fun hg hinv => hshake.threadGoes hinv rfl hshake.sleeping
      (fun _ => rfl) (.inl hblocked) fun _ _ => hshake.inv.unlocking _ hg

omit [DecidableEq T] in
/-- `m_cond.notify()`: the owner, if it is blocked, is woken up. -/
theorem Inv.notify (hs : Inv tids s) (hpc : s.thread = .notifying) {woken : Option MutexLock.Tid}
    (h : s.threads (.notify tids.looper 0 woken) .leaving = some t) : Inv tids t := by
  have hshake := hs.handshake
  have hat := hs.placed.thread
  rw [hpc] at hshake hat
  refine hs.threads h hat fun hg hinv => ?_
  have hpcs : s.mutex.pc = Function.update s.mutex.pc tids.looper .holding :=
    (Function.update_eq_self_iff.mpr hshake.thread.symm).symm
  cases woken with
  | none =>
    refine hshake.threadGoes hinv hpcs hshake.sleeping (fun _ => rfl) (.inl ?_) hshake.free
    refine hshake.blocked.resolve_right fun ⟨heq, _⟩ => hg.2 (tids.owner, 0) ?_ rfl
    rw [heq]
    exact List.mem_singleton_self _
  | some u =>
    refine hshake.threadGoes hinv hpcs hshake.sleeping (fun _ => rfl) (.inl ?_) hshake.free
    have hmem : (u, 0) ∈ s.mutex.blocked := hg.2
    show s.mutex.blocked.erase (u, 0) = []
    rcases hshake.blocked with heq | ⟨heq, -⟩
    · rw [heq]
      rfl
    · rw [heq] at hmem ⊢
      rw [List.mem_singleton.mp hmem, List.erase_cons_head]

omit [DecidableEq T] in
theorem Inv.wake (hs : Inv tids s) (h : s.owns (.wake tids.owner) s.owner = some t) :
    Inv tids t := by
  have hshake := hs.handshake
  refine hs.owns h hs.placed fun hg hinv => ?_
  refine hshake.ownerGoes hinv ?_ hshake.sleeping hshake.tested (.inl ?_) hshake.free
  · exact (Function.update_eq_self_iff.mpr hshake.owner.symm).symm
  · show s.mutex.blocked.filter _ = []
    rcases hshake.blocked with heq | ⟨heq, -⟩ <;> rw [heq]
    · rfl
    · simp

theorem Placed.startLoop {b : EventLoopThread.State T F} {o : OwnerPc} {pc : ThreadPc}
    (hb : Placed b o pc) {created : Bool}
    (hg : EventLoopThread.guard owner b (.startLoop created)) :
    o = .outside ∧
    ((EventLoopThread.effect owner b (.startLoop created)).crashed = none →
      Placed (EventLoopThread.effect owner b (.startLoop created)) .locking pc) ∧
    ((EventLoopThread.effect owner b (.startLoop created)).crashed ≠ none →
      Placed (EventLoopThread.effect owner b (.startLoop created)) o pc) := by
  have hout : b.owner = .outside := hg.2
  have ho : o = .outside := by
    by_contra hne
    cases hout.symm.trans (hb.owner.mp hne)
  have hstep := hb.paired.step hg
  refine ⟨ho, fun hok => ?_, fun hcrash => ?_⟩
  · cases hstarted : b.started with
    | true => simp [EventLoopThread.effect, hstarted] at hok
    | false =>
      have hthread : b.thread = .notStarted := by
        by_contra hne
        cases hstarted.symm.trans (hb.paired.started hne)
      have hpc : pc = .constructing := by
        have hat := hb.thread
        cases pc <;> simp [ThreadAt, hthread] at hat ⊢
      subst hpc
      refine ⟨hstep, ?_, ?_, fun _ => hok⟩
      · cases created <;> simp [EventLoopThread.effect, hstarted, ThreadAt]
      · simp [EventLoopThread.effect, hstarted]
  · cases hstarted : b.started with
    | true =>
      refine ⟨hstep, ?_, ?_, fun h => absurd ho h⟩
      · have hat := hb.thread
        cases pc <;> simpa [EventLoopThread.effect, hstarted, ThreadAt] using hat
      · simpa [EventLoopThread.effect, hstarted] using hb.owner
    | false =>
      have hcrashed : b.crashed = none := hg.1
      simp [EventLoopThread.effect, hstarted, hcrashed] at hcrash

theorem Inv.startLoop (hs : Inv tids s) {created : Bool}
    (h : (machine tids owner F).step s (.startLoop created) = some t) : Inv tids t := by
  simp only [machine, step] at h
  split at h
  · cases h
  obtain ⟨b, hstep, h⟩ := Option.bind_eq_some_iff.mp h
  obtain ⟨hg, rfl⟩ := Trans.Machine.guarded_step.mp hstep
  obtain ⟨ho, hstarts, hcrashes⟩ := hs.placed.startLoop hg
  have hshake := hs.handshake
  split at h
  · next hok =>
    obtain ⟨m, hstep, heq⟩ := Option.bind_eq_some_iff.mp h
    cases heq
    have hinv := hs.handshake.inv.step hstep
    obtain ⟨-, rfl⟩ := Trans.Machine.guarded_step.mp hstep
    refine ⟨hstarts hok, ?_⟩
    rw [ho] at hshake
    refine hshake.ownerGoes hinv ?_ OwnerPc.noConfusion Bool.noConfusion
      (.inl (hshake.unblocked (.inl OwnerPc.noConfusion))) fun h _ => hshake.free h ?_
    · show Function.update _ _ (if _ then _ else _) = _
      rw [if_neg]
      · rfl
      · rw [hshake.owner]
        exact MutexLock.Pc.noConfusion
    · exact OwnerPc.noConfusion
  · next hcrash =>
    cases h
    exact ⟨hcrashes hcrash, hs.handshake⟩

theorem Inv.step (hs : Inv tids s) {a : Act T F} (h : (machine tids owner F).step s a = some t) :
    Inv tids t := by
  cases a with
  | startLoop created => exact hs.startLoop h
  | base a =>
    simp only [machine, StartLoop.step] at h
    split at h
    · cases h
    split at h
    · next hout =>
      obtain ⟨b, hstep, heq⟩ := Option.bind_eq_some_iff.mp h
      cases heq
      obtain ⟨hg, rfl⟩ := Trans.Machine.guarded_step.mp hstep
      exact ⟨hs.placed.outer hout.1 hout.2 hg, hs.handshake⟩
    · cases h
  | owner =>
    simp only [machine, StartLoop.step] at h
    split at h
    · cases h
    · exact hs.goOwner owner h
  | thread =>
    simp only [machine, StartLoop.step] at h
    split at h
    · cases h
    · next hcrashed => exact hs.goThread (Classical.not_not.mp hcrashed) h
  | notify woken =>
    simp only [machine, StartLoop.step] at h
    split at h
    · cases h
    split at h
    · next hpc => exact hs.notify hpc h
    · cases h
  | wake =>
    simp only [machine, StartLoop.step] at h
    split at h
    · cases h
    · exact hs.wake h

/-! ## 4. Safety -/

omit [DecidableEq T] in
theorem owns_frame {pc : OwnerPc} (h : s.owns a pc = some t) :
    t.base = s.base ∧ t.thread = s.thread ∧ t.owner = pc := by
  obtain ⟨m, -, heq⟩ := Option.bind_eq_some_iff.mp h
  cases heq
  exact ⟨rfl, rfl, rfl⟩

omit [DecidableEq T] in
theorem threads_frame {pc : ThreadPc} (h : s.threads a pc = some t) :
    t.base = s.base ∧ t.owner = s.owner ∧ t.thread = pc := by
  obtain ⟨m, -, heq⟩ := Option.bind_eq_some_iff.mp h
  cases heq
  exact ⟨rfl, rfl, rfl⟩

/-- The steps of the blocks, without a mutex. -/
theorem block_base (hs : Inv tids s) {a : Act T F} (h : (machine tids owner F).step s a = some t)
    (ha : a = .owner ∨ a = .thread ∨ (∃ woken, a = .notify woken) ∨ a = .wake) :
    t.base = s.base ∨ ∃ a, (EventLoopThread.machine F owner).step s.base a = some t.base := by
  simp only [machine, StartLoop.step] at h
  split at h
  · cases h
  next hcrashed =>
  rcases ha with rfl | rfl | ⟨woken, rfl⟩ | rfl
  · dsimp only [State.goOwner] at h
    split at h
    · cases h
    · exact .inl (owns_frame h).1
    · exact .inl (owns_frame h).1
    · cases h
      exact .inl rfl
    · exact .inl (owns_frame h).1
    · exact .inl (owns_frame h).1
    · exact .inl (owns_frame h).1
    · exact .inl (owns_frame h).1
    · next ho =>
      cases h
      exact .inr ⟨.startLoopReturns, Trans.Machine.guarded_step.mpr ⟨hs.returning owner ho, rfl⟩⟩
  · dsimp only [State.goThread] at h
    split at h
    · split at h
      · exact .inl (threads_frame h).1
      · cases h
    · exact .inl (threads_frame h).1
    · exact .inl (threads_frame h).1
    · next hpc =>
      cases h
      have hat := hs.placed.thread
      rw [hpc] at hat
      have hg := publish_guard owner hat (Classical.not_not.mp hcrashed)
      exact .inr ⟨.loop .publish, Trans.Machine.guarded_step.mpr ⟨hg, rfl⟩⟩
    · exact .inl (threads_frame h).1
    · exact .inl (threads_frame h).1
    · cases h
    · cases h
  · dsimp only at h
    split at h
    · exact .inl (threads_frame h).1
    · cases h
  · exact .inl (owns_frame h).1

/-- The handshake refines the `EventLoopThread` in which `startLoop` returns once
`m_ploop` is not `NULL`. -/
theorem refines_thread (tids : Tids) (owner : T) :
    Trans.Refines (machine tids owner F) (EventLoopThread.machine F owner) (Inv tids)
      State.base where
  init := by
    rintro s rfl
    exact ⟨⟨.start, .start⟩, rfl⟩
  step := by
    intro s a t hs h
    refine ⟨hs.step h, ?_⟩
    have hblock : ∀ {a : Act T F}, (machine tids owner F).step s a = some t →
        (a = .owner ∨ a = .thread ∨ (∃ woken, a = .notify woken) ∨ a = .wake) →
        ∃ as, (EventLoopThread.machine F owner).run s.base as = some t.base := by
      intro a h ha
      rcases block_base hs h ha with heq | ⟨b, hstep⟩
      · exact ⟨[], by rw [heq]; rfl⟩
      · exact ⟨[b], by rwa [Trans.Machine.run_singleton]⟩
    cases a with
    | startLoop created =>
      simp only [machine, StartLoop.step] at h
      split at h
      · cases h
      obtain ⟨b, hstep, h⟩ := Option.bind_eq_some_iff.mp h
      refine ⟨[.startLoop created], ?_⟩
      rw [Trans.Machine.run_singleton, hstep]
      split at h
      · rw [(owns_frame h).1]
      · cases h
        rfl
    | base a =>
      simp only [machine, StartLoop.step] at h
      split at h
      · cases h
      split at h
      · obtain ⟨b, hstep, heq⟩ := Option.bind_eq_some_iff.mp h
        cases heq
        exact ⟨[a], by rwa [Trans.Machine.run_singleton]⟩
      · cases h
    | owner => exact hblock h (.inl rfl)
    | thread => exact hblock h (.inr (.inl rfl))
    | notify woken => exact hblock h (.inr (.inr (.inl ⟨woken, rfl⟩)))
    | wake => exact hblock h (.inr (.inr (.inr rfl)))

/-- What a run of the handshake does to the thread and its loop, a run in which
`startLoop` waits for `m_ploop` in a single step does to them too. -/
theorem runs_as_thread {as : List (Act T F)}
    (hrun : (machine tids owner F).run start as = some s) :
    ∃ bs, (EventLoopThread.machine F owner).run EventLoopThread.start bs = some s.base :=
  (refines_thread tids owner).run ⟨.start, .start⟩ hrun

/-- The destructor ends after the thread. -/
theorem joined_finished {b : EventLoopThread.State T F}
    (hb : (EventLoopThread.machine F owner).Reachable b) (hdestroyed : b.owner = .destroyed) :
    b.thread = .finished := by
  refine Trans.Machine.reachable_invariant (I := fun b => b.owner = .destroyed →
    b.thread = .finished) ?_ (fun b a b' hb hstep => ?_) hb hdestroyed
  · rintro b rfl h
    cases h
  obtain ⟨⟨-, hg⟩, rfl⟩ := Trans.Machine.guarded_step.mp hstep
  cases a <;> simp only [EventLoopThread.effect] at hg ⊢ <;> grind

/-- With the destructor through, nobody has the mutex. -/
theorem Handshake.over {m : MutexLock.State} (h : Handshake tids m .outside .done) :
    m.mutex = none ∧ m.holder = 0 := by
  have hfree : m.mutex = none := by
    refine Option.eq_none_iff_forall_ne_some.mpr fun v hv => ?_
    have howns := (h.inv.owned v).mp hv
    by_cases hvo : v = tids.owner
    · rw [hvo, h.owner] at howns
      cases howns
    by_cases hvl : v = tids.looper
    · rw [hvl, h.thread] at howns
      cases howns
    · rw [h.others v hvo hvl] at howns
      cases howns
  exact ⟨hfree, h.free hfree OwnerPc.noConfusion⟩

/-- In every reachable state: `startLoop` is about to return only a pointer to a loop;
the owner is blocked in its wait only as long as `m_ploop` is `NULL` or the
notification is still to come; and when the destructor is through, `~MutexLock`
finds the mutex free and its `holder_` 0. -/
theorem handshake_safe (hs : (machine tids owner F).Reachable s) :
    (s.owner = .returning → s.base.ploop = true) ∧
    (s.mutex.blocked ≠ [] → s.base.ploop = false ∨ s.thread = .notifying) ∧
    (s.base.owner = .destroyed → s.mutex.mutex = none ∧ s.mutex.holder = 0) := by
  have hinv : Inv tids s := (refines_thread tids owner).invariant hs
  have hploop := published_iff hinv.placed.paired hinv.placed.thread
  refine ⟨fun ho => (hinv.returning owner ho).2.2, fun hblocked => ?_, fun hdestroyed => ?_⟩
  · obtain ⟨-, -, hnotifying⟩ := hinv.handshake.blocked.resolve_left hblocked
    cases hnull : s.base.ploop with
    | false => exact .inl rfl
    | true => exact .inr (hnotifying (hploop.mp hnull))
  · have hout : s.owner = .outside := by
      by_contra hne
      cases hdestroyed.symm.trans (hinv.placed.owner.mp hne)
    have hfinished := joined_finished ((refines_thread tids owner).reachable hs) hdestroyed
    have hdone : s.thread = .done := by
      have hat := hinv.placed.thread
      cases hpc : s.thread <;> simp [hpc, ThreadAt, hfinished] at hat ⊢
    have hover := hinv.handshake
    rw [hout, hdone] at hover
    exact hover.over

def tidsOneTwo : Tids := ⟨.succ 0, .succ 1, MutexLock.Tid.succ_injective.ne Nat.zero_ne_one⟩

/-- The owner is woken up with no notification and waits again, until the new thread has
written `m_ploop`. -/
def spurious : List (Act Unit Unit) :=
  [.startLoop true, .owner, .owner, .owner, .owner, .wake, .owner, .owner, .owner,
    .base .construct, .thread, .thread, .thread, .thread]

theorem spurious_runs : ∃ s, (machine tidsOneTwo () Unit).run start spurious = some s ∧
    s.base.owner = .awaiting ∧ s.base.thread = .running ∧ s.owner = .waiting ∧
    s.mutex.blocked ≠ [] ∧ s.base.ploop = true := by
  have hruns : ((machine tidsOneTwo () Unit).run start spurious).map (fun s =>
      (s.base.owner, s.base.thread, s.owner, s.mutex.blocked.isEmpty, s.base.ploop)) =
        some (.awaiting, .running, .waiting, false, true) := by
    decide +kernel
  obtain ⟨s, hrun, heq⟩ := Option.map_eq_some_iff.mp hruns
  simp only [Prod.mk.injEq] at heq
  obtain ⟨ho, hthread, hwaiting, hblocked, hploop⟩ := heq
  exact ⟨s, hrun, ho, hthread, hwaiting, by simpa using hblocked, hploop⟩

theorem spurious_safe : ∃ s, (machine tidsOneTwo () Unit).run start spurious = some s ∧
    s.mutex.blocked ≠ [] ∧ s.base.ploop = true ∧
    (s.owner = .returning → s.base.ploop = true) ∧
    (s.mutex.blocked ≠ [] → s.base.ploop = false ∨ s.thread = .notifying) ∧
    (s.base.owner = .destroyed → s.mutex.mutex = none ∧ s.mutex.holder = 0) := by
  obtain ⟨s, hrun, -, -, -, hblocked, hploop⟩ := spurious_runs
  exact ⟨s, hrun, hblocked, hploop, handshake_safe ⟨_, _, rfl, hrun⟩⟩

theorem spurious_as_thread : ∃ s bs,
    (machine tidsOneTwo () Unit).run start spurious = some s ∧
    (EventLoopThread.machine Unit ()).run EventLoopThread.start bs = some s.base := by
  obtain ⟨s, hrun, -⟩ := spurious_runs
  obtain ⟨bs, hbase⟩ := runs_as_thread hrun
  exact ⟨s, bs, hrun, hbase⟩

end

end StartLoop

end NetFrame
