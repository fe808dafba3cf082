import NetFrame.EventLoopThread
import NetFrame.QuitEnds

/-!
# Whether the destructor of an EventLoopThread returns

`~EventLoopThread` quits the loop and joins its thread. `startLoop` returns as soon as
`m_ploop` is published, and `loop` begins with `m_bquit = false`, so that the quit may
come before this store and be forgotten.

Results:
1. `destructor_returns`: once the loop has a quit to see, or has returned, steps of its
   own thread and of the owner lead out of the destructor, in a number that the functors
   in the loop's vectors bound.
2. `destructor_returns_iff`: a destructor whose quit finds the loop before it has reset
   `m_bquit` waits in `join` for ever, unless somebody else quits the loop, too; every
   other one returns.
-/

namespace NetFrame

namespace EventLoopThread

open Trans

variable {T F : Type}

/-! ## 1. The way out of the destructor -/

/-- A step of the two threads that the destructor waits for. -/
def Act.ends : Act T F → Bool
  | .loop a => a.ofLoop
  | .destroyLoop | .quitWakeup | .join | .joined => true
  | _ => false

/-- Somebody quits the loop. -/
def Act.quits : Act T F → Bool
  | .loop a => a.storesQuit
  | .quitLoop => true
  | _ => false

/-- The steps of the owner to the end of the destructor. -/
def OwnerPc.stepsLeft : OwnerPc → Nat
  | .quitting => 3
  | .hasQuit => 2
  | .joining => 1
  | _ => 0

def State.stepsLeft (s : State T F) : Nat :=
  s.owner.stepsLeft + if s.thread = .finished then 0 else s.loop.stepsLeft + 1

theorem stepsLeft_le (s : State T F) :
    s.stepsLeft ≤ 11 + 2 * (s.loop.tmpFunctors.length + s.loop.pendingFuntors.length) := by
  have howner : s.owner.stepsLeft ≤ 3 := by
    cases s.owner <;> decide
  have hloop := EventLoop.stepsLeft_le s.loop
  unfold State.stepsLeft
  split <;> omega

/-- The loop has a quit to see, or has returned. -/
def Heard (s : State T F) : Prop :=
  s.thread = .finished ∨ s.thread = .running ∧ (s.loop.pc = .exited ∨ EventLoop.Quits s.loop)

section

variable [DecidableEq T] {owner : T} {s t : State T F} {a : Act T F}

/-- The destructor has quit a loop that has heard of it. -/
structure Joins (s : State T F) : Prop where
  crashed : s.crashed = none
  started : s.started = true
  afterQuit : s.owner.afterQuit = true
  heard : Heard s

theorem Joins.quitWakeup (hs : Joins s) (ho : s.owner = .quitting) :
    Joins (effect owner s .quitWakeup) ∧ (effect owner s .quitWakeup).stepsLeft < s.stepsLeft := by
  obtain ⟨hcrashed, hstarted, -, hheard⟩ := hs
  refine ⟨⟨hcrashed, hstarted, rfl, ?_⟩, ?_⟩
  · rcases hheard with hfinished | ⟨hrunning, hexit | ⟨hquit, hentered⟩⟩
    · exact .inl hfinished
    · refine .inr ⟨hrunning, .inl ?_⟩
      simp only [effect, if_pos hrunning, EventLoop.effect, EventLoop.State.wakeup]
      exact hexit
    · refine .inr ⟨hrunning, .inr ?_⟩
      simp only [effect, if_pos hrunning, EventLoop.effect, EventLoop.State.wakeup]
      exact ⟨hquit, hentered⟩
  · have hloop : (effect owner s .quitWakeup).loop.stepsLeft = s.loop.stepsLeft := by
      simp only [effect]
      split <;> rfl
    have hthread : (effect owner s .quitWakeup).thread = s.thread := rfl
    have howner : (effect owner s .quitWakeup).owner = .hasQuit := rfl
    rw [State.stepsLeft, State.stepsLeft, hloop, hthread, howner, ho]
    exact Nat.add_lt_add_right (by decide : 2 < 3) _

theorem Joins.join (hs : Joins s) (ho : s.owner = .hasQuit) :
    Joins (effect owner s .join) ∧ (effect owner s .join).stepsLeft < s.stepsLeft := by
  have heffect : effect owner s .join = { s with owner := .joining } := if_pos hs.started
  rw [heffect]
  refine ⟨⟨hs.crashed, hs.started, rfl, hs.heard⟩, ?_⟩
  rw [State.stepsLeft, State.stepsLeft, ho]
  exact Nat.add_lt_add_right (by decide : 1 < 2) _

/-- The loop's thread goes on, while the destructor is in `join`. -/
theorem Joins.loop (hs : Joins s) (ho : s.owner = .joining) (hrunning : s.thread = .running) :
    ∃ a, Act.ends a = true ∧ guard owner s a ∧ Joins (effect owner s a) ∧
      (effect owner s a).stepsLeft < s.stepsLeft := by
  have hrank : s.stepsLeft = 1 + (s.loop.stepsLeft + 1) := by
    rw [State.stepsLeft, ho, if_neg (by rw [hrunning]; decide)]
    rfl
  by_cases hexit : s.loop.pc = .exited
  · refine ⟨.destroyLoop, rfl, ⟨hs.crashed, hrunning, hexit⟩,
      ⟨hs.crashed, hs.started, hs.afterQuit, .inl rfl⟩, ?_⟩
    rw [hrank, State.stepsLeft]
    show s.owner.stepsLeft + 0 < _
    rw [ho]
    exact Nat.lt_add_of_pos_right (Nat.succ_pos _)
  · have hquits : EventLoop.Quits s.loop := by
      rcases hs.heard with hfinished | ⟨-, hexited | hquits⟩
      · rw [hrunning] at hfinished
        cases hfinished
      · exact absurd hexited hexit
      · exact hquits
    obtain ⟨a, hown, hg, hlt⟩ := hquits.progress hexit
    have hcaller : caller a = none := by
      cases a <;> first | rfl | cases hown
    refine ⟨.loop a, hown, ⟨hs.crashed, hrunning, hg, fun h => ?_⟩,
      ⟨hs.crashed, hs.started, hs.afterQuit, .inr ⟨hrunning, .inr (hquits.step hg)⟩⟩, ?_⟩
    · rw [hcaller] at h
      cases h
    · rw [hrank, State.stepsLeft]
      show s.owner.stepsLeft + (if s.thread = .finished then 0 else _) < _
      rw [ho, if_neg (by rw [hrunning]; decide)]
      exact Nat.add_lt_add_left (Nat.succ_lt_succ hlt) 1

theorem Joins.progress (hs : Joins s) (hnot : s.owner ≠ .destroyed) :
    ∃ a t, Act.ends a = true ∧ (machine F owner).step s a = some t ∧ Joins t ∧
      t.stepsLeft < s.stepsLeft := by
  cases ho : s.owner with
  | quitting =>
    obtain ⟨ht, hlt⟩ : Joins (effect owner s .quitWakeup) ∧ _ := hs.quitWakeup ho
    exact ⟨.quitWakeup, _, rfl, Machine.guarded_step.mpr ⟨⟨hs.crashed, ho⟩, rfl⟩, ht, hlt⟩
  | hasQuit =>
    obtain ⟨ht, hlt⟩ : Joins (effect owner s .join) ∧ _ := hs.join ho
    exact ⟨.join, _, rfl, Machine.guarded_step.mpr ⟨⟨hs.crashed, ho⟩, rfl⟩, ht, hlt⟩
  | joining =>
    by_cases hfinished : s.thread = .finished
    · refine ⟨.joined, _, rfl, Machine.guarded_step.mpr ⟨⟨hs.crashed, ho, hfinished⟩, rfl⟩,
        ⟨hs.crashed, hs.started, rfl, .inl hfinished⟩, ?_⟩
      rw [State.stepsLeft, State.stepsLeft, ho]
      exact Nat.add_lt_add_right (by decide : 0 < 1) _
    · have hrunning : s.thread = .running := (hs.heard.resolve_left hfinished).1
      obtain ⟨a, hends, hg, ht, hlt⟩ : ∃ a, _ ∧ guard owner s a ∧ _ := hs.loop ho hrunning
      exact ⟨a, _, hends, Machine.guarded_step.mpr ⟨hg, rfl⟩, ht, hlt⟩
  | destroyed => exact absurd ho hnot
  | outside | awaiting | destroying =>
    have hafter := hs.afterQuit
    rw [ho] at hafter
    cases hafter

theorem paired_reachable (hs : (machine F owner).Reachable s) : Paired s := by
  refine Machine.reachable_invariant ?_ (fun s a t hs h => ?_) hs
  · rintro s rfl
    exact Paired.start
  · obtain ⟨hg, rfl⟩ := Machine.guarded_step.mp h
    exact hs.step hg

/-- The destructor returns, once its quit has been heard: whatever the other threads have
done before, the owner and the loop's thread need none of them any more. -/
theorem destructor_returns (hs : (machine F owner).Reachable s) (hcrashed : s.crashed = none)
    (hafter : s.owner.afterQuit = true) (hheard : Heard s) :
    ∃ as t, (∀ a ∈ as, Act.ends a = true) ∧
      as.length ≤ 11 + 2 * (s.loop.tmpFunctors.length + s.loop.pendingFuntors.length) ∧
      (machine F owner).run s as = some t ∧ t.owner = .destroyed := by
  have hjoins : Joins s := ⟨hcrashed, (paired_reachable hs).afterQuit hafter, hafter, hheard⟩
  obtain ⟨as, t, hends, hlen, hrun, -, hdestroyed⟩ := Machine.reaches (M := machine F owner)
    (G := fun s => s.owner = .destroyed) State.stepsLeft (fun s hs hnot => hs.progress hnot) hjoins
  exact ⟨as, t, hends, Nat.le_trans hlen (stepsLeft_le s), hrun, hdestroyed⟩

/-! ## 2. A quit that is forgotten -/

/-- The destructor has quit a loop that has no quit to see. -/
structure Deaf (s : State T F) : Prop where
  thread : s.thread = .running
  quit : s.loop.bquit = true → Entering s.loop
  pc : s.loop.pc ≠ .exited
  afterQuit : s.owner.afterQuit = true
  owner : s.owner ≠ .destroyed

/-- It stays so as long as nobody quits the loop again. -/
theorem Deaf.step (hs : Deaf s) (hquits : a.quits = false) (hg : guard owner s a) :
    Deaf (effect owner s a) := by
  obtain ⟨hthread, hquit, hpc, hafter, hdestroyed⟩ := hs
  have howner : ∀ o : OwnerPc, o.afterQuit = false → s.owner ≠ o := by
    rintro o ho rfl
    rw [hafter] at ho
    cases ho
  obtain ⟨-, hg⟩ := hg
  cases a with
  | startLoop created => exact absurd hg (howner .outside rfl)
  | startLoopReturns => exact absurd hg.1 (howner .awaiting rfl)
  | construct =>
    rw [hthread] at hg
    cases hg
  | loop a =>
    obtain ⟨hquit', hpc'⟩ := quiet_step hg.2.1 hquit hpc fun hstores => by
      rw [show a.storesQuit = false from hquits] at hstores
      cases hstores
    exact ⟨hthread, hquit', hpc', hafter, hdestroyed⟩
  | lateUse t =>
    rw [hthread] at hg
    cases hg.1
  | destroyLoop => exact absurd hg.2 hpc
  | destroy => exact absurd hg.1 (howner .outside rfl)
  | quitLoop => exact absurd hg (howner .destroying rfl)
  | quitWakeup =>
    simp only [effect, if_pos hthread, EventLoop.effect, EventLoop.State.wakeup]
    exact ⟨hthread, hquit, hpc, rfl, by rintro ⟨⟩⟩
  | join =>
    simp only [effect]
    split
    · exact ⟨hthread, hquit, hpc, rfl, by rintro ⟨⟩⟩
    · exact ⟨hthread, hquit, hpc, hafter, hdestroyed⟩
  | joined =>
    rw [hthread] at hg
    cases hg.2

/-- `join` waits for ever. -/
theorem Deaf.run {as : List (Act T F)} (hs : Deaf s) (hquits : ∀ a ∈ as, a.quits = false)
    (hrun : (machine F owner).run s as = some t) : Deaf t :=
  Machine.run_invariant (C := fun _ a => a.quits = false)
    (fun _ _ _ hs ha h => by
      obtain ⟨hg, rfl⟩ := Machine.guarded_step.mp h
      exact hs.step ha hg) hs (Machine.along_of_forall (fun a ha _ => hquits a ha) s) hrun

/-- A destructor that finds its loop alive returns, with no other quit, exactly when
`loop` has reset `m_bquit` before. -/
theorem destructor_returns_iff (hs : (machine F owner).Reachable s) (hcrashed : s.crashed = none)
    (ho : s.owner = .destroying) (hthread : s.thread = .running) :
    (∃ as t, (∀ a ∈ as, a.quits = false) ∧
      (machine F owner).run s (.quitLoop :: as) = some t ∧ t.owner = .destroyed) ↔
    s.loop.pc ≠ .entering := by
  have hpaired := paired_reachable hs
  have hploop : s.ploop = true :=
    hpaired.returned (.inr ho) (hpaired.started (by rw [hthread]; decide))
  have hinit : s.loop.pc ≠ .initCallback := by
    rcases hpaired.published.mp hploop with hfinished | ⟨-, hinit⟩
    · rw [hthread] at hfinished
      cases hfinished
    · exact hinit
  have heffect : effect owner s .quitLoop =
      { s with loop := EventLoop.effect s.loop (.storeQuit owner), owner := .quitting } := by
    simp only [effect]
    rw [if_neg (by rw [hploop]; decide), if_neg (not_not.mpr hthread)]
  have hstep : (machine F owner).step s .quitLoop =
      some { s with loop := EventLoop.effect s.loop (.storeQuit owner), owner := .quitting } :=
    Machine.guarded_step.mpr ⟨⟨hcrashed, ho⟩, heffect⟩
  constructor
  · rintro ⟨as, t, hquits, hrun, hdestroyed⟩ hentering
    rw [Machine.run_cons, hstep, Option.bind_some] at hrun
    have hdeaf : Deaf { s with
        loop := EventLoop.effect s.loop (.storeQuit owner), owner := .quitting } := by
      refine ⟨hthread, fun _ => .inr hentering, ?_, rfl, by rintro ⟨⟩⟩
      show s.loop.pc ≠ .exited
      rw [hentering]
      decide
    exact (hdeaf.run hquits hrun).owner hdestroyed
  · intro hentered
    obtain ⟨as, t, hends, -, hrun, hdestroyed⟩ := destructor_returns (hs.step hstep) hcrashed rfl
      (.inr ⟨hthread, .inr ⟨rfl, hinit, hentered⟩⟩)
    refine ⟨as, t, fun a ha => ?_, ?_, hdestroyed⟩
    · have hown := hends a ha
      cases a with
      | loop a => cases a <;> first | rfl | cases hown
      | quitLoop => cases hown
      | _ => rfl
    · rw [Machine.run_cons, hstep, Option.bind_some, hrun]

/-! ## 3. Examples -/

/-- The destructor follows `startLoop` at once. -/
def hastyDestructor : List (Act Unit Nat) :=
  [.startLoop true, .construct, .loop .publish, .startLoopReturns, .destroy]

/-- The destructor of a loop whose thread runs a functor that queues itself. -/
def busyDestructor : List (Act Unit Nat) :=
  [.startLoop true, .construct, .loop .publish, .startLoopReturns, .loop .resetQuit,
    .loop (.push () 7), .loop (.wakeup ()), .loop .testQuit, .loop (.pollReturn true),
    .loop .handleRead, .loop .setCalling, .loop .swap, .loop .runFunctor, .destroy, .quitLoop,
    .loop (.loopPush 7)]

theorem hastyDestructor_hangs : ∃ s, (machine Nat ()).run start hastyDestructor = some s ∧
    ¬∃ as t, (∀ a ∈ as, a.quits = false) ∧
      (machine Nat ()).run s (.quitLoop :: as) = some t ∧ t.owner = .destroyed := by
  have hruns : ∃ s, (machine Nat ()).run start hastyDestructor = some s ∧ s.crashed = none ∧
      s.owner = .destroying ∧ s.thread = .running ∧ s.loop.pc = .entering :=
    ⟨_, rfl, rfl, rfl, rfl, rfl⟩
  obtain ⟨s, hrun, hcrashed, ho, hthread, hpc⟩ := hruns
  exact ⟨s, hrun, fun hreturns =>
    (destructor_returns_iff ⟨_, _, rfl, hrun⟩ hcrashed ho hthread).mp hreturns hpc⟩

theorem busyDestructor_returns : ∃ s as t,
    (machine Nat ()).run start busyDestructor = some s ∧ (∀ a ∈ as, Act.ends a = true) ∧
    as.length ≤ 13 ∧ (machine Nat ()).run s as = some t ∧ t.owner = .destroyed := by
  have hruns : ∃ s, (machine Nat ()).run start busyDestructor = some s ∧ s.crashed = none ∧
      s.owner = .quitting ∧ s.thread = .running ∧ s.loop.pc = .inFunctor ∧
      s.loop.bquit = true ∧ s.loop.tmpFunctors = [] ∧ s.loop.pendingFuntors.length = 1 :=
    ⟨_, rfl, rfl, rfl, rfl, rfl, rfl, rfl, rfl⟩
  obtain ⟨s, hrun, hcrashed, ho, hthread, hpc, hquit, htmp, hpending⟩ := hruns
  obtain ⟨as, t, hends, hlen, hreturns⟩ := destructor_returns ⟨_, _, rfl, hrun⟩ hcrashed
    (by rw [ho]; rfl) (.inr ⟨hthread, .inr ⟨hquit, by rw [hpc]; decide⟩⟩)
  rw [htmp, hpending] at hlen
  exact ⟨s, as, t, hrun, hends, hlen, hreturns⟩

end

end EventLoopThread

end NetFrame
