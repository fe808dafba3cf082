import NetFrame.Lib.Progress
import NetFrame.StartLoop

/-!
# startLoop returns

The handshake of `StartLoop` comes to its end: each step of the two blocks lowers a
rank, a wait that ends with no notification raises it by three, and until
`startLoop` returns one of the two threads can go on.

Results:
1. `handshake_bounded`: in every run the handshake takes a bounded number of steps,
   and three more for each spurious wakeup.
2. `startLoop_returns`: from every reachable state in which the owner is in
   `startLoop` and its thread was created, `startLoop` can return, with `m_ploop` set.
-/

namespace NetFrame

namespace StartLoop

section

variable {T F : Type} [DecidableEq T] {tids : Tids} {owner : T} {s t : State T F}
  {a : MutexLock.Act}

/-! ## 1. The rank -/

/-- The steps that the owner has before it; a wait that ends with no notification is
followed by another one. -/
def OwnerPc.rank (started published blocked : Bool) : OwnerPc → Nat
  | .outside => if started then 0 else 9
  | .locking => 9
  | .locked => 8
  | .testing => if published then 4 else 7
  | .sleeping => 6
  | .waiting => if blocked || published then 5 else 8
  | .leaving => 3
  | .unlocking => 2
  | .returning => 1

def ThreadPc.rank : ThreadPc → Nat
  | .constructing => 7
  | .locking => 6
  | .locked => 5
  | .publishing => 4
  | .notifying => 3
  | .leaving => 2
  | .unlocking => 1
  | .done => 0

def State.rank (s : State T F) : Nat :=
  s.owner.rank s.base.started s.thread.published (!s.mutex.blocked.isEmpty) + s.thread.rank

omit [DecidableEq T] in
theorem owns_rank {o : OwnerPc} (h : s.owns a o = some t)
    (hlt : MutexLock.guard s.mutex a →
      o.rank s.base.started s.thread.published (!(MutexLock.effect s.mutex a).blocked.isEmpty) <
        s.owner.rank s.base.started s.thread.published (!s.mutex.blocked.isEmpty)) :
    t.rank < s.rank := by
  obtain ⟨m, hstep, heq⟩ := Option.bind_eq_some_iff.mp h
  cases heq
  obtain ⟨hg, rfl⟩ := Trans.Machine.guarded_step.mp hstep
  exact Nat.add_lt_add_right (hlt hg) _

omit [DecidableEq T] in
theorem threads_rank {pc : ThreadPc} (h : s.threads a pc = some t) (hrank : pc.rank < s.thread.rank)
    (hle : MutexLock.guard s.mutex a →
      s.owner.rank s.base.started pc.published (!(MutexLock.effect s.mutex a).blocked.isEmpty) ≤
        s.owner.rank s.base.started s.thread.published (!s.mutex.blocked.isEmpty)) :
    t.rank < s.rank := by
  obtain ⟨m, hstep, heq⟩ := Option.bind_eq_some_iff.mp h
  cases heq
  obtain ⟨hg, rfl⟩ := Trans.Machine.guarded_step.mp hstep
  exact Nat.add_lt_add_of_le_of_lt (hle hg) hrank

theorem rank_publish (started blocked : Bool) (o : OwnerPc) :
    o.rank started true blocked ≤ o.rank started false blocked := by
  cases o with
  | testing => simp [OwnerPc.rank]
  | waiting => cases blocked <;> simp [OwnerPc.rank]
  | _ => exact Nat.le_refl _

omit [DecidableEq T] in
/-- Each step of the owner lowers the rank. -/
theorem goOwner_rank (hs : Inv tids s) (h : s.goOwner tids = some t) : t.rank < s.rank := by
  have hploop := published_iff hs.placed.paired hs.placed.thread
  unfold State.goOwner at h
  cases ho : s.owner with
  | outside =>
    rw [ho] at h
    cases h
  | locking | leaving | unlocking =>
    rw [ho] at h
    refine owns_rank h fun _ => ?_
    simp [ho, OwnerPc.rank]
  | locked =>
    rw [ho] at h
    refine owns_rank h fun _ => ?_
    simp only [ho, OwnerPc.rank]
    split <;> decide
  | sleeping =>
    rw [ho] at h
    refine owns_rank h fun _ => ?_
    simp [ho, OwnerPc.rank, MutexLock.effect, MutexLock.State.wait, MutexLock.State.goto]
  | waiting =>
    rw [ho] at h
    refine owns_rank h fun hg => ?_
    have hblocked : s.mutex.blocked = [] := by
      refine hs.handshake.blocked.resolve_right fun ⟨heq, _⟩ => hg.2.1 ?_
      rw [heq]
      exact List.mem_singleton_self _
    cases hpublished : s.thread.published <;> simp [ho, hblocked, OwnerPc.rank]
  | testing =>
    rw [ho] at h
    cases h
    refine Nat.add_lt_add_right ?_ _
    cases hnull : s.base.ploop with
    | true => simp [ho, hploop.mp hnull, OwnerPc.rank]
    | false =>
      have hnot : s.thread.published = false := by
        rw [← Bool.not_eq_true, ← hploop, hnull]
        exact Bool.false_ne_true
      simp [ho, hnot, OwnerPc.rank]
  | returning =>
    rw [ho] at h
    cases h
    have hstarted : s.base.started = true := by
      refine hs.placed.paired.awaiting (hs.placed.owner.mp ?_)
      rw [ho]
      exact OwnerPc.noConfusion
    refine Nat.add_lt_add_right ?_ _
    simp [ho, hstarted, OwnerPc.rank]

/-- So does each step of the new thread. -/
theorem goThread_rank (h : s.goThread tids owner = some t) : t.rank < s.rank := by
  unfold State.goThread at h
  cases hpc : s.thread with
  | notifying | done =>
    rw [hpc] at h
    cases h
  | constructing =>
    rw [hpc] at h
    dsimp only at h
    split at h
    · refine threads_rank h (by rw [hpc]; decide) fun _ => ?_
      rw [hpc]
      exact Nat.le_refl _
    · cases h
  | locking | locked | leaving | unlocking =>
    rw [hpc] at h
    refine threads_rank h (by rw [hpc]; decide) fun _ => ?_
    rw [hpc]
    exact Nat.le_refl _
  | publishing =>
    rw [hpc] at h
    cases h
    refine Nat.add_lt_add_of_le_of_lt ?_ (by rw [hpc]; exact Nat.lt_succ_self _)
    rw [hpc]
    exact rank_publish _ _ _

omit [DecidableEq T] in
theorem notify_rank (hpc : s.thread = .notifying) {woken : Option MutexLock.Tid}
    (h : s.threads (.notify tids.looper 0 woken) .leaving = some t) : t.rank < s.rank := by
  refine threads_rank h (by rw [hpc]; decide) fun _ => ?_
  rw [hpc]
  cases ho : s.owner <;> simp [OwnerPc.rank, ThreadPc.published]

omit [DecidableEq T] in
/-- A spurious wakeup costs three steps. -/
theorem wake_rank (h : s.owns (.wake tids.owner) s.owner = some t) : t.rank ≤ s.rank + 3 := by
  obtain ⟨m, hstep, heq⟩ := Option.bind_eq_some_iff.mp h
  cases heq
  have hcost : ∀ started published blocked blocked', s.owner.rank started published blocked ≤
      s.owner.rank started published blocked' + 3 := by
    cases s.owner <;> decide
  have := hcost s.base.started s.thread.published (!m.blocked.isEmpty) (!s.mutex.blocked.isEmpty)
  simp only [State.rank]
  omega

theorem base_started (owner : T) {b : EventLoopThread.State T F}
    {a : EventLoopThread.Act T F} (ha : Outer a) :
    (EventLoopThread.effect owner b a).started = b.started := by
  cases a with
  | startLoop _ | startLoopReturns => exact ha.elim
  | quitLoop | join =>
    simp only [EventLoopThread.effect]
    split_ifs <;> rfl
  | _ => rfl

/-- A step of the owner or of the new thread in its block. -/
def Act.inBlock : Act T F → Bool
  | .owner | .thread | .notify _ => true
  | .startLoop _ | .base _ | .wake => false

def Act.isWake : Act T F → Bool
  | .wake => true
  | .startLoop _ | .base _ | .owner | .thread | .notify _ => false

/-- What a step may add to the rank. -/
def Act.cost (a : Act T F) : Nat := if a.isWake then 3 else 0

/-- A step of a block lowers the rank, and a spurious wakeup raises it by three. -/
theorem step_rank (hs : Inv tids s) {a : Act T F} (h : (machine tids owner F).step s a = some t) :
    t.rank + (if a.inBlock then 1 else 0) ≤ s.rank + a.cost := by
  simp only [machine, StartLoop.step] at h
  split at h
  · cases h
  cases a with
  | startLoop created =>
    obtain ⟨b, hstep, h⟩ := Option.bind_eq_some_iff.mp h
    obtain ⟨hg, rfl⟩ := Trans.Machine.guarded_step.mp hstep
    have ho := (hs.placed.startLoop hg).1
    cases hstarted : s.base.started with
    | true =>
      simp only [EventLoopThread.effect, hstarted] at h
      cases h
      simp [State.rank, ho, hstarted, OwnerPc.rank, Act.inBlock]
    | false =>
      simp only [EventLoopThread.effect, hstarted, hg.1] at h
      obtain ⟨m, hstep, heq⟩ := Option.bind_eq_some_iff.mp h
      cases heq
      simp [State.rank, ho, hstarted, OwnerPc.rank, Act.inBlock]
  | base a =>
    dsimp only at h
    split at h
    · next hout =>
      obtain ⟨b, hstep, heq⟩ := Option.bind_eq_some_iff.mp h
      cases heq
      obtain ⟨-, rfl⟩ := Trans.Machine.guarded_step.mp hstep
      simp [State.rank, base_started owner hout.1, Act.inBlock, Act.cost]
    · cases h
  | owner => exact goOwner_rank hs h
  | thread => exact goThread_rank h
  | notify woken =>
    dsimp only at h
    split at h
    · next hpc => exact notify_rank hpc h
    · cases h
  | wake => exact wake_rank h

omit [DecidableEq T] in
theorem cost_sum (as : List (Act T F)) : (as.map Act.cost).sum = 3 * as.countP Act.isWake := by
  induction as with
  | nil => rfl
  | cons a as ih =>
    rw [List.map_cons, List.sum_cons, ih, List.countP_cons, Act.cost]
    split <;> omega

/-- In every run the two blocks take at most 16 steps, and three more for each spurious
wakeup. -/
theorem handshake_bounded {as : List (Act T F)}
    (hrun : (machine tids owner F).run start as = some t) :
    as.countP Act.inBlock ≤ 16 + 3 * as.countP Act.isWake := by
  have hcount := Trans.Machine.countP_le (I := Inv tids) State.rank Act.inBlock Act.cost
    (fun s a t hs h => ⟨hs.step h, step_rank hs h⟩) ⟨.start, .start⟩ hrun
  have hrank : (start : State T F).rank = 16 := rfl
  rw [cost_sum, hrank] at hcount
  exact Nat.le_trans (Nat.le_add_right _ _) hcount

/-! ## 2. Progress -/

/-- The steps that the init callback has before the block. -/
def State.callRank (s : State T F) : Nat :=
  if s.thread ≠ .constructing then 0
  else if s.base.thread = .created then 1
  else
    match s.base.loop.call with
    | .none => 0
    | .mustWake => 1
    | .pushed => 2

/-- A step of the two blocks, the construction of the loop, or the end of a
`queueInLoop` that the init callback has called. -/
def Own (a : Act T F) : Prop :=
  a.inBlock = true ∨ a = .base .construct ∨ a = .base (.loop .readCalling) ∨
    a = .base (.loop .loopWakeup)

/-- Before the end of `startLoop`, and at it. -/
structure Starting (tids : Tids) (s : State T F) : Prop where
  inv : Inv tids s
  created : s.base.thread ≠ .notStarted
  returned : s.owner = .outside → s.base.owner = .outside ∧ s.base.ploop = true

theorem spurious_bounded : spurious.countP Act.inBlock ≤ 16 + 3 * spurious.countP Act.isWake := by
  obtain ⟨s, hrun, -⟩ := spurious_runs
  exact handshake_bounded hrun

omit [DecidableEq T] in
theorem owns_enabled (hg : MutexLock.guard s.mutex a) (o : OwnerPc) : ∃ t, s.owns a o = some t :=
  ⟨_, Option.bind_eq_some_iff.mpr ⟨_, MutexLock.enabled hg, rfl⟩⟩

omit [DecidableEq T] in
theorem threads_enabled (hg : MutexLock.guard s.mutex a) (pc : ThreadPc) :
    ∃ t, s.threads a pc = some t :=
  ⟨_, Option.bind_eq_some_iff.mpr ⟨_, MutexLock.enabled hg, rfl⟩⟩

omit [DecidableEq T] in
/-- The owner can go on when it has the mutex, or when the mutex is free and the owner
is not blocked. -/
theorem owner_enabled (hs : Inv tids s) (ho : s.owner ≠ .outside)
    (hfree : s.owner.pc.owns ∨ s.mutex.mutex = none ∧ s.mutex.blocked = []) :
    ∃ t, s.goOwner tids = some t := by
  have hpc := hs.handshake.owner
  unfold State.goOwner
  cases h : s.owner with
  | outside => exact absurd h ho
  | testing | returning => exact ⟨_, rfl⟩
  | locking =>
    rw [h] at hpc hfree
    refine owns_enabled ?_ _
    exact ⟨hpc, (hfree.resolve_left Bool.false_ne_true).1⟩
  | waiting =>
    rw [h] at hpc hfree
    obtain ⟨hmutex, hblocked⟩ := hfree.resolve_left Bool.false_ne_true
    refine owns_enabled ?_ _
    exact ⟨by rw [hpc]; rfl, by simp [hblocked], hmutex⟩
  | locked | sleeping | leaving | unlocking =>
    rw [h] at hpc
    refine owns_enabled ?_ _
    exact hpc

omit [DecidableEq T] in
/-- The mutex is free when neither of the two has it. -/
theorem mutex_free (hs : Inv tids s) (ho : ¬s.owner.pc.owns) (hpc : ¬s.thread.pc.owns) :
    s.mutex.mutex = none := by
  refine Option.eq_none_iff_forall_ne_some.mpr fun v hv => ?_
  have howns := (hs.handshake.inv.owned v).mp hv
  by_cases hvo : v = tids.owner
  · rw [hvo, hs.handshake.owner] at howns
    exact ho howns
  by_cases hvl : v = tids.looper
  · rw [hvl, hs.handshake.thread] at howns
    exact hpc howns
  · rw [hs.handshake.others v hvo hvl] at howns
    cases howns

/-- The new thread can go on in its block when the owner does not have the mutex. -/
theorem thread_enabled (owner : T) (hs : Inv tids s) (ho : ¬s.owner.pc.owns)
    (hcalled : s.thread = .constructing → s.Called)
    (hpc : s.thread ≠ .notifying ∧ s.thread ≠ .done) : ∃ t, s.goThread tids owner = some t := by
  have hthread := hs.handshake.thread
  unfold State.goThread
  cases h : s.thread with
  | notifying => exact absurd h hpc.1
  | done => exact absurd h hpc.2
  | constructing =>
    rw [h] at hthread
    dsimp only
    rw [if_pos (hcalled h)]
    refine threads_enabled ?_ _
    exact .inl hthread
  | locking =>
    rw [h] at hthread
    refine threads_enabled ?_ _
    exact ⟨hthread, mutex_free hs ho (by rw [h]; exact Bool.false_ne_true)⟩
  | publishing => exact ⟨_, rfl⟩
  | locked | leaving | unlocking =>
    rw [h] at hthread
    refine threads_enabled ?_ _
    exact hthread

omit [DecidableEq T] in
theorem notify_enabled (hs : Inv tids s) (hpc : s.thread = .notifying) :
    ∃ woken t, s.threads (.notify tids.looper 0 woken) .leaving = some t := by
  have hthread := hs.handshake.thread
  rw [hpc] at hthread
  rcases hs.handshake.blocked with hblocked | ⟨hblocked, -⟩
  · refine ⟨none, threads_enabled ?_ _⟩
    exact ⟨.inr hthread, by simp [hblocked]⟩
  · refine ⟨some tids.owner, threads_enabled ?_ _⟩
    exact ⟨.inr hthread, by simp [hblocked]⟩

omit [DecidableEq T] in
theorem goOwner_frame (h : s.goOwner tids = some t) : t.thread = s.thread ∧
    (t.owner ≠ .outside ∧ t.base = s.base ∨
      s.owner = .returning ∧ t.base = { s.base with owner := .outside }) := by
  have howns : ∀ {a o}, o ≠ .outside → s.owns a o = some t → t.thread = s.thread ∧
      (t.owner ≠ .outside ∧ t.base = s.base ∨
        s.owner = .returning ∧ t.base = { s.base with owner := .outside }) := by
    intro a o ho h
    obtain ⟨hbase, hthread, howner⟩ := owns_frame h
    exact ⟨hthread, .inl ⟨howner ▸ ho, hbase⟩⟩
  unfold State.goOwner at h
  cases ho : s.owner with
  | outside =>
    rw [ho] at h
    cases h
  | testing =>
    rw [ho] at h
    cases h
    refine ⟨rfl, .inl ⟨?_, rfl⟩⟩
    dsimp only
    split <;> exact OwnerPc.noConfusion
  | returning =>
    rw [ho] at h
    cases h
    exact ⟨rfl, .inr ⟨rfl, rfl⟩⟩
  | locking | locked | sleeping | waiting | leaving | unlocking =>
    rw [ho] at h howns
    exact howns OwnerPc.noConfusion h

theorem goThread_frame (h : s.goThread tids owner = some t) :
    t.owner = s.owner ∧ t.base.thread = s.base.thread ∧ t.thread ≠ .constructing := by
  have hthreads : ∀ {a pc}, pc ≠ .constructing → s.threads a pc = some t →
      t.owner = s.owner ∧ t.base.thread = s.base.thread ∧ t.thread ≠ .constructing := by
    intro a pc hpc h
    obtain ⟨hbase, howner, hthread⟩ := threads_frame h
    exact ⟨howner, by rw [hbase], hthread ▸ hpc⟩
  unfold State.goThread at h
  cases hpc : s.thread with
  | notifying | done =>
    rw [hpc] at h
    cases h
  | constructing =>
    rw [hpc] at h
    dsimp only at h
    split at h
    · exact hthreads ThreadPc.noConfusion h
    · cases h
  | publishing =>
    rw [hpc] at h
    cases h
    exact ⟨rfl, rfl, ThreadPc.noConfusion⟩
  | locking | locked | leaving | unlocking =>
    rw [hpc] at h
    exact hthreads ThreadPc.noConfusion h

/-- The owner moves towards its return. -/
theorem Starting.goOwner (owner : T) (hs : Starting tids s) (h : s.goOwner tids = some t) :
    Starting tids t ∧ t.rank + t.callRank < s.rank + s.callRank := by
  obtain ⟨hthread, hbase⟩ := goOwner_frame h
  have hcall : t.callRank = s.callRank := by
    rcases hbase with ⟨-, hbase⟩ | ⟨-, hbase⟩ <;> simp only [State.callRank, hthread, hbase]
  refine ⟨⟨hs.inv.goOwner owner h, ?_, fun hout => ?_⟩, ?_⟩
  · rcases hbase with ⟨-, hbase⟩ | ⟨-, hbase⟩ <;> rw [hbase] <;> exact hs.created
  · rcases hbase with ⟨hne, -⟩ | ⟨hreturning, hbase⟩
    · exact absurd hout hne
    · rw [hbase]
      exact ⟨rfl, (hs.inv.returning owner hreturning).2.2⟩
  · rw [hcall]
    exact Nat.add_lt_add_right (goOwner_rank hs.inv h) _

omit [DecidableEq T] in
/-- The new thread moves towards its `loop`. -/
theorem Starting.threads (hs : Starting tids s) (ht : Inv tids t) (ho : s.owner ≠ .outside)
    (howner : t.owner = s.owner) (hbase : t.base.thread = s.base.thread)
    (hthread : t.thread ≠ .constructing) (hrank : t.rank < s.rank) :
    Starting tids t ∧ t.rank + t.callRank < s.rank + s.callRank := by
  refine ⟨⟨ht, by rw [hbase]; exact hs.created, fun hout => ?_⟩, ?_⟩
  · exact absurd (howner ▸ hout) ho
  · rw [State.callRank, if_pos hthread]
    exact Nat.lt_of_lt_of_le hrank (Nat.le_add_right _ _)

omit [DecidableEq T] in
theorem rank_le (s : State T F) : s.rank + s.callRank ≤ 18 := by
  have howner : ∀ started published blocked, s.owner.rank started published blocked ≤ 9 := by
    cases s.owner <;> decide
  have hthread : s.thread.rank ≤ 7 := by cases s.thread <;> decide
  have hcall : s.callRank ≤ 2 := by
    unfold State.callRank
    split_ifs
    · omega
    · omega
    · split <;> omega
  have := howner s.base.started s.thread.published (!s.mutex.blocked.isEmpty)
  simp only [State.rank]
  omega

/-- The loop is constructed, and its init callback comes to its end. -/
theorem Starting.outer (owner : T) (hs : Starting tids s) (ho : s.owner ≠ .outside)
    {a : EventLoopThread.Act T F} (ha : Outer a) (hpc : s.thread = .constructing)
    (hg : EventLoopThread.guard owner s.base a)
    (hcreated : (EventLoopThread.effect owner s.base a).thread ≠ .notStarted)
    (hcall : State.callRank { s with base := EventLoopThread.effect owner s.base a } < s.callRank) :
    ∃ t, (machine tids owner F).step s (.base a) = some t ∧ Starting tids t ∧
      t.rank + t.callRank < s.rank + s.callRank := by
  have hfree : byLooper a = true → s.thread.isFree = true := fun _ => by rw [hpc]; rfl
  have hstep : (EventLoopThread.machine F owner).step s.base a =
      some (EventLoopThread.effect owner s.base a) := Trans.Machine.guarded_step.mpr ⟨hg, rfl⟩
  refine ⟨{ s with base := EventLoopThread.effect owner s.base a }, ?_,
    ⟨⟨?_, ?_⟩, hcreated, ?_⟩, ?_⟩
  · simp [machine, StartLoop.step, hs.inv.placed.crashed ho, ha, hpc, ThreadPc.isFree, hstep]
  · exact hs.inv.placed.outer ha hfree hg
  · exact hs.inv.handshake
  · exact fun hout => absurd hout ho
  · refine Nat.add_lt_add_of_le_of_lt (Nat.le_of_eq ?_) hcall
    simp only [State.rank, base_started owner ha]

/-- Whenever the owner is in `startLoop` and its thread was created, one of the two can go on. -/
theorem Starting.progress (owner : T) (hs : Starting tids s) (ho : s.owner ≠ .outside) :
    ∃ a t, Own a ∧ (machine tids owner F).step s a = some t ∧ Starting tids t ∧
      t.rank + t.callRank < s.rank + s.callRank := by
  have hcrashed := hs.inv.placed.crashed ho
  have hgoes : (∃ t, s.goOwner tids = some t) → ∃ a t, Own a ∧
      (machine tids owner F).step s a = some t ∧ Starting tids t ∧
        t.rank + t.callRank < s.rank + s.callRank := by
    rintro ⟨t, h⟩
    obtain ⟨ht, hlt⟩ := hs.goOwner owner h
    exact ⟨.owner, t, .inl rfl, by simp [machine, StartLoop.step, hcrashed, h], ht, hlt⟩
  by_cases howns : s.owner.pc.owns
  · exact hgoes (owner_enabled hs.inv ho (.inl howns))
  have hthread : (s.thread = .constructing → s.Called) → s.thread ≠ .notifying ∧ s.thread ≠ .done →
      ∃ a t, Own a ∧ (machine tids owner F).step s a = some t ∧ Starting tids t ∧
        t.rank + t.callRank < s.rank + s.callRank := by
    intro hcalled hpc
    obtain ⟨t, h⟩ := thread_enabled owner hs.inv howns hcalled hpc
    obtain ⟨howner, hbase, hpc⟩ := goThread_frame h
    have ht := hs.inv.goThread hcrashed h
    obtain ⟨ht, hlt⟩ := hs.threads ht ho howner hbase hpc (goThread_rank h)
    exact ⟨.thread, t, .inl rfl, by simp [machine, StartLoop.step, hcrashed, h], ht, hlt⟩
  cases hpc : s.thread with
  | locking | locked | publishing | leaving | unlocking =>
    refine hthread (fun h => ?_) ?_
    · cases hpc.symm.trans h
    · rw [hpc]
      exact ⟨ThreadPc.noConfusion, ThreadPc.noConfusion⟩
  | notifying =>
    obtain ⟨woken, t, h⟩ := notify_enabled hs.inv hpc
    obtain ⟨hbase, howner, hleaving⟩ := threads_frame h
    obtain ⟨ht, hlt⟩ := hs.threads (hs.inv.notify hpc h) ho howner (by rw [hbase])
      (by rw [hleaving]; exact ThreadPc.noConfusion) (notify_rank hpc h)
    exact ⟨.notify woken, t, .inl rfl, by simp [machine, StartLoop.step, hcrashed, hpc, h], ht, hlt⟩
  | done =>
    refine hgoes (owner_enabled hs.inv ho (.inr ⟨mutex_free hs.inv howns ?_, ?_⟩))
    · rw [hpc]
      exact Bool.false_ne_true
    · refine hs.inv.handshake.unblocked (.inr ?_)
      rw [hpc]
      exact ⟨rfl, ThreadPc.noConfusion⟩
  | constructing =>
    have hat := hs.inv.placed.thread
    rw [hpc] at hat
    cases hbase : s.base.thread with
    | notStarted => exact absurd hbase hs.created
    | finished => exact absurd hbase hat.1
    | created =>
      obtain ⟨t, hstep, ht⟩ := hs.outer owner (a := .construct) ho trivial hpc
        ⟨hcrashed, hbase⟩ EventLoopThread.ThreadPc.noConfusion
        (by simp [State.callRank, hpc, hbase, EventLoopThread.effect, EventLoop.State.start])
      exact ⟨.base .construct, t, .inr (.inl rfl), hstep, ht⟩
    | running =>
      cases hcall : s.base.loop.call with
      | none =>
        refine hthread (fun _ => ⟨hbase, hat.2 hbase, hcall⟩) ?_
        rw [hpc]
        exact ⟨ThreadPc.noConfusion, ThreadPc.noConfusion⟩
      | pushed =>
        obtain ⟨t, hstep, ht⟩ := hs.outer owner (a := .loop .readCalling) ho trivial hpc
          ⟨hcrashed, hbase, hcall, fun h => absurd h.symm (Option.some_ne_none _)⟩
          (by simp [EventLoopThread.effect, hbase])
          (by
            simp only [State.callRank, hpc, hbase, hcall, EventLoopThread.effect, EventLoop.effect]
            cases s.base.loop.callingPendingFunctors <;> simp)
        exact ⟨.base (.loop .readCalling), t, .inr (.inr (.inl rfl)), hstep, ht⟩
      | mustWake =>
        obtain ⟨t, hstep, ht⟩ := hs.outer owner (a := .loop .loopWakeup) ho trivial hpc
          ⟨hcrashed, hbase, hcall, fun h => absurd h.symm (Option.some_ne_none _)⟩
          (by simp [EventLoopThread.effect, hbase])
          (by simp [State.callRank, hpc, hbase, hcall, EventLoopThread.effect, EventLoop.effect])
        exact ⟨.base (.loop .loopWakeup), t, .inr (.inr (.inr rfl)), hstep, ht⟩

/-- `startLoop` returns: from every reachable state in which the owner is in
`startLoop` and its thread was created, at most 18 steps of the two, of which none
is a spurious wakeup, lead to its return, and `m_ploop` is not `NULL` then. -/
theorem startLoop_returns (hs : (machine tids owner F).Reachable s)
    (ho : s.base.owner = .awaiting) (hcreated : s.base.thread ≠ .notStarted) :
    ∃ as t, (∀ a ∈ as, Own a) ∧ as.length ≤ 18 ∧ (machine tids owner F).run s as = some t ∧
      t.base.owner = .outside ∧ t.base.ploop = true := by
  have hinv : Inv tids s := (refines_thread tids owner).invariant hs
  have hne : s.owner ≠ .outside := hinv.placed.owner.mpr ho
  obtain ⟨as, t, hown, hlen, hrun, ht, hout⟩ := Trans.Machine.reaches (M := machine tids owner F)
    (I := Starting tids) (G := fun t => t.owner = .outside) (P := Own)
    (fun t => t.rank + t.callRank) (fun t ht hnot => ht.progress owner hnot)
    ⟨hinv, hcreated, fun hout => absurd hout hne⟩
  exact ⟨as, t, hown, Nat.le_trans hlen (rank_le s), hrun, ht.returned hout⟩

theorem spurious_returns : ∃ s as t, (machine tidsOneTwo () Unit).run start spurious = some s ∧
    (∀ a ∈ as, Own a) ∧ as.length ≤ 18 ∧ (machine tidsOneTwo () Unit).run s as = some t ∧
    t.base.owner = .outside ∧ t.base.ploop = true := by
  obtain ⟨s, hrun, ho, hcreated, -⟩ := spurious_runs
  obtain ⟨as, t, hreturns⟩ := startLoop_returns ⟨_, _, rfl, hrun⟩ ho (by simp [hcreated])
  exact ⟨s, as, t, hrun, hreturns⟩

end

end StartLoop

end NetFrame
