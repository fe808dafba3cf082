import NetFrame.Pointers

/-!
# TcpServer: what the server owns

Result:
`ownership_iff`: the server owns its connections in exactly the runs without a
`newConnection`; and no connection is destroyed too early in every run in which
pointers keep it until its `connectionDestroyed` has run.
-/

namespace NetFrame

namespace Server

section

variable {s : State} {c : ConnId} {l : LoopId}

/-! ## 1. What fails in every run -/

/-- What every step keeps: nothing is ever entered into `m_connections`. -/
structure Numbered (s : State) : Prop where
  connections : s.connections = ∅
  heap : ∀ c k, s.heap.find c = some k → c < s.nextConnId
  removed : ∀ c ∈ s.removed, c < s.nextConnId
  pos : 1 ≤ s.nextConnId

theorem Numbered.setLoop (hs : Numbered s) (l : LoopId) (loop : Loop) :
    Numbered (s.setLoop l loop) :=
  ⟨hs.connections, hs.heap, hs.removed, hs.pos⟩

theorem Numbered.removeConnectionInLoop (hs : Numbered s) (c : ConnId) :
    Numbered (s.removeConnectionInLoop c) := by
  unfold State.removeConnectionInLoop
  cases hk : s.heap.find c with
  | none => exact hs
  | some k =>
    have hs' : Numbered { s with
        connections := s.connections.erase k.name, removed := s.removed ++ [c] } := by
      refine ⟨?_, hs.heap, ?_, hs.pos⟩
      · rw [hs.connections]
        rfl
      intro d hd
      rcases List.mem_append.mp hd with hd | hd
      · exact hs.removed d hd
      · cases List.mem_singleton.mp hd
        exact hs.heap c k hk
    exact hs'.setLoop _ _

theorem Numbered.upcalls {us : List Upcall} (hs : Numbered s) :
    Numbered (us.foldl (State.upcall l c) s) := by
  induction us generalizing s with
  | nil => exact hs
  | cons u us ih =>
    refine ih ?_
    cases u with
    | connectionCB => exact hs
    | messageCB => exact hs
    | closeCB =>
      show Numbered (s.removeConnection l c)
      unfold State.removeConnection
      split
      · exact hs.removeConnectionInLoop c
      · exact hs.setLoop _ _
    | queueWriteComplete => exact hs.setLoop _ _

theorem Numbered.call {f : TcpConnection ConnId → Except Fault (TcpConnection ConnId)}
    (hs : Numbered s) : Numbered (s.call c f) := by
  unfold State.call
  cases hk : s.heap.find c with
  | none => exact hs
  | some k =>
    dsimp only
    cases f { k.tcp with poller := s.pollers k.ioLoop } with
    | error e => exact ⟨hs.connections, hs.heap, hs.removed, hs.pos⟩
    | ok t =>
      refine Numbered.upcalls ⟨hs.connections, fun d k' hk' => ?_, hs.removed, hs.pos⟩
      rw [State.put, Table.find_insert] at hk'
      split_ifs at hk' with hd
      · exact hd ▸ hs.heap c k hk
      · exact hs.heap d k' hk'

theorem Numbered.exec (hs : Numbered s) (f : Functor) : Numbered (s.exec f) := by
  cases f with
  | connectionEstablished c => exact hs.call
  | removeConnectionInLoop c => exact hs.removeConnectionInLoop c
  | connectionDestroyed c =>
    have h := hs.call (f := TcpConnection.connectionDestroyed) (c := c)
    exact ⟨h.connections, h.heap, h.removed, h.pos⟩
  | writeComplete c => exact hs

theorem Numbered.releases {cs : List ConnId} (hs : Numbered s) :
    Numbered (cs.foldl State.release s) := by
  induction cs generalizing s with
  | nil => exact hs
  | cons c cs ih =>
    refine ih ?_
    unfold State.release State.destroy
    split_ifs
    · exact hs
    cases hk : s.heap.find c with
    | none => exact hs
    | some k =>
      refine ⟨hs.connections, fun d k' hk' => ?_, hs.removed, hs.pos⟩
      replace hk' : Table.find (s.heap.erase c) d = some k' := hk'
      rw [Table.find_erase] at hk'
      split_ifs at hk'
      exact hs.heap d k' hk'

theorem Numbered.leave (hs : Numbered s) (l : LoopId) : Numbered (s.leave l) :=
  (hs.setLoop _ _).releases

theorem Numbered.dispatch {f : TcpConnection ConnId → Except Fault (TcpConnection ConnId)}
    (hs : Numbered s) (l : LoopId) : Numbered (s.dispatch l f) := by
  unfold State.dispatch
  split
  · exact (hs.setLoop _ _).call
  · exact hs

theorem Numbered.create (hs : Numbered s) (fd : Int) : Numbered (s.create fd) := by
  refine ⟨hs.connections, fun d k hk => ?_, fun d hd => Nat.lt_succ_of_lt (hs.removed d hd),
    Nat.le_succ_of_le hs.pos⟩
  rw [State.create, Table.find_insert] at hk
  split_ifs at hk with hd
  · exact hd ▸ Nat.lt_succ_self _
  · exact Nat.lt_succ_of_lt (hs.heap d k hk)

theorem Numbered.step (hs : Numbered s) (a : Act) : Numbered (effect s a) := by
  cases a with
  | newConnection fd =>
    have hcreated := hs.create fd
    show Numbered (if s.getNextLoop.1 = 0 then _ else _)
    split_ifs
    · exact (hcreated.setLoop _ _).exec _
    · exact (hcreated.setLoop _ _).setLoop _ _
  | newConnectionDone => exact hs.leave 0
  | handleEvent l fd revents =>
    simp only [effect]
    split
    · split_ifs
      · exact hs.setLoop _ _
      · exact hs
    · exact hs
  | handleClose l => exact hs.dispatch l
  | handleError l => exact hs.dispatch l
  | handleRead l r => exact hs.dispatch l
  | handleWrite l r => exact hs.dispatch l
  | eventHandled l => exact hs.leave l
  | swap l => exact hs.setLoop _ _
  | runFunctor l =>
    simp only [effect]
    split
    · exact (hs.setLoop _ _).exec _
    · exact hs
  | batchDone l => exact hs.leave l
  | send l c data r =>
    simp only [effect]
    exact hs.call
  | shutdown l c =>
    simp only [effect]
    exact hs.call

theorem newConnection_removed (s : State) (fd : Int) :
    (s.newConnection fd).removed = s.removed ∧
    (s.newConnection fd).nextConnId = s.nextConnId + 1 := by
  show (State.removed (if s.getNextLoop.1 = 0 then _ else _) = _) ∧
    (State.nextConnId (if s.getNextLoop.1 = 0 then _ else _) = _)
  split_ifs
  swap
  · exact ⟨rfl, rfl⟩
  simp only [State.exec, State.call]
  have hfind : ((s.create fd).setPc 0 (.accepting s.nextConnId)).heap.find s.nextConnId = _ :=
    Table.find_insert_self _ _ _
  rw [hfind]
  dsimp only
  split
  · exact ⟨rfl, rfl⟩
  · next t hok =>
    rw [TcpConnection.connectionEstablished_upcalls hok]
    exact ⟨rfl, rfl⟩

/-- After `newConnection` the connection is missing from `m_connections`. -/
theorem Numbered.not_owned (hs : Numbered s) (fd : Int) : ¬Owned (s.newConnection fd) := by
  intro h
  have hempty := (hs.step (.newConnection fd)).connections
  obtain ⟨hremoved, hnext⟩ := newConnection_removed s fd
  have hcreated : (s.newConnection fd).Created s.nextConnId :=
    ⟨hs.pos, hnext ▸ Nat.lt_succ_self _⟩
  have hnot : s.nextConnId ∉ (s.newConnection fd).removed := fun hmem =>
    Nat.lt_irrefl _ (hs.removed _ (hremoved ▸ hmem))
  have hfind := (h.connections _ _).mpr ⟨hcreated, hnot, rfl⟩
  replace hempty : (s.newConnection fd).connections = ∅ := hempty
  rw [hempty, Table.find_empty] at hfind
  cases hfind

/-! ## 2. Runs without a connection -/

/-- The server has not accepted a connection. -/
structure Unused (s : State) : Prop where
  connections : s.connections = ∅
  nextConnId : s.nextConnId = 1
  crashed : s.crashed = none
  pollers : ∀ l fd, (s.pollers l).handlermap.find fd = none ∧
    (s.pollers l).interest.find fd = none
  functors : ∀ l, (s.loops l).tmpFunctors = [] ∧ (s.loops l).pendingFuntors = []
  pc : ∀ l, (s.loops l).pc = .idle ∨ ∃ i, (s.loops l).pc = .running i

theorem Unused.owned (hs : Unused s) : Owned s := by
  refine ⟨fun name c => ?_, fun l fd c hfind => ?_, by simp [hs.crashed]⟩
  · rw [hs.connections, Table.find_empty]
    refine ⟨nofun, fun ⟨⟨hpos, hlt⟩, _⟩ => ?_⟩
    rw [hs.nextConnId] at hlt
    exact absurd (Nat.lt_of_le_of_lt hpos hlt) (Nat.lt_irrefl 1)
  · rw [(hs.pollers l fd).1] at hfind
    cases hfind

theorem Unused.held (hs : Unused s) (l : LoopId) : (s.loops l).held = [] := by
  rw [Loop.held, (hs.functors l).1]
  rcases hs.pc l with hpc | ⟨i, hpc⟩ <;> simp [hpc, LoopPc.stack]

theorem Unused.callback (hs : Unused s) (l : LoopId) : (s.loops l).pc.callback = none := by
  rcases hs.pc l with hpc | ⟨i, hpc⟩ <;> rw [hpc] <;> rfl

/-- A loop without functors starts or ends a batch. -/
theorem Unused.setLoop {pc : LoopPc} (hs : Unused s) (hpc : pc = .idle ∨ ∃ i, pc = .running i) :
    Unused (s.setLoop l ⟨pc, [], []⟩) := by
  refine ⟨hs.connections, hs.nextConnId, hs.crashed, hs.pollers, fun m => ?_, fun m => ?_⟩
  all_goals
    by_cases hm : m = l
  · simp [State.setLoop, hm]
  · simpa [State.setLoop, hm] using hs.functors m
  · simpa [State.setLoop, hm] using hpc
  · simpa [State.setLoop, hm] using hs.pc m

theorem Unused.step {a : Act} (hs : Unused s) (ha : ∀ fd, a ≠ .newConnection fd) (hg : guard s a) :
    Unused (effect s a) := by
  obtain ⟨-, hg⟩ := hg
  cases a with
  | newConnection fd => exact absurd rfl (ha fd)
  | newConnectionDone =>
    rcases hs.pc 0 with hpc | ⟨i, hpc⟩ <;> simp [hpc, LoopPc.accepted] at hg
  | handleEvent l fd revents =>
    -- the interest set of a server without connections is empty
    have hnone := hg.2
    rw [(hs.pollers l fd).2] at hnone
    cases hnone
  | handleClose l => simp [hs.callback l] at hg
  | handleError l => simp [hs.callback l] at hg
  | handleRead l r => simp [hs.callback l] at hg
  | handleWrite l r => simp [hs.callback l] at hg
  | eventHandled l =>
    rcases hs.pc l with hpc | ⟨i, hpc⟩ <;> simp [hpc, LoopPc.handled] at hg
  | swap l =>
    simp only [effect, (hs.functors l).2]
    exact hs.setLoop (.inr ⟨0, rfl⟩)
  | runFunctor l =>
    rcases hs.pc l with hpc | ⟨i, hpc⟩ <;>
      simp [Loop.nextFunctor, hpc, (hs.functors l).1] at hg
  | batchDone l =>
    simp only [effect, State.leave, State.unwind, hs.held l, (hs.functors l).2]
    exact hs.setLoop (.inl rfl)
  | send l c data r =>
    have hheld := hg.1.1
    simp [hs.held l] at hheld
  | shutdown l c =>
    have hheld := hg.1
    simp [hs.held l] at hheld

/-! ## 3. Runs -/

theorem Inv.start (hostPort : String) (threadsNum : Nat) (cb : Bool) :
    Inv (start hostPort threadsNum cb) := by
  have hnone : ∀ c, (Server.start hostPort threadsNum cb).socket c = none := fun c => rfl
  refine ⟨⟨fun c k hk => (by cases hk), fun c l fd hc => ?_, fun c l fd hc => ?_,
    fun c d l m fd hc => ?_, fun l fd c hfind => ?_, fun l fd mask c hfind => ?_⟩, rfl,
    fun l => ⟨fun f hf => (by cases hf), fun c hc => (by cases hc), fun c cbs hc => (by cases hc)⟩,
    fun c hc => (by cases hc), by simp [Server.start], fun h => Nat.pos_of_ne_zero h⟩
  all_goals simp_all [Server.start, EPollPoller.make]

theorem Numbered.start (hostPort : String) (threadsNum : Nat) (cb : Bool) :
    Numbered (start hostPort threadsNum cb) :=
  ⟨rfl, fun c k hk => (by cases hk), fun c hc => (by cases hc), Nat.le_refl 1⟩

theorem Unused.start (hostPort : String) (threadsNum : Nat) (cb : Bool) :
    Unused (start hostPort threadsNum cb) :=
  ⟨rfl, rfl, rfl, fun _ _ => ⟨rfl, rfl⟩, fun _ => ⟨rfl, rfl⟩, fun _ => .inl rfl⟩

/-- The server owns its connections throughout a run if and only if the run
accepts none. What follows from ownership, that no connection is destroyed while
its handler is in the map and that no new descriptor is found there, holds in
every run in which the other pointers keep each connection long enough. -/
theorem ownership_iff {hostPort : String} {threadsNum : Nat} {cb : Bool} {as : List Act}
    (hrun : machine.run (start hostPort threadsNum cb) as = some s) :
    (machine.Throughout Owned (start hostPort threadsNum cb) as ↔
      ∀ fd, Act.newConnection fd ∉ as) ∧
    (machine.Along Kept (start hostPort threadsNum cb) as →
      machine.Throughout (fun t => NoDangling t ∧ t.crashed ≠ some EPollPoller.clash)
        (start hostPort threadsNum cb) as) := by
  refine ⟨⟨fun howned fd hmem => ?_, fun hnew => ?_⟩, fun hkept => ?_⟩
  · -- the first accept already fails
    obtain ⟨before, after, rfl⟩ := List.append_of_mem hmem
    rw [Trans.Machine.run_append, Option.bind_eq_some_iff] at hrun
    obtain ⟨u, hu, hrest⟩ := hrun
    obtain ⟨t, hstep, -⟩ := machine.run_cons_some hrest
    have hnumbered : Numbered u := by
      refine Trans.Machine.run_invariant (C := fun _ _ => True) (fun s a t hs _ hst => ?_)
        (.start hostPort threadsNum cb) (Trans.Machine.along_true _ _) hu
      obtain ⟨-, rfl⟩ := Trans.Machine.guarded_step.mp hst
      exact hs.step a
    obtain ⟨-, rfl⟩ := Trans.Machine.guarded_step.mp hstep
    refine hnumbered.not_owned fd (howned (before ++ [.newConnection fd]) _ ?_ ?_)
    · exact ⟨after, by simp⟩
    · rw [Trans.Machine.run_append, hu, Option.bind_some, Trans.Machine.run_cons, hstep]
      rfl
  · refine Trans.Machine.throughout_of_invariant (I := Unused) (fun s hs => hs.owned)
      (fun s a t hs ha hst => ?_) (.start hostPort threadsNum cb)
      (Trans.Machine.along_of_forall (C := fun _ a => ∀ fd, a ≠ .newConnection fd)
        (fun a ha _ fd heq => by subst heq; exact hnew fd ha) _)
    obtain ⟨hg, rfl⟩ := Trans.Machine.guarded_step.mp hst
    exact hs.step ha hg
  · refine Trans.Machine.throughout_of_invariant (I := Inv)
      (fun s hs => ⟨hs.noDangling, hs.noClash⟩) (fun s a t hs ha hst => ?_)
      (.start hostPort threadsNum cb) hkept
    obtain ⟨hg, rfl⟩ := Trans.Machine.guarded_step.mp hst
    exact hs.step ha hg

end

/-- A send in the first callback keeps the connection until the peer has closed
it; its descriptor is accepted again. -/
def repliedConnection : List Act :=
  [.newConnection 7, .send 0 1 [104] (.wrote 1), .newConnectionDone, .handleEvent 0 7 EPOLLIN,
    .handleRead 0 (.bytes []), .eventHandled 0, .swap 0, .runFunctor 0, .runFunctor 0, .batchDone 0,
    .newConnection 7]

theorem repliedConnection_kept :
    ∃ s, machine.run (start "127.0.0.1:5000" 0 true) repliedConnection = some s ∧
      s.nextConnId = 3 ∧
      (machine.Throughout Owned (start "127.0.0.1:5000" 0 true) repliedConnection ↔
        ∀ fd, Act.newConnection fd ∉ repliedConnection) ∧
      machine.Throughout (fun t => NoDangling t ∧ t.crashed ≠ some EPollPoller.clash)
        (start "127.0.0.1:5000" 0 true) repliedConnection := by
  have hcreated : (machine.run (start "127.0.0.1:5000" 0 true) repliedConnection).map
      State.nextConnId = some 3 := by
    decide +kernel
  obtain ⟨s, hrun, hs⟩ := Option.map_eq_some_iff.mp hcreated
  obtain ⟨hiff, hkept⟩ := ownership_iff hrun
  exact ⟨s, hrun, hs, hiff, hkept (by decide +kernel)⟩

end Server

end NetFrame
