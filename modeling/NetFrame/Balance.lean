import NetFrame.Ownership
import NetFrame.ThreadPool

/-!
# How a server spreads its connections

`TcpServer::newConnection` asks its pool for a loop. `Server` keeps of the pool what
`getNextLoop` needs, the number of threads and `m_next`; here the loops that the
connections of a run get are compared with what an `EventLoopThreadPool` returns.

Results:
1. `connections_balanced`: in every run the connection `c` lives on the loop whose turn
   the `c`-th call of `getNextLoop` is, and of any consecutive connections two I/O loops
   get equally many, up to one.
-/

namespace NetFrame

namespace Server

open Trans

variable {s t : State} {c : ConnId} {l : LoopId} {n : Nat}

/-! ## 1. What keeps the connections on their loops -/

/-- From `s` to `t` no connection is created and none changes its loop. -/
structure Homes (s t : State) : Prop where
  threadsNum : t.threadsNum = s.threadsNum
  next : t.next = s.next
  nextConnId : t.nextConnId = s.nextConnId
  home : ∀ c k, t.heap.find c = some k → ∃ k', s.heap.find c = some k' ∧ k'.ioLoop = k.ioLoop

theorem Homes.of_heap (hthreads : t.threadsNum = s.threadsNum) (hnext : t.next = s.next)
    (hid : t.nextConnId = s.nextConnId) (hheap : t.heap = s.heap) : Homes s t :=
  ⟨hthreads, hnext, hid, fun _ k hk => ⟨k, hheap ▸ hk, rfl⟩⟩

theorem Homes.refl (s : State) : Homes s s := .of_heap rfl rfl rfl rfl

theorem Homes.trans {u : State} (h : Homes s t) (h' : Homes t u) : Homes s u := by
  refine ⟨h'.threadsNum.trans h.threadsNum, h'.next.trans h.next, h'.nextConnId.trans h.nextConnId,
    fun c k hk => ?_⟩
  obtain ⟨k', hk', heq'⟩ := h'.home c k hk
  obtain ⟨k'', hk'', heq''⟩ := h.home c k' hk'
  exact ⟨k'', hk'', heq''.trans heq'⟩

theorem homes_removeConnectionInLoop (s : State) (c : ConnId) :
    Homes s (s.removeConnectionInLoop c) := by
  unfold State.removeConnectionInLoop
  cases s.heap.find c with
  | none => exact .refl s
  | some k => exact .of_heap rfl rfl rfl rfl

theorem homes_upcalls (us : List Upcall) (l : LoopId) (c : ConnId) (s : State) :
    Homes s (us.foldl (State.upcall l c) s) := by
  induction us generalizing s with
  | nil => exact .refl s
  | cons u us ih =>
    refine .trans ?_ (ih _)
    cases u with
    | connectionCB => exact .refl s
    | messageCB => exact .refl s
    | closeCB =>
      show Homes s (s.removeConnection l c)
      unfold State.removeConnection
      split
      · exact homes_removeConnectionInLoop s c
      · exact .of_heap rfl rfl rfl rfl
    | queueWriteComplete => exact .of_heap rfl rfl rfl rfl

theorem homes_call (s : State) (c : ConnId)
    (f : TcpConnection ConnId → Except Fault (TcpConnection ConnId)) :
    Homes s (s.call c f) := by
  unfold State.call
  cases hk : s.heap.find c with
  | none => exact .refl s
  | some k =>
    dsimp only
    cases f { k.tcp with poller := s.pollers k.ioLoop } with
    | error e => exact .of_heap rfl rfl rfl rfl
    | ok tcp =>
      refine Homes.trans (t := s.put c k tcp) ⟨rfl, rfl, rfl, fun d k' hk' => ?_⟩
        (homes_upcalls tcp.upcalls k.ioLoop c _)
      rw [State.put, Table.find_insert] at hk'
      split_ifs at hk' with hd
      · cases hk'
        exact ⟨k, hd ▸ hk, rfl⟩
      · exact ⟨k', hk', rfl⟩

theorem homes_exec (s : State) (f : Functor) : Homes s (s.exec f) := by
  cases f with
  | connectionEstablished c => exact homes_call s c _
  | removeConnectionInLoop c => exact homes_removeConnectionInLoop s c
  | connectionDestroyed c =>
    have h := homes_call s c TcpConnection.connectionDestroyed
    exact ⟨h.threadsNum, h.next, h.nextConnId, h.home⟩
  | writeComplete c => exact .refl s

theorem homes_dispatch (s : State) (l : LoopId)
    (f : TcpConnection ConnId → Except Fault (TcpConnection ConnId)) :
    Homes s (s.dispatch l f) := by
  unfold State.dispatch
  split
  · next c _ rest _ =>
    have h := homes_call (s.setPc l (.dispatching c rest)) c f
    exact ⟨h.threadsNum, h.next, h.nextConnId, h.home⟩
  · exact .refl s

theorem homes_releases (cs : List ConnId) (s : State) : Homes s (cs.foldl State.release s) := by
  induction cs generalizing s with
  | nil => exact .refl s
  | cons c cs ih =>
    refine .trans ?_ (ih _)
    unfold State.release State.destroy
    split
    · exact .refl s
    · cases s.heap.find c with
      | none => exact .refl s
      | some k =>
        refine ⟨rfl, rfl, rfl, fun d k' hk' => ?_⟩
        replace hk' : Table.find (s.heap.erase c) d = some k' := hk'
        rw [Table.find_erase] at hk'
        split_ifs at hk'
        exact ⟨k', hk', rfl⟩

theorem homes_leave (s : State) (l : LoopId) : Homes s (s.leave l) := by
  have h := homes_releases (s.loops l).held (s.unwind l)
  exact ⟨h.threadsNum, h.next, h.nextConnId, h.home⟩

theorem homes_newConnection (s : State) (fd : Int) : Homes (s.create fd) (s.newConnection fd) := by
  show Homes _ (if s.getNextLoop.1 = 0 then _ else _)
  split
  · have h := homes_exec ((s.create fd).setPc 0 (.accepting s.nextConnId))
      (.connectionEstablished s.nextConnId)
    exact ⟨h.threadsNum, h.next, h.nextConnId, h.home⟩
  · exact .of_heap rfl rfl rfl rfl

/-- Only `newConnection` creates a connection. -/
theorem homes_effect (s : State) {a : Act} (ha : ∀ fd, a ≠ .newConnection fd) :
    Homes s (effect s a) := by
  cases a with
  | newConnection fd => exact absurd rfl (ha fd)
  | newConnectionDone => exact homes_leave s 0
  | handleEvent l fd revents =>
    simp only [effect]
    split
    · split
      · exact .of_heap rfl rfl rfl rfl
      · exact .refl s
    · exact .refl s
  | handleClose l => exact homes_dispatch s l _
  | handleError l => exact homes_dispatch s l _
  | handleRead l r => exact homes_dispatch s l _
  | handleWrite l r => exact homes_dispatch s l _
  | eventHandled l => exact homes_leave s l
  | swap l => exact .of_heap rfl rfl rfl rfl
  | runFunctor l =>
    simp only [effect]
    split
    · next f _ =>
      have h := homes_exec (s.setPc l (s.loops l).pc.next) f
      exact ⟨h.threadsNum, h.next, h.nextConnId, h.home⟩
    · exact .refl s
  | batchDone l => exact homes_leave s l
  | send l c data r => exact homes_call s c fun t => t.sendInLoop true data r
  | shutdown l c =>
    exact homes_call s c fun t => .ok (t.setState .kDisconnecting).shutdownInLoop

/-! ## 2. The loops of a run -/

/-- The loop that the step gives to a new connection. -/
def loopGiven (s : State) : Act → List LoopId
  | .newConnection _ => [s.getNextLoop.1]
  | _ => []

/-- The loops that the connections of a run get, in the order of their ids. -/
def loopsGiven (s : State) (as : List Act) : List LoopId := machine.recorded loopGiven s as

/-- The loop of the connection that `i` others came before, with `n` I/O threads. -/
def homeOf (n i : Nat) : LoopId := if n = 0 then 0 else i % n + 1

/-- Every connection is on the loop whose turn it was. -/
structure Balanced (n : Nat) (s : State) (loops : List LoopId) : Prop where
  threadsNum : s.threadsNum = n
  next : n ≠ 0 → s.next = loops.length % n
  nextConnId : s.nextConnId = loops.length + 1
  inTurn : loops = (List.range' 0 loops.length).map (homeOf n)
  home : ∀ c k, s.heap.find c = some k → 1 ≤ c ∧ loops[c - 1]? = some k.ioLoop

theorem Balanced.getNextLoop {loops : List LoopId} (hs : Balanced n s loops) :
    s.getNextLoop.1 = homeOf n loops.length ∧
      (n ≠ 0 → s.getNextLoop.2 = (loops.length + 1) % n) := by
  unfold State.getNextLoop homeOf
  rw [hs.threadsNum]
  by_cases hn : n = 0
  · rw [if_pos hn, if_pos hn]
    exact ⟨rfl, fun hne => absurd hn hne⟩
  · rw [if_neg hn, if_neg hn, hs.next hn]
    exact ⟨rfl, fun _ => (RoundRobin.mod_succ hn _).symm⟩

theorem Balanced.homes {loops : List LoopId} (hs : Balanced n s loops) (h : Homes s t) :
    Balanced n t loops := by
  refine ⟨h.threadsNum.trans hs.threadsNum, fun hn => h.next.trans (hs.next hn),
    h.nextConnId.trans hs.nextConnId, hs.inTurn, fun c k hk => ?_⟩
  obtain ⟨k', hk', heq⟩ := h.home c k hk
  rw [← heq]
  exact hs.home c k' hk'

theorem Balanced.create {loops : List LoopId} (hs : Balanced n s loops) (fd : Int) :
    Balanced n (s.create fd) (loops ++ [s.getNextLoop.1]) := by
  obtain ⟨hloop, hnext⟩ := hs.getNextLoop
  have hlen : (loops ++ [s.getNextLoop.1]).length = loops.length + 1 := by
    rw [List.length_append, List.length_singleton]
  refine ⟨hs.threadsNum, fun hn => ?_, ?_, ?_, fun c k hk => ?_⟩
  · rw [hlen, ← hnext hn]
    rfl
  · rw [hlen, ← hs.nextConnId]
    rfl
  · rw [hlen, hloop, List.range'_1_concat, List.map_append, ← hs.inTurn]
    simp
  · rw [State.create, Table.find_insert] at hk
    split_ifs at hk with hc
    · cases hk
      rw [hc, hs.nextConnId]
      exact ⟨Nat.succ_pos _, by simp⟩
    · obtain ⟨hpos, hold⟩ := hs.home c k hk
      refine ⟨hpos, ?_⟩
      rw [List.getElem?_append_left (List.getElem?_eq_some_iff.mp hold).1]
      exact hold

theorem Balanced.step {loops : List LoopId} {a : Act} (hs : Balanced n s loops)
    (h : machine.step s a = some t) : Balanced n t (loops ++ loopGiven s a) := by
  obtain ⟨-, rfl⟩ := Machine.guarded_step.mp h
  cases a with
  | newConnection fd => exact (hs.create fd).homes (homes_newConnection s fd)
  | _ =>
    show Balanced n _ (loops ++ [])
    rw [List.append_nil]
    exact hs.homes (homes_effect s (by simp))

theorem Balanced.start (hostPort : String) (n : Nat) (cb : Bool) :
    Balanced n (start hostPort n cb) [] :=
  ⟨rfl, fun _ => (Nat.zero_mod n).symm, rfl, rfl, fun c k hk => by cases hk⟩

theorem run_balanced {hostPort : String} {cb : Bool} {as : List Act}
    (hrun : machine.run (start hostPort n cb) as = some s) :
    Balanced n s (loopsGiven (start hostPort n cb) as) :=
  Machine.recorded_invariant (fun _ _ _ _ hs h => hs.step h) (Balanced.start hostPort n cb) hrun

/-! ## 3. The pool -/

/-- The loop of the server that the loop of a pool is. -/
def ofPool : EventLoopThreadPool.Loop → LoopId
  | .base => 0
  | .ofThread i => i + 1

theorem ofPool_turn (n i : Nat) : ofPool (EventLoopThreadPool.turn n i) = homeOf n i := by
  unfold EventLoopThreadPool.turn homeOf
  split <;> rfl

/-- A pool that is started with `n` threads returns the loops of `m` connections. -/
theorem pool_returns (hn : n < 2 ^ 31) (cb : Bool) (m : Nat) :
    ∃ pool t returned,
      (EventLoopThreadPool.ctor.setThreadNum n).start cb = .ok pool ∧
      runOps EventLoopThreadPool.State.exec pool (List.replicate m ()) = .ok (t, returned) ∧
      returned.map ofPool = (List.range' 0 m).map (homeOf n) := by
  obtain ⟨pool, hstart, hturns⟩ := EventLoopThreadPool.start_spec n cb
  rw [Int.toNat_natCast] at hturns
  obtain ⟨t, hrun, -⟩ := (EventLoopThreadPool.getNextLoop_implements hn).run (List.replicate m ())
    hturns (legalOps_iff.mpr fun _ _ _ _ _ _ _ => trivial)
  rw [EventLoopThreadPool.specOps_turn] at hrun
  refine ⟨pool, t, _, hstart, hrun, ?_⟩
  rw [List.map_map]
  exact List.map_congr_left fun i _ => ofPool_turn n i

theorem count_homeOf (hn : n ≠ 0) (first len i : Nat) :
    ((List.range' first len).map (homeOf n)).count (i + 1) =
      (RoundRobin.turns n first len).count i := by
  have hmap : (List.range' first len).map (homeOf n) =
      (RoundRobin.turns n first len).map Nat.succ := by
    rw [RoundRobin.turns, List.map_map]
    exact List.map_congr_left fun c _ => if_neg hn
  rw [hmap]
  exact List.count_map_of_injective _ _ Nat.succ_injective _

/-- The connections of every run are spread evenly: they get the loops that an
`EventLoopThreadPool` with the same number of threads returns, each one stays on its
loop as long as it exists, and of any consecutive connections two I/O loops get equally
many, up to one. -/
theorem connections_balanced {hostPort : String} {cb : Bool} {as : List Act} (hn : n < 2 ^ 31)
    (hrun : machine.run (start hostPort n cb) as = some s) :
    (∃ pool t returned, (EventLoopThreadPool.ctor.setThreadNum n).start cb = .ok pool ∧
      runOps EventLoopThreadPool.State.exec pool
        (List.replicate (s.nextConnId - 1) ()) = .ok (t, returned) ∧
      loopsGiven (start hostPort n cb) as = returned.map ofPool) ∧
    (∀ c k, s.heap.find c = some k →
      (loopsGiven (start hostPort n cb) as)[c - 1]? = some k.ioLoop) ∧
    ∀ window, window <:+: loopsGiven (start hostPort n cb) as → ∀ i < n, ∀ j < n,
      window.count (i + 1) ≤ window.count (j + 1) + 1 := by
  have hs := run_balanced hrun
  refine ⟨?_, fun c k hk => (hs.home c k hk).2, fun window hwindow i hi j hj => ?_⟩
  · obtain ⟨pool, t, returned, hstart, hcalls, hreturned⟩ := pool_returns hn cb (s.nextConnId - 1)
    refine ⟨pool, t, returned, hstart, hcalls, ?_⟩
    rw [hreturned, hs.nextConnId, Nat.add_sub_cancel]
    exact hs.inTurn
  · have hne : n ≠ 0 := Nat.ne_of_gt (Nat.zero_lt_of_lt hi)
    rw [hs.inTurn] at hwindow
    obtain ⟨first, len, rfl⟩ := RoundRobin.infix_range' hwindow
    rw [count_homeOf hne, count_homeOf hne]
    exact RoundRobin.fair hi hj first len

/-- Three connections for two threads. -/
def threeConnections : List Act :=
  [.newConnection 7, .newConnectionDone, .newConnection 8, .newConnectionDone, .newConnection 9]

theorem threeConnections_balanced : ∃ s,
    machine.run (start "127.0.0.1:5000" 2 false) threeConnections = some s ∧
    loopsGiven (start "127.0.0.1:5000" 2 false) threeConnections = [1, 2, 1] ∧
    (∃ pool t returned, (EventLoopThreadPool.ctor.setThreadNum 2).start false = .ok pool ∧
      runOps EventLoopThreadPool.State.exec pool
        (List.replicate (s.nextConnId - 1) ()) = .ok (t, returned) ∧
      loopsGiven (start "127.0.0.1:5000" 2 false) threeConnections = returned.map ofPool) ∧
    (∀ c k, s.heap.find c = some k →
      (loopsGiven (start "127.0.0.1:5000" 2 false) threeConnections)[c - 1]? = some k.ioLoop) ∧
    ∀ window, window <:+: loopsGiven (start "127.0.0.1:5000" 2 false) threeConnections →
      ∀ i < 2, ∀ j < 2, window.count (i + 1) ≤ window.count (j + 1) + 1 := by
  have hloops : loopsGiven (start "127.0.0.1:5000" 2 false) threeConnections = [1, 2, 1] := by
    decide +kernel
  have hruns : (machine.run (start "127.0.0.1:5000" 2 false) threeConnections).isSome := by
    decide +kernel
  obtain ⟨s, hrun⟩ := Option.isSome_iff_exists.mp hruns
  exact ⟨s, hrun, hloops, connections_balanced (by decide) hrun⟩

end Server

end NetFrame
