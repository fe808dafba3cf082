import NetFrame.ServerThreads

/-!
# Thread confinement

On which thread each function of a `TcpServer` and its connections runs. The
check in `assertInLoopThread` is empty, so that only the calls themselves see to it.

Results:
1. `body_lands`: a function that runs on its thread calls only what belongs on the
   same thread, and queues only what belongs to the loop it is queued in.
2. `calls_confined`: in every run of any number of threads, the functions of a
   connection run on the thread of its loop and those of the server on the thread
   of the base loop.
-/

namespace NetFrame

namespace ServerThreads

open Outcome

variable {T : Type}

/-! ## 1. Where calls belong -/

/-- `t` is the thread of the loop of the connection `c`. -/
def Shared.ConnThread (s : Shared T) (c : ConnId) (t : T) : Prop :=
  ∃ l, s.loopOf c = some l ∧ s.threadId l = some t

/-- The confinement of a call that is executed on `t`. -/
def Call.Confined (s : Shared T) (t : T) : Call T → Prop
  | .connectionEstablished c | .handleRead c | .handleWrite c | .handleClose c
  | .sendInLoop c _ | .shutdownInLoop c | .connectionDestroyed c
  | .handler _ (.conn c) => s.ConnThread c t
  | .newConnection _ | .newConnectionOn _ _ | .removeConnectionInLoop _ | .getNextLoop _
  | .listen | .acceptorHandleRead => s.threadId 0 = some t
  | _ => True

/-- The functor belongs to the loop `l`. -/
def Functor.For (s : Shared T) (l : LoopId) : Functor → Prop
  | .listen | .removeConnectionInLoop _ => l = 0
  | .connectionEstablished c | .connectionDestroyed c | .sendInLoop c _ | .shutdownInLoop c
  | .writeComplete c => s.loopOf c = some l
  | .user => True

/-- The call belongs on the thread `t`. -/
def Call.At (s : Shared T) (t : T) : Call T → Prop
  | .user | .threadFunc | .quit _ | .send _ _ | .shutdown _ | .setDisconnecting _ => True
  | .start | .startListening | .newConnection _ | .removeConnectionInLoop _ | .destroyServer
  | .serverDestroyed | .poolStart | .startThread | .getNextLoop _ | .destroyPool | .quitThread _
  | .join _ | .listen | .acceptorHandleRead | .destroyAcceptor => s.threadId 0 = some t
  | .newConnectionOn _ l => s.threadId 0 = some t ∧ (l = 0 ∨ l ∈ s.loops)
  | .awaitLoop u => s.threadId 0 = some t ∧ u ∈ s.threads
  | .publish l | .loop l | .testQuit l | .pollEvent l | .doPendingFunctors l =>
    s.threadId l = some t
  | .runInLoop l f | .queueInLoop l f =>
    f.For s l ∧ ∀ c, f = .removeConnectionInLoop c → s.ConnThread c t
  | .handleEvent h | .handler _ h => ∃ l, s.homeOf h = some l ∧ s.threadId l = some t
  | .removeConnection c | .sendInLoop c _ | .shutdownInLoop c | .connectionEstablished c
  | .connectionDestroyed c | .handleRead c | .handleWrite c | .outputDrained c | .handleClose c
  | .handleError c => s.ConnThread c t

/-- The queues and the pollers hold what belongs to their loops; the loops of the
pool are those of its threads, and each connection has one of them or the base loop. -/
structure Placed (s : Shared T) : Prop where
  queued : ∀ l, ∀ f ∈ s.pendingFuntors l, f.For s l
  polled : ∀ l fd mask h, (s.pollers l).interest.find fd = some (mask, h) → s.homeOf h = some l
  newLoop : ∀ l, s.loopsNum ≤ l → s.threadId l = none
  newConn : ∀ c, s.nextConnId ≤ c → s.conns.find c = none
  published : ∀ u l, s.ploop u = some l → s.threadId l = some u
  pool : ∀ l ∈ s.loops, ∃ u ∈ s.threads, s.threadId l = some u
  conns : ∀ c l, s.loopOf c = some l → l = 0 ∨ l ∈ s.loops

/-- Loops and connections are never given to another thread or loop. -/
structure Extends (s s' : Shared T) : Prop where
  threadId : ∀ l t, s.threadId l = some t → s'.threadId l = some t
  loopOf : ∀ c l, s.loopOf c = some l → s'.loopOf c = some l
  threads : ∀ u ∈ s.threads, u ∈ s'.threads
  loops : ∀ l ∈ s.loops, l ∈ s'.loops

section

variable {s s' : Shared T} {t : T} {c : ConnId} {l : LoopId} {f : Functor} {h : HandlerId}
variable {calls : List (Call T)}

theorem loopOf_find {k : Connection} (hk : s.conns.find c = some k) :
    s.loopOf c = some k.ioLoop := by
  rw [Shared.loopOf, hk, Option.map_some]

theorem Extends.same (hid : s'.threadId = s.threadId) (hconns : s'.conns = s.conns)
    (hthreads : s'.threads = s.threads) (hloops : s'.loops = s.loops) : Extends s s' := by
  refine ⟨fun l t h => ?_, fun c l h => ?_, fun u h => ?_, fun l h => ?_⟩
  · rwa [hid]
  · rwa [Shared.loopOf, hconns]
  · rwa [hthreads]
  · rwa [hloops]

theorem Extends.connThread (he : Extends s s') (hc : s.ConnThread c t) : s'.ConnThread c t := by
  obtain ⟨l, hl, ht⟩ := hc
  exact ⟨l, he.loopOf c l hl, he.threadId l t ht⟩

theorem Extends.homeOf (he : Extends s s') (hh : s.homeOf h = some l) : s'.homeOf h = some l := by
  cases h with
  | acceptor => exact hh
  | conn c => exact he.loopOf c l hh

theorem Extends.for (he : Extends s s') (hf : f.For s l) : f.For s' l := by
  cases f with
  | listen => exact hf
  | removeConnectionInLoop c => exact hf
  | user => trivial
  | _ => exact he.loopOf _ _ hf

theorem Extends.at (he : Extends s s') {k : Call T} (hk : k.At s t) : k.At s' t := by
  cases k with
  | user => trivial
  | threadFunc => trivial
  | quit l => trivial
  | send c len => trivial
  | shutdown c => trivial
  | setDisconnecting c => trivial
  | newConnectionOn sockfd l => exact ⟨he.threadId _ _ hk.1, hk.2.imp_right (he.loops l)⟩
  | awaitLoop u => exact ⟨he.threadId _ _ hk.1, he.threads u hk.2⟩
  | runInLoop l f => exact ⟨he.for hk.1, fun c hf => he.connThread (hk.2 c hf)⟩
  | queueInLoop l f => exact ⟨he.for hk.1, fun c hf => he.connThread (hk.2 c hf)⟩
  | handleEvent h =>
    obtain ⟨l, hl, ht⟩ := hk
    exact ⟨l, he.homeOf hl, he.threadId l t ht⟩
  | handler op h =>
    obtain ⟨l, hl, ht⟩ := hk
    exact ⟨l, he.homeOf hl, he.threadId l t ht⟩
  | removeConnection c => exact he.connThread hk
  | sendInLoop c len => exact he.connThread hk
  | shutdownInLoop c => exact he.connThread hk
  | connectionEstablished c => exact he.connThread hk
  | connectionDestroyed c => exact he.connThread hk
  | handleRead c => exact he.connThread hk
  | handleWrite c => exact he.connThread hk
  | outputDrained c => exact he.connThread hk
  | handleClose c => exact he.connThread hk
  | handleError c => exact he.connThread hk
  | _ => exact he.threadId _ _ hk

theorem At.confined {k : Call T} (hk : k.At s t) : k.Confined s t := by
  cases k with
  | handler op h =>
    cases h with
    | acceptor => trivial
    | conn c => exact hk
  | newConnectionOn sockfd l => exact hk.1
  | _ => first | exact hk | trivial

/-! ## 2. What the bodies change -/

/-- A body keeps everything in its place and calls what belongs on `t`. -/
def Lands (s : Shared T) (t : T) (x : Except Fault (Body T)) : Prop :=
  Ends x (fun _ => True) fun r => Placed r.1 ∧ Extends s r.1 ∧ ∀ k ∈ r.2, k.At r.1 t

/-- What the places depend on. -/
def Shared.placement (s : Shared T) :=
  (s.threadId, s.loopsNum, s.pendingFuntors, s.pollers, s.ploop, s.threads, s.loops,
    s.nextConnId, s.conns)

theorem Lands.frame (hs : Placed s) (hp : s'.placement = s.placement)
    (hcalls : ∀ k ∈ calls, k.At s t) : Lands s t (.ok (s', calls)) := by
  have hsame : Placed s' ∧ Extends s s' := by
    cases s
    cases s'
    simp only [Shared.placement, Prod.mk.injEq] at hp
    obtain ⟨rfl, rfl, rfl, rfl, rfl, rfl, rfl, rfl, rfl⟩ := hp
    exact ⟨⟨hs.queued, hs.polled, hs.newLoop, hs.newConn, hs.published, hs.pool, hs.conns⟩,
      .same rfl rfl rfl rfl⟩
  exact ⟨hsame.1, hsame.2, fun k hk => hsame.2.at (hcalls k hk)⟩

/-- A body that makes no call. -/
theorem Lands.none (hs : Placed s) (hp : s'.placement = s.placement) :
    Lands s t (.ok (s', [])) :=
  .frame hs hp nofun

/-- A body that makes one call. -/
theorem Lands.one {k : Call T} (hs : Placed s) (hp : s'.placement = s.placement)
    (hk : k.At s t) : Lands s t (.ok (s', [k])) :=
  .frame hs hp (List.forall_mem_singleton.mpr hk)

theorem Lands.check {p : Prop} [Decidable p] {expr : String}
    {body : Unit → Except Fault (Body T)} (hbody : p → Lands s t (body ())) :
    Lands s t (check p expr >>= body) :=
  ends_check trivial hbody

theorem Lands.withConn {body : Connection → Except Fault (Body T)} (hs : Placed s)
    (hbody : ∀ k, s.conns.find c = some k → Lands s t (body k)) :
    Lands s t (s.withConn c body) := by
  unfold Shared.withConn
  split
  · next k hk => exact hbody k hk
  · exact .none hs rfl

theorem loopOf_setConn {k k' : Connection} (hk : s.conns.find c = some k)
    (hio : k'.ioLoop = k.ioLoop) (c' : ConnId) : (s.setConn c k').loopOf c' = s.loopOf c' := by
  unfold Shared.loopOf Shared.setConn
  rw [Table.find_insert]
  split
  · next heq => rw [heq, hk, Option.map_some, Option.map_some, hio]
  · rfl

theorem Lands.setConn {k k' : Connection} (hs : Placed s) (hk : s.conns.find c = some k)
    (hio : k'.ioLoop = k.ioLoop) (hcalls : ∀ x ∈ calls, x.At s t) :
    Lands s t (.ok (s.setConn c k', calls)) := by
  have hloop := loopOf_setConn hk hio
  have he : Extends s (s.setConn c k') :=
    ⟨fun _ _ h => h, fun c' l h => (hloop c').trans h, fun _ h => h, fun _ h => h⟩
  refine ⟨⟨fun l f hf => he.for (hs.queued l f hf), fun l fd mask h hfind => ?_, hs.newLoop,
    fun c' hc' => ?_, hs.published, hs.pool, fun c' l h => ?_⟩, he, fun x hx => he.at (hcalls x hx)⟩
  · exact he.homeOf (hs.polled l fd mask h hfind)
  · have hnone := hs.newConn c' hc'
    have hne : c' ≠ c := by
      rintro rfl
      rw [hk] at hnone
      cases hnone
    rw [Shared.setConn, Table.find_insert, if_neg hne, hnone]
  · rw [hloop] at h
    exact hs.conns c' l h

/-- A poller whose new entries are for a handler of its loop. -/
theorem Lands.setPoller {p : EPollPoller HandlerId} (hs : Placed s) (hh : s.homeOf h = some l)
    (hp : ∀ fd mask h', p.interest.find fd = some (mask, h') →
      h' = h ∨ (s.pollers l).interest.find fd = some (mask, h'))
    (hcalls : ∀ x ∈ calls, x.At s t) : Lands s t (.ok (s.setPoller l p, calls)) := by
  have he : Extends s (s.setPoller l p) :=
    .same rfl rfl rfl rfl
  refine ⟨⟨hs.queued, fun l' fd mask h' hfind => ?_, hs.newLoop, hs.newConn, hs.published, hs.pool,
    hs.conns⟩, he, fun x hx => he.at (hcalls x hx)⟩
  simp only [Shared.setPoller, Function.update_apply] at hfind
  split at hfind
  · next heq =>
    subst heq
    rcases hp fd mask h' hfind with rfl | hold
    · exact hh
    · exact hs.polled l' fd mask h' hold
  · exact hs.polled l' fd mask h' hfind

theorem HandlerOp.run_find {op : HandlerOp} {p q : EPollPoller HandlerId} {h' : HandlerId}
    {fd : Int} {mask : Events} (hrun : op.run p h = .ok q)
    (hfind : q.interest.find fd = some (mask, h')) :
    h' = h ∨ p.interest.find fd = some (mask, h') := by
  cases op with
  | removeHandler => exact EPollPoller.remove_find hrun hfind
  | _ =>
    have hentered := EPollPoller.updateHandler_find hrun hfind
    exact hentered

theorem handler_lands {op : HandlerOp} (hs : Placed s) : Lands s t (s.handler op h) := by
  unfold Shared.handler
  split
  · next l hl =>
    cases hrun : op.run (s.pollers l) h with
    | error e => trivial
    | ok p => exact .setPoller hs hl (fun fd mask h' => HandlerOp.run_find hrun) (by simp)
  · exact .none hs rfl

theorem callback_at {callback : Handler.Callback} (hh : s.homeOf h = some l)
    (ht : s.threadId l = some t) : ∀ k ∈ h.callback callback, k.At s t := by
  intro k hk
  cases h with
  | acceptor =>
    cases hh
    cases callback with
    | read =>
      cases List.mem_singleton.mp hk
      exact ht
    | _ => cases hk
  | conn c =>
    cases callback <;> cases List.mem_singleton.mp hk <;> exact ⟨l, hh, ht⟩

theorem handleEvent_lands (hs : Placed s) (hh : (Call.handleEvent h).At s t) :
    Lands s t (s.handleEvent h) := by
  obtain ⟨l, hl, ht⟩ := hh
  unfold Shared.handleEvent
  rw [hl]
  refine .frame hs rfl fun k hk => ?_
  obtain ⟨callback, -, hk⟩ := List.mem_flatMap.mp hk
  exact callback_at hl ht k hk

theorem pollEvent_lands {b : Choice T} {x : Except Fault (Body T)} (hs : Placed s)
    (hl : (Call.pollEvent l).At s t) (hx : s.pollEvent l b = some x) : Lands s t x := by
  unfold Shared.pollEvent at hx
  split at hx
  · next events =>
    split at hx
    · next hwait =>
      cases hx
      cases hpoll : (s.pollers l).pollEvent (.ok (events.map Prod.snd)) with
      | error e => trivial
      | ok r =>
        obtain ⟨p, active⟩ := r
        obtain ⟨hinterest, rfl⟩ := EPollPoller.pollEvent_spec hpoll
        have hhome : ∀ l',
            (Function.update s.pollers l p l').interest = (s.pollers l').interest := by
          intro l'
          rw [Function.update_apply]
          split
          · next heq => rw [hinterest, heq]
          · rfl
        have he : Extends s (s.setPoller l p) :=
          .same rfl rfl rfl rfl
        refine ⟨⟨hs.queued, fun l' fd mask h hfind => ?_, hs.newLoop, hs.newConn, hs.published,
          hs.pool, hs.conns⟩, he, fun k hk => ?_⟩
        · exact hs.polled l' fd mask h (hhome l' ▸ hfind)
        · -- what is reported is in the interest set
          obtain ⟨h, hmem, rfl⟩ := List.mem_map.mp hk
          simp only [List.map_map, List.mem_map] at hmem
          obtain ⟨e, he, rfl⟩ := hmem
          obtain ⟨mask, hfind, -⟩ := hwait.2.2 e he
          exact ⟨l, hs.polled l e.1 mask e.2.2 hfind, hl⟩
    · cases hx
  · cases hx

theorem loopOf_create {sockfd : Int} (c : ConnId) :
    (s.create sockfd l).loopOf c = if c = s.nextConnId then some l else s.loopOf c := by
  unfold Shared.loopOf Shared.create
  rw [Table.find_insert]
  split <;> rfl

theorem create_extends {sockfd : Int} (hs : Placed s) : Extends s (s.create sockfd l) := by
  refine ⟨fun _ _ h => h, fun c l' h => ?_, fun _ h => h, fun _ h => h⟩
  rw [loopOf_create, if_neg, h]
  rintro rfl
  simp [Shared.loopOf, hs.newConn s.nextConnId (Nat.le_refl _)] at h

/-- The new connection gets one of the pool's loops or the base loop. -/
theorem create_placed {sockfd : Int} (hs : Placed s) (hl : l = 0 ∨ l ∈ s.loops) :
    Placed (s.create sockfd l) := by
  have he : Extends s (s.create sockfd l) := create_extends hs
  refine ⟨fun l' f hf => he.for (hs.queued l' f hf), fun l' fd mask h hfind => ?_, hs.newLoop,
    fun c hc => ?_, hs.published, hs.pool, fun c l' h => ?_⟩
  · refine he.homeOf (hs.polled l' fd mask h ?_)
    simp only [Shared.create, Function.update_apply] at hfind
    split at hfind
    · next heq => exact heq ▸ hfind
    · exact hfind
  · have hne : c ≠ s.nextConnId := Nat.ne_of_gt hc
    rw [Shared.create, Table.find_insert, if_neg hne]
    exact hs.newConn c (Nat.le_of_succ_le hc)
  · rw [loopOf_create] at h
    split at h
    · cases h
      exact hl
    · exact hs.conns c l' h

theorem newConnectionOn_lands {sockfd : Int} (hs : Placed s)
    (hk : (Call.newConnectionOn sockfd l).At s t) : Lands s t (s.newConnectionOn sockfd l) := by
  refine ⟨create_placed hs hk.2, create_extends hs, fun k hk' => ?_⟩
  cases List.mem_singleton.mp hk'
  refine ⟨?_, nofun⟩
  show (s.create sockfd l).loopOf _ = some l
  rw [loopOf_create, if_pos rfl]

theorem threadFunc_lands [DecidableEq T] (hs : Placed s) : Lands s t (s.threadFunc t) := by
  have hkeep : ∀ l u, s.threadId l = some u → (s.construct t).threadId l = some u := by
    intro l u h
    show Function.update s.threadId s.loopsNum (some t) l = some u
    rw [Function.update_of_ne, h]
    rintro rfl
    rw [hs.newLoop _ (Nat.le_refl _)] at h
    cases h
  refine ⟨⟨hs.queued, hs.polled, fun l hl => ?_, hs.newConn,
    fun u l h => hkeep l u (hs.published u l h), fun l hl => ?_, hs.conns⟩,
    ⟨hkeep, fun _ _ h => h, fun _ h => h, fun _ h => h⟩, ?_⟩
  · show Function.update s.threadId s.loopsNum (some t) l = none
    rw [Function.update_of_ne (Nat.ne_of_gt hl), hs.newLoop l (Nat.le_of_succ_le hl)]
  · obtain ⟨u, hu, hl'⟩ := hs.pool l hl
    exact ⟨u, hu, hkeep l u hl'⟩
  · simp [Call.At, Shared.construct]

theorem publish_lands [DecidableEq T] (hs : Placed s) (hl : (Call.publish l).At s t) :
    Lands s t (s.publish t l) := by
  refine ⟨⟨hs.queued, hs.polled, hs.newLoop, hs.newConn, fun u l' h => ?_, hs.pool, hs.conns⟩,
    .same rfl rfl rfl rfl, by simp⟩
  simp only [Function.update_apply] at h
  split at h
  · next heq =>
    cases h
    exact heq ▸ hl
  · exact hs.published u l' h

theorem startThread_lands {b : Choice T} {x : Except Fault (Body T)} (hs : Placed s)
    (hk : Call.startThread.At s t) (hx : s.startThread b = some x) : Lands s t x := by
  unfold Shared.startThread at hx
  split at hx
  · next u =>
    cases hx
    have he : Extends s { s with threads := s.threads ++ [u] } :=
      ⟨fun _ _ h => h, fun _ _ h => h, fun v hv => List.mem_append_left _ hv, fun _ h => h⟩
    refine ⟨⟨hs.queued, hs.polled, hs.newLoop, hs.newConn, hs.published, fun l hl => ?_, hs.conns⟩,
      he, fun k hk' => ?_⟩
    · obtain ⟨v, hv, hl'⟩ := hs.pool l hl
      exact ⟨v, he.threads v hv, hl'⟩
    · cases List.mem_singleton.mp hk'
      exact ⟨hk, List.mem_append_right _ List.mem_cons_self⟩
  · cases hx

theorem awaitLoop_lands {u : T} {x : Except Fault (Body T)} (hs : Placed s)
    (hk : (Call.awaitLoop u).At s t) (hx : s.awaitLoop u = some x) : Lands s t x := by
  obtain ⟨l, hl, rfl⟩ := Option.map_eq_some_iff.mp hx
  have he : Extends s { s with loops := s.loops ++ [l] } :=
    ⟨fun _ _ h => h, fun _ _ h => h, fun _ h => h, fun l' hl' => List.mem_append_left _ hl'⟩
  refine ⟨⟨hs.queued, hs.polled, hs.newLoop, hs.newConn, hs.published, fun l' hl' => ?_,
    fun c l' h => (hs.conns c l' h).imp_right (he.loops l')⟩, he, by simp⟩
  rcases List.mem_append.mp hl' with hold | hnew
  · exact hs.pool l' hold
  · cases List.mem_singleton.mp hnew
    exact ⟨u, hk.2, hs.published u l hl⟩

/-- A queue whose functors belong to its loop. -/
theorem Lands.setQueue {q : List Functor} (hs : Placed s) (hq : ∀ g ∈ q, g.For s l)
    (hcalls : ∀ x ∈ calls, x.At s t) :
    Lands s t (.ok ({ s with pendingFuntors := Function.update s.pendingFuntors l q }, calls)) := by
  have he : Extends s { s with pendingFuntors := Function.update s.pendingFuntors l q } :=
    .same rfl rfl rfl rfl
  refine ⟨⟨fun l' g hg => ?_, hs.polled, hs.newLoop, hs.newConn, hs.published, hs.pool, hs.conns⟩,
    he, fun x hx => he.at (hcalls x hx)⟩
  simp only [Function.update_apply] at hg
  split at hg
  · next heq => exact heq ▸ hq g hg
  · exact hs.queued l' g hg

theorem queueInLoop_lands (hs : Placed s) (hf : f.For s l) : Lands s t (s.queueInLoop l f) := by
  refine .setQueue hs (fun g hg => ?_) nofun
  rcases List.mem_append.mp hg with hold | hnew
  · exact hs.queued l g hold
  · cases List.mem_singleton.mp hnew
    exact hf

/-- A functor of a loop is executed on the thread of the loop. -/
theorem Functor.call_at (hf : f.For s l) (ht : s.threadId l = some t) :
    (f.call : Call T).At s t := by
  cases f with
  | listen =>
    cases hf
    exact ht
  | removeConnectionInLoop c =>
    cases hf
    exact ht
  | writeComplete c => trivial
  | user => trivial
  | _ => exact ⟨l, hf, ht⟩

theorem doPendingFunctors_lands (hs : Placed s) (ht : s.threadId l = some t) :
    Lands s t (s.doPendingFunctors l) := by
  refine .setQueue hs nofun fun k hk => ?_
  obtain ⟨f, hf, rfl⟩ := List.mem_map.mp hk
  exact Functor.call_at (hs.queued l f hf) ht

theorem runInLoop_lands [DecidableEq T] (hs : Placed s) (hk : (Call.runInLoop l f).At s t) :
    Lands s t (s.runInLoop t l f) := by
  refine .frame hs rfl fun k hk' => ?_
  split at hk'
  · next ht =>
    cases List.mem_singleton.mp hk'
    exact Functor.call_at hk.1 ht
  · cases List.mem_singleton.mp hk'
    exact hk

/-! ## 3. The functions of a connection -/

theorem send_lands [DecidableEq T] {len : Nat} (hs : Placed s) : Lands s t (s.send t c len) := by
  refine .withConn hs fun k hk => ?_
  have hloop := loopOf_find hk
  split
  · refine .frame hs rfl fun x hx => ?_
    split at hx
    · next ht =>
      cases List.mem_singleton.mp hx
      exact ⟨k.ioLoop, hloop, ht⟩
    · cases List.mem_singleton.mp hx
      exact ⟨hloop, nofun⟩
  · exact .none hs rfl

theorem queueWriteComplete_at {k : Connection} (hk : s.conns.find c = some k) :
    ∀ x ∈ s.queueWriteComplete c k, x.At s t := by
  intro x hx
  unfold Shared.queueWriteComplete at hx
  split at hx
  · cases List.mem_singleton.mp hx
    exact ⟨loopOf_find hk, nofun⟩
  · cases hx

theorem sendInLoop_lands {len : Nat} {b : Choice T} {x : Except Fault (Body T)} (hs : Placed s)
    (hc : s.ConnThread c t) (hx : s.sendInLoop c len b = some x) : Lands s t x := by
  unfold Shared.sendInLoop at hx
  split at hx
  · next r =>
    split at hx
    · cases hx
      refine .withConn hs fun k hk => ?_
      obtain ⟨remaining, complete⟩ := s.directWrite c k len r
      refine Lands.check fun _ => ?_
      split
      · refine .setConn hs hk rfl fun y hy => ?_
        split at hy
        · cases hy
        · cases List.mem_singleton.mp hy
          exact hc
      · refine .frame hs rfl fun y hy => ?_
        split at hy
        · exact queueWriteComplete_at hk y hy
        · cases hy
    · cases hx
  · cases hx

theorem shutdown_lands (hs : Placed s) : Lands s t (s.shutdown c) := by
  refine .withConn hs fun k hk => .frame hs rfl fun x hx => ?_
  split at hx
  · rcases List.mem_cons.mp hx with rfl | hx
    · trivial
    · cases List.mem_singleton.mp hx
      exact ⟨loopOf_find hk, nofun⟩
  · cases hx

theorem setDisconnecting_lands (hs : Placed s) : Lands s t (s.setDisconnecting c) :=
  .withConn hs fun _ hk => .setConn hs hk rfl (by simp)

theorem connectionEstablished_lands (hs : Placed s) (hc : s.ConnThread c t) :
    Lands s t (s.connectionEstablished c) := by
  refine .withConn hs fun k hk => .check fun _ => .setConn hs hk rfl fun x hx => ?_
  rcases List.mem_cons.mp hx with rfl | hx
  · exact hc
  · cases List.mem_singleton.mp hx
    trivial

theorem connectionDestroyed_lands (hs : Placed s) (hc : s.ConnThread c t) :
    Lands s t (s.connectionDestroyed c) := by
  refine .withConn hs fun k hk => .setConn hs hk rfl fun x hx => ?_
  rcases List.mem_cons.mp hx with rfl | hx
  · exact hc
  · rcases List.mem_cons.mp hx with rfl | hx
    · trivial
    · cases List.mem_singleton.mp hx
      exact hc

theorem handleRead_lands {b : Choice T} {x : Except Fault (Body T)} (hs : Placed s)
    (hc : s.ConnThread c t) (hx : s.handleRead c b = some x) : Lands s t x := by
  unfold Shared.handleRead at hx
  split at hx
  · cases hx
    exact .one hs rfl hc
  · cases hx
    exact .one hs rfl trivial
  · cases hx
    exact .one hs rfl hc
  · cases hx

theorem handleWrite_lands {b : Choice T} {x : Except Fault (Body T)} (hs : Placed s)
    (hc : s.ConnThread c t) (hx : s.handleWrite c b = some x) : Lands s t x := by
  unfold Shared.handleWrite at hx
  split at hx
  · next r =>
    split at hx
    · cases hx
      refine .withConn hs fun k hk => ?_
      split
      · split
        · exact .none hs rfl
        · next n =>
          refine .setConn hs hk rfl fun x hx => ?_
          split at hx
          · rcases List.mem_append.mp hx with hx | hx
            · rcases List.mem_cons.mp hx with rfl | hx
              · exact hc
              · exact queueWriteComplete_at hk x hx
            · cases List.mem_singleton.mp hx
              exact hc
          · cases hx
      · exact .none hs rfl
    · cases hx
  · cases hx

theorem outputDrained_lands (hs : Placed s) (hc : s.ConnThread c t) :
    Lands s t (s.outputDrained c) := by
  refine .withConn hs fun k hk => .frame hs rfl fun x hx => ?_
  split at hx
  · cases List.mem_singleton.mp hx
    exact hc
  · cases hx

theorem handleClose_lands (hs : Placed s) (hc : s.ConnThread c t) :
    Lands s t (s.handleClose c) := by
  refine .withConn hs fun k hk => .check fun _ => .setConn hs hk rfl fun x hx => ?_
  rcases List.mem_cons.mp hx with rfl | hx
  · exact hc
  · rcases List.mem_cons.mp hx with rfl | hx
    · trivial
    · cases List.mem_singleton.mp hx
      exact hc

/-! ## 4. The functions of the server and its loops -/

theorem user_lands [DecidableEq T] {stack : List (Call T)} {b : Choice T}
    {x : Except Fault (Body T)} (hs : Placed s) (hx : s.user stack t b = some x) : Lands s t x := by
  unfold Shared.user at hx
  split at hx
  · cases hx
    exact .none hs rfl
  · next u =>
    split at hx
    · next hallowed =>
      cases hx
      have hcalls : ∀ k ∈ (u.calls : List (Call T)), k.At s t := by
        intro k hk
        cases u with
        | runInLoop l =>
          cases List.mem_singleton.mp hk
          exact ⟨trivial, nofun⟩
        | queueInLoop l =>
          cases List.mem_singleton.mp hk
          exact ⟨trivial, nofun⟩
        | destroyServer =>
          rcases List.mem_cons.mp hk with rfl | hk
          · exact hallowed.1
          · cases List.mem_singleton.mp hk
            exact hallowed.1
        | start =>
          cases List.mem_singleton.mp hk
          exact hallowed.1
        | loop =>
          cases List.mem_singleton.mp hk
          exact hallowed
        | _ =>
          cases List.mem_singleton.mp hk
          trivial
      refine .frame hs (by cases u <;> rfl) fun k hk => ?_
      rcases List.mem_append.mp hk with hk | hk
      · exact hcalls k hk
      · cases List.mem_singleton.mp hk
        trivial
    · cases hx
  · cases hx

theorem start_lands (hs : Placed s) (ht : s.threadId 0 = some t) : Lands s t s.start := by
  refine .frame hs rfl fun k hk => ?_
  rcases List.mem_append.mp hk with hk | hk
  · split at hk
    · cases hk
    · cases List.mem_singleton.mp hk
      exact ht
  · cases List.mem_singleton.mp hk
    exact ht

theorem startListening_lands (hs : Placed s) : Lands s t s.startListening := by
  refine .frame hs rfl fun k hk => ?_
  split at hk
  · cases hk
  · cases List.mem_singleton.mp hk
    exact ⟨rfl, nofun⟩

theorem removeConnection_lands (hs : Placed s) (hc : s.ConnThread c t) :
    Lands s t (s.removeConnection c) := by
  refine .one hs rfl ⟨rfl, fun c' hc' => ?_⟩
  cases hc'
  exact hc

theorem removeConnectionInLoop_lands (hs : Placed s) : Lands s t (s.removeConnectionInLoop c) := by
  refine .withConn hs fun k hk => .one hs rfl ?_
  exact ⟨loopOf_find hk, nofun⟩

theorem destroyServer_lands (hs : Placed s) (ht : s.threadId 0 = some t) :
    Lands s t s.destroyServer := by
  refine .frame hs rfl fun k hk => ?_
  rcases List.mem_append.mp hk with hk | hk
  · obtain ⟨c, -, hk⟩ := List.mem_filterMap.mp hk
    obtain ⟨l, hl, rfl⟩ := Option.map_eq_some_iff.mp hk
    exact ⟨hl, nofun⟩
  · rcases List.mem_cons.mp hk with rfl | hk
    · exact ht
    · cases List.mem_singleton.mp hk
      exact ht

theorem poolStart_lands (hs : Placed s) (ht : s.threadId 0 = some t) : Lands s t s.poolStart := by
  refine Lands.check fun _ => .frame hs rfl fun k hk => ?_
  rcases List.mem_append.mp hk with hk | hk
  · cases List.eq_of_mem_replicate hk
    exact ht
  · split at hk
    · cases List.mem_singleton.mp hk
      trivial
    · cases hk

theorem getNextLoop_lands {sockfd : Int} (hs : Placed s) (ht : s.threadId 0 = some t) :
    Lands s t (s.getNextLoop sockfd) := by
  unfold Shared.getNextLoop
  split
  · exact .one hs rfl ⟨ht, .inl rfl⟩
  · split
    · trivial
    · next l hl => exact .one hs rfl ⟨ht, .inr (List.mem_of_getElem? hl)⟩

theorem destroyPool_lands (hs : Placed s) (ht : s.threadId 0 = some t) :
    Lands s t s.destroyPool := by
  refine .frame hs rfl fun k hk => ?_
  obtain ⟨u, -, hk⟩ := List.mem_flatMap.mp hk
  rcases List.mem_cons.mp hk with rfl | hk
  · exact ht
  · cases List.mem_singleton.mp hk
    exact ht

theorem loop_lands (hs : Placed s) (ht : s.threadId l = some t) : Lands s t (s.loop l) :=
  Lands.check fun _ => .one hs rfl ht

theorem testQuit_lands (hs : Placed s) (ht : s.threadId l = some t) :
    Lands s t (s.testQuit l) := by
  unfold Shared.testQuit
  split
  · exact .none hs rfl
  · exact .frame hs rfl (by simp [Call.At, ht])

theorem quitThread_lands {u : T} {x : Except Fault (Body T)} (hs : Placed s)
    (hx : s.quitThread u = some x) : Lands s t x := by
  obtain ⟨l, -, rfl⟩ := Option.map_eq_some_iff.mp hx
  exact .none hs rfl

theorem join_lands {stack : T → List (Call T)} {u : T} {x : Except Fault (Body T)} (hs : Placed s)
    (hx : s.join stack u = some x) : Lands s t x := by
  unfold Shared.join at hx
  split at hx
  · cases hx
    exact .none hs rfl
  · cases hx

theorem listen_lands (hs : Placed s) (ht : s.threadId 0 = some t) : Lands s t s.listen :=
  .one hs rfl ⟨0, rfl, ht⟩

theorem acceptorHandleRead_lands {b : Choice T} {x : Except Fault (Body T)} (hs : Placed s)
    (ht : s.threadId 0 = some t) (hx : s.acceptorHandleRead b = some x) : Lands s t x := by
  unfold Shared.acceptorHandleRead at hx
  split at hx
  · cases hx
    refine .frame hs rfl fun k hk => ?_
    split at hk
    · cases List.mem_singleton.mp hk
      exact ht
    · cases hk
  · cases hx

theorem destroyAcceptor_lands (hs : Placed s) (ht : s.threadId 0 = some t) :
    Lands s t s.destroyAcceptor := by
  refine .frame hs rfl fun k hk => ?_
  rcases List.mem_cons.mp hk with rfl | hk
  · exact ⟨0, rfl, ht⟩
  · cases List.mem_singleton.mp hk
    exact ⟨0, rfl, ht⟩

/-! ## 5. Every run -/

theorem Lands.body {x y : Except Fault (Body T)} (hx : some y = some x) (hy : Lands s t y) :
    Lands s t x :=
  Option.some_injective _ hx ▸ hy

/-- A function that runs where it belongs keeps everything in its place. -/
theorem body_lands [DecidableEq T] {stack : T → List (Call T)} {b : Choice T} {k : Call T}
    {x : Except Fault (Body T)} (hs : Placed s) (hk : k.At s t) (hx : s.body stack t b k = some x) :
    Lands s t x := by
  cases k with
  | user => exact user_lands hs hx
  | startThread => exact startThread_lands hs hk hx
  | awaitLoop u => exact awaitLoop_lands hs hk hx
  | quitThread u => exact quitThread_lands hs hx
  | join u => exact join_lands hs hx
  | pollEvent l => exact pollEvent_lands hs hk hx
  | acceptorHandleRead => exact acceptorHandleRead_lands hs hk hx
  | sendInLoop c len => exact sendInLoop_lands hs hk hx
  | handleRead c => exact handleRead_lands hs hk hx
  | handleWrite c => exact handleWrite_lands hs hk hx
  | start => exact .body hx (start_lands hs hk)
  | startListening => exact .body hx (startListening_lands hs)
  | newConnection sockfd => exact .body hx (.one hs rfl hk)
  | newConnectionOn sockfd l => exact .body hx (newConnectionOn_lands hs hk)
  | removeConnection c => exact .body hx (removeConnection_lands hs hk)
  | removeConnectionInLoop c => exact .body hx (removeConnectionInLoop_lands hs)
  | destroyServer => exact .body hx (destroyServer_lands hs hk)
  | poolStart => exact .body hx (poolStart_lands hs hk)
  | getNextLoop sockfd => exact .body hx (getNextLoop_lands hs hk)
  | destroyPool => exact .body hx (destroyPool_lands hs hk)
  | threadFunc => exact .body hx (threadFunc_lands hs)
  | publish l => exact .body hx (publish_lands hs hk)
  | loop l => exact .body hx (loop_lands hs hk)
  | testQuit l => exact .body hx (testQuit_lands hs hk)
  | doPendingFunctors l => exact .body hx (doPendingFunctors_lands hs hk)
  | runInLoop l f => exact .body hx (runInLoop_lands hs hk)
  | queueInLoop l f => exact .body hx (queueInLoop_lands hs hk.1)
  | listen => exact .body hx (listen_lands hs hk)
  | destroyAcceptor => exact .body hx (destroyAcceptor_lands hs hk)
  | handleEvent h => exact .body hx (handleEvent_lands hs hk)
  | handler op h => exact .body hx (handler_lands hs)
  | send c len => exact .body hx (send_lands hs)
  | shutdown c => exact .body hx (shutdown_lands hs)
  | setDisconnecting c => exact .body hx (setDisconnecting_lands hs)
  | connectionEstablished c => exact .body hx (connectionEstablished_lands hs hk)
  | connectionDestroyed c => exact .body hx (connectionDestroyed_lands hs hk)
  | outputDrained c => exact .body hx (outputDrained_lands hs hk)
  | handleClose c => exact .body hx (handleClose_lands hs hk)
  | serverDestroyed => exact .body hx (.none hs rfl)
  | quit l => exact .body hx (.none hs rfl)
  | shutdownInLoop c => exact .body hx (.none hs rfl)
  | handleError c => exact .body hx (.none hs rfl)

theorem starts_at {b : Choice T} {k : Call T} : ∀ x ∈ k.starts b, x.2.At s x.1 := by
  intro x hx
  unfold Call.starts at hx
  split at hx
  · cases hx
    trivial
  · cases hx

/-- A body is executed while nothing has crashed, and it ends in a result or in a
crash. -/
theorem exec_ok [DecidableEq T] {stack : T → List (Call T)} {b : Choice T} {k : Call T}
    {r : Threads.Result T (Call T) (Shared T)} (hexec : (program T).exec s stack t k b = some r) :
    s.crashed = none ∧
      ((∃ r', s.body stack t b k = some (.ok r') ∧ r = ⟨r'.1, r'.2, k.starts b⟩) ∨
        ∃ e, r = ⟨{ s with crashed := some e }, [], none⟩) := by
  simp only [program] at hexec
  split at hexec
  · next hcrashed =>
    obtain ⟨x, hx, rfl⟩ := Option.map_eq_some_iff.mp hexec
    cases x with
    | error e => exact ⟨hcrashed, .inr ⟨e, rfl⟩⟩
    | ok r' => exact ⟨hcrashed, .inl ⟨r', hx, rfl⟩⟩
  · cases hexec

theorem program_confines [DecidableEq T] :
    Threads.Confines (program T) Placed fun s t k => k.At s t := by
  refine ⟨fun _ _ => trivial, fun s stack t k b r hs hk hexec => ?_⟩
  rcases (exec_ok hexec).2 with ⟨r, hr, rfl⟩ | ⟨e, rfl⟩
  · obtain ⟨hs', he, hcalls⟩ := body_lands hs hk hr
    exact ⟨hs', hcalls, starts_at, fun _ _ => he.at⟩
  · have hframe : Lands s t (.ok ({ s with crashed := some e }, [])) := .none hs rfl
    exact ⟨hframe.1, nofun, nofun, fun _ _ => hframe.2.1.at⟩

theorem constructed_confined [DecidableEq T] {base : T} {threadsNum : Nat} {listenfd : Int}
    {cb asserts : Bool} :
    Threads.Confined Placed (fun s t k => k.At s t)
      (constructed base threadsNum listenfd cb asserts) := by
  refine ⟨⟨?_, ?_, ?_, ?_, ?_, ?_, ?_⟩, fun t k hk => ?_, ?_⟩
  · simp [constructed]
  · simp [constructed, EPollPoller.make]
  · intro l hl
    show Function.update (fun _ => none) 0 (some base) l = none
    rw [Function.update_of_ne (Nat.ne_of_gt hl)]
  · simp [constructed]
  · simp [constructed]
  · simp [constructed]
  · simp [constructed, Shared.loopOf]
  · simp only [constructed, Function.update_apply] at hk
    split at hk
    · cases List.mem_singleton.mp hk
      trivial
    · cases hk
  · simp [constructed]

theorem reachable_confined [DecidableEq T] {s : State T} (hs : (machine T).Reachable s) :
    Threads.Confined Placed (fun s t k => k.At s t) s := by
  refine program_confines.reachable ?_ hs
  rintro s ⟨base, threadsNum, listenfd, cb, asserts, rfl⟩
  exact constructed_confined

/-- Thread confinement: whatever the threads, the events and the user's calls,
each function of a connection and each call of the poller for it is executed on
the thread of the connection's loop, and each function of the server on the
thread of the base loop. -/
theorem calls_confined [DecidableEq T] {s : State T} (hs : (machine T).Reachable s) :
    ∀ e ∈ s.trace, e.call.Confined e.shared e.thread :=
  fun e he => At.confined ((reachable_confined hs).trace e he)

/-- Thread 0 starts a server with one thread more and accepts a connection, which
is established on the loop of that thread. -/
def opened : List (Act Nat) :=
  [.run 0 (.call .start), .run 0 .go, .run 0 .go, .run 0 (.thread 1),
    .run 1 .go, .run 1 .go, .run 1 .go,
    .run 0 .go, .run 0 .go, .run 0 .go, .run 0 .go, .run 0 .go, .run 1 .go, .run 1 .go,
    .run 0 (.call .loop), .run 0 .go, .run 0 .go, .run 0 (.poll [(3, EPOLLIN, .acceptor)]),
    .run 0 .go, .run 0 (.accept 7), .run 0 .go, .run 0 .go, .run 0 .go, .run 0 .go, .run 0 .go,
    .run 1 (.poll []), .run 1 .go, .run 1 .go, .run 1 .go, .run 1 .go, .run 1 .go]

/-- A third thread sends, and the peer closes. -/
def threeThreads : List (Act Nat) :=
  opened ++ [.begin 2, .run 2 (.call (.send 1 5)), .run 2 .go, .run 2 .go, .run 2 .go,
    .run 1 (.poll [(7, EPOLLIN, .conn 1)]), .run 1 .go, .run 1 (.read (.bytes [])),
    .run 1 .go, .run 1 .go, .run 1 .go, .run 1 .go, .run 1 .go, .run 1 .go, .run 1 .go,
    .run 1 (.write (.wrote 5)), .run 0 .go, .run 0 .go, .run 0 .go]

theorem threeThreads_confined :
    ∃ s, (machine Nat).run (constructed 0 1 3 false true) threeThreads = some s ∧
      s.trace.filterMap (fun e => if e.call = .sendInLoop 1 5 ∨ e.call = .handleClose 1 ∨
        e.call = .removeConnectionInLoop 1 then some e.thread else none) = [1, 1, 0] ∧
      ∀ e ∈ s.trace, e.call.Confined e.shared e.thread := by
  have hthreads : ((machine Nat).run (constructed 0 1 3 false true) threeThreads).map (fun s =>
      s.trace.filterMap fun e => if e.call = .sendInLoop 1 5 ∨ e.call = .handleClose 1 ∨
        e.call = .removeConnectionInLoop 1 then some e.thread else none) = some [1, 1, 0] := by
    decide +kernel
  obtain ⟨s, hrun, hs⟩ := Option.map_eq_some_iff.mp hthreads
  exact ⟨s, hrun, hs, calls_confined ⟨_, _, ⟨0, 1, 3, false, true, rfl⟩, hrun⟩⟩

end

end ServerThreads

end NetFrame
