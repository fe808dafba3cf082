import NetFrame.Confinement

/-!
# The destruction of TcpServer

`~TcpServer` on the thread of the base loop, while the pool's loops still handle
events, and the base loop after it. The close callback and the functor that it
posts are bound to the raw server pointer.

Results:
1. `late_removals`: two runs in which `removeConnectionInLoop` is executed on the
   destroyed server.
2. `no_late_removal`: it is not executed after the destruction in any run in which
   nothing bound to the server is left on the base loop when the destruction ends,
   and no connection of the base loop is closed after it.
-/

namespace NetFrame

namespace ServerThreads

open Outcome Threads

/-! ## 1. Removals after the destruction -/

/-- No functor bound to the server has been executed after its destruction. -/
def NoLateRemoval {T : Type} (s : State T) : Prop :=
  ∀ e ∈ s.trace, ∀ c, e.call = .removeConnectionInLoop c → e.shared.phase ≠ .destroyed

/-- The base loop destroys the server in a functor. Meanwhile the loop of the pool
handles a close, and posts the removal to the base loop before it is joined. -/
def closeDuringDestruction : List (Act Nat) :=
  opened ++ [.begin 2, .run 2 (.call (.queueInLoop 0)), .run 2 .go,
    .run 0 .go, .run 0 (.call .destroyServer),
    .run 1 (.poll [(7, EPOLLIN, .conn 1)]), .run 1 .go, .run 1 (.read (.bytes [])), .run 1 .go,
    .run 1 .go, .run 1 .go, .run 1 .go, .run 1 .go, .run 1 .go, .run 1 .go,
    .run 0 .go, .run 0 .go, .run 0 .go, .run 1 .go, .run 0 .go, .run 0 .go, .run 0 .go, .run 0 .go,
    .run 0 .go, .run 0 .go, .run 0 .go, .run 0 (.poll []), .run 0 .go, .run 0 .go]

/-- Without a pool, the connection is on the base loop, which runs again after the
destruction and handles the close. -/
def closeAfterDestruction : List (Act Nat) :=
  [.run 0 (.call .start), .run 0 .go, .run 0 .go, .run 0 .go, .run 0 .go, .run 0 .go, .run 0 .go,
    .run 0 .go, .run 0 (.call .loop), .run 0 .go, .run 0 .go,
    .run 0 (.poll [(3, EPOLLIN, .acceptor)]), .run 0 .go, .run 0 (.accept 7),
    .run 0 .go, .run 0 .go, .run 0 .go, .run 0 .go, .run 0 .go, .run 0 .go,
    .run 0 (.call (.quit 0)), .run 0 .go, .run 0 .go, .run 0 .go, .run 0 .go,
    .run 0 (.call .destroyServer), .run 0 .go, .run 0 .go, .run 0 .go, .run 0 .go, .run 0 .go,
    .run 0 .go, .run 0 (.call .loop), .run 0 .go, .run 0 .go,
    .run 0 (.poll [(7, EPOLLIN, .conn 1)]), .run 0 .go, .run 0 (.read (.bytes [])), .run 0 .go,
    .run 0 .go, .run 0 .go, .run 0 .go, .run 0 .go, .run 0 .go]

theorem lateRemoval {x : Option (State Nat)}
    (h : x.any fun s => s.trace.any fun e =>
      e.call = .removeConnectionInLoop 1 ∧ e.shared.phase = .destroyed) :
    ∃ s, x = some s ∧ ¬ NoLateRemoval s := by
  obtain ⟨s, hx, hs⟩ := (Option.any_eq_true _ _).mp h
  refine ⟨s, hx, fun hno => ?_⟩
  obtain ⟨e, he, hlate⟩ := List.any_eq_true.mp hs
  obtain ⟨hcall, hphase⟩ := of_decide_eq_true hlate
  exact hno e he 1 hcall hphase

/-- The destruction leaves the functor of a late close in the queue of the base
loop, and the close callback in the connections of the base loop. -/
theorem late_removals :
    (∃ s, (machine Nat).run (constructed 0 1 3 false false) closeDuringDestruction = some s ∧
      ¬ NoLateRemoval s) ∧
    ∃ s, (machine Nat).run (constructed 0 0 3 false false) closeAfterDestruction = some s ∧
      ¬ NoLateRemoval s :=
  ⟨lateRemoval (by decide +kernel), lateRemoval (by decide +kernel)⟩

/-! ## 2. What is left of the server -/

variable {T : Type}

/-- The functor is bound to the raw server pointer. -/
def Functor.bound : Functor → Bool
  | .removeConnectionInLoop _ => true
  | _ => false

/-- The call is of the close callback or of what it posts. -/
def Call.bound : Call T → Bool
  | .removeConnection _ | .removeConnectionInLoop _ => true
  | .runInLoop _ f | .queueInLoop _ f => f.bound
  | _ => false

/-- When the destruction ends, the thread that destroys the server has no call of
the close callback to return to and the base loop has no functor of it in its
queue; after it, no connection of the base loop is closed. -/
def Settled (s : State T) : Act T → Prop
  | .run t _ =>
    match s.stack t with
    | .serverDestroyed :: rest =>
      (∀ k ∈ rest, k.bound = false) ∧ ∀ f ∈ s.shared.pendingFuntors 0, f.bound = false
    | .handleClose c :: _ => s.shared.phase = .destroyed → s.shared.loopOf c ≠ some 0
    | _ => True
  | .begin _ => True

instance (s : State T) (a : Act T) : Decidable (Settled s a) := by
  unfold Settled
  split
  · split <;> infer_instance
  · infer_instance

/-! ## 3. What the calls lead to -/

/-- The call is not of the server's start or end, and carries nothing bound to it. -/
def Call.plain : Call T → Bool
  | .serverDestroyed | .start | .startListening | .poolStart | .startThread | .awaitLoop _
  | .removeConnection _ | .removeConnectionInLoop _ => false
  | .runInLoop _ f | .queueInLoop _ f => !f.bound
  | _ => true

theorem plain_spec {k : Call T} (hk : k.plain = true) :
    k ≠ .serverDestroyed ∧ k.inStart = false ∧ k.bound = false := by
  cases k with
  | runInLoop l f => exact ⟨nofun, rfl, by simpa [Call.plain, Call.bound] using hk⟩
  | queueInLoop l f => exact ⟨nofun, rfl, by simpa [Call.plain, Call.bound] using hk⟩
  | _ => first | exact Bool.noConfusion hk | exact ⟨nofun, rfl, rfl⟩

/-- Where a bound call comes from. -/
def Call.Binds (s : Shared T) (k : Call T) : Prop :=
  k.bound = true ∨ (∃ c, k = .handleClose c) ∨
    ∃ l, k = .doPendingFunctors l ∧ ∃ f ∈ s.pendingFuntors l, f.bound = true

/-- What a body can do to the server's end, unless it begins it. -/
structure Does (s : Shared T) (k : Call T) (r : Body T) : Prop where
  phase : r.1.phase = s.phase ∨ k = .serverDestroyed ∧ r.1.phase = .destroyed
  threads : r.1.threads = s.threads ∨ k = .startThread
  queued : ∀ f ∈ r.1.pendingFuntors 0, f ∈ s.pendingFuntors 0 ∨ k = .queueInLoop 0 f
  ends : .serverDestroyed ∉ r.2
  starts : ∀ k' ∈ r.2, k'.inStart = true → k.inStart = true ∨ s.phase = .alive
  binds : ∀ k' ∈ r.2, k'.bound = true → k.Binds s

section

variable {s s' : Shared T} {t : T} {c : ConnId} {k : Call T} {calls : List (Call T)}
variable {x : Except Fault (Body T)} {r : Body T}

/-- What the server's end depends on. -/
def Shared.ending (s : Shared T) := (s.phase, s.threads, s.pendingFuntors)

/-- The body has nothing to do with the server's start and end. -/
def Quiet (s : Shared T) (x : Except Fault (Body T)) : Prop :=
  Ends x (fun _ => True) fun r => r.1.ending = s.ending ∧ r.2.all Call.plain = true

theorem Quiet.check {p : Prop} [Decidable p] {expr : String}
    {body : Unit → Except Fault (Body T)} (hbody : p → Quiet s (body ())) :
    Quiet s (check p expr >>= body) :=
  ends_check trivial hbody

theorem Quiet.withConn {body : Connection → Except Fault (Body T)}
    (hbody : ∀ k, Quiet s (body k)) : Quiet s (s.withConn c body) := by
  unfold Shared.withConn
  split
  · exact hbody _
  · exact ⟨rfl, rfl⟩

theorem Quiet.does (hx : Quiet s x) (hr : x = .ok r) : Does s k r := by
  obtain ⟨hending, hplain⟩ := Ends.result hx hr
  simp only [Shared.ending, Prod.mk.injEq] at hending
  obtain ⟨hphase, hthreads, hqueue⟩ := hending
  have hspec : ∀ k' ∈ r.2, k' ≠ .serverDestroyed ∧ k'.inStart = false ∧ k'.bound = false :=
    fun k' hk' => plain_spec (List.all_eq_true.mp hplain k' hk')
  refine ⟨.inl hphase, .inl hthreads, fun f hf => .inl (hqueue ▸ hf),
    fun hmem => (hspec _ hmem).1 rfl, fun k' hk' hstart => ?_, fun k' hk' hbound => ?_⟩
  · rw [(hspec k' hk').2.1] at hstart
    cases hstart
  · rw [(hspec k' hk').2.2] at hbound
    cases hbound

theorem Does.quiet (hr : some x = some (.ok r)) (hx : Quiet s x) : Does s k r :=
  hx.does (Option.some_injective _ hr)

theorem queueWriteComplete_plain {k : Connection} :
    (s.queueWriteComplete c k).all Call.plain = true := by
  unfold Shared.queueWriteComplete
  split <;> rfl

theorem handleEvent_quiet {h : HandlerId} : Quiet s (s.handleEvent h) := by
  unfold Shared.handleEvent
  split
  · refine ⟨rfl, ?_⟩
    rw [List.all_flatMap, List.all_eq_true]
    intro callback _
    cases h <;> cases callback <;> rfl
  · exact ⟨rfl, rfl⟩

theorem handler_quiet {op : HandlerOp} {h : HandlerId} : Quiet s (s.handler op h) := by
  unfold Shared.handler
  split
  · next l _ =>
    cases hrun : op.run (s.pollers l) h with
    | error e => trivial
    | ok p => exact ⟨rfl, rfl⟩
  · exact ⟨rfl, rfl⟩

theorem pollEvent_quiet {b : Choice T} {l : LoopId} (hx : s.pollEvent l b = some x) :
    Quiet s x := by
  unfold Shared.pollEvent at hx
  split at hx
  · next events =>
    split at hx
    · cases hx
      cases (s.pollers l).pollEvent (.ok (events.map Prod.snd)) with
      | error e => trivial
      | ok r =>
        refine ⟨rfl, ?_⟩
        rw [List.all_map, List.all_eq_true]
        exact fun _ _ => rfl
    · cases hx
  · cases hx

theorem sendInLoop_quiet {b : Choice T} {len : Nat} (hx : s.sendInLoop c len b = some x) :
    Quiet s x := by
  unfold Shared.sendInLoop at hx
  split at hx
  · next r =>
    split at hx
    · cases hx
      refine .withConn fun k => ?_
      obtain ⟨remaining, complete⟩ := s.directWrite c k len r
      refine Quiet.check fun _ => ?_
      split
      · refine ⟨rfl, ?_⟩
        split <;> rfl
      · refine ⟨rfl, ?_⟩
        split
        · exact queueWriteComplete_plain
        · rfl
    · cases hx
  · cases hx

theorem handleWrite_quiet {b : Choice T} (hx : s.handleWrite c b = some x) : Quiet s x := by
  unfold Shared.handleWrite at hx
  split at hx
  · split at hx
    · cases hx
      refine .withConn fun k => ?_
      split
      · split
        · exact ⟨rfl, rfl⟩
        · refine ⟨rfl, ?_⟩
          split
          · rw [List.all_append, List.all_cons, queueWriteComplete_plain]
            rfl
          · rfl
      · exact ⟨rfl, rfl⟩
    · cases hx
  · cases hx

theorem handleRead_quiet {b : Choice T} (hx : s.handleRead c b = some x) : Quiet s x := by
  unfold Shared.handleRead at hx
  split at hx <;> cases hx <;> exact ⟨rfl, rfl⟩

theorem acceptorHandleRead_quiet {b : Choice T} (hx : s.acceptorHandleRead b = some x) :
    Quiet s x := by
  unfold Shared.acceptorHandleRead at hx
  split at hx
  · cases hx
    refine ⟨rfl, ?_⟩
    split <;> rfl
  · cases hx

theorem testQuit_quiet {l : LoopId} : Quiet s (s.testQuit l) := by
  unfold Shared.testQuit
  split <;> exact ⟨rfl, rfl⟩

theorem send_quiet [DecidableEq T] {len : Nat} : Quiet s (s.send t c len) := by
  refine .withConn fun k => ?_
  split
  · refine ⟨rfl, ?_⟩
    split <;> rfl
  · exact ⟨rfl, rfl⟩

theorem shutdown_quiet : Quiet s (s.shutdown c) := by
  refine .withConn fun k => ⟨rfl, ?_⟩
  split <;> rfl

theorem outputDrained_quiet : Quiet s (s.outputDrained c) := by
  refine .withConn fun k => ⟨rfl, ?_⟩
  split <;> rfl

/-- `join` returns when the thread has returned. -/
theorem join_ok {stack : T → List (Call T)} {u : T} (hr : s.join stack u = some x) :
    stack u = [] ∧ x = .ok (s, []) := by
  unfold Shared.join at hr
  split at hr
  · next hend =>
    cases hr
    exact ⟨List.isEmpty_iff.mp hend, rfl⟩
  · cases hr

theorem destroyServer_quiet : Quiet s s.destroyServer := by
  refine ⟨rfl, ?_⟩
  rw [List.all_append, Bool.and_eq_true, List.all_eq_true]
  refine ⟨fun k hk => ?_, rfl⟩
  obtain ⟨c, -, hk⟩ := List.mem_filterMap.mp hk
  obtain ⟨l, -, rfl⟩ := Option.map_eq_some_iff.mp hk
  rfl

theorem destroyPool_quiet : Quiet s s.destroyPool := by
  refine ⟨rfl, ?_⟩
  rw [List.all_flatMap, List.all_eq_true]
  exact fun _ _ => rfl

theorem getNextLoop_quiet {sockfd : Int} : Quiet s (s.getNextLoop sockfd) := by
  unfold Shared.getNextLoop
  split
  · exact ⟨rfl, rfl⟩
  · split
    · trivial
    · exact ⟨rfl, rfl⟩

/-- The functions that start the server. -/
theorem start_does (hk : k.inStart = true) (hphase : s'.phase = s.phase)
    (hthreads : s'.threads = s.threads ∨ k = .startThread)
    (hqueue : s'.pendingFuntors = s.pendingFuntors)
    (hcalls : ∀ k' ∈ calls, k'.inStart = true ∨ k'.plain = true) : Does s k (s', calls) := by
  have hcall : ∀ k' ∈ calls, k' ≠ .serverDestroyed ∧ k'.bound = false := by
    intro k' hk'
    rcases hcalls k' hk' with hstart | hplain
    · cases k' with
      | start => exact ⟨nofun, rfl⟩
      | startListening => exact ⟨nofun, rfl⟩
      | poolStart => exact ⟨nofun, rfl⟩
      | startThread => exact ⟨nofun, rfl⟩
      | awaitLoop u => exact ⟨nofun, rfl⟩
      | _ => cases hstart
    · exact ⟨(plain_spec hplain).1, (plain_spec hplain).2.2⟩
  refine ⟨.inl hphase, hthreads, fun f hf => .inl (hqueue ▸ hf),
    fun hmem => (hcall _ hmem).1 rfl, fun _ _ _ => .inl hk, fun k' hk' hbound => ?_⟩
  rw [(hcall k' hk').2] at hbound
  cases hbound

theorem poolStart_does (hr : s.poolStart = .ok r) : Does s .poolStart r := by
  obtain ⟨-, hr⟩ := check_bind_ok.mp hr
  cases hr
  refine start_does rfl rfl (.inl rfl) rfl fun k' hk' => ?_
  rcases List.mem_append.mp hk' with hk' | hk'
  · cases List.eq_of_mem_replicate hk'
    exact .inl rfl
  · split at hk'
    · cases List.mem_singleton.mp hk'
      exact .inr rfl
    · cases hk'

theorem startThread_does {b : Choice T} (hr : s.startThread b = some (.ok r)) :
    Does s .startThread r := by
  unfold Shared.startThread at hr
  split at hr
  · cases hr
    refine start_does rfl rfl (.inr rfl) rfl fun k' hk' => ?_
    cases List.mem_singleton.mp hk'
    exact .inl rfl
  · cases hr

/-- A body that calls one function, which is not of the server's start or end. -/
theorem Does.single {k' : Call T} (hends : k' ≠ .serverDestroyed) (hstart : k'.inStart = false)
    (hbinds : k'.bound = true → k.Binds s) : Does s k (s, [k']) := by
  refine ⟨.inl rfl, .inl rfl, fun f hf => .inl hf, ?_, fun k'' hk'' h => ?_,
    fun k'' hk'' h => ?_⟩
  · rintro hmem
    exact hends (List.mem_singleton.mp hmem).symm
  · rw [List.mem_singleton.mp hk'', hstart] at h
    cases h
  · rw [List.mem_singleton.mp hk''] at h
    exact hbinds h

theorem functor_call (f : Functor) : (f.call : Call T) ≠ .serverDestroyed ∧
    (f.call : Call T).inStart = false ∧ (f.call : Call T).bound = f.bound := by
  cases f <;> exact ⟨nofun, rfl, rfl⟩

theorem runInLoop_does [DecidableEq T] {l : LoopId} {f : Functor}
    (hr : s.runInLoop t l f = .ok r) : Does s (.runInLoop l f) r := by
  cases hr
  split
  · obtain ⟨hends, hstart, hbound⟩ := functor_call (T := T) f
    exact .single hends hstart fun h => .inl (hbound.symm.trans h)
  · exact .single nofun rfl fun h => .inl h

theorem queueInLoop_does {l : LoopId} {f : Functor} (hr : s.queueInLoop l f = .ok r) :
    Does s (.queueInLoop l f) r := by
  cases hr
  refine ⟨.inl rfl, .inl rfl, fun g hg => ?_, nofun, nofun, nofun⟩
  simp only [Function.update_apply] at hg
  split at hg
  · next heq =>
    subst heq
    rcases List.mem_append.mp hg with hold | hnew
    · exact .inl hold
    · cases List.mem_singleton.mp hnew
      exact .inr rfl
  · exact .inl hg

theorem doPendingFunctors_does {l : LoopId} (hr : s.doPendingFunctors l = .ok r) :
    Does s (.doPendingFunctors l) r := by
  cases hr
  refine ⟨.inl rfl, .inl rfl, fun f hf => ?_, fun hmem => ?_, fun k' hk' h => ?_,
    fun k' hk' h => ?_⟩
  · simp only [Function.update_apply] at hf
    split at hf
    · cases hf
    · exact .inl hf
  · obtain ⟨f, -, hf⟩ := List.mem_map.mp hmem
    exact (functor_call f).1 hf
  · obtain ⟨f, -, rfl⟩ := List.mem_map.mp hk'
    rw [(functor_call f).2.1] at h
    cases h
  · obtain ⟨f, hf, rfl⟩ := List.mem_map.mp hk'
    exact .inr (.inr ⟨l, rfl, f, hf, (functor_call f).2.2.symm.trans h⟩)

theorem handleClose_does (hr : s.handleClose c = .ok r) : Does s (.handleClose c) r := by
  have hbinds : ∀ k' ∈ r.2, k'.bound = true → (Call.handleClose c : Call T).Binds s :=
    fun _ _ _ => .inr (.inl ⟨c, rfl⟩)
  unfold Shared.handleClose Shared.withConn at hr
  split at hr
  · obtain ⟨-, hr⟩ := check_bind_ok.mp hr
    cases hr
    exact ⟨.inl rfl, .inl rfl, fun f hf => .inl hf, by simp, by simp [Call.inStart], hbinds⟩
  · cases hr
    exact ⟨.inl rfl, .inl rfl, fun f hf => .inl hf, by simp, by simp, hbinds⟩

theorem user_does [DecidableEq T] {stack : List (Call T)} {b : Choice T}
    (hr : s.user stack t b = some (.ok r)) :
    Does s .user r ∨ s.threadId 0 = some t ∧ s.phase = .alive ∧ (∀ k ∈ stack, k.inStart = false) ∧
      r = ({ s with phase := .destroying }, [.destroyServer, .serverDestroyed, .user]) := by
  unfold Shared.user at hr
  split at hr
  · cases hr
    exact .inl ((show Quiet s (.ok (s, [])) from ⟨rfl, rfl⟩).does rfl)
  · next u =>
    split at hr
    · next hallowed =>
      cases hr
      cases u with
      | destroyServer => exact .inr ⟨hallowed.1, hallowed.2.1, hallowed.2.2, rfl⟩
      | start =>
        refine .inl ⟨.inl rfl, .inl rfl, fun f hf => .inl hf, ?_,
          fun _ _ _ => .inr hallowed.2, ?_⟩
        · simp [UserCall.calls]
        · simp [UserCall.calls, Call.bound]
      | _ =>
        refine .inl (Quiet.does (x := .ok _) ⟨rfl, rfl⟩ rfl)
    · cases hr
  · cases hr

/-- What a body does to the server's end, or that it begins it. -/
theorem body_does [DecidableEq T] {stack : T → List (Call T)} {b : Choice T}
    (hr : s.body stack t b k = some (.ok r)) :
    Does s k r ∨ k = .user ∧ s.threadId 0 = some t ∧ s.phase = .alive ∧
      (∀ k ∈ stack t, k.inStart = false) ∧
      r = ({ s with phase := .destroying }, [.destroyServer, .serverDestroyed, .user]) := by
  cases k with
  | user => exact (user_does hr).imp_right fun h => ⟨rfl, h⟩
  | start =>
    cases hr
    refine .inl (start_does rfl rfl (.inl rfl) rfl fun k' hk' => .inl ?_)
    rcases List.mem_append.mp hk' with hk' | hk'
    · split at hk'
      · cases hk'
      · cases List.mem_singleton.mp hk'
        rfl
    · cases List.mem_singleton.mp hk'
      rfl
  | startListening =>
    cases hr
    refine .inl (start_does rfl rfl (.inl rfl) rfl fun k' hk' => .inr ?_)
    split at hk'
    · cases hk'
    · cases List.mem_singleton.mp hk'
      rfl
  | poolStart => exact .inl (poolStart_does (Option.some_injective _ hr))
  | startThread => exact .inl (startThread_does hr)
  | awaitLoop u =>
    obtain ⟨l, -, hl⟩ := Option.map_eq_some_iff.mp hr
    cases hl
    exact .inl (start_does rfl rfl (.inl rfl) rfl nofun)
  | removeConnection c =>
    cases hr
    exact .inl (.single nofun rfl fun _ => .inl rfl)
  | serverDestroyed =>
    cases hr
    exact .inl ⟨.inr ⟨rfl, rfl⟩, .inl rfl, fun f hf => .inl hf, nofun, nofun, nofun⟩
  | doPendingFunctors l => exact .inl (doPendingFunctors_does (Option.some_injective _ hr))
  | runInLoop l f => exact .inl (runInLoop_does (Option.some_injective _ hr))
  | queueInLoop l f => exact .inl (queueInLoop_does (Option.some_injective _ hr))
  | handleClose c => exact .inl (handleClose_does (Option.some_injective _ hr))
  | removeConnectionInLoop c => exact .inl (.quiet hr (.withConn fun _ => ⟨rfl, rfl⟩))
  | destroyServer => exact .inl (.quiet hr destroyServer_quiet)
  | getNextLoop sockfd => exact .inl (.quiet hr getNextLoop_quiet)
  | destroyPool => exact .inl (.quiet hr destroyPool_quiet)
  | quitThread u =>
    obtain ⟨l, -, hl⟩ := Option.map_eq_some_iff.mp hr
    exact .inl (.quiet (congrArg some hl) ⟨rfl, rfl⟩)
  | join u => exact .inl (.quiet (congrArg some (join_ok hr).2.symm) ⟨rfl, rfl⟩)
  | loop l => exact .inl (.quiet hr (.check fun _ => ⟨rfl, rfl⟩))
  | testQuit l => exact .inl (.quiet hr testQuit_quiet)
  | pollEvent l => exact .inl (.quiet rfl (pollEvent_quiet hr))
  | acceptorHandleRead => exact .inl (.quiet rfl (acceptorHandleRead_quiet hr))
  | handleEvent h => exact .inl (.quiet hr handleEvent_quiet)
  | handler op h => exact .inl (.quiet hr handler_quiet)
  | send c len => exact .inl (.quiet hr send_quiet)
  | sendInLoop c len => exact .inl (.quiet rfl (sendInLoop_quiet hr))
  | shutdown c => exact .inl (.quiet hr shutdown_quiet)
  | setDisconnecting c => exact .inl (.quiet hr (.withConn fun _ => ⟨rfl, rfl⟩))
  | connectionEstablished c =>
    exact .inl (.quiet hr (.withConn fun _ => .check fun _ => ⟨rfl, rfl⟩))
  | connectionDestroyed c => exact .inl (.quiet hr (.withConn fun _ => ⟨rfl, rfl⟩))
  | handleRead c => exact .inl (.quiet rfl (handleRead_quiet hr))
  | handleWrite c => exact .inl (.quiet rfl (handleWrite_quiet hr))
  | outputDrained c => exact .inl (.quiet hr outputDrained_quiet)
  | _ => exact .inl (.quiet hr ⟨rfl, rfl⟩)

/-- What is bound to the server is on the thread of the base loop or on one of the
pool's. -/
theorem bound_thread (hs : Placed s) (hk : k.At s t) (hbound : k.bound = true) :
    s.threadId 0 = some t ∨ t ∈ s.threads := by
  have hconn : ∀ c, s.ConnThread c t → s.threadId 0 = some t ∨ t ∈ s.threads := by
    rintro c ⟨l, hl, ht⟩
    rcases hs.conns c l hl with rfl | hmem
    · exact .inl ht
    · obtain ⟨u, hu, hlu⟩ := hs.pool l hmem
      cases ht.symm.trans hlu
      exact .inr hu
  have hfunctor : ∀ f : Functor, (∀ c, f = .removeConnectionInLoop c → s.ConnThread c t) →
      f.bound = true → s.threadId 0 = some t ∨ t ∈ s.threads := by
    intro f hf hfb
    cases f with
    | removeConnectionInLoop c => exact hconn c (hf c rfl)
    | _ => cases hfb
  cases k with
  | removeConnection c => exact hconn c hk
  | removeConnectionInLoop c => exact .inl hk
  | runInLoop l f => exact hfunctor f hk.2 hbound
  | queueInLoop l f => exact hfunctor f hk.2 hbound
  | _ => cases hbound

theorem inStart_thread (hk : k.At s t) (hstart : k.inStart = true) :
    s.threadId 0 = some t := by
  cases k with
  | awaitLoop u => exact hk.1
  | _ => first | exact hk | cases hstart

theorem starts_none {b : Choice T} (hk : k ≠ .startThread) : k.starts b = none := by
  unfold Call.starts
  split
  · exact absurd rfl hk
  · rfl

end

/-! ## 4. The stages of the destruction -/

section

variable [DecidableEq T]

/-- The calls still wait for the thread `u` of the pool. -/
def Awaits (calls : List (Call T)) (u : T) : Prop :=
  .destroyServer ∈ calls ∨ .destroyPool ∈ calls ∨ .join u ∈ calls

/-- How far the destruction is. While it goes on, no thread is started, and the
threads of the pool have returned or are still to be joined. After it, all of them
have returned and nothing bound to the server is left. -/
inductive Stage (s : State T) : Prop where
  | alive (hphase : s.shared.phase = .alive) (hnone : s.Everywhere (· ≠ .serverDestroyed))
  | destroying {t : T} {pre post : List (Call T)} (hphase : s.shared.phase = .destroying)
      (hstack : s.stack t = pre ++ .serverDestroyed :: post) (hpre : .serverDestroyed ∉ pre)
      (hstart : s.Everywhere fun k => k.inStart = false)
      (hjoins : ∀ u ∈ s.shared.threads, s.stack u = [] ∨ Awaits pre u)
  | destroyed (hphase : s.shared.phase = .destroyed)
      (hstart : s.Everywhere fun k => k.inStart = false)
      (hjoined : ∀ u ∈ s.shared.threads, s.stack u = [])
      (hbound : s.Everywhere fun k => k.bound = false)
      (hqueue : ∀ f ∈ s.shared.pendingFuntors 0, f.bound = false)

structure Ending (s : State T) : Prop where
  begun : s.Begun
  threads : ∀ u ∈ s.shared.threads, u ∈ s.started
  stage : s.shared.crashed = none → Stage s
  trace : NoLateRemoval s

abbrev Placing (s : State T) : Prop := Threads.Confined Placed (fun s t k => k.At s t) s

variable {s s' : State T} {t u : T} {k : Call T} {rest : List (Call T)} {b : Choice T}
variable {r : Body T}

/-- What is left of the wait for `u` when its first call has returned. -/
theorem Awaits.step {pre : List (Call T)} (hu : u ∈ s.shared.threads)
    (hr : s.shared.body s.stack t b k = some (.ok r)) (h : Awaits (k :: pre) u) :
    s.stack u = [] ∨ Awaits (r.2 ++ pre) u := by
  rcases h with h | h | h
  · rcases List.mem_cons.mp h with rfl | h
    · cases hr
      exact .inr (.inr (.inl (by simp)))
    · exact .inr (.inl (List.mem_append_right _ h))
  · rcases List.mem_cons.mp h with rfl | h
    · cases hr
      exact .inr (.inr (.inr (by simp [hu])))
    · exact .inr (.inr (.inl (List.mem_append_right _ h)))
  · rcases List.mem_cons.mp h with rfl | h
    · exact .inl (join_ok hr).1
    · exact .inr (.inr (.inr (List.mem_append_right _ h)))

/-- The state after the body of `k` has returned `r`. -/
def ran (s : State T) (t : T) (b : Choice T) (k : Call T) (rest : List (Call T)) (r : Body T) :
    State T :=
  (s.after t k rest ⟨r.1, r.2, k.starts b⟩).start (k.starts b)

@[simp] theorem ran_shared : (ran s t b k rest r).shared = r.1 := start_shared

theorem ran_stack (hk : k ≠ .startThread) :
    (ran s t b k rest r).stack = Function.update s.stack t (r.2 ++ rest) := by
  rw [ran, starts_none hk]
  rfl

theorem ran_everywhere {Q : Call T → Prop} (hs : s.Everywhere Q) (hstack : s.stack t = k :: rest)
    (hcalls : ∀ k' ∈ r.2, Q k') (hfunc : Q .threadFunc) : (ran s t b k rest r).Everywhere Q := by
  refine State.Everywhere.after hs hstack hcalls fun x hx => ?_
  unfold Call.starts at hx
  split at hx
  · cases hx
    exact hfunc
  · cases hx

theorem begun_everywhere {Q : Call T → Prop} (hs : s.Everywhere Q) (huser : Q .user) :
    (s.start (some (t, .user))).Everywhere Q := by
  refine hs.start fun x hx => ?_
  cases hx
  exact huser

theorem Stage.begin (hs : Stage s) (he : Ending s) (hnew : t ∉ s.started) :
    Stage (s.start (some (t, .user))) := by
  have hreturned : ∀ u ∈ s.shared.threads, s.stack u = [] →
      (s.start (some (t, .user))).stack u = [] := by
    intro u hu hend
    rw [start_stack_ne, hend]
    rintro rfl
    exact hnew (he.threads u hu)
  cases hs with
  | alive hphase hnone => exact .alive hphase (begun_everywhere hnone nofun)
  | @destroying o pre post hphase hstack hpre hstart hjoins =>
    have hsame : (s.start (some (t, .user))).stack o = pre ++ .serverDestroyed :: post := by
      rw [start_stack_ne, hstack]
      rintro rfl
      exact hnew (he.begun o (by simp [hstack]))
    exact .destroying hphase hsame hpre (begun_everywhere hstart rfl)
      fun u hu => (hjoins u hu).imp_left (hreturned u hu)
  | destroyed hphase hstart hjoined hbound hqueue =>
    exact .destroyed hphase (begun_everywhere hstart rfl)
      (fun u hu => hreturned u hu (hjoined u hu)) (begun_everywhere hbound rfl) hqueue

theorem alive_ran (hp : Placing s) (hphase : s.shared.phase = .alive)
    (hnone : s.Everywhere (· ≠ .serverDestroyed)) (hstack : s.stack t = k :: rest)
    (hr : s.shared.body s.stack t b k = some (.ok r)) : Stage (ran s t b k rest r) := by
  rcases body_does hr with hdoes | ⟨rfl, hbase, -, hstart, rfl⟩
  · refine .alive ?_ (ran_everywhere hnone hstack ?_ nofun)
    · rw [ran_shared]
      rcases hdoes.phase with hsame | ⟨rfl, -⟩
      · exact hsame.trans hphase
      · exact absurd rfl (hnone t _ (head_mem hstack))
    · rintro k' hk' rfl
      exact hdoes.ends hk'
  · have hnoStart : s.Everywhere fun k => k.inStart = false := by
      intro u k' hk'
      cases hin : k'.inStart with
      | false => rfl
      | true =>
        -- only the base loop's thread starts the server
        cases hbase.symm.trans (inStart_thread (hp.stack u k' hk') hin)
        rw [hstart k' hk'] at hin
        cases hin
    have hstack' : (ran s t b .user rest ({ s.shared with phase := .destroying },
        [.destroyServer, .serverDestroyed, .user])).stack t =
        [.destroyServer] ++ .serverDestroyed :: .user :: rest := by
      rw [ran_stack (k := .user) nofun, Function.update_self]
      rfl
    exact .destroying rfl hstack' (by simp)
      (ran_everywhere hnoStart hstack (by simp [Call.inStart]) rfl)
      fun u _ => .inr (.inl List.mem_cons_self)

/-- The end of the destruction: the threads of the pool have been joined. -/
theorem ended_ran (hp : Placing s) {pre post : List (Call T)} {o : T}
    (ho : s.stack o = pre ++ .serverDestroyed :: post) (hpre : .serverDestroyed ∉ pre)
    (hstart : s.Everywhere fun k => k.inStart = false)
    (hjoins : ∀ u ∈ s.shared.threads, s.stack u = [] ∨ Awaits pre u)
    (hset : Settled s (.run t b)) (hstack : s.stack t = .serverDestroyed :: rest)
    (hr : s.shared.body s.stack t b .serverDestroyed = some (.ok r)) :
    Stage (ran s t b .serverDestroyed rest r) := by
  cases hr
  have ht : s.shared.threadId 0 = some t := hp.stack t _ (head_mem hstack)
  have hto : o = t := by
    have hat := hp.stack o .serverDestroyed (by simp [ho])
    exact Option.some_injective _ (hat.symm.trans ht)
  subst hto
  have hnil : pre = [] := by
    cases pre with
    | nil => rfl
    | cons k pre =>
      rw [hstack] at ho
      cases ho
      exact absurd List.mem_cons_self hpre
  subst hnil
  simp only [Settled, hstack] at hset
  obtain ⟨hrest, hqueue⟩ := hset
  have hjoined : ∀ u ∈ s.shared.threads, s.stack u = [] := by
    intro u hu
    rcases hjoins u hu with hend | h | h | h
    · exact hend
    · cases h
    · cases h
    · cases h
  refine .destroyed rfl (ran_everywhere hstart hstack nofun rfl) (fun u hu => ?_)
    (fun u k' hk' => ?_) hqueue
  · rw [ran_stack (k := .serverDestroyed) nofun, Function.update_of_ne, hjoined u hu]
    rintro rfl
    simp [hjoined u hu] at hstack
  · rw [ran_stack (k := .serverDestroyed) nofun, Function.update_apply] at hk'
    split at hk'
    · exact hrest k' hk'
    · next hne =>
      cases hb : k'.bound with
      | false => rfl
      | true =>
        rcases bound_thread hp.shared (hp.stack u k' hk') hb with hbase | hpool
        · exact absurd (Option.some_injective _ (hbase.symm.trans ht)) hne
        · rw [hjoined u hpool] at hk'
          cases hk'

/-- Once the destruction has begun, no body starts a thread. -/
theorem late_ran (hphase : s.shared.phase ≠ .alive)
    (hstart : s.Everywhere fun k => k.inStart = false) (hstack : s.stack t = k :: rest)
    (hr : s.shared.body s.stack t b k = some (.ok r)) :
    Does s.shared k r ∧ k ≠ .startThread ∧ r.1.threads = s.shared.threads ∧
      (ran s t b k rest r).Everywhere fun k => k.inStart = false := by
  have hk : k.inStart = false := hstart t k (head_mem hstack)
  have hne : k ≠ .startThread := by
    rintro rfl
    cases hk
  rcases body_does hr with hdoes | ⟨-, -, halive, -⟩
  · refine ⟨hdoes, hne, hdoes.threads.resolve_right hne,
      ran_everywhere hstart hstack (fun k' hk' => ?_) rfl⟩
    cases hin : k'.inStart with
    | false => rfl
    | true =>
      rcases hdoes.starts k' hk' hin with h | h
      · rw [hk] at h
        cases h
      · exact absurd h hphase
  · exact absurd halive hphase

theorem destroying_ran (he : Ending s) (hphase : s.shared.phase = .destroying) {o : T}
    {pre post : List (Call T)} (ho : s.stack o = pre ++ .serverDestroyed :: post)
    (hpre : .serverDestroyed ∉ pre) (hstart : s.Everywhere fun k => k.inStart = false)
    (hjoins : ∀ u ∈ s.shared.threads, s.stack u = [] ∨ Awaits pre u)
    (hstack : s.stack t = k :: rest) (hk : k ≠ .serverDestroyed)
    (hr : s.shared.body s.stack t b k = some (.ok r))
    (hstep : (program T).step s (.run t b) = some (ran s t b k rest r)) :
    Stage (ran s t b k rest r) := by
  have hnotAlive : s.shared.phase ≠ .alive := by simp [hphase]
  obtain ⟨hdoes, hne, hthreads, hstart'⟩ := late_ran hnotAlive hstart hstack hr
  have hphase' : (ran s t b k rest r).shared.phase = .destroying := by
    rw [ran_shared]
    exact (hdoes.phase.resolve_right fun h => hk h.1).trans hphase
  have hreturned : ∀ u ∈ s.shared.threads, s.stack u = [] → (ran s t b k rest r).stack u = [] :=
    fun u hu hend => returned_step (he.threads u hu) hend hstep
  by_cases hto : o = t
  · subst hto
    rw [hstack] at ho
    cases pre with
    | nil =>
      cases ho
      exact absurd rfl hk
    | cons k' pre =>
      cases ho
      have hstack' : (ran s o b k (pre ++ .serverDestroyed :: post) r).stack o =
          (r.2 ++ pre) ++ .serverDestroyed :: post := by
        rw [ran_stack hne, Function.update_self, List.append_assoc]
      refine .destroying hphase' hstack' (fun hmem => ?_) hstart' fun u hu => ?_
      · rcases List.mem_append.mp hmem with hnew | hold
        · exact hdoes.ends hnew
        · exact hpre (List.mem_cons_of_mem _ hold)
      · rw [ran_shared, hthreads] at hu
        rcases hjoins u hu with hend | hawaits
        · exact .inl (hreturned u hu hend)
        · exact (hawaits.step hu hr).imp_left (hreturned u hu)
  · have hstack' : (ran s t b k rest r).stack o = pre ++ .serverDestroyed :: post := by
      rw [ran_stack hne, Function.update_of_ne hto, ho]
    refine .destroying hphase' hstack' hpre hstart' fun u hu => ?_
    rw [ran_shared, hthreads] at hu
    exact (hjoins u hu).imp_left (hreturned u hu)

theorem destroyed_ran (hp : Placing s) (he : Ending s) (hphase : s.shared.phase = .destroyed)
    (hstart : s.Everywhere fun k => k.inStart = false)
    (hjoined : ∀ u ∈ s.shared.threads, s.stack u = [])
    (hbound : s.Everywhere fun k => k.bound = false)
    (hqueue : ∀ f ∈ s.shared.pendingFuntors 0, f.bound = false)
    (hset : Settled s (.run t b)) (hstack : s.stack t = k :: rest)
    (hr : s.shared.body s.stack t b k = some (.ok r))
    (hstep : (program T).step s (.run t b) = some (ran s t b k rest r)) :
    Stage (ran s t b k rest r) := by
  have hnotAlive : s.shared.phase ≠ .alive := by simp [hphase]
  obtain ⟨hdoes, -, hthreads, hstart'⟩ := late_ran hnotAlive hstart hstack hr
  have hk : k.bound = false := hbound t k (head_mem hstack)
  have hnobind : ¬ k.Binds s.shared := by
    rintro (h | ⟨c, rfl⟩ | ⟨l, rfl, f, hf, hfb⟩)
    · rw [hk] at h
      cases h
    · -- the threads of the pool have returned, and the base loop closes nothing
      obtain ⟨l, hl, ht⟩ := hp.stack t _ (head_mem hstack)
      simp only [Settled, hstack] at hset
      rcases hp.shared.conns c l hl with rfl | hmem
      · exact hset hphase hl
      · obtain ⟨u, hu, hlu⟩ := hp.shared.pool l hmem
        cases ht.symm.trans hlu
        simp [hjoined t hu] at hstack
    · have hfor := hp.shared.queued l f hf
      cases f with
      | removeConnectionInLoop c =>
        cases hfor
        rw [hqueue _ hf] at hfb
        cases hfb
      | _ => cases hfb
  refine .destroyed ?_ hstart' (fun u hu => ?_)
    (ran_everywhere hbound hstack (fun k' hk' => ?_) rfl) fun f hf => ?_
  · rw [ran_shared]
    rcases hdoes.phase with hsame | ⟨-, hend⟩
    · exact hsame.trans hphase
    · exact hend
  · rw [ran_shared, hthreads] at hu
    exact returned_step (he.threads u hu) (hjoined u hu) hstep
  · cases hb : k'.bound with
    | false => rfl
    | true => exact absurd (hdoes.binds k' hk' hb) hnobind
  · rw [ran_shared] at hf
    rcases hdoes.queued f hf with hold | rfl
    · exact hqueue f hold
    · exact hk

theorem constructed_ending {base : T} {threadsNum : Nat} {listenfd : Int} {cb asserts : Bool} :
    Ending (constructed base threadsNum listenfd cb asserts) := by
  have hcalls : ∀ u, ∀ k ∈ (constructed base threadsNum listenfd cb asserts).stack u,
      u = base ∧ k = .user := by
    intro u k hk
    simp only [constructed, Function.update_apply] at hk
    split at hk
    · next heq => exact ⟨heq, List.mem_singleton.mp hk⟩
    · cases hk
  refine ⟨fun u hu => ?_, by simp [constructed], fun _ => .alive rfl fun u k hk => ?_, ?_⟩
  · obtain ⟨k, hk⟩ := List.exists_mem_of_ne_nil _ hu
    exact List.mem_singleton.mpr (hcalls u k hk).1
  · simp [(hcalls u k hk).2]
  · simp [NoLateRemoval, constructed]

/-- One step of the destruction. -/
theorem Stage.ran (hs : Stage s) (hp : Placing s) (he : Ending s) (hset : Settled s (.run t b))
    (hstack : s.stack t = k :: rest) (hr : s.shared.body s.stack t b k = some (.ok r))
    (hstep : (program T).step s (.run t b) = some (ran s t b k rest r)) :
    Stage (ServerThreads.ran s t b k rest r) := by
  cases hs with
  | alive hphase hnone => exact alive_ran hp hphase hnone hstack hr
  | destroying hphase ho hpre hstart hjoins =>
    by_cases hk : k = .serverDestroyed
    · subst hk
      exact ended_ran hp ho hpre hstart hjoins hset hstack hr
    · exact destroying_ran he hphase ho hpre hstart hjoins hstack hk hr hstep
  | destroyed hphase hstart hjoined hbound hqueue =>
    exact destroyed_ran hp he hphase hstart hjoined hbound hqueue hset hstack hr hstep

omit [DecidableEq T] in
theorem Stage.noRemoval (hs : Stage s) (hstack : s.stack t = k :: rest) {c : ConnId}
    (hk : k = .removeConnectionInLoop c) : s.shared.phase ≠ .destroyed := by
  intro hphase
  cases hs with
  | alive halive => simp [hphase] at halive
  | destroying hdestroying => simp [hphase] at hdestroying
  | destroyed _ _ _ hbound =>
    subst hk
    cases hbound t _ (head_mem hstack)

/-- A thread of the pool has been started. -/
theorem ran_threads (he : Ending s) (hr : s.shared.body s.stack t b k = some (.ok r)) :
    ∀ u ∈ r.1.threads, u ∈ (ServerThreads.ran s t b k rest r).started := by
  intro u hu
  have hkeep : u ∈ s.shared.threads → u ∈ (ServerThreads.ran s t b k rest r).started :=
    fun hold => started_start (he.threads u hold)
  rcases body_does hr with hdoes | ⟨-, -, -, -, rfl⟩
  · rcases hdoes.threads with hsame | rfl
    · exact hkeep (hsame ▸ hu)
    · simp only [Shared.body, Shared.startThread] at hr
      split at hr
      · cases hr
        rcases List.mem_append.mp hu with hold | hnew
        · exact hkeep hold
        · cases List.mem_singleton.mp hnew
          exact List.mem_cons_self
      · cases hr
  · exact hkeep hu

theorem ending_step (hp : Placing s) (he : Ending s) {a : Act T} (hset : Settled s a)
    (hstep : (machine T).step s a = some s') : Ending s' := by
  have hbegun : s'.Begun := he.begun.step hstep
  cases Program.step_stepped hstep with
  | begin hnew =>
    exact ⟨hbegun, fun u hu => List.mem_cons_of_mem _ (he.threads u hu),
      fun hc => (he.stage hc).begin he hnew, he.trace⟩
  | @run t b k rest r hstack hexec hnew =>
    obtain ⟨hcrashed, hr⟩ := exec_ok hexec
    have htrace : NoLateRemoval ((s.after t k rest r).start r.start) := by
      intro e hmem c hcall
      rw [start_trace] at hmem
      rcases List.mem_append.mp hmem with hold | hnew
      · exact he.trace e hold c hcall
      · cases List.mem_singleton.mp hnew
        exact (he.stage hcrashed).noRemoval hstack hcall
    rcases hr with ⟨r, hr, rfl⟩ | ⟨fault, rfl⟩
    · exact ⟨hbegun, fun u hu => ran_threads he hr u (by rwa [start_shared] at hu),
        fun _ => (he.stage hcrashed).ran hp he hset hstack hr hstep, htrace⟩
    · exact ⟨hbegun, he.threads, nofun, htrace⟩

/-- No functor bound to the server is executed after its destruction in any run,
whatever the threads do, in which the destruction leaves none behind. -/
theorem no_late_removal {s₀ s : State T} {as : List (Act T)} (hinit : (machine T).init s₀)
    (hset : (machine T).Along Settled s₀ as) (hrun : (machine T).run s₀ as = some s) :
    NoLateRemoval s := by
  have hinv : (machine T).Reachable s ∧ Ending s := by
    refine Trans.Machine.run_invariant (I := fun s => (machine T).Reachable s ∧ Ending s)
      (C := Settled) ?_ ⟨⟨s₀, [], hinit, rfl⟩, ?_⟩ hset hrun
    · rintro s a s' ⟨hs, he⟩ ha hstep
      exact ⟨hs.step hstep, ending_step (reachable_confined hs) he ha hstep⟩
    · obtain ⟨base, threadsNum, listenfd, cb, asserts, rfl⟩ := hinit
      exact constructed_ending
  exact hinv.2.trace

/-- The base loop executes the removal that follows a close on the pool's loop,
then destroys the server in a functor and goes on. -/
def closeBeforeDestruction : List (Act Nat) :=
  opened ++ [.run 1 (.poll [(7, EPOLLIN, .conn 1)]), .run 1 .go, .run 1 (.read (.bytes [])),
    .run 1 .go, .run 1 .go, .run 1 .go, .run 1 .go, .run 1 .go, .run 1 .go,
    .begin 2, .run 2 (.call (.queueInLoop 0)), .run 2 .go, .run 0 .go, .run 0 .go, .run 0 .go,
    .run 0 (.call .destroyServer), .run 0 .go, .run 0 .go, .run 0 .go,
    .run 1 .go, .run 1 .go, .run 1 .go, .run 1 .go, .run 1 .go, .run 1 .go,
    .run 0 .go, .run 0 .go, .run 0 .go, .run 0 .go, .run 0 .go, .run 0 .go, .run 0 .go,
    .run 0 (.poll []), .run 0 .go]

theorem closeBeforeDestruction_removal :
    ∃ s, (machine Nat).run (constructed 0 1 3 false false) closeBeforeDestruction = some s ∧
      s.shared.phase = .destroyed ∧ (∃ e ∈ s.trace, e.call = .removeConnectionInLoop 1) ∧
      NoLateRemoval s := by
  have hend : ((machine Nat).run (constructed 0 1 3 false false) closeBeforeDestruction).any
      fun s => s.shared.phase = .destroyed ∧
        ∃ e ∈ s.trace, e.call = .removeConnectionInLoop 1 := by
    decide +kernel
  obtain ⟨s, hrun, hs⟩ := (Option.any_eq_true _ _).mp hend
  obtain ⟨hphase, hremoval⟩ := of_decide_eq_true hs
  exact ⟨s, hrun, hphase, hremoval,
    no_late_removal ⟨0, 1, 3, false, false, rfl⟩ (by decide +kernel) hrun⟩

end

end ServerThreads

end NetFrame
