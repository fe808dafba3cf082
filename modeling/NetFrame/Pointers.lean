import NetFrame.Server

/-!
# TcpServer: connections that are kept long enough

What holds of the loops, the pollers and the connections in the runs in which the
last pointer to a connection goes away only after its `connectionDestroyed`.

Results:
1. `Inv.call`: one rule for all calls of the functions of a connection.
2. `Inv.step`: the invariant is kept by every step that is `Kept`.
-/

namespace NetFrame

namespace Server

open Outcome

/-! ## 1. The invariant -/

/-- The loop and the descriptor of a connection that has not been destroyed. -/
def State.socket (s : State) (c : ConnId) : Option (LoopId × Int) :=
  (s.heap.find c).map fun k => (k.ioLoop, k.sockfd)

/-- A functor that waits on loop `l` has its connection, on the loop where it belongs. -/
def Functor.Ready (socket : ConnId → Option (LoopId × Int)) (l : LoopId) : Functor → Prop
  | .connectionEstablished c => ∃ fd, socket c = some (l, fd)
  | .removeConnectionInLoop c => l = 0 ∧ (socket c).isSome = true
  | .connectionDestroyed c => ∃ fd, socket c = some (l, fd)
  | .writeComplete c => ∃ fd, socket c = some (l, fd)

/-- Connections, descriptors and pollers agree. -/
structure Placement (s : State) : Prop where
  handler : ∀ c k, s.heap.find c = some k → k.tcp.handler = c
  known : ∀ c l fd, s.socket c = some (l, fd) → c < s.nextConnId ∧ l ≤ s.threadsNum
  agree : ∀ c l fd, s.socket c = some (l, fd) →
    ((s.pollers l).handlers c).fd = fd ∧ (s.pollers l).AgreeAt c
  distinct : ∀ c d l m fd, s.socket c = some (l, fd) → s.socket d = some (m, fd) → c = d
  map : ∀ l fd c, (s.pollers l).handlermap.find fd = some c → s.socket c = some (l, fd)
  interest : ∀ l fd mask c, (s.pollers l).interest.find fd = some (mask, c) →
    s.socket c = some (l, fd)

/-- Loop `l` holds pointers to connections that exist. -/
structure Loop.Sound (loop : Loop) (socket : ConnId → Option (LoopId × Int))
    (destroyed : List ConnId) (l : LoopId) : Prop where
  ready : ∀ f ∈ loop.tmpFunctors ++ loop.pendingFuntors, f.Ready socket l
  accepting : ∀ c, loop.pc = .accepting c → l = 0 ∧ (socket c).isSome = true
  dispatching : ∀ c cbs, loop.pc = .dispatching c cbs →
    c ∉ destroyed ∧ ∃ fd, socket c = some (l, fd)

structure Inv (s : State) : Prop extends Placement s where
  connections : s.connections = ∅
  loop : ∀ l, (s.loops l).Sound s.socket s.destroyed l
  gone : ∀ c ∈ s.destroyed, c < s.nextConnId ∧ ∀ k, s.heap.find c = some k →
    k.tcp.state = .kDisconnected ∧ ((s.pollers k.ioLoop).handlers c).state = .kNew
  noClash : s.crashed ≠ some EPollPoller.clash
  next : s.threadsNum ≠ 0 → s.next < s.threadsNum

section

variable {s : State} {c : ConnId} {l : LoopId} {k : Connection} {f : Functor}

theorem socket_eq (hk : s.heap.find c = some k) : s.socket c = some (k.ioLoop, k.sockfd) := by
  rw [State.socket, hk]
  rfl

theorem Inv.noDangling (hs : Inv s) : NoDangling s := by
  intro l fd c hfind
  have hsocket := hs.map l fd c hfind
  rw [State.socket, Option.map_eq_some_iff] at hsocket
  obtain ⟨k, hk, -⟩ := hsocket
  exact Option.isSome_of_eq_some hk

theorem Inv.crash (hs : Inv s) {e : Fault} (he : e ≠ EPollPoller.clash) :
    Inv { s with crashed := some e } :=
  ⟨⟨hs.handler, hs.known, hs.agree, hs.distinct, hs.map, hs.interest⟩, hs.connections, hs.loop,
    hs.gone, by simpa using he, hs.next⟩

/-- Loop `l` moves on. -/
theorem Inv.setLoop {loop : Loop} (hs : Inv s) (hloop : loop.Sound s.socket s.destroyed l) :
    Inv (s.setLoop l loop) := by
  refine ⟨⟨hs.handler, hs.known, hs.agree, hs.distinct, hs.map, hs.interest⟩, hs.connections,
    fun m => ?_, hs.gone, hs.noClash, hs.next⟩
  show (Function.update s.loops l loop m).Sound s.socket s.destroyed m
  by_cases hm : m = l
  · subst hm
    rw [Function.update_self]
    exact hloop
  · rw [Function.update_of_ne hm]
    exact hs.loop m

theorem Inv.queueInLoop (hs : Inv s) (hf : f.Ready s.socket l) : Inv (s.queueInLoop l f) := by
  refine hs.setLoop ⟨fun g hg => ?_, (hs.loop l).accepting, (hs.loop l).dispatching⟩
  rw [← List.append_assoc, List.mem_append, List.mem_singleton] at hg
  rcases hg with hg | rfl
  · exact (hs.loop l).ready g hg
  · exact hf

theorem Inv.removeConnectionInLoop (hs : Inv s) (c : ConnId) :
    Inv (s.removeConnectionInLoop c) := by
  unfold State.removeConnectionInLoop
  cases hk : s.heap.find c with
  | none => exact hs
  | some k =>
    have hs' : Inv { s with
        connections := s.connections.erase k.name, removed := s.removed ++ [c] } :=
      ⟨⟨hs.handler, hs.known, hs.agree, hs.distinct, hs.map, hs.interest⟩,
        by rw [hs.connections]; rfl, hs.loop, hs.gone, hs.noClash, hs.next⟩
    exact hs'.queueInLoop ⟨k.sockfd, socket_eq hk⟩

theorem Inv.upcall (hs : Inv s) (hc : ∃ fd, s.socket c = some (l, fd)) (u : Upcall) :
    Inv (State.upcall l c s u) := by
  cases u with
  | connectionCB => exact hs
  | messageCB => exact hs
  | closeCB =>
    show Inv (s.removeConnection l c)
    unfold State.removeConnection
    split
    · exact hs.removeConnectionInLoop c
    · obtain ⟨fd, hfd⟩ := hc
      exact hs.queueInLoop ⟨rfl, Option.isSome_of_eq_some hfd⟩
  | queueWriteComplete => exact hs.queueInLoop (f := .writeComplete c) hc

/-- The connections and what the loops are doing are the same. -/
structure Same (s s' : State) : Prop where
  heap : s'.heap = s.heap
  pollers : s'.pollers = s.pollers
  destroyed : s'.destroyed = s.destroyed
  nextConnId : s'.nextConnId = s.nextConnId
  pc : ∀ l, (s'.loops l).pc = (s.loops l).pc

theorem Same.refl (s : State) : Same s s := ⟨rfl, rfl, rfl, rfl, fun _ => rfl⟩

theorem Same.trans {s₁ s₂ : State} (h₁ : Same s s₁) (h₂ : Same s₁ s₂) : Same s s₂ :=
  ⟨h₂.heap.trans h₁.heap, h₂.pollers.trans h₁.pollers, h₂.destroyed.trans h₁.destroyed,
    h₂.nextConnId.trans h₁.nextConnId, fun l => (h₂.pc l).trans (h₁.pc l)⟩

theorem same_queueInLoop (s : State) (l : LoopId) (f : Functor) : Same s (s.queueInLoop l f) := by
  refine ⟨rfl, rfl, rfl, rfl, fun m => ?_⟩
  show (Function.update s.loops l _ m).pc = _
  by_cases hm : m = l
  · subst hm
    rw [Function.update_self]
  · rw [Function.update_of_ne hm]

theorem same_removeConnectionInLoop (s : State) (c : ConnId) :
    Same s (s.removeConnectionInLoop c) := by
  unfold State.removeConnectionInLoop
  cases s.heap.find c with
  | none => exact .refl s
  | some k =>
    have h := same_queueInLoop { s with
        connections := s.connections.erase k.name, removed := s.removed ++ [c] } k.ioLoop
      (.connectionDestroyed c)
    exact ⟨h.heap, h.pollers, h.destroyed, h.nextConnId, h.pc⟩

theorem same_upcall (s : State) (l : LoopId) (c : ConnId) (u : Upcall) :
    Same s (State.upcall l c s u) := by
  cases u with
  | connectionCB => exact .refl s
  | messageCB => exact .refl s
  | closeCB =>
    show Same s (s.removeConnection l c)
    unfold State.removeConnection
    split
    · exact same_removeConnectionInLoop s c
    · exact same_queueInLoop s _ _
  | queueWriteComplete => exact same_queueInLoop s _ _

theorem same_upcalls (s : State) (l : LoopId) (c : ConnId) (us : List Upcall) :
    Same s (us.foldl (State.upcall l c) s) := by
  induction us generalizing s with
  | nil => exact .refl s
  | cons u us ih => exact (same_upcall s l c u).trans (ih _)

theorem Inv.upcalls {us : List Upcall} (hs : Inv s) (hc : ∃ fd, s.socket c = some (l, fd)) :
    Inv (us.foldl (State.upcall l c) s) := by
  induction us generalizing s with
  | nil => exact hs
  | cons u us ih =>
    refine ih (hs.upcall hc u) ?_
    rw [State.socket, (same_upcall s l c u).heap]
    exact hc

theorem put_socket (hk : s.heap.find c = some k) (t : TcpConnection ConnId) :
    (s.put c k t).socket = s.socket := by
  funext d
  rw [State.socket, State.put, Table.find_insert]
  split_ifs with hd
  · rw [hd, socket_eq hk]
    rfl
  · rfl

theorem put_pollers (s : State) (c : ConnId) (k : Connection) (t : TcpConnection ConnId)
    (l : LoopId) :
    (s.put c k t).pollers l = if l = k.ioLoop then t.poller else s.pollers l := by
  by_cases hl : l = k.ioLoop
  · rw [if_pos hl, hl]
    exact Function.update_self ..
  · rw [if_neg hl]
    exact Function.update_of_ne hl ..

/-- Only the handler of `c` changes, and what the poller has for its descriptor. -/
theorem Placement.put {t : TcpConnection ConnId} {hd : Handler} (hs : Placement s)
    (hk : s.heap.find c = some k) (hhandler : t.handler = k.tcp.handler)
    (hl : (s.pollers k.ioLoop).Local t.poller c hd) : Placement (s.put c k t) := by
  have hsocket := put_socket hk t
  have hself := (hs.agree c _ _ (socket_eq hk)).1
  have hfd : hd.fd = k.sockfd := hl.fd.trans hself
  refine ⟨fun d k' hk' => ?_, ?_, fun d l fd hd => ?_, ?_, fun l fd d hfind => ?_,
    fun l fd mask d hfind => ?_⟩
  · rw [State.put, Table.find_insert] at hk'
    split_ifs at hk' with hd
    · cases hk'
      exact hhandler.trans ((hs.handler c k hk).trans hd.symm)
    · exact hs.handler d k' hk'
  · rw [hsocket]
    exact hs.known
  · rw [hsocket] at hd
    obtain ⟨hdfd, hdagree⟩ := hs.agree d l fd hd
    rw [put_pollers]
    split_ifs with hloop
    · subst hloop
      by_cases hdc : d = c
      · subst hdc
        exact ⟨(hl.fd_eq d).trans hdfd, hl.agreeAt⟩
      · -- another connection has another descriptor
        refine ⟨(hl.fd_eq d).trans hdfd, hl.agreeAt_other hdagree fun heq => hdc ?_⟩
        rw [hdfd, hself] at heq
        exact hs.distinct d c _ _ fd hd (heq ▸ socket_eq hk)
    · exact ⟨hdfd, hdagree⟩
  · rw [hsocket]
    exact hs.distinct
  · rw [put_pollers] at hfind
    rw [hsocket]
    split_ifs at hfind with hloop
    · rw [hl.map, hfd] at hfind
      split_ifs at hfind with hsame hnew
      · cases hfind
        rw [hloop, hsame]
        exact socket_eq hk
      · rw [hloop]
        exact hs.map _ fd d hfind
    · exact hs.map l fd d hfind
  · rw [put_pollers] at hfind
    rw [hsocket]
    split_ifs at hfind with hloop
    · rw [hl.interest, hfd] at hfind
      split_ifs at hfind with hsame hadded
      · cases hfind
        rw [hloop, hsame]
        exact socket_eq hk
      · rw [hloop]
        exact hs.interest _ fd mask d hfind
    · exact hs.interest l fd mask d hfind

/-- A call on `c` that changes no other handler. -/
theorem Inv.put {t : TcpConnection ConnId} (hs : Inv s) (hk : s.heap.find c = some k)
    (hkeeps : TcpConnection.Keeps { k.tcp with poller := s.pollers k.ioLoop } t)
    (hgone : c ∈ s.destroyed →
      t.state = .kDisconnected ∧ (t.poller.handlers c).state = .kNew) : Inv (s.put c k t) := by
  obtain ⟨hhandler, hd, hl⟩ := hkeeps
  replace hl : (s.pollers k.ioLoop).Local t.poller c hd := hs.handler c k hk ▸ hl
  refine ⟨hs.toPlacement.put hk hhandler hl, hs.connections, ?_, fun d hd => ?_, hs.noClash,
    hs.next⟩
  · rw [put_socket hk t]
    exact hs.loop
  · obtain ⟨hlt, hstate⟩ := hs.gone d hd
    refine ⟨hlt, fun k' hk' => ?_⟩
    rw [State.put, Table.find_insert] at hk'
    rw [put_pollers]
    split_ifs at hk' with hdc
    · cases hk'
      subst hdc
      rw [if_pos rfl]
      exact hgone hd
    · obtain ⟨hdisc, hnew⟩ := hstate k' hk'
      refine ⟨hdisc, ?_⟩
      split_ifs with hloop
      · rw [hl.other hdc, ← hloop]
        exact hnew
      · exact hnew

theorem Inv.placed (hs : Inv s) (hk : s.heap.find c = some k) :
    TcpConnection.Placed { k.tcp with poller := s.pollers k.ioLoop } := by
  show (s.pollers k.ioLoop).AgreeAt k.tcp.handler
  rw [hs.handler c k hk]
  exact (hs.agree c _ _ (socket_eq hk)).2

/-- A call on `c` that ends without a clash and changes no other handler. -/
theorem Inv.call {f : TcpConnection ConnId → Except Fault (TcpConnection ConnId)} (hs : Inv s)
    (hkeeping : ∀ k, s.heap.find c = some k → ∀ t, t.Placed → t.state = k.tcp.state →
      t.Keeping (f t) ∧ (c ∈ s.destroyed → ∀ t', f t = .ok t' →
        t'.state = .kDisconnected ∧ (t'.poller.handlers t.handler).state = .kNew)) :
    Inv (s.call c f) := by
  unfold State.call
  cases hk : s.heap.find c with
  | none => exact hs
  | some k =>
    obtain ⟨hends, hgone⟩ := hkeeping k hk _ (hs.placed hk) rfl
    dsimp only
    cases hf : f { k.tcp with poller := s.pollers k.ioLoop } with
    | error e => exact hs.crash (hends.fault hf)
    | ok t =>
      have hgone' : c ∈ s.destroyed →
          t.state = .kDisconnected ∧ (t.poller.handlers c).state = .kNew := by
        intro hc
        have := hgone hc t hf
        rwa [show ({ k.tcp with poller := s.pollers k.ioLoop } : TcpConnection ConnId).handler = c
          from hs.handler c k hk] at this
      refine (hs.put hk (hends.result hf) hgone').upcalls ⟨k.sockfd, ?_⟩
      rw [put_socket hk]
      exact socket_eq hk

theorem Inv.connectionEstablished (hs : Inv s) (c : ConnId) :
    Inv (s.exec (.connectionEstablished c)) := by
  refine hs.call fun k hk t ht hstate => ⟨TcpConnection.connectionEstablished_keeping ht, ?_⟩
  intro hc t' ht'
  -- a connection that is gone is not connecting
  have hconnecting := (check_bind_ok.mp ht').1
  rw [hstate, ((hs.gone c hc).2 k hk).1] at hconnecting
  cases hconnecting

/-- What `connectionDestroyed` leaves of the connection. -/
theorem connectionDestroyed_gone {t t' : TcpConnection ConnId} (ht : t.Placed)
    (h : t.connectionDestroyed = .ok t') :
    t'.state = .kDisconnected ∧ (t'.poller.handlers t.handler).state = .kNew := by
  obtain ⟨p, hok, hl⟩ := TcpConnection.connectionDestroyed_spec ht
  rw [hok] at h
  cases h
  exact ⟨rfl, by rw [hl.self]⟩

theorem call_ok {f : TcpConnection ConnId → Except Fault (TcpConnection ConnId)}
    {t : TcpConnection ConnId} (hk : s.heap.find c = some k)
    (hf : f { k.tcp with poller := s.pollers k.ioLoop } = .ok t) :
    Same (s.put c k t) (s.call c f) := by
  unfold State.call
  rw [hk]
  dsimp only
  rw [hf]
  exact same_upcalls _ _ _ _

/-- `connectionDestroyed` has run for `c`. -/
theorem Inv.destroyed (hs : Inv s) (hlt : c < s.nextConnId)
    (hgone : ∀ k, s.heap.find c = some k →
      k.tcp.state = .kDisconnected ∧ ((s.pollers k.ioLoop).handlers c).state = .kNew)
    (hpc : ∀ l cbs, (s.loops l).pc ≠ .dispatching c cbs) :
    Inv { s with destroyed := s.destroyed ++ [c] } := by
  refine ⟨⟨hs.handler, hs.known, hs.agree, hs.distinct, hs.map, hs.interest⟩, hs.connections,
    fun l => ⟨(hs.loop l).ready, (hs.loop l).accepting, fun d cbs hd => ?_⟩, fun d hd => ?_,
    hs.noClash, hs.next⟩
  · obtain ⟨hnot, hsocket⟩ := (hs.loop l).dispatching d cbs hd
    refine ⟨fun hmem => ?_, hsocket⟩
    rcases List.mem_append.mp hmem with hmem | hmem
    · exact hnot hmem
    · cases List.mem_singleton.mp hmem
      exact hpc l cbs hd
  · rcases List.mem_append.mp hd with hd | hd
    · exact hs.gone d hd
    · cases List.mem_singleton.mp hd
      exact ⟨hlt, hgone⟩

theorem Inv.connectionDestroyed {fd : Int} {i : Nat} (hs : Inv s)
    (hc : s.socket c = some (l, fd)) (hpc : (s.loops l).pc = .running i) :
    Inv (s.connectionDestroyed c) := by
  have hcall : Inv (s.call c TcpConnection.connectionDestroyed) :=
    hs.call fun k hk t ht _ => ⟨TcpConnection.connectionDestroyed_keeping ht,
      fun _ t' ht' => connectionDestroyed_gone ht ht'⟩
  obtain ⟨k, hk, -⟩ := Option.map_eq_some_iff.mp hc
  obtain ⟨p, hok, -⟩ := TcpConnection.connectionDestroyed_spec (hs.placed hk)
  have hgone := connectionDestroyed_gone (hs.placed hk) hok
  have hsame := call_ok hk hok
  refine hcall.destroyed ?_ (fun k' hk' => ?_) fun m cbs hm => ?_
  · rw [hsame.nextConnId]
    exact (hs.known c l fd hc).1
  · rw [hsame.heap, State.put, Table.find_insert_self] at hk'
    cases hk'
    rw [hsame.pollers]
    refine ⟨hgone.1, ?_⟩
    show ((Function.update s.pollers k.ioLoop p) k.ioLoop |>.handlers c).state = _
    rw [Function.update_self, ← hs.handler c k hk]
    exact hgone.2
  · -- the functor runs on the loop of the connection, which is in its batch
    rw [hsame.pc] at hm
    obtain ⟨-, fd', hsocket⟩ := (hs.loop m).dispatching c cbs hm
    rw [hc] at hsocket
    cases hsocket
    cases hpc.symm.trans hm

theorem Inv.exec {i : Nat} (hs : Inv s) (hf : f.Ready s.socket l)
    (hpc : (s.loops l).pc = .running i) : Inv (s.exec f) := by
  cases f with
  | connectionEstablished c => exact hs.connectionEstablished c
  | removeConnectionInLoop c => exact hs.removeConnectionInLoop c
  | connectionDestroyed c =>
    obtain ⟨fd, hc⟩ := hf
    exact hs.connectionDestroyed hc hpc
  | writeComplete c => exact hs

/-! ## 2. The end of a connection -/

theorem Functor.Ready.mono {socket socket' : ConnId → Option (LoopId × Int)}
    (h : f.Ready socket l) (hsub : ∀ x, socket f.conn = some x → socket' f.conn = some x) :
    f.Ready socket' l := by
  cases f with
  | removeConnectionInLoop c =>
    obtain ⟨x, hx⟩ := Option.isSome_iff_exists.mp h.2
    exact ⟨h.1, Option.isSome_of_eq_some (hsub x hx)⟩
  | _ =>
    obtain ⟨fd, hfd⟩ := h
    exact ⟨fd, hsub _ hfd⟩

/-- The functors that hold a pointer. -/
theorem mem_refs_of_functor {loop : Loop} (hf : f ∈ loop.tmpFunctors ++ loop.pendingFuntors) :
    f.conn ∈ loop.refs := by
  rw [Loop.refs, Loop.held, List.append_assoc, ← List.map_append]
  exact List.mem_append_right _ (List.mem_map_of_mem hf)

theorem mem_refs_of_stack {loop : Loop} (hc : c ∈ loop.pc.stack) : c ∈ loop.refs :=
  List.mem_append_left _ (List.mem_append_left _ hc)

theorem Inv.loop_le (hs : Inv s) (h : c ∈ (s.loops l).refs) : l ≤ s.threadsNum := by
  rw [Loop.refs, Loop.held, List.append_assoc, ← List.map_append, List.mem_append,
    List.mem_map] at h
  rcases h with h | ⟨f, hf, rfl⟩
  · cases hpc : (s.loops l).pc with
    | idle => simp [hpc, LoopPc.stack] at h
    | running i => simp [hpc, LoopPc.stack] at h
    | accepting d =>
      rw [((hs.loop l).accepting d hpc).1]
      exact Nat.zero_le _
    | dispatching d cbs =>
      obtain ⟨-, fd, hfd⟩ := (hs.loop l).dispatching d cbs hpc
      exact (hs.known d l fd hfd).2
  · have hready := (hs.loop l).ready f hf
    cases f with
    | removeConnectionInLoop d =>
      rw [hready.1]
      exact Nat.zero_le _
    | _ =>
      obtain ⟨fd, hfd⟩ := hready
      exact (hs.known _ l fd hfd).2

theorem Inv.mem_refs (hs : Inv s) (h : c ∈ (s.loops l).refs) : c ∈ s.refs := by
  refine List.mem_append_left _ (List.mem_flatMap.mpr ⟨l, ?_, h⟩)
  exact List.mem_range.mpr (Nat.lt_succ_of_le (hs.loop_le h))

theorem drop_socket (s : State) (c : ConnId) (k : Connection) (d : ConnId) :
    (s.drop c k).socket d = if d = c then none else s.socket d := by
  rw [State.socket, State.drop, Table.find_erase]
  split_ifs <;> rfl

theorem drop_handlers (s : State) (c : ConnId) (k : Connection) (l : LoopId) :
    ((s.drop c k).pollers l).handlers = (s.pollers l).handlers ∧
    ((s.drop c k).pollers l).handlermap = (s.pollers l).handlermap := by
  unfold State.drop
  by_cases hl : l = k.ioLoop
  · subst hl
    simp [EPollPoller.close]
  · simp [hl]

theorem drop_interest (s : State) (c : ConnId) (k : Connection) (l : LoopId) (fd : Int) :
    ((s.drop c k).pollers l).interest.find fd =
      if l = k.ioLoop ∧ fd = k.sockfd then none else (s.pollers l).interest.find fd := by
  unfold State.drop
  by_cases hl : l = k.ioLoop
  · subst hl
    simpa [EPollPoller.close] using Table.find_erase _ _ _
  · simp [hl]

/-- The descriptor of a connection whose handler has been removed can be closed. -/
theorem Placement.drop (hs : Placement s) (hk : s.heap.find c = some k)
    (hnew : ((s.pollers k.ioLoop).handlers c).state = .kNew) : Placement (s.drop c k) := by
  have hsocket := drop_socket s c k
  have hkept : ∀ {d l fd}, (s.drop c k).socket d = some (l, fd) →
      d ≠ c ∧ s.socket d = some (l, fd) := by
    intro d l fd hd
    rw [hsocket] at hd
    split_ifs at hd with hdc
    exact ⟨hdc, hd⟩
  have hself := hs.agree c _ _ (socket_eq hk)
  refine ⟨fun d k' hk' => ?_, fun d l fd hd => hs.known d l fd (hkept hd).2, fun d l fd hd => ?_,
    fun d d' l m fd hd hd' => hs.distinct d d' l m fd (hkept hd).2 (hkept hd').2,
    fun l fd d hfind => ?_, fun l fd mask d hfind => ?_⟩
  · rw [State.drop, Table.find_erase] at hk'
    split_ifs at hk'
    exact hs.handler d k' hk'
  · obtain ⟨hdc, hd⟩ := hkept hd
    obtain ⟨hfd, hagree⟩ := hs.agree d l fd hd
    obtain ⟨hhandlers, hmap⟩ := drop_handlers s c k l
    rw [hhandlers]
    refine ⟨hfd, ?_, ?_⟩
    · rw [hhandlers, hmap]
      exact hagree.map
    · rw [hhandlers, drop_interest, if_neg]
      · exact hagree.interest
      · rintro ⟨-, hsame⟩
        exact hdc (hs.distinct d c _ _ _ hd (by rw [socket_eq hk, ← hsame, hfd]))
  · rw [(drop_handlers s c k l).2] at hfind
    have hd := hs.map l fd d hfind
    rw [hsocket, if_neg, hd]
    rintro rfl
    -- the handler is not in the map
    rw [socket_eq hk] at hd
    cases hd
    rw [← hself.1, hself.2.not_found hnew] at hfind
    cases hfind
  · rw [drop_interest] at hfind
    split_ifs at hfind with hclosed
    have hd := hs.interest l fd mask d hfind
    rw [hsocket, if_neg, hd]
    rintro rfl
    -- the close has taken the descriptor out of the interest set
    rw [socket_eq hk] at hd
    cases hd
    exact hclosed ⟨rfl, rfl⟩

/-- A connection whose handler has been removed, and to which nothing points, can
be destroyed. -/
theorem Inv.drop (hs : Inv s) (hk : s.heap.find c = some k) (hrefs : c ∉ s.refs)
    (hnew : ((s.pollers k.ioLoop).handlers c).state = .kNew) : Inv (s.drop c k) := by
  refine ⟨hs.toPlacement.drop hk hnew, hs.connections, fun l => ?_, fun d hd => ?_, hs.noClash,
    hs.next⟩
  · have hother : ∀ d ∈ (s.loops l).refs, (s.drop c k).socket d = s.socket d := by
      intro d hd
      rw [drop_socket, if_neg]
      rintro rfl
      exact hrefs (hs.mem_refs hd)
    refine ⟨fun f hf => ?_, fun d hd => ?_, fun d cbs hd => ?_⟩
    · exact ((hs.loop l).ready f hf).mono fun x hx =>
        (hother _ (mem_refs_of_functor hf)).trans hx
    · have hd' : (s.loops l).pc = .accepting d := hd
      rw [hother d (mem_refs_of_stack (by simp [hd', LoopPc.stack]))]
      exact (hs.loop l).accepting d hd
    · have hd' : (s.loops l).pc = .dispatching d cbs := hd
      rw [hother d (mem_refs_of_stack (by simp [hd', LoopPc.stack]))]
      exact (hs.loop l).dispatching d cbs hd
  · obtain ⟨hlt, hgone⟩ := hs.gone d hd
    refine ⟨hlt, fun k' hk' => ?_⟩
    rw [State.drop, Table.find_erase] at hk'
    split_ifs at hk'
    rw [(drop_handlers s c k _).1]
    exact hgone k' hk'

/-- A pointer is released; where it was the last one, `connectionDestroyed` has run. -/
theorem Inv.release (hs : Inv s) (h : c ∈ s.refs ∨ c ∈ s.destroyed) : Inv (s.release c) := by
  unfold State.release State.destroy
  split_ifs with hrefs
  · exact hs
  cases hk : s.heap.find c with
  | none => exact hs
  | some k =>
    have hgone := (hs.gone c (h.resolve_left hrefs)).2 k hk
    exact hs.drop hk hrefs hgone.2

theorem release_refs (s : State) (c : ConnId) :
    (s.release c).refs = s.refs ∧ (s.release c).destroyed = s.destroyed := by
  unfold State.release State.destroy
  split_ifs
  · exact ⟨rfl, rfl⟩
  · cases s.heap.find c <;> exact ⟨rfl, rfl⟩

theorem Inv.releases {cs : List ConnId} (hs : Inv s)
    (h : ∀ c ∈ cs, c ∈ s.refs ∨ c ∈ s.destroyed) : Inv (cs.foldl State.release s) := by
  induction cs generalizing s with
  | nil => exact hs
  | cons c cs ih =>
    refine ih (hs.release (h c List.mem_cons_self)) fun d hd => ?_
    rw [(release_refs s c).1, (release_refs s c).2]
    exact h d (List.mem_cons_of_mem _ hd)

theorem Inv.leave (hs : Inv s)
    (h : ∀ c ∈ (s.loops l).held, c ∈ (s.unwind l).refs ∨ c ∈ s.destroyed) : Inv (s.leave l) := by
  have hunwound : Inv (s.unwind l) := by
    refine hs.setLoop ⟨fun f hf => ?_, fun c hc => (by cases hc), fun c cbs hc => (by cases hc)⟩
    exact (hs.loop l).ready f (List.mem_append_right _ hf)
  exact hunwound.releases h

/-! ## 3. A new connection -/

theorem not_mem_sockets {fd : Int} (h : fd ∉ s.sockets) (d : ConnId) (l : LoopId) :
    s.socket d ≠ some (l, fd) := by
  intro hd
  obtain ⟨k, hk, heq⟩ := Option.map_eq_some_iff.mp hd
  cases heq
  exact h (List.mem_map.mpr ⟨⟨d, k⟩, AList.mem_lookup_iff.mp hk, rfl⟩)

theorem Inv.getNextLoop_le (hs : Inv s) : s.getNextLoop.1 ≤ s.threadsNum ∧
    (s.threadsNum ≠ 0 → s.getNextLoop.2 < s.threadsNum) := by
  unfold State.getNextLoop
  split_ifs with h0 hwrap
  · exact ⟨Nat.zero_le _, fun h => absurd h0 h⟩
  · exact ⟨hs.next h0, fun h => Nat.pos_of_ne_zero h⟩
  · exact ⟨hs.next h0, fun _ => Nat.lt_of_not_ge hwrap⟩

theorem create_socket (s : State) (fd : Int) (d : ConnId) :
    (s.create fd).socket d =
      if d = s.nextConnId then some (s.getNextLoop.1, fd) else s.socket d := by
  rw [State.socket, State.create, Table.find_insert]
  split_ifs <;> rfl

/-- The record of the new handler is the only change in the pollers. -/
theorem create_pollers (s : State) (fd : Int) (l : LoopId) :
    (s.create fd).pollers l =
      if l = s.getNextLoop.1 then (s.pollers l).setHandler s.nextConnId (Handler.make fd)
      else s.pollers l := by
  unfold State.create
  by_cases hl : l = s.getNextLoop.1
  · rw [if_pos hl, hl]
    exact Function.update_self ..
  · rw [if_neg hl]
    exact Function.update_of_ne hl ..

theorem create_tables (s : State) (fd : Int) (l : LoopId) :
    ((s.create fd).pollers l).handlermap = (s.pollers l).handlermap ∧
    ((s.create fd).pollers l).interest = (s.pollers l).interest := by
  rw [create_pollers]
  split_ifs <;> exact ⟨rfl, rfl⟩

theorem create_handlers {fd : Int} {d : ConnId} (hd : d ≠ s.nextConnId) (l : LoopId) :
    ((s.create fd).pollers l).handlers d = (s.pollers l).handlers d := by
  rw [create_pollers]
  split_ifs
  · exact Function.update_of_ne hd ..
  · rfl

theorem Placement.create_old {fd : Int} {d : ConnId} {x : LoopId × Int} (hs : Placement s)
    (hd : s.socket d = some x) : (s.create fd).socket d = some x := by
  have hne : d ≠ s.nextConnId := by
    rintro rfl
    exact Nat.lt_irrefl _ (hs.known _ x.1 x.2 hd).1
  rw [create_socket, if_neg hne, hd]

/-- No poller has anything for a new descriptor. -/
theorem Placement.fresh {fd : Int} (hs : Placement s) (hfd : fd ∉ s.sockets) (l : LoopId) :
    (s.pollers l).handlermap.find fd = none ∧ (s.pollers l).interest.find fd = none :=
  ⟨Option.eq_none_iff_forall_ne_some.mpr fun d hd =>
      not_mem_sockets hfd d l (hs.map l fd d hd),
    Option.eq_none_iff_forall_ne_some.mpr fun e he =>
      not_mem_sockets hfd e.2 l (hs.interest l fd e.1 e.2 he)⟩

theorem Placement.create {fd : Int} (hs : Placement s) (hfd : fd ∉ s.sockets)
    (hle : s.getNextLoop.1 ≤ s.threadsNum) : Placement (s.create fd) := by
  have hnew := not_mem_sockets hfd
  have hsocket := create_socket s fd
  refine ⟨fun d k hk => ?_, fun d l fd' hd => ?_, fun d l fd' hd => ?_,
    fun d d' l m fd' hd hd' => ?_, fun l fd' d hfind => ?_, fun l fd' mask d hfind => ?_⟩
  · rw [State.create, Table.find_insert] at hk
    split_ifs at hk with hd
    · cases hk
      exact hd.symm
    · exact hs.handler d k hk
  · rw [hsocket] at hd
    split_ifs at hd with hdc
    · cases hd
      exact ⟨hdc ▸ Nat.lt_succ_self _, hle⟩
    · obtain ⟨hlt, hl⟩ := hs.known d l fd' hd
      exact ⟨Nat.lt_succ_of_lt hlt, hl⟩
  · rw [hsocket] at hd
    split_ifs at hd with hdc
    · -- the new handler, on a poller that has nothing for its descriptor
      cases hd
      have hself : ((s.create fd).pollers s.getNextLoop.1).handlers d = Handler.make fd := by
        rw [create_pollers, if_pos rfl, hdc]
        exact Function.update_self ..
      obtain ⟨hnomap, hnointerest⟩ := hs.fresh hfd s.getNextLoop.1
      refine ⟨by rw [hself]; rfl, ?_, ?_⟩
      · rw [hself, (create_tables s fd _).1]
        exact hnomap.trans (if_pos rfl).symm
      · rw [hself, (create_tables s fd _).2]
        exact hnointerest.trans (if_neg (by simp [Handler.make])).symm
    · obtain ⟨hdfd, hagree⟩ := hs.agree d l fd' hd
      rw [create_handlers hdc]
      refine ⟨hdfd, ?_, ?_⟩
      · rw [create_handlers hdc, (create_tables s fd l).1]
        exact hagree.map
      · rw [create_handlers hdc, (create_tables s fd l).2]
        exact hagree.interest
  · rw [hsocket] at hd hd'
    split_ifs at hd hd' with hdc hdc' hdc'
    · exact hdc.trans hdc'.symm
    · cases hd
      exact absurd hd' (hnew d' m)
    · cases hd'
      exact absurd hd (hnew d l)
    · exact hs.distinct d d' l m fd' hd hd'
  · exact hs.create_old (hs.map l fd' d ((create_tables s fd l).1 ▸ hfind))
  · exact hs.create_old (hs.interest l fd' mask d ((create_tables s fd l).2 ▸ hfind))

theorem Inv.create {fd : Int} (hs : Inv s) (hfd : fd ∉ s.sockets) : Inv (s.create fd) := by
  obtain ⟨hle, hnext⟩ := hs.getNextLoop_le
  refine ⟨hs.toPlacement.create hfd hle, hs.connections,
    fun l => ⟨fun f hf => ?_, fun d hd => ?_, fun d cbs hd => ?_⟩, fun d hd => ?_, hs.noClash,
    hnext⟩
  · exact ((hs.loop l).ready f hf).mono fun x hx => hs.create_old hx
  · obtain ⟨hl, hsome⟩ := (hs.loop l).accepting d hd
    obtain ⟨x, hx⟩ := Option.isSome_iff_exists.mp hsome
    exact ⟨hl, Option.isSome_of_eq_some (hs.create_old hx)⟩
  · obtain ⟨hnot, fd', hx⟩ := (hs.loop l).dispatching d cbs hd
    exact ⟨hnot, fd', hs.create_old hx⟩
  · obtain ⟨hlt, hgone⟩ := hs.gone d hd
    refine ⟨Nat.lt_succ_of_lt hlt, fun k hk => ?_⟩
    rw [State.create, Table.find_insert, if_neg (Nat.ne_of_lt hlt)] at hk
    rw [create_handlers (Nat.ne_of_lt hlt)]
    exact hgone k hk

theorem Inv.newConnection {fd : Int} (hs : Inv s) (hfd : fd ∉ s.sockets) :
    Inv (s.newConnection fd) := by
  have hcreated := hs.create hfd
  have hsocket : (s.create fd).socket s.nextConnId = some (s.getNextLoop.1, fd) := by
    rw [create_socket, if_pos rfl]
  have hloop := hcreated.loop 0
  have haccepting : Inv ((s.create fd).setPc 0 (.accepting s.nextConnId)) := by
    refine hcreated.setLoop ⟨hloop.ready, fun c hc => ?_, fun c cbs hc => (by cases hc)⟩
    cases hc
    exact ⟨rfl, Option.isSome_of_eq_some hsocket⟩
  show Inv (if s.getNextLoop.1 = 0 then _ else _)
  split_ifs
  · exact haccepting.connectionEstablished _
  · exact haccepting.queueInLoop ⟨fd, hsocket⟩

/-! ## 4. The steps -/

/-- The loop that lets go of its pointers in a step. -/
def Act.leaving : Act → Option LoopId
  | .newConnectionDone => some 0
  | .eventHandled l => some l
  | .batchDone l => some l
  | _ => none

/-- The condition on the steps: where a pointer to a connection goes away, another
one is left, or its `connectionDestroyed` has run. -/
def Kept (s : State) (a : Act) : Prop :=
  ∀ l ∈ a.leaving, ∀ c ∈ (s.loops l).held, c ∈ (s.unwind l).refs ∨ c ∈ s.destroyed

instance (s : State) (a : Act) : Decidable (Kept s a) := by
  unfold Kept
  infer_instance

theorem Inv.not_destroyed (hs : Inv s) (hk : s.heap.find c = some k)
    (h : k.tcp.state ≠ .kDisconnected) : c ∉ s.destroyed := fun hc =>
  h ((hs.gone c hc).2 k hk).1

/-- A callback of the handler that is being dispatched. -/
theorem Inv.dispatch {f : TcpConnection ConnId → Except Fault (TcpConnection ConnId)} (hs : Inv s)
    (hf : ∀ t : TcpConnection ConnId, t.Placed → t.Keeping (f t)) : Inv (s.dispatch l f) := by
  unfold State.dispatch
  cases hpc : (s.loops l).pc with
  | dispatching c cbs =>
    cases cbs with
    | nil => exact hs
    | cons cb rest =>
      have hloop := hs.loop l
      have hdis := hloop.dispatching c (cb :: rest) hpc
      have hmoved : Inv (s.setPc l (.dispatching c rest)) := by
        refine hs.setLoop ⟨hloop.ready, fun d hd => (by cases hd), fun d cbs hd => ?_⟩
        cases hd
        exact hdis
      exact hmoved.call fun k hk t ht _ => ⟨hf t ht, fun hc => absurd hc hdis.1⟩
  | _ => exact hs

theorem Inv.step {a : Act} (hs : Inv s) (hkept : Kept s a) (hg : guard s a) : Inv (effect s a) := by
  obtain ⟨-, hg⟩ := hg
  cases a with
  | newConnection fd => exact hs.newConnection hg.2.2
  | newConnectionDone => exact hs.leave (hkept 0 rfl)
  | handleEvent l fd revents =>
    simp only [effect]
    split
    · next mask c hfind =>
      have hsocket := hs.interest l fd mask c hfind
      obtain ⟨hfd, hagree⟩ := hs.agree c l fd hsocket
      split_ifs
      · have hloop := hs.loop l
        refine hs.setLoop ⟨hloop.ready, fun d hd => (by cases hd), fun d cbs hd => ?_⟩
        cases hd
        refine ⟨fun hc => ?_, fd, hsocket⟩
        -- the handler of a connection that is gone is not registered
        obtain ⟨k, hk, heq⟩ := Option.map_eq_some_iff.mp hsocket
        cases heq
        have hnew := ((hs.gone c hc).2 k hk).2
        rw [← hfd, hagree.not_registered (by simp [hnew])] at hfind
        cases hfind
      · exact hs
    · exact hs
  | handleClose l => exact hs.dispatch fun t ht => TcpConnection.handleClose_keeping ht
  | handleError l => exact hs.dispatch fun t ht => Ends.ok (TcpConnection.Keeps.refl ht)
  | handleRead l r => exact hs.dispatch fun t ht => TcpConnection.handleRead_keeping ht
  | handleWrite l r => exact hs.dispatch fun t ht => TcpConnection.handleWrite_keeping ht
  | eventHandled l => exact hs.leave (hkept l rfl)
  | swap l =>
    have hloop := hs.loop l
    refine hs.setLoop ⟨fun f hf => ?_, fun d hd => (by cases hd), fun d cbs hd => (by cases hd)⟩
    rw [List.append_nil] at hf
    exact hloop.ready f (List.mem_append_right _ hf)
  | runFunctor l =>
    have hloop := hs.loop l
    simp only [effect, Loop.nextFunctor]
    cases hpc : (s.loops l).pc with
    | running i =>
      dsimp only
      cases hfun : (s.loops l).tmpFunctors[i]? with
      | none => exact hs
      | some f =>
        have hmem : f ∈ (s.loops l).tmpFunctors := List.mem_of_getElem? hfun
        have hmoved : Inv (s.setPc l (.running (i + 1))) :=
          hs.setLoop ⟨hloop.ready, fun d hd => (by cases hd), fun d cbs hd => (by cases hd)⟩
        have hpc' : ((s.setPc l (.running (i + 1))).loops l).pc = .running (i + 1) := by
          simp [State.setPc, State.setLoop]
        exact hmoved.exec (hloop.ready f (List.mem_append_left _ hmem)) hpc'
    | _ => exact hs
  | batchDone l => exact hs.leave (hkept l rfl)
  | send l c data r =>
    obtain ⟨⟨-, hconn⟩, hr⟩ := hg
    refine hs.call fun k hk t ht _ => ⟨TcpConnection.sendInLoop_keeping ht hr, fun hc => ?_⟩
    rw [hk] at hconn
    exact absurd hc (hs.not_destroyed hk (by simp [hconn.2]))
  | shutdown l c =>
    obtain ⟨-, hconn⟩ := hg
    refine hs.call fun k hk t ht _ => ⟨Ends.ok (TcpConnection.shutdownInLoop_keeps ht),
      fun hc => ?_⟩
    rw [hk] at hconn
    exact absurd hc (hs.not_destroyed hk (by simp [hconn.2]))

end

end Server

end NetFrame
