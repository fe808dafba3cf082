import NetFrame.Lib.Decimal
import NetFrame.Ownership
import NetFrame.SocketOps

/-!
# The names of connections

`TcpServer::newConnection` prints `:ip:port#id` into 32 bytes, with the listen
address from `InetAddress::toIpPort` and an id that counts the connections. The
printer keeps 31 characters, so that a long address leaves the id too little room.

Results:
1. `names_collide`: on an address of 21 characters two of the first 10^8
   connections have the same name.
2. `names_unique_iff`: the connections of a run have different names exactly when
   there are fewer than `10 ^ (29 - l)` of them, for an address of `l` characters.
-/

namespace NetFrame

/-! ## 1. Printing an address -/

/-- `sockaddr_in`: the fields as the code reads them, in network order. -/
structure SockaddrIn where
  sin_addr : BitVec 32
  sin_port : BitVec 16
  deriving DecidableEq, Repr

/-- What `snprintf` leaves in a buffer of `size` bytes, for the formatted text. -/
def snprintf (size : Nat) (text : String) : String := String.ofList (text.toList.take (size - 1))

namespace SocketOps

def INET_ADDRSTRLEN : Nat := 16

/-- The dotted quad of the four bytes in memory, if it fits into `size` bytes. -/
def inet_ntop (o : ByteOrder) (src : BitVec 32) (size : Nat) : Option String :=
  match memory o 4 src.toNat with
  | [a, b, c, d] =>
    let tmp := toString a.toNat ++ "." ++ toString b.toNat ++ "." ++ toString c.toNat ++ "." ++
      toString d.toNat
    if tmp.length < size then some tmp else none
  | _ => none

def toIpPort (o : ByteOrder) (size : Nat) (addr : SockaddrIn) : String :=
  let host := (inet_ntop o addr.sin_addr INET_ADDRSTRLEN).getD "INVALID"
  let port := networkToHost16 o addr.sin_port
  snprintf size (host ++ ":" ++ toString port.toNat)

end SocketOps

namespace InetAddress

/-- `InetAddress(uint16_t port)`: any interface. -/
def ofPort (o : ByteOrder) (port : BitVec 16) : SockaddrIn where
  sin_addr := hostToNetwork32 o 0
  sin_port := hostToNetwork16 o port

def toIpPort (o : ByteOrder) (m_addr : SockaddrIn) : String := SocketOps.toIpPort o 32 m_addr

/-- A number of at most `k` digits. -/
theorem length_toString_le {k n : Nat} (hk : 0 < k) (h : n < 10 ^ k) :
    (toString n).length ≤ k :=
  (Nat.length_repr_le_iff hk).mpr h

theorem length_inet_ntop {o : ByteOrder} {src : BitVec 32} {size : Nat} {host : String}
    (h : SocketOps.inet_ntop o src size = some host) : host.length < size := by
  unfold SocketOps.inet_ntop at h
  split at h
  · dsimp only at h
    split at h
    · next hlt =>
      cases h
      exact hlt
    · cases h
  · cases h

theorem length_snprintf_le (size : Nat) (text : String) :
    (snprintf size text).length ≤ text.length := by
  rw [snprintf, String.length_ofList, ← String.length_toList]
  exact List.length_take_le' _ _

/-- A printed address has at most 21 characters. -/
theorem length_toIpPort_le (o : ByteOrder) (addr : SockaddrIn) :
    (toIpPort o addr).length ≤ 21 := by
  have hport : (toString (networkToHost16 o addr.sin_port).toNat).length ≤ 5 :=
    length_toString_le (by decide) ((BitVec.isLt _).trans (by decide))
  have hhost : ((SocketOps.inet_ntop o addr.sin_addr SocketOps.INET_ADDRSTRLEN).getD
      "INVALID").length ≤ 15 := by
    cases h : SocketOps.inet_ntop o addr.sin_addr SocketOps.INET_ADDRSTRLEN with
    | none => decide
    | some host => exact Nat.le_of_lt_succ (length_inet_ntop h)
  refine (length_snprintf_le _ _).trans ?_
  rw [String.length_append, String.length_append]
  exact Nat.add_le_add (Nat.add_le_add hhost (Nat.le_refl 1)) hport

end InetAddress

namespace Server

open Trans

variable {s t : State} {c : ConnId} {l : LoopId}

/-! ## 2. The names of a run -/

/-- `connName` prints the address and the id into `char buf[32]`. -/
theorem connName_eq (s : State) (c : ConnId) :
    s.connName c = snprintf 32 (":" ++ s.hostPort ++ "#" ++ toString c) := rfl

/-- The name that a step gives to a connection. -/
def nameGiven (s : State) : Act → List String
  | .newConnection _ => [s.connName s.nextConnId]
  | _ => []

/-- The names that the calls of `newConnection` in a run give, in order. -/
def namesGiven (s : State) : List Act → List String
  | [] => []
  | a :: as =>
    nameGiven s a ++
      match machine.step s a with
      | some t => namesGiven t as
      | none => []

/-- What the names are made of is the same. -/
structure SameNames (s t : State) : Prop where
  hostPort : t.hostPort = s.hostPort
  nextConnId : t.nextConnId = s.nextConnId

theorem SameNames.refl (s : State) : SameNames s s := ⟨rfl, rfl⟩

theorem SameNames.trans {u : State} (h : SameNames s t) (h' : SameNames t u) : SameNames s u :=
  ⟨h'.hostPort.trans h.hostPort, h'.nextConnId.trans h.nextConnId⟩

theorem sameNames_removeConnectionInLoop (s : State) (c : ConnId) :
    SameNames s (s.removeConnectionInLoop c) := by
  unfold State.removeConnectionInLoop
  cases s.heap.find c with
  | none => exact .refl s
  | some k => exact ⟨rfl, rfl⟩

theorem sameNames_upcalls (us : List Upcall) (l : LoopId) (c : ConnId) (s : State) :
    SameNames s (us.foldl (State.upcall l c) s) := by
  induction us generalizing s with
  | nil => exact .refl s
  | cons u us ih =>
    refine .trans ?_ (ih _)
    cases u with
    | connectionCB => exact .refl s
    | messageCB => exact .refl s
    | closeCB =>
      show SameNames s (s.removeConnection l c)
      unfold State.removeConnection
      split
      · exact sameNames_removeConnectionInLoop s c
      · exact ⟨rfl, rfl⟩
    | queueWriteComplete => exact ⟨rfl, rfl⟩

theorem sameNames_call (s : State) (c : ConnId)
    (f : TcpConnection ConnId → Except Fault (TcpConnection ConnId)) :
    SameNames s (s.call c f) := by
  unfold State.call
  cases s.heap.find c with
  | none => exact .refl s
  | some k =>
    dsimp only
    cases f { k.tcp with poller := s.pollers k.ioLoop } with
    | error e => exact ⟨rfl, rfl⟩
    | ok tcp =>
      have h := sameNames_upcalls tcp.upcalls k.ioLoop c (s.put c k tcp)
      exact ⟨h.hostPort, h.nextConnId⟩

theorem sameNames_exec (s : State) (f : Functor) : SameNames s (s.exec f) := by
  cases f with
  | connectionEstablished c => exact sameNames_call s c _
  | removeConnectionInLoop c => exact sameNames_removeConnectionInLoop s c
  | connectionDestroyed c =>
    have h := sameNames_call s c TcpConnection.connectionDestroyed
    exact ⟨h.hostPort, h.nextConnId⟩
  | writeComplete c => exact .refl s

theorem sameNames_dispatch (s : State) (l : LoopId)
    (f : TcpConnection ConnId → Except Fault (TcpConnection ConnId)) :
    SameNames s (s.dispatch l f) := by
  unfold State.dispatch
  split
  · next c _ rest _ =>
    have h := sameNames_call (s.setPc l (.dispatching c rest)) c f
    exact ⟨h.hostPort, h.nextConnId⟩
  · exact .refl s

theorem sameNames_releases (cs : List ConnId) (s : State) :
    SameNames s (cs.foldl State.release s) := by
  induction cs generalizing s with
  | nil => exact .refl s
  | cons c cs ih =>
    refine .trans ?_ (ih _)
    unfold State.release State.destroy
    split
    · exact .refl s
    · cases s.heap.find c with
      | none => exact .refl s
      | some k => exact ⟨rfl, rfl⟩

theorem sameNames_leave (s : State) (l : LoopId) : SameNames s (s.leave l) := by
  have h := sameNames_releases (s.loops l).held (s.unwind l)
  exact ⟨h.hostPort, h.nextConnId⟩

/-- `newConnection` numbers the connection and does not touch the names otherwise. -/
theorem sameNames_newConnection (s : State) (fd : Int) :
    SameNames { s with nextConnId := s.nextConnId + 1 } (s.newConnection fd) := by
  show SameNames _ (if s.getNextLoop.1 = 0 then _ else _)
  split
  · have h := sameNames_exec ((s.create fd).setPc 0 (.accepting s.nextConnId))
      (.connectionEstablished s.nextConnId)
    exact ⟨h.hostPort, h.nextConnId⟩
  · exact ⟨rfl, rfl⟩

/-- A step gives no name and leaves the names alone, or gives the next one. -/
theorem effect_names (s : State) (a : Act) :
    nameGiven s a = [] ∧ SameNames s (effect s a) ∨
    nameGiven s a = [s.connName s.nextConnId] ∧
      SameNames { s with nextConnId := s.nextConnId + 1 } (effect s a) := by
  cases a with
  | newConnection fd => exact .inr ⟨rfl, sameNames_newConnection s fd⟩
  | newConnectionDone => exact .inl ⟨rfl, sameNames_leave s 0⟩
  | handleEvent l fd revents =>
    refine .inl ⟨rfl, ?_⟩
    simp only [effect]
    split
    · split
      · exact ⟨rfl, rfl⟩
      · exact .refl s
    · exact .refl s
  | handleClose l => exact .inl ⟨rfl, sameNames_dispatch s l _⟩
  | handleError l => exact .inl ⟨rfl, sameNames_dispatch s l _⟩
  | handleRead l r => exact .inl ⟨rfl, sameNames_dispatch s l _⟩
  | handleWrite l r => exact .inl ⟨rfl, sameNames_dispatch s l _⟩
  | eventHandled l => exact .inl ⟨rfl, sameNames_leave s l⟩
  | swap l => exact .inl ⟨rfl, rfl, rfl⟩
  | runFunctor l =>
    refine .inl ⟨rfl, ?_⟩
    simp only [effect]
    split
    · next f _ =>
      have h := sameNames_exec (s.setPc l (s.loops l).pc.next) f
      exact ⟨h.hostPort, h.nextConnId⟩
    · exact .refl s
  | batchDone l => exact .inl ⟨rfl, sameNames_leave s l⟩
  | send l c data r =>
    refine .inl ⟨rfl, ?_⟩
    simp only [effect]
    exact sameNames_call s c _
  | shutdown l c =>
    refine .inl ⟨rfl, ?_⟩
    simp only [effect]
    exact sameNames_call s c _

theorem connName_congr (h : t.hostPort = s.hostPort) : t.connName = s.connName := by
  unfold State.connName
  rw [h]

/-- The calls of a run number the connections from `m_nextConnId` on. -/
theorem namesGiven_eq {as : List Act} (hrun : machine.run s as = some t) :
    t.nextConnId = s.nextConnId + (namesGiven s as).length ∧
      namesGiven s as =
        (List.range' s.nextConnId (namesGiven s as).length).map s.connName := by
  induction as generalizing s with
  | nil =>
    cases hrun
    exact ⟨rfl, rfl⟩
  | cons a as ih =>
    obtain ⟨u, hstep, hrest⟩ := machine.run_cons_some hrun
    obtain ⟨-, rfl⟩ := Machine.guarded_step.mp hstep
    obtain ⟨hnext, hnames⟩ := ih hrest
    rw [namesGiven, hstep]
    dsimp only
    rcases effect_names s a with ⟨hname, hsame⟩ | ⟨hname, hsame⟩
    · rw [connName_congr hsame.hostPort, hsame.nextConnId] at hnames
      rw [hname, List.nil_append, hnext, hsame.nextConnId]
      exact ⟨rfl, hnames⟩
    · have hnumber : (effect s a).nextConnId = s.nextConnId + 1 := hsame.nextConnId
      rw [connName_congr (s := s) hsame.hostPort, hnumber] at hnames
      rw [hname, hnext, hnumber, List.singleton_append, List.length_cons, List.range'_succ,
        List.map_cons, ← hnames]
      exact ⟨Nat.add_right_comm _ _ _, rfl⟩

/-! ## 3. When they differ -/

/-- A name: what is the same for all, and the part of the id that there is room for. -/
theorem connName_cut {hostPort : String} (hs : s.hostPort = hostPort) (hlen : hostPort.length ≤ 21)
    (c : ConnId) : s.connName c = String.ofList ((":" ++ hostPort ++ "#").toList ++
      (Nat.toDigits 10 c).take (29 - hostPort.length)) := by
  have hprefix : (":" ++ hostPort ++ "#").toList.length = hostPort.length + 2 := by
    have hcolon : ":".length = 1 := rfl
    have hhash : "#".length = 1 := rfl
    rw [String.length_toList, String.length_append, String.length_append]
    omega
  rw [connName_eq, snprintf, hs, String.toList_append, List.take_append,
    List.take_of_length_le (by omega), hprefix, Nat.toString_eq_repr, Nat.toList_repr]
  congr 3
  omega

/-- The first `n` names. -/
theorem connNames_nodup_iff {hostPort : String} (hs : s.hostPort = hostPort)
    (hlen : hostPort.length ≤ 21) (n : Nat) :
    ((List.range' 1 n).map s.connName).Nodup ↔ n < 10 ^ (29 - hostPort.length) := by
  have hcut : s.connName = (fun digits => String.ofList ((":" ++ hostPort ++ "#").toList ++
      digits)) ∘ fun c => (Nat.toDigits 10 c).take (29 - hostPort.length) :=
    funext (connName_cut hs hlen)
  have hinj : Function.Injective fun digits =>
      String.ofList ((":" ++ hostPort ++ "#").toList ++ digits) := by
    intro x y hxy
    exact List.append_cancel_left (String.ofList_injective hxy)
  rw [hcut, ← List.map_map, List.nodup_map_iff hinj]
  exact Decimal.numbered_nodup_iff (by omega) n

/-! ### A run that uses the ids up -/

/-- The I/O thread does not run while the server accepts `n` connections. -/
def acceptMany : Nat → List Act
  | 0 => []
  | n + 1 => acceptMany n ++ [.newConnection n, .newConnectionDone]

/-- A server with an I/O thread has accepted connections on descriptors below `n`. -/
structure Accepting (n : Nat) (s : State) : Prop where
  crashed : s.crashed = none
  idle : (s.loops 0).pc = .idle
  threadsNum : s.threadsNum = 1
  nextConnId : s.nextConnId = n + 1
  sockfd : ∀ c k, s.heap.find c = some k → k.sockfd < n

theorem Accepting.not_mem_sockets {n : Nat} (hs : Accepting n s) : (n : Int) ∉ s.sockets := by
  intro hmem
  obtain ⟨⟨c, k⟩, he, hfd⟩ := List.mem_map.mp hmem
  have hlt := hs.sockfd c k (AList.mem_lookup_iff.mpr he)
  exact absurd hfd (Int.ne_of_lt hlt)

theorem Accepting.releases {n : Nat} {cs : List ConnId} (hs : Accepting n s) :
    Accepting n (cs.foldl State.release s) := by
  induction cs generalizing s with
  | nil => exact hs
  | cons c cs ih =>
    refine ih ?_
    unfold State.release State.destroy
    split
    · exact hs
    · cases s.heap.find c with
      | none => exact hs
      | some k =>
        refine ⟨hs.crashed, hs.idle, hs.threadsNum, hs.nextConnId, fun d k' hk' => ?_⟩
        replace hk' : Table.find (s.heap.erase c) d = some k' := hk'
        rw [Table.find_erase] at hk'
        split at hk'
        · cases hk'
        · exact hs.sockfd d k' hk'

/-- One more connection. -/
theorem Accepting.accept {n : Nat} (hs : Accepting n s) :
    ∃ t, machine.run s [.newConnection n, .newConnectionDone] = some t ∧ Accepting (n + 1) t := by
  have hnew : s.newConnection n = ((s.create n).setPc 0 (.accepting s.nextConnId)).queueInLoop
      (s.next + 1) (.connectionEstablished s.nextConnId) := by
    have hloop : s.getNextLoop.1 = s.next + 1 := by
      rw [State.getNextLoop, if_neg (by rw [hs.threadsNum]; decide)]
    show (if s.getNextLoop.1 = 0 then _ else _) = _
    rw [hloop, if_neg (Nat.succ_ne_zero _)]
  have hfirst : machine.step s (.newConnection n) = some (s.newConnection n) :=
    Machine.guarded_step.mpr
      ⟨⟨hs.crashed, hs.idle, Int.natCast_nonneg n, hs.not_mem_sockets⟩, rfl⟩
  have hpc : ((s.newConnection n).loops 0).pc = .accepting s.nextConnId := by
    rw [hnew]
    simp [State.queueInLoop, State.setLoop, State.setPc]
  have hsecond : machine.step (s.newConnection n) .newConnectionDone =
      some ((s.newConnection n).leave 0) := by
    refine Machine.guarded_step.mpr ⟨⟨?_, by rw [hpc]; rfl⟩, rfl⟩
    rw [hnew]
    exact hs.crashed
  refine ⟨(s.newConnection n).leave 0, ?_, Accepting.releases ?_⟩
  · rw [machine.run_cons, hfirst, Option.bind_some, machine.run_singleton, hsecond]
  · rw [hnew]
    refine ⟨hs.crashed, ?_, hs.threadsNum, congrArg (· + 1) hs.nextConnId, fun c k hk => ?_⟩
    · simp [State.unwind, State.setLoop]
    · replace hk : Table.find (s.heap.insert s.nextConnId _) c = some k := hk
      rw [Table.find_insert] at hk
      split at hk
      · cases hk
        exact Int.lt_succ n
      · exact (hs.sockfd c k hk).trans (Int.lt_succ n)

theorem acceptMany_runs (hostPort : String) (cb : Bool) (n : Nat) :
    ∃ s, machine.run (start hostPort 1 cb) (acceptMany n) = some s ∧ Accepting n s := by
  induction n with
  | zero =>
    refine ⟨start hostPort 1 cb, rfl, rfl, rfl, rfl, rfl, fun c k hk => ?_⟩
    replace hk : Table.find (∅ : Table ConnId Connection) c = some k := hk
    rw [Table.find_empty] at hk
    cases hk
  | succ n ih =>
    obtain ⟨s, hrun, hs⟩ := ih
    obtain ⟨t, hstep, ht⟩ := hs.accept
    exact ⟨t, by rw [acceptMany, machine.run_append, hrun, Option.bind_some, hstep], ht⟩

theorem acceptMany_names {hostPort : String} (hlen : hostPort.length ≤ 21) (cb : Bool) (n : Nat) :
    ∃ s, machine.run (start hostPort 1 cb) (acceptMany n) = some s ∧
      (namesGiven (start hostPort 1 cb) (acceptMany n)).length = n ∧
      ((namesGiven (start hostPort 1 cb) (acceptMany n)).Nodup ↔
        n < 10 ^ (29 - hostPort.length)) := by
  obtain ⟨s, hrun, hs⟩ := acceptMany_runs hostPort cb n
  obtain ⟨hnext, hnames⟩ := namesGiven_eq hrun
  have hfirst : (start hostPort 1 cb).nextConnId = 1 := rfl
  have hcount : (namesGiven (start hostPort 1 cb) (acceptMany n)).length = n := by
    rw [hs.nextConnId, hfirst, Nat.add_comm] at hnext
    exact (Nat.add_left_cancel hnext).symm
  refine ⟨s, hrun, hcount, ?_⟩
  rw [hnames, hcount, hfirst]
  exact connNames_nodup_iff rfl hlen n

/-- 192.168.100.100, port 10000, in the memory of a little-endian host. -/
def lanAddress : SockaddrIn where
  sin_addr := 0x6464a8c0
  sin_port := 0x1027

/-- Its 21 characters leave room for 8 digits: among the first 10^8 names there
are two that are the same, those of the connections 10^7 and 10^8. -/
theorem names_collide :
    InetAddress.toIpPort .little lanAddress = "192.168.100.100:10000" ∧
    ∃ s, machine.run (start (InetAddress.toIpPort .little lanAddress) 1 false)
        (acceptMany 100000000) = some s ∧
      (namesGiven (start (InetAddress.toIpPort .little lanAddress) 1 false)
        (acceptMany 100000000)).length < 2 ^ 31 - 1 ∧
      ¬(namesGiven (start (InetAddress.toIpPort .little lanAddress) 1 false)
        (acceptMany 100000000)).Nodup := by
  have haddr : InetAddress.toIpPort .little lanAddress = "192.168.100.100:10000" := by
    decide +kernel
  obtain ⟨s, hrun, hcount, hnodup⟩ := acceptMany_names
    (InetAddress.length_toIpPort_le .little lanAddress) false 100000000
  refine ⟨haddr, s, hrun, by rw [hcount]; decide, fun hdiffer => ?_⟩
  have hlen : (InetAddress.toIpPort .little lanAddress).length = 21 := by
    rw [haddr]
    decide
  have hlt := hnodup.mp hdiffer
  rw [hlen] at hlt
  exact absurd hlt (by decide)

/-- Fewer than 2^31 - 1 calls of `newConnection` keep `m_nextConnId` an `int`, and
give different names exactly when there are fewer of them than numbers with as
many digits as the printed address leaves room for. -/
theorem names_unique_iff (o : ByteOrder) (listenAddr : SockaddrIn) (threadsNum : Nat) (cb : Bool)
    {as : List Act}
    (hrun : machine.run (start (InetAddress.toIpPort o listenAddr) threadsNum cb) as = some s)
    (hcalls : (namesGiven (start (InetAddress.toIpPort o listenAddr) threadsNum cb) as).length <
      2 ^ 31 - 1) :
    s.nextConnId ≤ 2 ^ 31 - 1 ∧
    ((namesGiven (start (InetAddress.toIpPort o listenAddr) threadsNum cb) as).Nodup ↔
      (namesGiven (start (InetAddress.toIpPort o listenAddr) threadsNum cb) as).length <
        10 ^ (29 - (InetAddress.toIpPort o listenAddr).length)) := by
  obtain ⟨hnext, hnames⟩ := namesGiven_eq hrun
  have hfirst : (start (InetAddress.toIpPort o listenAddr) threadsNum cb).nextConnId = 1 := rfl
  have hhost : (start (InetAddress.toIpPort o listenAddr) threadsNum cb).hostPort =
      InetAddress.toIpPort o listenAddr := rfl
  refine ⟨?_, ?_⟩
  · rw [hnext, hfirst, Nat.add_comm]
    exact Nat.succ_le_of_lt hcalls
  · rw [hnames, List.length_map, List.length_range', hfirst]
    exact connNames_nodup_iff hhost (InetAddress.length_toIpPort_le o listenAddr) _

/-- A server on port 9981 of any interface with two connections. -/
theorem twoConnections_unique :
    (namesGiven (start (InetAddress.toIpPort .little (InetAddress.ofPort .little 9981)) 1 false)
      (acceptMany 2)).Nodup := by
  obtain ⟨s, hrun, -⟩ := acceptMany_runs
    (InetAddress.toIpPort .little (InetAddress.ofPort .little 9981)) false 2
  exact (names_unique_iff .little (InetAddress.ofPort .little 9981) 1 false hrun
    (by decide +kernel)).2.mpr (by decide +kernel)

end Server

end NetFrame
