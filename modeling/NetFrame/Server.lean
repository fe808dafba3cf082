import NetFrame.Connection

/-!
# TcpServer: who owns a connection

`TcpServer.cpp` on a base loop and any number of I/O loops. A `TcpConnectionPtr`
is held by `newConnection`, by the guard of `Handler::handleEvent`, by a functor
until its batch is over, and by `m_connections`. The callbacks of the user may
send and shut down, but keep no pointer.

Result:
`server_forgets`: `newConnection` does not enter the connection into
`m_connections`, so that it is destroyed while its handler is in the poller's
map, and the next accept of the same descriptor fails an assertion.
-/

namespace NetFrame

namespace Server

/-! ## 1. The server and its loops -/

/-- A connection, named by `m_nextConnId` at its creation. -/
abbrev ConnId := Nat

/-- Loop 0 is the base loop, the others are `m_loops` of the pool. -/
abbrev LoopId := Nat

inductive Functor where
  | connectionEstablished (c : ConnId)
  | removeConnectionInLoop (c : ConnId)
  | connectionDestroyed (c : ConnId)
  | writeComplete (c : ConnId)
  deriving DecidableEq, Repr

/-- The connection that a functor is bound to, and keeps alive. -/
def Functor.conn : Functor → ConnId
  | .connectionEstablished c => c
  | .removeConnectionInLoop c => c
  | .connectionDestroyed c => c
  | .writeComplete c => c

/-- Where a loop is. -/
inductive LoopPc where
  /-- In `PollEvent`, or between two active handlers. -/
  | idle
  /-- In `newConnection`, with its local `conn`. -/
  | accepting (c : ConnId)
  /-- In `Handler::handleEvent`, with its guard and the callbacks still to make. -/
  | dispatching (c : ConnId) (callbacks : List Handler.Callback)
  /-- In `m_doPendingFunctors`, before the functor with this index. -/
  | running (i : Nat)
  deriving DecidableEq, Repr

structure Loop where
  pc : LoopPc
  tmpFunctors : List Functor
  pendingFuntors : List Functor

/-- A `TcpConnection` with the fields that `TcpServer` sets. -/
structure Connection where
  name : String
  ioLoop : LoopId
  sockfd : Int
  /-- Its functions; they work on the poller of `ioLoop`, which `call` puts in. -/
  tcp : TcpConnection ConnId

structure State where
  hostPort : String
  /-- `m_loops.size()` of the pool. -/
  threadsNum : Nat
  /-- `m_next` of the pool. -/
  next : Nat
  writeCompleteCB : Bool
  nextConnId : Nat
  connections : Table String ConnId
  /-- The connections that have not been destroyed. -/
  heap : Table ConnId Connection
  loops : LoopId → Loop
  pollers : LoopId → EPollPoller ConnId
  crashed : Option Fault
  /-- Those for which `removeConnectionInLoop` has run. -/
  removed : List ConnId
  /-- Those for which `connectionDestroyed` has run. -/
  destroyed : List ConnId

/-- A started server with `threadsNum` I/O threads. -/
def start (hostPort : String) (threadsNum : Nat) (writeCompleteCB : Bool) : State where
  hostPort := hostPort
  threadsNum := threadsNum
  next := 0
  writeCompleteCB := writeCompleteCB
  nextConnId := 1
  connections := ∅
  heap := ∅
  loops := fun _ => ⟨.idle, [], []⟩
  pollers := fun _ => EPollPoller.make fun _ => -1
  crashed := none
  removed := []
  destroyed := []

/-! ## 2. References -/

/-- The pointers on the stack of a loop's thread. -/
def LoopPc.stack : LoopPc → List ConnId
  | .idle => []
  | .accepting c => [c]
  | .dispatching c _ => [c]
  | .running _ => []

/-- The pointers that are released when the loop leaves what it is doing. -/
def Loop.held (k : Loop) : List ConnId := k.pc.stack ++ k.tmpFunctors.map Functor.conn

def Loop.refs (k : Loop) : List ConnId := k.held ++ k.pendingFuntors.map Functor.conn

namespace State

def setLoop (s : State) (l : LoopId) (k : Loop) : State :=
  { s with loops := Function.update s.loops l k }

def setPc (s : State) (l : LoopId) (pc : LoopPc) : State :=
  s.setLoop l { s.loops l with pc := pc }

/-- All pointers to connections. -/
def refs (s : State) : List ConnId :=
  ((List.range (s.threadsNum + 1)).flatMap fun l => (s.loops l).refs) ++
    s.connections.entries.map Sigma.snd

/-- The state without the connection `c`, whose socket is closed. -/
def drop (s : State) (c : ConnId) (k : Connection) : State :=
  { s with
    heap := s.heap.erase c
    pollers := Function.update s.pollers k.ioLoop ((s.pollers k.ioLoop).close k.sockfd) }

/-- `~TcpConnection`, which destroys the handler and the socket. -/
def destroy (s : State) (c : ConnId) : State :=
  match s.heap.find c with
  | none => s
  | some k => s.drop c k

/-- A pointer to `c` has gone. -/
def release (s : State) (c : ConnId) : State := if c ∈ s.refs then s else s.destroy c

/-- Loop `l` has returned from `newConnection`, `handleEvent` or `m_doPendingFunctors`. -/
def unwind (s : State) (l : LoopId) : State :=
  s.setLoop l { s.loops l with pc := .idle, tmpFunctors := [] }

def leave (s : State) (l : LoopId) : State := (s.loops l).held.foldl release (s.unwind l)

/-! ## 3. The functions of TcpServer -/

def queueInLoop (s : State) (l : LoopId) (f : Functor) : State :=
  s.setLoop l { s.loops l with pendingFuntors := (s.loops l).pendingFuntors ++ [f] }

def getNextLoop (s : State) : LoopId × Nat :=
  if s.threadsNum = 0 then (0, s.next)
  else (s.next + 1, if s.next + 1 ≥ s.threadsNum then 0 else s.next + 1)

/-- The name of the connection `c`: `m_name` is empty, and `buf` has room for 31
characters. -/
def connName (s : State) (c : ConnId) : String :=
  String.ofList ((":" ++ s.hostPort ++ "#" ++ toString c).toList.take 31)

def removeConnectionInLoop (s : State) (c : ConnId) : State :=
  match s.heap.find c with
  | none => s
  | some k =>
    { s with
      connections := s.connections.erase k.name
      removed := s.removed ++ [c] }.queueInLoop k.ioLoop (.connectionDestroyed c)

/-- `removeConnection` in the thread of loop `l`. -/
def removeConnection (s : State) (l : LoopId) (c : ConnId) : State :=
  if l = 0 then s.removeConnectionInLoop c else s.queueInLoop 0 (.removeConnectionInLoop c)

/-- A call that leaves a connection on loop `l`. -/
def upcall (l : LoopId) (c : ConnId) (s : State) : Upcall → State
  | .connectionCB => s
  | .messageCB => s
  | .closeCB => s.removeConnection l c
  | .queueWriteComplete => s.queueInLoop l (.writeComplete c)

/-- The state with the new fields `t` of the connection `c`. -/
def put (s : State) (c : ConnId) (k : Connection) (t : TcpConnection ConnId) : State :=
  { s with
    heap := s.heap.insert c { k with tcp := { t with upcalls := [] } }
    pollers := Function.update s.pollers k.ioLoop t.poller }

/-- The call of a function of the connection `c`. -/
def call (s : State) (c : ConnId)
    (f : TcpConnection ConnId → Except Fault (TcpConnection ConnId)) : State :=
  match s.heap.find c with
  | none => s
  | some k =>
    match f { k.tcp with poller := s.pollers k.ioLoop } with
    | .error e => { s with crashed := some e }
    | .ok t => t.upcalls.foldl (upcall k.ioLoop c) (s.put c k t)

def connectionDestroyed (s : State) (c : ConnId) : State :=
  let t := s.call c TcpConnection.connectionDestroyed
  { t with destroyed := t.destroyed ++ [c] }

/-- The body of a functor. -/
def exec (s : State) : Functor → State
  | .connectionEstablished c => s.call c TcpConnection.connectionEstablished
  | .removeConnectionInLoop c => s.removeConnectionInLoop c
  | .connectionDestroyed c => s.connectionDestroyed c
  | .writeComplete _ => s

/-- The new connection of `newConnection`, and its place in the server. -/
def create (s : State) (sockfd : Int) : State :=
  let c := s.nextConnId
  let (ioLoop, next) := s.getNextLoop
  let conn := TcpConnection.make (s.pollers ioLoop) c sockfd s.writeCompleteCB
  { s with
    nextConnId := c + 1
    next := next
    heap := s.heap.insert c ⟨s.connName c, ioLoop, sockfd, conn⟩
    pollers := Function.update s.pollers ioLoop conn.poller }

/-- `newConnection`, up to its return. -/
def newConnection (s : State) (sockfd : Int) : State :=
  let c := s.nextConnId
  let ioLoop := s.getNextLoop.1
  let s₁ := (s.create sockfd).setPc 0 (.accepting c)
  if ioLoop = 0 then s₁.exec (.connectionEstablished c)
  else s₁.queueInLoop ioLoop (.connectionEstablished c)

/-- The next callback of the handler that loop `l` dispatches. -/
def dispatch (s : State) (l : LoopId)
    (f : TcpConnection ConnId → Except Fault (TcpConnection ConnId)) : State :=
  match (s.loops l).pc with
  | .dispatching c (_ :: rest) => (s.setPc l (.dispatching c rest)).call c f
  | _ => s

end State

/-! ## 4. The steps -/

inductive Act where
  /-- `accept` has returned `sockfd`. -/
  | newConnection (sockfd : Int)
  | newConnectionDone
  /-- `epoll_wait` has reported `revents` for the descriptor `fd`. -/
  | handleEvent (l : LoopId) (fd : Int) (revents : Events)
  | handleClose (l : LoopId)
  | handleError (l : LoopId)
  | handleRead (l : LoopId) (r : Buffer.ReadResult)
  | handleWrite (l : LoopId) (r : WriteResult)
  | eventHandled (l : LoopId)
  | swap (l : LoopId)
  | runFunctor (l : LoopId)
  | batchDone (l : LoopId)
  /-- The user's callback for `c` on loop `l` calls `send` or `shutdown`. -/
  | send (l : LoopId) (c : ConnId) (data : List Byte) (r : WriteResult)
  | shutdown (l : LoopId) (c : ConnId)
  deriving DecidableEq, Repr

/-- The callback that is next. -/
def LoopPc.callback : LoopPc → Option Handler.Callback
  | .dispatching _ callbacks => callbacks.head?
  | _ => none

def LoopPc.accepted : LoopPc → Bool
  | .accepting _ => true
  | _ => false

def LoopPc.handled : LoopPc → Bool
  | .dispatching _ callbacks => callbacks.isEmpty
  | _ => false

/-- `i++` in `m_doPendingFunctors`. -/
def LoopPc.next : LoopPc → LoopPc
  | .running i => .running (i + 1)
  | pc => pc

def Loop.nextFunctor (k : Loop) : Option Functor :=
  match k.pc with
  | .running i => k.tmpFunctors[i]?
  | _ => none

def Loop.batchOver (k : Loop) : Bool :=
  match k.pc with
  | .running i => i == k.tmpFunctors.length
  | _ => false

/-- The open descriptors of connections. -/
def State.sockets (s : State) : List Int := s.heap.entries.map fun e => e.2.sockfd

/-- How much output is pending on the connection that loop `l` dispatches. -/
def State.pendingOutput (s : State) (l : LoopId) : Nat :=
  match (s.loops l).pc with
  | .dispatching c _ =>
    match s.heap.find c with
    | some k => k.tcp.outputBuffer.content.length
    | none => 0
  | _ => 0

/-- Loop `l` is in a callback for `c`, which is connected. -/
def State.InCallback (s : State) (l : LoopId) (c : ConnId) : Prop :=
  c ∈ (s.loops l).held ∧
  match s.heap.find c with
  | some k => k.ioLoop = l ∧ k.tcp.state = .kConnected
  | none => False

instance (s : State) (l : LoopId) (c : ConnId) : Decidable (s.InCallback l c) := by
  unfold State.InCallback
  cases s.heap.find c <;> infer_instance

def guard (s : State) (a : Act) : Prop :=
  s.crashed = none ∧
  match a with
  | .newConnection sockfd => (s.loops 0).pc = .idle ∧ 0 ≤ sockfd ∧ sockfd ∉ s.sockets
  | .newConnectionDone => (s.loops 0).pc.accepted = true
  | .handleEvent l fd _ => (s.loops l).pc = .idle ∧ ((s.pollers l).interest.find fd).isSome = true
  | .handleClose l => (s.loops l).pc.callback = some .close
  | .handleError l => (s.loops l).pc.callback = some .error
  | .handleRead l _ => (s.loops l).pc.callback = some .read
  | .handleWrite l r => (s.loops l).pc.callback = some .write ∧ r.Fits (s.pendingOutput l)
  | .eventHandled l => (s.loops l).pc.handled = true
  | .swap l => (s.loops l).pc = .idle
  | .runFunctor l => (s.loops l).nextFunctor.isSome = true
  | .batchDone l => (s.loops l).batchOver = true
  | .send l c data r => s.InCallback l c ∧ r.Fits data.length
  | .shutdown l c => s.InCallback l c

instance (s : State) (a : Act) : Decidable (guard s a) := by
  unfold guard
  cases a <;> infer_instance

def effect (s : State) : Act → State
  | .newConnection sockfd => s.newConnection sockfd
  | .newConnectionDone => s.leave 0
  | .handleEvent l fd revents =>
    match (s.pollers l).interest.find fd with
    | some (_, c) =>
      -- `m_tie.lock()` succeeds as long as the connection exists
      if (s.heap.find c).isSome then s.setPc l (.dispatching c (Handler.handleEvent revents)) else s
    | none => s
  | .handleClose l => s.dispatch l TcpConnection.handleClose
  | .handleError l => s.dispatch l .ok
  | .handleRead l r => s.dispatch l fun t => t.handleRead r
  | .handleWrite l r => s.dispatch l fun t => t.handleWrite r
  | .eventHandled l => s.leave l
  | .swap l =>
    s.setLoop l ⟨.running 0, (s.loops l).pendingFuntors, []⟩
  | .runFunctor l =>
    match (s.loops l).nextFunctor with
    | some f => (s.setPc l (s.loops l).pc.next).exec f
    | none => s
  | .batchDone l => s.leave l
  | .send _ c data r => s.call c fun t => t.sendInLoop true data r
  | .shutdown _ c => s.call c fun t => .ok (t.setState .kDisconnecting).shutdownInLoop

/-- The runs of a server. -/
def machine : Trans.Machine State Act :=
  Trans.Machine.guarded (fun s => ∃ hostPort threadsNum cb, s = start hostPort threadsNum cb)
    guard effect

/-! ## 5. What the server owns -/

/-- `newConnection` has created the connection `c`. -/
def State.Created (s : State) (c : ConnId) : Prop := 1 ≤ c ∧ c < s.nextConnId

/-- No connection has been destroyed while its handler was in the poller's map. -/
def NoDangling (s : State) : Prop :=
  ∀ l fd c, (s.pollers l).handlermap.find fd = some c → (s.heap.find c).isSome = true

/-- The server owns its connections. -/
structure Owned (s : State) : Prop where
  connections : ∀ name c, s.connections.find name = some c ↔
    s.Created c ∧ c ∉ s.removed ∧ name = s.connName c
  noDangling : NoDangling s
  noClash : s.crashed ≠ some EPollPoller.clash

/-- Without I/O threads the connection is destroyed when `newConnection` returns. -/
def acceptTwice : List Act := [.newConnection 7, .newConnectionDone, .newConnection 7]

/-- With one it is destroyed when the batch with its `connectionEstablished` is over. -/
def acceptTwicePooled : List Act :=
  [.newConnection 7, .newConnectionDone, .swap 1, .runFunctor 1, .batchDone 1,
    .newConnection 7, .newConnectionDone, .swap 1, .runFunctor 1]

/-- The first accept leaves the connection out of `m_connections`; in both runs
the accept of the same descriptor then fails the assertion of `updateHandler`. -/
theorem server_forgets :
    (∃ s, machine.run (start "127.0.0.1:5000" 0 false) [.newConnection 7] = some s ∧
      s.crashed = none ∧ s.Created 1 ∧ s.removed = [] ∧ ¬Owned s) ∧
    (∃ s, machine.run (start "127.0.0.1:5000" 0 false) acceptTwice = some s ∧
      ¬NoDangling s ∧ s.crashed = some EPollPoller.clash) ∧
    (∃ s, machine.run (start "127.0.0.1:5000" 1 false) acceptTwicePooled = some s ∧
      ¬NoDangling s ∧ s.crashed = some EPollPoller.clash) := by
  have haccept : (machine.run (start "127.0.0.1:5000" 0 false) [.newConnection 7]).map
      (fun s => (s.crashed, s.nextConnId, s.removed, s.connections.find (s.connName 1))) =
      some (none, 2, [], none) := by
    decide +kernel
  have htwice : (machine.run (start "127.0.0.1:5000" 0 false) acceptTwice).map
      (fun s => ((s.pollers 0).handlermap.find 7, (s.heap.find 1).isSome, s.crashed)) =
      some (some 1, false, some EPollPoller.clash) := by
    decide +kernel
  have hpooled : (machine.run (start "127.0.0.1:5000" 1 false) acceptTwicePooled).map
      (fun s => ((s.pollers 1).handlermap.find 7, (s.heap.find 1).isSome, s.crashed)) =
      some (some 1, false, some EPollPoller.clash) := by
    decide +kernel
  obtain ⟨s, hs, hsp⟩ := Option.map_eq_some_iff.mp haccept
  obtain ⟨t, ht, htp⟩ := Option.map_eq_some_iff.mp htwice
  obtain ⟨u, hu, hup⟩ := Option.map_eq_some_iff.mp hpooled
  simp only [Prod.mk.injEq] at hsp htp hup
  obtain ⟨hok, hnext, hremoved, hmissing⟩ := hsp
  have hcreated : s.Created 1 := ⟨Nat.le_refl 1, by rw [hnext]; decide⟩
  refine ⟨⟨s, hs, hok, hcreated, hremoved, fun howned => ?_⟩, ⟨t, ht, fun h => ?_, htp.2.2⟩,
    ⟨u, hu, fun h => ?_, hup.2.2⟩⟩
  · have hfind := (howned.connections _ 1).mpr ⟨hcreated, by simp [hremoved], rfl⟩
    rw [hmissing] at hfind
    cases hfind
  · exact absurd (h 0 7 1 htp.1) (by simp [htp.2.1])
  · exact absurd (h 1 7 1 hup.1) (by simp [hup.2.1])

end Server

end NetFrame
