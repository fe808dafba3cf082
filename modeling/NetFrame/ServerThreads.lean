import NetFrame.Connection
import NetFrame.Lib.Threads

/-!
# TcpServer on its threads

The calls that a `TcpServer`, its acceptor, its thread pool, their loops and the
connections make to each other, with the thread that makes them. The base loop
belongs to the thread that has constructed the server; the pool starts any number
of threads; further threads come from elsewhere. The user's code (`main`, the
callbacks, functors of its own) may make the calls of `UserCall` at any time.

Every function is a `Call`, and its body is what it changes and the calls that it
makes. The bytes in the buffers are left out, only the size of the output buffer
is kept. `PollEvent` may return at any time, since it times out, so that the
wakeups are left out, too. The user keeps a `TcpConnectionPtr` of each connection.
-/

namespace NetFrame

namespace ServerThreads

/-! ## 1. The calls -/

/-- A connection, numbered by `m_nextConnId` at its creation. -/
abbrev ConnId := Nat

/-- A loop, numbered by its construction. Loop 0 is the base loop. -/
abbrev LoopId := Nat

inductive HandlerId where
  /-- `m_acceptHandler`. -/
  | acceptor
  /-- `m_handler` of a connection. -/
  | conn (c : ConnId)
  deriving DecidableEq, Repr

/-- The functions of `Handler.h` that call `updateHandler` or `removeHandler`. -/
inductive HandlerOp where
  | enableReading
  | enableWriting
  | disableWriting
  | disableAll
  | removeHandler
  deriving DecidableEq, Repr

inductive Functor where
  | listen
  | connectionEstablished (c : ConnId)
  | removeConnectionInLoop (c : ConnId)
  | connectionDestroyed (c : ConnId)
  | sendInLoop (c : ConnId) (len : Nat)
  | shutdownInLoop (c : ConnId)
  | writeComplete (c : ConnId)
  /-- A functor of the user's. -/
  | user
  deriving DecidableEq, Repr

inductive Call (T : Type) where
  /-- Code of the user's. -/
  | user
  -- TcpServer
  | start
  /-- The second half of `start`. -/
  | startListening
  | newConnection (sockfd : Int)
  /-- `newConnection`, when `getNextLoop` has returned. -/
  | newConnectionOn (sockfd : Int) (ioLoop : LoopId)
  | removeConnection (c : ConnId)
  | removeConnectionInLoop (c : ConnId)
  /-- `~TcpServer`, with the destructors of the members. -/
  | destroyServer
  /-- The end of the destruction. -/
  | serverDestroyed
  -- EventLoopThreadPool
  | poolStart
  /-- A round of the loop of `EventLoopThreadPool::start`, up to `m_thread.start()`. -/
  | startThread
  /-- The wait in `startLoop`, and the `push_back` of the loop. -/
  | awaitLoop (u : T)
  | getNextLoop (sockfd : Int)
  | destroyPool
  -- EventLoopThread
  | threadFunc
  | publish (l : LoopId)
  /-- The two halves of `~EventLoopThread`. -/
  | quitThread (u : T)
  | join (u : T)
  -- EventLoop
  | loop (l : LoopId)
  | testQuit (l : LoopId)
  | pollEvent (l : LoopId)
  | doPendingFunctors (l : LoopId)
  | quit (l : LoopId)
  | runInLoop (l : LoopId) (f : Functor)
  | queueInLoop (l : LoopId) (f : Functor)
  -- Acceptor
  | listen
  | acceptorHandleRead
  | destroyAcceptor
  -- Handler
  | handleEvent (h : HandlerId)
  | handler (op : HandlerOp) (h : HandlerId)
  -- TcpConnection
  | send (c : ConnId) (len : Nat)
  | sendInLoop (c : ConnId) (len : Nat)
  | shutdown (c : ConnId)
  | setDisconnecting (c : ConnId)
  | shutdownInLoop (c : ConnId)
  | connectionEstablished (c : ConnId)
  | connectionDestroyed (c : ConnId)
  | handleRead (c : ConnId)
  | handleWrite (c : ConnId)
  /-- `handleWrite`, when the output is empty and write events are disabled. -/
  | outputDrained (c : ConnId)
  | handleClose (c : ConnId)
  | handleError (c : ConnId)
  deriving DecidableEq, Repr

/-- The functions of `EPollPoller` and of `Handler` itself behind them. -/
def HandlerOp.run (op : HandlerOp) (p : EPollPoller HandlerId) (h : HandlerId) :
    Except Fault (EPollPoller HandlerId) :=
  match op with
  | .enableReading => p.enableReading h
  | .enableWriting => p.enableWriting h
  | .disableWriting => p.disableWriting h
  | .disableAll => p.disableAll h
  | .removeHandler => p.remove h

def Functor.call {T : Type} : Functor → Call T
  | .listen => .listen
  | .connectionEstablished c => .connectionEstablished c
  | .removeConnectionInLoop c => .removeConnectionInLoop c
  | .connectionDestroyed c => .connectionDestroyed c
  | .sendInLoop c len => .sendInLoop c len
  | .shutdownInLoop c => .shutdownInLoop c
  | .writeComplete _ => .user
  | .user => .user

/-- The callback of a handler. -/
def HandlerId.callback {T : Type} : HandlerId → Handler.Callback → List (Call T)
  | .acceptor, .read => [.acceptorHandleRead]
  | .acceptor, _ => []
  | .conn c, .close => [.handleClose c]
  | .conn c, .error => [.handleError c]
  | .conn c, .read => [.handleRead c]
  | .conn c, .write => [.handleWrite c]

/-! ## 2. The state -/

/-- A `TcpConnection`; its handler is in the poller of `ioLoop`. -/
structure Connection where
  ioLoop : LoopId
  state : StateE
  /-- `m_outputBuffer.readableBytes()`. -/
  output : Nat
  deriving DecidableEq, Repr

inductive Phase where
  | alive
  | destroying
  | destroyed
  deriving DecidableEq, Repr

/-- What the threads share. -/
structure Shared (T : Type) where
  /-- `m_threadId` of the loops. -/
  threadId : LoopId → Option T
  /-- How many loops have been constructed. -/
  loopsNum : Nat
  blooping : LoopId → Bool
  bquit : LoopId → Bool
  pendingFuntors : LoopId → List Functor
  pollers : LoopId → EPollPoller HandlerId
  /-- `m_ploop` of the `EventLoopThread` with this thread. -/
  ploop : T → Option LoopId
  poolStarted : Bool
  threadsNum : Nat
  next : Nat
  threads : List T
  loops : List LoopId
  listenning : Bool
  started : Bool
  writeCompleteCB : Bool
  /-- Whether line 123 of `TcpConnection.cpp` is compiled. -/
  asserts : Bool
  nextConnId : Nat
  /-- `m_connections`, into which `newConnection` enters nothing. -/
  connections : List ConnId
  /-- All connections. -/
  conns : Table ConnId Connection
  phase : Phase
  crashed : Option Fault

/-- What the environment decides about a call. -/
inductive UserCall where
  | send (c : ConnId) (len : Nat)
  | shutdown (c : ConnId)
  /-- With a functor of the user's. -/
  | runInLoop (l : LoopId)
  | queueInLoop (l : LoopId)
  | quit (l : LoopId)
  | start
  | destroyServer
  | loop
  deriving DecidableEq, Repr

inductive Choice (T : Type) where
  | go
  /-- The user's code makes a call. -/
  | call (u : UserCall)
  | poll (events : List (Int × Events × HandlerId))
  | accept (connfd : Int)
  | read (r : Buffer.ReadResult)
  | write (r : WriteResult)
  | thread (u : T)
  deriving DecidableEq, Repr

/-- What a body changes and calls. -/
abbrev Body (T : Type) := Shared T × List (Call T)

namespace Shared

variable {T : Type}

def loopOf (s : Shared T) (c : ConnId) : Option LoopId := (s.conns.find c).map Connection.ioLoop

/-- The loop that a handler belongs to. -/
def homeOf (s : Shared T) : HandlerId → Option LoopId
  | .acceptor => some 0
  | .conn c => s.loopOf c

/-- A function of the connection `c`. -/
def withConn (s : Shared T) (c : ConnId) (f : Connection → Except Fault (Body T)) :
    Except Fault (Body T) :=
  match s.conns.find c with
  | some k => f k
  | none => .ok (s, [])

def setConn (s : Shared T) (c : ConnId) (k : Connection) : Shared T :=
  { s with conns := s.conns.insert c k }

def setPoller (s : Shared T) (l : LoopId) (p : EPollPoller HandlerId) : Shared T :=
  { s with pollers := Function.update s.pollers l p }

def isWriting (s : Shared T) (c : ConnId) (k : Connection) : Bool :=
  ((s.pollers k.ioLoop).handlers (.conn c)).isWriting

/-! ## 3. The bodies -/

/-! `TcpServer.cpp` -/

def start (s : Shared T) : Except Fault (Body T) :=
  .ok ({ s with started := true },
    (if s.started then [] else [.poolStart]) ++ [.startListening])

def startListening (s : Shared T) : Except Fault (Body T) :=
  .ok (s, if s.listenning then [] else [.runInLoop 0 .listen])

def newConnection (s : Shared T) (sockfd : Int) : Except Fault (Body T) :=
  .ok (s, [.getNextLoop sockfd])

/-- The new connection. -/
def create (s : Shared T) (sockfd : Int) (ioLoop : LoopId) : Shared T :=
  let c := s.nextConnId
  { s with
    nextConnId := c + 1
    conns := s.conns.insert c ⟨ioLoop, .kConnecting, 0⟩
    pollers := Function.update s.pollers ioLoop
      ((s.pollers ioLoop).setHandler (.conn c) (Handler.make sockfd)) }

def newConnectionOn (s : Shared T) (sockfd : Int) (ioLoop : LoopId) : Except Fault (Body T) :=
  .ok (s.create sockfd ioLoop, [.runInLoop ioLoop (.connectionEstablished s.nextConnId)])

def removeConnection (s : Shared T) (c : ConnId) : Except Fault (Body T) :=
  .ok (s, [.runInLoop 0 (.removeConnectionInLoop c)])

def removeConnectionInLoop (s : Shared T) (c : ConnId) : Except Fault (Body T) :=
  s.withConn c fun k =>
    .ok ({ s with connections := s.connections.erase c },
      [.queueInLoop k.ioLoop (.connectionDestroyed c)])

/-- `~TcpServer`, then the members in the reverse order of their declaration. -/
def destroyServer (s : Shared T) : Except Fault (Body T) :=
  .ok (s, (s.connections.filterMap fun c =>
    (s.loopOf c).map fun l => .runInLoop l (.connectionDestroyed c)) ++
      [.destroyPool, .destroyAcceptor])

def serverDestroyed (s : Shared T) : Except Fault (Body T) :=
  .ok ({ s with phase := .destroyed }, [])

/-! `EventLoopThreadPool.cpp` and `EventLoopThread.cpp` -/

def poolStart (s : Shared T) : Except Fault (Body T) := do
  check (s.poolStarted = false) "!m_started"
  return ({ s with poolStarted := true },
    List.replicate s.threadsNum .startThread ++ if s.threadsNum = 0 then [.user] else [])

/-- `startLoop` runs `threadFunc` in the new thread `u`. -/
def startThread (s : Shared T) : Choice T → Option (Except Fault (Body T))
  | .thread u => some (.ok ({ s with threads := s.threads ++ [u] }, [.awaitLoop u]))
  | _ => none

def awaitLoop (s : Shared T) (u : T) : Option (Except Fault (Body T)) :=
  (s.ploop u).map fun l => .ok ({ s with loops := s.loops ++ [l] }, [])

def getNextLoop (s : Shared T) (sockfd : Int) : Except Fault (Body T) :=
  if s.loops = [] then .ok (s, [.newConnectionOn sockfd 0])
  else
    match s.loops[s.next]? with
    | none => .error .outOfBounds
    | some l =>
      .ok ({ s with next := if s.next + 1 ≥ s.loops.length then 0 else s.next + 1 },
        [.newConnectionOn sockfd l])

def destroyPool (s : Shared T) : Except Fault (Body T) :=
  .ok (s, s.threads.flatMap fun u => [.quitThread u, .join u])

/-- The `EventLoop` that `threadFunc` constructs in the thread `t`. -/
def construct [DecidableEq T] (s : Shared T) (t : T) : Shared T :=
  { s with
    loopsNum := s.loopsNum + 1
    threadId := Function.update s.threadId s.loopsNum (some t) }

/-- The init callback runs before the loop is published. -/
def threadFunc [DecidableEq T] (s : Shared T) (t : T) : Except Fault (Body T) :=
  .ok (s.construct t, [.user, .publish s.loopsNum, .loop s.loopsNum])

def publish [DecidableEq T] (s : Shared T) (t : T) (l : LoopId) : Except Fault (Body T) :=
  .ok ({ s with ploop := Function.update s.ploop t (some l) }, [])

/-! `EventLoop.cpp` -/

def loop (s : Shared T) (l : LoopId) : Except Fault (Body T) := do
  check (s.blooping l = false) "!m_blooping"
  return ({ s with
    blooping := Function.update s.blooping l true
    bquit := Function.update s.bquit l false }, [.testQuit l])

def testQuit (s : Shared T) (l : LoopId) : Except Fault (Body T) :=
  if s.bquit l then .ok ({ s with blooping := Function.update s.blooping l false }, [])
  else .ok (s, [.pollEvent l, .doPendingFunctors l, .testQuit l])

def pollEvent (s : Shared T) (l : LoopId) : Choice T → Option (Except Fault (Body T))
  | .poll events =>
    if (s.pollers l).EpollWait events then
      some do
        let (p, active) ← (s.pollers l).pollEvent (.ok (events.map Prod.snd))
        return (s.setPoller l p, active.map .handleEvent)
    else none
  | _ => none

def doPendingFunctors (s : Shared T) (l : LoopId) : Except Fault (Body T) :=
  .ok ({ s with pendingFuntors := Function.update s.pendingFuntors l [] },
    (s.pendingFuntors l).map Functor.call)

def quit (s : Shared T) (l : LoopId) : Except Fault (Body T) :=
  .ok ({ s with bquit := Function.update s.bquit l true }, [])

/-- `m_ploop->quit()` of `~EventLoopThread`. -/
def quitThread (s : Shared T) (u : T) : Option (Except Fault (Body T)) := (s.ploop u).map s.quit

/-- `m_thread.join()`. -/
def join (s : Shared T) (stack : T → List (Call T)) (u : T) : Option (Except Fault (Body T)) :=
  if (stack u).isEmpty then some (.ok (s, [])) else none

def runInLoop [DecidableEq T] (s : Shared T) (t : T) (l : LoopId) (f : Functor) :
    Except Fault (Body T) :=
  .ok (s, if s.threadId l = some t then [f.call] else [.queueInLoop l f])

def queueInLoop (s : Shared T) (l : LoopId) (f : Functor) : Except Fault (Body T) :=
  .ok ({ s with
    pendingFuntors := Function.update s.pendingFuntors l (s.pendingFuntors l ++ [f]) }, [])

/-! `Acceptor.cpp` and `Handler.cpp` -/

def listen (s : Shared T) : Except Fault (Body T) :=
  .ok ({ s with listenning := true }, [.handler .enableReading .acceptor])

def acceptorHandleRead (s : Shared T) : Choice T → Option (Except Fault (Body T))
  | .accept connfd => some (.ok (s, if connfd ≥ 0 then [.newConnection connfd] else []))
  | _ => none

def destroyAcceptor (s : Shared T) : Except Fault (Body T) :=
  .ok (s, [.handler .disableAll .acceptor, .handler .removeHandler .acceptor])

def handleEvent (s : Shared T) (h : HandlerId) : Except Fault (Body T) :=
  match s.homeOf h with
  | some l =>
    .ok (s, (Handler.handleEvent ((s.pollers l).handlers h).revents).flatMap h.callback)
  | none => .ok (s, [])

def handler (s : Shared T) (op : HandlerOp) (h : HandlerId) : Except Fault (Body T) :=
  match s.homeOf h with
  | some l => do
    let p ← op.run (s.pollers l) h
    return (s.setPoller l p, [])
  | none => .ok (s, [])

/-! `TcpConnection.cpp` -/

/-- The three overloads of `send` differ in where the bytes are. -/
def send [DecidableEq T] (s : Shared T) (t : T) (c : ConnId) (len : Nat) : Except Fault (Body T) :=
  s.withConn c fun k =>
    if k.state = .kConnected then
      .ok (s, if s.threadId k.ioLoop = some t then [.sendInLoop c len]
        else [.runInLoop k.ioLoop (.sendInLoop c len)])
    else .ok (s, [])

/-- What the direct write of `sendInLoop` leaves, and whether it has completed. -/
def directWrite (s : Shared T) (c : ConnId) (k : Connection) (len : Nat) (r : WriteResult) :
    Nat × Bool :=
  if s.isWriting c k = false ∧ k.output = 0 then
    match r with
    | .wrote n => (len - n, len - n = 0)
    | .error _ => (len, false)
  else (len, false)

def queueWriteComplete (s : Shared T) (c : ConnId) (k : Connection) : List (Call T) :=
  if s.writeCompleteCB then [.queueInLoop k.ioLoop (.writeComplete c)] else []

def sendInLoop (s : Shared T) (c : ConnId) (len : Nat) : Choice T → Option (Except Fault (Body T))
  | .write r =>
    if r.Fits len then
      some <| s.withConn c fun k => do
        let (remaining, complete) := s.directWrite c k len r
        check (s.asserts = true → remaining < len) "remaining < len"
        if remaining > 0 then
          return (s.setConn c { k with output := k.output + remaining },
            if s.isWriting c k then [] else [.handler .enableWriting (.conn c)])
        else return (s, if complete then s.queueWriteComplete c k else [])
    else none
  | _ => none

def shutdown (s : Shared T) (c : ConnId) : Except Fault (Body T) :=
  s.withConn c fun k =>
    .ok (s, if k.state = .kConnected then
      [.setDisconnecting c, .runInLoop k.ioLoop (.shutdownInLoop c)] else [])

def setDisconnecting (s : Shared T) (c : ConnId) : Except Fault (Body T) :=
  s.withConn c fun k => .ok (s.setConn c { k with state := .kDisconnecting }, [])

/-- The half-close changes nothing that is kept here. -/
def shutdownInLoop (s : Shared T) (_ : ConnId) : Except Fault (Body T) := .ok (s, [])

def connectionEstablished (s : Shared T) (c : ConnId) : Except Fault (Body T) :=
  s.withConn c fun k => do
    check (k.state = .kConnecting) "m_state == kConnecting"
    return (s.setConn c { k with state := .kConnected },
      [.handler .enableReading (.conn c), .user])

def connectionDestroyed (s : Shared T) (c : ConnId) : Except Fault (Body T) :=
  s.withConn c fun k =>
    .ok (s.setConn c { k with state := .kDisconnected },
      [.handler .disableAll (.conn c), .user, .handler .removeHandler (.conn c)])

def handleRead (s : Shared T) (c : ConnId) : Choice T → Option (Except Fault (Body T))
  | .read (.bytes []) => some (.ok (s, [.handleClose c]))
  | .read (.bytes _) => some (.ok (s, [.user]))
  | .read (.error _) => some (.ok (s, [.handleError c]))
  | _ => none

def pendingOutput (s : Shared T) (c : ConnId) : Nat :=
  match s.conns.find c with
  | some k => k.output
  | none => 0

def handleWrite (s : Shared T) (c : ConnId) : Choice T → Option (Except Fault (Body T))
  | .write r =>
    if r.Fits (s.pendingOutput c) then
      some <| s.withConn c fun k =>
        if s.isWriting c k then
          match r with
          | .error _ => .ok (s, [])
          | .wrote n =>
            .ok (s.setConn c { k with output := k.output - n },
              if n > 0 ∧ k.output - n = 0 then
                .handler .disableWriting (.conn c) :: s.queueWriteComplete c k ++
                  [.outputDrained c]
              else [])
        else .ok (s, [])
    else none
  | _ => none

def outputDrained (s : Shared T) (c : ConnId) : Except Fault (Body T) :=
  s.withConn c fun k => .ok (s, if k.state = .kDisconnecting then [.shutdownInLoop c] else [])

def handleClose (s : Shared T) (c : ConnId) : Except Fault (Body T) :=
  s.withConn c fun k => do
    check (k.state = .kConnected ∨ k.state = .kDisconnecting)
      "m_state == kConnected || m_state == kDisconnecting"
    return (s.setConn c { k with state := .kDisconnected },
      [.handler .disableAll (.conn c), .user, .removeConnection c])

def handleError (s : Shared T) (_ : ConnId) : Except Fault (Body T) := .ok (s, [])

end Shared

/-! ## 4. The user's code -/

/-- The calls of which `start` consists. -/
def Call.inStart {T : Type} : Call T → Bool
  | .start | .startListening | .poolStart | .startThread | .awaitLoop _ => true
  | _ => false

namespace UserCall

variable {T : Type}

/-- What the user's code may call on the thread `t` with this stack. The server
is started and destroyed on the thread of its loop, and not while it starts. -/
def Allowed (s : Shared T) (stack : List (Call T)) (t : T) : UserCall → Prop
  | .send c _ | .shutdown c => (s.conns.find c).isSome
  | .runInLoop l | .queueInLoop l | .quit l => (s.threadId l).isSome
  | .start => s.threadId 0 = some t ∧ s.phase = .alive
  | .destroyServer => s.threadId 0 = some t ∧ s.phase = .alive ∧ ∀ k ∈ stack, k.inStart = false
  | .loop => s.threadId 0 = some t

instance [DecidableEq T] (s : Shared T) (stack : List (Call T)) (t : T) (u : UserCall) :
    Decidable (u.Allowed s stack t) := by
  cases u <;> unfold Allowed <;> infer_instance

def calls : UserCall → List (Call T)
  | .send c len => [.send c len]
  | .shutdown c => [.shutdown c]
  | .runInLoop l => [.runInLoop l .user]
  | .queueInLoop l => [.queueInLoop l .user]
  | .quit l => [.quit l]
  | .start => [.start]
  | .destroyServer => [.destroyServer, .serverDestroyed]
  | .loop => [.loop 0]

/-- The server counts as being destroyed from the call of its destructor on. -/
def enter (s : Shared T) : UserCall → Shared T
  | .destroyServer => { s with phase := .destroying }
  | _ => s

end UserCall

/-- A piece of user code makes a call and goes on, or returns. -/
def Shared.user {T : Type} [DecidableEq T] (s : Shared T) (stack : List (Call T)) (t : T) :
    Choice T → Option (Except Fault (Body T))
  | .go => some (.ok (s, []))
  | .call u =>
    if u.Allowed s stack t then some (.ok (u.enter s, u.calls ++ [.user])) else none
  | _ => none

/-! ## 5. The program -/

section

variable {T : Type} [DecidableEq T]

/-- The body of a call on the thread `t`; `none` while it blocks. -/
def Shared.body (s : Shared T) (stack : T → List (Call T)) (t : T) (b : Choice T) :
    Call T → Option (Except Fault (Body T))
  | .user => s.user (stack t) t b
  | .start => some s.start
  | .startListening => some s.startListening
  | .newConnection sockfd => some (s.newConnection sockfd)
  | .newConnectionOn sockfd ioLoop => some (s.newConnectionOn sockfd ioLoop)
  | .removeConnection c => some (s.removeConnection c)
  | .removeConnectionInLoop c => some (s.removeConnectionInLoop c)
  | .destroyServer => some s.destroyServer
  | .serverDestroyed => some s.serverDestroyed
  | .poolStart => some s.poolStart
  | .startThread => s.startThread b
  | .awaitLoop u => s.awaitLoop u
  | .getNextLoop sockfd => some (s.getNextLoop sockfd)
  | .destroyPool => some s.destroyPool
  | .threadFunc => some (s.threadFunc t)
  | .publish l => some (s.publish t l)
  | .quitThread u => s.quitThread u
  | .join u => s.join stack u
  | .loop l => some (s.loop l)
  | .testQuit l => some (s.testQuit l)
  | .pollEvent l => s.pollEvent l b
  | .doPendingFunctors l => some (s.doPendingFunctors l)
  | .quit l => some (s.quit l)
  | .runInLoop l f => some (s.runInLoop t l f)
  | .queueInLoop l f => some (s.queueInLoop l f)
  | .listen => some s.listen
  | .acceptorHandleRead => s.acceptorHandleRead b
  | .destroyAcceptor => some s.destroyAcceptor
  | .handleEvent h => some (s.handleEvent h)
  | .handler op h => some (s.handler op h)
  | .send c len => some (s.send t c len)
  | .sendInLoop c len => s.sendInLoop c len b
  | .shutdown c => some (s.shutdown c)
  | .setDisconnecting c => some (s.setDisconnecting c)
  | .shutdownInLoop c => some (s.shutdownInLoop c)
  | .connectionEstablished c => some (s.connectionEstablished c)
  | .connectionDestroyed c => some (s.connectionDestroyed c)
  | .handleRead c => s.handleRead c b
  | .handleWrite c => s.handleWrite c b
  | .outputDrained c => some (s.outputDrained c)
  | .handleClose c => some (s.handleClose c)
  | .handleError c => some (s.handleError c)

/-- The thread that `m_thread.start()` starts. -/
def Call.starts : Call T → Choice T → Option (T × Call T)
  | .startThread, .thread u => some (u, .threadFunc)
  | _, _ => none

/-- A failed assertion ends the process. -/
def Shared.result (s : Shared T) (start : Option (T × Call T)) :
    Except Fault (Body T) → Threads.Result T (Call T) (Shared T)
  | .ok (s', calls) => ⟨s', calls, start⟩
  | .error e => ⟨{ s with crashed := some e }, [], none⟩

def program (T : Type) [DecidableEq T] : Threads.Program T (Call T) (Shared T) (Choice T) where
  exec := fun s stack t k b =>
    if s.crashed = none then (s.body stack t b k).map (s.result (k.starts b)) else none
  outside := .user

abbrev State (T : Type) := Threads.State T (Call T) (Shared T)

abbrev Act (T : Type) := Threads.Act T (Choice T)

/-- A server has been constructed on the thread `base`, which goes on with its
own code. -/
def constructed (base : T) (threadsNum : Nat) (listenfd : Int) (writeCompleteCB asserts : Bool) :
    State T where
  shared :=
    { threadId := Function.update (fun _ => none) 0 (some base)
      loopsNum := 1
      blooping := fun _ => false
      bquit := fun _ => false
      pendingFuntors := fun _ => []
      pollers := fun _ => EPollPoller.make fun h => if h = .acceptor then listenfd else -1
      ploop := fun _ => none
      poolStarted := false
      threadsNum := threadsNum
      next := 0
      threads := []
      loops := []
      listenning := false
      started := false
      writeCompleteCB := writeCompleteCB
      asserts := asserts
      nextConnId := 1
      connections := []
      conns := ∅
      phase := .alive
      crashed := none }
  stack := Function.update (fun _ => []) base [.user]
  started := [base]
  trace := []

/-- The runs of a server. -/
def machine (T : Type) [DecidableEq T] : Trans.Machine (State T) (Act T) :=
  (program T).machine fun s => ∃ base threadsNum listenfd cb asserts,
    s = constructed base threadsNum listenfd cb asserts

end

end ServerThreads

end NetFrame
