import NetFrame.EventLoopThread
import NetFrame.OutputStream
import NetFrame.QuitEnds

/-!
# Sending from several threads

`TcpConnection::send` in the loop's thread, which calls `sendInLoop` at once, and in any
number of other threads, which queue it, with the loop that runs the functors and the
connection that writes. A thread tests `m_state` and pushes in two steps. The overloads
of `send` differ only in where the bytes of a message come from. These are the runs of an
established connection until it is closed.

Results:
1. `messages_in_order`: the kernel gets whole messages one after the other, and those of
   each thread in the order of its calls: none is torn, lost or sent twice.
2. `queued_handed`: a loop that has no quit to see hands on all queued messages, in a
   number of steps of its own thread that its queue bounds.
-/

namespace NetFrame

/-! ## 1. A loop that runs its functors -/

namespace EventLoop

variable {T F : Type}

/-- `loop` has been called, and has no quit to see. -/
structure Goes (s : State T F) : Prop where
  quit : s.pc = .entering ∨ s.bquit = false
  called : s.pc ≠ .initCallback ∧ s.pc ≠ .exited

/-- No functor is left in the two vectors. -/
def State.Idle (s : State T F) : Prop := s.tmpFunctors = [] ∧ s.pendingFuntors = []

/-- The steps until the functors in the two vectors have been run. -/
def State.runsLeft (s : State T F) : Nat :=
  (match s.call with
    | .none => 0
    | .mustWake => 1
    | .pushed => 2) +
  (match s.pc with
    | .running => 2 * s.tmpFunctors.length +
        if s.pendingFuntors = [] then 0 else 7 + 2 * s.pendingFuntors.length
    | .inFunctor => 1 + 2 * s.tmpFunctors.length +
        if s.pendingFuntors = [] then 0 else 7 + 2 * s.pendingFuntors.length
    | .swapping => 2 + 2 * s.pendingFuntors.length
    | .handling false => 3 + 2 * s.pendingFuntors.length
    | .handling true => 4 + 2 * s.pendingFuntors.length
    | .polling => 5 + 2 * s.pendingFuntors.length
    | .testing => 6 + 2 * s.pendingFuntors.length
    | _ => 7 + 2 * s.pendingFuntors.length)

theorem runsLeft_le (s : State T F) :
    s.runsLeft ≤ 10 + 2 * (s.tmpFunctors.length + s.pendingFuntors.length) := by
  have hcall : (match s.call with
      | .none => 0
      | .mustWake => 1
      | .pushed => 2) ≤ 2 := by
    split <;> decide
  unfold State.runsLeft
  split at hcall <;> split <;> first | omega | (split <;> omega)

/-- A step of the loop's thread that is not user code, or the first one of `loop`. -/
def Act.goesOn : Act T F → Bool
  | .resetQuit => true
  | a => a.ofLoop

section

variable [DecidableEq T] {s : State T F} {a : Act T F}

theorem Goes.step (hs : Goes s) (hown : a.goesOn = true) (hg : guard s a) :
    Goes (effect s a) := by
  obtain ⟨hquit, hinit, hexit⟩ := hs
  refine ⟨?_, ?_⟩
  · cases a <;> simp only [guard, effect, Act.goesOn, Act.ofLoop, State.wakeup] at * <;> grind
  · cases a <;> simp only [guard, effect, Act.goesOn, Act.ofLoop, State.wakeup] at * <;> grind

/-- Every step of the loop's thread brings the functors nearer to their turn. -/
theorem Goes.runsLeft_lt (hs : Goes s) (hnot : ¬s.Idle) (hown : a.goesOn = true)
    (hg : guard s a) : (effect s a).runsLeft < s.runsLeft := by
  cases a with
  | resetQuit => simp [State.runsLeft, effect, show s.pc = .entering from hg]
  | testQuit =>
    have hpc : s.pc = .testing := hg
    have hoff : s.bquit = false := hs.quit.resolve_left (by rw [hpc]; decide)
    simp [State.runsLeft, effect, hpc, hoff]
  | pollReturn wake =>
    cases wake <;> simp [State.runsLeft, effect, hg.1]
  | handleRead => simp [State.runsLeft, effect, hg.1]
  | setCalling => simp [State.runsLeft, effect, hg.1]
  | swap => simp [State.runsLeft, effect, show s.pc = .swapping from hg]
  | runFunctor =>
    obtain ⟨hpc, hne⟩ := hg
    cases htmp : s.tmpFunctors with
    | nil =>
      rw [htmp] at hne
      cases hne
    | cons q rest =>
      simp only [State.runsLeft, effect, hpc, htmp, List.tail_cons, List.length_cons]
      omega
  | functorReturns =>
    by_cases hpending : s.pendingFuntors = [] <;>
      simp [State.runsLeft, effect, hg.1, hpending]
  | clearCalling =>
    obtain ⟨hpc, hempty⟩ := hg
    have htmp : s.tmpFunctors = [] := List.isEmpty_iff.mp hempty
    -- the functors that are left are pending, and wait for the next iteration
    have hpending : s.pendingFuntors ≠ [] := fun hnil => hnot ⟨htmp, hnil⟩
    simp [State.runsLeft, effect, hpc, htmp, hpending]
  | readCalling =>
    have hcall : s.call = .pushed := hg
    cases hflag : s.callingPendingFunctors <;> simp [State.runsLeft, effect, hcall, hflag]
  | loopWakeup =>
    have hcall : s.call = .mustWake := hg
    simp [State.runsLeft, effect, State.wakeup, hcall]
  | publish | loopPush _ | loopQuit | push _ _ | wakeup _ | storeQuit _ | quitWakeup _ =>
    cases hown

omit [DecidableEq T] in
/-- The loop's thread waits for no other one. -/
theorem Goes.enabled (hs : Goes s) : ∃ a, Act.goesOn a = true ∧ guard s a := by
  obtain ⟨-, hinit, hexit⟩ := hs
  cases hcall : s.call with
  | pushed => exact ⟨.readCalling, rfl, hcall⟩
  | mustWake => exact ⟨.loopWakeup, rfl, hcall⟩
  | none =>
    cases hpc : s.pc with
    | initCallback => exact absurd hpc hinit
    | exited => exact absurd hpc hexit
    | entering => exact ⟨.resetQuit, rfl, hpc⟩
    | testing => exact ⟨.testQuit, rfl, hpc⟩
    | polling => exact ⟨.pollReturn false, rfl, hpc, by simp⟩
    | handling wake =>
      cases wake with
      | false => exact ⟨.setCalling, rfl, hpc, hcall⟩
      | true => exact ⟨.handleRead, rfl, hpc, hcall⟩
    | swapping => exact ⟨.swap, rfl, hpc⟩
    | running =>
      cases hempty : s.tmpFunctors.isEmpty with
      | true => exact ⟨.clearCalling, rfl, hpc, hempty⟩
      | false => exact ⟨.runFunctor, rfl, hpc, hempty⟩
    | inFunctor => exact ⟨.functorReturns, rfl, hpc, hcall⟩

omit [DecidableEq T] in
theorem runsLeft_push {f : F} (hcall : s.call = .none) :
    ({ s.push f with call := .pushed } : State T F).runsLeft ≤ s.runsLeft + 11 := by
  have hlen : (s.push f).pendingFuntors.length = s.pendingFuntors.length + 1 := by
    simp [State.push]
  have hne : (s.push f).pendingFuntors ≠ [] := by simp [State.push]
  have htmp : (s.push f).tmpFunctors = s.tmpFunctors := rfl
  have hpc : (s.push f).pc = s.pc := rfl
  unfold State.runsLeft
  dsimp only
  rw [hcall, hpc, htmp, hlen, if_neg hne]
  have hpending : 2 * s.pendingFuntors.length ≤
      if s.pendingFuntors = [] then 0 else 7 + 2 * s.pendingFuntors.length := by
    cases s.pendingFuntors with
    | nil => exact Nat.le_refl _
    | cons q rest => exact Nat.le_add_left _ _
  split <;> omega

/-- The loop's thread is in no call of `queueInLoop` between two functors. -/
theorem placed_reachable {pc : LoopPc} (hs : (machine T F pc).Reachable s)
    (hpc : pc = .initCallback ∨ pc = .entering) : Placed s := by
  refine Trans.Machine.reachable_invariant ?_ (fun s a t hs h => ?_) hs
  · rintro s rfl
    exact (Awake.start hpc).toPlaced
  · obtain ⟨hg, rfl⟩ := Trans.Machine.guarded_step.mp h
    exact hs.step hg

end

end EventLoop

namespace Senders

open Trans

variable {T H : Type}

/-! ## 2. Runs -/

/-- What a thread other than the loop's is about to queue. -/
inductive Call where
  | send (message : List Byte)
  | shutdown
  deriving DecidableEq, Repr

inductive Functor (T : Type) where
  /-- `boost::bind(&TcpConnection::sendInLoop, this, message)`, from the thread `t`. -/
  | sendInLoop (t : T) (message : List Byte)
  | shutdownInLoop
  | writeComplete
  /-- A functor that has nothing to do with the connection. -/
  | user
  deriving DecidableEq, Repr

def Call.functor (t : T) : Call → Functor T
  | .send message => .sendInLoop t message
  | .shutdown => .shutdownInLoop

/-- The message in a functor, with the thread that it is from; `none` is the loop's. -/
def Functor.message : Functor T → Option (Option T × List Byte)
  | .sendInLoop t message => some (some t, message)
  | _ => none

structure State (T H : Type) where
  loop : EventLoop.State T (Functor T)
  conn : TcpConnection H
  crashed : Option Fault
  /-- The thread has tested `m_state`, and has not pushed yet. -/
  calling : T → Option Call
  /-- The messages of each thread for which `send` has found `kConnected`. -/
  called : Option T → List (List Byte)
  /-- The messages that `sendInLoop` has taken on. -/
  handed : List (Option T × List Byte)

inductive Act (T : Type) where
  /-- `send` in the thread `t` finds `kConnected`. -/
  | send (t : T) (message : List Byte)
  /-- `shutdown` in the thread `t`, which has found `kConnected`, sets `kDisconnecting`. -/
  | shutdown (t : T)
  /-- The push of `runInLoop` in the thread `t`. -/
  | push (t : T)
  /-- `send` in the loop's thread. -/
  | sendInLoop (message : List Byte) (r : WriteResult)
  /-- `shutdown` in the loop's thread. -/
  | shutdownInLoop
  /-- The loop takes the next functor. -/
  | runFunctor (r : WriteResult)
  | handleWrite (r : WriteResult)
  /-- Any other step of the loop or of a thread. -/
  | loop (a : EventLoop.Act T (Functor T))
  deriving DecidableEq, Repr

/-- This step takes no functor, and pushes none for the connection. -/
def plain : EventLoop.Act T (Functor T) → Bool
  | .runFunctor => false
  | .loopPush f | .push _ f => match f with
    | .user => true
    | _ => false
  | _ => true

/-- The functor that the loop takes next. -/
def State.next (s : State T H) : Option (Functor T) := s.loop.tmpFunctors.head?.map (·.functor)

def guard (s : State T H) (a : Act T) : Prop :=
  s.crashed = none ∧
  match a with
  | .send t _ => s.conn.state = .kConnected ∧ s.calling t = none ∧ s.loop.threads t = .outside
  -- since its test another `shutdown` may have set `kDisconnecting`
  | .shutdown t => s.calling t = none ∧ s.loop.threads t = .outside
  | .push t => ∃ call ∈ s.calling t, EventLoop.guard s.loop (.push t (call.functor t))
  -- a callback of the user may run in any functor
  | .sendInLoop message r =>
    s.loop.InUserCode ∧ s.loop.call = .none ∧ s.conn.state = .kConnected ∧ r.Fits message.length
  | .shutdownInLoop => s.loop.InUserCode ∧ s.loop.call = .none
  | .runFunctor r =>
    EventLoop.guard s.loop .runFunctor ∧
    ∀ f ∈ s.next, ∀ m ∈ f.message, r.Fits m.2.length
  | .handleWrite r =>
    (s.loop.pc = .handling true ∨ s.loop.pc = .handling false) ∧ s.loop.call = .none ∧
    r.Fits s.conn.outputBuffer.content.length
  | .loop a =>
    EventLoop.guard s.loop a ∧ plain a = true ∧
    ∀ t ∈ EventLoopThread.caller a, s.calling t = none

instance (s : State T H) (a : Act T) : Decidable (guard s a) :=
  match a with
  | .send _ _ | .shutdown _ | .push _ | .sendInLoop _ _ | .shutdownInLoop | .runFunctor _
  | .handleWrite _ | .loop _ => inferInstanceAs (Decidable (_ ∧ _))

section

variable [DecidableEq T]

/-- After a call on the connection, which may have called `queueInLoop` for
`m_writeCompleteCB`. -/
def State.leave (s : State T H) (c : TcpConnection H) : State T H :=
  { s with
    conn := c
    loop := if s.conn.upcalls.length < c.upcalls.length then
        EventLoop.effect s.loop (.loopPush .writeComplete)
      else s.loop }

variable [DecidableEq H]

/-- `sendInLoop` with a message of the thread `u`. -/
def State.sendInLoop (asserts : Bool) (s : State T H) (u : Option T) (message : List Byte)
    (r : WriteResult) : State T H :=
  match s.conn.sendInLoop asserts message r with
  | .error e => { s with crashed := some e }
  | .ok c => { s.leave c with handed := s.handed ++ [(u, message)] }

def State.handleWrite (s : State T H) (r : WriteResult) : State T H :=
  match s.conn.handleWrite r with
  | .error e => { s with crashed := some e }
  | .ok c => s.leave c

/-- The functor `f`, taken. -/
def State.runs (asserts : Bool) (s : State T H) (r : WriteResult) : Functor T → State T H
  | .sendInLoop t message => s.sendInLoop asserts (some t) message r
  | .shutdownInLoop => { s with conn := s.conn.shutdownInLoop }
  | .writeComplete | .user => s

def effect (asserts : Bool) (s : State T H) : Act T → State T H
  | .send t message =>
    { s with
      calling := Function.update s.calling t (some (.send message))
      called := Function.update s.called (some t) (s.called (some t) ++ [message]) }
  | .shutdown t =>
    { s with
      conn := s.conn.setState .kDisconnecting
      calling := Function.update s.calling t (some .shutdown) }
  | .push t =>
    match s.calling t with
    | some call =>
      { s with
        loop := EventLoop.effect s.loop (.push t (call.functor t))
        calling := Function.update s.calling t none }
    | none => s
  | .sendInLoop message r =>
    State.sendInLoop asserts
      { s with called := Function.update s.called none (s.called none ++ [message]) }
      none message r
  | .shutdownInLoop =>
    { s with conn := (s.conn.setState .kDisconnecting).shutdownInLoop }
  | .runFunctor r =>
    match s.next with
    | some f => State.runs asserts { s with loop := EventLoop.effect s.loop .runFunctor } r f
    | none => s
  | .handleWrite r => s.handleWrite r
  | .loop a => { s with loop := EventLoop.effect s.loop a }

/-- The messages in a part of the queue. -/
def messages (qs : List (EventLoop.Queued (Functor T))) : List (Option T × List Byte) :=
  qs.filterMap (·.functor.message)

/-- The messages that wait in the queue. -/
def State.queued (s : State T H) : List (Option T × List Byte) :=
  messages (s.loop.tmpFunctors ++ s.loop.pendingFuntors)

/-- The runs of a connection from `connectionEstablished` on, whose loop may be anywhere
and may have functors queued that are not the connection's. -/
def machine (T H : Type) [DecidableEq T] [DecidableEq H] (asserts : Bool) :
    Machine (State T H) (Act T) :=
  Machine.guarded
    (fun s => (EventLoop.machine T (Functor T) .initCallback).Reachable s.loop ∧
      s.queued = [] ∧ TcpConnection.Established s.conn ∧ s.crashed = none ∧
      (∀ t, s.calling t = none) ∧ (∀ u, s.called u = []) ∧ s.handed = [])
    guard (effect asserts)

end

/-! ## 3. The messages -/

section

variable [DecidableEq T]

/-- The messages of the thread `u` among `ms`. -/
def ofThread (u : Option T) (ms : List (Option T × List Byte)) : List (List Byte) :=
  (ms.filter fun m => decide (m.1 = u)).map Prod.snd

def Call.message : Call → Option (List Byte)
  | .send message => some message
  | .shutdown => none

/-- What a thread is about to push of its messages. -/
def State.toPush (s : State T H) : Option T → List (List Byte)
  | none => []
  | some t => ((s.calling t).bind Call.message).toList

@[simp] theorem ofThread_append (u : Option T) (ms ms' : List (Option T × List Byte)) :
    ofThread u (ms ++ ms') = ofThread u ms ++ ofThread u ms' := by
  simp [ofThread]

theorem ofThread_self (u : Option T) (message : List Byte) :
    ofThread u [(u, message)] = [message] := by
  simp [ofThread]

theorem ofThread_ne {u v : Option T} (h : v ≠ u) (message : List Byte) :
    ofThread u [(v, message)] = [] := by
  simp [ofThread, h]

omit [DecidableEq T] in
theorem messages_append (qs qs' : List (EventLoop.Queued (Functor T))) :
    messages (qs ++ qs') = messages qs ++ messages qs' :=
  List.filterMap_append

/-- The loop's thread queues no message. -/
theorem ofThread_none (qs : List (EventLoop.Queued (Functor T))) :
    ofThread none (messages qs) = [] := by
  induction qs with
  | nil => rfl
  | cons q qs ih =>
    have hq : ofThread none (messages [q]) = [] := by
      obtain ⟨f, polls, inBatch⟩ := q
      cases f <;> rfl
    rw [← List.singleton_append, messages_append, ofThread_append, hq, ih]
    rfl

omit [DecidableEq T] in
theorem messages_push (l : EventLoop.State T (Functor T)) (f : Functor T) :
    messages ((l.push f).tmpFunctors ++ (l.push f).pendingFuntors) =
      messages (l.tmpFunctors ++ l.pendingFuntors) ++ f.message.toList := by
  have hlast : messages [l.queued f] = f.message.toList := by
    cases f <;> rfl
  rw [← hlast, ← messages_append, List.append_assoc]
  rfl

/-- A plain step leaves the messages in the queue as they are. -/
theorem messages_plain {l : EventLoop.State T (Functor T)} {a : EventLoop.Act T (Functor T)}
    (hdrained : EventLoop.Drained l) (hg : EventLoop.guard l a) (hplain : plain a = true) :
    messages ((EventLoop.effect l a).tmpFunctors ++ (EventLoop.effect l a).pendingFuntors) =
      messages (l.tmpFunctors ++ l.pendingFuntors) := by
  cases a with
  | runFunctor => cases hplain
  | loopPush f =>
    cases f with
    | user => exact (messages_push l .user).trans (List.append_nil _)
    | _ => cases hplain
  | push t f =>
    cases f with
    | user => exact (messages_push l .user).trans (List.append_nil _)
    | _ => cases hplain
  | swap =>
    have htmp : l.tmpFunctors = [] := hdrained (by
      rw [EventLoop.State.InBatch, show l.pc = .swapping from hg]
      simp)
    simp only [EventLoop.effect]
    rw [htmp, List.append_nil, List.nil_append]
  | _ => rfl

theorem queued_leave (s : State T H) (c : TcpConnection H) : (s.leave c).queued = s.queued := by
  unfold State.leave State.queued
  dsimp only
  split
  · exact (messages_push s.loop .writeComplete).trans (List.append_nil _)
  · rfl

end

/-! ## 4. What holds until the connection faults -/

section

variable [DecidableEq T] [DecidableEq H] {asserts : Bool} {s t : State T H}

structure Inv (s : State T H) : Prop where
  loop : (EventLoop.machine T (Functor T) .initCallback).Reachable s.loop
  conn : s.conn.Inv
  /-- The connection has taken on the messages that it has been handed, each as a whole. -/
  wire : s.conn.taken ++ s.conn.outputBuffer.content = (s.handed.map Prod.snd).flatten
  /-- A message of a thread has been handed on, or is queued, or is about to be. -/
  calls : ∀ u, ofThread u s.handed ++ ofThread u s.queued ++ s.toPush u = s.called u

omit [DecidableEq T] [DecidableEq H] in
theorem wire_output {c c' : TcpConnection H} {calls : List Syscall} {data sent : List Byte}
    (hout : c.Output c' calls data) (hwire : c.taken ++ c.outputBuffer.content = sent) :
    c'.taken ++ c'.outputBuffer.content = sent ++ data := by
  rw [TcpConnection.taken_append hout.syscalls, List.append_assoc, hout.content, ← hwire,
    List.append_assoc]

omit [DecidableEq H] in
/-- `m_writeCompleteCB` is queued by the loop's thread. -/
theorem leave_reachable {c : TcpConnection H}
    (hloop : (EventLoop.machine T (Functor T) .initCallback).Reachable s.loop)
    (huser : s.loop.InUserCode) (hcall : s.loop.call = .none) :
    (EventLoop.machine T (Functor T) .initCallback).Reachable (s.leave c).loop := by
  unfold State.leave
  dsimp only
  split
  · have hg : EventLoop.guard s.loop (.loopPush .writeComplete) := ⟨huser, hcall⟩
    exact hloop.step (Machine.guarded_step.mpr ⟨hg, rfl⟩)
  · exact hloop

/-- `sendInLoop`, with a message that is no longer in the queue. -/
theorem sendInLoop_inv {u : Option T} {message : List Byte} {r : WriteResult}
    (hloop : (EventLoop.machine T (Functor T) .initCallback).Reachable s.loop)
    (hconn : s.conn.Inv)
    (hwire : s.conn.taken ++ s.conn.outputBuffer.content = (s.handed.map Prod.snd).flatten)
    (hcalls : ∀ v, ofThread v (s.handed ++ [(u, message)]) ++ ofThread v s.queued ++ s.toPush v =
      s.called v)
    (huser : s.loop.InUserCode) (hcall : s.loop.call = .none) (hr : r.Fits message.length)
    (hcrashed : (s.sendInLoop asserts u message r).crashed = none) :
    Inv (s.sendInLoop asserts u message r) := by
  unfold State.sendInLoop at hcrashed ⊢
  split at hcrashed
  · cases hcrashed
  · next c hok =>
    have hout := TcpConnection.sendInLoop_spec hconn hr hok
    refine ⟨leave_reachable hloop huser hcall, hout.inv, ?_, fun v => ?_⟩
    · rw [List.map_append, List.flatten_append]
      exact wire_output hout hwire |>.trans (by simp)
    · have hqueued : (s.leave c).queued = s.queued := queued_leave s c
      show ofThread v _ ++ ofThread v (s.leave c).queued ++ _ = _
      rw [hqueued]
      exact hcalls v

theorem Inv.handleWrite {r : WriteResult} (hs : Inv s)
    (huser : s.loop.InUserCode) (hcall : s.loop.call = .none)
    (hr : r.Fits s.conn.outputBuffer.content.length) : Inv (s.handleWrite r) := by
  obtain ⟨c, hok, hout⟩ := TcpConnection.handleWrite_spec hs.conn hr
  have heq : s.handleWrite r = s.leave c := by
    rw [State.handleWrite, hok]
  rw [heq]
  refine ⟨leave_reachable hs.loop huser hcall, hout.inv, ?_, fun v => ?_⟩
  · exact (wire_output hout hs.wire).trans (List.append_nil _)
  · rw [queued_leave]
    exact hs.calls v

omit [DecidableEq H] in
/-- A step that changes only `m_state`, or shuts down the output. -/
theorem Inv.setConn {c : TcpConnection H} (hs : Inv s) (hc : c.Inv)
    (htaken : c.taken = s.conn.taken) (houtput : c.outputBuffer = s.conn.outputBuffer) :
    Inv { s with conn := c } := by
  refine ⟨hs.loop, hc, ?_, hs.calls⟩
  show c.taken ++ c.outputBuffer.content = _
  rw [htaken, houtput]
  exact hs.wire

omit [DecidableEq T] [DecidableEq H] in
theorem shutdownInLoop_inv {c : TcpConnection H} (hc : c.Inv) :
    c.shutdownInLoop.Inv ∧ c.shutdownInLoop.taken = c.taken ∧
      c.shutdownInLoop.outputBuffer = c.outputBuffer := by
  have heq := TcpConnection.shutdownInLoop_eq c
  refine ⟨?_, ?_, ?_⟩
  · rw [heq]
    exact ⟨⟨hc.sound, hc.input, hc.output⟩, hc.writing⟩
  · rw [TcpConnection.taken_append (congrArg TcpConnection.syscalls heq)]
    split <;> simp [Syscall.taken]
  · rw [heq]

/-! ## 5. Steps -/

omit [DecidableEq H] in
theorem Inv.drained (hs : Inv s) : EventLoop.Drained s.loop :=
  (EventLoop.refines_queue _).invariant hs.loop

theorem Inv.send {u : T} {message : List Byte} (hs : Inv s) (hcalling : s.calling u = none) :
    Inv (effect asserts s (.send u message)) := by
  refine ⟨hs.loop, hs.conn, hs.wire, fun v => ?_⟩
  have hv := hs.calls v
  show _ ++ State.toPush _ v = Function.update s.called (some u) _ v
  by_cases h : v = some u
  · subst h
    have hpush : s.toPush (some u) = [] := by rw [State.toPush, hcalling]; rfl
    have hnew : State.toPush (effect asserts s (.send u message)) (some u) = [message] := by
      simp only [State.toPush, effect, Function.update_self]
      rfl
    rw [hpush, List.append_nil] at hv
    rw [Function.update_self, ← hv, hnew]
    rfl
  · have hpush : State.toPush (effect asserts s (.send u message)) v = s.toPush v := by
      cases v with
      | none => rfl
      | some v =>
        have hne : v ≠ u := fun heq => h (congrArg some heq)
        simp only [State.toPush, effect, Function.update_of_ne hne]
    rw [Function.update_of_ne h, ← hv, ← hpush]
    rfl

theorem Inv.shutdown {u : T} (hs : Inv s) (hcalling : s.calling u = none) :
    Inv (effect asserts s (.shutdown u)) := by
  refine ⟨hs.loop, ⟨⟨hs.conn.sound, hs.conn.input, hs.conn.output⟩, hs.conn.writing⟩, hs.wire,
    fun v => ?_⟩
  have hpush : State.toPush (effect asserts s (.shutdown u)) v = s.toPush v := by
    cases v with
    | none => rfl
    | some v =>
      by_cases h : v = u
      · subst h
        simp only [State.toPush, effect, Function.update_self, hcalling]
        rfl
      · simp only [State.toPush, effect, Function.update_of_ne h]
  rw [hpush]
  exact hs.calls v

theorem Inv.push {u : T} {call : Call} (hs : Inv s) (hcalling : s.calling u = some call)
    (hg : EventLoop.guard s.loop (.push u (call.functor u))) :
    Inv (effect asserts s (.push u)) := by
  have heffect : effect asserts s (.push u) = { s with
      loop := EventLoop.effect s.loop (.push u (call.functor u))
      calling := Function.update s.calling u none } := by
    simp only [effect, hcalling]
  rw [heffect]
  refine ⟨hs.loop.step (Machine.guarded_step.mpr ⟨hg, rfl⟩), hs.conn, hs.wire, fun v => ?_⟩
  have hqueued : messages ((EventLoop.effect s.loop (.push u (call.functor u))).tmpFunctors ++
      (EventLoop.effect s.loop (.push u (call.functor u))).pendingFuntors) =
      s.queued ++ (call.functor u).message.toList :=
    messages_push s.loop (call.functor u)
  -- what the thread was about to push is now the last message in the queue
  have hmoves : ofThread v (call.functor u).message.toList ++
      State.toPush { s with
        loop := EventLoop.effect s.loop (.push u (call.functor u))
        calling := Function.update s.calling u none } v = s.toPush v := by
    cases v with
    | none => cases call <;> rfl
    | some v =>
      by_cases h : v = u
      · subst h
        simp only [State.toPush, Function.update_self, hcalling]
        cases call with
        | send message => exact congrArg (· ++ []) (ofThread_self (some v) message)
        | shutdown => rfl
      · simp only [State.toPush, Function.update_of_ne h]
        have hne : some u ≠ some v := fun heq => h (Option.some.inj heq).symm
        cases call with
        | send message => exact congrArg (· ++ _) (ofThread_ne hne message)
        | shutdown => rfl
  rw [← hs.calls v, ← hmoves]
  show _ ++ ofThread v (messages _) ++ _ = _
  rw [hqueued, ofThread_append]
  simp only [List.append_assoc]

theorem Inv.sendInLoop {message : List Byte} {r : WriteResult} (hs : Inv s)
    (huser : s.loop.InUserCode) (hcall : s.loop.call = .none) (hr : r.Fits message.length)
    (hcrashed : (effect asserts s (.sendInLoop message r)).crashed = none) :
    Inv (effect asserts s (.sendInLoop message r)) := by
  refine sendInLoop_inv hs.loop hs.conn hs.wire (fun v => ?_) huser hcall hr hcrashed
  have hv := hs.calls v
  show _ ++ ofThread v s.queued ++ s.toPush v = Function.update s.called none _ v
  cases v with
  | none =>
    have hqueued : ofThread none s.queued = [] := ofThread_none _
    rw [hqueued] at hv ⊢
    rw [Function.update_self, ← hv, ofThread_append, ofThread_self]
    simp [State.toPush]
  | some v =>
    rw [Function.update_of_ne (Option.some_ne_none v), ← hv, ofThread_append,
      ofThread_ne (Option.some_ne_none v).symm, List.append_nil]

omit [DecidableEq H] in
theorem Inv.call_none (hs : Inv s) (hg : EventLoop.guard s.loop .runFunctor) :
    s.loop.call = .none := by
  by_contra hcall
  have huser := (EventLoop.placed_reachable hs.loop (.inl rfl)).call hcall
  simp [EventLoop.State.InUserCode, hg.1] at huser

omit [DecidableEq H] in
theorem queued_next (hg : EventLoop.guard s.loop .runFunctor) :
    ∃ f, s.next = some f ∧ s.queued = f.message.toList ++
      State.queued { s with loop := EventLoop.effect s.loop .runFunctor } := by
  obtain ⟨-, hne⟩ := hg
  cases htmp : s.loop.tmpFunctors with
  | nil =>
    rw [htmp] at hne
    cases hne
  | cons q rest =>
    obtain ⟨f, polls, inBatch⟩ := q
    refine ⟨f, by rw [State.next, htmp]; rfl, ?_⟩
    show messages (s.loop.tmpFunctors ++ _) = _ ++ messages (s.loop.tmpFunctors.tail ++ _)
    rw [htmp]
    cases f <;> rfl

/-- The loop takes a functor: a message goes from the queue to the connection. -/
theorem Inv.runFunctor {r : WriteResult} (hs : Inv s) (hg : EventLoop.guard s.loop .runFunctor)
    (hr : ∀ f ∈ s.next, ∀ m ∈ f.message, r.Fits m.2.length)
    (hcrashed : (effect asserts s (.runFunctor r)).crashed = none) :
    Inv (effect asserts s (.runFunctor r)) := by
  have hloop := hs.loop.step (Machine.guarded_step.mpr ⟨hg, rfl⟩)
  obtain ⟨f, hnext, hqueued⟩ := queued_next hg
  have hkeep (hf : f.message = none) :
      Inv { s with loop := EventLoop.effect s.loop .runFunctor } := by
    refine ⟨hloop, hs.conn, hs.wire, fun v => ?_⟩
    have hv := hs.calls v
    rw [hqueued, hf] at hv
    exact hv
  simp only [effect, hnext] at hcrashed ⊢
  cases f with
  | sendInLoop u message =>
    refine sendInLoop_inv hloop hs.conn hs.wire (fun v => ?_) (.inr (.inr (.inr rfl)))
      (hs.call_none hg) (hr _ hnext _ rfl) hcrashed
    have hv := hs.calls v
    rw [hqueued, ofThread_append] at hv
    rw [ofThread_append, ← show _ = s.called v from hv]
    simp only [List.append_assoc]
    rfl
  | shutdownInLoop =>
    obtain ⟨hconn, htaken, houtput⟩ := shutdownInLoop_inv hs.conn
    exact (hkeep rfl).setConn hconn htaken houtput
  | writeComplete => exact hkeep rfl
  | user => exact hkeep rfl

theorem Inv.step {a : Act T} (hs : Inv s) (hg : guard s a)
    (hcrashed : (effect asserts s a).crashed = none) : Inv (effect asserts s a) := by
  obtain ⟨-, hg⟩ := hg
  cases a with
  | send u message => exact hs.send hg.2.1
  | shutdown u => exact hs.shutdown hg.1
  | push u =>
    obtain ⟨call, hcalling, hg⟩ := hg
    exact hs.push hcalling hg
  | sendInLoop message r => exact hs.sendInLoop hg.1 hg.2.1 hg.2.2.2 hcrashed
  | shutdownInLoop =>
    have hstate : (s.conn.setState .kDisconnecting).Inv :=
      ⟨⟨hs.conn.sound, hs.conn.input, hs.conn.output⟩, hs.conn.writing⟩
    obtain ⟨hconn, htaken, houtput⟩ := shutdownInLoop_inv hstate
    exact hs.setConn hconn htaken houtput
  | runFunctor r => exact hs.runFunctor hg.1 hg.2 hcrashed
  | handleWrite r =>
    have huser : s.loop.InUserCode :=
      hg.1.elim (fun h => .inr (.inl h)) fun h => .inr (.inr (.inl h))
    exact hs.handleWrite huser hg.2.1 hg.2.2
  | loop a =>
    refine ⟨hs.loop.step (Machine.guarded_step.mpr ⟨hg.1, rfl⟩), hs.conn, hs.wire, fun v => ?_⟩
    have hqueued : State.queued (effect asserts s (.loop a)) = s.queued :=
      messages_plain hs.drained hg.1 hg.2.1
    rw [hqueued]
    exact hs.calls v

theorem inv_reachable (hs : (machine T H asserts).Reachable s) (hcrashed : s.crashed = none) :
    Inv s := by
  refine Machine.reachable_invariant (I := fun s => s.crashed = none → Inv s) ?_
    (fun s a t hs h hcrashed => ?_) hs hcrashed
  · rintro s ⟨hloop, hqueued, hest, -, hcalling, hcalled, hhanded⟩ -
    have hnew := TcpConnection.established_spec hest
    refine ⟨hloop, hnew.inv, ?_, fun v => ?_⟩
    · rw [TcpConnection.taken, hnew.syscalls, hnew.content, hhanded]
      rfl
    · rw [hhanded, hqueued, hcalled]
      cases v with
      | none => rfl
      | some v => rw [State.toPush, hcalling]; rfl
  · obtain ⟨hg, rfl⟩ := Machine.guarded_step.mp h
    exact (hs hg.1).step hg hcrashed

/-- Messages from any number of threads, in every run without a fault: what the kernel has
taken, followed by the output buffer, is whole messages one after the other; and the
messages of each thread that have been handed on, those that wait in the queue, and the
one that it is about to push are, in this order, those that it has sent. -/
theorem messages_in_order (hs : (machine T H asserts).Reachable s) (hcrashed : s.crashed = none) :
    s.conn.taken ++ s.conn.outputBuffer.content = (s.handed.map Prod.snd).flatten ∧
    ∀ u, ofThread u s.handed ++ ofThread u s.queued ++ s.toPush u = s.called u := by
  have hinv := inv_reachable hs hcrashed
  exact ⟨hinv.wire, hinv.calls⟩

/-- A new connection, on a loop that is not published yet. -/
def start : State Bool Unit :=
  ⟨.start .initCallback, TcpConnection.anEstablished, none, fun _ => none, fun _ => [], []⟩

theorem start_init : (machine Bool Unit false).init start :=
  ⟨⟨_, [], rfl, rfl⟩, rfl, TcpConnection.anEstablished_established, rfl, fun _ => rfl,
    fun _ => rfl, rfl⟩

/-- Two threads send, and the loop's thread does, too, before it takes their messages. -/
def twoSenders : List (Act Bool) :=
  [.loop .publish, .loop .resetQuit, .send true [1, 2], .send false [3], .push false,
    .loop .testQuit, .loop (.wakeup false), .push true, .send false [4],
    .loop (.pollReturn true), .loop .handleRead, .sendInLoop [5] (.wrote 1),
    .loop .readCalling, .loop .setCalling, .loop .swap]

/-- The socket takes nothing more. -/
def fullSocket : List (Act Bool) :=
  [.runFunctor (.wrote 0), .loop .functorReturns, .runFunctor (.error 11)]

theorem twoSenders_in_order : ∃ s,
    (machine Bool Unit false).run start (twoSenders ++ fullSocket) = some s ∧
    s.handed = [(none, [5]), (some false, [3]), (some true, [1, 2])] ∧
    s.conn.taken ++ s.conn.outputBuffer.content = (s.handed.map Prod.snd).flatten ∧
    ∀ u, ofThread u s.handed ++ ofThread u s.queued ++ s.toPush u = s.called u := by
  have hruns : ((machine Bool Unit false).run start (twoSenders ++ fullSocket)).map
      (fun s => (s.crashed, s.handed)) =
      some (none, [(none, [5]), (some false, [3]), (some true, [1, 2])]) := by
    decide +kernel
  obtain ⟨s, hrun, hs⟩ := Option.map_eq_some_iff.mp hruns
  injection hs with hcrashed hhanded
  exact ⟨s, hrun, hhanded, messages_in_order ⟨_, _, start_init, hrun⟩ hcrashed⟩

/-! ## 6. The queue is emptied -/

/-- A step of the loop's thread that is in no other callback, with any result of `write`. -/
def Act.goesOn : Act T → Bool
  | .runFunctor _ => true
  | .loop a => a.goesOn
  | _ => false

/-- The steps until the messages in the queue have been handed on. A message may queue
`m_writeCompleteCB`, which takes another iteration. -/
def State.stepsLeft (s : State T H) : Nat := s.loop.runsLeft + 11 * s.queued.length

omit [DecidableEq H] in
theorem goes_leave {c : TcpConnection H} (hs : EventLoop.Goes s.loop) :
    EventLoop.Goes (s.leave c).loop := by
  unfold State.leave
  dsimp only
  split
  · exact ⟨hs.quit, hs.called⟩
  · exact hs

omit [DecidableEq H] in
theorem runsLeft_leave {c : TcpConnection H} (hcall : s.loop.call = .none) :
    (s.leave c).loop.runsLeft ≤ s.loop.runsLeft + 11 := by
  unfold State.leave
  dsimp only
  split
  · exact EventLoop.runsLeft_push hcall
  · exact Nat.le_add_right _ _

/-- What running the functor `f` leaves as it is, and what it may add for the loop to do. -/
structure Ran (s t : State T H) (f : Functor T) : Prop where
  goes : EventLoop.Goes t.loop
  queued : t.queued = s.queued
  called : t.called = s.called
  calling : t.calling = s.calling
  runsLeft : t.loop.runsLeft ≤ s.loop.runsLeft + 11 * f.message.toList.length

theorem runs_ran {r : WriteResult} (f : Functor T) (hgoes : EventLoop.Goes s.loop)
    (hcall : s.loop.call = .none) : Ran s (s.runs asserts r f) f := by
  cases f with
  | sendInLoop u message =>
    simp only [State.runs, State.sendInLoop]
    split
    · exact ⟨hgoes, rfl, rfl, rfl, Nat.le_add_right _ _⟩
    · exact ⟨goes_leave hgoes, queued_leave s _, rfl, rfl, runsLeft_leave hcall⟩
  | shutdownInLoop => exact ⟨hgoes, rfl, rfl, rfl, Nat.le_refl _⟩
  | writeComplete => exact ⟨hgoes, rfl, rfl, rfl, Nat.le_refl _⟩
  | user => exact ⟨hgoes, rfl, rfl, rfl, Nat.le_refl _⟩

/-- All messages sent in `s₀` have been handed on, in their order and but for those about
to be pushed, or a call has faulted. -/
def Handed (s₀ s : State T H) : Prop :=
  s.crashed ≠ none ∨
    s.queued = [] ∧ ∀ u, ofThread u s.handed ++ s₀.toPush u = s₀.called u

/-- The loop's thread goes on from `s₀`, and there are messages in the queue. -/
structure Hands (s₀ s : State T H) : Prop where
  inv : Inv s
  crashed : s.crashed = none
  goes : EventLoop.Goes s.loop
  called : s.called = s₀.called
  calling : s.calling = s₀.calling
  queued : s.queued ≠ []

omit [DecidableEq H] in
theorem handed_of_empty {s₀ : State T H} (hs : Inv s) (hcalled : s.called = s₀.called)
    (hcalling : s.calling = s₀.calling) (hempty : s.queued = []) : Handed s₀ s := by
  refine .inr ⟨hempty, fun u => ?_⟩
  have hpush : s.toPush u = s₀.toPush u := by
    cases u with
    | none => rfl
    | some u => rw [State.toPush, State.toPush, hcalling]
  have hall := hs.calls u
  rw [hempty, hpush, hcalled] at hall
  rw [← hall]
  exact congrArg (· ++ _) (List.append_nil _).symm

omit [DecidableEq H] in
theorem Hands.idle {s₀ : State T H} (hs : Hands s₀ s) : ¬s.loop.Idle := by
  rintro ⟨htmp, hpending⟩
  exact hs.queued (by rw [State.queued, htmp, hpending]; rfl)

variable (asserts) in
/-- A step of the loop's thread, which may be a functor with a message. -/
theorem Hands.moves {a : Act T} {s₀ : State T H} (hs : Hands s₀ s) (hown : a.goesOn = true)
    (hg : guard s a) : EventLoop.Goes (effect asserts s a).loop ∧
      (effect asserts s a).called = s₀.called ∧ (effect asserts s a).calling = s₀.calling ∧
      (effect asserts s a).stepsLeft < s.stepsLeft := by
  obtain ⟨-, hg⟩ := hg
  cases a with
  | runFunctor r =>
    obtain ⟨hg, -⟩ := hg
    obtain ⟨f, hnext, hsplit⟩ := queued_next hg
    have hlt := hs.goes.runsLeft_lt hs.idle rfl hg
    have hran : Ran { s with loop := EventLoop.effect s.loop .runFunctor }
        (effect asserts s (.runFunctor r)) f := by
      simp only [effect, hnext]
      exact runs_ran f (hs.goes.step rfl hg) (hs.inv.call_none hg)
    refine ⟨hran.goes, hran.called.trans hs.called, hran.calling.trans hs.calling, ?_⟩
    have hruns := hran.runsLeft
    rw [State.stepsLeft, State.stepsLeft, hran.queued, hsplit, List.length_append]
    dsimp only at hruns
    omega
  | loop a =>
    have hqueued : State.queued (effect asserts s (.loop a)) = s.queued :=
      messages_plain hs.inv.drained hg.1 hg.2.1
    refine ⟨hs.goes.step hown hg.1, hs.called, hs.calling, ?_⟩
    rw [State.stepsLeft, State.stepsLeft, hqueued]
    exact Nat.add_lt_add_right (hs.goes.runsLeft_lt hs.idle hown hg.1) _
  | send _ _ | shutdown _ | push _ | sendInLoop _ _ | shutdownInLoop | handleWrite _ => cases hown

theorem Hands.step {a : Act T} {s₀ : State T H} (hs : Hands s₀ s) (hown : a.goesOn = true)
    (h : (machine T H asserts).step s a = some t) :
    Handed s₀ t ∨ Hands s₀ t ∧ t.stepsLeft + 1 ≤ s.stepsLeft := by
  obtain ⟨hg, rfl⟩ := Machine.guarded_step.mp h
  obtain ⟨hgoes, hcalled, hcalling, hlt⟩ := hs.moves asserts hown hg
  by_cases hcrashed : (effect asserts s a).crashed = none
  · have hinv := hs.inv.step hg hcrashed
    by_cases hempty : (effect asserts s a).queued = []
    · exact .inl (handed_of_empty hinv hcalled hcalling hempty)
    · exact .inr ⟨⟨hinv, hcrashed, hgoes, hcalled, hcalling, hempty⟩, hlt⟩
  · exact .inl (.inl hcrashed)

variable (asserts) in
theorem Hands.enabled {s₀ : State T H} (hs : Hands s₀ s) :
    ∃ a t, Act.goesOn a = true ∧ (machine T H asserts).step s a = some t := by
  obtain ⟨a, hown, hg⟩ := hs.goes.enabled
  by_cases ha : a = .runFunctor
  · subst ha
    have hguard : guard s (.runFunctor (.error 11)) := ⟨hs.crashed, hg, fun _ _ _ _ => trivial⟩
    exact ⟨.runFunctor (.error 11), _, rfl, Machine.guarded_step.mpr ⟨hguard, rfl⟩⟩
  · have hplain : plain a = true := by
      cases a <;> first | rfl | exact absurd rfl ha | cases hown
    have hcaller : EventLoopThread.caller a = none := by
      cases a <;> first | rfl | cases hown
    have hguard : guard s (.loop a) := by
      refine ⟨hs.crashed, hg, hplain, fun t ht => ?_⟩
      rw [hcaller] at ht
      cases ht
    exact ⟨.loop a, _, hown, Machine.guarded_step.mpr ⟨hguard, rfl⟩⟩

/-- No queued message is left behind. Every run of the loop's own thread without other
callbacks, with any results of `write` and of `epoll_wait`, comes to a state in which all
that is queued has been handed on, unless a `sendInLoop` faults; a run that has not come
there yet is shorter than the bound, and can go on. -/
theorem queued_handed {as : List (Act T)} (hs : (machine T H asserts).Reachable s)
    (hcrashed : s.crashed = none) (hgoes : EventLoop.Goes s.loop)
    (hown : ∀ a ∈ as, a.goesOn = true) (hrun : (machine T H asserts).run s as = some t) :
    (∃ bs u, bs <+: as ∧ (machine T H asserts).run s bs = some u ∧ Handed s u) ∨
    t.queued ≠ [] ∧
      as.length < 10 + 2 * (s.loop.tmpFunctors.length + s.loop.pendingFuntors.length) +
        11 * s.queued.length ∧
      ∃ a u, Act.goesOn a = true ∧ (machine T H asserts).step t a = some u := by
  have hinv := inv_reachable hs hcrashed
  by_cases hempty : s.queued = []
  · exact .inl ⟨[], s, List.nil_prefix, rfl, handed_of_empty hinv rfl rfl hempty⟩
  have hhands : Hands s s := ⟨hinv, hcrashed, hgoes, rfl, rfl, hempty⟩
  have halong := Machine.along_of_forall (M := machine T H asserts)
    (C := fun _ a => Act.goesOn a = true) (fun a ha _ => hown a ha) s
  rcases Machine.countP_le_until State.stepsLeft (fun _ => true)
    (fun s a t hs hown h => hs.step hown h) hhands halong hrun with hvisits | ⟨ht, hcount⟩
  · exact .inl hvisits
  · refine .inr ⟨ht.queued, ?_, ht.enabled asserts⟩
    have hleft : 0 < t.queued.length := List.length_pos_iff.mpr ht.queued
    have hbound := EventLoop.runsLeft_le s.loop
    rw [List.countP_true, State.stepsLeft, State.stepsLeft] at hcount
    omega

/-- The socket takes the first message and a byte of the second one. -/
def slowSocket : List (Act Bool) :=
  [.runFunctor (.wrote 1), .loop .readCalling, .loop .loopWakeup, .loop .functorReturns,
    .runFunctor (.wrote 1)]

theorem twoSenders_handed : ∃ s u bs,
    (machine Bool Unit false).run start twoSenders = some s ∧
    s.queued = [(some false, [3]), (some true, [1, 2])] ∧ bs <+: slowSocket ∧
    (machine Bool Unit false).run s bs = some u ∧ Handed s u := by
  have hruns : ((machine Bool Unit false).run start twoSenders).map
      (fun s => (s.crashed, s.queued, decide (s.loop.bquit = false ∧ s.loop.pc = .running))) =
      some (none, [(some false, [3]), (some true, [1, 2])], true) := by
    decide +kernel
  have hlater : ((machine Bool Unit false).run start (twoSenders ++ slowSocket)).map
      (fun s => s.queued) = some [] := by
    decide +kernel
  obtain ⟨s, hrun, hs⟩ := Option.map_eq_some_iff.mp hruns
  injection hs with hcrashed hs
  injection hs with hqueued hs
  obtain ⟨hquit, hpc⟩ := of_decide_eq_true hs
  rw [Machine.run_append, hrun, Option.bind_some] at hlater
  obtain ⟨t, hthen, hempty⟩ := Option.map_eq_some_iff.mp hlater
  have hown : ∀ a ∈ slowSocket, Act.goesOn a = true := by decide
  obtain ⟨bs, u, hprefix, hvisits, hhanded⟩ :=
    (queued_handed ⟨_, _, start_init, hrun⟩ hcrashed ⟨.inr hquit, by rw [hpc]; decide⟩ hown
      hthen).resolve_right fun hnot => hnot.1 hempty
  exact ⟨s, u, bs, hrun, hqueued, hprefix, hvisits, hhanded⟩

end

end Senders

end NetFrame
