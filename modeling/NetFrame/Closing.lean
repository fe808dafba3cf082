import NetFrame.Connection

/-!
# Closing a connection

One connection that some owner keeps alive, from `connectionEstablished` on:
its I/O loop dispatches events to its handler and runs functors, other threads
call `send`, and the base loop hands the connection over to its end
(`removeConnection`, `removeConnectionInLoop`, `connectionDestroyed`).

Results:
1. `closing_not_final`: two runs in which a closed connection is closed again.
2. `closing_final`: closing is final in every run in which no functor that
   outlives the close writes a part of its bytes, and no `read` of the dispatch
   that has closed the connection returns 0.
-/

namespace NetFrame

namespace Closing

/-! ## 1. The threads -/

/-- The functors of the I/O loop that concern the connection. -/
inductive Functor where
  | sendInLoop (message : List Byte)
  | writeComplete
  | connectionDestroyed
  deriving DecidableEq, Repr

/-- Where the I/O loop is. -/
inductive LoopPc where
  | idle
  /-- In `Handler::m_handleEvent`. -/
  | dispatching
  /-- In `m_doPendingFunctors`. -/
  | running
  deriving DecidableEq, Repr

structure State (T H : Type) where
  conn : TcpConnection H
  pc : LoopPc
  /-- The callbacks that `m_handleEvent` is still to make. -/
  callbacks : List Handler.Callback
  tmpFunctors : List Functor
  pendingFuntors : List Functor
  /-- How many `removeConnectionInLoop` wait on the base loop. -/
  removals : Nat
  /-- The threads in `send` that have read `kConnected` and not yet queued. -/
  senders : T → Option (List Byte)
  crashed : Option Fault
  /-- `m_state` at each call of `handleClose`. -/
  closes : List StateE
  /-- How often `connectionDestroyed` has run. -/
  destroyed : Nat

/-- What a call that leaves the connection puts into the I/O loop's queue. Where
the base loop is the I/O loop, `removeConnection` runs at once. -/
def posted (sameLoop : Bool) : Upcall → Option Functor
  | .queueWriteComplete => some .writeComplete
  | .closeCB => if sameLoop then some .connectionDestroyed else none
  | .connectionCB => none
  | .messageCB => none

variable {T H : Type}

/-- After a call on the connection: its calls are carried out, or the process
has aborted. -/
def State.settle (sameLoop : Bool) (s : State T H) : Except Fault (TcpConnection H) → State T H
  | .error f => { s with crashed := some f }
  | .ok c =>
    { s with
      conn := { c with upcalls := [] }
      pendingFuntors := s.pendingFuntors ++ c.upcalls.filterMap (posted sameLoop)
      removals := s.removals + if sameLoop then 0 else c.upcalls.count .closeCB }

/-- `handleClose` is called. -/
def State.logClose (s : State T H) : State T H := { s with closes := s.closes ++ [s.conn.state] }

/-- The kernel has the handler's descriptor, so that `epoll_wait` may report it. -/
def State.registered (s : State T H) : Bool :=
  (s.conn.poller.interest.find s.conn.hd.fd).isSome

/-! ## 2. The steps -/

inductive Act (T : Type) where
  /-- `m_handleEvent` is called with `m_revents = revents`. -/
  | handleEvent (revents : Events)
  | handleClose
  | handleError
  /-- `handleRead`, where `readv` returns `r`. -/
  | handleRead (r : Buffer.ReadResult)
  /-- `handleWrite`, where `write` returns `r` if it is called. -/
  | handleWrite (r : WriteResult)
  | eventHandled
  | swap
  /-- The next functor runs, where `write` returns `r` if it is called. -/
  | runFunctor (r : WriteResult)
  | batchDone
  /-- `send` and `shutdown` in the loop's thread. -/
  | loopSend (data : List Byte) (r : WriteResult)
  | loopShutdown
  /-- `send` in another thread finds `kConnected`. -/
  | checkState (t : T) (data : List Byte)
  /-- It queues `sendInLoop`. -/
  | queueSend (t : T)
  /-- The base loop runs `removeConnectionInLoop`. -/
  | removeConnectionInLoop
  deriving DecidableEq, Repr

def guard (s : State T H) (a : Act T) : Prop :=
  s.crashed = none ∧
  match a with
  | .handleEvent _ => s.pc = .idle ∧ s.registered = true
  | .handleClose => s.pc = .dispatching ∧ s.callbacks.head? = some .close
  | .handleError => s.pc = .dispatching ∧ s.callbacks.head? = some .error
  | .handleRead _ => s.pc = .dispatching ∧ s.callbacks.head? = some .read
  | .handleWrite r => s.pc = .dispatching ∧ s.callbacks.head? = some .write ∧
      r.Fits s.conn.outputBuffer.content.length
  | .eventHandled => s.pc = .dispatching ∧ s.callbacks = []
  | .swap => s.pc = .idle
  | .runFunctor r => s.pc = .running ∧
      match s.tmpFunctors with
      | [] => False
      | .sendInLoop message :: _ => r.Fits message.length
      | _ :: _ => True
  | .batchDone => s.pc = .running ∧ s.tmpFunctors = []
  | .loopSend data r => s.conn.state = .kConnected ∧ r.Fits data.length
  | .loopShutdown => s.conn.state = .kConnected
  | .checkState t _ => s.conn.state = .kConnected ∧ s.senders t = none
  | .queueSend t => s.senders t ≠ none
  | .removeConnectionInLoop => 0 < s.removals

instance (s : State T H) (a : Act T) : Decidable (guard s a) := by
  unfold guard
  cases a with
  | runFunctor r =>
    match s.tmpFunctors with
    | [] => infer_instance
    | .sendInLoop _ :: _ => infer_instance
    | .writeComplete :: _ => infer_instance
    | .connectionDestroyed :: _ => infer_instance
  | _ => infer_instance

def effect [DecidableEq T] [DecidableEq H] (sameLoop : Bool) (s : State T H) :
    Act T → State T H
  | .handleEvent revents =>
    { s with pc := .dispatching, callbacks := Handler.handleEvent revents }
  | .handleClose =>
    { s.logClose with callbacks := s.callbacks.tail }.settle sameLoop s.conn.handleClose
  | .handleError => { s with callbacks := s.callbacks.tail }
  | .handleRead r =>
    { (if r = Buffer.ReadResult.bytes [] then s.logClose else s) with
      callbacks := s.callbacks.tail }.settle sameLoop (s.conn.handleRead r)
  | .handleWrite r =>
    { s with callbacks := s.callbacks.tail }.settle sameLoop (s.conn.handleWrite r)
  | .eventHandled => { s with pc := .idle }
  | .swap => { s with pc := .running, tmpFunctors := s.pendingFuntors, pendingFuntors := [] }
  | .runFunctor r =>
    match s.tmpFunctors with
    | [] => s
    | .sendInLoop message :: rest =>
      { s with tmpFunctors := rest }.settle sameLoop (s.conn.sendInLoop true message r)
    | .writeComplete :: rest => { s with tmpFunctors := rest }
    | .connectionDestroyed :: rest =>
      { s with tmpFunctors := rest, destroyed := s.destroyed + 1 }.settle sameLoop
        s.conn.connectionDestroyed
  | .batchDone => { s with pc := .idle }
  | .loopSend data r => s.settle sameLoop (s.conn.sendInLoop true data r)
  | .loopShutdown => { s with conn := (s.conn.setState .kDisconnecting).shutdownInLoop }
  | .checkState t data => { s with senders := Function.update s.senders t (some data) }
  | .queueSend t =>
    { s with
      pendingFuntors := s.pendingFuntors ++ (s.senders t).toList.map .sendInLoop
      senders := Function.update s.senders t none }
  | .removeConnectionInLoop =>
    { s with
      removals := s.removals - 1
      pendingFuntors := s.pendingFuntors ++ [.connectionDestroyed] }

/-- The state right after `connectionEstablished`. -/
def start (c : TcpConnection H) : State T H where
  conn := { c with upcalls := [] }
  pc := .idle
  callbacks := []
  tmpFunctors := []
  pendingFuntors := []
  removals := 0
  senders := fun _ => none
  crashed := none
  closes := []
  destroyed := 0

/-- The runs of an established connection; `sameLoop` if its I/O loop is the base loop. -/
def machine (T H : Type) [DecidableEq T] [DecidableEq H] (sameLoop : Bool) :
    Trans.Machine (State T H) (Act T) :=
  Trans.Machine.guarded (fun s => ∃ c, c.Established ∧ s = start c) guard (effect sameLoop)

/-! ## 3. Two ways to close twice -/

/-- A functor outlives the close. Its `write` takes one byte of two, so that the
handler is registered again, and the next event closes the connection again. -/
def lateSend : List (Act Unit) :=
  [.checkState () [1, 2], .handleEvent EPOLLIN, .handleRead (.bytes []), .eventHandled,
    .queueSend (), .swap, .runFunctor (.wrote 1), .batchDone, .handleEvent EPOLLHUP, .handleClose]

/-- One mask closes the connection and then reads from it. -/
def hangupWithUrgentData : List (Act Unit) :=
  [.handleEvent (EPOLLHUP ||| EPOLLPRI), .handleClose, .handleRead (.bytes [])]

/-- Closing is final in the state `s`. -/
structure Final (s : State T H) : Prop where
  events : s.closes ≠ [] → s.conn.hd.events = Handler.kNoneEvent
  once : s.closes.length ≤ 1
  asserts : ∀ st ∈ s.closes, st = .kConnected ∨ st = .kDisconnecting
  destroyed_once : s.destroyed ≤ 1
  gone : s.destroyed ≠ 0 → s.conn.poller.handlermap.find s.conn.hd.fd = none

/-- The fault of a second `handleClose`. -/
def closedTwice : Fault := .assertion "m_state == kConnected || m_state == kDisconnecting"

theorem closing_not_final :
    (∃ s, (machine Unit Unit false).run (start TcpConnection.anEstablished) lateSend = some s ∧
      s.conn.hd.isNoneEvent = false ∧ s.crashed = some closedTwice ∧ ¬Final s) ∧
    (∃ s, (machine Unit Unit false).run (start TcpConnection.anEstablished) hangupWithUrgentData =
        some s ∧
      s.callbacks = [] ∧ s.crashed = some closedTwice ∧ ¬Final s) := by
  have hlate : ((machine Unit Unit false).run (start TcpConnection.anEstablished) lateSend).map
      (fun s => (s.closes.length, s.conn.hd.isNoneEvent, s.crashed)) =
      some (2, false, some closedTwice) := by
    decide +kernel
  have hhangup : ((machine Unit Unit false).run (start TcpConnection.anEstablished)
      hangupWithUrgentData).map (fun s => (s.closes.length, s.callbacks, s.crashed)) =
      some (2, [], some closedTwice) := by
    decide +kernel
  obtain ⟨s, hs, hsp⟩ := Option.map_eq_some_iff.mp hlate
  obtain ⟨t, ht, htp⟩ := Option.map_eq_some_iff.mp hhangup
  simp only [Prod.mk.injEq] at hsp htp
  refine ⟨⟨s, hs, hsp.2.1, hsp.2.2, fun h => ?_⟩, ⟨t, ht, htp.2.1, htp.2.2, fun h => ?_⟩⟩
  · exact absurd h.once (by rw [hsp.1]; decide)
  · exact absurd h.once (by rw [htp.1]; decide)

/-! ## 4. Before and after the close -/

/-- The ways to `connectionDestroyed` that are open: functors on either loop,
and the runs so far. -/
def State.destructions (s : State T H) : Nat :=
  (s.tmpFunctors ++ s.pendingFuntors).count .connectionDestroyed + s.removals + s.destroyed

/-- Outside of a batch, `tmpFunctors` has been executed. -/
def State.Drained (s : State T H) : Prop := s.pc ≠ .running → s.tmpFunctors = []

/-- Before the close. -/
structure Open (s : State T H) : Prop where
  inv : s.conn.Inv
  quiet : s.conn.upcalls = []
  closes : s.closes = []
  listening : TcpConnection.Listening s.conn.hd
  state : s.conn.state = .kConnected ∨ s.conn.state = .kDisconnecting
  destructions : s.destructions = 0
  callbacks : s.callbacks.Sublist [.close, .error, .read, .write]
  drained : s.Drained

/-- After the close: the handler is not registered, and one `connectionDestroyed`
is on its way or has run. -/
structure Closed (s : State T H) : Prop where
  wf : s.conn.Wf
  quiet : s.conn.upcalls = []
  closes : ∃ st, s.closes = [st] ∧ (st = .kConnected ∨ st = .kDisconnecting)
  state : s.conn.state = .kDisconnected
  events : s.conn.hd.events = Handler.kNoneEvent
  unregistered : s.conn.hd.state ≠ .kAdded
  gone : s.destroyed ≠ 0 → s.conn.hd.state = .kNew
  destructions : s.destructions = 1
  callbacks : .close ∉ s.callbacks
  drained : s.Drained

section

variable {s : State T H} {sameLoop : Bool} {c : TcpConnection H}

theorem count_posted (sameLoop : Bool) (us : List Upcall) :
    (us.filterMap (posted sameLoop)).count .connectionDestroyed +
      (if sameLoop then 0 else us.count .closeCB) = us.count .closeCB := by
  induction us with
  | nil => simp
  | cons u us ih =>
    cases sameLoop <;> cases u <;> simp [posted, List.filterMap_cons] at ih ⊢ <;> omega

/-- Each `closeCB` opens one way to `connectionDestroyed`. -/
theorem destructions_settle :
    (s.settle sameLoop (.ok c)).destructions = s.destructions + c.upcalls.count .closeCB := by
  have hcount := count_posted sameLoop c.upcalls
  simp only [State.settle, State.destructions, List.count_append]
  omega

theorem destructions_swap (h : s.tmpFunctors = []) :
    State.destructions { s with
      pc := .running, tmpFunctors := s.pendingFuntors, pendingFuntors := [] } =
    s.destructions := by
  simp [State.destructions, h]

theorem destructions_queueSend [DecidableEq T] {t : T} :
    State.destructions { s with
      pendingFuntors := s.pendingFuntors ++ (s.senders t).toList.map .sendInLoop
      senders := Function.update s.senders t none } =
    s.destructions := by
  cases s.senders t <;> simp [State.destructions, List.count_append]

/-- The callbacks after the first of `m_handleEvent` are not `handleClose`. -/
theorem close_not_mem_tail (h : s.callbacks.Sublist [.close, .error, .read, .write]) :
    .close ∉ s.callbacks.tail := by
  intro hmem
  have htail : s.callbacks.tail.Sublist [.error, .read, .write] := h.tail
  exact absurd (htail.subset hmem) (by decide)

theorem handleEvent_sublist (revents : Events) :
    (Handler.handleEvent revents).Sublist [.close, .error, .read, .write] := by
  unfold Handler.handleEvent
  have hopt : ∀ (p : Prop) [Decidable p] (cb : Handler.Callback),
      (if p then [cb] else []).Sublist [cb] := by
    intro p _ cb
    split
    · exact .refl _
    · exact List.nil_sublist _
  exact (((hopt _ .close).append (hopt _ .error)).append (hopt _ .read)).append (hopt _ .write)

theorem output_quiet {calls : List Syscall} {data : List Byte} (hq : s.conn.upcalls = [])
    (hc : TcpConnection.Output s.conn c calls data) : .closeCB ∉ c.upcalls := by
  obtain ⟨k, hk⟩ := hc.upcalls
  rw [hk, hq]
  simp

/-- A call before the close that does not close. -/
theorem Open.settle (hs : Open s) (hinv : c.Inv) (hl : TcpConnection.Listening c.hd)
    (hst : c.state = s.conn.state) (hquiet : .closeCB ∉ c.upcalls) :
    Open (s.settle sameLoop (.ok c)) := by
  refine ⟨⟨⟨hinv.sound, hinv.input, hinv.output⟩, hinv.writing⟩, rfl, hs.closes, hl, ?_, ?_,
    hs.callbacks, hs.drained⟩
  · show c.state = _ ∨ c.state = _
    rw [hst]
    exact hs.state
  · rw [destructions_settle, List.count_eq_zero_of_not_mem hquiet, hs.destructions]

theorem Open.settle_output {calls : List Syscall} {data : List Byte} (hs : Open s)
    (hc : TcpConnection.Output s.conn c calls data) : Open (s.settle sameLoop (.ok c)) :=
  hs.settle hc.inv (hc.listening hs.listening) hc.state (output_quiet hs.quiet hc)

theorem Open.crash (hs : Open s) (f : Fault) : Open (s.settle sameLoop (.error f)) :=
  ⟨hs.inv, hs.quiet, hs.closes, hs.listening, hs.state, hs.destructions, hs.callbacks, hs.drained⟩

/-- A call after the close that leaves the handler alone. -/
theorem Closed.settle (hs : Closed s) (hpoller : c.poller = s.conn.poller)
    (hhandler : c.handler = s.conn.handler) (hstate : c.state = s.conn.state)
    (hin : c.inputBuffer.Inv) (hout : c.outputBuffer.Inv) (hquiet : .closeCB ∉ c.upcalls) :
    Closed (s.settle sameLoop (.ok c)) := by
  have hhd : TcpConnection.hd { c with upcalls := [] } = s.conn.hd := by
    simp only [TcpConnection.hd, hpoller, hhandler]
  refine ⟨⟨hpoller ▸ hs.wf.sound, hin, hout⟩, rfl, hs.closes, hstate.trans hs.state,
    hhd ▸ hs.events, hhd ▸ hs.unregistered, fun h => hhd ▸ hs.gone h, ?_, hs.callbacks,
    hs.drained⟩
  rw [destructions_settle, List.count_eq_zero_of_not_mem hquiet, hs.destructions]

theorem Closed.crash (hs : Closed s) (f : Fault) : Closed (s.settle sameLoop (.error f)) :=
  ⟨hs.wf, hs.quiet, hs.closes, hs.state, hs.events, hs.unregistered, hs.gone, hs.destructions,
    hs.callbacks, hs.drained⟩

theorem Open.final (hs : Open s) : Final s := by
  have hzero := hs.destructions
  unfold State.destructions at hzero
  have hdestroyed : s.destroyed = 0 := by omega
  exact ⟨fun h => absurd hs.closes h, by simp [hs.closes], by simp [hs.closes],
    by simp [hdestroyed], fun h => absurd hdestroyed h⟩

theorem Closed.final (hs : Closed s) : Final s := by
  obtain ⟨st, hst, hok⟩ := hs.closes
  have hone := hs.destructions
  unfold State.destructions at hone
  refine ⟨fun _ => hs.events, by simp [hst], ?_, by omega, fun h => ?_⟩
  · rw [hst]
    simpa using hok
  · exact hs.wf.placed.not_found (hs.gone h)

variable [DecidableEq H]

theorem Open.start {c : TcpConnection H} (hc : c.Established) : Open (start c : State T H) := by
  obtain ⟨hinv, hlistening, hstate, -, -⟩ := TcpConnection.established_spec hc
  exact ⟨⟨⟨hinv.sound, hinv.input, hinv.output⟩, hinv.writing⟩, rfl, rfl, hlistening, .inl hstate,
    rfl, List.nil_sublist _, fun _ => rfl⟩

/-- `handleClose` before the close. -/
theorem Open.close (hs : Open s) (sameLoop : Bool) {cbs : List Handler.Callback}
    (hcbs : .close ∉ cbs) :
    ∃ c, s.conn.handleClose = .ok c ∧
      Closed ({ s.logClose with callbacks := cbs }.settle sameLoop (.ok c)) := by
  obtain ⟨p, hok, hl⟩ := TcpConnection.handleClose_spec hs.inv.placed hs.state
  have hhd := hl.self
  have hdeleted : (p.handlers s.conn.handler).state = .kDeleted := by
    rw [hhd]
    exact if_pos ⟨hs.listening.added, rfl⟩
  have hevents : (p.handlers s.conn.handler).events = Handler.kNoneEvent := by
    rw [hhd]
    rfl
  have hzero := hs.destructions
  have hdestroyed : s.destroyed = 0 := by
    unfold State.destructions at hzero
    omega
  refine ⟨_, hok, ⟨hl.sound hs.inv.sound, hs.inv.input, hs.inv.output⟩, rfl,
    ⟨s.conn.state, ?_, hs.state⟩, rfl, hevents, ?_, fun h => absurd hdestroyed h, ?_, hcbs,
    hs.drained⟩
  · show s.closes ++ _ = _
    rw [hs.closes]
    rfl
  · show (p.handlers s.conn.handler).state ≠ _
    rw [hdeleted]
    simp
  · rw [destructions_settle]
    simp only [hs.quiet, List.nil_append]
    show s.destructions + _ = 1
    rw [hzero]
    rfl

/-- The functor `connectionDestroyed` after the close. -/
theorem Closed.connectionDestroyed {rest : List Functor} (hs : Closed s) (sameLoop : Bool)
    (hpc : s.pc = .running) (htmp : s.tmpFunctors = .connectionDestroyed :: rest) :
    ∃ c, s.conn.connectionDestroyed = .ok c ∧
      Closed (({ s with
        tmpFunctors := rest
        destroyed := s.destroyed + 1 } : State T H).settle sameLoop (.ok c)) := by
  obtain ⟨p, hok, hl⟩ := TcpConnection.connectionDestroyed_spec hs.wf.placed
  have hstate : (p.handlers s.conn.handler).state = .kNew := by rw [hl.self]
  have hevents : (p.handlers s.conn.handler).events = Handler.kNoneEvent := by rw [hl.self]
  refine ⟨_, hok, ⟨hl.sound hs.wf.sound, hs.wf.input, hs.wf.output⟩, rfl, hs.closes, rfl, hevents,
    ?_, fun _ => hstate, ?_, hs.callbacks, fun h => absurd hpc h⟩
  · show (p.handlers s.conn.handler).state ≠ _
    simp [hstate]
  · -- the functor becomes a run of `connectionDestroyed`
    have hone := hs.destructions
    have hcb : [Upcall.connectionCB].count .closeCB = 0 := rfl
    rw [destructions_settle]
    simp only [State.destructions, htmp, List.cons_append, List.count_cons_self, hs.quiet,
      List.nil_append, hcb] at hone ⊢
    omega

/-! ## 5. The steps -/

variable [DecidableEq T] {a : Act T}

theorem Open.step (hs : Open s) (hg : guard s a) :
    Open (effect sameLoop s a) ∨ Closed (effect sameLoop s a) := by
  have hpop : Open { s with callbacks := s.callbacks.tail } :=
    ⟨hs.inv, hs.quiet, hs.closes, hs.listening, hs.state, hs.destructions,
      (List.tail_sublist _).trans hs.callbacks, hs.drained⟩
  obtain ⟨-, hg⟩ := hg
  cases a with
  | handleEvent revents =>
    exact .inl ⟨hs.inv, hs.quiet, hs.closes, hs.listening, hs.state, hs.destructions,
      handleEvent_sublist revents, fun _ => hs.drained (by simp [hg.1])⟩
  | handleClose =>
    obtain ⟨c, hok, hclosed⟩ := hs.close sameLoop (close_not_mem_tail hs.callbacks)
    simp only [effect, hok]
    exact .inr hclosed
  | handleError => exact .inl hpop
  | handleRead r =>
    by_cases hr : r = .bytes []
    · subst hr
      obtain ⟨b, hb, hread⟩ := TcpConnection.handleRead_nil hs.inv.toWf
      have hs' : Open { s with conn := { s.conn with inputBuffer := b } } :=
        ⟨⟨⟨hs.inv.sound, hb, hs.inv.output⟩, hs.inv.writing⟩, hs.quiet, hs.closes, hs.listening,
          hs.state, hs.destructions, hs.callbacks, hs.drained⟩
      obtain ⟨c, hok, hclosed⟩ := hs'.close sameLoop (close_not_mem_tail hs.callbacks)
      simp only [effect, if_pos, hread.trans hok]
      exact .inr hclosed
    · simp only [effect, if_neg hr]
      cases hread : s.conn.handleRead r with
      | error f => exact .inl (hpop.crash f)
      | ok c =>
        obtain ⟨b, us, rfl, hb, hus⟩ := TcpConnection.handleRead_spec hs.inv.toWf hr hread
        refine .inl (hpop.settle ⟨⟨hs.inv.sound, hb, hs.inv.output⟩, hs.inv.writing⟩ hs.listening
          rfl ?_)
        rcases hus with rfl | rfl <;> simp [hs.quiet]
  | handleWrite r =>
    obtain ⟨c, hok, hout⟩ := TcpConnection.handleWrite_spec hs.inv hg.2.2
    simp only [effect, hok]
    exact .inl (hpop.settle_output hout)
  | eventHandled =>
    exact .inl ⟨hs.inv, hs.quiet, hs.closes, hs.listening, hs.state, hs.destructions,
      hs.callbacks, fun _ => hs.drained (by simp [hg.1])⟩
  | swap =>
    refine .inl ⟨hs.inv, hs.quiet, hs.closes, hs.listening, hs.state, ?_, hs.callbacks,
      fun h => absurd rfl h⟩
    exact (destructions_swap (hs.drained (by simp [show s.pc = .idle from hg]))).trans
      hs.destructions
  | runFunctor r =>
    obtain ⟨hpc, hfits⟩ := hg
    simp only [effect]
    cases htmp : s.tmpFunctors with
    | nil => simp [htmp] at hfits
    | cons f rest =>
      have hrest : f ≠ .connectionDestroyed ∧ Open { s with tmpFunctors := rest } := by
        have hzero := hs.destructions
        rw [State.destructions, htmp] at hzero
        refine ⟨by rintro rfl; simp at hzero, hs.inv, hs.quiet, hs.closes, hs.listening, hs.state,
          ?_, hs.callbacks, fun h => absurd hpc h⟩
        simp only [State.destructions, List.cons_append, List.count_cons] at hzero ⊢
        omega
      obtain ⟨hne, hrest⟩ := hrest
      cases f with
      | sendInLoop message =>
        rw [htmp] at hfits
        dsimp only
        cases hsend : s.conn.sendInLoop true message r with
        | error f => exact .inl (hrest.crash f)
        | ok c =>
          exact .inl (hrest.settle_output (TcpConnection.sendInLoop_spec hs.inv hfits hsend))
      | writeComplete => exact .inl hrest
      | connectionDestroyed => exact absurd rfl hne
  | batchDone =>
    exact .inl ⟨hs.inv, hs.quiet, hs.closes, hs.listening, hs.state, hs.destructions,
      hs.callbacks, fun _ => hg.2⟩
  | loopSend data r =>
    simp only [effect]
    cases hsend : s.conn.sendInLoop true data r with
    | error f => exact .inl (hs.crash f)
    | ok c => exact .inl (hs.settle_output (TcpConnection.sendInLoop_spec hs.inv hg.2 hsend))
  | loopShutdown =>
    simp only [effect, TcpConnection.shutdownInLoop_eq]
    exact .inl ⟨⟨⟨hs.inv.sound, hs.inv.input, hs.inv.output⟩, hs.inv.writing⟩, hs.quiet, hs.closes,
      hs.listening, .inr rfl, hs.destructions, hs.callbacks, hs.drained⟩
  | checkState t data =>
    exact .inl ⟨hs.inv, hs.quiet, hs.closes, hs.listening, hs.state, hs.destructions,
      hs.callbacks, hs.drained⟩
  | queueSend t =>
    exact .inl ⟨hs.inv, hs.quiet, hs.closes, hs.listening, hs.state,
      destructions_queueSend.trans hs.destructions, hs.callbacks, hs.drained⟩
  | removeConnectionInLoop =>
    have hzero := hs.destructions
    have hpos : 0 < s.removals := hg
    unfold State.destructions at hzero
    omega

/-- The exact condition on a step after the close: a functor's `write` into an
empty output buffer is not short, and no `read` returns 0. -/
def Clean (s : State T H) (a : Act T) : Prop :=
  s.closes ≠ [] →
  match a with
  | .handleRead r => r ≠ .bytes []
  | .runFunctor r =>
    match s.tmpFunctors with
    | .sendInLoop message :: _ => s.conn.outputBuffer.readableBytes = 0 → ¬r.Short message.length
    | _ => True
  | _ => True

instance (s : State T H) (a : Act T) : Decidable (Clean s a) := by
  unfold Clean
  cases a with
  | runFunctor r =>
    match s.tmpFunctors with
    | [] => infer_instance
    | .sendInLoop _ :: _ => infer_instance
    | .writeComplete :: _ => infer_instance
    | .connectionDestroyed :: _ => infer_instance
  | _ => infer_instance

theorem Closed.step (hs : Closed s) (hc : Clean s a) (hg : guard s a) :
    Closed (effect sameLoop s a) := by
  have hpop : Closed { s with callbacks := s.callbacks.tail } :=
    ⟨hs.wf, hs.quiet, hs.closes, hs.state, hs.events, hs.unregistered, hs.gone, hs.destructions,
      fun h => hs.callbacks (List.mem_of_mem_tail h), hs.drained⟩
  -- the handler asks for nothing, so that `handleWrite` writes nothing
  have hoff : s.conn.isWriting = false := by
    rw [TcpConnection.isWriting, Handler.isWriting, hs.events]
    decide
  have hclosed : s.closes ≠ [] := by
    obtain ⟨st, hst, -⟩ := hs.closes
    simp [hst]
  replace hc := hc hclosed
  obtain ⟨-, hg⟩ := hg
  cases a with
  | handleEvent revents =>
    -- the handler is not registered
    have hnone := hs.wf.placed.not_registered hs.unregistered
    have hreg : s.registered = true := hg.2
    rw [State.registered, TcpConnection.hd, hnone] at hreg
    cases hreg
  | handleClose => exact absurd (List.mem_of_head? hg.2) hs.callbacks
  | handleError => exact hpop
  | handleRead r =>
    have hr : r ≠ .bytes [] := hc
    simp only [effect, if_neg hr]
    cases hread : s.conn.handleRead r with
    | error f => exact hpop.crash f
    | ok c =>
      obtain ⟨b, us, rfl, hb, hus⟩ := TcpConnection.handleRead_spec hs.wf hr hread
      refine hpop.settle rfl rfl rfl hb hs.wf.output ?_
      rcases hus with rfl | rfl <;> simp [hs.quiet]
  | handleWrite r =>
    simp only [effect, TcpConnection.handleWrite_off hoff]
    exact hpop.settle rfl rfl rfl hs.wf.input hs.wf.output (by simp [hs.quiet])
  | eventHandled =>
    exact ⟨hs.wf, hs.quiet, hs.closes, hs.state, hs.events, hs.unregistered, hs.gone,
      hs.destructions, hs.callbacks, fun _ => hs.drained (by simp [hg.1])⟩
  | swap =>
    refine ⟨hs.wf, hs.quiet, hs.closes, hs.state, hs.events, hs.unregistered, hs.gone,
      ?_, hs.callbacks, fun h => absurd rfl h⟩
    exact (destructions_swap (hs.drained (by simp [show s.pc = .idle from hg]))).trans
      hs.destructions
  | runFunctor r =>
    obtain ⟨hpc, hfits⟩ := hg
    simp only [effect]
    cases htmp : s.tmpFunctors with
    | nil => simp [htmp] at hfits
    | cons f rest =>
      have hone := hs.destructions
      rw [State.destructions, htmp] at hone
      have hrest : f ≠ .connectionDestroyed → Closed { s with tmpFunctors := rest } := by
        intro hne
        refine ⟨hs.wf, hs.quiet, hs.closes, hs.state, hs.events, hs.unregistered, hs.gone, ?_,
          hs.callbacks, fun h => absurd hpc h⟩
        simpa [State.destructions, List.count_cons, hne] using hone
      cases f with
      | sendInLoop message =>
        rw [htmp] at hfits hc
        dsimp only
        cases hsend : s.conn.sendInLoop true message r with
        | error f => exact (hrest (by simp)).crash f
        | ok c =>
          -- without a short write the handler stays as it is
          obtain ⟨calls, k, rfl⟩ := TcpConnection.sendInLoop_closed hfits hc hsend
          refine (hrest (by simp)).settle rfl rfl rfl hs.wf.input hs.wf.output ?_
          simp [TcpConnection.advance, hs.quiet]
      | writeComplete => exact hrest (by simp)
      | connectionDestroyed =>
        obtain ⟨c, hok, hclosed⟩ := hs.connectionDestroyed sameLoop hpc htmp
        simp only [hok]
        exact hclosed
  | batchDone =>
    exact ⟨hs.wf, hs.quiet, hs.closes, hs.state, hs.events, hs.unregistered, hs.gone,
      hs.destructions, hs.callbacks, fun _ => hg.2⟩
  | loopSend data r => exact absurd (hg.1.symm.trans hs.state) (by decide)
  | loopShutdown =>
    have hst : s.conn.state = .kConnected := hg
    exact absurd (hst.symm.trans hs.state) (by decide)
  | checkState t data =>
    exact ⟨hs.wf, hs.quiet, hs.closes, hs.state, hs.events, hs.unregistered, hs.gone,
      hs.destructions, hs.callbacks, hs.drained⟩
  | queueSend t =>
    exact ⟨hs.wf, hs.quiet, hs.closes, hs.state, hs.events, hs.unregistered, hs.gone,
      destructions_queueSend.trans hs.destructions, hs.callbacks, hs.drained⟩
  | removeConnectionInLoop =>
    refine ⟨hs.wf, hs.quiet, hs.closes, hs.state, hs.events, hs.unregistered, hs.gone,
      ?_, hs.callbacks, hs.drained⟩
    have hpos : 0 < s.removals := hg
    have hone := hs.destructions
    simp only [effect, State.destructions, List.count_append, List.count_singleton] at hone ⊢
    simp
    omega

/-! ## 6. Runs -/

/-- Closing is final in every state of every run of an established connection in
which no step after the close is unclean. -/
theorem closing_final {as : List (Act T)} (hestablished : c.Established)
    (hclean : (machine T H sameLoop).Along Clean (start c) as)
    (hrun : (machine T H sameLoop).run (start c) as = some s) : Final s := by
  have hinv : Open s ∨ Closed s := by
    refine Trans.Machine.run_invariant (I := fun s => Open s ∨ Closed s) ?_
      (.inl (Open.start hestablished)) hclean hrun
    rintro s a t (hs | hs) hclean hstep
    · obtain ⟨hg, rfl⟩ := Trans.Machine.guarded_step.mp hstep
      exact hs.step hg
    · obtain ⟨hg, rfl⟩ := Trans.Machine.guarded_step.mp hstep
      exact .inr (hs.step hclean hg)
  exact hinv.elim Open.final Closed.final

end

/-- A functor that outlives the close is written whole; then the connection is
destroyed. -/
def wholeLateSend : List (Act Unit) :=
  [.checkState () [1, 2], .handleEvent (EPOLLIN ||| EPOLLHUP), .handleRead (.bytes []),
    .eventHandled, .queueSend (), .swap, .runFunctor (.wrote 2), .removeConnectionInLoop,
    .batchDone, .swap, .runFunctor (.wrote 0), .runFunctor (.wrote 0)]

theorem wholeLateSend_final :
    ∃ s, (machine Unit Unit false).run (start TcpConnection.anEstablished) wholeLateSend = some s ∧
      s.destroyed = 1 ∧ Final s := by
  have hdestroyed : ((machine Unit Unit false).run (start TcpConnection.anEstablished)
      wholeLateSend).map State.destroyed = some 1 := by
    decide +kernel
  obtain ⟨s, hrun, hs⟩ := Option.map_eq_some_iff.mp hdestroyed
  exact ⟨s, hrun, hs, closing_final TcpConnection.anEstablished_established
    (by decide +kernel) hrun⟩

end Closing

end NetFrame
