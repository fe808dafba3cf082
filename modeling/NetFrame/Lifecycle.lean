import NetFrame.InputStream

/-!
# The life of a connection

All functions of a `TcpConnection` that run on its loop, in any order, between
`connectionEstablished` and `connectionDestroyed`.

Results:
1. `closed_announced_twice`, `announced_iff`: `m_connectionCB` announces the end
   of a connection once in exactly those lives in which `handleClose` is never
   called.
2. `sendInLoop_aborts`, `sendInLoop_returns_iff`: `sendInLoop` gets past its
   assertion exactly when it writes at once and the kernel takes a byte.
-/

namespace NetFrame

open Buffer

namespace Lifecycle

/-! ## 1. The calls -/

inductive Phase where
  /-- Constructed, and not yet established. -/
  | new
  | alive
  /-- `connectionDestroyed` has run. -/
  | destroyed
  deriving DecidableEq, Repr

structure State (H : Type) where
  conn : TcpConnection H
  phase : Phase
  /-- `isConnected()` at each call of `m_connectionCB` so far. -/
  announced : List Bool
  crashed : Option Fault

inductive Act where
  | connectionEstablished
  | sendInLoop (data : List Byte) (r : WriteResult)
  | handleRead (r : ReadResult)
  /-- An operation of the message callback on the input buffer. -/
  | retrieve (op : Retrieval)
  | handleWrite (r : WriteResult)
  /-- The close callback of the handler. -/
  | handleClose
  | handleError
  /-- The first half of `shutdown`. -/
  | shutdown
  | shutdownInLoop
  | connectionDestroyed

variable {H : Type}

/-- `isConnected`. -/
def isConnected (c : TcpConnection H) : Bool := decide (c.state = .kConnected)

/-- After a call on the connection. A function sets `m_state` before it calls
`m_connectionCB` and not afterwards. -/
def State.settle (s : State H) : Except Fault (TcpConnection H) → State H
  | .ok c => { s with
      conn := { c with upcalls := [] }
      announced := s.announced ++
        List.replicate (c.upcalls.count .connectionCB) (isConnected c) }
  | .error f => { s with crashed := some f }

/-- The functions may be called in any order in the life of the connection. -/
def guard (s : State H) (a : Act) : Prop :=
  s.crashed = none ∧
  match a with
  | .connectionEstablished => s.phase = .new
  | .sendInLoop data r => s.phase = .alive ∧ r.Fits data.length
  | .handleWrite r => s.phase = .alive ∧ r.Fits s.conn.outputBuffer.content.length
  | _ => s.phase = .alive

instance (s : State H) (a : Act) : Decidable (guard s a) := by
  unfold guard
  cases a <;> infer_instance

variable [DecidableEq H]

/-- Asserts are compiled, as the Makefile builds. -/
def effect (s : State H) : Act → State H
  | .connectionEstablished => { s with phase := .alive }.settle s.conn.connectionEstablished
  | .sendInLoop data r => s.settle (s.conn.sendInLoop true data r)
  | .handleRead r => s.settle (s.conn.handleRead r)
  | .retrieve op =>
    match execOp .little s.conn.inputBuffer op with
    | .ok (b, _) => { s with conn := { s.conn with inputBuffer := b } }
    | .error f => { s with crashed := some f }
  | .handleWrite r => s.settle (s.conn.handleWrite r)
  | .handleClose => s.settle s.conn.handleClose
  | .handleError => s
  | .shutdown =>
    if s.conn.state = .kConnected then { s with conn := s.conn.setState .kDisconnecting } else s
  | .shutdownInLoop => { s with conn := s.conn.shutdownInLoop }
  | .connectionDestroyed => { s with phase := .destroyed }.settle s.conn.connectionDestroyed

def start (c : TcpConnection H) : State H := ⟨c, .new, [], none⟩

/-- A connection as `TcpServer::newConnection` makes it. -/
def Made (c : TcpConnection H) : Prop :=
  ∃ p h sockfd cb, c = TcpConnection.make p h sockfd cb ∧ c.poller.Sound

def machine (H : Type) [DecidableEq H] : Trans.Machine (State H) Act :=
  .guarded (fun s => ∃ c, Made c ∧ s = start c) guard effect

/-- The calls that close the connection: `handleClose` itself, or a read of 0. -/
def Act.closes : Act → Bool
  | .handleClose => true
  | .handleRead (.bytes []) => true
  | _ => false

/-! ## 2. A failing life -/

/-- The peer sends a byte, is answered, and closes. -/
def closedByPeer : List Act :=
  [.connectionEstablished, .handleRead (.bytes [7]), .sendInLoop [8] (.wrote 1),
    .handleRead (.bytes []), .connectionDestroyed]

/-- `connectionDestroyed` announces the end that `handleClose` has announced. -/
theorem closed_announced_twice :
    ((machine Unit).run (start TcpConnection.aConnection) closedByPeer).map
      (fun s => (s.phase, s.crashed, s.announced)) =
        some (.destroyed, none, [true, false, false]) := by
  decide +kernel

/-! ## 3. One call -/

/-- `kConnected` or `kDisconnecting`: established and not closed. -/
def Opened (c : TcpConnection H) : Prop := c.state = .kConnected ∨ c.state = .kDisconnecting

/-- What the calls of a life keep. -/
structure Sane (s : State H) : Prop where
  placed : s.conn.Placed
  upcalls : s.conn.upcalls = []
  new : s.phase = .new → Made s.conn ∧ s.announced = []
  inv : s.phase = .alive → Opened s.conn → s.conn.Inv

/-- What a call announces. -/
def Act.announces : Act → List Bool
  | .connectionEstablished => [true]
  | .connectionDestroyed => [false]
  | a => if a.closes then [false] else []

/-- The announcements of a call that ends in `c`. -/
def announcements (c : TcpConnection H) : List Bool :=
  List.replicate (c.upcalls.count .connectionCB) (isConnected c)

section

variable {s t : State H} {a : Act} {c c' : TcpConnection H} {as : List Bool}
  {x : Except Fault (TcpConnection H)}

theorem Made.start_sane (hc : Made c) : Sane (start c) := by
  obtain ⟨p, h, sockfd, cb, rfl, hp⟩ := hc
  exact ⟨hp.agreeAt _, rfl, fun _ => ⟨⟨p, h, sockfd, cb, rfl, hp⟩, rfl⟩,
    fun hphase => nomatch hphase⟩

omit [DecidableEq H] in
theorem inv_clear (hc : c.Inv) : TcpConnection.Inv { c with upcalls := [] } :=
  ⟨⟨hc.sound, hc.input, hc.output⟩, hc.writing⟩

omit [DecidableEq H] in
theorem announcements_quiet (h : s.conn.Quiet c) (hup : s.conn.upcalls = []) :
    announcements c = [] := by
  obtain ⟨k, hk⟩ := h.upcalls
  simp [announcements, hk, hup, List.count_replicate]

omit [DecidableEq H] in
theorem announced_settle (ha : ∀ c, x = .ok c → announcements c = as)
    (hok : (s.settle x).crashed = none) : (s.settle x).announced = s.announced ++ as := by
  cases x with
  | error f => cases hok
  | ok c => exact congrArg (s.announced ++ ·) (ha c rfl)

omit [DecidableEq H] in
/-- A call of a function that leaves `m_state` alone. -/
theorem opened_of_quiet (h : c.Quiet c') (ho : Opened c') : Opened c := by
  unfold Opened at *
  rwa [h.state] at ho

/-- After a call that keeps the poller in order. -/
theorem Sane.settle (hs : Sane s) (hphase : s.phase ≠ .new)
    (hkeep : s.conn.Keeping x)
    (hinv : ∀ c, x = .ok c → s.phase = .alive → Opened c → c.Inv) : Sane (s.settle x) := by
  cases x with
  | error f => exact ⟨hs.placed, hs.upcalls, hs.new, hs.inv⟩
  | ok c =>
    obtain ⟨hhandler, hd, hl⟩ := hkeep.result rfl
    refine ⟨?_, rfl, fun h => absurd h hphase, fun halive hopen => ?_⟩
    · show c.poller.AgreeAt c.handler
      rw [hhandler]
      exact hl.agreeAt
    · exact inv_clear (hinv c rfl halive hopen)

theorem connectionEstablished_of_new (hs : Sane s) (hphase : s.phase = .new) :
    ∃ c, s.conn.connectionEstablished = .ok c ∧ c.Inv ∧ announcements c = [true] := by
  obtain ⟨⟨p, h, sockfd, cb, hmade, hp⟩, -⟩ := hs.new hphase
  rw [hmade] at hp ⊢
  obtain ⟨q, hok, -⟩ := TcpConnection.connectionEstablished_spec
    (c := TcpConnection.make p h sockfd cb) (hp.agreeAt _) rfl
  exact ⟨_, hok, (TcpConnection.established_spec ⟨p, h, sockfd, cb, hp, hok⟩).inv, rfl⟩

theorem announcements_handleClose (hp : c.Placed) (hup : c.upcalls = [])
    (h : c.handleClose = .ok c') : announcements c' = [false] ∧ ¬Opened c' := by
  obtain ⟨-, p, rfl, -⟩ := TcpConnection.handleClose_ok hp h
  exact ⟨by simp [announcements, isConnected, hup], by rintro (h | h) <;> cases h⟩

theorem announcements_connectionDestroyed (hp : c.Placed) (hup : c.upcalls = [])
    (h : c.connectionDestroyed = .ok c') : announcements c' = [false] := by
  obtain ⟨p, hok, -⟩ := TcpConnection.connectionDestroyed_spec hp
  rw [h] at hok
  cases hok
  simp [announcements, isConnected, hup]

/-- `handleRead` closes the connection when it reads 0; else it changes the input
buffer and may call the message callback. -/
theorem handleRead_cases {r : ReadResult} (h : c.handleRead r = .ok c') :
    (r = .bytes [] ∧ ∃ b, TcpConnection.handleClose { c with inputBuffer := b } = .ok c') ∨
    (r ≠ .bytes [] ∧ ∃ b us, c' = { c with inputBuffer := b, upcalls := us } ∧
      (us = c.upcalls ∨ us = c.upcalls ++ [.messageCB])) := by
  obtain ⟨⟨b, n, e⟩, hread, hrest⟩ := bind_ok.mp h
  have hn := readFd_count hread
  dsimp only at hrest
  split_ifs at hrest with hpos hzero
  · cases hrest
    refine .inr ⟨fun hr => ?_, b, _, rfl, .inr rfl⟩
    have hzero : n = 0 := hn.trans (ReadResult.count_eq_zero.mpr hr)
    omega
  · exact .inl ⟨ReadResult.count_eq_zero.mp (hn.symm.trans hzero), b, hrest⟩
  · cases hrest
    exact .inr ⟨fun hr => hzero (hn.trans (ReadResult.count_eq_zero.mpr hr)), b, _, rfl, .inl rfl⟩

theorem announcements_handleRead {r : ReadResult} (hp : c.Placed) (hup : c.upcalls = [])
    (h : c.handleRead r = .ok c') : announcements c' = (Act.handleRead r).announces := by
  obtain ⟨rfl, b, hclose⟩ | ⟨hr, b, us, rfl, hus⟩ := handleRead_cases h
  · exact (announcements_handleClose (c := { c with inputBuffer := b }) hp hup hclose).1
  · have hcount : us.count .connectionCB = 0 := by
      obtain rfl | rfl := hus <;> simp [hup]
    have hquiet : (Act.handleRead r).closes = false := by
      cases r with
      | error errno => rfl
      | bytes data =>
        cases data with
        | nil => exact absurd rfl hr
        | cons => rfl
    simp [announcements, Act.announces, hcount, hquiet]

theorem inv_handleRead {r : ReadResult} (hp : c.Placed) (hup : c.upcalls = [])
    (hinv : Opened c → c.Inv) (h : c.handleRead r = .ok c') (ho : Opened c') : c'.Inv := by
  obtain ⟨rfl, b, hclose⟩ | ⟨-, b, us, rfl, -⟩ := handleRead_cases h
  · exact absurd ho (announcements_handleClose (c := { c with inputBuffer := b }) hp hup hclose).2
  · have hc := hinv ho
    exact ⟨⟨hc.sound, (InputStream.conn_handleRead hc.toWf h).1.input, hc.output⟩, hc.writing⟩

/-- One call: it keeps the invariant, and announces what it should. -/
theorem Sane.step (hs : Sane s) (hg : guard s a) :
    Sane (effect s a) ∧
    ((effect s a).crashed = none → (effect s a).announced = s.announced ++ a.announces) := by
  obtain ⟨-, hphase⟩ := hg
  cases a with
  | connectionEstablished =>
    obtain ⟨c, hok, hinv, hann⟩ := connectionEstablished_of_new hs hphase
    refine ⟨?_, announced_settle fun c' hc' => ?_⟩
    · simp only [effect, hok, State.settle]
      exact ⟨hinv.placed, rfl, (fun h => nomatch h), fun _ _ => inv_clear hinv⟩
    · rw [hok] at hc'
      cases hc'
      exact hann
  | sendInLoop data r =>
    have hquiet : ∀ c, s.conn.sendInLoop true data r = .ok c → s.conn.Quiet c :=
      fun c hc => TcpConnection.sendInLoop_quiet hs.placed hphase.2 hc
    refine ⟨hs.settle (by simp [hphase.1]) (TcpConnection.sendInLoop_keeping hs.placed hphase.2)
      fun c hc _ ho => ?_,
      announced_settle fun c hc => announcements_quiet (hquiet c hc) hs.upcalls⟩
    have hinv := hs.inv hphase.1 (opened_of_quiet (hquiet c hc) ho)
    exact (TcpConnection.sendInLoop_spec hinv hphase.2 hc).inv
  | handleRead r =>
    refine ⟨hs.settle (by simp [hphase]) (TcpConnection.handleRead_keeping hs.placed)
      fun c hc halive ho => ?_, announced_settle fun c hc => ?_⟩
    · exact inv_handleRead hs.placed hs.upcalls (hs.inv halive) hc ho
    · exact announcements_handleRead hs.placed hs.upcalls hc
  | retrieve op =>
    simp only [effect]
    split
    · next b out hexec =>
      refine ⟨⟨hs.placed, hs.upcalls, fun h => ?_, fun _ ho => ?_⟩,
        fun _ => (List.append_nil _).symm⟩
      · exact nomatch hphase.symm.trans h
      · have hinv := hs.inv hphase ho
        exact ⟨⟨hinv.sound, (retrieval_spec hinv.input op.2 hexec).1, hinv.output⟩, hinv.writing⟩
    · exact ⟨⟨hs.placed, hs.upcalls, hs.new, hs.inv⟩, (fun h => nomatch h)⟩
  | handleWrite r =>
    have hquiet : ∀ c, s.conn.handleWrite r = .ok c → s.conn.Quiet c :=
      fun c hc => TcpConnection.handleWrite_quiet hs.placed hc
    refine ⟨hs.settle (by simp [hphase.1]) (TcpConnection.handleWrite_keeping hs.placed)
      fun c hc _ ho => ?_,
      announced_settle fun c hc => announcements_quiet (hquiet c hc) hs.upcalls⟩
    have hinv := hs.inv hphase.1 (opened_of_quiet (hquiet c hc) ho)
    obtain ⟨c₁, hok, hout⟩ := TcpConnection.handleWrite_spec hinv hphase.2
    rw [hc] at hok
    cases hok
    exact hout.inv
  | handleClose =>
    have hclose : ∀ c, s.conn.handleClose = .ok c → announcements c = [false] ∧ ¬Opened c :=
      fun c hc => announcements_handleClose hs.placed hs.upcalls hc
    refine ⟨hs.settle (by simp [hphase]) (TcpConnection.handleClose_keeping hs.placed)
      fun c hc _ ho => absurd ho (hclose c hc).2, announced_settle fun c hc => (hclose c hc).1⟩
  | handleError => exact ⟨hs, fun _ => (List.append_nil _).symm⟩
  | shutdown =>
    simp only [effect]
    split
    · next hst =>
      refine ⟨⟨hs.placed, hs.upcalls, (fun h => nomatch hphase.symm.trans h), fun _ _ => ?_⟩,
        fun _ => (List.append_nil _).symm⟩
      have hinv := hs.inv hphase (.inl hst)
      exact ⟨⟨hinv.sound, hinv.input, hinv.output⟩, hinv.writing⟩
    · exact ⟨hs, fun _ => (List.append_nil _).symm⟩
  | shutdownInLoop =>
    simp only [effect, TcpConnection.shutdownInLoop_eq]
    refine ⟨⟨hs.placed, hs.upcalls, (fun h => nomatch hphase.symm.trans h), fun _ ho => ?_⟩,
      fun _ => (List.append_nil _).symm⟩
    have hinv := hs.inv hphase ho
    exact ⟨⟨hinv.sound, hinv.input, hinv.output⟩, hinv.writing⟩
  | connectionDestroyed =>
    have hgone : Sane { s with phase := .destroyed } :=
      ⟨hs.placed, hs.upcalls, (fun h => nomatch h), (fun h => nomatch h)⟩
    refine ⟨hgone.settle (fun h => nomatch h) (TcpConnection.connectionDestroyed_keeping hs.placed)
      (fun c _ h => nomatch h), announced_settle fun c hc => ?_⟩
    exact announcements_connectionDestroyed hs.placed hs.upcalls hc

/-! ## 4. Whole lives -/

theorem run_sane {bs : List Act} (hs : Sane s) (hrun : (machine H).run s bs = some t) : Sane t :=
  Trans.Machine.run_invariant (C := fun _ _ => True)
    (fun s a t hs _ hst => by
      obtain ⟨hg, rfl⟩ := Trans.Machine.guarded_step.mp hst
      exact (hs.step hg).1) hs (Trans.Machine.along_true _ _) hrun

theorem step_crashed (hst : (machine H).step s a = some t) : s.crashed = none :=
  (Trans.Machine.guarded_step.mp hst).1.1

/-- A run that has not crashed has announced what its calls announce. -/
theorem run_announced {bs : List Act} (hs : Sane s) (hrun : (machine H).run s bs = some t)
    (hok : t.crashed = none) : t.announced = s.announced ++ bs.flatMap Act.announces := by
  induction bs generalizing s with
  | nil =>
    cases hrun
    exact (List.append_nil _).symm
  | cons a bs ih =>
    obtain ⟨u, hstep, hrest⟩ := (machine H).run_cons_some hrun
    obtain ⟨hg, rfl⟩ := Trans.Machine.guarded_step.mp hstep
    obtain ⟨hs', hann⟩ := hs.step hg
    have hcrash : (effect s a).crashed = none := by
      cases bs with
      | nil =>
        cases hrest
        exact hok
      | cons b bs =>
        obtain ⟨v, hv, -⟩ := (machine H).run_cons_some hrest
        exact step_crashed hv
    rw [ih hs' hrest, hann hcrash, List.append_assoc, List.flatMap_cons]

/-- The calls in the middle of a life. -/
def Act.inner : Act → Bool
  | .connectionEstablished | .connectionDestroyed => false
  | _ => true

omit [DecidableEq H] in
theorem settle_phase : (s.settle x).phase = s.phase := by
  cases x <;> rfl

theorem effect_phase (ha : a.inner = true) : (effect s a).phase = s.phase := by
  cases a <;> try exact settle_phase
  · cases ha
  · simp only [effect]
    split <;> rfl
  · rfl
  · simp only [effect]
    split <;> rfl
  · rfl
  · cases ha

/-- Nothing is called after `connectionDestroyed`. -/
theorem destroyed_last (hphase : s.phase = .destroyed) : (machine H).step s a = none := by
  by_contra h
  obtain ⟨t, ht⟩ := Option.ne_none_iff_exists'.mp h
  obtain ⟨⟨-, hg⟩, -⟩ := Trans.Machine.guarded_step.mp ht
  cases a <;> simp [hphase] at hg

theorem established_first (hphase : s.phase = .new) (hst : (machine H).step s a = some t) :
    a = .connectionEstablished := by
  obtain ⟨⟨-, hg⟩, -⟩ := Trans.Machine.guarded_step.mp hst
  cases a <;> simp [hphase] at hg ⊢

/-- From an established connection on, a life is inner calls and a last one. -/
theorem alive_run {bs : List Act} (hphase : s.phase = .alive)
    (hrun : (machine H).run s bs = some t) (hend : t.phase = .destroyed) :
    ∃ mid, bs = mid ++ [.connectionDestroyed] ∧ ∀ a ∈ mid, a.inner = true := by
  induction bs generalizing s with
  | nil =>
    cases hrun
    exact nomatch hphase.symm.trans hend
  | cons a bs ih =>
    obtain ⟨u, hstep, hrest⟩ := (machine H).run_cons_some hrun
    obtain ⟨⟨-, hg⟩, rfl⟩ := Trans.Machine.guarded_step.mp hstep
    by_cases ha : a.inner = true
    · obtain ⟨mid, rfl, hmid⟩ := ih ((effect_phase ha).trans hphase) hrest
      exact ⟨a :: mid, rfl, fun b hb => (List.mem_cons.mp hb).elim (fun h => h ▸ ha) (hmid b)⟩
    · cases a <;> first | exact absurd rfl ha | skip
      · exact nomatch hphase.symm.trans hg
      · cases bs with
        | nil => exact ⟨[], rfl, by simp⟩
        | cons b bs =>
          obtain ⟨v, hv, -⟩ := (machine H).run_cons_some hrest
          rw [destroyed_last settle_phase] at hv
          cases hv

theorem announces_inner (ha : a.inner = true) : a.announces = if a.closes then [false] else [] := by
  cases a <;> first | rfl | cases ha

theorem announces_mid {mid : List Act} (hmid : ∀ a ∈ mid, a.inner = true) :
    mid.flatMap Act.announces = [] ↔ ∀ a ∈ mid, a.closes = false := by
  rw [List.flatMap_eq_nil_iff]
  refine forall₂_congr fun a ha => ?_
  rw [announces_inner (hmid a ha)]
  cases a.closes <;> simp

/-- The connection callback protocol. In every life, from `connectionEstablished`
to `connectionDestroyed`, with any calls in between: `m_connectionCB` is called
once while connected and then once while not, exactly when `handleClose` is never
called. -/
theorem announced_iff {s t : State H} {as : List Act} (hs : (machine H).init s)
    (hrun : (machine H).run s as = some t) (hend : t.phase = .destroyed) (hok : t.crashed = none) :
    t.announced = [true, false] ↔ ∀ a ∈ as, a.closes = false := by
  obtain ⟨c, hc, rfl⟩ := hs
  have hsane := hc.start_sane
  have hann := run_announced hsane hrun hok
  cases as with
  | nil =>
    cases hrun
    cases hend
  | cons a as =>
    obtain ⟨u, hstep, hrest⟩ := (machine H).run_cons_some hrun
    obtain rfl := established_first rfl hstep
    obtain ⟨-, rfl⟩ := Trans.Machine.guarded_step.mp hstep
    obtain ⟨mid, rfl, hmid⟩ := alive_run (settle_phase (s := { start c with phase := .alive }))
      hrest hend
    have hlist : t.announced = true :: (mid.flatMap Act.announces ++ [false]) := by
      rw [hann]
      simp [start, Act.announces]
    have hcloses : (∀ a ∈ Act.connectionEstablished :: (mid ++ [.connectionDestroyed]),
        a.closes = false) ↔ ∀ a ∈ mid, a.closes = false := by
      refine ⟨fun h a ha => h a (by simp [ha]), fun h a ha => ?_⟩
      rcases List.mem_cons.mp ha with rfl | ha
      · rfl
      rcases List.mem_append.mp ha with ha | ha
      · exact h a ha
      · rw [List.mem_singleton.mp ha]
        rfl
    rw [hlist, hcloses, ← announces_mid hmid]
    generalize mid.flatMap Act.announces = bs
    cases bs <;> simp

end

theorem aConnection_made : Made TcpConnection.aConnection :=
  ⟨_, _, _, _, rfl, TcpConnection.aConnection_sound⟩

/-- A life that `~TcpServer` ends. -/
def endedByServer : List Act :=
  [.connectionEstablished, .handleRead (.bytes [7]), .retrieve ⟨.retrieveAll, rfl⟩,
    .sendInLoop [8, 9] (.wrote 1), .handleWrite (.wrote 1), .shutdown, .shutdownInLoop,
    .connectionDestroyed]

theorem endedByServer_announced :
    ∃ t, (machine Unit).run (start TcpConnection.aConnection) endedByServer = some t ∧
      t.announced = [true, false] := by
  have hend : ((machine Unit).run (start TcpConnection.aConnection) endedByServer).map
      (fun s => (s.phase, s.crashed)) = some (.destroyed, none) := by
    decide +kernel
  obtain ⟨t, hrun, ht⟩ := Option.map_eq_some_iff.mp hend
  injection ht with hphase hok
  exact ⟨t, hrun, (announced_iff ⟨_, aConnection_made, rfl⟩ hrun hphase hok).mpr (by decide)⟩

/-! ## 5. The assertion of `sendInLoop` -/

/-- Whether an assertion has failed in a life that begins with these calls. -/
def faultOf (as : List Act) : Option (Option Fault) :=
  ((machine Unit).run (start TcpConnection.aConnection) (.connectionEstablished :: as)).map
    State.crashed

/-- An empty send, a send that would block, and a send behind pending output. -/
theorem sendInLoop_aborts :
    faultOf [.sendInLoop [] (.wrote 0)] = some (some (.assertion "remaining < len")) ∧
      faultOf [.sendInLoop [1] (.error 11)] = some (some (.assertion "remaining < len")) ∧
      faultOf [.sendInLoop [1, 2] (.wrote 1), .sendInLoop [3] (.wrote 0)] =
        some (some (.assertion "remaining < len")) := by
  refine ⟨?_, ?_, ?_⟩ <;> decide +kernel

/-- In every state of an open connection that its functions can reach: a
`sendInLoop` gets past all assertions exactly when it finds no pending output and
its `write` takes at least one byte. -/
theorem sendInLoop_returns_iff {H : Type} [DecidableEq H] {s : State H}
    (hs : (machine H).Reachable s) (halive : s.phase = .alive) (hopen : Opened s.conn)
    (data : List Byte) (r : WriteResult) (hr : r.Fits data.length)
    (hsz : s.conn.outputBuffer.writerIndex + data.length + kCheapPrepend < sizeMod) :
    (∃ c, s.conn.sendInLoop true data r = .ok c) ↔
      s.conn.isWriting = false ∧ s.conn.outputBuffer.readableBytes = 0 ∧
        ∃ n, 0 < n ∧ r = .wrote n := by
  obtain ⟨s₀, as, ⟨c, hc, rfl⟩, hrun⟩ := hs
  have hsane := run_sane hc.start_sane hrun
  exact TcpConnection.sendInLoop_asserting_iff (hsane.inv halive hopen) hr hsz

/-- The reply to a first request, of which the kernel takes one byte of two. -/
theorem firstReply_returns :
    ∃ s, (machine Unit).run (start TcpConnection.aConnection)
        [.connectionEstablished, .handleRead (.bytes [7])] = some s ∧
      ∃ c, s.conn.sendInLoop true [8, 9] (.wrote 1) = .ok c := by
  have hstate : ((machine Unit).run (start TcpConnection.aConnection)
      [.connectionEstablished, .handleRead (.bytes [7])]).map (fun s =>
        (s.phase, s.conn.state, s.conn.isWriting, s.conn.outputBuffer.readableBytes,
          decide (s.conn.outputBuffer.writerIndex + 2 + kCheapPrepend < sizeMod))) =
      some (.alive, .kConnected, false, 0, true) := by
    decide +kernel
  obtain ⟨s, hrun, hs⟩ := Option.map_eq_some_iff.mp hstate
  simp only [Prod.mk.injEq, decide_eq_true_eq] at hs
  obtain ⟨hphase, hconn, hwriting, hempty, hsz⟩ := hs
  refine ⟨s, hrun, (sendInLoop_returns_iff ⟨_, _, ⟨_, aConnection_made, rfl⟩, hrun⟩ hphase
    (.inl hconn) [8, 9] (.wrote 1) (by decide) hsz).mpr ⟨hwriting, hempty, 1, by decide, rfl⟩⟩

end Lifecycle

end NetFrame
