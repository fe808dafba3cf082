import NetFrame.Connection

/-!
# The paths of `send`

`TcpConnection::send` has three overloads, each with a branch for the loop's
thread and one for the other threads. The callers append to message Buffers and
send them, or bytes of their own, over any of the six paths.

Results:
1. `reused_buffer_sent_twice`: a message Buffer that the loop's thread has sent
   and appended to is sent again with its old bytes.
2. `send_paths_agree_iff`: the paths agree in exactly those runs in which the
   loop's thread sends no message Buffer that holds bytes.
-/

namespace NetFrame

open Buffer Window

namespace SendPaths

/-! ## 1. The overloads -/

/-- What `send` is called with: `const void*` and a length, a `std::string`, or
the message Buffer `m`. -/
inductive Message (M : Type) where
  | bytes (data : List Byte)
  | string (message : List Byte)
  | buffer (m : M)
  deriving DecidableEq

/-- A call of `send` that found `kConnected`. -/
structure Call (M : Type) where
  message : Message M
  /-- The bytes of the message when the call was made. -/
  argument : List Byte
  /-- The readable bytes of the message Buffer when it returned. -/
  left : List Byte

structure State (M : Type) where
  messages : M → Buffer
  state : StateE
  /-- The functors of `sendInLoop`, with the number of their call. -/
  pendingFuntors : List (Nat × List Byte)
  /-- The data that `sendInLoop` has been called with. -/
  handed : List (Nat × List Byte)
  calls : List (Call M)
  /-- All bytes appended to each message Buffer. -/
  appended : M → List Byte

variable {M : Type}

/-- The bytes that a message stands for. -/
def State.argument (s : State M) : Message M → List Byte
  | .bytes data => data
  | .string message => message
  | .buffer m => (s.messages m).content

/-- `sendInLoop`, for the call under way. -/
def State.sendInLoop (s : State M) (data : List Byte) : State M :=
  { s with handed := s.handed ++ [(s.calls.length, data)] }

/-- `m_ploop->runInLoop(boost::bind(&TcpConnection::sendInLoop, this, message))`
in another thread than the loop's. -/
def State.runInLoop (s : State M) (message : List Byte) : State M :=
  { s with pendingFuntors := s.pendingFuntors ++ [(s.calls.length, message)] }

variable [DecidableEq M]

/-- The overloads of `send` for a connection in `kConnected`. -/
def State.sendConnected (s : State M) (inLoopThread : Bool) :
    Message M → Except Fault (State M)
  | .bytes data =>
    if inLoopThread then .ok (s.sendInLoop data)
    else .ok (s.runInLoop data)
  | .string message =>
    if inLoopThread then .ok (s.sendInLoop message)
    else .ok (s.runInLoop message)
  | .buffer m =>
    let b := s.messages m
    if inLoopThread then
      .ok (s.sendInLoop (window b.buffer b.readerIndex (b.readerIndex + b.readableBytes)))
    else do
      let (b', message) ← b.retrieveAllAsString
      return { s with messages := Function.update s.messages m b' }.runInLoop message

/-- The readable bytes that a call leaves in its message Buffer. -/
def State.left (s : State M) : Message M → List Byte
  | .buffer m => (s.messages m).content
  | _ => []

def State.send (s : State M) (inLoopThread : Bool) (message : Message M) :
    Except Fault (State M) :=
  if s.state = .kConnected then do
    let t ← s.sendConnected inLoopThread message
    return { t with calls := t.calls ++ [⟨message, s.argument message, t.left message⟩] }
  else .ok s

inductive Act (M : Type) where
  | append (m : M) (data : List Byte)
  | send (inLoopThread : Bool) (message : Message M)
  /-- The loop runs the next functor. -/
  | runFunctor
  /-- `shutdown` has set `kDisconnecting`. -/
  | shutdown
  | close

/-- A caller appends to its message Buffer. -/
def State.append (s : State M) (m : M) (data : List Byte) : Except Fault (State M) := do
  let b ← (s.messages m).append data
  return { s with
    messages := Function.update s.messages m b
    appended := Function.update s.appended m (s.appended m ++ data) }

def State.runFunctor (s : State M) : Option (State M) :=
  match s.pendingFuntors with
  | [] => none
  | f :: fs => some { s with pendingFuntors := fs, handed := s.handed ++ [f] }

/-- A call that faults ends the run. -/
def step (s : State M) : Act M → Option (State M)
  | .append m data => (s.append m data).toOption
  | .send inLoopThread message => (s.send inLoopThread message).toOption
  | .runFunctor => s.runFunctor
  | .shutdown => if s.state = .kConnected then some { s with state := .kDisconnecting } else none
  | .close => some { s with state := .kDisconnected }

/-- An established connection, and message Buffers as constructed. -/
def start : State M := ⟨fun _ => Buffer.fresh, .kConnected, [], [], [], fun _ => []⟩

def machine (M : Type) [DecidableEq M] : Trans.Machine (State M) (Act M) := ⟨(· = start), step⟩

/-! ## 2. What the paths should do -/

/-- The messages as the callers see them: a send takes the whole message,
whoever makes it. -/
structure Spec (M : Type) where
  messages : M → List Byte
  state : StateE
  /-- What each call should hand to `sendInLoop`. -/
  arguments : List (List Byte)

def Spec.send (q : Spec M) : Message M → Spec M
  | .bytes data => { q with arguments := q.arguments ++ [data] }
  | .string message => { q with arguments := q.arguments ++ [message] }
  | .buffer m => { q with
      messages := Function.update q.messages m []
      arguments := q.arguments ++ [q.messages m] }

/-- The thread of a send does not matter. -/
def Spec.step (q : Spec M) : Act M → Spec M
  | .append m data => { q with messages := Function.update q.messages m (q.messages m ++ data) }
  | .send _ message => if q.state = .kConnected then q.send message else q
  | .runFunctor => q
  | .shutdown => { q with state := .kDisconnecting }
  | .close => { q with state := .kDisconnected }

def Spec.start : Spec M := ⟨fun _ => [], .kConnected, []⟩

def Spec.run (as : List (Act M)) : Spec M := as.foldl Spec.step Spec.start

/-- The bytes of the calls that sent the message Buffer `m`. -/
def sentFrom (m : M) (calls : List (Call M)) : List Byte :=
  (calls.filter fun call => call.message = .buffer m).flatMap Call.argument

/-- After the run `as`, the paths have agreed. -/
structure Agree (s : State M) (as : List (Act M)) : Prop where
  /-- Each call has handed or queued its argument, once. -/
  handed : (s.handed ++ s.pendingFuntors).Perm
    (s.calls.zipIdx.map fun call => (call.2, call.1.argument))
  /-- The arguments do not depend on the threads. -/
  arguments : s.calls.map Call.argument = (Spec.run as).arguments
  /-- Each byte appended to a message Buffer has been sent once, or is in it. -/
  appended : ∀ m, sentFrom m s.calls ++ (s.messages m).content = s.appended m
  /-- Each send of a message Buffer has left it empty. -/
  emptied : ∀ call ∈ s.calls, call.left = []

/-! ## 3. A failing run -/

/-- Two rounds of append and send in the loop's thread. -/
def twoRounds : List (Act Unit) :=
  [.append () [1], .send true (.buffer ()), .append () [2], .send true (.buffer ())]

/-- The same rounds in another thread. -/
def queuedRounds : List (Act Unit) :=
  [.append () [1], .send false (.buffer ()), .append () [2], .send false (.buffer ()),
    .runFunctor, .runFunctor]

/-- In the loop's thread, the first byte is handed to `sendInLoop` twice. -/
theorem reused_buffer_sent_twice :
    ((machine Unit).run start queuedRounds).map State.handed = some [(0, [1]), (1, [2])] ∧
    ∃ t, (machine Unit).run start twoRounds = some t ∧ t.handed = [(0, [1]), (1, [1, 2])] ∧
      ¬Agree t twoRounds := by
  have hrun : ((machine Unit).run start twoRounds).map
      (fun t => (t.handed, t.calls.map Call.left)) =
      some ([(0, [1]), (1, [1, 2])], [[1], [1, 2]]) := by
    decide +kernel
  obtain ⟨t, ht, heq⟩ := Option.map_eq_some_iff.mp hrun
  injection heq with hhanded hleft
  refine ⟨by decide +kernel, t, ht, hhanded, fun hagree => ?_⟩
  have hmem : [1] ∈ t.calls.map Call.left := by simp [hleft]
  obtain ⟨call, hcall, hl⟩ := List.mem_map.mp hmem
  rw [hagree.emptied call hcall] at hl
  cases hl

/-! ## 4. One operation -/

/-- The loop's thread sends no message Buffer that holds bytes. -/
def Drains (s : State M) : Act M → Prop
  | .send true (.buffer m) => s.state = .kConnected → (s.messages m).content = []
  | _ => True

instance (s : State M) : ∀ a, Decidable (Drains s a)
  | .send true (.buffer m) =>
    inferInstanceAs (Decidable (s.state = .kConnected → (s.messages m).content = []))
  | .send true (.bytes _) | .send true (.string _) | .send false _ | .append _ _ | .runFunctor
  | .shutdown | .close => .isTrue trivial

/-- The run so far agrees with the callers' view `q`. -/
structure Tracks (s : State M) (q : Spec M) : Prop where
  inv : ∀ m, (s.messages m).Inv
  contents : ∀ m, (s.messages m).content = q.messages m
  state : s.state = q.state
  handed : (s.handed ++ s.pendingFuntors).Perm
    (s.calls.zipIdx.map fun call => (call.2, call.1.argument))
  arguments : s.calls.map Call.argument = q.arguments
  appended : ∀ m, sentFrom m s.calls ++ (s.messages m).content = s.appended m
  emptied : ∀ call ∈ s.calls, call.left = []

section

variable {s t : State M} {q : Spec M} {a : Act M} {as : List (Act M)}

theorem tracks_start : Tracks (start (M := M)) Spec.start where
  inv := fun _ => inv_fresh
  contents := fun _ => content_fresh
  state := rfl
  handed := .nil
  arguments := rfl
  appended := fun _ => content_fresh
  emptied := by simp [start]

/-- What one send does to the run before its call is recorded. -/
structure Sent (s t : State M) (inLoopThread : Bool) (message : Message M) : Prop where
  calls : t.calls = s.calls
  state : t.state = s.state
  appended : t.appended = s.appended
  handed : (t.handed ++ t.pendingFuntors).Perm
    ((s.handed ++ s.pendingFuntors) ++ [(s.calls.length, s.argument message)])
  inv : ∀ m, (t.messages m).Inv
  contents : ∀ m, (t.messages m).content =
    if message = .buffer m ∧ inLoopThread = false then [] else (s.messages m).content

theorem sent_sendInLoop (message : Message M) (hinv : ∀ m, (s.messages m).Inv) :
    Sent s (s.sendInLoop (s.argument message)) true message := by
  refine ⟨rfl, rfl, rfl, ?_, hinv, fun m => by simp [State.sendInLoop]⟩
  show ((s.handed ++ [_]) ++ s.pendingFuntors).Perm _
  rw [List.append_assoc, List.append_assoc]
  exact (List.perm_append_comm).append_left _

theorem sent_runInLoop (message : Message M) (hinv : ∀ m, (s.messages m).Inv)
    (hm : ∀ m, message ≠ .buffer m) : Sent s (s.runInLoop (s.argument message)) false message :=
  ⟨rfl, rfl, rfl, by simp [State.runInLoop], hinv, fun m => by simp [State.runInLoop, hm m]⟩

/-- `peek()` and `readableBytes()` delimit the readable bytes. -/
theorem peek_content {b : Buffer} (hb : b.Inv) :
    window b.buffer b.readerIndex (b.readerIndex + b.readableBytes) = b.content := by
  have hr := hb.reader_le
  rw [readableBytes_eq hb, Nat.add_sub_cancel' hr, content]

theorem sendConnected_spec (hinv : ∀ m, (s.messages m).Inv) (inLoopThread : Bool)
    (message : Message M) :
    ∃ t, s.sendConnected inLoopThread message = .ok t ∧ Sent s t inLoopThread message := by
  cases message with
  | bytes data =>
    cases inLoopThread with
    | true => exact ⟨_, rfl, sent_sendInLoop (.bytes data) hinv⟩
    | false => exact ⟨_, rfl, sent_runInLoop (.bytes data) hinv fun _ => nofun⟩
  | string message =>
    cases inLoopThread with
    | true => exact ⟨_, rfl, sent_sendInLoop (.string message) hinv⟩
    | false => exact ⟨_, rfl, sent_runInLoop (.string message) hinv fun _ => nofun⟩
  | buffer m =>
    cases inLoopThread with
    | true =>
      refine ⟨_, rfl, ?_⟩
      rw [peek_content (hinv m)]
      exact sent_sendInLoop (.buffer m) hinv
    | false =>
      obtain ⟨b, hok, hb, hempty⟩ := retrieveAllAsString_spec (hinv m)
      refine ⟨_, bind_ok_eq hok, rfl, rfl, rfl, ?_, fun k => ?_, fun k => ?_⟩
      · show (s.handed ++ (s.pendingFuntors ++ [_])).Perm _
        rw [← List.append_assoc]
        rfl
      · show (Function.update s.messages m b k).Inv
        rcases eq_or_ne k m with rfl | hk
        · rwa [Function.update_self]
        · rw [Function.update_of_ne hk]
          exact hinv k
      · show (Function.update s.messages m b k).content = _
        rcases eq_or_ne k m with rfl | hk
        · rw [Function.update_self, hempty, if_pos ⟨rfl, rfl⟩]
        · rw [Function.update_of_ne hk, if_neg (by simp [hk.symm])]

omit [DecidableEq M] in
/-- Recording a call adds its argument to what should be handed. -/
theorem zipIdx_concat (calls : List (Call M)) (call : Call M) :
    ((calls ++ [call]).zipIdx.map fun c => (c.2, c.1.argument)) =
      (calls.zipIdx.map fun c => (c.2, c.1.argument)) ++ [(calls.length, call.argument)] := by
  simp [List.zipIdx_append]

theorem sentFrom_concat (m : M) (calls : List (Call M)) (call : Call M) :
    sentFrom m (calls ++ [call]) =
      sentFrom m calls ++ if call.message = .buffer m then call.argument else [] := by
  unfold sentFrom
  by_cases h : call.message = .buffer m <;> simp [List.filter_append, h]

/-- One send of a connected connection keeps the paths in agreement, unless it
leaves bytes in its message Buffer. -/
theorem Tracks.send {inLoopThread : Bool} {message : Message M} (hs : Tracks s q)
    (hc : Drains s (.send inLoopThread message)) (hconn : s.state = .kConnected)
    (ht : Sent s t inLoopThread message) :
    Tracks { t with calls := t.calls ++ [⟨message, s.argument message, t.left message⟩] }
      (q.send message) := by
  have hempty : ∀ m, message = .buffer m → (t.messages m).content = [] := by
    rintro m rfl
    rw [ht.contents]
    cases inLoopThread with
    | true => simpa using hc hconn
    | false => simp
  have hother : ∀ m, message ≠ .buffer m → (t.messages m).content = (s.messages m).content := by
    intro m hm
    rw [ht.contents, if_neg fun h => hm h.1]
  refine ⟨ht.inv, fun m => ?_, ?_, ?_, ?_, fun m => ?_, fun call hcall => ?_⟩
  · cases message with
    | bytes data => exact (hother m nofun).trans (hs.contents m)
    | string message => exact (hother m nofun).trans (hs.contents m)
    | buffer k =>
      show _ = Function.update q.messages k [] m
      rcases eq_or_ne m k with rfl | hm
      · rw [Function.update_self]
        exact hempty m rfl
      · rw [Function.update_of_ne hm]
        exact (hother m (by simp [hm.symm])).trans (hs.contents m)
  · have hstate : (q.send message).state = q.state := by cases message <;> rfl
    exact ht.state.trans (hs.state.trans hstate.symm)
  · show (t.handed ++ t.pendingFuntors).Perm _
    dsimp only
    rw [ht.calls, zipIdx_concat]
    exact ht.handed.trans (hs.handed.append_right _)
  · dsimp only
    rw [ht.calls, List.map_append, hs.arguments]
    cases message with
    | bytes data => rfl
    | string message => rfl
    | buffer m => exact congrArg (q.arguments ++ [·]) (hs.contents m)
  · dsimp only
    rw [ht.calls, ht.appended, sentFrom_concat, ← hs.appended m]
    by_cases hm : message = .buffer m
    · rw [if_pos hm, hempty m hm, hm, List.append_nil]
      rfl
    · rw [if_neg hm, hother m hm, List.append_nil]
  · dsimp only at hcall
    rw [ht.calls] at hcall
    rcases List.mem_append.mp hcall with hold | hnew
    · exact hs.emptied call hold
    · rw [List.mem_singleton.mp hnew]
      cases message with
      | bytes data => rfl
      | string message => rfl
      | buffer m => exact hempty m rfl

/-- What a send that returns has done. -/
theorem send_cases {inLoopThread : Bool} {message : Message M} (hinv : ∀ m, (s.messages m).Inv)
    (h : step s (.send inLoopThread message) = some t) :
    (s.state = .kConnected ∧ ∃ u, Sent s u inLoopThread message ∧
      t = { u with calls := u.calls ++ [⟨message, s.argument message, u.left message⟩] }) ∨
    (s.state ≠ .kConnected ∧ t = s) := by
  have hok : s.send inLoopThread message = .ok t := toOption_eq_some.mp h
  unfold State.send at hok
  split at hok
  · next hconn =>
    obtain ⟨u, hu, hret⟩ := bind_ok.mp hok
    obtain ⟨v, hv, hsent⟩ := sendConnected_spec hinv inLoopThread message
    obtain rfl : v = u := Except.ok.inj (hv.symm.trans hu)
    exact .inl ⟨hconn, v, hsent, (Except.ok.inj hret).symm⟩
  · next hconn => exact .inr ⟨hconn, (Except.ok.inj hok).symm⟩

/-- One operation. -/
theorem Tracks.step (hs : Tracks s q) (hc : Drains s a) (h : step s a = some t) :
    Tracks t (q.step a) := by
  cases a with
  | append m data =>
    obtain ⟨b, hok, hret⟩ := bind_ok.mp (toOption_eq_some.mp h)
    obtain rfl := Except.ok.inj hret
    obtain ⟨hb, hcontent⟩ := append_ok (hs.inv m) hok
    have hupdate : ∀ k, (Function.update s.messages m b k).Inv ∧
        (Function.update s.messages m b k).content =
          Function.update q.messages m (q.messages m ++ data) k ∧
        sentFrom k s.calls ++ (Function.update s.messages m b k).content =
          Function.update s.appended m (s.appended m ++ data) k := by
      intro k
      rcases eq_or_ne k m with rfl | hk
      · simp only [Function.update_self]
        refine ⟨hb, by rw [hcontent, hs.contents], ?_⟩
        rw [hcontent, ← List.append_assoc, hs.appended]
      · simp only [Function.update_of_ne hk]
        exact ⟨hs.inv k, hs.contents k, hs.appended k⟩
    exact ⟨fun k => (hupdate k).1, fun k => (hupdate k).2.1, hs.state, hs.handed, hs.arguments,
      fun k => (hupdate k).2.2, hs.emptied⟩
  | send inLoopThread message =>
    simp only [Spec.step, ← hs.state]
    obtain ⟨hconn, u, hsent, rfl⟩ | ⟨hconn, rfl⟩ := send_cases hs.inv h
    · rw [if_pos hconn]
      exact hs.send hc hconn hsent
    · rw [if_neg hconn]
      exact hs
  | runFunctor =>
    replace h : s.runFunctor = some t := h
    unfold State.runFunctor at h
    split at h
    · cases h
    · next f fs hpending =>
      cases h
      refine ⟨hs.inv, hs.contents, hs.state, ?_, hs.arguments, hs.appended, hs.emptied⟩
      have hhanded := hs.handed
      rw [hpending] at hhanded
      show ((s.handed ++ [f]) ++ fs).Perm _
      rwa [List.append_assoc]
  | shutdown =>
    replace h : (if s.state = .kConnected then some { s with state := .kDisconnecting } else none) =
      some t := h
    split_ifs at h
    cases h
    exact ⟨hs.inv, hs.contents, rfl, hs.handed, hs.arguments, hs.appended, hs.emptied⟩
  | close =>
    cases h
    exact ⟨hs.inv, hs.contents, rfl, hs.handed, hs.arguments, hs.appended, hs.emptied⟩

/-! ## 5. Runs -/

theorem run_tracks (hs : Tracks s q) (hc : (machine M).Along Drains s as)
    (hrun : (machine M).run s as = some t) : Tracks t (as.foldl Spec.step q) := by
  induction as generalizing s q with
  | nil =>
    cases hrun
    exact hs
  | cons a as ih =>
    obtain ⟨u, hstep, hrest⟩ := (machine M).run_cons_some hrun
    exact ih (hs.step hc.1 hstep) (hc.2 u hstep) hrest

theorem sendConnected_calls {inLoopThread : Bool} {message : Message M}
    (h : s.sendConnected inLoopThread message = .ok t) : t.calls = s.calls := by
  cases message with
  | buffer m =>
    cases inLoopThread with
    | true =>
      obtain rfl := Except.ok.inj h
      rfl
    | false =>
      obtain ⟨r, -, hret⟩ := bind_ok.mp h
      obtain rfl := Except.ok.inj hret
      rfl
  | _ =>
    cases inLoopThread <;>
    · obtain rfl := Except.ok.inj h
      rfl

/-- A send that leaves bytes in its message Buffer is on record. -/
theorem step_record (h : step s a = some t) :
    s.calls <+: t.calls ∧ ((∀ call ∈ t.calls, call.left = []) → Drains s a) := by
  cases a with
  | append m data =>
    obtain ⟨b, -, hret⟩ := bind_ok.mp (toOption_eq_some.mp h)
    obtain rfl := Except.ok.inj hret
    exact ⟨List.prefix_rfl, fun _ => trivial⟩
  | send inLoopThread message =>
    have hok : s.send inLoopThread message = .ok t := toOption_eq_some.mp h
    unfold State.send at hok
    split at hok
    · obtain ⟨u, hu, hret⟩ := bind_ok.mp hok
      obtain rfl := Except.ok.inj hret
      have hcalls := sendConnected_calls hu
      refine ⟨⟨_, congrArg (· ++ _) hcalls.symm⟩, fun hempty => ?_⟩
      have hleft : u.left message = [] := hempty _ (List.mem_append_right _ List.mem_cons_self)
      cases inLoopThread with
      | false => trivial
      | true =>
        cases message with
        | bytes data => trivial
        | string message => trivial
        | buffer m =>
          obtain rfl := Except.ok.inj hu
          exact fun _ => hleft
    · next hconn =>
      obtain rfl := Except.ok.inj hok
      refine ⟨List.prefix_rfl, fun _ => ?_⟩
      cases inLoopThread with
      | false => trivial
      | true =>
        cases message with
        | bytes data => trivial
        | string message => trivial
        | buffer m => exact fun h => absurd h hconn
  | runFunctor =>
    replace h : s.runFunctor = some t := h
    unfold State.runFunctor at h
    split at h
    · cases h
    · cases h
      exact ⟨List.prefix_rfl, fun _ => trivial⟩
  | shutdown =>
    replace h : (if s.state = .kConnected then some { s with state := .kDisconnecting } else none) =
      some t := h
    split_ifs at h
    cases h
    exact ⟨List.prefix_rfl, fun _ => trivial⟩
  | close =>
    cases h
    exact ⟨List.prefix_rfl, fun _ => trivial⟩

/-- A run on whose record no call has left bytes behind meets the condition. -/
theorem run_record (hrun : (machine M).run s as = some t)
    (hempty : ∀ call ∈ t.calls, call.left = []) :
    s.calls <+: t.calls ∧ (machine M).Along Drains s as := by
  induction as generalizing s with
  | nil =>
    cases hrun
    exact ⟨List.prefix_rfl, trivial⟩
  | cons a as ih =>
    obtain ⟨u, hstep, hrest⟩ := (machine M).run_cons_some hrun
    obtain ⟨hcalls, halong⟩ := ih hrest
    obtain ⟨hcalls', hdrains⟩ := step_record hstep
    refine ⟨hcalls'.trans hcalls, hdrains fun call hcall => hempty call (hcalls.subset hcall),
      fun v hv => ?_⟩
    obtain rfl := Option.some.inj (hstep.symm.trans hv)
    exact halong

/-- The six paths of `send` agree in a run exactly when the loop's thread sends no
message Buffer that holds bytes while the connection is in `kConnected`. -/
theorem send_paths_agree_iff (as : List (Act M)) (t : State M)
    (hrun : (machine M).run start as = some t) :
    Agree t as ↔ (machine M).Along Drains start as := by
  refine ⟨fun h => (run_record hrun h.emptied).2, fun h => ?_⟩
  have ht := run_tracks tracks_start h hrun
  exact ⟨ht.handed, ht.arguments, ht.appended, ht.emptied⟩

end

/-- All overloads, with a message Buffer reused by another thread and sent empty
by the loop's, and a send that finds the connection shut down. -/
def mixedPaths : List (Act Unit) :=
  [.append () [1, 2], .send false (.buffer ()), .send true (.bytes [3]), .append () [4],
    .runFunctor, .send false (.string [5]), .send false (.buffer ()), .runFunctor,
    .send true (.buffer ()), .shutdown, .send true (.bytes [6])]

theorem mixedPaths_agree :
    ∃ t, (machine Unit).run start mixedPaths = some t ∧
      t.handed = [(1, [3]), (0, [1, 2]), (2, [5]), (4, [])] ∧ Agree t mixedPaths := by
  have hhanded : ((machine Unit).run start mixedPaths).map State.handed =
      some [(1, [3]), (0, [1, 2]), (2, [5]), (4, [])] := by
    decide +kernel
  obtain ⟨t, hrun, ht⟩ := Option.map_eq_some_iff.mp hhanded
  exact ⟨t, hrun, ht, (send_paths_agree_iff mixedPaths t hrun).mpr (by decide +kernel)⟩

end SendPaths

end NetFrame
