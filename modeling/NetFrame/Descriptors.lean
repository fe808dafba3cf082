import NetFrame.PollingServer

/-!
# The descriptors of PollingServer

The system calls that `LtModel` makes on descriptors, and the life of each
descriptor that `accept` returns.

Results:
1. `ltModel_calls`: what the calls of one event do to the open descriptors and to
   the interest set is what the model of `LtModel` does to them.
2. `disconnect_leaks`: the descriptor of a client that disconnects is removed and
   never closed.
3. `lives_iff`: every accepted descriptor is open and watched, until it is removed
   and closed once, in exactly those runs in which no read returns 0.
-/

namespace NetFrame

namespace PollingServer

/-! ## 1. The system calls -/

/-- The system calls on descriptors, with what they return. -/
inductive FdCall where
  /-- `accept` of the listening descriptor. -/
  | accept (connfd : Int)
  | add (fd : Int) (ev : Events)
  | mod (fd : Int) (ev : Events)
  | del (fd : Int)
  | read (fd : Int) (r : Buffer.ReadResult)
  | write (fd : Int) (r : WriteResult)
  | close (fd : Int)
  deriving DecidableEq

/-- `m_handleListenFd`. -/
def handleListenFdCalls (connfd : Int) : List FdCall := [.accept connfd, .add connfd EPOLLIN]

/-- `m_handleReadfd`. -/
def handleReadfdCalls (sockfd : Int) (r : Buffer.ReadResult) : List FdCall :=
  .read sockfd r ::
    match r with
    | .bytes [] => []
    | .bytes _ => [.mod sockfd EPOLLOUT]
    | .error errno => if errno = EAGAIN then [] else [.del sockfd, .close sockfd]

/-- `m_handleSendFd`. -/
def handleSendFdCalls (sockfd : Int) (r : WriteResult) : List FdCall :=
  .write sockfd r ::
    match r with
    | .wrote n => if n > 0 then [.mod sockfd EPOLLIN] else [.del sockfd, .close sockfd]
    | .error errno => if errno = EAGAIN then [] else [.del sockfd, .close sockfd]

/-- The body of the loop of `LtModel`. -/
def ltModelCalls (listenfd sockfd : Int) (event : Events) (r : Results) : List FdCall :=
  if sockfd = listenfd then handleListenFdCalls r.accept
  else if canRead event then
    handleReadfdCalls sockfd r.read ++ if r.read = .bytes [] then [.del sockfd] else []
  else if canWrite event then handleSendFdCalls sockfd r.write
  else []

def State.calls (s : State) : Act → List FdCall
  | .wait _ => []
  | .next r =>
    match s.batch with
    | [] => []
    | (fd, event) :: rest =>
      match ltModel { s with batch := rest } fd event r with
      | .ok _ => ltModelCalls s.listenfd fd event r
      -- the counter overflows after the read
      | .error _ => [.read fd r.read]

/-- All calls of the run of `as` from `s`. -/
def history (s : State) : List Act → List FdCall
  | [] => []
  | a :: as => s.calls a ++ match machine.step s a with
    | some t => history t as
    | none => []

theorem history_eq (s : State) (as : List Act) :
    history s as = machine.recorded State.calls s as := by
  induction as generalizing s with
  | nil => rfl
  | cons a as ih =>
    rw [history, Trans.Machine.recorded]
    cases machine.step s a with
    | none => rfl
    | some t => exact congrArg (s.calls a ++ ·) (ih t)

/-- What a call does to the open descriptors and to the interest set. -/
def FdCall.apply (s : State) : FdCall → State
  | .accept connfd => if connfd = -1 then s else { s with openFds := connfd :: s.openFds }
  | .add fd ev => s.addFd fd ev
  | .mod fd ev => s.modFd fd ev
  | .del fd => s.removeFd fd
  | .read _ _ | .write _ _ => s
  | .close fd => s.close fd

/-- The descriptors of a state. -/
def State.fds (s : State) : List Int × Interest Int := (s.openFds, s.interest)

/-! ## 2. A life -/

namespace FdCall

/-- The call returns `fd` as a new descriptor. -/
def accepts (fd : Int) : FdCall → Bool
  | .accept connfd => connfd = fd ∧ connfd ≠ -1
  | _ => false

def removes (fd : Int) : FdCall → Bool
  | .del fd' => fd' = fd
  | _ => false

def closes (fd : Int) : FdCall → Bool
  | .close fd' => fd' = fd
  | _ => false

/-- The call reads or writes `fd`. -/
def uses (fd : Int) : FdCall → Bool
  | .read fd' _ | .write fd' _ => fd' = fd
  | _ => false

/-- The call finds that the peer has closed `fd`. -/
def peerCloses (fd : Int) : FdCall → Bool
  | .read fd' r => fd' = fd ∧ r = .bytes []
  | _ => false

/-- The read or write of `fd` fails for good; a write that takes nothing of its
text has failed, too. -/
def fails (fd : Int) : FdCall → Bool
  | .read fd' (.error errno) => fd' = fd ∧ errno ≠ EAGAIN
  | .write fd' (.error errno) => fd' = fd ∧ errno ≠ EAGAIN
  | .write fd' (.wrote n) => fd' = fd ∧ n = 0
  | _ => false

end FdCall

/-- The life of the accepted descriptor `fd`, after the calls `h`. -/
structure Lives (s : State) (h : List FdCall) (fd : Int) : Prop where
  /-- It is open and watched, or closed and not watched. -/
  watched : fd ∈ s.openFds ↔ (s.interest.find fd).isSome
  /-- Each time it was accepted it has been closed once, or it is open. -/
  once : h.countP (FdCall.accepts fd) =
    h.countP (FdCall.closes fd) + if fd ∈ s.openFds then 1 else 0
  /-- It is removed as often as it is closed. -/
  removed : h.countP (FdCall.removes fd) = h.countP (FdCall.closes fd)
  /-- It is closed when its peer has closed or a call has failed. -/
  ended : h.countP (FdCall.closes fd) =
    h.countP (FdCall.peerCloses fd) + h.countP (FdCall.fails fd)
  /-- It is read and written only between its `accept` and its `close`. -/
  used : ∀ before call after, h = before ++ call :: after → call.uses fd →
    before.countP (FdCall.accepts fd) = before.countP (FdCall.closes fd) + 1

/-- A client connects and disconnects. -/
def disconnect : List Act :=
  [.wait [(3, EPOLLIN)], .next ⟨5, .error EAGAIN, .error EAGAIN⟩,
    .wait [(5, EPOLLIN)], .next ⟨-1, .bytes [], .error EAGAIN⟩]

theorem disconnect_leaks :
    ∃ s, machine.run (start 3) disconnect = some s ∧ 5 ∈ s.openFds ∧
      (s.interest.find 5).isSome = false ∧
      history (start 3) disconnect =
        [.accept 5, .add 5 EPOLLIN, .read 5 (.bytes []), .del 5] ∧
      ¬Lives s (history (start 3) disconnect) 5 := by
  have hrun : (machine.run (start 3) disconnect).map
      (fun s => (decide (5 ∈ s.openFds), (s.interest.find 5).isSome)) = some (true, false) := by
    decide +kernel
  obtain ⟨s, hs, heq⟩ := Option.map_eq_some_iff.mp hrun
  simp only [Prod.mk.injEq, decide_eq_true_eq] at heq
  refine ⟨s, hs, heq.1, heq.2, by decide +kernel, fun hlives => ?_⟩
  have hwatched := hlives.watched.mp heq.1
  rw [heq.2] at hwatched
  cases hwatched

/-! ## 3. The calls of one event -/

section

variable {s t : State} {fd : Int} {event : Events} {r : Results}

theorem fds_ctl {op : CtlOp} {ev : Events} (h : s.fds = t.fds) :
    (s.ctl op fd ev).fds = (t.ctl op fd ev).fds := by
  obtain ⟨hopen, hset⟩ := Prod.mk.inj h
  unfold State.ctl
  rw [hopen, hset]
  split <;> simp [State.fds, hopen, hset]

theorem fds_removeFd_close (h : s.fds = t.fds) :
    ((s.removeFd fd).close fd).fds = ((t.removeFd fd).close fd).fds := by
  have hremove : (s.removeFd fd).fds = (t.removeFd fd).fds := fds_ctl h
  obtain ⟨hopen, hset⟩ := Prod.mk.inj hremove
  simp [State.close, State.fds, hopen, hset]

theorem fds_touch (s : State) : s.touch.fds = s.fds := by
  unfold State.touch
  split <;> rfl

theorem handleReadfd_calls {ret : Int} (h : s.handleReadfd fd r.read = .ok (t, ret)) :
    ((handleReadfdCalls fd r.read).foldl FdCall.apply s).fds = t.fds ∧
      (ret = 0 ↔ r.read = .bytes []) := by
  unfold State.handleReadfd at h
  unfold handleReadfdCalls
  split at h
  · next hr =>
    cases h
    simp [hr, FdCall.apply]
  · next data hne hr =>
    obtain ⟨value, -, h⟩ := bind_ok.mp h
    cases h
    rw [hr]
    cases data with
    | nil => exact absurd rfl hne
    | cons => exact ⟨fds_ctl rfl, by simp⟩
  · next errno hr =>
    rw [hr]
    split at h
    · next heagain =>
      cases h
      simp [heagain, FdCall.apply]
    · next heagain =>
      cases h
      simp [heagain, FdCall.apply]

theorem handleSendFd_calls :
    ((handleSendFdCalls fd r.write).foldl FdCall.apply s).fds =
      (s.handleSendFd fd r.write).1.fds := by
  unfold State.handleSendFd handleSendFdCalls
  cases r.write with
  | wrote n =>
    dsimp only
    split
    · exact fds_ctl (fds_touch s).symm
    · exact fds_removeFd_close (fds_touch s).symm
  | error errno =>
    dsimp only
    split
    · exact (fds_touch s).symm
    · exact fds_removeFd_close (fds_touch s).symm

/-- The calls make exactly the changes that the model makes. -/
theorem ltModel_calls (h : ltModel s fd event r = .ok t) :
    ((ltModelCalls s.listenfd fd event r).foldl FdCall.apply s).fds = t.fds := by
  unfold ltModel at h
  unfold ltModelCalls
  split_ifs at h ⊢ with hlisten hread hnil hwrite
  · cases h
    rfl
  · obtain ⟨⟨u, ret⟩, hu, hret⟩ := bind_ok.mp h
    obtain ⟨hfds, hzero⟩ := handleReadfd_calls hu
    cases hret
    rw [if_pos (hzero.mpr hnil), List.foldl_append]
    exact fds_ctl hfds
  · obtain ⟨⟨u, ret⟩, hu, hret⟩ := bind_ok.mp h
    obtain ⟨hfds, hzero⟩ := handleReadfd_calls hu
    cases hret
    rw [if_neg fun hret => hnil (hzero.mp hret), List.append_nil]
    exact hfds
  · cases h
    exact handleSendFd_calls
  · cases h
    rfl

/-! ## 4. What one event does to the descriptors -/

namespace FdCall

/-- A read or write of `fd` that neither fails nor finds the peer gone. -/
def Quiet (call : FdCall) (fd : Int) : Prop :=
  call.uses fd = true ∧ ∀ fd', call.fails fd' = false ∧ call.peerCloses fd' = false

theorem quiet_read_data {data : List Byte} (h : data ≠ []) :
    Quiet (.read fd (.bytes data)) fd := by
  refine ⟨by simp [uses], fun fd' => ⟨rfl, by simp [peerCloses, h]⟩⟩

theorem quiet_read_eagain : Quiet (.read fd (.error EAGAIN)) fd := by
  refine ⟨by simp [uses], fun fd' => ⟨by simp [fails], by simp [peerCloses]⟩⟩

theorem quiet_write {n : Nat} (h : n > 0) : Quiet (.write fd (.wrote n)) fd := by
  refine ⟨by simp [uses], fun fd' => ⟨?_, rfl⟩⟩
  have hn : n ≠ 0 := by omega
  simp [fails, hn]

theorem quiet_write_eagain : Quiet (.write fd (.error EAGAIN)) fd := by
  refine ⟨by simp [uses], fun fd' => ⟨by simp [fails], rfl⟩⟩

/-- A read or write concerns one descriptor and neither opens nor closes it. -/
theorem uses_spec {call : FdCall} (h : call.uses fd = true) (fd' : Int) :
    call.accepts fd' = false ∧ call.removes fd' = false ∧ call.closes fd' = false ∧
      (call.uses fd' = true → fd = fd') ∧ (call.fails fd' = true → fd = fd') ∧
      (call.peerCloses fd' = true → fd = fd') := by
  cases call with
  | read fd₁ r =>
    obtain rfl : fd₁ = fd := by simpa [uses] using h
    cases r <;> simp +contextual [accepts, removes, closes, uses, fails, peerCloses]
  | write fd₁ r =>
    obtain rfl : fd₁ = fd := by simpa [uses] using h
    cases r <;> simp +contextual [accepts, removes, closes, uses, fails, peerCloses]
  | _ => cases h

theorem uses_of_fails {call : FdCall} (h : call.fails fd = true) :
    call.uses fd = true ∧ ∀ fd', call.peerCloses fd' = false := by
  cases call with
  | read fd₁ r => cases r <;> simp_all [fails, uses, peerCloses]
  | write fd₁ r => cases r <;> simp_all [fails, uses, peerCloses]
  | _ => cases h

end FdCall

/-- The calls of an event on `fd`, and the descriptors after them. -/
inductive Serves (s : State) (fd : Int) : List FdCall → List Int × Interest Int → Prop where
  | accepted {connfd : Int} (hnonneg : 0 ≤ connfd) (hnew : connfd ∉ s.openFds) :
      Serves s fd [.accept connfd, .add connfd EPOLLIN]
        (connfd :: s.openFds, s.interest.insert connfd (EPOLLIN, connfd))
  | acceptFailed : Serves s fd [.accept (-1), .add (-1) EPOLLIN] s.fds
  | quiet {call : FdCall} {mods : List FdCall} {interest : Interest Int} (hfd : fd ≠ s.listenfd)
      (hquiet : call.Quiet fd) (hmods : ∀ c ∈ mods, ∃ ev, c = .mod fd ev)
      (hset : ∀ fd', (interest.find fd').isSome = (s.interest.find fd').isSome) :
      Serves s fd (call :: mods) (s.openFds, interest)
  | peerClosed (hfd : fd ≠ s.listenfd) :
      Serves s fd [.read fd (.bytes []), .del fd] (s.openFds, s.interest.erase fd)
  | failed {call : FdCall} (hfd : fd ≠ s.listenfd) (hfails : call.fails fd = true) :
      Serves s fd [call, .del fd, .close fd] (s.openFds.erase fd, s.interest.erase fd)
  | idle : Serves s fd [] s.fds

theorem isSome_insert {interest : Interest Int} {ev : Events} (h : (interest.find fd).isSome)
    (fd' : Int) :
    (Table.find (interest.insert fd (ev, fd)) fd').isSome =
      (interest.find fd').isSome := by
  rw [Table.find_insert]
  split
  · next heq => rw [heq, h]; rfl
  · rfl

theorem handleReadfd_serves (hfd : fd ≠ s.listenfd) (hopen : fd ∈ s.openFds)
    (hmode : s.interest.find fd = some (EPOLLIN, fd)) {calls : List FdCall}
    (hcalls : calls = handleReadfdCalls fd r.read ++
      if r.read = .bytes [] then [.del fd] else []) :
    Serves s fd calls (calls.foldl FdCall.apply s).fds := by
  subst hcalls
  unfold handleReadfdCalls
  cases r.read with
  | bytes data =>
    cases data with
    | nil =>
      show Serves s fd _ (s.removeFd fd).fds
      rw [State.removeFd_present hopen hmode]
      exact .peerClosed hfd
    | cons b bs =>
      show Serves s fd _ (s.modFd fd EPOLLOUT).fds
      rw [State.modFd_present hopen hmode]
      refine .quiet hfd (FdCall.quiet_read_data (by simp)) (by simp) fun fd' => ?_
      exact isSome_insert (by rw [hmode]; rfl) fd'
  | error errno =>
    dsimp only
    split
    · next heagain =>
      subst heagain
      exact .quiet hfd FdCall.quiet_read_eagain (by simp) fun _ => rfl
    · next heagain =>
      show Serves s fd _ ((s.removeFd fd).close fd).fds
      rw [State.removeFd_close hopen hmode]
      exact .failed hfd (by simp [FdCall.fails, heagain])

theorem handleSendFd_serves {e : Events × Int} (hfd : fd ≠ s.listenfd) (hopen : fd ∈ s.openFds)
    (hmode : s.interest.find fd = some e) :
    Serves s fd (handleSendFdCalls fd r.write)
      ((handleSendFdCalls fd r.write).foldl FdCall.apply s).fds := by
  unfold handleSendFdCalls
  cases r.write with
  | wrote n =>
    dsimp only
    split
    · next hn =>
      show Serves s fd _ (s.modFd fd EPOLLIN).fds
      rw [State.modFd_present hopen hmode]
      refine .quiet hfd (FdCall.quiet_write hn) (by simp) fun fd' => ?_
      exact isSome_insert (by rw [hmode]; rfl) fd'
    · next hn =>
      show Serves s fd _ ((s.removeFd fd).close fd).fds
      rw [State.removeFd_close hopen hmode]
      exact .failed hfd (by simp [FdCall.fails]; omega)
  | error errno =>
    dsimp only
    split
    · next heagain =>
      subst heagain
      exact .quiet hfd FdCall.quiet_write_eagain (by simp) fun _ => rfl
    · next heagain =>
      show Serves s fd _ ((s.removeFd fd).close fd).fds
      rw [State.removeFd_close hopen hmode]
      exact .failed hfd (by simp [FdCall.fails, heagain])

theorem handleListenFd_serves (hs : Wf s) (hr : s.Possible r) :
    Serves s fd (handleListenFdCalls r.accept)
      ((handleListenFdCalls r.accept).foldl FdCall.apply s).fds := by
  show Serves s fd _ (s.handleListenFd r.accept).fds
  rcases hr.1 with hfailed | ⟨hnonneg, hnew⟩
  · have hclosed : (-1 : Int) ∉ s.openFds := by
      intro hmem
      have := hs.nonneg _ hmem
      omega
    rw [hfailed, State.handleListenFd, if_pos rfl, State.addFd_closed hclosed]
    exact .acceptFailed
  · rw [State.handleListenFd, if_neg (by omega), State.addFd_new]
    · exact .accepted hnonneg hnew
    · exact List.mem_cons_self
    · exact Option.eq_none_iff_forall_ne_some.mpr fun ev hev => hnew (hs.entry _ ev.1 ev.2 hev).1

theorem ltModel_serves (hs : Wf s) (hreports : s.Reports fd event) (hr : s.Possible r) :
    Serves s fd (ltModelCalls s.listenfd fd event r)
      ((ltModelCalls s.listenfd fd event r).foldl FdCall.apply s).fds := by
  obtain ⟨mask, hmode, hevent⟩ := reports_iff.mp hreports
  obtain ⟨hopen, hmask⟩ := hs.entry fd mask fd hmode
  unfold ltModelCalls
  split
  · exact handleListenFd_serves hs hr
  · next hfd =>
    split
    · next hcan =>
      rcases hmask with rfl | ⟨rfl, -⟩
      · exact handleReadfd_serves hfd hopen hmode rfl
      · exact absurd hcan (not_canRead hevent)
    · split
      · exact handleSendFd_serves hfd hopen hmode
      · exact .idle

/-! ## 5. The ledger of all calls -/

/-- Each use of `fd` in `h` falls between an `accept` and the next `close`. -/
def UsedOpen (h : List FdCall) (fd : Int) : Prop :=
  ∀ before call after, h = before ++ call :: after → call.uses fd = true →
    before.countP (FdCall.accepts fd) = before.countP (FdCall.closes fd) + 1

theorem UsedOpen.concat {h : List FdCall} {call : FdCall} (hu : UsedOpen h fd)
    (hcall : call.uses fd = true →
      h.countP (FdCall.accepts fd) = h.countP (FdCall.closes fd) + 1) :
    UsedOpen (h ++ [call]) fd := by
  intro before call' after heq huses
  rcases List.eq_nil_or_concat after with rfl | ⟨after', last, rfl⟩
  · obtain ⟨rfl, hlast⟩ := List.append_inj' heq rfl
    obtain rfl : call = call' := List.singleton_inj.mp hlast
    exact hcall huses
  · rw [List.concat_eq_append, ← List.cons_append, ← List.append_assoc] at heq
    obtain ⟨hh, -⟩ := List.append_inj' heq rfl
    exact hu before call' after' hh huses

theorem UsedOpen.append_unused {h calls : List FdCall} (hu : UsedOpen h fd)
    (hcalls : ∀ call ∈ calls, call.uses fd = false) : UsedOpen (h ++ calls) fd := by
  induction calls generalizing h with
  | nil => simpa using hu
  | cons call calls ih =>
    rw [← List.singleton_append, ← List.append_assoc]
    refine ih (hu.concat fun huses => ?_) fun c hc => hcalls c (List.mem_cons_of_mem _ hc)
    rw [hcalls call List.mem_cons_self] at huses
    cases huses

/-- The calls so far against the descriptors, in every run. -/
structure Ledger (s : State) (h : List FdCall) : Prop where
  listening : s.listenfd ∈ s.openFds
  nodup : s.openFds.Nodup
  once : ∀ fd ≠ s.listenfd, h.countP (FdCall.accepts fd) =
    h.countP (FdCall.closes fd) + if fd ∈ s.openFds then 1 else 0
  removed : ∀ fd, h.countP (FdCall.removes fd) =
    h.countP (FdCall.closes fd) + h.countP (FdCall.peerCloses fd)
  ended : ∀ fd, h.countP (FdCall.closes fd) = h.countP (FdCall.fails fd)
  watched : ∀ fd ∈ s.openFds, fd ≠ s.listenfd → (s.interest.find fd).isSome = false →
    0 < h.countP (FdCall.peerCloses fd)
  used : ∀ fd, UsedOpen h fd

theorem Ledger.start {listenfd : Int} : Ledger (PollingServer.start listenfd) [] := by
  refine ⟨List.mem_cons_self, List.nodup_singleton _, fun fd hfd => ?_, fun _ => rfl, fun _ => rfl,
    fun fd hopen hfd => ?_, fun fd before call after heq => ?_⟩
  · simpa [PollingServer.start] using hfd
  · exact absurd (List.mem_singleton.mp hopen) hfd
  · simp at heq

/-- What the calls of one event add to the ledger of `fd`, when they leave the
descriptors `fds`. -/
structure Adds (s : State) (fds : List Int × Interest Int) (calls : List FdCall) (fd : Int) :
    Prop where
  once : calls.countP (FdCall.accepts fd) + (if fd ∈ s.openFds then 1 else 0) =
    calls.countP (FdCall.closes fd) + if fd ∈ fds.1 then 1 else 0
  removed : calls.countP (FdCall.removes fd) =
    calls.countP (FdCall.closes fd) + calls.countP (FdCall.peerCloses fd)
  ended : calls.countP (FdCall.closes fd) = calls.countP (FdCall.fails fd)
  watched : fd ∈ fds.1 → (fds.2.find fd).isSome = false →
    0 < calls.countP (FdCall.peerCloses fd) ∨
      fd ∈ s.openFds ∧ (s.interest.find fd).isSome = false
  used : ∀ h, UsedOpen h fd →
    (fd ≠ s.listenfd → fd ∈ s.openFds →
      h.countP (FdCall.accepts fd) = h.countP (FdCall.closes fd) + 1) →
    UsedOpen (h ++ calls) fd

/-- The ledger after an event. -/
theorem Ledger.extend {h calls : List FdCall} {fds : List Int × Interest Int} (hl : Ledger s h)
    (hlisten : t.listenfd = s.listenfd) (hfds : t.fds = fds) (hlistening : s.listenfd ∈ fds.1)
    (hnodup : fds.1.Nodup) (hadds : ∀ fd, Adds s fds calls fd) : Ledger t (h ++ calls) := by
  subst hfds
  refine ⟨hlisten ▸ hlistening, hnodup, fun fd hfd => ?_, fun fd => ?_, fun fd => ?_,
    fun fd hopen hfd hnone => ?_, fun fd => (hadds fd).used h (hl.used fd) fun hfd hopen => ?_⟩
  · have hold := hl.once fd (hlisten ▸ hfd)
    have hnew : calls.countP (FdCall.accepts fd) + (if fd ∈ s.openFds then 1 else 0) =
        calls.countP (FdCall.closes fd) + if fd ∈ t.openFds then 1 else 0 := (hadds fd).once
    rw [List.countP_append, List.countP_append]
    omega
  · rw [List.countP_append, List.countP_append, List.countP_append, hl.removed, (hadds fd).removed,
      Nat.add_add_add_comm]
  · rw [List.countP_append, List.countP_append, hl.ended, (hadds fd).ended]
  · rw [List.countP_append]
    rcases (hadds fd).watched hopen hnone with hpeer | ⟨hold, hunwatched⟩
    · exact Nat.add_pos_right _ hpeer
    · exact Nat.add_pos_left (hl.watched fd hold (hlisten ▸ hfd) hunwatched) _
  · simpa [hopen] using hl.once fd hfd

/-- No call. -/
theorem Adds.idle (hopen : t.openFds = s.openFds)
    (hset : ∀ fd, (t.interest.find fd).isSome = (s.interest.find fd).isSome) (fd : Int) :
    Adds s t.fds [] fd := by
  refine ⟨?_, rfl, rfl, fun hfd hnone => .inr ⟨hopen ▸ hfd, ?_⟩, fun h hu _ => ?_⟩
  · simp [State.fds, hopen]
  · rwa [← hset]
  · rwa [List.append_nil]

theorem Adds.acceptFailed (fd : Int) : Adds s s.fds [.accept (-1), .add (-1) EPOLLIN] fd := by
  refine ⟨?_, rfl, rfl, fun hfd hnone => .inr ⟨hfd, hnone⟩, fun h hu _ => hu.append_unused ?_⟩
  · exact congrArg (· + if fd ∈ s.openFds then 1 else 0) (by simp [FdCall.accepts, FdCall.closes])
  · simp [FdCall.uses]

theorem Adds.accepted {connfd : Int} (hnonneg : 0 ≤ connfd) (hnew : connfd ∉ s.openFds)
    (fd : Int) : Adds s (connfd :: s.openFds, s.interest.insert connfd (EPOLLIN, connfd))
      [.accept connfd, .add connfd EPOLLIN] fd := by
  have hne : connfd ≠ -1 := by omega
  refine ⟨?_, rfl, rfl, fun hfd hnone => ?_, fun h hu _ => hu.append_unused (by simp [FdCall.uses])⟩
  · by_cases heq : fd = connfd
    · subst heq
      simp [FdCall.accepts, FdCall.closes, hnew, hne]
    · have hother : ¬connfd = fd := fun h => heq h.symm
      simp [FdCall.accepts, FdCall.closes, heq, hother]
  · rw [Table.find_insert] at hnone
    split at hnone
    · cases hnone
    · next heq => exact .inr ⟨(List.mem_cons.mp hfd).resolve_left heq, hnone⟩

/-- A read or write that changes no descriptor, and `ModFd` after it. -/
theorem Adds.quiet {call : FdCall} {mods : List FdCall} {interest : Interest Int}
    (hfd : fd ≠ s.listenfd) (hopen : fd ∈ s.openFds) (hquiet : call.Quiet fd)
    (hmods : ∀ c ∈ mods, ∃ ev, c = .mod fd ev)
    (hset : ∀ fd', (interest.find fd').isSome = (s.interest.find fd').isSome) (fd' : Int) :
    Adds s (s.openFds, interest) (call :: mods) fd' := by
  have hspec := FdCall.uses_spec hquiet.1 fd'
  have hcount : ∀ p : FdCall → Bool, p call = false → (∀ ev, p (.mod fd ev) = false) →
      (call :: mods).countP p = 0 := by
    intro p hcall hmod
    refine List.countP_eq_zero.mpr fun c hc => ?_
    rcases List.mem_cons.mp hc with rfl | hc
    · simp [hcall]
    · obtain ⟨ev, rfl⟩ := hmods c hc
      simp [hmod]
  have haccepts := hcount (FdCall.accepts fd') hspec.1 fun _ => rfl
  have hcloses := hcount (FdCall.closes fd') hspec.2.2.1 fun _ => rfl
  refine ⟨?_, ?_, ?_, fun hfd' hnone => .inr ⟨hfd', hset fd' ▸ hnone⟩, fun h hu hbalance => ?_⟩
  · rw [haccepts, hcloses]
  · rw [hcloses, hcount (FdCall.removes fd') hspec.2.1 fun _ => rfl,
      hcount (FdCall.peerCloses fd') (hquiet.2 fd').2 fun _ => rfl]
  · rw [hcloses, hcount (FdCall.fails fd') (hquiet.2 fd').1 fun _ => rfl]
  · rw [← List.singleton_append, ← List.append_assoc]
    refine (hu.concat fun huses => ?_).append_unused fun c hc => ?_
    · obtain rfl := hspec.2.2.2.1 huses
      exact hbalance hfd hopen
    · obtain ⟨ev, rfl⟩ := hmods c hc
      rfl

theorem Adds.peerClosed (hfd : fd ≠ s.listenfd) (hopen : fd ∈ s.openFds) (fd' : Int) :
    Adds s (s.openFds, s.interest.erase fd) [.read fd (.bytes []), .del fd] fd' := by
  refine ⟨?_, ?_, rfl, fun hfd' hnone => ?_, fun h hu hbalance => ?_⟩
  · simp [FdCall.accepts, FdCall.closes]
  · by_cases heq : fd = fd' <;>
      simp [FdCall.removes, FdCall.closes, FdCall.peerCloses, heq]
  · by_cases heq : fd = fd'
    · simp [FdCall.peerCloses, heq]
    · rw [Table.find_erase, if_neg fun h => heq h.symm] at hnone
      exact .inr ⟨hfd', hnone⟩
  · rw [← List.singleton_append, ← List.append_assoc]
    refine (hu.concat fun huses => ?_).append_unused (by simp [FdCall.uses])
    obtain rfl : fd = fd' := by simpa [FdCall.uses] using huses
    exact hbalance hfd hopen

theorem Adds.failed {call : FdCall} (hfd : fd ≠ s.listenfd) (hopen : fd ∈ s.openFds)
    (hnodup : s.openFds.Nodup) (hfails : call.fails fd = true) (fd' : Int) :
    Adds s (s.openFds.erase fd, s.interest.erase fd) [call, .del fd, .close fd] fd' := by
  obtain ⟨huses, hpeer⟩ := FdCall.uses_of_fails hfails
  have hspec := FdCall.uses_spec huses fd'
  have hcount : ∀ p : FdCall → Bool, [call, FdCall.del fd, FdCall.close fd].countP p =
      (p call).toNat + (p (FdCall.del fd)).toNat + (p (FdCall.close fd)).toNat := by
    intro p
    cases hcall : p call <;> cases hdel : p (FdCall.del fd) <;>
      cases hclose : p (FdCall.close fd) <;> simp [hcall, hdel, hclose]
  refine ⟨?_, ?_, ?_, fun hfd' hnone => ?_, fun h hu hbalance => ?_⟩
  · rw [hcount, hcount, hspec.1, hspec.2.2.1]
    by_cases heq : fd' = fd
    · subst heq
      simp [FdCall.accepts, FdCall.closes, hnodup.not_mem_erase, hopen]
    · have hother : ¬fd = fd' := fun h => heq h.symm
      simp [FdCall.accepts, FdCall.closes, hother, List.mem_erase_of_ne heq]
  · rw [hcount, hcount, hcount, hspec.2.1, hspec.2.2.1, hpeer fd']
    simp [FdCall.removes, FdCall.closes, FdCall.peerCloses]
  · rw [hcount, hcount, hspec.2.2.1]
    by_cases heq : fd = fd'
    · subst heq
      rw [hfails]
      simp [FdCall.closes, FdCall.fails]
    · have hno : call.fails fd' = false :=
        Bool.eq_false_iff.mpr fun h => heq (hspec.2.2.2.2.1 h)
      rw [hno]
      simp [FdCall.closes, FdCall.fails, heq]
  · have hother : fd' ≠ fd := by
      rintro rfl
      exact hnodup.not_mem_erase hfd'
    rw [Table.find_erase, if_neg hother] at hnone
    exact .inr ⟨List.mem_of_mem_erase hfd', hnone⟩
  · rw [← List.singleton_append, ← List.append_assoc]
    refine (hu.concat fun huses' => ?_).append_unused (by simp [FdCall.uses])
    obtain rfl := hspec.2.2.2.1 huses'
    exact hbalance hfd hopen

theorem Ledger.serves {h calls : List FdCall} {fds : List Int × Interest Int} (hl : Ledger s h)
    (hopen : fd ∈ s.openFds) (hserves : Serves s fd calls fds)
    (hlisten : t.listenfd = s.listenfd) (hfds : t.fds = fds) : Ledger t (h ++ calls) := by
  cases hserves with
  | accepted hnonneg hnew =>
    exact hl.extend hlisten hfds (List.mem_cons_of_mem _ hl.listening)
      (List.nodup_cons.mpr ⟨hnew, hl.nodup⟩) (Adds.accepted hnonneg hnew)
  | acceptFailed => exact hl.extend hlisten hfds hl.listening hl.nodup Adds.acceptFailed
  | quiet hfd hquiet hmods hset =>
    exact hl.extend hlisten hfds hl.listening hl.nodup (Adds.quiet hfd hopen hquiet hmods hset)
  | peerClosed hfd =>
    exact hl.extend hlisten hfds hl.listening hl.nodup (Adds.peerClosed hfd hopen)
  | failed hfd hfails =>
    exact hl.extend hlisten hfds ((List.mem_erase_of_ne hfd.symm).mpr hl.listening)
      (hl.nodup.erase fd) (Adds.failed hfd hopen hl.nodup hfails)
  | idle => exact hl.extend hlisten hfds hl.listening hl.nodup (Adds.idle rfl fun _ => rfl)

/-! ## 6. Every run -/

theorem Stepped.listenfd_eq {a : Act} (h : Stepped s a t) : t.listenfd = s.listenfd := by
  cases h with
  | wait events hnodup hreports => rfl
  | next hbatch h => cases h <;> rfl
  | crash r e => rfl

/-- Only the overflow of a counter keeps `LtModel` from returning. -/
theorem ltModel_error {e : Fault} (h : ltModel s fd event r = .error e) :
    fd ≠ s.listenfd ∧ ∃ data value, data ≠ [] ∧ r.read = .bytes data ∧
      s.serviceKey.find (data.takeWhile (· ≠ 0)) = some value ∧ 2 ^ 31 ≤ value + 1 := by
  unfold ltModel at h
  split_ifs at h with hlisten hread hwrite
  refine ⟨hlisten, ?_⟩
  unfold State.handleReadfd at h
  split at h
  · cases h
  · next data hne hr =>
    refine ⟨data, ?_⟩
    dsimp only at h
    cases hfind : s.serviceKey.find (data.takeWhile (· ≠ 0)) with
    | none =>
      rw [hfind] at h
      cases h
    | some value =>
      rw [hfind, State.increment] at h
      split at h
      · cases h
      · next hfull => exact ⟨value, fun hnil => hne hnil, hr, rfl, Nat.le_of_not_lt hfull⟩
  · split at h <;> cases h

theorem Ledger.step {h : List FdCall} {a : Act} (hs : Wf s) (hl : Ledger s h)
    (hstep : machine.step s a = some t) : Ledger t (h ++ s.calls a) := by
  have hlisten := (step_stepped hs hstep).listenfd_eq
  obtain ⟨⟨-, hg⟩, rfl⟩ := Trans.Machine.guarded_step.mp hstep
  cases a with
  | wait events => exact hl.extend rfl rfl hl.listening hl.nodup (Adds.idle rfl fun _ => rfl)
  | next r =>
    obtain ⟨hne, hr⟩ := hg
    cases hbatch : s.batch with
    | nil => exact absurd hbatch hne
    | cons e rest =>
      obtain ⟨fd, event⟩ := e
      have hs' := (hs.next hbatch).1
      have hreports := hs.reports (fd, event) (hbatch ▸ List.mem_cons_self)
      obtain ⟨mask, hmode, -⟩ := reports_iff.mp hreports
      have hopen := (hs.entry fd mask fd hmode).1
      have hl' : Ledger { s with batch := rest } h :=
        ⟨hl.listening, hl.nodup, hl.once, hl.removed, hl.ended, hl.watched, hl.used⟩
      unfold effect at hlisten ⊢
      unfold State.calls
      simp only [hbatch] at hlisten ⊢
      cases hmodel : ltModel { s with batch := rest } fd event r with
      | ok u =>
        rw [hmodel] at hlisten
        exact hl'.serves hopen (ltModel_serves hs' hreports hr) hlisten (ltModel_calls hmodel).symm
      | error e =>
        obtain ⟨hfd, data, -, hdata, hread, -⟩ := ltModel_error hmodel
        rw [hread]
        exact hl.extend rfl rfl hl.listening hl.nodup
          (Adds.quiet hfd hopen (FdCall.quiet_read_data hdata) (by simp) fun _ => rfl)

theorem run_listenfd_eq {as : List Act} (hs : Wf s) (hrun : machine.run s as = some t) :
    t.listenfd = s.listenfd := by
  refine (Trans.Machine.run_invariant (I := fun u => Wf u ∧ u.listenfd = s.listenfd) ?_ ⟨hs, rfl⟩
    (Trans.Machine.along_true s as) hrun).2
  rintro u a v ⟨hu, hlisten⟩ - hstep
  have hstepped := step_stepped hu hstep
  exact ⟨hu.stepped hstepped, hstepped.listenfd_eq.trans hlisten⟩

theorem Ledger.run {as : List Act} (hs : Wf s) (hl : Ledger s [])
    (hrun : machine.run s as = some t) : Wf t ∧ Ledger t (history s as) := by
  rw [history_eq]
  refine Trans.Machine.recorded_invariant (I := fun s h => Wf s ∧ Ledger s h) ?_ ⟨hs, hl⟩ hrun
  rintro u h a v ⟨hu, hledger⟩ hstep
  exact ⟨hu.stepped (step_stepped hu hstep), hledger.step hu hstep⟩

/-- The step is no `m_handleReadfd` that returns 0. -/
def PeerStays (s : State) : Act → Prop
  | .wait _ => True
  | .next r =>
    match s.batch with
    | [] => True
    | (fd, event) :: _ => fd ≠ s.listenfd → canRead event → r.read ≠ .bytes []

instance (s : State) : ∀ a, Decidable (PeerStays s a)
  | .wait _ => .isTrue trivial
  | .next r =>
    match hbatch : s.batch with
    | [] => .isTrue (by simp [PeerStays, hbatch])
    | (fd, event) :: _ =>
      decidable_of_iff (fd ≠ s.listenfd → canRead event → r.read ≠ .bytes []) (by
        simp [PeerStays, hbatch])

theorem handleReadfdCalls_peerCloses {result : Buffer.ReadResult} {fd' : Int} :
    (handleReadfdCalls fd result).countP (FdCall.peerCloses fd') =
      if result = .bytes [] ∧ fd = fd' then 1 else 0 := by
  unfold handleReadfdCalls
  split
  · simp [FdCall.peerCloses, List.countP_cons]
  · next data hne =>
    have hdata : data ≠ [] := fun h => hne h
    simp [FdCall.peerCloses, hdata]
  · split <;> simp [FdCall.peerCloses]

theorem handleSendFdCalls_peerCloses {result : WriteResult} {fd' : Int} :
    (handleSendFdCalls fd result).countP (FdCall.peerCloses fd') = 0 := by
  unfold handleSendFdCalls
  split <;> split <;> simp [FdCall.peerCloses]

theorem ltModelCalls_peerCloses {listenfd fd' : Int} :
    (ltModelCalls listenfd fd event r).countP (FdCall.peerCloses fd') =
      if (fd ≠ listenfd ∧ canRead event ∧ r.read = .bytes []) ∧ fd = fd' then 1 else 0 := by
  unfold ltModelCalls
  split
  · next hfd => simp [hfd, handleListenFdCalls, FdCall.peerCloses]
  · next hfd =>
    split
    · next hread =>
      rw [List.countP_append, handleReadfdCalls_peerCloses]
      by_cases hnil : r.read = .bytes [] <;> simp [hfd, hread, hnil, FdCall.peerCloses]
    · next hread =>
      split <;> simp [hread, handleSendFdCalls_peerCloses]

theorem peerStays_iff {a : Act} :
    PeerStays s a ↔ ∀ fd ≠ s.listenfd, (s.calls a).countP (FdCall.peerCloses fd) = 0 := by
  cases a with
  | wait events => simp [PeerStays, State.calls]
  | next r =>
    unfold PeerStays State.calls
    cases s.batch with
    | nil => simp
    | cons e rest =>
      obtain ⟨fd, event⟩ := e
      cases hmodel : ltModel { s with batch := rest } fd event r with
      | ok u =>
        simp only [hmodel, ltModelCalls_peerCloses]
        constructor
        · intro hstays fd' hfd'
          rw [if_neg fun h => hstays h.1.1 h.1.2.1 h.1.2.2]
        · intro hzero hfd hread hnil
          simpa [hfd, hread, hnil] using hzero fd hfd
      | error e =>
        obtain ⟨hfd, data, -, hdata, hread, -⟩ := ltModel_error hmodel
        simp [hmodel, hread, hdata, FdCall.peerCloses]

theorem along_peerStays_iff {as : List Act} (hs : Wf s) (hrun : machine.run s as = some t) :
    machine.Along PeerStays s as ↔
      ∀ fd ≠ s.listenfd, (history s as).countP (FdCall.peerCloses fd) = 0 := by
  induction as generalizing s with
  | nil => simp [Trans.Machine.Along, history]
  | cons a as ih =>
    obtain ⟨u, hstep, hrest⟩ := machine.run_cons_some hrun
    have hstepped := step_stepped hs hstep
    have hih := ih (hs.stepped hstepped) hrest
    rw [hstepped.listenfd_eq] at hih
    rw [Trans.Machine.along_cons, history, hstep]
    simp only [List.countP_append, Nat.add_eq_zero_iff, forall_and]
    rw [peerStays_iff, hih]

/-- Every accepted descriptor is open and watched until it is removed and closed,
once, in exactly those runs in which no `m_handleReadfd` returns 0. -/
theorem lives_iff {s₀ : State} {as : List Act} (hinit : machine.init s₀)
    (hrun : machine.run s₀ as = some t) :
    (∀ fd ≠ t.listenfd, Lives t (history s₀ as) fd) ↔ machine.Along PeerStays s₀ as := by
  obtain ⟨listenfd, hnonneg, rfl⟩ := hinit
  have hstart : Wf (start listenfd) := .start hnonneg
  obtain ⟨ht, hledger⟩ := Ledger.start.run hstart hrun
  rw [along_peerStays_iff hstart hrun, ← run_listenfd_eq hstart hrun]
  constructor
  · intro hlives fd hfd
    have hremoved := hledger.removed fd
    have hbalance := (hlives fd hfd).removed
    omega
  · intro hstays fd hfd
    have hpeer := hstays fd hfd
    refine ⟨⟨fun hopen => ?_, fun hset => ?_⟩, hledger.once fd hfd, ?_, ?_, hledger.used fd⟩
    · by_contra hnone
      have hpos := hledger.watched fd hopen hfd (Bool.eq_false_iff.mpr hnone)
      omega
    · obtain ⟨e, he⟩ := Option.isSome_iff_exists.mp hset
      exact (ht.entry fd e.1 e.2 he).1
    · rw [hledger.removed fd, hpeer, Nat.add_zero]
    · rw [hledger.ended fd, hpeer, Nat.zero_add]

/-- The first reply to a client is written, and the second finds the connection
reset. -/
def resetByPeer : List Act :=
  [.wait [(3, EPOLLIN)], .next ⟨5, .error EAGAIN, .error EAGAIN⟩,
    .wait [(5, EPOLLIN)], .next ⟨-1, .bytes [97], .error EAGAIN⟩,
    .wait [(5, EPOLLOUT)], .next ⟨-1, .error EAGAIN, .wrote 1⟩,
    .wait [(5, EPOLLIN)], .next ⟨-1, .bytes [97], .error EAGAIN⟩,
    .wait [(5, EPOLLOUT)], .next ⟨-1, .error EAGAIN, .error 104⟩]

theorem resetByPeer_lives : ∃ s, machine.run (start 3) resetByPeer = some s ∧
    5 ∉ s.openFds ∧ (history (start 3) resetByPeer).countP (FdCall.closes 5) = 1 ∧
    ∀ fd ≠ s.listenfd, Lives s (history (start 3) resetByPeer) fd := by
  have hopen : (machine.run (start 3) resetByPeer).map State.openFds = some [3] := by
    decide +kernel
  obtain ⟨s, hrun, hs⟩ := Option.map_eq_some_iff.mp hopen
  have hstays : machine.Along PeerStays (start 3) resetByPeer := by decide +kernel
  exact ⟨s, hrun, by rw [hs]; decide, by decide +kernel,
    (lives_iff ⟨3, by decide, rfl⟩ hrun).mpr hstays⟩

end

end PollingServer

end NetFrame
