import NetFrame.Descriptors

/-!
# Requests and replies of the service

What `m_serviceKey` and the interest set of `m_poll` say about the reads and
writes that have succeeded. A descriptor is asked for `EPOLLOUT` from the read
of a request until the write of the reply, so that the interest set remembers
which replies are owed.

Results:
1. `requests_counted`: each counter is the number of the reads of its key, the two
   modes of a descriptor say whether it is owed a reply, and each request that was
   counted has been replied, is owed a reply, or was lost with its descriptor.
2. `Logged.closes`: a failed write closes a descriptor that waits to be written.
-/

namespace NetFrame

namespace PollingServer

/-! ## 1. The history of a run -/

/-- What has come of a call. -/
def FdCall.event : FdCall → Option Event
  | .accept connfd => if connfd = -1 then none else some (.accepted connfd)
  | .read fd r => readEvent fd r
  | .write fd r => writeEvent fd r
  | _ => none

/-- What has happened in a run, in order, by the calls that were made. -/
def happened (s₀ : State) (as : List Act) : List Event :=
  (history s₀ as).filterMap FdCall.event

namespace Event

/-- The descriptor. -/
def fd : Event → Int
  | .accepted fd | .read fd _ | .wrote fd | .writeFailed fd => fd

/-- A read whose bytes, cut at the first zero byte, are the key. -/
def asks (k : Key) : Event → Bool
  | .read _ data => data.takeWhile (· ≠ 0) = k
  | _ => false

def isRead : Event → Bool
  | .read _ _ => true
  | _ => false

def isWrote : Event → Bool
  | .wrote _ => true
  | _ => false

def isWriteFailed : Event → Bool
  | .writeFailed _ => true
  | _ => false

end Event

/-- The successful reads of a key. -/
def requests (k : Key) (es : List Event) : Nat := es.countP (Event.asks k)

/-- What has happened to `fd` since it was accepted last. -/
def sinceAccept (fd : Int) (es : List Event) : List Event :=
  (es.reverse.takeWhile (· ≠ .accepted fd)).filter (·.fd = fd)

def reads (fd : Int) (es : List Event) : Nat := (sinceAccept fd es).countP Event.isRead

def writes (fd : Int) (es : List Event) : Nat := (sinceAccept fd es).countP Event.isWrote

/-- The sum of all counters. -/
def State.total (s : State) : Nat := s.serviceKey.sum fun _ n => n

/-- The descriptors that wait to be written. -/
def State.waiting (s : State) : Nat := s.interest.sum fun _ e => if e.1 = EPOLLOUT then 1 else 0

section

variable {s t : State} {fd : Int} {event : Events} {r : Results} {es : List Event} {e : Event}

theorem requests_append (k : Key) (es es' : List Event) :
    requests k (es ++ es') = requests k es + requests k es' :=
  List.countP_append

theorem requests_read (k : Key) (es : List Event) (fd : Int) (data : List Byte) :
    requests k (es ++ [.read fd data]) =
      requests k es + if data.takeWhile (· ≠ 0) = k then 1 else 0 := by
  rw [requests_append, requests, requests, List.countP_singleton]
  simp [Event.asks]

theorem sinceAccept_accepted (fd : Int) (es : List Event) :
    sinceAccept fd (es ++ [.accepted fd]) = [] := by
  simp [sinceAccept]

theorem sinceAccept_own (hown : e.fd = fd) (hnot : e ≠ .accepted fd) (es : List Event) :
    sinceAccept fd (es ++ [e]) = e :: sinceAccept fd es := by
  simp [sinceAccept, hown, hnot]

theorem sinceAccept_other (hother : fd ≠ e.fd) (es : List Event) :
    sinceAccept fd (es ++ [e]) = sinceAccept fd es := by
  have hnot : e ≠ .accepted fd := by
    rintro rfl
    exact hother rfl
  simp [sinceAccept, hnot, Ne.symm hother]

/-! ## 2. The invariant -/

/-- The mode of a descriptor says whether it is owed a reply. -/
def Alternates (es : List Event) (fd : Int) (mask : Events) : Prop :=
  mask = EPOLLIN ∧ reads fd es = writes fd es ∨ mask = EPOLLOUT ∧ reads fd es = writes fd es + 1

/-- What a well-formed server knows of its history. -/
structure Counted (s : State) (es : List Event) : Prop where
  counts : ∀ k, s.serviceKey.find k = if requests k es = 0 then none else some (requests k es)
  modes : ∀ fd mask data, s.interest.find fd = some (mask, data) → Alternates es fd mask
  total : s.total = es.countP Event.isWrote + s.waiting + es.countP Event.isWriteFailed

theorem Alternates.other {fd' : Int} {mask : Events} (h : Alternates es fd' mask)
    (hfd : fd' ≠ e.fd) : Alternates (es ++ [e]) fd' mask := by
  unfold Alternates reads writes at *
  rwa [sinceAccept_other hfd]

theorem Alternates.accepted (fd : Int) (es : List Event) :
    Alternates (es ++ [.accepted fd]) fd EPOLLIN := by
  unfold Alternates reads writes
  rw [sinceAccept_accepted]
  exact .inl ⟨rfl, rfl⟩

theorem Alternates.read (h : Alternates es fd EPOLLIN) (data : List Byte) :
    Alternates (es ++ [.read fd data]) fd EPOLLOUT := by
  have hown : Event.fd (.read fd data) = fd := rfl
  unfold Alternates reads writes at *
  rw [sinceAccept_own hown (by simp)]
  rcases h with ⟨-, heven⟩ | ⟨hout, -⟩
  · refine .inr ⟨rfl, ?_⟩
    rw [List.countP_cons, List.countP_cons, heven]
    rfl
  · cases hout

theorem Alternates.wrote (h : Alternates es fd EPOLLOUT) :
    Alternates (es ++ [.wrote fd]) fd EPOLLIN := by
  have hown : Event.fd (.wrote fd) = fd := rfl
  unfold Alternates reads writes at *
  rw [sinceAccept_own hown (by simp)]
  rcases h with ⟨hin, -⟩ | ⟨-, hodd⟩
  · cases hin
  · refine .inl ⟨rfl, ?_⟩
    rw [List.countP_cons, List.countP_cons, hodd]
    rfl

theorem Counted.getD (hc : Counted s es) (k : Key) :
    (s.serviceKey.find k).getD 0 = requests k es := by
  rw [hc.counts]
  split
  · next hzero => exact hzero.symm
  · rfl

theorem Counted.counts_logged {e : Option Event} (hc : Counted s es)
    (h : Logged s fd event r e t) (k : Key) :
    t.serviceKey.find k = if requests k (es ++ e.toList) = 0 then none
      else some (requests k (es ++ e.toList)) := by
  cases h with
  | read data value hvalue hmode =>
    rw [hc.getD] at hvalue
    rw [Option.toList_some, requests_read, Table.find_insert, hvalue]
    by_cases hk : k = data.takeWhile (· ≠ 0)
    · rw [if_pos hk, if_pos hk.symm, if_neg (Nat.succ_ne_zero _), hk]
    · rw [if_neg hk, if_neg (Ne.symm hk)]
      exact hc.counts k
  | accepted hnonneg hnew =>
    rw [requests_append]
    exact hc.counts k
  | wrote n hsends hwrote hn hmode =>
    rw [requests_append]
    exact hc.counts k
  | writeFailed hmode =>
    rw [requests_append]
    exact hc.counts k
  | removed openFds hopen hmode =>
    rw [requests_append]
    exact hc.counts k
  | idle =>
    rw [requests_append]
    exact hc.counts k

/-- An event on one descriptor gives it a new mode. -/
theorem Counted.insert (hc : Counted s es) {fd' : Int} {mode : Events × Int} {mask : Events}
    {data : Int} (hfind : Table.find (s.interest.insert e.fd mode) fd' = some (mask, data))
    (hmode : Alternates (es ++ [e]) e.fd mode.1) : Alternates (es ++ [e]) fd' mask := by
  rw [Table.find_insert] at hfind
  split at hfind
  · next heq =>
    cases hfind
    rw [heq]
    exact hmode
  · next hne => exact (hc.modes fd' mask data hfind).other hne

theorem Counted.modes_logged {e : Option Event} (hc : Counted s es)
    (h : Logged s fd event r e t) {fd' : Int} {mask : Events} {data : Int}
    (hfind : t.interest.find fd' = some (mask, data)) :
    Alternates (es ++ e.toList) fd' mask := by
  cases h with
  | accepted hnonneg hnew => exact hc.insert hfind (.accepted _ es)
  | read bytes value hvalue hmode => exact hc.insert hfind ((hc.modes fd _ _ hmode).read bytes)
  | wrote n hsends hwrote hn hmode => exact hc.insert hfind (hc.modes fd _ _ hmode).wrote
  | writeFailed hmode =>
    rw [Table.find_erase] at hfind
    split at hfind
    · cases hfind
    · next hne => exact (hc.modes fd' mask data hfind).other hne
  | removed openFds hopen hmode =>
    rw [Table.find_erase] at hfind
    split at hfind
    · cases hfind
    · rw [Option.toList_none, List.append_nil]
      exact hc.modes fd' mask data hfind
  | idle =>
    rw [Option.toList_none, List.append_nil]
    exact hc.modes fd' mask data hfind

/-- The readers of a request wait, until one of two things ends it. -/
theorem Logged.waiting {e : Option Event} (hs : Wf s) (h : Logged s fd event r e t) :
    s.waiting + e.toList.countP Event.isRead =
      t.waiting + e.toList.countP Event.isWrote + e.toList.countP Event.isWriteFailed := by
  have hin : EPOLLIN ≠ EPOLLOUT := by decide
  unfold State.waiting
  cases h with
  | accepted hnonneg hnew =>
    have hnone : s.interest.find r.accept = none :=
      Option.eq_none_iff_forall_ne_some.mpr fun x hx => hnew (hs.entry _ x.1 x.2 hx).1
    rw [Table.sum_insert, Table.erase_of_find_none hnone, if_neg hin, Nat.zero_add]
    rfl
  | read data value hvalue hmode =>
    rw [Table.sum_insert, Table.sum_of_find hmode, if_pos rfl, if_neg hin, Nat.zero_add]
    exact Nat.add_comm _ _
  | wrote n hsends hwrote hn hmode =>
    rw [Table.sum_insert, Table.sum_of_find hmode, if_pos rfl, if_neg hin, Nat.zero_add]
    show 1 + _ + 0 = _ + 1 + 0
    omega
  | writeFailed hmode =>
    rw [Table.sum_of_find hmode, if_pos rfl]
    show 1 + _ + 0 = Table.sum _ (s.interest.erase fd) + 0 + 1
    omega
  | removed openFds hopen hmode =>
    rw [Table.sum_of_find hmode, if_neg hin, Nat.zero_add]
    rfl
  | idle => rfl

theorem Logged.total {e : Option Event} (h : Logged s fd event r e t) :
    t.total = s.total + e.toList.countP Event.isRead := by
  unfold State.total
  cases h with
  | read data value hvalue hmode =>
    rw [Table.sum_insert, hvalue]
    cases hfind : s.serviceKey.find (data.takeWhile (· ≠ 0)) with
    | none =>
      rw [Table.erase_of_find_none hfind]
      exact Nat.add_comm _ _
    | some v =>
      rw [Table.sum_of_find hfind]
      exact Nat.add_right_comm _ _ _
  | accepted hnonneg hnew => rfl
  | wrote n hsends hwrote hn hmode => rfl
  | writeFailed hmode => rfl
  | removed openFds hopen hmode => rfl
  | idle => rfl

theorem Counted.logged {e : Option Event} (hs : Wf s) (hc : Counted s es)
    (h : Logged s fd event r e t) : Counted t (es ++ e.toList) := by
  refine ⟨hc.counts_logged h, fun _ _ _ => hc.modes_logged h, ?_⟩
  have hwaiting := h.waiting hs
  have htotal := hc.total
  rw [h.total, List.countP_append, List.countP_append]
  omega

/-- A failed write closes a descriptor that waits to be written. -/
theorem Logged.closes (h : Logged s fd event r (some (.writeFailed fd)) t) :
    s.interest.find fd = some (EPOLLOUT, fd) ∧ t.interest.find fd = none ∧
      t.openFds = s.openFds.erase fd := by
  cases h with
  | writeFailed hmode =>
    refine ⟨hmode, ?_, rfl⟩
    rw [Table.find_erase, if_pos rfl]

/-! ## 3. Runs -/

theorem handleReadfdCalls_event (r : Buffer.ReadResult) :
    (handleReadfdCalls fd r).filterMap FdCall.event = (readEvent fd r).toList := by
  unfold handleReadfdCalls
  cases r with
  | bytes data => cases data <;> rfl
  | error errno =>
    dsimp only
    split <;> rfl

theorem handleSendFdCalls_event (r : WriteResult) :
    (handleSendFdCalls fd r).filterMap FdCall.event = (writeEvent fd r).toList := by
  unfold handleSendFdCalls
  cases r with
  | wrote n =>
    by_cases hn : n > 0 <;> simp [hn, FdCall.event, writeEvent]
  | error errno =>
    by_cases heagain : errno = EAGAIN <;> simp [heagain, FdCall.event, writeEvent]

theorem ltModelCalls_event :
    (ltModelCalls s.listenfd fd event r).filterMap FdCall.event =
      (s.happens fd event r).toList := by
  unfold ltModelCalls State.happens
  split_ifs with hfd haccept hread hnil hwrite
  · simp [handleListenFdCalls, FdCall.event, haccept]
  · simp [handleListenFdCalls, FdCall.event, haccept]
  · rw [List.filterMap_append, handleReadfdCalls_event]
    exact List.append_nil _
  · rw [List.append_nil, handleReadfdCalls_event]
  · exact handleSendFdCalls_event _
  · rfl

/-- The server knows what has happened, as long as no counter is full. -/
def Tracks (s : State) (h : List FdCall) : Prop :=
  Wf s ∧ (Counted s (h.filterMap FdCall.event) ∨
    ∃ k, 2 ^ 31 ≤ requests k (h.filterMap FdCall.event))

theorem step_counted {h : List FdCall} {a : Act} (hs : Wf s)
    (hc : Counted s (h.filterMap FdCall.event)) (hstep : machine.step s a = some t) :
    Counted t ((h ++ s.calls a).filterMap FdCall.event) ∨
      ∃ k, 2 ^ 31 ≤ requests k ((h ++ s.calls a).filterMap FdCall.event) := by
  rw [List.filterMap_append]
  obtain ⟨⟨-, hg⟩, rfl⟩ := Trans.Machine.guarded_step.mp hstep
  cases a with
  | wait events =>
    left
    rw [State.calls, List.filterMap_nil, List.append_nil]
    exact ⟨hc.counts, hc.modes, hc.total⟩
  | next r =>
    obtain ⟨⟨fd, event⟩, rest, hbatch⟩ := List.exists_cons_of_ne_nil hg.1
    have hwf := (hs.next hbatch).1
    have hcounted : Counted { s with batch := rest } (h.filterMap FdCall.event) :=
      ⟨hc.counts, hc.modes, hc.total⟩
    unfold effect State.calls
    simp only [hbatch]
    cases hmodel : ltModel { s with batch := rest } fd event r with
    | ok u =>
      have hreports := hs.reports (fd, event) (hbatch ▸ List.mem_cons_self)
      left
      rw [ltModelCalls_event]
      exact hcounted.logged hwf (ltModel_logged hwf hreports hg.2 hmodel)
    | error e =>
      obtain ⟨-, data, value, hdata, hread, hfind, hfull⟩ := ltModel_error hmodel
      have hevent : [FdCall.read fd r.read].filterMap FdCall.event = [.read fd data] := by
        simp [FdCall.event, hread, readEvent, hdata]
      have hvalue := hcounted.getD (data.takeWhile (· ≠ 0))
      rw [hfind, Option.getD_some] at hvalue
      refine .inr ⟨data.takeWhile (· ≠ 0), ?_⟩
      rw [hevent, requests_read, if_pos rfl, ← hvalue]
      exact hfull

theorem Tracks.step {h : List FdCall} {a : Act} (ht : Tracks s h)
    (hstep : machine.step s a = some t) : Tracks t (h ++ s.calls a) := by
  obtain ⟨hs, hc | ⟨k, hk⟩⟩ := ht
  · exact ⟨hs.stepped (step_stepped hs hstep), step_counted hs hc hstep⟩
  · refine ⟨hs.stepped (step_stepped hs hstep), .inr ⟨k, hk.trans ?_⟩⟩
    rw [List.filterMap_append, requests_append]
    exact Nat.le_add_right _ _

theorem Counted.start (listenfd : Int) : Counted (start listenfd) [] := by
  refine ⟨fun k => rfl, fun fd mask data hfind => ?_, rfl⟩
  rw [PollingServer.start, Table.find_insert, Table.find_empty] at hfind
  split at hfind
  · cases hfind
    exact .inl ⟨rfl, rfl⟩
  · cases hfind

/-- In every run whose counters fit in an `int`: each counter is the number of the
reads of its key, a descriptor waits for `EPOLLOUT` exactly while it has one more
read than writes, and the counters add up to the replies that were written, are
awaited, or failed. -/
theorem requests_counted {s₀ : State} {as : List Act} (hinit : machine.init s₀)
    (hrun : machine.run s₀ as = some s) (hfits : ∀ k, requests k (happened s₀ as) < 2 ^ 31) :
    (∀ k, s.serviceKey.find k = if requests k (happened s₀ as) = 0 then none
      else some (requests k (happened s₀ as))) ∧
    (∀ fd mask data, s.interest.find fd = some (mask, data) →
      mask = EPOLLIN ∧ reads fd (happened s₀ as) = writes fd (happened s₀ as) ∨
      mask = EPOLLOUT ∧ reads fd (happened s₀ as) = writes fd (happened s₀ as) + 1) ∧
    s.total = (happened s₀ as).countP Event.isWrote + s.waiting +
      (happened s₀ as).countP Event.isWriteFailed := by
  obtain ⟨listenfd, hnonneg, rfl⟩ := hinit
  have htracks : Tracks s (history (start listenfd) as) := by
    rw [history_eq]
    exact Trans.Machine.recorded_invariant (I := Tracks) (fun _ _ _ _ ht => ht.step)
      ⟨.start hnonneg, .inl (.start listenfd)⟩ hrun
  obtain ⟨-, hc | ⟨k, hk⟩⟩ := htracks
  · exact ⟨hc.counts, hc.modes, hc.total⟩
  · exact absurd (hfits k) (Nat.not_lt_of_le hk)

/-- A client asks for `a` twice and is gone at the second reply, and its number is
accepted again. -/
def reconnect : List Act :=
  [.wait [(3, EPOLLIN)], .next ⟨5, .error EAGAIN, .error EAGAIN⟩,
    .wait [(5, EPOLLIN)], .next ⟨-1, .bytes [97, 0, 98], .error EAGAIN⟩,
    .wait [(5, EPOLLOUT)], .next ⟨-1, .error EAGAIN, .error EAGAIN⟩,
    .wait [(5, EPOLLOUT)], .next ⟨-1, .error EAGAIN, .wrote 1⟩,
    .wait [(5, EPOLLIN)], .next ⟨-1, .bytes [97], .error EAGAIN⟩,
    .wait [(5, EPOLLOUT)], .next ⟨-1, .error EAGAIN, .error 104⟩,
    .wait [(3, EPOLLIN)], .next ⟨5, .error EAGAIN, .error EAGAIN⟩,
    .wait [(5, EPOLLIN)], .next ⟨-1, .bytes [97], .error EAGAIN⟩]

theorem reconnect_happened : happened (start 3) reconnect =
    [.accepted 5, .read 5 [97, 0, 98], .wrote 5, .read 5 [97], .writeFailed 5, .accepted 5,
      .read 5 [97]] := by
  decide +kernel

theorem reconnect_counted : ∃ s, machine.run (start 3) reconnect = some s ∧
    s.serviceKey.find [97] = some 3 ∧ s.total = 1 + s.waiting + 1 ∧
    ∀ mask data, s.interest.find 5 = some (mask, data) → mask = EPOLLOUT := by
  have hruns : (machine.run (start 3) reconnect).isSome := by decide +kernel
  obtain ⟨s, hrun⟩ := Option.isSome_iff_exists.mp hruns
  have hfits : ∀ k, requests k (happened (start 3) reconnect) < 2 ^ 31 := by
    intro k
    rw [reconnect_happened]
    exact List.countP_le_length.trans_lt (by decide)
  obtain ⟨hcounts, hmodes, htotal⟩ := requests_counted ⟨3, by decide, rfl⟩ hrun hfits
  rw [reconnect_happened] at hcounts hmodes htotal
  refine ⟨s, hrun, hcounts [97], htotal, fun mask data hfind => ?_⟩
  rcases hmodes 5 mask data hfind with ⟨-, heven⟩ | ⟨hout, -⟩
  · exact absurd heven (by decide)
  · exact hout

end

end PollingServer

end NetFrame
