import NetFrame.ByteDeque
import NetFrame.Connection

/-!
# The input of a connection

`readFd` reads with one `readv` into the writable part of the buffer and an
extra buffer on the stack, and appends what spilled. Seen from outside it is an
`append` of the bytes that were delivered.

Results:
1. `Buffer.readFd_spec`: `readFd` against `append`, for every result of `readv`.
2. `scatter_read_is_append`: with a message callback that only retrieves, the
   bytes retrieved so far followed by the readable bytes are the bytes received,
   over any sequence of `handleRead` calls.
-/

namespace NetFrame

open Trans

namespace Buffer

/-! ## 1. `readFd` as an append -/

/-- A bound that every `std::vector<char>` keeps (`max_size()`). -/
def maxSize : Nat := 2 ^ 63

namespace ReadResult

/-- The bytes that `readv` delivers. -/
def data : ReadResult → List Byte
  | .error _ => []
  | .bytes data => data

/-- What `readv` returns. -/
def count : ReadResult → Int
  | .error _ => -1
  | .bytes data => data.length

/-- `readv` fills at most the writable part of `b` and the 65536 bytes of
`extrabuf`. -/
def Fits (b : Buffer) (r : ReadResult) : Prop := r.data.length ≤ b.writableBytes + 65536

instance (b : Buffer) (r : ReadResult) : Decidable (r.Fits b) :=
  inferInstanceAs (Decidable (_ ≤ _))

end ReadResult

section
variable {b b' : Buffer} {r : ReadResult} {n : Int} {e : Option Int}

/-- A `readFd` that returns is an append of what `readv` delivered, and sets
`*savedErrno` exactly when `readv` failed. -/
theorem readFd_spec (hb : b.Inv) (h : b.readFd r = .ok (b', n, e)) :
    b'.Inv ∧ b'.content = b.content ++ r.data ∧ n = r.count ∧ (e.isSome ↔ n < 0) := by
  cases r with
  | error errno =>
    cases h
    exact ⟨hb, (List.append_nil _).symm, rfl, by simp⟩
  | bytes data =>
    obtain ⟨hinv, hcontent, rfl⟩ := readFd_ok hb h
    have hn : ¬((data.length : Int) < 0) := by omega
    exact ⟨hinv, hcontent, rfl, by simp [(readFd_result h).2, hn]⟩

/-- `readFd` returns what `readv` returns, also without the invariant. -/
theorem readFd_count (h : b.readFd r = .ok (b', n, e)) : n = r.count := by
  cases r with
  | error errno =>
    cases h
    rfl
  | bytes data => exact (readFd_result h).1

theorem ReadResult.count_eq_zero : r.count = 0 ↔ r = .bytes [] := by
  cases r with
  | error errno => simp [ReadResult.count]
  | bytes data => simp [ReadResult.count]

/-- `readFd` returns on every vector that there can be. -/
theorem readFd_total (hb : b.Inv) (hsize : b.buffer.length < maxSize) (hr : r.Fits b) :
    ∃ res, b.readFd r = .ok res := by
  cases r with
  | error errno => exact ⟨_, rfl⟩
  | bytes data =>
    refine readFd_returns hb ?_
    have hspill : data.length - b.writableBytes ≤ 65536 := Nat.sub_le_iff_le_add'.mpr hr
    have hmax : maxSize + 65536 + kCheapPrepend < sizeMod := by decide
    omega

/-! ## 2. Retrieving -/

/-- The operations that only retrieve. -/
def Op.retrieves : Op → Bool
  | .retrieve _ | .retrieveUntil _ | .retrieveInt32 | .retrieveInt16 | .retrieveInt8
  | .retrieveAll | .retrieveAsString _ | .retrieveAllAsString => true
  | _ => false

abbrev Retrieval := { op : Op // op.retrieves = true }

/-- The bytes that an operation takes from `b`, where `out` is what it returns. -/
def retrievedBy (b : Buffer) (out : List Byte) : Op → List Byte
  | .retrieve len => b.content.take len
  | .retrieveUntil offset => b.content.take offset
  | .retrieveInt32 => b.content.take 4
  | .retrieveInt16 => b.content.take 2
  | .retrieveInt8 => b.content.take 1
  | .retrieveAll => b.content
  | .retrieveAsString _ | .retrieveAllAsString => out
  | _ => []

theorem demand_ne_grow {op : Op} (hop : op.retrieves = true) (len : Nat) :
    op.demand ≠ .grow len := by
  cases op <;> simp_all [Op.retrieves, Op.demand]

/-- A retrieval moves bytes from the front of the buffer to the caller. -/
theorem retrieval_spec {o : ByteOrder} {op : Op} {out : List Byte} (hb : b.Inv)
    (hop : op.retrieves = true) (h : execOp o b op = .ok (b', out)) :
    b'.Inv ∧ retrievedBy b out op ++ b'.content = b.content := by
  have hmeets : b.Meets op.demand := by
    obtain ⟨data, hdemand, -⟩ | ⟨len, hdemand, -⟩ | hother := execOp_cases o b op
    · exact absurd hdemand (demand_ne_grow hop _)
    · exact absurd hdemand (demand_ne_grow hop _)
    · exact (hother b' out h).2 hb
  obtain ⟨b₁, hok, hbec⟩ := execOp_implements o hb op hmeets
  rw [h] at hok
  cases hok
  refine ⟨hbec.inv, ?_⟩
  rw [hbec.content]
  cases op with
  | retrieve len => exact List.take_append_drop _ _
  | retrieveUntil offset => exact List.take_append_drop _ _
  | retrieveInt32 => exact List.take_append_drop _ _
  | retrieveInt16 => exact List.take_append_drop _ _
  | retrieveInt8 => exact List.take_append_drop _ _
  | retrieveAll => exact List.append_nil _
  | retrieveAsString len => exact List.take_append_drop _ _
  | retrieveAllAsString => exact List.append_nil _
  | _ => cases hop

end

end Buffer

open Buffer

/-! ## 3. Runs of `handleRead` -/

/-- A call of `handleRead`: what `readv` returns, and the retrievals that the
message callback makes if it is called. -/
structure ReadCall where
  result : ReadResult
  callback : List Retrieval

/-- A connection, with the bytes its descriptor has delivered and those that the
message callback has retrieved. -/
structure InputStream (H : Type) where
  conn : TcpConnection H
  received : List Byte
  retrieved : List Byte

namespace InputStream

variable {H : Type}

def start (c : TcpConnection H) : InputStream H := ⟨c, [], []⟩

/-- One operation of the message callback on `m_inputBuffer`. -/
def retrieve (o : ByteOrder) (s : InputStream H) (op : Retrieval) :
    Except Fault (InputStream H) := do
  let (b, out) ← execOp o s.conn.inputBuffer op
  return { s with
    conn := { s.conn with inputBuffer := b }
    retrieved := s.retrieved ++ retrievedBy s.conn.inputBuffer out op }

def messageCB (o : ByteOrder) (s : InputStream H) (ops : List Retrieval) :
    Except Fault (InputStream H) := ops.foldlM (retrieve o) s

/-- Every byte received has been retrieved or is readable, in order. -/
structure Conserved (s : InputStream H) : Prop where
  wf : s.conn.Wf
  bytes : s.retrieved ++ s.conn.inputBuffer.content = s.received

section
variable {o : ByteOrder} {s s' : InputStream H} {ops : List Retrieval}

theorem retrieve_conserves (op : Retrieval) (hs : s.Conserved) (h : s.retrieve o op = .ok s') :
    s'.Conserved ∧ s'.received = s.received := by
  obtain ⟨⟨b, out⟩, hexec, hret⟩ := bind_ok.mp h
  obtain ⟨hinv, hbytes⟩ := retrieval_spec hs.wf.input op.2 hexec
  cases hret
  refine ⟨⟨⟨hs.wf.sound, hinv, hs.wf.output⟩, ?_⟩, rfl⟩
  show (s.retrieved ++ _) ++ b.content = s.received
  rw [List.append_assoc, hbytes, hs.bytes]

theorem messageCB_conserves (hs : s.Conserved) (h : s.messageCB o ops = .ok s') :
    s'.Conserved ∧ s'.received = s.received := by
  induction ops generalizing s with
  | nil =>
    cases h
    exact ⟨hs, rfl⟩
  | cons op ops ih =>
    rw [messageCB, List.foldlM_cons] at h
    obtain ⟨s₁, hop, hrest⟩ := bind_ok.mp h
    obtain ⟨hs₁, hrec⟩ := retrieve_conserves _ hs hop
    obtain ⟨hs', hrec'⟩ := ih hs₁ hrest
    exact ⟨hs', hrec'.trans hrec⟩

theorem messageCB_returns (hs : s.Conserved)
    (hl : LegalOps (execOp o) (fun b op => b.Meets op.demand) s.conn.inputBuffer
      (ops.map Subtype.val)) : ∃ s', s.messageCB o ops = .ok s' := by
  induction ops generalizing s with
  | nil => exact ⟨s, rfl⟩
  | cons op ops ih =>
    obtain ⟨b, hok, -⟩ := execOp_implements o hs.wf.input op.1 hl.1
    have hret := bind_ok_eq (f := fun r : Buffer × List Byte => (Except.ok { s with
      conn := { s.conn with inputBuffer := r.1 }
      retrieved := s.retrieved ++ retrievedBy s.conn.inputBuffer r.2 op } : Except Fault _)) hok
    have hs₁ := (retrieve_conserves op hs hret).1
    obtain ⟨s', hs'⟩ := ih hs₁ (hl.2 _ _ hok)
    refine ⟨s', ?_⟩
    rw [messageCB, List.foldlM_cons]
    exact (bind_ok_eq hret).trans hs'

end

section
variable [DecidableEq H] (o : ByteOrder)

def handleRead (s : InputStream H) (call : ReadCall) : Except Fault (InputStream H × Unit) := do
  let c ← s.conn.handleRead call.result
  let s₁ := { s with conn := c, received := s.received ++ call.result.data }
  if c.upcalls = s.conn.upcalls ++ [.messageCB] then return (← s₁.messageCB o call.callback, ())
  else return (s₁, ())

/-- The conditions under which a call is sure to return: those of `readv` and of
`std::vector`, the assertion of `handleClose`, and the demands of the callback's
retrievals. -/
def Legal (s : InputStream H) (call : ReadCall) : Prop :=
  call.result.Fits s.conn.inputBuffer ∧ s.conn.inputBuffer.buffer.length < maxSize ∧
  (call.result.data = [] → s.conn.state = .kConnected ∨ s.conn.state = .kDisconnecting) ∧
  match s.conn.handleRead call.result with
  | .ok c => LegalOps (execOp o) (fun b op => b.Meets op.demand) c.inputBuffer
      (call.callback.map Subtype.val)
  | .error _ => True

instance (s : InputStream H) (call : ReadCall) : Decidable (Legal o s call) := by
  unfold Legal
  cases s.conn.handleRead call.result <;> infer_instance

variable {o} {s s' : InputStream H} {call : ReadCall} {c c' : TcpConnection H} {r : ReadResult}

/-- `TcpConnection::handleRead` adds what was delivered to the input buffer. -/
theorem conn_handleRead (hc : c.Wf) (h : c.handleRead r = .ok c') :
    c'.Wf ∧ c'.inputBuffer.content = c.inputBuffer.content ++ r.data := by
  obtain ⟨⟨b, n, e⟩, hread, hrest⟩ := bind_ok.mp h
  obtain ⟨hinv, hcontent, -, -⟩ := readFd_spec hc.input hread
  have hc₁ : TcpConnection.Wf { c with inputBuffer := b } := ⟨hc.sound, hinv, hc.output⟩
  dsimp only at hrest
  split_ifs at hrest
  · cases hrest
    exact ⟨⟨hc.sound, hinv, hc.output⟩, hcontent⟩
  · obtain ⟨-, p, rfl, hl⟩ := TcpConnection.handleClose_ok hc₁.placed hrest
    exact ⟨⟨hl.sound hc.sound, hinv, hc.output⟩, hcontent⟩
  · cases hrest
    exact ⟨hc₁, hcontent⟩

theorem conn_handleRead_returns (hc : c.Wf) (hr : r.Fits c.inputBuffer)
    (hsize : c.inputBuffer.buffer.length < maxSize)
    (hst : r.data = [] → c.state = .kConnected ∨ c.state = .kDisconnecting) :
    ∃ c', c.handleRead r = .ok c' := by
  obtain ⟨⟨b, n, e⟩, hread⟩ := readFd_total hc.input hsize hr
  obtain ⟨-, -, hn, -⟩ := readFd_spec hc.input hread
  unfold TcpConnection.handleRead
  rw [bind_ok_eq hread]
  dsimp only
  split_ifs with hpos hzero
  · exact ⟨_, rfl⟩
  · have hnil : r.data = [] := by
      cases r with
      | error errno => rfl
      | bytes data =>
        rw [hn] at hzero
        exact List.length_eq_zero_iff.mp (Int.natCast_eq_zero.mp hzero)
    obtain ⟨p, hok, -⟩ := TcpConnection.handleClose_spec (c := { c with inputBuffer := b })
      hc.placed (hst hnil)
    exact ⟨_, hok⟩
  · exact ⟨_, rfl⟩

theorem received_conserves (hs : s.Conserved) (h : s.conn.handleRead r = .ok c) :
    Conserved ⟨c, s.received ++ r.data, s.retrieved⟩ := by
  obtain ⟨hwf, hcontent⟩ := conn_handleRead hs.wf h
  refine ⟨hwf, ?_⟩
  show s.retrieved ++ c.inputBuffer.content = _
  rw [hcontent, ← List.append_assoc, hs.bytes]

/-- One call that returns keeps every byte received. -/
theorem handleRead_conserves (hs : s.Conserved) (h : s.handleRead o call = .ok (s', ())) :
    s'.Conserved ∧ s'.received = s.received ++ call.result.data := by
  obtain ⟨c, hread, hrest⟩ := bind_ok.mp h
  have hs₁ := received_conserves hs hread
  dsimp only at hrest
  split_ifs at hrest
  · obtain ⟨s₂, hcb, hret⟩ := bind_ok.mp hrest
    cases hret
    exact messageCB_conserves hs₁ hcb
  · cases hrest
    exact ⟨hs₁, rfl⟩

theorem handleRead_returns (hs : s.Conserved) (hl : s.Legal o call) :
    ∃ s', s.handleRead o call = .ok (s', ()) := by
  obtain ⟨hfits, hsize, hst, hcallback⟩ := hl
  obtain ⟨c, hread⟩ := conn_handleRead_returns hs.wf hfits hsize hst
  have hs₁ := received_conserves hs hread
  rw [hread] at hcallback
  unfold handleRead
  rw [bind_ok_eq hread]
  dsimp only
  split_ifs
  · obtain ⟨s₂, hcb⟩ := messageCB_returns (o := o) hs₁ hcallback
    exact ⟨s₂, bind_ok_eq hcb⟩
  · exact ⟨_, rfl⟩

theorem run_conserves {calls : List ReadCall} {out : List Unit} (hs : s.Conserved)
    (h : runOps (handleRead o) s calls = .ok (s', out)) :
    s'.Conserved ∧ s'.received = s.received ++ calls.flatMap fun call => call.result.data := by
  induction calls generalizing s out with
  | nil =>
    cases h
    exact ⟨hs, (List.append_nil _).symm⟩
  | cons call calls ih =>
    obtain ⟨s₁, r, rs, hcall, hrest, -⟩ := runOps_cons_ok h
    obtain ⟨hs₁, hrec⟩ := handleRead_conserves hs hcall
    obtain ⟨hs', hrec'⟩ := ih hs₁ hrest
    exact ⟨hs', by rw [hrec', hrec, List.append_assoc, List.flatMap_cons]⟩

theorem run_returns {calls : List ReadCall} (hs : s.Conserved)
    (hl : LegalOps (handleRead o) (Legal o) s calls) :
    ∃ s' out, runOps (handleRead o) s calls = .ok (s', out) := by
  refine runOps_returns (I := Conserved) (fun s call hs hcall => ?_) hs hl
  obtain ⟨s', hok⟩ := handleRead_returns hs hcall
  exact ⟨s', (), hok, (handleRead_conserves hs hok).1⟩

end

end InputStream

/-! ## 4. The two results together -/

open InputStream

/-- A `readFd` on a sound buffer returns, whatever `readv` does, and is an append
of the bytes delivered. From an established connection on, a run of `handleRead`
calls returns when its calls are legal; and at the end of every run that returns,
the bytes retrieved followed by the readable bytes are those received. -/
theorem scatter_read_is_append {H : Type} [DecidableEq H] :
    (∀ (b : Buffer) (r : ReadResult), b.Inv → r.Fits b →
      (b.buffer.length < maxSize → ∃ res, b.readFd r = .ok res) ∧
      ∀ b' n e, b.readFd r = .ok (b', n, e) →
        b'.Inv ∧ b'.content = b.content ++ r.data ∧ n = r.count ∧ (e.isSome ↔ n < 0) ∧
        (n ≤ 0 → b'.content = b.content) ∧
        ∀ b'', b.append r.data = .ok b'' → b''.content = b'.content) ∧
    ∀ (o : ByteOrder) (c : TcpConnection H), c.Established → ∀ calls : List ReadCall,
      (LegalOps (handleRead o) (Legal o) (start c) calls →
        ∃ s out, runOps (handleRead o) (start c) calls = .ok (s, out)) ∧
      ∀ s out, runOps (handleRead o) (start c) calls = .ok (s, out) →
        s.retrieved ++ s.conn.inputBuffer.content = s.received ∧
        s.received = calls.flatMap fun call => call.result.data := by
  refine ⟨fun b r hb hr => ⟨fun hsize => readFd_total hb hsize hr, fun b' n e h => ?_⟩,
    fun o c hc calls => ?_⟩
  · obtain ⟨hinv, hcontent, hn, he⟩ := readFd_spec hb h
    refine ⟨hinv, hcontent, hn, he, fun hle => ?_, fun b'' happ => ?_⟩
    · have hnil : r.data = [] := by
        cases r with
        | error errno => rfl
        | bytes data =>
          simpa [hn, ReadResult.count, ReadResult.data] using hle
      rw [hcontent, hnil, List.append_nil]
    · exact (append_ok hb happ).2.trans hcontent.symm
  · have hstart : (start c).Conserved := by
      refine ⟨(TcpConnection.established_spec hc).inv.toWf, ?_⟩
      show [] ++ c.inputBuffer.content = []
      rw [TcpConnection.established_input hc, content_fresh, List.append_nil]
    refine ⟨fun hl => run_returns hstart hl, fun s out hrun => ?_⟩
    obtain ⟨hs, hrec⟩ := run_conserves hstart hrun
    exact ⟨hs.bytes, hrec⟩

/-- Two deliveries of which the callback leaves one byte, a failed `readv`, and
the peer's close. -/
def someReads : List ReadCall :=
  [⟨.bytes [1, 2, 3], [⟨.retrieve 2, rfl⟩]⟩, ⟨.error 11, []⟩,
    ⟨.bytes (List.replicate 1030 7), [⟨.retrieveAsString 3, rfl⟩, ⟨.retrieveInt16, rfl⟩]⟩,
    ⟨.bytes [], []⟩]

theorem someReads_conserved :
    ∃ s out, runOps (handleRead .little) (start TcpConnection.anEstablished) someReads =
        .ok (s, out) ∧
      s.retrieved ++ s.conn.inputBuffer.content = [1, 2, 3] ++ List.replicate 1030 7 := by
  obtain ⟨hreturns, hconserved⟩ := scatter_read_is_append.2 .little TcpConnection.anEstablished
    TcpConnection.anEstablished_established someReads
  obtain ⟨s, out, hrun⟩ := hreturns (by decide +kernel)
  obtain ⟨hbytes, hrec⟩ := hconserved s out hrun
  refine ⟨s, out, hrun, hbytes.trans (hrec.trans ?_)⟩
  decide +kernel

end NetFrame
