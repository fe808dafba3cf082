import NetFrame.Buffer

/-!
# A Buffer is a byte deque

The abstract component is a byte deque: a list of bytes that grows at the back
(append) and at the front (prepend) and is consumed from the front (retrieve).
`specOp` gives the public operations of `Buffer` on it, `execOp` the ones of
`Buffer.h`.

Results:
1. `execOp_implements`: one operation on one buffer implements the deque
   operation, under the invariant.
2. `execOp_cases`: a call that returns has met its demand, or it asks for space.
3. `buffers_refine_deques`: every sequence of operations, `swap` included, on any
   number of fresh buffers implements the deques.
-/

namespace NetFrame

open Window

namespace Buffer

/-! ## 1. Operations -/

/-- The public operations on one `Buffer`. A pointer `end` into the readable
region is given by its distance from `peek()`. The bytes of `hasWritten` are
those the caller has stored at `beginWrite()`. -/
inductive Op where
  | append (data : List Byte)
  | appendInt32 (x : BitVec 32)
  | appendInt16 (x : BitVec 16)
  | appendInt8 (x : BitVec 8)
  | prepend (data : List Byte)
  | prependInt32 (x : BitVec 32)
  | prependInt16 (x : BitVec 16)
  | prependInt8 (x : BitVec 8)
  | retrieve (len : Nat)
  | retrieveUntil (offset : Nat)
  | retrieveInt32
  | retrieveInt16
  | retrieveInt8
  | retrieveAll
  | retrieveAsString (len : Nat)
  | retrieveAllAsString
  | ensureWritableBytes (len : Nat)
  | hasWritten (stored : List Byte)
  deriving DecidableEq, Repr

/-- A call that returns no bytes. -/
def silent (r : Except Fault Buffer) : Except Fault (Buffer × List Byte) :=
  r.map fun b => (b, [])

/-- The operations as `Buffer.h` computes them, with the bytes they return. -/
def execOp (o : ByteOrder) (b : Buffer) : Op → Except Fault (Buffer × List Byte)
  | .append data => silent (b.append data)
  | .appendInt32 x => silent (b.appendInt32 o x)
  | .appendInt16 x => silent (b.appendInt16 o x)
  | .appendInt8 x => silent (b.appendInt8 o x)
  | .prepend data => silent (b.prepend data)
  | .prependInt32 x => silent (b.prependInt32 o x)
  | .prependInt16 x => silent (b.prependInt16 o x)
  | .prependInt8 x => silent (b.prependInt8 o x)
  | .retrieve len => silent (b.retrieve len)
  | .retrieveUntil offset => silent (b.retrieveUntil (b.readerIndex + offset))
  | .retrieveInt32 => silent b.retrieveInt32
  | .retrieveInt16 => silent b.retrieveInt16
  | .retrieveInt8 => silent b.retrieveInt8
  | .retrieveAll => .ok (b.retrieveAll, [])
  | .retrieveAsString len => b.retrieveAsString len
  | .retrieveAllAsString => b.retrieveAllAsString
  | .ensureWritableBytes len => silent (b.ensureWritableBytes len)
  | .hasWritten stored => silent do
      let b' ← b.copyTo b.writerIndex stored
      return b'.hasWritten stored.length

/-- The same operations on the abstract deque. -/
def specOp (q : List Byte) : Op → List Byte × List Byte
  | .append data => (q ++ data, [])
  | .appendInt32 x => (q ++ bigEndian 4 x.toNat, [])
  | .appendInt16 x => (q ++ bigEndian 2 x.toNat, [])
  | .appendInt8 x => (q ++ bigEndian 1 x.toNat, [])
  | .prepend data => (data ++ q, [])
  | .prependInt32 x => (bigEndian 4 x.toNat ++ q, [])
  | .prependInt16 x => (bigEndian 2 x.toNat ++ q, [])
  | .prependInt8 x => (bigEndian 1 x.toNat ++ q, [])
  | .retrieve len => (q.drop len, [])
  | .retrieveUntil offset => (q.drop offset, [])
  | .retrieveInt32 => (q.drop 4, [])
  | .retrieveInt16 => (q.drop 2, [])
  | .retrieveInt8 => (q.drop 1, [])
  | .retrieveAll => ([], [])
  | .retrieveAsString len => (q.drop len, q.take len)
  | .retrieveAllAsString => ([], q)
  | .ensureWritableBytes _ => (q, [])
  | .hasWritten stored => (q ++ stored, [])

/-- What an operation does to the number of bytes: the precondition it has. -/
inductive Demand where
  /-- `len` bytes behind the writer index, within the range of `size_t`. -/
  | grow (len : Nat)
  /-- `len` prependable bytes. -/
  | front (len : Nat)
  /-- `len` readable bytes. -/
  | take (len : Nat)
  /-- `len` writable bytes. -/
  | room (len : Nat)
  | nothing
  deriving DecidableEq, Repr

def Op.demand : Op → Demand
  | .append data => .grow data.length
  | .appendInt32 _ => .grow 4
  | .appendInt16 _ => .grow 2
  | .appendInt8 _ => .grow 1
  | .prepend data => .front data.length
  | .prependInt32 _ => .front 4
  | .prependInt16 _ => .front 2
  | .prependInt8 _ => .front 1
  | .retrieve len => .take len
  | .retrieveUntil offset => .take offset
  | .retrieveInt32 => .take 4
  | .retrieveInt16 => .take 2
  | .retrieveInt8 => .take 1
  | .retrieveAll => .nothing
  | .retrieveAsString len => .take len
  | .retrieveAllAsString => .nothing
  | .ensureWritableBytes len => .grow len
  | .hasWritten stored => .room stored.length

/-- The state of the buffer meets the demand. -/
def Meets (b : Buffer) : Demand → Prop
  | .grow len => b.writerIndex + len + kCheapPrepend < sizeMod
  | .front len => len ≤ b.prependableBytes
  | .take len => len ≤ b.readableBytes
  | .room len => len ≤ b.writableBytes
  | .nothing => True

instance (b : Buffer) : ∀ d, Decidable (b.Meets d)
  | .grow len => inferInstanceAs (Decidable (b.writerIndex + len + kCheapPrepend < sizeMod))
  | .front len => inferInstanceAs (Decidable (len ≤ b.prependableBytes))
  | .take len => inferInstanceAs (Decidable (len ≤ b.readableBytes))
  | .room len => inferInstanceAs (Decidable (len ≤ b.writableBytes))
  | .nothing => .isTrue trivial

/-- The operations that move the reader index below its place. -/
def Op.isPrepend : Op → Bool
  | .prepend _ | .prependInt32 _ | .prependInt16 _ | .prependInt8 _ => true
  | _ => false

/-! ## 2. One operation -/

/-- `b'` is a sound buffer with the readable bytes `q`, whose reader index has
not sunk below `kCheapPrepend` unless the operation prepends. -/
structure Became (b b' : Buffer) (q : List Byte) (prepends : Bool) : Prop where
  inv : b'.Inv
  content : b'.content = q
  reader : prepends = false → kCheapPrepend ≤ b.readerIndex → kCheapPrepend ≤ b'.readerIndex

section
variable {b b' : Buffer} {len : Nat} {q data : List Byte}

theorem silent_append {len : Nat} (hb : b.Inv) (hlen : data.length = len)
    (h : b.writerIndex + len + kCheapPrepend < sizeMod) :
    ∃ b', silent (b.append data) = .ok (b', []) ∧ Became b b' (b.content ++ data) false := by
  subst hlen
  obtain ⟨b', hok, hinv, hcontent, hreader⟩ := append_spec hb h
  exact ⟨b', by rw [hok]; rfl, hinv, hcontent, fun _ => hreader⟩

theorem silent_prepend {len : Nat} (hb : b.Inv) (hlen : data.length = len)
    (h : len ≤ b.prependableBytes) :
    ∃ b', silent (b.prepend data) = .ok (b', []) ∧ Became b b' (data ++ b.content) true := by
  subst hlen
  obtain ⟨b', hok, hinv, hcontent⟩ := prepend_spec hb h
  exact ⟨b', by rw [hok]; rfl, hinv, hcontent, fun h => nomatch h⟩

theorem silent_retrieve {len : Nat} (hb : b.Inv) (h : len ≤ b.readableBytes) :
    ∃ b', silent (b.retrieve len) = .ok (b', []) ∧ Became b b' (b.content.drop len) false := by
  obtain ⟨b', hok, hinv, hcontent, hreader⟩ := retrieve_spec hb h
  exact ⟨b', by rw [hok]; rfl, hinv, hcontent, fun _ => hreader⟩

theorem retrieveAsString_became {len : Nat} (hb : b.Inv) (h : len ≤ b.readableBytes) :
    ∃ b', b.retrieveAsString len = .ok (b', b.content.take len) ∧
      Became b b' (b.content.drop len) false := by
  obtain ⟨b', hok, hinv, hcontent, hreader⟩ := retrieveAsString_spec hb h
  exact ⟨b', hok, hinv, hcontent, fun _ => hreader⟩

/-- An operation whose demand is met implements the deque operation. -/
theorem execOp_implements (o : ByteOrder) (hb : b.Inv) (op : Op) (hm : b.Meets op.demand) :
    ∃ b', execOp o b op = .ok (b', (specOp b.content op).2) ∧
      Became b b' (specOp b.content op).1 op.isPrepend := by
  cases op with
  | append data => exact silent_append hb rfl hm
  | appendInt32 x =>
    simp only [execOp, appendInt32, memory_hostToNetwork32]
    exact silent_append hb (length_bigEndian 4 _) hm
  | appendInt16 x =>
    simp only [execOp, appendInt16, memory_hostToNetwork16]
    exact silent_append hb (length_bigEndian 2 _) hm
  | appendInt8 x =>
    simp only [execOp, appendInt8, memory_int8]
    exact silent_append hb (length_bigEndian 1 _) hm
  | prepend data => exact silent_prepend hb rfl hm
  | prependInt32 x =>
    simp only [execOp, prependInt32, memory_hostToNetwork32]
    exact silent_prepend hb (length_bigEndian 4 _) hm
  | prependInt16 x =>
    simp only [execOp, prependInt16, memory_hostToNetwork16]
    exact silent_prepend hb (length_bigEndian 2 _) hm
  | prependInt8 x =>
    simp only [execOp, prependInt8, memory_int8]
    exact silent_prepend hb (length_bigEndian 1 _) hm
  | retrieve len => exact silent_retrieve hb hm
  | retrieveUntil offset =>
    obtain ⟨b', hok, hinv, hcontent, hreader⟩ := retrieveUntil_spec hb hm
    exact ⟨b', by rw [execOp, hok]; rfl, hinv, hcontent, fun _ => hreader⟩
  | retrieveInt32 => exact silent_retrieve hb hm
  | retrieveInt16 => exact silent_retrieve hb hm
  | retrieveInt8 => exact silent_retrieve hb hm
  | retrieveAll =>
    obtain ⟨hinv, hcontent⟩ := retrieveAll_spec hb
    exact ⟨b.retrieveAll, rfl, hinv, hcontent, fun _ _ => Nat.le_refl _⟩
  | retrieveAsString len => exact retrieveAsString_became hb hm
  | retrieveAllAsString =>
    have hlen := length_content hb
    obtain ⟨b', hok, hbec⟩ := retrieveAsString_became hb (Nat.le_refl b.readableBytes)
    rw [List.take_of_length_le hlen.le] at hok
    rw [List.drop_eq_nil_of_le hlen.le] at hbec
    exact ⟨b', hok, hbec⟩
  | ensureWritableBytes len =>
    obtain ⟨b', hok, hroom⟩ := ensureWritableBytes_spec hb hm
    exact ⟨b', by rw [execOp, hok]; rfl, hroom.inv, hroom.content, fun _ => hroom.reader⟩
  | hasWritten stored =>
    have hle : stored.length ≤ b.writableBytes := hm
    have hwrit := writableBytes_eq hb
    have hw := hb.writer_le
    have hfit : b.writerIndex + stored.length ≤ b.buffer.length := by omega
    obtain ⟨hinv, hcontent⟩ := store_hasWritten hb hfit
    refine ⟨_, ?_, hinv, hcontent, fun _ h => h⟩
    simp only [execOp, copyTo_eq hfit]
    rfl

/-- The operations on one buffer, as an implementation of the deque. -/
theorem op_implements (o : ByteOrder) :
    Trans.Implements (execOp o) specOp (fun b op => b.Meets op.demand)
      (fun b q => b.Inv ∧ b.content = q) := by
  rintro b q op ⟨hinv, rfl⟩ hm
  obtain ⟨b', hok, hbec⟩ := execOp_implements o hinv op hm
  exact ⟨b', hok, hbec.inv, hbec.content⟩

/-! ## 3. What a call that returns has checked -/

theorem silent_ok {r : Except Fault Buffer} {out : List Byte} (h : silent r = .ok (b', out)) :
    r = .ok b' := by
  cases r with
  | error e => cases h
  | ok b₁ =>
    cases h
    rfl

theorem retrieve_ok (h : b.retrieve len = .ok b') :
    len ≤ b.readableBytes ∧ b'.buffer = b.buffer := by
  obtain ⟨hle, hret⟩ := check_bind_ok.mp h
  refine ⟨hle, ?_⟩
  split at hret <;> cases hret <;> rfl

theorem retrieveAsString_ok {out : List Byte} (h : b.retrieveAsString len = .ok (b', out)) :
    len ≤ b.readableBytes ∧ b'.buffer = b.buffer := by
  obtain ⟨-, hrest⟩ := check_bind_ok.mp h
  obtain ⟨b₁, hret, heq⟩ := bind_ok.mp hrest
  cases heq
  exact retrieve_ok hret

theorem prepend_ok (h : b.prepend data = .ok b') :
    data.length ≤ b.prependableBytes ∧ b'.buffer.length = b.buffer.length := by
  obtain ⟨hle, hcopy⟩ := check_bind_ok.mp h
  obtain ⟨hfit, rfl⟩ := copyTo_ok hcopy
  exact ⟨hle, length_overwrite hfit⟩

/-- An operation asks for space, as `append` or as `ensureWritableBytes`, or it
checks its demand itself and keeps the size of the vector. -/
theorem execOp_cases (o : ByteOrder) (b : Buffer) (op : Op) :
    (∃ data, op.demand = .grow data.length ∧ execOp o b op = silent (b.append data)) ∨
    (∃ len, op.demand = .grow len ∧ execOp o b op = silent (b.ensureWritableBytes len)) ∨
    ∀ b' out, execOp o b op = .ok (b', out) →
      b'.buffer.length = b.buffer.length ∧ (b.Inv → b.Meets op.demand) := by
  have hprepend : ∀ data : List Byte, ∀ b' out, silent (b.prepend data) = .ok (b', out) →
      b'.buffer.length = b.buffer.length ∧ (b.Inv → b.Meets (.front data.length)) := by
    intro data b' out h
    obtain ⟨hle, hlen⟩ := prepend_ok (silent_ok h)
    exact ⟨hlen, fun _ => hle⟩
  have hretrieve : ∀ len : Nat, ∀ b' out, silent (b.retrieve len) = .ok (b', out) →
      b'.buffer.length = b.buffer.length ∧ (b.Inv → b.Meets (.take len)) := by
    intro len b' out h
    obtain ⟨hle, hbuf⟩ := retrieve_ok (silent_ok h)
    exact ⟨congrArg List.length hbuf, fun _ => hle⟩
  cases op with
  | append data => exact .inl ⟨data, rfl, rfl⟩
  | appendInt32 x => exact .inl ⟨memory o 4 _, by rw [length_memory]; rfl, rfl⟩
  | appendInt16 x => exact .inl ⟨memory o 2 _, by rw [length_memory]; rfl, rfl⟩
  | appendInt8 x => exact .inl ⟨memory o 1 _, by rw [length_memory]; rfl, rfl⟩
  | ensureWritableBytes len => exact .inr (.inl ⟨len, rfl, rfl⟩)
  | prepend data => exact .inr (.inr (hprepend data))
  | prependInt32 x =>
    have h := hprepend (memory o 4 (hostToNetwork32 o x).toNat)
    rw [length_memory] at h
    exact .inr (.inr h)
  | prependInt16 x =>
    have h := hprepend (memory o 2 (hostToNetwork16 o x).toNat)
    rw [length_memory] at h
    exact .inr (.inr h)
  | prependInt8 x =>
    have h := hprepend (memory o 1 x.toNat)
    rw [length_memory] at h
    exact .inr (.inr h)
  | retrieve len => exact .inr (.inr (hretrieve len))
  | retrieveInt32 => exact .inr (.inr (hretrieve 4))
  | retrieveInt16 => exact .inr (.inr (hretrieve 2))
  | retrieveInt8 => exact .inr (.inr (hretrieve 1))
  | retrieveUntil offset =>
    refine .inr (.inr fun b' out h => ?_)
    obtain ⟨-, hrest⟩ := check_bind_ok.mp (silent_ok h)
    obtain ⟨-, hret⟩ := check_bind_ok.mp hrest
    rw [Nat.add_sub_cancel_left] at hret
    obtain ⟨hle, hbuf⟩ := retrieve_ok hret
    exact ⟨congrArg List.length hbuf, fun _ => hle⟩
  | retrieveAll =>
    refine .inr (.inr fun b' out h => ?_)
    cases h
    exact ⟨rfl, fun _ => trivial⟩
  | retrieveAsString len =>
    refine .inr (.inr fun b' out h => ?_)
    obtain ⟨hle, hbuf⟩ := retrieveAsString_ok h
    exact ⟨congrArg List.length hbuf, fun _ => hle⟩
  | retrieveAllAsString =>
    refine .inr (.inr fun b' out h => ?_)
    exact ⟨congrArg List.length (retrieveAsString_ok h).2, fun _ => trivial⟩
  | hasWritten stored =>
    refine .inr (.inr fun b' out h => ?_)
    obtain ⟨b₁, hcopy, hret⟩ := bind_ok.mp (silent_ok h)
    obtain ⟨hfit, rfl⟩ := copyTo_ok hcopy
    cases hret
    refine ⟨length_overwrite hfit, fun hb => ?_⟩
    show stored.length ≤ b.writableBytes
    rw [writableBytes_eq hb]
    omega

end

end Buffer

/-! ## 4. Any number of buffers -/

open Buffer Trans

/-- An operation on one of the buffers `ι`, or the `swap` of two of them. -/
inductive BuffersOp (ι : Type) where
  | on (i : ι) (op : Buffer.Op)
  | swap (i j : ι)

section
variable {ι : Type} [DecidableEq ι]

def execBuffers (o : ByteOrder) (s : ι → Buffer) :
    BuffersOp ι → Except Fault ((ι → Buffer) × List Byte)
  | .on i op => (execOp o (s i) op).map fun (b, out) => (Function.update s i b, out)
  | .swap i j =>
    let (a, b) := Buffer.swap (s i) (s j)
    .ok (Function.update (Function.update s i a) j b, [])

def specBuffers (q : ι → List Byte) : BuffersOp ι → (ι → List Byte) × List Byte
  | .on i op => (Function.update q i (specOp (q i) op).1, (specOp (q i) op).2)
  | .swap i j => (Function.update (Function.update q i (q j)) j (q i), [])

/-- The conditions under which the operations may be called. -/
def LegalBuffers (s : ι → Buffer) : BuffersOp ι → Prop
  | .on i op => (s i).Meets op.demand
  | .swap _ _ => True

instance (s : ι → Buffer) : ∀ op, Decidable (LegalBuffers s op)
  | .on i op => inferInstanceAs (Decidable ((s i).Meets op.demand))
  | .swap _ _ => .isTrue trivial

/-- No `prepend` of any kind. -/
def BuffersOp.noPrepend : BuffersOp ι → Prop
  | .on _ op => op.isPrepend = false
  | .swap _ _ => True

/-- The buffers `s` represent the deques `q`; `low` tells whether a reader
index may be below `kCheapPrepend`. -/
def Represents (low : Bool) (s : ι → Buffer) (q : ι → List Byte) : Prop :=
  ∀ i, (s i).Inv ∧ (s i).content = q i ∧ (low = false → kCheapPrepend ≤ (s i).readerIndex)

omit [DecidableEq ι] in
theorem represents_fresh (low : Bool) :
    Represents low (fun _ : ι => Buffer.fresh) (fun _ => []) :=
  fun _ => ⟨inv_fresh, content_fresh, fun _ => Nat.le_refl _⟩

theorem represents_update {low : Bool} {s : ι → Buffer} {q : ι → List Byte} {i : ι} {b : Buffer}
    {r : List Byte} (h : Represents low s q)
    (hb : b.Inv ∧ b.content = r ∧ (low = false → kCheapPrepend ≤ b.readerIndex)) :
    Represents low (Function.update s i b) (Function.update q i r) := by
  intro j
  by_cases hj : j = i
  · subst hj
    simpa using hb
  · simpa [hj] using h j

/-- One step: with `low` false the operations must not prepend. -/
theorem buffers_implement (o : ByteOrder) (low : Bool) :
    Implements (execBuffers (ι := ι) o) specBuffers
      (fun s op => LegalBuffers s op ∧ (low = false → op.noPrepend)) (Represents low) := by
  intro s q op hR hl
  cases op with
  | on i op =>
    obtain ⟨hinv, hcontent, hreader⟩ := hR i
    obtain ⟨b', hok, hbec⟩ := execOp_implements o hinv op hl.1
    rw [hcontent] at hok hbec
    refine ⟨Function.update s i b', ?_, represents_update hR ⟨hbec.inv, hbec.content, ?_⟩⟩
    · simp only [execBuffers, hok]
      rfl
    · exact fun hlow => hbec.reader (hl.2 hlow) (hreader hlow)
  | swap i j =>
    refine ⟨_, rfl, ?_⟩
    exact represents_update (represents_update hR (hR j)) (hR i)

/-- Every legal sequence of operations on fresh buffers runs without a fault, so
that no assertion fails. At its end (and, since a prefix of a legal sequence is
one, after each operation) the indices are in order, the vector has not shrunk
below its first size, and the readable bytes and the results are those of the
byte deques. Only a `prepend` takes a reader index below `kCheapPrepend`. -/
theorem buffers_refine_deques (o : ByteOrder) (ops : List (BuffersOp ι))
    (hl : LegalOps (execBuffers o) LegalBuffers (fun _ => Buffer.fresh) ops) :
    Buffer.ctor = .ok Buffer.fresh ∧
    ∃ s, runOps (execBuffers o) (fun _ => Buffer.fresh) ops =
        .ok (s, (specOps specBuffers (fun _ => []) ops).2) ∧
      (∀ i, (s i).readerIndex ≤ (s i).writerIndex ∧ (s i).writerIndex ≤ (s i).buffer.length ∧
        8 + 1024 ≤ (s i).buffer.length) ∧
      (∀ i, (s i).content = (specOps specBuffers (fun _ => []) ops).1 i) ∧
      ((∀ op ∈ ops, op.noPrepend) → ∀ i, 8 ≤ (s i).readerIndex) := by
  have hrun : ∀ low : Bool, (low = false → ∀ op ∈ ops, op.noPrepend) →
      ∃ s, runOps (execBuffers o) (fun _ => Buffer.fresh) ops =
          .ok (s, (specOps specBuffers (fun _ => []) ops).2) ∧
        Represents low s (specOps specBuffers (fun _ => []) ops).1 := by
    intro low hlow
    refine (buffers_implement o low).run ops (represents_fresh low) ?_
    exact hl.and_forall fun op hop h => hlow h op hop
  obtain ⟨s, hs, hR⟩ := hrun true fun h => nomatch h
  refine ⟨ctor_eq, s, hs, fun i => ?_, fun i => (hR i).2.1, fun hno i => ?_⟩
  · exact ⟨(hR i).1.reader_le, (hR i).1.writer_le, (hR i).1.size_ge⟩
  · obtain ⟨s', hs', hR'⟩ := hrun false fun _ => hno
    rw [hs] at hs'
    cases hs'
    exact (hR' i).2.2 rfl

end

/-- A run in which one buffer is filled, partly consumed, swapped with another
and prepended to, and then has to compact for a large append. -/
def exchangeOps : List (BuffersOp Bool) :=
  [.on true (.append [1, 2, 3]), .on true (.retrieve 2), .swap true false,
    .on false (.prependInt16 258), .on true (.appendInt32 7), .on false (.retrieveAsString 2),
    .on false (.append (List.replicate 1023 9)), .on false .retrieveAllAsString]

theorem exchange_refines_deques :
    (specOps specBuffers (fun _ => []) exchangeOps).1 true = [0, 0, 0, 7] ∧
    ∃ s, runOps (execBuffers .little) (fun _ => Buffer.fresh) exchangeOps =
        .ok (s, (specOps specBuffers (fun _ => []) exchangeOps).2) ∧
      (s true).content = [0, 0, 0, 7] := by
  have hspec : (specOps specBuffers (fun _ => []) exchangeOps).1 true = [0, 0, 0, 7] := by
    decide +kernel
  obtain ⟨-, s, hrun, -, hcontent, -⟩ :=
    buffers_refine_deques .little exchangeOps (by decide +kernel)
  exact ⟨hspec, s, hrun, (hcontent true).trans hspec⟩

end NetFrame
