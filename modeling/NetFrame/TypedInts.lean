import NetFrame.ByteDeque

/-!
# Typed integers in a Buffer

`appendInt32` and its family write an integer in network order at the back of a
buffer, `prependInt32` and its family at the front, and `readInt32` and its
family take one from the front.

A typed integer is a bit pattern of its width, so that its unsigned value is its
two's complement.

Results:
1. `appendInt_spec`, `prependInt_spec`, `readInt_spec`: each call adds or takes
   the big-endian bytes of one integer.
2. `typedInts_round_trip`: lists of integers of mixed widths are read back as
   they were written, from either end, on hosts of either byte order.
-/

namespace NetFrame

open Trans

namespace Buffer

/-! ## 1. One integer -/

/-- `int8_t`, `int16_t` and `int32_t`. -/
inductive IntType where
  | int8
  | int16
  | int32
  deriving DecidableEq, Repr

/-- An integer together with its type. -/
inductive TypedInt where
  | int8 (x : BitVec 8)
  | int16 (x : BitVec 16)
  | int32 (x : BitVec 32)
  deriving DecidableEq, Repr

/-- `sizeof`. -/
def IntType.size : IntType → Nat
  | .int8 => 1
  | .int16 => 2
  | .int32 => 4

namespace TypedInt

def type : TypedInt → IntType
  | .int8 _ => .int8
  | .int16 _ => .int16
  | .int32 _ => .int32

/-- The signed value. -/
def value : TypedInt → Int
  | .int8 x => x.toInt
  | .int16 x => x.toInt
  | .int32 x => x.toInt

/-- The big-endian two's complement encoding: the value modulo `2 ^ bits`. -/
def encoding (v : TypedInt) : List Byte :=
  bigEndian v.type.size (v.value % (2 ^ (8 * v.type.size) : Nat)).toNat

end TypedInt

def appendInt (o : ByteOrder) (b : Buffer) : TypedInt → Except Fault Buffer
  | .int8 x => b.appendInt8 o x
  | .int16 x => b.appendInt16 o x
  | .int32 x => b.appendInt32 o x

def prependInt (o : ByteOrder) (b : Buffer) : TypedInt → Except Fault Buffer
  | .int8 x => b.prependInt8 o x
  | .int16 x => b.prependInt16 o x
  | .int32 x => b.prependInt32 o x

def readInt (o : ByteOrder) (b : Buffer) : IntType → Except Fault (Buffer × TypedInt)
  | .int8 => (b.readInt8 o).map fun (b', x) => (b', .int8 x)
  | .int16 => (b.readInt16 o).map fun (b', x) => (b', .int16 x)
  | .int32 => (b.readInt32 o).map fun (b', x) => (b', .int32 x)

/-- The values one after another, as `appendInt32` and its family write them. -/
def appendInts (o : ByteOrder) (b : Buffer) (vs : List TypedInt) : Except Fault Buffer :=
  vs.foldlM (appendInt o) b

def prependInts (o : ByteOrder) (b : Buffer) (vs : List TypedInt) : Except Fault Buffer :=
  vs.foldlM (prependInt o) b

def readInts (o : ByteOrder) (b : Buffer) : List IntType → Except Fault (Buffer × List TypedInt)
  | [] => .ok (b, [])
  | t :: ts => do
    let (b₁, v) ← readInt o b t
    let (b₂, vs) ← readInts o b₁ ts
    return (b₂, v :: vs)

/-- The encodings one after another. -/
def encodings (vs : List TypedInt) : List Byte := vs.flatMap TypedInt.encoding

theorem toNat_toInt_emod {w : Nat} (x : BitVec w) : (x.toInt % (2 ^ w : Nat)).toNat = x.toNat := by
  rw [← BitVec.toNat_ofInt, BitVec.ofInt_toInt]

theorem encoding_int8 (x : BitVec 8) : (TypedInt.int8 x).encoding = bigEndian 1 x.toNat :=
  congrArg (bigEndian 1) (toNat_toInt_emod x)

theorem encoding_int16 (x : BitVec 16) : (TypedInt.int16 x).encoding = bigEndian 2 x.toNat :=
  congrArg (bigEndian 2) (toNat_toInt_emod x)

theorem encoding_int32 (x : BitVec 32) : (TypedInt.int32 x).encoding = bigEndian 4 x.toNat :=
  congrArg (bigEndian 4) (toNat_toInt_emod x)

@[simp] theorem length_encoding (v : TypedInt) : v.encoding.length = v.type.size :=
  length_bigEndian _ _

@[simp] theorem encodings_cons (v : TypedInt) (vs : List TypedInt) :
    encodings (v :: vs) = v.encoding ++ encodings vs := rfl

section
variable {b : Buffer} {v : TypedInt} {vs : List TypedInt} {q : List Byte}

theorem appendInt_eq (o : ByteOrder) (b : Buffer) (v : TypedInt) :
    b.appendInt o v = b.append v.encoding := by
  cases v with
  | int8 x => rw [encoding_int8, ← memory_int8 o x]; rfl
  | int16 x => rw [encoding_int16, ← memory_hostToNetwork16 o x]; rfl
  | int32 x => rw [encoding_int32, ← memory_hostToNetwork32 o x]; rfl

theorem prependInt_eq (o : ByteOrder) (b : Buffer) (v : TypedInt) :
    b.prependInt o v = b.prepend v.encoding := by
  cases v with
  | int8 x => rw [encoding_int8, ← memory_int8 o x]; rfl
  | int16 x => rw [encoding_int16, ← memory_hostToNetwork16 o x]; rfl
  | int32 x => rw [encoding_int32, ← memory_hostToNetwork32 o x]; rfl

/-- A typed read takes the encoding in front and returns its value. -/
theorem readInt_spec (o : ByteOrder) (hb : b.Inv) (hq : b.content = v.encoding ++ q) :
    ∃ b', b.readInt o v.type = .ok (b', v) ∧ b'.Inv ∧ b'.content = q := by
  have hlen : v.type.size ≤ b.readableBytes := by
    rw [← length_content hb, hq, List.length_append, length_encoding]
    exact Nat.le_add_right _ _
  have htake : b.content.take v.type.size = v.encoding := by
    rw [hq, List.take_left' (length_encoding v)]
  have hdrop : b.content.drop v.type.size = q := by
    rw [hq, List.drop_left' (length_encoding v)]
  cases v with
  | int8 x =>
    obtain ⟨b', hok, hinv, hcontent⟩ := read_spec hb "readableBytes() >= sizeof(int8_t)"
      (fun bs => BitVec.ofNat 8 (fromMemory o bs)) hlen
    refine ⟨b', ?_, hinv, hcontent.trans hdrop⟩
    rw [htake, encoding_int8, int8_bigEndian] at hok
    exact congrArg (Except.map _) hok
  | int16 x =>
    obtain ⟨b', hok, hinv, hcontent⟩ := read_spec hb "readableBytes() >= sizeof(int16_t)"
      (fun bs => networkToHost16 o (BitVec.ofNat 16 (fromMemory o bs))) hlen
    refine ⟨b', ?_, hinv, hcontent.trans hdrop⟩
    rw [htake, encoding_int16, networkToHost16_bigEndian] at hok
    exact congrArg (Except.map _) hok
  | int32 x =>
    obtain ⟨b', hok, hinv, hcontent⟩ := read_spec hb "readableBytes() >= sizeof(int32_t)"
      (fun bs => networkToHost32 o (BitVec.ofNat 32 (fromMemory o bs))) hlen
    refine ⟨b', ?_, hinv, hcontent.trans hdrop⟩
    rw [htake, encoding_int32, networkToHost32_bigEndian] at hok
    exact congrArg (Except.map _) hok

/-! ## 2. Lists of integers -/

theorem appendInts_spec (o : ByteOrder) (hb : b.Inv)
    (hsz : b.writerIndex + (encodings vs).length + kCheapPrepend < sizeMod) :
    ∃ b', b.appendInts o vs = .ok b' ∧ b'.Inv ∧ b'.content = b.content ++ encodings vs := by
  induction vs generalizing b with
  | nil => exact ⟨b, rfl, hb, (List.append_nil _).symm⟩
  | cons v vs ih =>
    rw [encodings_cons, List.length_append] at hsz
    have hfits : b.writerIndex + v.encoding.length + kCheapPrepend < sizeMod := by omega
    obtain ⟨b₁, hok, hinv, hcontent, -⟩ := append_spec hb hfits
    have hwriter := append_writer_le hb hok
    obtain ⟨b₂, hrest, hinv', hcontent'⟩ := ih hinv (by omega)
    refine ⟨b₂, ?_, hinv', ?_⟩
    · rw [appendInts, List.foldlM_cons, appendInt_eq, hok]
      exact hrest
    · rw [hcontent', hcontent, List.append_assoc, encodings_cons]

theorem prependInts_spec (o : ByteOrder) (hb : b.Inv)
    (h : (encodings vs).length ≤ b.prependableBytes) :
    ∃ b', b.prependInts o vs = .ok b' ∧ b'.Inv ∧
      b'.content = encodings vs.reverse ++ b.content := by
  induction vs generalizing b with
  | nil => exact ⟨b, rfl, hb, rfl⟩
  | cons v vs ih =>
    rw [encodings_cons, List.length_append] at h
    have hfits : v.encoding.length ≤ b.prependableBytes := by omega
    obtain ⟨b₁, hok, hinv, hcontent⟩ := prepend_spec hb hfits
    have hroom : (encodings vs).length ≤ b₁.prependableBytes := by
      have hr := hb.reader_le
      have hw := hb.writer_le
      have hlt := hb.size_lt
      have hreader := prepend_reader hok
      simp only [prependableBytes] at h ⊢
      rw [hreader, szSub_eq (by omega) (by omega)]
      omega
    obtain ⟨b₂, hrest, hinv', hcontent'⟩ := ih hinv hroom
    refine ⟨b₂, ?_, hinv', ?_⟩
    · rw [prependInts, List.foldlM_cons, prependInt_eq, hok]
      exact hrest
    · rw [hcontent', hcontent, List.reverse_cons, encodings, encodings, List.flatMap_append]
      simp

theorem readInts_spec (o : ByteOrder) (hb : b.Inv) (hq : b.content = encodings vs ++ q) :
    ∃ b', b.readInts o (vs.map TypedInt.type) = .ok (b', vs) ∧ b'.Inv ∧ b'.content = q := by
  induction vs generalizing b with
  | nil => exact ⟨b, rfl, hb, hq⟩
  | cons v vs ih =>
    rw [encodings_cons, List.append_assoc] at hq
    obtain ⟨b₁, hok, hinv, hcontent⟩ := readInt_spec o hb hq
    obtain ⟨b₂, hrest, hinv', hcontent'⟩ := ih hinv hcontent
    refine ⟨b₂, ?_, hinv', hcontent'⟩
    rw [List.map_cons, readInts, hok, ok_bind]
    exact bind_ok_eq hrest

theorem length_encodings (vs : List TypedInt) :
    (encodings vs).length = (vs.map fun v => v.type.size).sum := by
  simp [encodings, List.length_flatMap]

/-- Lists of typed integers are read back as they were written.

Appending the values adds their encodings in order. However the old content is
then retrieved, and whatever room is made in between, the reads of the same types
return the values and leave the buffer empty; `retrieve` of the old length is
one way. Prepending the values and reading them in the reverse order returns
them and leaves the content. -/
theorem typedInts_round_trip (o : ByteOrder) (hb : b.Inv) (vs : List TypedInt) :
    (b.writerIndex + (vs.map fun v => v.type.size).sum + kCheapPrepend < sizeMod →
      ∃ b₁, b.appendInts o vs = .ok b₁ ∧ b₁.content = b.content ++ vs.flatMap TypedInt.encoding ∧
        (∀ ops, LegalOps (execOp o) (fun b op => b.Meets op.demand) b₁ ops →
          (specOps specOp b₁.content ops).1 = vs.flatMap TypedInt.encoding →
          ∃ b₂ out b₃, runOps (execOp o) b₁ ops = .ok (b₂, out) ∧
            b₂.readInts o (vs.map TypedInt.type) = .ok (b₃, vs) ∧ b₃.readableBytes = 0) ∧
        ∃ b₂ b₃, b₁.retrieve b.readableBytes = .ok b₂ ∧
          b₂.readInts o (vs.map TypedInt.type) = .ok (b₃, vs) ∧ b₃.readableBytes = 0) ∧
    ((vs.map fun v => v.type.size).sum ≤ b.prependableBytes →
      ∃ b₁ b₂, b.prependInts o vs = .ok b₁ ∧
        b₁.readInts o (vs.reverse.map TypedInt.type) = .ok (b₂, vs.reverse) ∧
        b₂.content = b.content) := by
  rw [← length_encodings]
  have hread : ∀ b₂ : Buffer, b₂.Inv → b₂.content = encodings vs →
      ∃ b₃, b₂.readInts o (vs.map TypedInt.type) = .ok (b₃, vs) ∧ b₃.readableBytes = 0 := by
    intro b₂ hinv hcontent
    rw [← List.append_nil (encodings vs)] at hcontent
    obtain ⟨b₃, hok, hinv', hempty⟩ := readInts_spec o hinv hcontent
    exact ⟨b₃, hok, (content_eq_nil hinv').mp hempty⟩
  refine ⟨fun hsz => ?_, fun hroom => ?_⟩
  · obtain ⟨b₁, hok, hinv, hcontent⟩ := appendInts_spec o hb hsz
    refine ⟨b₁, hok, hcontent, fun ops hlegal hleft => ?_, ?_⟩
    · obtain ⟨b₂, hrun, hinv₂, hcontent₂⟩ := (op_implements o).run ops ⟨hinv, rfl⟩ hlegal
      obtain ⟨b₃, hok₃, hempty⟩ := hread b₂ hinv₂ (hcontent₂.trans hleft)
      exact ⟨b₂, _, b₃, hrun, hok₃, hempty⟩
    · have hlen := length_content hb
      have hold : b.readableBytes ≤ b₁.readableBytes := by
        rw [← hlen, ← length_content hinv, hcontent, List.length_append]
        exact Nat.le_add_right _ _
      obtain ⟨b₂, hret, hinv₂, hcontent₂, -⟩ := retrieve_spec hinv hold
      rw [hcontent, List.drop_left' hlen] at hcontent₂
      obtain ⟨b₃, hok₃, hempty⟩ := hread b₂ hinv₂ hcontent₂
      exact ⟨b₂, b₃, hret, hok₃, hempty⟩
  · obtain ⟨b₁, hok, hinv, hcontent⟩ := prependInts_spec o hb hroom
    obtain ⟨b₂, hok₂, -, hcontent₂⟩ := readInts_spec o hinv hcontent
    exact ⟨b₁, b₂, hok, hok₂, hcontent₂⟩

/-- Two readable bytes behind twelve consumed ones. -/
def consumedBuffer : Buffer := ⟨List.replicate 1032 7, 20, 22⟩

theorem inv_consumedBuffer : consumedBuffer.Inv := by
  have hlen : consumedBuffer.buffer.length = 1032 := List.length_replicate
  refine ⟨by decide, ?_, ?_, ?_⟩
  · rw [hlen]
    decide
  · exact hlen.ge
  · rw [hlen]
    decide

def mixedInts : List TypedInt := [.int16 (-2), .int8 (-1), .int32 (-70000), .int8 127]

theorem typedInts_round_trip_mixed :
    mixedInts.map TypedInt.value = [-2, -1, -70000, 127] ∧
    (∃ b₁, consumedBuffer.appendInts .little mixedInts = .ok b₁ ∧
      ∃ b₂ b₃, b₁.retrieve consumedBuffer.readableBytes = .ok b₂ ∧
        b₂.readInts .little [.int16, .int8, .int32, .int8] = .ok (b₃, mixedInts) ∧
        b₃.readableBytes = 0) ∧
    ∃ b₁ b₂, consumedBuffer.prependInts .big mixedInts = .ok b₁ ∧
      b₁.readInts .big [.int8, .int32, .int8, .int16] = .ok (b₂, mixedInts.reverse) ∧
      b₂.content = consumedBuffer.content := by
  refine ⟨by decide, ?_, ?_⟩
  · obtain ⟨b₁, hok, -, -, hread⟩ :=
      (typedInts_round_trip .little inv_consumedBuffer mixedInts).1 (by decide)
    exact ⟨b₁, hok, hread⟩
  · exact (typedInts_round_trip .big inv_consumedBuffer mixedInts).2 (by decide)

end

end Buffer

end NetFrame
