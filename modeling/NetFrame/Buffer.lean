import NetFrame.SocketOps
import NetFrame.Lib.Machine
import NetFrame.Lib.Window
import Mathlib.Logic.Function.Basic

/-!
# Buffer

`Buffer.h`: a vector of bytes with a reader and a writer index. The readable
bytes are the window between the two indices; in front of it lie the
prependable bytes, behind it the writable ones.

The indices are `size_t`, so their arithmetic wraps (`szAdd`, `szSub`). A
pointer into the buffer is its index in the vector.

Results:
1. `Buffer.retrieve_spec`, `Buffer.prepend_spec`, `Buffer.append_spec`, ..: one
   specification for each operation, over the invariant `Buffer.Inv` and the
   readable bytes `Buffer.content`.
2. `Buffer.append_ok`: an `append` that returns has appended, also where the
   `size_t` range is exceeded (there it does not return).
3. `buffers_refine_deques`: every legal sequence of operations on any number of
   buffers runs without a fault and does to the readable bytes what the
   operations do to byte deques.
-/

namespace NetFrame

open Window Outcome

structure Buffer where
  buffer : List Byte
  readerIndex : Nat
  writerIndex : Nat
  deriving DecidableEq, Repr

namespace Buffer

/-! ## 1. The operations of `Buffer.h` -/

def kCheapPrepend : Nat := 8

def kInitialSize : Nat := 1024

def readableBytes (b : Buffer) : Nat := szSub b.writerIndex b.readerIndex

def writableBytes (b : Buffer) : Nat := szSub b.buffer.length b.writerIndex

def prependableBytes (b : Buffer) : Nat := b.readerIndex

/-- What the constructor initialises. -/
def fresh : Buffer where
  buffer := List.replicate (szAdd kCheapPrepend kInitialSize) 0
  readerIndex := kCheapPrepend
  writerIndex := kCheapPrepend

/-- `Buffer::Buffer`. -/
def ctor : Except Fault Buffer := do
  check (fresh.readableBytes = 0) "readableBytes() == 0"
  check (fresh.writableBytes = kInitialSize) "writableBytes() == kInitialSize"
  check (fresh.prependableBytes = kCheapPrepend) "prependableBytes() == kCheapPrepend"
  return fresh

/-- `a.swap(b)`: the new `a` and the new `b`. -/
def swap (a b : Buffer) : Buffer × Buffer :=
  ({ a with buffer := b.buffer, readerIndex := b.readerIndex, writerIndex := b.writerIndex },
   { b with buffer := a.buffer, readerIndex := a.readerIndex, writerIndex := a.writerIndex })

/-- The readable bytes, `[peek(), beginWrite())`. -/
def content (b : Buffer) : List Byte := window b.buffer b.readerIndex b.writerIndex

def retrieveAll (b : Buffer) : Buffer :=
  { b with readerIndex := kCheapPrepend, writerIndex := kCheapPrepend }

def retrieve (b : Buffer) (len : Nat) : Except Fault Buffer := do
  check (len ≤ b.readableBytes) "len <= readableBytes()"
  if len < b.readableBytes then
    return { b with readerIndex := szAdd b.readerIndex len }
  else
    return b.retrieveAll

def retrieveUntil (b : Buffer) (endp : Nat) : Except Fault Buffer := do
  check (b.readerIndex ≤ endp) "peek() <= end"
  check (endp ≤ b.writerIndex) "end <= beginWrite()"
  b.retrieve (endp - b.readerIndex)

def retrieveInt32 (b : Buffer) : Except Fault Buffer := b.retrieve 4

def retrieveInt16 (b : Buffer) : Except Fault Buffer := b.retrieve 2

def retrieveInt8 (b : Buffer) : Except Fault Buffer := b.retrieve 1

def retrieveAsString (b : Buffer) (len : Nat) : Except Fault (Buffer × List Byte) := do
  check (len ≤ b.readableBytes) "len <= readableBytes()"
  let result := window b.buffer b.readerIndex (b.readerIndex + len)
  let b' ← b.retrieve len
  return (b', result)

def retrieveAllAsString (b : Buffer) : Except Fault (Buffer × List Byte) :=
  b.retrieveAsString b.readableBytes

/-- `std::copy` of `data` to the position `i` of the vector. -/
def copyTo (b : Buffer) (i : Nat) (data : List Byte) : Except Fault Buffer :=
  if i + data.length ≤ b.buffer.length then .ok { b with buffer := overwrite b.buffer i data }
  else .error .outOfBounds

def hasWritten (b : Buffer) (len : Nat) : Buffer :=
  { b with writerIndex := szAdd b.writerIndex len }

/-- The second branch of `makeSpace`: move readable data to the front, make
space inside buffer. -/
def compact (b : Buffer) : Except Fault Buffer := do
  check (kCheapPrepend < b.readerIndex) "kCheapPrepend < readerIndex_"
  let b₁ ← b.copyTo kCheapPrepend b.content
  let b₂ : Buffer := ⟨b₁.buffer, kCheapPrepend, szAdd kCheapPrepend b.readableBytes⟩
  check (b.readableBytes = b₂.readableBytes) "readable == readableBytes()"
  return b₂

def makeSpace (b : Buffer) (len : Nat) : Except Fault Buffer :=
  if szAdd b.writableBytes b.prependableBytes < szAdd len kCheapPrepend then
    .ok { b with buffer := resize b.buffer (szAdd b.writerIndex len) 0 }
  else
    b.compact

def ensureWritableBytes (b : Buffer) (len : Nat) : Except Fault Buffer := do
  let b' ← (if b.writableBytes < len then b.makeSpace len else .ok b : Except Fault Buffer)
  check (len ≤ b'.writableBytes) "writableBytes() >= len"
  return b'

def append (b : Buffer) (data : List Byte) : Except Fault Buffer := do
  let b₁ ← b.ensureWritableBytes data.length
  let b₂ ← b₁.copyTo b₁.writerIndex data
  return b₂.hasWritten data.length

def prepend (b : Buffer) (data : List Byte) : Except Fault Buffer := do
  check (data.length ≤ b.prependableBytes) "len <= prependableBytes()"
  let b₁ := { b with readerIndex := szSub b.readerIndex data.length }
  b₁.copyTo b₁.readerIndex data

def appendInt32 (o : ByteOrder) (b : Buffer) (x : BitVec 32) : Except Fault Buffer :=
  b.append (memory o 4 (hostToNetwork32 o x).toNat)

def appendInt16 (o : ByteOrder) (b : Buffer) (x : BitVec 16) : Except Fault Buffer :=
  b.append (memory o 2 (hostToNetwork16 o x).toNat)

def appendInt8 (o : ByteOrder) (b : Buffer) (x : BitVec 8) : Except Fault Buffer :=
  b.append (memory o 1 x.toNat)

def prependInt32 (o : ByteOrder) (b : Buffer) (x : BitVec 32) : Except Fault Buffer :=
  b.prepend (memory o 4 (hostToNetwork32 o x).toNat)

def prependInt16 (o : ByteOrder) (b : Buffer) (x : BitVec 16) : Except Fault Buffer :=
  b.prepend (memory o 2 (hostToNetwork16 o x).toNat)

def prependInt8 (o : ByteOrder) (b : Buffer) (x : BitVec 8) : Except Fault Buffer :=
  b.prepend (memory o 1 x.toNat)

/-- The integer in host order: `memcpy` of the first bytes at `peek()`. -/
def peekInt32 (o : ByteOrder) (b : Buffer) : Except Fault (BitVec 32) := do
  check (4 ≤ b.readableBytes) "readableBytes() >= sizeof(int32_t)"
  let be32 := BitVec.ofNat 32 (fromMemory o (window b.buffer b.readerIndex (b.readerIndex + 4)))
  return networkToHost32 o be32

def peekInt16 (o : ByteOrder) (b : Buffer) : Except Fault (BitVec 16) := do
  check (2 ≤ b.readableBytes) "readableBytes() >= sizeof(int16_t)"
  let be16 := BitVec.ofNat 16 (fromMemory o (window b.buffer b.readerIndex (b.readerIndex + 2)))
  return networkToHost16 o be16

def peekInt8 (o : ByteOrder) (b : Buffer) : Except Fault (BitVec 8) := do
  check (1 ≤ b.readableBytes) "readableBytes() >= sizeof(int8_t)"
  return BitVec.ofNat 8 (fromMemory o (window b.buffer b.readerIndex (b.readerIndex + 1)))

def readInt32 (o : ByteOrder) (b : Buffer) : Except Fault (Buffer × BitVec 32) := do
  let result ← b.peekInt32 o
  let b' ← b.retrieveInt32
  return (b', result)

def readInt16 (o : ByteOrder) (b : Buffer) : Except Fault (Buffer × BitVec 16) := do
  let result ← b.peekInt16 o
  let b' ← b.retrieveInt16
  return (b', result)

def readInt8 (o : ByteOrder) (b : Buffer) : Except Fault (Buffer × BitVec 8) := do
  let result ← b.peekInt8 o
  let b' ← b.retrieveInt8
  return (b', result)

/-- What `readv` reports: an errno, or the bytes it delivered. -/
inductive ReadResult where
  | error (errno : Int)
  | bytes (data : List Byte)
  deriving DecidableEq, Repr

/-- `Buffer::readFd`: the buffer, the result of `readv` and `*savedErrno` where
it is set. `readv` fills the writable part first and then `extrabuf`. -/
def readFd (b : Buffer) (r : ReadResult) : Except Fault (Buffer × Int × Option Int) :=
  match r with
  | .error errno => .ok (b, -1, some errno)
  | .bytes data => do
    let writable := b.writableBytes
    let b₁ ← b.copyTo b.writerIndex (data.take writable)
    if data.length ≤ writable then
      return (b₁.hasWritten data.length, data.length, none)
    else
      let b₂ ← append { b₁ with writerIndex := b₁.buffer.length } (data.drop writable)
      return (b₂, data.length, none)

/-! ## 2. The invariant -/

/-- The representation invariant. -/
structure Inv (b : Buffer) : Prop where
  reader_le : b.readerIndex ≤ b.writerIndex
  writer_le : b.writerIndex ≤ b.buffer.length
  size_ge : kCheapPrepend + kInitialSize ≤ b.buffer.length
  size_lt : b.buffer.length < sizeMod

/-- The constructor's three assertions hold. -/
theorem ctor_eq : ctor = .ok fresh := by decide +kernel

theorem length_fresh : fresh.buffer.length = kCheapPrepend + kInitialSize := by
  rw [fresh, List.length_replicate]
  rfl

theorem inv_fresh : fresh.Inv := by
  refine ⟨Nat.le_refl _, ?_, ?_, ?_⟩
  · rw [length_fresh]
    exact Nat.le_add_right _ _
  · exact length_fresh.ge
  · rw [length_fresh]
    decide

theorem content_fresh : fresh.content = [] := window_self _ _

section
variable {b b' : Buffer} {len : Nat} {data : List Byte}

theorem readableBytes_eq (hb : b.Inv) : b.readableBytes = b.writerIndex - b.readerIndex :=
  szSub_eq hb.reader_le (Nat.lt_of_le_of_lt hb.writer_le hb.size_lt)

theorem writableBytes_eq (hb : b.Inv) : b.writableBytes = b.buffer.length - b.writerIndex :=
  szSub_eq hb.writer_le hb.size_lt

theorem length_content (hb : b.Inv) : b.content.length = b.readableBytes := by
  have h₁ := hb.reader_le
  have h₂ := hb.writer_le
  rw [readableBytes_eq hb, content, length_window]
  omega

theorem content_eq_nil (hb : b.Inv) : b.content = [] ↔ b.readableBytes = 0 := by
  rw [← List.length_eq_zero_iff, length_content hb]

/-! ## 3. One specification for each operation -/

theorem retrieveAll_spec (hb : b.Inv) : b.retrieveAll.Inv ∧ b.retrieveAll.content = [] := by
  have h := hb.size_ge
  refine ⟨⟨Nat.le_refl _, ?_, h, hb.size_lt⟩, window_self _ _⟩
  simp only [retrieveAll]
  omega

/-- `retrieve` drops bytes from the front; taking the last one resets both
indices. -/
theorem retrieve_spec (hb : b.Inv) (h : len ≤ b.readableBytes) :
    ∃ b', b.retrieve len = .ok b' ∧ b'.Inv ∧ b'.content = b.content.drop len ∧
      (kCheapPrepend ≤ b.readerIndex → kCheapPrepend ≤ b'.readerIndex) := by
  obtain ⟨hr, hw, hge, hlt⟩ := hb
  have hread := readableBytes_eq ⟨hr, hw, hge, hlt⟩
  unfold retrieve
  rw [check_bind h]
  by_cases hl : len < b.readableBytes
  · have hadd : szAdd b.readerIndex len = b.readerIndex + len := szAdd_eq (by omega)
    refine ⟨{ b with readerIndex := b.readerIndex + len }, by simp [hl, hadd, pure, Except.pure],
      ⟨?_, hw, hge, hlt⟩, ?_, ?_⟩
    · show b.readerIndex + len ≤ b.writerIndex
      omega
    · exact (window_drop _ _ _ _).symm
    · intro h8
      exact Nat.le_add_right_of_le h8
  · have hall := retrieveAll_spec ⟨hr, hw, hge, hlt⟩
    refine ⟨b.retrieveAll, by simp [hl, pure, Except.pure], hall.1, ?_, fun _ => Nat.le_refl _⟩
    rw [hall.2, List.drop_eq_nil_of_le]
    rw [length_content ⟨hr, hw, hge, hlt⟩]
    omega

theorem retrieveUntil_spec (hb : b.Inv) (h : len ≤ b.readableBytes) :
    ∃ b', b.retrieveUntil (b.readerIndex + len) = .ok b' ∧ b'.Inv ∧
      b'.content = b.content.drop len ∧
      (kCheapPrepend ≤ b.readerIndex → kCheapPrepend ≤ b'.readerIndex) := by
  have hread := readableBytes_eq hb
  have hr := hb.reader_le
  have hend : b.readerIndex + len ≤ b.writerIndex := by omega
  unfold retrieveUntil
  rw [check_bind (Nat.le_add_right _ _), check_bind hend, Nat.add_sub_cancel_left]
  exact retrieve_spec hb h

theorem retrieveAsString_spec (hb : b.Inv) (h : len ≤ b.readableBytes) :
    ∃ b', b.retrieveAsString len = .ok (b', b.content.take len) ∧ b'.Inv ∧
      b'.content = b.content.drop len ∧
      (kCheapPrepend ≤ b.readerIndex → kCheapPrepend ≤ b'.readerIndex) := by
  obtain ⟨b', hok, hrest⟩ := retrieve_spec hb h
  have hread := readableBytes_eq hb
  have hr := hb.reader_le
  have htake : b.content.take len = window b.buffer b.readerIndex (b.readerIndex + len) :=
    window_take _ (by omega)
  refine ⟨b', ?_, hrest⟩
  unfold retrieveAsString
  rw [check_bind h, hok, htake]
  rfl

theorem retrieveAllAsString_spec (hb : b.Inv) :
    ∃ b', b.retrieveAllAsString = .ok (b', b.content) ∧ b'.Inv ∧ b'.content = [] := by
  obtain ⟨b', hok, hinv, hcontent, -⟩ := retrieveAsString_spec hb (Nat.le_refl b.readableBytes)
  have hlen := (length_content hb).le
  rw [List.take_of_length_le hlen] at hok
  rw [List.drop_eq_nil_of_le hlen] at hcontent
  exact ⟨b', hok, hinv, hcontent⟩

/-- A typed read: the integer that the first bytes denote, in host order. -/
theorem read_spec {α : Type} {n : Nat} (hb : b.Inv) (expr : String) (f : List Byte → α)
    (h : n ≤ b.readableBytes) :
    ∃ b', (do
        let result ← (do
          check (n ≤ b.readableBytes) expr
          return f (window b.buffer b.readerIndex (b.readerIndex + n)) : Except Fault α)
        let b' ← b.retrieve n
        return (b', result)) = .ok (b', f (b.content.take n)) ∧
      b'.Inv ∧ b'.content = b.content.drop n := by
  obtain ⟨b', hok, hinv, hcontent, -⟩ := retrieve_spec hb h
  have hread := readableBytes_eq hb
  have hr := hb.reader_le
  have htake : b.content.take n = window b.buffer b.readerIndex (b.readerIndex + n) :=
    window_take _ (by omega)
  refine ⟨b', ?_, hinv, hcontent⟩
  rw [check_bind h, hok, htake]
  rfl

theorem copyTo_ok {i : Nat} (h : b.copyTo i data = .ok b') :
    i + data.length ≤ b.buffer.length ∧ b' = { b with buffer := overwrite b.buffer i data } := by
  unfold copyTo at h
  split at h
  · next hi =>
    cases h
    exact ⟨hi, rfl⟩
  · cases h

theorem copyTo_eq {i : Nat} (h : i + data.length ≤ b.buffer.length) :
    b.copyTo i data = .ok { b with buffer := overwrite b.buffer i data } := if_pos h

/-- `prepend` adds bytes at the front. -/
theorem prepend_spec (hb : b.Inv) (h : data.length ≤ b.prependableBytes) :
    ∃ b', b.prepend data = .ok b' ∧ b'.Inv ∧ b'.content = data ++ b.content := by
  obtain ⟨hr, hw, hge, hlt⟩ := hb
  have hle : data.length ≤ b.readerIndex := h
  have hsub : szSub b.readerIndex data.length = b.readerIndex - data.length :=
    szSub_eq hle (by omega)
  have hfit : b.readerIndex - data.length + data.length ≤ b.buffer.length := by omega
  have hlen := length_overwrite (d := data) hfit
  unfold prepend
  rw [check_bind h, hsub]
  refine ⟨_, copyTo_eq hfit, ⟨?_, ?_, ?_, ?_⟩, ?_⟩
  · show b.readerIndex - data.length ≤ b.writerIndex
    omega
  · exact hlen.symm ▸ hw
  · exact hlen.symm ▸ hge
  · exact hlen.symm ▸ hlt
  · have hself := window_overwrite_self (d := data) hfit
    have hafter := window_overwrite_after (d := data) hfit (j := b.readerIndex)
      (k := b.writerIndex) (by omega)
    rw [Nat.sub_add_cancel hle] at hself
    calc window (overwrite b.buffer (b.readerIndex - data.length) data)
            (b.readerIndex - data.length) b.writerIndex
        = window (overwrite b.buffer (b.readerIndex - data.length) data)
              (b.readerIndex - data.length) b.readerIndex ++
            window (overwrite b.buffer (b.readerIndex - data.length) data)
              b.readerIndex b.writerIndex := (window_append _ (Nat.sub_le _ _) hr).symm
      _ = data ++ b.content := by rw [hself, hafter, content]

theorem prepend_reader (h : b.prepend data = .ok b') :
    b'.readerIndex = szSub b.readerIndex data.length := by
  obtain ⟨-, hcopy⟩ := check_bind_ok.mp h
  obtain ⟨-, rfl⟩ := copyTo_ok hcopy
  rfl

/-- Storing bytes at `beginWrite()` and reporting them adds them at the back. -/
theorem store_hasWritten (hb : b.Inv) (h : b.writerIndex + data.length ≤ b.buffer.length) :
    (hasWritten { b with buffer := overwrite b.buffer b.writerIndex data } data.length).Inv ∧
    (hasWritten { b with buffer := overwrite b.buffer b.writerIndex data } data.length).content =
      b.content ++ data := by
  obtain ⟨hr, hw, hge, hlt⟩ := hb
  have hadd : szAdd b.writerIndex data.length = b.writerIndex + data.length :=
    szAdd_eq (Nat.lt_of_le_of_lt h hlt)
  have hlen := length_overwrite (d := data) h
  have hself := window_overwrite_self (d := data) h
  have hbefore := window_overwrite_before (d := data) h (j := b.readerIndex)
    (Nat.le_refl b.writerIndex)
  unfold hasWritten
  rw [hadd]
  refine ⟨⟨?_, ?_, hlen.symm ▸ hge, hlen.symm ▸ hlt⟩, ?_⟩
  · exact Nat.le_add_right_of_le hr
  · exact hlen.symm ▸ h
  · show window _ b.readerIndex (b.writerIndex + data.length) = _
    rw [← window_append _ hr (Nat.le_add_right _ _), hself, hbefore, content]

/-- What `makeSpace` and `ensureWritableBytes` promise: the same readable bytes
and room for `len` more. -/
structure Room (b b' : Buffer) (len : Nat) : Prop where
  inv : b'.Inv
  content : b'.content = b.content
  fits : b'.writerIndex + len ≤ b'.buffer.length
  reader : kCheapPrepend ≤ b.readerIndex → kCheapPrepend ≤ b'.readerIndex

/-- Compaction: the readable bytes move down to `kCheapPrepend`. -/
theorem compact_spec (hb : b.Inv) (h : kCheapPrepend < b.readerIndex)
    (hroom : len + kCheapPrepend + b.readableBytes ≤ b.buffer.length) :
    ∃ b', b.compact = .ok b' ∧ Room b b' len := by
  obtain ⟨hr, hw, hge, hlt⟩ := hb
  have hread := readableBytes_eq ⟨hr, hw, hge, hlt⟩
  have hclen := length_content ⟨hr, hw, hge, hlt⟩
  have hfit : kCheapPrepend + b.content.length ≤ b.buffer.length := by omega
  have hadd : szAdd kCheapPrepend b.readableBytes = kCheapPrepend + b.readableBytes :=
    szAdd_eq (by omega)
  have hlen := length_overwrite (d := b.content) hfit
  have hsame : b.readableBytes = readableBytes ⟨overwrite b.buffer kCheapPrepend b.content,
      kCheapPrepend, szAdd kCheapPrepend b.readableBytes⟩ := by
    show b.readableBytes = szSub (szAdd kCheapPrepend b.readableBytes) kCheapPrepend
    rw [hadd, szSub_eq (Nat.le_add_right _ _) (by omega), Nat.add_sub_cancel_left]
  refine ⟨⟨overwrite b.buffer kCheapPrepend b.content, kCheapPrepend,
    szAdd kCheapPrepend b.readableBytes⟩, ?_, ?_⟩
  · refine check_bind_ok.mpr ⟨h, bind_ok.mpr ⟨_, copyTo_eq hfit, ?_⟩⟩
    exact check_bind_ok.mpr ⟨hsame, rfl⟩
  rw [hadd]
  refine ⟨⟨Nat.le_add_right _ _, ?_, ?_, ?_⟩, ?_, ?_, ?_⟩
  · show kCheapPrepend + b.readableBytes ≤ _
    rw [hlen]
    omega
  · exact hlen.symm ▸ hge
  · exact hlen.symm ▸ hlt
  · show window _ kCheapPrepend (kCheapPrepend + b.readableBytes) = _
    rw [← hclen]
    exact window_overwrite_self hfit
  · show kCheapPrepend + b.readableBytes + len ≤ _
    rw [hlen]
    omega
  · exact fun _ => Nat.le_refl _

/-- Both regimes of `makeSpace` make room. In the second, the guard and the
shortage of writable bytes give the assertion: more than `kCheapPrepend` bytes
are prependable. -/
theorem makeSpace_spec (hb : b.Inv) (hshort : b.writableBytes < len)
    (hsz : b.writerIndex + len + kCheapPrepend < sizeMod) :
    ∃ b', b.makeSpace len = .ok b' ∧ Room b b' len := by
  obtain ⟨hr, hw, hge, hlt⟩ := hb
  have hwrit := writableBytes_eq ⟨hr, hw, hge, hlt⟩
  have hread := readableBytes_eq ⟨hr, hw, hge, hlt⟩
  have h₁ : szAdd b.writableBytes b.prependableBytes = b.writableBytes + b.readerIndex :=
    szAdd_eq (by simp only [prependableBytes]; omega)
  have h₂ : szAdd len kCheapPrepend = len + kCheapPrepend := szAdd_eq (by omega)
  have h₃ : szAdd b.writerIndex len = b.writerIndex + len := szAdd_eq (by omega)
  unfold makeSpace
  rw [h₁, h₂, h₃]
  split
  · -- the vector grows and nothing moves
    refine ⟨_, rfl, ⟨⟨hr, ?_, ?_, ?_⟩, ?_, ?_, id⟩⟩
    · simp
    · rw [length_resize]
      omega
    · rw [length_resize]
      omega
    · exact window_resize 0 hw (Nat.le_add_right _ _)
    · simp
  · next hguard =>
    exact compact_spec ⟨hr, hw, hge, hlt⟩ (by omega) (by omega)

theorem ensureWritableBytes_spec (hb : b.Inv)
    (hsz : b.writerIndex + len + kCheapPrepend < sizeMod) :
    ∃ b', b.ensureWritableBytes len = .ok b' ∧ Room b b' len := by
  have hwrit := writableBytes_eq hb
  have hw := hb.writer_le
  unfold ensureWritableBytes
  by_cases hshort : b.writableBytes < len
  · obtain ⟨b', hok, hroom⟩ := makeSpace_spec hb hshort hsz
    have hpass : len ≤ b'.writableBytes := by
      have := hroom.fits
      rw [writableBytes_eq hroom.inv]
      omega
    refine ⟨b', ?_, hroom⟩
    simp only [if_pos hshort, hok, ok_bind, check_bind hpass]
    rfl
  · refine ⟨b, ?_, ⟨hb, rfl, by omega, id⟩⟩
    simp only [if_neg hshort, ok_bind, check_bind (Nat.le_of_not_lt hshort)]
    rfl

/-- A compaction that returns has kept the vector's size. -/
theorem compact_ok (h : b.compact = .ok b') :
    kCheapPrepend < b.readerIndex ∧ b'.buffer.length = b.buffer.length ∧
      b'.writerIndex = szAdd kCheapPrepend b.readableBytes := by
  obtain ⟨hreader, hrest⟩ := check_bind_ok.mp h
  obtain ⟨b₁, hcopy, hret⟩ := bind_ok.mp hrest
  obtain ⟨-, heq⟩ := check_bind_ok.mp hret
  obtain ⟨hfit, rfl⟩ := copyTo_ok hcopy
  cases heq
  exact ⟨hreader, length_overwrite hfit, rfl⟩

/-- What `makeSpace` can do, also where sums wrap: grow the vector and move
nothing, or compact. -/
theorem makeSpace_cases (h : b.makeSpace len = .ok b') :
    (szAdd b.writableBytes b.prependableBytes < szAdd len kCheapPrepend ∧
      b' = { b with buffer := resize b.buffer (szAdd b.writerIndex len) 0 }) ∨
    b.compact = .ok b' := by
  unfold makeSpace at h
  split at h
  · next hguard =>
    cases h
    exact .inl ⟨hguard, rfl⟩
  · exact .inr h

theorem ensureWritableBytes_cases (h : b.ensureWritableBytes len = .ok b') :
    (len ≤ b.writableBytes ∧ b' = b) ∨ (b.writableBytes < len ∧ b.makeSpace len = .ok b') := by
  obtain ⟨b₁, hspace, hcheck⟩ := bind_ok.mp h
  obtain ⟨-, heq⟩ := check_bind_ok.mp hcheck
  cases heq
  split at hspace
  · next hshort => exact .inr ⟨hshort, hspace⟩
  · next hshort =>
    cases hspace
    exact .inl ⟨Nat.le_of_not_lt hshort, rfl⟩

/-- Making space never moves the writer index up. -/
theorem ensureWritableBytes_writer_le (hb : b.Inv) (h : b.ensureWritableBytes len = .ok b') :
    b'.writerIndex ≤ b.writerIndex := by
  obtain ⟨-, rfl⟩ | ⟨-, hspace⟩ := ensureWritableBytes_cases h
  · exact Nat.le_refl _
  obtain ⟨-, rfl⟩ | hcompact := makeSpace_cases hspace
  · exact Nat.le_refl _
  · obtain ⟨hreader, -, hwriter⟩ := compact_ok hcompact
    have hread := readableBytes_eq hb
    have hr := hb.reader_le
    have hadd : szAdd kCheapPrepend b.readableBytes ≤ kCheapPrepend + b.readableBytes :=
      Nat.mod_le _ _
    omega

/-- `append` adds bytes at the back, and its assertions hold. -/
theorem append_spec (hb : b.Inv)
    (hsz : b.writerIndex + data.length + kCheapPrepend < sizeMod) :
    ∃ b', b.append data = .ok b' ∧ b'.Inv ∧ b'.content = b.content ++ data ∧
      (kCheapPrepend ≤ b.readerIndex → kCheapPrepend ≤ b'.readerIndex) := by
  obtain ⟨b₁, hok, hroom⟩ := ensureWritableBytes_spec hb hsz
  obtain ⟨hinv, hcontent⟩ := store_hasWritten hroom.inv hroom.fits
  refine ⟨_, ?_, hinv, hroom.content ▸ hcontent, hroom.reader⟩
  unfold append
  rw [hok, ok_bind, copyTo_eq hroom.fits]
  rfl

/-! ## 4. An `append` that returns has appended -/

/-- Without a bound on the sizes: where `ensureWritableBytes` returns and the
bytes fit, it has made room. A sum that wraps never fits. -/
theorem ensureWritableBytes_ok (hb : b.Inv) (h : b.ensureWritableBytes len = .ok b')
    (hfit : b'.writerIndex + len ≤ b'.buffer.length) : Room b b' len := by
  obtain ⟨b₁, hspace, hcheck⟩ := bind_ok.mp h
  obtain ⟨-, heq⟩ := check_bind_ok.mp hcheck
  cases heq
  split at hspace
  · unfold makeSpace at hspace
    split at hspace
    · cases hspace
      have hn := szAdd_lt b.writerIndex len
      replace hfit : b.writerIndex + len ≤ szAdd b.writerIndex len := by simpa using hfit
      refine ⟨⟨hb.reader_le, ?_, ?_, ?_⟩, ?_, ?_, id⟩
      · rw [length_resize]
        exact Nat.le_of_add_right_le hfit
      · rw [length_resize]
        have hshort := writableBytes_eq hb
        have hge := hb.size_ge
        omega
      · rw [length_resize]
        exact hn
      · exact window_resize 0 hb.writer_le (Nat.le_of_add_right_le hfit)
      · rw [length_resize]
        exact hfit
    · obtain ⟨hreader, -⟩ := check_bind_ok.mp hspace
      have hread := readableBytes_eq hb
      have hw := hb.writer_le
      have hr := hb.reader_le
      have hsmall : 0 + kCheapPrepend + b.readableBytes ≤ b.buffer.length := by omega
      obtain ⟨b₂, hok, hroom⟩ := compact_spec hb hreader hsmall
      rw [hspace] at hok
      cases hok
      exact ⟨hroom.inv, hroom.content, hfit, hroom.reader⟩
  · cases hspace
    exact ⟨hb, rfl, hfit, id⟩

theorem append_ok (hb : b.Inv) (h : b.append data = .ok b') :
    b'.Inv ∧ b'.content = b.content ++ data := by
  obtain ⟨b₁, hens, h₁⟩ := bind_ok.mp h
  obtain ⟨b₂, hcopy, hret⟩ := bind_ok.mp h₁
  obtain ⟨hfit, rfl⟩ := copyTo_ok hcopy
  cases hret
  have hroom := ensureWritableBytes_ok hb hens hfit
  rw [← hroom.content]
  exact store_hasWritten hroom.inv hfit

/-- `append` moves the writer index up by no more than it adds. -/
theorem append_writer_le (hb : b.Inv) (h : b.append data = .ok b') :
    b'.writerIndex ≤ b.writerIndex + data.length := by
  obtain ⟨b₁, hens, h₁⟩ := bind_ok.mp h
  obtain ⟨b₂, hcopy, hret⟩ := bind_ok.mp h₁
  obtain ⟨-, rfl⟩ := copyTo_ok hcopy
  cases hret
  have hwriter := ensureWritableBytes_writer_le hb hens
  have hadd : szAdd b₁.writerIndex data.length ≤ b₁.writerIndex + data.length := Nat.mod_le _ _
  show szAdd b₁.writerIndex data.length ≤ _
  omega

/-- A `readFd` that returns has added the bytes that `readv` delivered, those of
`extrabuf` included. -/
theorem readFd_ok (hb : b.Inv) {n : Int} {e : Option Int}
    (h : b.readFd (.bytes data) = .ok (b', n, e)) :
    b'.Inv ∧ b'.content = b.content ++ data ∧ n = data.length := by
  obtain ⟨b₁, hcopy, hrest⟩ := bind_ok.mp h
  obtain ⟨hfit, rfl⟩ := copyTo_ok hcopy
  obtain ⟨hinv, hcontent⟩ := store_hasWritten hb hfit
  split at hrest
  · next hle =>
    cases hrest
    rw [List.take_of_length_le hle] at hinv hcontent ⊢
    exact ⟨hinv, hcontent, rfl⟩
  · next hle =>
    obtain ⟨b₂, happ, hret⟩ := bind_ok.mp hrest
    cases hret
    have hlen : (data.take b.writableBytes).length = b.writableBytes := by
      rw [List.length_take]
      omega
    have hsplit := List.take_append_drop b.writableBytes data
    generalize data.take b.writableBytes = d at *
    have hw := writableBytes_eq hb
    have hwl := hb.writer_le
    have hlt := hb.size_lt
    -- the first part has filled the vector
    have hfull : szAdd b.writerIndex d.length = (overwrite b.buffer b.writerIndex d).length := by
      rw [length_overwrite hfit, szAdd_eq (by omega)]
      omega
    rw [hasWritten, hfull] at hinv hcontent
    obtain ⟨hinv', hcontent'⟩ := append_ok hinv happ
    refine ⟨hinv', ?_, rfl⟩
    rw [hcontent', hcontent, List.append_assoc, hsplit]

/-- What `readFd` returns. Only a failed `readv` sets `*savedErrno`. -/
theorem readFd_result {n : Int} {e : Option Int} (h : b.readFd (.bytes data) = .ok (b', n, e)) :
    n = data.length ∧ e = none := by
  obtain ⟨b₁, -, hrest⟩ := bind_ok.mp h
  split at hrest
  · cases hrest
    exact ⟨rfl, rfl⟩
  · obtain ⟨b₂, -, hret⟩ := bind_ok.mp hrest
    cases hret
    exact ⟨rfl, rfl⟩

/-- `readFd` returns where the spilled bytes can be appended to a full vector. -/
theorem readFd_returns (hb : b.Inv)
    (hsz : b.buffer.length + (data.length - b.writableBytes) + kCheapPrepend < sizeMod) :
    ∃ res, b.readFd (.bytes data) = .ok res := by
  have hw := writableBytes_eq hb
  have hwl := hb.writer_le
  have hfit : b.writerIndex + (data.take b.writableBytes).length ≤ b.buffer.length := by
    rw [List.length_take]
    omega
  unfold readFd
  dsimp only
  rw [bind_ok_eq (copyTo_eq hfit)]
  split
  · exact ⟨_, rfl⟩
  · have hlen := length_overwrite hfit
    have hfull : Inv ⟨overwrite b.buffer b.writerIndex (data.take b.writableBytes), b.readerIndex,
        (overwrite b.buffer b.writerIndex (data.take b.writableBytes)).length⟩ :=
      ⟨by simpa [hlen] using hb.reader_le.trans hwl, Nat.le_refl _, hlen.symm ▸ hb.size_ge,
        hlen.symm ▸ hb.size_lt⟩
    have hspilled : (overwrite b.buffer b.writerIndex (data.take b.writableBytes)).length +
        (data.drop b.writableBytes).length + kCheapPrepend < sizeMod := by
      rw [List.length_drop]
      simpa [hlen] using hsz
    obtain ⟨b₂, happ, -⟩ := append_spec hfull hspilled
    exact ⟨_, bind_ok_eq happ⟩

theorem readFd_nil (hb : b.Inv) : ∃ b', b.readFd (.bytes []) = .ok (b', 0, none) := by
  have hfit : b.writerIndex + (([] : List Byte).take b.writableBytes).length ≤ b.buffer.length := by
    simpa using hb.writer_le
  refine ⟨hasWritten { b with
    buffer := overwrite b.buffer b.writerIndex (([] : List Byte).take b.writableBytes) } 0, ?_⟩
  exact bind_ok.mpr ⟨_, copyTo_eq hfit, if_pos (Nat.zero_le _)⟩

/-! ## 5. The faults, also without the invariant -/

/-- The faults that `append`, `retrieve` and `readFd` can end in. -/
def faults : List Fault :=
  [.outOfBounds, .assertion "len <= readableBytes()", .assertion "kCheapPrepend < readerIndex_",
    .assertion "readable == readableBytes()", .assertion "writableBytes() >= len"]

/-- The call ends in no other fault. -/
abbrev Faulty {α : Type} (x : Except Fault α) : Prop := Ends x (· ∈ faults) fun _ => True

theorem copyTo_faulty (b : Buffer) (i : Nat) (data : List Byte) : Faulty (b.copyTo i data) := by
  unfold copyTo
  split
  · exact .ok trivial
  · exact List.mem_cons_self

theorem retrieve_faulty (b : Buffer) (len : Nat) : Faulty (b.retrieve len) := by
  refine ends_check (by decide) fun _ => ?_
  split <;> exact .ok trivial

theorem compact_faulty (b : Buffer) : Faulty b.compact := by
  refine ends_check (by decide) fun _ => (copyTo_faulty _ _ _).bind fun b₁ _ => ?_
  exact ends_check (by decide) fun _ => .ok trivial

theorem ensureWritableBytes_faulty (b : Buffer) (len : Nat) :
    Faulty (b.ensureWritableBytes len) := by
  have hspace : Faulty (if b.writableBytes < len then b.makeSpace len else .ok b) := by
    unfold makeSpace
    split_ifs
    · exact .ok trivial
    · exact compact_faulty b
    · exact .ok trivial
  exact hspace.bind fun b' _ => ends_check (by decide) fun _ => .ok trivial

theorem append_faulty (b : Buffer) (data : List Byte) : Faulty (b.append data) :=
  (ensureWritableBytes_faulty _ _).bind fun _ _ => (copyTo_faulty _ _ _).bind fun _ _ => .ok trivial

theorem readFd_faulty (b : Buffer) (r : ReadResult) : Faulty (b.readFd r) := by
  cases r with
  | error errno => exact .ok trivial
  | bytes data =>
    refine (copyTo_faulty _ _ _).bind fun b₁ _ => ?_
    split
    · exact .ok trivial
    · exact (append_faulty _ _).bind fun _ _ => .ok trivial

end

end Buffer

end NetFrame
