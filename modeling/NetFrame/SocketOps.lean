import NetFrame.Basic
import NetFrame.Lib.Bytes

/-!
# Byte order

The conversions of `SocketOps.h` (`htobe32` and its family) for either byte
order of the host, and the bytes of an integer in the host's memory.

Results:
1. `memory_hostToNetwork32`, ..: the bytes in memory of a converted integer are
   its big-endian bytes, whatever the byte order of the host.
2. `networkToHost32_bigEndian`, ..: loading these bytes and converting them back
   gives the integer.
-/

namespace NetFrame

/-- The byte order of the host. -/
inductive ByteOrder where
  | little
  | big
  deriving DecidableEq, Repr

/-- The bytes of an `n`-byte integer in memory, lowest address first. -/
def memory (o : ByteOrder) (n : Nat) (v : Nat) : List Byte :=
  match o with
  | .little => Bytes.ofNat n v
  | .big => (Bytes.ofNat n v).reverse

/-- The integer that the given bytes in memory denote. -/
def fromMemory (o : ByteOrder) (bs : List Byte) : Nat :=
  match o with
  | .little => Bytes.toNat bs
  | .big => Bytes.toNat bs.reverse

/-- `htobe16`, `htobe32`, `htobe64` and their inverses `be16toh`, ..: a swap of
the bytes on a little-endian host, nothing on a big-endian one. -/
def htobe (o : ByteOrder) (n : Nat) (v : Nat) : Nat :=
  match o with
  | .little => Bytes.toNat (Bytes.ofNat n v).reverse
  | .big => v

def hostToNetwork32 (o : ByteOrder) (host32 : BitVec 32) : BitVec 32 :=
  BitVec.ofNat 32 (htobe o 4 host32.toNat)

def hostToNetwork16 (o : ByteOrder) (host16 : BitVec 16) : BitVec 16 :=
  BitVec.ofNat 16 (htobe o 2 host16.toNat)

def networkToHost32 (o : ByteOrder) (net32 : BitVec 32) : BitVec 32 :=
  BitVec.ofNat 32 (htobe o 4 net32.toNat)

def networkToHost16 (o : ByteOrder) (net16 : BitVec 16) : BitVec 16 :=
  BitVec.ofNat 16 (htobe o 2 net16.toNat)

/-- The big-endian bytes of an `n`-byte integer. -/
def bigEndian (n : Nat) (v : Nat) : List Byte := (Bytes.ofNat n v).reverse

@[simp] theorem length_memory (o : ByteOrder) (n v : Nat) : (memory o n v).length = n := by
  cases o <;> simp [memory]

@[simp] theorem length_bigEndian (n v : Nat) : (bigEndian n v).length = n := by
  simp [bigEndian]

theorem htobe_lt (o : ByteOrder) {n v : Nat} (h : v < 256 ^ n) : htobe o n v < 256 ^ n := by
  cases o with
  | little => simpa [htobe] using Bytes.toNat_lt (Bytes.ofNat n v).reverse
  | big => exact h

/-- A converted integer lies in memory in network order. -/
theorem memory_htobe (o : ByteOrder) (n v : Nat) : memory o n (htobe o n v) = bigEndian n v := by
  cases o with
  | little => exact Bytes.ofNat_toNat_reverse (Bytes.length_ofNat n v)
  | big => rfl

theorem memory_hostToNetwork32 (o : ByteOrder) (x : BitVec 32) :
    memory o 4 (hostToNetwork32 o x).toNat = bigEndian 4 x.toNat := by
  have hlt : htobe o 4 x.toNat < 2 ^ 32 := htobe_lt o (n := 4) x.isLt
  rw [hostToNetwork32, BitVec.toNat_ofNat, Nat.mod_eq_of_lt hlt, memory_htobe]

theorem memory_hostToNetwork16 (o : ByteOrder) (x : BitVec 16) :
    memory o 2 (hostToNetwork16 o x).toNat = bigEndian 2 x.toNat := by
  have hlt : htobe o 2 x.toNat < 2 ^ 16 := htobe_lt o (n := 2) x.isLt
  rw [hostToNetwork16, BitVec.toNat_ofNat, Nat.mod_eq_of_lt hlt, memory_htobe]

theorem memory_int8 (o : ByteOrder) (x : BitVec 8) : memory o 1 x.toNat = bigEndian 1 x.toNat := by
  cases o <;> rfl

/-! ## Back to the host -/

theorem fromMemory_memory (o : ByteOrder) (n v : Nat) :
    fromMemory o (memory o n v) = v % 256 ^ n := by
  cases o with
  | little => exact Bytes.toNat_ofNat n v
  | big => simpa [fromMemory, memory] using Bytes.toNat_ofNat n v

/-- Swapping the bytes twice changes nothing. -/
theorem htobe_htobe (o : ByteOrder) {n v : Nat} (h : v < 256 ^ n) :
    htobe o n (htobe o n v) = v := by
  cases o with
  | little =>
    have hswap : Bytes.ofNat n (Bytes.toNat (Bytes.ofNat n v).reverse) =
        (Bytes.ofNat n v).reverse :=
      Bytes.ofNat_toNat_reverse (Bytes.length_ofNat n v)
    rw [htobe, htobe, hswap, List.reverse_reverse, Bytes.toNat_ofNat, Nat.mod_eq_of_lt h]
  | big => rfl

/-- The big-endian bytes of an integer in memory denote the converted integer. -/
theorem fromMemory_bigEndian (o : ByteOrder) {n v : Nat} (h : v < 256 ^ n) :
    fromMemory o (bigEndian n v) = htobe o n v := by
  rw [← memory_htobe o n v, fromMemory_memory, Nat.mod_eq_of_lt (htobe_lt o h)]

theorem networkToHost32_bigEndian (o : ByteOrder) (x : BitVec 32) :
    networkToHost32 o (BitVec.ofNat 32 (fromMemory o (bigEndian 4 x.toNat))) = x := by
  have hlt : x.toNat < 256 ^ 4 := x.isLt
  have hconv : htobe o 4 x.toNat < 2 ^ 32 := htobe_lt o (n := 4) hlt
  rw [fromMemory_bigEndian o hlt, networkToHost32, BitVec.toNat_ofNat, Nat.mod_eq_of_lt hconv,
    htobe_htobe o hlt, BitVec.ofNat_toNat, BitVec.setWidth_eq]

theorem networkToHost16_bigEndian (o : ByteOrder) (x : BitVec 16) :
    networkToHost16 o (BitVec.ofNat 16 (fromMemory o (bigEndian 2 x.toNat))) = x := by
  have hlt : x.toNat < 256 ^ 2 := x.isLt
  have hconv : htobe o 2 x.toNat < 2 ^ 16 := htobe_lt o (n := 2) hlt
  rw [fromMemory_bigEndian o hlt, networkToHost16, BitVec.toNat_ofNat, Nat.mod_eq_of_lt hconv,
    htobe_htobe o hlt, BitVec.ofNat_toNat, BitVec.setWidth_eq]

theorem int8_bigEndian (o : ByteOrder) (x : BitVec 8) :
    BitVec.ofNat 8 (fromMemory o (bigEndian 1 x.toNat)) = x := by
  have hlt : x.toNat < 256 ^ 1 := x.isLt
  rw [← memory_int8 o x, fromMemory_memory, Nat.mod_eq_of_lt hlt, BitVec.ofNat_toNat,
    BitVec.setWidth_eq]

end NetFrame
