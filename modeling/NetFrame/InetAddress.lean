import NetFrame.Names
import Mathlib.Data.List.TakeWhile

/-!
# Addresses as text

`InetAddress` prints an IPv4 address and reads one: `toIp` and `toIpPort` print
with `inet_ntop` and `snprintf` into buffers of 32 bytes, and the constructor from
an `ip` and a `port` reads with `inet_pton`.

Results:
1. `ofIpPort_reads`: the constructor reads back what `toIp` has printed, it reads
   nothing else, and from every other text it makes the address of any interface.
2. `toIpPort_separates`: `toIpPort` prints the whole of the address and the port,
   so that different addresses have different texts.
-/

namespace NetFrame

/-- The text of a C string: what stands before the first NUL. -/
def cString (s : String) : List Char := s.toList.takeWhile (· ≠ Char.ofNat 0)

namespace SocketOps

/-! ## 1. Reading -/

/-- The number at the front of a dotted quad, and what follows it: a decimal
number up to 255 with no leading zero. -/
def number (cs : List Char) : Option (Byte × List Char) :=
  let ds := cs.takeWhile Char.isDigit
  let v := Nat.ofDigitChars 10 ds 0
  if ds ≠ [] ∧ (ds.head? = some '0' → ds = ['0']) ∧ v < 256 then
    some (BitVec.ofNat 8 v, cs.dropWhile Char.isDigit)
  else none

def dot : List Char → Option (List Char)
  | '.' :: cs => some cs
  | _ => none

/-- `inet_pton(AF_INET, ..)`: the address whose bytes in memory are the four
numbers of the text. -/
def inet_pton (o : ByteOrder) (src : List Char) : Option (BitVec 32) := do
  let (a, r) ← number src
  let (b, r) ← number (← dot r)
  let (c, r) ← number (← dot r)
  let (d, r) ← number (← dot r)
  if r = [] then some (BitVec.ofNat 32 (fromMemory o [a, b, c, d])) else none

/-- What it prints when `inet_pton` fails is left out: it then leaves `sin_addr`. -/
def fromIpPort (o : ByteOrder) (ip : List Char) (port : BitVec 16) (addr : SockaddrIn) :
    SockaddrIn where
  sin_addr := (inet_pton o ip).getD addr.sin_addr
  sin_port := hostToNetwork16 o port

/-- `none` where `inet_ntop` leaves the buffer as it was. -/
def toIp (o : ByteOrder) (size : Nat) (addr : SockaddrIn) : Except Fault (Option String) := do
  check (INET_ADDRSTRLEN ≤ size) "size >= INET_ADDRSTRLEN"
  return inet_ntop o addr.sin_addr size

end SocketOps

namespace InetAddress

open SocketOps

/-- `InetAddress(const std::string& ip, uint16_t port)`: `m_addr` is zero before
`fromIpPort`. -/
def ofIpPort (o : ByteOrder) (ip : String) (port : BitVec 16) : SockaddrIn :=
  fromIpPort o (cString ip) port ⟨0, 0⟩

def toIp (o : ByteOrder) (m_addr : SockaddrIn) : Except Fault (Option String) :=
  SocketOps.toIp o 32 m_addr

/-! ## 2. Dotted quads -/

theorem number_iff {cs r : List Char} {a : Byte} :
    number cs = some (a, r) ↔
      cs = Nat.toDigits 10 a.toNat ++ r ∧ ∀ c, r.head? = some c → c.isDigit = false := by
  unfold number
  dsimp only
  constructor
  · intro h
    split at h
    · next hnum =>
      obtain ⟨hne, hzero, hlt⟩ := hnum
      cases h
      have hnumeral : Decimal.IsNumeral (cs.takeWhile Char.isDigit) :=
        ⟨hne, fun c hc => List.mem_takeWhile_imp hc, hzero⟩
      refine ⟨?_, fun c hc => ?_⟩
      · rw [BitVec.toNat_ofNat, Nat.mod_eq_of_lt hlt, Decimal.toDigits_ofDigitChars hnumeral,
          List.takeWhile_append_dropWhile]
      · have hstop := List.head?_dropWhile_not Char.isDigit cs
        rw [hc] at hstop
        simpa using hstop
    · cases h
  · rintro ⟨rfl, hr⟩
    have hnumeral := Decimal.isNumeral_toDigits a.toNat
    have hstop : r.takeWhile Char.isDigit = [] ∧ r.dropWhile Char.isDigit = r := by
      cases r with
      | nil => exact ⟨rfl, rfl⟩
      | cons c r => simp [hr c rfl]
    have htake : (Nat.toDigits 10 a.toNat ++ r).takeWhile Char.isDigit =
        Nat.toDigits 10 a.toNat := by
      rw [List.takeWhile_append_of_pos hnumeral.digits, hstop.1, List.append_nil]
    have hdrop : (Nat.toDigits 10 a.toNat ++ r).dropWhile Char.isDigit = r := by
      rw [List.dropWhile_append_of_pos hnumeral.digits, hstop.2]
    rw [htake, hdrop, Nat.ofDigitChars_ten_toDigits,
      if_pos ⟨hnumeral.ne_nil, hnumeral.noLeadingZero, a.isLt⟩, BitVec.ofNat_toNat,
      BitVec.setWidth_eq]

theorem dot_iff {cs r : List Char} : dot cs = some r ↔ cs = '.' :: r := by
  unfold dot
  split
  · simp [eq_comm]
  · next hne =>
    exact ⟨fun h => (by cases h), fun h => absurd h (hne r)⟩

/-- The text of the four bytes `a`, `b`, `c`, `d`. -/
def quad (a b c d : Byte) : List Char :=
  Nat.toDigits 10 a.toNat ++ '.' :: (Nat.toDigits 10 b.toNat ++ '.' ::
    (Nat.toDigits 10 c.toNat ++ '.' :: Nat.toDigits 10 d.toNat))

theorem number_dot (a : Byte) (r : List Char) :
    number (Nat.toDigits 10 a.toNat ++ '.' :: r) = some (a, '.' :: r) := by
  refine number_iff.mpr ⟨rfl, fun c hc => ?_⟩
  cases hc
  rfl

theorem number_end (a : Byte) : number (Nat.toDigits 10 a.toNat) = some (a, []) :=
  number_iff.mpr ⟨(List.append_nil _).symm, by simp⟩

theorem inet_pton_iff {o : ByteOrder} {cs : List Char} {v : BitVec 32} :
    inet_pton o cs = some v ↔
      ∃ a b c d, cs = quad a b c d ∧ v = BitVec.ofNat 32 (fromMemory o [a, b, c, d]) := by
  simp only [inet_pton, Option.bind_eq_bind, Option.bind_eq_some_iff, Prod.exists]
  constructor
  · rintro ⟨a, r₁, ha, r₂, h₂, b, r₃, hb, r₄, h₄, c, r₅, hc, r₆, h₆, d, r₇, hd, hend⟩
    split at hend
    · next hnil =>
      cases hend
      subst hnil
      rw [number_iff] at ha hb hc hd
      rw [dot_iff] at h₂ h₄ h₆
      refine ⟨a, b, c, d, ?_, rfl⟩
      rw [ha.1, h₂, hb.1, h₄, hc.1, h₆, hd.1, List.append_nil]
      rfl
    · cases hend
  · rintro ⟨a, b, c, d, rfl, rfl⟩
    exact ⟨a, _, number_dot a _, _, rfl, b, _, number_dot b _, _, rfl, c, _, number_dot c _, _, rfl,
      d, _, number_end d, if_pos rfl⟩

/-- Four bytes in memory and the integer that they are. -/
theorem memory_eq_iff {o : ByteOrder} {v : BitVec 32} {bs : List Byte} (hbs : bs.length = 4) :
    memory o 4 v.toNat = bs ↔ v = BitVec.ofNat 32 (fromMemory o bs) := by
  have hlt : v.toNat < 256 ^ 4 := v.isLt
  constructor
  · rintro rfl
    rw [fromMemory_memory, Nat.mod_eq_of_lt hlt, BitVec.ofNat_toNat, BitVec.setWidth_eq]
  · rintro rfl
    have hfit : fromMemory o bs < 2 ^ 32 := by
      cases o with
      | little =>
        have := Bytes.toNat_lt bs
        rw [hbs] at this
        exact this
      | big =>
        have := Bytes.toNat_lt bs.reverse
        rw [List.length_reverse, hbs] at this
        exact this
    rw [BitVec.toNat_ofNat, Nat.mod_eq_of_lt hfit]
    cases o with
    | little => exact hbs ▸ Bytes.ofNat_toNat bs
    | big =>
      have hrev : bs.reverse.length = 4 := List.length_reverse.trans hbs
      have hback := Bytes.ofNat_toNat bs.reverse
      rw [hrev] at hback
      exact (congrArg List.reverse hback).trans (List.reverse_reverse bs)

theorem length_toDigits_byte (a : Byte) : (Nat.toDigits 10 a.toNat).length ≤ 3 :=
  (Nat.length_toDigits_le_iff (by decide) (by decide)).mpr (a.isLt.trans (by decide))

theorem length_quad_le (a b c d : Byte) : (quad a b c d).length ≤ 15 := by
  have ha := length_toDigits_byte a
  have hb := length_toDigits_byte b
  have hc := length_toDigits_byte c
  have hd := length_toDigits_byte d
  simp only [quad, List.length_append, List.length_cons]
  omega

/-- `inet_ntop` prints the four bytes into any buffer of `INET_ADDRSTRLEN`. -/
theorem inet_ntop_eq {o : ByteOrder} {v : BitVec 32} {size : Nat} {a b c d : Byte}
    (hmem : memory o 4 v.toNat = [a, b, c, d]) (hsize : INET_ADDRSTRLEN ≤ size) :
    inet_ntop o v size = some (String.ofList (quad a b c d)) := by
  have htext : toString a.toNat ++ "." ++ toString b.toNat ++ "." ++ toString c.toNat ++ "." ++
      toString d.toNat = String.ofList (quad a b c d) := by
    apply String.toList_inj.mp
    simp [quad, Nat.toString_eq_repr]
  have hlen : (String.ofList (quad a b c d)).length < size := by
    rw [String.length_ofList]
    exact Nat.lt_of_lt_of_le (Nat.lt_succ_of_le (length_quad_le a b c d)) hsize
  rw [inet_ntop, hmem]
  dsimp only
  rw [htext, if_pos hlen]

/-- `toIp` prints the bytes of the address; it never fails, and its buffer is set. -/
theorem toIp_eq {o : ByteOrder} {addr : SockaddrIn} {a b c d : Byte}
    (hmem : memory o 4 addr.sin_addr.toNat = [a, b, c, d]) :
    toIp o addr = .ok (some (String.ofList (quad a b c d))) := by
  rw [toIp, SocketOps.toIp, check_bind (by decide), inet_ntop_eq hmem (by decide)]
  rfl

theorem exists_bytes (o : ByteOrder) (v : BitVec 32) :
    ∃ a b c d, memory o 4 v.toNat = [a, b, c, d] := by
  have hlen := length_memory o 4 v.toNat
  match hmem : memory o 4 v.toNat with
  | [a, b, c, d] => exact ⟨a, b, c, d, rfl⟩
  | [] | [_] | [_, _] | [_, _, _] | _ :: _ :: _ :: _ :: _ :: _ => simp [hmem] at hlen

/-- Reading and printing are inverse. -/
theorem inet_pton_iff_toIp {o : ByteOrder} {cs : List Char} {addr : SockaddrIn} :
    inet_pton o cs = some addr.sin_addr ↔ toIp o addr = .ok (some (String.ofList cs)) := by
  rw [inet_pton_iff]
  constructor
  · rintro ⟨a, b, c, d, rfl, hv⟩
    exact toIp_eq ((memory_eq_iff rfl).mpr hv)
  · intro h
    obtain ⟨a, b, c, d, hmem⟩ := exists_bytes o addr.sin_addr
    rw [toIp_eq hmem] at h
    have hquad : quad a b c d = cs :=
      String.ofList_injective (Option.some.inj (Except.ok.inj h))
    exact ⟨a, b, c, d, hquad.symm, (memory_eq_iff rfl).mp hmem⟩

/-- A quad is made of digits and dots. -/
theorem mem_quad {a b c d : Byte} {x : Char} (h : x ∈ quad a b c d) :
    x.isDigit = true ∨ x = '.' := by
  have hdigit : ∀ {n : Nat}, x ∈ Nat.toDigits 10 n → x.isDigit = true :=
    Nat.isDigit_of_mem_toDigits (by decide) (by decide)
  simp only [quad, List.mem_append, List.mem_cons] at h
  rcases h with h | h | h | h | h | h | h
  · exact .inl (hdigit h)
  · exact .inr h
  · exact .inl (hdigit h)
  · exact .inr h
  · exact .inl (hdigit h)
  · exact .inr h
  · exact .inl (hdigit h)

theorem cString_quad (a b c d : Byte) : cString (String.ofList (quad a b c d)) = quad a b c d := by
  rw [cString, String.toList_ofList, List.takeWhile_eq_self_iff]
  intro x hx
  have hne : x ≠ Char.ofNat 0 := by
    rintro rfl
    exact absurd (mem_quad hx) (by decide)
  simpa using hne

/-! ## 3. Reading what was printed -/

theorem hostToNetwork16_networkToHost16 (o : ByteOrder) (port : BitVec 16) :
    hostToNetwork16 o (networkToHost16 o port) = port := by
  have hlt : port.toNat < 256 ^ 2 := port.isLt
  have hconv : htobe o 2 port.toNat < 2 ^ 16 := htobe_lt o (n := 2) hlt
  rw [hostToNetwork16, networkToHost16, BitVec.toNat_ofNat, Nat.mod_eq_of_lt hconv,
    htobe_htobe o hlt, BitVec.ofNat_toNat, BitVec.setWidth_eq]

theorem hostToNetwork32_zero (o : ByteOrder) : hostToNetwork32 o 0 = 0 := by
  cases o <;> rfl

/-- The constructor reads back what `toIp` has printed. For any `ip` it gives the
one address that `toIp` prints as `ip`; where there is none, it gives the same as
`InetAddress(port)`, the address of any interface. -/
theorem ofIpPort_reads (o : ByteOrder) :
    (∀ addr, ∃ text, toIp o addr = .ok (some text) ∧
      ofIpPort o text (networkToHost16 o addr.sin_port) = addr) ∧
    (∀ ip port,
      (toIp o (ofIpPort o ip port) = .ok (some (String.ofList (cString ip))) ∧
        (ofIpPort o ip port).sin_port = hostToNetwork16 o port) ∨
      ((∀ addr, toIp o addr ≠ .ok (some (String.ofList (cString ip)))) ∧
        ofIpPort o ip port = ofPort o port)) := by
  refine ⟨fun addr => ?_, fun ip port => ?_⟩
  · obtain ⟨a, b, c, d, hmem⟩ := exists_bytes o addr.sin_addr
    refine ⟨_, toIp_eq hmem, ?_⟩
    have hread := inet_pton_iff_toIp.mpr (toIp_eq hmem)
    rw [ofIpPort, cString_quad, fromIpPort, hread, Option.getD_some,
      hostToNetwork16_networkToHost16]
  · cases hread : inet_pton o (cString ip) with
    | some v =>
      left
      have hv : (ofIpPort o ip port).sin_addr = v := by
        rw [ofIpPort, fromIpPort, hread, Option.getD_some]
      exact ⟨inet_pton_iff_toIp.mp (hv ▸ hread), rfl⟩
    | none =>
      right
      refine ⟨fun addr h => ?_, ?_⟩
      · rw [← inet_pton_iff_toIp, hread] at h
        cases h
      · rw [ofIpPort, fromIpPort, hread, Option.getD_none, ofPort, hostToNetwork32_zero]

example : ofIpPort .little "127.0.0.1" 8086 = ⟨0x0100007f, 0x961f⟩ := by decide +kernel

example : ofIpPort .little "127.0.0.256" 8086 = ofPort .little 8086 := by decide +kernel

/-- `toIpPort` prints the address and the port in full. -/
theorem toIpPort_eq {o : ByteOrder} {addr : SockaddrIn} {a b c d : Byte}
    (hmem : memory o 4 addr.sin_addr.toNat = [a, b, c, d]) :
    toIpPort o addr = String.ofList (quad a b c d ++ ':' ::
      Nat.toDigits 10 (networkToHost16 o addr.sin_port).toNat) := by
  have hport : (Nat.toDigits 10 (networkToHost16 o addr.sin_port).toNat).length ≤ 5 :=
    (Nat.length_toDigits_le_iff (by decide) (by decide)).mpr ((BitVec.isLt _).trans (by decide))
  have hquad := length_quad_le a b c d
  rw [toIpPort, SocketOps.toIpPort, inet_ntop_eq hmem (by decide), Option.getD_some, snprintf]
  congr 1
  rw [List.take_of_length_le]
  · simp [Nat.toString_eq_repr]
  · simp only [Nat.toString_eq_repr, String.toList_append, String.toList_ofList,
      Nat.toList_repr, List.length_append]
    show _ + 1 + _ ≤ 31
    omega

/-- The text of `toIpPort` is that of `toIp`, a colon and the port, and different
addresses have different texts. -/
theorem toIpPort_separates (o : ByteOrder) (x y : SockaddrIn) :
    (∃ text, toIp o x = .ok (some text) ∧ toIpPort o x =
      text ++ ":" ++ toString (networkToHost16 o x.sin_port).toNat) ∧
    (toIpPort o x = toIpPort o y ↔ x = y) := by
  obtain ⟨a, b, c, d, hx⟩ := exists_bytes o x.sin_addr
  obtain ⟨a', b', c', d', hy⟩ := exists_bytes o y.sin_addr
  refine ⟨⟨_, toIp_eq hx, ?_⟩, fun h => ?_, fun h => h ▸ rfl⟩
  · rw [toIpPort_eq hx]
    apply String.toList_inj.mp
    simp [Nat.toString_eq_repr]
  rw [toIpPort_eq hx, toIpPort_eq hy] at h
  -- neither a quad nor a port has a colon
  have hcolon : ∀ n, ':' ∉ Nat.toDigits 10 n := fun n hmem =>
    absurd (Nat.isDigit_of_mem_toDigits (by decide) (by decide) hmem) (by decide)
  have hquad : ':' ∉ quad a b c d := fun hmem => absurd (mem_quad hmem) (by decide)
  obtain ⟨hip, -, hport⟩ :=
    (List.append_cons_inj_of_notMem hquad (hcolon _)).mp (String.ofList_injective h)
  have haddr : x.sin_addr = y.sin_addr := by
    have hreadx := inet_pton_iff_toIp.mpr (toIp_eq hx)
    have hready := inet_pton_iff_toIp.mpr (toIp_eq hy)
    rw [hip, hready] at hreadx
    exact (Option.some.inj hreadx).symm
  have hsame : networkToHost16 o x.sin_port = networkToHost16 o y.sin_port :=
    BitVec.eq_of_toNat_eq (Decimal.toDigits_injective hport)
  have hnet : x.sin_port = y.sin_port := by
    rw [← hostToNetwork16_networkToHost16 o x.sin_port, hsame, hostToNetwork16_networkToHost16]
  calc x = ⟨x.sin_addr, x.sin_port⟩ := rfl
    _ = ⟨y.sin_addr, y.sin_port⟩ := by rw [haddr, hnet]

end InetAddress

end NetFrame
