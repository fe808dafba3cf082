import NetFrame.ByteDeque

/-!
# The memory of a Buffer

`makeSpace` grows the vector from the writer index on and keeps the consumed
bytes in front. It does so only while fewer bytes are consumed than are asked
for, so that what it wastes is bounded by the request, whatever went before.

Results:
1. `Buffer.execOp_bounded`, `Buffer.readFd_bounded`: one call whose request is
   within the bounds keeps the invariant and the bound on the vector.
2. `memory_bounded`: when no request is longer than `L` and no request lets the
   readable bytes grow past `M`, the vector never has more than
   `max (8 + 1024) (M + L + 7)` bytes, over runs of any length.
-/

namespace NetFrame

open Trans Window

namespace Buffer

/-! ## 1. One request for space -/

/-- A request for `len` bytes within the bounds: at most `L` bytes, and at most `M`
readable ones once they are written. -/
def Request (M L : Nat) (b : Buffer) (len : Nat) : Prop :=
  len ≤ L ∧ b.readableBytes + len ≤ M

instance (M L : Nat) (b : Buffer) (len : Nat) : Decidable (b.Request M L len) :=
  inferInstanceAs (Decidable (_ ∧ _))

section
variable {b b' : Buffer} {M L len : Nat} {data : List Byte}

/-- The vector keeps its size or ends `len` bytes behind the writer index. -/
theorem ensureWritableBytes_length (h : b.ensureWritableBytes len = .ok b') :
    b'.buffer.length = b.buffer.length ∨ b'.buffer.length = szAdd b.writerIndex len := by
  obtain ⟨-, rfl⟩ | ⟨-, hspace⟩ := ensureWritableBytes_cases h
  · exact .inl rfl
  obtain ⟨-, rfl⟩ | hcompact := makeSpace_cases hspace
  · exact .inr (length_resize _ _ _)
  · exact .inl (compact_ok hcompact).2.1

theorem ensureWritableBytes_lt (hlt : b.buffer.length < sizeMod)
    (h : b.ensureWritableBytes len = .ok b') : b'.buffer.length < sizeMod := by
  obtain hlen | hlen := ensureWritableBytes_length h
  · exact hlen ▸ hlt
  · exact hlen ▸ szAdd_lt _ _

/-- A request within the bounds keeps the invariant and the bound on the size.
The vector grows only where the consumed bytes are fewer than `len + 8`. -/
theorem ensureWritableBytes_bounded (hML : M + L + 7 < sizeMod) (hb : b.Inv)
    (hreq : b.Request M L len) (h : b.ensureWritableBytes len = .ok b') :
    b'.Inv ∧ b'.buffer.length ≤ max b.buffer.length (M + L + 7) := by
  obtain ⟨hlen, hread⟩ := hreq
  obtain ⟨-, rfl⟩ | ⟨hshort, hspace⟩ := ensureWritableBytes_cases h
  · exact ⟨hb, Nat.le_max_left _ _⟩
  obtain ⟨hr, hw, hge, hlt⟩ := hb
  have hreadable := readableBytes_eq ⟨hr, hw, hge, hlt⟩
  have hwritable := writableBytes_eq ⟨hr, hw, hge, hlt⟩
  obtain ⟨hguard, rfl⟩ | hcompact := makeSpace_cases hspace
  · have h₁ : szAdd b.writableBytes b.prependableBytes = b.writableBytes + b.readerIndex :=
      szAdd_eq (by simp only [prependableBytes]; omega)
    have h₂ : szAdd len kCheapPrepend ≤ len + kCheapPrepend := Nat.mod_le _ _
    have hwaste : b.readerIndex < len + kCheapPrepend := by omega
    have hend : b.writerIndex + len ≤ M + L + 7 := by
      simp only [kCheapPrepend] at hwaste
      omega
    have h₃ : szAdd b.writerIndex len = b.writerIndex + len := szAdd_eq (by omega)
    rw [h₃]
    refine ⟨⟨hr, ?_, ?_, ?_⟩, ?_⟩
    · rw [length_resize]
      exact Nat.le_add_right _ _
    · rw [length_resize]
      omega
    · rw [length_resize]
      omega
    · rw [length_resize]
      exact le_max_of_le_right hend
  · obtain ⟨hreader, hsame, -⟩ := compact_ok hcompact
    have hroom : 0 + kCheapPrepend + b.readableBytes ≤ b.buffer.length := by omega
    obtain ⟨b₁, hok, hmade⟩ := compact_spec ⟨hr, hw, hge, hlt⟩ hreader hroom
    rw [hcompact] at hok
    cases hok
    exact ⟨hmade.inv, hsame ▸ Nat.le_max_left _ _⟩

/-- An `append` changes the size of the vector by its request only. -/
theorem append_memory (h : b.append data = .ok b') :
    ∃ b₁, b.ensureWritableBytes data.length = .ok b₁ ∧ b'.buffer.length = b₁.buffer.length := by
  obtain ⟨b₁, hens, h₁⟩ := bind_ok.mp h
  obtain ⟨b₂, hcopy, hret⟩ := bind_ok.mp h₁
  obtain ⟨hfit, rfl⟩ := copyTo_ok hcopy
  cases hret
  exact ⟨b₁, hens, length_overwrite hfit⟩

theorem append_bounded (hML : M + L + 7 < sizeMod) (hb : b.Inv)
    (hreq : b.Request M L data.length) (h : b.append data = .ok b') :
    b'.Inv ∧ b'.buffer.length ≤ max b.buffer.length (M + L + 7) := by
  obtain ⟨b₁, hens, hlen⟩ := append_memory h
  exact ⟨(append_ok hb h).1, hlen ▸ (ensureWritableBytes_bounded hML hb hreq hens).2⟩

/-! ## 2. The other operations -/

/-- The request that an operation makes is within the bounds. -/
def Requests (M L : Nat) (b : Buffer) : Demand → Prop
  | .grow len => b.Request M L len
  | _ => True

instance (M L : Nat) (b : Buffer) : ∀ d, Decidable (b.Requests M L d)
  | .grow len => inferInstanceAs (Decidable (b.Request M L len))
  | .front _ | .take _ | .room _ | .nothing => .isTrue trivial

/-- One operation, where the bound is in the range of `size_t`. -/
theorem execOp_bounded {o : ByteOrder} {op : Op} {out : List Byte} (hML : M + L + 7 < sizeMod)
    (hb : b.Inv) (hreq : b.Requests M L op.demand) (h : execOp o b op = .ok (b', out)) :
    b'.Inv ∧ b'.buffer.length ≤ max b.buffer.length (M + L + 7) := by
  obtain ⟨data, hdemand, hexec⟩ | ⟨len, hdemand, hexec⟩ | hother := execOp_cases o b op
  · rw [hdemand] at hreq
    rw [hexec] at h
    exact append_bounded hML hb hreq (silent_ok h)
  · rw [hdemand] at hreq
    rw [hexec] at h
    exact ensureWritableBytes_bounded hML hb hreq (silent_ok h)
  · obtain ⟨hlen, hmeets⟩ := hother b' out h
    obtain ⟨b₁, hok, hbec⟩ := execOp_implements o hb op (hmeets hb)
    rw [h] at hok
    cases hok
    exact ⟨hbec.inv, hlen ▸ Nat.le_max_left _ _⟩

/-- One operation, without any bound: the size is a `size_t`. -/
theorem execOp_lt {o : ByteOrder} {op : Op} {out : List Byte} (hlt : b.buffer.length < sizeMod)
    (h : execOp o b op = .ok (b', out)) : b'.buffer.length < sizeMod := by
  obtain ⟨data, -, hexec⟩ | ⟨len, -, hexec⟩ | hother := execOp_cases o b op
  · rw [hexec] at h
    obtain ⟨b₁, hens, hlen⟩ := append_memory (silent_ok h)
    exact hlen ▸ ensureWritableBytes_lt hlt hens
  · rw [hexec] at h
    exact ensureWritableBytes_lt hlt (silent_ok h)
  · exact (hother b' out h).1 ▸ hlt

/-! ## 3. `readFd` -/

/-- The buffer at the second part of a spilling `readFd`, up to its bytes. -/
def filled (b : Buffer) : Buffer := { b with writerIndex := b.buffer.length }

/-- The request of the spill append, where there is one, is within the bounds. -/
def ReadRequests (M L : Nat) (b : Buffer) : ReadResult → Prop
  | .error _ => True
  | .bytes data =>
    b.writableBytes < data.length → b.filled.Request M L (data.length - b.writableBytes)

instance (M L : Nat) (b : Buffer) : ∀ r, Decidable (b.ReadRequests M L r)
  | .error _ => .isTrue trivial
  | .bytes data => inferInstanceAs (Decidable (b.writableBytes < data.length → _))

/-- A `readFd` keeps the size of the vector, or its spill append decides it. -/
theorem readFd_cases {n : Int} {e : Option Int} (h : b.readFd (.bytes data) = .ok (b', n, e)) :
    b'.buffer.length = b.buffer.length ∨
    (b.writableBytes < data.length ∧ ∃ bytes, bytes.length = b.buffer.length ∧
      append { b.filled with buffer := bytes } (data.drop b.writableBytes) = .ok b') := by
  obtain ⟨b₁, hcopy, hrest⟩ := bind_ok.mp h
  obtain ⟨hfit, rfl⟩ := copyTo_ok hcopy
  split at hrest
  · cases hrest
    exact .inl (length_overwrite hfit)
  · next hspill =>
    obtain ⟨b₂, happ, hret⟩ := bind_ok.mp hrest
    cases hret
    refine .inr ⟨Nat.lt_of_not_le hspill, _, length_overwrite hfit, ?_⟩
    rw [length_overwrite hfit] at happ
    exact happ

theorem readFd_bounded {r : ReadResult} {n : Int} {e : Option Int} (hML : M + L + 7 < sizeMod)
    (hb : b.Inv) (hreq : b.ReadRequests M L r) (h : b.readFd r = .ok (b', n, e)) :
    b'.Inv ∧ b'.buffer.length ≤ max b.buffer.length (M + L + 7) := by
  cases r with
  | error errno =>
    cases h
    exact ⟨hb, Nat.le_max_left _ _⟩
  | bytes data =>
    refine ⟨(readFd_ok hb h).1, ?_⟩
    obtain hlen | ⟨hspill, bytes, hlen, happ⟩ := readFd_cases h
    · exact hlen ▸ Nat.le_max_left _ _
    · have hfilled : Inv { b.filled with buffer := bytes } :=
        ⟨hb.reader_le.trans hb.writer_le, hlen.ge, hlen ▸ hb.size_ge, hlen ▸ hb.size_lt⟩
      have hspillreq : Request M L { b.filled with buffer := bytes }
          (data.drop b.writableBytes).length := by
        rw [List.length_drop]
        exact hreq hspill
      exact hlen ▸ (append_bounded hML hfilled hspillreq happ).2

theorem readFd_lt {r : ReadResult} {n : Int} {e : Option Int} (hlt : b.buffer.length < sizeMod)
    (h : b.readFd r = .ok (b', n, e)) : b'.buffer.length < sizeMod := by
  cases r with
  | error errno =>
    cases h
    exact hlt
  | bytes data =>
    obtain hlen | ⟨-, bytes, hlen, happ⟩ := readFd_cases h
    · exact hlen ▸ hlt
    · obtain ⟨b₁, hens, hlen'⟩ := append_memory happ
      exact hlen' ▸ ensureWritableBytes_lt (hlen ▸ hlt) hens

end

end Buffer

/-! ## 4. Runs of any length -/

open Buffer

/-- All operations on a family of buffers: those of `Buffer.h` and `readFd`. -/
inductive MemoryOp (ι : Type) where
  | call (op : BuffersOp ι)
  | readFd (i : ι) (r : ReadResult)

section
variable {ι : Type} [DecidableEq ι]

def execMemory (o : ByteOrder) (s : ι → Buffer) :
    MemoryOp ι → Except Fault ((ι → Buffer) × List Byte)
  | .call op => execBuffers o s op
  | .readFd i r => ((s i).readFd r).map fun (b, _, _) => (Function.update s i b, [])

/-- Each request has `len ≤ L` and `readableBytes() + len ≤ M`, the spill append
of a `readFd` included. -/
def Within (M L : Nat) (s : ι → Buffer) : MemoryOp ι → Prop
  | .call (.on i op) => (s i).Requests M L op.demand
  | .call (.swap _ _) => True
  | .readFd i r => (s i).ReadRequests M L r

instance (M L : Nat) (s : ι → Buffer) : ∀ op, Decidable (Within M L s op)
  | .call (.on i op) => inferInstanceAs (Decidable ((s i).Requests M L op.demand))
  | .call (.swap _ _) => .isTrue trivial
  | .readFd i r => inferInstanceAs (Decidable ((s i).ReadRequests M L r))

/-- A call changes one buffer by one of its operations, or swaps two buffers. -/
theorem execMemory_cases {o : ByteOrder} {s t : ι → Buffer} {op : MemoryOp ι} {out : List Byte}
    (h : execMemory o s op = .ok (t, out)) :
    (∃ i op' b out', op = .call (.on i op') ∧ execOp o (s i) op' = .ok (b, out') ∧
      t = Function.update s i b) ∨
    (∃ i r b n e, op = .readFd i r ∧ (s i).readFd r = .ok (b, n, e) ∧
      t = Function.update s i b) ∨
    ∀ i, ∃ j, t i = s j := by
  cases op with
  | call op =>
    cases op with
    | on i op =>
      refine .inl ?_
      cases hexec : execOp o (s i) op with
      | error e => simp [execMemory, execBuffers, hexec, Except.map] at h
      | ok r =>
        obtain ⟨b, out'⟩ := r
        simp only [execMemory, execBuffers, hexec, Except.map, Except.ok.injEq, Prod.mk.injEq] at h
        exact ⟨i, op, b, out', rfl, hexec, h.1.symm⟩
    | swap i j =>
      refine .inr (.inr fun k => ?_)
      cases h
      rcases eq_or_ne k j with rfl | hj
      · exact ⟨i, Function.update_self _ _ _⟩
      rw [Function.update_of_ne hj]
      rcases eq_or_ne k i with rfl | hi
      · exact ⟨j, Function.update_self _ _ _⟩
      · exact ⟨k, Function.update_of_ne hi _ _⟩
  | readFd i r =>
    refine .inr (.inl ?_)
    cases hexec : (s i).readFd r with
    | error e => simp [execMemory, hexec, Except.map] at h
    | ok res =>
      obtain ⟨b, n, e⟩ := res
      simp only [execMemory, hexec, Except.map, Except.ok.injEq, Prod.mk.injEq] at h
      exact ⟨i, r, b, n, e, rfl, hexec, h.1.symm⟩

/-- A property of all buffers that each operation on one buffer keeps. -/
theorem execMemory_keeps {o : ByteOrder} {P : Buffer → Prop} {M L : Nat} {s t : ι → Buffer}
    {op : MemoryOp ι} {out : List Byte}
    (hop : ∀ b op b' out', P b → b.Requests M L op.demand → execOp o b op = .ok (b', out') → P b')
    (hread : ∀ b r b' n e, P b → b.ReadRequests M L r → b.readFd r = .ok (b', n, e) → P b')
    (hs : ∀ i, P (s i)) (hl : Within M L s op) (h : execMemory o s op = .ok (t, out)) (k : ι) :
    P (t k) := by
  obtain ⟨i, op', b, out', rfl, hexec, rfl⟩ | ⟨i, r, b, n, e, rfl, hexec, rfl⟩ | hswap :=
    execMemory_cases h
  · rcases eq_or_ne k i with rfl | hk
    · rw [Function.update_self]
      exact hop _ _ _ _ (hs k) hl hexec
    · rw [Function.update_of_ne hk]
      exact hs k
  · rcases eq_or_ne k i with rfl | hk
    · rw [Function.update_self]
      exact hread _ _ _ _ _ (hs k) hl hexec
    · rw [Function.update_of_ne hk]
      exact hs k
  · obtain ⟨j, hj⟩ := hswap k
    exact hj ▸ hs j

/-- Over every run of operations on fresh buffers in which each request is within
the bounds, no vector outgrows the first size and `M + L + 7`. No other condition
is needed: a call that breaks another precondition does not return. -/
theorem memory_bounded (o : ByteOrder) (M L : Nat) (ops : List (MemoryOp ι))
    (hl : LegalOps (execMemory o) (Within M L) (fun _ => Buffer.fresh) ops) (s : ι → Buffer)
    (out : List (List Byte))
    (hrun : runOps (execMemory o) (fun _ => Buffer.fresh) ops = .ok (s, out))
    (i : ι) : (s i).buffer.length ≤ max (8 + 1024) (M + L + 7) := by
  have hfresh : Buffer.fresh.buffer.length = 8 + 1024 := length_fresh
  by_cases hML : M + L + 7 < sizeMod
  · have hinv := runOps_invariant
      (I := fun s : ι → Buffer => ∀ i, (s i).Inv ∧ (s i).buffer.length ≤ max (8 + 1024) (M + L + 7))
      (fun s op t r hs hw h => execMemory_keeps
        (P := fun b => b.Inv ∧ b.buffer.length ≤ max (8 + 1024) (M + L + 7))
        (fun b op b' out' hb hreq hexec => ?_) (fun b r b' n e hb hreq hexec => ?_) hs hw h)
      (fun _ => ⟨inv_fresh, hfresh ▸ Nat.le_max_left _ _⟩) hl hrun
    · exact (hinv i).2
    · obtain ⟨hinv, hle⟩ := execOp_bounded hML hb.1 hreq hexec
      exact ⟨hinv, by omega⟩
    · obtain ⟨hinv, hle⟩ := readFd_bounded hML hb.1 hreq hexec
      exact ⟨hinv, by omega⟩
  · -- the bound is beyond every `size_t`
    have hlt := runOps_invariant (I := fun s : ι → Buffer => ∀ i, (s i).buffer.length < sizeMod)
      (fun s op t r hs hw h => execMemory_keeps (P := fun b => b.buffer.length < sizeMod)
        (fun b op b' out' hb _ hexec => execOp_lt hb hexec)
        (fun b r b' n e hb _ hexec => readFd_lt hb hexec) hs hw h)
      (fun _ => inv_fresh.size_lt) hl hrun
    have := hlt i
    omega

end

/-- A run that attains the bound for requests of 512 bytes and a backlog of 1025:
511 consumed bytes stay in front when the full vector grows. -/
def wastefulOps : List (MemoryOp Unit) :=
  [.call (.on () (.append (List.replicate 512 1))),
    .readFd () (.bytes (List.replicate 512 2)),
    .call (.on () (.retrieve 511)), .call (.on () (.append (List.replicate 512 3)))]

theorem wastefulOps_bounded :
    ∃ s out, runOps (execMemory .little) (fun _ => Buffer.fresh) wastefulOps = .ok (s, out) ∧
      (s ()).buffer.length = 1544 ∧ (s ()).buffer.length ≤ max (8 + 1024) (1025 + 512 + 7) := by
  have hsize : (runOps (execMemory .little) (fun _ => Buffer.fresh) wastefulOps).map
      (fun r => (r.1 ()).buffer.length) = .ok 1544 := by decide +kernel
  cases hrun : runOps (execMemory .little) (fun _ => Buffer.fresh) wastefulOps with
  | error e =>
    rw [hrun] at hsize
    cases hsize
  | ok r =>
    rw [hrun] at hsize
    exact ⟨r.1, r.2, rfl, Except.ok.inj hsize,
      memory_bounded .little 1025 512 wastefulOps (by decide +kernel) r.1 r.2 hrun ()⟩

end NetFrame
