import NetFrame.InputStream
import NetFrame.Lib.Search

/-!
# `findCRLF`

`Buffer::findCRLF` searches the readable bytes for the end of a line. A reader
of lines calls it after each `append` or `readFd`, and the two characters can
arrive in different ones. What follows `writerIndex_` in the vector are stale
bytes, so a CR at the end of the readable bytes may stand in front of an old LF.

Results:
1. `Buffer.findCRLF_spec`, `Buffer.findCRLFFrom_spec`: the result is the first
   occurrence of the pair that lies wholly inside the readable bytes.
2. `Buffer.findCRLF_stable`: growth keeps a pair that was found, and finds a new
   one also when it starts at the last byte that was there before.
-/

namespace NetFrame

open Trans Outcome Search

namespace Buffer

/-! ## 1. The search -/

def kCRLF : List Byte := [13, 10]

/-- `crlf == beginWrite() ? NULL : crlf`. -/
def foundBefore (last crlf : Nat) : Option Nat := if crlf = last then none else some crlf

def findCRLF (b : Buffer) : Option Nat :=
  foundBefore b.writerIndex (search b.buffer b.readerIndex b.writerIndex kCRLF)

/-- `findCRLF(start)`. -/
def findCRLFFrom (b : Buffer) (start : Nat) : Except Fault (Option Nat) := do
  check (b.readerIndex ≤ start) "peek() <= start"
  check (start ≤ b.writerIndex) "start <= beginWrite()"
  return foundBefore b.writerIndex (search b.buffer start b.writerIndex kCRLF)

/-- A pointer into the readable bytes by its offset from `peek()`. -/
def offset (b : Buffer) (k : Nat) : Nat := b.readerIndex + k

section
variable {b b' : Buffer} {data : List Byte} {start k p : Nat} {res : Option Nat}

theorem foundBefore_search {l pat : List Byte} {first last : Nat} (hle : first ≤ last)
    (hlast : last ≤ l.length) (hpat : pat ≠ []) :
    foundBefore last (search l first last pat) = some p ↔ First pat (l.take last) first p := by
  unfold foundBefore
  rcases search_spec pat l hle with ⟨hend, hnone⟩ | ⟨hlt, hfirst⟩
  · rw [if_pos hend]
    refine ⟨nofun, fun h => ?_⟩
    have hlen := h.occurs.add_length_le hpat
    have hpos := List.length_pos_iff.mpr hpat
    rw [List.length_take_of_le hlast] at hlen
    exact absurd h.occurs (hnone p h.start_le (by omega))
  · rw [if_neg hlt.ne, Option.some_inj]
    constructor
    · rintro rfl
      exact hfirst
    · intro h
      exact hfirst.unique h

/-- Nothing behind `beginWrite()` is part of an occurrence. -/
theorem first_content_iff :
    First kCRLF (b.buffer.take b.writerIndex) (b.offset start) p ↔
      ∃ k, p = b.offset k ∧ First kCRLF b.content start k := by
  have hcontent : b.content = (b.buffer.take b.writerIndex).drop b.readerIndex :=
    List.drop_take.symm
  rw [hcontent]
  constructor
  · intro h
    obtain ⟨k, rfl⟩ := Nat.exists_eq_add_of_le (Nat.le_of_add_right_le h.start_le)
    exact ⟨k, rfl, (first_drop_iff _).mp h⟩
  · rintro ⟨k, rfl, h⟩
    exact (first_drop_iff _).mpr h

theorem offset_le (hb : b.Inv) (hstart : start ≤ b.readableBytes) :
    b.offset start ≤ b.writerIndex := by
  rw [readableBytes_eq hb] at hstart
  exact Nat.add_le_of_le_sub' hb.reader_le hstart

theorem findCRLFFrom_ok (hb : b.Inv) (hstart : start ≤ b.readableBytes) :
    b.findCRLFFrom (b.offset start) =
      .ok (foundBefore b.writerIndex (search b.buffer (b.offset start) b.writerIndex kCRLF)) := by
  have hpeek : b.readerIndex ≤ b.offset start := Nat.le_add_right _ _
  unfold findCRLFFrom
  rw [check_bind hpeek, check_bind (offset_le hb hstart)]
  rfl

theorem findCRLFFrom_spec (hb : b.Inv) (hstart : start ≤ b.readableBytes)
    (h : b.findCRLFFrom (b.offset start) = .ok res) :
    res = some p ↔ ∃ k, p = b.offset k ∧ First kCRLF b.content start k := by
  rw [findCRLFFrom_ok hb hstart] at h
  cases h
  rw [foundBefore_search (offset_le hb hstart) hb.writer_le (by decide), first_content_iff]

theorem findCRLFFrom_zero (hb : b.Inv) : b.findCRLFFrom (b.offset 0) = .ok b.findCRLF :=
  findCRLFFrom_ok hb (Nat.zero_le _)

theorem findCRLF_spec (hb : b.Inv) :
    b.findCRLF = some p ↔ ∃ k, p = b.offset k ∧ First kCRLF b.content 0 k :=
  findCRLFFrom_spec hb (Nat.zero_le _) (findCRLFFrom_zero hb)

theorem findCRLF_offset (hb : b.Inv) :
    b.findCRLF = some (b.offset k) ↔ First kCRLF b.content 0 k := by
  rw [findCRLF_spec hb]
  constructor
  · rintro ⟨k', heq, h⟩
    rwa [Nat.add_left_cancel heq]
  · intro h
    exact ⟨k, rfl, h⟩

/-- A result that the search has exactly for the first occurrence is `NULL`
exactly where there is no occurrence. -/
theorem eq_none_iff (h : ∀ p, res = some p ↔ ∃ k, p = b.offset k ∧ First kCRLF b.content start k) :
    res = none ↔ ∀ k, start ≤ k → ¬Occurs kCRLF b.content k := by
  rw [Option.eq_none_iff_forall_ne_some]
  constructor
  · intro hnone k hk hocc
    obtain ⟨j, hj⟩ := exists_first_iff.mpr ⟨k, hk, hocc⟩
    exact hnone (b.offset j) ((h _).mpr ⟨j, rfl, hj⟩)
  · intro hnone p hp
    obtain ⟨k, -, hk⟩ := (h p).mp hp
    exact hnone k hk.start_le hk.occurs

/-! ## 2. Growth -/

/-- `Grown b data b'`: any sequence of `append` and `readFd` calls, of which each
returned and which added `data`, makes `b'` of `b`. -/
inductive Grown (b : Buffer) : List Byte → Buffer → Prop
  | refl : Grown b [] b
  | append {data d : List Byte} {b₁ b₂ : Buffer} :
      Grown b data b₁ → b₁.append d = .ok b₂ → Grown b (data ++ d) b₂
  | readFd {data : List Byte} {b₁ b₂ : Buffer} {r : ReadResult} {n : Int} {e : Option Int} :
      Grown b data b₁ → b₁.readFd r = .ok (b₂, n, e) → Grown b (data ++ r.data) b₂

theorem Grown.spec (hb : b.Inv) (h : Grown b data b') :
    b'.Inv ∧ b'.content = b.content ++ data := by
  induction h with
  | refl => exact ⟨hb, (List.append_nil _).symm⟩
  | append _ happ ih =>
    obtain ⟨hinv, hcontent⟩ := append_ok ih.1 happ
    exact ⟨hinv, by rw [hcontent, ih.2, List.append_assoc]⟩
  | readFd _ hread ih =>
    obtain ⟨hinv, hcontent, -⟩ := readFd_spec ih.1 hread
    exact ⟨hinv, by rw [hcontent, ih.2, List.append_assoc]⟩

/-- What was found is found again, at the same offset. -/
theorem Grown.found (hb : b.Inv) (h : Grown b data b') (hk : b.findCRLF = some (b.offset k)) :
    b'.findCRLF = some (b'.offset k) := by
  obtain ⟨hinv, hcontent⟩ := h.spec hb
  rw [findCRLF_offset hinv, hcontent]
  exact ((findCRLF_offset hb).mp hk).append (by decide) data

/-- The search may go on at the last byte that was there before: the pair has two. -/
theorem Grown.resume (hb : b.Inv) (h : Grown b data b') (hnone : b.findCRLF = none) :
    b'.findCRLFFrom (b'.offset (max b.readableBytes 1 - 1)) = .ok b'.findCRLF := by
  obtain ⟨hinv, hcontent⟩ := h.spec hb
  have hold := (eq_none_iff fun _ => findCRLF_spec hb).mp hnone
  rw [← length_content hb]
  rcases Nat.eq_zero_or_pos b.content.length with hzero | hpos
  · rw [hzero]
    exact findCRLFFrom_zero hinv
  · rw [Nat.max_eq_left hpos]
    have hstart : b.content.length - 1 ≤ b'.readableBytes := by
      rw [← length_content hinv, hcontent, List.length_append]
      omega
    have hok := findCRLFFrom_ok hinv hstart
    rw [hok]
    congr 1
    refine Option.ext fun p => ?_
    have hreach : b.content.length - 1 + kCRLF.length ≤ b.content.length + 1 :=
      (Nat.sub_add_cancel hpos ▸ Nat.le_refl _)
    simp only [findCRLFFrom_spec hinv hstart hok, findCRLF_spec hinv, hcontent,
      first_append_iff (fun k => hold k (Nat.zero_le k)) hreach]

/-- The result is the first pair in the readable bytes, and growth neither moves
a pair that was found nor hides one whose two characters came separately. -/
theorem findCRLF_stable (hb : b.Inv) :
    (∀ p, b.findCRLF = some p ↔ ∃ k, p = b.offset k ∧ First kCRLF b.content 0 k) ∧
    (b.findCRLF = none ↔ ∀ k, ¬Occurs kCRLF b.content k) ∧
    (∀ start, start ≤ b.readableBytes → ∃ res, b.findCRLFFrom (b.offset start) = .ok res ∧
      (∀ p, res = some p ↔ ∃ k, p = b.offset k ∧ First kCRLF b.content start k) ∧
      (res = none ↔ ∀ k, start ≤ k → ¬Occurs kCRLF b.content k)) ∧
    ∀ data b', Grown b data b' →
      (∀ k, b.findCRLF = some (b.offset k) → b'.findCRLF = some (b'.offset k)) ∧
      (b.findCRLF = none →
        (∀ p, b'.findCRLF = some p ↔
          ∃ k, p = b'.offset k ∧ First kCRLF (b.content ++ data) 0 k) ∧
        b'.findCRLFFrom (b'.offset (max b.readableBytes 1 - 1)) = .ok b'.findCRLF) := by
  refine ⟨fun p => findCRLF_spec hb, ?_, ?_, ?_⟩
  · have hnone := eq_none_iff (fun p => findCRLF_spec (p := p) hb)
    exact hnone.trans (forall_congr' fun k => forall_prop_of_true (Nat.zero_le k))
  · intro start hstart
    have hok := findCRLFFrom_ok hb hstart
    have hspec := fun p => findCRLFFrom_spec (p := p) hb hstart hok
    exact ⟨_, hok, hspec, eq_none_iff hspec⟩
  · intro data b' h
    obtain ⟨hinv, hcontent⟩ := h.spec hb
    refine ⟨fun k => h.found hb, fun hnone => ⟨fun p => ?_, h.resume hb hnone⟩⟩
    rw [← hcontent]
    exact findCRLF_spec hinv

/-! ### A pair that comes in two pieces -/

/-- The readable bytes end with CR, and an old LF stands behind them. -/
def splitLine : Buffer where
  buffer := Window.overwrite fresh.buffer 8 [97, 13, 10]
  readerIndex := 8
  writerIndex := 10

def wholeLine : Buffer := { splitLine with writerIndex := 11 }

theorem splitLine_stable :
    splitLine.findCRLF = none ∧ splitLine.append [10] = .ok wholeLine ∧
    wholeLine.findCRLF = some (wholeLine.offset 1) ∧
    wholeLine.findCRLFFrom (wholeLine.offset 1) = .ok wholeLine.findCRLF := by
  have hinv : splitLine.Inv :=
    ⟨by decide, by decide +kernel, by decide +kernel, by decide +kernel⟩
  have hnone : splitLine.findCRLF = none := by decide +kernel
  have happ : splitLine.append [10] = .ok wholeLine := by decide +kernel
  obtain ⟨-, -, -, hgrown⟩ := findCRLF_stable hinv
  obtain ⟨-, hnew⟩ := hgrown [10] wholeLine (.append .refl happ)
  exact ⟨hnone, happ, by decide +kernel, (hnew hnone).2⟩

end

end Buffer

end NetFrame
