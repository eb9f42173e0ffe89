import PtPerf.Support.File
import PtPerf.Compact.Format

/-! `pt_fwrite_action` and the three record writers. Positions and block numbers are 32-bit
words in the source; the absolute seek takes the block number back to a file offset. -/

namespace PtPerf.Compact

open PtPerf.Support PtPerf.Trace

def ptFileBlockSize : ℕ := 65536

inductive WriteFault
  | symbolTooLong
  | recordBufferOverflow
  | useAfterFree
  deriving DecidableEq, Repr

def ptFwriteAction (f : File) (b : List UInt8) : File :=
  let fOff := UInt32.ofNat f.ftell
  let blockId := fOff / UInt32.ofNat ptFileBlockSize
  let newBlockId := (fOff + UInt32.ofNat b.length) / UInt32.ofNat ptFileBlockSize
  let f :=
    if newBlockId != blockId then
      ((f.fwrite [ptActionTypeUndefine]).fwrite b).fseek
        (newBlockId * UInt32.ofNat ptFileBlockSize).toNat
    else f
  f.fwrite b

def ptFwriteBranchAction (f : File) (r : BranchRecord) : File := ptFwriteAction f r.bytes

/-- For names below 4 GiB, whose `strlen` fits its 32-bit word. The length check lets one name
through whose record is a byte longer than the buffer. -/
def ptFwriteSymbolAction (f : File) (r : SymbolRecord) : Except WriteFault File :=
  if 17 - 2 + 4 + r.name.length ≥ ptFileBlockSize then .error .symbolTooLong
  else if r.bytes.length > ptFileBlockSize then .error .recordBufferOverflow
  else .ok (ptFwriteAction f r.bytes)

def ptFwriteErrorAction (f : File) (r : ErrorRecord) : File := ptFwriteAction f r.bytes

def fwriteRecord (f : File) : Record → Except WriteFault File
  | .branch r => .ok (ptFwriteBranchAction f r)
  | .symbol r => ptFwriteSymbolAction f r
  | .error r => .ok (ptFwriteErrorAction f r)

/-- `f'` is `f` with the record `b` added from `start` on, inside one block. -/
structure AddedAt (f f' : File) (b : List UInt8) (start : ℕ) : Prop where
  afterEnd : f.content.length ≤ start
  kept : f'.content.take f.content.length = f.content
  pos : f'.pos = start + b.length
  record : (f'.content.drop start).take b.length = b
  oneBlock : start % ptFileBlockSize + b.length ≤ ptFileBlockSize

section Action

variable {f : File} {b : List UInt8}

def crosses (f : File) (b : List UInt8) : Prop :=
  ptFileBlockSize ≤ f.pos % ptFileBlockSize + b.length

def nextBlock (f : File) : ℕ := (f.pos / ptFileBlockSize + 1) * ptFileBlockSize

lemma newBlock_toNat :
    ((UInt32.ofNat f.pos + UInt32.ofNat b.length) / UInt32.ofNat ptFileBlockSize).toNat =
      (f.pos + b.length) % 2 ^ 32 / ptFileBlockSize := by
  unfold ptFileBlockSize
  rw [UInt32.toNat_div, UInt32.toNat_add, UInt32.toNat_ofNat', UInt32.toNat_ofNat',
    UInt32.toNat_ofNat']
  norm_num

lemma block_toNat : (UInt32.ofNat f.pos / UInt32.ofNat ptFileBlockSize).toNat =
    f.pos % 2 ^ 32 / ptFileBlockSize := by
  unfold ptFileBlockSize
  rw [UInt32.toNat_div, UInt32.toNat_ofNat', UInt32.toNat_ofNat']

lemma ptFwriteAction_same (hc : ¬ crosses f b) : ptFwriteAction f b = f.fwrite b := by
  have hlt : f.pos % 65536 + b.length < 65536 := Nat.lt_of_not_le hc
  have heq : (UInt32.ofNat f.pos + UInt32.ofNat b.length) / UInt32.ofNat ptFileBlockSize =
      UInt32.ofNat f.pos / UInt32.ofNat ptFileBlockSize := by
    apply UInt32.toNat_inj.mp
    rw [newBlock_toNat, block_toNat]
    unfold ptFileBlockSize
    omega
  simp only [ptFwriteAction, File.ftell, heq, bne_self_eq_false, Bool.false_eq_true, if_false]

lemma ptFwriteAction_cross (hb : b.length ≤ ptFileBlockSize) (hc : crosses f b) :
    ptFwriteAction f b = (((f.fwrite [ptActionTypeUndefine]).fwrite b).fseek
      ((f.pos + b.length) % 2 ^ 32 / ptFileBlockSize * ptFileBlockSize)).fwrite b := by
  have hge : 65536 ≤ f.pos % 65536 + b.length := hc
  have hle : b.length ≤ 65536 := hb
  have hne : ((UInt32.ofNat f.pos + UInt32.ofNat b.length) / UInt32.ofNat ptFileBlockSize !=
      UInt32.ofNat f.pos / UInt32.ofNat ptFileBlockSize) = true := by
    rw [bne_iff_ne, Ne, ← UInt32.toNat_inj, newBlock_toNat, block_toNat]
    unfold ptFileBlockSize
    omega
  have hseek : ((UInt32.ofNat f.pos + UInt32.ofNat b.length) / UInt32.ofNat ptFileBlockSize *
      UInt32.ofNat ptFileBlockSize).toNat =
      (f.pos + b.length) % 2 ^ 32 / ptFileBlockSize * ptFileBlockSize := by
    rw [UInt32.toNat_mul, newBlock_toNat]
    unfold ptFileBlockSize
    rw [UInt32.toNat_ofNat']
    omega
  simp only [ptFwriteAction, File.ftell, hne, if_true, hseek]

lemma ptFwriteAction_same_content (hf : f.AtEnd) (hc : ¬ crosses f b) :
    (ptFwriteAction f b).content = f.content ++ b := by
  rw [ptFwriteAction_same hc, File.fwrite_atEnd f b hf]

/-- Below 4 GiB the record goes to the start of the next block; what was left of the old block
holds the mark and a first part of the record. -/
lemma ptFwriteAction_cross_content (hf : f.AtEnd) (hb : b.length ≤ ptFileBlockSize)
    (hc : crosses f b) (hlt : f.pos + b.length < 2 ^ 32) :
    (ptFwriteAction f b).content =
      (f.content ++ ptActionTypeUndefine :: b).take (nextBlock f) ++ b ∧
    (ptFwriteAction f b).pos = nextBlock f + b.length := by
  have hge : 65536 ≤ f.pos % 65536 + b.length := hc
  have hle : b.length ≤ 65536 := hb
  have hpos : f.pos = f.content.length := hf
  have hseek : (f.pos + b.length) % 2 ^ 32 / ptFileBlockSize * ptFileBlockSize = nextBlock f := by
    unfold nextBlock ptFileBlockSize
    omega
  have hnext : nextBlock f ≤ f.pos + b.length ∧ f.pos + 1 ≤ nextBlock f := by
    unfold nextBlock ptFileBlockSize
    omega
  have hfill : ((f.fwrite [ptActionTypeUndefine]).fwrite b).content =
      f.content ++ ptActionTypeUndefine :: b := by
    rw [File.fwrite_atEnd _ _ (hf.fwrite _), File.fwrite_atEnd _ _ hf, List.append_assoc]
    rfl
  rw [ptFwriteAction_cross hb hc, hseek]
  refine ⟨?_, by simp⟩
  have hin : (((f.fwrite [ptActionTypeUndefine]).fwrite b).fseek (nextBlock f)).pos ≤
      (((f.fwrite [ptActionTypeUndefine]).fwrite b).fseek (nextBlock f)).content.length := by
    simp only [File.fseek_pos, File.fseek_content, hfill, List.length_append, List.length_cons]
    omega
  rw [File.fwrite_within _ _ hin, File.fseek_content, File.fseek_pos, hfill,
    List.drop_eq_nil_of_le, List.append_nil]
  simp only [List.length_append, List.length_cons]
  omega

/-- The record goes where the file ends, or to the start of the next block. -/
lemma ptFwriteAction_start (hf : f.AtEnd) (hb : b.length ≤ ptFileBlockSize)
    (hok : ¬ crosses f b ∨ f.pos + b.length < 2 ^ 32) :
    ∃ start, (ptFwriteAction f b).pos = start + b.length ∧
      (start = f.pos ∧ f.pos % 65536 + b.length < 65536 ∨
        start = (f.pos / 65536 + 1) * 65536 ∧ 65536 ≤ f.pos % 65536 + b.length) := by
  by_cases hc : crosses f b
  · have hlt := hok.resolve_left (not_not_intro hc)
    exact ⟨nextBlock f, (ptFwriteAction_cross_content hf hb hc hlt).2, Or.inr ⟨rfl, hc⟩⟩
  · refine ⟨f.pos, ?_, Or.inl ⟨rfl, Nat.lt_of_not_le hc⟩⟩
    rw [ptFwriteAction_same hc, File.fwrite_pos]

lemma ptFwriteAction_atEnd (hf : f.AtEnd) (hb : b.length ≤ ptFileBlockSize)
    (hok : ¬ crosses f b ∨ f.pos + b.length < 2 ^ 32) : (ptFwriteAction f b).AtEnd := by
  by_cases hc : crosses f b
  · have hlt := hok.resolve_left (not_not_intro hc)
    have hge : 65536 ≤ f.pos % 65536 + b.length := hc
    have hpos : f.pos = f.content.length := hf
    obtain ⟨hcontent, hp⟩ := ptFwriteAction_cross_content hf hb hc hlt
    have hnext : nextBlock f ≤ f.pos + b.length := by
      unfold nextBlock ptFileBlockSize
      omega
    rw [File.AtEnd, hp, hcontent, List.length_append, List.length_take, List.length_append,
      List.length_cons]
    omega
  · rw [ptFwriteAction_same hc]
    exact hf.fwrite b

lemma addedAt_of_safe (hf : f.AtEnd) (hb : b.length ≤ ptFileBlockSize)
    (hok : ¬ crosses f b ∨ f.pos + b.length < 2 ^ 32) :
    ∃ start, AddedAt f (ptFwriteAction f b) b start := by
  have hpos : f.pos = f.content.length := hf
  by_cases hc : crosses f b
  · have hge : 65536 ≤ f.pos % 65536 + b.length := hc
    have hlt := hok.resolve_left (not_not_intro hc)
    obtain ⟨hcontent, hp⟩ := ptFwriteAction_cross_content hf hb hc hlt
    have hnext : nextBlock f ≤ f.pos + b.length ∧ f.content.length ≤ nextBlock f := by
      unfold nextBlock ptFileBlockSize
      omega
    have hlen : ((f.content ++ ptActionTypeUndefine :: b).take (nextBlock f)).length = nextBlock f := by
      rw [List.length_take, List.length_append, List.length_cons]
      omega
    refine ⟨nextBlock f, hnext.2, ?_, hp, ?_, ?_⟩
    · rw [hcontent, List.take_append_of_le_length (by omega), List.take_take,
        Nat.min_eq_left hnext.2, List.take_left]
    · rw [hcontent, List.drop_left' hlen, List.take_length]
    · unfold nextBlock
      rw [Nat.mul_mod_left]
      omega
  · have hlt : f.pos % 65536 + b.length < 65536 := Nat.lt_of_not_le hc
    refine ⟨f.pos, hpos.ge, ?_, ?_, ?_, ?_⟩
    · rw [ptFwriteAction_same_content hf hc, List.take_left]
    · rw [ptFwriteAction_same hc, File.fwrite_pos]
    · rw [ptFwriteAction_same_content hf hc, hpos, List.drop_left, List.take_length]
    · exact hlt.le

lemma pos_of_wrap (hb : b.length ≤ ptFileBlockSize) (hc : crosses f b)
    (hge : 2 ^ 32 ≤ f.pos + b.length) : (ptFwriteAction f b).pos < f.pos + b.length := by
  have hle : b.length ≤ 65536 := hb
  rw [ptFwriteAction_cross hb hc, File.fwrite_pos, File.fseek_pos]
  unfold ptFileBlockSize
  omega

lemma ptFwriteAction_length (hf : f.pos ≤ f.content.length) (hb : b.length ≤ ptFileBlockSize) :
    (ptFwriteAction f b).pos ≤ (ptFwriteAction f b).content.length ∧
      f.content.length ≤ (ptFwriteAction f b).content.length ∧
      f.pos + b.length ≤ (ptFwriteAction f b).content.length := by
  by_cases hc : crosses f b
  · rw [ptFwriteAction_cross hb hc]
    have h₁ := File.length_fwrite f [ptActionTypeUndefine] hf
    have h₂ := File.length_fwrite (f.fwrite [ptActionTypeUndefine]) b (by
      rw [h₁, File.fwrite_pos]
      omega)
    rw [h₁, File.fwrite_pos] at h₂
    have hseek : (f.pos + b.length) % 2 ^ 32 / ptFileBlockSize * ptFileBlockSize ≤
        f.pos + b.length :=
      (Nat.div_mul_le_self _ _).trans (Nat.mod_le _ _)
    simp only [List.length_singleton] at h₂
    rw [File.length_fwrite _ _ (by rw [File.fseek_pos, File.fseek_content, h₂]; omega),
      File.fwrite_pos, File.fseek_pos, File.fseek_content, h₂]
    omega
  · rw [ptFwriteAction_same hc, File.length_fwrite f b hf, File.fwrite_pos]
    omega

end Action

theorem ptFwriteAction_appends_iff (f : File) (b : List UInt8) (hend : f.AtEnd)
    (hlen : b.length ≤ ptFileBlockSize) :
    (∃ start, AddedAt f (ptFwriteAction f b) b start) ↔
      f.pos % ptFileBlockSize + b.length < ptFileBlockSize ∨ f.pos + b.length < 2 ^ 32 := by
  rw [← Nat.not_le (a := ptFileBlockSize)]
  constructor
  · rintro ⟨start, h⟩
    by_contra hbad
    obtain ⟨hc, hge⟩ := not_or.mp hbad
    have hlt := pos_of_wrap hlen (not_not.mp hc) (Nat.le_of_not_lt hge)
    have hstart := h.afterEnd
    have he : f.pos = f.content.length := hend
    rw [h.pos] at hlt
    omega
  · exact addedAt_of_safe hend hlen

namespace Sample

def filled (n : ℕ) : File := ⟨List.replicate n 1, n⟩

lemma filled_atEnd (n : ℕ) : (filled n).AtEnd := List.length_replicate.symm

def lost : List UInt8 := (ErrorRecord.mk 1 0 8).bytes

end Sample

open Sample in
theorem start_overwritten_at_four_gib :
    (filled (2 ^ 32 - 1)).AtEnd ∧ (filled (2 ^ 32 - 1)).pos < 2 ^ 63 ∧
      lost.length ≤ ptFileBlockSize ∧
      ¬ ∃ start, AddedAt (filled (2 ^ 32 - 1)) (ptFwriteAction (filled (2 ^ 32 - 1)) lost) lost start := by
  have hend := filled_atEnd (2 ^ 32 - 1)
  refine ⟨hend, (by decide : 2 ^ 32 - 1 < 2 ^ 63), by decide, ?_⟩
  rintro ⟨start, h⟩
  have hlt := pos_of_wrap (f := filled (2 ^ 32 - 1)) (b := lost) (by decide)
    (by decide : 65536 ≤ (2 ^ 32 - 1) % 65536 + lost.length)
    (by decide : 2 ^ 32 ≤ 2 ^ 32 - 1 + lost.length)
  have hstart := h.afterEnd
  rw [← show (filled (2 ^ 32 - 1)).pos = _ from hend] at hstart
  rw [h.pos] at hlt
  exact absurd hstart (Nat.not_le.mpr (Nat.lt_of_add_lt_add_right hlt))

open Sample in
theorem second_block_appended :
    ∃ start, AddedAt (filled 65530) (ptFwriteAction (filled 65530) lost) lost start :=
  (ptFwriteAction_appends_iff (filled 65530) lost (filled_atEnd 65530) (by decide)).mpr
    (Or.inr (by decide : 65530 + lost.length < 2 ^ 32))

end PtPerf.Compact
