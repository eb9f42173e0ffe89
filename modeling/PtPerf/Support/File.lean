import Mathlib.Tactic

/-! Streams on a file, as `fwrite`, `fseek` and `ftell` see them: the bytes of the file and the
position of the stream. -/

namespace PtPerf.Support

structure File where
  content : List UInt8
  pos : ℕ

namespace File

def empty : File := ⟨[], 0⟩

/-- A write past the end fills the gap with zeros. -/
def fwrite (f : File) (b : List UInt8) : File :=
  if b = [] then f
  else
    { content := f.content.take f.pos ++ List.replicate (f.pos - f.content.length) 0 ++ b ++
        f.content.drop (f.pos + b.length)
      pos := f.pos + b.length }

def fseek (f : File) (offset : ℕ) : File := { f with pos := offset }

def ftell (f : File) : ℕ := f.pos

def AtEnd (f : File) : Prop := f.pos = f.content.length

section

variable (f : File) (b : List UInt8)

@[simp] lemma fseek_content (n : ℕ) : (f.fseek n).content = f.content := rfl

@[simp] lemma fseek_pos (n : ℕ) : (f.fseek n).pos = n := rfl

@[simp] lemma fwrite_pos : (f.fwrite b).pos = f.pos + b.length := by
  unfold fwrite
  split
  · simp_all
  · rfl

lemma fwrite_within (h : f.pos ≤ f.content.length) :
    (f.fwrite b).content =
      f.content.take f.pos ++ b ++ f.content.drop (f.pos + b.length) := by
  unfold fwrite
  split
  · rename_i hb
    simp [hb]
  · simp [Nat.sub_eq_zero_of_le h]

lemma fwrite_splits (hb : b ≠ []) :
    ∃ before after, before.length = f.pos ∧ (f.fwrite b).content = before ++ (b ++ after) := by
  refine ⟨f.content.take f.pos ++ List.replicate (f.pos - f.content.length) 0,
    f.content.drop (f.pos + b.length), ?_, ?_⟩
  · rw [List.length_append, List.length_take, List.length_replicate]
    omega
  · rw [fwrite, if_neg hb, List.append_assoc]

lemma fwrite_atEnd (h : f.AtEnd) : (f.fwrite b).content = f.content ++ b := by
  have hp : f.pos = f.content.length := h
  rw [fwrite_within f b hp.le, hp, List.take_length, List.drop_eq_nil_of_le (by omega),
    List.append_nil]

lemma AtEnd.fwrite {f : File} (h : f.AtEnd) (b : List UInt8) : (f.fwrite b).AtEnd := by
  have hp : f.pos = f.content.length := h
  simp [AtEnd, fwrite_atEnd f b h, hp]

lemma length_fwrite (h : f.pos ≤ f.content.length) :
    (f.fwrite b).content.length = max f.content.length (f.pos + b.length) := by
  rw [fwrite_within f b h]
  simp only [List.length_append, List.length_take, List.length_drop]
  omega

end

end File

end PtPerf.Support
