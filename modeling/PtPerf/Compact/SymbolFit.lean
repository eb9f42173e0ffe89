import PtPerf.Compact.RoundTrip

/-! Which symbol records fit the buffer of `pt_fwrite_symbol_action` and one block of the file.
Here the name is any C string: `strlen` is stored in a 32-bit word, and only that many bytes of
the name are copied. -/

namespace PtPerf.Compact

open PtPerf.Support PtPerf.Trace

namespace SymbolRecord

/-- `len = strlen(name)` -/
def len (r : SymbolRecord) : UInt32 := UInt32.ofNat r.name.length

/-- What is in the buffer when the length is checked. -/
def head (r : SymbolRecord) : List UInt8 :=
  write1bytes ptActionTypeSymbol.toUInt64 ++ (write4bytes r.id.toUInt64 ++ (write8bytes r.addr ++
    write4bytes r.offset.toUInt64))

def TooLong (r : SymbolRecord) : Prop := r.head.length - 2 + 4 + r.len.toNat ≥ ptFileBlockSize

/-- The record that is built in the buffer. -/
def built (r : SymbolRecord) : List UInt8 :=
  r.head ++ (write4bytes r.len.toUInt64 ++ r.name.take r.len.toNat)

/-- The record with the bytes of the name that are copied. -/
def copied (r : SymbolRecord) : SymbolRecord := { r with name := r.name.take r.len.toNat }

instance (r : SymbolRecord) : Decidable r.TooLong :=
  inferInstanceAs (Decidable (r.head.length - 2 + 4 + r.len.toNat ≥ ptFileBlockSize))

end SymbolRecord

/-- `pt_fwrite_symbol_action` on any C string. -/
def ptFwriteSymbolString (f : File) (r : SymbolRecord) : Except WriteFault File :=
  if r.TooLong then .error .symbolTooLong
  else if r.built.length > ptFileBlockSize then .error .recordBufferOverflow
  else .ok (ptFwriteAction f r.built)

/-- The pointer of the reader at a position of the file: what its buffer holds from there on. -/
def blockFrom (content : List UInt8) (pos : ℕ) : List UInt8 :=
  ((content.drop (pos / ptFileBlockSize * ptFileBlockSize)).take ptFileBlockSize).drop
    (pos % ptFileBlockSize)

/-- `create_action_from_binary` at `ptr` finds the record and stops behind it. Whether the symbol
is taken up is left to `SymbolMgr`. -/
def Decodes (r : SymbolRecord) (ptr : List UInt8) : Prop :=
  ∀ (symbols : SymbolVec) (action : Action),
    createActionFromBinary symbols action ptr =
      (symbols.create r.copied).map fun table =>
        ⟨some (.symbol r.copied), { action with isError := false, ptType := ptActionTypeSymbol },
          table, some (ptr.drop r.built.length)⟩

/-- The record fits the buffer, and written to `f` it lies in one block and can be read there. -/
structure Contained (f : File) (r : SymbolRecord) : Prop where
  buffer : r.built.length ≤ ptFileBlockSize
  placed : ∃ start, (ptFwriteAction f r.built).pos = start + r.built.length ∧
    ((ptFwriteAction f r.built).content.drop start).take r.built.length = r.built ∧
    start % ptFileBlockSize + r.built.length ≤ ptFileBlockSize ∧
    Decodes r (blockFrom (ptFwriteAction f r.built).content start)

section Built

variable (r : SymbolRecord)

lemma SymbolRecord.len_le : r.len.toNat ≤ r.name.length := by
  rw [len, UInt32.toNat_ofNat']
  exact Nat.mod_le _ _

lemma SymbolRecord.length_copied : r.copied.name.length = r.len.toNat := by
  rw [copied, List.length_take, Nat.min_eq_left r.len_le]

lemma SymbolRecord.built_eq : r.built = r.copied.bytes := by
  have hlen : r.len.toUInt64 = UInt64.ofNat r.copied.name.length := by
    rw [r.length_copied, UInt64.ofNat_uInt32ToNat]
  rw [built, head, hlen]
  rfl

lemma SymbolRecord.length_built : r.built.length = r.len.toNat + 21 := by
  rw [r.built_eq, SymbolRecord.length_bytes, r.length_copied]

lemma SymbolRecord.tooLong_iff : r.TooLong ↔ 65517 ≤ r.len.toNat := by
  change 65536 ≤ 17 - 2 + 4 + r.len.toNat ↔ _
  omega

lemma SymbolRecord.built_ne_nil : r.built ≠ [] := List.cons_ne_nil _ _

variable {r}

lemma SymbolRecord.len_of_lt (h : r.name.length < 2 ^ 32) : r.len.toNat = r.name.length :=
  UInt32.toNat_ofNat_of_lt' h

lemma SymbolRecord.copied_of_lt (h : r.name.length < 2 ^ 32) : r.copied = r := by
  rw [copied, SymbolRecord.len_of_lt h, List.take_length]

/-- Below 4 GiB nothing of a name is lost. -/
lemma ptFwriteSymbolString_eq (f : File) (h : r.name.length < 2 ^ 32) :
    ptFwriteSymbolString f r = ptFwriteSymbolAction f r := by
  have hlen : r.TooLong ↔ 17 - 2 + 4 + r.name.length ≥ ptFileBlockSize := by
    rw [← SymbolRecord.len_of_lt h]
    rfl
  simp only [ptFwriteSymbolString, ptFwriteSymbolAction, hlen, r.built_eq, SymbolRecord.copied_of_lt h]

end Built

section Placing

variable {f : File} {b : List UInt8}

lemma ptFwriteAction_places (hne : b ≠ []) (hb : b.length ≤ ptFileBlockSize) :
    ∃ before after, (ptFwriteAction f b).content = before ++ (b ++ after) ∧
      (ptFwriteAction f b).pos = before.length + b.length ∧
      before.length % ptFileBlockSize + b.length ≤ ptFileBlockSize := by
  by_cases hc : crosses f b
  · rw [ptFwriteAction_cross hb hc]
    obtain ⟨before, after, hlen, hcontent⟩ := File.fwrite_splits
      (((f.fwrite [ptActionTypeUndefine]).fwrite b).fseek
        ((f.pos + b.length) % 2 ^ 32 / ptFileBlockSize * ptFileBlockSize)) b hne
    refine ⟨before, after, hcontent, by rw [hlen, File.fwrite_pos], ?_⟩
    rw [hlen, File.fseek_pos, Nat.mul_mod_left, Nat.zero_add]
    exact hb
  · obtain ⟨before, after, hlen, hcontent⟩ := File.fwrite_splits f b hne
    rw [ptFwriteAction_same hc]
    refine ⟨before, after, hcontent, by rw [hlen, File.fwrite_pos], ?_⟩
    rw [hlen]
    exact (Nat.lt_of_not_le hc).le

lemma blockFrom_append (before after : List UInt8)
    (hb : before.length % ptFileBlockSize + b.length ≤ ptFileBlockSize) :
    ∃ rest, blockFrom (before ++ (b ++ after)) before.length = b ++ rest := by
  have hmod := Nat.div_add_mod' before.length ptFileBlockSize
  have hlen : (before.drop (before.length / ptFileBlockSize * ptFileBlockSize)).length =
      before.length % ptFileBlockSize := by
    rw [List.length_drop]
    omega
  refine ⟨after.take (ptFileBlockSize - before.length % ptFileBlockSize - b.length), ?_⟩
  rw [blockFrom, List.drop_append_of_le_length (by omega), List.take_append, hlen,
    List.take_of_length_le (by omega), List.drop_left' hlen, List.take_append,
    List.take_of_length_le (by omega)]

lemma decodes_built (r : SymbolRecord) (rest : List UInt8) : Decodes r (r.built ++ rest) := by
  intro symbols action
  have hname : r.copied.name.length < 2 ^ 32 := by
    rw [r.length_copied]
    exact r.len.toNat_lt
  rw [List.drop_left, r.built_eq, createActionFromBinary_symbolBytes rest r.copied hname]
  rfl

lemma contained_of_length (f : File) {r : SymbolRecord} (h : r.built.length ≤ ptFileBlockSize) :
    Contained f r := by
  obtain ⟨before, after, hcontent, hpos, hblock⟩ :=
    ptFwriteAction_places (f := f) r.built_ne_nil h
  obtain ⟨rest, hrest⟩ := blockFrom_append before after hblock
  refine ⟨h, before.length, hpos, ?_, hblock, ?_⟩
  · rw [hcontent, List.drop_left, List.take_left]
  · rw [hcontent, hrest]
    exact decodes_built r rest

end Placing

/-- The check counts two bytes less than the record has, and the longest name that it lets through
needs one of them. -/
theorem symbol_contained_iff (f : File) (r : SymbolRecord) (h : ¬ r.TooLong) :
    Contained f r ↔ r.len.toNat ≠ 65516 := by
  have hlen := r.length_built
  have hshort : r.len.toNat < 65517 := Nat.lt_of_not_le fun hle => h (r.tooLong_iff.mpr hle)
  constructor
  · intro hc
    have hbuffer : r.built.length ≤ 65536 := hc.buffer
    omega
  · intro hne
    exact contained_of_length f (show r.built.length ≤ 65536 by omega)

section Overflow

variable {f f' : File} {r : SymbolRecord}

/-- The one length at which the buffer overflows. -/
theorem ptFwriteSymbolString_overflow_iff :
    ptFwriteSymbolString f r = .error .recordBufferOverflow ↔ r.len.toNat = 65516 := by
  have hlen := r.length_built
  unfold ptFwriteSymbolString
  by_cases hlong : r.TooLong
  · have hge := r.tooLong_iff.mp hlong
    rw [if_pos hlong]
    exact iff_of_false (fun h => by cases h) (by omega)
  · have hlt : r.len.toNat < 65517 := Nat.lt_of_not_le fun hle => hlong (r.tooLong_iff.mpr hle)
    rw [if_neg hlong]
    by_cases hbig : r.built.length > ptFileBlockSize
    · have hgt : r.built.length > 65536 := hbig
      rw [if_pos hbig]
      exact iff_of_true rfl (by omega)
    · have hle : ¬ r.built.length > 65536 := hbig
      rw [if_neg hbig]
      exact iff_of_false (fun h => by cases h) (by omega)

theorem contained_of_written (h : ptFwriteSymbolString f r = .ok f') :
    Contained f r ∧ f' = ptFwriteAction f r.built := by
  unfold ptFwriteSymbolString at h
  split at h
  · cases h
  split at h
  · cases h
  · exact ⟨contained_of_length f (Nat.le_of_not_lt ‹_›), (Except.ok.inj h).symm⟩

/-- A block that ends inside the name is read past its end. -/
lemma createActionFromBinary_cut (symbols : SymbolVec) (action : Action) {n : ℕ}
    (hn : n < r.len.toNat) :
    createActionFromBinary symbols action (r.built.take (n + 21)) = .error .pastEnd := by
  have hcut : r.built.take (n + 21) = ptActionTypeSymbol :: (write4bytes r.id.toUInt64 ++
      (write8bytes r.addr ++ (write4bytes r.offset.toUInt64 ++ (write4bytes r.len.toUInt64 ++
        (r.name.take r.len.toNat).take n)))) := rfl
  have hshort : ((r.name.take r.len.toNat).take n).length < r.len.toNat := by
    rw [List.length_take]
    omega
  have hread : ptReadSymbolAction (write4bytes r.id.toUInt64 ++
      (write8bytes r.addr ++ (write4bytes r.offset.toUInt64 ++ (write4bytes r.len.toUInt64 ++
        (r.name.take r.len.toNat).take n)))) = .error .pastEnd := by
    simp only [ptReadSymbolAction, read4bytes_write4bytes, read8bytes_write8bytes, drop_write4bytes,
      drop_write8bytes, UInt32.toUInt32_toUInt64, hshort, if_true, bind, Except.bind]
    rfl
  have htype : read1bytes (ptActionTypeSymbol :: (write4bytes r.id.toUInt64 ++
      (write8bytes r.addr ++ (write4bytes r.offset.toUInt64 ++ (write4bytes r.len.toUInt64 ++
        (r.name.take r.len.toNat).take n))))) = .ok ptActionTypeSymbol := rfl
  rw [hcut]
  simp only [createActionFromBinary, htype, List.drop_one, List.tail_cons, hread, bind, Except.bind]
  rfl

end Overflow

namespace Sample

def named (n : ℕ) : SymbolRecord := ⟨0, 0x401100, 0, List.replicate n 'a'.toUInt8⟩

lemma named_len {n : ℕ} (hn : n < 2 ^ 32) : (named n).len.toNat = n := by
  rw [SymbolRecord.len_of_lt (by simpa [named] using hn), named, List.length_replicate]

lemma named_short {n : ℕ} (hn : n < 65517) : ¬ (named n).TooLong := by
  rw [SymbolRecord.tooLong_iff, named_len (by omega)]
  omega

end Sample

open Sample in
theorem longest_name_overflows :
    ¬ (named 65516).TooLong ∧ (named 65516).built.length = 65537 ∧
      ¬ Contained .empty (named 65516) ∧
      ∀ symbols action, createActionFromBinary symbols action
        ((named 65516).built.take ptFileBlockSize) = .error .pastEnd := by
  have hlen : (named 65516).len.toNat = 65516 := named_len (by decide)
  have hbuilt : (named 65516).built.length = 65537 := by rw [SymbolRecord.length_built, hlen]
  refine ⟨named_short (by decide), hbuilt, fun hc => ?_, fun symbols action => ?_⟩
  · have hle := hc.buffer
    rw [hbuilt] at hle
    exact absurd hle (by decide)
  · exact createActionFromBinary_cut symbols action (n := 65515) (by rw [hlen]; decide)

open Sample in
/-- The longest name that fits fills the next block. -/
theorem full_block_contained :
    ¬ (named 65515).TooLong ∧ Contained (filled 70000) (named 65515) := by
  have hlen : (named 65515).len.toNat = 65515 := named_len (by decide)
  refine ⟨named_short (by decide), (symbol_contained_iff _ _ (named_short (by decide))).mpr ?_⟩
  rw [hlen]
  decide

end PtPerf.Compact
