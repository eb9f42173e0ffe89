import PtPerf.Compact.Symbols

/-! The ids of the symbol records of one worker. They count up from zero and branches refer to
records before them, whatever the cache forgets, as long as every record is appended to the file;
past 4 GiB a record comes to lie at the start of the file. -/

namespace PtPerf.Compact

open PtPerf.Support PtPerf.Trace

/-- The records of a run, with the ids that the entries had when they were returned. -/
def SymbolWriter.writeRecords : SymbolWriter → List BranchSample → List Record
  | _, [] => []
  | s, x :: samples => (s.writeSample x).2 ++ writeRecords (s.writeSample x).1 samples

def Record.symbol? : Record → Option SymbolRecord
  | .symbol r => some r
  | _ => none

def symbolRecords (records : List Record) : List SymbolRecord := records.filterMap Record.symbol?

structure IdsInOrder (records : List Record) : Prop where
  symbols : ∀ (i : ℕ) (r : SymbolRecord), (symbolRecords records)[i]? = some r → r.id.toNat = i
  branches : ∀ (pre : List Record) (b : BranchRecord) (post : List Record),
    records = pre ++ .branch b :: post →
    (∃ r ∈ symbolRecords pre, r.id = b.fromId) ∧ ∃ r ∈ symbolRecords pre, r.id = b.toId

structure Disciplined (records : List Record) (f : File) : Prop where
  ids : IdsInOrder records
  create : ∀ fresh, readActionsFromCompactFile fresh [] f.content ≠ .error .symbolOutOfOrder
  getById : ∀ fresh, readActionsFromCompactFile fresh [] f.content ≠ .error .unknownSymbol

/-- The record stays in its block, or ends below `2 ^ 32`. -/
def Safe (f : File) (b : List UInt8) : Prop :=
  f.pos % ptFileBlockSize + b.length < ptFileBlockSize ∨ f.pos + b.length < 2 ^ 32

def SafeFrom : File → List Record → Prop
  | _, [] => True
  | f, r :: records => Safe f r.bytes ∧ SafeFrom (ptFwriteAction f r.bytes) records

section Order

variable {table : SymbolVec} {records : List Record}

lemma length_symbolsAfter (table : SymbolVec) (records : List Record) :
    (symbolsAfter table records).length = table.length + (symbolRecords records).length := by
  induction records generalizing table with
  | nil => rfl
  | cons r records ih =>
    have hcons : symbolsAfter table (r :: records) = symbolsAfter (r.symbolsAfter table) records := rfl
    rw [hcons, ih]
    cases r with
    | branch b => rfl
    | error e => rfl
    | symbol q =>
      change (table ++ [_]).length + _ = table.length + (q :: symbolRecords records).length
      rw [List.length_append, List.length_singleton, List.length_cons]
      omega

lemma Admissible.symbol_ids (h : Admissible table records) (i : ℕ) (r : SymbolRecord)
    (hr : (symbolRecords records)[i]? = some r) : r.id.toNat = table.length + i := by
  induction records generalizing table i with
  | nil => simp [symbolRecords] at hr
  | cons q records ih =>
    cases q with
    | branch b => exact ih h.2 i hr
    | error e => exact ih h.2 i hr
    | symbol q =>
      cases i with
      | zero =>
        obtain rfl : q = r := by simpa [symbolRecords, Record.symbol?] using hr
        exact h.1
      | succ i =>
        have hlen := ih h.2 i (by simpa [symbolRecords, Record.symbol?] using hr)
        simp only [Record.symbolsAfter, List.length_append, List.length_singleton] at hlen
        omega

lemma Admissible.exists_symbol (h : Admissible [] records) {id : UInt32}
    (hid : id.toNat < (symbolsAfter [] records).length) : ∃ r ∈ symbolRecords records, r.id = id := by
  rw [length_symbolsAfter, List.length_nil, Nat.zero_add] at hid
  have hget := List.getElem?_eq_getElem hid
  refine ⟨_, List.mem_of_getElem? hget, UInt32.toNat_inj.mp ?_⟩
  rw [h.symbol_ids _ _ hget, List.length_nil, Nat.zero_add]

lemma Admissible.idsInOrder (h : Admissible [] records) : IdsInOrder records where
  symbols i r hr := by
    rw [h.symbol_ids i r hr, List.length_nil, Nat.zero_add]
  branches pre b post hsplit := by
    rw [hsplit, admissible_append] at h
    obtain ⟨hpre, ⟨hfrom, hto⟩, -⟩ := h
    exact ⟨hpre.exists_symbol hfrom, hpre.exists_symbol hto⟩

lemma writeRecords_admissible (samples : List BranchSample) {s : SymbolWriter} (hk : Known s table)
    (hsize : (symbolsAfter table (s.writeRecords samples)).length < 2 ^ 32) :
    Admissible table (s.writeRecords samples) := by
  induction samples generalizing s table with
  | nil => trivial
  | cons x samples ih =>
    rw [SymbolWriter.writeRecords] at hsize ⊢
    rw [symbolsAfter_append] at hsize
    have hext := symbols_extend (symbolsAfter table (s.writeSample x).2)
      ((s.writeSample x).1.writeRecords samples)
    obtain ⟨ha, hk', -⟩ := sample_step hk x (hext.length_le.trans_lt hsize)
    exact admissible_append.mpr ⟨ha, ih hk' hsize⟩

end Order

section Appending

variable {f : File} {records more : List Record} {b : List UInt8}

lemma safe_iff : Safe f b ↔ ¬ crosses f b ∨ f.pos + b.length < 2 ^ 32 := by
  rw [Safe, crosses, not_le]

/-- A safe write never leaves the block that starts at `2 ^ 32`. -/
lemma Safe.block_le (hs : Safe f b) (hend : f.AtEnd) (hb : b.length ≤ ptFileBlockSize)
    (hblock : f.pos < 2 ^ 32 + 65536) : (ptFwriteAction f b).pos < 2 ^ 32 + 65536 := by
  have hb' : b.length ≤ 65536 := hb
  have hs' : f.pos % 65536 + b.length < 65536 ∨ f.pos + b.length < 2 ^ 32 := hs
  obtain ⟨start, hpos, hstart⟩ := ptFwriteAction_start hend hb (safe_iff.mp hs)
  rw [hpos]
  omega

lemma SafeFrom.layout (hs : SafeFrom f more) (hfit : ∀ r ∈ more, r.bytes.length ≤ ptFileBlockSize)
    (hend : f.AtEnd) (hl : Layout f records) (hblock : f.pos < 2 ^ 32 + 65536) :
    ∃ f', more.foldlM fwriteRecord f = .ok f' ∧ Layout f' (records ++ more) ∧
      f'.content.length < 2 ^ 32 + 65536 := by
  induction more generalizing f records with
  | nil =>
    have hpos : f.pos = f.content.length := hend
    exact ⟨f, rfl, by simpa using hl, by omega⟩
  | cons r more ih =>
    obtain ⟨hr, hmore⟩ := hs
    have hfitr := hfit r (by simp)
    have hok := safe_iff.mp hr
    obtain ⟨f', hrun, hl', hlen⟩ := ih hmore (fun q hq => hfit q (by simp [hq]))
      (ptFwriteAction_atEnd hend hfitr hok) (layout_write hl hend hfitr hok)
      (hr.block_le hend hfitr hblock)
    refine ⟨f', ?_, by simpa using hl', hlen⟩
    rw [List.foldlM_cons, fwriteRecord_eq f hfitr]
    exact hrun

lemma disciplined_of_safe (samples : List BranchSample)
    (hwrite : (SymbolWriter.init.writeRecords samples).foldlM fwriteRecord .empty = .ok f)
    (hs : SafeFrom .empty (SymbolWriter.init.writeRecords samples)) :
    Disciplined (SymbolWriter.init.writeRecords samples) f := by
  have hfit := fits_of_fwriteRecords hwrite
  obtain ⟨f', hrun, hl, hlen⟩ := hs.layout hfit rfl layout_empty
    (by simp [File.empty])
  obtain rfl : f = f' := Except.ok.inj (hwrite.symm.trans hrun)
  rw [List.nil_append] at hl
  have hsize : (symbolsAfter [] (SymbolWriter.init.writeRecords samples)).length < 2 ^ 32 := by
    have hle := length_symbolsAfter_le [] (SymbolWriter.init.writeRecords samples)
    have htwo := hl.length_le
    rw [List.length_nil, Nat.zero_add] at hle
    omega
  have hknown : Known .init [] := ⟨rfl, fun e he => absurd he List.not_mem_nil⟩
  have ha := writeRecords_admissible samples hknown hsize
  refine ⟨ha.idsInOrder, fun fresh => ?_, fun fresh => ?_⟩
  · obtain ⟨out, hread, -⟩ := hl.read fresh hfit ha
    rw [hread]
    rintro ⟨⟩
  · obtain ⟨out, hread, -⟩ := hl.read fresh hfit ha
    rw [hread]
    rintro ⟨⟩

end Appending

section Overwriting

variable {f f' : File} {r : Record} {records : List Record} {b : List UInt8}

/-- A record that a file cannot start with. -/
def Late : Record → Prop
  | .branch _ => True
  | .symbol r => r.id.toNat ≠ 0
  | .error _ => False

/-- The file starts with such a record. -/
structure StartsLate (f : File) (r : Record) : Prop where
  late : Late r
  fits : r.bytes.length < ptFileBlockSize
  start : r.bytes <+: f.content
  after : r.bytes.length ≤ f.pos
  inside : f.pos ≤ f.content.length

lemma fwrite_keeps {start : List UInt8} (h : start <+: f.content) (hafter : start.length ≤ f.pos)
    (hinside : f.pos ≤ f.content.length) (b : List UInt8) : start <+: (f.fwrite b).content := by
  rw [File.fwrite_within f b hinside, List.append_assoc]
  exact (List.prefix_take_iff.mpr ⟨h, hafter⟩).trans (List.prefix_append _ _)

lemma StartsLate.fwrite (h : StartsLate f r) (b : List UInt8) : StartsLate (f.fwrite b) r where
  late := h.late
  fits := h.fits
  start := fwrite_keeps h.start h.after h.inside b
  after := by
    rw [File.fwrite_pos]
    exact h.after.trans (Nat.le_add_right _ _)
  inside := by
    rw [File.length_fwrite f b h.inside, File.fwrite_pos]
    exact Nat.le_max_right _ _

lemma startsLate_rewound (hl : Late r) (hfit : r.bytes.length < ptFileBlockSize) (f : File) :
    StartsLate ((f.fseek 0).fwrite r.bytes) r where
  late := hl
  fits := hfit
  start := by
    rw [File.fwrite_within _ _ (Nat.zero_le _)]
    exact List.prefix_append _ _
  after := by simp
  inside := by
    rw [File.length_fwrite _ _ (Nat.zero_le _), File.fwrite_pos]
    exact Nat.le_max_right _ _

lemma StartsLate.ptFwriteAction {q : Record} (h : StartsLate f q) (hl : Late r)
    (hfit : r.bytes.length < ptFileBlockSize) : ∃ q', StartsLate (ptFwriteAction f r.bytes) q' := by
  by_cases hc : crosses f r.bytes
  · rw [ptFwriteAction_cross hfit.le hc]
    have hfill := (h.fwrite [ptActionTypeUndefine]).fwrite r.bytes
    generalize hg : ((f.fwrite [ptActionTypeUndefine]).fwrite r.bytes) = g at hfill
    have hroom : f.pos + r.bytes.length ≤ g.content.length := by
      have hinside := hfill.inside
      rw [← hg, File.fwrite_pos, File.fwrite_pos] at hinside
      rw [← hg]
      exact le_trans (by simp) hinside
    rcases Nat.eq_zero_or_pos ((f.pos + r.bytes.length) % 2 ^ 32 / ptFileBlockSize) with hzero | hpos
    · rw [hzero, Nat.zero_mul]
      exact ⟨r, startsLate_rewound hl hfit g⟩
    · have hseek : StartsLate
          (g.fseek ((f.pos + r.bytes.length) % 2 ^ 32 / ptFileBlockSize * ptFileBlockSize)) q :=
        ⟨h.late, h.fits, hfill.start, h.fits.le.trans (Nat.le_mul_of_pos_left _ hpos),
          (Nat.div_mul_le_self _ _).trans ((Nat.mod_le _ _).trans hroom)⟩
      exact ⟨q, hseek.fwrite r.bytes⟩
  · rw [ptFwriteAction_same hc]
    exact ⟨q, h.fwrite r.bytes⟩

lemma StartsLate.run {q : Record} (h : StartsLate f q)
    (hrecords : ∀ r ∈ records, Late r ∧ r.bytes.length < ptFileBlockSize)
    (hrun : records.foldlM fwriteRecord f = .ok f') : ∃ q', StartsLate f' q' := by
  induction records generalizing f q with
  | nil =>
    cases hrun
    exact ⟨q, h⟩
  | cons r records ih =>
    obtain ⟨hl, hfit⟩ := hrecords r (by simp)
    obtain ⟨q', hq'⟩ := h.ptFwriteAction hl hfit
    rw [List.foldlM_cons, fwriteRecord_eq f hfit.le] at hrun
    exact ih hq' (fun p hp => hrecords p (by simp [hp])) hrun

lemma startsLate_of_not_safe (hpos : f.pos < 2 ^ 32) (hl : Late r)
    (hfit : r.bytes.length < ptFileBlockSize) (hs : ¬ Safe f r.bytes) :
    StartsLate (ptFwriteAction f r.bytes) r := by
  rw [safe_iff, not_or, not_not, not_lt] at hs
  have hfit' : r.bytes.length < 65536 := hfit
  have hzero : (f.pos + r.bytes.length) % 2 ^ 32 / ptFileBlockSize = 0 := by
    unfold ptFileBlockSize
    omega
  rw [ptFwriteAction_cross hfit.le hs.1, hzero, Nat.zero_mul]
  exact startsLate_rewound hl hfit _

lemma Safe.pos_lt (hs : Safe f b) (hend : f.AtEnd) (hfit : b.length < ptFileBlockSize)
    (hpos : f.pos < 2 ^ 32) :
    (Compact.ptFwriteAction f b).pos < 2 ^ 32 ∧ f.pos + b.length ≤ (Compact.ptFwriteAction f b).pos := by
  have hfit' : b.length < 65536 := hfit
  have hs' : f.pos % 65536 + b.length < 65536 ∨ f.pos + b.length < 2 ^ 32 := hs
  obtain ⟨start, hnew, hstart⟩ := ptFwriteAction_start hend hfit.le (safe_iff.mp hs)
  rw [hnew]
  omega

lemma startsLate_of_not_safeFrom (hend : f.AtEnd) (hpos : f.pos < 2 ^ 32)
    (hrecords : ∀ r ∈ records, Late r ∧ r.bytes.length < ptFileBlockSize)
    (hs : ¬ SafeFrom f records) (hrun : records.foldlM fwriteRecord f = .ok f') :
    ∃ q, StartsLate f' q := by
  induction records generalizing f with
  | nil => exact absurd trivial hs
  | cons r records ih =>
    obtain ⟨hl, hfit⟩ := hrecords r (by simp)
    have hrest := fun p hp => hrecords p (List.mem_cons_of_mem r hp)
    rw [List.foldlM_cons, fwriteRecord_eq f hfit.le] at hrun
    by_cases hr : Safe f r.bytes
    · exact ih (ptFwriteAction_atEnd hend hfit.le (safe_iff.mp hr)) (hr.pos_lt hend hfit hpos).1 hrest
        (fun hmore => hs ⟨hr, hmore⟩) hrun
    · exact (startsLate_of_not_safe hpos hl hfit hr).run hrest hrun

lemma createActionFromBinary_late (hl : Late r) (hfit : r.bytes.length < ptFileBlockSize)
    (action : Action) (rest : List UInt8) :
    createActionFromBinary [] action (r.bytes ++ rest) = .error .symbolOutOfOrder ∨
      createActionFromBinary [] action (r.bytes ++ rest) = .error .unknownSymbol := by
  cases r with
  | branch r =>
    right
    have htype : read1bytes (r.bytes ++ rest) = .ok ptActionTypeBranch := rfl
    have hdrop : (r.bytes ++ rest).drop 1 = r.bytes.tail ++ rest := rfl
    change createActionFromBinary [] action (r.bytes ++ rest) = _
    simp only [createActionFromBinary, htype, hdrop, ptReadBranchAction_bytes, bind, Except.bind]
    rfl
  | symbol r =>
    left
    have hname : r.name.length < 2 ^ 32 := by
      have hfit' : r.bytes.length < 65536 := hfit
      have hlen := r.length_bytes
      omega
    have htype : read1bytes (r.bytes ++ rest) = .ok ptActionTypeSymbol := rfl
    have hdrop : (r.bytes ++ rest).drop 1 = r.bytes.tail ++ rest := rfl
    have hcreate : SymbolVec.create [] r = .error .symbolOutOfOrder := if_neg hl
    change createActionFromBinary [] action (r.bytes ++ rest) = _
    simp only [createActionFromBinary, htype, hdrop, ptReadSymbolAction_bytes rest r hname, hcreate, bind,
      Except.bind]
    rfl
  | error r => exact hl.elim

lemma StartsLate.not_read (h : StartsLate f r) (fresh : ℕ → Action) :
    readActionsFromCompactFile fresh [] f.content = .error .symbolOutOfOrder ∨
      readActionsFromCompactFile fresh [] f.content = .error .unknownSymbol := by
  obtain ⟨rest, hcontent⟩ := h.start
  have hbuffer : f.content.take ptFileBlockSize =
      r.bytes ++ rest.take (ptFileBlockSize - r.bytes.length) := by
    rw [← hcontent, List.take_append, List.take_of_length_le h.fits.le]
  have hne : r.bytes ++ rest.take (ptFileBlockSize - r.bytes.length) ≠ [] := by
    simp [r.bytes_ne_nil]
  obtain ⟨n, hn⟩ := Nat.exists_eq_add_one_of_ne_zero (List.length_pos_of_ne_nil hne).ne'
  have hread := createActionFromBinary_late h.late h.fits (fresh (f.content.length / ptFileBlockSize))
    (rest.take (ptFileBlockSize - r.bytes.length))
  simp only [readActionsFromCompactFile, readBlocks, hbuffer, hn, readBlock, if_neg hne]
  rcases hread with hread | hread
  · exact Or.inl (by rw [hread]; rfl)
  · exact Or.inr (by rw [hread]; rfl)

end Overwriting

section Samples

variable {f : File} {samples : List BranchSample}

def ShortNames (samples : List BranchSample) : Prop :=
  ∀ x ∈ samples, x.src.name.length < 65515 ∧ x.dst.name.length < 65515

lemma lookup_records (s : SymbolWriter) (pl : Place) :
    (s.perfSampleGetOutputSymbol pl).records = [] ∨
      ∃ q : SymbolRecord, (s.perfSampleGetOutputSymbol pl).records = [.symbol q] ∧ q.name = pl.name := by
  rw [SymbolWriter.perfSampleGetOutputSymbol, SymbolWriter.outputSymbolsLookupAndAdd]
  split
  · exact Or.inl rfl
  · exact Or.inr ⟨_, rfl, rfl⟩

lemma mem_lookup_records {s : SymbolWriter} {pl : Place} {r : Record}
    (hr : r ∈ (s.perfSampleGetOutputSymbol pl).records) : ∃ q : SymbolRecord, r = .symbol q ∧ q.name = pl.name := by
  rcases lookup_records s pl with h | ⟨q, h, hname⟩
  · rw [h] at hr
    exact absurd hr List.not_mem_nil
  · rw [h] at hr
    exact ⟨q, List.mem_singleton.mp hr, hname⟩

lemma mem_writeRecords {s : SymbolWriter} {r : Record} (hr : r ∈ s.writeRecords samples) :
    (∃ b, r = .branch b) ∨ ∃ q : SymbolRecord, r = .symbol q ∧
      ∃ x ∈ samples, q.name = x.src.name ∨ q.name = x.dst.name := by
  induction samples generalizing s with
  | nil => exact absurd hr List.not_mem_nil
  | cons x samples ih =>
    rw [SymbolWriter.writeRecords, SymbolWriter.writeSample] at hr
    simp only [List.mem_append, List.mem_singleton] at hr
    rcases hr with (hr | hr | rfl) | hr
    · obtain ⟨q, rfl, hname⟩ := mem_lookup_records hr
      exact Or.inr ⟨q, rfl, x, by simp, Or.inl hname⟩
    · obtain ⟨q, rfl, hname⟩ := mem_lookup_records hr
      exact Or.inr ⟨q, rfl, x, by simp, Or.inr hname⟩
    · exact Or.inl ⟨_, rfl⟩
    · rcases ih hr with hb | ⟨q, rfl, y, hy, hname⟩
      · exact Or.inl hb
      · exact Or.inr ⟨q, rfl, y, by simp [hy], hname⟩

lemma ShortNames.length_lt (hshort : ShortNames samples) {s : SymbolWriter} {r : Record}
    (hr : r ∈ s.writeRecords samples) : r.bytes.length < ptFileBlockSize := by
  rcases mem_writeRecords hr with ⟨b, rfl⟩ | ⟨q, rfl, x, hx, hname⟩
  · exact branch_length_lt b
  · obtain ⟨hsrc, hdst⟩ := hshort x hx
    have hlen := q.length_bytes
    change q.bytes.length < 65536
    rcases hname with hname | hname
    · rw [hname] at hlen
      omega
    · rw [hname] at hlen
      omega

lemma writeRecords_first (x : BranchSample) (samples : List BranchSample) :
    ∃ q more, SymbolWriter.init.writeRecords (x :: samples) = .symbol q :: more :=
  ⟨_, _, rfl⟩

lemma IdsInOrder.late {q : SymbolRecord} {more : List Record} (h : IdsInOrder (.symbol q :: more))
    {r : Record} (hr : r ∈ more) (hkind : ∀ e, r ≠ .error e) : Late r := by
  cases r with
  | branch b => trivial
  | error e => exact absurd rfl (hkind e)
  | symbol r =>
    have hmem : r ∈ symbolRecords more := List.mem_filterMap.mpr ⟨_, hr, rfl⟩
    obtain ⟨i, hi⟩ := List.mem_iff_getElem?.mp hmem
    have hid := h.symbols (i + 1) r hi
    exact fun hzero => absurd (hzero.symm.trans hid) (Nat.succ_ne_zero i).symm

lemma safeFrom_of_disciplined (hshort : ShortNames samples)
    (hwrite : (SymbolWriter.init.writeRecords samples).foldlM fwriteRecord .empty = .ok f)
    (hd : Disciplined (SymbolWriter.init.writeRecords samples) f) :
    SafeFrom .empty (SymbolWriter.init.writeRecords samples) := by
  cases samples with
  | nil => trivial
  | cons x samples =>
    have hfit := fun r => hshort.length_lt (s := .init) (r := r)
    have hkind : ∀ r ∈ SymbolWriter.init.writeRecords (x :: samples), ∀ e, r ≠ .error e := by
      intro r hr e he
      rcases mem_writeRecords hr with ⟨b, rfl⟩ | ⟨q, rfl, -⟩
      · cases he
      · cases he
    obtain ⟨q, more, hrecords⟩ := writeRecords_first x samples
    rw [hrecords] at hwrite hd hfit hkind ⊢
    have hq := hfit _ (List.mem_cons_self)
    have hfirst : Safe File.empty (Record.symbol q).bytes := Or.inl (by simpa [File.empty] using hq)
    rw [List.foldlM_cons, fwriteRecord_eq _ hq.le] at hwrite
    refine ⟨hfirst, ?_⟩
    by_contra hs
    have hlate : ∀ r ∈ more, Late r ∧ r.bytes.length < ptFileBlockSize := by
      intro r hr
      exact ⟨hd.ids.late hr (hkind r (by simp [hr])), hfit r (by simp [hr])⟩
    have hend : File.empty.AtEnd := rfl
    obtain ⟨p, hp⟩ := startsLate_of_not_safeFrom
      (ptFwriteAction_atEnd hend hq.le (safe_iff.mp hfirst))
      (hfirst.pos_lt hend hq (by simp [File.empty])).1 hlate hs hwrite
    rcases hp.not_read fun _ => default with hread | hread
    · exact hd.create _ hread
    · exact hd.getById _ hread

end Samples

theorem symbol_discipline (samples : List BranchSample) (f : File)
    (hwrite : (SymbolWriter.init.writeRecords samples).foldlM fwriteRecord .empty = .ok f) :
    (SafeFrom .empty (SymbolWriter.init.writeRecords samples) →
      Disciplined (SymbolWriter.init.writeRecords samples) f) ∧
    (ShortNames samples → (Disciplined (SymbolWriter.init.writeRecords samples) f ↔
      SafeFrom .empty (SymbolWriter.init.writeRecords samples))) :=
  ⟨disciplined_of_safe samples hwrite, fun hshort =>
    ⟨safeFrom_of_disciplined hshort hwrite, disciplined_of_safe samples hwrite⟩⟩

section Long

variable {f : File} {records : List Record}

lemma SafeFrom.length_lt (hs : SafeFrom f records)
    (hfit : ∀ r ∈ records, r.bytes.length < ptFileBlockSize) (hend : f.AtEnd) (hpos : f.pos < 2 ^ 32) :
    f.pos + (records.flatMap Record.bytes).length < 2 ^ 32 := by
  induction records generalizing f with
  | nil => simpa using hpos
  | cons r records ih =>
    obtain ⟨hr, hmore⟩ := hs
    have hfitr := hfit r (by simp)
    obtain ⟨hlt, hle⟩ := hr.pos_lt hend hfitr hpos
    have hrest := ih hmore (fun q hq => hfit q (by simp [hq]))
      (ptFwriteAction_atEnd hend hfitr.le (safe_iff.mp hr)) hlt
    rw [List.flatMap_cons, List.length_append]
    omega

end Long

namespace Sample

def callF : BranchSample := callMainTo 10 0x401200 (lit "f")

lemma callF_again : (SymbolWriter.init.writeSample callF).1.writeSample callF =
    ((SymbolWriter.init.writeSample callF).1, [.branch ⟨300, 10, 0, 0, 1⟩]) := rfl

lemma writeRecords_callF (n : ℕ) :
    (SymbolWriter.init.writeSample callF).1.writeRecords (List.replicate n callF) =
      List.replicate n (.branch ⟨300, 10, 0, 0, 1⟩) := by
  induction n with
  | zero => rfl
  | succ n ih =>
    rw [List.replicate_succ, SymbolWriter.writeRecords, callF_again, ih]
    rfl

lemma shortNames_callF (n : ℕ) : ShortNames (List.replicate n callF) := by
  intro x hx
  rw [List.eq_of_mem_replicate hx]
  decide

lemma callF_unreadable (n : ℕ) (hn : 2 ^ 32 ≤ 14 * n) :
    ∃ f, (SymbolWriter.init.writeRecords (List.replicate (n + 1) callF)).foldlM fwriteRecord .empty = .ok f ∧
      ¬ Disciplined (SymbolWriter.init.writeRecords (List.replicate (n + 1) callF)) f := by
  have hfit := fun r => (shortNames_callF (n + 1)).length_lt (s := .init) (r := r)
  obtain ⟨f, hwrite, -⟩ := fwriteRecords_run [] (SymbolWriter.init.writeRecords (List.replicate (n + 1) callF))
    (fun r hr => (hfit r hr).le) (show File.empty.pos ≤ File.empty.content.length from le_rfl)
  refine ⟨f, hwrite, fun hd => ?_⟩
  have hlt := (safeFrom_of_disciplined (shortNames_callF (n + 1)) hwrite hd).length_lt hfit rfl
    (by simp [File.empty])
  rw [List.replicate_succ, SymbolWriter.writeRecords, writeRecords_callF, List.flatMap_append,
    List.length_append, List.flatMap_replicate, List.length_flatten, List.map_replicate,
    List.sum_replicate] at hlt
  have hbytes : (Record.branch ⟨300, 10, 0, 0, 1⟩).bytes.length = 14 := by decide
  rw [hbytes, smul_eq_mul] at hlt
  omega

end Sample

/-- The records of one sample, half a billion times, do not fit below 4 GiB. -/
theorem long_run_unreadable :
    ∃ f, (SymbolWriter.init.writeRecords (List.replicate 536870912 Sample.callF)).foldlM fwriteRecord .empty =
        .ok f ∧
      ¬ Disciplined (SymbolWriter.init.writeRecords (List.replicate 536870912 Sample.callF)) f :=
  Sample.callF_unreadable 536870911 (by norm_num)

theorem two_calls_disciplined :
    ∃ f, (SymbolWriter.init.writeRecords Sample.clashing).foldlM fwriteRecord .empty = .ok f ∧
      Disciplined (SymbolWriter.init.writeRecords Sample.clashing) f := by
  have hfit : ∀ r ∈ SymbolWriter.init.writeRecords Sample.clashing, r.bytes.length ≤ ptFileBlockSize := by
    decide
  obtain ⟨f, hwrite, -⟩ := fwriteRecords_run [] (SymbolWriter.init.writeRecords Sample.clashing) hfit
    (show File.empty.pos ≤ File.empty.content.length from le_rfl)
  refine ⟨f, hwrite, (symbol_discipline Sample.clashing f hwrite).1 ?_⟩
  exact ⟨Or.inl (by decide), Or.inl (by decide), Or.inl (by decide), Or.inl (by decide), trivial⟩

end PtPerf.Compact
