import PtPerf.Compact.Reader

/-! What the writers put into a file below 4 GiB, and that the reader gets all of it back. A
file is a list of full blocks and an unfinished one. A full block ends with its last record, or
with an undefined mark and filler. -/

namespace PtPerf.Compact

open PtPerf.Support PtPerf.Trace

/-- What the action holds after the record; ids are looked up in the table of all symbols. -/
def Delivers (table : SymbolVec) (r : Record) (d : Delivery) : Prop :=
  d.record = some r ∧
  match r with
  | .branch r =>
    d.action.ptType = ptActionTypeBranch ∧ d.action.isError = false ∧
      d.action.tid = r.tid.toInt32 ∧ d.action.ts = r.ts ∧ d.action.type.code = r.flag ∧
      table[r.fromId.toNat]? = some d.action.fromSym ∧ table[r.toId.toNat]? = some d.action.toSym
  | .symbol r =>
    d.action.ptType = ptActionTypeSymbol ∧ d.action.isError = false ∧
      table[r.id.toNat]? = some ⟨r.name, r.addr, r.offset⟩
  | .error r =>
    d.action.tid = r.tid.toInt32 ∧ d.action.ts = r.ts ∧ d.action.isError = (r.code == 8) ∧
      d.action.ptType = if r.code = 8 then ptActionTypeError else ptActionTypeUndefine

/-- The records, in order, and beside them only undefined marks. -/
structure Faithful (table : SymbolVec) (records : List Record) (out : List Delivery) : Prop where
  records : List.Forall₂ (Delivers table) records (out.filter fun d => d.record.isSome)
  marks : ∀ d ∈ out, d.record = none → d.action.ptType = ptActionTypeUndefine

def symbolsAfter (symbols : SymbolVec) (records : List Record) : SymbolVec :=
  records.foldl (fun symbols r => r.symbolsAfter symbols) symbols

/-- Symbol ids count up from the symbols so far, and branches refer to symbols already there. -/
def Admissible : SymbolVec → List Record → Prop
  | _, [] => True
  | symbols, r :: records => r.Admissible symbols ∧ Admissible (r.symbolsAfter symbols) records

section Records

variable {symbols table : SymbolVec} {r : Record} {records more : List Record}

lemma admissible_append :
    Admissible symbols (records ++ more) ↔
      Admissible symbols records ∧ Admissible (symbolsAfter symbols records) more := by
  induction records generalizing symbols with
  | nil => simp [Admissible, symbolsAfter]
  | cons r records ih =>
    rw [List.cons_append, Admissible, ih, Admissible, and_assoc]
    rfl

lemma symbolsAfter_append :
    symbolsAfter symbols (records ++ more) = symbolsAfter (symbolsAfter symbols records) more :=
  List.foldl_append

lemma Record.symbols_extend (r : Record) (symbols : SymbolVec) : symbols <+: r.symbolsAfter symbols := by
  cases r with
  | symbol r => exact List.prefix_append _ _
  | branch r => exact List.prefix_rfl
  | error r => exact List.prefix_rfl

lemma symbols_extend (symbols : SymbolVec) (records : List Record) :
    symbols <+: symbolsAfter symbols records := by
  induction records generalizing symbols with
  | nil => exact List.prefix_rfl
  | cons r records ih => exact (r.symbols_extend symbols).trans (ih _)

lemma Record.delivers_store (ha : r.Admissible symbols) (ht : r.symbolsAfter symbols <+: table)
    (action : Action) : Delivers table r ⟨some r, r.store symbols action⟩ := by
  refine ⟨rfl, ?_⟩
  obtain ⟨more, rfl⟩ := ht
  cases r with
  | branch r =>
    obtain ⟨hf, ht⟩ := ha
    refine ⟨rfl, rfl, rfl, rfl, BranchType.code_ofCode r.flag, ?_, ?_⟩
    · simp [Record.symbolsAfter, Record.store, List.getElem?_append_left, hf]
    · simp [Record.symbolsAfter, Record.store, List.getElem?_append_left, ht]
  | symbol r =>
    have hid : r.id.toNat = symbols.length := ha
    refine ⟨rfl, rfl, ?_⟩
    simp [Record.symbolsAfter, hid]
  | error r => exact ⟨rfl, rfl, rfl, rfl⟩

lemma Faithful.append {out out' : List Delivery} (h : Faithful table records out)
    (h' : Faithful table more out') : Faithful table (records ++ more) (out ++ out') where
  records := by
    rw [List.filter_append]
    exact List.rel_append h.records h'.records
  marks d hd hn := (List.mem_append.mp hd).elim (fun hd => h.marks d hd hn) fun hd => h'.marks d hd hn

lemma Faithful.cons {d : Delivery} {out : List Delivery} (hd : Delivers table r d)
    (h : Faithful table records out) : Faithful table (r :: records) (d :: out) where
  records := by
    rw [List.filter_cons_of_pos (by simp [hd.1])]
    exact List.Forall₂.cons hd h.records
  marks e he hn := by
    rcases List.mem_cons.mp he with rfl | he
    · rw [hd.1] at hn
      cases hn
    · exact h.marks e he hn

lemma Faithful.filter {out : List Delivery} (h : Faithful table records out) {p : Delivery → Bool}
    {q : Record → Bool} (hmark : ∀ d, d.action.ptType = ptActionTypeUndefine → p d = false)
    (hrecord : ∀ r d, Delivers table r d → p d = q r) :
    List.Forall₂ (Delivers table) (records.filter q) (out.filter p) := by
  have hsub : out.filter p = (out.filter fun d => d.record.isSome).filter p := by
    rw [List.filter_filter]
    apply List.filter_congr
    intro d hd
    cases hrec : d.record with
    | some r => simp
    | none => rw [hmark d (h.marks d hd hrec), Bool.false_and]
  rw [hsub]
  have hr := h.records
  clear hsub h
  generalize (out.filter fun d => d.record.isSome) = ds at hr
  induction hr with
  | nil => exact List.Forall₂.nil
  | @cons r d records ds hd _ ih =>
    have hpq := hrecord r d hd
    cases hq : q r with
    | true =>
      rw [List.filter_cons_of_pos hq, List.filter_cons_of_pos (hpq.trans hq)]
      exact List.Forall₂.cons hd ih
    | false =>
      rw [List.filter_cons_of_neg (by simp [hq]), List.filter_cons_of_neg (by simp [hpq, hq])]
      exact ih

def Record.relevant : Record → Bool
  | .branch _ => true
  | .symbol _ => false
  | .error r => r.code == 8

/-- The deliveries that `init_action` looks at. -/
def Delivery.looked (d : Delivery) : Bool :=
  d.action.ptType == ptActionTypeBranch || d.action.ptType == ptActionTypeError

lemma Faithful.relevant {out : List Delivery} (h : Faithful table records out) :
    List.Forall₂ (Delivers table) (records.filter Record.relevant) (out.filter Delivery.looked) := by
  apply h.filter
  · intro d hd
    rw [Delivery.looked, hd]
    rfl
  · intro r d hd
    cases r with
    | branch r => simp [Delivery.looked, hd.2.1, Record.relevant]
    | symbol r =>
      rw [Delivery.looked, hd.2.1]
      rfl
    | error r =>
      rw [Delivery.looked, hd.2.2.2.2, Record.relevant]
      by_cases hcode : r.code = 8
      · rw [if_pos hcode, hcode]
        rfl
      · rw [if_neg hcode, beq_false_of_ne hcode]
        rfl

end Records

section Reading

variable {symbols table : SymbolVec}

def IsMark (tail : List UInt8) : Prop := tail = [] ∨ ∃ filler, tail = ptActionTypeUndefine :: filler

lemma readBlock_mark {tail : List UInt8} (ht : IsMark tail) (fuel : ℕ) (hf : tail.length ≤ fuel)
    (action : Action) :
    ∃ out, readBlock fuel symbols action tail = .ok (out, symbols) ∧ Faithful table [] out := by
  rcases ht with rfl | ⟨filler, rfl⟩
  · refine ⟨[], ?_, ⟨List.Forall₂.nil, by simp⟩⟩
    cases fuel <;> rfl
  · cases fuel with
    | zero => simp at hf
    | succ fuel =>
      refine ⟨_, rfl, ⟨List.Forall₂.nil, ?_⟩⟩
      intro d hd _
      obtain rfl := List.mem_singleton.mp hd
      rfl

lemma readBlock_records (records : List Record) (tail : List UInt8) (ht : IsMark tail) (fuel : ℕ)
    (hf : (records.flatMap Record.bytes ++ tail).length ≤ fuel)
    (hfit : ∀ r ∈ records, r.bytes.length ≤ ptFileBlockSize) (ha : Admissible symbols records)
    (htable : symbolsAfter symbols records <+: table) (action : Action) :
    ∃ out, readBlock fuel symbols action (records.flatMap Record.bytes ++ tail) =
        .ok (out, symbolsAfter symbols records) ∧ Faithful table records out := by
  induction records generalizing symbols fuel action with
  | nil => exact readBlock_mark ht fuel hf action
  | cons r records ih =>
    rw [List.flatMap_cons, List.append_assoc] at hf ⊢
    have hne := List.length_pos_of_ne_nil r.bytes_ne_nil
    rw [List.length_append] at hf
    obtain ⟨fuel, rfl⟩ : ∃ n, fuel = n + 1 := ⟨fuel - 1, by omega⟩
    have hread := r.createActionFromBinary_bytes action (records.flatMap Record.bytes ++ tail)
      (hfit r (by simp)) ha.1
    obtain ⟨out, hout, hfaith⟩ := ih fuel (by omega) (fun q hq => hfit q (by simp [hq])) ha.2
      htable (r.store symbols action)
    refine ⟨⟨some r, r.store symbols action⟩ :: out, ?_, ?_⟩
    · rw [readBlock, if_neg (by simp [r.bytes_ne_nil])]
      simp only [hread, hout, bind, Except.bind, pure, Except.pure]
      rfl
    · exact hfaith.cons (r.delivers_store ha.1 ((symbols_extend _ records).trans htable) action)

structure Block where
  records : List Record
  tail : List UInt8

namespace Block

def bytes (b : Block) : List UInt8 := b.records.flatMap Record.bytes ++ b.tail

structure Full (b : Block) : Prop where
  length : b.bytes.length = ptFileBlockSize
  mark : IsMark b.tail

end Block

lemma readBlocks_layout (fresh : ℕ → Action) (blocks : List Block) (last : List Record) (fuel : ℕ)
    (hfuel : blocks.length < fuel) (hfull : ∀ b ∈ blocks, b.Full)
    (hlast : (last.flatMap Record.bytes).length < ptFileBlockSize)
    (hfit : ∀ r ∈ blocks.flatMap Block.records ++ last, r.bytes.length ≤ ptFileBlockSize)
    (ha : Admissible symbols (blocks.flatMap Block.records ++ last))
    (htable : symbolsAfter symbols (blocks.flatMap Block.records ++ last) <+: table) :
    ∃ out, readBlocks fresh fuel symbols
        (blocks.flatMap Block.bytes ++ last.flatMap Record.bytes) =
        .ok (out, symbolsAfter symbols (blocks.flatMap Block.records ++ last)) ∧
      Faithful table (blocks.flatMap Block.records ++ last) out := by
  induction blocks generalizing symbols fuel with
  | nil =>
    obtain ⟨fuel, rfl⟩ : ∃ n, fuel = n + 1 := ⟨fuel - 1, by simp at hfuel; omega⟩
    simp only [List.flatMap_nil, List.nil_append] at hfit ha htable ⊢
    have hbuffer : (last.flatMap Record.bytes).take ptFileBlockSize = last.flatMap Record.bytes :=
      List.take_of_length_le hlast.le
    obtain ⟨out, hout, hfaith⟩ := readBlock_records last [] (Or.inl rfl)
      (last.flatMap Record.bytes).length (by simp) hfit ha htable (fresh fuel)
    rw [List.append_nil] at hout
    refine ⟨out, ?_, hfaith⟩
    simp only [readBlocks, hbuffer, hout, hlast, if_true, bind, Except.bind, pure, Except.pure]
  | cons b blocks ih =>
    obtain ⟨fuel, rfl⟩ : ∃ n, fuel = n + 1 := ⟨fuel - 1, by simp at hfuel; omega⟩
    simp only [List.flatMap_cons, List.append_assoc] at hfit ha htable ⊢
    obtain ⟨hb, hrest⟩ := admissible_append.mp ha
    rw [symbolsAfter_append] at htable
    have hfullb := hfull b (by simp)
    have hbuffer : (b.bytes ++ (blocks.flatMap Block.bytes ++ last.flatMap Record.bytes)).take
        ptFileBlockSize = b.bytes := List.take_left' hfullb.length
    have hdrop : (b.bytes ++ (blocks.flatMap Block.bytes ++ last.flatMap Record.bytes)).drop
        ptFileBlockSize = blocks.flatMap Block.bytes ++ last.flatMap Record.bytes :=
      List.drop_left' hfullb.length
    obtain ⟨out, hout, hfaith⟩ := readBlock_records b.records b.tail hfullb.mark b.bytes.length le_rfl
      (fun r hr => hfit r (by simp [hr])) hb ((symbols_extend _ _).trans htable) (fresh fuel)
    obtain ⟨out', hout', hfaith'⟩ := ih fuel (by simpa using hfuel)
      (fun c hc => hfull c (by simp [hc]))
      (fun r hr => hfit r (List.mem_append_right _ hr)) hrest htable
    refine ⟨out ++ out', ?_, hfaith.append hfaith'⟩
    rw [symbolsAfter_append]
    change readBlock b.bytes.length symbols (fresh fuel) b.bytes = _ at hout
    rw [hfullb.length] at hout
    simp only [readBlocks, hbuffer, hdrop, hout, hout', hfullb.length, lt_irrefl, if_false, bind,
      Except.bind, pure, Except.pure]

end Reading

section Writing

/-- The file holds exactly the records, laid out in blocks. -/
def Layout (f : File) (records : List Record) : Prop :=
  ∃ (blocks : List Block) (last : List Record),
    f.content = blocks.flatMap Block.bytes ++ last.flatMap Record.bytes ∧
    (∀ b ∈ blocks, b.Full) ∧ (last.flatMap Record.bytes).length < ptFileBlockSize ∧
    records = blocks.flatMap Block.records ++ last

variable {f : File} {records : List Record} {r : Record}

lemma length_blocks {blocks : List Block} (h : ∀ b ∈ blocks, b.Full) :
    (blocks.flatMap Block.bytes).length = blocks.length * ptFileBlockSize := by
  induction blocks with
  | nil => simp
  | cons b blocks ih =>
    have hb := (h b (by simp)).length
    have hrest := ih fun c hc => h c (by simp [hc])
    rw [List.flatMap_cons, List.length_append, hb, hrest, List.length_cons]
    ring

/-- The unfinished block closed by the mark and filler, and the record in the block after it. -/
def closeBlock (last : List Record) (r : Record) : Block :=
  ⟨last, (ptActionTypeUndefine :: r.bytes).take
    (ptFileBlockSize - (last.flatMap Record.bytes).length)⟩

lemma closeBlock_full {last : List Record} (hlast : (last.flatMap Record.bytes).length < ptFileBlockSize)
    (hc : ptFileBlockSize ≤ (last.flatMap Record.bytes).length + r.bytes.length) :
    (closeBlock last r).Full where
  length := by
    simp only [closeBlock, Block.bytes, List.length_append, List.length_take, List.length_cons]
    omega
  mark := by
    obtain ⟨n, hn⟩ : ∃ n, ptFileBlockSize - (last.flatMap Record.bytes).length = n + 1 :=
      ⟨ptFileBlockSize - (last.flatMap Record.bytes).length - 1, by omega⟩
    refine Or.inr ⟨r.bytes.take n, ?_⟩
    simp only [closeBlock, hn, List.take_succ_cons]

lemma layout_full {blocks : List Block} (hfull : ∀ b ∈ blocks, b.Full) {b : Block} (hb : b.Full) :
    ∀ c ∈ blocks ++ [b], c.Full := by
  intro c hc
  rcases List.mem_append.mp hc with hc | hc
  · exact hfull c hc
  · rw [List.mem_singleton.mp hc]
    exact hb

/-- Behind full blocks, a record that fits starts the last one, or is a full block itself. -/
lemma layout_append {blocks : List Block} (hfull : ∀ b ∈ blocks, b.Full)
    (hfit : r.bytes.length ≤ ptFileBlockSize)
    (hcontent : f.content = blocks.flatMap Block.bytes ++ r.bytes) :
    Layout f (blocks.flatMap Block.records ++ [r]) := by
  rcases Nat.lt_or_eq_of_le hfit with hsmall | hwhole
  · exact ⟨blocks, [r], by simpa using hcontent, hfull, by simpa using hsmall, rfl⟩
  · refine ⟨blocks ++ [⟨[r], []⟩], [], by simpa [Block.bytes] using hcontent, layout_full hfull ?_,
      by simp [ptFileBlockSize], by simp⟩
    exact ⟨by simpa [Block.bytes] using hwhole, Or.inl rfl⟩

lemma layout_write (hl : Layout f records) (hf : f.AtEnd)
    (hfit : r.bytes.length ≤ ptFileBlockSize)
    (hok : ¬ crosses f r.bytes ∨ f.pos + r.bytes.length < 2 ^ 32) :
    Layout (ptFwriteAction f r.bytes) (records ++ [r]) := by
  obtain ⟨blocks, last, hcontent, hfull, hlast, rfl⟩ := hl
  have hpos : f.pos = blocks.length * ptFileBlockSize + (last.flatMap Record.bytes).length := by
    have hp : f.pos = f.content.length := hf
    rw [hp, hcontent, List.length_append, length_blocks hfull]
  have hmod : f.pos % ptFileBlockSize = (last.flatMap Record.bytes).length := by
    rw [hpos, Nat.mul_comm, Nat.mul_add_mod, Nat.mod_eq_of_lt hlast]
  by_cases hc : crosses f r.bytes
  · have hge : ptFileBlockSize ≤ (last.flatMap Record.bytes).length + r.bytes.length := by
      rw [← hmod]
      exact hc
    have hnext : nextBlock f = (blocks.flatMap Block.bytes).length + ptFileBlockSize := by
      rw [nextBlock, hpos, length_blocks hfull, Nat.mul_comm blocks.length,
        Nat.mul_add_div (by decide), Nat.div_eq_of_lt hlast]
      ring
    have htake : (f.content ++ ptActionTypeUndefine :: r.bytes).take (nextBlock f) =
        blocks.flatMap Block.bytes ++ (closeBlock last r).bytes := by
      rw [hcontent, List.append_assoc, hnext, List.take_length_add_append, closeBlock, Block.bytes,
        List.take_append, List.take_of_length_le hlast.le]
    have hnew := (ptFwriteAction_cross_content hf hfit hc (hok.resolve_left (not_not_intro hc))).1
    rw [htake] at hnew
    have hl := layout_append (layout_full hfull (closeBlock_full hlast hge)) hfit (by simpa using hnew)
    simpa [closeBlock] using hl
  · refine ⟨blocks, last ++ [r], ?_, hfull, ?_, by simp⟩
    · rw [ptFwriteAction_same_content hf hc, hcontent]
      simp
    · have hlt := Nat.lt_of_not_le hc
      rw [hmod] at hlt
      simpa using hlt

lemma layout_empty : Layout File.empty [] := ⟨[], [], rfl, by simp, by simp [ptFileBlockSize], rfl⟩

lemma SymbolRecord.length_bytes (r : SymbolRecord) : r.bytes.length = r.name.length + 21 := by
  simp [SymbolRecord.bytes, write1bytes, write4bytes, write8bytes]

lemma fwriteRecord_eq (f : File) (hfit : r.bytes.length ≤ ptFileBlockSize) :
    fwriteRecord f r = .ok (ptFwriteAction f r.bytes) := by
  cases r with
  | branch r => rfl
  | error r => rfl
  | symbol r =>
    have hfit' : r.bytes.length ≤ ptFileBlockSize := hfit
    have hlen := r.length_bytes
    simp only [fwriteRecord, ptFwriteSymbolAction]
    rw [if_neg (by omega), if_neg (by omega)]
    rfl

lemma fwriteRecords_run (records more : List Record)
    (hfit : ∀ r ∈ more, r.bytes.length ≤ ptFileBlockSize) (hf : f.pos ≤ f.content.length) :
    ∃ f', more.foldlM fwriteRecord f = .ok f' ∧ f.content.length ≤ f'.content.length ∧
      (f'.content.length < 2 ^ 32 → f.AtEnd → Layout f records → Layout f' (records ++ more)) := by
  induction more generalizing f records with
  | nil => exact ⟨f, rfl, le_rfl, fun _ _ hl => by simpa using hl⟩
  | cons r more ih =>
    have hr := hfit r (by simp)
    obtain ⟨hpos, hkeep, hgrow⟩ := ptFwriteAction_length (b := r.bytes) hf hr
    obtain ⟨f', hrun, hle, hlayout⟩ := ih (records ++ [r])
      (fun q hq => hfit q (by simp [hq])) hpos
    refine ⟨f', ?_, hkeep.trans hle, ?_⟩
    · rw [List.foldlM_cons, fwriteRecord_eq f hr]
      exact hrun
    · intro hlt hend hl
      have hsmall : f.pos + r.bytes.length < 2 ^ 32 := (hgrow.trans hle).trans_lt hlt
      have hnew := hlayout hlt (ptFwriteAction_atEnd hend hr (Or.inr hsmall))
        (layout_write hl hend hr (Or.inr hsmall))
      simpa using hnew

lemma fwriteRecords_layout (records more : List Record)
    (hfit : ∀ r ∈ more, r.bytes.length ≤ ptFileBlockSize) (hend : f.AtEnd) (hl : Layout f records)
    (hroom : f.pos + more.length * (2 * ptFileBlockSize) < 2 ^ 32) :
    ∃ f', more.foldlM fwriteRecord f = .ok f' ∧ Layout f' (records ++ more) ∧ f'.content.length < 2 ^ 32 := by
  induction more generalizing f records with
  | nil =>
    have hpos : f.pos = f.content.length := hend
    exact ⟨f, rfl, by simpa using hl, by simpa [hpos] using hroom⟩
  | cons r more ih =>
    have hr := hfit r (by simp)
    have hr' : r.bytes.length ≤ 65536 := hr
    have hroom' : f.pos + (more.length + 1) * (2 * 65536) < 2 ^ 32 := hroom
    have hsmall : f.pos + r.bytes.length < 2 ^ 32 := by omega
    have hpos : (ptFwriteAction f r.bytes).pos ≤ f.pos + 2 * 65536 := by
      obtain ⟨start, hnew, hstart⟩ := ptFwriteAction_start hend hr (Or.inr hsmall)
      rw [hnew]
      omega
    obtain ⟨f', hrun, hlayout, hlt⟩ := ih (records ++ [r]) (fun q hq => hfit q (by simp [hq]))
      (ptFwriteAction_atEnd hend hr (Or.inr hsmall)) (layout_write hl hend hr (Or.inr hsmall))
      (show _ + more.length * (2 * 65536) < 2 ^ 32 by omega)
    refine ⟨f', ?_, by simpa using hlayout, hlt⟩
    rw [List.foldlM_cons, fwriteRecord_eq f hr]
    exact hrun

lemma Layout.bytes_le (hl : Layout f records) : (records.flatMap Record.bytes).length ≤ f.content.length := by
  obtain ⟨blocks, last, hcontent, -, -, rfl⟩ := hl
  have hblocks : ((blocks.flatMap Block.records).flatMap Record.bytes).length ≤
      (blocks.flatMap Block.bytes).length := by
    clear hcontent
    induction blocks with
    | nil => exact le_rfl
    | cons b blocks ih =>
      rw [List.flatMap_cons, List.flatMap_append, List.flatMap_cons, List.length_append, List.length_append,
        Block.bytes, List.length_append]
      omega
  rw [hcontent, List.flatMap_append, List.length_append, List.length_append]
  exact Nat.add_le_add_right hblocks _

end Writing

lemma Layout.read {f : File} {records : List Record} (hl : Layout f records) (fresh : ℕ → Action)
    (hfit : ∀ r ∈ records, r.bytes.length ≤ ptFileBlockSize) (ha : Admissible [] records) :
    ∃ out, readActionsFromCompactFile fresh [] f.content =
        .ok (out, symbolsAfter [] records) ∧ Faithful (symbolsAfter [] records) records out := by
  obtain ⟨blocks, last, hcontent, hfull, hlast, rfl⟩ := hl
  have hlen : f.content.length / ptFileBlockSize = blocks.length := by
    rw [hcontent, List.length_append, length_blocks hfull, Nat.mul_comm,
      Nat.mul_add_div (by decide), Nat.div_eq_of_lt hlast, Nat.add_zero]
  rw [readActionsFromCompactFile, hlen, hcontent]
  exact readBlocks_layout fresh blocks last _ (Nat.lt_succ_self _) hfull hlast hfit ha
    List.prefix_rfl

theorem compact_round_trip (fresh : ℕ → Action) (records : List Record)
    (hfit : ∀ r ∈ records, r.bytes.length ≤ ptFileBlockSize) (hids : Admissible [] records) :
    ∃ f, records.foldlM fwriteRecord File.empty = .ok f ∧
      (f.content.length < 2 ^ 32 →
        ∃ out table, readActionsFromCompactFile fresh [] f.content = .ok (out, table) ∧
          Faithful table records out) := by
  obtain ⟨f, hrun, -, hlayout⟩ := fwriteRecords_run [] records hfit
    (show File.empty.pos ≤ File.empty.content.length from le_rfl)
  refine ⟨f, hrun, fun hlt => ?_⟩
  obtain ⟨out, hread, hfaith⟩ := (hlayout hlt rfl layout_empty).read fresh hfit hids
  exact ⟨out, _, hread, hfaith⟩

namespace Sample

/-- A name of nearly a block. -/
def longName : SymbolRecord := ⟨1, 0x401200, 0, List.replicate 65500 'f'.toUInt8⟩

def records : List Record :=
  [.symbol ⟨0, 0x401100, 16, lit "main"⟩, .symbol longName, .branch ⟨300, 10, 0, 0, 1⟩, .error ⟨300, 20, 8⟩]

lemma length_longName : (Record.symbol longName).bytes.length = 65521 := by
  rw [Record.bytes, longName, SymbolRecord.length_bytes, List.length_replicate]

lemma records_fit : ∀ r ∈ records, r.bytes.length ≤ ptFileBlockSize := by
  simp only [records, List.forall_mem_cons, length_longName]
  decide

end Sample

/-- The file reaches into a second block. -/
theorem sample_round_trip :
    ∃ f, Sample.records.foldlM fwriteRecord File.empty = .ok f ∧ ptFileBlockSize < f.content.length ∧
      f.content.length < 2 ^ 32 ∧
      ∃ out table, readActionsFromCompactFile (fun _ => default) [] f.content = .ok (out, table) ∧
        Faithful table Sample.records out := by
  have hids : Admissible [] Sample.records := ⟨rfl, rfl, ⟨by decide, by decide⟩, trivial, trivial⟩
  obtain ⟨f, hrun, hread⟩ := compact_round_trip (fun _ => default) Sample.records Sample.records_fit hids
  obtain ⟨f', hrun', hlayout, hlt⟩ := fwriteRecords_layout (f := .empty) [] Sample.records Sample.records_fit
    rfl layout_empty (by decide)
  obtain rfl : f = f' := Except.ok.inj (hrun.symm.trans hrun')
  refine ⟨f, hrun, lt_of_lt_of_le ?_ hlayout.bytes_le, hlt, hread hlt⟩
  simp only [List.nil_append, Sample.records, List.flatMap_cons, List.length_append, Sample.length_longName]
  decide

end PtPerf.Compact
