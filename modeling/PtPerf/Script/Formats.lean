import PtPerf.Script.ErrorLine

/-! The text format and the compact format side by side: one event, printed and read in both. -/

namespace PtPerf.Script

open PtPerf.Support PtPerf.Support.Text PtPerf.Trace PtPerf.Compact

inductive ScriptEvent
  | branch (x : BranchEvent)
  | lost (l : LostData)

namespace ScriptEvent

def line : ScriptEvent → Str
  | branch x => fprintfSample x
  | lost l => fprintfAuxtraceError l.event

def compactFile : ScriptEvent → Except WriteFault File
  | branch x => (writeSamples [x.compact]).map Prod.snd
  | lost l => .ok (ptFwriteErrorAction .empty l.event.compact)

end ScriptEvent

structure SameAction (a b : Action) : Prop where
  kind : a.ptType = b.ptType
  isError : a.isError = b.isError
  tid : a.tid = b.tid
  ts : a.ts = b.ts
  type : a.ptType = ptActionTypeBranch → a.type.code = b.type.code
  fromSym : a.ptType = ptActionTypeBranch → a.fromSym = b.fromSym
  toSym : a.ptType = ptActionTypeBranch → a.toSym = b.toSym

/-- Both formats yield one action for the event, and the same. -/
def FormatsAgree (action : Action) (fresh : ℕ → Action) (ev : ScriptEvent) : Prop :=
  ∃ a symbols f out table d,
    createActionFromString action 0 ev.line = .ok (some a, symbols) ∧
    ev.compactFile = .ok f ∧ readActionsFromCompactFile fresh [] f.content = .ok (out, table) ∧
    out.filter Delivery.looked = [d] ∧ SameAction a d.action

section Compact

variable (x : BranchSample)

/-- The cache takes both ends for one symbol. -/
def SameKey : Prop := x.dst.lookupAddr.toUInt32 = x.src.lookupAddr.toUInt32

instance : Decidable (SameKey x) :=
  inferInstanceAs (Decidable (x.dst.lookupAddr.toUInt32 = x.src.lookupAddr.toUInt32))

def placeRecord (pl : Place) (id : UInt32) : SymbolRecord :=
  ⟨id, pl.symbol.addr, pl.symbol.offset, pl.symbol.name⟩

def sampleRecords : List Record :=
  if SameKey x then [.symbol (placeRecord x.src 0), .branch ⟨x.tid, x.time, x.flag, 0, 0⟩]
  else [.symbol (placeRecord x.src 0), .symbol (placeRecord x.dst 1),
    .branch ⟨x.tid, x.time, x.flag, 0, 1⟩]

def compactTo : Symbol := if SameKey x then x.src.symbol else x.dst.symbol

lemma fprintCompact_init : ∃ s, SymbolWriter.init.fprintCompact x [] = .ok (s, sampleRecords x) := by
  have hsrc : SymbolWriter.init.perfSampleGetOutputSymbol x.src =
      ⟨⟨⟨[⟨x.src.lookupAddr.toUInt32, 0, x.src.lookupAddr, x.src.offset.toUInt32⟩], 1⟩, 1⟩,
        ⟨x.src.lookupAddr.toUInt32, 0, x.src.lookupAddr, x.src.offset.toUInt32⟩,
        [.symbol (placeRecord x.src 0)], false⟩ := rfl
  simp only [SymbolWriter.fprintCompact, hsrc]
  by_cases hk : SameKey x
  · have hk' : x.dst.lookupAddr.toUInt32 = x.src.lookupAddr.toUInt32 := hk
    simp [SymbolWriter.perfSampleGetOutputSymbol, SymbolWriter.outputSymbolsLookupAndAdd,
      SymbolCache.lookup, Place.symbol, hk', sampleRecords, hk]
  · have hk' : x.src.lookupAddr.toUInt32 ≠ x.dst.lookupAddr.toUInt32 := fun h => hk h.symm
    simp [SymbolWriter.perfSampleGetOutputSymbol, SymbolWriter.outputSymbolsLookupAndAdd,
      SymbolCache.lookup, Place.symbol, hk', sampleRecords, hk, SymbolCache.add, SymbolCache.limit,
      placeRecord]

/-- The names that are written fit a record. -/
def NamesFit : Prop :=
  x.src.name.length + 21 ≤ ptFileBlockSize ∧
    (¬ SameKey x → x.dst.name.length + 21 ≤ ptFileBlockSize)

lemma branch_fits (r : BranchRecord) : (Record.branch r).bytes.length ≤ ptFileBlockSize :=
  fits_of_fwriteRecord (f := .empty) (r := .branch r) rfl

lemma placeRecord_fits {pl : Place} {id : UInt32} :
    (Record.symbol (placeRecord pl id)).bytes.length ≤ ptFileBlockSize ↔
      pl.name.length + 21 ≤ ptFileBlockSize := by
  change (placeRecord pl id).bytes.length ≤ ptFileBlockSize ↔ _
  rw [SymbolRecord.length_bytes]
  rfl

lemma sampleRecords_fit_iff :
    (∀ r ∈ sampleRecords x, r.bytes.length ≤ ptFileBlockSize) ↔ NamesFit x := by
  rw [sampleRecords, NamesFit]
  by_cases hk : SameKey x
  · simp [hk, placeRecord_fits, branch_fits]
  · simp [hk, placeRecord_fits, branch_fits]

lemma sampleRecords_admissible : Admissible [] (sampleRecords x) := by
  rw [sampleRecords]
  split
  · exact ⟨rfl, by simp [Record.Admissible, Record.symbolsAfter], trivial⟩
  · exact ⟨rfl, rfl, by simp [Record.Admissible, Record.symbolsAfter], trivial⟩

lemma sampleRecords_length : (sampleRecords x).length ≤ 3 := by
  rw [sampleRecords]
  split <;> simp

lemma writeSamples_singleton : (writeSamples [x]).map Prod.snd =
    (sampleRecords x).foldlM fwriteRecord .empty := by
  obtain ⟨s, hs⟩ := fprintCompact_init x
  simp only [writeSamples, Runs.loop_cons, Runs.feeding, hs, bind, Except.bind, pure, Except.pure]
  cases (sampleRecords x).foldlM fwriteRecord .empty <;> rfl

lemma read_event (fresh : ℕ → Action) {records : List Record} {r : Record}
    (hfit : ∀ r ∈ records, r.bytes.length ≤ ptFileBlockSize) (ha : Admissible [] records)
    (hlen : records.length ≤ 3) (hr : records.filter Record.relevant = [r]) :
    ∃ f out d, records.foldlM fwriteRecord .empty = .ok f ∧
      readActionsFromCompactFile fresh [] f.content = .ok (out, symbolsAfter [] records) ∧
      out.filter Delivery.looked = [d] ∧ Delivers (symbolsAfter [] records) r d := by
  have hroom : 0 + records.length * (2 * 65536) < 2 ^ 32 := by omega
  obtain ⟨f, hwrite, hl, -⟩ := fwriteRecords_layout (f := .empty) [] records hfit rfl layout_empty hroom
  obtain ⟨out, hread, hfaith⟩ := hl.read fresh hfit ha
  have hevents := hfaith.relevant
  rw [List.nil_append, hr] at hevents
  obtain ⟨d, hd, hds⟩ : ∃ d, Delivers (symbolsAfter [] records) r d ∧ out.filter Delivery.looked = [d] := by
    generalize out.filter Delivery.looked = ds at hevents
    cases hevents with
    | cons hd hnil =>
      cases hnil
      exact ⟨_, hd, rfl⟩
  exact ⟨f, out, d, hwrite, hread, hds, hd⟩

lemma compact_branch (fresh : ℕ → Action) (hfit : NamesFit x) :
    ∃ f out table d, (writeSamples [x]).map Prod.snd = .ok f ∧
      readActionsFromCompactFile fresh [] f.content = .ok (out, table) ∧
      out.filter Delivery.looked = [d] ∧ d.action.ptType = ptActionTypeBranch ∧ d.action.isError = false ∧
      d.action.tid = x.tid.toInt32 ∧ d.action.ts = x.time ∧ d.action.type.code = x.flag ∧
      d.action.fromSym = x.src.symbol ∧ d.action.toSym = compactTo x := by
  obtain ⟨r, hr, htid, hts, hflag, hfrom, hto⟩ : ∃ r : BranchRecord,
      (sampleRecords x).filter Record.relevant = [.branch r] ∧ r.tid = x.tid ∧ r.ts = x.time ∧
      r.flag = x.flag ∧ (symbolsAfter [] (sampleRecords x))[r.fromId.toNat]? = some x.src.symbol ∧
      (symbolsAfter [] (sampleRecords x))[r.toId.toNat]? = some (compactTo x) := by
    rw [sampleRecords, compactTo]
    by_cases hk : SameKey x
    · rw [if_pos hk, if_pos hk]
      exact ⟨_, rfl, rfl, rfl, rfl, rfl, rfl⟩
    · rw [if_neg hk, if_neg hk]
      exact ⟨_, rfl, rfl, rfl, rfl, rfl, rfl⟩
  obtain ⟨f, out, d, hwrite, hread, hds, -, htype, herror, htid', hts', hflag', hfrom', hto'⟩ :=
    read_event fresh ((sampleRecords_fit_iff x).mpr hfit) (sampleRecords_admissible x)
      (sampleRecords_length x) hr
  refine ⟨f, out, _, d, (writeSamples_singleton x).trans hwrite, hread, hds, htype, herror,
    by rw [htid', htid], by rw [hts', hts], by rw [hflag', hflag], ?_, ?_⟩
  · exact Option.some.inj (hfrom'.symm.trans hfrom)
  · exact Option.some.inj (hto'.symm.trans hto)

lemma fit_of_compact {f : File} (h : (writeSamples [x]).map Prod.snd = .ok f) : NamesFit x := by
  rw [writeSamples_singleton] at h
  exact (sampleRecords_fit_iff x).mp (fits_of_fwriteRecords h)

end Compact

lemma compact_lost (fresh : ℕ → Action) (l : LostData) :
    ∃ f out table d, (ScriptEvent.lost l).compactFile = .ok f ∧
      readActionsFromCompactFile fresh [] f.content = .ok (out, table) ∧
      out.filter Delivery.looked = [d] ∧ d.action.ptType = ptActionTypeError ∧ d.action.isError = true ∧
      d.action.tid = l.tid.toInt32 ∧ d.action.ts = l.time := by
  have hfit : ∀ r ∈ [Record.error l.event.compact], r.bytes.length ≤ ptFileBlockSize := by
    intro r hr
    rw [List.mem_singleton.mp hr]
    exact fits_of_fwriteRecord (f := .empty) (r := .error l.event.compact) rfl
  obtain ⟨f, out, d, hwrite, hread, hds, -, htid, hts, herror, htype⟩ :=
    read_event fresh hfit ⟨trivial, trivial⟩ (by simp) (r := .error l.event.compact) rfl
  refine ⟨f, out, _, d, ?_, hread, hds, htype, herror, htid, hts⟩
  rw [← hwrite]
  rfl

/-- What a branch must be like to come out the same: its flags are in the compact table, the text
can be taken apart, the names fit, and each format keeps the two ends as they are. -/
structure Unambiguous (x : BranchEvent) : Prop where
  flags : x.flags ∈ sampleFlagsNew.map Prod.fst
  arrow : ¬ lit "=>" <:+: x.src.name
  src : Readable x.src
  dst : Readable x.dst
  fit : NamesFit x.compact
  fromSym : textSymbol x.src = x.src.symbol
  toSym : if SameKey x.compact then (textSymbol x.dst).addr = x.src.lookupAddr
    else textSymbol x.dst = x.dst.symbol

def ScriptEvent.Unambiguous : ScriptEvent → Prop
  | branch x => Script.Unambiguous x
  | lost l => l.time ≠ 0

section Agree

variable {action : Action} {fresh : ℕ → Action} {x : BranchEvent}

lemma textTo_eq_iff (h : textSymbol x.src = x.src.symbol) :
    textTo x = compactTo x.compact ↔
      if SameKey x.compact then (textSymbol x.dst).addr = x.src.lookupAddr
      else textSymbol x.dst = x.dst.symbol := by
  have hsrc : x.src.symbol.addr = x.src.lookupAddr := rfl
  rw [textTo, compactTo, h, hsrc]
  by_cases hk : SameKey x.compact
  · rw [if_pos hk, if_pos hk]
    by_cases ha : (textSymbol x.dst).addr = x.src.lookupAddr
    · rw [if_pos ha]
      exact iff_of_true rfl ha
    · rw [if_neg ha]
      refine iff_of_false (fun heq => ha ?_) ha
      rw [heq]
      rfl
  · rw [if_neg hk, if_neg hk]
    have hne : x.dst.lookupAddr ≠ x.src.lookupAddr := fun heq => hk (congrArg _ heq)
    by_cases ha : (textSymbol x.dst).addr = x.src.lookupAddr
    · rw [if_pos ha]
      refine iff_of_false (fun heq => hne ?_) fun heq => hne ?_
      · exact (congrArg Symbol.addr heq).symm
      · rw [← ha, heq]
        rfl
    · rw [if_neg ha]
      rfl

lemma known_of_flags (h : x.flags ∈ sampleFlagsNew.map Prod.fst) :
    ∃ e ∈ sampleFlagsNew, x.flags = e.1 := by
  obtain ⟨e, he, heq⟩ := List.mem_map.mp h
  exact ⟨e, he, heq.symm⟩

lemma branch_agrees (h : Unambiguous x) : FormatsAgree action fresh (.branch x) := by
  obtain ⟨e, he, hx⟩ := known_of_flags h.flags
  obtain ⟨pos, j, k, hat, hbranch⟩ := createBranch_known
    { action with isError := false, fromTarget := false, toTarget := false } 0 x he hx
  obtain ⟨m, hends⟩ := readEnds_known x hat h.arrow
  rw [if_pos ⟨h.src, h.dst⟩] at hends
  obtain ⟨f, out, table, d, hfile, hread, hds, htype, herror, htid, hts, hflag, hfrom, hto⟩ :=
    compact_branch x.compact fresh h.fit
  have htext := createActionFromString_branch action 0 x
  rw [hbranch, hends] at htext
  have hcode : d.action.type.code = e.2 := by
    rw [hflag]
    change sampleFlagsToNew x.flags = e.2
    rw [hx, sampleFlagsToNew_known he]
  refine ⟨_, m, f, out, table, d, htext, hfile, hread, hds, htype.symm, herror.symm, htid.symm,
    hts.symm, fun _ => ?_, fun _ => ?_, fun _ => ?_⟩
  · rw [hcode]
    exact BranchType.code_ofCode e.2
  · rw [hfrom]
    exact h.fromSym
  · rw [hto]
    exact (textTo_eq_iff h.fromSym).mpr h.toSym

lemma unambiguous_of_branch (h : FormatsAgree action fresh (.branch x)) : Unambiguous x := by
  obtain ⟨a, symbols, f, out, table, d, htext, hfile, hread, hds, hsame⟩ := h
  have hfit := fit_of_compact x.compact hfile
  obtain ⟨f', out', table', d', hfile', hread', hds', htype, -, -, -, hflag, hfrom, hto⟩ :=
    compact_branch x.compact fresh hfit
  obtain rfl : f = f' := Except.ok.inj (hfile.symm.trans hfile')
  obtain ⟨rfl, rfl⟩ := Prod.mk.inj (Except.ok.inj (hread.symm.trans hread'))
  obtain rfl : d = d' := by simpa using hds.symm.trans hds'
  have hkind : a.ptType = ptActionTypeBranch := hsame.kind.trans htype
  change createActionFromString action 0 (fprintfSample x) = _ at htext
  rw [createActionFromString_branch] at htext
  obtain ⟨⟨a', m⟩, hcreate, heq⟩ := Runs.map_eq_ok.mp htext
  obtain ⟨rfl, rfl⟩ : a' = a ∧ m = symbols := by simpa using heq
  have hknown : x.flags ∈ sampleFlagsNew.map Prod.fst := by
    by_contra hunknown
    have hcode := createBranch_code hcreate
    rw [hsame.type hkind, hflag] at hcode
    change sampleFlagsToNew x.flags < ptActionUnknownFlag at hcode
    rw [sampleFlagsToNew_unknown hunknown] at hcode
    exact absurd hcode (by decide)
  obtain ⟨e, he, hx⟩ := known_of_flags hknown
  obtain ⟨pos, j, k, hat, hbranch⟩ := createBranch_known
    { action with isError := false, fromTarget := false, toTarget := false } 0 x he hx
  rw [hbranch] at hcreate
  obtain ⟨⟨m', src, dst⟩, hends, hends'⟩ := Runs.map_eq_ok.mp hcreate
  have hsrc : src = x.src.symbol := by
    have ha : a'.fromSym = src := by rw [← (Prod.mk.inj hends').1]
    rw [← ha, hsame.fromSym hkind, hfrom]
    rfl
  have hdst : dst = compactTo x.compact := by
    have ha : a'.toSym = dst := by rw [← (Prod.mk.inj hends').1]
    rw [← ha, hsame.toSym hkind, hto]
  have harrow : ¬ lit "=>" <:+: x.src.name := by
    intro hin
    apply readEnds_shownPlace_arrow hat hin hends
    rw [hsrc]
    rfl
  obtain ⟨m'', hends''⟩ := readEnds_known x hat harrow
  rw [hends] at hends''
  by_cases hread : Readable x.src ∧ Readable x.dst
  · rw [if_pos hread] at hends''
    obtain ⟨-, hsrc', hdst'⟩ : m' = m'' ∧ src = textSymbol x.src ∧ dst = textTo x := by
      simpa using hends''
    have hfromSym : textSymbol x.src = x.src.symbol := hsrc'.symm.trans hsrc
    exact ⟨hknown, harrow, hread.1, hread.2, hfit, hfromSym,
      (textTo_eq_iff hfromSym).mp (hdst'.symm.trans hdst)⟩
  · rw [if_neg hread] at hends''
    cases hends''

lemma lost_agrees_iff {l : LostData} : FormatsAgree action fresh (.lost l) ↔ l.time ≠ 0 := by
  have hline : createActionFromString action 0 (fprintfAuxtraceError l.event) =
      (createErrorFromString { action with isError := false, fromTarget := false, toTarget := false }
        (fprintfAuxtraceError l.event)).map fun a => (some a, 0) := by
    rw [createActionFromString, if_pos (line_trace_error l), if_neg (find_lost l)]
    generalize fprintfAuxtraceError l.event = line
    cases createErrorFromString { action with isError := false, fromTarget := false, toTarget := false }
      line <;> rfl
  constructor
  · rintro ⟨a, symbols, -, -, -, -, htext, -⟩ ht
    change createActionFromString action 0 (fprintfAuxtraceError l.event) = _ at htext
    rw [hline] at htext
    obtain ⟨a', hcreate, -⟩ := Runs.map_eq_ok.mp htext
    exact createErrorFromString_timeless l _ ht a' hcreate
  · intro ht
    obtain ⟨f, out, table, d, hfile, hread, hds, htype, herror, htid, hts⟩ := compact_lost fresh l
    rw [createErrorFromString_lost l _ ht] at hline
    refine ⟨_, 0, f, out, table, d, hline, hfile, hread, hds, htype.symm, herror.symm, htid.symm,
      hts.symm, ?_, ?_, ?_⟩
    all_goals exact fun h => absurd h (by decide : ptActionTypeError ≠ ptActionTypeBranch)

end Agree

theorem formats_agree_iff (action : Action) (fresh : ℕ → Action) (ev : ScriptEvent) :
    FormatsAgree action fresh ev ↔ ev.Unambiguous := by
  cases ev with
  | branch x => exact ⟨unambiguous_of_branch, branch_agrees⟩
  | lost l => exact lost_agrees_iff

namespace Sample

def transaction : DecoderState where
  abortTx := false
  async := false
  inTx := true
  traceBegin := false
  traceEnd := false
  iflagChg := false
  fromIflag := true
  toIflag := true
  fromNr := false
  toNr := false
  fromIp := 0x401100
  toIp := 0x401200
  insnOp := .call

def transactionCall : BranchEvent where
  tid := 300
  cpu := 1
  time := 12000000345
  flags := intelPtSampleFlags false transaction
  src := Compact.Sample.place 0x401100 (lit "main")
  dst := Compact.Sample.place 0x401200 (lit "f")

end Sample

open Sample in
theorem transaction_call_unreadable :
    transactionCall.flags = IpFlag.branch ||| IpFlag.call ||| IpFlag.inTx ∧
      ¬ FormatsAgree default (fun _ => default) (.branch transactionCall) := by
  refine ⟨by decide, ?_⟩
  rintro ⟨a, symbols, -, -, -, -, htext, -⟩
  have herror : createActionFromString default 0 (fprintfSample transactionCall) =
      .error .invalidArgument := by decide +kernel
  change createActionFromString default 0 (fprintfSample transactionCall) = _ at htext
  rw [herror] at htext
  cases htext

end PtPerf.Script
