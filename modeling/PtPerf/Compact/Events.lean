import PtPerf.Compact.Symbols

/-! What `perf script` prints in the compact format, branch samples and trace errors in any order, and
what is read back of it. Where the low words of the addresses tell the symbols apart, every branch comes
back with its own symbols. -/

namespace PtPerf.Compact

open PtPerf.Support PtPerf.Trace

inductive Event
  | sample (x : BranchSample)
  | error (r : ErrorRecord)

namespace Event

def places : Event → List Place
  | sample x => [x.src, x.dst]
  | error _ => []

/-- An error is reported by its code; only code 8, lost data, is kept by the reader. -/
def relevant : Event → Bool
  | sample _ => true
  | error r => r.code == 8

def tid : Event → Int32
  | sample x => x.tid.toInt32
  | error r => r.tid.toInt32

def time : Event → UInt64
  | sample x => x.time
  | error r => r.ts

def isError : Event → Bool
  | sample _ => false
  | error _ => true

end Event

/-- `process_event` and `perf_event__fprintf_auxtrace_error` with the compact format. -/
def printEvent (s : SymbolWriter) (e : Event) (_ : List Event) :
    Except WriteFault (SymbolWriter × List Record) :=
  match e with
  | .sample x => s.fprintCompact x []
  | .error r => .ok (s, [.error r])

def printEvents (events : List Event) : Except WriteFault (SymbolWriter × File) :=
  Runs.loop (Runs.feeding printEvent fwriteRecord) (.init, .empty) events

/-- The low words of the addresses tell the symbols apart, and the offsets fit. -/
structure Resolvable (known : Place → Prop) : Prop where
  offset : ∀ pl, known pl → pl.offset.toNat < 2 ^ 32
  symbol : ∀ pl pl', known pl → known pl' → pl.lookupAddr.toUInt32 = pl'.lookupAddr.toUInt32 →
    pl.symbol = pl'.symbol

def Mentioned (events : List Event) (pl : Place) : Prop := ∃ e ∈ events, pl ∈ e.places

section Cache

variable {known : Place → Prop} {s : SymbolWriter} {table : SymbolVec} {pl : Place}

/-- Every cached id leads to a symbol with the key of the entry. -/
structure Cached (known : Place → Prop) (s : SymbolWriter) (table : SymbolVec) : Prop
    extends Known s table where
  entries : ∀ e ∈ s.cache.entries,
    ∃ pl, known pl ∧ e.key = pl.lookupAddr.toUInt32 ∧ table[e.symId.toNat]? = some pl.symbol

lemma cached_init : Cached known .init [] :=
  ⟨⟨rfl, fun _ he => absurd he List.not_mem_nil⟩, fun _ he => absurd he List.not_mem_nil⟩

lemma Cached.hitRight (hc : Cached known s table) (hres : Resolvable known) (hpl : known pl) :
    HitRight s table pl := by
  refine ⟨hres.offset pl hpl, fun e he => ?_⟩
  obtain ⟨pl', hpl', hkey, hsym⟩ := hc.entries e (List.mem_of_find?_eq_some he)
  have hfound : e.key = pl.lookupAddr.toUInt32 := by simpa using List.find?_some he
  rw [hsym, hres.symbol pl pl' hpl hpl' (hfound.symm.trans hkey)]

/-- A lookup adds no entry but the one it returns. -/
lemma mem_entries_lookup {e : OutputSymbol}
    (he : e ∈ (s.perfSampleGetOutputSymbol pl).state.cache.entries) :
    e ∈ s.cache.entries ∨
      e = (s.perfSampleGetOutputSymbol pl).entry ∧ e.key = pl.lookupAddr.toUInt32 := by
  unfold SymbolWriter.perfSampleGetOutputSymbol SymbolWriter.outputSymbolsLookupAndAdd at he ⊢
  split at he
  · exact Or.inl he
  · unfold SymbolCache.add at he
    split at he
    · exact Or.inr ⟨List.mem_singleton.mp he, by rw [List.mem_singleton.mp he]; rfl⟩
    · rcases List.mem_cons.mp he with rfl | he
      · exact Or.inr ⟨rfl, rfl⟩
      · exact Or.inl he

lemma Cached.lookup (hc : Cached known s table) (hres : Resolvable known) (hsize : table.length < 2 ^ 32)
    (hpl : known pl) : Cached known (s.perfSampleGetOutputSymbol pl).state
      (symbolsAfter table (s.perfSampleGetOutputSymbol pl).records) := by
  obtain ⟨-, hknown, -, hiff⟩ := hc.toKnown.lookup hsize pl
  refine ⟨hknown, fun e he => ?_⟩
  rcases mem_entries_lookup he with he | ⟨rfl, hkey⟩
  · obtain ⟨pl', hpl', hkey, hsym⟩ := hc.entries e he
    refine ⟨pl', hpl', hkey, ?_⟩
    rw [getElem?_of_extends (symbols_extend _ _) (hc.ids e he), hsym]
  · exact ⟨pl, hpl, hkey, (hiff.mpr (hc.hitRight hres hpl)).2⟩

end Cache

section Printing

variable {known : Place → Prop} {s s' : SymbolWriter} {table : SymbolVec}

def Record.plain : Record → Bool
  | .symbol _ => false
  | _ => true

/-- The record says what the event says. -/
def Carries (table : SymbolVec) : Event → Record → Prop
  | .sample x, .branch r => SameHead x r ∧ Linked table x r
  | .error r, .error r' => r' = r
  | _, _ => False

lemma filter_plain_lookup (s : SymbolWriter) (pl : Place) :
    (s.perfSampleGetOutputSymbol pl).records.filter Record.plain = [] := by
  unfold SymbolWriter.perfSampleGetOutputSymbol SymbolWriter.outputSymbolsLookupAndAdd
  split <;> rfl

lemma filter_plain_writeSample (s : SymbolWriter) (x : BranchSample) :
    (s.writeSample x).2.filter Record.plain = (branches (s.writeSample x).2).map Record.branch := by
  simp only [SymbolWriter.writeSample, List.filter_append, filter_plain_lookup, branches_append,
    lookup_records_branches, List.nil_append]
  rfl

/-- One sample: its records, the cache after it and the ids in its branch. -/
lemma Cached.sample (hc : Cached known s table) (hres : Resolvable known) {x : BranchSample} (hsrc : known x.src)
    (hdst : known x.dst) (hsize : (symbolsAfter table (s.writeSample x).2).length < 2 ^ 32) :
    Admissible table (s.writeSample x).2 ∧
      Cached known (s.writeSample x).1 (symbolsAfter table (s.writeSample x).2) ∧
      ∀ final, symbolsAfter table (s.writeSample x).2 <+: final →
        List.Forall₂ (Carries final) [.sample x] ((s.writeSample x).2.filter Record.plain) := by
  obtain ⟨hadm, -, r, hbranch, hhead, hlink⟩ := sample_step hc.toKnown x hsize
  have htable : symbolsAfter table (s.writeSample x).2 =
      symbolsAfter (symbolsAfter table (s.perfSampleGetOutputSymbol x.src).records)
        ((s.perfSampleGetOutputSymbol x.src).state.perfSampleGetOutputSymbol x.dst).records := by
    simp only [SymbolWriter.writeSample, symbolsAfter_append]
    rfl
  rw [htable] at hsize
  have hlen : (symbolsAfter table (s.perfSampleGetOutputSymbol x.src).records).length < 2 ^ 32 :=
    (symbols_extend _ _).length_le.trans_lt hsize
  have hc₁ := hc.lookup hres ((symbols_extend table _).length_le.trans_lt hlen) hsrc
  have hc₂ := hc₁.lookup hres hlen hdst
  refine ⟨hadm, ?_, fun final hfinal => ?_⟩
  · rw [htable]
    exact hc₂
  · rw [filter_plain_writeSample, hbranch]
    exact .cons ⟨hhead, (hlink final hfinal).mpr ⟨hc.hitRight hres hsrc, hc₁.hitRight hres hdst⟩⟩ .nil

lemma events_run (hres : Resolvable known) {events : List Event} {records : List Record}
    (hknown : ∀ pl, Mentioned events pl → known pl) (hc : Cached known s table)
    (hrun : Runs.run printEvent s events = .ok (s', records))
    (hsize : (symbolsAfter table records).length < 2 ^ 32) :
    Admissible table records ∧ ∀ final, symbolsAfter table records <+: final →
      List.Forall₂ (Carries final) events (records.filter Record.plain) := by
  induction events generalizing s table records with
  | nil =>
    cases hrun
    exact ⟨trivial, fun _ _ => .nil⟩
  | cons e events ih =>
    obtain ⟨s₁, head, tail, hstep, htail, rfl⟩ := Runs.run_cons_inv hrun
    rw [symbolsAfter_append] at hsize
    have hext := symbols_extend (symbolsAfter table head) tail
    have hlater : ∀ pl, Mentioned events pl → known pl := by
      rintro pl ⟨e', he', hpl⟩
      exact hknown pl ⟨e', List.mem_cons_of_mem e he', hpl⟩
    obtain ⟨hadm, hc₁, hcarry⟩ : Admissible table head ∧ Cached known s₁ (symbolsAfter table head) ∧
        ∀ final, symbolsAfter table head <+: final →
          List.Forall₂ (Carries final) [e] (head.filter Record.plain) := by
      cases e with
      | sample x =>
        have hsample : s.writeSample x = (s₁, head) :=
          SymbolWriter.fprintCompact_eq_ok (show s.fprintCompact x [] = .ok (s₁, head) from hstep)
        have hsrc : known x.src := hknown _ ⟨.sample x, List.mem_cons_self, List.mem_cons_self⟩
        have hdst : known x.dst :=
          hknown _ ⟨.sample x, List.mem_cons_self, List.mem_cons_of_mem _ List.mem_cons_self⟩
        have hwritten := hc.sample hres hsrc hdst
        rw [hsample] at hwritten
        exact hwritten (hext.length_le.trans_lt hsize)
      | error r =>
        cases hstep
        exact ⟨⟨trivial, trivial⟩, hc, fun _ _ => .cons rfl .nil⟩
    obtain ⟨hadm', hcarry'⟩ := ih hlater hc₁ htail hsize
    refine ⟨admissible_append.mpr ⟨hadm, hadm'⟩, fun final hfinal => ?_⟩
    rw [symbolsAfter_append] at hfinal
    rw [List.filter_append]
    exact List.rel_append (hcarry final (hext.trans hfinal)) (hcarry' final hfinal)

end Printing

section Types

variable {symbols symbols' : SymbolVec} {action : Action} {ptr : List UInt8} {r : BranchRecord}
  {out : List Delivery}

lemma createActionFromBinary_type {rd : Reading} (h : createActionFromBinary symbols action ptr = .ok rd)
    (hr : rd.record = some (.branch r)) : rd.action.type = .ofCode r.flag := by
  rw [createActionFromBinary] at h
  obtain ⟨ptType, -, h⟩ := Runs.bind_eq_ok.mp h
  dsimp only at h
  split at h
  · cases h
    cases hr
  split at h
  · obtain ⟨b, -, h⟩ := Runs.bind_eq_ok.mp h
    obtain ⟨src, -, h⟩ := Runs.bind_eq_ok.mp h
    obtain ⟨dst, -, h⟩ := Runs.bind_eq_ok.mp h
    cases h
    cases hr
    rfl
  split at h
  · obtain ⟨b, -, h⟩ := Runs.bind_eq_ok.mp h
    obtain ⟨symbols', -, h⟩ := Runs.bind_eq_ok.mp h
    cases h
    cases hr
  split at h
  · obtain ⟨b, -, h⟩ := Runs.bind_eq_ok.mp h
    cases h
    cases hr
  · cases h
    cases hr

lemma readBlock_type {fuel : ℕ} (h : readBlock fuel symbols action ptr = .ok (out, symbols')) :
    ∀ d ∈ out, ∀ r, d.record = some (.branch r) → d.action.type = .ofCode r.flag := by
  induction fuel generalizing symbols action ptr out with
  | zero =>
    cases h
    exact fun d hd => absurd hd List.not_mem_nil
  | succ fuel ih =>
    rw [readBlock] at h
    split at h
    · cases h
      exact fun d hd => absurd hd List.not_mem_nil
    · obtain ⟨rd, hrd, h⟩ := Runs.bind_eq_ok.mp h
      split at h
      · cases h
        intro d hd r hr
        rw [List.mem_singleton.mp hd] at hr ⊢
        exact createActionFromBinary_type hrd hr
      · obtain ⟨⟨out', symbols''⟩, hrest, h⟩ := Runs.bind_eq_ok.mp h
        cases h
        intro d hd r hr
        rcases List.mem_cons.mp hd with rfl | hd
        · exact createActionFromBinary_type hrd hr
        · exact ih hrest d hd r hr

lemma readBlocks_type {fresh : ℕ → Action} {fuel : ℕ} {content : List UInt8}
    (h : readBlocks fresh fuel symbols content = .ok (out, symbols')) :
    ∀ d ∈ out, ∀ r, d.record = some (.branch r) → d.action.type = .ofCode r.flag := by
  induction fuel generalizing symbols content out with
  | zero =>
    cases h
    exact fun d hd => absurd hd List.not_mem_nil
  | succ fuel ih =>
    rw [readBlocks] at h
    obtain ⟨⟨out₁, symbols₁⟩, hblock, h⟩ := Runs.bind_eq_ok.mp h
    dsimp only at h
    split at h
    · cases h
      exact readBlock_type hblock
    · obtain ⟨⟨out₂, symbols₂⟩, hrest, h⟩ := Runs.bind_eq_ok.mp h
      cases h
      intro d hd
      rcases List.mem_append.mp hd with hd | hd
      · exact readBlock_type hblock d hd
      · exact ih hrest d hd

end Types

/-- What the reader hands to `init_func` for an event. Of a trace error it sets the thread and the time. -/
def Event.Read : Event → Action → Prop
  | .sample x, a => a.ptType = ptActionTypeBranch ∧ a.isError = false ∧ a.tid = x.tid.toInt32 ∧
      a.ts = x.time ∧ a.type = .ofCode x.flag ∧ a.fromSym = x.src.symbol ∧ a.toSym = x.dst.symbol
  | .error r, a => a.ptType = ptActionTypeError ∧ a.isError = true ∧ a.tid = r.tid.toInt32 ∧ a.ts = r.ts

section Reading

variable {table : SymbolVec} {records : List Record} {out : List Delivery} {events : List Event}

lemma carries_relevant {e : Event} {r : Record} (h : Carries table e r) : e.relevant = r.relevant := by
  cases e <;> cases r <;> first | exact h.elim | rfl | (cases h; rfl)

lemma read_of_carries {e : Event} {r : Record} {d : Delivery} (hc : Carries table e r) (hrel : r.relevant = true)
    (hd : Delivers table r d) (htype : ∀ b, d.record = some (.branch b) → d.action.type = .ofCode b.flag) :
    e.Read d.action := by
  cases e with
  | sample x =>
    cases r with
    | branch b =>
      obtain ⟨⟨htid, hts, hflag⟩, ⟨-, hsrc⟩, -, hdst⟩ := hc
      obtain ⟨hrec, hpt, herr, htid', hts', -, hsrc', hdst'⟩ := hd
      refine ⟨hpt, herr, htid'.trans (by rw [htid]), hts'.trans hts, ?_, ?_, ?_⟩
      · rw [htype b hrec, hflag]
      · exact Option.some.inj (hsrc'.symm.trans hsrc)
      · exact Option.some.inj (hdst'.symm.trans hdst)
    | symbol b => exact hc.elim
    | error b => exact hc.elim
  | error r₀ =>
    cases r with
    | branch b => exact hc.elim
    | symbol b => exact hc.elim
    | error b =>
      cases hc
      obtain ⟨-, htid, hts, herr, hpt⟩ := hd
      have hcode : r₀.code = 8 := by simpa [Record.relevant] using hrel
      exact ⟨hpt.trans (if_pos hcode), herr.trans (by simp [hcode]), htid, hts⟩

/-- The events of a file that has been written come back in order. -/
lemma read_printed {s : SymbolWriter} {f : File} (hprint : printEvents events = .ok (s, f))
    (hlen : f.content.length < 2 ^ 32) (hres : Resolvable (Mentioned events)) (fresh : ℕ → Action) :
    ∃ out table, readActionsFromCompactFile fresh [] f.content = .ok (out, table) ∧
      List.Forall₂ (fun e d => e.Read d.action) (events.filter Event.relevant) (out.filter Delivery.looked) := by
  obtain ⟨records, hrun, hrecords⟩ := Runs.run_of_loop hprint
  have hfit := fits_of_fwriteRecords hrecords
  obtain ⟨f', hrecords', -, hlayout⟩ := fwriteRecords_run [] records hfit
    (show File.empty.pos ≤ File.empty.content.length from le_rfl)
  obtain rfl : f = f' := Except.ok.inj (hrecords.symm.trans hrecords')
  have hl : Layout f records := hlayout hlen rfl layout_empty
  have hsize : (symbolsAfter [] records).length < 2 ^ 32 := by
    have hle := length_symbolsAfter_le [] records
    have hrecords := hl.length_le
    rw [List.length_nil, Nat.zero_add] at hle
    omega
  obtain ⟨hids, hcarry⟩ := events_run hres (fun _ hpl => hpl) cached_init hrun hsize
  obtain ⟨out, hread, hfaith⟩ := hl.read fresh hfit hids
  refine ⟨out, _, hread, ?_⟩
  have hplain : (records.filter Record.plain).filter Record.relevant = records.filter Record.relevant := by
    rw [List.filter_filter]
    apply List.filter_congr
    intro r _
    cases r <;> simp [Record.plain, Record.relevant]
  have hevents := forall₂_filter (hcarry _ List.prefix_rfl) fun _ _ => carries_relevant
  rw [hplain] at hevents
  apply forall₂_trans hevents hfaith.relevant
  intro e r hr d hd hc hdelivers
  exact read_of_carries hc (List.mem_filter.mp hr).2 hdelivers
    (readBlocks_type hread d (List.mem_filter.mp hd).1)

end Reading

end PtPerf.Compact
