import PtPerf.Support.Lists
import PtPerf.Support.Runs
import PtPerf.Compact.RoundTrip

/-! `perf_sample__fprint_compact` and the cache of output symbols. The cache is a hash table
whose buckets hold their newest entry first; entries of one key share a bucket, so it is kept as
one list. Its keys are 32 bits wide, the addresses looked up in it are 64 bits wide. -/

namespace PtPerf.Compact

open PtPerf.Support PtPerf.Trace

structure SymbolInfo where
  start : UInt64
  stop : UInt64
  name : Str

/-- One end of a branch: the sampled address and what `addr_location` resolved it to. -/
structure Place where
  address : UInt64
  alAddr : UInt64
  mapStart : UInt64
  sym : Option SymbolInfo

def unknownSymbol : Str := lit "[unknown]"

namespace Place

def lookupAddr (pl : Place) : UInt64 :=
  match pl.sym with
  | some _ => pl.address
  | none => 0

def offset (pl : Place) : UInt64 :=
  match pl.sym with
  | some sym =>
    if pl.alAddr < sym.stop then pl.alAddr - sym.start else pl.alAddr - pl.mapStart - sym.start
  | none => 0

def name (pl : Place) : Str :=
  match pl.sym with
  | some sym => sym.name
  | none => unknownSymbol

/-- The symbol as `output_symbols_lookup_and_add` is given it. -/
def symbol (pl : Place) : Symbol := ⟨pl.name, pl.lookupAddr, pl.offset.toUInt32⟩

end Place

/-- A branch sample with its flags already translated. -/
structure BranchSample where
  tid : UInt32
  time : UInt64
  flag : UInt8
  src : Place
  dst : Place

structure OutputSymbol where
  key : UInt32
  symId : UInt32
  addr : UInt64
  offs : UInt32

structure SymbolCache where
  entries : List OutputSymbol
  cnt : ℕ

namespace SymbolCache

/-- `auxtrace_cache__new(12, .., 10000)`. -/
def limit : ℕ := 2 ^ 12 * 10000 / 100

def lookup (c : SymbolCache) (key : UInt32) : Option OutputSymbol := c.entries.find? (·.key == key)

/-- The cache after `auxtrace_cache__add`, and whether all older entries were freed. -/
def add (c : SymbolCache) (e : OutputSymbol) : SymbolCache × Bool :=
  if c.cnt + 1 > limit then (⟨[e], 0⟩, true) else (⟨e :: c.entries, c.cnt + 1⟩, false)

end SymbolCache

structure SymbolWriter where
  cache : SymbolCache
  globalSymId : ℕ

structure Lookup where
  state : SymbolWriter
  entry : OutputSymbol
  records : List Record
  dropped : Bool

namespace SymbolWriter

def init : SymbolWriter := ⟨⟨[], 0⟩, 0⟩

def outputSymbolsLookupAndAdd (s : SymbolWriter) (addr : UInt64) (offs : UInt32) (name : Str) :
    Lookup :=
  match s.cache.lookup addr.toUInt32 with
  | some e => ⟨s, e, [], false⟩
  | none =>
    let e : OutputSymbol := ⟨addr.toUInt32, UInt32.ofNat s.globalSymId, addr, offs⟩
    let added := s.cache.add e
    ⟨⟨added.1, s.globalSymId + 1⟩, e, [.symbol ⟨e.symId, addr, offs, name⟩], added.2⟩

def perfSampleGetOutputSymbol (s : SymbolWriter) (pl : Place) : Lookup :=
  s.outputSymbolsLookupAndAdd pl.symbol.addr pl.symbol.offset pl.symbol.name

/-- The entry of `from` is read after the lookup of `to`, which may have freed it. -/
def fprintCompact (s : SymbolWriter) (x : BranchSample) (_ : List BranchSample) :
    Except WriteFault (SymbolWriter × List Record) :=
  let src := s.perfSampleGetOutputSymbol x.src
  let dst := src.state.perfSampleGetOutputSymbol x.dst
  if dst.dropped then .error .useAfterFree
  else .ok (dst.state, src.records ++ (dst.records ++
    [.branch ⟨x.tid, x.time, x.flag, src.entry.symId, dst.entry.symId⟩]))

/-- The same with the ids that the entries had when they were returned. -/
def writeSample (s : SymbolWriter) (x : BranchSample) : SymbolWriter × List Record :=
  let src := s.perfSampleGetOutputSymbol x.src
  let dst := src.state.perfSampleGetOutputSymbol x.dst
  (dst.state, src.records ++ (dst.records ++
    [.branch ⟨x.tid, x.time, x.flag, src.entry.symId, dst.entry.symId⟩]))

lemma fprintCompact_eq_ok {s s' : SymbolWriter} {x : BranchSample} {rest : List BranchSample}
    {records : List Record} (h : s.fprintCompact x rest = .ok (s', records)) :
    s.writeSample x = (s', records) := by
  simp only [fprintCompact] at h
  split at h
  · cases h
  · exact Except.ok.inj h

end SymbolWriter

def writeSamples (samples : List BranchSample) : Except WriteFault (SymbolWriter × File) :=
  Runs.loop (Runs.feeding SymbolWriter.fprintCompact fwriteRecord) (.init, .empty) samples

def Shows (sym : Symbol) (pl : Place) : Prop :=
  sym.addr = pl.lookupAddr ∧ sym.offset.toNat = pl.offset.toNat ∧ sym.name = pl.name

/-- The branches delivered by the reader are the samples, with their own symbols. -/
def SymbolFidelity (samples : List BranchSample) (out : List Delivery) : Prop :=
  List.Forall₂ (fun x d => d.action.tid = x.tid.toInt32 ∧ d.action.ts = x.time ∧
      d.action.type.code = x.flag ∧ Shows d.action.fromSym x.src ∧ Shows d.action.toSym x.dst)
    samples (out.filter fun d => d.action.ptType == ptActionTypeBranch)

/-- An entry found for the low word of the address stands for this very symbol, whose offset
fits the entry. -/
def HitRight (s : SymbolWriter) (table : SymbolVec) (pl : Place) : Prop :=
  pl.offset.toNat < 2 ^ 32 ∧
    ∀ e ∈ s.cache.lookup pl.lookupAddr.toUInt32, table[e.symId.toNat]? = some pl.symbol

instance (s : SymbolWriter) (table : SymbolVec) (pl : Place) : Decidable (HitRight s table pl) :=
  inferInstanceAs (Decidable (_ ∧ ∀ e ∈ s.cache.lookup pl.lookupAddr.toUInt32,
    table[e.symId.toNat]? = some pl.symbol))

/-- Every lookup of a run is right, given the symbols written before it. -/
def HitsRight : SymbolWriter → SymbolVec → List BranchSample → Prop
  | _, _, [] => True
  | s, table, x :: samples =>
    let src := s.perfSampleGetOutputSymbol x.src
    let table₁ := symbolsAfter table src.records
    let dst := src.state.perfSampleGetOutputSymbol x.dst
    let table₂ := symbolsAfter table₁ dst.records
    HitRight s table x.src ∧ HitRight src.state table₁ x.dst ∧ HitsRight dst.state table₂ samples

section Lookup

/-- Every cached id belongs to a symbol that has been written. -/
structure Known (s : SymbolWriter) (table : SymbolVec) : Prop where
  next : s.globalSymId = table.length
  ids : ∀ e ∈ s.cache.entries, e.symId.toNat < table.length

variable {s : SymbolWriter} {table : SymbolVec}

lemma Known.lookup (hk : Known s table) (hsize : table.length < 2 ^ 32) (pl : Place) :
    let l := s.perfSampleGetOutputSymbol pl
    Admissible table l.records ∧ Known l.state (symbolsAfter table l.records) ∧
      l.entry.symId.toNat < (symbolsAfter table l.records).length ∧
      ((pl.offset.toNat < 2 ^ 32 ∧
        (symbolsAfter table l.records)[l.entry.symId.toNat]? = some pl.symbol) ↔
          HitRight s table pl) := by
  intro l
  cases hc : s.cache.lookup pl.lookupAddr.toUInt32 with
  | some e =>
    have hl : l = ⟨s, e, [], false⟩ := by
      simp only [l, SymbolWriter.perfSampleGetOutputSymbol,
        SymbolWriter.outputSymbolsLookupAndAdd, Place.symbol, hc]
    have hmem : e ∈ s.cache.entries := List.mem_of_find?_eq_some hc
    rw [hl]
    refine ⟨trivial, hk, hk.ids e hmem, ?_⟩
    simp [HitRight, hc, symbolsAfter]
  | none =>
    have hid : (UInt32.ofNat s.globalSymId).toNat = table.length := by
      rw [hk.next]
      exact UInt32.toNat_ofNat_of_lt' hsize
    have hl : l = ⟨⟨(s.cache.add ⟨pl.lookupAddr.toUInt32, UInt32.ofNat s.globalSymId,
        pl.lookupAddr, pl.offset.toUInt32⟩).1, s.globalSymId + 1⟩,
        ⟨pl.lookupAddr.toUInt32, UInt32.ofNat s.globalSymId, pl.lookupAddr, pl.offset.toUInt32⟩,
        [.symbol ⟨UInt32.ofNat s.globalSymId, pl.lookupAddr, pl.offset.toUInt32, pl.name⟩],
        (s.cache.add ⟨pl.lookupAddr.toUInt32, UInt32.ofNat s.globalSymId,
        pl.lookupAddr, pl.offset.toUInt32⟩).2⟩ := by
      simp only [l, SymbolWriter.perfSampleGetOutputSymbol,
        SymbolWriter.outputSymbolsLookupAndAdd, Place.symbol, hc]
    have htable : symbolsAfter table l.records = table ++ [pl.symbol] := by
      rw [hl]
      rfl
    rw [htable, hl]
    refine ⟨⟨hid, trivial⟩, ⟨by simp [hk.next], ?_⟩, by simp [hid], ?_⟩
    · intro e he
      have hcases : e ∈ s.cache.entries ∨ e.symId = UInt32.ofNat s.globalSymId := by
        unfold SymbolCache.add at he
        split at he
        · right
          rw [List.mem_singleton.mp he]
        · rcases List.mem_cons.mp he with rfl | he
          · exact Or.inr rfl
          · exact Or.inl he
      rw [List.length_append, List.length_singleton]
      rcases hcases with he | he
      · exact (hk.ids e he).trans (Nat.lt_succ_self _)
      · rw [he, hid]
        exact Nat.lt_succ_self _
    · simp [HitRight, hc, hid]

end Lookup

section Runs

def Record.branch? : Record → Option BranchRecord
  | .branch r => some r
  | _ => none

def branches (records : List Record) : List BranchRecord := records.filterMap Record.branch?

/-- The ids of the branch lead to the sample's symbols. -/
def Linked (table : SymbolVec) (x : BranchSample) (r : BranchRecord) : Prop :=
  (x.src.offset.toNat < 2 ^ 32 ∧ table[r.fromId.toNat]? = some x.src.symbol) ∧
    (x.dst.offset.toNat < 2 ^ 32 ∧ table[r.toId.toNat]? = some x.dst.symbol)

def SameHead (x : BranchSample) (r : BranchRecord) : Prop :=
  r.tid = x.tid ∧ r.ts = x.time ∧ r.flag = x.flag

lemma lookup_records_branches (s : SymbolWriter) (pl : Place) :
    branches (s.perfSampleGetOutputSymbol pl).records = [] := by
  unfold SymbolWriter.perfSampleGetOutputSymbol SymbolWriter.outputSymbolsLookupAndAdd
  split <;> rfl

variable {s s' : SymbolWriter} {table : SymbolVec}

lemma sample_step (hk : Known s table) (x : BranchSample)
    (hsize : (symbolsAfter table (s.writeSample x).2).length < 2 ^ 32) :
    Admissible table (s.writeSample x).2 ∧
      Known (s.writeSample x).1 (symbolsAfter table (s.writeSample x).2) ∧
      ∃ r, branches (s.writeSample x).2 = [r] ∧ SameHead x r ∧
        ∀ final, symbolsAfter table (s.writeSample x).2 <+: final →
          (Linked final x r ↔ HitRight s table x.src ∧
            HitRight (s.perfSampleGetOutputSymbol x.src).state
              (symbolsAfter table (s.perfSampleGetOutputSymbol x.src).records) x.dst) := by
  rw [SymbolWriter.writeSample] at hsize ⊢
  simp only [symbolsAfter_append, admissible_append] at hsize ⊢
  set src := s.perfSampleGetOutputSymbol x.src with hsrc
  set dst := src.state.perfSampleGetOutputSymbol x.dst with hdst
  set table₁ := symbolsAfter table src.records with htable₁
  set table₂ := symbolsAfter table₁ dst.records with htable₂
  have hp₁ : table <+: table₁ := symbols_extend table src.records
  have hp₂ : table₁ <+: table₂ := symbols_extend table₁ dst.records
  have hsize₂ : table₂.length < 2 ^ 32 := hsize
  obtain ⟨ha₁, hk₁, hid₁, hiff₁⟩ :=
    hk.lookup (((hp₁.trans hp₂).length_le).trans_lt hsize₂) x.src
  obtain ⟨ha₂, hk₂, hid₂, hiff₂⟩ := hk₁.lookup (hp₂.length_le.trans_lt hsize₂) x.dst
  refine ⟨⟨ha₁, ha₂, ⟨hid₁.trans_le hp₂.length_le, hid₂⟩, trivial⟩, hk₂,
    ⟨x.tid, x.time, x.flag, src.entry.symId, dst.entry.symId⟩, ?_, ⟨rfl, rfl, rfl⟩, ?_⟩
  · have h₁ := lookup_records_branches s x.src
    have h₂ := lookup_records_branches src.state x.dst
    simp only [branches] at h₁ h₂
    simp only [branches, List.filterMap_append, src, dst, h₁, h₂]
    rfl
  · intro final hfinal
    have hfinal₂ : table₂ <+: final := hfinal
    rw [Linked, getElem?_of_extends (hp₂.trans hfinal₂) hid₁, getElem?_of_extends hfinal₂ hid₂,
      hiff₁, hiff₂]

lemma branches_append (records more : List Record) :
    branches (records ++ more) = branches records ++ branches more := List.filterMap_append

lemma samples_run (samples : List BranchSample) {records : List Record} (hk : Known s table)
    (hrun : Runs.run SymbolWriter.fprintCompact s samples = .ok (s', records))
    (hsize : (symbolsAfter table records).length < 2 ^ 32) :
    Admissible table records ∧ List.Forall₂ SameHead samples (branches records) ∧
      ∀ final, symbolsAfter table records <+: final →
        (List.Forall₂ (Linked final) samples (branches records) ↔ HitsRight s table samples) := by
  induction samples generalizing s table records with
  | nil =>
    cases hrun
    exact ⟨trivial, List.Forall₂.nil, fun final _ => by simp [branches, HitsRight]⟩
  | cons x samples ih =>
    obtain ⟨s₁, head, tail, hstep, htail, rfl⟩ := Runs.run_cons_inv hrun
    rw [symbolsAfter_append] at hsize
    have hext := symbols_extend (symbolsAfter table head) tail
    have hsample := SymbolWriter.fprintCompact_eq_ok hstep
    have hnext : s₁ = ((s.perfSampleGetOutputSymbol x.src).state.perfSampleGetOutputSymbol
        x.dst).state ∧ symbolsAfter table head = symbolsAfter (symbolsAfter table
          (s.perfSampleGetOutputSymbol x.src).records)
          ((s.perfSampleGetOutputSymbol x.src).state.perfSampleGetOutputSymbol x.dst).records := by
      rw [SymbolWriter.writeSample, Prod.mk.injEq] at hsample
      obtain ⟨rfl, rfl⟩ := hsample
      exact ⟨rfl, by rw [symbolsAfter_append, symbolsAfter_append]; rfl⟩
    have hwritten := sample_step hk x
    rw [hsample] at hwritten
    obtain ⟨ha, hk₁, r, hr, hsame, hlink⟩ := hwritten (hext.length_le.trans_lt hsize)
    obtain ⟨ha₁, hsames, hlinks⟩ := ih hk₁ htail hsize
    rw [branches_append, hr, List.singleton_append]
    refine ⟨admissible_append.mpr ⟨ha, ha₁⟩, List.Forall₂.cons hsame hsames, ?_⟩
    intro final hfinal
    rw [symbolsAfter_append] at hfinal
    rw [List.forall₂_cons, hlink final (hext.trans hfinal), hlinks final hfinal, HitsRight,
      and_assoc]
    rw [hnext.1, hnext.2]

end Runs

section Files

variable {records : List Record}

lemma length_symbolsAfter_le (symbols : SymbolVec) (records : List Record) :
    (symbolsAfter symbols records).length ≤ symbols.length + records.length := by
  induction records generalizing symbols with
  | nil => exact le_rfl
  | cons r records ih =>
    have hr : (r.symbolsAfter symbols).length ≤ symbols.length + 1 := by
      cases r <;> simp [Record.symbolsAfter]
    have hrest := ih (r.symbolsAfter symbols)
    rw [List.length_cons]
    exact hrest.trans (by omega)

lemma Record.two_le_length (r : Record) : 2 ≤ r.bytes.length := by
  cases r <;>
    simp only [Record.bytes, BranchRecord.bytes, SymbolRecord.bytes, ErrorRecord.bytes, write1bytes,
      List.length_append, List.length_cons, List.length_nil, write8bytes, write4bytes] <;> omega

lemma length_le_bytes (records : List Record) :
    2 * records.length ≤ (records.flatMap Record.bytes).length := by
  induction records with
  | nil => exact le_rfl
  | cons r records ih =>
    have hr := r.two_le_length
    rw [List.length_cons, List.flatMap_cons, List.length_append]
    omega

lemma Layout.length_le {f : File} (hl : Layout f records) :
    2 * records.length ≤ f.content.length :=
  (length_le_bytes records).trans hl.bytes_le

lemma length_writeCompressed_le (n : UInt64) : (writeCompressed n).length ≤ 5 := by
  rw [length_writeCompressed, getCompressedSize]
  repeat' split
  all_goals decide

lemma branch_length_lt (b : BranchRecord) : (Record.branch b).bytes.length < ptFileBlockSize := by
  have h₁ := length_writeCompressed_le b.tid.toUInt64
  have h₂ := length_writeCompressed_le b.fromId.toUInt64
  have h₃ := length_writeCompressed_le b.toId.toUInt64
  simp only [Record.bytes, BranchRecord.bytes, write1bytes, write8bytes, write4bytes,
    List.length_append, List.length_cons, List.length_nil, ptFileBlockSize]
  omega

lemma error_length_lt (e : ErrorRecord) : (Record.error e).bytes.length < ptFileBlockSize := by
  have h := length_writeCompressed_le e.tid.toUInt64
  simp only [Record.bytes, ErrorRecord.bytes, write1bytes, write8bytes, write4bytes,
    List.length_append, List.length_cons, List.length_nil, ptFileBlockSize]
  omega

lemma fits_of_fwriteRecord {f f' : File} {r : Record} (h : fwriteRecord f r = .ok f') :
    r.bytes.length ≤ ptFileBlockSize := by
  cases r with
  | branch r => exact (branch_length_lt r).le
  | error r => exact (error_length_lt r).le
  | symbol r =>
    simp only [fwriteRecord, ptFwriteSymbolAction] at h
    split at h
    · cases h
    split at h
    · cases h
    · exact Nat.le_of_not_lt ‹_›

lemma fits_of_fwriteRecords {f f' : File} (h : records.foldlM fwriteRecord f = .ok f') :
    ∀ r ∈ records, r.bytes.length ≤ ptFileBlockSize := by
  induction records generalizing f with
  | nil => simp
  | cons r records ih =>
    rw [List.foldlM_cons] at h
    cases hr : fwriteRecord f r with
    | error e => simp [hr, bind, Except.bind] at h
    | ok f₁ =>
      rw [hr] at h
      intro q hq
      rcases List.mem_cons.mp hq with rfl | hq
      · exact fits_of_fwriteRecord hr
      · exact ih h q hq

lemma filter_branch (records : List Record) :
    records.filter (fun r => r.branch?.isSome) = (branches records).map Record.branch := by
  induction records with
  | nil => rfl
  | cons r records ih =>
    cases r with
    | branch r => exact congrArg (Record.branch r :: ·) ih
    | symbol r => exact ih
    | error r => exact ih

lemma Faithful.branches {table : SymbolVec} {out : List Delivery} (h : Faithful table records out) :
    List.Forall₂ (fun r d => Delivers table (.branch r) d) (branches records)
      (out.filter fun d => d.action.ptType == ptActionTypeBranch) := by
  rw [← List.forall₂_map_left_iff, ← filter_branch]
  apply h.filter
  · intro d hd
    rw [hd]
    rfl
  · intro r d hd
    cases r with
    | branch r => simp [hd.2.1, Record.branch?]
    | symbol r =>
      rw [hd.2.1]
      rfl
    | error r =>
      rw [hd.2.2.2.2]
      split <;> rfl

end Files

lemma shows_iff {table : SymbolVec} {i : ℕ} {sym : Symbol} {pl : Place}
    (h : table[i]? = some sym) :
    Shows sym pl ↔ pl.offset.toNat < 2 ^ 32 ∧ table[i]? = some pl.symbol := by
  rw [h, Option.some.injEq]
  constructor
  · rintro ⟨haddr, hoffset, hname⟩
    have hlt : pl.offset.toNat < 2 ^ 32 := hoffset ▸ sym.offset.toNat_lt
    refine ⟨hlt, ?_⟩
    cases sym
    simp only [Place.symbol, Symbol.mk.injEq]
    refine ⟨hname, haddr, UInt32.toNat_inj.mp ?_⟩
    rw [UInt64.toNat_toUInt32, Nat.mod_eq_of_lt hlt]
    exact hoffset
  · rintro ⟨hlt, rfl⟩
    refine ⟨rfl, ?_, rfl⟩
    exact (UInt64.toNat_toUInt32 _).trans (Nat.mod_eq_of_lt hlt)

lemma fidelity_iff_linked {samples : List BranchSample} {table : SymbolVec} {records : List Record}
    {out : List Delivery} (hsame : List.Forall₂ SameHead samples (branches records))
    (hfaith : Faithful table records out) :
    SymbolFidelity samples out ↔ List.Forall₂ (Linked table) samples (branches records) := by
  refine forall₂_iff_of_rel ?_ hsame hfaith.branches
  rintro x r d ⟨htid, hts, hflag⟩ ⟨-, -, -, htid', hts', hflag', hsrc, hdst⟩
  rw [shows_iff hsrc, shows_iff hdst, Linked]
  simp only [htid', hts', hflag', htid, hts, hflag, true_and]

theorem symbol_fidelity_iff (fresh : ℕ → Action) (samples : List BranchSample) (s : SymbolWriter)
    (f : File) (hwrite : writeSamples samples = .ok (s, f)) (hlen : f.content.length < 2 ^ 32) :
    (∃ out table, readActionsFromCompactFile fresh [] f.content = .ok (out, table) ∧
      SymbolFidelity samples out) ↔ HitsRight .init [] samples := by
  obtain ⟨records, hrun, hrecords⟩ := Runs.run_of_loop hwrite
  have hfit := fits_of_fwriteRecords hrecords
  obtain ⟨f', hrecords', -, hlayout⟩ := fwriteRecords_run [] records hfit
    (show File.empty.pos ≤ File.empty.content.length from le_rfl)
  obtain rfl : f = f' := Except.ok.inj (hrecords.symm.trans hrecords')
  have hl : Layout f records := hlayout hlen rfl layout_empty
  have hsize : (symbolsAfter [] records).length < 2 ^ 32 := by
    have hle := length_symbolsAfter_le [] records
    have hrecords := hl.length_le
    rw [List.length_nil, Nat.zero_add] at hle
    omega
  have hknown : Known .init [] := ⟨rfl, fun e he => absurd he List.not_mem_nil⟩
  obtain ⟨hids, hsame, hlinked⟩ := samples_run samples hknown hrun hsize
  obtain ⟨out, hread, hfaith⟩ := hl.read fresh hfit hids
  rw [← hlinked _ List.prefix_rfl, ← fidelity_iff_linked hsame hfaith]
  constructor
  · rintro ⟨out', table', hread', hfid⟩
    rw [hread] at hread'
    cases hread'
    exact hfid
  · intro hfid
    exact ⟨out, _, hread, hfid⟩

namespace Sample

def place (address : UInt64) (name : Str) : Place := ⟨address, address, 0, some ⟨address, address + 64, name⟩⟩

def callMainTo (time address : UInt64) (name : Str) : BranchSample :=
  ⟨300, time, 0, place 0x401100 (lit "main"), place address name⟩

def clashing : List BranchSample :=
  [callMainTo 10 0x401200 (lit "f"), callMainTo 20 0x7f0000401200 (lit "g")]

def separate : List BranchSample :=
  [callMainTo 10 0x401200 (lit "f"), callMainTo 20 0x7f0000402200 (lit "g")]

def delivered (samples : List BranchSample) : Except WriteFault (ℕ × List Str) := do
  let (_, f) ← writeSamples samples
  let names := match readActionsFromCompactFile (fun _ => default) [] f.content with
    | .ok (out, _) => (out.filter fun d => d.action.ptType == ptActionTypeBranch).map
        fun d => d.action.toSym.name
    | .error _ => []
  return (f.content.length, names)

end Sample

def Resolved (samples : List BranchSample) : Prop :=
  ∀ pl ∈ samples.flatMap (fun x => [x.src, x.dst]), ∀ pl' ∈ samples.flatMap (fun x => [x.src, x.dst]),
    pl.address = pl'.address → pl.offset = pl'.offset ∧ pl.name = pl'.name

open Sample in
theorem clashing_symbols_confused :
    Resolved clashing ∧
      ¬ ∃ s f out table, writeSamples clashing = .ok (s, f) ∧
        readActionsFromCompactFile (fun _ => default) [] f.content = .ok (out, table) ∧
        SymbolFidelity clashing out := by
  constructor
  · unfold Resolved
    decide
  · rintro ⟨s, f, out, table, hwrite, hread, hfid⟩
    have hnames : (delivered clashing).map Prod.snd = .ok [lit "f", lit "f"] := by decide +kernel
    simp only [delivered, hwrite, hread, bind, Except.bind, pure, Except.pure, Except.map] at hnames
    have hshown : List.Forall₂ (fun x (name : Str) => name = x.dst.name) clashing
        ((out.filter fun d => d.action.ptType == ptActionTypeBranch).map
          fun d => d.action.toSym.name) :=
      List.forall₂_map_right_iff.mpr (hfid.imp fun x d h => h.2.2.2.2.2.2)
    rw [Except.ok.inj hnames] at hshown
    cases hshown with
    | cons _ hshown =>
      cases hshown with
      | cons h _ => exact absurd h (by decide)

open Sample in
theorem separate_symbols_kept :
    ∃ s f out table, writeSamples separate = .ok (s, f) ∧ f.content.length < 2 ^ 32 ∧
      readActionsFromCompactFile (fun _ => default) [] f.content = .ok (out, table) ∧
      SymbolFidelity separate out := by
  have hlength : (delivered separate).map Prod.fst = .ok 97 := by decide +kernel
  cases hwrite : writeSamples separate with
  | error e => simp [delivered, hwrite, bind, Except.bind, Except.map] at hlength
  | ok sf =>
    simp only [delivered, hwrite, bind, Except.bind, pure, Except.pure, Except.map,
      Except.ok.injEq] at hlength
    have hlt : sf.2.content.length < 2 ^ 32 := hlength.trans_lt (by decide)
    obtain ⟨out, table, hread, hfid⟩ :=
      (symbol_fidelity_iff (fun _ => default) separate sf.1 sf.2 hwrite hlt).mpr
        ⟨by decide, by decide, by decide, by decide, trivial⟩
    exact ⟨sf.1, sf.2, out, table, rfl, hlt, hread, hfid⟩

end PtPerf.Compact
