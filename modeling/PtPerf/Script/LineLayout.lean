import PtPerf.Script.Readings

/-! The layout of the lines of a text script, and that the parser inverts it. -/

namespace PtPerf.Script

open PtPerf.Support PtPerf.Support.Text PtPerf.Trace PtPerf.Compact

/-- One end of a branch in a line; an unknown one is shown with or without its address. -/
inductive ShownSymbol
  | unknown (address : Option UInt64)
  | named (sym : Symbol)

namespace ShownSymbol

def text : ShownSymbol → Str
  | .unknown none => unknownSymbol
  | .unknown (some a) => digits 16 a.toNat ++ blank :: unknownSymbol
  | .named s => digits 16 s.addr.toNat ++ blank :: (s.name ++ lit "+0x" ++ digits 16 s.offset.toNat)

def symbol : ShownSymbol → Symbol
  | .unknown _ => ⟨unknownSymbol, 0, 0⟩
  | .named s => s

def Printable : ShownSymbol → Prop
  | .unknown _ => True
  | .named s => ¬ lit "=>" <:+: s.name ∧ ¬ unknownSymbol <:+: s.name ∧ s.offset.toNat < 2 ^ 31

end ShownSymbol

structure LineFields where
  tid : Int32
  cpu : ℤ
  sec : ℕ
  nsec : ℕ
  kind : Fin 19
  src : ShownSymbol
  dst : ShownSymbol

/-- The blanks before the thread, the seconds, the type and the two ends. -/
structure Padding where
  tid : ℕ
  sec : ℕ
  kind : ℕ
  src : ℕ
  dst : ℕ

namespace LineFields

def kindText (l : LineFields) : Str := actionTypeStrs.getD l.kind []

def endsText (l : LineFields) (pad : Padding) : Str :=
  lit " " ++ (List.replicate pad.src blank ++ l.src.text) ++ lit " => " ++
    (List.replicate pad.dst blank ++ l.dst.text)

/-- `tid [cpu] sec.nsec: type from => to`. -/
def text (l : LineFields) (pad : Padding) : Str :=
  List.replicate pad.tid blank ++ signed l.tid.toInt ++ lit " " ++
    (lit "[" ++ signedZeros 3 l.cpu ++ lit "] ") ++
    (List.replicate pad.sec blank ++ digits 10 l.sec ++ lit "." ++
      padLeft 9 '0'.toUInt8 (digits 10 l.nsec) ++ lit ": ") ++
    (List.replicate pad.kind blank ++ (l.kindText ++ l.endsText pad))

/-- The seconds are a `long`. -/
structure Valid (l : LineFields) : Prop where
  sec : l.sec < 2 ^ 63
  nsec : l.nsec < 10 ^ 9
  src : l.src.Printable
  dst : l.dst.Printable

/-- The fields of the line, in a variable that held `old`. -/
def action (l : LineFields) (old : Action) : Action :=
  { old with
    ptType := ptActionTypeBranch
    isError := false
    fromTarget := false
    toTarget := false
    tid := l.tid
    ts := UInt64.ofNat (l.sec * 10 ^ 9 + l.nsec)
    type := .ofCode (.ofNat l.kind)
    fromSym := l.src.symbol
    toSym := l.dst.symbol }

end LineFields

/-- The lines of a file with the variables they are read into, from one table of symbols on. -/
def readLines : SymbolMap → List (Action × Str) → Except Failure (List (Option Action))
  | _, [] => .ok []
  | symbols, (old, line) :: rest => do
    let (a, symbols) ← createActionFromString old symbols line
    let as ← readLines symbols rest
    return a :: as

section Kind

def tracedEnds : List Str := [lit "call", lit "return", lit "hw int", lit "syscall"]

/-- A type that comes earlier in the table is no other one's beginning, and begins with a later one
only if that is the plain trace end. -/
lemma actionTypeStrs_order : ∀ i j : Fin 19, j < i →
    ¬ actionTypeStrs.getD j [] <+: actionTypeStrs.getD i [] ∧
      (actionTypeStrs.getD i [] <+: actionTypeStrs.getD j [] →
        ∃ w ∈ tracedEnds, actionTypeStrs.getD j [] = actionTypeStrs.getD i [] ++ blank :: blank :: w) := by
  decide +kernel

lemma tracedEnds_head : ∀ w ∈ tracedEnds, w.head? ≠ some blank ∧ w ≠ [] := by decide

lemma not_traced_of_padding {more : Str} (n : ℕ) {w : Str} (hw : w ∈ tracedEnds)
    (hhead : more.head? ≠ some blank) (hmore : ¬ w <+: more) :
    ¬ blank :: blank :: w <+: List.replicate (n + 1) blank ++ more := by
  obtain ⟨hblank, hne⟩ := tracedEnds_head w hw
  obtain ⟨c, t, rfl⟩ := List.exists_cons_of_ne_nil hne
  have hc : c ≠ blank := by simpa using hblank
  intro h
  rw [List.replicate_succ, List.cons_append] at h
  have h₁ := (List.cons_prefix_cons.mp h).2
  cases n with
  | zero =>
    cases more with
    | nil => simp at h₁
    | cons d more => exact hhead (congrArg some (List.cons_prefix_cons.mp h₁).1.symm)
  | succ n =>
    rw [List.replicate_succ, List.cons_append] at h₁
    have h₂ := (List.cons_prefix_cons.mp h₁).2
    cases n with
    | zero => exact hmore h₂
    | succ n =>
      rw [List.replicate_succ, List.cons_append] at h₂
      exact hc (List.cons_prefix_cons.mp h₂).1

lemma take_beq_iff {t s : Str} : (s.take t.length == t) = true ↔ t <+: s := by
  rw [beq_iff_eq, List.prefix_iff_eq_take, eq_comm]

lemma matchType_padded (k : Fin 19) {line more : Str} {p n : ℕ}
    (h : At line p (actionTypeStrs.getD k [] ++ (List.replicate (n + 1) blank ++ more)))
    (hhead : more.head? ≠ some blank) (hmore : ∀ w ∈ tracedEnds, ¬ w <+: more) :
    ∃ q, matchType line (some p) = .ok (.ofCode (.ofNat k), q) ∧
      At line q (List.replicate (n + 1) blank ++ more) := by
  have hidx : actionTypeStrs.findIdx? (fun t => (line.drop p).take t.length == t) = some k.val := by
    rw [List.findIdx?_eq_some_iff_getElem]
    have hk : k.val < actionTypeStrs.length := k.isLt
    refine ⟨hk, ?_, fun j hj => ?_⟩
    · rw [take_beq_iff, h.rest, List.getElem_eq_getD []]
      exact List.prefix_append _ _
    · rw [take_beq_iff, h.rest, List.getElem_eq_getD []]
      obtain ⟨hno, hlonger⟩ := actionTypeStrs_order k ⟨j, hj.trans k.isLt⟩ hj
      intro hpre
      rcases List.prefix_or_prefix_of_prefix hpre (List.prefix_append _ _) with hpre' | hpre'
      · exact hno hpre'
      · obtain ⟨w, hw, heq⟩ := hlonger hpre'
        change actionTypeStrs.getD j [] = _ at heq
        rw [heq, List.prefix_append_right_inj] at hpre
        exact not_traced_of_padding n hw hhead (hmore w hw) hpre
  refine ⟨p + (actionTypeStrs.getD k []).length, ?_, h.skip⟩
  simp only [matchType, hidx]

end Kind

section Symbols

variable {x : ShownSymbol}

lemma ShownSymbol.head (x : ShownSymbol) : ∃ c t, x.text = c :: t ∧ c ≠ blank := by
  cases x with
  | unknown address =>
    cases address with
    | none => exact ⟨'['.toUInt8, lit "unknown]", rfl, by decide⟩
    | some a =>
      obtain ⟨c, t, hcons, hc⟩ := digits_head a.toNat
      exact ⟨c, t ++ blank :: unknownSymbol, by rw [text, hcons, List.cons_append], hc⟩
  | named s =>
    obtain ⟨c, t, hcons, hc⟩ := digits_head s.addr.toNat
    exact ⟨c, _, by rw [text, hcons, List.cons_append], hc⟩

lemma ShownSymbol.not_traced (x : ShownSymbol) (more : Str) :
    ∀ w ∈ tracedEnds, ¬ w <+: x.text ++ more := by
  have hword : ∀ w ∈ tracedEnds, w.head? ≠ some '['.toUInt8 ∧ w ≠ [] ∧
      ∃ c ∈ w, c ∈ w.takeWhile (· ≠ blank) ∧ 16 ≤ digitValue c := by decide
  intro w hw
  obtain ⟨hopen, hne, c, -, hc, hlarge⟩ := hword w hw
  -- the part of the word before a blank would consist of hexadecimal digits
  have hdigits : ∀ n rest, ¬ w <+: digits 16 n ++ blank :: rest := by
    intro n rest hpre
    have hfirst : w.takeWhile (· ≠ blank) <+: digits 16 n := by
      have htake := (List.takeWhile_prefix (· ≠ blank)).trans hpre
      rcases List.prefix_or_prefix_of_prefix htake (List.prefix_append _ _) with h | ⟨q, hq⟩
      · exact h
      · rw [← hq, List.prefix_append_right_inj] at htake
        cases q with
        | nil => rw [← hq, List.append_nil]
        | cons d q =>
          have hmem : d ∈ w.takeWhile (· ≠ blank) := hq ▸ List.mem_append_right _ List.mem_cons_self
          have hd := List.all_eq_true.mp List.all_takeWhile d hmem
          exact absurd (List.cons_prefix_cons.mp htake).1 (of_decide_eq_true hd)
    exact not_mem_digits (by decide) le_rfl hlarge n (hfirst.subset hc)
  cases x with
  | unknown address =>
    cases address with
    | none =>
      intro hpre
      obtain ⟨d, t, rfl⟩ := List.exists_cons_of_ne_nil hne
      exact hopen (congrArg some (List.cons_prefix_cons.mp hpre).1)
    | some a =>
      rw [text, List.append_assoc, List.cons_append]
      exact hdigits _ _
  | named s =>
    rw [text, List.append_assoc, List.cons_append]
    exact hdigits _ _

lemma ShownSymbol.arrow_free (h : x.Printable) : ¬ lit "=>" <:+: x.text := by
  have hequal : ∀ n, '='.toUInt8 ∉ digits 16 n ++ [blank] := by
    intro n
    rw [List.mem_append, not_or]
    exact ⟨not_mem_digits (by decide) le_rfl (by decide) _, by decide⟩
  cases x with
  | unknown address =>
    cases address with
    | none => decide
    | some a =>
      intro hin
      rw [text, ← List.singleton_append, ← List.append_assoc] at hin
      exact absurd (arrow_of_append_right (hequal _) hin) (by decide)
  | named s =>
    intro hin
    rw [text, ← List.singleton_append, ← List.append_assoc] at hin
    have hright := arrow_of_append_right (hequal _) hin
    rw [List.append_assoc] at hright
    refine h.1 (arrow_of_append_left ?_ hright)
    rw [List.mem_append, not_or]
    exact ⟨by decide, not_mem_digits (by decide) le_rfl (by decide) _⟩

lemma getSymbolFromString_text (symbols : SymbolMap) (h : x.Printable) {tail : Str}
    (htail : tail = [] ∨ tail = [blank]) : getSymbolFromString symbols (x.text ++ tail) =
      .ok (symbols.create x.symbol.addr x.symbol.offset x.symbol.name) := by
  cases x with
  | unknown address =>
    have hin : unknownSymbol <:+: (ShownSymbol.unknown address).text ++ tail := by
      refine List.IsInfix.trans ?_ (List.prefix_append _ _).isInfix
      cases address with
      | none => exact List.infix_rfl
      | some a => exact ((List.suffix_cons _ _).trans (List.suffix_append _ _)).isInfix
    have hfind : find unknownSymbol ((ShownSymbol.unknown address).text ++ tail) (some 0) ≠ none := by
      rw [Ne, find_eq_none_iff, not_not]
      exact hin
    rw [getSymbolFromString, if_pos hfind]
    rfl
  | named s =>
    have hoffset : s.offset.toNat < 2 ^ 63 := h.2.2.trans (by decide)
    have hword : UInt32.ofInt (s.offset.toNat : ℤ) = s.offset := by
      apply UInt32.toNat_inj.mp
      have hlt := s.offset.toNat_lt
      rw [UInt32.ofInt, UInt32.toNat_ofNat']
      omega
    rw [ShownSymbol.text, getSymbolFromString_named symbols s.addr _ htail h.2.1, if_pos hoffset, hword]
    rfl

end Symbols

section Lines

variable {l : LineFields}

lemma timestamp_eq (sec nsec : ℕ) :
    timestamp sec nsec = UInt64.ofNat (sec * 10 ^ 9 + nsec) := by
  have hof : ∀ n : ℕ, UInt64.ofInt (n : ℤ) = UInt64.ofNat n := by
    intro n
    apply UInt64.toNat_inj.mp
    rw [UInt64.ofInt, UInt64.toNat_ofNat', UInt64.toNat_ofNat']
    omega
  rw [timestamp, hof, hof, UInt64.ofNat_add, UInt64.ofNat_mul]
  rfl

lemma readStart_text (h : l.Valid) (pad : Padding) :
    ∃ pos, readStart (l.text pad) =
        .ok (l.tid, UInt64.ofNat (l.sec * 10 ^ 9 + l.nsec), pos) ∧
      At (l.text pad) pos
        (List.replicate (pad.kind + 1) blank ++ (l.kindText ++ l.endsText pad)) := by
  have hstart := At.start (start_fields
    (List.replicate pad.kind blank ++ (l.kindText ++ l.endsText pad))
    (List.replicate pad.tid blank ++ signed l.tid.toInt) (signedZeros 3 l.cpu)
    (List.replicate pad.sec blank ++ digits 10 l.sec) (padLeft 9 '0'.toUInt8 (digits 10 l.nsec)))
  rw [← LineFields.text] at hstart
  have hblanks : ∀ (c : UInt8) (n : ℕ), c ≠ blank → c ∉ List.replicate n blank :=
    fun c n hc hmem => hc (List.eq_of_mem_replicate hmem)
  have hopen : '['.toUInt8 ∉ List.replicate pad.tid blank ++ signed l.tid.toInt ++ [blank] := by
    rw [List.mem_append, List.mem_append, not_or, not_or]
    exact ⟨⟨hblanks _ _ (by decide), not_mem_signed (by decide) (by decide) _⟩, by decide⟩
  have hclose : ']'.toUInt8 ∉ signedZeros 3 l.cpu := not_mem_signedZeros (by decide) (by decide) 3 _
  have hdot : '.'.toUInt8 ∉ blank :: (List.replicate pad.sec blank ++ digits 10 l.sec) := by
    rw [List.mem_cons, List.mem_append, not_or, not_or]
    exact ⟨by decide, hblanks _ _ (by decide), not_mem_digits (by decide) (by decide) (by decide) _⟩
  have hcolon : ':'.toUInt8 ∉ padLeft 9 '0'.toUInt8 (digits 10 l.nsec) :=
    not_mem_padLeft (by decide) (not_mem_digits (by decide) (by decide) (by decide) _) 9
  have hlow := l.tid.le_toInt
  have hhigh := l.tid.toInt_lt
  have htid := stol_signed l.tid.toInt pad.tid (by omega) (by omega)
    (show Ends 10 [blank] from rfl)
  have hsec := stol_padded l.sec (pad.sec + 1) 0 h.sec (show Ends 10 [] from rfl)
  have hnsec := stol_padded l.nsec 0 (9 - (digits 10 l.nsec).length)
    (h.nsec.trans (by decide)) (show Ends 10 [] from rfl)
  rw [← List.append_assoc] at htid
  rw [List.append_nil, List.replicate_zero, List.nil_append, List.replicate_succ,
    List.cons_append] at hsec
  rw [List.append_nil, List.replicate_zero, List.nil_append, ← padLeft] at hnsec
  obtain ⟨pos, hread, hat⟩ := readStart_fields hstart hopen hclose hdot hcolon htid hsec hnsec
  rw [Int32.ofInt_toInt, timestamp_eq] at hread
  exact ⟨pos, hread, hat⟩

lemma endsText_fields (l : LineFields) (pad : Padding) : l.endsText pad =
    List.replicate (pad.src + 1) blank ++ (l.src.text ++ blank :: (lit "=>" ++
      (List.replicate (pad.dst + 1) blank ++ l.dst.text))) := by
  have hone : lit " " = [blank] := by decide
  have harrow : lit " => " = blank :: (lit "=>" ++ [blank]) := by decide
  simp only [LineFields.endsText, hone, harrow, List.append_assoc, List.cons_append, List.nil_append,
    List.replicate_succ]

lemma readEnds_text (h : l.Valid) {pad : Padding} {line : Str} {pos : ℕ}
    (hat : At line pos (l.endsText pad))
    (hsame : l.dst.symbol.addr = l.src.symbol.addr → l.dst.symbol = l.src.symbol) :
    ∃ m, readEnds 0 line pos = .ok (m, l.src.symbol, l.dst.symbol) := by
  rw [endsText_fields] at hat
  have hdst := fun m : SymbolMap => getSymbolFromString_text m h.dst (Or.inl rfl)
  have hto := SymbolMap.create_create l.src.symbol l.dst.symbol
  have hsymbol : (if l.dst.symbol.addr = l.src.symbol.addr then l.src.symbol else l.dst.symbol) =
      l.dst.symbol := by
    split
    · rename_i heq
      exact (hsame heq).symm
    · rfl
  rw [hsymbol] at hto
  simp only [List.append_nil] at hdst
  rw [readEnds_fields hat l.src.head l.dst.head (l.src.arrow_free h.src),
    getSymbolFromString_text 0 h.src (Or.inr rfl)]
  simp only [hdst, bind, Except.bind, pure, Except.pure]
  rw [hto]
  exact ⟨_, rfl⟩

lemma kindText_head (l : LineFields) (more : Str) : ∃ c t, l.kindText ++ more = c :: t ∧ c ≠ blank := by
  have hall : ∀ k : Fin 19, (actionTypeStrs.getD k []).head? ≠ some blank ∧
      actionTypeStrs.getD k [] ≠ [] := by decide
  obtain ⟨hhead, hne⟩ := hall l.kind
  obtain ⟨c, t, hct⟩ := List.exists_cons_of_ne_nil hne
  rw [hct] at hhead
  exact ⟨c, t ++ more, by rw [LineFields.kindText, hct, List.cons_append], by simpa using hhead⟩

lemma reading_text (h : l.Valid) (pad : Padding)
    (hsame : l.dst.symbol.addr = l.src.symbol.addr → l.dst.symbol = l.src.symbol) :
    reading (l.text pad) = .ok (some (l.action default)) := by
  obtain ⟨pos, hstart, h₀⟩ := readStart_text h pad
  obtain ⟨p, hfind, h₁⟩ : ∃ p, findFirstNotOf blank (l.text pad) pos = some p ∧
      At (l.text pad) p (l.kindText ++ l.endsText pad) := by
    obtain ⟨c, t, hct, hc⟩ := kindText_head l (l.endsText pad)
    rw [hct] at h₀ ⊢
    exact h₀.findFirstNotOf hc
  obtain ⟨q, hmatch, h₂⟩ : ∃ q, matchType (l.text pad) (some p) = .ok (.ofCode (.ofNat l.kind), q) ∧
      At (l.text pad) q (l.endsText pad) := by
    rw [endsText_fields] at h₁ ⊢
    obtain ⟨c, t, hct, hc⟩ := l.src.head
    refine matchType_padded l.kind h₁ ?_ (l.src.not_traced _)
    rw [hct]
    simpa using hc
  obtain ⟨m, hends⟩ := readEnds_text h h₂ hsame
  have hline : (l.text pad).take traceErrorStr.length ≠ traceErrorStr := by
    simp only [LineFields.text, List.append_assoc]
    exact not_error_of_number _ _ _
  rw [reading, createActionFromString, if_neg hline]
  generalize l.text pad = line at hstart hfind hmatch hends
  simp only [createBranchFromString, hstart, hfind, hmatch, hends, bind, Except.bind, pure, Except.pure]
  rfl

end Lines

section Files

variable {known : Symbol → Prop}

lemma readLines_text (hone : OneName known) (lines : List (Action × LineFields × Padding))
    (hvalid : ∀ x ∈ lines, x.2.1.Valid)
    (hknown : ∀ x ∈ lines, known x.2.1.src.symbol ∧ known x.2.1.dst.symbol) {m : SymbolMap}
    (hm : Agrees known m) :
    readLines m (lines.map fun x => (x.1, x.2.1.text x.2.2)) =
      .ok (lines.map fun x => some (x.2.1.action x.1)) := by
  induction lines generalizing m with
  | nil => rfl
  | cons x lines ih =>
    obtain ⟨old, l, pad⟩ := x
    rw [List.forall_mem_cons] at hvalid hknown
    have hread := reading_text hvalid.1 pad (hone _ _ hknown.1.2 hknown.1.1)
    obtain ⟨m', hm', hline⟩ := createActionFromString_agrees hone hm old fun a ha _ => by
      rw [hread] at ha
      cases ha
      exact hknown.1
    rw [hread] at hline
    rw [List.map_cons, readLines, hline]
    simp only [Except.map, Runs.ok_bind, ih hvalid.2 hknown.2 hm']
    rfl

end Files

/-! The lines of `perf script` have this layout. -/

section Printed

def ShownSymbol.ofPlace (pl : Place) : ShownSymbol :=
  match pl.sym with
  | some sym => .named ⟨sym.name, pl.address, pl.offset.toUInt32⟩
  | none => .unknown (some pl.address)

lemma ShownSymbol.text_ofPlace {pl : Place} (h : pl.offset.toNat < 2 ^ 32) :
    (ShownSymbol.ofPlace pl).text = shownPlace pl := by
  have hword : pl.offset.toUInt32.toNat = pl.offset.toNat := by
    rw [UInt64.toNat_toUInt32, Nat.mod_eq_of_lt h]
  rw [ofPlace, shownPlace, fprintfSymnameOffs]
  cases pl.sym with
  | none => rfl
  | some sym => simp only [text, hword]

def LineFields.ofEvent (x : BranchEvent) (kind : Fin 19) : LineFields where
  tid := x.tid.toInt32
  cpu := x.cpu.toInt32.toInt
  sec := (secs x.time).toNat
  nsec := (nsecs x.time).toNat
  kind := kind
  src := .ofPlace x.src
  dst := .ofPlace x.dst

def Padding.ofEvent (x : BranchEvent) (kind : Fin 19) : Padding where
  tid := 5 - (signed x.tid.toInt32.toInt).length
  sec := 5 - (digits 10 (secs x.time).toNat).length
  kind := 2
  src := 21 - (actionTypeStrs.getD kind []).length + 1 + (16 - (digits 16 x.src.address.toNat).length)
  dst := 16 - (digits 16 x.dst.address.toNat).length

lemma fprintfSample_eq_text {x : BranchEvent} {kind : Fin 19}
    (hflags : (x.flags, UInt8.ofNat kind) ∈ sampleFlagsNew) (hsrc : x.src.offset.toNat < 2 ^ 32)
    (hdst : x.dst.offset.toNat < 2 ^ 32) :
    fprintfSample x = (LineFields.ofEvent x kind).text (.ofEvent x kind) := by
  obtain ⟨hpad, hlen, -, -⟩ := sprintfFlags_known _ hflags
  have hkind : (UInt8.ofNat kind.val).toNat = kind :=
    UInt8.toNat_ofNat_of_lt' (kind.isLt.trans (by decide))
  have hright : padRight 21 (sprintfFlags x.flags) = actionTypeStrs.getD kind [] ++
      List.replicate (21 - (actionTypeStrs.getD kind []).length) blank := by
    rw [padRight, hlen, hpad, hkind, Nat.sub_self, List.replicate_zero, List.append_nil]
  have hshift : ∀ (n : ℕ) (s : Str),
      List.replicate n blank ++ blank :: s = blank :: (List.replicate n blank ++ s) := by
    intro n s
    rw [← List.cons_append, ← List.replicate_succ, List.replicate_succ', List.append_assoc]
    rfl
  have htwo : lit "  " = [blank, blank] := by decide
  have hone : lit " " = [blank] := by decide
  simp only [fprintfSample, fprintfStart, fprintfFlags, hright, fprintfBts, fprintfPlace_eq,
    LineFields.text, LineFields.ofEvent, Padding.ofEvent, LineFields.kindText, LineFields.endsText,
    ShownSymbol.text_ofPlace hsrc, ShownSymbol.text_ofPlace hdst, padLeft, htwo, hone, hshift,
    List.append_assoc, List.cons_append, List.nil_append, List.replicate_succ, List.replicate_zero,
    List.replicate_add]

end Printed

theorem text_lines_inverted (lines : List (Action × LineFields × Padding))
    (hvalid : ∀ x ∈ lines, x.2.1.Valid)
    (hone : OneName fun s => ∃ x ∈ lines, s = x.2.1.src.symbol ∨ s = x.2.1.dst.symbol) :
    readLines 0 (lines.map fun x => (x.1, x.2.1.text x.2.2)) =
      .ok (lines.map fun x => some (x.2.1.action x.1)) :=
  readLines_text hone lines hvalid
    (fun x hx => ⟨⟨x, hx, Or.inl rfl⟩, x, hx, Or.inr rfl⟩) agrees_zero

namespace Sample

def operatorNot : Symbol := ⟨lit "Set::operator!=(Set [2], int)+1.5", 0x401220, 32⟩

/-- A plain trace end, whose blanks are followed by the address `ca11`. -/
def endLine : LineFields where
  tid := -7
  cpu := 12
  sec := 5
  nsec := 42
  kind := 9
  src := .named ⟨lit "f", 0xca11, 4⟩
  dst := .unknown none

def callLineFields : LineFields where
  tid := 7
  cpu := 3
  sec := 4
  nsec := 999999999
  kind := 0
  src := .named operatorNot
  dst := .named ⟨lit "f", 0xca11, 4⟩

end Sample

open Sample in
theorem trace_end_inverted :
    endLine.text ⟨2, 1, 1, 1, 0⟩ = lit "  -7 [012]  5.000000042:  tr end  ca11 f+0x4 => [unknown]" ∧
      readLines 0 [(default, callLineFields.text ⟨4, 4, 2, 18, 10⟩), (default, endLine.text ⟨2, 1, 1, 1, 0⟩)] =
        .ok [some (callLineFields.action default), some (endLine.action default)] := by
  refine ⟨by decide +kernel, text_lines_inverted [(default, callLineFields, ⟨4, 4, 2, 18, 10⟩),
    (default, endLine, ⟨2, 1, 1, 1, 0⟩)] ?_ ?_⟩
  · intro x hx
    rcases List.mem_pair.mp hx with rfl | rfl
    · exact ⟨by decide, by decide, ⟨by decide +kernel, by decide +kernel, by decide⟩,
        by decide +kernel, by decide +kernel, by decide⟩
    · exact ⟨by decide, by decide, ⟨by decide +kernel, by decide +kernel, by decide⟩, trivial⟩
  · rintro s t ⟨x, hx, hs⟩ ⟨y, hy, ht⟩ haddr
    rcases List.mem_pair.mp hx with rfl | rfl <;> rcases List.mem_pair.mp hy with rfl | rfl <;>
      rcases hs with rfl | rfl <;> rcases ht with rfl | rfl <;> revert haddr <;> decide

end PtPerf.Script
