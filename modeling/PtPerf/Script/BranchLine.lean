import PtPerf.Support.Lists
import PtPerf.Support.Runs
import PtPerf.Script.Parse

/-! What the parser makes of the line of a branch sample. -/

namespace PtPerf.Script

open PtPerf.Support PtPerf.Support.Text PtPerf.Trace PtPerf.Compact

abbrev blank : UInt8 := ' '.toUInt8

section Time

lemma ofInt_toNat (n : UInt64) : UInt64.ofInt (n.toNat : ℤ) = n := by
  have hlt := n.toNat_lt
  have hmod : ((n.toNat : ℤ) % 2 ^ 64).toNat = n.toNat := by omega
  rw [UInt64.ofInt, hmod, UInt64.ofNat_toNat]

lemma nsecPerSec_toNat : nsecPerSec.toNat = 1000000000 := rfl

lemma secs_toNat (time : UInt64) : (secs time).toNat = time.toNat / 1000000000 := by
  rw [secs, UInt64.toNat_div, nsecPerSec_toNat]

lemma nsecs_toNat (time : UInt64) : (nsecs time).toNat = time.toNat % 1000000000 := by
  have hlt := time.toNat_lt
  have hmul : (secs time * nsecPerSec).toNat = time.toNat / 1000000000 * 1000000000 := by
    rw [UInt64.toNat_mul, secs_toNat, nsecPerSec_toNat]
    omega
  have hle : secs time * nsecPerSec ≤ time := by
    rw [UInt64.le_iff_toNat_le, hmul]
    omega
  rw [nsecs, UInt64.toNat_sub_of_le _ _ hle, hmul]
  omega

lemma timestamp_secs_nsecs (time : UInt64) :
    timestamp (secs time).toNat (nsecs time).toNat = time := by
  have hlt := time.toNat_lt
  apply UInt64.toNat_inj.mp
  rw [timestamp, ofInt_toNat, ofInt_toNat, UInt64.toNat_add, UInt64.toNat_mul, secs_toNat,
    nsecs_toNat, ← nsecPerSec, nsecPerSec_toNat]
  omega

lemma stol_secs (time : UInt64) (j : ℕ) {rest : Str} (hrest : Ends 10 rest) :
    stol 10 (List.replicate j blank ++ (digits 10 (secs time).toNat ++ rest)) =
      .ok (secs time).toNat := by
  have hlt := time.toNat_lt
  have hsecs := secs_toNat time
  have h := stol_padded (secs time).toNat j 0 (by omega) hrest
  rwa [List.replicate_zero, List.nil_append] at h

lemma stol_nsecs (time : UInt64) {rest : Str} (hrest : Ends 10 rest) :
    stol 10 (padLeft 9 '0'.toUInt8 (digits 10 (nsecs time).toNat) ++ rest) =
      .ok (nsecs time).toNat := by
  have hnsecs := nsecs_toNat time
  have h := stol_padded (nsecs time).toNat 0 (9 - (digits 10 (nsecs time).toNat).length) (by omega)
    hrest
  rwa [List.replicate_zero, List.nil_append, ← List.append_assoc] at h

lemma stol_word (w : UInt32) (j : ℕ) {rest : Str} (hrest : Ends 10 rest) :
    stol 10 (List.replicate j blank ++ (signed w.toInt32.toInt ++ rest)) =
      .ok w.toInt32.toInt := by
  have hlow := w.toInt32.le_toInt
  have hhigh := w.toInt32.toInt_lt
  exact stol_signed _ j (by omega) (by omega) hrest

end Time

section Start

variable (x : BranchEvent) (rest : Str)

lemma start_fields (tid cpu sec nsec : Str) :
    tid ++ lit " " ++ (lit "[" ++ cpu ++ lit "] ") ++ (sec ++ lit "." ++ nsec ++ lit ": ") ++ rest =
      (tid ++ [blank]) ++ '['.toUInt8 :: (cpu ++ ']'.toUInt8 :: ((blank :: sec) ++ '.'.toUInt8 ::
        (nsec ++ ':'.toUInt8 :: (blank :: rest)))) := by
  have hblank : lit " " = [blank] := by decide
  have hopen : lit "[" = ['['.toUInt8] := by decide
  have hclose : lit "] " = [']'.toUInt8, blank] := by decide
  have hdot : lit "." = ['.'.toUInt8] := by decide
  have hcolon : lit ": " = [':'.toUInt8, blank] := by decide
  simp only [hblank, hopen, hclose, hdot, hcolon, List.append_assoc, List.cons_append,
    List.nil_append]

lemma readStart_fields {line tid cpu sec nsec more : Str} {t s n : ℤ}
    (h : At line 0 (tid ++ '['.toUInt8 :: (cpu ++ ']'.toUInt8 :: (sec ++ '.'.toUInt8 ::
      (nsec ++ ':'.toUInt8 :: more)))))
    (hopen : '['.toUInt8 ∉ tid) (hclose : ']'.toUInt8 ∉ cpu) (hdot : '.'.toUInt8 ∉ sec)
    (hcolon : ':'.toUInt8 ∉ nsec) (htid : stol 10 tid = .ok t) (hsec : stol 10 sec = .ok s)
    (hnsec : stol 10 nsec = .ok n) :
    ∃ pos, readStart line = .ok (Int32.ofInt t, timestamp s n, pos) ∧ At line pos more := by
  obtain ⟨e₁, hfind₁, hcut₁, h₁⟩ := h.findFirstOf hopen
  obtain ⟨e₂, hfind₂, -, h₂⟩ := h₁.findFirstOf hclose
  obtain ⟨e₃, hfind₃, hcut₃, h₃⟩ := h₂.findFirstOf hdot
  obtain ⟨e₄, hfind₄, hcut₄, h₄⟩ := h₃.findFirstOf hcolon
  refine ⟨e₄ + 1, ?_, h₄⟩
  simp only [readStart, hfind₁, hcut₁, htid, after, hfind₂, hfind₃, hcut₃, hsec, hfind₄, hcut₄,
    hnsec, bind, Except.bind, pure, Except.pure]

lemma readStart_line :
    ∃ pos, readStart (fprintfStart x ++ rest) = .ok (x.tid.toInt32, x.time, pos) ∧
      At (fprintfStart x ++ rest) pos (blank :: rest) := by
  have h₀ := At.start (start_fields rest (padLeft 5 blank (signed x.tid.toInt32.toInt))
    (signedZeros 3 x.cpu.toInt32.toInt) (padLeft 5 blank (digits 10 (secs x.time).toNat))
    (padLeft 9 '0'.toUInt8 (digits 10 (nsecs x.time).toNat)))
  rw [← fprintfStart] at h₀
  have hopen : '['.toUInt8 ∉ padLeft 5 blank (signed x.tid.toInt32.toInt) ++ [blank] := by
    rw [List.mem_append, not_or]
    exact ⟨not_mem_padLeft (by decide) (not_mem_signed (by decide) (by decide) _) 5, by decide⟩
  have hclose : ']'.toUInt8 ∉ signedZeros 3 x.cpu.toInt32.toInt :=
    not_mem_signedZeros (by decide) (by decide) 3 _
  have hdot : '.'.toUInt8 ∉ blank :: padLeft 5 blank (digits 10 (secs x.time).toNat) := by
    rw [List.mem_cons, not_or]
    exact ⟨by decide, not_mem_padLeft (by decide)
      (not_mem_digits (by decide) (by decide) (by decide) _) 5⟩
  have hcolon : ':'.toUInt8 ∉ padLeft 9 '0'.toUInt8 (digits 10 (nsecs x.time).toNat) :=
    not_mem_padLeft (by decide) (not_mem_digits (by decide) (by decide) (by decide) _) 9
  have hblank : Ends 10 [blank] := rfl
  have hnil : Ends 10 [] := rfl
  have htid := stol_word x.tid (5 - (signed x.tid.toInt32.toInt).length) hblank
  have hsec := stol_secs x.time (5 - (digits 10 (secs x.time).toNat).length + 1) hnil
  have hnsec := stol_nsecs x.time hnil
  rw [← List.append_assoc, ← padLeft] at htid
  rw [List.append_nil, List.replicate_succ, List.cons_append, ← padLeft] at hsec
  rw [List.append_nil] at hnsec
  obtain ⟨pos, hread, hat⟩ := readStart_fields h₀ hopen hclose hdot hcolon htid hsec hnsec
  rw [Int32.ofInt_toInt, timestamp_secs_nsecs] at hread
  exact ⟨pos, hread, hat⟩

end Start

section Kind

lemma sprintfFlags_known : ∀ e ∈ sampleFlagsNew,
    sprintfFlags e.1 = actionTypeStrs.getD e.2.toNat [] ++
        List.replicate (21 - (actionTypeStrs.getD e.2.toNat []).length) blank ∧
      (sprintfFlags e.1).length = 21 ∧ (sprintfFlags e.1).head? ≠ some blank ∧
      actionTypeStrs.findIdx? (fun t => (sprintfFlags e.1).take t.length == t) = some e.2.toNat := by
  rw [← List.forall_iff_forall_mem]
  decide +kernel

lemma actionTypeStrs_length : ∀ t ∈ actionTypeStrs, t.length ≤ 21 := by decide

lemma matchType_known {e : UInt32 × UInt8} (he : e ∈ sampleFlagsNew) {line more : Str} {p : ℕ}
    (h : At line p (sprintfFlags e.1 ++ more)) :
    ∃ q k, matchType line (some p) = .ok (.ofCode e.2, q) ∧
      At line q (List.replicate k blank ++ more) := by
  obtain ⟨hpad, hlen, -, hfirst⟩ := sprintfFlags_known e he
  have hidx : actionTypeStrs.findIdx? (fun t => (line.drop p).take t.length == t) =
      some e.2.toNat := by
    rw [← hfirst, h.rest]
    apply findIdx?_congr
    intro t ht
    rw [List.take_append_of_le_length ((actionTypeStrs_length t ht).trans hlen.ge)]
  refine ⟨p + (actionTypeStrs.getD e.2.toNat []).length,
    21 - (actionTypeStrs.getD e.2.toNat []).length, ?_, ?_⟩
  · simp only [matchType, hidx, UInt8.ofNat_toNat]
  · rw [hpad, List.append_assoc] at h
    exact h.skip

lemma matchType_code {line : Str} {start : Option ℕ} {t : BranchType} {q : ℕ}
    (h : matchType line start = .ok (t, q)) : t.code < ptActionUnknownFlag := by
  cases start with
  | none => cases h
  | some p =>
    simp only [matchType] at h
    split at h
    · cases h
    · rename_i i hidx
      obtain ⟨rfl, -⟩ := Prod.mk.inj (Except.ok.inj h)
      have hlt : i < actionTypeStrs.length := (List.findIdx?_eq_some_iff_getElem.mp hidx).1
      have hi : i < 19 := hlt
      rw [BranchType.code_ofCode, UInt8.lt_iff_toNat_lt, UInt8.toNat_ofNat_of_lt' (hi.trans (by decide))]
      exact hi

lemma sampleFlagsToNew_known {e : UInt32 × UInt8} (he : e ∈ sampleFlagsNew) :
    sampleFlagsToNew e.1 = e.2 := by
  have h : ∀ e ∈ sampleFlagsNew, sampleFlagsToNew e.1 = e.2 := by
    rw [← List.forall_iff_forall_mem]
    decide
  exact h e he

lemma sampleFlagsToNew_unknown {flags : UInt32} (h : flags ∉ sampleFlagsNew.map Prod.fst) :
    sampleFlagsToNew flags = ptActionUnknownFlag := by
  have hnone : sampleFlagsNew.find? (fun e => e.1 == flags) = none := by
    rw [List.find?_eq_none]
    intro e he heq
    rw [beq_iff_eq] at heq
    exact h (heq ▸ List.mem_map_of_mem he)
  rw [sampleFlagsToNew, hnone]
  rfl

end Kind

section Ends

/-- The text of one end of a branch, without the blanks before the address. -/
def shownPlace (pl : Place) : Str := digits 16 pl.address.toNat ++ blank :: fprintfSymnameOffs pl

lemma fprintfPlace_eq (pl : Place) :
    fprintfPlace pl =
      List.replicate (16 - (digits 16 pl.address.toNat).length) blank ++ shownPlace pl := by
  rw [fprintfPlace, padLeft, shownPlace, List.append_assoc, List.append_assoc]
  rfl

lemma ofInt_toUInt32 (n : UInt64) : UInt32.ofInt (n.toNat : ℤ) = n.toUInt32 := by
  apply UInt32.toNat_inj.mp
  rw [UInt32.ofInt, UInt32.toNat_ofNat', UInt64.toNat_toUInt32]
  omega

lemma unknown_infix_iff {address offset tail name : Str} (hopen : '['.toUInt8 ∉ address ++ [blank])
    (hclose : ']'.toUInt8 ∉ '+'.toUInt8 :: (offset ++ tail)) :
    unknownSymbol <:+: address ++ blank :: (name ++ '+'.toUInt8 :: (offset ++ tail)) ↔
      unknownSymbol <:+: name := by
  constructor
  · intro h
    have hhead : unknownSymbol = '['.toUInt8 :: lit "unknown]" := rfl
    have hlast : unknownSymbol = lit "[unknown" ++ [']'.toUInt8] := rfl
    have hright : unknownSymbol <:+: name ++ '+'.toUInt8 :: (offset ++ tail) := by
      rw [hhead] at h ⊢
      apply infix_of_append_right hopen
      rwa [List.append_assoc, List.singleton_append]
    rw [hlast] at hright ⊢
    exact infix_of_append_left hclose hright
  · intro h
    have hsplit : address ++ blank :: (name ++ '+'.toUInt8 :: (offset ++ tail)) =
        (address ++ [blank]) ++ name ++ '+'.toUInt8 :: (offset ++ tail) := by
      rw [List.append_assoc, List.append_assoc, List.singleton_append]
    rw [hsplit]
    exact h.trans (List.infix_append _ _ _)

lemma getSymbolFromString_fields (symbols : SymbolMap) {str address name offset tail : Str}
    {a : UInt64} (hstr : str = address ++ blank :: (name ++ '+'.toUInt8 :: (offset ++ tail)))
    (hknown : ¬ unknownSymbol <:+: str) (hspace : blank ∉ address)
    (hplus : '+'.toUInt8 ∉ offset ++ tail) (hoffset : blank ∉ '+'.toUInt8 :: offset)
    (htail : tail = [] ∨ tail = [blank]) (haddr : stoull 16 address = .ok a) :
    getSymbolFromString symbols str =
      (stol 16 (offset ++ tail)).map fun o => symbols.create a (UInt32.ofInt o) name := by
  have hunknown := find_eq_none_iff.mpr hknown
  obtain ⟨e, hfind, hcut, h₁⟩ := (At.start hstr).findFirstOf hspace
  have h₂ : At str (e + 1 + name.length) (('+'.toUInt8 :: offset) ++ tail) := h₁.skip
  have h₃ : At str (e + 1 + name.length + 1) (offset ++ tail) :=
    (show At str (e + 1 + name.length) (['+'.toUInt8] ++ (offset ++ tail)) from h₂).skip
  have hlen := h₃.length
  have hlast : findLastOf '+'.toUInt8 str = some (e + 1 + name.length) := by
    have hsplit : str = (address ++ blank :: name) ++ '+'.toUInt8 :: (offset ++ tail) := by
      rw [hstr, List.append_assoc, List.cons_append]
    rw [hsplit, findLastOf_append _ hplus]
    rw [hsplit, List.length_append, List.length_cons] at hlen
    congr 1
    omega
  -- the first blank after the offset, if any, is the last byte of the text
  have hstop : (findFirstOf blank str (some (e + 1 + name.length))).getD (str.length - 1) =
      str.length - 1 := by
    rcases htail with rfl | rfl
    · rw [findFirstOf_none (by rw [h₂.rest, List.append_nil]; exact hoffset)]
      rfl
    · obtain ⟨stop, hfind, -, hend⟩ := h₂.findFirstOf hoffset
      rw [hfind, hend.length]
      rfl
  have hsub : substr str (e + 1 + name.length + 1) (str.length - 1 - (e + 1 + name.length) + 1) =
      .ok (offset ++ tail) := h₃.substr_rest (by omega)
  simp only [getSymbolFromString, hunknown, ne_eq, not_true_eq_false, if_false, hfind, hcut, haddr,
    after, hlast, h₁.cut, hstop, hsub, bind, Except.bind, pure, Except.pure]
  rfl

/-- What the text says about an end: a name with the mark in it counts as unknown. -/
def textSymbol (pl : Place) : Symbol :=
  if unknownSymbol <:+: pl.name then ⟨unknownSymbol, 0, 0⟩ else pl.symbol

/-- The offset is read as a signed number, unless the end counts as unknown. -/
def Readable (pl : Place) : Prop := unknownSymbol <:+: pl.name ∨ pl.offset.toNat < 2 ^ 63

instance (pl : Place) : Decidable (Readable pl) :=
  inferInstanceAs (Decidable (unknownSymbol <:+: pl.name ∨ pl.offset.toNat < 2 ^ 63))

lemma place_fields (address name offset tail : Str) :
    (address ++ blank :: (name ++ lit "+0x" ++ offset)) ++ tail =
      address ++ blank :: (name ++ '+'.toUInt8 :: ((lit "0x" ++ offset) ++ tail)) := by
  have hplus : lit "+0x" = '+'.toUInt8 :: lit "0x" := by decide
  simp only [hplus, List.append_assoc, List.cons_append]

lemma not_mem_offset {c : UInt8} (hc : c ∉ lit "0x") (hd : 16 ≤ digitValue c) (n : ℕ) :
    c ∉ lit "0x" ++ digits 16 n := by
  rw [List.mem_append, not_or]
  exact ⟨hc, not_mem_digits (by decide) le_rfl hd n⟩

lemma getSymbolFromString_named (symbols : SymbolMap) (addr : UInt64) {name tail : Str} (o : ℕ)
    (htail : tail = [] ∨ tail = [blank]) (hname : ¬ unknownSymbol <:+: name) :
    getSymbolFromString symbols
        ((digits 16 addr.toNat ++ blank :: (name ++ lit "+0x" ++ digits 16 o)) ++ tail) =
      if o < 2 ^ 63 then .ok (symbols.create addr (UInt32.ofInt o) name) else .error .outOfRange := by
  have hblanks : ∀ c ∈ tail, c = blank := by
    rcases htail with rfl | rfl <;> simp
  have hopen : '['.toUInt8 ∉ digits 16 addr.toNat ++ [blank] := by
    rw [List.mem_append, not_or]
    exact ⟨not_mem_digits (by decide) le_rfl (by decide) _, by decide⟩
  have hclose : ']'.toUInt8 ∉ '+'.toUInt8 :: ((lit "0x" ++ digits 16 o) ++ tail) := by
    rw [List.mem_cons, List.mem_append, not_or, not_or]
    exact ⟨by decide, not_mem_offset (by decide) (by decide) _,
      fun h => absurd (hblanks _ h) (by decide)⟩
  have hplus : '+'.toUInt8 ∉ (lit "0x" ++ digits 16 o) ++ tail := by
    rw [List.mem_append, not_or]
    exact ⟨not_mem_offset (by decide) (by decide) _, fun h => absurd (hblanks _ h) (by decide)⟩
  have hspace : blank ∉ '+'.toUInt8 :: (lit "0x" ++ digits 16 o) := by
    rw [List.mem_cons, not_or]
    exact ⟨by decide, not_mem_offset (by decide) (by decide) _⟩
  have hends : Ends 16 tail := by
    rcases htail with rfl | rfl <;> rfl
  have hstr := place_fields (digits 16 addr.toNat) name (digits 16 o) tail
  have hread := getSymbolFromString_fields symbols hstr
    (by rw [hstr, unknown_infix_iff hopen hclose]; exact hname)
    (not_mem_digits (by decide) le_rfl (by decide) _) hplus hspace htail (stoull_hex addr)
  have hzero : (lit "0x" ++ digits 16 o) ++ tail =
      '0'.toUInt8 :: 'x'.toUInt8 :: (digits 16 o ++ tail) :=
    List.append_assoc _ _ _
  rw [hread, hzero, stol_hex o hends]
  split <;> rfl

lemma getSymbolFromString_known {symbols : SymbolMap} {pl : Place} {tail : Str}
    (htail : tail = [] ∨ tail = [blank]) {sym : SymbolInfo} (hsym : pl.sym = some sym)
    (hname : ¬ unknownSymbol <:+: sym.name) :
    getSymbolFromString symbols (shownPlace pl ++ tail) =
      if pl.offset.toNat < 2 ^ 63 then
        .ok (symbols.create pl.address pl.offset.toUInt32 sym.name)
      else .error .outOfRange := by
  have hshown : fprintfSymnameOffs pl = sym.name ++ lit "+0x" ++ digits 16 pl.offset.toNat := by
    simp only [fprintfSymnameOffs, hsym]
  rw [shownPlace, hshown, getSymbolFromString_named symbols pl.address _ htail hname, ofInt_toUInt32]

lemma symnameOffs_name (pl : Place) : ∃ more, fprintfSymnameOffs pl = pl.name ++ more := by
  cases hsym : pl.sym with
  | none =>
    refine ⟨[], ?_⟩
    simp only [Place.name, fprintfSymnameOffs, hsym, List.append_nil]
  | some sym =>
    refine ⟨lit "+0x" ++ digits 16 pl.offset.toNat, ?_⟩
    simp only [Place.name, fprintfSymnameOffs, hsym, List.append_assoc]

lemma name_infix_shownPlace (pl : Place) : pl.name <:+: shownPlace pl := by
  obtain ⟨more, hmore⟩ := symnameOffs_name pl
  have hsplit : shownPlace pl = (digits 16 pl.address.toNat ++ [blank]) ++ pl.name ++ more := by
    rw [shownPlace, hmore, List.append_assoc, List.append_assoc, List.singleton_append]
  rw [hsplit]
  exact List.infix_append _ _ _

lemma getSymbolFromString_place (symbols : SymbolMap) (pl : Place) {tail : Str}
    (htail : tail = [] ∨ tail = [blank]) :
    getSymbolFromString symbols (shownPlace pl ++ tail) =
      if Readable pl then
        .ok (symbols.create (textSymbol pl).addr (textSymbol pl).offset (textSymbol pl).name)
      else .error .outOfRange := by
  by_cases hu : unknownSymbol <:+: pl.name
  · have hfind : find unknownSymbol (shownPlace pl ++ tail) (some 0) ≠ none := by
      rw [Ne, find_eq_none_iff, not_not]
      exact hu.trans ((name_infix_shownPlace pl).trans (List.prefix_append _ _).isInfix)
    have hread : Readable pl := Or.inl hu
    rw [if_pos hread, textSymbol, if_pos hu, getSymbolFromString, if_pos hfind]
    rfl
  · have hread : Readable pl ↔ pl.offset.toNat < 2 ^ 63 := or_iff_right hu
    simp only [hread, textSymbol, if_neg hu]
    cases hsym : pl.sym with
    | none =>
      have hname : pl.name = unknownSymbol := by simp only [Place.name, hsym]
      exact absurd (hname ▸ List.infix_rfl) hu
    | some sym =>
      have hname : pl.name = sym.name := by simp only [Place.name, hsym]
      have haddr : pl.lookupAddr = pl.address := by simp only [Place.lookupAddr, hsym]
      rw [hname] at hu
      rw [getSymbolFromString_known htail hsym hu, Place.symbol, hname, haddr]

lemma arrow_of_append_left {xs ys : Str} (hy : '>'.toUInt8 ∉ ys) (h : lit "=>" <:+: xs ++ ys) :
    lit "=>" <:+: xs := by
  have harrow : lit "=>" = ['='.toUInt8] ++ ['>'.toUInt8] := rfl
  rw [harrow] at h ⊢
  exact infix_of_append_left hy h

lemma arrow_of_append_right {xs ys : Str} (hx : '='.toUInt8 ∉ xs) (h : lit "=>" <:+: xs ++ ys) :
    lit "=>" <:+: ys := by
  have harrow : lit "=>" = '='.toUInt8 :: ['>'.toUInt8] := rfl
  rw [harrow] at h ⊢
  exact infix_of_append_right hx h

lemma readEnds_fields {symbols : SymbolMap} {line src dst : Str} {pos j k : ℕ}
    (h : At line pos (List.replicate k blank ++ (src ++ blank :: (lit "=>" ++
      (List.replicate j blank ++ dst)))))
    (hsrc : ∃ c t, src = c :: t ∧ c ≠ blank) (hdst : ∃ c t, dst = c :: t ∧ c ≠ blank)
    (harrow : ¬ lit "=>" <:+: src) :
    readEnds symbols line pos = (do
      let (symbols, s) ← getSymbolFromString symbols (src ++ [blank])
      let (symbols, d) ← getSymbolFromString symbols dst
      return (symbols, s, d)) := by
  obtain ⟨c, t, rfl, hc⟩ := hsrc
  obtain ⟨d, u, rfl, hd⟩ := hdst
  obtain ⟨p, hstart, h₁⟩ := h.findFirstNotOf hc
  have hsplit : At line p ((c :: t ++ [blank]) ++ (lit "=>" ++ (List.replicate j blank ++ d :: u))) := by
    rwa [List.append_assoc, List.singleton_append]
  have hno : ¬ lit "=>" <:+: (c :: t ++ [blank]) ++ (lit "=>").dropLast := by
    intro hin
    rw [List.append_assoc] at hin
    exact harrow (arrow_of_append_left (by decide) hin)
  obtain ⟨e, hfind, hcut, h₂⟩ := hsplit.find (by decide) hno
  obtain ⟨q, hstart', h₃⟩ := At.findFirstNotOf h₂ hd
  have hafter : after (some e) 2 = e + (lit "=>").length := rfl
  simp only [readEnds, hstart, hfind, hcut, hafter, hstart', h₃.cut_end, bind, Except.bind]

lemma SymbolMap.create_zero (a : UInt64) (o : UInt32) (n : Str) :
    SymbolMap.create 0 a o n = (TallyMap.set 0 a ⟨n, a, o⟩, ⟨n, a, o⟩) := rfl

lemma SymbolMap.create_create (s d : Symbol) :
    ((SymbolMap.create 0 s.addr s.offset s.name).1.create d.addr d.offset d.name).2 =
      if d.addr = s.addr then s else d := by
  rw [SymbolMap.create_zero, SymbolMap.create, TallyMap.lookup_set, TallyMap.lookup_zero]
  by_cases h : d.addr = s.addr
  · rw [if_pos h, if_pos h]
  · rw [if_neg h, if_neg h]

lemma length_of_cut {s t : Str} {p : ℕ} {stop : Option ℕ} (h : cut s (some p) stop = .ok t) :
    t.length ≤ s.length - p := by
  simp only [cut, substr] at h
  split at h
  · rw [← Except.ok.inj h, List.length_take, List.length_drop]
    exact Nat.min_le_right _ _
  · cases h

lemma getSymbolFromString_length {str address more : Str} {symbols : SymbolMap} {sym : Symbol}
    (hstr : str = address ++ blank :: more) (hspace : blank ∉ address)
    (h : getSymbolFromString 0 str = .ok (symbols, sym)) :
    sym.name = unknownSymbol ∨ sym.name.length ≤ more.length := by
  by_cases hu : find unknownSymbol str (some 0) ≠ none
  · rw [getSymbolFromString, if_pos hu, SymbolMap.create_zero] at h
    obtain ⟨-, rfl⟩ := Prod.mk.inj (Except.ok.inj h)
    exact Or.inl rfl
  · obtain ⟨e, hfind, -, h₁⟩ := (At.start hstr).findFirstOf hspace
    rw [getSymbolFromString, if_neg hu, hfind] at h
    obtain ⟨text, -, h⟩ := Runs.bind_eq_ok.mp h
    obtain ⟨a, -, h⟩ := Runs.bind_eq_ok.mp h
    obtain ⟨name, hname, h⟩ := Runs.bind_eq_ok.mp h
    obtain ⟨text, -, h⟩ := Runs.bind_eq_ok.mp h
    obtain ⟨o, -, h⟩ := Runs.bind_eq_ok.mp h
    rw [SymbolMap.create_zero] at h
    obtain ⟨-, rfl⟩ := Prod.mk.inj (Except.ok.inj h)
    have hle : name.length ≤ str.length - (e + 1) := length_of_cut hname
    have hlen := h₁.length
    right
    change name.length ≤ more.length
    omega

/-- An arrow in the name of the first end is taken for the one between the ends. -/
lemma readEnds_arrow {symbols : SymbolMap} {line address name more : Str} {pos k : ℕ} {s d : Symbol}
    (h : At line pos (List.replicate k blank ++ (address ++ blank :: (name ++ more))))
    (hstart : ∃ c t, address = c :: t ∧ c ≠ blank) (hspace : blank ∉ address)
    (hequal : '='.toUInt8 ∉ address ++ [blank]) (harrow : lit "=>" <:+: name)
    (hread : readEnds 0 line pos = .ok (symbols, s, d)) : s.name ≠ name := by
  obtain ⟨i, hi⟩ := Option.isSome_iff_exists.mp (memmem_isSome_iff.mpr harrow)
  obtain ⟨n₂, hn₂⟩ := memmem_occurs hi
  have hname : name = name.take i ++ (lit "=>" ++ n₂) := by rw [hn₂, List.take_append_drop]
  have hfirst : ¬ lit "=>" <:+: name.take i := by
    rw [← memmem_isSome_iff, memmem_take (by decide) hi]
    decide
  have hshort : (name.take i).length < name.length := by
    conv_rhs => rw [hname]
    rw [List.length_append, List.length_append]
    have harr : (lit "=>").length = 2 := by decide
    omega
  generalize name.take i = n₁ at hname hfirst hshort
  obtain ⟨c, t, haddr, hc⟩ := hstart
  have hcons : address ++ blank :: (name ++ more) = c :: (t ++ blank :: (name ++ more)) := by
    rw [haddr, List.cons_append]
  rw [hcons] at h
  obtain ⟨p, hp, h₁⟩ := h.findFirstNotOf hc
  have hsplit : At line p ((address ++ blank :: n₁) ++ (lit "=>" ++ (n₂ ++ more))) := by
    rw [← hcons, hname] at h₁
    simpa only [List.append_assoc, List.cons_append] using h₁
  have hno : ¬ lit "=>" <:+: (address ++ blank :: n₁) ++ (lit "=>").dropLast := by
    intro hin
    have hleft := arrow_of_append_left (by decide) hin
    rw [← List.singleton_append, ← List.append_assoc] at hleft
    exact hfirst (arrow_of_append_right hequal hleft)
  obtain ⟨e, hfind, hcut, -⟩ := hsplit.find (by decide) hno
  simp only [readEnds, hp, hfind, hcut] at hread
  obtain ⟨text, htext, hread⟩ := Runs.bind_eq_ok.mp hread
  obtain rfl := Except.ok.inj htext
  obtain ⟨⟨m, s'⟩, hs, hread⟩ := Runs.bind_eq_ok.mp hread
  obtain ⟨text, -, hread⟩ := Runs.bind_eq_ok.mp hread
  obtain ⟨⟨m', d'⟩, -, hread⟩ := Runs.bind_eq_ok.mp hread
  obtain ⟨-, rfl, -⟩ : symbols = m' ∧ s = s' ∧ d = d' := by
    simpa [eq_comm] using Except.ok.inj hread
  rintro heq
  rcases getSymbolFromString_length rfl hspace hs with hunknown | hle
  · rw [← heq, hunknown] at harrow
    exact absurd harrow (by decide)
  · rw [heq] at hle
    omega

end Ends

section Branch

lemma flags_fields (flags bts : Str) (h : flags.length = 21) :
    blank :: ((lit "  " ++ padRight 21 flags ++ lit " ") ++ bts) =
      List.replicate 3 blank ++ (flags ++ blank :: bts) := by
  have hpad : padRight 21 flags = flags := by simp [padRight, h]
  have htwo : lit "  " = [blank, blank] := by decide
  have hone : lit " " = [blank] := by decide
  simp only [hpad, htwo, hone, List.append_assoc, List.cons_append, List.nil_append,
    List.replicate_succ, List.replicate_zero]

lemma bts_fields (src dst : Str) (j k n : ℕ) :
    List.replicate n blank ++ blank :: (lit " " ++ (List.replicate k blank ++ src) ++ lit " => " ++
        (List.replicate j blank ++ dst)) =
      List.replicate (n + (k + 2)) blank ++ (src ++ blank :: (lit "=>" ++
        (List.replicate (j + 1) blank ++ dst))) := by
  have hone : lit " " = [blank] := by decide
  have harrow : lit " => " = blank :: (lit "=>" ++ [blank]) := by decide
  simp only [hone, harrow, List.append_assoc, List.cons_append, List.nil_append,
    List.replicate_add, List.replicate_succ]

lemma digits_head (n : ℕ) : ∃ c t, digits 16 n = c :: t ∧ c ≠ blank := by
  have hspace := not_mem_digits (b := 16) (c := blank) (by decide) le_rfl (by decide) n
  cases hd : digits 16 n with
  | nil => exact absurd hd (digits_ne_nil (by decide) _)
  | cons c t =>
    rw [hd, List.mem_cons, not_or] at hspace
    exact ⟨c, t, rfl, Ne.symm hspace.1⟩

lemma shownPlace_head (pl : Place) : ∃ c t, shownPlace pl = c :: t ∧ c ≠ blank := by
  obtain ⟨c, t, hcons, hc⟩ := digits_head pl.address.toNat
  refine ⟨c, t ++ blank :: fprintfSymnameOffs pl, ?_, hc⟩
  rw [shownPlace, hcons, List.cons_append]

variable (action : Action) (symbols : SymbolMap) (x : BranchEvent)

lemma createBranch_known {e : UInt32 × UInt8} (he : e ∈ sampleFlagsNew) (hx : x.flags = e.1) :
    ∃ pos j k, At (fprintfSample x) pos (List.replicate k blank ++ (shownPlace x.src ++ blank ::
        (lit "=>" ++ (List.replicate j blank ++ shownPlace x.dst)))) ∧
      createBranchFromString action symbols (fprintfSample x) =
        (readEnds symbols (fprintfSample x) pos).map fun ends =>
          ({ action with
            ptType := ptActionTypeBranch, tid := x.tid.toInt32, ts := x.time, type := .ofCode e.2
            fromSym := ends.2.1, toSym := ends.2.2 }, ends.1) := by
  obtain ⟨-, hlen, hhead, -⟩ := sprintfFlags_known e he
  have hline : fprintfSample x = fprintfStart x ++ (fprintfFlags x.flags ++ fprintfBts x) := by
    rw [fprintfSample, List.append_assoc]
  obtain ⟨pos, hstart, h₀⟩ := readStart_line x (fprintfFlags x.flags ++ fprintfBts x)
  rw [← hline] at hstart h₀
  rw [fprintfFlags, hx, flags_fields _ _ hlen] at h₀
  obtain ⟨p, hfind, h₁⟩ : ∃ p, findFirstNotOf blank (fprintfSample x) pos = some p ∧
      At (fprintfSample x) p (sprintfFlags e.1 ++ blank :: fprintfBts x) := by
    cases hflags : sprintfFlags e.1 with
    | nil => simp [hflags] at hlen
    | cons c t =>
      rw [hflags] at h₀ hhead
      have hc : c ≠ blank := by simpa using hhead
      exact h₀.findFirstNotOf hc
  obtain ⟨q, n, hmatch, h₂⟩ := matchType_known he h₁
  rw [fprintfBts, fprintfPlace_eq, fprintfPlace_eq, bts_fields] at h₂
  refine ⟨q, _, _, h₂, ?_⟩
  generalize fprintfSample x = line at hstart hfind hmatch
  simp only [createBranchFromString, hstart, hfind, hmatch, bind, Except.bind]
  cases readEnds symbols line q <;> rfl

lemma createBranch_code {action a : Action} {symbols m : SymbolMap} {line : Str}
    (h : createBranchFromString action symbols line = .ok (a, m)) :
    a.type.code < ptActionUnknownFlag := by
  obtain ⟨⟨tid, ts, pos⟩, -, h⟩ := Runs.bind_eq_ok.mp h
  obtain ⟨⟨type, pos'⟩, htype, h⟩ := Runs.bind_eq_ok.mp h
  obtain ⟨⟨m', src, dst⟩, -, h⟩ := Runs.bind_eq_ok.mp h
  obtain ⟨rfl, -⟩ := Prod.mk.inj (Except.ok.inj h)
  exact matchType_code htype

lemma not_error_of_number (k : ℕ) (i : ℤ) (more : Str) :
    (List.replicate k blank ++ (signed i ++ more)).take traceErrorStr.length ≠ traceErrorStr := by
  have hne : signed i ≠ [] := by simp [signed, digits_ne_nil (b := 10) (by decide)]
  have hblank := not_mem_signed (c := blank) (by decide) (by decide) i
  have hletter := not_mem_signed (c := 'i'.toUInt8) (by decide) (by decide) i
  have herror : traceErrorStr = blank :: 'i'.toUInt8 :: lit "nstruction trace error" := by decide
  generalize signed i = s at hne hblank hletter
  intro h
  have hpre : traceErrorStr <+: List.replicate k blank ++ (s ++ more) := by
    have htake := List.take_prefix traceErrorStr.length (List.replicate k blank ++ (s ++ more))
    rwa [h] at htake
  rw [herror] at hpre
  obtain ⟨c, t, rfl⟩ := List.exists_cons_of_ne_nil hne
  rw [List.mem_cons, not_or] at hblank hletter
  cases k with
  | zero => exact hblank.1 (List.cons_prefix_cons.mp hpre).1
  | succ k =>
    have hnext := (List.cons_prefix_cons.mp hpre).2
    cases k with
    | zero => exact hletter.1 (List.cons_prefix_cons.mp hnext).1
    | succ k => exact absurd (List.cons_prefix_cons.mp hnext).1 (by decide)

lemma fprintfSample_not_error :
    (fprintfSample x).take traceErrorStr.length ≠ traceErrorStr := by
  have hstart := start_fields (fprintfFlags x.flags ++ fprintfBts x)
    (padLeft 5 blank (signed x.tid.toInt32.toInt)) (signedZeros 3 x.cpu.toInt32.toInt)
    (padLeft 5 blank (digits 10 (secs x.time).toNat))
    (padLeft 9 '0'.toUInt8 (digits 10 (nsecs x.time).toNat))
  rw [← fprintfStart, ← List.append_assoc, ← fprintfSample, padLeft, List.append_assoc,
    List.append_assoc] at hstart
  rw [hstart]
  exact not_error_of_number _ _ _

lemma createActionFromString_branch :
    createActionFromString action symbols (fprintfSample x) =
      (createBranchFromString { action with isError := false, fromTarget := false, toTarget := false }
        symbols (fprintfSample x)).map fun r => (some r.1, r.2) := by
  rw [createActionFromString, if_neg (fprintfSample_not_error x)]
  generalize fprintfSample x = line
  cases createBranchFromString { action with isError := false, fromTarget := false, toTarget := false }
    symbols line <;> rfl

lemma equal_not_mem_address (pl : Place) : '='.toUInt8 ∉ digits 16 pl.address.toNat ++ [blank] := by
  rw [List.mem_append, not_or]
  exact ⟨not_mem_digits (by decide) le_rfl (by decide) _, by decide⟩

lemma arrow_infix_shownPlace {pl : Place} (h : lit "=>" <:+: shownPlace pl) :
    lit "=>" <:+: pl.name := by
  rw [shownPlace, ← List.singleton_append, ← List.append_assoc] at h
  have hsym := arrow_of_append_right (equal_not_mem_address pl) h
  cases hs : pl.sym with
  | none => simpa only [Place.name, fprintfSymnameOffs, hs] using hsym
  | some sym =>
    have hmore : '>'.toUInt8 ∉ lit "+0x" ++ digits 16 pl.offset.toNat := by
      rw [List.mem_append, not_or]
      exact ⟨by decide, not_mem_digits (by decide) le_rfl (by decide) _⟩
    simp only [Place.name, fprintfSymnameOffs, hs, List.append_assoc] at hsym ⊢
    exact arrow_of_append_left hmore hsym

lemma readEnds_shownPlace_arrow {pl : Place} {line more : Str} {pos k : ℕ} {m : SymbolMap}
    {s d : Symbol} (h : At line pos (List.replicate k blank ++ (shownPlace pl ++ more)))
    (harrow : lit "=>" <:+: pl.name) (hread : readEnds 0 line pos = .ok (m, s, d)) :
    s.name ≠ pl.name := by
  obtain ⟨rest, hrest⟩ := symnameOffs_name pl
  rw [shownPlace, hrest, List.append_assoc, List.cons_append, List.append_assoc] at h
  obtain ⟨c, t, hcons, hc⟩ := digits_head pl.address.toNat
  exact readEnds_arrow h ⟨c, t, hcons, hc⟩ (not_mem_digits (by decide) le_rfl (by decide) _)
    (equal_not_mem_address pl) harrow hread

/-- The second end keeps the symbol of the first one if the text gives them one address. -/
def textTo : Symbol :=
  if (textSymbol x.dst).addr = (textSymbol x.src).addr then textSymbol x.src else textSymbol x.dst

lemma readEnds_known {line : Str} {pos j k : ℕ}
    (h : At line pos (List.replicate k blank ++ (shownPlace x.src ++ blank :: (lit "=>" ++
      (List.replicate j blank ++ shownPlace x.dst))))) (harrow : ¬ lit "=>" <:+: x.src.name) :
    ∃ m, readEnds 0 line pos =
      if Readable x.src ∧ Readable x.dst then .ok (m, textSymbol x.src, textTo x)
      else .error .outOfRange := by
  rw [readEnds_fields h (shownPlace_head x.src) (shownPlace_head x.dst)
    (mt arrow_infix_shownPlace harrow), getSymbolFromString_place _ x.src (Or.inr rfl)]
  have hdst : ∀ m : SymbolMap, getSymbolFromString m (shownPlace x.dst) = if Readable x.dst then
      .ok (m.create (textSymbol x.dst).addr (textSymbol x.dst).offset (textSymbol x.dst).name)
      else .error .outOfRange := by
    intro m
    have hplace := getSymbolFromString_place m x.dst (Or.inl rfl)
    rwa [List.append_nil] at hplace
  by_cases hs : Readable x.src
  · by_cases hd : Readable x.dst
    · have hboth : Readable x.src ∧ Readable x.dst := ⟨hs, hd⟩
      have hto := SymbolMap.create_create (textSymbol x.src) (textSymbol x.dst)
      rw [← textTo] at hto
      simp only [if_pos hboth, if_pos hs, hdst, if_pos hd, ← hto, bind, Except.bind, pure,
        Except.pure]
      exact ⟨_, rfl⟩
    · have hboth : ¬ (Readable x.src ∧ Readable x.dst) := fun h => hd h.2
      refine ⟨0, ?_⟩
      simp only [if_neg hboth, if_pos hs, hdst, if_neg hd, bind, Except.bind]
  · have hboth : ¬ (Readable x.src ∧ Readable x.dst) := fun h => hs h.1
    refine ⟨0, ?_⟩
    simp only [if_neg hboth, if_neg hs, bind, Except.bind]

end Branch

end PtPerf.Script
