import PtPerf.Support.Text
import PtPerf.Trace.Decode

/-! The function filter on its way from `func_latency` to `perf script`: the option that
`get_script_filter` writes, the word that the shell makes of it, and the names that
`func_filter_init` finds in it. -/

namespace PtPerf.Filter

open PtPerf.Support PtPerf.Support.Text PtPerf.Trace

/-- What `get_script_filter` reads beside the parameters of the analysis. -/
structure ScriptParam extends Param where
  parallelScript : Bool
  flamegraph : Str
  binary : Str
  tid : Str
  perfDlfilter : Str

abbrev TimeInterval := UInt64 × UInt64

def comma : UInt8 := ','.toUInt8

def dot : UInt8 := '.'.toUInt8

def nsecsPerSecs : UInt64 := 1000000000

/-- `%d` of a 64-bit number prints its low half. -/
def intArg (n : UInt64) : ℤ := n.toUInt32.toInt32.toInt

def timeText (t : UInt64) : Str :=
  signed (intArg (t / nsecsPerSecs)) ++ dot :: signedZeros 9 (intArg (t % nsecsPerSecs))

def timeArg (ti : TimeInterval) : Str := timeText ti.1 ++ comma :: timeText ti.2

def timeFilter (ti : TimeInterval) : Str :=
  if ti.1 ≠ 0 ∨ ti.2 ≠ uint64Max then lit " --time=" ++ timeArg ti else []

section Writing

variable (p : ScriptParam)

def funcFilterOption : Str :=
  if p.target ≠ [] then
    lit " --func_filter=\"" ++ p.target ++ (if p.ancestor ≠ [] then lit "," ++ p.ancestor else []) ++
      lit "\""
  else []

/-- `hasDlfilter` is the answer of `access`. -/
def getScriptFilter (hasDlfilter : Bool) : Str :=
  (if p.parallelScript then
    (if !p.ipFiltering && p.flamegraph == [] then
      funcFilterOption p ++
        (if p.binary ≠ [] then lit " --opt_dso_name=\"" ++ p.binary ++ lit "\"" else [])
    else []) ++
    (if p.tid ≠ [] then lit " --tid=" ++ p.tid else [])
  else []) ++
  timeFilter p.timeInterval ++
  (if !p.codeBlock && hasDlfilter then lit " --dlfilter=" ++ p.perfDlfilter else [])

end Writing

section Reading

def doubleQuote : UInt8 := 0x22

/-- What the shell treats specially also inside double quotes: the end of the text, the dollar sign,
the backquote and the backslash. -/
def shellExpansion : Str := [0, 0x24, 0x60, 0x5C]

def shellOperators : Str := lit "|&;<>()'*?[#~\n\t"

/-- The first word of a command line, as far as the shell only joins its parts. -/
def shellWord (quoted : Bool) : Str → Option Str
  | [] => if quoted then none else some []
  | c :: rest =>
    if c = doubleQuote then shellWord (!quoted) rest
    else if c ∈ shellExpansion then none
    else if !quoted && c ∈ shellOperators then none
    else if !quoted && c = ' '.toUInt8 then some []
    else (shellWord quoted rest).map (c :: ·)

/-- The value of `--name=value`. -/
def optString (name word : Str) : Option Str :=
  if (lit "--" ++ name ++ lit "=").isPrefixOf word then some (word.drop (name.length + 3)) else none

/-- The loop of `func_filter_init`: the text with its separators overwritten, and where the names
after them start. A separator at the end of the text stays. -/
def splitFilter : Str → Str × List ℕ
  | [] => ([], [])
  | c :: rest =>
    let r := splitFilter rest
    if c = comma ∧ rest ≠ [] then (0 :: r.1, 1 :: r.2.map (· + 1))
    else (c :: r.1, r.2.map (· + 1))

def cString (s : Str) : Str := s.takeWhile (· != 0)

def maxFilterSymbol : ℕ := 1024

/-- The names of the filter; there is room for 1024 of them. -/
def funcFilterInit (funcFilterStr : Str) : Option (List Str) :=
  if funcFilterStr = [] then some []
  else
    let r := splitFilter funcFilterStr
    let names := (0 :: r.2).map fun start => cString (r.1.drop start)
    if names.length ≤ maxFilterSymbol then some names else none

def funcFilterMatch (funcFilter : List Str) (name : Str) : Bool := funcFilter.any (name == ·)

/-- The names that `perf script` works with. -/
def handedOver (hasDlfilter : Bool) (p : ScriptParam) : Option (List Str) := do
  let word ← shellWord false ((getScriptFilter p hasDlfilter).dropWhile (· == ' '.toUInt8))
  let value ← optString (lit "func_filter") word
  funcFilterInit value

end Reading

def pieces : Str → List Str
  | [] => [[]]
  | c :: rest =>
    if c = comma ∧ rest ≠ [] then [] :: pieces rest
    else (pieces rest).modifyHead (c :: ·)

section Pieces

variable {s t : Str}

lemma splitFilter_pieces (h0 : 0 ∉ s) :
    ((0 :: (splitFilter s).2).map fun start => cString ((splitFilter s).1.drop start)) = pieces s := by
  induction s with
  | nil => rfl
  | cons c rest ih =>
    have hc : c ≠ 0 := fun h => h0 (by simp [h])
    specialize ih fun h => h0 (by simp [h])
    rw [List.map_cons] at ih
    rw [splitFilter, pieces]
    split
    · simp only [List.map_cons, List.map_map, Function.comp_def, List.drop_succ_cons, List.drop_zero, ← ih]
      simp [cString]
    · simp only [List.map_cons, List.map_map, Function.comp_def, List.drop_succ_cons, List.drop_zero, ← ih,
        List.modifyHead_cons]
      simp [cString, hc]

lemma length_pieces (s : Str) : (pieces s).length = s.dropLast.count comma + 1 := by
  induction s with
  | nil => rfl
  | cons c rest ih =>
    rw [pieces]
    cases rest with
    | nil => simp [pieces]
    | cons d rest =>
      rw [List.dropLast_cons_of_ne_nil (by simp), List.count_cons]
      by_cases hc : c = comma
      · simp [hc, ih]
      · simp [hc, ih]

lemma pieces_eq_singleton (h : comma ∉ s.dropLast) : pieces s = [s] := by
  induction s with
  | nil => rfl
  | cons c rest ih =>
    cases rest with
    | nil => simp [pieces]
    | cons d rest =>
      rw [List.dropLast_cons_of_ne_nil (by simp), List.mem_cons, not_or] at h
      rw [pieces, if_neg (fun hc => h.1 hc.1.symm), ih h.2, List.modifyHead_cons]

lemma pieces_append (hs : comma ∉ s) (ht : t ≠ []) :
    pieces (s ++ comma :: t) = s :: pieces t := by
  induction s with
  | nil => rw [List.nil_append, pieces, if_pos ⟨rfl, ht⟩]
  | cons c s ih =>
    rw [List.mem_cons, not_or] at hs
    rw [List.cons_append, pieces, if_neg (fun hc => hs.1 hc.1.symm), ih hs.2, List.modifyHead_cons]

lemma pieces_eq_singleton_iff : pieces s = [s] ↔ comma ∉ s.dropLast := by
  refine ⟨fun h => ?_, pieces_eq_singleton⟩
  have hlen := length_pieces s
  rw [h, List.length_singleton] at hlen
  exact List.count_eq_zero.mp (by omega)

lemma pieces_eq_pair_iff (ht : t ≠ []) :
    pieces (s ++ comma :: t) = [s, t] ↔ comma ∉ s ∧ comma ∉ t.dropLast := by
  constructor
  · intro h
    have hlen := length_pieces (s ++ comma :: t)
    rw [h, List.dropLast_append_of_ne_nil (by simp), List.dropLast_cons_of_ne_nil ht, List.count_append,
      List.count_cons_self] at hlen
    simp only [List.length_cons, List.length_nil] at hlen
    exact ⟨List.count_eq_zero.mp (by omega), List.count_eq_zero.mp (by omega)⟩
  · rintro ⟨hs, ht'⟩
    rw [pieces_append hs ht, pieces_eq_singleton ht']

end Pieces

section Shell

variable {s t : Str}

/-- A text that keeps its meaning between double quotes. -/
def Quotable (s : Str) : Prop := ∀ c ∈ s, c ≠ doubleQuote ∧ c ∉ shellExpansion

instance (s : Str) : Decidable (Quotable s) := decidable_of_iff _ List.forall_iff_forall_mem

lemma shellWord_quoted (hs : Quotable s) (t : Str) :
    shellWord true (s ++ doubleQuote :: t) = (shellWord false t).map (s ++ ·) := by
  induction s with
  | nil =>
    rw [List.nil_append, shellWord, if_pos rfl]
    simp
  | cons c s ih =>
    obtain ⟨hquote, hexp⟩ := hs c (by simp)
    rw [List.cons_append, shellWord, if_neg hquote, if_neg hexp, if_neg (by simp), if_neg (by simp),
      ih fun d hd => hs d (by simp [hd]), Option.map_map]
    rfl

lemma shellWord_bare (hs : Quotable s) (hplain : ∀ c ∈ s, c ∉ shellOperators ∧ c ≠ ' '.toUInt8) (t : Str) :
    shellWord false (s ++ t) = (shellWord false t).map (s ++ ·) := by
  induction s with
  | nil => simp
  | cons c s ih =>
    obtain ⟨hquote, hexp⟩ := hs c (by simp)
    obtain ⟨hop, hblank⟩ := hplain c (by simp)
    rw [List.cons_append, shellWord, if_neg hquote, if_neg hexp, if_neg (by simp [hop]),
      if_neg (by simpa using hblank), ih (fun d hd => hs d (by simp [hd])) fun d hd => hplain d (by simp [hd]),
      Option.map_map]
    rfl

def Spaced (s : Str) : Prop := s = [] ∨ ∃ t, s = ' '.toUInt8 :: t

lemma Spaced.append (hs : Spaced s) (ht : Spaced t) : Spaced (s ++ t) := by
  rcases hs with rfl | ⟨u, rfl⟩
  · exact ht
  · exact Or.inr ⟨u ++ t, rfl⟩

lemma spaced_ite {c : Prop} [Decidable c] (hs : Spaced s) : Spaced (if c then s else []) := by
  split
  · exact hs
  · exact Or.inl rfl

lemma shellWord_spaced (hs : Spaced s) : shellWord false s = some [] := by
  rcases hs with rfl | ⟨t, rfl⟩
  · rfl
  · rw [shellWord, if_neg (by decide), if_neg (by decide), if_neg (by decide), if_pos (by decide)]

end Shell

section HandOver

variable {p : ScriptParam}

/-- The options for which `get_script_filter` writes a function filter. -/
structure WritesFilter (p : ScriptParam) : Prop where
  parallelScript : p.parallelScript = true
  ipFiltering : p.ipFiltering = false
  flamegraph : p.flamegraph = []

def filterText (p : ScriptParam) : Str :=
  p.target ++ if p.ancestor ≠ [] then lit "," ++ p.ancestor else []

def wanted (p : ScriptParam) : List Str :=
  if p.ancestor = [] then [p.target] else [p.target, p.ancestor]

/-- No separator inside the names: one may only be the last character of the whole text. -/
def Separable (p : ScriptParam) : Prop :=
  if p.ancestor = [] then comma ∉ p.target.dropLast
  else comma ∉ p.target ∧ comma ∉ p.ancestor.dropLast

lemma getScriptFilter_eq (h : WritesFilter p) (htarget : p.target ≠ []) (hasDlfilter : Bool) :
    ∃ t, Spaced t ∧ getScriptFilter p hasDlfilter =
      ' '.toUInt8 :: (lit "--func_filter=" ++ doubleQuote :: (filterText p ++ doubleQuote :: t)) := by
  have hopen : lit " --func_filter=\"" = ' '.toUInt8 :: (lit "--func_filter=" ++ [doubleQuote]) := by decide
  have hclose : lit "\"" = [doubleQuote] := by decide
  refine ⟨(if p.binary ≠ [] then lit " --opt_dso_name=\"" ++ p.binary ++ lit "\"" else []) ++
    ((if p.tid ≠ [] then lit " --tid=" ++ p.tid else []) ++ (timeFilter p.timeInterval ++
      (if !p.codeBlock && hasDlfilter then lit " --dlfilter=" ++ p.perfDlfilter else []))), ?_, ?_⟩
  · have hbinary : Spaced (lit " --opt_dso_name=\"" ++ p.binary ++ lit "\"") := Or.inr ⟨_, rfl⟩
    have htid : Spaced (lit " --tid=" ++ p.tid) := Or.inr ⟨_, rfl⟩
    have htime : Spaced (timeFilter p.timeInterval) := spaced_ite (Or.inr ⟨_, rfl⟩)
    have hdl : Spaced (lit " --dlfilter=" ++ p.perfDlfilter) := Or.inr ⟨_, rfl⟩
    exact (spaced_ite hbinary).append ((spaced_ite htid).append (htime.append (spaced_ite hdl)))
  · rw [getScriptFilter, if_pos h.parallelScript, if_pos (by simp [h.ipFiltering, h.flamegraph]),
      funcFilterOption, if_pos htarget, hopen, hclose, filterText]
    simp only [List.append_assoc, List.cons_append, List.nil_append]

lemma quotable_filterText (hp : Quotable (p.target ++ p.ancestor)) : Quotable (filterText p) := by
  intro c hc
  rw [filterText, List.mem_append] at hc
  rcases hc with hc | hc
  · exact hp c (List.mem_append_left _ hc)
  · split at hc
    · rw [List.mem_append] at hc
      rcases hc with hc | hc
      · rw [List.mem_singleton.mp hc]
        decide
      · exact hp c (List.mem_append_right _ hc)
    · exact absurd hc List.not_mem_nil

lemma handedOver_eq (h : WritesFilter p) (htarget : p.target ≠ [])
    (hp : Quotable (p.target ++ p.ancestor)) (hasDlfilter : Bool) :
    handedOver hasDlfilter p = funcFilterInit (filterText p) := by
  obtain ⟨t, ht, htext⟩ := getScriptFilter_eq h htarget hasDlfilter
  have hname : Quotable (lit "--func_filter=") := by decide
  have hplain : ∀ c ∈ lit "--func_filter=", c ∉ shellOperators ∧ c ≠ ' '.toUInt8 := by
    rw [← List.forall_iff_forall_mem]
    decide
  have hword : shellWord false (lit "--func_filter=" ++ doubleQuote :: (filterText p ++ doubleQuote :: t)) =
      some (lit "--func_filter=" ++ filterText p) := by
    rw [shellWord_bare hname hplain, shellWord, if_pos rfl, Bool.not_false,
      shellWord_quoted (quotable_filterText hp), shellWord_spaced ht]
    simp
  have hblank : (getScriptFilter p hasDlfilter).dropWhile (· == ' '.toUInt8) =
      lit "--func_filter=" ++ doubleQuote :: (filterText p ++ doubleQuote :: t) := by
    rw [htext]
    rfl
  have hvalue : optString (lit "func_filter") (lit "--func_filter=" ++ filterText p) =
      some (filterText p) := by
    rw [optString, if_pos]
    · rfl
    · exact List.isPrefixOf_iff_prefix.mpr (List.prefix_append _ _)
  simp only [handedOver, hblank, hword, Option.bind_eq_bind, Option.bind_some, hvalue]

lemma pieces_filterText_iff (p : ScriptParam) : pieces (filterText p) = wanted p ↔ Separable p := by
  rw [filterText, wanted, Separable]
  by_cases ha : p.ancestor = []
  · simp only [ha, if_true, ne_eq, not_true_eq_false, if_false, List.append_nil]
    exact pieces_eq_singleton_iff
  · simp only [ha, if_false, ne_eq, not_false_eq_true, if_true]
    exact pieces_eq_pair_iff ha

lemma funcFilterInit_eq_wanted_iff (htarget : p.target ≠ []) (hp : Quotable (p.target ++ p.ancestor)) :
    funcFilterInit (filterText p) = some (wanted p) ↔ Separable p := by
  have hne : filterText p ≠ [] := by
    rw [filterText]
    simp [htarget]
  have h0 : 0 ∉ filterText p := fun h => (quotable_filterText hp 0 h).2 (by decide)
  rw [← pieces_filterText_iff p, funcFilterInit, if_neg hne]
  simp only [splitFilter_pieces h0]
  constructor
  · intro h
    split at h
    · exact Option.some.inj h
    · cases h
  · intro h
    rw [h, if_pos]
    rw [wanted]
    split <;> simp [maxFilterSymbol]

lemma funcFilterMatch_wanted (p : ScriptParam) (s : Str) :
    funcFilterMatch (wanted p) s = true ↔ s = p.target ∨ p.ancestor ≠ [] ∧ s = p.ancestor := by
  rw [funcFilterMatch, wanted]
  by_cases ha : p.ancestor = [] <;> simp [ha]

end HandOver

theorem func_filter_handed_over_iff (p : ScriptParam) (hasDlfilter : Bool) (h : WritesFilter p)
    (htarget : p.target ≠ []) (hp : Quotable (p.target ++ p.ancestor)) :
    (∃ names, handedOver hasDlfilter p = some names ∧ names = wanted p ∧
      ∀ s, funcFilterMatch names s = true ↔ s = p.target ∨ p.ancestor ≠ [] ∧ s = p.ancestor) ↔
      Separable p := by
  rw [handedOver_eq h htarget hp, ← funcFilterInit_eq_wanted_iff htarget hp]
  constructor
  · rintro ⟨names, hnames, rfl, -⟩
    exact hnames
  · intro hnames
    exact ⟨wanted p, hnames, rfl, funcFilterMatch_wanted p⟩

namespace Sample

def scriptParam (target ancestor : Str) : ScriptParam :=
  { Param.default target with
    ancestor := ancestor, parallelScript := true, flamegraph := [], binary := lit "/bin/prog", tid := []
    perfDlfilter := [] }

end Sample

theorem plain_names_handed_over :
    ∃ names, handedOver true (Sample.scriptParam (lit "f") (lit "main")) = some names ∧
      names = [lit "f", lit "main"] ∧
      ∀ s, funcFilterMatch names s = true ↔ s = lit "f" ∨ lit "main" ≠ [] ∧ s = lit "main" :=
  (func_filter_handed_over_iff (Sample.scriptParam (lit "f") (lit "main")) true ⟨rfl, rfl, rfl⟩
    (by decide) (by decide)).mpr (by unfold Separable; decide)

theorem parameter_list_split :
    handedOver false (Sample.scriptParam (lit "sum(int, int)") []) = some [lit "sum(int", lit " int)"] ∧
      funcFilterMatch [lit "sum(int", lit " int)"] (lit "sum(int, int)") = false := by
  decide +kernel

end PtPerf.Filter
