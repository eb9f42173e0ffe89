import PtPerf.Support.Runs
import PtPerf.Support.Text
import PtPerf.Stats.FuncStat

/-! The names under which children and callers are kept, and what the report reads back from
them (`pt_action.h`, `stat_tools.cc`). -/

namespace PtPerf.Stats

open PtPerf.Support PtPerf.Support.Text PtPerf.Trace

def funcnameGetAddr (name : Str) : Except Failure UInt64 :=
  match findLastOf '!'.toUInt8 name with
  | none => .ok 0
  | some sep =>
    if sep = name.length - 1 then .ok 0
    else do
      let digits ← substr name (sep + 1) (name.length - sep + 1)
      stoull 10 digits

def funcnameGetName (name : Str) : Str :=
  match findLastOf '!'.toUInt8 name with
  | none => name
  | some sep => name.take sep

/-- The key function of `FuncStat::print_child`. -/
def printChildKey (name : Str) : Str :=
  if (find unknownLatencyStr name (some 0)).isSome then
    funcnameGetName (name.drop unknownLatencyStr.length)
  else funcnameGetName name

/-- The caller in the titles of `FuncStat::print`, without its source line. -/
def printCaller (opt : StatOption) (name : Str) : Str :=
  if opt.callLine then funcnameGetName name else name

/-- The `addr_map` of a `SrclineMap`. -/
abbrev SrclineMap := TallyMap Str UInt64

def SrclineMap.put (m : SrclineMap) (name : Str) (addr : UInt64) : SrclineMap :=
  if (m.lookup name).isSome then m else m.set name addr

def addAddrFromFuncname (m : SrclineMap) (name : Str) : Except Failure SrclineMap :=
  if (find gatherCallLine name (some 0)).isSome then .ok m
  else do
    let addr ← funcnameGetAddr name
    return if addr > 0 then m.put name addr else m

/-- The loops of `FuncStat::generate_srcline`, which visit the names in some order. -/
def generateSrcline (m : SrclineMap) (names : List Str) : Except Failure SrclineMap :=
  names.foldlM addAddrFromFuncname m

/-- What `generate_srcline` gets from `funcname_get_addr`, 0 where it does not call it. -/
def addrFromFuncname (name : Str) : Except Failure UInt64 :=
  if (find gatherCallLine name (some 0)).isSome then .ok 0 else funcnameGetAddr name

lemma addAddrFromFuncname_eq (m : SrclineMap) (name : Str) :
    addAddrFromFuncname m name =
      (addrFromFuncname name).map fun addr => if addr > 0 then m.put name addr else m := by
  rw [addAddrFromFuncname, addrFromFuncname]
  split
  · rfl
  · cases funcnameGetAddr name <;> rfl

lemma SrclineMap.lookup_put (m : SrclineMap) (name k : Str) (addr : UInt64) :
    (m.put name addr).lookup k = (m.lookup k).or (if k = name then some addr else none) := by
  rw [SrclineMap.put]
  by_cases hk : k = name
  · subst k
    cases hm : m.lookup name with
    | none => simp [TallyMap.lookup_set]
    | some b => simp [hm]
  · rw [if_neg hk, Option.or_none]
    split
    · rfl
    · rw [TallyMap.lookup_set, if_neg hk]

lemma generateSrcline_eq_ok {names : List Str} {addr : Str → UInt64}
    (h : ∀ k ∈ names, addrFromFuncname k = .ok (addr k)) (m : SrclineMap) :
    ∃ m', generateSrcline m names = .ok m' ∧ ∀ k,
      m'.lookup k = (m.lookup k).or (if k ∈ names ∧ addr k > 0 then some (addr k) else none) := by
  induction names generalizing m with
  | nil => exact ⟨m, rfl, fun k => by simp⟩
  | cons name names ih =>
    rw [List.forall_mem_cons] at h
    obtain ⟨m', hm', hlookup⟩ := ih h.2 (if addr name > 0 then m.put name (addr name) else m)
    refine ⟨m', ?_, fun k => ?_⟩
    · rw [generateSrcline, List.foldlM_cons, addAddrFromFuncname_eq, h.1]
      exact hm'
    · rw [hlookup k]
      by_cases hpos : addr name > 0
      · rw [if_pos hpos, SrclineMap.lookup_put, Option.or_assoc]
        by_cases hk : k = name
        · subst k
          simp [hpos]
        · simp [hk]
      · rw [if_neg hpos]
        by_cases hk : k = name
        · subst k
          simp [hpos]
        · simp [hk]

/-- What may follow a function's name in a key. -/
inductive Mark
  | none
  | address (addr : UInt64)
  | gathered
  deriving DecidableEq

namespace Mark

def text : Mark → Str
  | none => []
  | address a => '!'.toUInt8 :: decimal a.toNat
  | gathered => '!'.toUInt8 :: gatherCallLine

def addr : Mark → UInt64
  | address a => a
  | _ => 0

end Mark

lemma funcnameAddAddr_eq (name : Str) (a : UInt64) :
    funcnameAddAddr name a = name ++ (Mark.address a).text := by
  rw [funcnameAddAddr, show lit "!" = ['!'.toUInt8] by decide]
  rfl

lemma funcnameAddStringMark_eq (name : Str) :
    funcnameAddStringMark name gatherCallLine = name ++ Mark.gathered.text := by
  rw [funcnameAddStringMark, show lit "!" = ['!'.toUInt8] by decide]
  rfl

/-- The key of a function; that of an unfinished child begins with a text of its own. -/
def keyText (unfinished : Bool) (name : Str) (mark : Mark) : Str :=
  (if unfinished then unknownLatencyStr else []) ++ (name ++ mark.text)

@[simp] lemma keyText_false (name : Str) (mark : Mark) :
    keyText false name mark = name ++ mark.text := rfl

@[simp] lemma keyText_true (name : Str) (mark : Mark) :
    keyText true name mark = unknownLatencyStr ++ (name ++ mark.text) := rfl

section Names

variable {s t : Str}

lemma funcnameGetName_append (h : '!'.toUInt8 ∉ t) : funcnameGetName (s ++ '!'.toUInt8 :: t) = s := by
  rw [funcnameGetName, findLastOf_append s h]
  exact List.take_left

lemma funcnameGetName_plain (h : '!'.toUInt8 ∉ s) : funcnameGetName s = s := by
  rw [funcnameGetName, findLastOf_eq_none_iff.mpr h]

lemma exists_last_mark (h : '!'.toUInt8 ∈ s) :
    ∃ u t, s = u ++ '!'.toUInt8 :: t ∧ '!'.toUInt8 ∉ t := by
  obtain ⟨t, u, hrev, ht⟩ := List.eq_append_cons_of_mem (List.mem_reverse.mpr h)
  refine ⟨u.reverse, t.reverse, ?_, by simpa using ht⟩
  rw [← List.reverse_reverse s, hrev]
  simp

lemma funcnameGetName_eq_self_iff : funcnameGetName s = s ↔ '!'.toUInt8 ∉ s := by
  refine ⟨fun h hmem => ?_, funcnameGetName_plain⟩
  obtain ⟨u, t, rfl, ht⟩ := exists_last_mark hmem
  rw [funcnameGetName_append ht] at h
  simpa using congrArg List.length h

lemma length_funcnameGetName_le (s : Str) : (funcnameGetName s).length ≤ s.length := by
  rw [funcnameGetName]
  split
  · exact le_rfl
  · exact List.length_take_le' _ _

lemma funcnameGetAddr_plain (h : '!'.toUInt8 ∉ s) : funcnameGetAddr s = .ok 0 := by
  rw [funcnameGetAddr, findLastOf_eq_none_iff.mpr h]

lemma funcnameGetAddr_append (s : Str) (a : UInt64) :
    funcnameGetAddr (s ++ '!'.toUInt8 :: decimal a.toNat) = .ok a := by
  have hno : '!'.toUInt8 ∉ decimal a.toNat := not_mem_digits (by decide) (by decide) (by decide) _
  have hlen : 0 < (decimal a.toNat).length := List.length_pos_iff.mpr (digits_ne_nil (by decide) _)
  have hat : At (s ++ '!'.toUInt8 :: decimal a.toNat) (s.length + 1) (decimal a.toNat) := by
    have hstart : At (s ++ '!'.toUInt8 :: decimal a.toNat) 0
        ((s ++ ['!'.toUInt8]) ++ decimal a.toNat) := .start (by simp)
    simpa using hstart.skip
  have hsep : ¬ s.length = (s ++ '!'.toUInt8 :: decimal a.toNat).length - 1 := by
    rw [hat.length]
    omega
  have hdigits := hat.substr_rest (k := (s ++ '!'.toUInt8 :: decimal a.toNat).length - s.length + 1)
    (by rw [hat.length]; omega)
  rw [funcnameGetAddr, findLastOf_append s hno]
  simp only [if_neg hsep, hdigits, Runs.ok_bind]
  exact stoull_dec a

end Names

section Keys

variable {unfinished : Bool} {name : Str} {mark : Mark}

lemma Mark.text_of_ne_none (h : mark ≠ .none) :
    ∃ t, mark.text = '!'.toUInt8 :: t ∧ '!'.toUInt8 ∉ t ∧ ¬ unknownLatencyStr <:+: t ∧
      (mark ≠ .gathered → ¬ gatherCallLine <:+: t) := by
  have hdigit : ∀ {c : UInt8} (n : ℕ), 10 ≤ digitValue c → c ∉ decimal n :=
    fun n hc => not_mem_digits (by decide) (by decide) hc n
  cases mark with
  | none => exact absurd rfl h
  | address a =>
    refine ⟨decimal a.toNat, rfl, hdigit _ (by decide), ?_, fun _ => ?_⟩
    · exact not_infix_of_not_mem (c := '('.toUInt8) (by decide) (hdigit _ (by decide))
    · exact not_infix_of_not_mem (c := '['.toUInt8) (by decide) (hdigit _ (by decide))
  | gathered => exact ⟨gatherCallLine, rfl, by decide, by decide, fun h => absurd rfl h⟩

lemma unknownLatencyStr_infix_iff :
    unknownLatencyStr <:+: name ++ mark.text ↔ unknownLatencyStr <:+: name := by
  by_cases h : mark = .none
  · rw [h, Mark.text, List.append_nil]
  · obtain ⟨t, htext, -, ht, -⟩ := Mark.text_of_ne_none h
    rw [htext, infix_append_cons_iff (by decide)]
    exact or_iff_left ht

lemma gatherCallLine_infix_iff (h : mark ≠ .gathered) :
    gatherCallLine <:+: keyText unfinished name mark ↔ gatherCallLine <:+: name := by
  have hname : gatherCallLine <:+: name ++ mark.text ↔ gatherCallLine <:+: name := by
    by_cases hnone : mark = .none
    · rw [hnone, Mark.text, List.append_nil]
    · obtain ⟨t, htext, -, -, ht⟩ := Mark.text_of_ne_none hnone
      rw [htext, infix_append_cons_iff (by decide)]
      exact or_iff_left (ht h)
  cases unfinished with
  | false => exact hname
  | true =>
    -- the text in front ends with a blank, which the mark does not hold
    have hblank : unknownLatencyStr = lit "(unknown latency)" ++ [' '.toUInt8] := by decide
    rw [keyText_true, hblank, List.append_assoc, List.singleton_append,
      infix_append_cons_iff (by decide), hname]
    exact or_iff_right (by decide)

lemma funcnameGetName_mark_iff :
    funcnameGetName (name ++ mark.text) = name ↔ (mark = .none → '!'.toUInt8 ∉ name) := by
  by_cases h : mark = .none
  · rw [h, Mark.text, List.append_nil, funcnameGetName_eq_self_iff]
    simp
  · obtain ⟨t, htext, ht, -, -⟩ := Mark.text_of_ne_none h
    rw [htext, funcnameGetName_append ht]
    exact iff_of_true rfl fun hnone => absurd hnone h

/-- The beginning that the report takes for the other text is missing from what it shows. -/
lemma printChildKey_ne_name (h : unknownLatencyStr <:+: name) :
    printChildKey (name ++ mark.text) ≠ name := by
  have hfind : (find unknownLatencyStr (name ++ mark.text) (some 0)).isSome :=
    find_isSome_iff.mpr (unknownLatencyStr_infix_iff.mpr h)
  have hlen := h.length_le
  have hpos : 0 < unknownLatencyStr.length := by decide
  have hdrop : (name ++ mark.text).drop unknownLatencyStr.length =
      name.drop unknownLatencyStr.length ++ mark.text := List.drop_append_of_le_length hlen
  rw [printChildKey, if_pos hfind, hdrop]
  intro hshown
  by_cases hmark : mark = .none
  · rw [hmark, Mark.text, List.append_nil] at hshown
    have hle := length_funcnameGetName_le (name.drop unknownLatencyStr.length)
    rw [hshown, List.length_drop] at hle
    omega
  · rw [funcnameGetName_mark_iff.mpr fun hnone => absurd hnone hmark] at hshown
    have hle := congrArg List.length hshown
    rw [List.length_drop] at hle
    omega

lemma printChildKey_keyText_iff :
    printChildKey (keyText unfinished name mark) = name ↔
      (unfinished = false → ¬ unknownLatencyStr <:+: name) ∧ (mark = .none → '!'.toUInt8 ∉ name) := by
  cases unfinished with
  | true =>
    have hfind : (find unknownLatencyStr (keyText true name mark) (some 0)).isSome :=
      find_isSome_iff.mpr (List.prefix_append _ _).isInfix
    have hdrop : (keyText true name mark).drop unknownLatencyStr.length = name ++ mark.text := by
      rw [keyText_true, List.drop_left]
    rw [printChildKey, if_pos hfind, hdrop, funcnameGetName_mark_iff]
    simp
  | false =>
    by_cases hin : unknownLatencyStr <:+: name
    · exact iff_of_false (printChildKey_ne_name hin) fun h => h.1 rfl hin
    · have hfind : ¬ (find unknownLatencyStr (name ++ mark.text) (some 0)).isSome :=
        mt (find_isSome_iff.trans unknownLatencyStr_infix_iff).mp hin
      rw [printChildKey, keyText_false, if_neg hfind, funcnameGetName_mark_iff]
      exact (and_iff_right fun _ => hin).symm

lemma addrFromFuncname_keyText_iff (hplain : mark = .none → '!'.toUInt8 ∉ name) :
    addrFromFuncname (keyText unfinished name mark) = .ok mark.addr ↔
      (mark.addr ≠ 0 → ¬ gatherCallLine <:+: name) := by
  rw [addrFromFuncname]
  by_cases hgathered : mark = .gathered
  · have hfind : (find gatherCallLine (keyText unfinished name mark) (some 0)).isSome := by
      rw [find_isSome_iff, hgathered, keyText, ← List.append_assoc]
      exact (List.suffix_cons _ _).isInfix.trans (List.suffix_append _ _).isInfix
    rw [if_pos hfind, hgathered]
    simp [Mark.addr]
  · have hfind : (find gatherCallLine (keyText unfinished name mark) (some 0)).isSome ↔
        gatherCallLine <:+: name := find_isSome_iff.trans (gatherCallLine_infix_iff hgathered)
    by_cases hin : gatherCallLine <:+: name
    · rw [if_pos (hfind.mpr hin)]
      simp [hin, eq_comm]
    · rw [if_neg (mt hfind.mp hin)]
      refine iff_of_true ?_ fun _ => hin
      cases mark with
      | gathered => exact absurd rfl hgathered
      | address a =>
        rw [keyText, ← List.append_assoc]
        exact funcnameGetAddr_append _ a
      | none =>
        apply funcnameGetAddr_plain
        rw [keyText, Mark.text, List.append_nil, List.mem_append, not_or]
        refine ⟨?_, hplain rfl⟩
        cases unfinished <;> decide

lemma Mark.text_injective : Function.Injective Mark.text := by
  have hbracket : ∀ a : UInt64, Mark.text (.address a) ≠ Mark.text .gathered := by
    intro a h
    have hmem : '['.toUInt8 ∈ decimal a.toNat := by
      rw [(List.cons.inj h).2]
      decide
    exact not_mem_digits (by decide) (by decide) (by decide) _ hmem
  intro x y h
  cases x with
  | none =>
    cases y with
    | none => rfl
    | address b | gathered => cases h
  | address a =>
    cases y with
    | none => cases h
    | address b =>
      have hdigits : digits 10 a.toNat = digits 10 b.toNat := (List.cons.inj h).2
      have hread := stoull_dec a
      rw [hdigits, stoull_dec b] at hread
      rw [Except.ok.inj hread]
    | gathered => exact absurd h (hbracket a)
  | gathered =>
    cases y with
    | none => cases h
    | address b => exact absurd h.symm (hbracket b)
    | gathered => rfl

lemma mark_eq_of_keyText_eq {unfinished' : Bool} {mark' : Mark}
    (hfirst : unfinished = false → unfinished' = true → ¬ unknownLatencyStr <:+: name)
    (hsecond : unfinished' = false → unfinished = true → ¬ unknownLatencyStr <:+: name)
    (h : keyText unfinished name mark = keyText unfinished' name mark') : mark = mark' := by
  have hbegin : ∀ m m' : Mark, keyText false name m = keyText true name m' →
      unknownLatencyStr <:+: name := by
    intro m m' hkey
    have hin : unknownLatencyStr <:+: keyText true name m' := (List.prefix_append _ _).isInfix
    rw [← hkey] at hin
    exact unknownLatencyStr_infix_iff.mp hin
  cases unfinished <;> cases unfinished'
  · exact Mark.text_injective (List.append_cancel_left (List.append_cancel_left h))
  · exact absurd (hbegin _ _ h) (hfirst rfl rfl)
  · exact absurd (hbegin _ _ h.symm) (hsecond rfl rfl)
  · exact Mark.text_injective (List.append_cancel_left (List.append_cancel_left h))

end Keys

end PtPerf.Stats
