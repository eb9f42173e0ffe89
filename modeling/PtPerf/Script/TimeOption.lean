import PtPerf.Decode.TimeRanges
import PtPerf.Filter.FuncFilter
import PtPerf.Script.Print

/-! The option `--ti`. `func_latency` reads an interval, writes it into the command line of
`perf script`, and `perf script` reads it back from there. -/

namespace PtPerf.Script

open PtPerf.Trace PtPerf.Support.Text PtPerf.Decode
open PtPerf.Filter (TimeInterval comma dot nsecsPerSecs intArg timeText timeArg timeFilter)

/-- `--ti`; the second number is cut out with the length `sep2`, and its text runs on behind it. -/
def readTimeInterval (str : Str) : Except Failure TimeInterval :=
  match findFirstOf comma str (some 0), findLastOf comma str with
  | some sep1, some sep2 =>
    if sep1 = sep2 then .error .abort
    else do
      let start ← stol 10 (← substr str 0 sep1)
      let min ← stol 10 (← substr str (sep1 + 1) sep2)
      let max ← stol 10 (← substr str (sep2 + 1) str.length)
      return (UInt64.ofInt start + UInt64.ofInt min, UInt64.ofInt start + UInt64.ofInt max)
  | _, _ => .error .abort

def strtoul (s : Str) : ℕ × Str :=
  let t := (skipSign (s.dropWhile isSpace)).2
  match number 10 s with
  | none => (0, s)
  | some (neg, n) =>
    (if 2 ^ 64 ≤ n then 2 ^ 64 - 1 else if neg then (2 ^ 64 - n) % 2 ^ 64 else n,
      t.drop (leadingDigits 10 t).length)

def parseNsecTime (str : Str) : Option ℕ :=
  let sec := strtoul str
  match sec.2 with
  | [] => some (sec.1 * 10 ^ 9 % 2 ^ 64)
  | c :: frac =>
    if c ≠ dot then none
    else if 9 < frac.length then none
    else
      let nsec := strtoul (frac ++ List.replicate (9 - frac.length) '0'.toUInt8)
      if nsec.2 ≠ [] then none else some ((sec.1 * 10 ^ 9 + nsec.1) % 2 ^ 64)

/-- `parse_timestr_sec_nsec`: an empty text leaves the end open. -/
def parseEnd (str : Str) : Option ℕ := if str = [] then some 0 else parseNsecTime str

def perfTimeParseStr (ostr : Str) : Option PerfTimeInterval :=
  (parseEnd (ostr.takeWhile (· ≠ comma))).bind fun start =>
    (parseEnd ((ostr.dropWhile (· ≠ comma)).drop 1)).bind fun stop =>
      if stop ≠ 0 ∧ stop < start then none else some ⟨start, stop⟩

/-- `isspace` of the perf tool. -/
def perfSpace (c : UInt8) : Bool := isSpace c || c == 0xa0

/-- The pieces of `perf_time__parse_strs`, one for each comma. -/
def pieces : ℕ → Str → Option (List Str)
  | 0, p => some [p]
  | n + 1, p =>
    let start := p.takeWhile (· ≠ comma)
    let value := ((p.drop (start.length + 1)).dropWhile perfSpace).takeWhile (!perfSpace ·)
    let after := ((p.drop (start.length + 1)).dropWhile perfSpace).dropWhile (!perfSpace ·)
    if comma ∈ value then none
    else (pieces n (after.drop 1)).map (p.take (p.length - after.length) :: ·)

def apart : List PerfTimeInterval → Bool
  | p :: q :: ps => p.stop < q.start && apart (q :: ps)
  | _ => true

def perfTimeParseStrs (ostr : Str) : Option (List PerfTimeInterval) :=
  if ostr.count comma = 0 then none
  else (pieces (ostr.count comma - 1) ostr).bind fun ps =>
    (ps.mapM perfTimeParseStr).bind fun ptime => if apart ptime then some ptime else none

section Reading

variable {rest : Str}

lemma strtoul_padded (n k : ℕ) (hn : n < 2 ^ 64) (hrest : Ends 10 rest) :
    strtoul (List.replicate k '0'.toUInt8 ++ (digits 10 n ++ rest)) = (n, rest) := by
  have hscan := scan_padded n k hrest
  have hnumber := number_of_scan (by decide) hscan 0
  obtain ⟨c, t, hct, hc⟩ := head_of_scan (by decide) hscan
  obtain ⟨hspace, hminus, hplus⟩ := digit_not_space_sign hc
  have hskip : (skipSign ((List.replicate k '0'.toUInt8 ++ (digits 10 n ++ rest)).dropWhile isSpace)).2 =
      List.replicate k '0'.toUInt8 ++ (digits 10 n ++ rest) := by
    rw [hct, List.dropWhile_cons_of_neg (by simp [hspace]), skipSign, if_neg hminus, if_neg hplus]
  rw [List.replicate_zero, List.nil_append] at hnumber
  simp only [strtoul, hnumber, hskip, leadingDigits_padLeft (by decide) (by decide) n k hrest]
  rw [if_neg (not_le.mpr hn)]
  simp [← List.append_assoc]

lemma strtoul_signed (i : ℤ) (hlow : -2 ^ 63 ≤ i) (hhigh : i < 2 ^ 63) (hrest : Ends 10 rest) :
    strtoul (signed i ++ rest) = ((i % 2 ^ 64).toNat, rest) := by
  rw [signed, sign]
  by_cases hi : i < 0
  · have hscan := scan_padded i.natAbs 0 hrest
    have hnumber := number_minus_of_scan hscan 0
    have hlead := leadingDigits_padLeft (b := 10) (by decide) (by decide) i.natAbs 0 hrest
    simp only [List.replicate_zero, List.nil_append] at hnumber hlead
    have hskip : (skipSign (('-'.toUInt8 :: (digits 10 i.natAbs ++ rest)).dropWhile isSpace)).2 =
        digits 10 i.natAbs ++ rest := by
      rw [List.dropWhile_cons_of_neg (by decide), skipSign, if_pos rfl]
    rw [if_pos hi, List.append_assoc, List.singleton_append]
    simp only [strtoul, hnumber, hskip, hlead, List.length_map, List.drop_left]
    rw [if_neg (by omega), if_pos trivial]
    congr 1
    omega
  · have hpos := strtoul_padded i.natAbs 0 (by omega) hrest
    rw [List.replicate_zero, List.nil_append] at hpos
    rw [if_neg hi, List.nil_append, hpos]
    congr 1
    omega

lemma length_digits_le (k n : ℕ) (h : n < 10 ^ (k + 1)) : (digits 10 n).length ≤ k + 1 := by
  induction k generalizing n with
  | zero =>
    rw [digits_eq (by decide), if_pos (by omega)]
    exact le_rfl
  | succ k ih =>
    rw [digits_eq (by decide)]
    split_ifs
    · exact Nat.succ_le_succ (Nat.zero_le _)
    · rw [List.length_append, List.length_singleton]
      have hdiv : n / 10 < 10 ^ (k + 1) := Nat.div_lt_of_lt_mul (by rwa [pow_succ'] at h)
      exact Nat.succ_le_succ (ih (n / 10) hdiv)

lemma intArg_eq (x : UInt64) :
    intArg x = if x.toNat % 2 ^ 32 < 2 ^ 31 then (x.toNat % 2 ^ 32 : ℤ) else x.toNat % 2 ^ 32 - 2 ^ 32 := by
  have hbits : intArg x = x.toUInt32.toBitVec.toInt := rfl
  have hlow : x.toUInt32.toBitVec.toNat = x.toNat % 2 ^ 32 := UInt64.toNat_toUInt32 x
  rw [hbits, BitVec.toInt_eq_toNat_cond, hlow]
  split_ifs <;> omega

def readBack (t : UInt64) : ℕ :=
  ((intArg (t / nsecsPerSecs) % 2 ^ 64).toNat * 10 ^ 9 + t.toNat % 10 ^ 9) % 2 ^ 64

lemma parseNsecTime_timeText (t : UInt64) : parseNsecTime (timeText t) = some (readBack t) := by
  have hnsec : (t % nsecsPerSecs).toNat = t.toNat % 10 ^ 9 := by
    rw [UInt64.toNat_mod]
    rfl
  have hlt : t.toNat % 10 ^ 9 < 10 ^ (8 + 1) := Nat.mod_lt _ (by norm_num)
  have hint : intArg (t % nsecsPerSecs) = (t.toNat % 10 ^ 9 : ℕ) := by
    rw [intArg_eq, hnsec, if_pos (by omega)]
    omega
  have hlen := length_digits_le 8 _ hlt
  have hfrac : signedZeros 9 (intArg (t % nsecsPerSecs)) =
      List.replicate (9 - (digits 10 (t.toNat % 10 ^ 9)).length) '0'.toUInt8 ++
        digits 10 (t.toNat % 10 ^ 9) := by
    rw [hint, signedZeros, sign, if_neg (by omega)]
    rfl
  have hsec := intArg_eq (t / nsecsPerSecs)
  have hread : strtoul (timeText t) = ((intArg (t / nsecsPerSecs) % 2 ^ 64).toNat,
      dot :: signedZeros 9 (intArg (t % nsecsPerSecs))) := by
    refine strtoul_signed _ ?_ ?_ (by rfl)
    · split_ifs at hsec <;> omega
    · split_ifs at hsec <;> omega
  have hfraclen : (signedZeros 9 (intArg (t % nsecsPerSecs))).length = 9 := by
    rw [hfrac, List.length_append, List.length_replicate]
    omega
  have hfracread : strtoul (signedZeros 9 (intArg (t % nsecsPerSecs)) ++ List.replicate 0 '0'.toUInt8) =
      (t.toNat % 10 ^ 9, []) := by
    have hpadded := strtoul_padded (t.toNat % 10 ^ 9) (9 - (digits 10 (t.toNat % 10 ^ 9)).length)
      (by omega) (show Ends 10 [] from rfl)
    rw [List.append_nil] at hpadded
    rw [List.replicate_zero, List.append_nil, hfrac]
    exact hpadded
  simp only [parseNsecTime, hread, ne_eq, not_true_eq_false, if_false, hfraclen, lt_irrefl, Nat.sub_self,
    hfracread]
  rfl

/-- Seconds that do not fit into an `int` arrive as another time. -/
lemma wrapped_ne (m w r : ℕ) (hw : w < 2 ^ 32) (hr : r < 10 ^ 9) :
    ((2 ^ 64 - 2 ^ 32 + w) * 10 ^ 9 + r) % 2 ^ 64 ≠ (2 ^ 32 * m + w) * 10 ^ 9 + r := by
  have hsplit : (2 ^ 64 - 2 ^ 32 + w) * 10 ^ 9 + r =
      2 ^ 64 * (10 ^ 9 - 1) + (2 ^ 64 - 2 ^ 32 * 10 ^ 9 + w * 10 ^ 9 + r) := by omega
  rw [hsplit, Nat.mul_add_mod, Nat.mod_eq_of_lt (by omega)]
  omega

lemma readBack_eq_iff (t : UInt64) : readBack t = t.toNat ↔ t.toNat / 10 ^ 9 < 2 ^ 31 := by
  have hsec : (t / nsecsPerSecs).toNat = t.toNat / 10 ^ 9 := by
    rw [UInt64.toNat_div]
    rfl
  have hint := intArg_eq (t / nsecsPerSecs)
  have hlt := t.toNat_lt
  have hdiv := Nat.div_add_mod t.toNat (10 ^ 9)
  have hr : t.toNat % 10 ^ 9 < 10 ^ 9 := Nat.mod_lt _ (by norm_num)
  have hq := Nat.div_add_mod (t.toNat / 10 ^ 9) (2 ^ 32)
  rw [hsec] at hint
  rw [readBack]
  generalize t.toNat / 10 ^ 9 = q at *
  generalize t.toNat % 10 ^ 9 = r at *
  rw [← hdiv]
  split_ifs at hint with hsmall
  · have hmod : (intArg (t / nsecsPerSecs) % 2 ^ 64).toNat = q % 2 ^ 32 := by omega
    rw [hmod, Nat.mod_eq_of_lt (by omega)]
    omega
  · have hmod : (intArg (t / nsecsPerSecs) % 2 ^ 64).toNat = 2 ^ 64 - 2 ^ 32 + q % 2 ^ 32 := by omega
    have hne := wrapped_ne (q / 2 ^ 32) (q % 2 ^ 32) r (Nat.mod_lt _ (by norm_num)) hr
    rw [hq, Nat.mul_comm q] at hne
    rw [hmod]
    exact iff_of_false hne (by omega)

lemma comma_notMem_timeText (t : UInt64) : comma ∉ timeText t := by
  intro h
  rcases List.mem_append.mp h with h | h
  · exact not_mem_signed (by decide) (by decide) _ h
  · rcases List.mem_cons.mp h with h | h
    · exact absurd h (by decide)
    · exact not_mem_signedZeros (by decide) (by decide) 9 _ h

lemma parseEnd_timeText (t : UInt64) : parseEnd (timeText t) = some (readBack t) := by
  have hne : timeText t ≠ [] := by simp [timeText]
  rw [parseEnd, if_neg hne, parseNsecTime_timeText]

lemma perfTimeParseStr_timeArg (ti : TimeInterval) :
    perfTimeParseStr (timeArg ti) =
      if readBack ti.2 ≠ 0 ∧ readBack ti.2 < readBack ti.1 then none
      else some ⟨readBack ti.1, readBack ti.2⟩ := by
  have hother : ∀ c ∈ timeText ti.1, decide (c ≠ comma) = true := by
    intro c hc
    rw [decide_eq_true_eq]
    rintro rfl
    exact comma_notMem_timeText ti.1 hc
  have hstart : (timeArg ti).takeWhile (· ≠ comma) = timeText ti.1 := by
    rw [timeArg, List.takeWhile_append_of_pos hother, List.takeWhile_cons_of_neg (by simp), List.append_nil]
  have hstop : ((timeArg ti).dropWhile (· ≠ comma)).drop 1 = timeText ti.2 := by
    rw [timeArg, List.dropWhile_append_of_pos hother, List.dropWhile_cons_of_neg (by simp)]
    rfl
  rw [perfTimeParseStr, hstart, hstop, parseEnd_timeText, parseEnd_timeText, Option.bind_some,
    Option.bind_some]

lemma perfTimeParseStrs_timeArg (ti : TimeInterval) :
    perfTimeParseStrs (timeArg ti) = (perfTimeParseStr (timeArg ti)).map fun p => [p] := by
  have hcount : (timeArg ti).count comma = 1 := by
    rw [timeArg, List.count_append, List.count_cons_self,
      List.count_eq_zero.mpr (comma_notMem_timeText ti.1), List.count_eq_zero.mpr (comma_notMem_timeText ti.2)]
  rw [perfTimeParseStrs, hcount, if_neg one_ne_zero]
  simp only [Nat.sub_self, pieces, Option.bind_some, List.mapM_cons, List.mapM_nil]
  cases perfTimeParseStr (timeArg ti) <;> rfl

end Reading

/-- The interval that `perf script` reads is the one that was set exactly when the seconds of both ends
fit into an `int` and the ends are in order. -/
theorem time_interval_arrives_iff (ti : TimeInterval) :
    perfTimeParseStrs (timeArg ti) = some [⟨ti.1.toNat, ti.2.toNat⟩] ↔
      ti.1.toNat / 10 ^ 9 < 2 ^ 31 ∧ ti.2.toNat / 10 ^ 9 < 2 ^ 31 ∧ (ti.2 = 0 ∨ ti.1 ≤ ti.2) := by
  have hzero : ti.2 = 0 ↔ ti.2.toNat = 0 := by
    rw [← UInt64.toNat_inj]
    rfl
  rw [perfTimeParseStrs_timeArg, perfTimeParseStr_timeArg, ← readBack_eq_iff, ← readBack_eq_iff, hzero,
    UInt64.le_iff_toNat_le]
  split_ifs with h
  · refine iff_of_false (fun hnone => by cases hnone) ?_
    rintro ⟨hstart, hstop, horder⟩
    rw [hstart, hstop] at h
    omega
  · simp only [Option.map_some, Option.some.injEq, List.cons.injEq, PerfTimeInterval.mk.injEq, and_true]
    constructor
    · rintro ⟨hstart, hstop⟩
      rw [hstart, hstop] at h
      exact ⟨hstart, hstop, by omega⟩
    · exact fun hall => ⟨hall.1, hall.2.1⟩

lemma readTimeInterval_digits {s a b : ℕ} (hs : s < 2 ^ 63) (ha : a < 2 ^ 63) (hb : b < 2 ^ 63) :
    readTimeInterval (digits 10 s ++ comma :: (digits 10 a ++ comma :: digits 10 b)) =
      .ok (UInt64.ofNat s + UInt64.ofNat a, UInt64.ofNat s + UInt64.ofNat b) := by
  have hnot : ∀ n, comma ∉ digits 10 n := fun n => not_mem_digits (by decide) (by decide) (by decide) n
  obtain ⟨str, hstr⟩ : ∃ str, str = digits 10 s ++ comma :: (digits 10 a ++ comma :: digits 10 b) := ⟨_, rfl⟩
  have hat : At str 0 (digits 10 s ++ comma :: (digits 10 a ++ comma :: digits 10 b)) := .start hstr
  obtain ⟨sep1, hfirst, -, hmin⟩ := hat.findFirstOf (hnot s)
  have hsep1 : sep1 = (digits 10 s).length := by
    have hlen := hat.length
    have hlen' := hmin.length
    simp only [List.length_append, List.length_cons] at hlen hlen'
    omega
  have hstr' : str = (digits 10 s ++ comma :: digits 10 a) ++ comma :: digits 10 b := by
    rw [hstr, List.append_assoc, List.cons_append]
  have hlast := findLastOf_append (digits 10 s ++ comma :: digits 10 a) (hnot b)
  rw [← hstr'] at hlast
  obtain ⟨sep2, hsep2⟩ : ∃ sep2, sep2 = (digits 10 s ++ comma :: digits 10 a).length := ⟨_, rfl⟩
  have hlength : sep2 = sep1 + 1 + (digits 10 a).length := by
    rw [hsep2, hsep1, List.length_append, List.length_cons]
    omega
  have hmax : At str (sep2 + 1) (digits 10 b) := by
    have hskip : At str (sep1 + 1 + (digits 10 a).length) ([comma] ++ digits 10 b) := hmin.skip
    rw [← hlength] at hskip
    exact hskip.skip
  have hstart : substr str 0 sep1 = .ok (digits 10 s) := by
    rw [hsep1]
    exact hat.substr
  -- the text of the second number runs on to the third
  have hmiddle : substr str (sep1 + 1) sep2 = .ok (digits 10 a ++ comma :: (digits 10 b).take sep1) := by
    rw [substr, if_pos hmin.le, hmin.rest, hlength, show sep1 + 1 + (digits 10 a).length =
      (digits 10 a).length + (sep1 + 1) by omega, List.take_length_add_append, List.take_succ_cons]
  have hend : substr str (sep2 + 1) str.length = .ok (digits 10 b) :=
    hmax.substr_rest (by rw [hmax.length]; omega)
  have hcast : ∀ n : ℕ, UInt64.ofInt (n : ℤ) = UInt64.ofNat n := by
    intro n
    rw [UInt64.ofInt]
    apply UInt64.toNat_inj.mp
    rw [UInt64.toNat_ofNat', UInt64.toNat_ofNat']
    omega
  have hread : ∀ {n : ℕ} {rest : Str}, n < 2 ^ 63 → Ends 10 rest → stol 10 (digits 10 n ++ rest) = .ok (n : ℤ) := by
    intro n rest hn hrest
    exact stol_padded n 0 0 hn hrest
  have hcomma : ∀ rest, Ends 10 (comma :: rest) := fun rest => rfl
  have hread' : ∀ {n : ℕ}, n < 2 ^ 63 → stol 10 (digits 10 n) = .ok (n : ℤ) := by
    intro n hn
    simpa using hread hn (show Ends 10 [] from rfl)
  rw [← hstr, readTimeInterval, hfirst, hlast, ← hsep2]
  dsimp only
  rw [if_neg (by omega), hstart, Support.Runs.ok_bind, hread' hs, Support.Runs.ok_bind, hmiddle,
    Support.Runs.ok_bind, hread ha (hcomma _), Support.Runs.ok_bind, hend, Support.Runs.ok_bind, hread' hb,
    Support.Runs.ok_bind, hcast, hcast, hcast]
  rfl

/-- The samples that `perf script` keeps for `--ti s,a,b` are those from `s + a` to `s + b`. -/
theorem time_option_selects {s a b : ℕ} (hab : a ≤ b) (hpos : 0 < s + b) (hfit : s + b < 2 ^ 31 * 10 ^ 9) :
    ∃ ti ps, readTimeInterval (digits 10 s ++ comma :: (digits 10 a ++ comma :: digits 10 b)) = .ok ti ∧
      timeFilter ti = lit " --time=" ++ timeArg ti ∧ perfTimeParseStrs (timeArg ti) = some ps ∧
      ∀ t, t ≠ 0 → (rangesSkipSample ps t = false ↔ s + a ≤ t ∧ t ≤ s + b) := by
  have hsum : ∀ x, x ≤ b → (UInt64.ofNat s + UInt64.ofNat x).toNat = s + x := by
    intro x hx
    rw [UInt64.toNat_add, UInt64.toNat_ofNat', UInt64.toNat_ofNat']
    omega
  have harrives : perfTimeParseStrs (timeArg (UInt64.ofNat s + UInt64.ofNat a, UInt64.ofNat s + UInt64.ofNat b)) =
      some [⟨s + a, s + b⟩] := by
    rw [perfTimeParseStrs_timeArg, perfTimeParseStr_timeArg]
    have ha := (readBack_eq_iff (UInt64.ofNat s + UInt64.ofNat a)).mpr (by rw [hsum a hab]; omega)
    have hb := (readBack_eq_iff (UInt64.ofNat s + UInt64.ofNat b)).mpr (by rw [hsum b le_rfl]; omega)
    rw [hsum a hab] at ha
    rw [hsum b le_rfl] at hb
    dsimp only
    rw [ha, hb, if_neg (by omega)]
    rfl
  refine ⟨_, _, readTimeInterval_digits (by omega) (by omega) (by omega), if_pos (Or.inr ?_), harrives,
    fun t ht => ?_⟩
  · intro hmax
    have hnat := congrArg UInt64.toNat hmax
    rw [hsum b le_rfl, show uint64Max.toNat = 2 ^ 64 - 1 from rfl] at hnat
    omega
  · simp only [rangesSkipSample, if_neg ht, PerfTimeInterval.skipSample, Bool.or_eq_false_iff,
      Bool.and_eq_false_iff, decide_eq_false_iff_not]
    omega

theorem time_option_selects_second :
    ∃ ti ps, readTimeInterval (digits 10 0 ++ comma :: (digits 10 1000000000 ++ comma :: digits 10 1000000005)) =
        .ok ti ∧ timeFilter ti = lit " --time=" ++ timeArg ti ∧ perfTimeParseStrs (timeArg ti) = some ps ∧
      ∀ t, t ≠ 0 → (rangesSkipSample ps t = false ↔ 0 + 1000000000 ≤ t ∧ t ≤ 0 + 1000000005) :=
  time_option_selects (by norm_num) (by norm_num) (by norm_num)

end PtPerf.Script
