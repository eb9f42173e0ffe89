import Mathlib.Data.List.GetD
import PtPerf.Decode.ProcessQueues
import PtPerf.Decode.TimeFilter
import PtPerf.Support.Walk

/-! Selecting by time. `perf script --time` gives intervals of nanoseconds; the decoder turns them
into ranges of ticks so that it can pass over what lies outside, and `perf script` checks every
sample against the intervals again. -/

namespace PtPerf.Decode

open PtPerf.Support

structure TscConversion where
  timeShift : ℕ
  timeMult : ℕ
  timeZero : ℕ
  timeCycles : ℕ
  timeMask : ℕ
  capUserTimeShort : Bool
  deriving DecidableEq, Repr

/-- `struct perf_time_interval`; a zero is an open end. -/
structure PerfTimeInterval where
  start : ℕ
  stop : ℕ
  deriving DecidableEq, Repr

namespace TscConversion

variable (tc : TscConversion)

def perfTimeToTsc (ns : ℕ) : ℕ :=
  let t := (ns + (2 ^ 64 - tc.timeZero)) % 2 ^ 64
  let quot := t / tc.timeMult
  let rem := t % tc.timeMult
  (quot <<< tc.timeShift + (rem <<< tc.timeShift % 2 ^ 64) / tc.timeMult) % 2 ^ 64

def tscToPerfTime (cyc : ℕ) : ℕ :=
  let cyc := if tc.capUserTimeShort then
    (tc.timeCycles + ((cyc + (2 ^ 64 - tc.timeCycles)) % 2 ^ 64 &&& tc.timeMask)) % 2 ^ 64 else cyc
  let quot := cyc >>> tc.timeShift
  let rem := cyc &&& (1 <<< tc.timeShift - 1)
  (tc.timeZero + quot * tc.timeMult + (rem * tc.timeMult % 2 ^ 64) >>> tc.timeShift) % 2 ^ 64

def tick (u : ℕ) : ℕ := (u + 1) % 2 ^ 64

def untick (u : ℕ) : ℕ := (u + (2 ^ 64 - 1)) % 2 ^ 64

/-- `intel_pt_tsc_start`; a loop that makes `2 ^ 64` steps never ends. -/
def tscStart (ns : ℕ) : Option ℕ :=
  (Walk.walk untick (fun tsc => ns ≤ tc.tscToPerfTime tsc) (2 ^ 64) (tc.perfTimeToTsc ns)).bind
    (Walk.walk tick (fun tsc => tc.tscToPerfTime tsc < ns) (2 ^ 64))

def tscEnd (ns : ℕ) : Option ℕ :=
  (Walk.walk tick (fun tsc => tc.tscToPerfTime tsc ≤ ns) (2 ^ 64) (tc.perfTimeToTsc ns)).bind
    (Walk.walk untick (fun tsc => ns < tc.tscToPerfTime tsc) (2 ^ 64))

def timeRange (p : PerfTimeInterval) : Option TimeRange :=
  (if p.start ≠ 0 then tc.tscStart p.start else some 0).bind fun start =>
    (if p.stop ≠ 0 then tc.tscEnd p.stop else some 0).map fun stop => ⟨start, stop⟩

def setupTimeRanges (ptimeRange : List PerfTimeInterval) : Option (List TimeRange) :=
  ptimeRange.mapM tc.timeRange

end TscConversion

def PerfTimeInterval.skipSample (p : PerfTimeInterval) (timestamp : ℕ) : Bool :=
  if timestamp = 0 then false
  else (p.start ≠ 0 && timestamp < p.start) || (p.stop ≠ 0 && p.stop < timestamp)

def rangesSkipSample (ptimeBuf : List PerfTimeInterval) (timestamp : ℕ) : Bool :=
  if timestamp = 0 then false
  else match ptimeBuf with
    | [] => false
    | [p] => p.skipSample timestamp
    | ps => !ps.any fun p => p.start ≤ timestamp && (timestamp ≤ p.stop || p.stop = 0)

namespace TscConversion

variable {tc : TscConversion}

/-- The parameters that the kernel gives on a machine whose counter does not wrap. -/
structure Regular (tc : TscConversion) : Prop where
  pos : 0 < tc.timeMult
  mult : tc.timeMult < 2 ^ 32
  shift : tc.timeShift ≤ 32
  zero : tc.timeZero < 2 ^ 64
  long : tc.capUserTimeShort = false

def lasting (tc : TscConversion) (cyc : ℕ) : ℕ := cyc * tc.timeMult / 2 ^ tc.timeShift

lemma Regular.tscToPerfTime (h : tc.Regular) (cyc : ℕ) :
    tc.tscToPerfTime cyc = (tc.timeZero + tc.lasting cyc) % 2 ^ 64 := by
  have hpow : 2 ^ tc.timeShift ≤ 2 ^ 32 := Nat.pow_le_pow_right two_pos h.shift
  have hrem : cyc % 2 ^ tc.timeShift * tc.timeMult < 2 ^ 64 := by
    have hlt := (Nat.mod_lt cyc (Nat.two_pow_pos tc.timeShift)).trans_le hpow
    calc cyc % 2 ^ tc.timeShift * tc.timeMult < 2 ^ 32 * 2 ^ 32 := Nat.mul_lt_mul'' hlt h.mult
      _ = 2 ^ 64 := by norm_num
  have hsplit : tc.lasting cyc = cyc / 2 ^ tc.timeShift * tc.timeMult +
      cyc % 2 ^ tc.timeShift * tc.timeMult / 2 ^ tc.timeShift := by
    have hmul : cyc * tc.timeMult = cyc % 2 ^ tc.timeShift * tc.timeMult +
        cyc / 2 ^ tc.timeShift * tc.timeMult * 2 ^ tc.timeShift := by
      conv_lhs => rw [← Nat.div_add_mod cyc (2 ^ tc.timeShift)]
      ring
    rw [lasting, hmul, Nat.add_mul_div_right _ _ (Nat.two_pow_pos _), Nat.add_comm]
  rw [TscConversion.tscToPerfTime, h.long, hsplit]
  simp only [Bool.false_eq_true, if_false, Nat.shiftRight_eq_div_pow, Nat.shiftLeft_eq, one_mul,
    Nat.and_two_pow_sub_one_eq_mod, Nat.mod_eq_of_lt hrem, Nat.add_assoc]

lemma Regular.perfTimeToTsc (h : tc.Regular) (ns : ℕ) :
    tc.perfTimeToTsc ns =
      (ns + (2 ^ 64 - tc.timeZero)) % 2 ^ 64 * 2 ^ tc.timeShift / tc.timeMult % 2 ^ 64 := by
  set t := (ns + (2 ^ 64 - tc.timeZero)) % 2 ^ 64 with ht
  have hpow : 2 ^ tc.timeShift ≤ 2 ^ 32 := Nat.pow_le_pow_right two_pos h.shift
  have hrem : t % tc.timeMult * 2 ^ tc.timeShift < 2 ^ 64 := by
    calc t % tc.timeMult * 2 ^ tc.timeShift < 2 ^ 32 * 2 ^ 32 :=
          Nat.mul_lt_mul_of_lt_of_le ((Nat.mod_lt t h.pos).trans h.mult) hpow (by norm_num)
      _ = 2 ^ 64 := by norm_num
  have hsplit : t * 2 ^ tc.timeShift / tc.timeMult =
      t / tc.timeMult * 2 ^ tc.timeShift + t % tc.timeMult * 2 ^ tc.timeShift / tc.timeMult := by
    have hmul : t * 2 ^ tc.timeShift = t % tc.timeMult * 2 ^ tc.timeShift +
        t / tc.timeMult * 2 ^ tc.timeShift * tc.timeMult := by
      conv_lhs => rw [← Nat.div_add_mod t tc.timeMult]
      ring
    rw [hmul, Nat.add_mul_div_right _ _ h.pos, Nat.add_comm]
  rw [TscConversion.perfTimeToTsc, hsplit]
  simp only [← ht, Nat.shiftLeft_eq, Nat.mod_eq_of_lt hrem]

lemma lasting_mono (tc : TscConversion) {u v : ℕ} (h : u ≤ v) : tc.lasting u ≤ tc.lasting v :=
  Nat.div_le_div_right (Nat.mul_le_mul_right _ h)

/-- The ticks from `a` to `b` are in one turn of the 64-bit time. -/
structure OneTurn (tc : TscConversion) (a b : ℕ) : Prop extends Regular tc where
  pos_left : 0 < a
  le : a ≤ b
  right : b < 2 ^ 64 - 1
  lasts : tc.lasting b < 2 ^ 64
  turn : (tc.timeZero + tc.lasting a) / 2 ^ 64 = (tc.timeZero + tc.lasting b) / 2 ^ 64

variable {a b n : ℕ}

lemma OneTurn.lasting_eq (h : tc.OneTurn a b) : ∃ k ≤ 1, ∀ u, a ≤ u → u ≤ b →
    tc.timeZero + tc.lasting u = tc.tscToPerfTime u + k * 2 ^ 64 := by
  have hturn := h.turn
  have hzero := h.zero
  have hlasts := h.lasts
  refine ⟨(tc.timeZero + tc.lasting b) / 2 ^ 64, by omega, fun u hau hub => ?_⟩
  have hlow := lasting_mono tc hau
  have hhigh := lasting_mono tc hub
  rw [h.tscToPerfTime]
  omega

lemma OneTurn.mono (h : tc.OneTurn a b) (u v : ℕ) (hau : a ≤ u) (huv : u ≤ v) (hvb : v ≤ b) :
    tc.tscToPerfTime u ≤ tc.tscToPerfTime v := by
  obtain ⟨k, -, hk⟩ := h.lasting_eq
  have hu := hk u hau (huv.trans hvb)
  have hv := hk v (hau.trans huv) hvb
  have hle := lasting_mono tc huv
  omega

lemma OneTurn.perfTimeToTsc_mem (h : tc.OneTurn a b) (ha : tc.tscToPerfTime a < n)
    (hb : n < tc.tscToPerfTime b) : a ≤ tc.perfTimeToTsc n ∧ tc.perfTimeToTsc n ≤ b := by
  obtain ⟨k, hk, heq⟩ := h.lasting_eq
  have hleft := heq a le_rfl h.le
  have hright := heq b h.le le_rfl
  have hzero := h.zero
  have hlasts := h.lasts
  obtain ⟨t, ht, hat, htb⟩ : ∃ t, (n + (2 ^ 64 - tc.timeZero)) % 2 ^ 64 = t ∧ tc.lasting a < t ∧
      t < tc.lasting b := by
    refine ⟨n + k * 2 ^ 64 - tc.timeZero, ?_, by omega, by omega⟩
    interval_cases k <;> omega
  have hlow : a ≤ t * 2 ^ tc.timeShift / tc.timeMult :=
    (Nat.le_div_iff_mul_le h.pos).mpr ((Nat.div_lt_iff_lt_mul (Nat.two_pow_pos _)).mp hat).le
  have hhigh : t * 2 ^ tc.timeShift / tc.timeMult ≤ b :=
    Nat.div_le_of_le_mul (by
      rw [Nat.mul_comm tc.timeMult b]
      exact (Nat.le_div_iff_mul_le (Nat.two_pow_pos _)).mp htb.le)
  rw [h.perfTimeToTsc, ht, Nat.mod_eq_of_lt (hhigh.trans_lt (h.right.trans_le (Nat.sub_le _ _)))]
  exact ⟨hlow, hhigh⟩

lemma OneTurn.tick_eq (h : tc.OneTurn a b) (u : ℕ) (hu : u < b) : tick u = u + 1 := by
  have := h.right
  exact Nat.mod_eq_of_lt (by omega)

lemma OneTurn.untick_eq (h : tc.OneTurn a b) (u : ℕ) (hau : a < u) (hub : u ≤ b) : untick u = u - 1 := by
  have := h.right
  rw [untick]
  omega

lemma OneTurn.tscStart (h : tc.OneTurn a b) (ha : tc.tscToPerfTime a < n)
    (hb : n < tc.tscToPerfTime b) : ∃ e, tc.tscStart n = some e ∧ a < e ∧ e ≤ b ∧
      ∀ u, a ≤ u → u ≤ b → (e ≤ u ↔ n ≤ tc.tscToPerfTime u) := by
  have hmem := h.perfTimeToTsc_mem ha hb
  have := h.right
  exact Walk.least_reaching h.tick_eq h.untick_eq h.mono ha hb.le hmem.1 hmem.2 (by omega)

lemma OneTurn.tscEnd (h : tc.OneTurn a b) (ha : tc.tscToPerfTime a < n)
    (hb : n < tc.tscToPerfTime b) : ∃ e, tc.tscEnd n = some e ∧ a ≤ e ∧ e < b ∧
      ∀ u, a ≤ u → u ≤ b → (u ≤ e ↔ tc.tscToPerfTime u ≤ n) := by
  have hmem := h.perfTimeToTsc_mem ha hb
  have := h.right
  exact Walk.greatest_within h.tick_eq h.untick_eq h.mono ha.le hb hmem.1 hmem.2 (by omega)

/-- The ends of the interval that are set are times strictly inside. -/
def Inside (tc : TscConversion) (a b : ℕ) (p : PerfTimeInterval) : Prop :=
  ∀ n, n = p.start ∨ n = p.stop → n ≠ 0 → tc.tscToPerfTime a < n ∧ n < tc.tscToPerfTime b

/-- A range holds a tick when the interval holds the time of the tick. -/
structure Matches (tc : TscConversion) (a b : ℕ) (p : PerfTimeInterval) (r : TimeRange) : Prop where
  start : ∀ u, a ≤ u → u ≤ b → (r.start ≤ u ↔ p.start ≤ tc.tscToPerfTime u)
  start_zero : r.start = 0 ↔ p.start = 0
  start_ge : r.start ≠ 0 → a ≤ r.start
  start_le : r.start ≤ b
  stop : ∀ u, a ≤ u → u ≤ b → (r.stop = 0 ∨ u ≤ r.stop ↔ p.stop = 0 ∨ tc.tscToPerfTime u ≤ p.stop)

lemma OneTurn.timeRange (h : tc.OneTurn a b) {p : PerfTimeInterval} (hp : tc.Inside a b p) :
    ∃ r, tc.timeRange p = some r ∧ tc.Matches a b p r := by
  obtain ⟨start, hstart, hmatch, hzero, hge, hle⟩ : ∃ start,
      (if p.start ≠ 0 then tc.tscStart p.start else some 0) = some start ∧
      (∀ u, a ≤ u → u ≤ b → (start ≤ u ↔ p.start ≤ tc.tscToPerfTime u)) ∧
      (start = 0 ↔ p.start = 0) ∧ (start ≠ 0 → a ≤ start) ∧ start ≤ b := by
    by_cases hset : p.start = 0
    · exact ⟨0, if_neg (not_not.mpr hset), fun u _ _ => by simp [hset], by simp [hset],
        fun hne => absurd rfl hne, Nat.zero_le b⟩
    · obtain ⟨ha, hb⟩ := hp p.start (Or.inl rfl) hset
      obtain ⟨e, he, hae, heb, hiff⟩ := h.tscStart ha hb
      exact ⟨e, by rw [if_pos hset, he], hiff, iff_of_false ((Nat.zero_le a).trans_lt hae).ne' hset,
        fun _ => hae.le, heb⟩
  obtain ⟨stop, hstop, hmatch'⟩ : ∃ stop,
      (if p.stop ≠ 0 then tc.tscEnd p.stop else some 0) = some stop ∧
      ∀ u, a ≤ u → u ≤ b → (stop = 0 ∨ u ≤ stop ↔ p.stop = 0 ∨ tc.tscToPerfTime u ≤ p.stop) := by
    by_cases hset : p.stop = 0
    · exact ⟨0, if_neg (not_not.mpr hset), fun u _ _ => by simp [hset]⟩
    · obtain ⟨ha, hb⟩ := hp p.stop (Or.inr rfl) hset
      obtain ⟨e, he, hae, heb, hiff⟩ := h.tscEnd ha hb
      refine ⟨e, by rw [if_pos hset, he], fun u hau hub => ?_⟩
      have hpos : e ≠ 0 := (h.pos_left.trans_le hae).ne'
      simp [hset, hpos, hiff u hau hub]
  refine ⟨⟨start, stop⟩, ?_, hmatch, hzero, hge, hle, hmatch'⟩
  rw [TscConversion.timeRange, hstart, hstop]
  rfl

lemma OneTurn.setupTimeRanges (h : tc.OneTurn a b) {ps : List PerfTimeInterval}
    (hps : ∀ p ∈ ps, tc.Inside a b p) :
    ∃ rs, tc.setupTimeRanges ps = some rs ∧ List.Forall₂ (tc.Matches a b) ps rs := by
  induction ps with
  | nil => exact ⟨[], rfl, .nil⟩
  | cons p ps ih =>
    obtain ⟨r, hr, hmatch⟩ := h.timeRange (hps p List.mem_cons_self)
    obtain ⟨rs, hrs, hall⟩ := ih fun p' hp' => hps p' (List.mem_cons_of_mem p hp')
    refine ⟨r :: rs, ?_, .cons hmatch hall⟩
    rw [TscConversion.setupTimeRanges] at hrs ⊢
    rw [List.mapM_cons, hr, hrs]
    rfl

lemma Matches.start_mono {p p' : PerfTimeInterval} {r r' : TimeRange} (hr : tc.Matches a b p r)
    (hr' : tc.Matches a b p' r') (hle : p.start ≤ p'.start) : r.start ≤ r'.start := by
  by_cases hzero : r'.start = 0
  · have hstart : p.start = 0 := Nat.le_zero.mp (hr'.start_zero.mp hzero ▸ hle)
    rw [hr.start_zero.mpr hstart]
    exact Nat.zero_le _
  · have ha := hr'.start_ge hzero
    exact (hr.start _ ha hr'.start_le).mpr (hle.trans ((hr'.start _ ha hr'.start_le).mp le_rfl))

lemma Matches.holds {p : PerfTimeInterval} {r : TimeRange} (hr : tc.Matches a b p r) {u : ℕ}
    (hau : a ≤ u) (hub : u ≤ b) : r.holds u =
      (decide (p.start ≤ tc.tscToPerfTime u) && (decide (tc.tscToPerfTime u ≤ p.stop) || decide (p.stop = 0))) := by
  have hstart := hr.start u hau hub
  have hstop := hr.stop u hau hub
  rw [TimeRange.holds, Bool.eq_iff_iff]
  simp only [Bool.and_eq_true, Bool.or_eq_true, decide_eq_true_eq, beq_iff_eq, hstart, hstop]
  rw [or_comm (a := p.stop = 0)]

lemma rangesSkipSample_eq {ps : List PerfTimeInterval} {t : ℕ} (ht : t ≠ 0) :
    rangesSkipSample ps t =
      !(ps.isEmpty || ps.any fun p => p.start ≤ t && (t ≤ p.stop || p.stop = 0)) := by
  cases ps with
  | nil => simp [rangesSkipSample]
  | cons p ps =>
    cases ps with
    | nil =>
      rw [Bool.eq_iff_iff]
      by_cases hstart : p.start = 0 <;> by_cases hstop : p.stop = 0 <;>
        simp [rangesSkipSample, PerfTimeInterval.skipSample, ht, hstart, hstop]
    | cons q ps => simp [rangesSkipSample, ht]

end TscConversion

/-- Everything is decoded and nothing is left: `intel_pt_flush` asks for all times. -/
def maxTimestamp : ℕ := 2 ^ 64 - 1

/-- A session: the queues are set up, there is a call for each event, and a last one at the end. -/
def decodeSession (pt : IntelPt) (inputs : List (List Decoded)) (times : List ℕ) :
    Except HeapFault (List Event) := do
  let s ← setupQueues pt 0 inputs .empty
  let r ← processAll pt s.work (times ++ [maxTimestamp]) s
  return r.2

def shown (tc : TscConversion) (ps : List PerfTimeInterval) (samples : List (ℕ × PtState)) :
    List (ℕ × PtState) :=
  samples.filter fun x => !rangesSkipSample ps (tc.tscToPerfTime x.1)

/-- The results of a queue whose clock does not go back: no state is earlier than what came before
it, and no estimate is earlier than the time that it replaces. -/
structure Steady (pt : IntelPt) (input : List Decoded) : Prop where
  forward : pt.Forward input
  estimates : ∀ s, Decoded.state s ∈ input → s.timestamp ≤ pt.stamp s

section Steadiness

variable {pt : IntelPt} {input : List Decoded} {queue : Queue}

lemma Steady.drop (h : Steady pt input) (k : ℕ) : Steady pt (input.drop k) :=
  ⟨h.forward.drop k, fun s hs => h.estimates s (List.mem_of_mem_drop hs)⟩

lemma selecting_newPtq (pt : IntelPt) : (newPtq pt).Selecting pt := by
  rw [newPtq, IntelPt.setupTimeRange]
  split_ifs with hnone hstart
  · exact Or.inl ⟨rfl, rfl⟩
  · exact Or.inr ⟨⟨Nat.pos_of_ne_zero hnone, rfl⟩, hstart⟩
  · by_cases hstop : (pt.rangeAt 0).stop = 0
    · exact Or.inl ⟨rfl, hstop⟩
    · exact Or.inr ⟨⟨Nat.pos_of_ne_zero hnone, rfl⟩, hstop⟩

lemma syncSwitch_newPtq (pt : IntelPt) : (newPtq pt).syncSwitch = pt.syncSwitch := by
  rw [newPtq, IntelPt.setupTimeRange]
  split_ifs <;> rfl

lemma Steady.setupQueue (hsync : pt.syncSwitch = false) (h : Steady pt input) (hq : setupQueue pt input = some queue) :
    Steadily pt queue.ptq.timestamp queue.ptq queue.input := by
  rw [Decode.setupQueue, Option.map_eq_some_iff] at hq
  obtain ⟨⟨s, rest⟩, hfirst, rfl⟩ := hq
  -- the results from which the first state is taken
  have hused : Steady pt (if (newPtq pt).selStart && (newPtq pt).selTimestamp != 0 then
      input.drop (pt.fastForward (newPtq pt).selTimestamp input) else input) := by
    split_ifs
    · exact h.drop _
    · exact h
  obtain ⟨⟨pre, hpre⟩, -⟩ := firstTimed_eq_some hfirst
  rw [hpre] at hused
  have htail : pt.Forward (.state s :: rest) := hused.forward.sublist (List.sublist_append_right _ _)
  have hfrom : pt.From s.timestamp rest := fun s' hs' =>
    (hused.estimates s (by simp)).trans (htail.from_head s' hs')
  exact ⟨⟨(syncSwitch_newPtq pt).trans hsync, (selecting_newPtq pt).congr rfl rfl rfl, htail.tail,
    fun _ => le_rfl, hfrom, hfrom⟩, rfl⟩

lemma decoding_steady (hs : pt.Sorted) (hff : pt.SkipsEarlier) : Decoding pt (Steadily pt) pt.kept where
  clock h := h.now
  head h _ hx := h.head hx
  idle := rfl
  run h queueNr limit := runDecoder_inOrder hs hff queueNr limit 0 h.toInOrder

end Steadiness

namespace IntelPt

variable {pt : IntelPt} {input : List Decoded}

/-- The states of a queue are not later than `b`, and their own times are not before `a`. -/
def Within (pt : IntelPt) (a b : ℕ) (input : List Decoded) : Prop :=
  ∀ s, .state s ∈ input → pt.stamp s ≤ b ∧ (s.timestamp ≠ 0 → a ≤ s.timestamp)

/-- After passing over results, the first state has a time, and it is its own. -/
def Resumes (pt : IntelPt) (input : List Decoded) : Prop :=
  ∀ t, pt.fastForward t input ≠ 0 → ∀ x ∈ (pt.states (input.drop (pt.fastForward t input))).head?,
    x.1 = x.2.timestamp ∧ x.1 ≠ 0

lemma selects_newPtq (pt : IntelPt) (u : ℕ) :
    pt.selects (newPtq pt) u = (pt.timeRanges.isEmpty || pt.timeRanges.any (·.holds u)) := by
  rw [newPtq, setupTimeRange]
  cases hrs : pt.timeRanges with
  | nil => simp [selects, zeroPtq]
  | cons r rs =>
    have hhead : pt.rangeAt 0 = r := by rw [rangeAt, hrs, List.getD_cons_zero]
    simp only [List.length_cons, Nat.succ_ne_zero, if_false, hhead]
    split_ifs with hstart
    · simp [selects, hrs]
    · simp [selects, hrs, TimeRange.holds, not_not.mp hstart]

/-- All samples from the first state with a time on. -/
def unselected (pt : IntelPt) (input : List Decoded) : List (ℕ × PtState) :=
  match firstTimed input with
  | none => []
  | some (s, rest) => (s.timestamp, s) :: pt.states rest

end IntelPt

lemma firstTimed_append (input rest : List Decoded) :
    firstTimed (input ++ rest) =
      match firstTimed input with
      | none => firstTimed rest
      | some (s, after) => some (s, after ++ rest) := by
  induction input with
  | nil => rfl
  | cons d input ih =>
    cases d with
    | error est fromIp => exact ih
    | state s =>
      rw [List.cons_append, firstTimed, firstTimed]
      split_ifs
      · rfl
      · exact ih

def resumed (pt : IntelPt) (input : List Decoded) : List Decoded :=
  if (newPtq pt).selStart && (newPtq pt).selTimestamp != 0 then
    input.drop (pt.fastForward (newPtq pt).selTimestamp input)
  else input

structure Selected (tc : TscConversion) (a b : ℕ) (ps : List PerfTimeInterval) (pt : IntelPt) : Prop where
  turn : tc.OneTurn a b
  time_pos : 0 < tc.tscToPerfTime a
  ranges : List.Forall₂ (tc.Matches a b) ps pt.timeRanges
  sorted : pt.Sorted

section Selection

variable {tc : TscConversion} {a b : ℕ} {ps : List PerfTimeInterval} {pt : IntelPt} {input : List Decoded}

lemma any_holds {rs : List TimeRange} (h : List.Forall₂ (tc.Matches a b) ps rs) {u : ℕ} (hau : a ≤ u)
    (hub : u ≤ b) : (rs.isEmpty || rs.any (·.holds u)) = (ps.isEmpty || ps.any fun p =>
      p.start ≤ tc.tscToPerfTime u && (tc.tscToPerfTime u ≤ p.stop || p.stop = 0)) := by
  have hany : rs.any (·.holds u) = ps.any fun p =>
      p.start ≤ tc.tscToPerfTime u && (tc.tscToPerfTime u ≤ p.stop || p.stop = 0) := by
    induction h with
    | nil => rfl
    | cons hr _ ih => rw [List.any_cons, List.any_cons, ih, hr.holds hau hub]
  cases h with
  | nil => rfl
  | cons _ _ => exact hany

lemma Selected.selects (h : Selected tc a b ps pt) {u : ℕ} (hau : a ≤ u) (hub : u ≤ b) :
    pt.selects (newPtq pt) u = !rangesSkipSample ps (tc.tscToPerfTime u) := by
  have hpos : 0 < tc.tscToPerfTime u := h.time_pos.trans_le (h.turn.mono a u le_rfl hau hub)
  rw [IntelPt.selects_newPtq, TscConversion.rangesSkipSample_eq hpos.ne', Bool.not_not,
    any_holds h.ranges hau hub]

lemma Selected.skips_before (h : Selected tc a b ps pt) {u : ℕ} (hau : a ≤ u) (hub : u ≤ b)
    (hstart : (newPtq pt).selStart = true) (hu : u < (newPtq pt).selTimestamp) :
    rangesSkipSample ps (tc.tscToPerfTime u) = true := by
  rcases selecting_newPtq pt with ⟨hstop, -⟩ | ⟨hb, -⟩
  · exact absurd (hstart.symm.trans hstop) (by decide)
  · have hnone := IntelPt.not_selects_before h.sorted hb hstart hu
    rwa [h.selects hau hub, Bool.not_eq_false'] at hnone

lemma shown_append (xs ys : List (ℕ × PtState)) :
    shown tc ps (xs ++ ys) = shown tc ps xs ++ shown tc ps ys := List.filter_append ..

lemma shown_eq_nil {xs : List (ℕ × PtState)}
    (h : ∀ x ∈ xs, rangesSkipSample ps (tc.tscToPerfTime x.1) = true) : shown tc ps xs = [] := by
  refine List.filter_eq_nil_iff.mpr fun x hx => ?_
  rw [h x hx]
  decide

lemma Steady.within (hsteady : Steady pt input) (hw : pt.Within a b input) {s : PtState}
    {rest : List Decoded} (hfirst : firstTimed input = some (s, rest)) :
    (a ≤ s.timestamp ∧ s.timestamp ≤ b) ∧ ∀ x ∈ pt.states rest, a ≤ x.1 ∧ x.1 ≤ b := by
  obtain ⟨⟨pre, hpre⟩, htimed⟩ := firstTimed_eq_some hfirst
  have hmem : Decoded.state s ∈ input := by simp [hpre]
  have hle := hsteady.estimates s hmem
  have ha := (hw s hmem).2 htimed
  refine ⟨⟨ha, hle.trans (hw s hmem).1⟩, fun x hx => ?_⟩
  obtain ⟨hx, heq⟩ := IntelPt.mem_states.mp hx
  have hforward : pt.Forward (.state s :: rest) := by
    have hall := hsteady.forward
    rw [hpre] at hall
    exact hall.sublist (List.sublist_append_right _ _)
  rw [heq]
  exact ⟨ha.trans (hle.trans (hforward.from_head _ hx)), (hw _ (by simp [hpre, hx])).1⟩

lemma Steady.resumed (hsteady : Steady pt input) : Steady pt (resumed pt input) := by
  rw [Decode.resumed]
  split_ifs
  · exact hsteady.drop _
  · exact hsteady

lemma IntelPt.Within.resumed (hw : pt.Within a b input) : pt.Within a b (resumed pt input) := by
  intro s hs
  rw [Decode.resumed] at hs
  split_ifs at hs
  · exact hw s (List.mem_of_mem_drop hs)
  · exact hw s hs

/-- The first sample is only checked against the first start. -/
lemma started_eq (pt : IntelPt) (input : List Decoded) :
    started pt pt.kept input = match firstTimed (resumed pt input) with
      | none => []
      | some (s, rest) => (if (newPtq pt).selStart && (newPtq pt).selTimestamp != 0 &&
          s.timestamp < (newPtq pt).selTimestamp then [] else [(s.timestamp, s)]) ++
          (pt.states rest).filter fun x => pt.selects (newPtq pt) x.1 := by
  rw [started, setupQueue, ← resumed]
  cases firstTimed (resumed pt input) with
  | none => rfl
  | some r =>
    refine congrArg (· ++ _) ?_
    rw [Ptq.pending]
    cases hdrop : (newPtq pt).selStart && (newPtq pt).selTimestamp != 0 &&
      decide (r.1.timestamp < (newPtq pt).selTimestamp) <;> simp [hdrop]

lemma Selected.shown_started (h : Selected tc a b ps pt) (hsteady : Steady pt input)
    (hw : pt.Within a b input) :
    shown tc ps (started pt pt.kept input) = shown tc ps (pt.unselected (resumed pt input)) := by
  rw [started_eq, IntelPt.unselected]
  cases hfirst : firstTimed (resumed pt input) with
  | none => rfl
  | some r =>
    obtain ⟨s, rest⟩ := r
    obtain ⟨⟨ha, hb⟩, hrest⟩ := hsteady.resumed.within hw.resumed hfirst
    have hlater : shown tc ps ((pt.states rest).filter fun x => pt.selects (newPtq pt) x.1) =
        shown tc ps (pt.states rest) := by
      rw [shown, List.filter_filter]
      refine List.filter_congr fun x hx => ?_
      rw [h.selects (hrest x hx).1 (hrest x hx).2, Bool.and_self]
    dsimp only
    rw [shown_append, hlater]
    split_ifs with hdrop
    · simp only [Bool.and_eq_true, decide_eq_true_eq] at hdrop
      have hskip := h.skips_before ha hb hdrop.1.1 hdrop.2
      simp [shown, hskip]
    · exact (shown_append [(s.timestamp, s)] (pt.states rest)).symm

lemma unselected_of_head {rest : List Decoded}
    (hhead : ∀ x ∈ (pt.states rest).head?, x.1 = x.2.timestamp ∧ x.1 ≠ 0) :
    pt.unselected rest = pt.states rest := by
  induction rest with
  | nil => rfl
  | cons d rest ih =>
    cases d with
    | error est fromIp => exact ih hhead
    | state s =>
      obtain ⟨heq, hne⟩ := hhead (pt.stamp s, s) rfl
      dsimp only at heq hne
      rw [IntelPt.unselected, firstTimed, if_pos (heq ▸ hne), IntelPt.states_cons_state, heq]

lemma Selected.shown_resumed (h : Selected tc a b ps pt) (hff : pt.SkipsEarlier)
    (hsteady : Steady pt input) (hw : pt.Within a b input) (hres : pt.Resumes input) :
    shown tc ps (pt.unselected (resumed pt input)) = shown tc ps (pt.unselected input) := by
  rw [resumed]
  split_ifs with hsel
  · rw [Bool.and_eq_true] at hsel
    set sel := (newPtq pt).selTimestamp
    set k := pt.fastForward sel input with hk
    by_cases hzero : k = 0
    · rw [hzero, List.drop_zero]
    · cases hfirst : firstTimed (input.take k) with
      | none =>
        have hsame : firstTimed input = firstTimed (input.drop k) := by
          conv_lhs => rw [← List.take_append_drop k input, firstTimed_append, hfirst]
        rw [IntelPt.unselected, IntelPt.unselected, hsame]
      | some r =>
        obtain ⟨s, after⟩ := r
        have hall : firstTimed input = some (s, after ++ input.drop k) := by
          conv_lhs => rw [← List.take_append_drop k input, firstTimed_append, hfirst]
        obtain ⟨⟨ha, hb⟩, hrest⟩ := hsteady.within hw hall
        obtain ⟨⟨pre, hpre⟩, -⟩ := firstTimed_eq_some hfirst
        have hmem : Decoded.state s ∈ input.take k := by simp [hpre]
        have hsplit : pt.unselected input =
            ((s.timestamp, s) :: pt.states after) ++ pt.states (input.drop k) := by
          rw [IntelPt.unselected, hall]
          exact congrArg _ List.filterMap_append
        have hskip : shown tc ps ((s.timestamp, s) :: pt.states after) = [] := by
          refine shown_eq_nil fun x hx => ?_
          rcases List.mem_cons.mp hx with rfl | hx
          · refine h.skips_before ha hb hsel.1 ?_
            exact (hsteady.estimates s (List.mem_of_mem_take hmem)).trans_lt (hff sel input s hmem)
          · obtain ⟨hx', heq⟩ := IntelPt.mem_states.mp hx
            have hbounds := hrest x (IntelPt.mem_states.mpr ⟨List.mem_append_left _ hx', heq⟩)
            refine h.skips_before hbounds.1 hbounds.2 hsel.1 ?_
            rw [heq]
            exact hff sel input x.2 (by rw [← hk, hpre]; simp [hx'])
        rw [hsplit, shown_append, hskip, List.nil_append, unselected_of_head (hres sel hzero)]
  · rfl

lemma started_of_nil (pt : IntelPt) (hnil : pt.timeRanges = []) (input : List Decoded) :
    started pt pt.kept input = pt.unselected input := by
  have hnew : newPtq pt = { zeroPtq with syncSwitch := pt.syncSwitch } := by
    rw [newPtq, IntelPt.setupTimeRange, hnil]
    rfl
  have hall : ∀ u, pt.selects (newPtq pt) u = true := by
    intro u
    rw [IntelPt.selects_newPtq, hnil]
    rfl
  have hresumed : resumed pt input = input := by
    rw [resumed, hnew]
    rfl
  have hstart : (newPtq pt).selStart = false := by
    rw [hnew]
    rfl
  rw [started_eq, hresumed, IntelPt.unselected]
  simp [hall, hstart]

lemma started_le (hsteady : Steady pt input) (hw : pt.Within a b input) {x : ℕ × PtState}
    (hx : x ∈ started pt pt.kept input) : x.1 ≤ b := by
  rw [started_eq] at hx
  cases hfirst : firstTimed (resumed pt input) with
  | none =>
    rw [hfirst] at hx
    cases hx
  | some r =>
    obtain ⟨⟨-, hb⟩, hrest⟩ := hsteady.resumed.within hw.resumed hfirst
    rw [hfirst] at hx
    rcases List.mem_append.mp hx with hx | hx
    · split_ifs at hx
      · cases hx
      · rw [List.mem_singleton.mp hx]
        exact hb
    · exact (hrest x (List.mem_of_mem_filter hx)).2

lemma decodeSession_gives (pt : IntelPt) (hsync : pt.syncSwitch = false) (hs : pt.Sorted)
    (hff : pt.SkipsEarlier) (hb : b < maxTimestamp)
    {inputs : List (List Decoded)} (hin : ∀ input ∈ inputs, Steady pt input ∧ pt.Within a b input)
    (hlen : inputs.length ≤ 2 ^ 31) (times : List ℕ) :
    ∃ out, decodeSession pt inputs times = .ok out ∧
      ∀ nr, samplesOfQueue nr out = started pt pt.kept (inputs.getD nr []) := by
  have hsetup : ∀ input ∈ inputs, ∀ queue, setupQueue pt input = some queue →
      Steadily pt queue.ptq.timestamp queue.ptq queue.input :=
    fun input hi queue hq => (hin input hi).1.setupQueue hsync hq
  obtain ⟨s, s', out, hset, hrun, hkept, -, hpast⟩ :=
    session_gives (decoding_steady hs hff) hsetup hlen (times ++ [maxTimestamp])
  refine ⟨out, ?_, fun nr => ?_⟩
  · rw [decodeSession, hset, Support.Runs.ok_bind, hrun]
    rfl
  · have hgives := hkept nr
    have hempty : s'.left pt.kept nr = [] := by
      rw [← List.head?_eq_none_iff]
      by_contra hne
      obtain ⟨x, hx⟩ := Option.ne_none_iff_exists'.mp hne
      have hle := hpast nr x hx maxTimestamp (List.mem_append_right _ (List.mem_singleton_self _))
      have hmem : x ∈ started pt pt.kept (inputs.getD nr []) :=
        hgives ▸ List.mem_append_right _ (List.mem_of_mem_head? hx)
      rcases lt_or_ge nr inputs.length with hnr | hnr
      · rw [List.getD_eq_getElem _ _ hnr] at hmem
        obtain ⟨hsteady, hw⟩ := hin _ (List.getElem_mem hnr)
        exact absurd (hle.trans (started_le hsteady hw hmem)) (not_le.mpr hb)
      · rw [List.getD_eq_default _ _ hnr, started_nil] at hmem
        cases hmem
    rwa [hempty, List.append_nil] at hgives

lemma TscConversion.OneTurn.sorted (hps : ps.Pairwise fun p p' => p.start ≤ p'.start)
    {rs : List TimeRange} (hrs : List.Forall₂ (tc.Matches a b) ps rs) :
    rs.Pairwise fun r r' => r.start ≤ r'.start := by
  induction hrs with
  | nil => exact .nil
  | @cons p r ps rs hr hrest ih =>
    obtain ⟨hhead, htail⟩ := List.pairwise_cons.mp hps
    refine List.pairwise_cons.mpr ⟨fun r' hr' => ?_, ih htail⟩
    obtain ⟨i, hi, rfl⟩ := List.getElem_of_mem hr'
    have hip : i < ps.length := hrest.length_eq ▸ hi
    have hmatch := List.forall₂_iff_get.mp hrest |>.2 i hip hi
    exact hr.start_mono hmatch (hhead _ (List.getElem_mem hip))

/-- Fast forward to a state with a time of its own, two results on. -/
def forwardTwo (t : ℕ) : List Decoded → ℕ
  | .state s :: .state s' :: .state s'' :: _ =>
    if max s.timestamp s.estTimestamp < t ∧ max s'.timestamp s'.estTimestamp < t ∧
      s''.timestamp = s''.estTimestamp ∧ s''.timestamp ≠ 0 then 2 else 0
  | _ => 0

lemma forwardTwo_ne_zero {t : ℕ} {input : List Decoded} (h : forwardTwo t input ≠ 0) :
    forwardTwo t input = 2 ∧ ∃ s s' s'' rest, input = .state s :: .state s' :: .state s'' :: rest ∧
      max s.timestamp s.estTimestamp < t ∧ max s'.timestamp s'.estTimestamp < t ∧
      s''.timestamp = s''.estTimestamp ∧ s''.timestamp ≠ 0 := by
  revert h
  fun_cases forwardTwo t input with
  | case1 s s' s'' rest hskip => exact fun _ => ⟨rfl, s, s', s'', rest, rfl, hskip⟩
  | case2 s s' s'' rest hskip => exact fun h => absurd rfl h
  | case3 input hinput => exact fun h => absurd rfl h

def forwarding : IntelPt := { estimated with fastForward := forwardTwo }

lemma stamp_le (pt : IntelPt) (s : PtState) : pt.stamp s ≤ max s.timestamp s.estTimestamp := by
  rw [IntelPt.stamp]
  split_ifs
  · exact le_max_right _ _
  · exact le_max_left _ _

lemma skipsEarlier_forwarding : forwarding.SkipsEarlier := by
  intro t input s hs
  by_cases hzero : forwardTwo t input = 0
  · rw [show forwarding.fastForward = forwardTwo from rfl, hzero] at hs
    exact absurd hs List.not_mem_nil
  · obtain ⟨htwo, s₀, s₁, s₂, rest, rfl, h₀, h₁, -⟩ := forwardTwo_ne_zero hzero
    rw [show forwarding.fastForward = forwardTwo from rfl, htwo] at hs
    rcases List.mem_cons.mp hs with heq | hs
    · cases heq
      exact (stamp_le _ _).trans_lt h₀
    · rcases List.mem_cons.mp hs with heq | hs
      · cases heq
        exact (stamp_le _ _).trans_lt h₁
      · exact absurd hs List.not_mem_nil

lemma resumes_forwarding (input : List Decoded) : forwarding.Resumes input := by
  intro t hne x hx
  obtain ⟨htwo, s₀, s₁, s₂, rest, rfl, -, -, hown, hpos⟩ := forwardTwo_ne_zero hne
  rw [show forwarding.fastForward = forwardTwo from rfl, htwo] at hx
  cases hx
  have hstamp : forwarding.stamp s₂ = s₂.timestamp := by
    rw [IntelPt.stamp, hown, ite_self]
  exact ⟨hstamp, hstamp.symm ▸ hpos⟩

/-- Of the first queue, two states are passed over, and the one at 7 is given the time 8. -/
def rangedQueues : List (List Decoded) :=
  [[.state ⟨2, 2, 1, 1, 1⟩, .state ⟨3, 4, 200, 2, 1⟩, .state ⟨6, 6, 2, 3, 1⟩, .state ⟨7, 8, 200, 2, 1⟩,
    .state ⟨12, 12, 2, 2, 1⟩], [.error 3 1, .state ⟨5, 5, 1, 3, 1⟩]]

def nanoseconds : TscConversion := ⟨0, 1, 0, 0, 0, false⟩

end Selection

end PtPerf.Decode
