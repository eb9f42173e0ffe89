import PtPerf.Analysis.Recoding

/-! Dividing the interval of latencies or of times at which calls are counted. The calls of the two parts
are those of the whole. What is left unfinished has no latency and is counted in every part. -/

namespace PtPerf.Analysis

open PtPerf.Support PtPerf.Trace PtPerf.Stats

/-- The options of the two parts, when the whole is divided after `b`. -/
inductive Divides (p : Param) : Param → Param → Prop
  | latency {b : UInt64} (hfirst : p.latencyInterval.1 ≤ b) (hlast : b < p.latencyInterval.2) :
      Divides p { p with latencyInterval := (p.latencyInterval.1, b) }
        { p with latencyInterval := (b + 1, p.latencyInterval.2) }
  | time {b : UInt64} (hfirst : p.timeInterval.1 ≤ b) (hlast : b < p.timeInterval.2) :
      Divides p { p with timeInterval := (p.timeInterval.1, b) }
        { p with timeInterval := (b + 1, p.timeInterval.2) }

/-- The options under which no call is counted. -/
def noCalls (p : Param) : Param := { p with latencyInterval := (1, 0) }

section Splitting

variable {p p₁ p₂ : Param} {s s' : State} {a : Action} {rest : List Action} {es : List Effect} {t : Tally}

/-- The options that only `FuncStat::add` reads do not change. -/
structure SameRounds (p q : Param) : Prop where
  rounds : step q = step p
  codeBlock : q.codeBlock = p.codeBlock
  caller : FuncStat.callerKey q.statOption = FuncStat.callerKey p.statOption

lemma Divides.same (h : Divides p p₁ p₂) : SameRounds p p₁ ∧ SameRounds p p₂ := by
  cases h with
  | latency | time => exact ⟨⟨rfl, rfl, rfl⟩, ⟨rfl, rfl, rfl⟩⟩

lemma sameRounds_noCalls (p : Param) : SameRounds p (noCalls p) := ⟨rfl, rfl, rfl⟩

/-- A value is in the whole interval if it is in one of the parts, and it is not in both. -/
lemma interval_splits {x lo b hi : UInt64} (hfirst : lo ≤ b) (hlast : b < hi) :
    ((lo ≤ x ∧ x ≤ hi) ↔ (lo ≤ x ∧ x ≤ b) ∨ (b + 1 ≤ x ∧ x ≤ hi)) ∧
      ¬ ((lo ≤ x ∧ x ≤ b) ∧ (b + 1 ≤ x ∧ x ≤ hi)) := by
  have hhi := hi.toNat_lt
  have hb : (b + 1).toNat = b.toNat + 1 := by
    rw [UInt64.lt_iff_toNat_lt] at hlast
    rw [UInt64.toNat_add, show (1 : UInt64).toNat = 1 from rfl]
    omega
  simp only [UInt64.le_iff_toNat_le, UInt64.lt_iff_toNat_lt] at hfirst hlast ⊢
  omega

lemma counted_iff {lat ts : UInt64} : counted p lat ts = true ↔
    (p.latencyInterval.1 ≤ lat ∧ lat ≤ p.latencyInterval.2) ∧
      (p.timeInterval.1 ≤ ts ∧ ts ≤ p.timeInterval.2) ∧ (p.timeline && ts ≥ p.timeStart) = false := by
  simp only [counted, FuncStat.inInterval, Bool.and_eq_true, Bool.not_eq_true', Bool.or_eq_false_iff,
    decide_eq_false_iff_not, UInt64.not_lt, gt_iff_lt, and_assoc]
  rfl

/-- A call is counted in the whole if it is counted in one of the parts, and it is not counted in both. -/
lemma Divides.counted (h : Divides p p₁ p₂) (lat ts : UInt64) :
    counted p lat ts = (counted p₁ lat ts || counted p₂ lat ts) ∧
      (counted p₁ lat ts && counted p₂ lat ts) = false := by
  rw [Bool.eq_iff_iff, Bool.or_eq_true, ← Bool.not_eq_true, Bool.and_eq_true, counted_iff, counted_iff, counted_iff]
  cases h with
  | latency hfirst hlast =>
    obtain ⟨hor, hnot⟩ := interval_splits (x := lat) hfirst hlast
    dsimp only
    tauto
  | time hfirst hlast =>
    obtain ⟨hor, hnot⟩ := interval_splits (x := ts) hfirst hlast
    dsimp only
    tauto

lemma counted_noCalls (p : Param) (lat ts : UInt64) : counted (noCalls p) lat ts = false := by
  rw [← Bool.not_eq_true, counted_iff]
  rintro ⟨⟨hlo, hhi⟩, -⟩
  exact absurd (UInt64.le_trans hlo hhi) (show ¬ (1 : UInt64) ≤ 0 by decide)

lemma SameRounds.ofCall {q : Param} (h : SameRounds p q) {call ret : Action} {latS : UInt64} {child : LatencyChild}
    (hok : Tally.ofCall p.statOption call ret latS child = .ok t)
    (hc : Analysis.counted p (ret.ts - call.ts) call.ts = true) :
    Tally.ofCall q.statOption call ret latS child =
      .ok (if Analysis.counted q (ret.ts - call.ts) call.ts then t else 0) := by
  have hself : FuncStat.withSelf q.statOption = FuncStat.withSelf p.statOption := by
    funext latT latS child
    rw [FuncStat.withSelf, FuncStat.withSelf,
      show q.statOption.codeBlock = p.statOption.codeBlock from h.codeBlock]
  rw [ofCall_eq, if_pos hc] at hok
  rw [ofCall_eq, h.caller, hself]
  split_ifs at hok ⊢ with hrange
  · exact hok
  · rfl

lemma Divides.tally (h : Divides p p₁ p₂) {e : Effect} (ht : e.tally p.statOption = .ok t) :
    ∃ t₀ t₁ t₂, e.tally (noCalls p).statOption = .ok t₀ ∧ e.tally p₁.statOption = .ok t₁ ∧
      e.tally p₂.statOption = .ok t₂ ∧ t + t₀ = t₁ + t₂ := by
  cases e with
  | add call ret latS child =>
    obtain ⟨hsame₁, hsame₂⟩ := h.same
    obtain ⟨hor, hnot⟩ := h.counted (ret.ts - call.ts) call.ts
    have hnone : ∀ q : Param, Analysis.counted q (ret.ts - call.ts) call.ts = false →
        Tally.ofCall q.statOption call ret latS child = .ok 0 := by
      intro q hq
      rw [ofCall_eq, hq, if_neg Bool.false_ne_true]
    by_cases hc : Analysis.counted p (ret.ts - call.ts) call.ts = true
    · refine ⟨0, _, _, hnone _ (counted_noCalls p _ _), hsame₁.ofCall ht hc, hsame₂.ofCall ht hc, ?_⟩
      rw [hc] at hor
      rcases Bool.eq_false_or_eq_true (Analysis.counted p₁ (ret.ts - call.ts) call.ts) with h₁ | h₁
      · rw [h₁, Bool.true_and] at hnot
        simp [h₁, hnot]
      · rw [h₁, Bool.false_or] at hor
        simp [h₁, ← hor]
    · rw [Bool.not_eq_true] at hc
      rw [hc] at hor
      obtain ⟨h₁, h₂⟩ := Bool.or_eq_false_iff.mp hor.symm
      have hzero : t = 0 := Except.ok.inj (ht.symm.trans (hnone p hc))
      exact ⟨0, 0, 0, hnone _ (counted_noCalls p _ _), hnone _ h₁, hnone _ h₂, by rw [hzero]⟩
  | addUnknownLatency | countSched | addMiss | countAncestorBegin | countAncestorEnd =>
    exact ⟨t, t, t, ht, ht, ht, rfl⟩

lemma Divides.totalTally (h : Divides p p₁ p₂) (ht : totalTally p.statOption es = .ok t) :
    ∃ t₀ t₁ t₂, totalTally (noCalls p).statOption es = .ok t₀ ∧ totalTally p₁.statOption es = .ok t₁ ∧
      totalTally p₂.statOption es = .ok t₂ ∧ t + t₀ = t₁ + t₂ := by
  induction es generalizing t with
  | nil =>
    cases ht
    exact ⟨0, 0, 0, rfl, rfl, rfl, rfl⟩
  | cons e es ih =>
    obtain ⟨u, v, hu, hv, rfl⟩ := totalTally_cons_inv ht
    obtain ⟨u₀, u₁, u₂, hu₀, hu₁, hu₂, hsum⟩ := h.tally hu
    obtain ⟨v₀, v₁, v₂, hv₀, hv₁, hv₂, hsum'⟩ := ih hv
    refine ⟨u₀ + v₀, u₁ + v₁, u₂ + v₂, ?_, ?_, ?_, ?_⟩
    · rw [Analysis.totalTally, hu₀, hv₀]
      rfl
    · rw [Analysis.totalTally, hu₁, hv₁]
      rfl
    · rw [Analysis.totalTally, hu₂, hv₂]
      rfl
    · rw [add_add_add_comm, hsum, hsum', add_add_add_comm]

lemma SameRounds.tallyFrom_cons {q : Param} (h : SameRounds p q) (hstep : step p s a rest = .ok (s', es))
    {u v : Tally} (hes : totalTally q.statOption es = .ok u) (hrest : tallyFrom q s' rest = .ok v) :
    tallyFrom q s (a :: rest) = .ok (u + v) := by
  have hstep' : step q s a rest = .ok (s', es) := by rw [h.rounds, hstep]
  rw [tallyFrom_cons_ok hstep', hes, hrest]
  rfl

lemma Divides.tallyFrom (h : Divides p p₁ p₂) {xs : List Action} (ht : tallyFrom p s xs = .ok t) :
    ∃ t₀ t₁ t₂, tallyFrom (noCalls p) s xs = .ok t₀ ∧ tallyFrom p₁ s xs = .ok t₁ ∧
      tallyFrom p₂ s xs = .ok t₂ ∧ t + t₀ = t₁ + t₂ := by
  induction xs generalizing s t with
  | nil => exact h.totalTally ht
  | cons a rest ih =>
    obtain ⟨s', es, u, v, hstep, hes, hrest, rfl⟩ := tallyFrom_cons_inv ht
    obtain ⟨u₀, u₁, u₂, hu₀, hu₁, hu₂, hsum⟩ := h.totalTally hes
    obtain ⟨v₀, v₁, v₂, hv₀, hv₁, hv₂, hsum'⟩ := ih hrest
    refine ⟨u₀ + v₀, u₁ + v₁, u₂ + v₂, (sameRounds_noCalls p).tallyFrom_cons hstep hu₀ hv₀,
      h.same.1.tallyFrom_cons hstep hu₁ hv₁, h.same.2.tallyFrom_cons hstep hu₂ hv₂, ?_⟩
    rw [add_add_add_comm, hsum, hsum', add_add_add_comm]

lemma noCalls_tally {e : Effect} (ht : e.tally (noCalls p).statOption = .ok t) :
    t.latency.target = 0 ∧ t.latency.sched = 0 := by
  cases e with
  | add call ret latS child =>
    rw [Effect.tally, ofCall_eq, counted_noCalls, if_neg Bool.false_ne_true] at ht
    cases ht
    exact ⟨rfl, rfl⟩
  | addUnknownLatency child caller =>
    cases ht
    exact ⟨add_zero 0, add_zero 0⟩
  | countSched | addMiss | countAncestorBegin | countAncestorEnd =>
    cases ht
    exact ⟨rfl, rfl⟩

lemma noCalls_totalTally (ht : totalTally (noCalls p).statOption es = .ok t) :
    t.latency.target = 0 ∧ t.latency.sched = 0 := by
  induction es generalizing t with
  | nil =>
    cases ht
    exact ⟨rfl, rfl⟩
  | cons e es ih =>
    obtain ⟨u, v, hu, hv, rfl⟩ := totalTally_cons_inv ht
    obtain ⟨htarget, hsched⟩ := noCalls_tally hu
    obtain ⟨htarget', hsched'⟩ := ih hv
    simp only [Tally.add_latency, Latency.add_target, Latency.add_sched, htarget, htarget', hsched, hsched',
      add_zero, and_self]

lemma noCalls_tallyFrom {xs : List Action} (ht : tallyFrom (noCalls p) s xs = .ok t) :
    t.latency.target = 0 ∧ t.latency.sched = 0 := by
  induction xs generalizing s t with
  | nil => exact noCalls_totalTally ht
  | cons a rest ih =>
    obtain ⟨s', es, u, v, -, hes, hrest, rfl⟩ := tallyFrom_cons_inv ht
    obtain ⟨htarget, hsched⟩ := noCalls_totalTally hes
    obtain ⟨htarget', hsched'⟩ := ih hrest
    simp only [Tally.add_latency, Latency.add_target, Latency.add_sched, htarget, htarget', hsched, hsched',
      add_zero, and_self]

lemma doAnalyze_of_tallyFrom {xs : List Action} (ht : tallyFrom p State.init xs = .ok t) :
    ∃ stat, doAnalyze p xs = .ok stat ∧ stat.toTally = t := by
  rw [← doAnalyze_toTally] at ht
  cases hstat : doAnalyze p xs with
  | error f =>
    rw [hstat] at ht
    cases ht
  | ok stat =>
    rw [hstat] at ht
    cases ht
    exact ⟨stat, rfl, rfl⟩

end Splitting

end PtPerf.Analysis
