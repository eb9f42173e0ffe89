import PtPerf.Analysis.Intervals

/-! The time off the cpu. Both accumulators of the analysis count the pairs of schedule marks that
lie after a certain moment: what they hold is at most the time since. -/

namespace PtPerf.Analysis

open PtPerf.Support PtPerf.Trace PtPerf.Stats

/-- The time that is counted lies between `base` and the pending mark, or `now` if there is none. -/
structure Clock (base now : ℕ) (pending : Option Action) (counted : UInt64) : Prop where
  within : counted.toNat + base ≤ (pending.map fun b => b.ts.toNat).getD now
  pending_le : ∀ b ∈ pending, b.ts.toNat ≤ now

inductive Tick (pending : Option Action) (counted : UInt64) (a : Action) :
    Option Action → UInt64 → Prop
  | keep : Tick pending counted a pending counted
  | drop : Tick pending counted a none counted
  | begin : Tick pending counted a (some a) counted
  | count {b} : pending = some b →
      Tick pending counted a none (counted + (a.ts - b.ts).toUInt32.toUInt64)
  | reset : Tick pending counted a pending 0
  | clear : Tick pending counted a none 0

section Clocks

variable {base now : ℕ} {pending pending' : Option Action} {counted counted' : UInt64} {a : Action}

lemma Clock.start (a : Action) : Clock a.ts.toNat a.ts.toNat none 0 := by
  refine ⟨?_, fun _ hb => by cases hb⟩
  simp

lemma Clock.within_now (h : Clock base now pending counted) : counted.toNat + base ≤ now := by
  refine h.within.trans ?_
  cases hp : pending with
  | none => exact le_rfl
  | some b => exact h.pending_le b hp

lemma toNat_sched (a b : Action) : (a.ts - b.ts).toUInt32.toUInt64.toNat = (a.ts - b.ts).toNat % 2 ^ 32 :=
  rfl

/-- The sleep that ends at `a` still fits before it. -/
lemma Clock.count_le {b : Action} (h : Clock base now (some b) counted) (hnow : now ≤ a.ts.toNat) :
    counted.toNat + (a.ts - b.ts).toUInt32.toUInt64.toNat + base ≤ a.ts.toNat := by
  have hw : counted.toNat + base ≤ b.ts.toNat := h.within
  have hba : b.ts.toNat ≤ a.ts.toNat := (h.pending_le b rfl).trans hnow
  have hsub : (a.ts - b.ts).toNat = a.ts.toNat - b.ts.toNat :=
    UInt64.toNat_sub_of_le _ _ (UInt64.le_iff_toNat_le.mpr hba)
  have hmod := Nat.mod_le (a.ts - b.ts).toNat (2 ^ 32)
  rw [toNat_sched]
  omega

lemma Clock.tick (h : Clock base now pending counted) (hnow : now ≤ a.ts.toNat)
    (ht : Tick pending counted a pending' counted') : Clock base a.ts.toNat pending' counted' := by
  have hle := h.within_now
  cases ht with
  | keep =>
    refine ⟨?_, fun b hb => (h.pending_le b hb).trans hnow⟩
    have hw := h.within
    cases pending with
    | none => exact hle.trans hnow
    | some b => exact hw
  | drop => exact ⟨hle.trans hnow, fun _ hb => by cases hb⟩
  | begin =>
    refine ⟨hle.trans hnow, fun b hb => ?_⟩
    cases hb
    exact le_rfl
  | count hb =>
    rename_i b
    subst hb
    refine ⟨?_, fun _ hb => by cases hb⟩
    have hcount := h.count_le hnow
    have hadd := Nat.mod_le (counted.toNat + (a.ts - b.ts).toUInt32.toUInt64.toNat) (2 ^ 64)
    rw [UInt64.toNat_add]
    change _ ≤ a.ts.toNat
    omega
  | reset =>
    refine ⟨?_, fun b hb => (h.pending_le b hb).trans hnow⟩
    have hw := h.within
    rw [UInt64.toNat_zero, Nat.zero_add]
    cases pending with
    | none => exact (le_of_add_le_right hle).trans hnow
    | some b => exact le_of_add_le_right hw
  | clear =>
    refine ⟨?_, fun _ hb => by cases hb⟩
    rw [UInt64.toNat_zero, Nat.zero_add]
    exact (le_of_add_le_right hle).trans hnow

end Clocks

section Rounds

variable {p : Param} {s s' : State} {a : Action} {es : List Effect}

lemma Block.target {c : Action} (h : Block s a c s') :
    s'.schedInTarget = s.schedInTarget ∧ s'.schedBegin = s.schedBegin := by
  cases h <;> exact ⟨rfl, rfl⟩

lemma Move.targetTick (h : Move p s a s' es) :
    Tick s.schedBegin s.schedInTarget a s'.schedBegin s'.schedInTarget := by
  cases h with
  | error => exact .clear
  | start => exact .clear
  | pass => exact .keep
  | schedBegin => exact .begin
  | schedEnd _ _ _ hb => exact .count hb
  | jump _ _ _ _ hb =>
    rw [hb.target.1, hb.target.2]
    exact .keep
  | switch _ _ hsw =>
    cases hsw with
    | resume => exact .keep
    | reopen => exact .keep
    | lose => exact .keep
    | call => exact .drop
    | blockCall _ _ _ hb =>
      have ht := hb.target.1
      change Tick s.schedBegin s.schedInTarget a none _
      rw [show _ = s.schedInTarget from ht]
      exact .drop
    | traceEnd => exact .keep
    | finish => exact .reset
    | back => exact .keep
    | wrong => exact .reset
    | other => exact .keep

lemma Move.eq_of_starts (h : Move p s a s' es) (hs : starts s a = true) :
    s' = (startStep p s a).1 := by
  cases h with
  | error he => simp [starts, he] at hs
  | start => rfl
  | pass _ hs' => exact absurd (hs'.symm.trans hs) Bool.false_ne_true
  | schedBegin _ hs' => exact absurd (hs'.symm.trans hs) Bool.false_ne_true
  | schedEnd _ hs' => exact absurd (hs'.symm.trans hs) Bool.false_ne_true
  | jump hh => exact absurd ((handled_starts hh).symm.trans hs) Bool.false_ne_true
  | switch hh => exact absurd ((handled_starts hh).symm.trans hs) Bool.false_ne_true

end Rounds

section Bottom

variable {p : Param} {actions : List Action} {i : ℕ} {s s' : State} {a : Action} {es : List Effect}
  {os : List Origin} {now : ℕ}

lemma bottom_cases (hm : Move p s a s' es) (ht : Tracked actions i s os) {e : Action} {o : Origin}
    (he : s'.stack.getLast? = some e) (ho : (nextOrigins i s a s' os).getLast? = some o)
    (hf : o.fresh = true) :
    (starts s a = true ∧ e = a) ∨ (s.stack.getLast? = some e ∧ os.getLast? = some o) := by
  have hlen := ht.length_eq
  rcases hm.stackMove with ⟨hs, hst⟩ | ⟨hs, hst, -⟩ | ⟨k, hs, hst⟩
  · rw [hst] at he
    exact Or.inl ⟨hs, (Option.some.inj he).symm⟩
  · rw [nextOrigins, hs, if_neg Bool.false_ne_true, hst, List.length_cons,
      if_pos (Nat.lt_succ_self _), List.getLast?_cons] at ho
    rw [hst, List.getLast?_cons] at he
    cases os with
    | nil =>
      rw [← Option.some.inj ho] at hf
      cases hf
    | cons o' os =>
      cases hstack : s.stack with
      | nil => simp [hstack] at hlen
      | cons e' stack =>
        rw [hstack] at he
        rw [List.getLast?_cons] at he ho ⊢
        rw [List.getLast?_cons]
        exact Or.inr ⟨he, ho⟩
  · rw [hst, List.getLast?_drop] at he
    rw [nextOrigins, hs, if_neg Bool.false_ne_true, hst, List.length_drop, if_neg (by omega),
      List.getLast?_drop] at ho
    split at he
    · cases he
    · split at ho
      · cases ho
      · exact Or.inr ⟨he, ho⟩

/-- The time counted for a call that the new-target branch has begun lies inside it. -/
def TargetBounded (now : ℕ) (s : State) (os : List Origin) : Prop :=
  ∀ e o, s.stack.getLast? = some e → os.getLast? = some o → o.fresh = true →
    Clock e.ts.toNat now s.schedBegin s.schedInTarget

lemma TargetBounded.next (hm : Move p s a s' es) (ht : Tracked actions i s os)
    (h : TargetBounded now s os) (hnow : now ≤ a.ts.toNat) :
    TargetBounded a.ts.toNat s' (nextOrigins i s a s' os) := by
  intro e o he ho hf
  rcases bottom_cases hm ht he ho hf with ⟨hs, rfl⟩ | ⟨he, ho⟩
  · rw [hm.eq_of_starts hs]
    exact Clock.start e
  · exact (h e o he ho hf).tick hnow hm.targetTick

lemma callsFrom_bounded (xs : List Action) (hdrop : actions.drop i = xs) (ht : Tracked actions i s os)
    (h : TargetBounded now s os) (hsorted : SortedByTime xs) (hnow : ∀ a ∈ xs, now ≤ a.ts.toNat) :
    ∀ c ∈ callsFrom p s os i xs, c.start.fresh = true → c.latS ≤ c.latency := by
  induction xs generalizing i s os now with
  | nil => exact fun c hc => absurd hc List.not_mem_nil
  | cons a rest ih =>
    cases hstep : step p s a rest with
    | error f =>
      rw [callsFrom_cons_error hstep]
      exact fun c hc => absurd hc List.not_mem_nil
    | ok r =>
      obtain ⟨s', es⟩ := r
      have hm := move_of_step hstep
      obtain ⟨ha, hdrop'⟩ := Spans.getElem?_of_drop hdrop
      have hle := hnow a List.mem_cons_self
      obtain ⟨hfirst, hsorted'⟩ := List.pairwise_cons.mp hsorted
      have htail := ih hdrop' (ht.next hm ha) (h.next hm ht hle) hsorted'
        fun b hb => UInt64.le_iff_toNat_le.mp (hfirst b hb)
      rw [callsFrom_cons_ok hstep]
      intro c hc hf
      rcases List.mem_append.mp hc with hc | hc
      · rcases callsIn_cases hm ht ha with ⟨hnone, -⟩ | ⟨d, -, hone, -, hat, hfin, hos, -, hlat, hst⟩
        · rw [hnone] at hc
          exact absurd hc List.not_mem_nil
        · rw [hone] at hc
          obtain rfl := List.mem_singleton.mp hc
          have hclock := (h c.call c.start (by rw [hst]; rfl) (by rw [hos]; rfl) hf).within_now
          obtain ⟨b, hb, hret⟩ := hat.ret
          obtain rfl : b = a := Option.some.inj (hb.symm.trans (hfin ▸ ha))
          have hts : c.ret.ts = b.ts := by rw [hret, rewriteJump_ts]
          have hcall : c.call.ts.toNat ≤ b.ts.toNat := (le_of_add_le_right hclock).trans hle
          rw [UInt64.le_iff_toNat_le, hlat, Call.latency, hts,
            UInt64.toNat_sub_of_le _ _ (UInt64.le_iff_toNat_le.mpr hcall)]
          omega
      · exact htail c hc hf

lemma calls_bounded (p : Param) {actions : List Action} (hsorted : SortedByTime actions) :
    ∀ c ∈ calls p actions, c.start.fresh = true → c.latS ≤ c.latency :=
  callsFrom_bounded actions rfl .nil (fun _ _ he => by cases he) hsorted
    fun _ _ => Nat.zero_le _

end Bottom

/-- The exact sum of the latencies that the threads record. -/
def recordedTime (p : Param) (threads : List (List Action)) : ℕ :=
  (((threads.flatMap (calls p)).filter (·.counted p.statOption)).map fun c => c.latency.toNat).sum

section Totals

variable {p : Param}

def schedTotal : Distribution × Distribution →+ UInt64 where
  toFun d := d.2.total
  map_zero' := rfl
  map_add' _ _ := rfl

lemma schedTotal_share_le (opt : StatOption) (key : Option Str) {c : Call} (h : c.latS ≤ c.latency) :
    (schedTotal (c.share opt key)).toNat ≤ (wallTotal (c.share opt key)).toNat := by
  rw [Call.share]
  split
  · change (if c.latS = 0 then (0 : Distribution) else .unit c.latS).total.toNat ≤ c.latency.toNat
    split
    · exact Nat.zero_le _
    · exact UInt64.le_iff_toNat_le.mp h
  · exact le_rfl

lemma wallTotal_share_le_counted (opt : StatOption) (key : Option Str) (c : Call) :
    (wallTotal (c.share opt key)).toNat ≤ if c.counted opt then c.latency.toNat else 0 := by
  rw [Call.share]
  cases c.counted opt with
  | false => exact le_rfl
  | true =>
    split
    · exact le_rfl
    · exact Nat.zero_le _

lemma toNat_sum_of_lt {α : Type} {f : α → UInt64} {l : List α}
    (h : (l.map fun x => (f x).toNat).sum < 2 ^ 64) :
    (l.map f).sum.toNat = (l.map fun x => (f x).toNat).sum := by
  induction l with
  | nil => rfl
  | cons x l ih =>
    rw [List.map_cons, List.sum_cons] at h ⊢
    rw [List.map_cons, List.sum_cons, UInt64.toNat_add, ih (by omega)]
    exact Nat.mod_eq_of_lt h

lemma merged_latencies (key : Option Str) {threads : List (List Action)} {stats : List FuncStat}
    (h : List.Forall₂ (fun l stat => doAnalyze p l = .ok stat) threads stats) (stat₀ : FuncStat) :
    latencies key (stats.foldl FuncStat.merge stat₀).toTally = latencies key stat₀.toTally +
      ((threads.flatMap (calls p)).map (Call.share p.statOption key)).sum := by
  induction h generalizing stat₀ with
  | nil => exact (add_zero _).symm
  | cons hok _ ih =>
    rw [List.foldl_cons, ih, List.flatMap_cons, List.map_append, List.sum_append, ← add_assoc]
    congr 1
    rw [← (countsCalls_latencies key).doAnalyze_eq hok, ← map_add]
    rfl

lemma sched_total_le (key : Option Str) {cs : List Call} {opt : StatOption}
    (hle : ∀ c ∈ cs, c.latS ≤ c.latency)
    (hlt : ((cs.filter (·.counted opt)).map fun c => c.latency.toNat).sum < 2 ^ 64) :
    schedTotal (cs.map (Call.share opt key)).sum ≤ wallTotal (cs.map (Call.share opt key)).sum := by
  have hwall : (cs.map fun c => (wallTotal (c.share opt key)).toNat).sum ≤
      ((cs.filter (·.counted opt)).map fun c => c.latency.toNat).sum := by
    clear hle hlt
    induction cs with
    | nil => exact le_rfl
    | cons c cs ih =>
      have hc := wallTotal_share_le_counted opt key c
      rw [List.map_cons, List.sum_cons, List.filter_cons]
      split
      · rename_i hcounted
        rw [if_pos hcounted] at hc
        exact Nat.add_le_add hc ih
      · rename_i hcounted
        rw [if_neg hcounted] at hc
        omega
  rw [map_list_sum, map_list_sum, List.map_map, List.map_map, UInt64.le_iff_toNat_le]
  calc _ ≤ (cs.map fun c => (wallTotal (c.share opt key)).toNat).sum :=
        toNat_sum_le_of_le fun c hc => schedTotal_share_le opt key (hle c hc)
    _ = _ := (toNat_sum_of_lt (hwall.trans_lt hlt)).symm

lemma schedAvg_le {lat : Latency} (h : lat.sched.total ≤ lat.target.total) :
    lat.schedAvg ≤ lat.target.getAvg := by
  rw [Latency.schedAvg, Distribution.getAvg]
  by_cases hz : lat.target.count = 0
  · simp [hz]
  · have hcount : (lat.target.count == 0) = false := by simpa using hz
    rw [hcount, if_neg Bool.false_ne_true]
    split
    · rw [UInt64.le_iff_toNat_le, UInt64.toNat_div, UInt64.toNat_div]
      exact Nat.div_le_div_right (UInt64.le_iff_toNat_le.mp h)
    · exact UInt64.zero_le

end Totals

theorem off_cpu_within_latency (p : Param) :
    (∀ actions, SortedByTime actions → ∀ c ∈ calls p actions, c.start.fresh = true →
      c.latS ≤ c.ret.ts - c.call.ts) ∧
    ∀ threads stats, (∀ l ∈ threads, SortedByTime l) →
      List.Forall₂ (fun l stat => doAnalyze p l = .ok stat) threads stats →
      (∀ l ∈ threads, ∀ c ∈ calls p l, c.start.fresh = true) →
      recordedTime p threads < 2 ^ 64 →
      ∀ key, let lat := latencyOf (stats.foldl FuncStat.merge .new).toTally key
        lat.sched.total ≤ lat.target.total ∧ lat.schedAvg ≤ lat.target.getAvg := by
  refine ⟨fun actions hsorted => calls_bounded p hsorted, ?_⟩
  intro threads stats hsorted hok hfresh hlt key
  have hlat := merged_latencies key hok .new
  have hle : ∀ c ∈ threads.flatMap (calls p), c.latS ≤ c.latency := by
    intro c hc
    obtain ⟨l, hl, hc⟩ := List.mem_flatMap.mp hc
    exact calls_bounded p (hsorted l hl) c hc (hfresh l hl c hc)
  have htotal := sched_total_le key hle hlt
  have hzero : latencies key FuncStat.new.toTally = 0 := map_zero _
  rw [hzero, zero_add] at hlat
  rw [← hlat] at htotal
  exact ⟨htotal, schedAvg_le htotal⟩

namespace Sample

def offcpuParam : Param := { param with offcpu := true }

def sleep (ts : UInt64) : Action :=
  branchOf offcpuParam .call ts ⟨lit "schedule", 0x402000, 16⟩ ⟨sysSchedFuncname, 0x402100, 0⟩

def wake (ts : UInt64) : Action :=
  branchOf offcpuParam .ret ts ⟨sysSchedFuncname, 0x402100, 64⟩ ⟨lit "schedule", 0x402000, 21⟩

def sleepingCall (ts : UInt64) : List Action := [enter ts, sleep (ts + 10), wake (ts + 60), leave .ret (ts + 100)]

end Sample

open Sample in
theorem sleeping_calls_bounded :
    (calls offcpuParam (sleepingCall 0)).map (fun c => (c.latS, c.start.fresh)) = [(50, true)] ∧
      ∃ stat, doAnalyze offcpuParam (sleepingCall 0) = .ok stat ∧
        ∀ key, let lat := latencyOf ([stat, stat].foldl FuncStat.merge .new).toTally key
          lat.sched.total ≤ lat.target.total ∧ lat.schedAvg ≤ lat.target.getAvg := by
  refine ⟨by decide +kernel, ?_⟩
  cases hstat : doAnalyze offcpuParam (sleepingCall 0) with
  | error f =>
    have hok : (doAnalyze offcpuParam (sleepingCall 0)).isOk = true := by decide +kernel
    rw [hstat] at hok
    cases hok
  | ok stat =>
    have hfresh : (calls offcpuParam (sleepingCall 0)).all (fun c => c.start.fresh) = true := by
      decide +kernel
    refine ⟨stat, rfl, (off_cpu_within_latency offcpuParam).2 [sleepingCall 0, sleepingCall 0]
      [stat, stat] ?_ (.cons hstat (.cons hstat .nil)) ?_ (by decide +kernel)⟩
    · intro l hl
      rcases List.mem_pair.mp hl with rfl | rfl <;> decide
    · intro l hl
      rcases List.mem_pair.mp hl with rfl | rfl <;> exact List.all_eq_true.mp hfresh

end PtPerf.Analysis
