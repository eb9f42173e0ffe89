import PtPerf.Stats.FuncStat

/-! Every operation on a `FuncStat` adds to its tally an amount that does not depend on what
the tally holds. -/

namespace PtPerf.Stats

open PtPerf.Support PtPerf.Trace

namespace Tally

def ofTarget (lat : UInt64) (caller : Str) : Tally where
  latency := ⟨.unit lat, 0, 0⟩
  children := 0
  callers := .single caller ⟨⟨.unit lat, 0, 0⟩, 0⟩
  schedCount := 0

def ofSched (lat : UInt64) (caller : Str) : Tally where
  latency := ⟨0, .unit lat, 0⟩
  children := 0
  callers := .single caller ⟨⟨0, .unit lat, 0⟩, 0⟩
  schedCount := 0

def ofLatency (latT latS : UInt64) (caller : Str) : Tally :=
  ofTarget latT caller + if latS = 0 then 0 else ofSched latS caller

def ofChildren (child : Children) (caller : Str) (gather : Bool) : Tally where
  latency := 0
  children := if gather then child else 0
  callers := .single caller ⟨0, child⟩
  schedCount := 0

def ofUnknown (child : Children) (caller : Str) : Tally :=
  ofChildren child caller (caller != unknownCaller) +
    ⟨⟨0, 0, if caller != unknownCaller then 1 else 0⟩, 0, 0, 0⟩

/-- The amount that `FuncStat::add` records for one finished call. -/
def ofCall (opt : StatOption) (call ret : Action) (latS : UInt64) (child : LatencyChild) :
    Except Fault Tally :=
  let latT := ret.ts - call.ts
  let caller := FuncStat.callerKey opt call ret
  if !FuncStat.inInterval opt latT call.ts || (opt.timeline && call.ts ≥ opt.timeStart) then .ok 0
  else if latT.toNat < 2 ^ 63 ∧ latS.toNat < 2 ^ 63 then
    .ok (ofLatency latT latS caller +
      ofChildren (FuncStat.withSelf opt latT latS child).toChildren caller true)
  else .error .slotLoop

end Tally

namespace FuncStat

lemma latency_add_target (l : Latency) (d : Distribution) :
    { l with target := l.target + d } = l + ⟨d, 0, 0⟩ :=
  Latency.ext rfl (add_zero _).symm (add_zero _).symm

lemma latency_add_sched (l : Latency) (d : Distribution) :
    { l with sched := l.sched + d } = l + ⟨0, d, 0⟩ :=
  Latency.ext (add_zero _).symm rfl (add_zero _).symm

/-- A latency entered in all and under its caller. -/
lemma tally_add_latency (t : Tally) (l : Latency) (caller : Str) :
    { t with
      latency := t.latency + l
      callers := t.callers.set caller
        { t.callers.get caller with latency := (t.callers.get caller).latency + l } } =
      t + ⟨l, 0, .single caller ⟨l, 0⟩, 0⟩ := by
  refine Tally.ext rfl (add_zero _).symm ?_ (add_zero _).symm
  rw [Tally.add_callers, ← TallyMap.bump_eq_add, TallyMap.bump]
  exact congrArg (t.callers.set caller) (LatencyCaller.ext rfl (add_zero _).symm)

lemma addTargetLatency_eq (s : FuncStat) (lat : UInt64) (caller : Str) :
    s.addTargetLatency lat caller =
      if lat.toNat < 2 ^ 63 then .ok { s with toTally := s.toTally + .ofTarget lat caller }
      else .error .slotLoop := by
  simp only [addTargetLatency, Distribution.assignSlot_eq]
  by_cases hv : lat.toNat < 2 ^ 63
  · simp only [hv, if_true, bind, Except.bind, pure, Except.pure, latency_add_target]
    exact congrArg (fun t => Except.ok { s with toTally := t }) (tally_add_latency s.toTally _ caller)
  · simp only [hv, if_false]
    rfl

lemma addSchedLatency_eq (s : FuncStat) (lat : UInt64) (caller : Str) :
    s.addSchedLatency lat caller =
      if lat.toNat < 2 ^ 63 then .ok { s with toTally := s.toTally + .ofSched lat caller }
      else .error .slotLoop := by
  simp only [addSchedLatency, Distribution.assignSlot_eq]
  by_cases hv : lat.toNat < 2 ^ 63
  · simp only [hv, if_true, bind, Except.bind, pure, Except.pure, latency_add_sched]
    exact congrArg (fun t => Except.ok { s with toTally := t }) (tally_add_latency s.toTally _ caller)
  · simp only [hv, if_false]
    rfl

lemma addLatency_eq (s : FuncStat) (latT latS : UInt64) (caller : Str) :
    s.addLatency latT latS caller =
      if latT.toNat < 2 ^ 63 ∧ latS.toNat < 2 ^ 63 then
        .ok { s with toTally := s.toTally + .ofLatency latT latS caller }
      else .error .slotLoop := by
  rw [addLatency, addTargetLatency_eq]
  by_cases ht : latT.toNat < 2 ^ 63
  · simp only [ht, true_and, if_true, bind, Except.bind, pure, Except.pure, Tally.ofLatency]
    by_cases hz : latS = 0
    · subst hz
      simp
    · have hb : (latS != 0) = true := by simpa using hz
      rw [if_pos hb, addSchedLatency_eq, if_neg hz]
      simp only [add_assoc]
  · simp only [ht, false_and, if_false]
    rfl

lemma addChildLatency_eq (s : FuncStat) (child : Children) (caller : Str) (gather : Bool) :
    s.addChildLatency child caller gather =
      { s with toTally := s.toTally + .ofChildren child caller gather } := by
  rw [addChildLatency]
  congr 1
  refine Tally.ext ?_ ?_ ?_ ?_
  · exact (add_zero _).symm
  · cases gather
    · exact (add_zero _).symm
    · rfl
  · rw [Tally.add_callers, Tally.ofChildren, ← TallyMap.bump_eq_add, TallyMap.bump]
    refine congrArg (s.callers.set caller) (LatencyCaller.ext ?_ ?_)
    · exact (add_zero _).symm
    · rfl
  · exact (add_zero _).symm

lemma addUnknownLatency_eq (s : FuncStat) (child : Children) (caller : Str) :
    s.addUnknownLatency child caller =
      { s with toTally := s.toTally + .ofUnknown child caller } := by
  rw [addUnknownLatency, addChildLatency_eq, Tally.ofUnknown]
  cases hg : (caller != unknownCaller)
  · simp only [Bool.false_eq_true, if_false, ← add_assoc]
    congr 1
    exact (add_zero _).symm
  · simp only [if_true, ← add_assoc]
    congr 1
    exact Tally.ext (Latency.ext (add_zero _).symm (add_zero _).symm rfl)
      (add_zero _).symm (add_zero _).symm (add_zero _).symm

lemma addTimeline_toTally (opt : StatOption) (s : FuncStat) (call : Action) (latT : UInt64) :
    (s.addTimeline opt call latT).toTally = s.toTally := by
  rw [addTimeline]
  split <;> rfl

theorem add_toTally (opt : StatOption) (s : FuncStat) (call ret : Action) (latS : UInt64)
    (child : LatencyChild) :
    (s.add opt call ret latS child).map FuncStat.toTally =
      (Tally.ofCall opt call ret latS child).map (s.toTally + ·) := by
  rw [add, Tally.ofCall]
  cases hi : inInterval opt (ret.ts - call.ts) call.ts with
  | false => simp [Except.map, pure, Except.pure]
  | true =>
    simp only [Bool.not_true, Bool.false_eq_true, if_false, Bool.false_or]
    cases ht : (opt.timeline && decide (call.ts ≥ opt.timeStart)) with
    | true => simp [Except.map, pure, Except.pure, addTimeline_toTally]
    | false =>
      simp only [Bool.false_eq_true, if_false, addLatency_eq, addChildLatency_eq]
      split <;> simp [Except.map, bind, Except.bind, pure, Except.pure, add_assoc]

end FuncStat

end PtPerf.Stats
