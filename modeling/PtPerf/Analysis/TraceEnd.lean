import PtPerf.Analysis.CallTree

/-! Traces that stop when control leaves the target and start again when it comes back. The
switch opens a frame for a trace end of a system call, but the trace start that follows it does
not resume that frame: the chain counts as wrong and the call in progress is dropped. -/

namespace PtPerf.Analysis

open PtPerf.Support PtPerf.Trace PtPerf.Stats

structure Invocation.IsTraceEnd (inv : Invocation) : Prop where
  start : Enters inv.start
  items : ∀ it ∈ inv.items, it.IsTraceEndStart
  finish : Ends inv.finish

def Item.endsForSyscall (it : Item) : Bool := it.leave.type == .trEndSyscall

def Invocation.hasSyscall (inv : Invocation) : Bool := inv.items.any Item.endsForSyscall

lemma Invocation.IsTraceEnd.wellFormed {inv : Invocation} (h : inv.IsTraceEnd)
    (hs : inv.hasSyscall = false) : inv.WellFormed where
  start := h.start
  items it hi := by
    have hn := List.any_eq_false.mp hs it hi
    exact Or.inr ⟨h.items it hi, by simpa [Item.endsForSyscall] using hn⟩
  finish := h.finish

namespace Effect

def isAdd : Effect → Bool
  | .add .. => true
  | _ => false

lemma count_tally_le {opt : StatOption} {e : Effect} {t : Tally} (h : e.tally opt = .ok t) :
    t.latency.target.count.toNat ≤ if e.isAdd then 1 else 0 := by
  cases e with
  | add call ret latS child =>
    simp only [tally, Tally.ofCall] at h
    split at h
    · cases h
      exact Nat.zero_le _
    · split at h
      · cases h
        simp only [isAdd, if_true, Tally.ofLatency, Tally.add_latency, Latency.add_target]
        split <;> exact Nat.le_refl 1
      · cases h
  | addUnknownLatency child caller =>
    cases h
    exact Nat.le_refl 0
  | countSched | addMiss | countAncestorBegin | countAncestorEnd =>
    cases h
    exact Nat.le_refl 0

end Effect

lemma count_totalTally_le {opt : StatOption} {es : List Effect} {t : Tally}
    (h : totalTally opt es = .ok t) : t.latency.target.count.toNat ≤ es.countP Effect.isAdd := by
  induction es generalizing t with
  | nil =>
    cases h
    exact Nat.le_refl 0
  | cons e es ih =>
    simp only [totalTally, bind, Except.bind, pure, Except.pure] at h
    cases he : e.tally opt with
    | error f => simp [he] at h
    | ok u =>
      cases hs : totalTally opt es with
      | error f => simp [he, hs] at h
      | ok v =>
        simp only [he, hs, Except.ok.injEq] at h
        subst h
        have hu := Effect.count_tally_le he
        have hv := ih hs
        rw [List.countP_cons, Tally.add_latency, Latency.add_target, Distribution.add_count,
          UInt32.toNat_add]
        exact (Nat.mod_le _ _).trans (by omega)

section Breaking

variable {p : Param} {s : State} {frames : List Action} {prev leave a : Action}
  {es : List (Str × UInt64)}

lemma trStartStep_syscall (hw : Away s frames leave es) (hl : leave.type = .trEndSyscall) :
    trStartStep p s a =
      { s with child := recordAll es, schedInChild := 0, stack := [], wrongChain := true } := by
  simp [trStartStep, hw.stack, hl, ← hw.child]

lemma syscall_run (hp : p.ancestor = []) {it : Item} (hi : Inside s frames prev es)
    (hc : it.IsTraceEndStart) (hsys : it.leave.type = .trEndSyscall) :
    ∃ s', Runs.run (step p) s it.actions = .ok (s', []) ∧
      Inside s' [] it.back (es ++ blockEntry p prev it.leave) := by
  have hjump : rewriteJump it.leave = it.leave := rewriteJump_of_not_jump _ (by rw [hsys]; rfl)
  have hjump' : rewriteJump it.back = it.back :=
    rewriteJump_of_not_jump _ (by rw [hc.traceStart]; rfl)
  obtain ⟨s₁, h₁, hw, _⟩ := leave_step hp [it.back] hi hc.leave
    (Or.inl (by rw [hjump, hsys]; rfl))
  rw [hjump] at hw
  have hd : ∀ t : State, dispatch p t it.back = .ok (trStartStep p t it.back, []) := by
    intro t
    rw [dispatch, hc.traceStart]
  have h₂ : step p s₁ it.back [] = .ok ({ s₁ with
      noHwIntFromHead := !leavesFromHead it.back, wrongChain := true,
      child := recordAll (es ++ blockEntry p prev it.leave), schedInChild := 0,
      stack := [], cursor := some it.back }, []) := by
    rw [step_branch [] hp hc.back (by simp [entersTarget, hc.offset]), branchStep]
    simp only [hc.traceStart, BranchType.isJump, hjump']
    rw [chainStep, hd, trStartStep_syscall (hw.setNoHwInt _) hsys]
    rfl
  refine ⟨_, Runs.run_cons_ok h₁ (Runs.run_cons_ok h₂ rfl), ?_⟩
  have hh : leavesFromHead it.back = false := by simp [leavesFromHead, hc.traceStart]
  exact ⟨rfl, rfl, hw.schedInTarget, rfl, hw.schedBegin, hw.prevTargetError, by simp [hh],
    it.back, rfl, rfl, rfl⟩

lemma traceItems_run (hp : p.ancestor = []) (items : List Item) (hi : Inside s frames prev es)
    (hc : ∀ it ∈ items, it.IsTraceEndStart) :
    ∃ s' prev' es', Runs.run (step p) s (items.flatMap Item.actions) = .ok (s', []) ∧
      Inside s' (if items.any Item.endsForSyscall then [] else frames) prev' es' := by
  induction items generalizing s frames prev es with
  | nil => exact ⟨s, prev, es, rfl, hi⟩
  | cons it items ih =>
    have hit := hc it (by simp)
    have hrest := fun j hj => hc j (List.mem_cons_of_mem it hj)
    rw [List.flatMap_cons, List.any_cons]
    by_cases hsys : it.leave.type = .trEndSyscall
    · obtain ⟨s₁, h₁, hi₁⟩ := syscall_run hp hi hit hsys
      obtain ⟨s₂, prev₂, es₂, h₂, hi₂⟩ := ih hi₁ hrest
      refine ⟨s₂, prev₂, es₂, Runs.run_append_ok (step_local hp) h₁ h₂, ?_⟩
      have hend : it.endsForSyscall = true := by simp [Item.endsForSyscall, hsys]
      simpa [hend] using hi₂
    · obtain ⟨s₁, h₁, hi₁⟩ := traceEndStart_run hp hi hit hsys
      obtain ⟨s₂, prev₂, es₂, h₂, hi₂⟩ := ih hi₁ hrest
      refine ⟨s₂, prev₂, es₂, Runs.run_append_ok (step_local hp) h₁ h₂, ?_⟩
      have hend : it.endsForSyscall = false := by simp [Item.endsForSyscall, hsys]
      simpa [hend] using hi₂

lemma finish_without_frame (hp : p.ancestor = []) (rest : List Action) (hi : Inside s [] prev es)
    (ha : Ends a) : ∃ s', step p s a rest = .ok (s', []) ∧ s'.noHwIntFromHead = true := by
  have hst : { s with noHwIntFromHead := true }.stack = [] := hi.stack
  rw [step_ends hp rest ha, returnStep, hst]
  exact ⟨_, rfl, rfl⟩

lemma startStep_adds_nothing (p : Param) (s : State) (a : Action) :
    (startStep p s a).2.countP Effect.isAdd = 0 := by
  simp only [startStep, List.countP_append, missed]
  split <;> split <;> rfl

lemma traceInvocation_run (hp : p.ancestor = []) {inv : Invocation}
    (hn : s.noHwIntFromHead = true) (hc : inv.IsTraceEnd) :
    ∃ s' effects, Runs.run (step p) s inv.actions = .ok (s', effects) ∧
      s'.noHwIntFromHead = true ∧
      effects.countP Effect.isAdd = if inv.hasSyscall then 0 else 1 := by
  obtain ⟨s₁, out₁, hst⟩ : ∃ s₁ out₁, startStep p s inv.start = (s₁, out₁) := ⟨_, _, rfl⟩
  have h₁ := step_start (p := p) (inv.items.flatMap Item.actions ++ [inv.finish]) hc.start hn
  have hi₁ := startStep_inside (p := p) inv.start hn
  have hadds := startStep_adds_nothing p s inv.start
  rw [hst] at h₁ hi₁ hadds
  obtain ⟨s₂, prev₂, es₂, h₂, hi₂⟩ := traceItems_run hp inv.items hi₁ hc.items
  have hdone : ∃ s₃ out, step p s₂ inv.finish [] = .ok (s₃, out) ∧ s₃.noHwIntFromHead = true ∧
      out.countP Effect.isAdd = if inv.hasSyscall then 0 else 1 := by
    unfold Invocation.hasSyscall
    cases hsys : inv.items.any Item.endsForSyscall with
    | true =>
      rw [hsys, if_pos rfl] at hi₂
      obtain ⟨s₃, h₃, hn₃⟩ := finish_without_frame hp [] hi₂ hc.finish
      exact ⟨s₃, [], h₃, hn₃, rfl⟩
    | false =>
      rw [hsys, if_neg (by simp)] at hi₂
      obtain ⟨s₃, h₃, hb₃⟩ := finish_step hp [] hi₂ hc.start.toTarget hc.finish
      exact ⟨s₃, _, h₃, hb₃.noHwIntFromHead, rfl⟩
  obtain ⟨s₃, out, h₃, hn₃, hout⟩ := hdone
  refine ⟨s₃, _, Runs.run_cons_ok h₁
    (Runs.run_append_ok (step_local hp) h₂ (Runs.run_cons_ok h₃ rfl)), hn₃, ?_⟩
  simp [hadds, hout]

lemma traceInvocations_run (hp : p.ancestor = []) (invs : List Invocation)
    (hn : s.noHwIntFromHead = true) (hc : ∀ inv ∈ invs, inv.IsTraceEnd) :
    ∃ s' effects, Runs.run (step p) s (invs.flatMap Invocation.actions) = .ok (s', effects) ∧
      effects.countP Effect.isAdd = invs.countP fun inv => !inv.hasSyscall := by
  induction invs generalizing s with
  | nil => exact ⟨s, [], rfl, rfl⟩
  | cons inv invs ih =>
    obtain ⟨s₁, out₁, h₁, hn₁, hc₁⟩ := traceInvocation_run hp hn (hc inv (by simp))
    obtain ⟨s₂, out₂, h₂, hc₂⟩ := ih hn₁ fun j hj => hc j (by simp [hj])
    refine ⟨s₂, out₁ ++ out₂, Runs.run_append_ok (step_local hp) h₁ h₂, ?_⟩
    rw [List.countP_append, hc₁, hc₂, List.countP_cons]
    cases inv.hasSyscall <;> simp [Nat.add_comm]

lemma leftover_adds_nothing (s : State) : (leftover s).countP Effect.isAdd = 0 := by
  unfold leftover
  split <;> rfl

lemma analysed_count_le (hp : p.ancestor = []) {invs : List Invocation} {stat : FuncStat}
    (hc : ∀ inv ∈ invs, inv.IsTraceEnd)
    (hok : doAnalyze p (invs.flatMap Invocation.actions) = .ok stat) :
    stat.latency.target.count.toNat ≤ invs.countP fun inv => !inv.hasSyscall := by
  obtain ⟨s, effects, hrun, hcount⟩ :=
    traceInvocations_run (s := State.init) hp invs rfl hc
  have htotal := doAnalyze_of_run hrun
  rw [hok] at htotal
  have hle := count_totalTally_le htotal.symm
  rwa [List.countP_append, leftover_adds_nothing, Nat.add_zero, hcount] at hle

end Breaking

theorem trace_end_statistics_iff (p : Param) (hp : Unfiltered p) (invs : List Invocation)
    (htrace : ∀ inv ∈ invs, inv.IsTraceEnd)
    (hsorted : SortedByTime (invs.flatMap Invocation.actions)) :
    (∃ stat, doAnalyze p (invs.flatMap Invocation.actions) = .ok stat ∧
      MatchesCalls p (Invocation.rows p) invs stat.toTally) ↔
        (∀ inv ∈ invs, ∀ it ∈ inv.items, it.leave.type ≠ .trEndSyscall) ∧
          WithinRange (Invocation.rows p) invs := by
  have hsys : ∀ inv : Invocation, (∀ it ∈ inv.items, it.leave.type ≠ .trEndSyscall) ↔
      inv.hasSyscall = false := by
    intro inv
    simp [Invocation.hasSyscall, Item.endsForSyscall]
  simp only [hsys]
  constructor
  · rintro ⟨stat, hok, hm⟩
    have hcount := hm.overall.target.count
    have hle := analysed_count_le hp.ancestor htrace hok
    rw [hcount, List.length_map] at hle
    have hall := List.countP_eq_length.mp (Nat.le_antisymm List.countP_le_length hle)
    have hno : ∀ inv ∈ invs, inv.hasSyscall = false := fun inv hi => by simpa using hall inv hi
    exact ⟨hno, (invocations_match_iff hp
      (fun inv hi => (htrace inv hi).wellFormed (hno inv hi)) hsorted).mp ⟨stat, hok, hm⟩⟩
  · rintro ⟨hno, hr⟩
    exact (invocations_match_iff hp
      (fun inv hi => (htrace inv hi).wellFormed (hno inv hi)) hsorted).mpr hr

namespace Sample

/-- The trace stops at `f+32` and starts again at `f+37`. -/
def traceItem (type : BranchType) (t u : UInt64) : Item where
  leave := branchOf param type t (target 32) (callee 0)
  back := branchOf param .trStart u ⟨lit "[unknown]", 0, 0⟩ (target 37)

lemma traceItem_isTraceEndStart {type : BranchType}
    (h : type = .trEndCall ∨ type = .trEndHwInt ∨ type = .trEndSyscall ∨ type = .trEnd)
    (t u : UInt64) : (traceItem type t u).IsTraceEndStart :=
  ⟨⟨⟨rfl, rfl, rfl, rfl, rfl⟩, rfl, rfl⟩, h, ⟨rfl, rfl, rfl, rfl, rfl⟩, rfl, rfl,
    show (37 : UInt32) ≠ 0 by decide⟩

def syscallCall : Invocation := ⟨enter 10, [traceItem .trEndSyscall 20 50], leave .ret 110⟩

def tracedCall : Invocation :=
  ⟨enter 10, [traceItem .trEndCall 20 50, traceItem .trEnd 60 70], leave .trEndReturn 110⟩

end Sample

open Sample in
theorem syscallCall_dropped :
    (∀ inv ∈ [syscallCall], inv.IsTraceEnd) ∧
      SortedByTime ([syscallCall].flatMap Invocation.actions) ∧
      ¬ ∃ stat, doAnalyze param ([syscallCall].flatMap Invocation.actions) = .ok stat ∧
        MatchesCalls param (Invocation.rows param) [syscallCall] stat.toTally := by
  have htrace : ∀ inv ∈ [syscallCall], inv.IsTraceEnd := by
    intro inv hi
    obtain rfl := List.mem_singleton.mp hi
    refine ⟨enters 10, fun it hit => ?_, leaves _ _, Or.inl rfl⟩
    obtain rfl := List.mem_singleton.mp hit
    exact traceItem_isTraceEndStart (Or.inr (Or.inr (Or.inl rfl))) 20 50
  refine ⟨htrace, ?_, ?_⟩
  · change List.Pairwise _ _
    decide
  · rintro ⟨stat, hok, hm⟩
    have hle := analysed_count_le rfl htrace hok
    rw [hm.overall.target.count] at hle
    exact absurd hle (by decide)

open Sample in
theorem tracedCall_recorded :
    ∃ stat, doAnalyze param ([tracedCall].flatMap Invocation.actions) = .ok stat ∧
      MatchesCalls param (Invocation.rows param) [tracedCall] stat.toTally := by
  refine (trace_end_statistics_iff param unfiltered [tracedCall] ?_ ?_).mpr ⟨?_, ?_⟩
  · intro inv hi
    obtain rfl := List.mem_singleton.mp hi
    refine ⟨enters 10, fun it hit => ?_, leaves _ _, Or.inr rfl⟩
    rcases List.mem_pair.mp hit with rfl | rfl
    · exact traceItem_isTraceEndStart (Or.inl rfl) 20 50
    · exact traceItem_isTraceEndStart (Or.inr (Or.inr (Or.inr rfl))) 60 70
  · change List.Pairwise _ _
    decide
  · decide
  · refine ⟨by decide, by decide, fun k => ?_⟩
    exact (TallyMap.length_valuesAt_le _ k).trans_lt (by decide)

end PtPerf.Analysis
