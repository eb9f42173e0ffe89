import PtPerf.Analysis.ErrorIsolation
import PtPerf.Analysis.Nesting

/-! The rounds of the analysis when an ancestor is given, and what they do to the call chain in
properly nested code. -/

namespace PtPerf.Analysis

open PtPerf.Support PtPerf.Trace PtPerf.Stats

/-- A branch that takes part in a call chain when the filter lets it through. -/
def chained (a : Action) : Bool :=
  !isMark a && !a.schedBegin && !a.schedEnd && !isInternalJump a

section Rounds

inductive Round (p : Param) (s : State) (a : Action) (rest : List Action) (s' : State)
    (out : List Effect) : Prop
  | start : starts s a = true → (s', out) = startStep p s a → Round p s a rest s' out
  | mark : starts s a = false → isMark a = true → (s', out) = ancestorStep p s a rest →
      Round p s a rest s' out
  | skip : starts s a = false → isMark a = false → s.ancestorBegin = none → s' = s → out = [] →
      Round p s a rest s' out
  | aside : starts s a = false → isMark a = false → chained a = false →
      s'.stack = s.stack → s'.ancestorBegin = s.ancestorBegin →
      s'.noHwIntFromHead = s.noHwIntFromHead → out = [] ∨ out = [.countSched] →
      Round p s a rest s' out
  | chain : starts s a = false → s.ancestorBegin ≠ none → chained a = true →
      chainStep p s (rewriteJump a) = .ok (s', out) → Round p s a rest s' out

variable {p : Param} {s s' : State} {a : Action} {rest : List Action} {out : List Effect}

lemma addCodeBlock_keeps {t : State} (h : addCodeBlock s a = .ok t) :
    t.stack = s.stack ∧ t.ancestorBegin = s.ancestorBegin ∧
      t.noHwIntFromHead = s.noHwIntFromHead := by
  unfold addCodeBlock at h
  split at h
  · cases h
  · split at h
    · cases h
      exact ⟨rfl, rfl, rfl⟩
    · simp only at h
      split at h
      · cases h
      · cases h
        exact ⟨rfl, rfl, rfl⟩

lemma round_of_pass (hs : starts s a = false) (hm : isMark a = false) (hr : s.ancestorBegin ≠ none)
    (h : (if a.schedBegin then .ok ({ s with schedBegin := some a }, [])
      else if a.schedEnd then .ok (schedEndStep s a) else branchStep p s a) = Except.ok (s', out)) :
    Round p s a rest s' out := by
  cases hsb : a.schedBegin with
  | true =>
    rw [hsb, if_pos rfl] at h
    cases h
    exact .aside hs hm (by simp [chained, hsb]) rfl rfl rfl (Or.inl rfl)
  | false =>
    rw [hsb, if_neg (by simp)] at h
    cases hse : a.schedEnd with
    | true =>
      have hch : chained a = false := by simp [chained, hse]
      rw [hse, if_pos rfl, schedEndStep] at h
      split at h
      · cases h
        exact .aside hs hm hch rfl rfl rfl (Or.inr rfl)
      · cases h
        exact .aside hs hm hch rfl rfl rfl (Or.inl rfl)
    | false =>
      rw [hse, if_neg (by simp), branchStep] at h
      cases hj : isInternalJump a with
      | true =>
        rw [show (a.type.isJump && a.fromTarget && a.toTarget) = true from hj, if_pos rfl] at h
        split at h
        · obtain ⟨t, ht, hpure⟩ := Runs.bind_eq_ok.mp h
          cases hpure
          obtain ⟨h₁, h₂, h₃⟩ := addCodeBlock_keeps ht
          exact .aside hs hm (by simp [chained, hj]) h₁ h₂ h₃ (Or.inl rfl)
        · cases h
      | false =>
        rw [show (a.type.isJump && a.fromTarget && a.toTarget) = false from hj,
          if_neg (by simp)] at h
        split at h
        · cases h
        · exact .chain hs hr (by simp [chained, hm, hsb, hse, hj]) h

lemma round_of_step (hp : p.ancestor ≠ []) (ha : a.isError = false)
    (h : step p s a rest = .ok (s', out)) : Round p s a rest s' out := by
  have hp' : (p.ancestor != []) = true := by simpa using hp
  have henter : (entersTarget a && s.noHwIntFromHead) = starts s a := by simp [starts, ha]
  rw [step, ha, if_neg (by simp), henter, hp', Bool.true_and,
    show (a.ancestorBegin || a.ancestorEnd) = isMark a from rfl] at h
  cases hs : starts s a with
  | true =>
    rw [hs, if_pos rfl] at h
    exact .start hs (Except.ok.inj h).symm
  | false =>
    rw [hs, if_neg (by simp)] at h
    cases hm : isMark a with
    | true =>
      rw [hm, Bool.true_or, if_pos rfl] at h
      exact .mark hs hm (Except.ok.inj h).symm
    | false =>
      rw [hm, Bool.false_or] at h
      cases hr : s.ancestorBegin.isNone with
      | true =>
        obtain ⟨hb, he⟩ := Bool.or_eq_false_iff.mp (show (a.ancestorBegin || a.ancestorEnd) = false from hm)
        rw [hr, if_pos rfl, ancestorStep, hb, he] at h
        cases h
        exact .skip hs hm (Option.isNone_iff_eq_none.mp hr) rfl rfl
      | false =>
        rw [hr, if_neg (by simp)] at h
        exact round_of_pass hs hm (fun hn => by simp [hn] at hr) h

end Rounds

section Gate

variable {p : Param} {s s' : State} {a : Action} {out : List Effect}

lemma callStep_keeps {t : State} (h : callStep p s a = .ok t) :
    t.stack = a :: s.stack ∧ t.ancestorBegin = s.ancestorBegin ∧
      t.noHwIntFromHead = s.noHwIntFromHead := by
  rw [callStep] at h
  split at h
  · obtain ⟨u, hu, ht⟩ := Runs.bind_eq_ok.mp h
    cases ht
    obtain ⟨h₁, h₂, h₃⟩ := addCodeBlock_keeps hu
    exact ⟨congrArg (a :: ·) h₁, h₂, h₃⟩
  · cases h
    exact ⟨rfl, rfl, rfl⟩

lemma returnStep_gate (s : State) :
    (returnStep p s a).1.ancestorBegin = s.ancestorBegin ∧
      (returnStep p s a).1.noHwIntFromHead = s.noHwIntFromHead := by
  unfold returnStep
  split
  · split
    · exact ⟨rfl, rfl⟩
    · split <;> exact ⟨rfl, rfl⟩
  · split <;> exact ⟨rfl, rfl⟩
  · exact ⟨rfl, rfl⟩

lemma trStartStep_gate (s : State) :
    (trStartStep p s a).ancestorBegin = s.ancestorBegin ∧
      (trStartStep p s a).noHwIntFromHead = s.noHwIntFromHead := by
  unfold trStartStep
  split
  · split
    · exact ⟨rfl, rfl⟩
    · split <;> exact ⟨rfl, rfl⟩
  · exact ⟨rfl, rfl⟩

lemma dispatch_gate (h : dispatch p s a = .ok (s', out)) :
    s'.ancestorBegin = s.ancestorBegin ∧ s'.noHwIntFromHead = s.noHwIntFromHead := by
  unfold dispatch at h
  split at h
  case h_1 =>
    cases h
    exact trStartStep_gate s
  case h_8 | h_9 | h_10 =>
    have hr := returnStep_gate (p := p) (a := a) s
    rwa [Except.ok.inj h] at hr
  case h_7 =>
    cases h
    exact ⟨rfl, rfl⟩
  case h_11 =>
    cases h
    exact ⟨rfl, rfl⟩
  all_goals
    obtain ⟨t, ht, hpure⟩ := Runs.bind_eq_ok.mp h
    cases hpure
    exact (callStep_keeps ht).2

lemma chainStep_gate (h : chainStep p s (rewriteJump a) = .ok (s', out)) :
    s'.ancestorBegin = s.ancestorBegin ∧ s'.noHwIntFromHead = !leavesFromHead a := by
  obtain ⟨⟨t, es⟩, ht, hpure⟩ := Runs.bind_eq_ok.mp h
  cases hpure
  have hg := dispatch_gate ht
  rwa [leavesFromHead_rewriteJump] at hg

end Gate

def hasSyscall (l : List Action) : Bool := l.any fun a => a.fromTarget && a.type == .trEndSyscall

section Frames

variable {p : Param} {s s₁ s₂ s' : State} {a leave back : Action} {rest rest' : List Action}
  {out out' : List Effect}

lemma starts_of_notEnters (h : entersTarget a = false) (s : State) : starts s a = false := by
  simp [starts, h]

lemma step_unchained (hp : p.ancestor ≠ []) (ha : a.isError = false) (hm : isMark a = false)
    (hc : chained a = false) (he : entersTarget a = false) (h : step p s a rest = .ok (s', out)) :
    s'.stack = s.stack ∧ s'.ancestorBegin = s.ancestorBegin ∧
      s'.noHwIntFromHead = s.noHwIntFromHead := by
  cases round_of_step hp ha h with
  | start hs => simp [starts_of_notEnters he] at hs
  | mark _ hmark => simp [hm] at hmark
  | skip _ _ _ hs' => exact hs' ▸ ⟨rfl, rfl, rfl⟩
  | aside _ _ _ h₁ h₂ h₃ => exact ⟨h₁, h₂, h₃⟩
  | chain _ _ hchain => simp [hc] at hchain

lemma step_chained (hp : p.ancestor ≠ []) (ha : a.isError = false) (hc : chained a = true)
    (hs : starts s a = false) (hr : s.ancestorBegin ≠ none) (h : step p s a rest = .ok (s', out)) :
    chainStep p s (rewriteJump a) = .ok (s', out) := by
  cases round_of_step hp ha h with
  | start hstart => simp [hs] at hstart
  | mark _ hmark => simp [chained, hmark] at hc
  | skip _ _ hnone => exact absurd hnone hr
  | aside _ _ hnot => simp [hc] at hnot
  | chain _ _ _ hchain => exact hchain

lemma Plain.chained (h : Plain a) (hj : isInternalJump a = false) : chained a = true := by
  simp [Analysis.chained, h.notMark, h.schedBegin, h.schedEnd, hj]

lemma chainStep_inv (h : chainStep p s a = .ok (s', out)) :
    ∃ t, dispatch p { s with noHwIntFromHead := !leavesFromHead a } a = .ok (t, out) ∧
      s' = { t with cursor := some a } := by
  obtain ⟨⟨t, es⟩, ht, hpure⟩ := Runs.bind_eq_ok.mp h
  cases hpure
  exact ⟨t, ht, rfl⟩

lemma dispatch_opens (ht : opensFrame a.type = true ∨ a.type = .trEnd)
    (h : dispatch p s a = .ok (s', out)) : s'.stack = a :: s.stack := by
  rcases ht with ht | ht
  · rw [dispatch_opening ht] at h
    obtain ⟨t, hcall, hpure⟩ := Runs.map_eq_ok.mp h
    cases hpure
    exact (callStep_keeps hcall).1
  · rw [dispatch, ht] at h
    cases h
    rfl

lemma Excursion.opens (he : Excursion leave back) :
    opensFrame (rewriteJump leave).type = true ∨ (rewriteJump leave).type = .trEnd := by
  rcases he with he | he
  · exact Or.inl (he.callLike.opensFrame he.leave.fromTarget)
  · rcases he.traceEnd with h | h | h | h <;> change leave.type = _ at h <;>
      rw [rewriteJump_of_not_jump leave (by rw [h]; rfl), h] <;> simp [opensFrame]

lemma leave_pushes (hp : p.ancestor ≠ []) (he : Excursion leave back) (hr : s.ancestorBegin ≠ none)
    (h : step p s leave rest = .ok (s₁, out)) :
    s₁.stack = rewriteJump leave :: s.stack ∧ s₁.ancestorBegin = s.ancestorBegin ∧
      s₁.noHwIntFromHead = !leavesFromHead leave := by
  have hl := he.leaves
  have hj : isInternalJump leave = false := by simp [isInternalJump, hl.toTarget]
  have hchain := step_chained hp hl.isError (hl.toPlain.chained hj)
    (starts_of_notEnters hl.notEnters s) hr h
  refine ⟨?_, chainStep_gate hchain⟩
  obtain ⟨t, ht, rfl⟩ := chainStep_inv hchain
  have hpush := dispatch_opens he.opens ht
  exact hpush

lemma returnStep_pops {top : Action} {frames : List Action} (hs : s.stack = top :: frames)
    (htop : top.fromTarget = true) (ha : a.fromTarget = false)
    (ht : a.type = .ret ∨ a.type = .iret) : (returnStep p s a).1.stack = frames := by
  have hne : (a.type != .trEndReturn) = true := by
    rcases ht with h | h <;> rw [h] <;> rfl
  cases frames <;> simp [returnStep, hs, htop, ha, hne]

lemma trStartStep_pops {top : Action} {frames : List Action} (hs : s.stack = top :: frames)
    (ht : top.type = .trEndCall ∨ top.type = .trEndHwInt ∨ top.type = .trEndSyscall ∨ top.type = .trEnd) :
    (trStartStep p s a).stack = if top.type = .trEndSyscall then [] else frames := by
  rcases ht with h | h | h | h <;> simp [trStartStep, hs, h]

/-- Coming back takes it off again; a system call whose trace ended loses the whole chain. -/
lemma back_pops {frames : List Action} (hp : p.ancestor ≠ []) (he : Excursion leave back)
    (hr : s.ancestorBegin ≠ none) (hs : s.stack = rewriteJump leave :: frames)
    (hflag : s.noHwIntFromHead = !leavesFromHead leave) (h : step p s back rest = .ok (s', out)) :
    s'.stack = (if leave.type = .trEndSyscall then [] else frames) ∧
      s'.ancestorBegin = s.ancestorBegin := by
  have hb := he.back_plain
  have hnot : starts s back = false := by
    rw [starts, hb.isError, hflag]
    rcases he with he | he
    · exact he.returnLike.not_start he.leave.fromTarget
    · have ho : back.toSym.offset ≠ 0 := he.offset
      simp [entersTarget, ho]
  have hj : isInternalJump back = false := by
    rcases he with he | he
    · have hf : back.fromTarget = false := he.back.fromTarget
      simp [isInternalJump, hf]
    · have ht : back.type = .trStart := he.traceStart
      simp [isInternalJump, ht, BranchType.isJump]
  have hchain := step_chained hp hb.isError (hb.chained hj) hnot hr h
  refine ⟨?_, (chainStep_gate hchain).1⟩
  obtain ⟨t, ht, rfl⟩ := chainStep_inv hchain
  rcases he with he | he
  · have hne : leave.type ≠ .trEndSyscall := by
      intro hsys
      have hl : isCallLike leave := he.callLike
      simp [isCallLike, hsys, BranchType.isJump] at hl
    have hty := he.returnLike.type he.back.fromTarget
    rw [dispatch_returning (hty.imp_right Or.inl)] at ht
    rw [if_neg hne]
    have hpop := returnStep_pops (p := p) (a := rewriteJump back)
      (s := { s with noHwIntFromHead := !leavesFromHead (rewriteJump back) }) hs
      (by simpa using he.leave.fromTarget) (by simpa using he.back.fromTarget) hty
    rwa [Except.ok.inj ht] at hpop
  · have hty : back.type = .trStart := he.traceStart
    have hl : rewriteJump leave = leave := by
      apply rewriteJump_of_not_jump
      rcases he.traceEnd with h | h | h | h <;> change leave.type = _ at h <;> rw [h] <;> rfl
    rw [rewriteJump_of_not_jump back (by rw [hty]; rfl), dispatch, hty] at ht
    cases ht
    rw [hl] at hs
    exact trStartStep_pops hs he.traceEnd

/-- What running through a stretch of code does to the chain. -/
structure Passes (frame : Bool) (l : List Action) (s s' : State) : Prop where
  stack : s'.stack = if hasSyscall l then [] else s.stack
  opened : s'.ancestorBegin ≠ none
  outside : frame = false → s'.noHwIntFromHead = s.noHwIntFromHead ∧ hasSyscall l = false

lemma hasSyscall_append (l m : List Action) :
    hasSyscall (l ++ m) = (hasSyscall l || hasSyscall m) := List.any_append

lemma hasSyscall_cons (a : Action) (l : List Action) :
    hasSyscall (a :: l) = (a.fromTarget && a.type == .trEndSyscall || hasSyscall l) := List.any_cons

lemma Passes.trans {frame : Bool} {l m : List Action} (h₁ : Passes frame l s s₁)
    (h₂ : Passes frame m s₁ s₂) : Passes frame (l ++ m) s s₂ where
  stack := by
    rw [h₂.stack, h₁.stack, hasSyscall_append]
    cases hasSyscall l <;> cases hasSyscall m <;> rfl
  opened := h₂.opened
  outside hf := by
    obtain ⟨hflag₁, hsys₁⟩ := h₁.outside hf
    obtain ⟨hflag₂, hsys₂⟩ := h₂.outside hf
    exact ⟨hflag₂.trans hflag₁, by rw [hasSyscall_append, hsys₁, hsys₂]; rfl⟩

lemma Passes.weaken {frame : Bool} {l : List Action} (h : Passes false l s s') :
    Passes frame l s s' :=
  ⟨h.stack, h.opened, fun _ => h.outside rfl⟩

lemma Excursion.back_notSyscall (he : Excursion leave back) :
    (back.fromTarget && back.type == .trEndSyscall) = false := by
  rcases he with he | he
  · have hf : back.fromTarget = false := he.back.fromTarget
    simp [hf]
  · have ht : back.type = .trStart := he.traceStart
    simp [ht]

lemma Passes.of_unchained {frame : Bool} (hp : p.ancestor ≠ []) (ha : a.isError = false)
    (hm : isMark a = false) (hc : Analysis.chained a = false) (he : entersTarget a = false)
    (ht : a.type ≠ .trEndSyscall) (hr : s.ancestorBegin ≠ none)
    (h : step p s a rest = .ok (s', out)) : Passes frame [a] s s' := by
  obtain ⟨h₁, h₂, h₃⟩ := step_unchained hp ha hm hc he h
  have hsys : hasSyscall [a] = false := by simp [hasSyscall, ht]
  exact ⟨by rw [hsys, h₁]; rfl, by rwa [h₂], fun _ => ⟨h₃, hsys⟩⟩

lemma Passes.of_excursion {inside rest' : List Action} {out' : List Effect} (hp : p.ancestor ≠ [])
    (he : Excursion leave back) (hr : s.ancestorBegin ≠ none)
    (hl : step p s leave rest = .ok (s₁, out)) (hin : Passes false inside s₁ s₂)
    (hb : step p s₂ back rest' = .ok (s', out')) :
    Passes true (leave :: (inside ++ [back])) s s' := by
  obtain ⟨hpush, -, hflag⟩ := leave_pushes hp he hr hl
  obtain ⟨hflag₂, hsys⟩ := hin.outside rfl
  have hstack : s₂.stack = rewriteJump leave :: s.stack := by
    rw [hin.stack, hsys, hpush]
    rfl
  obtain ⟨hpop, hopen⟩ := back_pops hp he hin.opened hstack (hflag₂.trans hflag) hb
  refine ⟨?_, by rw [hopen]; exact hin.opened, fun hf => by cases hf⟩
  rw [hpop, hasSyscall_cons, hasSyscall_append, hsys, hasSyscall_cons, he.back_notSyscall,
    he.leaves.fromTarget]
  simp [hasSyscall]

lemma Nested.passes {frame : Bool} {l : List Action} (hp : p.ancestor ≠ []) (hn : Nested frame l)
    (hmark : ∀ a ∈ l, isMark a = false) (halone : ¬ ContainsTarget l)
    (hr : s.ancestorBegin ≠ none) (h : Runs.upTo (step p) s l rest = .ok s') :
    Passes frame l s s' := by
  induction hn generalizing s s' rest with
  | nil =>
    cases h
    exact ⟨rfl, hr, fun _ => ⟨rfl, rfl⟩⟩
  | @target _ start inside finish tail hs hi hf _ _ _ =>
    exact absurd ⟨⟨[], start, inside, finish, tail⟩, rfl, hs, hi, hf⟩ halone
  | ancestor hpair _ _ _ _ =>
    have hb := hmark _ List.mem_cons_self
    rw [begin_isMark hpair.beginMark] at hb
    cases hb
  | @sched frame b inside e tail hpair hi _ ihi ihr =>
    obtain ⟨s₁, s₂, s₃, out, out', hb, hin, he, ht⟩ := Runs.upTo_span_inv h
    have h₁ : Passes false [b] s s₁ := Passes.of_unchained hp hpair.beginError hpair.beginMark
      (by simp [Analysis.chained, hpair.schedBegin]) hpair.beginEnters
      (by rcases hpair.beginType with h | h <;> rw [h] <;> decide) hr hb
    have h₂ := ihi (fun a ha => hmark a (by simp [ha]))
      (fun hc => halone (by simpa using hc.append [b] (e :: tail))) h₁.opened hin
    have h₃ : Passes false [e] s₂ s₃ := Passes.of_unchained hp hpair.endError hpair.endMark
      (by simp [Analysis.chained, hpair.schedEnd]) hpair.endEnters
      (by rcases hpair.endType with h | h <;> rw [h] <;> decide) h₂.opened he
    have h₄ := ihr (fun a ha => hmark a (by simp [ha]))
      (fun hc => halone (by simpa using hc.append (b :: (inside ++ [e])) [])) h₃.opened ht
    have hspan := ((h₁.trans h₂).trans h₃).weaken.trans h₄
    simpa using hspan
  | @excursion leave inside back tail he hi _ ihi ihr =>
    obtain ⟨s₁, s₂, s₃, out, out', hl, hin, hb, ht⟩ := Runs.upTo_span_inv h
    have hopen := (leave_pushes hp he hr hl).2.1
    have h₂ := ihi (fun a ha => hmark a (by simp [ha]))
      (fun hc => halone (by simpa using hc.append [leave] (back :: tail))) (by rwa [hopen]) hin
    have h₃ := Passes.of_excursion hp he hr hl h₂ hb
    have h₄ := ihr (fun a ha => hmark a (by simp [ha]))
      (fun hc => halone (by simpa using hc.append (leave :: (inside ++ [back])) [])) h₃.opened ht
    simpa using h₃.trans h₄
  | @jump a tail hj _ ihr =>
    obtain ⟨s₁, out, ha, ht⟩ := Runs.upTo_cons_inv h
    have hne : entersTarget a = false := by simp [entersTarget, hj.offset]
    have hty : a.type ≠ .trEndSyscall := by
      intro hsys
      have hjump := hj.jump
      simp [isInternalJump, hsys, BranchType.isJump] at hjump
    have h₁ : Passes true [a] s s₁ := Passes.of_unchained hp hj.isError hj.notMark
      (by simp [Analysis.chained, hj.jump]) hne hty hr ha
    have h₂ := ihr (fun b hb => hmark b (by simp [hb]))
      (fun hc => halone (by simpa using hc.append [a] [])) h₁.opened ht
    exact h₁.trans h₂

end Frames

end PtPerf.Analysis
