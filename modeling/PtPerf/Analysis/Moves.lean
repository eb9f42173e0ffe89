import PtPerf.Analysis.ErrorIsolation
import PtPerf.Support.Spans

/-! What a round of the analysis can do, said once: the forms that the state after it takes, with
what is known of the round in each. -/

namespace PtPerf.Analysis

open PtPerf.Support PtPerf.Trace PtPerf.Stats

def internal (a : Action) : Bool := !a.isError && a.fromTarget && a.toTarget

/-- The ancestor check ends the round. -/
def filtered (p : Param) (s : State) (a : Action) : Bool :=
  p.ancestor != [] && (a.ancestorBegin || a.ancestorEnd || s.ancestorBegin.isNone)

/-- The round gets as far as the switch over the branch type. -/
def handled (p : Param) (s : State) (a : Action) : Bool :=
  !a.isError && !starts s a && !filtered p s a && !a.schedBegin && !a.schedEnd

/-- The round counts a sleep. -/
def wakes (p : Param) (s : State) (a : Action) : Bool :=
  !a.isError && !starts s a && !filtered p s a && !a.schedBegin && a.schedEnd && s.schedBegin.isSome

def movesStack : BranchType → Bool
  | .trStart | .trEnd | .iret | .ret | .trEndReturn => true
  | t => opensFrame t

/-- The round calls `add_code_block`. -/
def measuresBlock (p : Param) (s : State) (a : Action) : Bool :=
  handled p s a && (a.type.isJump && internal a || opensFrame (rewriteJump a).type)

def isReturn : BranchType → Bool
  | .iret | .ret | .trEndReturn => true
  | _ => false

/-- The action on the stack with which the switch calls `add_one_child`. -/
def childBase (s : State) (a : Action) : Option Action :=
  match s.stack with
  | [] => none
  | top :: stack =>
    if a.type == .trStart then
      if top.type == .trEndHwInt || top.type == .trEndCall then some top else none
    else if isReturn a.type then
      if stack.isEmpty && a.fromTarget && top.toTarget then none
      else if top.fromTarget && a.type != .trEndReturn then some top
      else none
    else none

/-- The call on the stack that the switch hands to `FuncStat::add`. -/
def finishedCall (s : State) (a : Action) : Option Action :=
  match s.stack with
  | [start] => if isReturn a.type && a.fromTarget && start.toTarget then some start else none
  | _ => none

/-- The call that the round hands to `FuncStat::add`. -/
def closedCall (p : Param) (s : State) (a : Action) : Option Action :=
  if handled p s a && !(a.type.isJump && internal a) then finishedCall s (rewriteJump a) else none

/-- It is one that the intervals let in. -/
def countedCall (p : Param) (s : State) (a : Action) : Option Action :=
  (closedCall p s a).filter fun call =>
    !(!FuncStat.inInterval p.statOption (a.ts - call.ts) call.ts || (p.timeline && call.ts ≥ p.timeStart))

/-- The histograms have a slot for its two times. -/
def HasSlots (s : State) (a call : Action) : Prop :=
  (a.ts - call.ts).toNat < 2 ^ 63 ∧ s.schedInTarget.toNat < 2 ^ 63

instance (s : State) (a call : Action) : Decidable (HasSlots s a call) :=
  inferInstanceAs (Decidable (_ ∧ _))

/-- What `add_code_block` leaves when the cursor is at `c`. -/
inductive Block (s : State) (a c : Action) : State → Prop
  | still : a.fromSym.offset = c.toSym.offset → Block s a c s
  | record : a.fromSym.offset ≠ c.toSym.offset → s.schedInChild ≤ a.ts - c.ts →
      Block s a c { s with
        child := (s.child.addTarget (codeBlockName c a) (a.ts - c.ts)).addSched (codeBlockName c a)
          s.schedInChild
        schedInChild := 0
        cursor := some a }

inductive Switch (p : Param) (s : State) (a : Action) : State → List Effect → Prop
  | resume {top stack} : a.type = .trStart → s.stack = top :: stack →
      top.type = .trEndHwInt ∨ top.type = .trEndCall → childBase s a = some top →
      Switch p s a { addOneChild p s top a false false with stack := stack, schedInChild := 0 } []
  | reopen {top stack} : a.type = .trStart → s.stack = top :: stack → top.type = .trEnd →
      childBase s a = none →
      Switch p s a { s with stack := stack, schedInChild := 0 } []
  | lose : a.type = .trStart → childBase s a = none →
      Switch p s a { s with stack := [], wrongChain := true, schedInChild := 0 } []
  | call : p.codeBlock = false → opensFrame a.type = true →
      Switch p s a { s with stack := a :: s.stack, schedBegin := none, schedInChild := 0 } []
  | blockCall {c s₁} : p.codeBlock = true → opensFrame a.type = true → s.cursor = some c →
      Block s a c s₁ →
      Switch p s a { s₁ with stack := a :: s₁.stack, schedBegin := none, schedInChild := 0 } []
  | traceEnd : a.type = .trEnd → Switch p s a { s with stack := a :: s.stack } []
  | finish {start} : isReturn a.type = true → s.stack = [start] → a.fromTarget = true →
      start.toTarget = true → childBase s a = none →
      Switch p s a { s with child := .clear, schedInTarget := 0, stack := [] }
        [.add start a s.schedInTarget s.child]
  | back {top stack} : isReturn a.type = true → s.stack = top :: stack → top.fromTarget = true →
      childBase s a = some top →
      Switch p s a { addOneChild p s top a false (a.type == .iret) with stack := stack } []
  | wrong : isReturn a.type = true → childBase s a = none → finishedCall s a = none →
      Switch p s a
        { s with stack := [], wrongChain := true, schedInTarget := 0, schedInChild := 0 } []
  | other : movesStack a.type = false → Switch p s a s []

inductive Move (p : Param) (s : State) (a : Action) : State → List Effect → Prop
  | error : a.isError = true → Move p s a (errorStep s).1 (errorStep s).2
  | start : starts s a = true → Move p s a (startStep p s a).1 (startStep p s a).2
  | pass {x es} : a.isError = false → starts s a = false → handled p s a = false →
      (∀ e ∈ es, e = .countAncestorBegin ∨ e = .countAncestorEnd) → wakes p s a = false →
      Move p s a { s with ancestorBegin := x } es
  | schedBegin : a.isError = false → starts s a = false → handled p s a = false →
      wakes p s a = false → Move p s a { s with schedBegin := some a } []
  | schedEnd {b} : a.isError = false → starts s a = false → handled p s a = false →
      s.schedBegin = some b → wakes p s a = true →
      Move p s a { s with
        schedInTarget := s.schedInTarget + (a.ts - b.ts).toUInt32.toUInt64
        schedInChild := s.schedInChild + (a.ts - b.ts).toUInt32.toUInt64
        schedBegin := none } [.countSched]
  | jump {c s'} : handled p s a = true → (a.type.isJump && internal a) = true →
      p.codeBlock = true → s.cursor = some c → Block s a c s' → Move p s a s' []
  | switch {s' es} : handled p s a = true → (a.type.isJump && internal a) = false →
      Switch p { s with noHwIntFromHead := !leavesFromHead (rewriteJump a) } (rewriteJump a) s' es →
      Move p s a { s' with cursor := some (rewriteJump a) } es

section Inversion

variable {p : Param} {s s' : State} {a : Action} {rest : List Action} {es : List Effect}

lemma step_of_handled (h : handled p s a = true) : step p s a rest = branchStep p s a := by
  simp only [handled, Bool.and_eq_true, Bool.not_eq_true'] at h
  obtain ⟨⟨⟨⟨he, hs⟩, hf⟩, hb⟩, hend⟩ := h
  rw [starts, he, Bool.not_false, Bool.true_and] at hs
  rw [filtered] at hf
  simp [step, he, hs, hf, hb, hend]

lemma step_of_not_handled (h : handled p s a = false) : step p s a rest =
      if a.isError then .ok (errorStep s) else if starts s a then .ok (startStep p s a)
      else if filtered p s a then .ok (ancestorStep p s a rest)
      else if a.schedBegin then .ok ({ s with schedBegin := some a }, [])
      else .ok (schedEndStep s a) := by
  rw [step]
  cases he : a.isError with
  | true => rfl
  | false =>
    have hs : starts s a = (entersTarget a && s.noHwIntFromHead) := by simp [starts, he]
    have hf : filtered p s a =
      (p.ancestor != [] && (a.ancestorBegin || a.ancestorEnd || s.ancestorBegin.isNone)) := rfl
    rw [handled, he, hs] at h
    rw [hs, ← hf]
    simp only [Bool.false_eq_true, if_false]
    split
    · rfl
    · split
      · rfl
      · split
        · rfl
        · rename_i hs' hf' hb
          have hend : a.schedEnd = true := by simpa [hs', hf', hb] using h
          rw [if_pos hend]

lemma dispatch_of_still (h : movesStack a.type = false) : dispatch p s a = .ok (s, []) := by
  rw [dispatch]
  cases hty : a.type <;> rw [hty] at h <;> simp_all [movesStack, opensFrame]

lemma block_of_addCodeBlock (h : addCodeBlock s a = .ok s') :
    ∃ c, s.cursor = some c ∧ Block s a c s' := by
  rw [addCodeBlock] at h
  split at h
  · cases h
  · rename_i c hc
    refine ⟨c, hc, ?_⟩
    split at h
    · rename_i hoff
      cases h
      exact .still (by simpa using hoff)
    · rename_i hoff
      dsimp only at h
      split at h
      · cases h
      · rename_i hlt
        cases h
        exact .record (by simpa using hoff) (UInt64.not_lt.mp hlt)

lemma switch_of_trStart (h : a.type = .trStart) : Switch p s a (trStartStep p s a) [] := by
  rw [trStartStep]
  split
  · rename_i top stack hstack
    have hbase : childBase s a =
        if top.type == .trEndHwInt || top.type == .trEndCall then some top else none := by
      simp [childBase, hstack, h]
    split
    · rename_i htype
      exact .resume h hstack (by simpa using htype) (by rw [hbase, if_pos htype])
    · rename_i htype
      rw [if_neg htype] at hbase
      split
      · rename_i htype
        exact .reopen h hstack (by simpa using htype) hbase
      · exact .lose h hbase
  · rename_i hstack
    exact .lose h (by rw [childBase, hstack])

lemma not_trStart_of_isReturn (h : isReturn a.type = true) : (a.type == .trStart) = false := by
  cases hty : a.type <;> rw [hty] at h <;> first | rfl | cases h

lemma switch_of_return (h : isReturn a.type = true) :
    Switch p s a (returnStep p s a).1 (returnStep p s a).2 := by
  have hne := not_trStart_of_isReturn h
  rw [returnStep]
  split
  · rename_i start hstack
    split
    · rename_i hends
      have hbase : childBase s a = none := by simp [childBase, hstack, hne, h, hends]
      rw [Bool.and_eq_true] at hends
      exact .finish h hstack hends.1 hends.2 hbase
    · rename_i hends
      have hbase : childBase s a =
          if start.fromTarget && a.type != .trEndReturn then some start else none := by
        simp only [childBase, hstack, hne, h, Bool.false_eq_true, if_false, if_true, List.isEmpty_nil,
          Bool.true_and, hends]
      split
      · rename_i hback
        rw [if_pos hback] at hbase
        rw [Bool.and_eq_true] at hback
        exact .back h hstack hback.1 hbase
      · rename_i hback
        rw [if_neg hback] at hbase
        exact .wrong h hbase (by simp [finishedCall, hstack, h, hends])
  · rename_i top stack hnil hstack
    have hfinished : finishedCall s a = none := by
      rw [finishedCall, hstack]
      split
      · rename_i heq
        cases heq
        exact absurd rfl hnil
      · rfl
    have hbase : childBase s a =
        if top.fromTarget && a.type != .trEndReturn then some top else none := by
      have hempty : stack.isEmpty = false := by
        cases stack with
        | nil => exact absurd rfl hnil
        | cons => rfl
      simp only [childBase, hstack, hne, h, Bool.false_eq_true, if_false, if_true, hempty,
        Bool.false_and]
    split
    · rename_i hback
      rw [if_pos hback] at hbase
      rw [Bool.and_eq_true] at hback
      exact .back h hstack hback.1 hbase
    · rename_i hback
      rw [if_neg hback] at hbase
      exact .wrong h hbase hfinished
  · rename_i hstack
    exact .wrong h (by rw [childBase, hstack]) (by rw [finishedCall, hstack])

lemma switch_of_call (hcall : opensFrame a.type = true) (h : callStep p s a = .ok s') :
    Switch p s a s' [] := by
  rw [callStep] at h
  cases hc : p.codeBlock with
  | false =>
    rw [hc] at h
    cases h
    exact .call hc hcall
  | true =>
    rw [hc] at h
    obtain ⟨s₁, hs₁, h⟩ := Runs.bind_eq_ok.mp h
    cases h
    obtain ⟨c, hcur, hblock⟩ := block_of_addCodeBlock hs₁
    exact .blockCall hc hcall hcur hblock

lemma switch_of_dispatch (h : dispatch p s a = .ok (s', es)) : Switch p s a s' es := by
  by_cases hmove : movesStack a.type = true
  · rw [dispatch] at h
    cases hty : a.type <;> rw [hty] at h hmove <;> try exact absurd hmove Bool.false_ne_true
    case trStart =>
      cases h
      exact switch_of_trStart hty
    case trEnd =>
      cases h
      exact .traceEnd hty
    case iret | ret | trEndReturn =>
      have hs := switch_of_return (p := p) (s := s) (a := a) (by rw [hty]; rfl)
      rwa [Except.ok.inj h] at hs
    all_goals
      obtain ⟨t, ht, hpure⟩ := Runs.bind_eq_ok.mp h
      cases hpure
      exact switch_of_call (by rw [hty]; rfl) ht
  · rw [dispatch_of_still (by simpa using hmove)] at h
    cases h
    exact .other (by simpa using hmove)

lemma move_of_branch (hh : handled p s a = true) (h : branchStep p s a = .ok (s', es)) :
    Move p s a s' es := by
  have he : a.isError = false := by
    simp only [handled, Bool.and_eq_true, Bool.not_eq_true'] at hh
    exact hh.1.1.1.1
  have hin : (a.type.isJump && a.fromTarget && a.toTarget) = (a.type.isJump && internal a) := by
    simp [internal, he, Bool.and_assoc]
  rw [branchStep, hin] at h
  split at h
  · rename_i hjump
    split at h
    · rename_i hc
      obtain ⟨t, ht, hpure⟩ := Runs.bind_eq_ok.mp h
      cases hpure
      obtain ⟨c, hcur, hblock⟩ := block_of_addCodeBlock ht
      exact .jump hh hjump hc hcur hblock
    · cases h
  · rename_i hjump
    split at h
    · cases h
    · obtain ⟨⟨t, fs⟩, ht, hpure⟩ := Runs.bind_eq_ok.mp h
      cases hpure
      exact .switch hh (by simpa using hjump) (switch_of_dispatch ht)

lemma move_of_ancestor (he : a.isError = false) (hs : starts s a = false)
    (hf : filtered p s a = true) (hh : handled p s a = false) :
    Move p s a (ancestorStep p s a rest).1 (ancestorStep p s a rest).2 := by
  have hw : wakes p s a = false := by simp [wakes, hf]
  rw [ancestorStep]
  split
  · exact .pass he hs hh (by simp) hw
  · split
    · exact .pass he hs hh (by simp) hw
    · exact .pass (x := s.ancestorBegin) he hs hh (by simp) hw

lemma move_of_schedEnd (he : a.isError = false) (hs : starts s a = false)
    (hf : filtered p s a = false) (hbegin : a.schedBegin = false) (hh : handled p s a = false) :
    Move p s a (schedEndStep s a).1 (schedEndStep s a).2 := by
  have hend : a.schedEnd = true := by simpa [handled, he, hs, hf, hbegin] using hh
  rw [schedEndStep]
  split
  · rename_i b hb
    exact .schedEnd he hs hh hb (by simp [wakes, he, hs, hf, hbegin, hend, hb])
  · rename_i hb
    exact .pass (x := s.ancestorBegin) he hs hh (by simp) (by simp [wakes, hb])

/-- Every round that returns is one of the moves. -/
theorem move_of_step (h : step p s a rest = .ok (s', es)) : Move p s a s' es := by
  cases hh : handled p s a with
  | true =>
    rw [step_of_handled hh] at h
    exact move_of_branch hh h
  | false =>
    rw [step_of_not_handled hh] at h
    split at h
    · rename_i he
      cases h
      exact .error he
    · rename_i he
      have he : a.isError = false := by simpa using he
      split at h
      · rename_i hs
        cases h
        exact .start hs
      · rename_i hs
        have hs : starts s a = false := by simpa using hs
        split at h
        · rename_i hf
          have hm : Move p s a (ancestorStep p s a rest).1 (ancestorStep p s a rest).2 :=
            move_of_ancestor he hs hf hh
          rwa [Except.ok.inj h] at hm
        · rename_i hf
          split at h
          · rename_i hbegin
            cases h
            exact .schedBegin he hs hh (by simp [wakes, hbegin])
          · rename_i hbegin
            have hm := move_of_schedEnd he hs (Bool.eq_false_of_not_eq_true hf)
              (Bool.eq_false_of_not_eq_true hbegin) hh
            rwa [Except.ok.inj h] at hm

end Inversion

section Stack

variable {p : Param} {s s' : State} {a : Action} {es : List Effect}

lemma handled_starts (h : handled p s a = true) : starts s a = false := by
  simp only [handled, Bool.and_eq_true, Bool.not_eq_true'] at h
  exact h.1.1.1.2

lemma handled_isError (h : handled p s a = true) : a.isError = false := by
  simp only [handled, Bool.and_eq_true, Bool.not_eq_true'] at h
  exact h.1.1.1.1

lemma not_wakes_of_handled (h : handled p s a = true) : wakes p s a = false := by
  simp only [handled, Bool.and_eq_true, Bool.not_eq_true'] at h
  simp [wakes, h.2]

lemma finishedCall_of_not_return (h : isReturn a.type = false) : finishedCall s a = none := by
  rw [finishedCall, h]
  split <;> rfl

lemma finishedCall_of_childBase {top : Action} (h : childBase s a = some top) :
    finishedCall s a = none := by
  rw [finishedCall]
  split
  · rename_i start hstack
    split
    · rename_i hends
      simp only [Bool.and_eq_true] at hends
      have hne := not_trStart_of_isReturn hends.1.1
      simp [childBase, hstack, hne, hends] at h
    · rfl
  · rfl

lemma not_return_of_opensFrame (h : opensFrame a.type = true) : isReturn a.type = false := by
  cases hty : a.type <;> rw [hty] at h <;> first | rfl | cases h

lemma not_return_of_still (h : movesStack a.type = false) : isReturn a.type = false := by
  cases hty : a.type <;> rw [hty] at h <;> first | rfl | cases h

/-- The switch hands over a call exactly when it is finished. -/
lemma Switch.adds (h : Switch p s a s' es) :
    es = (finishedCall s a).toList.map fun call => .add call a s.schedInTarget s.child := by
  have hnone : ∀ {fs : List Effect}, fs = [] → finishedCall s a = none →
      fs = (finishedCall s a).toList.map fun call => .add call a s.schedInTarget s.child := by
    intro fs hfs hcall
    rw [hfs, hcall]
    rfl
  cases h with
  | resume ht _ _ _ | reopen ht _ _ _ | lose ht _ | traceEnd ht =>
    exact hnone rfl (finishedCall_of_not_return (by rw [ht]; rfl))
  | call _ ht | blockCall _ ht _ _ =>
    exact hnone rfl (finishedCall_of_not_return (not_return_of_opensFrame ht))
  | finish ht hstack hfrom hto _ =>
    rw [finishedCall, hstack]
    simp [ht, hfrom, hto]
  | back _ _ _ hbase => exact hnone rfl (finishedCall_of_childBase hbase)
  | wrong _ _ hcall => exact hnone rfl hcall
  | other ht => exact hnone rfl (finishedCall_of_not_return (not_return_of_still ht))

lemma closedCall_of_not_handled (h : handled p s a = false) : closedCall p s a = none := by
  rw [closedCall, h, Bool.false_and, if_neg Bool.false_ne_true]

lemma Block.stack {c : Action} (h : Block s a c s') : s'.stack = s.stack := by
  cases h <;> rfl

inductive StackMove (s : State) (a : Action) (s' : State) : Prop
  | start : starts s a = true → s'.stack = [a] → StackMove s a s'
  | push : starts s a = false → s'.stack = rewriteJump a :: s.stack →
      (a.type.isJump && internal a) = false → a.isError = false →
      opensFrame (rewriteJump a).type = true ∨ (rewriteJump a).type = .trEnd → StackMove s a s'
  | drop (k : ℕ) : starts s a = false → s'.stack = s.stack.drop k → StackMove s a s'

lemma StackMove.keep (hs : starts s a = false) (h : s'.stack = s.stack) : StackMove s a s' :=
  .drop 0 hs h

lemma StackMove.pop {top : Action} {stack : List Action} (hs : starts s a = false)
    (h : s.stack = top :: stack) (h' : s'.stack = stack) : StackMove s a s' :=
  .drop 1 hs (by rw [h, h']; rfl)

lemma StackMove.clear (hs : starts s a = false) (h : s'.stack = []) : StackMove s a s' :=
  .drop s.stack.length hs (by rw [h, List.drop_length])

lemma Move.stackMove (h : Move p s a s' es) : StackMove s a s' := by
  cases h with
  | error he => exact .clear (by simp [starts, he]) rfl
  | start hs => exact .start hs rfl
  | pass _ hs => exact .keep hs rfl
  | schedBegin _ hs => exact .keep hs rfl
  | schedEnd _ hs => exact .keep hs rfl
  | jump hh _ _ _ hb => exact .keep (handled_starts hh) hb.stack
  | switch hh hj hsw =>
    have hs := handled_starts hh
    cases hsw with
    | resume _ hst => exact .pop hs hst rfl
    | reopen _ hst => exact .pop hs hst rfl
    | lose => exact .clear hs rfl
    | call _ hc => exact .push hs rfl hj (handled_isError hh) (Or.inl hc)
    | blockCall _ hc _ hb =>
      exact .push hs (congrArg (rewriteJump a :: ·) hb.stack) hj (handled_isError hh) (Or.inl hc)
    | traceEnd ht => exact .push hs rfl hj (handled_isError hh) (Or.inr ht)
    | finish => exact .clear hs rfl
    | back _ hst => exact .pop hs hst rfl
    | wrong => exact .clear hs rfl
    | other => exact .keep hs rfl

/-- The one round that passes a call to `FuncStat::add`. -/
structure Finishes (s : State) (a : Action) (s' : State) (call ret : Action) (latS : UInt64)
    (child : LatencyChild) : Prop where
  stack : s.stack = [call]
  toTarget : call.toTarget = true
  ret : ret = rewriteJump a
  latS : latS = s.schedInTarget
  child : child = s.child
  stack' : s'.stack = []

lemma not_add_of_count {call ret : Action} {latS : UInt64} {child : LatencyChild}
    (h : ∀ e ∈ es, e = .countAncestorBegin ∨ e = .countAncestorEnd) :
    Effect.add call ret latS child ∉ es := by
  intro hmem
  rcases h _ hmem with h | h <;> cases h

lemma startStep_not_add {call ret : Action} {latS : UInt64} {child : LatencyChild} :
    Effect.add call ret latS child ∉ (startStep p s a).2 := by
  rw [startStep, missed]
  dsimp only
  split <;> split <;> simp

lemma Move.finishes (h : Move p s a s' es) {call ret : Action} {latS : UInt64}
    {child : LatencyChild} (hadd : .add call ret latS child ∈ es) :
    es = [.add call ret latS child] ∧ Finishes s a s' call ret latS child := by
  cases h with
  | error => simp [errorStep] at hadd
  | start => exact absurd hadd startStep_not_add
  | pass _ _ _ hes => exact absurd hadd (not_add_of_count hes)
  | schedBegin => exact absurd hadd List.not_mem_nil
  | schedEnd => simp at hadd
  | jump => exact absurd hadd List.not_mem_nil
  | switch _ _ hsw =>
    cases hsw with
    | finish _ hst _ hto =>
      cases List.mem_singleton.mp hadd
      exact ⟨rfl, hst, hto, rfl, rfl, rfl, rfl⟩
    | _ => exact absurd hadd List.not_mem_nil

end Stack

end PtPerf.Analysis
