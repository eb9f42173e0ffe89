import PtPerf.Analysis.Machine

/-! Complete calls of the target as they appear in the trace: an entry, items that leave the
target and come back to it, and a return. -/

namespace PtPerf.Analysis

open PtPerf.Support PtPerf.Trace PtPerf.Stats

structure Item where
  leave : Action
  back : Action

structure Invocation where
  start : Action
  items : List Item
  finish : Action

namespace Item

def actions (it : Item) : List Action := [it.leave, it.back]

def duration (it : Item) : UInt64 := it.back.ts - it.leave.ts

/-- A pair whose time is reported under a child's name; a plain trace end is not. -/
def isChild (it : Item) : Bool := it.leave.type != .trEnd

def key (p : Param) (it : Item) : Str := childName p it.leave false (it.back.type == .iret)

end Item

namespace Invocation

def actions (inv : Invocation) : List Action :=
  inv.start :: (inv.items.flatMap Item.actions ++ [inv.finish])

def latency (inv : Invocation) : UInt64 := inv.finish.ts - inv.start.ts

end Invocation

/-- No error, and neither a schedule nor an ancestor mark. -/
structure Plain (a : Action) : Prop where
  isError : a.isError = false
  schedBegin : a.schedBegin = false
  schedEnd : a.schedEnd = false
  ancestorBegin : a.ancestorBegin = false
  ancestorEnd : a.ancestorEnd = false

structure Leaves (a : Action) : Prop extends Plain a where
  fromTarget : a.fromTarget = true
  toTarget : a.toTarget = false

structure Returns (a : Action) : Prop extends Plain a where
  fromTarget : a.fromTarget = false
  toTarget : a.toTarget = true

def isCallLike (a : Action) : Prop :=
  a.type = .call ∨ a.type = .hwInt ∨ (a.type.isJump = true ∧ a.toSym.offset = 0)

def isReturnLike (leave back : Action) : Prop :=
  ((back.type = .ret ∨ back.type = .iret ∨ back.type.isJump = true) ∧ back.toSym.offset ≠ 0) ∨
    (back.type = .iret ∧ leave.type = .hwInt ∧ leave.fromSym.offset = 0)

structure Item.IsCallReturn (it : Item) : Prop where
  leave : Leaves it.leave
  callLike : isCallLike it.leave
  back : Returns it.back
  returnLike : isReturnLike it.leave it.back

structure Item.IsTraceEndStart (it : Item) : Prop where
  leave : Leaves it.leave
  traceEnd : it.leave.type = .trEndCall ∨ it.leave.type = .trEndHwInt ∨
    it.leave.type = .trEndSyscall ∨ it.leave.type = .trEnd
  back : Plain it.back
  toTarget : it.back.toTarget = true
  traceStart : it.back.type = .trStart
  offset : it.back.toSym.offset ≠ 0

def Item.Resumes (it : Item) : Prop :=
  it.IsCallReturn ∨ (it.IsTraceEndStart ∧ it.leave.type ≠ .trEndSyscall)

structure Enters (a : Action) : Prop extends Plain a where
  fromTarget : a.fromTarget = false
  toTarget : a.toTarget = true
  offset : a.toSym.offset = 0

structure Ends (a : Action) : Prop extends Leaves a where
  type : a.type = .ret ∨ a.type = .trEndReturn

/-- What the analysis writes down for an item that follows `prev`: the code block that ends
there, in code-block mode, and the child. -/
def blockEntry (p : Param) (prev leave : Action) : List (Str × UInt64) :=
  if p.codeBlock = true ∧ leave.type ≠ .trEnd ∧ leave.fromSym.offset ≠ prev.toSym.offset then
    [(codeBlockName prev leave, leave.ts - prev.ts)]
  else []

def Item.entries (p : Param) (prev : Action) (it : Item) : List (Str × UInt64) :=
  blockEntry p prev it.leave ++ if it.isChild then [(it.key p, it.duration)] else []

def itemsEntries (p : Param) : Action → List Item → List (Str × UInt64)
  | _, [] => []
  | prev, it :: items => it.entries p prev ++ itemsEntries p it.back items

def recordAll (entries : List (Str × UInt64)) : LatencyChild :=
  entries.foldl (fun c e => c.addTarget e.1 e.2) .clear

lemma recordAll_append (es : List (Str × UInt64)) (name : Str) (lat : UInt64) :
    recordAll (es ++ [(name, lat)]) = (recordAll es).addTarget name lat := by
  simp [recordAll]

section Steps

variable {p : Param} {s : State} {a : Action} (rest : List Action)

lemma step_local (hp : p.ancestor = []) (s : State) (a : Action) (rest rest' : List Action) :
    step p s a rest = step p s a rest' := by
  simp [step, hp]

lemma step_start (ha : Enters a) (hn : s.noHwIntFromHead = true) :
    step p s a rest = .ok (startStep p s a) := by
  simp [step, ha.isError, entersTarget, ha.offset, ha.toTarget, hn]

lemma step_branch (hp : p.ancestor = []) (ha : Plain a)
    (hn : (entersTarget a && s.noHwIntFromHead) = false) :
    step p s a rest = branchStep p s a := by
  simp [step, ha.isError, hn, hp, ha.schedBegin, ha.schedEnd]

lemma branchStep_chain (h : a.fromTarget = !a.toTarget) :
    branchStep p s a = chainStep p s (rewriteJump a) := by
  cases ht : a.toTarget <;> simp [branchStep, h, ht]

end Steps

structure Between (s : State) : Prop where
  stack : s.stack = []
  child : s.child = .clear
  schedInTarget : s.schedInTarget = 0
  schedInChild : s.schedInChild = 0
  schedBegin : s.schedBegin = none
  prevTargetError : s.prevTargetError = false
  noHwIntFromHead : s.noHwIntFromHead = true

def CursorAt (s : State) (prev : Action) : Prop :=
  ∃ c, s.cursor = some c ∧ c.toSym = prev.toSym ∧ c.ts = prev.ts

/-- Executing the target on top of `frames`, with `prev` the last action; a chain that is still
right has the action that started the call as its only frame. -/
structure Inside (s : State) (frames : List Action) (prev : Action) (es : List (Str × UInt64)) :
    Prop where
  stack : s.stack = frames
  child : s.child = recordAll es
  schedInTarget : s.schedInTarget = 0
  schedInChild : s.schedInChild = 0
  schedBegin : s.schedBegin = none
  prevTargetError : s.prevTargetError = false
  noHwIntFromHead : s.noHwIntFromHead = true
  cursor : CursorAt s prev

/-- Outside the target, in the frame opened by `leave`. -/
structure Away (s : State) (frames : List Action) (leave : Action) (es : List (Str × UInt64)) :
    Prop where
  stack : s.stack = leave :: frames
  child : s.child = recordAll es
  schedInTarget : s.schedInTarget = 0
  schedInChild : s.schedInChild = 0
  schedBegin : s.schedBegin = none
  prevTargetError : s.prevTargetError = false

section Rewriting

variable (p : Param) (prev a : Action)

@[simp] lemma rewriteJump_toSym : (rewriteJump a).toSym = a.toSym := by
  unfold rewriteJump
  split
  · split <;> rfl
  · rfl

@[simp] lemma rewriteJump_fromSym : (rewriteJump a).fromSym = a.fromSym := by
  unfold rewriteJump
  split
  · split <;> rfl
  · rfl

@[simp] lemma rewriteJump_ts : (rewriteJump a).ts = a.ts := by
  unfold rewriteJump
  split
  · split <;> rfl
  · rfl

@[simp] lemma rewriteJump_fromTarget : (rewriteJump a).fromTarget = a.fromTarget := by
  unfold rewriteJump
  split
  · split <;> rfl
  · rfl

@[simp] lemma rewriteJump_toTarget : (rewriteJump a).toTarget = a.toTarget := by
  unfold rewriteJump
  split
  · split <;> rfl
  · rfl

lemma rewriteJump_of_not_jump (h : a.type.isJump = false) : rewriteJump a = a := by
  simp [rewriteJump, h]

lemma rewriteJump_type_eq (t : BranchType) (hc : t ≠ .call) (hr : t ≠ .ret)
    (hj : t.isJump = false) : (rewriteJump a).type = t ↔ a.type = t := by
  unfold rewriteJump
  by_cases h : a.type.isJump = true
  · have ha : a.type ≠ t := by
      rintro rfl
      rw [hj] at h
      exact Bool.false_ne_true h
    rw [if_pos h]
    split <;> simp [ha, hc.symm, hr.symm]
  · rw [if_neg h]

lemma rewriteJump_type_beq (t : BranchType) (hc : t ≠ .call) (hr : t ≠ .ret)
    (hj : t.isJump = false) : ((rewriteJump a).type == t) = (a.type == t) := by
  rw [Bool.eq_iff_iff, beq_iff_eq, beq_iff_eq]
  exact rewriteJump_type_eq a t hc hr hj

lemma childName_rewriteJump (unknown gather : Bool) :
    childName p (rewriteJump a) unknown gather = childName p a unknown gather := by
  simp [childName]

lemma blockEntry_rewriteJump : blockEntry p prev (rewriteJump a) = blockEntry p prev a := by
  simp [blockEntry, codeBlockName,
    rewriteJump_type_eq a .trEnd (by decide) (by decide) (by decide)]

lemma leavesFromHead_rewriteJump : leavesFromHead (rewriteJump a) = leavesFromHead a := by
  have h : ((rewriteJump a).type == BranchType.hwInt) = (a.type == BranchType.hwInt) :=
    rewriteJump_type_beq a .hwInt (by decide) (by decide) (by decide)
  simp [leavesFromHead, h]

end Rewriting

/-- The types for which the switch opens a frame. -/
def opensFrame (t : BranchType) : Bool :=
  t == .hwInt || t == .trEndHwInt || t == .call || t == .trEndSyscall || t == .trEndCall

section Switch

variable {p : Param} {s : State} {a : Action}

lemma dispatch_opening (h : opensFrame a.type = true) :
    dispatch p s a = (callStep p s a).map (·, []) := by
  simp only [opensFrame, Bool.or_eq_true, beq_iff_eq] at h
  rcases h with (((h | h) | h) | h) | h <;> rw [dispatch, h] <;> rfl

lemma dispatch_returning (h : a.type = .ret ∨ a.type = .iret ∨ a.type = .trEndReturn) :
    dispatch p s a = .ok (returnStep p s a) := by
  rcases h with h | h | h <;> rw [dispatch, h]

end Switch

section Leaving

variable {p : Param} {s : State} {frames : List Action} {prev a : Action}
  {es : List (Str × UInt64)}

lemma addCodeBlock_at (hc : CursorAt s prev) (hs : s.schedInChild = 0) :
    ∃ c, addCodeBlock s a = .ok (if a.fromSym.offset = prev.toSym.offset then s else
      { s with child := s.child.addTarget (codeBlockName prev a) (a.ts - prev.ts),
               schedInChild := 0, cursor := c }) := by
  obtain ⟨c, hcur, hto, hts⟩ := hc
  refine ⟨some a, ?_⟩
  have hname : codeBlockName c a = codeBlockName prev a := by simp [codeBlockName, hto]
  simp only [addCodeBlock, hcur, hto, hts, hs, hname, beq_iff_eq]
  split
  · rfl
  · rw [if_neg (by simp), LatencyChild.addSched_zero]

lemma callStep_at (hc : CursorAt s prev) (hs : s.schedInChild = 0) (hch : s.child = recordAll es)
    (ht : a.type ≠ .trEnd) :
    ∃ c, callStep p s a = .ok { s with
      stack := a :: s.stack, child := recordAll (es ++ blockEntry p prev a), cursor := c,
      schedBegin := none, schedInChild := 0 } := by
  cases hb : p.codeBlock with
  | false =>
    refine ⟨s.cursor, ?_⟩
    simp [callStep, hb, blockEntry, hch, bind, Except.bind, pure, Except.pure]
  | true =>
    obtain ⟨c, hadd⟩ := addCodeBlock_at (a := a) hc hs
    by_cases ho : a.fromSym.offset = prev.toSym.offset
    · refine ⟨s.cursor, ?_⟩
      simp [callStep, hb, hadd, ho, blockEntry, hch, bind, Except.bind, pure, Except.pure]
    · refine ⟨c, ?_⟩
      simp [callStep, hb, hadd, ho, ht, blockEntry, hch, bind, Except.bind, pure, Except.pure,
        recordAll_append]

lemma chainStep_opens (hi : Inside s frames prev es)
    (ht : opensFrame a.type = true ∨ a.type = .trEnd) :
    ∃ s', chainStep p s a = .ok (s', []) ∧ Away s' frames a (es ++ blockEntry p prev a) ∧
      s'.noHwIntFromHead = !leavesFromHead a := by
  have hcur : CursorAt { s with noHwIntFromHead := !leavesFromHead a } prev := hi.cursor
  rcases ht with ht | ht
  · have hne : a.type ≠ .trEnd := by
      intro he
      simp [he, opensFrame] at ht
    obtain ⟨c, hcall⟩ := callStep_at (p := p) hcur hi.schedInChild hi.child hne
    refine ⟨_, by rw [chainStep, dispatch_opening ht, hcall]; rfl, ?_⟩
    exact ⟨⟨by simp [hi.stack], rfl, hi.schedInTarget, rfl, rfl, hi.prevTargetError⟩, rfl⟩
  · refine ⟨_, by rw [chainStep, dispatch, ht]; rfl, ?_⟩
    have hb : blockEntry p prev a = [] := by simp [blockEntry, ht]
    exact ⟨⟨by simp [hi.stack], by simp [hb, hi.child], hi.schedInTarget, hi.schedInChild,
      hi.schedBegin, hi.prevTargetError⟩, rfl⟩

lemma leave_step (hp : p.ancestor = []) (rest : List Action) (hi : Inside s frames prev es)
    (hl : Leaves a)
    (ht : opensFrame (rewriteJump a).type = true ∨ (rewriteJump a).type = .trEnd) :
    ∃ s', step p s a rest = .ok (s', []) ∧
      Away s' frames (rewriteJump a) (es ++ blockEntry p prev a) ∧
      s'.noHwIntFromHead = !leavesFromHead a := by
  rw [step_branch rest hp hl.toPlain (by simp [entersTarget, hl.toTarget]),
    branchStep_chain (by simp [hl.fromTarget, hl.toTarget]), ← blockEntry_rewriteJump,
    ← leavesFromHead_rewriteJump]
  exact chainStep_opens hi ht

end Leaving

section Returning

variable {p : Param} {s : State} {frames : List Action} {leave a : Action}
  {es : List (Str × UInt64)}

lemma addOneChild_at (unknown gather : Bool) (hs : s.schedInChild = 0) (hu : unknown = false) :
    addOneChild p s leave a unknown gather = { s with
      child := s.child.addTarget (childName p leave false gather) (a.ts - leave.ts),
      schedInChild := 0 } := by
  subst hu
  simp [addOneChild, hs]

lemma returnStep_top (hst : s.stack = leave :: frames) (hl : leave.fromTarget = true)
    (hl' : leave.toTarget = false) (ht : a.type = .ret ∨ a.type = .iret) :
    returnStep p s a =
      ({ addOneChild p s leave a false (a.type == .iret) with stack := frames }, []) := by
  have hne : (a.type != .trEndReturn) = true := by
    rcases ht with h | h <;> rw [h] <;> rfl
  cases frames <;> simp only [returnStep, hst, hl, hl', hne, Bool.and_self, Bool.and_false,
    Bool.false_eq_true, if_false, if_true]

lemma returnStep_away (hw : Away s frames leave es) (hl : leave.fromTarget = true)
    (hl' : leave.toTarget = false) (ht : a.type = .ret ∨ a.type = .iret) :
    returnStep p s a = ({ s with
      child := recordAll (es ++ [(childName p leave false (a.type == .iret), a.ts - leave.ts)]),
      schedInChild := 0, stack := frames }, []) := by
  rw [returnStep_top hw.stack hl hl' ht]
  simp only [addOneChild_at false _ hw.schedInChild rfl, recordAll_append, hw.child]

lemma trStartStep_away (hw : Away s frames leave es)
    (hl : leave.type = .trEndCall ∨ leave.type = .trEndHwInt ∨ leave.type = .trEnd) :
    trStartStep p s a = { s with
      child := recordAll (es ++ if leave.type != .trEnd then
        [(childName p leave false false, a.ts - leave.ts)] else []),
      schedInChild := 0, stack := frames } := by
  rcases hl with h | h | h
  · simp [trStartStep, hw.stack, h, addOneChild_at false _ hw.schedInChild rfl,
      recordAll_append, hw.child]
  · simp [trStartStep, hw.stack, h, addOneChild_at false _ hw.schedInChild rfl,
      recordAll_append, hw.child]
  · simp [trStartStep, hw.stack, h, ← hw.child]

lemma Away.setNoHwInt (hw : Away s frames leave es) (b : Bool) :
    Away { s with noHwIntFromHead := b } frames leave es :=
  ⟨hw.stack, hw.child, hw.schedInTarget, hw.schedInChild, hw.schedBegin, hw.prevTargetError⟩

lemma Away.resumed (hw : Away s frames leave es) (ht : a.type ≠ .hwInt)
    (entries : List (Str × UInt64)) :
    Inside { s with noHwIntFromHead := !leavesFromHead a, child := recordAll entries,
                    schedInChild := 0, stack := frames, cursor := some a } frames a entries := by
  have hh : leavesFromHead a = false := by simp [leavesFromHead, ht]
  exact ⟨rfl, rfl, hw.schedInTarget, rfl, hw.schedBegin, hw.prevTargetError, by simp [hh],
    a, rfl, rfl, rfl⟩

lemma chainStep_return (hw : Away s frames leave es) (hl : leave.fromTarget = true)
    (hl' : leave.toTarget = false) (ht : a.type = .ret ∨ a.type = .iret) :
    ∃ s', chainStep p s a = .ok (s', []) ∧ Inside s' frames a
      (es ++ [(childName p leave false (a.type == .iret), a.ts - leave.ts)]) := by
  have hne : a.type ≠ .hwInt := by
    rcases ht with h | h <;> rw [h] <;> decide
  refine ⟨_, ?_, hw.resumed hne _⟩
  rw [chainStep, dispatch_returning (ht.imp_right Or.inl), returnStep_away (hw.setNoHwInt _) hl hl' ht]
  rfl

lemma chainStep_traceStart (hw : Away s frames leave es) (ht : a.type = .trStart)
    (hl : leave.type = .trEndCall ∨ leave.type = .trEndHwInt ∨ leave.type = .trEnd) :
    ∃ s', chainStep p s a = .ok (s', []) ∧ Inside s' frames a
      (es ++ if leave.type != .trEnd then [(childName p leave false false, a.ts - leave.ts)]
        else []) := by
  have hd : ∀ t : State, dispatch p t a = .ok (trStartStep p t a, []) := by
    intro t
    rw [dispatch, ht]
  refine ⟨_, ?_, hw.resumed (by rw [ht]; decide) _⟩
  rw [chainStep, hd, trStartStep_away (hw.setNoHwInt _) hl]
  rfl

end Returning

section Running

variable {p : Param} {s : State} {frames : List Action} {prev : Action} {es : List (Str × UInt64)}

lemma Inside.congr_prev {a b : Action} (hi : Inside s frames a es) (hto : a.toSym = b.toSym)
    (hts : a.ts = b.ts) : Inside s frames b es := by
  obtain ⟨c, hc, ht, hs⟩ := hi.cursor
  exact { hi with cursor := ⟨c, hc, ht.trans hto, hs.trans hts⟩ }

lemma isCallLike.opensFrame {a : Action} (h : isCallLike a) (hf : a.fromTarget = true) :
    opensFrame (rewriteJump a).type = true := by
  rcases h with h | h | ⟨hj, ho⟩
  · rw [rewriteJump_of_not_jump a (by rw [h]; rfl), h]
    rfl
  · rw [rewriteJump_of_not_jump a (by rw [h]; rfl), h]
    rfl
  · simp [rewriteJump, hj, hf, ho, Analysis.opensFrame]

lemma isReturnLike.type {leave a : Action} (h : isReturnLike leave a) (hf : a.fromTarget = false) :
    (rewriteJump a).type = .ret ∨ (rewriteJump a).type = .iret := by
  rcases h with ⟨h | h | h, _⟩ | ⟨h, _⟩
  · left
    rw [rewriteJump_of_not_jump a (by rw [h]; rfl), h]
  · right
    rw [rewriteJump_of_not_jump a (by rw [h]; rfl), h]
  · left
    simp [rewriteJump, h, hf]
  · right
    rw [rewriteJump_of_not_jump a (by rw [h]; rfl), h]

/-- Coming back at offset 0 does not start a new call: the interrupt was taken there. -/
lemma isReturnLike.not_start {leave a : Action} (h : isReturnLike leave a)
    (hf : leave.fromTarget = true) : (entersTarget a && !leavesFromHead leave) = false := by
  rcases h with ⟨_, ho⟩ | ⟨_, ht, ho⟩
  · simp [entersTarget, ho]
  · simp [leavesFromHead, ht, hf, ho]

lemma Item.IsCallReturn.isChild {it : Item} (hc : it.IsCallReturn) : it.isChild = true := by
  rcases hc.callLike with h | h | ⟨h, _⟩
  · simp [Item.isChild, h]
  · simp [Item.isChild, h]
  · have hne : it.leave.type ≠ .trEnd := by
      intro he
      rw [he] at h
      exact absurd h (by decide)
    simpa [Item.isChild] using hne

lemma callReturn_run (hp : p.ancestor = []) {it : Item} (hi : Inside s frames prev es)
    (hc : it.IsCallReturn) :
    ∃ s', Runs.run (step p) s it.actions = .ok (s', []) ∧
      Inside s' frames it.back (es ++ it.entries p prev) := by
  have hopen := hc.callLike.opensFrame hc.leave.fromTarget
  obtain ⟨s₁, h₁, hw, hn⟩ := leave_step hp [it.back] hi hc.leave (Or.inl hopen)
  have hstart : (entersTarget it.back && s₁.noHwIntFromHead) = false := by
    rw [hn]
    exact hc.returnLike.not_start hc.leave.fromTarget
  obtain ⟨s₂, h₂, hin⟩ := chainStep_return (p := p) hw (by simp [hc.leave.fromTarget])
    (by simp [hc.leave.toTarget]) (hc.returnLike.type hc.back.fromTarget)
  have h₂' : step p s₁ it.back [] = .ok (s₂, []) := by
    rw [step_branch [] hp hc.back.toPlain hstart,
      branchStep_chain (by simp [hc.back.fromTarget, hc.back.toTarget]), h₂]
  refine ⟨s₂, Runs.run_cons_ok h₁ (Runs.run_cons_ok h₂' rfl), ?_⟩
  have hiret : ((rewriteJump it.back).type == .iret) = (it.back.type == .iret) :=
    rewriteJump_type_beq it.back .iret (by decide) (by decide) (by decide)
  have hchild := hc.isChild
  have hh := hin.congr_prev (b := it.back) (by simp) (by simp)
  simpa [Item.entries, hchild, Item.key, Item.duration, hiret, childName_rewriteJump] using hh

lemma traceEndStart_run (hp : p.ancestor = []) {it : Item} (hi : Inside s frames prev es)
    (hc : it.IsTraceEndStart) (hsys : it.leave.type ≠ .trEndSyscall) :
    ∃ s', Runs.run (step p) s it.actions = .ok (s', []) ∧
      Inside s' frames it.back (es ++ it.entries p prev) := by
  have htype : it.leave.type = .trEndCall ∨ it.leave.type = .trEndHwInt ∨
      it.leave.type = .trEnd := by
    rcases hc.traceEnd with h | h | h | h
    · exact Or.inl h
    · exact Or.inr (Or.inl h)
    · exact absurd h hsys
    · exact Or.inr (Or.inr h)
  have hjump : rewriteJump it.leave = it.leave := by
    apply rewriteJump_of_not_jump
    rcases htype with h | h | h <;> rw [h] <;> rfl
  have hjump' : rewriteJump it.back = it.back :=
    rewriteJump_of_not_jump _ (by rw [hc.traceStart]; rfl)
  have hopen : opensFrame (rewriteJump it.leave).type = true ∨
      (rewriteJump it.leave).type = .trEnd := by
    rw [hjump]
    rcases htype with h | h | h
    · exact Or.inl (by rw [h]; rfl)
    · exact Or.inl (by rw [h]; rfl)
    · exact Or.inr h
  obtain ⟨s₁, h₁, hw, _⟩ := leave_step hp [it.back] hi hc.leave hopen
  rw [hjump] at hw
  obtain ⟨s₂, h₂, hin⟩ := chainStep_traceStart (p := p) hw hc.traceStart htype
  have h₂' : step p s₁ it.back [] = .ok (s₂, []) := by
    rw [step_branch [] hp hc.back (by simp [entersTarget, hc.offset]), branchStep]
    simpa [hc.traceStart, BranchType.isJump, hjump'] using h₂
  refine ⟨s₂, Runs.run_cons_ok h₁ (Runs.run_cons_ok h₂' rfl), ?_⟩
  have hiret : (BranchType.trStart == BranchType.iret) = false := rfl
  simpa [Item.entries, Item.isChild, Item.key, Item.duration, hc.traceStart, hiret] using hin

lemma item_run (hp : p.ancestor = []) {it : Item} (hi : Inside s frames prev es)
    (hr : it.Resumes) :
    ∃ s', Runs.run (step p) s it.actions = .ok (s', []) ∧
      Inside s' frames it.back (es ++ it.entries p prev) := by
  rcases hr with hc | ⟨hc, hsys⟩
  · exact callReturn_run hp hi hc
  · exact traceEndStart_run hp hi hc hsys

def lastAction : Action → List Item → Action
  | prev, [] => prev
  | _, it :: items => lastAction it.back items

lemma items_run (hp : p.ancestor = []) (items : List Item) (hi : Inside s frames prev es)
    (hr : ∀ it ∈ items, it.Resumes) :
    ∃ s', Runs.run (step p) s (items.flatMap Item.actions) = .ok (s', []) ∧
      Inside s' frames (lastAction prev items) (es ++ itemsEntries p prev items) := by
  induction items generalizing s prev es with
  | nil => exact ⟨s, rfl, by simpa [itemsEntries, lastAction] using hi⟩
  | cons it items ih =>
    obtain ⟨s₁, h₁, hi₁⟩ := item_run hp hi (hr it (by simp))
    obtain ⟨s₂, h₂, hi₂⟩ := ih hi₁ fun j hj => hr j (by simp [hj])
    refine ⟨s₂, ?_, by simpa [itemsEntries, lastAction] using hi₂⟩
    rw [List.flatMap_cons]
    exact Runs.run_append_ok (step_local hp) h₁ h₂

lemma returnStep_done {start a : Action} (hst : s.stack = [start]) (hs : start.toTarget = true)
    (ha : a.fromTarget = true) :
    returnStep p s a = ({ s with child := .clear, schedInTarget := 0, stack := [] },
      [.add start a s.schedInTarget s.child]) := by
  simp [returnStep, hst, hs, ha]

lemma step_ends {a : Action} (hp : p.ancestor = []) (rest : List Action) (ha : Ends a) :
    step p s a rest =
      .ok ({ (returnStep p { s with noHwIntFromHead := true } a).1 with cursor := some a },
        (returnStep p { s with noHwIntFromHead := true } a).2) := by
  have hjump : rewriteJump a = a := by
    apply rewriteJump_of_not_jump
    rcases ha.type with h | h <;> rw [h] <;> rfl
  have hhead : leavesFromHead a = false := by
    rcases ha.type with h | h <;> simp [leavesFromHead, h]
  have htype : a.type = .ret ∨ a.type = .iret ∨ a.type = .trEndReturn := ha.type.imp_right Or.inr
  rw [step_branch rest hp ha.toPlain (by simp [entersTarget, ha.toTarget]),
    branchStep_chain (by simp [ha.fromTarget, ha.toTarget]), hjump, chainStep,
    dispatch_returning htype, hhead]
  rfl

lemma finish_step {start a : Action} (hp : p.ancestor = []) (rest : List Action)
    (hi : Inside s [start] prev es) (hs : start.toTarget = true) (ha : Ends a) :
    ∃ s', step p s a rest = .ok (s', [.add start a 0 (recordAll es)]) ∧ Between s' := by
  have hst : { s with noHwIntFromHead := true }.stack = [start] := hi.stack
  rw [step_ends hp rest ha, returnStep_done hst hs ha.fromTarget]
  refine ⟨{ s with child := .clear, schedInTarget := 0, stack := [],
                   noHwIntFromHead := true, cursor := some a }, ?_, ?_⟩
  · change Except.ok (_, [Effect.add start a s.schedInTarget s.child]) = _
    rw [hi.schedInTarget, hi.child]
  · exact ⟨rfl, rfl, rfl, hi.schedInChild, hi.schedBegin, hi.prevTargetError, rfl⟩

structure Invocation.WellFormed (inv : Invocation) : Prop where
  start : Enters inv.start
  items : ∀ it ∈ inv.items, it.Resumes
  finish : Ends inv.finish

def Invocation.entries (p : Param) (inv : Invocation) : List (Str × UInt64) :=
  itemsEntries p inv.start inv.items

def Invocation.effect (p : Param) (inv : Invocation) : Effect :=
  .add inv.start inv.finish 0 (recordAll (inv.entries p))

lemma startStep_inside (a : Action) (hn : s.noHwIntFromHead = true) :
    Inside (startStep p s a).1 [a] a [] :=
  ⟨rfl, rfl, rfl, rfl, rfl, rfl, hn, a, rfl, rfl, rfl⟩

lemma startStep_between (a : Action) (hb : Between s) :
    startStep p s a = ((startStep p s a).1, []) := by
  have hu : unfinished p s a = .clear := by simp [unfinished, hb.stack, hb.child]
  have hm : missed s a = [] := by simp [missed, hb.prevTargetError]
  rw [startStep, hu, hm]
  rfl

lemma invocation_run (hp : p.ancestor = []) {inv : Invocation} (hb : Between s)
    (hw : inv.WellFormed) :
    ∃ s', Runs.run (step p) s inv.actions = .ok (s', [inv.effect p]) ∧ Between s' := by
  have h₁ := step_start (p := p) (inv.items.flatMap Item.actions ++ [inv.finish]) hw.start
    hb.noHwIntFromHead
  have hi₁ := startStep_inside (p := p) inv.start hb.noHwIntFromHead
  obtain ⟨s₂, h₂, hi₂⟩ := items_run hp inv.items hi₁ hw.items
  obtain ⟨s₃, h₃, hb₃⟩ := finish_step hp [] hi₂ hw.start.toTarget hw.finish
  refine ⟨s₃, ?_, hb₃⟩
  have hr := Runs.run_append_ok (step_local hp) h₂ (Runs.run_cons_ok h₃ rfl)
  exact Runs.run_cons_ok (h₁.trans (congrArg Except.ok (startStep_between inv.start hb))) hr

lemma invocations_run (hp : p.ancestor = []) (invs : List Invocation) (hb : Between s)
    (hw : ∀ inv ∈ invs, inv.WellFormed) :
    ∃ s', Runs.run (step p) s (invs.flatMap Invocation.actions) =
      .ok (s', invs.map (Invocation.effect p)) ∧ Between s' := by
  induction invs generalizing s with
  | nil => exact ⟨s, rfl, hb⟩
  | cons inv invs ih =>
    obtain ⟨s₁, h₁, hb₁⟩ := invocation_run hp hb (hw inv (by simp))
    obtain ⟨s₂, h₂, hb₂⟩ := ih hb₁ fun j hj => hw j (by simp [hj])
    exact ⟨s₂, Runs.run_append_ok (step_local hp) h₁ h₂, hb₂⟩

lemma between_init : Between State.init := ⟨rfl, rfl, rfl, rfl, rfl, rfl, rfl⟩

end Running

end PtPerf.Analysis
