import PtPerf.Support.Rekey
import PtPerf.Analysis.StoredKeys

/-! What the statistics depend on. Of the times of the actions only the differences are read, addresses
only show up in keys, and whether a key has an address makes no difference to what is added up under it. -/

namespace PtPerf.Stats

open PtPerf.Support PtPerf.Trace

section Rekey

variable (key : Str → Str)

def Bucket.rekey : Bucket →+ Bucket := TallyMap.rekeyHom key (AddMonoidHom.id Element)

def Children.rekey : Children →+ Children where
  toFun c := ⟨Bucket.rekey key c.target, Bucket.rekey key c.sched⟩
  map_zero' := Children.ext (map_zero (Bucket.rekey key)) (map_zero (Bucket.rekey key))
  map_add' _ _ := Children.ext (map_add (Bucket.rekey key) _ _) (map_add (Bucket.rekey key) _ _)

def LatencyCaller.rekey : LatencyCaller →+ LatencyCaller where
  toFun c := ⟨c.latency, Children.rekey key c.children⟩
  map_zero' := LatencyCaller.ext rfl (map_zero (Children.rekey key))
  map_add' _ _ := LatencyCaller.ext rfl (map_add (Children.rekey key) _ _)

def Tally.rekey : Tally →+ Tally where
  toFun t := ⟨t.latency, Children.rekey key t.children,
    TallyMap.rekeyHom key (LatencyCaller.rekey key) t.callers, t.schedCount⟩
  map_zero' := Tally.ext rfl (map_zero (Children.rekey key)) (map_zero (TallyMap.rekeyHom key _)) rfl
  map_add' _ _ := Tally.ext rfl (map_add (Children.rekey key) _ _) (map_add (TallyMap.rekeyHom key _) _ _) rfl

def LatencyChild.rekey (c : LatencyChild) : LatencyChild :=
  ⟨Children.rekey key c.toChildren, c.targetTotal, c.schedTotal⟩

variable {key}

lemma Children.rekey_id : Children.rekey id = AddMonoidHom.id Children := by
  apply AddMonoidHom.ext
  intro c
  exact Children.ext (TallyMap.rekey_id _) (TallyMap.rekey_id _)

lemma LatencyCaller.rekey_id : LatencyCaller.rekey id = AddMonoidHom.id LatencyCaller := by
  apply AddMonoidHom.ext
  intro c
  exact LatencyCaller.ext rfl (DFunLike.congr_fun Children.rekey_id c.children)

lemma Tally.rekey_id (t : Tally) : Tally.rekey id t = t := by
  apply Tally.ext
  · rfl
  · exact DFunLike.congr_fun Children.rekey_id t.children
  · change TallyMap.rekey id (LatencyCaller.rekey id) t.callers = t.callers
    rw [LatencyCaller.rekey_id]
    exact TallyMap.rekey_id t.callers
  · rfl

namespace LatencyChild

@[simp] lemma rekey_toChildren (c : LatencyChild) :
    (c.rekey key).toChildren = Children.rekey key c.toChildren := rfl

@[simp] lemma rekey_clear : clear.rekey key = clear := by
  have hzero : Children.rekey key 0 = 0 := map_zero (Children.rekey key)
  exact congrArg (fun c => LatencyChild.mk c 0 0) hzero

lemma rekey_empty (c : LatencyChild) : (c.rekey key).empty = c.empty := by
  have hzero : ∀ b : Bucket, (Bucket.rekey key b == 0) = (b == 0) := by
    intro b
    rw [Bool.eq_iff_iff, beq_iff_eq, beq_iff_eq]
    exact TallyMap.rekey_eq_zero _ _
  exact congrArg₂ (· && ·) (hzero c.target) (hzero c.sched)

lemma rekey_addVal (b : Bucket) (name : Str) (lat : UInt64) :
    Bucket.rekey key (b.addVal name lat) = (Bucket.rekey key b).addVal (key name) lat :=
  TallyMap.rekey_bump key (AddMonoidHom.id Element) b name ⟨1, lat⟩

lemma rekey_addTarget (c : LatencyChild) (name : Str) (lat : UInt64) :
    (c.addTarget name lat).rekey key = (c.rekey key).addTarget (key name) lat :=
  congrArg (fun b => LatencyChild.mk ⟨b, Bucket.rekey key c.sched⟩ (c.targetTotal + lat) c.schedTotal)
    (rekey_addVal c.target name lat)

lemma rekey_addSched (c : LatencyChild) (name : Str) (lat : UInt64) :
    (c.addSched name lat).rekey key = (c.rekey key).addSched (key name) lat := by
  rw [addSched, addSched]
  split
  · rfl
  · exact congrArg (fun b => LatencyChild.mk ⟨Bucket.rekey key c.target, b⟩ c.targetTotal (c.schedTotal + lat))
      (rekey_addVal c.sched name lat)

end LatencyChild

end Rekey

end PtPerf.Stats

namespace PtPerf.Analysis

open PtPerf.Support PtPerf.Trace PtPerf.Stats

/-- The action at a later time, in a program that is loaded elsewhere. -/
def relocate (shift : UInt64) (addr : UInt64 → UInt64) (a : Action) : Action :=
  { a with
    ts := a.ts + shift
    fromSym := { a.fromSym with addr := addr a.fromSym.addr }
    toSym := { a.toSym with addr := addr a.toSym.addr } }

/-- The call begins at a time that is counted. -/
def counted (p : Param) (lat ts : UInt64) : Bool :=
  FuncStat.inInterval p.statOption lat ts && !(p.timeline && ts ≥ p.timeStart)

/-- The keys of `q` for relocated actions are those of `p`, up to `key`. -/
structure Recodes (p q : Param) (shift : UInt64) (addr : UInt64 → UInt64) (key : Str → Str) : Prop where
  ancestor : q.ancestor = p.ancestor
  ancestorLatency : q.ancestorLatency = p.ancestorLatency
  codeBlock : q.codeBlock = p.codeBlock
  counted : ∀ lat ts, counted q lat (ts + shift) = counted p lat ts
  child : ∀ a unknown gather,
    childName q (relocate shift addr a) unknown gather = key (childName p a unknown gather)
  block : ∀ a b, key (codeBlockName a b) = codeBlockName a b
  self : key targetSelf = targetSelf
  caller : ∀ a b, FuncStat.callerKey q.statOption (relocate shift addr a) (relocate shift addr b) =
    key (FuncStat.callerKey p.statOption a b)
  start : ∀ a, startCaller q (relocate shift addr a) = key (startCaller p a)
  noCaller : key unknownCaller = unknownCaller

section Recode

variable (shift : UInt64) (addr : UInt64 → UInt64) (key : Str → Str)

def State.recode (s : State) : State :=
  { s with
    stack := s.stack.map (relocate shift addr)
    child := s.child.rekey key
    schedBegin := s.schedBegin.map (relocate shift addr)
    targetBegin := s.targetBegin.map (relocate shift addr)
    ancestorBegin := s.ancestorBegin.map (relocate shift addr)
    cursor := s.cursor.map (relocate shift addr) }

def Effect.recode : Effect → Effect
  | .add call ret latS child => .add (relocate shift addr call) (relocate shift addr ret) latS (child.rekey key)
  | .addUnknownLatency child caller => .addUnknownLatency (Children.rekey key child) (key caller)
  | .countSched => .countSched
  | .addMiss ns => .addMiss ns
  | .countAncestorBegin => .countAncestorBegin
  | .countAncestorEnd => .countAncestorEnd

def recodeRound (r : State × List Effect) : State × List Effect :=
  (r.1.recode shift addr key, r.2.map (Effect.recode shift addr key))

end Recode

section Steps

variable {p q : Param} {shift : UInt64} {addr : UInt64 → UInt64} {key : Str → Str}

lemma relocate_elapsed (a b : Action) :
    (relocate shift addr b).ts - (relocate shift addr a).ts = b.ts - a.ts :=
  add_sub_add_right_eq_sub b.ts a.ts shift

lemma rewriteJump_relocate (a : Action) :
    rewriteJump (relocate shift addr a) = relocate shift addr (rewriteJump a) := by
  rw [rewriteJump, rewriteJump]
  change (if a.type.isJump then if a.fromTarget && a.toSym.offset == 0 then _ else _ else _) = _
  split_ifs <;> rfl

namespace Recodes

variable (h : Recodes p q shift addr key) (s : State) (a : Action) (rest : List Action)
include h

lemma addOneChild (top : Action) (unknown gather : Bool) :
    addOneChild q (s.recode shift addr key) (relocate shift addr top) (relocate shift addr a) unknown gather =
      (addOneChild p s top a unknown gather).recode shift addr key := by
  simp only [Analysis.addOneChild, State.recode, h.child, relocate_elapsed, LatencyChild.rekey_addSched,
    LatencyChild.rekey_addTarget]

lemma addCodeBlock :
    addCodeBlock (s.recode shift addr key) (relocate shift addr a) =
      (addCodeBlock s a).map (State.recode shift addr key) := by
  rw [Analysis.addCodeBlock, Analysis.addCodeBlock]
  cases hcur : s.cursor with
  | none => simp [State.recode, hcur, Except.map]
  | some c =>
    have hrec : (s.recode shift addr key).cursor = some (relocate shift addr c) := by
      simp [State.recode, hcur]
    have hname : codeBlockName (relocate shift addr c) (relocate shift addr a) = key (codeBlockName c a) :=
      (h.block c a).symm
    simp only [hrec, hname, relocate_elapsed]
    change (if a.fromSym.offset == c.toSym.offset then _ else if a.ts - c.ts < s.schedInChild then _ else _) = _
    split_ifs
    · rfl
    · rfl
    · simp only [Except.map, State.recode, LatencyChild.rekey_addSched, LatencyChild.rekey_addTarget,
        Option.map_some]

lemma errorStep :
    errorStep (s.recode shift addr key) = recodeRound shift addr key (errorStep s) := by
  simp only [Analysis.errorStep, recodeRound, State.clearContext, State.recode, List.map_cons, List.map_nil,
    Effect.recode, h.noCaller, LatencyChild.rekey_clear, LatencyChild.rekey_toChildren, Option.map_none]

lemma unfinished :
    unfinished q (s.recode shift addr key) (relocate shift addr a) =
      (unfinished p s a).rekey key := by
  have hadd := fun top => congrArg State.child (h.addOneChild s a top true false)
  rw [Analysis.unfinished, Analysis.unfinished]
  rcases hst : s.stack with _ | ⟨top, _ | ⟨bottom, _ | ⟨next, stack⟩⟩⟩ <;> cases ht : s.targetBegin <;>
    simp only [State.recode, hst, ht, List.map_cons, List.map_nil, Option.map_some, Option.map_none]
  exact hadd top

lemma unfinishedCaller :
    unfinishedCaller q (s.recode shift addr key) = key (unfinishedCaller p s) := by
  rw [Analysis.unfinishedCaller, Analysis.unfinishedCaller]
  cases hw : s.wrongChain <;> cases ht : s.targetBegin <;>
    simp [State.recode, hw, ht, h.start, h.noCaller]

omit h in
lemma missed :
    missed (s.recode shift addr key) (relocate shift addr a) =
      (missed s a).map (Effect.recode shift addr key) := by
  rw [Analysis.missed, Analysis.missed]
  cases hp : s.prevTargetError <;> cases ht : s.targetBegin <;>
    simp [State.recode, hp, ht, relocate_elapsed, Effect.recode]

lemma startStep :
    startStep q (s.recode shift addr key) (relocate shift addr a) =
      recodeRound shift addr key (startStep p s a) := by
  simp only [Analysis.startStep, recodeRound, h.unfinished, h.unfinishedCaller, missed, LatencyChild.rekey_empty,
    List.map_append]
  apply Prod.ext
  · simp only [State.recode, List.map_cons, List.map_nil, Option.map_some, Option.map_none,
      LatencyChild.rekey_clear]
  · apply congrArg (· ++ _)
    split <;> rfl

lemma withinAncestorLatency :
    withinAncestorLatency q (relocate shift addr a) (rest.map (relocate shift addr)) =
      withinAncestorLatency p a rest := by
  have hfind : (relocate shift addr a :: rest.map (relocate shift addr)).find? (·.ancestorEnd) =
      ((a :: rest).find? (·.ancestorEnd)).map (relocate shift addr) := by
    rw [← List.map_cons, List.find?_map]
    rfl
  rw [Analysis.withinAncestorLatency, Analysis.withinAncestorLatency, h.ancestorLatency, hfind]
  cases (a :: rest).find? (·.ancestorEnd) with
  | none => rfl
  | some e => simp only [Option.map_some, relocate_elapsed]

lemma ancestorStep :
    ancestorStep q (s.recode shift addr key) (relocate shift addr a) (rest.map (relocate shift addr)) =
      recodeRound shift addr key (ancestorStep p s a rest) := by
  rw [Analysis.ancestorStep, Analysis.ancestorStep, h.withinAncestorLatency]
  change (if a.ancestorBegin then _ else if a.ancestorEnd then _ else _) = _
  split_ifs <;> rfl

omit h in
lemma schedEndStep :
    schedEndStep (s.recode shift addr key) (relocate shift addr a) =
      recodeRound shift addr key (schedEndStep s a) := by
  rw [Analysis.schedEndStep, Analysis.schedEndStep]
  cases hb : s.schedBegin with
  | none =>
    simp [State.recode, hb, recodeRound]
  | some b => simp [State.recode, hb, recodeRound, relocate_elapsed, Effect.recode]

lemma trStartStep :
    trStartStep q (s.recode shift addr key) (relocate shift addr a) =
      (trStartStep p s a).recode shift addr key := by
  rw [Analysis.trStartStep, Analysis.trStartStep]
  cases hst : s.stack with
  | nil => simp [State.recode, hst]
  | cons top st =>
    have hrec : (s.recode shift addr key).stack = relocate shift addr top :: st.map (relocate shift addr) := by
      simp [State.recode, hst]
    simp only [hrec, h.addOneChild]
    change (if top.type == .trEndHwInt || top.type == .trEndCall then _
      else if top.type == .trEnd then _ else _) = _
    split_ifs <;> rfl

lemma callStep :
    callStep q (s.recode shift addr key) (relocate shift addr a) =
      (callStep p s a).map (State.recode shift addr key) := by
  rw [Analysis.callStep, Analysis.callStep, h.codeBlock, h.addCodeBlock]
  split_ifs
  · cases Analysis.addCodeBlock s a <;> rfl
  · rfl

lemma returnStep :
    returnStep q (s.recode shift addr key) (relocate shift addr a) =
      recodeRound shift addr key (returnStep p s a) := by
  have hclear : LatencyChild.clear = LatencyChild.clear.rekey key := LatencyChild.rekey_clear.symm
  rw [Analysis.returnStep, Analysis.returnStep]
  rcases hst : s.stack with _ | ⟨top, _ | ⟨next, stack⟩⟩
  · simp only [State.recode, hst, List.map_nil, recodeRound]
  · have hrec : (s.recode shift addr key).stack = [relocate shift addr top] := by simp [State.recode, hst]
    simp only [hrec, h.addOneChild]
    change (if a.fromTarget && top.toTarget then _
      else if top.fromTarget && a.type != .trEndReturn then _ else _) = _
    split_ifs
    · exact Prod.ext (congrArg (fun c => { s.recode shift addr key with
        child := c, schedInTarget := 0, stack := [] }) hclear) rfl
    · rfl
    · rfl
  · have hrec : (s.recode shift addr key).stack =
        relocate shift addr top :: relocate shift addr next :: stack.map (relocate shift addr) := by
      simp [State.recode, hst]
    simp only [hrec, h.addOneChild]
    change (if top.fromTarget && a.type != .trEndReturn then _ else _) = _
    split_ifs <;> rfl

lemma dispatch :
    dispatch q (s.recode shift addr key) (relocate shift addr a) =
      (dispatch p s a).map (recodeRound shift addr key) := by
  rw [Analysis.dispatch, Analysis.dispatch, h.trStartStep, h.callStep, h.returnStep,
    show (relocate shift addr a).type = a.type from rfl]
  cases a.type <;> first
    | rfl
    | (cases Analysis.callStep p s a <;> rfl)

lemma branchStep :
    branchStep q (s.recode shift addr key) (relocate shift addr a) =
      (branchStep p s a).map (recodeRound shift addr key) := by
  rw [Analysis.branchStep, Analysis.branchStep, h.codeBlock, h.addCodeBlock, rewriteJump_relocate]
  change (if a.type.isJump && a.fromTarget && a.toTarget then _
    else if a.type.isJump && !a.fromTarget && !a.toTarget then _ else _) = _
  split_ifs
  · cases Analysis.addCodeBlock s a <;> rfl
  · rfl
  · rfl
  · have hdis := h.dispatch { s with noHwIntFromHead := !leavesFromHead (rewriteJump a) } (rewriteJump a)
    rw [chainStep, chainStep, show leavesFromHead (relocate shift addr (rewriteJump a)) =
      leavesFromHead (rewriteJump a) from rfl]
    refine (congrArg (fun o => o >>= fun r : State × List Effect =>
      .ok ({ r.1 with cursor := some (relocate shift addr (rewriteJump a)) }, r.2)) hdis).trans ?_
    cases Analysis.dispatch p { s with noHwIntFromHead := !leavesFromHead (rewriteJump a) } (rewriteJump a) <;>
      rfl

lemma step :
    step q (s.recode shift addr key) (relocate shift addr a) (rest.map (relocate shift addr)) =
      (step p s a rest).map (recodeRound shift addr key) := by
  rw [Analysis.step, Analysis.step, h.errorStep, h.startStep, h.ancestorStep, schedEndStep, h.branchStep,
    h.ancestor, show (s.recode shift addr key).ancestorBegin.isNone = s.ancestorBegin.isNone from Option.isNone_map]
  change (if a.isError then _ else if entersTarget a && s.noHwIntFromHead then _
    else if p.ancestor != [] && (a.ancestorBegin || a.ancestorEnd || s.ancestorBegin.isNone) then _
    else if a.schedBegin then _ else if a.schedEnd then _ else _) = _
  split_ifs <;> rfl

end Recodes

end Steps

section Tallies

variable {p q : Param} {shift : UInt64} {addr : UInt64 → UInt64} {key : Str → Str}

lemma rekey_single (c : Str) (l : Latency) (child : Children) :
    TallyMap.rekeyHom key (LatencyCaller.rekey key) (.single c ⟨l, child⟩) =
      .single (key c) ⟨l, Children.rekey key child⟩ :=
  TallyMap.rekey_single key (LatencyCaller.rekey key) c ⟨l, child⟩

lemma rekey_ofTarget (lat : UInt64) (caller : Str) :
    Tally.rekey key (.ofTarget lat caller) = .ofTarget lat (key caller) := by
  apply Tally.ext
  · rfl
  · exact map_zero (Children.rekey key)
  · refine (rekey_single caller _ 0).trans ?_
    rw [map_zero]
    rfl
  · rfl

lemma rekey_ofSched (lat : UInt64) (caller : Str) :
    Tally.rekey key (.ofSched lat caller) = .ofSched lat (key caller) := by
  apply Tally.ext
  · rfl
  · exact map_zero (Children.rekey key)
  · refine (rekey_single caller _ 0).trans ?_
    rw [map_zero]
    rfl
  · rfl

lemma rekey_ofLatency (latT latS : UInt64) (caller : Str) :
    Tally.rekey key (.ofLatency latT latS caller) = .ofLatency latT latS (key caller) := by
  rw [Tally.ofLatency, Tally.ofLatency, map_add, rekey_ofTarget]
  split
  · rw [map_zero]
  · rw [rekey_ofSched]

lemma rekey_ofChildren (child : Children) (caller : Str) (gather : Bool) :
    Tally.rekey key (.ofChildren child caller gather) =
      .ofChildren (Children.rekey key child) (key caller) gather := by
  apply Tally.ext
  · rfl
  · cases gather
    · exact map_zero (Children.rekey key)
    · rfl
  · exact rekey_single caller 0 child
  · rfl

lemma rekey_ofUnknown {caller : Str} (h : key caller = unknownCaller ↔ caller = unknownCaller)
    (child : Children) :
    Tally.rekey key (.ofUnknown child caller) = .ofUnknown (Children.rekey key child) (key caller) := by
  have hne : (key caller != unknownCaller) = (caller != unknownCaller) := by
    rw [Bool.eq_iff_iff, bne_iff_ne, bne_iff_ne, Ne, h]
  rw [Tally.ofUnknown, Tally.ofUnknown, map_add, rekey_ofChildren, hne]
  apply congrArg (_ + ·)
  apply Tally.ext
  · rfl
  · exact map_zero (Children.rekey key)
  · exact map_zero (TallyMap.rekeyHom key (LatencyCaller.rekey key))
  · rfl

lemma ofCall_eq (call ret : Action) (latS : UInt64) (child : LatencyChild) :
    Tally.ofCall p.statOption call ret latS child =
      if counted p (ret.ts - call.ts) call.ts = true then
        if (ret.ts - call.ts).toNat < 2 ^ 63 ∧ latS.toNat < 2 ^ 63 then
          .ok (.ofLatency (ret.ts - call.ts) latS (FuncStat.callerKey p.statOption call ret) +
            .ofChildren (FuncStat.withSelf p.statOption (ret.ts - call.ts) latS child).toChildren
              (FuncStat.callerKey p.statOption call ret) true)
        else .error .slotLoop
      else .ok 0 := by
  have hcounted : (!FuncStat.inInterval p.statOption (ret.ts - call.ts) call.ts ||
      (p.statOption.timeline && decide (call.ts ≥ p.statOption.timeStart))) =
      !counted p (ret.ts - call.ts) call.ts := by
    rw [counted, Bool.not_and, Bool.not_not]
    rfl
  rw [Tally.ofCall, hcounted]
  cases counted p (ret.ts - call.ts) call.ts <;> rfl

/-- An unfinished call of a known caller is not taken for one of an unknown caller, or the other way
round. -/
def KeepsUnknown (key : Str → Str) : Effect → Prop
  | .addUnknownLatency _ caller => key caller = unknownCaller ↔ caller = unknownCaller
  | _ => True

namespace Recodes

variable (h : Recodes p q shift addr key)
include h

lemma withSelf (latT latS : UInt64) (child : LatencyChild) :
    FuncStat.withSelf q.statOption latT latS (child.rekey key) =
      (FuncStat.withSelf p.statOption latT latS child).rekey key := by
  rw [FuncStat.withSelf, FuncStat.withSelf, show q.statOption.codeBlock = p.statOption.codeBlock from h.codeBlock]
  split
  · rfl
  · simp only [LatencyChild.rekey_addSched, LatencyChild.rekey_addTarget, h.self]
    rfl

lemma tally {e : Effect} (he : KeepsUnknown key e) :
    (e.recode shift addr key).tally q.statOption = (e.tally p.statOption).map (Tally.rekey key) := by
  cases e with
  | add call ret latS child =>
    rw [Effect.recode, Effect.tally, Effect.tally, ofCall_eq, ofCall_eq, relocate_elapsed,
      show (relocate shift addr call).ts = call.ts + shift from rfl, h.counted, h.caller, h.withSelf]
    split_ifs
    · rw [Except.map, map_add, rekey_ofLatency, rekey_ofChildren]
      rfl
    · rfl
    · rw [Except.map, map_zero]
  | addUnknownLatency child caller => exact congrArg Except.ok (rekey_ofUnknown he child).symm
  | countSched =>
    refine congrArg Except.ok (Tally.ext rfl ?_ ?_ rfl)
    · exact (map_zero (Children.rekey key)).symm
    · exact (map_zero (TallyMap.rekeyHom key (LatencyCaller.rekey key))).symm
  | addMiss | countAncestorBegin | countAncestorEnd => exact congrArg Except.ok (map_zero (Tally.rekey key)).symm

lemma totalTally {es : List Effect} (hes : ∀ e ∈ es, KeepsUnknown key e) :
    totalTally q.statOption (es.map (Effect.recode shift addr key)) =
      (totalTally p.statOption es).map (Tally.rekey key) := by
  induction es with
  | nil => exact congrArg Except.ok (map_zero (Tally.rekey key)).symm
  | cons e es ih =>
    rw [List.forall_mem_cons] at hes
    rw [List.map_cons, Analysis.totalTally, Analysis.totalTally, h.tally hes.1, ih hes.2]
    cases e.tally p.statOption with
    | error f => rfl
    | ok t =>
      cases Analysis.totalTally p.statOption es with
      | error f => rfl
      | ok u => exact congrArg Except.ok (map_add (Tally.rekey key) t u).symm

end Recodes

end Tallies

section Runs

variable {p q : Param} {shift : UInt64} {addr : UInt64 → UInt64} {key : Str → Str} {s s' : State}
  {a : Action} {es : List Effect}

/-- The caller of the call that this action starts is known under both keys or under none. -/
def StartKept (p : Param) (key : Str → Str) (a : Action) : Prop :=
  key (startCaller p a) = unknownCaller ↔ startCaller p a = unknownCaller

namespace Recodes

lemma keepsUnknown_noCaller (h : Recodes p q shift addr key) (child : Children) :
    KeepsUnknown key (.addUnknownLatency child unknownCaller) :=
  iff_of_true h.noCaller rfl

lemma keepsUnknown_startStep (h : Recodes p q shift addr key)
    (hs : ∀ b ∈ s.targetBegin, StartKept p key b) : ∀ e ∈ (Analysis.startStep p s a).2, KeepsUnknown key e := by
  intro e he
  rcases List.mem_append.mp he with he | he
  · split at he
    · exact absurd he List.not_mem_nil
    · rw [List.mem_singleton.mp he, Analysis.unfinishedCaller]
      split
      · rename_i start _ hstart
        exact hs start hstart
      · exact h.keepsUnknown_noCaller _
  · rw [Analysis.missed] at he
    split at he
    · rw [List.mem_singleton.mp he]
      exact trivial
    · exact absurd he List.not_mem_nil

lemma keepsUnknown (h : Recodes p q shift addr key) (hs : ∀ b ∈ s.targetBegin, StartKept p key b)
    (hm : Move p s a s' es) : ∀ e ∈ es, KeepsUnknown key e := by
  intro e he
  cases hm.recordMove with
  | record _ _ _ _ _ hes =>
    rw [hes] at he
    exact absurd he List.not_mem_nil
  | wake _ _ _ _ _ _ hes =>
    rw [hes] at he
    rw [List.mem_singleton.mp he]
    exact trivial
  | keep _ _ _ _ _ _ _ hes =>
    have hcounts := hes e he
    cases e <;> first | exact trivial | cases hcounts
  | error _ _ hes =>
    rw [hes] at he
    rw [List.mem_singleton.mp he]
    exact h.keepsUnknown_noCaller _
  | start _ _ hes =>
    rw [hes] at he
    exact h.keepsUnknown_startStep hs e he
  | finish _ _ _ _ _ hes =>
    rw [hes] at he
    rw [List.mem_singleton.mp he]
    exact trivial

lemma startKept (hs : ∀ b ∈ s.targetBegin, StartKept p key b) (ha : StartKept p key a)
    (hm : Move p s a s' es) : ∀ b ∈ s'.targetBegin, StartKept p key b := by
  rcases hm.target with ⟨-, -, hbegin, -⟩ | ⟨-, hbegin, -⟩
  · rw [hbegin]
    rintro b ⟨rfl⟩
    exact ha
  · rw [hbegin]
    exact hs

lemma leftover (h : Recodes p q shift addr key) (s : State) :
    leftover (s.recode shift addr key) = (leftover s).map (Effect.recode shift addr key) := by
  have hempty : (s.recode shift addr key).child.empty = s.child.empty := LatencyChild.rekey_empty s.child
  rw [Analysis.leftover, Analysis.leftover, hempty]
  split
  · rfl
  · rw [List.map_singleton, Effect.recode, h.noCaller]
    rfl

lemma tallyFrom (h : Recodes p q shift addr key) {xs : List Action} (hxs : ∀ a ∈ xs, StartKept p key a)
    (hs : ∀ b ∈ s.targetBegin, StartKept p key b) :
    tallyFrom q (s.recode shift addr key) (xs.map (relocate shift addr)) =
      (tallyFrom p s xs).map (Tally.rekey key) := by
  induction xs generalizing s with
  | nil =>
    rw [List.map_nil, Analysis.tallyFrom, Analysis.tallyFrom, h.leftover, h.totalTally]
    intro e he
    rw [Analysis.leftover] at he
    split at he
    · exact absurd he List.not_mem_nil
    · rw [List.mem_singleton.mp he]
      exact h.keepsUnknown_noCaller _
  | cons a rest ih =>
    rw [List.forall_mem_cons] at hxs
    rw [List.map_cons, Analysis.tallyFrom, Analysis.tallyFrom, h.step]
    cases hstep : Analysis.step p s a rest with
    | error f => rfl
    | ok r =>
      have hm := move_of_step hstep
      have hes := h.totalTally (h.keepsUnknown hs hm)
      have hrest := ih hxs.2 (startKept hs hxs.1 hm)
      simp only [Except.map, Runs.ok_bind, recodeRound] at hes hrest ⊢
      rw [hes, hrest]
      cases Analysis.totalTally p.statOption r.2 with
      | error f => rfl
      | ok t =>
        cases Analysis.tallyFrom p r.1 rest with
        | error f => rfl
        | ok u => exact congrArg Except.ok (map_add (Tally.rekey key) t u).symm

lemma doAnalyze (h : Recodes p q shift addr key) {xs : List Action} (hxs : ∀ a ∈ xs, StartKept p key a) :
    (doAnalyze q (xs.map (relocate shift addr))).map FuncStat.toTally =
      (doAnalyze p xs).map fun stat => Tally.rekey key stat.toTally := by
  have hinit : State.init.recode shift addr key = State.init :=
    congrArg (fun c => { State.init with child := c }) LatencyChild.rekey_clear
  have hrun := h.tallyFrom hxs (s := State.init) (fun b hb => by cases hb)
  rw [hinit, ← doAnalyze_toTally, ← doAnalyze_toTally] at hrun
  rw [hrun]
  cases Analysis.doAnalyze p xs <;> rfl

end Recodes

end Runs

section Relocation

variable {p : Param}

lemma recodes_relocate (hline : p.callLine = false) (htime : p.timeInterval = (0, uint64Max))
    (htimeline : p.timeline = false) (shift : UInt64) (addr : UInt64 → UInt64) :
    Recodes p p shift addr id where
  ancestor := rfl
  ancestorLatency := rfl
  codeBlock := rfl
  counted lat ts := by
    have hall : ∀ t : UInt64, ¬ t < 0 ∧ ¬ t > uint64Max := by
      intro t
      refine ⟨UInt64.not_lt_zero, ?_⟩
      rw [gt_iff_lt, UInt64.not_lt, UInt64.le_iff_toNat_le]
      exact Nat.le_of_lt_succ t.toNat_lt
    simp only [counted, FuncStat.inInterval, htimeline, Param.statOption, htime, hall, decide_false, Bool.false_and]
  child a unknown gather := by
    simp only [childName, hline]
    rfl
  block _ _ := rfl
  self := rfl
  caller a b := by
    simp only [FuncStat.callerKey, Param.statOption, hline]
    rfl
  start a := by
    simp only [startCaller, hline]
    rfl
  noCaller := rfl

/-- Without call lines and without an interval of time, the statistics do not depend on where the program
was loaded and when it was traced. -/
theorem relocated_statistics (hline : p.callLine = false) (htime : p.timeInterval = (0, uint64Max))
    (htimeline : p.timeline = false) (shift : UInt64) (addr : UInt64 → UInt64) (actions : List Action) :
    (doAnalyze p (actions.map (relocate shift addr))).map FuncStat.toTally =
      (doAnalyze p actions).map FuncStat.toTally := by
  rw [(recodes_relocate hline htime htimeline shift addr).doAnalyze fun a _ => Iff.rfl]
  simp only [Tally.rekey_id]

open Sample in
theorem relocated_statistics_shortCall :
    (doAnalyze { param with callLine := false }
        (shortCall.actions.map (relocate 1000 (· + 0x400000)))).map FuncStat.toTally =
      (doAnalyze { param with callLine := false } shortCall.actions).map FuncStat.toTally :=
  relocated_statistics rfl rfl rfl 1000 (· + 0x400000) shortCall.actions

end Relocation

section CallLine

variable {p : Param}

lemma relocate_zero (a : Action) : relocate 0 id a = a := by
  simp only [relocate, add_zero, id]

lemma getName_keyText {unfinished : Bool} {name : Str} {mark : Mark}
    (h : mark = .none → '!'.toUInt8 ∉ name) :
    funcnameGetName (keyText unfinished name mark) = keyText unfinished name .none := by
  cases unfinished with
  | false =>
    rw [keyText_false, keyText_false, funcnameGetName_mark_iff.mpr h]
    exact (List.append_nil name).symm
  | true =>
    have hmark : mark = .none → '!'.toUInt8 ∉ unknownLatencyStr ++ name := by
      intro hnone hmem
      rcases List.mem_append.mp hmem with hmem | hmem
      · exact absurd hmem (by decide)
      · exact h hnone hmem
    rw [keyText_true, keyText_true, ← List.append_assoc, funcnameGetName_mark_iff.mpr hmark,
      show Mark.none.text = [] from rfl, List.append_nil]

lemma getName_key {e : Entry} (h : e.mark { p with callLine := true } = .none → '!'.toUInt8 ∉ e.name) :
    funcnameGetName (e.key { p with callLine := true }) = e.key { p with callLine := false } := by
  rw [Entry.key_eq_keyText, Entry.key_eq_keyText, getName_keyText h, Entry.mark_of_callLine rfl]

lemma recodes_callLine (htarget : '!'.toUInt8 ∉ p.target) (hancestor : '!'.toUInt8 ∉ p.ancestor)
    (hip : p.ipFiltering = false) :
    Recodes { p with callLine := true } { p with callLine := false } 0 id funcnameGetName where
  ancestor := rfl
  ancestorLatency := rfl
  codeBlock := rfl
  counted lat ts := by
    rw [add_zero]
    rfl
  child a unknown gather := by
    -- the target and the ancestor have no mark
    have hmark : (Entry.child a unknown gather).mark { p with callLine := true } = .none →
        '!'.toUInt8 ∉ a.toSym.name := by
      intro hnone
      simp only [Entry.mark, if_true] at hnone
      split_ifs at hnone with _ hother
      rw [Bool.and_eq_true, bne_iff_ne, bne_iff_ne] at hother
      by_cases hname : a.toSym.name = p.target
      · rw [hname]
        exact htarget
      · have hname' : a.toSym.name = p.ancestor := by
          by_contra hne
          exact hother ⟨hname, hne⟩
        rw [hname']
        exact hancestor
    rw [relocate_zero]
    exact (getName_key hmark).symm
  block a b := funcnameGetName_plain (Entry.not_mem_codeBlockName (by decide) (by decide) (by decide) a b)
  self := by decide
  caller a b := by
    rw [relocate_zero, relocate_zero]
    exact (getName_key (e := .caller a b) fun hnone => by cases hnone).symm
  start a := by
    rw [relocate_zero]
    refine (getName_key (e := .startCaller a) fun hnone => ?_).symm
    simp [Entry.mark, hip] at hnone
  noCaller := by decide

/-- What is kept under the call lines of a function adds up to what is kept under the function when there
are no call lines. -/
theorem call_lines_add_up (htarget : '!'.toUInt8 ∉ p.target) (hancestor : '!'.toUInt8 ∉ p.ancestor)
    (hip : p.ipFiltering = false) {actions : List Action}
    (hnames : ∀ a ∈ actions, a.fromSym.name ≠ unknownCaller) :
    (doAnalyze { p with callLine := false } actions).map FuncStat.toTally =
      (doAnalyze { p with callLine := true } actions).map fun stat =>
        Tally.rekey funcnameGetName stat.toTally := by
  have hrec := recodes_callLine htarget hancestor hip
  have hxs : ∀ a ∈ actions, StartKept { p with callLine := true } funcnameGetName a := by
    intro a ha
    have hstart := hrec.start a
    rw [relocate_zero] at hstart
    apply iff_of_false
    · rw [← hstart]
      exact hnames a ha
    · -- an address follows the name
      intro hcaller
      have hmem : '!'.toUInt8 ∈ startCaller { p with callLine := true } a := by
        simp [startCaller, hip, funcnameAddAddr_eq, Mark.text]
      rw [hcaller] at hmem
      exact absurd hmem (by decide)
  have hrun := hrec.doAnalyze hxs
  rw [List.map_congr_left fun a _ => relocate_zero a, List.map_id'] at hrun
  exact hrun

open Sample in
theorem call_lines_add_up_shortCall :
    (doAnalyze { param with callLine := false } (shortCall.actions ++ shortCall.actions)).map FuncStat.toTally =
      (doAnalyze { param with callLine := true } (shortCall.actions ++ shortCall.actions)).map fun stat =>
        Tally.rekey funcnameGetName stat.toTally :=
  call_lines_add_up (by decide) (by decide) rfl (by decide)

end CallLine

end PtPerf.Analysis
