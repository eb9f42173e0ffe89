import PtPerf.Support.Runs
import PtPerf.Stats.Contribution
import PtPerf.Trace.Decode

/-! `ThreadJob::do_analyze` as a state machine over the actions of one thread. The stack is
kept top first. What a round does to the thread's `FuncStat` and to the global status is
its list of effects. -/

namespace PtPerf.Analysis

open PtPerf.Support PtPerf.Trace PtPerf.Stats

structure State where
  stack : List Action
  child : LatencyChild
  schedInTarget : UInt64
  schedInChild : UInt64
  schedBegin : Option Action
  targetBegin : Option Action
  prevTargetError : Bool
  ancestorBegin : Option Action
  cursor : Option Action
  wrongChain : Bool
  noHwIntFromHead : Bool

inductive Effect
  | add (call ret : Action) (latS : UInt64) (child : LatencyChild)
  | addUnknownLatency (child : Children) (caller : Str)
  | countSched
  | addMiss (ns : UInt64)
  | countAncestorBegin
  | countAncestorEnd

abbrev Outcome := Except Fault (State × List Effect)

namespace State

def init : State where
  stack := []
  child := .clear
  schedInTarget := 0
  schedInChild := 0
  schedBegin := none
  targetBegin := none
  prevTargetError := false
  ancestorBegin := none
  cursor := none
  wrongChain := true
  noHwIntFromHead := true

def clearContext (s : State) : State :=
  { s with stack := [], child := .clear, schedInChild := 0, schedInTarget := 0,
           schedBegin := none, ancestorBegin := none }

end State

/-- The key of a child, as `add_one_child` builds it. -/
def childName (p : Param) (call : Action) (unknown gather : Bool) : Str :=
  let name := call.toSym.name
  let name :=
    if p.callLine then
      if gather && !p.unfoldGatheredLine then funcnameAddStringMark name gatherCallLine
      else if name != p.target && name != p.ancestor then funcnameAddAddr name call.fromSym.addr
      else name
    else name
  if unknown then unknownLatencyStr ++ name else name

def addOneChild (p : Param) (s : State) (a₁ a₂ : Action) (unknown gather : Bool) : State :=
  let name := childName p a₁ unknown gather
  let latT := if unknown then 0 else a₂.ts - a₁.ts
  let latS := if unknown then 0 else s.schedInChild
  { s with child := (s.child.addTarget name latT).addSched name latS, schedInChild := 0 }

def codeBlockName (a₁ a₂ : Action) : Str :=
  codeBlockPrefix ++ decimal a₁.toSym.offset.toNat ++ lit "-" ++ decimal a₂.fromSym.offset.toNat

/-- `add_code_block(cursor, &action)`. -/
def addCodeBlock (s : State) (a₂ : Action) : Except Fault State :=
  match s.cursor with
  | none => .error .nullCursor
  | some a₁ =>
    if a₂.fromSym.offset == a₁.toSym.offset then .ok s
    else
      let name := codeBlockName a₁ a₂
      let latT := a₂.ts - a₁.ts
      let latS := s.schedInChild
      if latT < latS then .error .schedExceedsLatency
      else .ok { s with child := (s.child.addTarget name latT).addSched name latS,
                        schedInChild := 0, cursor := some a₂ }

def errorStep (s : State) : State × List Effect :=
  ({ s.clearContext with prevTargetError := true },
    [.addUnknownLatency s.child.toChildren unknownCaller])

/-- The caller of an unfinished call, taken from the action that started it. -/
def startCaller (p : Param) (start : Action) : Str :=
  if p.callLine && !p.ipFiltering then funcnameAddAddr start.fromSym.name start.fromSym.addr
  else start.fromSym.name

/-- What the previous round leaves behind when a new target call begins. -/
def unfinished (p : Param) (s : State) (a : Action) : LatencyChild :=
  match s.stack, s.targetBegin with
  | [top, _], some _ => (addOneChild p s top a true false).child
  | _, _ => s.child

def unfinishedCaller (p : Param) (s : State) : Str :=
  match s.wrongChain, s.targetBegin with
  | false, some start => startCaller p start
  | _, _ => unknownCaller

def missed (s : State) (a : Action) : List Effect :=
  match s.prevTargetError, s.targetBegin with
  | true, some start => [.addMiss (a.ts - start.ts)]
  | _, _ => []

def startStep (p : Param) (s : State) (a : Action) : State × List Effect :=
  let child := unfinished p s a
  let flush : List Effect :=
    if child.empty then [] else [.addUnknownLatency child.toChildren (unfinishedCaller p s)]
  ({ s with
      stack := [a]
      child := .clear
      schedInTarget := 0
      schedInChild := 0
      schedBegin := none
      prevTargetError := false
      targetBegin := some a
      wrongChain := false
      cursor := some a },
    flush ++ missed s a)

def withinAncestorLatency (p : Param) (a : Action) (rest : List Action) : Bool :=
  if p.ancestorLatency.1 != 0 || p.ancestorLatency.2 != uint64Max then
    match (a :: rest).find? (·.ancestorEnd) with
    | some e =>
      let al := e.ts - a.ts
      !(al < p.ancestorLatency.1 || al > p.ancestorLatency.2)
    | none => false
  else true

def ancestorStep (p : Param) (s : State) (a : Action) (rest : List Action) : State × List Effect :=
  if a.ancestorBegin then
    ({ s with ancestorBegin := if withinAncestorLatency p a rest then some a else none },
      [.countAncestorBegin])
  else if a.ancestorEnd then ({ s with ancestorBegin := none }, [.countAncestorEnd])
  else (s, [])

def schedEndStep (s : State) (a : Action) : State × List Effect :=
  match s.schedBegin with
  | some b =>
    let schedTime : UInt32 := (a.ts - b.ts).toUInt32
    ({ s with
        schedInTarget := s.schedInTarget + schedTime.toUInt64
        schedInChild := s.schedInChild + schedTime.toUInt64
        schedBegin := none },
      [.countSched])
  | none => (s, [])

def trStartStep (p : Param) (s : State) (a : Action) : State :=
  match s.stack with
  | top :: stack =>
    if top.type == .trEndHwInt || top.type == .trEndCall then
      { addOneChild p s top a false false with stack := stack, schedInChild := 0 }
    else if top.type == .trEnd then { s with stack := stack, schedInChild := 0 }
    else { s with stack := [], wrongChain := true, schedInChild := 0 }
  | [] => { s with stack := [], wrongChain := true, schedInChild := 0 }

def callStep (p : Param) (s : State) (a : Action) : Except Fault State := do
  let s ← if p.codeBlock then addCodeBlock s a else .ok s
  return { s with stack := a :: s.stack, schedBegin := none, schedInChild := 0 }

def returnStep (p : Param) (s : State) (a : Action) : State × List Effect :=
  match s.stack with
  | [start] =>
    if a.fromTarget && start.toTarget then
      ({ s with child := .clear, schedInTarget := 0, stack := [] },
        [.add start a s.schedInTarget s.child])
    else if start.fromTarget && a.type != .trEndReturn then
      ({ addOneChild p s start a false (a.type == .iret) with stack := [] }, [])
    else ({ s with stack := [], wrongChain := true, schedInTarget := 0, schedInChild := 0 }, [])
  | top :: stack =>
    if top.fromTarget && a.type != .trEndReturn then
      ({ addOneChild p s top a false (a.type == .iret) with stack := stack }, [])
    else ({ s with stack := [], wrongChain := true, schedInTarget := 0, schedInChild := 0 }, [])
  | [] => ({ s with stack := [], wrongChain := true, schedInTarget := 0, schedInChild := 0 }, [])

/-- The switch over `action.type`. -/
def dispatch (p : Param) (s : State) (a : Action) : Outcome :=
  match a.type with
  | .trStart => .ok (trStartStep p s a, [])
  | .hwInt | .trEndHwInt | .call | .trEndSyscall | .trEndCall => do
    let s ← callStep p s a
    return (s, [])
  | .trEnd => .ok ({ s with stack := a :: s.stack }, [])
  | .iret | .ret | .trEndReturn => .ok (returnStep p s a)
  | _ => .ok (s, [])

def leavesFromHead (a : Action) : Bool :=
  a.type == .hwInt && a.fromTarget && a.fromSym.offset == 0

def chainStep (p : Param) (s : State) (a : Action) : Outcome := do
  let r ← dispatch p { s with noHwIntFromHead := !leavesFromHead a } a
  return ({ r.1 with cursor := some a }, r.2)

/-- A jump between functions counts as a call or as a return. -/
def rewriteJump (a : Action) : Action :=
  if a.type.isJump then
    if a.fromTarget && a.toSym.offset == 0 then { a with type := .call } else { a with type := .ret }
  else a

def branchStep (p : Param) (s : State) (a : Action) : Outcome :=
  if a.type.isJump && a.fromTarget && a.toTarget then
    if p.codeBlock then do
      let s ← addCodeBlock s a
      return (s, [])
    else .error .internalJump
  else if a.type.isJump && !a.fromTarget && !a.toTarget then .error .jumpOutsideTarget
  else chainStep p s (rewriteJump a)

def entersTarget (a : Action) : Bool := a.toSym.offset == 0 && a.toTarget

def step (p : Param) (s : State) (a : Action) (rest : List Action) : Outcome :=
  if a.isError then .ok (errorStep s)
  else if entersTarget a && s.noHwIntFromHead then .ok (startStep p s a)
  else if p.ancestor != [] && (a.ancestorBegin || a.ancestorEnd || s.ancestorBegin.isNone) then
    .ok (ancestorStep p s a rest)
  else if a.schedBegin then .ok ({ s with schedBegin := some a }, [])
  else if a.schedEnd then .ok (schedEndStep s a)
  else branchStep p s a

def perform (opt : StatOption) (stat : FuncStat) : Effect → Except Fault FuncStat
  | .add call ret latS child => stat.add opt call ret latS child
  | .addUnknownLatency child caller => .ok (stat.addUnknownLatency child caller)
  | .countSched => .ok { stat with schedCount := stat.schedCount + 1 }
  | .addMiss _ | .countAncestorBegin | .countAncestorEnd => .ok stat

/-- The incomplete call chains left at the end of the list. -/
def leftover (s : State) : List Effect :=
  if s.child.empty then [] else [.addUnknownLatency s.child.toChildren unknownCaller]

def doAnalyze (p : Param) (actions : List Action) : Except Fault FuncStat := do
  let r ← Runs.loop (Runs.feeding (step p) (perform p.statOption)) (State.init, FuncStat.new) actions
  (leftover r.1).foldlM (perform p.statOption) r.2

end PtPerf.Analysis
