import PtPerf.Trace.Action
import PtPerf.Stats.FuncStat

/-! The parameters of `func_latency` and the relevance filter of `ParseJob::decode_to_actions`. -/

namespace PtPerf.Trace

open PtPerf.Stats

structure Param where
  target : Str
  ancestor : Str
  ancestorLatency : UInt64 × UInt64
  offcpu : Bool
  callLine : Bool
  codeBlock : Bool
  ipFiltering : Bool
  unfoldGatheredLine : Bool
  latencyInterval : UInt64 × UInt64
  timeInterval : UInt64 × UInt64
  timeline : Bool
  timelineUnit : UInt32
  timeStart : UInt64

def uint64Max : UInt64 := 0xFFFFFFFFFFFFFFFF

namespace Param

def default (target : Str) : Param where
  target := target
  ancestor := []
  ancestorLatency := (0, uint64Max)
  offcpu := false
  callLine := true
  codeBlock := false
  ipFiltering := false
  unfoldGatheredLine := false
  latencyInterval := (0, uint64Max)
  timeInterval := (0, uint64Max)
  timeline := false
  timelineUnit := 1
  timeStart := uint64Max

/-- `stat_opt` of `analyze_funcs`. -/
def statOption (p : Param) : StatOption where
  callLine := p.callLine
  codeBlock := p.codeBlock
  latencyInterval := p.latencyInterval
  timeInterval := p.timeInterval
  timeline := p.timeline
  timeStart := p.timeStart
  timelineUnit := p.timelineUnit
  ipFiltering := p.ipFiltering

def withCodeBlock (p : Param) (on : Bool) : Param := { p with codeBlock := on }

def withAncestorLatency (p : Param) (range : UInt64 × UInt64) : Param :=
  { p with ancestorLatency := range }

end Param

/-- The marks that `init_action` puts on a branch. -/
def markAction (p : Param) (a : Action) : Action :=
  let a := { a with
    fromTarget := a.fromSym.name == p.target
    toTarget := a.toSym.name == p.target
    schedBegin := false
    schedEnd := false }
  let a := if p.offcpu then a.initForSched else a
  let a := { a with ancestorBegin := false, ancestorEnd := false }
  if p.ancestor != [] then a.initForAncestor p.ancestor else a

/-- A branch of the script file with the marks of `p`. -/
def branchOf (p : Param) (type : BranchType) (ts : UInt64) (src dst : Symbol) : Action :=
  markAction p
    { ptType := ptActionTypeBranch, type := type, fromTarget := false, toTarget := false,
      schedBegin := false, schedEnd := false, ancestorBegin := false, ancestorEnd := false,
      isError := false, tid := 1, ts := ts, fromSym := src, toSym := dst }

/-- `init_action`: the action added to the thread's action set, if any. -/
def initAction (p : Param) (a : Action) : Option Action :=
  if a.ptType != ptActionTypeBranch && a.ptType != ptActionTypeError then none
  else if a.isError then some a
  else
    let a := markAction p a
    if !a.fromTarget && !a.toTarget && !a.schedBegin && !a.schedEnd &&
        !a.ancestorBegin && !a.ancestorEnd then none
    else if !p.codeBlock && a.fromTarget && a.toTarget then none
    else some a

/-- The actions that `ParseJob::decode_to_actions` keeps of the ones it reads. -/
def decodeToActions (p : Param) (read : List Action) : List Action := read.filterMap (initAction p)

namespace Action

/-- The conditions of `init_for_sched` and `init_for_ancestor`. -/
def callsSched (a : Action) : Bool :=
  (a.toSym.name == sysSchedFuncname || a.toSym.name == sysSchedFuncname419) && a.toSym.offset == 0 &&
    (a.type == .call || a.type == .trStart)

def returnsFromSched (a : Action) : Bool :=
  (a.fromSym.name == sysSchedFuncname || a.fromSym.name == sysSchedFuncname419) &&
    (a.type == .ret || a.type == .trEndReturn)

def callsFunction (name : Str) (a : Action) : Bool :=
  a.toSym.name == name && a.toSym.offset == 0 && (a.type == .call || a.type == .trStart)

def returnsFromFunction (name : Str) (a : Action) : Bool :=
  a.fromSym.name == name && (a.type == .ret || a.type == .trEndReturn)

lemma initForSched_eq (a : Action) : a.initForSched =
    { a with schedBegin := a.callsSched || a.schedBegin
             schedEnd := (!a.callsSched && a.returnsFromSched) || a.schedEnd } := by
  rw [initForSched]
  change (if a.callsSched = true then _ else if a.returnsFromSched = true then _ else a) = _
  cases a.callsSched
  · cases a.returnsFromSched <;> rfl
  · rfl

lemma initForAncestor_eq (name : Str) (a : Action) : a.initForAncestor name =
    { a with ancestorBegin := a.callsFunction name || a.ancestorBegin
             ancestorEnd := (!a.callsFunction name && a.returnsFromFunction name) || a.ancestorEnd } := by
  rw [initForAncestor]
  change (if a.callsFunction name = true then _ else if a.returnsFromFunction name = true then _ else a) = _
  cases a.callsFunction name
  · cases a.returnsFromFunction name <;> rfl
  · rfl

end Action

lemma markAction_eq (p : Param) (a : Action) : markAction p a = { a with
    fromTarget := a.fromSym.name == p.target
    toTarget := a.toSym.name == p.target
    schedBegin := p.offcpu && a.callsSched
    schedEnd := p.offcpu && !a.callsSched && a.returnsFromSched
    ancestorBegin := p.ancestor != [] && a.callsFunction p.ancestor
    ancestorEnd := p.ancestor != [] && !a.callsFunction p.ancestor && a.returnsFromFunction p.ancestor } := by
  simp only [markAction, Action.initForSched_eq, Action.initForAncestor_eq]
  cases p.offcpu <;> cases p.ancestor != [] <;>
    simp [Action.callsSched, Action.returnsFromSched, Action.callsFunction, Action.returnsFromFunction]

section Marks

variable {p : Param} {a : Action}

lemma markAction_isError (a : Action) : (markAction p a).isError = a.isError := by
  rw [markAction_eq]

end Marks

end PtPerf.Trace
