import PtPerf.Script.Parse
import PtPerf.Support.Merge
import PtPerf.Trace.Decode

/-! The parse jobs of the text path: the division of the script file into ranges of lines, the
actions each job collects for each thread, and their merge in `ThreadJob::extract_actions`. The
file is the list of its lines as `getline` delivers them. -/

namespace PtPerf.Script

open PtPerf.Support PtPerf.Support.Text PtPerf.Trace

inductive JobFault
  | parse (f : Failure)
  | outOfOrder
  | totalActions
  deriving DecidableEq, Repr

/-- Timestamps are compared as unsigned numbers. -/
def timeOf (a : Action) : ℕ := a.ts.toNat

/-- The actions of each thread, in the order in which they were added. -/
abbrev ActionSets := Int32 → List Action

def ActionSets.addAction (outOfOrder : Bool) (sets : ActionSets) (a : Action) :
    Except JobFault ActionSets :=
  if outOfOrder || (sets a.tid).getLast?.all (fun b => timeOf b ≤ timeOf a) || a.isError then
    .ok (Function.update sets a.tid (sets a.tid ++ [a]))
  else .error .outOfOrder

structure ParseJob where
  first : UInt32
  last : UInt32
  deriving DecidableEq, Repr

structure Parsed where
  symbols : SymbolMap
  parsedActions : ActionSets
  errorActions : ActionSets

namespace Parsed

def init : Parsed where
  symbols := 0
  parsedActions := fun _ => []
  errorActions := fun _ => []

/-- `init_action` of `decode_to_actions`. -/
def add (p : Param) (outOfOrder : Bool) (s : Parsed) (a : Action) : Except JobFault Parsed :=
  match initAction p a with
  | none => .ok s
  | some a =>
    if a.isError then
      (s.errorActions.addAction outOfOrder a).map fun sets => { s with errorActions := sets }
    else
      (s.parsedActions.addAction outOfOrder a).map fun sets => { s with parsedActions := sets }

/-- One line, read into a variable that still holds `old`. -/
def readLine (p : Param) (outOfOrder : Bool) (old : Action) (s : Parsed) (line : Str) :
    Except JobFault Parsed :=
  match createActionFromString old s.symbols line with
  | .error f => .error (.parse f)
  | .ok (none, symbols) => .ok { s with symbols := symbols }
  | .ok (some a, symbols) => add p outOfOrder { s with symbols := symbols } a

def sortActions (outOfOrder : Bool) (s : Parsed) : Parsed where
  symbols := s.symbols
  parsedActions tid :=
    if outOfOrder then Merge.sort timeOf (s.parsedActions tid) else s.parsedActions tid
  errorActions tid := Merge.sort timeOf (s.errorActions tid)

end Parsed

section

variable (p : Param) (outOfOrder : Bool)

/-- The loop over the lines from number `lnum` on; `old` is what the action of each round holds
before it is set. -/
def readActionsFromTextFile (old : ℕ → Action) (job : ParseJob) :
    ℕ → List Str → Parsed → Except JobFault Parsed
  | _, [], s => .ok s
  | lnum, line :: lines, s =>
    if lnum < job.first.toNat || lnum ≥ job.last.toNat then
      readActionsFromTextFile old job (lnum + 1) lines s
    else do
      let s ← s.readLine p outOfOrder (old lnum) line
      readActionsFromTextFile old job (lnum + 1) lines s

def ParseJob.exec (old : ℕ → Action) (lines : List Str) (job : ParseJob) : Except JobFault Parsed := do
  let s ← readActionsFromTextFile p outOfOrder old job 0 lines .init
  return s.sortActions outOfOrder

end

def assignParseJobs (workerNum total : UInt64) : List ParseJob :=
  if total > 100 * workerNum then
    let step := total / workerNum + 1
    (List.range workerNum.toNat).map fun i =>
      ⟨(UInt64.ofNat i * step).toUInt32, (min ((UInt64.ofNat i + 1) * step) total).toUInt32⟩
  else [⟨0, 0xFFFFFFFF⟩]

/-- The queues in the order of their pointers: for each job its actions, then its errors. -/
def queuesOf (tid : Int32) (jobs : List Parsed) : List (List Action) :=
  jobs.flatMap fun job => [job.parsedActions tid, job.errorActions tid]

def extractActions (jobs : List Parsed) (tid : Int32) : Except JobFault (List Action) :=
  let queues := queuesOf tid jobs
  let totalActions := UInt32.ofNat (queues.map List.length).sum
  let actions := Merge.merge timeOf uint64Max.toNat queues.flatten.length queues
  if actions.length = totalActions.toNat then .ok actions else .error .totalActions

def threadActions (p : Param) (outOfOrder : Bool) (old : ℕ → Action) (lines : List Str)
    (workerNum : UInt64) (tid : Int32) : Except JobFault (List Action) := do
  let jobs ← (assignParseJobs workerNum (UInt64.ofNat lines.length)).mapM
    (ParseJob.exec p outOfOrder old lines)
  extractActions jobs tid

end PtPerf.Script
