import PtPerf.Script.Print
import PtPerf.Support.Tally

/-! `create_action_from_string`: the action of a line of the text script. -/

namespace PtPerf.Script

open PtPerf.Support PtPerf.Support.Text PtPerf.Trace PtPerf.Compact

/-- The symbols of a `SymbolMgr` by their addresses. -/
abbrev SymbolMap := TallyMap UInt64 Symbol

def SymbolMap.create (symbols : SymbolMap) (addr : UInt64) (offset : UInt32) (name : Str) :
    SymbolMap × Symbol :=
  match symbols.lookup addr with
  | some sym => (symbols, sym)
  | none => (symbols.set addr ⟨name, addr, offset⟩, ⟨name, addr, offset⟩)

def getSymbolFromString (symbols : SymbolMap) (str : Str) : Except Failure (SymbolMap × Symbol) :=
  if find unknownSymbol str (some 0) ≠ none then return symbols.create 0 0 unknownSymbol
  else do
    let stop := findFirstOf ' '.toUInt8 str (some 0)
    let addr ← stoull 16 (← cut str (some 0) stop)
    let start := after stop 1
    let plus := findLastOf '+'.toUInt8 str
    let name ← cut str (some start) plus
    let stop := (findFirstOf ' '.toUInt8 str plus).getD (str.length - 1)
    -- without a plus sign the count wraps around to one past the end
    let count := match plus with
      | some p => stop - p + 1
      | none => stop + 2
    let offset ← stol 16 (← substr str (after plus 1) count)
    return symbols.create addr (UInt32.ofInt offset) name

def actionTypeStrs : List Str :=
  [lit "call", lit "return", lit "jcc", lit "jmp", lit "tr strt", lit "tr end  call",
    lit "tr end  return", lit "tr end  hw int", lit "tr end  syscall", lit "tr end", lit "int",
    lit "iret", lit "syscall", lit "sysret", lit "async", lit "hw int", lit "tx abrt",
    lit "vmentry", lit "vmexit"]

/-- The first type that the text starts with, and the position after it. -/
def matchType (line : Str) (start : Option ℕ) : Except Failure (BranchType × ℕ) :=
  match start with
  | none => .error .outOfRange
  | some p =>
    match actionTypeStrs.findIdx? fun t => (line.drop p).take t.length == t with
    | none => .error .abort
    | some i => .ok (.ofCode (UInt8.ofNat i), p + (actionTypeStrs.getD i []).length)

def traceErrorStr : Str := lit " instruction trace error"

def timestamp (sec nsec : ℤ) : UInt64 := UInt64.ofInt sec * 1000000000 + UInt64.ofInt nsec

def createErrorFromString (action : Action) (line : Str) : Except Failure Action := do
  let tid ← stol 10 (← cut line (some (after (find (lit "tid") line (some 0)) 3))
    (find (lit "ip") line (some 0)))
  let start := after (find (lit "time") line (some 0)) 4
  let dot := findFirstOf '.'.toUInt8 line (some start)
  let sec ← stol 10 (← cut line (some start) dot)
  let nsec ← stol 10 (← cut line (some (after dot 1)) (find (lit "cpu") line (some 0)))
  return { action with
    ptType := ptActionTypeError, isError := true, tid := Int32.ofInt tid, ts := timestamp sec nsec }

/-- The thread and the time of a branch, and the position after them. -/
def readStart (line : Str) : Except Failure (Int32 × UInt64 × ℕ) := do
  let stop := findFirstOf '['.toUInt8 line (some 0)
  let tid ← stol 10 (← cut line (some 0) stop)
  let stop := findFirstOf ']'.toUInt8 line (some (after stop 1))
  let start := after stop 1
  let stop := findFirstOf '.'.toUInt8 line (some start)
  let sec ← stol 10 (← cut line (some start) stop)
  let start := after stop 1
  let stop := findFirstOf ':'.toUInt8 line (some start)
  let nsec ← stol 10 (← cut line (some start) stop)
  return (Int32.ofInt tid, timestamp sec nsec, after stop 1)

/-- The two ends of a branch, in the text from `pos` on. -/
def readEnds (symbols : SymbolMap) (line : Str) (pos : ℕ) :
    Except Failure (SymbolMap × Symbol × Symbol) := do
  let start := findFirstNotOf ' '.toUInt8 line pos
  let arrow := find (lit "=>") line start
  let (symbols, src) ← getSymbolFromString symbols (← cut line start arrow)
  let start := findFirstNotOf ' '.toUInt8 line (after arrow 2)
  let (symbols, dst) ← getSymbolFromString symbols (← cut line start (some line.length))
  return (symbols, src, dst)

def createBranchFromString (action : Action) (symbols : SymbolMap) (line : Str) :
    Except Failure (Action × SymbolMap) := do
  let (tid, ts, pos) ← readStart line
  let (type, pos) ← matchType line (findFirstNotOf ' '.toUInt8 line pos)
  let (symbols, src, dst) ← readEnds symbols line pos
  return ({ action with
    ptType := ptActionTypeBranch, tid := tid, ts := ts, type := type, fromSym := src
    toSym := dst }, symbols)

/-- The action of a line, or `none` for a line that is no action. -/
def createActionFromString (action : Action) (symbols : SymbolMap) (line : Str) :
    Except Failure (Option Action × SymbolMap) := do
  let action := { action with isError := false, fromTarget := false, toTarget := false }
  if line.take traceErrorStr.length = traceErrorStr then
    if find (lit "Lost trace data") line (some 0) = none then return (none, symbols)
    else
      let action ← createErrorFromString action line
      return (some action, symbols)
  else
    let (action, symbols) ← createBranchFromString action symbols line
    return (some action, symbols)

end PtPerf.Script
