import Mathlib.Tactic

/-! Symbols, branch actions and the names under which they are reported
(`pt_action.h`, `pt_action.cc`, `sys_tools.h`). A `std::string` is its list of bytes. -/

namespace PtPerf.Trace

abbrev Str := List UInt8

def lit (s : String) : Str := s.toList.map Char.toUInt8

/-- `std::to_string` on an unsigned value. -/
def decimal (n : ℕ) : Str := (Nat.toDigits 10 n).map Char.toUInt8

/-- Ways in which the analysis does not come back with a result. -/
inductive Fault
  | slotLoop
  | internalJump
  | jumpOutsideTarget
  | nullCursor
  | schedExceedsLatency
  deriving DecidableEq, Repr

structure Symbol where
  name : Str
  addr : UInt64
  offset : UInt32
  deriving DecidableEq, Repr, Inhabited

inductive BranchType
  | call | ret | jcc | jmp | trStart | trEndCall | trEndReturn | trEndHwInt | trEndSyscall | trEnd
  | int | iret | syscall | sysret | async | hwInt | txAbrt | vmentry | vmexit
  | unknownFlag (code : UInt8)
  deriving DecidableEq, Repr, Inhabited

namespace BranchType

def ofCode (code : UInt8) : BranchType :=
  match code.toNat with
  | 0 => call
  | 1 => ret
  | 2 => jcc
  | 3 => jmp
  | 4 => trStart
  | 5 => trEndCall
  | 6 => trEndReturn
  | 7 => trEndHwInt
  | 8 => trEndSyscall
  | 9 => trEnd
  | 10 => int
  | 11 => iret
  | 12 => syscall
  | 13 => sysret
  | 14 => async
  | 15 => hwInt
  | 16 => txAbrt
  | 17 => vmentry
  | 18 => vmexit
  | _ => unknownFlag code

def code : BranchType → UInt8
  | call => 0
  | ret => 1
  | jcc => 2
  | jmp => 3
  | trStart => 4
  | trEndCall => 5
  | trEndReturn => 6
  | trEndHwInt => 7
  | trEndSyscall => 8
  | trEnd => 9
  | int => 10
  | iret => 11
  | syscall => 12
  | sysret => 13
  | async => 14
  | hwInt => 15
  | txAbrt => 16
  | vmentry => 17
  | vmexit => 18
  | unknownFlag c => c

lemma code_ofCode : ∀ c : UInt8, (ofCode c).code = c := by
  have h : ∀ n : Fin 256, (ofCode (UInt8.ofNat n)).code = UInt8.ofNat n := by decide +kernel
  intro c
  have hc := h ⟨c.toNat, c.toNat_lt⟩
  simpa using hc

def isJump (t : BranchType) : Bool := t == jmp || t == jcc

end BranchType

structure Action where
  ptType : UInt8
  type : BranchType
  fromTarget : Bool
  toTarget : Bool
  schedBegin : Bool
  schedEnd : Bool
  ancestorBegin : Bool
  ancestorEnd : Bool
  isError : Bool
  tid : Int32
  ts : UInt64
  fromSym : Symbol
  toSym : Symbol
  deriving DecidableEq, Inhabited

def ptActionTypeUndefine : UInt8 := 0
def ptActionTypeBranch : UInt8 := 1
def ptActionTypeSymbol : UInt8 := 2
def ptActionTypeError : UInt8 := 3

def sysSchedFuncname : Str := lit "__schedule"
def sysSchedFuncname419 : Str := lit "__sched_text_start"

namespace Action

def initForSched (a : Action) : Action :=
  if (a.toSym.name == sysSchedFuncname || a.toSym.name == sysSchedFuncname419) && a.toSym.offset == 0 &&
      (a.type == .call || a.type == .trStart) then
    { a with schedBegin := true }
  else if (a.fromSym.name == sysSchedFuncname || a.fromSym.name == sysSchedFuncname419) &&
      (a.type == .ret || a.type == .trEndReturn) then
    { a with schedEnd := true }
  else a

def initForAncestor (ancestor : Str) (a : Action) : Action :=
  if a.toSym.name == ancestor && a.toSym.offset == 0 && (a.type == .call || a.type == .trStart) then
    { a with ancestorBegin := true }
  else if a.fromSym.name == ancestor && (a.type == .ret || a.type == .trEndReturn) then
    { a with ancestorEnd := true }
  else a

end Action

def funcnameAddAddr (name : Str) (addr : UInt64) : Str := name ++ (lit "!" ++ decimal addr.toNat)

def funcnameAddStringMark (name str : Str) : Str := name ++ (lit "!" ++ str)

def targetSelf : Str := lit "*self"
def codeBlockPrefix : Str := lit "*code block: "
def gatherCallLine : Str := lit "[gather_call_line]"
def unknownLatencyStr : Str := lit "(unknown latency) "
def unknownCaller : Str := lit "unknown"

end PtPerf.Trace
