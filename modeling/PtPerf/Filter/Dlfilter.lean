import PtPerf.Compact.Symbols
import PtPerf.Trace.Decode

/-! The dlfilter removes the branches between equal symbol names before they reach the script file.
The relevance filter of `decode_to_actions` sees the rest. -/

namespace PtPerf.Filter

open PtPerf.Support PtPerf.Trace PtPerf.Compact

/-- A branch event: what the dlfilter is given of it, with the symbols that perf resolves, and what
the script file has of it. -/
structure BranchEvent where
  ip : UInt64
  addrCorrelatesSym : Bool
  type : BranchType
  tid : Int32
  ts : UInt64
  src : Option Symbol
  dst : Option Symbol

namespace BranchEvent

def filterEvent (e : BranchEvent) : Bool :=
  if e.ip == 0 || !e.addrCorrelatesSym then false
  else match e.src, e.dst with
    | some src, some dst => src.name == dst.name
    | _, _ => false

def printed (sym : Option Symbol) : Symbol := sym.getD ⟨unknownSymbol, 0, 0⟩

def action (e : BranchEvent) : Action where
  ptType := ptActionTypeBranch
  type := e.type
  fromTarget := false
  toTarget := false
  schedBegin := false
  schedEnd := false
  ancestorBegin := false
  ancestorEnd := false
  isError := false
  tid := e.tid
  ts := e.ts
  fromSym := printed e.src
  toSym := printed e.dst

/-- The branch enters a function at its first instruction. -/
def enters (e : BranchEvent) : Bool :=
  (printed e.dst).offset == 0 && (e.type == .call || e.type == .trStart)

def returns (e : BranchEvent) : Bool := e.type == .ret || e.type == .trEndReturn

end BranchEvent

open BranchEvent

def keptActions (p : Param) (tid : Int32) (events : List BranchEvent) : List Action :=
  (decodeToActions p (events.map action)).filter (·.tid == tid)

def Transparent (p : Param) (events : List BranchEvent) : Prop :=
  ∀ tid, keptActions p tid (events.filter (!·.filterEvent)) = keptActions p tid events

/-- The functions whose calls and returns are marked. -/
def isWatched (p : Param) (name : Str) : Bool :=
  (p.ancestor != [] && name == p.ancestor) ||
    (p.offcpu && (name == sysSchedFuncname || name == sysSchedFuncname419))

/-- A marked function, other than the target, that calls itself. -/
def isWatchedRecursion (p : Param) (e : BranchEvent) : Bool :=
  e.filterEvent && (printed e.dst).name != p.target && isWatched p (printed e.dst).name &&
    (e.enters || e.returns)

section Kept

variable {p : Param} {e : BranchEvent}

lemma printed_name_eq (h : e.filterEvent = true) : (printed e.src).name = (printed e.dst).name := by
  rw [filterEvent] at h
  split at h
  · cases h
  · split at h
    · rename_i src dst hsrc hdst
      rw [hsrc, hdst]
      exact beq_iff_eq.mp h
    · cases h

/-- With one name at both ends, only the calls and returns of a marked function are kept. -/
lemma initAction_removed (hp : p.codeBlock = false) (h : e.filterEvent = true) :
    initAction p e.action = if isWatchedRecursion p e then some (markAction p e.action) else none := by
  have hfrom : e.action.fromSym.name = (printed e.dst).name := printed_name_eq h
  have hto : e.action.toSym.name = (printed e.dst).name := rfl
  have henters : (e.action.toSym.offset == 0 && (e.action.type == .call || e.action.type == .trStart)) =
      e.enters := rfl
  have hreturns : (e.action.type == .ret || e.action.type == .trEndReturn) = e.returns := rfl
  have hkind : e.action.isError = false ∧ e.action.ptType = ptActionTypeBranch := ⟨rfl, rfl⟩
  simp only [initAction, isWatchedRecursion, isWatched, markAction_eq, Action.callsSched,
    Action.returnsFromSched, Action.callsFunction, Action.returnsFromFunction, hfrom, hto, henters, hreturns,
    hkind, h, hp, Bool.and_assoc, bne]
  generalize e.enters = enters
  generalize e.returns = returns
  generalize ((printed e.dst).name == p.ancestor) = isAncestor
  generalize ((printed e.dst).name == p.target) = isTarget
  generalize ((printed e.dst).name == sysSchedFuncname || (printed e.dst).name == sysSchedFuncname419) = isSched
  generalize (p.ancestor == []) = noAncestor
  generalize p.offcpu = offcpu
  cases isTarget with
  | true => cases isSched <;> cases offcpu <;> cases isAncestor <;> cases noAncestor <;> rfl
  | false =>
    cases isSched <;> cases offcpu <;> cases isAncestor <;> cases noAncestor <;>
      cases enters <;> cases returns <;> rfl

end Kept

lemma keptActions_eq (p : Param) (tid : Int32) (events : List BranchEvent) :
    keptActions p tid events =
      events.filterMap fun e => (initAction p e.action).filter (·.tid == tid) := by
  rw [keptActions, decodeToActions, List.filterMap_map, List.filter_filterMap]
  rfl

theorem dlfilter_transparent_iff (p : Param) (hp : p.codeBlock = false) (events : List BranchEvent) :
    Transparent p events ↔ ∀ e ∈ events, isWatchedRecursion p e = false := by
  simp only [Transparent, keptActions_eq, filterMap_filter_eq_iff, Bool.not_eq_false']
  constructor
  · intro h e he
    cases hfilter : e.filterEvent with
    | false => simp [isWatchedRecursion, hfilter]
    | true =>
      have hnone := h e.tid e he hfilter
      rw [initAction_removed hp hfilter] at hnone
      cases hw : isWatchedRecursion p e with
      | false => rfl
      | true =>
        rw [hw, if_pos rfl, markAction_eq] at hnone
        simp [action] at hnone
  · intro h tid e he hfilter
    rw [initAction_removed hp hfilter, h e he]
    rfl

namespace Sample

def symbol (name : Str) (offset : UInt32) : Option Symbol := some ⟨name, 0x401000, offset⟩

def branchEvent (type : BranchType) (src dst : Option Symbol) : BranchEvent where
  ip := 0x401000
  addrCorrelatesSym := true
  type := type
  tid := 1
  ts := 10
  src := src
  dst := dst

def withAncestor : Param := { Param.default (lit "f") with ancestor := lit "h" }

end Sample

/-- The call of an ancestor by itself reaches the analysis only without the dlfilter. -/
theorem recursive_ancestor_call_removed :
    let call := Sample.branchEvent .call (Sample.symbol (lit "h") 32) (Sample.symbol (lit "h") 0)
    keptActions Sample.withAncestor 1 [call] = [markAction Sample.withAncestor call.action] ∧
      (markAction Sample.withAncestor call.action).ancestorBegin = true ∧
      keptActions Sample.withAncestor 1 ([call].filter (!·.filterEvent)) = [] := by
  decide +kernel

theorem jumps_inside_removed :
    Transparent Sample.withAncestor
      [Sample.branchEvent .call (Sample.symbol (lit "h") 32) (Sample.symbol (lit "f") 0),
        Sample.branchEvent .jcc (Sample.symbol (lit "f") 4) (Sample.symbol (lit "f") 16),
        Sample.branchEvent .jmp (Sample.symbol (lit "h") 40) (Sample.symbol (lit "h") 8)] :=
  (dlfilter_transparent_iff Sample.withAncestor rfl _).mpr (by decide +kernel)

end PtPerf.Filter
