import PtPerf.Filter.FuncFilter
import PtPerf.Support.Lists
import PtPerf.Support.Search

/-! The function filter of the decoder: branches are first compared with the address ranges that
the names of the filter have in one binary, then with the names themselves. -/

namespace PtPerf.Filter

open PtPerf.Support PtPerf.Trace

/-- `struct symbol`, at addresses of its object. -/
structure Sym where
  start : UInt64
  stop : UInt64
  name : Str
  deriving DecidableEq, Repr

abbrev SymTree := BinaryTree Sym

def symbolsFind (symbols : SymTree) (ip : UInt64) : Option Sym :=
  descend (fun s =>
    if ip < s.start then .lt
    else if ip > s.stop || (ip == s.stop && ip != s.start) then .gt
    else .eq) symbols

/-- A mapped object; `symbols` are those of its `dso`, and `isKernel` is `__map__is_kernel`. -/
structure Map where
  start : UInt64
  stop : UInt64
  pgoff : UInt64
  identity : Bool
  isKernel : Bool
  symbols : SymTree

abbrev MapTree := BinaryTree Map

def Map.mapIp (m : Map) (ip : UInt64) : UInt64 := if m.identity then ip else ip - m.start + m.pgoff

def mapsFind (maps : MapTree) (ip : UInt64) : Option Map :=
  descend (fun m => if ip < m.start then .lt else if ip ≥ m.stop then .gt else .eq) maps

/-- The objects of a thread and, if it has a machine, those of the machine's kernel. -/
structure Thread where
  maps : MapTree
  kernelMaps : Option MapTree

inductive Cpumode
  | kernel | user | guestKernel | guestUser
  deriving DecidableEq, Repr

/-- What the filter reads of `struct intel_pt_queue` and of the global options. The guest's fields
are those that `intel_pt_get_guest` leaves behind, `noGuest` is its result. -/
structure PtQueue where
  fromIp : UInt64
  toIp : UInt64
  toNr : Bool
  kernelStart : UInt64
  thread : Option Thread
  unknownThread : Thread
  haveGuestSideband : Bool
  guestMachineStale : Bool
  guestCode : Bool
  noGuest : Bool
  guestThread : Option Thread
  unknownGuestThread : Thread
  perfHost : Bool
  perfGuest : Bool

/-- The fields of `struct addr_location` that the filter reads. -/
structure AddrLocation where
  map : Option Map
  addr : UInt64
  sym : Option Sym

namespace PtQueue

variable (q : PtQueue)

def nrCpumode (ip : UInt64) : Cpumode :=
  if q.toNr then
    if ip &&& 0x8000000000000000 ≠ 0 then .guestKernel else .guestUser
  else if ip ≥ q.kernelStart then .kernel
  else .user

def threadOf (cpumode : Cpumode) : Option Thread :=
  if q.toNr then
    if (if q.haveGuestSideband then q.guestMachineStale
        else (!q.guestCode && cpumode != .guestKernel) || q.noGuest) then none
    else match q.guestThread with
      | some thread => some thread
      | none => if cpumode ≠ .guestKernel then none else some q.unknownGuestThread
  else match q.thread with
    | some thread => some thread
    | none => if cpumode ≠ .kernel then none else some q.unknownThread

/-- The maps that `thread__find_map` searches. -/
def mapsOf (thread : Thread) (cpumode : Cpumode) : Option MapTree :=
  match thread.kernelMaps with
  | none => none
  | some kernelMaps =>
    match cpumode with
    | .kernel => if q.perfHost then some kernelMaps else none
    | .user => if q.perfHost then some thread.maps else none
    | .guestKernel => if q.perfGuest then some kernelMaps else none
    | .guestUser => if q.perfGuest then some thread.maps else none

def findMap (thread : Thread) (cpumode : Cpumode) (ip : UInt64) (al : AddrLocation) : AddrLocation :=
  match (q.mapsOf thread cpumode).bind (mapsFind · ip) with
  | none => { al with addr := ip, map := none }
  | some m => { al with addr := m.mapIp ip, map := some m }

/-- `intel_pt_parse_ip`, with whether it succeeds. -/
def parseIp (ip : UInt64) (al : AddrLocation) : Bool × AddrLocation :=
  if ip = 0 then (false, al)
  else match q.threadOf (q.nrCpumode ip) with
    | none => (false, al)
    | some thread =>
      let al := q.findMap thread (q.nrCpumode ip) ip al
      (al.map.isSome, al)

def parseSym (ip : UInt64) (al : AddrLocation) : AddrLocation :=
  let r := q.parseIp ip al
  if r.1 then { r.2 with sym := r.2.map.bind fun m => symbolsFind m.symbols r.2.addr } else r.2

end PtQueue

namespace AddrLocation

def isScheduleFunc (al : AddrLocation) : Bool :=
  match al.sym with
  | none => false
  | some s => s.name == sysSchedFuncname || s.name == sysSchedFuncname419

def isTargetFuncName (funcFilter : List Str) (al : AddrLocation) : Bool :=
  match al.sym with
  | none => false
  | some s => funcFilterMatch funcFilter s.name

def isTargetFuncIp (filSyms : List (UInt64 × UInt64)) (al : AddrLocation) : Bool :=
  filSyms.any fun r => r.1 ≤ al.addr && r.2 ≥ al.addr

def inKernel (al : AddrLocation) : Bool := al.addr != 0 && al.map.any (·.isKernel)

end AddrLocation

section Filters

variable (funcFilter : List Str) (filSyms : List (UInt64 × UInt64)) (q : PtQueue)

/-- The filters return whether the branch is dropped, and leave the two locations behind. -/
def funcFilterBySym (src dst : AddrLocation) : Bool × AddrLocation × AddrLocation :=
  let src := q.parseSym q.fromIp { src with addr := 0, sym := none }
  let dst := q.parseSym q.toIp { dst with addr := 0, sym := none }
  if src.isTargetFuncName funcFilter || dst.isTargetFuncName funcFilter then (false, src, dst)
  else if dst.inKernel && (src.isScheduleFunc || dst.isScheduleFunc) then (false, src, dst)
  else (true, src, dst)

def funcFilterByIp (src dst : AddrLocation) : Bool × AddrLocation × AddrLocation :=
  let src := (q.parseIp q.fromIp { src with addr := 0 }).2
  let dst := (q.parseIp q.toIp { dst with addr := 0 }).2
  if src.isTargetFuncIp filSyms || dst.isTargetFuncIp filSyms then (false, src, dst)
  else if dst.inKernel then
    let src := q.parseSym q.fromIp { src with sym := none }
    let dst := q.parseSym q.toIp { dst with sym := none }
    if src.isScheduleFunc || dst.isScheduleFunc then (false, src, dst) else (true, src, dst)
  else (true, src, dst)

/-- Whether `intel_pt_synth_branch_sample` goes on to make a sample. The locations start with what
is on the stack. -/
def synthBranchSample (tidFiltered : Bool) (src dst : AddrLocation) : Bool :=
  if tidFiltered then false
  -- the first separator has cut `func_filter_str` to the first name
  else if !(funcFilter.headD []).isEmpty then
    if filSyms.length > 0 then
      let r := funcFilterByIp filSyms q src dst
      if r.1 then false else !(funcFilterBySym funcFilter q r.2.1 r.2.2).1
    else !(funcFilterBySym funcFilter q src dst).1
  else true

/-- `fil_syms` after `func_filter_generate_fil_sym`, for the symbols of `opt_dso_name` if there is
one. -/
def generateFilSym (optDso : Option SymTree) : List (UInt64 × UInt64) :=
  match optDso with
  | none => []
  | some dso =>
    (inorder dso).foldl (fun syms sym => funcFilter.foldl (fun syms name =>
      if name == sym.name && syms.length < maxFilterSymbol then syms ++ [(sym.start, sym.stop)]
      else syms) syms) []

end Filters

section Locations

variable (q : PtQueue) (ip : UInt64)

def PtQueue.place : AddrLocation := q.parseSym ip ⟨none, 0, none⟩

lemma parseIp_cases : (∀ al, q.parseIp ip al = (false, al)) ∨
    ∃ m a, ∀ al, q.parseIp ip al = (m.isSome, { al with map := m, addr := a }) := by
  by_cases h0 : ip = 0
  · exact Or.inl fun al => by rw [PtQueue.parseIp, if_pos h0]
  cases ht : q.threadOf (q.nrCpumode ip) with
  | none => exact Or.inl fun al => by simp only [PtQueue.parseIp, if_neg h0, ht]
  | some thread =>
    right
    cases hm : (q.mapsOf thread (q.nrCpumode ip)).bind (mapsFind · ip) with
    | none =>
      exact ⟨none, ip, fun al => by simp only [PtQueue.parseIp, if_neg h0, ht, PtQueue.findMap, hm]⟩
    | some m =>
      exact ⟨some m, m.mapIp ip, fun al => by
        simp only [PtQueue.parseIp, if_neg h0, ht, PtQueue.findMap, hm]⟩

lemma parseSym_place (al : AddrLocation) (haddr : al.addr = 0) (hsym : al.sym = none) :
    (q.parseSym ip al).addr = (q.place ip).addr ∧ (q.parseSym ip al).sym = (q.place ip).sym ∧
      (q.parseSym ip al).inKernel = (q.place ip).inKernel := by
  rw [PtQueue.place, PtQueue.parseSym, PtQueue.parseSym]
  rcases parseIp_cases q ip with h | ⟨m, a, h⟩
  · simp [h, haddr, hsym, AddrLocation.inKernel]
  · cases m <;> simp [h, hsym, AddrLocation.inKernel]

lemma parseIp_place (al : AddrLocation) (haddr : al.addr = 0) :
    (q.parseIp ip al).2.addr = (q.place ip).addr ∧
      (q.parseIp ip al).2.inKernel = (q.place ip).inKernel ∧
      (q.parseSym ip { (q.parseIp ip al).2 with sym := none }).sym = (q.place ip).sym := by
  rw [PtQueue.place, PtQueue.parseSym, PtQueue.parseSym]
  rcases parseIp_cases q ip with h | ⟨m, a, h⟩
  · simp [h, haddr, AddrLocation.inKernel]
  · cases m <;> simp [h, AddrLocation.inKernel]

lemma symbolsFind_eq_some {symbols : SymTree} {addr : UInt64} {s : Sym}
    (h : symbolsFind symbols addr = some s) : s ∈ inorder symbols ∧ s.start ≤ addr ∧ addr ≤ s.stop := by
  obtain ⟨hmem, hside⟩ := descend_eq_some h
  refine ⟨hmem, ?_⟩
  split_ifs at hside with hlow hhigh
  simp only [Bool.or_eq_true, not_or, decide_eq_true_eq] at hhigh
  exact ⟨UInt64.not_lt.mp hlow, UInt64.not_lt.mp hhigh.1⟩

end Locations

section Drops

variable (funcFilter : List Str) (filSyms : List (UInt64 × UInt64)) (q : PtQueue)

/-- The branches that both filters keep for the schedule functions of the kernel. -/
def scheduleBranch : Bool :=
  (q.place q.toIp).inKernel && ((q.place q.fromIp).isScheduleFunc || (q.place q.toIp).isScheduleFunc)

lemma isScheduleFunc_congr {al bl : AddrLocation} (h : al.sym = bl.sym) :
    al.isScheduleFunc = bl.isScheduleFunc := by
  rw [AddrLocation.isScheduleFunc, AddrLocation.isScheduleFunc, h]

lemma isTargetFuncName_congr {al bl : AddrLocation} (h : al.sym = bl.sym) :
    al.isTargetFuncName funcFilter = bl.isTargetFuncName funcFilter := by
  rw [AddrLocation.isTargetFuncName, AddrLocation.isTargetFuncName, h]

lemma isTargetFuncIp_congr {al bl : AddrLocation} (h : al.addr = bl.addr) :
    al.isTargetFuncIp filSyms = bl.isTargetFuncIp filSyms := by
  rw [AddrLocation.isTargetFuncIp, AddrLocation.isTargetFuncIp, h]

lemma funcFilterBySym_eq (src dst : AddrLocation) : (funcFilterBySym funcFilter q src dst).1 =
    !((q.place q.fromIp).isTargetFuncName funcFilter || (q.place q.toIp).isTargetFuncName funcFilter ||
      scheduleBranch q) := by
  obtain ⟨-, hsrc, -⟩ := parseSym_place q q.fromIp { src with addr := 0, sym := none } rfl rfl
  obtain ⟨-, hdst, hkernel⟩ := parseSym_place q q.toIp { dst with addr := 0, sym := none } rfl rfl
  simp only [funcFilterBySym, scheduleBranch, isTargetFuncName_congr funcFilter hsrc,
    isTargetFuncName_congr funcFilter hdst, isScheduleFunc_congr hsrc, isScheduleFunc_congr hdst, hkernel]
  generalize ((q.place q.toIp).inKernel && _) = sched
  generalize (AddrLocation.isTargetFuncName _ _ || _) = target
  cases target <;> cases sched <;> rfl

lemma funcFilterByIp_eq (src dst : AddrLocation) : (funcFilterByIp filSyms q src dst).1 =
    !((q.place q.fromIp).isTargetFuncIp filSyms || (q.place q.toIp).isTargetFuncIp filSyms ||
      scheduleBranch q) := by
  obtain ⟨hsrc, -, hsrc'⟩ := parseIp_place q q.fromIp { src with addr := 0 } rfl
  obtain ⟨hdst, hkernel, hdst'⟩ := parseIp_place q q.toIp { dst with addr := 0 } rfl
  simp only [funcFilterByIp, scheduleBranch, isTargetFuncIp_congr filSyms hsrc,
    isTargetFuncIp_congr filSyms hdst, isScheduleFunc_congr hsrc', isScheduleFunc_congr hdst', hkernel]
  generalize (q.place q.toIp).inKernel = kernel
  generalize ((q.place q.fromIp).isScheduleFunc || _) = sched
  generalize (AddrLocation.isTargetFuncIp _ _ || _) = target
  cases target <;> cases kernel <;> cases sched <;> rfl

lemma synthBranchSample_eq (tidFiltered : Bool) (src dst : AddrLocation) :
    synthBranchSample funcFilter filSyms q tidFiltered src dst =
      (!tidFiltered && ((funcFilter.headD []).isEmpty ||
        !((0 < filSyms.length && (funcFilterByIp filSyms q src dst).1) ||
          (funcFilterBySym funcFilter q src dst).1))) := by
  have hsym : ∀ al bl, (funcFilterBySym funcFilter q al bl).1 = (funcFilterBySym funcFilter q src dst).1 := by
    intro al bl
    rw [funcFilterBySym_eq, funcFilterBySym_eq]
  rw [synthBranchSample]
  simp only [hsym]
  generalize (funcFilterBySym funcFilter q src dst).1 = bySym
  generalize funcFilterByIp filSyms q src dst = byIp
  cases tidFiltered with
  | true => rfl
  | false =>
    generalize (funcFilter.headD []).isEmpty = off
    by_cases hlen : 0 < filSyms.length
    · cases off <;> cases byIp.1 <;> simp [hlen]
    · cases off <;> simp [hlen]

end Drops

section Ranges

variable (funcFilter : List Str)

/-- The functions of the binary whose ranges are recorded: the table has room for 1024. -/
def recorded (dso : SymTree) : List Sym :=
  ((inorder dso).flatMap fun sym => (funcFilter.filter (· == sym.name)).map fun _ => sym).take
    maxFilterSymbol

lemma generateFilSym_eq (dso : SymTree) :
    generateFilSym funcFilter (some dso) = (recorded funcFilter dso).map fun s => (s.start, s.stop) := by
  have hfold : ∀ (l : List Sym) (acc : List (UInt64 × UInt64)), acc.length ≤ maxFilterSymbol →
      l.foldl (fun syms sym => funcFilter.foldl (fun syms name =>
        if name == sym.name && syms.length < maxFilterSymbol then syms ++ [(sym.start, sym.stop)]
        else syms) syms) acc =
        (acc ++ (l.flatMap fun sym => (funcFilter.filter (· == sym.name)).map fun _ => sym).map
          fun s => (s.start, s.stop)).take maxFilterSymbol := by
    intro l
    induction l with
    | nil => exact fun acc hacc => by simp [List.take_of_length_le hacc]
    | cons sym l ih =>
      intro acc hacc
      rw [List.foldl_cons, foldl_room maxFilterSymbol (· == sym.name) _ _ _ hacc,
        ih _ (List.length_take_le _ _), take_take_append, List.flatMap_cons, List.map_append, List.map_map,
        List.append_assoc]
      rfl
  rw [generateFilSym, hfold _ _ (Nat.zero_le _), recorded, List.nil_append, List.map_take]

end Ranges

section Agreement

variable (funcFilter : List Str) (dso : SymTree) (q : PtQueue)

structure PrefilterAgrees : Prop where
  drops : 0 < (generateFilSym funcFilter (some dso)).length → ∀ src dst,
    (funcFilterByIp (generateFilSym funcFilter (some dso)) q src dst).1 = true →
      (funcFilterBySym funcFilter q src dst).1 = true
  samples : ∀ tidFiltered src dst,
    synthBranchSample funcFilter (generateFilSym funcFilter (some dso)) q tidFiltered src dst =
      synthBranchSample funcFilter (generateFilSym funcFilter none) q tidFiltered src dst

/-- The object that the address lies in, of those mapped in the thread or the kernel. -/
def PtQueue.objectAt (ip : UInt64) : Option Map :=
  if ip = 0 then none
  else (q.threadOf (q.nrCpumode ip)).bind fun thread =>
    (q.mapsOf thread (q.nrCpumode ip)).bind (mapsFind · ip)

def PtQueue.branch (src dst : UInt64) : PtQueue := { q with fromIp := src, toIp := dst }

/-- The address of an object, as it is compared with the ranges of the binary. -/
def InRanges (addr : UInt64) : Prop := ∃ s ∈ recorded funcFilter dso, s.start ≤ addr ∧ addr ≤ s.stop

/-- What the binary's ranges leave out belongs to the kernel. -/
def OnlyKernelOutside : Prop :=
  ∀ ip m, q.objectAt ip = some m →
    InRanges funcFilter dso (m.mapIp ip) ∨ m.isKernel = true ∧ m.mapIp ip ≠ 0

/-- The functions of all objects that have a name of the filter lie in the ranges of those of the
binary. A schedule function need not when everything else outside them is kernel. -/
def NamesInRanges : Prop :=
  ∀ ip m s, q.objectAt ip = some m → symbolsFind m.symbols (m.mapIp ip) = some s → s.name ∈ funcFilter →
    InRanges funcFilter dso (m.mapIp ip) ∨
      (s.name = sysSchedFuncname ∨ s.name = sysSchedFuncname419) ∧ OnlyKernelOutside funcFilter dso q

variable {funcFilter dso q}

lemma place_of_objectAt {ip : UInt64} {m : Map} (h : q.objectAt ip = some m) :
    q.place ip = ⟨some m, m.mapIp ip, symbolsFind m.symbols (m.mapIp ip)⟩ := by
  rw [PtQueue.objectAt] at h
  split_ifs at h with h0
  obtain ⟨thread, hthread, h⟩ := Option.bind_eq_some_iff.mp h
  simp only [PtQueue.place, PtQueue.parseSym, PtQueue.parseIp, if_neg h0, hthread, PtQueue.findMap, h,
    Option.isSome_some, if_true, Option.bind_some]

lemma isTargetFuncName_iff {ip : UInt64} {m : Map} (h : q.objectAt ip = some m) :
    (q.place ip).isTargetFuncName funcFilter = true ↔
      ∃ s, symbolsFind m.symbols (m.mapIp ip) = some s ∧ s.name ∈ funcFilter := by
  rw [place_of_objectAt h, AddrLocation.isTargetFuncName]
  cases symbolsFind m.symbols (m.mapIp ip) <;> simp [funcFilterMatch]

lemma isScheduleFunc_iff {ip : UInt64} {m : Map} (h : q.objectAt ip = some m) :
    (q.place ip).isScheduleFunc = true ↔ ∃ s, symbolsFind m.symbols (m.mapIp ip) = some s ∧
      (s.name = sysSchedFuncname ∨ s.name = sysSchedFuncname419) := by
  rw [place_of_objectAt h, AddrLocation.isScheduleFunc]
  cases symbolsFind m.symbols (m.mapIp ip) <;> simp

lemma isTargetFuncIp_iff {ip : UInt64} {m : Map} (h : q.objectAt ip = some m) :
    (q.place ip).isTargetFuncIp (generateFilSym funcFilter (some dso)) = true ↔
      InRanges funcFilter dso (m.mapIp ip) := by
  rw [place_of_objectAt h, AddrLocation.isTargetFuncIp, InRanges, generateFilSym_eq]
  simp

lemma inKernel_iff {ip : UInt64} {m : Map} (h : q.objectAt ip = some m) :
    (q.place ip).inKernel = true ↔ m.isKernel = true ∧ m.mapIp ip ≠ 0 := by
  rw [place_of_objectAt h, AddrLocation.inKernel]
  simp [and_comm]

/-- What it takes that the branch is not dropped by its addresses alone. -/
lemma drops_iff (src dst : AddrLocation) :
    ((funcFilterByIp (generateFilSym funcFilter (some dso)) q src dst).1 = true →
      (funcFilterBySym funcFilter q src dst).1 = true) ↔
      ((q.place q.fromIp).isTargetFuncName funcFilter = true ∨
          (q.place q.toIp).isTargetFuncName funcFilter = true →
        (q.place q.fromIp).isTargetFuncIp (generateFilSym funcFilter (some dso)) = true ∨
          (q.place q.toIp).isTargetFuncIp (generateFilSym funcFilter (some dso)) = true ∨
          scheduleBranch q = true) := by
  rw [funcFilterByIp_eq, funcFilterBySym_eq]
  generalize (q.place q.fromIp).isTargetFuncName funcFilter = fromName
  generalize (q.place q.toIp).isTargetFuncName funcFilter = toName
  generalize AddrLocation.isTargetFuncIp _ (q.place q.fromIp) = fromIp
  generalize AddrLocation.isTargetFuncIp _ (q.place q.toIp) = toIp
  generalize scheduleBranch q = sched
  revert fromName toName fromIp toIp sched
  decide

lemma PrefilterAgrees.of_drops (h : 0 < (generateFilSym funcFilter (some dso)).length → ∀ src dst,
    (funcFilterByIp (generateFilSym funcFilter (some dso)) q src dst).1 = true →
      (funcFilterBySym funcFilter q src dst).1 = true) : PrefilterAgrees funcFilter dso q := by
  refine ⟨h, fun tidFiltered src dst => ?_⟩
  rw [synthBranchSample_eq, synthBranchSample_eq]
  have hdrop : (decide (0 < (generateFilSym funcFilter (some dso)).length) &&
      (funcFilterByIp (generateFilSym funcFilter (some dso)) q src dst).1 ||
        (funcFilterBySym funcFilter q src dst).1) = (funcFilterBySym funcFilter q src dst).1 := by
    apply Bool.or_eq_right_iff_imp.mpr
    intro hip
    rw [Bool.and_eq_true, decide_eq_true_eq] at hip
    exact h hip.1 src dst hip.2
  rw [hdrop]
  rfl

lemma agrees_iff : PrefilterAgrees funcFilter dso q ↔ (recorded funcFilter dso ≠ [] → ∀ src dst,
    (funcFilterByIp (generateFilSym funcFilter (some dso)) q src dst).1 = true →
      (funcFilterBySym funcFilter q src dst).1 = true) := by
  have hsize : 0 < (generateFilSym funcFilter (some dso)).length ↔ recorded funcFilter dso ≠ [] := by
    rw [generateFilSym_eq, List.length_map, List.length_pos_iff]
  constructor
  · intro h hne
    exact h.drops (hsize.mpr hne)
  · intro h
    exact .of_drops fun hlen => h (hsize.mp hlen)

/-- When the names of the filter are found in no other object than the binary, and the table has room
for all of them, the ranges hold every function. -/
lemma namesInRanges_of_only_in_binary
    (hroom : ((inorder dso).flatMap fun sym => (funcFilter.filter (· == sym.name)).map fun _ => sym).length ≤
      maxFilterSymbol)
    (honly : ∀ ip m, q.objectAt ip = some m →
      m.symbols = dso ∨ ∀ s ∈ inorder m.symbols, s.name ∉ funcFilter) : NamesInRanges funcFilter dso q := by
  intro ip m s hobj hsym hname
  obtain ⟨hmem, hstart, hstop⟩ := symbolsFind_eq_some hsym
  refine Or.inl ⟨s, ?_, hstart, hstop⟩
  rw [recorded, List.take_of_length_le hroom, List.mem_flatMap]
  rcases honly ip m hobj with rfl | hnone
  · refine ⟨s, hmem, List.mem_map.mpr ⟨s.name, ?_, rfl⟩⟩
    exact List.mem_filter.mpr ⟨hname, by simp⟩
  · exact absurd hname (hnone s hmem)

/-- A branch from an address to itself is kept by its addresses or as a schedule branch, and so is every
branch from there to an address outside the ranges. -/
lemma NamesInRanges.of_drops (h : ∀ src dst m n, q.objectAt src = some m → q.objectAt dst = some n →
    ∀ al bl, (funcFilterByIp (generateFilSym funcFilter (some dso)) (q.branch src dst) al bl).1 = true →
      (funcFilterBySym funcFilter (q.branch src dst) al bl).1 = true) : NamesInRanges funcFilter dso q := by
  intro ip m s hobj hsym hname
  by_cases hin : InRanges funcFilter dso (m.mapIp ip)
  · exact Or.inl hin
  have hnamed : (q.place ip).isTargetFuncName funcFilter = true :=
    (isTargetFuncName_iff hobj).mpr ⟨s, hsym, hname⟩
  have hout : ∀ dst n, q.objectAt dst = some n → InRanges funcFilter dso (n.mapIp dst) ∨
      (n.isKernel = true ∧ n.mapIp dst ≠ 0) ∧
        ((q.place ip).isScheduleFunc = true ∨ (q.place dst).isScheduleFunc = true) := by
    intro dst n hn
    have hkept := (drops_iff ⟨none, 0, none⟩ ⟨none, 0, none⟩).mp (h ip dst m n hobj hn _ _) (Or.inl hnamed)
    rcases hkept with hfrom | hto | hsched
    · exact absurd ((isTargetFuncIp_iff hobj).mp hfrom) hin
    · exact Or.inl ((isTargetFuncIp_iff hn).mp hto)
    · rw [scheduleBranch, Bool.and_eq_true, Bool.or_eq_true] at hsched
      exact Or.inr ⟨(inKernel_iff hn).mp hsched.1, hsched.2⟩
  have hself := ((hout ip m hobj).resolve_left hin).2
  rw [or_self_iff] at hself
  obtain ⟨s', hs', hsched⟩ := (isScheduleFunc_iff hobj).mp hself
  cases hsym.symm.trans hs'
  exact Or.inr ⟨hsched, fun dst n hn => (hout dst n hn).imp_right And.left⟩

lemma NamesInRanges.kept (h : NamesInRanges funcFilter dso q) {src dst : UInt64} {m n : Map}
    (hm : q.objectAt src = some m) (hn : q.objectAt dst = some n)
    (hnamed : (q.place src).isTargetFuncName funcFilter = true ∨
      (q.place dst).isTargetFuncName funcFilter = true) :
    InRanges funcFilter dso (m.mapIp src) ∨ InRanges funcFilter dso (n.mapIp dst) ∨
      scheduleBranch (q.branch src dst) = true := by
  -- an end in a schedule function, and the other way round only the kernel is outside
  have hsched {ip : UInt64} {k : Map} (hk : q.objectAt ip = some k)
      (hname : (q.place ip).isTargetFuncName funcFilter = true) : InRanges funcFilter dso (k.mapIp ip) ∨
        (q.place ip).isScheduleFunc = true ∧ OnlyKernelOutside funcFilter dso q := by
    obtain ⟨s, hsym, hmem⟩ := (isTargetFuncName_iff hk).mp hname
    exact (h ip k s hk hsym hmem).imp_right (And.imp_left fun hs => (isScheduleFunc_iff hk).mpr ⟨s, hsym, hs⟩)
  have hbranch (hor : (q.place src).isScheduleFunc = true ∨ (q.place dst).isScheduleFunc = true)
      (hout : OnlyKernelOutside funcFilter dso q) : InRanges funcFilter dso (n.mapIp dst) ∨
        scheduleBranch (q.branch src dst) = true := by
    refine (hout dst n hn).imp_right fun hkernel => ?_
    rw [scheduleBranch, Bool.and_eq_true, Bool.or_eq_true]
    exact ⟨(inKernel_iff hn).mpr hkernel, hor⟩
  rcases hnamed with hname | hname
  · rcases hsched hm hname with hin | ⟨hs, hout⟩
    · exact Or.inl hin
    · exact Or.inr (hbranch (Or.inl hs) hout)
  · rcases hsched hn hname with hin | ⟨hs, hout⟩
    · exact Or.inr (Or.inl hin)
    · exact Or.inr (hbranch (Or.inr hs) hout)

end Agreement

theorem prefilter_agrees_iff (funcFilter : List Str) (dso : SymTree) (q : PtQueue) :
    (∀ src dst, (q.objectAt src).isSome → (q.objectAt dst).isSome →
      PrefilterAgrees funcFilter dso (q.branch src dst)) ↔
      (recorded funcFilter dso ≠ [] → NamesInRanges funcFilter dso q) := by
  constructor
  · intro h hne
    apply NamesInRanges.of_drops
    intro src dst m n hm hn
    exact agrees_iff.mp (h src dst (by rw [hm]; rfl) (by rw [hn]; rfl)) hne
  · intro h src dst hsrc hdst
    obtain ⟨m, hm⟩ := Option.isSome_iff_exists.mp hsrc
    obtain ⟨n, hn⟩ := Option.isSome_iff_exists.mp hdst
    refine agrees_iff.mpr fun hne al bl => (drops_iff al bl).mpr fun hnamed => ?_
    rcases (h hne).kept hm hn hnamed with hfrom | hto | hsched
    · exact Or.inl ((isTargetFuncIp_iff hm).mpr hfrom)
    · exact Or.inr (Or.inl ((isTargetFuncIp_iff hn).mpr hto))
    · exact Or.inr (Or.inr hsched)

namespace Sample

def progSymbols : SymTree := .node ⟨0x1000, 0x1100, lit "f"⟩ .nil .nil

def libSymbols : SymTree := .node ⟨0x500, 0x600, lit "f"⟩ (.node ⟨0x400, 0x500, lit "g"⟩ .nil .nil) .nil

/-- A program and a library that both have a function `f`. -/
def twoObjects : Thread where
  maps := .node ⟨0x400000, 0x410000, 0, false, false, progSymbols⟩ .nil
    (.node ⟨0x7f0000000000, 0x7f0000010000, 0, false, false, libSymbols⟩ .nil .nil)
  kernelMaps := some .nil

def queue (fromIp toIp : UInt64) : PtQueue where
  fromIp := fromIp
  toIp := toIp
  toNr := false
  kernelStart := 0x8000000000000000
  thread := some twoObjects
  unknownThread := twoObjects
  haveGuestSideband := false
  guestMachineStale := false
  guestCode := false
  noGuest := true
  guestThread := none
  unknownGuestThread := twoObjects
  perfHost := true
  perfGuest := false

end Sample

/-- A call of the library's `f` is lost with `--opt_dso_name`. -/
theorem call_in_library_dropped :
    let q := Sample.queue 0x7f0000000410 0x7f0000000500
    let filSyms := generateFilSym [lit "f"] (some Sample.progSymbols)
    let al : AddrLocation := ⟨none, 0, none⟩
    0 < filSyms.length ∧ (funcFilterByIp filSyms q al al).1 = true ∧
      (funcFilterBySym [lit "f"] q al al).1 = false ∧
      synthBranchSample [lit "f"] filSyms q false al al = false ∧
      synthBranchSample [lit "f"] (generateFilSym [lit "f"] none) q false al al = true := by
  decide +kernel

end PtPerf.Filter
