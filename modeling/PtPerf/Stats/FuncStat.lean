import PtPerf.Stats.Distribution

/-! The statistics of one traced function (`FuncStat` of `stat_tools.h` and `stat_tools.cc`).
Everything that `FuncStat::merge` combines is kept in a `Tally`. -/

namespace PtPerf.Stats

open PtPerf.Support PtPerf.Trace

@[ext] structure Element where
  count : UInt64
  total : UInt64
  deriving DecidableEq, Repr

namespace Element

instance : Zero Element := ⟨⟨0, 0⟩⟩
instance : Add Element := ⟨fun a b => ⟨a.count + b.count, a.total + b.total⟩⟩

@[simp] lemma add_count (a b : Element) : (a + b).count = a.count + b.count := rfl
@[simp] lemma add_total (a b : Element) : (a + b).total = a.total + b.total := rfl
@[simp] lemma zero_count : (0 : Element).count = 0 := rfl
@[simp] lemma zero_total : (0 : Element).total = 0 := rfl

instance : AddCommMonoid Element where
  add_assoc a b c := Element.ext (add_assoc _ _ _) (add_assoc _ _ _)
  zero_add a := Element.ext (zero_add _) (zero_add _)
  add_zero a := Element.ext (add_zero _) (add_zero _)
  add_comm a b := Element.ext (add_comm _ _) (add_comm _ _)
  nsmul := nsmulRec

end Element

abbrev Bucket := TallyMap Str Element

def Bucket.addVal (b : Bucket) (key : Str) (val : UInt64) : Bucket := b.bump key ⟨1, val⟩

def Bucket.addBucket (b c : Bucket) : Bucket := b.merge c

@[ext] structure Latency where
  target : Distribution
  sched : Distribution
  unknownCount : UInt64
  deriving DecidableEq, Repr

namespace Latency

def merge (a b : Latency) : Latency :=
  ⟨a.target.mergeSlots b.target, a.sched.mergeSlots b.sched, a.unknownCount + b.unknownCount⟩

/-- The `sched_avg` of `FuncStat::print_latency`. -/
def schedAvg (l : Latency) : UInt64 :=
  let targetCnt := l.target.count.toUInt64
  if targetCnt > 0 then l.sched.total / targetCnt else 0

instance : Zero Latency := ⟨⟨0, 0, 0⟩⟩
instance : Add Latency := ⟨merge⟩

@[simp] lemma add_target (a b : Latency) : (a + b).target = a.target + b.target := rfl
@[simp] lemma add_sched (a b : Latency) : (a + b).sched = a.sched + b.sched := rfl
@[simp] lemma add_unknownCount (a b : Latency) :
    (a + b).unknownCount = a.unknownCount + b.unknownCount := rfl
@[simp] lemma zero_target : (0 : Latency).target = 0 := rfl
@[simp] lemma zero_sched : (0 : Latency).sched = 0 := rfl
@[simp] lemma zero_unknownCount : (0 : Latency).unknownCount = 0 := rfl

instance : AddCommMonoid Latency where
  add_assoc a b c := Latency.ext (add_assoc _ _ _) (add_assoc _ _ _) (add_assoc _ _ _)
  zero_add a := Latency.ext (zero_add _) (zero_add _) (zero_add _)
  add_zero a := Latency.ext (add_zero _) (add_zero _) (add_zero _)
  add_comm a b := Latency.ext (add_comm _ _) (add_comm _ _) (add_comm _ _)
  nsmul := nsmulRec

end Latency

/-- The two buckets of a `LatencyChild`, which is all of it that `add_child` copies. -/
@[ext] structure Children where
  target : Bucket
  sched : Bucket
  deriving DecidableEq

namespace Children

def addChild (a b : Children) : Children :=
  ⟨a.target.addBucket b.target, a.sched.addBucket b.sched⟩

instance : Zero Children := ⟨⟨0, 0⟩⟩
instance : Add Children := ⟨addChild⟩

@[simp] lemma add_target (a b : Children) : (a + b).target = a.target + b.target := rfl
@[simp] lemma add_sched (a b : Children) : (a + b).sched = a.sched + b.sched := rfl
@[simp] lemma zero_target : (0 : Children).target = 0 := rfl
@[simp] lemma zero_sched : (0 : Children).sched = 0 := rfl

instance : AddCommMonoid Children where
  add_assoc a b c := Children.ext (add_assoc _ _ _) (add_assoc _ _ _)
  zero_add a := Children.ext (zero_add _) (zero_add _)
  add_zero a := Children.ext (add_zero _) (add_zero _)
  add_comm a b := Children.ext (add_comm _ _) (add_comm _ _)
  nsmul := nsmulRec

end Children

structure LatencyChild extends Children where
  targetTotal : UInt64
  schedTotal : UInt64
  deriving DecidableEq

namespace LatencyChild

def clear : LatencyChild := ⟨0, 0, 0⟩

def empty (c : LatencyChild) : Bool := c.target == 0 && c.sched == 0

def addTarget (c : LatencyChild) (name : Str) (lat : UInt64) : LatencyChild :=
  { c with target := c.target.addVal name lat, targetTotal := c.targetTotal + lat }

def addSched (c : LatencyChild) (name : Str) (lat : UInt64) : LatencyChild :=
  if lat == 0 then c
  else { c with sched := c.sched.addVal name lat, schedTotal := c.schedTotal + lat }

@[simp] lemma addSched_zero (c : LatencyChild) (name : Str) : c.addSched name 0 = c := rfl

@[simp] lemma empty_clear : clear.empty = true := by decide

lemma addSched_target (c : LatencyChild) (name : Str) (lat : UInt64) :
    (c.addSched name lat).target = c.target := by
  unfold addSched
  split <;> rfl

lemma empty_addTarget (c : LatencyChild) (name : Str) (lat : UInt64) :
    (c.addTarget name lat).empty = false := by
  simp [empty, addTarget, Bucket.addVal]

end LatencyChild

@[ext] structure LatencyCaller where
  latency : Latency
  children : Children
  deriving DecidableEq

namespace LatencyCaller

def merge (a b : LatencyCaller) : LatencyCaller :=
  ⟨a.latency.merge b.latency, a.children.addChild b.children⟩

instance : Zero LatencyCaller := ⟨⟨0, 0⟩⟩
instance : Add LatencyCaller := ⟨merge⟩

@[simp] lemma add_latency (a b : LatencyCaller) : (a + b).latency = a.latency + b.latency := rfl
@[simp] lemma add_children (a b : LatencyCaller) :
    (a + b).children = a.children + b.children := rfl
@[simp] lemma zero_latency : (0 : LatencyCaller).latency = 0 := rfl
@[simp] lemma zero_children : (0 : LatencyCaller).children = 0 := rfl

instance : AddCommMonoid LatencyCaller where
  add_assoc a b c := LatencyCaller.ext (add_assoc _ _ _) (add_assoc _ _ _)
  zero_add a := LatencyCaller.ext (zero_add _) (zero_add _)
  add_zero a := LatencyCaller.ext (add_zero _) (add_zero _)
  add_comm a b := LatencyCaller.ext (add_comm _ _) (add_comm _ _)
  nsmul := nsmulRec

end LatencyCaller

@[ext] structure Tally where
  latency : Latency
  children : Children
  callers : TallyMap Str LatencyCaller
  schedCount : UInt64
  deriving DecidableEq

namespace Tally

def merge (a b : Tally) : Tally :=
  ⟨a.latency.merge b.latency, a.children.addChild b.children, a.callers.merge b.callers,
    a.schedCount + b.schedCount⟩

instance : Zero Tally := ⟨⟨0, 0, 0, 0⟩⟩
instance : Add Tally := ⟨merge⟩

@[simp] lemma add_latency (a b : Tally) : (a + b).latency = a.latency + b.latency := rfl
@[simp] lemma add_children (a b : Tally) : (a + b).children = a.children + b.children := rfl
@[simp] lemma add_callers (a b : Tally) : (a + b).callers = a.callers + b.callers := rfl
@[simp] lemma add_schedCount (a b : Tally) :
    (a + b).schedCount = a.schedCount + b.schedCount := rfl
@[simp] lemma zero_latency : (0 : Tally).latency = 0 := rfl
@[simp] lemma zero_children : (0 : Tally).children = 0 := rfl
@[simp] lemma zero_callers : (0 : Tally).callers = 0 := rfl
@[simp] lemma zero_schedCount : (0 : Tally).schedCount = 0 := rfl

instance : AddCommMonoid Tally where
  add_assoc a b c := Tally.ext (add_assoc _ _ _) (add_assoc _ _ _) (add_assoc _ _ _) (add_assoc _ _ _)
  zero_add a := Tally.ext (zero_add _) (zero_add _) (zero_add _) (zero_add _)
  add_zero a := Tally.ext (add_zero _) (add_zero _) (add_zero _) (add_zero _)
  add_comm a b := Tally.ext (add_comm _ _) (add_comm _ _) (add_comm _ _) (add_comm _ _)
  nsmul := nsmulRec

end Tally

/-- The options that `FuncStat::add` reads. -/
structure StatOption where
  callLine : Bool
  codeBlock : Bool
  latencyInterval : UInt64 × UInt64
  timeInterval : UInt64 × UInt64
  timeline : Bool
  timeStart : UInt64
  timelineUnit : UInt32
  ipFiltering : Bool

/-- The timeline keeps the nanosecond values that the source divides by `1000.0`. -/
structure FuncStat extends Tally where
  timeline : List (UInt64 × UInt64)
  timelineUnitLat : UInt64
  timelineUnit : UInt32
  deriving DecidableEq

namespace FuncStat

def new : FuncStat := ⟨0, [], 0, 0⟩

def addTargetLatency (s : FuncStat) (lat : UInt64) (caller : Str) : Except Fault FuncStat := do
  let d ← s.latency.target.assignSlot lat
  let c := s.callers.get caller
  let e ← c.latency.target.assignSlot lat
  return { s with
    latency := { s.latency with target := d }
    callers := s.callers.set caller { c with latency := { c.latency with target := e } } }

def addSchedLatency (s : FuncStat) (lat : UInt64) (caller : Str) : Except Fault FuncStat := do
  let d ← s.latency.sched.assignSlot lat
  let c := s.callers.get caller
  let e ← c.latency.sched.assignSlot lat
  return { s with
    latency := { s.latency with sched := d }
    callers := s.callers.set caller { c with latency := { c.latency with sched := e } } }

def addLatency (s : FuncStat) (latT latS : UInt64) (caller : Str) : Except Fault FuncStat := do
  let s ← s.addTargetLatency latT caller
  if latS != 0 then s.addSchedLatency latS caller else return s

def addChildLatency (s : FuncStat) (child : Children) (caller : Str) (gather : Bool) : FuncStat :=
  let c := s.callers.get caller
  { s with
    children := if gather then s.children.addChild child else s.children
    callers := s.callers.set caller { c with children := c.children.addChild child } }

def addUnknownLatency (s : FuncStat) (child : Children) (caller : Str) : FuncStat :=
  let gather := caller != unknownCaller
  let s := s.addChildLatency child caller gather
  if gather then
    { s with latency := { s.latency with unknownCount := s.latency.unknownCount + 1 } }
  else s

def callerKey (opt : StatOption) (call ret : Action) : Str :=
  if opt.callLine then
    if opt.ipFiltering then funcnameAddAddr ret.toSym.name ret.toSym.addr
    else funcnameAddAddr ret.toSym.name call.fromSym.addr
  else ret.toSym.name

def inInterval (opt : StatOption) (latT ts : UInt64) : Bool :=
  !(latT < opt.latencyInterval.1 || latT > opt.latencyInterval.2 ||
    ts < opt.timeInterval.1 || ts > opt.timeInterval.2)

def addTimeline (opt : StatOption) (s : FuncStat) (call : Action) (latT : UInt64) : FuncStat :=
  let unitLat := s.timelineUnitLat + latT
  let unit := s.timelineUnit + 1
  if unit == opt.timelineUnit then
    { s with
      timeline := s.timeline ++ [(call.ts - opt.timeStart, unitLat / unit.toUInt64)]
      timelineUnitLat := 0, timelineUnit := 0 }
  else { s with timelineUnitLat := unitLat, timelineUnit := unit }

/-- The children of one finished call, with the time spent in the target itself. -/
def withSelf (opt : StatOption) (latT latS : UInt64) (child : LatencyChild) : LatencyChild :=
  if opt.codeBlock then child
  else
    let child' := child.addTarget targetSelf
      (if latT > child.targetTotal then latT - child.targetTotal else 0)
    child'.addSched targetSelf (if latS > child'.schedTotal then latS - child'.schedTotal else 0)

def add (opt : StatOption) (s : FuncStat) (call ret : Action) (latS : UInt64)
    (child : LatencyChild) : Except Fault FuncStat :=
  let latT := ret.ts - call.ts
  let caller := callerKey opt call ret
  if !inInterval opt latT call.ts then return s
  else if opt.timeline && call.ts ≥ opt.timeStart then return s.addTimeline opt call latT
  else do
    let s ← s.addLatency latT latS caller
    return s.addChildLatency (withSelf opt latT latS child).toChildren caller true

def merge (a b : FuncStat) : FuncStat := { a with toTally := a.toTally.merge b.toTally }

end FuncStat

end PtPerf.Stats
