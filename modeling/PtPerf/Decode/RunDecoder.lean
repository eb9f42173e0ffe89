import Mathlib.Data.List.Pairwise
import Mathlib.Tactic

/-! Decoding one queue. `intel_pt_run_decoder` hands out the samples of the states that the
decoder returns, until a state is as late as the given time; `intel_pt_time_filter` drops what is
outside the selected ranges of time. Times are 64-bit ticks. -/

namespace PtPerf.Decode

def ipFlagBranch : ℕ := 1 <<< 0
def ipFlagCall : ℕ := 1 <<< 1
def ipFlagConditional : ℕ := 1 <<< 3
def ipFlagAsync : ℕ := 1 <<< 5
def ipFlagInterrupt : ℕ := 1 <<< 6
def ipFlagTxAbort : ℕ := 1 <<< 7

/-- `struct intel_pt_state` of a branch, with the flags that `intel_pt_sample_flags` finds for it. -/
structure PtState where
  timestamp : ℕ
  estTimestamp : ℕ
  fromIp : ℕ
  toIp : ℕ
  flags : ℕ
  deriving DecidableEq, Repr

/-- What `intel_pt_decode` returns before the data ends. -/
inductive Decoded where
  | error (estTimestamp fromIp : ℕ)
  | state (s : PtState)
  deriving DecidableEq, Repr

structure TimeRange where
  start : ℕ
  stop : ℕ
  deriving DecidableEq, Repr

inductive SwitchState where
  | notTracing
  | unknown
  | tracing
  | expectingSwitchEvent
  | expectingSwitchIp
  deriving DecidableEq, Repr

structure IntelPt where
  estTsc : Bool
  kernelStart : ℕ
  synthErrors : Bool
  timeRanges : List TimeRange
  /-- How many of the pending results `intel_pt_fast_forward` passes over. -/
  fastForward : ℕ → List Decoded → ℕ
  syncSwitch : Bool
  switchIp : ℕ
  ptssIp : ℕ

/-- The fields of `struct intel_pt_queue` that decide about samples; `nextTid` is empty for -1. -/
structure Ptq where
  timestamp : ℕ
  haveSample : Bool
  state : PtState
  selStart : Bool
  selTimestamp : ℕ
  selIdx : ℕ
  syncSwitch : Bool
  switchState : SwitchState
  nextTid : Option ℕ
  deriving DecidableEq, Repr

inductive Event where
  | sample (queueNr timestamp : ℕ) (s : PtState)
  | error (queueNr timestamp : ℕ)
  deriving DecidableEq, Repr

/-- What `intel_pt_run_decoder` leaves: `finished` if it returns 1, and otherwise the time. -/
structure DecoderRun where
  finished : Bool
  ptq : Ptq
  input : List Decoded
  timestamp : ℕ
  events : List Event
  deriving DecidableEq, Repr

structure Filtered where
  stop : Bool
  ptq : Ptq
  input : List Decoded
  ffTimestamp : ℕ

def Ptq.passOver (q : Ptq) : Ptq :=
  { q with
    haveSample := false
    nextTid := if q.syncSwitch then none else q.nextTid
    switchState := if q.syncSwitch then .unknown else q.switchState }

namespace IntelPt

variable (pt : IntelPt)

def rangeAt (i : ℕ) : TimeRange := pt.timeRanges.getD i ⟨0, 0⟩

def setupTimeRange (q : Ptq) : Ptq :=
  if pt.timeRanges.length = 0 then q
  else if (pt.rangeAt 0).start ≠ 0 then
    { q with selTimestamp := (pt.rangeAt 0).start, selIdx := 0, selStart := true }
  else { q with selTimestamp := (pt.rangeAt 0).stop, selIdx := 0, selStart := false }

def nextTime (q : Ptq) : Option Ptq :=
  if q.selStart then some { q with selStart := false, selTimestamp := (pt.rangeAt q.selIdx).stop }
  else if q.selIdx + 1 < pt.timeRanges.length then
    some { q with selStart := true, selIdx := q.selIdx + 1
                  selTimestamp := (pt.rangeAt (q.selIdx + 1)).start }
  else none

/-- `intel_pt_time_filter`, with a bound on the boundaries that it can pass. -/
def timeFilter : ℕ → Ptq → List Decoded → ℕ → Filtered
  | 0, q, input, ff => ⟨false, q, input, ff⟩
  | fuel + 1, q, input, ff =>
    if q.selStart then
      if q.selTimestamp ≤ q.timestamp then
        let q' := (pt.nextTime q).getD q
        if q'.selTimestamp = 0 then ⟨false, q', input, ff⟩ else timeFilter fuel q' input ff
      else if ff < q.selTimestamp then
        ⟨false, q.passOver, input.drop (pt.fastForward q.selTimestamp input), q.selTimestamp⟩
      else ⟨false, { q with haveSample := false }, input, ff⟩
    else if q.selTimestamp < q.timestamp then
      match pt.nextTime q with
      | none => ⟨true, { q with haveSample := false, switchState := .notTracing }, input, ff⟩
      | some q' => timeFilter fuel q' input ff
    else ⟨false, q, input, ff⟩

def ahead (q : Ptq) : ℕ := 2 * (pt.timeRanges.length - q.selIdx) + q.selStart.toNat

def filterTime (q : Ptq) (input : List Decoded) (ff : ℕ) : Filtered :=
  if q.selTimestamp = 0 then ⟨false, q, input, ff⟩ else pt.timeFilter (pt.ahead q + 1) q input ff

/-- Upon return to user space the estimated time is used. -/
def usesEstimate (s : PtState) : Bool :=
  pt.estTsc && (pt.kernelStart ≤ s.fromIp || s.fromIp == 0) && s.toIp != 0 && s.toIp < pt.kernelStart

/-- `intel_pt_is_switch_ip` at the end of the branch. -/
def isSwitchIp (s : PtState) : Bool :=
  s.toIp == pt.switchIp && s.flags &&& ipFlagBranch != 0 &&
    s.flags &&& (ipFlagConditional ||| ipFlagAsync ||| ipFlagInterrupt ||| ipFlagTxAbort) == 0

def atUnknownSwitch (q : Ptq) (s : PtState) : Bool :=
  q.syncSwitch && q.switchState == .unknown && pt.isSwitchIp s && q.nextTid.isNone

/-- The time of the queue; only an estimate can set it back. -/
def clock (estimate : Bool) (s : PtState) (timestamp : ℕ) : ℕ :=
  if estimate then s.estTimestamp else if timestamp < s.timestamp then s.timestamp else timestamp

def take (q : Ptq) (s : PtState) : Ptq :=
  { q with
    state := s
    haveSample := true
    timestamp := clock (pt.usesEstimate s || pt.atUnknownSwitch q s) s q.timestamp }

/-- The end of `intel_pt_sample` with `sync_switch`: the queue, and whether it waits for a switch event. -/
def switchTo (q : Ptq) : Ptq × Bool :=
  if pt.isSwitchIp q.state then
    if q.switchState = .notTracing ∨ q.switchState = .unknown ∨ q.switchState = .expectingSwitchIp then
      ({ q with nextTid := none, switchState := .tracing }, false)
    else ({ q with switchState := .expectingSwitchEvent }, true)
  else if q.state.toIp = 0 then ({ q with switchState := .notTracing }, false)
  else if q.switchState = .notTracing then ({ q with switchState := .unknown }, false)
  else if q.switchState = .unknown ∧ q.state.toIp = pt.ptssIp ∧ q.state.flags &&& ipFlagCall ≠ 0 then
    ({ q with switchState := .tracing }, false)
  else (q, false)

def sampled (q : Ptq) : Ptq × Bool :=
  if q.haveSample && q.syncSwitch then pt.switchTo { q with haveSample := false }
  else ({ q with haveSample := false }, false)

def lost (q : Ptq) (estTimestamp fromIp : ℕ) : Ptq :=
  let q := if q.syncSwitch && pt.kernelStart ≤ fromIp then { q with syncSwitch := false, nextTid := none }
    else q
  { q with timestamp := estTimestamp }

end IntelPt

def Ptq.sample (queueNr : ℕ) (q : Ptq) : List Event :=
  if q.haveSample then [.sample queueNr q.timestamp q.state] else []

lemma IntelPt.length_timeFilter_le (pt : IntelPt) (fuel : ℕ) (q : Ptq) (input : List Decoded) (ff : ℕ) :
    (pt.timeFilter fuel q input ff).input.length ≤ input.length := by
  fun_induction IntelPt.timeFilter pt fuel q input ff <;> simp_all

lemma IntelPt.length_filterTime_le (pt : IntelPt) (q : Ptq) (input : List Decoded) (ff : ℕ) :
    (pt.filterTime q input ff).input.length ≤ input.length := by
  rw [filterTime]
  split_ifs
  · exact le_rfl
  · exact pt.length_timeFilter_le _ _ _ _

def runDecoder (pt : IntelPt) (queueNr timestamp ff : ℕ) (q : Ptq) (input : List Decoded) : DecoderRun :=
  if (pt.sampled q).2 then ⟨true, (pt.sampled q).1, input, timestamp, q.sample queueNr⟩
  else match input with
  | [] => ⟨true, (pt.sampled q).1, [], timestamp, q.sample queueNr⟩
  | .error est fromIp :: rest =>
    let r := runDecoder pt queueNr timestamp ff (pt.lost (pt.sampled q).1 est fromIp) rest
    { r with events := q.sample queueNr ++
        ((if pt.synthErrors then [.error queueNr est] else []) ++ r.events) }
  | .state s :: rest =>
    let f := pt.filterTime (pt.take (pt.sampled q).1 s) rest ff
    if f.stop then ⟨true, f.ptq, f.input, timestamp, q.sample queueNr⟩
    else if timestamp ≤ f.ptq.timestamp then
      ⟨false, f.ptq, f.input, f.ptq.timestamp, q.sample queueNr⟩
    else
      let r := runDecoder pt queueNr timestamp f.ffTimestamp f.ptq f.input
      { r with events := q.sample queueNr ++ r.events }
termination_by input.length
decreasing_by
  · exact Nat.lt_succ_self rest.length
  · exact Nat.lt_succ_of_le (pt.length_filterTime_le _ _ _)

def samplesOf (events : List Event) : List (ℕ × PtState) :=
  events.filterMap fun
    | .sample _ t s => some (t, s)
    | .error _ _ => none

def Ptq.pending (q : Ptq) : List (ℕ × PtState) := if q.haveSample then [(q.timestamp, q.state)] else []

lemma samplesOf_append (es fs : List Event) : samplesOf (es ++ fs) = samplesOf es ++ samplesOf fs :=
  List.filterMap_append

lemma samplesOf_sample (queueNr : ℕ) (q : Ptq) : samplesOf (q.sample queueNr) = q.pending := by
  rw [Ptq.sample, Ptq.pending]
  split_ifs <;> rfl

lemma samplesOf_error (b : Bool) (queueNr est : ℕ) :
    samplesOf (if b then [.error queueNr est] else []) = [] := by
  cases b <;> rfl

lemma Ptq.mem_pending {q : Ptq} {x : ℕ × PtState} (h : x ∈ q.pending) :
    q.haveSample = true ∧ x.1 = q.timestamp := by
  rw [pending] at h
  split_ifs at h with hsample
  · rw [List.mem_singleton.mp h]
    exact ⟨hsample, rfl⟩
  · cases h

/-- A run of a queue that has `todo` to give: its samples come off `todo`, only the pending one can be as
late as the limit, and the queue is left at a time from the limit on or has given everything. -/
structure RunSpec (Inv : ℕ → Ptq → List Decoded → Prop) (todo : Ptq → List Decoded → List (ℕ × PtState))
    (limit : ℕ) (q : Ptq) (input : List Decoded) (r : DecoderRun) : Prop where
  kept : samplesOf r.events ++ todo r.ptq r.input = todo q input
  early : ∀ x ∈ samplesOf r.events, x.1 < limit ∨ x ∈ q.pending
  ready : r.finished = false →
    limit ≤ r.timestamp ∧ Inv r.timestamp r.ptq r.input ∧ r.input.length < input.length
  done : r.finished = true → todo r.ptq r.input = []

namespace RunSpec

variable {Inv : ℕ → Ptq → List Decoded → Prop} {todo : Ptq → List Decoded → List (ℕ × PtState)}
  {q q' : Ptq} {input input' : List Decoded} {queueNr limit t : ℕ}

lemma ended (hkept : todo q input = q.pending ++ todo q' input') (hdone : todo q' input' = []) :
    RunSpec Inv todo limit q input ⟨true, q', input', t, q.sample queueNr⟩ where
  kept := by rw [samplesOf_sample, hkept]
  early x hx := by
    rw [samplesOf_sample] at hx
    exact Or.inr hx
  ready hf := by cases hf
  done _ := hdone

lemma stopped (hkept : todo q input = q.pending ++ todo q' input') (hle : limit ≤ t)
    (hinv : Inv t q' input') (hlen : input'.length < input.length) :
    RunSpec Inv todo limit q input ⟨false, q', input', t, q.sample queueNr⟩ where
  kept := by rw [samplesOf_sample, hkept]
  early x hx := by
    rw [samplesOf_sample] at hx
    exact Or.inr hx
  ready _ := ⟨hle, hinv, hlen⟩
  done hf := by cases hf

/-- The pending sample comes out, and the run goes on from a queue whose own sample is not too late. -/
lemma goesOn {r : DecoderRun} (es : List Event) (h : RunSpec Inv todo limit q' input' r)
    (hkept : todo q input = q.pending ++ todo q' input') (hlen : input'.length < input.length)
    (hpending : ∀ x ∈ q'.pending, x.1 < limit) (hes : samplesOf es = []) :
    RunSpec Inv todo limit q input { r with events := q.sample queueNr ++ (es ++ r.events) } := by
  have hevents : samplesOf (q.sample queueNr ++ (es ++ r.events)) = q.pending ++ samplesOf r.events := by
    rw [samplesOf_append, samplesOf_append, samplesOf_sample, hes, List.nil_append]
  refine ⟨?_, fun x hx => ?_, fun hf => ?_, h.done⟩
  · rw [hevents, List.append_assoc, h.kept, hkept]
  · rw [hevents] at hx
    rcases List.mem_append.mp hx with hx | hx
    · exact Or.inr hx
    · exact Or.inl ((h.early x hx).elim id (hpending x))
  · obtain ⟨hle, hinv, hshort⟩ := h.ready hf
    exact ⟨hle, hinv, hshort.trans hlen⟩

end RunSpec

section Switching

variable {pt : IntelPt} {q : Ptq} {input : List Decoded}

lemma sampled_of_off (pt : IntelPt) (h : q.syncSwitch = false) :
    pt.sampled q = ({ q with haveSample := false }, false) := by
  rw [IntelPt.sampled, h, Bool.and_false, if_neg Bool.false_ne_true]

lemma take_of_off (pt : IntelPt) (h : q.syncSwitch = false) (s : PtState) :
    pt.take { q with haveSample := false } s = { q with
      state := s
      haveSample := true
      timestamp := IntelPt.clock (pt.usesEstimate s) s q.timestamp } := by
  rw [IntelPt.take, IntelPt.atUnknownSwitch, h]
  simp only [Bool.false_and, Bool.or_false]

lemma lost_of_off (pt : IntelPt) (h : q.syncSwitch = false) (est fromIp : ℕ) :
    pt.lost q est fromIp = { q with timestamp := est } := by
  rw [IntelPt.lost, if_neg]
  rw [h, Bool.false_and]
  exact Bool.false_ne_true

lemma runDecoder_nil (pt : IntelPt) (h : q.syncSwitch = false) (queueNr timestamp ff : ℕ) :
    runDecoder pt queueNr timestamp ff q [] =
      ⟨true, { q with haveSample := false }, [], timestamp, q.sample queueNr⟩ := by
  rw [runDecoder, sampled_of_off pt h]
  rfl

lemma runDecoder_error (pt : IntelPt) (h : q.syncSwitch = false) (queueNr timestamp ff est fromIp : ℕ)
    (rest : List Decoded) : runDecoder pt queueNr timestamp ff q (.error est fromIp :: rest) =
      let r := runDecoder pt queueNr timestamp ff { q with haveSample := false, timestamp := est } rest
      { r with events := q.sample queueNr ++
          ((if pt.synthErrors then [.error queueNr est] else []) ++ r.events) } := by
  rw [runDecoder, sampled_of_off pt h, if_neg Bool.false_ne_true]
  dsimp only
  rw [lost_of_off (q := { q with haveSample := false }) pt h]

lemma runDecoder_state (pt : IntelPt) (h : q.syncSwitch = false) (queueNr timestamp ff : ℕ) (s : PtState)
    (rest : List Decoded) : runDecoder pt queueNr timestamp ff q (.state s :: rest) =
      let f := pt.filterTime { q with
        state := s
        haveSample := true
        timestamp := IntelPt.clock (pt.usesEstimate s) s q.timestamp } rest ff
      if f.stop then ⟨true, f.ptq, f.input, timestamp, q.sample queueNr⟩
      else if timestamp ≤ f.ptq.timestamp then
        ⟨false, f.ptq, f.input, f.ptq.timestamp, q.sample queueNr⟩
      else
        let r := runDecoder pt queueNr timestamp f.ffTimestamp f.ptq f.input
        { r with events := q.sample queueNr ++ r.events } := by
  rw [runDecoder, sampled_of_off pt h, if_neg Bool.false_ne_true]
  dsimp only
  rw [take_of_off pt h]

end Switching

section Free

variable {pt : IntelPt} {q : Ptq} {input : List Decoded} {t : ℕ}

/-- The states with the times that the clock of their queue has when they are returned. -/
def IntelPt.clocked (pt : IntelPt) : ℕ → List Decoded → List (ℕ × PtState)
  | _, [] => []
  | _, .error est _ :: rest => clocked pt est rest
  | t, .state s :: rest => (clock (pt.usesEstimate s) s t, s) :: clocked pt (clock (pt.usesEstimate s) s t) rest

def IntelPt.given (pt : IntelPt) (q : Ptq) (input : List Decoded) : List (ℕ × PtState) :=
  q.pending ++ pt.clocked q.timestamp input

/-- A queue that neither looks at ranges nor at switches. -/
structure Free (q : Ptq) : Prop where
  sync : q.syncSwitch = false
  sel : q.selTimestamp = 0

/-- A free queue whose pending sample is at the time `t`. -/
structure Waiting (t : ℕ) (q : Ptq) (input : List Decoded) : Prop extends Free q where
  pending : q.haveSample = true
  clock : q.timestamp = t

lemma Waiting.head (h : Waiting t q input) {x : ℕ × PtState} (hx : x ∈ (pt.given q input).head?) :
    t ≤ x.1 := by
  rw [IntelPt.given, Ptq.pending, if_pos h.pending] at hx
  cases hx
  exact h.clock.ge

lemma filterTime_of_free (pt : IntelPt) (h : q.selTimestamp = 0) (input : List Decoded) (ff : ℕ) :
    pt.filterTime q input ff = ⟨false, q, input, ff⟩ := by
  rw [IntelPt.filterTime, if_pos h]

lemma runDecoder_free (pt : IntelPt) (queueNr limit ff : ℕ) (h : Free q) (input : List Decoded) :
    RunSpec Waiting pt.given limit q input (runDecoder pt queueNr limit ff q input) := by
  induction input generalizing q with
  | nil =>
    rw [runDecoder_nil pt h.sync]
    exact .ended rfl rfl
  | cons d rest ih =>
    cases d with
    | error est fromIp =>
      rw [runDecoder_error pt h.sync]
      have hfree : Free { q with haveSample := false, timestamp := est } := ⟨h.sync, h.sel⟩
      refine .goesOn _ (ih hfree) rfl (Nat.lt_succ_self _) (fun x hx => ?_) (samplesOf_error _ _ _)
      exact absurd (Ptq.mem_pending hx).1 Bool.false_ne_true
    | state s =>
      set q' : Ptq := { q with
        state := s
        haveSample := true
        timestamp := IntelPt.clock (pt.usesEstimate s) s q.timestamp } with hq'
      have hgiven : pt.given q (.state s :: rest) = q.pending ++ pt.given q' rest := rfl
      have hfree : Free q' := ⟨h.sync, h.sel⟩
      rw [runDecoder_state pt h.sync, ← hq', filterTime_of_free pt hfree.sel]
      dsimp only
      rw [if_neg Bool.false_ne_true]
      split_ifs with hle
      · exact .stopped hgiven hle ⟨hfree, rfl, rfl⟩ (Nat.lt_succ_self _)
      · refine .goesOn [] (ih hfree) hgiven (Nat.lt_succ_self _) (fun x hx => ?_) rfl
        exact (Ptq.mem_pending hx).2.trans_lt (not_le.mp hle)

end Free

end PtPerf.Decode
