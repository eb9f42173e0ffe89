import PtPerf.Decode.QueueHeap
import PtPerf.Decode.RunDecoder
import PtPerf.Support.Runs

/-! Decoding all queues in step. `intel_pt_process_queues` lets the queue with the earliest pending
sample run until it has passed the next queue. -/

namespace PtPerf.Decode

open Function

structure Queue where
  ptq : Ptq
  input : List Decoded
  deriving DecidableEq, Repr

structure Session where
  heap : AuxtraceHeap
  queueArray : ℕ → Queue

def Event.queueNr : Event → ℕ
  | .sample nr _ _ => nr
  | .error nr _ => nr

/-- The time up to which the queue taken from the heap may run. -/
def runLimit (heap : AuxtraceHeap) (timestamp : ℕ) : ℕ :=
  match heap.top? with
  | some next => if timestamp < (next.ordinal + 1) % 2 ^ 64 then timestamp else (next.ordinal + 1) % 2 ^ 64
  | none => timestamp

/-- One round of `intel_pt_process_queues` for the item on top of the heap. -/
def processQueue (pt : IntelPt) (timestamp : ℕ) (s : Session) (item : HeapItem) :
    Except HeapFault (Session × List Event) :=
  let heap := s.heap.pop
  let queue := s.queueArray item.queueNr
  let r := runDecoder pt item.queueNr (runLimit heap timestamp) 0 queue.ptq queue.input
  let queueArray := update s.queueArray item.queueNr ⟨r.ptq, r.input⟩
  if r.finished then .ok (⟨heap, queueArray⟩, r.events)
  else (heap.add item.queueNr r.timestamp).map fun h => (⟨h, queueArray⟩, r.events)

/-- `intel_pt_process_queues`, with a bound on the number of rounds. -/
def processQueues (pt : IntelPt) (timestamp : ℕ) : ℕ → Session → Except HeapFault (Session × List Event)
  | 0, s => .ok (s, [])
  | fuel + 1, s =>
    match s.heap.top? with
    | none => .ok (s, [])
    | some item =>
      if timestamp ≤ item.ordinal then .ok (s, [])
      else do
        let r ← processQueue pt timestamp s item
        let q ← processQueues pt timestamp fuel r.1
        return (q.1, r.2 ++ q.2)

/-- `intel_pt_setup_queue`: decoding starts at the first state that has a time. -/
def firstTimed : List Decoded → Option (PtState × List Decoded)
  | [] => none
  | .error _ _ :: rest => firstTimed rest
  | .state s :: rest => if s.timestamp ≠ 0 then some (s, rest) else firstTimed rest

def zeroPtq : Ptq where
  timestamp := 0
  haveSample := false
  state := ⟨0, 0, 0, 0, 0⟩
  selStart := false
  selTimestamp := 0
  selIdx := 0
  syncSwitch := false
  switchState := .notTracing
  nextTid := none

def newPtq (pt : IntelPt) : Ptq := pt.setupTimeRange { zeroPtq with syncSwitch := pt.syncSwitch }

def setupQueue (pt : IntelPt) (input : List Decoded) : Option Queue :=
  let q := newPtq pt
  let input := if q.selStart && q.selTimestamp != 0 then input.drop (pt.fastForward q.selTimestamp input)
    else input
  (firstTimed input).map fun r =>
    ⟨{ q with timestamp := r.1.timestamp, state := r.1
              haveSample := !(q.selStart && q.selTimestamp != 0 && r.1.timestamp < q.selTimestamp) }, r.2⟩

/-- `intel_pt_setup_queues` on queues that are not on the heap. -/
def setupQueues (pt : IntelPt) : ℕ → List (List Decoded) → Session → Except HeapFault Session
  | _, [], s => .ok s
  | nr, input :: inputs, s =>
    match setupQueue pt input with
    | none => setupQueues pt (nr + 1) inputs s
    | some queue => do
      let heap ← s.heap.add nr queue.ptq.timestamp
      setupQueues pt (nr + 1) inputs ⟨heap, update s.queueArray nr queue⟩

def Session.empty : Session := ⟨.empty, fun _ => ⟨zeroPtq, []⟩⟩

/-- The calls of `intel_pt_process_queues` for the events of a session, each with its time. -/
def processAll (pt : IntelPt) (fuel : ℕ) : List ℕ → Session → Except HeapFault (Session × List Event)
  | [], s => .ok (s, [])
  | timestamp :: times, s => do
    let r ← processQueues pt timestamp fuel s
    let q ← processAll pt fuel times r.1
    return (q.1, r.2 ++ q.2)

section Events

def samplesOfQueue (nr : ℕ) (events : List Event) : List (ℕ × PtState) :=
  samplesOf (events.filter fun e => e.queueNr = nr)

/-- No sample is later than the next sample of another queue, among the events or in what is `left`. -/
def Merged (left : ℕ → List (ℕ × PtState)) : List Event → Prop
  | [] => True
  | e :: out => (∀ nr t s, e = .sample nr t s → ∀ j ≠ nr, ∀ y ∈ (samplesOfQueue j out ++ left j).head?, t ≤ y.1) ∧
      Merged left out

lemma samplesOfQueue_append (nr : ℕ) (es fs : List Event) :
    samplesOfQueue nr (es ++ fs) = samplesOfQueue nr es ++ samplesOfQueue nr fs := by
  rw [samplesOfQueue, List.filter_append, samplesOf_append]
  rfl

lemma samplesOfQueue_self {nr : ℕ} {out : List Event} (h : ∀ e ∈ out, e.queueNr = nr) :
    samplesOfQueue nr out = samplesOf out := by
  rw [samplesOfQueue, List.filter_eq_self.mpr fun e he => decide_eq_true (h e he)]

lemma samplesOfQueue_ne {nr nr' : ℕ} {out : List Event} (h : ∀ e ∈ out, e.queueNr = nr)
    (hne : nr' ≠ nr) : samplesOfQueue nr' out = [] := by
  rw [samplesOfQueue, List.filter_eq_nil_iff.mpr fun e he => ?_]
  · rfl
  · rw [h e he, decide_eq_true_eq]
    exact hne.symm

lemma Merged.append {nr : ℕ} {left : ℕ → List (ℕ × PtState)} {es fs : List Event} (h : Merged left fs)
    (hes : ∀ e ∈ es, e.queueNr = nr)
    (hnext : ∀ x ∈ samplesOf es, ∀ j ≠ nr, ∀ y ∈ (samplesOfQueue j fs ++ left j).head?, x.1 ≤ y.1) :
    Merged left (es ++ fs) := by
  induction es with
  | nil => exact h
  | cons e es ih =>
    rw [List.forall_mem_cons] at hes
    refine ⟨fun n t s he j hj y hy => ?_, ih hes.2 fun x hx => hnext x ?_⟩
    · have hn : n = nr := by
        rw [← hes.1, he]
        rfl
      rw [List.append_eq, samplesOfQueue_append, samplesOfQueue_ne hes.2 (hn ▸ hj), List.nil_append] at hy
      refine hnext (t, s) ?_ j (hn ▸ hj) y hy
      rw [he]
      exact List.mem_cons_self
    · rw [← List.singleton_append, samplesOf_append]
      exact List.mem_append_right _ hx

lemma runDecoder_queueNr (pt : IntelPt) (queueNr timestamp ff : ℕ) (q : Ptq) (input : List Decoded) :
    ∀ e ∈ (runDecoder pt queueNr timestamp ff q input).events, e.queueNr = queueNr := by
  have hsample : ∀ q : Ptq, ∀ e ∈ q.sample queueNr, e.queueNr = queueNr := by
    intro q e he
    rw [Ptq.sample] at he
    split_ifs at he
    · rw [List.mem_singleton.mp he]
      rfl
    · cases he
  fun_induction runDecoder pt queueNr timestamp ff q input with
  | case1 ff q input hwaits => exact hsample q
  | case2 ff q hgo => exact hsample q
  | case3 ff q hgo est fromIp rest r ih =>
    intro e he
    rcases List.mem_append.mp he with he | he
    · exact hsample q e he
    · rcases List.mem_append.mp he with he | he
      · split_ifs at he
        · rw [List.mem_singleton.mp he]
          rfl
        · cases he
      · exact ih e he
  | case4 ff q hgo s rest f hstop => exact hsample q
  | case5 ff q hgo s rest f hstop hle => exact hsample q
  | case6 ff q hgo s rest f hstop hlt r ih =>
    intro e he
    rcases List.mem_append.mp he with he | he
    · exact hsample q e he
    · exact ih e he

end Events

/-- A way to decode queues: `Inv t` holds of a queue at the time `t`, and `todo` is what it has to give,
nothing of it earlier. -/
structure Decoding (pt : IntelPt) (Inv : ℕ → Ptq → List Decoded → Prop)
    (todo : Ptq → List Decoded → List (ℕ × PtState)) : Prop where
  clock : ∀ {t q input}, Inv t q input → q.timestamp = t
  head : ∀ {t q input}, Inv t q input → ∀ x ∈ (todo q input).head?, t ≤ x.1
  idle : todo zeroPtq [] = []
  run : ∀ {t q input}, Inv t q input → ∀ queueNr limit,
    RunSpec Inv todo limit q input (runDecoder pt queueNr limit 0 q input)

section Rounds

variable {pt : IntelPt} {Inv : ℕ → Ptq → List Decoded → Prop}
  {todo : Ptq → List Decoded → List (ℕ × PtState)} {timestamp : ℕ} {s s' : Session} {item : HeapItem}

def Session.left (todo : Ptq → List Decoded → List (ℕ × PtState)) (s : Session) (nr : ℕ) :
    List (ℕ × PtState) :=
  todo (s.queueArray nr).ptq (s.queueArray nr).input

/-- The items of the heap are queues at their times; the other queues have given everything. -/
structure Session.Ready (Inv : ℕ → Ptq → List Decoded → Prop)
    (todo : Ptq → List Decoded → List (ℕ × PtState)) (s : Session) : Prop where
  valid : s.heap.Valid
  small : ∀ x ∈ s.heap.items, x.queueNr < 2 ^ 31
  item : ∀ x ∈ s.heap.items, Inv x.ordinal (s.queueArray x.queueNr).ptq (s.queueArray x.queueNr).input
  off : ∀ nr, nr ∉ s.heap.queues → s.left todo nr = []

def Session.work (s : Session) : ℕ :=
  (s.heap.items.map fun x => (s.queueArray x.queueNr).input.length + 1).sum

lemma runLimit_le_item {heap : AuxtraceHeap} (hv : heap.Valid) (timestamp : ℕ) {y : HeapItem}
    (hy : y ∈ heap.items) : runLimit heap timestamp ≤ y.ordinal + 1 := by
  cases htop : heap.top? with
  | none =>
    rw [AuxtraceHeap.top?_eq_none.mp htop] at hy
    exact absurd hy (Multiset.notMem_zero y)
  | some next =>
    have hnext := (hv.pop htop).2.2 y hy
    have hmod := Nat.mod_le (next.ordinal + 1) (2 ^ 64)
    rw [runLimit, htop]
    dsimp only
    split_ifs <;> omega

lemma Session.Ready.pop_ne (h : s.Ready Inv todo) (htop : s.heap.top? = some item) {y : HeapItem}
    (hy : y ∈ s.heap.pop.items) : y.queueNr ≠ item.queueNr := by
  have hnodup := h.valid.nodup
  rw [AuxtraceHeap.queues, (h.valid.pop htop).2.1, Multiset.map_cons, Multiset.nodup_cons] at hnodup
  intro heq
  exact hnodup.1 (heq ▸ Multiset.mem_map_of_mem HeapItem.queueNr hy)

lemma Session.Ready.mem_pop (h : s.Ready Inv todo) (htop : s.heap.top? = some item) {y : HeapItem}
    (hy : y ∈ s.heap.pop.items) : y ∈ s.heap.items := by
  rw [(h.valid.pop htop).2.1]
  exact Multiset.mem_cons_of_mem hy

lemma Session.Ready.top (h : s.Ready Inv todo) (htop : s.heap.top? = some item) :
    item ∈ s.heap.items := by
  rw [(h.valid.pop htop).2.1]
  exact Multiset.mem_cons_self item _

lemma Session.Ready.not_mem_pop (h : s.Ready Inv todo) (htop : s.heap.top? = some item) :
    item.queueNr ∉ s.heap.pop.queues := by
  intro hmem
  obtain ⟨y, hy, heq⟩ := Multiset.mem_map.mp hmem
  exact h.pop_ne htop hy heq

lemma Session.Ready.mem_queues (h : s.Ready Inv todo) (htop : s.heap.top? = some item) {nr : ℕ}
    (hne : nr ≠ item.queueNr) : nr ∈ s.heap.queues ↔ nr ∈ s.heap.pop.queues := by
  rw [AuxtraceHeap.queues, (h.valid.pop htop).2.1, Multiset.map_cons, Multiset.mem_cons,
    AuxtraceHeap.queues]
  exact or_iff_right hne

lemma Session.Ready.floor_le_left (h : s.Ready Inv todo) (hd : Decoding pt Inv todo) {nr : ℕ}
    {y : ℕ × PtState} (hy : y ∈ (s.left todo nr).head?) : ∃ x ∈ s.heap.items, x.queueNr = nr ∧ x.ordinal ≤ y.1 := by
  by_cases hon : nr ∈ s.heap.queues
  · obtain ⟨x, hx, rfl⟩ := Multiset.mem_map.mp hon
    exact ⟨x, hx, rfl, hd.head (h.item x hx) y hy⟩
  · rw [h.off nr hon] at hy
    cases hy

lemma Session.work_pop (h : s.Ready Inv todo) (htop : s.heap.top? = some item) (queue : Queue) :
    s.work = ((s.queueArray item.queueNr).input.length + 1) + (s.heap.pop.items.map fun x =>
      (update s.queueArray item.queueNr queue x.queueNr).input.length + 1).sum := by
  rw [work, (h.valid.pop htop).2.1, Multiset.map_cons, Multiset.sum_cons]
  congr 2
  refine Multiset.map_congr rfl fun y hy => ?_
  rw [update_of_ne (h.pop_ne htop hy)]

/-- What a call gives: of each queue what comes off the front of what it has to give, and no sample later
than the next one of another queue. -/
structure Gives (todo : Ptq → List Decoded → List (ℕ × PtState)) (s s' : Session) (out : List Event) :
    Prop where
  kept : ∀ nr, samplesOfQueue nr out ++ s'.left todo nr = s.left todo nr
  merged : ∀ left fs, Merged left fs → (∀ nr, samplesOfQueue nr fs ++ left nr = s'.left todo nr) →
    Merged left (out ++ fs)

lemma Gives.nil (todo : Ptq → List Decoded → List (ℕ × PtState)) (s : Session) : Gives todo s s [] :=
  ⟨fun _ => rfl, fun _ _ h _ => h⟩

lemma Gives.append {s'' : Session} {out out' : List Event} (h : Gives todo s s' out)
    (h' : Gives todo s' s'' out') : Gives todo s s'' (out ++ out') where
  kept nr := by rw [samplesOfQueue_append, List.append_assoc, h'.kept, h.kept]
  merged left fs hfs hleft := by
    rw [List.append_assoc]
    refine h.merged left _ (h'.merged left fs hfs hleft) fun nr => ?_
    rw [samplesOfQueue_append, List.append_assoc, hleft, h'.kept]

lemma Session.left_of_ne {nr nr' : ℕ} (hne : nr ≠ nr') (heap : AuxtraceHeap) (queue : Queue) :
    Session.left todo ⟨heap, update s.queueArray nr' queue⟩ nr = s.left todo nr := by
  rw [left, left]
  dsimp only
  rw [update_of_ne hne]

lemma Session.Ready.round_le (h : s.Ready Inv todo) (hd : Decoding pt Inv todo) (timestamp : ℕ)
    (htop : s.heap.top? = some item) {x : ℕ × PtState}
    (hx : x ∈ samplesOf (runDecoder pt item.queueNr (runLimit s.heap.pop timestamp) 0
      (s.queueArray item.queueNr).ptq (s.queueArray item.queueNr).input).events) {j : ℕ} (hj : j ≠ item.queueNr)
    {y : ℕ × PtState} (hy : y ∈ (s.left todo j).head?) : x.1 ≤ y.1 := by
  have hinv := h.item item (h.top htop)
  obtain ⟨hvpop, -, hleast⟩ := h.valid.pop htop
  obtain ⟨z, hz, rfl, hzy⟩ := h.floor_le_left hd hy
  refine le_trans ?_ hzy
  rcases (hd.run hinv item.queueNr (runLimit s.heap.pop timestamp)).early x hx with hlt | hpend
  · have hpop : z ∈ s.heap.pop.items := by
      have hz' := hz
      rw [(h.valid.pop htop).2.1] at hz'
      rcases Multiset.mem_cons.mp hz' with rfl | hz'
      · exact absurd rfl hj
      · exact hz'
    have hle := runLimit_le_item hvpop timestamp hpop
    omega
  · rw [(Ptq.mem_pending hpend).2, hd.clock hinv]
    exact hleast z hz

lemma Session.Ready.gives (h : s.Ready Inv todo) (hd : Decoding pt Inv todo)
    (htop : s.heap.top? = some item) (heap : AuxtraceHeap) {r : DecoderRun}
    (hr : runDecoder pt item.queueNr (runLimit s.heap.pop timestamp) 0 (s.queueArray item.queueNr).ptq
      (s.queueArray item.queueNr).input = r) :
    Gives todo s ⟨heap, update s.queueArray item.queueNr ⟨r.ptq, r.input⟩⟩ r.events := by
  have hspec := hd.run (h.item item (h.top htop)) item.queueNr (runLimit s.heap.pop timestamp)
  have hqueue := runDecoder_queueNr pt item.queueNr (runLimit s.heap.pop timestamp) 0
    (s.queueArray item.queueNr).ptq (s.queueArray item.queueNr).input
  have hround := fun x hx j hj y hy => h.round_le hd timestamp htop (x := x) hx (j := j) hj (y := y) hy
  rw [hr] at hspec hqueue hround
  constructor
  · intro nr
    by_cases hnr : nr = item.queueNr
    · rw [hnr, samplesOfQueue_self hqueue, left, left]
      dsimp only
      rw [update_self]
      exact hspec.kept
    · rw [samplesOfQueue_ne hqueue hnr, List.nil_append, left_of_ne hnr]
  · intro left fs hfs hleft
    refine hfs.append hqueue fun x hx j hj y hy => ?_
    rw [hleft, left_of_ne hj] at hy
    exact hround x hx j hj y hy

lemma Session.Ready.item_of_ne (h : s.Ready Inv todo) (htop : s.heap.top? = some item) {y : HeapItem}
    (hy : y ∈ s.heap.pop.items) (queue : Queue) :
    Inv y.ordinal (update s.queueArray item.queueNr queue y.queueNr).ptq
      (update s.queueArray item.queueNr queue y.queueNr).input := by
  rw [update_of_ne (h.pop_ne htop hy)]
  exact h.item y (h.mem_pop htop hy)

lemma Session.Ready.off_of_ne (h : s.Ready Inv todo) (htop : s.heap.top? = some item) {nr : ℕ}
    (hne : nr ≠ item.queueNr) (hnot : nr ∉ s.heap.pop.queues) (heap : AuxtraceHeap) (queue : Queue) :
    Session.left todo ⟨heap, update s.queueArray item.queueNr queue⟩ nr = [] := by
  rw [left_of_ne hne]
  exact h.off nr fun hmem => hnot ((h.mem_queues htop hne).mp hmem)

lemma Session.Ready.processQueue (h : s.Ready Inv todo) (hd : Decoding pt Inv todo) (timestamp : ℕ)
    (htop : s.heap.top? = some item) :
    ∃ s' out, processQueue pt timestamp s item = .ok (s', out) ∧ s'.Ready Inv todo ∧ Gives todo s s' out ∧
      s'.work < s.work := by
  have hspec := hd.run (h.item item (h.top htop)) item.queueNr (runLimit s.heap.pop timestamp)
  obtain ⟨hvpop, -, -⟩ := h.valid.pop htop
  have hnot := h.not_mem_pop htop
  generalize hr : runDecoder pt item.queueNr (runLimit s.heap.pop timestamp) 0
    (s.queueArray item.queueNr).ptq (s.queueArray item.queueNr).input = r at hspec
  have hself : update s.queueArray item.queueNr ⟨r.ptq, r.input⟩ item.queueNr = ⟨r.ptq, r.input⟩ :=
    update_self _ _ _
  have hwork := Session.work_pop h htop ⟨r.ptq, r.input⟩
  rw [Decode.processQueue, hr]
  cases hfin : r.finished with
  | true =>
    refine ⟨⟨s.heap.pop, _⟩, r.events, rfl, ⟨hvpop, fun y hy => h.small y (h.mem_pop htop hy),
      fun y hy => h.item_of_ne htop hy _, fun nr hnr => ?_⟩, h.gives hd htop _ hr, ?_⟩
    · by_cases heq : nr = item.queueNr
      · rw [heq, left]
        dsimp only
        rw [hself]
        exact hspec.done hfin
      · exact h.off_of_ne htop heq hnr _ _
    · rw [hwork]
      exact Nat.lt_add_of_pos_left (Nat.succ_pos _)
  | false =>
    obtain ⟨hle, hinv, hlen⟩ := hspec.ready hfin
    obtain ⟨heap, hadd, hvadd, hadded⟩ := hvpop.add hnot (h.small item (h.top htop)) r.timestamp
    have hqueues : heap.queues = item.queueNr ::ₘ s.heap.pop.queues := by
      rw [AuxtraceHeap.queues, hadded, Multiset.map_cons]
      rfl
    refine ⟨⟨heap, update s.queueArray item.queueNr ⟨r.ptq, r.input⟩⟩, r.events, ?_,
      ⟨hvadd, fun y hy => ?_, fun y hy => ?_, fun nr hnr => ?_⟩, h.gives hd htop _ hr, ?_⟩
    · rw [if_neg Bool.false_ne_true, hadd]
      rfl
    · dsimp only at hy
      rw [hadded] at hy
      rcases Multiset.mem_cons.mp hy with rfl | hy
      · exact h.small item (h.top htop)
      · exact h.small y (h.mem_pop htop hy)
    · dsimp only at hy ⊢
      rw [hadded] at hy
      rcases Multiset.mem_cons.mp hy with rfl | hy
      · dsimp only
        rw [hself]
        exact hinv
      · exact h.item_of_ne htop hy _
    · dsimp only at hnr
      rw [hqueues, Multiset.mem_cons, not_or] at hnr
      exact h.off_of_ne htop hnr.1 hnr.2 _ _
    · rw [hwork, work]
      dsimp only
      rw [hadded, Multiset.map_cons, Multiset.sum_cons, hself]
      exact Nat.add_lt_add_right (Nat.succ_lt_succ hlen) _

/-- One call: afterwards no queue on the heap is before `timestamp`, and where none was, nothing is done. -/
lemma Session.Ready.processQueues (hd : Decoding pt Inv todo) (timestamp : ℕ) {fuel : ℕ}
    (h : s.Ready Inv todo) (hfuel : s.work ≤ fuel) :
    ∃ s' out, processQueues pt timestamp fuel s = .ok (s', out) ∧ s'.Ready Inv todo ∧ Gives todo s s' out ∧
      s'.work ≤ s.work ∧ (∀ x ∈ s'.heap.items, timestamp ≤ x.ordinal) ∧
      ((∀ x ∈ s.heap.items, timestamp ≤ x.ordinal) → s' = s) := by
  induction fuel generalizing s with
  | zero =>
    have hnone : s.heap.items = 0 := by
      by_contra hne
      obtain ⟨x, hx⟩ := Multiset.exists_mem_of_ne_zero hne
      have hle := Multiset.single_le_sum (fun _ _ => Nat.zero_le _) _
        (Multiset.mem_map_of_mem (fun x : HeapItem => (s.queueArray x.queueNr).input.length + 1) hx)
      exact absurd (hle.trans hfuel) (by simp)
    refine ⟨s, [], rfl, h, .nil todo s, le_rfl, fun x hx => ?_, fun _ => rfl⟩
    rw [hnone] at hx
    exact absurd hx (Multiset.notMem_zero x)
  | succ fuel ih =>
    rw [Decode.processQueues]
    cases htop : s.heap.top? with
    | none =>
      refine ⟨s, [], rfl, h, .nil todo s, le_rfl, fun x hx => ?_, fun _ => rfl⟩
      rw [AuxtraceHeap.top?_eq_none.mp htop] at hx
      exact absurd hx (Multiset.notMem_zero x)
    | some item =>
      dsimp only
      split_ifs with hle
      · exact ⟨s, [], rfl, h, .nil todo s, le_rfl, fun x hx => hle.trans ((h.valid.pop htop).2.2 x hx),
          fun _ => rfl⟩
      · obtain ⟨s₁, out₁, hround, hready, hgives, hwork⟩ := h.processQueue hd timestamp htop
        obtain ⟨s₂, out₂, hrest, hready', hgives', hwork', hpast, -⟩ := ih hready (by omega)
        refine ⟨s₂, out₁ ++ out₂, ?_, hready', hgives.append hgives', by omega, hpast, fun hall => ?_⟩
        · rw [hround, Support.Runs.ok_bind, hrest]
          rfl
        · exact absurd (hall item (h.top htop)) hle

lemma Session.Ready.processAll (hd : Decoding pt Inv todo) {fuel : ℕ} (h : s.Ready Inv todo)
    (hfuel : s.work ≤ fuel) (times : List ℕ) :
    ∃ s' out, processAll pt fuel times s = .ok (s', out) ∧ s'.Ready Inv todo ∧ Gives todo s s' out ∧
      (∀ t ∈ times, ∀ x ∈ s'.heap.items, t ≤ x.ordinal) ∧
      ∀ t, (∀ x ∈ s.heap.items, t ≤ x.ordinal) → ∀ x ∈ s'.heap.items, t ≤ x.ordinal := by
  induction times generalizing s with
  | nil => exact ⟨s, [], rfl, h, .nil todo s, fun t ht => absurd ht List.not_mem_nil, fun _ ht => ht⟩
  | cons timestamp times ih =>
    obtain ⟨s₁, out₁, hcall, hready, hgives, hwork, hpast, hsame⟩ := h.processQueues hd timestamp hfuel
    obtain ⟨s₂, out₂, hrest, hready', hgives', hpast', hkeeps⟩ := ih hready (hwork.trans hfuel)
    refine ⟨s₂, out₁ ++ out₂, ?_, hready', hgives.append hgives', ?_, fun t ht => hkeeps t fun x hx => ?_⟩
    · rw [Decode.processAll, hcall, Support.Runs.ok_bind, hrest]
      rfl
    · rw [List.forall_mem_cons]
      exact ⟨hkeeps timestamp hpast, hpast'⟩
    · -- A call for an earlier time does nothing.
      rcases le_total timestamp t with hle | hle
      · rw [hsame fun y hy => hle.trans (ht y hy)] at hx
        exact ht x hx
      · exact hle.trans (hpast x hx)

end Rounds

section Setup

variable {pt : IntelPt} {Inv : ℕ → Ptq → List Decoded → Prop}
  {todo : Ptq → List Decoded → List (ℕ × PtState)} {input : List Decoded} {queue : Queue}

lemma firstTimed_eq_some {s : PtState} {rest : List Decoded} (h : firstTimed input = some (s, rest)) :
    (∃ pre, input = pre ++ .state s :: rest) ∧ s.timestamp ≠ 0 := by
  induction input with
  | nil => cases h
  | cons d input ih =>
    cases d with
    | error est fromIp =>
      obtain ⟨⟨pre, hpre⟩, htimed⟩ := ih h
      exact ⟨⟨.error est fromIp :: pre, by rw [hpre, List.cons_append]⟩, htimed⟩
    | state s' =>
      rw [firstTimed] at h
      split_ifs at h with htimed
      · cases h
        exact ⟨⟨[], rfl⟩, htimed⟩
      · obtain ⟨⟨pre, hpre⟩, htimed⟩ := ih h
        exact ⟨⟨.state s' :: pre, by rw [hpre, List.cons_append]⟩, htimed⟩

def started (pt : IntelPt) (todo : Ptq → List Decoded → List (ℕ × PtState)) (input : List Decoded) :
    List (ℕ × PtState) :=
  (setupQueue pt input).elim [] fun queue => todo queue.ptq queue.input

@[simp] lemma started_nil (pt : IntelPt) (todo : Ptq → List Decoded → List (ℕ × PtState)) :
    started pt todo [] = [] := by
  simp [started, setupQueue, firstTimed]

/-- A queue that is not on the heap yet is set up. -/
lemma Session.Ready.add {s : Session} (h : s.Ready Inv todo) {nr : ℕ} (hnot : nr ∉ s.heap.queues)
    (hnr : nr < 2 ^ 31) (hinv : Inv queue.ptq.timestamp queue.ptq queue.input) :
    ∃ heap, s.heap.add nr queue.ptq.timestamp = .ok heap ∧ heap.queues = nr ::ₘ s.heap.queues ∧
      Session.Ready Inv todo ⟨heap, update s.queueArray nr queue⟩ := by
  obtain ⟨heap, hadd, hvalid, hadded⟩ := h.valid.add hnot hnr queue.ptq.timestamp
  have hqueues : heap.queues = nr ::ₘ s.heap.queues := by
    rw [AuxtraceHeap.queues, hadded, Multiset.map_cons]
    rfl
  refine ⟨heap, hadd, hqueues, hvalid, fun y hy => ?_, fun y hy => ?_, fun n hn => ?_⟩
  · dsimp only at hy
    rw [hadded] at hy
    rcases Multiset.mem_cons.mp hy with rfl | hy
    · exact hnr
    · exact h.small y hy
  · dsimp only at hy ⊢
    rw [hadded] at hy
    rcases Multiset.mem_cons.mp hy with rfl | hy
    · dsimp only
      rw [update_self]
      exact hinv
    · have hne : y.queueNr ≠ nr := fun heq => hnot (heq ▸ Multiset.mem_map_of_mem _ hy)
      rw [update_of_ne hne]
      exact h.item y hy
  · dsimp only at hn
    rw [hqueues, Multiset.mem_cons, not_or] at hn
    rw [Session.left_of_ne hn.1]
    exact h.off n hn.2

/-- The queues set up so far come before `nr`. -/
lemma setupQueues_ready (nr : ℕ) (inputs : List (List Decoded)) {s : Session}
    (h : s.Ready Inv todo)
    (hin : ∀ input ∈ inputs, ∀ queue, setupQueue pt input = some queue →
      Inv queue.ptq.timestamp queue.ptq queue.input)
    (hbelow : ∀ q ∈ s.heap.queues, q < nr) (hfresh : ∀ i, s.left todo (nr + i) = [])
    (hnr : nr + inputs.length ≤ 2 ^ 31) :
    ∃ s', setupQueues pt nr inputs s = .ok s' ∧ s'.Ready Inv todo ∧
      (∀ n < nr, s'.left todo n = s.left todo n) ∧
      ∀ i, s'.left todo (nr + i) = started pt todo (inputs.getD i []) := by
  induction inputs generalizing nr s with
  | nil =>
    refine ⟨s, rfl, h, fun _ _ => rfl, fun i => ?_⟩
    rw [hfresh, List.getD_nil, started_nil]
  | cons input inputs ih =>
    rw [List.forall_mem_cons] at hin
    rw [List.length_cons] at hnr
    have hlt : nr < nr + 1 := Nat.lt_succ_self nr
    -- the session `s₁` after this queue, with the others still to come
    suffices hstep : ∃ s₁, setupQueues pt nr (input :: inputs) s = setupQueues pt (nr + 1) inputs s₁ ∧
        s₁.Ready Inv todo ∧ (∀ q ∈ s₁.heap.queues, q < nr + 1) ∧ (∀ n, n ≠ nr → s₁.left todo n = s.left todo n) ∧
        s₁.left todo nr = started pt todo input by
      obtain ⟨s₁, hrun₁, hready₁, hbelow₁, hsame, hthis⟩ := hstep
      obtain ⟨s', hrun, hready, hold, hnew⟩ := ih (nr + 1) hready₁ hin.2 hbelow₁ (fun i => by
        rw [hsame _ (by omega), Nat.add_assoc]
        exact hfresh (1 + i)) (by omega)
      refine ⟨s', hrun₁.trans hrun, hready, fun n hn => ?_, fun i => ?_⟩
      · rw [hold n (hn.trans hlt), hsame n hn.ne]
      · cases i with
        | zero => rw [Nat.add_zero, hold _ hlt, hthis, List.getD_cons_zero]
        | succ i =>
          rw [← Nat.add_assoc, Nat.add_right_comm]
          exact hnew i
    rw [setupQueues]
    cases hset : setupQueue pt input with
    | none =>
      refine ⟨s, rfl, h, fun q hq => (hbelow q hq).trans hlt, fun _ _ => rfl, ?_⟩
      rw [started, hset]
      exact hfresh 0
    | some queue =>
      have hnot : nr ∉ s.heap.queues := fun hmem => absurd (hbelow _ hmem) (lt_irrefl nr)
      obtain ⟨heap, hadd, hqueues, hready⟩ := h.add hnot (by omega) (hin.1 queue hset)
      refine ⟨⟨heap, update s.queueArray nr queue⟩, ?_, hready, fun q hq => ?_, fun n hn => ?_, ?_⟩
      · dsimp only
        rw [hadd]
        rfl
      · dsimp only at hq
        rw [hqueues] at hq
        rcases Multiset.mem_cons.mp hq with rfl | hq
        · exact hlt
        · exact (hbelow q hq).trans hlt
      · rw [Session.left_of_ne hn]
      · rw [Session.left, started, hset]
        dsimp only
        rw [update_self]
        rfl

lemma ready_empty (hidle : todo zeroPtq [] = []) : Session.empty.Ready Inv todo :=
  ⟨AuxtraceHeap.valid_empty, fun x hx => absurd hx (Multiset.notMem_zero x),
    fun x hx => absurd hx (Multiset.notMem_zero x), fun _ _ => hidle⟩

lemma session_gives (hd : Decoding pt Inv todo) {inputs : List (List Decoded)}
    (hin : ∀ input ∈ inputs, ∀ queue, setupQueue pt input = some queue →
      Inv queue.ptq.timestamp queue.ptq queue.input)
    (hlen : inputs.length ≤ 2 ^ 31) (times : List ℕ) :
    ∃ s s' out, setupQueues pt 0 inputs .empty = .ok s ∧ processAll pt s.work times s = .ok (s', out) ∧
      (∀ nr, samplesOfQueue nr out ++ s'.left todo nr = started pt todo (inputs.getD nr [])) ∧
      Merged (s'.left todo) out ∧ ∀ nr, ∀ y ∈ (s'.left todo nr).head?, ∀ t ∈ times, t ≤ y.1 := by
  obtain ⟨s, hset, hready, -, hstarted⟩ := setupQueues_ready 0 inputs (ready_empty hd.idle) hin
    (fun q hq => absurd hq (Multiset.notMem_zero q)) (fun _ => hd.idle) (by omega)
  obtain ⟨s', out, hrun, hready', hgives, hpast, -⟩ := hready.processAll hd le_rfl times
  refine ⟨s, s', out, hset, hrun, fun nr => ?_, ?_, fun nr y hy t ht => ?_⟩
  · have hnr := hstarted nr
    rw [Nat.zero_add] at hnr
    rw [hgives.kept, hnr]
  · have hmerged := hgives.merged (s'.left todo) [] trivial fun _ => rfl
    rwa [List.append_nil] at hmerged
  · obtain ⟨x, hx, -, hle⟩ := hready'.floor_le_left hd hy
    exact (hpast t ht x hx).trans hle

end Setup

section FreeQueues

variable {pt : IntelPt}

lemma decoding_free (pt : IntelPt) : Decoding pt Waiting pt.given where
  clock h := h.clock
  head h _ hx := h.head hx
  idle := rfl
  run h queueNr limit := runDecoder_free pt queueNr limit 0 h.toFree _

/-- The sequence of a queue: its states from the first one with a time on, by the clock of the queue. -/
def IntelPt.sequence (pt : IntelPt) (input : List Decoded) : List (ℕ × PtState) :=
  (firstTimed input).elim [] fun r => (r.1.timestamp, r.1) :: pt.clocked r.1.timestamp r.2

lemma newPtq_of_free (hranges : pt.timeRanges = []) (hsync : pt.syncSwitch = false) :
    newPtq pt = zeroPtq := by
  rw [newPtq, IntelPt.setupTimeRange, hranges, hsync]
  rfl

lemma setupQueue_of_free (hranges : pt.timeRanges = []) (hsync : pt.syncSwitch = false)
    (input : List Decoded) : setupQueue pt input = (firstTimed input).map fun r =>
      ⟨{ zeroPtq with timestamp := r.1.timestamp, state := r.1, haveSample := true }, r.2⟩ := by
  rw [setupQueue, newPtq_of_free hranges hsync]
  rfl

/-- The kernel starts at 100. The estimate of the second state of the first queue is 20, that of its
last state goes back to 9. -/
def estimated : IntelPt where
  estTsc := true
  kernelStart := 100
  synthErrors := true
  timeRanges := []
  fastForward := fun _ _ => 0
  syncSwitch := false
  switchIp := 0
  ptssIp := 0

def estimatedQueues : List (List Decoded) :=
  [[.state ⟨4, 4, 1, 1, 1⟩, .state ⟨6, 20, 200, 2, 1⟩, .state ⟨12, 12, 2, 3, 1⟩, .state ⟨13, 9, 0, 2, 1⟩],
    [.error 3 1, .state ⟨5, 5, 1, 3, 1⟩, .error 7 1, .state ⟨15, 15, 3, 4, 1⟩]]

end FreeQueues

end PtPerf.Decode
