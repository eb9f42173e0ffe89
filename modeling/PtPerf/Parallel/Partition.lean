import PtPerf.Parallel.Handoff

/-! The division of the auxtrace events among parallel workers. The parent and its children all
run `auxtrace_queues__add_event` over the same events, each on its own copy of the counters. -/

namespace PtPerf.Parallel

structure AuxEvent where
  cpu : UInt32
  tid : UInt32
  size : ℕ
  dataOffset : ℕ
  deriving DecidableEq, Repr

inductive QueueKey
  | cpu (n : UInt32)
  | thread (tid : UInt32)
  deriving DecidableEq, Repr

def uintMax : UInt32 := 0xFFFFFFFF

def AuxEvent.key (e : AuxEvent) : QueueKey :=
  if e.cpu != uintMax then .cpu e.cpu else .thread e.tid

/-- How the work is divided: by event count or by auxtrace size. -/
structure Division where
  byEvents : Bool
  totalEvent : ℕ
  parallelStep : ℕ
  parallelAuxtraceSize : ℕ
  deriving DecidableEq, Repr

structure Process where
  parallelChildPid : ℤ
  parallelFileCount : ℕ
  totalEventAdded : ℕ
  auxtraceSizeAdded : ℕ
  workerPids : List ℤ
  parallelFileOffsetStart : ℕ
  /-- The number of the output file, once stdout is redirected. -/
  outputFile : Option ℕ
  parallelBatch : ℕ
  parallelEventAdded : ℕ
  cpuThreadSize : ℕ
  batchAdd : QueueKey → ℕ
  batch : List AuxEvent
  queued : List AuxEvent

inductive DivisionFault
  | workerPidsIndex
  deriving DecidableEq, Repr

namespace Process

def init (worker : ℕ) : Process where
  parallelChildPid := -1
  parallelFileCount := 0
  totalEventAdded := 0
  auxtraceSizeAdded := 0
  workerPids := List.replicate worker 0
  parallelFileOffsetStart := 0
  outputFile := none
  parallelBatch := 0
  parallelEventAdded := 0
  cpuThreadSize := 0
  batchAdd := fun _ => 0
  batch := []
  queued := []

def inBatch (d : Division) (s : Process) : Bool :=
  if d.byEvents then s.totalEventAdded < s.parallelFileCount * d.parallelStep
  else s.auxtraceSizeAdded < s.parallelFileCount * d.parallelAuxtraceSize

def countInBatch (s : Process) (e : AuxEvent) : Process :=
  { s with
    parallelBatch := s.parallelBatch + 1
    cpuThreadSize := if s.batchAdd e.key = 0 then s.cpuThreadSize + 1 else s.cpuThreadSize
    batchAdd := Function.update s.batchAdd e.key (s.batchAdd e.key + 1)
    batch := s.batch ++ [e] }

def advance (s : Process) (e : AuxEvent) : Process :=
  { s with totalEventAdded := s.totalEventAdded + 1
           auxtraceSizeAdded := s.auxtraceSizeAdded + e.size }

def enqueue (s : Process) (e : AuxEvent) : Process :=
  { s with parallelEventAdded := s.parallelEventAdded + 1, queued := s.queued ++ [e] }

/-- What the process does with the event once it is settled whether a child was forked. -/
def count (d : Division) (s : Process) (inBatch : Bool) (e : AuxEvent) : Process :=
  if s.totalEventAdded = d.totalEvent then s
  else if s.parallelChildPid ≠ 0 then s.advance e
  else if inBatch then ((s.advance e).countInBatch e).enqueue e
  else (s.advance e).enqueue e

/-- The pid that `fork` returns in the parent; only that it is not zero matters. -/
def forkPid (n : ℕ) : ℤ := n + 1

def forkChild (s : Process) (e : AuxEvent) : Process :=
  { s with parallelChildPid := 0
           parallelFileOffsetStart := e.dataOffset
           outputFile := some s.parallelFileCount
           parallelFileCount := s.parallelFileCount + 1 }

def forkParent (s : Process) : Process :=
  { s with parallelChildPid := forkPid s.parallelFileCount
           workerPids := s.workerPids.set s.parallelFileCount (forkPid s.parallelFileCount)
           parallelFileCount := s.parallelFileCount + 1 }

/-- `auxtrace_queues__add_event`: the process afterwards, and the child it forked, if any. -/
def addEvent (d : Division) (s : Process) (e : AuxEvent) :
    Except DivisionFault (Process × Option Process) :=
  if s.parallelChildPid ≠ 0 ∧ s.inBatch d = false ∧ s.totalEventAdded < d.totalEvent then
    if s.parallelFileCount < s.workerPids.length then
      .ok (s.forkParent.count d true e, some ((s.forkChild e).count d true e))
    else .error .workerPidsIndex
  else .ok (s.count d (s.inBatch d) e, none)

end Process

open Process

def follow (d : Division) : Process → List AuxEvent → Except DivisionFault Process
  | c, [] => .ok c
  | c, e :: rest => do
    let r ← addEvent d c e
    follow d r.1 rest

/-- The parent over the events, and all its children in the order they are forked. -/
def processEvents (d : Division) :
    Process → List AuxEvent → Except DivisionFault (Process × List Process)
  | s, [] => .ok (s, [])
  | s, e :: rest => do
    let r ← addEvent d s e
    let child ← r.2.mapM fun c => follow d c rest
    let q ← processEvents d r.1 rest
    return (q.1, child.toList ++ q.2)

/-- A `u64` returned as an `int`. -/
def asInt (n : ℕ) : ℤ := Int.bmod n (2 ^ 32)

/-- `auxtrace_queues__get_auxtrace_size` for an entry of the index. -/
def getAuxtraceSize : Option AuxEvent → ℤ
  | none => 0
  | some e => asInt e.size

/-- The totals of `auxtrace_queues__process_index`. An index entry that is filtered out or is
not an auxtrace event still counts as an event. -/
def divide (worker : ℕ) (byEvents : Bool) (index : List (Option AuxEvent)) : Division where
  byEvents := byEvents
  totalEvent := index.length
  parallelStep := index.length / worker + 1
  parallelAuxtraceSize := (index.map getAuxtraceSize).sum.toNat / worker + 1

def processIndex (worker : ℕ) (byEvents : Bool) (index : List (Option AuxEvent)) :
    Except DivisionFault (Process × List Process) :=
  processEvents (divide worker byEvents index) (Process.init worker) (index.filterMap id)

section Shares

variable (d : Division)

def weight (e : AuxEvent) : ℕ := if d.byEvents then 1 else e.size

def stride : ℕ := if d.byEvents then d.parallelStep else d.parallelAuxtraceSize

def progress (s : Process) : ℕ := if d.byEvents then s.totalEventAdded else s.auxtraceSizeAdded

/-- The events up to the one that finds the limit reached, and those from there on. -/
def share (limit : ℕ) : ℕ → List AuxEvent → List AuxEvent × List AuxEvent
  | _, [] => ([], [])
  | n, e :: rest =>
    if n < limit then (e :: (share limit (n + weight d e) rest).1, (share limit (n + weight d e) rest).2)
    else ([], e :: rest)

variable {d}

lemma share_append (limit n : ℕ) (events : List AuxEvent) :
    (share d limit n events).1 ++ (share d limit n events).2 = events := by
  induction events generalizing n with
  | nil => rfl
  | cons e rest ih =>
    rw [share]
    split
    · exact congrArg (e :: ·) (ih _)
    · rfl

lemma share_of_ge {limit n : ℕ} (h : limit ≤ n) (events : List AuxEvent) :
    share d limit n events = ([], events) := by
  cases events with
  | nil => rfl
  | cons e rest => rw [share, if_neg (not_lt.mpr h)]

lemma inBatch_eq (s : Process) :
    s.inBatch d = decide (progress d s < s.parallelFileCount * stride d) := by
  rw [Process.inBatch, progress, stride]
  cases d.byEvents <;> rfl

end Shares

section Counters

/-- The counters of a process say what it holds. -/
structure Counted (c : Process) : Prop where
  parallelBatch : c.parallelBatch = c.batch.length
  parallelEventAdded : c.parallelEventAdded = c.queued.length
  batchAdd : ∀ key, c.batchAdd key = (c.batch.filter (·.key = key)).length

lemma counted_init (worker : ℕ) : Counted (Process.init worker) := ⟨rfl, rfl, fun _ => rfl⟩

lemma Counted.countInBatch {c : Process} (h : Counted c) (e : AuxEvent) :
    Counted (c.countInBatch e) := by
  refine ⟨?_, h.parallelEventAdded, fun key => ?_⟩
  · change c.parallelBatch + 1 = (c.batch ++ [e]).length
    rw [h.parallelBatch, List.length_append]
    rfl
  · change Function.update c.batchAdd e.key (c.batchAdd e.key + 1) key =
      ((c.batch ++ [e]).filter (·.key = key)).length
    rw [List.filter_append, List.length_append, ← h.batchAdd key]
    by_cases hk : e.key = key
    · subst hk
      simp
    · simp [Function.update_of_ne (Ne.symm hk), hk]

lemma Counted.advance {c : Process} (h : Counted c) (e : AuxEvent) : Counted (c.advance e) :=
  ⟨h.parallelBatch, h.parallelEventAdded, h.batchAdd⟩

lemma Counted.enqueue {c : Process} (h : Counted c) (e : AuxEvent) : Counted (c.enqueue e) := by
  refine ⟨h.parallelBatch, ?_, h.batchAdd⟩
  change c.parallelEventAdded + 1 = (c.queued ++ [e]).length
  rw [h.parallelEventAdded, List.length_append]
  rfl

lemma Counted.count {c : Process} (h : Counted c) (d : Division) (b : Bool) (e : AuxEvent) :
    Counted (c.count d b e) := by
  rw [Process.count]
  split
  · exact h
  · split
    · exact h.advance e
    · split
      · exact ((h.advance e).countInBatch e).enqueue e
      · exact (h.advance e).enqueue e

end Counters

section Run

variable {d : Division}

/-- What counting an event leaves alone, and how far it moves on. -/
structure Counts (d : Division) (e : AuxEvent) (s t : Process) : Prop where
  pid : t.parallelChildPid = s.parallelChildPid
  fileCount : t.parallelFileCount = s.parallelFileCount
  outputFile : t.outputFile = s.outputFile
  workerPids : t.workerPids = s.workerPids
  added : t.totalEventAdded = s.totalEventAdded + 1
  progress : progress d t = progress d s + weight d e

lemma counts_count {s : Process} (h : s.totalEventAdded < d.totalEvent) (b : Bool)
    (e : AuxEvent) : Counts d e s (s.count d b e) := by
  have hprog : (if d.byEvents then s.totalEventAdded + 1 else s.auxtraceSizeAdded + e.size) =
      progress d s + weight d e := by
    rw [progress, weight]
    cases d.byEvents <;> rfl
  rw [Process.count, if_neg (Nat.ne_of_lt h)]
  split
  · exact ⟨rfl, rfl, rfl, rfl, rfl, hprog⟩
  · split <;> exact ⟨rfl, rfl, rfl, rfl, rfl, hprog⟩

lemma queued_count {s : Process} (h : s.totalEventAdded < d.totalEvent)
    (hpid : s.parallelChildPid = 0) (b : Bool) (e : AuxEvent) :
    (s.count d b e).queued = s.queued ++ [e] ∧
      (s.count d b e).batch = if b then s.batch ++ [e] else s.batch := by
  rw [Process.count, if_neg (Nat.ne_of_lt h), if_neg (not_not.mpr hpid)]
  cases b <;> exact ⟨rfl, rfl⟩

lemma follow_ok {c : Process} (events : List AuxEvent) (hpid : c.parallelChildPid = 0)
    (hroom : c.totalEventAdded + events.length ≤ d.totalEvent) (hc : Counted c) :
    ∃ c', follow d c events = .ok c' ∧ c'.outputFile = c.outputFile ∧
      c'.queued = c.queued ++ events ∧ Counted c' ∧
      c'.batch = c.batch ++ (share d (c.parallelFileCount * stride d) (progress d c) events).1 := by
  induction events generalizing c with
  | nil => exact ⟨c, rfl, rfl, (List.append_nil _).symm, hc, (List.append_nil _).symm⟩
  | cons e rest ih =>
    rw [List.length_cons] at hroom
    have hlt : c.totalEventAdded < d.totalEvent := by omega
    have hk := counts_count hlt (c.inBatch d) e
    obtain ⟨hqueued, hbatch⟩ := queued_count hlt hpid (c.inBatch d) e
    have hstep : addEvent d c e = .ok (c.count d (c.inBatch d) e, none) := by
      rw [addEvent, if_neg (fun h => h.1 hpid)]
    obtain ⟨c', hfollow, hfile, hq, hcounted, hb⟩ :=
      ih (hk.pid.trans hpid) (by rw [hk.added]; omega) (hc.count d (c.inBatch d) e)
    refine ⟨c', ?_, hfile.trans hk.outputFile, ?_, hcounted, ?_⟩
    · rw [follow, hstep]
      exact hfollow
    · rw [hq, hqueued, List.append_assoc]
      rfl
    · rw [hb, hbatch, hk.fileCount, hk.progress, inBatch_eq, share]
      by_cases hin : progress d c < c.parallelFileCount * stride d
      · simp [hin]
      · rw [share_of_ge (by omega)]
        simp [hin]

/-- The events left, counted on top of the progress so far, fit the total. -/
structure Fits (d : Division) (s : Process) (events : List AuxEvent) : Prop where
  room : s.totalEventAdded + events.length ≤ d.totalEvent
  load : progress d s + (events.map (weight d)).sum < s.workerPids.length * stride d

lemma Fits.tail {s t : Process} {e : AuxEvent} {rest : List AuxEvent} (h : Fits d s (e :: rest))
    (hadded : t.totalEventAdded = s.totalEventAdded + 1)
    (hprog : progress d t = progress d s + weight d e)
    (hpids : t.workerPids.length = s.workerPids.length) : Fits d t rest := by
  have hroom := h.room
  have hload := h.load
  rw [List.length_cons] at hroom
  rw [List.map_cons, List.sum_cons] at hload
  exact ⟨by omega, by rw [hpids, hprog]; omega⟩

/-- The children of a parent, from its next file on. -/
structure Divides (first worker : ℕ) (events : List AuxEvent) (children : List Process) :
    Prop where
  batches : (children.map Process.batch).flatten = events
  files : first + children.length ≤ worker
  child : ∀ k c, children[k]? = some c → c.outputFile = some (first + k) ∧ Counted c ∧
    c.queued = ((children.drop k).map Process.batch).flatten

lemma Divides.cons {first worker : ℕ} {c : Process} {children : List Process}
    {events : List AuxEvent} (h : Divides (first + 1) worker events children)
    (hfile : c.outputFile = some first) (hc : Counted c) (hq : c.queued = c.batch ++ events) :
    Divides first worker (c.batch ++ events) (c :: children) := by
  refine ⟨?_, ?_, fun k q hk => ?_⟩
  · rw [List.map_cons, List.flatten_cons, h.batches]
  · have hfiles := h.files
    rw [List.length_cons]
    omega
  · cases k with
    | zero =>
      obtain rfl := Option.some.inj hk
      refine ⟨hfile, hc, ?_⟩
      rw [List.drop_zero, List.map_cons, List.flatten_cons, h.batches, hq]
    | succ k =>
      obtain ⟨hf, hcounted, hqueued⟩ := h.child k q hk
      refine ⟨?_, hcounted, hqueued⟩
      rw [hf]
      congr 1
      omega

lemma count_parent {s : Process} (h : s.totalEventAdded < d.totalEvent)
    (hpid : s.parallelChildPid ≠ 0) (b : Bool) (e : AuxEvent) : s.count d b e = s.advance e := by
  rw [Process.count, if_neg (Nat.ne_of_lt h), if_pos hpid]

lemma advance_progress (s : Process) (e : AuxEvent) :
    progress d (s.advance e) = progress d s + weight d e := by
  rw [progress, progress, weight]
  cases d.byEvents <;> rfl

/-- A parent that has queued nothing itself. -/
structure Parent (s : Process) : Prop where
  pid : s.parallelChildPid ≠ 0
  batch : s.batch = []
  queued : s.queued = []
  counted : Counted s
  files : s.parallelFileCount ≤ s.workerPids.length

lemma Parent.advance {s : Process} (h : Parent s) (e : AuxEvent) : Parent (s.advance e) :=
  ⟨h.pid, h.batch, h.queued, h.counted.advance e, h.files⟩

lemma Parent.forkParent {s : Process} (h : Parent s)
    (hlt : s.parallelFileCount < s.workerPids.length) : Parent s.forkParent := by
  refine ⟨?_, h.batch, h.queued,
    ⟨h.counted.parallelBatch, h.counted.parallelEventAdded, h.counted.batchAdd⟩, ?_⟩
  · change forkPid s.parallelFileCount ≠ 0
    rw [forkPid]
    omega
  · change s.parallelFileCount + 1 ≤ (s.workerPids.set _ _).length
    rw [List.length_set]
    exact hlt

lemma Parent.forkChild_ok {s : Process} (h : Parent s) {e : AuxEvent} {rest : List AuxEvent}
    (hroom : s.totalEventAdded + (rest.length + 1) ≤ d.totalEvent) :
    ∃ c, follow d ((s.forkChild e).count d true e) rest = .ok c ∧
      c.outputFile = some s.parallelFileCount ∧ c.queued = e :: rest ∧ Counted c ∧
      c.batch = e :: (share d ((s.parallelFileCount + 1) * stride d)
        (progress d s + weight d e) rest).1 := by
  have hlt : (s.forkChild e).totalEventAdded < d.totalEvent := by
    change s.totalEventAdded < d.totalEvent
    omega
  have hk := counts_count hlt true e
  obtain ⟨hqueued, hbatch⟩ := queued_count hlt rfl true e
  have hcounted : Counted (s.forkChild e) :=
    ⟨h.counted.parallelBatch, h.counted.parallelEventAdded, h.counted.batchAdd⟩
  have hroom' : ((s.forkChild e).count d true e).totalEventAdded + rest.length ≤ d.totalEvent := by
    rw [hk.added]
    change s.totalEventAdded + 1 + rest.length ≤ d.totalEvent
    omega
  obtain ⟨c, hfollow, hfile, hq, hc, hb⟩ := follow_ok rest hk.pid hroom' (hcounted.count d true e)
  refine ⟨c, hfollow, hfile.trans hk.outputFile, ?_, hc, ?_⟩
  · rw [hq, hqueued]
    change s.queued ++ [e] ++ rest = e :: rest
    rw [h.queued]
    rfl
  · rw [hb, hbatch, hk.fileCount, hk.progress]
    change s.batch ++ [e] ++ _ = _
    rw [h.batch]
    rfl

theorem processEvents_ok {s : Process} (events : List AuxEvent) (hs : Parent s)
    (hfits : Fits d s events) :
    ∃ s' children, processEvents d s events = .ok (s', children) ∧
      Divides s.parallelFileCount s.workerPids.length
        (share d (s.parallelFileCount * stride d) (progress d s) events).2 children := by
  induction events generalizing s with
  | nil => exact ⟨s, [], rfl, rfl, hs.files, fun k c hk => by cases hk⟩
  | cons e rest ih =>
    have hroom := hfits.room
    rw [List.length_cons] at hroom
    have hlt : s.totalEventAdded < d.totalEvent := by omega
    by_cases hin : progress d s < s.parallelFileCount * stride d
    · have hstep : addEvent d s e = .ok (s.advance e, none) := by
        rw [addEvent, if_neg (fun h => by simp [inBatch_eq, hin] at h), count_parent hlt hs.pid]
      obtain ⟨s', children, hrun, hdiv⟩ :=
        ih (hs.advance e) (hfits.tail rfl (advance_progress s e) rfl)
      refine ⟨s', children, ?_, ?_⟩
      · rw [processEvents, hstep]
        change (processEvents d (s.advance e) rest >>= _) = _
        rw [hrun]
        rfl
      · rw [share, if_pos hin, ← advance_progress]
        exact hdiv
    · have hnew : s.parallelFileCount < s.workerPids.length := by
        have hload := hfits.load
        apply Nat.lt_of_mul_lt_mul_right (a := stride d)
        omega
      have hparent := hs.forkParent hnew
      have hlt' : s.forkParent.totalEventAdded < d.totalEvent := hlt
      have hstep : addEvent d s e =
          .ok (s.forkParent.advance e, some ((s.forkChild e).count d true e)) := by
        rw [addEvent, if_pos ⟨hs.pid, by simp [inBatch_eq, hin], hlt⟩, if_pos hnew,
          count_parent hlt' hparent.pid]
      have hpids : (s.forkParent.advance e).workerPids.length = s.workerPids.length :=
        List.length_set
      obtain ⟨s', children, hrun, hdiv⟩ :=
        ih (hparent.advance e) (hfits.tail rfl (advance_progress s e) hpids)
      obtain ⟨c, hfollow, hfile, hqueued, hcounted, hbatch⟩ := hs.forkChild_ok (d := d) hroom
      refine ⟨s', c :: children, ?_, ?_⟩
      · rw [processEvents, hstep]
        change ((follow d ((s.forkChild e).count d true e) rest >>= fun c => pure (some c)) >>= _) = _
        rw [hfollow]
        change (processEvents d (s.forkParent.advance e) rest >>= _) = _
        rw [hrun]
        rfl
      · have hsplit := share_append (d := d) ((s.parallelFileCount + 1) * stride d)
          (progress d s + weight d e) rest
        rw [hpids] at hdiv
        have hdiv' : Divides (s.parallelFileCount + 1) s.workerPids.length
            (share d ((s.parallelFileCount + 1) * stride d) (progress d s + weight d e) rest).2
            children := by
          rw [← advance_progress]
          exact hdiv
        have hwhole : c.batch ++ (share d ((s.parallelFileCount + 1) * stride d)
            (progress d s + weight d e) rest).2 = e :: rest := by
          rw [hbatch, List.cons_append, hsplit]
        rw [share_of_ge (not_lt.mp hin), ← hwhole]
        exact hdiv'.cons hfile hcounted (hqueued.trans hwhole.symm)

end Run

section Index

lemma asInt_of_lt {n : ℕ} (h : n < 2 ^ 31) : asInt n = n := by
  have hlow : -(((2 ^ 32 : ℕ) : ℤ) / 2) ≤ (n : ℤ) := by
    norm_num
  have hhigh : (n : ℤ) < (((2 ^ 32 : ℕ) : ℤ) + 1) / 2 := by
    norm_num
    omega
  exact Int.bmod_eq_of_le hlow hhigh

lemma sum_getAuxtraceSize {index : List (Option AuxEvent)}
    (h : ∀ e, some e ∈ index → e.size < 2 ^ 31) :
    (index.map getAuxtraceSize).sum.toNat = ((index.filterMap id).map AuxEvent.size).sum := by
  suffices hsum : (index.map getAuxtraceSize).sum =
      (((index.filterMap id).map AuxEvent.size).sum : ℕ) by
    rw [hsum, Int.toNat_natCast]
  induction index with
  | nil => rfl
  | cons ent index ih =>
    have hrest := ih fun e he => h e (List.mem_cons_of_mem _ he)
    rw [List.map_cons, List.sum_cons, hrest]
    cases ent with
    | none =>
      rw [List.filterMap_cons_none rfl]
      exact zero_add _
    | some e =>
      have hcons : (some e :: index).filterMap id = e :: index.filterMap id := rfl
      rw [hcons, getAuxtraceSize, asInt_of_lt (h e List.mem_cons_self), List.map_cons,
        List.sum_cons, Nat.cast_add]

lemma fits_init {worker : ℕ} (hworker : 0 < worker) (byEvents : Bool)
    {index : List (Option AuxEvent)} (hsize : ∀ e, some e ∈ index → e.size < 2 ^ 31) :
    Fits (divide worker byEvents index) (Process.init worker) (index.filterMap id) := by
  have hlen : (index.filterMap id).length ≤ index.length := List.length_filterMap_le _ _
  refine ⟨(Nat.zero_add _).trans_le hlen, ?_⟩
  have hpids : (Process.init worker).workerPids.length = worker := List.length_replicate
  rw [hpids]
  cases byEvents with
  | true =>
    have hweight : ((index.filterMap id).map (weight (divide worker true index))).sum =
        (index.filterMap id).length := by
      have hone : weight (divide worker true index) = fun _ => 1 := rfl
      rw [hone, List.map_const', List.sum_replicate, smul_eq_mul, mul_one]
    rw [hweight]
    have hbound := Nat.lt_mul_div_succ index.length hworker
    change 0 + _ < worker * (index.length / worker + 1)
    omega
  | false =>
    have hweight : ((index.filterMap id).map (weight (divide worker false index))).sum =
        (index.map getAuxtraceSize).sum.toNat := by
      rw [sum_getAuxtraceSize hsize]
      rfl
    rw [hweight]
    have hbound := Nat.lt_mul_div_succ (index.map getAuxtraceSize).sum.toNat hworker
    change 0 + _ < worker * ((index.map getAuxtraceSize).sum.toNat / worker + 1)
    omega

lemma processIndex_ok {worker : ℕ} (hworker : 0 < worker) (byEvents : Bool)
    {index : List (Option AuxEvent)} (hsize : ∀ e, some e ∈ index → e.size < 2 ^ 31) :
    ∃ parent children, processIndex worker byEvents index = .ok (parent, children) ∧
      Divides 0 worker (index.filterMap id) children := by
  have hparent : Parent (Process.init worker) :=
    ⟨show (-1 : ℤ) ≠ 0 by decide, rfl, rfl, counted_init worker, Nat.zero_le _⟩
  obtain ⟨s, children, hrun, hdiv⟩ :=
    processEvents_ok (index.filterMap id) hparent (fits_init hworker byEvents hsize)
  refine ⟨s, children, hrun, ?_⟩
  have hpids : (Process.init worker).workerPids.length = worker := List.length_replicate
  have hnew : (Process.init worker).parallelFileCount * stride (divide worker byEvents index) ≤
      progress (divide worker byEvents index) (Process.init worker) :=
    (Nat.zero_mul _).trans_le (Nat.zero_le _)
  rw [hpids, share_of_ge hnew] at hdiv
  exact hdiv

end Index

/-- The buffers and the batch count that a child holds for one cpu or thread are those of the
worker on the queue whose batches are the children's events for it. -/
theorem Divides.worker_queue {worker : ℕ} {events : List AuxEvent} {children : List Process}
    (h : Divides 0 worker events children) (perCpu : Bool) (key : QueueKey)
    (data : AuxEvent → Buffer) {k : ℕ} {c : Process} (hk : children[k]? = some c) :
    let batches := children.map fun c => (c.batch.filter (·.key = key)).map data
    (Parallel.worker perCpu batches k).buffers = (c.queued.filter (·.key = key)).map data ∧
      (batchOf batches k).length = c.batchAdd key := by
  obtain ⟨-, hcounted, hqueued⟩ := h.child k c hk
  constructor
  · change ((children.map _).drop k).flatten = _
    rw [hqueued, ← List.map_drop, List.filter_flatten, List.map_flatten, List.map_map, List.map_map]
    rfl
  · rw [batchOf, List.getD_eq_getElem?_getD, List.getElem?_map, hk, hcounted.batchAdd]
    exact List.length_map _

theorem work_division_partition (worker : ℕ) (hworker : 1 < worker) (byEvents : Bool)
    (index : List (Option AuxEvent)) (hsize : ∀ e, some e ∈ index → e.size < 2 ^ 31) :
    ∃ parent children, processIndex worker byEvents index = .ok (parent, children) ∧
      (children.map Process.batch).flatten = index.filterMap id ∧ children.length ≤ worker ∧
        ∀ k c, children[k]? = some c →
          c.outputFile = some k ∧ k < worker ∧ c.parallelBatch = c.batch.length := by
  obtain ⟨parent, children, hrun, hdiv⟩ :=
    processIndex_ok (Nat.zero_lt_of_lt hworker) byEvents hsize
  have hfiles : children.length ≤ worker := by
    have hle := hdiv.files
    omega
  refine ⟨parent, children, hrun, hdiv.batches, hfiles, fun k c hk => ?_⟩
  obtain ⟨hfile, hcounted, -⟩ := hdiv.child k c hk
  obtain ⟨hlt, -⟩ := List.getElem?_eq_some_iff.mp hk
  rw [Nat.zero_add] at hfile
  exact ⟨hfile, hlt.trans_le hfiles, hcounted.parallelBatch⟩

namespace Sample

def unevenIndex : List (Option AuxEvent) :=
  [some ⟨0, 1, 100, 64⟩, none, some ⟨0, 1, 10, 228⟩, some ⟨0, 1, 10, 302⟩]

end Sample

open Sample in
theorem uneven_index_divided :
    ∃ parent children, processIndex 4 false unevenIndex = .ok (parent, children) ∧
      (children.map Process.batch).flatten = unevenIndex.filterMap id ∧ children.length ≤ 4 ∧
        ∀ k c, children[k]? = some c →
          c.outputFile = some k ∧ k < 4 ∧ c.parallelBatch = c.batch.length := by
  refine work_division_partition 4 (by decide) false unevenIndex fun e he => ?_
  simp only [unevenIndex, List.mem_cons, Option.some.injEq, List.not_mem_nil, or_false,
    reduceCtorEq, false_or] at he
  rcases he with rfl | rfl | rfl <;> decide

end PtPerf.Parallel
