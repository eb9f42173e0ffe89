import PtPerf.Compact.Events
import PtPerf.Script.WorkerCount
import PtPerf.Analysis.Effects

/-! The whole way of the compact path: the workers of `perf script` write a file each, a parse job reads
each file, a thread job puts together and analyses the actions of each thread that has to do with the
target, and the statistics of the threads are merged (`analyze_funcs`). -/

namespace PtPerf.Pipeline

open PtPerf.Support PtPerf.Trace PtPerf.Stats PtPerf.Compact PtPerf.Script PtPerf.Analysis

inductive RunFault
  | read (f : ReadFault)
  | job (f : JobFault)
  | analysis (f : Fault)
  deriving DecidableEq

/-- The actions that `init_action` is called on; `stale` is what the variable held before. -/
def readActions (stale : ℕ → Action) (out : List Delivery) : List Action :=
  out.zipIdx.map fun d => readOver (stale d.2) d.1.action

section Jobs

variable (p : Param) (outOfOrder : Bool) (stale : ℕ → Action)

/-- `ParseJob::exec` with the compact format. -/
def parseFile (content : List UInt8) : Except RunFault Parsed := do
  let r ← (readActionsFromCompactFile stale [] content).mapError .read
  let s ← ((readActions stale r.1).foldlM (Parsed.add p outOfOrder) Parsed.init).mapError .job
  return s.sortActions outOfOrder

def targets (set : List Action) : UInt32 := UInt32.ofNat (set.countP fun a => a.fromTarget || a.toTarget)

def hasJob (jobs : List Parsed) (tid : Int32) : Bool := jobs.any fun job => targets (job.parsedActions tid) > 0

/-- `ThreadJob::exec`. -/
def threadStat (jobs : List Parsed) (tid : Int32) : Except RunFault FuncStat := do
  let actions ← (extractActions jobs tid).mapError .job
  (doAnalyze p actions).mapError .analysis

/-- `analyze_funcs`. The jobs of the threads are in an unordered map, which goes through them as in
`order`; `p.timeStart` is the value that `assign_thread_jobs` sets. -/
def analyzeFuncs (files : List (List UInt8)) (order : List Int32) : Except RunFault FuncStat := do
  let jobs ← files.mapM (parseFile p outOfOrder stale)
  let stats ← (order.filter (hasJob jobs)).mapM (threadStat p jobs)
  return stats.foldl FuncStat.merge FuncStat.new

end Jobs

/-! What the trace itself says. -/

def actionOf : Event → Action
  | .sample x =>
    { (default : Action) with
      ptType := ptActionTypeBranch, type := .ofCode x.flag, tid := x.tid.toInt32, ts := x.time
      fromSym := x.src.symbol, toSym := x.dst.symbol }
  | .error r =>
    { (default : Action) with
      ptType := ptActionTypeError, isError := true, tid := r.tid.toInt32, ts := r.ts }

def eventActions (p : Param) (events : List Event) : List Action :=
  (events.filter Event.relevant).filterMap fun e => initAction p (actionOf e)

def threadActions (p : Param) (events : List Event) (tid : Int32) : List Action :=
  Merge.sort timeOf (ofThread tid (eventActions p events))

/-- The threads that enter, leave or call from the target. -/
def targetThreads (p : Param) (events : List Event) : Finset Int32 :=
  (((eventActions p events).filter fun a => !a.isError && (a.fromTarget || a.toTarget)).map Action.tid).toFinset

def TraceStatistics (p : Param) (events : List Event) (t : Tally) : Prop :=
  ∃ stats : Int32 → FuncStat,
    (∀ tid ∈ targetThreads p events, doAnalyze p (threadActions p events tid) = .ok (stats tid)) ∧
      t = ∑ tid ∈ targetThreads p events, (stats tid).toTally

/-- What the workers print, and that it can be written and read. -/
structure Printed (runs : List (List Event)) (files : List File) : Prop where
  printed : List.Forall₂ (fun events f => ∃ s, printEvents events = .ok (s, f)) runs files
  small : ∀ f ∈ files, f.content.length < 2 ^ 32
  symbols : ∀ events ∈ runs, Resolvable (Mentioned events)
  ordered : ∀ events ∈ runs, ∀ tid,
    (events.filter fun e => !e.isError && e.tid == tid).Pairwise fun e e' => e.time ≤ e'.time
  apart : ∀ events ∈ runs, ∀ e ∈ events, ∀ e' ∈ events, e.tid = e'.tid → e.isError = false →
    e'.isError = true → e.time ≠ e'.time
  times : ∀ e ∈ runs.flatten, e.time < uint64Max
  few : runs.flatten.length < 2 ^ 32

section Analysis

variable {p : Param}

/-- Without a range for the latency of the ancestor, a round does not look at the actions to come. -/
def LooksAhead (p : Param) : Prop := p.ancestor ≠ [] ∧ p.ancestorLatency ≠ (0, uint64Max)

lemma step_rest (h : ¬ LooksAhead p) (s : State) (a : Action) (rest rest' : List Action) :
    step p s a rest = step p s a rest' := by
  have hancestor : p.ancestor != [] → ancestorStep p s a rest = ancestorStep p s a rest' := by
    intro hne
    have hrange : p.ancestorLatency = (0, uint64Max) := by
      by_contra hr
      exact h ⟨by simpa using hne, hr⟩
    simp [ancestorStep, withinAncestorLatency, hrange]
  rw [step, step]
  split_ifs with _ _ hanc
  · rfl
  · rfl
  · rw [hancestor (Bool.and_eq_true _ _ ▸ hanc).1]
  · rfl
  · rfl
  · rfl

lemma step_settled (s : State) (a : Action) (rest : List Action) :
    step p s (settled a) rest = step p s a rest := by
  cases ha : a.isError with
  | false => rw [settled, ha, if_neg Bool.false_ne_true]
  | true =>
    have hset : (settled a).isError = true := by
      rw [settled, ha, if_pos rfl, (readOver_keeps default a).1, ha]
    rw [step, step, ha, hset, if_pos rfl, if_pos rfl]

/-- What else a trace error holds makes no difference. -/
lemma doAnalyze_settled (h : ¬ LooksAhead p) (xs : List Action) :
    doAnalyze p (xs.map settled) = doAnalyze p xs := by
  have hloop : ∀ sk : State × FuncStat,
      Runs.loop (Runs.feeding (step p) (perform p.statOption)) sk (xs.map settled) =
        Runs.loop (Runs.feeding (step p) (perform p.statOption)) sk xs := by
    induction xs with
    | nil => exact fun _ => rfl
    | cons a xs ih =>
      intro sk
      rw [List.map_cons, Runs.loop_cons, Runs.loop_cons, Runs.feeding, Runs.feeding, step_settled,
        step_rest h sk.1 a (xs.map settled) xs]
      exact congrArg _ (funext ih)
  rw [doAnalyze, doAnalyze, hloop]

lemma foldl_merge (stat : FuncStat) (stats : List FuncStat) :
    (stats.foldl FuncStat.merge stat).toTally = stat.toTally + (stats.map FuncStat.toTally).sum := by
  induction stats generalizing stat with
  | nil => exact (add_zero _).symm
  | cons stat' stats ih =>
    rw [List.foldl_cons, ih, List.map_cons, List.sum_cons, ← add_assoc]
    rfl

end Analysis

section Reading

variable {p : Param} {events : List Event} {out : List Delivery} {a : Action}

lemma initAction_of_sample {x : BranchSample} (h : (Event.sample x).Read a) :
    initAction p a = initAction p (actionOf (.sample x)) := by
  obtain ⟨hpt, herr, htid, hts, htype, hsrc, hdst⟩ := h
  cases a
  dsimp only at hpt herr htid hts htype hsrc hdst
  subst hpt herr htid hts htype hsrc hdst
  rw [initAction, initAction, markAction_eq, markAction_eq]
  rfl

lemma kept_of_read {e : Event} (h : e.Read a) (old : Action) :
    (initAction p (readOver old a)).map settled = initAction p (actionOf e) := by
  cases e with
  | sample x =>
    rw [initAction_readOver old h.2.1, initAction_of_sample h]
    cases hinit : initAction p (actionOf (.sample x)) with
    | none => rfl
    | some b =>
      have herr : b.isError = false := (initAction_keeps hinit).1
      rw [Option.map_some, settled, herr, if_neg Bool.false_ne_true]
  | error r =>
    obtain ⟨hpt, herr, htid, hts⟩ := h
    rw [readOver, herr, if_pos rfl, hpt, htid, hts]
    rfl

lemma decodeToActions_read (stale : ℕ → Action)
    (h : List.Forall₂ (fun e d => e.Read d.action) (events.filter Event.relevant) (out.filter Delivery.looked)) :
    (decodeToActions p (readActions stale out)).map settled = eventActions p events := by
  have hlooked : decodeToActions p (readActions stale out) =
      (out.zipIdx.filter fun d => d.1.looked).filterMap fun d =>
        initAction p (readOver (stale d.2) d.1.action) := by
    rw [decodeToActions, readActions, List.filterMap_map, List.filterMap_filter]
    congr 1
    funext d
    rw [Function.comp_apply]
    split
    · rfl
    · rename_i hnot
      have hpt : (readOver (stale d.2) d.1.action).ptType = d.1.action.ptType := by
        rw [readOver]
        split <;> rfl
      rw [initAction, hpt, if_pos]
      simpa [Delivery.looked] using hnot
  have hfst : (out.zipIdx.filter fun d => d.1.looked).map Prod.fst = out.filter Delivery.looked := by
    have hmap := List.filter_map (f := Prod.fst) (p := Delivery.looked) (l := out.zipIdx)
    rw [List.zipIdx_map_fst] at hmap
    exact hmap.symm
  rw [← hfst, List.forall₂_map_right_iff] at h
  rw [hlooked]
  exact filterMap_of_forall₂ h fun e d hd => kept_of_read hd (stale d.2)

lemma mem_eventActions (h : a ∈ eventActions p events) :
    ∃ e ∈ events, a.tid = e.tid ∧ a.ts = e.time ∧ a.isError = e.isError := by
  obtain ⟨e, he, hinit⟩ := List.mem_filterMap.mp h
  obtain ⟨herr, htid, hts⟩ := initAction_keeps hinit
  refine ⟨e, (List.mem_filter.mp he).1, htid.trans ?_, hts.trans ?_, herr.trans ?_⟩ <;> cases e <;> rfl

lemma eventActions_append (xs ys : List Event) :
    eventActions p (xs ++ ys) = eventActions p xs ++ eventActions p ys := by
  rw [eventActions, List.filter_append, List.filterMap_append]
  rfl

lemma length_eventActions_le : (eventActions p events).length ≤ events.length :=
  (List.length_filterMap_le _ _).trans (List.length_filter_le _ _)

end Reading

section Settled

variable {acts : List Action} {tid : Int32}

lemma settled_isError (a : Action) : (settled a).isError = a.isError := by
  rw [settled]
  split
  · exact (readOver_keeps default a).1
  · rfl

lemma isBranchOf_settled (a : Action) : isBranchOf tid (settled a) = isBranchOf tid a := by
  rw [isBranchOf, isBranchOf, settled_isError, (settled_keeps a).1]

lemma settled_of_branch {a : Action} (h : isBranchOf tid a = true) : settled a = a := by
  have herr : a.isError = false := by
    rw [isBranchOf, Bool.and_eq_true] at h
    simpa using h.1
  rw [settled, herr, if_neg Bool.false_ne_true]

lemma filter_branch_settled (acts : List Action) :
    (acts.map settled).filter (isBranchOf tid) = acts.filter (isBranchOf tid) := by
  rw [List.filter_map]
  have hcomp : isBranchOf tid ∘ settled = isBranchOf tid := funext isBranchOf_settled
  rw [hcomp]
  refine (List.map_congr_left fun a ha => ?_).trans (List.map_id _)
  exact settled_of_branch (List.mem_filter.mp ha).2

lemma apart_of_settled (h : Apart (acts.map settled)) : Apart acts := by
  intro a ha b hb htid herr herr' htime
  refine h _ (List.mem_map_of_mem ha) _ (List.mem_map_of_mem hb) ?_ ?_ ?_ ?_
  · rw [(settled_keeps a).1, (settled_keeps b).1, htid]
  · rw [settled_isError, herr]
  · rw [settled_isError, herr']
  · rw [(settled_keeps a).2, (settled_keeps b).2, htime]

end Settled

section Parsing

variable {p : Param} (outOfOrder : Bool) (stale : ℕ → Action) {events : List Event} {acts : List Action}
  {runs : List (List Event)} {files : List File}

lemma eventActions_sorted (h : ∀ tid, (events.filter fun e => !e.isError && e.tid == tid).Pairwise fun e e' =>
      e.time ≤ e'.time) (tid : Int32) :
    Merge.KeySorted timeOf ((eventActions p events).filter (isBranchOf tid)) := by
  rw [Merge.KeySorted, List.pairwise_filter, eventActions, List.pairwise_filterMap, List.pairwise_filter]
  refine (List.pairwise_filter.mp (h tid)).imp ?_
  intro e e' hle _ _ a ha a' ha' hbranch hbranch'
  have hof : ∀ {e : Event} {a : Action}, initAction p (actionOf e) = some a → isBranchOf tid a = true →
      (!e.isError && e.tid == tid) = true ∧ a.ts = e.time := by
    intro e a ha hbranch
    obtain ⟨herr, htid, hts⟩ := initAction_keeps ha
    rw [isBranchOf, herr, htid] at hbranch
    cases e with
    | sample x => exact ⟨hbranch, hts⟩
    | error r => exact ⟨hbranch, hts⟩
  obtain ⟨hpos, hts⟩ := hof ha hbranch
  obtain ⟨hpos', hts'⟩ := hof ha' hbranch'
  rw [timeOf, timeOf, hts, hts', ← UInt64.le_iff_toNat_le]
  exact hle hpos hpos'

lemma eventActions_apart (h : ∀ e ∈ events, ∀ e' ∈ events, e.tid = e'.tid → e.isError = false →
      e'.isError = true → e.time ≠ e'.time) : Apart (eventActions p events) := by
  intro a ha b hb htid herr herr' htime
  obtain ⟨e, he, htid₁, hts₁, herr₁⟩ := mem_eventActions ha
  obtain ⟨e', he', htid₂, hts₂, herr₂⟩ := mem_eventActions hb
  refine h e he e' he' (htid₁.symm.trans (htid.trans htid₂)) (herr₁.symm.trans herr)
    (herr₂.symm.trans herr') ?_
  rw [timeOf, timeOf, UInt64.toNat_inj, hts₁, hts₂] at htime
  exact htime

lemma foldlM_add {bs : List Action} {s : Parsed}
    (hs : Collected (fun _ => True) acts s)
    (hord : ∀ tid, Merge.KeySorted timeOf ((acts ++ decodeToActions p bs).filter (isBranchOf tid))) :
    ∃ s', bs.foldlM (Parsed.add p outOfOrder) s = .ok s' ∧
      Collected (fun _ => True) (acts ++ decodeToActions p bs) s' := by
  induction bs generalizing acts s with
  | nil => exact ⟨s, rfl, by rwa [decodeToActions, List.filterMap_nil, List.append_nil]⟩
  | cons b bs ih =>
    have hcons : acts ++ decodeToActions p (b :: bs) =
        (acts ++ (initAction p b).toList) ++ decodeToActions p bs := by
      rw [decodeToActions, List.filterMap_cons, List.append_assoc]
      cases initAction p b <;> rfl
    rw [hcons] at hord ⊢
    have hfirst : ∀ c, initAction p b = some c →
        Merge.KeySorted timeOf ((acts ++ [c]).filter (isBranchOf c.tid)) := by
      intro c hc
      rw [hc] at hord
      refine (hord c.tid).sublist (List.Sublist.filter _ ?_)
      exact List.sublist_append_left _ _
    obtain ⟨s₁, hadd, hs₁⟩ := hs.add outOfOrder hfirst
    obtain ⟨s₂, hrest, hs₂⟩ := ih hs₁ hord
    exact ⟨s₂, by rw [List.foldlM_cons, hadd]; exact hrest, hs₂⟩

/-- What a parse job has taken in, and that it is what the events of its file say. -/
structure Took (p : Param) (events : List Event) (acts : List Action) (s : Parsed) : Prop where
  collected : Collected (fun _ => True) acts s
  settled : acts.map settled = eventActions p events
  sorted : ∀ tid, Merge.KeySorted timeOf (acts.filter (isBranchOf tid))
  apart : Apart acts

lemma parseFile_eq {s : SymbolWriter} {f : File} (hprint : printEvents events = .ok (s, f))
    (hlen : f.content.length < 2 ^ 32) (hres : Resolvable (Mentioned events))
    (hord : ∀ tid, (events.filter fun e => !e.isError && e.tid == tid).Pairwise fun e e' => e.time ≤ e'.time)
    (hapart : ∀ e ∈ events, ∀ e' ∈ events, e.tid = e'.tid → e.isError = false →
      e'.isError = true → e.time ≠ e'.time) :
    ∃ acts job, parseFile p outOfOrder stale f.content = .ok (job.sortActions outOfOrder) ∧
      Took p events acts job := by
  obtain ⟨out, table, hread, hevents⟩ := read_printed hprint hlen hres stale
  have hsettled := decodeToActions_read (p := p) stale hevents
  have hsorted : ∀ tid, Merge.KeySorted timeOf
      ((decodeToActions p (readActions stale out)).filter (isBranchOf tid)) := by
    intro tid
    rw [← filter_branch_settled, hsettled]
    exact eventActions_sorted hord tid
  obtain ⟨job, hadd, hjob⟩ := foldlM_add outOfOrder Script.collected_init hsorted
  refine ⟨_, job, ?_, hjob, hsettled, hsorted, apart_of_settled ?_⟩
  · rw [parseFile, hread]
    simp only [Except.mapError, Runs.ok_bind, hadd]
    rfl
  · rw [List.nil_append, hsettled]
    exact eventActions_apart hapart

lemma parseFiles (h : Printed runs files) :
    ∃ parts jobs, (files.map File.content).mapM (parseFile p outOfOrder stale) =
        .ok (jobs.map (Parsed.sortActions outOfOrder)) ∧
      List.Forall₂ (Collected fun _ => True) parts jobs ∧ (∀ part ∈ parts, Apart part) ∧
      (∀ part ∈ parts, ∀ tid, Merge.KeySorted timeOf (part.filter (isBranchOf tid))) ∧
      parts.flatten.map settled = eventActions p runs.flatten := by
  obtain ⟨hprinted, hsmall, hsymbols, hordered, hapart, -, -⟩ := h
  induction hprinted with
  | nil => exact ⟨[], [], rfl, .nil, fun _ h => absurd h List.not_mem_nil, fun _ h => absurd h List.not_mem_nil, rfl⟩
  | @cons events f runs files hprint _ ih =>
    rw [List.forall_mem_cons] at hsmall hsymbols hordered hapart
    obtain ⟨s, hprint⟩ := hprint
    obtain ⟨acts, job, hparse, htook⟩ := parseFile_eq (p := p) outOfOrder stale
      hprint hsmall.1 hsymbols.1 hordered.1 hapart.1
    obtain ⟨parts, jobs, hjobs, hcollected, haparts, hsorted, hflat⟩ :=
      ih hsmall.2 hsymbols.2 hordered.2 hapart.2
    refine ⟨acts :: parts, job :: jobs, ?_, .cons htook.collected hcollected,
      List.forall_mem_cons.mpr ⟨htook.apart, haparts⟩, List.forall_mem_cons.mpr ⟨htook.sorted, hsorted⟩, ?_⟩
    · rw [List.map_cons, List.mapM_cons, hparse, hjobs]
      rfl
    · rw [List.flatten_cons, List.map_append, htook.settled, hflat, List.flatten_cons, eventActions_append]

end Parsing

section Threads

variable {p : Param} (outOfOrder : Bool) (stale : ℕ → Action) {events : List Event} {parts : List (List Action)}
  {jobs : List Parsed}

lemma extract_eq (hcollected : List.Forall₂ (Collected fun _ => True) parts jobs)
    (hapart : ∀ part ∈ parts, Apart part)
    (hsorted : ∀ part ∈ parts, ∀ tid, Merge.KeySorted timeOf (part.filter (isBranchOf tid)))
    (hflat : parts.flatten.map settled = eventActions p events) (hfew : events.length < 2 ^ 32)
    (htimes : ∀ e ∈ events, e.time < uint64Max) (tid : Int32) :
    ∃ actions, extractActions (jobs.map (Parsed.sortActions outOfOrder)) tid = .ok actions ∧
      actions.map settled = threadActions p events tid := by
  have hlen : parts.flatten.length < 2 ^ 32 := by
    rw [← List.length_map (f := settled), hflat]
    exact length_eventActions_le.trans_lt hfew
  rw [extractActions_eq outOfOrder tid hapart (fun part hpart => hsorted part hpart tid) hlen hcollected]
  have hordered := ordered_settled parts.flatten tid
  rw [hflat, ordered, ordered, if_pos (c := ∀ a ∈ ofThread tid (eventActions p events), _)] at hordered
  · obtain ⟨actions, hok, hmap⟩ := Runs.map_eq_ok.mp hordered
    exact ⟨actions, hok, hmap⟩
  · intro a ha
    obtain ⟨e, he, -, hts, -⟩ := mem_eventActions (List.mem_filter.mp ha).1
    rw [timeOf, hts]
    exact UInt64.lt_iff_toNat_lt.mp (htimes e he)

lemma targets_pos {set : List Action} (hlen : set.length < 2 ^ 32) :
    targets set > 0 ↔ ∃ a ∈ set, (a.fromTarget || a.toTarget) = true := by
  have hcount : (targets set).toNat = set.countP fun a => a.fromTarget || a.toTarget :=
    UInt32.toNat_ofNat_of_lt' (List.countP_le_length.trans_lt hlen)
  rw [gt_iff_lt, UInt32.lt_iff_toNat_lt, hcount]
  exact List.countP_pos_iff

lemma mem_sorted {job : Parsed} {a : Action} (tid : Int32) :
    a ∈ (job.sortActions outOfOrder).parsedActions tid ↔ a ∈ job.parsedActions tid := by
  simp only [Parsed.sortActions]
  split
  · exact (Merge.sort_perm _).mem_iff
  · rfl

lemma length_sorted {job : Parsed} (tid : Int32) :
    ((job.sortActions outOfOrder).parsedActions tid).length = (job.parsedActions tid).length := by
  simp only [Parsed.sortActions]
  split
  · exact (Merge.sort_perm _).length_eq
  · rfl

lemma hasJob_iff (hcollected : List.Forall₂ (Collected fun _ => True) parts jobs)
    (hlen : parts.flatten.length < 2 ^ 32) (tid : Int32) :
    hasJob (jobs.map (Parsed.sortActions outOfOrder)) tid = true ↔
      ∃ a ∈ parts.flatten, isBranchOf tid a = true ∧ (a.fromTarget || a.toTarget) = true := by
  rw [hasJob, List.any_map]
  induction hcollected with
  | nil => simp
  | @cons part job parts jobs hjob _ ih =>
    rw [List.flatten_cons, List.length_append] at hlen
    have hshort : ((job.sortActions outOfOrder).parsedActions tid).length < 2 ^ 32 := by
      rw [length_sorted, hjob.parsed]
      exact (List.length_filter_le _ _).trans_lt (by omega)
    have hhead : targets ((job.sortActions outOfOrder).parsedActions tid) > 0 ↔
        ∃ a ∈ part, isBranchOf tid a = true ∧ (a.fromTarget || a.toTarget) = true := by
      rw [targets_pos hshort]
      simp only [mem_sorted, hjob.parsed, List.mem_filter, and_assoc]
    rw [List.any_cons, Bool.or_eq_true, ih (by omega), Function.comp_apply, decide_eq_true_eq, hhead,
      List.flatten_cons]
    simp only [List.mem_append, or_and_right, exists_or]

lemma mem_targetThreads {tid : Int32} (hflat : parts.flatten.map settled = eventActions p events) :
    tid ∈ targetThreads p events ↔
      ∃ a ∈ parts.flatten, isBranchOf tid a = true ∧ (a.fromTarget || a.toTarget) = true := by
  rw [targetThreads, List.mem_toFinset, List.mem_map, ← hflat]
  constructor
  · rintro ⟨a, ha, rfl⟩
    obtain ⟨hmem, htarget⟩ := List.mem_filter.mp ha
    obtain ⟨b, hb, rfl⟩ := List.mem_map.mp hmem
    rw [Bool.and_eq_true] at htarget
    have hbranch : isBranchOf (settled b).tid (settled b) = true := by
      rw [isBranchOf, htarget.1, beq_self_eq_true]
      rfl
    rw [isBranchOf_settled] at hbranch
    rw [settled_of_branch hbranch] at htarget
    exact ⟨b, hb, hbranch, htarget.2⟩
  · rintro ⟨a, ha, hbranch, htarget⟩
    have hsettled := settled_of_branch hbranch
    rw [isBranchOf, Bool.and_eq_true, beq_iff_eq] at hbranch
    refine ⟨a, List.mem_filter.mpr ⟨List.mem_map.mpr ⟨a, ha, hsettled⟩, ?_⟩, hbranch.2⟩
    rw [hbranch.1, htarget]
    rfl

end Threads

section Statistics

variable {p : Param} {events : List Event}

lemma merged_iff {l : List Int32} (hnodup : l.Nodup) (hl : ∀ tid, tid ∈ l ↔ tid ∈ targetThreads p events)
    (t : Tally) :
    (∃ stats, (l.mapM fun tid => (doAnalyze p (threadActions p events tid)).mapError RunFault.analysis) = .ok stats ∧
      (stats.foldl FuncStat.merge FuncStat.new).toTally = t) ↔ TraceStatistics p events t := by
  have hset : l.toFinset = targetThreads p events := by
    ext tid
    rw [List.mem_toFinset, hl]
  have hok : ∀ tid stat, (doAnalyze p (threadActions p events tid)).mapError RunFault.analysis = .ok stat ↔
      doAnalyze p (threadActions p events tid) = .ok stat := by
    intro tid stat
    cases doAnalyze p (threadActions p events tid) <;> simp [Except.mapError]
  constructor
  · rintro ⟨stats, hstats, rfl⟩
    rw [Runs.mapM_eq_ok_iff] at hstats
    refine ⟨fun tid => (doAnalyze p (threadActions p events tid)).toOption.getD FuncStat.new, ?_, ?_⟩
    · intro tid htid
      have hmem := List.mem_map_of_mem (f := fun tid =>
        (doAnalyze p (threadActions p events tid)).mapError RunFault.analysis) ((hl tid).mpr htid)
      rw [hstats] at hmem
      obtain ⟨stat, -, hstat⟩ := List.mem_map.mp hmem
      have hvalue := (hok tid stat).mp hstat.symm
      dsimp only
      rw [hvalue]
      rfl
    · have hvalues : l.map (fun tid =>
          (doAnalyze p (threadActions p events tid)).toOption.getD FuncStat.new) = stats := by
        have hget := congrArg (List.map fun r : Except RunFault FuncStat => r.toOption.getD FuncStat.new) hstats
        rw [List.map_map, List.map_map] at hget
        refine Eq.trans (List.map_congr_left fun tid _ => ?_) (hget.trans (List.map_id _))
        rw [Function.comp_apply]
        cases doAnalyze p (threadActions p events tid) <;> rfl
      rw [foldl_merge, ← hset, List.sum_toFinset _ hnodup, ← hvalues, List.map_map]
      exact zero_add _
  · rintro ⟨stats, hstats, rfl⟩
    refine ⟨l.map stats, ?_, ?_⟩
    · rw [Runs.mapM_eq_ok_iff, List.map_map]
      exact List.map_congr_left fun tid htid => (hok tid _).mpr (hstats tid ((hl tid).mp htid))
    · rw [foldl_merge, ← hset, List.sum_toFinset _ hnodup, List.map_map]
      exact zero_add _

/-- The statistics that come out of the files are those of the trace. -/
lemma analyzeFuncs_iff {runs : List (List Event)} {files : List File} (h : Printed runs files)
    (hlook : ¬ LooksAhead p) (outOfOrder : Bool) (stale : ℕ → Action) {order : List Int32} (hnodup : order.Nodup)
    (hall : ∀ e ∈ runs.flatten, e.tid ∈ order) (t : Tally) :
    (∃ stat, analyzeFuncs p outOfOrder stale (files.map File.content) order = .ok stat ∧ stat.toTally = t) ↔
      TraceStatistics p runs.flatten t := by
  obtain ⟨parts, jobs, hjobs, hcollected, hapart, hsorted, hflat⟩ := parseFiles (p := p) outOfOrder stale h
  have hlen : parts.flatten.length < 2 ^ 32 := by
    rw [← List.length_map (f := settled), hflat]
    exact length_eventActions_le.trans_lt h.few
  have hstat : threadStat p (jobs.map (Parsed.sortActions outOfOrder)) = fun tid =>
      (doAnalyze p (threadActions p runs.flatten tid)).mapError RunFault.analysis := by
    funext tid
    obtain ⟨actions, hok, hmap⟩ := extract_eq outOfOrder hcollected hapart hsorted hflat h.few h.times tid
    rw [threadStat, hok, ← hmap, doAnalyze_settled hlook]
    rfl
  have hthreads : ∀ tid, tid ∈ order.filter (hasJob (jobs.map (Parsed.sortActions outOfOrder))) ↔
      tid ∈ targetThreads p runs.flatten := by
    intro tid
    rw [List.mem_filter, hasJob_iff outOfOrder hcollected hlen, ← mem_targetThreads hflat, and_iff_right_iff_imp]
    intro htid
    rw [targetThreads, List.mem_toFinset] at htid
    obtain ⟨a, ha, rfl⟩ := List.mem_map.mp htid
    obtain ⟨e, he, htid, -⟩ := mem_eventActions (List.mem_filter.mp ha).1
    rw [htid]
    exact hall e he
  rw [← merged_iff (hnodup.filter _) hthreads]
  rw [analyzeFuncs, hjobs, Runs.ok_bind, hstat]
  constructor
  · rintro ⟨stat, hrun, rfl⟩
    obtain ⟨stats, hstats, hret⟩ := Runs.bind_eq_ok.mp hrun
    cases hret
    exact ⟨stats, hstats, rfl⟩
  · rintro ⟨stats, hstats, rfl⟩
    exact ⟨_, by rw [hstats]; rfl, rfl⟩

end Statistics

section Division

variable {p : Param} {events events' : List Event}

lemma ofThread_eventActions (p : Param) (events : List Event) (tid : Int32) :
    ofThread tid (eventActions p events) = eventActions p (events.filter fun e => e.tid == tid) := by
  rw [ofThread, eventActions, eventActions, List.filter_filterMap, List.filter_filter, List.filterMap_filter,
    List.filterMap_filter]
  congr 1
  funext e
  cases hrel : e.relevant with
  | false => simp
  | true =>
    simp only [if_true, Bool.true_and]
    cases hinit : initAction p (actionOf e) with
    | none => simp
    | some a =>
      have htid : a.tid = e.tid := by
        refine (initAction_keeps hinit).2.1.trans ?_
        cases e <;> rfl
      simp [Option.filter, htid]

lemma traceStatistics_congr
    (h : ∀ tid, (events.filter fun e => e.tid == tid) = events'.filter fun e => e.tid == tid) (t : Tally) :
    TraceStatistics p events t ↔ TraceStatistics p events' t := by
  have hof : ∀ tid, ofThread tid (eventActions p events) = ofThread tid (eventActions p events') := by
    intro tid
    rw [ofThread_eventActions, ofThread_eventActions, h]
  have hactions : threadActions p events = threadActions p events' := by
    funext tid
    rw [threadActions, threadActions, hof]
  have hmem : ∀ xs : List Event, ∀ tid, tid ∈ targetThreads p xs ↔
      ∃ a ∈ ofThread tid (eventActions p xs), (!a.isError && (a.fromTarget || a.toTarget)) = true := by
    intro xs tid
    simp only [targetThreads, ofThread, List.mem_toFinset, List.mem_map, List.mem_filter, beq_iff_eq]
    constructor
    · rintro ⟨a, ⟨ha, htarget⟩, htid⟩
      exact ⟨a, ⟨ha, htid⟩, htarget⟩
    · rintro ⟨a, ⟨ha, htid⟩, htarget⟩
      exact ⟨a, ⟨ha, htarget⟩, htid⟩
  have hthreads : targetThreads p events = targetThreads p events' := by
    ext tid
    rw [hmem, hmem, hof]
  rw [TraceStatistics, TraceStatistics, hactions, hthreads]

end Division

section Results

variable {p : Param} {runs runs' : List (List Event)} {files files' : List File} {order order' : List Int32}

namespace Example

def call : Event := .sample (Compact.Sample.callMainTo 10 0x401200 (lit "f"))

def ret : Event :=
  .sample ⟨300, 20, 1, Compact.Sample.place 0x401200 (lit "f"), Compact.Sample.place 0x401100 (lit "main")⟩

def lost : Event := .error ⟨300, 30, 8⟩

def oneWorker : List (List Event) := [[call, ret, lost]]

def twoWorkers : List (List Event) := [[call], [ret, lost]]

def param : Param := .default (lit "f")

end Example

lemma printed_of_lengths (ns : List ℕ)
    (hlengths : runs.map (fun events => (printEvents events).map fun r => r.2.content.length) = ns.map .ok)
    (hsmall : ∀ n ∈ ns, n < 2 ^ 32)
    (hplaces : ∀ events ∈ runs, ∀ pl ∈ events.flatMap Event.places, pl.offset.toNat < 2 ^ 32 ∧
      ∀ pl' ∈ events.flatMap Event.places, pl.lookupAddr.toUInt32 = pl'.lookupAddr.toUInt32 →
        pl.symbol = pl'.symbol)
    (hordered : ∀ events ∈ runs, events.Pairwise fun e e' => e.time < e'.time)
    (htimes : ∀ e ∈ runs.flatten, e.time < uint64Max) (hfew : runs.flatten.length < 2 ^ 32) :
    ∃ files, Printed runs files := by
  have hfiles : ∃ files : List File, List.Forall₂ (fun events f => ∃ s, printEvents events = .ok (s, f)) runs files ∧
      ∀ f ∈ files, f.content.length < 2 ^ 32 := by
    clear hplaces hordered htimes hfew
    induction runs generalizing ns with
    | nil => exact ⟨[], .nil, fun f hf => absurd hf List.not_mem_nil⟩
    | cons events runs ih =>
      cases ns with
      | nil => cases hlengths
      | cons n ns =>
        rw [List.map_cons, List.map_cons, List.cons.injEq] at hlengths
        rw [List.forall_mem_cons] at hsmall
        obtain ⟨⟨s, f⟩, hprint, hlen⟩ := Runs.map_eq_ok.mp hlengths.1
        obtain ⟨files, hfiles, hshort⟩ := ih ns hlengths.2 hsmall.2
        refine ⟨f :: files, .cons ⟨s, hprint⟩ hfiles, List.forall_mem_cons.mpr ⟨?_, hshort⟩⟩
        exact hlen.trans_lt hsmall.1
  obtain ⟨files, hprinted, hshort⟩ := hfiles
  have hmem : ∀ {events : List Event} {pl : Place}, Mentioned events pl → pl ∈ events.flatMap Event.places := by
    rintro events pl ⟨e, he, hpl⟩
    exact List.mem_flatMap.mpr ⟨e, he, hpl⟩
  refine ⟨files, hprinted, hshort, fun events hev => ⟨fun pl hpl => ?_, fun pl pl' hpl hpl' => ?_⟩,
    fun events hev tid => ?_, fun events hev e he e' he' _ herr herr' htime => ?_, htimes, hfew⟩
  · exact (hplaces events hev pl (hmem hpl)).1
  · exact (hplaces events hev pl (hmem hpl)).2 pl' (hmem hpl')
  · exact ((hordered events hev).imp fun h => UInt64.le_of_lt h).sublist List.filter_sublist
  · have hne : e ≠ e' := by
      rintro rfl
      rw [herr] at herr'
      cases herr'
    have hnodup : (events.map Event.time).Nodup :=
      List.pairwise_map.mpr ((hordered events hev).imp fun h => UInt64.ne_of_lt h)
    exact hne (List.inj_on_of_nodup_map hnodup he he' htime)

open Example in
lemma printed_oneWorker : ∃ files, Printed oneWorker files :=
  printed_of_lengths [87] (by decide +kernel) (by decide) (by decide) (by decide) (by decide) (by decide)

open Example in
lemma printed_twoWorkers : ∃ files, Printed twoWorkers files :=
  printed_of_lengths [61, 73] (by decide +kernel) (by decide) (by decide) (by decide) (by decide) (by decide)

/-- Two divisions of a trace among workers that keep the events of each thread in their order give the
same statistics. -/
theorem division_among_workers (h : Printed runs files) (h' : Printed runs' files') (hlook : ¬ LooksAhead p)
    (outOfOrder outOfOrder' : Bool) (stale stale' : ℕ → Action) (hnodup : order.Nodup) (hnodup' : order'.Nodup)
    (hall : ∀ e ∈ runs.flatten, e.tid ∈ order) (hall' : ∀ e ∈ runs'.flatten, e.tid ∈ order')
    (hsame : ∀ tid, (runs.flatten.filter fun e => e.tid == tid) = runs'.flatten.filter fun e => e.tid == tid)
    (t : Tally) :
    (∃ stat, analyzeFuncs p outOfOrder stale (files.map File.content) order = .ok stat ∧ stat.toTally = t) ↔
      ∃ stat, analyzeFuncs p outOfOrder' stale' (files'.map File.content) order' = .ok stat ∧ stat.toTally = t := by
  rw [analyzeFuncs_iff h hlook outOfOrder stale hnodup hall,
    analyzeFuncs_iff h' hlook outOfOrder' stale' hnodup' hall', traceStatistics_congr hsame]

open Example in
theorem division_among_workers_one_two :
    ∃ files files', Printed oneWorker files ∧ Printed twoWorkers files' ∧ ∀ t,
      (∃ stat, analyzeFuncs param false (fun _ => default) (files.map File.content) [300] = .ok stat ∧
        stat.toTally = t) ↔
      ∃ stat, analyzeFuncs param false (fun _ => default) (files'.map File.content) [300] = .ok stat ∧
        stat.toTally = t := by
  obtain ⟨files, h⟩ := printed_oneWorker
  obtain ⟨files', h'⟩ := printed_twoWorkers
  exact ⟨files, files', h, h', division_among_workers h h' (fun hlook => hlook.1 rfl) false false _ _ (by decide)
    (by decide) (by decide) (by decide) fun _ => rfl⟩

end Results

end PtPerf.Pipeline
