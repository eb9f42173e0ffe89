import PtPerf.Analysis.Effects

/-! The statistics of all threads and the report that `print_stat` makes of them. The callers of a
`FuncStat` are in an unordered map; the report goes through it in the order of the map, which depends
on the order in which the callers were entered. -/

namespace PtPerf.Analysis

open PtPerf.Support PtPerf.Trace PtPerf.Stats

/-- Where an unordered map puts a new key among those it has: the library decides. -/
abbrev Placement := List Str → Str → ℕ

def enterKey (place : Placement) (order : List Str) (key : Str) : List Str :=
  if key ∈ order then order else order.insertIdx (min (place order key) order.length) key

/-- A `FuncStat` with the order in which its map of callers is gone through. -/
structure ThreadStat extends FuncStat where
  callerOrder : List Str

/-- The caller that an effect looks up in the map. -/
def Effect.caller? (opt : StatOption) : Effect → Option Str
  | .add call ret _ _ =>
    if !FuncStat.inInterval opt (ret.ts - call.ts) call.ts || (opt.timeline && call.ts ≥ opt.timeStart) then
      none
    else some (FuncStat.callerKey opt call ret)
  | .addUnknownLatency _ caller => some caller
  | .countSched | .addMiss _ | .countAncestorBegin | .countAncestorEnd => none

namespace ThreadStat

def new : ThreadStat := ⟨.new, []⟩

variable (place : Placement)

def perform (opt : StatOption) (s : ThreadStat) (e : Effect) : Except Fault ThreadStat := do
  let stat ← Analysis.perform opt s.toFuncStat e
  return ⟨stat, (e.caller? opt).elim s.callerOrder (enterKey place s.callerOrder)⟩

def merge (a b : ThreadStat) : ThreadStat :=
  ⟨a.toFuncStat.merge b.toFuncStat, b.callerOrder.foldl (enterKey place) a.callerOrder⟩

end ThreadStat

section Print

variable (place : Placement) (opt : StatOption)

def received (es : List Effect) : Except Fault ThreadStat :=
  es.foldlM (ThreadStat.perform place opt) .new

/-- The loop of `print_stat` over the objects of the threads. -/
def merged (threads : List (List Effect)) : Except Fault ThreadStat := do
  let stats ← threads.mapM (received place opt)
  return stats.foldl (ThreadStat.merge place) .new

/-- The parts of a report, each with the figures it shows. -/
inductive Part
  | latency (lat : Latency)
  | sched (count total : UInt64)
  | children (child : Children)
  | callerLatency (caller : Str) (lat : Latency)
  | callerChildren (caller : Str) (child : Children)
  deriving DecidableEq

def callerParts (complete : Bool) (callers : TallyMap Str LatencyCaller) (caller : Str) : List Part :=
  if complete && caller == unknownCaller then []
  else
    let c := callers.get caller
    (if caller != unknownCaller && c.latency.target.count != 0 then [.callerLatency caller c.latency]
      else []) ++ [.callerChildren caller c.children]

/-- `FuncStat::print`. -/
def report (offcpu : Bool) (s : ThreadStat) : List Part :=
  let complete : Bool := s.latency.target.total > 0
  (if complete then
    [.latency s.latency] ++ (if offcpu then [.sched s.schedCount s.latency.sched.total] else []) ++
      [.children s.children]
  else []) ++ s.callerOrder.flatMap (callerParts complete s.callers)

end Print

section Sums

variable (opt : StatOption)

lemma tally_error {e : Effect} {f : Fault} (h : e.tally opt = .error f) : f = .slotLoop := by
  cases e with
  | add call ret latS child =>
    rw [Effect.tally, Tally.ofCall] at h
    split at h
    · cases h
    · split at h
      · cases h
      · cases h
        rfl
  | addUnknownLatency | countSched | addMiss | countAncestorBegin | countAncestorEnd => cases h

def Effect.amount (e : Effect) : Tally :=
  match e.tally opt with
  | .ok t => t
  | .error _ => 0

def Effect.Ends (e : Effect) : Prop := ∃ t, e.tally opt = .ok t

lemma totalTally_of_ends {es : List Effect} (h : ∀ e ∈ es, e.Ends opt) :
    totalTally opt es = .ok (es.map (Effect.amount opt)).sum := by
  have hok := totalTally_of_ok opt id (Effect.amount opt) es fun e he => by
    obtain ⟨t, ht⟩ := h e he
    rw [id, Effect.amount, ht]
  rwa [List.map_id] at hok

lemma totalTally_of_not_ends {es : List Effect} (h : ¬ ∀ e ∈ es, e.Ends opt) :
    totalTally opt es = .error .slotLoop := by
  induction es with
  | nil => exact absurd (fun e he => absurd he List.not_mem_nil) h
  | cons e es ih =>
    rw [totalTally]
    cases he : e.tally opt with
    | error f =>
      rw [tally_error opt he]
      rfl
    | ok t =>
      rw [ih fun hes => h (List.forall_mem_cons.mpr ⟨⟨t, he⟩, hes⟩)]
      rfl

lemma totalTally_perm {es fs : List Effect} (h : es.Perm fs) : totalTally opt es = totalTally opt fs := by
  by_cases hall : ∀ e ∈ es, e.Ends opt
  · rw [totalTally_of_ends opt hall, totalTally_of_ends opt fun e he => hall e (h.mem_iff.mpr he),
      (h.map _).sum_eq]
  · rw [totalTally_of_not_ends opt hall,
      totalTally_of_not_ends opt fun hfs => hall fun e he => hfs e (h.mem_iff.mp he)]

end Sums

section Tallies

variable (place : Placement) (opt : StatOption)

lemma perform_toFuncStat (s : ThreadStat) (e : Effect) :
    (s.perform place opt e).map ThreadStat.toFuncStat = perform opt s.toFuncStat e := by
  rw [ThreadStat.perform]
  cases perform opt s.toFuncStat e <;> rfl

lemma foldlM_perform_toFuncStat (s : ThreadStat) (es : List Effect) :
    (es.foldlM (ThreadStat.perform place opt) s).map ThreadStat.toFuncStat =
      es.foldlM (perform opt) s.toFuncStat := by
  induction es generalizing s with
  | nil => rfl
  | cons e es ih =>
    rw [List.foldlM_cons, List.foldlM_cons, ← perform_toFuncStat place opt s e]
    cases s.perform place opt e with
    | error f => rfl
    | ok s' => exact ih s'

lemma received_tally (es : List Effect) :
    (received place opt es).map (fun s => s.toTally) = totalTally opt es := by
  have hcomp : ∀ x : Except Fault ThreadStat,
      x.map (fun s => s.toTally) = (x.map ThreadStat.toFuncStat).map FuncStat.toTally := by
    intro x
    cases x <;> rfl
  have hmap := (foldlM_perform_agrees opt .new es).map_eq FuncStat.toTally id
    fun stat t h => h.trans (zero_add t)
  rw [received, hcomp, foldlM_perform_toFuncStat]
  exact hmap.trans (congrFun Except.map_id _)

lemma foldl_merge_toTally (s : ThreadStat) (stats : List ThreadStat) :
    (stats.foldl (ThreadStat.merge place) s).toTally = s.toTally + (stats.map (·.toTally)).sum := by
  induction stats generalizing s with
  | nil => simp
  | cons t stats ih =>
    rw [List.foldl_cons, ih, List.map_cons, List.sum_cons, ← add_assoc]
    rfl

lemma merged_tally (threads : List (List Effect)) :
    (merged place opt threads).map (fun s => s.toTally) = totalTally opt threads.flatten := by
  have hsum : (threads.mapM (received place opt)).map (fun stats => (stats.map (·.toTally)).sum) =
      totalTally opt threads.flatten := by
    induction threads with
    | nil => rfl
    | cons es threads ih =>
      have hes := received_tally place opt es
      rw [List.flatten_cons, totalTally_append, ← ih, ← hes, List.mapM_cons]
      cases received place opt es with
      | error f => rfl
      | ok s =>
        cases threads.mapM (received place opt) with
        | error f => rfl
        | ok stats => exact congrArg Except.ok (by simp)
  rw [← hsum, merged]
  cases threads.mapM (received place opt) with
  | error f => rfl
  | ok stats =>
    have hmerge := foldl_merge_toTally place .new stats
    exact congrArg Except.ok (hmerge.trans (zero_add _))

end Tallies

section Order

variable (place : Placement)

lemma enterKey_perm {order : List Str} {key : Str} (h : key ∉ order) :
    (enterKey place order key).Perm (key :: order) := by
  rw [enterKey, if_neg h]
  exact List.perm_insertIdx key order (min_le_right _ _)

lemma mem_enterKey {order : List Str} {key k : Str} :
    k ∈ enterKey place order key ↔ k ∈ order ∨ key = k := by
  by_cases h : key ∈ order
  · rw [enterKey, if_pos h]
    refine ⟨Or.inl, ?_⟩
    rintro (hk | rfl)
    · exact hk
    · exact h
  · rw [(enterKey_perm place h).mem_iff, List.mem_cons, or_comm, eq_comm]

lemma nodup_enterKey {order : List Str} (key : Str) (h : order.Nodup) : (enterKey place order key).Nodup := by
  by_cases hk : key ∈ order
  · rwa [enterKey, if_pos hk]
  · exact (enterKey_perm place hk).nodup_iff.mpr (List.nodup_cons.mpr ⟨hk, h⟩)

lemma mem_foldl_enterKey {order keys : List Str} {k : Str} :
    k ∈ keys.foldl (enterKey place) order ↔ k ∈ order ∨ k ∈ keys := by
  induction keys generalizing order with
  | nil => simp
  | cons key keys ih =>
    rw [List.foldl_cons, ih, mem_enterKey, List.mem_cons, or_assoc, @eq_comm _ key k]

lemma nodup_foldl_enterKey {order : List Str} (keys : List Str) (h : order.Nodup) :
    (keys.foldl (enterKey place) order).Nodup := by
  induction keys generalizing order with
  | nil => exact h
  | cons key keys ih => exact ih (nodup_enterKey place key h)

end Order

/-- The order lists the callers of the map, each once. -/
structure Keyed (s : ThreadStat) : Prop where
  nodup : s.callerOrder.Nodup
  mem_iff : ∀ k, k ∈ s.callerOrder ↔ k ∈ s.callers.keys

section Keyed

variable {place : Placement} {opt : StatOption}

lemma mem_keys_ofLatency (latT latS : UInt64) (key k : Str) :
    k ∈ (Tally.ofLatency latT latS key).callers.keys ↔ key = k := by
  rw [Tally.ofLatency, Tally.add_callers, TallyMap.mem_keys_add, Tally.ofTarget, TallyMap.mem_keys_single]
  by_cases h : latS = 0
  · simp [h, TallyMap.mem_keys]
  · rw [if_neg h, Tally.ofSched, TallyMap.mem_keys_single, or_self]

lemma mem_keys_ofChildren (child : Children) (gather : Bool) (key k : Str) :
    k ∈ (Tally.ofChildren child key gather).callers.keys ↔ key = k :=
  TallyMap.mem_keys_single

lemma mem_keys_tally {e : Effect} {t : Tally} (h : e.tally opt = .ok t) (k : Str) :
    k ∈ t.callers.keys ↔ e.caller? opt = some k := by
  cases e with
  | add call ret latS child =>
    rw [Effect.tally, Tally.ofCall] at h
    rw [Effect.caller?]
    split at h
    · next hout =>
      cases h
      rw [if_pos hout]
      simp [TallyMap.mem_keys]
    · next hin =>
      split at h
      · cases h
        rw [if_neg hin, Tally.add_callers, TallyMap.mem_keys_add, mem_keys_ofLatency, mem_keys_ofChildren,
          or_self, Option.some_inj]
      · cases h
  | addUnknownLatency child caller =>
    cases h
    rw [Tally.ofUnknown, Tally.add_callers, TallyMap.mem_keys_add, mem_keys_ofChildren, Effect.caller?]
    simp [TallyMap.mem_keys]
  | countSched | addMiss | countAncestorBegin | countAncestorEnd =>
    cases h
    simp [TallyMap.mem_keys, Effect.caller?]

lemma keyed_new : Keyed .new where
  nodup := List.nodup_nil
  mem_iff k := by simp [TallyMap.mem_keys, ThreadStat.new, FuncStat.new]

lemma Keyed.perform {s t : ThreadStat} {e : Effect} (hs : Keyed s) (h : s.perform place opt e = .ok t) :
    Keyed t := by
  have hstat := perform_toFuncStat place opt s e
  have htally := perform_toTally opt s.toFuncStat e
  rw [← hstat, h] at htally
  rw [ThreadStat.perform] at h
  cases hp : Analysis.perform opt s.toFuncStat e with
  | error f =>
    rw [hp] at h
    cases h
  | ok stat =>
    rw [hp] at h
    cases h
    cases ha : e.tally opt with
    | error f =>
      rw [ha] at htally
      cases htally
    | ok amount =>
      rw [ha] at htally
      have hcallers : stat.callers = s.callers + amount.callers :=
        congrArg Tally.callers (Except.ok.inj htally)
      cases hc : e.caller? opt with
      | none =>
        refine ⟨hs.nodup, fun k => ?_⟩
        have hnone := mem_keys_tally ha k
        rw [hc] at hnone
        simp only [reduceCtorEq, iff_false] at hnone
        refine (hs.mem_iff k).trans ?_
        rw [hcallers, TallyMap.mem_keys_add, or_iff_left hnone]
      | some key =>
        refine ⟨nodup_enterKey place key hs.nodup, fun k => ?_⟩
        refine (mem_enterKey place).trans ?_
        rw [hcallers, TallyMap.mem_keys_add, mem_keys_tally ha, hc, hs.mem_iff, Option.some_inj]

lemma Keyed.merge {s t : ThreadStat} (hs : Keyed s) (ht : Keyed t) : Keyed (s.merge place t) where
  nodup := nodup_foldl_enterKey place t.callerOrder hs.nodup
  mem_iff k := by
    refine (mem_foldl_enterKey place).trans ?_
    rw [hs.mem_iff, ht.mem_iff]
    exact TallyMap.mem_keys_add.symm

lemma keyed_received {es : List Effect} {s : ThreadStat} (h : received place opt es = .ok s) : Keyed s :=
  Runs.foldlM_inv (fun _ _ _ hs => hs.perform) keyed_new h

lemma keyed_merged {threads : List (List Effect)} {s : ThreadStat} (h : merged place opt threads = .ok s) :
    Keyed s := by
  rw [merged] at h
  obtain ⟨stats, hstats, h⟩ := Runs.bind_eq_ok.mp h
  cases h
  have hall : ∀ t ∈ stats, Keyed t := Runs.mapM_inv (fun _ _ => keyed_received) hstats
  exact List.foldlRecOn stats (ThreadStat.merge place) keyed_new fun s hs t ht => hs.merge (hall t ht)

lemma Keyed.report_perm {s t : ThreadStat} (hs : Keyed s) (ht : Keyed t)
    (h : s.toTally = t.toTally) (offcpu : Bool) : (report offcpu s).Perm (report offcpu t) := by
  have horder : s.callerOrder.Perm t.callerOrder := by
    rw [List.perm_ext_iff_of_nodup hs.nodup ht.nodup]
    intro k
    rw [hs.mem_iff, ht.mem_iff, h]
  rw [report, report, h]
  exact (horder.flatMap_right _).append_left _

end Keyed

/-- However the contributions are divided among the threads and in whatever order the objects of the
threads are put together, the figures are those of one object, and the report has the same parts. -/
theorem merged_eq_received (place : Placement) (opt : StatOption) (offcpu : Bool) (all : List Effect)
    (threads : List (List Effect)) (h : all.Perm threads.flatten) :
    (merged place opt threads).map (fun s => s.toTally) =
        (received place opt all).map (fun s => s.toTally) ∧
      ∀ s t, merged place opt threads = .ok s → received place opt all = .ok t →
        (report offcpu s).Perm (report offcpu t) := by
  have htally : (merged place opt threads).map (fun s => s.toTally) =
      (received place opt all).map (fun s => s.toTally) := by
    rw [merged_tally, received_tally, totalTally_perm opt h]
  refine ⟨htally, fun s t hs ht => ?_⟩
  apply (keyed_merged hs).report_perm (keyed_received ht)
  rw [hs, ht] at htally
  exact Except.ok.inj htally

namespace Sample

/-- A call of `f` by the given caller. -/
def finished (caller : Str) : Effect :=
  .add { (default : Action) with ts := 10 }
    { (default : Action) with ts := 20, toSym := ⟨caller, 0x401000, 16⟩ } 0 .clear

def threadOption : StatOption := (Param.default (lit "f")).statOption

end Sample

open Sample in
theorem two_threads_one_report :
    (merged (fun _ _ => 0) threadOption [[finished (lit "b")], [finished (lit "a")]]).map
        (fun s => s.toTally) =
      (received (fun _ _ => 0) threadOption [finished (lit "a"), finished (lit "b")]).map
        (fun s => s.toTally) :=
  (merged_eq_received (fun _ _ => 0) threadOption false [finished (lit "a"), finished (lit "b")]
    [[finished (lit "b")], [finished (lit "a")]] (List.Perm.swap _ _ _)).1

open Sample in
theorem report_follows_merge_order :
    (merged (fun _ _ => 0) threadOption [[finished (lit "a")], [finished (lit "b")]]).map
        (report false) ≠
      (merged (fun _ _ => 0) threadOption [[finished (lit "b")], [finished (lit "a")]]).map
        (report false) := by
  intro h
  have hcallers := congrArg (Except.map List.getLast?) h
  revert hcallers
  decide +kernel

end PtPerf.Analysis
