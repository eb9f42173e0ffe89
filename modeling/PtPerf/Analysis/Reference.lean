import PtPerf.Analysis.Effects
import PtPerf.Analysis.Invocation

/-! The statistics that a list of complete calls stands for, counted on the calls themselves,
and when the analysis of their actions arrives at them. -/

namespace PtPerf.Analysis

open PtPerf.Support PtPerf.Trace PtPerf.Stats

structure IsHistogram (d : Distribution) (lats : List UInt64) : Prop where
  count : d.count.toNat = lats.length
  total : d.total.toNat = (lats.map UInt64.toNat).sum
  slot : ∀ i, (d.slot i).toNat = lats.countP fun v => Nat.log 2 v.toNat = i

structure IsTable (b : Bucket) (rows : List (Str × UInt64)) : Prop where
  missing : ∀ k, b.lookup k = none ↔ TallyMap.valuesAt rows k = []
  count : ∀ k e, b.lookup k = some e → e.count.toNat = (TallyMap.valuesAt rows k).length
  total : ∀ k e, b.lookup k = some e →
    e.total.toNat = ((TallyMap.valuesAt rows k).map UInt64.toNat).sum

namespace Invocation

def spent (p : Param) (inv : Invocation) : ℕ :=
  ((inv.entries p).map fun e => e.2.toNat).sum

/-- What is left of a call's time once everything written down for it is taken off. -/
def self (p : Param) (inv : Invocation) : UInt64 :=
  UInt64.ofNat (inv.latency.toNat - inv.spent p)

def rows (p : Param) (inv : Invocation) : List (Str × UInt64) :=
  inv.entries p ++ if p.codeBlock then [] else [(targetSelf, inv.self p)]

def caller (p : Param) (inv : Invocation) : Str :=
  FuncStat.callerKey p.statOption inv.start inv.finish

end Invocation

structure Recorded (rows : Invocation → List (Str × UInt64)) (invs : List Invocation)
    (latency : Latency) (children : Children) : Prop where
  target : IsHistogram latency.target (invs.map Invocation.latency)
  sched : latency.sched = 0
  unknownCount : latency.unknownCount = 0
  childTarget : IsTable children.target (invs.flatMap rows)
  childSched : children.sched = 0

/-- The tally of exactly the calls `invs`, in all and under each of their callers, where `rows`
says what is written down for one call. -/
structure MatchesCalls (p : Param) (rows : Invocation → List (Str × UInt64))
    (invs : List Invocation) (t : Tally) : Prop where
  overall : Recorded rows invs t.latency t.children
  callerMissing : ∀ c, t.callers.lookup c = none ↔ ∀ inv ∈ invs, inv.caller p ≠ c
  callers : ∀ c r, t.callers.lookup c = some r →
    Recorded rows (invs.filter fun inv => inv.caller p = c) r.latency r.children
  schedCount : t.schedCount = 0

/-- The widths of the counters, and the longest latency that has a slot. -/
structure WithinRange (rows : Invocation → List (Str × UInt64)) (invs : List Invocation) : Prop where
  latency : ∀ inv ∈ invs, inv.latency.toNat < 2 ^ 63
  count : invs.length < 2 ^ 32
  rows : ∀ k, (TallyMap.valuesAt (invs.flatMap rows) k).length < 2 ^ 64

/-- No ancestor, no timeline, and the default intervals. -/
structure Unfiltered (p : Param) : Prop where
  ancestor : p.ancestor = []
  timeline : p.timeline = false
  latencyInterval : p.latencyInterval = (0, uint64Max)
  timeInterval : p.timeInterval = (0, uint64Max)

def SortedByTime (actions : List Action) : Prop := actions.Pairwise fun a b => a.ts ≤ b.ts

section Sums

lemma toNat_sum (xs : List UInt64) (h : (xs.map UInt64.toNat).sum < 2 ^ 64) :
    xs.sum.toNat = (xs.map UInt64.toNat).sum := by
  induction xs with
  | nil => rfl
  | cons x xs ih =>
    simp only [List.map_cons, List.sum_cons] at h ⊢
    rw [UInt64.toNat_add, ih (by omega), Nat.mod_eq_of_lt h]

lemma sum_units (lats : List UInt64) (i : ℕ) :
    (lats.map Distribution.unit).sum.total = lats.sum ∧
    (lats.map Distribution.unit).sum.count = UInt32.ofNat lats.length ∧
    (lats.map Distribution.unit).sum.slot i =
      UInt32.ofNat (lats.countP fun v => Nat.log 2 v.toNat = i) := by
  rw [← Distribution.ofValues_coe]
  refine ⟨?_, ?_, ?_⟩
  · rw [Distribution.total_ofValues, Multiset.sum_coe]
  · rw [Distribution.count_ofValues, Multiset.coe_card]
  · rw [Distribution.slot_ofValues, Multiset.coe_countP]

lemma isHistogram_units (lats : List UInt64) (hc : lats.length < 2 ^ 32)
    (ht : (lats.map UInt64.toNat).sum < 2 ^ 64) :
    IsHistogram (lats.map Distribution.unit).sum lats where
  count := by rw [(sum_units lats 0).2.1, UInt32.toNat_ofNat_of_lt' hc]
  total := by rw [(sum_units lats 0).1, toNat_sum lats ht]
  slot i := by
    rw [(sum_units lats i).2.2, UInt32.toNat_ofNat_of_lt']
    exact List.countP_le_length.trans_lt hc

def tableOf (rows : List (Str × UInt64)) : Bucket :=
  TallyMap.ofEntries (rows.map fun e => (e.1, (⟨1, e.2⟩ : Element)))

lemma tableOf_append (a b : List (Str × UInt64)) : tableOf (a ++ b) = tableOf a + tableOf b := by
  rw [tableOf, List.map_append, TallyMap.ofEntries_append, tableOf, tableOf]

lemma sum_elements (vals : List UInt64) :
    (vals.map fun v => (⟨1, v⟩ : Element)).sum = ⟨UInt64.ofNat vals.length, vals.sum⟩ := by
  induction vals with
  | nil => rfl
  | cons v vals ih =>
    simp only [List.map_cons, List.sum_cons, ih, List.length_cons, UInt64.ofNat_add]
    exact Element.ext (add_comm _ _) rfl

lemma lookup_tableOf (rows : List (Str × UInt64)) (k : Str) :
    (tableOf rows).lookup k = if TallyMap.valuesAt rows k = [] then none else
      some ⟨UInt64.ofNat (TallyMap.valuesAt rows k).length, (TallyMap.valuesAt rows k).sum⟩ := by
  have hv : TallyMap.valuesAt (rows.map fun e => (e.1, (⟨1, e.2⟩ : Element))) k =
      (TallyMap.valuesAt rows k).map fun v => ⟨1, v⟩ := by
    simp only [TallyMap.valuesAt, List.filter_map, List.map_map]
    rfl
  rw [tableOf, TallyMap.lookup_ofEntries, hv, sum_elements]
  simp

lemma valuesAt_sum_le (rows : List (Str × UInt64)) (k : Str) :
    ((TallyMap.valuesAt rows k).map UInt64.toNat).sum ≤ (rows.map fun e => e.2.toNat).sum := by
  have hsub : (TallyMap.valuesAt rows k).Sublist (rows.map Prod.snd) :=
    List.filter_sublist.map Prod.snd
  have hle := (hsub.map UInt64.toNat).sum_le_sum (fun _ _ => Nat.zero_le _)
  simpa [Function.comp_def] using hle

lemma isTable_tableOf (rows : List (Str × UInt64))
    (hc : ∀ k, (TallyMap.valuesAt rows k).length < 2 ^ 64)
    (ht : (rows.map fun e => e.2.toNat).sum < 2 ^ 64) : IsTable (tableOf rows) rows where
  missing k := by
    rw [lookup_tableOf]
    split <;> simp_all
  count k e he := by
    rw [lookup_tableOf] at he
    split at he
    · simp at he
    · obtain rfl := Option.some.inj he
      exact UInt64.toNat_ofNat_of_lt' (hc k)
  total k e he := by
    rw [lookup_tableOf] at he
    split at he
    · simp at he
    · obtain rfl := Option.some.inj he
      exact toNat_sum _ ((valuesAt_sum_le rows k).trans_lt ht)

end Sums

section Time

variable (p : Param)

lemma toNat_between {a b : Action} (h : a.ts ≤ b.ts) :
    a.ts.toNat + (b.ts - a.ts).toNat = b.ts.toNat := by
  rw [UInt64.toNat_sub_of_le _ _ h]
  have := UInt64.le_iff_toNat_le.mp h
  omega

lemma blockEntry_sum_le {prev leave : Action} (h : prev.ts ≤ leave.ts) :
    prev.ts.toNat + ((blockEntry p prev leave).map fun e => e.2.toNat).sum ≤ leave.ts.toNat := by
  have ht := toNat_between h
  unfold blockEntry
  split
  · simp [ht]
  · simp only [List.map_nil, List.sum_nil]
    omega

lemma Item.entries_sum_le {prev : Action} {it : Item} (hl : prev.ts ≤ it.leave.ts)
    (hb : it.leave.ts ≤ it.back.ts) :
    prev.ts.toNat + ((it.entries p prev).map fun e => e.2.toNat).sum ≤ it.back.ts.toNat := by
  have hblock := blockEntry_sum_le p hl
  have ht := toNat_between hb
  unfold Item.entries
  cases it.isChild with
  | true =>
    simp only [if_true, List.map_append, List.sum_append, List.map_cons, List.map_nil,
      List.sum_cons, List.sum_nil, Item.duration]
    omega
  | false =>
    simp only [Bool.false_eq_true, if_false, List.append_nil]
    omega

lemma itemsEntries_sum_le (items : List Item) (prev finish : Action)
    (hs : SortedByTime (prev :: (items.flatMap Item.actions ++ [finish]))) :
    prev.ts.toNat + ((itemsEntries p prev items).map fun e => e.2.toNat).sum ≤ finish.ts.toNat := by
  induction items generalizing prev with
  | nil =>
    have h : prev.ts ≤ finish.ts := (List.pairwise_cons.mp hs).1 finish (by simp)
    simpa [itemsEntries] using UInt64.le_iff_toNat_le.mp h
  | cons it items ih =>
    simp only [List.flatMap_cons, Item.actions, List.cons_append, List.nil_append] at hs
    obtain ⟨hprev, hs⟩ := List.pairwise_cons.mp hs
    obtain ⟨hleave, hs⟩ := List.pairwise_cons.mp hs
    have hitem := Item.entries_sum_le p (hprev it.leave (by simp)) (hleave it.back (by simp))
    have hrest := ih it.back hs
    simp only [itemsEntries, List.map_append, List.sum_append]
    omega

lemma Invocation.spent_le {inv : Invocation} (hs : SortedByTime inv.actions) :
    inv.spent p ≤ inv.latency.toNat := by
  have hsum := itemsEntries_sum_le p inv.items inv.start inv.finish hs
  have hle : inv.start.ts ≤ inv.finish.ts := (List.pairwise_cons.mp hs).1 _ (by simp)
  have ht := toNat_between hle
  unfold Invocation.spent Invocation.entries Invocation.latency
  omega

lemma Invocation.self_toNat (inv : Invocation) :
    (inv.self p).toNat = inv.latency.toNat - inv.spent p := by
  apply UInt64.toNat_ofNat_of_lt'
  have := inv.latency.toNat_lt
  exact (Nat.sub_le _ _).trans_lt this

lemma Invocation.rows_sum_le {inv : Invocation} (hs : SortedByTime inv.actions) :
    ((inv.rows p).map fun e => e.2.toNat).sum ≤ inv.latency.toNat := by
  have hle := inv.spent_le p hs
  have hself := inv.self_toNat p
  unfold Invocation.rows
  unfold Invocation.spent at hle hself
  cases p.codeBlock with
  | true => simpa using hle
  | false =>
    simp only [Bool.false_eq_true, if_false, List.map_append, List.sum_append, List.map_cons,
      List.map_nil, List.sum_cons, List.sum_nil, hself]
    omega

lemma latencies_sum_lt (invs : List Invocation) (b : ℕ) (hb : b < 2 ^ 64)
    (hs : SortedByTime (invs.flatMap Invocation.actions))
    (hlow : ∀ a ∈ invs.flatMap Invocation.actions, b ≤ a.ts.toNat) :
    b + (invs.map fun inv => inv.latency.toNat).sum < 2 ^ 64 := by
  induction invs generalizing b with
  | nil => simpa using hb
  | cons inv invs ih =>
    rw [List.flatMap_cons] at hs hlow
    obtain ⟨hinv, hrest, hcross⟩ := List.pairwise_append.mp hs
    have hstart : b ≤ inv.start.ts.toNat := hlow _ (by simp [Invocation.actions])
    have hle : inv.start.ts ≤ inv.finish.ts := (List.pairwise_cons.mp hinv).1 _ (by simp)
    have ht := toNat_between hle
    have hfin := ih inv.finish.ts.toNat inv.finish.ts.toNat_lt hrest fun a ha =>
      UInt64.le_iff_toNat_le.mp (hcross inv.finish (by simp [Invocation.actions]) a ha)
    simp only [List.map_cons, List.sum_cons, Invocation.latency] at hfin ⊢
    omega

lemma sorted_invocation {invs : List Invocation} (hs : SortedByTime (invs.flatMap Invocation.actions)) :
    ∀ inv ∈ invs, SortedByTime inv.actions :=
  (List.pairwise_flatMap.mp hs).1

lemma rows_sum_lt {invs : List Invocation} (hs : SortedByTime (invs.flatMap Invocation.actions)) :
    ((invs.flatMap (Invocation.rows p)).map fun e => e.2.toNat).sum ≤
      (invs.map fun inv => inv.latency.toNat).sum := by
  have hi := sorted_invocation hs
  clear hs
  induction invs with
  | nil => simp
  | cons inv invs ih =>
    have h₁ := inv.rows_sum_le p (hi inv (by simp))
    have h₂ := ih fun j hj => hi j (by simp [hj])
    simp only [List.flatMap_cons, List.map_append, List.sum_append, List.map_cons, List.sum_cons]
    omega

end Time

section Tallies

variable {p : Param}

lemma recordAll_eq (es : List (Str × UInt64)) :
    recordAll es = ⟨⟨tableOf es, 0⟩, (es.map Prod.snd).sum, 0⟩ := by
  induction es using List.reverseRecOn with
  | nil => rfl
  | append_singleton es e ih =>
    rw [recordAll_append, ih, tableOf_append, LatencyChild.addTarget, Bucket.addVal,
      TallyMap.bump_eq_add]
    simp [tableOf, TallyMap.ofEntries]

namespace Invocation

def record (p : Param) (inv : Invocation) : LatencyCaller :=
  ⟨⟨.unit inv.latency, 0, 0⟩, ⟨tableOf (inv.rows p), 0⟩⟩

def tally (p : Param) (inv : Invocation) : Tally :=
  ⟨(inv.record p).latency, (inv.record p).children, .single (inv.caller p) (inv.record p), 0⟩

lemma spent_toNat {inv : Invocation} (hs : SortedByTime inv.actions) :
    ((inv.entries p).map Prod.snd).sum.toNat = inv.spent p := by
  have hm : ((inv.entries p).map Prod.snd).map UInt64.toNat =
      (inv.entries p).map fun e => e.2.toNat := by simp [Function.comp_def]
  rw [toNat_sum, hm, spent]
  rw [hm]
  exact (inv.spent_le p hs).trans_lt inv.latency.toNat_lt

lemma withSelf_eq {inv : Invocation} (hs : SortedByTime inv.actions) :
    (FuncStat.withSelf p.statOption inv.latency 0 (recordAll (inv.entries p))).toChildren =
      ⟨tableOf (inv.rows p), 0⟩ := by
  rw [recordAll_eq, FuncStat.withSelf]
  change (if p.codeBlock = true then _ else _ : LatencyChild).toChildren = _
  cases hb : p.codeBlock with
  | true => simp [rows, hb]
  | false =>
    have hself : (if inv.latency > ((inv.entries p).map Prod.snd).sum then
        inv.latency - ((inv.entries p).map Prod.snd).sum else 0) = inv.self p := by
      have hsum := spent_toNat (p := p) hs
      have hle := inv.spent_le p hs
      apply UInt64.toNat_inj.mp
      rw [self_toNat, ← hsum]
      split
      · rename_i h
        rw [UInt64.toNat_sub_of_le _ _ (UInt64.le_of_lt h)]
      · rename_i h
        have := UInt64.lt_iff_toNat_lt.not.mp h
        simp only [UInt64.toNat_zero]
        omega
    simp only [Bool.false_eq_true, if_false, rows, hb]
    rw [hself, tableOf_append]
    simp [LatencyChild.addTarget, LatencyChild.addSched, Bucket.addVal, TallyMap.bump_eq_add,
      tableOf, TallyMap.ofEntries]

end Invocation

lemma Unfiltered.inInterval (hp : Unfiltered p) (lat ts : UInt64) :
    FuncStat.inInterval p.statOption lat ts = true := by
  have hmax : ∀ v : UInt64, ¬ uint64Max < v := by
    intro v h
    have h' := UInt64.lt_iff_toNat_lt.mp h
    have := v.toNat_lt
    simp [uint64Max] at h'
    omega
  simp [FuncStat.inInterval, Param.statOption, hp.latencyInterval, hp.timeInterval, hmax]

lemma effect_tally (hp : Unfiltered p) {inv : Invocation} (hs : SortedByTime inv.actions) :
    (inv.effect p).tally p.statOption =
      if inv.latency.toNat < 2 ^ 63 then .ok (inv.tally p) else .error .slotLoop := by
  have ht : p.statOption.timeline = false := hp.timeline
  have hlat : inv.finish.ts - inv.start.ts = inv.latency := rfl
  have hcaller : FuncStat.callerKey p.statOption inv.start inv.finish = inv.caller p := rfl
  have hzero : (0 : UInt64).toNat < 2 ^ 63 := by decide
  simp only [Invocation.effect, Effect.tally, Tally.ofCall, hp.inInterval, ht, hlat, hcaller,
    Invocation.withSelf_eq hs, hzero, and_true, Bool.not_true, Bool.false_and, Bool.or_self,
    Bool.false_eq_true, if_false]
  have htally : Tally.ofLatency inv.latency 0 (inv.caller p) +
      Tally.ofChildren ⟨tableOf (inv.rows p), 0⟩ (inv.caller p) true = inv.tally p := by
    have htarget : Tally.ofLatency inv.latency 0 (inv.caller p) =
        Tally.ofTarget inv.latency (inv.caller p) := by simp [Tally.ofLatency]
    rw [htarget]
    refine Tally.ext (add_zero _) (zero_add _) (TallyMap.ext fun c => ?_) (add_zero _)
    simp only [Tally.ofTarget, Tally.ofChildren, Invocation.tally, Tally.add_callers,
      TallyMap.lookup_add, TallyMap.lookup_single]
    by_cases hc : c = inv.caller p
    · simp only [hc, if_true, Option.merge_some_some, Option.some.injEq]
      exact LatencyCaller.ext (add_zero _) (zero_add _)
    · simp [hc]
  rw [htally]

lemma sum_record (invs : List Invocation) :
    (invs.map (Invocation.record p)).sum =
      ⟨⟨((invs.map Invocation.latency).map Distribution.unit).sum, 0, 0⟩,
        ⟨tableOf (invs.flatMap (Invocation.rows p)), 0⟩⟩ := by
  induction invs with
  | nil => rfl
  | cons inv invs ih =>
    simp only [List.map_cons, List.sum_cons, List.flatMap_cons, tableOf_append, ih]
    rfl

lemma sum_tally (invs : List Invocation) :
    (invs.map (Invocation.tally p)).sum =
      ⟨(invs.map (Invocation.record p)).sum.latency, (invs.map (Invocation.record p)).sum.children,
        TallyMap.ofEntries (invs.map fun inv => (inv.caller p, inv.record p)), 0⟩ := by
  induction invs with
  | nil => rfl
  | cons inv invs ih =>
    simp only [List.map_cons, List.sum_cons, ih, TallyMap.ofEntries]
    rfl

end Tallies

section Matching

variable {p : Param} {invs : List Invocation}

lemma recorded_sum (hc : invs.length < 2 ^ 32)
    (hr : ∀ k, (TallyMap.valuesAt (invs.flatMap (Invocation.rows p)) k).length < 2 ^ 64)
    (hl : (invs.map fun inv => inv.latency.toNat).sum < 2 ^ 64)
    (ht : ((invs.flatMap (Invocation.rows p)).map fun e => e.2.toNat).sum < 2 ^ 64) :
    Recorded (Invocation.rows p) invs (invs.map (Invocation.record p)).sum.latency
      (invs.map (Invocation.record p)).sum.children := by
  rw [sum_record]
  refine ⟨isHistogram_units _ (by simpa using hc) ?_, rfl, rfl, isTable_tableOf _ hr ht, rfl⟩
  simpa [Function.comp_def] using hl

lemma Recorded.range {rows : Invocation → List (Str × UInt64)} {latency : Latency}
    {children : Children} (h : Recorded rows invs latency children) :
    invs.length < 2 ^ 32 ∧ ∀ k, (TallyMap.valuesAt (invs.flatMap rows) k).length < 2 ^ 64 := by
  constructor
  · have hc := h.target.count
    rw [List.length_map] at hc
    rw [← hc]
    exact latency.target.count.toNat_lt
  · intro k
    cases hk : children.target.lookup k with
    | none =>
      rw [(h.childTarget.missing k).mp hk]
      decide
    | some e =>
      rw [← h.childTarget.count k e hk]
      exact e.count.toNat_lt

lemma rows_filter_le (q : Invocation → Bool) (k : Str) :
    (TallyMap.valuesAt ((invs.filter q).flatMap (Invocation.rows p)) k).length ≤
      (TallyMap.valuesAt (invs.flatMap (Invocation.rows p)) k).length := by
  have hsub : ((invs.filter q).flatMap (Invocation.rows p)).Sublist
      (invs.flatMap (Invocation.rows p)) := List.filter_sublist.flatMap _
  exact ((hsub.filter _).map Prod.snd).length_le

lemma matchesCalls_sum (hs : SortedByTime (invs.flatMap Invocation.actions))
    (hr : WithinRange (Invocation.rows p) invs) :
    MatchesCalls p (Invocation.rows p) invs (invs.map (Invocation.tally p)).sum := by
  have hl : (invs.map fun inv => inv.latency.toNat).sum < 2 ^ 64 := by
    simpa using latencies_sum_lt invs 0 (by decide) hs fun _ _ => Nat.zero_le _
  have ht := (rows_sum_lt p hs).trans_lt hl
  rw [sum_tally]
  have hvals : ∀ c, TallyMap.valuesAt (invs.map fun inv => (inv.caller p, inv.record p)) c =
      (invs.filter fun inv => inv.caller p = c).map (Invocation.record p) := by
    intro c
    simp only [TallyMap.valuesAt, List.filter_map, List.map_map]
    rfl
  refine ⟨recorded_sum hr.count hr.rows hl ht, ?_, ?_, rfl⟩
  · intro c
    simp only [TallyMap.lookup_ofEntries, hvals]
    simp
  · intro c r hc
    simp only [TallyMap.lookup_ofEntries, hvals] at hc
    split at hc
    · simp at hc
    · obtain rfl := Option.some.inj hc
      have hsub : (invs.filter fun inv => inv.caller p = c).Sublist invs := List.filter_sublist
      refine recorded_sum (hsub.length_le.trans_lt hr.count)
        (fun k => (rows_filter_le _ k).trans_lt (hr.rows k)) ?_ ?_
      · exact ((hsub.map _).sum_le_sum fun _ _ => Nat.zero_le _).trans_lt hl
      · exact (((hsub.flatMap _).map _).sum_le_sum fun _ _ => Nat.zero_le _).trans_lt ht

lemma totalTally_invocations (hp : Unfiltered p)
    (hs : SortedByTime (invs.flatMap Invocation.actions))
    (hl : ∀ inv ∈ invs, inv.latency.toNat < 2 ^ 63) :
    totalTally p.statOption (invs.map (Invocation.effect p)) =
      .ok (invs.map (Invocation.tally p)).sum := by
  apply totalTally_of_ok
  intro inv hi
  rw [effect_tally hp (sorted_invocation hs inv hi), if_pos (hl inv hi)]

lemma latency_of_totalTally (hp : Unfiltered p)
    (hs : SortedByTime (invs.flatMap Invocation.actions)) {t : Tally}
    (h : totalTally p.statOption (invs.map (Invocation.effect p)) = .ok t) :
    ∀ inv ∈ invs, inv.latency.toNat < 2 ^ 63 := by
  intro inv hi
  by_contra hn
  have he := effect_tally hp (sorted_invocation hs inv hi)
  rw [if_neg hn] at he
  obtain ⟨g, hg⟩ := totalTally_error (List.mem_map_of_mem hi) he
  rw [hg] at h
  cases h

lemma doAnalyze_invocations (hp : Unfiltered p) (hw : ∀ inv ∈ invs, inv.WellFormed) :
    (doAnalyze p (invs.flatMap Invocation.actions)).map FuncStat.toTally =
      totalTally p.statOption (invs.map (Invocation.effect p)) := by
  obtain ⟨s, hrun, hb⟩ := invocations_run hp.ancestor invs between_init hw
  have hleft : leftover s = [] := by simp [leftover, hb.child]
  rw [doAnalyze_of_run hrun, hleft, List.append_nil]

theorem invocations_match_iff (hp : Unfiltered p) (hw : ∀ inv ∈ invs, inv.WellFormed)
    (hs : SortedByTime (invs.flatMap Invocation.actions)) :
    (∃ stat, doAnalyze p (invs.flatMap Invocation.actions) = .ok stat ∧
      MatchesCalls p (Invocation.rows p) invs stat.toTally) ↔ WithinRange (Invocation.rows p) invs := by
  have hd := doAnalyze_invocations hp hw
  constructor
  · rintro ⟨stat, hok, hm⟩
    rw [hok] at hd
    obtain ⟨hc, hr⟩ := hm.overall.range
    exact ⟨latency_of_totalTally hp hs hd.symm, hc, hr⟩
  · intro hr
    rw [totalTally_invocations hp hs hr.latency] at hd
    obtain ⟨stat, hok, ht⟩ := Runs.map_eq_ok.mp hd
    exact ⟨stat, hok, ht ▸ matchesCalls_sum hs hr⟩

lemma flatMap_rows_congr {rows rows' : Invocation → List (Str × UInt64)}
    (h : ∀ inv ∈ invs, rows inv = rows' inv) : invs.flatMap rows = invs.flatMap rows' := by
  rw [List.flatMap_def, List.flatMap_def, List.map_congr_left h]

lemma Recorded.congr {rows rows' : Invocation → List (Str × UInt64)} {latency : Latency}
    {children : Children} (hr : Recorded rows invs latency children)
    (h : ∀ inv ∈ invs, rows inv = rows' inv) : Recorded rows' invs latency children :=
  { hr with childTarget := flatMap_rows_congr h ▸ hr.childTarget }

lemma MatchesCalls.congr {rows rows' : Invocation → List (Str × UInt64)} {t : Tally}
    (hm : MatchesCalls p rows invs t) (h : ∀ inv ∈ invs, rows inv = rows' inv) :
    MatchesCalls p rows' invs t where
  overall := hm.overall.congr h
  callerMissing := hm.callerMissing
  callers c r hc := (hm.callers c r hc).congr fun inv hi => h inv (List.mem_of_mem_filter hi)
  schedCount := hm.schedCount

lemma WithinRange.congr {rows rows' : Invocation → List (Str × UInt64)}
    (hr : WithinRange rows invs) (h : ∀ inv ∈ invs, rows inv = rows' inv) :
    WithinRange rows' invs :=
  { hr with rows := flatMap_rows_congr h ▸ hr.rows }

end Matching

end PtPerf.Analysis
