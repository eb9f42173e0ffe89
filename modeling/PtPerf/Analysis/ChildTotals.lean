import PtPerf.Analysis.ChildSched

/-! The totals of the children. The ledger of a run has the intervals that the counters of the analysis
are the sums of; the entries are within their bounds if and only if these find room. -/

namespace PtPerf.Analysis

open PtPerf.Support PtPerf.Trace PtPerf.Stats

section Accounting

variable {p : Param} {s s' : State} {a call : Action} {es : List Effect} {l : Ledger} {now : ℕ}

/-- When the last sleep was over: the one that is pending has not been counted. -/
def State.limit (now : ℕ) (s : State) : ℕ := (s.schedBegin.map fun b => b.ts.toNat).getD now

/-- The ledger has what the counters count. -/
structure Accounts (now : ℕ) (s : State) (l : Ledger) : Prop where
  times : NotAfter now s
  counted : Stretch.Ordered (s.limit now) (l.pending ++ l.charged)
  asleep : Stretch.Ordered (s.limit now) l.slept
  recorded : ∀ x ∈ l.records, x.Within now
  schedInChild : s.schedInChild.toNat = Stretch.total l.pending
  schedInTarget : s.schedInTarget.toNat = Stretch.total l.slept
  schedTotal : s.child.schedTotal.toNat = Stretch.total l.charged
  targetTotal : s.child.targetTotal = UInt64.ofNat (Stretch.total l.records)

lemma State.record_targetTotal (s : State) (name : Str) (wall : UInt64) :
    (s.record name wall).targetTotal = s.child.targetTotal + wall := by
  rw [State.record, LatencyChild.addSched]
  split <;> rfl

lemma State.record_schedTotal (s : State) (name : Str) (wall : UInt64) :
    (s.record name wall).schedTotal = s.child.schedTotal + s.schedInChild := by
  rw [State.record, LatencyChild.addSched]
  split
  · rename_i hz
    rw [show s.schedInChild = 0 by simpa using hz, add_zero]
    rfl
  · rfl

lemma NotAfter.limit_le (h : NotAfter now s) : s.limit now ≤ now := by
  rw [State.limit]
  cases hb : s.schedBegin with
  | none => exact le_rfl
  | some b => exact h.mark b hb

lemma NotAfter.limit_mono (h : NotAfter now s) (hm : Move p s a s' es) (hnow : now ≤ a.ts.toNat) :
    s.limit now ≤ s'.limit a.ts.toNat := by
  have hle := h.limit_le.trans hnow
  rcases hm.mark with heq | heq | heq
  · rw [State.limit, State.limit, heq]
    cases s.schedBegin with
    | none => exact hnow
    | some b => exact le_rfl
  · rw [State.limit, State.limit, heq]
    exact hle
  · rw [State.limit, State.limit, heq]
    exact hle

lemma toNat_add_of_total {x y : UInt64} {n : ℕ} (hn : x.toNat + y.toNat = n) (hlt : n < 2 ^ 64) :
    (x + y).toNat = n := by
  rw [UInt64.toNat_add, hn]
  exact Nat.mod_eq_of_lt hlt

lemma sleepOf_within {b : Action} (h : b.ts.toNat ≤ a.ts.toNat) : (sleepOf b a).Within a.ts.toNat where
  start_le := h
  stop_le := le_rfl
  length_le := by
    change (a.ts - b.ts).toNat % 2 ^ 32 ≤ a.ts.toNat - b.ts.toNat
    rw [UInt64.toNat_sub_of_le _ _ (UInt64.le_iff_toNat_le.mpr h)]
    exact Nat.mod_le _ _

lemma accounts_init (now : ℕ) : Accounts now .init .init where
  times := ⟨(fun _ he => by cases he), (fun _ hc => by cases hc), (fun _ hb => by cases hb)⟩
  counted := .nil
  asleep := .nil
  recorded := fun x hx => by cases hx
  schedInChild := rfl
  schedInTarget := rfl
  schedTotal := rfl
  targetTotal := rfl

lemma Accounts.clear (h : NotAfter now s') (hchild : s'.child = .clear) (hc : s'.schedInChild = 0)
    (ht : s'.schedInTarget = 0) : Accounts now s' .init where
  times := h
  counted := .nil
  asleep := .nil
  recorded := fun x hx => by cases hx
  schedInChild := by rw [hc]; rfl
  schedInTarget := by rw [ht]; rfl
  schedTotal := by rw [hchild]; rfl
  targetTotal := by rw [hchild]; rfl

lemma Accounts.record (h : Accounts now s l) (hm : Move p s a s' es) (hnow : now ≤ a.ts.toNat)
    {base : Action} (hbase : recordBase p s a = some base) {name : Str}
    (hchild : s'.child = s.record name (a.ts - base.ts)) (hc : s'.schedInChild = 0)
    (ht : s'.schedInTarget = s.schedInTarget) :
    Accounts a.ts.toNat s' ⟨[], l.slept, l.pending ++ l.charged,
      ⟨base.ts.toNat, a.ts.toNat, (a.ts - base.ts).toNat⟩ :: l.records⟩ where
  times := h.times.next hm hnow
  counted := h.counted.mono (h.times.limit_mono hm hnow)
  asleep := h.asleep.mono (h.times.limit_mono hm hnow)
  recorded := by
    have hle := (h.times.base hbase).trans hnow
    rw [List.forall_mem_cons]
    refine ⟨⟨hle, le_rfl, ?_⟩, fun x hx => (h.recorded x hx).mono hnow⟩
    exact (UInt64.toNat_sub_of_le _ _ (UInt64.le_iff_toNat_le.mpr hle)).le
  schedInChild := by rw [hc]; rfl
  schedInTarget := by rw [ht]; exact h.schedInTarget
  schedTotal := by
    have hle := h.counted.total_le.trans (h.times.limit_le.trans hnow)
    rw [hchild, State.record_schedTotal]
    refine toNat_add_of_total ?_ (hle.trans_lt a.ts.toNat_lt)
    rw [h.schedTotal, h.schedInChild, Stretch.total_append, Nat.add_comm]
  targetTotal := by
    rw [hchild, State.record_targetTotal, h.targetTotal, Stretch.total_cons, UInt64.ofNat_add,
      UInt64.ofNat_toNat, add_comm]

lemma Accounts.wake (h : Accounts now s l) (hm : Move p s a s' es) (hnow : now ≤ a.ts.toNat) {b : Action}
    (hb : s.schedBegin = some b) (hs' : s' = { s with
      schedInTarget := s.schedInTarget + (a.ts - b.ts).toUInt32.toUInt64
      schedInChild := s.schedInChild + (a.ts - b.ts).toUInt32.toUInt64
      schedBegin := none }) :
    Accounts a.ts.toNat s'
      { l with pending := sleepOf b a :: l.pending, slept := sleepOf b a :: l.slept } := by
  have hlimit : s.limit now = (sleepOf b a).start := by rw [State.limit, hb]; rfl
  have hwithin := sleepOf_within ((h.times.mark b hb).trans hnow)
  have hcounted : Stretch.Ordered a.ts.toNat (sleepOf b a :: (l.pending ++ l.charged)) :=
    (hlimit ▸ h.counted).cons hwithin
  have hasleep : Stretch.Ordered a.ts.toNat (sleepOf b a :: l.slept) := (hlimit ▸ h.asleep).cons hwithin
  have hlength : (a.ts - b.ts).toUInt32.toUInt64.toNat = (sleepOf b a).length := rfl
  have hnext := h.times.next hm hnow
  rw [hs'] at hnext ⊢
  refine ⟨hnext, hcounted, hasleep, fun x hx => (h.recorded x hx).mono hnow, ?_, ?_, h.schedTotal, h.targetTotal⟩
  · refine toNat_add_of_total (by rw [h.schedInChild, hlength, Stretch.total_cons, Nat.add_comm]) ?_
    have hpart : (sleepOf b a :: l.pending).Sublist (sleepOf b a :: (l.pending ++ l.charged)) :=
      (List.sublist_append_left _ _).cons_cons _
    exact (hcounted.sublist hpart).total_le.trans_lt a.ts.toNat_lt
  · refine toNat_add_of_total (by rw [h.schedInTarget, hlength, Stretch.total_cons, Nat.add_comm]) ?_
    exact hasleep.total_le.trans_lt a.ts.toNat_lt

lemma Accounts.keep (h : Accounts now s l) (hm : Move p s a s' es) (hnow : now ≤ a.ts.toNat)
    (hchild : s'.child = s.child) (hc : s'.schedInChild = s.schedInChild ∨ s'.schedInChild = 0)
    (ht : s'.schedInTarget = s.schedInTarget ∨ s'.schedInTarget = 0) :
    Accounts a.ts.toNat s' { l with
      pending := if s'.schedInChild = 0 then [] else l.pending
      slept := if s'.schedInTarget = 0 then [] else l.slept } where
  times := h.times.next hm hnow
  counted := by
    refine (h.counted.mono (h.times.limit_mono hm hnow)).sublist ?_
    simp only
    split
    · exact List.sublist_append_right _ _
    · exact List.Sublist.refl _
  asleep := by
    refine (h.asleep.mono (h.times.limit_mono hm hnow)).sublist ?_
    simp only
    split
    · exact List.nil_sublist _
    · exact List.Sublist.refl _
  recorded := fun x hx => (h.recorded x hx).mono hnow
  schedInChild := by
    simp only
    split
    · rename_i hz
      rw [hz]
      rfl
    · rename_i hz
      rw [hc.resolve_right hz]
      exact h.schedInChild
  schedInTarget := by
    simp only
    split
    · rename_i hz
      rw [hz]
      rfl
    · rename_i hz
      rw [ht.resolve_right hz]
      exact h.schedInTarget
  schedTotal := by rw [hchild]; exact h.schedTotal
  targetTotal := by rw [hchild]; exact h.targetTotal

lemma Accounts.finish (h : Accounts now s l) (hm : Move p s a s' es) (hnow : now ≤ a.ts.toNat)
    (hchild : s'.child = .clear) (hc : s'.schedInChild = s.schedInChild) (ht : s'.schedInTarget = 0) :
    Accounts a.ts.toNat s' { l with slept := [], charged := [], records := [] } where
  times := h.times.next hm hnow
  counted := by
    rw [List.append_nil]
    exact (h.counted.mono (h.times.limit_mono hm hnow)).sublist (List.sublist_append_left _ _)
  asleep := .nil
  recorded := fun x hx => by cases hx
  schedInChild := by rw [hc]; exact h.schedInChild
  schedInTarget := by rw [ht]; rfl
  schedTotal := by rw [hchild]; rfl
  targetTotal := by rw [hchild]; rfl

lemma Accounts.next (h : Accounts now s l) (hm : Move p s a s' es) (hnow : now ≤ a.ts.toNat) :
    Accounts a.ts.toNat s' (l.next p s a s') := by
  cases hm.recordMove with
  | record hbase hcall hchild hc ht =>
    have hh := handled_of_recordBase hbase
    rw [Ledger.next, goes_of_handled hh, hcall, not_wakes_of_handled hh, hbase]
    exact h.record hm hnow hbase hchild hc ht
  | wake hgo _ hcall hw hb hs' =>
    rw [Ledger.next, hgo, hcall, hw, hb]
    exact h.wake hm hnow hb hs'
  | keep hgo hbase hcall hw hchild hc ht =>
    rw [Ledger.next, hgo, hcall, hw, hbase]
    exact h.keep hm hnow hchild hc ht
  | error he hs' =>
    rw [Ledger.next, he]
    exact .clear (h.times.next hm hnow) (by rw [hs']; rfl) (by rw [hs']; rfl) (by rw [hs']; rfl)
  | start hs hs' =>
    rw [Ledger.next, hs, Bool.or_true]
    exact .clear (h.times.next hm hnow) (by rw [hs']; rfl) (by rw [hs']; rfl) (by rw [hs']; rfl)
  | finish _ hcall hchild ht hc =>
    rw [Ledger.next, goes_of_handled (handled_of_closedCall hcall), hcall]
    exact h.finish hm hnow hchild hc ht

lemma Accounts.record_le_iff (h : Accounts now s l) (hnow : now ≤ a.ts.toNat) {base : Action}
    (hbase : recordBase p s a = some base) :
    s.schedInChild ≤ a.ts - base.ts ↔ Stretch.Fits base.ts.toNat a.ts.toNat l.pending := by
  have hle := h.times.limit_le.trans hnow
  rw [Stretch.fits_iff fun x hx => (h.counted.within x (List.mem_append_left _ hx)).mono hle,
    UInt64.le_iff_toNat_le, h.schedInChild,
    UInt64.toNat_sub_of_le _ _ (UInt64.le_iff_toNat_le.mpr ((h.times.base hbase).trans hnow))]

lemma toNat_clamped (x y : UInt64) : (if x > y then x - y else 0).toNat = x.toNat - y.toNat := by
  split
  · rename_i hgt
    exact UInt64.toNat_sub_of_le _ _ (UInt64.le_of_lt hgt)
  · rename_i hle
    have hle := UInt64.le_iff_toNat_le.mp (UInt64.not_lt.mp hle)
    rw [UInt64.toNat_zero]
    omega

lemma Accounts.self_le_iff (h : Accounts now s l) (hnow : now ≤ a.ts.toNat)
    (hcall : callWithSelf p s a = some call) (hrecords : Stretch.total l.records < 2 ^ 64) :
    selfSched s ≤ selfWall s a call ↔ l.CallFits call a := by
  have hstart := (h.times.stack call (closedCall_mem (closedCall_of_callWithSelf hcall))).trans hnow
  have hlimit := h.times.limit_le.trans hnow
  have hdiff := Stretch.total_diff l.slept l.charged
  have hwithin : ∀ x ∈ l.own ++ l.records, x.Within (a.ts.toNat + l.earlier) := by
    intro x hx
    rcases List.mem_append.mp hx with hx | hx
    · exact (h.asleep.within x (List.diff_subset _ _ hx)).mono (by omega)
    · exact (h.recorded x hx).mono (by omega)
  rw [Ledger.CallFits, Stretch.fits_iff hwithin, Stretch.total_append, UInt64.le_iff_toNat_le, selfSched,
    selfWall, toNat_clamped, toNat_clamped, h.schedInTarget, h.schedTotal, h.targetTotal,
    UInt64.toNat_ofNat_of_lt' hrecords,
    UInt64.toNat_sub_of_le _ _ (UInt64.le_iff_toNat_le.mpr hstart)]
  change Stretch.total l.own + _ = l.earlier + _ at hdiff
  omega

lemma records_next_le (hm : Move p s a s' es) (l : Ledger) : Stretch.total (l.next p s a s').records ≤
    Stretch.total l.records + entryTime p (fun _ => true) s a := by
  have hold : Stretch.total l.records ≤ Stretch.total l.records + entryTime p (fun _ => true) s a :=
    Nat.le_add_right _ _
  cases hm.recordMove with
  | @record base hbase hcall =>
    have hh := handled_of_recordBase hbase
    rw [Ledger.next, goes_of_handled hh, hcall, not_wakes_of_handled hh, hbase]
    change Stretch.total (_ :: _) ≤ _
    rw [Stretch.total_cons, entryTime, hbase, Option.elim_some, if_pos rfl, Nat.add_comm]
    exact Nat.add_le_add_left (Nat.le_add_right _ _) _
  | wake hgo _ hcall hw hb =>
    rw [Ledger.next, hgo, hcall, hw, hb]
    exact hold
  | keep hgo hbase hcall hw =>
    rw [Ledger.next, hgo, hcall, hw, hbase]
    exact hold
  | error he =>
    rw [Ledger.next, he]
    exact Nat.zero_le _
  | start hs =>
    rw [Ledger.next, hs, Bool.or_true]
    exact Nat.zero_le _
  | finish _ hcall =>
    rw [Ledger.next, goes_of_handled (handled_of_closedCall hcall), hcall]
    exact Nat.zero_le _

end Accounting

def childrenOf (t : Tally) : Option Str → Children
  | none => t.children
  | some caller => (t.callers.get caller).children

def childrenHom (key : Option Str) : Tally →+ Children where
  toFun t := childrenOf t key
  map_zero' := by
    cases key with
    | none => rfl
    | some caller => simp [childrenOf]
  map_add' t u := by
    cases key with
    | none => rfl
    | some caller => simp [childrenOf, TallyMap.get_add]

/-- The totals of one name are those of a time of at most `n`, of which a part was off the cpu. -/
def Covered (c : Children) (name : Str) (n : ℕ) : Prop :=
  ∃ wall sched : ℕ, sched ≤ wall ∧ wall ≤ n ∧ (c.target.get name).total = UInt64.ofNat wall ∧
    (c.sched.get name).total = UInt64.ofNat sched

section Covering

variable {c d : Children} {name : Str} {m n : ℕ}

lemma Covered.zero (name : Str) : Covered 0 name 0 :=
  ⟨0, 0, le_rfl, le_rfl, by simp, by simp⟩

lemma Covered.mono (h : Covered c name m) (hmn : m ≤ n) : Covered c name n := by
  obtain ⟨wall, sched, hle, hwall, ht, hs⟩ := h
  exact ⟨wall, sched, hle, hwall.trans hmn, ht, hs⟩

lemma Covered.add (h : Covered c name m) (h' : Covered d name n) : Covered (c + d) name (m + n) := by
  obtain ⟨wall, sched, hle, hwall, ht, hs⟩ := h
  obtain ⟨wall', sched', hle', hwall', ht', hs'⟩ := h'
  refine ⟨wall + wall', sched + sched', by omega, by omega, ?_, ?_⟩
  · rw [Children.add_target, TallyMap.get_add, Element.add_total, ht, ht', UInt64.ofNat_add]
  · rw [Children.add_sched, TallyMap.get_add, Element.add_total, hs, hs', UInt64.ofNat_add]

lemma Covered.le (h : Covered c name n) (hn : n < 2 ^ 64) :
    (c.sched.get name).total ≤ (c.target.get name).total := by
  obtain ⟨wall, sched, hle, hwall, ht, hs⟩ := h
  rw [ht, hs, UInt64.le_iff_toNat_le, UInt64.toNat_ofNat_of_lt' ((hle.trans hwall).trans_lt hn),
    UInt64.toNat_ofNat_of_lt' (hwall.trans_lt hn)]
  exact hle

lemma addVal_total (b : Bucket) (k : Str) (v : UInt64) :
    ((b.addVal k v).get name).total = (b.get name).total + if k == name then v else 0 := by
  rw [Bucket.addVal, TallyMap.get_bump]
  by_cases hk : name = k
  · rw [if_pos hk, hk, if_pos (beq_self_eq_true k)]
    rfl
  · rw [if_neg hk, if_neg fun heq => hk (beq_iff_eq.mp heq).symm, add_zero]

lemma Covered.entry {c : LatencyChild} (h : Covered c.toChildren name n) (k : Str) {latT latS : UInt64}
    (hle : latS ≤ latT) : Covered ((c.addTarget k latT).addSched k latS).toChildren name
      (n + if k == name then latT.toNat else 0) := by
  obtain ⟨wall, sched, hsw, hwall, ht, hs⟩ := h
  have hle := UInt64.le_iff_toNat_le.mp hle
  refine ⟨wall + if k == name then latT.toNat else 0, sched + if k == name then latS.toNat else 0,
    by split <;> omega, by split <;> omega, ?_, ?_⟩
  · rw [LatencyChild.addSched_target, LatencyChild.addTarget, addVal_total, ht, UInt64.ofNat_add]
    split
    · rw [UInt64.ofNat_toNat]
    · rfl
  · have hsched : ((((c.addTarget k latT).addSched k latS).sched).get name).total =
        (c.sched.get name).total + if k == name then latS else 0 := by
      rw [LatencyChild.addSched]
      split
      · rename_i hz
        rw [show latS = 0 by simpa using hz, ite_self, add_zero]
        rfl
      · exact addVal_total _ _ _
    rw [hsched, hs, UInt64.ofNat_add]
    split
    · rw [UInt64.ofNat_toNat]
    · rfl

lemma Covered.ofChildren (h : Covered c name n) (key : Option Str) (caller : Str) (gather : Bool) :
    Covered (childrenHom key (Tally.ofChildren c caller gather)) name n := by
  have hzero : Covered 0 name n := (Covered.zero name).mono (Nat.zero_le n)
  cases key with
  | none =>
    change Covered (if gather then c else 0) name n
    split
    · exact h
    · exact hzero
  | some k =>
    change Covered ((TallyMap.single caller (⟨0, c⟩ : LatencyCaller)).get k).children name n
    rw [TallyMap.get_single]
    split
    · exact h
    · exact hzero

lemma childrenHom_counts (key : Option Str) (l : Latency) (count : UInt64) :
    childrenHom key ⟨l, 0, 0, count⟩ = 0 := by
  cases key with
  | none => rfl
  | some k =>
    change ((0 : TallyMap Str LatencyCaller).get k).children = 0
    rw [TallyMap.get_zero]
    rfl

lemma Covered.ofUnknown (h : Covered c name n) (key : Option Str) (caller : Str) :
    Covered (childrenHom key (Tally.ofUnknown c caller)) name n := by
  rw [Tally.ofUnknown, map_add, childrenHom_counts, add_zero]
  exact h.ofChildren key caller _

lemma childrenHom_ofLatency (key : Option Str) (latT latS : UInt64) (caller : Str) :
    childrenHom key (Tally.ofLatency latT latS caller) = 0 := by
  have hone : ∀ l : Latency, childrenHom key ⟨l, 0, .single caller ⟨l, 0⟩, 0⟩ = 0 := by
    intro l
    cases key with
    | none => rfl
    | some k =>
      change ((TallyMap.single caller (⟨l, 0⟩ : LatencyCaller)).get k).children = 0
      rw [TallyMap.get_single]
      split <;> rfl
  rw [Tally.ofLatency, map_add]
  split
  · rw [map_zero, add_zero]
    exact hone _
  · rw [Tally.ofTarget, Tally.ofSched, hone, hone, add_zero]

end Covering

section Rounds

variable {p : Param} {s s' : State} {a : Action} {rest : List Action} {es : List Effect} {n : ℕ}
  {t : Tally} {name : Str}

lemma covered_counts (key : Option Str) (opt : StatOption) (hes : ∀ e ∈ es, e.counts = true)
    (ht : totalTally opt es = .ok t) : childrenHom key t = 0 := by
  induction es generalizing t with
  | nil =>
    cases ht
    exact map_zero _
  | cons e es ih =>
    obtain ⟨t₁, t₂, he, hrest, rfl⟩ := totalTally_cons_inv ht
    rw [List.forall_mem_cons] at hes
    rw [map_add, ih hes.2 hrest, add_zero]
    cases e with
    | add | addUnknownLatency => cases hes.1
    | countSched =>
      cases he
      exact childrenHom_counts key 0 1
    | addMiss | countAncestorBegin | countAncestorEnd =>
      cases he
      exact map_zero _

lemma covered_unfinished (h : Covered s.child.toChildren name n) :
    Covered (unfinished p s a).toChildren name n := by
  rw [unfinished]
  split
  · exact (h.entry _ (UInt64.le_refl 0)).mono (by simp)
  · exact h

lemma covered_flush (key : Option Str) (h : Covered s.child.toChildren name n) :
    Covered (childrenHom key (flushTally p s a)) name n := by
  rw [flushTally]
  split
  · rw [map_zero]
    exact (Covered.zero name).mono (Nat.zero_le n)
  · exact (covered_unfinished h).ofUnknown key _

lemma covered_leftover (key : Option Str) (opt : StatOption) (h : Covered s.child.toChildren name n)
    (ht : totalTally opt (leftover s) = .ok t) : Covered (childrenHom key t) name n := by
  rw [leftover] at ht
  split at ht
  · cases ht
    rw [map_zero]
    exact (Covered.zero name).mono (Nat.zero_le n)
  · rw [totalTally_singleton] at ht
    cases ht
    exact h.ofUnknown key _

lemma callWithSelf_of_counted {start : Action} (hcall : closedCall p s a = some start) (hc : p.codeBlock = false)
    (hin : ¬ (!FuncStat.inInterval p.statOption (a.ts - start.ts) start.ts ||
      (p.timeline && start.ts ≥ p.timeStart)) = true) (hslots : HasSlots s a start) :
    callWithSelf p s a = some start := by
  have hcounted : countedCall p s a = some start := by
    rw [countedCall, hcall, Option.filter_some, if_pos]
    rw [Bool.eq_false_of_not_eq_true hin, Bool.not_false]
  rw [callWithSelf, hc, if_neg Bool.false_ne_true, hcounted, Option.filter_some, if_pos (decide_eq_true hslots)]

lemma covered_call (key : Option Str) (h : Covered s.child.toChildren name n) {start : Action}
    (hcall : closedCall p s a = some start)
    (hself : ∀ call ∈ callWithSelf p s a, selfSched s ≤ selfWall s a call)
    (ht : Tally.ofCall p.statOption start (rewriteJump a) s.schedInTarget s.child = .ok t) :
    Covered (childrenHom key t) name (n + entryTime p (· == name) s a) := by
  have hzero : Covered 0 name (n + entryTime p (· == name) s a) :=
    (Covered.zero name).mono (Nat.zero_le _)
  rw [Tally.ofCall, rewriteJump_ts] at ht
  split at ht
  · cases ht
    rw [map_zero]
    exact hzero
  · rename_i hin
    split at ht
    · rename_i hslots
      cases ht
      rw [map_add, childrenHom_ofLatency, zero_add]
      apply Covered.ofChildren
      rw [FuncStat.withSelf]
      split
      · exact h.mono (Nat.le_add_right _ _)
      · rename_i hc
        have hsome := callWithSelf_of_counted hcall (Bool.eq_false_of_not_eq_true hc) hin hslots
        refine (h.entry targetSelf (hself start hsome)).mono (Nat.add_le_add_left ?_ n)
        rw [entryTime, hsome]
        exact Nat.le_add_left _ _
    · cases ht

/-- What a round adds to the statistics and leaves with the children exceeds what the children
had by the time that it enters. -/
lemma covered_round (key : Option Str) (hm : Move p s a s' es)
    (hrec : ∀ base ∈ recordBase p s a, s.schedInChild ≤ a.ts - base.ts)
    (hself : ∀ call ∈ callWithSelf p s a, selfSched s ≤ selfWall s a call)
    (h : Covered s.child.toChildren name n) (ht : totalTally p.statOption es = .ok t) :
    ∃ m₁ m₂, Covered (childrenHom key t) name m₁ ∧ Covered s'.child.toChildren name m₂ ∧
      m₁ + m₂ ≤ n + entryTime p (· == name) s a := by
  have hzero : Covered 0 name 0 := Covered.zero name
  have hclear : Covered LatencyChild.clear.toChildren name 0 := hzero
  cases hm.recordMove with
  | @record base hbase _ hchild _ _ hes =>
    rw [hes] at ht
    cases ht
    refine ⟨0, _, by rw [map_zero]; exact hzero, ?_, (Nat.zero_add _).le⟩
    rw [hchild]
    refine (h.entry _ (hrec base hbase)).mono (Nat.add_le_add_left ?_ n)
    rw [entryTime, hbase]
    exact Nat.le_add_right _ _
  | wake _ _ _ _ _ hs' hes =>
    refine ⟨0, n, ?_, by rw [hs']; exact h, by omega⟩
    rw [covered_counts key _ (by rw [hes]; simp [Effect.counts]) ht]
    exact hzero
  | keep _ _ _ _ hchild _ _ hes =>
    exact ⟨0, n, by rw [covered_counts key _ hes ht]; exact hzero, by rw [hchild]; exact h, by omega⟩
  | error _ hs' hes =>
    rw [hes, errorStep, totalTally_singleton] at ht
    cases ht
    exact ⟨n, 0, h.ofUnknown key _, by rw [hs']; exact hclear, by omega⟩
  | start _ hs' hes =>
    rw [hes, startStep_tally] at ht
    cases ht
    exact ⟨n, 0, covered_flush key h, by rw [hs']; exact hclear, by omega⟩
  | finish _ hcall hchild _ _ hes =>
    rw [hes, totalTally_singleton] at ht
    exact ⟨_, 0, covered_call key h hcall hself ht, by rw [hchild]; exact hclear, le_rfl⟩

end Rounds

section Runs

variable {p : Param} {s : State} {l : Ledger} {now n : ℕ} {t : Tally} {name : Str}

lemma enteredTime_cons {s' : State} {a : Action} {rest : List Action} {es : List Effect} (f : Str → Bool)
    (h : step p s a rest = .ok (s', es)) :
    enteredTime p f s (a :: rest) = entryTime p f s a + enteredTime p f s' rest := by
  rw [enteredTime, h]

lemma recordsBounded_iff (xs : List Action) (hacc : Accounts now s l) (hsorted : SortedByTime xs)
    (hnow : ∀ a ∈ xs, now ≤ a.ts.toNat)
    (hlt : Stretch.total l.records + enteredTime p (fun _ => true) s xs < 2 ^ 64) :
    RecordsBounded p s xs ↔ Settled p s l xs := by
  induction xs generalizing s l now with
  | nil => exact Iff.rfl
  | cons a rest ih =>
    obtain ⟨hfirst, hsorted'⟩ := List.pairwise_cons.mp hsorted
    have hle := hnow a List.mem_cons_self
    have hrecord : (∀ base ∈ recordBase p s a, s.schedInChild ≤ a.ts - base.ts) ↔
        ∀ base ∈ recordBase p s a, Stretch.Fits base.ts.toNat a.ts.toNat l.pending :=
      forall₂_congr fun base hbase => hacc.record_le_iff hle hbase
    have hself : (∀ call ∈ callWithSelf p s a, selfSched s ≤ selfWall s a call) ↔
        ∀ call ∈ callWithSelf p s a, l.CallFits call a :=
      forall₂_congr fun call hcall => hacc.self_le_iff hle hcall (by omega)
    have hrest : ∀ r, step p s a rest = .ok r →
        (RecordsBounded p r.1 rest ↔ Settled p r.1 (l.next p s a r.1) rest) := by
      intro r hstep
      have hm := move_of_step hstep
      have hgrow := records_next_le hm l
      rw [enteredTime_cons _ hstep] at hlt
      exact ih (hacc.next hm hle) hsorted' (fun b hb => UInt64.le_iff_toNat_le.mp (hfirst b hb)) (by omega)
    rw [RecordsBounded, Settled, hrecord, hself]
    refine and_congr_right fun hfits => and_congr_right fun _ => ?_
    have hassert : step p s a rest ≠ .error .schedExceedsLatency := by
      intro hstep
      obtain ⟨c, hc, hexceeds⟩ := step_exceeds hstep
      exact UInt64.not_lt.mpr (hrecord.mpr hfits c hc) hexceeds
    rw [and_iff_right hassert]
    exact forall₂_congr hrest

lemma covered_tallyFrom (key : Option Str) (xs : List Action) (hbound : RecordsBounded p s xs)
    (h : Covered s.child.toChildren name n) (ht : tallyFrom p s xs = .ok t) :
    Covered (childrenHom key t) name (n + enteredTime p (· == name) s xs) := by
  induction xs generalizing s n t with
  | nil => exact covered_leftover key _ h ht
  | cons a rest ih =>
    obtain ⟨s', es, t₁, t₂, hstep, hes, hrest, rfl⟩ := tallyFrom_cons_inv ht
    obtain ⟨hrec, hself, -, hnext⟩ := hbound
    obtain ⟨m₁, m₂, h₁, h₂, hsum⟩ := covered_round key (move_of_step hstep) hrec hself h hes
    have hnext : RecordsBounded p s' rest := hnext _ hstep
    rw [map_add, enteredTime_cons _ hstep]
    exact (h₁.add (ih hnext h₂ hrest)).mono (by omega)

lemma covered_merged (key : Option Str) (name : Str) {threads : List (List Action)}
    {stats : List FuncStat} (hok : List.Forall₂ (fun l stat => doAnalyze p l = .ok stat) threads stats)
    (hbound : ∀ l ∈ threads, RecordsBounded p .init l) {stat₀ : FuncStat}
    (h : Covered (childrenHom key stat₀.toTally) name n) :
    Covered (childrenHom key (stats.foldl FuncStat.merge stat₀).toTally) name
      (n + (threads.map (enteredTime p (· == name) .init)).sum) := by
  induction hok generalizing stat₀ n with
  | nil => exact h
  | cons hone _ ih =>
    rw [List.forall_mem_cons] at hbound
    have hcov := covered_tallyFrom key _ hbound.1 (Covered.zero name) (tallyFrom_of_doAnalyze hone)
    rw [List.map_cons, List.sum_cons, ← Nat.add_assoc, List.foldl_cons]
    refine ih hbound.2 ?_
    rw [show ∀ u, (stat₀.merge u).toTally = stat₀.toTally + u.toTally from fun _ => rfl, map_add]
    exact h.add (hcov.mono (Nat.zero_add _).le)

end Runs

instance decidableSettled (p : Param) (s : State) (l : Ledger) :
    (xs : List Action) → Decidable (Settled p s l xs)
  | [] => isTrue trivial
  | a :: rest =>
    let first : Prop := (∀ base ∈ recordBase p s a, Stretch.Fits base.ts.toNat a.ts.toNat l.pending) ∧
      (∀ call ∈ callWithSelf p s a, l.CallFits call a)
    match hstep : step p s a rest with
    | .error f => decidable_of_iff first (by simp [Settled, hstep, first])
    | .ok r =>
      have := decidableSettled p r.1 (l.next p s a r.1) rest
      decidable_of_iff (first ∧ Settled p r.1 (l.next p s a r.1) rest) (by
        simp [Settled, hstep, first, and_assoc])

instance decidableRecordsBounded (p : Param) (s : State) :
    (xs : List Action) → Decidable (RecordsBounded p s xs)
  | [] => isTrue trivial
  | a :: rest =>
    let first : Prop := (∀ base ∈ recordBase p s a, s.schedInChild ≤ a.ts - base.ts) ∧
      (∀ call ∈ callWithSelf p s a, selfSched s ≤ selfWall s a call)
    match hstep : step p s a rest with
    | .error f => decidable_of_iff (first ∧ f ≠ .schedExceedsLatency) (by
        simp [RecordsBounded, hstep, first, and_assoc])
    | .ok r =>
      have := decidableRecordsBounded p r.1 rest
      decidable_of_iff (first ∧ RecordsBounded p r.1 rest) (by
        simp [RecordsBounded, hstep, first, and_assoc])

namespace Sample

def blockParam : Param := { offcpuParam with codeBlock := true }

def comeBack (ts : UInt64) : Action := branchOf param .ret ts (callee 8) (target 37)

def sleepingChild : List Action :=
  [enter 0, callOut 5, sleep 10, wake 60, comeBack 70, leave .ret 100]

/-- A child of a child, and a sleep of the target itself. -/
def nestedChildren : List Action :=
  [enter 0, callOut 5, callOut 6, comeBack 7, comeBack 8, sleep 10, wake 60, leave .ret 100]

def traceStop (ts : UInt64) : Action := branchOf param .trEnd ts (target 40) ⟨lit "[unknown]", 0, 0⟩

def sleepBeforeEnd : List Action :=
  [enter 0, sleep 10, wake 110, traceStop 111, comeBack 112, leave .ret 200]

def sleepAcrossReturn : List Action :=
  [enter 0, callOut 1, sleep 2, comeBack 100, wake 101, leave .ret 102]

def sleepAcrossBlock : List Action :=
  [enter 0, callOut 5, sleep 10, comeBack 50, wake 100, callOut 101]

def childTotals (p : Param) (actions : List Action) (name : Str) : Option (UInt64 × UInt64) :=
  (doAnalyze p actions).toOption.map fun stat =>
    ((stat.children.target.get name).total, (stat.children.sched.get name).total)

end Sample

end PtPerf.Analysis
