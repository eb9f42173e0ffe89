import PtPerf.Stats.Contribution

/-! A `FuncStat` keeps each figure twice: overall, and once more for the caller. The overall figures
are the sums of those of the callers. -/

namespace PtPerf.Stats

open PtPerf.Support PtPerf.Trace

/-- The objects that the operations of `FuncStat` make from an empty one. -/
inductive Reachable (opt : StatOption) : FuncStat → Prop
  | new : Reachable opt .new
  | add {s t : FuncStat} {call ret : Action} {latS : UInt64} {child : LatencyChild} :
      Reachable opt s → ret.toSym.name ≠ unknownCaller → s.add opt call ret latS child = .ok t →
        Reachable opt t
  | addUnknownLatency {s : FuncStat} {child : Children} {caller : Str} :
      Reachable opt s → Reachable opt (s.addUnknownLatency child caller)
  | countSched {s : FuncStat} :
      Reachable opt s → Reachable opt { s with schedCount := s.schedCount + 1 }
  | merge {s t : FuncStat} : Reachable opt s → Reachable opt t → Reachable opt (s.merge t)

def callersHom : Tally →+ TallyMap Str LatencyCaller where
  toFun := Tally.callers
  map_zero' := rfl
  map_add' _ _ := rfl

/-- A figure that is kept overall and for each caller. -/
structure Book (W : Type) [AddCommMonoid W] where
  overall : Tally →+ W
  ofCaller : Str → LatencyCaller →+ W

namespace Book

variable {W : Type} [AddCommMonoid W] (b : Book W)

/-- The tallies in which the two sides of the book agree. -/
def balanced : AddSubmonoid Tally :=
  AddMonoidHom.eqLocusM b.overall ((TallyMap.sumHom b.ofCaller).comp callersHom)

variable {b} in
lemma mem_balanced {t : Tally} :
    t ∈ b.balanced ↔ b.overall t = ∑ c ∈ t.callers.keys, b.ofCaller c (t.callers.get c) := Iff.rfl

variable {b} in
lemma mem_balanced_of_single {t : Tally} {caller : Str} {c : LatencyCaller}
    (hc : t.callers = .single caller c) (h : b.overall t = b.ofCaller caller c) : t ∈ b.balanced := by
  rw [mem_balanced, ← TallyMap.sumHom_apply, hc, TallyMap.sumHom_single, h]

/-- Every amount that an operation adds enters both sides of the book. -/
structure Kept : Prop where
  target : ∀ lat caller, Tally.ofTarget lat caller ∈ b.balanced
  sched : ∀ lat caller, Tally.ofSched lat caller ∈ b.balanced
  children : ∀ child caller, Tally.ofChildren child caller (caller != unknownCaller) ∈ b.balanced
  counts : ∀ unknown sched, (⟨⟨0, 0, unknown⟩, 0, 0, sched⟩ : Tally) ∈ b.balanced

end Book

lemma callerKey_ne_unknown (opt : StatOption) (call ret : Action) (h : ret.toSym.name ≠ unknownCaller) :
    FuncStat.callerKey opt call ret ≠ unknownCaller := by
  have hmark : ∀ name addr, funcnameAddAddr name addr ≠ unknownCaller := by
    intro name addr hname
    have hmem : '!'.toUInt8 ∈ unknownCaller := by
      rw [← hname, funcnameAddAddr]
      exact List.mem_append_right _ (List.mem_append_left _ (by decide))
    exact absurd hmem (by decide)
  rw [FuncStat.callerKey]
  split
  · split
    · exact hmark _ _
    · exact hmark _ _
  · exact h

section Balance

variable {W : Type} [AddCommMonoid W] {b : Book W}

lemma Book.Kept.ofCall (hb : b.Kept) {opt : StatOption} {call ret : Action} {latS : UInt64}
    {child : LatencyChild} {t : Tally} (hname : ret.toSym.name ≠ unknownCaller)
    (h : Tally.ofCall opt call ret latS child = .ok t) : t ∈ b.balanced := by
  rw [Tally.ofCall] at h
  split at h
  · cases h
    exact b.balanced.zero_mem
  · split at h
    · cases h
      have hgather : (FuncStat.callerKey opt call ret != unknownCaller) = true :=
        bne_iff_ne.mpr (callerKey_ne_unknown opt call ret hname)
      apply b.balanced.add_mem
      · rw [Tally.ofLatency]
        apply b.balanced.add_mem (hb.target _ _)
        split
        · exact b.balanced.zero_mem
        · exact hb.sched _ _
      · rw [← hgather]
        exact hb.children _ _
    · cases h

lemma Book.Kept.reachable (hb : b.Kept) {opt : StatOption} {s : FuncStat} (h : Reachable opt s) :
    s.toTally ∈ b.balanced := by
  induction h with
  | new => exact b.balanced.zero_mem
  | @add s t call ret latS child _ hname hadd ih =>
    have htally := FuncStat.add_toTally opt s call ret latS child
    rw [hadd] at htally
    cases hcall : Tally.ofCall opt call ret latS child with
    | error f =>
      rw [hcall] at htally
      cases htally
    | ok amount =>
      rw [hcall] at htally
      rw [Except.ok.inj htally]
      exact b.balanced.add_mem ih (hb.ofCall hname hcall)
  | addUnknownLatency _ ih =>
    rw [FuncStat.addUnknownLatency_eq]
    exact b.balanced.add_mem ih (b.balanced.add_mem (hb.children _ _) (hb.counts _ _))
  | @countSched s _ ih =>
    have hsum : ({ s with schedCount := s.schedCount + 1 } : FuncStat).toTally =
        s.toTally + ⟨⟨0, 0, 0⟩, 0, 0, 1⟩ :=
      Tally.ext (add_zero _).symm (add_zero _).symm (add_zero _).symm rfl
    rw [hsum]
    exact b.balanced.add_mem ih (hb.counts _ _)
  | merge _ _ ihs iht => exact b.balanced.add_mem ihs iht

end Balance

def targetBook : Book Distribution where
  overall := ⟨⟨fun t => t.latency.target, rfl⟩, fun _ _ => rfl⟩
  ofCaller _ := ⟨⟨fun c => c.latency.target, rfl⟩, fun _ _ => rfl⟩

def schedBook : Book Distribution where
  overall := ⟨⟨fun t => t.latency.sched, rfl⟩, fun _ _ => rfl⟩
  ofCaller _ := ⟨⟨fun c => c.latency.sched, rfl⟩, fun _ _ => rfl⟩

section ChildBook

variable {W : Type} [AddCommMonoid W] (f : Children →+ W)

/-- The children of an unknown caller enter its own side only. -/
def childBook : Book W where
  overall := f.comp ⟨⟨Tally.children, rfl⟩, fun _ _ => rfl⟩
  ofCaller caller :=
    if caller = unknownCaller then 0 else f.comp ⟨⟨LatencyCaller.children, rfl⟩, fun _ _ => rfl⟩

lemma childBook_overall (t : Tally) : (childBook f).overall t = f t.children := rfl

lemma childBook_ofCaller (caller : Str) (c : LatencyCaller) :
    (childBook f).ofCaller caller c = if caller = unknownCaller then 0 else f c.children := by
  dsimp only [childBook]
  split
  · rfl
  · rfl

end ChildBook

lemma targetBook_kept : targetBook.Kept where
  target _ _ := Book.mem_balanced_of_single rfl rfl
  sched _ _ := Book.mem_balanced_of_single rfl rfl
  children _ _ := Book.mem_balanced_of_single rfl rfl
  counts _ _ := rfl

lemma schedBook_kept : schedBook.Kept where
  target _ _ := Book.mem_balanced_of_single rfl rfl
  sched _ _ := Book.mem_balanced_of_single rfl rfl
  children _ _ := Book.mem_balanced_of_single rfl rfl
  counts _ _ := rfl

lemma childBook_kept {W : Type} [AddCommMonoid W] (f : Children →+ W) : (childBook f).Kept where
  target lat caller := by
    apply Book.mem_balanced_of_single rfl
    simp [childBook_overall, childBook_ofCaller, Tally.ofTarget]
  sched lat caller := by
    apply Book.mem_balanced_of_single rfl
    simp [childBook_overall, childBook_ofCaller, Tally.ofSched]
  children child caller := by
    apply Book.mem_balanced_of_single rfl
    rw [childBook_overall, childBook_ofCaller, Tally.ofChildren]
    by_cases h : caller = unknownCaller
    · simp [h]
    · simp [h]
  counts unknown sched := by
    rw [Book.mem_balanced, childBook_overall, map_zero]
    rfl

/-- A histogram is, in its total, its count and every slot, the sum of others. -/
structure Distribution.IsSum (d : Distribution) (callers : Finset Str) (f : Str → Distribution) : Prop where
  total : d.total = ∑ c ∈ callers, (f c).total
  count : d.count = ∑ c ∈ callers, (f c).count
  slot : ∀ i, d.slot i = ∑ c ∈ callers, (f c).slot i

lemma Distribution.isSum_of_eq {d : Distribution} {callers : Finset Str} {f : Str → Distribution}
    (h : d = ∑ c ∈ callers, f c) : d.IsSum callers f := by
  have hom {W : Type} [AddCommMonoid W] (φ : Distribution →+ W) : φ d = ∑ c ∈ callers, φ (f c) := by
    rw [h, map_sum]
  exact ⟨hom ⟨⟨Distribution.total, rfl⟩, fun _ _ => rfl⟩, hom ⟨⟨Distribution.count, rfl⟩, fun _ _ => rfl⟩,
    fun i => hom ⟨⟨fun d => d.slot i, rfl⟩, fun d e => Distribution.slot_add d e i⟩⟩

/-- The overall figures of a reachable object are the sums of those of its callers; the children of
the unknown caller are left out. -/
theorem overall_eq_sum_callers (opt : StatOption) (s : FuncStat) (h : Reachable opt s) :
    s.latency.target.IsSum s.callers.keys (fun c => (s.callers.get c).latency.target) ∧
      s.latency.sched.IsSum s.callers.keys (fun c => (s.callers.get c).latency.sched) ∧
      ∀ k, s.children.target.get k =
          ∑ c ∈ s.callers.keys with c ≠ unknownCaller, (s.callers.get c).children.target.get k ∧
        s.children.sched.get k =
          ∑ c ∈ s.callers.keys with c ≠ unknownCaller, (s.callers.get c).children.sched.get k := by
  have hchild {W : Type} [AddCommMonoid W] (f : Children →+ W) : f s.children =
      ∑ c ∈ s.callers.keys with c ≠ unknownCaller, f (s.callers.get c).children := by
    rw [← childBook_overall, Book.mem_balanced.mp ((childBook_kept f).reachable h), Finset.sum_filter]
    refine Finset.sum_congr rfl fun c _ => ?_
    rw [childBook_ofCaller, ite_not]
  refine ⟨Distribution.isSum_of_eq (targetBook_kept.reachable h),
    Distribution.isSum_of_eq (schedBook_kept.reachable h), fun k => ⟨?_, ?_⟩⟩
  · exact hchild ⟨⟨fun c => c.target.get k, rfl⟩, fun a b => TallyMap.get_add a.target b.target k⟩
  · exact hchild ⟨⟨fun c => c.sched.get k, rfl⟩, fun a b => TallyMap.get_add a.sched b.sched k⟩

namespace Sample

def option : StatOption where
  callLine := true
  codeBlock := false
  latencyInterval := (0, 0xFFFFFFFFFFFFFFFF)
  timeInterval := (0, 0xFFFFFFFFFFFFFFFF)
  timeline := false
  timeStart := 0
  timelineUnit := 1
  ipFiltering := false

def call : Action := { (default : Action) with ts := 10, fromSym := ⟨lit "main", 0x401010, 16⟩ }

def ret : Action := { (default : Action) with ts := 20, toSym := ⟨lit "main", 0x401015, 21⟩ }

def chain : Children := (LatencyChild.clear.addTarget (lit "g") 7).toChildren

end Sample

open Sample in
theorem chain_and_call_sum :
    ∃ s, FuncStat.new.add option call ret 3 .clear = .ok s ∧
      (s.merge (FuncStat.new.addUnknownLatency chain unknownCaller)).latency.target.IsSum
        (s.merge (FuncStat.new.addUnknownLatency chain unknownCaller)).callers.keys
        (fun c => ((s.merge (FuncStat.new.addUnknownLatency chain unknownCaller)).callers.get
          c).latency.target) := by
  have hadd : ∃ s, FuncStat.new.add option call ret 3 .clear = .ok s := ⟨_, rfl⟩
  obtain ⟨s, hs⟩ := hadd
  have hname : ret.toSym.name ≠ unknownCaller := by decide
  have hcall : Reachable option s := .add .new hname hs
  exact ⟨s, hs, (overall_eq_sum_callers option _ (hcall.merge Reachable.new.addUnknownLatency)).1⟩

end PtPerf.Stats
