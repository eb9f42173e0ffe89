import PtPerf.Analysis.Reference

/-! Call trees in the full trace: every call out of the target comes back by a return, an
interrupt return or a jump. -/

namespace PtPerf.Analysis

open PtPerf.Support PtPerf.Trace PtPerf.Stats

structure Invocation.IsCallTree (inv : Invocation) : Prop where
  start : Enters inv.start
  items : ∀ it ∈ inv.items, it.IsCallReturn
  finish : Leaves inv.finish
  finishType : inv.finish.type = .ret

lemma Invocation.IsCallTree.wellFormed {inv : Invocation} (h : inv.IsCallTree) : inv.WellFormed where
  start := h.start
  items it hi := Or.inl (h.items it hi)
  finish := ⟨h.finish, Or.inl h.finishType⟩

/-- One row for each call made from the target, and one for the time in between. -/
def Invocation.treeRows (p : Param) (inv : Invocation) : List (Str × UInt64) :=
  inv.items.map (fun it => (it.key p, it.duration)) ++
    [(targetSelf, inv.latency - (inv.items.map Item.duration).sum)]

section

variable {p : Param}

lemma itemsEntries_calls (hc : p.codeBlock = false) (items : List Item) (prev : Action)
    (hi : ∀ it ∈ items, it.IsCallReturn) :
    itemsEntries p prev items = items.map fun it => (it.key p, it.duration) := by
  induction items generalizing prev with
  | nil => rfl
  | cons it items ih =>
    have hchild := (hi it (by simp)).isChild
    have hrest := ih it.back fun j hj => hi j (by simp [hj])
    simp [itemsEntries, Item.entries, blockEntry, hc, hchild, hrest]

lemma Invocation.IsCallTree.rows_eq {inv : Invocation} (h : inv.IsCallTree)
    (hc : p.codeBlock = false) (hs : SortedByTime inv.actions) : inv.rows p = inv.treeRows p := by
  have hentries : inv.entries p = inv.items.map fun it => (it.key p, it.duration) :=
    itemsEntries_calls hc inv.items inv.start h.items
  have hsum : ((inv.entries p).map Prod.snd).sum = (inv.items.map Item.duration).sum := by
    rw [hentries, List.map_map]
    rfl
  have hself : inv.self p = inv.latency - (inv.items.map Item.duration).sum := by
    have hspent := Invocation.spent_toNat (p := p) hs
    have hle := inv.spent_le p hs
    rw [hsum] at hspent
    apply UInt64.toNat_inj.mp
    rw [Invocation.self_toNat, UInt64.toNat_sub_of_le _ _ (UInt64.le_iff_toNat_le.mpr (by omega)),
      hspent]
  rw [Invocation.rows, Invocation.treeRows, hentries, hself, hc]
  rfl

end

theorem call_tree_statistics_iff (p : Param) (hp : Unfiltered p) (hcode : p.codeBlock = false)
    (invs : List Invocation) (htree : ∀ inv ∈ invs, inv.IsCallTree)
    (hsorted : SortedByTime (invs.flatMap Invocation.actions)) :
    (∃ stat, doAnalyze p (invs.flatMap Invocation.actions) = .ok stat ∧
      MatchesCalls p (Invocation.treeRows p) invs stat.toTally) ↔
        WithinRange (Invocation.treeRows p) invs := by
  have hrows : ∀ inv ∈ invs, inv.rows p = inv.treeRows p := fun inv hi =>
    (htree inv hi).rows_eq hcode (sorted_invocation hsorted inv hi)
  have hiff := invocations_match_iff hp (fun inv hi => (htree inv hi).wellFormed) hsorted
  constructor
  · rintro ⟨stat, hok, hm⟩
    exact (hiff.mp ⟨stat, hok, hm.congr fun inv hi => (hrows inv hi).symm⟩).congr hrows
  · intro hr
    obtain ⟨stat, hok, hm⟩ := hiff.mpr (hr.congr fun inv hi => (hrows inv hi).symm)
    exact ⟨stat, hok, hm.congr hrows⟩

namespace Sample

def param : Param := .default (lit "f")

def main (offset : UInt32) : Symbol := ⟨lit "main", 0x401100, offset⟩

def target (offset : UInt32) : Symbol := ⟨lit "f", 0x401200, offset⟩

def callee (offset : UInt32) : Symbol := ⟨lit "g", 0x401300, offset⟩

def enter (ts : UInt64) : Action := branchOf param .call ts (main 16) (target 0)

def leave (type : BranchType) (ts : UInt64) : Action := branchOf param type ts (target 48) (main 21)

lemma enters (ts : UInt64) : Enters (enter ts) := ⟨⟨rfl, rfl, rfl, rfl, rfl⟩, rfl, rfl, rfl⟩

lemma leaves (type : BranchType) (ts : UInt64) : Leaves (leave type ts) :=
  ⟨⟨rfl, rfl, rfl, rfl, rfl⟩, rfl, rfl⟩

lemma unfiltered : Unfiltered param := ⟨rfl, rfl, rfl, rfl⟩

/-- A call of `g` between two moments of `f`. -/
def callItem (t u : UInt64) : Item where
  leave := branchOf param .call t (target 32) (callee 0)
  back := branchOf param .ret u (callee 8) (target 37)

lemma callItem_isCallReturn (t u : UInt64) : (callItem t u).IsCallReturn :=
  ⟨⟨⟨rfl, rfl, rfl, rfl, rfl⟩, rfl, rfl⟩, Or.inl rfl, ⟨⟨rfl, rfl, rfl, rfl, rfl⟩, rfl, rfl⟩,
    Or.inl ⟨Or.inl rfl, show (37 : UInt32) ≠ 0 by decide⟩⟩

def longCall : Invocation := ⟨enter 0, [], leave .ret 0x8000000000000000⟩

def shortCall : Invocation := ⟨enter 10, [callItem 20 50], leave .ret 110⟩

end Sample

open Sample in
theorem longCall_not_recorded :
    (∀ inv ∈ [longCall], inv.IsCallTree) ∧ SortedByTime ([longCall].flatMap Invocation.actions) ∧
      ¬ ∃ stat, doAnalyze param ([longCall].flatMap Invocation.actions) = .ok stat ∧
        MatchesCalls param (Invocation.treeRows param) [longCall] stat.toTally := by
  refine ⟨?_, ?_, ?_⟩
  · rintro inv hi
    obtain rfl := List.mem_singleton.mp hi
    exact ⟨enters 0, fun _ h => absurd h List.not_mem_nil, leaves _ _, rfl⟩
  · change List.Pairwise _ _
    decide
  · rintro ⟨stat, hok, -⟩
    have herror : doAnalyze param ([longCall].flatMap Invocation.actions) = .error .slotLoop := by
      rfl
    rw [herror] at hok
    cases hok

open Sample in
theorem shortCall_recorded :
    ∃ stat, doAnalyze param ([shortCall].flatMap Invocation.actions) = .ok stat ∧
      MatchesCalls param (Invocation.treeRows param) [shortCall] stat.toTally := by
  refine (call_tree_statistics_iff param unfiltered rfl [shortCall] ?_ ?_).mpr ?_
  · rintro inv hi
    obtain rfl := List.mem_singleton.mp hi
    refine ⟨enters 10, fun it hit => ?_, leaves _ _, rfl⟩
    obtain rfl := List.mem_singleton.mp hit
    exact callItem_isCallReturn 20 50
  · change List.Pairwise _ _
    decide
  · refine ⟨by decide, by decide, fun k => ?_⟩
    exact (TallyMap.length_valuesAt_le _ k).trans_lt (by decide)

end PtPerf.Analysis
