import PtPerf.Support.BinHeap

/-! The heap that says which queue is decoded next. An item names a queue and the time of its
next sample, and the array grows with the queue numbers, not with the number of items. Times are
the 64-bit ticks of the source; nothing in this module computes with them. -/

namespace PtPerf.Decode

open PtPerf.Support

structure HeapItem where
  queueNr : ℕ
  ordinal : ℕ
  deriving DecidableEq, Repr

/-- `struct auxtrace_heap`; the positions from `heapSz` on are not allocated. -/
structure AuxtraceHeap where
  heapArray : ℕ → HeapItem
  heapCnt : ℕ
  heapSz : ℕ

inductive HeapFault where
  | outOfBounds
  deriving DecidableEq, Repr

def initNrQueues : ℕ := 32

/-- `while (heap_sz <= queue_nr) heap_sz <<= 1`, in 32 bits. -/
def doubleSize (queueNr : ℕ) : ℕ → ℕ → ℕ
  | 0, sz => sz
  | fuel + 1, sz => if sz ≤ queueNr then doubleSize queueNr fuel (sz * 2 % 2 ^ 32) else sz

namespace AuxtraceHeap

def empty : AuxtraceHeap := ⟨fun _ => ⟨0, 0⟩, 0, 0⟩

/-- `auxtrace_heapify`: the first write is to `pos`, the others are to smaller positions. -/
def heapify (heapArray : ℕ → HeapItem) (pos queueNr : ℕ) (ordinal : ℕ) : ℕ → HeapItem :=
  BinHeap.siftUp HeapItem.ordinal pos heapArray pos ⟨queueNr, ordinal⟩

/-- `auxtrace_heap__add`, when `realloc` succeeds. -/
def add (h : AuxtraceHeap) (queueNr : ℕ) (ordinal : ℕ) : Except HeapFault AuxtraceHeap :=
  let sz := if queueNr ≥ h.heapSz then doubleSize queueNr 26 initNrQueues else h.heapSz
  if h.heapCnt < sz then .ok ⟨heapify h.heapArray h.heapCnt queueNr ordinal, h.heapCnt + 1, sz⟩
  else .error .outOfBounds

def pop (h : AuxtraceHeap) : AuxtraceHeap :=
  if h.heapCnt = 0 then h
  else { h with heapArray := BinHeap.pop HeapItem.ordinal h.heapCnt h.heapArray
                heapCnt := h.heapCnt - 1 }

/-- `heap_array[0]`, if there is an item. -/
def top? (h : AuxtraceHeap) : Option HeapItem := if h.heapCnt = 0 then none else some (h.heapArray 0)

def items (h : AuxtraceHeap) : Multiset HeapItem := BinHeap.contents h.heapCnt h.heapArray

def queues (h : AuxtraceHeap) : Multiset ℕ := h.items.map HeapItem.queueNr

/-- The items are in heap order, and each queue is there once, below the size of the array. -/
structure Valid (h : AuxtraceHeap) : Prop where
  ordered : BinHeap.Ordered HeapItem.ordinal h.heapCnt h.heapArray
  nodup : h.queues.Nodup
  fits : ∀ q ∈ h.queues, q < h.heapSz

end AuxtraceHeap

lemma doubleSize_gt {queueNr j : ℕ} (fuel : ℕ) (hj : j + fuel ≤ 31) (hq : queueNr < 2 ^ (j + fuel)) :
    queueNr < doubleSize queueNr fuel (2 ^ j) := by
  induction fuel generalizing j with
  | zero => exact hq
  | succ fuel ih =>
    rw [doubleSize]
    split_ifs with hle
    · have hpow : 2 ^ j * 2 % 2 ^ 32 = 2 ^ (j + 1) := by
        rw [← pow_succ]
        exact Nat.mod_eq_of_lt (Nat.pow_lt_pow_right one_lt_two (by omega))
      rw [hpow]
      exact ih (by omega) (by rwa [show j + 1 + fuel = j + (fuel + 1) by omega])
    · exact not_le.mp hle

lemma grown_gt {queueNr : ℕ} (h : queueNr < 2 ^ 31) :
    queueNr < doubleSize queueNr 26 initNrQueues := doubleSize_gt 26 le_rfl h

namespace AuxtraceHeap

variable {h h' : AuxtraceHeap} {q : ℕ} {o : ℕ}

lemma card_queues (h : AuxtraceHeap) : h.queues.card = h.heapCnt := by
  rw [queues, Multiset.card_map, items, BinHeap.card_contents]

lemma valid_empty : empty.Valid where
  ordered _ _ hi := absurd hi (Nat.not_lt_zero _)
  nodup := Multiset.nodup_zero
  fits _ hq := absurd hq (Multiset.notMem_zero _)

/-- Distinct numbers below `heap_sz` are at most `heap_sz` many. -/
lemma Valid.heapCnt_le (hv : h.Valid) : h.heapCnt ≤ h.heapSz := by
  rw [← card_queues, ← Multiset.card_range h.heapSz]
  refine Multiset.card_le_card ((Multiset.le_iff_subset hv.nodup).mpr fun q hq => ?_)
  exact Multiset.mem_range.mpr (hv.fits q hq)

lemma Valid.heapCnt_lt (hv : h.Valid) {sz : ℕ} (hsz : h.heapSz ≤ sz) (hq : q ∉ h.queues)
    (hlt : q < sz) : h.heapCnt < sz := by
  have hcard : (q ::ₘ h.queues).card ≤ (Multiset.range sz).card := by
    refine Multiset.card_le_card ((Multiset.le_iff_subset (hv.nodup.cons hq)).mpr fun r hr => ?_)
    rw [Multiset.mem_range]
    rcases Multiset.mem_cons.mp hr with rfl | hr
    · exact hlt
    · exact (hv.fits r hr).trans_le hsz
  rw [Multiset.card_cons, card_queues, Multiset.card_range] at hcard
  exact hcard

lemma Valid.add (hv : h.Valid) (hq : q ∉ h.queues) (hlt : q < 2 ^ 31) (o : ℕ) :
    ∃ h', h.add q o = .ok h' ∧ h'.Valid ∧ h'.items = ⟨q, o⟩ ::ₘ h.items := by
  -- the size after the reallocation
  obtain ⟨sz, hsz, hle, hroom⟩ : ∃ sz, sz = (if q ≥ h.heapSz then doubleSize q 26 initNrQueues
      else h.heapSz) ∧ h.heapSz ≤ sz ∧ q < sz := by
    refine ⟨_, rfl, ?_⟩
    split_ifs with hge
    · exact ⟨hge.trans (grown_gt hlt).le, grown_gt hlt⟩
    · exact ⟨le_rfl, not_le.mp hge⟩
  have hcnt := hv.heapCnt_lt hle hq hroom
  have hadd : h.add q o =
      .ok ⟨heapify h.heapArray h.heapCnt q o, h.heapCnt + 1, sz⟩ := by
    rw [AuxtraceHeap.add, ← hsz]
    exact if_pos hcnt
  have hitems : BinHeap.contents (h.heapCnt + 1) (heapify h.heapArray h.heapCnt q o) =
      ⟨q, o⟩ ::ₘ h.items := by
    have hsift := BinHeap.siftUp_contents (a := h.heapArray) HeapItem.ordinal h.heapCnt ⟨q, o⟩
      (Nat.lt_succ_self h.heapCnt)
    rw [BinHeap.contents_succ h.heapCnt h.heapArray, Multiset.cons_swap] at hsift
    exact (Multiset.cons_inj_right _).mp hsift
  refine ⟨_, hadd, ⟨?_, ?_, ?_⟩, hitems⟩
  · have hleaf : ∀ i, 0 < i → i < h.heapCnt + 1 → BinHeap.parent i ≠ h.heapCnt := by
      intro i hi hin hp
      have := BinHeap.parent_lt hi
      omega
    refine BinHeap.siftUp_ordered le_rfl (Nat.lt_succ_self _) ⟨?_, ?_⟩ ?_
    · intro i hi hin hne _
      exact hv.ordered i hi (lt_of_le_of_ne (Nat.lt_succ_iff.mp hin) hne)
    · exact fun i hi hin hp => absurd hp (hleaf i hi hin)
    · exact fun i hi hin hp => absurd hp (hleaf i hi hin)
  · rw [queues, items, hitems, Multiset.map_cons]
    exact hv.nodup.cons hq
  · intro r hr
    rw [queues, items, hitems, Multiset.map_cons] at hr
    rcases Multiset.mem_cons.mp hr with rfl | hr
    · exact hroom
    · exact (hv.fits r hr).trans_le hle

lemma Valid.pop (hv : h.Valid) {x : HeapItem} (htop : h.top? = some x) :
    h.pop.Valid ∧ h.items = x ::ₘ h.pop.items ∧ ∀ y ∈ h.items, x.ordinal ≤ y.ordinal := by
  rw [top?] at htop
  split_ifs at htop with hzero
  cases htop
  obtain ⟨hord, hcont⟩ := BinHeap.pop_spec hv.ordered (Nat.pos_of_ne_zero hzero)
  have hpop : h.pop = ⟨BinHeap.pop HeapItem.ordinal h.heapCnt h.heapArray, h.heapCnt - 1, h.heapSz⟩ := by
    rw [AuxtraceHeap.pop, if_neg hzero]
  have hitems : h.items = h.heapArray 0 ::ₘ h.pop.items := by
    rw [hpop]
    exact hcont.symm
  have hqueues : h.queues = (h.heapArray 0).queueNr ::ₘ h.pop.queues := by
    rw [queues, hitems, Multiset.map_cons]
    rfl
  refine ⟨⟨?_, ?_, ?_⟩, hitems, ?_⟩
  · rw [hpop]
    exact hord
  · have hnodup := hv.nodup
    rw [hqueues] at hnodup
    exact (Multiset.nodup_cons.mp hnodup).2
  · intro r hr
    have hfits := hv.fits r (by rw [hqueues]; exact Multiset.mem_cons_of_mem hr)
    rwa [hpop]
  · intro y hy
    obtain ⟨i, hi, rfl⟩ := BinHeap.mem_contents.mp hy
    exact hv.ordered.root_le hi

lemma top?_eq_none : h.top? = none ↔ h.items = 0 := by
  rw [top?, ← Multiset.card_eq_zero, items, BinHeap.card_contents]
  split_ifs with hzero <;> simp [hzero]

end AuxtraceHeap

section Runs

inductive HeapOp where
  | add (queueNr : ℕ) (ordinal : ℕ)
  | pop
  deriving DecidableEq, Repr

def AuxtraceHeap.perform (h : AuxtraceHeap) : HeapOp → Except HeapFault AuxtraceHeap
  | .add q o => h.add q o
  | .pop => .ok h.pop

/-- What the heap is for: some queues with their times, from which an earliest one is taken. -/
inductive Queued : Multiset HeapItem → HeapOp → Multiset HeapItem → Prop
  | add {s : Multiset HeapItem} {q : ℕ} (o : ℕ) (hq : q ∉ s.map HeapItem.queueNr)
      (hlt : q < 2 ^ 31) : Queued s (.add q o) (⟨q, o⟩ ::ₘ s)
  | pop {s : Multiset HeapItem} (x : HeapItem) (hleast : ∀ y ∈ s, x.ordinal ≤ y.ordinal) :
      Queued (x ::ₘ s) .pop s
  | none : Queued 0 .pop 0

/-- Every add of the run is of a queue that is not on the heap then. -/
def AuxtraceHeap.AddsNew (h : AuxtraceHeap) : List HeapOp → Prop
  | [] => True
  | .add q o :: ops => q ∉ h.queues ∧ q < 2 ^ 31 ∧ ∀ h' ∈ (h.add q o).toOption, h'.AddsNew ops
  | .pop :: ops => h.pop.AddsNew ops

inductive QueuedRun : Multiset HeapItem → List HeapOp → Multiset HeapItem → Prop
  | nil (s : Multiset HeapItem) : QueuedRun s [] s
  | cons {s t u : Multiset HeapItem} {op : HeapOp} {ops : List HeapOp} (hstep : Queued s op t)
      (hrun : QueuedRun t ops u) : QueuedRun s (op :: ops) u

lemma AuxtraceHeap.Valid.queued_pop {h : AuxtraceHeap} (hv : h.Valid) :
    h.pop.Valid ∧ Queued h.items .pop h.pop.items := by
  cases htop : h.top? with
  | none =>
    have hzero : h.heapCnt = 0 := by
      by_contra hne
      rw [AuxtraceHeap.top?, if_neg hne] at htop
      cases htop
    have hsame : h.pop = h := by rw [AuxtraceHeap.pop, if_pos hzero]
    rw [hsame, AuxtraceHeap.top?_eq_none.mp htop]
    exact ⟨hv, .none⟩
  | some x =>
    obtain ⟨hv', hitems, hleast⟩ := hv.pop htop
    refine ⟨hv', ?_⟩
    rw [hitems]
    exact .pop x fun y hy => hleast y (by rw [hitems]; exact Multiset.mem_cons_of_mem hy)

lemma AuxtraceHeap.Valid.perform {h : AuxtraceHeap} (hv : h.Valid) {op : HeapOp} {ops : List HeapOp}
    (hops : h.AddsNew (op :: ops)) :
    ∃ h', h.perform op = .ok h' ∧ h'.Valid ∧ Queued h.items op h'.items ∧ h'.AddsNew ops := by
  cases op with
  | add q o =>
    obtain ⟨hq, hlt, hrest⟩ := hops
    obtain ⟨h', hadd, hv', hitems⟩ := hv.add hq hlt o
    refine ⟨h', hadd, hv', ?_, hrest h' (by rw [hadd]; exact rfl)⟩
    rw [hitems]
    exact .add o hq hlt
  | pop => exact ⟨h.pop, rfl, hv.queued_pop.1, hv.queued_pop.2, hops⟩

/-- From a valid heap, a run that adds no queue twice never leaves the array and is a run of the
abstract queue. -/
lemma heap_run_refines {h : AuxtraceHeap} (hv : h.Valid) {ops : List HeapOp} (hops : h.AddsNew ops) :
    ∃ h', ops.foldlM AuxtraceHeap.perform h = .ok h' ∧ QueuedRun h.items ops h'.items ∧ h'.Valid := by
  induction ops generalizing h with
  | nil => exact ⟨h, rfl, .nil _, hv⟩
  | cons op ops ih =>
    obtain ⟨h₁, hstep, hv₁, hqueued, hrest⟩ := hv.perform hops
    obtain ⟨h', hrun, hqrun, hv'⟩ := ih hv₁ hrest
    refine ⟨h', ?_, .cons hqueued hqrun, hv'⟩
    rw [List.foldlM_cons, hstep]
    exact hrun

/-- The heap that starts empty: as long as no queue is added that is on it, every write is inside the
array, and what is taken is always an earliest queue. -/
theorem auxtrace_heap_safe {ops : List HeapOp} (hops : AuxtraceHeap.empty.AddsNew ops) :
    ∃ h', ops.foldlM AuxtraceHeap.perform .empty = .ok h' ∧ QueuedRun 0 ops h'.items ∧
      h'.heapCnt ≤ h'.heapSz ∧ ∀ y ∈ h'.items, (h'.heapArray 0).ordinal ≤ y.ordinal := by
  obtain ⟨h', hrun, hqrun, hv⟩ := heap_run_refines AuxtraceHeap.valid_empty hops
  refine ⟨h', hrun, hqrun, hv.heapCnt_le, fun y hy => ?_⟩
  obtain ⟨i, hi, rfl⟩ := BinHeap.mem_contents.mp hy
  exact hv.ordered.root_le hi

/-- Queue 1 comes back to the heap after it won the tie with queue 40. -/
theorem auxtrace_heap_safe_run :
    ∃ h', [HeapOp.add 1 5, .add 40 5, .pop, .add 1 6].foldlM AuxtraceHeap.perform .empty = .ok h' ∧
      QueuedRun 0 [.add 1 5, .add 40 5, .pop, .add 1 6] h'.items ∧ h'.heapCnt ≤ h'.heapSz ∧
      ∀ y ∈ h'.items, (h'.heapArray 0).ordinal ≤ y.ordinal := by
  apply auxtrace_heap_safe
  refine ⟨Multiset.notMem_zero _, by decide, fun h₁ h => ?_⟩
  cases h
  refine ⟨by decide, by decide, fun h₂ h => ?_⟩
  cases h
  exact ⟨by decide, by decide, fun _ _ => trivial⟩

end Runs

end PtPerf.Decode
