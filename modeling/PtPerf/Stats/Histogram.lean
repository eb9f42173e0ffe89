import PtPerf.Stats.Distribution
import PtPerf.Support.Text

/-! What distributions count after any sequence of `assign_slot` and `merge_slots`, and the rows
in which `HistogramDist::print` shows it. -/

namespace PtPerf.Stats

open PtPerf.Support PtPerf.Support.Text PtPerf.Trace

/-- The values that are counted in slot `i`. -/
def InSlot (i v : ℕ) : Prop := 2 ^ i ≤ v ∧ v ≤ 2 ^ (i + 1) - 1 ∨ i = 0 ∧ v = 0

instance (i v : ℕ) : Decidable (InSlot i v) :=
  inferInstanceAs (Decidable (2 ^ i ≤ v ∧ v ≤ 2 ^ (i + 1) - 1 ∨ i = 0 ∧ v = 0))

namespace Distribution

/-- A call on one of several distributions: `insert` is `assign_slot`, `merge` is `merge_slots`. -/
def perform {ι : Type} [DecidableEq ι] (s : ι → Distribution) :
    Accumulate.Op ι UInt64 → Except Fault (ι → Distribution)
  | .insert d val => do return Function.update s d (← (s d).assignSlot val)
  | .merge d e => return Function.update s d ((s d).mergeSlots (s e))

/-- The `val_max` that `init_val_max` computes. -/
def valMax (d : Distribution) : UInt32 := d.slots.foldl (fun m s => if s > m then s else m) 0

end Distribution

open PtPerf.Stats.Distribution

def printStars (val valMax : UInt64) (width : ℕ) : Str :=
  let numStars : ℤ :=
    if valMax > 0 then (min val valMax * UInt64.ofNat width / valMax).toUInt32.toInt32.toInt else 0
  List.replicate numStars.toNat '*'.toUInt8 ++
    List.replicate (width - numStars).toNat ' '.toUInt8 ++ if val > valMax then lit "+" else []

/-- One line of the table: the bounds of its label, and for each distribution the count in the
slot and the largest count. -/
structure Row where
  low : UInt64
  high : UInt64
  cells : List (UInt32 × UInt32)

namespace Row

def label (r : Row) : Str :=
  padLeft 10 ' '.toUInt8 (signed r.low.toInt64.toInt) ++ lit " -> " ++
    padRight 10 (signed r.high.toInt64.toInt) ++ lit " :"

def text (r : Row) : Str :=
  r.label ++ r.cells.flatMap (fun c =>
    lit " " ++ padRight 9 (signed c.1.toInt32.toInt) ++ lit "|" ++
      printStars c.1.toUInt64 c.2.toUInt64 20 ++ lit "|") ++ lit "\n"

def allZero (r : Row) : Bool := r.cells.all fun c => c.1 == 0

end Row

/-- The distributions of a table stand with their `val_name`. -/
structure HistogramDist where
  unit : Str
  slotSize : ℕ
  dists : List (Str × Distribution)

namespace HistogramDist

def new (unit : Str) : HistogramDist := ⟨unit, 0, []⟩

def addDist (h : HistogramDist) (d : Str × Distribution) : HistogramDist :=
  { h with
    slotSize := if d.2.slots.length > h.slotSize then d.2.slots.length else h.slotSize
    dists := h.dists ++ [d] }

def row (h : HistogramDist) (i : ℕ) : Row :=
  ⟨slotLow i, slotHigh i,
    h.dists.map fun d => ((resize d.2.slots h.slotSize).getD i 0, d.2.valMax)⟩

/-- The slots from `i` on that get a line; empty ones before the first count are skipped. -/
def rowsFrom (h : HistogramDist) : ℕ → ℕ → Bool → List ℕ
  | 0, _, _ => []
  | n + 1, i, skip =>
    if (h.row i).allZero && skip then h.rowsFrom n (i + 1) skip
    else i :: h.rowsFrom n (i + 1) false

def rows (h : HistogramDist) : List ℕ := h.rowsFrom h.slotSize 0 true

def header (h : HistogramDist) : Str :=
  padLeft 10 ' '.toUInt8 [] ++ padRight 14 h.unit ++ lit " : " ++
    h.dists.flatMap (fun d => padRight 10 d.1 ++ lit " " ++ padRight 20 (lit "distribution")) ++
    lit "\n"

def print (h : HistogramDist) : Str :=
  if h.slotSize = 0 then [] else h.header ++ h.rows.flatMap fun i => (h.row i).text

end HistogramDist

structure Counted (d : Distribution) (m : Multiset UInt64) : Prop where
  count : d.count.toNat = m.card
  sum : (d.slots.map UInt32.toNat).sum = d.count.toNat
  slot : ∀ i, (d.slot i).toNat = m.countP fun v => InSlot i v.toNat

/-- The line of slot `i`: its bounds, and for each distribution how many of its values are in it. -/
def slotLine (vals : List (Multiset UInt64)) (stars : List Str) (i : ℕ) : Str :=
  padLeft 10 ' '.toUInt8 (digits 10 (if i = 0 then 0 else 2 ^ i)) ++ lit " -> " ++
    padRight 10 (digits 10 (2 ^ (i + 1) - 1)) ++ lit " :" ++
    (List.zipWith (fun m s =>
      lit " " ++ padRight 9 (signed (UInt32.ofNat (m.countP fun v => InSlot i v.toNat)).toInt32.toInt) ++
        lit "|" ++ s ++ lit "|") vals stars).flatten ++ lit "\n"

/-- Nothing is printed without a value. Otherwise the header is followed by lines without a gap, the
range of a line is that of the values counted in it, and no value is left out. -/
structure Shown (h : HistogramDist) (vals : List (Multiset UInt64)) : Prop where
  empty : (∀ m ∈ vals, m = 0) → h.print = []
  lines : (∃ m ∈ vals, m ≠ 0) → ∃ stars : ℕ → List Str, (∀ i, (stars i).length = vals.length) ∧
    h.print = h.header ++ h.rows.flatMap fun i => slotLine vals (stars i) i
  consecutive : ∃ first, h.rows = List.range' first (h.slotSize - first)
  once : h.rows.Nodup
  range : ∀ i ∈ h.rows, ∀ v : UInt64, (h.row i).low ≤ v ∧ v ≤ (h.row i).high ↔ InSlot i v.toNat
  cells : ∀ i ∈ h.rows, (h.row i).cells.map (fun c => c.1.toNat) =
    vals.map fun m => m.countP fun v => InSlot i v.toNat
  found : ∀ m ∈ vals, ∀ v ∈ m, ∃ i ∈ h.rows, InSlot i v.toNat

section Slots

lemma inSlot_iff {i v : ℕ} : InSlot i v ↔ Nat.log 2 v = i := by
  have hpow : 0 < 2 ^ (i + 1) := by positivity
  by_cases hv : v = 0
  · have hi : ¬ 2 ^ i ≤ 0 := Nat.not_le.mpr (by positivity)
    simp [InSlot, hv, hi, eq_comm]
  · rw [Nat.log_eq_iff (Or.inr ⟨by decide, hv⟩), InSlot]
    omega

lemma countP_inSlot (m : Multiset UInt64) (i : ℕ) :
    (m.countP fun v => InSlot i v.toNat) = m.countP fun v => Nat.log 2 v.toNat = i :=
  Multiset.countP_congr rfl fun _ _ => propext inSlot_iff

lemma sum_countP_log (m : Multiset UInt64) (n : ℕ) :
    ∑ i ∈ Finset.range n, (m.countP fun v => Nat.log 2 v.toNat = i) =
      m.countP fun v => Nat.log 2 v.toNat < n := by
  induction m using Multiset.induction_on with
  | empty => simp
  | cons v m ih => simp only [Multiset.countP_cons, Finset.sum_add_distrib, ih, Finset.sum_ite_eq,
      Finset.mem_range]

lemma sum_slots (d : Distribution) :
    (d.slots.map UInt32.toNat).sum = ∑ i ∈ Finset.range d.slots.length, (d.slot i).toNat := by
  have hslots : d.slots = (List.range d.slots.length).map d.slot := by
    apply List.ext_getElem
    · simp
    · intro i hi _
      simp [slot, hi]
  conv_lhs => rw [hslots, List.map_map]
  rfl

variable {m : Multiset UInt64}

lemma toNat_slot_ofValues (hm : m.card < 2 ^ 32) (i : ℕ) :
    ((ofValues m).slot i).toNat = m.countP fun v => Nat.log 2 v.toNat = i := by
  rw [slot_ofValues, UInt32.toNat_ofNat_of_lt']
  exact (m.countP_le_card _).trans_lt hm

lemma counted_ofValues (hm : m.card < 2 ^ 32) : Counted (ofValues m) m := by
  have hcount : (ofValues m).count.toNat = m.card := by
    rw [count_ofValues, UInt32.toNat_ofNat_of_lt' hm]
  refine ⟨hcount, ?_, fun i => ?_⟩
  · -- every value has its slot, so the counts of the slots add up to the number of values
    have hall := (length_slots_ofValues_le_iff m _).mp le_rfl
    rw [hcount, sum_slots, ← Multiset.countP_eq_card.mpr hall, ← sum_countP_log]
    exact Finset.sum_congr rfl fun i _ => toNat_slot_ofValues hm i
  · rw [toNat_slot_ofValues hm, countP_inSlot]

lemma total_toNat (m : Multiset UInt64) :
    (ofValues m).total.toNat = (m.map UInt64.toNat).sum % 2 ^ 64 := by
  rw [total_ofValues]
  induction m using Multiset.induction_on with
  | empty => rfl
  | cons v m ih =>
    rw [Multiset.sum_cons, UInt64.toNat_add, ih, Multiset.map_cons, Multiset.sum_cons, Nat.add_mod_mod]

end Slots

section Rows

variable {h : HistogramDist}

lemma rowsFrom_sublist (n i : ℕ) (skip : Bool) : (h.rowsFrom n i skip).Sublist (List.range' i n) := by
  induction n generalizing i skip with
  | zero => exact List.Sublist.refl _
  | succ n ih =>
    rw [HistogramDist.rowsFrom, List.range'_succ]
    split
    · exact (ih (i + 1) skip).cons _
    · exact (ih (i + 1) false).cons_cons _

lemma mem_rowsFrom {n i j : ℕ} (skip : Bool) (hj : i ≤ j ∧ j < i + n)
    (hne : (h.row j).allZero = false) : j ∈ h.rowsFrom n i skip := by
  induction n generalizing i skip with
  | zero => omega
  | succ n ih =>
    rw [HistogramDist.rowsFrom]
    by_cases hij : i = j
    · rw [hij, hne, Bool.false_and, if_neg Bool.false_ne_true]
      exact List.mem_cons_self
    · split
      · exact ih skip (by omega)
      · exact List.mem_cons_of_mem _ (ih false (by omega))

lemma lt_slotSize_of_mem_rows {i : ℕ} (hi : i ∈ h.rows) : i < h.slotSize := by
  have hmem := (rowsFrom_sublist _ _ _).subset hi
  rw [List.mem_range'_1] at hmem
  omega

lemma rows_nodup : h.rows.Nodup := (rowsFrom_sublist _ _ _).nodup List.nodup_range'

lemma rowsFrom_false (n i : ℕ) : h.rowsFrom n i false = List.range' i n := by
  induction n generalizing i with
  | zero => rfl
  | succ n ih => rw [HistogramDist.rowsFrom, Bool.and_false, if_neg Bool.false_ne_true, ih,
      List.range'_succ]

lemma rowsFrom_true (n i : ℕ) :
    ∃ first, i ≤ first ∧ h.rowsFrom n i true = List.range' first (i + n - first) := by
  induction n generalizing i with
  | zero => exact ⟨i, le_rfl, by simp [HistogramDist.rowsFrom]⟩
  | succ n ih =>
    rw [HistogramDist.rowsFrom]
    split
    · obtain ⟨first, hfirst, hrows⟩ := ih (i + 1)
      refine ⟨first, by omega, ?_⟩
      rw [hrows, Nat.add_right_comm, Nat.add_assoc]
    · refine ⟨i, le_rfl, ?_⟩
      rw [rowsFrom_false, ← List.range'_succ, Nat.add_sub_cancel_left]

lemma rows_eq_range' : ∃ first, h.rows = List.range' first (h.slotSize - first) := by
  obtain ⟨first, -, hrows⟩ := rowsFrom_true (h := h) h.slotSize 0
  exact ⟨first, by rw [HistogramDist.rows, hrows, Nat.zero_add]⟩

lemma getD_resize (slots : List UInt32) (n i : ℕ) : (resize slots n).getD i 0 = slots.getD i 0 := by
  simp only [resize, List.getD_eq_getElem?_getD, List.getElem?_append, List.getElem?_replicate]
  split
  · rfl
  · rw [List.getElem?_eq_none (by omega)]
    split <;> rfl

lemma row_cells (i : ℕ) : (h.row i).cells = h.dists.map fun d => (d.2.slot i, d.2.valMax) := by
  simp only [HistogramDist.row, getD_resize]
  rfl

lemma allZero_iff {r : Row} : r.allZero = true ↔ ∀ n ∈ r.cells.map (fun c => c.1.toNat), n = 0 := by
  rw [Row.allZero, List.all_eq_true, List.forall_mem_map]
  refine forall₂_congr fun c _ => ?_
  rw [beq_iff_eq, ← UInt32.toNat_inj]
  rfl

lemma slotSize_le_iff (ds : List (Str × Distribution)) (n : ℕ) :
    (ds.foldl HistogramDist.addDist h).slotSize ≤ n ↔
      h.slotSize ≤ n ∧ ∀ d ∈ ds, d.2.slots.length ≤ n := by
  induction ds generalizing h with
  | nil => simp
  | cons d ds ih =>
    rw [List.foldl_cons, ih, List.forall_mem_cons, ← and_assoc]
    refine and_congr_left' ?_
    simp only [HistogramDist.addDist]
    split <;> omega

lemma dists_foldl (ds : List (Str × Distribution)) :
    (ds.foldl HistogramDist.addDist h).dists = h.dists ++ ds := by
  induction ds generalizing h with
  | nil => simp
  | cons d ds ih =>
    rw [List.foldl_cons, ih]
    simp [HistogramDist.addDist]

lemma signed_toInt64 {n : UInt64} (hn : n.toNat < 2 ^ 63) :
    signed n.toInt64.toInt = digits 10 n.toNat := by
  have hint : n.toInt64.toInt = n.toNat :=
    BitVec.toInt_eq_toNat_of_lt (show 2 * n.toNat < 2 ^ 64 by omega)
  rw [hint, signed, sign, if_neg (Int.natCast_nonneg _).not_gt, Int.natAbs_natCast, List.nil_append]

lemma row_range {i : ℕ} (hi : i < 63) (v : UInt64) :
    (h.row i).low ≤ v ∧ v ≤ (h.row i).high ↔ InSlot i v.toNat := by
  have hpow : 0 < 2 ^ i := by positivity
  rw [UInt64.le_iff_toNat_le, UInt64.le_iff_toNat_le, HistogramDist.row, slotLow_toNat hi,
    slotHigh_toNat hi, InSlot]
  by_cases h0 : i = 0
  · rw [if_pos h0, h0]
    omega
  · rw [if_neg h0]
    omega

lemma row_label {i : ℕ} (hi : i < 63) : (h.row i).label =
    padLeft 10 ' '.toUInt8 (digits 10 (if i = 0 then 0 else 2 ^ i)) ++ lit " -> " ++
      padRight 10 (digits 10 (2 ^ (i + 1) - 1)) ++ lit " :" := by
  have hle : 2 ^ (i + 1) ≤ 2 ^ 63 := Nat.pow_le_pow_right (by decide) hi
  have hpow : 2 ^ (i + 1) = 2 * 2 ^ i := by ring
  have hlow : (slotLow i).toNat < 2 ^ 63 := by
    rw [slotLow_toNat hi]
    split <;> omega
  have hhigh : (slotHigh i).toNat < 2 ^ 63 := by
    rw [slotHigh_toNat hi]
    omega
  simp only [Row.label, HistogramDist.row]
  rw [signed_toInt64 hlow, signed_toInt64 hhigh, slotLow_toNat hi, slotHigh_toNat hi]

def Row.stars (r : Row) : List Str := r.cells.map fun c => printStars c.1.toUInt64 c.2.toUInt64 20

lemma row_text {i : ℕ} {vals : List (Multiset UInt64)} (hi : i < 63)
    (hcells : (h.row i).cells.map (fun c => c.1.toNat) =
      vals.map fun m => m.countP fun v => InSlot i v.toNat) :
    (h.row i).text = slotLine vals (h.row i).stars i := by
  have hzip : (h.row i).cells.flatMap (fun c =>
      lit " " ++ padRight 9 (signed c.1.toInt32.toInt) ++ lit "|" ++
        printStars c.1.toUInt64 c.2.toUInt64 20 ++ lit "|") =
      (List.zipWith (fun n s => lit " " ++ padRight 9 (signed (UInt32.ofNat n).toInt32.toInt) ++
        lit "|" ++ s ++ lit "|") ((h.row i).cells.map fun c => c.1.toNat) (h.row i).stars).flatten := by
    rw [Row.stars, List.zipWith_map, List.zipWith_self, List.flatMap]
    simp only [UInt32.ofNat_toNat]
  rw [Row.text, row_label hi, hzip, hcells, List.zipWith_map_left, slotLine]

/-- The table of distributions that each count the values of a multiset. -/
lemma shown_ofValues (unit : Str) (named : List (Str × Multiset UInt64))
    (hval : ∀ x ∈ named, ∀ v ∈ x.2, v.toNat < 2 ^ 63) (hcard : ∀ x ∈ named, x.2.card < 2 ^ 32) :
    Shown ((named.map fun x => (x.1, ofValues x.2)).foldl HistogramDist.addDist (.new unit))
      (named.map Prod.snd) := by
  set h := (named.map fun x => (x.1, ofValues x.2)).foldl HistogramDist.addDist (.new unit) with hdef
  have hcells (i : ℕ) : (h.row i).cells.map (fun c => c.1.toNat) =
      (named.map Prod.snd).map fun m => m.countP fun v => InSlot i v.toNat := by
    rw [row_cells, hdef, dists_foldl, HistogramDist.new, List.nil_append, List.map_map, List.map_map,
      List.map_map]
    exact List.map_congr_left fun x hx => (counted_ofValues (hcard x hx)).slot i
  have hlog {n : ℕ} : h.slotSize ≤ n ↔ ∀ x ∈ named, ∀ v ∈ x.2, Nat.log 2 v.toNat < n := by
    rw [hdef, slotSize_le_iff, List.forall_mem_map]
    simp only [length_slots_ofValues_le_iff]
    exact and_iff_right (Nat.zero_le n)
  have hsize : h.slotSize ≤ 63 := hlog.mpr fun x hx v hv =>
    Nat.log_lt_of_lt_pow' (by decide) (hval x hx v hv)
  have hlt : ∀ i ∈ h.rows, i < 63 := fun i hi => (lt_slotSize_of_mem_rows hi).trans_le hsize
  refine ⟨fun hnone => ?_, fun ⟨m, hm, hne⟩ => ?_, rows_eq_range', rows_nodup,
    fun i hi => row_range (hlt i hi), fun i _ => hcells i, ?_⟩
  · have hzero : h.slotSize ≤ 0 := hlog.mpr fun x hx v hv => by
      rw [hnone x.2 (List.mem_map_of_mem hx)] at hv
      exact absurd hv (Multiset.notMem_zero v)
    rw [HistogramDist.print, if_pos (Nat.le_zero.mp hzero)]
  · obtain ⟨x, hx, rfl⟩ := List.mem_map.mp hm
    obtain ⟨v, hv⟩ := Multiset.exists_mem_of_ne_zero hne
    have hpos : h.slotSize ≠ 0 := (hlog.mp le_rfl x hx v hv).ne_bot
    refine ⟨fun i => (h.row i).stars, fun i => ?_, ?_⟩
    · have hlength := congrArg List.length (hcells i)
      rw [List.length_map, List.length_map] at hlength
      exact (List.length_map _).trans hlength
    · rw [HistogramDist.print, if_neg hpos]
      exact congrArg (h.header ++ ·) (List.flatMap_congr fun i hi => row_text (hlt i hi) (hcells i))
  intro m hm v hv
  obtain ⟨x, hx, rfl⟩ := List.mem_map.mp hm
  have hslot : InSlot (Nat.log 2 v.toNat) v.toNat := inSlot_iff.mpr rfl
  have hshown : (h.row (Nat.log 2 v.toNat)).allZero = false := by
    rw [← Bool.not_eq_true, allZero_iff, hcells]
    intro hzero
    have hnone := hzero _ (List.mem_map_of_mem hm)
    exact Multiset.countP_eq_zero.mp hnone v hv hslot
  have hindex := hlog.mp le_rfl x hx v hv
  exact ⟨_, mem_rowsFrom true ⟨Nat.zero_le _, by omega⟩ hshown, hslot⟩

end Rows

section Calls

variable {ι : Type} [DecidableEq ι]

lemma perform_eq (s : ι → Distribution) {op : Accumulate.Op ι UInt64}
    (hop : ∀ d val, op = .insert d val → val.toNat < 2 ^ 63) :
    perform s op = .ok (op.apply unit s) := by
  cases op with
  | insert d val =>
    rw [perform, assignSlot_eq, if_pos (hop d val rfl)]
    rfl
  | merge d e => rfl

lemma performs_eq (s : ι → Distribution) {ops : List (Accumulate.Op ι UInt64)}
    (hops : ∀ d val, .insert d val ∈ ops → val.toNat < 2 ^ 63) :
    ops.foldlM perform s = .ok (ops.foldl (Accumulate.Op.apply unit) s) := by
  induction ops generalizing s with
  | nil => rfl
  | cons op ops ih =>
    have hop : ∀ d val, op = .insert d val → val.toNat < 2 ^ 63 := fun d val heq =>
      hops d val (heq ▸ List.mem_cons_self)
    rw [List.foldlM_cons, perform_eq s hop]
    exact ih _ fun d val hmem => hops d val (List.mem_cons_of_mem _ hmem)

end Calls

open Accumulate in
theorem histogram_exact {ι : Type} [DecidableEq ι] (ops : List (Op ι UInt64))
    (hvals : ∀ d val, .insert d val ∈ ops → val.toNat < 2 ^ 63) :
    ∃ dists : ι → Distribution, ops.foldlM perform 0 = .ok dists ∧
      (∀ d, (dists d).total.toNat = ((taken ops d).map UInt64.toNat).sum % 2 ^ 64 ∧
        ((taken ops d).card < 2 ^ 32 → Counted (dists d) (taken ops d))) ∧
      ∀ (unit : Str) (named : List (Str × ι)), (∀ x ∈ named, (taken ops x.2).card < 2 ^ 32) →
        Shown ((named.map fun x => (x.1, dists x.2)).foldl HistogramDist.addDist (.new unit))
          (named.map fun x => taken ops x.2) := by
  refine ⟨fun d => ofValues (taken ops d), ?_, fun d => ⟨total_toNat _, counted_ofValues⟩, ?_⟩
  · rw [performs_eq 0 hvals, foldl_apply_eq]
    rfl
  · intro unit named hcard
    have h := shown_ofValues unit (named.map fun x => (x.1, taken ops x.2))
      (List.forall_mem_map.mpr fun x _ v hv => (mem_taken hv).elim fun e he => hvals e v he)
      (List.forall_mem_map.mpr hcard)
    rw [List.map_map, List.map_map] at h
    exact h

namespace Sample

open Accumulate

/-- Two distributions, the second merged into the first between two values of its own. -/
def calls : List (Op Bool UInt64) :=
  [.insert false 0, .insert true 1, .insert false 5, .merge false true, .insert false 7]

end Sample

open Accumulate Sample in
theorem merged_values_counted :
    ∃ dists : Bool → Distribution, calls.foldlM perform 0 = .ok dists ∧
      (dists false).total.toNat = 13 ∧ Counted (dists false) {0, 5, 1, 7} ∧
      Shown (HistogramDist.addDist (.new (lit "ns")) (lit "cnt", dists false)) [{0, 5, 1, 7}] := by
  have hvals : ∀ d val, .insert d val ∈ calls → val.toNat < 2 ^ 63 := by
    intro d val h
    simp only [calls, List.mem_cons, Op.insert.injEq, reduceCtorEq, List.not_mem_nil, or_false,
      false_or] at h
    rcases h with ⟨-, rfl⟩ | ⟨-, rfl⟩ | ⟨-, rfl⟩ | ⟨-, rfl⟩ <;> decide
  have htaken : taken calls false = {0, 5, 1, 7} := by decide
  obtain ⟨dists, hrun, hd, hshown⟩ := histogram_exact calls hvals
  have hfirst := hd false
  have htable := hshown (lit "ns") [(lit "cnt", false)] (by decide)
  rw [htaken] at hfirst
  refine ⟨dists, hrun, hfirst.1, hfirst.2 (by decide), ?_⟩
  rw [← htaken]
  exact htable

example : ((Sample.calls.foldlM perform 0).map fun dists =>
    ((HistogramDist.addDist (.new []) ([], dists false)).rows.map fun i =>
      (slotLow i, slotHigh i, (dists false).slot i))) =
    .ok [(0, 1, 2), (2, 3, 0), (4, 7, 2)] := by
  decide +kernel

end PtPerf.Stats
