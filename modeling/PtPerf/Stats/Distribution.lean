import PtPerf.Support.Tally
import PtPerf.Trace.Action
import Mathlib.Data.UInt
import Mathlib.Data.Nat.Log

/-! The latency histogram of `stat_tools.h`: power-of-two slots, total and count. -/

namespace PtPerf.Stats

open PtPerf.Support PtPerf.Trace

structure Distribution where
  total : UInt64
  count : UInt32
  slots : List UInt32
  deriving DecidableEq, Repr

namespace Distribution

def slotHigh (i : ℕ) : UInt64 := ((1 : UInt64) <<< UInt64.ofNat (i + 1)) - 1

def slotLow (i : ℕ) : UInt64 :=
  let low := ((1 : UInt64) <<< UInt64.ofNat (i + 1)) >>> 1
  if low == slotHigh i then low - 1 else low

/-- The search of `assign_slot`. Its bound is `63`: at `i = 63` the shift count reaches the
width of the word, and no later `i` has a slot either. -/
def slotSearch (val : UInt64) : ℕ → ℕ → Except Fault ℕ
  | 0, _ => .error .slotLoop
  | fuel + 1, i =>
    if val ≤ slotHigh i ∧ slotLow i ≤ val then .ok i else slotSearch val fuel (i + 1)

def resize (slots : List UInt32) (n : ℕ) : List UInt32 :=
  slots ++ List.replicate (n - slots.length) 0

def assignSlot (d : Distribution) (val : UInt64) : Except Fault Distribution := do
  let i ← slotSearch val 63 0
  return { total := d.total + val, count := d.count + 1,
           slots := (resize d.slots (i + 1)).modify i (· + 1) }

def addInto : List UInt32 → List UInt32 → List UInt32
  | s :: slots, x :: xs => (s + x) :: addInto slots xs
  | slots, _ => slots

def mergeSlots (d e : Distribution) : Distribution where
  total := d.total + e.total
  count := d.count + e.count
  slots := addInto (resize d.slots e.slots.length) e.slots

def getAvg (d : Distribution) : UInt64 := if d.count == 0 then 0 else d.total / d.count.toUInt64

instance : Zero Distribution := ⟨⟨0, 0, []⟩⟩
instance : Add Distribution := ⟨mergeSlots⟩

lemma addInto_resize (xs ys : List UInt32) :
    addInto (resize xs ys.length) ys = PaddedSum.add xs ys := by
  induction xs generalizing ys with
  | nil =>
    induction ys with
    | nil => rfl
    | cons y ys ih =>
      simp only [resize, List.nil_append, List.length_nil, Nat.sub_zero, List.length_cons,
        List.replicate_succ, addInto, PaddedSum.nil_add] at ih ⊢
      rw [ih, zero_add]
  | cons x xs ih =>
    cases ys with
    | nil => simp [resize, addInto]
    | cons y ys =>
      have hh := ih ys
      simp only [resize, List.cons_append, List.length_cons, Nat.add_sub_add_right, addInto,
        PaddedSum.cons_add_cons] at hh ⊢
      rw [hh]

lemma add_def (d e : Distribution) :
    d + e = ⟨d.total + e.total, d.count + e.count, PaddedSum.add d.slots e.slots⟩ := by
  change mergeSlots d e = _
  rw [mergeSlots, addInto_resize]

@[simp] lemma add_total (d e : Distribution) : (d + e).total = d.total + e.total := rfl
@[simp] lemma add_count (d e : Distribution) : (d + e).count = d.count + e.count := rfl
@[simp] lemma add_slots (d e : Distribution) :
    (d + e).slots = PaddedSum.add d.slots e.slots := by rw [add_def]
@[simp] lemma zero_slots : (0 : Distribution).slots = [] := rfl

lemma ext' {d e : Distribution} (ht : d.total = e.total) (hc : d.count = e.count)
    (hs : d.slots = e.slots) : d = e := by
  cases d
  cases e
  cases ht
  cases hc
  cases hs
  rfl

instance : AddCommMonoid Distribution where
  add_assoc a b c := ext' (add_assoc _ _ _) (add_assoc _ _ _) (by simp [PaddedSum.pad_assoc])
  zero_add a := ext' (zero_add _) (zero_add _) (by simp)
  add_zero a := ext' (add_zero _) (add_zero _) (by simp)
  add_comm a b := ext' (add_comm _ _) (add_comm _ _) (by simp [PaddedSum.pad_comm])
  nsmul := nsmulRec

def slot (d : Distribution) (i : ℕ) : UInt32 := d.slots.getD i 0

@[simp] lemma slot_add (d e : Distribution) (i : ℕ) : (d + e).slot i = d.slot i + e.slot i := by
  rw [slot, add_slots, PaddedSum.getD_add, slot, slot]

lemma slotHigh_toNat {i : ℕ} (hi : i < 63) : (slotHigh i).toNat = 2 ^ (i + 1) - 1 := by
  have h : ∀ j : Fin 63, (slotHigh j).toNat = 2 ^ (j.val + 1) - 1 := by decide +kernel
  exact h ⟨i, hi⟩

lemma slotLow_toNat {i : ℕ} (hi : i < 63) :
    (slotLow i).toNat = if i = 0 then 0 else 2 ^ i := by
  have h : ∀ j : Fin 63, (slotLow j).toNat = if j.val = 0 then 0 else 2 ^ j.val := by
    decide +kernel
  exact h ⟨i, hi⟩

lemma slotSearch_found (val : UInt64) (hv : val.toNat < 2 ^ 63) (fuel i : ℕ)
    (hf : fuel + i = 63) (hi : i ≤ Nat.log 2 val.toNat) :
    slotSearch val fuel i = .ok (Nat.log 2 val.toNat) := by
  induction fuel generalizing i with
  | zero =>
    have hl : Nat.log 2 val.toNat < 63 := Nat.log_lt_of_lt_pow' (by omega) hv
    omega
  | succ fuel ih =>
    have hi63 : i < 63 := by omega
    simp only [slotSearch, UInt64.le_iff_toNat_le, slotHigh_toNat hi63, slotLow_toNat hi63]
    by_cases he : i = Nat.log 2 val.toNat
    · have hlt : val.toNat < 2 ^ (i + 1) := by
        rw [he]
        exact Nat.lt_pow_succ_log_self (by omega) _
      have hge : (if i = 0 then 0 else 2 ^ i) ≤ val.toNat := by
        by_cases h0 : i = 0
        · simp [h0]
        · rw [if_neg h0, he]
          apply Nat.pow_log_le_self
          intro hz
          rw [hz] at he
          simp at he
          omega
      rw [if_pos ⟨by omega, hge⟩, he]
    · have hlt : i + 1 ≤ Nat.log 2 val.toNat := by omega
      have hpow : 2 ^ (i + 1) ≤ val.toNat := by
        apply Nat.pow_le_of_le_log _ hlt
        intro hz
        rw [hz] at hlt
        simp at hlt
      have hp : 0 < 2 ^ (i + 1) := by positivity
      rw [if_neg (by omega)]
      exact ih (i + 1) (by omega) hlt

lemma slotSearch_stuck (val : UInt64) (hv : 2 ^ 63 ≤ val.toNat) (fuel i : ℕ)
    (hf : fuel + i = 63) : slotSearch val fuel i = .error .slotLoop := by
  induction fuel generalizing i with
  | zero => rfl
  | succ fuel ih =>
    have hi63 : i < 63 := by omega
    have hp : 2 ^ (i + 1) ≤ 2 ^ 63 := Nat.pow_le_pow_right (by omega) (by omega)
    have hp' : 0 < 2 ^ (i + 1) := by positivity
    simp only [slotSearch, UInt64.le_iff_toNat_le, slotHigh_toNat hi63]
    rw [if_neg (by omega)]
    exact ih (i + 1) (by omega)

def unit (val : UInt64) : Distribution :=
  ⟨val, 1, List.replicate (Nat.log 2 val.toNat) 0 ++ [1]⟩

lemma slot_unit (val : UInt64) (i : ℕ) :
    (unit val).slot i = if Nat.log 2 val.toNat = i then 1 else 0 := by
  simp only [slot, unit, List.getD_eq_getElem?_getD, List.getElem?_append, List.length_replicate,
    List.getElem?_replicate]
  by_cases h : i < Nat.log 2 val.toNat
  · rw [if_pos h, if_neg (Nat.ne_of_gt h)]
    simp [h]
  · rw [if_neg h]
    by_cases he : Nat.log 2 val.toNat = i
    · simp [he]
    · rw [if_neg he, List.getElem?_eq_none (by simp; omega)]
      rfl

lemma modify_resize (xs : List UInt32) (n : ℕ) :
    (resize xs (n + 1)).modify n (· + 1) = PaddedSum.add xs (List.replicate n 0 ++ [1]) := by
  induction xs generalizing n with
  | nil =>
    simp only [resize, List.length_nil, Nat.sub_zero, List.nil_append, PaddedSum.nil_add]
    induction n with
    | zero => rfl
    | succ n ih => simpa [List.replicate_succ] using ih
  | cons x xs ih =>
    cases n with
    | zero => simp [resize]
    | succ n => simpa [resize, List.replicate_succ] using ih n

lemma assignSlot_eq (d : Distribution) (val : UInt64) :
    d.assignSlot val = if val.toNat < 2 ^ 63 then .ok (d + unit val) else .error .slotLoop := by
  by_cases hv : val.toNat < 2 ^ 63
  · rw [assignSlot, slotSearch_found val hv 63 0 rfl (Nat.zero_le _), if_pos hv, add_def]
    simp only [bind, Except.bind, pure, Except.pure, modify_resize, unit]
  · rw [assignSlot, slotSearch_stuck val (by omega) 63 0 rfl, if_neg hv]
    rfl

/-- The distribution of a multiset of values, in whatever order and way they came together. -/
def ofValues (m : Multiset UInt64) : Distribution := (m.map unit).sum

lemma ofValues_cons (v : UInt64) (m : Multiset UInt64) : ofValues (v ::ₘ m) = unit v + ofValues m := by
  rw [ofValues, Multiset.map_cons, Multiset.sum_cons, ofValues]

lemma ofValues_coe (vals : List UInt64) : ofValues vals = (vals.map unit).sum := by
  rw [ofValues, Multiset.map_coe, Multiset.sum_coe]

section Values

variable (m : Multiset UInt64)

lemma total_ofValues : (ofValues m).total = m.sum := by
  induction m using Multiset.induction_on with
  | empty => rfl
  | cons v m ih =>
    rw [ofValues_cons, add_total, ih, Multiset.sum_cons]
    rfl

lemma count_ofValues : (ofValues m).count = UInt32.ofNat m.card := by
  induction m using Multiset.induction_on with
  | empty => rfl
  | cons v m ih =>
    rw [ofValues_cons, add_count, ih, Multiset.card_cons, UInt32.ofNat_add, add_comm]
    rfl

lemma slot_ofValues (i : ℕ) :
    (ofValues m).slot i = UInt32.ofNat (m.countP fun v => Nat.log 2 v.toNat = i) := by
  induction m using Multiset.induction_on with
  | empty => rfl
  | cons v m ih =>
    rw [ofValues_cons, slot_add, ih, slot_unit, Multiset.countP_cons, UInt32.ofNat_add, add_comm]
    by_cases h : Nat.log 2 v.toNat = i <;> simp [h]

lemma length_slots_ofValues_le_iff (n : ℕ) :
    (ofValues m).slots.length ≤ n ↔ ∀ v ∈ m, Nat.log 2 v.toNat < n := by
  induction m using Multiset.induction_on with
  | empty => simp [ofValues]
  | cons v m ih =>
    have hunit : (unit v).slots.length = Nat.log 2 v.toNat + 1 := by simp [unit]
    rw [ofValues_cons, add_slots, PaddedSum.length_add_le_iff, ih, hunit, Multiset.forall_mem_cons]
    rfl

end Values

end Distribution

end PtPerf.Stats
