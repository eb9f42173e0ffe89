import Mathlib.Data.List.GetD
import PtPerf.Support.Relay
import PtPerf.Parallel.Trace

/-! The hand-over between parallel workers on one queue. The buffers of the queue come in
consecutive batches, one for each worker; a worker sees its own batch and all later buffers. -/

namespace PtPerf.Parallel

open PtPerf.Support

section Shortened

/-- The first list is the second one, cut off inside a buffer or between two. -/
inductive Shortened : List Buffer → List Buffer → Prop
  | nil (bs : List Buffer) : Shortened [] bs
  | cut {a b : Buffer} (bs : List Buffer) : a <+: b → memmem psb a = none → Shortened [a] (b :: bs)
  | cons (b : Buffer) {xs ys : List Buffer} : Shortened xs ys → Shortened (b :: xs) (b :: ys)

lemma restPsb_of_extends {a b : Buffer} {part : ℕ} (hab : a <+: b) (h : restPsb a part ≠ 0) :
    restPsb b part ≠ 0 := by
  obtain ⟨hpart, hlen, htake⟩ := restPsb_ne_zero.mp h
  refine restPsb_ne_zero.mpr ⟨hpart, hlen.trans hab.length_le, ?_⟩
  obtain ⟨t, rfl⟩ := hab
  rw [List.take_append_of_le_length hlen, htake]

lemma length_lt_of_restPsb {a b : Buffer} {part : ℕ} (hab : a <+: b) (ha : restPsb a part = 0)
    (hb : restPsb b part ≠ 0) : a.length < 16 - part := by
  obtain ⟨hpart, -, htake⟩ := restPsb_ne_zero.mp hb
  by_contra hlen
  obtain ⟨t, rfl⟩ := hab
  rw [List.take_append_of_le_length (not_lt.mp hlen)] at htake
  exact restPsb_ne_zero.mpr ⟨hpart, not_lt.mp hlen, htake⟩ ha

lemma scanForPsb_singleton {a : Buffer} (h : memmem psb a = none) : scanForPsb [a] = none := by
  simp [scanForPsb, h]

/-- Only the last buffer is really cut, and there is no packet inside it. -/
lemma Shortened.head {a : Buffer} {xs ys : List Buffer} (h : Shortened (a :: xs) ys) :
    ∃ b zs, ys = b :: zs ∧ a <+: b ∧ (a = b ∨ xs = [] ∧ memmem psb a = none) := by
  cases h with
  | cut bs hab hm => exact ⟨_, bs, rfl, hab, Or.inr ⟨rfl, hm⟩⟩
  | cons b h => exact ⟨a, _, rfl, List.prefix_rfl, Or.inl rfl⟩

lemma not_occurs_of_cut {a b : Buffer} {d : ℕ} (hab : a <+: b) (hm : memmem psb a = none)
    (hocc : psb <+: b.drop d) : ¬ d + 16 ≤ a.length := by
  intro hle
  obtain ⟨t, rfl⟩ := hab
  rw [List.drop_append_of_le_length (by omega)] at hocc
  have hshort : psb <+: a.drop d := by
    apply List.prefix_of_prefix_length_le hocc (List.prefix_append _ t)
    rw [length_psb, List.length_drop]
    omega
  obtain ⟨k, -, hk⟩ := memmem_le_of_occurs hshort
  cases hm.symm.trans hk

lemma Shortened.scanForPsb_cut {a b : Buffer} (bs : List Buffer) (hab : a <+: b)
    (hm : memmem psb a = none) {d : ℕ} (hs : scanForPsb (b :: bs) = some d) : ¬ d + 16 ≤ a.length := by
  have hlen := hab.length_le
  rcases scanForPsb_cons b bs with ⟨i, hi, hb⟩ | ⟨-, ⟨_, _, -, -, -, hb⟩ | ⟨hb, -⟩⟩
  · cases hb.symm.trans hs
    exact not_occurs_of_cut hab hm (memmem_occurs hi)
  · have hpart := partPsb_le b
    cases hb.symm.trans hs
    omega
  · obtain ⟨k, -, rfl⟩ := Option.map_eq_some_iff.mp (hb.symm.trans hs)
    omega

lemma Shortened.scanForPsb_eq {xs ys : List Buffer} (h : Shortened xs ys) {d : ℕ}
    (hs : scanForPsb xs = some d) : scanForPsb ys = some d := by
  induction h generalizing d with
  | nil bs => cases hs
  | cut bs hab hm => cases (scanForPsb_singleton hm).symm.trans hs
  | @cons b xs ys hxy ih =>
    rcases scanForPsb_cons b xs with ⟨i, hi, hb⟩ | ⟨hm, ⟨next, tail, rfl, hr, hp, hb⟩ | ⟨hb, hcross⟩⟩
    · rw [← hs, hb, scanForPsb, hi]
    · obtain ⟨next', zs, rfl, hext, -⟩ := hxy.head
      rw [← hs, hb, scanForPsb, hm]
      simp only [hp, restPsb_of_extends hext hr, if_false, List.head?_cons]
    · obtain ⟨k, hk, rfl⟩ := Option.map_eq_some_iff.mp (hb.symm.trans hs)
      rcases scanForPsb_cons b ys with ⟨i, hi, -⟩ | ⟨-, ⟨next, tail, rfl, hr, hp, -⟩ | ⟨hb', -⟩⟩
      · cases hm.symm.trans hi
      · -- the packet that begins in `b` ends behind the cut, where the scan finds nothing
        cases hxy with
        | nil bs => cases hk
        | cut bs hab hnone => cases (scanForPsb_singleton hnone).symm.trans hk
        | cons next hxy => exact absurd (hcross next _ rfl hp) hr
      · rw [hb', ih hk]
        rfl

lemma Shortened.scanForPsb_of_le {xs ys : List Buffer} (h : Shortened xs ys) {d : ℕ}
    (hs : scanForPsb ys = some d) (hle : d + 16 ≤ xs.flatten.length) : scanForPsb xs = some d := by
  induction h generalizing d with
  | nil bs => exact absurd hle (by simp)
  | cut bs hab hm =>
    rw [List.flatten_singleton] at hle
    exact absurd hle (scanForPsb_cut bs hab hm hs)
  | @cons b xs ys hxy ih =>
    rw [List.flatten_cons, List.length_append] at hle
    rcases scanForPsb_cons b ys with ⟨i, hi, hb⟩ | ⟨hm, ⟨next, tail, rfl, hr, hp, hb⟩ | ⟨hb, hcross⟩⟩
    · rw [← hs, hb, scanForPsb, hi]
    · have hpart := partPsb_le b
      have hd := hb.symm.trans hs
      cases xs with
      | nil =>
        cases hd
        rw [List.flatten_nil, List.length_nil] at hle
        omega
      | cons a xs =>
        obtain ⟨b', zs, heq, hext, hsame⟩ := hxy.head
        cases heq
        have ha : restPsb a (partPsb b) ≠ 0 := by
          intro ha
          have hlt := length_lt_of_restPsb hext ha hr
          rcases hsame with rfl | ⟨rfl, -⟩
          · exact hr ha
          · cases hd
            rw [List.flatten_singleton] at hle
            omega
        rw [← hd, scanForPsb, hm]
        simp only [hp, ha, if_false, List.head?_cons]
    · obtain ⟨k, hk, rfl⟩ := Option.map_eq_some_iff.mp (hb.symm.trans hs)
      have hxs := ih hk (by omega)
      rcases scanForPsb_cons b xs with ⟨i, hi, -⟩ | ⟨-, ⟨next, tail, rfl, hr, hp, -⟩ | ⟨hb', -⟩⟩
      · cases hm.symm.trans hi
      · obtain ⟨next', zs, rfl, hext, -⟩ := hxy.head
        exact absurd (hcross next' zs rfl hp) (restPsb_of_extends hext hr)
      · rw [hb', hxs]
        rfl

/-- In what is left, the scan finds the same packet if it is there in full. -/
lemma Shortened.scanForPsb_iff {xs ys : List Buffer} (h : Shortened xs ys) {d : ℕ} :
    scanForPsb xs = some d ↔ scanForPsb ys = some d ∧ d + 16 ≤ xs.flatten.length :=
  ⟨fun hs => ⟨h.scanForPsb_eq hs, scanForPsb_add_le hs⟩, fun ⟨hs, hle⟩ => h.scanForPsb_of_le hs hle⟩

lemma shortened_untilPsb (ys : List Buffer) : Shortened (nonempty (untilPsb ys)) (nonempty ys) := by
  induction ys with
  | nil => exact .nil _
  | cons b rest ih =>
    rw [untilPsb]
    by_cases hz : b.length = 0
    · obtain rfl := List.length_eq_zero_iff.mp hz
      exact ih
    · rw [nonempty_cons_of_ne hz]
      cases hm : memmem psb b with
      | some i =>
        by_cases hi : (b.take i).length = 0
        · rw [nonempty_cons_of_zero hi]
          exact .nil _
        · rw [nonempty_cons_of_ne hi]
          have htake : b.take i <+: b := List.take_prefix i b
          exact .cut _ htake (memmem_take psb_ne_nil hm)
      | none =>
        rw [nonempty_cons_of_ne hz]
        exact .cons b ih

lemma shortened_append (xs ys : List Buffer) :
    Shortened (nonempty (xs ++ untilPsb ys)) (nonempty (xs ++ ys)) := by
  induction xs with
  | nil => exact shortened_untilPsb ys
  | cons x xs ih =>
    by_cases hz : x.length = 0
    · rw [List.cons_append, List.cons_append, nonempty_cons_of_zero hz, nonempty_cons_of_zero hz]
      exact ih
    · rw [List.cons_append, List.cons_append, nonempty_cons_of_ne hz, nonempty_cons_of_ne hz]
      exact .cons x ih

end Shortened

section Whole

lemma firstWhole_nonempty (bs : List Buffer) : firstWhole (nonempty bs) = firstWhole bs := by
  induction bs with
  | nil => rfl
  | cons b rest ih =>
    by_cases hz : b.length = 0
    · obtain rfl := List.length_eq_zero_iff.mp hz
      rw [nonempty_cons_of_zero rfl, ih, firstWhole]
      simp [memmem, psb]
    · rw [nonempty_cons_of_ne hz, firstWhole, firstWhole, ih]

lemma firstWhole_add_le {bs : List Buffer} {w : ℕ} (h : firstWhole bs = some w) :
    w + 16 ≤ bs.flatten.length := by
  induction bs generalizing w with
  | nil => cases h
  | cons b rest ih =>
    rw [List.flatten_cons, List.length_append]
    rw [firstWhole] at h
    cases hm : memmem psb b with
    | some i =>
      rw [hm] at h
      cases h
      have hfit := memmem_add_le psb_ne_nil hm
      rw [length_psb] at hfit
      omega
    | none =>
      rw [hm] at h
      obtain ⟨k, hk, rfl⟩ := Option.map_eq_some_iff.mp h
      have hrest := ih hk
      omega

lemma firstWholeOrEnd_le (bs : List Buffer) : firstWholeOrEnd bs ≤ bs.flatten.length := by
  rw [firstWholeOrEnd]
  cases h : firstWhole bs with
  | none => exact le_rfl
  | some w =>
    have hle := firstWhole_add_le h
    exact (Nat.le_add_right w 16).trans hle

lemma firstWholeOrEnd_append_of_some {xs : List Buffer} {w : ℕ} (h : firstWhole xs = some w)
    (ys : List Buffer) : firstWholeOrEnd (xs ++ ys) = w := by
  rw [firstWholeOrEnd, firstWhole_append_of_some h]
  rfl

lemma firstWholeOrEnd_append_of_none {xs : List Buffer} (h : firstWhole xs = none)
    (ys : List Buffer) : firstWholeOrEnd (xs ++ ys) = xs.flatten.length + firstWholeOrEnd ys := by
  rw [firstWholeOrEnd, firstWhole_append_of_none h, firstWholeOrEnd]
  cases firstWhole ys <;> simp

end Whole

section Workers

variable (perCpu : Bool) (batches : List (List Buffer))

def batchOf (j : ℕ) : List Buffer := batches.getD j []

def queueFrom (j : ℕ) : List Buffer := (batches.drop j).flatten

def base (j : ℕ) : ℕ := (batches.take j).flatten.flatten.length

/-- The queue of worker `j`; without a buffer in its batch, a thread has no entry. -/
def worker (j : ℕ) : Ptq where
  buffers := queueFrom batches j
  entry :=
    if !perCpu && (batchOf batches j).length == 0 then none
    else some ⟨(batchOf batches j).length, 0, 0, 0, 0⟩
  cpuThreadLastPsbAdd := 0

def given (j : ℕ) : List Buffer := feed (queueFrom batches j).length (worker perCpu batches j)

/-- The position in the queue where worker `j` starts to decode. -/
def start (j : ℕ) : Option ℕ := (scanForPsb (given perCpu batches j)).map (base batches j + ·)

def Decodes (j b : ℕ) : Prop :=
  ∃ d, start perCpu batches j = some d ∧ d ≤ b ∧
    b < base batches j + (given perCpu batches j).flatten.length

def total : ℕ := batches.flatten.flatten.length

def firstPsb : Option ℕ := scanForPsb (nonempty batches.flatten)

/-- The first PSB from the batch of worker `j` on. -/
def psbFrom (j : ℕ) : Option ℕ := (scanForPsb (nonempty (queueFrom batches j))).map (base batches j + ·)

def DecodedOnce : Prop :=
  ∀ first, firstPsb batches = some first → ∀ b, first ≤ b → b < total batches →
    ∃! j, Decodes perCpu batches j b

def stop (j : ℕ) : ℕ := base batches (j + 1) + firstWholeOrEnd (queueFrom batches (j + 1))

lemma queueFrom_succ (j : ℕ) :
    queueFrom batches j = batchOf batches j ++ queueFrom batches (j + 1) := by
  rw [queueFrom, queueFrom, batchOf]
  by_cases hj : j < batches.length
  · rw [List.drop_eq_getElem_cons hj, List.flatten_cons, List.getD_eq_getElem _ _ hj]
  · rw [List.drop_eq_nil_of_le (by omega), List.drop_eq_nil_of_le (by omega),
      List.getD_eq_default _ _ (by omega)]
    rfl

lemma base_succ (j : ℕ) :
    base batches (j + 1) = base batches j + (batchOf batches j).flatten.length := by
  rw [base, base, batchOf]
  by_cases hj : j < batches.length
  · rw [List.take_succ_eq_append_getElem hj, List.getD_eq_getElem _ _ hj, List.flatten_append,
      List.flatten_append, List.length_append, List.flatten_singleton]
  · rw [List.take_of_length_le (by omega), List.take_of_length_le (by omega),
      List.getD_eq_default _ _ (by omega)]
    rfl

lemma base_mono : Monotone (base batches) := monotone_nat_of_le_succ fun j => by
  rw [base_succ]
  exact Nat.le_add_right _ _

lemma firstPsb_lt_total {first : ℕ} (hfirst : firstPsb batches = some first) : first < total batches := by
  have hle := scanForPsb_add_le hfirst
  rw [flatten_nonempty] at hle
  rw [total]
  omega

lemma base_add_queueFrom (j : ℕ) :
    base batches j + (queueFrom batches j).flatten.length = total batches := by
  have happend : batches.flatten = (batches.take j).flatten ++ queueFrom batches j := by
    rw [queueFrom, ← List.flatten_append, List.take_append_drop]
  rw [total, happend, List.flatten_append, List.length_append]
  rfl

lemma getTraceFrom_none (bs : List Buffer) (added : ℕ) :
    (getTraceFrom bs none added).1 = [] := by
  induction bs with
  | nil => rfl
  | cons b bs ih => exact ih

lemma given_eq (j : ℕ) : given perCpu batches j =
    if (batchOf batches j).length = 0 then []
    else nonempty (batchOf batches j ++ untilPsb (queueFrom batches (j + 1))) := by
  rw [given, worker]
  split
  · rename_i hnone
    have hz : (batchOf batches j).length = 0 := by
      simp only [Bool.and_eq_true, beq_iff_eq] at hnone
      exact hnone.2
    rw [if_pos hz]
    cases (queueFrom batches j).length with
    | zero => rfl
    | succ n =>
      rw [feed, getTrace]
      simp only [getTraceFrom_none, List.length_nil, if_true]
  · rw [feed_eq _ _ _ _ le_rfl]
    by_cases hz : (batchOf batches j).length = 0
    · rw [if_pos hz, keptBuffers_idle 0 _ hz]
    · rw [if_neg hz, queueFrom_succ, keptBuffers_batch 0 _ _ hz (Nat.zero_add _) rfl]

lemma flatten_untilPsb (bs : List Buffer) : (untilPsb bs).flatten <+: bs.flatten := by
  induction bs with
  | nil => exact List.prefix_rfl
  | cons b rest ih =>
    rw [untilPsb, List.flatten_cons]
    cases memmem psb b with
    | some i =>
      rw [List.flatten_singleton]
      have htake : b.take i <+: b := List.take_prefix i b
      exact htake.trans (List.prefix_append _ _)
    | none =>
      rw [List.flatten_cons]
      exact (List.prefix_append_right_inj _).mpr ih

/-- The bytes given to a worker are consecutive bytes of the queue, from its batch on. -/
theorem given_consecutive (j : ℕ) :
    (given perCpu batches j).flatten <+: (queueFrom batches j).flatten := by
  rw [given_eq]
  split
  · exact List.nil_prefix
  · rw [flatten_nonempty, queueFrom_succ batches j, List.flatten_append, List.flatten_append]
    exact (List.prefix_append_right_inj _).mpr (flatten_untilPsb _)

lemma length_given (j : ℕ) (h : (batchOf batches j).length ≠ 0) :
    base batches j + (given perCpu batches j).flatten.length = stop batches j := by
  rw [given_eq, if_neg h, flatten_nonempty, List.flatten_append, List.length_append,
    length_flatten_untilPsb, ← Nat.add_assoc, ← base_succ]
  rfl

lemma batchOf_of_start {j d : ℕ} (h : start perCpu batches j = some d) :
    (batchOf batches j).length ≠ 0 := by
  intro hz
  rw [start, given_eq, if_pos hz] at h
  cases h

lemma decodes_iff (j b : ℕ) : Decodes perCpu batches j b ↔
    Relay.Works (start perCpu batches) (stop batches) j b := by
  constructor
  · rintro ⟨d, hd, hle, hlt⟩
    rw [length_given _ _ j (batchOf_of_start _ _ hd)] at hlt
    exact ⟨d, hd, hle, hlt⟩
  · rintro ⟨d, hd, hle, hlt⟩
    rw [← length_given perCpu _ j (batchOf_of_start _ _ hd)] at hlt
    exact ⟨d, hd, hle, hlt⟩

lemma start_iff {j d : ℕ} : start perCpu batches j = some d ↔
    (batchOf batches j).length ≠ 0 ∧ psbFrom batches j = some d ∧ d + 16 ≤ stop batches j := by
  by_cases hz : (batchOf batches j).length = 0
  · rw [start, given_eq, if_pos hz]
    exact iff_of_false (fun h => by cases h) fun h => h.1 hz
  · have hcut := shortened_append (batchOf batches j) (queueFrom batches (j + 1))
    have hlen := length_given perCpu batches j hz
    rw [← queueFrom_succ] at hcut
    rw [given_eq, if_neg hz] at hlen
    rw [start, given_eq, if_neg hz, psbFrom, ← hlen, Option.map_eq_some_iff, Option.map_eq_some_iff]
    constructor
    · rintro ⟨k, hk, rfl⟩
      obtain ⟨hscan, hle⟩ := hcut.scanForPsb_iff.mp hk
      exact ⟨hz, ⟨k, hscan, rfl⟩, by omega⟩
    · rintro ⟨-, ⟨k, hscan, rfl⟩, hle⟩
      exact ⟨k, hcut.scanForPsb_iff.mpr ⟨hscan, by omega⟩, rfl⟩

lemma start_add_le {j d : ℕ} (h : start perCpu batches j = some d) : d + 16 ≤ stop batches j :=
  ((start_iff perCpu batches).mp h).2.2

lemma stop_succ (j : ℕ) :
    (firstWhole (batchOf batches (j + 1)) = none ∧ stop batches (j + 1) = stop batches j) ∨
      ∃ w, firstWhole (batchOf batches (j + 1)) = some w ∧
        stop batches j = base batches (j + 1) + w ∧
        base batches (j + 1) + w + 16 ≤ base batches (j + 1 + 1) := by
  have hbase := base_succ batches (j + 1)
  cases hw : firstWhole (batchOf batches (j + 1)) with
  | none =>
    refine Or.inl ⟨rfl, ?_⟩
    rw [stop, stop, queueFrom_succ batches (j + 1), firstWholeOrEnd_append_of_none hw, hbase]
    omega
  | some w =>
    refine Or.inr ⟨w, rfl, ?_, ?_⟩
    · rw [stop, queueFrom_succ batches (j + 1), firstWholeOrEnd_append_of_some hw]
    · have hfit := firstWhole_add_le hw
      omega

lemma stop_le_stop_succ (j : ℕ) : stop batches j ≤ stop batches (j + 1) := by
  rcases stop_succ batches j with ⟨-, heq⟩ | ⟨w, -, hstop, hle⟩
  · exact heq.ge
  · have hlate : base batches (j + 1 + 1) ≤ stop batches (j + 1) := Nat.le_add_right _ _
    omega

lemma flatten_split (j : ℕ) : batches.flatten = (batches.take j).flatten ++ queueFrom batches j := by
  rw [queueFrom, ← List.flatten_append, List.take_append_drop]

lemma base_le_of_psbFrom {j d : ℕ} (h : psbFrom batches j = some d) : base batches j ≤ d := by
  obtain ⟨k, -, rfl⟩ := Option.map_eq_some_iff.mp h
  exact Nat.le_add_right _ _

lemma firstPsb_le_psbFrom {first j d : ℕ} (hfirst : firstPsb batches = some first)
    (h : psbFrom batches j = some d) : first ≤ d := by
  obtain ⟨k, hk, rfl⟩ := Option.map_eq_some_iff.mp h
  obtain ⟨n, hn, hall⟩ := scanForPsb_append_le (nonempty (batches.take j).flatten) hk
  rw [← nonempty_append, ← flatten_split] at hall
  rw [flatten_nonempty] at hn
  cases hall.symm.trans hfirst
  exact hn

/-- From a batch that does not begin behind the first PSB, that is the first one. -/
lemma psbFrom_eq {first j : ℕ} (hfirst : firstPsb batches = some first) (hj : base batches j ≤ first) :
    psbFrom batches j = some first := by
  rw [firstPsb, flatten_split batches j, nonempty_append] at hfirst
  have hscan := scanForPsb_of_append hfirst (by rwa [flatten_nonempty])
  rw [flatten_nonempty] at hscan
  rw [psbFrom, hscan, Option.map_some]
  exact congrArg some (Nat.add_sub_of_le hj)

lemma whole_iff (j d : ℕ) :
    Whole batches.flatten (base batches j + d) ↔ Whole (queueFrom batches j) d := by
  rw [flatten_split batches j]
  exact whole_append

lemma start_of_whole {j d : ℕ} (h : start perCpu batches j = some d)
    (hwhole : Whole batches.flatten d) :
    ∃ w, firstWhole (batchOf batches j) = some w ∧ d = base batches j + w := by
  have hz := batchOf_of_start perCpu batches h
  have hstop := start_add_le perCpu batches h
  obtain ⟨k, hk, rfl⟩ := Option.map_eq_some_iff.mp h
  obtain ⟨w, hwk, hw⟩ := firstWhole_le_of_whole ((whole_iff batches j k).mp hwhole)
  rw [queueFrom_succ] at hw
  cases hbatch : firstWhole (batchOf batches j) with
  | none =>
    have hend := firstWholeOrEnd_append_of_none hbatch (queueFrom batches (j + 1))
    rw [firstWholeOrEnd, hw] at hend
    simp only [Option.getD_some] at hend
    rw [stop, base_succ] at hstop
    omega
  | some v =>
    rw [firstWhole_append_of_some hbatch] at hw
    obtain rfl := Option.some.inj hw
    have hgiven : firstWhole (given perCpu batches j) = some v := by
      rw [given_eq, if_neg hz, firstWhole_nonempty, firstWhole_append_of_some hbatch]
    obtain ⟨m, hm, hscan⟩ := scanForPsb_le_firstWhole hgiven
    rw [hk] at hscan
    obtain rfl := Option.some.inj hscan
    exact ⟨v, rfl, by omega⟩

lemma firstWhole_of_idle {j : ℕ} (h : start perCpu batches j = none) :
    firstWhole (batchOf batches j) = none := by
  cases hbatch : firstWhole (batchOf batches j) with
  | none => rfl
  | some w =>
    have hz : (batchOf batches j).length ≠ 0 := by
      intro hz
      rw [List.length_eq_zero_iff.mp hz] at hbatch
      cases hbatch
    have hgiven : firstWhole (given perCpu batches j) = some w := by
      rw [given_eq, if_neg hz, firstWhole_nonempty, firstWhole_append_of_some hbatch]
    obtain ⟨m, -, hscan⟩ := scanForPsb_le_firstWhole hgiven
    rw [start, hscan] at h
    cases h

lemma relay {first : ℕ} (hfirst : firstPsb batches = some first) :
    Relay first (total batches) (base batches) (start perCpu batches) (stop batches)
      (Whole batches.flatten) where
  base_mono := base_mono batches
  stop_mono := monotone_nat_of_le_succ (stop_le_stop_succ batches)
  stop_le j := by
    have hend := base_add_queueFrom batches (j + 1)
    have hle := firstWholeOrEnd_le (queueFrom batches (j + 1))
    rw [stop]
    omega
  stop_last := by
    refine ⟨batches.length, ?_⟩
    have hend := base_add_queueFrom batches (batches.length + 1)
    have hnil : queueFrom batches (batches.length + 1) = [] := by
      rw [queueFrom, List.drop_eq_nil_of_le (Nat.le_succ _)]
      rfl
    rw [hnil] at hend
    rw [stop, hnil]
    exact hend
  base_le j d h := by
    obtain ⟨k, -, rfl⟩ := Option.map_eq_some_iff.mp h
    exact Nat.le_add_right _ _
  first_le j d h := firstPsb_le_psbFrom batches hfirst ((start_iff perCpu batches).mp h).2.1
  lt_stop j d h := by
    have hle := start_add_le perCpu batches h
    omega
  idle j h := by
    rcases stop_succ batches j with ⟨-, heq⟩ | ⟨w, hw, -⟩
    · exact heq
    · rw [firstWhole_of_idle perCpu batches h] at hw
      cases hw
  marked_lt j d h hwhole := by
    obtain ⟨w, hw, rfl⟩ := start_of_whole perCpu batches h hwhole
    have hfit := firstWhole_add_le hw
    rw [base_succ]
    omega
  marked_eq j d h hwhole := by
    obtain ⟨w, hw, rfl⟩ := start_of_whole perCpu batches h hwhole
    rcases stop_succ batches j with ⟨hnone, -⟩ | ⟨v, hv, hstop, -⟩
    · rw [hnone] at hw
      cases hw
    · rw [hv] at hw
      cases hw
      exact hstop.symm
  stop_marked j h := by
    rw [stop, firstWholeOrEnd] at h ⊢
    cases hw : firstWhole (queueFrom batches (j + 1)) with
    | none =>
      rw [hw, Option.getD_none, base_add_queueFrom] at h
      exact absurd h (lt_irrefl _)
    | some w => exact (whole_iff batches (j + 1) w).mpr (whole_of_firstWhole hw)

/-- The first PSB inside one buffer, or the end of the queue. -/
def firstWholePsb : ℕ := firstWholeOrEnd batches.flatten

/-- A worker that has no PSB inside a buffer up to the end of its batch goes on to the first one. -/
lemma stop_eq {j : ℕ} (h : firstWhole (batches.take (j + 1)).flatten = none) :
    stop batches j = firstWholePsb batches := by
  rw [stop, firstWholePsb, flatten_split batches (j + 1), firstWholeOrEnd_append_of_none h]
  rfl

lemma firstWholePsb_lt_base {j w : ℕ} (h : firstWhole (batches.take j).flatten = some w) :
    firstWholePsb batches = w ∧ w + 16 ≤ base batches j := by
  refine ⟨?_, firstWhole_add_le h⟩
  rw [firstWholePsb, flatten_split batches j, firstWholeOrEnd_append_of_some h]

section First

variable {first : ℕ}

lemma firstPsb_le_firstWholePsb (hfirst : firstPsb batches = some first) :
    first ≤ firstWholePsb batches := by
  rw [firstWholePsb, firstWholeOrEnd]
  cases hw : firstWhole batches.flatten with
  | none =>
    have hle := scanForPsb_add_le hfirst
    rw [flatten_nonempty] at hle
    rw [Option.getD_none]
    omega
  | some w =>
    rw [← firstWhole_nonempty] at hw
    obtain ⟨d, hd, hscan⟩ := scanForPsb_le_firstWhole hw
    cases hscan.symm.trans hfirst
    exact hd

lemma firstWholePsb_eq (hfirst : firstPsb batches = some first) (hwhole : Whole batches.flatten first) :
    firstWholePsb batches = first := by
  obtain ⟨w, hle, hw⟩ := firstWhole_le_of_whole hwhole
  have hge := firstPsb_le_firstWholePsb batches hfirst
  rw [firstWholePsb, firstWholeOrEnd, hw, Option.getD_some] at hge ⊢
  omega

lemma stop_of_before (hfirst : firstPsb batches = some first) {j : ℕ}
    (hj : base batches (j + 1) ≤ first) : stop batches j = firstWholePsb batches := by
  apply stop_eq
  cases hw : firstWhole (batches.take (j + 1)).flatten with
  | none => rfl
  | some w =>
    obtain ⟨heq, hle⟩ := firstWholePsb_lt_base batches hw
    have hge := firstPsb_le_firstWholePsb batches hfirst
    omega

lemma stop_cases (j : ℕ) : stop batches j = firstWholePsb batches ∧
      base batches (j + 1) ≤ firstWholePsb batches ∨
    firstWholePsb batches + 16 ≤ base batches (j + 1) ∧ base batches (j + 1) ≤ stop batches j := by
  cases hw : firstWhole (batches.take (j + 1)).flatten with
  | none =>
    have hstop := stop_eq batches hw
    exact Or.inl ⟨hstop, hstop ▸ Nat.le_add_right _ _⟩
  | some w =>
    obtain ⟨rfl, hle⟩ := firstWholePsb_lt_base batches hw
    exact Or.inr ⟨hle, Nat.le_add_right _ _⟩

lemma exists_batch {b : ℕ} (h : b < total batches) :
    ∃ j, base batches j ≤ b ∧ b < base batches (j + 1) := by
  have hex : ∃ n, b < base batches n := by
    refine ⟨batches.length, ?_⟩
    rwa [base, List.take_length]
  classical
  have hfound := Nat.find_spec hex
  cases hfind : Nat.find hex with
  | zero =>
    rw [hfind] at hfound
    exact absurd hfound (Nat.not_lt_zero b)
  | succ n =>
    rw [hfind] at hfound
    exact ⟨n, not_lt.mp (Nat.find_min hex (by omega)), hfound⟩

end First

/-- The first PSB is inside one buffer; or it is the first thing that a worker is given, in batch `j`,
and it does not overlap with a PSB inside one buffer, or only with one of that batch. -/
def FirstTaken (first : ℕ) : Prop :=
  Whole batches.flatten first ∨ ∃ j, base batches j ≤ first ∧ first < base batches (j + 1) ∧
    if firstWholePsb batches < first + 16 then firstWholePsb batches < base batches (j + 1)
    else (batches.take j).flatten = []

end Workers

section Starters

variable {perCpu : Bool} {batches : List (List Buffer)} {first : ℕ}

lemma start_first_iff (hfirst : firstPsb batches = some first) {j : ℕ} :
    start perCpu batches j = some first ↔
      batchOf batches j ≠ [] ∧ base batches j ≤ first ∧ first + 16 ≤ stop batches j := by
  rw [start_iff, Ne, List.length_eq_zero_iff]
  refine and_congr_right' (and_congr_left' ⟨base_le_of_psbFrom batches, psbFrom_eq batches hfirst⟩)

lemma batchOf_ne_nil {j b : ℕ} (hle : base batches j ≤ b) (hlt : b < base batches (j + 1)) :
    batchOf batches j ≠ [] := by
  intro hnil
  rw [base_succ, hnil] at hlt
  exact absurd hlt (not_lt.mpr hle)

lemma le_of_base_le {i j b : ℕ} (hle : base batches i ≤ b) (hlt : b < base batches (j + 1)) : i ≤ j := by
  by_contra hij
  have hmono : base batches (j + 1) ≤ base batches i := base_mono batches (Nat.lt_of_not_le hij)
  omega

/-- Of the batches up to that of the first PSB, a worker before the last sees a PSB inside one buffer
too late to stop before the packet has ended. -/
lemma starters_iff (hfirst : firstPsb batches = some first) {j : ℕ} (hle : base batches j ≤ first)
    (hlt : first < base batches (j + 1)) (i : ℕ) : start perCpu batches i = some first ↔
      i < j ∧ batchOf batches i ≠ [] ∧ first + 16 ≤ firstWholePsb batches ∨
        i = j ∧ first + 16 ≤ stop batches j := by
  rw [start_first_iff hfirst]
  constructor
  · rintro ⟨hne, hbase, hstop⟩
    rcases (le_of_base_le hbase hlt).lt_or_eq with hij | rfl
    · rw [stop_of_before batches hfirst ((base_mono batches hij).trans hle)] at hstop
      exact Or.inl ⟨hij, hne, hstop⟩
    · exact Or.inr ⟨rfl, hstop⟩
  · rintro (⟨hij, hne, hstop⟩ | ⟨rfl, hstop⟩)
    · rw [stop_of_before batches hfirst ((base_mono batches hij).trans hle)]
      exact ⟨hne, (base_mono batches hij.le).trans hle, hstop⟩
    · exact ⟨batchOf_ne_nil hle hlt, hle, hstop⟩

lemma flatten_take_eq_nil {j : ℕ} :
    (batches.take j).flatten = [] ↔ ∀ i < j, batchOf batches i = [] := by
  rw [List.flatten_eq_nil_iff]
  constructor
  · intro h i hi
    by_cases hlen : i < batches.length
    · rw [batchOf, List.getD_eq_getElem _ _ hlen]
      exact h _ (List.mem_take_iff_getElem.mpr ⟨i, by omega, rfl⟩)
    · exact List.getD_eq_default _ _ (by omega)
  · intro h l hl
    obtain ⟨i, hi, rfl⟩ := List.mem_take_iff_getElem.mp hl
    rw [← h i (by omega), batchOf, List.getD_eq_getElem]

lemma exists_starter_iff (perCpu : Bool) (hfirst : firstPsb batches = some first) :
    (∃! j, start perCpu batches j = some first) ↔ FirstTaken batches first := by
  have hge := firstPsb_le_firstWholePsb batches hfirst
  constructor
  · rintro ⟨i, hi, hone⟩
    refine or_iff_not_imp_left.mpr fun _ => ?_
    obtain ⟨j, hle, hlt⟩ := exists_batch batches (firstPsb_lt_total batches hfirst)
    refine ⟨j, hle, hlt, ?_⟩
    split_ifs with hover
    · rcases (starters_iff hfirst hle hlt i).mp hi with ⟨-, -, hstop⟩ | ⟨rfl, hstop⟩
      · omega
      · have hcases := stop_cases batches i
        omega
    · have hj : start perCpu batches j = some first :=
        (starters_iff hfirst hle hlt j).mpr (Or.inr ⟨rfl, by have hcases := stop_cases batches j; omega⟩)
      refine flatten_take_eq_nil.mpr fun k hk => ?_
      by_contra hne
      have hstart : start perCpu batches k = some first :=
        (starters_iff hfirst hle hlt k).mpr (Or.inl ⟨hk, hne, by omega⟩)
      exact hk.ne ((hone k hstart).trans (hone j hj).symm)
  · rintro (hwhole | ⟨j, hle, hlt, htaken⟩)
    · have heq := firstWholePsb_eq batches hfirst hwhole
      obtain ⟨j, hle, hlt⟩ := exists_batch batches (firstPsb_lt_total batches hfirst)
      have hcases := stop_cases batches j
      refine ⟨j, (starters_iff hfirst hle hlt j).mpr (Or.inr ⟨rfl, by omega⟩), fun i hi => ?_⟩
      rcases (starters_iff hfirst hle hlt i).mp hi with ⟨-, -, hstop⟩ | ⟨hij, -⟩
      · omega
      · exact hij
    · have hcases := stop_cases batches j
      split_ifs at htaken with hover
      · refine ⟨j, (starters_iff hfirst hle hlt j).mpr (Or.inr ⟨rfl, by omega⟩), fun i hi => ?_⟩
        rcases (starters_iff hfirst hle hlt i).mp hi with ⟨-, -, hstop⟩ | ⟨hij, -⟩
        · omega
        · exact hij
      · refine ⟨j, (starters_iff hfirst hle hlt j).mpr (Or.inr ⟨rfl, by omega⟩), fun i hi => ?_⟩
        rcases (starters_iff hfirst hle hlt i).mp hi with ⟨hij, hne, -⟩ | ⟨hij, -⟩
        · exact absurd (flatten_take_eq_nil.mp htaken i hij) hne
        · exact hij

lemma later_starts_iff (perCpu : Bool) (hfirst : firstPsb batches = some first) :
    (∀ j d, start perCpu batches j = some d → d ≠ first → Whole batches.flatten d) ↔
      ∀ j d, first < base batches j → batchOf batches j ≠ [] → psbFrom batches j = some d →
        Whole batches.flatten d ∨ stop batches j < d + 16 := by
  constructor
  · intro h j d hj hne hpsb
    rw [or_iff_not_imp_right, not_lt]
    intro hstop
    have hbase := base_le_of_psbFrom batches hpsb
    exact h j d ((start_iff perCpu batches).mpr ⟨List.length_eq_zero_iff.not.mpr hne, hpsb, hstop⟩) (by omega)
  · intro h j d hstart hd
    obtain ⟨hne, hpsb, hstop⟩ := (start_iff perCpu batches).mp hstart
    have hj : first < base batches j := by
      by_contra hle
      have heq := psbFrom_eq batches hfirst (not_lt.mp hle)
      exact hd (Option.some.inj (hpsb.symm.trans heq))
    exact (h j d hj (List.length_eq_zero_iff.not.mp hne) hpsb).resolve_right (by omega)

end Starters

/-- Every byte from the first PSB on is decoded once, if and only if the first PSB is taken by one
worker and every later batch with a buffer has, as the first PSB from there on, one inside a buffer, or
one that has not ended where the next PSB inside a buffer behind the batch begins. -/
theorem handoff_iff (perCpu : Bool) (batches : List (List Buffer)) :
    DecodedOnce perCpu batches ↔ ∀ first, firstPsb batches = some first →
      FirstTaken batches first ∧ ∀ j d, first < base batches j → batchOf batches j ≠ [] →
        psbFrom batches j = some d → Whole batches.flatten d ∨ stop batches j < d + 16 := by
  apply forall_congr'
  intro first
  apply forall_congr'
  intro hfirst
  rw [← exists_starter_iff perCpu hfirst, ← later_starts_iff perCpu hfirst,
    ← (relay perCpu batches hfirst).works_once_iff (firstPsb_lt_total batches hfirst)]
  simp only [decodes_iff]

namespace Sample

def splitBatches : List (List Buffer) :=
  [[psb], [psb.take 8, psb.drop 8 ++ 0 :: psb]]

end Sample

open Sample in
theorem split_psb_decoded_twice : ¬ DecodedOnce true splitBatches := by
  intro h
  obtain ⟨j, -, hone⟩ := h 0 (by decide +kernel) 16 (by decide) (by decide)
  have hfirst : Decodes true splitBatches 0 16 := ⟨0, by decide +kernel, by decide, by decide +kernel⟩
  have hsecond : Decodes true splitBatches 1 16 := ⟨16, by decide +kernel, by decide, by decide +kernel⟩
  have heq := (hone 0 hfirst).trans (hone 1 hsecond).symm
  exact absurd heq (by decide)

end PtPerf.Parallel
