import Mathlib.Data.Multiset.UnionInter
import Mathlib.Order.Interval.Finset.Nat

/-! Stretches of time, and when they fit into a window. Stretches that do not overlap and lie inside
the window always do; one that begins too early or overlaps another may still find room. -/

namespace PtPerf.Support

/-- What lies between `start` and `stop`, of which `length` counts. -/
structure Stretch where
  start : ℕ
  stop : ℕ
  length : ℕ
deriving DecidableEq

namespace Stretch

def total : List Stretch → ℕ
  | [] => 0
  | x :: xs => x.length + total xs

def overlaps (x y : Stretch) : Bool := max x.start y.start < min x.stop y.stop

/-- It begins no earlier than the window and overlaps none but itself. -/
def inPlace (lo : ℕ) (xs : List Stretch) (x : Stretch) : Bool :=
  lo ≤ x.start && xs.countP x.overlaps ≤ 1

/-- Those that are out of place find room in what the others leave of the window. -/
def Fits (lo hi : ℕ) (xs : List Stretch) : Prop :=
  total (xs.filter (!inPlace lo xs ·)) ≤ hi - lo - total (xs.filter (inPlace lo xs))

instance (lo hi : ℕ) (xs : List Stretch) : Decidable (Fits lo hi xs) :=
  inferInstanceAs (Decidable (_ ≤ _))

structure Within (hi : ℕ) (x : Stretch) : Prop where
  start_le : x.start ≤ x.stop
  stop_le : x.stop ≤ hi
  length_le : x.length ≤ x.stop - x.start

/-- The newest first, each of them over before the next began. -/
structure Ordered (hi : ℕ) (xs : List Stretch) : Prop where
  within : ∀ x ∈ xs, x.Within hi
  apart : xs.Pairwise fun x y => y.stop ≤ x.start

variable {lo hi hi' : ℕ} {x y : Stretch} {xs ys : List Stretch}

lemma total_cons : total (x :: xs) = x.length + total xs := rfl

lemma total_append : total (xs ++ ys) = total xs + total ys := by
  induction xs with
  | nil => exact (Nat.zero_add _).symm
  | cons x xs ih => rw [List.cons_append, total_cons, total_cons, ih, Nat.add_assoc]

lemma total_filter_add (q : Stretch → Bool) (xs : List Stretch) :
    total (xs.filter q) + total (xs.filter (!q ·)) = total xs := by
  induction xs with
  | nil => rfl
  | cons x xs ih =>
    cases hq : q x with
    | true =>
      rw [List.filter_cons_of_pos hq, List.filter_cons_of_neg (by simp [hq]), total_cons, total_cons]
      omega
    | false =>
      rw [List.filter_cons_of_neg (by simp [hq]), List.filter_cons_of_pos (by simp [hq]), total_cons, total_cons]
      omega

lemma total_perm (h : xs.Perm ys) : total xs = total ys := by
  induction h with
  | nil => rfl
  | cons x _ ih => rw [total_cons, total_cons, ih]
  | swap x y l =>
    simp only [total_cons]
    omega
  | trans _ _ ih ih' => exact ih.trans ih'

/-- What the one list has more than the other, on either side. -/
lemma total_diff (xs ys : List Stretch) : total (xs.diff ys) + total ys = total (ys.diff xs) + total xs := by
  have hunion : (xs.diff ys ++ ys).Perm (ys.diff xs ++ xs) := by
    rw [← Multiset.coe_eq_coe, ← Multiset.coe_add, ← Multiset.coe_add, ← Multiset.coe_sub, ← Multiset.coe_sub,
      ← Multiset.union_def, ← Multiset.union_def, Multiset.union_comm]
  rw [← total_append, ← total_append]
  exact total_perm hunion

lemma Within.mono (h : x.Within hi) (hle : hi ≤ hi') : x.Within hi' :=
  ⟨h.start_le, h.stop_le.trans hle, h.length_le⟩

/-- The packing bound. -/
lemma total_le_card {S : Finset ℕ} (hin : ∀ x ∈ xs, x.Within hi ∧ Finset.Ico x.start x.stop ⊆ S)
    (hdisj : xs.Pairwise fun x y => x.overlaps y = false) : total xs ≤ S.card := by
  induction xs generalizing S with
  | nil => exact Nat.zero_le _
  | cons x xs ih =>
    rw [List.forall_mem_cons] at hin
    rw [List.pairwise_cons] at hdisj
    obtain ⟨⟨hwithin, hsub⟩, hrest⟩ := hin
    have hdrop : ∀ y ∈ xs, y.Within hi ∧ Finset.Ico y.start y.stop ⊆ S \ Finset.Ico x.start x.stop := by
      intro y hy
      refine ⟨(hrest y hy).1, fun t ht => ?_⟩
      have hapart := hdisj.1 y hy
      simp only [overlaps, decide_eq_false_iff_not, not_lt] at hapart
      refine Finset.mem_sdiff.mpr ⟨(hrest y hy).2 ht, fun hx => ?_⟩
      rw [Finset.mem_Ico] at ht hx
      omega
    have hcard := Finset.card_sdiff_add_card_eq_card hsub
    rw [Nat.card_Ico] at hcard
    have htail := ih hdrop hdisj.2
    have hlength := hwithin.length_le
    rw [total_cons]
    omega

lemma pairwise_inPlace (lo : ℕ) (xs : List Stretch) :
    (xs.filter (inPlace lo xs)).Pairwise fun x y => x.overlaps y = false := by
  rw [List.pairwise_iff_forall_sublist]
  intro x y hsub
  have hx : inPlace lo xs x = true :=
    (List.mem_filter.mp (hsub.subset List.mem_cons_self)).2
  by_contra hover
  have hself : x.overlaps x = true ∧ x.overlaps y = true := by
    simp only [overlaps, Bool.not_eq_false, decide_eq_true_eq] at hover ⊢
    omega
  have hcount := (hsub.trans List.filter_sublist).countP_le (p := x.overlaps)
  simp only [inPlace, Bool.and_eq_true, decide_eq_true_eq] at hx
  simp [hself] at hcount
  omega

lemma fits_iff (h : ∀ x ∈ xs, x.Within hi) : Fits lo hi xs ↔ total xs ≤ hi - lo := by
  have hplaced : total (xs.filter (inPlace lo xs)) ≤ (Finset.Ico lo hi).card := by
    have hin : ∀ x ∈ xs.filter (inPlace lo xs), x.Within hi ∧ Finset.Ico x.start x.stop ⊆ Finset.Ico lo hi := by
      intro x hx
      obtain ⟨hmem, hx⟩ := List.mem_filter.mp hx
      have hwithin := h x hmem
      simp only [inPlace, Bool.and_eq_true, decide_eq_true_eq] at hx
      exact ⟨hwithin, Finset.Ico_subset_Ico hx.1 hwithin.stop_le⟩
    exact total_le_card hin (pairwise_inPlace lo xs)
  have hsum := total_filter_add (inPlace lo xs) xs
  rw [Nat.card_Ico] at hplaced
  rw [Fits]
  omega

lemma Ordered.nil : Ordered hi [] := ⟨fun _ hx => absurd hx List.not_mem_nil, List.Pairwise.nil⟩

lemma Ordered.mono (h : Ordered hi xs) (hle : hi ≤ hi') : Ordered hi' xs :=
  ⟨fun x hx => (h.within x hx).mono hle, h.apart⟩

lemma Ordered.sublist (h : Ordered hi xs) (hsub : ys.Sublist xs) : Ordered hi ys :=
  ⟨fun x hx => h.within x (hsub.subset hx), h.apart.sublist hsub⟩

lemma Ordered.cons (h : Ordered x.start xs) (hx : x.Within hi) : Ordered hi (x :: xs) := by
  constructor
  · rw [List.forall_mem_cons]
    exact ⟨hx, fun y hy => (h.within y hy).mono (hx.start_le.trans hx.stop_le)⟩
  · exact List.pairwise_cons.mpr ⟨fun y hy => (h.within y hy).stop_le, h.apart⟩

lemma Ordered.total_le (h : Ordered hi xs) : total xs ≤ hi := by
  have hin : ∀ x ∈ xs, x.Within hi ∧ Finset.Ico x.start x.stop ⊆ Finset.Ico 0 hi := fun x hx =>
    ⟨h.within x hx, Finset.Ico_subset_Ico (Nat.zero_le _) (h.within x hx).stop_le⟩
  have hcard := total_le_card hin (h.apart.imp fun hxy => by
    simp only [overlaps, decide_eq_false_iff_not, not_lt]
    omega)
  rwa [Nat.card_Ico] at hcard

end Stretch

end PtPerf.Support
