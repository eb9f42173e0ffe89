import Mathlib.Tactic

/-! Intervals of positions that follow one another, and the positions of a list with a property. -/

namespace PtPerf.Support.Spans

lemma sum_le {f : ℕ → ℕ} {hi : ℕ} (hf : ∀ i j, i ≤ j → j ≤ hi → f i ≤ f j) (l : List (ℕ × ℕ)) (lo : ℕ)
    (hl : l.Pairwise fun x y => x.2 < y.1) (hle : ∀ x ∈ l, lo ≤ x.1 ∧ x.1 ≤ x.2 ∧ x.2 ≤ hi)
    (hlo : lo ≤ hi) : (l.map fun x => f x.2 - f x.1).sum ≤ f hi - f lo := by
  induction l generalizing lo with
  | nil => exact Nat.zero_le _
  | cons x l ih =>
    rw [List.pairwise_cons] at hl
    obtain ⟨hlox, hx, hhi⟩ := hle x List.mem_cons_self
    have htail := ih x.2 hl.2 (fun y hy => ⟨(hl.1 y hy).le, (hle y (List.mem_cons_of_mem _ hy)).2⟩) hhi
    rw [List.map_cons, List.sum_cons]
    have h₁ := hf lo x.1 hlox (hx.trans hhi)
    have h₂ := hf x.1 x.2 hx hhi
    have h₃ := hf x.2 hi hhi le_rfl
    omega

lemma length_le_countP {α : Type} {l : List α} {q : α → Bool} {idxs : List ℕ} (hnodup : idxs.Nodup)
    (h : ∀ i ∈ idxs, ∃ a, l[i]? = some a ∧ q a = true) : idxs.length ≤ l.countP q := by
  have hsub : idxs ⊆ (List.range l.length).filter fun i => l[i]?.any q := by
    intro i hi
    obtain ⟨a, ha, hq⟩ := h i hi
    rw [List.mem_filter, List.mem_range]
    exact ⟨(List.getElem?_eq_some_iff.mp ha).1, by simp [ha, hq]⟩
  have hcount : ((List.range l.length).filter fun i => l[i]?.any q).length = l.countP q := by
    have hmap : (List.range l.length).map (fun i => l[i]?) = l.map some := by
      apply List.ext_getElem?
      intro i
      by_cases hi : i < l.length
      · simp [hi]
      · simp [hi]
    rw [← List.countP_eq_length_filter]
    have h₁ : (List.range l.length).countP (fun i => l[i]?.any q) =
        ((List.range l.length).map fun i => l[i]?).countP (Option.any q) := by
      rw [List.countP_map]
      rfl
    rw [h₁, hmap, List.countP_map]
    rfl
  rw [← hcount]
  exact (hnodup.subperm hsub).length_le

lemma getElem?_of_drop {α : Type} {l rest : List α} {i : ℕ} {a : α} (h : l.drop i = a :: rest) :
    l[i]? = some a ∧ l.drop (i + 1) = rest := by
  constructor
  · rw [← List.head?_drop, h]
    rfl
  · rw [← List.tail_drop, h]
    rfl

end PtPerf.Support.Spans
