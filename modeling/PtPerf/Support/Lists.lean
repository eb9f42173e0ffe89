import Mathlib.Data.List.Forall2
import Mathlib.Tactic

/-! Lists that are filtered, searched, cut to a length or into parts, or related element by element. -/

namespace PtPerf.Support

lemma forall₂_filter {α β : Type} {R : α → β → Prop} {p : α → Bool} {q : β → Bool} {xs : List α} {ys : List β}
    (h : List.Forall₂ R xs ys) (hpq : ∀ x y, R x y → p x = q y) :
    List.Forall₂ R (xs.filter p) (ys.filter q) := by
  induction h with
  | nil => exact .nil
  | @cons x y xs ys hxy _ ih =>
    cases hq : q y with
    | true =>
      rw [List.filter_cons_of_pos hq, List.filter_cons_of_pos ((hpq x y hxy).trans hq)]
      exact .cons hxy ih
    | false =>
      have hp : ¬ p x = true := by rw [hpq x y hxy, hq]; exact Bool.false_ne_true
      have hq' : ¬ q y = true := by rw [hq]; exact Bool.false_ne_true
      rw [List.filter_cons_of_neg hp, List.filter_cons_of_neg hq']
      exact ih

lemma forall₂_iff_of_rel {α β γ : Type} {R : α → β → Prop} {S : β → γ → Prop} {P : α → β → Prop}
    {Q : α → γ → Prop} (h : ∀ x y z, R x y → S y z → (Q x z ↔ P x y)) {xs : List α} {ys : List β}
    {zs : List γ} (hr : List.Forall₂ R xs ys) (hs : List.Forall₂ S ys zs) :
    List.Forall₂ Q xs zs ↔ List.Forall₂ P xs ys := by
  induction hr generalizing zs with
  | nil =>
    cases hs
    exact ⟨fun _ => List.Forall₂.nil, fun _ => List.Forall₂.nil⟩
  | cons hxy _ ih =>
    cases hs with
    | cons hyz hs => rw [List.forall₂_cons, List.forall₂_cons, h _ _ _ hxy hyz, ih hs]

lemma forall₂_trans {α β γ : Type} {R : α → β → Prop} {S : β → γ → Prop} {T : α → γ → Prop} {xs : List α}
    {ys : List β} {zs : List γ} (h : List.Forall₂ R xs ys) (h' : List.Forall₂ S ys zs)
    (ht : ∀ x, ∀ y ∈ ys, ∀ z ∈ zs, R x y → S y z → T x z) : List.Forall₂ T xs zs := by
  induction h generalizing zs with
  | nil =>
    cases h'
    exact .nil
  | cons hxy _ ih =>
    cases h' with
    | cons hyz hzs =>
      refine .cons (ht _ _ List.mem_cons_self _ List.mem_cons_self hxy hyz) (ih hzs fun x y hy z hz => ?_)
      exact ht x y (List.mem_cons_of_mem _ hy) z (List.mem_cons_of_mem _ hz)

lemma filterMap_of_forall₂ {α β γ δ : Type} {R : α → β → Prop} {f : β → Option γ} {g : γ → δ}
    {f' : α → Option δ} {xs : List α} {ys : List β} (h : List.Forall₂ R xs ys)
    (hf : ∀ x y, R x y → (f y).map g = f' x) : (ys.filterMap f).map g = xs.filterMap f' := by
  induction h with
  | nil => rfl
  | @cons x y xs ys hxy _ ih =>
    have hhead := hf x y hxy
    cases hy : f y with
    | none =>
      rw [hy] at hhead
      rw [List.filterMap_cons_none hy, List.filterMap_cons_none hhead.symm, ih]
    | some z =>
      rw [hy] at hhead
      rw [List.filterMap_cons_some hy, List.filterMap_cons_some hhead.symm, List.map_cons, ih]

lemma filterMap_filter_eq_iff {α β : Type} (p : α → Bool) (f : α → Option β) (l : List α) :
    (l.filter p).filterMap f = l.filterMap f ↔ ∀ x ∈ l, p x = false → f x = none := by
  induction l with
  | nil => simp
  | cons x l ih =>
    rw [List.forall_mem_cons, ← ih]
    cases hp : p x with
    | true =>
      rw [List.filter_cons_of_pos hp]
      cases hf : f x with
      | none => simp [hf]
      | some y => simp [hf]
    | false =>
      rw [List.filter_cons_of_neg (by simp [hp])]
      cases hf : f x with
      | none => simp [hf]
      | some y =>
        rw [List.filterMap_cons_some hf]
        simp only [reduceCtorEq, imp_false, not_true_eq_false, false_and, iff_false]
        intro heq
        have hsub : ((l.filter p).filterMap f).Sublist (l.filterMap f) := List.filter_sublist.filterMap f
        have hle := hsub.length_le
        rw [heq, List.length_cons] at hle
        omega

lemma foldl_room {α β : Type} (room : ℕ) (p : α → Bool) (f : α → β) (l : List α) (acc : List β)
    (hacc : acc.length ≤ room) :
    l.foldl (fun acc x => if p x && acc.length < room then acc ++ [f x] else acc) acc =
      (acc ++ (l.filter p).map f).take room := by
  induction l generalizing acc with
  | nil => simp [List.take_of_length_le hacc]
  | cons x l ih =>
    rw [List.foldl_cons]
    cases hp : p x with
    | false => rw [if_neg (by simp), ih acc hacc, List.filter_cons_of_neg (by simp [hp])]
    | true =>
      by_cases hlt : acc.length < room
      · rw [if_pos (by simp [hlt]), ih _ (by simp; omega)]
        simp [hp]
      · rw [if_neg (by simp [hlt]), ih acc hacc, List.take_append_of_le_length (by omega),
          List.take_append_of_le_length (by omega)]

lemma take_take_append {α : Type} (n : ℕ) (l m : List α) : (l.take n ++ m).take n = (l ++ m).take n := by
  rw [List.take_append, List.take_append, List.take_take, min_self, List.length_take]
  congr 2
  omega

lemma getElem?_of_extends {α : Type} {xs ys : List α} (h : xs <+: ys) {i : ℕ} (hi : i < xs.length) :
    ys[i]? = xs[i]? := by
  obtain ⟨more, rfl⟩ := h
  exact List.getElem?_append_left hi

lemma findIdx?_congr {α : Type} {p q : α → Bool} {l : List α} (h : ∀ a ∈ l, p a = q a) :
    l.findIdx? p = l.findIdx? q := by
  induction l with
  | nil => rfl
  | cons a l ih =>
    rw [List.findIdx?_cons, List.findIdx?_cons, h a (by simp), ih fun b hb => h b (by simp [hb])]

lemma span_eq_append_cons {α : Type} {o c b : α} {inside rest u w : List α}
    (h : o :: (inside ++ c :: rest) = u ++ b :: w) :
    (u = [] ∧ b = o ∧ w = inside ++ c :: rest) ∨
      (∃ u' w', u = o :: u' ∧ inside = u' ++ b :: w' ∧ w = w' ++ c :: rest) ∨
      (u = o :: inside ∧ b = c ∧ w = rest) ∨
      ∃ u', u = o :: (inside ++ c :: u') ∧ rest = u' ++ b :: w := by
  rcases List.cons_eq_append_iff.mp h with ⟨rfl, hw⟩ | ⟨u', rfl, hu⟩
  · cases hw
    exact Or.inl ⟨rfl, rfl, rfl⟩
  · rcases List.append_eq_append_iff.mp hu with ⟨m, rfl, hm⟩ | ⟨m, rfl, hm⟩
    · rcases List.cons_eq_append_iff.mp hm with ⟨rfl, hw⟩ | ⟨u'', rfl, hr⟩
      · cases hw
        exact Or.inr (Or.inr (Or.inl ⟨by simp, rfl, rfl⟩))
      · exact Or.inr (Or.inr (Or.inr ⟨u'', rfl, hr⟩))
    · rcases List.cons_eq_append_iff.mp hm with ⟨rfl, hw⟩ | ⟨w', rfl, hw⟩
      · cases hw
        exact Or.inr (Or.inr (Or.inl ⟨by simp, rfl, rfl⟩))
      · exact Or.inr (Or.inl ⟨u', w', rfl, rfl, hw⟩)

end PtPerf.Support
