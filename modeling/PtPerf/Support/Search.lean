import Mathlib.Data.List.Basic
import Mathlib.Data.Tree.Basic
import Mathlib.Tactic

/-! The first occurrence of a pattern in a list, and the way down a search tree. -/

namespace PtPerf.Support

variable {α : Type}

section Infix

variable {pat xs ys : List α} {c : α}

lemma infix_append_cons_iff (hc : c ∉ pat) :
    pat <:+: xs ++ c :: ys ↔ pat <:+: xs ∨ pat <:+: ys := by
  rw [List.infix_append_iff, List.infix_cons_iff]
  constructor
  · rintro (h | (h | h) | ⟨l₁, l₂, rfl, h₁, h₂⟩)
    · exact Or.inl h
    · cases pat with
      | nil => exact Or.inl List.nil_infix
      | cons a pat =>
        rw [List.cons_prefix_cons] at h
        exact absurd (List.mem_cons.mpr (Or.inl h.1.symm)) hc
    · exact Or.inr h
    · cases l₂ with
      | nil =>
        rw [List.append_nil]
        exact Or.inl h₁.isInfix
      | cons a l₂ =>
        rw [List.cons_prefix_cons] at h₂
        exact absurd (by simp [h₂.1]) hc
  · rintro (h | h)
    · exact Or.inl h
    · exact Or.inr (Or.inl (Or.inr h))

lemma infix_of_append_right (hc : c ∉ xs) (h : c :: pat <:+: xs ++ ys) : c :: pat <:+: ys := by
  rcases List.infix_append_iff.mp h with h | h | ⟨l₁, l₂, heq, h₁, h₂⟩
  · exact absurd (h.subset List.mem_cons_self) hc
  · exact h
  · cases l₁ with
    | nil =>
      rw [heq]
      exact h₂.isInfix
    | cons a l₁ =>
      obtain ⟨rfl, -⟩ := List.cons.inj heq
      exact absurd (h₁.subset List.mem_cons_self) hc

lemma infix_of_append_left (hc : c ∉ ys) (h : pat ++ [c] <:+: xs ++ ys) : pat ++ [c] <:+: xs := by
  rw [← List.reverse_infix, List.reverse_append, List.reverse_singleton, List.singleton_append] at h ⊢
  rw [List.reverse_append] at h
  exact infix_of_append_right (by simpa using hc) h

end Infix

section Trees

def inorder : BinaryTree α → List α
  | .nil => []
  | .node a l r => inorder l ++ a :: inorder r

/-- Where the search for a value goes at each node. -/
def descend (side : α → Ordering) : BinaryTree α → Option α
  | .nil => none
  | .node a l r =>
    match side a with
    | .lt => descend side l
    | .eq => some a
    | .gt => descend side r

lemma descend_eq_some {side : α → Ordering} {t : BinaryTree α} {a : α} (h : descend side t = some a) :
    a ∈ inorder t ∧ side a = .eq := by
  induction t with
  | nil => cases h
  | node b l r ihl ihr =>
    rw [descend] at h
    rw [inorder, List.mem_append, List.mem_cons]
    split at h
    · obtain ⟨hmem, hside⟩ := ihl h
      exact ⟨Or.inl hmem, hside⟩
    · cases h
      exact ⟨Or.inr (Or.inl rfl), by assumption⟩
    · obtain ⟨hmem, hside⟩ := ihr h
      exact ⟨Or.inr (Or.inr hmem), hside⟩

end Trees

variable [DecidableEq α]

def memmem (pat : List α) : List α → Option ℕ
  | [] => if pat = [] then some 0 else none
  | x :: xs => if pat <+: x :: xs then some 0 else (memmem pat xs).map (· + 1)

lemma memmem_occurs {pat text : List α} {i : ℕ} (h : memmem pat text = some i) :
    pat <+: text.drop i := by
  induction text generalizing i with
  | nil =>
    rw [memmem] at h
    split at h
    · rename_i hp
      rw [hp]
      exact List.nil_prefix
    · cases h
  | cons x xs ih =>
    rw [memmem] at h
    split at h
    · rename_i hp
      cases h
      exact hp
    · obtain ⟨k, hk, rfl⟩ := Option.map_eq_some_iff.mp h
      exact ih hk

lemma memmem_le_of_occurs {pat text : List α} {i : ℕ} (h : pat <+: text.drop i) :
    ∃ k ≤ i, memmem pat text = some k := by
  induction text generalizing i with
  | nil =>
    have hp : pat = [] := by simpa using h
    exact ⟨0, Nat.zero_le i, by rw [memmem, if_pos hp]⟩
  | cons x xs ih =>
    by_cases hp : pat <+: x :: xs
    · exact ⟨0, Nat.zero_le i, by rw [memmem, if_pos hp]⟩
    · cases i with
      | zero => exact absurd h hp
      | succ i =>
        obtain ⟨k, hk, heq⟩ := ih h
        exact ⟨k + 1, Nat.succ_le_succ hk, by rw [memmem, if_neg hp, heq]; rfl⟩

lemma memmem_add_le {pat text : List α} {i : ℕ} (hpat : pat ≠ []) (h : memmem pat text = some i) :
    i + pat.length ≤ text.length := by
  have hlen := (memmem_occurs h).length_le
  have hpos := List.length_pos_iff.mpr hpat
  rw [List.length_drop] at hlen
  omega

lemma memmem_take {pat text : List α} {i : ℕ} (hpat : pat ≠ []) (h : memmem pat text = some i) :
    memmem pat (text.take i) = none := by
  cases hk : memmem pat (text.take i) with
  | none => rfl
  | some k =>
    have hfit := memmem_add_le hpat hk
    have hpos := List.length_pos_iff.mpr hpat
    have hocc := memmem_occurs hk
    rw [List.drop_take] at hocc
    have hcut := List.take_prefix (i - k) (text.drop k)
    obtain ⟨m, hm, heq⟩ := memmem_le_of_occurs (hocc.trans hcut)
    rw [h] at heq
    rw [List.length_take] at hfit
    obtain rfl := Option.some.inj heq
    omega

lemma memmem_isSome_iff {pat text : List α} : (memmem pat text).isSome ↔ pat <:+: text := by
  constructor
  · intro h
    obtain ⟨i, hi⟩ := Option.isSome_iff_exists.mp h
    exact (memmem_occurs hi).isInfix.trans (List.drop_suffix i text).isInfix
  · rintro ⟨xs, ys, rfl⟩
    have hocc : pat <+: (xs ++ pat ++ ys).drop xs.length := by
      rw [List.append_assoc, List.drop_left]
      exact List.prefix_append pat ys
    obtain ⟨k, -, hk⟩ := memmem_le_of_occurs hocc
    exact Option.isSome_iff_exists.mpr ⟨k, hk⟩

lemma memmem_append {pat xs ys : List α} (hpat : pat ≠ []) (h : ¬ pat <:+: xs ++ pat.dropLast) :
    memmem pat (xs ++ (pat ++ ys)) = some xs.length := by
  have hocc : pat <+: (xs ++ (pat ++ ys)).drop xs.length := by
    rw [List.drop_left]
    exact List.prefix_append pat ys
  obtain ⟨k, hk, heq⟩ := memmem_le_of_occurs hocc
  rcases Nat.lt_or_eq_of_le hk with hlt | rfl
  · refine absurd ?_ h
    have hpos := List.length_pos_iff.mpr hpat
    have hsplit : xs ++ (pat ++ ys) = xs ++ pat.dropLast ++ (pat.getLast hpat :: ys) := by
      conv_lhs => rw [← List.dropLast_append_getLast hpat]
      simp
    have hearly := memmem_occurs heq
    rw [hsplit, List.drop_append_of_le_length (by rw [List.length_append]; omega)] at hearly
    have hin : pat <+: (xs ++ pat.dropLast).drop k := by
      refine List.prefix_of_prefix_length_le hearly (List.prefix_append _ _) ?_
      rw [List.length_drop, List.length_append, List.length_dropLast]
      omega
    exact hin.isInfix.trans (List.drop_suffix k _).isInfix
  · exact heq

end PtPerf.Support
