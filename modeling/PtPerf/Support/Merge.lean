import Mathlib.Tactic

/-! Merging queues by a key. In each round the heads are scanned in order and the first one with
the least key is taken, so what comes out is the stable sort of the queues put one after another. -/

namespace PtPerf.Support.Merge

variable {α κ : Type} [LinearOrder κ] (key : α → κ)

/-- The first queue whose head has the least key below `bound`, with the queues numbered
from `i`. -/
def scan : List (List α) → ℕ → κ → Option (ℕ × α) → Option (ℕ × α)
  | [], _, _, best => best
  | [] :: queues, i, bound, best => scan queues (i + 1) bound best
  | (a :: _) :: queues, i, bound, best =>
    if key a < bound then scan queues (i + 1) (key a) (some (i, a))
    else scan queues (i + 1) bound best

/-- The rounds of the merge: a head is only taken when its key is below `top`. -/
def merge (top : κ) : ℕ → List (List α) → List α
  | 0, _ => []
  | n + 1, queues =>
    match scan key queues 0 top none with
    | none => []
    | some (i, a) => a :: merge top n (queues.modify i List.tail)

def KeySorted (l : List α) : Prop := l.Pairwise fun a b => key a ≤ key b

instance (l : List α) : Decidable (KeySorted key l) :=
  inferInstanceAs (Decidable (l.Pairwise fun a b => key a ≤ key b))

def sort (l : List α) : List α := l.mergeSort fun a b => key a ≤ key b

variable {key}

section Sorting

lemma KeySorted.eq_of_filter_eq {l m : List α} (hl : KeySorted key l) (hm : KeySorted key m)
    (h : ∀ k, l.filter (key · = k) = m.filter (key · = k)) : l = m := by
  induction l generalizing m with
  | nil =>
    cases m with
    | nil => rfl
    | cons b m =>
      have hb := h (key b)
      simp at hb
  | cons a l ih =>
    cases m with
    | nil =>
      have ha := h (key a)
      simp at ha
    | cons b m =>
      rw [KeySorted, List.pairwise_cons] at hl hm
      have hkey : key a = key b := by
        have ha : a ∈ (b :: m).filter (key · = key a) := by
          rw [← h]
          simp
        have hb : b ∈ (a :: l).filter (key · = key b) := by
          rw [h]
          simp
        apply le_antisymm
        · rcases List.mem_cons.mp (List.mem_of_mem_filter hb) with rfl | hb
          · exact le_rfl
          · exact hl.1 b hb
        · rcases List.mem_cons.mp (List.mem_of_mem_filter ha) with rfl | ha
          · exact le_rfl
          · exact hm.1 a ha
      have hhead := h (key b)
      simp only [hkey, decide_true, List.filter_cons_of_pos, List.cons.injEq] at hhead
      obtain ⟨rfl, -⟩ := hhead
      rw [ih hl.2 hm.2]
      intro k
      have hk := h k
      by_cases hak : key a = k
      · simpa [hak] using hk
      · simpa [hak] using hk

lemma keySorted_sort (l : List α) : KeySorted key (sort key l) := by
  have h : (sort key l).Pairwise fun a b => decide (key a ≤ key b) = true := by
    apply List.pairwise_mergeSort
    · exact fun a b c hab hbc => by simpa using le_trans (by simpa using hab) (by simpa using hbc)
    · exact fun a b => by simpa using le_total (key a) (key b)
  exact h.imp fun hab => by simpa using hab

lemma sort_perm (l : List α) : (sort key l).Perm l := List.mergeSort_perm l _

lemma KeySorted.sublist_sort {c l : List α} (hc : KeySorted key c) (h : c.Sublist l) :
    c.Sublist (sort key l) := by
  apply List.sublist_mergeSort
  · exact fun a b c hab hbc => by simpa using le_trans (by simpa using hab) (by simpa using hbc)
  · exact fun a b => by simpa using le_total (key a) (key b)
  · exact List.Pairwise.imp (fun hab => by simpa using hab) hc
  · exact h

lemma filter_sort (l : List α) (k : κ) :
    (sort key l).filter (key · = k) = l.filter (key · = k) := by
  have hsorted : KeySorted key (l.filter (key · = k)) := by
    rw [KeySorted, List.pairwise_filter]
    apply List.pairwise_of_forall
    intro a b ha hb
    simp only [decide_eq_true_eq] at ha hb
    rw [ha, hb]
  have hfilter := (hsorted.sublist_sort List.filter_sublist).filter (key · = k)
  rw [List.filter_filter] at hfilter
  simp only [Bool.and_self] at hfilter
  exact (hfilter.eq_of_length ((sort_perm l).filter _).length_eq.symm).symm

lemma pairwise_sort {R : α → α → Prop} {l : List α} (h : l.Pairwise R) :
    (sort key l).Pairwise fun a b => key a = key b → R a b := by
  rw [List.pairwise_iff_forall_sublist]
  intro a b hab hkey
  have hfilter := hab.filter (key · = key b)
  rw [filter_sort] at hfilter
  have hpair : [a, b].filter (key · = key b) = [a, b] := by simp [hkey]
  rw [hpair] at hfilter
  exact List.pairwise_iff_forall_sublist.mp h (hfilter.trans List.filter_sublist)

lemma sort_eq_of_filter_eq {l m : List α} (h : ∀ k, l.filter (key · = k) = m.filter (key · = k)) :
    sort key l = sort key m :=
  (keySorted_sort l).eq_of_filter_eq (keySorted_sort m) fun k => by rw [filter_sort, filter_sort, h]

lemma KeySorted.sort_eq {l : List α} (h : KeySorted key l) : sort key l = l :=
  (keySorted_sort l).eq_of_filter_eq h (filter_sort l)

lemma KeySorted.filter_split {l : List α} (hl : KeySorted key l) {j k : κ} (hjk : j ≤ k) :
    l.filter (key · < j) ++ l.filter (fun a => j ≤ key a ∧ key a < k) = l.filter (key · < k) := by
  induction l with
  | nil => rfl
  | cons a l ih =>
    have hl' := List.pairwise_cons.mp hl
    have ih := ih hl'.2
    by_cases hj : key a < j
    · have hk : key a < k := hj.trans_le hjk
      rw [List.filter_cons_of_pos (by simpa using hj),
        List.filter_cons_of_neg (by simp [not_le.mpr hj]), List.filter_cons_of_pos (by simpa using hk),
        List.cons_append, ih]
    · have hnone : ∀ b ∈ a :: l, ¬ key b < j := by
        intro b hb
        rcases List.mem_cons.mp hb with rfl | hb
        · exact hj
        · exact not_lt.mpr ((not_lt.mp hj).trans (hl'.1 b hb))
      rw [List.filter_eq_nil_iff.mpr fun b hb => by simpa using hnone b hb, List.nil_append]
      apply List.filter_congr
      intro b hb
      simp [not_lt.mp (hnone b hb)]

end Sorting

section Scanning

lemma scan_cases (queues : List (List α)) (i : ℕ) (bound : κ) (best : Option (ℕ × α)) :
    (scan key queues i bound best = best ∧ ∀ q ∈ queues, ∀ b ∈ q.head?, bound ≤ key b) ∨
      ∃ pre a tail post, queues = pre ++ (a :: tail) :: post ∧
        scan key queues i bound best = some (i + pre.length, a) ∧ key a < bound ∧
        (∀ q ∈ pre, ∀ b ∈ q.head?, key a < key b) ∧ ∀ q ∈ post, ∀ b ∈ q.head?, key a ≤ key b := by
  induction queues generalizing i bound best with
  | nil => exact Or.inl ⟨rfl, fun q hq => absurd hq List.not_mem_nil⟩
  | cons q queues ih =>
    cases q with
    | nil =>
      rcases ih (i + 1) bound best with ⟨hs, hall⟩ | ⟨pre, a, tail, post, rfl, hs, hlt, hpre, hpost⟩
      · refine Or.inl ⟨hs, fun q hq => ?_⟩
        rcases List.mem_cons.mp hq with rfl | hq
        · simp
        · exact hall q hq
      · refine Or.inr ⟨[] :: pre, a, tail, post, rfl, ?_, hlt, fun q hq => ?_, hpost⟩
        · rw [scan, hs, List.length_cons]
          congr 2
          omega
        · rcases List.mem_cons.mp hq with rfl | hq
          · simp
          · exact hpre q hq
    | cons b tail =>
      by_cases hb : key b < bound
      · rw [scan, if_pos hb]
        rcases ih (i + 1) (key b) (some (i, b)) with
          ⟨hs, hall⟩ | ⟨pre, a, tail', post, rfl, hs, hlt, hpre, hpost⟩
        · exact Or.inr ⟨[], b, tail, queues, rfl, hs, hb, fun q hq => absurd hq List.not_mem_nil, hall⟩
        · refine Or.inr ⟨(b :: tail) :: pre, a, tail', post, rfl, ?_, hlt.trans hb, fun q hq => ?_, hpost⟩
          · rw [hs, List.length_cons]
            congr 2
            omega
          · rcases List.mem_cons.mp hq with rfl | hq
            · simpa using hlt
            · exact hpre q hq
      · rw [scan, if_neg hb]
        rcases ih (i + 1) bound best with ⟨hs, hall⟩ | ⟨pre, a, tail', post, rfl, hs, hlt, hpre, hpost⟩
        · refine Or.inl ⟨hs, fun q hq => ?_⟩
          rcases List.mem_cons.mp hq with rfl | hq
          · simpa using hb
          · exact hall q hq
        · refine Or.inr ⟨(b :: tail) :: pre, a, tail', post, rfl, ?_, hlt, fun q hq => ?_, hpost⟩
          · rw [hs, List.length_cons]
            congr 2
            omega
          · rcases List.mem_cons.mp hq with rfl | hq
            · simpa using hlt.trans_le (not_lt.mp hb)
            · exact hpre q hq

end Scanning

section Mapping

variable {β : Type} (f : β → α)

lemma scan_map (queues : List (List β)) (i : ℕ) (bound : κ) (best : Option (ℕ × β)) :
    scan key (queues.map (List.map f)) i bound (best.map (Prod.map id f)) =
      (scan (key ∘ f) queues i bound best).map (Prod.map id f) := by
  induction queues generalizing i bound best with
  | nil => rfl
  | cons q queues ih =>
    cases q with
    | nil => exact ih (i + 1) bound best
    | cons b q =>
      simp only [List.map_cons, scan, Function.comp_apply]
      split
      · exact ih (i + 1) (key (f b)) (some (i, b))
      · exact ih (i + 1) bound best

lemma modify_tail_map (queues : List (List β)) (i : ℕ) :
    (queues.map (List.map f)).modify i List.tail = (queues.modify i List.tail).map (List.map f) := by
  induction queues generalizing i with
  | nil => simp
  | cons q queues ih =>
    cases i with
    | zero => simp [List.map_tail]
    | succ i => simp [ih]

lemma merge_map (top : κ) (n : ℕ) (queues : List (List β)) :
    merge key top n (queues.map (List.map f)) = (merge (key ∘ f) top n queues).map f := by
  induction n generalizing queues with
  | zero => rfl
  | succ n ih =>
    have hscan : scan key (queues.map (List.map f)) 0 top none =
        (scan (key ∘ f) queues 0 top none).map (Prod.map id f) := scan_map f queues 0 top none
    rw [merge, merge, hscan]
    cases scan (key ∘ f) queues 0 top none with
    | none => rfl
    | some x =>
      change f x.2 :: merge key top n ((queues.map (List.map f)).modify x.1 List.tail) = f x.2 :: _
      rw [modify_tail_map, ih]

end Mapping

section Merging

variable (top : κ)

lemma KeySorted.le_of_head {q : List α} (hq : KeySorted key q) {k : κ}
    (h : ∀ b ∈ q.head?, k ≤ key b) : ∀ b ∈ q, k ≤ key b := by
  cases q with
  | nil => exact fun b hb => absurd hb List.not_mem_nil
  | cons a q =>
    have ha : k ≤ key a := h a rfl
    intro b hb
    rcases List.mem_cons.mp hb with rfl | hb
    · exact ha
    · exact ha.trans ((List.pairwise_cons.mp hq).1 b hb)

lemma KeySorted.lt_of_head {q : List α} (hq : KeySorted key q) {k : κ}
    (h : ∀ b ∈ q.head?, k < key b) : ∀ b ∈ q, k < key b := by
  cases q with
  | nil => exact fun b hb => absurd hb List.not_mem_nil
  | cons a q =>
    have ha : k < key a := h a rfl
    intro b hb
    rcases List.mem_cons.mp hb with rfl | hb
    · exact ha
    · exact ha.trans_le ((List.pairwise_cons.mp hq).1 b hb)

lemma modify_length_append (pre post : List (List α)) (q : List α) :
    (pre ++ q :: post).modify pre.length List.tail = pre ++ q.tail :: post := by
  induction pre with
  | nil => rfl
  | cons p pre ih => simp [ih]

lemma merge_succ_cases (n : ℕ) (queues : List (List α)) (hsorted : ∀ q ∈ queues, KeySorted key q) :
    (merge key top (n + 1) queues = [] ∧ ∀ b ∈ queues.flatten, top ≤ key b) ∨
      ∃ pre a tail post, queues = pre ++ (a :: tail) :: post ∧ key a < top ∧
        merge key top (n + 1) queues = a :: merge key top n (pre ++ tail :: post) ∧
        (∀ b ∈ pre.flatten, key a < key b) ∧ ∀ b ∈ tail ++ post.flatten, key a ≤ key b := by
  rcases scan_cases queues 0 top none with ⟨hs, hall⟩ | ⟨pre, a, tail, post, rfl, hs, hlt, hpre, hpost⟩
  · left
    refine ⟨by rw [merge, hs], fun b hb => ?_⟩
    obtain ⟨q, hq, hbq⟩ := List.mem_flatten.mp hb
    exact (hsorted q hq).le_of_head (hall q hq) b hbq
  · right
    refine ⟨pre, a, tail, post, rfl, hlt, ?_, fun b hb => ?_, fun b hb => ?_⟩
    · rw [merge, hs]
      simp only [Nat.zero_add, modify_length_append, List.tail_cons]
    · obtain ⟨q, hq, hbq⟩ := List.mem_flatten.mp hb
      exact (hsorted q (by simp [hq])).lt_of_head (hpre q hq) b hbq
    · rcases List.mem_append.mp hb with hb | hb
      · exact (List.pairwise_cons.mp (hsorted (a :: tail) (by simp))).1 b hb
      · obtain ⟨q, hq, hbq⟩ := List.mem_flatten.mp hb
        exact (hsorted q (by simp [hq])).le_of_head (hpost q hq) b hbq

lemma merge_length_le (n : ℕ) (queues : List (List α)) : (merge key top n queues).length ≤ n := by
  induction n generalizing queues with
  | zero => exact le_rfl
  | succ n ih =>
    rw [merge]
    split
    · exact Nat.zero_le _
    · exact Nat.succ_le_succ (ih _)

structure IsStableMerge (key : α → κ) (top : κ) (queues : List (List α)) (l : List α) : Prop where
  sorted : KeySorted key l
  filter : ∀ k < top, l.filter (key · = k) = queues.flatten.filter (key · = k)
  below : ∀ a ∈ l, key a < top

/-- The first of the least heads in front of a merge of what is left. -/
lemma IsStableMerge.cons {pre post : List (List α)} {a : α} {tail l : List α}
    (h : IsStableMerge key top (pre ++ tail :: post) l) (ha : key a < top)
    (hpre : ∀ b ∈ pre.flatten, key a < key b) (hpost : ∀ b ∈ tail ++ post.flatten, key a ≤ key b) :
    IsStableMerge key top (pre ++ (a :: tail) :: post) (a :: l) := by
  refine ⟨List.pairwise_cons.mpr ⟨fun b hb => ?_, h.sorted⟩, fun k hk => ?_, fun b hb => ?_⟩
  · have hb' : b ∈ (pre ++ tail :: post).flatten.filter (key · = key b) := by
      rw [← h.filter (key b) (h.below b hb)]
      exact List.mem_filter.mpr ⟨hb, by simp⟩
    have hmem := List.mem_of_mem_filter hb'
    rw [List.flatten_append, List.flatten_cons] at hmem
    rcases List.mem_append.mp hmem with hmem | hmem
    · exact (hpre b hmem).le
    · exact hpost b hmem
  · have hk' := h.filter k hk
    rw [List.flatten_append, List.flatten_cons, List.filter_append] at hk' ⊢
    by_cases hak : key a = k
    · have hnone : pre.flatten.filter (key · = k) = [] := by
        rw [List.filter_eq_nil_iff]
        intro b hb
        have hne : key b ≠ k := hak ▸ (hpre b hb).ne'
        simpa using hne
      rw [hnone, List.nil_append] at hk' ⊢
      rw [List.filter_cons_of_pos (by simpa using hak), hk', List.cons_append,
        List.filter_cons_of_pos (by simpa using hak)]
    · rw [List.filter_cons_of_neg (by simpa using hak), hk', List.cons_append,
        List.filter_cons_of_neg (by simpa using hak)]
  · rcases List.mem_cons.mp hb with rfl | hb
    · exact ha
    · exact h.below b hb

lemma isStableMerge_merge (n : ℕ) (queues : List (List α)) (hsorted : ∀ q ∈ queues, KeySorted key q)
    (hn : queues.flatten.length ≤ n) : IsStableMerge key top queues (merge key top n queues) := by
  induction n generalizing queues with
  | zero =>
    have hnil : queues.flatten = [] := List.length_eq_zero_iff.mp (Nat.le_zero.mp hn)
    exact ⟨List.Pairwise.nil, fun k _ => by rw [hnil]; rfl, fun a ha => absurd ha List.not_mem_nil⟩
  | succ n ih =>
    rcases merge_succ_cases top n queues hsorted with
      ⟨hm, hall⟩ | ⟨pre, a, tail, post, rfl, hlt, hm, hpre, hpost⟩
    · rw [hm]
      refine ⟨List.Pairwise.nil, fun k hk => ?_, fun a ha => absurd ha List.not_mem_nil⟩
      rw [List.filter_nil, eq_comm, List.filter_eq_nil_iff]
      intro b hb
      have hne : key b ≠ k := (hk.trans_le (hall b hb)).ne'
      simpa using hne
    · have hrest := ih (pre ++ tail :: post) ?_ ?_
      · rw [hm]
        exact hrest.cons top hlt hpre hpost
      · intro q hq
        rcases List.mem_append.mp hq with hq | hq
        · exact hsorted q (by simp [hq])
        · rcases List.mem_cons.mp hq with rfl | hq
          · exact (List.pairwise_cons.mp (hsorted (a :: q) (by simp))).2
          · exact hsorted q (by simp [hq])
      · simp only [List.flatten_append, List.flatten_cons, List.length_append, List.length_cons] at hn ⊢
        omega

/-- The merge of sorted queues is the stable sort of their elements below `top`. -/
lemma merge_eq_sort (queues : List (List α)) (hsorted : ∀ q ∈ queues, KeySorted key q) :
    merge key top queues.flatten.length queues = sort key (queues.flatten.filter (key · < top)) := by
  have hm := isStableMerge_merge top _ queues hsorted le_rfl
  refine hm.sorted.eq_of_filter_eq (keySorted_sort _) fun k => ?_
  rw [filter_sort, List.filter_filter]
  by_cases hk : k < top
  · rw [hm.filter k hk]
    apply List.filter_congr
    intro a _
    by_cases hak : key a = k
    · simp [hak, hk]
    · simp [hak]
  · rw [List.filter_eq_nil_iff.mpr, List.filter_eq_nil_iff.mpr]
    · intro a _
      by_cases hak : key a = k
      · simp [hak, hk]
      · simp [hak]
    · intro a ha
      have hne : key a ≠ k := fun h => hk (h ▸ hm.below a ha)
      simpa using hne

end Merging

end PtPerf.Support.Merge
