import Mathlib.Data.Multiset.Range
import Mathlib.Data.Multiset.MapFold
import Mathlib.Order.Basic
import Mathlib.Tactic

/-! Binary heaps in an array. Elements move along one path of the tree into a hole, and the array
is a function on positions of which the first `n` count. -/

namespace PtPerf.Support.BinHeap

open Function

variable {α κ : Type} [LinearOrder κ] {key : α → κ} {a : ℕ → α} {n pos : ℕ} {x : α}

def parent (i : ℕ) : ℕ := (i - 1) / 2

lemma parent_lt {i : ℕ} (h : 0 < i) : parent i < i := by
  rw [parent]
  omega

lemma eq_child {i j : ℕ} (hi : 0 < i) (h : parent i = j) : i = 2 * j + 1 ∨ i = 2 * j + 2 := by
  rw [parent] at h
  omega

@[simp] lemma parent_left (i : ℕ) : parent (2 * i + 1) = i := by
  rw [parent]
  omega

@[simp] lemma parent_right (i : ℕ) : parent (2 * i + 2) = i := by
  rw [parent]
  omega

/-- No element comes before its parent. -/
def Ordered (key : α → κ) (n : ℕ) (a : ℕ → α) : Prop :=
  ∀ i, 0 < i → i < n → key (a (parent i)) ≤ key (a i)

lemma Ordered.root_le (h : Ordered key n a) {i : ℕ} (hi : i < n) : key (a 0) ≤ key (a i) := by
  induction i using Nat.strong_induction_on with
  | _ i ih =>
    rcases Nat.eq_zero_or_pos i with rfl | hpos
    · exact le_rfl
    · have hp := parent_lt hpos
      exact (ih (parent i) hp (hp.trans hi)).trans (h i hpos hi)

/-- The first `n` elements, without their positions. -/
def contents (n : ℕ) (a : ℕ → α) : Multiset α := (Multiset.range n).map a

lemma contents_succ (n : ℕ) (a : ℕ → α) : contents (n + 1) a = a n ::ₘ contents n a := by
  rw [contents, Multiset.range_succ, Multiset.map_cons]
  rfl

@[simp] lemma card_contents (n : ℕ) (a : ℕ → α) : (contents n a).card = n := by
  rw [contents, Multiset.card_map, Multiset.card_range]

lemma mem_contents {y : α} : y ∈ contents n a ↔ ∃ i < n, a i = y := by
  simp only [contents, Multiset.mem_map, Multiset.mem_range]

lemma contents_congr {b : ℕ → α} (h : ∀ i < n, a i = b i) : contents n a = contents n b :=
  Multiset.map_congr rfl fun i hi => h i (Multiset.mem_range.mp hi)

lemma contents_update_of_le {i : ℕ} (h : n ≤ i) (x : α) : contents n (update a i x) = contents n a :=
  contents_congr fun _ hj => update_of_ne (hj.trans_le h).ne x a

/-- Writing one position replaces one element. -/
lemma contents_update {i : ℕ} (h : i < n) (x : α) :
    a i ::ₘ contents n (update a i x) = x ::ₘ contents n a := by
  induction n with
  | zero => exact absurd h (Nat.not_lt_zero i)
  | succ n ih =>
    rw [contents_succ, contents_succ]
    rcases Nat.lt_succ_iff_lt_or_eq.mp h with hlt | rfl
    · rw [update_of_ne hlt.ne', Multiset.cons_swap, ih hlt, Multiset.cons_swap]
    · rw [update_self, contents_update_of_le le_rfl, Multiset.cons_swap]

/-- Elements move down along the way from `pos` to the root, until `x` may stand in the hole. -/
def siftUp (key : α → κ) : ℕ → (ℕ → α) → ℕ → α → ℕ → α
  | 0, a, pos, x => update a pos x
  | fuel + 1, a, pos, x =>
    if pos = 0 then update a pos x
    else if key (a (parent pos)) ≤ key x then update a pos x
    else siftUp key fuel (update a pos (a (parent pos))) (parent pos) x

/-- The heap with a hole at `pos`: all pairs off the hole are in order, and the children of the
hole do not come before its parent. -/
structure Holed (key : α → κ) (n : ℕ) (a : ℕ → α) (pos : ℕ) : Prop where
  except : ∀ i, 0 < i → i < n → i ≠ pos → parent i ≠ pos → key (a (parent i)) ≤ key (a i)
  around : ∀ i, 0 < i → i < n → parent i = pos → 0 < pos → key (a (parent pos)) ≤ key (a i)

/-- Nothing below the hole comes before `x`. -/
def Below (key : α → κ) (n : ℕ) (a : ℕ → α) (pos : ℕ) (x : α) : Prop :=
  ∀ i, 0 < i → i < n → parent i = pos → key x ≤ key (a i)

lemma Ordered.holed (h : Ordered key n a) (pos : ℕ) : Holed key n a pos where
  except i hi hin _ _ := h i hi hin
  around i hi hin hp hpos := by
    have hlt : parent pos < pos := parent_lt hpos
    have hpn : pos < n := (hp ▸ parent_lt hi : pos < i).trans hin
    exact (h pos hpos hpn).trans (hp ▸ h i hi hin)

lemma Holed.fill (h : Holed key n a pos) (hb : Below key n a pos x)
    (hup : 0 < pos → key (a (parent pos)) ≤ key x) : Ordered key n (update a pos x) := by
  intro i hi hin
  have hp := parent_lt hi
  by_cases hip : i = pos
  · subst hip
    rw [update_self, update_of_ne hp.ne]
    exact hup hi
  · rw [update_of_ne hip]
    by_cases hpp : parent i = pos
    · rw [hpp, update_self]
      exact hb i hi hin hpp
    · rw [update_of_ne hpp]
      exact h.except i hi hin hip hpp

/-- The hole goes to its parent, whose element is not before anything below the hole. -/
lemma Holed.up (h : Holed key n a pos) (hpos : 0 < pos) (hn : pos < n) :
    Holed key n (update a pos (a (parent pos))) (parent pos) where
  except i hi hin hip hpp := by
    have hlt := parent_lt hpos
    by_cases hi' : i = pos
    · exact absurd (congrArg parent hi') hpp
    · rw [update_of_ne hi']
      by_cases hpi : parent i = pos
      · rw [hpi, update_self]
        exact h.around i hi hin hpi hpos
      · rw [update_of_ne hpi]
        exact h.except i hi hin hi' hpi
  around i hi hin hpp hpar := by
    have hlt := parent_lt hpos
    have hlt' := parent_lt hpar
    have hstep : key (a (parent (parent pos))) ≤ key (a (parent pos)) :=
      h.except (parent pos) hpar (hlt.trans hn) hlt.ne (by omega)
    rw [update_of_ne (by omega : parent (parent pos) ≠ pos)]
    by_cases hi' : i = pos
    · rw [hi', update_self]
      exact hstep
    · rw [update_of_ne hi']
      have hsib := h.except i hi hin hi' (by rw [hpp]; exact hlt.ne)
      rw [hpp] at hsib
      exact hstep.trans hsib

lemma Below.up (hpos : 0 < pos) (h : Holed key n a pos) (hx : key x ≤ key (a (parent pos))) :
    Below key n (update a pos (a (parent pos))) (parent pos) x := by
  have hlt := parent_lt hpos
  intro i hi hin hpp
  by_cases hi' : i = pos
  · rw [hi', update_self]
    exact hx
  · rw [update_of_ne hi']
    have hsib := h.except i hi hin hi' (by rw [hpp]; exact hlt.ne)
    rw [hpp] at hsib
    exact hx.trans hsib

lemma siftUp_ordered {fuel : ℕ} (hfuel : pos ≤ fuel) (hn : pos < n) (h : Holed key n a pos)
    (hb : Below key n a pos x) : Ordered key n (siftUp key fuel a pos x) := by
  induction fuel generalizing a pos with
  | zero =>
    obtain rfl : pos = 0 := Nat.le_zero.mp hfuel
    exact h.fill hb fun hpos => absurd hpos (lt_irrefl 0)
  | succ fuel ih =>
    rw [siftUp]
    split_ifs with hzero hle
    · exact h.fill hb fun hpos => absurd hzero hpos.ne'
    · exact h.fill hb fun _ => hle
    · have hpos := Nat.pos_of_ne_zero hzero
      have hlt := parent_lt hpos
      exact ih (by omega) (hlt.trans hn) (h.up hpos hn) (.up hpos h (not_le.mp hle).le)

/-- The path moves along the elements that it passes; only the hole's own element goes. -/
lemma siftUp_contents (key : α → κ) (fuel : ℕ) (x : α) (hn : pos < n) :
    a pos ::ₘ contents n (siftUp key fuel a pos x) = x ::ₘ contents n a := by
  induction fuel generalizing a pos with
  | zero => exact contents_update hn x
  | succ fuel ih =>
    rw [siftUp]
    split_ifs with hzero hle
    · exact contents_update hn x
    · exact contents_update hn x
    · have hlt := parent_lt (Nat.pos_of_ne_zero hzero)
      have hmove := ih (a := update a pos (a (parent pos))) (hlt.trans hn)
      rw [update_of_ne hlt.ne] at hmove
      have hwrite := contents_update (a := a) hn (a (parent pos))
      apply (Multiset.cons_inj_right (a (parent pos))).mp
      rw [Multiset.cons_swap, hmove, Multiset.cons_swap, hwrite, Multiset.cons_swap]

/-- The hole at `pos` sinks to a leaf, each time below the smaller child. If the last element is
the only child, it fills the hole and no hole is left. -/
def sink (key : α → κ) (n : ℕ) : ℕ → (ℕ → α) → ℕ → (ℕ → α) × Option ℕ
  | 0, a, pos => (a, some pos)
  | fuel + 1, a, pos =>
    if n ≤ 2 * pos + 1 then (a, some pos)
    else if n ≤ 2 * pos + 2 then (update a pos (a (2 * pos + 1)), none)
    else if key (a (2 * pos + 1)) < key (a (2 * pos + 2)) then
      sink key n fuel (update a pos (a (2 * pos + 1))) (2 * pos + 1)
    else sink key n fuel (update a pos (a (2 * pos + 2))) (2 * pos + 2)

/-- The first `n` elements without the root: the hole sinks, and the last element fills it. -/
def pop (key : α → κ) (n : ℕ) (a : ℕ → α) : ℕ → α :=
  match sink key n n a 0 with
  | (b, none) => b
  | (b, some q) => siftUp key q b q (b (n - 1))

/-- The hole of a sinking path, which still shows the element that went up from it. -/
structure Sinking (key : α → κ) (n : ℕ) (a : ℕ → α) (pos : ℕ) : Prop extends Holed key n a pos where
  lt : pos < n
  shows : 0 < pos → key (a (parent pos)) ≤ key (a pos)

lemma Sinking.down (h : Sinking key n a pos) {c : ℕ} (hc : 0 < c) (hcn : c < n) (hp : parent c = pos)
    (hmin : ∀ i, 0 < i → i < n → parent i = pos → key (a c) ≤ key (a i)) :
    Sinking key n (update a pos (a c)) c where
  lt := hcn
  shows _ := by
    have hlt := parent_lt hc
    rw [hp, update_self, update_of_ne (by omega)]
  except i hi hin hic hpc := by
    have hlt := parent_lt hc
    have hlt' := parent_lt hi
    by_cases hip : i = pos
    · subst hip
      rw [update_self, update_of_ne hlt'.ne]
      exact h.around c hc hcn hp hi
    · rw [update_of_ne hip]
      by_cases hpi : parent i = pos
      · rw [hpi, update_self]
        exact hmin i hi hin hpi
      · rw [update_of_ne hpi]
        exact h.except i hi hin hip hpi
  around i hi hin hpi _ := by
    have hlt := parent_lt hc
    have hlt' := parent_lt hi
    rw [hp, update_self, update_of_ne (by omega)]
    have hle := h.except i hi hin (by omega) (by omega)
    rwa [hpi] at hle

/-- What the sinking path leaves: a hole at a leaf, or the heap without its last position. -/
lemma sink_spec {fuel : ℕ} (h : Sinking key n a pos) (hfuel : n ≤ pos + fuel) :
    (∃ b q, sink key n fuel a pos = (b, some q) ∧ Sinking key n b q ∧ n ≤ 2 * q + 1 ∧
      a pos ::ₘ contents n b = b q ::ₘ contents n a) ∨
    ∃ b, sink key n fuel a pos = (b, none) ∧ Ordered key (n - 1) b ∧
      a pos ::ₘ contents (n - 1) b = contents n a := by
  induction fuel generalizing a pos with
  | zero => exact absurd h.lt (by omega)
  | succ fuel ih =>
    have hlt := h.lt
    -- one move of the hole, for either child
    have hmove : ∀ c, 0 < c → c < n → parent c = pos →
        (∀ i, 0 < i → i < n → parent i = pos → key (a c) ≤ key (a i)) →
        (∃ b q, sink key n fuel (update a pos (a c)) c = (b, some q) ∧ Sinking key n b q ∧
          n ≤ 2 * q + 1 ∧ a pos ::ₘ contents n b = b q ::ₘ contents n a) ∨
        ∃ b, sink key n fuel (update a pos (a c)) c = (b, none) ∧ Ordered key (n - 1) b ∧
          a pos ::ₘ contents (n - 1) b = contents n a := by
      intro c hc hcn hp hmin
      have hcp := parent_lt hc
      have hwrite := contents_update (a := a) hlt (a c)
      rcases ih (h.down hc hcn hp hmin) (by omega) with ⟨b, q, hs, hsink, hleaf, hcont⟩ | ⟨b, hs, hord, hcont⟩
      · rw [update_of_ne (by omega)] at hcont
        refine Or.inl ⟨b, q, hs, hsink, hleaf, (Multiset.cons_inj_right (a c)).mp ?_⟩
        rw [Multiset.cons_swap, hcont, Multiset.cons_swap, hwrite, Multiset.cons_swap]
      · rw [update_of_ne (by omega)] at hcont
        refine Or.inr ⟨b, hs, hord, (Multiset.cons_inj_right (a c)).mp ?_⟩
        rw [Multiset.cons_swap, hcont, hwrite]
    rw [sink]
    split_ifs with hleaf hone hless
    · exact Or.inl ⟨a, pos, rfl, h, hleaf, rfl⟩
    · obtain rfl : n = 2 * pos + 2 := by omega
      have hwrite := contents_update (a := a) hlt (a (2 * pos + 1))
      have hnext := h.down (Nat.succ_pos (2 * pos)) (by omega) (parent_left pos) fun i hi hin hp => by
        rcases eq_child hi hp with rfl | rfl
        · exact le_rfl
        · exact absurd hin (lt_irrefl _)
      refine Or.inr ⟨_, rfl, ?_, ?_⟩
      · intro i hi hin
        exact hnext.except i hi (by omega) (by omega) (by have := parent_lt hi; omega)
      · have hpred : 2 * pos + 2 - 1 = 2 * pos + 1 := rfl
        rw [hpred]
        rw [contents_succ, update_of_ne (by omega)] at hwrite
        exact (Multiset.cons_inj_right (a (2 * pos + 1))).mp (by rw [Multiset.cons_swap]; exact hwrite)
    · refine hmove (2 * pos + 1) (Nat.succ_pos _) (by omega) (parent_left pos) fun i hi _ hp => ?_
      rcases eq_child hi hp with rfl | rfl
      · exact le_rfl
      · exact hless.le
    · refine hmove (2 * pos + 2) (Nat.succ_pos _) (by omega) (parent_right pos) fun i hi _ hp => ?_
      rcases eq_child hi hp with rfl | rfl
      · exact not_lt.mp hless
      · exact le_rfl

lemma Ordered.sinking (h : Ordered key n a) (hn : 0 < n) : Sinking key n a 0 where
  toHoled := h.holed 0
  lt := hn
  shows hpos := absurd hpos (lt_irrefl 0)

/-- A hole that still shows what belongs there is filled by it. -/
lemma siftUp_shown (h : 0 < pos → key (a (parent pos)) ≤ key (a pos)) :
    siftUp key pos a pos (a pos) = a := by
  cases pos with
  | zero => exact update_eq_self 0 a
  | succ p =>
    rw [siftUp, if_neg (Nat.succ_ne_zero p), if_pos (h (Nat.succ_pos p)), update_eq_self]

lemma pop_spec (h : Ordered key n a) (hn : 0 < n) :
    Ordered key (n - 1) (pop key n a) ∧ a 0 ::ₘ contents (n - 1) (pop key n a) = contents n a := by
  rw [pop]
  rcases sink_spec (h.sinking hn) (Nat.le_add_left n 0) with ⟨b, q, hs, hsink, hleaf, hcont⟩ | ⟨b, hs, hdone⟩
  · rw [hs]
    dsimp only
    obtain ⟨m, rfl⟩ := Nat.exists_eq_succ_of_ne_zero hn.ne'
    rw [Nat.succ_eq_add_one, Nat.add_sub_cancel] at *
    have hlast := contents_succ m b
    rcases Nat.lt_succ_iff_lt_or_eq.mp hsink.lt with hq | rfl
    · have hheap : Holed key m b q :=
        ⟨fun i hi him => hsink.except i hi (him.trans (Nat.lt_succ_self m)),
          fun i hi him => hsink.around i hi (him.trans (Nat.lt_succ_self m))⟩
      refine ⟨siftUp_ordered le_rfl hq hheap fun i hi him hp => ?_, ?_⟩
      · rcases eq_child hi hp with rfl | rfl <;> omega
      · have hfill := siftUp_contents (a := b) key q (b m) hq
        apply (Multiset.cons_inj_right (b q)).mp
        rw [Multiset.cons_swap, hfill, ← hlast, hcont]
    · rw [siftUp_shown hsink.shows]
      refine ⟨fun i hi him => ?_, ?_⟩
      · have hpi := parent_lt hi
        exact hsink.except i hi (by omega) (by omega) (by omega)
      · apply (Multiset.cons_inj_right (b q)).mp
        rw [Multiset.cons_swap, ← hlast, hcont]
  · rw [hs]
    exact hdone

end PtPerf.Support.BinHeap
