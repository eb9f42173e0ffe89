import Mathlib.Order.Monotone.Basic
import Mathlib.Tactic

/-! Consecutive workers on one line of positions. Worker `j` enters at `base j` and works from
`start j`, if it finds a place to start, up to `stop j`; marked positions are those where one
worker is meant to hand over to the next. -/

namespace PtPerf.Support

structure Relay (first total : ℕ) (base : ℕ → ℕ) (start : ℕ → Option ℕ) (stop : ℕ → ℕ)
    (marked : ℕ → Prop) : Prop where
  base_mono : Monotone base
  stop_mono : Monotone stop
  stop_le : ∀ j, stop j ≤ total
  stop_last : ∃ n, stop n = total
  base_le : ∀ j d, start j = some d → base j ≤ d
  first_le : ∀ j d, start j = some d → first ≤ d
  lt_stop : ∀ j d, start j = some d → d < stop j
  idle : ∀ j, start (j + 1) = none → stop (j + 1) = stop j
  marked_lt : ∀ j d, start j = some d → marked d → d < base (j + 1)
  marked_eq : ∀ j d, start (j + 1) = some d → marked d → d = stop j
  stop_marked : ∀ j, stop j < total → marked (stop j)

namespace Relay

def Works (start : ℕ → Option ℕ) (stop : ℕ → ℕ) (j b : ℕ) : Prop :=
  ∃ d, start j = some d ∧ d ≤ b ∧ b < stop j

variable {first total : ℕ} {base : ℕ → ℕ} {start : ℕ → Option ℕ} {stop : ℕ → ℕ}
  {marked : ℕ → Prop}

lemma no_mark_before (h : Relay first total base start stop marked) {i j d : ℕ}
    (hj : start j = some first) (hi : start i = some d) (hm : marked d) : ¬ i < j := by
  intro hij
  have hlt := h.marked_lt i d hi hm
  have hbase := h.base_mono (Nat.succ_le_of_lt hij)
  have hfirst := h.base_le j first hj
  have hd := h.first_le i d hi
  exact absurd (hlt.trans_le (hbase.trans (hfirst.trans hd))) (lt_irrefl d)

lemma exists_works (h : Relay first total base start stop marked) {j₀ : ℕ}
    (hj₀ : start j₀ = some first) (hone : ∀ j, start j = some first → j = j₀)
    (hmark : ∀ j d, start j = some d → d ≠ first → marked d) {b : ℕ} (hb : first ≤ b)
    (ht : b < total) : ∃ j, Works start stop j b := by
  obtain ⟨n, hn⟩ := h.stop_last
  have hex : ∃ k, b < stop (j₀ + k) := by
    refine ⟨n, ?_⟩
    have hmono := h.stop_mono (Nat.le_add_left n j₀)
    omega
  -- the first worker from `j₀` on that gets beyond `b`
  classical
  have hk := Nat.find_spec hex
  cases hfind : Nat.find hex with
  | zero =>
    rw [hfind] at hk
    exact ⟨j₀, first, hj₀, hb, hk⟩
  | succ k =>
    rw [hfind] at hk
    have hprev : stop (j₀ + k) ≤ b :=
      not_lt.mp (Nat.find_min hex (by omega))
    cases hs : start (j₀ + k + 1) with
    | none =>
      have hidle := h.idle (j₀ + k) hs
      exact absurd hk (by rw [← Nat.add_assoc, hidle]; exact not_lt.mpr hprev)
    | some d =>
      have hne : d ≠ first := by
        rintro rfl
        have heq := hone _ hs
        omega
      have hd := h.marked_eq (j₀ + k) d hs (hmark _ d hs hne)
      exact ⟨j₀ + k + 1, d, hs, by omega, hk⟩

lemma works_unique (h : Relay first total base start stop marked) {j₀ : ℕ}
    (hj₀ : start j₀ = some first) (hone : ∀ j, start j = some first → j = j₀)
    (hmark : ∀ j d, start j = some d → d ≠ first → marked d) {b i j : ℕ}
    (hi : Works start stop i b) (hj : Works start stop j b) : ¬ i < j := by
  intro hij
  obtain ⟨d, hsd, hdb, -⟩ := hj
  obtain ⟨c, hsc, -, hci⟩ := hi
  by_cases hne : d = first
  · rw [hne] at hsd
    have hc : c ≠ first := by
      rintro rfl
      have h₁ := hone i hsc
      have h₂ := hone j hsd
      omega
    exact h.no_mark_before hsd hsc (hmark i c hsc hc) hij
  · obtain ⟨k, rfl⟩ : ∃ k, j = k + 1 := ⟨j - 1, by omega⟩
    have hd := h.marked_eq k d hsd (hmark _ d hsd hne)
    have hmono := h.stop_mono (Nat.le_of_lt_succ hij)
    omega

/-- Every position from the first on is worked on once, if and only if one worker starts at
the first position and all others start at marks. -/
theorem works_once_iff (h : Relay first total base start stop marked) (hfirst : first < total) :
    (∀ b, first ≤ b → b < total → ∃! j, Works start stop j b) ↔
      (∃! j, start j = some first) ∧ ∀ j d, start j = some d → d ≠ first → marked d := by
  constructor
  · intro hall
    obtain ⟨j₀, ⟨d, hd, hle, hlt⟩, huniq⟩ := hall first le_rfl hfirst
    obtain rfl : d = first := le_antisymm hle (h.first_le j₀ d hd)
    refine ⟨⟨j₀, hd, fun j hj => huniq j ⟨d, hj, le_rfl, h.lt_stop j d hj⟩⟩, ?_⟩
    intro j e he hne
    have hde := h.first_le j e he
    have het := h.lt_stop j e he
    have hetot : e < total := het.trans_le (h.stop_le j)
    obtain ⟨i, ⟨c, hc, hcb, hbi⟩, -⟩ := hall (e - 1) (by omega) (by omega)
    have hstop : stop i = e := by
      by_contra hne'
      have hi : Works start stop i e := ⟨c, hc, by omega, by omega⟩
      obtain ⟨k, -, hk⟩ := hall e hde hetot
      have hij : i = j := (hk i hi).trans (hk j ⟨e, he, le_rfl, het⟩).symm
      rw [hij, he] at hc
      obtain rfl := Option.some.inj hc
      omega
    rw [← hstop]
    exact h.stop_marked i (by omega)
  · rintro ⟨⟨j₀, hj₀, hone⟩, hmark⟩ b hb ht
    obtain ⟨j, hj⟩ := h.exists_works hj₀ hone hmark hb ht
    refine ⟨j, hj, fun i hi => ?_⟩
    have h₁ := h.works_unique hj₀ hone hmark hi hj
    have h₂ := h.works_unique hj₀ hone hmark hj hi
    omega

end Relay

end PtPerf.Support
