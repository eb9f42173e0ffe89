import Mathlib.Tactic

/-! Loops that step along the numbers while a test holds, and what they find when the test changes
once. -/

namespace PtPerf.Support.Walk

/-- `while (go(c)) c = step(c)`, where the last of `fuel` tests must fail. -/
def walk (step : ℕ → ℕ) (go : ℕ → Bool) : ℕ → ℕ → Option ℕ
  | 0, _ => none
  | fuel + 1, c => if go c then walk step go fuel (step c) else some c

variable {a b c : ℕ}

/-- Upwards, the walk ends at the first number that fails the test. -/
lemma walk_up {step : ℕ → ℕ} (go : ℕ → Bool) (fuel : ℕ) (hstep : ∀ u, u < b → step u = u + 1)
    (hb : go b = false) (hc : c ≤ b) (hfuel : b < c + fuel) :
    ∃ d, walk step go fuel c = some d ∧ c ≤ d ∧ d ≤ b ∧ go d = false ∧
      ∀ u, c ≤ u → u < d → go u = true := by
  induction fuel generalizing c with
  | zero => exact absurd (hc.trans_lt hfuel) (lt_irrefl c)
  | succ fuel ih =>
    rw [walk]
    split_ifs with hgo
    · have hne : c ≠ b := by
        rintro rfl
        exact Bool.false_ne_true (hb.symm.trans hgo)
      have hlt : c < b := lt_of_le_of_ne hc hne
      obtain ⟨d, hwalk, hle, hle', hstop, hbelow⟩ := ih (c := c + 1) hlt (by omega)
      refine ⟨d, ?_, (Nat.le_succ c).trans hle, hle', hstop, fun u hu hud => ?_⟩
      · rw [hstep c hlt]
        exact hwalk
      · rcases hu.eq_or_lt with rfl | hu
        · exact hgo
        · exact hbelow u hu hud
    · refine ⟨c, rfl, le_rfl, hc, Bool.not_eq_true _ |>.mp hgo, fun u hu huc => ?_⟩
      exact absurd (hu.trans_lt huc) (lt_irrefl c)

/-- Downwards, the walk ends at the last number that fails the test. -/
lemma walk_down {step : ℕ → ℕ} (go : ℕ → Bool) (fuel : ℕ)
    (hstep : ∀ u, a < u → u ≤ b → step u = u - 1) (ha : go a = false) (hac : a ≤ c) (hcb : c ≤ b)
    (hfuel : c < a + fuel) :
    ∃ d, walk step go fuel c = some d ∧ a ≤ d ∧ d ≤ c ∧ go d = false ∧
      ∀ u, d < u → u ≤ c → go u = true := by
  induction fuel generalizing c with
  | zero => exact absurd (hac.trans_lt hfuel) (lt_irrefl a)
  | succ fuel ih =>
    rw [walk]
    split_ifs with hgo
    · have hne : a ≠ c := by
        rintro rfl
        exact Bool.false_ne_true (ha.symm.trans hgo)
      have hlt : a < c := lt_of_le_of_ne hac hne
      obtain ⟨d, hwalk, hle, hle', hstop, habove⟩ := ih (c := c - 1) (by omega) (by omega) (by omega)
      refine ⟨d, ?_, hle, hle'.trans (Nat.sub_le c 1), hstop, fun u hud hu => ?_⟩
      · rw [hstep c hlt hcb]
        exact hwalk
      · rcases hu.eq_or_lt with rfl | hu
        · exact hgo
        · exact habove u hud (by omega)
    · refine ⟨c, rfl, hac, le_rfl, Bool.not_eq_true _ |>.mp hgo, fun u hcu hu => ?_⟩
      exact absurd (hcu.trans_le hu) (lt_irrefl c)

section Monotone

variable {f up down : ℕ → ℕ} {n fuel : ℕ}

/-- Down until `f` is below `n` and up again: the least number of the interval that reaches `n`. -/
lemma least_reaching (hup : ∀ u, u < b → up u = u + 1) (hdown : ∀ u, a < u → u ≤ b → down u = u - 1)
    (hmono : ∀ u v, a ≤ u → u ≤ v → v ≤ b → f u ≤ f v) (ha : f a < n) (hb : n ≤ f b) (hac : a ≤ c)
    (hcb : c ≤ b) (hfuel : b < a + fuel) :
    ∃ e, (walk down (fun x => n ≤ f x) fuel c).bind (walk up (fun x => f x < n) fuel) = some e ∧
      a < e ∧ e ≤ b ∧ ∀ u, a ≤ u → u ≤ b → (e ≤ u ↔ n ≤ f u) := by
  obtain ⟨d, hd, had, hdc, hstop, -⟩ := walk_down (fun x => n ≤ f x) fuel hdown
    (decide_eq_false (not_le.mpr ha)) hac hcb (by omega)
  have hfd : f d < n := not_le.mp (of_decide_eq_false hstop)
  obtain ⟨e, he, hde, heb, hstop', hbelow⟩ := walk_up (fun x => f x < n) fuel (c := d) hup
    (decide_eq_false (not_lt.mpr hb)) (hdc.trans hcb) (by omega)
  have hfe : n ≤ f e := not_lt.mp (of_decide_eq_false hstop')
  have hlt : a < e := by
    refine lt_of_le_of_ne (had.trans hde) ?_
    rintro rfl
    exact absurd ha (not_lt.mpr hfe)
  refine ⟨e, by rw [hd]; exact he, hlt, heb, fun u hau hub => ⟨fun heu => ?_, fun hn => ?_⟩⟩
  · exact hfe.trans (hmono e u hlt.le heu hub)
  · by_contra hue
    rcases le_or_gt d u with hdu | hud
    · exact absurd (of_decide_eq_true (hbelow u hdu (not_le.mp hue))) (not_lt.mpr hn)
    · exact absurd ((hmono u d hau hud.le (hdc.trans hcb)).trans_lt hfd) (not_lt.mpr hn)

/-- Up until `f` is above `n` and down again: the greatest number that stays within `n`. -/
lemma greatest_within (hup : ∀ u, u < b → up u = u + 1) (hdown : ∀ u, a < u → u ≤ b → down u = u - 1)
    (hmono : ∀ u v, a ≤ u → u ≤ v → v ≤ b → f u ≤ f v) (ha : f a ≤ n) (hb : n < f b) (hac : a ≤ c)
    (hcb : c ≤ b) (hfuel : b < a + fuel) :
    ∃ e, (walk up (fun x => f x ≤ n) fuel c).bind (walk down (fun x => n < f x) fuel) = some e ∧
      a ≤ e ∧ e < b ∧ ∀ u, a ≤ u → u ≤ b → (u ≤ e ↔ f u ≤ n) := by
  obtain ⟨d, hd, hcd, hdb, hstop, -⟩ := walk_up (fun x => f x ≤ n) fuel hup
    (decide_eq_false (not_le.mpr hb)) hcb (by omega)
  have hfd : n < f d := not_le.mp (of_decide_eq_false hstop)
  obtain ⟨e, he, hae, hed, hstop', habove⟩ := walk_down (fun x => n < f x) fuel hdown
    (decide_eq_false (not_lt.mpr ha)) (hac.trans hcd) hdb (by omega)
  have hfe : f e ≤ n := not_lt.mp (of_decide_eq_false hstop')
  have hlt : e < b := by
    refine lt_of_le_of_ne (hed.trans hdb) ?_
    rintro rfl
    exact absurd hb (not_lt.mpr hfe)
  refine ⟨e, by rw [hd]; exact he, hae, hlt, fun u hau hub => ⟨fun hue => ?_, fun hn => ?_⟩⟩
  · exact (hmono u e hau hue hlt.le).trans hfe
  · by_contra heu
    rcases le_or_gt u d with hud | hdu
    · exact absurd (of_decide_eq_true (habove u (not_le.mp heu) hud)) (not_lt.mpr hn)
    · exact absurd (hfd.trans_le (hmono d u (hac.trans hcd) hdu.le hub)) (not_lt.mpr hn)

end Monotone

end PtPerf.Support.Walk
