import Mathlib.Tactic

/-! Readers of what stands at the head of a buffer, which may find that the buffer is too short. -/

namespace PtPerf.Support.Peek

inductive Peeked (α : Type*) where
  | more
  | bad
  | ok (a : α) (len : ℕ)
  deriving DecidableEq, Repr

variable {α β : Type*}

/-- Ask for `n` elements and go on with them. -/
def need (n : ℕ) (k : List β → List β → Peeked α) (buf : List β) : Peeked α :=
  if buf.length < n then .more else k (buf.take n) buf

def done (a : α) (n : ℕ) (_ : List β) : Peeked α := .ok a n

def fail (_ : List β) : Peeked α := .bad

/-- On buffers of at least `lo` elements the answer does not depend on what follows, an accepted head
is accepted alone, and `hi` elements are always enough. -/
structure Settled (lo hi : ℕ) (f : List β → Peeked α) : Prop where
  extend : ∀ buf rest, lo ≤ buf.length → f buf ≠ .more → f (buf ++ rest) = f buf
  alone : ∀ buf a n, lo ≤ buf.length → f buf = .ok a n →
    lo ≤ n ∧ n ≤ buf.length ∧ f (buf.take n) = .ok a n
  enough : ∀ buf, hi ≤ buf.length → f buf ≠ .more

variable {lo hi n : ℕ} {f : List β → Peeked α}

lemma Settled.done (a : α) (n hi : ℕ) : Settled n hi (done (β := β) a n) where
  extend _ _ _ _ := rfl
  alone buf a' m hlo hok := by
    cases hok
    exact ⟨le_rfl, hlo, rfl⟩
  enough _ _ h := by cases h

lemma Settled.fail (lo hi : ℕ) : Settled lo hi (fail (α := α) (β := β)) where
  extend _ _ _ _ := rfl
  alone _ _ _ _ hok := by cases hok
  enough _ _ h := by cases h

lemma Settled.need {k : List β → List β → Peeked α} (hlo : lo ≤ n) (hhi : n ≤ hi)
    (hk : ∀ b, b.length = n → Settled n hi (k b)) : Settled lo hi (need n k) where
  extend buf rest _ hne := by
    by_cases hlt : buf.length < n
    · exact absurd (if_pos hlt) hne
    · have hle := not_lt.mp hlt
      have hk' := hk (buf.take n) (List.length_take_of_le hle)
      have hlong : ¬ (buf ++ rest).length < n := by
        rw [List.length_append]
        omega
      rw [Peek.need, Peek.need, if_neg hlt, if_neg hlong, List.take_append_of_le_length hle]
      rw [Peek.need, if_neg hlt] at hne
      exact hk'.extend buf rest hle hne
  alone buf a m _ hok := by
    by_cases hlt : buf.length < n
    · rw [Peek.need, if_pos hlt] at hok
      cases hok
    · have hle := not_lt.mp hlt
      rw [Peek.need, if_neg hlt] at hok
      obtain ⟨hnm, hmb, htake⟩ := (hk _ (List.length_take_of_le hle)).alone buf a m hle hok
      refine ⟨hlo.trans hnm, hmb, ?_⟩
      rw [Peek.need, if_neg (by rw [List.length_take_of_le hmb]; omega), List.take_take,
        min_eq_left hnm]
      exact htake
  enough buf hbuf := by
    have hle : n ≤ buf.length := hhi.trans hbuf
    rw [Peek.need, if_neg (not_lt.mpr hle)]
    exact (hk _ (List.length_take_of_le hle)).enough buf hbuf

/-- A buffer that is too short holds no accepted head. -/
lemma Settled.short (h : Settled lo hi f) {buf rest : List β} {a : α} {n : ℕ} (hlo : lo ≤ buf.length)
    (hmore : f buf = .more) (hok : f (buf ++ rest) = .ok a n) : buf.length < n := by
  by_contra hle
  obtain ⟨hln, hnb, htake⟩ := h.alone (buf ++ rest) a n (by simp; omega) hok
  rw [List.take_append_of_le_length (not_lt.mp hle)] at htake
  have hext := h.extend (buf.take n) (buf.drop n)
    (by rw [List.length_take_of_le (not_lt.mp hle)]; exact hln) (by rw [htake]; exact fun h => by cases h)
  rw [List.take_append_drop, hmore, htake] at hext
  cases hext

end PtPerf.Support.Peek
