import Mathlib.Data.List.Infix
import Mathlib.Tactic

/-! Systems that take one move at a time: the moves of all their threads, in any order. -/

namespace PtPerf.Support.Interleave

variable {σ μ : Type}

/-- The state after a list of moves, if each of them is possible. -/
def after (step : σ → μ → Option σ) : σ → List μ → Option σ
  | s, [] => some s
  | s, m :: ms => (step s m).bind fun t => after step t ms

section

variable {step : σ → μ → Option σ}

lemma after_append (s : σ) (ms ns : List μ) :
    after step s (ms ++ ns) = (after step s ms).bind fun t => after step t ns := by
  induction ms generalizing s with
  | nil => rfl
  | cons m ms ih =>
    rw [List.cons_append, after, after, Option.bind_assoc]
    exact Option.bind_congr fun t _ => ih t

lemma after_concat (s : σ) (ms : List μ) (m : μ) :
    after step s (ms ++ [m]) = (after step s ms).bind fun t => step t m := by
  rw [after_append]
  refine Option.bind_congr fun t _ => ?_
  rw [after]
  cases step t m <;> rfl

/-- Every move on the way meets a condition on the state before it. -/
def Meets (step : σ → μ → Option σ) (ok : σ → μ → Prop) (s : σ) (ms : List μ) : Prop :=
  ∀ ns m t, ns ++ [m] <+: ms → after step s ns = some t → ok t m

variable {ok : σ → μ → Prop} {P : σ → Prop}

lemma Meets.of_prefix {s : σ} {ms ns : List μ} (h : Meets step ok s ms) (hp : ns <+: ms) :
    Meets step ok s ns := fun l m t hl ht => h l m t (hl.trans hp) ht

lemma Meets.concat {s : σ} {ms : List μ} {m : μ} (h : Meets step ok s ms)
    (hm : ∀ t, after step s ms = some t → ok t m) : Meets step ok s (ms ++ [m]) := by
  intro ns k t hp ht
  rcases List.prefix_concat_iff.mp hp with heq | hp
  · obtain ⟨rfl, hk⟩ := List.append_inj' heq rfl
    cases hk
    exact hm t ht
  · exact h ns k t hp ht

lemma after_inv_of_meets (hstep : ∀ s m t, P s → ok s m → step s m = some t → P t) {s t : σ}
    {ms : List μ} (hs : P s) (hm : Meets step ok s ms) (h : after step s ms = some t) : P t := by
  induction ms using List.reverseRecOn generalizing t with
  | nil =>
    cases h
    exact hs
  | append_singleton ms m ih =>
    rw [after_concat] at h
    obtain ⟨u, hu, ht⟩ := Option.bind_eq_some_iff.mp h
    exact hstep u m t (ih (hm.of_prefix (List.prefix_append ms [m])) hu) (hm ms m u List.prefix_rfl hu) ht

lemma after_inv (hstep : ∀ s m t, P s → step s m = some t → P t) {s t : σ} {ms : List μ} (hs : P s)
    (h : after step s ms = some t) : P t :=
  @after_inv_of_meets σ μ step (fun _ _ => True) P (fun s m t hs _ => hstep s m t hs) s t ms hs
    (fun _ _ _ _ _ => trivial) h

end

end PtPerf.Support.Interleave
