import Mathlib.Tactic

/-! Loops over a list whose body may fail, may look at the rest of the list, and may emit
output that a consumer accumulates. -/

namespace PtPerf.Support.Runs

variable {ε σ τ ι ω κ : Type}

/-- Two results agree: both fail in the same way, or both return and are related. -/
inductive Agree (R : σ → τ → Prop) : Except ε σ → Except ε τ → Prop
  | ok {s t} : R s t → Agree R (.ok s) (.ok t)
  | error (e) : Agree R (.error e) (.error e)

lemma Agree.bind {R : σ → τ → Prop} {σ' τ' : Type} {Q : σ' → τ' → Prop}
    {x : Except ε σ} {y : Except ε τ} {f : σ → Except ε σ'} {g : τ → Except ε τ'}
    (h : Agree R x y) (hf : ∀ s t, R s t → Agree Q (f s) (g t)) : Agree Q (x >>= f) (y >>= g) := by
  cases h with
  | ok hr => exact hf _ _ hr
  | error e => exact Agree.error e

lemma Agree.bind_ok {R : σ → τ → Prop} {τ' : Type} {Q : σ → τ' → Prop} {x : Except ε σ}
    {y : Except ε τ} {g : τ → τ'} (h : Agree R x y) (hg : ∀ s t, R s t → Q s (g t)) :
    Agree Q x (y >>= fun t => .ok (g t)) := by
  cases h with
  | ok hr => exact Agree.ok (hg _ _ hr)
  | error e => exact Agree.error e

lemma Agree.of_map_eq {γ : Type} {x : Except ε σ} {y : Except ε τ} {f : σ → γ} {g : τ → γ}
    (h : x.map f = y.map g) : Agree (fun s t => f s = g t) x y := by
  cases x with
  | error e =>
    cases y with
    | error e' =>
      rw [Except.error.inj h]
      exact Agree.error e'
    | ok t => cases h
  | ok s =>
    cases y with
    | error e' => cases h
    | ok t => exact Agree.ok (Except.ok.inj h)

lemma Agree.map_eq {R : σ → τ → Prop} {γ : Type} {x : Except ε σ} {y : Except ε τ}
    (h : Agree R x y) (f : σ → γ) (g : τ → γ) (hf : ∀ s t, R s t → f s = g t) :
    x.map f = y.map g := by
  cases h with
  | ok hr => exact congrArg Except.ok (hf _ _ hr)
  | error e => rfl

lemma map_injective {f : σ → τ} (hf : Function.Injective f) {x y : Except ε σ} (h : x.map f = y.map f) :
    x = y := by
  cases x with
  | error e =>
    cases y with
    | error e' => exact congrArg Except.error (Except.error.inj h)
    | ok t => cases h
  | ok s =>
    cases y with
    | error e' => cases h
    | ok t => exact congrArg Except.ok (hf (Except.ok.inj h))

lemma map_eq_ok {f : σ → τ} {x : Except ε σ} {t : τ} :
    x.map f = .ok t ↔ ∃ s, x = .ok s ∧ f s = t := by
  cases x <;> simp [Except.map]

lemma bind_eq_ok {f : σ → Except ε τ} {x : Except ε σ} {t : τ} :
    (x >>= f) = .ok t ↔ ∃ s, x = .ok s ∧ f s = .ok t := by
  cases x <;> simp [bind, Except.bind]

lemma error_of_bind {f : σ → Except ε τ} {x : Except ε σ} {e : ε} (h : (x >>= f) = .error e)
    (hf : ∀ s, f s ≠ .error e) : x = .error e := by
  cases x with
  | error _ => exact congrArg Except.error (Except.error.inj h)
  | ok s => exact absurd h (hf s)

lemma ok_bind (s : σ) (f : σ → Except ε τ) : (Except.ok s >>= f) = f s := rfl

lemma map_bind {γ : Type} (f : τ → γ) (x : Except ε σ) (g : σ → Except ε τ) :
    (x >>= g).map f = x >>= fun s => (g s).map f := by
  cases x <;> rfl

lemma foldlM_inv {f : σ → ι → Except ε σ} {P : σ → Prop}
    (hf : ∀ s a s', P s → f s a = .ok s' → P s') {s s' : σ} {xs : List ι} (hs : P s)
    (h : xs.foldlM f s = .ok s') : P s' := by
  induction xs generalizing s with
  | nil =>
    cases h
    exact hs
  | cons a xs ih =>
    rw [List.foldlM_cons] at h
    obtain ⟨t, ha, ht⟩ := bind_eq_ok.mp h
    exact ih (hf s a t hs ha) ht

lemma mapM_eq_ok_iff {f : ι → Except ε σ} {l : List ι} {ys : List σ} :
    l.mapM f = .ok ys ↔ l.map f = ys.map .ok := by
  induction l generalizing ys with
  | nil =>
    rw [List.mapM_nil, List.map_nil, eq_comm (b := ys.map Except.ok), List.map_eq_nil_iff]
    exact ⟨fun h => (Except.ok.inj h).symm, fun h => by rw [h]; rfl⟩
  | cons x l ih =>
    rw [List.mapM_cons, bind_eq_ok]
    constructor
    · rintro ⟨y, hy, h⟩
      obtain ⟨zs, hzs, h⟩ := bind_eq_ok.mp h
      cases h
      rw [List.map_cons, List.map_cons, hy, ih.mp hzs]
    · intro h
      cases ys with
      | nil => cases h
      | cons y ys =>
        rw [List.map_cons, List.map_cons, List.cons.injEq] at h
        exact ⟨y, h.1, by rw [ih.mpr h.2]; rfl⟩

lemma mapM_inv {f : ι → Except ε σ} {P : σ → Prop} (hf : ∀ a s, f a = .ok s → P s) {xs : List ι}
    {ys : List σ} (h : xs.mapM f = .ok ys) : ∀ y ∈ ys, P y := by
  intro y hy
  have hmem : Except.ok y ∈ ys.map (Except.ok (ε := ε)) := List.mem_map_of_mem hy
  rw [← mapM_eq_ok_iff.mp h] at hmem
  obtain ⟨a, -, ha⟩ := List.mem_map.mp hmem
  exact hf a y ha

def loop (step : σ → ι → List ι → Except ε σ) : σ → List ι → Except ε σ
  | s, [] => .ok s
  | s, a :: rest => step s a rest >>= fun s' => loop step s' rest

lemma loop_cons (step : σ → ι → List ι → Except ε σ) (s : σ) (a : ι) (rest : List ι) :
    loop step s (a :: rest) = step s a rest >>= fun s' => loop step s' rest := rfl

/-- A loop whose body emits output: the outputs of all rounds, in order. -/
def run (step : σ → ι → List ι → Except ε (σ × List ω)) : σ → List ι → Except ε (σ × List ω)
  | s, [] => .ok (s, [])
  | s, a :: rest => do
    let r ← step s a rest
    let q ← run step r.1 rest
    return (q.1, r.2 ++ q.2)

/-- The state in which the loop meets `rest`, after the elements before it. -/
def upTo (step : σ → ι → List ι → Except ε (σ × List ω)) : σ → List ι → List ι → Except ε σ
  | s, [], _ => .ok s
  | s, a :: xs, rest => step s a (xs ++ rest) >>= fun r => upTo step r.1 xs rest

/-- The body that hands the output of each round to a consumer before the next round. -/
def feeding (step : σ → ι → List ι → Except ε (σ × List ω)) (consume : κ → ω → Except ε κ) :
    σ × κ → ι → List ι → Except ε (σ × κ) :=
  fun sk a rest => do
    let r ← step sk.1 a rest
    let k ← r.2.foldlM consume sk.2
    return (r.1, k)

section

variable {step : σ → ι → List ι → Except ε (σ × List ω)} {consume : κ → ω → Except ε κ}

lemma run_cons_ok {s s' s'' : σ} {a : ι} {rest : List ι} {out out' : List ω}
    (h : step s a rest = .ok (s', out)) (hr : run step s' rest = .ok (s'', out')) :
    run step s (a :: rest) = .ok (s'', out ++ out') := by
  simp only [run, h, hr, bind, Except.bind, pure, Except.pure]

lemma run_cons_inv {s s'' : σ} {a : ι} {rest : List ι} {out : List ω}
    (h : run step s (a :: rest) = .ok (s'', out)) :
    ∃ s' head tail, step s a rest = .ok (s', head) ∧ run step s' rest = .ok (s'', tail) ∧
      out = head ++ tail := by
  simp only [run] at h
  cases hs : step s a rest with
  | error e => simp [hs, bind, Except.bind] at h
  | ok r =>
    cases hq : run step r.1 rest with
    | error e => simp [hs, hq, bind, Except.bind] at h
    | ok q =>
      simp only [hs, hq, bind, Except.bind, pure, Except.pure, Except.ok.injEq, Prod.mk.injEq] at h
      obtain ⟨rfl, rfl⟩ := h
      exact ⟨r.1, r.2, q.2, rfl, hq, rfl⟩

lemma run_append_ok (hl : ∀ s a rest rest', step s a rest = step s a rest') {s s' s'' : σ}
    {xs ys : List ι} {out out' : List ω} (h : run step s xs = .ok (s', out))
    (hr : run step s' ys = .ok (s'', out')) : run step s (xs ++ ys) = .ok (s'', out ++ out') := by
  induction xs generalizing s out with
  | nil =>
    cases h
    exact hr
  | cons a xs ih =>
    obtain ⟨t, head, tail, hs, hq, rfl⟩ := run_cons_inv h
    have hs' : step s a (xs ++ ys) = .ok (t, head) := by rw [hl s a (xs ++ ys) xs, hs]
    simpa only [List.cons_append, List.append_assoc] using run_cons_ok hs' (ih hq)

lemma upTo_cons_inv {s s' : σ} {a : ι} {xs rest : List ι} (h : upTo step s (a :: xs) rest = .ok s') :
    ∃ t out, step s a (xs ++ rest) = .ok (t, out) ∧ upTo step t xs rest = .ok s' := by
  obtain ⟨⟨t, out⟩, hs, hx⟩ := bind_eq_ok.mp h
  exact ⟨t, out, hs, hx⟩

lemma upTo_append (s : σ) (xs ys rest : List ι) :
    upTo step s (xs ++ ys) rest = upTo step s xs (ys ++ rest) >>= fun t => upTo step t ys rest := by
  induction xs generalizing s with
  | nil => rfl
  | cons a xs ih =>
    rw [List.cons_append, upTo, upTo, List.append_assoc]
    cases step s a (xs ++ (ys ++ rest)) with
    | error e => rfl
    | ok r => exact ih r.1

lemma upTo_span_inv {s s' : σ} {o c : ι} {inside tail rest : List ι}
    (h : upTo step s (o :: (inside ++ c :: tail)) rest = .ok s') :
    ∃ s₁ s₂ s₃ out out', step s o (inside ++ (c :: (tail ++ rest))) = .ok (s₁, out) ∧
      upTo step s₁ inside (c :: (tail ++ rest)) = .ok s₂ ∧
      step s₂ c (tail ++ rest) = .ok (s₃, out') ∧ upTo step s₃ tail rest = .ok s' := by
  obtain ⟨s₁, out, ho, hinside⟩ := upTo_cons_inv h
  rw [upTo_append] at hinside
  obtain ⟨s₂, hi, hc⟩ := bind_eq_ok.mp hinside
  obtain ⟨s₃, out', hc, ht⟩ := upTo_cons_inv hc
  rw [List.append_assoc] at ho
  exact ⟨s₁, s₂, s₃, out, out', ho, hi, hc, ht⟩

lemma upTo_of_run {s s' : σ} {xs ys : List ι} {out : List ω} (h : run step s (xs ++ ys) = .ok (s', out)) :
    ∃ t tail, upTo step s xs ys = .ok t ∧ run step t ys = .ok (s', tail) := by
  induction xs generalizing s out with
  | nil => exact ⟨s, out, rfl, h⟩
  | cons a xs ih =>
    obtain ⟨t, head, tail, hs, hr, -⟩ := run_cons_inv h
    obtain ⟨u, tail', hu, hy⟩ := ih hr
    exact ⟨u, tail', bind_eq_ok.mpr ⟨_, hs, hu⟩, hy⟩

lemma upTo_invariant {P : List ι → List ι → σ → Prop}
    (hstep : ∀ before a rest s s' out, P before (a :: rest) s → step s a rest = .ok (s', out) →
      P (before ++ [a]) rest s')
    {s s' : σ} {before xs rest : List ι} (hp : P before (xs ++ rest) s)
    (h : upTo step s xs rest = .ok s') : P (before ++ xs) rest s' := by
  induction xs generalizing s before with
  | nil =>
    cases h
    rwa [List.append_nil]
  | cons a xs ih =>
    obtain ⟨t, out, hs, hx⟩ := upTo_cons_inv h
    have hnext := ih (hstep before a (xs ++ rest) s t out hp hs) hx
    rwa [List.append_assoc] at hnext

lemma run_of_loop {s s' : σ} {k k' : κ} {xs : List ι}
    (h : loop (feeding step consume) (s, k) xs = .ok (s', k')) :
    ∃ out, run step s xs = .ok (s', out) ∧ out.foldlM consume k = .ok k' := by
  induction xs generalizing s k with
  | nil =>
    cases h
    exact ⟨[], rfl, rfl⟩
  | cons a xs ih =>
    simp only [loop_cons, feeding, bind, Except.bind, pure, Except.pure] at h
    cases hs : step s a xs with
    | error e => simp [hs] at h
    | ok r =>
      cases hk : r.2.foldlM consume k with
      | error e => simp [hs, hk] at h
      | ok k₁ =>
        simp only [hs, hk] at h
        obtain ⟨out, hrun, hout⟩ := ih h
        refine ⟨r.2 ++ out, run_cons_ok hs hrun, ?_⟩
        rw [List.foldlM_append, hk]
        exact hout

end

end PtPerf.Support.Runs
