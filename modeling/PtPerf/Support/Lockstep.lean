import PtPerf.Support.Runs

/-! Two loops over one list, of which the second passes over some of the elements. What is seen of
the two is compared after every round. -/

namespace PtPerf.Support.Lockstep

open PtPerf.Support.Runs

variable {σ τ ι ε ω : Type}

/-- The loop on the elements of `xs`, with `rest` still to come. -/
def loopUpTo (step : σ → ι → List ι → Except ε σ) : σ → List ι → List ι → Except ε σ
  | s, [], _ => .ok s
  | s, a :: xs, rest => step s a (xs ++ rest) >>= fun s' => loopUpTo step s' xs rest

lemma loopUpTo_nil_right (step : σ → ι → List ι → Except ε σ) (s : σ) (xs : List ι) :
    loopUpTo step s xs [] = loop step s xs := by
  induction xs generalizing s with
  | nil => rfl
  | cons a xs ih =>
    rw [loopUpTo, loop_cons, List.append_nil]
    exact congrArg (step s a xs >>= ·) (funext ih)

variable (f : σ → ι → List ι → Except ε σ) (g : τ → ι → List ι → Except ε τ) (skips : ι → Bool)
  (u : σ → ω) (v : τ → ω)

/-- The round of the second loop, if it has one. -/
def follow (t : τ) (a : ι) (rest : List ι) : Except ε τ :=
  if skips a then .ok t else g t a (rest.filter (!skips ·))

def AgreeAt (s : σ) (t : τ) (a : ι) (rest : List ι) : Prop :=
  (f s a rest).map u = (follow g skips t a rest).map v

/-- The two look the same after every round. -/
def AgreeThroughout (s : σ) (t : τ) (xs : List ι) : Prop :=
  ∀ done rest, xs = done ++ rest → (loopUpTo f s done rest).map u =
    (loopUpTo g t (done.filter (!skips ·)) (rest.filter (!skips ·))).map v

/-- Every round that both loops come to is met in states that `C` holds of. -/
def EveryRound (C : σ → τ → ι → Prop) (s : σ) (t : τ) (xs : List ι) : Prop :=
  ∀ done a rest, xs = done ++ a :: rest → ∀ s' t', loopUpTo f s done (a :: rest) = .ok s' →
    loopUpTo g t (done.filter (!skips ·)) ((a :: rest).filter (!skips ·)) = .ok t' → C s' t' a

variable {f g skips u v} {C : σ → τ → ι → Prop} {s : σ} {t : τ} {a : ι} {xs : List ι}

lemma loopUpTo_filter_cons (t : τ) (a : ι) (done rest : List ι) :
    loopUpTo g t ((a :: done).filter (!skips ·)) (rest.filter (!skips ·)) =
      follow g skips t a (done ++ rest) >>= fun t' =>
        loopUpTo g t' (done.filter (!skips ·)) (rest.filter (!skips ·)) := by
  cases ha : skips a with
  | true => rw [List.filter_cons_of_neg (by simp [ha]), follow, ha, if_pos rfl, ok_bind]
  | false =>
    rw [List.filter_cons_of_pos (by simp [ha]), follow, ha, if_neg Bool.false_ne_true, loopUpTo,
      List.filter_append]

lemma agreeThroughout_cons : AgreeThroughout f g skips u v s t (a :: xs) ↔
    u s = v t ∧ AgreeAt f g skips u v s t a xs ∧ ∀ s' t', f s a xs = .ok s' →
      follow g skips t a xs = .ok t' → AgreeThroughout f g skips u v s' t' xs := by
  constructor
  · intro h
    have hround : AgreeAt f g skips u v s t a xs := by
      have hone := h [a] xs rfl
      rw [loopUpTo_filter_cons, loopUpTo, List.nil_append] at hone
      rw [AgreeAt]
      generalize f s a xs = x, follow g skips t a xs = y at hone ⊢
      cases x <;> cases y <;> exact hone
    refine ⟨Except.ok.inj (h [] (a :: xs) rfl), hround, ?_⟩
    rintro s' t' hs ht done rest rfl
    have hmore := h (a :: done) rest rfl
    rwa [loopUpTo_filter_cons, loopUpTo, hs, ht, ok_bind, ok_bind] at hmore
  · rintro ⟨hseen, hround, hmore⟩ done rest hxs
    cases done with
    | nil => exact congrArg Except.ok hseen
    | cons b done =>
      rw [List.cons_append] at hxs
      obtain ⟨rfl, rfl⟩ := List.cons.inj hxs
      rw [loopUpTo_filter_cons, loopUpTo]
      generalize hs : f s a (done ++ rest) = x, ht : follow g skips t a (done ++ rest) = y
      rw [AgreeAt, hs, ht] at hround
      cases Agree.of_map_eq hround with
      | error e => rfl
      | ok _ => exact hmore _ _ hs ht done rest rfl

lemma everyRound_cons : EveryRound f g skips C s t (a :: xs) ↔
    C s t a ∧ ∀ s' t', f s a xs = .ok s' → follow g skips t a xs = .ok t' →
      EveryRound f g skips C s' t' xs := by
  constructor
  · intro h
    refine ⟨h [] a xs rfl s t rfl rfl, ?_⟩
    rintro s' t' hs ht done b rest rfl s'' t'' hs' ht'
    apply h (a :: done) b rest rfl s'' t''
    · rwa [loopUpTo, hs, ok_bind]
    · rwa [loopUpTo_filter_cons, ht, ok_bind]
  · rintro ⟨hround, hmore⟩ done b rest hxs s'' t'' hs' ht'
    cases done with
    | nil =>
      cases hxs
      cases hs'
      cases ht'
      exact hround
    | cons c done =>
      rw [List.cons_append] at hxs
      obtain ⟨rfl, rfl⟩ := List.cons.inj hxs
      obtain ⟨s', hs, hs'⟩ := bind_eq_ok.mp hs'
      rw [loopUpTo_filter_cons] at ht'
      obtain ⟨t', ht, ht'⟩ := bind_eq_ok.mp ht'
      exact hmore s' t' hs ht done b rest rfl s'' t'' hs' ht'

instance decidableEveryRound [∀ s t a, Decidable (C s t a)] :
    ∀ (s : σ) (t : τ) (xs : List ι), Decidable (EveryRound f g skips C s t xs)
  | s, t, [] => isTrue fun done a rest hnil =>
      absurd hnil.symm (List.append_ne_nil_of_right_ne_nil done (List.cons_ne_nil a rest))
  | s, t, a :: xs =>
    match hf : f s a xs, hg : follow g skips t a xs with
    | .ok s', .ok t' =>
      have := decidableEveryRound s' t' xs
      decidable_of_iff (C s t a ∧ EveryRound f g skips C s' t' xs) <| by
        simp [everyRound_cons, hf, hg]
    | .error e, _ => decidable_of_iff (C s t a) <| by simp [everyRound_cons, hf]
    | _, .error e => decidable_of_iff (C s t a) <| by simp [everyRound_cons, hg]

/-- Where `C` says of states that look the same whether the next round agrees, the loops agree
throughout if and only if `C` holds in every round. -/
theorem agreeThroughout_iff (h : u s = v t)
    (hC : ∀ s t, ∀ a ∈ xs, ∀ rest, u s = v t → (AgreeAt f g skips u v s t a rest ↔ C s t a)) :
    AgreeThroughout f g skips u v s t xs ↔ EveryRound f g skips C s t xs := by
  induction xs generalizing s t with
  | nil =>
    refine iff_of_true (fun done rest hnil => ?_) fun done a rest hnil => ?_
    · obtain ⟨rfl, rfl⟩ := List.append_eq_nil_iff.mp hnil.symm
      exact congrArg Except.ok h
    · exact absurd hnil.symm (List.append_ne_nil_of_right_ne_nil _ (List.cons_ne_nil _ _))
  | cons a xs ih =>
    rw [agreeThroughout_cons, everyRound_cons, and_iff_right h, ← hC s t a List.mem_cons_self xs h]
    refine and_congr_right fun hround => forall₂_congr fun s' t' => ?_
    refine forall₂_congr fun hs ht => ih ?_ fun s t b hb => hC s t b (List.mem_cons_of_mem a hb)
    rw [AgreeAt, hs, ht] at hround
    exact Except.ok.inj hround

end PtPerf.Support.Lockstep
