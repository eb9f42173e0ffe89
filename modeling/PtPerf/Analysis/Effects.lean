import PtPerf.Analysis.Machine

/-! The statistics of a run are the sum of what its effects contribute. -/

namespace PtPerf.Analysis

open PtPerf.Support PtPerf.Trace PtPerf.Stats

def Effect.tally (opt : StatOption) : Effect → Except Fault Tally
  | .add call ret latS child => Tally.ofCall opt call ret latS child
  | .addUnknownLatency child caller => .ok (Tally.ofUnknown child caller)
  | .countSched => .ok ⟨0, 0, 0, 1⟩
  | .addMiss _ | .countAncestorBegin | .countAncestorEnd => .ok 0

lemma perform_toTally (opt : StatOption) (stat : FuncStat) (e : Effect) :
    (perform opt stat e).map FuncStat.toTally = (e.tally opt).map (stat.toTally + ·) := by
  cases e with
  | add call ret latS child => exact FuncStat.add_toTally opt stat call ret latS child
  | addUnknownLatency child caller =>
    simp only [perform, Effect.tally, Except.map, FuncStat.addUnknownLatency_eq]
  | countSched =>
    simp only [perform, Effect.tally, Except.map]
    congr 1
    exact Tally.ext (add_zero _).symm (add_zero _).symm (add_zero _).symm rfl
  | addMiss | countAncestorBegin | countAncestorEnd =>
    simp only [perform, Effect.tally, Except.map, add_zero]

def totalTally (opt : StatOption) : List Effect → Except Fault Tally
  | [] => .ok 0
  | e :: es => do
    let t ← e.tally opt
    let u ← totalTally opt es
    return t + u

lemma totalTally_singleton (opt : StatOption) (e : Effect) : totalTally opt [e] = e.tally opt := by
  rw [totalTally]
  cases e.tally opt with
  | error f => rfl
  | ok t => exact congrArg Except.ok (add_zero t)

lemma totalTally_append (opt : StatOption) (es fs : List Effect) :
    totalTally opt (es ++ fs) = do
      let t ← totalTally opt es
      let u ← totalTally opt fs
      return t + u := by
  induction es with
  | nil => cases h : totalTally opt fs <;> simp [totalTally, h, bind, Except.bind, pure, Except.pure]
  | cons e es ih =>
    simp only [List.cons_append, totalTally, ih, bind, Except.bind, pure, Except.pure]
    cases e.tally opt with
    | error f => rfl
    | ok t =>
      cases totalTally opt es with
      | error f => rfl
      | ok u =>
        cases totalTally opt fs with
        | error f => rfl
        | ok v => simp only [add_assoc]

lemma foldlM_perform_agrees (opt : StatOption) (stat : FuncStat) (es : List Effect) :
    Runs.Agree (fun stat' t => stat'.toTally = stat.toTally + t) (es.foldlM (perform opt) stat)
      (totalTally opt es) := by
  induction es generalizing stat with
  | nil => exact .ok (add_zero _).symm
  | cons e es ih =>
    rw [List.foldlM_cons]
    refine (Runs.Agree.of_map_eq (perform_toTally opt stat e)).bind fun stat' t ht => ?_
    refine (ih stat').bind_ok fun stat'' u hu => ?_
    rw [hu, ht, add_assoc]

lemma totalTally_of_ok {α : Type} (opt : StatOption) (f : α → Effect) (c : α → Tally) (xs : List α)
    (h : ∀ x ∈ xs, (f x).tally opt = .ok (c x)) :
    totalTally opt (xs.map f) = .ok (xs.map c).sum := by
  induction xs with
  | nil => rfl
  | cons x xs ih =>
    rw [List.map_cons, totalTally, h x (by simp), ih fun y hy => h y (by simp [hy])]
    simp [bind, Except.bind, pure, Except.pure]

lemma totalTally_error {opt : StatOption} {es : List Effect} {e : Effect} {f : Fault} (he : e ∈ es)
    (h : e.tally opt = .error f) : ∃ g, totalTally opt es = .error g := by
  induction es with
  | nil => simp at he
  | cons d es ih =>
    cases hd : d.tally opt with
    | error g => exact ⟨g, by simp [totalTally, hd, bind, Except.bind]⟩
    | ok t =>
      rcases List.mem_cons.mp he with rfl | he
      · simp [h] at hd
      · obtain ⟨g, hg⟩ := ih he
        exact ⟨g, by simp [totalTally, hd, hg, bind, Except.bind]⟩

lemma totalTally_cons_inv {opt : StatOption} {e : Effect} {es : List Effect} {t : Tally}
    (h : totalTally opt (e :: es) = .ok t) :
    ∃ t₁ t₂, e.tally opt = .ok t₁ ∧ totalTally opt es = .ok t₂ ∧ t = t₁ + t₂ := by
  obtain ⟨t₁, h₁, h⟩ := Runs.bind_eq_ok.mp h
  obtain ⟨t₂, h₂, h⟩ := Runs.bind_eq_ok.mp h
  cases h
  exact ⟨t₁, t₂, h₁, h₂, rfl⟩

/-- What the analysis of the remaining actions adds, from a given state on. -/
def tallyFrom (p : Param) : State → List Action → Except Fault Tally
  | s, [] => totalTally p.statOption (leftover s)
  | s, a :: rest => do
    let r ← step p s a rest
    let t ← totalTally p.statOption r.2
    let u ← tallyFrom p r.1 rest
    return t + u

section Rounds

variable {p : Param} {s s' : State} {a : Action} {rest : List Action} {es : List Effect} {t : Tally}

lemma tallyFrom_cons_ok (h : step p s a rest = .ok (s', es)) :
    tallyFrom p s (a :: rest) = do
      let u ← totalTally p.statOption es
      let v ← tallyFrom p s' rest
      return u + v := by
  rw [tallyFrom, h]
  rfl

lemma tallyFrom_cons_inv (h : tallyFrom p s (a :: rest) = .ok t) :
    ∃ s' es t₁ t₂, step p s a rest = .ok (s', es) ∧ totalTally p.statOption es = .ok t₁ ∧
      tallyFrom p s' rest = .ok t₂ ∧ t = t₁ + t₂ := by
  obtain ⟨⟨s', es⟩, hstep, h⟩ := Runs.bind_eq_ok.mp h
  obtain ⟨t₁, h₁, h⟩ := Runs.bind_eq_ok.mp h
  obtain ⟨t₂, h₂, h⟩ := Runs.bind_eq_ok.mp h
  cases h
  exact ⟨s', es, t₁, t₂, hstep, h₁, h₂, rfl⟩

end Rounds

lemma loop_agrees (p : Param) (s : State) (stat : FuncStat) (xs : List Action) :
    Runs.Agree (fun stat' t => stat'.toTally = stat.toTally + t)
      ((Runs.loop (Runs.feeding (step p) (perform p.statOption)) (s, stat) xs) >>= fun r =>
        (leftover r.1).foldlM (perform p.statOption) r.2)
      (tallyFrom p s xs) := by
  induction xs generalizing s stat with
  | nil => exact foldlM_perform_agrees p.statOption stat (leftover s)
  | cons a xs ih =>
    simp only [Runs.loop_cons, Runs.feeding, tallyFrom, bind_assoc, pure_bind]
    cases step p s a xs with
    | error f => exact .error f
    | ok r =>
      refine (foldlM_perform_agrees p.statOption stat r.2).bind fun stat' t ht => ?_
      refine (ih r.1 stat').bind_ok fun stat'' u hu => ?_
      rw [hu, ht, add_assoc]

theorem doAnalyze_toTally (p : Param) (xs : List Action) :
    (doAnalyze p xs).map FuncStat.toTally = tallyFrom p State.init xs := by
  have hmap := (loop_agrees p State.init FuncStat.new xs).map_eq FuncStat.toTally id
    fun stat t h => h.trans (zero_add t)
  exact hmap.trans (congrFun Except.map_id _)

lemma tallyFrom_of_doAnalyze {p : Param} {xs : List Action} {stat : FuncStat}
    (h : doAnalyze p xs = .ok stat) : tallyFrom p State.init xs = .ok stat.toTally := by
  rw [← doAnalyze_toTally, h]
  rfl

lemma tallyFrom_of_run {p : Param} {s s' : State} {xs : List Action} {es : List Effect}
    (h : Runs.run (step p) s xs = .ok (s', es)) :
    tallyFrom p s xs = totalTally p.statOption (es ++ leftover s') := by
  induction xs generalizing s es with
  | nil =>
    cases h
    rfl
  | cons a xs ih =>
    obtain ⟨t, head, tail, hs, hrest, rfl⟩ := Runs.run_cons_inv h
    rw [List.append_assoc, totalTally_append, ← ih hrest, tallyFrom, hs]
    rfl

theorem doAnalyze_of_run {p : Param} {xs : List Action} {s : State} {es : List Effect}
    (h : Runs.run (step p) State.init xs = .ok (s, es)) :
    (doAnalyze p xs).map FuncStat.toTally = totalTally p.statOption (es ++ leftover s) :=
  (doAnalyze_toTally p xs).trans (tallyFrom_of_run h)

end PtPerf.Analysis
