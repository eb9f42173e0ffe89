import PtPerf.Analysis.TraceEnd

/-! Analysis across a trace error. `clear_context` empties the stack, the children and the
schedule times, but leaves the last target call, the state of its chain and the interrupt mark
as they were before the loss. -/

namespace PtPerf.Analysis

open PtPerf.Support PtPerf.Trace PtPerf.Stats

/-- The part of the state that reaches the statistics before the next call of the target. -/
def State.visible (s : State) : State :=
  { s with targetBegin := none, wrongChain := true, prevTargetError := false, cursor := none,
           noHwIntFromHead := true }

def starts (s : State) (a : Action) : Bool := !a.isError && entersTarget a && s.noHwIntFromHead

/-- At an entry of the target, nothing kept from an earlier call changes what is written down
for the unfinished chain. -/
def FlushSafe (p : Param) (s : State) : Prop :=
  s.targetBegin = none ∨
    s.stack.length ≠ 2 ∧ (s.child.empty = true ∨ unfinishedCaller p s = unknownCaller)

def EntrySafe (p : Param) : State → List Action → Prop
  | _, [] => True
  | s, a :: rest =>
    if starts s a then FlushSafe p s
    else match step p s a rest with
      | .ok r => EntrySafe p r.1 rest
      | .error _ => True

/-- An interrupt mark left from before does not meet an entry of the target. -/
def InterruptSafe : Bool → List Action → Prop
  | true, _ => True
  | false, [] => True
  | false, a :: rest =>
    (a.isError = true ∧ InterruptSafe false rest) ∨
      (a.isError = false ∧ entersTarget a = false ∧
        ((a.schedBegin || a.schedEnd) = true → InterruptSafe false rest))

section Visible

variable {p : Param} {s t : State} {a : Action}

/-- Everything but a new call of the target acts on the visible part alone. -/
def view (r : State × List Effect) : State × Bool × List Effect := (r.1.visible, r.1.noHwIntFromHead, r.2)

/-- The visible part with the interrupt mark. -/
def State.masked (s : State) : State := { s.visible with noHwIntFromHead := s.noHwIntFromHead }

lemma trStartStep_view (s : State) :
    view (trStartStep p s a, []) = view (trStartStep p s.masked a, []) := by
  obtain ⟨stack, child, si, sc, sb, tb, pe, ab, cu, wc, nh⟩ := s
  cases stack with
  | nil => rfl
  | cons top stack =>
    simp only [trStartStep, State.masked, State.visible]
    split
    · rfl
    · split <;> rfl

lemma returnStep_view (s : State) : view (returnStep p s a) = view (returnStep p s.masked a) := by
  obtain ⟨stack, child, si, sc, sb, tb, pe, ab, cu, wc, nh⟩ := s
  rcases stack with - | ⟨top, - | ⟨next, stack⟩⟩
  · rfl
  · simp only [returnStep, State.masked, State.visible]
    split
    · rfl
    · split <;> rfl
  · simp only [returnStep, State.masked, State.visible]
    split <;> rfl

lemma callStep_eq (hc : p.codeBlock = false) (s : State) :
    callStep p s a = .ok { s with stack := a :: s.stack, schedBegin := none, schedInChild := 0 } := by
  simp only [callStep, hc]
  rfl

lemma dispatch_view (hc : p.codeBlock = false) (s : State) :
    (dispatch p s a).map view = (dispatch p s.masked a).map view := by
  unfold dispatch
  cases a.type
  case trStart => exact congrArg Except.ok (trStartStep_view s)
  case iret | ret | trEndReturn => exact congrArg Except.ok (returnStep_view s)
  case hwInt | trEndHwInt | call | trEndSyscall | trEndCall =>
    simp only [callStep_eq hc]
    rfl
  all_goals rfl

lemma chainStep_map {γ : Type} (f : State × List Effect → γ)
    (hf : ∀ r c, f ({ r.1 with cursor := c }, r.2) = f r) (q : Param) (s : State) (a : Action) :
    (chainStep q s a).map f =
      (dispatch q { s with noHwIntFromHead := !leavesFromHead a } a).map f := by
  rw [chainStep]
  cases dispatch q { s with noHwIntFromHead := !leavesFromHead a } a with
  | error _ => rfl
  | ok r => exact congrArg Except.ok (hf r _)

lemma chainStep_view (hc : p.codeBlock = false) (h : s.visible = t.visible) :
    (chainStep p s a).map view = (chainStep p t a).map view := by
  have hmask : { s with noHwIntFromHead := !leavesFromHead a }.masked =
      { t with noHwIntFromHead := !leavesFromHead a }.masked :=
    congrArg (fun u : State => { u with noHwIntFromHead := !leavesFromHead a }) h
  rw [chainStep_map view fun _ _ => rfl, chainStep_map view fun _ _ => rfl, dispatch_view hc, hmask,
    ← dispatch_view hc]

lemma branchStep_view (hc : p.codeBlock = false) (h : s.visible = t.visible) :
    (branchStep p s a).map view = (branchStep p t a).map view := by
  rw [branchStep, branchStep]
  split
  · rw [hc]
    rfl
  · split
    · rfl
    · exact chainStep_view hc h

lemma dispatch_targetBegin (hc : p.codeBlock = false) {r : State × List Effect}
    (h : dispatch p s a = .ok r) : r.1.targetBegin = s.targetBegin := by
  have htr : (trStartStep p s a).targetBegin = s.targetBegin := by
    unfold trStartStep
    split
    · split
      · rfl
      · split <;> rfl
    · rfl
  have hret : (returnStep p s a).1.targetBegin = s.targetBegin := by
    unfold returnStep
    split
    · split
      · rfl
      · split <;> rfl
    · split <;> rfl
    · rfl
  unfold dispatch at h
  simp only [callStep_eq hc] at h
  cases hty : a.type <;> rw [hty] at h <;> cases h
  case trStart => exact htr
  case iret | ret | trEndReturn => exact hret
  all_goals rfl

lemma branchStep_targetBegin (hc : p.codeBlock = false) {r : State × List Effect}
    (h : branchStep p s a = .ok r) : r.1.targetBegin = s.targetBegin := by
  rw [branchStep, hc] at h
  split at h
  · cases h
  · split at h
    · cases h
    · obtain ⟨q, hd, hq⟩ := Runs.bind_eq_ok.mp h
      cases hq
      have htb := dispatch_targetBegin hc hd
      exact htb

end Visible

/-- A state that went through an error, and one that has not seen anything before. -/
structure Related (s t : State) (ys : List Action) : Prop where
  visible : s.visible = t.visible
  targetBegin : t.targetBegin = none
  interrupt : s.noHwIntFromHead = t.noHwIntFromHead ∨
    (s.noHwIntFromHead = false ∧ t.noHwIntFromHead = true ∧ InterruptSafe false ys)

section Related

variable {p : Param} {s t : State} {a : Action} {ys : List Action}

lemma Related.child_eq (h : Related s t ys) : s.child = t.child := by
  have hchild : s.visible.child = t.visible.child := congrArg State.child h.visible
  exact hchild

lemma Related.starts_eq (h : Related s t (a :: ys)) : starts t a = starts s a := by
  rcases h.interrupt with heq | ⟨hs, ht, hsafe⟩
  · rw [starts, starts, heq]
  · rcases hsafe with ⟨he, -⟩ | ⟨-, henter, -⟩
    · simp [starts, he]
    · simp [starts, henter]

lemma Related.of_view {s' t' : State} {es es' : List Effect} (hview : view (s', es) = view (t', es'))
    (ht : t'.targetBegin = none) : es = es' ∧ Related s' t' ys := by
  simp only [view, Prod.mk.injEq] at hview
  exact ⟨hview.2.2, hview.1, ht, Or.inl hview.2.1⟩

lemma Related.error_step (h : Related s t (a :: ys)) (ha : a.isError = true) :
    (errorStep s).2 = (errorStep t).2 ∧ Related (errorStep s).1 (errorStep t).1 ys := by
  refine ⟨by rw [errorStep, errorStep, h.child_eq], rfl, h.targetBegin, ?_⟩
  rcases h.interrupt with heq | ⟨hs, ht, hsafe⟩
  · exact Or.inl heq
  · rcases hsafe with ⟨-, hsafe⟩ | ⟨he, -⟩
    · exact Or.inr ⟨hs, ht, hsafe⟩
    · rw [ha] at he
      cases he

lemma Related.interrupt_sched (h : Related s t (a :: ys)) (ha : a.isError = false)
    (hsched : (a.schedBegin || a.schedEnd) = true) :
    s.noHwIntFromHead = t.noHwIntFromHead ∨
      (s.noHwIntFromHead = false ∧ t.noHwIntFromHead = true ∧ InterruptSafe false ys) := by
  rcases h.interrupt with heq | ⟨hs, ht, hsafe⟩
  · exact Or.inl heq
  · rcases hsafe with ⟨he, -⟩ | ⟨-, -, hsafe⟩
    · rw [ha] at he
      cases he
    · exact Or.inr ⟨hs, ht, hsafe hsched⟩

lemma Related.schedEnd_step (h : Related s t (a :: ys)) (ha : a.isError = false)
    (hsched : (a.schedBegin || a.schedEnd) = true) :
    (schedEndStep s a).2 = (schedEndStep t a).2 ∧
      Related (schedEndStep s a).1 (schedEndStep t a).1 ys := by
  have hint := h.interrupt_sched ha hsched
  have hv := h.visible
  have ht := h.targetBegin
  obtain ⟨stack, child, si, sc, sb, tb, pe, ab, cu, wc, nh⟩ := s
  obtain ⟨stack', child', si', sc', sb', tb', pe', ab', cu', wc', nh'⟩ := t
  simp only [State.visible, State.mk.injEq, and_true, true_and] at hv
  obtain ⟨rfl, rfl, rfl, rfl, rfl, rfl⟩ := hv
  cases sb with
  | none => exact ⟨rfl, rfl, ht, hint⟩
  | some b => exact ⟨rfl, rfl, ht, hint⟩

/-- Up to the next call of the target the two runs take the same steps. -/
lemma Related.step (hp : p.ancestor = []) (hc : p.codeBlock = false) (h : Related s t (a :: ys))
    (hn : starts s a = false) :
    (∃ f, step p s a ys = .error f ∧ step p t a ys = .error f) ∨
      ∃ s' t' es, step p s a ys = .ok (s', es) ∧ step p t a ys = .ok (t', es) ∧ Related s' t' ys := by
  have hn' := h.starts_eq.trans hn
  have hstep : ∀ u : State, starts u a = false → Analysis.step p u a ys =
      if a.isError then .ok (errorStep u) else if a.schedBegin then
        .ok ({ u with schedBegin := some a }, []) else if a.schedEnd then .ok (schedEndStep u a)
      else branchStep p u a := by
    intro u hu
    rw [Analysis.step]
    cases he : a.isError with
    | true => rfl
    | false =>
      have hu' : (entersTarget a && u.noHwIntFromHead) = false := by
        simpa [starts, he] using hu
      simp [hu', hp]
  rw [hstep s hn, hstep t hn']
  cases he : a.isError with
  | true =>
    obtain ⟨heff, hrel⟩ := h.error_step he
    refine Or.inr ⟨(errorStep s).1, (errorStep t).1, (errorStep s).2, rfl, ?_, hrel⟩
    rw [heff]
    rfl
  | false =>
    simp only [Bool.false_eq_true, if_false]
    cases hb : a.schedBegin with
    | true =>
      refine Or.inr ⟨_, _, [], rfl, rfl, ?_, h.targetBegin, h.interrupt_sched he (by simp [hb])⟩
      exact congrArg (fun u : State => { u with schedBegin := some a }) h.visible
    | false =>
      cases hend : a.schedEnd with
      | true =>
        obtain ⟨heff, hrel⟩ := h.schedEnd_step he (by simp [hend])
        refine Or.inr ⟨(schedEndStep s a).1, (schedEndStep t a).1, (schedEndStep s a).2, rfl, ?_, hrel⟩
        rw [heff]
        rfl
      | false =>
        simp only [Bool.false_eq_true, if_false]
        have hview := Runs.Agree.of_map_eq (branchStep_view (a := a) hc h.visible)
        generalize hs : branchStep p s a = x, ht : branchStep p t a = y at hview
        cases hview with
        | error f => exact Or.inl ⟨f, rfl, rfl⟩
        | @ok q r hview =>
          obtain ⟨heff, hrel⟩ : q.2 = r.2 ∧ Related q.1 r.1 ys := Related.of_view hview
            ((branchStep_targetBegin hc ht).trans h.targetBegin)
          exact Or.inr ⟨q.1, r.1, q.2, rfl, by rw [heff], hrel⟩

lemma Related.startStep_eq (h : Related s t (a :: ys)) (hs : starts s a = true) :
    (startStep p s a).1 = (startStep p t a).1 := by
  have hn : s.noHwIntFromHead = true := by
    simp only [starts, Bool.and_eq_true] at hs
    exact hs.2
  have hn' : t.noHwIntFromHead = true := by
    rcases h.interrupt with heq | ⟨hf, -⟩
    · rw [← heq, hn]
    · rw [hn] at hf
      cases hf
  have hab : s.visible.ancestorBegin = t.visible.ancestorBegin :=
    congrArg State.ancestorBegin h.visible
  change s.ancestorBegin = t.ancestorBegin at hab
  simp only [startStep, hab, hn, hn']

end Related

section Flush

variable {p : Param} {s t : State} {a : Action}

/-- What a new call of the target writes down for the chain before it. -/
def flushTally (p : Param) (s : State) (a : Action) : Tally :=
  if (unfinished p s a).empty then 0
  else .ofUnknown (unfinished p s a).toChildren (unfinishedCaller p s)

lemma startStep_tally (p : Param) (s : State) (a : Action) :
    totalTally p.statOption (startStep p s a).2 = .ok (flushTally p s a) := by
  have hmiss : totalTally p.statOption (missed s a) = .ok 0 := by
    unfold missed
    split
    · exact congrArg Except.ok (add_zero 0)
    · rfl
  simp only [startStep, totalTally_append, hmiss, flushTally]
  split
  · exact congrArg Except.ok (add_zero 0)
  · refine congrArg Except.ok ?_
    exact (add_zero _).trans (add_zero _)

lemma unfinished_of_none (ht : t.targetBegin = none) : unfinished p t a = t.child := by
  unfold unfinished
  split
  · rename_i h
    rw [ht] at h
    cases h
  · rfl

lemma unfinished_of_length (h : s.stack.length ≠ 2) : unfinished p s a = s.child := by
  unfold unfinished
  split
  · rename_i hst _
    rw [hst] at h
    exact absurd rfl h
  · rfl

lemma unfinishedCaller_of_none (ht : t.targetBegin = none) :
    unfinishedCaller p t = unknownCaller := by
  unfold unfinishedCaller
  split
  · rename_i h
    rw [ht] at h
    cases h
  · rfl

lemma flushTally_of_none (ht : t.targetBegin = none) : flushTally p t a =
    if t.child.empty then 0 else .ofUnknown t.child.toChildren unknownCaller := by
  rw [flushTally, unfinished_of_none ht, unfinishedCaller_of_none ht]

lemma flushTally_of_safe (hchild : s.child = t.child) (ht : t.targetBegin = none)
    (hsafe : FlushSafe p s) : flushTally p s a = flushTally p t a := by
  rw [flushTally_of_none ht, ← hchild]
  rcases hsafe with hs | ⟨hlen, hempty | hcaller⟩
  · exact flushTally_of_none hs
  · rw [flushTally, unfinished_of_length hlen, if_pos hempty, if_pos hempty]
  · rw [flushTally, unfinished_of_length hlen, hcaller]

def unknownCountHom : Tally →+ UInt64 where
  toFun t := t.latency.unknownCount
  map_zero' := rfl
  map_add' _ _ := rfl

def childCountHom (caller key : Str) : Tally →+ UInt64 where
  toFun t := ((t.callers.get caller).children.target.get key).count
  map_zero' := by simp
  map_add' a b := by simp [TallyMap.get_add]

lemma unknownCount_ofUnknown (c : Children) (caller : Str) :
    unknownCountHom (Tally.ofUnknown c caller) = if caller = unknownCaller then 0 else 1 := by
  change (Tally.ofUnknown c caller).latency.unknownCount = _
  by_cases h : caller = unknownCaller <;> simp [Tally.ofUnknown, Tally.ofChildren, h]

lemma childCount_ofUnknown (c : Children) (key : Str) :
    childCountHom unknownCaller key (Tally.ofUnknown c unknownCaller) = (c.target.get key).count := by
  change (((Tally.ofUnknown c unknownCaller).callers.get unknownCaller).children.target.get key).count = _
  simp [Tally.ofUnknown, Tally.ofChildren, TallyMap.get, TallyMap.lookup_single]

lemma unfinished_of_two (hs : s.targetBegin ≠ none) (hlen : s.stack.length = 2) :
    ∃ name, unfinished p s a = s.child.addTarget name 0 := by
  obtain ⟨top, base, hst⟩ := List.length_eq_two.mp hlen
  obtain ⟨start, hstart⟩ := Option.ne_none_iff_exists'.mp hs
  refine ⟨childName p top true false, ?_⟩
  simp only [unfinished, hst, hstart]
  rfl

lemma childCount_flush_of_none (ht : t.targetBegin = none) (key : Str) :
    childCountHom unknownCaller key (flushTally p t a) = (t.child.target.get key).count := by
  rw [flushTally_of_none ht]
  cases he : t.child.empty with
  | true =>
    have htarget : t.child.target = 0 := by
      simp only [LatencyChild.empty, Bool.and_eq_true, beq_iff_eq] at he
      exact he.1
    rw [if_pos rfl, map_zero, htarget, TallyMap.get_zero]
    rfl
  | false =>
    rw [if_neg (by simp)]
    exact childCount_ofUnknown _ key

/-- An unsafe entry shows in a counter that is off by one. -/
lemma flushTally_of_unsafe (hchild : s.child = t.child) (ht : t.targetBegin = none)
    (hsafe : ¬ FlushSafe p s) :
    ∃ φ : Tally →+ UInt64, φ (flushTally p s a) = φ (flushTally p t a) + 1 := by
  obtain ⟨hs, hbad⟩ := not_or.mp hsafe
  by_cases hcaller : unfinishedCaller p s = unknownCaller
  · have hlen : s.stack.length = 2 := by
      by_contra hlen
      exact hbad ⟨hlen, Or.inr hcaller⟩
    obtain ⟨name, hname⟩ := unfinished_of_two (p := p) (a := a) hs hlen
    refine ⟨childCountHom unknownCaller name, ?_⟩
    rw [childCount_flush_of_none ht, flushTally, hname, hcaller, LatencyChild.empty_addTarget,
      if_neg (by simp), childCount_ofUnknown, ← hchild]
    simp [LatencyChild.addTarget, Bucket.addVal, TallyMap.get_bump]
  · have hne : (unfinished p s a).empty = false := by
      by_cases hlen : s.stack.length = 2
      · obtain ⟨name, hname⟩ := unfinished_of_two (p := p) (a := a) hs hlen
        rw [hname, LatencyChild.empty_addTarget]
      · rw [unfinished_of_length hlen]
        by_contra hempty
        exact hbad ⟨hlen, Or.inl (by simpa using hempty)⟩
    refine ⟨unknownCountHom, ?_⟩
    have hzero : unknownCountHom (flushTally p t a) = 0 := by
      rw [flushTally_of_none ht]
      split
      · rfl
      · rw [unknownCount_ofUnknown, if_pos rfl]
    rw [hzero, flushTally, hne, if_neg (by simp), unknownCount_ofUnknown, if_neg hcaller]
    rfl

end Flush

section Isolation

variable {p : Param} {s t : State}

lemma step_of_starts {a : Action} {ys : List Action} (h : starts s a = true) :
    step p s a ys = .ok (startStep p s a) := by
  simp only [starts, Bool.and_eq_true, Bool.not_eq_true'] at h
  obtain ⟨⟨he, henter⟩, hn⟩ := h
  simp [step, he, henter, hn]

lemma tallyFrom_of_starts {a : Action} {ys : List Action} (h : starts s a = true) :
    tallyFrom p s (a :: ys) =
      (tallyFrom p (startStep p s a).1 ys).map (flushTally p s a + ·) := by
  have hstep : step p s a ys = .ok ((startStep p s a).1, (startStep p s a).2) := step_of_starts h
  rw [tallyFrom_cons_ok hstep, startStep_tally]
  cases tallyFrom p (startStep p s a).1 ys <;> rfl

theorem tallyFrom_related_eq (hp : p.ancestor = []) (hc : p.codeBlock = false) (ys : List Action)
    (h : Related s t ys) (hsafe : EntrySafe p s ys) : tallyFrom p s ys = tallyFrom p t ys := by
  induction ys generalizing s t with
  | nil =>
    rw [tallyFrom, tallyFrom, leftover, leftover, h.child_eq]
  | cons a ys ih =>
    cases hs : starts s a with
    | true =>
      have ht := h.starts_eq.trans hs
      rw [EntrySafe, if_pos hs] at hsafe
      rw [tallyFrom_of_starts hs, tallyFrom_of_starts ht, h.startStep_eq hs,
        flushTally_of_safe h.child_eq h.targetBegin hsafe]
    | false =>
      rw [EntrySafe, if_neg (by simp [hs])] at hsafe
      rcases h.step hp hc hs with ⟨f, hf, hf'⟩ | ⟨s', t', es, hs', ht', hrel⟩
      · rw [tallyFrom, tallyFrom, hf, hf']
      · rw [hs'] at hsafe
        rw [tallyFrom_cons_ok hs', tallyFrom_cons_ok ht', ih hrel hsafe]

theorem tallyFrom_related_ne (hp : p.ancestor = []) (hc : p.codeBlock = false) (ys : List Action)
    (h : Related s t ys) (hsafe : ¬ EntrySafe p s ys) {u : Tally} (hu : tallyFrom p s ys = .ok u) :
    ∃ φ : Tally →+ UInt64, ∃ v, tallyFrom p t ys = .ok v ∧ φ u = φ v + 1 := by
  induction ys generalizing s t u with
  | nil => exact absurd trivial hsafe
  | cons a ys ih =>
    cases hs : starts s a with
    | true =>
      have ht := h.starts_eq.trans hs
      rw [EntrySafe, if_pos hs] at hsafe
      obtain ⟨φ, hφ⟩ := flushTally_of_unsafe (a := a) h.child_eq h.targetBegin hsafe
      rw [tallyFrom_of_starts hs] at hu
      obtain ⟨w, hw, rfl⟩ := Runs.map_eq_ok.mp hu
      refine ⟨φ, flushTally p t a + w, ?_, ?_⟩
      · rw [tallyFrom_of_starts ht, ← h.startStep_eq hs, hw]
        rfl
      · rw [map_add, map_add, hφ, add_right_comm]
    | false =>
      rw [EntrySafe, if_neg (by simp [hs])] at hsafe
      rcases h.step hp hc hs with ⟨f, hf, hf'⟩ | ⟨s', t', es, hs', ht', hrel⟩
      · rw [tallyFrom, hf] at hu
        cases hu
      · rw [hs'] at hsafe
        rw [tallyFrom_cons_ok hs'] at hu
        cases he : totalTally p.statOption es with
        | error f =>
          rw [he] at hu
          cases hu
        | ok w =>
          cases hr : tallyFrom p s' ys with
          | error f =>
            rw [he, hr] at hu
            cases hu
          | ok x =>
            rw [he, hr] at hu
            obtain rfl := Except.ok.inj hu
            obtain ⟨φ, v, hv, hφ⟩ := ih hrel hsafe hr
            refine ⟨φ, w + v, ?_, ?_⟩
            · rw [tallyFrom_cons_ok ht', he, hv]
              rfl
            · rw [map_add, map_add, hφ, add_assoc]

lemma tallyFrom_append_of_run (hp : p.ancestor = []) {xs : List Action} {s' : State}
    {es : List Effect} (h : Runs.run (step p) s xs = .ok (s', es)) (zs : List Action) :
    tallyFrom p s (xs ++ zs) = do
      let u ← totalTally p.statOption es
      let v ← tallyFrom p s' zs
      return u + v := by
  induction xs generalizing s es with
  | nil =>
    cases h
    rw [List.nil_append]
    cases tallyFrom p s' zs with
    | error f => rfl
    | ok v => exact congrArg Except.ok (zero_add v).symm
  | cons a xs ih =>
    obtain ⟨t, head, tail, hs, hrest, rfl⟩ := Runs.run_cons_inv h
    rw [step_local hp s a xs (xs ++ zs)] at hs
    rw [List.cons_append, tallyFrom_cons_ok hs, ih hrest, totalTally_append]
    cases totalTally p.statOption head with
    | error f => rfl
    | ok u =>
      cases totalTally p.statOption tail with
      | error f => rfl
      | ok v =>
        cases tallyFrom p s' zs with
        | error f => rfl
        | ok w => exact congrArg Except.ok (add_assoc u v w).symm

lemma tallyFrom_append_of_error (hp : p.ancestor = []) {xs : List Action} {f : Fault}
    (h : Runs.run (step p) s xs = .error f) : ∃ g, ∀ zs, tallyFrom p s (xs ++ zs) = .error g := by
  induction xs generalizing s f with
  | nil => cases h
  | cons a xs ih =>
    cases hs : step p s a xs with
    | error g =>
      refine ⟨g, fun zs => ?_⟩
      rw [List.cons_append, tallyFrom, step_local hp s a (xs ++ zs) xs, hs]
      rfl
    | ok r =>
      have hcons : ∀ zs, tallyFrom p s (a :: xs ++ zs) = do
          let u ← totalTally p.statOption r.2
          let v ← tallyFrom p r.1 (xs ++ zs)
          return u + v := fun zs =>
        tallyFrom_cons_ok ((step_local hp s a (xs ++ zs) xs).trans hs)
      cases hu : totalTally p.statOption r.2 with
      | error g => exact ⟨g, fun zs => by rw [hcons, hu]; rfl⟩
      | ok u =>
        cases hrest : Runs.run (step p) r.1 xs with
        | error g =>
          obtain ⟨g, hg⟩ := ih hrest
          exact ⟨g, fun zs => by rw [hcons, hu, hg]; rfl⟩
        | ok q =>
          rw [Runs.run, hs] at h
          change (do let q ← Runs.run (step p) r.1 xs; return (q.1, r.2 ++ q.2)) = _ at h
          rw [hrest] at h
          cases h

lemma tallyFrom_error_cons {e : Action} (he : e.isError = true) (ys : List Action) :
    tallyFrom p s (e :: ys) = (tallyFrom p (errorStep s).1 ys).map
      (Tally.ofUnknown s.child.toChildren unknownCaller + ·) := by
  have hstep : step p s e ys = .ok ((errorStep s).1, (errorStep s).2) := by
    rw [step, if_pos he]
  have htotal : totalTally p.statOption (errorStep s).2 =
      .ok (Tally.ofUnknown s.child.toChildren unknownCaller) :=
    congrArg Except.ok (add_zero _)
  rw [tallyFrom_cons_ok hstep, htotal]
  cases tallyFrom p (errorStep s).1 ys <;> rfl

lemma tallyFrom_error_last {e : Action} (he : e.isError = true) :
    tallyFrom p s [e] = .ok (Tally.ofUnknown s.child.toChildren unknownCaller) := by
  rw [tallyFrom_error_cons he]
  exact congrArg Except.ok (add_zero _)

lemma related_errorStep {ys : List Action} (h : InterruptSafe s.noHwIntFromHead ys) :
    Related (errorStep s).1 State.init ys := by
  refine ⟨rfl, rfl, ?_⟩
  change s.noHwIntFromHead = true ∨ (s.noHwIntFromHead = false ∧ true = true ∧ _)
  cases hn : s.noHwIntFromHead with
  | true => exact Or.inl rfl
  | false =>
    rw [hn] at h
    exact Or.inr ⟨rfl, rfl, h⟩

end Isolation

/-- The whole list gives what the two parts give, each analysed alone and then merged. -/
def Splits (p : Param) (xs : List Action) (e : Action) (ys : List Action) : Prop :=
  (doAnalyze p (xs ++ e :: ys)).map FuncStat.toTally = do
    let a ← doAnalyze p (xs ++ [e])
    let b ← doAnalyze p ys
    return (a.merge b).toTally

lemma splits_iff (p : Param) (xs : List Action) (e : Action) (ys : List Action) :
    Splits p xs e ys ↔ tallyFrom p State.init (xs ++ e :: ys) = do
      let u ← tallyFrom p State.init (xs ++ [e])
      let v ← tallyFrom p State.init ys
      return u + v := by
  rw [Splits, ← doAnalyze_toTally, ← doAnalyze_toTally, ← doAnalyze_toTally]
  cases doAnalyze p (xs ++ [e]) with
  | error f => rfl
  | ok a => cases doAnalyze p ys <;> rfl

theorem error_isolation (p : Param) (hp : p.ancestor = []) (hc : p.codeBlock = false)
    (xs : List Action) (e : Action) (ys : List Action) (he : e.isError = true)
    (hint : ∀ s es, Runs.run (step p) State.init xs = .ok (s, es) →
      InterruptSafe s.noHwIntFromHead ys) :
    ((∀ s es, Runs.run (step p) State.init xs = .ok (s, es) → EntrySafe p (errorStep s).1 ys) →
      Splits p xs e ys) ∧
    (∀ stat, doAnalyze p (xs ++ e :: ys) = .ok stat → Splits p xs e ys →
      ∀ s es, Runs.run (step p) State.init xs = .ok (s, es) → EntrySafe p (errorStep s).1 ys) := by
  rw [splits_iff]
  cases hrun : Runs.run (step p) State.init xs with
  | error f =>
    obtain ⟨g, hg⟩ := tallyFrom_append_of_error hp hrun
    refine ⟨fun _ => ?_, fun _ _ _ _ _ h => by cases h⟩
    rw [hg, hg]
    rfl
  | ok r =>
    obtain ⟨s, es⟩ := r
    have hrel := related_errorStep (hint s es hrun)
    rw [tallyFrom_append_of_run hp hrun, tallyFrom_append_of_run hp hrun, tallyFrom_error_last he,
      tallyFrom_error_cons he]
    constructor
    · intro hsafe
      rw [tallyFrom_related_eq hp hc ys hrel (hsafe s es rfl)]
      cases totalTally p.statOption es with
      | error f => rfl
      | ok u =>
        cases tallyFrom p State.init ys with
        | error f => rfl
        | ok v => exact congrArg Except.ok (add_assoc u _ v).symm
    · intro stat hok heq s' es' h
      cases h
      by_contra hunsafe
      have htally := doAnalyze_toTally p (xs ++ e :: ys)
      rw [hok, tallyFrom_append_of_run hp hrun, tallyFrom_error_cons he] at htally
      cases hes : totalTally p.statOption es with
      | error f =>
        rw [hes] at htally
        cases htally
      | ok u =>
        cases hys : tallyFrom p (errorStep s).1 ys with
        | error f =>
          rw [hes, hys] at htally
          cases htally
        | ok w =>
          obtain ⟨φ, v, hv, hφ⟩ := tallyFrom_related_ne hp hc ys hrel hunsafe hys
          rw [hes, hys, hv] at heq
          have hsum := congrArg φ (Except.ok.inj heq)
          rw [map_add, map_add, map_add, map_add, hφ, add_assoc] at hsum
          have hone := add_left_cancel (add_left_cancel hsum)
          exact absurd (add_eq_left.mp hone) (by decide)

namespace Sample

def lostData (ts : UInt64) : Action :=
  { (default : Action) with ptType := ptActionTypeError, isError := true, ts := ts }

lemma run_enter (ts : UInt64) :
    Runs.run (step param) State.init [enter ts] = .ok (startStep param State.init (enter ts)) := rfl

end Sample

open Sample in
theorem caller_kept_across_loss :
    SortedByTime ([enter 0] ++ lostData 10 :: ((callItem 20 30).actions ++ [enter 40])) ∧
      (lostData 10).isError = true ∧
      ¬ Splits param [enter 0] (lostData 10) ((callItem 20 30).actions ++ [enter 40]) := by
  refine ⟨?_, rfl, fun h => ?_⟩
  · change List.Pairwise _ _
    decide
  · have hcount := congrArg (Except.map unknownCountHom) h
    revert hcount
    decide +kernel

open Sample in
theorem fresh_call_after_loss :
    Splits param [enter 0] (lostData 10) [enter 20, leave .ret 30] := by
  refine (error_isolation param rfl rfl [enter 0] (lostData 10) [enter 20, leave .ret 30] rfl ?_).1 ?_
  · intro s es h
    rw [run_enter] at h
    cases h
    exact trivial
  · intro s es h
    rw [run_enter] at h
    cases h
    exact Or.inr ⟨by decide, Or.inl rfl⟩

end PtPerf.Analysis
