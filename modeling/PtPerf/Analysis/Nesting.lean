import PtPerf.Support.Lists
import PtPerf.Analysis.Invocation

/-! Lists in which the activations of the target and of the ancestor are properly nested. -/

namespace PtPerf.Analysis

open PtPerf.Support PtPerf.Trace PtPerf.Stats

/-- A branch inside the target, reported in code-block mode. -/
def isInternalJump (a : Action) : Bool := a.type.isJump && a.fromTarget && a.toTarget

def isMark (a : Action) : Bool := a.ancestorBegin || a.ancestorEnd

structure OpensTarget (a : Action) : Prop where
  isError : a.isError = false
  entersTarget : entersTarget a = true
  notMark : isMark a = false
  notFromHead : leavesFromHead a = false

structure ClosesTarget (a : Action) : Prop where
  isError : a.isError = false
  notMark : isMark a = false
  schedBegin : a.schedBegin = false
  fromTarget : a.fromTarget = true
  notEnters : entersTarget a = false
  type : a.type = .ret ∨ a.type = .iret ∨ a.type = .trEndReturn ∨
    (a.type.isJump = true ∧ a.toTarget = false ∧ a.toSym.offset ≠ 0)

structure AncestorPair (b e : Action) : Prop where
  beginError : b.isError = false
  beginEnters : entersTarget b = false
  beginMark : b.ancestorBegin = true
  beginEnd : b.ancestorEnd = false
  endError : e.isError = false
  endEnters : entersTarget e = false
  endBegin : e.ancestorBegin = false
  endMark : e.ancestorEnd = true

structure SchedPair (b e : Action) : Prop where
  beginError : b.isError = false
  beginEnters : entersTarget b = false
  beginMark : isMark b = false
  schedBegin : b.schedBegin = true
  beginType : b.type = .call ∨ b.type = .trStart
  endError : e.isError = false
  endEnters : entersTarget e = false
  endMark : isMark e = false
  schedEnd : e.schedEnd = true
  endType : e.type = .ret ∨ e.type = .trEndReturn

structure InternalJump (a : Action) : Prop extends Plain a where
  jump : isInternalJump a = true
  offset : a.toSym.offset ≠ 0

def Excursion (leave back : Action) : Prop :=
  Item.IsCallReturn ⟨leave, back⟩ ∨ Item.IsTraceEndStart ⟨leave, back⟩

/-- The branches of some code, in the target's own frame or outside of it. -/
inductive Nested : Bool → List Action → Prop
  | nil {frame} : Nested frame []
  | target {frame start inside finish rest} : OpensTarget start → Nested true inside →
      ClosesTarget finish → Nested frame rest →
      Nested frame (start :: (inside ++ finish :: rest))
  | ancestor {frame b inside e rest} : AncestorPair b e → Nested false inside → Nested frame rest →
      Nested frame (b :: (inside ++ e :: rest))
  | sched {frame b inside e rest} : SchedPair b e → Nested false inside → Nested frame rest →
      Nested frame (b :: (inside ++ e :: rest))
  | excursion {leave inside back rest} : Excursion leave back → Nested false inside →
      Nested true rest → Nested true (leave :: (inside ++ back :: rest))
  | jump {a rest} : InternalJump a → Nested true rest → Nested true (a :: rest)

structure Activation where
  before : List Action
  start : Action
  inside : List Action
  finish : Action
  after : List Action

namespace Activation

def actions (t : Activation) : List Action :=
  t.before ++ t.start :: (t.inside ++ t.finish :: t.after)

def latency (t : Activation) : UInt64 := t.finish.ts - t.start.ts

structure IsTarget (t : Activation) : Prop where
  start : OpensTarget t.start
  inside : Nested true t.inside
  finish : ClosesTarget t.finish

structure IsAncestor (t : Activation) : Prop where
  pair : AncestorPair t.start t.finish
  inside : Nested false t.inside

structure Encloses (a t : Activation) : Prop where
  before : ∃ u, t.before = a.before ++ a.start :: u
  after : ∃ v, t.after = v ++ a.finish :: a.after
  same : a.actions = t.actions

end Activation

def ContainsTarget (l : List Action) : Prop := ∃ t : Activation, t.actions = l ∧ t.IsTarget

structure Activation.IsInnermost (t : Activation) : Prop extends IsTarget t where
  alone : ¬ ContainsTarget t.inside

lemma ContainsTarget.append {m : List Action} (h : ContainsTarget m) (u v : List Action) :
    ContainsTarget (u ++ (m ++ v)) := by
  obtain ⟨t, rfl, ht⟩ := h
  refine ⟨⟨u ++ t.before, t.start, t.inside, t.finish, t.after ++ v⟩, ?_, ht.start, ht.inside, ht.finish⟩
  simp [Activation.actions]

/-- What holds of an action in a properly nested list, whatever its role. -/
structure Regular (a : Action) : Prop where
  isError : a.isError = false
  enters : entersTarget a = true → isMark a = false ∧ leavesFromHead a = false
  onlyBegin : a.ancestorBegin = true → a.ancestorEnd = false

section

variable {a b e : Action}

lemma Plain.notMark (h : Plain a) : isMark a = false := by
  rw [isMark, h.ancestorBegin, h.ancestorEnd]
  rfl

lemma begin_isMark (h : a.ancestorBegin = true) : isMark a = true := by
  rw [isMark, h, Bool.true_or]

lemma end_isMark (h : a.ancestorEnd = true) : isMark a = true := by
  rw [isMark, h, Bool.or_true]

lemma regular_of_notMark (herror : a.isError = false) (hmark : isMark a = false)
    (hhead : entersTarget a = true → leavesFromHead a = false) : Regular a where
  isError := herror
  enters henter := ⟨hmark, hhead henter⟩
  onlyBegin hbegin := by
    rw [begin_isMark hbegin] at hmark
    cases hmark

lemma regular_of_notEnters (herror : a.isError = false) (henters : entersTarget a = false)
    (honly : a.ancestorBegin = true → a.ancestorEnd = false) : Regular a where
  isError := herror
  enters h := by
    rw [h] at henters
    cases henters
  onlyBegin := honly

lemma Leaves.notEnters (h : Leaves a) : entersTarget a = false := by
  rw [entersTarget, h.toTarget, Bool.and_false]

lemma Excursion.leaves (h : Excursion a b) : Leaves a := by
  rcases h with h | h
  · exact h.leave
  · exact h.leave

lemma Excursion.back_plain (h : Excursion a b) : Plain b := by
  rcases h with h | h
  · exact h.back.toPlain
  · exact h.back

lemma Excursion.back_notFromHead (h : Excursion a b) : leavesFromHead b = false := by
  rcases h with h | h
  · have hf : b.fromTarget = false := h.back.fromTarget
    simp [leavesFromHead, hf]
  · have ht : b.type = .trStart := h.traceStart
    simp [leavesFromHead, ht]

end

lemma Nested.forall_mem {P : Action → Prop} (hopens : ∀ a, OpensTarget a → P a)
    (hcloses : ∀ a, ClosesTarget a → P a) (hancestor : ∀ b e, AncestorPair b e → P b ∧ P e)
    (hsched : ∀ b e, SchedPair b e → P b ∧ P e)
    (hexcursion : ∀ leave back, Excursion leave back → P leave ∧ P back)
    (hjump : ∀ a, InternalJump a → P a) {frame : Bool} {l : List Action} (h : Nested frame l) :
    ∀ a ∈ l, P a := by
  have span : ∀ {o c : Action} {inside rest : List Action}, P o ∧ P c → (∀ a ∈ inside, P a) →
      (∀ a ∈ rest, P a) → ∀ a ∈ o :: (inside ++ c :: rest), P a := by
    rintro o c inside rest ⟨ho, hc⟩ hi hr a ha
    simp only [List.mem_cons, List.mem_append] at ha
    rcases ha with rfl | ha | rfl | ha
    · exact ho
    · exact hi a ha
    · exact hc
    · exact hr a ha
  induction h with
  | nil => exact fun a ha => absurd ha List.not_mem_nil
  | target hs _ hf _ ihi ihr => exact span ⟨hopens _ hs, hcloses _ hf⟩ ihi ihr
  | ancestor hp _ _ ihi ihr => exact span (hancestor _ _ hp) ihi ihr
  | sched hp _ _ ihi ihr => exact span (hsched _ _ hp) ihi ihr
  | excursion he _ _ ihi ihr => exact span (hexcursion _ _ he) ihi ihr
  | jump hj _ ihr =>
    intro x hx
    rcases List.mem_cons.mp hx with rfl | hx
    · exact hjump x hj
    · exact ihr x hx

lemma Nested.regular {frame : Bool} {l : List Action} (h : Nested frame l) : ∀ a ∈ l, Regular a := by
  refine Nested.forall_mem ?_ ?_ ?_ ?_ ?_ ?_ h
  · intro a ha
    exact regular_of_notMark ha.isError ha.notMark fun _ => ha.notFromHead
  · intro a ha
    exact regular_of_notMark ha.isError ha.notMark fun h => absurd h (by simp [ha.notEnters])
  · intro b e hp
    exact ⟨regular_of_notEnters hp.beginError hp.beginEnters fun _ => hp.beginEnd,
      regular_of_notEnters hp.endError hp.endEnters fun h => absurd h (by simp [hp.endBegin])⟩
  · intro b e hp
    exact ⟨regular_of_notMark hp.beginError hp.beginMark fun h => absurd h (by simp [hp.beginEnters]),
      regular_of_notMark hp.endError hp.endMark fun h => absurd h (by simp [hp.endEnters])⟩
  · intro leave back he
    exact ⟨regular_of_notMark he.leaves.isError he.leaves.notMark
        fun h => absurd h (by simp [he.leaves.notEnters]),
      regular_of_notMark he.back_plain.isError he.back_plain.notMark fun _ => he.back_notFromHead⟩
  · intro a ha
    refine regular_of_notMark ha.isError ha.notMark fun h => ?_
    simp [entersTarget, ha.offset] at h

lemma Nested.touches {frame : Bool} {l : List Action} (h : Nested frame l) : ∀ a ∈ l,
    a.type.isJump = true → isMark a = true ∨ a.fromTarget = true ∨ a.toTarget = true := by
  refine Nested.forall_mem ?_ ?_ ?_ ?_ ?_ ?_ h
  · exact fun a ha _ => Or.inr (Or.inr (Bool.and_eq_true_iff.mp ha.entersTarget).2)
  · exact fun a ha _ => Or.inr (Or.inl ha.fromTarget)
  · exact fun b e hp => ⟨fun _ => Or.inl (begin_isMark hp.beginMark), fun _ => Or.inl (end_isMark hp.endMark)⟩
  · intro b e hp
    constructor
    · intro hj
      rcases hp.beginType with ht | ht <;> simp [ht, BranchType.isJump] at hj
    · intro hj
      rcases hp.endType with ht | ht <;> simp [ht, BranchType.isJump] at hj
  · intro leave back he
    refine ⟨fun _ => Or.inr (Or.inl he.leaves.fromTarget), fun _ => Or.inr (Or.inr ?_)⟩
    rcases he with he | he
    · exact he.back.toTarget
    · exact he.toTarget
  · intro a ha _
    have hj := ha.jump
    simp only [isInternalJump, Bool.and_eq_true] at hj
    exact Or.inr (Or.inr hj.2)

/-- The last branch so far that begins or ends an activation of the ancestor. -/
def lastMark (l : List Action) : Option Action := (l.filter isMark).getLast?

section LastMark

variable {a : Action}

lemma lastMark_append (l m : List Action) : lastMark (l ++ m) = (lastMark m).or (lastMark l) := by
  rw [lastMark, List.filter_append, List.getLast?_append, lastMark, lastMark]

lemma lastMark_of_unmarked {l : List Action} (h : ∀ a ∈ l, isMark a = false) : lastMark l = none := by
  rw [lastMark, List.filter_eq_nil_iff.mpr fun a ha => by simp [h a ha], List.getLast?_nil]

lemma lastMark_cons_unmarked (h : isMark a = false) (l : List Action) :
    lastMark (a :: l) = lastMark l := by
  rw [lastMark, List.filter_cons_of_neg (by simp [h]), lastMark]

lemma lastMark_cons_marked (h : isMark a = true) (l : List Action) :
    lastMark (a :: l) = (lastMark l).or (some a) := by
  have happ := lastMark_append [a] l
  rwa [List.singleton_append, show lastMark [a] = some a by simp [lastMark, h]] at happ

lemma lastMark_span (o c : Action) (inside rest : List Action) (hc : isMark c = false)
    (ho : isMark o = false) :
    lastMark (o :: (inside ++ c :: rest)) = (lastMark rest).or (lastMark inside) := by
  rw [lastMark_cons_unmarked ho, lastMark_append, lastMark_cons_unmarked hc]

lemma lastMark_snoc (l : List Action) (a : Action) :
    lastMark (l ++ [a]) = if isMark a then some a else lastMark l := by
  rw [lastMark_append]
  cases h : isMark a <;> simp [lastMark, h]

lemma lastMark_eq_some {l : List Action} {b : Action} (h : lastMark l = some b) :
    ∃ u v, l = u ++ b :: v ∧ isMark b = true ∧ ∀ x ∈ v, isMark x = false := by
  induction l using List.reverseRecOn with
  | nil => cases h
  | append_singleton l a ih =>
    rw [lastMark_snoc] at h
    cases ha : isMark a with
    | true =>
      rw [ha] at h
      cases h
      exact ⟨l, [], rfl, ha, fun x hx => absurd hx List.not_mem_nil⟩
    | false =>
      rw [ha] at h
      obtain ⟨u, v, rfl, hb, hv⟩ := ih h
      refine ⟨u, v ++ [a], by simp, hb, ?_⟩
      intro x hx
      rcases List.mem_append.mp hx with hx | hx
      · exact hv x hx
      · rw [List.mem_singleton.mp hx, ha]

end LastMark

lemma Nested.lastMark_end {frame : Bool} {l : List Action} (h : Nested frame l) {b : Action}
    (hb : lastMark l = some b) : b.ancestorBegin = false := by
  have later : ∀ {l m : List Action}, (∀ {b}, lastMark l = some b → b.ancestorBegin = false) →
      (∀ {b}, lastMark m = some b → b.ancestorBegin = false) →
      ∀ {b}, (lastMark m).or (lastMark l) = some b → b.ancestorBegin = false := by
    intro l m hl hm b hb
    rcases Option.or_eq_some_iff.mp hb with hb | ⟨-, hb⟩
    · exact hm hb
    · exact hl hb
  induction h generalizing b with
  | nil => cases hb
  | target hs _ hf _ ihi ihr =>
    rw [lastMark_span _ _ _ _ hf.notMark hs.notMark] at hb
    exact later ihi ihr hb
  | ancestor hp _ _ _ ihr =>
    rw [lastMark_cons_marked (begin_isMark hp.beginMark), lastMark_append,
      lastMark_cons_marked (end_isMark hp.endMark)] at hb
    rcases Option.or_eq_some_iff.mp hb with hb | ⟨hnone, -⟩
    · rcases Option.or_eq_some_iff.mp hb with hb | ⟨hnone, -⟩
      · rcases Option.or_eq_some_iff.mp hb with hb | ⟨-, hb⟩
        · exact ihr hb
        · cases hb
          exact hp.endBegin
      · simp at hnone
    · simp at hnone
  | sched hp _ _ ihi ihr =>
    rw [lastMark_span _ _ _ _ hp.endMark hp.beginMark] at hb
    exact later ihi ihr hb
  | excursion he _ _ ihi ihr =>
    rw [lastMark_span _ _ _ _ he.back_plain.notMark he.leaves.notMark] at hb
    exact later ihi ihr hb
  | jump hj _ ihr =>
    rw [lastMark_cons_unmarked hj.notMark] at hb
    exact ihr hb

/-- The begin `b`, followed by `v`, has its own end in `w`. -/
def EndsIn (b : Action) (v w : List Action) : Prop :=
  ∃ w₁ e w₂, w = w₁ ++ e :: w₂ ∧ AncestorPair b e ∧ Nested false (v ++ w₁)

lemma EndsIn.of_span {o c b : Action} {inside rest : List Action} (hc : b ≠ c)
    (hopen : ∀ {v w}, inside ++ c :: rest = v ++ w → b = o → (∀ x ∈ v, isMark x = false) → EndsIn b v w)
    (hinside : ∀ {u v w}, inside = u ++ b :: (v ++ w) → (∀ x ∈ v, isMark x = false) → EndsIn b v w)
    (hrest : ∀ {u v w}, rest = u ++ b :: (v ++ w) → (∀ x ∈ v, isMark x = false) → EndsIn b v w)
    {u v w : List Action} (hl : o :: (inside ++ c :: rest) = u ++ b :: (v ++ w))
    (hv : ∀ x ∈ v, isMark x = false) : EndsIn b v w := by
  rcases span_eq_append_cons hl with ⟨-, rfl, hw⟩ | ⟨u', w', -, hi, hw⟩ | ⟨-, rfl, -⟩ | ⟨u', -, hr⟩
  · exact hopen hw.symm rfl hv
  · rcases List.append_eq_append_iff.mp hw.symm with ⟨m, rfl, -⟩ | ⟨m, rfl, rfl⟩
    · have hnil : inside = u' ++ b :: (w' ++ []) := by rw [List.append_nil, hi]
      obtain ⟨w₁, e, w₂, h, -⟩ := hinside hnil fun x hx => hv x (by simp [hx])
      simp at h
    · obtain ⟨w₁, e, w₂, rfl, hpair, hn⟩ := hinside hi hv
      exact ⟨w₁, e, w₂ ++ c :: rest, by simp, hpair, hn⟩
  · exact absurd rfl hc
  · exact hrest hr hv

lemma Nested.exists_end {frame : Bool} {l u v w : List Action} {b : Action} (h : Nested frame l)
    (hl : l = u ++ b :: (v ++ w)) (hb : b.ancestorBegin = true) (hv : ∀ x ∈ v, isMark x = false) :
    EndsIn b v w := by
  have hmark : ∀ {x : Action}, isMark x = false → b ≠ x := by
    rintro x hx rfl
    rw [begin_isMark hb] at hx
    cases hx
  induction h generalizing u v w with
  | nil => simp at hl
  | target hs _ hf _ ihi ihr =>
    exact EndsIn.of_span (hmark hf.notMark) (fun _ ho => absurd ho (hmark hs.notMark)) ihi ihr hl hv
  | @ancestor _ o inside e rest hp hn _ ihi ihr =>
    refine EndsIn.of_span ?_ ?_ ihi ihr hl hv
    · rintro rfl
      simp [hp.endBegin] at hb
    · rintro v w hw rfl hv
      rcases List.append_eq_append_iff.mp hw with ⟨m, rfl, hm⟩ | ⟨m, rfl, rfl⟩
      · rcases List.cons_eq_append_iff.mp hm with ⟨rfl, rfl⟩ | ⟨m', rfl, -⟩
        · exact ⟨[], e, rest, by simp, hp, by simpa using hn⟩
        · have he := hv e (by simp)
          rw [end_isMark hp.endMark] at he
          cases he
      · exact ⟨m, e, rest, rfl, hp, hn⟩
  | sched hp _ _ ihi ihr =>
    exact EndsIn.of_span (hmark hp.endMark) (fun _ ho => absurd ho (hmark hp.beginMark)) ihi ihr hl hv
  | excursion he _ _ ihi ihr =>
    exact EndsIn.of_span (hmark he.back_plain.notMark)
      (fun _ ho => absurd ho (hmark he.leaves.notMark)) ihi ihr hl hv
  | jump hj _ ihr =>
    rcases List.cons_eq_append_iff.mp hl with ⟨-, hx⟩ | ⟨u', -, hr⟩
    · cases hx
      exact absurd rfl (hmark hj.notMark)
    · exact ihr hr hv

end PtPerf.Analysis
