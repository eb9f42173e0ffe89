import PtPerf.Analysis.Rounds

/-! The ancestor filter. The analysis remembers one begin of the ancestor, forgets it at the next
end, and measures from the one to the other, whichever activations they belong to. -/

namespace PtPerf.Analysis

open PtPerf.Support PtPerf.Trace PtPerf.Stats

def InRange (p : Param) (latency : UInt64) : Prop :=
  p.ancestorLatency.1 ≤ latency ∧ latency ≤ p.ancestorLatency.2

/-- The last mark before this point is a begin, and the next end is in range of it. -/
def Open (p : Param) (before after : List Action) : Prop :=
  ∃ b, lastMark before = some b ∧ b.ancestorBegin = true ∧
    (p.ancestorLatency = (0, uint64Max) ∨
      ∃ e, after.find? (·.ancestorEnd) = some e ∧ InRange p (e.ts - b.ts))

/-- The last branch that was let through is an interrupt at the first instruction of the target. -/
inductive HeadInterrupted (p : Param) : List Action → List Action → Prop
  | head {before a after} : chained a = true → Open p before (a :: after) →
      leavesFromHead a = true → HeadInterrupted p (before ++ [a]) after
  | later {before a after} : HeadInterrupted p before (a :: after) →
      ¬ (chained a = true ∧ Open p before (a :: after)) → HeadInterrupted p (before ++ [a]) after

namespace Activation

/-- What comes once the activation has begun, and what comes once it is about to end. -/
def fromStart (t : Activation) : List Action := t.start :: (t.inside ++ t.finish :: t.after)

def fromFinish (t : Activation) : List Action := t.finish :: t.after

/-- The chain that begins with the activation's first action is handed to `stat.add` at its
last one. -/
def IsRecorded (p : Param) (t : Activation) : Prop :=
  ∃ s s₁ s₂ s₃ out₁ out₃, Runs.upTo (step p) State.init t.before t.fromStart = .ok s ∧
    starts s t.start = true ∧ step p s t.start (t.inside ++ t.fromFinish) = .ok (s₁, out₁) ∧
    Runs.upTo (step p) s₁ t.inside t.fromFinish = .ok s₂ ∧
    step p s₂ t.finish t.after = .ok (s₃, out₃) ∧
    ∃ latS child, Effect.add t.start (rewriteJump t.finish) latS child ∈ out₃

structure IsFollowed (p : Param) (t : Activation) : Prop where
  opened : Open p (t.before ++ t.start :: t.inside) t.fromFinish
  head : ¬ HeadInterrupted p t.before t.fromStart
  finish : t.finish.schedEnd = false
  inside : ∀ a ∈ t.inside, a.fromTarget = true → a.type ≠ .trEndSyscall

end Activation

section Gate

variable {p : Param} {s s' : State} {a : Action} {before rest : List Action} {out : List Effect}

lemma withinAncestorLatency_iff (he : a.ancestorEnd = false) (rest : List Action) :
    withinAncestorLatency p a rest = true ↔ p.ancestorLatency = (0, uint64Max) ∨
      ∃ e, rest.find? (·.ancestorEnd) = some e ∧ InRange p (e.ts - a.ts) := by
  have hdefault : (p.ancestorLatency.1 != 0 || p.ancestorLatency.2 != uint64Max) = true ↔
      p.ancestorLatency ≠ (0, uint64Max) := by
    rw [Ne, Prod.ext_iff, not_and_or, Bool.or_eq_true, bne_iff_ne, bne_iff_ne]
  unfold withinAncestorLatency
  split
  · rename_i h
    have hne := hdefault.mp h
    rw [List.find?_cons_of_neg (by simp [he])]
    cases rest.find? (·.ancestorEnd) with
    | none => simp [hne]
    | some e => simp [hne, InRange]
  · rename_i h
    have heq : p.ancestorLatency = (0, uint64Max) := not_not.mp fun hne => h (hdefault.mpr hne)
    simp [heq]

lemma open_snoc_begin (ha : Regular a) (hb : a.ancestorBegin = true) (before rest : List Action) :
    Open p (before ++ [a]) rest ↔ withinAncestorLatency p a rest = true := by
  rw [withinAncestorLatency_iff (ha.onlyBegin hb), Open, lastMark_snoc, if_pos (begin_isMark hb)]
  constructor
  · rintro ⟨b, hlast, -, h⟩
    cases hlast
    exact h
  · intro h
    exact ⟨a, rfl, hb, h⟩

lemma not_open_snoc_end (hb : a.ancestorBegin = false) (he : a.ancestorEnd = true)
    (before rest : List Action) : ¬ Open p (before ++ [a]) rest := by
  rintro ⟨b, hlast, hbegin, -⟩
  rw [lastMark_snoc, if_pos (end_isMark he)] at hlast
  cases hlast
  rw [hb] at hbegin
  cases hbegin

lemma open_snoc_unmarked (hm : isMark a = false) (before rest : List Action) :
    Open p (before ++ [a]) rest ↔ Open p before (a :: rest) := by
  have he : a.ancestorEnd = false := (Bool.or_eq_false_iff.mp hm).2
  rw [Open, Open, lastMark_snoc, hm, if_neg (by simp), List.find?_cons_of_neg (by simp [he])]

lemma headInterrupted_snoc (before rest : List Action) (a : Action) :
    HeadInterrupted p (before ++ [a]) rest ↔
      (chained a = true ∧ Open p before (a :: rest) ∧ leavesFromHead a = true) ∨
        (¬ (chained a = true ∧ Open p before (a :: rest)) ∧ HeadInterrupted p before (a :: rest)) := by
  constructor
  · intro h
    generalize hl : before ++ [a] = l at h
    cases h with
    | head hc ho hh =>
      obtain ⟨rfl, hsame⟩ := List.append_inj' hl rfl
      cases hsame
      exact Or.inl ⟨hc, ho, hh⟩
    | later hi hn =>
      obtain ⟨rfl, hsame⟩ := List.append_inj' hl rfl
      cases hsame
      exact Or.inr ⟨hn, hi⟩
  · rintro (⟨hc, ho, hh⟩ | ⟨hn, hi⟩)
    · exact .head hc ho hh
    · exact .later hi hn

/-- What the state knows about the list so far. -/
structure Watches (p : Param) (before rest : List Action) (s : State) : Prop where
  regular : ∀ a ∈ rest, Regular a
  opened : s.ancestorBegin ≠ none ↔ Open p before rest
  head : s.noHwIntFromHead = false ↔ HeadInterrupted p before rest

lemma watches_init (h : ∀ a ∈ rest, Regular a) : Watches p [] rest State.init where
  regular := h
  opened := by
    constructor
    · exact fun hne => absurd rfl hne
    · rintro ⟨b, hb, -⟩
      cases hb
  head := by
    constructor
    · exact fun h => by cases h
    · intro h
      generalize hl : ([] : List Action) = l at h
      cases h <;> simp at hl

lemma headInterrupted_unchained (hc : chained a = false) (before rest : List Action) :
    HeadInterrupted p (before ++ [a]) rest ↔ HeadInterrupted p before (a :: rest) := by
  simp [headInterrupted_snoc, hc]

lemma Watches.step (hp : p.ancestor ≠ []) (hw : Watches p before (a :: rest) s)
    (h : step p s a rest = .ok (s', out)) : Watches p (before ++ [a]) rest s' := by
  have ha := hw.regular a List.mem_cons_self
  have hrest : ∀ b ∈ rest, Regular b := fun b hb => hw.regular b (List.mem_cons_of_mem a hb)
  cases round_of_step hp ha.isError h with
  | start hs hout =>
    cases hout
    obtain ⟨henter, hflag⟩ : entersTarget a = true ∧ s.noHwIntFromHead = true := by
      simpa [starts, ha.isError] using hs
    obtain ⟨hm, hh⟩ := ha.enters henter
    have hnot : ¬ HeadInterrupted p before (a :: rest) := by simp [← hw.head, hflag]
    refine ⟨hrest, hw.opened.trans (open_snoc_unmarked hm _ _).symm, hw.head.trans ?_⟩
    simp [headInterrupted_snoc, hnot, hh]
  | mark hs hm hout =>
    have hc : chained a = false := by simp [chained, hm]
    have hopen : (ancestorStep p s a rest).1.ancestorBegin ≠ none ↔ Open p (before ++ [a]) rest := by
      cases hb : a.ancestorBegin with
      | true =>
        rw [open_snoc_begin ha hb]
        cases hin : withinAncestorLatency p a rest <;> simp [ancestorStep, hb, hin]
      | false =>
        have he : a.ancestorEnd = true := by simpa [isMark, hb] using hm
        simp [ancestorStep, hb, he, not_open_snoc_end hb he]
    have hflag : (ancestorStep p s a rest).1.noHwIntFromHead = s.noHwIntFromHead := by
      unfold ancestorStep
      split
      · rfl
      · split <;> rfl
    rw [← hout] at hopen hflag
    refine ⟨hrest, hopen, ?_⟩
    rw [hflag, headInterrupted_unchained hc, hw.head]
  | skip hs hm hr hs' hout =>
    subst hs'
    have hnot : ¬ Open p before (a :: rest) := by simp [← hw.opened, hr]
    refine ⟨hrest, hw.opened.trans (open_snoc_unmarked hm _ _).symm, hw.head.trans ?_⟩
    simp [headInterrupted_snoc, hnot]
  | aside hs hm hc hstack hbegin hflag hout =>
    refine ⟨hrest, ?_, ?_⟩
    · rw [hbegin, open_snoc_unmarked hm, hw.opened]
    · rw [hflag, headInterrupted_unchained hc, hw.head]
  | chain hs hr hc hchain =>
    obtain ⟨hbegin, hflag⟩ := chainStep_gate hchain
    have hm : isMark a = false := by
      simp only [chained, Bool.and_eq_true, Bool.not_eq_true'] at hc
      exact hc.1.1.1
    refine ⟨hrest, ?_, ?_⟩
    · rw [hbegin, open_snoc_unmarked hm, hw.opened]
    · simp [hflag, headInterrupted_snoc, hc, hw.opened.mp hr]

lemma watches_upTo (hp : p.ancestor ≠ []) (hl : ∀ a ∈ before ++ rest, Regular a)
    (h : Runs.upTo (step p) State.init before rest = .ok s) : Watches p before rest s := by
  have hinv := Runs.upTo_invariant (fun _ _ _ _ _ _ hw hs => Watches.step hp hw hs)
    (watches_init (p := p) hl) h
  rwa [List.nil_append] at hinv

end Gate

section Recording

variable {p : Param} {t : Activation} {s s' : State} {a start : Action} {rest : List Action}
  {out : List Effect}

lemma open_append_unmarked {l : List Action} (hl : ∀ a ∈ l, isMark a = false)
    (before rest : List Action) : Open p (before ++ l) rest ↔ Open p before (l ++ rest) := by
  induction l generalizing before with
  | nil => rw [List.append_nil, List.nil_append]
  | cons a l ih =>
    rw [List.append_cons, ih (fun b hb => hl b (by simp [hb])),
      open_snoc_unmarked (hl a (by simp)), List.cons_append]

/-- Where the last mark is a begin, nothing of the ancestor lies inside the code just run. -/
lemma Nested.unmarked {before inside : List Action} {b : Action} (hn : Nested true inside)
    (hlast : lastMark (before ++ inside) = some b) (hb : b.ancestorBegin = true) :
    ∀ a ∈ inside, isMark a = false := by
  rw [lastMark_append] at hlast
  cases hin : lastMark inside with
  | none =>
    rw [lastMark, List.getLast?_eq_none_iff, List.filter_eq_nil_iff] at hin
    exact fun a ha => by simpa using hin a ha
  | some c =>
    rw [hin, Option.some_or] at hlast
    cases hlast
    rw [hn.lastMark_end hin] at hb
    cases hb

lemma ClosesTarget.type_rewriteJump (h : ClosesTarget a) :
    (rewriteJump a).type = .ret ∨ (rewriteJump a).type = .iret ∨ (rewriteJump a).type = .trEndReturn := by
  rcases h.type with ht | ht | ht | ⟨hj, -, ho⟩
  · rw [rewriteJump_of_not_jump a (by rw [ht]; rfl), ht]
    exact Or.inl rfl
  · rw [rewriteJump_of_not_jump a (by rw [ht]; rfl), ht]
    exact Or.inr (Or.inl rfl)
  · rw [rewriteJump_of_not_jump a (by rw [ht]; rfl), ht]
    exact Or.inr (Or.inr rfl)
  · left
    simp [rewriteJump, hj, ho]

lemma ClosesTarget.notInternal (h : ClosesTarget a) : isInternalJump a = false := by
  rcases h.type with ht | ht | ht | ⟨-, hto, -⟩
  · simp [isInternalJump, ht, BranchType.isJump]
  · simp [isInternalJump, ht, BranchType.isJump]
  · simp [isInternalJump, ht, BranchType.isJump]
  · simp [isInternalJump, hto]

lemma ClosesTarget.chained_iff (h : ClosesTarget a) : chained a = true ↔ a.schedEnd = false := by
  simp [chained, h.notMark, h.schedBegin, h.notInternal]

lemma dispatch_closes (h : ClosesTarget a) (s : State) :
    dispatch p s (rewriteJump a) = .ok (returnStep p s (rewriteJump a)) :=
  dispatch_returning h.type_rewriteJump

lemma returnStep_adds_iff {call : Action} (ha : a.fromTarget = true) (hcall : call.toTarget = true)
    (s : State) : (∃ latS child, Effect.add call a latS child ∈ (returnStep p s a).2) ↔
      s.stack = [call] := by
  rcases hs : s.stack with - | ⟨top, - | ⟨next, frames⟩⟩
  · simp [returnStep, hs]
  · cases htop : top.toTarget with
    | true => simp [returnStep, hs, ha, htop, eq_comm]
    | false =>
      have hne : top ≠ call := fun h => by simp [h, hcall] at htop
      simp only [returnStep, hs, htop, ha, Bool.and_false, Bool.false_eq_true, if_false]
      split <;> simp [hne]
  · simp only [returnStep, hs]
    split <;> simp

/-- The last action of an activation is handed on exactly when the filter lets it through and
the activation's own frame is the only one. -/
lemma finish_adds_iff (hp : p.ancestor ≠ []) (hf : ClosesTarget a) (hstart : start.toTarget = true)
    (h : step p s a rest = .ok (s', out)) :
    (∃ latS child, Effect.add start (rewriteJump a) latS child ∈ out) ↔
      s.ancestorBegin ≠ none ∧ a.schedEnd = false ∧ s.stack = [start] := by
  cases round_of_step hp hf.isError h with
  | start hs => simp [starts_of_notEnters hf.notEnters] at hs
  | mark _ hm => simp [hf.notMark] at hm
  | skip _ _ hr _ hout => simp [hr, hout]
  | aside _ _ hc _ _ _ hout =>
    have hsched : a.schedEnd ≠ false := fun hn => by simp [hf.chained_iff.mpr hn] at hc
    rcases hout with rfl | rfl <;> simp [hsched]
  | chain _ hr hc hchain =>
    have hsched := hf.chained_iff.mp hc
    obtain ⟨u, hd, -⟩ := chainStep_inv hchain
    rw [dispatch_closes hf] at hd
    have hadds := returnStep_adds_iff (p := p) (a := rewriteJump a) (by simpa using hf.fromTarget) hstart
      { s with noHwIntFromHead := !leavesFromHead (rewriteJump a) }
    rw [Except.ok.inj hd] at hadds
    simpa [hr, hsched] using hadds

lemma hasSyscall_eq_false {l : List Action} :
    hasSyscall l = false ↔ ∀ a ∈ l, a.fromTarget = true → a.type ≠ .trEndSyscall := by
  simp [hasSyscall]

/-- The states in which the analysis meets the parts of an activation. -/
structure Activation.Reached (p : Param) (t : Activation) (s s₁ s₂ s₃ : State) (out : List Effect) :
    Prop where
  before : Runs.upTo (step p) State.init t.before t.fromStart = .ok s
  start : ∃ out₁, step p s t.start (t.inside ++ t.fromFinish) = .ok (s₁, out₁)
  inside : Runs.upTo (step p) s₁ t.inside t.fromFinish = .ok s₂
  finish : step p s₂ t.finish t.after = .ok (s₃, out)

lemma Activation.exists_reached {r : State × List Effect}
    (h : Runs.run (step p) State.init t.actions = .ok r) :
    ∃ s s₁ s₂ s₃ out, t.Reached p s s₁ s₂ s₃ out := by
  obtain ⟨s, tail, hb, hr⟩ := Runs.upTo_of_run h
  obtain ⟨s₁, head, tail₁, hs, hr, -⟩ := Runs.run_cons_inv hr
  obtain ⟨s₂, tail₂, hi, hr⟩ := Runs.upTo_of_run hr
  obtain ⟨s₃, head₃, tail₃, hf, -, -⟩ := Runs.run_cons_inv hr
  exact ⟨s, s₁, s₂, s₃, head₃, hb, ⟨head, hs⟩, hi, hf⟩

lemma Activation.Reached.added_iff {s s₁ s₂ s₃ : State} (hp : p.ancestor ≠ [])
    (hr : ∀ a ∈ t.actions, Regular a) (ht : t.IsInnermost) (h : t.Reached p s s₁ s₂ s₃ out) :
    (starts s t.start = true ∧
      ∃ latS child, Effect.add t.start (rewriteJump t.finish) latS child ∈ out) ↔ t.IsFollowed p := by
  have hwatch : Watches p t.before t.fromStart s := watches_upTo hp hr h.before
  have hmid : Runs.upTo (step p) State.init (t.before ++ t.start :: t.inside) t.fromFinish = .ok s₂ := by
    obtain ⟨out₁, hs⟩ := h.start
    rw [Runs.upTo_append]
    exact Runs.bind_eq_ok.mpr ⟨s, h.before, Runs.bind_eq_ok.mpr ⟨(s₁, out₁), hs, h.inside⟩⟩
  have hwatch₂ := watches_upTo hp (by simpa [Activation.actions, Activation.fromFinish] using hr) hmid
  have hstarts : starts s t.start = true ↔ ¬ HeadInterrupted p t.before t.fromStart := by
    rw [← hwatch.head, starts, ht.start.isError, ht.start.entersTarget]
    simp
  have htarget : t.start.toTarget = true := (Bool.and_eq_true_iff.mp ht.start.entersTarget).2
  have hstack : starts s t.start = true → s₂.ancestorBegin ≠ none →
      (s₂.stack = [t.start] ↔ hasSyscall t.inside = false) := by
    intro hs hopen
    rw [hwatch₂.opened, List.append_cons] at hopen
    have hmark : ∀ a ∈ t.inside, isMark a = false := by
      obtain ⟨b, hlast, hb, -⟩ := hopen
      exact ht.inside.unmarked hlast hb
    obtain ⟨out₁, hstep⟩ := h.start
    rw [open_append_unmarked hmark, open_snoc_unmarked ht.start.notMark] at hopen
    have hstart : (s₁, out₁) = startStep p s t.start := by
      cases round_of_step hp ht.start.isError hstep with
      | start _ hout => exact hout
      | mark hn | skip hn | aside hn | chain hn => simp [hs] at hn
    cases hstart
    have hkept : (startStep p s t.start).1.ancestorBegin ≠ none := hwatch.opened.mpr hopen
    have hpass := ht.inside.passes hp hmark ht.alone hkept h.inside
    rw [hpass.stack]
    cases hasSyscall t.inside <;> simp [startStep]
  rw [finish_adds_iff hp ht.finish htarget h.finish]
  constructor
  · rintro ⟨hs, hopen, hsched, hst⟩
    exact ⟨hwatch₂.opened.mp hopen, hstarts.mp hs, hsched,
      hasSyscall_eq_false.mp ((hstack hs hopen).mp hst)⟩
  · intro hfol
    have hs := hstarts.mpr hfol.head
    have hopen := hwatch₂.opened.mpr hfol.opened
    exact ⟨hs, hopen, hfol.finish, (hstack hs hopen).mpr (hasSyscall_eq_false.mpr hfol.inside)⟩

lemma Activation.isRecorded_iff {r : State × List Effect} (hp : p.ancestor ≠ [])
    (hr : ∀ a ∈ t.actions, Regular a) (ht : t.IsInnermost)
    (hrun : Runs.run (step p) State.init t.actions = .ok r) : t.IsRecorded p ↔ t.IsFollowed p := by
  constructor
  · rintro ⟨s, s₁, s₂, s₃, out₁, out, hb, hs, hstep, hi, hf, hadd⟩
    have hreach : t.Reached p s s₁ s₂ s₃ out := ⟨hb, ⟨out₁, hstep⟩, hi, hf⟩
    exact (hreach.added_iff hp hr ht).mp ⟨hs, hadd⟩
  · intro h
    obtain ⟨s, s₁, s₂, s₃, out, hreach⟩ := Activation.exists_reached hrun
    obtain ⟨hs, hadd⟩ := (hreach.added_iff hp hr ht).mpr h
    obtain ⟨out₁, hstep⟩ := hreach.start
    exact ⟨s, s₁, s₂, s₃, out₁, out, hreach.before, hs, hstep, hreach.inside, hreach.finish, hadd⟩

lemma Activation.exists_encloses (hn : Nested false t.actions) (ht : t.IsTarget) {b : Action}
    (hlast : lastMark (t.before ++ t.start :: t.inside) = some b) (hb : b.ancestorBegin = true) :
    ∃ a : Activation, a.start = b ∧ a.IsAncestor ∧ a.Encloses t := by
  rw [List.append_cons] at hlast
  have hinside := ht.inside.unmarked hlast hb
  have hbefore : lastMark t.before = some b := by
    rwa [lastMark_append, lastMark_of_unmarked hinside, Option.none_or, lastMark_snoc,
      ht.start.notMark, if_neg (by simp)] at hlast
  obtain ⟨u, v, hu, -, hv⟩ := lastMark_eq_some hbefore
  have hv' : ∀ x ∈ v ++ t.start :: t.inside, isMark x = false := by
    intro x hx
    rcases List.mem_append.mp hx with hx | hx
    · exact hv x hx
    · rcases List.mem_cons.mp hx with rfl | hx
      · exact ht.start.notMark
      · exact hinside x hx
  have hl : t.actions = u ++ b :: ((v ++ t.start :: t.inside) ++ t.fromFinish) := by
    simp [Activation.actions, fromFinish, hu]
  obtain ⟨w₁, e, w₂, hw, hpair, hnest⟩ := hn.exists_end hl hb hv'
  rcases List.cons_eq_append_iff.mp hw with ⟨rfl, hx⟩ | ⟨w, rfl, hx⟩
  · cases hx
    have hfin := end_isMark hpair.endMark
    rw [ht.finish.notMark] at hfin
    cases hfin
  · refine ⟨⟨u, b, v ++ t.start :: t.inside ++ t.finish :: w, e, w₂⟩, rfl, ⟨hpair, hnest⟩,
      ⟨v, hu⟩, ⟨w, hx⟩, ?_⟩
    simp [Activation.actions, hu, hx]

end Recording

/-- Some activation of the ancestor around `t` has a latency in the range. -/
def Activation.IsWanted (p : Param) (t : Activation) : Prop :=
  ∃ a : Activation, a.IsAncestor ∧ a.Encloses t ∧ InRange p a.latency

section Completion

variable {p : Param} {a : Action} {l : List Action}

lemma dispatch_ok (hc : p.codeBlock = false) (s : State) : ∃ r, dispatch p s a = .ok r := by
  unfold dispatch
  split
  case h_2 | h_3 | h_4 | h_5 | h_6 => exact ⟨_, by rw [callStep_eq hc]; rfl⟩
  all_goals exact ⟨_, rfl⟩

lemma step_ok (hp : p.ancestor ≠ []) (hc : p.codeBlock = false) (hj : isInternalJump a = false)
    (ht : a.type.isJump = true → isMark a = true ∨ a.fromTarget = true ∨ a.toTarget = true)
    (s : State) (rest : List Action) : ∃ r, step p s a rest = .ok r := by
  have hp' : (p.ancestor != []) = true := by simpa using hp
  rw [step]
  split
  · exact ⟨_, rfl⟩
  split
  · exact ⟨_, rfl⟩
  split
  · exact ⟨_, rfl⟩
  rename_i hpass
  split
  · exact ⟨_, rfl⟩
  split
  · exact ⟨_, rfl⟩
  have hmark : isMark a = false := by
    by_contra hm
    rw [hp', Bool.true_and, show (a.ancestorBegin || a.ancestorEnd) = isMark a from rfl] at hpass
    simp [hm] at hpass
  have hout : (a.type.isJump && !a.fromTarget && !a.toTarget) = false := by
    by_contra h
    simp only [Bool.not_eq_false, Bool.and_eq_true, Bool.not_eq_true'] at h
    simpa [hmark, h.1.2, h.2] using ht h.1.1
  obtain ⟨r, hr⟩ := dispatch_ok (a := rewriteJump a) hc
    { s with noHwIntFromHead := !leavesFromHead (rewriteJump a) }
  refine ⟨({ r.1 with cursor := some (rewriteJump a) }, r.2), ?_⟩
  rw [branchStep, show (a.type.isJump && a.fromTarget && a.toTarget) = false from hj,
    if_neg (by simp), hout, if_neg (by simp), chainStep, hr]
  rfl

/-- Outside code-block mode the analysis of nested code comes back. -/
lemma Nested.completes {frame : Bool} (hp : p.ancestor ≠ []) (hc : p.codeBlock = false)
    (hn : Nested frame l) (hj : ∀ a ∈ l, isInternalJump a = false) (s : State) :
    ∃ r, Runs.run (step p) s l = .ok r := by
  have htouches := hn.touches
  clear hn
  induction l generalizing s with
  | nil => exact ⟨_, rfl⟩
  | cons a l ih =>
    obtain ⟨r, hr⟩ := step_ok hp hc (hj a (by simp)) (htouches a (by simp)) s l
    obtain ⟨q, hq⟩ := ih (fun b hb => hj b (List.mem_cons_of_mem a hb)) r.1
      fun b hb => htouches b (List.mem_cons_of_mem a hb)
    exact ⟨_, Runs.run_cons_ok hr hq⟩

end Completion

section Flat

variable {p : Param} {t a : Activation}

lemma HeadInterrupted.exists_head {before rest : List Action} (h : HeadInterrupted p before rest) :
    ∃ a ∈ before, leavesFromHead a = true := by
  induction h with
  | @head before a _ _ _ hh => exact ⟨a, by simp, hh⟩
  | later _ _ ih =>
    obtain ⟨b, hb, hh⟩ := ih
    exact ⟨b, List.mem_append_left _ hb, hh⟩

lemma inRange_default (h : p.ancestorLatency = (0, uint64Max)) (latency : UInt64) :
    InRange p latency := by
  rw [InRange, h, UInt64.le_iff_toNat_le, UInt64.le_iff_toNat_le]
  have hlt := latency.toNat_lt
  have hmax : uint64Max.toNat = 2 ^ 64 - 1 := rfl
  refine ⟨Nat.zero_le _, ?_⟩
  change latency.toNat ≤ uint64Max.toNat
  omega

lemma Activation.Encloses.marks (he : a.Encloses t) (ha : a.IsAncestor)
    (hflat : ∀ x ∈ a.inside, isMark x = false) :
    lastMark (t.before ++ t.start :: t.inside) = some a.start ∧
      t.fromFinish.find? (·.ancestorEnd) = some a.finish := by
  obtain ⟨⟨u, hu⟩, ⟨v, hv⟩, hsame⟩ := he
  have hinside : a.inside = u ++ t.start :: (t.inside ++ t.finish :: v) := by
    simp only [Activation.actions, hu, hv, List.append_assoc, List.cons_append] at hsame
    have hrest := (List.cons.inj (List.append_cancel_left hsame)).2
    have hcut : a.inside ++ a.finish :: a.after =
        (u ++ t.start :: (t.inside ++ t.finish :: v)) ++ a.finish :: a.after := by
      simpa using hrest
    exact List.append_cancel_right hcut
  rw [hinside] at hflat
  constructor
  · have hafter : ∀ x ∈ u ++ t.start :: t.inside, isMark x = false := by
      intro x hx
      apply hflat
      simp only [List.mem_append, List.mem_cons] at hx ⊢
      tauto
    rw [hu, List.append_assoc, List.cons_append, lastMark_append,
      lastMark_cons_marked (begin_isMark ha.pair.beginMark), lastMark_of_unmarked hafter]
    rfl
  · have hend : ∀ x ∈ t.finish :: v, (x.ancestorEnd = true) = False := by
      intro x hx
      have hx' := hflat x (by simp only [List.mem_append, List.mem_cons] at hx ⊢; tauto)
      simpa using (Bool.or_eq_false_iff.mp hx').2
    rw [Activation.fromFinish, hv, ← List.cons_append, List.find?_append,
      List.find?_eq_none.mpr fun x hx => by rw [hend x hx]; exact not_false]
    simp [ha.pair.endMark]

/-- The filter does what it is for when activations of the ancestor do not nest. -/
lemma ancestor_filter_of_flat (hp : p.ancestor ≠ []) {actions : List Action}
    (hnested : Nested false actions) (hrun : ∃ r, Runs.run (step p) State.init actions = .ok r)
    (hflat : ∀ a : Activation, a.actions = actions → a.IsAncestor → ∀ x ∈ a.inside, isMark x = false)
    (hhead : ∀ a ∈ actions, leavesFromHead a = false)
    (hsched : ∀ a ∈ actions, a.fromTarget = true → a.schedEnd = false)
    (hsys : ∀ a ∈ actions, a.fromTarget = true → a.type ≠ .trEndSyscall)
    (t : Activation) (hactions : t.actions = actions) (ht : t.IsInnermost) :
    t.IsRecorded p ↔ t.IsWanted p := by
  subst hactions
  obtain ⟨r, hrun⟩ := hrun
  rw [t.isRecorded_iff hp hnested.regular ht hrun]
  constructor
  · intro hf
    obtain ⟨b, hlast, hb, hrange⟩ := hf.opened
    obtain ⟨a, rfl, ha, he⟩ := t.exists_encloses hnested ht.toIsTarget hlast hb
    refine ⟨a, ha, he, ?_⟩
    rcases hrange with hdefault | ⟨e, hfind, hin⟩
    · exact inRange_default hdefault _
    · rw [(he.marks ha (hflat a he.same ha)).2] at hfind
      cases hfind
      exact hin
  · rintro ⟨a, ha, he, hin⟩
    obtain ⟨hlast, hfind⟩ := he.marks ha (hflat a he.same ha)
    refine ⟨⟨a.start, hlast, ha.pair.beginMark, Or.inr ⟨a.finish, hfind, hin⟩⟩, ?_, ?_, ?_⟩
    · intro hh
      obtain ⟨x, hx, hleaves⟩ := hh.exists_head
      rw [hhead x (List.mem_append_left _ hx)] at hleaves
      cases hleaves
    · exact hsched _ (by simp [Activation.actions]) ht.finish.fromTarget
    · exact fun x hx => hsys x (by simp [Activation.actions, hx])

end Flat

/-- The ancestor filter records what it is for. -/
def FiltersByAncestor (p : Param) (actions : List Action) : Prop :=
  ∀ t : Activation, t.actions = actions → t.IsInnermost → (t.IsRecorded p ↔ t.IsWanted p)

namespace Activation

/-- The return of the target is not taken for something else. -/
structure ReturnSeen (t : Activation) : Prop where
  finish : t.finish.schedEnd = false
  inside : ∀ a ∈ t.inside, a.fromTarget = true → a.type ≠ .trEndSyscall

/-- No activation of the ancestor ends between the last begin before the target returns and that
return. -/
def LastBegan (t : Activation) (b : Action) : Prop :=
  lastMark (t.before ++ t.start :: t.inside) = some b ∧ b.ancestorBegin = true

/-- From that begin to the next end it is as long as every activation of the ancestor around the
target, and in the ranges with this latency the target is not entered from an interrupt at its head. -/
structure MeasuredBy (p : Param) (t : Activation) (b e : Action) : Prop where
  began : t.LastBegan b
  next : t.fromFinish.find? (·.ancestorEnd) = some e
  latency : ∀ a : Activation, a.IsAncestor → a.Encloses t → a.latency = e.ts - b.ts
  head : ∀ range, InRange (p.withAncestorLatency range) (e.ts - b.ts) →
    ¬ HeadInterrupted (p.withAncestorLatency range) t.before t.fromStart

end Activation

section Ranges

variable {p : Param} {t a : Activation}

lemma inRange_singleton {p : Param} {x y : UInt64} : InRange (p.withAncestorLatency (x, x)) y ↔ y = x :=
  ⟨fun h => UInt64.le_antisymm h.2 h.1, fun h => by rw [h]; exact ⟨UInt64.le_refl x, UInt64.le_refl x⟩⟩

lemma singleton_ne_default (x : UInt64) : (x, x) ≠ (0, uint64Max) := by
  intro h
  obtain ⟨h₀, h₁⟩ := Prod.mk.inj h
  rw [h₀] at h₁
  exact absurd h₁ (by decide)

lemma Activation.Encloses.exists_next (he : a.Encloses t) (ha : a.IsAncestor) :
    ∃ e, t.fromFinish.find? (·.ancestorEnd) = some e := by
  obtain ⟨-, ⟨v, hv⟩, -⟩ := he
  apply Option.isSome_iff_exists.mp
  rw [List.find?_isSome]
  refine ⟨a.finish, ?_, ha.pair.endMark⟩
  rw [Activation.fromFinish, hv]
  simp

/-- Outside every activation of the ancestor nothing is recorded. -/
lemma Activation.IsFollowed.exists_encloses (hnested : Nested false t.actions) (ht : t.IsInnermost)
    (h : t.IsFollowed p) : ∃ a : Activation, a.IsAncestor ∧ a.Encloses t := by
  obtain ⟨b, hlast, hb, -⟩ := h.opened
  obtain ⟨a, -, ha, he⟩ := t.exists_encloses hnested ht.toIsTarget hlast hb
  exact ⟨a, ha, he⟩

lemma followed_default_iff (h : p.ancestorLatency = (0, uint64Max)) : t.IsFollowed p ↔
    (∃ b, t.LastBegan b) ∧ ¬ HeadInterrupted p t.before t.fromStart ∧ t.ReturnSeen := by
  constructor
  · rintro ⟨⟨b, hlast, hb, -⟩, hhead, hfinish, hinside⟩
    exact ⟨⟨b, hlast, hb⟩, hhead, hfinish, hinside⟩
  · rintro ⟨⟨b, hlast, hb⟩, hhead, hseen⟩
    exact ⟨⟨b, hlast, hb, Or.inl h⟩, hhead, hseen.finish, hseen.inside⟩

lemma Activation.MeasuredBy.wanted_iff {b e : Action} (h : t.MeasuredBy p b e) (ha : a.IsAncestor)
    (he : a.Encloses t) (range : UInt64 × UInt64) : t.IsWanted (p.withAncestorLatency range) ↔
      InRange (p.withAncestorLatency range) (e.ts - b.ts) := by
  constructor
  · rintro ⟨a', ha', he', hin⟩
    rwa [h.latency a' ha' he'] at hin
  · intro hin
    exact ⟨a, ha, he, by rwa [h.latency a ha he]⟩

lemma Activation.MeasuredBy.followed_iff {b e : Action} (h : t.MeasuredBy p b e) (hseen : t.ReturnSeen)
    (range : UInt64 × UInt64) : t.IsFollowed (p.withAncestorLatency range) ↔
      InRange (p.withAncestorLatency range) (e.ts - b.ts) := by
  constructor
  · rintro ⟨⟨b', hlast, -, hrange⟩, -, -, -⟩
    cases h.began.1.symm.trans hlast
    rcases hrange with hdefault | ⟨e', hfind, hin⟩
    · exact inRange_default hdefault _
    · cases h.next.symm.trans hfind
      exact hin
  · intro hin
    exact ⟨⟨b, h.began.1, h.began.2, Or.inr ⟨e, h.next, hin⟩⟩, h.head range hin, hseen.finish, hseen.inside⟩

/-- The default range shows that the return is followed, the range of one latency that the begin and
the end that are compared have it. -/
lemma measured_of_followed (ha : a.IsAncestor) (he : a.Encloses t)
    (h : ∀ range, t.IsWanted (p.withAncestorLatency range) → t.IsFollowed (p.withAncestorLatency range)) :
    t.ReturnSeen ∧ ∃ b e, t.MeasuredBy p b e := by
  have hall := h (0, uint64Max) ⟨a, ha, he, inRange_default rfl _⟩
  obtain ⟨⟨b, hbegan⟩, -, hseen⟩ := (followed_default_iff rfl).mp hall
  obtain ⟨e, hnext⟩ := he.exists_next ha
  have hlatency : ∀ a' : Activation, a'.IsAncestor → a'.Encloses t → a'.latency = e.ts - b.ts := by
    intro a' ha' he'
    have hone := h (a'.latency, a'.latency) ⟨a', ha', he', inRange_singleton.mpr rfl⟩
    obtain ⟨b', hlast, -, hrange⟩ := hone.opened
    cases hbegan.1.symm.trans hlast
    rcases hrange with hdefault | ⟨e', hfind, hin⟩
    · exact absurd hdefault (singleton_ne_default _)
    · cases hnext.symm.trans hfind
      exact (inRange_singleton.mp hin).symm
  refine ⟨hseen, b, e, hbegan, hnext, hlatency, fun range hin => ?_⟩
  exact (h range ⟨a, ha, he, by rwa [hlatency a ha he]⟩).head

end Ranges

namespace Sample

def ancestorParam : Param := { Param.default (lit "f") with ancestor := lit "h" }

def ancestor (offset : UInt32) : Symbol := ⟨lit "h", 0x401400, offset⟩

def enterAncestor (ts : UInt64) (src : Symbol) : Action :=
  branchOf ancestorParam .call ts src (ancestor 0)

def leaveAncestor (ts : UInt64) (dst : Symbol) : Action :=
  branchOf ancestorParam .ret ts (ancestor 64) dst

def enterTarget (ts : UInt64) : Action := branchOf ancestorParam .call ts (ancestor 40) (target 0)

def leaveTarget (ts : UInt64) : Action := branchOf ancestorParam .ret ts (target 48) (ancestor 45)

lemma outerPair (ts us : UInt64) :
    AncestorPair (enterAncestor ts (main 16)) (leaveAncestor us (main 21)) :=
  ⟨rfl, rfl, rfl, rfl, rfl, rfl, rfl, rfl⟩

lemma innerPair (ts us : UInt64) :
    AncestorPair (enterAncestor ts (callee 8)) (leaveAncestor us (callee 13)) :=
  ⟨rfl, rfl, rfl, rfl, rfl, rfl, rfl, rfl⟩

lemma opensTarget (ts : UInt64) : OpensTarget (enterTarget ts) := ⟨rfl, rfl, rfl, rfl⟩

lemma closesTarget (ts : UInt64) : ClosesTarget (leaveTarget ts) :=
  ⟨rfl, rfl, rfl, rfl, rfl, Or.inl rfl⟩

/-- `h` calls `f`. -/
def simpleAncestor : Activation where
  before := [enterAncestor 0 (main 16)]
  start := enterTarget 30
  inside := []
  finish := leaveTarget 40
  after := [leaveAncestor 50 (main 21)]

/-- `h` calls itself through `g`, and then calls `f`. -/
def recursiveAncestor : Activation where
  before := [enterAncestor 0 (main 16), enterAncestor 10 (callee 8), leaveAncestor 20 (callee 13)]
  start := enterTarget 30
  inside := []
  finish := leaveTarget 40
  after := [leaveAncestor 50 (main 21)]

/-- The outer activation of `h` in it. -/
def recursiveAncestorOuter : Activation where
  before := []
  start := enterAncestor 0 (main 16)
  inside := [enterAncestor 10 (callee 8), leaveAncestor 20 (callee 13), enterTarget 30, leaveTarget 40]
  finish := leaveAncestor 50 (main 21)
  after := []

lemma call_nested : Nested false [enterTarget 30, leaveTarget 40] :=
  .target (opensTarget 30) .nil (closesTarget 40) .nil

lemma simpleAncestor_nested : Nested false simpleAncestor.actions := by
  have h : Nested false (enterAncestor 0 (main 16) ::
      ([enterTarget 30, leaveTarget 40] ++ leaveAncestor 50 (main 21) :: [])) :=
    .ancestor (outerPair 0 50) call_nested .nil
  exact h

lemma simpleAncestor_isInnermost : simpleAncestor.IsInnermost where
  start := opensTarget 30
  inside := .nil
  finish := closesTarget 40
  alone := by
    rintro ⟨t, ht, -⟩
    exact List.append_ne_nil_of_right_ne_nil _ (List.cons_ne_nil _ _) ht

def simpleAncestorOuter : Activation where
  before := []
  start := enterAncestor 0 (main 16)
  inside := [enterTarget 30, leaveTarget 40]
  finish := leaveAncestor 50 (main 21)
  after := []

/-- There are no other marks than the begin and the end. -/
lemma simpleAncestor_flat {a : Activation} (hactions : a.actions = simpleAncestor.actions)
    (ha : a.IsAncestor) : ∀ x ∈ a.inside, isMark x = false := by
  have hmarks : (a.actions.filter isMark).length = 2 := by
    rw [hactions]
    rfl
  rw [Activation.actions, List.filter_append, List.filter_cons_of_pos (begin_isMark ha.pair.beginMark),
    List.filter_append, List.filter_cons_of_pos (end_isMark ha.pair.endMark)] at hmarks
  simp only [List.length_append, List.length_cons] at hmarks
  have hnone : a.inside.filter isMark = [] := List.length_eq_zero_iff.mp (by omega)
  intro x hx
  simpa using List.filter_eq_nil_iff.mp hnone x hx

lemma ancestorParam_ne (range : UInt64 × UInt64) : (ancestorParam.withAncestorLatency range).ancestor ≠ [] :=
  show ancestorParam.ancestor ≠ [] by decide

lemma simpleAncestor_completes (range : UInt64 × UInt64) : ∃ r,
    Runs.run (step (ancestorParam.withAncestorLatency range)) State.init simpleAncestor.actions = .ok r :=
  simpleAncestor_nested.completes (ancestorParam_ne range) rfl (by decide) _

lemma recursiveAncestorOuter_isAncestor : recursiveAncestorOuter.IsAncestor :=
  ⟨outerPair 0 50, .ancestor (innerPair 10 20) .nil call_nested⟩

lemma recursiveAncestor_nested : Nested false recursiveAncestor.actions := by
  have h : Nested false (recursiveAncestorOuter.start ::
      (recursiveAncestorOuter.inside ++ recursiveAncestorOuter.finish :: [])) :=
    .ancestor recursiveAncestorOuter_isAncestor.pair recursiveAncestorOuter_isAncestor.inside .nil
  exact h

lemma recursiveAncestor_isInnermost : recursiveAncestor.IsInnermost where
  start := opensTarget 30
  inside := .nil
  finish := closesTarget 40
  alone := by
    rintro ⟨t, ht, -⟩
    exact List.append_ne_nil_of_right_ne_nil _ (List.cons_ne_nil _ _) ht

end Sample

end PtPerf.Analysis
