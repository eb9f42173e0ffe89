import PtPerf.Script.BranchLine
import PtPerf.Script.ParseJob
import PtPerf.Support.Runs

/-! The action of a line does not depend on the lines read before it, as long as every address
carries one name and offset. -/

namespace PtPerf.Script

open PtPerf.Support PtPerf.Support.Text PtPerf.Trace

lemma getSymbolFromString_eq (m : SymbolMap) (str : Str) :
    getSymbolFromString m str = (getSymbolFromString 0 str).map fun r =>
      m.create r.2.addr r.2.offset r.2.name := by
  simp only [getSymbolFromString]
  split
  · rfl
  · simp only [Runs.map_bind]
    rfl

/-- One name and one offset for each address. -/
def OneName (known : Symbol → Prop) : Prop := ∀ x y, known x → known y → x.addr = y.addr → x = y

/-- Everything in the table is one of the known symbols. -/
def Agrees (known : Symbol → Prop) (m : SymbolMap) : Prop :=
  ∀ addr sym, m.lookup addr = some sym → sym.addr = addr ∧ known sym

section Tables

variable {known : Symbol → Prop} {m : SymbolMap}

lemma agrees_zero : Agrees known 0 := by
  intro addr sym h
  rw [TallyMap.lookup_zero] at h
  cases h

lemma lookup_create (m : SymbolMap) (x : Symbol) :
    (m.create x.addr x.offset x.name).1.lookup x.addr = some (m.create x.addr x.offset x.name).2 := by
  unfold SymbolMap.create
  split
  · assumption
  · rw [TallyMap.lookup_set, if_pos rfl]

lemma Agrees.create (hone : OneName known) (hm : Agrees known m) {x : Symbol} (hx : known x) :
    (m.create x.addr x.offset x.name).2 = x ∧ Agrees known (m.create x.addr x.offset x.name).1 := by
  unfold SymbolMap.create
  split
  · rename_i sym hsym
    obtain ⟨haddr, hknown⟩ := hm _ _ hsym
    exact ⟨hone sym x hknown hx haddr, hm⟩
  · refine ⟨rfl, fun addr sym h => ?_⟩
    rw [TallyMap.lookup_set] at h
    split at h
    · cases h
      exact ⟨by symm; assumption, hx⟩
    · exact hm addr sym h

lemma Agrees.create_known (hm : Agrees known m) {x : Symbol} (h : m.lookup x.addr ≠ none) :
    Agrees known (m.create x.addr x.offset x.name).1 := by
  unfold SymbolMap.create
  split
  · exact hm
  · contradiction

end Tables

section Ends

variable {known : Symbol → Prop} {m : SymbolMap} {line : Str} {pos : ℕ}

lemma readEnds_eq (m : SymbolMap) (line : Str) (pos : ℕ) :
    readEnds m line pos = (do
      let src ← (cut line (findFirstNotOf ' '.toUInt8 line pos)
        (find (lit "=>") line (findFirstNotOf ' '.toUInt8 line pos))) >>= getSymbolFromString 0
      let dst ← (cut line (findFirstNotOf ' '.toUInt8 line
        (after (find (lit "=>") line (findFirstNotOf ' '.toUInt8 line pos)) 2)) (some line.length)) >>=
          getSymbolFromString 0
      let r := m.create src.2.addr src.2.offset src.2.name
      let q := r.1.create dst.2.addr dst.2.offset dst.2.name
      return (q.1, r.2, q.2)) := by
  simp only [readEnds]
  cases cut line (findFirstNotOf ' '.toUInt8 line pos)
      (find (lit "=>") line (findFirstNotOf ' '.toUInt8 line pos)) with
  | error f => rfl
  | ok s₁ =>
    simp only [Runs.ok_bind, getSymbolFromString_eq m s₁]
    cases getSymbolFromString 0 s₁ with
    | error f => rfl
    | ok src =>
      simp only [Except.map, Runs.ok_bind]
      cases cut line (findFirstNotOf ' '.toUInt8 line
          (after (find (lit "=>") line (findFirstNotOf ' '.toUInt8 line pos)) 2)) (some line.length) with
      | error f => rfl
      | ok s₂ =>
        simp only [Runs.ok_bind, getSymbolFromString_eq (m.create _ _ _).1 s₂]
        cases getSymbolFromString 0 s₂ <;> rfl

/-- With a table that agrees, the ends are those read with an empty one. -/
lemma readEnds_agrees (hone : OneName known) (hm : Agrees known m)
    (hknown : ∀ m' src dst, readEnds 0 line pos = .ok (m', src, dst) → known src ∧ known dst) :
    ∃ m', Agrees known m' ∧
      readEnds m line pos = (readEnds 0 line pos).map fun r => (m', r.2) := by
  rw [readEnds_eq] at hknown ⊢
  rw [readEnds_eq 0]
  generalize cut line (findFirstNotOf ' '.toUInt8 line pos)
    (find (lit "=>") line (findFirstNotOf ' '.toUInt8 line pos)) >>= getSymbolFromString 0 = x at *
  generalize cut line (findFirstNotOf ' '.toUInt8 line
    (after (find (lit "=>") line (findFirstNotOf ' '.toUInt8 line pos)) 2)) (some line.length) >>=
      getSymbolFromString 0 = y at *
  rcases x with f | ⟨m₁, src⟩
  · exact ⟨m, hm, rfl⟩
  rcases y with f | ⟨m₂, dst⟩
  · exact ⟨m, hm, rfl⟩
  simp only [Runs.ok_bind] at hknown ⊢
  obtain ⟨hsrc, hdst⟩ := hknown _ _ _ rfl
  rw [SymbolMap.create_create] at hdst
  have hsrc' : known src := hsrc
  obtain ⟨hx, hm'⟩ := hm.create hone hsrc'
  have hlook := lookup_create m src
  generalize hM : m.create src.addr src.offset src.name = r at *
  obtain ⟨M, sym⟩ := r
  change sym = src at hx
  subst hx
  change M.lookup sym.addr = some sym at hlook
  refine ⟨(M.create dst.addr dst.offset dst.name).1, ?_, ?_⟩
  · by_cases h : dst.addr = sym.addr
    · exact hm'.create_known (by rw [h, hlook]; simp)
    · rw [if_neg h] at hdst
      exact (hm'.create hone hdst).2
  · have hsame : (M.create dst.addr dst.offset dst.name).2 =
        ((SymbolMap.create 0 sym.addr sym.offset sym.name).1.create dst.addr dst.offset dst.name).2 := by
      rw [SymbolMap.create_create]
      by_cases h : dst.addr = sym.addr
      · rw [if_pos h, SymbolMap.create, h, hlook]
      · rw [if_neg h] at hdst ⊢
        exact (hm'.create hone hdst).1
    rw [hsame]
    rfl

end Ends

/-- The action of a line read on its own. -/
def reading (line : Str) : Except Failure (Option Action) :=
  (createActionFromString default 0 line).map Prod.fst

/-- What becomes of an action when the variable it is read into holds `old`: a trace error leaves
everything but its thread and time alone, a branch leaves the marks. -/
def readOver (old a : Action) : Action :=
  if a.isError then { old with ptType := a.ptType, isError := true, tid := a.tid, ts := a.ts }
  else
    { a with fromTarget := old.fromTarget, toTarget := old.toTarget
             schedBegin := old.schedBegin, schedEnd := old.schedEnd
             ancestorBegin := old.ancestorBegin, ancestorEnd := old.ancestorEnd }

section Readings

variable {known : Symbol → Prop} {m : SymbolMap} {line : Str}

def cleared (old : Action) : Action :=
  { old with isError := false, fromTarget := false, toTarget := false }

lemma createErrorFromString_readOver (old : Action) (line : Str) :
    createErrorFromString (cleared old) line =
      (createErrorFromString (cleared default) line).map (readOver (cleared old)) := by
  simp only [createErrorFromString, Runs.map_bind]
  rfl

lemma createActionFromString_agrees (hone : OneName known) (hm : Agrees known m) (old : Action)
    (hknown : ∀ a, reading line = .ok (some a) → a.isError = false → known a.fromSym ∧ known a.toSym) :
    ∃ m', Agrees known m' ∧ createActionFromString old m line =
      (reading line).map fun r => (r.map (readOver (cleared old)), m') := by
  rw [reading] at hknown ⊢
  by_cases herror : line.take traceErrorStr.length = traceErrorStr
  · by_cases hlost : find (lit "Lost trace data") line (some 0) = none
    · refine ⟨m, hm, ?_⟩
      simp only [createActionFromString, if_pos herror, if_pos hlost]
      rfl
    · refine ⟨m, hm, ?_⟩
      simp only [createActionFromString, if_pos herror, if_neg hlost]
      change (createErrorFromString (cleared old) line >>= fun a => pure (some a, m)) = _
      rw [createErrorFromString_readOver]
      change _ = Except.map _ (Except.map _
        (createErrorFromString (cleared default) line >>= fun a => pure (some a, 0)))
      cases createErrorFromString (cleared default) line <;> rfl
  · have hbranch : ∀ (o : Action) (t : SymbolMap), createActionFromString o t line =
        createBranchFromString (cleared o) t line >>= fun r => pure (some r.1, r.2) := by
      intro o t
      simp only [createActionFromString, if_neg herror]
      rfl
    rw [hbranch] at hknown ⊢
    rw [hbranch]
    simp only [createBranchFromString] at hknown ⊢
    cases hstart : readStart line with
    | error f => exact ⟨m, hm, rfl⟩
    | ok r =>
      obtain ⟨tid, ts, pos⟩ := r
      simp only [hstart, Runs.ok_bind] at hknown ⊢
      cases htype : matchType line (findFirstNotOf ' '.toUInt8 line pos) with
      | error f => exact ⟨m, hm, rfl⟩
      | ok r =>
        obtain ⟨type, pos⟩ := r
        simp only [htype, Runs.ok_bind] at hknown ⊢
        have hends : ∀ m' src dst, readEnds 0 line pos = .ok (m', src, dst) → known src ∧ known dst := by
          intro m' src dst h
          rw [h] at hknown
          exact hknown _ rfl rfl
        obtain ⟨m', hm', heq⟩ := readEnds_agrees hone hm hends
        refine ⟨m', hm', ?_⟩
        rw [heq]
        cases readEnds 0 line pos <;> rfl

end Readings

section Marks

variable {p : Param} {a b : Action}

lemma markAction_readOver (old : Action) (h : a.isError = false) :
    markAction p (readOver old a) = markAction p a := by
  rw [readOver, h, if_neg (by simp), markAction_eq, markAction_eq]
  simp only [h]
  rfl

lemma initAction_readOver (old : Action) (h : a.isError = false) :
    initAction p (readOver old a) = initAction p a := by
  have htype : (readOver old a).ptType = a.ptType := by
    rw [readOver, h, if_neg (by simp)]
  have herror : (readOver old a).isError = a.isError := by
    rw [readOver, h, if_neg (by simp)]
  rw [initAction, initAction, markAction_readOver old h, htype, herror, h]
  simp only [Bool.false_eq_true, if_false]

lemma initAction_keeps (h : initAction p a = some b) :
    b.isError = a.isError ∧ b.tid = a.tid ∧ b.ts = a.ts := by
  simp only [initAction] at h
  split_ifs at h with h₁ h₂ h₃ h₄
  · cases h
    exact ⟨rfl, rfl, rfl⟩
  · cases h
    rw [markAction_eq]
    exact ⟨rfl, rfl, rfl⟩

end Marks

end PtPerf.Script
