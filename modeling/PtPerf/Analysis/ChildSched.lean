import PtPerf.Analysis.OffCpu
import PtPerf.Analysis.Cursor
import PtPerf.Support.Stretches

/-! The time off the cpu in the records of children and code blocks. A record is charged with all
of `sched_in_child`, which is not reset wherever the action that a record begins at changes. -/

namespace PtPerf.Analysis

open PtPerf.Support PtPerf.Trace PtPerf.Stats

def blockBase (s : State) (a : Action) : Option Action :=
  s.cursor.filter fun c => a.fromSym.offset != c.toSym.offset

/-- The action at which the record of the round begins, if the round makes one. -/
def recordBase (p : Param) (s : State) (a : Action) : Option Action :=
  if addsBlock p s a then blockBase s a
  else if handled p s a && !(a.type.isJump && internal a) then childBase s (rewriteJump a)
  else none

def recordName (p : Param) (s : State) (a base : Action) : Str :=
  if addsBlock p s a then codeBlockName base a
  else childName p base false ((rewriteJump a).type == .iret)

/-- The call that `FuncStat::add` gives a `*self` entry in the round. -/
def callWithSelf (p : Param) (s : State) (a : Action) : Option Action :=
  if p.codeBlock then none else (countedCall p s a).filter (HasSlots s a ·)

def selfWall (s : State) (a call : Action) : UInt64 :=
  if a.ts - call.ts > s.child.targetTotal then a.ts - call.ts - s.child.targetTotal else 0

def selfSched (s : State) : UInt64 :=
  if s.schedInTarget > s.child.schedTotal then s.schedInTarget - s.child.schedTotal else 0

/-- Every record and every `*self` entry has at most its own time off the cpu, and the assertion of
`add_code_block` holds. -/
def RecordsBounded (p : Param) : State → List Action → Prop
  | _, [] => True
  | s, a :: rest =>
    (∀ base ∈ recordBase p s a, s.schedInChild ≤ a.ts - base.ts) ∧
      (∀ call ∈ callWithSelf p s a, selfSched s ≤ selfWall s a call) ∧
      step p s a rest ≠ .error .schedExceedsLatency ∧
      ∀ r, step p s a rest = .ok r → RecordsBounded p r.1 rest

/-- The wall time that the round enters under the names of `f`. -/
def entryTime (p : Param) (f : Str → Bool) (s : State) (a : Action) : ℕ :=
  ((recordBase p s a).elim 0 fun base =>
    if f (recordName p s a base) then (a.ts - base.ts).toNat else 0) +
  (callWithSelf p s a).elim 0 fun call => if f targetSelf then (selfWall s a call).toNat else 0

def enteredTime (p : Param) (f : Str → Bool) : State → List Action → ℕ
  | _, [] => 0
  | s, a :: rest => entryTime p f s a +
    match step p s a rest with
    | .ok r => enteredTime p f r.1 rest
    | .error _ => 0

/-- The sleep from `b` to `a`. Its time is kept in 32 bits. -/
def sleepOf (b a : Action) : Stretch := ⟨b.ts.toNat, a.ts.toNat, (a.ts - b.ts).toUInt32.toNat⟩

/-- The sleeps and the records so far: the sleeps since `sched_in_child` was last reset, those since
`sched_in_target` was, those that the records of the children were charged with, and these records. -/
structure Ledger where
  pending : List Stretch
  slept : List Stretch
  charged : List Stretch
  records : List Stretch

namespace Ledger

def init : Ledger := ⟨[], [], [], []⟩

/-- The sleeps of the call that no child was charged with. -/
def own (l : Ledger) : List Stretch := l.slept.diff l.charged

/-- The time that the children were charged with and that is not one of the sleeps of the call. -/
def earlier (l : Ledger) : ℕ := Stretch.total (l.charged.diff l.slept)

def next (p : Param) (s : State) (a : Action) (s' : State) (l : Ledger) : Ledger :=
  if a.isError || starts s a then init
  else if (closedCall p s a).isSome then { l with slept := [], charged := [], records := [] }
  else if wakes p s a then s.schedBegin.elim l fun b =>
    { l with pending := sleepOf b a :: l.pending, slept := sleepOf b a :: l.slept }
  else (recordBase p s a).elim
    { l with
      pending := if s'.schedInChild = 0 then [] else l.pending
      slept := if s'.schedInTarget = 0 then [] else l.slept }
    fun base => ⟨[], l.slept, l.pending ++ l.charged,
      ⟨base.ts.toNat, a.ts.toNat, (a.ts - base.ts).toNat⟩ :: l.records⟩

/-- The target's own sleeps find room in the call beside the records of its children. -/
def CallFits (l : Ledger) (call a : Action) : Prop :=
  Stretch.total l.own ≤ l.earlier ∨
    Stretch.Fits call.ts.toNat (a.ts.toNat + l.earlier) (l.own ++ l.records)

instance (l : Ledger) (call a : Action) : Decidable (l.CallFits call a) :=
  inferInstanceAs (Decidable (_ ∨ _))

end Ledger

/-- In every record, the sleeps from before the action that it begins at find room beside its own
sleeps; and in every call with a `*self` entry, what is out of place does. -/
def Settled (p : Param) : State → Ledger → List Action → Prop
  | _, _, [] => True
  | s, l, a :: rest =>
    (∀ base ∈ recordBase p s a, Stretch.Fits base.ts.toNat a.ts.toNat l.pending) ∧
      (∀ call ∈ callWithSelf p s a, l.CallFits call a) ∧
      ∀ r, step p s a rest = .ok r → Settled p r.1 (l.next p s a r.1) rest

section Records

variable {p : Param} {s s' : State} {a b c top : Action} {stack rest : List Action} {es : List Effect}

def State.record (s : State) (name : Str) (wall : UInt64) : LatencyChild :=
  (s.child.addTarget name wall).addSched name s.schedInChild

def Effect.counts : Effect → Bool
  | .add .. | .addUnknownLatency .. => false
  | _ => true

/-- What a round does with the records and with the time off the cpu. -/
inductive RecordMove (p : Param) (s : State) (a : Action) (s' : State) (es : List Effect) : Prop
  | record {base} : recordBase p s a = some base → closedCall p s a = none →
      s'.child = s.record (recordName p s a base) (a.ts - base.ts) → s'.schedInChild = 0 →
      s'.schedInTarget = s.schedInTarget → es = [] → RecordMove p s a s' es
  | wake {b : Action} : (a.isError || starts s a) = false → recordBase p s a = none →
      closedCall p s a = none → wakes p s a = true →
      s.schedBegin = some b → s' = { s with
        schedInTarget := s.schedInTarget + (a.ts - b.ts).toUInt32.toUInt64
        schedInChild := s.schedInChild + (a.ts - b.ts).toUInt32.toUInt64
        schedBegin := none } → es = [.countSched] → RecordMove p s a s' es
  | keep : (a.isError || starts s a) = false → recordBase p s a = none → closedCall p s a = none →
      wakes p s a = false →
      s'.child = s.child → s'.schedInChild = s.schedInChild ∨ s'.schedInChild = 0 →
      s'.schedInTarget = s.schedInTarget ∨ s'.schedInTarget = 0 → (∀ e ∈ es, e.counts = true) →
      RecordMove p s a s' es
  | error : a.isError = true → s' = (errorStep s).1 → es = (errorStep s).2 → RecordMove p s a s' es
  | start : starts s a = true → s' = (startStep p s a).1 → es = (startStep p s a).2 →
      RecordMove p s a s' es
  | finish {start} : recordBase p s a = none → closedCall p s a = some start → s'.child = .clear →
      s'.schedInTarget = 0 → s'.schedInChild = s.schedInChild →
      es = [.add start (rewriteJump a) s.schedInTarget s.child] → RecordMove p s a s' es

lemma goes_of_handled (h : handled p s a = true) : (a.isError || starts s a) = false := by
  rw [handled_isError h, handled_starts h]
  rfl

lemma recordBase_of_not_handled (h : handled p s a = false) : recordBase p s a = none := by
  simp [recordBase, addsBlock, measuresBlock, h]

lemma Block.recordMove {t : State} (h : Block t b c s') (hc : t.cursor = some c)
    (hadds : addsBlock p s a = true) (hgo : (a.isError || starts s a) = false)
    (hcall : closedCall p s a = none) (hwakes : wakes p s a = false)
    (hcur : s.cursor = t.cursor) (hchild : t.child = s.child) (hsched : t.schedInChild = s.schedInChild)
    (htarget : t.schedInTarget = s.schedInTarget) (hoff : b.fromSym = a.fromSym) (hts : b.ts = a.ts)
    {s'' : State} (hs'' : s''.child = s'.child) (htarget' : s''.schedInTarget = s'.schedInTarget)
    (hsched' : s''.schedInChild = s'.schedInChild ∨ s''.schedInChild = 0) : RecordMove p s a s'' [] := by
  have hbase : recordBase p s a = blockBase s a := by rw [recordBase, if_pos hadds]
  rw [hc] at hcur
  cases h with
  | still hsame =>
    rw [hoff] at hsame
    rw [hsched] at hsched'
    exact .keep hgo (by rw [hbase]; simp [blockBase, hcur, hsame]) hcall hwakes (hs''.trans hchild) hsched'
      (Or.inl (htarget'.trans htarget)) (by simp)
  | record hdiff =>
    rw [hoff] at hdiff
    have hsome : recordBase p s a = some c := by
      rw [hbase]
      simp [blockBase, hcur, hdiff]
    refine .record hsome hcall (hs''.trans ?_) (hsched'.elim id id) (htarget'.trans htarget) rfl
    rw [recordName, if_pos hadds, State.record, ← hchild, ← hsched, ← hts,
      show codeBlockName c a = codeBlockName c b by rw [codeBlockName, codeBlockName, hoff]]

lemma opensFrame_of_isReturn (h : isReturn a.type = true) : opensFrame a.type = false := by
  cases hty : a.type <;> rw [hty] at h <;> first | rfl | cases h

lemma childBase_of_opensFrame (h : opensFrame a.type = true) : childBase s a = none := by
  rw [childBase]
  cases hty : a.type <;> rw [hty] at h <;> first | (split <;> rfl) | cases h

lemma childBase_of_trEnd (h : a.type = .trEnd) : childBase s a = none := by
  rw [childBase, h]
  split <;> rfl

lemma still_of_movesStack (h : movesStack a.type = false) :
    opensFrame a.type = false ∧ childBase s a = none := by
  have htype : (a.type == .trStart) = false ∧ isReturn a.type = false ∧ opensFrame a.type = false := by
    cases hty : a.type <;> rw [hty] at h <;> first | exact ⟨rfl, rfl, rfl⟩ | cases h
  refine ⟨htype.2.2, ?_⟩
  rw [childBase, htype.1, htype.2.1]
  split <;> rfl

lemma recordBase_of_switch (hh : handled p s a = true) (hin : (a.type.isJump && internal a) = false)
    (hno : opensFrame (rewriteJump a).type = false ∨ p.codeBlock = false) :
    recordBase p s a = childBase s (rewriteJump a) ∧ addsBlock p s a = false := by
  have hadds : addsBlock p s a = false := by
    rw [addsBlock, measuresBlock, hin, Bool.false_or, hh]
    rcases hno with h | h <;> simp [h]
  refine ⟨?_, hadds⟩
  rw [recordBase, hadds, hh, hin]
  rfl

lemma Switch.recordMove (hh : handled p s a = true) (hin : (a.type.isJump && internal a) = false)
    (hsw : Switch p { s with noHwIntFromHead := !leavesFromHead (rewriteJump a) } (rewriteJump a) s' es) :
    RecordMove p s a { s' with cursor := some (rewriteJump a) } es := by
  have hbase := recordBase_of_switch hh hin
  have hkeep : opensFrame (rewriteJump a).type = false → childBase s (rewriteJump a) = none →
      recordBase p s a = none := fun hno hnone => (hbase (Or.inl hno)).1.trans hnone
  have hgo := goes_of_handled hh
  have hw := not_wakes_of_handled hh
  have hclosed : closedCall p s a = finishedCall s (rewriteJump a) := by
    rw [closedCall, hh, hin]
    rfl
  have hopen : isReturn (rewriteJump a).type = false → closedCall p s a = none :=
    fun hr => hclosed.trans (finishedCall_of_not_return hr)
  cases hsw with
  | resume ht hst htop hsome =>
    obtain ⟨hrec, hadds⟩ := hbase (Or.inl (by rw [ht]; rfl))
    refine .record (hrec.trans hsome) (hopen (by rw [ht]; rfl)) ?_ rfl rfl rfl
    rw [recordName, hadds, ht, ← rewriteJump_ts a]
    rfl
  | reopen ht _ _ hnone =>
    exact .keep hgo (hkeep (by rw [ht]; rfl) hnone) (hopen (by rw [ht]; rfl)) hw rfl (Or.inr rfl)
      (Or.inl rfl) (by simp)
  | lose ht hnone =>
    exact .keep hgo (hkeep (by rw [ht]; rfl) hnone) (hopen (by rw [ht]; rfl)) hw rfl (Or.inr rfl)
      (Or.inl rfl) (by simp)
  | call hc hcall =>
    exact .keep hgo ((hbase (Or.inr hc)).1.trans (childBase_of_opensFrame hcall))
      (hopen (not_return_of_opensFrame hcall)) hw rfl (Or.inr rfl) (Or.inl rfl) (by simp)
  | blockCall hc hcall hcur hb =>
    refine hb.recordMove (s := s) hcur ?_ hgo (hopen (not_return_of_opensFrame hcall)) hw rfl rfl rfl rfl
      (rewriteJump_fromSym a) (rewriteJump_ts a) rfl rfl (Or.inr rfl)
    rw [addsBlock, hc, measuresBlock, hh, hin, hcall]
    rfl
  | traceEnd ht =>
    exact .keep hgo (hkeep (by rw [ht]; rfl) (childBase_of_trEnd ht)) (hopen (by rw [ht]; rfl)) hw rfl
      (Or.inl rfl) (Or.inl rfl) (by simp)
  | finish ht hst hfrom hto hnone =>
    refine .finish (hkeep (opensFrame_of_isReturn ht) hnone) (hclosed.trans ?_) rfl rfl rfl rfl
    rw [rewriteJump_fromTarget] at hfrom
    rw [finishedCall, show s.stack = _ from hst]
    simp [ht, hfrom, hto]
  | back ht _ _ hsome =>
    obtain ⟨hrec, hadds⟩ := hbase (Or.inl (opensFrame_of_isReturn ht))
    refine .record (hrec.trans hsome) (hclosed.trans (finishedCall_of_childBase hsome)) ?_ rfl rfl rfl
    rw [recordName, hadds, ← rewriteJump_ts a]
    rfl
  | wrong ht hnone hcall =>
    exact .keep hgo (hkeep (opensFrame_of_isReturn ht) hnone) (hclosed.trans hcall) hw rfl (Or.inr rfl)
      (Or.inr rfl) (by simp)
  | other ht =>
    obtain ⟨hno, hnone⟩ := still_of_movesStack (s := s) ht
    exact .keep hgo (hkeep hno hnone) (hopen (not_return_of_still ht)) hw rfl (Or.inl rfl) (Or.inl rfl)
      (by simp)

lemma Move.recordMove (h : Move p s a s' es) : RecordMove p s a s' es := by
  cases h with
  | error he => exact .error he rfl rfl
  | start hs => exact .start hs rfl rfl
  | pass he hs hh hes hw =>
    refine .keep (by rw [he, hs]; rfl) (recordBase_of_not_handled hh) (closedCall_of_not_handled hh) hw rfl
      (Or.inl rfl) (Or.inl rfl) fun e he => ?_
    rcases hes e he with rfl | rfl <;> rfl
  | schedBegin he hs hh hw =>
    exact .keep (by rw [he, hs]; rfl) (recordBase_of_not_handled hh) (closedCall_of_not_handled hh) hw rfl
      (Or.inl rfl) (Or.inl rfl) (by simp)
  | schedEnd he hs hh hb hw =>
    exact .wake (by rw [he, hs]; rfl) (recordBase_of_not_handled hh) (closedCall_of_not_handled hh) hw hb rfl rfl
  | jump hh hin hc hcur hb =>
    have hadds : addsBlock p s a = true := by rw [addsBlock, hc, measuresBlock, hh, hin]; rfl
    have hcall : closedCall p s a = none := by
      rw [closedCall, hin, Bool.not_true, Bool.and_false, if_neg Bool.false_ne_true]
    exact hb.recordMove hcur hadds (goes_of_handled hh) hcall (not_wakes_of_handled hh)
      rfl rfl rfl rfl rfl rfl rfl rfl (Or.inl rfl)
  | switch hh hin hsw => exact Switch.recordMove hh hin hsw

lemma handled_of_recordBase (h : recordBase p s a = some b) : handled p s a = true := by
  by_contra hn
  rw [recordBase_of_not_handled (Bool.eq_false_of_not_eq_true hn)] at h
  cases h

lemma handled_of_closedCall (h : closedCall p s a = some b) : handled p s a = true := by
  by_contra hn
  rw [closedCall_of_not_handled (Bool.eq_false_of_not_eq_true hn)] at h
  cases h

lemma closedCall_mem (h : closedCall p s a = some b) : b ∈ s.stack := by
  rw [closedCall] at h
  split at h
  · rw [finishedCall] at h
    split at h
    · rename_i start hst
      split at h
      · cases h
        rw [hst]
        exact List.mem_singleton_self _
      · cases h
    · cases h
  · cases h

lemma closedCall_of_callWithSelf (h : callWithSelf p s a = some b) : closedCall p s a = some b := by
  rw [callWithSelf] at h
  split at h
  · cases h
  · exact (Option.filter_eq_some_iff.mp (Option.filter_eq_some_iff.mp h).1).1

end Records

section Bases

variable {p : Param} {s s' : State} {a c : Action} {rest : List Action} {es : List Effect} {now : ℕ}

structure NotAfter (now : ℕ) (s : State) : Prop where
  stack : ∀ e ∈ s.stack, e.ts.toNat ≤ now
  cursor : ∀ c ∈ s.cursor, c.ts.toNat ≤ now
  mark : ∀ b ∈ s.schedBegin, b.ts.toNat ≤ now

lemma Move.bases {Q : Action → Prop} (hm : Move p s a s' es) (ha : Q a) (hjump : Q (rewriteJump a))
    (hstack : ∀ e ∈ s.stack, Q e) (hcursor : ∀ c ∈ s.cursor, Q c) :
    (∀ e ∈ s'.stack, Q e) ∧ ∀ c ∈ s'.cursor, Q c := by
  constructor
  · intro e he
    rcases hm.stackMove with ⟨-, hst⟩ | ⟨-, hst, -⟩ | ⟨k, -, hst⟩
    · rw [hst] at he
      rwa [List.mem_singleton.mp he]
    · rw [hst] at he
      rcases List.mem_cons.mp he with rfl | he
      · exact hjump
      · exact hstack e he
    · rw [hst] at he
      exact hstack e (List.mem_of_mem_drop he)
  · intro c hc
    rcases hm.cursor with ⟨-, hcur | hcur⟩ | ⟨-, hcur⟩
    · rw [hcur] at hc
      cases hc
      exact ha
    · rw [hcur] at hc
      cases hc
      exact hjump
    · rw [hcur] at hc
      exact hcursor c hc

lemma Move.mark (hm : Move p s a s' es) :
    s'.schedBegin = s.schedBegin ∨ s'.schedBegin = none ∨ s'.schedBegin = some a := by
  have ht := hm.targetTick
  generalize s'.schedBegin = mark, s'.schedInTarget = counted at ht ⊢
  cases ht with
  | keep | reset => exact Or.inl rfl
  | drop | count | clear => exact Or.inr (Or.inl rfl)
  | begin => exact Or.inr (Or.inr rfl)

lemma NotAfter.next (h : NotAfter now s) (hm : Move p s a s' es) (hnow : now ≤ a.ts.toNat) :
    NotAfter a.ts.toNat s' := by
  obtain ⟨hstack, hcursor⟩ := hm.bases (Q := fun e => e.ts.toNat ≤ a.ts.toNat) le_rfl
    (by rw [rewriteJump_ts]) (fun e he => (h.stack e he).trans hnow) fun c hc => (h.cursor c hc).trans hnow
  refine ⟨hstack, hcursor, fun b hb => ?_⟩
  rcases hm.mark with heq | heq | heq
  · exact (h.mark b (heq ▸ hb)).trans hnow
  · rw [heq] at hb
    cases hb
  · rw [heq] at hb
    cases hb
    exact le_rfl

lemma childBase_mem (h : childBase s a = some c) : c ∈ s.stack := by
  rw [childBase] at h
  split at h
  · cases h
  · rename_i top stack hst
    have htop : c = top := by
      split at h
      · split at h <;> cases h
        rfl
      · split at h
        · split at h
          · cases h
          · split at h <;> cases h
            rfl
        · cases h
    rw [htop, hst]
    exact List.mem_cons_self

lemma recordBase_mem (h : recordBase p s a = some c) : c ∈ s.stack ∨ s.cursor = some c := by
  rw [recordBase] at h
  split at h
  · exact Or.inr (Option.filter_eq_some_iff.mp h).1
  · split at h
    · exact Or.inl (childBase_mem h)
    · cases h

lemma NotAfter.base (h : NotAfter now s) (hbase : recordBase p s a = some c) : c.ts.toNat ≤ now := by
  rcases recordBase_mem hbase with hmem | hmem
  · exact h.stack c hmem
  · exact h.cursor c hmem

lemma addCodeBlock_exceeds (h : addCodeBlock s a = .error .schedExceedsLatency) :
    ∃ c, blockBase s a = some c ∧ a.ts - c.ts < s.schedInChild := by
  rw [addCodeBlock] at h
  split at h
  · cases h
  · rename_i c hc
    split at h
    · cases h
    · rename_i hoff
      dsimp only at h
      split at h
      · rename_i hlt
        exact ⟨c, by simpa [blockBase, hc] using hoff, hlt⟩
      · cases h

lemma callStep_error {f : Fault} (h : callStep p s a = .error f) :
    p.codeBlock = true ∧ addCodeBlock s a = .error f := by
  rw [callStep] at h
  cases hc : p.codeBlock with
  | false =>
    rw [hc] at h
    cases h
  | true =>
    rw [hc] at h
    exact ⟨rfl, Runs.error_of_bind h fun _ hok => by cases hok⟩

lemma dispatch_error {f : Fault} (h : dispatch p s a = .error f) :
    opensFrame a.type = true ∧ callStep p s a = .error f := by
  rw [dispatch] at h
  cases hty : a.type <;> rw [hty] at h <;>
    first | exact ⟨rfl, Runs.error_of_bind h fun _ hok => by cases hok⟩ | cases h

/-- Only `add_code_block` asserts that the time off the cpu fits. -/
lemma step_exceeds (h : step p s a rest = .error .schedExceedsLatency) :
    ∃ c, recordBase p s a = some c ∧ a.ts - c.ts < s.schedInChild := by
  cases hh : handled p s a with
  | false =>
    rw [step_of_not_handled hh] at h
    split_ifs at h
  | true =>
    have hblock : p.codeBlock = true →
        (a.type.isJump && internal a || opensFrame (rewriteJump a).type) = true →
        recordBase p s a = blockBase s a := by
      intro hc hadds
      rw [recordBase, if_pos (by rw [addsBlock, hc, measuresBlock, hh, hadds]; rfl)]
    rw [step_of_handled hh, branchStep] at h
    split at h
    · rename_i hj
      split at h
      · rename_i hc
        obtain ⟨c, hbase, hlt⟩ := addCodeBlock_exceeds (Runs.error_of_bind h fun _ hok => by cases hok)
        have hin : (a.type.isJump && internal a) = true := by
          simpa [internal, handled_isError hh, Bool.and_assoc] using hj
        exact ⟨c, by rw [hblock hc (by rw [hin]; rfl), hbase], hlt⟩
      · cases h
    · split at h
      · cases h
      · obtain ⟨hcall, hstep⟩ := dispatch_error (Runs.error_of_bind h fun _ hok => by cases hok)
        obtain ⟨hc, hadd⟩ := callStep_error hstep
        obtain ⟨c, hbase, hlt⟩ := addCodeBlock_exceeds hadd
        rw [rewriteJump_ts] at hlt
        refine ⟨c, ?_, hlt⟩
        rw [hblock hc (by rw [hcall, Bool.or_true]), ← hbase, blockBase, blockBase, rewriteJump_fromSym]

end Bases

end PtPerf.Analysis
