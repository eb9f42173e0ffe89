import PtPerf.Analysis.OffCpu

/-! Complete calls of the target with pairs of schedule marks in the target and in its children.
The time of a pair passes through a 32-bit word on its way to the two accumulators. -/

namespace PtPerf.Analysis

open PtPerf.Support PtPerf.Trace PtPerf.Stats

/-- A thread is scheduled out and in again. -/
structure Sleep where
  out : Action
  back : Action

namespace Sleep

def actions (z : Sleep) : List Action := [z.out, z.back]

def duration (z : Sleep) : ℕ := z.back.ts.toNat - z.out.ts.toNat

/-- What is left of the duration in `uint32_t sched_time`. -/
def counted (z : Sleep) : ℕ := z.duration % 2 ^ 32

structure IsPair (z : Sleep) : Prop where
  outError : z.out.isError = false
  outEnters : entersTarget z.out = false
  schedBegin : z.out.schedBegin = true
  backError : z.back.isError = false
  backEnters : entersTarget z.back = false
  notBegin : z.back.schedBegin = false
  schedEnd : z.back.schedEnd = true

end Sleep

/-- A stretch of a call of the target: a sleep in the target itself, or a child with its sleeps. -/
inductive Piece
  | sleep (z : Sleep)
  | child (it : Item) (inside : List Sleep)

namespace Piece

def actions : Piece → List Action
  | .sleep z => z.actions
  | .child it inside => it.leave :: (inside.flatMap Sleep.actions ++ [it.back])

def sleeps : Piece → List Sleep
  | .sleep z => [z]
  | .child _ inside => inside

def WellFormed : Piece → Prop
  | .sleep z => z.IsPair
  | .child it inside => it.IsCallReturn ∧ ∀ z ∈ inside, z.IsPair

end Piece

structure Visit where
  start : Action
  pieces : List Piece
  finish : Action

def slept (length : Sleep → ℕ) (zs : List Sleep) : ℕ := (zs.map length).sum

structure SchedEntry where
  name : Str
  wall : UInt64
  sched : ℕ

def recordEntries (es : List SchedEntry) : LatencyChild :=
  es.foldl (fun c e => (c.addTarget e.name e.wall).addSched e.name (.ofNat e.sched)) .clear

/-- The code block that ends where the target is left. -/
def schedBlock (p : Param) (prev leave : Action) (own : ℕ) : List SchedEntry :=
  if p.codeBlock = true ∧ leave.fromSym.offset ≠ prev.toSym.offset then
    [⟨codeBlockName prev leave, leave.ts - prev.ts, own⟩]
  else []

/-- The records of some stretches after `prev`, `own` being the sleep in the target since. -/
def pieceEntries (p : Param) (length : Sleep → ℕ) : Action → ℕ → List Piece → List SchedEntry
  | _, _, [] => []
  | prev, own, .sleep z :: rest => pieceEntries p length prev (own + length z) rest
  | prev, own, .child it inside :: rest =>
    schedBlock p prev it.leave own ++ ⟨it.key p, it.duration, slept length inside⟩ ::
      pieceEntries p length it.back 0 rest

namespace Visit

def actions (v : Visit) : List Action := v.start :: (v.pieces.flatMap Piece.actions ++ [v.finish])

def sleeps (v : Visit) : List Sleep := v.pieces.flatMap Piece.sleeps

structure WellFormed (v : Visit) : Prop where
  start : Enters v.start
  pieces : ∀ x ∈ v.pieces, x.WellFormed
  finish : Ends v.finish

def child (p : Param) (length : Sleep → ℕ) (v : Visit) : LatencyChild :=
  recordEntries (pieceEntries p length v.start 0 v.pieces)

/-- The call is handed over with the exact sum of its sleeps, and with the exact sum of its own
sleeps for every child. -/
def Exact (p : Param) (v : Visit) (e : Effect) : Prop :=
  ∃ latS, latS.toNat = slept Sleep.duration v.sleeps ∧
    e = .add v.start v.finish latS (v.child p Sleep.duration)

end Visit

lemma recordEntries_append (es : List SchedEntry) (e : SchedEntry) : recordEntries (es ++ [e]) =
    ((recordEntries es).addTarget e.name e.wall).addSched e.name (.ofNat e.sched) := by
  simp [recordEntries]

/-- Executing the target on top of `frames`: the records so far, the time off the cpu in the call,
and the part of it that the next record gets. -/
structure Awake (s : State) (frames : List Action) (es : List SchedEntry) (inTarget inChild : ℕ) :
    Prop where
  stack : s.stack = frames
  child : s.child = recordEntries es
  schedInTarget : s.schedInTarget = .ofNat inTarget
  schedInChild : s.schedInChild = .ofNat inChild
  schedBegin : s.schedBegin = none

section Sleeping

variable {p : Param} {s : State} {frames : List Action} {es : List SchedEntry} {m n : ℕ} {z : Sleep}

lemma ofNat_sched (z : Sleep) (h : z.out.ts ≤ z.back.ts) :
    (z.back.ts - z.out.ts).toUInt32.toUInt64 = .ofNat z.counted := by
  apply UInt64.toNat_inj.mp
  have hlt : z.counted < 2 ^ 64 := (Nat.mod_lt _ (by decide)).trans (by decide)
  rw [toNat_sched, UInt64.toNat_sub_of_le _ _ h, UInt64.toNat_ofNat_of_lt' hlt]
  rfl

/-- The marks of a pair are taken before the switch: only the accumulators change. -/
lemma sleep_run (hp : p.ancestor = []) (hz : z.IsPair) (hle : z.out.ts ≤ z.back.ts)
    (h : Awake s frames es n m) :
    ∃ s', Runs.run (step p) s z.actions = .ok (s', [.countSched]) ∧
      Awake s' frames es (n + z.counted) (m + z.counted) ∧
      s'.noHwIntFromHead = s.noHwIntFromHead ∧ s'.cursor = s.cursor ∧
      s'.prevTargetError = s.prevTargetError := by
  have h₁ : step p s z.out [z.back] = .ok ({ s with schedBegin := some z.out }, []) := by
    simp [step, hz.outError, hz.outEnters, hp, hz.schedBegin]
  have h₂ : step p { s with schedBegin := some z.out } z.back [] =
      .ok ({ s with
        schedInTarget := s.schedInTarget + .ofNat z.counted
        schedInChild := s.schedInChild + .ofNat z.counted
        schedBegin := none }, [.countSched]) := by
    rw [← ofNat_sched z hle]
    simp [step, hz.backError, hz.backEnters, hp, hz.notBegin, hz.schedEnd, schedEndStep]
  refine ⟨_, Runs.run_cons_ok h₁ (Runs.run_cons_ok h₂ rfl), ⟨h.stack, h.child, ?_, ?_, rfl⟩, rfl, rfl, rfl⟩
  · change s.schedInTarget + _ = _
    rw [h.schedInTarget, UInt64.ofNat_add]
  · change s.schedInChild + _ = _
    rw [h.schedInChild, UInt64.ofNat_add]

lemma sleeps_run (hp : p.ancestor = []) (zs : List Sleep) (hz : ∀ z ∈ zs, z.IsPair)
    (hle : ∀ z ∈ zs, z.out.ts ≤ z.back.ts) (h : Awake s frames es n m) :
    ∃ s' out, Runs.run (step p) s (zs.flatMap Sleep.actions) = .ok (s', out) ∧
      out.filter Effect.isAdd = [] ∧
      Awake s' frames es (n + slept Sleep.counted zs) (m + slept Sleep.counted zs) ∧
      s'.noHwIntFromHead = s.noHwIntFromHead ∧ s'.cursor = s.cursor ∧
      s'.prevTargetError = s.prevTargetError := by
  induction zs generalizing s n m with
  | nil => exact ⟨s, [], rfl, rfl, h, rfl, rfl, rfl⟩
  | cons z zs ih =>
    rw [List.forall_mem_cons] at hz hle
    obtain ⟨s₁, h₁, hs₁, hn₁, hc₁, he₁⟩ := sleep_run hp hz.1 hle.1 h
    obtain ⟨s₂, out, h₂, hout, hs₂, hn₂, hc₂, he₂⟩ := ih hz.2 hle.2 hs₁
    refine ⟨s₂, .countSched :: out, ?_, hout, ?_, hn₂.trans hn₁, hc₂.trans hc₁, he₂.trans he₁⟩
    · rw [List.flatMap_cons]
      exact Runs.run_append_ok (step_local hp) h₁ h₂
    · rw [slept, List.map_cons, List.sum_cons, ← Nat.add_assoc, ← Nat.add_assoc]
      exact hs₂

end Sleeping

section Switching

variable {p : Param} {s : State} {frames : List Action} {es : List SchedEntry} {m n : ℕ}
  {prev leave start a : Action}

lemma addCodeBlock_awake (hcur : CursorAt s prev) (h : Awake s frames es n m)
    (hm : m + prev.ts.toNat ≤ a.ts.toNat) : ∃ s', addCodeBlock s a = .ok s' ∧
      s'.child = recordEntries (es ++ if a.fromSym.offset ≠ prev.toSym.offset then
        [⟨codeBlockName prev a, a.ts - prev.ts, m⟩] else []) ∧
      s'.stack = s.stack ∧ s'.schedInTarget = s.schedInTarget ∧
      s'.noHwIntFromHead = s.noHwIntFromHead ∧ s'.prevTargetError = s.prevTargetError := by
  obtain ⟨c, hc, hto, hts⟩ := hcur
  have hname : codeBlockName c a = codeBlockName prev a := by rw [codeBlockName, codeBlockName, hto]
  have hlt : m < 2 ^ 64 := (le_of_add_le_left hm).trans_lt a.ts.toNat_lt
  have hwall : ¬ a.ts - prev.ts < UInt64.ofNat m := by
    have hle : prev.ts ≤ a.ts := UInt64.le_iff_toNat_le.mpr (by omega)
    rw [UInt64.lt_iff_toNat_lt, UInt64.toNat_ofNat_of_lt' hlt, UInt64.toNat_sub_of_le _ _ hle]
    omega
  simp only [addCodeBlock, hc, hto, hts, hname, h.schedInChild, if_neg hwall, beq_iff_eq]
  by_cases hoff : a.fromSym.offset = prev.toSym.offset
  · rw [if_pos hoff]
    refine ⟨s, rfl, ?_, rfl, rfl, rfl, rfl⟩
    simp [hoff, h.child]
  · rw [if_neg hoff]
    refine ⟨_, rfl, ?_, rfl, rfl, rfl, rfl⟩
    rw [if_pos hoff, recordEntries_append, h.child]

lemma callStep_awake (hcur : CursorAt s prev) (h : Awake s frames es n m)
    (hm : m + prev.ts.toNat ≤ a.ts.toNat) : ∃ s', callStep p s a = .ok s' ∧
      Awake s' (a :: frames) (es ++ schedBlock p prev a m) n 0 ∧
      s'.noHwIntFromHead = s.noHwIntFromHead ∧ s'.prevTargetError = s.prevTargetError := by
  rw [callStep, schedBlock]
  cases hb : p.codeBlock with
  | false =>
    refine ⟨_, rfl, ⟨congrArg _ h.stack, ?_, h.schedInTarget, rfl, rfl⟩, rfl, rfl⟩
    simp [h.child]
  | true =>
    obtain ⟨s', hadd, hchild, hstack, htarget, hn, he⟩ := addCodeBlock_awake hcur h hm
    rw [if_pos rfl, hadd]
    refine ⟨_, rfl, ⟨?_, ?_, htarget.trans h.schedInTarget, rfl, rfl⟩, hn, he⟩
    · exact congrArg _ (hstack.trans h.stack)
    · simpa using hchild

lemma schedBlock_rewriteJump : schedBlock p prev (rewriteJump a) m = schedBlock p prev a m := by
  simp [schedBlock, codeBlockName]

lemma leave_awake (hp : p.ancestor = []) (rest : List Action) (hcur : CursorAt s prev)
    (h : Awake s frames es n m) (hm : m + prev.ts.toNat ≤ a.ts.toNat) (hl : Leaves a)
    (hcall : isCallLike a) : ∃ s', step p s a rest = .ok (s', []) ∧
      Awake s' (rewriteJump a :: frames) (es ++ schedBlock p prev a m) n 0 ∧
      s'.noHwIntFromHead = !leavesFromHead a ∧ s'.prevTargetError = s.prevTargetError := by
  have h' : Awake { s with noHwIntFromHead := !leavesFromHead (rewriteJump a) } frames es n m :=
    ⟨h.stack, h.child, h.schedInTarget, h.schedInChild, h.schedBegin⟩
  have hcur' : CursorAt { s with noHwIntFromHead := !leavesFromHead (rewriteJump a) } prev := hcur
  obtain ⟨s', hstep, haw, hn, he⟩ :=
    callStep_awake (p := p) (a := rewriteJump a) hcur' h' (by rwa [rewriteJump_ts])
  rw [step_branch rest hp hl.toPlain (by simp [entersTarget, hl.toTarget]),
    branchStep_chain (by simp [hl.fromTarget, hl.toTarget]), chainStep,
    dispatch_opening (hcall.opensFrame hl.fromTarget), hstep]
  rw [schedBlock_rewriteJump] at haw
  refine ⟨_, rfl, ⟨haw.stack, haw.child, haw.schedInTarget, haw.schedInChild, haw.schedBegin⟩, ?_, he⟩
  rw [← leavesFromHead_rewriteJump]
  exact hn

lemma returnStep_awake (h : Awake s (leave :: frames) es n m) (hl : leave.fromTarget = true)
    (hl' : leave.toTarget = false) (ht : a.type = .ret ∨ a.type = .iret) :
    returnStep p s a = ({ s with
      child := recordEntries (es ++ [⟨childName p leave false (a.type == .iret), a.ts - leave.ts, m⟩])
      schedInChild := 0, stack := frames }, []) := by
  rw [returnStep_top h.stack hl hl' ht]
  simp only [addOneChild, recordEntries_append, h.child, h.schedInChild, Bool.false_eq_true, if_false]

lemma back_awake (hp : p.ancestor = []) (rest : List Action) {it : Item}
    (h : Awake s (rewriteJump it.leave :: frames) es n m) (hc : it.IsCallReturn)
    (hn : s.noHwIntFromHead = !leavesFromHead it.leave) :
    ∃ s', step p s it.back rest = .ok (s', []) ∧
      Awake s' frames (es ++ [⟨it.key p, it.duration, m⟩]) n 0 ∧ s'.noHwIntFromHead = true ∧
      CursorAt s' it.back ∧ s'.prevTargetError = s.prevTargetError := by
  have htype := hc.returnLike.type hc.back.fromTarget
  have hstart : (entersTarget it.back && s.noHwIntFromHead) = false := by
    rw [hn]
    exact hc.returnLike.not_start hc.leave.fromTarget
  have h' : Awake { s with noHwIntFromHead := !leavesFromHead (rewriteJump it.back) }
      (rewriteJump it.leave :: frames) es n m :=
    ⟨h.stack, h.child, h.schedInTarget, h.schedInChild, h.schedBegin⟩
  have hiret : ((rewriteJump it.back).type == .iret) = (it.back.type == .iret) :=
    rewriteJump_type_beq it.back .iret (by decide) (by decide) (by decide)
  have hret := returnStep_awake (p := p) (a := rewriteJump it.back) h'
    (by rw [rewriteJump_fromTarget, hc.leave.fromTarget])
    (by rw [rewriteJump_toTarget, hc.leave.toTarget]) htype
  have hhead : leavesFromHead (rewriteJump it.back) = false := by
    simp [leavesFromHead, hc.back.fromTarget]
  rw [step_branch rest hp hc.back.toPlain hstart,
    branchStep_chain (by simp [hc.back.fromTarget, hc.back.toTarget]), chainStep,
    dispatch_returning (htype.imp_right Or.inl), hret]
  refine ⟨_, rfl, ⟨rfl, ?_, h.schedInTarget, rfl, h.schedBegin⟩, ?_, ?_, rfl⟩
  · simp [hiret, childName_rewriteJump, Item.key, Item.duration]
  · simp [hhead]
  · exact ⟨rewriteJump it.back, rfl, rewriteJump_toSym _, rewriteJump_ts _⟩

/-- Between two calls; what the accumulators hold is dropped when the next one starts. -/
structure Resting (s : State) : Prop where
  stack : s.stack = []
  child : s.child = .clear
  prevTargetError : s.prevTargetError = false
  noHwIntFromHead : s.noHwIntFromHead = true

lemma enter_awake (rest : List Action) (h : Resting s) (ha : Enters a) :
    ∃ s', step p s a rest = .ok (s', []) ∧ Awake s' [a] [] 0 0 ∧ s'.noHwIntFromHead = true ∧
      CursorAt s' a ∧ s'.prevTargetError = false := by
  have hflush : startStep p s a = ((startStep p s a).1, []) := by
    have hu : unfinished p s a = .clear := by simp [unfinished, h.stack, h.child]
    have hm : missed s a = [] := by simp [missed, h.prevTargetError]
    rw [startStep, hu, hm]
    rfl
  rw [step_start rest ha h.noHwIntFromHead, hflush]
  exact ⟨_, rfl, ⟨rfl, rfl, rfl, rfl, rfl⟩, h.noHwIntFromHead, ⟨a, rfl, rfl, rfl⟩, rfl⟩

lemma finish_awake (hp : p.ancestor = []) (rest : List Action) (h : Awake s [start] es n m)
    (hs : start.toTarget = true) (he : s.prevTargetError = false) (ha : Ends a) :
    ∃ s', step p s a rest = .ok (s', [.add start a (.ofNat n) (recordEntries es)]) ∧ Resting s' := by
  have hst : { s with noHwIntFromHead := true }.stack = [start] := h.stack
  rw [step_ends hp rest ha, returnStep_done hst hs ha.fromTarget, ← h.schedInTarget, ← h.child]
  exact ⟨_, rfl, rfl, rfl, he, rfl⟩

end Switching

section Visits

variable {p : Param} {s : State} {frames : List Action} {es : List SchedEntry} {m n now : ℕ}
  {prev : Action} {zs : List Sleep}

lemma SortedByTime.sleep_le (h : SortedByTime (zs.flatMap Sleep.actions)) {z : Sleep} (hz : z ∈ zs) :
    z.out.ts ≤ z.back.ts := by
  have hsub : z.actions.Sublist (zs.flatMap Sleep.actions) := by
    rw [List.flatMap_def]
    exact List.sublist_flatten_of_mem (List.mem_map_of_mem hz)
  exact List.rel_of_pairwise_cons (h.sublist hsub) (List.mem_singleton_self z.back)

lemma child_run (hp : p.ancestor = []) {it : Item} (hc : it.IsCallReturn)
    (hz : ∀ z ∈ zs, z.IsPair) (hle : ∀ z ∈ zs, z.out.ts ≤ z.back.ts) (hcur : CursorAt s prev)
    (h : Awake s frames es n m) (hm : m + prev.ts.toNat ≤ it.leave.ts.toNat) :
    ∃ s' out, Runs.run (step p) s (Piece.child it zs).actions = .ok (s', out) ∧
      out.filter Effect.isAdd = [] ∧
      Awake s' frames (es ++ (schedBlock p prev it.leave m ++
        [⟨it.key p, it.duration, slept Sleep.counted zs⟩])) (n + slept Sleep.counted zs) 0 ∧
      s'.noHwIntFromHead = true ∧ CursorAt s' it.back ∧ s'.prevTargetError = s.prevTargetError := by
  obtain ⟨s₁, h₁, ha₁, hn₁, he₁⟩ := leave_awake hp (zs.flatMap Sleep.actions ++ [it.back]) hcur h hm
    hc.leave hc.callLike
  obtain ⟨s₂, out, h₂, hout, ha₂, hn₂, -, he₂⟩ := sleeps_run hp zs hz hle ha₁
  rw [Nat.zero_add] at ha₂
  obtain ⟨s₃, h₃, ha₃, hn₃, hc₃, he₃⟩ := back_awake hp [] ha₂ hc (hn₂.trans hn₁)
  have htail := Runs.run_append_ok (step_local hp) h₂ (Runs.run_cons_ok h₃ rfl)
  have hrun := Runs.run_cons_ok h₁ htail
  rw [List.nil_append, List.append_nil, List.append_nil] at hrun
  refine ⟨s₃, out, hrun, hout, ?_, hn₃, hc₃, he₃.trans (he₂.trans he₁)⟩
  rw [← List.append_assoc]
  exact ha₃

lemma pieces_run (hp : p.ancestor = []) (pieces : List Piece) (hw : ∀ x ∈ pieces, x.WellFormed)
    (hcur : CursorAt s prev) (h : Awake s frames es n m) (hn : s.noHwIntFromHead = true)
    (hm : m + prev.ts.toNat ≤ now) (hsorted : SortedByTime (pieces.flatMap Piece.actions))
    (hnow : ∀ a ∈ pieces.flatMap Piece.actions, now ≤ a.ts.toNat) :
    ∃ s' out m', Runs.run (step p) s (pieces.flatMap Piece.actions) = .ok (s', out) ∧
      out.filter Effect.isAdd = [] ∧
      Awake s' frames (es ++ pieceEntries p Sleep.counted prev m pieces)
        (n + slept Sleep.counted (pieces.flatMap Piece.sleeps)) m' ∧
      s'.noHwIntFromHead = true ∧ s'.prevTargetError = s.prevTargetError := by
  induction pieces generalizing s prev es n m now with
  | nil => exact ⟨s, [], m, rfl, rfl, by simpa [pieceEntries, slept] using h, hn, rfl⟩
  | cons x pieces ih =>
    rw [List.forall_mem_cons] at hw
    rw [List.flatMap_cons] at hsorted hnow ⊢
    obtain ⟨hfirst, hrest, hcross⟩ := List.pairwise_append.mp hsorted
    cases x with
    | sleep z =>
      have hle : z.out.ts ≤ z.back.ts := List.rel_of_pairwise_cons hfirst (List.mem_singleton_self _)
      have hout := hnow z.out (List.mem_append_left _ List.mem_cons_self)
      have hcount : z.counted ≤ z.back.ts.toNat - z.out.ts.toNat := Nat.mod_le _ _
      have hlen := UInt64.le_iff_toNat_le.mp hle
      obtain ⟨s₁, h₁, ha₁, hn₁, hc₁, he₁⟩ := sleep_run hp hw.1 hle h
      have hcur₁ : CursorAt s₁ prev := by rwa [CursorAt, hc₁]
      obtain ⟨s₂, out, m', h₂, hadd, ha₂, hn₂, he₂⟩ := ih hw.2 hcur₁ ha₁ (hn₁.trans hn)
        (show m + z.counted + prev.ts.toNat ≤ z.back.ts.toNat by omega) hrest
        fun a ha => UInt64.le_iff_toNat_le.mp (hcross z.back (by simp [Piece.actions, Sleep.actions]) a ha)
      refine ⟨s₂, .countSched :: out, m', Runs.run_append_ok (step_local hp) h₁ h₂, hadd, ?_, hn₂,
        he₂.trans he₁⟩
      simpa [pieceEntries, slept, Piece.sleeps, Nat.add_assoc] using ha₂
    | child it inside =>
      have hleave := hnow it.leave (List.mem_append_left _ List.mem_cons_self)
      have hinside : SortedByTime (inside.flatMap Sleep.actions) :=
        (List.pairwise_append.mp (List.pairwise_cons.mp hfirst).2).1
      obtain ⟨s₁, out₁, h₁, hadd₁, ha₁, hn₁, hc₁, he₁⟩ := child_run hp hw.1.1 hw.1.2
        (fun z hz => hinside.sleep_le hz) hcur h (hm.trans hleave)
      obtain ⟨s₂, out₂, m', h₂, hadd₂, ha₂, hn₂, he₂⟩ := ih hw.2 hc₁ ha₁ hn₁
        (show 0 + it.back.ts.toNat ≤ it.back.ts.toNat by omega) hrest
        fun a ha => UInt64.le_iff_toNat_le.mp (hcross it.back (by simp [Piece.actions]) a ha)
      refine ⟨s₂, out₁ ++ out₂, m', Runs.run_append_ok (step_local hp) h₁ h₂, ?_, ?_, hn₂, he₂.trans he₁⟩
      · rw [List.filter_append, hadd₁, hadd₂]
        rfl
      · simpa [pieceEntries, slept, Piece.sleeps, Nat.add_assoc] using ha₂

def Visit.effect (p : Param) (v : Visit) : Effect :=
  .add v.start v.finish (.ofNat (slept Sleep.counted v.sleeps)) (v.child p Sleep.counted)

lemma visit_run (hp : p.ancestor = []) {v : Visit} (h : Resting s) (hw : v.WellFormed)
    (hsorted : SortedByTime v.actions) :
    ∃ s' out, Runs.run (step p) s v.actions = .ok (s', out) ∧
      out.filter Effect.isAdd = [v.effect p] ∧ Resting s' := by
  obtain ⟨hfirst, hrest⟩ := List.pairwise_cons.mp hsorted
  obtain ⟨s₁, h₁, ha₁, hn₁, hc₁, he₁⟩ := enter_awake (p := p)
    (v.pieces.flatMap Piece.actions ++ [v.finish]) h hw.start
  obtain ⟨s₂, out, m, h₂, hadd, ha₂, -, he₂⟩ := pieces_run hp v.pieces hw.pieces hc₁ ha₁ hn₁
    (show 0 + v.start.ts.toNat ≤ v.start.ts.toNat by omega) (List.pairwise_append.mp hrest).1
    fun a ha => UInt64.le_iff_toNat_le.mp (hfirst a (List.mem_append_left _ ha))
  rw [List.nil_append, Nat.zero_add] at ha₂
  obtain ⟨s₃, h₃, hrest₃⟩ := finish_awake hp [] ha₂ hw.start.toTarget (he₂.trans he₁) hw.finish
  have htail := Runs.run_append_ok (step_local hp) h₂ (Runs.run_cons_ok h₃ rfl)
  have hrun := Runs.run_cons_ok h₁ htail
  rw [List.nil_append, List.append_nil] at hrun
  refine ⟨s₃, out ++ [v.effect p], hrun, ?_, hrest₃⟩
  rw [List.filter_append, hadd]
  rfl

lemma visits_run (hp : p.ancestor = []) (visits : List Visit) (h : Resting s)
    (hw : ∀ v ∈ visits, v.WellFormed) (hsorted : SortedByTime (visits.flatMap Visit.actions)) :
    ∃ s' out, Runs.run (step p) s (visits.flatMap Visit.actions) = .ok (s', out) ∧
      out.filter Effect.isAdd = visits.map (Visit.effect p) ∧ Resting s' := by
  induction visits generalizing s with
  | nil => exact ⟨s, [], rfl, rfl, h⟩
  | cons v visits ih =>
    rw [List.forall_mem_cons] at hw
    rw [List.flatMap_cons] at hsorted ⊢
    obtain ⟨hfirst, hrest, -⟩ := List.pairwise_append.mp hsorted
    obtain ⟨s₁, out₁, h₁, hadd₁, hr₁⟩ := visit_run hp h hw.1 hfirst
    obtain ⟨s₂, out₂, h₂, hadd₂, hr₂⟩ := ih hr₁ hw.2 hrest
    refine ⟨s₂, out₁ ++ out₂, Runs.run_append_ok (step_local hp) h₁ h₂, ?_, hr₂⟩
    rw [List.filter_append, hadd₁, hadd₂]
    rfl

end Visits

section Exactness

variable {p : Param} {zs : List Sleep} {lo hi : ℕ}

lemma slept_counted_le (zs : List Sleep) : slept Sleep.counted zs ≤ slept Sleep.duration zs :=
  List.sum_le_sum fun z _ => Nat.mod_le z.duration _

lemma slept_counted_eq_iff (zs : List Sleep) :
    slept Sleep.counted zs = slept Sleep.duration zs ↔ ∀ z ∈ zs, z.duration < 2 ^ 32 := by
  induction zs with
  | nil => simp [slept]
  | cons z zs ih =>
    have hle := slept_counted_le zs
    have hz : z.counted ≤ z.duration := Nat.mod_le _ _
    have hlt : z.counted = z.duration ↔ z.duration < 2 ^ 32 :=
      ⟨fun h => h ▸ Nat.mod_lt _ (by decide), Nat.mod_eq_of_lt⟩
    rw [List.forall_mem_cons, ← ih, ← hlt]
    rw [slept, slept, List.map_cons, List.map_cons, List.sum_cons, List.sum_cons, ← slept, ← slept]
    omega

lemma slept_duration_le (zs : List Sleep) (hsorted : SortedByTime (zs.flatMap Sleep.actions))
    (h : ∀ a ∈ zs.flatMap Sleep.actions, lo ≤ a.ts.toNat ∧ a.ts.toNat ≤ hi) :
    slept Sleep.duration zs ≤ hi - lo := by
  induction zs generalizing lo with
  | nil => exact Nat.zero_le _
  | cons z zs ih =>
    rw [List.flatMap_cons] at hsorted h
    obtain ⟨-, hrest, hcross⟩ := List.pairwise_append.mp hsorted
    have hout := h z.out (by simp [Sleep.actions])
    have hback := h z.back (by simp [Sleep.actions])
    have htail := ih hrest fun a ha =>
      ⟨UInt64.le_iff_toNat_le.mp (hcross z.back (by simp [Sleep.actions]) a ha),
        (h a (List.mem_append_right _ ha)).2⟩
    have hz : z.duration = z.back.ts.toNat - z.out.ts.toNat := rfl
    rw [slept, List.map_cons, List.sum_cons, ← slept]
    omega

lemma Piece.sleeps_sublist (x : Piece) : (x.sleeps.flatMap Sleep.actions).Sublist x.actions := by
  cases x with
  | sleep z => exact List.Sublist.refl _
  | child it inside => exact (List.sublist_append_left _ _).trans (List.sublist_cons_self _ _)

lemma pieces_sublist (pieces : List Piece) :
    ((pieces.flatMap Piece.sleeps).flatMap Sleep.actions).Sublist (pieces.flatMap Piece.actions) := by
  induction pieces with
  | nil => exact List.Sublist.refl _
  | cons x pieces ih =>
    rw [List.flatMap_cons, List.flatMap_cons, List.flatMap_append]
    exact x.sleeps_sublist.append ih

lemma Visit.slept_lt {v : Visit} (hsorted : SortedByTime v.actions) :
    slept Sleep.duration v.sleeps < 2 ^ 64 := by
  have hsub : (v.sleeps.flatMap Sleep.actions).Sublist v.actions :=
    (pieces_sublist v.pieces).trans ((List.sublist_append_left _ _).trans (List.sublist_cons_self _ _))
  have hrange : ∀ a ∈ v.sleeps.flatMap Sleep.actions, 0 ≤ a.ts.toNat ∧ a.ts.toNat ≤ 2 ^ 64 - 1 :=
    fun a _ => ⟨Nat.zero_le _, Nat.le_sub_one_of_lt a.ts.toNat_lt⟩
  have hle := slept_duration_le v.sleeps (hsorted.sublist hsub) hrange
  omega

lemma pieceEntries_congr {f g : Sleep → ℕ} (pieces : List Piece)
    (h : ∀ z ∈ pieces.flatMap Piece.sleeps, f z = g z) (prev : Action) (own : ℕ) :
    pieceEntries p f prev own pieces = pieceEntries p g prev own pieces := by
  induction pieces generalizing prev own with
  | nil => rfl
  | cons x pieces ih =>
    rw [List.flatMap_cons, List.forall_mem_append] at h
    cases x with
    | sleep z => rw [pieceEntries, pieceEntries, h.1 z (List.mem_singleton_self z), ih h.2]
    | child it inside =>
      have hinside : slept f inside = slept g inside := congrArg List.sum (List.map_congr_left h.1)
      rw [pieceEntries, pieceEntries, hinside, ih h.2]

lemma Visit.exact_effect_iff {v : Visit} (hsorted : SortedByTime v.actions) :
    v.Exact p (v.effect p) ↔ ∀ z ∈ v.sleeps, z.duration < 2 ^ 32 := by
  have hlt := v.slept_lt hsorted
  have hcount := slept_counted_le v.sleeps
  have htoNat : (UInt64.ofNat (slept Sleep.counted v.sleeps)).toNat = slept Sleep.counted v.sleeps :=
    UInt64.toNat_ofNat_of_lt' (hcount.trans_lt hlt)
  constructor
  · rintro ⟨latS, hlat, he⟩
    obtain ⟨-, -, rfl, -⟩ := Effect.add.inj he
    exact (slept_counted_eq_iff v.sleeps).mp (htoNat.symm.trans hlat)
  · intro h
    have hsame : ∀ z ∈ v.pieces.flatMap Piece.sleeps, z.counted = z.duration :=
      fun z hz => Nat.mod_eq_of_lt (h z hz)
    refine ⟨_, htoNat.trans ((slept_counted_eq_iff v.sleeps).mpr h), ?_⟩
    rw [Visit.effect, Visit.child, Visit.child, pieceEntries_congr v.pieces hsame]

end Exactness

lemma resting_init : Resting .init := ⟨rfl, rfl, rfl, rfl⟩

theorem off_cpu_exact_iff (p : Param) (hp : p.ancestor = []) (visits : List Visit)
    (hw : ∀ v ∈ visits, v.WellFormed) (hsorted : SortedByTime (visits.flatMap Visit.actions)) :
    (∃ s out, Runs.run (step p) .init (visits.flatMap Visit.actions) = .ok (s, out) ∧
      List.Forall₂ (Visit.Exact p) visits (out.filter Effect.isAdd)) ↔
      ∀ v ∈ visits, ∀ z ∈ v.sleeps, z.duration < 2 ^ 32 := by
  obtain ⟨s, out, hrun, hadd, -⟩ := visits_run hp visits resting_init hw hsorted
  have hone : ∀ v ∈ visits, SortedByTime v.actions := by
    intro v hv
    rw [List.flatMap_def] at hsorted
    exact hsorted.sublist (List.sublist_flatten_of_mem (List.mem_map_of_mem hv))
  have hiff : List.Forall₂ (Visit.Exact p) visits (out.filter Effect.isAdd) ↔
      ∀ v ∈ visits, ∀ z ∈ v.sleeps, z.duration < 2 ^ 32 := by
    rw [hadd, List.forall₂_map_right_iff, List.forall₂_same]
    exact forall₂_congr fun v hv => v.exact_effect_iff (hone v hv)
  rw [← hiff]
  constructor
  · rintro ⟨s', out', hrun', hexact⟩
    rw [hrun] at hrun'
    cases hrun'
    exact hexact
  · exact fun hexact => ⟨s, out, hrun, hexact⟩

namespace Sample

def nap (t u : UInt64) : Sleep := ⟨sleep t, wake u⟩

lemma nap_isPair (t u : UInt64) : (nap t u).IsPair := ⟨rfl, rfl, rfl, rfl, rfl, rfl, rfl⟩

/-- A sleep in the target, and one from 40 until `t` in a child. -/
def sleepyVisit (t : UInt64) : Visit :=
  ⟨enter 0, [.sleep (nap 10 20), .child (callItem 30 (t + 10)) [nap 40 t]], leave .ret (t + 20)⟩

lemma sleepyVisit_wellFormed (t : UInt64) : (sleepyVisit t).WellFormed where
  start := enters 0
  pieces := by
    intro x hx
    rcases List.mem_pair.mp hx with rfl | rfl
    · exact nap_isPair 10 20
    · refine ⟨callItem_isCallReturn _ _, fun z hz => ?_⟩
      rw [List.mem_singleton.mp hz]
      exact nap_isPair 40 t
  finish := ⟨leaves _ _, Or.inl rfl⟩

end Sample

open Sample in
theorem short_sleeps_exact :
    ∃ s out, Runs.run (step offcpuParam) .init ([sleepyVisit 90].flatMap Visit.actions) = .ok (s, out) ∧
      List.Forall₂ (Visit.Exact offcpuParam) [sleepyVisit 90] (out.filter Effect.isAdd) := by
  refine (off_cpu_exact_iff offcpuParam rfl [sleepyVisit 90] ?_ (by decide)).mpr ?_
  · intro v hv
    rw [List.mem_singleton.mp hv]
    exact sleepyVisit_wellFormed 90
  · intro v hv z hz
    rw [List.mem_singleton.mp hv] at hz
    rcases List.mem_pair.mp hz with rfl | rfl <;> decide

open Sample in
/-- A sleep of five seconds in a child: 705032704 nanoseconds of it are counted. -/
theorem long_sleep_truncated :
    (∀ v ∈ [sleepyVisit 5000000040], v.WellFormed) ∧
      SortedByTime ([sleepyVisit 5000000040].flatMap Visit.actions) ∧
      ¬ ∃ s out, Runs.run (step offcpuParam) .init ([sleepyVisit 5000000040].flatMap Visit.actions) =
          .ok (s, out) ∧
        List.Forall₂ (Visit.Exact offcpuParam) [sleepyVisit 5000000040] (out.filter Effect.isAdd) := by
  have hrun : (Runs.run (step offcpuParam) .init
      ([sleepyVisit 5000000040].flatMap Visit.actions)).toOption.map
        (fun r => ((r.2.filter Effect.isAdd).filterMap Effect.call?).map fun c => c.2.2) =
      some [705032714] := by decide +kernel
  refine ⟨?_, by decide, ?_⟩
  · intro v hv
    rw [List.mem_singleton.mp hv]
    exact sleepyVisit_wellFormed _
  · rintro ⟨s, out, hok, hexact⟩
    obtain ⟨_, _, ⟨latS, hlat, rfl⟩, hnil, hout⟩ := List.forall₂_cons_left_iff.mp hexact
    cases hnil
    rw [hok, Except.toOption, Option.map_some, hout] at hrun
    obtain rfl : latS = 705032714 := List.head_eq_of_cons_eq (Option.some.inj hrun)
    exact absurd hlat (by decide)

end PtPerf.Analysis
