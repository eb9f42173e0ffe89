import PtPerf.Analysis.Moves
import PtPerf.Support.Lockstep

/-! The analysis with and without code blocks. In code-block mode the branches inside the
target stay in the stream and pass through the same loop as calls and returns. -/

namespace PtPerf.Analysis

open PtPerf.Support PtPerf.Support.Lockstep PtPerf.Trace PtPerf.Stats

/-- The target latencies, overall and for each caller. -/
def ownLatency : Tally →+ Distribution × (Str → Distribution) where
  toFun t := (t.latency.target, fun c => (t.callers.get c).latency.target)
  map_zero' := by
    apply Prod.ext
    · rfl
    · funext c
      simp
  map_add' t u := by
    apply Prod.ext
    · rfl
    · funext c
      simp [TallyMap.get_add]

/-- `add_code_block` has a branch to start from, and its assertion holds. -/
def CodeBlockReady (s : State) (a : Action) : Prop :=
  ∃ c ∈ s.cursor, (a.fromSym.offset = c.toSym.offset ∨ s.schedInChild ≤ a.ts - c.ts)

instance (s : State) (a : Action) : Decidable (CodeBlockReady s a) :=
  inferInstanceAs (Decidable (∃ c ∈ s.cursor, _))

/-- The round in state `s` of code-block mode and in state `t` of the other mode, which has none for a
branch inside the target. No assertion of `add_code_block` fails, a branch inside the target ends no call,
and any other branch ends one in both modes or in neither: calls that began at one time and with one
caller. -/
structure SameRound (p : Param) (s t : State) (a : Action) : Prop where
  block : measuresBlock (p.withCodeBlock true) s a = true → CodeBlockReady s a
  inside : internal a = true → countedCall (p.withCodeBlock true) s a = none
  outside : internal a = false → ((countedCall (p.withCodeBlock true) s a).isSome =
    (countedCall (p.withCodeBlock false) t a).isSome)
  same : internal a = false → ∀ call ∈ countedCall (p.withCodeBlock true) s a,
    ∀ call' ∈ countedCall (p.withCodeBlock false) t a, (HasSlots s a call ↔ HasSlots t a call') ∧
      (HasSlots s a call → call.ts = call'.ts ∧
        FuncStat.callerKey p.statOption call a = FuncStat.callerKey p.statOption call' a)

instance (p : Param) (s t : State) (a : Action) : Decidable (SameRound p s t a) :=
  decidable_of_iff
    ((measuresBlock (p.withCodeBlock true) s a = true → CodeBlockReady s a) ∧
      (internal a = true → countedCall (p.withCodeBlock true) s a = none) ∧
      (internal a = false → ((countedCall (p.withCodeBlock true) s a).isSome =
        (countedCall (p.withCodeBlock false) t a).isSome)) ∧
      (internal a = false → ∀ call ∈ countedCall (p.withCodeBlock true) s a,
        ∀ call' ∈ countedCall (p.withCodeBlock false) t a, (HasSlots s a call ↔ HasSlots t a call') ∧
          (HasSlots s a call → call.ts = call'.ts ∧
            FuncStat.callerKey p.statOption call a = FuncStat.callerKey p.statOption call' a)))
    ⟨fun ⟨hblock, hinside, houtside, hsame⟩ => ⟨hblock, hinside, houtside, hsame⟩,
      fun h => ⟨h.block, h.inside, h.outside, h.same⟩⟩

/-- One round of `do_analyze`, with the statistics. -/
def round (p : Param) : State × FuncStat → Action → List Action → Except Fault (State × FuncStat) :=
  Runs.feeding (step p) (perform p.statOption)

def ownLatencyOf (r : State × FuncStat) : Distribution × (Str → Distribution) := ownLatency r.2.toTally

/-- The latencies once the actions of `read` have been analysed, with those of `coming` behind them. -/
def latencyAfter (p : Param) (read coming : List Action) :
    Except Fault (Distribution × (Str → Distribution)) :=
  (loopUpTo (round p) (State.init, FuncStat.new) (decodeToActions p read)
    (decodeToActions p coming)).map ownLatencyOf

def analysedLatency (p : Param) (xs : List Action) :
    Except Fault (Distribution × (Str → Distribution)) :=
  (doAnalyze p (decodeToActions p xs)).map fun stat => ownLatency stat.toTally

/-- Both modes look the same at every point of the stream. -/
def KeepsLatency (p : Param) (xs : List Action) : Prop :=
  ∀ read coming, xs = read ++ coming → latencyAfter (p.withCodeBlock true) read coming =
    latencyAfter (p.withCodeBlock false) read coming

def InStep (p : Param) (xs : List Action) : Prop :=
  EveryRound (round (p.withCodeBlock true)) (round (p.withCodeBlock false)) internal
    (fun r q a => SameRound p r.1 q.1 a) (State.init, FuncStat.new) (State.init, FuncStat.new)
    (decodeToActions (p.withCodeBlock true) xs)

instance (p : Param) (xs : List Action) : Decidable (InStep p xs) :=
  inferInstanceAs (Decidable (EveryRound _ _ _ _ _ _ _))

section Own

/-- The latency and the caller that the round enters. -/
def entered (p : Param) (s : State) (a : Action) : Except Fault (Option (UInt64 × Str)) :=
  match countedCall p s a with
  | none => .ok none
  | some call =>
    if HasSlots s a call then .ok (some (a.ts - call.ts, FuncStat.callerKey p.statOption call a))
    else .error .slotLoop

def credit : Option (UInt64 × Str) → Distribution × (Str → Distribution)
  | none => 0
  | some (lat, caller) => (.unit lat, Pi.single caller (.unit lat))

lemma own_ofChildren (c : Children) (caller : Str) (gather : Bool) :
    ownLatency (Tally.ofChildren c caller gather) = 0 := by
  apply Prod.ext
  · rfl
  · funext k
    change ((TallyMap.single caller (⟨0, c⟩ : LatencyCaller)).get k).latency.target = 0
    rw [TallyMap.get, TallyMap.lookup_single]
    split <;> rfl

lemma own_ofUnknown (c : Children) (caller : Str) : ownLatency (Tally.ofUnknown c caller) = 0 := by
  rw [Tally.ofUnknown, map_add, own_ofChildren, zero_add]
  apply Prod.ext
  · rfl
  · funext k
    change ((0 : TallyMap Str LatencyCaller).get k).latency.target = 0
    rw [TallyMap.get_zero]
    rfl

lemma own_countSched : ownLatency ⟨0, 0, 0, 1⟩ = 0 := by
  apply Prod.ext
  · rfl
  · funext k
    change ((0 : TallyMap Str LatencyCaller).get k).latency.target = 0
    rw [TallyMap.get_zero]
    rfl

lemma own_flushTally (p : Param) (s : State) (a : Action) : ownLatency (flushTally p s a) = 0 := by
  rw [flushTally]
  split
  · exact map_zero ownLatency
  · exact own_ofUnknown _ _

lemma own_leftover (opt : StatOption) (s : State) :
    (totalTally opt (leftover s)).map ownLatency = .ok 0 := by
  rw [leftover]
  split
  · exact congrArg Except.ok (map_zero ownLatency)
  · refine congrArg Except.ok ?_
    rw [add_zero]
    exact own_ofUnknown _ _

lemma own_ofLatency (latT latS : UInt64) (caller : Str) :
    ownLatency (Tally.ofLatency latT latS caller) = credit (some (latT, caller)) := by
  have hsched : ownLatency (if latS = 0 then 0 else Tally.ofSched latS caller) = 0 := by
    split
    · exact map_zero ownLatency
    · apply Prod.ext
      · rfl
      · funext k
        change ((TallyMap.single caller (⟨⟨0, .unit latS, 0⟩, 0⟩ : LatencyCaller)).get k).latency.target = 0
        rw [TallyMap.get, TallyMap.lookup_single]
        split <;> rfl
  rw [Tally.ofLatency, map_add, hsched, add_zero]
  apply Prod.ext
  · rfl
  · funext k
    change ((TallyMap.single caller (⟨⟨.unit latT, 0, 0⟩, 0⟩ : LatencyCaller)).get k).latency.target =
      (Pi.single caller (Distribution.unit latT) : Str → Distribution) k
    rw [TallyMap.get, TallyMap.lookup_single, Pi.single_apply]
    split
    · rfl
    · rfl

lemma credit_injective (o : Distribution × (Str → Distribution)) :
    Function.Injective fun x => o + credit x := by
  have hone : (1 : UInt32) ≠ 0 := by decide
  have hcount : ∀ x : Option (UInt64 × Str), (credit x).1.count = if x = none then 0 else 1 := by
    intro x
    cases x <;> rfl
  intro x y h
  have hfst := congrArg Prod.fst h
  have hsame := hcount x
  have hnum : o.1.count + (credit x).1.count = o.1.count + (credit y).1.count :=
    congrArg Distribution.count hfst
  rw [add_left_cancel hnum, hcount y] at hsame
  cases x with
  | none =>
    cases y with
    | none => rfl
    | some y => exact absurd hsame hone
  | some x =>
    cases y with
    | none => exact absurd hsame.symm hone
    | some y =>
      obtain ⟨lat, caller⟩ := x
      obtain ⟨lat', caller'⟩ := y
      have htotal : o.1.total + lat = o.1.total + lat' := congrArg Distribution.total hfst
      obtain rfl := add_left_cancel htotal
      have hcaller := congrArg Distribution.count (congrFun (congrArg Prod.snd h) caller)
      have hunit : (Pi.single caller (Distribution.unit lat) : Str → Distribution) caller =
          Distribution.unit lat := Pi.single_eq_same _ _
      change (o.2 caller).count + ((Pi.single caller (Distribution.unit lat) : Str → Distribution) caller).count =
        (o.2 caller).count + ((Pi.single caller' (Distribution.unit lat) : Str → Distribution) caller).count
        at hcaller
      rw [hunit] at hcaller
      by_contra hne
      have hother : (Pi.single caller' (Distribution.unit lat) : Str → Distribution) caller = 0 :=
        Pi.single_eq_of_ne (fun heq => hne (by rw [heq])) _
      rw [hother] at hcaller
      exact hone (add_left_cancel hcaller)

end Own

section Effects

variable {p : Param} {s s' : State} {a : Action} {rest : List Action} {es : List Effect}

lemma own_of_no_add {opt : StatOption} (h : ∀ e ∈ es, ∀ call ret latS child, e ≠ .add call ret latS child) :
    (totalTally opt es).map ownLatency = .ok 0 := by
  induction es with
  | nil => exact congrArg Except.ok (map_zero ownLatency)
  | cons e es ih =>
    have hhead : ∃ t, e.tally opt = .ok t ∧ ownLatency t = 0 := by
      cases e with
      | add call ret latS child => exact absurd rfl (h _ List.mem_cons_self call ret latS child)
      | addUnknownLatency child caller => exact ⟨_, rfl, own_ofUnknown child caller⟩
      | countSched => exact ⟨_, rfl, own_countSched⟩
      | addMiss | countAncestorBegin | countAncestorEnd => exact ⟨_, rfl, map_zero ownLatency⟩
    obtain ⟨t, ht, hown⟩ := hhead
    obtain ⟨u, hu, hrest⟩ := Runs.map_eq_ok.mp (ih fun e he => h e (List.mem_cons_of_mem _ he))
    rw [totalTally, ht, hu]
    refine congrArg Except.ok ?_
    rw [map_add, hown, hrest, add_zero]

lemma entered_of_counted {call : Action} (hcall : closedCall p s a = some call)
    (hin : ¬ (!FuncStat.inInterval p.statOption (a.ts - call.ts) call.ts ||
      (p.timeline && call.ts ≥ p.timeStart)) = true) :
    entered p s a =
      if HasSlots s a call then .ok (some (a.ts - call.ts, FuncStat.callerKey p.statOption call a))
      else .error .slotLoop := by
  have hcounted : countedCall p s a = some call := by
    rw [countedCall, hcall, Option.filter_some, if_pos]
    rw [Bool.eq_false_of_not_eq_true hin, Bool.not_false]
  rw [entered, hcounted]

lemma own_ofCall {call : Action} (hcall : closedCall p s a = some call) (child : LatencyChild) :
    (Tally.ofCall p.statOption call (rewriteJump a) s.schedInTarget child).map ownLatency =
      (entered p s a).map credit := by
  have hkey : FuncStat.callerKey p.statOption call (rewriteJump a) =
      FuncStat.callerKey p.statOption call a := by
    simp only [FuncStat.callerKey, rewriteJump_toSym]
  have htimeline : p.statOption.timeline = p.timeline := rfl
  have hstart : p.statOption.timeStart = p.timeStart := rfl
  simp only [Tally.ofCall, rewriteJump_ts, hkey, htimeline, hstart]
  split_ifs with hout hslots
  · have hnone : countedCall p s a = none := by
      rw [countedCall, hcall, Option.filter_some, if_neg]
      rw [hout, Bool.not_true]
      exact Bool.false_ne_true
    rw [entered, hnone]
    exact congrArg Except.ok (map_zero ownLatency)
  · rw [entered_of_counted hcall hout, if_pos (show HasSlots s a call from hslots)]
    refine congrArg Except.ok ?_
    rw [map_add, own_ofChildren, add_zero, own_ofLatency]
  · rw [entered_of_counted hcall hout, if_neg (show ¬ HasSlots s a call from hslots)]
    rfl

lemma own_of_step (h : step p s a rest = .ok (s', es)) :
    (totalTally p.statOption es).map ownLatency = (entered p s a).map credit := by
  have hnone : closedCall p s a = none → (entered p s a).map credit = .ok 0 := by
    intro hcall
    rw [entered, countedCall, hcall]
    rfl
  cases move_of_step h with
  | error he =>
    rw [hnone (closedCall_of_not_handled (by simp [handled, he]))]
    exact own_of_no_add fun e he => by simp_all [errorStep]
  | start hs =>
    rw [hnone (closedCall_of_not_handled (by simp [handled, hs])), startStep_tally]
    exact congrArg Except.ok (own_flushTally p s a)
  | pass _ _ hh hes =>
    rw [hnone (closedCall_of_not_handled hh)]
    refine own_of_no_add fun e he call ret latS child heq => ?_
    rcases hes e he with hc | hc <;> cases hc.symm.trans heq
  | schedBegin _ _ hh =>
    rw [hnone (closedCall_of_not_handled hh)]
    exact own_of_no_add fun e he => absurd he List.not_mem_nil
  | schedEnd _ _ hh =>
    rw [hnone (closedCall_of_not_handled hh)]
    exact own_of_no_add fun e he => by simp_all
  | jump hh hj =>
    rw [hnone (by rw [closedCall, hj, Bool.not_true, Bool.and_false, if_neg Bool.false_ne_true])]
    exact own_of_no_add fun e he => absurd he List.not_mem_nil
  | switch hh hj hsw =>
    have hcall : closedCall p s a = finishedCall s (rewriteJump a) := by
      rw [closedCall, hh, hj]
      rfl
    rw [hsw.adds]
    change (totalTally p.statOption ((finishedCall s (rewriteJump a)).toList.map _)).map ownLatency = _
    rw [← hcall]
    cases hclosed : closedCall p s a with
    | none => exact (congrArg Except.ok (map_zero ownLatency)).trans (hnone hclosed).symm
    | some call =>
      rw [Option.toList_some, List.map_singleton, totalTally_singleton]
      exact own_ofCall hclosed s.child

lemma round_own (h : step p s a rest = .ok (s', es)) (stat : FuncStat) :
    (round p (s, stat) a rest).map ownLatencyOf =
      (entered p s a).map fun x => ownLatencyOf (s, stat) + credit x := by
  have hagree := (foldlM_perform_agrees p.statOption stat es).map_eq (fun k => ownLatency k.toTally)
    (fun t => ownLatencyOf (s, stat) + ownLatency t) fun k t hk => by rw [hk, map_add]; rfl
  have hround : (round p (s, stat) a rest).map ownLatencyOf =
      (es.foldlM (perform p.statOption) stat).map fun k => ownLatency k.toTally := by
    rw [round, Runs.feeding, h]
    change Except.map ownLatencyOf (es.foldlM (perform p.statOption) stat >>= fun k => .ok (s', k)) = _
    cases es.foldlM (perform p.statOption) stat <;> rfl
  have hown := congrArg (Except.map (ownLatencyOf (s, stat) + ·)) (own_of_step h)
  rw [hround, hagree]
  generalize totalTally p.statOption es = x, entered p s a = y at hown ⊢
  cases x <;> cases y <;> exact hown

end Effects

section Faults

variable {p : Param} {s : State} {a : Action}

lemma addCodeBlock_of_ready (h : CodeBlockReady s a) : ∃ s', addCodeBlock s a = .ok s' := by
  obtain ⟨c, hcursor, hready⟩ := h
  rw [Option.mem_def] at hcursor
  simp only [addCodeBlock, hcursor]
  split_ifs with hoff hlt
  · exact ⟨s, rfl⟩
  · rcases hready with hsame | hle
    · exact absurd (beq_iff_eq.mpr hsame) hoff
    · exact absurd hlt (UInt64.not_lt.mpr hle)
  · exact ⟨_, rfl⟩

lemma addCodeBlock_of_not_ready (h : ¬ CodeBlockReady s a) :
    ∃ f, addCodeBlock s a = .error f ∧ f ≠ .slotLoop := by
  cases hc : s.cursor with
  | none =>
    simp only [addCodeBlock, hc]
    exact ⟨_, rfl, by decide⟩
  | some c =>
    simp only [addCodeBlock, hc]
    split_ifs with hoff hlt
    · exact absurd ⟨c, hc, Or.inl (beq_iff_eq.mp hoff)⟩ h
    · exact ⟨_, rfl, by decide⟩
    · exact absurd ⟨c, hc, Or.inr (UInt64.not_lt.mp hlt)⟩ h

lemma codeBlockReady_rewriteJump (b : Bool) :
    CodeBlockReady { s with noHwIntFromHead := b } (rewriteJump a) ↔ CodeBlockReady s a := by
  simp only [CodeBlockReady, rewriteJump_fromSym, rewriteJump_ts]

lemma chainStep_ok (h : p.codeBlock = true → opensFrame (rewriteJump a).type = true → CodeBlockReady s a) :
    ∃ r, chainStep p s (rewriteJump a) = .ok r := by
  suffices hd : ∃ r, dispatch p { s with noHwIntFromHead := !leavesFromHead (rewriteJump a) }
      (rewriteJump a) = .ok r by
    obtain ⟨r, hr⟩ := hd
    exact ⟨_, by rw [chainStep, hr]; rfl⟩
  cases hopen : opensFrame (rewriteJump a).type with
  | false =>
    rw [dispatch]
    cases hty : (rewriteJump a).type <;> rw [hty] at hopen <;> first | exact ⟨_, rfl⟩ | cases hopen
  | true =>
    rw [dispatch_opening hopen, callStep]
    cases hc : p.codeBlock with
    | false => exact ⟨_, rfl⟩
    | true =>
      obtain ⟨s', hs'⟩ := addCodeBlock_of_ready ((codeBlockReady_rewriteJump _).mpr (h hc hopen))
      rw [if_pos rfl, hs']
      exact ⟨_, rfl⟩

/-- A jump that is analysed has an end in the target. -/
def Touches (a : Action) : Prop :=
  a.isError = false → a.type.isJump = true → a.fromTarget = true ∨ a.toTarget = true

lemma internalJump_eq (he : a.isError = false) :
    (a.type.isJump && a.fromTarget && a.toTarget) = (a.type.isJump && internal a) := by
  rw [internal, he, Bool.not_false, Bool.true_and, Bool.and_assoc]

lemma step_ok_of_ready (rest : List Action) (htouch : Touches a) (hoff : p.codeBlock = false → internal a = false)
    (hready : p.codeBlock = true → measuresBlock p s a = true → CodeBlockReady s a) :
    ∃ r, step p s a rest = .ok r := by
  cases hh : handled p s a with
  | false =>
    rw [step_of_not_handled hh]
    split_ifs <;> exact ⟨_, rfl⟩
  | true =>
    have he := handled_isError hh
    rw [step_of_handled hh, branchStep, internalJump_eq he]
    cases hj : a.type.isJump && internal a with
    | true =>
      rw [if_pos rfl]
      cases hc : p.codeBlock with
      | false =>
        rw [hoff hc, Bool.and_false] at hj
        cases hj
      | true =>
        obtain ⟨s', hs'⟩ := addCodeBlock_of_ready (hready hc (by rw [measuresBlock, hh, hj]; rfl))
        rw [if_pos rfl, hs']
        exact ⟨_, rfl⟩
    | false =>
      have hout : (a.type.isJump && !a.fromTarget && !a.toTarget) = false := by
        by_contra h
        simp only [Bool.not_eq_false, Bool.and_eq_true, Bool.not_eq_true'] at h
        rcases htouch he h.1.1 with hf | ht
        · cases h.1.2.symm.trans hf
        · cases h.2.symm.trans ht
      rw [if_neg Bool.false_ne_true, hout, if_neg Bool.false_ne_true]
      exact chainStep_ok fun hc hopen => hready hc (by rw [measuresBlock, hh, hopen, Bool.or_true]; rfl)

lemma step_error_of_not_ready (rest : List Action) (hc : p.codeBlock = true) (hm : measuresBlock p s a = true)
    (hn : ¬ CodeBlockReady s a) : ∃ f, step p s a rest = .error f ∧ f ≠ .slotLoop := by
  rw [measuresBlock, Bool.and_eq_true] at hm
  obtain ⟨hh, hblock⟩ := hm
  rw [step_of_handled hh, branchStep, internalJump_eq (handled_isError hh)]
  split_ifs with hj hout
  · obtain ⟨f, hf, hne⟩ := addCodeBlock_of_not_ready hn
    rw [hf]
    exact ⟨f, rfl, hne⟩
  · exact ⟨_, rfl, by decide⟩
  · rw [Bool.or_eq_true] at hblock
    have hopen := hblock.resolve_left hj
    obtain ⟨f, hf, hne⟩ := addCodeBlock_of_not_ready
      ((codeBlockReady_rewriteJump (!leavesFromHead (rewriteJump a))).not.mpr hn)
    refine ⟨f, ?_, hne⟩
    rw [chainStep, dispatch_opening hopen, callStep, if_pos hc, hf]
    rfl

end Faults

section Stream

variable {p : Param} {a : Action}

lemma initAction_codeBlock (a : Action) :
    initAction (p.withCodeBlock false) a =
      (initAction (p.withCodeBlock true) a).filter (!internal ·) := by
  have hmark : ∀ on, markAction (p.withCodeBlock on) a = markAction p a := fun _ => rfl
  simp only [initAction, hmark]
  split
  · rfl
  · cases he : a.isError with
    | true => simp [Option.filter, internal, he]
    | false =>
      have he' := (markAction_isError (p := p) a).trans he
      simp only [Bool.false_eq_true, if_false]
      split
      · rfl
      · have hoff : (p.withCodeBlock false).codeBlock = false := rfl
        have hon : (p.withCodeBlock true).codeBlock = true := rfl
        simp only [hoff, hon, Bool.not_true, Bool.false_and, Bool.false_eq_true, if_false,
          Option.filter, internal, he', Bool.not_false, Bool.true_and]
        cases (markAction p a).fromTarget && (markAction p a).toTarget <;> rfl

lemma decodeToActions_codeBlock (xs : List Action) :
    decodeToActions (p.withCodeBlock false) xs =
      (decodeToActions (p.withCodeBlock true) xs).filter (!internal ·) := by
  rw [decodeToActions, decodeToActions, List.filter_filterMap]
  apply List.filterMap_congr
  intro a _
  exact initAction_codeBlock a

lemma touches_of_mem {xs : List Action} (h : a ∈ decodeToActions p xs) : Touches a := by
  intro he hj
  obtain ⟨b, -, hb⟩ := List.mem_filterMap.mp h
  simp only [initAction] at hb
  split_ifs at hb with htype herr hnone hskip
  · cases hb
    cases herr.symm.trans he
  · cases hb
    rw [markAction_eq] at hnone hj ⊢
    by_contra hneither
    obtain ⟨hf, ht⟩ := not_or.mp hneither
    apply hnone
    have hno : ∀ t : BranchType, t.isJump = true → (t == .call || t == .trStart) = false ∧
        (t == .ret || t == .trEndReturn) = false := by
      intro t ht
      cases t <;> first | exact ⟨rfl, rfl⟩ | cases ht
    obtain ⟨hcall, hret⟩ := hno b.type hj
    simp only [Bool.not_eq_true] at hf ht
    simp [hf, ht, Action.callsSched, Action.returnsFromSched, Action.callsFunction,
      Action.returnsFromFunction, hcall, hret]

lemma entered_eq_none {s : State} : entered p s a = .ok none ↔ countedCall p s a = none := by
  rw [entered]
  cases countedCall p s a with
  | none => exact iff_of_true rfl rfl
  | some call =>
    refine iff_of_false (fun h => ?_) (by simp)
    simp only at h
    split_ifs at h
    cases h

lemma entered_eq_iff {s t : State} :
    entered (p.withCodeBlock true) s a = entered (p.withCodeBlock false) t a ↔
      ((countedCall (p.withCodeBlock true) s a).isSome = (countedCall (p.withCodeBlock false) t a).isSome) ∧
      ∀ call ∈ countedCall (p.withCodeBlock true) s a, ∀ call' ∈ countedCall (p.withCodeBlock false) t a,
        (HasSlots s a call ↔ HasSlots t a call') ∧ (HasSlots s a call → call.ts = call'.ts ∧
          FuncStat.callerKey p.statOption call a = FuncStat.callerKey p.statOption call' a) := by
  have hkey : ∀ (on : Bool) (call : Action), FuncStat.callerKey (p.withCodeBlock on).statOption call a =
      FuncStat.callerKey p.statOption call a := fun _ _ => rfl
  have hts : ∀ x y : UInt64, a.ts - x = a.ts - y ↔ x = y := fun x y => sub_right_inj
  rw [entered, entered]
  cases countedCall (p.withCodeBlock true) s a with
  | none =>
    cases countedCall (p.withCodeBlock false) t a with
    | none => simp
    | some call' => by_cases hslots' : HasSlots t a call' <;> simp [hslots']
  | some call =>
    cases countedCall (p.withCodeBlock false) t a with
    | none => by_cases hslots : HasSlots s a call <;> simp [hslots]
    | some call' =>
      by_cases hslots : HasSlots s a call <;> by_cases hslots' : HasSlots t a call' <;>
        simp [hslots, hslots', hkey, hts]

lemma entered_error {s : State} {f : Fault} (h : entered p s a = .error f) : f = .slotLoop := by
  rw [entered] at h
  split at h
  · cases h
  · split_ifs at h
    cases h
    rfl

section Agreement

variable {r q : State × FuncStat} (rest : List Action)

lemma follow_outside (htouch : Touches a) (hin : internal a = false) (hsame : ownLatencyOf r = ownLatencyOf q) :
    (follow (round (p.withCodeBlock false)) internal q a rest).map ownLatencyOf =
      (entered (p.withCodeBlock false) q.1 a).map fun x => ownLatencyOf r + credit x := by
  obtain ⟨⟨t', es⟩, ht⟩ := step_ok_of_ready (p := p.withCodeBlock false) (s := q.1)
    (rest.filter (!internal ·)) htouch (fun _ => hin) fun hc => by cases hc
  rw [follow, hin, if_neg Bool.false_ne_true, round_own ht, hsame]

lemma follow_inside (hin : internal a = true) (hsame : ownLatencyOf r = ownLatencyOf q) :
    (follow (round (p.withCodeBlock false)) internal q a rest).map ownLatencyOf =
      (.ok (ownLatencyOf r + credit none) : Except Fault _) := by
  rw [follow, hin, if_pos rfl, hsame]
  exact congrArg Except.ok (add_zero _).symm

/-- The assertion of `add_code_block` fails in the one mode, and nothing of the kind in the other. -/
lemma not_agreeAt (htouch : Touches a) (hsame : ownLatencyOf r = ownLatencyOf q)
    (hm : measuresBlock (p.withCodeBlock true) r.1 a = true) (hn : ¬ CodeBlockReady r.1 a) :
    ¬ AgreeAt (round (p.withCodeBlock true)) (round (p.withCodeBlock false)) internal ownLatencyOf ownLatencyOf
      r q a rest := by
  intro h
  obtain ⟨f, hf, hne⟩ := step_error_of_not_ready (p := p.withCodeBlock true) rest rfl hm hn
  have herror : (round (p.withCodeBlock true) r a rest).map ownLatencyOf = .error f := by
    rw [round, Runs.feeding, hf]
    rfl
  rw [AgreeAt, herror] at h
  cases hin : internal a with
  | true =>
    rw [follow_inside rest hin hsame] at h
    cases h
  | false =>
    rw [follow_outside rest htouch hin hsame] at h
    cases hent : entered (p.withCodeBlock false) q.1 a with
    | ok x =>
      rw [hent] at h
      cases h
    | error g =>
      rw [hent] at h
      cases h
      exact hne (entered_error hent)

/-- In states that look the same, the round leaves them so if and only if it is one that does. -/
lemma agreeAt_iff (htouch : Touches a) (hsame : ownLatencyOf r = ownLatencyOf q) :
    AgreeAt (round (p.withCodeBlock true)) (round (p.withCodeBlock false)) internal ownLatencyOf ownLatencyOf
      r q a rest ↔ SameRound p r.1 q.1 a := by
  by_cases hready : measuresBlock (p.withCodeBlock true) r.1 a = true → CodeBlockReady r.1 a
  · obtain ⟨⟨s', es⟩, hs⟩ := step_ok_of_ready (p := p.withCodeBlock true) rest htouch
      (fun hc => by cases hc) fun _ => hready
    rw [AgreeAt, round_own hs]
    cases hin : internal a with
    | true =>
      rw [follow_inside rest hin hsame]
      refine ⟨fun h => ⟨hready, fun _ => ?_, fun hn => ?_, fun hn => ?_⟩, fun h => ?_⟩
      · exact entered_eq_none.mp (Runs.map_injective (credit_injective _) (y := .ok none) h)
      · cases hin.symm.trans hn
      · cases hin.symm.trans hn
      · rw [entered_eq_none.mpr (h.inside hin)]
        rfl
    | false =>
      rw [follow_outside rest htouch hin hsame]
      constructor
      · intro h
        obtain ⟨houtside, hcalls⟩ := entered_eq_iff.mp (Runs.map_injective (credit_injective _) h)
        exact ⟨hready, fun hn => absurd (hin.symm.trans hn) Bool.false_ne_true, fun _ => houtside, fun _ => hcalls⟩
      · intro h
        rw [entered_eq_iff.mpr ⟨h.outside hin, h.same hin⟩]
  · obtain ⟨hm, hn⟩ := Classical.not_imp.mp hready
    exact iff_of_false (not_agreeAt rest htouch hsame hm hn) fun h => hready h.block

end Agreement

lemma keepsLatency_iff (xs : List Action) : KeepsLatency p xs ↔
    AgreeThroughout (round (p.withCodeBlock true)) (round (p.withCodeBlock false)) internal ownLatencyOf
      ownLatencyOf (State.init, FuncStat.new) (State.init, FuncStat.new)
      (decodeToActions (p.withCodeBlock true) xs) := by
  constructor
  · intro h done rest hxs
    obtain ⟨read, coming, rfl, rfl, rfl⟩ := List.filterMap_eq_append_iff.mp hxs
    have hpoint := h read coming rfl
    rw [latencyAfter, latencyAfter, decodeToActions_codeBlock, decodeToActions_codeBlock] at hpoint
    exact hpoint
  · rintro h read coming rfl
    rw [latencyAfter, latencyAfter, decodeToActions_codeBlock, decodeToActions_codeBlock]
    exact h _ _ List.filterMap_append

lemma latencyAfter_nil (q : Param) (xs : List Action) : latencyAfter q xs [] = analysedLatency q xs := by
  have hend : ∀ r : State × FuncStat, ((leftover r.1).foldlM (perform q.statOption) r.2).map
      (fun stat => ownLatency stat.toTally) = .ok (ownLatencyOf r) := by
    intro r
    have hagree := (foldlM_perform_agrees q.statOption r.2 (leftover r.1)).map_eq
      (fun k => ownLatency k.toTally) (fun t => ownLatencyOf r + ownLatency t)
      fun k t hk => by rw [hk, map_add]; rfl
    have hown := congrArg (Except.map (ownLatencyOf r + ·)) (own_leftover q.statOption r.1)
    rw [hagree]
    refine Eq.trans ?_ (hown.trans (congrArg Except.ok (add_zero _)))
    cases totalTally q.statOption (leftover r.1) <;> rfl
  have hnil : decodeToActions q [] = [] := rfl
  rw [latencyAfter, hnil, loopUpTo_nil_right, analysedLatency, doAnalyze, ← round]
  cases Runs.loop (round q) (State.init, FuncStat.new) (decodeToActions q xs) with
  | error f => rfl
  | ok r => exact (hend r).symm

end Stream

namespace Sample

/-- A loop in the target, and a call back into it that nothing follows. -/
def looping : List Action :=
  [enter 0, branchOf param .jcc 10 (target 32) (target 8), leave .ret 30,
    branchOf param .call 40 (target 32) (target 8)]

def recursive : List Action :=
  [enter 0, branchOf param .call 10 (target 32) (target 0),
    branchOf param .ret 15 (target 48) (target 37), leave .ret 30]

end Sample

open Sample in
example : InStep param looping ∧ ¬ InStep param recursive := by
  decide +kernel

end PtPerf.Analysis
