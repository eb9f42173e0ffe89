import PtPerf.Analysis.Moves

/-! The calls that a run passes to `FuncStat::add`, with the numbers of the actions they begin and
end at. The numbers of the actions on the stack are followed beside the run. -/

namespace PtPerf.Analysis

open PtPerf.Support PtPerf.Trace PtPerf.Stats

/-- An action on the stack: its number in the list, and whether the new-target branch put it
there. -/
structure Origin where
  idx : ℕ
  fresh : Bool
  deriving DecidableEq, Repr

/-- A call handed to `FuncStat::add`. -/
structure Call where
  start : Origin
  finish : ℕ
  call : Action
  ret : Action
  latS : UInt64

def Call.latency (c : Call) : UInt64 := c.ret.ts - c.call.ts

/-- The origins of the stack after round `i`. -/
def nextOrigins (i : ℕ) (s : State) (a : Action) (s' : State) (os : List Origin) : List Origin :=
  if starts s a then [⟨i, true⟩]
  else if s.stack.length < s'.stack.length then ⟨i, false⟩ :: os
  else os.drop (s.stack.length - s'.stack.length)

/-- The bottom of the stack is its last entry here. -/
def callsIn (os : List Origin) (i : ℕ) (es : List Effect) : List Call :=
  es.filterMap fun
    | .add call ret latS _ => os.getLast?.map fun o => ⟨o, i, call, ret, latS⟩
    | _ => none

/-- The calls of the rounds from number `i` on, up to a fault if there is one. -/
def callsFrom (p : Param) : State → List Origin → ℕ → List Action → List Call
  | _, _, _, [] => []
  | s, os, i, a :: rest =>
    match step p s a rest with
    | .error _ => []
    | .ok (s', es) => callsIn os i es ++ callsFrom p s' (nextOrigins i s a s' os) (i + 1) rest

def calls (p : Param) (actions : List Action) : List Call := callsFrom p .init [] 0 actions

instance (actions : List Action) : Decidable (SortedByTime actions) :=
  inferInstanceAs (Decidable (actions.Pairwise fun a b => a.ts ≤ b.ts))

def span (actions : List Action) : ℕ :=
  match actions.head?, actions.getLast? with
  | some first, some last => last.ts.toNat - first.ts.toNat
  | _, _ => 0

/-- The branch goes into the target, at its first instruction or as a call. -/
def entering (a : Action) : Bool :=
  !a.isError && a.toTarget && (a.toSym.offset == 0 || opensFrame a.type || a.type == .trEnd)

section Origins

variable {p : Param} {actions : List Action} {i : ℕ} {s s' : State} {a : Action} {rest : List Action}
  {es : List Effect} {os : List Origin}

/-- The stack holds a copy, whose type may have been rewritten. -/
structure Stands (actions : List Action) (i : ℕ) (e : Action) (o : Origin) : Prop where
  lt : o.idx < i
  copy : ∃ b, actions[o.idx]? = some b ∧ (e = b ∨ e = rewriteJump b) ∧
    (e.toTarget = true → entering b = true)

lemma Stands.mono {e : Action} {o : Origin} (h : Stands actions i e o) : Stands actions (i + 1) e o :=
  ⟨h.lt.trans (Nat.lt_succ_self i), h.copy⟩

abbrev Tracked (actions : List Action) (i : ℕ) (s : State) (os : List Origin) : Prop :=
  List.Forall₂ (Stands actions i) s.stack os

lemma starts_entering (h : starts s a = true) : entering a = true := by
  simp only [starts, entersTarget, Bool.and_eq_true, Bool.not_eq_true', beq_iff_eq] at h
  simp [entering, h.1.1, h.1.2.1, h.1.2.2]

lemma pushed_entering (herror : a.isError = false) (hin : (a.type.isJump && internal a) = false)
    (h : opensFrame (rewriteJump a).type = true ∨ (rewriteJump a).type = .trEnd)
    (hto : (rewriteJump a).toTarget = true) : entering a = true := by
  rw [rewriteJump_toTarget] at hto
  by_cases hj : a.type.isJump = true
  · have hfrom : a.fromTarget = false := by simpa [internal, hj, herror, hto] using hin
    have htype : (rewriteJump a).type = .ret := by simp [rewriteJump, hj, hfrom]
    rw [htype] at h
    rcases h with h | h <;> cases h
  · rw [rewriteJump_of_not_jump a (by simpa using hj)] at h
    rcases h with h | h <;> simp [entering, herror, hto, h]

lemma Tracked.next (hm : Move p s a s' es) (ht : Tracked actions i s os)
    (ha : actions[i]? = some a) : Tracked actions (i + 1) s' (nextOrigins i s a s' os) := by
  have hmono : Tracked actions (i + 1) s os := ht.imp fun _ _ h => h.mono
  have hlen := ht.length_eq
  rcases hm.stackMove with ⟨hs, hst⟩ | ⟨hs, hst, hin, herror, htype⟩ | ⟨k, hs, hst⟩
  · rw [Tracked, hst, nextOrigins, if_pos hs]
    exact .cons ⟨Nat.lt_succ_self i, a, ha, Or.inl rfl, fun _ => starts_entering hs⟩ .nil
  · rw [Tracked, hst, nextOrigins, hs, if_neg Bool.false_ne_true, hst, List.length_cons,
      if_pos (Nat.lt_succ_self _)]
    exact .cons ⟨Nat.lt_succ_self i, a, ha, Or.inr rfl, pushed_entering herror hin htype⟩ hmono
  · rw [Tracked, hst, nextOrigins, hs, if_neg Bool.false_ne_true, hst, List.length_drop,
      if_neg (by omega)]
    by_cases hk : k ≤ s.stack.length
    · rw [Nat.sub_sub_self hk]
      exact List.forall₂_drop k hmono
    · rw [List.drop_eq_nil_of_le (by omega), List.drop_eq_nil_of_le (by omega)]
      exact .nil

lemma mem_nextOrigins {o : Origin} (h : o ∈ nextOrigins i s a s' os) : o.idx = i ∨ o ∈ os := by
  rw [nextOrigins] at h
  split at h
  · exact Or.inl (by rw [List.mem_singleton.mp h])
  · split at h
    · rcases List.mem_cons.mp h with rfl | h
      · exact Or.inl rfl
      · exact Or.inr h
    · exact Or.inr (List.mem_of_mem_drop h)

end Origins

section Runs

variable {p : Param} {actions : List Action} {i : ℕ} {s s' : State} {a : Action} {rest : List Action}
  {es : List Effect} {os : List Origin}

structure Call.IsAt (actions : List Action) (c : Call) : Prop where
  lt : c.start.idx < c.finish
  call : ∃ b, actions[c.start.idx]? = some b ∧ (c.call = b ∨ c.call = rewriteJump b) ∧
    entering b = true
  ret : ∃ b, actions[c.finish]? = some b ∧ c.ret = rewriteJump b

/-- A round hands over no call, or the one whose first action is alone on the stack, and then the
stack is empty. -/
lemma callsIn_cases (hm : Move p s a s' es) (ht : Tracked actions i s os) (ha : actions[i]? = some a) :
    (callsIn os i es = [] ∧ ∀ call ret latS child, .add call ret latS child ∉ es) ∨
      ∃ c child, callsIn os i es = [c] ∧ es = [.add c.call c.ret c.latS child] ∧ c.IsAt actions ∧
        c.finish = i ∧ os = [c.start] ∧ nextOrigins i s a s' os = [] ∧ c.latS = s.schedInTarget ∧
        s.stack = [c.call] := by
  by_cases hadd : ∃ call ret latS child, Effect.add call ret latS child ∈ es
  · right
    obtain ⟨call, ret, latS, child, hadd⟩ := hadd
    obtain ⟨rfl, hf⟩ := hm.finishes hadd
    rw [Tracked, hf.stack] at ht
    obtain ⟨o, ho, rfl⟩ : ∃ o, Stands actions i call o ∧ os = [o] := by
      cases ht with
      | cons ho hnil =>
        cases hnil
        exact ⟨_, ho, rfl⟩
    obtain ⟨b, hb, hcopy, hent⟩ := ho.copy
    have hnext : nextOrigins i s a s' [o] = [] := by
      have hstart : starts s a = false := by
        rcases hm.stackMove with ⟨_, hst⟩ | ⟨hs, _, _⟩ | ⟨_, hs, _⟩
        · rw [hf.stack'] at hst
          cases hst
        · exact hs
        · exact hs
      rw [nextOrigins, hstart, if_neg Bool.false_ne_true, hf.stack, hf.stack']
      rfl
    exact ⟨⟨o, i, call, ret, latS⟩, child, rfl, rfl,
      ⟨ho.lt, ⟨b, hb, hcopy, hent hf.toTarget⟩, a, ha, hf.ret⟩, rfl, rfl, hnext, hf.latS, hf.stack⟩
  · left
    push Not at hadd
    refine ⟨?_, hadd⟩
    rw [callsIn, List.filterMap_eq_nil_iff]
    intro e he
    cases e with
    | add call ret latS child => exact absurd he (hadd call ret latS child)
    | _ => rfl

lemma callsFrom_cons_ok (h : step p s a rest = .ok (s', es)) : callsFrom p s os i (a :: rest) =
    callsIn os i es ++ callsFrom p s' (nextOrigins i s a s' os) (i + 1) rest := by
  rw [callsFrom, h]

lemma callsFrom_cons_error {f : Fault} (h : step p s a rest = .error f) :
    callsFrom p s os i (a :: rest) = [] := by
  rw [callsFrom, h]

lemma callsFrom_spec (xs : List Action) (lo : ℕ) (hdrop : actions.drop i = xs)
    (ht : Tracked actions i s os) (hlo : ∀ o ∈ os, lo ≤ o.idx) (hi : lo ≤ i) :
    (callsFrom p s os i xs).Pairwise (fun x y => x.finish < y.start.idx) ∧
      ∀ c ∈ callsFrom p s os i xs, lo ≤ c.start.idx ∧ c.IsAt actions := by
  induction xs generalizing i s os lo with
  | nil => exact ⟨.nil, fun c hc => absurd hc List.not_mem_nil⟩
  | cons a rest ih =>
    cases hstep : step p s a rest with
    | error f =>
      rw [callsFrom_cons_error hstep]
      exact ⟨.nil, fun c hc => absurd hc List.not_mem_nil⟩
    | ok r =>
      obtain ⟨s', es⟩ := r
      have hm := move_of_step hstep
      obtain ⟨ha, hdrop'⟩ := Spans.getElem?_of_drop hdrop
      have ht' := ht.next hm ha
      rw [callsFrom_cons_ok hstep]
      rcases callsIn_cases hm ht ha with ⟨hnone, -⟩ | ⟨c, -, hone, -, hat, hfin, hos, hnext, -, -⟩
      · rw [hnone, List.nil_append]
        refine ih lo hdrop' ht' (fun o ho => ?_) (hi.trans (Nat.le_succ i))
        rcases mem_nextOrigins ho with h | h
        · exact h ▸ hi
        · exact hlo o h
      · rw [hnext] at ht' ⊢
        obtain ⟨hpair, hall⟩ := ih (i + 1) hdrop' ht' (fun o ho => absurd ho List.not_mem_nil) le_rfl
        have hbound : lo ≤ c.start.idx := hlo c.start (hos ▸ List.mem_singleton_self _)
        rw [hone, List.singleton_append]
        refine ⟨List.pairwise_cons.mpr ⟨fun y hy => ?_, hpair⟩, fun y hy => ?_⟩
        · exact hfin ▸ (hall y hy).1
        · rcases List.mem_cons.mp hy with rfl | hy
          · exact ⟨hbound, hat⟩
          · exact ⟨hi.trans ((Nat.le_succ i).trans (hall y hy).1), (hall y hy).2⟩

lemma calls_spec (p : Param) (actions : List Action) :
    (calls p actions).Pairwise (fun x y => x.finish < y.start.idx) ∧
      ∀ c ∈ calls p actions, c.IsAt actions := by
  have h := callsFrom_spec (p := p) actions 0 (i := 0) (s := .init) rfl .nil
    (fun o ho => absurd ho List.not_mem_nil) le_rfl
  exact ⟨h.1, fun c hc => (h.2 c hc).2⟩

end Runs

section Totals

def latencyOf (t : Tally) : Option Str → Latency
  | none => t.latency
  | some caller => (t.callers.get caller).latency

def latencies (key : Option Str) : Tally →+ Distribution × Distribution where
  toFun t := ((latencyOf t key).target, (latencyOf t key).sched)
  map_zero' := by
    cases key with
    | none => rfl
    | some caller => simp [latencyOf]
  map_add' t u := by
    cases key with
    | none => rfl
    | some caller => simp [latencyOf, TallyMap.get_add]

/-- The call is inside the intervals and not put on the timeline. -/
def Call.counted (opt : StatOption) (c : Call) : Bool :=
  FuncStat.inInterval opt c.latency c.call.ts && !(opt.timeline && c.call.ts ≥ opt.timeStart)

/-- What a call adds to the latencies overall or of one caller. -/
def Call.share (opt : StatOption) (key : Option Str) (c : Call) : Distribution × Distribution :=
  if c.counted opt && key.all (· == FuncStat.callerKey opt c.call c.ret) then
    (.unit c.latency, if c.latS = 0 then 0 else .unit c.latS)
  else 0

/-- A quantity of the statistics to which only the calls contribute. -/
structure CountsCalls {M : Type} [AddCommMonoid M] (opt : StatOption) (quantity : Tally →+ M)
    (share : Call → M) : Prop where
  call : ∀ c child t, Tally.ofCall opt c.call c.ret c.latS child = .ok t → quantity t = share c
  other : ∀ e t, Effect.tally opt e = .ok t →
    (∀ call ret latS child, e ≠ .add call ret latS child) → quantity t = 0

variable {M : Type} [AddCommMonoid M] {quantity : Tally →+ M} {share : Call → M} {p : Param}
  {opt : StatOption} {actions : List Action} {i : ℕ} {s s' : State} {a : Action} {rest : List Action}
  {es : List Effect} {os : List Origin} {t : Tally}

lemma CountsCalls.total_eq_zero (hq : CountsCalls opt quantity share)
    (hes : ∀ call ret latS child, .add call ret latS child ∉ es) (h : totalTally opt es = .ok t) :
    quantity t = 0 := by
  induction es generalizing t with
  | nil =>
    cases h
    exact map_zero quantity
  | cons e es ih =>
    obtain ⟨t₁, t₂, he, hrest, rfl⟩ := totalTally_cons_inv h
    have h₁ := hq.other e t₁ he fun call ret latS child heq => hes call ret latS child (by simp [heq])
    have h₂ := ih (fun call ret latS child hmem => hes call ret latS child (List.mem_cons_of_mem _ hmem))
      hrest
    rw [map_add, h₁, h₂, add_zero]

lemma leftover_not_add {call ret : Action} {latS : UInt64} {child : LatencyChild} :
    Effect.add call ret latS child ∉ leftover s := by
  rw [leftover]
  split <;> simp

lemma CountsCalls.tallyFrom_eq (hq : CountsCalls p.statOption quantity share) (xs : List Action)
    (hdrop : actions.drop i = xs) (ht : Tracked actions i s os) (h : tallyFrom p s xs = .ok t) :
    quantity t = ((callsFrom p s os i xs).map share).sum := by
  induction xs generalizing i s os t with
  | nil => exact hq.total_eq_zero (fun _ _ _ _ => leftover_not_add) h
  | cons a rest ih =>
    obtain ⟨s', es, t₁, t₂, hstep, hes, hrest, rfl⟩ := tallyFrom_cons_inv h
    have hm := move_of_step hstep
    obtain ⟨ha, hdrop'⟩ := Spans.getElem?_of_drop hdrop
    rw [callsFrom_cons_ok hstep, List.map_append, List.sum_append, map_add,
      ih hdrop' (ht.next hm ha) hrest]
    congr 1
    rcases callsIn_cases hm ht ha with ⟨hnil, hnone⟩ | ⟨c, child, hone, rfl, -⟩
    · rw [hq.total_eq_zero hnone hes, hnil]
      rfl
    · rw [totalTally_singleton] at hes
      rw [hone, List.map_singleton, List.sum_singleton]
      exact hq.call c child t₁ hes

lemma CountsCalls.doAnalyze_eq (hq : CountsCalls p.statOption quantity share) {stat : FuncStat}
    (h : doAnalyze p actions = .ok stat) :
    quantity stat.toTally = ((calls p actions).map share).sum :=
  hq.tallyFrom_eq (i := 0) actions rfl .nil (tallyFrom_of_doAnalyze h)

lemma latencies_some (caller : Str) (t : Tally) : latencies (some caller) t =
    ((t.callers.get caller).latency.target, (t.callers.get caller).latency.sched) := rfl

lemma latencies_ofChildren (key : Option Str) (c : Children) (caller : Str) (gather : Bool) :
    latencies key (Tally.ofChildren c caller gather) = 0 := by
  cases key with
  | none => rfl
  | some k =>
    rw [latencies_some, Tally.ofChildren, TallyMap.get_single]
    split <;> rfl

lemma latencies_ofUnknown (key : Option Str) (c : Children) (caller : Str) :
    latencies key (Tally.ofUnknown c caller) = 0 := by
  rw [Tally.ofUnknown, map_add, latencies_ofChildren, zero_add]
  cases key with
  | none => rfl
  | some k =>
    rw [latencies_some, TallyMap.get_zero]
    rfl

lemma latencies_ofTarget (key : Option Str) (lat : UInt64) (caller : Str) :
    latencies key (Tally.ofTarget lat caller) = if key.all (· == caller) then (.unit lat, 0) else 0 := by
  cases key with
  | none => rfl
  | some k =>
    rw [latencies_some, Tally.ofTarget, TallyMap.get_single]
    by_cases hk : k = caller <;> simp [hk]

lemma latencies_ofSched (key : Option Str) (lat : UInt64) (caller : Str) :
    latencies key (Tally.ofSched lat caller) = if key.all (· == caller) then (0, .unit lat) else 0 := by
  cases key with
  | none => rfl
  | some k =>
    rw [latencies_some, Tally.ofSched, TallyMap.get_single]
    by_cases hk : k = caller <;> simp [hk]

lemma latencies_ofLatency (key : Option Str) (latT latS : UInt64) (caller : Str) :
    latencies key (Tally.ofLatency latT latS caller) =
      if key.all (· == caller) then (.unit latT, if latS = 0 then 0 else .unit latS) else 0 := by
  rw [Tally.ofLatency, map_add, latencies_ofTarget]
  by_cases hz : latS = 0
  · simp [hz]
  · rw [if_neg hz, latencies_ofSched]
    by_cases hk : key.all (· == caller) = true
    · simp [hk, hz]
    · simp [hk]

lemma countsCalls_latencies (key : Option Str) :
    CountsCalls opt (latencies key) (Call.share opt key) where
  call c child t h := by
    rw [Tally.ofCall] at h
    split at h
    · rename_i hout
      cases h
      have hc : c.counted opt = false := by simpa [Call.counted, Call.latency, imp_iff_not_or] using hout
      rw [Call.share, hc]
      exact map_zero _
    · rename_i hout
      split at h
      · cases h
        have hc : c.counted opt = true := by
          simpa [Call.counted, Call.latency, Bool.eq_false_or_eq_true, imp_iff_not_or] using hout
        rw [map_add, latencies_ofChildren, add_zero, latencies_ofLatency, Call.share, hc, Bool.true_and]
        rfl
      · cases h
  other e t h hne := by
    cases e with
    | add call ret latS child => exact absurd rfl (hne call ret latS child)
    | addUnknownLatency child caller =>
      cases h
      exact latencies_ofUnknown key child caller
    | countSched =>
      cases h
      cases key <;> rfl
    | _ =>
      cases h
      exact map_zero _

def wallTotal : Distribution × Distribution →+ UInt64 where
  toFun d := d.1.total
  map_zero' := rfl
  map_add' _ _ := rfl

def wallCount : Distribution × Distribution →+ UInt32 where
  toFun d := d.1.count
  map_zero' := rfl
  map_add' _ _ := rfl

lemma wallTotal_share_le (opt : StatOption) (key : Option Str) (c : Call) :
    (wallTotal (c.share opt key)).toNat ≤ c.latency.toNat := by
  rw [Call.share]
  split
  · exact le_rfl
  · exact Nat.zero_le _

lemma wallCount_share_le (opt : StatOption) (key : Option Str) (c : Call) :
    (wallCount (c.share opt key)).toNat ≤ 1 := by
  rw [Call.share]
  split
  · exact le_rfl
  · exact Nat.zero_le _

lemma toNat_sum_le_of_le {α : Type} {f : α → UInt64} {g : α → ℕ} {l : List α}
    (h : ∀ x ∈ l, (f x).toNat ≤ g x) : (l.map f).sum.toNat ≤ (l.map g).sum := by
  induction l with
  | nil => exact le_rfl
  | cons x l ih =>
    rw [List.forall_mem_cons] at h
    rw [List.map_cons, List.map_cons, List.sum_cons, List.sum_cons, UInt64.toNat_add]
    exact (Nat.mod_le _ _).trans (Nat.add_le_add h.1 (ih h.2))

lemma toNat_sum_le_length {α : Type} {f : α → UInt32} {l : List α} (h : ∀ x ∈ l, (f x).toNat ≤ 1) :
    (l.map f).sum.toNat ≤ l.length := by
  induction l with
  | nil => exact le_rfl
  | cons x l ih =>
    rw [List.forall_mem_cons] at h
    rw [List.map_cons, List.sum_cons, List.length_cons, UInt32.toNat_add, Nat.add_comm l.length]
    exact (Nat.mod_le _ _).trans (Nat.add_le_add h.1 (ih h.2))

end Totals

section Times

variable {p : Param} {actions : List Action}

def timeAt (actions : List Action) (i : ℕ) : ℕ := (actions[i]?.map fun a => a.ts.toNat).getD 0

lemma SortedByTime.timeAt_le (h : SortedByTime actions) (i j : ℕ) (hij : i ≤ j)
    (hj : j ≤ actions.length - 1) : timeAt actions i ≤ timeAt actions j := by
  by_cases hlen : j < actions.length
  · have hi : i < actions.length := hij.trans_lt hlen
    rw [timeAt, timeAt, List.getElem?_eq_getElem hi, List.getElem?_eq_getElem hlen]
    rcases hij.eq_or_lt with rfl | hlt
    · exact le_rfl
    · exact UInt64.le_iff_toNat_le.mp (List.pairwise_iff_getElem.mp h i j hi hlen hlt)
  · have hnil : actions = [] := List.length_eq_zero_iff.mp (by omega)
    subst hnil
    exact le_rfl

lemma span_eq (actions : List Action) :
    span actions = timeAt actions (actions.length - 1) - timeAt actions 0 := by
  cases actions with
  | nil => rfl
  | cons a actions =>
    rw [span, timeAt, timeAt, ← List.getLast?_eq_getElem?, List.getLast?_cons]
    rfl

lemma Call.IsAt.finish_lt {c : Call} (hc : c.IsAt actions) : c.finish < actions.length := by
  obtain ⟨b, hb, -⟩ := hc.ret
  exact (List.getElem?_eq_some_iff.mp hb).1

lemma Call.IsAt.times {c : Call} (hc : c.IsAt actions) :
    timeAt actions c.start.idx = c.call.ts.toNat ∧ timeAt actions c.finish = c.ret.ts.toNat := by
  obtain ⟨b, hb, hcopy, -⟩ := hc.call
  obtain ⟨b', hb', hret⟩ := hc.ret
  rw [timeAt, timeAt, hb, hb', hret, rewriteJump_ts]
  refine ⟨?_, rfl⟩
  rcases hcopy with h | h <;> rw [h]
  · rfl
  · rw [rewriteJump_ts]
    rfl

lemma Call.IsAt.latency_eq {c : Call} (hc : c.IsAt actions) (hsorted : SortedByTime actions) :
    c.latency.toNat = timeAt actions c.finish - timeAt actions c.start.idx := by
  have hle := hsorted.timeAt_le _ _ hc.lt.le (Nat.le_pred_of_lt hc.finish_lt)
  rw [hc.times.1, hc.times.2] at hle ⊢
  exact UInt64.toNat_sub_of_le _ _ (UInt64.le_iff_toNat_le.mpr hle)

lemma sum_latency_le (p : Param) (hsorted : SortedByTime actions) :
    ((calls p actions).map fun c => c.latency.toNat).sum ≤ span actions := by
  obtain ⟨hpair, hat⟩ := calls_spec p actions
  have hsum := Spans.sum_le hsorted.timeAt_le ((calls p actions).map fun c => (c.start.idx, c.finish)) 0
    (List.pairwise_map.mpr hpair) (fun x hx => ?_) (Nat.zero_le _)
  · rw [List.map_map, ← span_eq] at hsum
    refine le_of_eq_of_le (congrArg List.sum ?_) hsum
    exact List.map_congr_left fun c hc => (hat c hc).latency_eq hsorted
  · obtain ⟨c, hc, rfl⟩ := List.mem_map.mp hx
    exact ⟨Nat.zero_le _, (hat c hc).lt.le, Nat.le_pred_of_lt (hat c hc).finish_lt⟩

lemma calls_length_le (p : Param) (actions : List Action) :
    (calls p actions).length ≤ actions.countP entering := by
  obtain ⟨hpair, hat⟩ := calls_spec p actions
  rw [← List.length_map (f := fun c : Call => c.start.idx)]
  apply Spans.length_le_countP
  · rw [List.Nodup, List.pairwise_map]
    apply hpair.imp_of_mem
    intro x y hx _ hxy
    exact ((hat x hx).lt.trans hxy).ne
  · intro i hi
    obtain ⟨c, hc, rfl⟩ := List.mem_map.mp hi
    obtain ⟨b, hb, -, hent⟩ := (hat c hc).call
    exact ⟨b, hb, hent⟩

end Times

def Effect.call? : Effect → Option (Action × Action × UInt64)
  | .add call ret latS _ => some (call, ret, latS)
  | _ => none

lemma run_calls {p : Param} {actions xs : List Action} {i : ℕ} {s s' : State} {os : List Origin}
    {es : List Effect} (hdrop : actions.drop i = xs) (ht : Tracked actions i s os)
    (h : Runs.run (step p) s xs = .ok (s', es)) :
    es.filterMap Effect.call? = (callsFrom p s os i xs).map fun c => (c.call, c.ret, c.latS) := by
  induction xs generalizing i s os es with
  | nil =>
    cases h
    rfl
  | cons a rest ih =>
    obtain ⟨t, head, tail, hstep, hrest, rfl⟩ := Runs.run_cons_inv h
    have hm := move_of_step hstep
    obtain ⟨ha, hdrop'⟩ := Spans.getElem?_of_drop hdrop
    rw [callsFrom_cons_ok hstep, List.filterMap_append, List.map_append,
      ih hdrop' (ht.next hm ha) hrest]
    congr 1
    rcases callsIn_cases hm ht ha with ⟨hnone, hno⟩ | ⟨c, child, hone, rfl, -⟩
    · rw [hnone, List.map_nil, List.filterMap_eq_nil_iff]
      intro e he
      cases e with
      | add call ret latS child => exact absurd he (hno call ret latS child)
      | _ => rfl
    · rw [hone]
      rfl

theorem recorded_calls_disjoint (p : Param) (actions : List Action) (hsorted : SortedByTime actions) :
    (calls p actions).Pairwise (fun x y => x.finish < y.start.idx) ∧
      (∀ c ∈ calls p actions, c.IsAt actions) ∧
      (∀ s es, Runs.run (step p) .init actions = .ok (s, es) →
        es.filterMap Effect.call? = (calls p actions).map fun c => (c.call, c.ret, c.latS)) ∧
      ∀ stat, doAnalyze p actions = .ok stat →
        stat.latency.target.total.toNat ≤ span actions ∧
          stat.latency.target.count.toNat ≤ actions.countP entering := by
  obtain ⟨hpair, hat⟩ := calls_spec p actions
  refine ⟨hpair, hat, fun s es h => run_calls rfl .nil h, fun stat h => ?_⟩
  have hlat := (countsCalls_latencies none).doAnalyze_eq h
  have htotal : stat.latency.target.total =
      ((calls p actions).map fun c => wallTotal (c.share p.statOption none)).sum := by
    have := congrArg wallTotal hlat
    rwa [map_list_sum, List.map_map] at this
  have hcount : stat.latency.target.count =
      ((calls p actions).map fun c => wallCount (c.share p.statOption none)).sum := by
    have := congrArg wallCount hlat
    rwa [map_list_sum, List.map_map] at this
  constructor
  · rw [htotal]
    exact (toNat_sum_le_of_le fun c _ => wallTotal_share_le _ _ c).trans (sum_latency_le p hsorted)
  · rw [hcount]
    exact (toNat_sum_le_length fun c _ => wallCount_share_le _ _ c).trans (calls_length_le p actions)

namespace Sample

def brokenCalls : List Action :=
  [leave .ret 5, enter 10, enter 20, leave .ret 60, enter 70, lostData 80, leave .ret 90, enter 100,
    leave .ret 130]

end Sample

theorem broken_calls_disjoint :
    SortedByTime Sample.brokenCalls ∧
      (calls Sample.param Sample.brokenCalls).map (fun c => (c.start.idx, c.finish)) = [(2, 3), (7, 8)] ∧
      (calls Sample.param Sample.brokenCalls).Pairwise fun x y => x.finish < y.start.idx :=
  ⟨by decide, by decide +kernel,
    (recorded_calls_disjoint Sample.param Sample.brokenCalls (by decide)).1⟩

end PtPerf.Analysis
