import PtPerf.Stats.KeyNames
import PtPerf.Analysis.MissTime
import PtPerf.Analysis.ChildSched

/-! The keys of the statistics: what is kept under each, and what the report makes of it. -/

namespace PtPerf.Analysis

open PtPerf.Support PtPerf.Support.Text PtPerf.Trace PtPerf.Stats

/-- What a child or a caller in the statistics stands for. -/
inductive Entry
  | child (call : Action) (unknown gather : Bool)
  | block (first last : Action)
  | self
  | caller (call ret : Action)
  | startCaller (start : Action)
  | noCaller

namespace Entry

def key (p : Param) : Entry → Str
  | child call unknown gather => childName p call unknown gather
  | block first last => codeBlockName first last
  | self => targetSelf
  | caller call ret => FuncStat.callerKey p.statOption call ret
  | startCaller start => Analysis.startCaller p start
  | noCaller => unknownCaller

/-- The function, or the special name itself. -/
def name : Entry → Str
  | child call _ _ => call.toSym.name
  | block first last => codeBlockName first last
  | self => targetSelf
  | caller _ ret => ret.toSym.name
  | startCaller start => start.fromSym.name
  | noCaller => unknownCaller

def isCaller : Entry → Bool
  | caller .. | startCaller _ | noCaller => true
  | _ => false

def unfinished : Entry → Bool
  | child _ unknown _ => unknown
  | _ => false

def mark (p : Param) : Entry → Mark
  | child call _ gather =>
    if p.callLine then
      if gather && !p.unfoldGatheredLine then .gathered
      else if call.toSym.name != p.target && call.toSym.name != p.ancestor then
        .address call.fromSym.addr
      else .none
    else .none
  | caller call ret =>
    if p.callLine then .address (if p.ipFiltering then ret.toSym.addr else call.fromSym.addr)
    else .none
  | startCaller start =>
    if p.callLine && !p.ipFiltering then .address start.fromSym.addr else .none
  | _ => .none

/-- An entry whose name is not that of a function. -/
def special : Entry → Bool
  | block .. | self | noCaller => true
  | _ => false

def shown (p : Param) (e : Entry) : Str :=
  if e.isCaller then printCaller p.statOption (e.key p) else printChildKey (e.key p)

/-- The report shows the function again and finds the address that was kept. -/
structure Decodes (p : Param) (e : Entry) : Prop where
  shown : e.shown p = e.name
  addr : p.callLine = true → addrFromFuncname (e.key p) = .ok (e.mark p).addr

/-- Nothing in the name is taken for what the analysis puts around a name. -/
structure Plain (p : Param) (e : Entry) : Prop where
  finished : e.isCaller = false → e.unfinished = false → ¬ unknownLatencyStr <:+: e.name
  unmarked : e.isCaller = false ∨ p.callLine = true → e.mark p = .none → '!'.toUInt8 ∉ e.name
  located : (e.mark p).addr ≠ 0 → ¬ gatherCallLine <:+: e.name

section Decoding

variable {p : Param} {e e' : Entry}

lemma unfinished_of_isCaller (h : e.isCaller = true) : e.unfinished = false := by
  cases e <;> first | rfl | cases h

lemma mark_of_callLine (h : p.callLine = false) : e.mark p = .none := by
  cases e <;> simp [mark, h]

lemma childName_eq (call : Action) (unknown gather : Bool) :
    childName p call unknown gather =
      keyText unknown call.toSym.name (mark p (.child call unknown gather)) := by
  have hlate : ∀ name : Str, (if unknown = true then unknownLatencyStr ++ name else name) =
      (if unknown = true then unknownLatencyStr else []) ++ name := by
    intro name
    cases unknown <;> rfl
  simp only [childName, keyText, mark, hlate]
  congr 1
  split
  · split
    · exact funcnameAddStringMark_eq _
    · split
      · exact funcnameAddAddr_eq _ _
      · exact (List.append_nil _).symm
  · exact (List.append_nil _).symm

lemma key_eq_keyText (p : Param) (e : Entry) : e.key p = keyText e.unfinished e.name (e.mark p) := by
  have hplain : ∀ name : Str, name = keyText false name .none := fun name => (List.append_nil name).symm
  cases e with
  | child call unknown gather => exact childName_eq call unknown gather
  | caller call ret =>
    simp only [key, FuncStat.callerKey, funcnameAddAddr_eq, unfinished, name, mark, keyText_false]
    rw [show p.statOption.callLine = p.callLine from rfl,
      show p.statOption.ipFiltering = p.ipFiltering from rfl]
    split
    · split <;> rfl
    · exact (List.append_nil _).symm
  | startCaller start =>
    simp only [key, Analysis.startCaller, funcnameAddAddr_eq, unfinished, name, mark, keyText_false]
    split
    · rfl
    · exact (List.append_nil _).symm
  | block | self | noCaller => exact hplain _

lemma shown_eq_name_iff :
    e.shown p = e.name ↔
      (e.isCaller = false → e.unfinished = false → ¬ unknownLatencyStr <:+: e.name) ∧
        (e.isCaller = false ∨ p.callLine = true → e.mark p = .none → '!'.toUInt8 ∉ e.name) := by
  rw [shown, key_eq_keyText]
  cases hcaller : e.isCaller with
  | false =>
    rw [if_neg Bool.false_ne_true, printChildKey_keyText_iff]
    simp
  | true =>
    rw [if_pos rfl, unfinished_of_isCaller hcaller, printCaller]
    cases hline : p.callLine with
    | false =>
      rw [if_neg (by rw [show p.statOption.callLine = p.callLine from rfl, hline]; decide),
        mark_of_callLine hline]
      simp [keyText, Mark.text]
    | true =>
      rw [if_pos (show p.statOption.callLine = true from hline)]
      simpa using funcnameGetName_mark_iff

lemma decodes_iff_plain : e.Decodes p ↔ e.Plain p := by
  have haddr : (e.mark p).addr ≠ 0 → p.callLine = true := by
    intro hne
    by_contra hline
    rw [mark_of_callLine (Bool.not_eq_true _ ▸ hline)] at hne
    exact hne rfl
  constructor
  · intro h
    obtain ⟨hfin, hunmarked⟩ := shown_eq_name_iff.mp h.shown
    refine ⟨hfin, hunmarked, fun hne => ?_⟩
    have hline := haddr hne
    have hread := h.addr hline
    rw [key_eq_keyText, addrFromFuncname_keyText_iff (hunmarked (Or.inr hline))] at hread
    exact hread hne
  · intro h
    refine ⟨shown_eq_name_iff.mpr ⟨h.finished, h.unmarked⟩, fun hline => ?_⟩
    rw [key_eq_keyText, addrFromFuncname_keyText_iff (h.unmarked (Or.inr hline))]
    exact h.located

lemma not_mem_codeBlockName {c : UInt8} (hdigit : 10 ≤ digitValue c) (hdash : c ∉ lit "-")
    (hbegin : c ∉ codeBlockPrefix) (first last : Action) : c ∉ codeBlockName first last := by
  have hdecimal : ∀ n, c ∉ decimal n := fun n => not_mem_digits (by decide) (by decide) hdigit n
  simp only [codeBlockName, List.mem_append, not_or]
  exact ⟨⟨⟨hbegin, hdecimal _⟩, hdash⟩, hdecimal _⟩

lemma plain_of_special (h : e.special = true) : e.Plain p := by
  suffices hname : '!'.toUInt8 ∉ e.name ∧ '('.toUInt8 ∉ e.name by
    refine ⟨fun _ _ => not_infix_of_not_mem (by decide) hname.2, fun _ _ => hname.1, fun hne => ?_⟩
    cases e <;> first | exact absurd rfl hne | cases h
  cases e with
  | block first last =>
    exact ⟨not_mem_codeBlockName (by decide) (by decide) (by decide) first last,
      not_mem_codeBlockName (by decide) (by decide) (by decide) first last⟩
  | self | noCaller => exact ⟨by decide, by decide⟩
  | child | caller | startCaller => cases h

lemma eq_of_key_eq (h : e.Decodes p) (h' : e'.Decodes p) (hside : e.isCaller = e'.isCaller)
    (hkey : e.key p = e'.key p) : e.name = e'.name ∧ e.mark p = e'.mark p := by
  have hname : e.name = e'.name := by
    rw [← h.shown, ← h'.shown, shown, shown, hside, hkey]
  have hlate : ∀ f g : Entry, f.Decodes p → f.isCaller = g.isCaller → f.unfinished = false →
      g.unfinished = true → ¬ unknownLatencyStr <:+: f.name := by
    intro f g hf hfg hff hg
    have hcaller : f.isCaller = false := by
      rw [hfg]
      by_contra htrue
      rw [unfinished_of_isCaller (by simpa using htrue)] at hg
      cases hg
    exact (shown_eq_name_iff.mp hf.shown).1 hcaller hff
  rw [key_eq_keyText, key_eq_keyText, ← hname] at hkey
  refine ⟨hname, mark_eq_of_keyText_eq (hlate e e' h hside) (fun h₁ h₂ => ?_) hkey⟩
  rw [hname]
  exact hlate e' e h' hside.symm h₁ h₂

end Decoding

end Entry

theorem keys_decode_iff (p : Param) (es : Set Entry) :
    ((∀ e ∈ es, e.Decodes p) ∧ ∀ e ∈ es, ∀ e' ∈ es, e.isCaller = e'.isCaller →
      e.key p = e'.key p → e.name = e'.name ∧ e.mark p = e'.mark p) ↔ ∀ e ∈ es, e.Plain p := by
  constructor
  · rintro ⟨h, -⟩ e he
    exact Entry.decodes_iff_plain.mp (h e he)
  · intro h
    have hdec : ∀ e ∈ es, e.Decodes p := fun e he => Entry.decodes_iff_plain.mpr (h e he)
    exact ⟨hdec, fun e he e' he' => Entry.eq_of_key_eq (hdec e he) (hdec e' he')⟩

namespace Sample

def notEqual (offset : UInt32) : Symbol := ⟨lit "Set::operator!=", 0x402000 + offset.toUInt64, offset⟩

/-- A call of the target, which calls `Set::operator!=`. -/
def childParam : Param := { Param.default (lit "f") with callLine := false }

def childCall : Action := branchOf childParam .call 10 (target 16) (notEqual 0)

def childRead : List Action :=
  [branchOf childParam .call 0 (main 16) (target 0), childCall,
    branchOf childParam .ret 20 (notEqual 24) (target 21),
    branchOf childParam .ret 30 (target 48) (main 21)]

/-- A call of `Set::operator!=`, which calls an address of its own. -/
def notEqualParam : Param := .withCodeBlock (.default (lit "Set::operator!=")) true

def selfCall : Action := branchOf notEqualParam .call 10 (notEqual 16) (notEqual 21)

def selfRead : List Action :=
  [branchOf notEqualParam .call 0 (main 16) (notEqual 0), selfCall,
    branchOf notEqualParam .ret 20 (notEqual 24) (notEqual 26),
    branchOf notEqualParam .ret 30 (notEqual 48) (main 21)]

/-- A call of `f!4202528`, which calls an address of its own and, from address 4202528, `f`. -/
def marked (offset : UInt32) : Symbol := ⟨lit "f!4202528", 0x402000 + offset.toUInt64, offset⟩

def markedParam : Param := .withCodeBlock (.default (lit "f!4202528")) true

def markedSelf : Action := branchOf markedParam .call 10 (marked 16) (marked 21)

def markedChild : Action := branchOf markedParam .call 22 (marked 32) (target 0)

def markedRead : List Action :=
  [branchOf markedParam .call 0 (main 16) (marked 0), markedSelf,
    branchOf markedParam .ret 20 (marked 24) (marked 26), markedChild,
    branchOf markedParam .ret 26 (target 48) (marked 37),
    branchOf markedParam .ret 30 (marked 48) (main 21)]

/-- The calls that the run on what was read keeps under the key of `e`. -/
def storedUnder (p : Param) (read : List Action) (e : Entry) : Option ℕ :=
  (doAnalyze p (decodeToActions p read)).toOption.map fun stat =>
    (stat.children.target.get (e.key p)).count.toNat

end Sample

open Sample in
/-- A child named `Set::operator!=` is shown without its last characters; kept under the bare name
of the target, it also stops the report. A target `f!4202528` shares the key of the `f` that it
calls from that address. -/
theorem operator_name_misread :
    storedUnder childParam childRead (.child childCall false false) = some 1 ∧
      (Entry.child childCall false false).name = lit "Set::operator!=" ∧
      (Entry.child childCall false false).shown childParam = lit "Set::operator" ∧
      storedUnder notEqualParam selfRead (.child selfCall false false) = some 1 ∧
      addrFromFuncname ((Entry.child selfCall false false).key notEqualParam) =
        .error .invalidArgument ∧
      storedUnder markedParam markedRead (.child markedSelf false false) = some 2 ∧
      (Entry.child markedSelf false false).key markedParam =
        (Entry.child markedChild false false).key markedParam ∧
      (Entry.child markedSelf false false).name ≠ (Entry.child markedChild false false).name := by
  refine ⟨?_, ?_, ?_, ?_, ?_, ?_, ?_, ?_⟩ <;> decide +kernel

/-! The statistics of a run hold no other keys. -/

def Seen (actions : List Action) (a : Action) : Prop :=
  ∃ b ∈ actions, a.fromSym = b.fromSym ∧ a.toSym = b.toSym

def Entry.From (actions : List Action) : Entry → Prop
  | .child call _ _ => Seen actions call
  | .block first last => Seen actions first ∧ Seen actions last
  | .caller call ret => Seen actions call ∧ Seen actions ret
  | .startCaller start => Seen actions start
  | .self | .noCaller => True

def KeyFrom (p : Param) (actions : List Action) (isCaller : Bool) (k : Str) : Prop :=
  ∃ e : Entry, e.isCaller = isCaller ∧ e.From actions ∧ e.key p = k

structure KeptUnder (child caller : Str → Prop) (t : Tally) : Prop where
  children : ∀ k ∈ t.children.target.keys, child k
  callers : ∀ k ∈ t.callers.keys, caller k
  nested : ∀ c, ∀ k ∈ (t.callers.get c).children.target.keys, child k

namespace KeptUnder

variable {child caller : Str → Prop} {t u : Tally}

lemma not_mem_keys_clear (k : Str) : k ∉ LatencyChild.clear.target.keys :=
  TallyMap.notMem_keys_zero (V := Element) k

lemma zero : KeptUnder child caller 0 := by
  refine ⟨fun k hk => absurd hk (TallyMap.notMem_keys_zero k), fun k hk => absurd hk (TallyMap.notMem_keys_zero k),
    fun c k hk => ?_⟩
  rw [Tally.zero_callers, TallyMap.get_zero] at hk
  exact absurd hk (TallyMap.notMem_keys_zero k)

lemma add (h : KeptUnder child caller t) (h' : KeptUnder child caller u) :
    KeptUnder child caller (t + u) := by
  refine ⟨fun k hk => ?_, fun k hk => ?_, fun c k hk => ?_⟩
  · exact (TallyMap.mem_keys_add.mp hk).elim (h.children k) (h'.children k)
  · exact (TallyMap.mem_keys_add.mp hk).elim (h.callers k) (h'.callers k)
  · rw [Tally.add_callers, TallyMap.get_add] at hk
    exact (TallyMap.mem_keys_add.mp hk).elim (h.nested c k) (h'.nested c k)

lemma single {l : Latency} {kids : Children} {c : Str} {lc : LatencyCaller} {n : UInt64}
    (hkids : ∀ k ∈ kids.target.keys, child k) (hc : caller c)
    (hnested : ∀ k ∈ lc.children.target.keys, child k) :
    KeptUnder child caller ⟨l, kids, .single c lc, n⟩ := by
  refine ⟨hkids, fun k hk => ?_, fun d k hk => ?_⟩
  · rwa [← TallyMap.mem_keys_single.mp hk]
  · rw [TallyMap.get_single] at hk
    split at hk
    · exact hnested k hk
    · exact absurd hk (TallyMap.notMem_keys_zero k)

lemma ofChildren {kids : Children} {c : Str} (gather : Bool)
    (hkids : ∀ k ∈ kids.target.keys, child k) (hc : caller c) :
    KeptUnder child caller (.ofChildren kids c gather) := by
  refine single ?_ hc hkids
  cases gather
  · exact fun k hk => absurd hk (TallyMap.notMem_keys_zero k)
  · exact hkids

lemma ofLatency {c : Str} (latT latS : UInt64) (hc : caller c) :
    KeptUnder child caller (.ofLatency latT latS c) := by
  have hone : ∀ (l : Latency) (lc : Latency), KeptUnder child caller ⟨l, 0, .single c ⟨lc, 0⟩, 0⟩ :=
    fun l lc => single (fun k hk => absurd hk (TallyMap.notMem_keys_zero k)) hc
      fun k hk => absurd hk (TallyMap.notMem_keys_zero k)
  rw [Tally.ofLatency]
  refine (hone _ _).add ?_
  split
  · exact zero
  · exact hone _ _

lemma counts (l : Latency) (n : UInt64) : KeptUnder child caller ⟨l, 0, 0, n⟩ := by
  have h : KeptUnder child caller 0 := zero
  exact ⟨h.children, h.callers, h.nested⟩

lemma ofUnknown {kids : Children} {c : Str} (hkids : ∀ k ∈ kids.target.keys, child k)
    (hc : caller c) : KeptUnder child caller (.ofUnknown kids c) :=
  (ofChildren _ hkids hc).add (counts _ _)

lemma mem_keys_record {c : LatencyChild} {name k : Str} {wall sched : UInt64}
    (hk : k ∈ ((c.addTarget name wall).addSched name sched).target.keys) :
    k ∈ c.target.keys ∨ k = name := by
  rw [LatencyChild.addSched_target, LatencyChild.addTarget, Bucket.addVal, TallyMap.bump_eq_add,
    TallyMap.mem_keys_add, TallyMap.mem_keys_single] at hk
  exact hk.imp_right Eq.symm

lemma mem_keys_withSelf {opt : StatOption} {latT latS : UInt64} {kids : LatencyChild} {k : Str}
    (hk : k ∈ (FuncStat.withSelf opt latT latS kids).target.keys) :
    k ∈ kids.target.keys ∨ k = targetSelf := by
  rw [FuncStat.withSelf] at hk
  split at hk
  · exact Or.inl hk
  · exact mem_keys_record hk

lemma ofCall {opt : StatOption} {call ret : Action} {latS : UInt64} {kids : LatencyChild}
    (hkids : ∀ k ∈ kids.target.keys, child k) (hself : child targetSelf)
    (hc : caller (FuncStat.callerKey opt call ret))
    (ht : Tally.ofCall opt call ret latS kids = .ok t) : KeptUnder child caller t := by
  simp only [Tally.ofCall] at ht
  split at ht
  · cases ht
    exact zero
  · split at ht
    · cases ht
      refine (ofLatency _ _ hc).add (ofChildren _ (fun k hk => ?_) hc)
      rcases mem_keys_withSelf hk with hk | rfl
      · exact hkids k hk
      · exact hself
    · cases ht

end KeptUnder

section Traced

variable {p : Param} {actions : List Action} {s s' : State} {a : Action} {es : List Effect} {t : Tally}

/-- What the state remembers comes from the list. -/
structure Traced (p : Param) (actions : List Action) (s : State) : Prop where
  stack : ∀ e ∈ s.stack, Seen actions e
  cursor : ∀ c ∈ s.cursor, Seen actions c
  targetBegin : ∀ b ∈ s.targetBegin, Seen actions b
  child : ∀ k ∈ s.child.target.keys, KeyFrom p actions false k

def Effect.From (p : Param) (actions : List Action) : Effect → Prop
  | .add call ret _ child =>
    Seen actions call ∧ Seen actions ret ∧ ∀ k ∈ child.target.keys, KeyFrom p actions false k
  | .addUnknownLatency child caller =>
    (∀ k ∈ child.target.keys, KeyFrom p actions false k) ∧ KeyFrom p actions true caller
  | _ => True

abbrev StoredFrom (p : Param) (actions : List Action) : Tally → Prop :=
  KeptUnder (KeyFrom p actions false) (KeyFrom p actions true)

lemma Effect.From.tally {e : Effect} (h : e.From p actions) (ht : e.tally p.statOption = .ok t) :
    StoredFrom p actions t := by
  cases e with
  | add call ret latS child =>
    obtain ⟨hcall, hret, hchild⟩ := h
    exact .ofCall hchild ⟨.self, rfl, trivial, rfl⟩ ⟨.caller call ret, rfl, ⟨hcall, hret⟩, rfl⟩ ht
  | addUnknownLatency child caller =>
    cases ht
    exact .ofUnknown h.1 h.2
  | countSched | addMiss | countAncestorBegin | countAncestorEnd =>
    cases ht
    exact .counts _ _

lemma storedFrom_totalTally (h : ∀ e ∈ es, e.From p actions)
    (ht : totalTally p.statOption es = .ok t) : StoredFrom p actions t := by
  induction es generalizing t with
  | nil =>
    cases ht
    exact .zero
  | cons e es ih =>
    rw [List.forall_mem_cons] at h
    obtain ⟨t₁, t₂, h₁, h₂, rfl⟩ := totalTally_cons_inv ht
    exact (h.1.tally h₁).add (ih h.2 h₂)

lemma Seen.rewriteJump (h : Seen actions a) : Seen actions (rewriteJump a) := by
  obtain ⟨b, hb, hsym⟩ := h
  exact ⟨b, hb, by rwa [rewriteJump_fromSym, rewriteJump_toSym]⟩

lemma Traced.recordName (h : Traced p actions s) (ha : Seen actions a) {base : Action}
    (hbase : recordBase p s a = some base) : KeyFrom p actions false (recordName p s a base) := by
  have hseen : Seen actions base := (recordBase_mem hbase).elim (h.stack base) (h.cursor base)
  rw [Analysis.recordName]
  split
  · exact ⟨.block base a, rfl, ⟨hseen, ha⟩, rfl⟩
  · exact ⟨.child base false _, rfl, hseen, rfl⟩

lemma Traced.unfinished (h : Traced p actions s) {k : Str}
    (hk : k ∈ (unfinished p s a).target.keys) : KeyFrom p actions false k := by
  rw [Analysis.unfinished] at hk
  split at hk
  · rename_i top _ _ hst _
    rcases KeptUnder.mem_keys_record hk with hk | rfl
    · exact h.child k hk
    · exact ⟨.child top true false, rfl, h.stack top (by rw [hst]; exact List.mem_cons_self), rfl⟩
  · exact h.child k hk

lemma Traced.unfinishedCaller (h : Traced p actions s) :
    KeyFrom p actions true (unfinishedCaller p s) := by
  rw [Analysis.unfinishedCaller]
  split
  · rename_i start _ hstart
    exact ⟨.startCaller start, rfl, h.targetBegin start hstart, rfl⟩
  · exact ⟨.noCaller, rfl, trivial, rfl⟩

lemma Traced.startStep (h : Traced p actions s) : ∀ e ∈ (startStep p s a).2, e.From p actions := by
  intro e he
  rcases List.mem_append.mp he with he | he
  · split at he
    · exact absurd he List.not_mem_nil
    · rw [List.mem_singleton.mp he]
      exact ⟨fun k hk => h.unfinished hk, h.unfinishedCaller⟩
  · rw [missed] at he
    split at he
    · rw [List.mem_singleton.mp he]
      exact trivial
    · exact absurd he List.not_mem_nil

lemma Traced.next (h : Traced p actions s) (ha : Seen actions a) (hm : Move p s a s' es) :
    Traced p actions s' ∧ ∀ e ∈ es, e.From p actions := by
  obtain ⟨hstack, hcursor⟩ := hm.bases ha ha.rewriteJump h.stack h.cursor
  have htarget : ∀ b ∈ s'.targetBegin, Seen actions b := by
    rcases hm.target with ⟨-, -, hbegin, -⟩ | ⟨-, hbegin, -⟩
    · rw [hbegin]
      rintro b ⟨rfl⟩
      exact ha
    · rw [hbegin]
      exact h.targetBegin
  suffices hchild : (∀ k ∈ s'.child.target.keys, KeyFrom p actions false k) ∧
      ∀ e ∈ es, e.From p actions from ⟨⟨hstack, hcursor, htarget, hchild.1⟩, hchild.2⟩
  have hclear : ∀ k ∈ LatencyChild.clear.target.keys, KeyFrom p actions false k :=
    fun k hk => absurd hk (KeptUnder.not_mem_keys_clear k)
  cases hm.recordMove with
  | record hbase _ hchild _ _ hes =>
    rw [hchild, hes, State.record]
    refine ⟨fun k hk => ?_, fun e he => absurd he List.not_mem_nil⟩
    rcases KeptUnder.mem_keys_record hk with hk | rfl
    · exact h.child k hk
    · exact h.recordName ha hbase
  | wake _ _ _ _ _ hs' hes =>
    rw [hs', hes]
    refine ⟨h.child, fun e he => ?_⟩
    rw [List.mem_singleton.mp he]
    exact trivial
  | keep _ _ _ _ hchild _ _ hes =>
    rw [hchild]
    refine ⟨h.child, fun e he => ?_⟩
    have hcounts := hes e he
    cases e <;> first | exact trivial | cases hcounts
  | error _ hs' hes =>
    rw [hs', hes]
    refine ⟨hclear, fun e he => ?_⟩
    rw [List.mem_singleton.mp he]
    exact ⟨h.child, .noCaller, rfl, trivial, rfl⟩
  | start _ hs' hes =>
    rw [hs', hes]
    exact ⟨hclear, h.startStep⟩
  | @finish start _ hcall hchild _ _ hes =>
    rw [hchild, hes]
    refine ⟨hclear, fun e he => ?_⟩
    rw [List.mem_singleton.mp he]
    exact ⟨h.stack start (closedCall_mem hcall), ha.rewriteJump, h.child⟩

lemma traced_init : Traced p actions .init where
  stack _ he := absurd he List.not_mem_nil
  cursor _ hc := by cases hc
  targetBegin _ hb := by cases hb
  child k hk := absurd hk (KeptUnder.not_mem_keys_clear k)

lemma Traced.leftover (h : Traced p actions s) : ∀ e ∈ leftover s, e.From p actions := by
  intro e he
  rw [Analysis.leftover] at he
  split at he
  · exact absurd he List.not_mem_nil
  · rw [List.mem_singleton.mp he]
    exact ⟨h.child, .noCaller, rfl, trivial, rfl⟩

lemma storedFrom_tallyFrom (xs : List Action) (hxs : ∀ a ∈ xs, a ∈ actions) (h : Traced p actions s)
    (ht : tallyFrom p s xs = .ok t) : StoredFrom p actions t := by
  induction xs generalizing s t with
  | nil => exact storedFrom_totalTally h.leftover ht
  | cons a rest ih =>
    obtain ⟨s', es, t₁, t₂, hstep, hes, hrest, rfl⟩ := tallyFrom_cons_inv ht
    rw [List.forall_mem_cons] at hxs
    obtain ⟨hnext, heffects⟩ := h.next ⟨a, hxs.1, rfl, rfl⟩ (move_of_step hstep)
    exact (storedFrom_totalTally heffects hes).add (ih hxs.2 hnext hrest)

lemma storedFrom_doAnalyze {stat : FuncStat} (h : doAnalyze p actions = .ok stat) :
    StoredFrom p actions stat.toTally :=
  storedFrom_tallyFrom actions (fun _ ha => ha) traced_init (tallyFrom_of_doAnalyze h)

end Traced

lemma KeptUnder.mono {child caller child' caller' : Str → Prop} {t : Tally}
    (h : KeptUnder child caller t) (hchild : ∀ k, child k → child' k)
    (hcaller : ∀ k, caller k → caller' k) : KeptUnder child' caller' t :=
  ⟨fun k hk => hchild k (h.children k hk), fun k hk => hcaller k (h.callers k hk),
    fun c k hk => hchild k (h.nested c k hk)⟩

lemma KeptUnder.merged {p : Param} {child caller : Str → Prop} {threads : List (List Action)}
    {stats : List FuncStat} {stat₀ : FuncStat}
    (hok : List.Forall₂ (fun l stat => doAnalyze p l = .ok stat) threads stats)
    (hchild : ∀ l ∈ threads, ∀ k, KeyFrom p l false k → child k)
    (hcaller : ∀ l ∈ threads, ∀ k, KeyFrom p l true k → caller k)
    (h : KeptUnder child caller stat₀.toTally) :
    KeptUnder child caller (stats.foldl FuncStat.merge stat₀).toTally := by
  induction hok generalizing stat₀ with
  | nil => exact h
  | cons hone _ ih =>
    rw [List.forall_mem_cons] at hchild hcaller
    exact ih hchild.2 hcaller.2 (h.add ((storedFrom_doAnalyze hone).mono hchild.1 hcaller.1))

section Reports

variable {p : Param} {threads : List (List Action)} {stats : List FuncStat}

def Entry.FromThreads (threads : List (List Action)) (e : Entry) : Prop := ∃ l ∈ threads, e.From l

theorem stored_keys (hok : List.Forall₂ (fun l stat => doAnalyze p l = .ok stat) threads stats) :
    KeptUnder (fun k => ∃ e : Entry, e.isCaller = false ∧ e.FromThreads threads ∧ e.key p = k)
      (fun k => ∃ e : Entry, e.isCaller = true ∧ e.FromThreads threads ∧ e.key p = k)
      (stats.foldl FuncStat.merge .new).toTally := by
  refine .merged hok ?_ ?_ .zero
  · rintro l hl _ ⟨e, hside, he, hk⟩
    exact ⟨e, hside, ⟨l, hl, he⟩, hk⟩
  · rintro l hl _ ⟨e, hside, he, hk⟩
    exact ⟨e, hside, ⟨l, hl, he⟩, hk⟩

/-- The names that the loops of `generate_srcline` visit. -/
def Visited (t : Tally) (k : Str) : Prop :=
  k ∈ t.callers.keys ∨ (∃ c, k ∈ (t.callers.get c).children.target.keys) ∨ k ∈ t.children.target.keys

theorem report_reads_back (hok : List.Forall₂ (fun l stat => doAnalyze p l = .ok stat) threads stats)
    (hline : p.callLine = true)
    (hplain : ∀ e : Entry, e.special = false → e.FromThreads threads → e.Plain p)
    {names : List Str} (hnames : ∀ k ∈ names, Visited (stats.foldl FuncStat.merge .new).toTally k)
    {m : SrclineMap} (hfresh : ∀ k ∈ names, m.lookup k = none) :
    ∃ m', generateSrcline m names = .ok m' ∧ ∀ k ∈ names, ∃ e : Entry, e.FromThreads threads ∧
      e.key p = k ∧ e.shown p = e.name ∧ (m'.lookup k).getD 0 = (e.mark p).addr := by
  have hstored := stored_keys hok
  have hentry : ∀ k ∈ names, ∃ e : Entry, e.FromThreads threads ∧ e.key p = k := by
    intro k hk
    rcases hnames k hk with hk | ⟨c, hk⟩ | hk
    · obtain ⟨e, -, he⟩ := hstored.callers k hk
      exact ⟨e, he⟩
    · obtain ⟨e, -, he⟩ := hstored.nested c k hk
      exact ⟨e, he⟩
    · obtain ⟨e, -, he⟩ := hstored.children k hk
      exact ⟨e, he⟩
  have hdecodes : ∀ e : Entry, e.FromThreads threads → e.Decodes p := by
    intro e he
    rw [Entry.decodes_iff_plain]
    cases hspecial : e.special with
    | true => exact Entry.plain_of_special hspecial
    | false => exact hplain e hspecial he
  have haddr : ∀ k ∈ names, addrFromFuncname k = .ok ((addrFromFuncname k).toOption.getD 0) := by
    intro k hk
    obtain ⟨e, he, rfl⟩ := hentry k hk
    rw [(hdecodes e he).addr hline]
    rfl
  obtain ⟨m', hm', hlookup⟩ := generateSrcline_eq_ok haddr m
  refine ⟨m', hm', fun k hk => ?_⟩
  obtain ⟨e, he, hkey⟩ := hentry k hk
  have hdec := hdecodes e he
  refine ⟨e, he, hkey, hdec.shown, ?_⟩
  have hread := hdec.addr hline
  rw [hkey] at hread
  rw [hlookup k, hfresh k hk, hread, Option.none_or]
  change (if k ∈ names ∧ (e.mark p).addr > 0 then some (e.mark p).addr else none).getD 0 =
    (e.mark p).addr
  by_cases hpos : (e.mark p).addr > 0
  · rw [if_pos ⟨hk, hpos⟩, Option.getD_some]
  · rw [if_neg fun h => hpos h.2, Option.getD_none]
    exact (UInt64.le_zero_iff.mp (UInt64.not_lt.mp hpos)).symm

end Reports

end PtPerf.Analysis
