import PtPerf.Script.Readings

/-! The actions of a thread and the number of workers. A job keeps the first of its lines as a
32-bit number. -/

namespace PtPerf.Script

open PtPerf.Support PtPerf.Support.Text PtPerf.Trace

def readings (lines : List Str) : List Action :=
  lines.filterMap fun line => match reading line with
    | .ok r => r
    | .error _ => none

def isBranchOf (tid : Int32) (a : Action) : Bool := !a.isError && a.tid == tid

def isErrorOf (tid : Int32) (a : Action) : Bool := a.isError && a.tid == tid

/-- The symbols on the branches of a file. -/
def SymbolIn (lines : List Str) (x : Symbol) : Prop :=
  ∃ a ∈ readings lines, a.isError = false ∧ (x = a.fromSym ∨ x = a.toSym)

structure IsScript (lines : List Str) : Prop where
  length : lines.length < 2 ^ 32 - 1
  ordered : ∀ tid, Merge.KeySorted timeOf ((readings lines).filter (isBranchOf tid))
  symbols : OneName (SymbolIn lines)
  apart : ∀ a ∈ readings lines, ∀ b ∈ readings lines, a.tid = b.tid → a.isError = false →
    b.isError = true → a.ts ≠ b.ts

/-- What the analysis can see of an action: the fields of a trace error that are never set are
left out. -/
def settled (a : Action) : Action := if a.isError then readOver default a else a

def ParseJob.parses (job : ParseJob) (n : ℕ) : Bool := job.first.toNat ≤ n && n < job.last.toNat

def ParsedOnce (lines : List Str) (workerNum : UInt64) : Prop :=
  let jobs := assignParseJobs workerNum (UInt64.ofNat lines.length)
  ∀ n < lines.length, ∃! i : ℕ, ∃ job : ParseJob, jobs[i]? = some job ∧ job.parses n = true

def SameActions (p : Param) (outOfOrder : Bool) (lines : List Str) (w₁ w₂ : UInt64) : Prop :=
  ∀ old₁ old₂ tid,
    (threadActions p outOfOrder old₁ lines w₁ tid).map (List.map settled) =
      (threadActions p outOfOrder old₂ lines w₂ tid).map (List.map settled)

def lineStep (total : ℕ) (workerNum : UInt64) : ℕ := total / workerNum.toNat + 1

/-- Every job's first line is below `2 ^ 32`. -/
def StartsFit (total : ℕ) (workerNum : UInt64) : Prop :=
  (100 * workerNum).toNat < total → ∀ i < workerNum.toNat, i * lineStep total workerNum < 2 ^ 32

section Collecting

variable {p : Param} (outOfOrder : Bool) {known : Symbol → Prop} {acts : List Action} {s : Parsed}
  {a : Action}

/-- A job that has taken in the actions `acts`. -/
structure Collected (known : Symbol → Prop) (acts : List Action) (s : Parsed) : Prop where
  symbols : Agrees known s.symbols
  parsed : ∀ tid, s.parsedActions tid = acts.filter (isBranchOf tid)
  errors : ∀ tid, s.errorActions tid = acts.filter (isErrorOf tid)

lemma collected_init : Collected known [] Parsed.init :=
  ⟨agrees_zero, fun _ => rfl, fun _ => rfl⟩

lemma filter_update (f : Int32 → Action → Bool) (tid : Int32) (hf : ∀ t, f t a = (a.tid == t)) :
    Function.update (fun t => acts.filter (f t)) a.tid (acts.filter (f a.tid) ++ [a]) tid =
      (acts ++ [a]).filter (f tid) := by
  by_cases h : tid = a.tid
  · subst h
    simp [hf]
  · rw [Function.update_of_ne h, List.filter_append, List.filter_cons_of_neg]
    · simp
    · simp [hf, Ne.symm h]

lemma Collected.add (hs : Collected known acts s) (hord : ∀ b, initAction p a = some b →
      Merge.KeySorted timeOf ((acts ++ [b]).filter (isBranchOf b.tid))) :
    ∃ s', s.add p outOfOrder a = .ok s' ∧ Collected known (acts ++ (initAction p a).toList) s' := by
  rw [Parsed.add]
  cases ha : initAction p a with
  | none => exact ⟨s, rfl, by simpa using hs⟩
  | some b =>
    have hparsed : s.parsedActions = fun t => acts.filter (isBranchOf t) := funext hs.parsed
    have herrors : s.errorActions = fun t => acts.filter (isErrorOf t) := funext hs.errors
    cases hb : b.isError with
    | true =>
      refine ⟨{ s with errorActions := Function.update s.errorActions b.tid (s.errorActions b.tid ++ [b]) },
        ?_, hs.symbols, ?_, ?_⟩
      · simp [hb, ActionSets.addAction, Except.map]
      · intro tid
        simp [hs.parsed, isBranchOf, hb]
      · intro tid
        rw [herrors]
        exact filter_update isErrorOf tid fun t => by simp [isErrorOf, hb]
    | false =>
      have hlast : (s.parsedActions b.tid).getLast?.all (fun c => timeOf c ≤ timeOf b) = true := by
        have hsorted := hord b ha
        rw [List.filter_append, List.filter_cons_of_pos (by simp [isBranchOf, hb]), List.filter_nil,
          ← hs.parsed, Merge.KeySorted, List.pairwise_append] at hsorted
        cases hl : (s.parsedActions b.tid).getLast? with
        | none => rfl
        | some c => simpa using hsorted.2.2 c (List.mem_of_getLast? hl) b (by simp)
      refine ⟨{ s with
        parsedActions := Function.update s.parsedActions b.tid (s.parsedActions b.tid ++ [b]) },
        ?_, hs.symbols, ?_, ?_⟩
      · simp [hb, ActionSets.addAction, Except.map, hlast]
      · intro tid
        rw [hparsed]
        exact filter_update isBranchOf tid fun t => by simp [isBranchOf, hb]
      · intro tid
        simp [hs.errors, isErrorOf, hb]

/-- Whether a line can be read, and the action that is kept of it. -/
def readable (x : Str × ℕ) : Except JobFault Unit :=
  match reading x.1 with
  | .error f => .error (.parse f)
  | .ok _ => .ok ()

def allReadable : List (Str × ℕ) → Except JobFault Unit
  | [] => .ok ()
  | x :: xs => readable x >>= fun _ => allReadable xs

def kept (p : Param) (old : ℕ → Action) (x : Str × ℕ) : Option Action :=
  match reading x.1 with
  | .ok (some a) => initAction p (readOver (cleared (old x.2)) a)
  | _ => none

/-- The branch of a line is between known symbols. -/
def KnownEnds (known : Symbol → Prop) (line : Str) : Prop :=
  ∀ a, reading line = .ok (some a) → a.isError = false → known a.fromSym ∧ known a.toSym

lemma Collected.readLine {old : ℕ → Action} {x : Str × ℕ} (hone : OneName known)
    (hs : Collected known acts s) (hknown : KnownEnds known x.1)
    (hord : ∀ b, kept p old x = some b →
      Merge.KeySorted timeOf ((acts ++ [b]).filter (isBranchOf b.tid))) :
    ∃ s', Collected known (acts ++ (kept p old x).toList) s' ∧
      s.readLine p outOfOrder (old x.2) x.1 = (readable x).map fun _ => s' := by
  obtain ⟨m', hm', heq⟩ := createActionFromString_agrees hone hs.symbols (old x.2) hknown
  have hs' : Collected known acts { s with symbols := m' } := ⟨hm', hs.parsed, hs.errors⟩
  rw [Parsed.readLine, heq, readable]
  rw [kept] at hord ⊢
  rcases hr : reading x.1 with f | (- | a)
  · exact ⟨s, by simpa using hs, rfl⟩
  · exact ⟨_, by simpa using hs', rfl⟩
  · simp only [hr] at hord ⊢
    obtain ⟨s', hadd, hcol⟩ := hs'.add outOfOrder hord
    exact ⟨s', hcol, hadd⟩

lemma Collected.fold {old : ℕ → Action} {xs : List (Str × ℕ)} (hone : OneName known)
    (hs : Collected known acts s) (hknown : ∀ x ∈ xs, KnownEnds known x.1)
    (hord : ∀ tid, Merge.KeySorted timeOf
      ((acts ++ xs.filterMap (kept p old)).filter (isBranchOf tid))) :
    ∃ s', Collected known (acts ++ xs.filterMap (kept p old)) s' ∧
      xs.foldlM (fun s x => s.readLine p outOfOrder (old x.2) x.1) s =
        (allReadable xs).map fun _ => s' := by
  induction xs generalizing acts s with
  | nil => exact ⟨s, by simpa using hs, rfl⟩
  | cons x xs ih =>
    have hcons : acts ++ (x :: xs).filterMap (kept p old) =
        acts ++ (kept p old x).toList ++ xs.filterMap (kept p old) := by
      cases h : kept p old x <;> simp [h]
    rw [hcons] at hord ⊢
    have hfirst : ∀ b, kept p old x = some b →
        Merge.KeySorted timeOf ((acts ++ [b]).filter (isBranchOf b.tid)) := by
      intro b hb
      have hb' := hord b.tid
      rw [hb, Option.toList_some, List.filter_append] at hb'
      exact (List.pairwise_append.mp hb').1
    obtain ⟨s₁, hs₁, hread⟩ := hs.readLine outOfOrder hone (hknown x (by simp)) hfirst
    obtain ⟨s', hs', hfold⟩ := ih hs₁ (fun y hy => hknown y (by simp [hy])) hord
    refine ⟨s', hs', ?_⟩
    rw [List.foldlM_cons, hread, allReadable]
    cases readable x with
    | error e => rfl
    | ok u => exact hfold

end Collecting

section Jobs

variable {p : Param} (outOfOrder : Bool) {old : ℕ → Action} {lines : List Str}
  {known : Symbol → Prop}

def slice (lines : List Str) (job : ParseJob) : List (Str × ℕ) :=
  lines.zipIdx.filter fun x => job.parses x.2

lemma readActionsFromTextFile_eq (job : ParseJob) (n : ℕ) (lines : List Str) (s : Parsed) :
    readActionsFromTextFile p outOfOrder old job n lines s =
      ((lines.zipIdx n).filter fun x => job.parses x.2).foldlM
        (fun s x => s.readLine p outOfOrder (old x.2) x.1) s := by
  induction lines generalizing n s with
  | nil => rfl
  | cons line lines ih =>
    have hparses : job.parses n = !(decide (n < job.first.toNat) || decide (n ≥ job.last.toNat)) := by
      simp only [ParseJob.parses, Bool.not_or]
      congr 1
      · rw [← decide_not]
        exact decide_eq_decide.mpr not_lt.symm
      · rw [← decide_not]
        exact decide_eq_decide.mpr not_le.symm
    rw [readActionsFromTextFile, List.zipIdx_cons]
    cases h : (decide (n < job.first.toNat) || decide (n ≥ job.last.toNat)) with
    | true =>
      rw [List.filter_cons_of_neg (by simp [hparses, h]), if_pos rfl, ih]
    | false =>
      rw [List.filter_cons_of_pos (by simp [hparses, h]), if_neg (by simp), List.foldlM_cons]
      congr 1
      funext s'
      rw [ih]

lemma allReadable_append (xs ys : List (Str × ℕ)) :
    allReadable (xs ++ ys) = allReadable xs >>= fun _ => allReadable ys := by
  induction xs with
  | nil => rfl
  | cons x xs ih =>
    rw [List.cons_append, allReadable, allReadable, ih]
    cases readable x <;> rfl

lemma exec_jobs (hone : OneName known) (hknown : ∀ line ∈ lines, KnownEnds known line)
    (hord : ∀ tid, Merge.KeySorted timeOf
      ((lines.zipIdx.filterMap (kept p old)).filter (isBranchOf tid))) (jobs : List ParseJob) :
    ∃ ps, List.Forall₂ (fun job s => Collected known ((slice lines job).filterMap (kept p old)) s)
        jobs ps ∧
      jobs.mapM (ParseJob.exec p outOfOrder old lines) =
        (allReadable (jobs.flatMap (slice lines))).map fun _ => ps.map (Parsed.sortActions outOfOrder) := by
  induction jobs with
  | nil => exact ⟨[], .nil, rfl⟩
  | cons job jobs ih =>
    obtain ⟨ps, hps, hjobs⟩ := ih
    have hknown' : ∀ x ∈ slice lines job, KnownEnds known x.1 := by
      intro x hx
      exact hknown x.1 (List.fst_mem_of_mem_zipIdx (List.mem_of_mem_filter hx))
    have hord' : ∀ tid, Merge.KeySorted timeOf
        (([] ++ (slice lines job).filterMap (kept p old)).filter (isBranchOf tid)) := by
      intro tid
      exact (hord tid).sublist ((List.filter_sublist.filterMap _).filter _)
    obtain ⟨s, hs, hfold⟩ := collected_init.fold outOfOrder hone hknown' hord'
    refine ⟨s :: ps, .cons hs hps, ?_⟩
    rw [List.mapM_cons, ParseJob.exec, readActionsFromTextFile_eq, hjobs, List.flatMap_cons,
      allReadable_append]
    change (((slice lines job).foldlM _ Parsed.init >>= _) >>= _) = _
    rw [hfold]
    cases allReadable (slice lines job) with
    | error e => rfl
    | ok u => cases allReadable (jobs.flatMap (slice lines)) <;> rfl

end Jobs

section Extraction

variable {known : Symbol → Prop} {acts : List Action}

def ofThread (tid : Int32) (acts : List Action) : List Action := acts.filter (·.tid == tid)

/-- No branch and error of one thread share a timestamp. -/
def Apart (acts : List Action) : Prop :=
  ∀ a ∈ acts, ∀ b ∈ acts, a.tid = b.tid → a.isError = false → b.isError = true → timeOf a ≠ timeOf b

/-- The stable order of a thread's actions; the merge never takes the last timestamp there is. -/
def ordered (acts : List Action) (tid : Int32) : Except JobFault (List Action) :=
  if ∀ a ∈ ofThread tid acts, timeOf a < uint64Max.toNat then
    .ok (Merge.sort timeOf (ofThread tid acts))
  else .error .totalActions

lemma parts_perm (tid : Int32) (acts : List Action) :
    (acts.filter (isBranchOf tid) ++ acts.filter (isErrorOf tid)).Perm (ofThread tid acts) := by
  have h := List.filter_append_perm (fun a : Action => !a.isError) (ofThread tid acts)
  simp only [ofThread, List.filter_filter, Bool.not_not] at h
  exact h

lemma Apart.filter_parts (h : Apart acts) (tid : Int32) (k : ℕ) :
    (acts.filter (isBranchOf tid) ++ acts.filter (isErrorOf tid)).filter (timeOf · = k) =
      (ofThread tid acts).filter (timeOf · = k) := by
  have hbranch : (acts.filter (isBranchOf tid)).filter (timeOf · = k) =
      ((ofThread tid acts).filter (timeOf · = k)).filter (!·.isError) := by
    simp only [ofThread, List.filter_filter, isBranchOf]
    exact List.filter_congr fun a _ => by rw [Bool.and_left_comm]
  have herror : (acts.filter (isErrorOf tid)).filter (timeOf · = k) =
      ((ofThread tid acts).filter (timeOf · = k)).filter (·.isError) := by
    simp only [ofThread, List.filter_filter, isErrorOf]
    exact List.filter_congr fun a _ => by rw [Bool.and_left_comm]
  rw [List.filter_append, hbranch, herror]
  have hmem : ∀ a ∈ (ofThread tid acts).filter (timeOf · = k), a ∈ acts ∧ timeOf a = k ∧ a.tid = tid := by
    intro a ha
    simpa [ofThread, and_assoc] using ha
  generalize (ofThread tid acts).filter (timeOf · = k) = l at hmem ⊢
  by_cases hsome : ∃ b ∈ l, b.isError = true
  · obtain ⟨b, hb, hberr⟩ := hsome
    obtain ⟨hbacts, hbk, hbtid⟩ := hmem b hb
    have hall : ∀ a ∈ l, a.isError = true := by
      intro a ha
      obtain ⟨haacts, hak, hatid⟩ := hmem a ha
      by_contra hn
      exact h a haacts b hbacts (hatid.trans hbtid.symm) (by simpa using hn) hberr (hak.trans hbk.symm)
    rw [List.filter_eq_nil_iff.mpr fun a ha => by simp [hall a ha], List.nil_append,
      List.filter_eq_self.mpr hall]
  · have hall : ∀ a ∈ l, a.isError = false := fun a ha => by
      by_contra hn
      exact hsome ⟨a, ha, by simpa using hn⟩
    rw [List.filter_eq_self.mpr fun a ha => by simp [hall a ha],
      List.filter_eq_nil_iff.mpr fun a ha => by simp [hall a ha], List.append_nil]

lemma queuesOf_spec (outOfOrder : Bool) (tid : Int32) {parts : List (List Action)} {ps : List Parsed}
    (hapart : ∀ part ∈ parts, Apart part)
    (hord : ∀ part ∈ parts, Merge.KeySorted timeOf (part.filter (isBranchOf tid)))
    (h : List.Forall₂ (Collected known) parts ps) :
    (∀ q ∈ queuesOf tid (ps.map (Parsed.sortActions outOfOrder)), Merge.KeySorted timeOf q) ∧
      (queuesOf tid (ps.map (Parsed.sortActions outOfOrder))).flatten.Perm (ofThread tid parts.flatten) ∧
      ∀ k, (queuesOf tid (ps.map (Parsed.sortActions outOfOrder))).flatten.filter (timeOf · = k) =
        (ofThread tid parts.flatten).filter (timeOf · = k) := by
  induction h with
  | nil => exact ⟨fun q hq => absurd hq List.not_mem_nil, .refl _, fun k => rfl⟩
  | @cons part s parts ps hs _ ih =>
    obtain ⟨hq, hperm, hfilter⟩ := ih (fun x hx => hapart x (by simp [hx])) fun x hx => hord x (by simp [hx])
    have hsorted := hord part (by simp)
    have hparsed : (s.sortActions outOfOrder).parsedActions tid = part.filter (isBranchOf tid) := by
      simp only [Parsed.sortActions, hs.parsed]
      split
      · exact hsorted.sort_eq
      · rfl
    have herrors : (s.sortActions outOfOrder).errorActions tid =
        Merge.sort timeOf (part.filter (isErrorOf tid)) := by
      simp only [Parsed.sortActions, hs.errors]
    have hcons : queuesOf tid ((s :: ps).map (Parsed.sortActions outOfOrder)) =
        part.filter (isBranchOf tid) :: Merge.sort timeOf (part.filter (isErrorOf tid)) ::
          queuesOf tid (ps.map (Parsed.sortActions outOfOrder)) := by
      rw [queuesOf, List.map_cons, List.flatMap_cons, hparsed, herrors]
      rfl
    have hthread : ofThread tid (part :: parts).flatten = ofThread tid part ++ ofThread tid parts.flatten := by
      rw [ofThread, List.flatten_cons, List.filter_append]
      rfl
    rw [hcons, hthread]
    refine ⟨fun q hmem => ?_, ?_, fun k => ?_⟩
    · simp only [List.mem_cons] at hmem
      rcases hmem with rfl | rfl | hmem
      · exact hsorted
      · exact Merge.keySorted_sort _
      · exact hq q hmem
    · rw [List.flatten_cons, List.flatten_cons, ← List.append_assoc]
      exact (((List.Perm.refl _).append (Merge.sort_perm _)).trans (parts_perm tid part)).append hperm
    · rw [List.flatten_cons, List.flatten_cons, List.filter_append, List.filter_append, Merge.filter_sort,
        hfilter, ← List.append_assoc, ← List.filter_append, (hapart part (by simp)).filter_parts,
        List.filter_append]

lemma extractActions_eq (outOfOrder : Bool) (tid : Int32) {parts : List (List Action)} {ps : List Parsed}
    (hapart : ∀ part ∈ parts, Apart part)
    (hord : ∀ part ∈ parts, Merge.KeySorted timeOf (part.filter (isBranchOf tid)))
    (hlen : parts.flatten.length < 2 ^ 32) (h : List.Forall₂ (Collected known) parts ps) :
    extractActions (ps.map (Parsed.sortActions outOfOrder)) tid = ordered parts.flatten tid := by
  obtain ⟨hsorted, hperm, hfilter⟩ := queuesOf_spec outOfOrder tid hapart hord h
  rw [extractActions, ordered]
  generalize queuesOf tid (ps.map (Parsed.sortActions outOfOrder)) = queues at *
  have htotal : (UInt32.ofNat (queues.map List.length).sum).toNat = queues.flatten.length := by
    rw [← List.length_flatten]
    apply UInt32.toNat_ofNat_of_lt'
    calc queues.flatten.length = (ofThread tid parts.flatten).length := hperm.length_eq
      _ ≤ parts.flatten.length := List.length_filter_le _ _
      _ < 2 ^ 32 := hlen
  simp only [htotal, Merge.merge_eq_sort _ queues hsorted, (Merge.sort_perm _).length_eq]
  by_cases hall : ∀ a ∈ ofThread tid parts.flatten, timeOf a < uint64Max.toNat
  · have hself : queues.flatten.filter (timeOf · < uint64Max.toNat) = queues.flatten :=
      List.filter_eq_self.mpr fun a ha => by simpa using hall a (hperm.mem_iff.mp ha)
    rw [if_pos (by rw [hself]), if_pos hall, hself, Merge.sort_eq_of_filter_eq hfilter]
  · rw [if_neg, if_neg hall]
    intro hlength
    apply hall
    intro a ha
    have hself := List.filter_sublist.eq_of_length hlength
    simpa using List.filter_eq_self.mp hself a (hperm.mem_iff.mpr ha)

end Extraction

section Files

variable {p : Param} {old : ℕ → Action} {lines : List Str} {a b : Action}

lemma mem_readings {line : Str} (hline : line ∈ lines) (h : reading line = .ok (some a)) :
    a ∈ readings lines :=
  List.mem_filterMap.mpr ⟨line, hline, by rw [h]⟩

lemma readOver_keeps (old a : Action) : (readOver old a).isError = a.isError ∧
    (readOver old a).tid = a.tid ∧ (readOver old a).ts = a.ts := by
  unfold readOver
  split
  · rename_i h
    exact ⟨h.symm, rfl, rfl⟩
  · exact ⟨rfl, rfl, rfl⟩

lemma kept_eq_some {x : Str × ℕ} (h : kept p old x = some b) :
    ∃ a, reading x.1 = .ok (some a) ∧ b.isError = a.isError ∧ b.tid = a.tid ∧ b.ts = a.ts := by
  rw [kept] at h
  rcases hr : reading x.1 with f | (- | a)
  · simp [hr] at h
  · simp [hr] at h
  · simp only [hr] at h
    obtain ⟨h₁, h₂, h₃⟩ := initAction_keeps h
    obtain ⟨h₁', h₂', h₃'⟩ := readOver_keeps (cleared (old x.2)) a
    exact ⟨a, rfl, h₁.trans h₁', h₂.trans h₂', h₃.trans h₃'⟩

lemma knownEnds (lines : List Str) : ∀ line ∈ lines, KnownEnds (SymbolIn lines) line := by
  intro line hline a ha herror
  have hmem := mem_readings hline ha
  exact ⟨⟨a, hmem, herror, Or.inl rfl⟩, ⟨a, hmem, herror, Or.inr rfl⟩⟩

lemma IsScript.apart_kept (h : IsScript lines) : Apart (lines.zipIdx.filterMap (kept p old)) := by
  intro a ha b hb htid hae hbe htime
  obtain ⟨x, hx, ha⟩ := List.mem_filterMap.mp ha
  obtain ⟨y, hy, hb⟩ := List.mem_filterMap.mp hb
  obtain ⟨a', hra, ha₁, ha₂, ha₃⟩ := kept_eq_some ha
  obtain ⟨b', hrb, hb₁, hb₂, hb₃⟩ := kept_eq_some hb
  apply h.apart a' (mem_readings (List.fst_mem_of_mem_zipIdx hx) hra) b'
    (mem_readings (List.fst_mem_of_mem_zipIdx hy) hrb) (ha₂.symm.trans (htid.trans hb₂))
    (ha₁.symm.trans hae) (hb₁.symm.trans hbe)
  rw [← ha₃, ← hb₃]
  exact UInt64.toNat_inj.mp htime

lemma kept_sublist (lines : List Str) (n : ℕ) (tid : Int32) :
    ((((lines.zipIdx n).filterMap (kept p old)).filter (isBranchOf tid)).map timeOf).Sublist
      (((readings lines).filter (isBranchOf tid)).map timeOf) := by
  induction lines generalizing n with
  | nil => exact .slnil
  | cons line lines ih =>
    rw [List.zipIdx_cons]
    rcases hr : reading line with f | (- | a)
    · rw [List.filterMap_cons_none (by simp [kept, hr]), readings,
        List.filterMap_cons_none (by simp [hr])]
      exact ih (n + 1)
    · rw [List.filterMap_cons_none (by simp [kept, hr]), readings,
        List.filterMap_cons_none (by simp [hr])]
      exact ih (n + 1)
    · have hcons : readings (line :: lines) = a :: readings lines :=
        List.filterMap_cons_some (by simp only [hr])
      rw [hcons]
      have hskip := (ih (n + 1)).trans
        (((List.sublist_cons_self a (readings lines)).filter (isBranchOf tid)).map timeOf)
      cases hk : kept p old (line, n) with
      | none =>
        rw [List.filterMap_cons_none hk]
        exact hskip
      | some b =>
        rw [List.filterMap_cons_some hk]
        obtain ⟨a', hra, h₁, h₂, h₃⟩ := kept_eq_some hk
        rw [hr] at hra
        cases hra
        have hkind : isBranchOf tid b = isBranchOf tid a := by rw [isBranchOf, isBranchOf, h₁, h₂]
        cases hb : isBranchOf tid a with
        | true =>
          rw [List.filter_cons_of_pos (by rw [hkind, hb]), List.filter_cons_of_pos hb, List.map_cons,
            List.map_cons, timeOf, h₃]
          exact (ih (n + 1)).cons_cons _
        | false =>
          rw [List.filter_cons_of_neg (by simp [hkind, hb])]
          exact hskip

lemma IsScript.ordered_kept (h : IsScript lines) (tid : Int32) : Merge.KeySorted timeOf
    ((lines.zipIdx.filterMap (kept p old)).filter (isBranchOf tid)) := by
  have hread := List.pairwise_map.mpr (h.ordered tid)
  exact List.pairwise_map.mp (hread.sublist (kept_sublist lines 0 tid))

end Files

section Ranges

variable {lines : List Str} {w : UInt64} {n : ℕ}

lemma lineStep_pos : 0 < lineStep n w := Nat.succ_pos _

lemma le_mul_lineStep (hw : 1 ≤ w) (n : ℕ) : n ≤ w.toNat * lineStep n w := by
  have hw' : 1 ≤ w.toNat := by simpa using UInt64.le_iff_toNat_le.mp hw
  exact (Nat.lt_mul_div_succ n hw').le

lemma mul_lineStep_lt (hn : n < 2 ^ 32 - 1) {i : ℕ} (hi : i ≤ w.toNat) : i * lineStep n w < 2 ^ 64 := by
  have hlt := w.toNat_lt
  by_cases hwn : w.toNat ≤ n
  · have hdiv : w.toNat * (n / w.toNat) ≤ n := Nat.mul_div_le n w.toNat
    calc i * lineStep n w ≤ w.toNat * lineStep n w := Nat.mul_le_mul_right _ hi
      _ = w.toNat * (n / w.toNat) + w.toNat := by rw [lineStep, Nat.mul_succ]
      _ < 2 ^ 64 := by omega
  · have hone : lineStep n w = 1 := by rw [lineStep, Nat.div_eq_of_lt (by omega)]
    rw [hone]
    omega

lemma assignParseJobs_split (hn : n < 2 ^ 32 - 1) (hsplit : (100 * w).toNat < n) :
    ∃ jobs, assignParseJobs w (UInt64.ofNat n) = (List.range w.toNat).map jobs ∧
      ∀ i < w.toNat, (jobs i).first.toNat = i * lineStep n w % 2 ^ 32 ∧
        (jobs i).last.toNat = min ((i + 1) * lineStep n w) n := by
  have htotal : (UInt64.ofNat n).toNat = n := UInt64.toNat_ofNat_of_lt' (show n < 2 ^ 64 by omega)
  have hstep : (UInt64.ofNat n / w + 1).toNat = lineStep n w := by
    have hdiv : n / w.toNat ≤ n := Nat.div_le_self _ _
    rw [UInt64.toNat_add, UInt64.toNat_div, htotal, UInt64.toNat_one, lineStep, Nat.mod_eq_of_lt (by omega)]
  refine ⟨_, by rw [assignParseJobs, if_pos (UInt64.lt_iff_toNat_lt.mpr (by rwa [htotal]))], ?_⟩
  intro i hi
  have hlt := w.toNat_lt
  have hi' : (UInt64.ofNat i).toNat = i := UInt64.toNat_ofNat_of_lt' (show i < 2 ^ 64 by omega)
  have hnext : (UInt64.ofNat i + 1).toNat = i + 1 := by
    rw [UInt64.toNat_add, hi', UInt64.toNat_one, Nat.mod_eq_of_lt (by omega)]
  have hlast : ((UInt64.ofNat i + 1) * (UInt64.ofNat n / w + 1)).toNat = (i + 1) * lineStep n w := by
    rw [UInt64.toNat_mul, hnext, hstep, Nat.mod_eq_of_lt (mul_lineStep_lt hn hi)]
  constructor
  · rw [UInt64.toNat_toUInt32, UInt64.toNat_mul, hi', hstep,
      Nat.mod_eq_of_lt (mul_lineStep_lt hn hi.le)]
  · rw [UInt64.toNat_toUInt32]
    have hmin : (min ((UInt64.ofNat i + 1) * (UInt64.ofNat n / w + 1)) (UInt64.ofNat n)).toNat =
        min ((i + 1) * lineStep n w) n := by
      change (if _ ≤ _ then _ else _ : UInt64).toNat = _
      split
      · rename_i h
        rw [UInt64.le_iff_toNat_le, hlast, htotal] at h
        rw [hlast, Nat.min_eq_left h]
      · rename_i h
        rw [UInt64.le_iff_toNat_le, hlast, htotal] at h
        rw [htotal, Nat.min_eq_right (by omega)]
    rw [hmin]
    apply Nat.mod_eq_of_lt
    omega

lemma single_job (hn : n < 2 ^ 32 - 1) (hsplit : ¬ (100 * w).toNat < n) :
    assignParseJobs w (UInt64.ofNat n) = [⟨0, 0xFFFFFFFF⟩] := by
  have htotal : (UInt64.ofNat n).toNat = n := UInt64.toNat_ofNat_of_lt' (show n < 2 ^ 64 by omega)
  rw [assignParseJobs, if_neg]
  exact fun h => hsplit (by rwa [gt_iff_lt, UInt64.lt_iff_toNat_lt, htotal] at h)

lemma zipIdx_sorted (lines : List Str) : Merge.KeySorted Prod.snd lines.zipIdx := by
  have h : (lines.zipIdx.map Prod.snd).Pairwise (· < ·) := by
    rw [List.zipIdx_map_snd]
    exact List.pairwise_lt_range'
  exact (List.pairwise_map.mp h).imp fun hab => hab.le

lemma zipIdx_lt {x : Str × ℕ} (h : x ∈ lines.zipIdx) : x.2 < lines.length := by
  simpa using List.snd_lt_of_mem_zipIdx h

lemma flatMap_ranges (l : List (Str × ℕ)) (hl : Merge.KeySorted Prod.snd l) (step count : ℕ) :
    ((List.range count).flatMap fun i => l.filter fun x => i * step ≤ x.2 ∧ x.2 < (i + 1) * step) =
      l.filter (·.2 < count * step) := by
  induction count with
  | zero =>
    rw [Nat.zero_mul]
    exact (List.filter_eq_nil_iff.mpr fun x _ => by simp).symm
  | succ count ih =>
    rw [List.range_succ, List.flatMap_append, ih, List.flatMap_singleton]
    exact hl.filter_split (Nat.mul_le_mul_right _ (Nat.le_succ count))

lemma flatMap_slice (hw : 1 ≤ w) (hlen : lines.length < 2 ^ 32 - 1) (hfit : StartsFit lines.length w) :
    (assignParseJobs w (UInt64.ofNat lines.length)).flatMap (slice lines) = lines.zipIdx := by
  by_cases hsplit : (100 * w).toNat < lines.length
  · obtain ⟨jobs, hjobs, hrange⟩ := assignParseJobs_split hlen hsplit
    have hslice : ∀ i ∈ List.range w.toNat, slice lines (jobs i) = lines.zipIdx.filter fun x =>
        i * lineStep lines.length w ≤ x.2 ∧ x.2 < (i + 1) * lineStep lines.length w := by
      intro i hi
      rw [List.mem_range] at hi
      obtain ⟨hfirst, hlast⟩ := hrange i hi
      apply List.filter_congr
      intro x hx
      have hlt := zipIdx_lt hx
      rw [ParseJob.parses, hfirst, hlast, Nat.mod_eq_of_lt (hfit hsplit i hi), ← Bool.decide_and]
      apply decide_eq_decide.mpr
      omega
    rw [hjobs, List.flatMap_map, List.flatMap_congr hslice, flatMap_ranges _ (zipIdx_sorted lines),
      List.filter_eq_self]
    intro x hx
    have hle := le_mul_lineStep hw lines.length
    have hlt := zipIdx_lt hx
    simp only [decide_eq_true_eq]
    omega
  · rw [single_job hlen hsplit, List.flatMap_singleton, slice, List.filter_eq_self]
    intro x hx
    have hlt := zipIdx_lt hx
    have hmax : (0xFFFFFFFF : UInt32).toNat = 2 ^ 32 - 1 := rfl
    simp only [ParseJob.parses, hmax, Bool.and_eq_true, decide_eq_true_eq]
    exact ⟨Nat.zero_le _, by omega⟩

lemma ParseJob.parses_iff (job : ParseJob) (m : ℕ) :
    job.parses m = true ↔ job.first.toNat ≤ m ∧ m < job.last.toNat := by
  rw [ParseJob.parses, Bool.and_eq_true, decide_eq_true_eq, decide_eq_true_eq]

lemma split_parses_iff {jobs : ℕ → ParseJob} {total i m : ℕ}
    (hjobs : assignParseJobs w (UInt64.ofNat total) = (List.range w.toNat).map jobs) :
    (∃ job : ParseJob, (assignParseJobs w (UInt64.ofNat total))[i]? = some job ∧ job.parses m = true) ↔
      i < w.toNat ∧ (jobs i).parses m = true := by
  rw [hjobs]
  constructor
  · rintro ⟨job, hget, hp⟩
    rw [List.getElem?_map, Option.map_eq_some_iff] at hget
    obtain ⟨j, hj, rfl⟩ := hget
    obtain ⟨hi, rfl⟩ := List.getElem?_eq_some_iff.mp hj
    rw [List.getElem_range] at hp
    exact ⟨by simpa using hi, hp⟩
  · rintro ⟨hi, hp⟩
    exact ⟨jobs i, by simp [hi], hp⟩

lemma parsedOnce (hw : 1 ≤ w) (hlen : lines.length < 2 ^ 32 - 1) (hfit : StartsFit lines.length w) :
    ParsedOnce lines w := by
  intro m hm
  by_cases hsplit : (100 * w).toNat < lines.length
  · obtain ⟨jobs, hjobs, hrange⟩ := assignParseJobs_split hlen hsplit
    have hparses : ∀ i < w.toNat, ((jobs i).parses m = true ↔ m / lineStep lines.length w = i) := by
      intro i hi
      obtain ⟨hfirst, hlast⟩ := hrange i hi
      rw [ParseJob.parses_iff, hfirst, hlast, Nat.mod_eq_of_lt (hfit hsplit i hi),
        Nat.div_eq_iff lineStep_pos, Nat.succ_mul]
      have hpos : 0 < lineStep lines.length w := lineStep_pos
      omega
    have hdiv : m / lineStep lines.length w < w.toNat := by
      apply Nat.div_lt_of_lt_mul
      rw [Nat.mul_comm]
      exact hm.trans_le (le_mul_lineStep hw _)
    refine ⟨m / lineStep lines.length w, (split_parses_iff hjobs).mpr ⟨hdiv, (hparses _ hdiv).mpr rfl⟩, ?_⟩
    intro i hi
    obtain ⟨hi, hp⟩ := (split_parses_iff hjobs).mp hi
    exact ((hparses i hi).mp hp).symm
  · simp only [single_job hlen hsplit]
    have hmax : (0xFFFFFFFF : UInt32).toNat = 2 ^ 32 - 1 := rfl
    refine ⟨0, ⟨⟨0, 0xFFFFFFFF⟩, rfl, ?_⟩, ?_⟩
    · rw [ParseJob.parses_iff, hmax]
      exact ⟨Nat.zero_le _, by omega⟩
    · rintro i ⟨job, hget, -⟩
      have hi := (List.getElem?_eq_some_iff.mp hget).1
      simpa using hi

/-- A first line that does not fit makes its job parse the beginning of the file once more. -/
lemma startsFit_of_parsedOnce (hlen : lines.length < 2 ^ 32 - 1) (h : ParsedOnce lines w) :
    StartsFit lines.length w := by
  intro hsplit
  by_contra hall
  obtain ⟨jobs, hjobs, hrange⟩ := assignParseJobs_split hlen hsplit
  have hex : ∃ i, i < w.toNat ∧ 2 ^ 32 ≤ i * lineStep lines.length w := by
    simpa [not_forall, not_lt] using hall
  obtain ⟨hi, hbig⟩ := Nat.find_spec hex
  have hleast : ∀ j < Nat.find hex, j * lineStep lines.length w < 2 ^ 32 := by
    intro j hj
    by_contra hn
    exact Nat.find_min hex hj ⟨hj.trans hi, not_lt.mp hn⟩
  generalize Nat.find hex = i at hi hbig hleast
  have hpos : 0 < i := Nat.pos_of_ne_zero fun h0 => by simp [h0] at hbig
  have hstep : lineStep lines.length w ≤ lines.length := by
    have hhalf : lines.length / w.toNat ≤ lines.length / 2 := Nat.div_le_div_left (by omega) two_pos
    rw [lineStep]
    omega
  have hprev := hleast (i - 1) (Nat.sub_lt hpos one_pos)
  rw [Nat.sub_mul, Nat.one_mul] at hprev
  -- the line that job `i` starts with instead
  have hm : i * lineStep lines.length w - 2 ^ 32 < lineStep lines.length w := by omega
  have hmod : i * lineStep lines.length w % 2 ^ 32 = i * lineStep lines.length w - 2 ^ 32 := by
    rw [Nat.mod_eq_sub_mod hbig, Nat.mod_eq_of_lt (by omega)]
  obtain ⟨j, -, honce⟩ := h _ (hm.trans_le hstep)
  have hzero : 0 = j := by
    apply honce
    apply (split_parses_iff hjobs).mpr
    obtain ⟨hfirst, hlast⟩ := hrange 0 (hpos.trans hi)
    refine ⟨hpos.trans hi, ?_⟩
    rw [ParseJob.parses_iff, hfirst, hlast]
    omega
  have hagain : i = j := by
    apply honce
    apply (split_parses_iff hjobs).mpr
    obtain ⟨hfirst, hlast⟩ := hrange i hi
    refine ⟨hi, ?_⟩
    rw [ParseJob.parses_iff, hfirst, hlast, hmod, Nat.succ_mul]
    omega
  omega

end Ranges

section Counts

variable {p : Param} (outOfOrder : Bool) {old : ℕ → Action} {lines : List Str} {w : UInt64}

lemma threadActions_eq (h : IsScript lines) (hw : 1 ≤ w) (hfit : StartsFit lines.length w)
    (tid : Int32) :
    threadActions p outOfOrder old lines w tid =
      allReadable lines.zipIdx >>= fun _ => ordered (lines.zipIdx.filterMap (kept p old)) tid := by
  obtain ⟨ps, hps, heq⟩ := exec_jobs outOfOrder h.symbols (knownEnds lines) h.ordered_kept
    (assignParseJobs w (UInt64.ofNat lines.length))
  have hslices := flatMap_slice hw h.length hfit
  rw [threadActions, heq, hslices]
  generalize assignParseJobs w (UInt64.ofNat lines.length) = jobs at hps hslices
  have hparts := List.forall₂_map_left_iff.mpr hps
  have hflat : (jobs.map fun job => (slice lines job).filterMap (kept p old)).flatten =
      lines.zipIdx.filterMap (kept p old) := by
    rw [← hslices, List.filterMap_flatMap, List.flatMap]
  have hsub : ∀ part ∈ jobs.map fun job => (slice lines job).filterMap (kept p old),
      part.Sublist (lines.zipIdx.filterMap (kept p old)) := by
    intro part hpart
    obtain ⟨job, -, rfl⟩ := List.mem_map.mp hpart
    exact List.filter_sublist.filterMap _
  have hlen : (lines.zipIdx.filterMap (kept p old)).length < 2 ^ 32 := by
    have hle := List.length_filterMap_le (kept p old) lines.zipIdx
    rw [List.length_zipIdx] at hle
    exact (hle.trans_lt h.length).trans (by omega)
  cases allReadable lines.zipIdx with
  | error e => rfl
  | ok u =>
    have hextract := extractActions_eq outOfOrder tid
      (fun part hpart a ha b hb => h.apart_kept a ((hsub part hpart).subset ha) b
        ((hsub part hpart).subset hb))
      (fun part hpart => (h.ordered_kept tid).sublist ((hsub part hpart).filter _))
      (by rwa [hflat]) hparts
    rw [hflat] at hextract
    exact hextract

lemma settled_keeps (a : Action) : (settled a).tid = a.tid ∧ timeOf (settled a) = timeOf a := by
  unfold settled
  split
  · exact ⟨(readOver_keeps default a).2.1, congrArg UInt64.toNat (readOver_keeps default a).2.2⟩
  · exact ⟨rfl, rfl⟩

lemma kept_settled (old old' : ℕ → Action) (x : Str × ℕ) :
    (kept p old x).map settled = (kept p old' x).map settled := by
  rw [kept, kept]
  rcases reading x.1 with f | (- | a)
  · rfl
  · rfl
  · cases ha : a.isError with
    | false =>
      change (initAction p _).map _ = (initAction p _).map _
      rw [initAction_readOver _ ha, initAction_readOver _ ha]
    | true =>
      simp only [initAction, readOver, ha, if_true]
      split <;> rfl

lemma ordered_settled (acts : List Action) (tid : Int32) :
    (ordered acts tid).map (List.map settled) = ordered (acts.map settled) tid := by
  have hthread : ofThread tid (acts.map settled) = (ofThread tid acts).map settled := by
    rw [ofThread, List.filter_map]
    congr 2
    funext a
    rw [Function.comp_apply, (settled_keeps a).1]
  have hsort : (Merge.sort timeOf (ofThread tid acts)).map settled =
      Merge.sort timeOf ((ofThread tid acts).map settled) := by
    apply List.map_mergeSort
    intro a _ b _
    rw [(settled_keeps a).2, (settled_keeps b).2]
  rw [ordered, ordered, hthread, ← hsort]
  simp only [List.forall_mem_map, (settled_keeps _).2]
  split <;> rfl

lemma sameActions {w₁ w₂ : UInt64} (h : IsScript lines) (h₁ : 1 ≤ w₁) (h₂ : 1 ≤ w₂)
    (hfit₁ : StartsFit lines.length w₁) (hfit₂ : StartsFit lines.length w₂) :
    SameActions p outOfOrder lines w₁ w₂ := by
  intro old₁ old₂ tid
  rw [threadActions_eq outOfOrder h h₁ hfit₁, threadActions_eq outOfOrder h h₂ hfit₂]
  cases allReadable lines.zipIdx with
  | error e => rfl
  | ok u =>
    change (ordered _ tid).map _ = (ordered _ tid).map _
    rw [ordered_settled, ordered_settled, List.map_filterMap, List.map_filterMap]
    simp only [kept_settled old₁ old₂]

end Counts

theorem worker_count_iff (p : Param) (outOfOrder : Bool) (lines : List Str) (h : IsScript lines)
    (w₁ w₂ : UInt64) (h₁ : 1 ≤ w₁) (h₂ : 1 ≤ w₂) :
    (SameActions p outOfOrder lines w₁ w₂ ∧ ParsedOnce lines w₁ ∧ ParsedOnce lines w₂) ↔
      StartsFit lines.length w₁ ∧ StartsFit lines.length w₂ := by
  constructor
  · rintro ⟨-, honce₁, honce₂⟩
    exact ⟨startsFit_of_parsedOnce h.length honce₁, startsFit_of_parsedOnce h.length honce₂⟩
  · rintro ⟨hfit₁, hfit₂⟩
    exact ⟨sameActions outOfOrder h h₁ h₂ hfit₁ hfit₂, parsedOnce h₁ h.length hfit₁,
      parsedOnce h₂ h.length hfit₂⟩

namespace Sample

def callLine : Str := lit "7 [000] 1.5: call 10 g+0x1 => 20 f+0x0"

def callAction : Action :=
  { (default : Action) with
    ptType := ptActionTypeBranch, tid := 7, ts := 1000000005, type := .call
    fromSym := ⟨lit "g", 16, 1⟩, toSym := ⟨lit "f", 32, 0⟩ }

lemma reading_callLine : reading callLine = .ok (some callAction) := by decide +kernel

lemma readings_calls (n : ℕ) : readings (List.replicate n callLine) = List.replicate n callAction := by
  rw [readings, List.filterMap_replicate_of_some]
  rw [reading_callLine]

lemma isScript_calls {n : ℕ} (hn : n < 2 ^ 32 - 1) : IsScript (List.replicate n callLine) where
  length := by rwa [List.length_replicate]
  ordered tid := by
    rw [readings_calls]
    have hall : Merge.KeySorted timeOf (List.replicate n callAction) :=
      List.pairwise_replicate.mpr (Or.inr le_rfl)
    exact hall.sublist List.filter_sublist
  symbols := by
    rintro x y ⟨a, ha, -, hx⟩ ⟨b, hb, -, hy⟩
    rw [readings_calls] at ha hb
    rw [List.eq_of_mem_replicate ha] at hx
    rw [List.eq_of_mem_replicate hb] at hy
    revert hx hy
    rintro (rfl | rfl) (rfl | rfl) <;> decide
  apart := by
    intro a _ b hb _ _ herror
    rw [readings_calls] at hb
    rw [List.eq_of_mem_replicate hb] at herror
    cases herror

end Sample

/-- With a million workers the first line of the last jobs is no longer a 32-bit number. -/
theorem million_workers_parse_twice :
    IsScript (List.replicate 4294967294 Sample.callLine) ∧
      ¬ ParsedOnce (List.replicate 4294967294 Sample.callLine) 1000000 := by
  have hn : 4294967294 < 2 ^ 32 - 1 := by omega
  generalize hlen : 4294967294 = n at hn
  refine ⟨Sample.isScript_calls hn, fun honce => ?_⟩
  have hfit := startsFit_of_parsedOnce (Sample.isScript_calls hn).length honce
  rw [List.length_replicate, ← hlen] at hfit
  have hlast := hfit (by decide) 999999 (by decide)
  revert hlast
  decide

theorem two_workers_parse_once :
    SameActions (.default (lit "f")) false (List.replicate 201 Sample.callLine) 1 2 ∧
      ParsedOnce (List.replicate 201 Sample.callLine) 1 ∧
      ParsedOnce (List.replicate 201 Sample.callLine) 2 := by
  apply (worker_count_iff _ _ _ (Sample.isScript_calls (by omega)) 1 2 (by decide) (by decide)).mpr
  rw [List.length_replicate]
  exact ⟨fun _ => by decide, fun _ => by decide⟩

end PtPerf.Script
