import PtPerf.Script.ParseJob

/-! `ThreadJob::extract_actions` with its own data: a vector of 32-bit indices, two for each parse
job, and in each round a scan of the actions they stand at. The queues of the merge are what the
indices have not yet passed. -/

namespace PtPerf.Script

open PtPerf.Support PtPerf.Trace

namespace ThreadJob

section Code

variable (jobs : List Parsed) (tid : Int32)

/-- The list that pointer `i` runs through. -/
def listOf (i : ℕ) : List Action :=
  match jobs[i / 2]? with
  | none => []
  | some job => if i % 2 = 1 then job.errorActions tid else job.parsedActions tid

structure Minimum where
  idx : UInt32
  ts : UInt64
  action : Option Action

def Minimum.start : Minimum := ⟨-1, uint64Max, none⟩

/-- The body of the scan at pointer `i`, which holds `idx`. -/
def look (m : Minimum) (idx : UInt32) (i : ℕ) : Minimum :=
  match (listOf jobs tid i)[idx.toNat]? with
  | none => m
  | some action => if action.ts < m.ts then ⟨UInt32.ofNat i, action.ts, some action⟩ else m

def scanFrom : ℕ → List UInt32 → Minimum → Minimum
  | _, [], m => m
  | i, idx :: pointers, m => scanFrom (i + 1) pointers (look jobs tid m idx i)

/-- The rounds of the `while` loop; without a result when it has not ended after `n` rounds. -/
def rounds : ℕ → List UInt32 → List Action → Option (List Action)
  | 0, _, _ => none
  | n + 1, pointers, actions =>
    let m := scanFrom jobs tid 0 pointers .start
    match m.action with
    | none => some actions
    | some action => rounds n (pointers.modify m.idx.toNat (· + 1)) (actions ++ [action])

def totalActions : UInt32 :=
  jobs.foldl (fun total job => total + UInt32.ofNat (job.parsedActions tid).length +
    UInt32.ofNat (job.errorActions tid).length) 0

def pointerNum : UInt32 :=
  let parseJobNum := UInt32.ofNat jobs.length
  parseJobNum * 2

def extractActions (fuel : ℕ) : Option (Except JobFault (List Action)) :=
  (rounds jobs tid fuel (List.replicate (pointerNum jobs).toNat 0) []).map fun actions =>
    if actions.length = (totalActions jobs tid).toNat then .ok actions else .error .totalActions

end Code

/-- Where an action stands: the job, whether among its errors, and the index there. -/
structure Place where
  job : ℕ
  error : Bool
  idx : ℕ
  deriving DecidableEq, Repr

def placed (job : ℕ) (error : Bool) (actions : List Action) : List (Place × Action) :=
  actions.zipIdx.map fun x => (⟨job, error, x.2⟩, x.1)

/-- The lists of a thread, each action with its place. -/
def sources (jobs : List Parsed) (tid : Int32) : List (List (Place × Action)) :=
  jobs.zipIdx.flatMap fun x =>
    [placed x.2 false (x.1.parsedActions tid), placed x.2 true (x.1.errorActions tid)]

/-- By job, and in a job the parsed actions before the errors. -/
def Place.le (x y : Place) : Prop := x.job < y.job ∨ x.job = y.job ∧ x.error ≤ y.error

structure IsMerge (jobs : List Parsed) (tid : Int32) (taken : List (Place × Action)) : Prop where
  sorted : Merge.KeySorted (fun x => timeOf x.2) taken
  perm : taken.Perm (sources jobs tid).flatten
  inOrder : ∀ q ∈ sources jobs tid, q.Sublist taken
  ties : taken.Pairwise fun x y => x.2.ts = y.2.ts → x.1.le y.1

section Rounds

variable {jobs : List Parsed} {tid : Int32}

/-- What the pointers, numbered from `i`, have not yet passed. -/
def queuesLeft (jobs : List Parsed) (tid : Int32) (i : ℕ) (pointers : List UInt32) :
    List (List Action) :=
  (pointers.zipIdx i).map fun x => (listOf jobs tid x.2).drop x.1.toNat

lemma scanFrom_eq (i : ℕ) (pointers : List UInt32) (m : Minimum) (h : i + pointers.length ≤ 2 ^ 32) :
    (scanFrom jobs tid i pointers m).action.map
        (fun a => ((scanFrom jobs tid i pointers m).idx.toNat, a)) =
      Merge.scan timeOf (queuesLeft jobs tid i pointers) i m.ts.toNat
        (m.action.map fun a => (m.idx.toNat, a)) := by
  induction pointers generalizing i m with
  | nil => rfl
  | cons idx pointers ih =>
    rw [List.length_cons] at h
    have hi : (UInt32.ofNat i).toNat = i := UInt32.toNat_ofNat_of_lt' (by simp [UInt32.size]; omega)
    rw [scanFrom, ih (i + 1) _ (by omega), queuesLeft, queuesLeft, List.zipIdx_cons, List.map_cons, look]
    cases hq : (listOf jobs tid i)[idx.toNat]? with
    | none =>
      rw [List.drop_eq_nil_of_le (List.getElem?_eq_none_iff.mp hq)]
      rfl
    | some a =>
      obtain ⟨hlt, rfl⟩ := List.getElem?_eq_some_iff.mp hq
      rw [List.drop_eq_getElem_cons hlt, Merge.scan]
      have hts : (listOf jobs tid i)[idx.toNat].ts < m.ts ↔
          timeOf (listOf jobs tid i)[idx.toNat] < m.ts.toNat := UInt64.lt_iff_toNat_lt
      dsimp only
      split <;> rename_i hlt'
      · rw [if_pos (hts.mp hlt')]
        simp only [Option.map_some, hi]
        rfl
      · rw [if_neg fun h => hlt' (hts.mpr h)]

lemma queuesLeft_getElem? (pointers : List UInt32) (i : ℕ) : (queuesLeft jobs tid 0 pointers)[i]? =
    pointers[i]?.map fun idx => (listOf jobs tid i).drop idx.toNat := by
  rw [queuesLeft, List.getElem?_map, List.getElem?_zipIdx, Option.map_map, Nat.zero_add]
  rfl

lemma queuesLeft_modify {pointers : List UInt32} {i : ℕ} {a : Action} {tail : List Action}
    (hlen : (listOf jobs tid i).length < 2 ^ 32)
    (h : (queuesLeft jobs tid 0 pointers)[i]? = some (a :: tail)) :
    queuesLeft jobs tid 0 (pointers.modify i (· + 1)) =
      (queuesLeft jobs tid 0 pointers).modify i List.tail := by
  apply List.ext_getElem?
  intro j
  rw [queuesLeft_getElem?, List.getElem?_modify, List.getElem?_modify, queuesLeft_getElem?]
  by_cases hij : i = j
  · subst hij
    rw [queuesLeft_getElem?] at h
    obtain ⟨idx, hidx, hdrop⟩ := Option.map_eq_some_iff.mp h
    have hlt : idx.toNat < (listOf jobs tid i).length := by
      have := congrArg List.length hdrop
      rw [List.length_drop, List.length_cons] at this
      omega
    have hsucc : (idx + 1).toNat = idx.toNat + 1 := by
      rw [UInt32.toNat_add, UInt32.toNat_one]
      exact Nat.mod_eq_of_lt (by omega)
    simp [hidx, hsucc, List.tail_drop]
  · cases pointers[j]? <;> simp [hij]

/-- The loop is the merge of what the pointers have not passed. -/
lemma rounds_eq (n k : ℕ) (pointers : List UInt32) (actions : List Action)
    (hlen : ∀ i, (listOf jobs tid i).length < 2 ^ 32) (hnum : pointers.length ≤ 2 ^ 32)
    (hk : (queuesLeft jobs tid 0 pointers).flatten.length ≤ k) :
    rounds jobs tid n pointers actions =
      let merged := Merge.merge timeOf uint64Max.toNat k (queuesLeft jobs tid 0 pointers)
      if merged.length < n then some (actions ++ merged) else none := by
  induction n generalizing k pointers actions with
  | zero => simp [rounds]
  | succ n ih =>
    have hscan : _ = Merge.scan timeOf (queuesLeft jobs tid 0 pointers) 0 uint64Max.toNat none :=
      scanFrom_eq 0 pointers .start (by omega)
    rcases @Merge.scan_cases _ _ _ timeOf (queuesLeft jobs tid 0 pointers) 0 uint64Max.toNat none with
      ⟨hs, -⟩ | ⟨pre, a, tail, post, hsplit, hs, -, -, -⟩
    · rw [hs] at hscan
      have hmerge : Merge.merge timeOf uint64Max.toNat k (queuesLeft jobs tid 0 pointers) = [] := by
        cases k with
        | zero => rfl
        | succ k => rw [Merge.merge, hs]
      rw [rounds, Option.map_eq_none_iff.mp hscan, hmerge]
      simp
    · rw [hs] at hscan
      obtain ⟨a', ha', hpair⟩ := Option.map_eq_some_iff.mp hscan
      rw [Prod.mk.injEq, Nat.zero_add] at hpair
      obtain ⟨hidx, rfl⟩ := hpair
      have hget : (queuesLeft jobs tid 0 pointers)[pre.length]? = some (a' :: tail) := by
        rw [hsplit, List.getElem?_append_right le_rfl, Nat.sub_self]
        rfl
      have hmodify := queuesLeft_modify (hlen pre.length) hget
      have hleft := Merge.modify_length_append pre post (a' :: tail)
      rw [← hsplit, ← hmodify, List.tail_cons] at hleft
      have hcount := congrArg (fun l => l.flatten.length) hsplit
      simp only [List.flatten_append, List.flatten_cons, List.length_append, List.length_cons] at hcount
      obtain ⟨k, rfl⟩ : ∃ k', k = k' + 1 := ⟨k - 1, by omega⟩
      have hrest := ih k (pointers.modify pre.length (· + 1)) (actions ++ [a'])
        (by rw [List.length_modify]; exact hnum) (by
          rw [hleft]
          simp only [List.flatten_append, List.flatten_cons, List.length_append]
          omega)
      rw [rounds, ha', hidx]
      dsimp only
      rw [hrest, Merge.merge, hs, Nat.zero_add, hmodify]
      dsimp only
      simp only [List.length_cons, Nat.add_lt_add_iff_right, List.append_assoc, List.singleton_append]

end Rounds

section Extraction

variable {jobs : List Parsed} {tid : Int32}

lemma pointerNum_toNat (jobs : List Parsed) :
    (pointerNum jobs).toNat = 2 * (jobs.length % 2 ^ 31) := by
  rw [pointerNum, UInt32.toNat_mul, UInt32.toNat_ofNat']
  change jobs.length % 2 ^ 32 * 2 % 2 ^ 32 = _
  omega

lemma totalActions_eq (jobs : List Parsed) (tid : Int32) (total : UInt32) :
    jobs.foldl (fun total job => total + UInt32.ofNat (job.parsedActions tid).length +
        UInt32.ofNat (job.errorActions tid).length) total =
      total + UInt32.ofNat (queuesOf tid jobs).flatten.length := by
  induction jobs generalizing total with
  | nil => simp [queuesOf]
  | cons job jobs ih =>
    rw [List.foldl_cons, ih]
    simp only [queuesOf, List.flatMap_cons, List.flatten_append, List.flatten_cons, List.flatten_nil,
      List.append_nil, List.length_append, UInt32.ofNat_add]
    ac_rfl

lemma listOf_two_mul {job : Parsed} {k : ℕ} (h : jobs[k]? = some job) :
    [listOf jobs tid (2 * k), listOf jobs tid (2 * k + 1)] =
      [job.parsedActions tid, job.errorActions tid] := by
  have heven : 2 * k / 2 = k := by omega
  have hodd : (2 * k + 1) / 2 = k := by omega
  simp [listOf, heven, hodd, h, Nat.add_mod]

lemma map_listOf (k : ℕ) (hk : k ≤ jobs.length) :
    (List.range (2 * k)).map (listOf jobs tid) = queuesOf tid (jobs.take k) := by
  induction k with
  | zero => rfl
  | succ k ih =>
    have hget := List.getElem?_eq_getElem (l := jobs) (i := k) (by omega)
    rw [Nat.mul_succ, List.range_succ, List.range_succ, List.append_assoc, List.map_append,
      ih (by omega), List.take_add_one, hget]
    simp only [queuesOf, List.flatMap_append, Option.toList_some, List.flatMap_singleton]
    exact congrArg _ (listOf_two_mul hget)

lemma queuesLeft_replicate (n : ℕ) :
    queuesLeft jobs tid 0 (List.replicate n 0) = (List.range n).map (listOf jobs tid) := by
  apply List.ext_getElem?
  intro i
  rw [queuesLeft_getElem?, List.getElem?_replicate, List.getElem?_map]
  by_cases hi : i < n
  · simp [hi]
  · simp [hi]

lemma listOf_length_le (i : ℕ) : (listOf jobs tid i).length ≤ (queuesOf tid jobs).flatten.length := by
  cases hj : jobs[i / 2]? with
  | none => simp [listOf, hj]
  | some job =>
    apply List.Sublist.length_le
    apply List.sublist_flatten_of_mem
    rw [queuesOf, List.mem_flatMap]
    refine ⟨job, List.mem_of_getElem? hj, ?_⟩
    simp only [listOf, hj]
    split <;> simp

def covered (jobs : List Parsed) : List Parsed := jobs.take (jobs.length % 2 ^ 31)

lemma flatten_covered (jobs : List Parsed) (tid : Int32) : (queuesOf tid jobs).flatten =
    (queuesOf tid (covered jobs)).flatten ++ (queuesOf tid (jobs.drop (jobs.length % 2 ^ 31))).flatten := by
  rw [← List.flatten_append, queuesOf, queuesOf, queuesOf, ← List.flatMap_append, covered,
    List.take_append_drop]

def mergedActions (jobs : List Parsed) (tid : Int32) : List Action :=
  Merge.merge timeOf uint64Max.toNat (queuesOf tid (covered jobs)).flatten.length
    (queuesOf tid (covered jobs))

/-- The loop ends, with the merge of the lists of the jobs that have a pointer. -/
lemma extractActions_eq (htotal : (queuesOf tid jobs).flatten.length < 2 ^ 32) (fuel : ℕ) :
    extractActions jobs tid fuel =
      if (mergedActions jobs tid).length < fuel then
        some (if (mergedActions jobs tid).length = (queuesOf tid jobs).flatten.length then
          .ok (mergedActions jobs tid) else .error .totalActions)
      else none := by
  have hsum : (totalActions jobs tid).toNat = (queuesOf tid jobs).flatten.length := by
    rw [totalActions, totalActions_eq, UInt32.zero_add]
    exact UInt32.toNat_ofNat_of_lt' htotal
  have hmod : jobs.length % 2 ^ 31 < 2 ^ 31 := Nat.mod_lt _ (by omega)
  have hqueues : queuesLeft jobs tid 0 (List.replicate (pointerNum jobs).toNat 0) =
      queuesOf tid (covered jobs) := by
    rw [queuesLeft_replicate, pointerNum_toNat, map_listOf _ (Nat.mod_le _ _), covered]
  rw [extractActions, rounds_eq fuel (queuesOf tid (covered jobs)).flatten.length _ []
    (fun i => (listOf_length_le i).trans_lt htotal)
    (by rw [List.length_replicate, pointerNum_toNat]; omega) (by rw [hqueues]), hqueues, hsum]
  change Option.map _ (if (mergedActions jobs tid).length < fuel then _ else none) = _
  split
  · rw [Option.map_some, List.nil_append]
    rfl
  · rfl

end Extraction

section Places

variable {jobs : List Parsed} {tid : Int32}

lemma map_placed (job : ℕ) (error : Bool) (actions : List Action) :
    (placed job error actions).map Prod.snd = actions := by
  rw [placed, List.map_map]
  exact List.zipIdx_map_fst 0 actions

lemma map_sources (jobs : List Parsed) (tid : Int32) :
    (sources jobs tid).map (List.map Prod.snd) = queuesOf tid jobs := by
  rw [sources, List.map_flatMap]
  simp only [List.map_cons, map_placed, List.map_nil]
  rw [queuesOf]
  conv_rhs => rw [← List.zipIdx_map_fst 0 jobs]
  rw [List.flatMap_map]

lemma mem_placed {job : ℕ} {error : Bool} {actions : List Action} {x : Place × Action}
    (h : x ∈ placed job error actions) : x.1.job = job ∧ x.1.error = error := by
  obtain ⟨y, -, rfl⟩ := List.mem_map.mp h
  exact ⟨rfl, rfl⟩

lemma placed_le (job : ℕ) (error : Bool) (actions : List Action) :
    (placed job error actions).Pairwise fun x y => x.1.le y.1 := by
  apply List.Pairwise.imp_of_mem (R := fun _ _ => True)
  · intro x y hx hy _
    obtain ⟨hxj, hxe⟩ := mem_placed hx
    obtain ⟨hyj, hye⟩ := mem_placed hy
    exact Or.inr ⟨hxj.trans hyj.symm, (hxe.trans hye.symm).le⟩
  · exact List.pairwise_of_forall fun _ _ => trivial

lemma sources_le (jobs : List Parsed) (tid : Int32) :
    (sources jobs tid).flatten.Pairwise fun x y => x.1.le y.1 := by
  have hidx : jobs.zipIdx.Pairwise fun x y => x.2 < y.2 := by
    rw [← List.pairwise_map (f := Prod.snd) (R := (· < ·)), List.zipIdx_map_snd]
    exact List.pairwise_lt_range'
  rw [List.pairwise_flatten]
  constructor
  · intro q hq
    obtain ⟨x, -, hq⟩ := List.mem_flatMap.mp hq
    rcases List.mem_pair.mp hq with rfl | rfl
    · exact placed_le _ _ _
    · exact placed_le _ _ _
  · rw [sources, List.pairwise_flatMap]
    constructor
    · intro x _
      refine List.pairwise_pair.mpr fun y hy z hz => ?_
      obtain ⟨hyj, hye⟩ := mem_placed hy
      obtain ⟨hzj, hze⟩ := mem_placed hz
      exact Or.inr ⟨hyj.trans hzj.symm, by rw [hye, hze]; decide⟩
    · apply hidx.imp
      intro x y hxy q hq r hr z hz w hw
      left
      have hzj : z.1.job = x.2 := by
        rcases List.mem_pair.mp hq with rfl | rfl
        · exact (mem_placed hz).1
        · exact (mem_placed hz).1
      have hwj : w.1.job = y.2 := by
        rcases List.mem_pair.mp hr with rfl | rfl
        · exact (mem_placed hw).1
        · exact (mem_placed hw).1
      rwa [hzj, hwj]

lemma sources_sorted (hsorted : ∀ q ∈ queuesOf tid jobs, Merge.KeySorted timeOf q) :
    ∀ q ∈ sources jobs tid, Merge.KeySorted (fun x => timeOf x.2) q := by
  intro q hq
  have h := hsorted (q.map Prod.snd) (map_sources jobs tid ▸ List.mem_map_of_mem hq)
  rwa [Merge.KeySorted, List.pairwise_map] at h

def sortedSources (jobs : List Parsed) (tid : Int32) : List (Place × Action) :=
  Merge.sort (fun x => timeOf x.2) (sources jobs tid).flatten

lemma isMerge_sortedSources (hsorted : ∀ q ∈ queuesOf tid jobs, Merge.KeySorted timeOf q) :
    IsMerge jobs tid (sortedSources jobs tid) where
  sorted := Merge.keySorted_sort _
  perm := Merge.sort_perm _
  inOrder q hq := (sources_sorted hsorted q hq).sublist_sort (List.sublist_flatten_of_mem hq)
  ties := by
    apply (@Merge.pairwise_sort _ _ _ (fun x : Place × Action => timeOf x.2) _ _ (sources_le jobs tid)).imp
    intro x y h hts
    exact h (congrArg UInt64.toNat hts)

lemma map_sortedSources (hsorted : ∀ q ∈ queuesOf tid jobs, Merge.KeySorted timeOf q)
    (hts : ∀ a ∈ (queuesOf tid jobs).flatten, a.ts < uint64Max) :
    (sortedSources jobs tid).map Prod.snd =
      Merge.merge timeOf uint64Max.toNat (queuesOf tid jobs).flatten.length (queuesOf tid jobs) := by
  have hflat : (sources jobs tid).flatten.map Prod.snd = (queuesOf tid jobs).flatten := by
    rw [← map_sources, List.map_flatten]
  have hbelow : (sources jobs tid).flatten.filter (fun x => timeOf x.2 < uint64Max.toNat) =
      (sources jobs tid).flatten := by
    apply List.filter_eq_self.mpr
    intro x hx
    have hx' := hts x.2 (hflat ▸ List.mem_map_of_mem hx)
    exact decide_eq_true (UInt64.lt_iff_toNat_lt.mp hx')
  have hmerge := @Merge.merge_eq_sort _ _ _ (fun x : Place × Action => timeOf x.2) uint64Max.toNat
    (sources jobs tid) (sources_sorted hsorted)
  rw [hbelow] at hmerge
  rw [sortedSources, ← hmerge, ← hflat, List.length_map, ← map_sources]
  exact (@Merge.merge_map _ _ _ timeOf _ Prod.snd uint64Max.toNat _ (sources jobs tid)).symm

end Places

section Coverage

variable {jobs : List Parsed} {tid : Int32}

lemma flatten_queuesOf_eq_nil :
    (queuesOf tid jobs).flatten = [] ↔
      ∀ job ∈ jobs, job.parsedActions tid = [] ∧ job.errorActions tid = [] := by
  rw [queuesOf, List.flatten_eq_nil_iff]
  constructor
  · intro h job hjob
    exact ⟨h _ (List.mem_flatMap.mpr ⟨job, hjob, by simp⟩), h _ (List.mem_flatMap.mpr ⟨job, hjob, by simp⟩)⟩
  · intro h q hq
    obtain ⟨job, hjob, hq⟩ := List.mem_flatMap.mp hq
    rcases List.mem_pair.mp hq with rfl | rfl
    · exact (h job hjob).1
    · exact (h job hjob).2

lemma mergedActions_eq (hsorted : ∀ q ∈ queuesOf tid jobs, Merge.KeySorted timeOf q)
    (h : (queuesOf tid (jobs.drop (jobs.length % 2 ^ 31))).flatten = []) :
    mergedActions jobs tid =
      Merge.merge timeOf uint64Max.toNat (queuesOf tid jobs).flatten.length (queuesOf tid jobs) := by
  have hflat := flatten_covered jobs tid
  rw [h, List.append_nil] at hflat
  have hsub : ∀ q ∈ queuesOf tid (covered jobs), q ∈ queuesOf tid jobs := by
    intro q hq
    obtain ⟨job, hjob, hq⟩ := List.mem_flatMap.mp hq
    exact List.mem_flatMap.mpr ⟨job, List.mem_of_mem_take hjob, hq⟩
  rw [mergedActions, Merge.merge_eq_sort _ _ fun q hq => hsorted q (hsub q hq), ← hflat,
    Merge.merge_eq_sort _ _ hsorted]

lemma extractActions_eq_queues (hnum : jobs.length < 2 ^ 31)
    (htotal : (queuesOf tid jobs).flatten.length < 2 ^ 32) {fuel : ℕ}
    (hfuel : (queuesOf tid jobs).flatten.length < fuel) :
    extractActions jobs tid fuel = some (Script.extractActions jobs tid) := by
  have hcovered : covered jobs = jobs := by
    rw [covered, Nat.mod_eq_of_lt hnum, List.take_length]
  have hle : (mergedActions jobs tid).length ≤ (queuesOf tid (covered jobs)).flatten.length :=
    Merge.merge_length_le _ _ _
  rw [hcovered] at hle
  rw [extractActions_eq htotal, if_pos (hle.trans_lt hfuel), mergedActions, hcovered,
    Script.extractActions, ← List.length_flatten, UInt32.toNat_ofNat_of_lt' htotal]

end Coverage

/-- The indices are numbered with 32 bits, two for each job, so only the first
`jobs.length % 2 ^ 31` jobs have theirs. -/
theorem extract_actions_merges_iff (jobs : List Parsed) (tid : Int32)
    (hsorted : ∀ q ∈ queuesOf tid jobs, Merge.KeySorted timeOf q)
    (hts : ∀ a ∈ (queuesOf tid jobs).flatten, a.ts < uint64Max)
    (htotal : (queuesOf tid jobs).flatten.length < 2 ^ 32) :
    (∃ fuel taken, extractActions jobs tid fuel = some (.ok (taken.map Prod.snd)) ∧
        IsMerge jobs tid taken) ↔
      ∀ job ∈ jobs.drop (jobs.length % 2 ^ 31),
        job.parsedActions tid = [] ∧ job.errorActions tid = [] := by
  rw [← flatten_queuesOf_eq_nil]
  constructor
  · rintro ⟨fuel, taken, hrun, -⟩
    rw [extractActions_eq htotal] at hrun
    split at hrun
    · split at hrun
      · rename_i hlen
        have hle : (mergedActions jobs tid).length ≤ (queuesOf tid (covered jobs)).flatten.length :=
          Merge.merge_length_le _ _ _
        rw [hlen, flatten_covered, List.length_append] at hle
        exact List.length_eq_zero_iff.mp (by omega)
      · cases hrun
    · cases hrun
  · intro hnone
    have hmerged := (mergedActions_eq hsorted hnone).trans (map_sortedSources hsorted hts).symm
    have hisMerge := isMerge_sortedSources hsorted
    have hlen : (mergedActions jobs tid).length = (queuesOf tid jobs).flatten.length := by
      rw [hmerged, List.length_map, hisMerge.perm.length_eq, ← map_sources, ← List.map_flatten,
        List.length_map]
    refine ⟨(mergedActions jobs tid).length + 1, sortedSources jobs tid, ?_, hisMerge⟩
    rw [extractActions_eq htotal, if_pos (Nat.lt_succ_self _), if_pos hlen, hmerged]

/-- There is a thread behind every parse job, so `2 ^ 31` of them never come together. -/
theorem extract_actions_merges (jobs : List Parsed) (tid : Int32)
    (hjobs : jobs.length < 2 ^ 31)
    (hsorted : ∀ q ∈ queuesOf tid jobs, Merge.KeySorted timeOf q)
    (hts : ∀ a ∈ (queuesOf tid jobs).flatten, a.ts < uint64Max)
    (htotal : (queuesOf tid jobs).flatten.length < 2 ^ 32) :
    ∃ fuel taken, extractActions jobs tid fuel = some (.ok (taken.map Prod.snd)) ∧
      IsMerge jobs tid taken := by
  apply (extract_actions_merges_iff jobs tid hsorted hts htotal).mpr
  intro job hjob
  rw [Nat.mod_eq_of_lt hjobs, List.drop_length] at hjob
  exact absurd hjob List.not_mem_nil

namespace Sample

def busyJob : Parsed where
  symbols := 0
  parsedActions := fun _ => [{ (default : Action) with ts := 5 }, { (default : Action) with ts := 9 }]
  errorActions := fun _ => [{ (default : Action) with ts := 5, isError := true }]

/-- `n` more jobs, which have found nothing. -/
def busyThenIdle (n : ℕ) : List Parsed := busyJob :: List.replicate n .init

lemma flatten_busyThenIdle (n : ℕ) :
    (queuesOf 7 (busyThenIdle n)).flatten = (queuesOf 7 [busyJob]).flatten := by
  have hidle : (queuesOf 7 (List.replicate n Parsed.init)).flatten = [] := by
    rw [flatten_queuesOf_eq_nil]
    intro job hjob
    rw [List.eq_of_mem_replicate hjob]
    exact ⟨rfl, rfl⟩
  have happend : queuesOf 7 (busyThenIdle n) =
      queuesOf 7 [busyJob] ++ queuesOf 7 (List.replicate n .init) := rfl
  rw [happend, List.flatten_append, hidle, List.append_nil]

lemma sorted_busyThenIdle (n : ℕ) :
    ∀ q ∈ queuesOf 7 (busyThenIdle n), Merge.KeySorted timeOf q := by
  intro q hq
  obtain ⟨job, hjob, hq⟩ := List.mem_flatMap.mp hq
  have hjobs : List.Forall (Merge.KeySorted timeOf) [job.parsedActions 7, job.errorActions 7] := by
    rcases List.mem_cons.mp hjob with rfl | hjob
    · decide
    · rw [List.eq_of_mem_replicate hjob]
      decide
  exact List.forall_iff_forall_mem.mp hjobs q hq

end Sample

/-- The second job repeats the timestamps of the first. -/
theorem two_jobs_merge :
    (∀ q ∈ queuesOf 7 [Sample.busyJob, Sample.busyJob], Merge.KeySorted timeOf q) ∧
      (∃ fuel taken, extractActions [Sample.busyJob, Sample.busyJob] 7 fuel =
        some (.ok (taken.map Prod.snd)) ∧ IsMerge [Sample.busyJob, Sample.busyJob] 7 taken) := by
  have hsorted : ∀ q ∈ queuesOf 7 [Sample.busyJob, Sample.busyJob], Merge.KeySorted timeOf q := by
    rw [← List.forall_iff_forall_mem]
    decide
  refine ⟨hsorted, extract_actions_merges _ 7 (by decide) hsorted ?_ (by decide)⟩
  rw [← List.forall_iff_forall_mem]
  decide

/-- With `2 ^ 31` jobs there is no pointer at all. -/
theorem jobs_without_pointers :
    (Sample.busyThenIdle 2147483647).length = 2 ^ 31 ∧
      (∀ q ∈ queuesOf 7 (Sample.busyThenIdle 2147483647), Merge.KeySorted timeOf q) ∧
      (∀ a ∈ (queuesOf 7 (Sample.busyThenIdle 2147483647)).flatten, a.ts < uint64Max) ∧
      (queuesOf 7 (Sample.busyThenIdle 2147483647)).flatten.length = 3 ∧
      ∀ fuel, extractActions (Sample.busyThenIdle 2147483647) 7 (fuel + 1) =
        some (.error .totalActions) := by
  have hlen : (Sample.busyThenIdle 2147483647).length = 2 ^ 31 := by
    rw [Sample.busyThenIdle, List.length_cons, List.length_replicate]
    rfl
  have hflat := Sample.flatten_busyThenIdle 2147483647
  have hsorted := Sample.sorted_busyThenIdle 2147483647
  generalize Sample.busyThenIdle 2147483647 = jobs at hlen hflat hsorted ⊢
  have hthree : (queuesOf 7 jobs).flatten.length = 3 := by
    rw [hflat]
    rfl
  have hmerged : mergedActions jobs 7 = [] := by
    rw [mergedActions, covered, hlen]
    rfl
  refine ⟨hlen, hsorted, ?_, hthree, fun fuel => ?_⟩
  · rw [hflat, ← List.forall_iff_forall_mem]
    decide
  · rw [extractActions_eq (by omega), hmerged, hthree]
    rfl

end ThreadJob

end PtPerf.Script
