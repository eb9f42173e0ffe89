import PtPerf.Analysis.Intervals

/-! The time that trace errors have lost: `gstat.miss`, to which a thread adds the time between two
starts of the target with an error between them, and the span of all timestamps, `gstat.real`. -/

namespace PtPerf.Analysis

open PtPerf.Support PtPerf.Trace PtPerf.Stats

section Gaps

/-- The time between each element and the one before it, where the element is marked. -/
def lost : Option ℕ → List (ℕ × Bool) → ℕ
  | _, [] => 0
  | none, x :: xs => lost (some x.1) xs
  | some t, x :: xs => (if x.2 then x.1 - t else 0) + lost (some x.1) xs

def lastTime (t : ℕ) (xs : List (ℕ × Bool)) : ℕ := (xs.getLast?.map Prod.fst).getD t

/-- Every element at another time than the one before it is marked. -/
def Unbroken : ℕ → List (ℕ × Bool) → Prop
  | _, [] => True
  | t, x :: xs => (x.2 = true ∨ x.1 = t) ∧ Unbroken x.1 xs

lemma lost_some_cons (t : ℕ) (x : ℕ × Bool) (xs : List (ℕ × Bool)) :
    lost (some t) (x :: xs) = (if x.2 then x.1 - t else 0) + lost (some x.1) xs := rfl

lemma lastTime_cons (t : ℕ) (x : ℕ × Bool) (xs : List (ℕ × Bool)) :
    lastTime t (x :: xs) = lastTime x.1 xs := by
  rw [lastTime, lastTime, List.getLast?_cons]
  cases xs.getLast? <;> rfl

lemma lastTime_le {t hi : ℕ} {xs : List (ℕ × Bool)} (ht : t ≤ hi) (h : ∀ x ∈ xs, x.1 ≤ hi) :
    lastTime t xs ≤ hi := by
  rw [lastTime]
  cases hx : xs.getLast? with
  | none => exact ht
  | some x => exact h x (List.mem_of_getLast? hx)

lemma le_lastTime {t : ℕ} {xs : List (ℕ × Bool)} (h : ∀ x ∈ xs, t ≤ x.1) : t ≤ lastTime t xs := by
  rw [lastTime]
  cases hx : xs.getLast? with
  | none => exact le_rfl
  | some x => exact h x (List.mem_of_getLast? hx)

lemma lost_spec {t : ℕ} {xs : List (ℕ × Bool)} (h : ((t, false) :: xs).Pairwise fun x y => x.1 ≤ y.1) :
    lost (some t) xs ≤ lastTime t xs - t ∧
      (lost (some t) xs = lastTime t xs - t ↔ Unbroken t xs) := by
  induction xs generalizing t with
  | nil => simp [lost, lastTime, Unbroken]
  | cons x xs ih =>
    obtain ⟨hall, htail⟩ := List.pairwise_cons.mp h
    have hx : t ≤ x.1 := hall x List.mem_cons_self
    have hfirst := (List.pairwise_cons.mp htail).1
    obtain ⟨hle, heq⟩ := ih (t := x.1) (List.pairwise_cons.mpr ⟨hfirst, (List.pairwise_cons.mp htail).2⟩)
    have hlast : x.1 ≤ lastTime x.1 xs := le_lastTime hfirst
    rw [lastTime_cons, lost, Unbroken, ← heq]
    cases x.2 with
    | true =>
      simp only [if_true, true_or, true_and]
      omega
    | false =>
      simp only [Bool.false_eq_true, if_false, false_or, Nat.zero_add]
      omega

end Gaps

def Effect.missed : Effect → UInt64
  | .addMiss ns => ns
  | _ => 0

/-- What the rounds from `s` on add to `gstat.miss`, up to a fault if there is one. -/
def missFrom (p : Param) : State → List Action → UInt64
  | _, [] => 0
  | s, a :: rest =>
    match step p s a rest with
    | .error _ => 0
    | .ok (s', es) => (es.map Effect.missed).sum + missFrom p s' rest

def threadMiss (p : Param) (actions : List Action) : UInt64 := missFrom p .init actions

/-- The starts of the target: the time, and whether there was a trace error since the last one. -/
def startsFrom (p : Param) : State → Bool → List Action → List (ℕ × Bool)
  | _, _, [] => []
  | s, lostData, a :: rest =>
    match step p s a rest with
    | .error _ => []
    | .ok (s', _) =>
      if starts s a then (a.ts.toNat, lostData) :: startsFrom p s' false rest
      else startsFrom p s' (lostData || a.isError) rest

section Status

def minTimestamp (set : List Action) : UInt64 := (set.head?.map (·.ts)).getD uint64Max

def maxTimestamp (set : List Action) : UInt64 := (set.getLast?.map (·.ts)).getD 0

def updateReal (real : UInt64 × UInt64) (set : List Action) : UInt64 × UInt64 :=
  (if minTimestamp set < real.1 then minTimestamp set else real.1,
    if real.2 < maxTimestamp set then maxTimestamp set else real.2)

def realOf (sets : List (List Action)) : UInt64 × UInt64 := sets.foldl updateReal (uint64Max, 0)

def realSpan (sets : List (List Action)) : ℕ := (realOf sets).2.toNat - (realOf sets).1.toNat

/-- `gstat.miss` after `FuncGlobalStatus::print`. -/
def missTime (p : Param) (threads : List (List Action)) : ℕ :=
  (threads.map (threadMiss p)).sum.toNat / threads.length

/-- The trace time in nanoseconds, before the missing time is taken off. -/
def traceTime (duration : ℚ) (sets : List (List Action)) : ℚ := max duration (realSpan sets)

end Status

/-- The whole span is lost on the thread: the target starts at its first and last moment, and
between any two starts at different times there is a trace error. -/
def AllLost (p : Param) (real : UInt64 × UInt64) (actions : List Action) : Prop :=
  ∃ first later, startsFrom p .init false actions = first :: later ∧ first.1 = real.1.toNat ∧
    lastTime first.1 later = real.2.toNat ∧ Unbroken first.1 later

section Rounds

variable {p : Param} {s s' : State} {a : Action} {es : List Effect}

lemma Block.targetBegin {c : Action} (h : Block s a c s') :
    s'.targetBegin = s.targetBegin ∧ s'.prevTargetError = s.prevTargetError := by
  cases h <;> exact ⟨rfl, rfl⟩

lemma Switch.targetBegin (h : Switch p s a s' es) :
    s'.targetBegin = s.targetBegin ∧ s'.prevTargetError = s.prevTargetError := by
  cases h with
  | blockCall _ _ _ hb => exact hb.targetBegin
  | _ => exact ⟨rfl, rfl⟩

lemma Switch.missed (h : Switch p s a s' es) : (es.map Effect.missed).sum = 0 := by
  cases h <;> rfl

lemma startStep_missed (p : Param) (s : State) (a : Action) :
    ((startStep p s a).2.map Effect.missed).sum =
      if s.prevTargetError then (s.targetBegin.map fun b => a.ts - b.ts).getD 0 else 0 := by
  have hflush : ((if (unfinished p s a).empty then ([] : List Effect) else
      [.addUnknownLatency (unfinished p s a).toChildren (unfinishedCaller p s)]).map
        Effect.missed).sum = 0 := by
    split <;> rfl
  rw [startStep, List.map_append, List.sum_append, hflush, zero_add, missed]
  cases s.prevTargetError <;> cases s.targetBegin <;> first | rfl | exact add_zero _

lemma Move.target (h : Move p s a s' es) :
    (starts s a = true ∧ a.isError = false ∧ s'.targetBegin = some a ∧ s'.prevTargetError = false ∧
      (es.map Effect.missed).sum =
        if s.prevTargetError then (s.targetBegin.map fun b => a.ts - b.ts).getD 0 else 0) ∨
    (starts s a = false ∧ s'.targetBegin = s.targetBegin ∧
      s'.prevTargetError = (s.prevTargetError || a.isError) ∧ (es.map Effect.missed).sum = 0) := by
  cases h with
  | error he => exact Or.inr ⟨by simp [starts, he], rfl, by simp [errorStep, he], rfl⟩
  | start hs =>
    have he : a.isError = false := by
      simp only [starts, Bool.and_eq_true, Bool.not_eq_true'] at hs
      exact hs.1.1
    exact Or.inl ⟨hs, he, rfl, rfl, startStep_missed p s a⟩
  | pass he hs _ hes =>
    refine Or.inr ⟨hs, rfl, by simp [he], List.sum_eq_zero fun x hx => ?_⟩
    obtain ⟨e, he, rfl⟩ := List.mem_map.mp hx
    rcases hes e he with rfl | rfl <;> rfl
  | schedBegin he hs => exact Or.inr ⟨hs, rfl, by simp [he], rfl⟩
  | schedEnd he hs => exact Or.inr ⟨hs, rfl, by simp [he], rfl⟩
  | jump hh _ _ _ hb =>
    exact Or.inr ⟨handled_starts hh, hb.targetBegin.1, by simp [hb.targetBegin.2, handled_isError hh], rfl⟩
  | switch hh _ hsw =>
    exact Or.inr ⟨handled_starts hh, hsw.targetBegin.1,
      by simp [hsw.targetBegin.2, handled_isError hh], hsw.missed⟩

end Rounds

section Threads

variable {p : Param} {s : State} {a : Action} {rest xs : List Action}

lemma startsFrom_sublist (p : Param) (s : State) (lostData : Bool) (xs : List Action) :
    ((startsFrom p s lostData xs).map Prod.fst).Sublist (xs.map fun a => a.ts.toNat) := by
  induction xs generalizing s lostData with
  | nil => exact .slnil
  | cons a rest ih =>
    rw [startsFrom]
    split
    · exact List.nil_sublist _
    · split
      · exact (ih _ _).cons_cons _
      · exact (ih _ _).cons _

lemma startsFrom_sorted (lostData : Bool) {t : ℕ} (hsorted : SortedByTime xs)
    (ht : ∀ a ∈ xs, t ≤ a.ts.toNat) :
    ((t, false) :: startsFrom p s lostData xs).Pairwise fun x y => x.1 ≤ y.1 := by
  have htimes : (t :: (xs.map fun a => a.ts.toNat)).Pairwise (· ≤ ·) := by
    rw [List.pairwise_cons, List.pairwise_map]
    refine ⟨fun u hu => ?_, hsorted.imp fun h => UInt64.le_iff_toNat_le.mp h⟩
    obtain ⟨a, ha, rfl⟩ := List.mem_map.mp hu
    exact ht a ha
  have hsub := htimes.sublist ((startsFrom_sublist p s lostData xs).cons_cons t)
  rw [← List.map_cons (f := Prod.fst) (a := (t, false)), List.pairwise_map] at hsub
  exact hsub

lemma mem_startsFrom {lostData : Bool} {x : ℕ × Bool} (hx : x ∈ startsFrom p s lostData xs) :
    ∃ a ∈ xs, x.1 = a.ts.toNat := by
  have hmem := (startsFrom_sublist p s lostData xs).subset (List.mem_map_of_mem hx)
  obtain ⟨a, ha, heq⟩ := List.mem_map.mp hmem
  exact ⟨a, ha, heq.symm⟩

lemma lost_lt {t : ℕ} (lostData : Bool) (hsorted : SortedByTime xs) (ht : ∀ a ∈ xs, t ≤ a.ts.toNat)
    (hlt : t < 2 ^ 64) : t + lost (some t) (startsFrom p s lostData xs) < 2 ^ 64 := by
  have hle := (lost_spec (startsFrom_sorted (p := p) (s := s) lostData hsorted ht)).1
  have hlast : lastTime t (startsFrom p s lostData xs) ≤ 2 ^ 64 - 1 := by
    refine lastTime_le (Nat.le_pred_of_lt hlt) fun x hx => ?_
    obtain ⟨a, -, hxa⟩ := mem_startsFrom hx
    rw [hxa]
    exact Nat.le_pred_of_lt a.ts.toNat_lt
  omega

lemma missFrom_eq (xs : List Action) (hsorted : SortedByTime xs)
    (hbegin : ∀ b ∈ s.targetBegin, ∀ a ∈ xs, b.ts ≤ a.ts) :
    (missFrom p s xs).toNat =
      lost (s.targetBegin.map fun b => b.ts.toNat) (startsFrom p s s.prevTargetError xs) := by
  induction xs generalizing s with
  | nil => cases s.targetBegin <;> rfl
  | cons a rest ih =>
    obtain ⟨hfirst, hsorted'⟩ := List.pairwise_cons.mp hsorted
    cases hstep : step p s a rest with
    | error f =>
      rw [missFrom, startsFrom, hstep]
      cases s.targetBegin <;> rfl
    | ok r =>
      obtain ⟨s', es⟩ := r
      rw [missFrom, startsFrom, hstep]
      dsimp only
      rcases (move_of_step hstep).target with ⟨hs, -, hb, herr, hmiss⟩ | ⟨hs, hb, herr, hmiss⟩
      · have hrest := ih (s := s') hsorted' (by
          rw [hb]
          rintro b ⟨⟩
          exact hfirst)
        have hbound := lost_lt (p := p) (s := s') false (t := a.ts.toNat) hsorted'
          (fun b hb => UInt64.le_iff_toNat_le.mp (hfirst b hb)) a.ts.toNat_lt
        rw [hb, herr, Option.map_some] at hrest
        rw [hs, if_pos rfl, hmiss, UInt64.toNat_add, hrest]
        cases hprev : s.targetBegin with
        | none =>
          have hzero : (if s.prevTargetError = true then
              ((none : Option Action).map fun b => a.ts - b.ts).getD 0 else 0) = 0 := by
            split <;> rfl
          rw [hzero, UInt64.toNat_zero, Nat.zero_add]
          exact Nat.mod_eq_of_lt (by omega)
        | some b =>
          have hba : b.ts ≤ a.ts := hbegin b hprev a List.mem_cons_self
          have hsub := UInt64.toNat_sub_of_le _ _ hba
          change _ = lost (some b.ts.toNat) _
          rw [lost_some_cons]
          cases s.prevTargetError with
          | true =>
            simp only [if_true, Option.map_some, Option.getD_some, hsub]
            exact Nat.mod_eq_of_lt (by omega)
          | false =>
            simp only [Bool.false_eq_true, if_false, UInt64.toNat_zero, Nat.zero_add]
            exact Nat.mod_eq_of_lt (by omega)
      · rw [hs, if_neg Bool.false_ne_true, hmiss, zero_add, ih hsorted' (by
          rw [hb]
          exact fun b hb c hc => hbegin b hb c (List.mem_cons_of_mem _ hc)), hb, herr]

end Threads

section Spans

variable {p : Param} {sets threads : List (List Action)} {actions : List Action} {duration : ℚ}

lemma updateReal_spec (real : UInt64 × UInt64) (set : List Action) :
    ((updateReal real set).1 ≤ real.1 ∧ (updateReal real set).1 ≤ minTimestamp set) ∧
      real.2 ≤ (updateReal real set).2 ∧ maxTimestamp set ≤ (updateReal real set).2 := by
  rw [updateReal]
  constructor
  · dsimp only
    split
    · exact ⟨UInt64.le_of_lt ‹_›, UInt64.le_refl _⟩
    · exact ⟨UInt64.le_refl _, UInt64.not_lt.mp ‹_›⟩
  · dsimp only
    split
    · exact ⟨UInt64.le_of_lt ‹_›, UInt64.le_refl _⟩
    · exact ⟨UInt64.le_refl _, UInt64.not_lt.mp ‹_›⟩

lemma foldl_updateReal (sets : List (List Action)) (real : UInt64 × UInt64) :
    (sets.foldl updateReal real).1 ≤ real.1 ∧ real.2 ≤ (sets.foldl updateReal real).2 ∧
      ∀ set ∈ sets, (sets.foldl updateReal real).1 ≤ minTimestamp set ∧
        maxTimestamp set ≤ (sets.foldl updateReal real).2 := by
  induction sets generalizing real with
  | nil => exact ⟨UInt64.le_refl _, UInt64.le_refl _, fun set hset => absurd hset List.not_mem_nil⟩
  | cons set sets ih =>
    obtain ⟨h₁, h₂, hall⟩ := ih (updateReal real set)
    obtain ⟨⟨hr₁, hm₁⟩, hr₂, hm₂⟩ := updateReal_spec real set
    rw [List.foldl_cons]
    refine ⟨UInt64.le_trans h₁ hr₁, UInt64.le_trans hr₂ h₂, fun set' hset => ?_⟩
    rcases List.mem_cons.mp hset with rfl | hset
    · exact ⟨UInt64.le_trans h₁ hm₁, UInt64.le_trans hm₂ h₂⟩
    · exact hall set' hset

lemma SortedByTime.between (h : SortedByTime actions) {a : Action} (ha : a ∈ actions) :
    minTimestamp actions ≤ a.ts ∧ a.ts ≤ maxTimestamp actions := by
  obtain ⟨before, after, rfl⟩ := List.append_of_mem ha
  obtain ⟨-, hafter, hbefore⟩ := List.pairwise_append.mp h
  constructor
  · rw [minTimestamp]
    cases before with
    | nil => exact UInt64.le_refl _
    | cons b before => exact hbefore b List.mem_cons_self a List.mem_cons_self
  · rw [maxTimestamp, List.getLast?_append, List.getLast?_cons]
    cases hlast : after.getLast? with
    | none => exact UInt64.le_refl _
    | some b => exact (List.pairwise_cons.mp hafter).1 b (List.mem_of_getLast? hlast)

lemma realOf_spec (hsorted : ∀ set ∈ sets, SortedByTime set) :
    ∀ set ∈ sets, ∀ a ∈ set, (realOf sets).1 ≤ a.ts ∧ a.ts ≤ (realOf sets).2 := by
  intro set hset a ha
  obtain ⟨hmin, hmax⟩ := (foldl_updateReal sets (uint64Max, 0)).2.2 set hset
  obtain ⟨hlo, hhi⟩ := (hsorted set hset).between ha
  exact ⟨UInt64.le_trans hmin hlo, UInt64.le_trans hhi hmax⟩

/-- A thread cannot lose more than the span, and loses all of it only when it starts the target at
both ends with an error in every interval between. -/
lemma threadMiss_spec (hsorted : SortedByTime actions)
    (hreal : ∀ a ∈ actions, (realOf sets).1 ≤ a.ts ∧ a.ts ≤ (realOf sets).2) :
    (threadMiss p actions).toNat ≤ realSpan sets ∧
      (0 < realSpan sets →
        ((threadMiss p actions).toNat = realSpan sets ↔ AllLost p (realOf sets) actions)) := by
  have hmiss : (threadMiss p actions).toNat = lost none (startsFrom p .init false actions) :=
    missFrom_eq actions hsorted (fun b hb => by cases hb)
  rw [hmiss, AllLost]
  have hmem : ∀ x ∈ startsFrom p .init false actions,
      (realOf sets).1.toNat ≤ x.1 ∧ x.1 ≤ (realOf sets).2.toNat := by
    intro x hx
    obtain ⟨a, ha, hxa⟩ := mem_startsFrom hx
    rw [hxa]
    exact ⟨UInt64.le_iff_toNat_le.mp (hreal a ha).1, UInt64.le_iff_toNat_le.mp (hreal a ha).2⟩
  have hpair := (List.pairwise_cons.mp (startsFrom_sorted (p := p) (s := .init) (t := 0) false hsorted
    fun _ _ => Nat.zero_le _)).2
  cases hstarts : startsFrom p .init false actions with
  | nil =>
    refine ⟨Nat.zero_le _, fun hpos => ⟨fun h => absurd h hpos.ne, ?_⟩⟩
    rintro ⟨first, later, hnil, -⟩
    cases hnil
  | cons first later =>
    rw [hstarts] at hmem hpair
    obtain ⟨hfirst, hlater⟩ := List.pairwise_cons.mp hpair
    obtain ⟨hle, heq⟩ := lost_spec (t := first.1) (List.pairwise_cons.mpr ⟨hfirst, hlater⟩)
    have hlo := (hmem first List.mem_cons_self).1
    have hhi : lastTime first.1 later ≤ (realOf sets).2.toNat :=
      lastTime_le (hmem first List.mem_cons_self).2 fun x hx => (hmem x (List.mem_cons_of_mem _ hx)).2
    have hge : first.1 ≤ lastTime first.1 later := le_lastTime hfirst
    change lost (some first.1) later ≤ _ ∧ (_ → (lost (some first.1) later = _ ↔ _))
    rw [realSpan]
    refine ⟨by omega, fun hpos => ⟨fun h => ?_, ?_⟩⟩
    · exact ⟨first, later, rfl, by omega, by omega, heq.mp (by omega)⟩
    · rintro ⟨x, xs, hcons, hx, hlast, hunbroken⟩
      cases hcons
      rw [heq.mpr hunbroken, hlast, hx]

end Spans

section Average

variable {l : List UInt64} {bound : ℕ}

lemma toNat_sum_mod (l : List UInt64) : l.sum.toNat = (l.map UInt64.toNat).sum % 2 ^ 64 := by
  induction l with
  | nil => rfl
  | cons x l ih =>
    rw [List.sum_cons, List.map_cons, List.sum_cons, UInt64.toNat_add, ih]
    omega

lemma sum_lt_iff (h : ∀ x ∈ l, x.toNat ≤ bound) :
    (l.map UInt64.toNat).sum ≤ l.length * bound ∧
      ((l.map UInt64.toNat).sum < l.length * bound ↔ ∃ x ∈ l, x.toNat < bound) := by
  induction l with
  | nil => simp
  | cons x l ih =>
    rw [List.forall_mem_cons] at h
    obtain ⟨hle, hlt⟩ := ih h.2
    rw [List.map_cons, List.sum_cons, List.length_cons, Nat.succ_mul, List.exists_mem_cons_iff, ← hlt]
    have := h.1
    omega

lemma average_spec (hne : 0 < l.length) (h : ∀ x ∈ l, x.toNat ≤ bound) :
    l.sum.toNat / l.length ≤ bound ∧ (l.sum.toNat / l.length < bound ↔
      2 ^ 64 ≤ l.length * bound ∨ ∃ x ∈ l, x.toNat < bound) := by
  obtain ⟨hle, hlt⟩ := sum_lt_iff h
  rw [toNat_sum_mod, Nat.div_lt_iff_lt_mul hne, ← hlt, Nat.mul_comm bound]
  have hmod := Nat.mod_le (l.map UInt64.toNat).sum (2 ^ 64)
  constructor
  · apply Nat.div_le_of_le_mul
    omega
  · by_cases hbig : 2 ^ 64 ≤ l.length * bound
    · have hsmall := Nat.mod_lt (l.map UInt64.toNat).sum (show 2 ^ 64 > 0 by omega)
      exact iff_of_true (by omega) (Or.inl hbig)
    · rw [Nat.mod_eq_of_lt (by omega)]
      exact (or_iff_right hbig).symm

end Average

theorem miss_below_trace_time_iff (p : Param) (sets threads : List (List Action)) (duration : ℚ)
    (hduration : 0 < duration) (hthreads : threads ≠ []) (hsets : ∀ set ∈ sets, SortedByTime set)
    (hsorted : ∀ l ∈ threads, SortedByTime l)
    (hmem : ∀ l ∈ threads, ∀ a ∈ l, ∃ set ∈ sets, a ∈ set) :
    (missTime p threads : ℚ) < traceTime duration sets ↔
      (realSpan sets : ℚ) < duration ∨ 2 ^ 64 ≤ threads.length * realSpan sets ∨
        ∃ l ∈ threads, ¬ AllLost p (realOf sets) l := by
  have hspec : ∀ l ∈ threads, (threadMiss p l).toNat ≤ realSpan sets ∧ (0 < realSpan sets →
      ((threadMiss p l).toNat = realSpan sets ↔ AllLost p (realOf sets) l)) := by
    intro l hl
    refine threadMiss_spec (hsorted l hl) fun a ha => ?_
    obtain ⟨set, hset, has⟩ := hmem l hl a ha
    exact realOf_spec hsets set hset a has
  have hcount : 0 < threads.length := List.length_pos_iff.mpr hthreads
  have hbound : ∀ x ∈ threads.map (threadMiss p), x.toNat ≤ realSpan sets := by
    intro x hx
    obtain ⟨l, hl, rfl⟩ := List.mem_map.mp hx
    exact (hspec l hl).1
  obtain ⟨hle, hlt_iff⟩ := average_spec (by rwa [List.length_map]) hbound
  rw [List.length_map] at hle hlt_iff
  by_cases hlong : (realSpan sets : ℚ) < duration
  · have hmiss : (missTime p threads : ℚ) ≤ realSpan sets := by exact_mod_cast hle
    exact iff_of_true (hmiss.trans_lt (hlong.trans_le (le_max_left _ _))) (Or.inl hlong)
  · have hshort : duration ≤ realSpan sets := not_lt.mp hlong
    have hpos : 0 < realSpan sets := by
      have : (0 : ℚ) < realSpan sets := hduration.trans_le hshort
      exact_mod_cast this
    have hall : (∃ x ∈ threads.map (threadMiss p), x.toNat < realSpan sets) ↔
        ∃ l ∈ threads, ¬ AllLost p (realOf sets) l := by
      simp only [List.mem_map, exists_exists_and_eq_and]
      refine exists_congr fun l => and_congr_right fun hl => ?_
      rw [← (hspec l hl).2 hpos]
      have := (hspec l hl).1
      omega
    rw [traceTime, max_eq_right hshort, Nat.cast_lt, missTime, hlt_iff, hall]
    simp [hlong]

namespace Sample

def lossyThread : List Action :=
  [enter 0, leave .ret 5000000, lostData 6000000, enter 20000000]

def lossySets : List (List Action) :=
  [[enter 0, leave .ret 5000000, enter 20000000], [lostData 6000000]]

lemma lossyThread_mem : ∀ l ∈ [lossyThread], ∀ a ∈ l, ∃ set ∈ lossySets, a ∈ set := by
  intro l hl a ha
  rw [List.mem_singleton.mp hl] at ha
  simp only [lossyThread, List.mem_cons, List.not_mem_nil, or_false] at ha
  rcases ha with rfl | rfl | rfl | rfl <;> simp [lossySets]

end Sample

open Sample in
/-- A call is recorded, and the missing time is all of the trace time. -/
theorem miss_reaches_trace_time :
    (calls param lossyThread).map (fun c => c.counted param.statOption) = [true] ∧
      missTime param [lossyThread] = 20000000 ∧ traceTime 10000000 lossySets = 20000000 := by
  have hspan : realSpan lossySets = 20000000 := by decide +kernel
  refine ⟨by decide +kernel, by decide +kernel, ?_⟩
  rw [traceTime, hspan]
  norm_num

open Sample in
theorem long_trace_keeps_time :
    (missTime param [lossyThread] : ℚ) < traceTime 1000000000 lossySets := by
  have hspan : realSpan lossySets = 20000000 := by decide +kernel
  refine (miss_below_trace_time_iff param lossySets [lossyThread] 1000000000 (by norm_num) (by simp) ?_ ?_
    lossyThread_mem).mpr (Or.inl (by rw [hspan]; norm_num))
  · intro set hset
    rcases List.mem_pair.mp hset with rfl | rfl <;> decide
  · intro l hl
    rw [List.mem_singleton.mp hl]
    decide

end PtPerf.Analysis
