import PtPerf.Decode.RunDecoder

/-! Decoding one queue with ranges of time. While the time of the queue does not go back, the filter
drops the samples outside the ranges and nothing else. -/

namespace PtPerf.Decode

def TimeRange.holds (r : TimeRange) (t : ℕ) : Bool := r.start ≤ t && (r.stop == 0 || t ≤ r.stop)

def IntelPt.selects (pt : IntelPt) (q : Ptq) (t : ℕ) : Bool :=
  if q.selStart then (pt.timeRanges.drop q.selIdx).any (·.holds t)
  else q.selTimestamp == 0 || t ≤ q.selTimestamp || (pt.timeRanges.drop (q.selIdx + 1)).any (·.holds t)

/-- The selection stands at a boundary of one of the ranges. -/
structure Ptq.AtBoundary (pt : IntelPt) (q : Ptq) : Prop where
  lt : q.selIdx < pt.timeRanges.length
  time : q.selTimestamp = if q.selStart then (pt.rangeAt q.selIdx).start else (pt.rangeAt q.selIdx).stop

/-- Everything is selected from now on, or the selection stands at a boundary that is a time. -/
def Ptq.Selecting (pt : IntelPt) (q : Ptq) : Prop :=
  q.selStart = false ∧ q.selTimestamp = 0 ∨ q.AtBoundary pt ∧ q.selTimestamp ≠ 0

lemma Ptq.Selecting.congr {pt : IntelPt} {q q' : Ptq} (h : q.Selecting pt)
    (hstart : q'.selStart = q.selStart) (htime : q'.selTimestamp = q.selTimestamp)
    (hidx : q'.selIdx = q.selIdx) : q'.Selecting pt := by
  rw [Selecting, hstart, htime]
  rcases h with h | ⟨hb, hne⟩
  · exact Or.inl h
  · refine Or.inr ⟨⟨hidx.trans_lt hb.lt, ?_⟩, hne⟩
    rw [hstart, htime, hidx]
    exact hb.time

def IntelPt.Sorted (pt : IntelPt) : Prop := pt.timeRanges.Pairwise fun r s => r.start ≤ s.start

/-- What the time filter does to a queue whose time has come to `q.timestamp`. -/
structure IntelPt.FilterSpec (pt : IntelPt) (q : Ptq) (input : List Decoded) (f : Filtered) : Prop where
  clock : f.ptq.timestamp = q.timestamp
  state : f.ptq.state = q.state
  sample : f.ptq.haveSample = (q.haveSample && pt.selects q q.timestamp)
  later : ∀ u, q.timestamp ≤ u → pt.selects f.ptq u = pt.selects q u
  ends : f.stop = true → ∀ u, q.timestamp ≤ u → pt.selects q u = false
  skip : ∃ k, f.input = input.drop k ∧ (k = 0 ∨ ∃ sel, k = pt.fastForward sel input ∧
    ∀ u, q.timestamp ≤ u → u < sel → pt.selects q u = false)
  selecting : f.ptq.Selecting pt
  sync : f.ptq.syncSwitch = q.syncSwitch

namespace IntelPt

variable {pt : IntelPt} {q : Ptq} {input : List Decoded} {f : Filtered}

lemma drop_at (h : q.selIdx < pt.timeRanges.length) :
    pt.timeRanges.drop q.selIdx = pt.rangeAt q.selIdx :: pt.timeRanges.drop (q.selIdx + 1) := by
  rw [rangeAt, List.getD_eq_getElem?_getD, List.getElem?_eq_getElem h, Option.getD_some]
  exact List.drop_eq_getElem_cons h

lemma not_selects_before (hs : pt.Sorted) (hb : q.AtBoundary pt) (hstart : q.selStart = true) {u : ℕ}
    (hu : u < q.selTimestamp) : pt.selects q u = false := by
  have htime := hb.time
  rw [if_pos hstart] at htime
  have hsub : (pt.timeRanges.drop q.selIdx).Pairwise fun r s => r.start ≤ s.start :=
    hs.sublist (List.drop_sublist _ _)
  rw [drop_at hb.lt, List.pairwise_cons] at hsub
  rw [selects, if_pos hstart, drop_at hb.lt, List.any_eq_false]
  intro r hr
  have hle : q.selTimestamp ≤ r.start := by
    rcases List.mem_cons.mp hr with rfl | hr
    · exact htime.le
    · exact htime.trans_le (hsub.1 r hr)
  simp [TimeRange.holds, (hu.trans_le hle)]

/-- The filter may be asked for the queue at the next boundary instead. -/
lemma FilterSpec.of_same {q' : Ptq} (h : pt.FilterSpec q' input f)
    (hclock : q'.timestamp = q.timestamp) (hstate : q'.state = q.state)
    (hsample : q'.haveSample = q.haveSample) (hsync : q'.syncSwitch = q.syncSwitch)
    (hsel : ∀ u, q.timestamp ≤ u → pt.selects q' u = pt.selects q u) : pt.FilterSpec q input f where
  clock := h.clock.trans hclock
  state := h.state.trans hstate
  sample := by rw [h.sample, hsample, hclock, hsel _ le_rfl]
  later u hu := (h.later u (hclock.trans_le hu)).trans (hsel u hu)
  ends hstop u hu := (hsel u hu).symm.trans (h.ends hstop u (hclock.trans_le hu))
  skip := by
    obtain ⟨k, hk, hskip⟩ := h.skip
    refine ⟨k, hk, hskip.imp_right ?_⟩
    rintro ⟨sel, hff, hnone⟩
    exact ⟨sel, hff, fun u hu hlt => (hsel u hu).symm.trans (hnone u (hclock.trans_le hu) hlt)⟩
  selecting := h.selecting
  sync := h.sync.trans hsync

lemma selects_started (hb : q.AtBoundary pt) (hstart : q.selStart = true) {u : ℕ}
    (hu : q.selTimestamp ≤ u) :
    pt.selects { q with selStart := false, selTimestamp := (pt.rangeAt q.selIdx).stop } u =
      pt.selects q u := by
  have htime := hb.time
  rw [if_pos hstart] at htime
  have hle : (pt.rangeAt q.selIdx).start ≤ u := htime ▸ hu
  simp only [selects, hstart, if_true, drop_at hb.lt, List.any_cons, TimeRange.holds, hle,
    decide_true, Bool.true_and, Bool.false_eq_true, if_false]

lemma selects_passed (hstart : q.selStart = false) (hne : q.selTimestamp ≠ 0) {u : ℕ}
    (hu : q.selTimestamp < u) (start : ℕ) :
    pt.selects { q with selStart := true, selIdx := q.selIdx + 1, selTimestamp := start } u =
      pt.selects q u := by
  simp [selects, hstart, hne, not_le.mpr hu]

lemma timeFilter_spec (hs : pt.Sorted) (fuel : ℕ) (ff : ℕ) (hb : q.AtBoundary pt)
    (hne : q.selStart = false → q.selTimestamp ≠ 0) (hfuel : pt.ahead q < fuel) :
    pt.FilterSpec q input (pt.timeFilter fuel q input ff) := by
  induction fuel generalizing q with
  | zero => exact absurd hfuel (Nat.not_lt_zero _)
  | succ fuel ih =>
    rw [timeFilter]
    by_cases hstart : q.selStart = true
    · rw [if_pos hstart]
      by_cases hle : q.selTimestamp ≤ q.timestamp
      · -- the range has started: its end is next
        have hnext : (pt.nextTime q).getD q =
            { q with selStart := false, selTimestamp := (pt.rangeAt q.selIdx).stop } := by
          rw [nextTime, if_pos hstart, Option.getD_some]
        have hsel := fun u (hu : q.timestamp ≤ u) => selects_started hb hstart (hle.trans hu)
        have hahead : pt.ahead q = 2 * (pt.timeRanges.length - q.selIdx) + 1 := by
          rw [ahead, hstart]
          rfl
        rw [if_pos hle, hnext]
        dsimp only
        split_ifs with hzero
        · have hall : ∀ u, q.timestamp ≤ u → pt.selects q u = true := fun u hu => by
            rw [← hsel u hu, selects]
            simp [hzero]
          exact ⟨rfl, rfl, by rw [hall _ le_rfl, Bool.and_true], hsel, fun h => (by cases h),
            ⟨0, rfl, Or.inl rfl⟩, Or.inl ⟨rfl, hzero⟩, rfl⟩
        · have hend := ih (q := { q with selStart := false, selTimestamp := (pt.rangeAt q.selIdx).stop })
            ⟨hb.lt, rfl⟩ (fun _ => hzero) (by rw [ahead]; change 2 * (pt.timeRanges.length - q.selIdx) + 0 < _; omega)
          exact hend.of_same rfl rfl rfl rfl hsel
      · -- before the start
        have hlt := not_le.mp hle
        have hnone : ∀ u, u < q.selTimestamp → pt.selects q u = false := fun u hu =>
          not_selects_before hs hb hstart hu
        have hpos : q.selTimestamp ≠ 0 := ((Nat.zero_le _).trans_lt hlt).ne'
        rw [if_neg hle]
        split_ifs
        · exact ⟨rfl, rfl, by rw [hnone _ hlt, Bool.and_false]; rfl, fun _ _ => rfl, fun h => (by cases h),
            ⟨_, rfl, Or.inr ⟨_, rfl, fun u _ hu => hnone u hu⟩⟩, Or.inr ⟨⟨hb.lt, hb.time⟩, hpos⟩, rfl⟩
        · exact ⟨rfl, rfl, by rw [hnone _ hlt, Bool.and_false], fun _ _ => rfl, fun h => (by cases h),
            ⟨0, rfl, Or.inl rfl⟩, Or.inr ⟨⟨hb.lt, hb.time⟩, hpos⟩, rfl⟩
    · have hstop : q.selStart = false := Bool.not_eq_true _ |>.mp hstart
      have hpos := hne hstop
      rw [if_neg hstart]
      by_cases hlt : q.selTimestamp < q.timestamp
      · -- the range is over: the start of the next one, if any
        have hahead : pt.ahead q = 2 * (pt.timeRanges.length - q.selIdx) := by
          rw [ahead, hstop]
          rfl
        rw [if_pos hlt, nextTime, if_neg hstart]
        by_cases hmore : q.selIdx + 1 < pt.timeRanges.length
        · have hnext := ih (q := { q with
              selStart := true
              selIdx := q.selIdx + 1
              selTimestamp := (pt.rangeAt (q.selIdx + 1)).start })
            ⟨hmore, rfl⟩ (fun h => (by cases h))
            (by rw [ahead]; change 2 * (pt.timeRanges.length - (q.selIdx + 1)) + 1 < _; omega)
          rw [if_pos hmore]
          exact hnext.of_same rfl rfl rfl rfl fun u hu => selects_passed hstop hpos (hlt.trans_le hu) _
        · have hnone : ∀ u, q.timestamp ≤ u → pt.selects q u = false := fun u hu => by
            simp [selects, hstop, hpos, not_le.mpr (hlt.trans_le hu),
              List.drop_eq_nil_of_le (not_lt.mp hmore)]
          rw [if_neg hmore]
          exact ⟨rfl, rfl, by rw [hnone _ le_rfl, Bool.and_false], fun _ _ => rfl, fun _ => hnone,
            ⟨0, rfl, Or.inl rfl⟩, Or.inr ⟨⟨hb.lt, hb.time⟩, hpos⟩, rfl⟩
      · have hin : pt.selects q q.timestamp = true := by simp [selects, hstop, not_lt.mp hlt]
        rw [if_neg hlt]
        exact ⟨rfl, rfl, by rw [hin, Bool.and_true], fun _ _ => rfl, fun h => (by cases h),
          ⟨0, rfl, Or.inl rfl⟩, Or.inr ⟨hb, hpos⟩, rfl⟩

lemma filterTime_spec (hs : pt.Sorted) (hq : q.Selecting pt) (ff : ℕ) :
    pt.FilterSpec q input (pt.filterTime q input ff) := by
  rw [filterTime]
  rcases hq with ⟨hstart, hzero⟩ | ⟨hb, hne⟩
  · have hall : pt.selects q q.timestamp = true := by simp [selects, hstart, hzero]
    rw [if_pos hzero]
    exact ⟨rfl, rfl, by rw [hall, Bool.and_true], fun _ _ => rfl, fun h => (by cases h),
      ⟨0, rfl, Or.inl rfl⟩, Or.inl ⟨hstart, hzero⟩, rfl⟩
  · rw [if_neg hne]
    exact timeFilter_spec hs _ ff hb (fun _ => hne) (Nat.lt_succ_self _)

/-- The time of a state, when the clock of its queue does not go back. -/
def stamp (pt : IntelPt) (s : PtState) : ℕ := if pt.usesEstimate s then s.estTimestamp else s.timestamp

def stampOf (pt : IntelPt) : Decoded → ℕ
  | .error est _ => est
  | .state s => pt.stamp s

/-- No state is earlier than anything the decoder has returned before it. -/
def Forward (pt : IntelPt) (input : List Decoded) : Prop :=
  input.Pairwise fun d e => ∀ s, e = .state s → pt.stampOf d ≤ pt.stamp s

def From (pt : IntelPt) (t : ℕ) (input : List Decoded) : Prop :=
  ∀ s, Decoded.state s ∈ input → t ≤ pt.stamp s

/-- Fast forwarding to a time passes over nothing from that time on. -/
def SkipsEarlier (pt : IntelPt) : Prop :=
  ∀ t (input : List Decoded) s, .state s ∈ input.take (pt.fastForward t input) → pt.stamp s < t

def states (pt : IntelPt) (input : List Decoded) : List (ℕ × PtState) :=
  input.filterMap fun
    | .error _ _ => none
    | .state s => some (pt.stamp s, s)

/-- The samples that a queue has to give: the pending one, and those of the selected states. -/
def kept (pt : IntelPt) (q : Ptq) (input : List Decoded) : List (ℕ × PtState) :=
  q.pending ++ (pt.states input).filter fun x => pt.selects q x.1

lemma clock_eq_stamp {s : PtState} {t : ℕ} (h : t ≤ pt.stamp s) :
    clock (pt.usesEstimate s) s t = pt.stamp s := by
  rw [stamp] at h
  rw [clock, stamp]
  split_ifs with hest hlt
  · rfl
  · rfl
  · rw [if_neg hest] at h
    exact le_antisymm h (not_lt.mp hlt)

lemma From.tail {t : ℕ} {d : Decoded} (h : pt.From t (d :: input)) : pt.From t input :=
  fun s hs => h s (List.mem_cons_of_mem d hs)

lemma From.drop {t : ℕ} (h : pt.From t input) (k : ℕ) : pt.From t (input.drop k) :=
  fun s hs => h s (List.mem_of_mem_drop hs)

lemma Forward.from_head {d : Decoded} (h : pt.Forward (d :: input)) : pt.From (pt.stampOf d) input :=
  fun s hs => (List.pairwise_cons.mp h).1 _ hs s rfl

lemma Forward.tail {d : Decoded} (h : pt.Forward (d :: input)) : pt.Forward input :=
  (List.pairwise_cons.mp h).2

lemma Forward.drop (h : pt.Forward input) (k : ℕ) : pt.Forward (input.drop k) :=
  h.sublist (List.drop_sublist k input)

lemma states_cons_state (s : PtState) :
    pt.states (.state s :: input) = (pt.stamp s, s) :: pt.states input := rfl

lemma mem_states {x : ℕ × PtState} :
    x ∈ pt.states input ↔ Decoded.state x.2 ∈ input ∧ x.1 = pt.stamp x.2 := by
  simp only [states, List.mem_filterMap]
  constructor
  · rintro ⟨d, hd, hx⟩
    cases d with
    | error est fromIp => cases hx
    | state s =>
      cases hx
      exact ⟨hd, rfl⟩
  · rintro ⟨hd, hx⟩
    exact ⟨_, hd, congrArg some (Prod.ext hx.symm rfl)⟩

lemma From.le_states {t : ℕ} (h : pt.From t input) {x : ℕ × PtState} (hx : x ∈ pt.states input) :
    t ≤ x.1 := by
  obtain ⟨hmem, heq⟩ := mem_states.mp hx
  exact heq ▸ h x.2 hmem

lemma FilterSpec.filter_states (hff : pt.SkipsEarlier) (h : pt.FilterSpec q input f)
    (hfrom : pt.From q.timestamp input) :
    (pt.states f.input).filter (fun x => pt.selects f.ptq x.1) =
      (pt.states input).filter fun x => pt.selects q x.1 := by
  have hsame : (pt.states f.input).filter (fun x => pt.selects f.ptq x.1) =
      (pt.states f.input).filter fun x => pt.selects q x.1 := by
    obtain ⟨k, hk, -⟩ := h.skip
    refine List.filter_congr fun x hx => h.later x.1 ?_
    rw [hk] at hx
    exact (hfrom.drop k).le_states hx
  rw [hsame]
  obtain ⟨k, hk, rfl | ⟨sel, hskip, hnone⟩⟩ := h.skip
  · rw [hk, List.drop_zero]
  · have hsplit : pt.states input = pt.states (input.take k) ++ pt.states f.input := by
      rw [hk, states, states, states, ← List.filterMap_append, List.take_append_drop]
    rw [hsplit, List.filter_append]
    refine (List.append_left_eq_self.mpr (List.filter_eq_nil_iff.mpr fun x hx => ?_)).symm
    obtain ⟨hmem, heq⟩ := mem_states.mp hx
    have hlt := hff sel input x.2 (hskip ▸ hmem)
    have hle := hfrom x.2 (List.mem_of_mem_take hmem)
    rw [heq, hnone _ hle hlt]
    exact Bool.false_ne_true

end IntelPt

section Running

variable {pt : IntelPt} {q : Ptq} {input : List Decoded}

/-- A queue in order: its selection is consistent, and neither the pending sample nor a state to
come is earlier than `t`. -/
structure InOrder (pt : IntelPt) (t : ℕ) (q : Ptq) (input : List Decoded) : Prop where
  sync : q.syncSwitch = false
  selecting : q.Selecting pt
  forward : pt.Forward input
  pending : q.haveSample = true → t ≤ q.timestamp
  clock : pt.From q.timestamp input
  later : pt.From t input

def IntelPt.taken (pt : IntelPt) (q : Ptq) (s : PtState) : Ptq :=
  { q with
    state := s
    haveSample := true
    timestamp := clock (pt.usesEstimate s) s q.timestamp }

lemma InOrder.error {t est fromIp : ℕ} (h : InOrder pt t q (.error est fromIp :: input)) :
    InOrder pt t { q with haveSample := false, timestamp := est } input where
  sync := h.sync
  selecting := h.selecting.congr rfl rfl rfl
  forward := h.forward.tail
  pending hs := by cases hs
  clock := h.forward.from_head
  later := h.later.tail

lemma InOrder.taken {t : ℕ} {s : PtState} (h : InOrder pt t q (.state s :: input)) :
    (pt.taken q s).timestamp = pt.stamp s ∧ (pt.taken q s).Selecting pt ∧
      pt.From (pt.taken q s).timestamp input := by
  have hclock : (pt.taken q s).timestamp = pt.stamp s :=
    IntelPt.clock_eq_stamp (h.clock s List.mem_cons_self)
  refine ⟨hclock, h.selecting.congr rfl rfl rfl, ?_⟩
  rw [hclock]
  exact h.forward.from_head

lemma InOrder.filtered {t : ℕ} {s : PtState} (h : InOrder pt t q (.state s :: input))
    {f : Filtered} (hf : pt.FilterSpec (pt.taken q s) input f) : InOrder pt (pt.stamp s) f.ptq f.input := by
  obtain ⟨hclock, -, hfrom⟩ := h.taken
  obtain ⟨k, hk, -⟩ := hf.skip
  rw [hclock] at hfrom
  refine ⟨hf.sync.trans h.sync, hf.selecting, ?_, fun _ => ?_, ?_, ?_⟩
  · rw [hk]
    exact h.forward.tail.drop k
  · rw [hf.clock, hclock]
  · rw [hf.clock, hclock, hk]
    exact hfrom.drop k
  · rw [hk]
    exact hfrom.drop k

lemma InOrder.kept_state {t : ℕ} {s : PtState} (hff : pt.SkipsEarlier)
    (h : InOrder pt t q (.state s :: input)) {f : Filtered}
    (hf : pt.FilterSpec (pt.taken q s) input f) :
    q.pending ++ pt.kept f.ptq f.input = pt.kept q (.state s :: input) := by
  obtain ⟨hclock, -, hfrom⟩ := h.taken
  have hsel : ∀ u, pt.selects (pt.taken q s) u = pt.selects q u := fun _ => rfl
  have hpending : f.ptq.pending = if pt.selects q (pt.stamp s) then [(pt.stamp s, s)] else [] := by
    rw [Ptq.pending, hf.sample, hf.clock, hf.state, hclock]
    cases hs : pt.selects (pt.taken q s) (pt.stamp s) <;> rw [hsel] at hs <;> rw [hs] <;> rfl
  rw [IntelPt.kept, IntelPt.kept, hf.filter_states hff hfrom, hpending, IntelPt.states_cons_state]
  simp only [hsel, List.filter_cons]
  cases pt.selects q (pt.stamp s) <;> rfl

/-- The samples that a queue in order has to give come in order of time. -/
lemma InOrder.kept_sorted {t : ℕ} (h : InOrder pt t q input) :
    (∀ x ∈ pt.kept q input, t ≤ x.1) ∧ (pt.kept q input).Pairwise fun x y => x.1 ≤ y.1 := by
  have hstates : (pt.states input).Pairwise fun x y => x.1 ≤ y.1 := by
    refine List.pairwise_filterMap.mpr (h.forward.imp fun {d e} hde x hx y hy => ?_)
    cases d with
    | error est fromIp => cases hx
    | state s =>
      cases e with
      | error est fromIp => cases hy
      | state s' =>
        cases hx
        cases hy
        exact hde s' rfl
  refine ⟨fun x hx => ?_, List.pairwise_append.mpr ⟨?_, hstates.filter _, fun x hx y hy => ?_⟩⟩
  · rcases List.mem_append.mp hx with hx | hx
    · obtain ⟨hsample, heq⟩ := Ptq.mem_pending hx
      exact heq ▸ h.pending hsample
    · exact h.later.le_states (List.mem_of_mem_filter hx)
  · rw [Ptq.pending]
    split_ifs
    · exact List.pairwise_singleton _ _
    · exact List.Pairwise.nil
  · rw [(Ptq.mem_pending hx).2]
    exact h.clock.le_states (List.mem_of_mem_filter hy)

structure Steadily (pt : IntelPt) (t : ℕ) (q : Ptq) (input : List Decoded) : Prop
    extends InOrder pt t q input where
  now : q.timestamp = t

lemma Steadily.head {t : ℕ} (h : Steadily pt t q input) {x : ℕ × PtState}
    (hx : x ∈ (pt.kept q input).head?) : t ≤ x.1 :=
  h.kept_sorted.1 x (List.mem_of_mem_head? hx)

/-- When the ranges have ended, nothing is left to give. -/
lemma IntelPt.FilterSpec.kept_nil (hff : pt.SkipsEarlier) {f : Filtered} (hf : pt.FilterSpec q input f)
    (hfrom : pt.From q.timestamp input) (hstop : f.stop = true) : pt.kept f.ptq f.input = [] := by
  have hnone := hf.ends hstop
  have hpending : f.ptq.pending = [] := by
    rw [Ptq.pending, hf.sample, hnone _ le_rfl, Bool.and_false, if_neg Bool.false_ne_true]
  rw [IntelPt.kept, hf.filter_states hff hfrom, hpending]
  apply List.filter_eq_nil_iff.mpr
  intro x hx
  rw [hnone x.1 (hfrom.le_states hx)]
  exact Bool.false_ne_true

lemma runDecoder_inOrder (hs : pt.Sorted) (hff : pt.SkipsEarlier) (queueNr limit ff : ℕ) {t : ℕ}
    (h : InOrder pt t q input) :
    RunSpec (Steadily pt) pt.kept limit q input (runDecoder pt queueNr limit ff q input) := by
  induction hn : input.length using Nat.strong_induction_on generalizing q input ff t with
  | _ n ih =>
    cases input with
    | nil =>
      rw [runDecoder_nil pt h.sync]
      exact .ended rfl rfl
    | cons d rest =>
      cases d with
      | error est fromIp =>
        rw [runDecoder_error pt h.sync]
        have hrest := ih rest.length (hn ▸ Nat.lt_succ_self _) ff h.error rfl
        refine .goesOn _ hrest rfl (Nat.lt_succ_self _) (fun x hx => ?_) (samplesOf_error _ _ _)
        exact absurd (Ptq.mem_pending hx).1 Bool.false_ne_true
      | state s =>
        have hf : pt.FilterSpec (pt.taken q s) rest (pt.filterTime (pt.taken q s) rest ff) :=
          IntelPt.filterTime_spec hs h.taken.2.1 ff
        have hshort := pt.length_filterTime_le (pt.taken q s) rest ff
        rw [runDecoder_state pt h.sync, show Ptq.mk _ _ _ _ _ _ _ _ _ = pt.taken q s from rfl]
        generalize pt.filterTime (pt.taken q s) rest ff = f at hf hshort
        obtain ⟨hclock, -, hfrom⟩ := h.taken
        have hkept := (h.kept_state hff hf).symm
        dsimp only
        split_ifs with hstop hle
        · exact .ended hkept (hf.kept_nil hff hfrom hstop)
        · have hnow : f.ptq.timestamp = pt.stamp s := hf.clock.trans hclock
          have hinv : InOrder pt f.ptq.timestamp f.ptq f.input := hnow ▸ h.filtered hf
          exact .stopped hkept hle ⟨hinv, rfl⟩ (Nat.lt_succ_of_le hshort)
        · have hrest := ih f.input.length (by rw [← hn]; exact Nat.lt_succ_of_le hshort) f.ffTimestamp
            (h.filtered hf) rfl
          refine .goesOn [] hrest hkept (Nat.lt_succ_of_le hshort) (fun x hx => ?_) rfl
          exact (Ptq.mem_pending hx).2.trans_lt (not_le.mp hle)

end Running

end PtPerf.Decode
