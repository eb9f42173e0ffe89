import PtPerf.Support.Search

/-! What a parallel worker is given of one queue. `intel_pt_get_trace` hands out the buffers of
the worker's batch, then later buffers up to the first PSB packet, then nothing;
`intel_pt_scan_for_psb` looks for the packet at which decoding starts. -/

namespace PtPerf.Parallel

open PtPerf.Support

abbrev Buffer := List UInt8

/-- `INTEL_PT_PSB_STR`. -/
def psb : List UInt8 :=
  [0x02, 0x82, 0x02, 0x82, 0x02, 0x82, 0x02, 0x82, 0x02, 0x82, 0x02, 0x82, 0x02, 0x82, 0x02, 0x82]

lemma psb_ne_nil : psb ≠ [] := List.cons_ne_nil _ _

lemma length_psb : psb.length = 16 := rfl

structure ParallelCacheEntry where
  batchAdd : ℕ
  bufferAdd : ℕ
  lastPsbAdd : ℕ
  bufferLookahead : ℕ
  lastPsbLookahead : ℕ
  deriving DecidableEq, Repr

/-- The queue of one cpu or thread: the buffers not handed out yet, and its entry, if any. -/
structure Ptq where
  buffers : List Buffer
  entry : Option ParallelCacheEntry
  cpuThreadLastPsbAdd : ℕ
  deriving DecidableEq, Repr

def ParallelCacheEntry.countBuffer (e : ParallelCacheEntry) : ParallelCacheEntry :=
  { e with bufferAdd := e.bufferAdd + 1
           bufferLookahead := max e.bufferLookahead (e.bufferAdd + 1) }

def ParallelCacheEntry.countPsb (e : ParallelCacheEntry) : ParallelCacheEntry :=
  { e with lastPsbAdd := e.lastPsbAdd + 1, lastPsbLookahead := e.lastPsbLookahead + 1 }

/-- What is kept of one buffer, and the counters afterwards. -/
def keepBuffer (e : ParallelCacheEntry) (added : ℕ) (b : Buffer) : Buffer × ParallelCacheEntry × ℕ :=
  if e.batchAdd = 0 then ([], e, added)
  else if e.bufferAdd < e.batchAdd then (b, e.countBuffer, added)
  else if e.lastPsbAdd = 0 then
    match memmem psb b with
    | some i => (b.take i, e.countPsb.countBuffer, added + 1)
    | none => (b, e.countBuffer, added)
  else ([], e.countBuffer, added)

/-- `intel_pt_get_trace` on the buffers that follow the current one. -/
def getTraceFrom : List Buffer → Option ParallelCacheEntry → ℕ → Buffer × Ptq
  | [], e, added => ([], ⟨[], e, added⟩)
  | _ :: rest, none, added => getTraceFrom rest none added
  | b :: rest, some e, added =>
    let r := keepBuffer e added b
    if r.1.length = 0 then getTraceFrom rest (some r.2.1) r.2.2
    else (r.1, ⟨rest, some r.2.1, r.2.2⟩)

def getTrace (q : Ptq) : Buffer × Ptq := getTraceFrom q.buffers q.entry q.cpuThreadLastPsbAdd

/-- The data of at most `n` successive calls; the decoder stops at the first empty answer. -/
def feed : ℕ → Ptq → List Buffer
  | 0, _ => []
  | n + 1, q =>
    let r := getTrace q
    if r.1.length = 0 then [] else r.1 :: feed n r.2

def partPsbFrom (b : Buffer) : ℕ → ℕ
  | 0 => 0
  | i + 1 =>
    if i + 1 ≤ b.length ∧ b.drop (b.length - (i + 1)) = psb.take (i + 1) then i + 1
    else partPsbFrom b i

def partPsb (b : Buffer) : ℕ := partPsbFrom b (psb.length - 1)

def restPsb (b : Buffer) (part : ℕ) : ℕ :=
  let rest := psb.length - part
  if rest > b.length ∨ b.take rest ≠ psb.drop part then 0 else rest

/-- Where in the bytes given `intel_pt_scan_for_psb` finds the PSB to start from. -/
def scanForPsb : List Buffer → Option ℕ
  | [] => none
  | b :: rest =>
    match memmem psb b with
    | some i => some i
    | none =>
      if partPsb b = 0 then (scanForPsb rest).map (b.length + ·)
      else
        match rest.head? with
        | none => none
        | some next =>
          if restPsb next (partPsb b) = 0 then (scanForPsb rest).map (b.length + ·)
          else some (b.length - partPsb b)

section Scan

lemma partPsbFrom_le (b : Buffer) (n : ℕ) : partPsbFrom b n ≤ n ∧ partPsbFrom b n ≤ b.length := by
  induction n with
  | zero => exact ⟨le_rfl, Nat.zero_le _⟩
  | succ i ih =>
    rw [partPsbFrom]
    split
    · rename_i h
      exact ⟨le_rfl, h.1⟩
    · exact ⟨ih.1.trans (Nat.le_succ i), ih.2⟩

lemma partPsb_le (b : Buffer) : partPsb b ≤ 15 ∧ partPsb b ≤ b.length := partPsbFrom_le b 15

lemma drop_partPsb (b : Buffer) : b.drop (b.length - partPsb b) = psb.take (partPsb b) := by
  rw [partPsb]
  induction psb.length - 1 with
  | zero => simp [partPsbFrom]
  | succ i ih =>
    rw [partPsbFrom]
    split
    · rename_i h
      exact h.2
    · exact ih

lemma restPsb_ne_zero {b : Buffer} {part : ℕ} :
    restPsb b part ≠ 0 ↔ part < 16 ∧ 16 - part ≤ b.length ∧ b.take (16 - part) = psb.drop part := by
  rw [restPsb, length_psb]
  split_ifs with h
  · refine iff_of_false (not_not.mpr rfl) fun ⟨_, hlen, htake⟩ => ?_
    exact h.elim (not_lt.mpr hlen) fun hne => hne htake
  · obtain ⟨hlen, htake⟩ := not_or.mp h
    exact ⟨fun hpart => ⟨by omega, not_lt.mp hlen, not_not.mp htake⟩, fun hpart => by omega⟩

lemma scanForPsb_cons (b : Buffer) (rest : List Buffer) :
    (∃ i, memmem psb b = some i ∧ scanForPsb (b :: rest) = some i) ∨
      memmem psb b = none ∧
        ((∃ next tail, rest = next :: tail ∧ restPsb next (partPsb b) ≠ 0 ∧ partPsb b ≠ 0 ∧
            scanForPsb (b :: rest) = some (b.length - partPsb b)) ∨
          (scanForPsb (b :: rest) = (scanForPsb rest).map (b.length + ·) ∧
            ∀ next tail, rest = next :: tail → partPsb b ≠ 0 → restPsb next (partPsb b) = 0)) := by
  cases hm : memmem psb b with
  | some i => exact Or.inl ⟨i, rfl, by rw [scanForPsb, hm]⟩
  | none =>
    refine Or.inr ⟨rfl, ?_⟩
    by_cases hp : partPsb b = 0
    · refine Or.inr ⟨?_, fun _ _ _ h => absurd hp h⟩
      rw [scanForPsb, hm]
      simp only [hp, if_true]
    · cases rest with
      | nil =>
        refine Or.inr ⟨?_, fun _ _ h => by cases h⟩
        simp [scanForPsb, hm, hp]
      | cons next tail =>
        by_cases hr : restPsb next (partPsb b) = 0
        · refine Or.inr ⟨?_, ?_⟩
          · rw [scanForPsb, hm]
            simp only [hp, hr, if_false, if_true, List.head?_cons]
          · intro next' tail' heq _
            cases heq
            exact hr
        · refine Or.inl ⟨next, tail, rfl, hr, hp, ?_⟩
          rw [scanForPsb, hm]
          simp only [hp, hr, if_false, List.head?_cons]

lemma scanForPsb_add_le {bs : List Buffer} {d : ℕ} (h : scanForPsb bs = some d) :
    d + 16 ≤ bs.flatten.length := by
  induction bs generalizing d with
  | nil => cases h
  | cons b rest ih =>
    rw [List.flatten_cons, List.length_append]
    rcases scanForPsb_cons b rest with ⟨i, hi, hs⟩ | ⟨-, ⟨next, tail, rfl, hr, -, hs⟩ | ⟨hs, -⟩⟩
    · have hfit := memmem_add_le psb_ne_nil hi
      rw [length_psb] at hfit
      rw [hs] at h
      cases h
      omega
    · have hfit := (restPsb_ne_zero.mp hr).2.1
      have hpart := partPsb_le b
      rw [hs] at h
      cases h
      rw [List.flatten_cons, List.length_append]
      omega
    · rw [hs] at h
      obtain ⟨k, hk, rfl⟩ := Option.map_eq_some_iff.mp h
      have hrest := ih hk
      omega

/-- What the scan finds is a PSB of the bytes given. -/
theorem scanForPsb_occurs {bs : List Buffer} {d : ℕ} (h : scanForPsb bs = some d) :
    psb <+: bs.flatten.drop d := by
  induction bs generalizing d with
  | nil => cases h
  | cons b rest ih =>
    rw [List.flatten_cons]
    rcases scanForPsb_cons b rest with ⟨i, hi, hs⟩ | ⟨-, ⟨next, tail, rfl, hr, -, hs⟩ | ⟨hs, -⟩⟩
    · rw [hs] at h
      cases h
      have hfit := memmem_add_le psb_ne_nil hi
      rw [List.drop_append_of_le_length (by omega)]
      exact (memmem_occurs hi).trans (List.prefix_append _ _)
    · rw [hs] at h
      cases h
      have hrest := (restPsb_ne_zero.mp hr).2.2
      rw [List.drop_append_of_le_length (Nat.sub_le _ _), drop_partPsb, List.flatten_cons]
      have hpsb : psb = psb.take (partPsb b) ++ next.take (16 - partPsb b) := by
        rw [hrest, List.take_append_drop]
      have htake : next.take (16 - partPsb b) <+: next := List.take_prefix _ _
      have hnext := htake.trans (List.prefix_append next tail.flatten)
      conv_lhs => rw [hpsb]
      exact (List.prefix_append_right_inj _).mpr hnext
    · rw [hs] at h
      obtain ⟨k, hk, rfl⟩ := Option.map_eq_some_iff.mp h
      rw [List.drop_length_add_append]
      exact ih hk

lemma scanForPsb_cons_le {b : Buffer} {rest : List Buffer} {d : ℕ}
    (h : scanForPsb rest = some d) : ∃ k ≤ b.length + d, scanForPsb (b :: rest) = some k := by
  rcases scanForPsb_cons b rest with ⟨i, hi, hs⟩ | ⟨-, ⟨_, _, _, _, _, hs⟩ | ⟨hs, -⟩⟩
  · have hfit := memmem_add_le psb_ne_nil hi
    exact ⟨i, by omega, hs⟩
  · exact ⟨b.length - partPsb b, by omega, hs⟩
  · exact ⟨b.length + d, le_rfl, by rw [hs, h]; rfl⟩

lemma scanForPsb_append_le (xs : List Buffer) {ys : List Buffer} {d : ℕ} (h : scanForPsb ys = some d) :
    ∃ k ≤ xs.flatten.length + d, scanForPsb (xs ++ ys) = some k := by
  induction xs with
  | nil => exact ⟨d, by simp, h⟩
  | cons x xs ih =>
    obtain ⟨k, hk, hs⟩ := ih
    obtain ⟨m, hm, hs'⟩ := scanForPsb_cons_le (b := x) hs
    refine ⟨m, ?_, hs'⟩
    rw [List.flatten_cons, List.length_append]
    omega

/-- Buffers that end before the packet do not matter. -/
lemma scanForPsb_of_append {xs ys : List Buffer} {d : ℕ} (h : scanForPsb (xs ++ ys) = some d)
    (hd : xs.flatten.length ≤ d) : scanForPsb ys = some (d - xs.flatten.length) := by
  induction xs generalizing d with
  | nil => exact h
  | cons x xs ih =>
    rw [List.flatten_cons, List.length_append] at hd ⊢
    rcases scanForPsb_cons x (xs ++ ys) with ⟨i, hi, hs⟩ | ⟨-, ⟨_, _, -, -, hpart, hs⟩ | ⟨hs, -⟩⟩
    · have hfit := memmem_add_le psb_ne_nil hi
      rw [length_psb] at hfit
      cases hs.symm.trans h
      omega
    · have hle := partPsb_le x
      cases hs.symm.trans h
      omega
    · obtain ⟨k, hk, rfl⟩ := Option.map_eq_some_iff.mp (hs.symm.trans h)
      rw [ih hk (by omega)]
      congr 1
      omega

end Scan

/-! A PSB that lies in one buffer is the only kind that `memmem` on a buffer can see. -/

section Whole

def firstWhole : List Buffer → Option ℕ
  | [] => none
  | b :: rest =>
    match memmem psb b with
    | some i => some i
    | none => (firstWhole rest).map (b.length + ·)

/-- Position `d` of the queue is the start of a PSB inside one buffer. -/
def Whole : List Buffer → ℕ → Prop
  | [], _ => False
  | b :: rest, d =>
    (d < b.length ∧ psb <+: b.drop d) ∨ (b.length ≤ d ∧ Whole rest (d - b.length))

lemma whole_append {xs ys : List Buffer} {d : ℕ} :
    Whole (xs ++ ys) (xs.flatten.length + d) ↔ Whole ys d := by
  induction xs generalizing d with
  | nil => simp
  | cons x xs ih =>
    rw [List.cons_append, Whole, List.flatten_cons, List.length_append, Nat.add_assoc,
      Nat.add_sub_cancel_left, ih]
    constructor
    · rintro (⟨hlt, -⟩ | ⟨-, h⟩)
      · omega
      · exact h
    · intro h
      exact Or.inr ⟨Nat.le_add_right _ _, h⟩

lemma whole_of_firstWhole {bs : List Buffer} {w : ℕ} (h : firstWhole bs = some w) :
    Whole bs w := by
  induction bs generalizing w with
  | nil => cases h
  | cons b rest ih =>
    rw [firstWhole] at h
    cases hm : memmem psb b with
    | some i =>
      rw [hm] at h
      cases h
      have hfit := memmem_add_le psb_ne_nil hm
      rw [length_psb] at hfit
      exact Or.inl ⟨by omega, memmem_occurs hm⟩
    | none =>
      rw [hm] at h
      obtain ⟨k, hk, rfl⟩ := Option.map_eq_some_iff.mp h
      refine Or.inr ⟨Nat.le_add_right _ _, ?_⟩
      rw [Nat.add_sub_cancel_left]
      exact ih hk

lemma firstWhole_le_of_whole {bs : List Buffer} {d : ℕ} (h : Whole bs d) :
    ∃ w ≤ d, firstWhole bs = some w := by
  induction bs generalizing d with
  | nil => exact h.elim
  | cons b rest ih =>
    cases hm : memmem psb b with
    | some i =>
      refine ⟨i, ?_, by rw [firstWhole, hm]⟩
      rcases h with ⟨-, hocc⟩ | ⟨hle, -⟩
      · obtain ⟨k, hk, heq⟩ := memmem_le_of_occurs hocc
        rw [hm] at heq
        cases heq
        exact hk
      · have hfit := memmem_add_le psb_ne_nil hm
        omega
    | none =>
      rcases h with ⟨-, hocc⟩ | ⟨hle, h⟩
      · obtain ⟨k, -, heq⟩ := memmem_le_of_occurs hocc
        rw [hm] at heq
        cases heq
      · obtain ⟨w, hw, heq⟩ := ih h
        exact ⟨b.length + w, by omega, by rw [firstWhole, hm, heq]; rfl⟩

lemma firstWhole_append_of_some {xs : List Buffer} {w : ℕ} (h : firstWhole xs = some w)
    (ys : List Buffer) : firstWhole (xs ++ ys) = some w := by
  induction xs generalizing w with
  | nil => cases h
  | cons x xs ih =>
    rw [List.cons_append, firstWhole]
    rw [firstWhole] at h
    cases hm : memmem psb x with
    | some i =>
      rw [hm] at h
      exact h
    | none =>
      rw [hm] at h
      obtain ⟨k, hk, rfl⟩ := Option.map_eq_some_iff.mp h
      rw [ih hk]
      rfl

lemma firstWhole_append_of_none {xs : List Buffer} (h : firstWhole xs = none)
    (ys : List Buffer) :
    firstWhole (xs ++ ys) = (firstWhole ys).map (xs.flatten.length + ·) := by
  induction xs with
  | nil => simp
  | cons x xs ih =>
    rw [List.cons_append, firstWhole]
    rw [firstWhole] at h
    cases hm : memmem psb x with
    | some i =>
      rw [hm] at h
      cases h
    | none =>
      rw [hm] at h
      rw [ih (Option.map_eq_none_iff.mp h), Option.map_map]
      simp [Function.comp_def, Nat.add_assoc]

lemma scanForPsb_le_firstWhole {bs : List Buffer} {w : ℕ} (h : firstWhole bs = some w) :
    ∃ d ≤ w, scanForPsb bs = some d := by
  induction bs generalizing w with
  | nil => cases h
  | cons b rest ih =>
    rw [firstWhole] at h
    cases hm : memmem psb b with
    | some i =>
      rw [hm] at h
      cases h
      exact ⟨w, le_rfl, by rw [scanForPsb, hm]⟩
    | none =>
      rw [hm] at h
      obtain ⟨k, hk, rfl⟩ := Option.map_eq_some_iff.mp h
      obtain ⟨d, hd, hs⟩ := ih hk
      obtain ⟨m, hle, hm'⟩ := scanForPsb_cons_le (b := b) hs
      exact ⟨m, by omega, hm'⟩

end Whole

/-! The data of the successive calls, without the counters. -/

section Feed

def nonempty (bs : List Buffer) : List Buffer := bs.filter (0 < ·.length)

def untilPsb : List Buffer → List Buffer
  | [] => []
  | b :: rest =>
    match memmem psb b with
    | some i => [b.take i]
    | none => b :: untilPsb rest

def firstWholeOrEnd (bs : List Buffer) : ℕ := (firstWhole bs).getD bs.flatten.length

lemma flatten_nonempty (bs : List Buffer) : (nonempty bs).flatten = bs.flatten := by
  induction bs with
  | nil => rfl
  | cons b rest ih =>
    cases b with
    | nil => exact ih
    | cons x b =>
      have hcons : nonempty ((x :: b) :: rest) = (x :: b) :: nonempty rest := rfl
      rw [hcons, List.flatten_cons, List.flatten_cons, ih]

lemma length_flatten_untilPsb (bs : List Buffer) :
    (untilPsb bs).flatten.length = firstWholeOrEnd bs := by
  induction bs with
  | nil => rfl
  | cons b rest ih =>
    rw [untilPsb, firstWholeOrEnd, firstWhole]
    cases hm : memmem psb b with
    | some i =>
      have hfit := memmem_add_le psb_ne_nil hm
      simp
      omega
    | none =>
      rw [List.flatten_cons, List.length_append, ih, firstWholeOrEnd]
      cases firstWhole rest <;> simp

def keptBuffers (e : ParallelCacheEntry) (added : ℕ) : List Buffer → List Buffer
  | [] => []
  | b :: rest => (keepBuffer e added b).1 :: keptBuffers (keepBuffer e added b).2.1 (keepBuffer e added b).2.2 rest

lemma nonempty_cons_of_zero {b : Buffer} (h : b.length = 0) (rest : List Buffer) :
    nonempty (b :: rest) = nonempty rest := by
  rw [nonempty, List.filter_cons_of_neg (by simp [h])]
  rfl

lemma nonempty_cons_of_ne {b : Buffer} (h : b.length ≠ 0) (rest : List Buffer) :
    nonempty (b :: rest) = b :: nonempty rest := by
  rw [nonempty, List.filter_cons_of_pos (by simpa using Nat.pos_of_ne_zero h)]
  rfl

lemma nonempty_append (xs ys : List Buffer) :
    nonempty (xs ++ ys) = nonempty xs ++ nonempty ys := List.filter_append xs ys

lemma getTraceFrom_some (bs : List Buffer) (e : ParallelCacheEntry) (added : ℕ) :
    ((getTraceFrom bs (some e) added).1.length = 0 ∧ nonempty (keptBuffers e added bs) = []) ∨
      ∃ b rest e' added', getTraceFrom bs (some e) added = (b, ⟨rest, some e', added'⟩) ∧
        b.length ≠ 0 ∧ rest.length < bs.length ∧
          nonempty (keptBuffers e added bs) = b :: nonempty (keptBuffers e' added' rest) := by
  induction bs generalizing e added with
  | nil => exact Or.inl ⟨rfl, rfl⟩
  | cons b bs ih =>
    rw [getTraceFrom, keptBuffers]
    by_cases hz : (keepBuffer e added b).1.length = 0
    · simp only [hz, if_true]
      rw [nonempty_cons_of_zero hz]
      rcases ih (keepBuffer e added b).2.1 (keepBuffer e added b).2.2 with
        h | ⟨c, rest, e', added', htrace, hc, hlt, hrest⟩
      · exact Or.inl h
      · exact Or.inr ⟨c, rest, e', added', htrace, hc, hlt.trans (Nat.lt_succ_self _), hrest⟩
    · simp only [hz, if_false]
      exact Or.inr ⟨_, bs, _, _, rfl, hz, Nat.lt_succ_self _, nonempty_cons_of_ne hz _⟩

lemma feed_eq (n : ℕ) (bs : List Buffer) (e : ParallelCacheEntry) (added : ℕ)
    (h : bs.length ≤ n) : feed n ⟨bs, some e, added⟩ = nonempty (keptBuffers e added bs) := by
  induction n generalizing bs e added with
  | zero =>
    obtain rfl := List.length_eq_zero_iff.mp (Nat.le_zero.mp h)
    rfl
  | succ n ih =>
    rw [feed, getTrace]
    rcases getTraceFrom_some bs e added with
      ⟨hz, hnil⟩ | ⟨b, rest, e', added', htrace, hb, hlt, hrest⟩
    · simp only [hz, if_true, hnil]
    · simp only [htrace, hb, if_false, hrest]
      rw [ih rest e' added' (by omega)]

lemma nonempty_cons_congr (b : Buffer) {xs ys : List Buffer} (h : nonempty xs = nonempty ys) :
    nonempty (b :: xs) = nonempty (b :: ys) := by
  by_cases hz : b.length = 0
  · rw [nonempty_cons_of_zero hz, nonempty_cons_of_zero hz, h]
  · rw [nonempty_cons_of_ne hz, nonempty_cons_of_ne hz, h]

lemma keptBuffers_idle {e : ParallelCacheEntry} (added : ℕ) (bs : List Buffer)
    (hz : e.batchAdd = 0) : nonempty (keptBuffers e added bs) = [] := by
  induction bs with
  | nil => rfl
  | cons b bs ih =>
    have hkept : keepBuffer e added b = ([], e, added) := by rw [keepBuffer, if_pos hz]
    rw [keptBuffers, hkept, nonempty_cons_of_zero rfl, ih]

lemma keptBuffers_done {e : ParallelCacheEntry} (added : ℕ) (bs : List Buffer)
    (hbuf : e.batchAdd ≤ e.bufferAdd) (hlast : e.lastPsbAdd ≠ 0) :
    nonempty (keptBuffers e added bs) = [] := by
  by_cases hz : e.batchAdd = 0
  · exact keptBuffers_idle added bs hz
  · induction bs generalizing e with
    | nil => rfl
    | cons b bs ih =>
      have hkept : keepBuffer e added b = ([], e.countBuffer, added) := by
        rw [keepBuffer, if_neg hz, if_neg (not_lt.mpr hbuf), if_neg hlast]
      rw [keptBuffers, hkept, nonempty_cons_of_zero rfl]
      exact ih (e := e.countBuffer) (hbuf.trans (Nat.le_succ _)) hlast hz

lemma keptBuffers_after {e : ParallelCacheEntry} (added : ℕ) (bs : List Buffer)
    (hz : e.batchAdd ≠ 0) (hbuf : e.batchAdd ≤ e.bufferAdd) (hlast : e.lastPsbAdd = 0) :
    nonempty (keptBuffers e added bs) = nonempty (untilPsb bs) := by
  induction bs generalizing e with
  | nil => rfl
  | cons b bs ih =>
    rw [untilPsb, keptBuffers]
    cases hm : memmem psb b with
    | some i =>
      have hkept : keepBuffer e added b = (b.take i, e.countPsb.countBuffer, added + 1) := by
        rw [keepBuffer, if_neg hz, if_neg (not_lt.mpr hbuf), if_pos hlast, hm]
      rw [hkept]
      apply nonempty_cons_congr
      exact keptBuffers_done (e := e.countPsb.countBuffer) _ bs (hbuf.trans (Nat.le_succ _))
        (Nat.succ_ne_zero _)
    | none =>
      have hkept : keepBuffer e added b = (b, e.countBuffer, added) := by
        rw [keepBuffer, if_neg hz, if_neg (not_lt.mpr hbuf), if_pos hlast, hm]
      rw [hkept]
      apply nonempty_cons_congr
      exact ih (e := e.countBuffer) hz (hbuf.trans (Nat.le_succ _)) hlast

lemma keptBuffers_batch {e : ParallelCacheEntry} (added : ℕ) (batch bs : List Buffer)
    (hz : e.batchAdd ≠ 0) (hbuf : e.bufferAdd + batch.length = e.batchAdd)
    (hlast : e.lastPsbAdd = 0) :
    nonempty (keptBuffers e added (batch ++ bs)) = nonempty (batch ++ untilPsb bs) := by
  induction batch generalizing e with
  | nil => exact keptBuffers_after added bs hz hbuf.ge hlast
  | cons b batch ih =>
    rw [List.length_cons] at hbuf
    have hkept : keepBuffer e added b = (b, e.countBuffer, added) := by
      rw [keepBuffer, if_neg hz, if_pos (by omega)]
    rw [List.cons_append, List.cons_append, keptBuffers, hkept]
    apply nonempty_cons_congr
    have hnext : e.countBuffer.bufferAdd + batch.length = e.countBuffer.batchAdd := by
      change e.bufferAdd + 1 + batch.length = e.batchAdd
      omega
    exact ih (e := e.countBuffer) hz hnext hlast

end Feed

end PtPerf.Parallel
