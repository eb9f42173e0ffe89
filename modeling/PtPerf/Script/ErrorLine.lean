import PtPerf.Script.BranchLine

/-! What the parser makes of the line of a lost-data error. -/

namespace PtPerf.Script

open PtPerf.Support PtPerf.Support.Text PtPerf.Trace PtPerf.Compact

section Lost

def numeral (w : UInt32) : Str := signed w.toInt32.toInt

def timeWord (time : UInt64) : Str :=
  if time ≠ 0 then digits 10 (secs time).toNat ++ '.'.toUInt8 ::
    padLeft 9 '0'.toUInt8 (digits 10 (nsecs time).toNat)
  else lit "0"

def machineWords (l : LostData) : List Str :=
  if l.machinePid ≠ 0 then [lit "machine_pid", numeral l.machinePid, lit "vcpu", numeral l.vcpu] else []

def lostHead : List Str :=
  [lit "instruction", lit "trace", lit "error", lit "type", lit "1"]

def lostTail (l : LostData) : List Str :=
  [lit "ip", hashHex l.ip.toNat, lit "code", lit "8:", lit "Lost", lit "trace", lit "data"]

lemma words_cons (w : Str) (ws : List Str) : words (w :: ws) = blank :: (w ++ words ws) := by
  simp [words]

lemma time_fields (sec nsec : Str) :
    lit " time " ++ sec ++ lit "." ++ nsec = words [lit "time", sec ++ '.'.toUInt8 :: nsec] := by
  have htime : lit " time " = blank :: (lit "time" ++ [blank]) := by decide
  have hdot : lit "." = ['.'.toUInt8] := by decide
  simp [words, htime, hdot]

lemma machine_fields (mp vcpu : Str) :
    lit " machine_pid " ++ mp ++ lit " vcpu " ++ vcpu = words [lit "machine_pid", mp, lit "vcpu", vcpu] := by
  have hmachine : lit " machine_pid " = blank :: (lit "machine_pid" ++ [blank]) := by decide
  have hvcpu : lit " vcpu " = blank :: (lit "vcpu" ++ [blank]) := by decide
  simp [words, hmachine, hvcpu]

lemma lost_fields (cpu pid tid ip : Str) :
    lit " cpu " ++ cpu ++ lit " pid " ++ pid ++ lit " tid " ++ tid ++ lit " ip " ++ ip ++
      lit " code " ++ lit "8" ++ lit ": " ++ lit "Lost trace data" =
      words [lit "cpu", cpu, lit "pid", pid, lit "tid", tid, lit "ip", ip, lit "code", lit "8:",
        lit "Lost", lit "trace", lit "data"] := by
  have hcpu : lit " cpu " = blank :: (lit "cpu" ++ [blank]) := by decide
  have hpid : lit " pid " = blank :: (lit "pid" ++ [blank]) := by decide
  have htid : lit " tid " = blank :: (lit "tid" ++ [blank]) := by decide
  have hip : lit " ip " = blank :: (lit "ip" ++ [blank]) := by decide
  have hcode : lit " code " = blank :: (lit "code" ++ [blank]) := by decide
  have hcolon : lit ": " = [':'.toUInt8, blank] := by decide
  have height : lit "8:" = lit "8" ++ [':'.toUInt8] := by decide
  have hlost : lit "Lost trace data" =
      lit "Lost" ++ blank :: (lit "trace" ++ blank :: lit "data") := by decide
  simp [words, hcpu, hpid, htid, hip, hcode, hcolon, height, hlost]

lemma fprintfAuxtraceError_lost (l : LostData) :
    fprintfAuxtraceError l.event = words (lostHead ++ ([lit "time", timeWord l.time] ++
      (machineWords l ++ ([lit "cpu", numeral l.cpu, lit "pid", numeral l.pid, lit "tid",
        numeral l.tid] ++ lostTail l)))) := by
  have hhead : lit " " ++ auxtraceErrorName l.event.type ++ lit " error type " ++
      digits 10 l.event.type.toNat = words lostHead := by
    change lit " " ++ auxtraceErrorName 1 ++ lit " error type " ++ digits 10 1 = words lostHead
    decide
  have hfmt : l.event.fmt = if l.machinePid ≠ 0 then 2 else 1 := rfl
  have hfmt₀ : l.event.fmt ≠ 0 := by
    rw [hfmt]
    split <;> decide
  have htime : (if l.event.fmt ≠ 0 ∧ l.event.time ≠ 0 then
      lit " time " ++ digits 10 (secs l.event.time).toNat ++ lit "." ++
        padLeft 9 '0'.toUInt8 (digits 10 (nsecs l.event.time).toNat)
      else lit " time 0") = words [lit "time", timeWord l.time] := by
    by_cases ht : l.time = 0
    · rw [if_neg (fun h => h.2 ht), timeWord, if_neg (not_not_intro ht)]
      decide
    · rw [if_pos ⟨hfmt₀, ht⟩, timeWord, if_pos ht]
      exact time_fields _ _
  have hmachine : (if l.event.fmt ≥ 2 ∧ l.event.machinePid ≠ 0 then
      lit " machine_pid " ++ signed l.event.machinePid.toInt32.toInt ++ lit " vcpu " ++
        signed l.event.vcpu.toInt32.toInt
      else []) = words (machineWords l) := by
    by_cases hm : l.machinePid = 0
    · rw [if_neg (fun h => h.2 hm), machineWords, if_neg (not_not_intro hm)]
      rfl
    · have hvcpu : l.event.vcpu = l.vcpu := if_pos hm
      have htwo : l.event.fmt ≥ 2 := by
        rw [hfmt, if_pos hm]
        decide
      rw [if_pos ⟨htwo, hm⟩, hvcpu, machineWords, if_pos hm]
      exact machine_fields _ _
  have hmsg : (if l.event.fmt = 0 then timeAsMsg l.event else l.event.msg) =
      lit "Lost trace data" := by
    rw [if_neg hfmt₀]
    change (intelPtStrerror intelPtErrLost).take 63 = lit "Lost trace data"
    decide
  have hcode : digits 10 l.event.code.toNat = lit "8" := by
    change digits 10 8 = lit "8"
    decide
  rw [fprintfAuxtraceError, hhead, htime, hmachine, hmsg, hcode, lost_fields, words_append,
    words_append, words_append, List.append_assoc, List.append_assoc]
  rfl

lemma createErrorFromString_fields (action : Action) {line sec nsec mid tid cpuRest ipRest : Str}
    {e₁ e₂ e₃ e₄ : ℕ} {t s n : ℤ}
    (htime : find (lit "time") line (some 0) = some e₁)
    (h₁ : At line e₁ (lit "time" ++ ((blank :: sec) ++ '.'.toUInt8 :: ((nsec ++ mid) ++ cpuRest))))
    (hcpu : find (lit "cpu") line (some 0) = some e₂) (h₂ : At line e₂ cpuRest)
    (htid : find (lit "tid") line (some 0) = some e₃)
    (h₃ : At line e₃ (lit "tid" ++ ((blank :: tid ++ [blank]) ++ ipRest)))
    (hip : find (lit "ip") line (some 0) = some e₄) (h₄ : At line e₄ ipRest)
    (hdot : '.'.toUInt8 ∉ blank :: sec) (hsec : stol 10 (blank :: sec) = .ok s)
    (hnsec : stol 10 (nsec ++ mid) = .ok n) (hnum : stol 10 (blank :: tid ++ [blank]) = .ok t) :
    createErrorFromString action line = .ok { action with
      ptType := ptActionTypeError, isError := true, tid := Int32.ofInt t, ts := timestamp s n } := by
  obtain ⟨e, hfind, hcut, h₅⟩ := h₁.skip.findFirstOf hdot
  have hafter : after (some e₁) 4 = e₁ + (lit "time").length := rfl
  have hafter' : after (some e₃) 3 = e₃ + (lit "tid").length := rfl
  have hafter'' : after (some e) 1 = e + 1 := rfl
  simp only [createErrorFromString, htime, hcpu, htid, hip, hafter, hafter', hfind, hafter'', hcut,
    h₃.skip.cut_between h₄, h₅.cut_between h₂, hsec, hnsec, hnum, bind, Except.bind, pure, Except.pure]

/-- A letter that the pattern holds and that no decimal number is printed with. -/
structure Letter (pat : Str) (c : UInt8) : Prop where
  mem : c ∈ pat
  value : 10 ≤ digitValue c
  sign : c ≠ '-'.toUInt8
  dot : c ≠ '.'.toUInt8

namespace Letter

variable {pat : Str} {c : UInt8} (h : Letter pat c)

include h

lemma not_mem_timeWord (time : UInt64) : c ∉ timeWord time := by
  have hzero : c ≠ '0'.toUInt8 := by
    rintro rfl
    exact absurd h.value (by decide)
  have hdigits : ∀ n, c ∉ digits 10 n := fun n => not_mem_digits (by decide) (by decide) h.value n
  rw [timeWord]
  split
  · rw [List.mem_append, List.mem_cons, not_or, not_or]
    exact ⟨hdigits _, h.dot, not_mem_padLeft hzero (hdigits _) 9⟩
  · change c ∉ ['0'.toUInt8]
    simpa using hzero

lemma not_infix_number (w : UInt32) : ¬ pat <:+: numeral w :=
  not_infix_of_not_mem h.mem (not_mem_signed h.value h.sign _)

lemma not_infix_timeWord (time : UInt64) : ¬ pat <:+: timeWord time :=
  not_infix_of_not_mem h.mem (h.not_mem_timeWord time)

end Letter

lemma letter_tid : Letter (lit "tid") 't'.toUInt8 := ⟨by decide, by decide, by decide, by decide⟩

lemma letter_ip : Letter (lit "ip") 'i'.toUInt8 := ⟨by decide, by decide, by decide, by decide⟩

lemma letter_cpu : Letter (lit "cpu") 'c'.toUInt8 := ⟨by decide, by decide, by decide, by decide⟩

section

variable (l : LostData)

def lostWords : List Str :=
  lostHead ++ ([lit "time", timeWord l.time] ++ (machineWords l ++
    [lit "cpu", numeral l.cpu, lit "pid", numeral l.pid]))

lemma lostWords_free {pat : Str} {c : UInt8} (h : Letter pat c)
    (hwords : ∀ w ∈ lostHead ++ [lit "time", lit "machine_pid", lit "vcpu", lit "cpu", lit "pid"],
      ¬ pat <:+: w) : ∀ w ∈ lostWords l, ¬ pat <:+: w := by
  have hmachine : ∀ w ∈ machineWords l, ¬ pat <:+: w := by
    rw [machineWords]
    split
    · simp only [List.forall_mem_cons]
      exact ⟨hwords _ (by decide), h.not_infix_number _, hwords _ (by decide),
        h.not_infix_number _, by simp⟩
    · simp
  simp only [lostWords, List.forall_mem_append, List.forall_mem_cons]
  exact ⟨fun w hw => hwords w (List.mem_append_left _ hw), ⟨hwords _ (by decide),
    h.not_infix_timeWord _, by simp⟩, hmachine, hwords _ (by decide), h.not_infix_number _,
    hwords _ (by decide), h.not_infix_number _, by simp⟩

lemma line_lost : fprintfAuxtraceError l.event =
    words (lostWords l) ++ words ([lit "tid", numeral l.tid] ++ lostTail l) := by
  rw [fprintfAuxtraceError_lost, ← words_append]
  congr 1
  simp [lostWords]

lemma find_tid : ∃ e, find (lit "tid") (fprintfAuxtraceError l.event) (some 0) = some e ∧
    At (fprintfAuxtraceError l.event) e (lit "tid" ++ ((blank :: numeral l.tid ++ [blank]) ++
      (lit "ip" ++ words (lostTail l).tail))) := by
  refine find_words (lostWords l) [] ?_ (by decide) (by decide)
    (lostWords_free l letter_tid (by decide)) (by decide)
  rw [line_lost]
  simp [words, lostTail]

lemma find_ip : ∃ e, find (lit "ip") (fprintfAuxtraceError l.event) (some 0) = some e ∧
    At (fprintfAuxtraceError l.event) e (lit "ip" ++ words (lostTail l).tail) := by
  refine find_words (lostWords l ++ [lit "tid", numeral l.tid]) [] ?_ (by decide) (by decide) ?_
    (by decide)
  · rw [line_lost]
    simp [words, lostTail]
  · simp only [List.forall_mem_append, List.forall_mem_cons]
    exact ⟨lostWords_free l letter_ip (by decide), by decide, letter_ip.not_infix_number _, by simp⟩

lemma time_shape (sec nsec mid rest : Str) :
    words (lostHead ++ [lit "time", sec ++ '.'.toUInt8 :: nsec]) ++ (mid ++ rest) =
      words lostHead ++ blank :: ([] ++ (lit "time" ++
        ((blank :: sec) ++ '.'.toUInt8 :: ((nsec ++ mid) ++ rest)))) := by
  simp [words]

/-- The nanoseconds end where the next word starts; the first `cpu` may be the one of `vcpu`. -/
lemma find_time_cpu (ht : l.time ≠ 0) : ∃ mid cpuRest, Ends 10 mid ∧
    (∃ e, find (lit "time") (fprintfAuxtraceError l.event) (some 0) = some e ∧
      At (fprintfAuxtraceError l.event) e (lit "time" ++
        ((blank :: digits 10 (secs l.time).toNat) ++ '.'.toUInt8 ::
          ((padLeft 9 '0'.toUInt8 (digits 10 (nsecs l.time).toNat) ++ mid) ++ cpuRest)))) ∧
    ∃ e, find (lit "cpu") (fprintfAuxtraceError l.event) (some 0) = some e ∧
      At (fprintfAuxtraceError l.event) e cpuRest := by
  have htime : timeWord l.time = digits 10 (secs l.time).toNat ++ '.'.toUInt8 ::
      padLeft 9 '0'.toUInt8 (digits 10 (nsecs l.time).toNat) := if_pos ht
  have hfree : ∀ w ∈ lostHead ++ [lit "time", timeWord l.time], ¬ lit "cpu" <:+: w := by
    simp only [List.forall_mem_append, List.forall_mem_cons]
    exact ⟨by decide, by decide, letter_cpu.not_infix_timeWord _, by simp⟩
  by_cases hm : l.machinePid = 0
  · have hline : fprintfAuxtraceError l.event = words (lostHead ++ [lit "time", timeWord l.time]) ++
        blank :: ([] ++ (lit "cpu" ++ words ([numeral l.cpu, lit "pid", numeral l.pid, lit "tid",
          numeral l.tid] ++ lostTail l))) := by
      rw [fprintfAuxtraceError_lost, machineWords, if_neg (not_not_intro hm)]
      generalize timeWord l.time = t
      simp [words]
    refine ⟨[blank], _, rfl, ?_, find_words _ _ hline (by decide) (by decide) hfree (by decide)⟩
    refine find_words lostHead [] ?_ (by decide) (by decide) (by decide) (by decide)
    rw [hline, htime, ← time_shape]
    rfl
  · have hline : fprintfAuxtraceError l.event = words (lostHead ++ [lit "time", timeWord l.time] ++
        [lit "machine_pid", numeral l.machinePid]) ++ blank :: (lit "v" ++ (lit "cpu" ++
        words ([numeral l.vcpu, lit "cpu", numeral l.cpu, lit "pid", numeral l.pid, lit "tid",
          numeral l.tid] ++ lostTail l))) := by
      have hvcpu : lit "vcpu" = lit "v" ++ lit "cpu" := by decide
      rw [fprintfAuxtraceError_lost, machineWords, if_pos hm]
      generalize timeWord l.time = t
      simp [words, hvcpu]
    refine ⟨words [lit "machine_pid", numeral l.machinePid] ++ blank :: lit "v", _, ?_, ?_,
      find_words _ _ hline (by decide) (by decide) ?_ (by decide)⟩
    · rw [words_cons]
      rfl
    · refine find_words lostHead [] ?_ (by decide) (by decide) (by decide) (by decide)
      rw [hline, htime, ← time_shape, words_append _ [lit "machine_pid", numeral l.machinePid],
        List.append_assoc, List.append_assoc]
      rfl
    · rw [List.forall_mem_append]
      simp only [List.forall_mem_cons]
      exact ⟨hfree, by decide, letter_cpu.not_infix_number _, by simp⟩

lemma createErrorFromString_lost (action : Action) (ht : l.time ≠ 0) :
    createErrorFromString action (fprintfAuxtraceError l.event) = .ok { action with
      ptType := ptActionTypeError, isError := true, tid := l.tid.toInt32, ts := l.time } := by
  obtain ⟨mid, cpuRest, hends, ⟨e₁, htime, h₁⟩, e₂, hcpu, h₂⟩ := find_time_cpu l ht
  obtain ⟨e₃, htid, h₃⟩ := find_tid l
  obtain ⟨e₄, hip, h₄⟩ := find_ip l
  have hblank : Ends 10 [blank] := rfl
  have hnil : Ends 10 [] := rfl
  have hdot : '.'.toUInt8 ∉ blank :: digits 10 (secs l.time).toNat := by
    rw [List.mem_cons, not_or]
    exact ⟨by decide, not_mem_digits (by decide) (by decide) (by decide) _⟩
  have hsec := stol_secs l.time 1 hnil
  rw [List.append_nil, List.replicate_one, List.singleton_append] at hsec
  have hnum := stol_word l.tid 1 hblank
  rw [List.replicate_one, List.singleton_append, ← numeral, ← List.cons_append] at hnum
  have hread := createErrorFromString_fields action htime h₁ hcpu h₂ htid h₃ hip h₄ hdot
    hsec (stol_nsecs l.time hends) hnum
  rwa [Int32.ofInt_toInt, timestamp_secs_nsecs] at hread

lemma line_trace_error :
    (fprintfAuxtraceError l.event).take traceErrorStr.length = traceErrorStr := by
  have hhead : words lostHead = traceErrorStr ++ lit " type 1" := by decide
  rw [fprintfAuxtraceError_lost, words_append, hhead, List.append_assoc, List.take_left]

lemma find_lost : find (lit "Lost trace data") (fprintfAuxtraceError l.event) (some 0) ≠ none := by
  rw [Ne, find_eq_none_iff, not_not]
  have hlast : words [lit "Lost", lit "trace", lit "data"] = blank :: lit "Lost trace data" := by
    decide
  have hsuffix : words [lit "Lost", lit "trace", lit "data"] <:+ fprintfAuxtraceError l.event := by
    have htail : [lit "tid", numeral l.tid] ++ lostTail l = [lit "tid", numeral l.tid, lit "ip",
        hashHex l.ip.toNat, lit "code", lit "8:"] ++ [lit "Lost", lit "trace", lit "data"] := rfl
    rw [line_lost, htail, words_append, ← List.append_assoc]
    exact List.suffix_append _ _
  rw [hlast] at hsuffix
  exact (List.suffix_cons blank _).isInfix.trans hsuffix.isInfix

/-- Without the dot of a time the nanoseconds are looked for at the start of the line. -/
lemma stol_start {t more : Str} (h : t <+: blank :: 'i'.toUInt8 :: more) :
    stol 10 t = .error .invalidArgument := by
  have hnone : number 10 t = none := by
    cases t with
    | nil => rfl
    | cons c t =>
      obtain ⟨rfl, htail⟩ := List.cons_prefix_cons.mp h
      cases t with
      | nil => rfl
      | cons d t =>
        obtain ⟨rfl, -⟩ := List.cons_prefix_cons.mp htail
        have hscan : scan 10 ('i'.toUInt8 :: t) = none := by
          rw [scan, skipBase_of_ne (by decide)]
          rfl
        change (scan 10 ('i'.toUInt8 :: t)).map _ = none
        rw [hscan]
        rfl
  rw [stol, hnone]

lemma dot_not_mem_line (ht : l.time = 0) : '.'.toUInt8 ∉ fprintfAuxtraceError l.event := by
  have hnum : ∀ w, '.'.toUInt8 ∉ numeral w := fun w => not_mem_signed (by decide) (by decide) _
  have hhex : '.'.toUInt8 ∉ hashHex l.ip.toNat := by
    have hdigits := not_mem_digits (b := 16) (c := '.'.toUInt8) (by decide) le_rfl (by decide)
      l.ip.toNat
    rw [hashHex]
    split
    · exact hdigits
    · rw [List.mem_cons, List.mem_cons, not_or, not_or]
      exact ⟨by decide, by decide, hdigits⟩
  have hmachine : ∀ w ∈ machineWords l, '.'.toUInt8 ∉ w := by
    rw [machineWords]
    split
    · simp only [List.forall_mem_cons]
      exact ⟨by decide, hnum _, by decide, hnum _, by simp⟩
    · simp
  have htime : timeWord l.time = lit "0" := if_neg (not_not_intro ht)
  rw [fprintfAuxtraceError_lost]
  apply not_mem_words (by decide)
  simp only [List.forall_mem_append, List.forall_mem_cons, htime, lostTail]
  exact ⟨by decide, ⟨by decide, by decide, by simp⟩, hmachine, ⟨by decide, hnum _, by decide, hnum _,
    by decide, hnum _, by simp⟩, by decide, hhex, by decide, by decide, by decide, by decide,
    by decide, by simp⟩

lemma prefix_of_cut {s t : Str} {stop : Option ℕ} (h : cut s (some 0) stop = .ok t) : t <+: s := by
  have hcut : ∀ k, substr s 0 k = .ok t → t <+: s := by
    intro k hk
    rw [substr, if_pos (Nat.zero_le _)] at hk
    have htake := List.take_prefix k s
    rwa [← Except.ok.inj hk]
  exact hcut _ h

lemma createErrorFromString_timeless (action : Action) (ht : l.time = 0) (a : Action) :
    createErrorFromString action (fprintfAuxtraceError l.event) ≠ .ok a := by
  intro h
  have hhead : words lostHead = blank :: 'i'.toUInt8 :: lit "nstruction trace error type 1" := by
    decide
  have hline := fprintfAuxtraceError_lost l
  rw [words_append, hhead, List.cons_append, List.cons_append] at hline
  have hdot := dot_not_mem_line l ht
  simp only [createErrorFromString] at h
  obtain ⟨_, -, h⟩ := Runs.bind_eq_ok.mp h
  obtain ⟨_, -, h⟩ := Runs.bind_eq_ok.mp h
  obtain ⟨_, -, h⟩ := Runs.bind_eq_ok.mp h
  obtain ⟨_, -, h⟩ := Runs.bind_eq_ok.mp h
  obtain ⟨text, hcut, h⟩ := Runs.bind_eq_ok.mp h
  obtain ⟨n, hnsec, -⟩ := Runs.bind_eq_ok.mp h
  rw [findFirstOf_none fun hin => hdot (List.mem_of_mem_drop hin)] at hcut
  have hpre := prefix_of_cut hcut
  rw [hline] at hpre
  rw [stol_start hpre] at hnsec
  cases hnsec

end

end Lost

end PtPerf.Script
