import PtPerf.Support.Interleave

/-! A `ParallelWorker` and the two threads that use it: its own, in `run`, and the one that calls its
methods. Every access to a shared member is a move of its own; a job that is added may be a null
pointer. -/

namespace PtPerf.Worker

inductive Owner
  | run | caller
  deriving DecidableEq

/-- Where the thread of the worker is in `run`. -/
inductive RunAt (J : Type)
  | head
  | clear
  | lock
  | test
  | notifyIdle
  | check
  | block
  | waiting
  | woken
  | retest
  | pop
  | unlock
  | leave
  | read
  | exec
  | running (job : J)
  | close
  | notifyClose
  | exited
  deriving DecidableEq

/-- The condition variables on which the caller waits. -/
inductive Signal
  | idle | close
  deriving DecidableEq

/-- Where the caller is in a method of the worker. -/
inductive CallAt (J : Type)
  | outside
  | addLock (job : Option J)
  | addPush (job : Option J)
  | addNotify
  | addUnlock
  | waitLock
  | stopStore
  | stopLock
  | stopNotify
  | check (c : Signal)
  | block (c : Signal)
  | waiting (c : Signal)
  | woken (c : Signal)
  | unlock (c : Signal)
  | stopped
  deriving DecidableEq

/-- A notification reaches a thread only when it is waiting. -/
def RunAt.notify {J : Type} : RunAt J → RunAt J
  | .waiting => .woken
  | a => a

def CallAt.notify {J : Type} (c : Signal) : CallAt J → CallAt J
  | .waiting d => if d = c then .woken d else .waiting d
  | a => a

def CallAt.isOutside {J : Type} : CallAt J → Bool
  | .outside => true
  | _ => false

/-- The members of a worker and the places of its two threads. The last four fields are what has
happened so far: the jobs pushed, those popped, those whose `exec` has begun and those whose `exec`
has come to its end. -/
structure ParallelWorker (J : Type) where
  shouldStop : Bool
  alive : Bool
  jobDoing : Option J
  jobs : List (Option J)
  mutex : Option Owner
  run : RunAt J
  caller : CallAt J
  added : List (Option J)
  taken : List (Option J)
  begun : List J
  finished : List J
  deriving DecidableEq

namespace ParallelWorker

variable {J : Type}

/-- The state that `start` leaves. The constructor does not set `job_doing`. -/
def start (garbage : Option J) : ParallelWorker J where
  shouldStop := false
  alive := true
  jobDoing := garbage
  jobs := []
  mutex := none
  run := .head
  caller := .outside
  added := []
  taken := []
  begun := []
  finished := []

def whenFree (s t : ParallelWorker J) : Option (ParallelWorker J) :=
  if s.mutex = none then some t else none

lemma whenFree_eq_some {s t u : ParallelWorker J} : s.whenFree t = some u ↔ s.mutex = none ∧ t = u := by
  rw [whenFree]
  split <;> simp [*]

def runMove (s : ParallelWorker J) : Option (ParallelWorker J) :=
  match s.run with
  | .head => some { s with run := if s.shouldStop then .close else .clear }
  | .clear => some { s with jobDoing := none, run := .lock }
  | .lock => s.whenFree { s with mutex := some .run, run := .test }
  | .test => some { s with run := if s.jobs.isEmpty then .notifyIdle else .retest }
  | .notifyIdle => some { s with caller := s.caller.notify .idle, run := .check }
  | .check => some { s with run := if !s.jobs.isEmpty || s.shouldStop then .retest else .block }
  | .block => some { s with mutex := none, run := .waiting }
  | .waiting => none
  | .woken => s.whenFree { s with mutex := some .run, run := .check }
  | .retest =>
    if !s.jobs.isEmpty then some { s with run := .pop }
    -- `assert(should_stop.load())`
    else if s.shouldStop then some { s with run := .leave }
    else none
  | .pop =>
    match s.jobs with
    | [] => none
    | job :: jobs =>
      some { s with jobDoing := job, jobs := jobs, taken := s.taken ++ [job], run := .unlock }
  | .unlock => some { s with mutex := none, run := .read }
  | .leave => some { s with mutex := none, run := .close }
  | .read => some { s with run := if s.jobDoing.isSome then .exec else .head }
  | .exec =>
    match s.jobDoing with
    | none => none
    | some job => some { s with begun := s.begun ++ [job], run := .running job }
  | .running job => some { s with finished := s.finished ++ [job], run := .head }
  | .close => some { s with alive := false, run := .notifyClose }
  | .notifyClose => some { s with caller := s.caller.notify .close, run := .exited }
  | .exited => none

/-- The predicates of the waits of `wait_idle` and `stop`. -/
def holds (s : ParallelWorker J) : Signal → Bool
  | .idle => s.jobDoing.isNone && s.jobs.isEmpty
  | .close => !s.alive

def callMove (s : ParallelWorker J) : Option (ParallelWorker J) :=
  match s.caller with
  | .outside => none
  | .addLock job => s.whenFree { s with mutex := some .caller, caller := .addPush job }
  | .addPush job => some { s with jobs := s.jobs ++ [job], added := s.added ++ [job], caller := .addNotify }
  | .addNotify => some { s with run := s.run.notify, caller := .addUnlock }
  | .addUnlock => some { s with mutex := none, caller := .outside }
  | .waitLock => s.whenFree { s with mutex := some .caller, caller := .check .idle }
  | .stopStore => some { s with shouldStop := true, caller := .stopLock }
  | .stopLock => s.whenFree { s with mutex := some .caller, caller := .stopNotify }
  | .stopNotify => some { s with run := s.run.notify, caller := .check .close }
  | .check c => some { s with caller := if s.holds c then .unlock c else .block c }
  | .block c => some { s with mutex := none, caller := .waiting c }
  | .waiting _ => none
  | .woken c => s.whenFree { s with mutex := some .caller, caller := .check c }
  | .unlock .idle => some { s with mutex := none, caller := .outside }
  | .unlock .close => some { s with mutex := none, caller := .stopped }
  | .stopped => none

inductive RunStep (s : ParallelWorker J) : ParallelWorker J → Prop
  | quit : s.run = .head → s.shouldStop = true → RunStep s { s with run := .close }
  | again : s.run = .head → s.shouldStop = false → RunStep s { s with run := .clear }
  | clear : s.run = .clear → RunStep s { s with jobDoing := none, run := .lock }
  | lock : s.run = .lock → s.mutex = none → RunStep s { s with mutex := some .run, run := .test }
  | idle : s.run = .test → s.jobs = [] → RunStep s { s with run := .notifyIdle }
  | busy : s.run = .test → s.jobs ≠ [] → RunStep s { s with run := .retest }
  | notifyIdle : s.run = .notifyIdle →
      RunStep s { s with caller := s.caller.notify .idle, run := .check }
  | pass : s.run = .check → s.jobs ≠ [] ∨ s.shouldStop = true → RunStep s { s with run := .retest }
  | sleep : s.run = .check → s.jobs = [] → s.shouldStop = false → RunStep s { s with run := .block }
  | block : s.run = .block → RunStep s { s with mutex := none, run := .waiting }
  | woken : s.run = .woken → s.mutex = none → RunStep s { s with mutex := some .run, run := .check }
  | more : s.run = .retest → s.jobs ≠ [] → RunStep s { s with run := .pop }
  | noMore : s.run = .retest → s.jobs = [] → s.shouldStop = true → RunStep s { s with run := .leave }
  | pop {job : Option J} {jobs : List (Option J)} : s.run = .pop → s.jobs = job :: jobs →
      RunStep s { s with jobDoing := job, jobs := jobs, taken := s.taken ++ [job], run := .unlock }
  | unlock : s.run = .unlock → RunStep s { s with mutex := none, run := .read }
  | leave : s.run = .leave → RunStep s { s with mutex := none, run := .close }
  | doing {job : J} : s.run = .read → s.jobDoing = some job → RunStep s { s with run := .exec }
  | skip : s.run = .read → s.jobDoing = none → RunStep s { s with run := .head }
  | exec {job : J} : s.run = .exec → s.jobDoing = some job →
      RunStep s { s with begun := s.begun ++ [job], run := .running job }
  | finish {job : J} : s.run = .running job →
      RunStep s { s with finished := s.finished ++ [job], run := .head }
  | close : s.run = .close → RunStep s { s with alive := false, run := .notifyClose }
  | notifyClose : s.run = .notifyClose →
      RunStep s { s with caller := s.caller.notify .close, run := .exited }

lemma runStep_of_runMove {s t : ParallelWorker J} (hm : s.runMove = some t) : RunStep s t := by
  rw [runMove] at hm
  cases hr : s.run with
  | head =>
    simp only [hr] at hm
    by_cases hs : s.shouldStop = true
    · rw [if_pos hs] at hm
      cases hm
      exact .quit hr hs
    · rw [if_neg hs] at hm
      cases hm
      exact .again hr (Bool.eq_false_of_not_eq_true hs)
  | test =>
    simp only [hr] at hm
    by_cases hq : s.jobs = []
    · rw [if_pos (List.isEmpty_iff.mpr hq)] at hm
      cases hm
      exact .idle hr hq
    · rw [if_neg (List.isEmpty_iff.not.mpr hq)] at hm
      cases hm
      exact .busy hr hq
  | check =>
    simp only [hr] at hm
    by_cases hp : (!s.jobs.isEmpty || s.shouldStop) = true
    · rw [if_pos hp] at hm
      cases hm
      exact .pass hr (by simpa using hp)
    · rw [if_neg hp] at hm
      cases hm
      obtain ⟨hq, hs⟩ : s.jobs = [] ∧ s.shouldStop = false := by simpa using hp
      exact .sleep hr hq hs
  | retest =>
    simp only [hr] at hm
    by_cases hq : s.jobs = []
    · rw [if_neg (by simp [hq])] at hm
      by_cases hs : s.shouldStop = true
      · rw [if_pos hs] at hm
        cases hm
        exact .noMore hr hq hs
      · rw [if_neg hs] at hm
        cases hm
    · rw [if_pos (by simpa using hq)] at hm
      cases hm
      exact .more hr hq
  | pop =>
    simp only [hr] at hm
    split at hm
    · cases hm
    · next hq =>
      cases hm
      exact .pop hr hq
  | read =>
    simp only [hr] at hm
    by_cases hd : s.jobDoing.isSome = true
    · rw [if_pos hd] at hm
      cases hm
      obtain ⟨job, hjob⟩ := Option.isSome_iff_exists.mp hd
      exact .doing hr hjob
    · rw [if_neg hd] at hm
      cases hm
      exact .skip hr (Option.not_isSome_iff_eq_none.mp hd)
  | exec =>
    simp only [hr] at hm
    split at hm
    · cases hm
    · next hd =>
      cases hm
      exact .exec hr hd
  | lock =>
    simp only [hr, whenFree_eq_some] at hm
    obtain ⟨hfree, rfl⟩ := hm
    exact .lock hr hfree
  | woken =>
    simp only [hr, whenFree_eq_some] at hm
    obtain ⟨hfree, rfl⟩ := hm
    exact .woken hr hfree
  | waiting | exited =>
    simp only [hr] at hm
    cases hm
  | clear | notifyIdle | block | unlock | leave | running | close | notifyClose =>
    simp only [hr] at hm
    cases hm
    constructor
    exact hr

inductive CallStep (s : ParallelWorker J) : ParallelWorker J → Prop
  | addLock {job : Option J} : s.caller = .addLock job → s.mutex = none →
      CallStep s { s with mutex := some .caller, caller := .addPush job }
  | addPush {job : Option J} : s.caller = .addPush job →
      CallStep s { s with jobs := s.jobs ++ [job], added := s.added ++ [job], caller := .addNotify }
  | addNotify : s.caller = .addNotify → CallStep s { s with run := s.run.notify, caller := .addUnlock }
  | addUnlock : s.caller = .addUnlock → CallStep s { s with mutex := none, caller := .outside }
  | waitLock : s.caller = .waitLock → s.mutex = none →
      CallStep s { s with mutex := some .caller, caller := .check .idle }
  | stopStore : s.caller = .stopStore → CallStep s { s with shouldStop := true, caller := .stopLock }
  | stopLock : s.caller = .stopLock → s.mutex = none →
      CallStep s { s with mutex := some .caller, caller := .stopNotify }
  | stopNotify : s.caller = .stopNotify →
      CallStep s { s with run := s.run.notify, caller := .check .close }
  | pass {c : Signal} : s.caller = .check c → s.holds c = true →
      CallStep s { s with caller := .unlock c }
  | sleep {c : Signal} : s.caller = .check c → s.holds c = false →
      CallStep s { s with caller := .block c }
  | block {c : Signal} : s.caller = .block c → CallStep s { s with mutex := none, caller := .waiting c }
  | woken {c : Signal} : s.caller = .woken c → s.mutex = none →
      CallStep s { s with mutex := some .caller, caller := .check c }
  | waitUnlock : s.caller = .unlock .idle → CallStep s { s with mutex := none, caller := .outside }
  | stopUnlock : s.caller = .unlock .close → CallStep s { s with mutex := none, caller := .stopped }

lemma callStep_of_callMove {s t : ParallelWorker J} (hm : s.callMove = some t) : CallStep s t := by
  rw [callMove] at hm
  cases hc : s.caller with
  | outside | waiting | stopped =>
    simp only [hc] at hm
    cases hm
  | addLock | waitLock | stopLock | woken =>
    simp only [hc, whenFree_eq_some] at hm
    obtain ⟨hfree, rfl⟩ := hm
    constructor
    · exact hc
    · exact hfree
  | check c =>
    simp only [hc] at hm
    by_cases hh : s.holds c = true
    · rw [if_pos hh] at hm
      cases hm
      exact .pass hc hh
    · rw [if_neg hh] at hm
      cases hm
      exact .sleep hc (Bool.eq_false_of_not_eq_true hh)
  | unlock c =>
    cases c with
    | idle =>
      simp only [hc] at hm
      cases hm
      exact .waitUnlock hc
    | close =>
      simp only [hc] at hm
      cases hm
      exact .stopUnlock hc
  | addPush | addNotify | addUnlock | stopStore | stopNotify | block =>
    simp only [hc] at hm
    cases hm
    constructor
    exact hc

inductive Move (J : Type)
  | run
  | wakeRun
  | call
  | wakeCaller
  | addJob (job : Option J)
  | waitIdle
  | stop

/-- A waiting thread may also wake up without a notification. -/
def step (s : ParallelWorker J) : Move J → Option (ParallelWorker J)
  | .run => s.runMove
  | .wakeRun =>
    match s.run with
    | .waiting => some { s with run := .woken }
    | _ => none
  | .call => s.callMove
  | .wakeCaller =>
    match s.caller with
    | .waiting c => some { s with caller := .woken c }
    | _ => none
  | .addJob job =>
    match s.caller with
    | .outside => some { s with caller := .addLock job }
    | _ => none
  | .waitIdle =>
    match s.caller with
    | .outside => some { s with caller := .waitLock }
    | _ => none
  | .stop =>
    match s.caller with
    | .outside => some { s with caller := .stopStore }
    | _ => none

end ParallelWorker

end PtPerf.Worker
