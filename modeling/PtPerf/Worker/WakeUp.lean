import PtPerf.Worker.ParallelWorker

/-! Notifications that come when nobody waits for them. The notifications of `idle_cv` and `jobs_cv`
are made under the mutex; the last one, of `close_cv`, is not. -/

namespace PtPerf.Worker

open PtPerf.Support

section Places

variable {J : Type}

/-- The places at which a thread has the mutex. -/
def RunAt.locked : RunAt J → Bool
  | .test | .notifyIdle | .check | .block | .retest | .pop | .unlock | .leave => true
  | _ => false

def CallAt.locked : CallAt J → Bool
  | .addPush _ | .addNotify | .addUnlock | .stopNotify | .check _ | .block _ | .unlock _ => true
  | _ => false

/-- The places from which the worker comes to wait without another notification to the caller. -/
def RunAt.notified : RunAt J → Bool
  | .check | .block | .waiting | .woken => true
  | _ => false

/-- The places between the reset of `job_doing` and the next job. -/
def RunAt.cleared : RunAt J → Bool
  | .lock | .test | .notifyIdle | .check | .block | .waiting | .woken => true
  | _ => false

lemma CallAt.locked_notify (a : CallAt J) (c : Signal) : (a.notify c).locked = a.locked := by
  cases a with
  | waiting d =>
    rw [CallAt.notify]
    split <;> rfl
  | _ => rfl

lemma CallAt.notify_ne_waiting (a : CallAt J) (c : Signal) : a.notify c ≠ .waiting c := by
  cases a with
  | waiting d =>
    rw [CallAt.notify]
    split
    · exact fun h => by cases h
    · next hne => exact fun h => hne (CallAt.waiting.inj h)
  | _ => exact fun h => by cases h

lemma CallAt.notify_eq_block {a : CallAt J} {c d : Signal} (h : a.notify c = .block d) : a = .block d := by
  cases a with
  | waiting e =>
    rw [CallAt.notify] at h
    split at h <;> cases h
  | _ => exact h

lemma RunAt.locked_notify (a : RunAt J) : a.notify.locked = a.locked := by
  cases a <;> rfl

lemma RunAt.cleared_notify (a : RunAt J) : a.notify.cleared = a.cleared := by
  cases a <;> rfl

lemma RunAt.eq_exited_of_notify {a : RunAt J} (h : a.notify = .exited) : a = .exited := by
  cases a with
  | waiting => cases h
  | _ => exact h

lemma RunAt.cleared_of_notified {a : RunAt J} (h : a.notified = true) : a.cleared = true := by
  cases a with
  | check | block | waiting | woken => rfl
  | _ => cases h

/-- The worker is past `alive.store(false)`. -/
def RunAt.closed : RunAt J → Bool
  | .notifyClose | .exited => true
  | _ => false

lemma RunAt.closed_notify (a : RunAt J) : a.notify.closed = a.closed := by
  cases a <;> rfl

end Places

namespace ParallelWorker

variable {J : Type} {s t : ParallelWorker J}

/-- A caller waits for the worker to become idle, the worker waits for a job, and there is none; or
the caller waits for the end of a worker that has made its last notification. -/
def LostWakeUp (s : ParallelWorker J) : Prop :=
  (s.caller = .waiting .idle ∧ s.run = .waiting ∧ s.jobs = []) ∨
    (s.caller = .waiting .close ∧ s.run = .exited)

structure Exclusive (s : ParallelWorker J) : Prop where
  run : s.run.locked = true ↔ s.mutex = some .run
  caller : s.caller.locked = true ↔ s.mutex = some .caller

lemma Exclusive.not_both (h : s.Exclusive) (hr : s.run.locked = true) : s.caller.locked ≠ true := by
  intro hc
  have hown := (h.run.mp hr).symm.trans (h.caller.mp hc)
  cases hown

lemma Exclusive.runStep (h : s.Exclusive) (hm : RunStep s t) : t.Exclusive := by
  obtain ⟨hrun, hcall⟩ := h
  cases hm with
  | lock hr hfree | woken hr hfree =>
    rw [hfree] at hcall
    exact ⟨by simp [RunAt.locked], by simpa using hcall⟩
  | notifyIdle hr | notifyClose hr =>
    rw [hr] at hrun
    exact ⟨hrun, by rwa [CallAt.locked_notify]⟩
  | block hr | unlock hr | leave hr =>
    rw [hr] at hrun
    rw [hrun.mp rfl] at hcall
    exact ⟨by simp [RunAt.locked], by simpa using hcall⟩
  | quit hr | again hr | clear hr | idle hr | busy hr | pass hr | sleep hr | more hr | noMore hr | pop hr
  | doing hr | skip hr | exec hr | finish hr | close hr =>
    rw [hr] at hrun
    exact ⟨hrun, hcall⟩

lemma Exclusive.callStep (h : s.Exclusive) (hm : CallStep s t) : t.Exclusive := by
  obtain ⟨hrun, hcall⟩ := h
  cases hm with
  | addLock hc hfree | waitLock hc hfree | stopLock hc hfree | woken hc hfree =>
    rw [hfree] at hrun
    exact ⟨by simpa using hrun, by simp [CallAt.locked]⟩
  | addNotify hc | stopNotify hc =>
    rw [hc] at hcall
    exact ⟨by rwa [RunAt.locked_notify], hcall⟩
  | addUnlock hc | block hc | waitUnlock hc | stopUnlock hc =>
    rw [hc] at hcall
    rw [hcall.mp rfl] at hrun
    exact ⟨by simpa using hrun, by simp [CallAt.locked]⟩
  | addPush hc | stopStore hc | pass hc | sleep hc =>
    rw [hc] at hcall
    exact ⟨hrun, hcall⟩

/-- What the caller can rely on when it goes to sleep. -/
structure Wakes (s : ParallelWorker J) : Prop extends Exclusive s where
  cleared : s.run.cleared = true → s.jobDoing = none
  waits : s.run.notified = true → (s.caller = .block .idle ∨ s.caller = .waiting .idle) → s.jobs ≠ []
  closed : s.run.closed = true → s.alive = false

lemma wakes_start (garbage : Option J) : (start garbage).Wakes where
  run := by simp [start, RunAt.locked]
  caller := by simp [start, CallAt.locked]
  cleared h := by cases h
  waits h := by cases h
  closed h := by cases h

lemma Wakes.runStep_cleared (h : s.Wakes) (hm : RunStep s t) (hc : t.run.cleared = true) :
    t.jobDoing = none := by
  cases hm with
  | clear => rfl
  | lock hr | idle hr | notifyIdle hr | sleep hr | block hr | woken hr =>
    exact h.cleared (by rw [hr]; rfl)
  | _ => cases hc

lemma Wakes.runStep_waits (h : s.Wakes) (hm : RunStep s t) (hn : t.run.notified = true)
    (hc : t.caller = .block .idle ∨ t.caller = .waiting .idle) : t.jobs ≠ [] := by
  cases hm with
  | notifyIdle hr =>
    -- the caller is not between its check and its wait, for it would have the mutex
    rcases hc with hc | hc
    · have hlocked := h.not_both (by rw [hr]; rfl)
      rw [CallAt.notify_eq_block hc] at hlocked
      exact absurd rfl hlocked
    · exact absurd hc (CallAt.notify_ne_waiting _ _)
  | sleep hr | block hr | woken hr => exact h.waits (by rw [hr]; rfl) hc
  | _ => cases hn

lemma Wakes.runStep_closed (h : s.Wakes) (hm : RunStep s t) (hc : t.run.closed = true) :
    t.alive = false := by
  cases hm with
  | close => rfl
  | notifyClose hr => exact h.closed (by rw [hr]; rfl)
  | _ => cases hc

lemma Wakes.runStep (h : s.Wakes) (hm : RunStep s t) : t.Wakes :=
  ⟨h.toExclusive.runStep hm, h.runStep_cleared hm, h.runStep_waits hm, h.runStep_closed hm⟩

structure CallFrame (s t : ParallelWorker J) : Prop where
  jobDoing : t.jobDoing = s.jobDoing
  alive : t.alive = s.alive
  run : t.run = s.run ∨ t.run = s.run.notify

lemma CallStep.frame (hm : CallStep s t) : CallFrame s t := by
  cases hm with
  | addNotify | stopNotify => exact ⟨rfl, rfl, Or.inr rfl⟩
  | _ => exact ⟨rfl, rfl, Or.inl rfl⟩

lemma Wakes.callStep_waits (h : s.Wakes) (hm : CallStep s t) (hn : t.run.notified = true)
    (hc : t.caller = .block .idle ∨ t.caller = .waiting .idle) : t.jobs ≠ [] := by
  cases hm with
  | @sleep c hs hh =>
    obtain rfl : c = .idle := by simpa using hc
    rw [holds, h.cleared (RunAt.cleared_of_notified hn)] at hh
    simpa using hh
  | @block c hs =>
    obtain rfl : c = .idle := by simpa using hc
    exact h.waits hn (Or.inl hs)
  | _ => exact absurd hc (by simp)

lemma Wakes.callStep (h : s.Wakes) (hm : CallStep s t) : t.Wakes := by
  have hf := hm.frame
  refine ⟨h.toExclusive.callStep hm, fun hcleared => ?_, h.callStep_waits hm, fun hclosed => ?_⟩
  · rw [hf.jobDoing]
    apply h.cleared
    rcases hf.run with hr | hr
    · rwa [← hr]
    · rwa [← RunAt.cleared_notify, ← hr]
  · rw [hf.alive]
    apply h.closed
    rcases hf.run with hr | hr
    · rwa [← hr]
    · rwa [← RunAt.closed_notify, ← hr]

lemma Wakes.step (h : s.Wakes) {m : Move J} (hm : s.step m = some t) : t.Wakes := by
  cases m with
  | run => exact h.runStep (runStep_of_runMove hm)
  | call => exact h.callStep (callStep_of_callMove hm)
  | wakeRun =>
    rw [ParallelWorker.step] at hm
    split at hm
    · next hr =>
      cases hm
      have hw : s.run.notified = true := by rw [hr]; rfl
      refine ⟨⟨?_, h.caller⟩, fun _ => h.cleared (RunAt.cleared_of_notified hw), fun _ => h.waits hw,
        fun hclosed => by cases hclosed⟩
      have hrun := h.run
      rwa [hr] at hrun
    · cases hm
  | wakeCaller | addJob | waitIdle | stop =>
    rw [ParallelWorker.step] at hm
    split at hm
    · next hc =>
      cases hm
      have hcall := h.caller
      rw [hc] at hcall
      exact ⟨⟨h.run, hcall⟩, h.cleared, fun _ hw => absurd hw (by simp), h.closed⟩
    · cases hm

/-- The last notification does not come between the check of the caller in `stop` and its wait. -/
def Timely (s : ParallelWorker J) : Move J → Prop
  | .run => ¬ (s.run = .notifyClose ∧ s.caller = .block .close)
  | _ => True

/-- Nobody waits for a worker that has made its last notification. -/
structure Heard (s : ParallelWorker J) : Prop extends Wakes s where
  heard : s.run = .exited → s.caller ≠ .block .close ∧ s.caller ≠ .waiting .close

lemma Heard.not_lost (h : s.Heard) : ¬ s.LostWakeUp := by
  rintro (⟨hc, hr, hq⟩ | ⟨hc, hr⟩)
  · exact h.waits (by rw [hr]; rfl) (Or.inr hc) hq
  · exact (h.heard hr).2 hc

lemma RunStep.exited (hm : RunStep s t) (ht : t.run = .exited) :
    s.run = .notifyClose ∧ t.caller = s.caller.notify .close := by
  cases hm with
  | notifyClose hr => exact ⟨hr, rfl⟩
  | _ => cases ht

lemma CallStep.close (hm : CallStep s t)
    (ht : t.caller = .block .close ∨ t.caller = .waiting .close) :
    s.alive = true ∨ s.caller = .block .close := by
  cases hm with
  | @sleep c hs hh =>
    obtain rfl : c = .close := by simpa using ht
    exact Or.inl (by simpa [holds] using hh)
  | @block c hs =>
    obtain rfl : c = .close := by simpa using ht
    exact Or.inr hs
  | _ => exact absurd ht (by simp)

lemma Heard.step (h : s.Heard) {m : Move J} (hok : s.Timely m) (hm : s.step m = some t) : t.Heard := by
  refine ⟨h.toWakes.step hm, fun ht => ?_⟩
  cases m with
  | run =>
    obtain ⟨hr, hc⟩ := (runStep_of_runMove hm).exited ht
    rw [hc]
    refine ⟨fun hb => hok ⟨hr, CallAt.notify_eq_block hb⟩, CallAt.notify_ne_waiting _ _⟩
  | call =>
    have hexited : s.run = .exited := by
      rcases (callStep_of_callMove hm).frame.run with hr | hr
      · rw [← hr, ht]
      · rw [hr] at ht
        exact RunAt.eq_exited_of_notify ht
    rw [← not_or]
    intro hc
    rcases (callStep_of_callMove hm).close hc with halive | hb
    · rw [h.closed (by rw [hexited]; rfl)] at halive
      cases halive
    · exact (h.heard hexited).1 hb
  | wakeRun =>
    rw [ParallelWorker.step] at hm
    split at hm
    · cases hm
      cases ht
    · cases hm
  | wakeCaller | addJob | waitIdle | stop =>
    rw [ParallelWorker.step] at hm
    split at hm
    · cases hm
      exact ⟨by simp, by simp⟩
    · cases hm

lemma heard_start (garbage : Option J) : (start garbage).Heard :=
  ⟨wakes_start garbage, fun h => by cases h⟩

/-- An early last notification is followed by a wait that nothing ends. -/
lemma lost_of_not_timely {m : Move J} (h : ¬ s.Timely m) :
    ∃ t u, s.step m = some t ∧ t.step .call = some u ∧ u.LostWakeUp := by
  cases m with
  | run =>
    obtain ⟨hr, hc⟩ := not_not.mp h
    refine ⟨{ s with caller := .block .close, run := .exited },
      { s with mutex := none, caller := .waiting .close, run := .exited }, ?_, rfl, Or.inr ⟨rfl, rfl⟩⟩
    rw [ParallelWorker.step, ParallelWorker.runMove]
    simp only [hr, hc]
    rfl
  | _ => exact absurd trivial h

end ParallelWorker

open ParallelWorker in
/-- Along a run, and one move of the caller further at any time, no wake-up is lost, if and only if
the worker never makes its last notification between the check of the caller in `stop` and its wait. -/
theorem wake_ups_kept_iff {J : Type} (garbage : Option J) (ms : List (Move J)) :
    (∀ ns t, (ns <+: ms ∨ ∃ before, before <+: ms ∧ ns = before ++ [.call]) →
        Interleave.after ParallelWorker.step (start garbage) ns = some t → ¬ t.LostWakeUp) ↔
      Interleave.Meets ParallelWorker.step Timely (start garbage) ms := by
  constructor
  · intro h ns m s hp hs
    by_contra hlate
    obtain ⟨t, u, ht, hu, hlost⟩ := lost_of_not_timely hlate
    refine h (ns ++ [m] ++ [.call]) u (Or.inr ⟨ns ++ [m], hp, rfl⟩) ?_ hlost
    rw [Interleave.after_concat, Interleave.after_concat, hs, Option.bind_some, ht, Option.bind_some, hu]
  · intro h ns t hns ht
    have hmeets : Interleave.Meets ParallelWorker.step Timely (start garbage) ns := by
      rcases hns with hp | ⟨before, hp, rfl⟩
      · exact h.of_prefix hp
      · exact (h.of_prefix hp).concat fun _ _ => trivial
    have hheard : t.Heard :=
      Interleave.after_inv_of_meets (fun _ _ _ hq hok hm => hq.step hok hm) (heard_start garbage) hmeets ht
    exact hheard.not_lost

open ParallelWorker in
/-- The worker leaves `run` while the caller of `stop` is on its way to sleep. -/
theorem stop_sleeps_forever :
    ∃ s, Interleave.after ParallelWorker.step (start (none : Option ℕ))
        [.stop, .call, .run, .call, .call, .call, .run, .run, .call] = some s ∧
      s.caller = .waiting .close ∧ s.run = .exited :=
  ⟨_, rfl, rfl, rfl⟩

end PtPerf.Worker
