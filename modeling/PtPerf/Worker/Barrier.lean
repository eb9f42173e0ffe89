import PtPerf.Worker.Pool
import Mathlib.Data.List.ReduceOption

/-! The pool as a barrier: when `wait_all_idle` returns, the jobs added so far have been executed. -/

namespace PtPerf.Worker

open PtPerf.Support

section Places

variable {J : Type}

/-- The job that has been removed from the queue and not been executed to its end. -/
def RunAt.inHand (doing : Option J) : RunAt J → List (Option J)
  | .unlock | .read | .exec => [doing]
  | .running job => [some job]
  | _ => []

def RunAt.executing : RunAt J → List J
  | .running job => [job]
  | _ => []

lemma RunAt.executing_initial (a : RunAt J) (doing : Option J) :
    a.executing <+: (a.inHand doing).reduceOption := by
  cases a with
  | running job => exact List.prefix_rfl
  | _ => exact List.nil_prefix

lemma RunAt.inHand_notify (a : RunAt J) (doing : Option J) : a.notify.inHand doing = a.inHand doing := by
  cases a <;> rfl

lemma RunAt.executing_notify (a : RunAt J) : a.notify.executing = a.executing := by
  cases a <;> rfl

end Places

namespace ParallelWorker

variable {J : Type} {s t : ParallelWorker J}

/-- The jobs taken before the one in hand have been executed, in their order. -/
structure Progress (s : ParallelWorker J) : Prop where
  taken : ∃ before, s.taken = before ++ s.run.inHand s.jobDoing ∧
    s.begun = before.reduceOption ++ s.run.executing ∧ s.finished = before.reduceOption
  doing : ∀ job, s.run = .running job → s.jobDoing = some job

lemma Progress.begun_initial (h : s.Progress) : s.begun <+: s.taken.reduceOption := by
  obtain ⟨before, ht, hb, -⟩ := h.taken
  rw [ht, hb, List.reduceOption_append]
  exact (List.prefix_append_right_inj _).mpr (s.run.executing_initial s.jobDoing)

lemma Progress.finished_initial (h : s.Progress) : s.finished <+: s.begun := by
  obtain ⟨before, -, hb, hf⟩ := h.taken
  rw [hb, hf]
  exact List.prefix_append _ _

lemma Progress.finished_of_idle (h : s.Progress) (hd : s.jobDoing = none) :
    s.finished = s.taken.reduceOption := by
  obtain ⟨before, ht, -, hf⟩ := h.taken
  have hhand : (s.run.inHand s.jobDoing).reduceOption = [] := by
    cases hr : s.run with
    | running job =>
      have hjob := h.doing job hr
      rw [hd] at hjob
      cases hjob
    | unlock | read | exec =>
      rw [hd]
      rfl
    | _ => rfl
  rw [ht, hf, List.reduceOption_append, hhand, List.append_nil]

lemma Progress.begun_of_idle (h : s.Progress) (hd : s.jobDoing = none) :
    s.begun = s.taken.reduceOption := by
  apply h.begun_initial.eq_of_length_le
  rw [← h.finished_of_idle hd]
  exact h.finished_initial.length_le

lemma Progress.of_eq (h : s.Progress) (ht : t.taken = s.taken) (hb : t.begun = s.begun)
    (hf : t.finished = s.finished) (hd : t.jobDoing = s.jobDoing)
    (hh : t.run.inHand s.jobDoing = s.run.inHand s.jobDoing)
    (he : t.run.executing = s.run.executing) : t.Progress where
  taken := by
    rw [ht, hb, hf, hd, hh, he]
    exact h.taken
  doing job hr := by
    rw [hd]
    cases hs : s.run with
    | running job' =>
      rw [hr, hs] at he
      cases he
      exact h.doing job hs
    | _ =>
      rw [hr, hs] at he
      cases he

lemma Progress.runStep (h : s.Progress) (hm : RunStep s t) : t.Progress := by
  cases hm with
  | clear hr =>
    have htaken := h.taken
    rw [hr] at htaken
    exact ⟨htaken, fun job hjob => by cases hjob⟩
  | @pop job jobs hr hq =>
    obtain ⟨before, ht, hb, hf⟩ := h.taken
    rw [hr] at ht hb
    refine ⟨⟨before, ?_, hb, hf⟩, fun job hjob => by cases hjob⟩
    exact congrArg (· ++ _) (ht.trans (List.append_nil _))
  | skip hr hd =>
    refine ⟨⟨s.taken, (List.append_nil _).symm, ?_, h.finished_of_idle hd⟩, fun job hjob => by cases hjob⟩
    exact (h.begun_of_idle hd).trans (List.append_nil _).symm
  | @exec job hr hd =>
    obtain ⟨before, ht, hb, hf⟩ := h.taken
    rw [hr] at ht hb
    refine ⟨⟨before, ?_, ?_, hf⟩, fun job' hjob => ?_⟩
    · rw [ht, hd]
      rfl
    · rw [hb]
      exact congrArg (· ++ [job]) (List.append_nil _)
    · cases hjob
      exact hd
  | @finish job hr =>
    obtain ⟨before, ht, hb, hf⟩ := h.taken
    rw [hr] at ht hb
    refine ⟨⟨s.taken, (List.append_nil _).symm, ?_, ?_⟩, fun job' hjob => by cases hjob⟩
    · rw [hb, ht, List.reduceOption_append]
      exact (List.append_nil _).symm
    · rw [hf, ht, List.reduceOption_append]
      rfl
  | quit hr | again hr | lock hr | idle hr | busy hr | notifyIdle hr | pass hr | sleep hr | block hr
  | woken hr | more hr | noMore hr | unlock hr | leave hr | doing hr | close hr | notifyClose hr =>
    exact h.of_eq rfl rfl rfl rfl (by rw [hr]; rfl) (by rw [hr]; rfl)

def Done (s : ParallelWorker J) : Prop := s.finished = s.added.reduceOption

structure Books (s : ParallelWorker J) : Prop where
  added : s.added = s.taken ++ s.jobs
  progress : s.Progress

/-- A caller that has seen the predicate of `wait_idle` hold finds every job executed. -/
structure Barred (s : ParallelWorker J) : Prop extends Books s where
  passed : s.caller = .unlock .idle → s.Done

lemma Books.begun_initial (h : s.Books) : s.begun <+: s.added.reduceOption := by
  rw [h.added, List.reduceOption_append]
  exact h.progress.begun_initial.trans (List.prefix_append _ _)

lemma Books.finished_initial (h : s.Books) : s.finished <+: s.added.reduceOption :=
  h.progress.finished_initial.trans h.begun_initial

lemma Books.done_of_idle (h : s.Books) (hd : s.jobDoing = none) (hq : s.jobs = []) : s.Done := by
  rw [Done, h.added, hq, List.append_nil]
  exact h.progress.finished_of_idle hd

lemma barred_start (garbage : Option J) : (start garbage).Barred where
  added := rfl
  progress := ⟨⟨[], rfl, rfl, rfl⟩, fun _ hjob => by cases hjob⟩
  passed hp := by cases hp

structure Framed (s t : ParallelWorker J) : Prop where
  added : t.added = s.added
  queue : t.taken ++ t.jobs = s.taken ++ s.jobs
  finished : s.finished <+: t.finished
  caller : t.caller = s.caller ∨ ∃ c, t.caller = s.caller.notify c

lemma RunStep.framed (hm : RunStep s t) : Framed s t := by
  cases hm with
  | notifyIdle | notifyClose => exact ⟨rfl, rfl, List.prefix_rfl, Or.inr ⟨_, rfl⟩⟩
  | pop hr hq => exact ⟨rfl, by rw [hq, List.append_assoc]; rfl, List.prefix_rfl, Or.inl rfl⟩
  | finish => exact ⟨rfl, rfl, List.prefix_append _ _, Or.inl rfl⟩
  | _ => exact ⟨rfl, rfl, List.prefix_rfl, Or.inl rfl⟩

lemma notify_eq_unlock {a : CallAt J} {c d : Signal} (h : a.notify c = .unlock d) : a = .unlock d := by
  cases a with
  | waiting e =>
    rw [CallAt.notify] at h
    split at h <;> cases h
  | _ => exact h

lemma Framed.done (hf : Framed s t) (ht : t.Books) (hs : s.Done) : t.Done := by
  apply ht.finished_initial.eq_of_length_le
  rw [hf.added, ← hs]
  exact hf.finished.length_le

lemma Barred.runStep (h : s.Barred) (hm : RunStep s t) : t.Barred := by
  have hf := hm.framed
  have hbooks : t.Books := ⟨by rw [hf.added, hf.queue, h.added], h.progress.runStep hm⟩
  refine ⟨hbooks, fun hpass => hf.done hbooks (h.passed ?_)⟩
  rcases hf.caller with hc | ⟨c, hc⟩
  · rwa [← hc]
  · rw [hc] at hpass
    exact notify_eq_unlock hpass

lemma Books.of_caller (h : s.Books) (a : CallAt J) (m : Option Owner) :
    Books { s with caller := a, mutex := m } :=
  ⟨h.added, h.progress.of_eq rfl rfl rfl rfl rfl rfl⟩

lemma Books.of_notify (h : s.Books) (a : CallAt J) : Books { s with run := s.run.notify, caller := a } :=
  ⟨h.added, h.progress.of_eq rfl rfl rfl rfl (RunAt.inHand_notify _ _) (RunAt.executing_notify _)⟩

lemma Books.of_push (h : s.Books) (job : Option J) (a : CallAt J) :
    Books { s with jobs := s.jobs ++ [job], added := s.added ++ [job], caller := a } := by
  refine ⟨?_, h.progress.of_eq rfl rfl rfl rfl rfl rfl⟩
  dsimp only
  rw [h.added, List.append_assoc]

lemma Barred.callStep (h : s.Barred) (hm : CallStep s t) : t.Barred := by
  cases hm with
  | @addPush job => exact ⟨h.toBooks.of_push job _, fun hp => by cases hp⟩
  | addNotify | stopNotify => exact ⟨h.toBooks.of_notify _, fun hp => by cases hp⟩
  | stopStore =>
    exact ⟨⟨h.added, h.progress.of_eq rfl rfl rfl rfl rfl rfl⟩, fun hp => by cases hp⟩
  | pass hc hh =>
    refine ⟨h.toBooks.of_caller _ _, fun hp => ?_⟩
    cases hp
    rw [holds, Bool.and_eq_true, Option.isNone_iff_eq_none, List.isEmpty_iff] at hh
    exact h.done_of_idle hh.1 hh.2
  | _ => exact ⟨h.toBooks.of_caller _ _, fun hp => by cases hp⟩

lemma framed_wakeRun (hm : s.step .wakeRun = some t) : Framed s t := by
  rw [step] at hm
  split at hm
  · cases hm
    exact ⟨rfl, rfl, List.prefix_rfl, Or.inl rfl⟩
  · cases hm

lemma Barred.step (h : s.Barred) {m : Move J} (hm : s.step m = some t) : t.Barred := by
  cases m with
  | run => exact h.runStep (runStep_of_runMove hm)
  | call => exact h.callStep (callStep_of_callMove hm)
  | wakeRun =>
    rw [ParallelWorker.step] at hm
    split at hm
    · next hr =>
      cases hm
      exact ⟨⟨h.added, h.progress.of_eq rfl rfl rfl rfl (by rw [hr]; rfl) (by rw [hr]; rfl)⟩, h.passed⟩
    · cases hm
  | wakeCaller | addJob | waitIdle | stop =>
    rw [ParallelWorker.step] at hm
    split at hm
    · cases hm
      exact ⟨h.toBooks.of_caller _ _, fun hp => by cases hp⟩
    · cases hm

end ParallelWorker

section Waits

variable {J : Type}

/-- The places of the caller in `wait_idle`. -/
def CallAt.inWait : CallAt J → Bool
  | .waitLock | .check .idle | .block .idle | .waiting .idle | .woken .idle | .unlock .idle => true
  | _ => false

lemma CallAt.inWait_notify {a : CallAt J} (c : Signal) (h : a.inWait = true) :
    (a.notify c).inWait = true := by
  cases a with
  | waiting d =>
    cases d with
    | idle => cases c <;> rfl
    | close => cases h
  | _ => exact h

variable {s t : ParallelWorker J}

lemma ParallelWorker.Framed.inWait (hf : Framed s t) (h : s.caller.inWait = true) :
    t.caller.inWait = true := by
  rcases hf.caller with hc | ⟨c, hc⟩
  · rwa [hc]
  · rw [hc]
    exact CallAt.inWait_notify c h

lemma ParallelWorker.CallStep.of_inWait (hm : CallStep s t) (h : s.caller.inWait = true) :
    (t.caller.inWait = true ∧ t.caller.isOutside = false) ∨
      (s.caller = .unlock .idle ∧ t = { s with mutex := none, caller := .outside }) := by
  cases hm with
  | waitLock => exact Or.inl ⟨rfl, rfl⟩
  | @pass c hc | @sleep c hc | @block c hc | @woken c hc =>
    rw [hc] at h
    cases c with
    | idle => exact Or.inl ⟨rfl, rfl⟩
    | close => cases h
  | waitUnlock hc => exact Or.inr ⟨hc, rfl⟩
  | addLock hc | addPush hc | addNotify hc | addUnlock hc | stopStore hc | stopLock hc | stopNotify hc
  | stopUnlock hc =>
    rw [hc] at h
    cases h

end Waits

/-- How many workers the loop of `wait_all_idle` has left behind. -/
def Control.visited {n : ℕ} : Control n → ℕ
  | .ready | .adding _ => 0
  | .visiting k => k
  | .waiting i => i

namespace ParallelWorkerPool

variable {n : ℕ} {J : Type} {p q : ParallelWorkerPool n J}

structure Inv (p : ParallelWorkerPool n J) : Prop where
  barred : ∀ i, (p.workers i).Barred
  done : ∀ i, i.val < p.control.visited → (p.workers i).Done
  inWait : ∀ i, p.control = .waiting i → (p.workers i).caller.inWait = true

lemma inv_start (garbage : Fin n → Option J) : (start garbage).Inv where
  barred i := ParallelWorker.barred_start (garbage i)
  done _ hi := absurd hi (Nat.not_lt_zero _)
  inWait _ hi := by cases hi

lemma Inv.set (h : p.Inv) {i : Fin n} {c : Control n} {w : ParallelWorker J} (hw : w.Barred)
    (hold : ∀ j, j ≠ i → (j.val < c.visited → j.val < p.control.visited) ∧
      (c = .waiting j → p.control = .waiting j))
    (hdone : i.val < c.visited → w.Done) (hwait : c = .waiting i → w.caller.inWait = true) :
    (p.set i c w).Inv where
  barred j := by
    by_cases hj : j = i
    · rw [hj, set_workers_self]
      exact hw
    · rw [set_workers_of_ne p hj]
      exact h.barred j
  done j hc := by
    by_cases hj : j = i
    · rw [hj] at hc ⊢
      rw [set_workers_self]
      exact hdone hc
    · rw [set_workers_of_ne p hj]
      exact h.done j ((hold j hj).1 hc)
  inWait j hc := by
    by_cases hj : j = i
    · rw [hj] at hc ⊢
      rw [set_workers_self]
      exact hwait hc
    · rw [set_workers_of_ne p hj]
      exact h.inWait j ((hold j hj).2 hc)

lemma Inv.framed (h : p.Inv) {i : Fin n} {w : ParallelWorker J} (hw : w.Barred)
    (hf : ParallelWorker.Framed (p.workers i) w) : (p.set i p.control w).Inv :=
  h.set hw (fun _ _ => ⟨id, id⟩) (fun hi => hf.done hw.toBooks (h.done i hi))
    fun hi => hf.inWait (h.inWait i hi)

lemma Inv.set_unvisited (h : p.Inv) {i : Fin n} {c : Control n} {w : ParallelWorker J} (hw : w.Barred)
    (hc : c = .ready ∨ ∃ j, c = .adding j) : (p.set i c w).Inv := by
  have hzero : c.visited = 0 := by
    rcases hc with rfl | ⟨j, rfl⟩ <;> rfl
  have hwaits : ∀ j, c ≠ .waiting j := by
    rcases hc with rfl | ⟨j, rfl⟩ <;> exact fun _ hj => by cases hj
  refine h.set hw (fun j _ => ⟨fun hj => ?_, fun hj => absurd hj (hwaits j)⟩) (fun hi => ?_)
    fun hi => absurd hi (hwaits i)
  · exact absurd (hzero ▸ hj) (Nat.not_lt_zero _)
  · exact absurd (hzero ▸ hi) (Nat.not_lt_zero _)

lemma Inv.controlMove (h : p.Inv) (hm : p.controlMove = some q) : q.Inv := by
  rw [ParallelWorkerPool.controlMove] at hm
  cases hc : p.control with
  | ready =>
    simp only [hc] at hm
    cases hm
  | adding i =>
    simp only [hc] at hm
    obtain ⟨w, hw, rfl⟩ := Option.map_eq_some_iff.mp hm
    apply h.set_unvisited ((h.barred i).step hw)
    split
    · exact Or.inl rfl
    · exact Or.inr ⟨i, rfl⟩
  | visiting k =>
    simp only [hc] at hm
    split at hm
    · next hk =>
      obtain ⟨w, hw, rfl⟩ := Option.map_eq_some_iff.mp hm
      refine h.set ((h.barred _).step hw) (fun j hj => ⟨fun hlt => ?_, fun hw => ?_⟩)
        (fun hlt => absurd hlt (lt_irrefl k)) fun _ => ?_
      · rw [hc]
        exact hlt
      · exact absurd (Control.waiting.inj hw).symm hj
      · rw [ParallelWorker.step] at hw
        split at hw
        · cases hw
          rfl
        · cases hw
    · cases hm
      exact ⟨h.barred, fun j hj => absurd hj (Nat.not_lt_zero _), fun j hj => by cases hj⟩
  | waiting i =>
    simp only [hc] at hm
    obtain ⟨w, hw, rfl⟩ := Option.map_eq_some_iff.mp hm
    have hb := (h.barred i).step hw
    rcases (ParallelWorker.callStep_of_callMove hw).of_inWait (h.inWait i hc) with ⟨hin, hout⟩ | ⟨hpass, rfl⟩
    · rw [hout]
      refine h.set hb (fun j hj => ⟨fun hlt => ?_, fun hw => ?_⟩) (fun hlt => absurd hlt (lt_irrefl i.val))
        fun _ => hin
      · rw [hc]
        exact hlt
      · exact absurd (Control.waiting.inj hw).symm hj
    · refine h.set hb (fun j hj => ⟨fun hlt => ?_, fun hw => by cases hw⟩) (fun _ => (h.barred i).passed hpass)
        fun hw => by cases hw
      rw [hc]
      exact lt_of_le_of_ne (Nat.le_of_lt_succ hlt) fun he => hj (Fin.ext he)

lemma Inv.step (h : p.Inv) {m : Move n J} (hm : p.step m = some q) : q.Inv := by
  cases m with
  | run i =>
    obtain ⟨w, hw, rfl⟩ := Option.map_eq_some_iff.mp hm
    exact h.framed ((h.barred i).step hw) (ParallelWorker.runStep_of_runMove hw).framed
  | wakeRun i =>
    obtain ⟨w, hw, rfl⟩ := Option.map_eq_some_iff.mp hm
    exact h.framed ((h.barred i).step hw) (ParallelWorker.framed_wakeRun hw)
  | control => exact h.controlMove hm
  | wakeControl =>
    rw [ParallelWorkerPool.step] at hm
    split at hm
    · next i hc =>
      obtain ⟨w, hw, rfl⟩ := Option.map_eq_some_iff.mp hm
      refine h.set ((h.barred i).step hw) (fun _ _ => ⟨id, id⟩) (fun hlt => ?_) fun _ => ?_
      · rw [hc] at hlt
        exact absurd hlt (lt_irrefl i.val)
      · have hin := h.inWait i hc
        rw [ParallelWorker.step] at hw
        split at hw
        · next c hcall =>
          cases hw
          rw [hcall] at hin
          cases c with
          | idle => rfl
          | close => cases hin
        · cases hw
    · cases hm
  | addJob job idx =>
    rw [ParallelWorkerPool.step] at hm
    split at hm
    · rw [ParallelWorkerPool.addJob] at hm
      split at hm
      · cases hm
        exact h
      · split at hm
        · obtain ⟨w, hw, rfl⟩ := Option.map_eq_some_iff.mp hm
          exact h.set_unvisited ((h.barred _).step hw) (Or.inr ⟨_, rfl⟩)
        · cases hm
    · cases hm
  | waitAllIdle =>
    rw [ParallelWorkerPool.step] at hm
    split at hm
    · cases hm
      rw [ParallelWorkerPool.waitAllIdle]
      split
      · exact h
      · exact ⟨h.barred, fun j hj => absurd hj (Nat.not_lt_zero _), fun j hj => by cases hj⟩
    · cases hm

end ParallelWorkerPool

open ParallelWorkerPool in
/-- After any moves of the threads, each worker has begun an initial part of the jobs added to it, in
their order. When `wait_all_idle` has left the last worker behind, every job has been executed. -/
theorem wait_all_idle_is_barrier {n : ℕ} {J : Type} [DecidableEq J] (garbage : Fin n → Option J)
    (ms : List (Move n J)) (p : ParallelWorkerPool n J)
    (h : Interleave.after ParallelWorkerPool.step (start garbage) ms = some p) :
    (∀ i, (p.workers i).begun <+: (p.workers i).added.reduceOption) ∧
      (∀ job, ∑ i, (p.workers i).begun.count job ≤ ∑ i, (p.workers i).added.count (some job)) ∧
      ∀ k, p.control = .visiting k → n ≤ k →
        ∀ i, (p.workers i).finished = (p.workers i).added.reduceOption := by
  have hinv : p.Inv := Interleave.after_inv (fun _ _ _ hq hm => hq.step hm) (inv_start garbage) h
  have hbegun : ∀ i, (p.workers i).begun <+: (p.workers i).added.reduceOption := fun i =>
    (hinv.barred i).begun_initial
  refine ⟨hbegun, fun job => ?_, fun k hc hk i => ?_⟩
  · apply Finset.sum_le_sum
    intro i _
    calc (p.workers i).begun.count job ≤ (p.workers i).added.reduceOption.count job :=
          (hbegun i).sublist.count_le job
      _ = (p.workers i).added.count (some job) := List.count_filterMap
  · apply hinv.done i
    rw [hc]
    exact i.isLt.trans_le hk

namespace Sample

/-- Two jobs for two workers, and a call of `wait_all_idle` that sleeps until the first has its job
behind it. -/
def untilAsleep : List (ParallelWorkerPool.Move 2 ℕ) :=
  [.addJob (some 7) 0] ++ List.replicate 4 .control ++ [.addJob (some 8) 1] ++ List.replicate 4 .control ++
    [.waitAllIdle] ++ List.replicate 4 .control

def twoJobs : List (ParallelWorkerPool.Move 2 ℕ) :=
  untilAsleep ++ List.replicate 17 (.run 0) ++ List.replicate 7 .control ++ List.replicate 17 (.run 1) ++
    List.replicate 3 .control

end Sample

open ParallelWorkerPool Sample in
theorem two_jobs_behind_barrier :
    ((Interleave.after ParallelWorkerPool.step (start fun _ => none) untilAsleep).map fun p =>
        (p.control, (p.workers 0).caller, (p.workers 0).begun)) =
      some (.waiting 0, .waiting .idle, []) ∧
    ∃ p, Interleave.after ParallelWorkerPool.step (start fun _ => none) twoJobs = some p ∧
      (p.workers 0).added = [some 7] ∧ (p.workers 1).added = [some 8] ∧
      ∀ i, (p.workers i).finished = (p.workers i).added.reduceOption := by
  refine ⟨by decide +kernel, ?_⟩
  have hview : (Interleave.after ParallelWorkerPool.step (start fun _ => none) twoJobs).map
      (fun p => (p.control, (p.workers 0).added, (p.workers 1).added)) =
      some (.visiting 2, [some 7], [some 8]) := by
    decide +kernel
  obtain ⟨p, hp, hv⟩ := Option.map_eq_some_iff.mp hview
  obtain ⟨hc, hadded⟩ := Prod.mk.inj hv
  obtain ⟨hfirst, hsecond⟩ := Prod.mk.inj hadded
  exact ⟨p, hp, hfirst, hsecond, (wait_all_idle_is_barrier _ _ p hp).2.2 2 hc le_rfl⟩

end PtPerf.Worker
