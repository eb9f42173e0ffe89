import PtPerf.Worker.ParallelWorker

/-! The `ParallelWorkerPool`: its workers, and the thread that adds jobs and waits for all of them. -/

namespace PtPerf.Worker

/-- Where the controlling thread is: between two calls, in `add_job` of a worker, in the loop of
`wait_all_idle` before worker `k`, or in `wait_idle` of a worker. -/
inductive Control (n : ℕ)
  | ready
  | adding (i : Fin n)
  | visiting (k : ℕ)
  | waiting (i : Fin n)
  deriving DecidableEq

structure ParallelWorkerPool (n : ℕ) (J : Type) where
  alive : Bool
  workers : Fin n → ParallelWorker J
  control : Control n

namespace ParallelWorkerPool

variable {n : ℕ} {J : Type}

def start (garbage : Fin n → Option J) : ParallelWorkerPool n J where
  alive := true
  workers i := .start (garbage i)
  control := .ready

def set (p : ParallelWorkerPool n J) (i : Fin n) (c : Control n) (w : ParallelWorker J) :
    ParallelWorkerPool n J :=
  { p with workers := Function.update p.workers i w, control := c }

lemma set_workers_self (p : ParallelWorkerPool n J) (i : Fin n) (c : Control n) (w : ParallelWorker J) :
    (p.set i c w).workers i = w := by
  dsimp only [set]
  rw [Function.update_self]

lemma set_workers_of_ne (p : ParallelWorkerPool n J) {i j : Fin n} (h : j ≠ i) (c : Control n)
    (w : ParallelWorker J) : (p.set i c w).workers j = p.workers j := by
  dsimp only [set]
  rw [Function.update_of_ne h]

def addJob (p : ParallelWorkerPool n J) (job : Option J) (idx : UInt32) : Option (ParallelWorkerPool n J) :=
  if !p.alive then some p
  else if h : 0 < n then
    let i : Fin n := ⟨idx.toNat % n, Nat.mod_lt _ h⟩
    ((p.workers i).step (.addJob job)).map (p.set i (.adding i))
  -- a remainder by zero
  else none

def waitAllIdle (p : ParallelWorkerPool n J) : ParallelWorkerPool n J :=
  if !p.alive then p else { p with control := .visiting 0 }

def controlMove (p : ParallelWorkerPool n J) : Option (ParallelWorkerPool n J) :=
  match p.control with
  | .ready => none
  | .adding i =>
    ((p.workers i).step .call).map fun w => p.set i (if w.caller.isOutside then .ready else .adding i) w
  | .visiting k =>
    if h : k < n then
      ((p.workers ⟨k, h⟩).step .waitIdle).map (p.set ⟨k, h⟩ (.waiting ⟨k, h⟩))
    else some { p with control := .ready }
  | .waiting i =>
    ((p.workers i).step .call).map fun w =>
      p.set i (if w.caller.isOutside then .visiting (i + 1) else .waiting i) w

inductive Move (n : ℕ) (J : Type)
  | run (i : Fin n)
  | wakeRun (i : Fin n)
  | control
  | wakeControl
  | addJob (job : Option J) (idx : UInt32)
  | waitAllIdle

def step (p : ParallelWorkerPool n J) : Move n J → Option (ParallelWorkerPool n J)
  | .run i => ((p.workers i).step .run).map (p.set i p.control)
  | .wakeRun i => ((p.workers i).step .wakeRun).map (p.set i p.control)
  | .control => p.controlMove
  | .wakeControl =>
    match p.control with
    | .waiting i => ((p.workers i).step .wakeCaller).map (p.set i p.control)
    | _ => none
  | .addJob job idx =>
    match p.control with
    | .ready => p.addJob job idx
    | _ => none
  | .waitAllIdle =>
    match p.control with
    | .ready => some p.waitAllIdle
    | _ => none

end ParallelWorkerPool

end PtPerf.Worker
