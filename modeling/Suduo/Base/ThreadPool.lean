/-
# `ThreadPool`: workers, producers and `stop`

`base/ThreadPool.cpp` of a pool that has been started.  `run`, `get_next_task` and the first half of
`stop` are locked sections of one monitor with two condition variables; around it stands
`thread_func`, which reads `_running` WITHOUT the mutex before each `get_next_task` and runs what it
gets outside of it.  Tasks, the code before the loop (`_thread_init_task`) and every other thread may
call `run` and `stop`; that `stop` then joins the workers only keeps its caller from going on.

`_running` ends all waiting: a test lets everybody through when it is false, and `stop` wakes
everybody as it clears it.  So the units of the monitor library count only while the pool is running
(`avail`), and once it is not, nobody sleeps or is about to (`Kept.stopped`).

A task is named by its place in the order of dequeueing, so two runs of equal tasks are told apart.
-/
import Suduo.Lib.Monitor
import Mathlib.Tactic.Basic

namespace Suduo.ThreadPool

open Lib

/-! ## 1. The monitor -/

variable {τ : Type}

/-- The condition variables. -/
inductive Cond
  | notEmpty
  | notFull
  deriving DecidableEq, Repr

/-- The locked sections. -/
inductive Op (τ : Type)
  | run (task : τ)
  | getNextTask
  | stop
  deriving DecidableEq, Repr

/-- What the mutex protects.  `got` is the number of the task a thread has in its hands, as returned
by `get_next_task`; `enqueued` and `dequeued` are history. -/
structure Data (τ : Type) where
  taskQueue : List τ
  running : Bool
  got : Thread → Option Nat
  enqueued : List τ
  dequeued : List τ

namespace Data

/-- `is_full`, with `_max_queue_size`, which is set before the start. -/
def isFull (maxQueueSize : Nat) (d : Data τ) : Bool :=
  0 < maxQueueSize && maxQueueSize ≤ d.taskQueue.length

/-- `run`, after the loop. -/
def run (d : Data τ) (task : τ) : Data τ :=
  if d.running then
    { d with taskQueue := d.taskQueue ++ [task], enqueued := d.enqueued ++ [task] }
  else d

/-- `get_next_task`, after the loop.  A stopped pool hands out what is left in the queue, and
nothing when it is empty. -/
def getNextTask (d : Data τ) (t : Thread) : Data τ :=
  match d.taskQueue with
  | task :: rest =>
    { d with taskQueue := rest, dequeued := d.dequeued ++ [task],
             got := Function.update d.got t (some d.dequeued.length) }
  | [] => { d with got := Function.update d.got t none }

/-- `stop`, up to the joins. -/
def stop (d : Data τ) : Data τ := { d with running := false }

end Data

/-- The `while` loops of `run` and `get_next_task`. -/
def blocked (m : Nat) : Op τ → Data τ → Option Cond
  | .run _, d => if d.isFull m && d.running then some .notFull else none
  | .getNextTask, d => if d.taskQueue.isEmpty && d.running then some .notEmpty else none
  | .stop, _ => none

def monitor (τ : Type) (m : Nat) : Monitor Unit Cond (Data τ) (Op τ) where
  mutex := fun _ => ()
  condMutex := fun _ => ()
  blocked := blocked m
  body := fun t op d =>
    match op with
    | .run task => d.run task
    | .getNextTask => d.getNextTask t
    | .stop => d.stop
  signals := fun op d =>
    match op with
    | .run _ => if d.running then [.notify .notEmpty] else []
    | .getNextTask => if !d.taskQueue.isEmpty && 0 < m then [.notify .notFull] else []
    | .stop => [.notifyAll .notEmpty, .notifyAll .notFull]
  blocked_mutex := fun _ => rfl
  blocked_unique := by
    rintro (_ | _ | _) d d' c c' h h' <;> grind [blocked]

section

variable (m : Nat) (t : Thread) (task : τ) (d : Data τ)

@[simp] theorem body_run : (monitor τ m).body t (.run task) d = d.run task := rfl

@[simp] theorem body_getNextTask : (monitor τ m).body t .getNextTask d = d.getNextTask t := rfl

@[simp] theorem body_stop : (monitor τ m).body t .stop d = d.stop := rfl

end

/-! ## 2. The pool -/

/-- Where a thread of the pool is in `thread_func`. -/
inductive Worker
  /-- A thread that is not of the pool. -/
  | none
  /-- In `_thread_init_task`. -/
  | starting
  /-- At `while (_running)`. -/
  | head
  /-- `_running` was true, the call of `get_next_task` is next. -/
  | calling
  | fetching
  /-- In `task()`. -/
  | running (k : Nat)
  | exited
  deriving DecidableEq, Repr

structure State (τ : Type) where
  /-- `_thread_pool.size()`. -/
  threads : Nat
  pool : Monitor.State Unit Cond (Data τ) (Op τ)
  worker : Thread → Worker
  /-- The tasks that were run by workers, by their numbers. -/
  executed : List Nat
  /-- The tasks that `run` has run itself. -/
  direct : List τ

inductive Label (τ : Type)
  /-- A step in one of the locked sections. -/
  | locked (l : Monitor.Label (Op τ))
  | initDone (t : Thread)
  | testRunning (t : Thread)
  /-- `get_next_task` has returned, and what it returned is called unless it is empty. -/
  | callTask (t : Thread)
  | taskReturns (t : Thread)
  /-- `run` on a pool without threads. -/
  | runDirectly (t : Thread) (task : τ)

namespace State

/-- A started pool of `n` workers, the threads below `n`. -/
def init (n : Nat) : State τ where
  threads := n
  pool := .init ⟨[], true, fun _ => none, [], []⟩
  worker := fun t => if t < n then .starting else .none
  executed := []
  direct := []

/-- The thread runs code of the user. -/
def userCode (s : State τ) (t : Thread) : Bool :=
  match s.worker t with
  | .none | .starting | .running _ => true
  | .head | .calling | .fetching | .exited => false

/-- Who may begin which section. -/
def allows (s : State τ) : Monitor.Label (Op τ) → Bool
  | .lock t .getNextTask => s.worker t == .calling
  | .lock t (.run _) => s.userCode t && 0 < s.threads
  | .lock t .stop => s.userCode t
  | _ => true

def setWorker (s : State τ) (t : Thread) (w : Worker) : State τ :=
  { s with worker := Function.update s.worker t w }

/-- The worker has done with the task in its hands. -/
def clearGot (s : State τ) (t : Thread) : State τ :=
  { s with pool := { s.pool with
      data := { s.pool.data with got := Function.update s.pool.data.got t none } } }

/-- A step, with `_max_queue_size` and the test for an empty `std::function`. -/
def step (m : Nat) (callable : τ → Bool) (s : State τ) : Label τ → Option (State τ)
  | .locked l =>
    if s.allows l then
      ((monitor τ m).step s.pool l).map fun pool =>
        match l with
        | .lock t .getNextTask => { s with pool := pool }.setWorker t .fetching
        | _ => { s with pool := pool }
    else none
  | .initDone t =>
    match s.worker t, s.pool.pc t with
    | .starting, .outside => some (s.setWorker t .head)
    | _, _ => none
  | .testRunning t =>
    if s.worker t = .head then
      some (s.setWorker t (if s.pool.data.running then .calling else .exited))
    else none
  | .callTask t =>
    match s.worker t, s.pool.pc t with
    | .fetching, .outside =>
      match s.pool.data.got t with
      | some k =>
        if (s.pool.data.dequeued[k]?).any callable then
          some { (s.clearGot t).setWorker t (.running k) with executed := s.executed ++ [k] }
        else some ((s.clearGot t).setWorker t .head)
      | none => some (s.setWorker t .head)
    | _, _ => none
  | .taskReturns t =>
    match s.worker t, s.pool.pc t with
    | .running _, .outside => some (s.setWorker t .head)
    | _, _ => none
  | .runDirectly t task =>
    match s.userCode t, s.threads, s.pool.pc t with
    | true, 0, .outside => some { s with direct := s.direct ++ [task] }
    | _, _, _ => none

end State

/-- What a step does: it is a step of the monitor, or a worker calls the task it has got, or lets
it go; or it changes neither the queue nor what was executed. -/
inductive Step (m : Nat) (s : State τ) : State τ → Prop
  | locked (l : Monitor.Label (Op τ)) (s' : State τ)
      (hst : (monitor τ m).step s.pool l = some s'.pool) (he : s'.executed = s.executed) : Step m s s'
  | call (t : Thread) (k : Nat) (s' : State τ) (hg : s.pool.data.got t = some k)
      (hp : s'.pool = (s.clearGot t).pool) (he : s'.executed = s.executed ++ [k]) : Step m s s'
  | drop (t : Thread) (s' : State τ) (hp : s'.pool = (s.clearGot t).pool)
      (he : s'.executed = s.executed) : Step m s s'
  | other (s' : State τ) (hp : s'.pool = s.pool) (he : s'.executed = s.executed) : Step m s s'

/-- **Inversion of a step.**  A step of the monitor, or one of a worker between two sections. -/
theorem step_inv {m : Nat} {callable : τ → Bool} {s s' : State τ} {l : Label τ}
    (h : s.step m callable l = some s') : Step m s s' := by
  cases l with
  | locked l =>
    simp only [State.step] at h
    split at h
    · obtain ⟨pool, hst, rfl⟩ := Option.map_eq_some_iff.mp h
      split
      · exact .locked _ _ hst rfl
      · exact .locked _ _ hst rfl
    · cases h
  | initDone t =>
    simp only [State.step] at h
    split at h
    · cases h
      exact .other _ rfl rfl
    · cases h
  | testRunning t =>
    simp only [State.step] at h
    split at h
    · cases h
      exact .other _ rfl rfl
    · cases h
  | callTask t =>
    simp only [State.step] at h
    split at h
    · split at h
      · rename_i k hg
        split at h
        · cases h
          exact .call t k _ hg rfl rfl
        · cases h
          exact .drop t _ rfl rfl
      · cases h
        exact .other _ rfl rfl
    · cases h
  | taskReturns t =>
    simp only [State.step] at h
    split at h
    · cases h
      exact .other _ rfl rfl
    · cases h
  | runDirectly t task =>
    simp only [State.step] at h
    split at h
    · cases h
      exact .other _ rfl rfl
    · cases h

/-! ## 3. Units -/

/-- What a waiter waits for while the pool is running: tasks, or room. -/
def avail (m : Nat) : Cond → Data τ → Nat
  | .notEmpty, d => if d.running then d.taskQueue.length else 0
  | .notFull, d => if d.running then m - d.taskQueue.length else 0

section

variable {m : Nat} {d : Data τ} {c : Cond} {task : τ}

theorem isFull_iff : d.isFull m = true ↔ 0 < m ∧ m ≤ d.taskQueue.length := by
  simp [Data.isFull]

theorem blocked_run : (monitor τ m).blocked (.run task) d = some c ↔
    c = .notFull ∧ d.isFull m = true ∧ d.running = true := by
  simp only [monitor, blocked]
  split
  · rename_i h
    rw [Bool.and_eq_true] at h
    simp [h, eq_comm]
  · rename_i h
    rw [Bool.and_eq_true] at h
    simp [h]

theorem blocked_getNextTask : (monitor τ m).blocked .getNextTask d = some c ↔
    c = .notEmpty ∧ d.taskQueue = [] ∧ d.running = true := by
  simp only [monitor, blocked]
  split
  · rename_i h
    rw [Bool.and_eq_true, List.isEmpty_iff] at h
    simp [h, eq_comm]
  · rename_i h
    rw [Bool.and_eq_true, List.isEmpty_iff] at h
    simp [h]

theorem room_of_unblocked (h : (monitor τ m).blocked (.run task) d = none)
    (hr : d.running = true) : d.isFull m = false := by
  by_contra hf
  rw [blocked_run.mpr ⟨rfl, Bool.not_eq_false _ ▸ hf, hr⟩] at h
  cases h

theorem task_of_unblocked (h : (monitor τ m).blocked .getNextTask d = none)
    (hr : d.running = true) : d.taskQueue ≠ [] := by
  intro he
  rw [blocked_getNextTask.mpr ⟨rfl, he, hr⟩] at h
  cases h

theorem mayWait_run (h : (monitor τ m).MayWait (.run task) c) : c = .notFull ∧ 0 < m := by
  obtain ⟨d, hd⟩ := h
  obtain ⟨hc, hf, -⟩ := blocked_run.mp hd
  exact ⟨hc, (isFull_iff.mp hf).1⟩

theorem mayWait_getNextTask (h : (monitor τ m).MayWait .getNextTask c) : c = .notEmpty := by
  obtain ⟨d, hd⟩ := h
  exact (blocked_getNextTask.mp hd).1

theorem not_mayWait_stop : ¬ (monitor τ m).MayWait .stop c := by
  rintro ⟨d, hd⟩
  cases hd

theorem avail_of_blocked {op : Op τ} (h : (monitor τ m).blocked op d = some c) :
    avail m c d = 0 := by
  cases op with
  | run task =>
    obtain ⟨rfl, hf, hr⟩ := blocked_run.mp h
    have hle := (isFull_iff.mp hf).2
    simp only [avail, hr, ↓reduceIte]
    omega
  | getNextTask =>
    obtain ⟨rfl, he, hr⟩ := blocked_getNextTask.mp h
    simp [avail, he]
  | stop => cases h

/-- **Every section accounts for its units**, while the pool is running: `run` takes room and
adds a task, `get_next_task` takes a task and adds room, each with a signal.  `stop` leaves no
units at all, since without `_running` nobody waits for any. -/
theorem accounts (t : Thread) {op : Op τ} (hb : (monitor τ m).blocked op d = none) :
    (monitor τ m).Accounts (avail m) t op d := by
  cases op with
  | run task =>
    by_cases hr : d.running = true
    · have hfull := room_of_unblocked hb hr
      have hrun : d.run task = { d with taskQueue := d.taskQueue ++ [task],
                                        enqueued := d.enqueued ++ [task] } := if_pos hr
      refine ⟨fun c hc => ?_, fun c hc => ⟨rfl, ?_⟩⟩
      · obtain ⟨rfl, -⟩ := mayWait_run hc
        simp only [body_run, hrun, avail, hr, ↓reduceIte, List.length_append,
          List.length_singleton]
        omega
      · cases c with
        | notEmpty =>
          refine ⟨?_, .notify .notEmpty, by simp [monitor, hr], rfl⟩
          simp [hrun, avail, hr]
        | notFull =>
          simp only [body_run, hrun, avail, hr, ↓reduceIte, List.length_append,
            List.length_singleton] at hc
          omega
    · have hrun : d.run task = d := if_neg hr
      refine ⟨fun c hc => ?_, fun c hc => ?_⟩
      · obtain ⟨rfl, -⟩ := mayWait_run hc
        simp [hrun, avail, hr]
      · rw [body_run, hrun] at hc
        exact absurd hc (Nat.lt_irrefl _)
  | getNextTask =>
    cases hq : d.taskQueue with
    | nil =>
      have hr : d.running = false := by
        by_contra hr
        exact task_of_unblocked hb (Bool.not_eq_false _ ▸ hr) hq
      refine ⟨fun c hc => ?_, fun c hc => ?_⟩
      · obtain rfl := mayWait_getNextTask hc
        simp [Data.getNextTask, hq, avail]
      · cases c <;> simp [Data.getNextTask, hq, avail, hr] at hc
    | cons task rest =>
      refine ⟨fun c hc => ?_, fun c hc => ⟨rfl, ?_⟩⟩
      · obtain rfl := mayWait_getNextTask hc
        simp only [body_getNextTask, Data.getNextTask, hq, avail, List.length_cons]
        split <;> omega
      · cases c with
        | notEmpty =>
          simp only [body_getNextTask, Data.getNextTask, hq, avail, List.length_cons] at hc
          split at hc <;> omega
        | notFull =>
          simp only [body_getNextTask, Data.getNextTask, hq, avail, List.length_cons] at hc ⊢
          split at hc
          · have hm : 0 < m := by omega
            refine ⟨?_, .notify .notFull, by simp [monitor, hq, hm], rfl⟩
            split <;> omega
          · omega
  | stop =>
    refine ⟨fun c hc => absurd hc not_mayWait_stop, fun c hc => ?_⟩
    cases c <;> simp [Data.stop, avail] at hc

/-- A section keeps the order, and the bound.  That the test has let it through is used once, for
the bound: `run` finds room, or the pool is stopped and it adds nothing. -/
theorem body_fifo (t : Thread) {op : Op τ} (hb : (monitor τ m).blocked op d = none)
    (h : d.dequeued ++ d.taskQueue = d.enqueued)
    (hm : 0 < m → d.taskQueue.length ≤ m) :
    let d' := (monitor τ m).body t op d
    d'.dequeued ++ d'.taskQueue = d'.enqueued ∧ (0 < m → d'.taskQueue.length ≤ m) := by
  cases op with
  | run task =>
    simp only [body_run, Data.run]
    split
    · rename_i hr
      have hfull := room_of_unblocked hb hr
      refine ⟨by rw [← List.append_assoc, h], fun hpos => ?_⟩
      have hlt : ¬ m ≤ d.taskQueue.length := fun hle => by
        rw [isFull_iff.mpr ⟨hpos, hle⟩] at hfull
        cases hfull
      simp only [List.length_append, List.length_singleton]
      omega
    · exact ⟨h, hm⟩
  | getNextTask =>
    cases hq : d.taskQueue with
    | nil =>
      simp only [body_getNextTask, Data.getNextTask, hq]
      rw [hq] at h
      exact ⟨h, fun _ => Nat.zero_le _⟩
    | cons task rest =>
      simp only [body_getNextTask, Data.getNextTask, hq]
      rw [hq] at h hm
      refine ⟨by rw [List.append_assoc]; exact h, fun hpos => ?_⟩
      have := hm hpos
      rw [List.length_cons] at this
      omega
  | stop => exact ⟨h, hm⟩

/-- Only `stop` touches `_running`, and clears it; `start` has set it before there was a worker. -/
theorem running_body (t : Thread) {op : Op τ} (h : ((monitor τ m).body t op d).running = true) :
    d.running = true ∧ op ≠ .stop := by
  cases op with
  | run task =>
    simp only [body_run, Data.run] at h
    split at h <;> exact ⟨h, by simp⟩
  | getNextTask =>
    cases hq : d.taskQueue <;> simp [Data.getNextTask, hq] at h <;> exact ⟨h, by simp⟩
  | stop => cases h

end

/-! ## 4. What the sections keep -/

/-- What every locked step keeps.  The last field is what the units leave out, the stopped pool. -/
structure PoolKept (m : Nat) (p : Monitor.State Unit Cond (Data τ) (Op τ)) : Prop where
  orderly : (monitor τ m).Orderly p
  tested : (monitor τ m).Tested p
  served : Monitor.Served (avail m) p
  fifo : p.data.dequeued ++ p.data.taskQueue = p.data.enqueued
  bounded : 0 < m → p.data.taskQueue.length ≤ m
  /-- Once it is stopped, nobody sleeps, and nobody is about to. -/
  stopped : p.data.running = false →
    (∀ c, p.waiters c = []) ∧ ∀ t op c, p.pc t ≠ .toWait op c

variable {m : Nat} {p p' : Monitor.State Unit Cond (Data τ) (Op τ)}

/-- **After `stop`'s section nobody sleeps and nobody is about to.**  Either the pool was stopped
before and the test lets everybody through, or the step is the body of `stop`: it wakes all who
sleep, and as it holds the mutex nobody is between a test and a `wait`. -/
theorem PoolKept.stopped_step (h : PoolKept m p) {l : Monitor.Label (Op τ)}
    (hst : (monitor τ m).step p l = some p') (hr : p'.data.running = false) :
    (∀ c, p'.waiters c = []) ∧ ∀ t op c, p'.pc t ≠ .toWait op c := by
  have hmove : ∀ {t : Thread} {q : Monitor.Pc Cond (Op τ)}, p.data.running = false →
      (∀ op c, q ≠ .toWait op c) → ∀ u op c, Function.update p.pc t q u ≠ .toWait op c := by
    intro t q hrun hq u op c
    rcases eq_or_ne u t with rfl | hne
    · rw [Function.update_self]
      exact hq op c
    · rw [Function.update_of_ne hne]
      exact (h.stopped hrun).2 u op c
  cases Monitor.step_inv hst with
  | lock t op hpc hfree => exact ⟨(h.stopped hr).1, hmove hr (by simp)⟩
  | pass t op hpc hb => exact ⟨(h.stopped hr).1, hmove hr (by simp)⟩
  | block t op c hpc hb =>
    -- the test lets everybody through
    have hzero : p.data.running = true := by
      cases op with
      | run task => exact (blocked_run.mp hb).2.2
      | getNextTask => exact (blocked_getNextTask.mp hb).2.2
      | stop => cases hb
    exact absurd (hzero.symm.trans hr) (by simp)
  | wait t op c hpc => exact absurd hpc ((h.stopped hr).2 t op c)
  | wake t op c hpc =>
    have hmem : t ∈ p.waiters c := (h.orderly.waiters t c).mpr (by rw [hpc]; rfl)
    rw [(h.stopped hr).1 c] at hmem
    cases hmem
  | relock t op hpc hfree => exact ⟨(h.stopped hr).1, hmove hr (by simp)⟩
  | unlock t op hpc => exact ⟨(h.stopped hr).1, hmove hr (by simp)⟩
  | unsetHolder t op hpc => exact ⟨(h.stopped hr).1, hmove hr (by simp)⟩
  | operate t op woken hpc hw =>
    -- who is at `wait` afterwards was there before, under the mutex that `t` holds
    have hnobody : ∀ u op' c, ((monitor τ m).operate p t op woken).pc u ≠ .toWait op' c := by
      intro u op' c hu
      obtain ⟨hut, hu⟩ := Monitor.operate_pc_inv hu (by simp)
      have hin : (p.pc t).inside = some op := by
        rw [hpc]
        rfl
      have hin' : (p.pc u).inside = some op' := by
        rw [hu]
        rfl
      exact hut (h.orderly.exclusive hin' hin rfl)
    refine ⟨fun c => ?_, hnobody⟩
    by_cases hstop : op = .stop
    · subst hstop
      have hall : ∀ u ∈ p.waiters c, u ∈ woken := by
        cases c with
        | notEmpty => exact hw.2 (.notifyAll .notEmpty) (by simp [monitor])
        | notFull => exact hw.2 (.notifyAll .notFull) (by simp [monitor])
      change (p.waiters c).filter (· ∉ woken) = []
      exact List.filter_eq_nil_iff.mpr fun u hu => by simpa using hall u hu
    · have hrun : p.data.running = false := by
        cases op with
        | run task =>
          change (p.data.run task).running = false at hr
          unfold Data.run at hr
          split at hr <;> exact hr
        | getNextTask =>
          change (p.data.getNextTask t).running = false at hr
          cases hq : p.data.taskQueue <;> simpa [Data.getNextTask, hq] using hr
        | stop => exact absurd rfl hstop
      change (p.waiters c).filter (· ∉ woken) = []
      rw [(h.stopped hrun).1 c, List.filter_nil]

theorem PoolKept.step (h : PoolKept m p) {l : Monitor.Label (Op τ)}
    (hst : (monitor τ m).step p l = some p') : PoolKept m p' := by
  have hserved : Monitor.Served (avail m) p' := by
    refine Monitor.step_served (fun _ _ _ => avail_of_blocked) h.served hst ?_
    intro t op woken _ hpc hw
    exact Monitor.served_operate h.orderly h.served hpc hw (accounts t (h.tested t op hpc))
  obtain ⟨hfifo, hbound⟩ : p'.data.dequeued ++ p'.data.taskQueue = p'.data.enqueued ∧
      (0 < m → p'.data.taskQueue.length ≤ m) := by
    rcases Monitor.step_data hst with hd | ⟨t, op, woken, -, hpc, hd⟩
    · rw [hd]
      exact ⟨h.fifo, h.bounded⟩
    · rw [hd]
      exact body_fifo t (h.tested t op hpc) h.fifo h.bounded
  refine ⟨Monitor.step_orderly h.orderly hst, ?_, hserved, hfifo, hbound, h.stopped_step hst⟩
  exact Monitor.step_tested h.orderly h.tested hst fun _ _ _ _ _ _ _ _ hm => absurd rfl hm

/-- The hands of the workers are nobody else's business. -/
theorem PoolKept.setGot (h : PoolKept m p) (got : Thread → Option Nat) :
    PoolKept m { p with data := { p.data with got := got } } := by
  refine ⟨⟨h.orderly.owner, h.orderly.waiters, h.orderly.waits, h.orderly.waitersNodup,
    h.orderly.pendingNodup, h.orderly.pending⟩, ?_, ?_, h.fifo, h.bounded, h.stopped⟩
  · intro t op hpc
    have hb := h.tested t op hpc
    cases op <;> exact hb
  · intro c hc
    have hs := h.served c hc
    cases c <;> exact hs

/-! ## 5. Every task once -/

/-- The tasks in the workers' hands are dequeued, each in one pair of hands, and none is executed
yet; what is executed is dequeued, and executed once.  A task is its number here, so the same
function submitted twice is two tasks. -/
structure Once (d : Data τ) (executed : List Nat) : Prop where
  got : ∀ t k, d.got t = some k → k < d.dequeued.length ∧ k ∉ executed
  hands : ∀ t u k, d.got t = some k → d.got u = some k → t = u
  old : ∀ k ∈ executed, k < d.dequeued.length
  nodup : executed.Nodup

variable {d : Data τ} {executed : List Nat}

/-- Hands that are emptied: the task in them has been counted among the called ones. -/
theorem Once.clear (h : Once d executed) (t : Thread) :
    Once { d with got := Function.update d.got t none } executed := by
  have hold : ∀ u k, Function.update d.got t none u = some k → d.got u = some k := by
    intro u k hu
    rcases eq_or_ne u t with rfl | hne
    · rw [Function.update_self] at hu
      cases hu
    · rwa [Function.update_of_ne hne] at hu
  exact ⟨fun u k hu => h.got u k (hold u k hu),
    fun u v k hu hv => h.hands u v k (hold u k hu) (hold v k hv), h.old, h.nodup⟩

/-- The task in hand is called, and it is called once. -/
theorem Once.call (h : Once d executed) {t : Thread} {k : Nat} (hk : d.got t = some k) :
    Once { d with got := Function.update d.got t none } (executed ++ [k]) := by
  have hclear := h.clear t
  obtain ⟨hlt, hnot⟩ := h.got t k hk
  refine ⟨fun u j hu => ?_, hclear.hands, fun j hj => ?_, ?_⟩
  · obtain ⟨hj, hjnot⟩ := hclear.got u j hu
    refine ⟨hj, fun hmem => ?_⟩
    rcases List.mem_append.mp hmem with hmem | hmem
    · exact hjnot hmem
    · -- `k` was in the hands of `t` only
      obtain rfl := List.mem_singleton.mp hmem
      rcases eq_or_ne u t with rfl | hne
      · simp at hu
      · simp only [Function.update_of_ne hne] at hu
        exact hne (h.hands u t j hu hk)
  · rcases List.mem_append.mp hj with hj | hj
    · exact h.old j hj
    · rwa [List.mem_singleton.mp hj]
  · exact List.Nodup.append h.nodup (List.nodup_singleton k) (by simpa using hnot)

/-- A section hands out at most the next task, which nobody has had before. -/
theorem Once.body (h : Once d executed) (m : Nat) (t : Thread) (op : Op τ) :
    Once ((monitor τ m).body t op d) executed := by
  cases op with
  | run task =>
    rw [body_run, Data.run]
    split
    · exact ⟨h.got, h.hands, h.old, h.nodup⟩
    · exact h
  | getNextTask =>
    cases hq : d.taskQueue with
    | nil =>
      simp only [body_getNextTask, Data.getNextTask, hq]
      have hclear := h.clear t
      exact ⟨hclear.got, hclear.hands, hclear.old, hclear.nodup⟩
    | cons task rest =>
      simp only [body_getNextTask, Data.getNextTask, hq]
      have hlen : (d.dequeued ++ [task]).length = d.dequeued.length + 1 := by simp
      refine ⟨fun u k hu => ?_, fun u v k hu hv => ?_, fun k hk => ?_, h.nodup⟩
      · simp only at hu ⊢
        rw [hlen]
        rcases eq_or_ne u t with rfl | hne
        · rw [Function.update_self] at hu
          cases hu
          exact ⟨Nat.lt_succ_self _, fun hmem => Nat.lt_irrefl _ (h.old _ hmem)⟩
        · rw [Function.update_of_ne hne] at hu
          exact ⟨Nat.lt_succ_of_lt (h.got u k hu).1, (h.got u k hu).2⟩
      · -- the new number is larger than all in hand
        simp only [Function.update_apply] at hu hv
        split at hu <;> split at hv
        · rename_i hut hvt
          rw [hut, hvt]
        · cases hu
          exact absurd (h.got v _ hv).1 (Nat.lt_irrefl _)
        · cases hv
          exact absurd (h.got u _ hu).1 (Nat.lt_irrefl _)
        · exact h.hands u v k hu hv
      · simp only [hlen]
        exact Nat.lt_succ_of_lt (h.old k hk)
  | stop => exact ⟨h.got, h.hands, h.old, h.nodup⟩

/-! ## 6. The pool in every run -/

/-- What every step keeps. -/
structure Kept (m : Nat) (s : State τ) : Prop where
  pool : PoolKept m s.pool
  once : Once s.pool.data s.executed

theorem kept_init (m n : Nat) : Kept m (.init n : State τ) where
  pool :=
    { orderly := Monitor.orderly_init _
      tested := Monitor.tested_init _
      served := Monitor.served_init _
      fifo := rfl
      bounded := fun _ => Nat.zero_le _
      stopped := fun h => by cases h }
  once := ⟨by simp [State.init, Monitor.State.init], by simp [State.init, Monitor.State.init],
    by simp [State.init], by simp [State.init]⟩

theorem step_kept {callable : τ → Bool} {s s' : State τ} {l : Label τ} (h : Kept m s)
    (hst : s.step m callable l = some s') : Kept m s' := by
  cases step_inv hst with
  | locked l s' hl he =>
    refine ⟨h.pool.step hl, ?_⟩
    rw [he]
    rcases Monitor.step_data hl with hd | ⟨t, op, woken, -, -, hd⟩
    · rw [hd]
      exact h.once
    · rw [hd]
      exact h.once.body m t op
  | call t k s' hg hp he =>
    refine ⟨hp ▸ h.pool.setGot _, ?_⟩
    rw [hp, he]
    exact h.once.call hg
  | drop t s' hp he =>
    refine ⟨hp ▸ h.pool.setGot _, ?_⟩
    rw [hp, he]
    exact h.once.clear t
  | other s' hp he =>
    refine ⟨hp ▸ h.pool, ?_⟩
    rw [hp, he]
    exact h.once

/-- `_running`, once cleared, stays so, since no section and no step of a worker sets it. -/
theorem stopped_stays {callable : τ → Bool} {s s' : State τ} {l : Label τ}
    (hst : s.step m callable l = some s') (hr : s.pool.data.running = false) :
    s'.pool.data.running = false := by
  cases step_inv hst with
  | locked l s' hl he =>
    rcases Monitor.step_data hl with hd | ⟨t, op, woken, -, -, hd⟩
    · rw [hd]
      exact hr
    · rw [hd]
      by_contra hrun
      have := (running_body t (Bool.not_eq_false _ ▸ hrun)).1
      rw [hr] at this
      cases this
  | call t k s' hg hp he => rw [hp]; exact hr
  | drop t s' hp he => rw [hp]; exact hr
  | other s' hp he => rw [hp]; exact hr

/-- A waiter sleeps on a running pool: had the pool been stopped, it would have been woken. -/
theorem PoolKept.running_of_waiting (h : PoolKept m p) {t : Thread} {op : Op τ} {c : Cond}
    (hpc : p.pc t = .waiting op c) : p.data.running = true := by
  by_contra hr
  have hmem : t ∈ p.waiters c := (h.orderly.waiters t c).mpr (by rw [hpc]; rfl)
  rw [(h.stopped (Bool.eq_false_iff.mpr hr)).1 c] at hmem
  cases hmem

theorem kept_of_reach {n : Nat} {callable : τ → Bool} {G : State τ → Label τ → Prop} {s : State τ}
    (h : Reach (State.step m callable) G (.init n) s) : Kept m s :=
  h.invariant (kept_init m n) fun _ _ _ hi _ hst => step_kept hi hst

/-- **A stopped pool holds nobody back.**  A thread asleep would have found `_running` set, and it has
been cleared since under the mutex, by a section that wakes everybody; a thread about to sleep would
still be inside the mutex. -/
theorem Kept.nobody_waits {s : State τ} (h : Kept m s) (hr : s.pool.data.running = false) (t : Thread)
    (op : Op τ) (c : Cond) : s.pool.pc t ≠ .waiting op c ∧ s.pool.pc t ≠ .toWait op c := by
  refine ⟨fun hpc => ?_, (h.pool.stopped hr).2 t op c⟩
  rw [h.pool.running_of_waiting hpc] at hr
  cases hr

/-- The critical section of `stop` leaves `_running` cleared. -/
theorem running_of_stop {callable : τ → Bool} {s s' : State τ} {t : Thread} {woken : List Thread}
    (hpc : s.pool.pc t = .passing .stop)
    (hst : s.step m callable (.locked (.operate t woken)) = some s') :
    s'.pool.data.running = false := by
  simp only [State.step, State.allows, ↓reduceIte] at hst
  obtain ⟨pool, hpool, rfl⟩ := Option.map_eq_some_iff.mp hst
  obtain ⟨op, hop, -, hdata⟩ := Monitor.step_operate hpool
  obtain rfl : Op.stop = op := Monitor.Pc.passing.inj (hpc.symm.trans hop)
  change pool.data.running = false
  rw [hdata]
  rfl

/-- Nothing but `start`, which is not called again, sets `_running`. -/
theorem reach_stopped {callable : τ → Bool} {s s' : State τ}
    (h : Reach (State.step m callable) anyStep s s') (hr : s.pool.data.running = false) :
    s'.pool.data.running = false :=
  h.invariant hr fun _ _ _ hi _ hst => stopped_stays hst hi

/-- **The pool schedules safely.**  For any number of workers, any `_max_queue_size` and any
interleaving of the monitor steps of `run`, `get_next_task` and `stop` with the steps of the workers:
the tasks are dequeued in the order in which `run` enqueued them, and each is executed at most once;
a bound on the queue is kept; a worker sleeps while there are tasks only if a notified worker is on
its way, and a producer while there is room only if a notified producer is; once `_running` is
cleared it stays so, and no thread sleeps or is about to; and the critical section of `stop` clears
it, so in every state that can follow that section nobody waits and nobody starts to wait again.
(`start` is not a step of the run: it is not called again.)

The first two parts are a history of the queue, which only the two sections change.  The wake-ups are
the monitor library's: every section accounts for its units (`accounts`), and `Served` says that the
units that are there are spoken for by threads that were notified. -/
theorem pool_schedules (m n : Nat) (callable : τ → Bool) (s : State τ)
    (h : Reach (State.step m callable) anyStep (.init n) s) :
    s.pool.data.dequeued ++ s.pool.data.taskQueue = s.pool.data.enqueued ∧
    (s.executed.Nodup ∧ ∀ k ∈ s.executed, k < s.pool.data.dequeued.length) ∧
    (0 < m → s.pool.data.taskQueue.length ≤ m) ∧
    (∀ t op, s.pool.pc t = .waiting op .notEmpty → s.pool.data.taskQueue ≠ [] →
      ∃ u ∈ s.pool.pending .notEmpty, (s.pool.pc u).entering = some .getNextTask) ∧
    (∀ t op, s.pool.pc t = .waiting op .notFull → s.pool.data.isFull m = false →
      ∃ u ∈ s.pool.pending .notFull, ∃ task, (s.pool.pc u).entering = some (.run task)) ∧
    (s.pool.data.running = false →
      (∀ t op c, s.pool.pc t ≠ .waiting op c ∧ s.pool.pc t ≠ .toWait op c) ∧
      ∀ l s', s.step m callable l = some s' → s'.pool.data.running = false) ∧
    (∀ t woken s₁, s.pool.pc t = .passing .stop →
      s.step m callable (.locked (.operate t woken)) = some s₁ →
      ∀ s₂, Reach (State.step m callable) anyStep s₁ s₂ → s₂.pool.data.running = false ∧
        ∀ u op c, s₂.pool.pc u ≠ .waiting op c ∧ s₂.pool.pc u ≠ .toWait op c) := by
  have hk : Kept m s := kept_of_reach h
  refine ⟨hk.pool.fifo, ⟨hk.once.nodup, hk.once.old⟩, hk.pool.bounded, ?_, ?_, ?_, ?_⟩
  · intro t op hpc hne
    have hr := hk.pool.running_of_waiting hpc
    have ha : 0 < avail m .notEmpty s.pool.data := by
      simp only [avail, hr, ↓reduceIte]
      exact List.length_pos_iff.mpr hne
    obtain ⟨u, hu, op', hop', hmay⟩ := hk.pool.served.exists_pending hk.pool.orderly hpc ha
    refine ⟨u, hu, ?_⟩
    cases op' with
    | run task => exact absurd (mayWait_run hmay).1 (by simp)
    | getNextTask => exact hop'
    | stop => exact absurd hmay not_mayWait_stop
  · intro t op hpc hfull
    have hr := hk.pool.running_of_waiting hpc
    -- only a bounded queue makes a producer wait
    have hm : 0 < m := by
      have hmay := hk.pool.orderly.waits t op .notFull (.inr hpc)
      cases op with
      | run task => exact (mayWait_run hmay).2
      | getNextTask => exact absurd (mayWait_getNextTask hmay) (by simp)
      | stop => exact absurd hmay not_mayWait_stop
    have ha : 0 < avail m .notFull s.pool.data := by
      have hlt : ¬ m ≤ s.pool.data.taskQueue.length := fun hle => by
        rw [isFull_iff.mpr ⟨hm, hle⟩] at hfull
        cases hfull
      simp only [avail, hr, ↓reduceIte]
      omega
    obtain ⟨u, hu, op', hop', hmay⟩ := hk.pool.served.exists_pending hk.pool.orderly hpc ha
    refine ⟨u, hu, ?_⟩
    cases op' with
    | run task => exact ⟨task, hop'⟩
    | getNextTask => exact absurd (mayWait_getNextTask hmay) (by simp)
    | stop => exact absurd hmay not_mayWait_stop
  · exact fun hr => ⟨hk.nobody_waits hr, fun l s' hst => stopped_stays hst hr⟩
  · intro t woken s₁ hpc hst s₂ hafter
    have hr := reach_stopped hafter (running_of_stop hpc hst)
    have hk₂ : Kept m s₂ :=
      hafter.invariant (step_kept hk hst) fun _ _ _ hi _ hst' => step_kept hi hst'
    exact ⟨hr, hk₂.nobody_waits hr⟩

/-- One worker, a queue of one place, three tasks: the second and the third producer sleep until the
worker takes the first task and wakes one of them. -/
def oneWorker : List (Label Nat) :=
  [.locked (.lock 4 (.run 10)), .locked (.test 4), .locked (.operate 4 []), .locked (.unlock 4),
    .locked (.lock 5 (.run 11)), .locked (.test 5), .locked (.wait 5),
    .locked (.lock 6 (.run 12)), .locked (.test 6), .locked (.wait 6),
    .initDone 0, .testRunning 0, .locked (.lock 0 .getNextTask), .locked (.test 0),
    .locked (.operate 0 [5]), .locked (.unlock 0), .locked (.unsetHolder 0), .callTask 0]

theorem pool_schedules_oneWorker :
    ∃ s, Reach (State.step 1 fun _ => true) anyStep (.init 1) s ∧ s.executed = [0] ∧
      s.pool.pc 6 = .waiting (.run 12) .notFull ∧
      ∃ u ∈ s.pool.pending .notFull, ∃ task, (s.pool.pc u).entering = some (.run task) := by
  have hrun : ∃ s, Reach (State.step 1 fun _ => true) anyStep (.init 1) s ∧
      (s.executed = [0] ∧ s.pool.pc 6 = .waiting (.run 12) .notFull ∧
        s.pool.data.isFull 1 = false) :=
    Reach.exists_of_exec oneWorker _ (meets_any oneWorker _) (by decide +kernel)
  obtain ⟨s, h, he, hpc, hfull⟩ := hrun
  exact ⟨s, h, he, hpc, (pool_schedules 1 1 _ s h).2.2.2.2.1 6 (.run 12) hpc hfull⟩

end Suduo.ThreadPool
