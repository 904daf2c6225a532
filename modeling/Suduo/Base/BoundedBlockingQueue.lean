/-
# `BoundedBlockingQueue`: a bounded FIFO without lost wake-ups

`base/BoundedBlockingQueue.h`: a `CircularBuffer` under one mutex with two condition variables.
`push` waits while the buffer is full and notifies `_not_empty`; `pop` waits while it is empty and
notifies `_not_full`.  Both are sections of a `Monitor`, run by any number of threads.

What makes single notifications enough is that each body moves one element: a `push` adds one unit
for consumers and takes one from producers, a `pop` the other way round (`accounts`).
-/
import Suduo.Lib.Monitor
import Suduo.Base.CircularBuffer

namespace Suduo.BoundedBlockingQueue

open Lib

/-! ## 1. The queue -/

variable {α : Type}

/-- The condition variables. -/
inductive Cond
  | notEmpty
  | notFull
  deriving DecidableEq, Repr

inductive Op (α : Type)
  | push (val : α)
  | pop
  deriving DecidableEq, Repr

/-- What the mutex protects.  The last two fields are history: what was pushed and popped so far. -/
structure Data (α : Type) where
  queue : CircularBuffer α
  pushed : List α
  popped : List α
  deriving DecidableEq

/-- `BoundedBlockingQueue::BoundedBlockingQueue`. -/
def Data.new [Inhabited α] (maxSize : Nat) : Data α := ⟨.new maxSize, [], []⟩

/-- `_queue.push(val)`. -/
def Data.push (d : Data α) (val : α) : Data α :=
  { d with queue := d.queue.push val, pushed := d.pushed ++ [val] }

/-- `_queue.pop()`; on an empty buffer anything could happen. -/
def Data.pop (d : Data α) : Data α :=
  match d.queue.pop with
  | some (val, queue) => { d with queue := queue, popped := d.popped ++ [val] }
  | none => d

/-- The `while` loops of `push` and `pop`. -/
def blocked : Op α → Data α → Option Cond
  | .push _, d => if d.queue.full then some .notFull else none
  | .pop, d => if d.queue.empty then some .notEmpty else none

def monitor (α : Type) : Monitor Unit Cond (Data α) (Op α) where
  mutex := fun _ => ()
  condMutex := fun _ => ()
  blocked := blocked
  body := fun _ op d =>
    match op with
    | .push val => d.push val
    | .pop => d.pop
  signals := fun op _ =>
    match op with
    | .push _ => [.notify .notEmpty]
    | .pop => [.notify .notFull]
  blocked_mutex := fun _ => rfl
  blocked_unique := by
    rintro (val | _) d d' c c' h h' <;> grind [blocked]

@[simp] theorem body_push (t : Thread) (val : α) (d : Data α) :
    (monitor α).body t (.push val) d = d.push val := rfl

@[simp] theorem body_pop (t : Thread) (d : Data α) : (monitor α).body t .pop d = d.pop := rfl

/-- A queue and its threads. -/
abbrev State (α : Type) := Monitor.State Unit Cond (Data α) (Op α)

/-! ## 2. Units -/

/-- What a waiter waits for: elements, or room.  A `push` turns a unit of the second into one of
the first and a `pop` turns it back. -/
def avail : Cond → Data α → Nat
  | .notEmpty, d => d.queue.size
  | .notFull, d => d.queue.buffer.length - d.queue.size

theorem avail_of_blocked {op : Op α} {d : Data α} {c : Cond} (h : (monitor α).blocked op d = some c) :
    avail c d = 0 := by
  cases op with
  | push val =>
    simp only [monitor, blocked] at h
    split at h
    · rename_i hfull
      cases h
      rw [CircularBuffer.full, beq_iff_eq] at hfull
      simp [avail, hfull]
    · cases h
  | pop =>
    simp only [monitor, blocked] at h
    split at h
    · rename_i hempty
      cases h
      rw [CircularBuffer.empty, beq_iff_eq] at hempty
      exact hempty
    · cases h

theorem mayWait_push {val : α} {c : Cond} (h : (monitor α).MayWait (.push val) c) : c = .notFull := by
  obtain ⟨d, hd⟩ := h
  simp only [monitor, blocked] at hd
  split at hd
  · exact (Option.some.inj hd).symm
  · cases hd

theorem mayWait_pop {c : Cond} (h : (monitor α).MayWait .pop c) : c = .notEmpty := by
  obtain ⟨d, hd⟩ := h
  simp only [monitor, blocked] at hd
  split at hd
  · exact (Option.some.inj hd).symm
  · cases hd

theorem full_of_unblocked {val : α} {d : Data α} (h : (monitor α).blocked (.push val) d = none) :
    d.queue.full = false := by
  simp only [monitor, blocked] at h
  split at h
  · cases h
  · rename_i hf
    exact Bool.eq_false_iff.mpr hf

theorem empty_of_unblocked {d : Data α} (h : (monitor α).blocked .pop d = none) :
    d.queue.empty = false := by
  simp only [monitor, blocked] at h
  split at h
  · cases h
  · rename_i he
    exact Bool.eq_false_iff.mpr he

/-- `push` on a queue with room: one element more, one place less. -/
theorem push_spec {d : Data α} (h : d.queue.full = false) (val : α) :
    (d.push val).queue.contents = d.queue.contents ++ [val] ∧
      (d.push val).queue.size = d.queue.size + 1 ∧
      (d.push val).queue.buffer.length = d.queue.buffer.length := by
  have hc : (d.push val).queue.contents = d.queue.contents ++ [val] :=
    CircularBuffer.contents_push h val
  refine ⟨hc, ?_, CircularBuffer.length_push _ _⟩
  have hlen := congrArg List.length hc
  simpa using hlen

/-- `pop` on a queue that is not empty: the first element goes, and the rest is what is stored
then. -/
theorem pop_spec {d : Data α} (h : d.queue.empty = false) :
    ∃ val, d.pop.popped = d.popped ++ [val] ∧ d.queue.contents = val :: d.pop.queue.contents ∧
      d.queue.size = d.pop.queue.size + 1 ∧ d.pop.queue.buffer.length = d.queue.buffer.length ∧
      d.pop.pushed = d.pushed := by
  obtain ⟨val, q, hpop, hc, hlen⟩ := CircularBuffer.pop_spec h
  have hd : d.pop = { d with queue := q, popped := d.popped ++ [val] } := by
    rw [Data.pop, hpop]
  rw [hd]
  refine ⟨val, rfl, hc, ?_, hlen, rfl⟩
  have := congrArg List.length hc
  simpa using this

/-- **Both bodies account for their units**: each takes one unit of what its own thread may have
waited for, and adds one of the other, with the signal for it. -/
theorem accounts (t : Thread) {op : Op α} {d : Data α} (h : (monitor α).blocked op d = none) :
    (monitor α).Accounts avail t op d := by
  cases op with
  | push val =>
    obtain ⟨-, hsize, hlen⟩ := push_spec (full_of_unblocked h) val
    refine ⟨fun c hc => ?_, fun c hc => ⟨rfl, ?_⟩⟩
    · simp only [mayWait_push hc, body_push, avail]
      omega
    · cases c with
      | notEmpty =>
        exact ⟨Nat.le_of_eq hsize, .notify .notEmpty, List.mem_singleton_self _, rfl⟩
      | notFull =>
        simp only [body_push, avail] at hc
        omega
  | pop =>
    obtain ⟨val, -, -, hsize, hlen, -⟩ := pop_spec (empty_of_unblocked h)
    refine ⟨fun c hc => ?_, fun c hc => ⟨rfl, ?_⟩⟩
    · simp only [mayWait_pop hc, body_pop, avail]
      omega
    · cases c with
      | notEmpty =>
        simp only [body_pop, avail] at hc
        omega
      | notFull =>
        refine ⟨?_, .notify .notFull, List.mem_singleton_self _, rfl⟩
        simp only [body_pop, avail]
        omega

/-! ## 3. What holds in every run -/

/-- What every step keeps, for a queue of capacity `n`. -/
structure Kept (n : Nat) (s : State α) : Prop where
  orderly : (monitor α).Orderly s
  tested : (monitor α).Tested s
  served : Monitor.Served avail s
  fifo : s.data.popped ++ s.data.queue.contents = s.data.pushed
  capacity : s.data.queue.buffer.length = n

theorem kept_init [Inhabited α] (n : Nat) : Kept n (.init (Data.new n) : State α) where
  orderly := Monitor.orderly_init _
  tested := Monitor.tested_init _
  served := Monitor.served_init _
  fifo := CircularBuffer.contents_new n
  capacity := List.length_replicate

/-- A body keeps the order and the capacity.  That its test has let it through is needed, since a
`push` on a full buffer would overwrite the oldest element. -/
theorem body_fifo (t : Thread) {op : Op α} {d : Data α} (hb : (monitor α).blocked op d = none)
    (h : d.popped ++ d.queue.contents = d.pushed) :
    let d' := (monitor α).body t op d
    d'.popped ++ d'.queue.contents = d'.pushed ∧ d'.queue.buffer.length = d.queue.buffer.length := by
  cases op with
  | push val =>
    obtain ⟨hc, -, hlen⟩ := push_spec (full_of_unblocked hb) val
    refine ⟨?_, hlen⟩
    simp only [body_push, hc]
    rw [← List.append_assoc]
    exact congrArg (· ++ [val]) h
  | pop =>
    obtain ⟨val, hpopped, hc, -, hlen, hpushed⟩ := pop_spec (empty_of_unblocked hb)
    refine ⟨?_, hlen⟩
    simp only [body_pop]
    rw [hpopped, hpushed, List.append_assoc, List.singleton_append, ← hc, h]

theorem step_kept {n : Nat} {s s' : State α} {l : Monitor.Label (Op α)} (h : Kept n s)
    (hst : (monitor α).step s l = some s') : Kept n s' := by
  have htested : (monitor α).Tested s' :=
    Monitor.step_tested h.orderly h.tested hst fun _ _ _ _ _ _ _ _ hm => absurd rfl hm
  have hserved : Monitor.Served avail s' := by
    refine Monitor.step_served (fun _ _ _ => avail_of_blocked) h.served hst ?_
    intro t op woken _ hpc hw
    exact Monitor.served_operate h.orderly h.served hpc hw (accounts t (h.tested t op hpc))
  obtain ⟨hfifo, hcap⟩ : s'.data.popped ++ s'.data.queue.contents = s'.data.pushed ∧
      s'.data.queue.buffer.length = n := by
    rcases Monitor.step_data hst with hd | ⟨t, op, woken, -, hpc, hd⟩
    · rw [hd]
      exact ⟨h.fifo, h.capacity⟩
    · rw [hd]
      obtain ⟨hf, hl⟩ := body_fifo t (h.tested t op hpc) h.fifo
      exact ⟨hf, hl.trans h.capacity⟩
  exact ⟨Monitor.step_orderly h.orderly hst, htested, hserved, hfifo, hcap⟩

/-- **A bounded FIFO without lost wake-ups.**  For any number of threads, any capacity and any
interleaving of the monitor steps of `push` and `pop`: the popped values followed by the stored ones
are the pushed ones; the size stays within the capacity, a `push` that its test has let through
finds room and a `pop` an element; a consumer waits on `_not_empty` of a queue with elements only
while a notified consumer is on its way, and a producer on `_not_full` of a queue with room only
while a notified producer is.

The last two are `Served` of the monitor library for the two kinds of units.  One mutex protects
both tests, so nothing has to be said about a test of one operation and a body of the other. -/
theorem bounded_fifo [Inhabited α] (n : Nat) (s : State α)
    (h : Reach (monitor α).step anyStep (.init (Data.new n)) s) :
    s.data.popped ++ s.data.queue.contents = s.data.pushed ∧
    s.data.queue.size ≤ n ∧
    (∀ t val, s.pc t = .passing (.push val) → s.data.queue.full = false) ∧
    (∀ t, s.pc t = .passing .pop → s.data.queue.empty = false) ∧
    (∀ t op, s.pc t = .waiting op .notEmpty → s.data.queue.empty = false →
      ∃ u ∈ s.pending .notEmpty, (s.pc u).entering = some .pop) ∧
    (∀ t op, s.pc t = .waiting op .notFull → s.data.queue.full = false →
      ∃ u ∈ s.pending .notFull, ∃ val, (s.pc u).entering = some (.push val)) := by
  have hk : Kept n s := h.invariant (kept_init n) fun _ _ _ hi _ hst => step_kept hi hst
  have hle : s.data.queue.size ≤ s.data.queue.buffer.length := s.data.queue.size_le
  refine ⟨hk.fifo, hk.capacity ▸ hle, fun t val hpc => full_of_unblocked (hk.tested t _ hpc),
    fun t hpc => empty_of_unblocked (hk.tested t _ hpc), ?_, ?_⟩
  · intro t op hpc he
    have ha : 0 < avail .notEmpty s.data := by
      rw [CircularBuffer.empty, beq_eq_false_iff_ne] at he
      exact Nat.pos_of_ne_zero he
    obtain ⟨u, hu, op', hop', hmay⟩ := hk.served.exists_pending hk.orderly hpc ha
    refine ⟨u, hu, ?_⟩
    cases op' with
    | push val => exact absurd (mayWait_push hmay) (by simp)
    | pop => exact hop'
  · intro t op hpc hf
    have ha : 0 < avail .notFull s.data := by
      rw [CircularBuffer.full, beq_eq_false_iff_ne] at hf
      simp only [avail]
      omega
    obtain ⟨u, hu, op', hop', hmay⟩ := hk.served.exists_pending hk.orderly hpc ha
    refine ⟨u, hu, ?_⟩
    cases op' with
    | push val => exact ⟨val, hop'⟩
    | pop => exact absurd (mayWait_pop hmay) (by simp)

/-- Two consumers wait; a producer pushes and wakes the first of them. -/
def twoConsumers : List (Monitor.Label (Op Nat)) :=
  [.lock 1 .pop, .test 1, .wait 1, .lock 2 .pop, .test 2, .wait 2,
    .lock 3 (.push 7), .test 3, .operate 3 [1], .unlock 3, .unsetHolder 3]

theorem bounded_fifo_twoConsumers :
    ∃ s, Reach (monitor Nat).step anyStep (.init (Data.new 1)) s ∧
      s.pc 2 = .waiting .pop .notEmpty ∧ s.data.queue.contents = [7] ∧
      ∃ u ∈ s.pending .notEmpty, (s.pc u).entering = some .pop := by
  have hrun : ∃ s, Reach (monitor Nat).step anyStep (.init (Data.new 1)) s ∧
      (s.pc 2 = .waiting .pop .notEmpty ∧ s.data.queue.contents = [7] ∧
        s.data.queue.empty = false) :=
    Reach.exists_of_exec twoConsumers _ (meets_any twoConsumers _) (by decide +kernel)
  obtain ⟨s, h, hpc, hc, he⟩ := hrun
  exact ⟨s, h, hpc, hc, (bounded_fifo 1 s h).2.2.2.2.1 2 .pop hpc he⟩

end Suduo.BoundedBlockingQueue
