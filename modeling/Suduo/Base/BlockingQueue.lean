/-
# `BlockingQueue`, and what `swap` does to its consumers

`base/BlockingQueue.h`: an unbounded deque under a mutex with one condition variable.  `push`
notifies; `pop` waits; `drain` takes everything.  `swap` exchanges the deques of TWO queues under the
mutex of one, and notifies nobody.

So a consumer that sleeps on an empty queue sleeps on when `swap` fills it (`swap_strands`), and one
that has found an element, and holds the mutex of the other queue, may have it taken from under it.
As long as no swap does either (`SwapsSafely`), the rule of the monitor library applies to the
other three operations, and nothing is lost, doubled or left lying (`never_strands`).

There may be any number of queues, named by numbers; a deque carries its own history, so a swap
exchanges the histories with the contents.
-/
import Suduo.Lib.Monitor
import Mathlib.Tactic.Basic

namespace Suduo.BlockingQueue

open Lib

/-! ## 1. The queues -/

variable {α : Type}

/-- A `std::deque` with what was pushed to it and what has left it.  The two histories are those
of the deque and not of the queue, because `swap` exchanges deques. -/
structure Deque (α : Type) where
  items : List α
  pushed : List α
  left : List α
  deriving DecidableEq

inductive Op (α : Type)
  | push (q : Nat) (value : α)
  | pop (q : Nat)
  | drain (q : Nat)
  /-- `q.swap(other)`. -/
  | swap (q other : Nat)
  deriving DecidableEq, Repr

/-- All queues. -/
structure Data (α : Type) where
  queue : Nat → Deque α
  /-- `front` was called on an empty deque. -/
  underflow : Bool

namespace Data

def new : Data α := ⟨fun _ => ⟨[], [], []⟩, false⟩

def set (d : Data α) (q : Nat) (x : Deque α) : Data α :=
  { d with queue := Function.update d.queue q x }

/-- `push_back`. -/
def push (d : Data α) (q : Nat) (value : α) : Data α :=
  let x := d.queue q
  d.set q { x with items := x.items ++ [value], pushed := x.pushed ++ [value] }

/-- `front` and `pop_front`. -/
def pop (d : Data α) (q : Nat) : Data α :=
  let x := d.queue q
  match x.items with
  | value :: rest => d.set q { x with items := rest, left := x.left ++ [value] }
  | [] => { d with underflow := true }

/-- `new_queue = std::move(_queue)`. -/
def drain (d : Data α) (q : Nat) : Data α :=
  let x := d.queue q
  d.set q { x with items := [], left := x.left ++ x.items }

/-- `_queue.swap(other._queue)`. -/
def swap (d : Data α) (q other : Nat) : Data α :=
  (d.set q (d.queue other)).set other (d.queue q)

end Data

/-- The queue whose mutex an operation takes. -/
def Op.locked : Op α → Nat
  | .push q _ | .pop q | .drain q | .swap q _ => q

/-- The `while` loop of `pop`. -/
def blocked : Op α → Data α → Option Nat
  | .pop q, d => if (d.queue q).items.isEmpty then some q else none
  | .push _ _, _ | .drain _, _ | .swap _ _, _ => none

/-- The queues have one mutex each, and `_not_empty` of a queue is named as the queue is. -/
def monitor (α : Type) : Monitor Nat Nat (Data α) (Op α) where
  mutex := Op.locked
  condMutex := id
  blocked := blocked
  body := fun _ op d =>
    match op with
    | .push q value => d.push q value
    | .pop q => d.pop q
    | .drain q => d.drain q
    | .swap q other => d.swap q other
  signals := fun op _ =>
    match op with
    | .push q _ => [.notify q]
    | .pop _ | .drain _ | .swap _ _ => []
  blocked_mutex := by
    rintro (_ | _ | _ | _) d c h <;> grind [blocked, Op.locked]
  blocked_unique := by
    rintro (_ | _ | _ | _) d d' c c' h h' <;> grind [blocked]

abbrev State (α : Type) := Monitor.State Nat Nat (Data α) (Op α)

section

variable (t : Thread) (q other : Nat) (value : α) (d : Data α)

@[simp] theorem body_push : (monitor α).body t (.push q value) d = d.push q value := rfl

@[simp] theorem body_pop : (monitor α).body t (.pop q) d = d.pop q := rfl

@[simp] theorem body_drain : (monitor α).body t (.drain q) d = d.drain q := rfl

@[simp] theorem body_swap : (monitor α).body t (.swap q other) d = d.swap q other := rfl

end

/-! ## 2. What an operation touches -/

section

variable {d : Data α} {q r other : Nat}

theorem queue_set_of_ne {x : Deque α} (h : r ≠ q) : (d.set q x).queue r = d.queue r := by
  simp [Data.set, h]

theorem queue_set_self {x : Deque α} : (d.set q x).queue q = x := by
  simp [Data.set]

theorem pop_of_items {v : α} {rest : List α} (h : (d.queue q).items = v :: rest) :
    d.pop q = d.set q { d.queue q with items := rest, left := (d.queue q).left ++ [v] } := by
  simp [Data.pop, h]

theorem queue_pop_of_ne (h : r ≠ q) : (d.pop q).queue r = d.queue r := by
  cases hi : (d.queue q).items with
  | nil => simp [Data.pop, hi]
  | cons v rest => rw [pop_of_items hi, queue_set_of_ne h]

theorem queue_swap_of_ne (hq : r ≠ q) (ho : r ≠ other) :
    (d.swap q other).queue r = d.queue r := by
  rw [Data.swap, queue_set_of_ne ho, queue_set_of_ne hq]

/-- A queue holds after the swap what one of the two held before. -/
theorem queue_swap_cases : ∃ r', (d.swap q other).queue r = d.queue r' := by
  rcases eq_or_ne r other with rfl | ho
  · exact ⟨q, queue_set_self⟩
  · rcases eq_or_ne r q with rfl | hq
    · exact ⟨other, by rw [Data.swap, queue_set_of_ne ho, queue_set_self]⟩
    · exact ⟨r, queue_swap_of_ne hq ho⟩

theorem blocked_pop : (monitor α).blocked (.pop q) d = none ↔ (d.queue q).items ≠ [] := by
  simp [monitor, blocked]

theorem mayWait_iff {op : Op α} {c : Nat} : (monitor α).MayWait op c ↔ op = .pop c := by
  constructor
  · rintro ⟨d, hd⟩
    cases op with
    | pop q =>
      simp only [monitor, blocked] at hd
      split at hd
      · cases hd
        rfl
      · cases hd
    | push q v => cases hd
    | drain q => cases hd
    | swap q other => cases hd
  · rintro rfl
    exact ⟨.new, by simp [monitor, blocked, Data.new]⟩

end

/-- Values leave a deque in the order in which they were pushed, none lost and none twice. -/
def Deque.Fifo (x : Deque α) : Prop := x.left ++ x.items = x.pushed

/-- The elements a consumer waits for. -/
def avail (c : Nat) (d : Data α) : Nat := (d.queue c).items.length

theorem avail_of_blocked {op : Op α} {d : Data α} {c : Nat}
    (h : (monitor α).blocked op d = some c) : avail c d = 0 := by
  obtain rfl := mayWait_iff.mp ⟨d, h⟩
  simp only [monitor, blocked] at h
  split at h
  · rename_i he
    rw [List.isEmpty_iff] at he
    simp [avail, he]
  · cases h

/-- **`push`, `pop` and `drain` account for their elements**: `push` adds one and notifies, `pop`
takes one if there is one, `drain` takes all.  `swap` does not, as it can add any number and
notifies nobody. -/
theorem accounts (t : Thread) {op : Op α} {d : Data α} (hb : (monitor α).blocked op d = none)
    (hop : ∀ q other, op ≠ .swap q other) : (monitor α).Accounts avail t op d := by
  cases op with
  | push q v =>
    refine ⟨fun c hc => absurd (mayWait_iff.mp hc) (by simp), fun c hc => ?_⟩
    rcases eq_or_ne c q with rfl | hne
    · refine ⟨rfl, ?_, .notify c, List.mem_singleton_self _, rfl⟩
      simp [avail, Data.push, queue_set_self]
    · simp [avail, Data.push, queue_set_of_ne hne] at hc
  | pop q =>
    obtain ⟨v, rest, hi⟩ := List.exists_cons_of_ne_nil (blocked_pop.mp hb)
    have hq : avail q (d.pop q) = avail q d - 1 := by
      simp [avail, pop_of_items hi, queue_set_self, hi]
    refine ⟨fun c hc => ?_, fun c hc => ?_⟩
    · cases mayWait_iff.mp hc
      exact Nat.le_of_eq hq
    · rcases eq_or_ne c q with rfl | hne
      · rw [body_pop, hq] at hc
        omega
      · simp [avail, queue_pop_of_ne hne] at hc
  | drain q =>
    refine ⟨fun c hc => absurd (mayWait_iff.mp hc) (by simp), fun c hc => ?_⟩
    rcases eq_or_ne c q with rfl | hne
    · simp [avail, Data.drain, queue_set_self] at hc
    · simp [avail, Data.drain, queue_set_of_ne hne] at hc
  | swap q other => exact absurd rfl (hop q other)

/-- No operation breaks the order of any deque; a `pop` that has found an element takes it. -/
theorem body_fifo (t : Thread) {op : Op α} {d : Data α} (hb : (monitor α).blocked op d = none)
    (h : ∀ q, (d.queue q).Fifo) (r : Nat) :
    (((monitor α).body t op d).queue r).Fifo ∧
      ((monitor α).body t op d).underflow = d.underflow := by
  cases op with
  | push q v =>
    refine ⟨?_, rfl⟩
    rcases eq_or_ne r q with rfl | hne
    · have hr := h r
      rw [body_push, Data.push, queue_set_self]
      simp only [Deque.Fifo] at hr ⊢
      rw [← hr, List.append_assoc]
    · rw [body_push, Data.push, queue_set_of_ne hne]
      exact h r
  | pop q =>
    obtain ⟨v, rest, hi⟩ := List.exists_cons_of_ne_nil (blocked_pop.mp hb)
    rw [body_pop, pop_of_items hi]
    refine ⟨?_, rfl⟩
    rcases eq_or_ne r q with rfl | hne
    · have hr := h r
      rw [queue_set_self]
      simp only [Deque.Fifo] at hr ⊢
      rw [← hr, hi, List.append_assoc, List.singleton_append]
    · rw [queue_set_of_ne hne]
      exact h r
  | drain q =>
    refine ⟨?_, rfl⟩
    rcases eq_or_ne r q with rfl | hne
    · have hr := h r
      rw [body_drain, Data.drain, queue_set_self]
      simp only [Deque.Fifo, List.append_nil] at hr ⊢
      exact hr
    · rw [body_drain, Data.drain, queue_set_of_ne hne]
      exact h r
  | swap q other =>
    refine ⟨?_, rfl⟩
    obtain ⟨r', hr'⟩ : ∃ r', (d.swap q other).queue r = d.queue r' := queue_swap_cases
    rw [body_swap, hr']
    exact h r'

/-! ## 3. Swaps -/

/-- Where the owner of a queue's mutex is.  A `swap` holds one of the two mutexes, so what the
holder of the other one is about to do decides whether it does harm. -/
def holder (s : State α) (r : Nat) : Monitor.Pc Nat (Op α) :=
  match s.owner r with
  | some u => s.pc u
  | none => .outside

/-- Queue `r` may be given these elements: for those who wait on it, or are about to, there are
enough consumers on the way, and one that has found an element still has one. -/
def MayHold (s : State α) (r : Nat) (items : List α) : Prop :=
  (s.waiters r ≠ [] ∨ holder s r = .toWait (.pop r) r → items.length ≤ (s.pending r).length) ∧
    (holder s r = .passing (.pop r) → items ≠ [])

/-- No swap gives elements to a queue with too few consumers on the way, or takes the last element
from one that has found it. -/
def SwapsSafely (s : State α) : Monitor.Label (Op α) → Prop
  | .operate t _ =>
    match s.pc t with
    | .passing (.swap q other) =>
      MayHold s q (s.data.queue other).items ∧ MayHold s other (s.data.queue q).items
    | _ => True
  | _ => True

instance [DecidableEq α] (s : State α) (r : Nat) (items : List α) : Decidable (MayHold s r items) :=
  inferInstanceAs (Decidable ((_ ∨ _ → _) ∧ (_ → _)))

instance [DecidableEq α] (s : State α) (l : Monitor.Label (Op α)) : Decidable (SwapsSafely s l) := by
  unfold SwapsSafely
  split
  · split <;> infer_instance
  · infer_instance

/-- What every step keeps: the bookkeeping of the monitor, that whom a test has let through is
still let through, that the elements are spoken for, and the order of the values. -/
structure Kept (s : State α) : Prop where
  orderly : (monitor α).Orderly s
  tested : (monitor α).Tested s
  served : Monitor.Served avail s
  fifo : ∀ q, (s.data.queue q).Fifo
  underflow : s.data.underflow = false

theorem kept_init : Kept (.init .new : State α) where
  orderly := Monitor.orderly_init _
  tested := Monitor.tested_init _
  served := Monitor.served_init _
  fifo := fun _ => rfl
  underflow := rfl

/-- Who is inside the mutex of `r` is its holder: two threads inside would both be that. -/
theorem Kept.holder_eq {s : State α} (h : Kept s) {u : Thread} (op : Op α)
    (hu : (s.pc u).inside = some op) : holder s op.locked = s.pc u := by
  have hown : s.owner op.locked = some u := (h.orderly.owner u _).mpr ⟨op, hu, rfl⟩
  rw [holder, hown]

/-- After a safe swap a queue may hold what it was given. -/
theorem Kept.mayHold {s : State α} {t : Thread} {woken : List Thread} {q other : Nat}
    (hpc : s.pc t = .passing (.swap q other)) (hg : SwapsSafely s (.operate t woken)) {r : Nat}
    (hr : r = q ∨ r = other) : MayHold s r ((s.data.swap q other).queue r).items := by
  simp only [SwapsSafely, hpc] at hg
  rcases eq_or_ne r other with rfl | ho
  · rw [Data.swap, queue_set_self]
    exact hg.2
  · obtain rfl := hr.resolve_right ho
    rw [Data.swap, queue_set_of_ne ho, queue_set_self]
    exact hg.1

/-- No body takes the element from a consumer that has found it.  Under the same mutex there is
no such body; of a body under another mutex only `swap` reaches this queue, and the condition
covers it. -/
theorem Kept.still_unblocked {s : State α} (h : Kept s) {t u : Thread} {op op' : Op α}
    {woken : List Thread} (hg : SwapsSafely s (.operate t woken)) (hpc : s.pc t = .passing op)
    (hu : s.pc u = .passing op') (hm : op'.locked ≠ op.locked) :
    (monitor α).blocked op' ((monitor α).body t op s.data) = none := by
  cases op' with
  | pop r =>
    have hbefore := blocked_pop.mp (h.tested u _ hu)
    rw [blocked_pop]
    cases op with
    | push q v =>
      have hne : r ≠ q := hm
      rwa [body_push, Data.push, queue_set_of_ne hne]
    | pop q =>
      have hne : r ≠ q := hm
      rwa [body_pop, queue_pop_of_ne hne]
    | drain q =>
      have hne : r ≠ q := hm
      rwa [body_drain, Data.drain, queue_set_of_ne hne]
    | swap q other =>
      have hne : r ≠ q := hm
      rw [body_swap]
      rcases eq_or_ne r other with rfl | ho
      · refine (Kept.mayHold hpc hg (.inr rfl)).2 ?_
        rw [← hu]
        exact h.holder_eq (.pop r) (by rw [hu]; rfl)
      · rwa [queue_swap_of_ne hne ho]
  | push q v => rfl
  | drain q => rfl
  | swap q other => rfl

/-- A safe swap leaves nobody waiting in vain: where somebody waits, there are at least as many
consumers on the way as elements come in.  The condition asks for no more than this, so it is
what the swap needs and not a way round it. -/
theorem Kept.served_swap {s : State α} (h : Kept s) {t : Thread} {q other : Nat}
    {woken : List Thread} (hg : SwapsSafely s (.operate t woken))
    (hpc : s.pc t = .passing (.swap q other))
    (hw : s.Wakes ((monitor α).signals (.swap q other) s.data) woken) :
    Monitor.Served avail ((monitor α).operate s t (.swap q other) woken) := by
  -- it wakes nobody
  obtain rfl : woken = [] := by
    refine List.eq_nil_iff_forall_not_mem.mpr fun u hu => ?_
    obtain ⟨g, hg, -⟩ := hw.1 u hu
    cases hg
  intro c hc
  have hpending : ((monitor α).operate s t (.swap q other) []).pending c = s.pending c := by
    simp only [Monitor.operate, Monitor.State.rouse, Monitor.State.move, List.not_mem_nil,
      decide_false, List.filter_false, List.append_nil]
    refine List.filter_eq_self.mpr fun u hu => ?_
    rw [decide_eq_true_eq]
    rintro rfl
    obtain ⟨op', hop', hmay⟩ := h.orderly.pending c u hu
    rw [hpc] at hop'
    cases hop'
    exact absurd (mayWait_iff.mp hmay) (by simp)
  have hbefore : s.waiters c ≠ [] ∨ ∃ u op, s.pc u = .toWait op c := by
    rcases hc with hne | ⟨u, op, hu⟩
    · refine .inl fun hnil => hne ?_
      simp [Monitor.operate, Monitor.State.rouse, Monitor.State.move, hnil]
    · exact .inr ⟨u, op, (Monitor.operate_pc_inv hu (by simp)).2⟩
  rw [hpending]
  change ((s.data.swap q other).queue c).items.length ≤ _
  by_cases htouch : c = q ∨ c = other
  · refine (Kept.mayHold hpc hg htouch).1 (hbefore.imp_right ?_)
    rintro ⟨u, op, hu⟩
    obtain rfl := mayWait_iff.mp (h.orderly.waits u op c (.inl hu))
    rw [← hu]
    exact h.holder_eq (.pop c) (by rw [hu]; rfl)
  · obtain ⟨hq, ho⟩ := not_or.mp htouch
    rw [queue_swap_of_ne hq ho]
    exact h.served c hbefore

theorem step_kept {s s' : State α} {l : Monitor.Label (Op α)} (h : Kept s) (hg : SwapsSafely s l)
    (hst : (monitor α).step s l = some s') : Kept s' := by
  have htested : (monitor α).Tested s' := by
    refine Monitor.step_tested h.orderly h.tested hst ?_
    rintro t op woken u op' rfl hpc hu hm
    exact h.still_unblocked hg hpc hu hm
  have hserved : Monitor.Served avail s' := by
    refine Monitor.step_served (fun _ _ _ => avail_of_blocked) h.served hst ?_
    rintro t op woken rfl hpc hw
    have hcount : (∀ q other, op ≠ .swap q other) → (monitor α).Accounts avail t op s.data :=
      accounts t (h.tested t op hpc)
    cases op with
    | swap q other => exact h.served_swap hg hpc hw
    | _ => exact Monitor.served_operate h.orderly h.served hpc hw (hcount (by simp))
  obtain ⟨hfifo, hunder⟩ : (∀ q, (s'.data.queue q).Fifo) ∧ s'.data.underflow = false := by
    rcases Monitor.step_data hst with hd | ⟨t, op, woken, -, hpc, hd⟩
    · rw [hd]
      exact ⟨h.fifo, h.underflow⟩
    · rw [hd]
      have hbody := body_fifo t (h.tested t op hpc) h.fifo
      exact ⟨fun q => (hbody q).1, (hbody 0).2.trans h.underflow⟩
  exact ⟨Monitor.step_orderly h.orderly hst, htested, hserved, hfifo, hunder⟩

/-! ## 4. No consumer is stranded -/

/-- The values leave in order, no `pop` finds its deque empty, and a consumer waits on a queue
with elements only while a notified consumer of that queue is on its way.  The last part is the
absence of a lost wake-up: whoever sleeps beside an element will not have to wait for another
`push`. -/
def NeverStrands (s : State α) : Prop :=
  (∀ q, (s.data.queue q).left ++ (s.data.queue q).items = (s.data.queue q).pushed) ∧
  s.data.underflow = false ∧
  ∀ t op q, s.pc t = .waiting op q → (s.data.queue q).items ≠ [] →
    ∃ u ∈ s.pending q, (s.pc u).entering = some (.pop q)

/-- **No consumer is stranded, if the swaps are safe.**  For any number of threads and queues and
any interleaving of the monitor steps of `push`, `pop`, `drain` and `swap` in which every swap is
safe.  Three of the operations are taken care of by the rule of the monitor library, through
`accounts`; the fourth by `Kept.served_swap` and `Kept.still_unblocked`. -/
theorem never_strands (s : State α)
    (h : Reach (monitor α).step SwapsSafely (.init .new) s) : NeverStrands s := by
  have hk : Kept s := h.invariant kept_init fun _ _ _ hi hg hst => step_kept hi hg hst
  refine ⟨hk.fifo, hk.underflow, fun t op q hpc hne => ?_⟩
  have ha : 0 < avail q s.data := List.length_pos_iff.mpr hne
  obtain ⟨u, hu, op', hop', hmay⟩ := hk.served.exists_pending hk.orderly hpc ha
  obtain rfl := mayWait_iff.mp hmay
  exact ⟨u, hu, hop'⟩

/-- Two consumers sleep on queue 0, a producer wakes the first; then queue 1, with one element, is
swapped for it. -/
def safeSwap : List (Monitor.Label (Op Nat)) :=
  [.lock 1 (.pop 0), .test 1, .wait 1, .lock 2 (.pop 0), .test 2, .wait 2,
    .lock 3 (.push 0 7), .test 3, .operate 3 [1], .unlock 3, .unsetHolder 3,
    .lock 3 (.push 1 8), .test 3, .operate 3 [], .unlock 3, .unsetHolder 3,
    .lock 3 (.swap 1 0), .test 3, .operate 3 [], .unlock 3, .unsetHolder 3]

theorem never_strands_safeSwap :
    ∃ s, Reach (monitor Nat).step SwapsSafely (.init .new) s ∧ s.pc 2 = .waiting (.pop 0) 0 ∧
      (s.data.queue 0).items = [8] ∧ NeverStrands s := by
  have hrun : ∃ s, Reach (monitor Nat).step SwapsSafely (.init .new) s ∧
      (s.pc 2 = .waiting (.pop 0) 0 ∧ (s.data.queue 0).items = [8]) :=
    Reach.exists_of_exec safeSwap _ (by decide +kernel) (by decide +kernel)
  obtain ⟨s, h, hpc, hi⟩ := hrun
  exact ⟨s, h, hpc, hi, never_strands s h⟩

/-- A consumer sleeps on queue 0 when it is swapped for queue 1, which has an element. -/
def fillingSwap : List (Monitor.Label (Op Nat)) :=
  [.lock 1 (.pop 0), .test 1, .wait 1, .lock 2 (.push 1 7), .test 2, .operate 2 [], .unlock 2,
    .unsetHolder 2, .lock 2 (.swap 0 1), .test 2, .operate 2 [], .unlock 2, .unsetHolder 2]

/-- **`swap` strands a consumer.**  It sleeps on queue 0, whose deque is exchanged for one with
an element, and nobody was notified: after `fillingSwap` no thread is pending at all. -/
theorem swap_strands :
    ¬ ∀ s : State Nat, Reach (monitor Nat).step anyStep (.init .new) s → NeverStrands s := by
  intro hall
  have hrun : ∃ s, Reach (monitor Nat).step anyStep (.init .new) s ∧
      (s.pc 1 = .waiting (.pop 0) 0 ∧ (s.data.queue 0).items = [7] ∧ s.pending 0 = []) :=
    Reach.exists_of_exec fillingSwap _ (meets_any fillingSwap _) (by decide +kernel)
  obtain ⟨s, h, hpc, hi, hp⟩ := hrun
  obtain ⟨u, hu, -⟩ := (hall s h).2.2 1 (.pop 0) 0 hpc (by rw [hi]; simp)
  rw [hp] at hu
  cases hu

end Suduo.BlockingQueue
