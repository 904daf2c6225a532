/-
# `CountDownLatch`

`base/CountDownLatch.h`: a counter under a mutex.  `wait` waits while it is positive, `count_down`
takes one off and wakes all who wait once nothing is left.  A latch is not used up by those who
wait: it is OPEN from the last `count_down` on, and the rule of `Suduo.Lib.Monitor` for such
conditions applies.

The record beside the counter says at how many `count_down`s each `wait` was let through and each
`get_count` read.  `_count` is an `int` here without bounds: a latch would have to be counted down
2^31 times more than it was made for.
-/
import Suduo.Lib.Monitor

namespace Suduo.CountDownLatch

open Lib

/-! ## 1. The latch -/

inductive Op
  | wait
  | countDown
  | getCount
  deriving DecidableEq, Repr

structure Data where
  /-- `_count`. -/
  count : Int
  /-- How often `count_down` was run. -/
  downs : Nat
  /-- Each `wait` that was let through, and `downs` at that time. -/
  passed : List (Thread × Nat)
  /-- What `get_count` has returned, and `downs` at that time. -/
  reads : List (Int × Nat)
  deriving DecidableEq

/-- The constructor. -/
def Data.new (count : Int) : Data := ⟨count, 0, [], []⟩

def Data.countDown (d : Data) : Data := { d with count := d.count - 1, downs := d.downs + 1 }

/-- The `while` loop of `wait`. -/
def blocked : Op → Data → Option Unit
  | .wait, d => if 0 < d.count then some () else none
  | .countDown, _ | .getCount, _ => none

def monitor : Monitor Unit Unit Data Op where
  mutex := fun _ => ()
  condMutex := fun _ => ()
  blocked := blocked
  body := fun t op d =>
    match op with
    | .wait => { d with passed := d.passed ++ [(t, d.downs)] }
    | .countDown => d.countDown
    | .getCount => { d with reads := d.reads ++ [(d.count, d.downs)] }
  signals := fun op d =>
    match op with
    | .countDown => if d.count - 1 ≤ 0 then [.notifyAll ()] else []
    | .wait | .getCount => []
  blocked_mutex := fun _ => rfl
  blocked_unique := fun _ _ => rfl

abbrev State := Monitor.State Unit Unit Data Op

theorem blocked_eq_some {op : Op} {d : Data} {c : Unit} : monitor.blocked op d = some c ↔ op = .wait ∧ 0 < d.count := by
  cases op with
  | wait => simp [monitor, blocked]
  | countDown => simp [monitor, blocked]
  | getCount => simp [monitor, blocked]

/-- Nothing is left to count down. -/
def Data.IsOpen (_ : Unit) (d : Data) : Prop := d.count ≤ 0

/-- The `count_down` that leaves nothing wakes all, and every one after it does so again. -/
theorem announces (t : Thread) (op : Op) (d : Data) : monitor.Announces Data.IsOpen t op d := by
  intro c hopen
  cases op with
  | wait => exact .inl hopen
  | getCount => exact .inl hopen
  | countDown =>
    have hzero : d.count - 1 ≤ 0 := hopen
    refine .inr ⟨rfl, ?_⟩
    change Signal.notifyAll () ∈ if d.count - 1 ≤ 0 then [_] else []
    rw [if_pos hzero]
    exact List.mem_singleton_self _

/-! ## 2. What every step keeps -/

/-- The record fits the counter of a latch made for `n`: so many have been taken off, and a
`wait` that was let through found none left. -/
structure Data.Counts (n : Int) (d : Data) : Prop where
  count : d.count = n - d.downs
  passed : ∀ p ∈ d.passed, n ≤ p.2 ∧ p.2 ≤ d.downs
  reads : ∀ p ∈ d.reads, p.1 = n - p.2

/-- A body that was let through keeps the record.  A `wait` is let through when nothing is left
to count down, and that is what it notes. -/
theorem Data.Counts.body {n : Int} {d : Data} (h : d.Counts n) (t : Thread) {op : Op}
    (hb : monitor.blocked op d = none) : (monitor.body t op d).Counts n := by
  have hcount := h.count
  cases op with
  | wait =>
    have hopen : ¬ 0 < d.count := by
      intro hpos
      have hblocked : monitor.blocked .wait d = some () := blocked_eq_some.mpr ⟨rfl, hpos⟩
      rw [hb] at hblocked
      cases hblocked
    refine ⟨hcount, fun p hp => ?_, h.reads⟩
    rcases List.mem_append.mp hp with hp | hp
    · exact h.passed p hp
    · rw [List.mem_singleton.mp hp]
      exact ⟨by omega, Nat.le_refl _⟩
  | countDown =>
    refine ⟨?_, fun p hp => ?_, h.reads⟩
    · change d.count - 1 = n - ((d.downs + 1 : Nat) : Int)
      omega
    · obtain ⟨hle, hlater⟩ := h.passed p hp
      exact ⟨hle, Nat.le_succ_of_le hlater⟩
  | getCount =>
    refine ⟨hcount, h.passed, fun p hp => ?_⟩
    rcases List.mem_append.mp hp with hp | hp
    · exact h.reads p hp
    · rw [List.mem_singleton.mp hp]
      exact hcount

structure Kept (n : Int) (s : State) : Prop where
  orderly : monitor.Orderly s
  tested : monitor.Tested s
  cleared : Monitor.Cleared Data.IsOpen s
  counts : s.data.Counts n

theorem kept_init (n : Int) : Kept n (.init (.new n)) where
  orderly := Monitor.orderly_init _
  tested := Monitor.tested_init _
  cleared := Monitor.cleared_init _
  counts := ⟨(Int.sub_zero n).symm, fun _ hp => absurd hp List.not_mem_nil, fun _ hp => absurd hp List.not_mem_nil⟩

theorem step_kept {n : Int} {s s' : State} {l : Monitor.Label Op} (h : Kept n s) (hst : monitor.step s l = some s') :
    Kept n s' := by
  refine ⟨Monitor.step_orderly h.orderly hst, ?_, ?_, ?_⟩
  · -- there is one mutex
    exact Monitor.step_tested h.orderly h.tested hst fun _ _ _ _ _ _ _ _ hm => absurd rfl hm
  · refine Monitor.step_cleared (fun op d c hb hopen => ?_) h.orderly h.cleared hst fun t op _ _ _ => announces t op _
    exact absurd (blocked_eq_some.mp hb).2 (Int.not_lt.mpr hopen)
  · rcases Monitor.step_data hst with hd | ⟨t, op, woken, -, hpc, hd⟩
    · rw [hd]
      exact h.counts
    · rw [hd]
      exact h.counts.body t (h.tested t op hpc)

/-! ## 3. Runs -/

/-- **A latch holds back exactly as long as it was made for.**  For any number of threads and any
interleaving, with spurious wake-ups: no `wait` is let through before the `n`th `count_down`; from
then on nobody sleeps on the latch and nobody is about to; and `get_count` returns what is left.
This holds as long as `_count` stays in the range of `int`, which is without bounds here: to leave
it, a latch would have to be counted down 2^31 times more than it was made for.

The first and the last are read off the counter (`Data.Counts`); the second is the rule of the
monitor library for what stays open, and it needs of the code only that the body that opens the
latch wakes all (`announces`). -/
theorem latch_exact (n : Int) (s : State) (h : Reach monitor.step anyStep (.init (.new n)) s) :
    (∀ p ∈ s.data.passed, n ≤ p.2) ∧
      (n ≤ s.data.downs → ∀ t, s.pc t ≠ .waiting .wait () ∧ s.pc t ≠ .toWait .wait ()) ∧
      (∀ p ∈ s.data.reads, p.1 = n - p.2) := by
  have hk : Kept n s := h.invariant (kept_init n) fun _ _ _ hi _ hst => step_kept hi hst
  refine ⟨fun p hp => (hk.counts.passed p hp).1, fun hdown t => ?_, hk.counts.reads⟩
  have hopen : s.data.IsOpen () := by
    have hcount := hk.counts.count
    change s.data.count ≤ 0
    omega
  obtain ⟨hnone, hnobody⟩ := hk.cleared () hopen
  refine ⟨fun hpc => ?_, hnobody t .wait⟩
  have hin : t ∈ s.waiters () := (hk.orderly.waiters t ()).mpr (by rw [hpc]; rfl)
  rw [hnone] at hin
  cases hin

/-- Two threads sleep on a latch for two; the first `count_down` wakes nobody, the second both. -/
def twoSleepers : List (Monitor.Label Op) :=
  [.lock 1 .wait, .test 1, .wait 1, .lock 2 .wait, .test 2, .wait 2,
    .lock 3 .countDown, .test 3, .operate 3 [], .unlock 3, .wake 1, .relock 1, .test 1, .wait 1, .unsetHolder 3,
    .lock 3 .countDown, .test 3, .operate 3 [1, 2], .unlock 3, .relock 2, .test 2, .operate 2 [], .unlock 2,
    .unsetHolder 2, .unsetHolder 3]

theorem latch_exact_twoSleepers :
    ∃ s, Reach monitor.step anyStep (.init (.new 2)) s ∧ s.data.passed = [(2, 2)] ∧
      (∀ p ∈ s.data.passed, (2 : Int) ≤ p.2) ∧ s.pc 1 ≠ .waiting .wait () := by
  have hrun : ∃ s, Reach monitor.step anyStep (.init (.new 2)) s ∧
      (s.data.passed = [(2, 2)] ∧ s.data.downs = 2) :=
    Reach.exists_of_exec twoSleepers _ (meets_any twoSleepers _) (by decide +kernel)
  obtain ⟨s, h, hpassed, hdowns⟩ := hrun
  obtain ⟨hlet, hawake, -⟩ := latch_exact 2 s h
  exact ⟨s, h, hpassed, hlet, (hawake (by rw [hdowns]; decide) 1).1⟩

end Suduo.CountDownLatch
