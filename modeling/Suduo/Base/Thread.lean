/-
# `Thread`: what `start` waits for

`base/Thread.cpp`: a `Thread` object in the hands of its owner, and the thread it stands for.
`start` creates the thread and waits on a `CountDownLatch` for one; the new thread stores its tid in
the object, counts the latch down, and goes on to name itself and to call the function.  So `start`
returns only when the tid is there, whatever the order of the steps.

The new thread works on the object through pointers, and `start` does not wait for the last use of
them.  The latch lets the owner through as soon as its mutex is given back, and that is not the end
of `count_down`: the mutex's mark of its holder is cleared after it (`State.Released` is where the
new thread is then, at the least).  And after the latch `pthread_setname_np(*_thread_id, …)` reads
`_thread_id`.  The owner may have destroyed the object by either, since `~Thread` detaches a thread
that was not joined.  (The function and the name are copies.)

Thread `0` is the owner, thread `1` the new one; only they know the latch.  A thread whose function
throws takes the process with it: `LOG_FATAL` aborts, and so does the exception that is thrown on.
-/
import Suduo.Base.CountDownLatch

namespace Suduo.Thread

open Lib

/-! ## 1. The two threads -/

/-- Where the new thread is in `run_thread_func`. -/
inductive Child
  | notCreated
  /-- `*tid = Current_thread_info::tid();` is next. -/
  | storeTid
  /-- In `latch->count_down()`. -/
  | counting
  /-- `pthread_setname_np(*_thread_id, …)` is next. -/
  | naming
  /-- `_func()` is next. -/
  | calling
  | running
  | ended
  deriving DecidableEq, Repr

/-- The thread has left the latch behind. -/
def Child.past : Child → Bool
  | .naming | .calling | .running | .ended => true
  | .notCreated | .storeTid | .counting => false

/-- How often `_func` was called. -/
def Child.calls : Child → Nat
  | .running | .ended => 1
  | .notCreated | .storeTid | .counting | .naming | .calling => 0

/-- Where the owner is. -/
inductive Owner
  /-- Between two calls. -/
  | idle
  /-- In `_latch.wait()`. -/
  | inStart
  /-- In `pthread_join`. -/
  | inJoin
  /-- The object is destroyed. -/
  | gone
  deriving DecidableEq, Repr

inductive Assertion
  /-- `assert(!_started)` of `start`, and `assert(_tid > 0)` at its end. -/
  | notStarted
  | tidStored
  /-- `assert(_started)` and `assert(!_joined)` of `join`. -/
  | started
  | notJoined
  deriving DecidableEq, Repr

structure State where
  latch : CountDownLatch.State
  owner : Owner
  child : Child
  started : Bool
  joined : Bool
  /-- `_tid`. -/
  tid : Nat
  /-- What `gettid` returns in the new thread. -/
  ownTid : Nat
  /-- How often `_func` was called. -/
  calls : Nat
  failed : List Assertion
  /-- The process has ended with an exception. -/
  aborted : Bool
  detached : Bool
  /-- The new thread has used the object after it was destroyed. -/
  dangling : Bool

/-- The constructor. -/
def State.init : State where
  latch := .init (.new 1)
  owner := .idle
  child := .notCreated
  started := false
  joined := false
  tid := 0
  ownTid := 0
  calls := 0
  failed := []
  aborted := false
  detached := false
  dangling := false

inductive Label
  /-- `start`, up to the wait: `pthread_create` fails, or makes a thread with this tid. -/
  | start (created : Option Nat)
  | storeTid
  /-- A step of `_latch.wait()` or of `latch->count_down()`. -/
  | onLatch (l : Monitor.Label CountDownLatch.Op)
  | setName
  | callFunc
  | funcReturns
  | funcThrows
  | join
  | joinReturns
  /-- `~Thread`. -/
  | destroy
  deriving DecidableEq, Repr

/-- A lock step enters this section. -/
def enters (op : CountDownLatch.Op) : Monitor.Label CountDownLatch.Op → Bool
  | .lock _ op' => op' = op
  | _ => true

namespace State

/-- The program goes on. -/
def Running (s : State) : Prop := s.failed = [] ∧ s.aborted = false

instance (s : State) : Decidable s.Running := inferInstanceAs (Decidable (_ ∧ _))

/-- The new thread uses the object. -/
def touch (s : State) : State := { s with dangling := s.dangling || decide (s.owner = .gone) }

def fail (s : State) (a : Assertion) : State := { s with failed := s.failed ++ [a] }

/-- A step of the owner's `_latch.wait()`; with its last, which clears the holder of the mutex,
come `assert(_tid > 0)` and the end of `start`. -/
def ownerWaits (s : State) (l : Monitor.Label CountDownLatch.Op) (k : CountDownLatch.State) : State :=
  if l = .unsetHolder 0 then
    if 0 < s.tid then { s with latch := k, owner := .idle } else { s with latch := k, owner := .idle }.fail .tidStored
  else { s with latch := k }

/-- A step of the new thread's `latch->count_down()`.  Every one of them uses the object, in
which the latch is. -/
def childCounts (s : State) (l : Monitor.Label CountDownLatch.Op) (k : CountDownLatch.State) : State :=
  if l = .unsetHolder 1 then { s with latch := k, child := .naming }.touch else { s with latch := k }.touch

def step (s : State) (l : Label) : Option State :=
  if s.Running then
    match l with
    | .start created =>
      if s.owner = .idle then
        if s.started then some (s.fail .notStarted)
        else
          match created with
          | none => some s
          | some tid =>
            -- the kernel's tids are positive
            if 0 < tid then
              some { s with started := true, child := .storeTid, ownTid := tid, owner := .inStart }
            else none
      else none
    | .storeTid =>
      if s.child = .storeTid then some { s with tid := s.ownTid, child := .counting }.touch else none
    | .onLatch l =>
      if l.thread = 0 ∧ s.owner = .inStart ∧ enters .wait l then
        (CountDownLatch.monitor.step s.latch l).map (s.ownerWaits l)
      else if l.thread = 1 ∧ s.child = .counting ∧ enters .countDown l then
        (CountDownLatch.monitor.step s.latch l).map (s.childCounts l)
      else none
    | .setName => if s.child = .naming then some { s with child := .calling }.touch else none
    | .callFunc => if s.child = .calling then some { s with child := .running, calls := s.calls + 1 } else none
    | .funcReturns => if s.child = .running then some { s with child := .ended } else none
    | .funcThrows => if s.child = .running then some { s with aborted := true } else none
    | .join =>
      if s.owner = .idle then
        if s.started = false then some (s.fail .started)
        else if s.joined then some (s.fail .notJoined)
        else some { s with joined := true, owner := .inJoin }
      else none
    | .joinReturns =>
      if s.owner = .inJoin ∧ s.child = .ended then some { s with owner := .idle } else none
    | .destroy =>
      if s.owner = .idle then some { s with owner := .gone, detached := s.started && !s.joined } else none
  else none

end State

/-- The transitions, one constructor for each way a step can change the state. -/
inductive Step (s : State) : Label → State → Prop
  | startAgain (created : Option Nat) (ho : s.owner = .idle) : Step s (.start created) (s.fail .notStarted)
  | startFails (ho : s.owner = .idle) : Step s (.start none) s
  | start (tid : Nat) (ho : s.owner = .idle) (hs : s.started = false) (htid : 0 < tid) :
      Step s (.start (some tid))
        { s with started := true, child := .storeTid, ownTid := tid, owner := .inStart }
  | storeTid (hc : s.child = .storeTid) : Step s .storeTid { s with tid := s.ownTid, child := .counting }.touch
  | ownerWaits (l : Monitor.Label CountDownLatch.Op) (k : CountDownLatch.State) (ht : l.thread = 0)
      (ho : s.owner = .inStart) (hl : enters .wait l = true)
      (hk : CountDownLatch.monitor.step s.latch l = some k) : Step s (.onLatch l) (s.ownerWaits l k)
  | childCounts (l : Monitor.Label CountDownLatch.Op) (k : CountDownLatch.State) (ht : l.thread = 1)
      (hc : s.child = .counting) (hl : enters .countDown l = true)
      (hk : CountDownLatch.monitor.step s.latch l = some k) : Step s (.onLatch l) (s.childCounts l k)
  | setName (hc : s.child = .naming) : Step s .setName { s with child := .calling }.touch
  | callFunc (hc : s.child = .calling) : Step s .callFunc { s with child := .running, calls := s.calls + 1 }
  | funcReturns (hc : s.child = .running) : Step s .funcReturns { s with child := .ended }
  | funcThrows (hc : s.child = .running) : Step s .funcThrows { s with aborted := true }
  | joinFails (a : Assertion) (ho : s.owner = .idle) (ha : a ≠ .tidStored) : Step s .join (s.fail a)
  | join (ho : s.owner = .idle) (hs : s.started = true) :
      Step s .join { s with joined := true, owner := .inJoin }
  | joinReturns (ho : s.owner = .inJoin) (hc : s.child = .ended) : Step s .joinReturns { s with owner := .idle }
  | destroy (ho : s.owner = .idle) :
      Step s .destroy { s with owner := .gone, detached := s.started && !s.joined }

/-- **Inversion of a step.**  What holds of every step is proved one constructor at a time. -/
theorem step_inv {s s' : State} {lb : Label} (hst : s.step lb = some s') : Step s lb s' := by
  simp only [State.step, Option.ite_none_right_eq_some] at hst
  obtain ⟨-, hst⟩ := hst
  cases lb with
  | start created =>
    simp only [Option.ite_none_right_eq_some] at hst
    obtain ⟨ho, hst⟩ := hst
    split at hst
    · cases hst
      exact .startAgain created ho
    · rename_i hs
      cases created with
      | none =>
        cases hst
        exact .startFails ho
      | some tid =>
        simp only [Option.ite_none_right_eq_some, Option.some.injEq] at hst
        obtain ⟨htid, rfl⟩ := hst
        exact .start tid ho (Bool.eq_false_iff.mpr hs) htid
  | storeTid =>
    simp only [Option.ite_none_right_eq_some, Option.some.injEq] at hst
    obtain ⟨hc, rfl⟩ := hst
    exact .storeTid hc
  | onLatch l =>
    dsimp only at hst
    split at hst
    · rename_i hl
      obtain ⟨k, hk, rfl⟩ := Option.map_eq_some_iff.mp hst
      exact .ownerWaits l k hl.1 hl.2.1 hl.2.2 hk
    · simp only [Option.ite_none_right_eq_some] at hst
      obtain ⟨hl, hst⟩ := hst
      obtain ⟨k, hk, rfl⟩ := Option.map_eq_some_iff.mp hst
      exact .childCounts l k hl.1 hl.2.1 hl.2.2 hk
  | setName =>
    simp only [Option.ite_none_right_eq_some, Option.some.injEq] at hst
    obtain ⟨hc, rfl⟩ := hst
    exact .setName hc
  | callFunc =>
    simp only [Option.ite_none_right_eq_some, Option.some.injEq] at hst
    obtain ⟨hc, rfl⟩ := hst
    exact .callFunc hc
  | funcReturns =>
    simp only [Option.ite_none_right_eq_some, Option.some.injEq] at hst
    obtain ⟨hc, rfl⟩ := hst
    exact .funcReturns hc
  | funcThrows =>
    simp only [Option.ite_none_right_eq_some, Option.some.injEq] at hst
    obtain ⟨hc, rfl⟩ := hst
    exact .funcThrows hc
  | join =>
    simp only [Option.ite_none_right_eq_some] at hst
    obtain ⟨ho, hst⟩ := hst
    split at hst
    · cases hst
      exact .joinFails .started ho (by decide)
    · rename_i hs
      split at hst
      · cases hst
        exact .joinFails .notJoined ho (by decide)
      · cases hst
        exact .join ho (Bool.not_eq_false _ ▸ hs)
  | joinReturns =>
    simp only [Option.ite_none_right_eq_some, Option.some.injEq] at hst
    obtain ⟨⟨ho, hc⟩, rfl⟩ := hst
    exact .joinReturns ho hc
  | destroy =>
    simp only [Option.ite_none_right_eq_some, Option.some.injEq] at hst
    obtain ⟨ho, rfl⟩ := hst
    exact .destroy ho

/-! ## 2. What every step keeps -/

/-- The new thread has given the latch's mutex back.  At most the last write of its `count_down`
is left, which clears the mutex's mark of its holder. -/
def State.Released (s : State) : Prop := s.child.past = true ∨ s.latch.pc 1 = .unlocking .countDown

instance (s : State) : Decidable s.Released := inferInstanceAs (Decidable (_ ∨ _))

/-- The new thread has done the body of its `count_down`. -/
def State.Counted (s : State) : Prop := s.Released ∨ s.latch.pc 1 = .leaving .countDown

instance (s : State) : Decidable s.Counted := inferInstanceAs (Decidable (_ ∨ _))

/-- What every step of the two threads keeps.  The clauses about the latch (`downs`, `handed`)
say that the owner can be past its `wait` only when the new thread has counted down and given the
mutex back, and with it the ones about the object (`returned`, `stored`) give what `start`
promises. -/
structure Sound (s : State) : Prop where
  latch : CountDownLatch.Kept 1 s.latch
  ownerOp : ∀ op ∈ (s.latch.pc 0).op, op = .wait
  childOp : ∀ op ∈ (s.latch.pc 1).op, op = .countDown
  ownerOut : s.owner ≠ .inStart → s.latch.pc 0 = .outside
  childOut : s.child ≠ .counting → s.latch.pc 1 = .outside
  downs : s.latch.data.downs = if s.Counted then 1 else 0
  /-- Whoever has done the body of the `wait` finds the latch's mutex given back by the new thread. -/
  handed : s.latch.pc 0 = .leaving .wait ∨ s.latch.pc 0 = .unlocking .wait → s.Released
  returned : s.started = true → s.owner ≠ .inStart → s.Released
  created : s.started = false ↔ s.child = .notCreated
  stored : s.child ≠ .notCreated → s.child ≠ .storeTid → s.tid = s.ownTid
  ownTid : s.child ≠ .notCreated → 0 < s.ownTid
  calls : s.calls = s.child.calls
  joined : s.joined = true → s.started = true ∧ (s.owner ≠ .inJoin → s.child = .ended)
  inJoin : s.owner = .inJoin → s.joined = true
  tidStored : .tidStored ∉ s.failed

theorem sound_init : Sound .init where
  latch := CountDownLatch.kept_init 1
  ownerOp := fun _ h => by cases h
  childOp := fun _ h => by cases h
  ownerOut := fun _ => rfl
  childOut := fun _ => rfl
  downs := by decide
  handed := by rintro (h | h) <;> cases h
  returned := fun h => by cases h
  created := ⟨fun _ => rfl, fun _ => rfl⟩
  stored := fun h => absurd rfl h
  ownTid := fun h => absurd rfl h
  calls := rfl
  joined := fun h => by cases h
  inJoin := fun h => by cases h
  tidStored := List.not_mem_nil

variable {s s' : State} {k : CountDownLatch.State} {l : Monitor.Label CountDownLatch.Op}

/-- Where the object stands is not the latch's business. -/
theorem Sound.touch (h : Sound s) : Sound s.touch :=
  ⟨h.latch, h.ownerOp, h.childOp, h.ownerOut, h.childOut, h.downs, h.handed, h.returned, h.created,
    h.stored, h.ownTid, h.calls, h.joined, h.inJoin, h.tidStored⟩

theorem Sound.fail (h : Sound s) {a : Assertion} (ha : a ≠ .tidStored) : Sound (s.fail a) := by
  refine { h with tidStored := fun hin => ?_ }
  rcases List.mem_append.mp hin with hin | hin
  · exact h.tidStored hin
  · exact ha (List.mem_singleton.mp hin).symm

/-- The new thread was created and has stored its tid, if it has given the latch's mutex back. -/
theorem Sound.stored_of_released (h : Sound s) (hr : s.Released) :
    s.child ≠ .notCreated ∧ s.child ≠ .storeTid := by
  have hnot (c : Child) (hpast : c.past = false) (hout : c ≠ .counting) : s.child ≠ c := by
    rintro rfl
    rcases hr with hr | hr
    · rw [hpast] at hr
      cases hr
    · rw [h.childOut hout] at hr
      cases hr
  exact ⟨hnot .notCreated rfl (by decide), hnot .storeTid rfl (by decide)⟩

/-- A place inside a section that no other thread moves a thread to or from: such a place is
neither asleep nor woken.  So what the new thread has said by its place stays said during the
owner's steps, and the other way round. -/
theorem pc_iff_of_ne {t : Thread} {p : Monitor.Pc Unit CountDownLatch.Op}
    (hst : CountDownLatch.monitor.step s.latch l = some k) (ht : t ≠ l.thread) (hp : p.awake = p)
    (hw : ∀ op, p ≠ .woken op) : k.pc t = p ↔ s.latch.pc t = p := by
  rcases Monitor.step_pc_of_ne hst ht with hpc | hpc
  · rw [hpc]
  · rw [hpc]
    refine ⟨Monitor.awake_eq hw, fun hpc' => ?_⟩
    rw [hpc', hp]

theorem outside_of_ne {t : Thread} (hst : CountDownLatch.monitor.step s.latch l = some k) (ht : t ≠ l.thread)
    (hout : s.latch.pc t = .outside) : k.pc t = .outside := by
  rcases Monitor.step_pc_of_ne hst ht with hpc | hpc
  · rw [hpc, hout]
  · rw [hpc, hout]
    rfl

/-- A thread is in one kind of section only, the owner in `wait` and the new thread in
`count_down`. -/
theorem op_of_step {t : Thread} {op : CountDownLatch.Op} (hst : CountDownLatch.monitor.step s.latch l = some k)
    (hop : ∀ op' ∈ (s.latch.pc t).op, op' = op) (hl : l.thread = t → enters op l = true) :
    ∀ op' ∈ (k.pc t).op, op' = op := by
  rcases Monitor.step_op hst t with hsame | ⟨op₁, rfl, hlock⟩ | ⟨-, hout⟩
  · rw [hsame]
    exact hop
  · intro op' hop'
    rw [hlock] at hop'
    cases hop'
    exact of_decide_eq_true (hl rfl)
  · intro op' hop'
    rw [hout] at hop'
    cases hop'

/-- **The owner is through only when the new thread has given the mutex back.**  The test found
the count at zero, so the new thread has done its body; it is not at the end of it with the mutex
still in its hands, because the owner is inside the mutex. -/
theorem Sound.released_of_passing (h : Sound s) (hpc : s.latch.pc 0 = .passing .wait) : s.Released := by
  have hopen := h.latch.tested 0 .wait hpc
  have hdown : s.latch.data.downs ≠ 0 := by
    intro hzero
    have hcount := h.latch.counts.count
    have hblocked : CountDownLatch.monitor.blocked .wait s.latch.data = some () := by
      refine CountDownLatch.blocked_eq_some.mpr ⟨rfl, ?_⟩
      omega
    rw [hopen] at hblocked
    cases hblocked
  have hcounted : s.Counted := by
    by_contra hnot
    rw [h.downs, if_neg hnot] at hdown
    exact hdown rfl
  refine hcounted.resolve_right fun hleaving => ?_
  -- both would be inside the mutex
  have howner : (s.latch.pc 0).inside = some .wait := by rw [hpc]; rfl
  have hchild : (s.latch.pc 1).inside = some .countDown := by rw [hleaving]; rfl
  exact absurd (h.latch.orderly.exclusive howner hchild rfl) Nat.zero_ne_one

/-- A step of the owner's `wait` counts nothing down. -/
theorem Sound.downs_of_owner (h : Sound s) (hst : CountDownLatch.monitor.step s.latch l = some k)
    (ht : l.thread = 0) : k.data.downs = s.latch.data.downs := by
  rcases Monitor.step_data hst with hd | ⟨t, op, woken, rfl, hpc, hd⟩
  · rw [hd]
  · obtain rfl : t = 0 := ht
    obtain rfl : op = .wait := h.ownerOp op (by rw [hpc]; rfl)
    rw [hd]
    rfl

/-- Where the new thread is, after a step of the owner on the latch. -/
theorem released_of_owner (hst : CountDownLatch.monitor.step s.latch l = some k) (ht : l.thread = 0) :
    { s with latch := k }.Released ↔ s.Released := by
  have hne : (1 : Thread) ≠ l.thread := by
    rw [ht]
    decide
  exact or_congr_right (pc_iff_of_ne hst hne rfl (by simp))

/-- The owner is at the end of its `wait` only after the body, and before the body it had found
the count at zero. -/
theorem Sound.handed_of_owner (h : Sound s) (hst : CountDownLatch.monitor.step s.latch l = some k)
    (hend : k.pc 0 = .leaving .wait ∨ k.pc 0 = .unlocking .wait) : s.Released := by
  rcases hend with hend | hend
  · rcases Monitor.step_leaving hst hend with hbefore | ⟨woken, -, hpassing⟩
    · exact h.handed (.inl hbefore)
    · exact h.released_of_passing hpassing
  · rcases Monitor.step_unlocking hst hend with hbefore | ⟨-, hbefore⟩
    · exact h.handed (.inr hbefore)
    · exact h.handed (.inl hbefore)

theorem Sound.ownerWaits (h : Sound s) (ht : l.thread = 0) (ho : s.owner = .inStart) (hl : enters .wait l = true)
    (hst : CountDownLatch.monitor.step s.latch l = some k) : Sound (s.ownerWaits l k) := by
  have hne : (1 : Thread) ≠ l.thread := by
    rw [ht]
    decide
  have hreleased := released_of_owner hst ht
  have hcounted : k.data.downs = if { s with latch := k }.Counted then 1 else 0 := by
    rw [h.downs_of_owner hst ht, h.downs]
    exact if_congr (or_congr hreleased.symm (pc_iff_of_ne hst hne rfl (by simp)).symm) rfl rfl
  have hstays : Sound { s with latch := k } :=
    ⟨CountDownLatch.step_kept h.latch hst, op_of_step hst h.ownerOp fun _ => hl,
      op_of_step hst h.childOp fun hone => absurd hone.symm hne, fun hout => absurd ho hout,
      fun hc => outside_of_ne hst hne (h.childOut hc), hcounted,
      fun hend => hreleased.mpr (h.handed_of_owner hst hend), fun _ hout => absurd ho hout, h.created, h.stored,
      h.ownTid, h.calls, h.joined, h.inJoin, h.tidStored⟩
  unfold State.ownerWaits
  split
  · rename_i hunset
    subst hunset
    obtain ⟨op, hbefore, hafter, -⟩ := Monitor.step_unsetHolder hst
    obtain rfl : op = .wait := h.ownerOp op (by rw [hbefore]; rfl)
    have hr : s.Released := h.handed (.inr hbefore)
    obtain ⟨hcreated, hstored⟩ := h.stored_of_released hr
    have htid : 0 < s.tid := by
      rw [h.stored hcreated hstored]
      exact h.ownTid hcreated
    rw [if_pos htid]
    exact { hstays with
      ownerOut := fun _ => hafter
      returned := fun _ _ => hreleased.mpr hr
      joined := fun hj => ⟨(h.joined hj).1, fun _ => (h.joined hj).2 (by rw [ho]; decide)⟩
      inJoin := by rintro ⟨⟩ }
  · exact hstays

/-- While the new thread is in the latch, no `join` has returned. -/
theorem Sound.inJoin_of_counting (h : Sound s) (hc : s.child = .counting) (hj : s.joined = true) :
    s.owner = .inJoin := by
  by_contra ho
  have hended := (h.joined hj).2 ho
  rw [hc] at hended
  cases hended

/-- The new thread counts down once, in its body, and keeps on the latch what it has said by it. -/
theorem Sound.downs_of_child (h : Sound s) (ht : l.thread = 1) (hc : s.child = .counting)
    (hst : CountDownLatch.monitor.step s.latch l = some k) (hend : l ≠ .unsetHolder 1) :
    k.data.downs = if { s with latch := k }.Counted then 1 else 0 := by
  have hpast : s.child.past = false := by rw [hc]; rfl
  have hnotPast : ¬ s.child.past = true := by
    rw [hpast]
    exact Bool.false_ne_true
  have hthread (op : CountDownLatch.Op) : s.latch.pc 1 ≠ .unlocking op := by
    intro hunlocking
    rw [← ht] at hunlocking
    have hlast := Monitor.step_of_unlocking hst hunlocking
    rw [ht] at hlast
    exact hend hlast
  have hdata (hbody : ∀ woken, l ≠ .operate 1 woken) : k.data = s.latch.data := by
    rcases Monitor.step_data hst with hd | ⟨t, op, woken, rfl, -, -⟩
    · exact hd
    · obtain rfl : t = 1 := ht
      exact absurd rfl (hbody woken)
  by_cases hleaving : s.latch.pc 1 = .leaving .countDown
  · -- the mutex is given back
    have hl : l = .unlock 1 := by
      have hunlock := Monitor.step_of_leaving hst (by rw [ht]; exact hleaving)
      rwa [ht] at hunlock
    subst hl
    obtain ⟨op, hbefore, hafter, -⟩ := Monitor.step_unlock hst
    obtain rfl : op = .countDown := h.childOp op (by rw [hbefore]; rfl)
    rw [hdata (by simp), h.downs, if_pos (.inr hleaving)]
    exact (if_pos (.inl (.inr hafter))).symm
  · have hbefore : s.latch.data.downs = 0 := by
      refine h.downs.trans (if_neg ?_)
      rintro ((hp | hunlocking) | hl)
      · exact hnotPast hp
      · exact hthread _ hunlocking
      · exact hleaving hl
    by_cases hbody : ∃ woken, l = .operate 1 woken
    · obtain ⟨woken, rfl⟩ := hbody
      obtain ⟨op, hpc, hafter, hd⟩ := Monitor.step_operate hst
      obtain rfl : op = .countDown := h.childOp op (by rw [hpc]; rfl)
      rw [if_pos (.inr hafter), hd]
      exact congrArg Nat.succ hbefore
    · rw [hdata fun woken hl => hbody ⟨woken, hl⟩, hbefore]
      refine (if_neg ?_).symm
      rintro ((hp | hunlocking) | hl)
      · exact hnotPast hp
      · rcases Monitor.step_unlocking hst hunlocking with hbefore | ⟨-, hbefore⟩
        · exact hthread _ hbefore
        · exact hleaving hbefore
      · rcases Monitor.step_leaving hst hl with hbefore | ⟨woken, hl, -⟩
        · exact hleaving hbefore
        · exact hbody ⟨woken, hl⟩

/-- What the new thread has given back stays so. -/
theorem released_of_child (hst : CountDownLatch.monitor.step s.latch l = some k) (ht : l.thread = 1)
    (hend : l ≠ .unsetHolder 1) (hr : s.Released) : { s with latch := k }.Released := by
  rcases hr with hpast | hunlocking
  · exact .inl hpast
  · rw [← ht] at hunlocking
    have hlast := Monitor.step_of_unlocking hst hunlocking
    rw [ht] at hlast
    exact absurd hlast hend

theorem Sound.childCounts (h : Sound s) (ht : l.thread = 1) (hc : s.child = .counting)
    (hl : enters .countDown l = true) (hst : CountDownLatch.monitor.step s.latch l = some k) :
    Sound (s.childCounts l k) := by
  have hne : (0 : Thread) ≠ l.thread := by
    rw [ht]
    decide
  have hlatch := CountDownLatch.step_kept h.latch hst
  have hownerOp := op_of_step hst h.ownerOp fun hzero => absurd hzero.symm hne
  have hchildOp := op_of_step hst h.childOp fun _ => hl
  have hownerOut (ho : s.owner ≠ .inStart) : k.pc 0 = .outside := outside_of_ne hst hne (h.ownerOut ho)
  unfold State.childCounts
  split
  · -- out of the latch
    rename_i hunset
    subst hunset
    obtain ⟨op, hbefore, hafter, hdata⟩ := Monitor.step_unsetHolder hst
    obtain rfl : op = .countDown := h.childOp op (by rw [hbefore]; rfl)
    have hdowns : k.data.downs = 1 := by
      rw [hdata, h.downs]
      exact if_pos (.inl (.inr hbefore))
    refine Sound.touch ⟨hlatch, hownerOp, hchildOp, hownerOut, fun _ => hafter, ?_, fun _ => .inl rfl,
      fun _ _ => .inl rfl, ⟨fun hs => ?_, by rintro ⟨⟩⟩, fun _ _ => ?_, fun _ => ?_, ?_,
      fun hj => ⟨(h.joined hj).1, fun ho => absurd (h.inJoin_of_counting hc hj) ho⟩, h.inJoin, h.tidStored⟩
    · exact hdowns.trans (if_pos (.inl (.inl rfl))).symm
    · rw [h.created.mp hs] at hc
      cases hc
    · exact h.stored (by rw [hc]; decide) (by rw [hc]; decide)
    · exact h.ownTid (by rw [hc]; decide)
    · exact h.calls.trans (by rw [hc]; rfl)
  · rename_i hinside
    have hstays := released_of_child hst ht hinside
    refine Sound.touch ⟨hlatch, hownerOp, hchildOp, hownerOut, fun hout => absurd hc hout,
      h.downs_of_child ht hc hst hinside, fun hend => hstays (h.handed ?_), fun hs ho => hstays (h.returned hs ho),
      h.created, h.stored, h.ownTid, h.calls, h.joined, h.inJoin, h.tidStored⟩
    exact hend.imp (pc_iff_of_ne hst hne rfl (by simp)).mp (pc_iff_of_ne hst hne rfl (by simp)).mp

/-- Before the latch the new thread has given nothing back. -/
theorem not_released (hpast : s.child.past = false) (hpc : s.latch.pc 1 = .outside) : ¬ s.Released := by
  rintro (hp | hunlocking)
  · rw [hpast] at hp
    cases hp
  · rw [hpc] at hunlocking
    cases hunlocking

/-- And it has not counted down, since it does so after it has stored its tid. -/
theorem not_counted (hpast : s.child.past = false) (hpc : s.latch.pc 1 = .outside) : ¬ s.Counted := by
  rintro (hr | hleaving)
  · exact not_released hpast hpc hr
  · rw [hpc] at hleaving
    cases hleaving

theorem Sound.start (h : Sound s) (ho : s.owner = .idle) (hs : s.started = false) {tid : Nat} (htid : 0 < tid) :
    Sound { s with started := true, child := .storeTid, ownTid := tid, owner := .inStart } := by
  have hc : s.child = .notCreated := h.created.mp hs
  have hpc : s.latch.pc 1 = .outside := h.childOut (by rw [hc]; decide)
  have hdowns : s.latch.data.downs = 0 := h.downs.trans (if_neg (not_counted (by rw [hc]; rfl) hpc))
  have hout : s.latch.pc 0 = .outside := h.ownerOut (by rw [ho]; decide)
  refine ⟨h.latch, h.ownerOp, h.childOp, fun hn => absurd rfl hn, fun _ => hpc, ?_,
    fun hend => ?_, fun _ hn => absurd rfl hn, ⟨by rintro ⟨⟩, by rintro ⟨⟩⟩,
    fun _ hn => absurd rfl hn, fun _ => htid, ?_, fun hj => ?_, by rintro ⟨⟩, h.tidStored⟩
  · refine hdowns.trans (if_neg ?_).symm
    exact not_counted rfl hpc
  · rcases hend with hend | hend
    · rw [hout] at hend
      cases hend
    · rw [hout] at hend
      cases hend
  · exact h.calls.trans (by rw [hc]; rfl)
  · rw [(h.joined hj).1] at hs
    cases hs

theorem Sound.storeTid (h : Sound s) (hc : s.child = .storeTid) :
    Sound { s with tid := s.ownTid, child := .counting } := by
  have hpc : s.latch.pc 1 = .outside := h.childOut (by rw [hc]; decide)
  have hpast : s.child.past = false := by rw [hc]; rfl
  have hnot : ¬ s.Released := not_released hpast hpc
  refine ⟨h.latch, h.ownerOp, h.childOp, h.ownerOut, fun _ => hpc, ?_, fun hend => absurd (h.handed hend) hnot,
    fun hs ho => absurd (h.returned hs ho) hnot, ⟨fun hs => ?_, by rintro ⟨⟩⟩, fun _ _ => rfl,
    fun _ => h.ownTid (by rw [hc]; decide), ?_, fun hj => ?_, h.inJoin, h.tidStored⟩
  · refine (h.downs.trans (if_neg (not_counted hpast hpc))).trans (if_neg ?_).symm
    exact not_counted rfl hpc
  · rw [h.created.mp hs] at hc
    cases hc
  · exact h.calls.trans (by rw [hc]; rfl)
  · refine ⟨(h.joined hj).1, fun ho => ?_⟩
    have hended := (h.joined hj).2 ho
    rw [hc] at hended
    cases hended

/-- Past the latch the new thread is alone, and of the object it has only `_thread_id` left to
read. -/
theorem Sound.moveOn (h : Sound s) (hpast : s.child.past = true) (hend : s.child ≠ .ended) {c : Child}
    (hc : c.past = true) : Sound { s with child := c, calls := c.calls } := by
  have hof (d : Child) (hd : d.past = true) : d ≠ .notCreated ∧ d ≠ .storeTid ∧ d ≠ .counting := by
    refine ⟨?_, ?_, ?_⟩
    · rintro rfl
      cases hd
    · rintro rfl
      cases hd
    · rintro rfl
      cases hd
  obtain ⟨hcreated, hstore, hcounting⟩ := hof s.child hpast
  refine ⟨h.latch, h.ownerOp, h.childOp, h.ownerOut, fun _ => h.childOut hcounting, ?_, fun _ => .inl hc,
    fun _ _ => .inl hc,
    ⟨fun hs => absurd (h.created.mp hs) hcreated, fun hn => absurd hn (hof c hc).1⟩,
    fun _ _ => h.stored hcreated hstore, fun _ => h.ownTid hcreated, rfl,
    fun hj => ⟨(h.joined hj).1, fun ho => absurd ((h.joined hj).2 ho) hend⟩, h.inJoin, h.tidStored⟩
  exact (h.downs.trans (if_pos (.inl (.inl hpast)))).trans (if_pos (.inl (.inl hc))).symm

/-- The owner goes in and out of `join`, or destroys the object.  None of this is about the
latch, so of the invariant only what is known of a `join` has to be looked at. -/
theorem Sound.setOwner (h : Sound s) (hs : s.owner ≠ .inStart) (o : Owner) (_ : o ≠ .inStart) {joined : Bool}
    (hj : joined = true → s.started = true ∧ (o ≠ .inJoin → s.child = .ended)) (hin : o = .inJoin → joined = true)
    (detached : Bool) : Sound { s with owner := o, joined := joined, detached := detached } :=
  ⟨h.latch, h.ownerOp, h.childOp, fun _ => h.ownerOut hs, h.childOut, h.downs, h.handed,
    fun hst _ => h.returned hst hs, h.created, h.stored, h.ownTid, h.calls, hj, hin, h.tidStored⟩

theorem step_sound {lb : Label} (h : Sound s) (hst : s.step lb = some s') : Sound s' := by
  cases step_inv hst with
  | startAgain created ho => exact h.fail (by decide)
  | startFails ho => exact h
  | start tid ho hs htid => exact h.start ho hs htid
  | storeTid hc => exact (h.storeTid hc).touch
  | ownerWaits l k ht ho hl hk => exact h.ownerWaits ht ho hl hk
  | childCounts l k ht hc hl hk => exact h.childCounts ht hc hl hk
  | setName hc =>
    have hmoved := h.moveOn (by rw [hc]; rfl) (by rw [hc]; decide) (c := .calling) rfl
    have hcalls : Child.calls .calling = s.calls := by
      rw [h.calls, hc]
      rfl
    rw [hcalls] at hmoved
    exact hmoved.touch
  | callFunc hc =>
    have hmoved := h.moveOn (by rw [hc]; rfl) (by rw [hc]; decide) (c := .running) rfl
    have hcalls : Child.calls .running = s.calls + 1 := by
      rw [h.calls, hc]
      rfl
    rw [hcalls] at hmoved
    exact hmoved
  | funcReturns hc =>
    have hmoved := h.moveOn (by rw [hc]; rfl) (by rw [hc]; decide) (c := .ended) rfl
    have hcalls : Child.calls .ended = s.calls := by
      rw [h.calls, hc]
      rfl
    rw [hcalls] at hmoved
    exact hmoved
  | funcThrows hc => exact { h with tidStored := h.tidStored }
  | joinFails a ho ha => exact h.fail ha
  | join ho hs =>
    exact h.setOwner (by rw [ho]; decide) .inJoin (by decide) (fun _ => ⟨hs, fun hn => absurd rfl hn⟩)
      (fun _ => rfl) s.detached
  | joinReturns ho hc =>
    exact h.setOwner (by rw [ho]; decide) .idle (by decide) (fun hj => ⟨(h.joined hj).1, fun _ => hc⟩) (by rintro ⟨⟩)
      s.detached
  | destroy ho =>
    exact h.setOwner (by rw [ho]; decide) .gone (by decide)
      (fun hj => ⟨(h.joined hj).1, fun _ => (h.joined hj).2 (by rw [ho]; decide)⟩) (by rintro ⟨⟩) _

theorem reach_sound {G : State → Label → Prop} (h : Reach State.step G .init s) : Sound s :=
  h.invariant sound_init fun _ _ _ hi _ hst => step_sound hi hst

/-! ## 3. `start` and `join` -/

/-- The owner sleeps on the latch, is woken for nothing, and wakes for good when the new thread
has counted down; `start` returns while the new thread has still to clear the holder of the
latch's mutex. -/
def startReturns : List Label :=
  [.start (some 7), .onLatch (.lock 0 .wait), .onLatch (.test 0), .onLatch (.wait 0), .onLatch (.wake 0),
    .onLatch (.relock 0), .onLatch (.test 0), .onLatch (.wait 0), .storeTid, .onLatch (.lock 1 .countDown),
    .onLatch (.test 1), .onLatch (.operate 1 [0]), .onLatch (.unlock 1), .onLatch (.relock 0), .onLatch (.test 0),
    .onLatch (.operate 0 []), .onLatch (.unlock 0), .onLatch (.unsetHolder 0)]

def startAndJoin : List Label :=
  startReturns ++ [.onLatch (.unsetHolder 1), .setName, .join, .callFunc, .funcReturns, .joinReturns]

/-- The object is not destroyed before the new thread has its name, which it gets after it has
left the latch. -/
def OutlivesNaming (s : State) : Label → Prop
  | .destroy => s.child ≠ .counting ∧ s.child ≠ .naming
  | _ => True

instance (s : State) (l : Label) : Decidable (OutlivesNaming s l) := by
  unfold OutlivesNaming
  split <;> infer_instance

/-- Between two calls of the owner a thread that was made has its tid in the object. -/
theorem Sound.stored_of_idle (h : Sound s) (ho : s.owner = .idle) : s.child ≠ .storeTid := by
  intro hc
  have hstarted : s.started = true := by
    by_contra hs
    have hnot := h.created.mp (Bool.eq_false_iff.mpr hs)
    rw [hc] at hnot
    cases hnot
  exact (h.stored_of_released (h.returned hstarted (by rw [ho]; decide))).2 hc

/-- Once the object is gone, the new thread does not need it any more, and it was not used after
its end. -/
structure Outlived (s : State) : Prop where
  sound : Sound s
  done : s.owner = .gone → s.child ≠ .storeTid ∧ s.child ≠ .counting ∧ s.child ≠ .naming
  intact : s.dangling = false

theorem touch_dangling (hs : s.dangling = false) (ho : s.owner ≠ .gone) : s.touch.dangling = false := by
  rw [State.touch, hs, decide_eq_false ho]
  rfl

/-- In a call of the owner the object is there.  The owner is inside `start`. -/
theorem ownerWaits_keeps (ho : s.owner = .inStart) (l : Monitor.Label CountDownLatch.Op) (k : CountDownLatch.State) :
    (s.ownerWaits l k).owner ≠ .gone ∧ (s.ownerWaits l k).dangling = s.dangling := by
  unfold State.ownerWaits
  split
  · split
    · exact ⟨by rintro ⟨⟩, rfl⟩
    · exact ⟨by rintro ⟨⟩, rfl⟩
  · rw [ho]
    exact ⟨by decide, rfl⟩

theorem childCounts_keeps (l : Monitor.Label CountDownLatch.Op) (k : CountDownLatch.State) :
    (s.childCounts l k).owner = s.owner ∧ (s.childCounts l k).dangling = s.touch.dangling := by
  unfold State.childCounts
  split
  · exact ⟨rfl, rfl⟩
  · exact ⟨rfl, rfl⟩

theorem step_outlived {lb : Label} (h : Outlived s) (hg : OutlivesNaming s lb) (hst : s.step lb = some s') :
    Outlived s' := by
  have hsound := step_sound h.sound hst
  cases step_inv hst with
  | startAgain | startFails | funcThrows | joinFails => exact ⟨hsound, h.done, h.intact⟩
  | start | join | joinReturns => exact ⟨hsound, by rintro ⟨⟩, h.intact⟩
  | storeTid hc =>
    have ho : s.owner ≠ .gone := fun ho => (h.done ho).1 hc
    exact ⟨hsound, fun hgone => absurd hgone ho, touch_dangling h.intact ho⟩
  | ownerWaits l k ht ho hl hk =>
    obtain ⟨hthere, hkeep⟩ := ownerWaits_keeps ho l k
    exact ⟨hsound, fun hgone => absurd hgone hthere, hkeep.trans h.intact⟩
  | childCounts l k ht hc hl hk =>
    have ho : s.owner ≠ .gone := fun ho => (h.done ho).2.1 hc
    obtain ⟨howner, hkeep⟩ := childCounts_keeps (s := s) l k
    exact ⟨hsound, fun hgone => absurd (howner.symm.trans hgone) ho, hkeep.trans (touch_dangling h.intact ho)⟩
  | setName hc =>
    have ho : s.owner ≠ .gone := fun ho => (h.done ho).2.2 hc
    exact ⟨hsound, fun hgone => absurd hgone ho, touch_dangling h.intact ho⟩
  | callFunc | funcReturns => exact ⟨hsound, fun _ => ⟨by rintro ⟨⟩, by rintro ⟨⟩, by rintro ⟨⟩⟩, h.intact⟩
  | destroy ho => exact ⟨hsound, fun _ => ⟨h.sound.stored_of_idle ho, hg⟩, h.intact⟩

/-- **An object that outlives the naming is not used after it.**  In every run in which the
object is destroyed only when the new thread has left the latch and has got its name, nothing
that the new thread does is done to a dead object.  An object that is joined first meets the
condition by itself: then the thread has ended. -/
theorem named_intact (s : State) (h : Reach State.step OutlivesNaming .init s) :
    s.dangling = false ∧ (s.joined = true → s.owner = .idle → OutlivesNaming s .destroy) := by
  have ho : Outlived s := h.invariant ⟨sound_init, by rintro ⟨⟩, rfl⟩ fun _ _ _ hi hg hst => step_outlived hi hg hst
  refine ⟨ho.intact, fun hj hidle => ?_⟩
  have hended := (ho.sound.joined hj).2 (by rw [hidle]; decide)
  change s.child ≠ .counting ∧ s.child ≠ .naming
  rw [hended]
  exact ⟨by decide, by decide⟩

/-- The owner destroys the object when the new thread has its name, without a `join`; the thread
is detached and goes on. -/
def detachedNamed : List Label := startReturns ++ [.onLatch (.unsetHolder 1), .setName, .destroy, .callFunc]

theorem named_intact_detachedNamed :
    ∃ s, Reach State.step OutlivesNaming .init s ∧ s.detached = true ∧ s.child = .running ∧ s.dangling = false := by
  have hrun : ∃ s, Reach State.step OutlivesNaming .init s ∧ (s.detached = true ∧ s.child = .running) :=
    Reach.exists_of_exec detachedNamed _ (by decide +kernel) (by decide +kernel)
  obtain ⟨s, h, hdetached, hc⟩ := hrun
  exact ⟨s, h, hdetached, hc, (named_intact s h).1⟩

/-- One that goes with the end of `start` is used after it, first of all by what is left of `count_down`. -/
theorem detached_dangles :
    ∃ s, Reach State.step anyStep .init s ∧ s.failed = [] ∧ s.detached = true ∧ s.dangling = true :=
  Reach.exists_of_exec (startReturns ++ [.destroy, .onLatch (.unsetHolder 1)]) _
    (meets_any (startReturns ++ [.destroy, .onLatch (.unsetHolder 1)]) _) (by decide +kernel)

end Suduo.Thread
