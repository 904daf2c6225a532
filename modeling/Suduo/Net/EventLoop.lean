/-
# `EventLoop`: the functor queue, the wakeup fd and the phases of `loop`

`net/EventLoop.cpp`.  One thread runs `loop`; any thread may push functors.  The model follows the
code statement by statement wherever another thread can come in between:

    loop:                 while (_running) { poll; dispatch the active channels; do_pending_functors }
    do_pending_functors:  _calling_pending_functors = true; swap under the lock; run the batch;
                          _calling_pending_functors = false
    queue_in_loop:        push under the lock; then
                          if (!is_in_loop_thread() || _calling_pending_functors) wakeup
    quit:                 _running = false; then if (!is_in_loop_thread()) wakeup

What a channel callback or a functor DOES is not fixed: while one runs, the loop thread may make
any calls.  So a functor is an opaque value `F` and only its place in the queues matters.

Two results.  `functors_in_order`: pushes and runs match up exactly once and in order, and a drain
runs exactly the functors that were pending at its swap.  `polls_awake`: the loop thread never
blocks in `poll` over queued work, PROVIDED it does not itself queue outside `loop`; before
`loop` is entered `queue_in_loop` neither wakes the poll nor drains, and the functor sits out a
whole poll timeout (`sleeps_over_functor_queued_before_loop`).
-/
import Suduo.Lib.Reach
import Mathlib.Algebra.Order.Ring.Nat

namespace Suduo.EventLoop

open Lib

/-! ## 1. The loop, its queue and its callers -/

/-- A kernel thread id. -/
abbrev Tid := Nat

variable {F : Type}

/-- Where the loop thread is in `loop`. -/
inductive Phase (F : Type)
  /-- Not in `loop`: before it is called, or after it has returned. -/
  | idle
  /-- At the test `while (_running)`. -/
  | test
  /-- About to block in `Poller::poll`. -/
  | poll
  /-- Dispatching the active channels; `wake` says that the wakeup channel is still among those
  to be handled. -/
  | dispatch (wake : Bool)
  /-- In `do_pending_functors`, the flag set, the swap next. -/
  | swap
  /-- Running the batch: the functor being run, if any, and those not yet run. -/
  | drain (cur : Option F) (rest : List F)
  deriving DecidableEq, Repr

/-- Callbacks and functors, and code around `loop`, run in these phases. -/
def Phase.userCode : Phase F → Bool
  | .idle | .dispatch _ | .drain (some _) _ => true
  | .test | .poll | .swap | .drain none _ => false

/-- Which call a thread is in the middle of. -/
inductive Call
  | none
  /-- In `queue_in_loop`: the functor is pushed, the test for `wakeup` is next. -/
  | queued
  /-- In `quit`: `_running` is stored, the test for `wakeup` is next. -/
  | quitting
  deriving DecidableEq, Repr

/-- One `EventLoop` and the threads that call it.  The last four fields are history. -/
structure State (F : Type) where
  threadID : Tid
  running : Bool
  eventHandling : Bool
  callingPendingFunctors : Bool
  pendingFunctors : List F
  /-- The counter of the eventfd behind `wakeup_fd`; readable when positive. -/
  wakeupFd : Nat
  phase : Phase F
  call : Tid → Call
  /-- Every functor pushed to `_pending_functors`, in push order. -/
  pushed : List F
  /-- Every functor `do_pending_functors` has run, in order. -/
  ran : List F
  /-- What the last swap took out of `_pending_functors`. -/
  batch : List F
  /-- How many functors have been run since the last swap. -/
  drained : Nat

/-- One atomic step. -/
inductive Label (F : Type)
  /-- `queue_in_loop`: the push under the lock. -/
  | queueInLoop (t : Tid) (f : F)
  /-- `run_in_loop`: runs the functor at once on the loop thread, else queues it. -/
  | runInLoop (t : Tid) (f : F)
  /-- The rest of `queue_in_loop`, after the push. -/
  | queueWakeup (t : Tid)
  /-- `quit`: the store to `_running`. -/
  | quit (t : Tid)
  /-- The rest of `quit`. -/
  | quitWakeup (t : Tid)
  /-- `loop` is entered. -/
  | loop
  /-- The test `while (_running)`. -/
  | testRunning
  /-- `poll` returns, with or without the wakeup channel among the active ones. -/
  | pollReturn (wake : Bool)
  /-- `handle_read` of the wakeup channel. -/
  | handleRead
  /-- The dispatch is over and `do_pending_functors` sets its flag. -/
  | doPendingFunctors
  | swap
  /-- The next functor of the batch is called. -/
  | runFunctor
  | functorReturn
  /-- `do_pending_functors` clears its flag and returns. -/
  | endDrain
  deriving DecidableEq, Repr

namespace State

/-- `EventLoop::EventLoop` in thread `t`. -/
def init (t : Tid) : State F where
  threadID := t
  running := false
  eventHandling := false
  callingPendingFunctors := false
  pendingFunctors := []
  wakeupFd := 0
  phase := .idle
  call := fun _ => .none
  pushed := []
  ran := []
  batch := []
  drained := 0

/-- `is_in_loop_thread`, called by thread `t`. -/
def isInLoopThread (s : State F) (t : Tid) : Bool := s.threadID == t

/-- `wakeup`: write `1` to the eventfd.  A counter at its maximum refuses the write. -/
def wakeup (s : State F) : State F :=
  { s with wakeupFd := if s.wakeupFd + 1 ≤ 2 ^ 64 - 2 then s.wakeupFd + 1 else s.wakeupFd }

/-- `handle_read`: reading an eventfd resets it. -/
def handleRead (s : State F) : State F := { s with wakeupFd := 0 }

def setCall (s : State F) (t : Tid) (c : Call) : State F :=
  { s with call := Function.update s.call t c }

/-- Thread `t` is free to make a call: it is in no other one, and if it is the loop thread it is
running user code. -/
def mayCall (s : State F) (t : Tid) : Bool :=
  s.call t == .none && (!s.isInLoopThread t || s.phase.userCode)

/-- The push of `queue_in_loop`. -/
def push (s : State F) (t : Tid) (f : F) : State F :=
  { s.setCall t .queued with
    pendingFunctors := s.pendingFunctors ++ [f], pushed := s.pushed ++ [f] }

/-- The loop thread goes on in `loop` only when it is in none of its own calls. -/
def atPhase (s : State F) : Option (Phase F) :=
  if s.call s.threadID = .none then some s.phase else none

def step (s : State F) : Label F → Option (State F)
  | .queueInLoop t f => if s.mayCall t then some (s.push t f) else none
  | .runInLoop t f =>
    if s.mayCall t then
      -- on the loop thread the functor is simply called: whatever it does are further labels
      if s.isInLoopThread t then some s else some (s.push t f)
    else none
  | .queueWakeup t =>
    if s.call t = .queued then
      let s' := s.setCall t .none
      if !s.isInLoopThread t || s.callingPendingFunctors then some s'.wakeup else some s'
    else none
  | .quit t => if s.mayCall t then some { s.setCall t .quitting with running := false } else none
  | .quitWakeup t =>
    if s.call t = .quitting then
      let s' := s.setCall t .none
      if !s.isInLoopThread t then some s'.wakeup else some s'
    else none
  | .loop =>
    match s.atPhase with
    | some .idle => some { s with running := true, phase := .test }
    | _ => none
  | .testRunning =>
    match s.atPhase with
    | some .test => some { s with phase := if s.running then .poll else .idle }
    | _ => none
  | .pollReturn wake =>
    match s.atPhase with
    | some .poll =>
      if wake = true → 0 < s.wakeupFd then
        some { s with phase := .dispatch wake, eventHandling := true }
      else none
    | _ => none
  | .handleRead =>
    match s.atPhase with
    | some (.dispatch true) => some { s.handleRead with phase := .dispatch false }
    | _ => none
  | .doPendingFunctors =>
    match s.atPhase with
    | some (.dispatch false) =>
      some { s with phase := .swap, eventHandling := false, callingPendingFunctors := true }
    | _ => none
  | .swap =>
    match s.atPhase with
    | some .swap =>
      some { s with phase := .drain none s.pendingFunctors, batch := s.pendingFunctors,
                    pendingFunctors := [], drained := 0 }
    | _ => none
  | .runFunctor =>
    match s.atPhase with
    | some (.drain none (f :: rest)) =>
      some { s with phase := .drain (some f) rest, ran := s.ran ++ [f], drained := s.drained + 1 }
    | _ => none
  | .functorReturn =>
    match s.atPhase with
    | some (.drain (some _) rest) => some { s with phase := .drain none rest }
    | _ => none
  | .endDrain =>
    match s.atPhase with
    | some (.drain none []) => some { s with phase := .test, callingPendingFunctors := false }
    | _ => none

/-- The functors of the batch held by `do_pending_functors` that are not run yet. -/
def unrun (s : State F) : List F :=
  match s.phase with
  | .drain _ rest => rest
  | _ => []

/-- `wakeup_fd` is readable. -/
def wakeupReadable (s : State F) : Prop := 0 < s.wakeupFd

@[simp] theorem setCall_self (s : State F) (t : Tid) (c : Call) :
    (s.setCall t c).call t = c := by simp [setCall]

theorem setCall_ne (s : State F) {t u : Tid} (c : Call) (h : u ≠ t) :
    (s.setCall t c).call u = s.call u := by simp [setCall, h]

theorem unrun_eq_nil {s : State F} (h : ∀ cur rest, s.phase ≠ .drain cur rest) :
    s.unrun = [] := by
  simp only [unrun]

theorem wakeup_pos (s : State F) : 0 < s.wakeup.wakeupFd := by
  simp only [wakeup]
  split <;> omega

theorem atPhase_eq {s : State F} {p : Phase F} (h : s.atPhase = some p) :
    s.call s.threadID = .none ∧ s.phase = p := by
  simp only [atPhase] at h
  split at h
  · exact ⟨by assumption, Option.some.inj h⟩
  · cases h

end State

/-! ## 2. What one step can do -/

/-- The transitions, one constructor for each way a step can change the state.  A push is one
constructor for `queue_in_loop` and `run_in_loop` both, since on another thread they are the
same. -/
inductive Step (s : State F) : Label F → State F → Prop
  | direct (t : Tid) (f : F) : Step s (.runInLoop t f) s
  | push {l : Label F} (t : Tid) (f : F) (hc : s.call t = .none)
      (ht : t = s.threadID → l = .queueInLoop t f ∧ s.phase.userCode = true) :
      Step s l (s.push t f)
  | wake {l : Label F} (t : Tid) (hc : s.call t ≠ .none) : Step s l (s.setCall t .none).wakeup
  | noWake {l : Label F} (t : Tid) (hc : s.call t ≠ .none) (ht : t = s.threadID)
      (hq : s.call t = .queued → s.callingPendingFunctors = false) :
      Step s l (s.setCall t .none)
  | quit (t : Tid) (hc : s.call t = .none) :
      Step s (.quit t) { s.setCall t .quitting with running := false }
  | loop (hp : s.phase = .idle) (hc : s.call s.threadID = .none) :
      Step s .loop { s with running := true, phase := .test }
  | testPoll (hp : s.phase = .test) (hc : s.call s.threadID = .none) :
      Step s .testRunning { s with phase := .poll }
  | testExit (hp : s.phase = .test) (hc : s.call s.threadID = .none) :
      Step s .testRunning { s with phase := .idle }
  | pollReturn (wake : Bool) (hp : s.phase = .poll) :
      Step s (.pollReturn wake) { s with phase := .dispatch wake, eventHandling := true }
  | handleRead (hp : s.phase = .dispatch true) :
      Step s .handleRead { s.handleRead with phase := .dispatch false }
  | doPendingFunctors (hp : s.phase = .dispatch false) (hc : s.call s.threadID = .none) :
      Step s .doPendingFunctors
        { s with phase := .swap, eventHandling := false, callingPendingFunctors := true }
  | swap (hp : s.phase = .swap) :
      Step s .swap { s with phase := .drain none s.pendingFunctors, batch := s.pendingFunctors,
                            pendingFunctors := [], drained := 0 }
  | runFunctor (f : F) (rest : List F) (hp : s.phase = .drain none (f :: rest)) :
      Step s .runFunctor
        { s with phase := .drain (some f) rest, ran := s.ran ++ [f], drained := s.drained + 1 }
  | functorReturn (f : F) (rest : List F) (hp : s.phase = .drain (some f) rest) :
      Step s .functorReturn { s with phase := .drain none rest }
  | endDrain (hp : s.phase = .drain none []) (hc : s.call s.threadID = .none) :
      Step s .endDrain { s with phase := .test, callingPendingFunctors := false }

theorem mayCall_cases {s : State F} {t : Tid} (h : s.mayCall t = true) :
    s.call t = .none ∧ (t = s.threadID → s.phase.userCode = true) := by
  simp only [State.mayCall, State.isInLoopThread, Bool.and_eq_true, beq_iff_eq, Bool.or_eq_true,
    Bool.not_eq_true', beq_eq_false_iff_ne] at h
  refine ⟨h.1, ?_⟩
  rintro rfl
  rcases h.2 with hne | hu
  · exact absurd rfl hne
  · exact hu

theorem queueInLoop_step {s s' : State F} {t : Tid} {f : F} (h : s.step (.queueInLoop t f) = some s') :
    Step s (.queueInLoop t f) s' := by
  simp only [State.step] at h
  split at h
  · rename_i hm
    cases h
    exact .push t f (mayCall_cases hm).1 fun ht => ⟨rfl, (mayCall_cases hm).2 ht⟩
  · cases h

/-- `run_in_loop` calls the functor on the loop's thread, and queues it on any other. -/
theorem runInLoop_step {s s' : State F} {t : Tid} {f : F} (h : s.step (.runInLoop t f) = some s') :
    Step s (.runInLoop t f) s' := by
  simp only [State.step] at h
  split at h
  · rename_i hm
    split at h
    · cases h
      exact .direct t f
    · rename_i hl
      cases h
      refine .push t f (mayCall_cases hm).1 fun ht => ?_
      exact absurd (by simp [State.isInLoopThread, ht]) hl
  · cases h

/-- The end of `queue_in_loop`: the loop is woken by another thread, and by a functor of the batch. -/
theorem queueWakeup_step {s s' : State F} {t : Tid} (h : s.step (.queueWakeup t) = some s') :
    Step s (.queueWakeup t) s' := by
  simp only [State.step] at h
  split at h
  · rename_i hq
    have hc : s.call t ≠ .none := by simp [hq]
    split at h
    · cases h
      exact .wake t hc
    · rename_i hw
      cases h
      simp only [State.isInLoopThread, Bool.or_eq_true, Bool.not_eq_true',
        beq_eq_false_iff_ne, not_or, not_not, Bool.not_eq_true] at hw
      exact .noWake t hc hw.1.symm fun _ => hw.2
  · cases h

theorem quit_step {s s' : State F} {t : Tid} (h : s.step (.quit t) = some s') : Step s (.quit t) s' := by
  simp only [State.step] at h
  split at h
  · rename_i hm
    cases h
    exact .quit t (mayCall_cases hm).1
  · cases h

/-- The end of `quit`: the loop is woken by another thread. -/
theorem quitWakeup_step {s s' : State F} {t : Tid} (h : s.step (.quitWakeup t) = some s') :
    Step s (.quitWakeup t) s' := by
  simp only [State.step] at h
  split at h
  · rename_i hq
    have hc : s.call t ≠ .none := by simp [hq]
    split at h
    · cases h
      exact .wake t hc
    · rename_i hw
      cases h
      simp only [State.isInLoopThread, Bool.not_eq_true', beq_eq_false_iff_ne, not_not] at hw
      exact .noWake t hc hw.symm fun hq' => by simp [hq] at hq'
  · cases h

/-- The test of `_running`: the loop polls, or ends. -/
theorem testRunning_step {s s' : State F} (h : s.step .testRunning = some s') : Step s .testRunning s' := by
  simp only [State.step] at h
  split at h
  · rename_i hp
    obtain ⟨hc, hp⟩ := State.atPhase_eq hp
    cases h
    split
    · exact .testPoll hp hc
    · exact .testExit hp hc
  · cases h

theorem pollReturn_step {s s' : State F} {wake : Bool} (h : s.step (.pollReturn wake) = some s') :
    Step s (.pollReturn wake) s' := by
  simp only [State.step] at h
  split at h
  · rename_i hp
    split at h
    · cases h
      exact .pollReturn wake (State.atPhase_eq hp).2
    · cases h
  · cases h

/-- **Inversion of a step.**  The loop's thread stands somewhere in `loop`, the others somewhere
in a call, and each constructor moves one of them. -/
theorem step_inv {s s' : State F} {l : Label F} (h : s.step l = some s') : Step s l s' := by
  cases l with
  | queueInLoop t f => exact queueInLoop_step h
  | runInLoop t f => exact runInLoop_step h
  | queueWakeup t => exact queueWakeup_step h
  | quit t => exact quit_step h
  | quitWakeup t => exact quitWakeup_step h
  | testRunning => exact testRunning_step h
  | pollReturn wake => exact pollReturn_step h
  | loop =>
    simp only [State.step] at h
    split at h
    · rename_i hp
      obtain ⟨hc, hp⟩ := State.atPhase_eq hp
      cases h
      exact .loop hp hc
    · cases h
  | handleRead =>
    simp only [State.step] at h
    split at h
    · rename_i hp
      cases h
      exact .handleRead (State.atPhase_eq hp).2
    · cases h
  | doPendingFunctors =>
    simp only [State.step] at h
    split at h
    · rename_i hp
      obtain ⟨hc, hp⟩ := State.atPhase_eq hp
      cases h
      exact .doPendingFunctors hp hc
    · cases h
  | swap =>
    simp only [State.step] at h
    split at h
    · rename_i hp
      cases h
      exact .swap (State.atPhase_eq hp).2
    · cases h
  | runFunctor =>
    simp only [State.step] at h
    split at h
    · rename_i hp
      cases h
      exact .runFunctor _ _ (State.atPhase_eq hp).2
    · cases h
  | functorReturn =>
    simp only [State.step] at h
    split at h
    · rename_i hp
      cases h
      exact .functorReturn _ _ (State.atPhase_eq hp).2
    · cases h
  | endDrain =>
    simp only [State.step] at h
    split at h
    · rename_i hp
      obtain ⟨hc, hp⟩ := State.atPhase_eq hp
      cases h
      exact .endDrain hp hc
    · cases h

/-! ## 3. Exactly once and in order -/

/-- The functor accounts.  `order`: what has run, then the unrun rest of the batch, then the
queue, is what was pushed.  `count`: a drain has run as many functors as its batch has lost.
`batch`: during a drain everything pushed since the swap is still in the queue, so the batch is
made of functors pushed before it. -/
structure FunctorsInOrder (s : State F) : Prop where
  order : s.ran ++ s.unrun ++ s.pendingFunctors = s.pushed
  count : s.drained + s.unrun.length = s.batch.length
  batch : ∀ cur rest, s.phase = .drain cur rest →
    ∃ before, s.pushed = before ++ s.batch ++ s.pendingFunctors ∧
      s.ran = before ++ s.batch.take s.drained ∧ rest = s.batch.drop s.drained

theorem functorsInOrder_init (t : Tid) : FunctorsInOrder (State.init t : State F) where
  order := rfl
  count := rfl
  batch := fun _ _ h => by simp [State.init] at h

/-- A step that changes neither queue, history nor phase keeps the accounts. -/
theorem FunctorsInOrder.of_frame {s s' : State F} (h : FunctorsInOrder s)
    (hpend : s'.pendingFunctors = s.pendingFunctors) (hpush : s'.pushed = s.pushed)
    (hran : s'.ran = s.ran) (hbatch : s'.batch = s.batch) (hdr : s'.drained = s.drained)
    (hph : s'.phase = s.phase) : FunctorsInOrder s' := by
  have hun : s'.unrun = s.unrun := by simp only [State.unrun, hph]
  refine ⟨?_, ?_, ?_⟩
  · rw [hran, hun, hpend, hpush]; exact h.order
  · rw [hdr, hun, hbatch]; exact h.count
  · intro cur rest hp
    rw [hpush, hbatch, hpend, hran, hdr]
    exact h.batch cur rest (hph ▸ hp)

/-- A step of the loop between two phases that hold no batch keeps the accounts. -/
theorem FunctorsInOrder.of_phase {s s' : State F} (h : FunctorsInOrder s)
    (hpend : s'.pendingFunctors = s.pendingFunctors) (hpush : s'.pushed = s.pushed)
    (hran : s'.ran = s.ran) (hbatch : s'.batch = s.batch) (hdr : s'.drained = s.drained)
    (hun : s.unrun = []) (hph : ∀ cur rest, s'.phase ≠ .drain cur rest) :
    FunctorsInOrder s' := by
  have hun' : s'.unrun = [] := State.unrun_eq_nil hph
  refine ⟨?_, ?_, fun cur rest hp => absurd hp (hph cur rest)⟩
  · rw [hran, hun', hpend, hpush, ← hun]; exact h.order
  · rw [hdr, hun', hbatch, ← hun]; exact h.count

theorem step_functorsInOrder {s s' : State F} {l : Label F} (h : FunctorsInOrder s)
    (hst : s.step l = some s') : FunctorsInOrder s' := by
  cases step_inv hst with
  | direct t f => exact h
  | push t f hc ht =>
    have hun : (s.push t f).unrun = s.unrun := rfl
    refine ⟨?_, by rw [hun]; exact h.count, ?_⟩
    · rw [hun]
      simp only [State.push, ← h.order, List.append_assoc]
      rfl
    · intro cur rest hp
      obtain ⟨before, h1, h2, h3⟩ := h.batch cur rest hp
      exact ⟨before, by simp [State.push, State.setCall, h1], h2, h3⟩
  | wake t hc => exact h.of_frame rfl rfl rfl rfl rfl rfl
  | noWake t hc ht hq => exact h.of_frame rfl rfl rfl rfl rfl rfl
  | quit t hc => exact h.of_frame rfl rfl rfl rfl rfl rfl
  | loop hp hc => exact h.of_phase rfl rfl rfl rfl rfl (by simp [State.unrun, hp]) (by simp)
  | testPoll hp hc => exact h.of_phase rfl rfl rfl rfl rfl (by simp [State.unrun, hp]) (by simp)
  | testExit hp hc => exact h.of_phase rfl rfl rfl rfl rfl (by simp [State.unrun, hp]) (by simp)
  | pollReturn wake hp =>
    exact h.of_phase rfl rfl rfl rfl rfl (by simp [State.unrun, hp]) (by simp)
  | handleRead hp => exact h.of_phase rfl rfl rfl rfl rfl (by simp [State.unrun, hp]) (by simp)
  | doPendingFunctors hp hc =>
    exact h.of_phase rfl rfl rfl rfl rfl (by simp [State.unrun, hp]) (by simp)
  | swap hp =>
    -- the whole queue becomes the batch: everything pushed so far is run or in it
    have hun : s.unrun = [] := by simp [State.unrun, hp]
    have ho := h.order
    rw [hun, List.append_nil] at ho
    refine ⟨by simpa [State.unrun] using ho, by simp [State.unrun], ?_⟩
    intro cur rest hr
    cases hr
    exact ⟨s.ran, by simpa using ho.symm, by simp, by simp⟩
  | runFunctor f rest hp =>
    have hun : s.unrun = f :: rest := by simp [State.unrun, hp]
    obtain ⟨before, h1, h2, h3⟩ := h.batch _ _ hp
    have hcount := h.count
    rw [hun] at hcount
    refine ⟨?_, ?_, ?_⟩
    · have ho := h.order
      rw [hun] at ho
      simpa [State.unrun] using ho
    · simp only [State.unrun]
      simp only [List.length_cons] at hcount
      omega
    · intro cur rest' hr
      cases hr
      have hlt : s.drained < s.batch.length := by
        simp only [List.length_cons] at hcount
        omega
      -- the functor just taken is the `drained`-th of the batch
      have hget : s.batch.drop s.drained = s.batch[s.drained] :: s.batch.drop (s.drained + 1) :=
        List.drop_eq_getElem_cons hlt
      have hcons : f :: rest = s.batch[s.drained] :: s.batch.drop (s.drained + 1) :=
        h3.trans hget
      obtain ⟨hf, hrest⟩ := List.cons.inj hcons
      refine ⟨before, h1, ?_, hrest⟩
      simp only [h2, List.append_assoc, hf, List.take_add_one, List.getElem?_eq_getElem hlt,
        Option.toList_some]
  | functorReturn f rest hp =>
    have hun : s.unrun = rest := by simp [State.unrun, hp]
    obtain ⟨before, h1, h2, h3⟩ := h.batch _ _ hp
    refine ⟨?_, ?_, ?_⟩
    · have ho := h.order
      rw [hun] at ho
      exact ho
    · have hc := h.count
      rw [hun] at hc
      exact hc
    · intro cur rest' hr
      cases hr
      exact ⟨before, h1, h2, h3⟩
  | endDrain hp hc => exact h.of_phase rfl rfl rfl rfl rfl (by simp [State.unrun, hp]) (by simp)

/-- **Queued functors run exactly once and in push order.**  At every moment of every interleaving,
what has been run, followed by the unrun rest of the batch, followed by `_pending_functors`, is what
was pushed.  During a drain everything pushed since the swap is still queued, so nothing of it can
be run by this drain; and outside a drain the last one has run exactly as many functors as its swap
found.

The invariant is the account with the batch in it.  A push adds at the end of the queue and of
the history, wherever the loop is; the swap makes the queue the batch; and running a functor
moves it from the one history to the other. -/
theorem functors_in_order (t : Tid) (s : State F) (h : Reach State.step anyStep (.init t) s) :
    s.ran ++ s.unrun ++ s.pendingFunctors = s.pushed ∧
    (∀ cur rest, s.phase = .drain cur rest →
      (∃ before, s.pushed = before ++ s.batch ++ s.pendingFunctors ∧
        s.ran = before ++ s.batch.take s.drained ∧ rest = s.batch.drop s.drained) ∧
      s.drained + rest.length = s.batch.length) ∧
    ((∀ cur rest, s.phase ≠ .drain cur rest) → s.drained = s.batch.length) := by
  have hi : FunctorsInOrder s :=
    h.invariant (functorsInOrder_init t) fun _ _ _ hi _ hst => step_functorsInOrder hi hst
  refine ⟨hi.order, ?_, ?_⟩
  · intro cur rest hp
    have hun : s.unrun = rest := by simp [State.unrun, hp]
    exact ⟨hi.batch cur rest hp, hun ▸ hi.count⟩
  · intro hp
    have hun : s.unrun = [] := State.unrun_eq_nil hp
    have hc := hi.count
    rw [hun] at hc
    simpa using hc

/-- Thread 2 queues functor 7; while thread 1 drains, functor 7 itself queues functor 8. -/
def queuedWhileDraining : List (Label Nat) :=
  [.loop, .testRunning, .queueInLoop 2 7, .queueWakeup 2, .pollReturn true, .handleRead,
    .doPendingFunctors, .swap, .runFunctor, .queueInLoop 1 8, .queueWakeup 1, .functorReturn,
    .endDrain]

theorem functors_in_order_queuedWhileDraining :
    ∃ s, exec State.step (State.init 1) queuedWhileDraining = some s ∧
      s.ran = [7] ∧ s.pendingFunctors = [8] ∧ s.ran ++ s.unrun ++ s.pendingFunctors = s.pushed ∧
      s.drained = s.batch.length := by
  refine ⟨_, rfl, rfl, rfl, ?_⟩
  have h := functors_in_order 1 _ (Reach.of_exec_any queuedWhileDraining rfl)
  exact ⟨h.1, h.2.2 (fun _ _ hp => by cases hp)⟩

/-! ## 4. Sleeping over queued work -/

/-- The loop thread queues only from inside `loop`: from a channel callback or from a functor.
Other threads may queue at any time. -/
def QueuesInsideLoop (s : State F) : Label F → Prop
  | .queueInLoop t _ => t = s.threadID → s.phase ≠ .idle
  | _ => True

/-- Some thread other than the loop's is between the push and the `wakeup` of `queue_in_loop`. -/
def State.pushing (s : State F) : Prop := ∃ t, t ≠ s.threadID ∧ s.call t = .queued

/-- The queue is empty, or something will make the next `poll` return: the wakeup fd is readable,
or another thread is about to make it so. -/
def State.awake (s : State F) : Prop := s.pendingFunctors = [] ∨ s.wakeupReadable ∨ s.pushing

/-- Who has to see to the queue in each phase.  From the swap on it is the wakeup fd, up to and
including the next `poll`; between `poll` and the swap it is the swap itself.  While a functor of
the drain is in the middle of queueing, its own `wakeup` is still to come. -/
structure Watched (s : State F) : Prop where
  quiet : s.phase = .idle ∨ s.phase = .test ∨ s.phase = .poll →
    s.awake ∧ s.call s.threadID ≠ .queued
  drain : ∀ cur rest, s.phase = .drain cur rest →
    s.callingPendingFunctors = true ∧ (s.awake ∨ s.call s.threadID = .queued)
  swap : s.phase = .swap → s.callingPendingFunctors = true

theorem watched_init (t : Tid) : Watched (State.init t : State F) where
  quiet := fun _ => ⟨.inl rfl, by simp [State.init]⟩
  drain := fun _ _ h => by simp [State.init] at h
  swap := fun h => by simp [State.init] at h

/-- A wakeup leaves the fd readable, whoever makes it: a counter at its maximum refuses the
write, but it is readable. -/
theorem awake_wakeup (s : State F) (t : Tid) : (s.setCall t .none).wakeup.awake :=
  .inr (.inl (State.wakeup_pos _))

/-- A push by another thread is itself a promise of a wakeup, because that thread's test cannot
fail. -/
theorem awake_push {s : State F} {t : Tid} (f : F) (ht : t ≠ s.threadID) : (s.push t f).awake :=
  .inr (.inr ⟨t, ht, by simp [State.push]⟩)

/-- The end of a call that is no push leaves the promises of the others. -/
theorem State.awake.setCall {s : State F} {t : Tid} {c : Call} (h : s.awake)
    (ht : t = s.threadID ∨ s.call t ≠ .queued) : (s.setCall t c).awake := by
  rcases h with hp | hr | ⟨u, hu, hcu⟩
  · exact .inl hp
  · exact .inr (.inl hr)
  · have hne : u ≠ t := by
      rintro rfl
      rcases ht with heq | hne
      · exact hu heq
      · exact hne hcu
    refine .inr (.inr ⟨u, hu, ?_⟩)
    rw [State.setCall_ne s c hne]
    exact hcu

theorem State.setCall_not_queued {s : State F} (t : Tid) {u : Tid} {c : Call} (hc : c ≠ .queued)
    (h : s.call u ≠ .queued) : (s.setCall t c).call u ≠ .queued := by
  by_cases htl : u = t
  · rw [htl, State.setCall_self]
    exact hc
  · rw [State.setCall_ne s c htl]
    exact h

theorem step_watched {s s' : State F} {l : Label F} (h : Watched s) (hg : QueuesInsideLoop s l)
    (hst : s.step l = some s') : Watched s' := by
  cases step_inv hst with
  | direct t f => exact h
  | push t f hc ht =>
    by_cases htl : t = s.threadID
    · -- the loop thread pushes: it runs user code inside `loop`, so it is dispatching or draining
      obtain ⟨rfl, hu⟩ := ht htl
      have hidle : s.phase ≠ .idle := hg htl
      refine ⟨?_, ?_, h.swap⟩
      · intro hp
        rcases hp with hp | hp | hp
        · exact absurd hp hidle
        · change s.phase = _ at hp; simp [hp, Phase.userCode] at hu
        · change s.phase = _ at hp; simp [hp, Phase.userCode] at hu
      · intro cur rest hp
        refine ⟨(h.drain cur rest hp).1, .inr ?_⟩
        change (s.setCall t .queued).call s.threadID = .queued
        rw [← htl]
        exact State.setCall_self s t .queued
    · have hl : (s.push t f).call s.threadID = s.call s.threadID :=
        State.setCall_ne s .queued (Ne.symm htl)
      refine ⟨?_, ?_, h.swap⟩
      · intro hp
        exact ⟨awake_push f htl, by
          change (s.push t f).call s.threadID ≠ .queued
          rw [hl]; exact (h.quiet hp).2⟩
      · intro cur rest hp
        exact ⟨(h.drain cur rest hp).1, .inl (awake_push f htl)⟩
  | wake t hc =>
    refine ⟨?_, ?_, h.swap⟩
    · intro hp
      exact ⟨awake_wakeup s t, State.setCall_not_queued t (by simp) (h.quiet hp).2⟩
    · intro cur rest hp
      exact ⟨(h.drain cur rest hp).1, .inl (awake_wakeup s t)⟩
  | noWake t hc ht hq =>
    refine ⟨?_, ?_, h.swap⟩
    · intro hp
      exact ⟨(h.quiet hp).1.setCall (.inl ht), State.setCall_not_queued t (by simp) (h.quiet hp).2⟩
    · intro cur rest hp
      obtain ⟨hcall, ha | hql⟩ := h.drain cur rest hp
      · exact ⟨hcall, .inl (ha.setCall (.inl ht))⟩
      · rw [← ht] at hql
        exact absurd (hq hql) (by simp [hcall])
  | quit t hc =>
    have hfree : s.call t ≠ .queued := by simp [hc]
    refine ⟨?_, ?_, h.swap⟩
    · intro hp
      exact ⟨(h.quiet hp).1.setCall (.inr hfree), State.setCall_not_queued t (by simp) (h.quiet hp).2⟩
    · intro cur rest hp
      obtain ⟨hcall, ha | hql⟩ := h.drain cur rest hp
      · exact ⟨hcall, .inl (ha.setCall (.inr hfree))⟩
      · refine ⟨hcall, .inr ?_⟩
        change (s.setCall t .quitting).call s.threadID = .queued
        rw [State.setCall_ne s _ (by rintro rfl; exact hfree hql)]
        exact hql
  | loop hp hc => exact ⟨fun _ => h.quiet (.inl hp), by simp, by simp⟩
  | testPoll hp hc => exact ⟨fun _ => h.quiet (.inr (.inl hp)), by simp, by simp⟩
  | testExit hp hc => exact ⟨fun _ => h.quiet (.inr (.inl hp)), by simp, by simp⟩
  | pollReturn wake hp => exact ⟨by simp, by simp, by simp⟩
  | handleRead hp => exact ⟨by simp, by simp, by simp⟩
  | doPendingFunctors hp hc => exact ⟨by simp, by simp, by simp⟩
  | swap hp =>
    refine ⟨by simp, ?_, by simp⟩
    intro cur rest _
    exact ⟨h.swap hp, .inl (.inl rfl)⟩
  | runFunctor f rest hp =>
    refine ⟨by simp, ?_, by simp⟩
    intro cur rest' _
    exact h.drain _ _ hp
  | functorReturn f rest hp =>
    refine ⟨by simp, ?_, by simp⟩
    intro cur rest' _
    exact h.drain _ _ hp
  | endDrain hp hc =>
    refine ⟨?_, by simp, by simp⟩
    intro _
    obtain ⟨-, ha | hq⟩ := h.drain _ _ hp
    · exact ⟨ha, by simp [hc]⟩
    · simp [hc] at hq

/-- **The loop never sleeps over queued work, if it queues only from inside `loop`.**  In every
interleaving in which the loop thread calls `queue_in_loop` from channel callbacks and functors
only, whenever it is about to block in `poll` and no other thread is between the push and the
`wakeup` of its own `queue_in_loop`, the queue is empty or the wakeup fd is readable.

What has to be known between two polls is `Watched`: up to the swap the swap will see the queue,
and from the swap on somebody must wake the poll.  A functor that queues does so while
`_calling_pending_functors` is set, a callback before the swap; outside `loop` it is neither, and
that is the run of `queuedBeforeLoop`. -/
theorem polls_awake (t : Tid) (s : State F)
    (h : Reach State.step QueuesInsideLoop (.init t) s) (hp : s.phase = .poll)
    (hpush : ¬ s.pushing) : s.pendingFunctors = [] ∨ s.wakeupReadable := by
  have hw : Watched s :=
    h.invariant (watched_init t) fun _ _ _ hi hg hst => step_watched hi hg hst
  obtain ⟨(he | hr | hq), -⟩ := hw.quiet (.inr (.inr hp))
  · exact .inl he
  · exact .inr hr
  · exact absurd hq hpush

/-- Thread 1 runs the loop, thread 2 queues functor 7 and wakes it. -/
def queuedByOther : List (Label Nat) :=
  [.loop, .testRunning, .queueInLoop 2 7, .queueWakeup 2]

theorem polls_awake_queuedByOther :
    ∃ s, exec State.step (State.init 1) queuedByOther = some s ∧ s.phase = .poll ∧
      s.pendingFunctors = [7] ∧ (s.pendingFunctors = [] ∨ s.wakeupReadable) := by
  refine ⟨_, rfl, rfl, rfl, ?_⟩
  refine polls_awake 1 _ (Reach.of_exec queuedByOther (State.init 1) ?_ rfl) rfl ?_
  · refine ⟨trivial, ?_⟩
    rintro _ ⟨⟩
    refine ⟨trivial, ?_⟩
    rintro _ ⟨⟩
    refine ⟨fun h => absurd h (by decide), ?_⟩
    rintro _ ⟨⟩
    exact ⟨trivial, fun _ _ => trivial⟩
  · rintro ⟨u, -, hu⟩
    simp [State.wakeup, State.setCall, State.push, State.init] at hu

/-- The loop's own thread queues functor 7 and then calls `loop`. -/
def queuedBeforeLoop : List (Label Nat) :=
  [.queueInLoop 1 7, .queueWakeup 1, .loop, .testRunning]

/-- **A functor queued by the loop thread before `loop` is slept over.**  The loop thread is about
to block, no thread is in any call, `_pending_functors` holds the functor, and the wakeup fd is not
readable. -/
theorem sleeps_over_functor_queued_before_loop :
    ∃ s : State Nat, Reach State.step anyStep (State.init 1) s ∧ s.phase = .poll ∧
      (∀ u, s.call u = .none) ∧ ¬ (s.pendingFunctors = [] ∨ s.wakeupReadable) := by
  refine ⟨_, Reach.of_exec_any queuedBeforeLoop rfl, rfl, ?_, ?_⟩
  · intro u
    simp [State.setCall, State.push, State.init]
  · rintro (he | hr)
    · cases he
    · exact absurd hr (Nat.lt_irrefl 0)

end Suduo.EventLoop
