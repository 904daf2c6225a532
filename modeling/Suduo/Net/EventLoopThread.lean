/-
# `EventLoopThread`: a loop in a thread of its own, and how it is told to stop

`net/EventLoopThread.cpp` around one `EventLoop`.  The owner starts the thread, waits in `start_loop`
until `thread_func` has published the address of its loop, and in the destructor calls `quit` and joins.
`thread_func` publishes the address BEFORE it calls `loop`, and the first thing `loop` does is to set
`_running`.  So a `quit` that comes in between is undone, and the join waits for a loop that polls on.

`quit_kept` says that this is the only way to lose a `quit`: if none has been called by the time `loop`
is entered, every later one stops the loop at its next test.
-/
import Suduo.Net.EventLoop

namespace Suduo.EventLoopThread

open Lib EventLoop

/-! ## 1. The two threads -/

variable {F : Type}

/-- Where the new thread is in `thread_func`. -/
inductive ThreadFunc
  | notStarted
  /-- `EventLoop loop;` is next. -/
  | construct
  /-- In `_callback(&loop)`. -/
  | callback
  /-- `_loop = &loop; _cond.notify();` under the lock is next. -/
  | publish
  /-- `loop.loop();` is next. -/
  | enter
  | looping
  /-- `loop` has returned; `_loop = nullptr;` under the lock is next. -/
  | clear
  /-- The thread has ended, and its `EventLoop` with it. -/
  | finished
  deriving DecidableEq, Repr

/-- Where the owner is. -/
inductive Owner
  | idle
  /-- In `start_loop`, waiting for `_loop`. -/
  | waiting
  | started
  /-- In `~EventLoopThread`: `_loop` was not null, `_loop->quit()` is next. -/
  | quitting
  /-- In that `quit`, after the store. -/
  | waking
  /-- In `_thread.join()`. -/
  | joining
  | destroyed
  deriving DecidableEq, Repr

/-- An `EventLoopThread`, with the loop on the new thread's stack. -/
structure State (F : Type) where
  eventLoop : EventLoop.State F
  threadFunc : ThreadFunc
  /-- `_loop != nullptr`. -/
  published : Bool
  ownerThread : Tid
  owner : Owner
  /-- Some thread has called `quit` on the loop. -/
  quitCalled : Bool

/-- What can happen next. -/
inductive Label (F : Type)
  /-- A step of the loop, or of a thread that calls it. -/
  | onLoop (l : EventLoop.Label F)
  /-- `_thread.start()`. -/
  | start
  | construct
  | callbackReturn
  | publish
  /-- `loop()`: the store to `_running`. -/
  | enterLoop
  | loopReturn
  | clear
  /-- `start_loop` finds `_loop` set. -/
  | startReturn
  /-- `~EventLoopThread` tests `_loop`. -/
  | destroy
  /-- Its call of `quit`: the store, and the rest. -/
  | destroyQuit
  | destroyWakeup
  | join

/-- The thread that makes the call. -/
def callerOf : EventLoop.Label F → Option Tid
  | .queueInLoop t _ | .runInLoop t _ | .queueWakeup t | .quit t | .quitWakeup t => some t
  | _ => none

/-- The label is the start of a `quit`. -/
def isQuit : EventLoop.Label F → Bool
  | .quit _ => true
  | _ => false

/-- The label enters `loop`. -/
def entersLoop : EventLoop.Label F → Bool
  | .loop => true
  | _ => false

namespace State

def init (loopThread ownerThread : Tid) : State F where
  eventLoop := .init loopThread
  threadFunc := .notStarted
  published := false
  ownerThread := ownerThread
  owner := .idle
  quitCalled := false

/-- The `EventLoop` has been constructed and not destroyed. -/
def alive (s : State F) : Bool :=
  match s.threadFunc with
  | .callback | .publish | .enter | .looping | .clear => true
  | .notStarted | .construct | .finished => false

/-- User code runs on the loop's thread: in `_callback`, or inside `loop`. -/
def userCode (s : State F) : Bool :=
  match s.threadFunc, s.eventLoop.phase with
  | .callback, _ => true
  | .looping, .idle => false
  | .looping, p => p.userCode
  | _, _ => false

/-- Thread `t` may make a step in a call of its own: any other thread at any time. -/
def mayCall (s : State F) (t : Tid) : Bool :=
  if t = s.eventLoop.threadID then s.userCode
  else if t = s.ownerThread then s.owner == .idle || s.owner == .started
  else true

/-- A step on the loop, other than entering it. -/
def mayStep (s : State F) (l : EventLoop.Label F) : Bool :=
  s.alive && !entersLoop l && (callerOf l).all s.mayCall

def step (s : State F) : Label F → Option (State F)
  | .onLoop l =>
    if s.mayStep l then
      (s.eventLoop.step l).map fun e =>
        { s with eventLoop := e, quitCalled := s.quitCalled || isQuit l }
    else none
  | .start =>
    if s.owner = .idle ∧ s.threadFunc = .notStarted then
      some { s with owner := .waiting, threadFunc := .construct }
    else none
  | .construct =>
    if s.threadFunc = .construct then
      some { s with eventLoop := .init s.eventLoop.threadID, threadFunc := .callback }
    else none
  | .callbackReturn =>
    if s.threadFunc = .callback ∧ s.eventLoop.call s.eventLoop.threadID = .none then
      some { s with threadFunc := .publish }
    else none
  | .publish =>
    if s.threadFunc = .publish then some { s with published := true, threadFunc := .enter }
    else none
  | .enterLoop =>
    if s.threadFunc = .enter then
      (s.eventLoop.step .loop).map fun e => { s with eventLoop := e, threadFunc := .looping }
    else none
  | .loopReturn =>
    match s.threadFunc, s.eventLoop.phase with
    | .looping, .idle => some { s with threadFunc := .clear }
    | _, _ => none
  | .clear =>
    if s.threadFunc = .clear then some { s with published := false, threadFunc := .finished }
    else none
  | .startReturn =>
    if s.owner = .waiting ∧ s.published then some { s with owner := .started } else none
  | .destroy =>
    if s.owner = .idle ∨ s.owner = .started then
      some { s with owner := if s.published then .quitting else .destroyed }
    else none
  | .destroyQuit =>
    if s.owner = .quitting ∧ s.alive then
      (s.eventLoop.step (.quit s.ownerThread)).map fun e =>
        { s with eventLoop := e, quitCalled := true, owner := .waking }
    else none
  | .destroyWakeup =>
    if s.owner = .waking ∧ s.alive then
      (s.eventLoop.step (.quitWakeup s.ownerThread)).map fun e =>
        { s with eventLoop := e, owner := .joining }
    else none
  | .join =>
    if s.owner = .joining ∧ s.threadFunc = .finished then some { s with owner := .destroyed }
    else none

end State

/-! ## 2. `quit` is kept -/

/-- Once `quit` has been called, the test of `loop` does not find `_running` set: the loop ends
there, and the join with it. -/
def State.QuitKept (s : State F) : Prop :=
  s.quitCalled = true → s.eventLoop.phase = .test → s.eventLoop.running = false

/-- `loop` is entered before the first `quit`.  For an owner who destroys the object right after
`start_loop` nothing sees to that. -/
def EntersFirst (s : State F) : Label F → Prop
  | .enterLoop => s.quitCalled = false
  | _ => True

instance (s : State F) (l : Label F) : Decidable (EntersFirst s l) :=
  match l with
  | .enterLoop => inferInstanceAs (Decidable (_ = false))
  | .onLoop _ | .start | .construct | .callbackReturn | .publish | .loopReturn | .clear
  | .startReturn | .destroy | .destroyQuit | .destroyWakeup | .join =>
    inferInstanceAs (Decidable True)

/-- A `quit` that was called is not undone, and the owner joins only after one. -/
structure Stopping (s : State F) : Prop where
  running : s.quitCalled = true → s.eventLoop.running = false
  owner : s.owner = .waking ∨ s.owner = .joining → s.quitCalled = true

variable {s s' : State F}

theorem Stopping.quitKept (h : Stopping s) : s.QuitKept := fun hq _ => h.running hq

/-- Only `loop` sets `_running`, and it does so unconditionally. -/
theorem running_of_step {e e' : EventLoop.State F} {l : EventLoop.Label F}
    (h : e.step l = some e') (hl : entersLoop l = false) (hr : e.running = false) :
    e'.running = false := by
  cases step_inv h with
  | loop hp hc => cases hl
  | quit t hc => rfl
  | direct t f => exact hr
  | push t f hc ht => exact hr
  | wake t hc => exact hr
  | noWake t hc ht hq => exact hr
  | testPoll hp hc => exact hr
  | testExit hp hc => exact hr
  | pollReturn wake hp => exact hr
  | handleRead hp => exact hr
  | doPendingFunctors hp hc => exact hr
  | swap hp => exact hr
  | runFunctor f rest hp => exact hr
  | functorReturn f rest hp => exact hr
  | endDrain hp hc => exact hr

/-- `quit` clears `_running`, whatever the loop is doing. -/
theorem running_of_quit {e e' : EventLoop.State F} {t : Tid} (h : e.step (.quit t) = some e') :
    e'.running = false := by
  simp only [EventLoop.State.step] at h
  split at h
  · cases h
    rfl
  · cases h

/-- `loop` stands at its test with `_running` set. -/
theorem enterLoop_eq {e e' : EventLoop.State F} (h : e.step .loop = some e') :
    e' = { e with running := true, phase := .test } := by
  simp only [EventLoop.State.step] at h
  split at h
  · exact (Option.some.inj h).symm
  · cases h

theorem step_stopping {l : Label F} (h : Stopping s) (hg : EntersFirst s l)
    (hst : s.step l = some s') : Stopping s' := by
  cases l with
  | onLoop l =>
    simp only [State.step] at hst
    split at hst
    · rename_i hm
      obtain ⟨e, he, hs'⟩ := Option.map_eq_some_iff.mp hst
      subst hs'
      have hl : entersLoop l = false := by
        simp only [State.mayStep, Bool.and_eq_true, Bool.not_eq_true'] at hm
        exact hm.1.2
      refine ⟨fun hq => ?_, fun ho => by simp [h.owner ho]⟩
      rcases Bool.or_eq_true_iff.mp hq with hq | hq
      · exact running_of_step he hl (h.running hq)
      · cases l with
        | quit t => exact running_of_quit he
        | _ => cases hq
    · cases hst
  | enterLoop =>
    simp only [State.step] at hst
    split at hst
    · obtain ⟨e, he, hs'⟩ := Option.map_eq_some_iff.mp hst
      subst hs'
      refine ⟨fun hq => ?_, h.owner⟩
      rw [show s.quitCalled = false from hg] at hq
      cases hq
    · cases hst
  | construct =>
    simp only [State.step] at hst
    split at hst
    · cases hst
      exact ⟨fun _ => rfl, h.owner⟩
    · cases hst
  | destroyQuit =>
    simp only [State.step] at hst
    split at hst
    · obtain ⟨e, he, hs'⟩ := Option.map_eq_some_iff.mp hst
      subst hs'
      exact ⟨fun _ => running_of_quit he, fun _ => rfl⟩
    · cases hst
  | destroyWakeup =>
    simp only [State.step] at hst
    split at hst
    · rename_i ho
      obtain ⟨e, he, hs'⟩ := Option.map_eq_some_iff.mp hst
      subst hs'
      exact ⟨fun hq => running_of_step he rfl (h.running hq), fun _ => h.owner (.inl ho.1)⟩
    · cases hst
  | start | startReturn | join =>
    simp only [State.step] at hst
    split at hst
    · cases hst
      exact ⟨h.running, by simp⟩
    · cases hst
  | callbackReturn | publish | loopReturn | clear =>
    simp only [State.step] at hst
    split at hst
    · cases hst
      exact ⟨h.running, h.owner⟩
    · cases hst
  | destroy =>
    simp only [State.step] at hst
    split at hst
    · cases hst
      refine ⟨h.running, ?_⟩
      intro ho
      split at ho <;> simp at ho
    · cases hst

/-- A `quit` before `loop` is gone once `loop` is entered, so a step that leaves every `quit` in
force cannot be such an entry. -/
theorem entersFirst_of_quitKept {l : Label F} (hst : s.step l = some s') (hk : s'.QuitKept) :
    EntersFirst s l := by
  cases l with
  | enterLoop =>
    simp only [State.step] at hst
    split at hst
    · obtain ⟨e, he, hs'⟩ := Option.map_eq_some_iff.mp hst
      subst hs'
      rw [enterLoop_eq he] at hk
      by_contra hq
      have hrun := hk (by simpa [EntersFirst] using hq) rfl
      cases hrun
    · cases hst
  | _ => trivial

/-- **`quit` is never lost, if `loop` comes first.**  In every run that enters `loop` before the
first `quit`, a loop on which `quit` has been called never finds `_running` set again, and the
owner joins only such a loop; and entering `loop` after a `quit` loses it.  So the condition is
exact at every step: the invariant of the loop is carried through the steps of `EventLoop`, of
which one alone sets `_running`. -/
theorem quit_kept (loopThread ownerThread : Tid) (s : State F)
    (h : Reach State.step EntersFirst (.init loopThread ownerThread) s) :
    s.QuitKept ∧ (s.owner = .joining → s.quitCalled = true) ∧
      ∀ l s', s.step l = some s' → (s'.QuitKept ↔ EntersFirst s l) := by
  have hinit : Stopping (State.init loopThread ownerThread : State F) :=
    ⟨fun hq => Bool.noConfusion hq, by simp [State.init]⟩
  have hstop : Stopping s := h.invariant hinit fun _ _ _ hi hg hst => step_stopping hi hg hst
  refine ⟨hstop.quitKept, fun ho => hstop.owner (.inr ho), fun l s' hst => ?_⟩
  exact ⟨entersFirst_of_quitKept hst, fun hg => (step_stopping hstop hg hst).quitKept⟩

/-- Start, one round of the loop, and the destructor. -/
def startAndDestroy : List (Label Nat) :=
  [.start, .construct, .callbackReturn, .publish, .startReturn, .enterLoop, .onLoop .testRunning,
    .destroy, .destroyQuit, .destroyWakeup, .onLoop (.pollReturn true), .onLoop .handleRead,
    .onLoop .doPendingFunctors, .onLoop .swap, .onLoop .endDrain]

theorem quit_kept_startAndDestroy :
    ∃ s : State Nat, Reach State.step EntersFirst (.init 1 2) s ∧ s.quitCalled = true ∧
      s.owner = .joining ∧ s.eventLoop.phase = .test ∧ s.eventLoop.running = false := by
  have hrun : ∃ s : State Nat, Reach State.step EntersFirst (.init 1 2) s ∧
      (s.quitCalled = true ∧ s.owner = .joining ∧ s.eventLoop.phase = .test) :=
    Reach.exists_of_exec startAndDestroy _ (by decide +kernel) (by decide +kernel)
  obtain ⟨s, h, hq, ho, hp⟩ := hrun
  exact ⟨s, h, hq, ho, hp, (quit_kept 1 2 s h).1 hq hp⟩

/-- **The destructor right after `start_loop`.**  `start_loop` returns as soon as the address is
published; `quit` comes before `loop` sets `_running`, and the owner joins a loop that polls. -/
def destroyAtOnce : List (Label Nat) :=
  [.start, .construct, .callbackReturn, .publish, .startReturn, .destroy, .destroyQuit,
    .destroyWakeup, .enterLoop]

theorem destroyAtOnce_loses_quit :
    ∃ s : State Nat, Reach State.step anyStep (.init 1 2) s ∧ s.quitCalled = true ∧
      s.owner = .joining ∧ s.eventLoop.phase = .test ∧ s.eventLoop.running = true :=
  Reach.exists_of_exec destroyAtOnce _ (meets_any destroyAtOnce _) (by decide +kernel)

end Suduo.EventLoopThread
