/-
# Whose thread the timers are touched on

`net/TimerQueue.cpp` with the entry points of `net/EventLoop.cpp` and `TcpConnection::force_close_with_delay`,
called by any thread.  `cancel` queues `cancel_in_loop`, which with `handle_read` asserts that it is on the
loop's thread.  `add_timer` does neither: the `run_in_loop` and the assertion in `insert` are commented out,
so it inserts into `_timers` and `_active_timers` on the thread that calls it, whatever the loop is doing.

The queue is the one of `TimerQueue`, with its steps; each is now made by a thread, and every one that inserts
into the two maps, erases from them or iterates over them is entered in `accesses`.  A call runs in steps of
its own, between which the other threads go on.  `add_timer` is one of them: what two threads inside the
`std::map` at once do to it is left out.

A thread other than the loop's that adds a timer gets in between the steps of a `handle_read`
(`other_thread_inserts`), and any call of it by another thread leads to such an access
(`outsider_accesses`).  As long as only the loop's thread adds timers the maps are its own
(`accesses_confined`), and the queue does what it does without threads (`queue_reach`).
-/
import Suduo.Net.TimerRound
import Suduo.Net.TcpConnection

namespace Suduo.TimerThreads

open Lib
open TcpConnection (Tid ConnState)

/-! ## 1. The threads -/

/-- The functions that touch `_timers` and `_active_timers`. -/
inductive Site
  /-- `add_timer`, through `insert`. -/
  | addTimer
  | cancelInLoop
  /-- `handle_read`, with `reset`. -/
  | handleRead
  deriving DecidableEq, Repr

/-- A step that inserts into the maps, erases from them or iterates over them.  It is entered by
the step that makes it; the code keeps no such record. -/
structure Access where
  thread : Tid
  site : Site
  /-- `handle_read` is in progress, and in none of its callbacks. -/
  atWork : Bool
  deriving DecidableEq, Repr

/-- How far a thread is in a call. -/
inductive Call (κ : Type)
  | idle
  /-- `force_close_with_delay` has found `_state` open. -/
  | setState (connection : κ) (seconds : Int)
  | runAfter (delay : Int)
  | addTimer (when : Int) (interval : Interval)
  deriving DecidableEq, Repr

/-- The timers of a loop, its connections and the threads. -/
structure State (κ : Type) where
  loopThread : Tid
  queue : TimerQueue.State
  /-- The `cancel_in_loop` calls in the loop's functor queue. -/
  pendingFunctors : List Nat
  /-- `_state` of each connection. -/
  state : κ → ConnState
  call : Tid → Call κ
  accesses : List Access

/-- Durations are nanoseconds, as the code casts its doubles. -/
inductive Label (κ : Type)
  | tick (ns : Nat)
  | delay (ns : Nat)
  | createdElsewhere
  /-- The rest of `TcpConnection` sets `_state`. -/
  | setState (connection : κ) (state : ConnState)
  | runAt (t : Tid) (time : Int)
  | runAfter (t : Tid) (delay : Int)
  | runEvery (t : Tid) (interval : Interval)
  | cancel (t : Tid) (timerId : Nat)
  | forceCloseWithDelay (t : Tid) (connection : κ) (seconds : Int)
  /-- Thread `t` goes on in its call. -/
  | resume (t : Tid)
  | handleRead (t : Tid)
  | runCallback
  | callbackReturns
  | finish
  /-- `do_pending_functors` calls the next one. -/
  | runFunctor (t : Tid)
  deriving DecidableEq, Repr

variable {κ : Type}

def State.init (loopThread : Tid) (clock : Int) : State κ where
  loopThread := loopThread
  queue := .init clock
  pendingFunctors := []
  state := fun _ => .connecting
  call := fun _ => .idle
  accesses := []

/-- The test of `force_close_with_delay`. -/
def isOpen : ConnState → Bool
  | .connected | .disconnecting => true
  | .disconnected | .connecting => false

namespace State

/-- `is_in_loop_thread`. -/
def isInLoopThread (s : State κ) (t : Tid) : Bool := t = s.loopThread

/-- Thread `t` is free to make a call: that of the loop while user code runs on it. -/
def free (s : State κ) (t : Tid) : Bool :=
  match s.call t with
  | .idle => !s.isInLoopThread t || s.queue.userCode
  | _ => false

def setCall (s : State κ) (t : Tid) (c : Call κ) : State κ :=
  { s with call := Function.update s.call t c }

/-- A call begins. -/
def begin (s : State κ) (t : Tid) (c : Call κ) : Option (State κ) :=
  if s.free t then some (s.setCall t c) else none

/-- The queue is taken to `q` by thread `t`. -/
def accessed (s : State κ) (t : Tid) (site : Site) (q : TimerQueue.State) : State κ :=
  { s with queue := q, accesses := s.accesses ++ [⟨t, site, !s.queue.userCode⟩] }

/-- The next step of `handle_read`. -/
def loopStep (s : State κ) (l : TimerQueue.Label) : Option (State κ) :=
  if s.call s.loopThread matches .idle then
    (s.queue.step l).map (s.accessed s.loopThread .handleRead)
  else none

variable [DecidableEq κ]

/-- The next step of the call that thread `t` is in. -/
def resume (s : State κ) (t : Tid) : Option (State κ) :=
  match s.call t with
  | .idle => none
  | .setState connection seconds =>
    some { s.setCall t (.runAfter seconds) with
      state := Function.update s.state connection .disconnecting }
  | .runAfter delay => some (s.setCall t (.addTimer (Timestamp.add s.queue.clock delay) ⟨false, 0⟩))
  | .addTimer when interval =>
    (s.queue.addTimer when interval).map ((s.setCall t .idle).accessed t .addTimer)

def step (s : State κ) : Label κ → Option (State κ)
  | .tick ns => some { s with queue := { s.queue with clock := s.queue.clock + ns } }
  | .delay ns => some { s with queue := { s.queue with delay := ns } }
  | .createdElsewhere =>
    some { s with queue := { s.queue with created := s.queue.created + 1 } }
  | .setState connection state =>
    some { s with state := Function.update s.state connection state }
  | .runAt t time => s.begin t (.addTimer time ⟨false, 0⟩)
  | .runAfter t delay => s.begin t (.runAfter delay)
  | .runEvery t interval =>
    s.begin t (.addTimer (Timestamp.add s.queue.clock interval.nanoseconds) interval)
  | .cancel t timerId =>
    if s.free t then some { s with pendingFunctors := s.pendingFunctors ++ [timerId] } else none
  | .forceCloseWithDelay t connection seconds =>
    s.begin t (if isOpen (s.state connection) then .setState connection seconds else .idle)
  | .resume t => s.resume t
  -- `assert_in_loop_thread` aborts on any other thread
  | .handleRead t => if s.isInLoopThread t then s.loopStep .handleRead else none
  | .runCallback => s.loopStep .runCallback
  | .callbackReturns => s.loopStep .callbackReturns
  | .finish => s.loopStep .finish
  | .runFunctor t =>
    match s.pendingFunctors with
    | [] => none
    | timerId :: rest =>
      if s.isInLoopThread t ∧ s.free t ∧ s.queue.walk.isNone then
        (s.queue.cancelInLoop timerId).map
          ({ s with pendingFunctors := rest }.accessed t .cancelInLoop)
      else none

end State

/-! ## 2. What one step can do -/

section Inversion

variable {s s' : State κ} {t : Tid}

theorem begin_eq {c : Call κ} (h : s.begin t c = some s') :
    s.free t = true ∧ s' = s.setCall t c := by
  simp only [State.begin] at h
  split at h
  · rename_i hf
    cases h
    exact ⟨hf, rfl⟩
  · cases h

@[simp] theorem setCall_self (c : Call κ) : (s.setCall t c).call t = c := Function.update_self ..

theorem setCall_of_ne {u : Tid} (h : u ≠ t) (c : Call κ) : (s.setCall t c).call u = s.call u :=
  Function.update_of_ne h ..

theorem setCall_eq_self {c : Call κ} (h : s.call t = c) : s.setCall t c = s := by
  rw [State.setCall, ← h, Function.update_eq_self]

theorem free_idle (h : s.free t = true) : s.call t = .idle := by
  simp only [State.free] at h
  split at h
  · assumption
  · cases h

/-- The loop's thread is free in user code only. -/
theorem free_userCode (h : s.free s.loopThread = true) : s.queue.userCode = true := by
  simp only [State.free, free_idle h] at h
  simpa [State.isInLoopThread] using h

theorem loopStep_eq {l : TimerQueue.Label} (h : s.loopStep l = some s') :
    s.call s.loopThread = .idle ∧
      ∃ q, s.queue.step l = some q ∧ s' = s.accessed s.loopThread .handleRead q := by
  simp only [State.loopStep] at h
  split at h
  · rename_i hc
    obtain ⟨q, hq, rfl⟩ := Option.map_eq_some_iff.mp h
    refine ⟨?_, q, hq, rfl⟩
    cases hcall : s.call s.loopThread with
    | idle => rfl
    | setState | runAfter | addTimer => simp [hcall] at hc
  · cases h

variable [DecidableEq κ]

/-- **What a step does to the queue and to the record.**  One leaves both alone and begins no
call or one of its thread's; one changes only the clock, the delay or the counter; one touches
the maps and is recorded.  The four results below look at steps only through this. -/
inductive Step (s : State κ) : Label κ → State κ → Prop
  | setState (c : κ) (st : ConnState) :
      Step s (.setState c st) { s with state := Function.update s.state c st }
  | tick (ns : Nat) :
      Step s (.tick ns) { s with queue := { s.queue with clock := s.queue.clock + ns } }
  | delay (ns : Nat) : Step s (.delay ns) { s with queue := { s.queue with delay := ns } }
  | createdElsewhere :
      Step s .createdElsewhere { s with queue := { s.queue with created := s.queue.created + 1 } }
  | begin (l : Label κ) (t : Tid) (c : Call κ) (hf : s.free t = true)
      (hl : c = .idle ∨ (∃ time, l = .runAt t time) ∨ (∃ delay, l = .runAfter t delay) ∨
        (∃ interval, l = .runEvery t interval) ∨
        ∃ k seconds, l = .forceCloseWithDelay t k seconds ∧ isOpen (s.state k) = true) :
      Step s l (s.setCall t c)
  | cancel (t : Tid) (timerId : Nat) :
      Step s (.cancel t timerId) { s with pendingFunctors := s.pendingFunctors ++ [timerId] }
  | resume (t : Tid) (c : Call κ) (state : κ → ConnState) (hc : s.call t ≠ .idle) :
      Step s (.resume t) { s.setCall t c with state := state }
  | addTimer (t : Tid) (when : Int) (interval : Interval) (q : TimerQueue.State)
      (hc : s.call t = .addTimer when interval) (hq : s.queue.addTimer when interval = some q) :
      Step s (.resume t) ((s.setCall t .idle).accessed t .addTimer q)
  | handleRead (l : Label κ) (l' : TimerQueue.Label) (q : TimerQueue.State)
      (hl : l' ∈ [.handleRead, .runCallback, .callbackReturns, .finish])
      (hc : s.call s.loopThread = .idle) (hq : s.queue.step l' = some q) :
      Step s l (s.accessed s.loopThread .handleRead q)
  | cancelInLoop (timerId : Nat) (rest : List Nat) (q : TimerQueue.State)
      (hp : s.pendingFunctors = timerId :: rest) (hc : s.call s.loopThread = .idle)
      (hw : s.queue.walk = none)
      (hq : s.queue.cancelInLoop timerId = some q) :
      Step s (.runFunctor s.loopThread)
        ({ s with pendingFunctors := rest }.accessed s.loopThread .cancelInLoop q)

theorem resume_step (h : s.resume t = some s') : Step s (.resume t) s' := by
  simp only [State.resume] at h
  split at h
  · cases h
  · rename_i connection seconds hc
    cases h
    exact .resume t _ _ (by simp [hc])
  · rename_i delay hc
    cases h
    exact .resume t _ s.state (by simp [hc])
  · rename_i when interval hc
    obtain ⟨q, hq, rfl⟩ := Option.map_eq_some_iff.mp h
    exact .addTimer t when interval q hc hq

/-- **Inversion of a step.**  Every label is a step of a thread; what it is for the timers is one
of the kinds above. -/
theorem step_inv {l : Label κ} (h : s.step l = some s') : Step s l s' := by
  cases l with
  | tick ns => cases h; exact .tick ns
  | delay ns => cases h; exact .delay ns
  | createdElsewhere => cases h; exact .createdElsewhere
  | setState c st => cases h; exact .setState c st
  | runAt t time =>
    obtain ⟨hf, rfl⟩ := begin_eq h
    exact .begin _ t _ hf (.inr (.inl ⟨time, rfl⟩))
  | runAfter t delay =>
    obtain ⟨hf, rfl⟩ := begin_eq h
    exact .begin _ t _ hf (.inr (.inr (.inl ⟨delay, rfl⟩)))
  | runEvery t interval =>
    obtain ⟨hf, rfl⟩ := begin_eq h
    exact .begin _ t _ hf (.inr (.inr (.inr (.inl ⟨interval, rfl⟩))))
  | cancel t timerId =>
    simp only [State.step] at h
    split at h
    · cases h; exact .cancel t timerId
    · cases h
  | forceCloseWithDelay t k seconds =>
    obtain ⟨hf, rfl⟩ := begin_eq h
    cases hopen : isOpen (s.state k) with
    | true => exact .begin _ t _ hf (.inr (.inr (.inr (.inr ⟨k, seconds, rfl, hopen⟩))))
    | false => exact .begin _ t _ hf (.inl (by simp))
  | resume t => exact resume_step h
  | handleRead t =>
    simp only [State.step] at h
    split at h
    · obtain ⟨hc, q, hq, rfl⟩ := loopStep_eq h
      exact .handleRead _ .handleRead q (by simp) hc hq
    · cases h
  | runCallback =>
    obtain ⟨hc, q, hq, rfl⟩ := loopStep_eq h
    exact .handleRead _ .runCallback q (by simp) hc hq
  | callbackReturns =>
    obtain ⟨hc, q, hq, rfl⟩ := loopStep_eq h
    exact .handleRead _ .callbackReturns q (by simp) hc hq
  | finish =>
    obtain ⟨hc, q, hq, rfl⟩ := loopStep_eq h
    exact .handleRead _ .finish q (by simp) hc hq
  | runFunctor t =>
    simp only [State.step] at h
    split at h
    · cases h
    · rename_i timerId rest hp
      split at h
      · rename_i hc
        obtain ⟨hin, hf, hw⟩ := hc
        obtain ⟨q, hq, rfl⟩ := Option.map_eq_some_iff.mp h
        have ht : t = s.loopThread := by simpa [State.isInLoopThread] using hin
        subst ht
        exact .cancelInLoop timerId rest q hp (free_idle hf) (Option.isNone_iff_eq_none.mp hw) hq
      · cases h

end Inversion

/-! ## 3. Timers added by the loop's thread -/

/-- Only the loop's thread calls `run_at`, `run_after` and `run_every`, or
`force_close_with_delay` on a connection that is open.  On one that is not open the call does
nothing, from whatever thread. -/
def AddsOnLoop (s : State κ) : Label κ → Prop
  | .runAt t _ | .runAfter t _ | .runEvery t _ => t = s.loopThread
  | .forceCloseWithDelay t connection _ =>
    isOpen (s.state connection) = true → t = s.loopThread
  | .tick _ | .delay _ | .createdElsewhere | .setState .. | .cancel .. | .resume _ | .handleRead _
  | .runCallback | .callbackReturns | .finish | .runFunctor _ => True

instance (s : State κ) : ∀ l, Decidable (AddsOnLoop s l)
  | .runAt t _ | .runAfter t _ | .runEvery t _ => inferInstanceAs (Decidable (t = s.loopThread))
  | .forceCloseWithDelay t connection _ =>
    inferInstanceAs (Decidable (isOpen (s.state connection) = true → t = s.loopThread))
  | .tick _ | .delay _ | .createdElsewhere | .setState .. | .cancel .. | .resume _ | .handleRead _
  | .runCallback | .callbackReturns | .finish | .runFunctor _ => .isTrue trivial

/-- Only the loop's thread is in a call, and user code runs on it meanwhile; it alone has touched
the maps, and nothing but `handle_read` has while `handle_read` was at work. -/
structure Confined (s : State κ) : Prop where
  calls : ∀ t, s.call t ≠ .idle → t = s.loopThread ∧ s.queue.userCode = true
  accesses : ∀ a ∈ s.accesses, a.thread = s.loopThread ∧ (a.site ≠ .handleRead → a.atWork = false)

theorem confined_init (loopThread : Tid) (clock : Int) :
    Confined (State.init loopThread clock : State κ) := by
  constructor <;> simp [State.init]

section Confinement

variable {s s' : State κ}

/-- A call of the loop's thread begins or goes on, while user code runs on it. -/
theorem Confined.setCall (h : Confined s) (hu : s.queue.userCode = true) (c : Call κ) :
    Confined (s.setCall s.loopThread c) := by
  refine ⟨?_, h.accesses⟩
  intro t ht
  by_cases heq : t = s.loopThread
  · exact ⟨heq, hu⟩
  · refine h.calls t ?_
    rwa [setCall_of_ne heq] at ht

/-- With no call in progress, the loop's thread takes the queue on. -/
theorem Confined.accessed (h : Confined s) (hidle : ∀ t, s.call t = .idle) {site : Site}
    (hsite : site ≠ .handleRead → s.queue.userCode = true) (q : TimerQueue.State) :
    Confined (s.accessed s.loopThread site q) := by
  refine ⟨fun t ht => absurd (hidle t) ht, ?_⟩
  intro a ha
  rcases List.mem_append.mp ha with ha | ha
  · exact h.accesses a ha
  · rw [List.mem_singleton.mp ha]
    exact ⟨rfl, fun hne => by simp [hsite hne]⟩

/-- If the loop's thread is in no call, no thread is.  So a step of the loop comes at a time when
nobody is about to insert. -/
theorem Confined.idle (h : Confined s) (hc : s.call s.loopThread = .idle) (t : Tid) :
    s.call t = .idle := by
  by_contra hne
  obtain ⟨rfl, -⟩ := h.calls t hne
  exact hne hc

variable [DecidableEq κ]

/-- Every step that meets the guard keeps the timers confined. -/
theorem step_confined {l : Label κ} (h : Confined s) (hg : AddsOnLoop s l)
    (hst : s.step l = some s') : Confined s' := by
  cases step_inv hst with
  | setState c st => exact ⟨h.calls, h.accesses⟩
  | tick ns | delay ns => exact ⟨h.calls, h.accesses⟩
  | createdElsewhere => exact ⟨h.calls, h.accesses⟩
  | cancel t timerId => exact ⟨h.calls, h.accesses⟩
  | begin l t c hf hl =>
    by_cases ht : t = s.loopThread
    · subst ht
      exact h.setCall (free_userCode hf) c
    · rcases hl with rfl | ⟨time, rfl⟩ | ⟨delay, rfl⟩ | ⟨interval, rfl⟩ | ⟨k, seconds, rfl, hopen⟩
      · rw [setCall_eq_self (free_idle hf)]
        exact h
      · exact absurd hg ht
      · exact absurd hg ht
      · exact absurd hg ht
      · exact absurd (hg hopen) ht
  | resume t c state hc =>
    obtain ⟨rfl, hu⟩ := h.calls t hc
    have hset := h.setCall hu c
    exact ⟨hset.calls, hset.accesses⟩
  | addTimer t when interval q hc hq =>
    obtain ⟨rfl, hu⟩ := h.calls t (by simp [hc])
    have hset := h.setCall hu .idle
    exact hset.accessed (hset.idle (setCall_self _)) (fun _ => hu) q
  | handleRead l l' q hl hc hq => exact h.accessed (h.idle hc) (fun hne => absurd rfl hne) q
  | cancelInLoop timerId rest q hp hc hw hq =>
    have hpop : Confined { s with pendingFunctors := rest } := ⟨h.calls, h.accesses⟩
    exact hpop.accessed (h.idle hc) (fun _ => by simp [TimerQueue.State.userCode, hw]) q

end Confinement

/-- **If only the loop's thread adds timers, the timers are the loop's.**  In every run, with any number of
threads that cancel timers and close connections when they like, where `run_at`, `run_after`, `run_every`
and `force_close_with_delay` on an open connection are called on the loop's thread only: every step that
inserts into `_timers` and `_active_timers`, erases from them or iterates over them is made by the loop's
thread, and none but the steps of `handle_read` itself comes while `handle_read` is at work. -/
theorem accesses_confined [DecidableEq κ] (loopThread : Tid) (clock : Int) (s : State κ)
    (h : Reach State.step AddsOnLoop (.init loopThread clock) s) :
    ∀ a ∈ s.accesses, a.thread = s.loopThread ∧ (a.site ≠ .handleRead → a.atWork = false) := by
  have hc : Confined s := h.invariant (confined_init loopThread clock)
    fun _ _ _ hi hg hst => step_confined hi hg hst
  exact hc.accesses

/-- The loop's thread is 0.  It adds timers 1 and 2; the callback of 1 closes a connection later, by timer 3.
Thread 7 meanwhile cancels timers 1 and 2 and asks for a connection to be closed that is not up. -/
def cancelsElsewhere : List (Label Bool) :=
  [.runAfter 0 5, .resume 0, .resume 0, .runEvery 0 ⟨true, 90⟩, .resume 0, .tick 10,
    .setState true .connected, .handleRead 0, .cancel 7 1, .forceCloseWithDelay 7 false 20,
    .runCallback, .forceCloseWithDelay 0 true 200, .resume 0, .resume 0, .cancel 7 2, .resume 0,
    .callbackReturns, .finish, .runFunctor 0, .runFunctor 0]

theorem accesses_confined_cancelsElsewhere :
    ∃ s : State Bool, Reach State.step AddsOnLoop (.init 0 0) s ∧
      s.accesses.map Access.site = [.addTimer, .addTimer, .handleRead, .handleRead, .addTimer,
        .handleRead, .handleRead, .cancelInLoop, .cancelInLoop] ∧
      ∀ a ∈ s.accesses, a.thread = s.loopThread ∧ (a.site ≠ .handleRead → a.atWork = false) := by
  have hrun : ∃ s : State Bool, Reach State.step AddsOnLoop (.init 0 0) s ∧
      s.accesses.map Access.site = [.addTimer, .addTimer, .handleRead, .handleRead, .addTimer,
        .handleRead, .handleRead, .cancelInLoop, .cancelInLoop] :=
    Reach.exists_of_exec cancelsElsewhere _ (by decide +kernel) (by decide +kernel)
  obtain ⟨s, h, hs⟩ := hrun
  exact ⟨s, h, hs, accesses_confined 0 0 s h⟩

/-- **Another thread inserts under the hands of `handle_read`.**  Thread 1 calls `run_after`, as the test
does on the loop of an `EventLoopThread`; thread 0, the loop's, has just taken its iterators. -/
theorem other_thread_inserts :
    ∃ s : State Bool, Reach State.step anyStep (.init 0 0) s ∧
      ⟨1, .addTimer, true⟩ ∈ s.accesses ∧ s.loopThread = 0 :=
  Reach.exists_of_exec [.runAfter 0 5, .resume 0, .resume 0, .tick 10, .handleRead 0, .runAfter 1 2,
    .resume 1, .resume 1] _ (meets_any _ _) (by decide +kernel)

/-! ## 4. The queue without threads -/

section Queue

variable {s s' : State κ} [DecidableEq κ]

/-- `handle_read` and `reset` queue no functor. -/
theorem handleRead_pendingFunctors {q q' : TimerQueue.State} {l : TimerQueue.Label}
    (hl : l ∈ [.handleRead, .runCallback, .callbackReturns, .finish])
    (h : q.step l = some q') : q'.pendingFunctors = q.pendingFunctors := by
  cases TimerQueue.step_inv h with
  | handleRead | runCallback | callbackReturns => rfl
  | finish w q₁ kernel hw hi hr =>
    refine foldlM_consume (I := fun _ r => r.pendingFunctors = q.pendingFunctors) ?_
      w.expired (q.eraseExpired w) q₁ rfl hr
    intro t ts r r' hp hst
    rcases TimerQueue.resetOne_cases hst with ⟨rfl, -⟩ | ⟨-, entry, failed, -, rfl⟩
    · exact hp
    · exact hp
  | tick | delay | createdElsewhere | addTimer | cancel | cancelFound | cancelMissed => simp at hl

/-- Nor does `cancel_in_loop`. -/
theorem cancelInLoop_pendingFunctors {q q' : TimerQueue.State} {timerId : Nat}
    (h : q.cancelInLoop timerId = some q') : q'.pendingFunctors = q.pendingFunctors := by
  simp only [TimerQueue.State.cancelInLoop, Option.bind_eq_bind] at h
  split at h
  · split at h
    · cases h
      rfl
    · cases h
  · cases h
    rfl

theorem cancelInLoop_queued {q : TimerQueue.State} (hw : q.walk = none) {timerId : Nat}
    (rest : List Nat) :
    ({ q with pendingFunctors := timerId :: rest } : TimerQueue.State).step .cancelInLoop =
      ({ q with pendingFunctors := rest } : TimerQueue.State).cancelInLoop timerId := by
  simp [TimerQueue.State.step, hw]

/-- A confined step is one the queue can take by itself.  The functors that the loop has queued
are handed to it one at a time. -/
theorem step_queue {l : Label κ} (h : Confined s) (he : s.queue.pendingFunctors = [])
    (hst : s.step l = some s') :
    Reach TimerQueue.State.step anyStep s.queue s'.queue ∧ s'.queue.pendingFunctors = [] := by
  cases step_inv hst with
  | setState | begin | cancel | resume => exact ⟨.refl, he⟩
  | tick ns => exact ⟨.tail (.tick ns) .refl trivial rfl, he⟩
  | delay ns => exact ⟨.tail (.delay ns) .refl trivial rfl, he⟩
  | createdElsewhere => exact ⟨.tail .createdElsewhere .refl trivial rfl, he⟩
  | addTimer t when interval q hc hq =>
    obtain ⟨-, hu⟩ := h.calls t (by simp [hc])
    have hstep : s.queue.step (.addTimer when interval) = some q := by
      rw [← hq]
      exact if_pos hu
    obtain ⟨timer, entry, failed, kernel, -, -, rfl⟩ := TimerQueue.addTimer_eq hq
    exact ⟨.tail _ .refl trivial hstep, he⟩
  | handleRead l l' q hl hc hq =>
    exact ⟨.tail l' .refl trivial hq, (handleRead_pendingFunctors hl hq).trans he⟩
  | cancelInLoop timerId rest q hp hc hw hq =>
    -- the two ends of the functor queue at once: nothing else is in it
    have hcancel : s.queue.step (.cancel timerId) = some (s.queue.cancel timerId) :=
      if_pos (by simp [TimerQueue.State.userCode, hw])
    have hloop : (s.queue.cancel timerId).step .cancelInLoop = some q := by
      rw [TimerQueue.State.cancel, he, List.nil_append, cancelInLoop_queued hw, ← he, hq]
    have hreach : Reach TimerQueue.State.step anyStep s.queue q :=
      (Reach.refl.tail _ trivial hcancel).tail _ trivial hloop
    exact ⟨hreach, (cancelInLoop_pendingFunctors hq).trans he⟩

/-- **The queue does what it does on one thread.**  Whatever other threads cancel and when, a run in which
only the loop's thread adds timers takes the queue where it could have got to with that thread alone. -/
theorem queue_reach (loopThread : Tid) (clock : Int) (s : State κ)
    (h : Reach State.step AddsOnLoop (.init loopThread clock) s) :
    Reach TimerQueue.State.step anyStep (.init clock) s.queue := by
  have hrun : ∃ q, Reach TimerQueue.State.step anyStep (.init clock) q ∧
      (Confined s ∧ s.queue.pendingFunctors = [] ∧ s.queue = q) := by
    refine h.simulation (R := fun s q => Confined s ∧ s.queue.pendingFunctors = [] ∧ s.queue = q)
      ⟨confined_init loopThread clock, rfl, rfl⟩ ?_
    rintro s l s' q ⟨hc, he, rfl⟩ hg hst
    obtain ⟨hrun, he'⟩ := step_queue hc he hst
    exact ⟨s'.queue, hrun, step_confined hc hg hst, he', rfl⟩
  obtain ⟨q, hq, -, -, rfl⟩ := hrun
  exact hq

end Queue

/-! ## 5. Timers added by another thread -/

section Outsiders

/-- A thread that is not the loop's can come to touch the maps. -/
def Escapes [DecidableEq κ] (s : State κ) : Prop :=
  ∃ s', Reach State.step anyStep s s' ∧ ∃ a ∈ s'.accesses, a.thread ≠ s'.loopThread

variable {s s' : State κ} [DecidableEq κ]

theorem Escapes.of_step {l : Label κ} (hst : s.step l = some s') (h : Escapes s') : Escapes s := by
  obtain ⟨s'', hrun, ha⟩ := h
  exact ⟨s'', Reach.trans (.tail l .refl trivial hst) hrun, ha⟩

/-- The queue is sound in every run, on whatever thread timers are added. -/
theorem step_sound {l : Label κ} (h : TimerQueue.Sound s.queue) (hst : s.step l = some s') :
    TimerQueue.Sound s'.queue := by
  cases step_inv hst with
  | setState | begin | cancel | resume => exact h
  | tick ns => exact TimerQueue.step_sound (l := .tick ns) h rfl
  | delay ns => exact TimerQueue.step_sound (l := .delay ns) h rfl
  | createdElsewhere => exact TimerQueue.step_sound (l := .createdElsewhere) h rfl
  | addTimer t when interval q hc hq =>
    obtain ⟨timer, entry, failed, kernel, ht, -, rfl⟩ := TimerQueue.addTimer_eq hq
    exact h.added (by rw [ht]) kernel _ failed
  | handleRead l l' q hl hc hq => exact TimerQueue.step_sound h hq
  | cancelInLoop timerId rest q hp hc hw hq =>
    have hqueued : TimerQueue.Sound
        { s.queue with pendingFunctors := timerId :: s.queue.pendingFunctors } :=
      ⟨h.keyed, h.fresh, h.expired, h.ptr, h.iter, h.running⟩
    exact TimerQueue.step_sound hqueued ((cancelInLoop_queued hw _).trans hq)

/-- A call of `add_timer` by another thread goes through, and is recorded.  Nothing in the code
stops it: the assertion that would is commented out. -/
theorem escapes_addTimer {t : Tid} (h : TimerQueue.Sound s.queue) (ht : t ≠ s.loopThread)
    {when : Int} {interval : Interval} (hc : s.call t = .addTimer when interval) : Escapes s := by
  obtain ⟨q, hq⟩ := TimerQueue.addTimer_total h when interval
  have hstep : s.step (.resume t) = some ((s.setCall t .idle).accessed t .addTimer q) := by
    simp [State.step, State.resume, hc, hq]
  refine ⟨_, .tail _ .refl trivial hstep, ⟨t, .addTimer, !s.queue.userCode⟩, ?_, ht⟩
  exact List.mem_append_right _ (List.mem_singleton_self _)

theorem escapes_runAfter {t : Tid} (h : TimerQueue.Sound s.queue) (ht : t ≠ s.loopThread)
    {delay : Int} (hc : s.call t = .runAfter delay) : Escapes s := by
  have hstep : s.step (.resume t) =
      some (s.setCall t (.addTimer (Timestamp.add s.queue.clock delay) ⟨false, 0⟩)) := by
    simp [State.step, State.resume, hc]
  refine .of_step hstep ?_
  exact escapes_addTimer (s := s.setCall t _) h ht (setCall_self _)

theorem escapes_setState {t : Tid} (h : TimerQueue.Sound s.queue) (ht : t ≠ s.loopThread)
    {connection : κ} {seconds : Int} (hc : s.call t = .setState connection seconds) :
    Escapes s := by
  have hstep : s.step (.resume t) = some { s.setCall t (.runAfter seconds) with
      state := Function.update s.state connection .disconnecting } := by
    simp [State.step, State.resume, hc]
  refine .of_step hstep ?_
  exact escapes_runAfter (s := { s.setCall t (.runAfter seconds) with
    state := Function.update s.state connection .disconnecting }) h ht (setCall_self (s := s) _)

/-- **The condition is exact.**  In any run, a call it forbids leads to an access by a thread that is not the
loop's, if only the caller goes on. -/
theorem outsider_accesses (loopThread : Tid) (clock : Int) (s s' : State κ) (l : Label κ)
    (h : Reach State.step anyStep (.init loopThread clock) s) (hg : ¬ AddsOnLoop s l)
    (hst : s.step l = some s') : Escapes s' := by
  have hs : TimerQueue.Sound s.queue := h.invariant (I := fun s => TimerQueue.Sound s.queue)
    (TimerQueue.sound_init clock) fun _ _ _ hi _ hst => step_sound hi hst
  cases l with
  | runAt t time =>
    obtain ⟨-, rfl⟩ := begin_eq hst
    exact escapes_addTimer (s := s.setCall t _) hs hg (setCall_self _)
  | runAfter t delay =>
    obtain ⟨-, rfl⟩ := begin_eq hst
    exact escapes_runAfter (s := s.setCall t _) hs hg (setCall_self _)
  | runEvery t interval =>
    obtain ⟨-, rfl⟩ := begin_eq hst
    exact escapes_addTimer (s := s.setCall t _) hs hg (setCall_self _)
  | forceCloseWithDelay t connection seconds =>
    obtain ⟨hopen, ht⟩ := Classical.not_imp.mp hg
    obtain ⟨-, rfl⟩ := begin_eq hst
    rw [if_pos hopen]
    exact escapes_setState (s := s.setCall t _) hs ht (setCall_self _)
  | tick | delay | createdElsewhere | setState | cancel | resume | handleRead | runCallback
  | callbackReturns | finish | runFunctor => exact absurd trivial hg

end Outsiders

end Suduo.TimerThreads
