/-
# `TimerQueue`: timers in a map that is walked while it changes

`net/TimerQueue.cpp` and `net/Timer.h`.  `_timers` is an ordered map from (expiration, id) to the
timer; `_active_timers` maps an id to the NODE of `_timers` that holds it.  `handle_read` takes an
iterator to the first timer not yet due, then walks the live map from `begin()` to it, running the
callbacks, and these insert into the very map it walks.  At the end it erases from `begin()` to the
iterator and puts the repeating timers back.

So the iterators are part of the state: `Walk` holds them, and each step of the walk is a label of
its own, with whatever a callback does in between.  `cancel` only queues `cancel_in_loop`, which the
loop runs after `handle_read` has returned.  What the code has undefined (a null or dangling
`unique_ptr`) ends the run.  A failed assertion is recorded and the run goes on, as it does under
`NDEBUG`; a debug run is one that stops there.
-/
import Suduo.Lib.Reach
import Suduo.Lib.SortedMap
import Mathlib.Data.Prod.Lex
import Mathlib.Algebra.Order.Ring.Int

namespace Suduo

open Lib

/-! ## 1. Timers -/

/-- A `Timestamp` holds nanoseconds in an `int64_t`. -/
def Timestamp.InRange (x : Int) : Prop := -2 ^ 63 ≤ x ∧ x < 2 ^ 63

instance (x : Int) : Decidable (Timestamp.InRange x) := inferInstanceAs (Decidable (_ ∧ _))

/-- `operator+` of a `Timestamp` and a duration; a sum that the `int64_t` cannot hold wraps round. -/
def Timestamp.add (lhs rhs : Int) : Int := (lhs + rhs).bmod (2 ^ 64)

/-- `operator-` of two `Timestamp`s. -/
def Timestamp.sub (lhs rhs : Int) : Int := (lhs - rhs).bmod (2 ^ 64)

theorem Timestamp.bmod_eq {x : Int} (h : InRange x) : x.bmod (2 ^ 64) = x := by
  have hlow : -2 ^ 63 ≤ x := h.1
  have hhigh : x < 2 ^ 63 := h.2
  exact Int.bmod_eq_of_le_mul_two (by omega) (by omega)

theorem Timestamp.add_eq {lhs rhs : Int} (h : InRange (lhs + rhs)) : add lhs rhs = lhs + rhs := bmod_eq h

theorem Timestamp.sub_eq {lhs rhs : Int} (h : InRange (lhs - rhs)) : sub lhs rhs = lhs - rhs := bmod_eq h

/-- What `Timer` reads of its `double interval`: whether it is positive, and what the cast to
nanoseconds makes of it (a positive interval below a nanosecond is cast to zero).  The one
decides whether the timer repeats and the other how, and nothing else is read. -/
structure Interval where
  positive : Bool
  nanoseconds : Int
  deriving DecidableEq, Repr

/-- `suduo::net::Timer`; times are nanoseconds since the epoch. -/
structure Timer where
  id : Nat
  expertionTime : Int
  repeated : Bool
  interval : Int
  deriving DecidableEq, Repr

/-- `Timer::restart`. -/
def Timer.restart (t : Timer) (now : Int) : Timer :=
  { t with expertionTime := if t.repeated then Timestamp.add now t.interval else 0 }

/-- `TimerQueue::TimerID`, a key of `_timers`: `std::pair` compares lexicographically. -/
abbrev TimerID := Int ×ₗ Nat

def TimerID.time (k : TimerID) : Int := (ofLex k).1

def TimerID.id (k : TimerID) : Nat := (ofLex k).2

/-- The key a timer is inserted under. -/
def Timer.key (t : Timer) : TimerID := toLex (t.expertionTime, t.id)

namespace TimerQueue

/-! ## 2. The state -/

/-- The kernel's timer behind `_timer_fd`: when it expires, if it is set, when that was set, and
when the clock was read from which the time to go was computed.  It is readable from its expiry
until it is read. -/
structure TimerFd where
  expiry : Option Int
  armedAt : Int
  clockReadAt : Int
  deriving DecidableEq, Repr

/-- What the kernel keeps for the loop thread. -/
structure Kernel where
  /-- `Timestamp::now()`; the monotonic clock of `_timer_fd` goes with it. -/
  clock : Int
  timerFd : TimerFd
  /-- How long the thread is kept, in the next `reset_timer_fd`, from `Timestamp::now()` to
  `timerfd_settime`. -/
  delay : Nat

/-- The assertions of `TimerQueue.cpp`. -/
inductive Assertion
  | sizesAtInsert
  | timerInserted
  | activeInserted
  | oneErased
  | sizesAfterCancel
  deriving DecidableEq, Repr

/-- The locals of a `handle_read` in progress.  `none` is `_timers.end()`; `running` says that
the callback at `ptr` has been called and has not returned.  Both iterators are kept by key,
which is safe as long as their nodes stay in the map, and `Sound` says that they do. -/
structure Walk where
  now : Int
  iter : Option TimerID
  ptr : Option TimerID
  running : Bool
  expired : List Timer

/-- One call of a callback: the timer as it stood, and the `now` of the `handle_read` around it.
The record is never read by the code; the results are about it. -/
structure Firing where
  timer : Timer
  now : Int
  deriving DecidableEq, Repr

/-- A `TimerQueue` on its loop. -/
structure State extends Kernel where
  /-- `Timer::_created`, which the queues of all loops share. -/
  created : Nat
  /-- A node whose `unique_ptr` has been moved out holds `none`. -/
  timers : SortedMap TimerID (Option Timer)
  /-- The reference `_active_timers` keeps is named by the key of the node it refers to. -/
  activeTimers : SortedMap Nat TimerID
  callingExpiredTimers : Bool
  cancelingTimers : List Nat
  /-- The `cancel_in_loop` calls in the loop's functor queue. -/
  pendingFunctors : List Nat
  walk : Option Walk
  /-- Assertions that have failed. -/
  failed : List Assertion
  /-- Timers as `add_timer` created them. -/
  added : List Timer
  /-- Callbacks run so far. -/
  fired : List Firing
  /-- Ids whose entry `cancel_in_loop` has erased. -/
  removed : List Nat

def State.init (clock : Int) : State :=
  ⟨⟨clock, ⟨none, clock, clock⟩, 0⟩, 1, .empty, .empty, false, [], [], none, [], [], [], []⟩

/-! ## 3. The code -/

/-- `assert`. -/
def check (a : Assertion) (b : Bool) : List Assertion := if b then [] else [a]

/-- `how_much_time_from_now`, in nanoseconds: never less than 100 microseconds.  The comparison
is made in whole microseconds, which the code gets by a division that truncates. -/
def howMuchTimeFromNow (when now : Int) : Int :=
  let diff := Timestamp.sub when now
  if diff.tdiv 1000 < 100 then 100 * 1000 else diff

/-- `reset_timer_fd`.  `timerfd_settime` counts from when it is called, and that is later than the
`Timestamp::now()` in `how_much_time_from_now`. -/
def State.resetTimerFd (q : State) (expiration : Int) : State :=
  let now := q.clock
  let howMuch := howMuchTimeFromNow expiration now
  let clock := now + q.delay
  { q with clock, timerFd := ⟨some (clock + howMuch), clock, now⟩ }

/-- The kernel reports `_timer_fd` readable. -/
def State.timerFdReadable (q : State) : Bool :=
  match q.timerFd.expiry with
  | none => false
  | some e => e ≤ q.clock

/-- `read_timer_fd`; on a timer that has not expired the read fails and changes nothing. -/
def State.readTimerFd (q : State) : State :=
  if q.timerFdReadable then { q with timerFd := { q.timerFd with expiry := none } } else q

/-- `TimerQueue::insert`, with `earliestChanged`. -/
def State.insert (q : State) (timer : Timer) : Option (State × Bool) :=
  let when := timer.expertionTime
  let earliestChanged := match q.timers.begin? with
    | none => true
    | some it => when < it.time
  let timers := q.timers.insert timer.key (some timer)
  match timers.get? timer.key with
  | some (some entryTimer) =>
    some ({ q with
      timers := timers
      activeTimers := q.activeTimers.insert entryTimer.id timer.key
      failed := q.failed ++ check .sizesAtInsert (q.timers.size = q.activeTimers.size) ++
        check .timerInserted (!q.timers.contains timer.key) ++
        check .activeInserted (!q.activeTimers.contains entryTimer.id) }, earliestChanged)
  | _ => none

/-- `TimerQueue::add_timer`. -/
def State.addTimer (q : State) (when : Int) (interval : Interval) : Option State := do
  let timer : Timer := ⟨q.created, when, interval.positive, interval.nanoseconds⟩
  let (q, earliesChanged) ←
    { q with created := q.created + 1, added := q.added ++ [timer] }.insert timer
  return if earliesChanged then q.resetTimerFd timer.expertionTime else q

/-- `TimerQueue::cancel`. -/
def State.cancel (q : State) (timerId : Nat) : State :=
  { q with pendingFunctors := q.pendingFunctors ++ [timerId] }

/-- `TimerQueue::cancel_in_loop`. -/
def State.cancelInLoop (q : State) (timerId : Nat) : Option State := do
  let q ← match q.activeTimers.get? timerId with
    | some node =>
      match q.timers.get? node with
      | some (some timer) =>
        let key : TimerID := toLex (timer.expertionTime, timerId)
        some { q with
          timers := q.timers.erase key
          activeTimers := q.activeTimers.erase timerId
          failed := q.failed ++ check .oneErased (q.timers.contains key)
          removed := if q.timers.contains key then q.removed ++ [timerId] else q.removed }
      | _ => none
    | none =>
      some { q with cancelingTimers :=
        if q.callingExpiredTimers then timerId :: q.cancelingTimers else q.cancelingTimers }
  return { q with
    failed := q.failed ++ check .sizesAfterCancel (q.timers.size = q.activeTimers.size) }

/-- The start of `TimerQueue::handle_read`, up to the loop. -/
def State.handleRead (q : State) : State :=
  let now := q.clock
  let q := q.readTimerFd
  { q with
    callingExpiredTimers := true
    cancelingTimers := []
    walk := some ⟨now, q.timers.lowerBound (toLex (now, 2 ^ 64 - 1)), q.timers.begin?, false, []⟩ }

/-- `ptr->second->run()`: the callback is called. -/
def State.runCallback (q : State) (w : Walk) : Option State :=
  match w.ptr with
  | some ptr =>
    match q.timers.get? ptr with
    | some (some timer) =>
      some { q with walk := some { w with running := true }, fired := q.fired ++ [⟨timer, w.now⟩] }
    | _ => none
  | none => none

/-- The rest of the loop body, when the callback has returned. -/
def State.callbackReturns (q : State) (w : Walk) : Option State :=
  match w.ptr with
  | some ptr =>
    match q.timers.get? ptr with
    | some (some timer) =>
      let timers := q.timers.set ptr none
      some { q with
        activeTimers := q.activeTimers.erase ptr.id
        timers := timers
        walk := some { w with
          expired := w.expired ++ [timer], ptr := timers.next ptr, running := false } }
    | _ => none
  | none => none

/-- The body of the loop in `TimerQueue::reset`. -/
def State.resetOne (now : Int) (q : State) (it : Timer) : Option State :=
  if it.repeated ∧ it.id ∉ q.cancelingTimers then (q.insert (it.restart now)).map Prod.fst
  else some q

/-- `TimerQueue::reset`. -/
def State.reset (q : State) (expired : List Timer) (now : Int) : Option State := do
  let q ← expired.foldlM (State.resetOne now) q
  match q.timers.begin? with
  | none => return q
  | some it =>
    match q.timers.get? it with
    | some (some timer) =>
      -- `valid()` takes the epoch for no time at all
      return if timer.expertionTime ≠ 0 then q.resetTimerFd timer.expertionTime else q
    | _ => none

/-- `_timers.erase(_timers.begin(), iter)`, and no callback is called any more.  All that lies
before `iter` is erased, whether the walk has visited it or not. -/
def State.eraseExpired (q : State) (w : Walk) : State :=
  { q with timers := q.timers.eraseBefore w.iter, callingExpiredTimers := false, walk := none }

/-- The end of `TimerQueue::handle_read`, after the loop. -/
def State.finish (q : State) (w : Walk) : Option State :=
  (q.eraseExpired w).reset w.expired w.now

/-- What can happen next.  Timers are added and cancels requested by any code on the loop: between
two `handle_read`s, or from the callback that `handle_read` is running. -/
inductive Label
  | tick (ns : Nat)
  | delay (ns : Nat)
  | createdElsewhere
  | addTimer (when : Int) (interval : Interval)
  | cancel (timerId : Nat)
  | cancelInLoop
  | handleRead
  | runCallback
  | callbackReturns
  | finish
  deriving DecidableEq, Repr

/-- User code has the loop thread. -/
def State.userCode (q : State) : Bool :=
  match q.walk with
  | none => true
  | some w => w.running

def State.step (q : State) : Label → Option State
  | .tick ns => some { q with clock := q.clock + ns }
  | .delay ns => some { q with delay := ns }
  | .createdElsewhere => some { q with created := q.created + 1 }
  | .addTimer when interval => if q.userCode then q.addTimer when interval else none
  | .cancel timerId => if q.userCode then some (q.cancel timerId) else none
  | .cancelInLoop =>
    match q.walk, q.pendingFunctors with
    | none, timerId :: rest => { q with pendingFunctors := rest }.cancelInLoop timerId
    | _, _ => none
  | .handleRead =>
    match q.walk with
    | none => some q.handleRead
    | some _ => none
  | .runCallback =>
    match q.walk with
    | some w => if w.running = false ∧ w.ptr ≠ w.iter then q.runCallback w else none
    | none => none
  | .callbackReturns =>
    match q.walk with
    | some w => if w.running then q.callbackReturns w else none
    | none => none
  | .finish =>
    match q.walk with
    | some w => if w.running = false ∧ w.ptr = w.iter then q.finish w else none
    | none => none

/-! ## 4. What one step can do -/

theorem insert_eq {q q' : State} {t : Timer} {b : Bool} (h : q.insert t = some (q', b)) :
    ∃ entry failed, (q.timers.insert t.key (some t)).get? t.key = some (some entry) ∧
      q' = { q with timers := q.timers.insert t.key (some t),
                    activeTimers := q.activeTimers.insert entry.id t.key, failed := failed } := by
  simp only [State.insert] at h
  split at h
  · rename_i entry he
    cases h
    exact ⟨entry, _, he, rfl⟩
  · cases h

/-- The transitions, one constructor for each way a step can change the state.  What a
constructor asks for is what the code has tested on the way there, so no proof below looks into
the code again. -/
inductive Step (q : State) : Label → State → Prop
  | tick (ns : Nat) : Step q (.tick ns) { q with clock := q.clock + ns }
  | delay (ns : Nat) : Step q (.delay ns) { q with delay := ns }
  | createdElsewhere : Step q .createdElsewhere { q with created := q.created + 1 }
  | addTimer (when : Int) (interval : Interval) (t entry : Timer) (failed : List Assertion)
      (kernel : Kernel) (hu : q.userCode = true)
      (ht : t = ⟨q.created, when, interval.positive, interval.nanoseconds⟩)
      (he : (q.timers.insert t.key (some t)).get? t.key = some (some entry)) :
      Step q (.addTimer when interval)
        { q with created := q.created + 1, added := q.added ++ [t], toKernel := kernel,
                 timers := q.timers.insert t.key (some t),
                 activeTimers := q.activeTimers.insert entry.id t.key, failed := failed }
  | cancel (timerId : Nat) : Step q (.cancel timerId) (q.cancel timerId)
  | cancelFound (timerId : Nat) (rest : List Nat) (node : TimerID) (t : Timer)
      (failed : List Assertion) (hw : q.walk = none) (hn : q.activeTimers.get? timerId = some node)
      (ht : q.timers.get? node = some (some t)) :
      Step q .cancelInLoop
        { q with pendingFunctors := rest, failed := failed,
                 timers := q.timers.erase (toLex (t.expertionTime, timerId)),
                 activeTimers := q.activeTimers.erase timerId,
                 removed := if q.timers.contains (toLex (t.expertionTime, timerId))
                   then q.removed ++ [timerId] else q.removed }
  | cancelMissed (timerId : Nat) (rest canceling : List Nat) (failed : List Assertion)
      (hw : q.walk = none) (hn : q.activeTimers.get? timerId = none) :
      Step q .cancelInLoop
        { q with pendingFunctors := rest, cancelingTimers := canceling, failed := failed }
  | handleRead (fd : TimerFd) (hw : q.walk = none) :
      Step q .handleRead
        { q with timerFd := fd, callingExpiredTimers := true, cancelingTimers := [],
                 walk := some ⟨q.clock, q.timers.lowerBound (toLex (q.clock, 2 ^ 64 - 1)),
                   q.timers.begin?, false, []⟩ }
  | runCallback (w : Walk) (ptr : TimerID) (t : Timer) (hw : q.walk = some w)
      (hr : w.running = false) (hi : w.ptr ≠ w.iter) (hp : w.ptr = some ptr)
      (ht : q.timers.get? ptr = some (some t)) :
      Step q .runCallback
        { q with walk := some { w with running := true }, fired := q.fired ++ [⟨t, w.now⟩] }
  | callbackReturns (w : Walk) (ptr : TimerID) (t : Timer) (hw : q.walk = some w)
      (hr : w.running = true) (hp : w.ptr = some ptr) (ht : q.timers.get? ptr = some (some t)) :
      Step q .callbackReturns
        { q with activeTimers := q.activeTimers.erase ptr.id, timers := q.timers.set ptr none,
                 walk := some { w with expired := w.expired ++ [t],
                                       ptr := (q.timers.set ptr none).next ptr,
                                       running := false } }
  | finish (w : Walk) (q' : State) (kernel : Kernel) (hw : q.walk = some w) (hi : w.ptr = w.iter)
      (hr : w.expired.foldlM (State.resetOne w.now) (q.eraseExpired w) = some q') :
      Step q .finish { q' with toKernel := kernel }

theorem addTimer_eq {q q' : State} {when : Int} {interval : Interval}
    (h : q.addTimer when interval = some q') :
    ∃ t entry failed kernel, t = ⟨q.created, when, interval.positive, interval.nanoseconds⟩ ∧
      (q.timers.insert t.key (some t)).get? t.key = some (some entry) ∧
      q' = { q with created := q.created + 1, added := q.added ++ [t], toKernel := kernel,
                    timers := q.timers.insert t.key (some t),
                    activeTimers := q.activeTimers.insert entry.id t.key, failed := failed } := by
  simp only [State.addTimer, Option.bind_eq_bind, Option.bind_eq_some_iff] at h
  obtain ⟨⟨q₁, b⟩, hins, h⟩ := h
  obtain ⟨entry, failed, he, rfl⟩ := insert_eq hins
  cases h
  -- only what `reset_timer_fd` does depends on `earlies_changed`
  cases b with
  | true => exact ⟨_, entry, failed, _, rfl, he, rfl⟩
  | false => exact ⟨_, entry, failed, q.toKernel, rfl, he, rfl⟩

theorem addTimer_step {q q' : State} {when : Int} {interval : Interval} (hu : q.userCode = true)
    (h : q.addTimer when interval = some q') : Step q (.addTimer when interval) q' := by
  obtain ⟨t, entry, failed, kernel, ht, he, rfl⟩ := addTimer_eq h
  exact .addTimer when interval t entry failed kernel hu ht he

theorem cancelInLoop_step {q q' : State} {timerId : Nat} {rest : List Nat} (hw : q.walk = none)
    (h : { q with pendingFunctors := rest }.cancelInLoop timerId = some q') :
    Step q .cancelInLoop q' := by
  simp only [State.cancelInLoop, Option.bind_eq_bind] at h
  split at h
  · rename_i node hn
    split at h
    · rename_i t ht
      cases h
      exact .cancelFound timerId rest node t _ hw hn ht
    · cases h
  · rename_i hn
    cases h
    exact .cancelMissed timerId rest _ _ hw hn

theorem finish_step {q q' : State} {w : Walk} (hw : q.walk = some w) (hi : w.ptr = w.iter)
    (h : q.finish w = some q') : Step q .finish q' := by
  simp only [State.finish, State.reset, Option.bind_eq_bind, Option.bind_eq_some_iff] at h
  obtain ⟨q₁, h₁, h⟩ := h
  split at h
  · cases h
    exact .finish w q' q'.toKernel hw hi h₁
  · split at h
    · cases h
      split
      · exact .finish w q₁ _ hw hi h₁
      · exact .finish w q₁ q₁.toKernel hw hi h₁
    · cases h

theorem step_addTimer {q q' : State} {when : Int} {interval : Interval}
    (h : q.step (.addTimer when interval) = some q') :
    q.userCode = true ∧ q.addTimer when interval = some q' := by
  simp only [State.step] at h
  split at h
  · exact ⟨by assumption, h⟩
  · cases h

theorem step_cancelInLoop {q q' : State} (h : q.step .cancelInLoop = some q') :
    ∃ timerId rest, q.walk = none ∧ q.pendingFunctors = timerId :: rest ∧
      { q with pendingFunctors := rest }.cancelInLoop timerId = some q' := by
  simp only [State.step] at h
  split at h
  · rename_i timerId rest hw hp
    exact ⟨timerId, rest, hw, hp, h⟩
  · cases h

theorem step_finish {q q' : State} (h : q.step .finish = some q') :
    ∃ w, q.walk = some w ∧ w.running = false ∧ w.ptr = w.iter ∧ q.finish w = some q' := by
  simp only [State.step] at h
  split at h
  · rename_i w hw
    split at h
    · rename_i hc
      exact ⟨w, hw, hc.1, hc.2, h⟩
    · cases h
  · cases h

/-- **Inversion of a step.**  All invariants of the queue are proved from it. -/
theorem step_inv {q q' : State} {l : Label} (h : q.step l = some q') : Step q l q' := by
  cases l with
  | tick ns => cases h; exact .tick ns
  | delay ns => cases h; exact .delay ns
  | createdElsewhere => cases h; exact .createdElsewhere
  | addTimer when interval =>
    obtain ⟨hu, h⟩ := step_addTimer h
    exact addTimer_step hu h
  | cancel timerId =>
    simp only [State.step] at h
    split at h
    · cases h; exact .cancel timerId
    · cases h
  | cancelInLoop =>
    obtain ⟨timerId, rest, hw, -, h⟩ := step_cancelInLoop h
    exact cancelInLoop_step hw h
  | handleRead =>
    simp only [State.step] at h
    split at h
    · rename_i hw
      cases h
      simp only [State.handleRead, State.readTimerFd]
      split
      · exact .handleRead _ hw
      · exact .handleRead q.timerFd hw
    · cases h
  | runCallback =>
    simp only [State.step] at h
    split at h
    · rename_i w hw
      split at h
      · rename_i hc
        simp only [State.runCallback] at h
        split at h
        · rename_i ptr hp
          split at h
          · rename_i t ht
            cases h
            exact .runCallback w ptr t hw hc.1 hc.2 hp ht
          · cases h
        · cases h
      · cases h
    · cases h
  | callbackReturns =>
    simp only [State.step] at h
    split at h
    · rename_i w hw
      split at h
      · rename_i hr
        simp only [State.callbackReturns] at h
        split at h
        · rename_i ptr hp
          split at h
          · rename_i t ht
            cases h
            exact .callbackReturns w ptr t hw hr hp ht
          · cases h
        · cases h
      · cases h
    · cases h
  | finish =>
    obtain ⟨w, hw, -, hi, h⟩ := step_finish h
    exact finish_step hw hi h

theorem resetOne_cases {q q' : State} {now : Int} {t : Timer}
    (h : State.resetOne now q t = some q') :
    q' = q ∧ (t.repeated = false ∨ t.id ∈ q.cancelingTimers) ∨
      t.repeated = true ∧ ∃ entry failed,
        (q.timers.insert (t.restart now).key (some (t.restart now))).get? (t.restart now).key =
          some (some entry) ∧
        q' = { q with timers := q.timers.insert (t.restart now).key (some (t.restart now)),
                      activeTimers := q.activeTimers.insert entry.id (t.restart now).key,
                      failed := failed } := by
  simp only [State.resetOne] at h
  split at h
  · rename_i hc
    obtain ⟨⟨q₁, b⟩, hins, rfl⟩ := Option.map_eq_some_iff.mp h
    obtain ⟨entry, failed, he, heq⟩ := insert_eq hins
    exact .inr ⟨hc.1, entry, failed, he, heq⟩
  · rename_i hc
    cases h
    refine .inl ⟨rfl, ?_⟩
    by_cases hrep : t.repeated = true
    · exact .inr (not_not.mp fun hid => hc ⟨hrep, hid⟩)
    · exact .inl (Bool.eq_false_iff.mpr hrep)

/-! ## 5. What holds in every run -/

theorem TimerID.lt_iff {j k : TimerID} :
    j < k ↔ j.time < k.time ∨ j.time = k.time ∧ j.id < k.id := Prod.Lex.lt_iff

theorem TimerID.time_le {j k : TimerID} (h : j ≤ k) : j.time ≤ k.time := by
  by_contra hlt
  exact absurd (TimerID.lt_iff.mpr (.inl (not_le.mp hlt))) (not_lt_of_ge h)

@[simp] theorem key_time (t : Timer) : t.key.time = t.expertionTime := rfl

@[simp] theorem key_id (t : Timer) : t.key.id = t.id := rfl

@[simp] theorem restart_id (t : Timer) (now : Int) : (t.restart now).id = t.id := rfl

/-- The map is keyed by its timers, ids are older than the counter, and in a walk both iterators
stand at nodes of the map with `ptr` not past `iter`.  It holds in every run, whatever callbacks
do, and it is what makes iterators by key the same as iterators. -/
structure Sound (q : State) : Prop where
  keyed : ∀ k t, q.timers.get? k = some (some t) → k = t.key
  fresh : ∀ k v, q.timers.get? k = some v → k.id < q.created
  expired : ∀ w, q.walk = some w → ∀ t ∈ w.expired, t.id < q.created
  ptr : ∀ w p, q.walk = some w → w.ptr = some p → ∃ v, q.timers.get? p = some v
  iter : ∀ w i, q.walk = some w → w.iter = some i →
    (∃ v, q.timers.get? i = some v) ∧ ∃ p, w.ptr = some p ∧ p ≤ i
  running : ∀ w, q.walk = some w → w.running = true → w.ptr ≠ w.iter

theorem sound_init (clock : Int) : Sound (.init clock) := by
  constructor <;> simp [State.init]

/-- A node strictly before `iter` is where `ptr` stands while a callback is run.  So the node
that `handle_read` works at is one that the range erase will take. -/
theorem Sound.ptr_before {q : State} (hs : Sound q) {w : Walk} {p : TimerID}
    (hw : q.walk = some w) (hp : w.ptr = some p) (hi : w.ptr ≠ w.iter) :
    SortedMap.Before p w.iter := by
  cases hit : w.iter with
  | none => trivial
  | some i =>
    obtain ⟨-, p', hp', hle⟩ := hs.iter w i hw hit
    rw [hp] at hp'
    cases hp'
    refine lt_of_le_of_ne hle fun heq => hi ?_
    rw [hp, hit, heq]

/-- The key a new timer gets is not in the map: its id has never been given out. -/
theorem Sound.new_key {q : State} (hs : Sound q) {k : TimerID} (hk : q.created ≤ k.id) :
    q.timers.get? k = none := by
  refine SortedMap.get?_eq_none.mpr fun v hv => ?_
  exact absurd (hs.fresh k v hv) (not_lt_of_ge hk)

/-- Inserting a timer whose id has been given out keeps the map sound.  This is the step of
`reset`, which puts a timer back under its old id. -/
theorem Sound.insert {q : State} (hs : Sound q) {t : Timer} (ht : t.id < q.created)
    (active : SortedMap Nat TimerID) (failed : List Assertion) :
    Sound { q with timers := q.timers.insert t.key (some t), activeTimers := active,
                   failed := failed } := by
  refine ⟨?_, ?_, hs.expired, ?_, ?_, hs.running⟩
  · intro k t' hk
    rcases SortedMap.get?_insert_cases hk with hk | ⟨rfl, heq⟩
    · exact hs.keyed k t' hk
    · cases heq; rfl
  · intro k v hk
    rcases SortedMap.get?_insert_cases hk with hk | ⟨rfl, -⟩
    · exact hs.fresh k v hk
    · exact ht
  · intro w p hw hp
    obtain ⟨v, hv⟩ := hs.ptr w p hw hp
    exact ⟨v, SortedMap.get?_insert_of_get? hv⟩
  · intro w i hw hi
    obtain ⟨⟨v, hv⟩, hle⟩ := hs.iter w i hw hi
    exact ⟨⟨v, SortedMap.get?_insert_of_get? hv⟩, hle⟩

/-- A larger counter keeps it sound, whichever queue the id was for. -/
theorem Sound.counted {q : State} (hs : Sound q) (added : List Timer) (kernel : Kernel) :
    Sound { q with created := q.created + 1, added := added, toKernel := kernel } :=
  ⟨hs.keyed, fun k v hk => Nat.lt_succ_of_lt (hs.fresh k v hk),
    fun w hw t ht => Nat.lt_succ_of_lt (hs.expired w hw t ht), hs.ptr, hs.iter, hs.running⟩

/-- So does a timer with a new id, wherever `handle_read` is.  The iterators stay where they are,
at nodes that are still there. -/
theorem Sound.added {q : State} (hs : Sound q) {t : Timer} (ht : t.id = q.created) (kernel : Kernel)
    (active : SortedMap Nat TimerID) (failed : List Assertion) :
    Sound { q with created := q.created + 1, added := q.added ++ [t], toKernel := kernel,
                   timers := q.timers.insert t.key (some t), activeTimers := active,
                   failed := failed } := by
  have hid : t.id < q.created + 1 := by
    rw [ht]
    exact Nat.lt_succ_self _
  exact (hs.counted (q.added ++ [t]) kernel).insert hid active failed

/-- Outside a walk, a map with fewer entries is still sound.  In a walk it might lose the nodes
that the iterators stand at. -/
theorem Sound.shrink {q q' : State} (hs : Sound q) (hw : q'.walk = none)
    (hc : q'.created = q.created)
    (hsub : ∀ k v, q'.timers.get? k = some v → q.timers.get? k = some v) : Sound q' := by
  constructor
  · exact fun k t hk => hs.keyed k t (hsub k _ hk)
  · exact fun k v hk => hc ▸ hs.fresh k v (hsub k v hk)
  all_goals simp [hw]

/-- The loop of `reset` keeps it sound, and only inserts.  It goes through `expired`, which it
does not change. -/
theorem reset_sound {q q' : State} {now : Int} {expired : List Timer} (hs : Sound q)
    (hw : q.walk = none) (he : ∀ t ∈ expired, t.id < q.created)
    (h : expired.foldlM (State.resetOne now) q = some q') :
    Sound q' ∧ q'.walk = none ∧ q'.fired = q.fired := by
  have hI := foldlM_consume (f := State.resetOne now)
    (I := fun ts s => Sound s ∧ s.walk = none ∧ s.fired = q.fired ∧ ∀ t ∈ ts, t.id < s.created)
    ?_ expired q q' ⟨hs, hw, rfl, he⟩ h
  · exact ⟨hI.1, hI.2.1, hI.2.2.1⟩
  rintro t ts s s' ⟨hs, hw, hf, ht⟩ hstep
  have hrest : ∀ u ∈ ts, u.id < s.created := fun u hu => ht u (List.mem_cons_of_mem _ hu)
  rcases resetOne_cases hstep with ⟨rfl, -⟩ | ⟨-, entry, failed, -, rfl⟩
  · exact ⟨hs, hw, hf, hrest⟩
  · exact ⟨hs.insert (t := t.restart now) (ht t (List.mem_cons_self ..)) _ _, hw, hf, hrest⟩

/-- So does the range erase. -/
theorem Sound.eraseExpired {q : State} (hs : Sound q) (w : Walk) : Sound (q.eraseExpired w) :=
  hs.shrink rfl rfl fun _ _ hk => (SortedMap.get?_of_get?_eraseBefore hk).1

/-- What the end of `handle_read` leaves: a sound state, no walk, nothing run.  The range erase
ends the walk, so that the map may shrink, and then `reset` inserts. -/
theorem finish_sound {q q' : State} {w : Walk} (hs : Sound q) (hw : q.walk = some w)
    (h : w.expired.foldlM (State.resetOne w.now) (q.eraseExpired w) = some q') :
    Sound q' ∧ q'.walk = none ∧ q'.fired = q.fired := by
  obtain ⟨hs', hw', hf⟩ := reset_sound (hs.eraseExpired w) rfl (hs.expired w hw) h
  exact ⟨hs', hw', hf⟩

/-- The walk of a `handle_read` begins at the least node, with `iter` ahead of it or at it.
`lower_bound` is asked for `now` and the largest id there is, so a timer that expires at `now` is
in front of `iter`. -/
theorem Sound.handleRead {q : State} (hs : Sound q) (fd : TimerFd) :
    Sound { q with
      timerFd := fd, callingExpiredTimers := true, cancelingTimers := [],
      walk := some ⟨q.clock, q.timers.lowerBound (toLex (q.clock, 2 ^ 64 - 1)), q.timers.begin?, false,
        []⟩ } := by
  refine ⟨hs.keyed, hs.fresh, ?_, ?_, ?_, ?_⟩
  · rintro w hw' t ht
    cases hw'
    cases ht
  · rintro w p hw' hp
    cases hw'
    exact (SortedMap.begin?_eq_some.mp hp).1
  · rintro w i hw' hi
    cases hw'
    obtain ⟨hmem, -, -⟩ := SortedMap.lowerBound_eq_some.mp hi
    refine ⟨hmem, ?_⟩
    obtain ⟨v, hv⟩ := hmem
    -- the map is not empty, so `begin()` is its least key
    cases hb : q.timers.begin? with
    | none => exact absurd hv (SortedMap.begin?_eq_none.mp hb i v)
    | some p => exact ⟨p, rfl, (SortedMap.begin?_eq_some.mp hb).2 i v hv⟩
  · rintro w hw' hr
    cases hw'
    cases hr

/-- The node that was run is emptied and the walk goes on to the next, which is not past `iter`.
The node itself stays in the map until the range erase. -/
theorem Sound.callbackReturns {q : State} {w : Walk} {ptr : TimerID} {t : Timer} (hs : Sound q)
    (hw : q.walk = some w) (hr : w.running = true) (hp : w.ptr = some ptr)
    (ht : q.timers.get? ptr = some (some t)) :
    Sound { q with
      activeTimers := q.activeTimers.erase ptr.id, timers := q.timers.set ptr none,
      walk := some { w with expired := w.expired ++ [t], ptr := (q.timers.set ptr none).next ptr,
                            running := false } } := by
  have hkeep : ∀ k v, q.timers.get? k = some v → ∃ v', (q.timers.set ptr none).get? k = some v' := by
    intro k v hk
    by_cases hkp : k = ptr
    · subst hkp
      exact ⟨none, SortedMap.get?_set_self hk⟩
    · exact ⟨v, by rw [SortedMap.get?_set_of_ne hkp, hk]⟩
  refine ⟨?_, ?_, ?_, ?_, ?_, ?_⟩
  · intro k t' hk
    rcases SortedMap.get?_set_cases hk with ⟨-, hnull⟩ | ⟨-, hk⟩
    · cases hnull
    · exact hs.keyed k t' hk
  · intro k v hk
    rcases SortedMap.get?_set_cases hk with ⟨rfl, -⟩ | ⟨-, hk⟩
    · exact hs.fresh k _ ht
    · exact hs.fresh k v hk
  · rintro _ hw' u hu
    cases hw'
    rcases List.mem_append.mp hu with hu | hu
    · exact hs.expired w hw u hu
    · rw [List.mem_singleton.mp hu, ← key_id, ← hs.keyed ptr t ht]
      exact hs.fresh ptr _ ht
  · rintro _ p hw' hp'
    cases hw'
    exact (SortedMap.next_eq_some.mp hp').1
  · rintro _ i hw' hi
    cases hw'
    obtain ⟨⟨v, hv⟩, -⟩ := hs.iter w i hw hi
    obtain ⟨v', hv'⟩ := hkeep i v hv
    refine ⟨⟨v', hv'⟩, ?_⟩
    -- `iter` is still ahead, so there is a next node and it is not past `iter`
    have hlt : ptr < i := by
      have hb := hs.ptr_before hw hp (hs.running w hw hr)
      rw [hi] at hb
      exact hb
    cases hn : (q.timers.set ptr none).next ptr with
    | none => exact absurd hlt (not_lt_of_ge (SortedMap.next_eq_none.mp hn i v' hv'))
    | some p => exact ⟨p, rfl, (SortedMap.next_eq_some.mp hn).2.2 i v' hv' hlt⟩
  · rintro _ hw' hr'
    cases hw'
    cases hr'

/-- Every step keeps the state sound. -/
theorem step_sound {q q' : State} {l : Label} (hs : Sound q) (h : q.step l = some q') :
    Sound q' := by
  cases step_inv h with
  | tick ns | delay ns => exact ⟨hs.keyed, hs.fresh, hs.expired, hs.ptr, hs.iter, hs.running⟩
  | createdElsewhere => exact hs.counted q.added q.toKernel
  | addTimer when interval t entry failed kernel hu ht he => exact hs.added (by rw [ht]) kernel _ failed
  | cancel timerId => exact ⟨hs.keyed, hs.fresh, hs.expired, hs.ptr, hs.iter, hs.running⟩
  | cancelFound timerId rest node t failed hw hn ht =>
    exact hs.shrink hw rfl fun _ _ hk => SortedMap.get?_of_get?_erase hk
  | cancelMissed timerId rest canceling failed hw hn =>
    exact ⟨hs.keyed, hs.fresh, hs.expired, hs.ptr, hs.iter, hs.running⟩
  | handleRead fd hw => exact hs.handleRead fd
  | runCallback w ptr t hw hr hi hp ht =>
    refine ⟨hs.keyed, hs.fresh, ?_, ?_, ?_, ?_⟩
    · rintro _ hw' t ht
      cases hw'
      exact hs.expired w hw t ht
    · rintro _ p hw' hp
      cases hw'
      exact hs.ptr w p hw hp
    · rintro _ i hw' hi
      cases hw'
      exact hs.iter w i hw hi
    · rintro _ hw' -
      cases hw'
      exact hi
  | callbackReturns w ptr t hw hr hp ht => exact hs.callbackReturns hw hr hp ht
  | finish w q₁ kernel hw hi hr =>
    have hs₁ := (finish_sound hs hw hr).1
    exact ⟨hs₁.keyed, hs₁.fresh, hs₁.expired, hs₁.ptr, hs₁.iter, hs₁.running⟩

end TimerQueue

end Suduo
