/-
# What `AsyncLogger::stop` leaves behind

`stop` clears `_running`, notifies and joins.  `thread_func` reads `_running` at the head of its
loop and nowhere else, and when it finds it cleared it goes home without looking at the buffers
again.  So what decides is where the backend is when the store lands.  If it is on its way to the
mutex, or in `time_wait`, one more swap is to come, which takes everything.  Anywhere else the
swap it has made was its last, and what was appended since stays in `_buffer_poll` and
`_current_buffer` (`stop_strands`).

The test of `_running` is a step of its own here, apart from the locked section that follows it, and
so are the call of `stop` and its store.  After the store nothing the logger does makes a safe stop
unsafe or an unsafe one safe (`step_safe_iff`), which gives both that a safe stop loses nothing
(`stop_flushes`) and that an unsafe one loses something every time (`returned_flushed_iff`).
-/
import Suduo.Base.AsyncLogger

namespace Suduo.AsyncLogger

open Lib

/-! ## 1. What the steps of the logger leave alone -/

/-- What the steps of the logger other than `stop` and `round` do to the rest of the state:
messages may come, and neither `_running` nor the head of the loop is touched. -/
structure Effect (s s' : State) : Prop where
  appended : s.appended <+: s'.appended
  running : s.pc = .notStarted ∨ s'.running = s.running
  started : s.pc ≠ .notStarted → s'.pc ≠ .notStarted
  atHead : s.pc = .head → s'.pc = .head
  exited : s.pc = .exited → s'.pc = .exited

theorem step_effect {s s' : State} {l : Label} (hst : s.step l = some s')
    (hx : Exchange s) (hstop : l ≠ .stop) (hround : l ≠ .round) : Effect s s' := by
  cases step_inv hx hst with
  | append log s' ha =>
    obtain ⟨cur, -, ⟨-, rfl⟩ | rfl⟩ := append_cases ha
    · exact ⟨List.prefix_append _ _, .inr rfl, id, id, id⟩
    · exact ⟨List.prefix_append _ _, .inr rfl, id, id, id⟩
  | stop => exact absurd rfl hstop
  | waits | exits | swaps => exact absurd rfl hround
  | start hpc => constructor <;> simp [hpc]
  | wakes hpc => constructor <;> simp [hpc, State.swapBuffers]
  | overrun buf hpc => constructor <;> simp [hpc]
  | noOverrun buf hpc => constructor <;> simp [hpc]
  | write i b hpc => constructor <;> simp [hpc]
  | recycle hpc => constructor <;> simp [hpc]

/-! ## 2. The logger and one call of `stop` -/

/-- Where the call of `stop` is. -/
inductive StopCall
  | notCalled
  | called
  /-- `_running` is cleared; the caller is in `join`. -/
  | stored
  | returned
  deriving DecidableEq, Repr

/-- The logger with its one call of `stop`. -/
structure Stopping where
  logger : State
  /-- `thread_func` has found `_running` set and has not taken the mutex yet. -/
  tested : Bool
  call : StopCall
  /-- What had been appended when `stop` was called. -/
  promised : List Byte
  deriving DecidableEq

namespace Stopping

def init : Stopping := ⟨.init, false, .notCalled, []⟩

inductive Label
  | append (log : List Byte)
  | start
  | callStop
  /-- `_running = false`. -/
  | store
  /-- `while (_running)`. -/
  | test
  /-- The locked section up to `time_wait` or its end. -/
  | lock
  | wake
  | checkOverrun (buf : List Byte)
  | write
  | recycle
  /-- `join` returns. -/
  | join
  deriving DecidableEq

/-- A step that is the logger's alone. -/
def onLogger (s : Stopping) (l : AsyncLogger.Label) : Option Stopping :=
  (s.logger.step l).map fun logger => { s with logger := logger }

/-- The locked section from its start on: with nothing filled it goes to `time_wait`, otherwise
it swaps. -/
def lockedSection (logger : State) : State :=
  if logger.bufferPoll.isEmpty then { logger with pc := .waiting } else logger.swapBuffers

def step (s : Stopping) : Label → Option Stopping
  | .append log => s.onLogger (.append log)
  | .start => s.onLogger .start
  | .callStop =>
    -- `join` wants the thread started and not joined yet
    if s.call = .notCalled ∧ s.logger.pc ≠ .notStarted then
      some { s with call := .called, promised := s.logger.appended }
    else none
  | .store =>
    if s.call = .called then (s.onLogger .stop).map fun s => { s with call := .stored } else none
  | .test =>
    if s.logger.pc = .head ∧ s.tested = false then
      if s.logger.running then some { s with tested := true }
      else some { s with logger := { s.logger with pc := .exited } }
    else none
  | .lock =>
    if s.tested then some { s with logger := lockedSection s.logger, tested := false } else none
  | .wake => s.onLogger .wake
  | .checkOverrun buf => s.onLogger (.checkOverrun buf)
  | .write => s.onLogger .write
  | .recycle => s.onLogger .recycle
  | .join =>
    if s.call = .stored ∧ s.logger.pc = .exited then some { s with call := .returned } else none

/-- The test and the locked section in one go are the `round` of the logger, so the runs of
`AsyncLogger` are runs here; what is new are those in which something comes between the two. -/
theorem test_lock {s : Stopping} (hpc : s.logger.pc = .head) (ht : s.tested = false)
    (hr : s.logger.running = true) : exec step s [.test, .lock] = s.onLogger .round := by
  simp only [exec, step, hpc, ht, hr, and_self, if_true, Option.bind_some, onLogger,
    AsyncLogger.State.step, lockedSection]
  split
  · rfl
  · rfl

/-! ## 3. The guards -/

/-- The messages fit a buffer, and no round finds more than 25 buffers. -/
def WithinLimits (s : Stopping) : Label → Prop
  | .append log => AsyncLogger.WithinLimits s.logger (.append log)
  | .checkOverrun buf => AsyncLogger.WithinLimits s.logger (.checkOverrun buf)
  | _ => True

/-- One more swap is to come, or what was promised is out of the front end already. -/
def Safe (s : Stopping) : Prop :=
  s.tested = true ∨ s.logger.pc = .waiting ∨
    s.promised.length ≤ s.logger.file.length + (pollBytes s.logger.unwritten).length

/-- Within the limits, and `_running` is cleared only when that is safe. -/
def StopsSafely (s : Stopping) : Label → Prop
  | .store => Safe s
  | l => WithinLimits s l

instance (s : Stopping) : Decidable (Safe s) :=
  inferInstanceAs (Decidable (s.tested = true ∨ s.logger.pc = .waiting ∨
    s.promised.length ≤ s.logger.file.length + (pollBytes s.logger.unwritten).length))

instance (s : Stopping) : ∀ l, Decidable (WithinLimits s l)
  | .append log => inferInstanceAs (Decidable (AsyncLogger.WithinLimits s.logger (.append log)))
  | .checkOverrun buf =>
    inferInstanceAs (Decidable (AsyncLogger.WithinLimits s.logger (.checkOverrun buf)))
  | .start | .callStop | .store | .test | .lock | .wake | .write | .recycle | .join =>
    .isTrue trivial

instance (s : Stopping) : ∀ l, Decidable (StopsSafely s l)
  | .store => inferInstanceAs (Decidable (Safe s))
  | .append log => inferInstanceAs (Decidable (WithinLimits s (.append log)))
  | .checkOverrun buf => inferInstanceAs (Decidable (WithinLimits s (.checkOverrun buf)))
  | .start | .callStop | .test | .lock | .wake | .write | .recycle | .join => .isTrue trivial

theorem StopsSafely.withinLimits {s : Stopping} {l : Label} (h : StopsSafely s l) :
    WithinLimits s l := by
  cases l with
  | store => trivial
  | _ => exact h

/-- The ways a step can go: a step of the logger that is neither its `stop` nor a whole round, or one
of the call's or of the two halves of the round. -/
inductive Step (s : Stopping) : Label → Stopping → Prop
  | onLogger {l : Label} {k : AsyncLogger.Label} {s' : Stopping} (h : s.onLogger k = some s')
      (hg : WithinLimits s l → AsyncLogger.WithinLimits s.logger k) (hstop : k ≠ .stop)
      (hround : k ≠ .round) : Step s l s'
  | callStop (hc : s.call = .notCalled) (hpc : s.logger.pc ≠ .notStarted) :
      Step s .callStop { s with call := .called, promised := s.logger.appended }
  | store (hc : s.call = .called) :
      Step s .store { s with logger := { s.logger with running := false }, call := .stored }
  | goesOn (hpc : s.logger.pc = .head) (ht : s.tested = false) (hr : s.logger.running = true) :
      Step s .test { s with tested := true }
  | exits (hpc : s.logger.pc = .head) (ht : s.tested = false) :
      Step s .test { s with logger := { s.logger with pc := .exited } }
  | lock (ht : s.tested = true) :
      Step s .lock { s with logger := lockedSection s.logger, tested := false }
  | join (hc : s.call = .stored) (hpc : s.logger.pc = .exited) :
      Step s .join { s with call := .returned }

/-- **Inversion of a step.**  What each label needs of the state before, and what it leaves. -/
theorem step_cases {s s' : Stopping} {l : Label} (hst : s.step l = some s') : Step s l s' := by
  cases l with
  | append log => exact .onLogger hst id (by simp) (by simp)
  | start => exact .onLogger hst (fun _ => trivial) (by simp) (by simp)
  | wake => exact .onLogger hst (fun _ => trivial) (by simp) (by simp)
  | checkOverrun buf => exact .onLogger hst id (by simp) (by simp)
  | write => exact .onLogger hst (fun _ => trivial) (by simp) (by simp)
  | recycle => exact .onLogger hst (fun _ => trivial) (by simp) (by simp)
  | callStop =>
    simp only [step] at hst
    split at hst
    · rename_i hc
      cases hst
      exact .callStop hc.1 hc.2
    · cases hst
  | store =>
    simp only [step] at hst
    split at hst
    · rename_i hc
      simp only [onLogger, State.step, Option.map_some, Option.some.injEq] at hst
      subst hst
      exact .store hc
    · cases hst
  | test =>
    simp only [step] at hst
    split at hst
    · rename_i hc
      split at hst
      · rename_i hr
        cases hst
        exact .goesOn hc.1 hc.2 hr
      · cases hst
        exact .exits hc.1 hc.2
    · cases hst
  | lock =>
    simp only [step] at hst
    split at hst
    · rename_i ht
      cases hst
      exact .lock ht
    · cases hst
  | join =>
    simp only [step] at hst
    split at hst
    · rename_i hc
      cases hst
      exact .join hc.1 hc.2
    · cases hst

/-! ## 4. What every step keeps -/

/-- The logger's own invariants, and what the two marks mean: the test has been passed only at
the head of the loop, and what was promised is a beginning of what was appended. -/
structure Kept (s : Stopping) : Prop where
  exchange : Exchange s.logger
  conserved : Conserved s.logger
  atHead : s.tested = true → s.logger.pc = .head
  promised : s.promised <+: s.logger.appended
  started : s.call ≠ .notCalled → s.logger.pc ≠ .notStarted
  cleared : s.call = .stored ∨ s.call = .returned → s.logger.running = false
  exited : s.call = .returned → s.logger.pc = .exited

theorem kept_init : Kept init where
  exchange := exchange_init
  conserved := rfl
  atHead := by simp [init]
  promised := List.prefix_rfl
  started := by simp [init]
  cleared := by simp [init]
  exited := by simp [init]

/-- A step that is the logger's alone keeps what is known of the call of `stop`. -/
theorem Kept.onLogger {s s' : Stopping} {l : AsyncLogger.Label} (hk : Kept s)
    (hst : s.onLogger l = some s') (hg : AsyncLogger.WithinLimits s.logger l) (hstop : l ≠ .stop)
    (hround : l ≠ .round) : Kept s' := by
  obtain ⟨logger, hl, rfl⟩ := Option.map_eq_some_iff.mp hst
  have he := step_effect hl hk.exchange hstop hround
  refine ⟨step_exchange hk.exchange hl, step_conserved hk.exchange hk.conserved hg hl,
    fun ht => he.atHead (hk.atHead ht), hk.promised.trans he.appended,
    fun hc => he.started (hk.started hc), ?_, fun hc => he.exited (hk.exited hc)⟩
  intro hc
  rcases he.running with hpc | hr
  · refine absurd hpc (hk.started ?_)
    rintro hnot
    rw [hnot] at hc
    rcases hc with hc | hc <;> cases hc
  · rw [hr]
    exact hk.cleared hc

theorem step_kept {s s' : Stopping} {l : Label} (hk : Kept s) (hg : WithinLimits s l)
    (hst : s.step l = some s') : Kept s' := by
  have hx := hk.exchange
  have hcons := hk.conserved
  cases step_cases hst with
  | onLogger hlogger hg' hstop hround => exact hk.onLogger hlogger (hg' hg) hstop hround
  | callStop hc hpc =>
    exact ⟨hx, hcons, hk.atHead, List.prefix_rfl, fun _ => hpc, by simp, by simp⟩
  | store hc =>
    exact ⟨⟨hx.current, hx.poll, hx.spare, hx.backend⟩, hcons, hk.atHead, hk.promised,
      fun _ => hk.started (by simp [hc]), fun _ => rfl, by simp⟩
  | goesOn hpc =>
    exact ⟨hx, hcons, fun _ => hpc, hk.promised, hk.started, hk.cleared, hk.exited⟩
  | exits hpc ht =>
    obtain ⟨-, -, hw⟩ := hx.spares (.inl hpc)
    refine ⟨⟨hx.current, hx.poll, hx.spare, hw⟩, ?_, by simp [ht], hk.promised, by simp,
      hk.cleared, by simp⟩
    rw [Conserved, unwritten_of_head (.inl hpc)] at hcons
    exact hcons
  | lock ht =>
    have hpc := hk.atHead ht
    obtain ⟨h1, h2, hw⟩ := hx.spares (.inl hpc)
    have hnr : s.call ≠ .returned := fun hc => by
      rw [hk.exited hc] at hpc
      cases hpc
    simp only [lockedSection]
    split
    · refine ⟨⟨hx.current, hx.poll, hx.spare, h1, h2, hw⟩, ?_, by simp, hk.promised, by simp,
        hk.cleared, fun hc => absurd hc hnr⟩
      rw [Conserved, unwritten_of_head (.inl hpc)] at hcons
      exact hcons
    · exact ⟨exchange_swapBuffers hx h1 h2 hw,
        conserved_swapBuffers hcons h1 hw (unwritten_of_head (.inl hpc)), by simp,
        hk.promised, by simp [State.swapBuffers], hk.cleared, fun hc => absurd hc hnr⟩
  | join hc hpc =>
    exact ⟨hx, hcons, hk.atHead, hk.promised, fun _ => hk.started (by simp [hc]),
      fun _ => hk.cleared (.inl hc), fun _ => hpc⟩

/-! ## 5. After the store -/

/-- Once the front end is empty everything promised is out of it, however much that is. -/
theorem Kept.safe_of_drained {s : Stopping} (hk : Kept s)
    (hpoll : pollBytes s.logger.bufferPoll = []) (hcur : ptrBytes s.logger.currentBuffer = []) :
    Safe s := by
  have hcons := hk.conserved
  rw [Conserved, hpoll, hcur, List.append_nil, List.append_nil] at hcons
  have hlen := hk.promised.length_le
  rw [← hcons, List.length_append] at hlen
  exact .inr (.inr hlen)

/-- A swap empties the front end, so a backend with one more swap to come is as good as one that
has made it. -/
theorem Kept.safe_of_swap {s s' : Stopping} (hk' : Kept s') (hx : Exchange s.logger)
    (hpc : s.logger.pc = .head ∨ s.logger.pc = .waiting)
    (hs' : s'.logger = s.logger.swapBuffers) : Safe s' := by
  obtain ⟨h1, -, hw⟩ := hx.spares hpc
  refine hk'.safe_of_drained ?_ ?_
  · rw [hs', State.swapBuffers, hw]
    rfl
  · rw [hs', State.swapBuffers, h1]
    rfl

/-- Whether the promised bytes are out of the front end does not change where the bytes that are
out stay as many. -/
theorem safe_iff_of_length {s s' : Stopping} (ht : s'.tested = s.tested)
    (hw : s'.logger.pc = .waiting ↔ s.logger.pc = .waiting) (hp : s'.promised = s.promised)
    (hlen : s'.logger.file.length + (pollBytes s'.logger.unwritten).length =
      s.logger.file.length + (pollBytes s.logger.unwritten).length) : Safe s' ↔ Safe s := by
  rw [Safe, Safe, ht, hw, hp, hlen]

/-- After the store, a step of the logger alone leaves a safe stop safe and an unsafe one unsafe. -/
theorem onLogger_safe_iff {s s' : Stopping} {l : AsyncLogger.Label} (hk : Kept s) (hk' : Kept s')
    (hst : s.onLogger l = some s') (hg : AsyncLogger.WithinLimits s.logger l)
    (hstarted : s.logger.pc ≠ .notStarted) (hround : l ≠ .round) : Safe s' ↔ Safe s := by
  obtain ⟨logger, hl, rfl⟩ := Option.map_eq_some_iff.mp hst
  cases step_inv hk.exchange hl with
  | append log logger ha =>
    obtain ⟨cur, -, ⟨-, rfl⟩ | rfl⟩ := append_cases ha
    · rfl
    · rfl
  | start hpc => exact absurd hpc hstarted
  | stop => rfl
  | waits | exits | swaps => exact absurd rfl hround
  | wakes hpc => exact iff_of_true (hk'.safe_of_swap hk.exchange (.inr hpc) rfl) (.inr (.inl hpc))
  | overrun buf hpc hmany => exact absurd hmany (Nat.not_lt.mpr hg)
  | noOverrun buf hpc =>
    exact safe_iff_of_length rfl (by simp [hpc]) rfl (by simp [State.unwritten, hpc])
  | write i b hpc hget =>
    refine safe_iff_of_length rfl (by simp [hpc]) rfl ?_
    simp only [State.unwritten, hpc, pollBytes_drop hget, List.length_append]
    omega
  | recycle hpc => exact safe_iff_of_length rfl (by simp [hpc]) rfl (by simp [State.unwritten, hpc])

/-- **Nothing changes the outcome any more.**  After the store to `_running` every step of the
logger, its swaps and its exit included, leaves a safe stop safe and an unsafe one unsafe.  A
backend before its test goes home; one behind it, or in `time_wait`, swaps once and goes home;
and what is out of the front end when it does is decided at the store. -/
theorem step_safe_iff {s s' : Stopping} {l : Label} (hk : Kept s) (hg : WithinLimits s l)
    (hc : s.call = .stored ∨ s.call = .returned) (hst : s.step l = some s') :
    (s'.call = .stored ∨ s'.call = .returned) ∧ (Safe s' ↔ Safe s) := by
  have hk' := step_kept hk hg hst
  have hstarted := hk.started (by rcases hc with hc | hc <;> simp [hc])
  cases step_cases hst with
  | onLogger hlogger hg' hstop hround =>
    refine ⟨?_, onLogger_safe_iff hk hk' hlogger (hg' hg) hstarted hround⟩
    obtain ⟨logger, -, rfl⟩ := Option.map_eq_some_iff.mp hlogger
    exact hc
  | callStop hn =>
    rcases hc with hc | hc
    · cases hc.symm.trans hn
    · cases hc.symm.trans hn
  | store hn =>
    rcases hc with hc | hc
    · cases hc.symm.trans hn
    · cases hc.symm.trans hn
  | goesOn _ _ hr =>
    rw [hk.cleared hc] at hr
    cases hr
  | exits hpc =>
    refine ⟨hc, safe_iff_of_length rfl (by simp [hpc]) rfl ?_⟩
    rw [unwritten_of_head (.inl hpc)]
    rfl
  | lock ht =>
    refine ⟨hc, iff_of_true ?_ (.inl ht)⟩
    by_cases hp : s.logger.bufferPoll.isEmpty = true
    · exact .inr (.inl (by simp [lockedSection, hp]))
    · refine hk'.safe_of_swap hk.exchange (.inl (hk.atHead ht)) ?_
      simp [lockedSection, hp]
  | join => exact ⟨.inr rfl, Iff.rfl⟩

/-- The store itself decides nothing: the backend and the buffers are where they were. -/
theorem step_store {s s' : Stopping} {l : Label} (hc : ¬ (s.call = .stored ∨ s.call = .returned))
    (hc' : s'.call = .stored ∨ s'.call = .returned) (hst : s.step l = some s') :
    l = .store ∧ s'.call = .stored ∧ (Safe s' ↔ Safe s) := by
  cases step_cases hst with
  | onLogger hlogger =>
    obtain ⟨logger, -, rfl⟩ := Option.map_eq_some_iff.mp hlogger
    exact absurd hc' hc
  | callStop => simp at hc'
  | store => exact ⟨rfl, rfl, Iff.rfl⟩
  | goesOn => exact absurd hc' hc
  | exits => exact absurd hc' hc
  | lock => exact absurd hc' hc
  | join hj => exact absurd (.inl hj) hc

/-- When `stop` has returned, safe means written out.  The thread has been joined, so it is
neither behind its test nor in `time_wait` and nothing is left unwritten. -/
theorem Kept.flushed_iff {s : Stopping} (hk : Kept s) (hr : s.call = .returned) :
    s.promised <+: s.logger.file ↔ Safe s := by
  have hpc := hk.exited hr
  have hun : s.logger.unwritten = [] := by simp only [State.unwritten, hpc]
  constructor
  · intro h
    exact .inr (.inr (Nat.le_trans h.length_le (Nat.le_add_right _ _)))
  · rintro (ht | hw | hlen)
    · cases (hk.atHead ht).symm.trans hpc
    · cases hw.symm.trans hpc
    · rw [hun, pollBytes_nil, List.length_nil, Nat.add_zero] at hlen
      have hfile : s.logger.file <+: s.logger.appended := by
        have hcons := hk.conserved
        rw [Conserved, List.append_assoc, List.append_assoc] at hcons
        exact ⟨_, hcons⟩
      exact List.prefix_of_prefix_length_le hk.promised hfile hlen

/-! ## 6. Stopping the logger -/

theorem reach_kept {G : Stopping → Label → Prop} (hG : ∀ s l, G s l → WithinLimits s l)
    {s₀ s : Stopping} (h₀ : Kept s₀) (h : Reach step G s₀ s) : Kept s :=
  h.invariant h₀ fun s l _ hk hg hst => step_kept hk (hG s l hg) hst

/-- **A stop loses nothing, if it comes at the right moment.**  In every interleaving of `append`s
of messages shorter than a buffer with the backend thread and the call of `stop`, where no round
finds more than 25 buffers and `_running` is cleared only while the backend is between its test and
the mutex, or in `time_wait`, or all that was promised is out of the front end: when `stop` has
returned, what had been appended when it was called is at the front of the file.

The condition is met at one step, the store.  What carries it from there to the return is
`step_safe_iff`, and what it means at the return is `Kept.flushed_iff`. -/
theorem stop_flushes (s : Stopping) (h : Reach step StopsSafely init s)
    (hr : s.call = .returned) : s.promised <+: s.logger.file := by
  have hI := h.invariant
    (I := fun s => Kept s ∧ (s.call = .stored ∨ s.call = .returned → Safe s))
    ⟨kept_init, by simp [init]⟩ ?_
  · exact (hI.1.flushed_iff hr).mpr (hI.2 (.inr hr))
  rintro s l s' ⟨hk, hsafe⟩ hg hst
  refine ⟨step_kept hk hg.withinLimits hst, fun hc' => ?_⟩
  by_cases hc : s.call = .stored ∨ s.call = .returned
  · exact (step_safe_iff hk hg.withinLimits hc hst).2.mpr (hsafe hc)
  · obtain ⟨rfl, -, hiff⟩ := step_store hc hc' hst
    exact hiff.mpr hg

/-- Appends before, during and after a call of `stop` that finds the backend in `time_wait`. -/
def stopsWaiting : List Label :=
  [.append [1], .start, .test, .lock, .append [2], .callStop, .append [3], .store, .append [4],
    .wake, .checkOverrun [], .write, .recycle, .test, .append [5], .join]

theorem stop_flushes_stopsWaiting : ∃ s, Reach step StopsSafely init s ∧ s.promised = [1, 2] ∧
    s.logger.file = [1, 2, 3, 4] ∧ s.promised <+: s.logger.file := by
  have hrun : ∃ s, Reach step StopsSafely init s ∧
      (s.call = .returned ∧ s.promised = [1, 2] ∧ s.logger.file = [1, 2, 3, 4]) :=
    Reach.exists_of_exec stopsWaiting _ (by decide +kernel) (by decide +kernel)
  obtain ⟨s, h, hr, hp, hf⟩ := hrun
  exact ⟨s, h, hp, hf, stop_flushes s h hr⟩

/-- **A stop during the write-out strands what came after the swap.**  The backend is writing out
when 7 is appended and `stop` is called; it finishes the round, finds `_running` cleared and
exits, and 7 is still in `_current_buffer` when `stop` returns. -/
theorem stop_strands : ∃ s, Reach step WithinLimits init s ∧ s.call = .returned ∧
    s.promised = [7] ∧ s.logger.file = [] ∧ ¬ s.promised <+: s.logger.file := by
  have hrun : ∃ s, Reach step WithinLimits init s ∧
      (s.call = .returned ∧ s.promised = [7] ∧ s.logger.file = []) :=
    Reach.exists_of_exec [.start, .test, .lock, .wake, .checkOverrun [], .append [7], .callStop,
      .store, .write, .recycle, .test, .join] _ (by decide +kernel) (by decide +kernel)
  obtain ⟨s, h, hr, hp, hf⟩ := hrun
  refine ⟨s, h, hr, hp, hf, ?_⟩
  rw [hp, hf]
  decide

/-- **The moment decides, and nothing else.**  In every run within the limits, whatever happens
after the store to `_running`: when `stop` returns, everything promised is written out if and
only if the store came at a safe moment.  So the condition of `stop_flushes` cannot be made any
weaker. -/
theorem returned_flushed_iff {s s₁ s₂ : Stopping} (h : Reach step WithinLimits init s)
    (hst : s.step .store = some s₁) (h' : Reach step WithinLimits s₁ s₂)
    (hr : s₂.call = .returned) : s₂.promised <+: s₂.logger.file ↔ Safe s := by
  have hk := reach_kept (fun _ _ hg => hg) kept_init h
  have hk₁ := step_kept (l := .store) hk trivial hst
  have hstore : s₁.call = .stored ∧ (Safe s₁ ↔ Safe s) := by
    simp only [step] at hst
    split at hst
    · cases hst
      exact ⟨rfl, Iff.rfl⟩
    · cases hst
  have hI := h'.invariant (I := fun t => Kept t ∧ (t.call = .stored ∨ t.call = .returned) ∧
    (Safe t ↔ Safe s)) ⟨hk₁, .inl hstore.1, hstore.2⟩ ?_
  · exact (hI.1.flushed_iff hr).trans hI.2.2
  rintro t l t' ⟨hkt, hc, hiff⟩ hg htt
  obtain ⟨hc', hiff'⟩ := step_safe_iff hkt hg hc htt
  exact ⟨step_kept hkt hg htt, hc', hiff'.trans hiff⟩

end Stopping

end Suduo.AsyncLogger
