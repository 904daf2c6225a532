/-
# `MutexLock` and `Condition`: who `_holder` says holds the lock

`base/Mutex.h` wraps a `pthread_mutex_t` and keeps beside it the thread id of the current holder,
for `is_locked_by_this_thread` and `assert_locked`.  `base/Condition.h` waits on that mutex.  Each
public call is TWO steps, one on the pthread object and one on `_holder`, and any number of
threads interleave between them:

    lock:    pthread_mutex_lock;     set_holder
    unlock:  pthread_mutex_unlock;   unset_holder        -- released first, cleared after
    wait:    unset_holder;  pthread_cond_wait (release and sleep, wake and re-acquire);  set_holder

`wait` clears `_holder` while it still owns the mutex.  `unlock` does not, so between its two
steps another thread can run the whole of `lock`, and the late `unset_holder` then wipes out the
NEW holder's mark (`unlock_clears_next_holder`).

The development below proves what is left: the pthread object itself is always exact
(`OwnerExact`), two threads are never inside at once (`mutual_exclusion`), and `_holder` is exact
along every run in which no `unset_holder` of `unlock` lands in another thread's critical section
(`holder_exact_of_clearedInTime`).
-/
import Suduo.Lib.Reach
import Mathlib.Logic.Function.Basic
import Mathlib.Tactic.Basic

namespace Suduo.Mutex

open Lib

/-! ## 1. The two objects and the steps of the calls -/

/-- A kernel thread id, `pid_t`. -/
abbrev Tid := Nat

/-- `MutexLock`: the pthread mutex (the thread that owns it) and `_holder`, `0` for nobody. -/
structure MutexLock where
  mutex : Option Tid
  holder : Tid
  deriving DecidableEq, Repr

namespace MutexLock

/-- `MutexLock::MutexLock`. -/
def new : MutexLock := ⟨none, 0⟩

/-- `set_holder`, called by thread `t`. -/
def setHolder (m : MutexLock) (t : Tid) : MutexLock := { m with holder := t }

/-- `unset_holder`. -/
def unsetHolder (m : MutexLock) : MutexLock := { m with holder := 0 }

/-- `is_locked_by_this_thread`, called by thread `t`. -/
def isLockedByThisThread (m : MutexLock) (t : Tid) : Bool := m.holder == t

/-- The condition `assert_locked` asserts, called by thread `t`. -/
def assertLocked (m : MutexLock) (t : Tid) : Bool := m.isLockedByThisThread t

end MutexLock

/-- Where a thread is in the calls of one `MutexLock` and the `Condition`s on it. -/
inductive Pc
  /-- In none of them, and not holding the lock. -/
  | outside
  /-- In `lock` or `try_lock`: the mutex is acquired, `set_holder` is next. -/
  | locking
  /-- `lock`, `try_lock` or `wait` has returned, neither `unlock` nor `wait` is entered yet. -/
  | inside
  /-- In `unlock`: the mutex is released, `unset_holder` is next. -/
  | unlocking
  /-- In `wait`: `UnassignGuard` has cleared `_holder`, `pthread_cond_wait` is next. -/
  | unassigned
  /-- Asleep in `pthread_cond_wait`, the mutex released. -/
  | waiting
  /-- `pthread_cond_wait` has re-acquired the mutex, `~UnassignGuard` is next. -/
  | woken
  deriving DecidableEq, Repr

/-- The pthread object belongs to the threads in these places. -/
def Pc.owns : Pc → Bool
  | .locking | .inside | .unassigned | .woken => true
  | .outside | .unlocking | .waiting => false

/-- One mutex and all threads. -/
structure State where
  lock : MutexLock
  pc : Tid → Pc

/-- One atomic step of one thread. -/
inductive Label
  /-- `pthread_mutex_lock` returns in `lock`. -/
  | lock (t : Tid)
  /-- `pthread_mutex_trylock` returns in `try_lock`, with either result. -/
  | tryLock (t : Tid)
  /-- `set_holder` at the end of `lock` and `try_lock`. -/
  | setHolder (t : Tid)
  /-- `pthread_mutex_unlock` in `unlock`. -/
  | unlock (t : Tid)
  /-- `unset_holder` at the end of `unlock`. -/
  | unsetHolder (t : Tid)
  /-- `UnassignGuard(_mutex)` in `wait` and `time_wait`. -/
  | unassign (t : Tid)
  /-- `pthread_cond_wait` releases the mutex and sleeps. -/
  | wait (t : Tid)
  /-- A notified, timed out or spurious wake-up re-acquires the mutex. -/
  | wake (t : Tid)
  /-- `~UnassignGuard`. -/
  | reassign (t : Tid)
  deriving DecidableEq, Repr

namespace State

def init : State := ⟨.new, fun _ => .outside⟩

/-- Thread `t` moves to `p` and leaves the lock as `m`. -/
def move (s : State) (t : Tid) (p : Pc) (m : MutexLock) : State :=
  ⟨m, Function.update s.pc t p⟩

/-- Thread `t` owns the pthread mutex and moves to `p`. -/
def acquire (s : State) (t : Tid) (p : Pc) : State :=
  s.move t p { s.lock with mutex := some t }

/-- The pthread mutex becomes free and thread `t` moves to `p`. -/
def release (s : State) (t : Tid) (p : Pc) : State :=
  s.move t p { s.lock with mutex := none }

/-- One step.  A label of a thread that is not at that place of its code is not possible, and
neither is acquiring a mutex that is taken; a `try_lock` that fails is a step that changes
nothing. -/
def step (s : State) : Label → Option State
  | .lock t =>
    if s.pc t = .outside ∧ s.lock.mutex = none then some (s.acquire t .locking) else none
  | .tryLock t =>
    if s.pc t = .outside then
      if s.lock.mutex = none then some (s.acquire t .locking) else some s
    else none
  | .setHolder t =>
    if s.pc t = .locking then some (s.move t .inside (s.lock.setHolder t)) else none
  | .unlock t =>
    if s.pc t = .inside then some (s.release t .unlocking) else none
  | .unsetHolder t =>
    if s.pc t = .unlocking then some (s.move t .outside s.lock.unsetHolder) else none
  | .unassign t =>
    if s.pc t = .inside then some (s.move t .unassigned s.lock.unsetHolder) else none
  | .wait t =>
    if s.pc t = .unassigned then some (s.release t .waiting) else none
  | .wake t =>
    if s.pc t = .waiting ∧ s.lock.mutex = none then some (s.acquire t .woken) else none
  | .reassign t =>
    if s.pc t = .woken then some (s.move t .inside (s.lock.setHolder t)) else none

@[simp] theorem move_lock (s : State) (t : Tid) (p : Pc) (m : MutexLock) :
    (s.move t p m).lock = m := rfl

@[simp] theorem move_pc_self (s : State) (t : Tid) (p : Pc) (m : MutexLock) :
    (s.move t p m).pc t = p := by simp [move]

theorem move_pc_ne (s : State) {t u : Tid} (p : Pc) (m : MutexLock) (h : u ≠ t) :
    (s.move t p m).pc u = s.pc u := by simp [move, h]

end State

/-! ## 2. What one step can do

Every step is one thread moving between two places of its code; what it does to the pthread
mutex and to `_holder` depends only on that pair of places. -/

/-- **Inversion of a step.**  Either nothing moves (a failed `try_lock`), or one thread acquires a
free mutex, releases the one it owns, or stores to `_holder`. -/
theorem step_cases {s s' : State} {l : Label} (h : s.step l = some s') :
    s' = s ∨
    (∃ t p, s.lock.mutex = none ∧ (s.pc t).owns = false ∧ p.owns = true ∧ p ≠ .inside ∧
      s' = s.acquire t p) ∨
    (∃ t p, (s.pc t).owns = true ∧ p.owns = false ∧ p ≠ .inside ∧ s' = s.release t p) ∨
    (∃ t, (s.pc t).owns = true ∧ s' = s.move t .inside (s.lock.setHolder t)) ∨
    (∃ t, s.pc t = .inside ∧ s' = s.move t .unassigned s.lock.unsetHolder) ∨
    (∃ t, l = .unsetHolder t ∧ s.pc t = .unlocking ∧
      s' = s.move t .outside s.lock.unsetHolder) := by
  cases l with
  | lock t =>
    simp only [State.step] at h
    split at h
    · rename_i hc
      refine .inr (.inl ⟨t, .locking, hc.2, by simp [hc.1, Pc.owns], rfl, by simp, ?_⟩)
      exact (Option.some.inj h).symm
    · cases h
  | tryLock t =>
    simp only [State.step] at h
    split at h
    · rename_i hc
      split at h
      · rename_i hf
        refine .inr (.inl ⟨t, .locking, hf, by simp [hc, Pc.owns], rfl, by simp, ?_⟩)
        exact (Option.some.inj h).symm
      · exact .inl (Option.some.inj h).symm
    · cases h
  | setHolder t =>
    simp only [State.step] at h
    split at h
    · rename_i hc
      exact .inr (.inr (.inr (.inl ⟨t, by simp [hc, Pc.owns], (Option.some.inj h).symm⟩)))
    · cases h
  | unlock t =>
    simp only [State.step] at h
    split at h
    · rename_i hc
      refine .inr (.inr (.inl ⟨t, .unlocking, by simp [hc, Pc.owns], rfl, by simp, ?_⟩))
      exact (Option.some.inj h).symm
    · cases h
  | unsetHolder t =>
    simp only [State.step] at h
    split at h
    · rename_i hc
      exact .inr (.inr (.inr (.inr (.inr ⟨t, rfl, hc, (Option.some.inj h).symm⟩))))
    · cases h
  | unassign t =>
    simp only [State.step] at h
    split at h
    · rename_i hc
      exact .inr (.inr (.inr (.inr (.inl ⟨t, hc, (Option.some.inj h).symm⟩))))
    · cases h
  | wait t =>
    simp only [State.step] at h
    split at h
    · rename_i hc
      refine .inr (.inr (.inl ⟨t, .waiting, by simp [hc, Pc.owns], rfl, by simp, ?_⟩))
      exact (Option.some.inj h).symm
    · cases h
  | wake t =>
    simp only [State.step] at h
    split at h
    · rename_i hc
      refine .inr (.inl ⟨t, .woken, hc.2, by simp [hc.1, Pc.owns], rfl, by simp, ?_⟩)
      exact (Option.some.inj h).symm
    · cases h
  | reassign t =>
    simp only [State.step] at h
    split at h
    · rename_i hc
      exact .inr (.inr (.inr (.inl ⟨t, by simp [hc, Pc.owns], (Option.some.inj h).symm⟩)))
    · cases h

/-! ## 3. The pthread mutex is exact in every run -/

/-- The pthread mutex is owned by exactly the thread whose code is between acquire and release.
In `wait` a thread owns it up to `pthread_cond_wait` and again from its return, so the two places
beside `inside` count. -/
def OwnerExact (s : State) : Prop :=
  ∀ t, (s.pc t).owns = true ↔ s.lock.mutex = some t

theorem ownerExact_init : OwnerExact State.init := by
  intro t
  simp [State.init, MutexLock.new, Pc.owns]

/-- Moving a thread between two places that own the mutex alike, with the mutex untouched. -/
theorem ownerExact_move {s : State} (h : OwnerExact s) {t : Tid} {p : Pc} {m : MutexLock}
    (hp : p.owns = (s.pc t).owns) (hm : m.mutex = s.lock.mutex) :
    OwnerExact (s.move t p m) := by
  intro u
  by_cases hu : u = t
  · subst hu
    rw [State.move_pc_self, State.move_lock, hp, hm]
    exact h u
  · rw [State.move_pc_ne _ _ _ hu, State.move_lock, hm]
    exact h u

theorem step_ownerExact {s s' : State} {l : Label} (h : OwnerExact s)
    (hst : s.step l = some s') : OwnerExact s' := by
  obtain rfl | ⟨t, p, hf, -, hp, -, rfl⟩ | ⟨t, p, ht, hp, -, rfl⟩ | ⟨t, ht, rfl⟩ | ⟨t, ht, rfl⟩ |
    ⟨t, -, ht, rfl⟩ := step_cases hst
  · exact h
  · -- an acquire: nobody owned it, so nobody else can own it now
    intro u
    by_cases hu : u = t
    · subst hu; simp [State.acquire, hp]
    · have : (s.pc u).owns = false := by
        have := h u
        rw [hf] at this
        simpa using this
      simp [State.acquire, State.move_pc_ne _ _ _ hu, this, Ne.symm hu]
  · intro u
    by_cases hu : u = t
    · subst hu; simp [State.release, hp]
    · have hne : s.lock.mutex ≠ some u := by
        rw [(h t).mp ht]
        simpa using Ne.symm hu
      have : (s.pc u).owns = false := by
        have := (h u).not.mpr hne
        simpa using this
      simp [State.release, State.move_pc_ne _ _ _ hu, this]
  · exact ownerExact_move h (by rw [ht]; rfl) rfl
  · exact ownerExact_move h (by rw [ht]; rfl) rfl
  · exact ownerExact_move h (by rw [ht]; rfl) rfl

theorem reach_ownerExact {G : State → Label → Prop} {s : State}
    (h : Reach State.step G State.init s) : OwnerExact s :=
  h.invariant ownerExact_init fun _ _ _ hi _ hst => step_ownerExact hi hst

/-- **Mutual exclusion.**  Two threads are never between acquire and release at once: both would
be the owner (`OwnerExact`). -/
theorem mutual_exclusion {s : State} (h : Reach State.step anyStep State.init s) {t u : Tid}
    (ht : (s.pc t).owns = true) (hu : (s.pc u).owns = true) : t = u := by
  have hx := reach_ownerExact h
  have := ((hx t).mp ht).symm.trans ((hx u).mp hu)
  exact Option.some.inj this

/-! ## 4. `_holder` -/

/-- Inside the critical section `_holder` is the thread's own id, `is_locked_by_this_thread`
answers yes and `assert_locked` passes.  This is what every `assert` on the holder in the
repository takes for granted. -/
def HolderExact (s : State) : Prop :=
  ∀ t, s.pc t = .inside →
    s.lock.holder = t ∧ s.lock.isLockedByThisThread t = true ∧ s.lock.assertLocked t = true

/-- The schedules that are right: `unlock`'s `unset_holder` does not run while another thread is
in its critical section, that is, no other `lock` or `wait` has returned since the release.  The
condition is on the state before the step and on the step, and says nothing of what the step
writes. -/
def ClearedInTime (s : State) : Label → Prop
  | .unsetHolder _ => ∀ u, s.pc u ≠ .inside
  | _ => True

/-- The `_holder` part of `HolderExact`, which the rest follows from. -/
def HolderMarks (s : State) : Prop := ∀ t, s.pc t = .inside → s.lock.holder = t

theorem holderExact_of_marks {s : State} (h : HolderMarks s) : HolderExact s := by
  intro t ht
  have hh := h t ht
  exact ⟨hh, by simp [MutexLock.isLockedByThisThread, hh],
    by simp [MutexLock.assertLocked, MutexLock.isLockedByThisThread, hh]⟩

/-- A thread that owns the mutex is the only one that can be inside, so a step of the owner
cannot disturb anybody else's mark. -/
theorem inside_eq {s : State} (h : OwnerExact s) {t u : Tid} (ht : (s.pc t).owns = true)
    (hu : s.pc u = .inside) : u = t := by
  have hu' : (s.pc u).owns = true := by simp [hu, Pc.owns]
  exact Option.some.inj (((h u).mp hu').symm.trans ((h t).mp ht))

/-- One step keeps `_holder` exact, given that the pthread mutex is and that a clear comes in
time.  A store to `_holder` is made by the owner, and then only the owner's own mark is at stake;
the one exception is the `unset_holder` of `unlock`, which is made by a thread that owns nothing
any more. -/
theorem step_holderMarks {s s' : State} {l : Label} (hx : OwnerExact s) (hm : HolderMarks s)
    (hg : ClearedInTime s l) (hst : s.step l = some s') : HolderMarks s' := by
  obtain rfl | ⟨t, p, -, -, -, hp, rfl⟩ | ⟨t, p, -, -, hp, rfl⟩ | ⟨t, ht, rfl⟩ | ⟨t, ht, rfl⟩ |
    ⟨t, rfl, -, rfl⟩ := step_cases hst
  · exact hm
  · -- acquiring and releasing leave `_holder` alone and put nobody inside
    intro u hu
    by_cases hut : u = t
    · subst hut; exact absurd (by simpa [State.acquire] using hu) hp
    · rw [State.acquire, State.move_pc_ne _ _ _ hut] at hu
      exact hm u hu
  · intro u hu
    by_cases hut : u = t
    · subst hut; exact absurd (by simpa [State.release] using hu) hp
    · rw [State.release, State.move_pc_ne _ _ _ hut] at hu
      exact hm u hu
  · -- `set_holder` by the owner: nobody else is inside
    intro u hu
    by_cases hut : u = t
    · subst hut; rfl
    · rw [State.move_pc_ne _ _ _ hut] at hu
      exact absurd (inside_eq hx ht hu) hut
  · -- `wait` clears `_holder` while it still owns the mutex
    intro u hu
    by_cases hut : u = t
    · subst hut; simp at hu
    · rw [State.move_pc_ne _ _ _ hut] at hu
      exact absurd (inside_eq hx (by simp [ht, Pc.owns]) hu) hut
  · -- `unlock` clears `_holder` after the release: only the guard keeps others out
    intro u hu
    by_cases hut : u = t
    · subst hut; simp at hu
    · rw [State.move_pc_ne _ _ _ hut] at hu
      exact absurd hu (hg u)

/-- **`_holder` is exact along every run whose clears come in time.**  For any number of threads
and any interleaving of the steps of `lock`, `try_lock`, `unlock`, `wait` and `time_wait` in
which no `unset_holder` of `unlock` runs while another thread is in its critical section.  By
induction over the run with `OwnerExact` beside it; the condition is used at one step only, the
late clear, and `lateClear` is what happens where it fails. -/
theorem holder_exact_of_clearedInTime (s : State)
    (h : Reach State.step ClearedInTime State.init s) : HolderExact s := by
  have hinv : OwnerExact s ∧ HolderMarks s := by
    refine h.invariant (I := fun s => OwnerExact s ∧ HolderMarks s)
      ⟨ownerExact_init, fun t ht => absurd ht (by simp [State.init])⟩ ?_
    rintro s l s' ⟨hx, hm⟩ hg hst
    exact ⟨step_ownerExact hx hst, step_holderMarks hx hm hg hst⟩
  exact holderExact_of_marks hinv.2

/-- Thread 1 hands the lock over to thread 2 and clears `_holder` in time. -/
def handover : List Label :=
  [.lock 1, .setHolder 1, .unlock 1, .unsetHolder 1, .lock 2, .setHolder 2]

theorem holder_exact_handover :
    ∃ s, exec State.step State.init handover = some s ∧ s.pc 2 = .inside ∧ s.lock.holder = 2 := by
  refine ⟨_, rfl, rfl, ?_⟩
  refine (holder_exact_of_clearedInTime _ (Reach.of_exec handover State.init ?_ rfl) 2 rfl).1
  refine ⟨trivial, ?_⟩
  rintro _ ⟨⟩
  refine ⟨trivial, ?_⟩
  rintro _ ⟨⟩
  refine ⟨trivial, ?_⟩
  rintro _ ⟨⟩
  refine ⟨?_, ?_⟩
  · intro u
    by_cases hu : u = 1
    · subst hu; decide
    · simp [State.release, State.acquire, State.move, State.init, hu]
  rintro _ ⟨⟩
  refine ⟨trivial, ?_⟩
  rintro _ ⟨⟩
  exact ⟨trivial, fun _ _ => trivial⟩

/-- The interleaving that goes wrong: thread 2 runs all of `lock` between the two steps of
thread 1's `unlock`. -/
def lateClear : List Label :=
  [.lock 1, .setHolder 1, .unlock 1, .lock 2, .setHolder 2, .unsetHolder 1]

/-- **`unlock` wipes out the next holder's mark.**  After `lateClear` thread 2 is in its critical
section and `_holder` is `0`. -/
theorem unlock_clears_next_holder :
    ¬ ∀ s, Reach State.step anyStep State.init s → HolderExact s := by
  intro h
  have hrun : exec State.step State.init lateClear =
      some ⟨⟨some 2, 0⟩, Function.update (Function.update (Function.update (Function.update
        (Function.update (Function.update State.init.pc 1 .locking) 1 .inside) 1 .unlocking)
          2 .locking) 2 .inside) 1 .outside⟩ := rfl
  have := (h _ (Reach.of_exec_any lateClear hrun) 2 rfl).1
  exact absurd this (by decide)

end Suduo.Mutex
