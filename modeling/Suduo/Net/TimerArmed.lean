/-
# The timer fd is armed early enough

`add_timer` sets `_timer_fd` only when its timer is the new earliest one, `handle_read` sets it once,
at its end, and a cancel never does.  That is enough: between two steps of the loop the fd has
expired or is set for the earliest pending timer, or for 100 microseconds after it was set if that
is later (`InTime`).  A cancel only makes the earliest timer later, and a timer that is not the
earliest is behind one the fd was set for.

Two things keep this from being the whole truth.  `how_much_time_from_now` reads the clock and
`timerfd_settime` counts from when it is called, so the fd is late by what passes in between, however
little that is (`settime_comes_late`).  And times are nanoseconds in an `int64_t`: where `now` plus an
interval of centuries leaves its range, the next expiration lies far in the past, and what
`how_much_time_from_now` makes of it far in the future (`interval_wraps_round`).

So the statement is about runs whose times stay in range (`TimesInRange`), and it has the lateness in
it.  The clock starts after the epoch, as it does on every system that the code runs on: `valid()`
takes the epoch for no time at all, and a timer put back for that very moment would leave the fd unset.
-/
import Suduo.Net.TimerRound

namespace Suduo.TimerQueue

open Lib

/-! ## 1. In time -/

/-- By how much `_timer_fd` is late: what has passed from `Timestamp::now()` to
`timerfd_settime`.  The thread may have been descheduled in between, so there is no bound on it. -/
def TimerFd.late (fd : TimerFd) : Int := fd.armedAt - fd.clockReadAt

/-- `_timer_fd` is readable, or set to expire no more than `late` after `when`, or 100 microseconds
after it was set. -/
def InTime (q : State) (late when : Int) : Prop :=
  q.timerFdReadable = true ∨
    ∃ e, q.timerFd.expiry = some e ∧ e ≤ max (when + late) (q.timerFd.armedAt + 100 * 1000)

/-- The fd is in time for every node of `_timers`, but for its lateness. -/
def Armed (q : State) : Prop :=
  ∀ k v, q.timers.get? k = some v → InTime q q.timerFd.late (TimerID.time k)

variable {q q' : State} {t : Timer}

/-- `how_much_time_from_now` is what is left to the expiration, or 100 microseconds.  The
difference has to be one that an `int64_t` can hold. -/
theorem howMuchTimeFromNow_le {when now : Int} (h : Timestamp.InRange (when - now)) :
    howMuchTimeFromNow when now ≤ max (when - now) (100 * 1000) := by
  rw [howMuchTimeFromNow, Timestamp.sub_eq h]
  split
  · exact le_max_right _ _
  · exact le_max_left _ _

theorem InTime.later {late when when' : Int} (h : InTime q late when) (hle : when ≤ when') :
    InTime q late when' := by
  rcases h with h | ⟨e, he, hbound⟩
  · exact .inl h
  · exact .inr ⟨e, he, le_trans hbound (max_le_max_right _ (by omega))⟩

theorem resetTimerFd_inTime {when : Int} (h : Timestamp.InRange (when - q.clock)) :
    InTime (q.resetTimerFd when) (q.resetTimerFd when).timerFd.late when := by
  refine .inr ⟨_, rfl, ?_⟩
  have hle := howMuchTimeFromNow_le h
  -- the fd is late by the delay, and armed after it
  change q.clock + q.delay + howMuchTimeFromNow when q.clock ≤
    max (when + (q.clock + q.delay - q.clock)) (q.clock + q.delay + 100 * 1000)
  omega

/-- An fd set for the earliest timer is in time for all of them, since to be in time for a later
one is less. -/
theorem armed_of_first (h : ∀ k ∈ q.timers.begin?, InTime q q.timerFd.late (TimerID.time k)) : Armed q := by
  intro k v hv
  cases hb : q.timers.begin? with
  | none => exact absurd hv (SortedMap.begin?_eq_none.mp hb k v)
  | some b =>
    have hle : b ≤ k := (SortedMap.begin?_eq_some.mp hb).2 k v hv
    exact (h b hb).later (TimerID.time_le hle)

/-! ## 2. Times in range -/

/-- `insert` reports a new earliest timer. -/
def State.Earliest (q : State) (when : Int) : Prop := ∀ k ∈ q.timers.begin?, when < TimerID.time k

instance (q : State) (when : Int) : Decidable (q.Earliest when) :=
  inferInstanceAs (Decidable (∀ k ∈ q.timers.begin?, when < TimerID.time k))

/-- No time that the step works with leaves the range of an `int64_t` of nanoseconds: what
`add_timer` is given, an interval cast from a `double`, the difference that
`how_much_time_from_now` takes, the clock at the end of `handle_read` and what the timers are
restarted for.  These are the places where the code adds or subtracts times. -/
def TimesInRange (q : State) : Label → Prop
  | .addTimer when interval =>
    Timestamp.InRange when ∧ (q.Earliest when → Timestamp.InRange (when - q.clock)) ∧
      (interval.positive = true → 0 ≤ interval.nanoseconds)
  | .finish =>
    Timestamp.InRange q.clock ∧
      ∀ w ∈ q.walk, ∀ t ∈ w.expired, t.repeated = true → Timestamp.InRange (w.now + t.interval)
  | _ => True

instance (q : State) : (l : Label) → Decidable (TimesInRange q l)
  | .addTimer when interval =>
    inferInstanceAs (Decidable (Timestamp.InRange when ∧ (q.Earliest when → Timestamp.InRange (when - q.clock)) ∧
      (interval.positive = true → 0 ≤ interval.nanoseconds)))
  | .finish =>
    inferInstanceAs (Decidable (Timestamp.InRange q.clock ∧
      ∀ w ∈ q.walk, ∀ t ∈ w.expired, t.repeated = true → Timestamp.InRange (w.now + t.interval)))
  | .tick _ | .delay _ | .createdElsewhere | .cancel _ | .cancelInLoop | .handleRead | .runCallback
  | .callbackReturns => .isTrue trivial

/-- The timer goes on to a time that is not earlier. -/
def Forward (t : Timer) : Prop := t.repeated = true → 0 ≤ t.interval

/-- The clock is past the epoch, no timer is for a time out of range, and what `handle_read` is
going to leave is past the epoch as well: `iter` is, and `now`, from which timers are restarted.
`valid()`, by which `reset` decides whether to set the fd, then says yes whenever a timer is
left. -/
structure Ranged (q : State) : Prop where
  clock : 0 < q.clock
  times : ∀ k v, q.timers.get? k = some v → TimerID.time k < 2 ^ 63
  timers : ∀ k t, q.timers.get? k = some (some t) → Forward t
  walk : ∀ w ∈ q.walk, 0 < w.now ∧ (∀ t ∈ w.expired, Forward t) ∧ ∀ i ∈ w.iter, 0 < TimerID.time i

theorem ranged_init {clock : Int} (h : 0 < clock) : Ranged (.init clock) := by
  refine ⟨h, fun k v hv => ?_, fun k t ht => ?_, fun w hw => ?_⟩
  · cases hv
  · cases ht
  · cases hw

/-- What `reset` leaves is past the epoch: it was behind `iter`, or was put back from `now` on.
A timer in front of `iter` may have been for any time, and the range erase takes it. -/
theorem Ranged.finish {w : Walk} (h : Ranged q) (hw : q.walk = some w)
    (hrange : ∀ t ∈ w.expired, t.repeated = true → Timestamp.InRange (w.now + t.interval))
    (hr : w.expired.foldlM (State.resetOne w.now) (q.eraseExpired w) = some q') :
    (∀ k v, q'.timers.get? k = some v → 0 < TimerID.time k ∧ TimerID.time k < 2 ^ 63) ∧
      (∀ k t, q'.timers.get? k = some (some t) → Forward t) ∧ q'.clock = q.clock ∧
      q'.walk = none := by
  obtain ⟨hnow, hexp, hiter⟩ := h.walk w hw
  have hI := foldlM_consume (f := State.resetOne w.now)
    (I := fun ts s => ((∀ k v, s.timers.get? k = some v → 0 < TimerID.time k ∧ TimerID.time k < 2 ^ 63) ∧
      (∀ k t, s.timers.get? k = some (some t) → Forward t) ∧ s.clock = q.clock ∧ s.walk = none) ∧
      ∀ t ∈ ts, Forward t ∧ (t.repeated = true → Timestamp.InRange (w.now + t.interval)))
    ?_ w.expired (q.eraseExpired w) q' ⟨⟨?_, ?_, rfl, rfl⟩, fun t ht => ⟨hexp t ht, hrange t ht⟩⟩ hr
  · exact hI.1
  · rintro t ts s s' ⟨⟨htime, hfwd, hkept⟩, hts⟩ hst
    have hrest := fun u hu => hts u (List.mem_cons_of_mem _ hu)
    obtain ⟨ht, hfits⟩ := hts t (List.mem_cons_self ..)
    rcases resetOne_cases hst with ⟨rfl, -⟩ | ⟨hrep, entry, failed, -, rfl⟩
    · exact ⟨⟨htime, hfwd, hkept⟩, hrest⟩
    · refine ⟨⟨?_, ?_, hkept⟩, hrest⟩
      · intro k v hv
        rcases SortedMap.get?_insert_cases hv with hv | ⟨rfl, -⟩
        · exact htime k v hv
        · have hge : 0 ≤ t.interval := ht hrep
          have hlt : w.now + t.interval < 2 ^ 63 := (hfits hrep).2
          have htime : (t.restart w.now).expertionTime = w.now + t.interval := by
            rw [Timer.restart, if_pos hrep]
            exact Timestamp.add_eq (hfits hrep)
          rw [key_time, htime]
          omega
      · intro k u hu
        rcases SortedMap.get?_insert_cases hu with hu | ⟨-, heq⟩
        · exact hfwd k u hu
        · cases heq
          exact ht
  · intro k v hv
    obtain ⟨hold, hnot⟩ := SortedMap.get?_of_get?_eraseBefore hv
    refine ⟨?_, h.times k v hold⟩
    cases hi : w.iter with
    | none =>
      rw [hi] at hnot
      exact absurd trivial hnot
    | some i =>
      rw [hi] at hnot
      exact lt_of_lt_of_le (hiter i hi) (TimerID.time_le (not_lt.mp hnot))
  · exact fun k t ht => h.timers k t (SortedMap.get?_of_get?_eraseBefore ht).1

theorem resetTimerFd_clock (q : State) (when : Int) : q.clock ≤ (q.resetTimerFd when).clock := by
  change q.clock ≤ q.clock + q.delay
  omega

theorem addTimer_clock {when : Int} {interval : Interval} (h : q.addTimer when interval = some q') :
    q.clock ≤ q'.clock := by
  simp only [State.addTimer, Option.bind_eq_bind, Option.bind_eq_some_iff] at h
  obtain ⟨⟨q₁, b⟩, hins, h⟩ := h
  obtain ⟨entry, failed, -, rfl⟩ := insert_eq hins
  cases h
  cases b with
  | true => exact resetTimerFd_clock _ _
  | false => exact le_refl _

/-! ## 3. The steps -/

/-- The clock goes on: an fd that has expired stays readable, and one that has not is set for the
time it was set for. -/
theorem InTime.tick {late when : Int} (h : InTime q late when) (ns : Nat) :
    InTime { q with clock := q.clock + ns } late when := by
  refine h.imp (fun hr => ?_) id
  simp only [State.timerFdReadable] at hr ⊢
  cases he : q.timerFd.expiry with
  | none => simp [he] at hr
  | some e =>
    simp only [he, decide_eq_true_eq] at hr ⊢
    omega

theorem insert_earliest {b : Bool} (h : q.insert t = some (q', b)) :
    q'.timers = q.timers.insert t.key (some t) ∧ q'.toKernel = q.toKernel ∧
      (b = true ↔ q.Earliest t.expertionTime) := by
  simp only [State.insert] at h
  split at h
  · cases h
    refine ⟨rfl, rfl, ?_⟩
    cases hbeg : q.timers.begin? <;> simp [State.Earliest, hbeg]
  · cases h

/-- What is reported as the earliest is before every other, and what is not is behind one.  This
is what the returned `bool` of `insert` means. -/
theorem earliest_le {when : Int} (h : q.Earliest when) {k : TimerID} {v : Option Timer}
    (hv : q.timers.get? k = some v) : when ≤ TimerID.time k := by
  cases hbeg : q.timers.begin? with
  | none => exact absurd hv (SortedMap.begin?_eq_none.mp hbeg k v)
  | some it =>
    have hle : it ≤ k := (SortedMap.begin?_eq_some.mp hbeg).2 k v hv
    exact le_trans (le_of_lt (h it hbeg)) (TimerID.time_le hle)

theorem exists_le_of_not_earliest {when : Int} (h : ¬ q.Earliest when) :
    ∃ k v, q.timers.get? k = some v ∧ TimerID.time k ≤ when := by
  simp only [State.Earliest, not_forall, not_lt] at h
  obtain ⟨k, hk, hle⟩ := h
  obtain ⟨⟨v, hv⟩, -⟩ := SortedMap.begin?_eq_some.mp hk
  exact ⟨k, v, hv, hle⟩

/-- A new timer is the earliest and the fd is set for it, or it is behind one that the fd is in
time for.  Only in the first case does the code touch the fd. -/
theorem addTimer_armed {when : Int} {interval : Interval} (h : Armed q)
    (hrange : q.Earliest when → Timestamp.InRange (when - q.clock))
    (hst : q.addTimer when interval = some q') : Armed q' := by
  simp only [State.addTimer, Option.bind_eq_bind, Option.bind_eq_some_iff] at hst
  obtain ⟨⟨q₁, b⟩, hins, hst⟩ := hst
  obtain ⟨htimers, hkernel, hb⟩ := insert_earliest hins
  have hkernel : q₁.toKernel = q.toKernel := hkernel
  cases hst
  cases b with
  | true =>
    have hfirst : q.Earliest when := hb.mp rfl
    have hset : InTime (q₁.resetTimerFd when) (q₁.resetTimerFd when).timerFd.late when := by
      refine resetTimerFd_inTime ?_
      rw [hkernel]
      exact hrange hfirst
    intro k v hv
    refine hset.later ?_
    rcases SortedMap.get?_insert_cases (htimers ▸ hv) with hv | ⟨rfl, -⟩
    · exact earliest_le hfirst hv
    · exact le_refl when
  | false =>
    have hkeep (when : Int) (hw : InTime q q.timerFd.late when) : InTime q₁ q₁.timerFd.late when := by
      simp only [InTime, State.timerFdReadable] at hw ⊢
      rwa [hkernel]
    intro k v hv
    rcases SortedMap.get?_insert_cases (htimers ▸ hv) with hv | ⟨rfl, -⟩
    · exact hkeep _ (h k v hv)
    · have hnot : ¬ q.Earliest when := fun hh => Bool.false_ne_true (hb.mpr hh)
      obtain ⟨j, u, hu, hle⟩ := exists_le_of_not_earliest hnot
      exact hkeep _ ((h j u hu).later hle)

/-- What `reset` does after its loop: nothing if no timer is left, and otherwise it sets the fd
for the first. -/
theorem finish_fd {w : Walk} (h : q.finish w = some q') :
    ∃ q₁, w.expired.foldlM (State.resetOne w.now) (q.eraseExpired w) = some q₁ ∧
      (q₁.timers.begin? = none ∧ q' = q₁ ∨
        ∃ it timer, q₁.timers.begin? = some it ∧ q₁.timers.get? it = some (some timer) ∧
          q' = if timer.expertionTime ≠ 0 then q₁.resetTimerFd timer.expertionTime else q₁) := by
  simp only [State.finish, State.reset, Option.bind_eq_bind, Option.bind_eq_some_iff] at h
  obtain ⟨q₁, hr, h⟩ := h
  refine ⟨q₁, hr, ?_⟩
  split at h
  · rename_i hb
    cases h
    exact .inl ⟨hb, rfl⟩
  · rename_i it hb
    split at h
    · rename_i timer ht
      cases h
      exact .inr ⟨it, timer, hb, ht, rfl⟩
    · cases h

/-- `reset` sets the fd for the earliest timer it leaves.  All times that it works with are in
range, so the fd is set for that time and not for one that has wrapped round. -/
theorem finish_armed {w : Walk} (hs : Sound q) (hq : Ranged q) (hw : q.walk = some w)
    (hclock : Timestamp.InRange q.clock)
    (hrange : ∀ t ∈ w.expired, t.repeated = true → Timestamp.InRange (w.now + t.interval))
    (h : q.finish w = some q') : Armed q' := by
  obtain ⟨q₁, hr, ⟨hb, rfl⟩ | ⟨it, timer, hb, ht, rfl⟩⟩ := finish_fd h
  · exact armed_of_first fun k hk => by
      rw [hb] at hk
      cases hk
  · have hs₁ : Sound q₁ := (finish_sound hs hw hr).1
    obtain ⟨htimes, -, hsame, -⟩ := hq.finish hw hrange hr
    have htime : it.time = timer.expertionTime := by
      rw [hs₁.keyed it timer ht, key_time]
    obtain ⟨hpast, hlt⟩ := htimes it _ ht
    rw [htime] at hpast hlt
    have hdiff : Timestamp.InRange (timer.expertionTime - q₁.clock) := by
      have hnow : 0 < q.clock := hq.clock
      have hhigh : q.clock < 2 ^ 63 := hclock.2
      rw [hsame]
      exact ⟨by omega, by omega⟩
    rw [if_pos (ne_of_gt hpast)]
    refine armed_of_first fun k hk => ?_
    obtain rfl : it = k := Option.some.inj (hb.symm.trans hk)
    rw [htime]
    exact resetTimerFd_inTime hdiff

/-- Steps outside `handle_read` keep the fd in time, and `handle_read` ends with it in time.  In
between it need not be: the fd has been read, and nothing has set it again yet. -/
theorem step_armed {l : Label} (hs : Sound q) (hq : Ranged q) (h : q.walk = none → Armed q)
    (hg : TimesInRange q l) (hst : q.step l = some q') (hw' : q'.walk = none) : Armed q' := by
  cases l with
  | tick ns =>
    cases hst
    exact fun k v hv => (h hw' k v hv).tick ns
  | delay ns | createdElsewhere =>
    cases hst
    exact h hw'
  | addTimer when interval =>
    have hw : q.walk = none := by
      cases step_inv hst
      exact hw'
    obtain ⟨-, hadd⟩ := step_addTimer hst
    exact addTimer_armed (h hw) hg.2.1 hadd
  | cancel timerId =>
    cases step_inv hst
    exact h hw'
  | cancelInLoop =>
    cases step_inv hst with
    | cancelFound timerId rest node t failed hw =>
      exact fun k v hv => h hw k v (SortedMap.get?_of_get?_erase hv)
    | cancelMissed timerId rest canceling failed hw => exact h hw
  | finish =>
    obtain ⟨w, hw, -, -, hfin⟩ := step_finish hst
    exact finish_armed hs hq hw hg.1 (hg.2 w hw) hfin
  | handleRead | runCallback | callbackReturns =>
    cases step_inv hst
    cases hw'

/-- The callback has returned: its timer, which was in range, is held in `expired`. -/
theorem Ranged.callbackReturns (h : Ranged q) {w : Walk} {ptr : TimerID} {t : Timer} (hw : q.walk = some w)
    (ht : q.timers.get? ptr = some (some t)) :
    Ranged { q with
      activeTimers := q.activeTimers.erase ptr.id, timers := q.timers.set ptr none,
      walk := some { w with
        expired := w.expired ++ [t], ptr := (q.timers.set ptr none).next ptr, running := false } } := by
  obtain ⟨hnow, hexp, hiter⟩ := h.walk w hw
  refine ⟨h.clock, fun k v hv => ?_, fun k u hu => ?_, ?_⟩
  · rcases SortedMap.get?_set_cases hv with ⟨rfl, -⟩ | ⟨-, hv⟩
    · exact h.times k _ ht
    · exact h.times k v hv
  · rcases SortedMap.get?_set_cases hu with ⟨-, hnull⟩ | ⟨-, hu⟩
    · cases hnull
    · exact h.timers k u hu
  · rintro _ hw'
    cases hw'
    refine ⟨hnow, ?_, hiter⟩
    intro u hu
    rcases List.mem_append.mp hu with hu | hu
    · exact hexp u hu
    · rw [List.mem_singleton.mp hu]
      exact h.timers ptr t ht

/-- A step that stays in range leaves a state that does. -/
theorem step_ranged {l : Label} (h : Ranged q) (hg : TimesInRange q l) (hst : q.step l = some q') :
    Ranged q' := by
  cases l with
  | tick ns =>
    cases hst
    have hclock := h.clock
    exact ⟨by change 0 < q.clock + ns; omega, h.times, h.timers, h.walk⟩
  | delay ns | createdElsewhere =>
    cases hst
    exact ⟨h.clock, h.times, h.timers, h.walk⟩
  | addTimer when interval =>
    obtain ⟨hfits, -, hforward⟩ := hg
    have hlater : q.clock ≤ q'.clock := addTimer_clock (step_addTimer hst).2
    cases step_inv hst with
    | addTimer _ _ t entry failed kernel hu ht he =>
      refine ⟨lt_of_lt_of_le h.clock hlater, fun k v hv => ?_, fun k u hu => ?_, h.walk⟩
      · rcases SortedMap.get?_insert_cases hv with hv | ⟨rfl, -⟩
        · exact h.times k v hv
        · rw [key_time, ht]
          exact hfits.2
      · rcases SortedMap.get?_insert_cases hu with hu | ⟨-, heq⟩
        · exact h.timers k u hu
        · cases heq
          rw [ht]
          exact hforward
  | cancel timerId =>
    cases step_inv hst
    exact ⟨h.clock, h.times, h.timers, h.walk⟩
  | cancelInLoop =>
    cases step_inv hst with
    | cancelFound timerId rest node t failed hw hn ht =>
      exact ⟨h.clock, fun k v hv => h.times k v (SortedMap.get?_of_get?_erase hv),
        fun k u hu => h.timers k u (SortedMap.get?_of_get?_erase hu), h.walk⟩
    | cancelMissed timerId rest canceling failed hw => exact ⟨h.clock, h.times, h.timers, h.walk⟩
  | handleRead =>
    cases step_inv hst with
    | handleRead fd hw =>
      refine ⟨h.clock, h.times, h.timers, ?_⟩
      rintro w hw'
      cases hw'
      refine ⟨h.clock, by simp, ?_⟩
      intro i hi
      -- `iter` is not below `{now, UINT64_MAX}`
      have hle := (SortedMap.lowerBound_eq_some.mp hi).2.1
      exact lt_of_lt_of_le h.clock (TimerID.time_le hle)
  | runCallback =>
    cases step_inv hst with
    | runCallback w ptr t hw hr hi hp ht =>
      refine ⟨h.clock, h.times, h.timers, ?_⟩
      rintro _ hw'
      cases hw'
      exact h.walk w hw
  | callbackReturns =>
    cases step_inv hst with
    | callbackReturns w ptr t hw hr hp ht =>
      exact h.callbackReturns hw ht
  | finish =>
    obtain ⟨w, hw, -, -, hfin⟩ := step_finish hst
    obtain ⟨q₁, hr, hq'⟩ := finish_fd hfin
    obtain ⟨htimes, hfwd, hclock, hidle⟩ := h.finish hw (hg.2 w hw) hr
    have hranged (kernel : Kernel) (hlater : q₁.clock ≤ kernel.clock) : Ranged { q₁ with toKernel := kernel } :=
      ⟨lt_of_lt_of_le (hclock ▸ h.clock) hlater, fun k v hv => (htimes k v hv).2, hfwd, by simp [hidle]⟩
    rcases hq' with ⟨-, rfl⟩ | ⟨it, timer, -, -, rfl⟩
    · exact hranged q'.toKernel (le_refl _)
    · split
      · exact hranged _ (resetTimerFd_clock q₁ timer.expertionTime)
      · exact hranged q₁.toKernel (le_refl _)

/-! ## 4. Every run -/

/-- **The timer fd is always armed early enough, but for the time it takes to arm it.**  Take any run of
the queue from after the epoch whose times stay in range.  In every state outside `handle_read` each
pending timer, and so the earliest one, finds the fd readable, or set to expire no later than that timer,
later only by what passed between `Timestamp::now()` and `timerfd_settime` when it was last set, or 100
microseconds after it was last set. -/
theorem timerFd_armed (clock : Int) (hclock : 0 < clock) (q : State)
    (h : Reach State.step TimesInRange (.init clock) q) (hw : q.walk = none) :
    ∀ k v, q.timers.get? k = some v →
      ∃ t : Timer, v = some t ∧ InTime q q.timerFd.late t.expertionTime := by
  have hinv : Walkable q ∧ Ranged q ∧ (q.walk = none → Armed q) := by
    refine h.invariant (I := fun s => Walkable s ∧ Ranged s ∧ (s.walk = none → Armed s))
      ⟨?_, ranged_init hclock, ?_⟩ ?_
    · exact reach_walkable .refl
    · intro _ k v hv
      cases hv
    · rintro s l s' ⟨hs, hr, ha⟩ hg hst
      exact ⟨step_walkable hs hst, step_ranged hr hg hst, step_armed hs.sound hr ha hg hst⟩
  intro k v hv
  cases v with
  | none =>
    obtain ⟨w, hw', -⟩ := hinv.1.null k hv
    rw [hw] at hw'
    cases hw'
  | some t =>
    refine ⟨t, rfl, ?_⟩
    rw [← key_time t, ← hinv.1.sound.keyed k t hv]
    exact hinv.2.2 hw k _ hv

/-- A one-shot at 10, a repeating timer at 12, a one-shot at 90 and one at 800000.  The first is
cancelled before it is due, which sets nothing; past 200000 the next two are run, the repeating one's
callback adds a timer for 900000, and arming the fd at the end takes 30. -/
def armedRun : List Label :=
  [.addTimer 10 ⟨false, 0⟩, .addTimer 12 ⟨true, 500000⟩, .addTimer 90 ⟨false, 0⟩,
    .addTimer 800000 ⟨false, 0⟩, .cancel 1, .cancelInLoop, .tick 200000, .handleRead, .runCallback,
    .addTimer 900000 ⟨false, 0⟩, .callbackReturns, .runCallback, .callbackReturns, .delay 30, .finish]

theorem timerFd_armed_armedRun : ∃ q, Reach State.step TimesInRange (.init 1) q ∧
    q.walk = none ∧ q.timerFd = ⟨some 700031, 200031, 200001⟩ ∧
    ∀ k v, q.timers.get? k = some v → ∃ t : Timer, v = some t ∧ InTime q 30 t.expertionTime := by
  have hrun : ∃ q, Reach State.step TimesInRange (.init 1) q ∧
      (q.walk.isNone ∧ q.timerFd = ⟨some 700031, 200031, 200001⟩) :=
    Reach.exists_of_exec armedRun _ (by decide +kernel) (by decide +kernel)
  obtain ⟨q, h, hw, hfd⟩ := hrun
  have hidle : q.walk = none := Option.isNone_iff_eq_none.mp hw
  have hall := timerFd_armed 1 (by decide) q h hidle
  rw [show q.timerFd.late = 30 by rw [hfd]; rfl] at hall
  exact ⟨q, h, hidle, hfd, hall⟩

/-- An fd that has not expired and is set for later is not in time.  The two counterexamples
below are of this kind. -/
theorem not_inTime {late when e : Int} (hfd : q.timerFd.expiry = some e) (hclock : q.clock < e)
    (he : max (when + late) (q.timerFd.armedAt + 100 * 1000) < e) : ¬ InTime q late when := by
  rintro (hr | ⟨e', he', hle⟩)
  · simp only [State.timerFdReadable, hfd, decide_eq_true_eq] at hr
    omega
  · rw [hfd] at he'
    cases he'
    omega

/-- **`timerfd_settime` comes late.**  One second ahead, and a microsecond passes between the reading of
the clock and the call: the fd is set for a microsecond after the timer. -/
theorem settime_comes_late : ∃ q, Reach State.step anyStep (.init 1700000000000000000) q ∧
    q.walk = none ∧ ∃ t : Timer, q.timers.get? t.key = some (some t) ∧ ¬ InTime q 0 t.expertionTime := by
  have hrun : ∃ q, Reach State.step anyStep (.init 1700000000000000000) q ∧
      (q.walk.isNone ∧ q.clock = 1700000000000001000 ∧
        q.timerFd = ⟨some 1700000001000001000, 1700000000000001000, 1700000000000000000⟩ ∧
        q.timers.get? (toLex (1700000001000000000, 1)) = some (some ⟨1, 1700000001000000000, false, 0⟩)) :=
    Reach.exists_of_exec [.delay 1000, .addTimer 1700000001000000000 ⟨false, 0⟩] _ (meets_any _ _)
      (by decide +kernel)
  obtain ⟨q, h, hw, hclock, hfd, ht⟩ := hrun
  refine ⟨q, h, Option.isNone_iff_eq_none.mp hw, ⟨1, 1700000001000000000, false, 0⟩, ht, ?_⟩
  refine not_inTime (e := 1700000001000001000) (by rw [hfd]) (by rw [hclock]; decide) ?_
  rw [hfd]
  decide

/-- **An interval of 285 years wraps round.**  The timer is put back for a time long before the epoch, and
the fd is set for 285 years from now. -/
theorem interval_wraps_round : ∃ q, Reach State.step anyStep (.init 1700000000000000000) q ∧
    q.walk = none ∧ ∃ t : Timer, q.timers.get? t.key = some (some t) ∧ t.expertionTime < 0 ∧
      ¬ InTime q q.timerFd.late t.expertionTime := by
  have hrun : ∃ q, Reach State.step anyStep (.init 1700000000000000000) q ∧
      (q.walk.isNone ∧ q.clock = 1700000000000100000 ∧
        q.timerFd = ⟨some 10687760000000100000, 1700000000000100000, 1700000000000100000⟩ ∧
        q.timers.get? (toLex (-7758984073709451616, 1)) =
          some (some ⟨1, -7758984073709451616, true, 8987760000000000000⟩)) :=
    Reach.exists_of_exec [.addTimer 1700000000000100000 ⟨true, 8987760000000000000⟩, .tick 100000, .handleRead,
      .runCallback, .callbackReturns, .finish] _ (meets_any _ _) (by decide +kernel)
  obtain ⟨q, h, hw, hclock, hfd, ht⟩ := hrun
  refine ⟨q, h, Option.isNone_iff_eq_none.mp hw,
    ⟨1, -7758984073709451616, true, 8987760000000000000⟩, ht, by decide, ?_⟩
  refine not_inTime (e := 10687760000000100000) (by rw [hfd]) (by rw [hclock]; decide) ?_
  rw [hfd]
  decide

end Suduo.TimerQueue
