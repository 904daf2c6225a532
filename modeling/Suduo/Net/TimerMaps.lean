/-
# When the two maps of `TimerQueue` describe the same timers

`_active_timers` loses an entry each time a callback has returned, `_timers` only at the end of
`handle_read`, in one range erase.  In between the visited nodes are empty and have no entry, and
`insert`, which asserts that the maps have the same size, fails when the SECOND callback of a batch
adds a timer.  That is one way to lose the agreement.  The other is a callback that adds a timer
expiring before its own: the range erase destroys it and its entry stays.

Both are ruled out by one condition on what callbacks add (`AddsFirst`), and without them the maps
agree: an account of the entries (`TimerKept`) says which node each entry names, and in a map with
no empty node that makes the sizes equal.
-/
import Suduo.Net.TimerKept

namespace Suduo.TimerQueue

open Lib

/-! ## 1. Agreement -/

/-- In `handle_read` only the first callback of the batch adds timers, and none that expires
before the timer it belongs to.  The second part keeps the entries from dangling, the first the
sizes equal. -/
def AddsFirst (q : State) : Label → Prop
  | .addTimer when _ => ∀ w ∈ q.walk, w.expired = [] ∧ ∀ p ∈ w.ptr, TimerID.time p ≤ when
  | _ => True

instance (q : State) : (l : Label) → Decidable (AddsFirst q l)
  | .addTimer when _ =>
    inferInstanceAs (Decidable (∀ w ∈ q.walk, w.expired = [] ∧ ∀ p ∈ w.ptr, TimerID.time p ≤ when))
  | .tick _ | .delay _ | .createdElsewhere | .cancel _ | .cancelInLoop | .handleRead | .runCallback
  | .callbackReturns | .finish => .isTrue trivial

/-- **The maps describe the same timers.** -/
structure Agree (q : State) : Prop where
  /-- The ids in `_active_timers` are the ids in the keys of `_timers`. -/
  ids : ∀ id, (∃ k, q.activeTimers.get? id = some k) ↔
    ∃ k v, q.timers.get? k = some v ∧ TimerID.id k = id
  /-- No two nodes have one id. -/
  once : ∀ j k v w, q.timers.get? j = some v → q.timers.get? k = some w →
    TimerID.id j = TimerID.id k → j = k
  /-- An entry refers to the value of the node with its id. -/
  refers : ∀ id k, q.activeTimers.get? id = some k →
    TimerID.id k = id ∧ ∃ t : Timer, q.timers.get? k = some (some t) ∧ t.id = id
  /-- A key's time is its timer's `expertion_time`. -/
  times : ∀ k v, q.timers.get? k = some v →
    ∃ t : Timer, v = some t ∧ TimerID.time k = t.expertionTime

/-- No `unique_ptr` in `_timers` has been moved out. -/
def Full (q : State) : Prop := ∀ k v, q.timers.get? k = some v → v ≠ none

variable {q q' : State} {ts : List Timer} {t : Timer}

theorem AddsFirst.ahead {l : Label} (h : AddsFirst q l) : AddsAhead q l := by
  cases l with
  | addTimer when interval => exact fun w hw p hp => (h w hw).2 p hp
  | _ => trivial

theorem Full.node (h : Full q) {k : TimerID} {v : Option Timer} (hv : q.timers.get? k = some v) :
    ∃ t, v = some t := Option.ne_none_iff_exists'.mp (h k v hv)

theorem Tracked.full (h : Tracked q) (hw : q.walk = none) : Full q := by
  intro k v hv hnone
  obtain ⟨w, hw', -⟩ := (h.null k v hv).mp hnone
  rw [hw] at hw'
  cases hw'

/-- Where no node is empty, the account makes the maps agree.  An entry names a node that holds
its timer, and a node that holds a timer has an entry. -/
theorem Kept.agree (hk : Kept q ts) (hs : Sound q) (hf : Full q) : Agree q := by
  have hid : ∀ {k : TimerID} {t : Timer}, q.timers.get? k = some (some t) → k.id = t.id := by
    intro k t ht
    rw [hs.keyed k t ht, key_id]
  refine ⟨?_, ?_, ?_, ?_⟩
  · intro id
    constructor
    · rintro ⟨k, hk'⟩
      obtain ⟨t, ht, rfl⟩ := (hk.active id k).mp hk'
      exact ⟨k, some t, ht, hid ht⟩
    · rintro ⟨k, v, hv, rfl⟩
      obtain ⟨t, rfl⟩ := hf.node hv
      rw [hid hv]
      exact hk.live hv
  · intro j k v w hj hk' hjk
    obtain ⟨t, rfl⟩ := hf.node hj
    obtain ⟨u, rfl⟩ := hf.node hk'
    rw [hid hj, hid hk'] at hjk
    -- both nodes are the one their common entry refers to
    have hentry : q.activeTimers.get? u.id = some j := (hk.active u.id j).mpr ⟨t, hj, hjk⟩
    rw [(hk.active u.id k).mpr ⟨u, hk', rfl⟩] at hentry
    exact (Option.some.inj hentry).symm
  · intro id k hk'
    obtain ⟨t, ht, rfl⟩ := (hk.active id k).mp hk'
    exact ⟨hid ht, t, ht, rfl⟩
  · intro k v hv
    obtain ⟨t, rfl⟩ := hf.node hv
    refine ⟨t, rfl, ?_⟩
    rw [hs.keyed k t hv, key_time]

/-- Maps that agree are of one size.  The keys of the one are those of the other, by their ids. -/
theorem Agree.sizes (h : Agree q) : q.timers.size = q.activeTimers.size :=
  SortedMap.size_eq_of_keys TimerID.id h.once h.ids

/-! ## 2. The assertions -/

theorem check_true {a : Assertion} {b : Bool} (h : b = true) : check a b = [] := by
  rw [check, if_pos h]

/-- A timer whose key and id are both new goes in without a failed assertion, if the maps are of
one size. -/
theorem insert_failed {b : Bool} (h : q.insert t = some (q', b))
    (hsize : q.timers.size = q.activeTimers.size) (hkey : q.timers.get? t.key = none)
    (hl : ¬ Live q t.id) : q'.failed = q.failed := by
  have hactive : q.activeTimers.get? t.id = none :=
    SortedMap.get?_eq_none.mpr fun k hk => hl ⟨k, hk⟩
  simp only [State.insert] at h
  split at h
  · rename_i entry he
    obtain rfl := insert_entry hkey he
    cases h
    simp [check, hsize, SortedMap.contains, hkey, hactive]
  · cases h

/-- `add_timer` fails no assertion then either: its timer has a new id, and no node is empty. -/
theorem addTimer_failed {when : Int} {interval : Interval} (h : q.addTimer when interval = some q')
    (hs : Sound q) (hk : Kept q ts) (hf : Full q) : q'.failed = q.failed := by
  simp only [State.addTimer, Option.bind_eq_bind, Option.bind_eq_some_iff] at h
  obtain ⟨⟨q₁, b⟩, hins, h⟩ := h
  have hnew : ∀ {k : TimerID} {v : Option Timer}, q.timers.get? k = some v → k.id ≠ q.created := by
    intro k v hv
    exact ne_of_lt (hs.fresh k v hv)
  have hfailed : q₁.failed = q.failed := by
    refine insert_failed (q := { q with created := q.created + 1, added := q.added ++ [_] }) hins
      (hk.agree hs hf).sizes ?_ ?_
    · exact SortedMap.get?_eq_none.mpr fun v hv => hnew hv rfl
    · rintro ⟨k, hk'⟩
      obtain ⟨hid, t, ht, -⟩ := (hk.agree hs hf).refers _ k hk'
      exact hnew ht hid
  cases h
  cases b with
  | true => exact hfailed
  | false => exact hfailed

/-- Each timer that `reset` puts back is asserted to be new, and is.  It was held, so neither map
has it. -/
theorem resetOne_failed {now : Int} (h : Resetting (t :: ts) q)
    (hst : State.resetOne now q t = some q') : q'.failed = q.failed := by
  simp only [State.resetOne] at hst
  split at hst
  · obtain ⟨⟨q₁, b⟩, hins, rfl⟩ := Option.map_eq_some_iff.mp hst
    have hgone : ¬ Live q (t.restart now).id := (h.kept.heldGone t (List.mem_cons_self ..)).1
    exact insert_failed hins (h.kept.agree h.sound h.full).sizes
      (h.kept.key_unused h.sound h.full hgone) hgone
  · cases hst
    rfl

theorem finish_failed {w : Walk} (h : Tracked q) (hw : q.walk = some w) (hi : w.ptr = w.iter)
    (hst : q.finish w = some q') : q'.failed = q.failed := by
  simp only [State.finish, State.reset, Option.bind_eq_bind, Option.bind_eq_some_iff] at hst
  obtain ⟨q₁, hr, hst⟩ := hst
  obtain ⟨hk, hfull⟩ := h.eraseExpired hw hi
  have hkeep : Resetting [] q₁ ∧ q₁.failed = q.failed := by
    refine foldlM_consume (f := State.resetOne w.now)
      (I := fun ts s => Resetting ts s ∧ s.failed = q.failed) ?_ w.expired (q.eraseExpired w) q₁
      ⟨?_, rfl⟩ hr
    · rintro t ts s s' ⟨hres, hf⟩ hone
      exact ⟨resetOne_resetting hres hone, (resetOne_failed hres hone).trans hf⟩
    · exact ⟨h.sound.eraseExpired w, hk, rfl, hfull, h.sound.expired w hw,
        h.canceling (by rw [hw]; rfl)⟩
  -- only the timer fd is touched after the loop
  split at hst
  · cases hst
    exact hkeep.2
  · split at hst
    · cases hst
      split
      · exact hkeep.2
      · exact hkeep.2
    · cases hst

/-- `cancel_in_loop` erases exactly one node and leaves maps of one size, which are the two
things that it asserts. -/
theorem cancelInLoop_failed {timerId : Nat} {rest : List Nat} (h : Tracked q) (hq : Tracked q') (hw' : q'.walk = none)
    (hst : { q with pendingFunctors := rest }.cancelInLoop timerId = some q') :
    q'.failed = q.failed := by
  have hsize : q'.timers.size = q'.activeTimers.size :=
    (hq.kept.agree hq.sound (hq.full hw')).sizes
  simp only [State.cancelInLoop, Option.bind_eq_bind] at hst
  split at hst
  · rename_i node hn
    split at hst
    · rename_i t ht
      obtain ⟨u, hu, rfl⟩ := (h.kept.active timerId node).mp hn
      rw [hu] at ht
      cases ht
      have hin : q.timers.contains (toLex (t.expertionTime, t.id)) = true := by
        rw [h.sound.keyed node t hu] at hu
        exact SortedMap.contains.eq_1 q.timers _ ▸ hu ▸ rfl
      cases hst
      simp only [check_true hin, List.append_nil]
      rw [check_true (decide_eq_true hsize), List.append_nil]
    · cases hst
  · cases hst
    rw [check_true (decide_eq_true hsize), List.append_nil]

/-! ## 3. Every run -/

/-- What every step keeps when timers are added first.  The account is there in every step, and
the maps agree wherever no node is empty. -/
structure Asserted (q : State) : Prop where
  tracked : Tracked q
  /-- Up to the end of the first callback no node is empty. -/
  first : ∀ w ∈ q.walk, w.expired = [] → Full q
  failed : q.failed = []

theorem asserted_init (clock : Int) : Asserted (.init clock) :=
  ⟨tracked_init clock, by simp [State.init], rfl⟩

/-- No node is empty where user code may add a timer.  The walk empties its first node when the
first callback has returned. -/
theorem Asserted.full (h : Asserted q) {when : Int} {interval : Interval}
    (hg : AddsFirst q (.addTimer when interval)) : Full q := by
  cases hw : q.walk with
  | none => exact h.tracked.full hw
  | some w => exact h.first w hw (hg w hw).1

theorem step_asserted {l : Label} (h : Asserted q) (hg : AddsFirst q l)
    (hst : q.step l = some q') : Asserted q' := by
  have ht := step_tracked h.tracked hg.ahead hst
  have hfirst : ∀ w ∈ q'.walk, w.expired = [] → Full q' := by
    cases step_inv hst with
    | tick ns | delay ns => exact h.first
    | createdElsewhere => exact h.first
    | cancel timerId => exact h.first
    | addTimer when interval t entry failed kernel hu _ he =>
      intro w hw hnil k v hv
      rcases SortedMap.get?_insert_cases hv with hv | ⟨-, rfl⟩
      · exact h.first w hw hnil k v hv
      · simp
    | cancelFound timerId rest node t failed hw => simp [hw]
    | cancelMissed timerId rest canceling failed hw => simp [hw]
    | handleRead fd hw =>
      exact fun _ _ _ => h.tracked.full hw
    | runCallback w ptr t hw =>
      rintro _ hw' hnil
      cases hw'
      exact h.first w hw hnil
    | callbackReturns w ptr t hw =>
      rintro _ hw' hnil
      cases hw'
      simp at hnil
    | finish w q₁ kernel hw hi hr =>
      have hidle := (h.tracked.finish hw hi hr).idle
      simp [hidle]
  refine ⟨ht, hfirst, ?_⟩
  rw [← h.failed]
  cases l with
  | addTimer when interval =>
    obtain ⟨-, hadd⟩ := step_addTimer hst
    exact addTimer_failed hadd h.tracked.sound h.tracked.kept (h.full hg)
  | cancelInLoop =>
    have hw' : q'.walk = none := by
      cases step_inv hst with
      | cancelFound timerId rest node t failed hw => exact hw
      | cancelMissed timerId rest canceling failed hw => exact hw
    obtain ⟨timerId, rest, -, -, hcancel⟩ := step_cancelInLoop hst
    exact cancelInLoop_failed h.tracked ht hw' hcancel
  | finish =>
    obtain ⟨w, hw, -, hi, hfin⟩ := step_finish hst
    exact finish_failed h.tracked hw hi hfin
  | tick | delay | createdElsewhere | cancel | handleRead | runCallback | callbackReturns =>
    cases step_inv hst
    rfl

/-- **The two maps describe the same timers, while only the first callback of a batch adds any.**
In every run of the queue in which a timer is added outside `handle_read`, or by the first callback
`handle_read` runs and not to expire before that callback's own timer, no assertion ever fails:
`insert` and `cancel_in_loop` always find maps of one size, every inserted timer is new, and
`cancel_in_loop` erases exactly one.  In every state outside `handle_read` the maps agree. -/
theorem maps_agree (clock : Int) (q : State) (h : Reach State.step AddsFirst (.init clock) q) :
    q.failed = [] ∧ (q.walk = none → Agree q) := by
  have ha : Asserted q :=
    h.invariant (asserted_init clock) fun _ _ _ hi hg hst => step_asserted hi hg hst
  exact ⟨ha.failed, fun hw => ha.tracked.kept.agree ha.tracked.sound (ha.tracked.full hw)⟩

/-- A one-shot at 10 and a repeating timer at 12.  At 20 the first callback adds a timer for 15,
which runs in the same walk, and cancels the repeating timer; the cancel finds it put back. -/
def firstAdds : List Label :=
  [.addTimer 10 ⟨false, 0⟩, .addTimer 12 ⟨true, 5⟩, .tick 20, .handleRead, .runCallback,
    .addTimer 15 ⟨false, 0⟩, .cancel 2, .callbackReturns, .runCallback, .callbackReturns,
    .runCallback, .callbackReturns, .finish, .addTimer 90 ⟨false, 0⟩, .cancelInLoop]

theorem maps_agree_firstAdds : ∃ q, Reach State.step AddsFirst (.init 0) q ∧
    q.walk = none ∧ q.removed = [2] ∧ q.failed = [] ∧ Agree q := by
  have hrun : ∃ q, Reach State.step AddsFirst (.init 0) q ∧ (q.walk.isNone ∧ q.removed = [2]) :=
    Reach.exists_of_exec firstAdds _ (by decide +kernel) (by decide +kernel)
  obtain ⟨q, h, hw, hr⟩ := hrun
  have hidle : q.walk = none := Option.isNone_iff_eq_none.mp hw
  have hmaps := maps_agree 0 q h
  exact ⟨q, h, hidle, hr, hmaps.1, hmaps.2 hidle⟩

/-- **The second callback of a batch adds a timer.**  Two one-shots are due at 20; when the second
callback runs, `_active_timers` has already lost the first timer and `_timers` has not. -/
theorem second_callback_adds : ∃ q, Reach State.step anyStep (.init 0) q ∧
    Assertion.sizesAtInsert ∈ q.failed :=
  Reach.exists_of_exec [.addTimer 10 ⟨false, 0⟩, .addTimer 12 ⟨false, 0⟩, .tick 20, .handleRead,
    .runCallback, .callbackReturns, .runCallback, .addTimer 90 ⟨false, 0⟩] _ (meets_any _ _)
    (by decide +kernel)

end Suduo.TimerQueue
