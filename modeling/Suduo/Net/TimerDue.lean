/-
# Which timers a `handle_read` may run

`handle_read` takes `iter`, the first timer after `now`, BEFORE it runs any callback, and then runs
every node in front of it.  A node that a callback inserts behind the due timers but in front of
`iter` is run as well, although its time has not come; and where no timer was left after `now`,
`iter` is `end()` and every insertion lands in front of it.

So a timer is never run early exactly as long as the callbacks insert nothing into that gap: every
timer they add is due already, or expires no earlier than some pending timer that is not.  The gap
is then empty of undue timers in every state of the walk (`Due.walk`), and what is run is due.
-/
import Suduo.Net.TimerQueue

namespace Suduo.TimerQueue

open Lib

/-! ## 1. The gap in front of `iter` -/

/-- A callback that adds a timer for later does so behind a pending timer that is not due.  It is
a condition on the map at the time of the call, which a callback that is given no access to the
map cannot test. -/
def AddsBehindIter (q : State) : Label → Prop
  | .addTimer when _ => ∀ w ∈ q.walk,
      when ≤ w.now ∨ ∃ e ∈ q.timers.entries, w.now < e.1.time ∧ e.1.time ≤ when
  | _ => True

instance (q : State) : (l : Label) → Decidable (AddsBehindIter q l)
  | .addTimer when _ => inferInstanceAs (Decidable (∀ w ∈ q.walk,
      when ≤ w.now ∨ ∃ e ∈ q.timers.entries, w.now < e.1.time ∧ e.1.time ≤ when))
  | .tick _ | .delay _ | .createdElsewhere | .cancel _ | .cancelInLoop | .handleRead | .runCallback
  | .callbackReturns | .finish => .isTrue trivial

/-- Everything in front of `iter` is due, and so is everything run so far.  The second follows
from the first each time a callback is called, and the first is what callbacks can break. -/
structure Due (q : State) : Prop where
  sound : Sound q
  walk : ∀ w, q.walk = some w → ∀ k v, q.timers.get? k = some v →
    SortedMap.Before k w.iter → k.time ≤ w.now
  fired : ∀ f ∈ q.fired, f.timer.expertionTime ≤ f.now

theorem due_init (clock : Int) : Due (.init clock) :=
  ⟨sound_init clock, by simp [State.init], by simp [State.init]⟩

/-- What `lower_bound` leaves in front of it is due.  It is asked for the largest id, so nothing
that expires at `now` is left behind. -/
theorem due_of_before_lowerBound {q : State} {now : Int} {k : TimerID} {v : Option Timer}
    (hk : q.timers.get? k = some v)
    (hb : SortedMap.Before k (q.timers.lowerBound (toLex (now, 2 ^ 64 - 1)))) : k.time ≤ now := by
  have hlt : k < toLex (now, 2 ^ 64 - 1) := by
    cases hl : q.timers.lowerBound (toLex (now, 2 ^ 64 - 1)) with
    | none => exact SortedMap.lowerBound_eq_none.mp hl k v hk
    | some i =>
      rw [hl] at hb
      by_contra hge
      exact absurd ((SortedMap.lowerBound_eq_some.mp hl).2.2 k v hk (not_lt.mp hge))
        (not_le_of_gt hb)
  rcases TimerID.lt_iff.mp hlt with h | h
  · exact le_of_lt h
  · exact le_of_eq h.1

/-- **The gap stays empty**: a timer added behind a pending timer that is not due lands behind
`iter`.  `iter` is the first that was not due, so the pending timer is at `iter` or behind it. -/
theorem Due.not_before {q : State} (hd : Due q) {w : Walk} (hw : q.walk = some w) {k t : TimerID}
    {v : Option Timer} (hk : q.timers.get? k = some v) (hnow : w.now < k.time)
    (hle : k.time ≤ t.time) (hid : k.id < t.id) : ¬ SortedMap.Before t w.iter := by
  intro hb
  have hkt : k < t := by
    rcases lt_or_eq_of_le hle with h | h
    · exact TimerID.lt_iff.mpr (.inl h)
    · exact TimerID.lt_iff.mpr (.inr ⟨h, hid⟩)
  -- then `k` would be in front of `iter` too, and not due
  have hkb : SortedMap.Before k w.iter := by
    cases hi : w.iter with
    | none => trivial
    | some i =>
      rw [hi] at hb
      exact lt_trans hkt hb
  exact absurd (hd.walk w hw k v hk hkb) (not_le_of_gt hnow)

/-- Every step that meets the guard keeps the gap empty and runs what is due. -/
theorem step_due {q q' : State} {l : Label} (hd : Due q) (hg : AddsBehindIter q l)
    (h : q.step l = some q') : Due q' := by
  refine ⟨step_sound hd.sound h, ?_, ?_⟩
  · cases step_inv h with
    | tick ns | delay ns => exact hd.walk
    | createdElsewhere => exact hd.walk
    | addTimer when interval t entry failed kernel hu ht he =>
      intro w hw k v hk hb
      rcases SortedMap.get?_insert_cases hk with hk | ⟨rfl, -⟩
      · exact hd.walk w hw k v hk hb
      · subst ht
        rcases hg w hw with hle | ⟨e, he, hnow, hle⟩
        · exact hle
        · have hmem := SortedMap.get?_eq_some.mpr he
          exact absurd hb (hd.not_before hw hmem hnow hle (hd.sound.fresh e.1 e.2 hmem))
    | cancel timerId => exact hd.walk
    | cancelFound timerId rest node t failed hw hn ht => simp [hw]
    | cancelMissed timerId rest canceling failed hw hn => exact hd.walk
    | handleRead fd hw =>
      intro w hw' k v hk hb
      cases hw'
      exact due_of_before_lowerBound hk hb
    | runCallback w ptr t hw hr hi hp ht =>
      intro _ hw' k v hk hb
      cases hw'
      exact hd.walk w hw k v hk hb
    | callbackReturns w ptr t hw hr hp ht =>
      intro _ hw' k v hk hb
      cases hw'
      rcases SortedMap.get?_set_cases hk with ⟨rfl, -⟩ | ⟨-, hk⟩
      · exact hd.walk w hw k _ ht hb
      · exact hd.walk w hw k v hk hb
    | finish w q₁ kernel hw hi hr =>
      intro w' hw'
      have hnone := (finish_sound hd.sound hw hr).2.1
      rw [hnone] at hw'
      cases hw'
  · cases step_inv h with
    | runCallback w ptr t hw hr hi hp ht =>
      intro f hf
      rcases List.mem_append.mp hf with hf | hf
      · exact hd.fired f hf
      · rw [List.mem_singleton.mp hf]
        have hkey := hd.sound.keyed ptr t ht
        have hdue := hd.walk w hw ptr _ ht (hd.sound.ptr_before hw hp hi)
        rwa [hkey, key_time] at hdue
    | finish w q₁ kernel hw hi hr =>
      have hfired := (finish_sound hd.sound hw hr).2.2
      intro f hf
      rw [hfired] at hf
      exact hd.fired f hf
    | _ => exact hd.fired

/-! ## 2. No timer fires early -/

/-- **No timer fires early, if no callback adds one into the gap.**  In every run of the queue in
which each timer a callback adds is due at the `now` of its `handle_read`, or expires no earlier
than some pending timer that is not, every callback that was run belongs to a timer whose
`expertion_time` is at most the `now` sampled by the `handle_read` that ran it. -/
theorem fires_due (clock : Int) (q : State)
    (h : Reach State.step AddsBehindIter (.init clock) q) :
    ∀ f ∈ q.fired, f.timer.expertionTime ≤ f.now := by
  have hd : Due q := h.invariant (due_init clock) fun _ _ _ hi hg hst => step_due hi hg hst
  exact hd.fired

/-- A one-shot timer's interval. -/
def once : Interval := ⟨false, 0⟩

/-- Two timers at 10 and one at 50; at 20 the first callback adds one that is due and one for 60. -/
def behindIter : List Label :=
  [.addTimer 10 once, .addTimer 10 once, .addTimer 50 once, .tick 20, .handleRead, .runCallback,
    .addTimer 15 once, .addTimer 60 once, .callbackReturns, .runCallback, .callbackReturns,
    .runCallback, .callbackReturns, .finish]

theorem fires_due_behindIter : ∃ q, Reach State.step AddsBehindIter (.init 0) q ∧
    q.fired.map (fun f => (f.timer.id, f.now)) = [(1, 20), (2, 20), (4, 20)] ∧
    ∀ f ∈ q.fired, f.timer.expertionTime ≤ f.now := by
  have h : Reach State.step AddsBehindIter (.init 0) _ :=
    Reach.of_exec behindIter (State.init 0) (by decide +kernel) rfl
  exact ⟨_, h, by decide +kernel, fires_due 0 _ h⟩

/-- **A timer 900 ns away is run at once.**  The only timer is due, so `iter` is `end()`; its
callback adds a timer for 1000, and the same `handle_read`, whose `now` is 10, runs it. -/
theorem callback_adds_before_end : ∃ q, Reach State.step anyStep (.init 0) q ∧
    ∃ f ∈ q.fired, f.now < f.timer.expertionTime :=
  ⟨_, Reach.of_exec_any [.addTimer 10 once, .tick 10, .handleRead, .runCallback,
      .addTimer 1000 once, .callbackReturns, .runCallback] rfl, by decide +kernel⟩

end Suduo.TimerQueue
