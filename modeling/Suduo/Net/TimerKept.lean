/-
# Where every timer is

The end of `handle_read` erases everything from `begin()` to `iter`.  That is right for the nodes
the walk has visited, which are empty; a node that a callback inserts IN FRONT of the one being
visited is never visited, and is erased with its timer in it.  Callbacks that add no timer expiring
before their own keep the walk's picture exact (`Kept.null`): empty nodes up to `ptr`, live timers
from `ptr` on.

Then nothing is lost.  `Kept` is an account of every timer ever added: a one-shot is pending, run
once, or cancelled; a repeating timer is pending, held in `expired` until `reset` puts it back, or
cancelled.  Outside `handle_read` nothing is held in `expired`.
-/
import Suduo.Net.TimerQueue
import Mathlib.Data.List.Nodup

namespace Suduo.TimerQueue

open Lib

/-! ## 1. The account -/

/-- A callback adds no timer that expires before the timer it belongs to.  Such a timer would go
in front of `ptr`, where the walk does not come any more and the range erase does. -/
def AddsAhead (q : State) : Label → Prop
  | .addTimer when _ => ∀ w ∈ q.walk, ∀ p ∈ w.ptr, TimerID.time p ≤ when
  | _ => True

instance (q : State) : (l : Label) → Decidable (AddsAhead q l)
  | .addTimer when _ =>
    inferInstanceAs (Decidable (∀ w ∈ q.walk, ∀ p ∈ w.ptr, TimerID.time p ≤ when))
  | .tick _ | .delay _ | .createdElsewhere | .cancel _ | .cancelInLoop | .handleRead | .runCallback
  | .callbackReturns | .finish => .isTrue trivial

/-- The timer added as `a` is pending in `_timers` under its time and id.  Its time may be
another than when it was added, if it repeats. -/
def Pending (q : State) (a : Timer) : Prop :=
  ∃ t : Timer, t = { a with expertionTime := t.expertionTime } ∧
    q.timers.get? (toLex (t.expertionTime, t.id)) = some (some t)

/-- How often the callback of timer `id` has been run. -/
def runs (q : State) (id : Nat) : Nat := q.fired.countP fun f => f.timer.id = id

/-- `id` has an entry in `_active_timers`. -/
def Live (q : State) (id : Nat) : Prop := ∃ k, q.activeTimers.get? id = some k

/-- The callback of timer `id` is being run. -/
def Current (q : State) (id : Nat) : Prop :=
  ∃ w ∈ q.walk, w.running = true ∧ ∃ p ∈ w.ptr, TimerID.id p = id

/-- Where a one-shot timer can be. -/
inductive OneShotFate (removed live current : Prop) (runs : Nat) : Prop
  | pending (hr : ¬ removed) (hl : live) (hc : ¬ current) (hn : runs = 0)
  | current (hr : ¬ removed) (hl : live) (hc : current) (hn : runs = 1)
  | ran (hr : ¬ removed) (hl : ¬ live) (hn : runs = 1)
  | cancelled (hr : removed) (hl : ¬ live) (hn : runs = 0)

/-- Where a repeating timer can be; `held` says that `reset` has still to look at it.  It has
been removed, or it is in the map, or it is held. -/
inductive RepeatedFate (removed live held : Prop) : Prop
  | pending (hr : ¬ removed) (hl : live)
  | held (hr : ¬ removed) (hh : held)
  | cancelled (hr : removed) (hl : ¬ live)

/-- `t` is a timer of the queue, perhaps restarted. -/
def Known (q : State) (t : Timer) : Prop :=
  ∃ a ∈ q.added, t = { a with expertionTime := t.expertionTime }

/-- **The account**, with `held` the expired timers not yet put back or dropped.  For every timer
that was ever added it says where that timer is, and for every timer in the map or in `expired`
that it was added. -/
structure Kept (q : State) (held : List Timer) : Prop where
  /-- `_active_timers` points at the node of each timer in the map. -/
  active : ∀ id k, q.activeTimers.get? id = some k ↔
    ∃ t : Timer, q.timers.get? k = some (some t) ∧ t.id = id
  known : ∀ k t, q.timers.get? k = some (some t) → Known q t
  knownHeld : ∀ t ∈ held, Known q t
  heldIds : (held.map Timer.id).Nodup
  heldGone : ∀ t ∈ held, ¬ Live q t.id ∧ t.id ∉ q.removed
  addedIds : (q.added.map Timer.id).Nodup
  addedOld : ∀ a ∈ q.added, a.id < q.created
  removedOld : ∀ id ∈ q.removed, id < q.created
  firedOld : ∀ f ∈ q.fired, f.timer.id < q.created
  oneShot : ∀ a ∈ q.added, a.repeated = false →
    OneShotFate (a.id ∈ q.removed) (Live q a.id) (Current q a.id) (runs q a.id)
  repeated : ∀ a ∈ q.added, a.repeated = true →
    RepeatedFate (a.id ∈ q.removed) (Live q a.id) (∃ t ∈ held, t.id = a.id)

/-- The nodes in front of `ptr` are the visited, empty ones; outside a walk no node is empty.  So
the range erase, which goes by place, takes exactly what is empty. -/
def NullBeforePtr (q : State) : Prop :=
  ∀ k v, q.timers.get? k = some v →
    (v = none ↔ ∃ w ∈ q.walk, SortedMap.Before k w.ptr)

/-- The timers `handle_read` holds in its local `expired`. -/
def held (q : State) : List Timer :=
  match q.walk with
  | some w => w.expired
  | none => []

/-- What every step keeps. -/
structure Tracked (q : State) : Prop where
  sound : Sound q
  kept : Kept q (held q)
  null : NullBeforePtr q
  canceling : q.walk.isSome → q.cancelingTimers = []

/-! ## 2. Lemmas about the account -/

/-- A timer whose callback is running neither before nor after a step keeps its fate. -/
theorem OneShotFate.idle {removed live current current' : Prop} {n : Nat}
    (h : OneShotFate removed live current n) (hc : ¬ current) (hc' : ¬ current') :
    OneShotFate removed live current' n := by
  cases h with
  | pending hr hl _ hn => exact .pending hr hl hc' hn
  | current _ _ hcur _ => exact absurd hcur hc
  | ran hr hl hn => exact .ran hr hl hn
  | cancelled hr hl hn => exact .cancelled hr hl hn

/-- A repeating timer keeps its fate while it is held on. -/
theorem RepeatedFate.mono {removed live held held' : Prop} (h : RepeatedFate removed live held)
    (hh : held → held') : RepeatedFate removed live held' := by
  cases h with
  | pending hr hl => exact .pending hr hl
  | held hr hheld => exact .held hr (hh hheld)
  | cancelled hr hl => exact .cancelled hr hl

variable {q q' : State} {ts : List Timer} {t : Timer}

theorem Kept.live (hk : Kept q ts) {k : TimerID} (h : q.timers.get? k = some (some t)) :
    Live q t.id := ⟨k, (hk.active t.id k).mpr ⟨t, h, rfl⟩⟩

theorem Kept.not_removed (hk : Kept q ts) {k : TimerID} (h : q.timers.get? k = some (some t)) :
    t.id ∉ q.removed := by
  obtain ⟨a, ha, hta⟩ := hk.known k t h
  have hid : t.id = a.id := by rw [hta]
  have hl : Live q a.id := hid ▸ hk.live h
  rw [hid]
  cases hrep : a.repeated with
  | false =>
    cases hk.oneShot a ha hrep with
    | pending hr _ _ _ | current hr _ _ _ | ran hr _ _ => exact hr
    | cancelled _ hl' _ => exact absurd hl hl'
  | true =>
    cases hk.repeated a ha hrep with
    | pending hr _ | held hr _ => exact hr
    | cancelled _ hl' => exact absurd hl hl'

/-- Two timers added under one id are one. -/
theorem Kept.added_eq (hk : Kept q ts) {a b : Timer} (ha : a ∈ q.added) (hb : b ∈ q.added)
    (h : a.id = b.id) : a = b :=
  List.inj_on_of_nodup_map hk.addedIds ha hb h

/-- A held timer repeats as it did when it was added. -/
theorem Kept.held_repeated (hk : Kept q ts) (ht : t ∈ ts) {a : Timer} (ha : a ∈ q.added)
    (hid : t.id = a.id) : t.repeated = a.repeated := by
  obtain ⟨b, hb, htb⟩ := hk.knownHeld t ht
  have hba : b = a := hk.added_eq hb ha (by rw [← hid, htb])
  rw [htb, hba]

theorem Kept.key_unused (hk : Kept q ts) (hs : Sound q)
    (hnull : ∀ k v, q.timers.get? k = some v → v ≠ none) (hl : ¬ Live q t.id) :
    q.timers.get? t.key = none := by
  refine SortedMap.get?_eq_none.mpr fun v hv => ?_
  cases v with
  | none => exact hnull _ _ hv rfl
  | some u =>
    have hid : u.id = t.id := by rw [← key_id u, ← hs.keyed _ u hv, key_id]
    exact hl (hid ▸ hk.live hv)

/-- Taking the timer out of its node and its entry out of `_active_timers` agree: what is left of
the one map is what is left of the other. -/
theorem Kept.active_remove (hk : Kept q ts) {node : TimerID}
    (hn : q.timers.get? node = some (some t)) (id : Nat) (k : TimerID) :
    (id ≠ t.id ∧ q.activeTimers.get? id = some k) ↔
      ∃ u : Timer, (k ≠ node ∧ q.timers.get? k = some (some u)) ∧ u.id = id := by
  constructor
  · rintro ⟨hne, ha⟩
    obtain ⟨u, hu, rfl⟩ := (hk.active id k).mp ha
    refine ⟨u, ⟨?_, hu⟩, rfl⟩
    rintro rfl
    rw [hn] at hu
    cases hu
    exact hne rfl
  · rintro ⟨u, ⟨hne, hu⟩, rfl⟩
    have ha : q.activeTimers.get? u.id = some k := (hk.active u.id k).mpr ⟨u, hu, rfl⟩
    refine ⟨?_, ha⟩
    intro hid
    have hnode : q.activeTimers.get? u.id = some node :=
      (hk.active u.id node).mpr ⟨t, hn, hid.symm⟩
    rw [ha] at hnode
    exact hne (Option.some.inj hnode)

/-- Putting a timer into a new node and its id into `_active_timers` agree, if the timer was in
neither. -/
theorem Kept.active_insert (hk : Kept q ts) (hkey : q.timers.get? t.key = none)
    (hl : ¬ Live q t.id) (id : Nat) (k : TimerID) :
    (q.activeTimers.insert t.id t.key).get? id = some k ↔
      ∃ u : Timer, (q.timers.insert t.key (some t)).get? k = some (some u) ∧ u.id = id := by
  have hnone : q.activeTimers.get? t.id = none :=
    SortedMap.get?_eq_none.mpr fun k hk => hl ⟨k, hk⟩
  rw [SortedMap.get?_insert hnone]
  simp only [SortedMap.get?_insert hkey]
  constructor
  · intro h
    split at h
    · rename_i hid
      cases h
      exact ⟨t, by rw [if_pos rfl], hid.symm⟩
    · obtain ⟨u, hu, rfl⟩ := (hk.active id k).mp h
      refine ⟨u, ?_, rfl⟩
      have hne : k ≠ t.key := by
        rintro rfl
        rw [hkey] at hu
        cases hu
      rw [if_neg hne, hu]
  · rintro ⟨u, hu, rfl⟩
    split at hu
    · rename_i hkt
      cases hu
      rw [if_pos rfl, hkt]
    · have hne : u.id ≠ t.id := by
        intro hid
        exact hl (hid ▸ hk.live hu)
      rw [if_neg hne]
      exact (hk.active u.id k).mpr ⟨u, hu, rfl⟩

theorem live_insert (hl : ¬ Live q t.id) (id : Nat) :
    (∃ k, (q.activeTimers.insert t.id t.key).get? id = some k) ↔ id = t.id ∨ Live q id := by
  have hnone : q.activeTimers.get? t.id = none :=
    SortedMap.get?_eq_none.mpr fun k hk => hl ⟨k, hk⟩
  rw [SortedMap.get?_insert hnone]
  by_cases hid : id = t.id
  · simp [hid]
  · simp [hid, Live]

theorem live_erase {id id' : Nat} :
    (∃ k, (q.activeTimers.erase id').get? id = some k) ↔ id ≠ id' ∧ Live q id := by
  rw [SortedMap.get?_erase]
  by_cases hid : id = id'
  · simp [hid]
  · simp [hid, Live]

/-- A timer that is in its node is found there again after `insert`. -/
theorem insert_entry {entry : Timer} (hkey : q.timers.get? t.key = none)
    (he : (q.timers.insert t.key (some t)).get? t.key = some (some entry)) : entry = t := by
  rw [SortedMap.get?_insert hkey, if_pos rfl] at he
  cases he
  rfl

theorem held_idle (hw : q.walk = none) : held q = [] := by rw [held, hw]

theorem held_walk {w : Walk} (hw : q.walk = some w) : held q = w.expired := by rw [held, hw]

theorem not_current_of_idle (hw : q.walk = none) (id : Nat) : ¬ Current q id := by
  rintro ⟨w, hw', -⟩
  rw [hw] at hw'
  cases hw'

theorem current_iff {w : Walk} (hw : q.walk = some w) {p : TimerID} (hp : w.ptr = some p)
    (id : Nat) : Current q id ↔ w.running = true ∧ p.id = id := by
  constructor
  · rintro ⟨w', hw', hr, p', hp', hid⟩
    rw [hw] at hw'
    cases hw'
    rw [hp] at hp'
    cases hp'
    exact ⟨hr, hid⟩
  · rintro ⟨hr, hid⟩
    exact ⟨w, hw, hr, p, hp, hid⟩

/-! ## 3. The steps -/

theorem tracked_init (clock : Int) : Tracked (.init clock) := by
  refine ⟨sound_init clock, ⟨?_, ?_, ?_, ?_, ?_, ?_, ?_, ?_, ?_, ?_, ?_⟩, ?_, ?_⟩
  all_goals simp [State.init, held, NullBeforePtr]

/-- A new timer joins the account as pending.  It has an id that nobody has had, so the accounts
of all others stand. -/
theorem Kept.join (hk : Kept q ts) (hs : Sound q) (ht : t.id = q.created)
    (hkey : q.timers.get? t.key = none) (hl : ¬ Live q t.id) (kernel : Kernel) (failed : List Assertion) :
    Kept { q with created := q.created + 1, added := q.added ++ [t], toKernel := kernel,
                  timers := q.timers.insert t.key (some t),
                  activeTimers := q.activeTimers.insert t.id t.key, failed := failed } ts := by
  have hold : ∀ {id : Nat}, id < q.created → id ≠ t.id := fun hid => by omega
  have hother : ∀ {id : Nat}, id < q.created →
      ((∃ k, (q.activeTimers.insert t.id t.key).get? id = some k) ↔ Live q id) :=
    fun hid => (live_insert hl _).trans (or_iff_right (hold hid))
  refine ⟨hk.active_insert hkey hl, ?_, ?_, hk.heldIds, ?_, ?_, ?_, ?_, ?_, ?_, ?_⟩
  · intro k u hu
    rcases SortedMap.get?_insert_cases hu with hu | ⟨-, heq⟩
    · obtain ⟨a, ha, hua⟩ := hk.known k u hu
      exact ⟨a, List.mem_append_left _ ha, hua⟩
    · cases heq
      exact ⟨t, by simp, rfl⟩
  · intro u hu
    obtain ⟨a, ha, hua⟩ := hk.knownHeld u hu
    exact ⟨a, List.mem_append_left _ ha, hua⟩
  · intro u hu
    obtain ⟨a, ha, hua⟩ := hk.knownHeld u hu
    have hid : u.id < q.created := by
      rw [hua]
      exact hk.addedOld a ha
    exact ⟨fun hlive => (hk.heldGone u hu).1 ((hother hid).mp hlive), (hk.heldGone u hu).2⟩
  · rw [List.map_append, List.nodup_append]
    refine ⟨hk.addedIds, by simp, ?_⟩
    rintro _ hx _ hy rfl
    obtain ⟨a, ha, rfl⟩ := List.mem_map.mp hx
    simp only [List.map_cons, List.map_nil, List.mem_singleton] at hy
    exact hold (hk.addedOld a ha) hy
  · intro a ha
    change a.id < q.created + 1
    rcases List.mem_append.mp ha with ha | ha
    · exact Nat.lt_succ_of_lt (hk.addedOld a ha)
    · rw [List.mem_singleton.mp ha, ht]
      exact Nat.lt_succ_self _
  · exact fun id hid => Nat.lt_succ_of_lt (hk.removedOld id hid)
  · exact fun f hf => Nat.lt_succ_of_lt (hk.firedOld f hf)
  · intro a ha hrep
    rcases List.mem_append.mp ha with ha | ha
    · have hfate := hk.oneShot a ha hrep
      rw [← hother (hk.addedOld a ha)] at hfate
      exact hfate
    · rw [List.mem_singleton.mp ha]
      refine .pending ?_ ((live_insert hl _).mpr (.inl rfl)) ?_ ?_
      · exact fun hr => hold (hk.removedOld _ hr) rfl
      · rintro ⟨w, hw, -, p, hp, hid⟩
        obtain ⟨v, hv⟩ := hs.ptr w p hw hp
        exact hold (hs.fresh p v hv) hid
      · refine List.countP_eq_zero.mpr fun f hf => ?_
        simpa using hold (hk.firedOld f hf)
  · intro a ha hrep
    rcases List.mem_append.mp ha with ha | ha
    · have hfate := hk.repeated a ha hrep
      rw [← hother (hk.addedOld a ha)] at hfate
      exact hfate
    · rw [List.mem_singleton.mp ha]
      exact .pending (fun hr => hold (hk.removedOld _ hr) rfl) ((live_insert hl _).mpr (.inl rfl))

/-- A timer that is added ahead lands behind the one whose callback is running, or at the same
time with a larger id. -/
theorem Sound.not_before_ptr (hs : Sound q) (hu : q.userCode = true) {when : Int} {interval : Interval}
    (hg : AddsAhead q (.addTimer when interval)) (ht : t.id = q.created)
    (htime : t.expertionTime = when) : ¬ ∃ w ∈ q.walk, SortedMap.Before t.key w.ptr := by
  rintro ⟨w, hw, hb⟩
  have hrun : w.running = true := by
    rw [State.userCode] at hu
    rw [show q.walk = some w from hw] at hu
    exact hu
  cases hp : w.ptr with
  | none =>
    cases hi : w.iter with
    | none => exact absurd (hp.trans hi.symm) (hs.running w hw hrun)
    | some i =>
      obtain ⟨-, p, hp', -⟩ := hs.iter w i hw hi
      rw [hp] at hp'
      cases hp'
  | some p =>
    rw [hp] at hb
    obtain ⟨v, hv⟩ := hs.ptr w p hw hp
    have hlt := hs.fresh p v hv
    have hge := hg w hw p hp
    rcases TimerID.lt_iff.mp hb with hlt' | ⟨-, hlt'⟩
    · rw [key_time, htime] at hlt'
      exact absurd hge (not_le_of_gt hlt')
    · rw [key_id, ht] at hlt'
      exact absurd hlt (not_lt_of_gt hlt')

theorem Tracked.addTimer (h : Tracked q) {when : Int} {interval : Interval}
    (hu : q.userCode = true) (hg : AddsAhead q (.addTimer when interval))
    (hst : q.step (.addTimer when interval) = some q') (ht : t.id = q.created)
    (htime : t.expertionTime = when) {failed : List Assertion} {kernel : Kernel} {entry : Timer}
    (he : (q.timers.insert t.key (some t)).get? t.key = some (some entry))
    (hq : q' = { q with created := q.created + 1, added := q.added ++ [t], toKernel := kernel,
                        timers := q.timers.insert t.key (some t),
                        activeTimers := q.activeTimers.insert entry.id t.key,
                        failed := failed }) : Tracked q' := by
  have hk := h.kept
  have hkey : q.timers.get? t.key = none := h.sound.new_key (by rw [key_id, ht])
  have hl : ¬ Live q t.id := by
    rintro ⟨k, hk'⟩
    obtain ⟨u, hu, hid⟩ := (hk.active t.id k).mp hk'
    have hlt := h.sound.fresh k _ hu
    rw [h.sound.keyed k u hu, key_id, hid, ht] at hlt
    exact absurd hlt (lt_irrefl _)
  obtain rfl := insert_entry hkey he
  refine ⟨step_sound h.sound hst, ?_, ?_, ?_⟩
  all_goals subst hq
  · exact hk.join h.sound ht hkey hl kernel failed
  · intro k v hv
    rcases SortedMap.get?_insert_cases hv with hv | ⟨rfl, rfl⟩
    · exact h.null k v hv
    · exact ⟨by simp, fun hb => absurd hb (h.sound.not_before_ptr hu hg ht htime)⟩
  · exact h.canceling

/-- `cancel_in_loop` takes one timer out, and puts it down as cancelled.  Outside `handle_read`
nothing is held, so it cannot come back. -/
theorem Kept.cancelFound (hk : Kept q []) (hs : Sound q) (hw : q.walk = none) {node : TimerID}
    (hn : q.timers.get? node = some (some t)) (rest : List Nat) (failed : List Assertion) :
    Kept { q with pendingFunctors := rest, failed := failed, timers := q.timers.erase node,
                  activeTimers := q.activeTimers.erase t.id,
                  removed := q.removed ++ [t.id] } [] := by
  have hlive := hk.live hn
  have hidle := not_current_of_idle hw
  -- another timer's fate does not see the change
  have hother : ∀ {id : Nat}, id ≠ t.id →
      ((∃ k, (q.activeTimers.erase t.id).get? id = some k) ↔ Live q id) ∧
        (id ∈ q.removed ++ [t.id] ↔ id ∈ q.removed) := by
    intro id hne
    exact ⟨live_erase.trans (and_iff_right hne), by simp [hne]⟩
  have hgone : ¬ ∃ k, (q.activeTimers.erase t.id).get? t.id = some k := by
    rw [live_erase]
    exact fun hh => hh.1 rfl
  refine ⟨?_, ?_, by simp, by simp, by simp, hk.addedIds, hk.addedOld, ?_, hk.firedOld, ?_, ?_⟩
  · intro id k
    have hiff := hk.active_remove hn id k
    simp only [SortedMap.get?_erase]
    by_cases hid : id = t.id <;> by_cases hkn : k = node <;> simp_all
  · intro k u hu
    exact hk.known k u (SortedMap.get?_of_get?_erase hu)
  · intro id hid
    rcases List.mem_append.mp hid with hid | hid
    · exact hk.removedOld id hid
    · rw [List.mem_singleton.mp hid, ← key_id, ← hs.keyed node t hn]
      exact hs.fresh node _ hn
  · intro a ha hrep
    have hfate := hk.oneShot a ha hrep
    by_cases hid : a.id = t.id
    · rw [hid] at hfate ⊢
      cases hfate with
      | pending hr _ _ hn => exact .cancelled (by simp) hgone hn
      | current _ _ hc _ => exact absurd hc (hidle _)
      | ran _ hl _ | cancelled _ hl _ => exact absurd hlive hl
    · rw [← (hother hid).1, ← (hother hid).2] at hfate
      exact hfate
  · intro a ha hrep
    have hfate := hk.repeated a ha hrep
    by_cases hid : a.id = t.id
    · rw [hid]
      exact .cancelled (by simp) hgone
    · rw [← (hother hid).1, ← (hother hid).2] at hfate
      exact hfate

/-- The callback is called: a one-shot timer's count goes from none to one.  It was pending, and
what is pending has not been run. -/
theorem Kept.runCallback (hk : Kept q ts) (hs : Sound q) {w : Walk} {ptr : TimerID}
    (hw : q.walk = some w) (hr : w.running = false) (hp : w.ptr = some ptr)
    (ht : q.timers.get? ptr = some (some t)) :
    Kept { q with walk := some { w with running := true },
                  fired := q.fired ++ [⟨t, w.now⟩] } ts := by
  have hid : ptr.id = t.id := by rw [hs.keyed ptr t ht, key_id]
  have hlive := hk.live ht
  have hidle : ∀ id, ¬ Current q id := by
    intro id hc
    rw [current_iff hw hp, hr] at hc
    cases hc.1
  refine ⟨hk.active, hk.known, hk.knownHeld, hk.heldIds, hk.heldGone, hk.addedIds, hk.addedOld,
    hk.removedOld, ?_, ?_, hk.repeated⟩
  · intro f hf
    rcases List.mem_append.mp hf with hf | hf
    · exact hk.firedOld f hf
    · rw [List.mem_singleton.mp hf, ← hid]
      exact hs.fresh ptr _ ht
  · intro a ha hrep
    have hfate := hk.oneShot a ha hrep
    have hcur := current_iff (q := { q with walk := some { w with running := true },
                                            fired := q.fired ++ [⟨t, w.now⟩] }) rfl hp a.id
    have hruns : runs { q with walk := some { w with running := true },
                               fired := q.fired ++ [⟨t, w.now⟩] } a.id =
        runs q a.id + if t.id = a.id then 1 else 0 := by
      simp [runs, List.countP_append, List.countP_singleton]
    rw [hcur, hruns]
    by_cases heq : t.id = a.id
    · rw [if_pos heq]
      rw [← heq] at hfate ⊢
      cases hfate with
      | pending hr hl _ hn => exact .current hr hl ⟨rfl, hid⟩ (by omega)
      | current _ _ hc _ => exact absurd hc (hidle _)
      | ran _ hl _ | cancelled _ hl _ => exact absurd hlive hl
    · rw [if_neg heq, Nat.add_zero]
      exact hfate.idle (hidle a.id) fun hh => heq (hid ▸ hh.2)

/-- The callback has returned: the timer moves from its node to `expired`.  A one-shot has been
run and is nowhere else; a repeating timer is held. -/
theorem Kept.callbackReturns {w : Walk} (hk : Kept q w.expired) (hs : Sound q) {ptr : TimerID}
    (hw : q.walk = some w) (hr : w.running = true) (hp : w.ptr = some ptr)
    (ht : q.timers.get? ptr = some (some t)) :
    Kept { q with activeTimers := q.activeTimers.erase ptr.id, timers := q.timers.set ptr none,
                  walk := some { w with expired := w.expired ++ [t],
                                        ptr := (q.timers.set ptr none).next ptr,
                                        running := false } } (w.expired ++ [t]) := by
  have hid : ptr.id = t.id := by rw [hs.keyed ptr t ht, key_id]
  have hlive := hk.live ht
  have hcur : Current q t.id := (current_iff hw hp _).mpr ⟨hr, hid⟩
  have hidle : ∀ id, ¬ Current { q with
      activeTimers := q.activeTimers.erase ptr.id, timers := q.timers.set ptr none,
      walk := some { w with expired := w.expired ++ [t], ptr := (q.timers.set ptr none).next ptr,
                            running := false } } id := by
    rintro id ⟨w', hw', hr', -⟩
    cases hw'
    cases hr'
  have hother : ∀ {id : Nat}, id ≠ t.id →
      ((∃ k, (q.activeTimers.erase ptr.id).get? id = some k) ↔ Live q id) := by
    intro id hne
    rw [hid]
    exact live_erase.trans (and_iff_right hne)
  have hgone : ¬ ∃ k, (q.activeTimers.erase ptr.id).get? t.id = some k := by
    rw [hid, live_erase]
    exact fun hh => hh.1 rfl
  have hheld : ∀ u ∈ w.expired, u.id ≠ t.id :=
    fun u hu heq => (hk.heldGone u hu).1 (heq ▸ hlive)
  refine ⟨?_, ?_, ?_, ?_, ?_, hk.addedIds, hk.addedOld, hk.removedOld, hk.firedOld, ?_, ?_⟩
  · intro id k
    have hiff := hk.active_remove ht id k
    simp only [SortedMap.get?_erase, hid]
    by_cases hkn : k = ptr
    · subst hkn
      rw [SortedMap.get?_set_self ht]
      by_cases hne : id = t.id <;> simp_all
    · rw [SortedMap.get?_set_of_ne hkn]
      by_cases hne : id = t.id <;> simp_all
  · intro k u hu
    rcases SortedMap.get?_set_cases hu with ⟨-, hnull⟩ | ⟨-, hu⟩
    · cases hnull
    · exact hk.known k u hu
  · intro u hu
    rcases List.mem_append.mp hu with hu | hu
    · exact hk.knownHeld u hu
    · rw [List.mem_singleton.mp hu]
      exact hk.known ptr t ht
  · rw [List.map_append, List.nodup_append]
    refine ⟨hk.heldIds, by simp, ?_⟩
    rintro _ hx _ hy rfl
    obtain ⟨u, hu, rfl⟩ := List.mem_map.mp hx
    simp only [List.map_cons, List.map_nil, List.mem_singleton] at hy
    exact hheld u hu hy
  · intro u hu
    rcases List.mem_append.mp hu with hu | hu
    · refine ⟨fun hl => (hk.heldGone u hu).1 ((hother (hheld u hu)).mp hl), (hk.heldGone u hu).2⟩
    · rw [List.mem_singleton.mp hu]
      exact ⟨hgone, hk.not_removed ht⟩
  · intro a ha hrep
    have hfate := hk.oneShot a ha hrep
    by_cases heq : a.id = t.id
    · rw [heq] at hfate ⊢
      cases hfate with
      | current hr _ _ hn => exact .ran hr hgone hn
      | pending _ _ hc _ => exact absurd hcur hc
      | ran _ hl _ | cancelled _ hl _ => exact absurd hlive hl
    · have hnot : ¬ Current q a.id := by
        rw [current_iff hw hp, hid]
        exact fun hh => heq hh.2.symm
      rw [← hother heq] at hfate
      exact hfate.idle hnot (hidle a.id)
  · intro a ha hrep
    by_cases heq : a.id = t.id
    · refine .held ?_ ⟨t, by simp, heq.symm⟩
      rw [heq]
      exact hk.not_removed ht
    · have hfate := hk.repeated a ha hrep
      rw [← hother heq] at hfate
      refine hfate.mono ?_
      rintro ⟨u, hu, hua⟩
      exact ⟨u, List.mem_append_left _ hu, hua⟩

/-- The range erase only takes empty nodes: the account does not see it.  This is the one place
where it matters what callbacks have added. -/
theorem Tracked.eraseExpired (h : Tracked q) {w : Walk} (hw : q.walk = some w)
    (hi : w.ptr = w.iter) :
    Kept (q.eraseExpired w) w.expired ∧
      ∀ k v, (q.eraseExpired w).timers.get? k = some v → v ≠ none := by
  have hk : Kept q w.expired := held_walk hw ▸ h.kept
  have hbefore : ∀ k v, q.timers.get? k = some v →
      (v = none ↔ SortedMap.Before k w.iter) := by
    intro k v hv
    rw [h.null k v hv, hw, ← hi]
    simp
  -- a live timer is not in the erased range
  have hsame : ∀ k t, (q.eraseExpired w).timers.get? k = some (some t) ↔
      q.timers.get? k = some (some t) := by
    intro k t
    constructor
    · exact fun hget => (SortedMap.get?_of_get?_eraseBefore hget).1
    · intro hget
      have hnot : ¬ SortedMap.Before k w.iter := fun hb => by
        cases (hbefore k _ hget).mpr hb
      rw [State.eraseExpired, SortedMap.get?_eraseBefore, if_neg hnot, hget]
  have hidle : ∀ id, ¬ Current q id := by
    rintro id ⟨w', hw', hr, -⟩
    rw [hw] at hw'
    cases hw'
    exact h.sound.running w hw hr hi
  refine ⟨⟨?_, ?_, hk.knownHeld, hk.heldIds, hk.heldGone, hk.addedIds, hk.addedOld, hk.removedOld,
    hk.firedOld, ?_, hk.repeated⟩, ?_⟩
  · intro id k
    simp only [hsame]
    exact hk.active id k
  · intro k t ht
    exact hk.known k t ((hsame k t).mp ht)
  · intro a ha hrep
    exact (hk.oneShot a ha hrep).idle (hidle a.id) (not_current_of_idle rfl a.id)
  · rintro k v hv rfl
    obtain ⟨hv, hnot⟩ := SortedMap.get?_of_get?_eraseBefore hv
    exact hnot ((hbefore k none hv).mp rfl)

/-- A one-shot timer drops out of `expired`.  It has been run, and that is all there was to come
of it. -/
theorem Kept.drop (hk : Kept q (t :: ts)) (hrep : t.repeated = false) : Kept q ts := by
  refine ⟨hk.active, hk.known, fun u hu => hk.knownHeld u (List.mem_cons_of_mem _ hu),
    (List.nodup_cons.mp hk.heldIds).2, fun u hu => hk.heldGone u (List.mem_cons_of_mem _ hu),
    hk.addedIds, hk.addedOld, hk.removedOld, hk.firedOld, hk.oneShot, ?_⟩
  intro a ha hrep'
  refine (hk.repeated a ha hrep').mono ?_
  rintro ⟨u, hu, hua⟩
  rcases List.mem_cons.mp hu with rfl | hu
  · -- the same id would make the repeating timer the one-shot one
    rw [hk.held_repeated (List.mem_cons_self ..) ha hua, hrep'] at hrep
    cases hrep
  · exact ⟨u, hu, hua⟩

/-- A repeating timer goes back into the map, from held to pending. -/
theorem Kept.putBack {now : Int} (hk : Kept q (t :: ts)) (hrep : t.repeated = true)
    (hkey : q.timers.get? (t.restart now).key = none) (failed : List Assertion) :
    Kept { q with timers := q.timers.insert (t.restart now).key (some (t.restart now)),
                  activeTimers := q.activeTimers.insert t.id (t.restart now).key,
                  failed := failed } ts := by
  obtain ⟨hgone, hkeep⟩ := hk.heldGone t (List.mem_cons_self ..)
  have hl : ¬ Live q (t.restart now).id := hgone
  obtain ⟨hnotin, hnodup⟩ := List.nodup_cons.mp hk.heldIds
  have hheld : ∀ u ∈ ts, u.id ≠ t.id :=
    fun u hu heq => hnotin (heq ▸ List.mem_map_of_mem hu)
  have hother : ∀ {id : Nat}, id ≠ t.id →
      ((∃ k, (q.activeTimers.insert t.id (t.restart now).key).get? id = some k) ↔ Live q id) :=
    fun hne => (live_insert hl _).trans (or_iff_right hne)
  refine ⟨hk.active_insert hkey hl, ?_, fun u hu => hk.knownHeld u (List.mem_cons_of_mem _ hu),
    hnodup, ?_, hk.addedIds, hk.addedOld, hk.removedOld, hk.firedOld, ?_, ?_⟩
  · intro k u hu
    rcases SortedMap.get?_insert_cases hu with hu | ⟨-, heq⟩
    · exact hk.known k u hu
    · cases heq
      obtain ⟨a, ha, hta⟩ := hk.knownHeld t (List.mem_cons_self ..)
      refine ⟨a, ha, ?_⟩
      rw [Timer.restart, hta]
  · intro u hu
    have hgone' := hk.heldGone u (List.mem_cons_of_mem _ hu)
    exact ⟨fun hlive => hgone'.1 ((hother (hheld u hu)).mp hlive), hgone'.2⟩
  · intro a ha hrep'
    have hne : a.id ≠ t.id := by
      intro heq
      rw [hk.held_repeated (List.mem_cons_self ..) ha heq.symm, hrep'] at hrep
      cases hrep
    have hfate := hk.oneShot a ha hrep'
    rw [← hother hne] at hfate
    exact hfate
  · intro a ha hrep
    by_cases heq : a.id = t.id
    · refine .pending ?_ ((live_insert hl _).mpr (.inl heq))
      rw [heq]
      exact hkeep
    · have hfate := hk.repeated a ha hrep
      rw [← hother heq] at hfate
      refine hfate.mono ?_
      rintro ⟨u, hu, hua⟩
      rcases List.mem_cons.mp hu with rfl | hu
      · exact absurd hua.symm heq
      · exact ⟨u, hu, hua⟩

/-- What the loop of `reset` keeps while it goes through `expired`: the account, with the rest of
the list held. -/
structure Resetting (ts : List Timer) (q : State) : Prop where
  sound : Sound q
  kept : Kept q ts
  idle : q.walk = none
  full : ∀ k v, q.timers.get? k = some v → v ≠ none
  old : ∀ t ∈ ts, t.id < q.created
  canceling : q.cancelingTimers = []

theorem resetOne_resetting {now : Int} (h : Resetting (t :: ts) q)
    (hst : State.resetOne now q t = some q') : Resetting ts q' := by
  have hold : ∀ u ∈ ts, u.id < q.created := fun u hu => h.old u (List.mem_cons_of_mem _ hu)
  rcases resetOne_cases hst with ⟨rfl, hskip⟩ | ⟨hrep, entry, failed, he, rfl⟩
  · -- nothing is being cancelled, so only a one-shot timer is skipped
    have hrep : t.repeated = false := by
      rw [h.canceling] at hskip
      simpa using hskip
    exact ⟨h.sound, h.kept.drop hrep, h.idle, h.full, hold, h.canceling⟩
  · have hkey : q.timers.get? (t.restart now).key = none :=
      h.kept.key_unused h.sound h.full (h.kept.heldGone t (List.mem_cons_self ..)).1
    obtain rfl := insert_entry hkey he
    have hs := h.sound.insert (t := t.restart now) (h.old t (List.mem_cons_self ..))
      (q.activeTimers.insert t.id (t.restart now).key) failed
    refine ⟨hs, h.kept.putBack hrep hkey failed, h.idle, ?_, hold, h.canceling⟩
    intro k v hv
    rcases SortedMap.get?_insert_cases hv with hv | ⟨-, rfl⟩
    · exact h.full k v hv
    · simp

/-- After `reset` nothing is held any more.  By induction on `expired`: each timer is dropped or
put back. -/
theorem Tracked.finish (h : Tracked q) {w : Walk} (hw : q.walk = some w) (hi : w.ptr = w.iter)
    (hr : w.expired.foldlM (State.resetOne w.now) (q.eraseExpired w) = some q') :
    Resetting [] q' := by
  obtain ⟨hk, hfull⟩ := h.eraseExpired hw hi
  refine foldlM_consume (f := State.resetOne w.now) (I := Resetting) ?_ w.expired _ q' ?_ hr
  · exact fun t ts s s' hres hst => resetOne_resetting hres hst
  · exact ⟨h.sound.eraseExpired w, hk, rfl, hfull, h.sound.expired w hw, h.canceling (by rw [hw]; rfl)⟩

/-- Every step that meets the guard keeps the account. -/
theorem step_tracked {l : Label} (h : Tracked q) (hg : AddsAhead q l) (hst : q.step l = some q') :
    Tracked q' := by
  have hs' := step_sound h.sound hst
  have hk := h.kept
  cases step_inv hst with
  | tick ns | delay ns =>
    exact ⟨hs', { hk with }, h.null, h.canceling⟩
  | createdElsewhere =>
    exact ⟨hs', { hk with
      addedOld := fun a ha => Nat.lt_succ_of_lt (hk.addedOld a ha)
      removedOld := fun id hid => Nat.lt_succ_of_lt (hk.removedOld id hid)
      firedOld := fun f hf => Nat.lt_succ_of_lt (hk.firedOld f hf) },
      h.null, h.canceling⟩
  | addTimer when interval t entry failed kernel hu ht he =>
    exact h.addTimer hu hg hst (by rw [ht]) (by rw [ht]) he rfl
  | cancel timerId =>
    exact ⟨hs', { hk with }, h.null, h.canceling⟩
  | cancelFound timerId rest node t failed hw hn ht =>
    -- the reference in `_active_timers` leads to the node the erase looks for
    obtain ⟨u, hu, rfl⟩ := (hk.active timerId node).mp hn
    rw [ht] at hu
    cases hu
    have hnode : (toLex (t.expertionTime, t.id) : TimerID) = node := (h.sound.keyed node t ht).symm
    have hin : q.timers.contains node = true := by rw [SortedMap.contains, ht]; rfl
    simp only [hnode, hin, if_true] at hs' ⊢
    rw [held_idle hw] at hk
    refine ⟨hs', ?_, ?_, by simp [hw]⟩
    · rw [held_idle]
      · exact hk.cancelFound h.sound hw ht rest failed
      · exact hw
    · exact fun k v hv => h.null k v (SortedMap.get?_of_get?_erase hv)
  | cancelMissed timerId rest canceling failed hw hn =>
    exact ⟨hs', { hk with }, h.null, by simp [hw]⟩
  | handleRead fd hw =>
    rw [held_idle hw] at hk
    refine ⟨hs', ⟨hk.active, hk.known, hk.knownHeld, hk.heldIds, hk.heldGone, hk.addedIds,
      hk.addedOld, hk.removedOld, hk.firedOld, ?_, hk.repeated⟩, ?_, fun _ => rfl⟩
    · intro a ha hrep
      refine (hk.oneShot a ha hrep).idle (not_current_of_idle hw a.id) ?_
      rintro ⟨w, hw', hr, -⟩
      cases hw'
      cases hr
    · intro k v hv
      have hnull := h.null k v hv
      simp only [hw, Option.mem_def, reduceCtorEq, false_and, exists_false, iff_false] at hnull
      refine ⟨fun hnone => absurd hnone hnull, ?_⟩
      rintro ⟨w, hw', hb⟩
      cases hw'
      -- no node lies in front of `begin()`
      cases hbeg : q.timers.begin? with
      | none => exact absurd hv (SortedMap.begin?_eq_none.mp hbeg k v)
      | some b =>
        simp only [hbeg] at hb
        exact absurd hb (not_lt_of_ge ((SortedMap.begin?_eq_some.mp hbeg).2 k v hv))
  | runCallback w ptr t hw hr hi hp ht =>
    rw [held_walk hw] at hk
    refine ⟨hs', hk.runCallback h.sound hw hr hp ht, ?_, fun _ => h.canceling (by rw [hw]; rfl)⟩
    intro k v hv
    rw [h.null k v hv, hw]
    simp
  | callbackReturns w ptr t hw hr hp ht =>
    rw [held_walk hw] at hk
    refine ⟨hs', hk.callbackReturns h.sound hw hr hp ht, ?_,
      fun _ => h.canceling (by rw [hw]; rfl)⟩
    intro k v hv
    have hnext : (∃ w' ∈ some { w with
        expired := w.expired ++ [t], ptr := (q.timers.set ptr none).next ptr, running := false },
        SortedMap.Before k w'.ptr) ↔ k ≤ ptr := by
      simpa using SortedMap.before_next hv
    rw [hnext]
    rcases SortedMap.get?_set_cases hv with ⟨rfl, rfl⟩ | ⟨hne, hv⟩
    · simp
    · rw [h.null k v hv, hw]
      simp only [Option.mem_def, Option.some.injEq, exists_eq_left', hp]
      exact ⟨le_of_lt, fun hle => lt_of_le_of_ne hle hne⟩
  | finish w q₁ kernel hw hi hr =>
    have hres := h.finish hw hi hr
    have hk₁ := hres.kept
    refine ⟨hs', ?_, ?_, ?_⟩
    · rw [held_idle]
      swap
      · exact hres.idle
      exact { hk₁ with }
    · intro k v hv
      simp only [hres.idle, Option.mem_def, reduceCtorEq, false_and, exists_false, iff_false]
      exact hres.full k v hv
    · simp [hres.idle]

/-! ## 4. No timer is lost -/

/-- A one-shot timer whose callback has been run exactly once. -/
def RanOnce (q : State) (a : Timer) : Prop := a.repeated = false ∧ runs q a.id = 1

/-- The timer is pending, or a one-shot that has been run once, or cancelled, and only one of
these; a repeating timer that was not cancelled is pending. -/
def Accounted (q : State) (a : Timer) : Prop :=
  (Pending q a ∧ ¬ RanOnce q a ∧ a.id ∉ q.removed ∨
    ¬ Pending q a ∧ RanOnce q a ∧ a.id ∉ q.removed ∨
    ¬ Pending q a ∧ ¬ RanOnce q a ∧ a.id ∈ q.removed) ∧
  (a.repeated = true → a.id ∉ q.removed → Pending q a)

theorem Tracked.pending_iff (h : Tracked q) {a : Timer} (ha : a ∈ q.added) :
    Pending q a ↔ Live q a.id := by
  constructor
  · rintro ⟨t, hta, ht⟩
    have hid : t.id = a.id := by rw [hta]
    exact hid ▸ h.kept.live ht
  · rintro ⟨k, hk⟩
    obtain ⟨t, ht, hid⟩ := (h.kept.active a.id k).mp hk
    obtain ⟨b, hb, htb⟩ := h.kept.known k t ht
    have hba : b = a := h.kept.added_eq hb ha (by rw [← hid, htb])
    refine ⟨t, hba ▸ htb, ?_⟩
    rw [h.sound.keyed k t ht] at ht
    exact ht

/-- **No timer is lost, if callbacks add only ahead of themselves.**  In every run of the queue in
which no callback adds a timer that expires before its own, in every state outside `handle_read`
each timer ever added is in exactly one place: pending in `_timers` under its time and id, a
one-shot that has been run exactly once, or removed by `cancel_in_loop`.  A repeating timer that was
not cancelled is pending. -/
theorem each_accounted (clock : Int) (q : State) (h : Reach State.step AddsAhead (.init clock) q)
    (hw : q.walk = none) : ∀ a ∈ q.added, Accounted q a := by
  have ht : Tracked q := h.invariant (tracked_init clock) fun _ _ _ hi hg hst => step_tracked hi hg hst
  have hk := ht.kept
  rw [held_idle hw] at hk
  intro a ha
  rw [Accounted, RanOnce, ht.pending_iff ha]
  cases hrep : a.repeated with
  | false =>
    refine ⟨?_, by simp⟩
    cases hk.oneShot a ha hrep with
    | pending hr hl _ hn => exact .inl ⟨hl, by simp [hn], hr⟩
    | current _ _ hc _ => exact absurd hc (not_current_of_idle hw _)
    | ran hr hl hn => exact .inr (.inl ⟨hl, ⟨rfl, hn⟩, hr⟩)
    | cancelled hr hl hn => exact .inr (.inr ⟨hl, by simp [hn], hr⟩)
  | true =>
    cases hk.repeated a ha hrep with
    | pending hr hl => exact ⟨.inl ⟨hl, by simp, hr⟩, fun _ _ => hl⟩
    | held _ hh =>
      obtain ⟨u, hu, -⟩ := hh
      cases hu
    | cancelled hr hl => exact ⟨.inr (.inr ⟨hl, by simp, hr⟩), fun _ hnr => absurd hr hnr⟩

/-- A one-shot at 10, a repeating timer at 12 and a one-shot at 90.  At 20 the callback of the
first adds a timer for 15 and cancels the last; the timer for 15 is run in the same walk, the
repeating one is put back at 20 + 5, and the cancel is carried out after it. -/
def addsAhead : List Label :=
  [.addTimer 10 ⟨false, 0⟩, .addTimer 12 ⟨true, 5⟩, .addTimer 90 ⟨false, 0⟩, .tick 20,
    .handleRead, .runCallback, .addTimer 15 ⟨false, 0⟩, .cancel 3, .callbackReturns, .runCallback,
    .callbackReturns, .runCallback, .callbackReturns, .finish, .cancelInLoop]

theorem each_accounted_addsAhead : ∃ q, Reach State.step AddsAhead (.init 0) q ∧
    q.walk = none ∧ q.added.map Timer.id = [1, 2, 3, 4] ∧ q.removed = [3] ∧
    ∀ a ∈ q.added, Accounted q a := by
  have h : Reach State.step AddsAhead (.init 0) _ :=
    Reach.of_exec addsAhead (State.init 0) (by decide +kernel) rfl
  exact ⟨_, h, rfl, by decide +kernel, by decide +kernel, each_accounted 0 _ h rfl⟩

/-- **A timer added behind the walk is gone.**  At 10 the only timer's callback adds one that was
due at 5; the walk never comes to it, the range erase destroys it, and nobody cancelled it. -/
theorem callback_adds_behind_walk : ∃ q, Reach State.step anyStep (.init 0) q ∧
    q.walk = none ∧ ∃ a ∈ q.added, ¬ Accounted q a := by
  refine ⟨_, Reach.of_exec_any [.addTimer 10 ⟨false, 0⟩, .tick 10, .handleRead, .runCallback,
    .addTimer 5 ⟨false, 0⟩, .callbackReturns, .finish] rfl, rfl, ⟨2, 5, false, 0⟩,
    by decide +kernel, ?_⟩
  rintro ⟨⟨⟨t, -, ht⟩, -⟩ | ⟨-, hran, -⟩ | ⟨-, -, hrem⟩, -⟩
  · cases SortedMap.get?_eq_some.mp ht
  · exact absurd hran.2 (by decide +kernel)
  · cases hrem

end Suduo.TimerQueue
