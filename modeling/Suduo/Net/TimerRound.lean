/-
# One timer round

The loop of `handle_read` runs until `ptr` comes to `iter`, over a map its own callbacks insert
into.  Whether it ends depends on where they insert.  A node behind `ptr` is not visited, nor is one
from `iter` on; a node in between lies on the way, and is one visit more.  A callback that adds its
own task again with a positive delay puts such a node there every time once `iter` is `end()`, which
it is when no later timer is pending, and then the loop never ends (`retry_never_ends`).

With the callbacks given (`callbacks : Timer → List Act`) a round is a computation.  It never gets
stuck (`visit_total`, `finish_total`: no node from `ptr` on is empty), so it fails only by not
ending.  It ends after visiting what was due at its entry exactly if no callback of a due timer adds
one on the way (`round_finite_iff`): the nodes ahead are then used up one by one, and otherwise one
of the additions is visited on top of all that was due.
-/
import Suduo.Net.TimerDue
import Mathlib.Data.List.Perm.Basic

namespace Suduo.TimerQueue

open Lib

/-! ## 1. A round with its callbacks -/

/-- What the code of a callback does: it takes time, timers are created for other queues, and it
calls `run_at` and its like, and `cancel`. -/
inductive Act
  | elapse (ns : Nat)
  | createdElsewhere
  | addTimer (when : Int) (interval : Interval)
  | cancel (timerId : Nat)
  deriving DecidableEq, Repr

def Act.label : Act → Label
  | .elapse ns => .tick ns
  | .createdElsewhere => .createdElsewhere
  | .addTimer when interval => .addTimer when interval
  | .cancel timerId => .cancel timerId

/-- The expiration of the timer an act adds. -/
def Act.added : Act → Option Int
  | .addTimer when _ => some when
  | .elapse _ | .createdElsewhere | .cancel _ => none

/-- `ptr->second`. -/
def State.atPtr (q : State) (w : Walk) : Option Timer := do
  let ptr ← w.ptr
  let entry ← q.timers.get? ptr
  entry

/-- The body of the loop of `handle_read`, with what the callback does in it.  It is made of the
steps of `TimerQueue`, so a round is a run. -/
def State.visit (callbacks : Timer → List Act) (q : State) (w : Walk) : Option State := do
  let timer ← q.atPtr w
  let q ← q.step .runCallback
  let q ← exec State.step q ((callbacks timer).map Act.label)
  q.step .callbackReturns

/-- `handle_read` from the loop on, if that takes less than `fuel` rounds of the loop. -/
def State.walkOn (callbacks : Timer → List Act) : Nat → State → Option State
  | 0, _ => none
  | fuel + 1, q =>
    match q.walk with
    | none => none
    | some w =>
      if w.ptr = w.iter then q.step .finish
      else (q.visit callbacks w).bind (State.walkOn callbacks fuel)

/-- One invocation of `handle_read`. -/
def State.round (callbacks : Timer → List Act) (fuel : Nat) (q : State) : Option State :=
  (q.step .handleRead).bind (State.walkOn callbacks fuel)

/-- The entries with `expertion_time <= now`. -/
def State.due (q : State) : List (TimerID × Option Timer) :=
  q.timers.entries.filter fun e => e.1.time ≤ q.clock

/-- The round ends, having run at most as many callbacks as timers were due, in key order. -/
def FiniteRound (callbacks : Timer → List Act) (q : State) : Prop :=
  ∃ fuel q' fs, q.round callbacks fuel = some q' ∧ q'.fired = q.fired ++ fs ∧
    fs.length ≤ q.due.length ∧ (fs.map fun f => f.timer.key).Pairwise (· ≤ ·)

/-- Each timer that the callback of a due timer adds expires before that timer, or no earlier
than some pending timer that is not due.  Which timers are due, and which pending timer is not,
is read off the state in which `handle_read` is entered. -/
def AddsOffTheWay (callbacks : Timer → List Act) (q : State) : Prop :=
  ∀ e ∈ q.due, ∀ t ∈ e.2, ∀ a ∈ callbacks t, ∀ when ∈ a.added,
    when < t.expertionTime ∨ ∃ i ∈ q.timers.entries, q.clock < i.1.time ∧ i.1.time ≤ when

instance (callbacks : Timer → List Act) (q : State) : Decidable (AddsOffTheWay callbacks q) :=
  inferInstanceAs (Decidable (∀ e ∈ q.due, ∀ t ∈ e.2, ∀ a ∈ callbacks t, ∀ when ∈ a.added,
    when < t.expertionTime ∨ ∃ i ∈ q.timers.entries, q.clock < i.1.time ∧ i.1.time ≤ when))

/-! ## 2. Empty nodes lie behind `ptr` -/

/-- An empty node lies behind the `ptr` of a walk in progress. -/
def NullBehind (q : State) : Prop :=
  ∀ k, q.timers.get? k = some none → ∃ w ∈ q.walk, SortedMap.Before k w.ptr

theorem NullBehind.insert {q : State} (h : NullBehind q) (t : Timer)
    (active : SortedMap Nat TimerID) (failed : List Assertion) :
    NullBehind { q with timers := q.timers.insert t.key (some t), activeTimers := active,
                        failed := failed } := by
  intro k hk
  rcases SortedMap.get?_insert_cases hk with hk | ⟨-, heq⟩
  · exact h k hk
  · cases heq

/-- The range erase takes every empty node with it.  They lie behind `ptr`, and `ptr` has come to
`iter`. -/
theorem NullBehind.eraseExpired {q : State} (h : NullBehind q) {w : Walk} (hw : q.walk = some w)
    (hi : w.ptr = w.iter) : ∀ k, (q.eraseExpired w).timers.get? k ≠ some none := by
  intro k hk
  obtain ⟨hk, hnot⟩ := SortedMap.get?_of_get?_eraseBefore hk
  obtain ⟨w', hw', hb⟩ := h k hk
  rw [hw] at hw'
  cases hw'
  exact hnot (hi ▸ hb)

/-- The loop of `reset` puts no empty node into the map. -/
theorem reset_full {q q' : State} {now : Int} {expired : List Timer}
    (hfull : ∀ k, q.timers.get? k ≠ some none)
    (h : expired.foldlM (State.resetOne now) q = some q') :
    ∀ k, q'.timers.get? k ≠ some none := by
  refine foldlM_consume (f := State.resetOne now)
    (I := fun _ s => ∀ k, s.timers.get? k ≠ some none) ?_ expired q q' hfull h
  intro t ts s s' hs hst k hk
  rcases resetOne_cases hst with ⟨rfl, -⟩ | ⟨-, entry, failed, -, rfl⟩
  · exact hs k hk
  · rcases SortedMap.get?_insert_cases hk with hk | ⟨-, heq⟩
    · exact hs k hk
    · cases heq

theorem step_nullBehind {q q' : State} {l : Label} (hn : NullBehind q) (h : q.step l = some q') :
    NullBehind q' := by
  cases step_inv h with
  | tick ns | delay ns => exact hn
  | createdElsewhere => exact hn
  | addTimer when interval t entry failed kernel hu ht he => exact hn.insert t q.activeTimers failed
  | cancel timerId => exact hn
  | cancelFound timerId rest node t failed hw hnode ht =>
    exact fun k hk => hn k (SortedMap.get?_of_get?_erase hk)
  | cancelMissed timerId rest canceling failed hw hnode => exact hn
  | handleRead fd hw =>
    intro k hk
    obtain ⟨w, hw', -⟩ := hn k hk
    rw [hw] at hw'
    cases hw'
  | runCallback w ptr t hw hr hi hp ht =>
    intro k hk
    obtain ⟨w', hw', hb⟩ := hn k hk
    rw [hw] at hw'
    cases hw'
    exact ⟨_, rfl, hb⟩
  | callbackReturns w ptr t hw hr hp ht =>
    intro k hk
    refine ⟨_, rfl, (SortedMap.before_next hk).mpr ?_⟩
    rcases SortedMap.get?_set_cases hk with ⟨rfl, -⟩ | ⟨-, hk⟩
    · exact le_refl _
    · obtain ⟨w', hw', hb⟩ := hn k hk
      rw [hw] at hw'
      cases hw'
      rw [hp] at hb
      exact le_of_lt hb
  | finish w q₁ kernel hw hi hr =>
    intro k hk
    exact absurd hk (reset_full (hn.eraseExpired hw hi) hr k)

/-- What holds of the queue around every step of a round. -/
structure Walkable (q : State) : Prop where
  sound : Sound q
  null : NullBehind q

theorem step_walkable {q q' : State} {l : Label} (hq : Walkable q) (h : q.step l = some q') :
    Walkable q' := ⟨step_sound hq.sound h, step_nullBehind hq.null h⟩

theorem reach_walkable {clock : Int} {q : State} (h : Reach State.step anyStep (.init clock) q) :
    Walkable q := by
  refine h.invariant ⟨sound_init clock, ?_⟩ fun _ _ _ hi _ hst => step_walkable hi hst
  intro k hk
  cases hk

/-! ## 3. A round never gets stuck -/

/-- `insert` goes through unless the key's node is there and empty.  It looks into the node that
`std::map::insert` returns. -/
theorem insert_total {q : State} {t : Timer} (h : q.timers.get? t.key ≠ some none) :
    ∃ q' b, q.insert t = some (q', b) := by
  have hentry : ∃ entry, (q.timers.insert t.key (some t)).get? t.key = some (some entry) := by
    cases hold : q.timers.get? t.key with
    | none => exact ⟨t, by rw [SortedMap.get?_insert hold, if_pos rfl]⟩
    | some v =>
      cases v with
      | none => exact absurd hold h
      | some u => exact ⟨u, SortedMap.get?_insert_of_get? hold⟩
  obtain ⟨entry, hentry⟩ := hentry
  simp only [State.insert, hentry]
  exact ⟨_, _, rfl⟩

/-- The loop of `reset` finds no empty node, so it goes through. -/
theorem reset_total (now : Int) (expired : List Timer) :
    ∀ q : State, (∀ k, q.timers.get? k ≠ some none) →
      ∃ q', expired.foldlM (State.resetOne now) q = some q' := by
  induction expired with
  | nil => exact fun q _ => ⟨q, rfl⟩
  | cons t ts ih =>
    intro q hfull
    have hone : ∃ q₁, State.resetOne now q t = some q₁ := by
      obtain ⟨q₁, b, hins⟩ := insert_total (hfull (t.restart now).key)
      simp only [State.resetOne, hins, Option.map_some]
      split
      · exact ⟨_, rfl⟩
      · exact ⟨_, rfl⟩
    obtain ⟨q₁, h₁⟩ := hone
    have hfold : [t].foldlM (State.resetOne now) q = some q₁ := by
      rw [List.foldlM_cons, h₁]
      rfl
    have hfull₁ : ∀ k, q₁.timers.get? k ≠ some none := reset_full hfull hfold
    obtain ⟨q', h'⟩ := ih q₁ hfull₁
    exact ⟨q', by rw [List.foldlM_cons, h₁]; exact h'⟩

/-- When the loop has ended, the rest of `handle_read` goes through and runs nothing. -/
theorem finish_total {q : State} (hq : Walkable q) {w : Walk} (hw : q.walk = some w)
    (hr : w.running = false) (hi : w.ptr = w.iter) :
    ∃ q', q.step .finish = some q' ∧ q'.fired = q.fired := by
  have hfull := hq.null.eraseExpired hw hi
  obtain ⟨q₁, hfold⟩ := reset_total w.now w.expired (q.eraseExpired w) hfull
  have hfired := (finish_sound hq.sound hw hfold).2.2
  have hstep : q.step .finish = (q.eraseExpired w).reset w.expired w.now := by
    simp only [State.step, hw, hr, hi, and_self, if_true, State.finish]
  rw [hstep, State.reset, hfold]
  simp only [Option.bind_eq_bind, Option.bind_some]
  cases hb : q₁.timers.begin? with
  | none => exact ⟨q₁, rfl, hfired⟩
  | some it =>
    obtain ⟨⟨v, hv⟩, -⟩ := SortedMap.begin?_eq_some.mp hb
    cases v with
    | none => exact absurd hv (reset_full hfull hfold it)
    | some timer =>
      simp only [hv]
      refine ⟨_, rfl, ?_⟩
      split
      · exact hfired
      · exact hfired

/-- `add_timer` goes through, wherever `handle_read` is: a new id is in no node. -/
theorem addTimer_total {q : State} (hs : Sound q) (when : Int) (interval : Interval) :
    ∃ q', q.addTimer when interval = some q' := by
  have hnew : ∀ t : Timer, t.id = q.created → q.timers.get? t.key ≠ some none := by
    intro t ht
    rw [hs.new_key (k := t.key) (by rw [key_id, ht])]
    simp
  obtain ⟨q₁, b, hins⟩ := insert_total
    (q := { q with created := q.created + 1,
                   added := q.added ++ [⟨q.created, when, interval.positive, interval.nanoseconds⟩] })
    (hnew ⟨q.created, when, interval.positive, interval.nanoseconds⟩ rfl)
  simp only [State.addTimer, hins, Option.bind_eq_bind, Option.bind_some]
  exact ⟨_, rfl⟩

/-- What the code of a callback leaves of the queue: the walk as it is, every node in its place,
and a new node for each timer added.  What the callback was is not needed any further. -/
structure Acted (acts : List Act) (q q' : State) : Prop where
  walkable : Walkable q'
  walk : q'.walk = q.walk
  fired : q'.fired = q.fired
  created : q.created ≤ q'.created
  kept : ∀ k v, q.timers.get? k = some v → q'.timers.get? k = some v
  only : ∀ k v, q'.timers.get? k = some v → q.timers.get? k = some v ∨
    ∃ a ∈ acts, k.time ∈ a.added ∧ q.created ≤ k.id
  added : ∀ a ∈ acts, ∀ when ∈ a.added,
    ∃ k v, q'.timers.get? k = some v ∧ k.time = when ∧ q.created ≤ k.id

theorem acted_nil {q : State} (hq : Walkable q) : Acted [] q q :=
  ⟨hq, rfl, rfl, le_refl _, fun _ _ h => h, fun _ _ h => .inl h, by simp⟩

theorem Acted.cons {a : Act} {acts : List Act} {q q₁ q' : State} (h₁ : Acted [a] q q₁)
    (h : Acted acts q₁ q') : Acted (a :: acts) q q' := by
  refine ⟨h.walkable, h.walk.trans h₁.walk, h.fired.trans h₁.fired, le_trans h₁.created h.created,
    fun k v hk => h.kept k v (h₁.kept k v hk), ?_, ?_⟩
  · intro k v hk
    rcases h.only k v hk with hk | ⟨b, hb, hwhen, hid⟩
    · rcases h₁.only k v hk with hk | ⟨b, hb, hwhen, hid⟩
      · exact .inl hk
      · exact .inr ⟨b, by simp [List.mem_singleton.mp hb], hwhen, hid⟩
    · exact .inr ⟨b, List.mem_cons_of_mem _ hb, hwhen, le_trans h₁.created hid⟩
  · intro b hb when hwhen
    rcases List.mem_cons.mp hb with rfl | hb
    · obtain ⟨k, v, hk, hkt, hid⟩ := h₁.added b (List.mem_singleton_self _) when hwhen
      exact ⟨k, v, h.kept k v hk, hkt, hid⟩
    · obtain ⟨k, v, hk, hkt, hid⟩ := h.added b hb when hwhen
      exact ⟨k, v, hk, hkt, le_trans h₁.created hid⟩

/-- One act of a callback goes through, and leaves the walk as it is. -/
theorem act_total {q : State} (hq : Walkable q) (hu : q.userCode = true) (a : Act) :
    ∃ q', q.step a.label = some q' ∧ Acted [a] q q' := by
  have hstep : ∃ q', q.step a.label = some q' := by
    cases a with
    | elapse ns => exact ⟨_, rfl⟩
    | createdElsewhere => exact ⟨_, rfl⟩
    | addTimer when interval =>
      obtain ⟨q', hq'⟩ := addTimer_total hq.sound when interval
      exact ⟨q', by simp [Act.label, State.step, hu, hq']⟩
    | cancel timerId => exact ⟨q.cancel timerId, by simp [Act.label, State.step, hu]⟩
  obtain ⟨q', hstep⟩ := hstep
  refine ⟨q', hstep, ?_⟩
  have hq' := step_walkable hq hstep
  cases a with
  | elapse ns =>
    cases step_inv hstep
    exact ⟨hq', rfl, rfl, le_refl _, fun _ _ h => h, fun _ _ h => .inl h, by simp [Act.added]⟩
  | createdElsewhere =>
    cases step_inv hstep
    exact ⟨hq', rfl, rfl, Nat.le_succ _, fun _ _ h => h, fun _ _ h => .inl h, by simp [Act.added]⟩
  | cancel timerId =>
    cases step_inv hstep
    exact ⟨hq', rfl, rfl, le_refl _, fun _ _ h => h, fun _ _ h => .inl h, by simp [Act.added]⟩
  | addTimer when interval =>
    cases step_inv hstep with
    | addTimer _ _ t entry failed kernel _ ht he =>
      have hid : t.key.id = q.created := by rw [ht]; rfl
      have htime : t.key.time = when := by rw [ht]; rfl
      refine ⟨hq', rfl, rfl, Nat.le_succ _, fun k v hk => SortedMap.get?_insert_of_get? hk, ?_, ?_⟩
      · intro k v hk
        rcases SortedMap.get?_insert_cases hk with hk | ⟨rfl, -⟩
        · exact .inl hk
        · exact .inr ⟨_, List.mem_singleton_self _, by simp [Act.added, htime], ge_of_eq hid⟩
      · intro b hb when' hwhen
        rw [List.mem_singleton.mp hb] at hwhen
        cases hwhen
        exact ⟨t.key, some entry, he, htime, ge_of_eq hid⟩

/-- All acts of a callback go through, by induction on them. -/
theorem acts_total (acts : List Act) : ∀ {q : State}, Walkable q → q.userCode = true →
    ∃ q', exec State.step q (acts.map Act.label) = some q' ∧ Acted acts q q' := by
  induction acts with
  | nil => exact fun hq _ => ⟨_, rfl, acted_nil hq⟩
  | cons a acts ih =>
    intro q hq hu
    obtain ⟨q₁, h₁, hact₁⟩ := act_total hq hu a
    have hu₁ : q₁.userCode = true := by
      rw [State.userCode, hact₁.walk]
      exact hu
    obtain ⟨q', h', hact⟩ := ih hact₁.walkable hu₁
    exact ⟨q', by simp [exec, h₁, h'], hact₁.cons hact⟩

/-- What a visit of the node at `p`, with timer `t`, leaves. -/
structure Visited (acts : List Act) (q : State) (w : Walk) (p : TimerID) (t : Timer) (q' : State) :
    Prop where
  walkable : Walkable q'
  walk : ∃ expired, q'.walk = some ⟨w.now, w.iter, q'.timers.next p, false, expired⟩
  fired : q'.fired = q.fired ++ [⟨t, w.now⟩]
  created : q.created ≤ q'.created
  kept : ∀ k v, k ≠ p → q.timers.get? k = some v → q'.timers.get? k = some v
  here : q'.timers.get? p = some none
  only : ∀ k v, k ≠ p → q'.timers.get? k = some v → q.timers.get? k = some v ∨
    ∃ a ∈ acts, k.time ∈ a.added ∧ q.created ≤ k.id
  added : ∀ a ∈ acts, ∀ when ∈ a.added,
    ∃ k v, q'.timers.get? k = some v ∧ k.time = when ∧ q.created ≤ k.id

/-- **A visit goes through**: there is a timer at `ptr`, and the callback leaves it there.  A
callback can add timers and request cancels, and neither takes a node away, which is why `ptr` is
still good when it returns. -/
theorem visit_total (callbacks : Timer → List Act) {q : State} (hq : Walkable q) {w : Walk}
    (hw : q.walk = some w) (hr : w.running = false) (hi : w.ptr ≠ w.iter) :
    ∃ p t q', w.ptr = some p ∧ q.timers.get? p = some (some t) ∧ t.key = p ∧
      q.visit callbacks w = some q' ∧ Visited (callbacks t) q w p t q' := by
  obtain ⟨p, hp⟩ : ∃ p, w.ptr = some p := by
    cases hit : w.iter with
    | some i =>
      obtain ⟨-, p, hp, -⟩ := hq.sound.iter w i hw hit
      exact ⟨p, hp⟩
    | none =>
      rw [hit] at hi
      exact Option.ne_none_iff_exists'.mp hi
  obtain ⟨t, ht⟩ : ∃ t, q.timers.get? p = some (some t) := by
    obtain ⟨v, hv⟩ := hq.sound.ptr w p hw hp
    cases v with
    | some t => exact ⟨t, hv⟩
    | none =>
      obtain ⟨w', hw', hb⟩ := hq.null p hv
      rw [hw] at hw'
      cases hw'
      rw [hp] at hb
      exact absurd hb (lt_irrefl _)
  have hkey := hq.sound.keyed p t ht
  have hrun : q.step .runCallback = some
      { q with walk := some { w with running := true }, fired := q.fired ++ [⟨t, w.now⟩] } := by
    simp only [State.step, hw, hr, true_and]
    rw [if_pos hi]
    simp only [State.runCallback, hp, ht]
  have hq₁ := step_walkable hq hrun
  obtain ⟨q₂, hacts, hact⟩ := acts_total (callbacks t) hq₁ rfl
  have ht₂ : q₂.timers.get? p = some (some t) := hact.kept p _ ht
  have hret : ∃ q', q₂.step .callbackReturns = some q' ∧
      q' = { q₂ with activeTimers := q₂.activeTimers.erase p.id, timers := q₂.timers.set p none,
                     walk := some { w with expired := w.expired ++ [t],
                                           ptr := (q₂.timers.set p none).next p,
                                           running := false } } := by
    have hw₂ : q₂.walk = some { w with running := true } := hact.walk
    refine ⟨_, ?_, rfl⟩
    simp only [State.step, hw₂, if_true, State.callbackReturns, hp, ht₂]
  obtain ⟨q', hret, heq⟩ := hret
  have hq' := step_walkable hact.walkable hret
  refine ⟨p, t, q', hp, ht, hkey.symm, ?_, ?_⟩
  · have hat : q.atPtr w = some t := by simp [State.atPtr, hp, ht]
    simp only [State.visit, hat, hrun, hacts, hret, Option.bind_eq_bind, Option.bind_some]
  · subst heq
    refine ⟨hq', ⟨_, rfl⟩, hact.fired, hact.created, ?_, SortedMap.get?_set_self ht₂, ?_, ?_⟩
    · intro k v hne hk
      rw [SortedMap.get?_set_of_ne hne]
      exact hact.kept k v hk
    · intro k v hne hk
      rw [SortedMap.get?_set_of_ne hne] at hk
      exact hact.only k v hk
    · intro a ha when hwhen
      obtain ⟨k, v, hk, hkt, hid⟩ := hact.added a ha when hwhen
      have hne : k ≠ p := by
        rintro rfl
        exact absurd (hq.sound.fresh k _ ht) (not_lt_of_ge hid)
      exact ⟨k, v, by rw [SortedMap.get?_set_of_ne hne, hk], hkt, hid⟩

/-! ## 4. Nothing is added on the way: the round ends -/

/-- `nodes` are the nodes from `ptr` to `iter`, in order.  The loop is an induction on this list,
if nothing is added to it. -/
structure Ahead (q : State) (w : Walk) (nodes : List (TimerID × Option Timer)) : Prop where
  sorted : nodes.Pairwise fun a b => a.1 < b.1
  mem : ∀ k v, (k, v) ∈ nodes ↔
    q.timers.get? k = some v ∧ ¬ SortedMap.Before k w.ptr ∧ SortedMap.Before k w.iter

/-- A timer expiring at `when` that the callback of `t` adds lands behind `t` or from `iter` on.
Neither is where the walk will still come. -/
def OffTheWay (iter : Option TimerID) (t : Timer) (when : Int) : Prop :=
  when < t.expertionTime ∨ ∃ i, iter = some i ∧ i.time ≤ when

theorem OffTheWay.lands {q : State} (hs : Sound q) {w : Walk} (hw : q.walk = some w) {t : Timer}
    {k : TimerID} (h : OffTheWay w.iter t k.time) (hid : q.created ≤ k.id) :
    k < t.key ∨ ¬ SortedMap.Before k w.iter := by
  rcases h with hlt | ⟨i, hi, hle⟩
  · exact .inl (TimerID.lt_iff.mpr (.inl hlt))
  · right
    obtain ⟨⟨v, hv⟩, -⟩ := hs.iter w i hw hi
    have hold := hs.fresh i v hv
    have hik : i < k := by
      rcases lt_or_eq_of_le hle with hlt | heq
      · exact TimerID.lt_iff.mpr (.inl hlt)
      · exact TimerID.lt_iff.mpr (.inr ⟨heq, lt_of_lt_of_le hold hid⟩)
    rw [hi]
    exact not_lt_of_gt hik

/-- A visit uses up the first node ahead, and puts none there. -/
theorem Ahead.visited {callbacks : Timer → List Act} {q q' : State} (hq : Walkable q) {w w' : Walk}
    (hw : q.walk = some w) {p : TimerID} {t : Timer} (hp : w.ptr = some p)
    (ht : q.timers.get? p = some (some t)) (hkey : t.key = p) (hi : w.ptr ≠ w.iter)
    (hv : Visited (callbacks t) q w p t q') (hw' : q'.walk = some w')
    {e : TimerID × Option Timer} {nodes : List (TimerID × Option Timer)}
    (h : Ahead q w (e :: nodes))
    (hoff : ∀ a ∈ callbacks t, ∀ when ∈ a.added, OffTheWay w.iter t when) :
    e = (p, some t) ∧ Ahead q' w' nodes := by
  have hbp := hq.sound.ptr_before hw hp hi
  obtain ⟨hhd, htl⟩ := List.pairwise_cons.mp h.sorted
  have he : e = (p, some t) := by
    have hpmem : (p, some t) ∈ e :: nodes := by
      refine (h.mem p (some t)).mpr ⟨ht, ?_, hbp⟩
      rw [hp]
      exact lt_irrefl _
    rcases List.mem_cons.mp hpmem with heq | hmem
    · exact heq.symm
    · -- the head would lie before `ptr`
      obtain ⟨-, hnb, -⟩ := (h.mem e.1 e.2).mp (List.mem_cons_self ..)
      rw [hp] at hnb
      exact absurd (hhd _ hmem) hnb
  subst he
  obtain ⟨expired, hwalk⟩ := hv.walk
  rw [hw'] at hwalk
  cases hwalk
  refine ⟨rfl, htl, ?_⟩
  intro k v
  constructor
  · intro hmem
    have hlt : p < k := hhd _ hmem
    obtain ⟨hk, -, hb⟩ := (h.mem k v).mp (List.mem_cons_of_mem _ hmem)
    have hk' := hv.kept k v (ne_of_gt hlt) hk
    refine ⟨hk', ?_, hb⟩
    rw [SortedMap.before_next hk']
    exact not_le_of_gt hlt
  · rintro ⟨hk', hnb, hb⟩
    have hlt : p < k := by
      rw [SortedMap.before_next hk'] at hnb
      exact not_le.mp hnb
    rcases hv.only k v (ne_of_gt hlt) hk' with hk | ⟨a, ha, hwhen, hid⟩
    · have hmem : (k, v) ∈ (p, some t) :: nodes := by
        refine (h.mem k v).mpr ⟨hk, ?_, hb⟩
        rw [hp]
        exact not_lt_of_gt hlt
      rcases List.mem_cons.mp hmem with heq | hmem
      · cases heq
        exact absurd hlt (lt_irrefl _)
      · exact hmem
    · rcases (hoff a ha k.time hwhen).lands hq.sound hw hid with hback | hnot
      · rw [hkey] at hback
        exact absurd hlt (not_lt_of_gt hback)
      · exact absurd hb hnot

/-- **The loop ends** after one visit to each node ahead.  By induction on the nodes: each visit
uses up one, and what it adds lies off the way. -/
theorem walkOn_ends (callbacks : Timer → List Act) (nodes : List (TimerID × Option Timer)) :
    ∀ {q : State} {w : Walk}, Walkable q → q.walk = some w → w.running = false → Ahead q w nodes →
      (∀ e ∈ nodes, ∀ t ∈ e.2, ∀ a ∈ callbacks t, ∀ when ∈ a.added, OffTheWay w.iter t when) →
      ∃ q' fs, q.walkOn callbacks (nodes.length + 1) = some q' ∧ q'.fired = q.fired ++ fs ∧
        fs.map (fun f => f.timer.key) = nodes.map Prod.fst := by
  induction nodes with
  | nil =>
    intro q w hq hw hr h hoff
    have hi : w.ptr = w.iter := by
      by_contra hi
      obtain ⟨p, t, -, hp, ht, -, -, -⟩ := visit_total callbacks hq hw hr hi
      have hmem := (h.mem p (some t)).mpr
        ⟨ht, by rw [hp]; exact lt_irrefl _, hq.sound.ptr_before hw hp hi⟩
      cases hmem
    obtain ⟨q', hfin, hfired⟩ := finish_total hq hw hr hi
    exact ⟨q', [], by simp [State.walkOn, hw, hi, hfin], by simp [hfired], rfl⟩
  | cons e nodes ih =>
    intro q w hq hw hr h hoff
    have hi : w.ptr ≠ w.iter := by
      intro hi
      obtain ⟨-, hnb, hb⟩ := (h.mem e.1 e.2).mp (List.mem_cons_self ..)
      rw [hi] at hnb
      exact hnb hb
    obtain ⟨p, t, q₁, hp, ht, hkey, hvisit, hv⟩ := visit_total callbacks hq hw hr hi
    obtain ⟨expired, hw₁⟩ := hv.walk
    have hoff₀ : ∀ a ∈ callbacks t, ∀ when ∈ a.added, OffTheWay w.iter t when := by
      have hmem := (h.mem p (some t)).mpr
        ⟨ht, by rw [hp]; exact lt_irrefl _, hq.sound.ptr_before hw hp hi⟩
      exact hoff _ hmem t rfl
    obtain ⟨rfl, hahead⟩ := h.visited hq hw hp ht hkey hi hv hw₁ hoff₀
    obtain ⟨q', fs, hrun, hfired, hkeys⟩ := ih hv.walkable hw₁ rfl hahead
      fun e he => hoff e (List.mem_cons_of_mem _ he)
    refine ⟨q', ⟨t, w.now⟩ :: fs, ?_, ?_, ?_⟩
    · rw [List.length_cons, State.walkOn]
      simp only [hw, hi, if_false, hvisit, Option.bind_some]
      exact hrun
    · rw [hfired, hv.fired]
      simp
    · simp [hkeys, hkey]

/-! ## 5. Something is added on the way: it is visited too -/

/-- The node at `k` lies on the way, and is visited or still ahead; `fs` is what the round has
run so far. -/
structure Awaited (q : State) (w : Walk) (fs : List Firing) (k : TimerID) : Prop where
  there : ∃ v, q.timers.get? k = some v
  before : SortedMap.Before k w.iter
  visited : SortedMap.Before k w.ptr → ∃ f ∈ fs, f.timer.key = k

theorem Awaited.visit {acts : List Act} {q q' : State} {w w' : Walk} {fs : List Firing}
    {k p : TimerID} {t : Timer} (h : Awaited q w fs k) (hp : w.ptr = some p) (hkey : t.key = p)
    (hv : Visited acts q w p t q') (hw' : q'.walk = some w') :
    Awaited q' w' (fs ++ [⟨t, w.now⟩]) k := by
  obtain ⟨expired, hwalk⟩ := hv.walk
  rw [hw'] at hwalk
  cases hwalk
  obtain ⟨v, hk⟩ := h.there
  have hk' : ∃ v', q'.timers.get? k = some v' := by
    by_cases hkp : k = p
    · exact ⟨none, hkp ▸ hv.here⟩
    · exact ⟨v, hv.kept k v hkp hk⟩
  refine ⟨hk', h.before, ?_⟩
  obtain ⟨v', hk'⟩ := hk'
  intro hb
  rcases lt_or_eq_of_le ((SortedMap.before_next hk').mp hb) with hlt | rfl
  · obtain ⟨f, hf, hfk⟩ := h.visited (by rw [hp]; exact hlt)
    exact ⟨f, List.mem_append_left _ hf, hfk⟩
  · exact ⟨⟨t, w.now⟩, by simp, hkey⟩

/-- If the loop ends, every node on the way has been visited.  It ends at `iter`, and by then
everything before `iter` lies behind it. -/
theorem walkOn_visits (callbacks : Timer → List Act) (keys : List TimerID) (fuel : Nat) :
    ∀ {q q' : State} {w : Walk} {fs : List Firing}, Walkable q → q.walk = some w →
      w.running = false → (∀ k ∈ keys, Awaited q w fs k) → q.walkOn callbacks fuel = some q' →
      ∃ fs', q'.fired = q.fired ++ fs' ∧ ∀ k ∈ keys, ∃ f ∈ fs ++ fs', f.timer.key = k := by
  induction fuel with
  | zero =>
    intro q q' w fs hq hw hr hk h
    cases h
  | succ fuel ih =>
    intro q q' w fs hq hw hr hk h
    by_cases hi : w.ptr = w.iter
    · obtain ⟨q₁, hfin, hfired⟩ := finish_total hq hw hr hi
      simp only [State.walkOn, hw, hi, if_true, hfin] at h
      cases h
      refine ⟨[], by simp [hfired], ?_⟩
      intro k hkm
      rw [List.append_nil]
      exact (hk k hkm).visited (hi ▸ (hk k hkm).before)
    · obtain ⟨p, t, q₁, hp, -, hkey, hvisit, hv⟩ := visit_total callbacks hq hw hr hi
      obtain ⟨expired, hw₁⟩ := hv.walk
      simp only [State.walkOn, hw, hi, if_false, hvisit, Option.bind_some] at h
      obtain ⟨fs', hfired, hall⟩ := ih hv.walkable hw₁ rfl
        (fun k hkm => (hk k hkm).visit hp hkey hv hw₁) h
      refine ⟨⟨t, w.now⟩ :: fs', by rw [hfired, hv.fired]; simp, ?_⟩
      simpa using hall

/-- A timer that the callback of a node ahead adds on the way is visited too.  It is awaited from
the visit on that adds it. -/
theorem walkOn_visits_added (callbacks : Timer → List Act) {t₀ : Timer} {a : Act}
    (ha : a ∈ callbacks t₀) {when : Int} (hwhen : when ∈ a.added) (keys : List TimerID)
    (fuel : Nat) :
    ∀ {q q' : State} {w : Walk} {fs : List Firing} (created : Nat), Walkable q →
      q.walk = some w → w.running = false → created ≤ q.created →
      (∀ k ∈ keys, Awaited q w fs k) → q.timers.get? t₀.key = some (some t₀) →
      ¬ SortedMap.Before t₀.key w.ptr → SortedMap.Before t₀.key w.iter →
      ¬ OffTheWay w.iter t₀ when → q.walkOn callbacks fuel = some q' →
      ∃ k₁ fs', created ≤ TimerID.id k₁ ∧ q'.fired = q.fired ++ fs' ∧
        ∀ k ∈ k₁ :: keys, ∃ f ∈ fs ++ fs', f.timer.key = k := by
  induction fuel with
  | zero =>
    intro q q' w fs created hq hw hr hc hk h₀ hnb hb hon h
    cases h
  | succ fuel ih =>
    intro q q' w fs created hq hw hr hc hk h₀ hnb hb hon h
    have hi : w.ptr ≠ w.iter := fun hi => hnb (hi ▸ hb)
    obtain ⟨p, t, q₁, hp, ht, hkey, hvisit, hv⟩ := visit_total callbacks hq hw hr hi
    obtain ⟨expired, hw₁⟩ := hv.walk
    have hk₁ : ∀ k ∈ keys, Awaited q₁ _ (fs ++ [⟨t, w.now⟩]) k :=
      fun k hkm => (hk k hkm).visit hp hkey hv hw₁
    simp only [State.walkOn, hw, hi, if_false, hvisit, Option.bind_some] at h
    by_cases hhere : t₀.key = p
    · -- the callback of `t₀` is run now, and its timer lies between `ptr` and `iter`
      rw [hhere, ht] at h₀
      cases h₀
      obtain ⟨k₁, v, hkv, htime, hid⟩ := hv.added a ha when hwhen
      obtain ⟨hge, hni⟩ := not_or.mp hon
      have hold : p.id < q.created := hq.sound.fresh p _ ht
      have hlt : p < k₁ := by
        rw [TimerID.lt_iff, htime, ← hkey, key_time]
        rcases lt_or_eq_of_le (not_lt.mp hge) with hlt | heq
        · exact .inl hlt
        · exact .inr ⟨heq, by rw [hkey]; exact lt_of_lt_of_le hold hid⟩
      have hbk : SortedMap.Before k₁ w.iter := by
        cases hit : w.iter with
        | none => trivial
        | some i =>
          have hlt' : when < i.time := not_le.mp fun hle => hni ⟨i, hit, hle⟩
          exact TimerID.lt_iff.mpr (.inl (htime ▸ hlt'))
      have hnew : Awaited q₁ ⟨w.now, w.iter, q₁.timers.next p, false, expired⟩
          (fs ++ [⟨t₀, w.now⟩]) k₁ := by
        refine ⟨⟨v, hkv⟩, hbk, fun hb' => ?_⟩
        exact absurd ((SortedMap.before_next hkv).mp hb') (not_le_of_gt hlt)
      obtain ⟨fs', hfired, hall⟩ := walkOn_visits callbacks (k₁ :: keys) fuel hv.walkable hw₁ rfl
        (List.forall_mem_cons.mpr ⟨hnew, hk₁⟩) h
      refine ⟨k₁, ⟨t₀, w.now⟩ :: fs', le_trans hc hid, by rw [hfired, hv.fired]; simp, ?_⟩
      simpa using hall
    · have h₁ := hv.kept _ _ hhere h₀
      have hnb₁ : ¬ SortedMap.Before t₀.key (q₁.timers.next p) := by
        rw [SortedMap.before_next h₁]
        intro hle
        rw [hp] at hnb
        exact hnb (lt_of_le_of_ne hle hhere)
      obtain ⟨k₁, fs', hid, hfired, hall⟩ := ih created hv.walkable hw₁ rfl
        (le_trans hc hv.created) hk₁ h₁ hnb₁ hb hon h
      refine ⟨k₁, ⟨t, w.now⟩ :: fs', hid, by rw [hfired, hv.fired]; simp, ?_⟩
      simpa using hall

/-! ## 6. When a round is finite -/

/-- The state of the loop before its first test. -/
def State.entered (q : State) : Walk :=
  ⟨q.clock, q.timers.lowerBound (toLex (q.clock, 2 ^ 64 - 1)), q.timers.begin?, false, []⟩

theorem handleRead_total {q : State} (hw : q.walk = none) :
    ∃ q₁, q.step .handleRead = some q₁ ∧ q₁.walk = some q.entered ∧ q₁.timers = q.timers ∧
      q₁.fired = q.fired ∧ q₁.created = q.created := by
  refine ⟨q.handleRead, by simp only [State.step, hw], ?_⟩
  simp only [State.handleRead, State.readTimerFd]
  split
  · exact ⟨rfl, rfl, rfl, rfl⟩
  · exact ⟨rfl, rfl, rfl, rfl⟩

/-- `iter` stands behind exactly the due nodes; the ids are 64-bit numbers, and `lower_bound` is
asked for the largest. -/
theorem before_iter_iff {q : State} (hs : Sound q) (hid : q.created < 2 ^ 64) {k : TimerID}
    {v : Option Timer} (hk : q.timers.get? k = some v) :
    SortedMap.Before k q.entered.iter ↔ k.time ≤ q.clock := by
  constructor
  · exact due_of_before_lowerBound hk
  · intro hle
    have hold := hs.fresh k v hk
    have hlt : k < toLex (q.clock, 2 ^ 64 - 1) := by
      refine TimerID.lt_iff.mpr ?_
      rcases lt_or_eq_of_le hle with hlt | heq
      · exact .inl hlt
      · refine .inr ⟨heq, ?_⟩
        change k.id < 2 ^ 64 - 1
        omega
    cases hi : q.entered.iter with
    | none => trivial
    | some i => exact lt_of_lt_of_le hlt (SortedMap.lowerBound_eq_some.mp hi).2.1

/-- `iter` is the first pending timer that is not due. -/
theorem iter_le_iff {q : State} (hs : Sound q) (hid : q.created < 2 ^ 64) (when : Int) :
    (∃ i, q.entered.iter = some i ∧ i.time ≤ when) ↔
      ∃ e ∈ q.timers.entries, q.clock < e.1.time ∧ e.1.time ≤ when := by
  constructor
  · rintro ⟨i, hi, hle⟩
    obtain ⟨⟨v, hv⟩, -, -⟩ := SortedMap.lowerBound_eq_some.mp hi
    refine ⟨(i, v), SortedMap.get?_eq_some.mp hv, ?_, hle⟩
    by_contra hdue
    have hb := (before_iter_iff hs hid hv).mpr (not_lt.mp hdue)
    rw [hi] at hb
    exact absurd hb (lt_irrefl _)
  · rintro ⟨e, he, hlt, hle⟩
    have hv : q.timers.get? e.1 = some e.2 := SortedMap.get?_eq_some.mpr he
    have hnb : ¬ SortedMap.Before e.1 q.entered.iter :=
      fun hb => absurd (due_of_before_lowerBound hv hb) (not_le_of_gt hlt)
    cases hi : q.entered.iter with
    | none => rw [hi] at hnb; exact absurd trivial hnb
    | some i =>
      rw [hi] at hnb
      exact ⟨i, rfl, le_trans (TimerID.time_le (not_lt.mp hnb)) hle⟩

/-- Everything due is ahead when the loop is entered. -/
theorem ahead_entered {q q₁ : State} (hs : Sound q) (hid : q.created < 2 ^ 64)
    (htimers : q₁.timers = q.timers) : Ahead q₁ q.entered q.due := by
  refine ⟨q.timers.sorted.filter _, ?_⟩
  intro k v
  rw [State.due, List.mem_filter, decide_eq_true_eq, htimers, ← SortedMap.get?_eq_some]
  constructor
  · rintro ⟨hk, hdue⟩
    refine ⟨hk, ?_, (before_iter_iff hs hid hk).mpr hdue⟩
    change ¬ SortedMap.Before k q.timers.begin?
    cases hb : q.timers.begin? with
    | none => exact absurd hk (SortedMap.begin?_eq_none.mp hb k v)
    | some b => exact not_lt_of_ge ((SortedMap.begin?_eq_some.mp hb).2 k v hk)
  · rintro ⟨hk, -, hb⟩
    exact ⟨hk, (before_iter_iff hs hid hk).mp hb⟩

variable {callbacks : Timer → List Act} {q : State}

/-- What is off the way keeps the round finite: `walkOn_ends`, with the nodes that are due at its
entry. -/
theorem finite_of_offTheWay (hq : Walkable q) (hw : q.walk = none) (hid : q.created < 2 ^ 64)
    (h : AddsOffTheWay callbacks q) : FiniteRound callbacks q := by
  obtain ⟨q₁, hread, hw₁, htimers, hfired₁, -⟩ := handleRead_total hw
  have hahead : Ahead q₁ q.entered q.due := ahead_entered hq.sound hid htimers
  obtain ⟨q', fs, hrun, hfired, hkeys⟩ := walkOn_ends callbacks q.due
    (step_walkable hq hread) hw₁ rfl hahead fun e he t ht a ha when hwhen =>
      (h e he t ht a ha when hwhen).imp_right (iter_le_iff hq.sound hid when).mpr
  refine ⟨q.due.length + 1, q', fs, ?_, by rw [hfired, hfired₁], ?_, ?_⟩
  · rw [State.round, hread, Option.bind_some, hrun]
  · have hlen := congrArg List.length hkeys
    simp only [List.length_map] at hlen
    exact le_of_eq hlen
  · rw [hkeys]
    exact (List.pairwise_map.mpr hahead.sorted).imp le_of_lt

/-- A finite round visits no more than was due, so nothing can have been added on the way.  It
would have been visited on top of all that was due, and counted. -/
theorem offTheWay_of_finite (hq : Walkable q) (hw : q.walk = none) (hid : q.created < 2 ^ 64)
    (h : FiniteRound callbacks q) : AddsOffTheWay callbacks q := by
  intro e he t ht a ha when hwhen
  by_contra hon
  obtain ⟨fuel, q', fs, hround, hfs, hlen, -⟩ := h
  obtain ⟨q₁, hread, hw₁, htimers, hfired₁, hcreated⟩ := handleRead_total hw
  rw [State.round, hread, Option.bind_some] at hround
  have hq₁ := step_walkable hq hread
  have hahead : Ahead q₁ q.entered q.due := ahead_entered hq.sound hid htimers
  have hawait : ∀ k ∈ q.due.map Prod.fst, Awaited q₁ q.entered [] k := by
    intro k hk
    obtain ⟨e', he', rfl⟩ := List.mem_map.mp hk
    obtain ⟨hget, hnb, hb⟩ := (hahead.mem e'.1 e'.2).mp he'
    exact ⟨⟨e'.2, hget⟩, hb, fun hptr => absurd hptr hnb⟩
  obtain ⟨hget, hnb, hb⟩ := (hahead.mem e.1 e.2).mp he
  rw [show e.2 = some t from ht] at hget
  have hkey : e.1 = t.key := hq₁.sound.keyed e.1 t hget
  rw [hkey] at hget hnb hb
  have hon' : ¬ OffTheWay q.entered.iter t when := by
    intro hoff
    exact hon (hoff.imp_right (iter_le_iff hq.sound hid when).mp)
  obtain ⟨k₁, fs', hnew, hfired, hall⟩ := walkOn_visits_added callbacks ha hwhen
    (q.due.map Prod.fst) fuel q.created hq₁ hw₁ rfl (ge_of_eq hcreated) hawait hget hnb hb hon'
    hround
  have heq : fs' = fs := by
    rw [hfired₁, hfs] at hfired
    exact (List.append_cancel_left hfired).symm
  subst heq
  -- the due nodes and the new one are all among what was run
  have hold : ∀ k ∈ q.due.map Prod.fst, TimerID.id k < q.created := by
    intro k hk
    obtain ⟨e', he', rfl⟩ := List.mem_map.mp hk
    exact hq.sound.fresh e'.1 e'.2 (SortedMap.get?_eq_some.mpr (List.mem_filter.mp he').1)
  have hnodup : (k₁ :: q.due.map Prod.fst).Nodup := by
    refine List.nodup_cons.mpr ⟨fun hmem => ?_, ?_⟩
    · exact absurd (hold k₁ hmem) (not_lt_of_ge hnew)
    · exact (List.pairwise_map.mpr hahead.sorted).imp ne_of_lt
  have hsub : k₁ :: q.due.map Prod.fst ⊆ fs'.map fun f => f.timer.key := by
    intro k hk
    obtain ⟨f, hf, hfk⟩ := hall k hk
    exact List.mem_map.mpr ⟨f, by simpa using hf, hfk⟩
  have hle := (List.subperm_of_subset hnodup hsub).length_le
  simp only [List.length_cons, List.length_map] at hle
  omega

/-- **When a timer round is finite.**  From every state the queue can reach outside `handle_read`,
and for every assignment of callbacks, one invocation of `handle_read` ends, having run at most as
many callbacks as timers were due at its entry and in the order of their keys, if and only if each
timer that the callback of a due timer adds expires before that timer, or no earlier than some
pending timer that is not due. -/
theorem round_finite_iff (clock : Int) (callbacks : Timer → List Act) (q : State)
    (h : Reach State.step anyStep (.init clock) q) (hw : q.walk = none)
    (hid : q.created < 2 ^ 64) : FiniteRound callbacks q ↔ AddsOffTheWay callbacks q :=
  ⟨offTheWay_of_finite (reach_walkable h) hw hid, finite_of_offTheWay (reach_walkable h) hw hid⟩

/-- Timers at 10, 12 and 50, at 20; the first callback adds one for 5, the second one for 60. -/
def mixedCallbacks : Timer → List Act
  | ⟨1, _, _, _⟩ => [.elapse 3, .addTimer 5 once]
  | ⟨2, _, _, _⟩ => [.cancel 1, .addTimer 60 ⟨true, 5⟩]
  | _ => []

theorem round_finite_iff_mixedCallbacks : ∃ q, Reach State.step anyStep (.init 0) q ∧
    AddsOffTheWay mixedCallbacks q ∧ FiniteRound mixedCallbacks q := by
  have hrun : ∃ q, Reach State.step anyStep (.init 0) q ∧
      (q.walk.isNone = true ∧ q.created < 2 ^ 64 ∧ AddsOffTheWay mixedCallbacks q) :=
    Reach.exists_of_exec [.addTimer 10 once, .addTimer 12 ⟨true, 7⟩, .addTimer 50 once, .tick 20] _
      (meets_any _ _) (by decide +kernel)
  obtain ⟨q, h, hw, hid, hoff⟩ := hrun
  exact ⟨q, h, hoff, (round_finite_iff 0 mixedCallbacks q h (Option.isNone_iff_eq_none.mp hw)
    hid).mpr hoff⟩

/-- With `iter` at the end, a callback that adds a timer for a later time always leaves one more
node to visit.  By induction on the fuel, which runs out however much there is. -/
theorem walkOn_retry (late : Int) (fuel : Nat) : ∀ {q : State} {w : Walk} {p : TimerID}, Walkable q →
    q.walk = some w → w.running = false → w.iter = none → w.ptr = some p → p.time ≤ late →
    q.walkOn (fun _ => [.addTimer late once]) fuel = none := by
  induction fuel with
  | zero => intros; rfl
  | succ fuel ih =>
    intro q w p hq hw hr hit hp hle
    have hi : w.ptr ≠ w.iter := by simp [hp, hit]
    obtain ⟨p', t, q₁, hp', ht, -, hvisit, hv⟩ :=
      visit_total (fun _ => [.addTimer late once]) hq hw hr hi
    rw [hp] at hp'
    cases hp'
    obtain ⟨expired, hw₁⟩ := hv.walk
    obtain ⟨k, v, hk, htime, hid⟩ := hv.added (.addTimer late once) (by simp) late rfl
    have hlt : p < k := by
      have hold := hq.sound.fresh p _ ht
      rw [TimerID.lt_iff, htime]
      rcases lt_or_eq_of_le hle with hlt | heq
      · exact .inl hlt
      · exact .inr ⟨heq, lt_of_lt_of_le hold hid⟩
    simp only [State.walkOn, hw, hi, if_false, hvisit, Option.bind_some]
    cases hn : q₁.timers.next p with
    | none => exact absurd hlt (not_lt_of_ge (SortedMap.next_eq_none.mp hn k v hk))
    | some p₁ =>
      rw [hn] at hw₁
      refine ih hv.walkable hw₁ rfl hit rfl ?_
      rw [← htime]
      exact TimerID.time_le ((SortedMap.next_eq_some.mp hn).2.2 k v hk hlt)

/-- **A retry that never ends.**  At 10 the only timer is due, and its callback, like `retry` of a
`Connector`, has itself run again a microsecond later: `handle_read` never returns. -/
theorem retry_never_ends : ∃ q, Reach State.step anyStep (.init 0) q ∧ q.walk = none ∧
    q.created < 2 ^ 64 ∧ (∀ fuel, q.round (fun _ => [.addTimer 1010 once]) fuel = none) ∧
    ¬ FiniteRound (fun _ => [.addTimer 1010 once]) q := by
  have hrun : ∃ q, Reach State.step anyStep (.init 0) q ∧ (q.walk.isNone = true ∧
      q.created < 2 ^ 64 ∧ q.entered.iter = none ∧ q.entered.ptr = some (toLex (10, 1))) :=
    Reach.exists_of_exec [.addTimer 10 once, .tick 10] _ (meets_any _ _) (by decide +kernel)
  obtain ⟨q, h, hw, hid, hi, hp⟩ := hrun
  have hidle : q.walk = none := Option.isNone_iff_eq_none.mp hw
  have hnever : ∀ fuel, q.round (fun _ => [.addTimer 1010 once]) fuel = none := by
    intro fuel
    obtain ⟨q₁, hread, hw₁, -⟩ := handleRead_total hidle
    rw [State.round, hread, Option.bind_some]
    exact walkOn_retry 1010 fuel (step_walkable (reach_walkable h) hread) hw₁ rfl hi hp (by decide)
  refine ⟨q, h, hidle, hid, hnever, ?_⟩
  rintro ⟨fuel, q', fs, hround, -⟩
  rw [hnever fuel] at hround
  cases hround

end Suduo.TimerQueue
