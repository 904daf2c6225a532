/-
# A cancelled timer stays cancelled

`cancel` queues `cancel_in_loop`, which by the time it runs finds the timer pending, put back by
`reset`, already fired, or gone.  Whatever it finds, afterwards no node of `_timers` holds the timer
and no `handle_read` holds it in `expired` (`Gone`), and nothing ever brings an id back.

What `cancel_in_loop` looks at is the entry in `_active_timers`.  Two facts hold of the entries in
every run, whatever callbacks do: a timer in the map has an entry that refers to its node, and an
entry refers to a node of its own id (`Entries`).  The converse of the first fails after a callback
has added a timer in front of itself: the range erase destroyed the node and the entry dangles.
Then `cancel_in_loop` reads a destroyed `unique_ptr`, and that is the only way it can go wrong.
-/
import Suduo.Net.TimerKept
import Suduo.Net.TimerRound

namespace Suduo.TimerQueue

open Lib

/-! ## 1. Entries -/

/-- What holds of `_active_timers` in every run, with `ts` the expired timers still to be put
back or dropped.  It is half of an agreement between the maps, and the half that survives any
callback. -/
structure Entries (q : State) (ts : List Timer) : Prop where
  /-- A timer in the map has an entry that refers to its node. -/
  entry : ∀ k t, q.timers.get? k = some (some t) → q.activeTimers.get? t.id = some k
  /-- An entry refers to a node of its own id. -/
  named : ∀ id k, q.activeTimers.get? id = some k → TimerID.id k = id
  old : ∀ id k, q.activeTimers.get? id = some k → id < q.created
  heldIds : (ts.map Timer.id).Nodup
  heldGone : ∀ t ∈ ts, q.activeTimers.get? t.id = none

variable {q q' q'' : State} {ts : List Timer} {t : Timer}

/-- Two nodes never hold one timer.  Its one entry refers to both. -/
theorem Entries.node_eq (h : Entries q ts) {j k : TimerID} {u : Timer}
    (hj : q.timers.get? j = some (some t)) (hk : q.timers.get? k = some (some u))
    (hid : t.id = u.id) : j = k := by
  have hentry := h.entry j t hj
  rw [hid, h.entry k u hk] at hentry
  exact (Option.some.inj hentry).symm

/-- A timer with no entry goes into a new node, and its entry refers to it.  New timers come this
way, and those that `reset` puts back. -/
theorem Entries.insert (h : Entries q ts) {n : Nat} (hn : q.created ≤ n) {added : List Timer}
    {kernel : Kernel} {failed : List Assertion} {entry : Timer}
    (hactive : q.activeTimers.get? t.id = none) (hkey : q.timers.get? t.key = none)
    (hold : t.id < n) (hts : ∀ u ∈ ts, u.id ≠ t.id)
    (he : (q.timers.insert t.key (some t)).get? t.key = some (some entry)) :
    Entries { q with created := n, added := added, toKernel := kernel,
                     timers := q.timers.insert t.key (some t),
                     activeTimers := q.activeTimers.insert entry.id t.key, failed := failed } ts := by
  obtain rfl := insert_entry hkey he
  refine ⟨?_, ?_, ?_, h.heldIds, ?_⟩
  · intro k u hu
    rw [SortedMap.get?_insert hactive]
    rcases SortedMap.get?_insert_cases hu with hu | ⟨rfl, heq⟩
    · have hentry := h.entry k u hu
      have hne : u.id ≠ entry.id := by
        intro hid
        rw [hid, hactive] at hentry
        cases hentry
      rw [if_neg hne, hentry]
    · cases heq
      rw [if_pos rfl]
  · intro id k hk
    rw [SortedMap.get?_insert hactive] at hk
    split at hk
    · rename_i hid
      cases hk
      rw [hid, key_id]
    · exact h.named id k hk
  · intro id k hk
    rw [SortedMap.get?_insert hactive] at hk
    split at hk
    · rename_i hid
      exact hid ▸ hold
    · exact lt_of_lt_of_le (h.old id k hk) hn
  · intro u hu
    rw [SortedMap.get?_insert hactive, if_neg (hts u hu)]
    exact h.heldGone u hu

/-- Fewer nodes keep it.  An entry may then refer to a node that is gone, which nothing here
denies. -/
theorem Entries.shrink (h : Entries q ts) {timers : SortedMap TimerID (Option Timer)}
    (hsub : ∀ k v, timers.get? k = some v → q.timers.get? k = some v) (q₁ : State)
    (hq : q₁.timers = timers) (ha : q₁.activeTimers = q.activeTimers)
    (hc : q₁.created = q.created) : Entries q₁ ts := by
  subst hq
  refine ⟨?_, ?_, ?_, h.heldIds, ?_⟩
  · exact fun k t ht => ha ▸ h.entry k t (hsub k _ ht)
  · exact fun id k hk => h.named id k (ha ▸ hk)
  · exact fun id k hk => hc ▸ h.old id k (ha ▸ hk)
  · exact fun t ht => ha ▸ h.heldGone t ht

/-- A timer's entry is taken away, and its node emptied or erased.  The callback that has
returned does the one, `cancel_in_loop` the other. -/
theorem Entries.remove (h : Entries q ts) {node : TimerID}
    (hn : q.timers.get? node = some (some t)) (q₁ : State)
    (hsub : ∀ k u, q₁.timers.get? k = some (some u) → k ≠ node ∧ q.timers.get? k = some (some u))
    (ha : q₁.activeTimers = q.activeTimers.erase t.id) (hc : q₁.created = q.created) :
    Entries q₁ ts ∧ q₁.activeTimers.get? t.id = none := by
  refine ⟨⟨?_, ?_, ?_, h.heldIds, ?_⟩, ?_⟩
  · intro k u hu
    obtain ⟨hne, hu⟩ := hsub k u hu
    have hid : u.id ≠ t.id := fun hid => hne (h.node_eq hu hn hid)
    rw [ha, SortedMap.get?_erase, if_neg hid]
    exact h.entry k u hu
  · intro id k hk
    rw [ha] at hk
    exact h.named id k (SortedMap.get?_of_get?_erase hk)
  · intro id k hk
    rw [ha] at hk
    rw [hc]
    exact h.old id k (SortedMap.get?_of_get?_erase hk)
  · intro u hu
    rw [ha, SortedMap.get?_erase, h.heldGone u hu, ite_self]
  · rw [ha, SortedMap.get?_erase, if_pos rfl]

/-- The loop of `reset` puts a timer back under its old id.  Its entry was taken away when its
callback returned, so the new one is the only one. -/
theorem resetOne_entries {now : Int} (h : Entries q (t :: ts)) (hs : Sound q)
    (hfull : ∀ k, q.timers.get? k ≠ some none) (hold : t.id < q.created)
    (hst : State.resetOne now q t = some q') : Entries q' ts := by
  obtain ⟨hnotin, hnodup⟩ := List.nodup_cons.mp h.heldIds
  have hdrop : Entries q ts :=
    ⟨h.entry, h.named, h.old, hnodup, fun u hu => h.heldGone u (List.mem_cons_of_mem _ hu)⟩
  rcases resetOne_cases hst with ⟨rfl, -⟩ | ⟨-, entry, failed, he, rfl⟩
  · exact hdrop
  · have hactive : q.activeTimers.get? (t.restart now).id = none :=
      h.heldGone t (List.mem_cons_self ..)
    have hkey : q.timers.get? (t.restart now).key = none := by
      refine SortedMap.get?_eq_none.mpr fun v hv => ?_
      cases v with
      | none => exact hfull _ hv
      | some u =>
        have hid : u.id = (t.restart now).id := by
          rw [← key_id u, ← hs.keyed _ u hv, key_id]
        have hentry := h.entry _ u hv
        rw [hid, hactive] at hentry
        cases hentry
    refine hdrop.insert (le_refl _) hactive hkey hold ?_ he
    intro u hu hid
    exact hnotin (List.mem_map.mpr ⟨u, hu, hid⟩)

theorem finish_entries {w : Walk} (h : Entries q w.expired) (hq : Walkable q)
    (hw : q.walk = some w) (hi : w.ptr = w.iter)
    (hr : w.expired.foldlM (State.resetOne w.now) (q.eraseExpired w) = some q') :
    Entries q' [] ∧ q'.walk = none ∧ q'.created = q.created ∧ q'.added = q.added := by
  have hI := foldlM_consume (f := State.resetOne w.now)
    (I := fun ts s => (Entries s ts ∧ s.walk = none ∧ s.created = q.created ∧ s.added = q.added) ∧
      Sound s ∧ (∀ k, s.timers.get? k ≠ some none) ∧ ∀ t ∈ ts, t.id < s.created)
    ?_ w.expired (q.eraseExpired w) q' ?_ hr
  · exact hI.1
  · rintro t ts s s' ⟨⟨he, hidle, hkept⟩, hs, hfull, hold⟩ hst
    have hone : [t].foldlM (State.resetOne w.now) s = some s' := by
      rw [List.foldlM_cons, hst]
      rfl
    have ht : t.id < s.created := hold t (List.mem_cons_self ..)
    have hts : ∀ u ∈ ts, u.id < s.created := fun u hu => hold u (List.mem_cons_of_mem _ hu)
    obtain ⟨hs', hidle', -⟩ := reset_sound hs hidle (by simpa using ht) hone
    have he' := resetOne_entries he hs hfull ht hst
    have hfull' := reset_full hfull hone
    rcases resetOne_cases hst with ⟨rfl, -⟩ | ⟨-, entry, failed, -, rfl⟩
    · exact ⟨⟨he', hidle', hkept⟩, hs', hfull', hts⟩
    · exact ⟨⟨he', hidle', hkept⟩, hs', hfull', hts⟩
  · refine ⟨⟨?_, rfl, rfl, rfl⟩, hq.sound.eraseExpired w, hq.null.eraseExpired hw hi,
      hq.sound.expired w hw⟩
    exact h.shrink (fun k v hv => (SortedMap.get?_of_get?_eraseBefore hv).1) _ rfl rfl rfl

/-- What every step keeps, whatever callbacks do.  Besides the entries it has what makes a round
go through (`Suduo.Net.TimerRound`). -/
structure Entered (q : State) : Prop where
  walkable : Walkable q
  entries : Entries q (held q)
  addedOld : ∀ a ∈ q.added, a.id < q.created

theorem entered_init (clock : Int) : Entered (.init clock) := by
  refine ⟨reach_walkable .refl, ⟨?_, ?_, ?_, ?_, ?_⟩, ?_⟩
  all_goals simp [State.init, held]

theorem Entered.held_old (h : Entered q) (ht : t ∈ held q) : t.id < q.created := by
  cases hw : q.walk with
  | none =>
    rw [held_idle hw] at ht
    cases ht
  | some w =>
    rw [held_walk hw] at ht
    exact h.walkable.sound.expired w hw t ht

/-- `cancel_in_loop` looks the timer up by the very key its entry refers to.  It builds that key
from the timer's own expiration and the id it was given, and the two are those of the node. -/
theorem Entered.cancel_key (h : Entered q) {id : Nat} {node : TimerID}
    (hn : q.activeTimers.get? id = some node) (ht : q.timers.get? node = some (some t)) :
    t.id = id ∧ (toLex (t.expertionTime, id) : TimerID) = node := by
  have hkey : node = t.key := h.walkable.sound.keyed node t ht
  have hid : t.id = id := by rw [← h.entries.named id node hn, hkey, key_id]
  refine ⟨hid, ?_⟩
  rw [hkey, ← hid]
  rfl

/-- Every step keeps the entries.  Callbacks only add, and all that takes a node away takes its
entry as well, except for the range erase. -/
theorem step_entered {l : Label} (h : Entered q) (hst : q.step l = some q') : Entered q' := by
  have hw' := step_walkable h.walkable hst
  have he := h.entries
  have hs := h.walkable.sound
  cases step_inv hst with
  | tick ns | delay ns => exact ⟨hw', ⟨he.entry, he.named, he.old, he.heldIds, he.heldGone⟩, h.addedOld⟩
  | createdElsewhere =>
    exact ⟨hw', ⟨he.entry, he.named, fun id k hk => Nat.lt_succ_of_lt (he.old id k hk), he.heldIds,
      he.heldGone⟩, fun a ha => Nat.lt_succ_of_lt (h.addedOld a ha)⟩
  | addTimer when interval t entry failed kernel hu ht hentry =>
    have hid : t.id = q.created := by rw [ht]
    have hactive : q.activeTimers.get? t.id = none := by
      refine SortedMap.get?_eq_none.mpr fun k hk => ?_
      have hlt := he.old t.id k hk
      rw [hid] at hlt
      exact absurd hlt (lt_irrefl _)
    have hkey : q.timers.get? t.key = none := hs.new_key (by rw [key_id, hid])
    refine ⟨hw', he.insert (Nat.le_succ _) hactive hkey (by omega) ?_ hentry, ?_⟩
    · intro u hu
      have hlt := h.held_old hu
      omega
    · intro a ha
      change a.id < q.created + 1
      rcases List.mem_append.mp ha with ha | ha
      · exact Nat.lt_succ_of_lt (h.addedOld a ha)
      · rw [List.mem_singleton.mp ha, hid]
        exact Nat.lt_succ_self _
  | cancel timerId => exact ⟨hw', ⟨he.entry, he.named, he.old, he.heldIds, he.heldGone⟩, h.addedOld⟩
  | cancelFound timerId rest node t failed hw hn ht =>
    obtain ⟨rfl, hkey⟩ := h.cancel_key hn ht
    rw [held_idle hw] at he
    have he₁ := (he.remove ht
      { q with timers := q.timers.erase node, activeTimers := q.activeTimers.erase t.id } (by
        intro k u hu
        refine ⟨?_, SortedMap.get?_of_get?_erase hu⟩
        rintro rfl
        rw [SortedMap.get?_erase, if_pos rfl] at hu
        cases hu) rfl rfl).1
    refine ⟨hw', ?_, h.addedOld⟩
    rw [held_idle, hkey]
    · exact ⟨he₁.entry, he₁.named, he₁.old, he₁.heldIds, he₁.heldGone⟩
    · exact hw
  | cancelMissed timerId rest canceling failed hw hn =>
    exact ⟨hw', ⟨he.entry, he.named, he.old, he.heldIds, he.heldGone⟩, h.addedOld⟩
  | handleRead fd hw =>
    rw [held_idle hw] at he
    exact ⟨hw', ⟨he.entry, he.named, he.old, he.heldIds, he.heldGone⟩, h.addedOld⟩
  | runCallback w ptr t hw hr hi hp ht =>
    rw [held_walk hw] at he
    exact ⟨hw', ⟨he.entry, he.named, he.old, he.heldIds, he.heldGone⟩, h.addedOld⟩
  | callbackReturns w ptr t hw hr hp ht =>
    rw [held_walk hw] at he
    have hid : ptr.id = t.id := by rw [hs.keyed ptr t ht, key_id]
    rw [hid] at hw' ⊢
    obtain ⟨he₁, hgone⟩ := he.remove ht
      { q with activeTimers := q.activeTimers.erase t.id, timers := q.timers.set ptr none } (by
        intro k u hu
        rcases SortedMap.get?_set_cases hu with ⟨-, hnull⟩ | ⟨hne, hu⟩
        · cases hnull
        · exact ⟨hne, hu⟩) rfl rfl
    refine ⟨hw', ⟨he₁.entry, he₁.named, he₁.old, ?_, ?_⟩, h.addedOld⟩
    · change ((w.expired ++ [t]).map Timer.id).Nodup
      rw [List.map_append, List.nodup_append]
      refine ⟨he.heldIds, by simp, ?_⟩
      rintro _ hx _ hy rfl
      obtain ⟨u, hu, rfl⟩ := List.mem_map.mp hx
      simp only [List.map_cons, List.map_nil, List.mem_singleton] at hy
      -- a timer that is held has no entry, and this one still had one
      have hentry := he.entry ptr t ht
      rw [← hy, he.heldGone u hu] at hentry
      cases hentry
    · intro u hu
      rcases List.mem_append.mp hu with hu | hu
      · exact he₁.heldGone u hu
      · rw [List.mem_singleton.mp hu]
        exact hgone
  | finish w q₁ kernel hw hi hr =>
    rw [held_walk hw] at he
    obtain ⟨he₁, hidle, hcreated, hadded⟩ := finish_entries he h.walkable hw hi hr
    refine ⟨hw', ?_, ?_⟩
    · rw [held_idle]
      · exact ⟨he₁.entry, he₁.named, he₁.old, he₁.heldIds, he₁.heldGone⟩
      · exact hidle
    · intro a ha
      have hlt := h.addedOld a (hadded ▸ ha)
      exact hcreated ▸ hlt

theorem reach_entered {clock : Int} (h : Reach State.step anyStep (.init clock) q) : Entered q :=
  h.invariant (entered_init clock) fun _ _ _ hi _ hst => step_entered hi hst

/-! ## 2. A timer that is gone -/

/-- No node holds timer `id` and no `handle_read` is about to put it back.  These are the two
places from which a timer could be run again. -/
structure Gone (q : State) (id : Nat) : Prop where
  old : id < q.created
  node : ∀ k t, q.timers.get? k = some (some t) → t.id ≠ id
  held : ∀ t ∈ held q, t.id ≠ id

/-- The loop of `reset` puts back only what is held, and the range erase adds nothing. -/
theorem finish_gone {id : Nat} {w : Walk} (h : Gone q id) (hw : q.walk = some w)
    (hr : w.expired.foldlM (State.resetOne w.now) (q.eraseExpired w) = some q') :
    (id < q'.created ∧ q'.walk = none ∧ q'.fired = q.fired) ∧
      ∀ k t, q'.timers.get? k = some (some t) → t.id ≠ id := by
  have hheld : ∀ t ∈ w.expired, t.id ≠ id := by
    rw [← held_walk hw]
    exact h.held
  have hI := foldlM_consume (f := State.resetOne w.now)
    (I := fun ts s => ((id < s.created ∧ s.walk = none ∧ s.fired = q.fired) ∧
      ∀ k t, s.timers.get? k = some (some t) → t.id ≠ id) ∧ ∀ t ∈ ts, t.id ≠ id)
    ?_ w.expired (q.eraseExpired w) q' ⟨⟨⟨h.old, rfl, rfl⟩, ?_⟩, hheld⟩ hr
  · exact hI.1
  · rintro t ts s s' ⟨⟨hkept, hnode⟩, hts⟩ hst
    have hrest : ∀ u ∈ ts, u.id ≠ id := fun u hu => hts u (List.mem_cons_of_mem _ hu)
    rcases resetOne_cases hst with ⟨rfl, -⟩ | ⟨-, entry, failed, -, rfl⟩
    · exact ⟨⟨hkept, hnode⟩, hrest⟩
    · refine ⟨⟨hkept, ?_⟩, hrest⟩
      intro k u hu
      rcases SortedMap.get?_insert_cases hu with hu | ⟨-, heq⟩
      · exact hnode k u hu
      · cases heq
        exact hts t (List.mem_cons_self ..)
  · exact fun k t ht => h.node k t (SortedMap.get?_of_get?_eraseBefore ht).1

/-- A timer that is gone stays gone, and its callback is not run.  Ids are given out once, so no
new timer can have this one. -/
theorem step_gone {id : Nat} {l : Label} (h : Gone q id) (hst : q.step l = some q') :
    Gone q' id ∧ runs q' id = runs q id := by
  cases step_inv hst with
  | tick ns | delay ns => exact ⟨⟨h.old, h.node, h.held⟩, rfl⟩
  | createdElsewhere => exact ⟨⟨Nat.lt_succ_of_lt h.old, h.node, h.held⟩, rfl⟩
  | addTimer when interval t entry failed kernel hu ht he =>
    refine ⟨⟨Nat.lt_succ_of_lt h.old, ?_, h.held⟩, rfl⟩
    intro k u hu
    rcases SortedMap.get?_insert_cases hu with hu | ⟨-, heq⟩
    · exact h.node k u hu
    · -- ids are not given out twice
      cases heq
      have hold := h.old
      rw [ht]
      exact Nat.ne_of_gt hold
  | cancel timerId => exact ⟨⟨h.old, h.node, h.held⟩, rfl⟩
  | cancelFound timerId rest node t failed hw hn ht =>
    exact ⟨⟨h.old, fun k u hu => h.node k u (SortedMap.get?_of_get?_erase hu), h.held⟩, rfl⟩
  | cancelMissed timerId rest canceling failed hw hn => exact ⟨⟨h.old, h.node, h.held⟩, rfl⟩
  | handleRead fd hw =>
    refine ⟨⟨h.old, h.node, ?_⟩, rfl⟩
    intro t ht
    cases ht
  | runCallback w ptr t hw hr hi hp ht =>
    have hheld := h.held
    rw [held_walk hw] at hheld
    refine ⟨⟨h.old, h.node, hheld⟩, ?_⟩
    simp [runs, h.node ptr t ht]
  | callbackReturns w ptr t hw hr hp ht =>
    have hheld := h.held
    rw [held_walk hw] at hheld
    refine ⟨⟨h.old, ?_, ?_⟩, rfl⟩
    · intro k u hu
      rcases SortedMap.get?_set_cases hu with ⟨-, hnull⟩ | ⟨-, hu⟩
      · cases hnull
      · exact h.node k u hu
    · intro u hu
      rcases List.mem_append.mp hu with hu | hu
      · exact hheld u hu
      · rw [List.mem_singleton.mp hu]
        exact h.node ptr t ht
  | finish w q₁ kernel hw hi hr =>
    obtain ⟨⟨hold, hidle, hfired⟩, hnode⟩ := finish_gone h hw hr
    refine ⟨⟨hold, hnode, ?_⟩, by simp only [runs, hfired]⟩
    rw [held_idle]
    · simp
    · exact hidle

theorem gone_forever {id : Nat} (h : Gone q id) (hr : Reach State.step anyStep q q') :
    Gone q' id ∧ runs q' id = runs q id := by
  refine hr.invariant (I := fun s => Gone s id ∧ runs s id = runs q id) ⟨h, rfl⟩ ?_
  rintro s l s' ⟨hs, heq⟩ - hst
  obtain ⟨hs', heq'⟩ := step_gone hs hst
  exact ⟨hs', heq'.trans heq⟩

/-! ## 3. `cancel_in_loop` -/

/-- The entry of `id` refers to a node that is no longer in `_timers`.  In the code it is a
reference to a destroyed `unique_ptr`. -/
def Dangling (q : State) (id : Nat) : Prop :=
  ∃ k, q.activeTimers.get? id = some k ∧ q.timers.get? k = none

/-- Every timer but `id` is pending as before, under the same `expertion_time`, and its entry is
the same. -/
def OthersKept (id : Nat) (q q' : State) : Prop :=
  (∀ k t, t.id ≠ id → (q'.timers.get? k = some (some t) ↔ q.timers.get? k = some (some t))) ∧
    ∀ id', id' ≠ id → q'.activeTimers.get? id' = q.activeTimers.get? id'

/-- Outside `handle_read` a `cancel_in_loop` goes through unless it finds a dangling entry.  If
it finds no entry it does nothing, and if it finds a node, that node holds the timer. -/
theorem cancelInLoop_total (h : Entered q) (hw : q.walk = none) {id : Nat} {rest : List Nat}
    (hp : q.pendingFunctors = id :: rest) :
    (∃ q', q.step .cancelInLoop = some q') ↔ ¬ Dangling q id := by
  simp only [State.step, hw, hp, State.cancelInLoop, Option.bind_eq_bind, Dangling]
  cases hn : q.activeTimers.get? id with
  | none => simp
  | some node =>
    cases hv : q.timers.get? node with
    | none => simp [hv]
    | some v =>
      cases v with
      | none =>
        -- outside `handle_read` no node is empty
        obtain ⟨w, hw', -⟩ := h.walkable.null node hv
        rw [hw] at hw'
        cases hw'
      | some t => simp [hv]

/-- What `cancel_in_loop` leaves: the timer is gone, the others are as they were.  That holds
also where it found nothing, because then the timer was gone before. -/
theorem cancelInLoop_gone (h : Entered q) {id : Nat} {rest : List Nat}
    (hp : q.pendingFunctors = id :: rest) (hid : id < q.created)
    (hst : q.step .cancelInLoop = some q') :
    Gone q' id ∧ OthersKept id q q' ∧ runs q' id = runs q id := by
  have he := h.entries
  obtain ⟨id', rest', hw, hp', hcancel⟩ := step_cancelInLoop hst
  obtain ⟨rfl, rfl⟩ : id = id' ∧ rest = rest' := by simpa [hp] using hp'
  simp only [State.cancelInLoop, Option.bind_eq_bind] at hcancel
  split at hcancel
  · rename_i node hn
    split at hcancel
    · rename_i t ht
      obtain ⟨rfl, hkey⟩ := h.cancel_key hn ht
      cases hcancel
      refine ⟨⟨hid, ?_, ?_⟩, ⟨?_, ?_⟩, rfl⟩
      · intro k u hu huid
        simp only [hkey] at hu
        obtain rfl : k = node := he.node_eq (SortedMap.get?_of_get?_erase hu) ht huid
        rw [SortedMap.get?_erase, if_pos rfl] at hu
        cases hu
      · rw [held_idle]
        · simp
        · exact hw
      · intro k u hu
        simp only [hkey, SortedMap.get?_erase]
        split
        · rename_i hk
          -- the erased node held the cancelled timer and no other
          subst hk
          simp only [reduceCtorEq, false_iff]
          intro hk
          rw [ht] at hk
          cases hk
          exact hu rfl
        · exact Iff.rfl
      · intro id' hne
        simp only [SortedMap.get?_erase, if_neg hne]
    · cases hcancel
  · rename_i hn
    cases hcancel
    refine ⟨⟨hid, ?_, ?_⟩, ⟨fun _ _ _ => Iff.rfl, fun _ _ => rfl⟩, rfl⟩
    · intro k u hu huid
      have hentry := he.entry k u hu
      rw [huid, show q.activeTimers.get? id = none from hn] at hentry
      cases hentry
    · rw [held_idle]
      · simp
      · exact hw

/-- **A cancelled timer stays cancelled and nothing else changes, unless its entry dangles.**  In
every run of the queue, whatever callbacks add and wherever `cancel` was called, let the next
queued `cancel_in_loop` be for a timer that was added.  It goes through, leaves every other timer
pending as it was, and the timer is never pending nor run again, exactly when its entry in
`_active_timers`, if it has one, refers to a node that is still in `_timers`.  A timer is out of
reach of everything once it is gone, and that is shown for one step and carried along the run. -/
theorem cancel_final_iff (clock : Int) (q : State) (h : Reach State.step anyStep (.init clock) q)
    (hw : q.walk = none) (id : Nat) (rest : List Nat) (hp : q.pendingFunctors = id :: rest)
    (hid : ∃ a ∈ q.added, a.id = id) :
    (∃ q', q.step .cancelInLoop = some q' ∧ OthersKept id q q' ∧
      ∀ q'', Reach State.step anyStep q' q'' →
        runs q'' id = runs q id ∧ ∀ k t, q''.timers.get? k = some (some t) → t.id ≠ id) ↔
      ¬ Dangling q id := by
  have he := reach_entered h
  rw [← cancelInLoop_total he hw hp]
  constructor
  · rintro ⟨q', hst, -⟩
    exact ⟨q', hst⟩
  · rintro ⟨q', hst⟩
    obtain ⟨a, ha, rfl⟩ := hid
    obtain ⟨hgone, hothers, hruns⟩ := cancelInLoop_gone he hp (he.addedOld a ha) hst
    refine ⟨q', hst, hothers, fun q'' hr => ?_⟩
    obtain ⟨hgone', hruns'⟩ := gone_forever hgone hr
    exact ⟨hruns'.trans hruns, hgone'.node⟩

/-- A repeating timer cancels itself from its own callback, in a batch with a one-shot; when the
queued `cancel_in_loop` runs, `reset` has put the timer back. -/
def selfCancelled : List Label :=
  [.addTimer 10 ⟨true, 5⟩, .addTimer 12 ⟨false, 0⟩, .tick 20, .handleRead, .runCallback, .cancel 1,
    .callbackReturns, .runCallback, .callbackReturns, .finish]

theorem cancel_final_iff_selfCancelled : ∃ q, Reach State.step anyStep (.init 0) q ∧
    runs q 1 = 1 ∧ ∃ q', q.step .cancelInLoop = some q' ∧ OthersKept 1 q q' ∧
      ∀ q'', Reach State.step anyStep q' q'' →
        runs q'' 1 = runs q 1 ∧ ∀ k t, q''.timers.get? k = some (some t) → t.id ≠ 1 := by
  have hrun : ∃ q, Reach State.step anyStep (.init 0) q ∧ (q.walk.isNone ∧
      q.pendingFunctors = [1] ∧ (∃ a ∈ q.added, a.id = 1) ∧ runs q 1 = 1 ∧
      q.activeTimers.get? 1 = some (toLex (25, 1)) ∧ (q.timers.get? (toLex (25, 1))).isSome) :=
    Reach.exists_of_exec selfCancelled _ (meets_any _ _) (by decide +kernel)
  obtain ⟨q, h, hw, hp, hid, hran, hn, hv⟩ := hrun
  have hnot : ¬ Dangling q 1 := by
    rintro ⟨k, hk, hnone⟩
    rw [hn] at hk
    cases hk
    rw [hnone] at hv
    cases hv
  exact ⟨q, h, hran,
    (cancel_final_iff 0 q h (Option.isNone_iff_eq_none.mp hw) 1 [] hp hid).mpr hnot⟩

/-- **Cancelling a timer that was added behind the walk.**  At 10 the only timer's callback adds one
for 5 and cancels it.  The range erase destroys the new timer, its entry stays, and the queued
`cancel_in_loop` reads the destroyed `unique_ptr`. -/
theorem cancel_behind_walk : ∃ q, Reach State.step anyStep (.init 0) q ∧ q.walk = none ∧
    q.pendingFunctors = [2] ∧ (∃ a ∈ q.added, a.id = 2) ∧ q.step .cancelInLoop = none := by
  have hrun : ∃ q, Reach State.step anyStep (.init 0) q ∧ (q.walk.isNone ∧
      q.pendingFunctors = [2] ∧ (∃ a ∈ q.added, a.id = 2) ∧ (q.step .cancelInLoop).isNone) :=
    Reach.exists_of_exec [.addTimer 10 ⟨false, 0⟩, .tick 10, .handleRead, .runCallback,
      .addTimer 5 ⟨false, 0⟩, .cancel 2, .callbackReturns, .finish] _ (meets_any _ _)
      (by decide +kernel)
  obtain ⟨q, h, hw, hp, hid, hst⟩ := hrun
  exact ⟨q, h, Option.isNone_iff_eq_none.mp hw, hp, hid, Option.isNone_iff_eq_none.mp hst⟩

/-- Callbacks that add no timer in front of their own leave no entry dangling.  The account of
`TimerKept` has a node for each entry. -/
theorem not_dangling (clock : Int) (q : State) (h : Reach State.step AddsAhead (.init clock) q)
    (id : Nat) : ¬ Dangling q id := by
  have ht : Tracked q := h.invariant (tracked_init clock) fun _ _ _ hi hg hst => step_tracked hi hg hst
  rintro ⟨k, hk, hnone⟩
  obtain ⟨t, hv, -⟩ := (ht.kept.active id k).mp hk
  rw [hnone] at hv
  cases hv

end Suduo.TimerQueue
