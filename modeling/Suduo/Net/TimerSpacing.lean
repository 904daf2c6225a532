/-
# How far apart a repeating timer is run

`reset` restarts an expired timer from the `now` of the `handle_read` that ran it, not from the time
it was due.  So what a timer expires at next is fixed by when it was run last: `now` plus its
interval.  A late run puts off all runs after it, and none is made up for.

That holds in every run of the queue, whatever callbacks do (`Spaced`): the runs of one timer form a
chain, each restarted from the one before, and only the runs of a repeating timer have a successor.
Where no timer is run early (`TimerDue.lean`) and `now` plus the interval is a time that an
`int64_t` can hold, two runs are then at least an interval apart.
-/
import Mathlib.Data.List.Chain
import Suduo.Net.TimerCancel
import Suduo.Net.TimerDue

namespace Suduo.TimerQueue

open Lib

/-! ## 1. The runs of one timer -/

/-- The runs of timer `id`, in order. -/
def firings (q : State) (id : Nat) : List Firing := q.fired.filter fun f => f.timer.id = id

theorem mem_firings {q : State} {id : Nat} {f : Firing} : f ∈ firings q id ↔ f ∈ q.fired ∧ f.timer.id = id := by
  rw [firings, List.mem_filter, decide_eq_true_eq]

/-- `t` is the timer of `f`, put back by the `reset` after it. -/
def Restarted (f : Firing) (t : Timer) : Prop := f.timer.repeated = true ∧ t = f.timer.restart f.now

/-- The timer stands as its last run has left it, or as it was added. -/
def Next (q : State) (t : Timer) : Prop :=
  match (firings q t.id).getLast? with
  | none => t ∈ q.added
  | some f => Restarted f t

/-- `k` is the node whose callback is being run. -/
def AtWork (q : State) (k : TimerID) : Prop := ∃ w, q.walk = some w ∧ w.running = true ∧ w.ptr = some k

/-- **What every step keeps.**  The runs of each timer are a chain, its first run is of the timer
as it was added, and what waits in the map or is held in `expired` is what the chain demands
next. -/
structure Spaced (q : State) : Prop where
  old : ∀ f ∈ q.fired, f.timer.id < q.created
  addedIds : (q.added.map Timer.id).Nodup
  chain : ∀ id, (firings q id).IsChain fun f f' => Restarted f f'.timer
  first : ∀ id, ∀ f ∈ (firings q id).head?, f.timer ∈ q.added
  /-- A timer in the map waits for its next run. -/
  waiting : ∀ k t, q.timers.get? k = some (some t) → ¬ AtWork q k → Next q t
  /-- The run of the timer at work has been noted. -/
  running : ∀ w k t, q.walk = some w → w.running = true → w.ptr = some k →
    q.timers.get? k = some (some t) → (firings q t.id).getLast? = some ⟨t, w.now⟩
  held : ∀ w, q.walk = some w → ∀ t ∈ w.expired, (firings q t.id).getLast? = some ⟨t, w.now⟩

variable {q q' : State} {t : Timer}

theorem spaced_init (clock : Int) : Spaced (.init clock) := by
  constructor <;> simp [State.init, firings]

/-- More timers added change nothing for those that wait. -/
theorem Next.mono (h : Next q t) (hfired : q'.fired = q.fired) (hadded : ∀ a ∈ q.added, a ∈ q'.added) :
    Next q' t := by
  unfold Next firings at h ⊢
  rw [hfired]
  split
  · rename_i hlast
    rw [hlast] at h
    exact hadded t h
  · rename_i f hlast
    rw [hlast] at h
    exact h

theorem not_atWork (hw : q.walk = none) (k : TimerID) : ¬ AtWork q k := by
  rintro ⟨w, hw', -⟩
  rw [hw] at hw'
  cases hw'

/-- A timer that has just been added has not been run.  The record has only ids that were given
out. -/
theorem Spaced.firings_new (h : Spaced q) {id : Nat} (hid : q.created ≤ id) : firings q id = [] := by
  refine List.filter_eq_nil_iff.mpr fun f hf => ?_
  have hlt := h.old f hf
  simp only [decide_eq_true_eq]
  omega

/-! ## 2. One step -/

/-- A new timer waits for its first run, and those before it wait as they did. -/
theorem Spaced.addTimer (h : Spaced q) (he : Entered q) (hid : t.id = q.created) (kernel : Kernel)
    (active : SortedMap Nat TimerID) (failed : List Assertion) :
    Spaced { q with created := q.created + 1, added := q.added ++ [t], toKernel := kernel,
                    timers := q.timers.insert t.key (some t), activeTimers := active, failed := failed } := by
  refine ⟨fun f hf => Nat.lt_succ_of_lt (h.old f hf), ?_, h.chain, fun id f hf => ?_, fun k u hu hk => ?_,
    fun w k u hw hr hp hu => ?_, h.held⟩
  · rw [List.map_append, List.nodup_append]
    refine ⟨h.addedIds, List.nodup_singleton _, fun x hx y hy => ?_⟩
    obtain ⟨a, ha, rfl⟩ := List.mem_map.mp hx
    obtain rfl := List.mem_singleton.mp hy
    have hlt := he.addedOld a ha
    omega
  · exact List.mem_append_left _ (h.first id f hf)
  · rcases SortedMap.get?_insert_cases hu with hu | ⟨-, heq⟩
    · exact (h.waiting k u hu hk).mono rfl fun a ha => List.mem_append_left _ ha
    · cases heq
      have hnone : firings q t.id = [] := h.firings_new (Nat.le_of_eq hid.symm)
      unfold Next
      change match (firings q t.id).getLast? with | none => _ | some f => _
      rw [hnone]
      exact List.mem_append_right _ (List.mem_singleton_self t)
  · -- the node at work was there before
    obtain ⟨v, hv⟩ := he.walkable.sound.ptr w k hw hp
    rw [SortedMap.get?_insert_of_get? hv] at hu
    cases hu
    exact h.running w k u hw hr hp hv

/-- What one more run does to the runs of a timer. -/
theorem firings_append (q : State) (f : Firing) (id : Nat) : firings { q with fired := q.fired ++ [f] } id =
    firings q id ++ if f.timer.id = id then [f] else [] := by
  unfold firings
  rw [List.filter_append]
  congr 1
  by_cases hid : f.timer.id = id
  · rw [if_pos hid, List.filter_singleton, decide_eq_true hid]
    rfl
  · rw [if_neg hid, List.filter_singleton, decide_eq_false hid]
    rfl

/-- A run is noted.  The timer was waiting for it, so the chain has one link more. -/
theorem Spaced.runCallback (h : Spaced q) (he : Entered q) {w : Walk} {ptr : TimerID} (hw : q.walk = some w)
    (hr : w.running = false) (hp : w.ptr = some ptr) (ht : q.timers.get? ptr = some (some t)) :
    Spaced { q with walk := some { w with running := true }, fired := q.fired ++ [⟨t, w.now⟩] } := by
  have hidle (k : TimerID) : ¬ AtWork q k := by
    rintro ⟨w', hw', hr', -⟩
    rw [hw] at hw'
    cases hw'
    rw [hr] at hr'
    cases hr'
  have hself : firings { q with fired := q.fired ++ [⟨t, w.now⟩] } t.id = firings q t.id ++ [⟨t, w.now⟩] := by
    rw [firings_append, if_pos rfl]
  have hother {id : Nat} (hid : id ≠ t.id) :
      firings { q with fired := q.fired ++ [⟨t, w.now⟩] } id = firings q id := by
    rw [firings_append, if_neg hid.symm, List.append_nil]
  have hnext := h.waiting ptr t ht (hidle ptr)
  refine ⟨fun f hf => ?_, h.addedIds, fun id => ?_, fun id f hf => ?_, fun k u hu hk => ?_,
    fun w' k u hw' _ hp' hu => ?_, fun w' hw' u hu => ?_⟩
  · rcases List.mem_append.mp hf with hf | hf
    · exact h.old f hf
    · rw [List.mem_singleton.mp hf, ← key_id, ← he.walkable.sound.keyed ptr t ht]
      exact he.walkable.sound.fresh ptr _ ht
  · by_cases hid : id = t.id
    · subst hid
      change (firings { q with fired := q.fired ++ [⟨t, w.now⟩] } t.id).IsChain _
      rw [hself]
      refine (h.chain t.id).append (List.isChain_singleton _) fun f hf f' hf' => ?_
      obtain rfl : f' = ⟨t, w.now⟩ := (Option.some.inj hf').symm
      unfold Next at hnext
      rw [hf] at hnext
      exact hnext
    · change (firings { q with fired := q.fired ++ [⟨t, w.now⟩] } id).IsChain _
      rw [hother hid]
      exact h.chain id
  · change f ∈ (firings { q with fired := q.fired ++ [⟨t, w.now⟩] } id).head? at hf
    by_cases hid : id = t.id
    · subst hid
      rw [hself] at hf
      cases hnone : firings q t.id with
      | nil =>
        rw [hnone] at hf
        obtain rfl : f = ⟨t, w.now⟩ := (Option.some.inj hf).symm
        unfold Next at hnext
        rw [hnone] at hnext
        exact hnext
      | cons g gs =>
        rw [hnone] at hf
        exact h.first t.id f (hnone ▸ hf)
    · rw [hother hid] at hf
      exact h.first id f hf
  · -- no other node holds the timer that is run
    have hne : u.id ≠ t.id := by
      intro hid
      obtain rfl := he.entries.node_eq hu ht hid
      exact hk ⟨_, rfl, rfl, hp⟩
    have hwait := h.waiting k u hu (hidle k)
    unfold Next at hwait ⊢
    change match (firings { q with fired := q.fired ++ [⟨t, w.now⟩] } u.id).getLast? with | none => _ | some f => _
    rw [hother hne]
    exact hwait
  · cases hw'
    obtain rfl : ptr = k := Option.some.inj (hp.symm.trans hp')
    obtain rfl : t = u := Option.some.inj (Option.some.inj (ht.symm.trans hu))
    change (firings { q with fired := q.fired ++ [⟨t, w.now⟩] } t.id).getLast? = _
    rw [hself, List.getLast?_concat]
  · cases hw'
    -- a timer that is held has no entry, and this one has
    have hne : u.id ≠ t.id := by
      intro hid
      have hgone := he.entries.heldGone u (by rw [held_walk hw]; exact hu)
      rw [hid, he.entries.entry ptr t ht] at hgone
      cases hgone
    change (firings { q with fired := q.fired ++ [⟨t, w.now⟩] } u.id).getLast? = _
    rw [hother hne]
    exact h.held w hw u hu

/-- The node of the timer that was run is emptied.  From here on it is held, and `reset` will
look at it. -/
theorem Spaced.callbackReturns (h : Spaced q) {w : Walk} {ptr : TimerID} (hw : q.walk = some w)
    (hr : w.running = true) (hp : w.ptr = some ptr) (ht : q.timers.get? ptr = some (some t)) :
    Spaced { q with
      activeTimers := q.activeTimers.erase ptr.id, timers := q.timers.set ptr none,
      walk := some { w with expired := w.expired ++ [t], ptr := (q.timers.set ptr none).next ptr,
                            running := false } } := by
  refine ⟨h.old, h.addedIds, h.chain, h.first, fun k u hu _ => ?_, fun w' k u hw' hr' => ?_, fun w' hw' u hu => ?_⟩
  · rcases SortedMap.get?_set_cases hu with ⟨-, hnull⟩ | ⟨hne, hu⟩
    · cases hnull
    · refine h.waiting k u hu ?_
      rintro ⟨w', hw', -, hp'⟩
      rw [hw] at hw'
      cases hw'
      exact hne (Option.some.inj (hp'.symm.trans hp))
  · cases hw'
    cases hr'
  · cases hw'
    rcases List.mem_append.mp hu with hu | hu
    · exact h.held w hw u hu
    · rw [List.mem_singleton.mp hu]
      exact h.running w ptr t hw hr hp ht

/-- **`reset` puts every repeating timer back as its run demands**: restarted from the `now` of
the `handle_read` that ran it.  Timers that do not repeat are dropped, and nothing waits for
them. -/
theorem Spaced.finish (h : Spaced q) (hs : Sound q) {w : Walk} (hw : q.walk = some w) (hi : w.ptr = w.iter)
    (hr : w.expired.foldlM (State.resetOne w.now) (q.eraseExpired w) = some q') (kernel : Kernel) :
    Spaced { q' with toKernel := kernel } := by
  have hidle (k : TimerID) : ¬ AtWork q k := by
    rintro ⟨w', hw', hr', -⟩
    rw [hw] at hw'
    cases hw'
    exact hs.running w hw hr' hi
  have hI := foldlM_consume (f := State.resetOne w.now)
    (I := fun ts s => (∀ u ∈ ts, (firings q u.id).getLast? = some ⟨u, w.now⟩) ∧
      (s.fired = q.fired ∧ s.added = q.added ∧ s.created = q.created ∧ s.walk = none) ∧
      ∀ k u, s.timers.get? k = some (some u) → Next q u)
    ?_ w.expired (q.eraseExpired w) q' ⟨h.held w hw, ⟨rfl, rfl, rfl, rfl⟩, fun k u hu => ?_⟩ hr
  · obtain ⟨-, ⟨hfired, hadded, hcreated, hidle'⟩, hnext⟩ := hI
    have hruns (id : Nat) : firings q' id = firings q id := by rw [firings, hfired, firings]
    refine ⟨fun f hf => ?_, hadded.symm ▸ h.addedIds, fun id => ?_, fun id f hf => ?_, fun k u hu _ => ?_,
      fun w' k u hw' => ?_, fun w' hw' => ?_⟩
    · exact hcreated.symm ▸ h.old f (hfired ▸ hf)
    · exact hruns id ▸ h.chain id
    · exact hadded.symm ▸ h.first id f (hruns id ▸ hf)
    · exact (hnext k u hu).mono hfired fun a ha => hadded.symm ▸ ha
    · cases hidle'.symm.trans hw'
    · cases hidle'.symm.trans hw'
  · rintro u ts s s' ⟨hlast, hsame, hnext⟩ hst
    have hrest : ∀ v ∈ ts, (firings q v.id).getLast? = some ⟨v, w.now⟩ :=
      fun v hv => hlast v (List.mem_cons_of_mem _ hv)
    rcases resetOne_cases hst with ⟨rfl, -⟩ | ⟨hrep, entry, failed, -, rfl⟩
    · exact ⟨hrest, hsame, hnext⟩
    · refine ⟨hrest, hsame, fun k v hv => ?_⟩
      rcases SortedMap.get?_insert_cases hv with hv | ⟨-, heq⟩
      · exact hnext k v hv
      · cases heq
        unfold Next
        rw [restart_id, hlast u List.mem_cons_self]
        exact ⟨hrep, rfl⟩
  · exact h.waiting k u (SortedMap.get?_of_get?_eraseBefore hu).1 (hidle k)

theorem step_spaced {l : Label} (h : Spaced q) (he : Entered q) (hst : q.step l = some q') : Spaced q' := by
  cases step_inv hst with
  | tick ns | delay ns => exact ⟨h.old, h.addedIds, h.chain, h.first, h.waiting, h.running, h.held⟩
  | createdElsewhere =>
    exact ⟨fun f hf => Nat.lt_succ_of_lt (h.old f hf), h.addedIds, h.chain, h.first, h.waiting, h.running, h.held⟩
  | addTimer when interval t entry failed kernel hu ht hentry => exact h.addTimer he (by rw [ht]) kernel _ failed
  | cancel timerId => exact ⟨h.old, h.addedIds, h.chain, h.first, h.waiting, h.running, h.held⟩
  | cancelFound timerId rest node t failed hw hn ht =>
    refine ⟨h.old, h.addedIds, h.chain, h.first, fun k u hu hk => ?_, fun w k u hw' hr hp hu => ?_, h.held⟩
    · exact h.waiting k u (SortedMap.get?_of_get?_erase hu) hk
    · rw [hw] at hw'
      cases hw'
  | cancelMissed timerId rest canceling failed hw hn =>
    exact ⟨h.old, h.addedIds, h.chain, h.first, h.waiting, h.running, h.held⟩
  | handleRead fd hw =>
    refine ⟨h.old, h.addedIds, h.chain, h.first, fun k u hu _ => h.waiting k u hu (not_atWork hw k), ?_, ?_⟩
    · rintro _ k u hw' hr
      cases hw'
      cases hr
    · rintro _ hw' u hu
      cases hw'
      cases hu
  | runCallback w ptr t hw hr hi hp ht => exact h.runCallback he hw hr hp ht
  | callbackReturns w ptr t hw hr hp ht => exact h.callbackReturns hw hr hp ht
  | finish w q₁ kernel hw hi hr => exact h.finish he.walkable.sound hw hi hr kernel

theorem reach_spaced {G : State → Label → Prop} {clock : Int} (h : Reach State.step G (.init clock) q) :
    Spaced q := by
  have hboth : Spaced q ∧ Entered q :=
    h.invariant (I := fun s => Spaced s ∧ Entered s) ⟨spaced_init clock, entered_init clock⟩
      fun _ _ _ hs _ hst => ⟨step_spaced hs.1 hs.2 hst, step_entered hs.2 hst⟩
  exact hboth.1

/-! ## 3. Every run -/

variable {a : Timer}

/-- The first run of a timer is of the timer as it was added. -/
theorem Spaced.first_eq (h : Spaced q) (ha : a ∈ q.added) (h₀ : 0 < (firings q a.id).length) :
    ((firings q a.id).get ⟨0, h₀⟩).timer = a := by
  have hhead : (firings q a.id).get ⟨0, h₀⟩ ∈ (firings q a.id).head? := by
    rw [List.head?_eq_getElem?, Option.mem_def, List.getElem?_eq_getElem h₀]
    rfl
  have hid : ((firings q a.id).get ⟨0, h₀⟩).timer.id = a.id :=
    (mem_firings.mp (List.get_mem (firings q a.id) ⟨0, h₀⟩)).2
  exact List.inj_on_of_nodup_map h.addedIds (h.first a.id _ hhead) ha hid

/-- All runs are of the timer that was added, restarted.  By induction along the chain: `restart`
changes nothing but the expiration. -/
theorem Spaced.runs_of (h : Spaced q) (ha : a ∈ q.added) : ∀ (i : Nat) (hi : i < (firings q a.id).length),
    ((firings q a.id).get ⟨i, hi⟩).timer.interval = a.interval ∧
      ((firings q a.id).get ⟨i, hi⟩).timer.repeated = a.repeated := by
  intro i
  induction i with
  | zero =>
    intro hi
    rw [h.first_eq ha hi]
    exact ⟨rfl, rfl⟩
  | succ i ih =>
    intro hi
    obtain ⟨hint, hrep⟩ := ih (Nat.lt_of_succ_lt hi)
    obtain ⟨-, hnext⟩ := List.isChain_iff_getElem.mp (h.chain a.id) i hi
    change ((firings q a.id)[i + 1]).timer.interval = _ ∧ ((firings q a.id)[i + 1]).timer.repeated = _
    rw [hnext]
    exact ⟨hint, hrep⟩

/-- What one run says about the next.  That there is a next one means that the timer repeats. -/
theorem Spaced.successor (h : Spaced q) (ha : a ∈ q.added) {i : Nat} (hi : i + 1 < (firings q a.id).length) :
    a.repeated = true ∧ ((firings q a.id).get ⟨i + 1, hi⟩).timer.expertionTime =
      Timestamp.add ((firings q a.id).get ⟨i, Nat.lt_of_succ_lt hi⟩).now a.interval := by
  obtain ⟨hint, hrep⟩ := h.runs_of ha i (Nat.lt_of_succ_lt hi)
  obtain ⟨hrepeats, hnext⟩ := List.isChain_iff_getElem.mp (h.chain a.id) i hi
  refine ⟨hrep.symm.trans hrepeats, ?_⟩
  change ((firings q a.id)[i + 1]).timer.expertionTime = _
  rw [hnext, Timer.restart, if_pos hrepeats]
  exact congrArg (Timestamp.add ((firings q a.id).get ⟨i, Nat.lt_of_succ_lt hi⟩).now) hint

/-- The next run after each run of `a`, `now` plus its interval, is a time that an `int64_t` of
nanoseconds can hold. -/
def NextInRange (q : State) (a : Timer) : Prop :=
  ∀ (i : Nat) (hi : i + 1 < (firings q a.id).length),
    Timestamp.InRange (((firings q a.id).get ⟨i, Nat.lt_of_succ_lt hi⟩).now + a.interval)

/-- **A repeating timer keeps its distance.**  Take any run of the queue in which no callback
adds a timer into the gap (`AddsBehindIter`), and any timer that was ever added.  Each run of it
after the first is of the timer restarted from the `now` of the run before, at `now` plus the
interval as `int64_t` arithmetic has it, and not before that.  As long as these times are in
range, two runs are at least an interval apart, and the `i`th run comes no earlier than `i`
intervals after the time the timer was added for; an interval of centuries wraps round, and then
the next run is at once.  A timer that does not repeat is run at most once. -/
theorem repeats_spaced (clock : Int) (q : State) (h : Reach State.step AddsBehindIter (.init clock) q) (a : Timer)
    (ha : a ∈ q.added) :
    (∀ (i : Nat) (hi : i + 1 < (firings q a.id).length),
      ((firings q a.id).get ⟨i + 1, hi⟩).timer.expertionTime =
        Timestamp.add ((firings q a.id).get ⟨i, Nat.lt_of_succ_lt hi⟩).now a.interval ∧
      Timestamp.add ((firings q a.id).get ⟨i, Nat.lt_of_succ_lt hi⟩).now a.interval ≤
        ((firings q a.id).get ⟨i + 1, hi⟩).now) ∧
    (NextInRange q a →
      (∀ (i : Nat) (hi : i + 1 < (firings q a.id).length),
        ((firings q a.id).get ⟨i, Nat.lt_of_succ_lt hi⟩).now + a.interval ≤ ((firings q a.id).get ⟨i + 1, hi⟩).now) ∧
      ∀ (i : Nat) (hi : i < (firings q a.id).length),
        a.expertionTime + i * a.interval ≤ ((firings q a.id).get ⟨i, hi⟩).now) ∧
    (a.repeated = false → (firings q a.id).length ≤ 1) := by
  have hs := reach_spaced h
  have hd : Due q := h.invariant (due_init clock) fun _ _ _ hi hg hst => step_due hi hg hst
  have hdue (i : Nat) (hi : i < (firings q a.id).length) :
      ((firings q a.id).get ⟨i, hi⟩).timer.expertionTime ≤ ((firings q a.id).get ⟨i, hi⟩).now :=
    hd.fired _ (mem_firings.mp (List.get_mem (firings q a.id) ⟨i, hi⟩)).1
  have hnext (i : Nat) (hi : i + 1 < (firings q a.id).length) :
      Timestamp.add ((firings q a.id).get ⟨i, Nat.lt_of_succ_lt hi⟩).now a.interval ≤
        ((firings q a.id).get ⟨i + 1, hi⟩).now :=
    (hs.successor ha hi).2 ▸ hdue (i + 1) hi
  refine ⟨fun i hi => ⟨(hs.successor ha hi).2, hnext i hi⟩, fun hrange => ?_, fun honce => ?_⟩
  · have hapart (i : Nat) (hi : i + 1 < (firings q a.id).length) :
        ((firings q a.id).get ⟨i, Nat.lt_of_succ_lt hi⟩).now + a.interval ≤
          ((firings q a.id).get ⟨i + 1, hi⟩).now :=
      Timestamp.add_eq (hrange i hi) ▸ hnext i hi
    refine ⟨hapart, fun i => ?_⟩
    induction i with
    | zero =>
      intro hi
      have hfirst := hdue 0 hi
      rw [hs.first_eq ha hi] at hfirst
      simpa using hfirst
    | succ i ih =>
      intro hi
      have hbefore := ih (Nat.lt_of_succ_lt hi)
      have hafter := hapart i hi
      have hsucc : ((i + 1 : Nat) : Int) * a.interval = i * a.interval + a.interval := by
        rw [Nat.cast_succ, Int.add_mul, Int.one_mul]
      omega
  · by_contra hmore
    have htwo : 0 + 1 < (firings q a.id).length := by omega
    rw [(hs.successor ha htwo).1] at honce
    cases honce

/-- Every 20 from 10 on; the second run is 5 late, so the third is not at 50 but at 55. -/
def lateRun : List Label :=
  [.addTimer 10 ⟨true, 20⟩, .tick 10, .handleRead, .runCallback, .callbackReturns, .finish,
    .tick 25, .handleRead, .runCallback, .callbackReturns, .finish,
    .tick 20, .handleRead, .runCallback, .callbackReturns, .finish]

theorem repeats_spaced_lateRun : ∃ q a, Reach State.step AddsBehindIter (.init 0) q ∧ a ∈ q.added ∧
    (firings q a.id).map Firing.now = [10, 35, 55] ∧
    ∀ (i : Nat) (hi : i < (firings q a.id).length), 10 + i * 20 ≤ ((firings q a.id).get ⟨i, hi⟩).now := by
  have hrun : ∃ q, Reach State.step AddsBehindIter (.init 0) q ∧
      (q.added = [⟨1, 10, true, 20⟩] ∧ (firings q 1).map Firing.now = [10, 35, 55]) :=
    Reach.exists_of_exec lateRun _ (by decide +kernel) (by decide +kernel)
  obtain ⟨q, hq, hadded, hfired⟩ := hrun
  have ha : (⟨1, 10, true, 20⟩ : Timer) ∈ q.added := by
    rw [hadded]
    exact List.mem_singleton_self _
  have hrange : NextInRange q ⟨1, 10, true, 20⟩ := by
    intro i hi
    have hmem : ((firings q 1).get ⟨i, Nat.lt_of_succ_lt hi⟩).now ∈ [10, 35, 55] := by
      rw [← hfired]
      exact List.mem_map_of_mem (List.get_mem (firings q 1) ⟨i, Nat.lt_of_succ_lt hi⟩)
    have hall : ∀ now ∈ ([10, 35, 55] : List Int), Timestamp.InRange (now + 20) := by decide
    exact hall _ hmem
  exact ⟨q, _, hq, ha, hfired, ((repeats_spaced 0 q hq _ ha).2.1 hrange).2⟩

end Suduo.TimerQueue
