/-
# Where the two pollers agree

`EPollPoller` goes through every history: its map and the kernel's interest list always hold the
same descriptors.  So the two accept the same histories where `PollPoller` accepts them all, and
that is where they are proper.

There they return the same, but for channels that are registered and want nothing.  `PollPoller` has
hidden these from the kernel, unless by their first update; `EPollPoller` has not, and the kernel
reports hang-ups and errors unasked.  `interfaces_agree` puts the two together.
-/
import Mathlib.Data.List.Dedup
import Mathlib.Data.List.Perm.Subperm
import Suduo.Net.PollerTable

namespace Suduo.Poller

open Lib Events

/-! ## 1. `EPollPoller` bears every history -/

/-- The last operation of the channel was an update. -/
def current (ops : List (Nat × Op)) (fd : Nat) : Bool :=
  ops.foldl (fun b x => if x.1 = fd then decide (x.2 ≠ .remove) else b) false

theorem current_snoc {ops : List (Nat × Op)} {fd fd' : Nat} {op : Op} : current (ops ++ [(fd, op)]) fd' =
    if fd = fd' then decide (op ≠ .remove) else current ops fd' := by
  unfold current
  rw [List.foldl_append]
  rfl

/-- In a proper history a channel is registered from its first update to its removal. -/
theorem current_iff {ops : List (Nat × Op)} (h : Proper ops) (fd : Nat) :
    current ops fd = true ↔ Registered ops fd := by
  induction ops using List.reverseRecOn with
  | nil => exact ⟨fun h => Bool.noConfusion h, fun h => absurd h.1 (Nat.lt_irrefl 0)⟩
  | append_singleton ops x ih =>
    obtain ⟨fd', op⟩ := x
    obtain ⟨hops, hall⟩ := proper_snoc.mp h
    rw [current_snoc]
    by_cases heq : fd' = fd
    · subst heq
      rw [if_pos rfl, decide_eq_true_iff]
      constructor
      · intro hop
        exact registered_snoc_self hop hall.1
      · intro hreg hop
        exact hreg.2 (mem_snoc.mpr (.inr ⟨rfl, hop⟩))
    · rw [if_neg heq, ih hops, registered_snoc_of_ne heq]

namespace EPollPoller

/-- **The map and the kernel hold the same descriptors**, with what their channels want.  Both
are a function of the history, so the map need never be compared with the kernel directly. -/
structure Mirrors (e : EPollPoller) (ops : List (Nat × Op)) : Prop where
  events : ∀ fd, (e.chan fd).events = wanted ops fd
  known : ∀ fd, e.channels fd = current ops fd
  kernel : ∀ fd mask, (fd, mask) ∈ e.interest ↔ current ops fd = true ∧ mask = wanted ops fd
  nodup : (e.interest.map Prod.fst).Nodup

theorem mirrors_new : Mirrors {} [] := by
  refine ⟨fun _ => rfl, fun _ => rfl, fun fd mask => ?_, List.nodup_nil⟩
  exact ⟨fun h => absurd h List.not_mem_nil, fun h => Bool.noConfusion h.1⟩

variable {e e' : EPollPoller} {ops : List (Nat × Op)} {fd : Nat} {op : Op}

theorem Mirrors.watches_eq (h : Mirrors e ops) (fd : Nat) : e.watches fd = current ops fd := by
  rw [watches, Bool.eq_iff_iff, List.any_eq_true]
  constructor
  · rintro ⟨⟨fd', mask⟩, hmem, heq⟩
    obtain rfl : fd' = fd := by simpa using heq
    exact ((h.kernel fd' mask).mp hmem).1
  · intro hcur
    exact ⟨(fd, wanted ops fd), (h.kernel fd _).mpr ⟨hcur, rfl⟩, by simp⟩

theorem apply_update_eq (hop : op ≠ .remove) :
    e.apply (fd, op) = (e.setEvents fd (op.events (e.chan fd).events)).updateChannel fd := by
  cases op with
  | remove => exact absurd rfl hop
  | _ => rfl

/-- An update, from outside: the map and the kernel have the same new entry. -/
theorem Mirrors.updated (h : Mirrors e ops) (hop : op ≠ .remove)
    (hev : ∀ f, (e'.chan f).events = if f = fd then op.events (wanted ops fd) else (e.chan f).events)
    (hch : ∀ f, e'.channels f = if f = fd then true else e.channels f)
    (hmem : ∀ f mask, (f, mask) ∈ e'.interest ↔
      if f = fd then mask = op.events (wanted ops fd) else (f, mask) ∈ e.interest)
    (hnodup : (e'.interest.map Prod.fst).Nodup) : Mirrors e' (ops ++ [(fd, op)]) := by
  refine ⟨fun f => ?_, fun f => ?_, fun f mask => ?_, hnodup⟩
  · rw [hev, wanted_snoc]
    by_cases hf : f = fd
    · rw [if_pos hf, if_pos hf.symm, hf]
    · rw [if_neg hf, if_neg (Ne.symm hf), h.events]
  · rw [hch, current_snoc]
    by_cases hf : f = fd
    · rw [if_pos hf, if_pos hf.symm, decide_eq_true hop]
    · rw [if_neg hf, if_neg (Ne.symm hf), h.known]
  · rw [hmem, wanted_snoc, current_snoc]
    by_cases hf : f = fd
    · rw [if_pos hf, if_pos hf.symm, if_pos hf.symm, decide_eq_true hop, hf]
      simp
    · rw [if_neg hf, if_neg (Ne.symm hf), if_neg (Ne.symm hf), h.kernel]

theorem setEvents_events (e : EPollPoller) (fd f : Nat) (ev : Events) :
    ((e.setEvents fd ev).chan f).events = if f = fd then ev else (e.chan f).events := by
  simp only [setEvents, Function.update_apply]
  split
  · rfl
  · rfl

theorem update_add (h : e.watches fd = false) :
    e.update .add fd = some { e with interest := e.interest ++ [(fd, (e.chan fd).events)] } := by
  simp only [update, h]

theorem update_mod (h : e.watches fd = true) : e.update .mod fd = some { e with
    interest := e.interest.map fun x => if x.1 = fd then (fd, (e.chan fd).events) else x } := by
  simp only [update, h]

theorem update_del (h : e.watches fd = true) :
    e.update .del fd = some { e with interest := e.interest.filter fun x => x.1 ≠ fd } := by
  simp only [update, h]

/-- An update always goes through: the kernel has the descriptor exactly if the map has. -/
theorem apply_update (h : Mirrors e ops) (hop : op ≠ .remove) :
    ∃ e', e.apply (fd, op) = some e' ∧ Mirrors e' (ops ++ [(fd, op)]) := by
  have hmask : ((e.setEvents fd (op.events (wanted ops fd))).chan fd).events = op.events (wanted ops fd) := by
    rw [setEvents_events, if_pos rfl]
  have hkeys (f : Nat) : f ∈ e.interest.map Prod.fst ↔ current ops f = true := by
    rw [List.mem_map]
    constructor
    · rintro ⟨⟨f, mask⟩, hmem, rfl⟩
      exact ((h.kernel f mask).mp hmem).1
    · exact fun hcur => ⟨(f, wanted ops f), (h.kernel f _).mpr ⟨hcur, rfl⟩, rfl⟩
  rw [apply_update_eq hop, h.events, updateChannel]
  change ∃ e', (if e.channels fd = true then _ else _) = some e' ∧ _
  cases hcur : current ops fd with
  | true =>
    have hwatch : (e.setEvents fd (op.events (wanted ops fd))).watches fd = true :=
      (h.watches_eq fd).trans hcur
    rw [h.known, hcur, if_pos rfl, update_mod hwatch, hmask]
    refine ⟨_, rfl, h.updated hop (fun f => setEvents_events e fd f _) (fun f => ?_) (fun f mask => ?_) ?_⟩
    · change e.channels f = _
      split
      · rename_i hf
        rw [hf, h.known, hcur]
      · rfl
    · change (f, mask) ∈ e.interest.map _ ↔ _
      rw [List.mem_map]
      constructor
      · rintro ⟨⟨g, m⟩, hmem, heq⟩
        dsimp only at heq
        split at heq
        · cases heq
          rw [if_pos rfl]
        · rename_i hg
          cases heq
          rw [if_neg hg]
          exact hmem
      · intro hin
        split at hin
        · rename_i hf
          refine ⟨(fd, wanted ops fd), (h.kernel fd _).mpr ⟨hcur, rfl⟩, ?_⟩
          rw [if_pos rfl, hf, hin]
        · rename_i hf
          refine ⟨(f, mask), hin, ?_⟩
          dsimp only
          rw [if_neg hf]
    · change ((e.interest.map _).map Prod.fst).Nodup
      rw [List.map_map]
      have hsame : e.interest.map (Prod.fst ∘ fun x => if x.1 = fd then (fd, op.events (wanted ops fd)) else x) =
          e.interest.map Prod.fst := by
        refine List.map_congr_left fun x _ => ?_
        dsimp only [Function.comp]
        split
        · rename_i hx
          exact hx.symm
        · rfl
      rw [hsame]
      exact h.nodup
  | false =>
    have hwatch : EPollPoller.watches { e.setEvents fd (op.events (wanted ops fd)) with
        channels := Function.update e.channels fd true } fd = false := (h.watches_eq fd).trans hcur
    have hnew : fd ∉ e.interest.map Prod.fst := by
      rw [hkeys, hcur]
      exact Bool.noConfusion
    rw [h.known, hcur, if_neg Bool.noConfusion]
    refine ⟨_, update_add hwatch, h.updated hop (fun f => setEvents_events e fd f _) (fun f => ?_)
      (fun f mask => ?_) ?_⟩
    · change Function.update e.channels fd true f = _
      rw [Function.update_apply]
    · change (f, mask) ∈ e.interest ++ [(fd, _)] ↔ _
      rw [List.mem_append, List.mem_singleton, Prod.mk.injEq]
      dsimp only
      rw [hmask]
      by_cases hf : f = fd
      · rw [if_pos hf]
        refine ⟨fun hin => (hin.resolve_left fun hmem => ?_).2, fun hm => .inr ⟨hf, hm⟩⟩
        exact hnew (List.mem_map.mpr ⟨(f, mask), hmem, hf⟩)
      · rw [if_neg hf]
        exact ⟨fun hin => hin.resolve_right fun hc => hf hc.1, .inl⟩
    · change ((e.interest ++ [(fd, _)]).map Prod.fst).Nodup
      rw [List.map_append, List.map_singleton]
      refine List.nodup_append.mpr ⟨h.nodup, by simp, fun f hf g hg heq => ?_⟩
      have hg : g = fd := List.mem_singleton.mp hg
      exact hnew (hg ▸ heq ▸ hf)

/-- So does a removal, of whatever channel is in its place. -/
theorem apply_remove (h : Mirrors e ops) :
    ∃ e', e.apply (fd, .remove) = some e' ∧ Mirrors e' (ops ++ [(fd, .remove)]) := by
  have hwant (f : Nat) : wanted (ops ++ [(fd, .remove)]) f = wanted ops f := by
    rw [wanted_snoc]
    split
    · rfl
    · rfl
  rw [apply, removeChannel]
  cases hcur : current ops fd with
  | true =>
    have hwatch : EPollPoller.watches { e with channels := Function.update e.channels fd false } fd = true :=
      (h.watches_eq fd).trans hcur
    rw [h.known, hcur, if_pos rfl]
    refine ⟨_, update_del hwatch, fun f => ?_, fun f => ?_, fun f mask => ?_, ?_⟩
    · rw [hwant]
      exact h.events f
    · change Function.update e.channels fd false f = _
      rw [Function.update_apply, current_snoc]
      by_cases hf : f = fd
      · rw [if_pos hf, if_pos hf.symm]
        rfl
      · rw [if_neg hf, if_neg (Ne.symm hf), h.known]
    · change (f, mask) ∈ e.interest.filter _ ↔ _
      rw [List.mem_filter, h.kernel, hwant, current_snoc]
      by_cases hf : f = fd
      · rw [if_pos hf.symm]
        simp [hf]
      · rw [if_neg (Ne.symm hf)]
        simp [hf]
    · change ((e.interest.filter _).map Prod.fst).Nodup
      exact h.nodup.sublist (List.filter_sublist.map _)
  | false =>
    rw [h.known, hcur, if_neg Bool.noConfusion]
    have hsame (f : Nat) : current (ops ++ [(fd, .remove)]) f = current ops f := by
      rw [current_snoc]
      split
      · rename_i hf
        rw [← hf, hcur]
        rfl
      · rfl
    refine ⟨e, rfl, fun f => ?_, fun f => ?_, fun f mask => ?_, h.nodup⟩
    · rw [hwant, h.events]
    · rw [hsame, h.known]
    · rw [hsame, hwant, h.kernel]

/-- **Every run goes through.**  There is nothing that `EPollPoller` asserts of its channels, and
no call of `epoll_ctl` is refused. -/
theorem run_spec (ops : List (Nat × Op)) : ∃ e, run ops = some e ∧ Mirrors e ops := by
  induction ops using List.reverseRecOn with
  | nil => exact ⟨{}, rfl, mirrors_new⟩
  | append_singleton ops x ih =>
    obtain ⟨e, hrun, h⟩ := ih
    obtain ⟨fd, op⟩ := x
    rw [run, foldlM_snoc]
    change ∃ e, (run ops).bind _ = _ ∧ _
    rw [hrun, Option.bind_some]
    by_cases hop : op = .remove
    · subst hop
      exact apply_remove h
    · exact apply_update h hop

end EPollPoller

/-! ## 2. What they return -/

namespace PollPoller

/-- With as many events as there are, no `pollfd` is missed: the loop ends early only when all
that is left has nothing to report. -/
theorem mem_fillActiveChannels {channels : Nat → Bool} {x : Nat × Events} (pollFds : List PollFd) :
    ∀ eventsNum : Nat, pollFds.countP (fun pfd => pfd.revents ≠ 0) ≤ eventsNum →
    (x ∈ fillActiveChannels channels eventsNum pollFds ↔ ∃ pfd ∈ pollFds, pfd.revents ≠ 0 ∧
      (0 ≤ pfd.fd ∧ channels pfd.fd.toNat) ∧ x = (pfd.fd.toNat, pfd.revents)) := by
  induction pollFds with
  | nil =>
    intro n _
    cases n with
    | zero => simp [fillActiveChannels]
    | succ n => simp [fillActiveChannels]
  | cons pfd rest ih =>
    intro n hn
    rw [List.countP_cons] at hn
    simp only [decide_eq_true_eq] at hn
    by_cases hrev : pfd.revents ≠ 0
    · rw [if_pos hrev] at hn
      obtain ⟨n, rfl⟩ : ∃ m, n = m + 1 := ⟨n - 1, by omega⟩
      have hrest := ih n (by omega)
      rw [fillActiveChannels, if_pos hrev]
      simp only [List.mem_cons, exists_eq_or_imp]
      by_cases hch : 0 ≤ pfd.fd ∧ channels pfd.fd.toNat
      · simp only [if_pos hch, List.mem_cons, hrest]
        exact or_congr_left ⟨fun hx => ⟨hrev, hch, hx⟩, fun hx => hx.2.2⟩
      · simp only [if_neg hch, hrest]
        exact ⟨.inr, fun hx => hx.resolve_left fun hx => hch hx.2.1⟩
    · rw [if_neg hrev] at hn
      have hrest := ih n (by omega)
      have hskip : fillActiveChannels channels n (pfd :: rest) = fillActiveChannels channels n rest := by
        cases n with
        | zero => cases rest <;> rfl
        | succ n => rw [fillActiveChannels, if_neg hrev]
      rw [hskip, hrest]
      simp only [List.mem_cons, exists_eq_or_imp]
      exact ⟨.inr, fun hx => hx.resolve_left fun hx => hrev hx.1⟩

/-- **`PollPoller::poll`** returns what the kernel reports of the channels that are registered, but for those
with a negated descriptor. -/
theorem mem_poll {p : PollPoller} {ops : List (Nat × Op)} (h : Tracks p ops) (ready : Nat → Events) (fd : Nat)
    (r : Events) : (fd, r) ∈ p.poll ready ↔ Registered ops fd ∧
      ¬ (wanted ops fd = Channel.noneEvent ∧ 2 ≤ updates ops fd) ∧
      r = report (ready fd) (wanted ops fd) ∧ r ≠ 0 := by
  rw [poll, mem_fillActiveChannels _ _ (Nat.le_refl _)]
  constructor
  · rintro ⟨pfd, hmem, hrev, ⟨hpos, hch⟩, hx⟩
    obtain ⟨old, hold, rfl⟩ := List.mem_map.mp hmem
    dsimp only at hpos hch hrev hx
    obtain ⟨i, hi⟩ := List.mem_iff_getElem?.mp hold
    obtain ⟨f, hf, hfi⟩ := h.owner i old hi
    obtain ⟨j, hj, rev, hat⟩ := h.entry f hf
    obtain rfl : j = i := by omega
    obtain rfl : old = ⟨shown ops f, wanted ops f, rev⟩ := Option.some.inj (hi.symm.trans hat)
    dsimp only at hpos hrev hx
    have hshown : ¬ (wanted ops f = Channel.noneEvent ∧ 2 ≤ updates ops f) := by
      intro hneg
      have hminus : shown ops f = -f - 1 := if_pos hneg
      omega
    have hfd : shown ops f = f := if_neg hshown
    rw [hfd, if_neg (by omega), Int.toNat_natCast] at hx
    obtain ⟨rfl, rfl⟩ := Prod.mk.inj hx
    rw [hfd, if_neg (by omega), Int.toNat_natCast] at hrev
    exact ⟨(h.known _).mp hf, hshown, rfl, hrev⟩
  · rintro ⟨hreg, hshown, rfl, hr⟩
    have hyes := (h.known fd).mpr hreg
    obtain ⟨i, -, rev, hat⟩ := h.entry fd hyes
    have hfd : shown ops fd = fd := if_neg hshown
    have hmem := List.mem_of_getElem? hat
    rw [hfd] at hmem
    refine ⟨_, List.mem_map.mpr ⟨_, hmem, rfl⟩, ?_⟩
    dsimp only
    rw [if_neg (by omega), Int.toNat_natCast]
    exact ⟨hr, ⟨by omega, hyes⟩, rfl⟩

end PollPoller

theorem EPollPoller.mem_pending {e : EPollPoller} {ops : List (Nat × Op)} (h : e.Mirrors ops)
    (ready : Nat → Events) (fd : Nat) (r : Events) : (fd, r) ∈ e.pending ready ↔ current ops fd = true ∧
      r = report (ready fd) (wanted ops fd) ∧ r ≠ 0 := by
  rw [EPollPoller.pending, List.mem_filter, List.mem_map]
  simp only [ne_eq, decide_not, Bool.not_eq_true', decide_eq_false_iff_not]
  constructor
  · rintro ⟨⟨⟨f, mask⟩, hmem, heq⟩, hr⟩
    cases heq
    obtain ⟨hcur, rfl⟩ := (h.kernel _ mask).mp hmem
    exact ⟨hcur, rfl, hr⟩
  · rintro ⟨hcur, rfl, hr⟩
    exact ⟨⟨(fd, wanted ops fd), (h.kernel fd _).mpr ⟨hcur, rfl⟩, rfl⟩, hr⟩

/-- The channels of a history that are ready. -/
def readyChannels (ops : List (Nat × Op)) (ready : Nat → Events) : List Nat :=
  (ops.map Prod.fst).dedup.filter fun fd => ready fd ≠ 0

theorem mem_of_current {ops : List (Nat × Op)} {fd : Nat} (h : current ops fd = true) :
    fd ∈ ops.map Prod.fst := by
  induction ops using List.reverseRecOn with
  | nil => cases h
  | append_singleton ops x ih =>
    obtain ⟨fd', op⟩ := x
    rw [current_snoc] at h
    rw [List.map_append, List.mem_append]
    split at h
    · rename_i heq
      exact .inr (List.mem_singleton.mpr heq.symm)
    · exact .inl (ih h)

/-- If no more are ready than `epoll_wait` has places for, it reports them all. -/
theorem EPollPoller.mem_poll {e : EPollPoller} {ops : List (Nat × Op)} (h : e.Mirrors ops)
    {ready : Nat → Events} (hfew : (readyChannels ops ready).length ≤ eventListSize) (fd : Nat) (r : Events) :
    (fd, r) ∈ e.poll ready ↔ current ops fd = true ∧ r = report (ready fd) (wanted ops fd) ∧ r ≠ 0 := by
  have hkeys : ((e.pending ready).map Prod.fst).Nodup := by
    refine h.nodup.sublist ?_
    have hsub := (List.filter_sublist (p := fun x : Nat × Events => decide (x.2 ≠ 0))
      (l := e.interest.map fun x => (x.1, report (ready x.1) x.2))).map Prod.fst
    rw [List.map_map] at hsub
    exact hsub
  have hall : (e.pending ready).map Prod.fst ⊆ readyChannels ops ready := by
    intro f hf
    obtain ⟨⟨f, r⟩, hmem, rfl⟩ := List.mem_map.mp hf
    obtain ⟨hcur, rfl, hr⟩ := (EPollPoller.mem_pending h ready f r).mp hmem
    refine List.mem_filter.mpr ⟨List.mem_dedup.mpr (mem_of_current hcur), ?_⟩
    rw [decide_eq_true_iff]
    rintro hzero
    rw [report, hzero] at hr
    exact hr BitVec.zero_and
  have hlen : (e.pending ready).length ≤ eventListSize := by
    have hle := (List.subperm_of_subset hkeys hall).length_le
    rw [List.length_map] at hle
    omega
  rw [poll, List.take_of_length_le hlen, mem_pending h]

/-! ## 3. One interface -/

/-- What one may expect of two pollers behind one interface: they bear the same histories, and
return the same; and neither returns a channel that wants nothing, or is not registered. -/
def Agree (ops : List (Nat × Op)) (ready : Nat → Events) : Prop :=
  ((PollPoller.run ops).isSome ↔ (EPollPoller.run ops).isSome) ∧
  ∀ p e, PollPoller.run ops = some p → EPollPoller.run ops = some e →
    (∀ x, x ∈ p.poll ready ↔ x ∈ e.poll ready) ∧
    ∀ x : Nat × Events, wanted ops x.1 = Channel.noneEvent ∨ current ops x.1 = false →
      x ∉ p.poll ready ∧ x ∉ e.poll ready

/-- Nothing is reported of a channel that is registered and wants nothing: no hang-up, no error.
This is a condition on what the kernel has to say, which the pollers cannot help. -/
def Quiet (ops : List (Nat × Op)) (ready : Nat → Events) : Prop :=
  ∀ fd, Registered ops fd → wanted ops fd = Channel.noneEvent → ready fd &&& (pollHup ||| pollErr) = 0

theorem report_none (ready : Events) : report ready Channel.noneEvent = ready &&& (pollHup ||| pollErr) := by
  have hzero : Channel.noneEvent ||| pollHup = pollHup := BitVec.zero_or
  rw [report, hzero]

/-- **Where the two pollers agree**: for every history, and any readiness of at most 16 of its
channels, exactly if the history is proper and nothing is reported of a channel that wants
nothing.  An improper history is one that the other poller does not bear (`PollerTable`); a
report of a channel that wants nothing is one that `PollPoller` has hidden from the kernel and
`EPollPoller` has not. -/
theorem interfaces_agree (ops : List (Nat × Op)) (ready : Nat → Events)
    (hfew : (readyChannels ops ready).length ≤ EPollPoller.eventListSize) :
    Agree ops ready ↔ Proper ops ∧ Quiet ops ready := by
  obtain ⟨e, he, hmirror⟩ := EPollPoller.run_spec ops
  have hepoll := EPollPoller.mem_poll hmirror hfew
  rcases PollPoller.run_spec ops with ⟨hno, hnone⟩ | ⟨hproper, p, hp, htracks⟩
  · refine ⟨fun h => ?_, fun h => absurd h.1 hno⟩
    have hsome := h.1.mpr (by rw [he]; rfl)
    rw [hnone] at hsome
    cases hsome
  · have hppoll := PollPoller.mem_poll htracks ready
    have hcur := current_iff hproper
    constructor
    · intro h
      refine ⟨hproper, fun fd hreg hwants => ?_⟩
      by_contra hrep
      have hnot := ((h.2 p e hp he).2 (fd, report (ready fd) (wanted ops fd)) (.inl hwants)).2
      refine hnot ((hepoll fd _).mpr ⟨(hcur fd).mpr hreg, rfl, ?_⟩)
      rw [hwants, report_none]
      exact hrep
    · rintro ⟨-, hquiet⟩
      have hsilent (fd : Nat) (r : Events) (hreg : Registered ops fd) (hr : r = report (ready fd) (wanted ops fd))
          (hne : r ≠ 0) : wanted ops fd ≠ Channel.noneEvent := by
        intro hwants
        rw [hwants, report_none, hquiet fd hreg hwants] at hr
        exact hne hr
      refine ⟨by rw [hp, he]; exact Iff.rfl, fun p' e' hp' he' => ?_⟩
      obtain rfl := Option.some.inj (hp.symm.trans hp')
      obtain rfl := Option.some.inj (he.symm.trans he')
      refine ⟨fun ⟨fd, r⟩ => ?_, fun ⟨fd, r⟩ hout => ⟨fun hin => ?_, fun hin => ?_⟩⟩
      · rw [hppoll, hepoll, hcur]
        constructor
        · rintro ⟨hreg, -, hr, hne⟩
          exact ⟨hreg, hr, hne⟩
        · rintro ⟨hreg, hr, hne⟩
          exact ⟨hreg, fun hc => hsilent fd r hreg hr hne hc.1, hr, hne⟩
      · obtain ⟨hreg, -, hr, hne⟩ := (hppoll fd r).mp hin
        rcases hout with hwants | hgone
        · exact hsilent fd r hreg hr hne hwants
        · exact Bool.noConfusion (hgone.symm.trans ((hcur fd).mpr hreg))
      · obtain ⟨hreg, hr, hne⟩ := (hepoll fd r).mp hin
        rcases hout with hwants | hgone
        · exact hsilent fd r ((hcur fd).mp hreg) hr hne hwants
        · exact Bool.noConfusion (hgone.symm.trans hreg)

/-- Two channels, one of them disabled and removed, the other ready for writing. -/
theorem interfaces_agree_twoChannels :
    (readyChannels [(3, .enableReading), (5, .enableWriting), (3, .disableAll), (3, .remove)]
        fun fd => if fd = 5 then pollOut else 0).length ≤ EPollPoller.eventListSize ∧
      Agree [(3, .enableReading), (5, .enableWriting), (3, .disableAll), (3, .remove)]
        fun fd => if fd = 5 then pollOut else 0 := by
  refine ⟨by decide, (interfaces_agree _ _ (by decide)).mpr ⟨?_, fun fd _ _ => ?_⟩⟩
  · rcases PollPoller.run_spec
      [(3, .enableReading), (5, .enableWriting), (3, .disableAll), (3, .remove)] with ⟨-, hnone⟩ | ⟨hproper, -⟩
    · exact absurd (congrArg Option.isSome hnone) (by decide)
    · exact hproper
  · dsimp only
    split
    · decide
    · exact BitVec.zero_and

/-- A channel that is removed after its first update, as `~Acceptor` does without `listen`; one
that is used again after it was removed; and a hang-up of a disabled one. -/
theorem pollers_differ :
    ¬ Agree [(3, .disableAll), (3, .remove)] (fun _ => 0) ∧
    ¬ Agree [(3, .enableReading), (3, .disableAll), (3, .remove), (3, .enableReading)] (fun _ => 0) ∧
    ¬ Agree [(3, .enableReading), (3, .disableAll)] fun _ => pollHup := by
  refine ⟨fun h => ?_, fun h => ?_, fun h => ?_⟩
  · exact absurd (h.1.mpr (by decide)) (by decide)
  · exact absurd (h.1.mpr (by decide)) (by decide)
  · have hdiff := (h.2 ((PollPoller.run [(3, .enableReading), (3, .disableAll)]).get (by decide))
      ((EPollPoller.run [(3, .enableReading), (3, .disableAll)]).get (by decide))
      (Option.some_get _).symm (Option.some_get _).symm).1 (3, pollHup)
    exact absurd (hdiff.mpr (by decide)) (by decide)

end Suduo.Poller
