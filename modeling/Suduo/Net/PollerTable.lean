/-
# `PollPoller` bears the proper histories

The array of `pollfd`s and the channels point at each other: that is `Tracks`, and each operation
keeps it or fails an assertion.  Which of the two it does can be read off the history
(`apply_spec`), so `PollPoller` goes through a history exactly if it is proper (`run_spec`).

What makes a history improper is not what one would think: `_index` is not reset by
`remove_channel`, so a channel that was removed cannot come back; and the first update does not
negate the descriptor of a channel that wants nothing, which `remove_channel` then asserts.
-/
import Suduo.Net.Poller

namespace Suduo.Poller

open Lib Events

namespace PollPoller

/-- What stands in a `pollfd`: the descriptor is negated if the channel wants nothing, but not by its first
update. -/
def shown (ops : List (Nat × Op)) (fd : Nat) : Int :=
  if wanted ops fd = Channel.noneEvent ∧ 2 ≤ updates ops fd then -fd - 1 else fd

/-- **The array and the channels point at each other.**  Every registered channel has its entry
at its index and every entry has its channel, so the indices are a bijection; `fresh` and `gone`
keep what `_index` still says of channels that are not registered. -/
structure Tracks (p : PollPoller) (ops : List (Nat × Op)) : Prop where
  events : ∀ fd, (p.chan fd).events = wanted ops fd
  fresh : ∀ fd, (p.chan fd).index < 0 ↔ updates ops fd = 0
  gone : ∀ fd, (fd, .remove) ∈ ops → 0 < updates ops fd
  known : ∀ fd, p.channels fd = true ↔ Registered ops fd
  entry : ∀ fd, p.channels fd = true → ∃ i : Nat, (p.chan fd).index = i ∧
    ∃ revents, p.pollFds[i]? = some ⟨shown ops fd, wanted ops fd, revents⟩
  owner : ∀ (i : Nat) (pfd : PollFd), p.pollFds[i]? = some pfd → ∃ fd, p.channels fd = true ∧ (p.chan fd).index = i

theorem tracks_new : Tracks {} [] := by
  refine ⟨fun _ => rfl, fun fd => ?_, fun fd h => ?_, fun fd => ?_, fun fd h => ?_, fun i pfd h => ?_⟩
  · exact ⟨fun _ => rfl, fun _ => (by decide : (-1 : Int) < 0)⟩
  · cases h
  · exact ⟨fun h => Bool.noConfusion h, fun h => absurd h.1 (Nat.lt_irrefl 0)⟩
  · cases h
  · cases h

variable {p p' : PollPoller} {ops : List (Nat × Op)} {fd : Nat} {op : Op}

theorem decode_shown (ops : List (Nat × Op)) (fd : Nat) : decode (shown ops fd) = fd := by
  unfold decode shown
  split
  · rw [if_pos (by omega)]
    omega
  · rw [if_neg (by omega)]
    omega

/-- No two channels share a place: the entry there shows one descriptor. -/
theorem Tracks.unique (h : Tracks p ops) {fd fd' : Nat} {i : Nat} (hfd : p.channels fd = true)
    (hfd' : p.channels fd' = true) (hi : (p.chan fd).index = i) (hi' : (p.chan fd').index = i) : fd = fd' := by
  obtain ⟨j, hj, rev, hat⟩ := h.entry fd hfd
  obtain ⟨j', hj', rev', hat'⟩ := h.entry fd' hfd'
  obtain rfl : j = j' := by omega
  rw [hat] at hat'
  have hshown : shown ops fd = shown ops fd' := by
    simp only [Option.some.injEq, PollFd.mk.injEq] at hat'
    exact hat'.1
  rw [← decode_shown ops fd, ← decode_shown ops fd', hshown]

theorem apply_update_eq (hop : op ≠ .remove) :
    p.apply (fd, op) = (p.setEvents fd (op.events (p.chan fd).events)).updateChannel fd := by
  cases op with
  | remove => exact absurd rfl hop
  | _ => rfl

theorem shown_snoc_of_ne {fd' : Nat} (h : fd ≠ fd') : shown (ops ++ [(fd, op)]) fd' = shown ops fd' := by
  unfold shown
  rw [wanted_snoc_of_ne h, updates_snoc_of_ne h]

/-- An update, from outside: the mask of the one channel changes, and its place holds it. -/
theorem Tracks.updated (h : Tracks p ops) (hop : op ≠ .remove) (hgone : (fd, .remove) ∉ ops) {idx : Nat}
    (hev : ∀ f, (p'.chan f).events = if f = fd then op.events (wanted ops fd) else (p.chan f).events)
    (hidx : ∀ f, (p'.chan f).index = if f = fd then (idx : Int) else (p.chan f).index)
    (hch : p'.channels = Function.update p.channels fd true)
    (hat : p'.pollFds[idx]? = some ⟨shown (ops ++ [(fd, op)]) fd, op.events (wanted ops fd), 0⟩)
    (hrest : ∀ i : Nat, i ≠ idx → p'.pollFds[i]? = p.pollFds[i]?)
    (hown : ∀ f, p.channels f = true → ((p.chan f).index = idx ↔ f = fd)) :
    Tracks p' (ops ++ [(fd, op)]) := by
  refine ⟨fun f => ?_, fun f => ?_, fun f hf => ?_, fun f => ?_, fun f hf => ?_, fun i pfd hi => ?_⟩
  · rw [hev]
    by_cases hf : f = fd
    · rw [if_pos hf, hf, wanted_snoc_self]
    · rw [if_neg hf, wanted_snoc_of_ne (Ne.symm hf), h.events]
  · rw [hidx]
    by_cases hf : f = fd
    · rw [if_pos hf, hf, updates_snoc_self hop]
      omega
    · rw [if_neg hf, updates_snoc_of_ne (Ne.symm hf), h.fresh]
  · rcases mem_snoc.mp hf with hf | hf
    · rw [updates_snoc]
      have := h.gone f hf
      omega
    · exact absurd hf.2 hop
  · rw [hch]
    by_cases hf : f = fd
    · subst hf
      rw [Function.update_self]
      exact ⟨fun _ => registered_snoc_self hop hgone, fun _ => rfl⟩
    · rw [Function.update_of_ne hf, h.known, registered_snoc_of_ne (Ne.symm hf)]
  · by_cases heq : f = fd
    · subst heq
      refine ⟨idx, ?_, 0, ?_⟩
      · rw [hidx, if_pos rfl]
      · rw [hat, wanted_snoc_self]
    · rw [hch, Function.update_of_ne heq] at hf
      obtain ⟨i, hi, rev, hold⟩ := h.entry f hf
      refine ⟨i, ?_, rev, ?_⟩
      · rw [hidx, if_neg heq, hi]
      · have hne : i ≠ idx := by
          rintro rfl
          exact heq ((hown f hf).mp hi)
        rw [hrest i hne, hold, shown_snoc_of_ne (Ne.symm heq), wanted_snoc_of_ne (Ne.symm heq)]
  · by_cases heq : i = idx
    · refine ⟨fd, ?_, ?_⟩
      · rw [hch, Function.update_self]
      · rw [hidx, if_pos rfl, heq]
    · rw [hrest i heq] at hi
      obtain ⟨f, hf, hfi⟩ := h.owner i pfd hi
      have hne : f ≠ fd := by
        intro hsame
        have hidx' := (hown f hf).mpr hsame
        omega
      refine ⟨f, ?_, ?_⟩
      · rw [hch, Function.update_of_ne hne, hf]
      · rw [hidx, if_neg hne, hfi]

@[simp] theorem setEvents_pollFds (p : PollPoller) (fd : Nat) (ev : Events) :
    (p.setEvents fd ev).pollFds = p.pollFds := rfl

@[simp] theorem setEvents_channels (p : PollPoller) (fd : Nat) (ev : Events) :
    (p.setEvents fd ev).channels = p.channels := rfl

@[simp] theorem setEvents_index (p : PollPoller) (fd f : Nat) (ev : Events) :
    ((p.setEvents fd ev).chan f).index = (p.chan f).index := by
  simp only [setEvents, Function.update_apply]
  split
  · rename_i hf
    rw [hf]
  · rfl

@[simp] theorem setEvents_events (p : PollPoller) (fd f : Nat) (ev : Events) :
    ((p.setEvents fd ev).chan f).events = if f = fd then ev else (p.chan f).events := by
  simp only [setEvents, Function.update_apply]
  split
  · rfl
  · rfl

@[simp] theorem setIndex_index (p : PollPoller) (fd f : Nat) (idx : Int) :
    ((p.setIndex fd idx).chan f).index = if f = fd then idx else (p.chan f).index := by
  simp only [setIndex, Function.update_apply]
  split
  · rfl
  · rfl

@[simp] theorem setIndex_events (p : PollPoller) (fd f : Nat) (idx : Int) :
    ((p.setIndex fd idx).chan f).events = (p.chan f).events := by
  simp only [setIndex, Function.update_apply]
  split
  · rename_i hf
    rw [hf]
  · rfl

/-- The first update of a channel: it gets the place at the end. -/
theorem update_fresh (h : Tracks p ops) (hop : op ≠ .remove) (hgone : (fd, .remove) ∉ ops)
    (hfresh : updates ops fd = 0) :
    ∃ p', p.apply (fd, op) = some p' ∧ Tracks p' (ops ++ [(fd, op)]) := by
  have hindex : (p.chan fd).index < 0 := (h.fresh fd).mpr hfresh
  have hnot : p.channels fd = false := by
    rw [Bool.eq_false_iff, Ne, h.known]
    exact fun hreg => absurd hreg.1 (by omega)
  have hlen (pfd : PollFd) : (p.pollFds ++ [pfd]).length - 1 = p.pollFds.length := by
    rw [List.length_append, List.length_singleton, Nat.add_sub_cancel]
  have hplace : shown (ops ++ [(fd, op)]) fd = fd := by
    unfold shown
    rw [updates_snoc_self hop, hfresh, if_neg (by omega)]
  have hown (f : Nat) (hf : p.channels f = true) : (p.chan f).index = p.pollFds.length ↔ f = fd := by
    constructor
    · intro hi
      obtain ⟨i, hi', rev, hat⟩ := h.entry f hf
      have hlt : i < p.pollFds.length := (List.getElem?_eq_some_iff.mp hat).1
      omega
    · rintro rfl
      rw [hnot] at hf
      cases hf
  have hcall : p.apply (fd, op) = some
      { (p.setEvents fd (op.events (wanted ops fd))).setIndex fd p.pollFds.length with
        pollFds := p.pollFds ++ [⟨fd, op.events (wanted ops fd), 0⟩],
        channels := Function.update p.channels fd true } := by
    rw [apply_update_eq hop, h.events, updateChannel]
    simp only [setEvents_index, setEvents_events, setEvents_channels, setEvents_pollFds, hlen, if_pos hindex, hnot]
    rfl
  refine ⟨_, hcall, h.updated hop hgone (fun f => ?_) (fun f => ?_) rfl ?_ (fun i hi => ?_) hown⟩
  · change (((p.setEvents fd _).setIndex fd _).chan f).events = _
    rw [setIndex_events, setEvents_events]
  · change (((p.setEvents fd _).setIndex fd _).chan f).index = _
    rw [setIndex_index, setEvents_index]
  · change (p.pollFds ++ [_])[p.pollFds.length]? = _
    rw [List.getElem?_concat_length, hplace]
  · change (p.pollFds ++ [_])[i]? = _
    rw [List.getElem?_append]
    split
    · rfl
    · have hlarge : p.pollFds.length < i := by omega
      rw [List.getElem?_eq_none (Nat.le_of_lt hlarge), List.getElem?_eq_none]
      rw [List.length_singleton]
      omega

/-- Another update leaves the channel in its place, with what it wants now. -/
theorem update_known (h : Tracks p ops) (hop : op ≠ .remove) (hreg : Registered ops fd) :
    ∃ p', p.apply (fd, op) = some p' ∧ Tracks p' (ops ++ [(fd, op)]) := by
  have hyes : p.channels fd = true := (h.known fd).mpr hreg
  obtain ⟨idx, hidx, rev, hat⟩ := h.entry fd hyes
  have hlt : idx < p.pollFds.length := (List.getElem?_eq_some_iff.mp hat).1
  have hshown : shown ops fd = fd ∨ shown ops fd = -fd - 1 := by
    unfold shown
    split
    · exact .inr rfl
    · exact .inl rfl
  have hplace : (if op.events (wanted ops fd) = Channel.noneEvent then -(fd : Int) - 1 else fd) =
      shown (ops ++ [(fd, op)]) fd := by
    have hmore := hreg.1
    unfold shown
    rw [wanted_snoc_self, updates_snoc_self hop]
    by_cases hnone : op.events (wanted ops fd) = Channel.noneEvent
    · rw [if_pos hnone, if_pos ⟨hnone, by omega⟩]
    · rw [if_neg hnone, if_neg (fun hc => hnone hc.1)]
  have hown (f : Nat) (hf : p.channels f = true) : (p.chan f).index = idx ↔ f = fd :=
    ⟨fun hi => h.unique hf hyes hi hidx, fun hf => hf ▸ hidx⟩
  have hcall : p.apply (fd, op) = some { p.setEvents fd (op.events (wanted ops fd)) with
      pollFds := p.pollFds.set idx ⟨shown (ops ++ [(fd, op)]) fd, op.events (wanted ops fd), 0⟩ } := by
    rw [apply_update_eq hop, h.events, updateChannel]
    simp only [setEvents_index, setEvents_events, setEvents_channels, setEvents_pollFds, hyes, hidx,
      Watched.isDisableAll, Int.toNat_natCast]
    rw [if_neg (show ¬ (idx : Int) < 0 by omega), if_neg (not_not_intro trivial), hat]
    simp only [if_true, beq_iff_eq, Option.bind_eq_bind, Option.bind_some, if_pos hshown, hplace]
    rfl
  refine ⟨_, hcall, h.updated hop hreg.2 (fun f => ?_) (fun f => ?_) ?_ ?_ (fun i hi => ?_) hown⟩
  · change ((p.setEvents fd _).chan f).events = _
    rw [setEvents_events]
  · change ((p.setEvents fd _).chan f).index = _
    rw [setEvents_index]
    split
    · rename_i hf
      rw [hf, hidx]
    · rfl
  · change p.channels = _
    rw [← hyes, Function.update_eq_self]
  · change (p.pollFds.set idx _)[idx]? = _
    rw [List.getElem?_set_self hlt]
  · change (p.pollFds.set idx _)[i]? = _
    rw [List.getElem?_set_ne (Ne.symm hi)]

/-- **An update** goes through unless the channel was removed: then it has a place no more, but
still its index, and the assertion on its entry fails. -/
theorem apply_update (h : Tracks p ops) (hop : op ≠ .remove) :
    (fd, .remove) ∈ ops ∧ p.apply (fd, op) = none ∨
      (fd, .remove) ∉ ops ∧ ∃ p', p.apply (fd, op) = some p' ∧ Tracks p' (ops ++ [(fd, op)]) := by
  by_cases hgone : (fd, .remove) ∈ ops
  · refine .inl ⟨hgone, ?_⟩
    have hnot : p.channels fd = false := by
      rw [Bool.eq_false_iff, Ne, h.known]
      exact fun hreg => hreg.2 hgone
    have hold : ¬ (p.chan fd).index < 0 := by
      rw [h.fresh]
      have := h.gone fd hgone
      omega
    rw [apply_update_eq hop, updateChannel]
    simp only [setEvents_index, setEvents_channels, if_neg hold, hnot]
    rfl
  · refine .inr ⟨hgone, ?_⟩
    rcases Nat.eq_zero_or_pos (updates ops fd) with hfresh | hmore
    · exact update_fresh h hop hgone hfresh
    · exact update_known h hop ⟨hmore, hgone⟩

/-- A removal, from outside: the channel at the end moves to the hole, and the others keep their
places. -/
theorem Tracks.removed (h : Tracks p ops) (hyes : p.channels fd = true) {idx : Nat}
    (hidx : (p.chan fd).index = idx) (hev : ∀ f, (p'.chan f).events = (p.chan f).events)
    (hneg : ∀ f, (p'.chan f).index < 0 ↔ (p.chan f).index < 0)
    (hmove : ∀ f, f ≠ fd → p.channels f = true → (p'.chan f).index =
      if (p.chan f).index = (p.pollFds.length - 1 : Nat) then (idx : Int) else (p.chan f).index)
    (hch : p'.channels = Function.update p.channels fd false)
    (hfds : p'.pollFds = swapRemove p.pollFds idx) : Tracks p' (ops ++ [(fd, .remove)]) := by
  have hups (f : Nat) : updates (ops ++ [(fd, .remove)]) f = updates ops f := by
    rw [updates_snoc, if_neg (fun hc => hc.2 rfl), Nat.add_zero]
  have hint (f : Nat) : wanted (ops ++ [(fd, .remove)]) f = wanted ops f := by
    rw [wanted_snoc]
    split
    · rfl
    · rfl
  have hlt : idx < p.pollFds.length := by
    obtain ⟨i, hi, rev, hat⟩ := h.entry fd hyes
    have := (List.getElem?_eq_some_iff.mp hat).1
    omega
  refine ⟨fun f => ?_, fun f => ?_, fun f hf => ?_, fun f => ?_, fun f hf => ?_, fun i pfd hi => ?_⟩
  · rw [hev, hint, h.events]
  · rw [hneg, hups, h.fresh]
  · rw [hups]
    rcases mem_snoc.mp hf with hf | ⟨rfl, -⟩
    · exact h.gone f hf
    · exact ((h.known fd).mp hyes).1
  · rw [hch]
    by_cases hf : f = fd
    · subst hf
      rw [Function.update_self]
      refine ⟨fun hc => Bool.noConfusion hc, fun hreg => absurd ?_ hreg.2⟩
      exact mem_snoc.mpr (.inr ⟨rfl, rfl⟩)
    · rw [Function.update_of_ne hf, h.known, registered_snoc_of_ne (Ne.symm hf)]
  · have hne : f ≠ fd := by
      rintro rfl
      rw [hch, Function.update_self] at hf
      cases hf
    rw [hch, Function.update_of_ne hne] at hf
    obtain ⟨i, hi, rev, hat⟩ := h.entry f hf
    have hother : i ≠ idx := by
      rintro rfl
      exact hne (h.unique hf hyes hi hidx)
    have hi' := (List.getElem?_eq_some_iff.mp hat).1
    rw [shown_snoc_of_ne (Ne.symm hne), hint, hmove f hne hf, hfds]
    by_cases hlast : i = p.pollFds.length - 1
    · refine ⟨idx, ?_, rev, ?_⟩
      · rw [if_pos (by omega)]
      · rw [getElem?_swapRemove hlt, if_pos (by omega), if_pos rfl, ← hlast, hat]
    · refine ⟨i, ?_, rev, ?_⟩
      · rw [if_neg (by omega), hi]
      · rw [getElem?_swapRemove hlt, if_pos (by omega), if_neg hother, hat]
  · rw [hfds, getElem?_swapRemove hlt] at hi
    split at hi
    case isFalse => cases hi
    case isTrue hin =>
      split at hi
      · -- the hole: it holds the channel that was at the end
        rename_i hhole
        obtain ⟨f, hf, hfi⟩ := h.owner _ pfd hi
        have hne : f ≠ fd := by
          rintro rfl
          omega
        refine ⟨f, ?_, ?_⟩
        · rw [hch, Function.update_of_ne hne, hf]
        · rw [hmove f hne hf, if_pos hfi, hhole]
      · rename_i hother
        obtain ⟨f, hf, hfi⟩ := h.owner i pfd hi
        have hne : f ≠ fd := by
          rintro rfl
          omega
        refine ⟨f, ?_, ?_⟩
        · rw [hch, Function.update_of_ne hne, hf]
        · rw [hmove f hne hf, if_neg (by omega), hfi]

/-- A removal that is allowed goes through: its assertions are what makes it allowed. -/
theorem remove_allowed (h : Tracks p ops) (hall : Allowed ops (fd, .remove)) :
    ∃ p', p.apply (fd, .remove) = some p' ∧ Tracks p' (ops ++ [(fd, .remove)]) := by
  obtain ⟨hgone, hquiet⟩ := hall
  obtain ⟨hnone, htwice⟩ := hquiet rfl
  dsimp only at hgone hnone htwice
  have hyes : p.channels fd = true := (h.known fd).mpr ⟨by omega, hgone⟩
  obtain ⟨idx, hidx, rev, hat⟩ := h.entry fd hyes
  have hlt : idx < p.pollFds.length := (List.getElem?_eq_some_iff.mp hat).1
  have hshown : shown ops fd = -fd - 1 := if_pos ⟨hnone, htwice⟩
  have hpass : ¬ (¬ p.channels fd = true ∨ ¬ (p.chan fd).isDisableAll = true ∨ (p.chan fd).index < 0) := by
    rw [Watched.isDisableAll, h.events, hnone, hyes, hidx]
    simp
  have hcall : p.apply (fd, .remove) =
      (if idx = p.pollFds.length - 1 then
        some { p with channels := Function.update p.channels fd false, pollFds := p.pollFds.dropLast }
      else do
        let back ← p.pollFds.getLast?
        if Function.update p.channels fd false (decode back.fd) then
          return { (PollPoller.setIndex { p with channels := Function.update p.channels fd false }
            (decode back.fd) idx) with pollFds := swapRemove p.pollFds idx }
        else none) := by
    rw [apply, removeChannel, if_neg hpass, hidx, Int.toNat_natCast]
    dsimp only
    rw [hat]
    simp only [Option.bind_eq_bind, Option.bind_some, hshown, h.events, true_and, if_true]
    rfl
  rw [hcall]
  have hmax (f : Nat) (hf : p.channels f = true) : (p.chan f).index ≤ (p.pollFds.length - 1 : Nat) := by
    obtain ⟨i, hi, rev, hat⟩ := h.entry f hf
    have := (List.getElem?_eq_some_iff.mp hat).1
    omega
  split
  case isTrue hlast =>
    refine ⟨_, rfl, h.removed hyes hidx (fun _ => rfl) (fun _ => Iff.rfl) (fun f hne hf => ?_) rfl ?_⟩
    · rw [if_neg]
      intro hi
      exact hne (h.unique hf hyes (hi.trans (by rw [hlast])) hidx)
    · change p.pollFds.dropLast = _
      rw [hlast, swapRemove_last]
  case isFalse hinner =>
    have hback : p.pollFds[p.pollFds.length - 1]? = some p.pollFds[p.pollFds.length - 1] :=
      List.getElem?_eq_getElem (by omega)
    obtain ⟨f, hf, hfi⟩ := h.owner _ _ hback
    have hne : f ≠ fd := by
      rintro rfl
      omega
    have hdecode : decode p.pollFds[p.pollFds.length - 1].fd = f := by
      obtain ⟨i, hi, rev, hold⟩ := h.entry f hf
      obtain rfl : i = p.pollFds.length - 1 := by omega
      rw [hback] at hold
      rw [Option.some.inj hold]
      exact decode_shown ops f
    rw [List.getLast?_eq_getElem?, hback]
    simp only [Option.bind_eq_bind, Option.bind_some, hdecode, Function.update_of_ne hne, hf, if_true]
    refine ⟨_, rfl, h.removed hyes hidx (fun g => ?_) (fun g => ?_) (fun g hg hgreg => ?_) rfl rfl⟩
    · change ((PollPoller.setIndex _ f idx).chan g).events = _
      rw [setIndex_events]
    · change ((PollPoller.setIndex _ f idx).chan g).index < 0 ↔ _
      rw [setIndex_index]
      split
      · rename_i hgf
        rw [hgf]
        omega
      · rfl
    · change ((PollPoller.setIndex _ f idx).chan g).index = _
      rw [setIndex_index]
      by_cases hgf : g = f
      · rw [if_pos hgf, hgf, if_pos hfi]
      · rw [if_neg hgf, if_neg]
        exact fun hi => hgf (h.unique hgreg hf hi hfi)

/-- Any other removal fails an assertion. -/
theorem remove_refused (h : Tracks p ops) (hno : ¬ Allowed ops (fd, .remove)) :
    p.apply (fd, .remove) = none := by
  rw [apply, removeChannel]
  by_cases hfail : ¬ p.channels fd = true ∨ ¬ (p.chan fd).isDisableAll = true ∨ (p.chan fd).index < 0
  · rw [if_pos hfail]
  · rw [if_neg hfail]
    simp only [not_or, not_not] at hfail
    obtain ⟨hyes, hnone, -⟩ := hfail
    obtain ⟨idx, hidx, rev, hat⟩ := h.entry fd hyes
    rw [Watched.isDisableAll, h.events, beq_iff_eq] at hnone
    have honce : ¬ 2 ≤ updates ops fd :=
      fun htwice => hno ⟨((h.known fd).mp hyes).2, fun _ => ⟨hnone, htwice⟩⟩
    have hshown : shown ops fd = fd := if_neg (fun hc => honce hc.2)
    rw [hidx, Int.toNat_natCast]
    dsimp only
    rw [hat]
    simp only [Option.bind_eq_bind, Option.bind_some, hshown]
    rw [if_neg]
    omega

/-- **One operation**: it goes through exactly if it is allowed.  Both halves are needed, since
the statement about the two pollers is an equivalence. -/
theorem apply_spec (h : Tracks p ops) (x : Nat × Op) :
    ¬ Allowed ops x ∧ p.apply x = none ∨
      Allowed ops x ∧ ∃ p', p.apply x = some p' ∧ Tracks p' (ops ++ [x]) := by
  obtain ⟨fd, op⟩ := x
  by_cases hop : op = .remove
  · subst hop
    by_cases hall : Allowed ops (fd, .remove)
    · exact .inr ⟨hall, remove_allowed h hall⟩
    · exact .inl ⟨hall, remove_refused h hall⟩
  · have hiff : Allowed ops (fd, op) ↔ (fd, .remove) ∉ ops :=
      ⟨fun hall => hall.1, fun hgone => ⟨hgone, fun hc => absurd hc hop⟩⟩
    rcases (apply_update h hop : (fd, .remove) ∈ ops ∧ _ ∨ _) with ⟨hgone, hnone⟩ | ⟨hgone, hsome⟩
    · exact .inl ⟨fun hall => hiff.mp hall hgone, hnone⟩
    · exact .inr ⟨hiff.mpr hgone, hsome⟩

/-- **A run** goes through exactly if the history is proper; by induction from the end, since
what is allowed depends on what came before. -/
theorem run_spec (ops : List (Nat × Op)) :
    ¬ Proper ops ∧ run ops = none ∨ Proper ops ∧ ∃ p, run ops = some p ∧ Tracks p ops := by
  induction ops using List.reverseRecOn with
  | nil =>
    refine .inr ⟨fun before x after heq => ?_, {}, rfl, tracks_new⟩
    cases before <;> cases heq
  | append_singleton ops x ih =>
    rw [proper_snoc, run, foldlM_snoc]
    change _ ∧ (run ops).bind _ = _ ∨ _ ∧ ∃ p, (run ops).bind _ = _ ∧ _
    rcases ih with ⟨hno, hnone⟩ | ⟨hproper, p, hrun, h⟩
    · rw [hnone]
      exact .inl ⟨fun hc => hno hc.1, rfl⟩
    · rw [hrun, Option.bind_some]
      rcases apply_spec h x with ⟨hno, hnone⟩ | ⟨hall, p', hst, h'⟩
      · exact .inl ⟨fun hc => hno hc.2, hnone⟩
      · exact .inr ⟨⟨hproper, hall⟩, p', hst, h'⟩

end PollPoller

end Suduo.Poller
