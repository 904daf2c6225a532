/-
# The places of `PollPoller`, with the channels as objects

`Poller.lean` lets the descriptor stand for its channel.  Here a channel is an object with a
descriptor (`_fd`, which never changes), `_channels` maps descriptors to objects, and the assertion
`_channels[fd] == channel` compares them.  As long as no two channels share a descriptor, the one
poller refines the other (`Refines`), so what `PollerTable` knows of `PollPoller` holds of the
objects too.

A history is `Orderly` if each channel first comes with something it wants, is removed while it is
registered and wants nothing, and is not used after that.  Then every channel knows its place:
`slots_exact`.
-/
import Mathlib.Data.Set.Function
import Mathlib.Logic.Equiv.Basic
import Suduo.Net.PollerTable

namespace Suduo.Poller

open Lib Events

/-! ## 1. The poller -/

/-- `PollPoller` and the channels it serves. -/
structure Slots where
  chan : Nat → Watched := fun _ => {}
  /-- `_channels`: which channel a descriptor is mapped to. -/
  channels : Nat → Option Nat := fun _ => none
  pollFds : List PollFd := []

namespace Slots

def setIndex (s : Slots) (c : Nat) (idx : Int) : Slots :=
  { s with chan := Function.update s.chan c { s.chan c with index := idx } }

def setEvents (s : Slots) (c : Nat) (events : Events) : Slots :=
  { s with chan := Function.update s.chan c { s.chan c with events } }

/-- `update_channel`; `none` is an assertion that fails. -/
def updateChannel (fd : Nat → Nat) (s : Slots) (c : Nat) : Option Slots :=
  let channel := s.chan c
  if channel.index < 0 then
    if (s.channels (fd c)).isSome then none
    else
      let pollFds := s.pollFds ++ [⟨fd c, channel.events, 0⟩]
      some { s.setIndex c (pollFds.length - 1 : Nat) with
        pollFds, channels := Function.update s.channels (fd c) (some c) }
  else if s.channels (fd c) ≠ some c then none
  else do
    let idx := channel.index.toNat
    let pfd ← s.pollFds[idx]?
    if pfd.fd = fd c ∨ pfd.fd = -fd c - 1 then
      let shown : Int := if channel.isDisableAll then -fd c - 1 else fd c
      return { s with pollFds := s.pollFds.set idx ⟨shown, channel.events, 0⟩ }
    else none

/-- `remove_channel`. -/
def removeChannel (fd : Nat → Nat) (s : Slots) (c : Nat) : Option Slots :=
  let channel := s.chan c
  if s.channels (fd c) ≠ some c ∨ ¬ channel.isDisableAll ∨ channel.index < 0 then none
  else do
    let idx := channel.index.toNat
    let pfd ← s.pollFds[idx]?
    if pfd.fd = -fd c - 1 ∧ pfd.events = channel.events then
      let s := { s with channels := Function.update s.channels (fd c) none }
      if idx = s.pollFds.length - 1 then return { s with pollFds := s.pollFds.dropLast }
      else do
        let back ← s.pollFds.getLast?
        -- `_channels[channel_at_end]` is a null pointer if the descriptor is not there
        let atEnd ← s.channels (PollPoller.decode back.fd)
        return { s.setIndex atEnd idx with pollFds := swapRemove s.pollFds idx }
    else none

/-- An operation of a channel: `_events` changes, then the poller is told. -/
def apply (fd : Nat → Nat) (s : Slots) : Nat × Op → Option Slots
  | (c, .remove) => s.removeChannel fd c
  | (c, op) => (s.setEvents c (op.events (s.chan c).events)).updateChannel fd c

def run (fd : Nat → Nat) (ops : List (Nat × Op)) : Option Slots := ops.foldlM (apply fd) {}

/-! ## 2. It refines the poller of `Poller.lean` -/

variable {fd : Nat → Nat} {s s' : Slots} {p p' : PollPoller} {c : Nat} {op : Op}

/-- The same poller, with the channels named by their descriptors.  What the one has beyond the
other is which channel a descriptor is mapped to. -/
structure Refines (fd : Nat → Nat) (s : Slots) (p : PollPoller) : Prop where
  chan : ∀ c, s.chan c = p.chan (fd c)
  known : ∀ n, p.channels n = (s.channels n).isSome
  keyed : ∀ n c, s.channels n = some c → fd c = n
  pollFds : s.pollFds = p.pollFds

theorem refines_new (fd : Nat → Nat) : Refines fd {} {} :=
  ⟨fun _ => rfl, fun _ => rfl, fun _ _ h => absurd h (Option.some_ne_none _).symm, rfl⟩

/-- Where a descriptor is mapped, it is to the one channel that has it. -/
theorem Refines.channels_eq (h : Refines fd s p) (hfd : Function.Injective fd)
    (hyes : p.channels (fd c) = true) : s.channels (fd c) = some c := by
  rw [h.known] at hyes
  obtain ⟨c', hc'⟩ := Option.isSome_iff_exists.mp hyes
  rw [hc', hfd (h.keyed _ _ hc')]

theorem Refines.channels_none {n : Nat} (h : Refines fd s p) (hno : ¬ p.channels n = true) :
    s.channels n = none := by
  rw [h.known, Bool.not_eq_true, Option.isSome_eq_false_iff] at hno
  exact Option.isNone_iff_eq_none.mp hno

/-- The two change the same channel, because the names are as different as the channels are. -/
theorem update_chan {f g : Nat → Watched} (hfd : Function.Injective fd) (h : ∀ c, f c = g (fd c))
    (w : Watched) (c' : Nat) : Function.update f c w c' = Function.update g (fd c) w (fd c') := by
  rw [Function.update_apply, Function.update_apply, h]
  exact if_congr hfd.eq_iff.symm rfl rfl

theorem Refines.setEvents (h : Refines fd s p) (hfd : Function.Injective fd) (ev : Events) :
    Refines fd (s.setEvents c ev) (p.setEvents (fd c) ev) := by
  refine ⟨fun c' => ?_, h.known, h.keyed, h.pollFds⟩
  rw [Slots.setEvents, PollPoller.setEvents, h.chan]
  exact update_chan hfd h.chan _ c'

theorem Refines.setIndex (h : Refines fd s p) (hfd : Function.Injective fd) (idx : Int) :
    Refines fd (s.setIndex c idx) (p.setIndex (fd c) idx) := by
  refine ⟨fun c' => ?_, h.known, h.keyed, h.pollFds⟩
  rw [Slots.setIndex, PollPoller.setIndex, h.chan]
  exact update_chan hfd h.chan _ c'

theorem Refines.insert (h : Refines fd s p) :
    Refines fd { s with channels := Function.update s.channels (fd c) (some c) }
      { p with channels := Function.update p.channels (fd c) true } := by
  refine ⟨h.chan, fun n => ?_, fun n c' hc' => ?_, h.pollFds⟩
  · dsimp only
    rw [Function.update_apply, Function.update_apply, h.known]
    split
    · rfl
    · rfl
  · dsimp only at hc'
    rw [Function.update_apply] at hc'
    split at hc'
    · rename_i hn
      cases hc'
      exact hn.symm
    · exact h.keyed n c' hc'

theorem Refines.erase (h : Refines fd s p) {n : Nat} :
    Refines fd { s with channels := Function.update s.channels n none }
      { p with channels := Function.update p.channels n false } := by
  refine ⟨h.chan, fun m => ?_, fun m c' hc' => ?_, h.pollFds⟩
  · dsimp only
    rw [Function.update_apply, Function.update_apply, h.known]
    split
    · rfl
    · rfl
  · dsimp only at hc'
    rw [Function.update_apply] at hc'
    split at hc'
    · cases hc'
    · exact h.keyed m c' hc'

theorem Refines.setPollFds (h : Refines fd s p) (fds : List PollFd) :
    Refines fd { s with pollFds := fds } { p with pollFds := fds } :=
  ⟨h.chan, h.known, h.keyed, rfl⟩

theorem updateChannel_refines (h : Refines fd s p) (hfd : Function.Injective fd)
    (hp : p.updateChannel (fd c) = some p') :
    ∃ s', s.updateChannel fd c = some s' ∧ Refines fd s' p' := by
  simp only [PollPoller.updateChannel, ← h.chan, ← h.pollFds] at hp
  simp only [updateChannel]
  split at hp
  · rename_i hfirst
    rw [if_pos hfirst]
    split at hp
    · cases hp
    · rename_i hno
      cases hp
      rw [h.channels_none hno]
      exact ⟨_, rfl, ((h.setIndex hfd _).insert).setPollFds _⟩
  · rename_i hagain
    rw [if_neg hagain]
    split at hp
    · cases hp
    · rename_i hyes
      rw [not_not] at hyes
      rw [h.channels_eq hfd hyes, if_neg (not_not_intro rfl)]
      obtain ⟨pfd, hat, hp⟩ := Option.bind_eq_some_iff.mp hp
      rw [hat, Option.bind_eq_bind, Option.bind_some]
      split at hp
      · rename_i hfdok
        cases hp
        rw [if_pos hfdok]
        exact ⟨_, rfl, h.setPollFds _⟩
      · cases hp

theorem removeChannel_refines (h : Refines fd s p) (hfd : Function.Injective fd)
    (hp : p.removeChannel (fd c) = some p') :
    ∃ s', s.removeChannel fd c = some s' ∧ Refines fd s' p' := by
  simp only [PollPoller.removeChannel, ← h.chan, ← h.pollFds] at hp
  simp only [removeChannel]
  split at hp
  · cases hp
  · rename_i hpass
    simp only [not_or, not_not] at hpass
    rw [if_neg (by rw [h.channels_eq hfd hpass.1]; simpa using hpass.2)]
    obtain ⟨pfd, hat, hp⟩ := Option.bind_eq_some_iff.mp hp
    rw [hat, Option.bind_eq_bind, Option.bind_some]
    split at hp
    · rename_i hfdok
      rw [if_pos hfdok]
      have herased := h.erase (n := fd c)
      split at hp
      · rename_i hlast
        cases hp
        rw [if_pos hlast]
        exact ⟨_, rfl, herased.setPollFds _⟩
      · -- the last channel moves to the hole, and is found by its descriptor
        rename_i hinner
        rw [if_neg hinner]
        obtain ⟨back, hback, hp⟩ := Option.bind_eq_some_iff.mp hp
        rw [hback, Option.bind_some]
        split at hp
        · rename_i hend
          cases hp
          obtain ⟨atEnd, hatEnd⟩ := Option.isSome_iff_exists.mp ((herased.known _).symm.trans hend)
          dsimp only at hatEnd
          rw [hatEnd, Option.bind_eq_bind, Option.bind_some]
          refine ⟨_, rfl, ?_⟩
          rw [← herased.keyed _ _ hatEnd]
          exact (herased.setIndex hfd _).setPollFds _
        · cases hp
    · cases hp

theorem apply_refines (h : Refines fd s p) (hfd : Function.Injective fd) (x : Nat × Op)
    (hp : p.apply (fd x.1, x.2) = some p') : ∃ s', s.apply fd x = some s' ∧ Refines fd s' p' := by
  obtain ⟨c, op⟩ := x
  by_cases hop : op = .remove
  · subst hop
    exact removeChannel_refines h hfd hp
  · have hcall : s.apply fd (c, op) =
        (s.setEvents c (op.events (s.chan c).events)).updateChannel fd c := by
      cases op with
      | remove => exact absurd rfl hop
      | _ => rfl
    rw [PollPoller.apply_update_eq hop, ← h.chan] at hp
    rw [hcall]
    exact updateChannel_refines (h.setEvents hfd _) hfd hp

/-- A history, with the channels named by their descriptors. -/
def byFd (fd : Nat → Nat) (ops : List (Nat × Op)) : List (Nat × Op) := ops.map fun x => (fd x.1, x.2)

theorem byFd_snoc (ops : List (Nat × Op)) (x : Nat × Op) :
    byFd fd (ops ++ [x]) = byFd fd ops ++ [(fd x.1, x.2)] := by
  rw [byFd, List.map_append]
  rfl

/-- **A run of the one is a run of the other.**  So whatever `PollerTable` knows of the second
holds of the objects. -/
theorem run_refines (hfd : Function.Injective fd) (ops : List (Nat × Op))
    (hp : PollPoller.run (byFd fd ops) = some p) : ∃ s, run fd ops = some s ∧ Refines fd s p := by
  induction ops using List.reverseRecOn generalizing p with
  | nil =>
    cases hp
    exact ⟨{}, rfl, refines_new fd⟩
  | append_singleton ops x ih =>
    rw [byFd_snoc, PollPoller.run, foldlM_snoc] at hp
    obtain ⟨q, hq, hlast⟩ := Option.bind_eq_some_iff.mp hp
    obtain ⟨s, hs, h⟩ := ih hq
    obtain ⟨s', hs', h'⟩ := apply_refines h hfd x hlast
    refine ⟨s', ?_, h'⟩
    rw [run, foldlM_snoc]
    exact Option.bind_eq_some_iff.mpr ⟨s, hs, hs'⟩

/-! ## 3. Histories -/

section

variable {ops : List (Nat × Op)}

theorem wanted_byFd (hfd : Function.Injective fd) (c : Nat) :
    wanted (byFd fd ops) (fd c) = wanted ops c := by
  unfold wanted byFd
  rw [List.foldl_map]
  simp only [hfd.eq_iff]

theorem updates_byFd (hfd : Function.Injective fd) (c : Nat) :
    updates (byFd fd ops) (fd c) = updates ops c := by
  unfold updates byFd
  rw [List.countP_map]
  refine List.countP_congr fun x _ => ?_
  simp only [Function.comp_apply, hfd.eq_iff]

theorem removed_byFd (hfd : Function.Injective fd) (c : Nat) :
    (fd c, .remove) ∈ byFd fd ops ↔ (c, .remove) ∈ ops := by
  unfold byFd
  rw [List.mem_map]
  constructor
  · rintro ⟨⟨c', op⟩, hmem, heq⟩
    obtain ⟨hc, rfl⟩ := Prod.mk.inj heq
    rwa [← hfd hc]
  · intro hmem
    exact ⟨_, hmem, rfl⟩

theorem registered_byFd (hfd : Function.Injective fd) (c : Nat) :
    Registered (byFd fd ops) (fd c) ↔ Registered ops c := by
  rw [Registered, Registered, updates_byFd hfd, removed_byFd hfd]

/-- An operation in its place: a channel that was removed is not used again, one that is removed is
registered and wants nothing, and one that is new wants something. -/
def Fits (before : List (Nat × Op)) (x : Nat × Op) : Prop :=
  (x.1, .remove) ∉ before ∧
    (x.2 = .remove → Registered before x.1 ∧ wanted before x.1 = Channel.noneEvent) ∧
    (updates before x.1 = 0 → x.2.events (wanted before x.1) ≠ Channel.noneEvent)

def Orderly (ops : List (Nat × Op)) : Prop :=
  ∀ before x after, ops = before ++ x :: after → Fits before x

theorem orderly_snoc {x : Nat × Op} : Orderly (ops ++ [x]) ↔ Orderly ops ∧ Fits ops x := splits_snoc

instance (ops : List (Nat × Op)) (c : Nat) : Decidable (Registered ops c) :=
  inferInstanceAs (Decidable (_ ∧ _))

instance (before : List (Nat × Op)) (x : Nat × Op) : Decidable (Fits before x) :=
  inferInstanceAs (Decidable (_ ∧ (_ → _ ∧ _) ∧ (_ → _)))

/-- It can be checked one place after the other, each against the history before it. -/
theorem orderly_iff_take :
    Orderly ops ↔ ∀ (i : Nat) (h : i < ops.length), Fits (ops.take i) (ops.get ⟨i, h⟩) := by
  constructor
  · intro h i hi
    refine h (ops.take i) _ (ops.drop (i + 1)) ?_
    rw [List.get_eq_getElem, List.getElem_cons_drop, List.take_append_drop]
  · rintro h before x after rfl
    have hat := h before.length (by rw [List.length_append, List.length_cons]; omega)
    rwa [List.take_left, List.get_eq_getElem, List.getElem_append_right (Nat.le_refl _),
      List.getElem_cons, dif_pos (Nat.sub_self _)] at hat

instance (ops : List (Nat × Op)) : Decidable (Orderly ops) := decidable_of_iff _ orderly_iff_take.symm

/-- A channel that has told the poller once wants something. -/
theorem Orderly.wants_first (h : Orderly ops) (c : Nat) (honce : updates ops c = 1) :
    wanted ops c ≠ Channel.noneEvent := by
  induction ops using List.reverseRecOn with
  | nil => cases honce
  | append_singleton ops x ih =>
    obtain ⟨c', op⟩ := x
    obtain ⟨hops, -, -, hnew⟩ := orderly_snoc.mp h
    by_cases heq : c' = c
    · subst heq
      rw [wanted_snoc_self]
      by_cases hop : op = .remove
      · subst hop
        rw [updates_snoc, if_neg (fun hh => hh.2 rfl), Nat.add_zero] at honce
        exact ih hops honce
      · rw [updates_snoc_self hop, Nat.add_eq_right] at honce
        exact hnew honce
    · rw [updates_snoc_of_ne heq] at honce
      rw [wanted_snoc_of_ne heq]
      exact ih hops honce

/-- So an orderly history is one that `PollPoller` bears: a channel that wants something at its
first update and nothing at its removal has had two. -/
theorem Orderly.proper (h : Orderly ops) (hfd : Function.Injective fd) : Proper (byFd fd ops) := by
  induction ops using List.reverseRecOn with
  | nil =>
    intro before x after heq
    cases before <;> cases heq
  | append_singleton ops x ih =>
    obtain ⟨hops, hgone, hremove, -⟩ := orderly_snoc.mp h
    rw [byFd_snoc, proper_snoc]
    refine ⟨ih hops, ?_, fun hop => ?_⟩
    · rwa [removed_byFd hfd]
    · obtain ⟨hreg, hnone⟩ := hremove hop
      rw [wanted_byFd hfd, updates_byFd hfd]
      refine ⟨hnone, ?_⟩
      have honce : updates ops x.1 ≠ 1 := fun honce => hops.wants_first x.1 honce hnone
      have hsome := hreg.1
      omega

end

/-! ## 4. The places -/

/-- **Every registered channel knows its place**, and `_channels` knows the channel.  The places
are the positions of the array, none missing and none twice. -/
structure Exact (fd : Nat → Nat) (s : Slots) (ops : List (Nat × Op)) : Prop where
  wants : ∀ c, (s.chan c).events = wanted ops c
  known : ∀ n c, s.channels n = some c ↔ Registered ops c ∧ fd c = n
  place : ∀ c, Registered ops c → ∃ i : Nat, (s.chan c).index = i ∧ ∃ revents, s.pollFds[i]? =
    some ⟨if (s.chan c).isDisableAll then -fd c - 1 else fd c, (s.chan c).events, revents⟩
  places : Set.BijOn (fun c => (s.chan c).index.toNat) {c | Registered ops c} {i | i < s.pollFds.length}

/-- **The places are exact.**  Whatever channels with descriptors of their own do, in an orderly
history: no assertion of `update_channel` or `remove_channel` fails; the registered channels and the
`pollfd`s are in bijection by `_index`; what stands at a channel's place is its mask and its
descriptor, negated exactly if it wants nothing; and `_channels` maps exactly the descriptors of the
registered channels, each to its channel.

The invariant is that of `PollerTable`, the array and the channels pointing at each other, taken
over to the objects by `run_refines`. -/
theorem slots_exact (fd : Nat → Nat) (hfd : Function.Injective fd) (ops : List (Nat × Op))
    (h : Orderly ops) : ∃ s, run fd ops = some s ∧ Exact fd s ops := by
  rcases PollPoller.run_spec (byFd fd ops) with ⟨hno, -⟩ | ⟨-, p, hp, htracks⟩
  · exact absurd (h.proper hfd) hno
  · obtain ⟨s, hs, href⟩ := run_refines hfd ops hp
    have hwants (c : Nat) : (s.chan c).events = wanted ops c := by
      rw [href.chan, htracks.events, wanted_byFd hfd]
    have hknown (c : Nat) : p.channels (fd c) = true ↔ Registered ops c := by
      rw [htracks.known, registered_byFd hfd]
    have hplace (c : Nat) (hreg : Registered ops c) : ∃ i : Nat, (s.chan c).index = i ∧
        ∃ revents, s.pollFds[i]? = some
          ⟨if (s.chan c).isDisableAll then -fd c - 1 else fd c, (s.chan c).events, revents⟩ := by
      obtain ⟨i, hi, rev, hat⟩ := htracks.entry (fd c) ((hknown c).mpr hreg)
      have hnegated : wanted ops c = Channel.noneEvent ∧ 2 ≤ updates ops c ↔ (s.chan c).isDisableAll = true := by
        rw [Watched.isDisableAll, beq_iff_eq, hwants]
        refine ⟨And.left, fun hnone => ⟨hnone, ?_⟩⟩
        have hsome := hreg.1
        have honce : updates ops c ≠ 1 := fun honce => h.wants_first c honce hnone
        omega
      refine ⟨i, by rw [href.chan, hi], rev, ?_⟩
      rw [href.pollFds, hat, wanted_byFd hfd, hwants, PollPoller.shown, wanted_byFd hfd,
        updates_byFd hfd, if_congr hnegated rfl rfl]
    refine ⟨s, hs, hwants, fun n c => ?_, hplace, ?_⟩
    · constructor
      · intro hc
        have hn := href.keyed n c hc
        refine ⟨(hknown c).mp ?_, hn⟩
        rw [href.known, hn, hc]
        rfl
      · rintro ⟨hreg, rfl⟩
        exact href.channels_eq hfd ((hknown c).mpr hreg)
    · refine ⟨fun c hreg => ?_, fun c hreg c' hreg' hsame => ?_, fun i hi => ?_⟩
      · obtain ⟨i, hindex, rev, hat⟩ := hplace c hreg
        dsimp only
        rw [hindex, Int.toNat_natCast]
        exact (List.getElem?_eq_some_iff.mp hat).1
      · obtain ⟨i, hindex, -⟩ := hplace c hreg
        obtain ⟨i', hindex', -⟩ := hplace c' hreg'
        dsimp only at hsame
        rw [hindex, hindex', Int.toNat_natCast, Int.toNat_natCast] at hsame
        subst hsame
        rw [href.chan] at hindex hindex'
        exact hfd (htracks.unique ((hknown c).mpr hreg) ((hknown c').mpr hreg') hindex hindex')
      · -- whoever owns the place in the one poller is mapped to a channel in the other
        have hin : i < p.pollFds.length := href.pollFds ▸ hi
        obtain ⟨n, hn, hindex⟩ := htracks.owner i _ (List.getElem?_eq_getElem hin)
        obtain ⟨c, hc⟩ := Option.isSome_iff_exists.mp ((href.known n).symm.trans hn)
        obtain rfl := href.keyed n c hc
        refine ⟨c, (hknown c).mp hn, ?_⟩
        dsimp only
        rw [href.chan, hindex, Int.toNat_natCast]

/-- Channels 0, 1 and 2, with descriptors 2, 1 and 0.  When channel 0 is removed, channel 2 moves to its
place; it wants nothing, and is found by the negated descriptor 0. -/
def threeChannels : List (Nat × Op) :=
  [(0, .enableReading), (1, .enableWriting), (2, .enableReading), (2, .disableAll), (0, .disableAll),
    (0, .remove)]

theorem slots_exact_threeChannels : ∃ s, run (Equiv.swap 0 2) threeChannels = some s ∧
    (s.chan 2).index = 0 ∧ s.pollFds = [⟨-1, 0, 0⟩, ⟨1, 4, 0⟩] ∧ s.channels 0 = some 2 := by
  have hrun : (run (Equiv.swap 0 2) threeChannels).any fun s =>
      (s.chan 2).index = 0 ∧ s.pollFds = [⟨-1, 0, 0⟩, ⟨1, 4, 0⟩] := by decide +kernel
  obtain ⟨s, hs, hexact⟩ :=
    slots_exact (Equiv.swap 0 2) (Equiv.swap 0 2).injective threeChannels (by decide +kernel)
  rw [hs] at hrun
  have hplace := of_decide_eq_true hrun
  exact ⟨s, hs, hplace.1, hplace.2, (hexact.known 0 2).mpr (by decide +kernel)⟩

end Slots

end Suduo.Poller
