/-
# How many events one `EPollPoller::poll` returns

`poll` and `fill_active_channels` of `net/poller/EPollPoller.cpp`, with the vector `_events` that the
kernel writes to.  What `epoll_wait` is passed is the vector's SIZE, and a full batch is one of that
size; what a full batch makes larger is the vector's CAPACITY (`reserve`).  So the next call passes
the same number again.

The kernel may choose which of the ready channels it reports, each once, as long as it reports as
many as there are or as fit.  `grows_iff` says that the batches grow with the load if and only if
the load never fills the first one.
-/
import Mathlib.Algebra.Group.Nat.Defs
import Mathlib.Data.Finset.Card
import Suduo.Lib.Reach
import Suduo.Lib.Slice
import Suduo.Net.Channel

namespace Suduo.EPollBatch

open Lib

/-! ## 1. The code -/

/-- `epoll_event`; the channel in `data.ptr` stands for itself. -/
structure EpollEvent where
  events : Events
  channel : Nat
  deriving DecidableEq, Repr

/-- `EventList`, a vector. -/
structure EventList where
  slots : List EpollEvent
  capacity : Nat
  deriving DecidableEq

def initEventListSize : Nat := 16

namespace EventList

/-- The constructor of `EPollPoller` makes a vector of zeros. -/
def new : EventList := ⟨List.replicate initEventListSize ⟨0, 0⟩, initEventListSize⟩

def size (v : EventList) : Nat := v.slots.length

/-- `vector::reserve`. -/
def reserve (v : EventList) (n : Nat) : EventList := { v with capacity := max v.capacity n }

end EventList

/-- `fill_active_channels`: what is appended to `active_channels`, with the `revents` set. -/
def fillActiveChannels (slots : List EpollEvent) (eventNum : Nat) : Option (List (Nat × Events)) :=
  (List.range eventNum).mapM fun i => do
    let event ← slots[i]?
    return (event.channel, event.events)

/-- `poll`, given what `epoll_wait` does: fail with an errno, or write a batch to the vector. -/
def poll (v : EventList) : Except Nat (List EpollEvent) → Option (List (Nat × Events) × EventList)
  | .error _ => some ([], v)
  | .ok batch => do
    let v := { v with slots := overwrite v.slots 0 batch }
    let eventNums := batch.length
    if 0 < eventNums then
      let active ← fillActiveChannels v.slots eventNums
      if eventNums = v.size then return (active, v.reserve (v.size * 2))
      else return (active, v)
    else return ([], v)

/-! ## 2. Runs under a constant load -/

/-- A batch `epoll_wait` may return of these ready channels, when it is passed `maxEvents`: as
many as there are or as fit, each once. -/
structure Returned (ready : Finset Nat) (maxEvents : Nat) (batch : List EpollEvent) : Prop where
  length : batch.length = min ready.card maxEvents
  nodup : (batch.map EpollEvent.channel).Nodup
  ready : ∀ event ∈ batch, event.channel ∈ ready

instance (ready : Finset Nat) (maxEvents : Nat) (batch : List EpollEvent) :
    Decidable (Returned ready maxEvents batch) :=
  decidable_of_iff (batch.length = min ready.card maxEvents ∧ (batch.map EpollEvent.channel).Nodup ∧
      ∀ event ∈ batch, event.channel ∈ ready)
    ⟨fun h => ⟨h.1, h.2.1, h.2.2⟩, fun h => ⟨h.length, h.nodup, h.ready⟩⟩

/-- The vector, and how many full batches there have been. -/
structure State where
  events : EventList
  full : Nat
  deriving DecidableEq

def start : State := ⟨.new, 0⟩

/-- One `poll`, with what `epoll_wait` returns. -/
def step (ready : Finset Nat) (s : State) (batch : List EpollEvent) : Option State :=
  if Returned ready s.events.size batch then do
    let (_, events) ← poll s.events (.ok batch)
    return ⟨events, if batch.length = s.events.size then s.full + 1 else s.full⟩
  else none

/-- What `fill_active_channels` makes of a batch. -/
def delivered (batch : List EpollEvent) : List (Nat × Events) :=
  batch.map fun event => (event.channel, event.events)

/-- Under this load the batches grow: in every state of every run, the next call reads the slots
that its `epoll_wait` fills; when it is full, the one after it passes twice the number; and when
there were so many full batches that `16` doubled that often is enough for all ready channels, it
delivers them all. -/
def Grows (ready : Finset Nat) : Prop :=
  ∀ s, Reach (step ready) anyStep start s → ∀ batch, Returned ready s.events.size batch →
    ∃ events, poll s.events (.ok batch) = some (delivered batch, events) ∧
      (batch.length = s.events.size → events.size = 2 * s.events.size) ∧
      (ready.card ≤ initEventListSize * 2 ^ s.full →
        ((delivered batch).map Prod.fst).toFinset = ready)

/-! ## 3. One call -/

variable {ready : Finset Nat} {s s' : State} {v : EventList} {batch : List EpollEvent} {n : Nat}

/-- The loop over slots that were all written by `epoll_wait` goes through, and reports each of
them. -/
theorem fill_eq {slots : List EpollEvent} (h : n ≤ slots.length) :
    fillActiveChannels slots n = some (delivered (slots.take n)) := by
  induction n with
  | zero => rfl
  | succ n ih =>
    have hslot : slots[n]? = some slots[n] := List.getElem?_eq_getElem h
    have hrec := ih (Nat.le_of_succ_le h)
    unfold fillActiveChannels at hrec ⊢
    rw [List.range_succ, List.mapM_append, hrec, List.take_add_one, hslot, delivered, delivered,
      List.map_append]
    simp only [List.mapM_cons, List.mapM_nil, hslot]
    rfl

/-- **One call reads exactly what `epoll_wait` wrote**, and the vector keeps its size: `reserve`
changes the capacity, which nothing is ever read from. -/
theorem poll_eq (h : batch.length ≤ v.size) :
    ∃ events, poll v (.ok batch) = some (delivered batch, events) ∧ events.size = v.size := by
  have hlen : (overwrite v.slots 0 batch).length = v.size :=
    length_overwrite (by rw [Nat.zero_add]; exact h)
  have htake : (overwrite v.slots 0 batch).take batch.length = batch := by
    have hself : slice (overwrite v.slots 0 batch) 0 (0 + batch.length) = batch :=
      slice_overwrite_self (Nat.zero_le _)
    rwa [Nat.zero_add] at hself
  have hfill : fillActiveChannels (overwrite v.slots 0 batch) batch.length = some (delivered batch) := by
    rw [fill_eq (by rw [hlen]; exact h), htake]
  unfold poll
  by_cases hpos : 0 < batch.length
  · simp only [hpos, ↓reduceIte, hfill, Option.bind_eq_bind, Option.bind_some]
    split
    · exact ⟨_, rfl, hlen⟩
    · exact ⟨_, rfl, hlen⟩
  · obtain rfl : batch = [] := List.length_eq_zero_iff.mp (by omega)
    exact ⟨_, rfl, hlen⟩

theorem Returned.length_le (h : Returned ready n batch) : batch.length ≤ n := by
  rw [h.length]
  exact Nat.min_le_right _ _

/-- **The number that `epoll_wait` is passed never changes.** -/
theorem reach_size (h : Reach (step ready) anyStep start s) : s.events.size = initEventListSize := by
  refine h.invariant (I := fun s => s.events.size = initEventListSize) List.length_replicate ?_
  intro s batch s' hsize _ hst
  unfold step at hst
  split at hst
  · rename_i hret
    obtain ⟨events, hpoll, hkeep⟩ := poll_eq hret.length_le
    rw [hpoll] at hst
    cases hst
    exact hkeep.trans hsize
  · cases hst

/-- A batch of as many different ready channels as there are is all of them. -/
theorem Returned.all (h : Returned ready n batch) (hn : ready.card ≤ n) :
    ((delivered batch).map Prod.fst).toFinset = ready := by
  have hchannels : (delivered batch).map Prod.fst = batch.map EpollEvent.channel := by
    rw [delivered, List.map_map]
    rfl
  rw [hchannels]
  refine Finset.eq_of_subset_of_card_le ?_ ?_
  · intro c hc
    obtain ⟨event, hmem, rfl⟩ := List.mem_map.mp (List.mem_toFinset.mp hc)
    exact h.ready event hmem
  · rw [List.toFinset_card_of_nodup h.nodup, List.length_map, h.length, Nat.min_eq_left hn]

/-- There is always something to return, whatever is ready: so the statements about every batch
are not empty. -/
theorem exists_returned (ready : Finset Nat) (n : Nat) : ∃ batch, Returned ready n batch := by
  refine ⟨(ready.toList.take n).map fun c => ⟨0, c⟩, ?_, ?_, ?_⟩
  · rw [List.length_map, List.length_take, Finset.length_toList, Nat.min_comm]
  · rw [List.map_map]
    have hid : (EpollEvent.channel ∘ fun c : Nat => (⟨0, c⟩ : EpollEvent)) = id := rfl
    rw [hid, List.map_id]
    exact ready.nodup_toList.sublist (List.take_sublist _ _)
  · intro event hmem
    obtain ⟨c, hc, rfl⟩ := List.mem_map.mp hmem
    exact Finset.mem_toList.mp (List.mem_of_mem_take hc)

/-! ## 4. Growing with the load -/

/-- **When batches grow with the load**: when fewer channels than the first one holds are ever
ready at once, so that no batch is full.  With more the first batch is full, and the call after
it passes the same number again (`reach_size`). -/
theorem grows_iff (ready : Finset Nat) : Grows ready ↔ ready.card < initEventListSize := by
  constructor
  · -- a full first batch changes nothing
    intro h
    by_contra hge
    obtain ⟨batch, hret⟩ := exists_returned ready start.events.size
    obtain ⟨events, hpoll, hdouble, -⟩ := h start .refl batch hret
    obtain ⟨events', hpoll', hkeep⟩ := poll_eq hret.length_le
    rw [hpoll] at hpoll'
    cases hpoll'
    have hfull : batch.length = start.events.size := by
      rw [hret.length, Nat.min_eq_right]
      exact Nat.le_of_not_lt hge
    have := hdouble hfull
    rw [hkeep] at this
    exact absurd this (by decide)
  · intro hlt s hs batch hret
    have hsize := reach_size hs
    obtain ⟨events, hpoll, -⟩ := poll_eq hret.length_le
    refine ⟨events, hpoll, fun hfull => ?_, fun _ => hret.all (by omega)⟩
    have := hret.length
    omega

/-- The first sixteen channels. -/
def firstSixteen : List EpollEvent := (List.range 16).map fun c => ⟨Events.pollIn, c⟩

/-- Seventeen ready channels: after one full batch twice sixteen would do, and the next call leaves
one of them out all the same. -/
theorem seventeen_never_all : ∃ s,
    Reach (step (Finset.range 17)) anyStep start s ∧ s.full = 1 ∧
      Returned (Finset.range 17) s.events.size firstSixteen ∧
      (poll s.events (.ok firstSixteen)).map Prod.fst = some (delivered firstSixteen) ∧
      ((delivered firstSixteen).map Prod.fst).toFinset ≠ Finset.range 17 := by
  have hrun : step (Finset.range 17) start firstSixteen =
      some ⟨⟨firstSixteen, 32⟩, 1⟩ := by decide
  exact ⟨⟨⟨firstSixteen, 32⟩, 1⟩, Reach.refl.tail firstSixteen trivial hrun, rfl, by decide,
    by decide, by decide⟩

end Suduo.EPollBatch
