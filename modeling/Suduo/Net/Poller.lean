/-
# Two pollers behind one interface

`net/poller/PollPoller.cpp` and `net/poller/EPollPoller.cpp`, as `Channel` uses them.  `PollPoller`
keeps an array of `pollfd`s with the position of each in its channel, fills the hole of a removed
one with the last, and negates the descriptor of a channel that wants nothing.  `EPollPoller` keeps
a map, and the kernel keeps the rest.

There is one channel for each descriptor here, and the descriptor stands for it: what `_channels`
maps a descriptor to is clear, and only whether it is there is kept.

A HISTORY is the operations of all channels, in order.  Some are `Proper`: a channel is not used
again once it was removed, and it is removed only while it wants nothing and not at its first
update.  The module `PollerTable` shows that these are the histories `PollPoller` bears;
`PollerAgree` compares the two.
-/
import Mathlib.Data.List.Induction
import Mathlib.Logic.Function.Basic
import Suduo.Lib.Slice
import Suduo.Net.Channel

namespace Suduo.Poller

open Lib Events

/-! ## 1. Channels -/

/-- What a poller reads and writes of a `Channel`. -/
structure Watched where
  events : Events := Channel.noneEvent
  index : Int := -1
  deriving DecidableEq, Repr

def Watched.isDisableAll (c : Watched) : Bool := c.events == Channel.noneEvent

/-- The operations of `Channel` that go to the poller. -/
inductive Op
  | enableReading | disableReading | enableWriting | disableWriting | disableAll | remove
  deriving DecidableEq, Repr

/-- What an operation makes of `_events`. -/
def Op.events : Op → Events → Events
  | .enableReading, ev => ev ||| Channel.readEvent
  | .disableReading, ev => ev &&& ~~~Channel.readEvent
  | .enableWriting, ev => ev ||| Channel.writeEvent
  | .disableWriting, ev => ev &&& ~~~Channel.writeEvent
  | .disableAll, _ => Channel.noneEvent
  | .remove, ev => ev

/-- What the kernel reports of a descriptor that is `ready`, to one who asked for `mask`. -/
def report (ready mask : Events) : Events := ready &&& (mask ||| pollHup ||| pollErr)

/-! ## 2. `PollPoller` -/

structure PollFd where
  fd : Int
  events : Events
  revents : Events
  deriving DecidableEq, Repr

structure PollPoller where
  chan : Nat → Watched := fun _ => {}
  /-- The descriptors in `_channels`. -/
  channels : Nat → Bool := fun _ => false
  pollFds : List PollFd := []

namespace PollPoller

def setIndex (p : PollPoller) (fd : Nat) (idx : Int) : PollPoller :=
  { p with chan := Function.update p.chan fd { p.chan fd with index := idx } }

def setEvents (p : PollPoller) (fd : Nat) (events : Events) : PollPoller :=
  { p with chan := Function.update p.chan fd { p.chan fd with events } }

/-- `update_channel`; `none` is an assertion that fails. -/
def updateChannel (p : PollPoller) (fd : Nat) : Option PollPoller :=
  let c := p.chan fd
  if c.index < 0 then
    if p.channels fd then none
    else
      let pollFds := p.pollFds ++ [⟨fd, c.events, 0⟩]
      some { p.setIndex fd (pollFds.length - 1 : Nat) with
        pollFds, channels := Function.update p.channels fd true }
  else if ¬ p.channels fd then none
  else do
    let idx := c.index.toNat
    let pfd ← p.pollFds[idx]?
    if pfd.fd = fd ∨ pfd.fd = -fd - 1 then
      let shown : Int := if c.isDisableAll then -fd - 1 else fd
      return { p with pollFds := p.pollFds.set idx ⟨shown, c.events, 0⟩ }
    else none

/-- The descriptor that a `pollfd` is for, negated or not. -/
def decode (fd : Int) : Nat := if fd < 0 then (-fd - 1).toNat else fd.toNat

/-- `remove_channel`.  The channel at the end moves to the hole; `_index` of the removed one stays,
which is why it cannot be used again. -/
def removeChannel (p : PollPoller) (fd : Nat) : Option PollPoller :=
  let c := p.chan fd
  if ¬ p.channels fd ∨ ¬ c.isDisableAll ∨ c.index < 0 then none
  else do
    let idx := c.index.toNat
    let pfd ← p.pollFds[idx]?
    if pfd.fd = -fd - 1 ∧ pfd.events = c.events then
      let p := { p with channels := Function.update p.channels fd false }
      if idx = p.pollFds.length - 1 then return { p with pollFds := p.pollFds.dropLast }
      else do
        let back ← p.pollFds.getLast?
        let atEnd := decode back.fd
        if p.channels atEnd then
          return { p.setIndex atEnd idx with pollFds := swapRemove p.pollFds idx }
        else none
    else none

/-- An operation of a channel: `_events` changes, then the poller is told. -/
def apply (p : PollPoller) : Nat × Op → Option PollPoller
  | (fd, .remove) => p.removeChannel fd
  | (fd, op) => (p.setEvents fd (op.events (p.chan fd).events)).updateChannel fd

def run (ops : List (Nat × Op)) : Option PollPoller := ops.foldlM apply {}

/-- `poll(2)`: negative descriptors are passed over. -/
def kernelPoll (ready : Nat → Events) (pollFds : List PollFd) : List PollFd :=
  pollFds.map fun pfd =>
    { pfd with revents := if pfd.fd < 0 then 0 else report (ready pfd.fd.toNat) pfd.events }

/-- `fill_active_channels`.  No flag of `poll.h` is the sign bit of a `short`, so `revents > 0`
is `revents != 0`. -/
def fillActiveChannels (channels : Nat → Bool) : Nat → List PollFd → List (Nat × Events)
  | 0, _ => []
  | _, [] => []
  | eventsNum + 1, pfd :: rest =>
    if pfd.revents ≠ 0 then
      if 0 ≤ pfd.fd ∧ channels pfd.fd.toNat then
        (pfd.fd.toNat, pfd.revents) :: fillActiveChannels channels eventsNum rest
      else fillActiveChannels channels eventsNum rest
    else fillActiveChannels channels (eventsNum + 1) rest

/-- `poll`: the active channels with their `revents`. -/
def poll (p : PollPoller) (ready : Nat → Events) : List (Nat × Events) :=
  let pollFds := kernelPoll ready p.pollFds
  let eventsNum := pollFds.countP fun pfd => pfd.revents ≠ 0
  fillActiveChannels p.channels eventsNum pollFds

end PollPoller

/-! ## 3. `EPollPoller` -/

structure EPollPoller where
  chan : Nat → Watched := fun _ => {}
  /-- The descriptors in `_channels`. -/
  channels : Nat → Bool := fun _ => false
  /-- The interest list of the kernel. -/
  interest : List (Nat × Events) := []

namespace EPollPoller

/-- `init_event_list_size`.  `reserve` does not change it. -/
def eventListSize : Nat := 16

/-- The kernel watches the descriptor. -/
def watches (e : EPollPoller) (fd : Nat) : Bool := e.interest.any fun x => x.1 = fd

/-- `update` with `epoll_ctl`; `none` is a call that fails: to add what is there, to change or
delete what is not. -/
def update (e : EPollPoller) (op : Channel.CtlOp) (fd : Nat) : Option EPollPoller :=
  let events := (e.chan fd).events
  match op, e.watches fd with
  | .add, false => some { e with interest := e.interest ++ [(fd, events)] }
  | .mod, true =>
    some { e with interest := e.interest.map fun x => if x.1 = fd then (fd, events) else x }
  | .del, true => some { e with interest := e.interest.filter fun x => x.1 ≠ fd }
  | .add, true | .mod, false | .del, false => none

def updateChannel (e : EPollPoller) (fd : Nat) : Option EPollPoller :=
  if e.channels fd then e.update .mod fd
  else { e with channels := Function.update e.channels fd true }.update .add fd

def removeChannel (e : EPollPoller) (fd : Nat) : Option EPollPoller :=
  if e.channels fd then { e with channels := Function.update e.channels fd false }.update .del fd
  else some e

def setEvents (e : EPollPoller) (fd : Nat) (events : Events) : EPollPoller :=
  { e with chan := Function.update e.chan fd { e.chan fd with events } }

def apply (e : EPollPoller) : Nat × Op → Option EPollPoller
  | (fd, .remove) => e.removeChannel fd
  | (fd, op) => (e.setEvents fd (op.events (e.chan fd).events)).updateChannel fd

def run (ops : List (Nat × Op)) : Option EPollPoller := ops.foldlM apply {}

/-- What the kernel has to report, in the order of the interest list. -/
def pending (e : EPollPoller) (ready : Nat → Events) : List (Nat × Events) :=
  (e.interest.map fun x => (x.1, report (ready x.1) x.2)).filter fun x => x.2 ≠ 0

/-- `epoll_wait` with `_events.size()` places, and `fill_active_channels`. -/
def poll (e : EPollPoller) (ready : Nat → Events) : List (Nat × Events) :=
  (e.pending ready).take eventListSize

end EPollPoller

/-! ## 4. Histories -/

/-- What a channel wants after `ops`. -/
def wanted (ops : List (Nat × Op)) (fd : Nat) : Events :=
  ops.foldl (fun ev x => if x.1 = fd then x.2.events ev else ev) Channel.noneEvent

/-- How often it has told the poller so. -/
def updates (ops : List (Nat × Op)) (fd : Nat) : Nat :=
  ops.countP fun x => x.1 = fd ∧ x.2 ≠ .remove

/-- It is registered: it has told the poller, and was not removed. -/
def Registered (ops : List (Nat × Op)) (fd : Nat) : Prop := 0 < updates ops fd ∧ (fd, .remove) ∉ ops

/-- One operation more at the end of a history. -/
theorem foldlM_snoc {σ α : Type} (f : σ → α → Option σ) (s : σ) (xs : List α) (x : α) :
    (xs ++ [x]).foldlM f s = (xs.foldlM f s).bind fun s' => f s' x := by
  rw [List.foldlM_append]
  cases xs.foldlM f s with
  | none => rfl
  | some s' =>
    change (f s' x >>= pure) = _
    rw [bind_pure]
    rfl

/-- An operation in its place: a channel that was removed is not used again; and it is removed
only while it wants nothing, and not at its first update.  These are what `PollPoller` asserts,
read off the history. -/
def Allowed (before : List (Nat × Op)) (x : Nat × Op) : Prop :=
  (x.1, .remove) ∉ before ∧
    (x.2 = .remove → wanted before x.1 = Channel.noneEvent ∧ 2 ≤ updates before x.1)

def Proper (ops : List (Nat × Op)) : Prop :=
  ∀ before x after, ops = before ++ x :: after → Allowed before x

section

variable {ops : List (Nat × Op)} {fd fd' : Nat} {op : Op}

theorem wanted_snoc : wanted (ops ++ [(fd, op)]) fd' =
    if fd = fd' then op.events (wanted ops fd') else wanted ops fd' := by
  unfold wanted
  rw [List.foldl_append]
  rfl

theorem updates_snoc : updates (ops ++ [(fd, op)]) fd' =
    updates ops fd' + if fd = fd' ∧ op ≠ .remove then 1 else 0 := by
  unfold updates
  rw [List.countP_append, List.countP_singleton]
  simp only [decide_eq_true_eq]

theorem mem_snoc : (fd', .remove) ∈ ops ++ [(fd, op)] ↔ (fd', .remove) ∈ ops ∨ fd = fd' ∧ op = .remove := by
  rw [List.mem_append, List.mem_singleton, Prod.mk.injEq]
  exact or_congr_right ⟨fun h => ⟨h.1.symm, h.2.symm⟩, fun h => ⟨h.1.symm, h.2.symm⟩⟩

/-- What an operation on another channel does not touch. -/
theorem wanted_snoc_of_ne (h : fd ≠ fd') : wanted (ops ++ [(fd, op)]) fd' = wanted ops fd' := by
  rw [wanted_snoc, if_neg h]

theorem updates_snoc_of_ne (h : fd ≠ fd') : updates (ops ++ [(fd, op)]) fd' = updates ops fd' := by
  rw [updates_snoc, if_neg (fun hc => h hc.1), Nat.add_zero]

theorem registered_snoc_of_ne (h : fd ≠ fd') : Registered (ops ++ [(fd, op)]) fd' ↔ Registered ops fd' := by
  unfold Registered
  rw [updates_snoc_of_ne h, mem_snoc]
  exact and_congr_right fun _ => not_congr ⟨fun hc => hc.resolve_right fun hc => h hc.1, .inl⟩

theorem wanted_snoc_self : wanted (ops ++ [(fd, op)]) fd = op.events (wanted ops fd) := by
  rw [wanted_snoc, if_pos rfl]

theorem updates_snoc_self (hop : op ≠ .remove) : updates (ops ++ [(fd, op)]) fd = updates ops fd + 1 := by
  rw [updates_snoc, if_pos ⟨rfl, hop⟩]

theorem registered_snoc_self (hop : op ≠ .remove) (hgone : (fd, .remove) ∉ ops) :
    Registered (ops ++ [(fd, op)]) fd := by
  unfold Registered
  rw [updates_snoc_self hop, mem_snoc]
  exact ⟨Nat.succ_pos _, fun hc => hc.elim hgone fun hc => hop hc.2⟩

/-- What is said of every element and of those before it, with one element more: it holds of the
others, and of the last one. -/
theorem splits_snoc {α : Type} {P : List α → α → Prop} {xs : List α} {x : α} :
    (∀ before y after, xs ++ [x] = before ++ y :: after → P before y) ↔
      (∀ before y after, xs = before ++ y :: after → P before y) ∧ P xs x := by
  constructor
  · intro h
    refine ⟨fun before y after heq => ?_, h xs x [] rfl⟩
    refine h before y (after ++ [x]) ?_
    rw [heq, List.append_assoc, List.cons_append]
  · rintro ⟨hxs, hx⟩ before y after heq
    rcases List.eq_nil_or_concat after with rfl | ⟨after, z, rfl⟩
    · obtain ⟨rfl, hsame⟩ := List.append_inj' heq rfl
      cases hsame
      exact hx
    · rw [List.concat_eq_append, ← List.cons_append, ← List.append_assoc] at heq
      exact hxs before y after (List.append_inj' heq rfl).1

theorem proper_snoc {x : Nat × Op} : Proper (ops ++ [x]) ↔ Proper ops ∧ Allowed ops x := splits_snoc

end

end Suduo.Poller
