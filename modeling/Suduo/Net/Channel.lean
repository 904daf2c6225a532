/-
# `Channel` and its registration with `EPollPoller`

`net/Channel.h`, `net/Channel.cpp` and the two `epoll_ctl` paths of `net/poller/EPollPoller.cpp`, for
one file descriptor.  Every change of `_events` goes to the poller at once.  `EPollPoller` never
takes a channel out because its mask is empty: it is a `MOD` like any other, so the kernel keeps the
descriptor and goes on reporting hang-ups and errors for it, until `remove`.

`handleEvent` is the dispatch on `revents`: which of the four callbacks run, in the order of the code.
-/
import Mathlib.Tactic.Basic

namespace Suduo

/-! ## 1. Event masks -/

/-- `uint32_t` masks of `poll.h`; epoll uses the same bits. -/
abbrev Events := BitVec 32

namespace Events

def pollIn : Events := 0x001
def pollPri : Events := 0x002
def pollOut : Events := 0x004
def pollErr : Events := 0x008
def pollHup : Events := 0x010
def pollNval : Events := 0x020
def pollRdhup : Events := 0x2000

/-- `revents & mask`, as a condition. -/
def has (revents mask : Events) : Bool := revents &&& mask != 0

end Events

open Events

/-! ## 2. The channel and the poller -/

/-- A `Channel` with what the poller and the kernel know of its descriptor. -/
structure Channel where
  events : Events
  /-- `Poller::_channels` holds the descriptor. -/
  inChannels : Bool
  /-- The mask in the kernel's interest list. -/
  interest : Option Events
  /-- `epoll_ctl` calls the kernel has refused; in a release build nothing comes of it. -/
  refused : Nat
  deriving DecidableEq, Repr

namespace Channel

def new : Channel := ⟨0, false, none, 0⟩

def noneEvent : Events := 0

def readEvent : Events := pollIn ||| pollPri

def writeEvent : Events := pollOut

def isDisableAll (c : Channel) : Bool := c.events == noneEvent

def isWriting (c : Channel) : Bool := c.events.has writeEvent

def isReading (c : Channel) : Bool := c.events.has readEvent

inductive CtlOp
  | add
  | mod
  | del
  deriving DecidableEq, Repr

/-- `EPollPoller::update`: `epoll_ctl`, which refuses to add twice and to change what is not
there.  A refusal is logged and nothing else comes of it. -/
def ctl (c : Channel) (op : CtlOp) : Channel :=
  match op, c.interest with
  | .add, none | .mod, some _ => { c with interest := some c.events }
  | .del, some _ => { c with interest := none }
  | .add, some _ | .mod, none | .del, none => { c with refused := c.refused + 1 }

/-- `EPollPoller::update_channel`. -/
def update (c : Channel) : Channel :=
  if c.inChannels then c.ctl .mod else { c with inChannels := true }.ctl .add

/-- `EPollPoller::remove_channel`. -/
def remove (c : Channel) : Channel :=
  if c.inChannels then { c with inChannels := false }.ctl .del else c

def enableReading (c : Channel) : Channel := { c with events := c.events ||| readEvent }.update

def disableReading (c : Channel) : Channel := { c with events := c.events &&& ~~~readEvent }.update

def enableWriting (c : Channel) : Channel := { c with events := c.events ||| writeEvent }.update

def disableWriting (c : Channel) : Channel := { c with events := c.events &&& ~~~writeEvent }.update

def disableAll (c : Channel) : Channel := { c with events := noneEvent }.update

/-- The kernel may report `revents`: it watches the descriptor, and every bit is one it was asked
for, or a hang-up or an error, which it reports unasked.  So a channel whose mask is empty can
still have events. -/
def reports (c : Channel) (revents : Events) : Bool :=
  match c.interest with
  | none => false
  | some mask => revents &&& ~~~(mask ||| pollHup ||| pollErr) == 0

/-- The callbacks of a channel. -/
inductive Callback
  | close
  | error
  | read
  | write
  deriving DecidableEq, Repr

/-- The close callback runs. -/
def hangsUp (revents : Events) : Bool := revents.has pollHup && !revents.has pollIn

/-- The read callback runs. -/
def readable (revents : Events) : Bool := revents.has (pollIn ||| pollPri ||| pollRdhup)

/-- `Channel::handle_event_with_guard`: the callbacks it runs, in order. -/
def handleEvent (revents : Events) : List Callback :=
  (if hangsUp revents then [.close] else []) ++
  (if revents.has (pollErr ||| pollNval) then [.error] else []) ++
  (if readable revents then [.read] else []) ++
  (if revents.has pollOut then [.write] else [])

/-- **An event, taken apart**: each callback runs at most once, in the order of the code, and
which of them run is decided by `revents` alone, whatever the earlier ones do. -/
theorem foldlM_handleEvent {σ : Type} {run : σ → Callback → Option σ} {revents : Events} {s s' : σ}
    (h : (handleEvent revents).foldlM run s = some s') :
    ∃ s₁ s₂ s₃,
      (if hangsUp revents then run s .close = some s₁ else s₁ = s) ∧
      (if revents.has (pollErr ||| pollNval) then run s₁ .error = some s₂ else s₂ = s₁) ∧
      (if readable revents then run s₂ .read = some s₃ else s₃ = s₂) ∧
      (if revents.has pollOut then run s₃ .write = some s' else s' = s₃) := by
  simp only [handleEvent, List.foldlM_append, Option.bind_eq_bind, Option.bind_eq_some_iff] at h
  obtain ⟨s₃, ⟨s₂, ⟨s₁, h₁, h₂⟩, h₃⟩, h₄⟩ := h
  refine ⟨s₁, s₂, s₃, ?_, ?_, ?_, ?_⟩
  · split <;> simp_all
  · split <;> simp_all
  · split <;> simp_all
  · split <;> simp_all

/-! ## 3. What each operation does to the mask -/

@[simp] theorem ctl_events (c : Channel) (op : CtlOp) : (c.ctl op).events = c.events := by
  unfold ctl
  split <;> rfl

@[simp] theorem update_events (c : Channel) : c.update.events = c.events := by
  unfold update
  split <;> simp

@[simp] theorem remove_events (c : Channel) : c.remove.events = c.events := by
  unfold remove
  split <;> simp

theorem isWriting_of_events {c d : Channel} (h : c.events = d.events) :
    c.isWriting = d.isWriting := by rw [isWriting, isWriting, h]

@[simp] theorem isWriting_remove (c : Channel) : c.remove.isWriting = c.isWriting :=
  isWriting_of_events c.remove_events

@[simp] theorem isWriting_enableReading (c : Channel) :
    c.enableReading.isWriting = c.isWriting := by
  have h : (c.events ||| readEvent) &&& writeEvent = c.events &&& writeEvent := by
    have hdisjoint : readEvent &&& writeEvent = 0#32 := by decide
    rw [BitVec.and_or_distrib_right, hdisjoint, BitVec.or_zero]
  simp [isWriting, enableReading, has, h]

@[simp] theorem isWriting_disableReading (c : Channel) :
    c.disableReading.isWriting = c.isWriting := by
  have h : c.events &&& ~~~readEvent &&& writeEvent = c.events &&& writeEvent := by
    have hkept : ~~~readEvent &&& writeEvent = writeEvent := by decide
    rw [BitVec.and_assoc, hkept]
  simp [isWriting, disableReading, has, h]

@[simp] theorem isWriting_enableWriting (c : Channel) : c.enableWriting.isWriting = true := by
  have h : (c.events ||| writeEvent) &&& writeEvent ≠ 0#32 := by
    rw [BitVec.and_or_distrib_right, BitVec.and_self, ne_eq, BitVec.or_eq_zero_iff]
    exact fun hzero => absurd hzero.2 (by decide)
  simpa [isWriting, enableWriting, has] using h

@[simp] theorem isWriting_disableWriting (c : Channel) : c.disableWriting.isWriting = false := by
  have h : c.events &&& ~~~writeEvent &&& writeEvent = 0#32 := by
    have hcleared : ~~~writeEvent &&& writeEvent = 0#32 := by decide
    rw [BitVec.and_assoc, hcleared, BitVec.and_zero]
  simp [isWriting, disableWriting, has, h]

@[simp] theorem isWriting_disableAll (c : Channel) : c.disableAll.isWriting = false := by
  have h : noneEvent &&& writeEvent = 0#32 := by decide
  simp [isWriting, disableAll, has, h]

end Channel

end Suduo
