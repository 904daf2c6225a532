/-
# `Connector`: attempts to connect, on one loop

`net/Connector.cpp`.  All of it runs on the loop thread: the calls `start`, `stop` and `restart`
(`TcpClient::connect`, `stop` and `remove_connection`), the functors they leave in the loop's queue,
the events of the connecting channel, and the retry timers.  `run_in_loop` on that thread runs at
once, so `start` is `start_in_loop`; `stop_in_loop` and `reset_channel` are queued.

Sockets are numbered as `connect` creates them, since the kernel gives a closed descriptor out
again.  What `connect(2)`, `SO_ERROR` and `is_self_connect` answer is in the labels.  A failed assertion
is recorded and the run goes on, as under `NDEBUG`; `remove_and_reset_channel` on an empty `_channel`
ends it.  No event of a channel that `_channel` has let go is dispatched: the object is gone.

A call that user code makes inside the new-connection callback comes last in `handle_write`, so it
is a step of its own here.
-/
import Suduo.Lib.Reach
import Suduo.Net.Channel

namespace Suduo.Connector

open Lib

/-! ## 1. The state -/

/-- `Connector::State`. -/
inductive ConnState
  | disconnected
  | connecting
  | connected
  deriving DecidableEq, Repr

/-- `saved_errno` in `connect`: every case of the switch, and the default. -/
inductive Errno
  | ok
  | einprogress
  | eintr
  | eisconn
  | eagain
  | eaddrinuse
  | eaddrnotavail
  | econnrefused
  | enetunreach
  | eacces
  | eperm
  | eafnosupport
  | ealready
  | ebadf
  | efault
  | enotsock
  | other
  deriving DecidableEq, Repr

/-- The functors of a connector in the loop's queue. -/
inductive Functor
  | stopInLoop
  | resetChannel
  deriving DecidableEq, Repr

inductive Assertion
  /-- `_state == Disconnected` in `start_in_loop`. -/
  | startInLoop
  /-- `!_channel` in `connecting`. -/
  | connecting
  /-- `_state == Disconnected` in `handle_write`. -/
  | handleWrite
  deriving DecidableEq, Repr

/-- A socket, by the order in which `connect` created it. -/
abbrev Sock := Nat

/-- What `_channel` points to. -/
structure Attempt where
  sock : Sock
  channel : Channel
  deriving DecidableEq, Repr

def maxRetryDelayMs : Nat := 30 * 1000

def initRetryDelayMs : Nat := 500

/-- A connector, its loop's queue and timers, and what has become of its sockets.  The last three
lists are the account of the sockets: created, closed and handed over. -/
structure State where
  /-- `_connect`. -/
  wanted : Bool
  state : ConnState
  channel : Option Attempt
  retryDelayMs : Nat
  pendingFunctors : List Functor
  /-- The delays of the `start_in_loop` timers still to fire. -/
  timers : List Nat
  failed : List Assertion
  /-- How many sockets `connect` has created. -/
  created : Nat
  /-- Each `sockets::close`, and each call of the new-connection callback. -/
  closed : List Sock
  handed : List Sock
  deriving DecidableEq, Repr

def State.init : State where
  wanted := false
  state := .disconnected
  channel := none
  retryDelayMs := initRetryDelayMs
  pendingFunctors := []
  timers := []
  failed := []
  created := 0
  closed := []
  handed := []

namespace State

/-! ## 2. Attempts -/

def setState (c : State) (s : ConnState) : State := { c with state := s }

/-- `assert`. -/
def assert (c : State) (a : Assertion) (holds : Bool) : State :=
  if holds then c else { c with failed := c.failed ++ [a] }

/-- `sockets::close`. -/
def close (c : State) (sock : Sock) : State := { c with closed := c.closed ++ [sock] }

def retry (c : State) (sock : Sock) : State :=
  let c := (c.close sock).setState .disconnected
  if c.wanted then
    { c with
      timers := c.timers ++ [c.retryDelayMs]
      retryDelayMs := min (c.retryDelayMs * 2) maxRetryDelayMs }
  else c

def connecting (c : State) (sock : Sock) : State :=
  let c := (c.setState .connecting).assert .connecting c.channel.isNone
  { c with channel := some ⟨sock, Channel.new.enableWriting⟩ }

def connect (c : State) (errno : Errno) : State :=
  let sock := c.created
  let c := { c with created := c.created + 1 }
  match errno with
  | .ok | .einprogress | .eintr | .eisconn => c.connecting sock
  | .eagain | .eaddrinuse | .eaddrnotavail | .econnrefused | .enetunreach => c.retry sock
  | .eacces | .eperm | .eafnosupport | .ealready | .ebadf | .efault | .enotsock => c.close sock
  | .other => c.close sock

def startInLoop (c : State) (errno : Errno) : State :=
  let c := c.assert .startInLoop (c.state == .disconnected)
  if c.wanted then c.connect errno else c

/-- `start`, on the loop thread. -/
def start (c : State) (errno : Errno) : State := { c with wanted := true }.startInLoop errno

def restart (c : State) (errno : Errno) : State :=
  { c.setState .disconnected with
    retryDelayMs := initRetryDelayMs, wanted := true }.startInLoop errno

def queueInLoop (c : State) (f : Functor) : State :=
  { c with pendingFunctors := c.pendingFunctors ++ [f] }

def stop (c : State) : State := { c with wanted := false }.queueInLoop .stopInLoop

/-! ## 3. Functors and events -/

/-- `remove_and_reset_channel`, with the descriptor it returns. -/
def removeAndResetChannel (c : State) : Option (Sock × State) :=
  match c.channel with
  | some a =>
    let channel := some { a with channel := a.channel.disableAll.remove }
    some (a.sock, { c with channel := channel }.queueInLoop .resetChannel)
  | none => none

def resetChannel (c : State) : State := { c with channel := none }

def stopInLoop (c : State) : Option State :=
  if c.state = .connecting then do
    let (sock, c) ← (c.setState .disconnected).removeAndResetChannel
    return c.retry sock
  else some c

def runFunctor (c : State) : Functor → Option State
  | .stopInLoop => c.stopInLoop
  | .resetChannel => some c.resetChannel

/-- What the kernel reports of the connecting socket. -/
structure Event where
  revents : Events
  soError : Nat
  selfConnect : Bool
  deriving DecidableEq, Repr

/-- The end of `handle_write`: what comes of a socket that is taken off the poller, by the error
the kernel keeps for it and by who is at the other end. -/
def settle (c : State) (e : Event) (sock : Sock) : State :=
  if e.soError ≠ 0 then c.retry sock
  else if e.selfConnect then c.retry sock
  else
    let c := c.setState .connected
    if c.wanted then { c with handed := c.handed ++ [sock] } else c.close sock

def handleWrite (c : State) (e : Event) : Option State :=
  if c.state = .connecting then do
    let (sock, c) ← c.removeAndResetChannel
    return c.settle e sock
  else some (c.assert .handleWrite (c.state == .disconnected))

def handleError (c : State) : Option State :=
  if c.state = .connecting then do
    let (sock, c) ← c.removeAndResetChannel
    return c.retry sock
  else some c

/-- One of the channel's callbacks; those to read and to close are not set. -/
def handleCallback (e : Event) (c : State) : Channel.Callback → Option State
  | .close | .read => some c
  | .error => c.handleError
  | .write => c.handleWrite e

/-- `Channel::handle_event`. -/
def handleEvent (c : State) (e : Event) : Option State :=
  (Channel.handleEvent e.revents).foldlM (handleCallback e) c

end State

/-! ## 4. The steps -/

/-- What can happen next. -/
inductive Label
  | start (errno : Errno)
  | stop
  | restart (errno : Errno)
  | runFunctor
  /-- The `i`th of the outstanding timers fires. -/
  | timerFires (i : Nat) (errno : Errno)
  | event (e : State.Event)
  deriving DecidableEq, Repr

def State.step (c : State) : Label → Option State
  | .start errno => some (c.start errno)
  | .stop => some c.stop
  | .restart errno => some (c.restart errno)
  | .runFunctor =>
    match c.pendingFunctors with
    | f :: rest => { c with pendingFunctors := rest }.runFunctor f
    | [] => none
  | .timerFires i errno =>
    if i < c.timers.length then
      some ({ c with timers := c.timers.eraseIdx i }.startInLoop errno)
    else none
  | .event e =>
    match c.channel with
    | some a => if a.channel.reports e.revents then c.handleEvent e else none
    | none => none

/-! ## 5. Inversion -/

/-- What `remove_and_reset_channel` leaves of an attempt. -/
def State.detach (c : State) (a : Attempt) : State :=
  { c with channel := some { a with channel := a.channel.disableAll.remove } }.queueInLoop .resetChannel

variable {c c' : State}

theorem removeAndResetChannel_cases {sock : Sock} (h : c.removeAndResetChannel = some (sock, c')) :
    ∃ a, c.channel = some a ∧ sock = a.sock ∧ c' = c.detach a := by
  simp only [State.removeAndResetChannel] at h
  split at h
  · rename_i a hch
    cases h
    exact ⟨a, hch, rfl, rfl⟩
  · cases h

theorem stopInLoop_cases (h : c.stopInLoop = some c') :
    (∃ a, c.state = .connecting ∧ c.channel = some a ∧
      c' = ((c.setState .disconnected).detach a).retry a.sock) ∨
    c.state ≠ .connecting ∧ c' = c := by
  simp only [State.stopInLoop] at h
  split at h
  · rename_i hs
    simp only [Option.bind_eq_bind, Option.bind_eq_some_iff] at h
    obtain ⟨⟨sock, c₁⟩, hr, h⟩ := h
    obtain ⟨a, hch, rfl, rfl⟩ := removeAndResetChannel_cases hr
    cases h
    exact .inl ⟨a, hs, hch, rfl⟩
  · rename_i hs
    cases h
    exact .inr ⟨hs, rfl⟩

theorem handleError_cases (h : c.handleError = some c') :
    (∃ a, c.state = .connecting ∧ c.channel = some a ∧ c' = (c.detach a).retry a.sock) ∨
    c.state ≠ .connecting ∧ c' = c := by
  simp only [State.handleError] at h
  split at h
  · rename_i hs
    simp only [Option.bind_eq_bind, Option.bind_eq_some_iff] at h
    obtain ⟨⟨sock, c₁⟩, hr, h⟩ := h
    obtain ⟨a, hch, rfl, rfl⟩ := removeAndResetChannel_cases hr
    cases h
    exact .inl ⟨a, hs, hch, rfl⟩
  · rename_i hs
    cases h
    exact .inr ⟨hs, rfl⟩

theorem handleWrite_cases {e : State.Event} (h : c.handleWrite e = some c') :
    (∃ a, c.state = .connecting ∧ c.channel = some a ∧ c' = (c.detach a).settle e a.sock) ∨
    c.state ≠ .connecting ∧ c' = c.assert .handleWrite (c.state == .disconnected) := by
  simp only [State.handleWrite] at h
  split at h
  · rename_i hs
    simp only [Option.bind_eq_bind, Option.bind_eq_some_iff] at h
    obtain ⟨⟨sock, c₁⟩, hr, h⟩ := h
    obtain ⟨a, hch, rfl, rfl⟩ := removeAndResetChannel_cases hr
    cases h
    exact .inl ⟨a, hs, hch, rfl⟩
  · rename_i hs
    cases h
    exact .inr ⟨hs, rfl⟩

/-- A socket that is taken off the poller is retried, handed over, or closed; the last when the
connector is no longer wanted. -/
theorem settle_cases (c : State) (e : State.Event) (sock : Sock) :
    c.settle e sock = c.retry sock ∨
    (c.wanted = true ∧
      c.settle e sock = { c.setState .connected with handed := c.handed ++ [sock] }) ∨
    (c.wanted = false ∧ c.settle e sock = (c.setState .connected).close sock) := by
  simp only [State.settle]
  split
  · exact .inl rfl
  · split
    · exact .inl rfl
    · split
      · rename_i hw
        exact .inr (.inl ⟨hw, rfl⟩)
      · rename_i hw
        exact .inr (.inr ⟨Bool.eq_false_iff.mpr hw, rfl⟩)

/-- The ways a step can go, each with what it needs. -/
inductive Step (c : State) : Label → State → Prop
  | start {errno : Errno} : Step c (.start errno) (c.start errno)
  | stop : Step c .stop c.stop
  | restart {errno : Errno} : Step c (.restart errno) (c.restart errno)
  | runFunctor {f : Functor} {rest : List Functor} {c' : State} (hp : c.pendingFunctors = f :: rest)
      (h : { c with pendingFunctors := rest }.runFunctor f = some c') : Step c .runFunctor c'
  | timerFires {i : Nat} {errno : Errno} (hi : i < c.timers.length) :
      Step c (.timerFires i errno) ({ c with timers := c.timers.eraseIdx i }.startInLoop errno)
  | event {e : State.Event} {a : Attempt} {c' : State} (ha : c.channel = some a)
      (hr : a.channel.reports e.revents = true) (h : c.handleEvent e = some c') : Step c (.event e) c'

/-- **Inversion of a step.**  What each label leaves of the connector, with the functors that it
queues. -/
theorem step_cases {l : Label} (h : c.step l = some c') : Step c l c' := by
  cases l with
  | start errno =>
    cases h
    exact .start
  | stop =>
    cases h
    exact .stop
  | restart errno =>
    cases h
    exact .restart
  | runFunctor =>
    simp only [State.step] at h
    split at h
    · rename_i f rest hp
      exact .runFunctor hp h
    · cases h
  | timerFires i errno =>
    simp only [State.step] at h
    split at h
    · rename_i hi
      cases h
      exact .timerFires hi
    · cases h
  | event e =>
    simp only [State.step] at h
    split at h
    · rename_i a ha
      split at h
      · rename_i hr
        exact .event ha hr h
      · cases h
    · cases h

end Suduo.Connector
