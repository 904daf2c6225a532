/-
# `TcpClient`: a connector, its connections, and one loop

`net/TcpClient.cpp`, over `Suduo.Net.Connector` and the part of `net/TcpConnection.cpp` that moves a
connection through its life.  User code, the connector and the connections share the loop's ONE queue of
functors, and the order of that queue is what keeps a reconnection from meeting the attempt before it:
so the queue is modelled, and the phases of `EventLoop::loop` around it.  `poll` returns, the events it
has found are handled, and then `do_pending_functors` swaps the queue and runs it.

All calls come from the loop's thread; user code runs inside the callbacks and functors, so a call is a
step of its own that can come at any time, also inside `handle_close` before the close callback.  An
event is of a channel that was registered when `poll` returned.

The destructor lets `_connector` go.  What then keeps the connector is a `run_after(1)` of its own, and
the retry timers; `stop_in_loop` and `reset_channel` are bound to the raw pointer.  A callback or functor
that finds its object gone is recorded, and does nothing more here.
-/
import Suduo.Net.ConnectorSockets
import Suduo.Net.TcpConnection

namespace Suduo.TcpClient

open Lib
open Connector (Sock Errno)
open TcpConnection (ConnState)

/-! ## 1. The state -/

/-- The functors in the loop's queue. -/
inductive Functor
  | connector (f : Connector.Functor)
  | forceCloseInLoop (c : Nat)
  | connectDestroyed (c : Nat)
  deriving DecidableEq, Repr

inductive Assertion
  /-- `_state == Connected || _state == Disconnecting` in `handle_close`. -/
  | handleClose
  /-- `_connection == conn` in `remove_connection`. -/
  | removeConnection
  /-- `!_channel` in `~Connector`. -/
  | connectorChannel
  /-- A callback bound to the client's `this`, and the client is gone. -/
  | clientGone
  /-- A functor bound to the connector's `this`, and the connector is gone. -/
  | connectorGone
  deriving DecidableEq, Repr

/-- What `_close_callback` is set to. -/
inductive CloseCallback
  /-- `TcpClient::remove_connection`. -/
  | removeConnection
  /-- `detail::remove_connection`, which `~TcpClient` puts in its place. -/
  | detailRemoveConnection
  deriving DecidableEq, Repr

structure Conn where
  sock : Sock
  state : ConnState
  closeCallback : CloseCallback
  /-- Runs of the close callback, and of `connect_destroyed`. -/
  removals : Nat
  destroys : Nat
  deriving DecidableEq, Repr

def Conn.none : Conn := ⟨0, .connecting, .removeConnection, 0, 0⟩

/-- `_state == Connected || _state == Disconnecting`. -/
def Conn.open? (k : Conn) : Bool := k.state == .connected || k.state == .disconnecting

def Conn.setState (k : Conn) (state : ConnState) : Conn := { k with state := state }

/-- Where `EventLoop::loop` is. -/
inductive Phase
  /-- `poll` has returned.  The connections below `conns` and the sockets below `socks` were there. -/
  | handling (conns : Nat) (socks : Sock)
  /-- `do_pending_functors`, with what is left of the batch; at the end of it, `poll`. -/
  | running (batch : List Functor)
  deriving DecidableEq, Repr

namespace Phase

def handles : Phase → Bool
  | .handling .. => true
  | .running _ => false

/-- What `poll` can have reported. -/
def polledConns : Phase → Nat
  | .handling conns _ => conns
  | .running _ => 0

def polledSocks : Phase → Sock
  | .handling _ socks => socks
  | .running _ => 0

def batch : Phase → List Functor
  | .handling .. => []
  | .running batch => batch

end Phase

structure State where
  /-- `_retry` and `_connect`. -/
  retry : Bool
  wanted : Bool
  /-- `~TcpClient` has not run. -/
  alive : Bool
  connector : Connector.State
  /-- `run_after(1)` timers of `~TcpClient`, which hold the connector. -/
  keepers : Nat
  nextConnId : Nat
  /-- `_connection`, and the connections by number. -/
  connection : Option Nat
  conns : Nat → Conn
  /-- `_pending_functors`; those of the connector are its own, at their places. -/
  pendingFunctors : List Functor
  phase : Phase
  /-- The connection whose `handle_close` the loop is in, before the close callback. -/
  closing : Option Nat
  failed : List Assertion

def State.init (retry : Bool) : State where
  retry := retry
  wanted := true
  alive := true
  connector := .init
  keepers := 0
  nextConnId := 1
  connection := none
  conns := fun _ => .none
  pendingFunctors := []
  phase := .running []
  closing := none
  failed := []

namespace State

/-- `new_connection` has made connection `c`. -/
def Made (s : State) (c : Nat) : Prop := 1 ≤ c ∧ c < s.nextConnId

instance (s : State) (c : Nat) : Decidable (s.Made c) := inferInstanceAs (Decidable (_ ∧ _))

/-- The functors still to run, in their order. -/
def queue (s : State) : List Functor := s.phase.batch ++ s.pendingFunctors

/-- Something holds the connector. -/
def connectorThere (s : State) : Bool := s.alive || 0 < s.keepers || s.connector.timers ≠ []

/-! ## 2. The connector in the loop -/

def fail (s : State) (a : Assertion) : State := { s with failed := s.failed ++ [a] }

/-- `assert`. -/
def assert (s : State) (a : Assertion) (holds : Bool) : State := if holds then s else s.fail a

/-- `queue_in_loop`. -/
def queueInLoop (s : State) (f : Functor) : State :=
  { s with pendingFunctors := s.pendingFunctors ++ [f] }

/-- The connector has become `k`, and has queued what its own queue has more.  The connector
knows one queue, its own, and the loop's has the same functors of it among others. -/
def onConnector (s : State) (k : Connector.State) : State :=
  { s with
    connector := k
    pendingFunctors := s.pendingFunctors ++
      (k.pendingFunctors.drop s.connector.pendingFunctors.length).map .connector }

/-- A pointer to the connector is dropped; with the last one goes the connector.  Its destructor
asserts that there is no channel left. -/
def dropConnector (s : State) : State :=
  if s.connectorThere then s else s.assert .connectorChannel s.connector.channel.isNone

/-- The connector's next functor, which the loop has taken from its batch.  It is bound to the
raw pointer, so one that finds no connector is recorded. -/
def runConnector (s : State) : Option State :=
  if s.connectorThere then
    let rest := { s.connector with pendingFunctors := s.connector.pendingFunctors.tail }
    (s.connector.step .runFunctor).map { s with connector := rest }.onConnector
  else some (s.fail .connectorGone)

/-! ## 3. A connection in the loop -/

def setConn (s : State) (c : Nat) (g : Conn → Conn) : State :=
  { s with conns := Function.update s.conns c (g (s.conns c)) }

/-- `TcpConnection::shutdown`. -/
def shutdown (s : State) (c : Nat) : State :=
  if (s.conns c).state = .connected then s.setConn c fun k => k.setState .disconnecting else s

/-- `TcpConnection::force_close`. -/
def forceClose (s : State) (c : Nat) : State :=
  if (s.conns c).open? then
    (s.setConn c fun k => k.setState .disconnecting).queueInLoop (.forceCloseInLoop c)
  else s

/-- `handle_close` up to the close callback. -/
def handleClose (s : State) (c : Nat) : State :=
  { (s.assert .handleClose (s.conns c).open?).setConn c fun k => k.setState .disconnected with closing := some c }

def forceCloseInLoop (s : State) (c : Nat) : State :=
  if (s.conns c).open? then s.handleClose c else s

def connectDestroyed (s : State) (c : Nat) : State :=
  s.setConn c fun k =>
    { k with
      state := if k.state = .connected then .disconnected else k.state
      destroys := k.destroys + 1 }

/-! ## 4. The client -/

def connect (s : State) (errno : Errno) : State :=
  { s with wanted := true }.onConnector (s.connector.start errno)

def disconnect (s : State) : State :=
  let s := { s with wanted := false }
  match s.connection with
  | some c => s.shutdown c
  | none => s

def stop (s : State) : State := { s with wanted := false }.onConnector s.connector.stop

/-- `new_connection`, down to `connect_established`. -/
def newConnection (s : State) (sock : Sock) : State :=
  if s.alive then
    let c := s.nextConnId
    let s := { s with
      nextConnId := c + 1
      connection := some c
      conns := Function.update s.conns c ⟨sock, .connecting, .removeConnection, 0, 0⟩ }
    s.setConn c fun k => k.setState .connected
  else s.fail .clientGone

def removeConnection (s : State) (c : Nat) (errno : Errno) : State :=
  if s.alive then
    let s := s.assert .removeConnection (s.connection == some c)
    let s := { s with connection := none }.queueInLoop (.connectDestroyed c)
    if s.retry && s.wanted then s.onConnector (s.connector.restart errno) else s
  else s.fail .clientGone

/-- The end of `handle_close`: the close callback. -/
def closeCallback (s : State) (c : Nat) (errno : Errno) : State :=
  let s := { s with closing := none }.setConn c fun k => { k with removals := k.removals + 1 }
  match (s.conns c).closeCallback with
  | .removeConnection => s.removeConnection c errno
  | .detailRemoveConnection => s.queueInLoop (.connectDestroyed c)

/-- `~TcpClient`; `unique` is what `_connection.unique()` answers. -/
def destroy (s : State) (unique : Bool) : State :=
  let connection := s.connection
  let s := { s with alive := false, connection := none }
  match connection with
  | some c =>
    let s := s.setConn c fun k => { k with closeCallback := .detailRemoveConnection }
    (if unique then s.forceClose c else s).dropConnector
  | none => { s with keepers := s.keepers + 1 }.onConnector s.connector.stop

/-- A functor of the batch. -/
def runFunctor (s : State) : Functor → Option State
  | .connector _ => s.runConnector
  | .forceCloseInLoop c => some (s.forceCloseInLoop c)
  | .connectDestroyed c => some (s.connectDestroyed c)

/-- An event of the connecting channel: `handle_write` hands a socket to `new_connection`,
`handle_error` retries.  The channel's callbacks are bound to the raw pointer as well. -/
def connectorEvent (s : State) (e : Connector.State.Event) : Option State :=
  if s.connectorThere then
    (s.connector.step (.event e)).map fun k =>
      (k.handed.drop s.connector.handed.length).foldl newConnection (s.onConnector k)
  else some (s.fail .connectorGone)

/-- A retry timer fires, and the functor in it lets the connector go.  A retry timer is bound to
`shared_from_this()`, so it always finds one. -/
def timerFires (s : State) (i : Nat) (errno : Errno) : Option State :=
  (s.connector.step (.timerFires i errno)).map fun k => (s.onConnector k).dropConnector

end State

/-! ## 5. The steps -/

/-- What can happen next. -/
inductive Label
  /-- Calls of user code: on the client, and on a connection. -/
  | connect (errno : Errno)
  | disconnect
  | stop
  | enableRetry
  | destroy (unique : Bool)
  | shutdown (c : Nat)
  | forceClose (c : Nat)
  /-- The loop: `poll` returns, and the events that it has found. -/
  | poll
  | connectorEvent (e : Connector.State.Event)
  | timerFires (i : Nat) (errno : Errno)
  /-- The `run_after(1)` of `~TcpClient`. -/
  | keeperFires
  /-- An event of connection `c` that closes: end of file, or `POLLHUP`. -/
  | closeEvent (c : Nat)
  /-- The end of `handle_close`; `errno` is for the `connect(2)` of a restart. -/
  | closeCallback (errno : Errno)
  /-- `do_pending_functors`: swap, and run the next one. -/
  | takeFunctors
  | runFunctor
  deriving DecidableEq, Repr

/-- `poll` has returned, and the loop is between two events. -/
def State.Handling (s : State) : Prop := s.phase.handles = true ∧ s.closing = none

instance (s : State) : Decidable s.Handling := inferInstanceAs (Decidable (_ ∧ _))

/-- What each step needs.  A connection is registered with the poller until `connect_destroyed`
has run.  Once it is closed its mask is empty, but a hang-up is reported all the same. -/
def State.Enabled (s : State) : Label → Prop
  | .connect _ | .disconnect | .stop | .enableRetry | .destroy _ => s.alive = true
  | .shutdown c | .forceClose c => s.Made c
  | .poll => s.phase = .running [] ∧ s.closing = none
  | .connectorEvent _ =>
    s.Handling ∧ (s.connector.channel.any fun a => decide (a.sock < s.phase.polledSocks)) = true
  | .timerFires _ _ => s.Handling
  | .keeperFires => s.Handling ∧ 0 < s.keepers
  | .closeEvent c => s.Handling ∧ s.Made c ∧ c < s.phase.polledConns ∧ (s.conns c).destroys = 0
  | .closeCallback _ => s.closing.isSome = true
  | .takeFunctors => s.Handling
  | .runFunctor => s.phase.batch ≠ [] ∧ s.closing = none

instance (s : State) (l : Label) : Decidable (s.Enabled l) :=
  match l with
  | .connect _ | .disconnect | .stop | .enableRetry | .destroy _ | .closeCallback _ =>
    inferInstanceAs (Decidable (_ = true))
  | .timerFires _ _ | .takeFunctors => inferInstanceAs (Decidable s.Handling)
  | .shutdown _ | .forceClose _ | .poll | .connectorEvent _ | .keeperFires | .closeEvent _ |
    .runFunctor => inferInstanceAs (Decidable (_ ∧ _))

/-- The step, where it is enabled. -/
def State.take (s : State) : Label → Option State
  | .connect errno => some (s.connect errno)
  | .disconnect => some s.disconnect
  | .stop => some s.stop
  | .enableRetry => some { s with retry := true }
  | .destroy unique => some (s.destroy unique)
  | .shutdown c => some (s.shutdown c)
  | .forceClose c => some (s.forceClose c)
  | .poll => some { s with phase := .handling s.nextConnId s.connector.created }
  | .connectorEvent e => s.connectorEvent e
  | .timerFires i errno => s.timerFires i errno
  | .keeperFires => some { s with keepers := s.keepers - 1 }.dropConnector
  | .closeEvent c => some (s.handleClose c)
  | .closeCallback errno => s.closing.map fun c => s.closeCallback c errno
  | .takeFunctors => some { s with phase := .running s.pendingFunctors, pendingFunctors := [] }
  | .runFunctor =>
    match s.phase.batch with
    | f :: rest => { s with phase := .running rest }.runFunctor f
    | [] => none

def State.step (s : State) (l : Label) : Option State := if s.Enabled l then s.take l else none

/-- **Inversion of a step.**  It was enabled, and this is what it came to. -/
theorem step_taken {s s' : State} {l : Label} (h : s.step l = some s') :
    s.Enabled l ∧ s.take l = some s' := by
  simpa only [State.step, Option.ite_none_right_eq_some] using h

/-! ## 6. The connector, as the client sees it -/

section Connector

open Connector (Inv watched)

variable {k k' : Connector.State}

/-- The errnos after which `connect` closes the socket and does not retry. -/
def givesUp : Errno → Bool
  | .eacces | .eperm | .eafnosupport | .ealready | .ebadf | .efault | .enotsock | .other => true
  | _ => false

/-- What `retry` leaves: as long as a connection is wanted, a timer.  It says all that the client
needs to know of `Connector::retry`, which is not looked into again. -/
structure Retried (k k' : Connector.State) : Prop where
  state : k'.state = .disconnected
  wanted : k'.wanted = k.wanted
  handed : k'.handed = k.handed
  queue : k'.pendingFunctors = k.pendingFunctors
  channel : k'.channel = k.channel
  timers : k'.timers.length ≤ k.timers.length + 1
  again : k.wanted = true → k'.timers ≠ []

theorem retried_retry (k : Connector.State) (sock : Sock) : Retried k (k.retry sock) := by
  cases hw : k.wanted with
  | true => constructor <;>
      simp [Connector.State.retry, Connector.State.close, Connector.State.setState, hw]
  | false => constructor <;>
      simp [Connector.State.retry, Connector.State.close, Connector.State.setState, hw]

/-- What `start_in_loop` leaves, at rest: an attempt, or a connector still at rest.  It goes on
with a timer, unless `connect` gives up on an errno that it takes for final. -/
structure Attempted (errno : Errno) (k k' : Connector.State) : Prop where
  wanted : k'.wanted = k.wanted
  handed : k'.handed = k.handed
  queue : k'.pendingFunctors = k.pendingFunctors
  timers : (k'.state = .connecting ∧ k'.timers = k.timers) ∨
    (k'.state = .disconnected ∧ k'.timers.length ≤ k.timers.length + 1)
  goesOn : k.wanted = true → givesUp errno = false → k'.state = .connecting ∨ k'.timers ≠ []

theorem attempted_connect (hs : k.state = .disconnected) (errno : Errno) :
    Attempted errno k (k.connect errno) := by
  have hretry := retried_retry { k with created := k.created + 1 } k.created
  have hagain : Attempted errno k ({ k with created := k.created + 1 }.retry k.created) :=
    ⟨hretry.wanted, hretry.handed, hretry.queue, .inr ⟨hretry.state, hretry.timers⟩,
      fun hw _ => .inr (hretry.again hw)⟩
  have hbegun : Attempted errno k ({ k with created := k.created + 1 }.connecting k.created) := by
    cases hch : k.channel <;> constructor <;>
      simp [Connector.State.connecting, Connector.State.assert, Connector.State.setState]
  have hgaveUp (hf : givesUp errno = true) :
      Attempted errno k ({ k with created := k.created + 1 }.close k.created) :=
    ⟨rfl, rfl, rfl, .inr ⟨hs, Nat.le_succ _⟩, fun _ hg => by simp [hf] at hg⟩
  cases errno with
  | ok | einprogress | eintr | eisconn => exact hbegun
  | eagain | eaddrinuse | eaddrnotavail | econnrefused | enetunreach => exact hagain
  | eacces | eperm | eafnosupport | ealready | ebadf | efault | enotsock | other => exact hgaveUp rfl

theorem attempted_startInLoop (hs : k.state = .disconnected) (errno : Errno) :
    Attempted errno k (k.startInLoop errno) := by
  rw [Connector.startInLoop_eq hs]
  split
  · exact attempted_connect hs errno
  · rename_i hw
    exact ⟨rfl, rfl, rfl, .inr ⟨hs, Nat.le_succ _⟩, fun h => absurd h hw⟩

/-- What comes of an attempt that ends: a retry, a connection, or a socket nobody wants.  In each
case the channel is removed, and its `reset_channel` is queued behind everything else. -/
inductive Ended (k k' : Connector.State) : Prop
  | retried (hr : Retried { k with pendingFunctors := k.pendingFunctors ++ [.resetChannel],
                                   channel := k'.channel } k')
  | handed (sock : Sock) (hw : k.wanted = true)
      (heq : k' = { k with
        state := .connected, channel := k'.channel, handed := k.handed ++ [sock]
        pendingFunctors := k.pendingFunctors ++ [.resetChannel] })
  | dropped (sock : Sock) (hw : k.wanted = false)
      (heq : k' = { k with
        state := .connected, channel := k'.channel, closed := k.closed ++ [sock]
        pendingFunctors := k.pendingFunctors ++ [.resetChannel] })

theorem retried_detach (k : Connector.State) (a : Connector.Attempt) (s : Connector.ConnState) :
    Retried
      { k with
        pendingFunctors := k.pendingFunctors ++ [.resetChannel]
        channel := (((k.setState s).detach a).retry a.sock).channel }
      (((k.setState s).detach a).retry a.sock) := by
  have hr := retried_retry ((k.setState s).detach a) a.sock
  exact ⟨hr.state, hr.wanted, hr.handed, hr.queue, rfl, hr.timers, hr.again⟩

/-- `stop_in_loop` ends an attempt, and hands nothing over.  A connector without an attempt is
left as it is. -/
theorem retried_stopInLoop (h : k.stopInLoop = some k') :
    (k.state = .connecting ∧ Retried { k with pendingFunctors := k.pendingFunctors ++ [.resetChannel],
                                              channel := k'.channel } k') ∨
      (k.state ≠ .connecting ∧ k' = k) := by
  obtain ⟨a, hs, -, rfl⟩ | ⟨hs, rfl⟩ := Connector.stopInLoop_cases h
  · exact .inl ⟨hs, retried_detach k a _⟩
  · exact .inr ⟨hs, rfl⟩

theorem ended_handleError (h : k.handleError = some k') :
    (k.state = .connecting ∧ k'.state = .disconnected ∧ Ended k k') ∨ k' = k := by
  obtain ⟨a, hs, -, rfl⟩ | ⟨-, rfl⟩ := Connector.handleError_cases h
  · exact .inl ⟨hs, Connector.retry_state _ _, .retried (retried_detach k a k.state)⟩
  · exact .inr rfl

theorem ended_handleWrite {e : Connector.State.Event} (hs : k.state = .connecting)
    (h : k.handleWrite e = some k') : Ended k k' := by
  obtain ⟨a, -, -, rfl⟩ | ⟨hne, -⟩ := Connector.handleWrite_cases h
  · obtain heq | ⟨hw, heq⟩ | ⟨hw, heq⟩ := Connector.settle_cases (k.detach a) e a.sock
    · rw [heq]
      exact .retried (retried_detach k a k.state)
    · rw [heq]
      exact .handed a.sock hw rfl
    · rw [heq]
      exact .dropped a.sock hw rfl
  · exact absurd hs hne

/-- **An event of the connecting channel** ends the attempt, or nothing comes of it.  So between
two events of the channel there is no state to keep, and a second event of the same `poll` finds
no attempt. -/
theorem event_ends {e : Connector.State.Event} (hinv : Inv k) (h : k.step (.event e) = some k') :
    k.state = .connecting ∧ (k' = k ∨ Ended k k') := by
  cases Connector.step_cases h with
  | @event _ a _ ha hr hev =>
    have hs : k.state = .connecting := by
      by_contra hs
      simp [Channel.reports, hinv.leftover hs a ha] at hr
    refine ⟨hs, ?_⟩
    obtain ⟨c₁, c₂, c₃, hclose, herror, hread, hwrite⟩ := Channel.foldlM_handleEvent hev
    have h₁ : c₁ = k := by
      split at hclose
      · exact (Option.some.inj hclose).symm
      · exact hclose
    have h₃ : c₃ = c₂ := by
      split at hread
      · exact (Option.some.inj hread).symm
      · exact hread
    subst h₁ h₃
    have herr : (c₃.state = .disconnected ∧ Ended c₁ c₃) ∨ c₃ = c₁ := by
      split at herror
      · exact (ended_handleError herror).imp_left fun he => he.2
      · exact .inr herror
    obtain ⟨hd, hended⟩ | rfl := herr
    · have hsame : k' = c₃ := by
        split at hwrite
        · obtain ⟨a, hconn, -⟩ | ⟨-, rfl⟩ := Connector.handleWrite_cases hwrite
          · rw [hd] at hconn
            cases hconn
          · simp [Connector.State.assert, hd]
        · exact hwrite
      exact .inr (hsame ▸ hended)
    · split at hwrite
      · exact .inr (ended_handleWrite hs hwrite)
      · exact .inl hwrite

end Connector

end Suduo.TcpClient
