/-
# `TcpServer`: many connections on many loops

`net/TcpServer.cpp` and `net/EventLoopThreadPool.cpp`, with the part of `net/TcpConnection.cpp` that
moves a connection through its life.  Loop `0` is the server's `_loop`, the loops `1 .. n` are
those of the thread pool, and loop `l` runs in thread `l`; other threads have other numbers.

Each loop runs events, and between them the functors of its queue.  `do_pending_functors` SWAPS the
queue into a local vector, runs it and drops it at the end, so a pointer bound into a functor lives
on until the whole batch is done.  `handle_close` is two steps, since user code and other threads run
between its first line and its last; the calls of user threads test `_state`, set it and queue their
functor in separate steps too.

A connection is destroyed when no `shared_ptr` to it is left: in the table, in the hands of a user
thread, in a functor, or on the stack of `handle_close`.  Functors that bind the raw `this`, and the
server's own address in the close callback, count for nothing.  A functor that is run on an object
that is gone is recorded, and does nothing more here.

What the poller reports is not modelled: once `connect_established` has run, an event may come at any
time the loop is free.  Neither are bytes: see `Suduo.Net.TcpConnection`.  The loops go on running when
the server is destroyed, as they do when someone else holds its thread pool.
-/
import Suduo.Lib.Reach
import Suduo.Lib.SortedMap
import Suduo.Net.ConnectionName
import Suduo.Net.TcpConnection
import Mathlib.Data.Char
import Mathlib.Data.List.Lex

namespace Suduo.TcpServer

open Lib
open TcpConnection (ConnState)

/-! ## 1. Connections, functors, loops -/

/-- The steps of a `TcpConnection` that a functor can be bound to. -/
inductive Task
  | connectEstablished
  | connectDestroyed
  | sendInLoop
  | shutdownInLoop
  | startReadInLoop
  | stopReadInLoop
  | forceCloseInLoop
  /-- The write-complete or the high-water callback. -/
  | userCallback
  deriving DecidableEq, Repr

/-- The functor is bound to a `TcpConnectionPtr` or to `shared_from_this()`, not to `this`.  Only
such a functor keeps its connection alive; the four others rely on somebody else for that. -/
def Task.shared : Task → Bool
  | .sendInLoop | .shutdownInLoop | .startReadInLoop | .stopReadInLoop => false
  | _ => true

inductive Functor
  /-- A step of connection `c`. -/
  | conn (task : Task) (c : Nat)
  /-- `remove_connection_in_loop(conn)`, bound to the server's `this`. -/
  | removeConnectionInLoop (c : Nat)
  deriving DecidableEq, Repr

/-- The connection a functor is about. -/
def Functor.about : Functor → Nat
  | .conn _ c => c
  | .removeConnectionInLoop c => c

/-- The `TcpConnectionPtr` a functor carries. -/
def Functor.pointer : Functor → Option Nat
  | .conn task c => if task.shared then some c else none
  | .removeConnectionInLoop c => some c

/-- What happened to a connection, and in which loop. -/
inductive LoopStep
  | ran (l : Nat) (task : Task)
  /-- An event that does not close. -/
  | event (l : Nat)
  | handleClose (l : Nat)
  /-- `_connections.erase` of its name, and what that returned. -/
  | erased (n : Nat)
  deriving DecidableEq, Repr

structure Conn where
  loop : Nat
  name : List Char
  state : ConnState
  trace : List LoopStep

def Conn.none : Conn := ⟨0, [], .connecting, []⟩

def Conn.log (k : Conn) (e : LoopStep) : Conn := { k with trace := k.trace ++ [e] }

def Conn.setState (k : Conn) (state : ConnState) : Conn := { k with state := state }

structure Loop where
  /-- `_pending_functors`. -/
  pending : List Functor
  /-- What `do_pending_functors` has swapped out: still to run, and already run. -/
  running : List Functor
  done : List Functor
  /-- The connection whose `handle_close` the loop is in, before the close callback. -/
  closing : Option Nat

def Loop.new : Loop := ⟨[], [], [], none⟩

/-- The loop is between two events. -/
def Loop.Free (k : Loop) : Prop := k.running = [] ∧ k.done = [] ∧ k.closing = none

instance (k : Loop) : Decidable k.Free := inferInstanceAs (Decidable (_ ∧ _))

/-- The connection pointers on the loop's side. -/
def Loop.pointers (k : Loop) : List Nat :=
  (k.pending ++ k.running ++ k.done).filterMap Functor.pointer ++ k.closing.toList

def Loop.push (k : Loop) (f : Functor) : Loop := { k with pending := k.pending ++ [f] }

def Loop.setClosing (k : Loop) (c : Option Nat) : Loop := { k with closing := c }

/-- `EventLoopThreadPool`; I/O loop `i` of the vector is loop `i + 1`. -/
structure Pool where
  threads : Nat
  next : Nat
  next_lt : 0 < threads → next < threads

def Pool.new (threads : Nat) : Pool := ⟨threads, 0, id⟩

/-- `get_next_loop`. -/
def Pool.getNextLoop (p : Pool) : Nat × Pool :=
  if p.threads = 0 then (0, p)
  else if h : p.next + 1 ≥ p.threads then (p.next + 1, ⟨p.threads, 0, id⟩)
  else (p.next + 1, ⟨p.threads, p.next + 1, fun _ => Nat.lt_of_not_ge h⟩)

/-- The calls of user code on a connection. -/
inductive Op
  | send
  | shutdown
  | startRead
  | stopRead
  | forceClose
  deriving DecidableEq, Repr

/-- What the call hands to the loop. -/
def Op.task : Op → Task
  | .send => .sendInLoop
  | .shutdown => .shutdownInLoop
  | .startRead => .startReadInLoop
  | .stopRead => .stopReadInLoop
  | .forceClose => .forceCloseInLoop

/-- How far a thread is in a call: before `set_state(Disconnecting)`, or before its functor is
handed over.  The test of `_state` is behind it. -/
inductive Call
  | idle
  | setting (op : Op) (c : Nat)
  | posting (op : Op) (c : Nat)
  deriving DecidableEq, Repr

/-- The test of `_state` at the head of a call, and where it leads. -/
def Op.test (op : Op) (state : ConnState) (c : Nat) : Call :=
  match op with
  | .send => if state = .connected then .posting op c else .idle
  | .shutdown => if state = .connected then .setting op c else .idle
  | .forceClose =>
    if state = .connected ∨ state = .disconnecting then .setting op c else .idle
  | .startRead | .stopRead => .posting op c

theorem Op.task_ne_forceClose {op : Op} (hop : op ≠ .forceClose) : op.task ≠ .forceCloseInLoop := by
  cases op <;> simp [Op.task] at hop ⊢

/-! ## 2. The state -/

structure State where
  name : List Char
  ipPort : IpPort
  pool : Pool
  /-- `~TcpServer` has not been entered. -/
  alive : Bool
  nextConnId : Nat
  /-- `_connections`. -/
  connections : SortedMap (List Char) Nat
  /-- The connections by number. -/
  conns : Nat → Conn
  loops : Nat → Loop
  /-- The pointers that user threads hold. -/
  holders : List (Nat × Nat)
  calls : Nat → Call
  /-- Functors that were run on an object already destroyed. -/
  dangling : List Functor

def State.init (name : List Char) (ipPort : IpPort) (threads : Nat) : State where
  name := name
  ipPort := ipPort
  pool := .new threads
  alive := true
  nextConnId := 1
  connections := .empty
  conns := fun _ => .none
  loops := fun _ => .new
  holders := []
  calls := fun _ => .idle
  dangling := []

/-- `new_connection` has made connection `c`. -/
def State.Accepted (s : State) (c : Nat) : Prop := 1 ≤ c ∧ c < s.nextConnId

/-- Every `TcpConnectionPtr` there is. -/
def State.pointers (s : State) : List Nat :=
  s.connections.entries.map Prod.snd ++ s.holders.map Prod.snd ++
    (List.range (s.pool.threads + 1)).flatMap fun l => (s.loops l).pointers

/-- The reference count of connection `c`. -/
def State.useCount (s : State) (c : Nat) : Nat := s.pointers.count c

/-- The loop a functor is handed to: the connection's, or the server's.  This is fixed when the
functor is made, so a functor in another loop's queue would be a mistake of the model. -/
def State.home (s : State) : Functor → Nat
  | .conn _ c => (s.conns c).loop
  | .removeConnectionInLoop _ => 0

def State.setConn (s : State) (c : Nat) (g : Conn → Conn) : State :=
  { s with conns := Function.update s.conns c (g (s.conns c)) }

def State.setLoop (s : State) (l : Nat) (g : Loop → Loop) : State :=
  { s with loops := Function.update s.loops l (g (s.loops l)) }

def State.setCall (s : State) (t : Nat) (call : Call) : State :=
  { s with calls := Function.update s.calls t call }

def State.log (s : State) (c : Nat) (e : LoopStep) : State := s.setConn c fun k => k.log e

/-- `queue_in_loop`. -/
def State.queueInLoop (s : State) (f : Functor) : State := s.setLoop (s.home f) fun k => k.push f

/-- What user code and the kernel decide in a step.  The model leaves them open: every result
holds for all outcomes. -/
structure Outcome where
  /-- The callback copies the `TcpConnectionPtr` it is given. -/
  keep : Bool
  /-- The write finishes, or passes the mark, and the callback for that is set. -/
  callback : Bool
  deriving DecidableEq, Repr

/-- A user callback of connection `c` in thread `t`. -/
def State.userCode (s : State) (t c : Nat) (o : Outcome) : State :=
  if o.keep then { s with holders := s.holders ++ [(t, c)] } else s

/-! ## 3. The steps of a connection and of the server -/

/-- `handle_close` up to the close callback. -/
def State.handleClose (s : State) (l c : Nat) (o : Outcome) : State :=
  ((((s.log c (.handleClose l)).setConn c fun k => k.setState .disconnected).userCode l c o).setLoop l
    fun k => k.setClosing (some c))

/-- `remove_connection_in_loop`. -/
def State.removeConnectionInLoop (s : State) (c : Nat) : State :=
  let name := (s.conns c).name
  let n := if s.connections.contains name then 1 else 0
  ({ s with connections := s.connections.erase name }.log c (.erased n)).queueInLoop
    (.conn .connectDestroyed c)

/-- `send_in_loop` and the write event queue the user's callbacks. -/
def State.wrote (s : State) (c : Nat) (o : Outcome) : State :=
  if o.callback then s.queueInLoop (.conn .userCallback c) else s

/-- The functor's target is there.  A pointer bound into the functor keeps it there; for the
rest, somebody else must hold one. -/
def State.targetThere (s : State) : Functor → Bool
  | .conn task c => task.shared || 0 < s.useCount c
  | .removeConnectionInLoop _ => s.alive

/-- What a step of a connection does, run by loop `l`. -/
def State.runTask (s : State) (l c : Nat) (o : Outcome) : Task → State
  | .connectEstablished => (s.setConn c fun k => k.setState .connected).userCode l c o
  | .connectDestroyed =>
    if (s.conns c).state = .connected then
      (s.setConn c fun k => k.setState .disconnected).userCode l c o
    else s
  | .sendInLoop => if (s.conns c).state = .disconnected then s else s.wrote c o
  | .shutdownInLoop | .startReadInLoop | .stopReadInLoop => s
  | .forceCloseInLoop =>
    if (s.conns c).state = .connected ∨ (s.conns c).state = .disconnecting then
      s.handleClose l c o
    else s
  | .userCallback => s.userCode l c o

/-- Call a functor in loop `l`. -/
def State.call (s : State) (l : Nat) (o : Outcome) (f : Functor) : State :=
  if s.targetThere f then
    match f with
    | .conn task c => (s.log c (.ran l task)).runTask l c o task
    | .removeConnectionInLoop c => s.removeConnectionInLoop c
  else { s with dangling := s.dangling ++ [f] }

/-- `run_in_loop`, called in thread `t`. -/
def State.runInLoop (s : State) (t : Nat) (o : Outcome) (f : Functor) : State :=
  if t = s.home f then s.call t o f else s.queueInLoop f

/-- `new_connection`, in the acceptor's callback. -/
def State.newConnection (s : State) (o : Outcome) : State :=
  let c := s.nextConnId
  let name := serverConnName s.name s.ipPort c
  let next := s.pool.getNextLoop
  let s := { s with
    pool := next.2
    nextConnId := c + 1
    connections := (s.connections.insert name c).set name c
    conns := Function.update s.conns c ⟨next.1, name, .connecting, []⟩ }
  s.runInLoop 0 o (.conn .connectEstablished c)

/-- One round of the loop of `~TcpServer`, over the entry `(name, c)`.  Rounds are steps of their
own, because a connection of another loop goes on in between. -/
def State.destroyNext (s : State) (name : List Char) (c : Nat) (o : Outcome) : State :=
  { s with connections := s.connections.erase name }.runInLoop 0 o (.conn .connectDestroyed c)

/-! ## 4. Runs -/

inductive Label
  /-- The acceptor's event: loop `0` accepts. -/
  | newConnection (o : Outcome)
  /-- `do_pending_functors`: swap, call the next one, drop the vector. -/
  | takeFunctors (l : Nat)
  | runFunctor (l : Nat) (o : Outcome)
  | dropFunctors (l : Nat)
  /-- An event of connection `c`: bytes read or written, or an error. -/
  | handleEvent (c : Nat) (o : Outcome)
  /-- An event of connection `c` that closes: end of file, or `POLLHUP`. -/
  | handleClose (c : Nat) (o : Outcome)
  /-- The end of `handle_close`: `_close_callback`, that is `remove_connection`. -/
  | closeCallback (l : Nat)
  /-- Thread `t` enters a call, sets the state, hands its functor over. -/
  | test (t : Nat) (op : Op) (c : Nat)
  | setDisconnecting (t : Nat)
  | post (t : Nat) (o : Outcome)
  /-- Thread `t` gives thread `t'` a copy of its pointer. -/
  | copy (t t' c : Nat)
  | release (t c : Nat)
  /-- User code on loop `0` enters `~TcpServer`, which then goes over the table. -/
  | destroyServer
  | destroyNext (o : Outcome)
  deriving DecidableEq, Repr

/-- Loop `l` exists and is not held up in `~TcpServer`. -/
def State.Turns (s : State) (l : Nat) : Prop :=
  l ≤ s.pool.threads ∧ (l = 0 → s.alive ∨ s.connections.entries = [])

instance (s : State) (l : Nat) : Decidable (s.Turns l) :=
  inferInstanceAs (Decidable (l ≤ _ ∧ (l = 0 → _ ∨ _)))

/-- An event of connection `c` can be dispatched.  The channel's tie has to lock first, so
somebody must hold the connection; this is what keeps an event from finding a dead one. -/
def State.Ready (s : State) (c : Nat) : Prop :=
  (s.conns c).state ≠ .connecting ∧ 0 < s.useCount c ∧ s.Turns (s.conns c).loop ∧
    (s.loops (s.conns c).loop).Free

instance (s : State) (c : Nat) : Decidable (s.Ready c) :=
  inferInstanceAs (Decidable (_ ∧ _ ∧ _ ∧ _))

def step (s : State) : Label → Option State
  | .newConnection o =>
    -- `_next_conn_id` is an `int`.
    if s.alive ∧ s.nextConnId < 2 ^ 31 ∧ (s.loops 0).Free then some (s.newConnection o) else none
  | .takeFunctors l =>
    if s.Turns l ∧ (s.loops l).Free then
      some (s.setLoop l fun k => { k with pending := [], running := k.pending })
    else none
  | .runFunctor l o =>
    if s.Turns l ∧ (s.loops l).closing = none then
      match (s.loops l).running with
      | [] => none
      | f :: rest =>
        some ((s.setLoop l fun k => { k with running := rest, done := k.done ++ [f] }).call l o f)
    else none
  | .dropFunctors l =>
    if s.Turns l ∧ (s.loops l).running = [] ∧ (s.loops l).closing = none then
      some (s.setLoop l fun k => { k with done := [] })
    else none
  | .handleEvent c o =>
    if s.Ready c then
      some (((s.log c (.event (s.conns c).loop)).wrote c o).userCode (s.conns c).loop c o)
    else none
  | .handleClose c o => if s.Ready c then some (s.handleClose (s.conns c).loop c o) else none
  | .closeCallback l =>
    if s.Turns l then
      match (s.loops l).closing with
      | some c =>
        some ((s.setLoop l fun k => k.setClosing none).runInLoop l ⟨false, false⟩
          (.removeConnectionInLoop c))
      | none => none
    else none
  | .test t op c =>
    if s.calls t = .idle ∧ (t, c) ∈ s.holders then
      some (s.setCall t (op.test (s.conns c).state c))
    else none
  | .setDisconnecting t =>
    match s.calls t with
    | .setting op c =>
      some ((s.setConn c fun k => k.setState .disconnecting).setCall t (.posting op c))
    | _ => none
  | .post t o =>
    match s.calls t with
    | .posting .forceClose c =>
      some ((s.setCall t .idle).queueInLoop (.conn .forceCloseInLoop c))
    | .posting op c => some ((s.setCall t .idle).runInLoop t o (.conn op.task c))
    | _ => none
  | .copy t t' c =>
    if s.calls t = .idle ∧ (t, c) ∈ s.holders then
      some { s with holders := s.holders ++ [(t', c)] }
    else none
  | .release t c =>
    if s.calls t = .idle ∧ (t, c) ∈ s.holders then
      some { s with holders := s.holders.erase (t, c) }
    else none
  | .destroyServer => if s.alive then some { s with alive := false } else none
  | .destroyNext o =>
    if s.alive then none
    else
      match s.connections.entries with
      | [] => none
      | e :: _ => some (s.destroyNext e.1 e.2 o)

/-! ## 5. What a step can do -/

/-- The next functor of loop `l` leaves the batch. -/
def State.pop (s : State) (l : Nat) (f : Functor) (rest : List Functor) : State :=
  s.setLoop l fun k => { k with running := rest, done := k.done ++ [f] }

/-- The steps that can be taken, each with what it found. -/
inductive Taken (s : State) : Label → State → Prop
  | newConnection {o : Outcome} (hid : s.nextConnId < 2 ^ 31) :
      Taken s (.newConnection o) (s.newConnection o)
  | takeFunctors {l : Nat} (hfree : (s.loops l).Free) :
      Taken s (.takeFunctors l) (s.setLoop l fun k => { k with pending := [], running := k.pending })
  | runFunctor {l : Nat} {o : Outcome} {f : Functor} {rest : List Functor} (hl : l ≤ s.pool.threads)
      (hclosing : (s.loops l).closing = none) (hrun : (s.loops l).running = f :: rest) :
      Taken s (.runFunctor l o) ((s.pop l f rest).call l o f)
  | dropFunctors {l : Nat} (hrun : (s.loops l).running = []) :
      Taken s (.dropFunctors l) (s.setLoop l fun k => { k with done := [] })
  | handleEvent {c : Nat} {o : Outcome} (hr : s.Ready c) :
      Taken s (.handleEvent c o)
        (((s.log c (.event (s.conns c).loop)).wrote c o).userCode (s.conns c).loop c o)
  | handleClose {c : Nat} {o : Outcome} (hr : s.Ready c) :
      Taken s (.handleClose c o) (s.handleClose (s.conns c).loop c o)
  | closeCallback {l c : Nat} (hl : l ≤ s.pool.threads) (hclosing : (s.loops l).closing = some c) :
      Taken s (.closeCallback l) ((s.setLoop l fun k => k.setClosing none).runInLoop l ⟨false, false⟩
        (.removeConnectionInLoop c))
  | test {t c : Nat} {op : Op} (ht : (t, c) ∈ s.holders) :
      Taken s (.test t op c) (s.setCall t (op.test (s.conns c).state c))
  | setDisconnecting {t c : Nat} {op : Op} (hcall : s.calls t = .setting op c) :
      Taken s (.setDisconnecting t)
        ((s.setConn c fun k => k.setState .disconnecting).setCall t (.posting op c))
  | queue {t c : Nat} {o : Outcome} (hcall : s.calls t = .posting .forceClose c) :
      Taken s (.post t o) ((s.setCall t .idle).queueInLoop (.conn .forceCloseInLoop c))
  | post {t c : Nat} {o : Outcome} {op : Op} (hop : op ≠ .forceClose)
      (hcall : s.calls t = .posting op c) :
      Taken s (.post t o) ((s.setCall t .idle).runInLoop t o (.conn op.task c))
  | copy {t t' c : Nat} (ht : (t, c) ∈ s.holders) :
      Taken s (.copy t t' c) { s with holders := s.holders ++ [(t', c)] }
  | release {t c : Nat} (hcall : s.calls t = .idle) (ht : (t, c) ∈ s.holders) :
      Taken s (.release t c) { s with holders := s.holders.erase (t, c) }
  | destroyServer (halive : s.alive = true) : Taken s .destroyServer { s with alive := false }
  | destroyNext {o : Outcome} {e : List Char × Nat} {es : List (List Char × Nat)}
      (halive : s.alive = false) (he : s.connections.entries = e :: es) :
      Taken s (.destroyNext o) (s.destroyNext e.1 e.2 o)

theorem taken_of_step {s s' : State} {lb : Label} (hst : step s lb = some s') : Taken s lb s' := by
  cases lb with
  | newConnection o =>
    simp only [step, Option.ite_none_right_eq_some, Option.some.injEq] at hst
    obtain ⟨⟨-, hid, -⟩, rfl⟩ := hst
    exact .newConnection hid
  | takeFunctors l =>
    simp only [step, Option.ite_none_right_eq_some, Option.some.injEq] at hst
    obtain ⟨⟨-, hfree⟩, rfl⟩ := hst
    exact .takeFunctors hfree
  | runFunctor l o =>
    simp only [step, Option.ite_none_right_eq_some] at hst
    obtain ⟨⟨hturns, hclosing⟩, hst⟩ := hst
    split at hst
    · cases hst
    · rename_i f rest hrun
      cases hst
      exact .runFunctor hturns.1 hclosing hrun
  | dropFunctors l =>
    simp only [step, Option.ite_none_right_eq_some, Option.some.injEq] at hst
    obtain ⟨⟨-, hrun, -⟩, rfl⟩ := hst
    exact .dropFunctors hrun
  | handleEvent c o =>
    simp only [step, Option.ite_none_right_eq_some, Option.some.injEq] at hst
    obtain ⟨hr, rfl⟩ := hst
    exact .handleEvent hr
  | handleClose c o =>
    simp only [step, Option.ite_none_right_eq_some, Option.some.injEq] at hst
    obtain ⟨hr, rfl⟩ := hst
    exact .handleClose hr
  | closeCallback l =>
    simp only [step, Option.ite_none_right_eq_some] at hst
    obtain ⟨hturns, hst⟩ := hst
    split at hst
    · rename_i c hclosing
      cases hst
      exact .closeCallback hturns.1 hclosing
    · cases hst
  | test t op c =>
    simp only [step, Option.ite_none_right_eq_some, Option.some.injEq] at hst
    obtain ⟨⟨-, ht⟩, rfl⟩ := hst
    exact .test ht
  | setDisconnecting t =>
    simp only [step] at hst
    split at hst
    · rename_i op c hcall
      cases hst
      exact .setDisconnecting hcall
    · cases hst
  | post t o =>
    simp only [step] at hst
    split at hst
    · rename_i c hcall
      cases hst
      exact .queue hcall
    · rename_i op c hop hcall
      cases hst
      refine .post ?_ hcall
      rintro rfl
      exact hop rfl
    · cases hst
  | copy t t' c =>
    simp only [step, Option.ite_none_right_eq_some, Option.some.injEq] at hst
    obtain ⟨⟨-, ht⟩, rfl⟩ := hst
    exact .copy ht
  | release t c =>
    simp only [step, Option.ite_none_right_eq_some, Option.some.injEq] at hst
    obtain ⟨⟨hcall, ht⟩, rfl⟩ := hst
    exact .release hcall ht
  | destroyServer =>
    simp only [step, Option.ite_none_right_eq_some, Option.some.injEq] at hst
    obtain ⟨halive, rfl⟩ := hst
    exact .destroyServer halive
  | destroyNext o =>
    simp only [step] at hst
    split at hst
    · cases hst
    · rename_i halive
      split at hst
      · cases hst
      · rename_i e es he
        cases hst
        exact .destroyNext (Bool.eq_false_iff.mpr halive) he

end Suduo.TcpServer
