/-
# `TcpConnection`: one connection on its loop

`net/TcpConnection.cpp`, with the removal protocol of `TcpServer` and `TcpClient` around it.  The loop
thread dispatches events to the channel's callbacks and runs queued functors; user code runs inside
the callbacks, or elsewhere on the loop, and calls back into the connection; other threads call
`send`, `shutdown` and the rest, which test `_state`, set it and queue a functor in SEPARATE steps.

What the kernel and the user decide is in the labels: the `revents`, the outcome of `readv` and
`write`, and the calls (`Act`) made inside each callback, with whatever steps other threads make
meanwhile.  A call that throws (`length_error` from a buffer) ends the run.  A failed assertion is
recorded and the run goes on, as under `NDEBUG`.

The connection reaches user code with its UP callback, so no call is made on it before.
-/
import Suduo.Lib.Reach
import Suduo.Net.Buffer
import Suduo.Net.Channel
import Mathlib.Logic.Function.Basic

namespace Suduo.TcpConnection

open Lib

/-! ## 1. The state -/

/-- A thread. -/
abbrev Tid := Nat

/-- `TcpConnection::State`. -/
inductive ConnState
  | disconnected
  | connecting
  | connected
  | disconnecting
  deriving DecidableEq, Repr

/-- The errnos of `write` that the code tells apart. -/
inductive Errno
  | ewouldblock
  | epipe
  | econnreset
  | other
  deriving DecidableEq, Repr

/-- What `write(2)` answers. -/
inductive WriteResult
  | wrote (n : Nat)
  | failed (errno : Errno)
  deriving DecidableEq, Repr

/-- The functors of this connection in the loop's queue. -/
inductive Functor
  | connectEstablished
  | connectDestroyed
  /-- `send_in_loop(message)`, bound by thread `t`. -/
  | sendInLoop (t : Tid) (message : List Byte)
  | shutdownInLoop
  | forceCloseInLoop
  | startReadInLoop
  | stopReadInLoop
  | writeCompleteCallback
  | highWaterMarkCallback (len : Nat)
  deriving DecidableEq, Repr

/-- How far a thread other than the loop's is in a call: after the test of `_state`, and, where
the call sets it, after that too.  Between any two of these the loop may run. -/
inductive Call
  | idle
  | send (message : List Byte)
  | shutdown (set : Bool)
  /-- `force_close`, or `force_close_with_delay`. -/
  | forceClose (delay set : Bool)
  deriving DecidableEq, Repr

inductive Assertion
  | established
  | closing
  deriving DecidableEq, Repr

/-- A connection, its loop's queue, and what has come of it so far. -/
structure State where
  /-- The thread of `_loop`. -/
  loopThread : Tid
  /-- The owner is a `TcpClient`, not a `TcpServer`. -/
  client : Bool
  state : ConnState
  reading : Bool
  channel : Channel
  inputBuffer : Buffer
  outputBuffer : Buffer
  highWaterMark : Nat
  /-- `_write_complete_callback` and `_high_water_mark_callback` are set. -/
  hasWriteComplete : Bool
  hasHighWaterMark : Bool
  pendingFunctors : List Functor
  /-- `force_close` timers of `force_close_with_delay` still to fire. -/
  delayed : Nat
  /-- `remove_connection_in_loop` calls on their way through the server's loop. -/
  removals : Nat
  call : Tid → Call
  failed : List Assertion
  /-- Bytes `write` has accepted. -/
  written : List Byte
  /-- Messages passed to `send_in_loop`, with the thread that sent them. -/
  processed : List (Tid × List Byte)
  /-- Messages of the `send` calls that found the connection up. -/
  called : List (Tid × List Byte)
  /-- The unsent output at each `shutdown_write`. -/
  halfCloses : List (List Byte)
  /-- Connection callbacks in state `Connected`, and in state `Disconnected`. -/
  ups : Nat
  downs : Nat
  /-- Runs of the body of `handle_close`, and of the close callback. -/
  closes : Nat
  closeCallbacks : Nat
  /-- A write has failed for good, or the state has been `Disconnected`. -/
  ended : Bool

/-- A connection just made, its `connect_established` queued. -/
def State.init (loopThread : Tid) (client : Bool) (highWaterMark : Nat)
    (hasWriteComplete hasHighWaterMark : Bool) : State where
  loopThread := loopThread
  client := client
  state := .connecting
  reading := true
  channel := .new
  inputBuffer := .new
  outputBuffer := .new
  highWaterMark := highWaterMark
  hasWriteComplete := hasWriteComplete
  hasHighWaterMark := hasHighWaterMark
  pendingFunctors := [.connectEstablished]
  delayed := 0
  removals := 0
  call := fun _ => .idle
  failed := []
  written := []
  processed := []
  called := []
  halfCloses := []
  ups := 0
  downs := 0
  closes := 0
  closeCallbacks := 0
  ended := false

namespace State

/-! ## 2. Sending and shutting down -/

/-- `_loop->queue_in_loop`. -/
def queueInLoop (c : State) (f : Functor) : State :=
  { c with pendingFunctors := c.pendingFunctors ++ [f] }

def setState (c : State) (s : ConnState) : State :=
  { c with state := s, ended := c.ended || s == .disconnected }

/-- `_write_complete_callback`, if it is set, is queued. -/
def writeComplete (c : State) : State :=
  if c.hasWriteComplete then c.queueInLoop .writeCompleteCallback else c

/-- `_high_water_mark_callback`, if it is set, is queued when `remaining` bytes more take the
output buffer over the mark. -/
def crossHighWaterMark (c : State) (remaining : Nat) : State :=
  let oldLen := c.outputBuffer.readableBytes
  if c.highWaterMark ≤ Buffer.addSize oldLen remaining ∧ oldLen < c.highWaterMark ∧
      c.hasHighWaterMark then
    c.queueInLoop (.highWaterMarkCallback (Buffer.addSize oldLen remaining))
  else c

/-- The end of `send_in_loop`: what `write` has not taken goes to the output buffer, and the
channel asks to be told when it can be written. -/
def bufferRest (c : State) (message : List Byte) (nwrote : Nat) : Option State :=
  let remaining := message.length - nwrote
  if 0 < remaining then
    let c := c.crossHighWaterMark remaining
    match c.outputBuffer.append (message.drop nwrote) with
    | .ok b =>
      some { c with
        outputBuffer := b
        channel := if c.channel.isWriting then c.channel else c.channel.enableWriting }
    | .error _ => none
  else some c

/-- `send_in_loop` when nothing is buffered: `write` first. -/
def writeDirectly (c : State) (message : List Byte) : WriteResult → Option State
  | .wrote nwrote =>
    if nwrote ≤ message.length then
      let c := { c with written := c.written ++ message.take nwrote }
      let c := if message.length - nwrote = 0 then c.writeComplete else c
      c.bufferRest message nwrote
    else none
  | .failed errno =>
    if errno = .epipe ∨ errno = .econnreset then some { c with ended := true }
    else c.bufferRest message 0

/-- `send_in_loop`; a message is a `std::string`, no longer than its `max_size`. -/
def sendInLoop (c : State) (t : Tid) (message : List Byte) (write : WriteResult) :
    Option State :=
  if message.length ≤ Buffer.maxSize then
    let c := { c with processed := c.processed ++ [(t, message)] }
    if c.state = .disconnected then some c
    else if c.channel.isWriting = false ∧ c.outputBuffer.readableBytes = 0 then
      c.writeDirectly message write
    else c.bufferRest message 0
  else none

def shutdownInLoop (c : State) : State :=
  if c.channel.isWriting then c
  else { c with halfCloses := c.halfCloses ++ [c.outputBuffer.contents] }

/-- The rest of `handle_write`, when `write` has taken `n` bytes and `retrieve(n)` has left `b`. -/
def wroteOutput (c : State) (n : Nat) (b : Buffer) : State :=
  let c := { c with written := c.written ++ c.outputBuffer.contents.take n, outputBuffer := b }
  if b.readableBytes = 0 then
    let c := { c with channel := c.channel.disableWriting }.writeComplete
    if c.state = .disconnecting then c.shutdownInLoop else c
  else c

/-- `handle_write`. -/
def handleWrite (c : State) (write : WriteResult) : Option State :=
  if c.channel.isWriting then
    match write with
    | .wrote n =>
      if n ≤ c.outputBuffer.readableBytes then
        some (if 0 < n then c.wroteOutput n (c.outputBuffer.retrieve n) else c)
      else none
    | .failed errno =>
      some { c with ended := c.ended || errno == .epipe || errno == .econnreset }
  else some c

/-! ## 3. Calls on the connection -/

def startReadInLoop (c : State) : State :=
  if c.reading = false ∨ c.channel.isReading = false then
    { c with channel := c.channel.enableReading, reading := true }
  else c

def stopReadInLoop (c : State) : State :=
  if c.reading = true ∨ c.channel.isReading = true then
    { c with channel := c.channel.disableReading, reading := false }
  else c

/-- `_state == Connected || _state == Disconnecting`. -/
def open? (c : State) : Bool := c.state == .connected || c.state == .disconnecting

/-- `force_close` on the loop thread. -/
def forceClose (c : State) : State :=
  if c.open? then (c.setState .disconnecting).queueInLoop .forceCloseInLoop else c

/-- A step of a thread other than the loop's: the start of a call, or its next step. -/
inductive ThreadStep
  | send (message : List Byte)
  | shutdown
  | forceClose (delay : Bool)
  | startRead
  | stopRead
  | next
  deriving DecidableEq, Repr

def setCall (c : State) (t : Tid) (call : Call) : State :=
  { c with call := Function.update c.call t call }

/-- The step of a thread that is between two calls. -/
def startCall (c : State) (t : Tid) : ThreadStep → Option State
  | .send message =>
    some (if c.state = .connected then
      { c.setCall t (.send message) with called := c.called ++ [(t, message)] } else c)
  | .shutdown => some (if c.state = .connected then c.setCall t (.shutdown false) else c)
  | .forceClose delay => some (if c.open? then c.setCall t (.forceClose delay false) else c)
  | .startRead => some (c.queueInLoop .startReadInLoop)
  | .stopRead => some (c.queueInLoop .stopReadInLoop)
  | .next => none

/-- The next step of a call under way. -/
def nextStep (c : State) (t : Tid) : Call → Option State
  | .idle => none
  | .send message => some ((c.setCall t .idle).queueInLoop (.sendInLoop t message))
  | .shutdown false => some ((c.setCall t (.shutdown true)).setState .disconnecting)
  | .shutdown true => some ((c.setCall t .idle).queueInLoop .shutdownInLoop)
  | .forceClose delay false => some ((c.setCall t (.forceClose delay true)).setState .disconnecting)
  | .forceClose false true => some ((c.setCall t .idle).queueInLoop .forceCloseInLoop)
  | .forceClose true true => some { c.setCall t .idle with delayed := c.delayed + 1 }

def threadStep (c : State) (t : Tid) (step : ThreadStep) : Option State :=
  if t = c.loopThread then none
  else if c.call t = .idle then c.startCall t step
  else if step = .next then c.nextStep t (c.call t)
  else none

/-- What user code on the loop thread does with the connection, or another thread meanwhile. -/
inductive Act
  | send (message : List Byte) (write : WriteResult)
  | shutdown
  | forceClose
  | forceCloseWithDelay
  | startRead
  | stopRead
  /-- `input_buffer()->retrieve(len)`. -/
  | retrieveInput (len : Nat)
  | thread (t : Tid) (step : ThreadStep)
  deriving DecidableEq, Repr

def act (c : State) : Act → Option State
  | .send message write =>
    if c.state = .connected then
      { c with called := c.called ++ [(c.loopThread, message)] }.sendInLoop
        c.loopThread message write
    else some c
  | .shutdown =>
    some (if c.state = .connected then (c.setState .disconnecting).shutdownInLoop else c)
  | .forceClose => some c.forceClose
  | .forceCloseWithDelay =>
    some (if c.open? then { c.setState .disconnecting with delayed := c.delayed + 1 } else c)
  | .startRead => some c.startReadInLoop
  | .stopRead => some c.stopReadInLoop
  | .retrieveInput len => some { c with inputBuffer := c.inputBuffer.retrieve len }
  | .thread t step => c.threadStep t step

/-- A callback of the user. -/
def callback (c : State) (acts : List Act) : Option State := acts.foldlM act c

/-! ## 4. Events and functors -/

/-- `handle_close`; `acts` is what the connection callback does.  The close callback hands the
connection back to its owner: a client queues `connect_destroyed`, a server goes through its own
loop first. -/
def handleClose (c : State) (acts : List Act) : Option State := do
  let failed := if c.open? then c.failed else c.failed ++ [.closing]
  let c := c.setState .disconnected
  let c ← { c with channel := c.channel.disableAll, failed := failed, closes := c.closes + 1,
                   downs := c.downs + 1 }.callback acts
  let c := { c with closeCallbacks := c.closeCallbacks + 1 }
  return if c.client then c.queueInLoop .connectDestroyed else { c with removals := c.removals + 1 }

/-- `handle_read`; `acts` is what the message callback or the connection callback does. -/
def handleRead (c : State) (readv : Except Nat (List Byte)) (acts : List Act) : Option State :=
  if c.inputBuffer.fitsIov readv then
    match c.inputBuffer.readFd readv with
    | .ok (n, _, b) =>
      let c := { c with inputBuffer := b }
      if 0 < n then c.callback acts
      else if n = 0 then c.handleClose acts
      else some c
    | .error _ => none
  else none

def connectEstablished (c : State) (acts : List Act) : Option State :=
  let failed := if c.state = .connecting then c.failed else c.failed ++ [.established]
  let c := c.setState .connected
  { c with channel := c.channel.enableReading, failed := failed, ups := c.ups + 1 }.callback acts

def connectDestroyed (c : State) (acts : List Act) : Option State := do
  let c ← if c.state = .connected then
      let c := c.setState .disconnected
      { c with channel := c.channel.disableAll, downs := c.downs + 1 }.callback acts
    else some c
  return { c with channel := c.channel.remove }

/-- What the kernel and the user do in one event. -/
structure Event where
  revents : Events
  /-- In the connection callback, when the event hangs up. -/
  closeActs : List Act
  readv : Except Nat (List Byte)
  /-- In the callback that `handle_read` makes. -/
  readActs : List Act
  write : WriteResult

/-- One of the channel's callbacks. -/
def handleCallback (e : Event) (c : State) : Channel.Callback → Option State
  | .close => c.handleClose e.closeActs
  | .error => some c
  | .read => c.handleRead e.readv e.readActs
  | .write => c.handleWrite e.write

/-- `Channel::handle_event`. -/
def handleEvent (c : State) (e : Event) : Option State :=
  (Channel.handleEvent e.revents).foldlM (handleCallback e) c

/-- **An event, taken apart**: at most one hang-up, one read and one write, in this order.  Each
finds what the one before has left, user code in its callbacks included. -/
theorem handleEvent_cases {c c' : State} {e : Event} (h : c.handleEvent e = some c') :
    ∃ c₁ c₂,
      (if Channel.hangsUp e.revents then c.handleClose e.closeActs = some c₁ else c₁ = c) ∧
      (if Channel.readable e.revents then c₁.handleRead e.readv e.readActs = some c₂
        else c₂ = c₁) ∧
      (if e.revents.has Events.pollOut then c₂.handleWrite e.write = some c' else c' = c₂) := by
  obtain ⟨c₁, c₀, c₂, hhup, herr, hread, hwrite⟩ := Channel.foldlM_handleEvent h
  have hsame : c₀ = c₁ := by
    split at herr
    · exact (Option.some.inj herr).symm
    · exact herr
  subst hsame
  exact ⟨c₀, c₂, hhup, hread, hwrite⟩

/-- A functor taken from the queue; `acts` and `write` are for the callback or the `write` in it. -/
def runFunctor (c : State) (acts : List Act) (write : WriteResult) : Functor → Option State
  | .connectEstablished => c.connectEstablished acts
  | .connectDestroyed => c.connectDestroyed acts
  | .sendInLoop t message => c.sendInLoop t message write
  | .shutdownInLoop => some c.shutdownInLoop
  | .forceCloseInLoop => if c.open? then c.handleClose acts else some c
  | .startReadInLoop => some c.startReadInLoop
  | .stopReadInLoop => some c.stopReadInLoop
  | .writeCompleteCallback | .highWaterMarkCallback _ => c.callback acts

end State

/-! ## 5. The steps -/

/-- What can happen next. -/
inductive Label
  | event (e : State.Event)
  | runFunctor (acts : List State.Act) (write : WriteResult)
  /-- Other code on the loop, or another thread. -/
  | act (a : State.Act)
  /-- A timer of `force_close_with_delay` fires. -/
  | delayFires
  /-- `TcpServer::remove_connection_in_loop`. -/
  | removeConnectionInLoop
  /-- `~TcpServer` queues `connect_destroyed`, or runs it where its loop is the connection's. -/
  | serverQueuesDestroy
  | serverDestroys (acts : List State.Act)

def State.step (c : State) : Label → Option State
  | .event e => if c.channel.reports e.revents then c.handleEvent e else none
  | .runFunctor acts write =>
    match c.pendingFunctors with
    | f :: rest => { c with pendingFunctors := rest }.runFunctor acts write f
    | [] => none
  | .act a => if c.state = .connecting then none else c.act a
  | .delayFires =>
    match c.delayed with
    | n + 1 => some { c with delayed := n }.forceClose
    | 0 => none
  | .removeConnectionInLoop =>
    match c.removals with
    | n + 1 => some ({ c with removals := n }.queueInLoop .connectDestroyed)
    | 0 => none
  | .serverQueuesDestroy => some (c.queueInLoop .connectDestroyed)
  | .serverDestroys acts => if c.state = .connecting then none else c.connectDestroyed acts

/-! ## 6. Inversion -/

/-- What a step of another thread can do: begin a call, or not, between two calls; and in a call
store the state, or queue what is left to do. -/
inductive Threaded (c : State) (t : Tid) : State.ThreadStep → State → Prop
  | send {message : List Byte} (hidle : c.call t = .idle) (hs : c.state = .connected) :
      Threaded c t (.send message)
        { c.setCall t (.send message) with called := c.called ++ [(t, message)] }
  | shutdown (hidle : c.call t = .idle) (hs : c.state = .connected) :
      Threaded c t .shutdown (c.setCall t (.shutdown false))
  | forceClose {delay : Bool} (hidle : c.call t = .idle) (hopen : c.open? = true) :
      Threaded c t (.forceClose delay) (c.setCall t (.forceClose delay false))
  | refused {step : State.ThreadStep} (hidle : c.call t = .idle) (hs : c.state ≠ .connected) :
      Threaded c t step c
  | startRead (hidle : c.call t = .idle) : Threaded c t .startRead (c.queueInLoop .startReadInLoop)
  | stopRead (hidle : c.call t = .idle) : Threaded c t .stopRead (c.queueInLoop .stopReadInLoop)
  | queueSend {message : List Byte} (hc : c.call t = .send message) :
      Threaded c t .next ((c.setCall t .idle).queueInLoop (.sendInLoop t message))
  | storeShutdown (hc : c.call t = .shutdown false) :
      Threaded c t .next ((c.setCall t (.shutdown true)).setState .disconnecting)
  | queueShutdown (hc : c.call t = .shutdown true) :
      Threaded c t .next ((c.setCall t .idle).queueInLoop .shutdownInLoop)
  | storeForceClose {delay : Bool} (hc : c.call t = .forceClose delay false) :
      Threaded c t .next ((c.setCall t (.forceClose delay true)).setState .disconnecting)
  | queueForceClose (hc : c.call t = .forceClose false true) :
      Threaded c t .next ((c.setCall t .idle).queueInLoop .forceCloseInLoop)
  | addDelay (hc : c.call t = .forceClose true true) :
      Threaded c t .next { c.setCall t .idle with delayed := c.delayed + 1 }

theorem startCall_inv {c c' : State} {t : Tid} {step : State.ThreadStep} (hidle : c.call t = .idle)
    (h : c.startCall t step = some c') : Threaded c t step c' := by
  cases step with
  | send message =>
    cases h
    split
    · rename_i hs
      exact .send hidle hs
    · rename_i hs
      exact .refused hidle hs
  | shutdown =>
    cases h
    split
    · rename_i hs
      exact .shutdown hidle hs
    · rename_i hs
      exact .refused hidle hs
  | forceClose delay =>
    cases h
    split
    · rename_i hopen
      exact .forceClose hidle hopen
    · rename_i hopen
      exact .refused hidle fun hs => hopen (by rw [State.open?, hs]; rfl)
  | startRead =>
    cases h
    exact .startRead hidle
  | stopRead =>
    cases h
    exact .stopRead hidle
  | next => cases h

theorem nextStep_inv {c c' : State} {t : Tid} {call : Call} (hc : c.call t = call)
    (h : c.nextStep t call = some c') : Threaded c t .next c' := by
  cases call with
  | idle => cases h
  | send message =>
    cases h
    exact .queueSend hc
  | shutdown set =>
    cases set with
    | false =>
      cases h
      exact .storeShutdown hc
    | true =>
      cases h
      exact .queueShutdown hc
  | forceClose delay set =>
    cases set with
    | false =>
      cases h
      exact .storeForceClose hc
    | true =>
      cases delay with
      | false =>
        cases h
        exact .queueForceClose hc
      | true =>
        cases h
        exact .addDelay hc

/-- **Inversion of a step of another thread.**  A call that has begun goes on from where it was,
and never on the loop's thread. -/
theorem threadStep_inv {c c' : State} {t : Tid} {step : State.ThreadStep}
    (h : c.threadStep t step = some c') : t ≠ c.loopThread ∧ Threaded c t step c' := by
  simp only [State.threadStep] at h
  split at h
  · cases h
  · rename_i ht
    refine ⟨ht, ?_⟩
    split at h
    · rename_i hidle
      exact startCall_inv hidle h
    · split at h
      · rename_i hnext
        subst hnext
        exact nextStep_inv rfl h
      · cases h

/-- The ways a step can go, each with what it needs. -/
inductive Step (c : State) : Label → State → Prop
  | event {e : State.Event} {c' : State} (hr : c.channel.reports e.revents = true)
      (h : c.handleEvent e = some c') : Step c (.event e) c'
  | runFunctor {acts : List State.Act} {write : WriteResult} {f : Functor} {rest : List Functor}
      {c' : State} (hp : c.pendingFunctors = f :: rest)
      (h : { c with pendingFunctors := rest }.runFunctor acts write f = some c') :
      Step c (.runFunctor acts write) c'
  | act {a : State.Act} {c' : State} (hs : c.state ≠ .connecting) (h : c.act a = some c') :
      Step c (.act a) c'
  | delayFires {n : Nat} (hn : c.delayed = n + 1) :
      Step c .delayFires { c with delayed := n }.forceClose
  | removeConnectionInLoop {n : Nat} (hn : c.removals = n + 1) :
      Step c .removeConnectionInLoop ({ c with removals := n }.queueInLoop .connectDestroyed)
  | serverQueuesDestroy : Step c .serverQueuesDestroy (c.queueInLoop .connectDestroyed)
  | serverDestroys {acts : List State.Act} {c' : State} (hs : c.state ≠ .connecting)
      (h : c.connectDestroyed acts = some c') : Step c (.serverDestroys acts) c'

/-- **Inversion of a step.**  The constructors of `Step` are its cases; whatever holds of a
connection in every run is proved one constructor at a time. -/
theorem step_inv {c c' : State} {l : Label} (h : c.step l = some c') : Step c l c' := by
  cases l with
  | event e =>
    simp only [State.step] at h
    split at h
    · rename_i hr
      exact .event hr h
    · cases h
  | runFunctor acts write =>
    simp only [State.step] at h
    split at h
    · rename_i f rest hp
      exact .runFunctor hp h
    · cases h
  | act a =>
    simp only [State.step] at h
    split at h
    · cases h
    · rename_i hs
      exact .act hs h
  | delayFires =>
    simp only [State.step] at h
    split at h
    · rename_i n hn
      cases h
      exact .delayFires hn
    · cases h
  | removeConnectionInLoop =>
    simp only [State.step] at h
    split at h
    · rename_i n hn
      cases h
      exact .removeConnectionInLoop hn
    · cases h
  | serverQueuesDestroy =>
    cases h
    exact .serverQueuesDestroy
  | serverDestroys acts =>
    simp only [State.step] at h
    split at h
    · cases h
    · rename_i hs
      exact .serverDestroys hs h

end Suduo.TcpConnection
