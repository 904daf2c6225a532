/-
# A connection on the loop's stack

A step of `TcpConnection.State.step` is an event from its report to the end of its last callback, or
one functor.  Two things that the code does cannot be said with such steps.

* The poller reports a whole batch of channels, and the loop handles them one after the other.
  Between the report of a channel and its `handle_event` other channels are handled and timers fire,
  and what they call may take the channel out of the poller; its `handle_event` runs nevertheless,
  with the `revents` of the report.
* User code in a callback, of this connection or of anything else on the loop, may destroy the
  server.  Where the loop is the server's own, `connect_destroyed` runs AT ONCE, inside the
  callback, and what was under way goes on after it: the rest of `handle_close`, the other callbacks
  of the same `handle_event`.

Here the steps are smaller: one callback of `handle_event`, one call, one return.  What is under way
on the loop's stack is part of the state (`Activation`), and so is a report that has not been
handled yet.  Every step of `TcpConnection.State.step` is a run of these (`step_nested`), so what
holds in every run of these holds there too.
-/
import Suduo.Net.TcpFrame
import Suduo.Net.TcpMoves

namespace Suduo.TcpConnection

open Lib

/-! ## 1. The state -/

/-- What is under way on the loop's stack, as far as the connection is concerned: a
`handle_event` between two callbacks, or a callback of the user with what is to be done when it
returns. -/
inductive Activation
  /-- `Channel::handle_event`, with the callbacks it has still to make. -/
  | event (todo : List Channel.Callback)
  /-- The connection callback in `handle_close`; the close callback comes after it. -/
  | closing
  /-- The connection callback in `connect_destroyed`; the removal of the channel comes after it. -/
  | destroying
  /-- Any other callback of the connection. -/
  | callback
  deriving DecidableEq, Repr

/-- A connection and its loop.  The stack and the pending report are what a whole step has no
room for; `destroyed` is for the statements. -/
structure Nested where
  conn : State
  /-- The innermost first.  With nothing of the connection on it, the loop runs other code, or none. -/
  stack : List Activation
  /-- The `revents` of the channel, while it is in `_active_channel` and still to be handled. -/
  polled : Option Events
  /-- `connect_destroyed` has run to its end. -/
  destroyed : Bool

namespace Nested

inductive Label
  /-- `Poller::poll` reports the channel. -/
  | poll (revents : Events)
  /-- The loop comes to the channel: `handle_event` begins. -/
  | dispatch
  /-- `handle_event` makes its next callback; `readv` and `write` are what the kernel answers in it. -/
  | callback (readv : Except Nat (List Byte)) (write : WriteResult)
  /-- User code calls the connection, on the loop or elsewhere. -/
  | act (a : State.Act)
  /-- The innermost activation comes to its end. -/
  | returns
  /-- User code on the loop destroys the server, which belongs to the same loop. -/
  | destroyServer
  /-- The next functor of the connection; `write` is what the kernel answers in it. -/
  | runFunctor (write : WriteResult)
  /-- A timer of `force_close_with_delay` fires. -/
  | delayFires
  /-- `TcpServer::remove_connection_in_loop`. -/
  | removeConnectionInLoop
  /-- `~TcpServer`, where its loop is another. -/
  | serverQueuesDestroy

def init (loopThread : Tid) (client : Bool) (highWaterMark : Nat) (hasWriteComplete hasHighWaterMark : Bool) :
    Nested where
  conn := .init loopThread client highWaterMark hasWriteComplete hasHighWaterMark
  stack := []
  polled := none
  destroyed := false

/-! ## 2. The steps -/

/-- User code may run on the loop: the innermost activation is a callback, or the loop is busy
with something else.  Between two callbacks of `handle_event` no user code runs. -/
def inUserCode (s : Nested) : Bool :=
  match s.stack with
  | .event _ :: _ => false
  | .closing :: _ | .destroying :: _ | .callback :: _ | [] => true

/-- The connection reaches user code with its UP callback. -/
def MayCall (s : Nested) (a : State.Act) : Prop :=
  (a.onLoop = true → s.inUserCode = true) ∧ (s.stack = [] → s.conn.state ≠ .connecting)

instance (s : Nested) (a : State.Act) : Decidable (s.MayCall a) := inferInstanceAs (Decidable (_ ∧ _))

def setConn (s : Nested) (c : State) : Nested := { s with conn := c }

/-- `handle_close`, up to its connection callback. -/
def handleClose (s : Nested) : Nested := { s with conn := s.conn.closing, stack := .closing :: s.stack }

/-- `connect_destroyed`, up to its connection callback where it makes one.  It runs from the
queue, or at once inside a callback of the server's own loop. -/
def connectDestroyed (s : Nested) : Nested :=
  if s.conn.state = .connected then { s with conn := s.conn.destroying, stack := .destroying :: s.stack }
  else { s with conn := s.conn.removed, destroyed := true }

/-- `handle_read`, up to its callback. -/
def handleRead (s : Nested) (readv : Except Nat (List Byte)) : Option Nested :=
  if s.conn.inputBuffer.fitsIov readv then
    match s.conn.inputBuffer.readFd readv with
    | .ok (n, _, b) =>
      let s := s.setConn { s.conn with inputBuffer := b }
      if 0 < n then some { s with stack := .callback :: s.stack }
      else if n = 0 then some s.handleClose
      else some s
    | .error _ => none
  else none

/-- One of the channel's callbacks. -/
def handleCallback (s : Nested) (readv : Except Nat (List Byte)) (write : WriteResult) :
    Channel.Callback → Option Nested
  | .close => some s.handleClose
  | .error => some s
  | .read => s.handleRead readv
  | .write => (s.conn.handleWrite write).map s.setConn

/-- A functor taken from the queue. -/
def runFunctor (s : Nested) (write : WriteResult) : Functor → Option Nested
  | .connectEstablished => some { s with conn := s.conn.established, stack := .callback :: s.stack }
  | .connectDestroyed => some s.connectDestroyed
  | .sendInLoop t message => (s.conn.sendInLoop t message write).map s.setConn
  | .shutdownInLoop => some (s.setConn s.conn.shutdownInLoop)
  | .forceCloseInLoop => some (if s.conn.open? then s.handleClose else s)
  | .startReadInLoop => some (s.setConn s.conn.startReadInLoop)
  | .stopReadInLoop => some (s.setConn s.conn.stopReadInLoop)
  | .writeCompleteCallback | .highWaterMarkCallback _ => some { s with stack := .callback :: s.stack }

def step (s : Nested) : Label → Option Nested
  | .poll revents =>
    if s.stack = [] ∧ s.polled = none ∧ s.conn.channel.reports revents = true then
      some { s with polled := some revents }
    else none
  | .dispatch =>
    match s.stack, s.polled with
    | [], some revents => some { s with stack := [.event (Channel.handleEvent revents)], polled := none }
    | _, _ => none
  | .callback readv write =>
    match s.stack with
    | .event (cb :: todo) :: below => { s with stack := .event todo :: below }.handleCallback readv write cb
    | _ => none
  | .act a => if s.MayCall a then (s.conn.act a).map s.setConn else none
  | .returns =>
    match s.stack with
    | .event [] :: below | .callback :: below => some { s with stack := below }
    | .closing :: below => some { s with conn := s.conn.closed, stack := below }
    | .destroying :: below => some { s with conn := s.conn.removed, stack := below, destroyed := true }
    | .event (_ :: _) :: _ | [] => none
  | .destroyServer =>
    if s.inUserCode = true ∧ s.conn.state ≠ .connecting then some s.connectDestroyed else none
  | .runFunctor write =>
    -- the loop runs functors when the batch is done
    match s.stack, s.polled, s.conn.pendingFunctors with
    | [], none, f :: rest => (s.setConn { s.conn with pendingFunctors := rest }).runFunctor write f
    | _, _, _ => none
  | .delayFires => if s.stack = [] then (s.conn.step .delayFires).map s.setConn else none
  | .removeConnectionInLoop => (s.conn.step .removeConnectionInLoop).map s.setConn
  | .serverQueuesDestroy => (s.conn.step .serverQueuesDestroy).map s.setConn

end Nested

/-! ## 3. Inversion -/

/-- The ways a step can go, each with what it needs. -/
inductive Nested.Step (s : Nested) : Nested.Label → Nested → Prop
  | poll {revents : Events} (hs : s.stack = []) (hr : s.conn.channel.reports revents = true) :
      Nested.Step s (.poll revents) { s with polled := some revents }
  | dispatch {revents : Events} (hs : s.stack = []) (hp : s.polled = some revents) :
      Nested.Step s .dispatch { s with stack := [.event (Channel.handleEvent revents)], polled := none }
  | close {readv : Except Nat (List Byte)} {write : WriteResult} {todo : List Channel.Callback}
      {below : List Activation} (hs : s.stack = .event (.close :: todo) :: below) :
      Nested.Step s (.callback readv write) { s with stack := .event todo :: below }.handleClose
  | error {readv : Except Nat (List Byte)} {write : WriteResult} {todo : List Channel.Callback}
      {below : List Activation} (hs : s.stack = .event (.error :: todo) :: below) :
      Nested.Step s (.callback readv write) { s with stack := .event todo :: below }
  | readData {readv : Except Nat (List Byte)} {write : WriteResult} {todo : List Channel.Callback}
      {below : List Activation} {b : Buffer} (hs : s.stack = .event (.read :: todo) :: below) (hr : readv ≠ .ok []) :
      Nested.Step s (.callback readv write)
        { s with conn := { s.conn with inputBuffer := b }, stack := .callback :: .event todo :: below }
  | readNothing {readv : Except Nat (List Byte)} {write : WriteResult} {todo : List Channel.Callback}
      {below : List Activation} {b : Buffer} (hs : s.stack = .event (.read :: todo) :: below) (hr : readv ≠ .ok []) :
      Nested.Step s (.callback readv write)
        { s with conn := { s.conn with inputBuffer := b }, stack := .event todo :: below }
  | readEnd {write : WriteResult} {todo : List Channel.Callback} {below : List Activation} {b : Buffer}
      (hs : s.stack = .event (.read :: todo) :: below) :
      Nested.Step s (.callback (.ok []) write)
        { s with conn := { s.conn with inputBuffer := b }, stack := .event todo :: below }.handleClose
  | write {readv : Except Nat (List Byte)} {write : WriteResult} {todo : List Channel.Callback}
      {below : List Activation} {c : State} (hs : s.stack = .event (.write :: todo) :: below)
      (hc : s.conn.handleWrite write = some c) :
      Nested.Step s (.callback readv write) { s with conn := c, stack := .event todo :: below }
  | act {a : State.Act} {c : State} (hm : s.MayCall a) (hc : s.conn.act a = some c) :
      Nested.Step s (.act a) (s.setConn c)
  | eventReturns {below : List Activation} (hs : s.stack = .event [] :: below) :
      Nested.Step s .returns { s with stack := below }
  | callbackReturns {below : List Activation} (hs : s.stack = .callback :: below) :
      Nested.Step s .returns { s with stack := below }
  | closingReturns {below : List Activation} (hs : s.stack = .closing :: below) :
      Nested.Step s .returns { s with conn := s.conn.closed, stack := below }
  | destroyingReturns {below : List Activation} (hs : s.stack = .destroying :: below) :
      Nested.Step s .returns { s with conn := s.conn.removed, stack := below, destroyed := true }
  | destroyServer (hu : s.inUserCode = true) (hs : s.conn.state ≠ .connecting) :
      Nested.Step s .destroyServer s.connectDestroyed
  | runFunctor {write : WriteResult} {f : Functor} {rest : List Functor} {s' : Nested} (hs : s.stack = [])
      (hp : s.polled = none) (hq : s.conn.pendingFunctors = f :: rest)
      (hf : (s.setConn { s.conn with pendingFunctors := rest }).runFunctor write f = some s') :
      Nested.Step s (.runFunctor write) s'
  | delayFires {n : Nat} (hs : s.stack = []) (hn : s.conn.delayed = n + 1) :
      Nested.Step s .delayFires (s.setConn { s.conn with delayed := n }.forceClose)
  | removeConnectionInLoop {n : Nat} (hn : s.conn.removals = n + 1) :
      Nested.Step s .removeConnectionInLoop
        (s.setConn ({ s.conn with removals := n }.queueInLoop .connectDestroyed))
  | serverQueuesDestroy :
      Nested.Step s .serverQueuesDestroy (s.setConn (s.conn.queueInLoop .connectDestroyed))

/-- `readv` returns nothing exactly at the end of the stream. -/
theorem readFd_count {b b' : Buffer} {readv : Except Nat (List Byte)} {n : Int} {errno : Option Nat}
    (h : b.readFd readv = .ok (n, errno, b')) : n = 0 ↔ readv = .ok [] := by
  cases readv with
  | error e =>
    cases h
    exact iff_of_false (by decide) (by rintro ⟨⟩)
  | ok data =>
    have hn : n = data.length := by
      simp only [Buffer.readFd] at h
      split at h
      · obtain ⟨b₁, -, h⟩ := Buffer.bind_eq_ok.mp h
        cases h
        rfl
      · obtain ⟨b₁, -, h⟩ := Buffer.bind_eq_ok.mp h
        obtain ⟨b₂, -, h⟩ := Buffer.bind_eq_ok.mp h
        cases h
        rfl
    rw [hn, Int.natCast_eq_zero, List.length_eq_zero_iff]
    exact ⟨fun hd => hd ▸ rfl, fun hd => Except.ok.inj hd⟩

/-- `handle_read`, by what `readv` has returned: data and a callback, an error, or the end of the
stream, which is a close. -/
theorem handleRead_inv {s s' : Nested} {readv : Except Nat (List Byte)} (write : WriteResult)
    {todo : List Channel.Callback} {below : List Activation} (hs : s.stack = .event (.read :: todo) :: below)
    (h : { s with stack := .event todo :: below }.handleRead readv = some s') :
    Nested.Step s (.callback readv write) s' := by
  simp only [Nested.handleRead, Option.ite_none_right_eq_some] at h
  obtain ⟨-, h⟩ := h
  split at h
  · rename_i n errno b hread
    have hcount := readFd_count hread
    split at h
    · rename_i hpos
      cases h
      exact .readData hs fun hend => absurd (hcount.mpr hend) (by omega)
    · split at h
      · rename_i hzero
        cases h
        obtain rfl := hcount.mp hzero
        exact .readEnd hs
      · rename_i hne
        cases h
        exact .readNothing hs fun hend => hne (hcount.mpr hend)
  · cases h

/-- The callback that `handle_event` makes next, one constructor for each way it can go. -/
theorem handleCallback_inv {s s' : Nested} {readv : Except Nat (List Byte)} {write : WriteResult}
    {cb : Channel.Callback} {todo : List Channel.Callback} {below : List Activation}
    (hs : s.stack = .event (cb :: todo) :: below)
    (h : { s with stack := .event todo :: below }.handleCallback readv write cb = some s') :
    Nested.Step s (.callback readv write) s' := by
  cases cb with
  | close =>
    cases h
    exact .close hs
  | error =>
    cases h
    exact .error hs
  | read => exact handleRead_inv write hs h
  | write =>
    obtain ⟨c, hc, rfl⟩ := Option.map_eq_some_iff.mp h
    exact .write hs hc

/-- **Inversion of a step.**  Which callback runs next, and what goes on after a return, is read
off the top of the stack. -/
theorem nested_inv {s s' : Nested} {l : Nested.Label} (h : s.step l = some s') : Nested.Step s l s' := by
  cases l with
  | poll revents =>
    simp only [Nested.step, Option.ite_none_right_eq_some, Option.some.injEq] at h
    obtain ⟨⟨hs, -, hr⟩, rfl⟩ := h
    exact .poll hs hr
  | dispatch =>
    simp only [Nested.step] at h
    split at h
    · rename_i revents hs hp
      cases h
      exact .dispatch hs hp
    · cases h
  | callback readv write =>
    simp only [Nested.step] at h
    split at h
    · rename_i cb todo below hs
      exact handleCallback_inv hs h
    · cases h
  | act a =>
    simp only [Nested.step, Option.ite_none_right_eq_some] at h
    obtain ⟨hm, h⟩ := h
    obtain ⟨c, hc, rfl⟩ := Option.map_eq_some_iff.mp h
    exact .act hm hc
  | returns =>
    simp only [Nested.step] at h
    split at h
    · rename_i below hs
      cases h
      exact .eventReturns hs
    · rename_i below hs
      cases h
      exact .callbackReturns hs
    · rename_i below hs
      cases h
      exact .closingReturns hs
    · rename_i below hs
      cases h
      exact .destroyingReturns hs
    · cases h
    · cases h
  | destroyServer =>
    simp only [Nested.step, Option.ite_none_right_eq_some, Option.some.injEq] at h
    obtain ⟨⟨hu, hs⟩, rfl⟩ := h
    exact .destroyServer hu hs
  | runFunctor write =>
    simp only [Nested.step] at h
    split at h
    · rename_i f rest hs hp hq
      exact .runFunctor hs hp hq h
    · cases h
  | delayFires =>
    simp only [Nested.step, Option.ite_none_right_eq_some] at h
    obtain ⟨hs, h⟩ := h
    obtain ⟨c, hc, rfl⟩ := Option.map_eq_some_iff.mp h
    cases step_inv hc with
    | delayFires hn => exact .delayFires hs hn
  | removeConnectionInLoop =>
    obtain ⟨c, hc, rfl⟩ := Option.map_eq_some_iff.mp h
    cases step_inv hc with
    | removeConnectionInLoop hn => exact .removeConnectionInLoop hn
  | serverQueuesDestroy =>
    cases h
    exact .serverQueuesDestroy

/-! ## 4. A whole step is a run -/

/-- The step runs `connect_destroyed`. -/
def runsDestroy (c : State) : Label → Bool
  | .runFunctor _ _ => c.pendingFunctors.head? == some .connectDestroyed
  | .serverDestroys _ => true
  | _ => false

variable {c c' : State} {st below : List Activation} {p : Option Events} {d : Bool}

theorem nested_reach {s s' : Nested} {l : Nested.Label} (h : s.step l = some s') : Reach Nested.step anyStep s s' :=
  Reach.refl.tail l trivial h

/-- The calls of a callback, one by one, on top of whatever is under way. -/
theorem callback_nested {acts : List State.Act} {f : Activation} (hf : ∀ todo, f ≠ .event todo)
    (h : c.callback acts = some c') :
    Reach Nested.step anyStep ⟨c, f :: below, p, d⟩ ⟨c', f :: below, p, d⟩ := by
  induction acts generalizing c with
  | nil =>
    cases h
    exact .refl
  | cons a acts ih =>
    simp only [State.callback, List.foldlM_cons, Option.bind_eq_bind, Option.bind_eq_some_iff] at h
    obtain ⟨c₁, hact, hrest⟩ := h
    have hmay : Nested.MayCall ⟨c, f :: below, p, d⟩ a := by
      refine ⟨fun _ => ?_, fun hs => by cases hs⟩
      cases f with
      | event todo => exact absurd rfl (hf todo)
      | closing | destroying | callback => rfl
    refine (nested_reach (l := .act a) ?_).trans (ih hrest)
    simp only [Nested.step, if_pos hmay, hact, Option.map_some]
    rfl

theorem handleClose_nested {acts : List State.Act} (h : c.handleClose acts = some c') :
    Reach Nested.step anyStep (Nested.handleClose ⟨c, st, p, d⟩) ⟨c', st, p, d⟩ := by
  simp only [State.handleClose, Option.bind_eq_bind, Option.bind_eq_some_iff] at h
  obtain ⟨c₁, hcall, h⟩ := h
  have hcalls : Reach Nested.step anyStep (Nested.handleClose ⟨c, st, p, d⟩) ⟨c₁, .closing :: st, p, d⟩ :=
    callback_nested (by simp) hcall
  refine hcalls.tail .returns trivial ?_
  simp only [Nested.step, Option.some.injEq, Nested.mk.injEq, and_true]
  exact Option.some.inj h

theorem connectDestroyed_nested {acts : List State.Act} (h : c.connectDestroyed acts = some c') :
    Reach Nested.step anyStep (Nested.connectDestroyed ⟨c, st, p, d⟩) ⟨c', st, p, true⟩ := by
  simp only [State.connectDestroyed, Option.bind_eq_bind] at h
  split at h
  · rename_i hup
    obtain ⟨c₁, hcall, h⟩ := Option.bind_eq_some_iff.mp h
    rw [Nested.connectDestroyed, if_pos hup]
    have hcalls : Reach Nested.step anyStep ⟨c.destroying, .destroying :: st, p, d⟩
        ⟨c₁, .destroying :: st, p, d⟩ := callback_nested (by simp) hcall
    refine hcalls.tail .returns trivial ?_
    simp only [Nested.step, Option.some.injEq, Nested.mk.injEq, and_true]
    exact Option.some.inj h
  · rename_i hup
    rw [Nested.connectDestroyed, if_neg hup]
    cases h
    exact .refl

theorem handleRead_nested {readv : Except Nat (List Byte)} {acts : List State.Act} {todo : List Channel.Callback}
    (write : WriteResult) (h : c.handleRead readv acts = some c') :
    Reach Nested.step anyStep ⟨c, .event (.read :: todo) :: below, p, d⟩ ⟨c', .event todo :: below, p, d⟩ := by
  simp only [State.handleRead, Option.ite_none_right_eq_some] at h
  obtain ⟨hfits, h⟩ := h
  split at h
  · rename_i n errno b hread
    have hstep : Nested.step ⟨c, .event (.read :: todo) :: below, p, d⟩ (.callback readv write) =
        if 0 < n then some ⟨{ c with inputBuffer := b }, .callback :: .event todo :: below, p, d⟩
        else if n = 0 then some (Nested.handleClose ⟨{ c with inputBuffer := b }, .event todo :: below, p, d⟩)
        else some ⟨{ c with inputBuffer := b }, .event todo :: below, p, d⟩ := by
      simp only [Nested.step, Nested.handleCallback, Nested.handleRead, hfits, ↓reduceIte, hread]
      rfl
    split at h
    · rename_i hpos
      rw [if_pos hpos] at hstep
      exact ((nested_reach hstep).trans (callback_nested (by simp) h)).tail .returns trivial rfl
    · rename_i hpos
      rw [if_neg hpos] at hstep
      split at h
      · rename_i hzero
        rw [if_pos hzero] at hstep
        exact (nested_reach hstep).trans (handleClose_nested h)
      · rename_i hzero
        rw [if_neg hzero] at hstep
        cases h
        exact nested_reach hstep
  · cases h

/-- The callbacks of `handle_event`, one after the other; each is pushed, runs and returns. -/
theorem callbacks_nested (e : State.Event) {todo : List Channel.Callback}
    (h : todo.foldlM (State.handleCallback e) c = some c') :
    Reach Nested.step anyStep ⟨c, .event todo :: below, p, d⟩ ⟨c', .event [] :: below, p, d⟩ := by
  induction todo generalizing c with
  | nil =>
    cases h
    exact .refl
  | cons cb todo ih =>
    simp only [List.foldlM_cons, Option.bind_eq_bind, Option.bind_eq_some_iff] at h
    obtain ⟨c₁, hcb, hrest⟩ := h
    refine Reach.trans ?_ (ih hrest)
    cases cb with
    | close =>
      refine (nested_reach (l := .callback e.readv e.write) ?_).trans (handleClose_nested hcb)
      rfl
    | error =>
      cases hcb
      exact nested_reach (l := .callback e.readv e.write) rfl
    | read => exact handleRead_nested e.write hcb
    | write =>
      refine nested_reach (l := .callback e.readv e.write) ?_
      simp only [Nested.step, Nested.handleCallback]
      rw [show c.handleWrite e.write = some c₁ from hcb]
      rfl

theorem runFunctor_nested {f : Functor} {acts : List State.Act} {write : WriteResult}
    (h : c.runFunctor acts write f = some c') :
    ∃ s, Nested.runFunctor ⟨c, [], none, d⟩ write f = some s ∧
      Reach Nested.step anyStep s ⟨c', [], none, d || f == .connectDestroyed⟩ := by
  have hcallback : ∀ {c : State}, c.callback acts = some c' →
      Reach Nested.step anyStep ⟨c, [.callback], none, d⟩ ⟨c', [], none, d⟩ := by
    intro c hcall
    exact (callback_nested (by simp) hcall).tail .returns trivial rfl
  cases f with
  | connectEstablished =>
    refine ⟨_, rfl, ?_⟩
    rw [show (d || Functor.connectEstablished == .connectDestroyed) = d from Bool.or_false d]
    exact hcallback h
  | connectDestroyed =>
    refine ⟨_, rfl, ?_⟩
    rw [show (d || Functor.connectDestroyed == .connectDestroyed) = true from Bool.or_true d]
    exact connectDestroyed_nested h
  | sendInLoop t message =>
    refine ⟨⟨c', [], none, d⟩, ?_, ?_⟩
    · simp only [Nested.runFunctor]
      rw [show c.sendInLoop t message write = some c' from h]
      rfl
    · rw [show (d || Functor.sendInLoop t message == .connectDestroyed) = d from Bool.or_false d]
      exact .refl
  | shutdownInLoop | startReadInLoop | stopReadInLoop =>
    cases h
    refine ⟨_, rfl, ?_⟩
    change Reach Nested.step anyStep _ ⟨_, [], none, d || false⟩
    rw [Bool.or_false]
    exact .refl
  | forceCloseInLoop =>
    refine ⟨_, rfl, ?_⟩
    rw [show (d || Functor.forceCloseInLoop == .connectDestroyed) = d from Bool.or_false d]
    simp only [State.runFunctor] at h
    split at h
    · rename_i hopen
      rw [if_pos hopen]
      exact handleClose_nested h
    · rename_i hopen
      rw [if_neg hopen]
      cases h
      exact .refl
  | writeCompleteCallback | highWaterMarkCallback len =>
    refine ⟨_, rfl, ?_⟩
    change Reach Nested.step anyStep _ ⟨_, [], none, d || false⟩
    rw [Bool.or_false]
    exact hcallback h

/-- **A whole step is a run.**  Where nothing of the connection is under way and no report is
pending, whatever a step of `State.step` does can be done callback by callback, and it ends where
nothing is under way again. -/
theorem step_nested {l : Label} (h : c.step l = some c') :
    Reach Nested.step anyStep ⟨c, [], none, d⟩ ⟨c', [], none, d || runsDestroy c l⟩ := by
  have hrest {l : Label} (hl : runsDestroy c l = false) (hreach : Reach Nested.step anyStep ⟨c, [], none, d⟩
      ⟨c', [], none, d⟩) : Reach Nested.step anyStep ⟨c, [], none, d⟩ ⟨c', [], none, d || runsDestroy c l⟩ := by
    rwa [hl, Bool.or_false]
  cases step_inv h with
  | @event e _ hr hev =>
    refine hrest rfl ?_
    have hpoll : Nested.step ⟨c, [], none, d⟩ (.poll e.revents) = some ⟨c, [], some e.revents, d⟩ := by
      simp only [Nested.step, hr, and_self, ↓reduceIte]
    have hdispatch : Reach Nested.step anyStep ⟨c, [], none, d⟩
        ⟨c, [.event (Channel.handleEvent e.revents)], none, d⟩ := (nested_reach hpoll).tail .dispatch trivial rfl
    exact (hdispatch.trans (callbacks_nested e hev)).tail .returns trivial rfl
  | @runFunctor acts write f rest _ hq hrun =>
    obtain ⟨s, hf, hreach⟩ := runFunctor_nested (d := d) hrun
    have hfirst : runsDestroy c (.runFunctor acts write) = (f == .connectDestroyed) := by
      simp only [runsDestroy, hq, List.head?_cons]
      rfl
    rw [hfirst]
    refine (nested_reach (l := .runFunctor write) ?_).trans hreach
    simp only [Nested.step, hq]
    exact hf
  | @act a _ hs hact =>
    refine hrest rfl (nested_reach (l := .act a) ?_)
    have hmay : Nested.MayCall ⟨c, [], none, d⟩ a := ⟨fun _ => rfl, fun _ => hs⟩
    simp only [Nested.step, if_pos hmay, hact, Option.map_some]
    rfl
  | delayFires =>
    refine hrest rfl (nested_reach (l := .delayFires) ?_)
    simp only [Nested.step, ↓reduceIte, h, Option.map_some]
    rfl
  | removeConnectionInLoop =>
    refine hrest rfl (nested_reach (l := .removeConnectionInLoop) ?_)
    simp only [Nested.step, h, Option.map_some]
    rfl
  | serverQueuesDestroy => exact hrest rfl (nested_reach (l := .serverQueuesDestroy) rfl)
  | @serverDestroys acts _ hs hdestroy =>
    rw [show (d || runsDestroy c (.serverDestroys acts)) = true from Bool.or_true d]
    refine (nested_reach (l := .destroyServer) ?_).trans (connectDestroyed_nested (d := d) hdestroy)
    exact if_pos ⟨rfl, hs⟩

/-- Every run of whole steps can be made callback by callback, so a statement about all runs of
`Nested.step` is one about all runs of the connection. -/
theorem reach_nested {c₀ : State} {d₀ : Bool} (h : Reach State.step anyStep c₀ c) :
    ∃ d, Reach Nested.step anyStep ⟨c₀, [], none, d₀⟩ ⟨c, [], none, d⟩ := by
  induction h with
  | refl => exact ⟨d₀, .refl⟩
  | tail l _ _ hst ih =>
    obtain ⟨d, hreach⟩ := ih
    exact ⟨_, hreach.trans (step_nested hst)⟩

end Suduo.TcpConnection
