/-
# What `connect_destroyed` leaves behind

`connect_destroyed` is the last loop step of a connection.  It looks at one state only: a connection
that is still `Connected` is taken down, with its callback; in any OTHER state the channel is
removed and nothing else is done.  That is right for `Disconnected`.  For `Disconnecting`, after a
half-close or a delayed close, it leaves the state, the interest and the user as they were.

And what it leaves is not safe yet.  `shutdown` and `force_close` of another thread test `_state`
and store `Disconnecting` in two steps, so a call that found the connection up can store when
`connect_destroyed` is in its callback, or long after it: `~TcpConnection` asserts `_state ==
Disconnected`, and then it fails.

`destroyed_complete` has the exact condition, over every run of the connection in which callbacks,
events and destructors nest as they do on the loop's stack.
-/
import Suduo.Net.TcpNested

namespace Suduo.TcpConnection

open Lib

/-! ## 1. The life of a connection -/

variable {c c' c'' : State} {reads onLoop : Bool}

/-- A connection that is down stays without interest. -/
def Quiet (c c' : State) : Prop :=
  c'.state = .disconnected →
    c.state = .disconnected ∧ (c.channel.events = 0 → c'.channel.events = 0)

theorem Quiet.trans (h : Quiet c c') (h' : Quiet c' c'') : Quiet c c'' := by
  intro hd
  obtain ⟨hd', he'⟩ := h' hd
  obtain ⟨hd'', he''⟩ := h hd'
  exact ⟨hd'', he' ∘ he''⟩

/-- Where the state is kept, only a connection that is down has to be looked at. -/
theorem Quiet.of_state (hs : c'.state = c.state)
    (he : c.state = .disconnected → c.channel.events = 0 → c'.channel.events = 0) : Quiet c c' :=
  fun hd => ⟨hs ▸ hd, he (hs ▸ hd)⟩

/-- A state that is not `Disconnected` in the end is of no concern. -/
theorem Quiet.of_disconnecting (hs : c'.state = .disconnecting) : Quiet c c' := by
  intro hd
  rw [hs] at hd
  cases hd

/-- A piece of a step that neither opens nor closes; without `start_read`, it is quiet. -/
structure Piece (reads onLoop : Bool) (c c' : State) : Prop where
  frame : Frame (Posts reads) (Moves onLoop) c c'
  quiet : reads = false → Quiet c c'

/-- A piece on the loop that leaves the channel of a closed connection alone. -/
theorem Piece.ofLoop (h : Frame Queues Eq c c')
    (he : c.state = .disconnected → c.channel.events = 0 → c'.channel.events = 0) :
    Piece reads onLoop c c' :=
  ⟨h.ofLoop, fun _ => .of_state h.state.symm he⟩

theorem piece_sendInLoop {t : Tid} {message : List Byte} {write : WriteResult}
    (h : c.sendInLoop t message write = some c') : Piece reads onLoop c c' := by
  refine .ofLoop (frame_sendInLoop h) fun hd he => ?_
  simp only [State.sendInLoop, hd, if_true] at h
  split at h
  · cases h
    exact he
  · cases h

theorem piece_shutdownInLoop (c : State) : Piece reads onLoop c c.shutdownInLoop := by
  refine .ofLoop (frame_shutdownInLoop c) fun _ he => ?_
  unfold State.shutdownInLoop
  split <;> exact he

theorem piece_handleWrite {write : WriteResult} (h : c.handleWrite write = some c') :
    Piece reads onLoop c c' := by
  refine .ofLoop (frame_handleWrite h) fun _ he => ?_
  have hw : c.channel.isWriting = false := by
    simp [Channel.isWriting, Events.has, he]
  simp only [State.handleWrite, hw] at h
  cases h
  exact he

theorem piece_stopReadInLoop (c : State) : Piece reads onLoop c c.stopReadInLoop := by
  refine .ofLoop (frame_stopReadInLoop c) fun _ he => ?_
  unfold State.stopReadInLoop
  split
  · simp [Channel.disableReading, he]
  · exact he

theorem piece_startReadInLoop (c : State) : Piece true onLoop c c.startReadInLoop :=
  ⟨(frame_startReadInLoop c).ofLoop, fun hr => by cases hr⟩

theorem piece_setInput (c : State) (b : Buffer) :
    Piece reads onLoop c { c with inputBuffer := b } :=
  .ofLoop (frame_setInput c b) fun _ he => he

theorem piece_forceClose (c : State) : Piece reads onLoop c c.forceClose := by
  refine ⟨frame_forceClose c, fun _ => ?_⟩
  unfold State.forceClose
  split
  · exact .of_disconnecting rfl
  · exact .of_state rfl fun _ he => he

/-- The channel is not touched by another thread, which only tests, stores and queues. -/
theorem threadStep_channel {t : Tid} {step : State.ThreadStep}
    (h : c.threadStep t step = some c') : c'.channel = c.channel := by
  cases (threadStep_inv h).2 <;> rfl

/-- A step of another thread leaves a state that is down, or makes it `Disconnecting`. -/
theorem piece_threadStep {t : Tid} {step : State.ThreadStep}
    (h : c.threadStep t step = some c') : Piece (step == .startRead) false c c' := by
  refine ⟨frame_threadStep h, fun _ => ?_⟩
  rcases (frame_threadStep h).state with hs | ⟨hs, -⟩
  · exact .of_state hs fun _ he => by rw [threadStep_channel h, he]
  · exact .of_disconnecting hs

theorem piece_act {a : State.Act} (h : c.act a = some c') : Piece a.startsRead a.onLoop c c' := by
  cases a with
  | send message write =>
    refine ⟨frame_act h, fun _ => ?_⟩
    simp only [State.act] at h
    split at h
    · rename_i hs
      have hs' := (frame_sendInLoop h).state
      refine .of_state hs'.symm fun hd => ?_
      rw [hs] at hd
      cases hd
    · cases h
      exact .of_state rfl fun _ he => he
  | shutdown =>
    refine ⟨frame_act h, fun _ => ?_⟩
    cases h
    split
    · exact .of_disconnecting (frame_shutdownInLoop _).state.symm
    · exact .of_state rfl fun _ he => he
  | forceClose =>
    cases h
    exact piece_forceClose c
  | forceCloseWithDelay =>
    refine ⟨frame_act h, fun _ => ?_⟩
    cases h
    split
    · exact .of_disconnecting rfl
    · exact .of_state rfl fun _ he => he
  | startRead =>
    cases h
    exact piece_startReadInLoop c
  | stopRead =>
    cases h
    exact piece_stopReadInLoop c
  | retrieveInput len =>
    cases h
    exact piece_setInput c _
  | thread t step =>
    refine ⟨frame_act h, fun hr => (piece_threadStep h).quiet ?_⟩
    cases step <;> first | rfl | cases hr

/-- **The life of a connection.**  Until `connect_established` has run it is first in the queue
and the poller does not know the channel; afterwards it is not queued again.  A connection that
is down has told the user, and where nobody calls `start_read` it has no interest left. -/
structure Life (reads : Bool) (c : State) : Prop where
  connecting : c.state = .connecting → c.channel.inChannels = false ∧
    ∃ rest, c.pendingFunctors = .connectEstablished :: rest ∧ .connectEstablished ∉ rest
  started : c.state ≠ .connecting → .connectEstablished ∉ c.pendingFunctors
  registered : c.channel.Registered
  down : c.state = .disconnected → 1 ≤ c.downs
  noReads : reads = false → .startReadInLoop ∉ c.pendingFunctors
  quiet : reads = false → c.state = .disconnected → c.channel.events = 0

theorem life_init (loopThread : Tid) (client : Bool) (mark : Nat) (wc hw : Bool) :
    Life reads (.init loopThread client mark wc hw) := by
  constructor <;> simp [State.init, Channel.new, Channel.Registered]

/-- The kernel reports nothing before `connect_established`. -/
theorem Life.not_connecting_of_reports {revents : Events} (h : Life reads c)
    (hr : c.channel.reports revents = true) : c.state ≠ .connecting := by
  intro hs
  obtain ⟨hin, -⟩ := h.connecting hs
  have hint : c.channel.interest = none := by
    have hreg := h.registered
    rw [Channel.Registered, hin] at hreg
    simpa using hreg.symm
  simp [Channel.reports, hint] at hr

theorem Life.piece {r o : Bool} (h : Life reads c) (hs : c.state ≠ .connecting)
    (hr : r = true → reads = true) (hp : Piece r o c c') :
    Life reads c' ∧ c'.state ≠ .connecting := by
  obtain ⟨fs, hfs, hposts⟩ := hp.frame.functors
  have hs' : c'.state ≠ .connecting := by
    rcases hp.frame.state with hh | ⟨hh, -⟩
    · rwa [hh]
    · simp [hh]
  have hr' : reads = false → r = false := by
    intro hreads
    by_contra hh
    rw [hr (by simpa using hh)] at hreads
    cases hreads
  refine ⟨⟨fun hh => absurd hh hs', fun _ => ?_, hp.frame.registered h.registered, fun hd => ?_,
    fun hreads => ?_, fun hreads hd => ?_⟩, hs'⟩
  · rw [hfs, List.mem_append, not_or]
    exact ⟨h.started hs, fun hf => (hposts _ hf).1 rfl⟩
  · rw [hp.frame.downs]
    rcases hp.frame.state with hh | ⟨hh, -⟩
    · exact h.down (hh ▸ hd)
    · rw [hh] at hd
      cases hd
  · rw [hfs, List.mem_append, not_or]
    refine ⟨h.noReads hreads, fun hf => ?_⟩
    have hread := (hposts _ hf).2.2 rfl
    rw [hr' hreads] at hread
    cases hread
  · obtain ⟨hd', he⟩ := hp.quiet (hr' hreads) hd
    exact he (h.quiet hreads hd')

/-- `set_state(Disconnected); _channel->disable_all();` and the callback that follows.  This is
where the user is told, in `handle_close` and in `connect_destroyed` alike. -/
theorem Life.goesDown (h : Life reads c) (hs : c.state ≠ .connecting) (fl : List Assertion)
    (n : Nat) :
    Life reads { c.setState .disconnected with
      channel := c.channel.disableAll, failed := fl, closes := n, downs := c.downs + 1 } := by
  refine ⟨fun hh => by simp [State.setState] at hh, fun _ => h.started hs,
    Channel.registered_update h.registered _, fun _ => Nat.le_add_left 1 c.downs, h.noReads,
    fun _ _ => ?_⟩
  simp [Channel.disableAll, Channel.noneEvent]

/-- A functor is queued that is neither `connect_established` nor `start_read_in_loop`, or a count changes. -/
theorem Life.queue (h : Life reads c) {f : Functor} (hf : f ≠ .connectEstablished)
    (hr : f ≠ .startReadInLoop) : Life reads (c.queueInLoop f) := by
  refine ⟨fun hs => ?_, fun hs => ?_, h.registered, h.down, fun hreads => ?_, h.quiet⟩
  · obtain ⟨hin, rest, hp, hno⟩ := h.connecting hs
    exact ⟨hin, rest ++ [f], by simp [State.queueInLoop, hp], by simpa using ⟨hno, hf.symm⟩⟩
  · simpa [State.queueInLoop] using ⟨h.started hs, hf.symm⟩
  · simpa [State.queueInLoop] using ⟨h.noReads hreads, hr.symm⟩

theorem Life.setCounts (h : Life reads c) (delayed removals closeCallbacks : Nat) :
    Life reads { c with
      delayed := delayed, removals := removals, closeCallbacks := closeCallbacks } :=
  ⟨h.connecting, h.started, h.registered, h.down, h.noReads, h.quiet⟩

/-- A channel is taken off the poller.  Its mask stays what it was. -/
theorem Life.remove (h : Life reads c) (hs : c.state ≠ .connecting) :
    Life reads { c with channel := c.channel.remove } := by
  refine ⟨fun hh => absurd hh hs, h.started, Channel.registered_remove h.registered, h.down,
    h.noReads, fun hreads hd => ?_⟩
  simpa using h.quiet hreads hd

/-- `handle_close` up to its callback: the state is stored and the mask is empty, and the user
has not heard of it yet. -/
theorem Life.closing (h : Life reads c) (hs : c.state ≠ .connecting) : Life reads c.closing := h.goesDown hs _ _

/-- `connect_destroyed` up to its callback.  It does what `handle_close` would have done, and the
channel is still there. -/
theorem Life.destroying (h : Life reads c) (hs : c.state ≠ .connecting) : Life reads c.destroying :=
  h.goesDown hs _ _

/-- The end of `handle_close`: the removal is on its way to the server or client. -/
theorem Life.closed (h : Life reads c) : Life reads c.closed := by
  have h₁ := h.setCounts c.delayed c.removals (c.closeCallbacks + 1)
  simp only [State.closed]
  split
  · exact h₁.queue (by simp) (by simp)
  · exact h.setCounts c.delayed (c.removals + 1) (c.closeCallbacks + 1)

@[simp] theorem state_closed (c : State) : c.closed.state = c.state := by
  unfold State.closed
  dsimp only
  split <;> rfl

/-- `connect_established` up to its callback; it was first in the queue. -/
theorem Life.established {rest : List Functor} (h : Life reads c) (hs : c.state = .connecting)
    (hp : c.pendingFunctors = .connectEstablished :: rest) :
    Life reads { c with pendingFunctors := rest }.established := by
  obtain ⟨-, rest', hp', hno⟩ := h.connecting hs
  rw [hp] at hp'
  cases hp'
  refine ⟨by simp [State.established, State.setState], fun _ => hno, Channel.registered_update h.registered _,
    by simp [State.established, State.setState], fun hreads hmem => ?_, by simp [State.established, State.setState]⟩
  exact h.noReads hreads (by rw [hp]; exact List.mem_cons_of_mem _ hmem)

/-- A functor leaves the queue.  What it was bound to is in the hands of the loop. -/
theorem Life.pop {f : Functor} {rest : List Functor} (h : Life reads c)
    (hs : c.state ≠ .connecting) (hp : c.pendingFunctors = f :: rest) :
    Life reads { c with pendingFunctors := rest } ∧ f ≠ .connectEstablished ∧
      (f = .startReadInLoop → reads = true) := by
  have hno := h.started hs
  rw [hp, List.mem_cons, not_or] at hno
  refine ⟨⟨fun hh => absurd hh hs, fun _ => hno.2, h.registered, h.down, fun hreads hmem => ?_,
    h.quiet⟩, fun hf => hno.1 hf.symm, fun hf => ?_⟩
  · exact h.noReads hreads (by rw [hp]; exact List.mem_cons_of_mem f hmem)
  · by_contra hreads
    exact h.noReads (by simpa using hreads) (by rw [hp, hf]; exact List.mem_cons_self)

/-! ## 2. The life, callback by callback -/

/-- The step calls `start_read`. -/
def Nested.Label.startsRead : Nested.Label → Bool
  | .act a => a.startsRead
  | .poll _ | .dispatch | .callback _ _ | .returns | .destroyServer | .runFunctor _ | .delayFires
  | .removeConnectionInLoop | .serverQueuesDestroy => false

/-- **What holds of a connection and of the loop's stack.**  Before `connect_established` nothing
of the connection is under way; and `handle_event` is at the bottom of the stack, since the loop
is not run again from inside a callback. -/
structure Nested.Kept (reads : Bool) (s : Nested) : Prop where
  life : Life reads s.conn
  before : s.conn.state = .connecting → s.stack = [] ∧ s.polled = none ∧ s.destroyed = false
  bottom : ∀ above todo below, s.stack = above ++ .event todo :: below → below = []

variable {s s' : Nested}

theorem kept_nested (loopThread : Tid) (client : Bool) (mark : Nat) (wc hw : Bool) :
    Nested.Kept reads (.init loopThread client mark wc hw) where
  life := life_init loopThread client mark wc hw
  before := fun _ => ⟨rfl, rfl, rfl⟩
  bottom := fun above todo below h => by
    have hlen := congrArg List.length h
    simp [Nested.init] at hlen

namespace Nested

/-- Something of the connection is under way, so it is past `connect_established`. -/
theorem Kept.started (h : Kept reads s) (hs : s.stack ≠ []) : s.conn.state ≠ .connecting :=
  fun hc => hs (h.before hc).1

/-- What is pushed on the stack is not an event, or is the first thing on it. -/
theorem Kept.push (h : Kept reads s) {f : Activation} (hf : s.stack ≠ [] → ∀ todo, f ≠ .event todo) :
    ∀ above todo below, f :: s.stack = above ++ .event todo :: below → below = [] := by
  intro above todo below heq
  cases above with
  | nil =>
    obtain ⟨rfl, rfl⟩ := List.cons.inj heq
    by_contra hne
    exact hf hne todo rfl
  | cons g above => exact h.bottom above todo below (List.cons.inj heq).2

/-- The innermost activation is gone, and what was under it goes on. -/
theorem Kept.pop (h : Kept reads s) {f : Activation} {rest : List Activation} (hs : s.stack = f :: rest) :
    ∀ above todo below, rest = above ++ .event todo :: below → below = [] := by
  intro above todo below heq
  exact h.bottom (f :: above) todo below (by rw [hs, heq]; rfl)

/-- `handle_event` has made a callback, and goes on with the others when it returns. -/
theorem Kept.next (h : Kept reads s) {cb : Channel.Callback} {todo : List Channel.Callback} {below : List Activation}
    (hs : s.stack = .event (cb :: todo) :: below) : Kept reads { s with stack := .event todo :: below } := by
  have hbelow : below = [] := h.bottom [] _ below hs
  refine ⟨h.life, fun hc => absurd hc (h.started (by rw [hs]; simp)), fun above todo' below' heq => ?_⟩
  subst hbelow
  cases above with
  | nil => exact (List.cons.inj heq).2.symm
  | cons g above =>
    have hlen := congrArg List.length (List.cons.inj heq).2
    simp at hlen

/-- The connection has changed, and is past `connect_established`. -/
theorem Kept.setConn (h : Kept reads s) {c : State} (hc : Life reads c) (hs : c.state ≠ .connecting) :
    Kept reads (s.setConn c) := ⟨hc, fun hh => absurd hh hs, h.bottom⟩

theorem Kept.piece {r o : Bool} (h : Kept reads s) {c : State} (hs : s.conn.state ≠ .connecting)
    (hr : r = true → reads = true) (hp : Piece r o s.conn c) : Kept reads (s.setConn c) := by
  obtain ⟨hlife, hs'⟩ := h.life.piece hs hr hp
  exact h.setConn hlife hs'

theorem Kept.callback (h : Kept reads s) (hs : s.conn.state ≠ .connecting) :
    Kept reads { s with stack := .callback :: s.stack } :=
  ⟨h.life, fun hc => absurd hc hs, h.push (by simp)⟩

theorem Kept.handleClose (h : Kept reads s) (hs : s.conn.state ≠ .connecting) : Kept reads s.handleClose :=
  ⟨h.life.closing hs, fun hc => by simp [Nested.handleClose, State.closing, State.setState] at hc,
    h.push (by simp)⟩

theorem Kept.connectDestroyed (h : Kept reads s) (hs : s.conn.state ≠ .connecting) :
    Kept reads s.connectDestroyed := by
  unfold Nested.connectDestroyed
  split
  · exact ⟨h.life.destroying hs, fun hc => by simp [State.destroying, State.setState] at hc, h.push (by simp)⟩
  · exact ⟨h.life.remove hs, fun hc => absurd hc hs, h.bottom⟩

/-- A functor other than `connect_established` finds a connection that is established. -/
theorem Kept.runFunctor {f : Functor} {write : WriteResult} (h : Kept reads s) (hs : s.conn.state ≠ .connecting)
    (hf : f ≠ .connectEstablished) (hfr : f = .startReadInLoop → reads = true)
    (hst : s.runFunctor write f = some s') : Kept reads s' := by
  have hno : false = true → reads = true := fun hh => by cases hh
  cases f with
  | connectEstablished => exact absurd rfl hf
  | connectDestroyed =>
    cases hst
    exact h.connectDestroyed hs
  | sendInLoop t message =>
    obtain ⟨c, hc, rfl⟩ := Option.map_eq_some_iff.mp hst
    have hpiece : Piece false true s.conn c := piece_sendInLoop hc
    exact h.piece hs hno hpiece
  | shutdownInLoop =>
    cases hst
    have hpiece : Piece false true s.conn s.conn.shutdownInLoop := piece_shutdownInLoop s.conn
    exact h.piece hs hno hpiece
  | forceCloseInLoop =>
    cases hst
    split
    · exact h.handleClose hs
    · exact h
  | startReadInLoop =>
    cases hst
    have hpiece : Piece true true s.conn s.conn.startReadInLoop := piece_startReadInLoop s.conn
    exact h.piece hs (fun _ => hfr rfl) hpiece
  | stopReadInLoop =>
    cases hst
    have hpiece : Piece false true s.conn s.conn.stopReadInLoop := piece_stopReadInLoop s.conn
    exact h.piece hs hno hpiece
  | writeCompleteCallback | highWaterMarkCallback =>
    cases hst
    exact h.callback hs

/-- `connect_established` comes first in the queue, and it is not queued again. -/
theorem Kept.first_functor {f : Functor} {rest : List Functor} (h : Kept reads s)
    (hq : s.conn.pendingFunctors = f :: rest) : f = .connectEstablished ↔ s.conn.state = .connecting := by
  constructor
  · rintro rfl
    by_contra hc
    exact h.life.started hc (by rw [hq]; exact List.mem_cons_self)
  · intro hc
    obtain ⟨-, rest', hq', -⟩ := h.life.connecting hc
    rw [hq] at hq'
    exact (List.cons.inj hq').1

/-- **One step of a life** leaves a life, with the stack in order.  The cases are those of the
step, and each function of the connection has its lemma above. -/
theorem Kept.step {l : Label} (h : Kept reads s) (hr : l.startsRead = true → reads = true)
    (hst : s.step l = some s') : Kept reads s' := by
  have hno : false = true → reads = true := fun hh => by cases hh
  have hinput (c : State) (b : Buffer) : Piece false true c { c with inputBuffer := b } := piece_setInput c b
  cases nested_inv hst with
  | poll hs hrep => exact ⟨h.life, fun hc => absurd hc (h.life.not_connecting_of_reports hrep), h.bottom⟩
  | @dispatch revents hs hp =>
    have hup : s.conn.state ≠ .connecting := by
      intro hc
      rw [(h.before hc).2.1] at hp
      cases hp
    refine ⟨h.life, fun hc => absurd hc hup, ?_⟩
    have hpush := h.push (f := .event (Channel.handleEvent revents)) (fun hne => absurd hs hne)
    rwa [hs] at hpush
  | close hs => exact (h.next hs).handleClose (h.started (by rw [hs]; simp))
  | error hs => exact h.next hs
  | @readData readv write todo below b hs hne =>
    have hup := h.started (by rw [hs]; simp)
    exact ((h.next hs).piece hup hno (hinput s.conn b)).callback hup
  | @readNothing readv write todo below b hs hne =>
    exact (h.next hs).piece (h.started (by rw [hs]; simp)) hno (hinput s.conn b)
  | @readEnd write todo below b hs =>
    have hup := h.started (by rw [hs]; simp)
    exact ((h.next hs).piece hup hno (hinput s.conn b)).handleClose hup
  | @write readv write todo below c hs hc =>
    have hpiece : Piece false true s.conn c := piece_handleWrite hc
    exact (h.next hs).piece (h.started (by rw [hs]; simp)) hno hpiece
  | @act a c hm hc =>
    have hup : s.conn.state ≠ .connecting := fun hcon => hm.2 (h.before hcon).1 hcon
    exact h.piece hup hr (piece_act hc)
  | eventReturns hs | callbackReturns hs =>
    exact ⟨h.life, fun hc => absurd hc (h.started (by rw [hs]; simp)), h.pop hs⟩
  | closingReturns hs =>
    refine ⟨h.life.closed, fun hc => ?_, h.pop hs⟩
    rw [state_closed] at hc
    exact absurd hc (h.started (by rw [hs]; simp))
  | destroyingReturns hs =>
    have hup := h.started (by rw [hs]; simp)
    exact ⟨h.life.remove hup, fun hc => absurd hc hup, h.pop hs⟩
  | destroyServer hu hs => exact h.connectDestroyed hs
  | @runFunctor write f rest _ hs hp hq hf =>
    by_cases hc : s.conn.state = .connecting
    · obtain rfl := (h.first_functor hq).mpr hc
      cases hf
      exact ⟨h.life.established hc hq, fun hh => by simp [State.established, State.setState] at hh,
        h.push (by simp)⟩
    · obtain ⟨hpop, hne, hfr⟩ := h.life.pop hc hq
      exact (h.setConn hpop hc).runFunctor hc hne hfr hf
  | @delayFires n hs hn =>
    have h₁ := h.life.setCounts n s.conn.removals s.conn.closeCallbacks
    by_cases hc : s.conn.state = .connecting
    · have hnot : ({ s.conn with delayed := n } : State).open? = false := by simp [State.open?, hc]
      rw [State.forceClose, hnot]
      exact ⟨h₁, h.before, h.bottom⟩
    · have hpiece : Piece false true { s.conn with delayed := n } _ := piece_forceClose _
      exact (h.setConn h₁ hc).piece hc hno hpiece
  | @removeConnectionInLoop n hn =>
    exact ⟨(h.life.setCounts s.conn.delayed n s.conn.closeCallbacks).queue (by simp) (by simp), h.before, h.bottom⟩
  | serverQueuesDestroy => exact ⟨h.life.queue (by simp) (by simp), h.before, h.bottom⟩

end Nested

/-! ## 3. Destroyed and down -/

/-- Nobody calls `start_read`. -/
def NoStartRead (_ : Nested) (l : Nested.Label) : Prop := l.startsRead = false

instance (s : Nested) (l : Nested.Label) : Decidable (NoStartRead s l) :=
  inferInstanceAs (Decidable (_ = false))

/-- **A life that is complete**: `Disconnected`, no interest, and the user told of the end if he
was told of the beginning. -/
structure State.Complete (c : State) : Prop where
  state : c.state = .disconnected
  channel : c.channel.isDisableAll = true
  told : 1 ≤ c.ups → 1 ≤ c.downs

/-- In another thread, the second half of a `shutdown` or `force_close`: it stores
`Disconnecting`, whatever the state has become. -/
def State.Act.storesDisconnecting (c : State) : State.Act → Bool
  | .thread t .next =>
    match c.call t with
    | .shutdown false | .forceClose _ false => true
    | _ => false
  | _ => false

namespace Nested

/-- `connect_destroyed` does not find the connection `Disconnecting`; and once it has begun, no
other thread stores `Disconnecting`, in its callback or later. -/
def DownInTime (s : Nested) : Label → Prop
  | .destroyServer => s.conn.state ≠ .disconnecting
  | .runFunctor _ => s.conn.pendingFunctors.head? = some .connectDestroyed → s.conn.state ≠ .disconnecting
  | .act a => a.storesDisconnecting s.conn = true → s.destroyed = false ∧ .destroying ∉ s.stack
  | _ => True

instance (s : Nested) : ∀ l, Decidable (s.DownInTime l)
  | .destroyServer => inferInstanceAs (Decidable (s.conn.state ≠ .disconnecting))
  | .runFunctor _ => inferInstanceAs (Decidable (_ → s.conn.state ≠ .disconnecting))
  | .act a => inferInstanceAs (Decidable (a.storesDisconnecting s.conn = true → _ ∧ _))
  | .poll _ | .dispatch | .callback _ _ | .returns | .delayFires | .removeConnectionInLoop
  | .serverQueuesDestroy => .isTrue trivial

/-- **What the destruction is to achieve.**  From the return of `connect_destroyed` on the life
is complete, and with it the assertion of `~TcpConnection` holds, whenever that runs; and while
`connect_destroyed` is in its callback, the connection is `Disconnected` as it has set it. -/
structure Fulfilled (s : Nested) : Prop where
  complete : s.destroyed = true → s.conn.Complete
  goingDown : .destroying ∈ s.stack → s.conn.state = .disconnected

/-- `connect_destroyed` has begun. -/
def Begun (s : Nested) : Prop := s.destroyed = true ∨ .destroying ∈ s.stack

end Nested

/-- A connection that is down has told the user, and without `start_read` it has no interest. -/
theorem Life.complete_iff (h : Life false c) : c.Complete ↔ c.state = .disconnected := by
  refine ⟨State.Complete.state, fun hd => ⟨hd, ?_, fun _ => h.down hd⟩⟩
  have he := h.quiet rfl hd
  simp [Channel.isDisableAll, Channel.noneEvent, he]

namespace Nested

/-- All that is to be achieved is that the state is `Disconnected` once `connect_destroyed` has
begun: the rest of a complete life comes with it. -/
theorem Kept.fulfilled_iff (h : Kept false s) : s.Fulfilled ↔ (s.Begun → s.conn.state = .disconnected) := by
  constructor
  · rintro ⟨hcomplete, hgoing⟩ (hd | hd)
    · exact (hcomplete hd).state
    · exact hgoing hd
  · intro hdown
    exact ⟨fun hd => h.life.complete_iff.mpr (hdown (.inl hd)), fun hd => hdown (.inr hd)⟩

/-- A connection that is not up when `connect_destroyed` begins. -/
theorem connectDestroyed_begun (s : Nested) : s.connectDestroyed.Begun := by
  unfold Nested.connectDestroyed
  split
  · exact .inr List.mem_cons_self
  · exact .inl rfl

/-- `connect_destroyed` leaves a connection `Disconnected` that it finds so, or up. -/
theorem connectDestroyed_state (hs : s.conn.state ≠ .connecting) :
    s.connectDestroyed.conn.state = .disconnected ↔ s.conn.state ≠ .disconnecting := by
  unfold Nested.connectDestroyed
  split
  · rename_i hup
    exact iff_of_true rfl (by rw [hup]; decide)
  · rename_i hup
    change s.conn.state = .disconnected ↔ _
    cases hc : s.conn.state with
    | connecting => exact absurd hc hs
    | connected => exact absurd hc hup
    | disconnected | disconnecting => simp

end Nested

/-- A call on a connection that is down leaves it so, unless it stores `Disconnecting`. -/
theorem act_of_down {a : State.Act} (hd : c.state = .disconnected) (h : c.act a = some c') :
    c'.state = if a.storesDisconnecting c then .disconnecting else .disconnected := by
  by_cases ha : a.onLoop = true
  · have hno : a.storesDisconnecting c = false := by
      cases a <;> first | rfl | cases ha
    rw [hno]
    rcases (frame_act h).state with hs | ⟨-, ho⟩
    · exact hs.trans hd
    · rcases ho ha with ho | ho <;> rw [hd] at ho <;> cases ho
  · cases a with
    | thread t step =>
      cases (threadStep_inv h).2 with
      | send _ hs => rw [hd] at hs; cases hs
      | shutdown _ hs => rw [hd] at hs; cases hs
      | forceClose _ hopen => rw [State.open?, hd] at hopen; cases hopen
      | refused hidle => cases step <;> simp [State.Act.storesDisconnecting, hidle, hd]
      | startRead => exact hd
      | stopRead => exact hd
      | queueSend hc => simp [State.Act.storesDisconnecting, hc, State.setCall, State.queueInLoop, hd]
      | queueShutdown hc =>
        simp [State.Act.storesDisconnecting, hc, State.setCall, State.queueInLoop, hd]
      | queueForceClose hc =>
        simp [State.Act.storesDisconnecting, hc, State.setCall, State.queueInLoop, hd]
      | storeShutdown hc => simp [State.Act.storesDisconnecting, hc, State.setState]
      | storeForceClose hc => simp [State.Act.storesDisconnecting, hc, State.setState]
      | addDelay hc => simp [State.Act.storesDisconnecting, hc, State.setCall, hd]
    | _ => exact absurd rfl ha

/-- A call that stores `Disconnecting` does so whatever the state is. -/
theorem act_stores {a : State.Act} (ha : a.storesDisconnecting c = true) (h : c.act a = some c') :
    c'.state = .disconnecting := by
  cases a with
  | thread t step =>
    cases (threadStep_inv h).2 with
    | storeShutdown | storeForceClose => rfl
    | queueSend hc | queueShutdown hc | queueForceClose hc | addDelay hc =>
      simp [State.Act.storesDisconnecting, hc] at ha
    | refused hidle => cases step <;> simp [State.Act.storesDisconnecting, hidle] at ha
    | send | shutdown | forceClose | startRead | stopRead => cases ha
  | send | shutdown | forceClose | forceCloseWithDelay | startRead | stopRead | retrieveInput => cases ha

namespace Nested

/-- A step that begins no `connect_destroyed`, and that moves the state as the loop thread does,
or to `Disconnected`. -/
structure Keeps (s s' : Nested) : Prop where
  begun : s'.Begun → s.Begun
  state : Moves true s.conn.state s'.conn.state ∨ s'.conn.state = .disconnected

theorem Keeps.same (hb : s'.Begun → s.Begun) (hs : s'.conn.state = s.conn.state) : Keeps s s' := ⟨hb, .inl (.inl hs)⟩

/-- What is down stays down: no step brings a connection up again. -/
theorem Keeps.down (h : Keeps s s') (hs : s.conn.state = .disconnected) : s'.conn.state = .disconnected := by
  rcases h.state with (hsame | ⟨-, hopen⟩) | hdown
  · exact hsame.trans hs
  · rcases hopen rfl with ho | ho <;> rw [hs] at ho <;> cases ho
  · exact hdown

theorem Keeps.iff (h : Keeps s s') (hd : s.Begun → s.conn.state = .disconnected) {P : Prop} (hP : P) :
    (s'.Begun → s'.conn.state = .disconnected) ↔ P :=
  iff_of_true (fun hbegun => h.down (hd (h.begun hbegun))) hP

/-- The step is neither a call, nor a destruction, nor a functor. -/
def Label.plain : Label → Bool
  | .act _ | .destroyServer | .runFunctor _ => false
  | .poll _ | .dispatch | .callback _ _ | .returns | .delayFires | .removeConnectionInLoop
  | .serverQueuesDestroy => true

theorem keeps_step {l : Label} (hl : l.plain = true) (hst : s.step l = some s') : Keeps s s' := by
  cases nested_inv hst with
  | poll | removeConnectionInLoop | serverQueuesDestroy => exact .same id rfl
  | dispatch hs => exact .same (by simp [Begun, hs]) rfl
  | close hs | readEnd hs => exact ⟨by simp [Begun, Nested.handleClose, hs], .inr rfl⟩
  | error hs | readData hs | readNothing hs => exact .same (by simp [Begun, hs]) rfl
  | write hs hc => exact .same (by simp [Begun, hs]) (frame_handleWrite hc).state.symm
  | eventReturns hs | callbackReturns hs | destroyingReturns hs => exact .same (by simp [Begun, hs]) rfl
  | closingReturns hs => exact .same (by simp [Begun, hs]) (state_closed s.conn)
  | @delayFires n hs hn =>
    have hforce : Frame (Posts false) (Moves true) { s.conn with delayed := n } _ := frame_forceClose _
    exact ⟨id, .inl hforce.state⟩
  | act | destroyServer | runFunctor => cases hl

/-- A call stores `Disconnecting` or leaves the state down. -/
theorem down_act {a : State.Act} {c : State} (hd : s.Begun → s.conn.state = .disconnected)
    (hc : s.conn.act a = some c) :
    ((s.setConn c).Begun → c.state = .disconnected) ↔ s.DownInTime (.act a) := by
  by_cases ha : a.storesDisconnecting s.conn = true
  · have hstores : c.state = .disconnecting := act_stores ha hc
    have hbegun : (s.setConn c).Begun ↔ s.Begun := Iff.rfl
    have htime : s.DownInTime (.act a) ↔ ¬ s.Begun := by
      simp only [DownInTime, ha, true_implies, Begun, not_or, Bool.not_eq_true]
    rw [hstores, hbegun, htime]
    simp
  · refine iff_of_true (fun hbegun => ?_) (fun hh => absurd hh ha)
    have hstate := act_of_down (hd hbegun) hc
    rwa [if_neg ha] at hstate

/-- A functor other than `connect_destroyed`: on the empty stack it begins no destruction. -/
theorem keeps_runFunctor {f : Functor} {write : WriteResult} (hs : s.stack = []) (hf : f ≠ .connectDestroyed)
    (hne : f ≠ .connectEstablished) (hst : s.runFunctor write f = some s') : Keeps s s' := by
  cases f with
  | connectEstablished => exact absurd rfl hne
  | connectDestroyed => exact absurd rfl hf
  | sendInLoop t message =>
    obtain ⟨c, hc, rfl⟩ := Option.map_eq_some_iff.mp hst
    exact .same id (frame_sendInLoop hc).state.symm
  | shutdownInLoop =>
    cases hst
    exact .same id (frame_shutdownInLoop s.conn).state.symm
  | forceCloseInLoop =>
    cases hst
    split
    · exact ⟨by simp [Begun, Nested.handleClose, hs], .inr rfl⟩
    · exact .same id rfl
  | startReadInLoop =>
    cases hst
    exact .same id (frame_startReadInLoop s.conn).state.symm
  | stopReadInLoop =>
    cases hst
    exact .same id (frame_stopReadInLoop s.conn).state.symm
  | writeCompleteCallback | highWaterMarkCallback =>
    cases hst
    exact .same (by simp [Begun, hs]) rfl

/-- The first functor of the queue, whichever it is. -/
theorem Kept.down_runFunctor {f : Functor} {rest : List Functor} {write : WriteResult} (h : Kept false s)
    (hd : s.Begun → s.conn.state = .disconnected) (hs : s.stack = []) (hq : s.conn.pendingFunctors = f :: rest)
    (hf : (s.setConn { s.conn with pendingFunctors := rest }).runFunctor write f = some s') :
    (s'.Begun → s'.conn.state = .disconnected) ↔ s.DownInTime (.runFunctor write) := by
  have htime : s.DownInTime (.runFunctor write) ↔ (f = .connectDestroyed → s.conn.state ≠ .disconnecting) := by
    simp only [DownInTime, hq, List.head?_cons, Option.some.injEq]
  rw [htime]
  by_cases hfd : f = .connectDestroyed
  · subst hfd
    have hup : s.conn.state ≠ .connecting := by
      rw [ne_eq, ← h.first_functor hq]
      simp
    cases hf
    have hbegun := connectDestroyed_begun (s.setConn { s.conn with pendingFunctors := rest })
    have hstate := connectDestroyed_state (s := s.setConn { s.conn with pendingFunctors := rest }) hup
    simp only [hbegun, true_implies, hstate]
    rfl
  · by_cases hfe : f = .connectEstablished
    · have hnot : ¬ s.Begun := by simp [Begun, h.before ((h.first_functor hq).mp hfe)]
      subst hfe
      cases hf
      refine iff_of_true (fun hb => absurd ?_ hnot) (fun hh => absurd hh hfd)
      simpa [Begun, hs, Nested.setConn] using hb
    · have hkeeps : Keeps (s.setConn { s.conn with pendingFunctors := rest }) s' :=
        keeps_runFunctor hs hfd hfe hf
      exact hkeeps.iff hd fun hh => absurd hh hfd

/-- **One step**: with `Disconnected` from the beginning of `connect_destroyed` to this step, it
is so after the step exactly if the step is in time. -/
theorem Kept.down_step {l : Label} (h : Kept false s) (hd : s.Begun → s.conn.state = .disconnected)
    (hst : s.step l = some s') : (s'.Begun → s'.conn.state = .disconnected) ↔ s.DownInTime l := by
  cases l with
  | act a =>
    cases nested_inv hst with
    | act hm hc => exact down_act hd hc
  | destroyServer =>
    cases nested_inv hst with
    | destroyServer hu hs =>
      have hbegun := connectDestroyed_begun s
      have hstate := connectDestroyed_state hs
      simp only [hbegun, true_implies, DownInTime, hstate]
  | runFunctor write =>
    cases nested_inv hst with
    | runFunctor hs hp hq hf => exact h.down_runFunctor hd hs hq hf
  | poll | dispatch | callback | returns | delayFires | removeConnectionInLoop | serverQueuesDestroy =>
    exact (keeps_step rfl hst).iff hd trivial

/-- **A store inside the callback is final.**  Once the state is `Disconnecting` while
`connect_destroyed` is in its callback, it is `Disconnecting` when `connect_destroyed` returns.
What would repair it is `handle_close`, and that runs from `handle_event` or as a functor:
neither is on the loop's stack above the callback. -/
theorem Kept.stays_disconnecting {l : Label} (h : Kept reads s) (hd : .destroying ∈ s.stack)
    (hs : s.conn.state = .disconnecting) (hst : s.step l = some s') :
    s'.conn.state = .disconnecting ∧ (.destroying ∈ s'.stack ∨ s'.destroyed = true) := by
  have hne : s.stack ≠ [] := List.ne_nil_of_mem hd
  -- `handle_event` would be innermost, with nothing below it
  have hevent {cb : Channel.Callback} {todo : List Channel.Callback} {below : List Activation}
      (hstack : s.stack = .event (cb :: todo) :: below) : False := by
    have hbelow : below = [] := h.bottom [] _ below hstack
    rw [hstack, hbelow] at hd
    simp at hd
  cases nested_inv hst with
  | poll hstack | dispatch hstack | runFunctor hstack | delayFires hstack => exact absurd hstack hne
  | close hstack | error hstack | readData hstack | readNothing hstack | readEnd hstack | write hstack =>
    exact (hevent hstack).elim
  | act hm hc =>
    have hstate := (frame_act hc).state
    refine ⟨?_, .inl hd⟩
    rcases hstate with hkept | ⟨hstored, -⟩
    · exact hkept.trans hs
    · exact hstored
  | eventReturns hstack | callbackReturns hstack =>
    rw [hstack] at hd
    exact ⟨hs, .inl (by simpa using hd)⟩
  | closingReturns hstack =>
    rw [hstack] at hd
    exact ⟨(state_closed s.conn).trans hs, .inl (by simpa using hd)⟩
  | destroyingReturns hstack => exact ⟨hs, .inr rfl⟩
  | destroyServer =>
    have hnot : s.conn.state ≠ .connected := by simp [hs]
    rw [Nested.connectDestroyed, if_neg hnot]
    exact ⟨hs, .inr rfl⟩
  | removeConnectionInLoop | serverQueuesDestroy => exact ⟨hs, .inl hd⟩

end Nested

/-! ## 4. The results -/

/-- **Destruction completes the life exactly if it comes in time.**  Take any run of a connection
in which nobody calls `start_read`, every `connect_destroyed` finds the connection `Disconnected`
or still up, and no other thread stores `Disconnecting` once `connect_destroyed` has begun.  From
the return of `connect_destroyed` on the life is complete, in every state of the run, so
`~TcpConnection` may run in any of them and its assertion holds.  And the first step that is not
in time breaks it: `connect_destroyed` leaves `Disconnecting`, or another thread stores it, and
where it stores inside the callback of `connect_destroyed` nothing repairs that
(`Kept.stays_disconnecting`).  That the channel has no interest and that the user was told need
no condition of their own: both come with `Disconnected`, in every state of a life
(`Life.complete_iff`). -/
theorem destroyed_complete (loopThread : Tid) (client : Bool) (highWaterMark : Nat)
    (hasWriteComplete hasHighWaterMark : Bool) (s : Nested)
    (h : Reach Nested.step (fun s l => NoStartRead s l ∧ s.DownInTime l)
      (.init loopThread client highWaterMark hasWriteComplete hasHighWaterMark) s) :
    s.Fulfilled ∧ ∀ l s', NoStartRead s l → s.step l = some s' → (s'.Fulfilled ↔ s.DownInTime l) := by
  have hreads {s : Nested} {l : Nested.Label} (hl : NoStartRead s l) : l.startsRead = true → false = true := by
    intro hh
    rw [show l.startsRead = false from hl] at hh
    cases hh
  have hinit : Nested.Kept false (.init loopThread client highWaterMark hasWriteComplete hasHighWaterMark) :=
    kept_nested loopThread client highWaterMark hasWriteComplete hasHighWaterMark
  have hboth : Nested.Kept false s ∧ s.Fulfilled := by
    have hstart : (Nested.init loopThread client highWaterMark hasWriteComplete hasHighWaterMark).Fulfilled :=
      hinit.fulfilled_iff.mpr (by rintro (hb | hb) <;> cases hb)
    refine h.invariant (I := fun s => Nested.Kept false s ∧ s.Fulfilled) ⟨hinit, hstart⟩ fun s l s' hi hg hst => ?_
    have hkept := hi.1.step (hreads hg.1) hst
    exact ⟨hkept, hkept.fulfilled_iff.mpr ((hi.1.down_step (hi.1.fulfilled_iff.mp hi.2) hst).mpr hg.2)⟩
  refine ⟨hboth.2, fun l s' hl hst => ?_⟩
  rw [(hboth.1.step (hreads hl) hst).fulfilled_iff]
  exact hboth.1.down_step (hboth.1.fulfilled_iff.mp hboth.2) hst

/-- The message callback destroys the server, in the middle of an event: `connect_destroyed` runs
inside it, and the user is told while the callback is still under way. -/
def destroyedInCallback : List Nested.Label :=
  [.runFunctor (.wrote 0), .act (.send [104, 105] (.wrote 2)), .returns, .poll Events.pollIn, .dispatch,
    .callback (.ok [33]) (.wrote 0), .destroyServer, .act .forceClose, .returns, .returns, .returns]

theorem destroyed_complete_destroyedInCallback :
    ∃ s, Reach Nested.step (fun s l => NoStartRead s l ∧ s.DownInTime l) (.init 1 false 64 true true) s ∧
      s.destroyed = true ∧ s.conn.Complete := by
  have hrun : ∃ s, Reach Nested.step (fun s l => NoStartRead s l ∧ s.DownInTime l) (.init 1 false 64 true true) s ∧
      s.destroyed = true :=
    Reach.exists_of_exec destroyedInCallback _ (by decide +kernel) (by decide +kernel)
  obtain ⟨s, h, hd⟩ := hrun
  exact ⟨s, h, hd, (destroyed_complete 1 false 64 true true s h).1.complete hd⟩

/-- **Half-closed, and the server goes away.**  After `shutdown` the connection waits for the peer's end;
`~TcpServer` runs `connect_destroyed`, and it stays `Disconnecting`, reading, and its user is never told. -/
theorem halfClosed_not_complete :
    ∃ s, Reach Nested.step NoStartRead (.init 1 false 64 true true) s ∧ s.destroyed = true ∧
      s.conn.state = .disconnecting ∧ s.conn.channel.isDisableAll = false ∧ s.conn.ups = 1 ∧ s.conn.downs = 0 :=
  Reach.exists_of_exec [.runFunctor (.wrote 0), .returns, .act .shutdown, .destroyServer] _ (by decide +kernel)
    (by decide +kernel)

/-- **The store that comes too late.**  Thread 2 calls `shutdown` and finds the connection up;
before it stores, the peer closes and `connect_destroyed` completes the life.  Then it stores,
and `~TcpConnection` finds `Disconnecting`. -/
theorem lateStore_not_complete :
    ∃ s, Reach Nested.step NoStartRead (.init 1 false 64 true true) s ∧ s.destroyed = true ∧ s.conn.Complete ∧
      ∃ s', s.step (.act (.thread 2 .next)) = some s' ∧ s'.conn.state = .disconnecting := by
  have hrun : ∃ s, Reach Nested.step NoStartRead (.init 1 false 64 true true) s ∧ (s.destroyed = true ∧
      (s.conn.state = .disconnected ∧ s.conn.channel.isDisableAll = true ∧ s.conn.downs = 1) ∧
      (s.step (.act (.thread 2 .next))).any (fun s' => s'.conn.state == .disconnecting) = true) :=
    Reach.exists_of_exec [.runFunctor (.wrote 0), .returns, .act (.thread 2 .shutdown), .poll Events.pollHup, .dispatch,
      .callback (.ok []) (.wrote 0), .returns, .returns, .removeConnectionInLoop, .runFunctor (.wrote 0)] _
      (by decide +kernel) (by decide +kernel)
  obtain ⟨s, h, hd, ⟨hs, hch, hdowns⟩, hany⟩ := hrun
  refine ⟨s, h, hd, ⟨hs, hch, fun _ => hdowns.ge⟩, ?_⟩
  cases hst : s.step (.act (.thread 2 .next)) with
  | none => simp [hst] at hany
  | some s' =>
    rw [hst, Option.any_some, beq_iff_eq] at hany
    exact ⟨s', rfl, hany⟩

end Suduo.TcpConnection
