/-
# What a `TcpClient` keeps to

The results about runs that are at rest (`Suduo.Net.TcpClientSteps`): the client's connector makes a run
that is at rest itself, so none of its assertions fails and no socket is lost; there is one connection
at a time, made of one socket each, closed once and destroyed once; with `enable_retry` the client is
never idle as long as a connection is wanted; and after the destructor nothing calls the client, or a
connector that is gone.
-/
import Suduo.Net.TcpClientSteps

namespace Suduo.TcpClient

open Lib
open Connector (Sock Errno)
open TcpConnection (ConnState)

variable {s s' : State} {c : Nat} {k : Connector.State}

/-! ## 1. The connector's own run -/

theorem reach_kept {retry : Bool} (h : Reach State.step AtRest (.init retry) s) : Kept s :=
  h.invariant (kept_init retry) fun _ _ _ hk hg hst => (step_kept hk hg hst).1

/-- **The client's calls of the connector are at rest.**  Whatever the user, the network and the
timers do, a client run at rest is, for the connector, a run at rest: each `restart` comes after
the `reset_channel` of the attempt before it.  So none of the connector's assertions fails, and
each socket is in one place.  What is known of connectors (`Suduo.Net.ConnectorSockets`) is then
known of those of a client. -/
theorem connector_at_rest (retry : Bool) (s : State)
    (h : Reach State.step AtRest (.init retry) s) :
    Reach Connector.State.step Connector.AtRest .init s.connector ∧ s.connector.Sound := by
  refine ⟨?_, (reach_kept h).rested.inv.sound⟩
  refine h.project State.connector (kept_init retry) (fun _ _ _ hk hg hst => (step_kept hk hg hst).1)
    fun _ _ _ hk hg hst => ?_
  exact (step_kept hk hg hst).2

/-- The connection comes up, the client is told to close it, and connects again. -/
def reconnects : List Label :=
  [.connect .econnrefused, .poll, .timerFires 0 .einprogress, .takeFunctors, .poll,
    .connectorEvent ⟨Events.pollOut, 0, false⟩, .forceClose 1, .takeFunctors, .runFunctor, .runFunctor,
    .closeCallback .einprogress, .poll]

theorem connector_at_rest_reconnects :
    ∃ s, Reach State.step AtRest (.init true) s ∧ s.connector.created = 3 ∧
      s.connector.closed = [0] ∧ s.connector.handed = [1] ∧
      Reach Connector.State.step Connector.AtRest .init s.connector ∧ s.connector.Sound := by
  have hrun : ∃ s, Reach State.step AtRest (.init true) s ∧ (s.connector.created = 3 ∧
      s.connector.closed = [0] ∧ s.connector.handed = [1]) :=
    Reach.exists_of_exec reconnects _ (by decide +kernel) (by decide +kernel)
  obtain ⟨s, h, hcr, hcl, hhd⟩ := hrun
  exact ⟨s, h, hcr, hcl, hhd, connector_at_rest true s h⟩

/-! ## 2. One connection at a time -/

/-- A connection that is closed has been removed once, and is destroyed once or will be.  Its
functor is in the queue, or has run. -/
def State.Closed (s : State) (c : Nat) : Prop :=
  (s.conns c).state = .disconnected ∧ (s.conns c).removals = 1 ∧
    (s.conns c).destroys + s.queue.count (.connectDestroyed c) = 1

instance (s : State) (c : Nat) : Decidable (s.Closed c) := inferInstanceAs (Decidable (_ ∧ _))

/-- A connection that lives has not been removed, and nothing is about to destroy it. -/
def State.Lives (s : State) (c : Nat) : Prop :=
  (s.conns c).removals = 0 ∧ (s.conns c).destroys = 0 ∧ .connectDestroyed c ∉ s.queue ∧
    (s.alive = true → s.connection = some c)

/-- **One connection at a time.**  In every run at rest no assertion of the client fails; the
sockets that the connector has handed over are those of the connections, in order; each
connection is closed for good, or lives and is the last one.  So two connections never live at
once, and none is forgotten. -/
theorem one_connection (retry : Bool) (s : State) (h : Reach State.step AtRest (.init retry) s) :
    s.failed = [] ∧
      s.connector.handed = (List.range' 1 (s.nextConnId - 1)).map (fun c => (s.conns c).sock) ∧
      ∀ c, s.Made c → s.Closed c ∨ (s.Lives c ∧ c + 1 = s.nextConnId) := by
  have hk := reach_kept h
  refine ⟨hk.failed, hk.linked.handed, fun c hm => ?_⟩
  have hdes := hk.tabled.destroyed c
  by_cases hl : s.Live c
  · rw [hl.2] at hdes
    refine .inr ⟨⟨hl.2, by omega, ?_, fun ha => (hk.tabled.connection c).mpr ⟨ha, hl⟩⟩,
      (hk.linked.live c hl).1⟩
    exact List.count_eq_zero.mp (by omega)
  · obtain ⟨hst, hr⟩ := hk.tabled.down c hm hl
    exact .inl ⟨hst, hr, hdes.trans hr⟩

theorem one_connection_reconnects :
    ∃ s, Reach State.step AtRest (.init true) s ∧ s.nextConnId = 2 ∧ s.Closed 1 ∧
      s.failed = [] ∧
      s.connector.handed = (List.range' 1 (s.nextConnId - 1)).map (fun c => (s.conns c).sock) ∧
      ∀ c, s.Made c → s.Closed c ∨ (s.Lives c ∧ c + 1 = s.nextConnId) := by
  have hrun : ∃ s, Reach State.step AtRest (.init true) s ∧ (s.nextConnId = 2 ∧ s.Closed 1) :=
    Reach.exists_of_exec reconnects _ (by decide +kernel) (by decide +kernel)
  obtain ⟨s, h, hn, hcl⟩ := hrun
  exact ⟨s, h, hn, hcl, one_connection true s h⟩

/-- **A second hang-up.**  The peer closes, and `handle_close` restarts the connector.  The
closed connection is still registered, with an empty mask, so a hang-up is reported for it in the
next round, before its `connect_destroyed`: `handle_close` runs again, its assertion fails and so
does that of `remove_connection`, and the connector is restarted in the middle of an attempt. -/
def secondHangUp : List Label :=
  [.connect .einprogress, .poll, .connectorEvent ⟨Events.pollOut, 0, false⟩, .takeFunctors, .runFunctor, .poll,
    .closeEvent 1, .closeCallback .einprogress, .closeEvent 1, .closeCallback .einprogress]

theorem secondHangUp_removes_twice :
    ∃ s, Reach State.step anyStep (.init true) s ∧ s.failed = [.handleClose, .removeConnection] ∧
      (s.conns 1).removals = 2 ∧ s.connector.created = 3 :=
  Reach.exists_of_exec secondHangUp _ (meets_any secondHangUp _) (by decide +kernel)

/-! ## 3. Never idle -/

/-- What `connect(2)` answers in a step. -/
def Label.errno : Label → Option Errno
  | .connect errno | .timerFires _ errno | .closeCallback errno => some errno
  | _ => none

/-- At rest, and `connect(2)` does not fail for good. -/
def Persists (s : State) (l : Label) : Prop :=
  AtRest s l ∧ (l.errno.all fun errno => !givesUp errno) = true

instance (s : State) (l : Label) : Decidable (Persists s l) := inferInstanceAs (Decidable (_ ∧ _))

/-- A connection lives, an attempt is under way, or a timer will start one. -/
def State.Busy (s : State) : Prop :=
  (∃ c, s.Live c) ∨ s.connector.state = .connecting ∨ s.connector.timers ≠ []

/-- As long as a connection is wanted, by the client and by its connector.  Either of them may
have been told to stop; then nothing is promised. -/
structure Going (s : State) : Prop where
  retry : s.retry = true
  busy : s.alive = true → s.wanted = true → s.connector.wanted = true → s.Busy

theorem Going.of_eq (h : Going s) (hretry : s'.retry = s.retry) (halive : s'.alive = s.alive)
    (hwanted : s'.wanted = s.wanted) (hconn : s'.connector = s.connector)
    (hlive : ∀ c, s.Live c → s'.Live c) : Going s' := by
  refine ⟨hretry.trans h.retry, fun ha hw hc => ?_⟩
  rw [halive] at ha
  rw [hwanted] at hw
  rw [hconn] at hc
  obtain ⟨c, hl⟩ | hs | ht := h.busy ha hw hc
  · exact .inl ⟨c, hlive c hl⟩
  · exact .inr (.inl (hconn ▸ hs))
  · exact .inr (.inr (hconn ▸ ht))

/-- `start_in_loop` has begun an attempt, or left a timer.  It leaves neither if `connect(2)`
fails for good, which the condition excludes. -/
theorem Going.attempted {k₀ : Connector.State} {errno : Errno} (hretry : s'.retry = true)
    (htry : Attempted errno k₀ s'.connector) (hg : givesUp errno = false) : Going s' := by
  refine ⟨hretry, fun _ _ hw => .inr ?_⟩
  rw [htry.wanted] at hw
  exact htry.goesOn hw hg

/-- `retry` has left a timer, or no connection is wanted. -/
theorem Going.retried {k₀ : Connector.State} (hretry : s'.retry = true)
    (hr : Retried k₀ s'.connector) : Going s' := by
  refine ⟨hretry, fun _ _ hw => .inr (.inr ?_)⟩
  rw [hr.wanted] at hw
  exact hr.again hw

theorem Going.setConn {g : Conn → Conn} (h : Going s)
    (hg : (g (s.conns c)).removals = (s.conns c).removals) : Going (s.setConn c g) :=
  h.of_eq rfl rfl rfl rfl fun d => (live_setConn hg d).mpr

theorem Going.shutdown (h : Going s) : Going (s.shutdown c) := by
  unfold State.shutdown
  split
  · exact h.setConn rfl
  · exact h

theorem Going.forceClose (h : Going s) : Going (s.forceClose c) := by
  unfold State.forceClose
  split
  · exact (h.setConn (c := c) (g := fun k => k.setState .disconnecting) rfl).of_eq rfl rfl rfl rfl
      fun _ hl => hl
  · exact h

/-- `handle_close` is entered, of a connection that is open or not. -/
theorem Going.handleClose (h : Going s) (c : Nat) : Going (s.handleClose c) := by
  have hassert : Going (s.assert .handleClose (s.conns c).open?) := by
    unfold State.assert State.fail
    split
    · exact h
    · exact ⟨h.retry, h.busy⟩
  have hconn : Going ((s.assert .handleClose (s.conns c).open?).setConn c fun k => k.setState .disconnected) :=
    hassert.setConn rfl
  exact hconn.of_eq rfl rfl rfl rfl fun _ hl => hl

theorem flags_shutdown (c : Nat) :
    (s.shutdown c).retry = s.retry ∧ (s.shutdown c).wanted = s.wanted := by
  unfold State.shutdown
  split <;> exact ⟨rfl, rfl⟩

theorem flags_forceClose (c : Nat) :
    (s.forceClose c).retry = s.retry ∧ (s.forceClose c).alive = s.alive := by
  unfold State.forceClose
  split <;> exact ⟨rfl, rfl⟩

theorem flags_dropConnector (s : State) :
    s.dropConnector.retry = s.retry ∧ s.dropConnector.alive = s.alive := by
  unfold State.dropConnector State.assert State.fail
  split
  · exact ⟨rfl, rfl⟩
  · split <;> exact ⟨rfl, rfl⟩

theorem flags_destroy (s : State) (unique : Bool) :
    (s.destroy unique).retry = s.retry ∧ (s.destroy unique).alive = false := by
  unfold State.destroy
  cases s.connection with
  | some c =>
    simp only [flags_dropConnector]
    split
    · exact flags_forceClose c
    · exact ⟨rfl, rfl⟩
  | none => exact ⟨rfl, rfl⟩

theorem Going.dropConnector (h : Going s) : Going s.dropConnector := by
  unfold State.dropConnector State.assert State.fail
  split
  · exact h
  · split
    · exact h
    · exact ⟨h.retry, h.busy⟩

/-- The connection just made is live, and a client with a live connection is busy. -/
theorem Going.newConnection (hretry : s.retry = true) (hfirst : 1 ≤ s.nextConnId) (sock : Sock) :
    Going ((s.onConnector k).newConnection sock) := by
  unfold State.newConnection
  split
  · refine ⟨hretry, fun _ _ _ => .inl ⟨s.nextConnId, ⟨hfirst, Nat.lt_succ_self _⟩, ?_⟩⟩
    simp [State.onConnector, State.setConn, Conn.setState]
  · rename_i ha
    exact ⟨hretry, fun ha' => absurd ha' ha⟩

/-- A functor of the connector is run: it retries, or nothing changes that keeps the client busy.
`reset_channel` only empties the pointer, and `stop_in_loop` ends an attempt that is not wanted
any more. -/
theorem Going.runConnector {g : Connector.Functor} {rest : List Functor} (h : Going s) (hk : Kept s)
    (hp : s.phase.batch = .connector g :: rest) (hst : (s.popped rest).runConnector = some s') :
    Going s' := by
  have hnext := hk.rested.next hp
  have hthere : (s.popped rest).connectorThere = true := hk.there (.inl (by simp [hnext]))
  simp only [State.runConnector, hthere, if_true, Option.map_eq_some_iff] at hst
  obtain ⟨k, hstep, rfl⟩ := hst
  change s.connector.step .runFunctor = some k at hstep
  cases Connector.step_cases hstep with
  | @runFunctor f rest' _ hp' hrun =>
    cases f with
    | stopInLoop =>
      obtain ⟨-, hr⟩ | ⟨-, rfl⟩ := retried_stopInLoop hrun
      · exact Going.retried h.retry hr
      · exact ⟨h.retry, h.busy⟩
    | resetChannel =>
      cases hrun
      exact ⟨h.retry, h.busy⟩

/-- `connect`, at rest: the connector is started where it is disconnected, and an attempt begins
or a timer is set. -/
theorem Going.connect {errno : Errno} (h : Going s) (hrest : AtRest s (.connect errno))
    (hok : givesUp errno = false) : Going (s.connect errno) := by
  have hs : s.connector.state = .disconnected := hrest.1.1
  let k₀ : Connector.State := { s.connector with wanted := true }
  exact Going.attempted h.retry (attempted_startInLoop (k := k₀) hs errno) hok

/-- After `disconnect` no connection is wanted. -/
theorem Going.disconnect (h : Going s) : Going s.disconnect := by
  cases hc : s.connection with
  | none =>
    simp only [State.disconnect, hc]
    refine ⟨h.retry, ?_⟩
    intro _ hw
    cases hw
  | some c =>
    simp only [State.disconnect, hc]
    refine ⟨(flags_shutdown c).1.trans h.retry, ?_⟩
    intro _ hw
    rw [(flags_shutdown c).2] at hw
    cases hw

/-- An event of the connecting channel: the attempt goes on, or the connector retries, or there
is a connection, or nobody wants one. -/
theorem Going.connectorEvent {e : Connector.State.Event} (h : Going s) (hk : Kept s)
    (hch : s.connector.channel ≠ none) (hst : s.connectorEvent e = some s') : Going s' := by
  obtain ⟨-, k, hstep, hcases⟩ := hk.connectorEvent_cases hch hst
  cases hcases with
  | nothing => exact h
  | ended hend hh =>
    cases hend with
    | retried hr => exact Going.retried h.retry hr
    | handed sock hw heq =>
      have hhanded := (congrArg Connector.State.handed heq).symm.trans hh
      simp at hhanded
    | dropped sock hw heq =>
      refine ⟨h.retry, ?_⟩
      intro _ _ hw'
      have hkw : k.wanted = s.connector.wanted := by rw [heq]
      rw [show (s.onConnector k).connector.wanted = k.wanted from rfl, hkw, hw] at hw'
      cases hw'
  | connected sock hw heq => exact Going.newConnection h.retry hk.tabled.first sock

/-- A retry timer fires, into a connector that is disconnected. -/
theorem Going.timerFires {i : Nat} {errno : Errno} (h : Going s) (hk : Kept s) (hok : givesUp errno = false)
    (hst : s.timerFires i errno = some s') : Going s' := by
  simp only [State.timerFires, Option.map_eq_some_iff] at hst
  obtain ⟨k, hstep, rfl⟩ := hst
  refine Going.dropConnector ?_
  cases Connector.step_cases hstep with
  | timerFires hi =>
    have hs : s.connector.state = .disconnected := by
      refine hk.rested.idle fun hnil => ?_
      simp [hnil] at hi
    let k₀ : Connector.State := { s.connector with timers := s.connector.timers.eraseIdx i }
    exact Going.attempted h.retry (attempted_startInLoop (k := k₀) hs errno) hok

/-- The close callback restarts the connector, or the client is gone, or wants no connection.
This is the one place where a client that was busy with a connection has to find something else. -/
theorem Going.closeCallback {errno : Errno} (h : Going s) (hk : Kept s) (hc : s.closing = some c)
    (hok : givesUp errno = false) : Going (s.closeCallback c errno) := by
  rw [hk.closeCallback_eq hc]
  split
  · let k₀ : Connector.State :=
      { s.connector.setState .disconnected with
        retryDelayMs := Connector.initRetryDelayMs, wanted := true }
    exact Going.attempted h.retry (attempted_startInLoop (k := k₀) rfl errno) hok
  · rename_i hno
    refine ⟨h.retry, ?_⟩
    intro ha hw
    refine absurd ?_ hno
    change s.alive = true at ha
    change s.wanted = true at hw
    simp [ha, hw, h.retry]

/-- The next functor of the batch: one of the connector's, or one of a connection, which keeps
the client as busy as it was. -/
theorem Going.runFunctor {f : Functor} {rest : List Functor} (h : Going s) (hk : Kept s)
    (hp : s.phase.batch = f :: rest) (hst : (s.popped rest).runFunctor f = some s') : Going s' := by
  have hpop : Going (s.popped rest) := ⟨h.retry, h.busy⟩
  cases f with
  | connector g => exact h.runConnector hk hp hst
  | forceCloseInLoop c =>
    cases hst
    unfold State.forceCloseInLoop
    split
    · exact hpop.handleClose c
    · exact hpop
  | connectDestroyed c =>
    cases hst
    exact hpop.setConn rfl

/-- **One step** keeps the client going.  What keeps it busy can end in three ways: a connection
is closed, an attempt ends, a timer fires; and each of them leaves another, by the lemma on the
label. -/
theorem step_going {l : Label} (h : Going s) (hk : Kept s) (hg : Persists s l)
    (hst : s.step l = some s') : Going s' := by
  obtain ⟨hen, htake⟩ := step_taken hst
  obtain ⟨hrest, hok⟩ := hg
  have hno {errno : Errno} (hall : (some errno).all (fun errno => !givesUp errno) = true) :
      givesUp errno = false := Bool.not_eq_true' _ ▸ hall
  cases l with
  | connect errno =>
    cases htake
    exact h.connect hrest (hno hok)
  | disconnect =>
    cases htake
    exact h.disconnect
  | stop =>
    cases htake
    refine ⟨h.retry, ?_⟩
    intro _ hw
    cases hw
  | enableRetry =>
    cases htake
    exact ⟨rfl, h.busy⟩
  | destroy unique =>
    cases htake
    refine ⟨(flags_destroy s unique).1.trans h.retry, ?_⟩
    intro ha
    rw [(flags_destroy s unique).2] at ha
    cases ha
  | shutdown c =>
    cases htake
    exact h.shutdown
  | forceClose c =>
    cases htake
    exact h.forceClose
  | poll | takeFunctors =>
    cases htake
    exact ⟨h.retry, h.busy⟩
  | connectorEvent e => exact h.connectorEvent hk (channel_of_polled hen) htake
  | timerFires i errno => exact h.timerFires hk (hno hok) htake
  | keeperFires =>
    cases htake
    rw [(hk.keeperFires hrest).dropConnector]
    exact ⟨h.retry, h.busy⟩
  | closeEvent c =>
    cases htake
    exact h.handleClose c
  | closeCallback errno =>
    simp only [State.take, Option.map_eq_some_iff] at htake
    obtain ⟨c, hc, rfl⟩ := htake
    exact h.closeCallback hk hc (hno hok)
  | runFunctor =>
    simp only [State.take] at htake
    split at htake
    · rename_i f rest hp
      exact h.runFunctor hk hp htake
    · cases htake

/-- **Never idle.**  With `enable_retry` set, and as long as `connect(2)` does not fail for good,
a client that wants a connection has one, or is about to: its connection lives, its connector
watches an attempt, or one retry timer is set.  There is no state in which it waits for nothing. -/
theorem never_idle (s : State) (h : Reach State.step Persists (.init true) s) (ha : s.alive = true)
    (hw : s.wanted = true) (hc : s.connector.wanted = true) :
    (∃ c, s.connection = some c ∧ s.Lives c) ∨
      (s.connector.state = .connecting ∧ ∃ sock, s.connector.channel = some ⟨sock, Connector.watched⟩) ∨
      (s.connector.state = .disconnected ∧ s.connector.timers.length = 1) := by
  have hboth : Kept s ∧ Going s := by
    refine h.invariant (I := fun t => Kept t ∧ Going t)
      ⟨kept_init true, rfl, fun _ _ hc => by cases hc⟩ ?_
    rintro t l t' ⟨hk, hgo⟩ hg hst
    exact ⟨(step_kept hk hg.1 hst).1, step_going hgo hk hg hst⟩
  obtain ⟨hk, hgo⟩ := hboth
  obtain ⟨c, hl⟩ | hs | ht := hgo.busy ha hw hc
  · have hdes := hk.tabled.destroyed c
    rw [hl.2] at hdes
    have hconn : s.connection = some c := (hk.tabled.connection c).mpr ⟨ha, hl⟩
    exact .inl ⟨c, hconn, hl.2, by omega, List.count_eq_zero.mp (by omega), fun _ => hconn⟩
  · exact .inr (.inl ⟨hs, hk.rested.inv.attempt hs⟩)
  · have hlen := List.length_pos_of_ne_nil ht
    have hone := hk.rested.timers
    exact .inr (.inr ⟨hk.rested.idle ht, by omega⟩)

/-- The connection comes up, ends, and the restart is refused. -/
def refusedRestart : List Label :=
  [.enableRetry, .connect .einprogress, .poll, .connectorEvent ⟨Events.pollOut, 0, false⟩,
    .takeFunctors, .runFunctor, .poll, .closeEvent 1, .closeCallback .econnrefused]

theorem never_idle_refusedRestart :
    ∃ s, Reach State.step Persists (.init true) s ∧ s.connector.closed = [1] ∧
      ((∃ c, s.connection = some c ∧ s.Lives c) ∨
        (s.connector.state = .connecting ∧
          ∃ sock, s.connector.channel = some ⟨sock, Connector.watched⟩) ∨
        (s.connector.state = .disconnected ∧ s.connector.timers.length = 1)) := by
  have hrun : ∃ s, Reach State.step Persists (.init true) s ∧ (s.connector.closed = [1] ∧
      s.alive = true ∧ s.wanted = true ∧ s.connector.wanted = true) :=
    Reach.exists_of_exec refusedRestart _ (by decide +kernel) (by decide +kernel)
  obtain ⟨s, h, hcl, ha, hw, hc⟩ := hrun
  exact ⟨s, h, hcl, never_idle s h ha hw hc⟩

/-! ## 4. After the destructor -/

/-- The client is gone, and its connections are numbered below `n`. -/
structure Over (n : Nat) (s : State) : Prop where
  dead : s.alive = false
  conns : s.nextConnId = n

theorem Over.shutdown {n : Nat} (h : Over n s) : Over n (s.shutdown c) := by
  unfold State.shutdown
  split <;> exact ⟨h.dead, h.conns⟩

theorem Over.forceClose {n : Nat} (h : Over n s) : Over n (s.forceClose c) := by
  unfold State.forceClose
  split <;> exact ⟨h.dead, h.conns⟩

theorem Over.handleClose {n : Nat} (h : Over n s) (c : Nat) : Over n (s.handleClose c) := by
  unfold State.handleClose State.assert State.fail
  split <;> exact ⟨h.dead, h.conns⟩

theorem Over.dropConnector {n : Nat} (h : Over n s) : Over n s.dropConnector := by
  unfold State.dropConnector State.assert State.fail
  split
  · exact h
  · split <;> exact ⟨h.dead, h.conns⟩

/-- **One step** of what the client has left behind: no attempt hands a socket over any more.  An
attempt that was under way is stopped, or its event finds that no connection is wanted. -/
theorem step_over {n : Nat} {l : Label} (h : Over n s) (hk : Kept s) (hg : AtRest s l)
    (hst : s.step l = some s') : Over n s' := by
  obtain ⟨hen, htake⟩ := step_taken hst
  have hcall (ha : s.alive = true) : False := by
    rw [h.dead] at ha
    cases ha
  cases l with
  | connect | disconnect | stop | enableRetry | destroy => exact (hcall hen).elim
  | shutdown c =>
    cases htake
    exact h.shutdown
  | forceClose c =>
    cases htake
    exact h.forceClose
  | poll | takeFunctors =>
    cases htake
    exact ⟨h.dead, h.conns⟩
  | connectorEvent e =>
    obtain ⟨hs, k, -, hcases⟩ := hk.connectorEvent_cases (channel_of_polled hen) htake
    cases hcases with
    | nothing => exact h
    | ended => exact ⟨h.dead, h.conns⟩
    | connected sock hw heq =>
      have := (hk.parted.mute h.dead).resolve_right (by simp [hs])
      rw [hw] at this
      cases this
  | timerFires i errno =>
    simp only [State.take, State.timerFires, Option.map_eq_some_iff] at htake
    obtain ⟨k, -, rfl⟩ := htake
    exact Over.dropConnector ⟨h.dead, h.conns⟩
  | keeperFires =>
    cases htake
    exact Over.dropConnector ⟨h.dead, h.conns⟩
  | closeEvent c =>
    cases htake
    exact h.handleClose c
  | closeCallback errno =>
    simp only [State.take, Option.map_eq_some_iff] at htake
    obtain ⟨c, hc, rfl⟩ := htake
    rw [hk.closeCallback_eq hc]
    split <;> exact ⟨h.dead, h.conns⟩
  | runFunctor =>
    simp only [State.take] at htake
    split at htake
    · rename_i f rest hp
      cases f with
      | connector g =>
        have hnext := hk.rested.next hp
        have hthere : (s.popped rest).connectorThere = true := hk.there (.inl (by simp [hnext]))
        change (s.popped rest).runConnector = some s' at htake
        simp only [State.runConnector, hthere, if_true, Option.map_eq_some_iff] at htake
        obtain ⟨k, -, rfl⟩ := htake
        exact ⟨h.dead, h.conns⟩
      | forceCloseInLoop c =>
        cases htake
        have hpop : Over n (s.popped rest) := ⟨h.dead, h.conns⟩
        change Over n ((s.popped rest).forceCloseInLoop c)
        unfold State.forceCloseInLoop
        split
        · exact hpop.handleClose c
        · exact hpop
      | connectDestroyed c =>
        cases htake
        exact ⟨h.dead, h.conns⟩
    · cases htake

/-- **After the destructor.**  Whatever goes on in the loop, no new connection is made, and
neither the client nor a connector that has gone is called: the attempt under way is stopped and
its socket closed, the connection left over closes through its other callback.  The order in
which `stop_in_loop`, `reset_channel` and the keeper's timer come does not matter. -/
theorem destroyed_quiet (retry : Bool) (s s' : State) (h : Reach State.step AtRest (.init retry) s)
    (ha : s.alive = false) (h' : Reach State.step AtRest s s') :
    s'.alive = false ∧ s'.nextConnId = s.nextConnId ∧ s'.failed = [] := by
  have hboth : Kept s' ∧ Over s.nextConnId s' := by
    refine h'.invariant (I := fun t => Kept t ∧ Over s.nextConnId t) ⟨reach_kept h, ha, rfl⟩ ?_
    rintro t l t' ⟨hk, ho⟩ hg hst
    exact ⟨(step_kept hk hg hst).1, step_over ho hk hg hst⟩
  exact ⟨hboth.2.dead, hboth.2.conns, hboth.1.failed⟩

/-- The client goes in the middle of an attempt, and the loop stops it. -/
def destroyedConnecting : List Label := [.connect .einprogress, .destroy false]

def stopsAfterwards : List Label :=
  [.poll, .takeFunctors, .runFunctor, .poll, .takeFunctors, .runFunctor, .poll, .keeperFires]

theorem destroyed_quiet_stopsAfterwards :
    ∃ s s', Reach State.step AtRest (.init true) s ∧ Reach State.step AtRest s s' ∧
      s'.connector.closed = [0] ∧
      s'.alive = false ∧ s'.nextConnId = s.nextConnId ∧ s'.failed = [] := by
  have hrun : ∃ s, Reach State.step AtRest (.init true) s ∧ (s.alive = false ∧
      Meets State.step AtRest s stopsAfterwards ∧
      (exec State.step s stopsAfterwards).any (fun s' => decide (s'.connector.closed = [0])) = true) :=
    Reach.exists_of_exec destroyedConnecting _ (by decide +kernel) (by decide +kernel)
  obtain ⟨s, h, ha, hm, hex⟩ := hrun
  obtain ⟨s', h', hcl⟩ := Reach.exists_of_exec stopsAfterwards _ hm hex
  exact ⟨s, s', h, h', hcl, destroyed_quiet true s s' h ha h'⟩

/-- **The destructor inside the connection callback.**  The `reset_channel` of the attempt is still
queued, so the connector goes with its channel, and the functor is run on it all the same. -/
def destroyedInCallback : List Label :=
  [.connect .einprogress, .poll, .connectorEvent ⟨Events.pollOut, 0, false⟩, .destroy false,
    .takeFunctors, .runFunctor]

theorem destroyedInCallback_dangles :
    ∃ s, Reach State.step anyStep (.init true) s ∧ s.failed = [.connectorChannel, .connectorGone] :=
  Reach.exists_of_exec destroyedInCallback _ (meets_any destroyedInCallback _) (by decide +kernel)

end Suduo.TcpClient
