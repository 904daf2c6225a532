/-
# A client that connects again and again

`TcpClient` promises its user one connection at a time and, with `enable_retry`, another one whenever
the last has ended.  Behind that stand a connector that must be AT REST when it is started (see
`Suduo.Net.ConnectorSockets`), a connection whose `handle_close` ends in `remove_connection`, and
the queue they share.  What this module shows is that the client's own calls of the connector are all
at rest: `restart` comes from a close callback, that from an event of a later `poll` or from
`force_close_in_loop`, and the `reset_channel` of the attempt is before both in the queue.

What is left is for the user, for the network and for time.  `AtRest` asks that `connect` finds the
connector disconnected, with no timer and no channel left; that a timer fires no sooner than the loop
has gone round its queue, half a second; that the destructor finds no functor of the connector it lets
go, and neither does the timer it leaves behind; and that no second hang-up is handled between the close
of a connection and its `connect_destroyed`.  None of these is idle: see `destroyedInCallback_dangles`
and `secondHangUp_removes_twice` for what happens without them.
-/
import Suduo.Net.TcpClient

namespace Suduo.TcpClient

open Lib
open Connector (Sock Errno)
open TcpConnection (ConnState)

/-! ## 1. The condition -/

/-- What the calls and the timers of a run find. -/
def AtRest (s : State) : Label → Prop
  | .connect errno =>
    Connector.AtRest s.connector (.start errno) ∧ s.connector.timers = []
  | .timerFires _ errno =>
    s.connector.wanted = true → errno.begins = true → s.connector.channel = none
  | .destroy _ => s.connection ≠ none → s.connector.pendingFunctors = []
  | .keeperFires => s.connector.pendingFunctors = []
  | .closeEvent c => (s.conns c).open? = true
  | .disconnect | .stop | .enableRetry | .shutdown _ | .forceClose _ | .poll | .connectorEvent _
  | .closeCallback _ | .takeFunctors | .runFunctor => True

instance (s : State) (l : Label) : Decidable (AtRest s l) :=
  match l with
  | .connect _ => inferInstanceAs (Decidable (_ ∧ _))
  | .timerFires _ errno =>
    inferInstanceAs (Decidable (_ → errno.begins = true → s.connector.channel = none))
  | .destroy _ => inferInstanceAs (Decidable (_ → s.connector.pendingFunctors = []))
  | .keeperFires => inferInstanceAs (Decidable (s.connector.pendingFunctors = []))
  | .closeEvent c => inferInstanceAs (Decidable ((s.conns c).open? = true))
  | .disconnect | .stop | .enableRetry | .shutdown _ | .forceClose _ | .poll | .connectorEvent _
  | .closeCallback _ | .takeFunctors | .runFunctor => inferInstanceAs (Decidable True)

/-! ## 2. The invariant -/

/-- The connection exists, and its close callback has not run. -/
def State.Live (s : State) (c : Nat) : Prop := s.Made c ∧ (s.conns c).removals = 0

/-- The functor of the connector, if it is one. -/
def Functor.ofConnector : Functor → Option Connector.Functor
  | .connector f => some f
  | .forceCloseInLoop _ | .connectDestroyed _ => none

/-- The connector keeps its own invariant, and its functors are in the loop's queue, in the same
order.  At most one retry timer is set, and only while the connector is disconnected. -/
structure Rested (s : State) : Prop where
  inv : Connector.Inv s.connector
  functors : s.queue.filterMap Functor.ofConnector = s.connector.pendingFunctors
  timers : s.connector.timers.length ≤ 1
  idle : s.connector.timers ≠ [] → s.connector.state = .disconnected

/-- The connections: what is closed is closed for good, and destroyed by one functor.
`_connection` is the connection that lives, if there is a client and a connection that lives. -/
structure Tabled (s : State) : Prop where
  first : 1 ≤ s.nextConnId
  connection : ∀ c, s.connection = some c ↔ s.alive = true ∧ s.Live c
  callback : ∀ c, s.Live c → (s.conns c).closeCallback =
    if s.alive then .removeConnection else .detailRemoveConnection
  closing : ∀ c, s.closing = some c ↔ s.Live c ∧ (s.conns c).state = .disconnected
  up : ∀ c, s.Live c → (s.conns c).state ≠ .connecting
  down : ∀ c, s.Made c → ¬ s.Live c → (s.conns c).state = .disconnected ∧ (s.conns c).removals = 1
  destroyed : ∀ c, (s.conns c).destroys + s.queue.count (.connectDestroyed c) = (s.conns c).removals
  fresh : ∀ c, ¬ s.Made c → (s.conns c).removals = 0 ∧ .forceCloseInLoop c ∉ s.queue

/-- A live connection is the last one made, of the last socket handed over.  Connections and
sockets go together one to one, so no socket is served twice and none is dropped. -/
structure Linked (s : State) : Prop where
  live : ∀ c, s.Live c → c + 1 = s.nextConnId ∧ s.connector.state = .connected
  handed : s.connector.handed = (List.range' 1 (s.nextConnId - 1)).map fun c => (s.conns c).sock

/-- No `reset_channel` is behind a `force_close_in_loop`. -/
def Ahead (c : Nat) (q : List Functor) : Prop :=
  q.Pairwise fun f g => f = .forceCloseInLoop c → g ≠ .connector .resetChannel

/-- Whatever can close a live connection comes after the `reset_channel` of its attempt.  This is
the invariant that carries the module: the two have nothing to do with each other but their
places in one queue, and the phases of the loop, which does not handle events while it runs a
batch. -/
structure Ordered (s : State) : Prop where
  bound : s.phase.polledConns ≤ s.nextConnId
  ahead : ∀ c, s.Live c → Ahead c s.queue
  settled : ∀ c, s.closing = some c → s.connector.channel = none
  polled : ∀ c, s.Live c → c < s.phase.polledConns → s.connector.channel = none
  swapped : ∀ c, s.Live c → s.phase.handles = false →
    .connector .resetChannel ∉ s.pendingFunctors

/-- After the destructor: no connection is handed over any more, an attempt is about to be
stopped, and without the `run_after(1)` nothing of the connector is under way.  So a connector
that goes with its last pointer leaves nothing behind that would call it. -/
structure Parted (s : State) : Prop where
  mute : s.alive = false → s.connector.wanted = false ∨ s.connector.state = .connected
  stopping : s.alive = false → s.connector.state = .connecting →
    .stopInLoop ∈ s.connector.pendingFunctors
  gone : s.alive = false → s.keepers = 0 →
    s.connector.pendingFunctors = [] ∧ s.connector.state ≠ .connecting

structure Kept (s : State) : Prop where
  rested : Rested s
  tabled : Tabled s
  linked : Linked s
  ordered : Ordered s
  parted : Parted s
  failed : s.failed = []

variable {s s' : State} {c : Nat} {k : Connector.State}

theorem not_live_init (retry : Bool) (c : Nat) : ¬ (State.init retry).Live c := fun h =>
  absurd h.1.2 (Nat.not_lt.mpr h.1.1)

theorem kept_init (retry : Bool) : Kept (.init retry) where
  rested := ⟨Connector.inv_init, rfl, Nat.zero_le _, fun h => absurd rfl h⟩
  tabled := by
    refine ⟨Nat.le_refl _, fun c => ?_, fun c hc => absurd hc (not_live_init retry c), fun c => ?_,
      fun c hc => absurd hc (not_live_init retry c), fun c hc => absurd hc.2 (Nat.not_lt.mpr hc.1),
      fun _ => rfl, fun _ _ => ⟨rfl, List.not_mem_nil⟩⟩
    · exact ⟨nofun, fun h => absurd h.2 (not_live_init retry c)⟩
    · exact ⟨nofun, fun h => absurd h.1 (not_live_init retry c)⟩
  linked := ⟨fun c hc => absurd hc (not_live_init retry c), rfl⟩
  ordered := ⟨Nat.zero_le _, fun c hc => absurd hc (not_live_init retry c), nofun,
    fun c hc => absurd hc (not_live_init retry c), fun c hc => absurd hc (not_live_init retry c)⟩
  parted := ⟨nofun, nofun, nofun⟩
  failed := rfl

/-- A connection that is open, or in `handle_close`, is live.  What is not live any more was
closed first. -/
theorem Tabled.live_of_open (h : Tabled s) (ho : (s.conns c).open? = true) (hm : s.Made c) :
    s.Live c := by
  by_contra hl
  simp [Conn.open?, (h.down c hm hl).1] at ho

theorem Tabled.open_of_live (h : Tabled s) (hl : s.Live c) (hc : s.closing ≠ some c) :
    (s.conns c).open? = true := by
  have hup := h.up c hl
  have hdown : (s.conns c).state ≠ .disconnected := fun hs => hc ((h.closing c).mpr ⟨hl, hs⟩)
  unfold Conn.open?
  cases hs : (s.conns c).state with
  | connecting => exact absurd hs hup
  | disconnected => exact absurd hs hdown
  | connected | disconnecting => rfl

/-- A live connection has its connector in `Connected`, so an attempt under way has none.  A
client does not connect while it is connected. -/
theorem Linked.none_live (h : Linked s) (hs : s.connector.state ≠ .connected) (c : Nat) :
    ¬ s.Live c := fun hl => hs (h.live c hl).2

/-! ## 3. The connector moves -/

theorem queue_onConnector (s : State) (k : Connector.State) :
    (s.onConnector k).queue =
      s.queue ++ (k.pendingFunctors.drop s.connector.pendingFunctors.length).map .connector := by
  simp [State.queue, State.onConnector]

theorem ofConnector_eq_some {f : Functor} {g : Connector.Functor} :
    f.ofConnector = some g ↔ f = .connector g := by
  cases f <;> simp [Functor.ofConnector]

/-- The connector's functors are those of it in the queue.  One list is the other, filtered. -/
theorem Rested.mem_functors (h : Rested s) {g : Connector.Functor} :
    g ∈ s.connector.pendingFunctors ↔ .connector g ∈ s.queue := by
  rw [← h.functors, List.mem_filterMap]
  constructor
  · rintro ⟨f, hf, hof⟩
    rwa [ofConnector_eq_some.mp hof] at hf
  · exact fun hf => ⟨_, hf, rfl⟩

/-- **A step of the connector**, as long as it leaves a live connection alone and hands no socket
over.  What the functor was that it ran is already out of the queue.  Its hypotheses are what the
three kinds of step have in common: a start, a retry, and an attempt that is stopped. -/
theorem kept_onConnector (fs : List Connector.Functor)
    (hf : s.queue.filterMap Functor.ofConnector = s.connector.pendingFunctors) (ht : Tabled s)
    (hl : Linked s) (ho : Ordered s) (hfailed : s.failed = []) (hinv : Connector.Inv k)
    (hq : k.pendingFunctors = s.connector.pendingFunctors ++ fs)
    (htimers : k.timers.length ≤ 1) (hidle : k.timers ≠ [] → k.state = .disconnected)
    (hhanded : k.handed = s.connector.handed)
    (hlive : ∀ c, s.Live c → k.state = .connected ∧ .resetChannel ∉ fs ∧
      (k.channel = s.connector.channel ∨ k.channel = none))
    (hparted : Parted (s.onConnector k)) : Kept (s.onConnector k) := by
  have hqueue : (s.onConnector k).queue = s.queue ++ fs.map .connector := by
    rw [queue_onConnector, hq, List.drop_left]
  have hpend : (s.onConnector k).pendingFunctors = s.pendingFunctors ++ fs.map .connector := by
    simp [State.onConnector, hq]
  have hchannel (c : Nat) (hc : s.Live c) (hn : s.connector.channel = none) : k.channel = none := by
    obtain heq | hk := (hlive c hc).2.2
    · exact heq.trans hn
    · exact hk
  refine ⟨⟨hinv, ?_, htimers, hidle⟩, ?_, ⟨fun c hc => ⟨(hl.live c hc).1, (hlive c hc).1⟩,
    hhanded.trans hl.handed⟩, ⟨ho.bound, fun c hc => ?_, fun c hc => ?_, fun c hc hlt => ?_,
    fun c hc hp => ?_⟩, hparted, hfailed⟩
  · have hmap : (fs.map Functor.connector).filterMap Functor.ofConnector = fs := by
      simp [List.filterMap_map, Function.comp_def, Functor.ofConnector]
    rw [hqueue, List.filterMap_append, hf, hmap]
    exact hq.symm
  · refine { ht with destroyed := fun c => ?_, fresh := fun c hc => ?_ }
    · have hno : .connectDestroyed c ∉ fs.map Functor.connector := by simp
      rw [hqueue, List.count_append, List.count_eq_zero_of_not_mem hno]
      exact ht.destroyed c
    · refine ⟨(ht.fresh c hc).1, ?_⟩
      rw [hqueue]
      simpa using (ht.fresh c hc).2
  · have hno := (hlive c hc).2.1
    unfold Ahead
    rw [hqueue, List.pairwise_append]
    refine ⟨ho.ahead c hc, ?_, ?_⟩
    · rw [List.pairwise_map]
      exact List.pairwise_of_forall fun _ _ hf => by cases hf
    · rintro f - g hg -
      obtain ⟨f', hf', rfl⟩ := List.mem_map.mp hg
      rintro heq
      cases heq
      exact hno hf'
  · exact hchannel c ((ht.closing c).mp hc).1 (ho.settled c hc)
  · exact hchannel c hc (ho.polled c hc hlt)
  · rw [hpend]
    have hno := ho.swapped c hc hp
    simpa [hno] using (hlive c hc).2.1

/-- With no attempt under way and no `reset_channel` queued, `_channel` is empty.  It is emptied
by the functor and by nothing else. -/
theorem channel_none (hinv : Connector.Inv k) (hs : k.state ≠ .connecting)
    (hno : .resetChannel ∉ k.pendingFunctors) : k.channel = none := by
  have hr := hinv.resets
  rw [List.count_eq_zero_of_not_mem hno] at hr
  cases hch : k.channel with
  | none => rfl
  | some a => simp [hs, hch] at hr

theorem connectorThere_eq_false :
    s.connectorThere = false ↔ s.alive = false ∧ s.keepers = 0 ∧ s.connector.timers = [] := by
  simp only [State.connectorThere, Bool.or_eq_false_iff, decide_eq_false_iff_not, Nat.not_lt,
    Nat.le_zero, ne_eq, not_not, and_assoc]

/-- What is still to be called on the connector finds it there.  If the client is gone, this is
the keeper's doing: `Parted` says that without a keeper there is nothing left to call. -/
theorem Kept.there (h : Kept s)
    (hleft : s.connector.pendingFunctors ≠ [] ∨ s.connector.state = .connecting) :
    s.connectorThere = true := by
  by_contra hno
  obtain ⟨ha, hk, -⟩ := connectorThere_eq_false.mp (Bool.eq_false_iff.mpr hno)
  obtain ⟨hp, hs⟩ := h.parted.gone ha hk
  exact hleft.elim (fun hne => hne hp) hs

/-- The connector goes when nothing of it is left.  In particular it has no channel, so the
assertion of its destructor holds. -/
theorem Kept.dropConnector (h : Kept s) : s.dropConnector = s := by
  unfold State.dropConnector
  split
  · rfl
  · rename_i hthere
    obtain ⟨ha, hk, -⟩ := connectorThere_eq_false.mp (Bool.eq_false_iff.mpr hthere)
    obtain ⟨hp, hs⟩ := h.parted.gone ha hk
    have hch := channel_none h.rested.inv hs (by simp [hp])
    simp [State.assert, hch]

/-- No timer is set while a connection is live or an attempt under way.  A timer that fires then
would start a second attempt. -/
theorem Rested.no_timer (h : Rested s) (hs : s.connector.state ≠ .disconnected) :
    s.connector.timers = [] := by
  by_contra ht
  exact hs (h.idle ht)

/-- `start_in_loop` of a client that is there, from a connector that has no timer.  All that is
used of the attempt is what `Attempted` says of it. -/
theorem Kept.attempt (k₀ : Connector.State) {errno : Errno} (h : Kept s) (ha : s.alive = true)
    (hnone : ∀ c, ¬ s.Live c) (hq : k₀.pendingFunctors = s.connector.pendingFunctors)
    (hh : k₀.handed = s.connector.handed) (ht : k₀.timers = []) (hinv : Connector.Inv k)
    (htry : Attempted errno k₀ k) : Kept (s.onConnector k) := by
  refine kept_onConnector [] h.rested.functors h.tabled h.linked h.ordered h.failed hinv
    ?_ ?_ ?_ (htry.handed.trans hh) (fun c hc => absurd hc (hnone c)) ?_
  · rw [List.append_nil, htry.queue, hq]
  · obtain ⟨-, hts⟩ | ⟨-, hts⟩ := htry.timers
    · simp [hts, ht]
    · simpa [ht] using hts
  · obtain ⟨-, hts⟩ | ⟨hs, -⟩ := htry.timers
    · simp [hts, ht]
    · exact fun _ => hs
  · have hdead : (s.onConnector k).alive = true := ha
    exact ⟨by simp [hdead], by simp [hdead], by simp [hdead]⟩

/-! ## 4. Calls -/

/-- `_retry` and `_connect` are of no concern to the connections, and the connector has a flag of
its own. -/
theorem Kept.setFlags (h : Kept s) (retry wanted : Bool) :
    Kept { s with retry := retry, wanted := wanted } :=
  ⟨{ h.rested with }, { h.tabled with }, { h.linked with }, { h.ordered with }, { h.parted with },
    h.failed⟩

/-- Setting the state of a connection, or its callback, leaves the live connections.  A
connection lives until it is removed. -/
theorem live_setConn {g : Conn → Conn} (hg : (g (s.conns c)).removals = (s.conns c).removals)
    (d : Nat) : (s.setConn c g).Live d ↔ s.Live d := by
  unfold State.Live State.setConn
  by_cases hd : d = c
  · subst hd
    simp [hg, State.Made]
  · simp [Function.update_of_ne hd, State.Made]

theorem conns_setConn_self (g : Conn → Conn) : (s.setConn c g).conns c = g (s.conns c) := by
  simp [State.setConn]

theorem conns_setConn_of_ne (g : Conn → Conn) {d : Nat} (hd : d ≠ c) :
    (s.setConn c g).conns d = s.conns d := by
  simp [State.setConn, hd]

/-- A field of the connections that `g` keeps is the same in all of them. -/
theorem field_setConn {α : Type} (f : Conn → α) {g : Conn → Conn}
    (hf : f (g (s.conns c)) = f (s.conns c)) (d : Nat) :
    f ((s.setConn c g).conns d) = f (s.conns d) := by
  by_cases hd : d = c
  · rw [hd, conns_setConn_self, hf]
  · rw [conns_setConn_of_ne g hd]

/-- A live connection changes its state, and the loop enters `handle_close` or does not.  The one
case where the two go together is `handle_close` itself. -/
theorem Kept.setState {st : ConnState} (closing : Option Nat) (h : Kept s) (hl : s.Live c)
    (hst : st ≠ .connecting)
    (hclosing : ∀ d, closing = some d ↔
      s.Live d ∧ ((s.setConn c fun k => k.setState st).conns d).state = .disconnected)
    (hsettled : ∀ d, closing = some d → s.connector.channel = none) :
    Kept { s.setConn c fun k => k.setState st with closing := closing } := by
  have hlive : ∀ d, (s.setConn c fun k => k.setState st).Live d ↔ s.Live d := live_setConn rfl
  have hself := conns_setConn_self (s := s) (c := c) fun k => k.setState st
  have hother (d : Nat) (hd : d ≠ c) := conns_setConn_of_ne (s := s) (fun k => k.setState st) hd
  have hfield {α : Type} (f : Conn → α) (hf : ∀ k : Conn, f (k.setState st) = f k) (d : Nat) :
      f ((s.setConn c fun k => k.setState st).conns d) = f (s.conns d) := field_setConn f (hf _) d
  have hsock := hfield Conn.sock fun _ => rfl
  have hremovals := hfield Conn.removals fun _ => rfl
  have hdestroys := hfield Conn.destroys fun _ => rfl
  have hcallback := hfield Conn.closeCallback fun _ => rfl
  refine ⟨{ h.rested with }, ⟨h.tabled.first, fun d => ?_, fun d hd => ?_, fun d => ?_, fun d hd => ?_,
    fun d hm hd => ?_, fun d => ?_, fun d hm => ?_⟩, ⟨fun d hd => ?_, ?_⟩, ⟨h.ordered.bound,
    fun d hd => ?_, hsettled, fun d hd => ?_, fun d hd => ?_⟩, { h.parted with }, h.failed⟩
  · exact (h.tabled.connection d).trans (and_congr_right fun _ => (hlive d).symm)
  · exact (hcallback d).trans (h.tabled.callback d ((hlive d).mp hd))
  · exact (hclosing d).trans (and_congr_left fun _ => (hlive d).symm)
  · change ((s.setConn c fun k => k.setState st).conns d).state ≠ .connecting
    by_cases hdc : d = c
    · rw [hdc, hself]
      exact hst
    · rw [hother d hdc]
      exact h.tabled.up d ((hlive d).mp hd)
  · have hdown := h.tabled.down d hm fun hl => hd ((hlive d).mpr hl)
    have hdc : d ≠ c := by
      rintro rfl
      exact hd ((hlive d).mpr hl)
    exact ⟨(congrArg Conn.state (hother d hdc)).trans hdown.1, (hremovals d).trans hdown.2⟩
  · exact (congrArg (· + _) (hdestroys d)).trans ((h.tabled.destroyed d).trans (hremovals d).symm)
  · have hfresh := h.tabled.fresh d hm
    exact ⟨(hremovals d).trans hfresh.1, hfresh.2⟩
  · exact h.linked.live d ((hlive d).mp hd)
  · exact h.linked.handed.trans (List.map_congr_left fun d _ => (hsock d).symm)
  · exact h.ordered.ahead d ((hlive d).mp hd)
  · exact h.ordered.polled d ((hlive d).mp hd)
  · exact h.ordered.swapped d ((hlive d).mp hd)

theorem Kept.setDisconnecting (h : Kept s) (ho : (s.conns c).open? = true) (hm : s.Made c) :
    Kept (s.setConn c fun k => k.setState .disconnecting) := by
  have hl := h.tabled.live_of_open ho hm
  refine h.setState s.closing hl (by simp) (fun d => ?_) h.ordered.settled
  rw [h.tabled.closing d]
  refine and_congr_right fun _ => ?_
  by_cases hd : d = c
  · subst hd
    rw [conns_setConn_self]
    refine ⟨fun hst => ?_, nofun⟩
    simp [Conn.open?, hst] at ho
  · rw [conns_setConn_of_ne _ hd]

/-- `handle_close` of a connection that is open.  Its assertion on the state holds, and the loop
is inside it until the close callback. -/
theorem handleClose_eq (ho : (s.conns c).open? = true) :
    s.handleClose c = { s.setConn c fun k => k.setState .disconnected with closing := some c } := by
  rw [State.handleClose, State.assert, if_pos ho]

/-- `handle_close` is entered, of a live connection whose attempt is over and done with.  The
channel of the attempt is gone, which is what `restart` will rely on. -/
theorem Kept.handleClose (h : Kept s) (hl : s.Live c) (hnone : s.closing = none)
    (hch : s.connector.channel = none) : Kept (s.handleClose c) := by
  rw [handleClose_eq (h.tabled.open_of_live hl (by simp [hnone]))]
  refine h.setState (some c) hl (by simp) (fun d => ?_) fun _ _ => hch
  rw [Option.some.injEq]
  constructor
  · rintro rfl
    exact ⟨hl, by rw [conns_setConn_self]; rfl⟩
  · rintro ⟨hld, hst⟩
    by_contra hd
    rw [conns_setConn_of_ne _ (Ne.symm hd)] at hst
    have hsome := (h.tabled.closing d).mpr ⟨hld, hst⟩
    rw [hnone] at hsome
    cases hsome

/-- A functor that is not the connector's goes to the end of the queue, behind the
`reset_channel` of the attempt. -/
theorem Kept.queueForceClose (h : Kept s) (hm : s.Made c) :
    Kept (s.queueInLoop (.forceCloseInLoop c)) := by
  have hqueue : (s.queueInLoop (.forceCloseInLoop c)).queue = s.queue ++ [.forceCloseInLoop c] := by
    simp [State.queue, State.queueInLoop]
  refine ⟨{ h.rested with functors := ?_ },
    { h.tabled with destroyed := fun d => ?_, fresh := fun d hd => ?_ }, { h.linked with },
    { h.ordered with ahead := fun d hd => ?_, swapped := fun d hd hp => ?_ }, { h.parted with }, h.failed⟩
  · rw [hqueue, List.filterMap_append, h.rested.functors]
    exact List.append_nil _
  · rw [hqueue, List.count_append, List.count_eq_zero_of_not_mem (l := [_]) (by simp)]
    exact h.tabled.destroyed d
  · have hfresh := h.tabled.fresh d hd
    have hdc : d ≠ c := by
      rintro rfl
      exact hd hm
    rw [hqueue]
    exact ⟨hfresh.1, by simp [hfresh.2, hdc]⟩
  · unfold Ahead
    rw [hqueue, List.pairwise_append]
    exact ⟨h.ordered.ahead d hd, List.pairwise_singleton _ _, by simp⟩
  · simpa [State.queueInLoop] using h.ordered.swapped d hd hp

theorem Kept.shutdown (h : Kept s) (hm : s.Made c) : Kept (s.shutdown c) := by
  unfold State.shutdown
  split
  · rename_i hs
    exact h.setDisconnecting (by simp [Conn.open?, hs]) hm
  · exact h

theorem Kept.forceClose (h : Kept s) (hm : s.Made c) : Kept (s.forceClose c) := by
  unfold State.forceClose
  split
  · rename_i ho
    exact (h.setDisconnecting ho hm).queueForceClose hm
  · exact h

/-! ## 5. The end of a connection, and of the client -/

/-- What a close callback does to the connections, whoever is called: `remove_connection` of a
client, or the free function that the destructor has put in its place. -/
def State.removed (s : State) (c : Nat) : State :=
  { { s with closing := none }.setConn c fun k => { k with removals := k.removals + 1 } with
    connection := none }.queueInLoop (.connectDestroyed c)

/-- The close callback has run: no connection is live, and one functor will destroy this one.
The client may connect again from here on. -/
theorem Kept.removed (h : Kept s) (hc : s.closing = some c) :
    Kept (s.removed c) ∧ ∀ d, ¬ (s.removed c).Live d := by
  obtain ⟨hl, hst⟩ := (h.tabled.closing c).mp hc
  let t := s.setConn c fun k => { k with removals := k.removals + 1 }
  have hself : t.conns c = { s.conns c with removals := (s.conns c).removals + 1 } :=
    conns_setConn_self fun k => { k with removals := k.removals + 1 }
  have hother (d : Nat) (hd : d ≠ c) : t.conns d = s.conns d := conns_setConn_of_ne _ hd
  have hlast (d : Nat) (hd : s.Live d) : d = c := by
    have h₁ := (h.linked.live d hd).1
    have h₂ := (h.linked.live c hl).1
    omega
  have hnone (d : Nat) : ¬ t.Live d := by
    rintro ⟨hm, hr⟩
    by_cases hd : d = c
    · rw [hd, hself] at hr
      cases hr
    · rw [hother d hd] at hr
      exact hd (hlast d ⟨hm, hr⟩)
  have hqueue : (s.removed c).queue = s.queue ++ [.connectDestroyed c] := by
    simp [State.removed, State.queue, State.queueInLoop, State.setConn]
  refine ⟨⟨{ h.rested with functors := ?_ }, ⟨h.tabled.first, fun d => ?_,
    fun d hd => absurd hd (hnone d), fun d => ?_, fun d hd => absurd hd (hnone d), fun d hm _ => ?_,
    fun d => ?_, fun d hm => ?_⟩, ⟨fun d hd => absurd hd (hnone d), ?_⟩, ⟨h.ordered.bound,
    fun d hd => absurd hd (hnone d), nofun, fun d hd => absurd hd (hnone d),
    fun d hd => absurd hd (hnone d)⟩, { h.parted with }, h.failed⟩, hnone⟩
  · rw [hqueue, List.filterMap_append, h.rested.functors]
    exact List.append_nil _
  · exact ⟨nofun, fun hd => absurd hd.2 (hnone d)⟩
  · exact ⟨nofun, fun hd => absurd hd.1 (hnone d)⟩
  · change (t.conns d).state = .disconnected ∧ (t.conns d).removals = 1
    by_cases hd : d = c
    · rw [hd, hself]
      exact ⟨hst, congrArg (· + 1) hl.2⟩
    · rw [hother d hd]
      exact h.tabled.down d hm fun hld => hd (hlast d hld)
  · change (t.conns d).destroys + (s.removed c).queue.count (.connectDestroyed d) = (t.conns d).removals
    have hdes := h.tabled.destroyed d
    rw [hqueue, List.count_append]
    by_cases hd : d = c
    · subst hd
      rw [hself, List.count_singleton_self]
      change (s.conns d).destroys + (_ + 1) = (s.conns d).removals + 1
      omega
    · have hno : (Functor.connectDestroyed d) ∉ [Functor.connectDestroyed c] := by simp [hd]
      rw [hother d hd, List.count_eq_zero_of_not_mem hno]
      exact hdes
  · have hdc : d ≠ c := by
      rintro rfl
      exact hm hl.1
    have hfresh := h.tabled.fresh d hm
    rw [hqueue]
    exact ⟨(congrArg Conn.removals (hother d hdc)).trans hfresh.1, by simp [hfresh.2]⟩
  · refine h.linked.handed.trans (List.map_congr_left fun d _ => ?_)
    change (s.conns d).sock = (t.conns d).sock
    by_cases hd : d = c
    · rw [hd, hself]
    · rw [hother d hd]

/-- **The close callback**: it is the connection that ends, and the client restarts, or does not.
Its assertion on `_connection` holds, because a connection that is in `handle_close` is the one
that lives. -/
theorem Kept.closeCallback_eq (h : Kept s) (hc : s.closing = some c) (errno : Errno) :
    s.closeCallback c errno =
      if s.alive && (s.retry && s.wanted) then
        (s.removed c).onConnector (s.connector.restart errno)
      else s.removed c := by
  have hl := ((h.tabled.closing c).mp hc).1
  have hself : (({ s with closing := none }.setConn c fun k =>
      { k with removals := k.removals + 1 }).conns c).closeCallback =
        if s.alive then .removeConnection else .detailRemoveConnection :=
    (field_setConn (s := { s with closing := none }) Conn.closeCallback rfl c).trans
      (h.tabled.callback c hl)
  simp only [State.closeCallback, hself]
  obtain ha | ha := Bool.eq_false_or_eq_true s.alive
  · have hconn : s.connection = some c := (h.tabled.connection c).mpr ⟨ha, hl⟩
    simp [State.removeConnection, State.setConn, State.assert, State.removed, ha, hconn]
    rfl
  · have hconn : s.connection = none := by
      by_contra hne
      obtain ⟨d, hd⟩ := Option.ne_none_iff_exists'.mp hne
      have := ((h.tabled.connection d).mp hd).1
      simp [ha] at this
    simp [State.setConn, State.removed, ha, hconn]

theorem Kept.closeCallback (h : Kept s) (hc : s.closing = some c) (errno : Errno) :
    Kept (s.closeCallback c errno) := by
  obtain ⟨hkept, hnone⟩ := h.removed hc
  rw [h.closeCallback_eq hc]
  split
  · -- a restart: `Connected` with an empty `_channel` is at rest
    rename_i hgo
    simp only [Bool.and_eq_true] at hgo
    have hl := ((h.tabled.closing c).mp hc).1
    have hs : s.connector.state = .connected := (h.linked.live c hl).2
    have hrest : Connector.AtRest s.connector (.restart errno) :=
      ⟨by simp [hs], fun _ => h.ordered.settled c hc⟩
    let k₀ : Connector.State :=
      { s.connector.setState .disconnected with
        retryDelayMs := Connector.initRetryDelayMs, wanted := true }
    exact hkept.attempt k₀ hgo.1 hnone rfl rfl (h.rested.no_timer (by simp [hs]))
      (Connector.step_inv h.rested.inv hrest rfl) (attempted_startInLoop rfl errno)
  · exact hkept

/-- With a connection, the destructor leaves it another close callback, one that does not know
the client.  The connection goes on living without it. -/
theorem Kept.destroyConnected (h : Kept s) (hc : s.connection = some c)
    (hp : s.connector.pendingFunctors = []) :
    Kept ({ s with alive := false, connection := none }.setConn c fun k =>
      { k with closeCallback := .detailRemoveConnection }) := by
  obtain ⟨-, hl⟩ := (h.tabled.connection c).mp hc
  have hs := (h.linked.live c hl).2
  let g : Conn → Conn := fun k => { k with closeCallback := .detailRemoveConnection }
  have hlive : ∀ d, (s.setConn c g).Live d ↔ s.Live d := live_setConn rfl
  have hsock := field_setConn (s := s) (c := c) Conn.sock (g := g) rfl
  have hstate := field_setConn (s := s) (c := c) Conn.state (g := g) rfl
  have hremovals := field_setConn (s := s) (c := c) Conn.removals (g := g) rfl
  have hdestroys := field_setConn (s := s) (c := c) Conn.destroys (g := g) rfl
  refine ⟨{ h.rested with }, ⟨h.tabled.first, fun d => ⟨nofun, fun hd => by cases hd.1⟩, fun d hd => ?_,
    fun d => ?_, fun d hd => ?_, fun d hm hd => ?_, fun d => ?_, fun d hm => ?_⟩,
    ⟨fun d hd => h.linked.live d ((hlive d).mp hd), ?_⟩, ⟨h.ordered.bound, fun d hd => ?_,
    h.ordered.settled, fun d hd => ?_, fun d hd => ?_⟩, ⟨fun _ => .inr hs, fun _ hst => ?_,
    fun _ _ => ⟨hp, ?_⟩⟩, h.failed⟩
  · -- the live connection is the one that `_connection` was
    have h₁ := (h.linked.live d ((hlive d).mp hd)).1
    have h₂ := (h.linked.live c hl).1
    obtain rfl : d = c := by omega
    change ((s.setConn d g).conns d).closeCallback = _
    rw [conns_setConn_self]
    rfl
  · refine (h.tabled.closing d).trans (and_congr (hlive d).symm ?_)
    exact (iff_of_eq (congrArg (· = ConnState.disconnected) (hstate d))).symm
  · exact fun hst => h.tabled.up d ((hlive d).mp hd) ((hstate d).symm.trans hst)
  · have hdown := h.tabled.down d hm fun hld => hd ((hlive d).mpr hld)
    exact ⟨(hstate d).trans hdown.1, (hremovals d).trans hdown.2⟩
  · exact (congrArg (· + _) (hdestroys d)).trans ((h.tabled.destroyed d).trans (hremovals d).symm)
  · exact ⟨(hremovals d).trans (h.tabled.fresh d hm).1, (h.tabled.fresh d hm).2⟩
  · exact h.linked.handed.trans (List.map_congr_left fun d _ => (hsock d).symm)
  · exact h.ordered.ahead d ((hlive d).mp hd)
  · exact h.ordered.polled d ((hlive d).mp hd)
  · exact h.ordered.swapped d ((hlive d).mp hd)
  · change s.connector.state = .connecting at hst
    rw [hs] at hst
    cases hst
  · change s.connector.state ≠ .connecting
    simp [hs]

/-- `stop` queues a `stop_in_loop`, and no more.  The connector is stopped when the loop comes to
it. -/
theorem Kept.stopConnector (h : Kept s) (ha : s.alive = true) :
    Kept (s.onConnector s.connector.stop) := by
  refine kept_onConnector [.stopInLoop] h.rested.functors h.tabled h.linked h.ordered h.failed
    (Connector.step_inv (l := .stop) h.rested.inv trivial rfl) rfl h.rested.timers h.rested.idle rfl
    (fun c hc => ⟨(h.linked.live c hc).2, by simp, .inl rfl⟩) ?_
  have hthere : (s.onConnector s.connector.stop).alive = true := ha
  exact ⟨by simp [hthere], by simp [hthere], by simp [hthere]⟩

theorem Kept.destroy (h : Kept s) (ha : s.alive = true)
    (hg : s.connection ≠ none → s.connector.pendingFunctors = []) (unique : Bool) :
    Kept (s.destroy unique) := by
  cases hc : s.connection with
  | some c =>
    have hm : s.Made c := ((h.tabled.connection c).mp hc).2.1
    have hk := h.destroyConnected hc (hg (by simp [hc]))
    simp only [State.destroy, hc]
    split
    · have hk' := hk.forceClose hm
      rw [hk'.dropConnector]
      exact hk'
    · rw [hk.dropConnector]
      exact hk
  | none =>
    have hnone (d : Nat) : ¬ s.Live d := fun hd => by
      have := (h.tabled.connection d).mpr ⟨ha, hd⟩
      rw [hc] at this
      cases this
    have hk := h.stopConnector ha
    simp only [State.destroy, hc]
    refine ⟨{ hk.rested with }, { hk.tabled with connection := fun d => ?_, callback := fun d hd => ?_ },
      { hk.linked with }, { hk.ordered with }, ⟨fun _ => .inl rfl, fun _ _ => ?_, fun _ hz => ?_⟩,
      hk.failed⟩
    · exact ⟨nofun, fun hd => by cases hd.1⟩
    · exact absurd hd (hnone d)
    · simp [State.onConnector, Connector.State.stop, Connector.State.queueInLoop]
    · cases hz

end Suduo.TcpClient
