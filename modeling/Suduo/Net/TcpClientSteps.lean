/-
# A client that connects again and again: every step

The invariant of `Suduo.Net.TcpClientLife` is kept by every step at rest, and each step is for the
connector nothing, or a step of its own at rest.  The loop's side comes first: `poll`, the swap, and
the three kinds of functors; then the timers and the events of the connecting channel.
-/
import Suduo.Net.TcpClientLife

namespace Suduo.TcpClient

open Lib
open Connector (Sock Errno)
open TcpConnection (ConnState)

variable {s s' : State} {c : Nat} {k : Connector.State}

/-! ## 1. The loop -/

/-- The queue is the same, and the loop is elsewhere in its round.  The two conditions that are
not about the queue say what the loop may handle in the new phase, and what it has swapped out. -/
theorem Kept.setPhase {phase : Phase} (pending : List Functor) (h : Kept s)
    (hq : phase.batch ++ pending = s.queue) (hbound : phase.polledConns ≤ s.nextConnId)
    (hpolled : ∀ c, s.Live c → c < phase.polledConns → s.connector.channel = none)
    (hswapped : ∀ c, s.Live c → phase.handles = false → .connector .resetChannel ∉ pending) :
    Kept { s with phase := phase, pendingFunctors := pending } := by
  refine ⟨{ h.rested with functors := ?_ }, { h.tabled with destroyed := ?_, fresh := ?_ },
    { h.linked with }, ⟨hbound, ?_, h.ordered.settled, hpolled, hswapped⟩, { h.parted with }, h.failed⟩
  · exact (congrArg _ hq).trans h.rested.functors
  · intro c
    change _ + List.count _ (phase.batch ++ pending) = _
    rw [hq]
    exact h.tabled.destroyed c
  · intro c hc
    change _ ∧ _ ∉ phase.batch ++ pending
    rw [hq]
    exact h.tabled.fresh c hc
  · intro c hc
    change Ahead c (phase.batch ++ pending)
    rw [hq]
    exact h.ordered.ahead c hc

/-- When `poll` returns, the `reset_channel` of each connection it can report has been run.
`poll` is called when the batch is done, and all that was queued before the connection was
registered was in a batch by then. -/
theorem Kept.poll (h : Kept s) (hp : s.phase = .running []) :
    Kept { s with phase := .handling s.nextConnId s.connector.created } := by
  have hqueue : s.queue = s.pendingFunctors := by simp [State.queue, hp, Phase.batch]
  refine h.setPhase s.pendingFunctors hqueue.symm (Nat.le_refl _) (fun c hc _ => ?_)
    fun c _ hh => ?_
  · have hno := h.ordered.swapped c hc (by rw [hp]; rfl)
    refine channel_none h.rested.inv (by simp [(h.linked.live c hc).2]) fun hmem => hno ?_
    rwa [h.rested.mem_functors, hqueue] at hmem
  · cases hh

theorem Kept.takeFunctors (h : Kept s) (hp : s.phase.handles = true) :
    Kept { s with phase := .running s.pendingFunctors, pendingFunctors := [] } := by
  refine h.setPhase [] ?_ (Nat.zero_le _) (fun c _ hlt => absurd hlt (Nat.not_lt_zero c))
    fun c _ _ => List.not_mem_nil
  cases hphase : s.phase with
  | handling conns socks => simp [State.queue, hphase, Phase.batch]
  | running batch => simp [hphase, Phase.handles] at hp

/-- The next functor leaves the batch. -/
def State.popped (s : State) (rest : List Functor) : State := { s with phase := .running rest }

section Pop

variable {f : Functor} {rest : List Functor}

theorem queue_popped (hp : s.phase.batch = f :: rest) : s.queue = f :: (s.popped rest).queue := by
  simp only [State.queue, hp]
  rfl

theorem Ordered.popped (h : Ordered s) (hp : s.phase.batch = f :: rest) :
    Ordered (s.popped rest) := by
  have hphase : s.phase.handles = false := by
    cases hs : s.phase with
    | handling conns socks => simp [hs, Phase.batch] at hp
    | running batch => rfl
  refine ⟨Nat.zero_le _, fun c hc => ?_, h.settled, fun c _ hlt => absurd hlt (Nat.not_lt_zero c),
    fun c hc _ => h.swapped c hc hphase⟩
  have hahead := h.ahead c hc
  unfold Ahead at hahead
  rw [queue_popped hp, List.pairwise_cons] at hahead
  exact hahead.2

theorem Tabled.popped (h : Tabled s) (hp : s.phase.batch = f :: rest)
    (hf : ∀ c, f ≠ .connectDestroyed c) : Tabled (s.popped rest) := by
  refine { h with destroyed := fun c => ?_, fresh := fun c hc => ⟨(h.fresh c hc).1, ?_⟩ }
  · have hdes := h.destroyed c
    rw [queue_popped hp, List.count_cons_of_ne (hf c)] at hdes
    exact hdes
  · have hno := (h.fresh c hc).2
    rw [queue_popped hp] at hno
    exact fun hmem => hno (List.mem_cons_of_mem _ hmem)

/-- A functor bound to a connection leaves the connector's where they are: the filter does not
see it. -/
theorem Rested.popped (h : Rested s) (hp : s.phase.batch = f :: rest) (hf : f.ofConnector = none) :
    Rested (s.popped rest) := by
  have hfs := h.functors
  rw [queue_popped hp, List.filterMap_cons_none hf] at hfs
  exact { h with functors := hfs }

/-- `force_close_in_loop` finds a live connection whose `reset_channel` was ahead of it; or one
that is closed already, and does nothing. -/
theorem Kept.runForceClose (h : Kept s) (hp : s.phase.batch = .forceCloseInLoop c :: rest)
    (hnone : s.closing = none) : Kept ((s.popped rest).forceCloseInLoop c) := by
  have hk : Kept (s.popped rest) :=
    ⟨h.rested.popped hp rfl, h.tabled.popped hp nofun, { h.linked with }, h.ordered.popped hp,
      { h.parted with }, h.failed⟩
  unfold State.forceCloseInLoop
  split
  · rename_i ho
    have hmem : .forceCloseInLoop c ∈ s.queue := by
      rw [queue_popped hp]
      exact List.mem_cons_self
    have hm : s.Made c := by
      by_contra hm
      exact (h.tabled.fresh c hm).2 hmem
    have hl : s.Live c := h.tabled.live_of_open ho hm
    have hahead := h.ordered.ahead c hl
    unfold Ahead at hahead
    rw [queue_popped hp, List.pairwise_cons] at hahead
    have hch : s.connector.channel = none := by
      refine channel_none h.rested.inv (by simp [(h.linked.live c hl).2]) fun hres => ?_
      have hres' := hk.rested.mem_functors.mp hres
      exact hahead.1 _ hres' rfl rfl
    exact hk.handleClose hl hnone hch
  · exact hk

/-- `connect_destroyed` finds a connection that is closed, and is run once.  The one functor for
it has left the queue, and there is no other. -/
theorem Kept.runConnectDestroyed (h : Kept s) (hp : s.phase.batch = .connectDestroyed c :: rest) :
    Kept ((s.popped rest).connectDestroyed c) := by
  have hcount : s.queue.count (.connectDestroyed c) =
      (s.popped rest).queue.count (.connectDestroyed c) + 1 := by
    rw [queue_popped hp, List.count_cons_self]
  have hdes := h.tabled.destroyed c
  have hm : s.Made c := by
    by_contra hm
    have := (h.tabled.fresh c hm).1
    omega
  have hl : ¬ s.Live c := fun hl => by
    have := hl.2
    omega
  have hdown := (h.tabled.down c hm hl).1
  let g : Conn → Conn := fun k =>
    { k with
      state := if k.state = .connected then .disconnected else k.state
      destroys := k.destroys + 1 }
  have hlive : ∀ d, (s.setConn c g).Live d ↔ s.Live d := live_setConn rfl
  have hsock := field_setConn (s := s) (c := c) Conn.sock (g := g) rfl
  have hstate := field_setConn (s := s) (c := c) Conn.state (g := g) (by simp [g, hdown])
  have hremovals := field_setConn (s := s) (c := c) Conn.removals (g := g) rfl
  have hcallback := field_setConn (s := s) (c := c) Conn.closeCallback (g := g) rfl
  have hord := h.ordered.popped hp
  have hqueue (f : Functor) (hf : f ∈ (s.popped rest).queue) : f ∈ s.queue := by
    rw [queue_popped hp]
    exact List.mem_cons_of_mem _ hf
  refine ⟨{ h.rested.popped hp rfl with }, ⟨h.tabled.first, fun d => ?_, fun d hd => ?_, fun d => ?_,
    fun d hd => ?_, fun d hm hd => ?_, fun d => ?_, fun d hm => ?_⟩, ⟨fun d hd => ?_, ?_⟩,
    ⟨hord.bound, fun d hd => ?_, hord.settled, fun d hd => ?_, fun d hd => ?_⟩, { h.parted with },
    h.failed⟩
  · exact (h.tabled.connection d).trans (and_congr_right fun _ => (hlive d).symm)
  · exact (hcallback d).trans (h.tabled.callback d ((hlive d).mp hd))
  · refine (h.tabled.closing d).trans (and_congr (hlive d).symm ?_)
    exact (iff_of_eq (congrArg (· = ConnState.disconnected) (hstate d))).symm
  · exact fun hst => h.tabled.up d ((hlive d).mp hd) ((hstate d).symm.trans hst)
  · have hdown := h.tabled.down d hm fun hld => hd ((hlive d).mpr hld)
    exact ⟨(hstate d).trans hdown.1, (hremovals d).trans hdown.2⟩
  · change ((s.setConn c g).conns d).destroys + (s.popped rest).queue.count _ = _
    refine Eq.trans ?_ (hremovals d).symm
    by_cases hdc : d = c
    · subst hdc
      rw [conns_setConn_self]
      change (s.conns d).destroys + 1 + _ = _
      omega
    · have hd := h.tabled.destroyed d
      have hne : Functor.connectDestroyed c ≠ .connectDestroyed d := by simpa using Ne.symm hdc
      rw [queue_popped hp, List.count_cons_of_ne hne] at hd
      rw [conns_setConn_of_ne g hdc]
      exact hd
  · have hfresh := h.tabled.fresh d hm
    exact ⟨(hremovals d).trans hfresh.1, fun hf => hfresh.2 (hqueue _ hf)⟩
  · exact h.linked.live d ((hlive d).mp hd)
  · exact h.linked.handed.trans (List.map_congr_left fun d _ => (hsock d).symm)
  · exact hord.ahead d ((hlive d).mp hd)
  · exact hord.polled d ((hlive d).mp hd)
  · exact hord.swapped d ((hlive d).mp hd)

/-- A functor of the connector is the first of its own queue.  The loop runs its queue in order,
and what is left of it after the filter is the connector's. -/
theorem Rested.next (h : Rested s) {g : Connector.Functor}
    (hp : s.phase.batch = .connector g :: rest) :
    s.connector.pendingFunctors = g :: (s.popped rest).queue.filterMap Functor.ofConnector := by
  rw [← h.functors, queue_popped hp]
  exact List.filterMap_cons_some rfl

/-- A functor of the connector, which is there to be called.  For the connector this is the step
that runs its next functor, and that step is always at rest. -/
theorem Kept.runConnector {g : Connector.Functor} (h : Kept s)
    (hp : s.phase.batch = .connector g :: rest) (hst : (s.popped rest).runConnector = some s') :
    Kept s' ∧ s.connector.step .runFunctor = some s'.connector := by
  have hnext := h.rested.next hp
  have hthere : (s.popped rest).connectorThere = true := h.there (.inl (by simp [hnext]))
  simp only [State.runConnector, hthere, if_true, Option.map_eq_some_iff] at hst
  obtain ⟨k, hk, rfl⟩ := hst
  change s.connector.step .runFunctor = some k at hk
  refine ⟨?_, hk⟩
  have hinv : Connector.Inv k := Connector.step_inv (l := .runFunctor) h.rested.inv trivial hk
  have hord := h.ordered.popped hp
  have htab := h.tabled.popped hp nofun
  let tail := (s.popped rest).queue.filterMap Functor.ofConnector
  let t : State := { s.popped rest with connector := { s.connector with pendingFunctors := tail } }
  have heq : { s.popped rest with
      connector := { s.connector with pendingFunctors := s.connector.pendingFunctors.tail } } = t := by
    simp only [t, tail, hnext, List.tail_cons]
  change Kept (State.onConnector { s.popped rest with
    connector := { s.connector with pendingFunctors := s.connector.pendingFunctors.tail } } k)
  rw [heq]
  have hgo (fs : List Connector.Functor) := kept_onConnector (s := t) (k := k) fs rfl
    { htab with } { h.linked with } { hord with } h.failed hinv
  have hgone (ha : s.alive = false) (hz : s.keepers = 0) : False := by
    have := (h.parted.gone ha hz).1
    rw [hnext] at this
    cases this
  cases Connector.step_cases hk with
  | @runFunctor f rest' _ hp' hrun =>
    rw [hnext, List.cons.injEq] at hp'
    obtain ⟨rfl, rfl⟩ := hp'
    cases g with
    | stopInLoop =>
      obtain ⟨hs, hr⟩ | ⟨hs, rfl⟩ := retried_stopInLoop hrun
      · change s.connector.state = .connecting at hs
        have hts : s.connector.timers = [] := h.rested.no_timer (by simp [hs])
        refine hgo _ hr.queue ?_ (fun _ => hr.state) hr.handed (fun c hc => ?_) ⟨fun ha => .inl ?_,
          fun _ hst => ?_, fun ha hz => (hgone ha hz).elim⟩
        · simpa [hts] using hr.timers
        · exact absurd hc (h.linked.none_live (by simp [hs]) c)
        · exact hr.wanted.trans ((h.parted.mute ha).resolve_right (by simp [hs]))
        · have := hr.state.symm.trans hst
          cases this
      · refine hgo [] (List.append_nil _).symm h.rested.timers h.rested.idle rfl
          (fun c hc => ⟨(h.linked.live c hc).2, List.not_mem_nil, .inl rfl⟩)
          ⟨h.parted.mute, fun _ hst => absurd hst hs, fun ha hz => (hgone ha hz).elim⟩
    | resetChannel =>
      cases hrun
      refine hgo [] (List.append_nil _).symm h.rested.timers h.rested.idle rfl
        (fun c hc => ⟨(h.linked.live c hc).2, List.not_mem_nil, .inr rfl⟩)
        ⟨h.parted.mute, fun ha hst => ?_, fun ha hz => (hgone ha hz).elim⟩
      have hmem := h.parted.stopping ha hst
      rw [hnext] at hmem
      exact (List.mem_cons.mp hmem).resolve_left nofun

end Pop

/-! ## 2. The connector is started, and its events -/

theorem Kept.connect {errno : Errno} (h : Kept s) (ha : s.alive = true)
    (hg : AtRest s (.connect errno)) : Kept (s.connect errno) := by
  have hk := h.setFlags s.retry true
  have hs : s.connector.state = .disconnected := hg.1.1
  let k₀ : Connector.State := { s.connector with wanted := true }
  exact hk.attempt k₀ ha (h.linked.none_live (by simp [hs])) rfl rfl hg.2
    (Connector.step_inv h.rested.inv hg.1 rfl) (attempted_startInLoop (k := k₀) hs errno)

theorem Kept.keeperFires (h : Kept s) (hp : s.connector.pendingFunctors = []) :
    Kept { s with keepers := s.keepers - 1 } := by
  refine ⟨{ h.rested with }, { h.tabled with }, { h.linked with }, { h.ordered with },
    { h.parted with gone := fun ha _ => ⟨hp, fun hs => ?_⟩ }, h.failed⟩
  have hmem := h.parted.stopping ha hs
  rw [hp] at hmem
  cases hmem

/-- A retry timer fires into a connector that is disconnected and has no other.  What the
condition asks of time is used here: the `reset_channel` of the attempt that was retried has been
run, half a second ago. -/
theorem Kept.timerFires {i : Nat} {errno : Errno} (h : Kept s) (hg : AtRest s (.timerFires i errno))
    (hst : s.timerFires i errno = some s') :
    Kept s' ∧ Connector.AtRest s.connector (.timerFires i errno) ∧
      s.connector.step (.timerFires i errno) = some s'.connector := by
  simp only [State.timerFires, Option.map_eq_some_iff] at hst
  obtain ⟨k, hk, rfl⟩ := hst
  cases Connector.step_cases hk with
  | timerFires hi =>
    have hs : s.connector.state = .disconnected := by
      refine h.rested.idle fun hnil => ?_
      simp [hnil] at hi
    have hrest : Connector.AtRest s.connector (.timerFires i errno) := ⟨hs, hg⟩
    let k₀ : Connector.State := { s.connector with timers := s.connector.timers.eraseIdx i }
    have hnil : k₀.timers = [] := by
      have hlen := h.rested.timers
      refine List.eq_nil_of_length_eq_zero ?_
      rw [List.length_eraseIdx_of_lt hi]
      omega
    have hinv := Connector.step_inv h.rested.inv hrest hk
    have hnone := h.linked.none_live (by simp [hs])
    have hkept : Kept (s.onConnector (k₀.startInLoop errno)) := by
      obtain ha | ha := Bool.eq_false_or_eq_true s.alive
      · exact h.attempt k₀ ha hnone rfl rfl hnil hinv
          (attempted_startInLoop (k := k₀) hs errno)
      · -- the client is gone, and no connection is wanted
        have hw : s.connector.wanted = false := (h.parted.mute ha).resolve_right (by simp [hs])
        have hsame : k₀.startInLoop errno = k₀ := by
          rw [Connector.startInLoop_eq (c := k₀) hs, if_neg (by simp [k₀, hw])]
        rw [hsame]
        refine kept_onConnector [] h.rested.functors h.tabled h.linked h.ordered h.failed
          (hsame ▸ hinv) (List.append_nil _).symm (by simp [hnil]) (fun hne => absurd hnil hne) rfl
          (fun c hc => absurd hc (hnone c)) { h.parted with }
    have heq : (s.onConnector (k₀.startInLoop errno)).dropConnector.connector =
        k₀.startInLoop errno := by
      rw [hkept.dropConnector]
      rfl
    refine ⟨?_, hrest, hk.trans (congrArg some heq.symm)⟩
    change Kept (s.onConnector (k₀.startInLoop errno)).dropConnector
    rw [hkept.dropConnector]
    exact hkept

section NewConnection

variable {sock : Sock}

/-- The connector has become `k`, and `new_connection` has made the next connection of `sock`. -/
def State.connected (s : State) (k : Connector.State) (sock : Sock) : State :=
  { s with
    connector := k, nextConnId := s.nextConnId + 1, connection := some s.nextConnId
    pendingFunctors := s.pendingFunctors ++ [.connector .resetChannel]
    conns := Function.update s.conns s.nextConnId ⟨sock, .connected, .removeConnection, 0, 0⟩ }

/-- The connector has handed `sock` over, at the end of its attempt: it is `Connected`, it has
queued the `reset_channel`, and nothing else about it has changed. -/
def HandsOver (s : State) (k : Connector.State) (sock : Sock) : Prop :=
  k = { s.connector with
    state := .connected, channel := k.channel, handed := s.connector.handed ++ [sock]
    pendingFunctors := s.connector.pendingFunctors ++ [.resetChannel] }

theorem newConnection_eq (ha : s.alive = true) (heq : HandsOver s k sock) :
    (s.onConnector k).newConnection sock = s.connected k sock := by
  have hq : k.pendingFunctors = s.connector.pendingFunctors ++ [.resetChannel] :=
    congrArg Connector.State.pendingFunctors heq
  simp [State.connected, State.newConnection, State.onConnector, State.setConn, Conn.setState, ha, hq]

theorem conns_connected_self :
    (s.connected k sock).conns s.nextConnId = ⟨sock, .connected, .removeConnection, 0, 0⟩ := by
  simp [State.connected]

theorem conns_connected_of_ne {d : Nat} (hd : d ≠ s.nextConnId) :
    (s.connected k sock).conns d = s.conns d := by
  simp [State.connected, hd]

theorem queue_connected : (s.connected k sock).queue = s.queue ++ [.connector .resetChannel] := by
  simp [State.connected, State.queue]

theorem made_connected (h : Tabled s) : (s.connected k sock).Made s.nextConnId :=
  ⟨h.first, Nat.lt_succ_self _⟩

/-- A connection of the new state that is not the new one was made before. -/
theorem made_of_connected {d : Nat} (hm : (s.connected k sock).Made d) (hd : d ≠ s.nextConnId) : s.Made d :=
  ⟨hm.1, Nat.lt_of_le_of_ne (Nat.le_of_lt_succ hm.2) hd⟩

/-- The new connection is the only one that lives.  Those before it have ended, since no
connection lives while an attempt is under way. -/
theorem live_connected (h : Tabled s) (hnone : ∀ d, ¬ s.Live d) (d : Nat) :
    (s.connected k sock).Live d ↔ d = s.nextConnId := by
  constructor
  · rintro ⟨hm, hr⟩
    by_contra hd
    rw [conns_connected_of_ne hd] at hr
    exact hnone d ⟨made_of_connected hm hd, hr⟩
  · rintro rfl
    exact ⟨made_connected h, congrArg Conn.removals conns_connected_self⟩

/-- The new connection's number was not made before, so nothing of it is in the queue. -/
theorem Tabled.fresh_next (h : Tabled s) :
    (s.conns s.nextConnId).removals = 0 ∧ .forceCloseInLoop s.nextConnId ∉ s.queue :=
  h.fresh s.nextConnId fun hm => absurd hm.2 (Nat.lt_irrefl _)

theorem Rested.connected (h : Rested s) (hinv : Connector.Inv k) (heq : HandsOver s k sock)
    (hts : k.timers = []) : Rested (s.connected k sock) := by
  refine ⟨hinv, ?_, ?_, ?_⟩
  · rw [queue_connected, List.filterMap_append, h.functors]
    exact (congrArg Connector.State.pendingFunctors heq).symm
  · change k.timers.length ≤ 1
    simp [hts]
  · intro hne
    exact absurd hts hne

theorem Tabled.connected (h : Tabled s) (ha : s.alive = true) (hnone : ∀ d, ¬ s.Live d) :
    Tabled (s.connected k sock) := by
  have hlive : ∀ d, (s.connected k sock).Live d ↔ d = s.nextConnId := live_connected h hnone
  refine ⟨Nat.le_add_left 1 _, ?_, ?_, ?_, ?_, ?_, ?_, ?_⟩
  · intro d
    refine Iff.trans ?_ (and_congr_right fun _ => (hlive d).symm)
    change some s.nextConnId = some d ↔ s.alive = true ∧ d = s.nextConnId
    simp [ha, eq_comm]
  · intro d hd
    rw [(hlive d).mp hd, conns_connected_self]
    exact (if_pos ha).symm
  · intro d
    rw [hlive d]
    refine ⟨fun hd => absurd ((h.closing d).mp hd).1 (hnone d), ?_⟩
    rintro ⟨rfl, hst⟩
    rw [conns_connected_self] at hst
    cases hst
  · intro d hd
    rw [(hlive d).mp hd, conns_connected_self]
    intro hst
    cases hst
  · intro d hm hd
    have hne : d ≠ s.nextConnId := fun heq => hd ((hlive d).mpr heq)
    rw [conns_connected_of_ne hne]
    exact h.down d (made_of_connected hm hne) (hnone d)
  · intro d
    have hdes := h.destroyed d
    have hno : Functor.connectDestroyed d ∉ [Functor.connector .resetChannel] := by simp
    rw [queue_connected, List.count_append, List.count_eq_zero_of_not_mem hno]
    by_cases hd : d = s.nextConnId
    · subst hd
      have hfresh := h.fresh_next.1
      rw [conns_connected_self]
      change 0 + (s.queue.count _ + 0) = 0
      omega
    · rw [conns_connected_of_ne hd]
      exact hdes
  · intro d hm
    have hne : d ≠ s.nextConnId := by
      rintro rfl
      exact hm (made_connected h)
    have hfresh := h.fresh d fun hm' => hm ⟨hm'.1, Nat.lt_succ_of_lt hm'.2⟩
    rw [conns_connected_of_ne hne, queue_connected]
    exact ⟨hfresh.1, by simp [hfresh.2]⟩

theorem Linked.connected (h : Linked s) (ht : Tabled s) (hnone : ∀ d, ¬ s.Live d) (heq : HandsOver s k sock) :
    Linked (s.connected k sock) := by
  refine ⟨?_, ?_⟩
  · intro d hd
    obtain rfl := (live_connected ht hnone d).mp hd
    exact ⟨rfl, congrArg Connector.State.state heq⟩
  · change k.handed = (List.range' 1 s.nextConnId).map fun c => ((s.connected k sock).conns c).sock
    obtain ⟨m, hm⟩ : ∃ m, s.nextConnId = 1 + m := ⟨s.nextConnId - 1, by have := ht.first; omega⟩
    have hold : (List.range' 1 m).map (fun c => ((s.connected k sock).conns c).sock) = s.connector.handed := by
      rw [h.handed, hm, Nat.add_sub_cancel_left]
      refine List.map_congr_left ?_
      intro d hd
      have hlt := (List.mem_range'_1.mp hd).2
      exact congrArg Conn.sock (conns_connected_of_ne (by omega))
    have hlast : ((s.connected k sock).conns (1 + m)).sock = sock := by
      rw [← hm, conns_connected_self]
    have hhanded : k.handed = s.connector.handed ++ [sock] := congrArg Connector.State.handed heq
    rw [hm, Nat.add_comm 1 m, List.range'_1_concat, List.map_append, hold, List.map_singleton, hlast, hhanded]

theorem Ordered.connected (h : Ordered s) (ht : Tabled s) (hnone : ∀ d, ¬ s.Live d)
    (hphase : s.phase.handles = true) : Ordered (s.connected k sock) := by
  have hlive : ∀ d, (s.connected k sock).Live d ↔ d = s.nextConnId := live_connected ht hnone
  refine ⟨Nat.le_succ_of_le h.bound, ?_, ?_, ?_, ?_⟩
  · intro d hd
    have hfresh := ht.fresh_next.2
    unfold Ahead
    rw [queue_connected, (hlive d).mp hd, List.pairwise_append]
    refine ⟨List.Pairwise.imp_of_mem (R := fun _ _ => True) ?_ ?_, List.pairwise_singleton _ _, ?_⟩
    · intro f g hf _ _ hfc
      exact absurd (hfc ▸ hf) hfresh
    · exact List.pairwise_of_forall fun _ _ => trivial
    · intro f hf g _ hfc
      exact absurd (hfc ▸ hf) hfresh
  · intro d hd
    exact absurd ((ht.closing d).mp hd).1 (hnone d)
  · intro d hd hlt
    rw [(hlive d).mp hd] at hlt
    exact absurd h.bound (Nat.not_le.mpr hlt)
  · intro d _ hp
    change s.phase.handles = false at hp
    rw [hphase] at hp
    cases hp

/-- `new_connection`, for the socket that ends an attempt.  Each part of the invariant has its
own lemma above; the one that needs the loop's phase is the order of the queue. -/
theorem Kept.newConnection (h : Kept s) (ha : s.alive = true) (hphase : s.phase.handles = true)
    (hs : s.connector.state = .connecting) (hinv : Connector.Inv k) (heq : HandsOver s k sock) :
    Kept ((s.onConnector k).newConnection sock) := by
  have hnone := h.linked.none_live (by simp [hs])
  have hts : k.timers = [] := (congrArg Connector.State.timers heq).trans (h.rested.no_timer (by simp [hs]))
  have hthere (hdead : (s.connected k sock).alive = false) : False := by
    rw [show (s.connected k sock).alive = true from ha] at hdead
    cases hdead
  rw [newConnection_eq ha heq]
  exact ⟨h.rested.connected hinv heq hts, h.tabled.connected ha hnone, h.linked.connected h.tabled hnone heq,
    h.ordered.connected h.tabled hnone hphase,
    ⟨fun hd => (hthere hd).elim, fun hd => (hthere hd).elim, fun hd => (hthere hd).elim⟩, h.failed⟩

end NewConnection

/-- What an event of the connecting channel comes to: nothing, the end of the attempt, or a new
connection.  The third needs a client, and one that still wants a connection. -/
inductive Handled (s : State) (k : Connector.State) : State → Prop
  | nothing (heq : k = s.connector) : Handled s k s
  | ended (hend : Ended s.connector k) (hh : k.handed = s.connector.handed) :
      Handled s k (s.onConnector k)
  | connected (sock : Sock) (hw : s.connector.wanted = true) (heq : HandsOver s k sock) :
      Handled s k ((s.onConnector k).newConnection sock)

theorem Kept.connectorEvent_cases {e : Connector.State.Event} (h : Kept s)
    (hch : s.connector.channel ≠ none) (hst : s.connectorEvent e = some s') :
    s.connector.state = .connecting ∧
      ∃ k, s.connector.step (.event e) = some k ∧ Handled s k s' := by
  have hthere : s.connectorThere = true := by
    by_contra hno
    obtain ⟨ha, hz, -⟩ := connectorThere_eq_false.mp (Bool.eq_false_iff.mpr hno)
    obtain ⟨hp, hs⟩ := h.parted.gone ha hz
    exact hch (channel_none h.rested.inv hs (by simp [hp]))
  simp only [State.connectorEvent, hthere, if_true, Option.map_eq_some_iff] at hst
  obtain ⟨k, hk, rfl⟩ := hst
  obtain ⟨hs, rfl | hend⟩ := event_ends h.rested.inv hk
  · refine ⟨hs, _, hk, ?_⟩
    have hsame : s.onConnector s.connector = s := by simp [State.onConnector]
    rw [hsame, List.drop_length]
    exact .nothing rfl
  · refine ⟨hs, k, hk, ?_⟩
    cases hend with
    | retried hr =>
      rw [hr.handed, List.drop_length]
      exact .ended (.retried hr) hr.handed
    | handed sock hw heq =>
      have hh : k.handed = s.connector.handed ++ [sock] := congrArg Connector.State.handed heq
      rw [hh, List.drop_left]
      exact .connected sock hw heq
    | dropped sock hw heq =>
      have hh : k.handed = s.connector.handed := by rw [heq]
      rw [hh, List.drop_length]
      exact .ended (.dropped sock hw heq) hh

/-- An attempt ends and hands nothing over.  It is retried, or its socket is closed because
nobody wants it. -/
theorem Kept.ended (h : Kept s) (hs : s.connector.state = .connecting) (hinv : Connector.Inv k)
    (hend : Ended s.connector k) (hh : k.handed = s.connector.handed) : Kept (s.onConnector k) := by
  have hts : s.connector.timers = [] := h.rested.no_timer (by simp [hs])
  have hnone (c : Nat) := h.linked.none_live (by simp [hs]) c
  have hgone (ha : s.alive = false) (hz : s.keepers = 0) : False := (h.parted.gone ha hz).2 hs
  have hmute (ha : s.alive = false) : s.connector.wanted = false :=
    (h.parted.mute ha).resolve_right (by simp [hs])
  have hgo := kept_onConnector [.resetChannel] h.rested.functors h.tabled h.linked h.ordered
    h.failed hinv
  cases hend with
  | retried hr =>
    refine hgo hr.queue (by simpa [hts] using hr.timers) (fun _ => hr.state) hh
      (fun c hc => absurd hc (hnone c)) ⟨fun ha => .inl (hr.wanted.trans (hmute ha)), fun _ hst => ?_,
        fun ha hz => (hgone ha hz).elim⟩
    have := hr.state.symm.trans hst
    cases this
  | handed sock hw heq =>
    have := (congrArg Connector.State.handed heq).symm.trans hh
    simp at this
  | dropped sock hw heq =>
    have hks : k.state = .connected := congrArg Connector.State.state heq
    have hkt : k.timers = [] := (congrArg Connector.State.timers heq).trans hts
    refine hgo (congrArg Connector.State.pendingFunctors heq) (by simp [hkt])
      (fun hne => absurd hkt hne) hh (fun c hc => absurd hc (hnone c))
      ⟨fun _ => .inr hks, fun _ hst => ?_, fun ha hz => (hgone ha hz).elim⟩
    have := hks.symm.trans hst
    cases this

theorem Kept.connectorEvent {e : Connector.State.Event} (h : Kept s) (hp : s.phase.handles = true)
    (hch : s.connector.channel ≠ none) (hst : s.connectorEvent e = some s') :
    Kept s' ∧ s.connector.step (.event e) = some s'.connector := by
  obtain ⟨hs, k, hk, hcases⟩ := h.connectorEvent_cases hch hst
  have hinv : Connector.Inv k := Connector.step_inv (l := .event e) h.rested.inv trivial hk
  cases hcases with
  | nothing heq => exact ⟨h, heq ▸ hk⟩
  | ended hend hh => exact ⟨h.ended hs hinv hend hh, hk⟩
  | connected sock hw heq =>
    have ha : s.alive = true := by
      by_contra hno
      have := (h.parted.mute (Bool.eq_false_iff.mpr hno)).resolve_right (by simp [hs])
      rw [hw] at this
      cases this
    refine ⟨h.newConnection ha hp hs hinv heq, ?_⟩
    have hsame : ((s.onConnector k).newConnection sock).connector = k := by
      simp [State.newConnection, State.onConnector, State.setConn, ha]
    rw [hsame]
    exact hk

/-! ## 3. One step -/

/-- What a step comes to for the connector: nothing, or a step of its own at rest.  A client step
never makes two of them. -/
def Follows (k k' : Connector.State) : Prop :=
  k' = k ∨ ∃ l, Connector.AtRest k l ∧ k.step l = some k'

theorem connector_shutdown (c : Nat) : (s.shutdown c).connector = s.connector := by
  unfold State.shutdown
  split <;> rfl

theorem connector_forceClose (c : Nat) : (s.forceClose c).connector = s.connector := by
  unfold State.forceClose
  split <;> rfl

/-- An event of the connecting channel was reported, so there is one. -/
theorem channel_of_polled {e : Connector.State.Event} (h : s.Enabled (.connectorEvent e)) :
    s.connector.channel ≠ none := by
  intro hno
  have hpolled := h.2
  rw [hno] at hpolled
  cases hpolled

theorem connector_handleClose (c : Nat) : (s.handleClose c).connector = s.connector := by
  unfold State.handleClose State.assert
  split <;> rfl

theorem Kept.follows_destroy (h : Kept s)
    (hg : s.connection ≠ none → s.connector.pendingFunctors = []) (unique : Bool) :
    Follows s.connector (s.destroy unique).connector := by
  cases hc : s.connection with
  | some c =>
    have hm : s.Made c := ((h.tabled.connection c).mp hc).2.1
    have hk := h.destroyConnected hc (hg (by simp [hc]))
    refine .inl ?_
    simp only [State.destroy, hc]
    split
    · rw [(hk.forceClose hm).dropConnector, connector_forceClose]
      rfl
    · rw [hk.dropConnector]
      rfl
  | none =>
    simp only [State.destroy, hc]
    exact .inr ⟨.stop, trivial, rfl⟩

/-- **One step.**  Every step of the client that is at rest keeps the invariant, and is for the
connector nothing or a step at rest.  There is one lemma for each label, and the condition is
used for those of the user, of time and of a second hang-up only. -/
theorem step_kept {l : Label} (h : Kept s) (hg : AtRest s l) (hst : s.step l = some s') :
    Kept s' ∧ Follows s.connector s'.connector := by
  obtain ⟨hen, htake⟩ := step_taken hst
  cases l with
  | connect errno =>
    cases htake
    exact ⟨h.connect hen hg, .inr ⟨_, hg.1, rfl⟩⟩
  | disconnect =>
    cases htake
    have hk := h.setFlags s.retry false
    cases hc : s.connection with
    | none =>
      simp only [State.disconnect, hc]
      rw [hc] at hk
      exact ⟨hk, .inl rfl⟩
    | some c =>
      have hm : s.Made c := ((h.tabled.connection c).mp hc).2.1
      simp only [State.disconnect, hc]
      rw [hc] at hk
      exact ⟨hk.shutdown hm, .inl (connector_shutdown c)⟩
  | stop =>
    cases htake
    exact ⟨(h.setFlags s.retry false).stopConnector hen, .inr ⟨.stop, trivial, rfl⟩⟩
  | enableRetry =>
    cases htake
    exact ⟨h.setFlags true s.wanted, .inl rfl⟩
  | destroy unique =>
    cases htake
    exact ⟨h.destroy hen hg unique, h.follows_destroy hg unique⟩
  | shutdown c =>
    cases htake
    exact ⟨h.shutdown hen, .inl (connector_shutdown c)⟩
  | forceClose c =>
    cases htake
    exact ⟨h.forceClose hen, .inl (connector_forceClose c)⟩
  | poll =>
    cases htake
    exact ⟨h.poll hen.1, .inl rfl⟩
  | connectorEvent e =>
    obtain ⟨hk, hstep⟩ := h.connectorEvent hen.1.1 (channel_of_polled hen) htake
    exact ⟨hk, .inr ⟨.event e, trivial, hstep⟩⟩
  | timerFires i errno =>
    obtain ⟨hk, hrest, hstep⟩ := h.timerFires hg htake
    exact ⟨hk, .inr ⟨_, hrest, hstep⟩⟩
  | keeperFires =>
    cases htake
    have hk := h.keeperFires hg
    rw [hk.dropConnector]
    exact ⟨hk, .inl rfl⟩
  | closeEvent c =>
    cases htake
    obtain ⟨⟨-, hnone⟩, hm, hlt, -⟩ := hen
    have hl := h.tabled.live_of_open hg hm
    exact ⟨h.handleClose hl hnone (h.ordered.polled c hl hlt), .inl (connector_handleClose c)⟩
  | closeCallback errno =>
    simp only [State.take, Option.map_eq_some_iff] at htake
    obtain ⟨c, hc, rfl⟩ := htake
    refine ⟨h.closeCallback hc errno, ?_⟩
    rw [h.closeCallback_eq hc]
    split
    · have hs := (h.linked.live c ((h.tabled.closing c).mp hc).1).2
      exact .inr ⟨.restart errno, ⟨by simp [hs], fun _ => h.ordered.settled c hc⟩, rfl⟩
    · exact .inl rfl
  | takeFunctors =>
    cases htake
    exact ⟨h.takeFunctors hen.1, .inl rfl⟩
  | runFunctor =>
    simp only [State.take] at htake
    split at htake
    · rename_i f rest hp
      cases f with
      | connector g =>
        obtain ⟨hk, hstep⟩ := h.runConnector hp htake
        exact ⟨hk, .inr ⟨.runFunctor, trivial, hstep⟩⟩
      | forceCloseInLoop c =>
        cases htake
        refine ⟨h.runForceClose hp hen.2, .inl ?_⟩
        simp only [State.forceCloseInLoop]
        split
        · exact connector_handleClose c
        · rfl
      | connectDestroyed c =>
        cases htake
        exact ⟨h.runConnectDestroyed hp, .inl rfl⟩
    · cases htake

end Suduo.TcpClient
