/-
# How often a connection is closed

`handle_close` sets the state to `Disconnected` and clears the channel's mask, but an empty mask is no
removal: the descriptor stays in epoll until `connect_destroyed`, and on a server that is two functors
and a trip through another loop away.  `handle_close` itself tests nothing (its assertion is gone in a
release build), so a hang-up reported in between runs it again, callbacks and all.

Every OTHER way to it is guarded by the state: `force_close_in_loop`, the delayed `force_close`,
`connect_destroyed`.  So with calls from the loop thread a connection is closed at most once exactly as
long as no event closes it when it is closed already, or twice by itself.
-/
import Suduo.Net.TcpFrame

namespace Suduo.TcpConnection

open Lib

/-! ## 1. The guard -/

/-- No other thread calls the connection in this step. -/
def Label.onLoop : Label → Bool
  | .event e => e.closeActs.all State.Act.onLoop && e.readActs.all State.Act.onLoop
  | .runFunctor acts _ | .serverDestroys acts => acts.all State.Act.onLoop
  | .act a => a.onLoop
  | .delayFires | .removeConnectionInLoop | .serverQueuesDestroy => true

/-- The event reads the end of the stream. -/
def State.Event.readsEnd (e : State.Event) : Bool :=
  Channel.readable e.revents && (match e.readv with | .ok [] => true | _ => false)

/-- All calls come from the loop thread. -/
def CallsOnLoop (_ : State) (l : Label) : Prop := l.onLoop = true

instance (c : State) (l : Label) : Decidable (CallsOnLoop c l) :=
  inferInstanceAs (Decidable (_ = true))

/-- No event hangs up on, or reads the end of, a connection that is closed, nor does both.  All
calls come from the loop thread; a store of another thread could take the state back from
`Disconnected`. -/
def ClosesOnce (c : State) (l : Label) : Prop :=
  l.onLoop = true ∧
  match l with
  | .event e =>
    (c.state = .disconnected → Channel.hangsUp e.revents = false ∧ e.readsEnd = false) ∧
      ¬ (Channel.hangsUp e.revents = true ∧ e.readsEnd = true)
  | _ => True

instance (c : State) (l : Label) : Decidable (ClosesOnce c l) :=
  match l with
  | .event e => inferInstanceAs (Decidable (_ = true ∧
      ((c.state = .disconnected → Channel.hangsUp e.revents = false ∧ e.readsEnd = false) ∧
        ¬ (Channel.hangsUp e.revents = true ∧ e.readsEnd = true))))
  | .runFunctor _ _ | .act _ | .delayFires | .removeConnectionInLoop | .serverQueuesDestroy
  | .serverDestroys _ => inferInstanceAs (Decidable (_ = true ∧ True))

/-! ## 2. Steps that close nothing -/

/-- Nothing is closed between `c` and `c'`, and no second `connect_established` is queued. -/
structure Calm (c c' : State) : Prop where
  closes : c'.closes = c.closes
  downs : c'.downs = c.downs
  closeCallbacks : c'.closeCallbacks = c.closeCallbacks
  down : c'.state = .disconnected ↔ c.state = .disconnected
  connecting : c'.state = .connecting ↔ c.state = .connecting
  functors : ∃ fs, c'.pendingFunctors = c.pendingFunctors ++ fs ∧ .connectEstablished ∉ fs

variable {c c' c'' : State}

/-- A step that leaves all of this alone is calm. -/
theorem Calm.of_eq (hc : c'.closes = c.closes) (hd : c'.downs = c.downs)
    (hcb : c'.closeCallbacks = c.closeCallbacks) (hs : c'.state = c.state)
    (hf : c'.pendingFunctors = c.pendingFunctors) : Calm c c' :=
  ⟨hc, hd, hcb, by rw [hs], by rw [hs], [], by simp [hf], by simp⟩

theorem Calm.trans (h : Calm c c') (h' : Calm c' c'') : Calm c c'' := by
  obtain ⟨fs, hfs, hno⟩ := h.functors
  obtain ⟨gs, hgs, hno'⟩ := h'.functors
  refine ⟨h'.closes.trans h.closes, h'.downs.trans h.downs,
    h'.closeCallbacks.trans h.closeCallbacks, h'.down.trans h.down,
    h'.connecting.trans h.connecting, fs ++ gs, ?_, ?_⟩
  · rw [hgs, hfs, List.append_assoc]
  · simp [hno, hno']

/-- A frame on the loop thread closes nothing. -/
theorem Frame.calm {reads : Bool} (h : Frame (Posts reads) (Moves true) c c') : Calm c c' := by
  obtain ⟨fs, hfs, hposts⟩ := h.functors
  refine ⟨h.closes, h.downs, h.closeCallbacks, ?_, ?_, fs, hfs, fun hmem => (hposts _ hmem).1 rfl⟩
  · rcases h.state with hs | ⟨hs, ho⟩
    · rw [hs]
    · rcases ho rfl with ho | ho <;> simp [hs, ho]
  · rcases h.state with hs | ⟨hs, ho⟩
    · rw [hs]
    · rcases ho rfl with ho | ho <;> simp [hs, ho]

/-- Nor does a piece on the loop. -/
theorem Frame.calmLoop (h : Frame Queues Eq c c') : Calm c c' :=
  (h.ofLoop : Frame (Posts false) (Moves true) c c').calm

/-- No call from the loop thread closes anything by itself: `force_close` only queues. -/
theorem calm_act {a : State.Act} (ha : a.onLoop = true) (h : c.act a = some c') : Calm c c' := by
  have hframe := frame_act h
  rw [ha] at hframe
  exact hframe.calm

theorem calm_callback {acts : List State.Act} (ha : acts.all State.Act.onLoop = true)
    (h : c.callback acts = some c') : Calm c c' := by
  have hframe := frame_callback h
  rw [ha] at hframe
  exact hframe.calm

/-! ## 3. Steps that close -/

/-- **Closed at most once**: nothing was closed while the state is not `Disconnected`, and the
user has heard of it once when it is.  Until `connect_established` has run, it is first in the
queue and the kernel does not know the descriptor; afterwards it is not in the queue again. -/
structure Once (c : State) : Prop where
  fresh : c.state ≠ .disconnected → c.closes = 0 ∧ c.downs = 0 ∧ c.closeCallbacks = 0
  down : c.state = .disconnected → c.downs = 1
  closes : c.closes ≤ 1
  closeCallbacks : c.closeCallbacks ≤ 1
  connecting : c.state = .connecting → c.channel.interest = none ∧
    ∃ rest, c.pendingFunctors = .connectEstablished :: rest ∧ .connectEstablished ∉ rest
  started : c.state ≠ .connecting → .connectEstablished ∉ c.pendingFunctors

theorem Once.downs_le (h : Once c) : c.downs ≤ 1 := by
  by_cases hd : c.state = .disconnected
  · exact (h.down hd).le
  · rw [(h.fresh hd).2.1]
    exact Nat.zero_le 1

theorem once_init (loopThread : Tid) (client : Bool) (mark : Nat) (wc hw : Bool) :
    Once (.init loopThread client mark wc hw) := by
  constructor <;> simp [State.init, Channel.new]

/-- Once started, a calm step keeps the count: of `handle_close`, and of the removals that come
of it. -/
theorem Once.calm (h : Once c) (hs : c.state ≠ .connecting) (hc : Calm c c') : Once c' := by
  obtain ⟨fs, hfs, hno⟩ := hc.functors
  have hs' : c'.state ≠ .connecting := fun hh => hs (hc.connecting.mp hh)
  refine ⟨?_, ?_, ?_, ?_, fun hh => absurd hh hs', fun _ => ?_⟩
  · intro hd
    rw [hc.closes, hc.downs, hc.closeCallbacks]
    exact h.fresh fun hh => hd (hc.down.mpr hh)
  · intro hd
    rw [hc.downs]
    exact h.down (hc.down.mp hd)
  · rw [hc.closes]; exact h.closes
  · rw [hc.closeCallbacks]; exact h.closeCallbacks
  · rw [hfs, List.mem_append, not_or]
    exact ⟨h.started hs, hno⟩

/-- What a step keeps: the count, and `Disconnected` for ever. -/
def Keeps (c c' : State) : Prop := Once c' ∧ (c.state = .disconnected → c'.state = .disconnected)

theorem Once.keeps_of_calm (h : Once c) (hs : c.state ≠ .connecting) (hc : Calm c c') :
    Keeps c c' := ⟨h.calm hs hc, hc.down.mpr⟩

theorem Keeps.trans (h : Keeps c c') (h' : Keeps c' c'') : Keeps c c'' :=
  ⟨h'.1, fun hd => h'.2 (h.2 hd)⟩

/-- What `handle_close` does, whatever its callbacks do. -/
theorem handleClose_spec {acts : List State.Act} (ha : acts.all State.Act.onLoop = true)
    (hst : c.handleClose acts = some c') :
    c'.closes = c.closes + 1 ∧ c'.downs = c.downs + 1 ∧
      c'.closeCallbacks = c.closeCallbacks + 1 ∧ c'.state = .disconnected ∧
      ∃ fs, c'.pendingFunctors = c.pendingFunctors ++ fs ∧ .connectEstablished ∉ fs := by
  simp only [State.handleClose, Option.bind_eq_bind, Option.bind_eq_some_iff] at hst
  obtain ⟨c₁, hcall, hst⟩ := hst
  have hc := calm_callback ha hcall
  have hcloses : c₁.closes = c.closes + 1 := hc.closes
  have hdowns : c₁.downs = c.downs + 1 := hc.downs
  have hcbs : c₁.closeCallbacks = c.closeCallbacks := hc.closeCallbacks
  have hdown : c₁.state = .disconnected := hc.down.mpr rfl
  obtain ⟨fs, hfs, hno⟩ := hc.functors
  cases hst
  split
  · refine ⟨hcloses, hdowns, congrArg (· + 1) hcbs, hdown, fs ++ [.connectDestroyed], ?_, ?_⟩
    · simp only [State.queueInLoop]
      rw [hfs, List.append_assoc]
      rfl
    · simpa using hno
  · exact ⟨hcloses, hdowns, congrArg (· + 1) hcbs, hdown, fs, hfs, hno⟩

/-- `handle_close` on a connection that is open: the count goes from none to one, and the state
says that it has. -/
theorem Once.handleClose {acts : List State.Act} (h : Once c)
    (ha : acts.all State.Act.onLoop = true) (hs : c.state ≠ .connecting)
    (hd : c.state ≠ .disconnected) (hst : c.handleClose acts = some c') :
    Once c' ∧ c'.state = .disconnected := by
  obtain ⟨hcl, hdn, hcb⟩ := h.fresh hd
  obtain ⟨hcl', hdn', hcb', hdown, fs, hfs, hno⟩ := handleClose_spec ha hst
  refine ⟨⟨fun hh => absurd hdown hh, fun _ => by omega, by omega, by omega, ?_, fun _ => ?_⟩,
    hdown⟩
  · intro hh
    rw [hdown] at hh
    cases hh
  · rw [hfs, List.mem_append, not_or]
    exact ⟨h.started hs, hno⟩

/-- **`handle_read`, taken apart**: at the end of the stream it closes, else it closes nothing. -/
theorem handleRead_cases {readv : Except Nat (List Byte)} {acts : List State.Act}
    (ha : acts.all State.Act.onLoop = true) (hst : c.handleRead readv acts = some c') :
    (readv = .ok [] ∧ ∃ b, { c with inputBuffer := b }.handleClose acts = some c') ∨
    (readv ≠ .ok [] ∧ Calm c c') := by
  simp only [State.handleRead] at hst
  split at hst
  · split at hst
    · rename_i n errno b hread
      have hin := (frame_setInput c b).calmLoop
      cases readv with
      | error errno =>
        cases hread
        refine .inr ⟨by simp, ?_⟩
        cases hst
        exact hin
      | ok data =>
        have hn := Buffer.readFd_count hread
        by_cases hempty : data = []
        · subst hempty
          rw [hn] at hst
          exact .inl ⟨rfl, b, hst⟩
        · have hpos : 0 < n := by
            have := List.length_pos_iff.mpr hempty
            omega
          rw [if_pos hpos] at hst
          exact .inr ⟨by simpa using hempty, hin.trans (calm_callback ha hst)⟩
    · cases hst
  · cases hst

/-- `handle_read`, if it does not read the end of a closed connection. -/
theorem Once.handleRead {readv : Except Nat (List Byte)} {acts : List State.Act} (h : Once c)
    (ha : acts.all State.Act.onLoop = true) (hs : c.state ≠ .connecting)
    (hend : c.state = .disconnected → readv ≠ .ok [])
    (hst : c.handleRead readv acts = some c') : Keeps c c' ∧ c'.state ≠ .connecting := by
  rcases handleRead_cases ha hst with ⟨hempty, b, hclose⟩ | ⟨-, hc⟩
  · -- the end was read, so the connection was open
    have hd : c.state ≠ .disconnected := fun hh => hend hh hempty
    have hin := h.calm hs ((frame_setInput c b).calmLoop)
    obtain ⟨h₂, hdown⟩ := hin.handleClose ha hs hd hclose
    exact ⟨⟨h₂, fun _ => hdown⟩, by simp [hdown]⟩
  · exact ⟨h.keeps_of_calm hs hc, fun hh => hs (hc.connecting.mp hh)⟩

theorem Once.connectDestroyed {acts : List State.Act} (h : Once c)
    (ha : acts.all State.Act.onLoop = true) (hs : c.state ≠ .connecting)
    (hst : c.connectDestroyed acts = some c') : Keeps c c' := by
  simp only [State.connectDestroyed, Option.bind_eq_bind] at hst
  split at hst
  · rename_i hup
    obtain ⟨hcl, hdn, hcb⟩ := h.fresh (by rw [hup]; simp)
    obtain ⟨c₁, hcall, hst⟩ := Option.bind_eq_some_iff.mp hst
    have hc := calm_callback ha hcall
    have hcloses : c₁.closes = c.closes := hc.closes
    have hdowns : c₁.downs = c.downs + 1 := hc.downs
    have hcbs : c₁.closeCallbacks = c.closeCallbacks := hc.closeCallbacks
    have hdown : c₁.state = .disconnected := hc.down.mpr rfl
    obtain ⟨fs, hfs, hno⟩ := hc.functors
    cases hst
    refine ⟨⟨fun hh => absurd hdown hh, fun _ => ?_, ?_, ?_, ?_, fun _ => ?_⟩, fun _ => hdown⟩
    · change c₁.downs = 1
      omega
    · change c₁.closes ≤ 1
      omega
    · change c₁.closeCallbacks ≤ 1
      omega
    · intro hh
      rw [hdown] at hh
      cases hh
    · change .connectEstablished ∉ c₁.pendingFunctors
      rw [hfs, List.mem_append, not_or]
      exact ⟨h.started hs, hno⟩
  · cases hst
    exact h.keeps_of_calm hs (.of_eq rfl rfl rfl rfl rfl)

/-- `connect_established`, run first and once.  It was queued when the connection was made, and
nothing was queued before it. -/
theorem Once.connectEstablished {acts : List State.Act} {rest : List Functor} (h : Once c)
    (ha : acts.all State.Act.onLoop = true) (hp : c.pendingFunctors = .connectEstablished :: rest)
    (hst : { c with pendingFunctors := rest }.connectEstablished acts = some c') : Keeps c c' := by
  have hs : c.state = .connecting := by
    by_contra hs
    exact h.started hs (by simp [hp])
  obtain ⟨-, rest', hp', hno⟩ := h.connecting hs
  rw [hp] at hp'
  cases hp'
  have hup : ∀ {ch : Channel} {fl : List Assertion}, Once
      { ({ c with pendingFunctors := rest } : State).setState .connected with
        channel := ch, failed := fl, ups := c.ups + 1 } := by
    intro ch fl
    obtain ⟨hcl, hdn, hcb⟩ := h.fresh (by rw [hs]; simp)
    exact ⟨fun _ => ⟨hcl, hdn, hcb⟩, by simp [State.setState], h.closes, h.closeCallbacks,
      by simp [State.setState], fun _ => hno⟩
  have hc := calm_callback ha hst
  refine ⟨hup.calm (by simp [State.setState]) hc, ?_⟩
  intro hd
  rw [hs] at hd
  cases hd

/-! ## 4. Runs -/

/-- The kernel reports nothing on a connection that `connect_established` has not reached. -/
theorem Once.not_connecting_of_reports {revents : Events} (h : Once c)
    (hr : c.channel.reports revents = true) : c.state ≠ .connecting := by
  intro hs
  obtain ⟨hint, -⟩ := h.connecting hs
  simp [Channel.reports, hint] at hr

/-- `Channel::handle_event`: the hang-up and the read each close at most an open connection, and
the guard says that not both do. -/
theorem Once.handleEvent {e : State.Event} (h : Once c) (hs : c.state ≠ .connecting)
    (hg : ClosesOnce c (.event e)) (hst : c.handleEvent e = some c') : Keeps c c' := by
  obtain ⟨hloop, hclosed, hboth⟩ := hg
  simp only [Label.onLoop, Bool.and_eq_true] at hloop
  obtain ⟨c₁, c₂, hhup, hread, hwrite⟩ := State.handleEvent_cases hst
  have h₁ : Keeps c c₁ ∧ c₁.state ≠ .connecting ∧
      (c₁.state = .disconnected → e.readsEnd = false) := by
    split at hhup
    · rename_i hh
      have hd : c.state ≠ .disconnected := fun hd => by
        rw [(hclosed hd).1] at hh
        cases hh
      obtain ⟨ho, hdown⟩ := h.handleClose hloop.1 hs hd hhup
      exact ⟨⟨ho, fun _ => hdown⟩, by simp [hdown], fun _ => by simpa [hh] using hboth⟩
    · subst hhup
      exact ⟨⟨h, id⟩, hs, fun hd => (hclosed hd).2⟩
  obtain ⟨hk₁, hs₁, hend⟩ := h₁
  have h₂ : Keeps c c₂ ∧ c₂.state ≠ .connecting := by
    split at hread
    · rename_i hr
      have hne : c₁.state = .disconnected → e.readv ≠ .ok [] := by
        intro hd hempty
        simpa [State.Event.readsEnd, hr, hempty] using hend hd
      obtain ⟨hk₂, hs₂⟩ := hk₁.1.handleRead hloop.2 hs₁ hne hread
      exact ⟨hk₁.trans hk₂, hs₂⟩
    · subst hread
      exact ⟨hk₁, hs₁⟩
  obtain ⟨hk₂, hs₂⟩ := h₂
  split at hwrite
  · exact hk₂.trans (hk₂.1.keeps_of_calm hs₂ (frame_handleWrite hwrite).calmLoop)
  · subst hwrite
    exact hk₂

/-- Taking a functor off the queue closes nothing by itself.  What it goes on to do is another
step. -/
theorem Once.pop {f : Functor} {rest : List Functor} (h : Once c) (hs : c.state ≠ .connecting)
    (hp : c.pendingFunctors = f :: rest) :
    Once { c with pendingFunctors := rest } ∧ f ≠ .connectEstablished := by
  have hno := h.started hs
  rw [hp, List.mem_cons, not_or] at hno
  exact ⟨⟨h.fresh, h.down, h.closes, h.closeCallbacks, fun hh => absurd hh hs, fun _ => hno.2⟩,
    hno.1 ∘ Eq.symm⟩

/-- A functor after `connect_established`: only `force_close_in_loop` closes, and it tests the
state first. -/
theorem Once.runFunctor {f : Functor} {acts : List State.Act} {write : WriteResult} (h : Once c)
    (ha : acts.all State.Act.onLoop = true) (hs : c.state ≠ .connecting)
    (hf : f ≠ .connectEstablished) (hst : c.runFunctor acts write f = some c') : Keeps c c' := by
  cases f with
  | connectEstablished => exact absurd rfl hf
  | connectDestroyed => exact h.connectDestroyed ha hs hst
  | sendInLoop t message => exact h.keeps_of_calm hs (frame_sendInLoop hst).calmLoop
  | shutdownInLoop =>
    cases hst
    exact h.keeps_of_calm hs (frame_shutdownInLoop c).calmLoop
  | forceCloseInLoop =>
    simp only [State.runFunctor] at hst
    split at hst
    · rename_i hopen
      have hd : c.state ≠ .disconnected := by
        intro hd
        simp [State.open?, hd] at hopen
      obtain ⟨ho, hdown⟩ := h.handleClose ha hs hd hst
      exact ⟨ho, fun _ => hdown⟩
    · cases hst
      exact ⟨h, id⟩
  | startReadInLoop =>
    cases hst
    exact h.keeps_of_calm hs (frame_startReadInLoop c).calmLoop
  | stopReadInLoop =>
    cases hst
    exact h.keeps_of_calm hs (frame_stopReadInLoop c).calmLoop
  | writeCompleteCallback => exact h.keeps_of_calm hs (calm_callback ha hst)
  | highWaterMarkCallback len => exact h.keeps_of_calm hs (calm_callback ha hst)

/-- `connect_destroyed` may be queued at any time: it comes after `connect_established`. -/
theorem Once.queueDestroyed (h : Once c) : Keeps c (c.queueInLoop .connectDestroyed) := by
  refine ⟨⟨h.fresh, h.down, h.closes, h.closeCallbacks, ?_, ?_⟩, id⟩
  · intro hs
    obtain ⟨hint, rest, hp, hno⟩ := h.connecting hs
    refine ⟨hint, rest ++ [.connectDestroyed], ?_, by simpa using hno⟩
    simp [State.queueInLoop, hp]
  · intro hs
    simpa [State.queueInLoop] using h.started hs

/-- A count of the owner's or of the timers changes. -/
theorem Once.setCounts (h : Once c) (delayed removals : Nat) :
    Once { c with delayed := delayed, removals := removals } :=
  ⟨h.fresh, h.down, h.closes, h.closeCallbacks, h.connecting, h.started⟩

/-- `force_close` does nothing to a connection that is not up yet. -/
theorem Once.forceClose (h : Once c) : Keeps c c.forceClose := by
  by_cases hs : c.state = .connecting
  · have hnot : c.open? = false := by simp [State.open?, hs]
    rw [State.forceClose, hnot]
    exact ⟨h, id⟩
  · have hframe : Frame (Posts false) (Moves true) c c.forceClose := frame_forceClose c
    exact h.keeps_of_calm hs hframe.calm

/-- **One step.**  Of the events the guard says that they close an open connection, if any, and
close it once; everything else that comes to `handle_close` tests the state first. -/
theorem step_once {l : Label} (h : Once c) (hg : ClosesOnce c l) (hst : c.step l = some c') :
    Keeps c c' := by
  cases step_inv hst with
  | event hr hev => exact h.handleEvent (h.not_connecting_of_reports hr) hg hev
  | @runFunctor acts write f rest _ hp hrun =>
    by_cases hs : c.state = .connecting
    · obtain ⟨-, rest', hp', -⟩ := h.connecting hs
      have hf : f = .connectEstablished := by
        rw [hp] at hp'
        exact (List.cons.inj hp').1
      subst hf
      exact h.connectEstablished hg.1 hp hrun
    · obtain ⟨hpop, hf⟩ := h.pop hs hp
      exact hpop.runFunctor hg.1 hs hf hrun
  | act hs hact => exact h.keeps_of_calm hs (calm_act hg.1 hact)
  | @delayFires n hn => exact (h.setCounts n c.removals).forceClose
  | @removeConnectionInLoop n hn => exact (h.setCounts c.delayed n).queueDestroyed
  | serverQueuesDestroy => exact h.queueDestroyed
  | serverDestroys hs hdestroy => exact h.connectDestroyed hg.1 hs hdestroy

theorem reach_once {c₀ : State} (h₀ : Once c₀) (h : Reach State.step ClosesOnce c₀ c) : Once c :=
  h.invariant h₀ fun _ _ _ hi hg hst => (step_once hi hg hst).1

/-- Once `Disconnected`, for ever: `connect_established` alone would set another state, and it
has run. -/
theorem reach_disconnected (h₀ : Once c) (hd : c.state = .disconnected)
    (h : Reach State.step ClosesOnce c c') : c'.state = .disconnected := by
  refine (h.invariant (I := fun s => Once s ∧ s.state = .disconnected) ⟨h₀, hd⟩ ?_).2
  rintro s l s' ⟨hi, hs⟩ hg hst
  obtain ⟨hi', hkeep⟩ := step_once hi hg hst
  exact ⟨hi', hkeep hs⟩

/-! ## 5. The guard is exact -/

/-- What `handle_read` adds to the DOWN callbacks: one at the end of the stream.  It never takes
one away. -/
theorem handleRead_downs {readv : Except Nat (List Byte)} {acts : List State.Act}
    (ha : acts.all State.Act.onLoop = true) (hst : c.handleRead readv acts = some c') :
    c.downs ≤ c'.downs ∧ (readv = .ok [] → c'.downs = c.downs + 1) := by
  rcases handleRead_cases ha hst with ⟨-, b, hclose⟩ | ⟨hne, hc⟩
  · have hdn : c'.downs = c.downs + 1 := (handleClose_spec ha hclose).2.1
    exact ⟨by omega, fun _ => hdn⟩
  · exact ⟨hc.downs.ge, fun hh => absurd hh hne⟩

/-- The DOWN callbacks of one event: one for a hang-up, one for the end of the stream. -/
theorem handleEvent_downs {e : State.Event} (hcl : e.closeActs.all State.Act.onLoop = true)
    (hrd : e.readActs.all State.Act.onLoop = true) (hst : c.handleEvent e = some c') :
    c.downs + (if Channel.hangsUp e.revents then 1 else 0) + (if e.readsEnd then 1 else 0) ≤
      c'.downs := by
  obtain ⟨c₁, c₂, hhup, hread, hwrite⟩ := State.handleEvent_cases hst
  have h₁ : c.downs + (if Channel.hangsUp e.revents then 1 else 0) = c₁.downs := by
    split at hhup
    · rename_i hh
      rw [if_pos hh, (handleClose_spec hcl hhup).2.1]
    · rename_i hh
      rw [if_neg hh, hhup, Nat.add_zero]
  have h₂ : c₁.downs + (if e.readsEnd then 1 else 0) ≤ c₂.downs := by
    split at hread
    · rename_i hr
      obtain ⟨hle, hend⟩ := handleRead_downs hrd hread
      split
      · rename_i hre
        have hempty : e.readv = .ok [] := by
          simp only [State.Event.readsEnd, hr, Bool.true_and] at hre
          split at hre
          · assumption
          · cases hre
        rw [hend hempty]
      · exact hle
    · rename_i hr
      have hre : e.readsEnd = false := by simp [State.Event.readsEnd, hr]
      simp [hre, hread]
  have h₃ : c₂.downs = c'.downs := by
    split at hwrite
    · exact (frame_handleWrite hwrite).calmLoop.downs.symm
    · rw [hwrite]
  omega

/-- A step that breaks the guard tells the user a second time. -/
theorem closesOnce_of_downs {l : Label} (h : Once c) (hl : CallsOnLoop c l)
    (hst : c.step l = some c') (hdn : c'.downs ≤ 1) : ClosesOnce c l := by
  refine ⟨hl, ?_⟩
  cases l with
  | event e =>
    simp only [State.step] at hst
    split at hst
    · simp only [CallsOnLoop, Label.onLoop, Bool.and_eq_true] at hl
      have hle := handleEvent_downs hl.1 hl.2 hst
      refine ⟨fun hd => ?_, fun hboth => ?_⟩
      · rw [h.down hd] at hle
        constructor
        · by_contra hh
          rw [if_pos (by simpa using hh)] at hle
          omega
        · by_contra hh
          rw [if_pos (c := e.readsEnd = true) (by simpa using hh)] at hle
          omega
      · rw [if_pos hboth.1, if_pos hboth.2] at hle
        omega
    · cases hst
  | runFunctor acts write => trivial
  | act a => trivial
  | delayFires => trivial
  | removeConnectionInLoop => trivial
  | serverQueuesDestroy => trivial
  | serverDestroys acts => trivial

/-- **A connection is closed once.**  Whatever the kernel reports, the loop runs and the user calls
on the loop thread, as long as no event closes a connection that is closed: the body of
`handle_close`, the connection callback in state `Disconnected` and the close callback run at most
once each, and `_state` stays `Disconnected`.  The first step that breaks the guard runs the
connection callback again.

The invariant is that the counts are determined by the state (`Once`), so a step keeps them if it
keeps the state or closes an open connection; the exactness is `closesOnce_of_downs`, and
`hangUpTwice` is the shortest run that breaks it. -/
theorem closed_once (loopThread : Tid) (client : Bool) (highWaterMark : Nat)
    (hasWriteComplete hasHighWaterMark : Bool) (c : State)
    (h : Reach State.step ClosesOnce
      (.init loopThread client highWaterMark hasWriteComplete hasHighWaterMark) c) :
    c.closes ≤ 1 ∧ c.downs ≤ 1 ∧ c.closeCallbacks ≤ 1 ∧
      (∀ c', c.state = .disconnected → Reach State.step ClosesOnce c c' →
        c'.state = .disconnected) ∧
      ∀ l c', CallsOnLoop c l → c.step l = some c' → (c'.downs ≤ 1 ↔ ClosesOnce c l) := by
  have ho := reach_once (once_init loopThread client highWaterMark hasWriteComplete
    hasHighWaterMark) h
  refine ⟨ho.closes, ho.downs_le, ho.closeCallbacks,
    fun _ hd hr => reach_disconnected ho hd hr, fun l c' hl hst => ?_⟩
  exact ⟨closesOnce_of_downs ho hl hst, fun hg => (step_once ho hg hst).1.downs_le⟩

/-- The peer hangs up; nothing more is reported until the server's loop and the queue have come
round to `connect_destroyed`. -/
def hangUp : List Label :=
  [.runFunctor [.send [104, 105] (.wrote 2)] (.wrote 0), .runFunctor [] (.wrote 0),
    .event ⟨Events.pollHup, [.send [33] (.wrote 1)], .error 11, [], .wrote 0⟩,
    .act .forceClose, .removeConnectionInLoop, .runFunctor [] (.wrote 0)]

theorem closed_once_hangUp :
    ∃ c, Reach State.step ClosesOnce (.init 1 false 64 true true) c ∧
      c.closes = 1 ∧ c.downs = 1 ∧ c.channel.interest = none ∧ c.closes ≤ 1 ∧
      ∀ c', c.state = .disconnected → Reach State.step ClosesOnce c c' →
        c'.state = .disconnected := by
  have hrun : ∃ c, Reach State.step ClosesOnce (.init 1 false 64 true true) c ∧
      (c.closes = 1 ∧ c.downs = 1 ∧ c.channel.interest = none) :=
    Reach.exists_of_exec hangUp _ (by decide +kernel) (by decide +kernel)
  obtain ⟨c, h, hcl, hdn, hint⟩ := hrun
  obtain ⟨hone, -, -, hstays, -⟩ := closed_once 1 false 64 true true c h
  exact ⟨c, h, hcl, hdn, hint, hone, hstays⟩

/-- **A hang-up reported twice.**  Between `handle_close` and `connect_destroyed` epoll reports
`EPOLLHUP` again, and the connection is closed again. -/
def hangUpTwice : List Label :=
  [.runFunctor [] (.wrote 0), .event ⟨Events.pollHup, [], .error 11, [], .wrote 0⟩,
    .event ⟨Events.pollHup, [], .error 11, [], .wrote 0⟩]

theorem hangUpTwice_closes_twice :
    ∃ c, Reach State.step CallsOnLoop (.init 1 false 64 true true) c ∧
      1 < c.closes ∧ 1 < c.downs ∧ 1 < c.closeCallbacks :=
  Reach.exists_of_exec hangUpTwice _ (by decide +kernel) (by decide +kernel)

end Suduo.TcpConnection
