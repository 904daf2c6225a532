/-
# `Connector::stop` is final

`stop` clears `_connect` and queues `stop_in_loop`; it cancels nothing.  Retry timers that are
outstanding still fire, an event of the connecting channel may come in the same round, and
`reset_channel` may be on its way.  Each of these tests `_connect` before it does what `stop` forbids:
`start_in_loop` before it connects, `retry` before it sets a timer, `handle_write` before it hands the
socket over.

So nothing that runs after `stop` creates a socket, hands one over or begins an attempt (`Still`),
and the attempt that `stop` finds going on is ended by `stop_in_loop`, if no event has ended it
before.  The functor queue is first in, first out: `stop_in_loop` has run when one functor more has
run than `stop` found in the queue.
-/
import Suduo.Net.ConnectorSockets

namespace Suduo.Connector

open Lib

/-! ## 1. What goes on after `stop` -/

/-- Neither `start` nor `restart` is called. -/
def Quiet : Label → Prop
  | .start _ | .restart _ => False
  | .stop | .runFunctor | .timerFires _ _ | .event _ => True

/-- No socket is created or handed over, no attempt begins, and functors join the queue behind
those that are there.  This composes, and it is what every step after `stop` does. -/
structure Still (c c' : State) : Prop where
  wanted : c'.wanted = false
  created : c'.created = c.created
  handed : c'.handed = c.handed
  attempt : c'.state = .connecting → c.state = .connecting
  queue : ∃ more, c'.pendingFunctors = c.pendingFunctors ++ more

variable {c c' c'' : State}

theorem Still.refl (h : c.wanted = false) : Still c c :=
  ⟨h, rfl, rfl, id, [], (List.append_nil _).symm⟩

theorem Still.trans (h : Still c c') (h' : Still c' c'') : Still c c'' := by
  obtain ⟨more, hmore⟩ := h.queue
  obtain ⟨more', hmore'⟩ := h'.queue
  refine ⟨h'.wanted, h'.created.trans h.created, h'.handed.trans h.handed,
    fun hs => h.attempt (h'.attempt hs), more ++ more', ?_⟩
  rw [hmore', hmore, List.append_assoc]

theorem still_assert (h : c.wanted = false) (a : Assertion) (b : Bool) : Still c (c.assert a b) := by
  simp only [State.assert]
  split
  · exact .refl h
  · exact ⟨h, rfl, rfl, id, [], (List.append_nil _).symm⟩

/-- `retry` sets no timer, because it tests `_connect` first. -/
theorem still_retry (h : c.wanted = false) (sock : Sock) : Still c (c.retry sock) := by
  have hretry : c.retry sock = (c.close sock).setState .disconnected := by
    simp [State.retry, State.close, State.setState, h]
  rw [hretry]
  exact ⟨h, rfl, rfl, by simp [State.setState], [], (List.append_nil _).symm⟩

theorem still_detach (h : c.wanted = false) (a : Attempt) : Still c (c.detach a) :=
  ⟨h, rfl, rfl, id, [.resetChannel], rfl⟩

/-- A socket that got through is closed, not handed over. -/
theorem still_settle (h : c.wanted = false) (e : State.Event) (sock : Sock) :
    Still c (c.settle e sock) := by
  rcases settle_cases c e sock with heq | ⟨hw, -⟩ | ⟨-, heq⟩
  · rw [heq]
    exact still_retry h sock
  · rw [h] at hw
    cases hw
  · rw [heq]
    exact ⟨h, rfl, rfl, by simp [State.close, State.setState], [], (List.append_nil _).symm⟩

/-- A timer that fires does not connect.  It was set before the `stop` and nobody has cancelled
it; the test of `_connect` is what is left. -/
theorem still_startInLoop (h : c.wanted = false) (errno : Errno) :
    Still c (c.startInLoop errno) := by
  have hassert := still_assert h .startInLoop (c.state == .disconnected)
  simp only [State.startInLoop, hassert.wanted, if_neg Bool.false_ne_true]
  exact hassert

theorem still_handleError (h : c.wanted = false) (hst : c.handleError = some c') : Still c c' := by
  rcases handleError_cases hst with ⟨a, -, -, rfl⟩ | ⟨-, rfl⟩
  · have hstill := still_detach h a
    exact hstill.trans (still_retry hstill.wanted a.sock)
  · exact .refl h

theorem still_handleWrite {e : State.Event} (h : c.wanted = false)
    (hst : c.handleWrite e = some c') : Still c c' := by
  rcases handleWrite_cases hst with ⟨a, -, -, rfl⟩ | ⟨-, rfl⟩
  · have hstill := still_detach h a
    exact hstill.trans (still_settle hstill.wanted e a.sock)
  · exact still_assert h .handleWrite _

theorem still_handleCallback {e : State.Event} {cb : Channel.Callback} (h : c.wanted = false)
    (hst : State.handleCallback e c cb = some c') : Still c c' := by
  cases cb with
  | close | read =>
    cases hst
    exact .refl h
  | error => exact still_handleError h hst
  | write => exact still_handleWrite h hst

theorem still_handleEvent {e : State.Event} (h : c.wanted = false)
    (hst : c.handleEvent e = some c') : Still c c' := by
  refine foldlM_consume (f := State.handleCallback e) (I := fun _ s => Still c s) ?_ _ c c'
    (.refl h) hst
  exact fun cb cbs s s' hs hone => hs.trans (still_handleCallback hs.wanted hone)

/-- `stop_in_loop` ends the attempt that is going on. -/
theorem still_stopInLoop (h : c.wanted = false) (hst : c.stopInLoop = some c') :
    Still c c' ∧ c'.state ≠ .connecting := by
  rcases stopInLoop_cases hst with ⟨a, -, -, rfl⟩ | ⟨hs, rfl⟩
  · have hset : Still c (c.setState .disconnected) :=
      ⟨h, rfl, rfl, by simp [State.setState], [], (List.append_nil _).symm⟩
    have hstill := hset.trans (still_detach hset.wanted a)
    exact ⟨hstill.trans (still_retry hstill.wanted a.sock), by simp [retry_state]⟩
  · exact ⟨.refl h, hs⟩

/-! ## 2. One step -/

/-- A step other than running a functor keeps the connector still, unless it starts it again. -/
theorem step_still {l : Label} (h : c.wanted = false) (hq : Quiet l) (hne : l ≠ .runFunctor)
    (hst : c.step l = some c') : Still c c' := by
  cases step_cases hst with
  | start => cases hq
  | restart => cases hq
  | runFunctor => exact absurd rfl hne
  | stop => exact ⟨rfl, rfl, rfl, id, [.stopInLoop], rfl⟩
  | @timerFires i errno _ =>
    have hstill := still_startInLoop (c := { c with timers := c.timers.eraseIdx i }) h errno
    exact ⟨hstill.wanted, hstill.created, hstill.handed, hstill.attempt, hstill.queue⟩
  | event _ _ hev => exact still_handleEvent h hev

/-- A functor leaves the head of the queue, and `stop_in_loop` leaves no attempt. -/
theorem runFunctor_still (h : c.wanted = false) (hst : c.step .runFunctor = some c') :
    ∃ f rest, c.pendingFunctors = f :: rest ∧ Still { c with pendingFunctors := rest } c' ∧
      (f = .stopInLoop → c'.state ≠ .connecting) := by
  cases step_cases hst with
  | @runFunctor f rest _ hp hrun =>
    refine ⟨f, rest, hp, ?_⟩
    cases f with
    | stopInLoop =>
      obtain ⟨hstill, hs⟩ := still_stopInLoop (c := { c with pendingFunctors := rest }) h hrun
      exact ⟨hstill, fun _ => hs⟩
    | resetChannel =>
      cases hrun
      exact ⟨⟨h, rfl, rfl, id, [], (List.append_nil _).symm⟩, by simp⟩

/-! ## 3. Every run -/

/-- Nothing is created, handed over or begun, however many functors run. -/
theorem exec_still (ls : List Label) : ∀ {c c' : State}, c.wanted = false → (∀ l ∈ ls, Quiet l) →
    exec State.step c ls = some c' →
      c'.created = c.created ∧ c'.handed = c.handed ∧
        (c'.state = .connecting → c.state = .connecting) := by
  induction ls with
  | nil =>
    intro c c' _ _ hex
    cases hex
    exact ⟨rfl, rfl, id⟩
  | cons l ls ih =>
    intro c c' h hq hex
    simp only [exec, Option.bind_eq_some_iff] at hex
    obtain ⟨c₁, hst, hex⟩ := hex
    have hone : c₁.wanted = false ∧ c₁.created = c.created ∧ c₁.handed = c.handed ∧
        (c₁.state = .connecting → c.state = .connecting) := by
      by_cases hl : l = .runFunctor
      · subst hl
        obtain ⟨f, rest, -, hstill, -⟩ := runFunctor_still h hst
        exact ⟨hstill.wanted, hstill.created, hstill.handed, hstill.attempt⟩
      · have hstill := step_still h (hq l (List.mem_cons_self ..)) hl hst
        exact ⟨hstill.wanted, hstill.created, hstill.handed, hstill.attempt⟩
    obtain ⟨hw, hcr, hhd, hat⟩ := hone
    obtain ⟨hcr', hhd', hat'⟩ := ih hw (fun l hl => hq l (List.mem_cons_of_mem _ hl)) hex
    exact ⟨hcr'.trans hcr, hhd'.trans hhd, fun hs => hat (hat' hs)⟩

/-- When the functors in front of a `stop_in_loop` and one more have run, no attempt is going on.
By induction on the labels: a functor that runs is one less in front, and everything else queues
behind. -/
theorem exec_stopInLoop (ls : List Label) : ∀ {c c' : State} {ahead behind : List Functor},
    c.wanted = false → c.pendingFunctors = ahead ++ .stopInLoop :: behind → (∀ l ∈ ls, Quiet l) →
    exec State.step c ls = some c' → ahead.length < ls.count .runFunctor →
      c'.state ≠ .connecting := by
  induction ls with
  | nil =>
    intro c c' ahead behind _ _ _ _ hn
    cases hn
  | cons l ls ih =>
    intro c c' ahead behind h hp hq hex hn
    simp only [exec, Option.bind_eq_some_iff] at hex
    obtain ⟨c₁, hst, hex⟩ := hex
    have hqs : ∀ l ∈ ls, Quiet l := fun l hl => hq l (List.mem_cons_of_mem _ hl)
    by_cases hl : l = .runFunctor
    · subst hl
      rw [List.count_cons_self] at hn
      obtain ⟨f, rest, hp', hstill, hstop⟩ := runFunctor_still h hst
      rw [hp] at hp'
      cases ahead with
      | nil =>
        -- this is the `stop_in_loop`, and no attempt begins after it
        cases hp'
        exact fun hs => hstop rfl ((exec_still ls hstill.wanted hqs hex).2.2 hs)
      | cons g ahead =>
        cases hp'
        obtain ⟨more, hmore⟩ := hstill.queue
        have hp₁ : c₁.pendingFunctors = ahead ++ .stopInLoop :: (behind ++ more) := by
          rw [hmore]
          simp
        exact ih hstill.wanted hp₁ hqs hex (by simpa using hn)
    · have hstill := step_still h (hq l (List.mem_cons_self ..)) hl hst
      obtain ⟨more, hmore⟩ := hstill.queue
      have hp₁ : c₁.pendingFunctors = ahead ++ .stopInLoop :: (behind ++ more) := by
        rw [hmore, hp, List.append_assoc, List.cons_append]
      have hn₁ : ahead.length < ls.count .runFunctor := by
        rwa [List.count_cons_of_ne hl] at hn
      exact ih hstill.wanted hp₁ hqs hex hn₁

/-! ## 4. No functor gets stuck -/

/-- While no assertion has failed, an attempt has its `_channel`, and a `reset_channel` in the
queue is the only one and has a `_channel` of an attempt that is over to empty. -/
structure Attached (c : State) : Prop where
  attempt : c.state = .connecting → c.channel.isSome = true
  once : c.pendingFunctors.count .resetChannel ≤ 1
  leftover : 0 < c.pendingFunctors.count .resetChannel →
    c.state ≠ .connecting ∧ c.channel.isSome = true

theorem attached_init : Attached .init := by
  constructor <;> simp [State.init]

/-- An attempt that is over leaves its `_channel` to a `reset_channel`. -/
theorem Attached.detach (h : Attached c) (hs : c.state = .connecting) (a : Attempt)
    {s : ConnState} (hne : s ≠ .connecting) :
    Attached (({ c with channel := some a, state := s } : State).queueInLoop .resetChannel) := by
  have hnone : c.pendingFunctors.count .resetChannel = 0 := by
    by_contra hpos
    exact (h.leftover (Nat.pos_of_ne_zero hpos)).1 hs
  refine ⟨fun hh => absurd hh hne, ?_, fun _ => ⟨hne, rfl⟩⟩
  simp [State.queueInLoop, hnone]

/-- Only the queue, the state and `_channel` matter. -/
theorem Attached.of_eq (h : Attached c) (hs : c'.state = c.state) (hch : c'.channel = c.channel)
    (hp : c'.pendingFunctors.count .resetChannel = c.pendingFunctors.count .resetChannel) :
    Attached c' := by
  refine ⟨fun hh => ?_, hp ▸ h.once, fun hpos => ?_⟩
  · rw [hch]
    exact h.attempt (hs ▸ hh)
  · rw [hs, hch]
    exact h.leftover (hp ▸ hpos)

/-- A state other than `Connecting` asks nothing of the channel. -/
theorem Attached.setState (h : Attached c) {s : ConnState} (hne : s ≠ .connecting) :
    Attached (c.setState s) :=
  ⟨fun hh => absurd hh hne, h.once, fun hpos => ⟨hne, (h.leftover hpos).2⟩⟩

theorem attached_retry {c₀ : State} (h : Attached c₀) (hs : c₀.state = .disconnected)
    (hch : c.channel = c₀.channel) (hp : c.pendingFunctors = c₀.pendingFunctors) (sock : Sock) :
    Attached (c.retry sock) := by
  obtain ⟨ts, d, hr⟩ := retry_eq c sock
  rw [hr]
  exact h.of_eq hs.symm hch (congrArg _ hp)

theorem attached_startInLoop {errno : Errno} (h : Attached c)
    (hf : (c.startInLoop errno).failed = []) : Attached (c.startInLoop errno) := by
  obtain ⟨-, hs, hch⟩ := (startInLoop_failed c errno).mp hf
  rw [startInLoop_eq hs]
  split
  · rename_i hw
    rcases connect_cases c errno with ⟨hb, heq⟩ | ⟨-, heq | heq⟩
    · have hnone : c.channel = none := hch hw hb
      rw [heq, connecting_eq (c := { c with created := c.created + 1 }) hnone]
      have hzero : ¬ 0 < c.pendingFunctors.count .resetChannel := by
        intro hpos
        have hsome := (h.leftover hpos).2
        rw [hnone] at hsome
        cases hsome
      exact ⟨fun _ => rfl, h.once, fun hpos => absurd hpos hzero⟩
    · rw [heq]
      exact attached_retry (c := { c with created := c.created + 1 }) h hs rfl rfl c.created
    · rw [heq]
      exact h.of_eq rfl rfl rfl
  · exact h

theorem retry_failed (c : State) (sock : Sock) : (c.retry sock).failed = c.failed := by
  obtain ⟨ts, d, hr⟩ := retry_eq c sock
  rw [hr]
  rfl

theorem attached_handleError (h : Attached c) (hst : c.handleError = some c') : Attached c' := by
  rcases handleError_cases hst with ⟨a, hs, -, rfl⟩ | ⟨-, rfl⟩
  · exact attached_retry (h.detach hs _ (s := .disconnected) (by simp)) rfl rfl rfl a.sock
  · exact h

theorem attached_handleWrite {e : State.Event} (h : Attached c) (hst : c.handleWrite e = some c') :
    Attached c' := by
  rcases handleWrite_cases hst with ⟨a, hs, -, rfl⟩ | ⟨-, rfl⟩
  · have hup := h.detach hs { a with channel := a.channel.disableAll.remove }
      (by simp : ConnState.connected ≠ .connecting)
    rcases settle_cases (c.detach a) e a.sock with heq | ⟨-, heq⟩ | ⟨-, heq⟩
    · rw [heq]
      exact attached_retry (h.detach hs _ (s := .disconnected) (by simp)) rfl rfl rfl a.sock
    · rw [heq]
      exact hup.of_eq rfl rfl rfl
    · rw [heq]
      exact hup.of_eq rfl rfl rfl
  · simp only [State.assert]
    split
    · exact h
    · exact h.of_eq rfl rfl rfl

theorem attached_stopInLoop (h : Attached c) (hst : c.stopInLoop = some c') : Attached c' := by
  rcases stopInLoop_cases hst with ⟨a, hs, -, rfl⟩ | ⟨-, rfl⟩
  · exact attached_retry (h.detach hs _ (s := .disconnected) (by simp)) rfl rfl rfl a.sock
  · exact h

theorem settle_failed (c : State) (e : State.Event) (sock : Sock) :
    (c.settle e sock).failed = c.failed := by
  rcases settle_cases c e sock with heq | ⟨-, heq⟩ | ⟨-, heq⟩
  · rw [heq, retry_failed]
  · rw [heq]
    rfl
  · rw [heq]
    rfl

/-- The callbacks forget no failed assertion. -/
theorem handleCallback_failed {e : State.Event} {cb : Channel.Callback}
    (hst : State.handleCallback e c cb = some c') (hf : c'.failed = []) : c.failed = [] := by
  cases cb with
  | close | read =>
    cases hst
    exact hf
  | error =>
    rcases handleError_cases hst with ⟨a, -, -, rfl⟩ | ⟨-, rfl⟩
    · rwa [retry_failed] at hf
    · exact hf
  | write =>
    rcases handleWrite_cases hst with ⟨a, -, -, rfl⟩ | ⟨-, rfl⟩
    · rwa [settle_failed] at hf
    · simp only [State.assert] at hf
      split at hf
      · exact hf
      · exact (List.append_eq_nil_iff.mp hf).1

theorem stopInLoop_failed (hst : c.stopInLoop = some c') : c'.failed = c.failed := by
  rcases stopInLoop_cases hst with ⟨a, -, -, rfl⟩ | ⟨-, rfl⟩
  · exact retry_failed _ a.sock
  · rfl

theorem step_attached {l : Label} (h : c.failed = [] → Attached c) (hst : c.step l = some c')
    (hf : c'.failed = []) : Attached c' := by
  cases step_cases hst with
  | start =>
    have hc : Attached c := h ((startInLoop_failed _ _).mp hf).1
    exact attached_startInLoop (hc.of_eq rfl rfl rfl) hf
  | restart =>
    have hc : Attached c := h ((startInLoop_failed _ _).mp hf).1
    exact attached_startInLoop
      ((hc.setState (s := .disconnected) (by simp)).of_eq rfl rfl rfl) hf
  | timerFires =>
    have hc : Attached c := h ((startInLoop_failed _ _).mp hf).1
    exact attached_startInLoop (hc.of_eq rfl rfl rfl) hf
  | stop => exact (h hf).of_eq rfl rfl (by simp [State.stop, State.queueInLoop])
  | @runFunctor f rest _ hp hrun =>
    cases f with
    | stopInLoop =>
      have hc : Attached c := h ((stopInLoop_failed hrun).symm.trans hf)
      exact attached_stopInLoop (c := { c with pendingFunctors := rest })
        (hc.of_eq rfl rfl (by simp [hp])) hrun
    | resetChannel =>
      cases hrun
      have hc : Attached c := h hf
      have honce := hc.once
      rw [hp, List.count_cons_self] at honce
      have hpos : 0 < c.pendingFunctors.count .resetChannel := by simp [hp]
      refine ⟨fun hs => absurd hs (hc.leftover hpos).1, ?_, ?_⟩
      · change rest.count .resetChannel ≤ 1
        omega
      · intro hrest
        change 0 < rest.count .resetChannel at hrest
        omega
  | @event e _ _ _ _ hev =>
    refine foldlM_consume (f := State.handleCallback e)
      (I := fun _ s => s.failed = [] → Attached s) ?_ _ c c' h hev hf
    intro cb cbs s s' hs hone hf'
    have ha : Attached s := hs (handleCallback_failed hone hf')
    cases cb with
    | close | read =>
      cases hone
      exact ha
    | error => exact attached_handleError ha hone
    | write => exact attached_handleWrite ha hone

/-- While no assertion has failed, the functor at the head of the queue goes through: a
`reset_channel` finds a `_channel`, and the others ask for nothing. -/
theorem runFunctor_total (h : Reach State.step anyStep .init c) (hf : c.failed = [])
    (hp : c.pendingFunctors ≠ []) : ∃ c', c.step .runFunctor = some c' := by
  have ha : Attached c := by
    refine h.invariant (I := fun s => s.failed = [] → Attached s) ?_ ?_ hf
    · exact fun _ => attached_init
    · exact fun s l s' hs _ hst hf' => step_attached hs hst hf'
  obtain ⟨f, rest, hcons⟩ := List.exists_cons_of_ne_nil hp
  simp only [State.step, hcons]
  cases f with
  | resetChannel => exact ⟨_, rfl⟩
  | stopInLoop =>
    simp only [State.runFunctor, State.stopInLoop]
    split
    · rename_i hs
      obtain ⟨a, hch⟩ := Option.isSome_iff_exists.mp (ha.attempt hs)
      simp only [State.removeAndResetChannel, State.setState, hch]
      exact ⟨_, rfl⟩
    · exact ⟨_, rfl⟩

/-! ## 5. Runs after `stop` -/

/-- **`stop` is final.**  Let `stop` be called in any state a run of the connector reaches, and let
any steps follow but `start` and `restart`.  Then no new socket is created and none is handed to the
new-connection callback; when `stop_in_loop` has run, which is when one functor more has run than
were in the queue, the state is not `Connecting`; and while no assertion has failed, the functors in
the queue do run.

The first part is `Still`, step by step.  The second needs where `stop_in_loop` is in the queue,
and the third that no functor is stuck (`Attached`), without which "when it has run" could mean
never. -/
theorem stop_final (c : State) (h : Reach State.step anyStep .init c) (ls : List Label)
    (hq : ∀ l ∈ ls, Quiet l) (c' : State) (hex : exec State.step c.stop ls = some c') :
    c'.created = c.created ∧ c'.handed = c.handed ∧
      (c.pendingFunctors.length < ls.count .runFunctor → c'.state ≠ .connecting) ∧
      (c'.failed = [] → c'.pendingFunctors ≠ [] → ∃ c'', c'.step .runFunctor = some c'') := by
  have hw : c.stop.wanted = false := rfl
  obtain ⟨hcreated, hhanded, -⟩ := exec_still ls hw hq hex
  refine ⟨hcreated, hhanded, exec_stopInLoop ls hw rfl hq hex, ?_⟩
  have hreach : Reach State.step anyStep .init c' :=
    (h.tail .stop trivial rfl).trans (.of_exec_any ls hex)
  exact runFunctor_total hreach

/-- Refused twice, the connector is in its third attempt, with a timer of the second outstanding. -/
def thirdAttempt : List Label :=
  [.start .econnrefused, .start .econnrefused, .timerFires 0 .einprogress]

/-- The attempt fails in the round in which `stop` was called; the timer fires at last. -/
def afterStop : List Label :=
  [.event ⟨Events.pollErr ||| Events.pollOut, 111, false⟩, .runFunctor, .runFunctor,
    .timerFires 0 .einprogress]

theorem stop_final_afterStop : ∃ c c', Reach State.step anyStep .init c ∧ c.state = .connecting ∧
    c.timers = [1000] ∧ exec State.step c.stop afterStop = some c' ∧ c'.timers = [] ∧
    c'.created = c.created ∧ c'.handed = c.handed ∧ c'.state ≠ .connecting := by
  have hrun : ∃ c, Reach State.step anyStep .init c ∧ (c.state = .connecting ∧ c.timers = [1000] ∧
      c.pendingFunctors = [] ∧
      (exec State.step c.stop afterStop).any fun c' => c'.timers = []) :=
    Reach.exists_of_exec thirdAttempt _ (meets_any thirdAttempt _) (by decide +kernel)
  obtain ⟨c, h, hs, hts, hp, hany⟩ := hrun
  obtain ⟨c', hex, hts'⟩ := (Option.any_eq_true _ _).mp hany
  have hq : ∀ l ∈ afterStop, Quiet l := by simp [afterStop, Quiet]
  obtain ⟨hcr, hhd, hdown, -⟩ := stop_final c h afterStop hq c' hex
  refine ⟨c, c', h, hs, hts, hex, of_decide_eq_true hts', hcr, hhd, hdown ?_⟩
  rw [hp]
  decide

end Suduo.Connector
