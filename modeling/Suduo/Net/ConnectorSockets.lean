/-
# One attempt at a time, and every socket accounted for

A socket that `connect` creates should end in ONE place: with `_channel` while the attempt lasts,
closed, or handed to the new-connection callback.  The code gets there when `start_in_loop` finds the
connector at rest.  Three things stand in its way, none of which is tested outside an assertion:

* `stop` does not cancel the retry timer.  After another `start` the timer of the old attempt still
  fires, into the new one;
* the state stays `Connected` after the connection has ended, and `start` does not reset it;
* `_channel` is emptied by a functor, one round after the state has left `Connecting`.

`AtRest` is the condition on each call and each timer, and `sockets_exact` says that it is EXACT: the
runs that meet it are sound, and the first step that does not breaks an assertion or loses a socket.
-/
import Suduo.Net.Connector

namespace Suduo.Connector

open Lib

/-! ## 1. Where a socket is -/

/-- `_channel` owns the socket, and the state is `Connecting`. -/
def State.Owns (c : State) (s : Sock) : Prop :=
  c.state = .connecting ∧ c.channel.map Attempt.sock = some s

instance (c : State) (s : Sock) : Decidable (c.Owns s) := inferInstanceAs (Decidable (_ ∧ _))

/-- In exactly one place, and there once. -/
def State.InOnePlace (c : State) (s : Sock) : Prop :=
  (c.Owns s ∧ c.closed.count s = 0 ∧ c.handed.count s = 0) ∨
  (¬ c.Owns s ∧ c.closed.count s = 1 ∧ c.handed.count s = 0) ∨
  (¬ c.Owns s ∧ c.closed.count s = 0 ∧ c.handed.count s = 1)

instance (c : State) (s : Sock) : Decidable (c.InOnePlace s) := inferInstanceAs (Decidable (_ ∨ _))

/-- No assertion has failed, and every socket is in one place: with `_channel` while its attempt
lasts, closed once, or handed over once. -/
structure State.Sound (c : State) : Prop where
  asserts : c.failed = []
  places : ∀ s, s < c.created → c.InOnePlace s

/-- How many places a socket is in. -/
def State.uses (c : State) (s : Sock) : Nat :=
  (if c.Owns s then 1 else 0) + c.closed.count s + c.handed.count s

theorem State.inOnePlace_iff (c : State) (s : Sock) : c.InOnePlace s ↔ c.uses s = 1 := by
  unfold State.InOnePlace State.uses
  by_cases ho : c.Owns s
  · simp only [ho, not_true, false_and, or_false, true_and, if_true]
    omega
  · simp only [ho, not_false_iff, false_and, false_or, true_and, if_false]
    omega

/-! ## 2. The condition -/

/-- `connect(2)` has begun an attempt, or is done with it. -/
def Errno.begins : Errno → Bool
  | .ok | .einprogress | .eintr | .eisconn => true
  | _ => false

/-- `start` and a timer find the state `Disconnected`, `restart` finds it not `Connecting`, and
where an attempt begins `_channel` is empty.  All other labels are free.  The condition is about
the state before the call, and `sockets_exact` says that nothing less will do. -/
def AtRest (c : State) : Label → Prop
  | .start errno => c.state = .disconnected ∧ (errno.begins = true → c.channel = none)
  | .restart errno => c.state ≠ .connecting ∧ (errno.begins = true → c.channel = none)
  | .timerFires _ errno =>
    c.state = .disconnected ∧ (c.wanted = true → errno.begins = true → c.channel = none)
  | .stop | .runFunctor | .event _ => True

instance (c : State) (l : Label) : Decidable (AtRest c l) :=
  match l with
  | .start errno =>
    inferInstanceAs (Decidable (_ ∧ (errno.begins = true → c.channel = none)))
  | .restart errno =>
    inferInstanceAs (Decidable (_ ∧ (errno.begins = true → c.channel = none)))
  | .timerFires _ errno =>
    inferInstanceAs (Decidable (_ ∧ (c.wanted = true → errno.begins = true → c.channel = none)))
  | .stop | .runFunctor | .event _ => inferInstanceAs (Decidable True)

/-! ## 3. The invariant -/

/-- The channel of an attempt, and what `remove_and_reset_channel` leaves of it. -/
def watched : Channel := Channel.new.enableWriting

def unwatched : Channel := watched.disableAll.remove

theorem unwatched_interest : unwatched.interest = none := by decide

/-- **Between two steps.**  A socket that exists is in one place, one that does not is in none.
While `Connecting`, `_channel` is watched and no `reset_channel` is on its way; else a `_channel`
that is left over is watched no more, and exactly one `reset_channel` is. -/
structure Inv (c : State) : Prop where
  asserts : c.failed = []
  uses : ∀ s, c.uses s = if s < c.created then 1 else 0
  attempt : c.state = .connecting → ∃ sock, c.channel = some ⟨sock, watched⟩
  leftover : c.state ≠ .connecting → ∀ a, c.channel = some a → a.channel.interest = none
  resets : c.pendingFunctors.count .resetChannel =
    if c.state ≠ .connecting ∧ c.channel.isSome then 1 else 0

variable {c c' : State}

theorem inv_init : Inv .init := by
  refine ⟨rfl, ?_, by simp [State.init], by simp [State.init], by simp [State.init]⟩
  intro s
  simp [State.uses, State.Owns, State.init]

theorem Inv.sound (h : Inv c) : c.Sound := by
  refine ⟨h.asserts, fun s hs => ?_⟩
  rw [State.inOnePlace_iff, h.uses s, if_pos hs]

theorem State.not_owns (hs : c.state ≠ .connecting) (s : Sock) : ¬ c.Owns s := fun ho => hs ho.1

/-- Outside an attempt, a socket is closed or handed over. -/
theorem State.uses_of_not_connecting (hs : c.state ≠ .connecting) (s : Sock) :
    c.uses s = c.closed.count s + c.handed.count s := by
  rw [State.uses, if_neg (State.not_owns hs s), Nat.zero_add]

/-- `_connect`, the timers and the delay are of no concern to the sockets. -/
theorem Inv.setRest (h : Inv c) (wanted : Bool) (timers : List Nat) (delay : Nat) :
    Inv { c with wanted := wanted, timers := timers, retryDelayMs := delay } :=
  ⟨h.asserts, h.uses, h.attempt, h.leftover, h.resets⟩

/-- Outside an attempt, `Disconnected` and `Connected` are alike. -/
theorem Inv.setState (h : Inv c) (hs : c.state ≠ .connecting) {st : ConnState}
    (hst : st ≠ .connecting) : Inv (c.setState st) := by
  refine ⟨h.asserts, fun s => ?_, fun hh => absurd hh hst, fun _ => h.leftover hs, ?_⟩
  · rw [State.uses_of_not_connecting hst]
    exact (State.uses_of_not_connecting hs s).symm.trans (h.uses s)
  · have hr := h.resets
    simpa [State.setState, hs, hst] using hr

/-! ## 4. Beginning an attempt -/

/-- What `retry` does to the sockets: it closes the one it is given.  Whether it sets a timer is
of no concern here. -/
theorem retry_eq (c : State) (sock : Sock) :
    ∃ ts d, c.retry sock =
      { (c.close sock).setState .disconnected with timers := ts, retryDelayMs := d } := by
  simp only [State.retry]
  split
  · exact ⟨_, _, rfl⟩
  · exact ⟨_, _, rfl⟩

/-- **`connect`, taken apart**: an attempt, or the socket is closed at once. -/
theorem connect_cases (c : State) (errno : Errno) :
    (errno.begins = true ∧
      c.connect errno = { c with created := c.created + 1 }.connecting c.created) ∨
    (errno.begins = false ∧
      (c.connect errno = { c with created := c.created + 1 }.retry c.created ∨
        c.connect errno = { c with created := c.created + 1 }.close c.created)) := by
  cases errno <;> simp [Errno.begins, State.connect]

/-- `connecting`, with `_channel` empty, goes through.  Its assertion is that it is empty. -/
theorem connecting_eq (hch : c.channel = none) (sock : Sock) :
    c.connecting sock = { c with state := .connecting, channel := some ⟨sock, watched⟩ } := by
  simp [State.connecting, State.assert, State.setState, hch, watched]

/-- One more socket exists, and of the others as many as before. -/
theorem exists_succ (n s : Nat) :
    (if s < n + 1 then 1 else 0) = (if s < n then 1 else 0) + if n = s then 1 else 0 := by
  split_ifs <;> omega

/-- An attempt begins: the new socket is with `_channel`, which was empty, so none is driven out
by it. -/
theorem Inv.connecting (h : Inv c) (hs : c.state ≠ .connecting) (hch : c.channel = none) :
    Inv ({ c with created := c.created + 1 }.connecting c.created) := by
  have heq := connecting_eq (c := { c with created := c.created + 1 }) hch c.created
  rw [heq]
  refine ⟨h.asserts, fun s => ?_, fun _ => ⟨c.created, rfl⟩, fun hh => absurd rfl hh, ?_⟩
  · have hu := h.uses s
    rw [State.uses_of_not_connecting hs] at hu
    rw [exists_succ, ← hu]
    simp only [State.uses, State.Owns, Option.map_some, Option.some.injEq, true_and]
    omega
  · have hno := h.resets
    simpa [hch] using hno

/-- A socket just created is closed, and belongs to nobody again. -/
theorem Inv.closeNew (h : Inv c) (hs : c.state ≠ .connecting) :
    Inv ({ c with created := c.created + 1 }.close c.created) := by
  refine ⟨h.asserts, fun s => ?_, fun hh => absurd hh hs, h.leftover, h.resets⟩
  have hu := h.uses s
  rw [State.uses_of_not_connecting hs] at hu
  have hs' : ({ c with created := c.created + 1 }.close c.created).state ≠ .connecting := hs
  rw [State.uses_of_not_connecting hs']
  change _ = if s < c.created + 1 then 1 else 0
  rw [exists_succ, ← hu]
  simp only [State.close, List.count_append, List.count_singleton, beq_iff_eq]
  omega

theorem Inv.connect {errno : Errno} (h : Inv c) (hs : c.state = .disconnected)
    (hch : errno.begins = true → c.channel = none) : Inv (c.connect errno) := by
  have hne : c.state ≠ .connecting := by rw [hs]; simp
  rcases connect_cases c errno with ⟨hb, heq⟩ | ⟨-, heq | heq⟩
  · rw [heq]
    exact h.connecting hne (hch hb)
  · obtain ⟨ts, d, hr⟩ := retry_eq { c with created := c.created + 1 } c.created
    rw [heq, hr]
    have hcl := (h.closeNew hne).setState hne (by simp : ConnState.disconnected ≠ .connecting)
    exact hcl.setRest _ ts d
  · rw [heq]
    exact h.closeNew hne

theorem startInLoop_eq (hs : c.state = .disconnected) (errno : Errno) :
    c.startInLoop errno = if c.wanted then c.connect errno else c := by
  have hassert : c.assert .startInLoop (c.state == .disconnected) = c := by
    simp [State.assert, hs]
  simp only [State.startInLoop, hassert]

/-- `start_in_loop`, at rest: nothing is done, or an attempt begins, or a socket is created and
closed at once. -/
theorem Inv.startInLoop {errno : Errno} (h : Inv c) (hs : c.state = .disconnected)
    (hch : c.wanted = true → errno.begins = true → c.channel = none) :
    Inv (c.startInLoop errno) := by
  rw [startInLoop_eq hs]
  split
  · rename_i hw
    exact h.connect hs (hch hw)
  · exact h

/-! ## 5. Ending an attempt -/

/-- The socket of an attempt leaves `_channel` for one other place, and the `reset_channel` that
will empty `_channel` is queued with it. -/
theorem Inv.detach {sock : Sock} (h : Inv c) (hs : c.state = .connecting)
    (hch : c.channel = some ⟨sock, watched⟩) (hs' : c'.state ≠ .connecting)
    (hch' : c'.channel = some ⟨sock, unwatched⟩) (hfail : c'.failed = c.failed)
    (hnew : c'.created = c.created)
    (hpend : c'.pendingFunctors = c.pendingFunctors ++ [.resetChannel])
    (huse : ∀ s, c'.closed.count s + c'.handed.count s =
      c.closed.count s + c.handed.count s + if sock = s then 1 else 0) : Inv c' := by
  refine ⟨hfail.trans h.asserts, fun s => ?_, fun hh => absurd hh hs', fun _ a ha => ?_, ?_⟩
  · have hu := h.uses s
    simp only [State.uses, State.Owns, hs, hch, Option.map_some, Option.some.injEq, true_and] at hu
    rw [State.uses_of_not_connecting hs', huse, hnew, ← hu]
    omega
  · rw [hch', Option.some.injEq] at ha
    rw [← ha]
    exact unwatched_interest
  · have hr := h.resets
    simp only [hs, ne_eq, not_true, false_and, if_false] at hr
    simp [hpend, hr, hs', hch']

/-- An attempt that has failed, by an error or by `stop`: `retry` closes the socket. -/
theorem Inv.detach_retry {sock : Sock} (h : Inv c) (hs : c.state = .connecting)
    (hch : c.channel = some ⟨sock, watched⟩) {st : ConnState} :
    Inv ((({ c with state := st, channel := some ⟨sock, unwatched⟩ } : State).queueInLoop
        .resetChannel).retry sock) := by
  obtain ⟨ts, d, hr⟩ := retry_eq (({ c with state := st, channel := some ⟨sock, unwatched⟩ } :
    State).queueInLoop .resetChannel) sock
  rw [hr]
  refine h.detach hs hch (by simp [State.setState]) rfl rfl rfl rfl fun s => ?_
  simp only [State.setState, State.close, State.queueInLoop, List.count_append,
    List.count_singleton, beq_iff_eq]
  omega

theorem retry_state (c : State) (sock : Sock) : (c.retry sock).state = .disconnected := by
  obtain ⟨ts, d, hr⟩ := retry_eq c sock
  rw [hr]
  rfl

/-- The attempt that goes on has its own `_channel`, watched. -/
theorem Inv.attempt_watched {a : Attempt} (h : Inv c) (hs : c.state = .connecting)
    (hch : c.channel = some a) : ∃ sock, a = ⟨sock, watched⟩ := by
  obtain ⟨sock, hch'⟩ := h.attempt hs
  exact ⟨sock, Option.some.inj (hch.symm.trans hch')⟩

theorem Inv.handleError (h : Inv c) (hst : c.handleError = some c') :
    Inv c' ∧ (c.state = .connecting → c'.state = .disconnected) := by
  rcases handleError_cases hst with ⟨a, hs, hch, rfl⟩ | ⟨hs, rfl⟩
  · obtain ⟨sock, rfl⟩ := h.attempt_watched hs hch
    exact ⟨h.detach_retry hs hch, fun _ => retry_state _ _⟩
  · exact ⟨h, fun hh => absurd hh hs⟩

theorem Inv.stopInLoop (h : Inv c) (hst : c.stopInLoop = some c') : Inv c' := by
  rcases stopInLoop_cases hst with ⟨a, hs, hch, rfl⟩ | ⟨-, rfl⟩
  · obtain ⟨sock, rfl⟩ := h.attempt_watched hs hch
    exact h.detach_retry hs hch
  · exact h

/-- `handle_write` ends an attempt, or follows a `handle_error` that has. -/
theorem Inv.handleWrite {e : State.Event} (h : Inv c)
    (hs : c.state = .connecting ∨ c.state = .disconnected) (hst : c.handleWrite e = some c') :
    Inv c' := by
  rcases handleWrite_cases hst with ⟨a, hconn, hch, rfl⟩ | ⟨hconn, rfl⟩
  · obtain ⟨sock, rfl⟩ := h.attempt_watched hconn hch
    rcases settle_cases (c.detach ⟨sock, watched⟩) e sock with heq | ⟨-, heq⟩ | ⟨-, heq⟩
    · rw [heq]
      exact h.detach_retry hconn hch
    · rw [heq]
      refine h.detach hconn hch (by simp [State.setState]) rfl rfl rfl rfl fun s => ?_
      simp only [State.detach, State.setState, State.queueInLoop, List.count_append,
        List.count_singleton, beq_iff_eq]
      omega
    · rw [heq]
      refine h.detach hconn hch (by simp [State.setState, State.close]) rfl rfl rfl rfl fun s => ?_
      simp only [State.detach, State.setState, State.close, State.queueInLoop, List.count_append,
        List.count_singleton, beq_iff_eq]
      omega
  · have hd : c.state = .disconnected := hs.resolve_left hconn
    simpa [State.assert, hd] using h

/-! ## 6. Runs -/

/-- An event reaches the connector only during an attempt; the error callback may end it before
the write callback runs. -/
theorem Inv.handleEvent {e : State.Event} (h : Inv c) (hs : c.state = .connecting)
    (hst : c.handleEvent e = some c') : Inv c' := by
  obtain ⟨c₁, c₂, c₃, hclose, herror, hread, hwrite⟩ := Channel.foldlM_handleEvent hst
  have h₁ : c₁ = c := by
    split at hclose
    · exact (Option.some.inj hclose).symm
    · exact hclose
  have h₃ : c₃ = c₂ := by
    split at hread
    · exact (Option.some.inj hread).symm
    · exact hread
  subst h₁ h₃
  have h₂ : Inv c₃ ∧ (c₃.state = .connecting ∨ c₃.state = .disconnected) := by
    split at herror
    · obtain ⟨hinv, hdown⟩ := h.handleError herror
      exact ⟨hinv, .inr (hdown hs)⟩
    · subst herror
      exact ⟨h, .inl hs⟩
  split at hwrite
  · exact h₂.1.handleWrite h₂.2 hwrite
  · subst hwrite
    exact h₂.1

/-- A `reset_channel` leaves the queue as it empties `_channel`. -/
theorem Inv.resetChannel {rest : List Functor} (h : Inv c)
    (hp : c.pendingFunctors = .resetChannel :: rest) :
    Inv ({ c with pendingFunctors := rest }.resetChannel) := by
  have hr := h.resets
  rw [hp, List.count_cons_self] at hr
  have hs : c.state ≠ .connecting := by
    intro hs
    simp [hs] at hr
  refine ⟨h.asserts, fun s => ?_, fun hh => absurd hh hs, by simp [State.resetChannel], ?_⟩
  · have hs' : ({ c with pendingFunctors := rest }.resetChannel).state ≠ .connecting := hs
    rw [State.uses_of_not_connecting hs']
    exact (State.uses_of_not_connecting hs s).symm.trans (h.uses s)
  · have hone : rest.count .resetChannel = 0 := by
      split at hr <;> omega
    simpa [State.resetChannel] using hone

/-- Functors other than `reset_channel` come and go. -/
theorem Inv.setFunctors (h : Inv c) {fs : List Functor}
    (hfs : fs.count .resetChannel = c.pendingFunctors.count .resetChannel) :
    Inv { c with pendingFunctors := fs } :=
  ⟨h.asserts, h.uses, h.attempt, h.leftover, hfs.trans h.resets⟩

/-- **One step**, at rest: each case of the step is one of the lemmas above, and the condition is
used by `start`, `restart` and the timer only. -/
theorem step_inv {l : Label} (h : Inv c) (hg : AtRest c l) (hst : c.step l = some c') : Inv c' := by
  cases step_cases hst with
  | start => exact (h.setRest true c.timers c.retryDelayMs).startInLoop hg.1 fun _ => hg.2
  | stop =>
    have hcount : (c.pendingFunctors ++ [Functor.stopInLoop]).count .resetChannel =
        c.pendingFunctors.count .resetChannel := by simp
    exact (h.setRest false c.timers c.retryDelayMs).setFunctors hcount
  | restart =>
    have hd := h.setState hg.1 (by simp : ConnState.disconnected ≠ .connecting)
    exact (hd.setRest true c.timers initRetryDelayMs).startInLoop rfl fun _ => hg.2
  | @runFunctor f rest _ hp hrun =>
    cases f with
    | stopInLoop => exact (h.setFunctors (by simp [hp])).stopInLoop hrun
    | resetChannel =>
      cases hrun
      exact h.resetChannel hp
  | @timerFires i _ _ =>
    exact (h.setRest c.wanted (c.timers.eraseIdx i) c.retryDelayMs).startInLoop hg.1 hg.2
  | @event e a _ ha hr hev =>
    have hs : c.state = .connecting := by
      by_contra hs
      simp [Channel.reports, h.leftover hs a ha] at hr
    exact h.handleEvent hs hev

theorem reach_inv (h : Reach State.step AtRest .init c) : Inv c :=
  h.invariant inv_init fun _ _ _ hi hg hst => step_inv hi hg hst

/-! ## 7. The condition is exact -/

/-- `connect` fails an assertion exactly where an attempt begins on a `_channel` in use. -/
theorem connect_failed (c : State) (errno : Errno) :
    (c.connect errno).failed = [] ↔ c.failed = [] ∧ (errno.begins = true → c.channel = none) := by
  rcases connect_cases c errno with ⟨hb, heq⟩ | ⟨hb, heq | heq⟩
  · rw [heq]
    cases hch : c.channel with
    | none => simp [State.connecting, State.assert, State.setState]
    | some a => simp [State.connecting, State.assert, State.setState, hb]
  · obtain ⟨ts, d, hr⟩ := retry_eq { c with created := c.created + 1 } c.created
    rw [heq, hr]
    simp [State.setState, State.close, hb]
  · rw [heq]
    simp [State.close, hb]

theorem startInLoop_failed (c : State) (errno : Errno) :
    (c.startInLoop errno).failed = [] ↔ c.failed = [] ∧ c.state = .disconnected ∧
      (c.wanted = true → errno.begins = true → c.channel = none) := by
  by_cases hs : c.state = .disconnected
  · rw [startInLoop_eq hs]
    split
    · rename_i hw
      simp [connect_failed, hs, hw]
    · rename_i hw
      simp [hs, hw]
  · have hassert : (c.assert .startInLoop (c.state == .disconnected)).failed ≠ [] := by
      simp [State.assert, hs]
    refine ⟨fun hf => absurd hf ?_, fun hf => absurd hf.2.1 hs⟩
    simp only [State.startInLoop]
    split
    · rw [connect_failed]
      exact fun hf => hassert hf.1
    · exact hassert

/-- Where no attempt begins, `connect` closes the socket it has created. -/
theorem connect_closes {errno : Errno} (hb : errno.begins = false) (hs : c.state = .disconnected) :
    (c.connect errno).closed = c.closed ++ [c.created] ∧ (c.connect errno).handed = c.handed ∧
      (c.connect errno).created = c.created + 1 ∧ (c.connect errno).state = .disconnected := by
  rcases connect_cases c errno with ⟨hb', -⟩ | ⟨-, heq | heq⟩
  · rw [hb] at hb'
    cases hb'
  · obtain ⟨ts, d, hr⟩ := retry_eq { c with created := c.created + 1 } c.created
    rw [heq, hr]
    exact ⟨rfl, rfl, rfl, rfl⟩
  · rw [heq]
    exact ⟨rfl, rfl, rfl, hs⟩

/-- A socket of a running attempt is in no other place. -/
theorem Inv.attempt_only {sock : Sock} (h : Inv c) (hown : c.Owns sock) :
    sock < c.created ∧ c.closed.count sock = 0 ∧ c.handed.count sock = 0 := by
  have hu := h.uses sock
  rw [State.uses, if_pos hown] at hu
  split at hu
  · rename_i hlt
    exact ⟨hlt, by omega, by omega⟩
  · omega

/-- `restart` during an attempt meets the old `_channel`, or drops its socket. -/
theorem not_sound_restart {errno : Errno} (h : Inv c) (hs : c.state = .connecting) :
    ¬ (c.restart errno).Sound := by
  intro hsound
  obtain ⟨sock, hch⟩ := h.attempt hs
  let c₀ : State :=
    { c with state := .disconnected, retryDelayMs := initRetryDelayMs, wanted := true }
  have heq : c.restart errno = c₀.connect errno := startInLoop_eq (c := c₀) rfl errno
  rw [heq] at hsound
  have hb : errno.begins = false := by
    by_contra hb
    have hnone : c.channel = none :=
      ((connect_failed c₀ errno).mp hsound.asserts).2 (by simpa using hb)
    rw [hch] at hnone
    cases hnone
  -- no attempt begins, so the state is Disconnected, and the old socket is in no place
  obtain ⟨hlt, hclosed, hhanded⟩ := h.attempt_only ⟨hs, by rw [hch]; rfl⟩
  obtain ⟨hcl, hhd, hnew, hst⟩ := connect_closes (c := c₀) hb rfl
  have hin := hsound.places sock (by rw [hnew]; exact Nat.lt_succ_of_lt hlt)
  have hne : (c₀.connect errno).state ≠ .connecting := by rw [hst]; simp
  rw [State.inOnePlace_iff, State.uses_of_not_connecting hne, hcl, hhd, List.count_append,
    List.count_singleton] at hin
  have hother : (c.created == sock) = false := beq_false_of_ne (Nat.ne_of_gt hlt)
  change c.closed.count sock + (if c.created == sock then 1 else 0) + c.handed.count sock = 1 at hin
  rw [hclosed, hhanded, hother] at hin
  cases hin

/-- **One step that is not at rest** breaks an assertion or loses a socket.  Where an attempt
begins on a `_channel` in use it is the assertion; where the state is wrong, the old attempt's
socket is driven out of `_channel`, or one that has been handed over is closed with it. -/
theorem atRest_of_sound {l : Label} (h : Inv c) (hst : c.step l = some c') (hsound : c'.Sound) :
    AtRest c l := by
  cases step_cases hst with
  | @start errno =>
    obtain ⟨-, hs, hch⟩ := (startInLoop_failed { c with wanted := true } errno).mp hsound.asserts
    exact ⟨hs, hch rfl⟩
  | restart =>
    have hch := ((startInLoop_failed _ _).mp hsound.asserts).2.2
    exact ⟨fun hs => not_sound_restart h hs hsound, hch rfl⟩
  | timerFires => exact ((startInLoop_failed _ _).mp hsound.asserts).2
  | stop => trivial
  | runFunctor => trivial
  | event => trivial

/-- **Every socket in one place, exactly at rest.**  In every run whose calls and timers find the
connector at rest, no assertion fails and every socket that was created is owned by `_channel`
during an attempt, closed once or handed over once; and the first step that is not at rest breaks
this.  The invariant counts for each socket the places it is in (`Inv.uses`), so that a socket
lost and a socket used twice are both seen. -/
theorem sockets_exact (c : State) (h : Reach State.step AtRest .init c) :
    c.Sound ∧ ∀ l c', c.step l = some c' → (c'.Sound ↔ AtRest c l) := by
  have hinv := reach_inv h
  refine ⟨hinv.sound, fun l c' hst => ⟨atRest_of_sound hinv hst, fun hg => ?_⟩⟩
  exact (step_inv hinv hg hst).sound

/-- Refused once, the retry gets through; the connection ends, `restart` fails by an error, and
`stop` comes before the next retry. -/
def retries : List Label :=
  [.start .econnrefused, .timerFires 0 .einprogress, .event ⟨Events.pollOut, 0, false⟩, .runFunctor,
    .restart .einprogress, .event ⟨Events.pollErr ||| Events.pollOut, 111, false⟩, .stop,
    .runFunctor, .runFunctor, .timerFires 0 .einprogress]

theorem sockets_exact_retries :
    ∃ c, Reach State.step AtRest .init c ∧ c.closed = [0, 2] ∧ c.handed = [1] ∧ c.timers = [] ∧
      c.Sound ∧ ∀ l c', c.step l = some c' → (c'.Sound ↔ AtRest c l) := by
  have hrun : ∃ c, Reach State.step AtRest .init c ∧
      (c.closed = [0, 2] ∧ c.handed = [1] ∧ c.timers = []) :=
    Reach.exists_of_exec retries _ (by decide +kernel) (by decide +kernel)
  obtain ⟨c, h, hcl, hhd, hts⟩ := hrun
  exact ⟨c, h, hcl, hhd, hts, sockets_exact c h⟩

/-- **The timer that `stop` does not cancel.**  Refused, stopped and started again, the connector
is in its second attempt when the retry timer of the first one fires. -/
def staleTimer : List Label :=
  [.start .econnrefused, .stop, .runFunctor, .start .einprogress, .timerFires 0 .einprogress]

theorem staleTimer_loses_socket :
    ∃ c, Reach State.step anyStep .init c ∧ c.failed = [.startInLoop, .connecting] ∧
      1 < c.created ∧ ¬ c.InOnePlace 1 :=
  Reach.exists_of_exec staleTimer _ (meets_any staleTimer _) (by decide +kernel)

end Suduo.Connector
