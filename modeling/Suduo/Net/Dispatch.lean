/-
# A dispatch round, and channels that are removed in it

`EventLoop::loop` of `net/EventLoop.cpp` over `net/poller/EPollPoller.cpp`.  `poll` copies the channels the
kernel reports into `_active_channel`, raw pointers all; the loop then calls `handle_event` on one after
the other, whatever the callbacks have done to the later ones meanwhile.  `remove_channel` takes a channel
out of `_channels` and out of the kernel's list, but not out of `_active_channel`.

Here a channel is an object of its own, since a descriptor may have one channel after another: `fd c` is
the descriptor of `c`, `_channels` maps it to a channel, and the kernel hands back the pointer it was last
given for it.  The operations of user code come at any time the loop's thread is not in the loop itself.

A removal that is deferred to the functors meets no waiting channel.  As long as no removal does, what is
dispatched is registered (`dispatch_registered`); a callback that removes a channel further down the list,
as the destructors of `Acceptor` and `TcpServer` do, has it called all the same
(`removed_channel_is_called`).
-/
import Suduo.Lib.Reach
import Suduo.Net.Channel
import Mathlib.Logic.Function.Basic

namespace Suduo.Dispatch

open Lib

/-! ## 1. The loop and its poller -/

/-- Where `EventLoop::loop` is. -/
inductive Phase (χ : Type)
  /-- Before `loop` and after it, and in `do_pending_functors`. -/
  | functors
  /-- At the head of the `for` loop; `rest` is what it has still to go through. -/
  | dispatching (rest : List χ)
  /-- In `handle_event` of `current`. -/
  | handling (current : χ) (rest : List χ)
  deriving DecidableEq, Repr

/-- One call of `handle_event`, and whether the channel was registered then. -/
structure Invocation (χ : Type) where
  channel : χ
  registered : Bool
  deriving DecidableEq, Repr

/-- A loop with its poller. -/
structure State (χ : Type) where
  /-- `_channels`. -/
  channels : Nat → Option χ
  /-- The kernel's interest list: `data.ptr` of each descriptor in it. -/
  interest : Nat → Option χ
  phase : Phase χ
  invoked : List (Invocation χ)

variable {χ : Type}

def State.init : State χ := ⟨fun _ => none, fun _ => none, .functors, []⟩

/-- The channels of `_active_channel` that are still to be called. -/
def Phase.waiting : Phase χ → List χ
  | .functors => []
  | .dispatching rest => rest
  | .handling _ rest => rest

/-- User code has the loop's thread. -/
def Phase.userCode : Phase χ → Bool
  | .functors | .handling _ _ => true
  | .dispatching _ => false

variable (fd : χ → Nat)

namespace State

/-- `EPollPoller::update` with `epoll_ctl`; `none` is a call that fails. -/
def update (s : State χ) (op : Channel.CtlOp) (c : χ) : Option (State χ) :=
  match op, s.interest (fd c) with
  | .add, none | .mod, some _ =>
    some { s with interest := Function.update s.interest (fd c) (some c) }
  | .del, some _ => some { s with interest := Function.update s.interest (fd c) none }
  | .add, some _ | .mod, none | .del, none => none

/-- `update_channel`. -/
def updateChannel (s : State χ) (c : χ) : Option (State χ) :=
  match s.channels (fd c) with
  | none =>
    ({ s with channels := Function.update s.channels (fd c) (some c) } : State χ).update fd .add c
  | some _ => s.update fd .mod c

/-- `remove_channel`. -/
def removeChannel (s : State χ) (c : χ) : Option (State χ) :=
  match s.channels (fd c) with
  | none => some s
  | some _ =>
    ({ s with channels := Function.update s.channels (fd c) none } : State χ).update fd .del c

/-- `has_channel`. -/
def hasChannel [DecidableEq χ] (s : State χ) (c : χ) : Bool := s.channels (fd c) == some c

end State

inductive Label (χ : Type)
  /-- `poll` returns, with events on these descriptors. -/
  | poll (ready : List Nat)
  /-- The `for` loop goes on to the next channel, or ends. -/
  | next
  /-- `handle_event` returns. -/
  | returns
  | updateChannel (c : χ)
  | removeChannel (c : χ)
  deriving DecidableEq, Repr

def State.step [DecidableEq χ] (s : State χ) : Label χ → Option (State χ)
  | .poll ready =>
    -- `epoll_wait` reports a descriptor once, and only one it watches
    if s.phase = .functors ∧ ready.Nodup ∧ ready.all (fun f => (s.interest f).isSome) then
      some { s with phase := .dispatching (ready.filterMap s.interest) }
    else none
  | .next =>
    match s.phase with
    | .dispatching (c :: rest) =>
      some { s with phase := .handling c rest, invoked := s.invoked ++ [⟨c, s.hasChannel fd c⟩] }
    | .dispatching [] => some { s with phase := .functors }
    | _ => none
  | .returns =>
    match s.phase with
    | .handling _ rest => some { s with phase := .dispatching rest }
    | _ => none
  | .updateChannel c => if s.phase.userCode then s.updateChannel fd c else none
  | .removeChannel c => if s.phase.userCode then s.removeChannel fd c else none

/-- The transitions, one constructor for each way a step can change the state. -/
inductive Step [DecidableEq χ] (s : State χ) : Label χ → State χ → Prop
  | poll (ready : List Nat) (hp : s.phase = .functors) (hn : ready.Nodup) :
      Step s (.poll ready) { s with phase := .dispatching (ready.filterMap s.interest) }
  | next (c : χ) (rest : List χ) (hp : s.phase = .dispatching (c :: rest)) :
      Step s .next { s with phase := .handling c rest
                            invoked := s.invoked ++ [⟨c, s.hasChannel fd c⟩] }
  | ends (hp : s.phase = .dispatching []) : Step s .next { s with phase := .functors }
  | returns (c : χ) (rest : List χ) (hp : s.phase = .handling c rest) :
      Step s .returns { s with phase := .dispatching rest }
  | updateChannel (c : χ) (s' : State χ) (h : s.updateChannel fd c = some s') :
      Step s (.updateChannel c) s'
  | removeChannel (c : χ) (s' : State χ) (h : s.removeChannel fd c = some s') :
      Step s (.removeChannel c) s'

/-- **Inversion of a step.**  A round of the loop is cut into the calls of its callbacks, and a
callback into its calls of the poller. -/
theorem step_inv [DecidableEq χ] {s s' : State χ} {l : Label χ} (h : s.step fd l = some s') :
    Step fd s l s' := by
  cases l with
  | poll ready =>
    simp only [State.step] at h
    split at h
    · rename_i hc
      cases h
      exact .poll ready hc.1 hc.2.1
    · cases h
  | next =>
    simp only [State.step] at h
    split at h
    · rename_i c rest hp
      cases h
      exact .next c rest hp
    · rename_i hp
      cases h
      exact .ends hp
    · cases h
  | returns =>
    simp only [State.step] at h
    split at h
    · rename_i c rest hp
      cases h
      exact .returns c rest hp
    · cases h
  | updateChannel c =>
    simp only [State.step] at h
    split at h
    · exact .updateChannel c s' h
    · cases h
  | removeChannel c =>
    simp only [State.step] at h
    split at h
    · exact .removeChannel c s' h
    · cases h

/-! ## 2. What is registered -/

/-- A channel is removed while none of its descriptor is waiting, and told to the poller while no
other channel of its descriptor is registered.  The condition is about what waits further down
the list and not about who calls, so a callback may remove its own channel (`removesSafely_own`). -/
def RemovesSafely (s : State χ) : Label χ → Prop
  | .removeChannel c => ∀ d ∈ s.phase.waiting, fd d ≠ fd c
  | .updateChannel c => s.channels (fd c) = none ∨ s.channels (fd c) = some c
  | .poll _ | .next | .returns => True

instance [DecidableEq χ] (s : State χ) : ∀ l, Decidable (RemovesSafely fd s l)
  | .removeChannel c => inferInstanceAs (Decidable (∀ d ∈ s.phase.waiting, fd d ≠ fd c))
  | .updateChannel c =>
    inferInstanceAs (Decidable (s.channels (fd c) = none ∨ s.channels (fd c) = some c))
  | .poll _ | .next | .returns => .isTrue trivial

/-- The kernel has the pointers of `_channels`, each under its own descriptor, and everything
waiting is registered. -/
structure Registered (s : State χ) : Prop where
  interest : s.interest = s.channels
  own : ∀ f c, s.channels f = some c → fd c = f
  waiting : ∀ c ∈ s.phase.waiting, s.channels (fd c) = some c
  invoked : ∀ i ∈ s.invoked, i.registered = true

theorem registered_init : Registered fd (State.init : State χ) := by
  constructor <;> simp [State.init, Phase.waiting]

variable {fd} {s s' : State χ} {c : χ}

/-- `update_channel` of a channel that may be registered registers it. -/
theorem Registered.updateChannel (h : Registered fd s)
    (hg : s.channels (fd c) = none ∨ s.channels (fd c) = some c)
    (hst : s.updateChannel fd c = some s') :
    s' = { s with channels := Function.update s.channels (fd c) (some c)
                  interest := Function.update s.channels (fd c) (some c) } := by
  have hint : s.interest (fd c) = s.channels (fd c) := congrFun h.interest (fd c)
  rcases hg with hnone | hsome
  · rw [hnone] at hint
    simp only [State.updateChannel, hnone, State.update, hint] at hst
    cases hst
    rw [h.interest]
  · rw [hsome] at hint
    simp only [State.updateChannel, hsome, State.update, hint] at hst
    cases hst
    have hsame : Function.update s.channels (fd c) (some c) = s.channels := by
      rw [← hsome, Function.update_eq_self]
    rw [h.interest, hsame]

/-- `remove_channel` clears its descriptor, and no other. -/
theorem Registered.removeChannel (h : Registered fd s) (hst : s.removeChannel fd c = some s') :
    s' = { s with channels := Function.update s.channels (fd c) none
                  interest := Function.update s.channels (fd c) none } := by
  have hint : s.interest (fd c) = s.channels (fd c) := congrFun h.interest (fd c)
  cases hc : s.channels (fd c) with
  | none =>
    simp only [State.removeChannel, hc] at hst
    cases hst
    have hsame : Function.update s.channels (fd c) none = s.channels := by
      rw [← hc, Function.update_eq_self]
    rw [hsame]
    exact congrArg (fun m => { s with interest := m }) h.interest
  | some d =>
    rw [hc] at hint
    simp only [State.removeChannel, hc, State.update, hint] at hst
    cases hst
    rw [h.interest]

/-- A change of `_channels` at the descriptor of `c` leaves all others as they are, the waiting
ones included. -/
theorem Registered.set (h : Registered fd s) {v : Option χ} (hv : ∀ d, v = some d → d = c)
    (hw : ∀ d ∈ s.phase.waiting, fd d = fd c → v = some d) :
    Registered fd { s with channels := Function.update s.channels (fd c) v
                           interest := Function.update s.channels (fd c) v } := by
  refine ⟨rfl, ?_, ?_, h.invoked⟩
  · intro f d hd
    change Function.update s.channels (fd c) v f = some d at hd
    by_cases hf : f = fd c
    · rw [hf, Function.update_self] at hd
      rw [hf, hv d hd]
    · rw [Function.update_of_ne hf] at hd
      exact h.own f d hd
  · intro d hd
    by_cases hf : fd d = fd c
    · change Function.update s.channels (fd c) v (fd d) = some d
      rw [hf, Function.update_self]
      exact hw d hd hf
    · change Function.update s.channels (fd c) v (fd d) = some d
      rw [Function.update_of_ne hf]
      exact h.waiting d hd

/-- Every step that meets the guard keeps what waits registered, and calls nothing else.  A poll
copies registered channels into the list; a removal could take one of them out of `_channels`
only, and that is what the guard forbids. -/
theorem step_registered [DecidableEq χ] {l : Label χ} (h : Registered fd s) (hg : RemovesSafely fd s l)
    (hst : s.step fd l = some s') : Registered fd s' := by
  cases step_inv fd hst with
  | poll ready hp hn =>
    refine ⟨h.interest, h.own, ?_, h.invoked⟩
    intro c hc
    obtain ⟨f, -, hf⟩ := List.mem_filterMap.mp hc
    -- what the kernel hands back for a descriptor is its channel
    rw [h.interest] at hf
    rw [← h.own f c hf] at hf
    exact hf
  | next c rest hp =>
    have hwait : ∀ d ∈ c :: rest, s.channels (fd d) = some d := by
      intro d hd
      refine h.waiting d ?_
      rw [hp]
      exact hd
    refine ⟨h.interest, h.own, fun d hd => hwait d (List.mem_cons_of_mem _ hd), ?_⟩
    intro i hi
    rcases List.mem_append.mp hi with hi | hi
    · exact h.invoked i hi
    · rw [List.mem_singleton.mp hi]
      simp [State.hasChannel, hwait c (List.mem_cons_self ..)]
  | ends hp =>
    refine ⟨h.interest, h.own, ?_, h.invoked⟩
    intro c hc
    cases hc
  | returns c rest hp =>
    refine ⟨h.interest, h.own, ?_, h.invoked⟩
    intro d hd
    refine h.waiting d ?_
    rw [hp]
    exact hd
  | updateChannel c s' hup =>
    rw [h.updateChannel hg hup]
    refine h.set (fun d hd => (Option.some.inj hd).symm) ?_
    intro d hd hfd
    have hreg := h.waiting d hd
    rw [hfd] at hreg
    rcases hg with hnone | hsome
    · rw [hnone] at hreg
      cases hreg
    · exact hsome.symm.trans hreg
  | removeChannel c s' hrem =>
    rw [h.removeChannel hrem]
    refine h.set (fun d hd => by cases hd) ?_
    intro d hd hfd
    exact absurd hfd (hg d hd)

/-! ## 3. Whom `handle_event` is called on -/

/-- **No event reaches a removed channel, if none is removed while it waits.**  In every run of
the loop, over any number of rounds and with user code that registers and removes channels in
callbacks and functors as it likes, where a channel is removed only while none of its descriptor
waits further down `_active_channel`, and registered only while no other channel of its
descriptor is: every call of `handle_event` was on a channel that was registered with the poller
at that moment.  Without the condition `removed_channel_is_called` is two steps away. -/
theorem dispatch_registered [DecidableEq χ] (fd : χ → Nat) (s : State χ)
    (h : Reach (State.step fd) (RemovesSafely fd) .init s) :
    ∀ i ∈ s.invoked, i.registered = true := by
  have hr : Registered fd s :=
    h.invariant (registered_init fd) fun _ _ _ hi hg hst => step_registered hi hg hst
  exact hr.invoked

/-- Channels 1, 2 and 3; the callback of 1 removes itself, that of 2 registers channel 4 on the descriptor
of 1, and 3 is removed by a functor. -/
def removesItself : List (Label Nat) :=
  [.updateChannel 1, .updateChannel 2, .updateChannel 3, .poll [11, 12], .next, .removeChannel 1,
    .returns, .next, .updateChannel 4, .returns, .next, .removeChannel 3, .poll [11], .next]

/-- Channels 1 and 4 are on descriptor 11, the others on their own. -/
def descriptor (c : Nat) : Nat := if c = 4 then 11 else 10 + c

theorem dispatch_registered_removesItself :
    ∃ s, Reach (State.step descriptor) (RemovesSafely descriptor) .init s ∧
      s.invoked.map Invocation.channel = [1, 2, 4] ∧ ∀ i ∈ s.invoked, i.registered = true := by
  have hrun : ∃ s, Reach (State.step descriptor) (RemovesSafely descriptor) .init s ∧
      s.invoked.map Invocation.channel = [1, 2, 4] :=
    Reach.exists_of_exec removesItself _ (by decide +kernel) (by decide +kernel)
  obtain ⟨s, h, hc⟩ := hrun
  exact ⟨s, h, hc, dispatch_registered descriptor s h⟩

/-- **A channel removed in the round is called all the same.**  Both are ready; the callback of the
first removes the second, as that of a connection does which destroys its server and with it the channel of
the acceptor. -/
theorem removed_channel_is_called :
    ∃ s, Reach (State.step descriptor) anyStep .init s ∧
      ∃ i ∈ s.invoked, i.channel = 2 ∧ i.registered = false :=
  Reach.exists_of_exec [.updateChannel 1, .updateChannel 2, .poll [11, 12], .next, .removeChannel 2,
    .returns, .next] _ (meets_any _ _) (by decide +kernel)

/-! ## 4. Removals that are always safe -/

/-- The channels still in hand are on different descriptors. -/
def Apart (fd : χ → Nat) : Phase χ → Prop
  | .functors => True
  | .dispatching rest => (rest.map fd).Nodup
  | .handling current rest => ((current :: rest).map fd).Nodup

/-- A round takes one channel for each descriptor reported. -/
theorem map_fd_filterMap {m : Nat → Option χ} (hm : ∀ f c, m f = some c → fd c = f)
    (ready : List Nat) : (ready.filterMap m).map fd = ready.filter fun f => (m f).isSome := by
  induction ready with
  | nil => rfl
  | cons f ready ih =>
    cases hf : m f with
    | none => simp [hf, ih]
    | some c => simp [hf, ih, hm f c hf]

theorem update_phase {op : Channel.CtlOp} (h : s.update fd op c = some s') : s'.phase = s.phase := by
  simp only [State.update] at h
  split at h
  all_goals cases h
  all_goals rfl

theorem updateChannel_phase (h : s.updateChannel fd c = some s') : s'.phase = s.phase := by
  simp only [State.updateChannel] at h
  split at h
  · have hp := update_phase h
    exact hp
  · exact update_phase h

theorem removeChannel_phase (h : s.removeChannel fd c = some s') : s'.phase = s.phase := by
  simp only [State.removeChannel] at h
  split at h
  · cases h
    rfl
  · have hp := update_phase h
    exact hp

theorem step_apart [DecidableEq χ] {l : Label χ} (h : Registered fd s) (ha : Apart fd s.phase)
    (hst : s.step fd l = some s') : Apart fd s'.phase := by
  cases step_inv fd hst with
  | poll ready hp hn =>
    change ((ready.filterMap s.interest).map fd).Nodup
    rw [h.interest, map_fd_filterMap h.own]
    exact hn.filter _
  | next c rest hp =>
    rw [hp] at ha
    exact ha
  | ends hp => trivial
  | returns c rest hp =>
    rw [hp] at ha
    exact (List.nodup_cons.mp ha).2
  | updateChannel c s' hup =>
    rw [updateChannel_phase hup]
    exact ha
  | removeChannel c s' hrem =>
    rw [removeChannel_phase hrem]
    exact ha

/-- **A callback may remove its own channel**, and a functor any.  The own channel is no longer
in the list when its callback runs, and no other of its descriptor is, since the kernel reports a
descriptor once. -/
theorem removesSafely_own [DecidableEq χ] (fd : χ → Nat) (s : State χ)
    (h : Reach (State.step fd) (RemovesSafely fd) .init s) (c : χ)
    (hc : s.phase = .functors ∨ ∃ rest, s.phase = .handling c rest) :
    RemovesSafely fd s (.removeChannel c) := by
  have hr := h.invariant (I := fun s => Registered fd s ∧ Apart fd s.phase)
    ⟨registered_init fd, trivial⟩
    fun _ _ _ hi hg hst => ⟨step_registered hi.1 hg hst, step_apart hi.1 hi.2 hst⟩
  intro d hd hfd
  rcases hc with hp | ⟨rest, hp⟩
  · rw [hp] at hd
    cases hd
  · have ha := hr.2
    rw [hp] at ha hd
    refine (List.nodup_cons.mp ha).1 ?_
    rw [← hfd]
    exact List.mem_map_of_mem hd

end Suduo.Dispatch
