/-
# The steps of a connection, taken apart

A step of `TcpConnection.State.step` is a whole event or functor, with everything that user code and
other threads do inside its callbacks.  What has to be said about the moment a call BEGINS, or about
the moment `shutdown_write` is issued, needs smaller steps: a move is one call, one functor's own
work, or one stretch of `handle_close` and its like between two callbacks.

Moves may come in any order, so there are more runs of moves than of steps; every step is a run of
moves (`step_moves`), and what holds in every run of moves holds of the connection.
-/
import Suduo.Net.TcpOutput

namespace Suduo.TcpConnection

open Lib

/-! ## 1. The moves -/

namespace State

/-- `connect_established` up to the connection callback. -/
def established (c : State) : State :=
  let failed := if c.state = .connecting then c.failed else c.failed ++ [.established]
  let c := c.setState .connected
  { c with channel := c.channel.enableReading, failed := failed, ups := c.ups + 1 }

/-- `handle_close` up to the connection callback. -/
def closing (c : State) : State :=
  let failed := if c.open? then c.failed else c.failed ++ [.closing]
  let c := c.setState .disconnected
  { c with channel := c.channel.disableAll, failed := failed, closes := c.closes + 1,
           downs := c.downs + 1 }

/-- `handle_close` from the close callback on. -/
def closed (c : State) : State :=
  let c := { c with closeCallbacks := c.closeCallbacks + 1 }
  if c.client then c.queueInLoop .connectDestroyed else { c with removals := c.removals + 1 }

/-- `connect_destroyed` of a connection that is up, up to the connection callback. -/
def destroying (c : State) : State :=
  let c := c.setState .disconnected
  { c with channel := c.channel.disableAll, downs := c.downs + 1 }

/-- The end of `connect_destroyed`. -/
def removed (c : State) : State := { c with channel := c.channel.remove }

/-- `handle_read` up to its callback. -/
def readInput (c : State) (readv : Except Nat (List Byte)) : Option State :=
  if c.inputBuffer.fitsIov readv then
    match c.inputBuffer.readFd readv with
    | .ok (_, _, b) => some { c with inputBuffer := b }
    | .error _ => none
  else none

end State

inductive Move
  | act (a : State.Act)
  /-- `send_in_loop`, `shutdown_in_loop` from the front of the queue. -/
  | sendFunctor (write : WriteResult)
  | shutdownFunctor
  /-- Another functor leaves the queue; what it does are moves of their own. -/
  | pop
  | readInput (readv : Except Nat (List Byte))
  | handleWrite (write : WriteResult)
  | established
  | closing
  | closed
  | destroying
  | removed
  | delayFires
  | removeConnectionInLoop
  | serverQueuesDestroy

def State.move (c : State) : Move → Option State
  | .act a => c.act a
  | .sendFunctor write =>
    match c.pendingFunctors with
    | .sendInLoop t message :: rest => { c with pendingFunctors := rest }.sendInLoop t message write
    | _ => none
  | .shutdownFunctor =>
    match c.pendingFunctors with
    | .shutdownInLoop :: rest => some { c with pendingFunctors := rest }.shutdownInLoop
    | _ => none
  | .pop =>
    match c.pendingFunctors with
    | .sendInLoop _ _ :: _ | .shutdownInLoop :: _ | [] => none
    | _ :: rest => some { c with pendingFunctors := rest }
  | .readInput readv => c.readInput readv
  | .handleWrite write => c.handleWrite write
  | .established => some c.established
  | .closing => some c.closing
  | .closed => some c.closed
  | .destroying => some c.destroying
  | .removed => some c.removed
  | .delayFires => c.step .delayFires
  | .removeConnectionInLoop => c.step .removeConnectionInLoop
  | .serverQueuesDestroy => c.step .serverQueuesDestroy

/-! ## 2. Every step is a run of moves -/

variable {c c' : State}

theorem move_reach {m : Move} (h : c.move m = some c') : Reach State.move anyStep c c' :=
  Reach.refl.tail m trivial h

theorem callback_moves {acts : List State.Act} (h : c.callback acts = some c') :
    Reach State.move anyStep c c' := by
  induction acts generalizing c with
  | nil =>
    cases h
    exact .refl
  | cons a acts ih =>
    simp only [State.callback, List.foldlM_cons, Option.bind_eq_bind,
      Option.bind_eq_some_iff] at h
    obtain ⟨c₁, ha, hrest⟩ := h
    exact (move_reach (m := .act a) ha).trans (ih hrest)

theorem handleClose_moves {acts : List State.Act} (h : c.handleClose acts = some c') :
    Reach State.move anyStep c c' := by
  simp only [State.handleClose, Option.bind_eq_bind, Option.bind_eq_some_iff] at h
  obtain ⟨c₁, hcb, h⟩ := h
  have hclosing : Reach State.move anyStep c c₁ :=
    (move_reach (m := .closing) rfl).trans (callback_moves hcb)
  refine hclosing.trans (move_reach (m := .closed) ?_)
  exact h

theorem handleRead_moves {readv : Except Nat (List Byte)} {acts : List State.Act}
    (h : c.handleRead readv acts = some c') : Reach State.move anyStep c c' := by
  simp only [State.handleRead] at h
  split at h
  · rename_i hfits
    split at h
    · rename_i n errno b hread
      have hinput : Reach State.move anyStep c { c with inputBuffer := b } := by
        refine move_reach (m := .readInput readv) ?_
        simp only [State.move, State.readInput, hfits, if_true, hread]
      split at h
      · exact hinput.trans (callback_moves h)
      · split at h
        · exact hinput.trans (handleClose_moves h)
        · cases h
          exact hinput
    · cases h
  · cases h

theorem connectEstablished_moves {acts : List State.Act} (h : c.connectEstablished acts = some c') :
    Reach State.move anyStep c c' :=
  (move_reach (m := .established) rfl).trans (callback_moves h)

theorem connectDestroyed_moves {acts : List State.Act} (h : c.connectDestroyed acts = some c') :
    Reach State.move anyStep c c' := by
  simp only [State.connectDestroyed, Option.bind_eq_bind] at h
  split at h
  · obtain ⟨c₁, hcb, h⟩ := Option.bind_eq_some_iff.mp h
    have hdown : Reach State.move anyStep c c₁ :=
      (move_reach (m := .destroying) rfl).trans (callback_moves hcb)
    exact hdown.trans (move_reach (m := .removed) h)
  · exact move_reach (m := .removed) h

theorem handleEvent_moves {e : State.Event} (h : c.handleEvent e = some c') :
    Reach State.move anyStep c c' := by
  obtain ⟨c₁, c₂, hclose, hread, hwrite⟩ := State.handleEvent_cases h
  have h₁ : Reach State.move anyStep c c₁ := by
    split at hclose
    · exact handleClose_moves hclose
    · exact hclose ▸ .refl
  have h₂ : Reach State.move anyStep c₁ c₂ := by
    split at hread
    · exact handleRead_moves hread
    · exact hread ▸ .refl
  have h₃ : Reach State.move anyStep c₂ c' := by
    split at hwrite
    · exact move_reach (m := .handleWrite e.write) hwrite
    · exact hwrite ▸ .refl
  exact (h₁.trans h₂).trans h₃

/-- A functor that does more than the two calls leaves the queue. -/
theorem pop_reach {f : Functor} {rest : List Functor} (hp : c.pendingFunctors = f :: rest)
    (hsend : ∀ t message, f ≠ .sendInLoop t message) (hshut : f ≠ .shutdownInLoop) :
    Reach State.move anyStep c { c with pendingFunctors := rest } := by
  refine move_reach (m := .pop) ?_
  cases f with
  | sendInLoop t message => exact absurd rfl (hsend t message)
  | shutdownInLoop => exact absurd rfl hshut
  | _ => simp only [State.move, hp]

theorem runFunctor_moves {f : Functor} {rest : List Functor} {acts : List State.Act}
    {write : WriteResult} (hp : c.pendingFunctors = f :: rest)
    (h : { c with pendingFunctors := rest }.runFunctor acts write f = some c') :
    Reach State.move anyStep c c' := by
  cases f with
  | sendInLoop t message =>
    refine move_reach (m := .sendFunctor write) ?_
    simp only [State.move, hp]
    exact h
  | shutdownInLoop =>
    refine move_reach (m := .shutdownFunctor) ?_
    simp only [State.move, hp]
    exact h
  | connectEstablished =>
    have hpop := pop_reach hp (by simp) (by simp)
    exact hpop.trans (connectEstablished_moves h)
  | connectDestroyed =>
    have hpop := pop_reach hp (by simp) (by simp)
    exact hpop.trans (connectDestroyed_moves h)
  | forceCloseInLoop =>
    have hpop := pop_reach hp (by simp) (by simp)
    simp only [State.runFunctor] at h
    split at h
    · exact hpop.trans (handleClose_moves h)
    · cases h
      exact hpop
  | startReadInLoop =>
    have hpop := pop_reach hp (by simp) (by simp)
    exact hpop.trans (move_reach (m := .act .startRead) h)
  | stopReadInLoop =>
    have hpop := pop_reach hp (by simp) (by simp)
    exact hpop.trans (move_reach (m := .act .stopRead) h)
  | writeCompleteCallback =>
    have hpop := pop_reach hp (by simp) (by simp)
    exact hpop.trans (callback_moves h)
  | highWaterMarkCallback len =>
    have hpop := pop_reach hp (by simp) (by simp)
    exact hpop.trans (callback_moves h)

/-- **Every step is a run of moves.**  An event is its callbacks one after the other, a callback
the calls in it, and `handle_close` is cut at its two callbacks; nothing that a step does is left
out. -/
theorem step_moves {l : Label} (h : c.step l = some c') : Reach State.move anyStep c c' := by
  cases step_inv h with
  | event hr hev => exact handleEvent_moves hev
  | runFunctor hp hrun => exact runFunctor_moves hp hrun
  | @act a _ hs hact => exact move_reach (m := .act a) hact
  | delayFires => exact move_reach (m := .delayFires) h
  | removeConnectionInLoop => exact move_reach (m := .removeConnectionInLoop) h
  | serverQueuesDestroy => exact move_reach (m := .serverQueuesDestroy) h
  | serverDestroys hs hdestroy => exact connectDestroyed_moves hdestroy

/-- And so is every run of steps: what holds in every run of moves holds in every run. -/
theorem reach_moves {c₀ : State} (h : Reach State.step anyStep c₀ c) : Reach State.move anyStep c₀ c := by
  obtain ⟨d, hmoves, rfl⟩ := h.simulation (R := Eq) rfl fun s _ s' _ hs _ hst =>
    ⟨s', hs ▸ step_moves hst, rfl⟩
  exact hmoves

/-! ## 3. Which moves issue `shutdown_write` -/

/-- The move comes to `_socket->shutdown_write()`. -/
def HalfCloses (c : State) : Move → Prop
  | .act .shutdown => c.state = .connected ∧ c.channel.isWriting = false
  | .handleWrite (.wrote n) =>
    c.channel.isWriting = true ∧ 0 < n ∧ (c.outputBuffer.retrieve n).readableBytes = 0 ∧
      c.state = .disconnecting
  | .shutdownFunctor => c.channel.isWriting = false
  | _ => False

instance (c : State) : ∀ m, Decidable (HalfCloses c m)
  | .act .shutdown =>
    inferInstanceAs (Decidable (c.state = .connected ∧ c.channel.isWriting = false))
  | .handleWrite (.wrote n) =>
    inferInstanceAs (Decidable (c.channel.isWriting = true ∧ 0 < n ∧
      (c.outputBuffer.retrieve n).readableBytes = 0 ∧ c.state = .disconnecting))
  | .shutdownFunctor => inferInstanceAs (Decidable (c.channel.isWriting = false))
  | .act (.send _ _) | .act .forceClose | .act .forceCloseWithDelay | .act .startRead
  | .act .stopRead | .act (.retrieveInput _) | .act (.thread _ _) | .handleWrite (.failed _)
  | .sendFunctor _ | .pop | .readInput _ | .established | .closing | .closed | .destroying
  | .removed | .delayFires | .removeConnectionInLoop | .serverQueuesDestroy => .isFalse id

/-- The history that the parts of `send_in_loop` leave as it is. -/
structure SameHistory (c c' : State) : Prop where
  halfCloses : c'.halfCloses = c.halfCloses
  processed : c'.processed = c.processed
  called : c'.called = c.called

theorem sameHistory_writeComplete (c : State) : SameHistory c c.writeComplete := by
  unfold State.writeComplete
  split
  · exact ⟨rfl, rfl, rfl⟩
  · exact ⟨rfl, rfl, rfl⟩

theorem sameHistory_crossHighWaterMark (c : State) (remaining : Nat) :
    SameHistory c (c.crossHighWaterMark remaining) := by
  unfold State.crossHighWaterMark
  dsimp only
  split
  · exact ⟨rfl, rfl, rfl⟩
  · exact ⟨rfl, rfl, rfl⟩

theorem sameHistory_bufferRest {message : List Byte} {n : Nat} (h : c.bufferRest message n = some c') :
    SameHistory c c' := by
  simp only [State.bufferRest] at h
  split at h
  · split at h
    · cases h
      obtain ⟨hh, hp, hc⟩ := sameHistory_crossHighWaterMark c (message.length - n)
      exact ⟨hh, hp, hc⟩
    · cases h
  · cases h
    exact ⟨rfl, rfl, rfl⟩

theorem sameHistory_writeDirectly {message : List Byte} {write : WriteResult}
    (h : c.writeDirectly message write = some c') : SameHistory c c' := by
  cases write with
  | wrote n =>
    simp only [State.writeDirectly] at h
    split at h
    · have hrest := sameHistory_bufferRest h
      split at hrest
      · have hwc := sameHistory_writeComplete { c with written := c.written ++ message.take n }
        exact ⟨hrest.halfCloses.trans hwc.halfCloses, hrest.processed.trans hwc.processed,
          hrest.called.trans hwc.called⟩
      · exact ⟨hrest.halfCloses, hrest.processed, hrest.called⟩
    · cases h
  | failed errno =>
    simp only [State.writeDirectly] at h
    split at h
    · cases h
      exact ⟨rfl, rfl, rfl⟩
    · exact sameHistory_bufferRest h

/-- `send_in_loop` only notes the message as processed. -/
theorem sameHistory_sendInLoop {t : Tid} {message : List Byte} {write : WriteResult}
    (h : c.sendInLoop t message write = some c') :
    SameHistory { c with processed := c.processed ++ [(t, message)] } c' := by
  simp only [State.sendInLoop] at h
  split at h
  · split at h
    · cases h
      exact ⟨rfl, rfl, rfl⟩
    · split at h
      · exact sameHistory_writeDirectly h
      · exact sameHistory_bufferRest h
  · cases h

theorem threadStep_history {t : Tid} {step : State.ThreadStep} (h : c.threadStep t step = some c') :
    c'.halfCloses = c.halfCloses ∧ c.called <+: c'.called := by
  cases (threadStep_inv h).2 with
  | send => exact ⟨rfl, List.prefix_append _ _⟩
  | _ => exact ⟨rfl, List.prefix_rfl⟩

/-- What a move that issues `shutdown_write` leaves: one half-close more, of what the output
buffer held, with no write interest and nothing processed in between. -/
structure HalfClosed (c c' : State) : Prop where
  halfCloses : c'.halfCloses = c.halfCloses ++ [c'.outputBuffer.contents]
  notWriting : c'.channel.isWriting = false
  processed : c'.processed = c.processed
  ended : c'.ended = c.ended

theorem shutdownInLoop_halfCloses (c : State) :
    c.shutdownInLoop.halfCloses = c.halfCloses ∨
      c.channel.isWriting = false ∧ HalfClosed c c.shutdownInLoop := by
  unfold State.shutdownInLoop
  split
  · exact .inl rfl
  · rename_i hw
    rw [Bool.not_eq_true] at hw
    exact .inr ⟨hw, rfl, hw, rfl, rfl⟩

theorem shutdownInLoop_called (c : State) : c.shutdownInLoop.called = c.called := by
  unfold State.shutdownInLoop
  split
  · rfl
  · rfl

theorem forceClose_history (c : State) :
    c.forceClose.halfCloses = c.halfCloses ∧ c.forceClose.called = c.called := by
  unfold State.forceClose
  split
  · exact ⟨rfl, rfl⟩
  · exact ⟨rfl, rfl⟩

/-- What a move adds to the history: a `shutdown_write` at most once, and only as `HalfCloses` says,
and the calls that begin with it. -/
structure Noted (c : State) (m : Move) (c' : State) : Prop where
  halfCloses : c'.halfCloses = c.halfCloses ∨ HalfCloses c m ∧ HalfClosed c c'
  called : c.called <+: c'.called

theorem Noted.of_eq {m : Move} (hh : c'.halfCloses = c.halfCloses) (hc : c'.called = c.called) :
    Noted c m c' := ⟨.inl hh, hc ▸ List.prefix_rfl⟩

theorem act_noted {a : State.Act} (h : c.act a = some c') : Noted c (.act a) c' := by
  cases a with
  | send message write =>
    simp only [State.act] at h
    split at h
    · have hsame := sameHistory_sendInLoop h
      refine ⟨.inl hsame.halfCloses, ?_⟩
      rw [hsame.called]
      exact List.prefix_append _ _
    · cases h
      exact .of_eq rfl rfl
  | shutdown =>
    cases h
    split
    · rename_i hs
      refine ⟨?_, ?_⟩
      · rcases shutdownInLoop_halfCloses (c.setState .disconnecting) with hsame | ⟨hw, hh⟩
        · exact .inl hsame
        · exact .inr ⟨⟨hs, hw⟩, hh.halfCloses, hh.notWriting, hh.processed,
            hh.ended.trans (Bool.or_false _)⟩
      · have hsame : (c.setState .disconnecting).shutdownInLoop.called = c.called :=
          shutdownInLoop_called _
        simp only [hsame, List.prefix_rfl]
    · exact .of_eq rfl rfl
  | forceClose =>
    cases h
    obtain ⟨hh, hc⟩ := forceClose_history c
    exact .of_eq hh hc
  | forceCloseWithDelay =>
    cases h
    split <;> exact .of_eq rfl rfl
  | startRead =>
    cases h
    rw [State.startReadInLoop]
    split <;> exact .of_eq rfl rfl
  | stopRead =>
    cases h
    rw [State.stopReadInLoop]
    split <;> exact .of_eq rfl rfl
  | retrieveInput len =>
    cases h
    exact .of_eq rfl rfl
  | thread t step =>
    obtain ⟨hh, hc⟩ := threadStep_history h
    exact ⟨.inl hh, hc⟩

theorem wroteOutput_halfCloses (c : State) (n : Nat) (b : Buffer) :
    (c.wroteOutput n b).halfCloses = c.halfCloses ∨
      (b.readableBytes = 0 ∧ c.state = .disconnecting) ∧ HalfClosed c (c.wroteOutput n b) := by
  simp only [State.wroteOutput]
  split
  · rename_i hempty
    -- the state in which `handle_write` tests for `Disconnecting`
    set d := ({ c with written := c.written ++ c.outputBuffer.contents.take n, outputBuffer := b,
                       channel := c.channel.disableWriting } : State).writeComplete with hd
    have hhalf : d.halfCloses = c.halfCloses := (sameHistory_writeComplete _).halfCloses
    have hproc : d.processed = c.processed := (sameHistory_writeComplete _).processed
    have hstate : d.state = c.state := by
      rw [hd, State.writeComplete]
      split <;> rfl
    have hended : d.ended = c.ended := by
      rw [hd, State.writeComplete]
      split <;> rfl
    split
    · rename_i hs
      rcases shutdownInLoop_halfCloses d with hsame | ⟨-, hh⟩
      · exact .inl (hsame.trans hhalf)
      · refine .inr ⟨⟨hempty, hstate ▸ hs⟩, ?_, hh.notWriting, hh.processed.trans hproc,
          hh.ended.trans hended⟩
        rw [hh.halfCloses, hhalf]
    · exact .inl hhalf
  · exact .inl rfl

theorem wroteOutput_called (c : State) (n : Nat) (b : Buffer) :
    (c.wroteOutput n b).called = c.called := by
  simp only [State.wroteOutput]
  split
  · split
    · rw [shutdownInLoop_called, (sameHistory_writeComplete _).called]
    · rw [(sameHistory_writeComplete _).called]
  · rfl

theorem handleWrite_noted {write : WriteResult} (h : c.handleWrite write = some c') :
    Noted c (.handleWrite write) c' := by
  simp only [State.handleWrite] at h
  split at h
  · rename_i hw
    split at h
    · rename_i n
      split at h
      · cases h
        split
        · rename_i hn
          have hcalled := wroteOutput_called c n (c.outputBuffer.retrieve n)
          rcases wroteOutput_halfCloses c n (c.outputBuffer.retrieve n) with hsame | ⟨⟨he, hs⟩, hh⟩
          · exact .of_eq hsame hcalled
          · exact ⟨.inr ⟨⟨hw, hn, he, hs⟩, hh⟩, hcalled ▸ List.prefix_rfl⟩
        · exact .of_eq rfl rfl
      · cases h
    · cases h
      exact .of_eq rfl rfl
  · cases h
    exact .of_eq rfl rfl

/-- **What a move notes.**  By cases over the moves; those that issue `shutdown_write` are the
ones named in `HalfCloses`. -/
theorem move_noted {m : Move} (h : c.move m = some c') : Noted c m c' := by
  cases m with
  | act a => exact act_noted h
  | sendFunctor write =>
    simp only [State.move] at h
    split at h
    · have hsame := sameHistory_sendInLoop h
      exact .of_eq hsame.halfCloses hsame.called
    · cases h
  | shutdownFunctor =>
    simp only [State.move] at h
    split at h
    · rename_i rest hp
      cases h
      have hcalled : ({ c with pendingFunctors := rest } : State).shutdownInLoop.called = c.called :=
        shutdownInLoop_called _
      rcases shutdownInLoop_halfCloses { c with pendingFunctors := rest } with hsame | ⟨hw, hh⟩
      · exact .of_eq hsame hcalled
      · exact ⟨.inr ⟨hw, hh.halfCloses, hh.notWriting, hh.processed, hh.ended⟩,
          by simp only [hcalled, List.prefix_rfl]⟩
    · cases h
  | pop =>
    simp only [State.move] at h
    split at h
    all_goals cases h
    exact .of_eq rfl rfl
  | readInput readv =>
    simp only [State.move, State.readInput] at h
    split at h
    · split at h
      · cases h
        exact .of_eq rfl rfl
      · cases h
    · cases h
  | handleWrite write => exact handleWrite_noted h
  | established => cases h; exact .of_eq rfl rfl
  | closing => cases h; exact .of_eq rfl rfl
  | closed =>
    cases h
    rw [State.closed]
    dsimp only
    split <;> exact .of_eq rfl rfl
  | destroying => cases h; exact .of_eq rfl rfl
  | removed => cases h; exact .of_eq rfl rfl
  | delayFires =>
    cases step_inv (l := .delayFires) h with
    | @delayFires n hn =>
      obtain ⟨hh, hc⟩ := forceClose_history { c with delayed := n }
      exact .of_eq hh hc
  | removeConnectionInLoop =>
    cases step_inv (l := .removeConnectionInLoop) h with
    | removeConnectionInLoop hn => exact .of_eq rfl rfl
  | serverQueuesDestroy => cases h; exact .of_eq rfl rfl

/-- Half-closes are only added: those that were noted before stay in front. -/
theorem step_halfCloses_prefix {l : Label} (h : c.step l = some c') :
    c.halfCloses <+: c'.halfCloses := by
  refine (step_moves h).invariant (I := fun d => c.halfCloses <+: d.halfCloses) List.prefix_rfl ?_
  intro d m d' hd _ hm
  rcases (move_noted hm).halfCloses with hsame | ⟨-, hh⟩
  · exact hsame ▸ hd
  · rw [hh.halfCloses]
    exact hd.trans (List.prefix_append _ _)

/-! ## 4. The account, move by move -/

/-- Every move keeps the account of the output. -/
theorem move_flow {m : Move} (h : Flow c []) (hst : c.move m = some c') : Flow c' [] := by
  cases m with
  | act a => exact h.act hst
  | sendFunctor write =>
    simp only [State.move] at hst
    split at hst
    · rename_i t message rest hp
      exact Flow.sendInLoop (c := { c with pendingFunctors := rest }) (h.popSend hp) hst
    · cases hst
  | shutdownFunctor =>
    simp only [State.move] at hst
    split at hst
    · rename_i rest hp
      cases hst
      exact (h.popFunctor hp fun _ => rfl).shutdownInLoop
    · cases hst
  | pop =>
    simp only [State.move] at hst
    split at hst
    · cases hst
    · cases hst
    · cases hst
    · rename_i f rest hsend hshut hp
      cases hst
      refine h.popFunctor hp fun t => ?_
      cases f with
      | sendInLoop u message => exact absurd rfl (hsend u message)
      | _ => rfl
  | readInput readv =>
    simp only [State.move, State.readInput] at hst
    split at hst
    · split at hst
      · cases hst
        exact h.setInput _
      · cases hst
    · cases hst
  | handleWrite write => exact h.handleWrite hst
  | established =>
    cases hst
    have h' := (h.setState .connected).setChannel (Channel.isWriting_enableReading c.channel)
    exact ⟨h'.wf, h'.gone, h'.stream, h'.writing, h'.halfCloses, h'.order, h'.direct⟩
  | closing =>
    cases hst
    have h' := (h.setState .disconnected).setChannel_of_ended (by simp [State.setState])
      c.channel.disableAll
    exact ⟨h'.wf, h'.gone, h'.stream, h'.writing, h'.halfCloses, h'.order, h'.direct⟩
  | closed =>
    cases hst
    have h' : Flow { c with closeCallbacks := c.closeCallbacks + 1 } [] :=
      ⟨h.wf, h.gone, h.stream, h.writing, h.halfCloses, h.order, h.direct⟩
    rw [State.closed]
    dsimp only
    split
    · exact h'.queueInLoop fun _ => rfl
    · exact ⟨h'.wf, h'.gone, h'.stream, h'.writing, h'.halfCloses, h'.order, h'.direct⟩
  | destroying =>
    cases hst
    have h' := (h.setState .disconnected).setChannel_of_ended (by simp [State.setState])
      c.channel.disableAll
    exact ⟨h'.wf, h'.gone, h'.stream, h'.writing, h'.halfCloses, h'.order, h'.direct⟩
  | removed =>
    cases hst
    exact h.setChannel (Channel.isWriting_remove _)
  | delayFires => exact step_flow (l := .delayFires) h hst
  | removeConnectionInLoop => exact step_flow (l := .removeConnectionInLoop) h hst
  | serverQueuesDestroy => exact step_flow (l := .serverQueuesDestroy) h hst

end Suduo.TcpConnection
