/-
# Whether a removed channel stays removed

After `connect_destroyed` the channel is out of `Poller::_channels`.  What can put it back is any
operation that goes on to change the mask: the poller takes an unknown descriptor for a new one.
`start_read` and `stop_read` do that in any state; `force_close_in_loop` and a queued `send_in_loop`
do it when `connect_destroyed` has found the connection `Disconnecting` and left it so.

And `connect_destroyed` need not be the last the loop does with the channel.  Where user code
destroys the server, in a callback of this connection or of anything else in the same batch, the
callbacks that `handle_event` has still to make are made nevertheless, and so are those of a report
that is not handled yet.  A hang-up or the end of the stream among them runs `handle_close`, and
`disable_all` puts the channel back; so does `disable_writing`, when `handle_write` writes the last
of the output.

`stays_out` has the exact list, as a condition on the state in which each of them runs.
-/
import Suduo.Net.TcpDestroy

namespace Suduo.TcpConnection

open Lib

/-! ## 1. What changes the mask -/

/-- A destroyed connection is not in `Poller::_channels`. -/
def Nested.StaysOut (s : Nested) : Prop := s.destroyed = true → s.conn.channel.inChannels = false

/-- The call changes the mask. -/
def State.Act.touches (c : State) : State.Act → Bool
  | .startRead => !c.reading || !c.channel.isReading
  | .stopRead => c.reading || c.channel.isReading
  | _ => false

/-- `send_in_loop` leaves something in the output buffer and asks for write events. -/
def State.buffers (c : State) (message : List Byte) (write : WriteResult) : Bool :=
  c.state != .disconnected && !c.channel.isWriting &&
    if c.outputBuffer.readableBytes = 0 then
      match write with
      | .wrote n => decide (n < message.length)
      | .failed errno => errno != .epipe && errno != .econnreset && decide (0 < message.length)
    else decide (0 < message.length)

/-- The functor changes the mask. -/
def Functor.touches (c : State) (write : WriteResult) : Functor → Bool
  | .startReadInLoop => State.Act.touches c .startRead
  | .stopReadInLoop => State.Act.touches c .stopRead
  | .forceCloseInLoop => c.open?
  | .sendInLoop _ message => c.buffers message write
  | .connectEstablished | .connectDestroyed | .shutdownInLoop | .writeCompleteCallback
  | .highWaterMarkCallback _ => false

/-- `handle_write` has write interest, writes, and has nothing left to write. -/
def State.empties (c : State) : WriteResult → Bool
  | .wrote n => c.channel.isWriting && decide (0 < n) && decide ((c.outputBuffer.retrieve n).readableBytes = 0)
  | .failed _ => false

/-- The callback of `handle_event` changes the mask: it closes, or empties the output. -/
def State.callbackTouches (c : State) (readv : Except Nat (List Byte)) (write : WriteResult) :
    Channel.Callback → Bool
  | .close => true
  | .error => false
  | .read => decide (readv = .ok [])
  | .write => c.empties write

namespace Nested

/-- The step changes the mask of a destroyed connection. -/
def Label.touches (s : Nested) : Label → Bool
  | .callback readv write =>
    match s.stack with
    | .event (cb :: _) :: _ => s.conn.callbackTouches readv write cb
    | _ => false
  | .act a => a.touches s.conn
  | .runFunctor write =>
    match s.conn.pendingFunctors with
    | f :: _ => f.touches s.conn write
    | [] => false
  | .poll _ | .dispatch | .returns | .destroyServer | .delayFires | .removeConnectionInLoop
  | .serverQueuesDestroy => false

/-- Once it is destroyed, no step changes the mask. -/
def LeftAlone (s : Nested) (l : Label) : Prop := s.destroyed = true → l.touches s = false

instance (s : Nested) (l : Label) : Decidable (s.LeftAlone l) := inferInstanceAs (Decidable (_ → _))

end Nested

/-! ## 2. What touches the channel -/

variable {c c' : State}

/-- Neither `Connecting` nor `Connected`: after `connect_destroyed`. -/
def State.past (c : State) : Prop := c.state = .disconnected ∨ c.state = .disconnecting

theorem State.past.moves {onLoop : Bool} (h : c.past) (hm : Moves onLoop c.state c'.state) :
    c'.past := by
  rcases hm with hs | ⟨hs, -⟩
  · rw [State.past, hs]
    exact h
  · exact .inr hs

/-- The second `connect_destroyed` of a connection, or one that finds it down. -/
theorem connectDestroyed_past {s : Nested} (h : s.conn.past) :
    s.connectDestroyed.conn.channel.inChannels = false ∧ s.connectDestroyed.conn.past := by
  have hup : s.conn.state ≠ .connected := by rcases h with h | h <;> simp [h]
  rw [Nested.connectDestroyed, if_neg hup]
  exact ⟨Channel.inChannels_remove _, h⟩

theorem startReadInLoop_touches (hin : c.channel.inChannels = false) :
    c.startReadInLoop.channel.inChannels = State.Act.touches c .startRead := by
  unfold State.startReadInLoop
  split
  · rename_i h
    rcases h with h | h <;> simp [State.Act.touches, Channel.enableReading, h]
  · rename_i h
    simp only [not_or, Bool.not_eq_false] at h
    simp [State.Act.touches, h.1, h.2, hin]

theorem stopReadInLoop_touches (hin : c.channel.inChannels = false) :
    c.stopReadInLoop.channel.inChannels = State.Act.touches c .stopRead := by
  unfold State.stopReadInLoop
  split
  · rename_i h
    rcases h with h | h <;> simp [State.Act.touches, Channel.disableReading, h]
  · rename_i h
    simp only [not_or, Bool.not_eq_true] at h
    simp [State.Act.touches, h.1, h.2, hin]

theorem forceClose_channel (c : State) : c.forceClose.channel = c.channel := by
  unfold State.forceClose
  split <;> rfl

/-- A call on a destroyed connection puts the channel back exactly if it changes the mask. -/
theorem act_touches {a : State.Act} (hp : c.past) (hin : c.channel.inChannels = false)
    (h : c.act a = some c') : c'.channel.inChannels = a.touches c := by
  have hup : c.state ≠ .connected := by rcases hp with hp | hp <;> simp [hp]
  cases a with
  | send message write =>
    simp only [State.act, if_neg hup] at h
    cases h
    exact hin
  | shutdown =>
    simp only [State.act, if_neg hup] at h
    cases h
    exact hin
  | forceClose =>
    cases h
    rw [forceClose_channel]
    exact hin
  | forceCloseWithDelay =>
    cases h
    split <;> exact hin
  | startRead =>
    cases h
    exact startReadInLoop_touches hin
  | stopRead =>
    cases h
    exact stopReadInLoop_touches hin
  | retrieveInput len =>
    cases h
    exact hin
  | thread t step =>
    rw [threadStep_channel h]
    exact hin

/-- The end of `send_in_loop` touches the mask exactly if something is left to be buffered, and
write interest is not set yet. -/
theorem bufferRest_touches {message : List Byte} {n : Nat}
    (h : c.bufferRest message n = some c') (hin : c.channel.inChannels = false) :
    c'.channel.inChannels = (!c.channel.isWriting && decide (n < message.length)) := by
  have hcross : (c.crossHighWaterMark (message.length - n)).channel = c.channel := by
    simp only [State.crossHighWaterMark]
    split <;> rfl
  simp only [State.bufferRest] at h
  split at h
  · rename_i hpos
    have hlt : n < message.length := by omega
    split at h
    · cases h
      change (ite _ _ _ : Channel).inChannels = _
      rw [hcross]
      split
      · rename_i hw
        simp [hw, hin]
      · rename_i hw
        simp [hw, hlt, Channel.enableWriting]
    · cases h
  · rename_i hpos
    have hge : ¬ n < message.length := by omega
    cases h
    simp [hge, hin]

theorem closed_channel (c : State) : c.closed.channel = c.channel := by
  unfold State.closed
  dsimp only
  split <;> rfl

theorem writeComplete_channel (c : State) : c.writeComplete.channel = c.channel := by
  unfold State.writeComplete
  split <;> rfl

theorem sendInLoop_touches {t : Tid} {message : List Byte} {write : WriteResult}
    (hin : c.channel.inChannels = false) (h : c.sendInLoop t message write = some c') :
    c'.channel.inChannels = c.buffers message write := by
  simp only [State.sendInLoop] at h
  split at h
  · split at h
    · rename_i hd
      cases h
      simp only [State.buffers, show c.state = .disconnected from hd]
      exact hin
    · rename_i hd
      have hd' : (c.state != .disconnected) = true := by simpa using hd
      split at h
      · rename_i hidle
        have hw : c.channel.isWriting = false := hidle.1
        have he : c.outputBuffer.readableBytes = 0 := hidle.2
        cases write with
        | wrote n =>
          simp only [State.writeDirectly] at h
          split at h
          · split at h
            · have hb := bufferRest_touches h (by rw [writeComplete_channel]; exact hin)
              rw [hb, writeComplete_channel]
              simp [State.buffers, hd', hw, he]
            · have hb := bufferRest_touches h hin
              rw [hb]
              simp [State.buffers, hd', hw, he]
          · cases h
        | failed errno =>
          simp only [State.writeDirectly] at h
          split at h
          · rename_i hfault
            cases h
            rcases hfault with hf | hf <;> simp [State.buffers, hf, he, hin]
          · rename_i hfault
            rw [not_or] at hfault
            have hb := bufferRest_touches h hin
            rw [hb]
            simp [State.buffers, hd', hw, he, hfault.1, hfault.2]
      · rename_i hidle
        have hb := bufferRest_touches h hin
        rw [hb]
        simp only [State.buffers, hd', Bool.true_and]
        split
        · rename_i he
          have hw : c.channel.isWriting = true := by
            by_contra hw
            exact hidle ⟨by simpa using hw, he⟩
          simp [hw]
        · rfl
  · cases h

theorem shutdownInLoop_channel (c : State) : c.shutdownInLoop.channel = c.channel := by
  unfold State.shutdownInLoop
  split <;> rfl

theorem wroteOutput_channel (c : State) (n : Nat) (b : Buffer) :
    (c.wroteOutput n b).channel = if b.readableBytes = 0 then c.channel.disableWriting else c.channel := by
  simp only [State.wroteOutput]
  split
  · split
    · rw [shutdownInLoop_channel, writeComplete_channel]
    · rw [writeComplete_channel]
  · rfl

/-- `handle_write`: exactly if it empties the output, since `disable_writing` is all that it does
to the channel. -/
theorem handleWrite_touches {write : WriteResult} (hin : c.channel.inChannels = false)
    (h : c.handleWrite write = some c') : c'.channel.inChannels = c.empties write := by
  simp only [State.handleWrite] at h
  split at h
  · rename_i hw
    cases write with
    | wrote n =>
      simp only [Option.ite_none_right_eq_some, Option.some.injEq] at h
      obtain ⟨-, rfl⟩ := h
      simp only [State.empties, hw, Bool.true_and]
      split
      · rename_i hpos
        rw [wroteOutput_channel]
        split
        · rename_i hempty
          simp [hpos, hempty, Channel.disableWriting]
        · rename_i hempty
          simp [hempty, hin]
      · rename_i hpos
        simp [hpos, hin]
    | failed errno =>
      cases h
      exact hin
  · rename_i hw
    cases h
    cases write <;> simp [State.empties, hw, hin]

namespace Nested

variable {s s' : Nested}

/-- A callback of `handle_event`: the event was reported while the channel was still in the
poller, and the code does not ask again. -/
theorem callback_touches {readv : Except Nat (List Byte)} {write : WriteResult}
    (hin : s.conn.channel.inChannels = false) (hst : s.step (.callback readv write) = some s') :
    s'.conn.channel.inChannels = Label.touches s (.callback readv write) := by
  cases nested_inv hst with
  | close hs =>
    simp [Label.touches, hs, State.callbackTouches, Nested.handleClose, State.closing, Channel.disableAll]
  | error hs => simp [Label.touches, hs, State.callbackTouches, hin]
  | readData hs hne | readNothing hs hne =>
    have hno : decide (readv = .ok []) = false := decide_eq_false hne
    simp only [Label.touches, hs, State.callbackTouches, hno, hin]
  | readEnd hs =>
    simp [Label.touches, hs, State.callbackTouches, Nested.handleClose, State.closing, Channel.disableAll]
  | write hs hc =>
    simp only [Label.touches, hs, State.callbackTouches]
    exact handleWrite_touches hin hc

/-- A functor of a destroyed connection puts its channel back exactly if it touches the mask. -/
theorem runFunctor_touches {f : Functor} {write : WriteResult} (hp : s.conn.past)
    (hin : s.conn.channel.inChannels = false) (hf : f ≠ .connectEstablished)
    (hst : s.runFunctor write f = some s') : s'.conn.channel.inChannels = f.touches s.conn write := by
  cases f with
  | connectEstablished => exact absurd rfl hf
  | connectDestroyed =>
    cases hst
    exact (connectDestroyed_past hp).1
  | sendInLoop t message =>
    obtain ⟨c, hc, rfl⟩ := Option.map_eq_some_iff.mp hst
    exact sendInLoop_touches hin hc
  | shutdownInLoop =>
    cases hst
    exact (congrArg Channel.inChannels (shutdownInLoop_channel s.conn)).trans hin
  | forceCloseInLoop =>
    cases hst
    split
    · rename_i hopen
      simp [Functor.touches, hopen, Nested.handleClose, State.closing, Channel.disableAll]
    · rename_i hopen
      simp [Functor.touches, hopen, hin]
  | startReadInLoop =>
    cases hst
    exact startReadInLoop_touches hin
  | stopReadInLoop =>
    cases hst
    exact stopReadInLoop_touches hin
  | writeCompleteCallback | highWaterMarkCallback =>
    cases hst
    exact hin

/-! ## 3. Runs -/

/-- Between two steps: a connection whose destruction has begun is past being up, and once it is
destroyed it is out of the poller. -/
structure Gone (s : Nested) : Prop where
  kept : Kept true s
  past : s.Begun → s.conn.past
  out : s.StaysOut

/-- `connect_destroyed` leaves a state that the connection does not come back from. -/
theorem connectDestroyed_isPast (hs : s.conn.state ≠ .connecting) : s.connectDestroyed.conn.past := by
  unfold Nested.connectDestroyed
  split
  · exact .inl rfl
  · rename_i hup
    change s.conn.past
    cases hc : s.conn.state with
    | connecting => exact absurd hc hs
    | connected => exact absurd hc hup
    | disconnected => exact .inl hc
    | disconnecting => exact .inr hc

theorem Keeps.past (h : Keeps s s') (hp : s.conn.past) : s'.conn.past := by
  rcases h.state with hmoves | hdown
  · exact hp.moves hmoves
  · exact .inl hdown

theorem Gone.past_step {l : Label} (h : Gone s) (hst : s.step l = some s') (hb : s'.Begun) : s'.conn.past := by
  cases l with
  | act a =>
    cases nested_inv hst with
    | act hm hc => exact (h.past hb).moves (frame_act hc).state
  | destroyServer =>
    cases nested_inv hst with
    | destroyServer hu hs => exact connectDestroyed_isPast hs
  | runFunctor write =>
    cases nested_inv hst with
    | @runFunctor _ f rest _ hs hp hq hf =>
      by_cases hfe : f = .connectEstablished
      · have hbefore := h.kept.before ((h.kept.first_functor hq).mp hfe)
        subst hfe
        cases hf
        simp [Begun, Nested.setConn, hbefore] at hb
      · by_cases hfd : f = .connectDestroyed
        · have hup : s.conn.state ≠ .connecting := by rwa [ne_eq, ← h.kept.first_functor hq]
          subst hfd
          cases hf
          exact connectDestroyed_isPast (s := s.setConn { s.conn with pendingFunctors := rest }) hup
        · have hkeeps : Keeps (s.setConn { s.conn with pendingFunctors := rest }) s' :=
            keeps_runFunctor hs hfd hfe hf
          exact hkeeps.past (h.past (hkeeps.begun hb))
  | poll | dispatch | callback | returns | delayFires | removeConnectionInLoop | serverQueuesDestroy =>
    have hkeeps : Keeps s s' := keeps_step rfl hst
    exact hkeeps.past (h.past (hkeeps.begun hb))

/-- **A step on a destroyed connection** puts the channel back exactly if it changes the mask.
By cases over what a step can be; each of them is one of the lemmas of the section before. -/
theorem Gone.touches {l : Label} (h : Gone s) (hd : s.destroyed = true) (hst : s.step l = some s') :
    s'.conn.channel.inChannels = l.touches s := by
  have hin := h.out hd
  have hp := h.past (.inl hd)
  cases l with
  | callback readv write => exact callback_touches hin hst
  | act a =>
    cases nested_inv hst with
    | act hm hc => exact act_touches hp hin hc
  | returns =>
    cases nested_inv hst with
    | eventReturns | callbackReturns => exact hin
    | closingReturns => exact (congrArg Channel.inChannels (closed_channel s.conn)).trans hin
    | destroyingReturns => exact Channel.inChannels_remove _
  | destroyServer =>
    cases nested_inv hst with
    | destroyServer => exact (connectDestroyed_past hp).1
  | runFunctor write =>
    cases nested_inv hst with
    | @runFunctor _ f rest _ hs _ hq hf =>
      have hne : f ≠ .connectEstablished := by
        intro hfe
        have hc := (h.kept.first_functor hq).mp hfe
        rcases hp with hp | hp <;> rw [hc] at hp <;> cases hp
      have ht := runFunctor_touches (s := s.setConn { s.conn with pendingFunctors := rest }) hp hin hne hf
      rw [ht]
      simp only [Label.touches, hq]
      cases f <;> rfl
  | delayFires =>
    cases nested_inv hst with
    | delayFires => exact (congrArg Channel.inChannels (forceClose_channel _)).trans hin
  | poll | dispatch | removeConnectionInLoop | serverQueuesDestroy =>
    cases nested_inv hst
    exact hin

/-- Once destroyed, always destroyed; and the step that completes the destruction takes the
channel out. -/
theorem destroyed_step {l : Label} (hst : s.step l = some s') :
    (s.destroyed = true → s'.destroyed = true) ∧
      (s'.destroyed = true → s.destroyed = true ∨ s'.conn.channel.inChannels = false) := by
  have hsame (h : s'.destroyed = s.destroyed) : (s.destroyed = true → s'.destroyed = true) ∧
      (s'.destroyed = true → s.destroyed = true ∨ s'.conn.channel.inChannels = false) :=
    ⟨h.trans, fun hd => .inl (h.symm.trans hd)⟩
  have hdestroys (s : Nested) : (s.destroyed = true → s.connectDestroyed.destroyed = true) ∧
      (s.connectDestroyed.destroyed = true → s.destroyed = true ∨
        s.connectDestroyed.conn.channel.inChannels = false) := by
    unfold Nested.connectDestroyed
    split
    · exact ⟨id, .inl⟩
    · exact ⟨fun _ => rfl, fun _ => .inr (Channel.inChannels_remove _)⟩
  cases nested_inv hst with
  | destroyingReturns hs => exact ⟨fun _ => rfl, fun _ => .inr (Channel.inChannels_remove _)⟩
  | destroyServer => exact hdestroys s
  | @runFunctor _ f rest _ hs hp hq hf =>
    cases f with
    | connectDestroyed =>
      cases hf
      exact hdestroys (s.setConn { s.conn with pendingFunctors := rest })
    | sendInLoop =>
      obtain ⟨c, -, rfl⟩ := Option.map_eq_some_iff.mp hf
      exact hsame rfl
    | forceCloseInLoop =>
      cases hf
      refine hsame ?_
      split <;> rfl
    | connectEstablished | shutdownInLoop | startReadInLoop | stopReadInLoop | writeCompleteCallback
    | highWaterMarkCallback =>
      cases hf
      exact hsame rfl
  | poll | dispatch | close | error | readData | readNothing | readEnd | write | act | eventReturns
  | callbackReturns | closingReturns | delayFires | removeConnectionInLoop | serverQueuesDestroy => exact hsame rfl

/-- **One step**: it keeps the channel out exactly if it leaves a destroyed connection alone. -/
theorem Gone.step {l : Label} (h : Gone s) (hst : s.step l = some s') :
    (s.LeftAlone l → Gone s') ∧ (s'.StaysOut ↔ s.LeftAlone l) := by
  obtain ⟨hstays, hnew⟩ := destroyed_step hst
  have hiff : s'.StaysOut ↔ s.LeftAlone l := by
    cases hd : s.destroyed with
    | true =>
      simp only [StaysOut, LeftAlone, hd, hstays hd, true_implies, h.touches hd hst]
    | false =>
      have hfirst : s'.StaysOut := by
        intro hd'
        rcases hnew hd' with hh | hh
        · rw [hd] at hh
          cases hh
        · exact hh
      refine iff_of_true hfirst fun hh => ?_
      rw [hd] at hh
      cases hh
  exact ⟨fun hl => ⟨h.kept.step (fun _ => rfl) hst, h.past_step hst, hiff.mpr hl⟩, hiff⟩

end Nested

/-! ## 4. The results -/

/-- **A destroyed connection stays out of the poller, exactly if it is left alone.**  Take any
run in which no step after `connect_destroyed` changes the mask: whatever is called, reported
before or still to be run from the queue, the channel is not in `_channels`.  And the first step
that does change the mask puts it back, since `update_channel` takes a descriptor that it does
not know for a new one. -/
theorem stays_out (loopThread : Tid) (client : Bool) (highWaterMark : Nat)
    (hasWriteComplete hasHighWaterMark : Bool) (s : Nested)
    (h : Reach Nested.step Nested.LeftAlone
      (.init loopThread client highWaterMark hasWriteComplete hasHighWaterMark) s) :
    s.StaysOut ∧ ∀ l s', s.step l = some s' → (s'.StaysOut ↔ s.LeftAlone l) := by
  have hinit : Nested.Gone (.init loopThread client highWaterMark hasWriteComplete hasHighWaterMark) := by
    refine ⟨kept_nested loopThread client highWaterMark hasWriteComplete hasHighWaterMark, ?_, ?_⟩
    · rintro (hb | hb) <;> cases hb
    · rintro ⟨⟩
  have hgone : Nested.Gone s := h.invariant hinit fun _ _ _ hi hg hst => (hi.step hst).1 hg
  exact ⟨hgone.out, fun _ _ hst => (hgone.step hst).2⟩

/-- Reported with data and a hang-up to come, and before the loop comes to it another callback of
the batch destroys the server.  The event is handled nevertheless, and then somebody who still
holds the connection calls it. -/
def calledAfterDestroyed : List Nested.Label :=
  [.runFunctor (.wrote 0), .returns, .poll Events.pollIn, .destroyServer, .returns, .dispatch,
    .callback (.ok [33]) (.wrote 0), .act (.send [33] (.wrote 0)), .returns, .returns, .act .forceClose,
    .act .shutdown, .act (.thread 2 (.send [33]))]

theorem stays_out_calledAfterDestroyed :
    ∃ s, Reach Nested.step Nested.LeftAlone (.init 1 false 64 true true) s ∧ s.destroyed = true ∧
      s.conn.channel.inChannels = false := by
  have hrun : ∃ s, Reach Nested.step Nested.LeftAlone (.init 1 false 64 true true) s ∧ s.destroyed = true :=
    Reach.exists_of_exec calledAfterDestroyed _ (by decide +kernel) (by decide +kernel)
  obtain ⟨s, h, hd⟩ := hrun
  exact ⟨s, h, hd, (stays_out 1 false 64 true true s h).1 hd⟩

/-- **`stop_read` after the end.**  The peer closes, `connect_destroyed` runs, and a holder of
the connection calls `stop_read`.  It tests only whether the connection was reading, and the
poller has the channel again. -/
def stopReadAfterDestroyed : List Nested.Label :=
  [.runFunctor (.wrote 0), .returns, .poll Events.pollHup, .dispatch, .callback (.ok []) (.wrote 0), .returns, .returns,
    .removeConnectionInLoop, .runFunctor (.wrote 0), .act .stopRead]

theorem stopReadAfterDestroyed_puts_back :
    ∃ s, Reach Nested.step anyStep (.init 1 false 64 true true) s ∧ s.destroyed = true ∧
      s.conn.channel.inChannels = true :=
  Reach.exists_of_exec stopReadAfterDestroyed _ (meets_any stopReadAfterDestroyed _) (by decide +kernel)

/-- **A hang-up that was reported before.**  A callback of another channel in the same batch
destroys the server, and the loop then comes to this one: `handle_close` runs on the destroyed
connection, and its assertion on the state fails. -/
def reportedBeforeDestroyed : List Nested.Label :=
  [.runFunctor (.wrote 0), .returns, .poll Events.pollHup, .destroyServer, .returns, .dispatch,
    .callback (.ok []) (.wrote 0)]

theorem reportedBeforeDestroyed_puts_back :
    ∃ s, Reach Nested.step anyStep (.init 1 false 64 true true) s ∧ s.destroyed = true ∧
      s.conn.channel.inChannels = true ∧ s.conn.failed = [.closing] :=
  Reach.exists_of_exec reportedBeforeDestroyed _ (meets_any reportedBeforeDestroyed _) (by decide +kernel)

end Suduo.TcpConnection
