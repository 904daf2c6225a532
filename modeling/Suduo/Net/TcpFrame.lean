/-
# What most of `TcpConnection` leaves alone

Apart from `connect_established`, `handle_close` and `connect_destroyed`, nothing in a connection counts a
callback, and nothing moves its state except the calls that set `Disconnecting`.  Channel operations keep the
poller and the kernel in step, and functors are only appended.

`Frame Q R c c'` says so once for all of them: `Q` is what the appended functors are, `R` how the state
moves.  The pieces on the loop append callbacks only and keep the state (`Frame Queues Eq`).
-/
import Suduo.Net.TcpConnection

namespace Suduo

/-! ## 1. The channel and the kernel -/

namespace Channel

/-- The kernel watches the descriptor exactly when the poller knows it. -/
def Registered (ch : Channel) : Prop := ch.inChannels = ch.interest.isSome

variable {ch : Channel}

theorem registered_update (h : ch.Registered) (events : Events) :
    ({ ch with events := events }.update).Registered := by
  unfold Registered at h
  unfold Registered update ctl
  cases hi : ch.interest <;> cases hc : ch.inChannels <;> simp_all

theorem registered_remove (h : ch.Registered) : ch.remove.Registered := by
  unfold Registered at h
  unfold Registered remove ctl
  cases hi : ch.interest <;> cases hc : ch.inChannels <;> simp_all

@[simp] theorem inChannels_ctl (ch : Channel) (op : CtlOp) :
    (ch.ctl op).inChannels = ch.inChannels := by
  unfold ctl
  split <;> rfl

/-- Every change of the mask puts the channel in `_channels`. -/
@[simp] theorem inChannels_update (ch : Channel) : ch.update.inChannels = true := by
  unfold update
  split
  · rename_i h
    rw [inChannels_ctl, h]
  · rw [inChannels_ctl]

@[simp] theorem inChannels_remove (ch : Channel) : ch.remove.inChannels = false := by
  unfold remove
  split
  · rw [inChannels_ctl]
  · rename_i h
    simpa using h

end Channel

namespace TcpConnection

open Lib

/-! ## 2. Frames -/

/-- Nothing is closed or opened between `c` and `c'`: the functors appended meet `Q` and the
state moves by `R`.  It composes, and it is weaker for weaker `Q` and `R`, so a call is framed by
framing its pieces. -/
structure Frame (Q : Functor → Prop) (R : ConnState → ConnState → Prop) (c c' : State) : Prop where
  ups : c'.ups = c.ups
  downs : c'.downs = c.downs
  closes : c'.closes = c.closes
  closeCallbacks : c'.closeCallbacks = c.closeCallbacks
  state : R c.state c'.state
  functors : ∃ fs, c'.pendingFunctors = c.pendingFunctors ++ fs ∧ ∀ f ∈ fs, Q f
  registered : c.channel.Registered → c'.channel.Registered
  kept : c.channel.inChannels = true → c'.channel.inChannels = true

/-- What `send_in_loop` and `handle_write` queue. -/
def Queues : Functor → Prop
  | .writeCompleteCallback | .highWaterMarkCallback _ => True
  | _ => False

section

variable {Q Q' : Functor → Prop} {R R' : ConnState → ConnState → Prop} {c c' c'' : State}

/-- A step that changes the channel at most is a frame. -/
theorem Frame.of_eq (hu : c'.ups = c.ups) (hd : c'.downs = c.downs) (hc : c'.closes = c.closes)
    (hcb : c'.closeCallbacks = c.closeCallbacks) (hs : R c.state c'.state)
    (hf : c'.pendingFunctors = c.pendingFunctors)
    (hr : c.channel.Registered → c'.channel.Registered)
    (hk : c.channel.inChannels = true → c'.channel.inChannels = true) : Frame Q R c c' :=
  ⟨hu, hd, hc, hcb, hs, ⟨[], by simp [hf], by simp⟩, hr, hk⟩

theorem Frame.refl (c : State) : Frame Q Eq c c := .of_eq rfl rfl rfl rfl rfl rfl id id

theorem Frame.trans (hR : ∀ {s s' s''}, R s s' → R s' s'' → R s s'') (h : Frame Q R c c')
    (h' : Frame Q R c' c'') : Frame Q R c c'' := by
  obtain ⟨fs, hfs, hQ⟩ := h.functors
  obtain ⟨gs, hgs, hQ'⟩ := h'.functors
  refine ⟨h'.ups.trans h.ups, h'.downs.trans h.downs, h'.closes.trans h.closes,
    h'.closeCallbacks.trans h.closeCallbacks, hR h.state h'.state, ⟨fs ++ gs, ?_, ?_⟩,
    h'.registered ∘ h.registered, h'.kept ∘ h.kept⟩
  · rw [hgs, hfs, List.append_assoc]
  · intro f hf
    rcases List.mem_append.mp hf with hf | hf
    · exact hQ f hf
    · exact hQ' f hf

theorem Frame.then (h : Frame Q Eq c c') (h' : Frame Q Eq c' c'') : Frame Q Eq c c'' :=
  h.trans Eq.trans h'

theorem Frame.mono (h : Frame Q R c c') (hQ : ∀ f, Q f → Q' f)
    (hR : ∀ s s', R s s' → R' s s') : Frame Q' R' c c' := by
  obtain ⟨fs, hfs, hq⟩ := h.functors
  exact ⟨h.ups, h.downs, h.closes, h.closeCallbacks, hR _ _ h.state,
    ⟨fs, hfs, fun f hf => hQ f (hq f hf)⟩, h.registered, h.kept⟩

theorem frame_queueInLoop (c : State) {f : Functor} (hf : Q f) : Frame Q Eq c (c.queueInLoop f) :=
  ⟨rfl, rfl, rfl, rfl, rfl, ⟨[f], rfl, by simpa using hf⟩, id, id⟩

/-! ## 3. The pieces on the loop -/

theorem frame_writeComplete (c : State) : Frame Queues Eq c c.writeComplete := by
  unfold State.writeComplete
  split
  · exact frame_queueInLoop c trivial
  · exact .refl c

theorem frame_crossHighWaterMark (c : State) (remaining : Nat) :
    Frame Queues Eq c (c.crossHighWaterMark remaining) := by
  simp only [State.crossHighWaterMark]
  split
  · exact frame_queueInLoop c trivial
  · exact .refl c

theorem frame_shutdownInLoop (c : State) : Frame Queues Eq c c.shutdownInLoop := by
  unfold State.shutdownInLoop
  split
  · exact .refl c
  · exact .of_eq rfl rfl rfl rfl rfl rfl id id

theorem frame_bufferRest {message : List Byte} {n : Nat} (h : c.bufferRest message n = some c') :
    Frame Queues Eq c c' := by
  simp only [State.bufferRest] at h
  split at h
  · have hcross := frame_crossHighWaterMark c (message.length - n)
    split at h
    · cases h
      refine hcross.then (.of_eq rfl rfl rfl rfl rfl rfl ?_ ?_)
      · intro hr
        change (ite _ _ _ : Channel).Registered
        split
        · exact hr
        · exact Channel.registered_update hr _
      · intro hk
        change (ite _ _ _ : Channel).inChannels = true
        split
        · exact hk
        · simp [Channel.enableWriting]
    · cases h
  · cases h
    exact .refl c

theorem frame_sendInLoop {t : Tid} {message : List Byte} {write : WriteResult}
    (h : c.sendInLoop t message write = some c') : Frame Queues Eq c c' := by
  have hproc : Frame Queues Eq c { c with processed := c.processed ++ [(t, message)] } :=
    .of_eq rfl rfl rfl rfl rfl rfl id id
  simp only [State.sendInLoop] at h
  split at h
  · split at h
    · cases h
      exact hproc
    · split at h
      · cases write with
        | wrote n =>
          simp only [State.writeDirectly] at h
          split at h
          · have hwrote : Frame Queues Eq c { c with
                processed := c.processed ++ [(t, message)],
                written := c.written ++ message.take n } :=
              .of_eq rfl rfl rfl rfl rfl rfl id id
            split at h
            · exact (hwrote.then (frame_writeComplete _)).then (frame_bufferRest h)
            · exact hwrote.then (frame_bufferRest h)
          · cases h
        | failed errno =>
          simp only [State.writeDirectly] at h
          split at h
          · cases h
            exact .of_eq rfl rfl rfl rfl rfl rfl id id
          · exact hproc.then (frame_bufferRest h)
      · exact hproc.then (frame_bufferRest h)
  · cases h

theorem frame_wroteOutput (c : State) (n : Nat) (b : Buffer) :
    Frame Queues Eq c (c.wroteOutput n b) := by
  simp only [State.wroteOutput]
  split
  · have hdone : Frame Queues Eq c { c with
        written := c.written ++ c.outputBuffer.contents.take n,
        outputBuffer := b, channel := c.channel.disableWriting } :=
      .of_eq rfl rfl rfl rfl rfl rfl (fun h => Channel.registered_update h _)
        (by simp [Channel.disableWriting])
    have hwc := hdone.then (frame_writeComplete _)
    split
    · exact hwc.then (frame_shutdownInLoop _)
    · exact hwc
  · exact .of_eq rfl rfl rfl rfl rfl rfl id id

theorem frame_handleWrite {write : WriteResult} (h : c.handleWrite write = some c') :
    Frame Queues Eq c c' := by
  simp only [State.handleWrite] at h
  split at h
  · split at h
    · split at h
      · cases h
        split
        · exact frame_wroteOutput c _ _
        · exact .refl c
      · cases h
    · cases h
      exact .of_eq rfl rfl rfl rfl rfl rfl id id
  · cases h
    exact .refl c

theorem frame_startReadInLoop (c : State) : Frame Queues Eq c c.startReadInLoop := by
  unfold State.startReadInLoop
  split
  · exact .of_eq rfl rfl rfl rfl rfl rfl (fun h => Channel.registered_update h _)
      (by simp [Channel.enableReading])
  · exact .refl c

theorem frame_stopReadInLoop (c : State) : Frame Queues Eq c c.stopReadInLoop := by
  unfold State.stopReadInLoop
  split
  · exact .of_eq rfl rfl rfl rfl rfl rfl (fun h => Channel.registered_update h _)
      (by simp [Channel.disableReading])
  · exact .refl c

theorem frame_setInput (c : State) (b : Buffer) : Frame Queues Eq c { c with inputBuffer := b } :=
  .of_eq rfl rfl rfl rfl rfl rfl id id

end

/-! ## 4. Calls on the connection -/

/-- The call is made on the loop thread. -/
def State.Act.onLoop : State.Act → Bool
  | .thread _ _ => false
  | _ => true

/-- The call is `start_read`. -/
def State.Act.startsRead : State.Act → Bool
  | .startRead | .thread _ .startRead => true
  | _ => false

/-- What a call queues; `start_read_in_loop` only if `reads`. -/
def Posts (reads : Bool) (f : Functor) : Prop :=
  f ≠ .connectEstablished ∧ f ≠ .connectDestroyed ∧ (f = .startReadInLoop → reads = true)

/-- How a call moves the state: another thread stores `Disconnecting` on what it has seen before,
the loop thread on what it sees.  The difference is all there is to the races about closing. -/
def Moves (onLoop : Bool) (s s' : ConnState) : Prop :=
  s' = s ∨ (s' = .disconnecting ∧ (onLoop = true → s = .connected ∨ s = .disconnecting))

variable {c c' : State} {onLoop reads : Bool}

theorem Moves.trans {s s' s'' : ConnState} (h : Moves onLoop s s') (h' : Moves onLoop s' s'') :
    Moves onLoop s s'' := by
  rcases h' with rfl | ⟨hs'', ho'⟩
  · exact h
  · refine .inr ⟨hs'', fun hl => ?_⟩
    rcases h with rfl | ⟨-, ho⟩
    · exact ho' hl
    · exact ho hl

/-- A piece on the loop, as part of a call. -/
theorem Frame.ofLoop (h : Frame Queues Eq c c') : Frame (Posts reads) (Moves onLoop) c c' :=
  h.mono (fun f hf => by cases f <;> simp_all [Queues, Posts]) fun _ _ hs => .inl hs.symm

theorem Frame.next {c'' : State} (h : Frame (Posts reads) (Moves onLoop) c c')
    (h' : Frame (Posts reads) (Moves onLoop) c' c'') : Frame (Posts reads) (Moves onLoop) c c'' :=
  h.trans Moves.trans h'

theorem frame_post (c : State) {f : Functor} (hf : Posts reads f) :
    Frame (Posts reads) (Moves onLoop) c (c.queueInLoop f) :=
  (frame_queueInLoop c hf).mono (fun _ => id) fun _ _ hs => .inl hs.symm

/-- `set_state(Disconnecting)` on an open connection. -/
theorem frame_setDisconnecting (h : c.open? = true) :
    Frame (Posts reads) (Moves onLoop) c (c.setState .disconnecting) := by
  have hs : c.state = .connected ∨ c.state = .disconnecting := by
    simpa [State.open?] using h
  exact .of_eq rfl rfl rfl rfl (.inr ⟨rfl, fun _ => hs⟩) rfl id id

theorem frame_forceClose (c : State) : Frame (Posts reads) (Moves onLoop) c c.forceClose := by
  unfold State.forceClose
  split
  · rename_i hopen
    exact (frame_setDisconnecting hopen).next (frame_post _ (by simp [Posts]))
  · exact (Frame.refl c).ofLoop

/-- A step of another thread is a frame: it stores a state, or queues a functor. -/
theorem frame_threadStep {t : Tid} {step : State.ThreadStep} (h : c.threadStep t step = some c') :
    Frame (Posts (step == .startRead)) (Moves false) c c' := by
  have hcall : ∀ call, Frame (Posts (step == .startRead)) (Moves false) c (c.setCall t call) :=
    fun call => .of_eq rfl rfl rfl rfl (.inl rfl) rfl id id
  have hself : Frame (Posts (step == .startRead)) (Moves false) c c := (Frame.refl c).ofLoop
  cases (threadStep_inv h).2 with
  | send => exact .of_eq rfl rfl rfl rfl (.inl rfl) rfl id id
  | shutdown => exact hcall _
  | forceClose => exact hcall _
  | refused => exact hself
  | startRead => exact frame_post c (by simp [Posts])
  | stopRead => exact frame_post c (by simp [Posts])
  | queueSend => exact (hcall .idle).next (frame_post _ (by simp [Posts]))
  | queueShutdown => exact (hcall .idle).next (frame_post _ (by simp [Posts]))
  | queueForceClose => exact (hcall .idle).next (frame_post _ (by simp [Posts]))
  | storeShutdown => exact .of_eq rfl rfl rfl rfl (.inr ⟨rfl, by simp⟩) rfl id id
  | storeForceClose => exact .of_eq rfl rfl rfl rfl (.inr ⟨rfl, by simp⟩) rfl id id
  | addDelay => exact .of_eq rfl rfl rfl rfl (.inl rfl) rfl id id

/-- **A call**, of user code on the loop or of another thread, closes and opens nothing. -/
theorem frame_act {a : State.Act} (h : c.act a = some c') :
    Frame (Posts a.startsRead) (Moves a.onLoop) c c' := by
  cases a with
  | send message write =>
    simp only [State.act] at h
    split at h
    · have hcalled : Frame Queues Eq c
          { c with called := c.called ++ [(c.loopThread, message)] } :=
        .of_eq rfl rfl rfl rfl rfl rfl id id
      exact (hcalled.then (frame_sendInLoop h)).ofLoop
    · cases h
      exact (Frame.refl c).ofLoop
  | shutdown =>
    cases h
    split
    · rename_i hs
      exact (frame_setDisconnecting (by simp [State.open?, hs])).next
        (frame_shutdownInLoop _).ofLoop
    · exact (Frame.refl c).ofLoop
  | forceClose =>
    cases h
    exact frame_forceClose c
  | forceCloseWithDelay =>
    cases h
    split
    · rename_i hopen
      have hdelayed : Frame (Posts false) (Moves true) (c.setState .disconnecting)
          { c.setState .disconnecting with delayed := c.delayed + 1 } :=
        .of_eq rfl rfl rfl rfl (.inl rfl) rfl id id
      exact (frame_setDisconnecting hopen).next hdelayed
    · exact (Frame.refl c).ofLoop
  | startRead =>
    cases h
    exact (frame_startReadInLoop c).ofLoop
  | stopRead =>
    cases h
    exact (frame_stopReadInLoop c).ofLoop
  | retrieveInput len =>
    cases h
    exact (frame_setInput c _).ofLoop
  | thread t step =>
    have hthread := frame_threadStep h
    refine hthread.mono (fun f hf => ⟨hf.1, hf.2.1, fun hr => ?_⟩) fun _ _ hs => hs
    have hstep : (step == .startRead) = true := hf.2.2 hr
    rw [beq_iff_eq] at hstep
    rw [hstep]
    rfl

/-- **A callback** is its calls one after the other, and so is its frame. -/
theorem frame_callback {acts : List State.Act} (h : c.callback acts = some c') :
    Frame (Posts (acts.any State.Act.startsRead)) (Moves (acts.all State.Act.onLoop)) c c' := by
  refine (foldlM_consume (I := fun as s => (∀ a ∈ as, a ∈ acts) ∧
    Frame (Posts (acts.any State.Act.startsRead)) (Moves (acts.all State.Act.onLoop)) c s) ?_
    acts c c' ⟨fun _ => id, (Frame.refl c).ofLoop⟩ h).2
  rintro a as s s' ⟨hmem, hframe⟩ hst
  have ha : a ∈ acts := hmem a List.mem_cons_self
  refine ⟨fun b hb => hmem b (List.mem_cons_of_mem a hb), hframe.next ?_⟩
  refine (frame_act hst).mono (fun f hf => ⟨hf.1, hf.2.1, fun hr => ?_⟩) fun s s' hs => ?_
  · exact List.any_eq_true.mpr ⟨a, ha, hf.2.2 hr⟩
  · rcases hs with hs | ⟨hs, ho⟩
    · exact .inl hs
    · exact .inr ⟨hs, fun hall => ho (List.all_eq_true.mp hall a ha)⟩

end TcpConnection

end Suduo
