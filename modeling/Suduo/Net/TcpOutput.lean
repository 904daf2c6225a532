/-
# The output stream of a connection

A message takes one of two ways out: written directly by `send_in_loop` when nothing waits in front
of it, or appended to the output buffer and written by `handle_write`.  Either way a short write
leaves a suffix behind, and the two must agree on who owns it.

`Flow c owed` is the account in the middle of a `send_in_loop`: what the kernel took, what is buffered
and what this message still owes, in this order, are the messages so far.  Each way out settles it to
`Flow c []`.  With it go the write interest, which says exactly that something is buffered, and the
messages of each thread in their order through the functor queue.
-/
import Suduo.Net.TcpConnection

namespace Suduo.TcpConnection

open Lib

/-! ## 1. The account -/

/-- The messages of thread `t` among `msgs`, in order. -/
def ofThread (t : Tid) (msgs : List (Tid × List Byte)) : List (List Byte) :=
  (msgs.filter fun p => p.1 = t).map Prod.snd

/-- The message of thread `t` that a functor is about to send. -/
def Functor.messageOf (t : Tid) : Functor → Option (List Byte)
  | .sendInLoop u message => if u = t then some message else none
  | _ => none

/-- The messages of thread `t` in the functor queue. -/
def queuedBy (t : Tid) (fs : List Functor) : List (List Byte) := fs.filterMap (Functor.messageOf t)

/-- The message a `send` under way has still to queue. -/
def Call.messages : Call → List (List Byte)
  | .send message => [message]
  | _ => []

/-- **The account of the output**, `owed` being what the message in hand has still to hand over.
It is claimed only until `ended`, when a write has failed for good or the state has become
`Disconnected`; what is about the buffer alone and about the threads' messages is claimed
throughout. -/
structure Flow (c : State) (owed : List Byte) : Prop where
  wf : c.outputBuffer.Wf
  gone : c.state = .disconnected → c.ended = true
  stream : c.ended = false →
    c.written ++ c.outputBuffer.contents ++ owed = (c.processed.map Prod.snd).flatten
  writing : c.ended = false → (c.channel.isWriting = true ↔ c.outputBuffer.contents ≠ [])
  halfCloses : c.ended = false → ∀ unsent ∈ c.halfCloses, unsent = []
  order : ∀ t, ofThread t c.processed ++ queuedBy t c.pendingFunctors ++ (c.call t).messages =
    ofThread t c.called
  /-- The loop's thread queues no message to itself. -/
  direct : queuedBy c.loopThread c.pendingFunctors = [] ∧ c.call c.loopThread = .idle

variable {c c' : State} {owed : List Byte}

theorem flow_init (loopThread : Tid) (client : Bool) (mark : Nat) (wc hw : Bool) :
    Flow (.init loopThread client mark wc hw) [] := by
  refine ⟨Buffer.new_wf Buffer.initSize, ?_, ?_, ?_, ?_, ?_, ?_, rfl⟩
  · intro h; cases h
  · intro _
    simp [State.init]
  · intro _
    simp [State.init, Channel.isWriting, Channel.new, Events.has]
  · intro _ d hd
    cases hd
  · intro t
    rfl
  · rfl

/-- Once it is over, the account owes nothing. -/
theorem Flow.of_ended (h : Flow c owed) (ho : c.ended = true) (owed' : List Byte) : Flow c owed' := by
  refine ⟨h.wf, h.gone, ?_, h.writing, h.halfCloses, h.order, h.direct⟩
  intro hn
  rw [ho] at hn
  cases hn

theorem queuedBy_append (t : Tid) (fs gs : List Functor) :
    queuedBy t (fs ++ gs) = queuedBy t fs ++ queuedBy t gs := List.filterMap_append

theorem ofThread_append (t : Tid) (ms ns : List (Tid × List Byte)) :
    ofThread t (ms ++ ns) = ofThread t ms ++ ofThread t ns := by
  rw [ofThread, List.filter_append, List.map_append]
  rfl

/-! ## 2. Steps that leave the output alone -/

/-- Queueing anything but a message leaves the account as it is. -/
theorem Flow.queueInLoop (h : Flow c owed) {f : Functor} (hf : ∀ t, f.messageOf t = none) :
    Flow (c.queueInLoop f) owed := by
  have hq : ∀ t, queuedBy t (c.pendingFunctors ++ [f]) = queuedBy t c.pendingFunctors := by
    intro t
    rw [queuedBy_append]
    simp [queuedBy, hf t]
  refine ⟨h.wf, h.gone, h.stream, h.writing, h.halfCloses, ?_, ?_⟩
  · intro t
    simp only [State.queueInLoop, hq]
    exact h.order t
  · simp only [State.queueInLoop, hq]
    exact h.direct

theorem Flow.setState (h : Flow c owed) (s : ConnState) : Flow (c.setState s) owed := by
  have hended : (c.setState s).ended = false → c.ended = false := by
    intro ho
    simp only [State.setState, Bool.or_eq_false_iff] at ho
    exact ho.1
  refine ⟨h.wf, ?_, fun ho => h.stream (hended ho), fun ho => h.writing (hended ho),
    fun ho => h.halfCloses (hended ho), h.order, h.direct⟩
  intro hs
  change s = .disconnected at hs
  simp [State.setState, hs]

/-- A change of the channel that does not touch its write interest. -/
theorem Flow.setChannel (h : Flow c owed) {ch : Channel}
    (hw : ch.isWriting = c.channel.isWriting) : Flow { c with channel := ch } owed :=
  ⟨h.wf, h.gone, h.stream, fun ho => by rw [hw]; exact h.writing ho, h.halfCloses, h.order,
    h.direct⟩

theorem Flow.setInput (h : Flow c owed) (b : Buffer) : Flow { c with inputBuffer := b } owed :=
  ⟨h.wf, h.gone, h.stream, h.writing, h.halfCloses, h.order, h.direct⟩

/-- Whatever happens to the channel, once it is over. -/
theorem Flow.setChannel_of_ended (h : Flow c owed) (ho : c.ended = true) (ch : Channel) :
    Flow { c with channel := ch } owed := by
  refine ⟨h.wf, h.gone, h.stream, ?_, h.halfCloses, h.order, h.direct⟩
  intro hn
  rw [show c.ended = false from hn] at ho
  cases ho

theorem Flow.writeComplete (h : Flow c owed) : Flow c.writeComplete owed := by
  unfold State.writeComplete
  split
  · exact h.queueInLoop fun _ => rfl
  · exact h

theorem Flow.crossHighWaterMark (h : Flow c owed) (remaining : Nat) :
    Flow (c.crossHighWaterMark remaining) owed := by
  simp only [State.crossHighWaterMark]
  split
  · exact h.queueInLoop fun _ => rfl
  · exact h

/-! ## 3. The two ways out -/

/-- What is left of the message joins the output buffer, behind what is there. -/
theorem Flow.bufferRest {message : List Byte} {n : Nat} (h : Flow c (message.drop n))
    (hlen : message.length ≤ Buffer.maxSize) (hst : c.bufferRest message n = some c') :
    Flow c' [] := by
  simp only [State.bufferRest] at hst
  split at hst
  · rename_i hpos
    have hne : message.drop n ≠ [] := by
      intro hnil
      have := congrArg List.length hnil
      rw [List.length_drop, List.length_nil] at this
      omega
    have h₁ := h.crossHighWaterMark (message.length - n)
    split at hst
    · rename_i b happ
      cases hst
      have hsmall : (message.drop n).length < 2 ^ 63 := by
        have : Buffer.maxSize = 2 ^ 63 - 1 := rfl
        rw [List.length_drop]
        omega
      rcases Buffer.append_total h₁.wf hsmall with ⟨-, herr⟩ | ⟨b', hok, hwf, hcont⟩
      · rw [herr] at happ
        cases happ
      · rw [hok] at happ
        cases happ
        refine ⟨hwf, h₁.gone, ?_, ?_, h₁.halfCloses, h₁.order, h₁.direct⟩
        · intro ho
          rw [List.append_nil, hcont, ← List.append_assoc]
          exact h₁.stream ho
        · intro _
          simp only [hcont]
          refine iff_of_true ?_ (List.append_ne_nil_of_right_ne_nil _ hne)
          split
          · assumption
          · exact Channel.isWriting_enableWriting _
    · cases hst
  · rename_i hpos
    cases hst
    have hnil : message.drop n = [] := List.drop_eq_nil_of_le (by omega)
    rwa [hnil] at h

/-- With nothing buffered, what is written directly follows what went before. -/
theorem Flow.writeDirectly {message : List Byte} {write : WriteResult} (h : Flow c message)
    (hlen : message.length ≤ Buffer.maxSize) (hempty : c.outputBuffer.contents = [])
    (hst : c.writeDirectly message write = some c') : Flow c' [] := by
  cases write with
  | wrote n =>
    simp only [State.writeDirectly] at hst
    split at hst
    · have hwrote : Flow { c with written := c.written ++ message.take n } (message.drop n) := by
        refine ⟨h.wf, h.gone, ?_, h.writing, h.halfCloses, h.order, h.direct⟩
        intro ho
        have hbefore := h.stream ho
        simp only [hempty, List.append_nil] at hbefore ⊢
        rw [List.append_assoc, List.take_append_drop]
        exact hbefore
      refine Flow.bufferRest ?_ hlen hst
      split
      · exact hwrote.writeComplete
      · exact hwrote
    · cases hst
  | failed errno =>
    simp only [State.writeDirectly] at hst
    split at hst
    · cases hst
      have hended : Flow { c with ended := true } message :=
        ⟨h.wf, fun _ => rfl, by simp, by simp, by simp, h.order, h.direct⟩
      exact hended.of_ended rfl []
    · exact Flow.bufferRest (n := 0) h hlen hst

/-- **`send_in_loop` settles the message it was given**: written, buffered, or the connection is
over.  A message that is given up when the state is `Disconnected` is no loss to the account,
which has ended by then. -/
theorem Flow.sendInLoop {t : Tid} {message : List Byte} {write : WriteResult}
    (h : Flow { c with processed := c.processed ++ [(t, message)] } message)
    (hst : c.sendInLoop t message write = some c') : Flow c' [] := by
  simp only [State.sendInLoop] at hst
  split at hst
  · rename_i hlen
    split at hst
    · rename_i hgone
      cases hst
      exact h.of_ended (h.gone hgone) []
    · split at hst
      · rename_i hdirect
        have hempty : c.outputBuffer.contents = [] := by
          rw [← List.length_eq_zero_iff, h.wf.length_contents]
          exact hdirect.2
        exact h.writeDirectly hlen hempty hst
      · exact Flow.bufferRest (n := 0) h hlen hst
  · cases hst

theorem Flow.shutdownInLoop (h : Flow c owed) : Flow c.shutdownInLoop owed := by
  unfold State.shutdownInLoop
  split
  · exact h
  · rename_i hw
    refine ⟨h.wf, h.gone, h.stream, h.writing, ?_, h.order, h.direct⟩
    intro ho unsent hmem
    rcases List.mem_append.mp hmem with hmem | hmem
    · exact h.halfCloses ho unsent hmem
    · rw [List.mem_singleton.mp hmem]
      by_contra hne
      exact hw ((h.writing ho).mpr hne)

/-- What the kernel takes off the front of the buffer stays in the stream, and the write interest
goes when nothing is left. -/
theorem Flow.wroteOutput {n : Nat} {b : Buffer} (h : Flow c []) (hw : c.channel.isWriting = true)
    (hwf : b.Wf) (hc : b.contents = c.outputBuffer.contents.drop n) :
    Flow (c.wroteOutput n b) [] := by
  have hstream : c.ended = false →
      c.written ++ c.outputBuffer.contents.take n ++ b.contents ++ [] =
        (c.processed.map Prod.snd).flatten := by
    intro ho
    rw [hc, List.append_assoc c.written, List.take_append_drop]
    exact h.stream ho
  simp only [State.wroteOutput]
  split
  · rename_i hzero
    have hempty : b.contents = [] := by
      rw [← List.length_eq_zero_iff, hwf.length_contents, hzero]
    have hdone : Flow { c with written := c.written ++ c.outputBuffer.contents.take n,
                               outputBuffer := b, channel := c.channel.disableWriting } [] := by
      refine ⟨hwf, h.gone, hstream, ?_, h.halfCloses, h.order, h.direct⟩
      intro _
      simp only [hempty, Channel.isWriting_disableWriting]
      simp
    split
    · exact hdone.writeComplete.shutdownInLoop
    · exact hdone.writeComplete
  · rename_i hrest
    refine ⟨hwf, h.gone, hstream, ?_, h.halfCloses, h.order, h.direct⟩
    intro _
    refine iff_of_true hw fun hnil => hrest ?_
    rw [← hwf.length_contents]
    exact List.length_eq_zero_iff.mpr hnil

/-- A failed write may end the stream, and does nothing else. -/
theorem Flow.setEnded (h : Flow c owed) (b : Bool) : Flow { c with ended := c.ended || b } owed := by
  have hended : (c.ended || b) = false → c.ended = false := fun ho => (Bool.or_eq_false_iff.mp ho).1
  refine ⟨h.wf, fun hs => ?_, fun ho => h.stream (hended ho), fun ho => h.writing (hended ho),
    fun ho => h.halfCloses (hended ho), h.order, h.direct⟩
  simp only [h.gone hs, Bool.true_or]

/-- **`handle_write` moves a front of the buffer to the kernel.**  What `write` took leaves the
buffer and joins what was written, so the sum of the two stays. -/
theorem Flow.handleWrite {write : WriteResult} (h : Flow c [])
    (hst : c.handleWrite write = some c') : Flow c' [] := by
  simp only [State.handleWrite] at hst
  split at hst
  · rename_i hwriting
    split at hst
    · rename_i n
      split at hst
      · obtain ⟨hwf, hc⟩ := Buffer.retrieve_spec h.wf n
        cases hst
        split
        · exact h.wroteOutput hwriting hwf hc
        · exact h
      · cases hst
    · cases hst
      rw [Bool.or_assoc]
      exact h.setEnded _
  · cases hst
    exact h

/-! ## 4. Calls, events, functors -/

/-- A thread's call moves on without its message, which has been queued. -/
theorem Flow.setCall (h : Flow c owed) {t : Tid} {call : Call} (ht : t ≠ c.loopThread)
    (hm : call.messages = (c.call t).messages) : Flow (c.setCall t call) owed := by
  refine ⟨h.wf, h.gone, h.stream, h.writing, h.halfCloses, ?_, ?_⟩
  · intro u
    simp only [State.setCall]
    rcases eq_or_ne u t with rfl | hne
    · rw [Function.update_self, hm]
      exact h.order u
    · rw [Function.update_of_ne hne]
      exact h.order u
  · refine ⟨h.direct.1, ?_⟩
    simp only [State.setCall]
    rw [Function.update_of_ne ht.symm]
    exact h.direct.2

/-- A call of `send` begins: its message is the last of its thread. -/
theorem Flow.callSend {t : Tid} {message : List Byte} (h : Flow c []) (ht : t ≠ c.loopThread)
    (hidle : c.call t = .idle) :
    Flow { c.setCall t (.send message) with called := c.called ++ [(t, message)] } [] := by
  refine ⟨h.wf, h.gone, h.stream, h.writing, h.halfCloses, ?_, h.direct.1, ?_⟩
  · intro u
    have hu := h.order u
    simp only [State.setCall]
    rw [ofThread_append, ← hu]
    rcases eq_or_ne u t with rfl | hne
    · simp [Call.messages, hidle, ofThread]
    · rw [Function.update_of_ne hne]
      simp [ofThread, hne.symm]
  · simp only [State.setCall]
    rw [Function.update_of_ne ht.symm]
    exact h.direct.2

/-- `queue_in_loop(send_in_loop)`: the message goes from its call to the end of the queue. -/
theorem Flow.queueSend {t : Tid} {message : List Byte} (h : Flow c []) (ht : t ≠ c.loopThread)
    (hcall : c.call t = .send message) :
    Flow ((c.setCall t .idle).queueInLoop (.sendInLoop t message)) [] := by
  refine ⟨h.wf, h.gone, h.stream, h.writing, h.halfCloses, ?_, ?_, ?_⟩
  · intro u
    have hu := h.order u
    simp only [State.setCall, State.queueInLoop]
    rw [← hu, queuedBy_append]
    rcases eq_or_ne u t with rfl | hne
    · simp [queuedBy, Functor.messageOf, Call.messages, hcall]
    · rw [Function.update_of_ne hne]
      simp [queuedBy, Functor.messageOf, hne.symm]
  · simp only [State.setCall, State.queueInLoop]
    rw [queuedBy_append, h.direct.1]
    simp [queuedBy, Functor.messageOf, ht]
  · simp only [State.setCall, State.queueInLoop]
    rw [Function.update_of_ne ht.symm]
    exact h.direct.2

theorem Flow.threadStep {t : Tid} {step : State.ThreadStep} (h : Flow c [])
    (hst : c.threadStep t step = some c') : Flow c' [] := by
  obtain ⟨ht, hthreaded⟩ := threadStep_inv hst
  have hcall (call : Call) (hnone : (c.call t).messages = []) (hm : call.messages = []) :
      Flow (c.setCall t call) [] := h.setCall ht (hm.trans hnone.symm)
  cases hthreaded with
  | send hidle => exact h.callSend ht hidle
  | shutdown hidle => exact hcall _ (by rw [hidle]; rfl) rfl
  | forceClose hidle => exact hcall _ (by rw [hidle]; rfl) rfl
  | refused => exact h
  | startRead => exact h.queueInLoop fun _ => rfl
  | stopRead => exact h.queueInLoop fun _ => rfl
  | queueSend hc => exact h.queueSend ht hc
  | queueShutdown hc => exact (hcall .idle (by rw [hc]; rfl) rfl).queueInLoop fun _ => rfl
  | queueForceClose hc => exact (hcall .idle (by rw [hc]; rfl) rfl).queueInLoop fun _ => rfl
  | storeShutdown hc => exact (hcall (.shutdown true) (by rw [hc]; rfl) rfl).setState _
  | @storeForceClose delay hc =>
    exact (hcall (.forceClose delay true) (by rw [hc]; rfl) rfl).setState _
  | addDelay hc =>
    have h' := hcall .idle (by rw [hc]; rfl) rfl
    exact ⟨h'.wf, h'.gone, h'.stream, h'.writing, h'.halfCloses, h'.order, h'.direct⟩

theorem Flow.startReadInLoop (h : Flow c []) : Flow c.startReadInLoop [] := by
  unfold State.startReadInLoop
  split
  · have h' := h.setChannel (Channel.isWriting_enableReading c.channel)
    exact ⟨h'.wf, h'.gone, h'.stream, h'.writing, h'.halfCloses, h'.order, h'.direct⟩
  · exact h

theorem Flow.stopReadInLoop (h : Flow c []) : Flow c.stopReadInLoop [] := by
  unfold State.stopReadInLoop
  split
  · have h' := h.setChannel (Channel.isWriting_disableReading c.channel)
    exact ⟨h'.wf, h'.gone, h'.stream, h'.writing, h'.halfCloses, h'.order, h'.direct⟩
  · exact h

theorem Flow.forceClose (h : Flow c []) : Flow c.forceClose [] := by
  unfold State.forceClose
  split
  · exact (h.setState _).queueInLoop fun _ => rfl
  · exact h

/-- Every call of user code keeps the account. -/
theorem Flow.act {a : State.Act} (h : Flow c []) (hst : c.act a = some c') : Flow c' [] := by
  cases a with
  | send message write =>
    simp only [State.act] at hst
    split at hst
    · -- the loop's own message is called and processed at once
      refine Flow.sendInLoop ?_ hst
      refine ⟨h.wf, h.gone, ?_, h.writing, h.halfCloses, ?_, h.direct⟩
      · intro ho
        have hs := h.stream ho
        rw [List.append_nil] at hs
        simp only [List.map_append, List.flatten_append, hs]
        simp
      · intro t
        have ho := h.order t
        simp only
        rw [ofThread_append, ofThread_append, ← ho]
        rcases eq_or_ne t c.loopThread with rfl | hne
        · rw [h.direct.1, h.direct.2]
          simp [Call.messages]
        · simp [ofThread, hne.symm]
    · cases hst
      exact h
  | shutdown =>
    cases hst
    split
    · exact (h.setState _).shutdownInLoop
    · exact h
  | forceClose =>
    cases hst
    exact h.forceClose
  | forceCloseWithDelay =>
    cases hst
    split
    · have h' := h.setState .disconnecting
      exact ⟨h'.wf, h'.gone, h'.stream, h'.writing, h'.halfCloses, h'.order, h'.direct⟩
    · exact h
  | startRead =>
    cases hst
    exact h.startReadInLoop
  | stopRead =>
    cases hst
    exact h.stopReadInLoop
  | retrieveInput len =>
    cases hst
    exact h.setInput _
  | thread t step => exact h.threadStep hst

theorem Flow.callback {acts : List State.Act} (h : Flow c []) (hst : c.callback acts = some c') :
    Flow c' [] :=
  foldlM_consume (I := fun _ c => Flow c []) (fun _ _ _ _ hi hs => hi.act hs) acts c c' h hst

theorem Flow.handleClose {acts : List State.Act} (h : Flow c [])
    (hst : c.handleClose acts = some c') : Flow c' [] := by
  simp only [State.handleClose, Option.bind_eq_bind, Option.bind_eq_some_iff] at hst
  obtain ⟨c₁, hcb, hst⟩ := hst
  have hdown := (h.setState .disconnected).setChannel_of_ended (by simp [State.setState])
    c.channel.disableAll
  have h₁ : Flow c₁ [] := by
    refine Flow.callback ?_ hcb
    exact ⟨hdown.wf, hdown.gone, hdown.stream, hdown.writing, hdown.halfCloses, hdown.order,
      hdown.direct⟩
  have h₂ : Flow { c₁ with closeCallbacks := c₁.closeCallbacks + 1 } [] :=
    ⟨h₁.wf, h₁.gone, h₁.stream, h₁.writing, h₁.halfCloses, h₁.order, h₁.direct⟩
  cases hst
  split
  · exact h₂.queueInLoop fun _ => rfl
  · exact ⟨h₂.wf, h₂.gone, h₂.stream, h₂.writing, h₂.halfCloses, h₂.order, h₂.direct⟩

theorem Flow.handleRead {readv : Except Nat (List Byte)} {acts : List State.Act} (h : Flow c [])
    (hst : c.handleRead readv acts = some c') : Flow c' [] := by
  simp only [State.handleRead] at hst
  split at hst
  · split at hst
    · rename_i n errno b _
      have h₁ := h.setInput b
      split at hst
      · exact h₁.callback hst
      · split at hst
        · exact h₁.handleClose hst
        · cases hst
          exact h₁
    · cases hst
  · cases hst

theorem Flow.connectEstablished {acts : List State.Act} (h : Flow c [])
    (hst : c.connectEstablished acts = some c') : Flow c' [] := by
  refine Flow.callback ?_ hst
  have h' := (h.setState .connected).setChannel (Channel.isWriting_enableReading c.channel)
  exact ⟨h'.wf, h'.gone, h'.stream, h'.writing, h'.halfCloses, h'.order, h'.direct⟩

theorem Flow.connectDestroyed {acts : List State.Act} (h : Flow c [])
    (hst : c.connectDestroyed acts = some c') : Flow c' [] := by
  simp only [State.connectDestroyed, Option.bind_eq_bind] at hst
  split at hst
  · obtain ⟨c₁, hcb, hst⟩ := Option.bind_eq_some_iff.mp hst
    have hdown := (h.setState .disconnected).setChannel_of_ended (by simp [State.setState])
      c.channel.disableAll
    have h₁ : Flow c₁ [] := by
      refine Flow.callback ?_ hcb
      exact ⟨hdown.wf, hdown.gone, hdown.stream, hdown.writing, hdown.halfCloses, hdown.order,
        hdown.direct⟩
    cases hst
    exact h₁.setChannel (Channel.isWriting_remove _)
  · cases hst
    exact h.setChannel (Channel.isWriting_remove _)

theorem Flow.handleEvent {e : State.Event} (h : Flow c []) (hst : c.handleEvent e = some c') :
    Flow c' [] := by
  refine foldlM_consume (I := fun _ c => Flow c []) ?_ _ c c' h hst
  intro cb _ c c' hi hs
  cases cb with
  | close => exact hi.handleClose hs
  | error => cases hs; exact hi
  | read => exact hi.handleRead hs
  | write => exact hi.handleWrite hs

/-- A functor that is no message leaves the queue. -/
theorem Flow.popFunctor {f : Functor} {rest : List Functor} (h : Flow c [])
    (hp : c.pendingFunctors = f :: rest) (hf : ∀ t, f.messageOf t = none) :
    Flow { c with pendingFunctors := rest } [] := by
  have hq : ∀ t, queuedBy t rest = queuedBy t c.pendingFunctors := by
    intro t
    rw [hp]
    simp [queuedBy, hf t]
  refine ⟨h.wf, h.gone, h.stream, h.writing, h.halfCloses, ?_, ?_⟩
  · intro t
    simp only [hq]
    exact h.order t
  · simp only [hq]
    exact h.direct

/-- The message at the front of the queue is passed to `send_in_loop`. -/
theorem Flow.popSend {t : Tid} {message : List Byte} {rest : List Functor} (h : Flow c [])
    (hp : c.pendingFunctors = .sendInLoop t message :: rest) :
    Flow { c with pendingFunctors := rest, processed := c.processed ++ [(t, message)] }
      message := by
  have hdirect := h.direct
  rw [hp] at hdirect
  have hne : t ≠ c.loopThread := by
    rintro rfl
    simp [queuedBy, Functor.messageOf] at hdirect
  refine ⟨h.wf, h.gone, ?_, h.writing, h.halfCloses, ?_, ?_⟩
  · intro ho
    have hs := h.stream ho
    rw [List.append_nil] at hs
    simp only [List.map_append, List.flatten_append, hs]
    simp
  · intro u
    have ho := h.order u
    rw [hp] at ho
    simp only
    rw [ofThread_append, ← ho]
    by_cases hu : t = u
    · simp [ofThread, queuedBy, Functor.messageOf, hu]
    · simp [ofThread, queuedBy, Functor.messageOf, hu]
  · refine ⟨?_, hdirect.2⟩
    have hq := hdirect.1
    simpa [queuedBy, Functor.messageOf, hne] using hq

theorem Flow.runFunctor {f : Functor} {rest : List Functor} {acts : List State.Act}
    {write : WriteResult} (h : Flow c []) (hp : c.pendingFunctors = f :: rest)
    (hst : { c with pendingFunctors := rest }.runFunctor acts write f = some c') : Flow c' [] := by
  cases f with
  | sendInLoop t message =>
    simp only [State.runFunctor] at hst
    exact Flow.sendInLoop (c := { c with pendingFunctors := rest }) (h.popSend hp) hst
  | connectEstablished =>
    simp only [State.runFunctor] at hst
    exact (h.popFunctor hp fun _ => rfl).connectEstablished hst
  | connectDestroyed =>
    simp only [State.runFunctor] at hst
    exact (h.popFunctor hp fun _ => rfl).connectDestroyed hst
  | shutdownInLoop =>
    cases hst
    exact (h.popFunctor hp fun _ => rfl).shutdownInLoop
  | forceCloseInLoop =>
    have h₁ := h.popFunctor hp fun _ => rfl
    simp only [State.runFunctor] at hst
    split at hst
    · exact h₁.handleClose hst
    · cases hst
      exact h₁
  | startReadInLoop =>
    cases hst
    exact (h.popFunctor hp fun _ => rfl).startReadInLoop
  | stopReadInLoop =>
    cases hst
    exact (h.popFunctor hp fun _ => rfl).stopReadInLoop
  | writeCompleteCallback => exact (h.popFunctor hp fun _ => rfl).callback hst
  | highWaterMarkCallback len => exact (h.popFunctor hp fun _ => rfl).callback hst

/-- **Every step keeps the account settled.**  Inside an event the account goes from callback to
callback, and in a callback from call to call; the only place where something is owed is inside
`send_in_loop`, and that is behind its lemma. -/
theorem step_flow {l : Label} (h : Flow c []) (hst : c.step l = some c') : Flow c' [] := by
  cases step_inv hst with
  | event hr hev => exact h.handleEvent hev
  | runFunctor hp hrun => exact h.runFunctor hp hrun
  | act hs hact => exact h.act hact
  | @delayFires n hn =>
    have h' : Flow { c with delayed := n } [] :=
      ⟨h.wf, h.gone, h.stream, h.writing, h.halfCloses, h.order, h.direct⟩
    exact h'.forceClose
  | @removeConnectionInLoop n hn =>
    have h' : Flow { c with removals := n } [] :=
      ⟨h.wf, h.gone, h.stream, h.writing, h.halfCloses, h.order, h.direct⟩
    exact h'.queueInLoop fun _ => rfl
  | serverQueuesDestroy => exact h.queueInLoop fun _ => rfl
  | serverDestroys hs hdestroy => exact h.connectDestroyed hdestroy

/-! ## 5. Output stream conservation -/

/-- **The output stream is conserved.**  In every run of a connection, until a write fails for good
or the state becomes `Disconnected`: the bytes the kernel accepted, followed by the contents of the
output buffer, are the messages passed to `send_in_loop`, one after the other; the channel has write
interest exactly when the buffer is not empty; and no `shutdown_write` was issued over unsent
output.  The messages of each thread are passed in the order of its calls: those processed, those
queued and the one in hand are those called.

The order between the two ways out is the write interest's doing: `send_in_loop` writes directly
only where there is none, which is where nothing is buffered. -/
theorem output_conserved (loopThread : Tid) (client : Bool) (mark : Nat) (wc hw : Bool) (c : State)
    (h : Reach State.step anyStep (.init loopThread client mark wc hw) c) (ho : c.ended = false) :
    c.written ++ c.outputBuffer.contents = (c.processed.map Prod.snd).flatten ∧
      (c.channel.isWriting = true ↔ c.outputBuffer.contents ≠ []) ∧
      (∀ unsent ∈ c.halfCloses, unsent = []) ∧
      ∀ t, ofThread t c.processed ++ queuedBy t c.pendingFunctors ++ (c.call t).messages =
        ofThread t c.called := by
  have hflow : Flow c [] :=
    h.invariant (flow_init loopThread client mark wc hw) fun _ _ _ hi _ hst => step_flow hi hst
  refine ⟨?_, hflow.writing ho, hflow.halfCloses ho, hflow.order⟩
  have hstream := hflow.stream ho
  rwa [List.append_nil] at hstream

/-- The UP callback sends four bytes and `write` takes one; thread 2 sends two more; the loop
writes the buffer out in two goes, and shuts down between them. -/
def twoShortWrites : List Label :=
  [.runFunctor [.send [1, 2, 3, 4] (.wrote 1)] (.wrote 0),
    .act (.thread 2 (.send [5, 6])), .act (.thread 2 .next), .runFunctor [] (.wrote 0),
    .event ⟨Events.pollOut, [], .error 11, [], .wrote 2⟩, .act .shutdown,
    .event ⟨Events.pollOut, [], .error 11, [], .wrote 3⟩]

theorem output_conserved_twoShortWrites :
    ∃ c, Reach State.step anyStep (.init 1 false 64 true true) c ∧ c.ended = false ∧
      c.written = [1, 2, 3, 4, 5, 6] ∧ c.halfCloses = [[]] ∧
      c.written ++ c.outputBuffer.contents = (c.processed.map Prod.snd).flatten := by
  have hrun : ∃ c, Reach State.step anyStep (.init 1 false 64 true true) c ∧
      (c.ended = false ∧ c.written = [1, 2, 3, 4, 5, 6] ∧ c.halfCloses = [[]]) :=
    Reach.exists_of_exec twoShortWrites _ (meets_any twoShortWrites _) (by decide +kernel)
  obtain ⟨c, h, ho, hw, hh⟩ := hrun
  exact ⟨c, h, ho, hw, hh, (output_conserved 1 false 64 true true c h ho).1⟩

end Suduo.TcpConnection
