/-
# When the flow-control callbacks are queued

`send_in_loop` and `handle_write` tell the user two things: that the output buffer has grown to the
high-water mark, and that it has been written out.  Each is decided in the middle of the function,
from what is known there (the old length, what `write` left over, the interest of the channel), and
not from the buffer as it stands at the end.

Seen from outside it is simple (`notices`): the high-water callback is queued by exactly the
`send_in_loop` that takes the buffer from below the mark to the mark, the write-complete callback by
exactly the step whose `write` succeeded and that leaves the buffer empty.  For `handle_write` this
needs that a channel with write interest has something to write (`Paced`), which holds also where
the account of `TcpOutput` has ended.
-/
import Suduo.Net.TcpMoves

namespace Suduo.TcpConnection

open Lib

/-! ## 1. What is queued -/

/-- One of the two flow-control callbacks. -/
def Functor.isNotice : Functor → Bool
  | .writeCompleteCallback | .highWaterMarkCallback _ => true
  | _ => false

def WriteResult.ok : WriteResult → Bool
  | .wrote _ => true
  | .failed _ => false

namespace State

/-- `_output_buffer.readable_bytes()`. -/
def buffered (c : State) : Nat := c.outputBuffer.readableBytes

/-- `send_in_loop` tries `write` first. -/
def direct (c : State) : Bool :=
  c.state ≠ .disconnected ∧ c.channel.isWriting = false ∧ c.buffered = 0

/-- The move is a `send_in_loop`. -/
def sendsInLoop (c : State) : Move → Bool
  | .act (.send _ _) => c.state = .connected
  | .sendFunctor _ => true
  | _ => false

/-- The move is a `send_in_loop` or a `handle_write`, and makes a successful `write`. -/
def writes (c : State) : Move → Bool
  | .act (.send _ write) => c.state = .connected ∧ c.direct ∧ write.ok
  | .sendFunctor write => c.direct ∧ write.ok
  | .handleWrite write => c.channel.isWriting ∧ write.ok
  | _ => false

/-- The functor queue once the move has taken its functor from it. -/
def taken (c : State) : Move → List Functor
  | .sendFunctor _ | .shutdownFunctor | .pop => c.pendingFunctors.tail
  | _ => c.pendingFunctors

end State

/-- The high-water callback, if the buffer has come from below the mark to at least the mark. -/
def crossing (mark before after : Nat) : List Functor :=
  if before < mark ∧ mark ≤ after then [.highWaterMarkCallback after] else []

/-- The write-complete callback, if a `write` has succeeded and the buffer is empty. -/
def completion (wrote : Bool) (after : Nat) : List Functor :=
  if wrote = true ∧ after = 0 then [.writeCompleteCallback] else []

/-- The flow-control callbacks of a move from `c` to `c'`. -/
def notices (mark : Nat) (c : State) (m : Move) (c' : State) : List Functor :=
  completion (c.writes m) c'.buffered ++
    if c.sendsInLoop m then crossing mark c.buffered c'.buffered else []

/-- A channel that is to be written to has something to write; the mark and the callbacks stay as
they were set.  The first is what `handle_write` needs: without it a `write` of nothing would be
reported as the end of one. -/
structure Paced (mark : Nat) (c : State) : Prop where
  wf : c.outputBuffer.Wf
  writing : c.channel.isWriting = true → c.buffered ≠ 0
  mark : c.highWaterMark = mark
  complete : c.hasWriteComplete = true
  highWater : c.hasHighWaterMark = true

variable {mark : Nat} {c c' c'' : State}

/-- The output is left alone, and what is queued is none of the two callbacks. -/
structure Aside (c c' : State) : Prop where
  output : c'.outputBuffer = c.outputBuffer
  writing : c'.channel.isWriting = true → c.channel.isWriting = true
  mark : c'.highWaterMark = c.highWaterMark
  complete : c'.hasWriteComplete = c.hasWriteComplete
  highWater : c'.hasHighWaterMark = c.hasHighWaterMark
  queue : ∃ fs, c'.pendingFunctors = c.pendingFunctors ++ fs ∧ fs.filter Functor.isNotice = []

theorem Aside.refl (c : State) : Aside c c :=
  ⟨rfl, id, rfl, rfl, rfl, [], (List.append_nil _).symm, rfl⟩

theorem Aside.trans (h : Aside c c') (h' : Aside c' c'') : Aside c c'' := by
  obtain ⟨fs, hfs, hnone⟩ := h.queue
  obtain ⟨gs, hgs, hnone'⟩ := h'.queue
  refine ⟨h'.output.trans h.output, h.writing ∘ h'.writing, h'.mark.trans h.mark,
    h'.complete.trans h.complete, h'.highWater.trans h.highWater, fs ++ gs, ?_, ?_⟩
  · rw [hgs, hfs, List.append_assoc]
  · rw [List.filter_append, hnone, hnone', List.append_nil]

theorem Paced.aside (h : Paced mark c) (ha : Aside c c') : Paced mark c' := by
  refine ⟨ha.output ▸ h.wf, fun hw => ?_, ha.mark.trans h.mark, ha.complete.trans h.complete,
    ha.highWater.trans h.highWater⟩
  rw [State.buffered, ha.output]
  exact h.writing (ha.writing hw)

theorem aside_queueInLoop (c : State) {f : Functor} (hf : f.isNotice = false) :
    Aside c (c.queueInLoop f) :=
  ⟨rfl, id, rfl, rfl, rfl, [f], rfl, by simp [hf]⟩

/-! ## 2. `send_in_loop` and `handle_write` -/

@[simp] theorem crossing_self (mark n : Nat) : crossing mark n n = [] :=
  if_neg fun hh => absurd (Nat.lt_of_lt_of_le hh.1 hh.2) (Nat.lt_irrefl _)

@[simp] theorem completion_false (n : Nat) : completion false n = [] :=
  if_neg fun hh => absurd hh.1 Bool.false_ne_true

theorem completion_of_ne {wrote : Bool} {n : Nat} (h : n ≠ 0) : completion wrote n = [] :=
  if_neg fun hh => h hh.2

/-- The lengths `send_in_loop` adds up do not wrap, so its test is the one on the numbers. -/
theorem crossHighWaterMark_eq {remaining : Nat} (h : Paced mark c)
    (hsmall : remaining ≤ Buffer.maxSize) :
    c.crossHighWaterMark remaining = { c with
      pendingFunctors := c.pendingFunctors ++
        crossing mark c.buffered (c.buffered + remaining) } := by
  have hadd : Buffer.addSize c.outputBuffer.readableBytes remaining = c.buffered + remaining := by
    have hmax : Buffer.maxSize = 2 ^ 63 - 1 := rfl
    have hlen := h.wf.readable
    have hbound := h.wf.bound
    have hsize := h.wf.small
    exact Buffer.addSize_eq (by omega)
  have hmark := h.mark
  simp only [State.crossHighWaterMark, hadd, crossing]
  by_cases hcross : c.buffered < mark ∧ mark ≤ c.buffered + remaining
  · rw [if_pos hcross, if_pos ⟨hmark ▸ hcross.2, hmark ▸ hcross.1, h.highWater⟩]
    rfl
  · rw [if_neg hcross, if_neg, List.append_nil]
    exact fun hh => hcross ⟨hmark ▸ hh.2.1, hmark ▸ hh.1⟩

/-- What goes to the output buffer is what the buffer grows by, and the callback says whether it
crosses the mark. -/
theorem bufferRest_queues {message : List Byte} {n : Nat} (h : Paced mark c)
    (hlen : message.length ≤ Buffer.maxSize) (hst : c.bufferRest message n = some c') :
    Paced mark c' ∧ c'.buffered = c.buffered + (message.length - n) ∧
      c'.pendingFunctors = c.pendingFunctors ++ crossing mark c.buffered c'.buffered := by
  have hmax : Buffer.maxSize = 2 ^ 63 - 1 := rfl
  simp only [State.bufferRest, crossHighWaterMark_eq h (Nat.le_trans (Nat.sub_le _ n) hlen)] at hst
  split at hst
  · rename_i hpos
    have hdrop : (message.drop n).length = message.length - n := List.length_drop
    split at hst
    · rename_i b happ
      have hsmall : (message.drop n).length < 2 ^ 63 := by omega
      rcases Buffer.append_total h.wf hsmall with ⟨-, herr⟩ | ⟨b', hok, hwf, hcont⟩
      · rw [herr] at happ
        cases happ
      · rw [hok] at happ
        cases happ
        have hgrown : b.readableBytes = c.buffered + (message.length - n) := by
          rw [← hwf.length_contents, hcont, List.length_append, h.wf.length_contents, hdrop]
          rfl
        cases hst
        refine ⟨⟨hwf, fun _ => ?_, h.mark, h.complete, h.highWater⟩, hgrown, ?_⟩
        · change b.readableBytes ≠ 0
          omega
        · change _ = c.pendingFunctors ++ crossing mark c.buffered b.readableBytes
          rw [hgrown]
    · cases hst
  · rename_i hpos
    cases hst
    refine ⟨h, by omega, ?_⟩
    rw [crossing_self, List.append_nil]

theorem writeComplete_eq (h : c.hasWriteComplete = true) :
    c.writeComplete = c.queueInLoop .writeCompleteCallback := by
  rw [State.writeComplete, if_pos h]

/-- The `write` that `send_in_loop` tries first, and the callbacks that it queues: the one when
all was written, the other when what is left to be buffered crosses the mark. -/
theorem writeDirectly_queues {message : List Byte} {write : WriteResult} (h : Paced mark c)
    (hlen : message.length ≤ Buffer.maxSize) (hempty : c.buffered = 0)
    (hst : c.writeDirectly message write = some c') :
    Paced mark c' ∧ c'.pendingFunctors = c.pendingFunctors ++
      (completion write.ok c'.buffered ++ crossing mark c.buffered c'.buffered) := by
  cases write with
  | wrote n =>
    simp only [State.writeDirectly] at hst
    split at hst
    · have hwrote : Paced mark { c with written := c.written ++ message.take n } :=
        ⟨h.wf, h.writing, h.mark, h.complete, h.highWater⟩
      split at hst
      · -- all of it is written, so nothing is buffered
        rename_i hall
        rw [writeComplete_eq (c := { c with written := c.written ++ message.take n }) h.complete,
          State.bufferRest, hall] at hst
        cases hst
        refine ⟨⟨h.wf, h.writing, h.mark, h.complete, h.highWater⟩, ?_⟩
        change c.pendingFunctors ++ [.writeCompleteCallback] = c.pendingFunctors ++
          (completion true c.buffered ++ crossing mark c.buffered c.buffered)
        rw [crossing_self, List.append_nil, completion, if_pos ⟨rfl, hempty⟩]
      · -- something is left over for the buffer
        obtain ⟨hpaced, hgrown, hq⟩ := bufferRest_queues hwrote hlen hst
        have hrest : c'.buffered ≠ 0 := by omega
        rw [completion_of_ne hrest, List.nil_append]
        exact ⟨hpaced, hq⟩
    · cases hst
  | failed errno =>
    simp only [State.writeDirectly] at hst
    rw [WriteResult.ok, completion_false, List.nil_append]
    split at hst
    · cases hst
      refine ⟨⟨h.wf, h.writing, h.mark, h.complete, h.highWater⟩, ?_⟩
      change c.pendingFunctors = c.pendingFunctors ++ crossing mark c.buffered c.buffered
      rw [crossing_self, List.append_nil]
    · obtain ⟨hpaced, -, hq⟩ := bufferRest_queues h hlen hst
      exact ⟨hpaced, hq⟩

/-- **What a `send_in_loop` queues.**  Both callbacks are decided before the buffer has been
appended to, and what is said here is in terms of the buffer afterwards: the two agree because a
direct `write` is tried only when the buffer is empty. -/
theorem sendInLoop_queues {t : Tid} {message : List Byte} {write : WriteResult} (h : Paced mark c)
    (hst : c.sendInLoop t message write = some c') :
    Paced mark c' ∧ c'.pendingFunctors = c.pendingFunctors ++
      (completion (c.direct && write.ok) c'.buffered ++ crossing mark c.buffered c'.buffered) := by
  have hproc : Paced mark { c with processed := c.processed ++ [(t, message)] } :=
    ⟨h.wf, h.writing, h.mark, h.complete, h.highWater⟩
  simp only [State.sendInLoop] at hst
  split at hst
  · rename_i hlen
    split at hst
    · -- given up
      rename_i hdown
      have hdirect : c.direct = false := by simp [State.direct, show c.state = _ from hdown]
      cases hst
      refine ⟨hproc, ?_⟩
      change c.pendingFunctors = c.pendingFunctors ++
        (completion (c.direct && write.ok) c.buffered ++ crossing mark c.buffered c.buffered)
      rw [hdirect, Bool.false_and, completion_false, crossing_self, List.append_nil, List.append_nil]
    · rename_i hup
      split at hst
      · rename_i hcond
        have hdirect : c.direct = true := decide_eq_true ⟨hup, hcond.1, hcond.2⟩
        rw [hdirect, Bool.true_and]
        exact writeDirectly_queues (c := { c with processed := c.processed ++ [(t, message)] })
          hproc hlen hcond.2 hst
      · rename_i hcond
        have hdirect : c.direct = false := decide_eq_false fun hh => hcond ⟨hh.2.1, hh.2.2⟩
        obtain ⟨hpaced, -, hq⟩ := bufferRest_queues hproc hlen hst
        rw [hdirect, Bool.false_and, completion_false, List.nil_append]
        exact ⟨hpaced, hq⟩
  · cases hst

theorem aside_shutdownInLoop (c : State) : Aside c c.shutdownInLoop := by
  unfold State.shutdownInLoop
  split
  · exact .refl c
  · exact ⟨rfl, id, rfl, rfl, rfl, [], (List.append_nil _).symm, rfl⟩

theorem shutdownInLoop_queue (c : State) : c.shutdownInLoop.pendingFunctors = c.pendingFunctors := by
  unfold State.shutdownInLoop
  split
  · rfl
  · rfl

/-- When everything is written out, the callback is queued and nothing else. -/
theorem wroteOutput_queues {n : Nat} {b : Buffer} (h : Paced mark c) (hwf : b.Wf)
    (hempty : b.readableBytes = 0) :
    Paced mark (c.wroteOutput n b) ∧ (c.wroteOutput n b).buffered = 0 ∧
      (c.wroteOutput n b).pendingFunctors = c.pendingFunctors ++ [.writeCompleteCallback] := by
  simp only [State.wroteOutput, hempty, if_true]
  rw [writeComplete_eq]
  swap
  · exact h.complete
  have hdone : Paced mark (({ c with
      written := c.written ++ c.outputBuffer.contents.take n, outputBuffer := b,
      channel := c.channel.disableWriting } : State).queueInLoop .writeCompleteCallback) := by
    refine ⟨hwf, ?_, h.mark, h.complete, h.highWater⟩
    intro hw
    simp [State.queueInLoop] at hw
  split
  · have haside := aside_shutdownInLoop (({ c with
      written := c.written ++ c.outputBuffer.contents.take n, outputBuffer := b,
      channel := c.channel.disableWriting } : State).queueInLoop .writeCompleteCallback)
    refine ⟨hdone.aside haside, ?_, shutdownInLoop_queue _⟩
    rw [State.buffered, haside.output]
    exact hempty
  · exact ⟨hdone, hempty, rfl⟩

/-- **What a `handle_write` queues**: the write-complete callback, exactly if its `write` took
bytes and has left none. -/
theorem handleWrite_queues {write : WriteResult} (h : Paced mark c)
    (hst : c.handleWrite write = some c') :
    Paced mark c' ∧ c'.pendingFunctors = c.pendingFunctors ++
      completion (c.channel.isWriting && write.ok) c'.buffered := by
  simp only [State.handleWrite] at hst
  split at hst
  · rename_i hw
    rw [hw, Bool.true_and]
    split at hst
    · rename_i n
      split at hst
      · rename_i hn
        cases hst
        split
        · obtain ⟨hwf, -⟩ := Buffer.retrieve_spec h.wf n
          by_cases hrest : (c.outputBuffer.retrieve n).readableBytes = 0
          · obtain ⟨hpaced, hnone, hq⟩ := wroteOutput_queues h (n := n) hwf hrest
            refine ⟨hpaced, ?_⟩
            rw [hq, hnone, completion, if_pos ⟨rfl, rfl⟩]
          · rw [State.wroteOutput]
            dsimp only
            rw [if_neg hrest]
            refine ⟨⟨hwf, fun _ => hrest, h.mark, h.complete, h.highWater⟩, ?_⟩
            change c.pendingFunctors = c.pendingFunctors ++
              completion true (c.outputBuffer.retrieve n).readableBytes
            rw [completion_of_ne hrest, List.append_nil]
        · refine ⟨h, ?_⟩
          rw [completion_of_ne (h.writing hw), List.append_nil]
      · cases hst
    · cases hst
      refine ⟨⟨h.wf, h.writing, h.mark, h.complete, h.highWater⟩, ?_⟩
      rw [WriteResult.ok, completion_false, List.append_nil]
  · rename_i hw
    cases hst
    rw [Bool.not_eq_true] at hw
    rw [hw, Bool.false_and, completion_false, List.append_nil]
    exact ⟨h, rfl⟩

/-! ## 3. The other moves -/

theorem aside_setState (c : State) (s : ConnState) : Aside c (c.setState s) :=
  ⟨rfl, id, rfl, rfl, rfl, [], (List.append_nil _).symm, rfl⟩

theorem aside_forceClose (c : State) : Aside c c.forceClose := by
  unfold State.forceClose
  split
  · exact (aside_setState c .disconnecting).trans (aside_queueInLoop _ rfl)
  · exact .refl c

/-- A channel whose write interest does not come up. -/
theorem aside_setChannel {ch : Channel} (hw : ch.isWriting = true → c.channel.isWriting = true)
    (reading : Bool) : Aside c { c with channel := ch, reading := reading } :=
  ⟨rfl, hw, rfl, rfl, rfl, [], (List.append_nil _).symm, rfl⟩

theorem aside_startReadInLoop (c : State) : Aside c c.startReadInLoop := by
  unfold State.startReadInLoop
  split
  · exact aside_setChannel (by simp) true
  · exact .refl c

theorem aside_stopReadInLoop (c : State) : Aside c c.stopReadInLoop := by
  unfold State.stopReadInLoop
  split
  · exact aside_setChannel (by simp) false
  · exact .refl c

/-- A step of another thread queues a call at most. -/
theorem aside_threadStep {t : Tid} {step : State.ThreadStep} (h : c.threadStep t step = some c') :
    Aside c c' := by
  have hcall : ∀ call, Aside c (c.setCall t call) :=
    fun call => ⟨rfl, id, rfl, rfl, rfl, [], (List.append_nil _).symm, rfl⟩
  have hpost : ∀ {f : Functor}, f.isNotice = false → Aside c ((c.setCall t .idle).queueInLoop f) :=
    fun hf => (hcall .idle).trans (aside_queueInLoop _ hf)
  cases (threadStep_inv h).2 with
  | send => exact ⟨rfl, id, rfl, rfl, rfl, [], (List.append_nil _).symm, rfl⟩
  | shutdown => exact hcall _
  | forceClose => exact hcall _
  | refused => exact .refl c
  | startRead => exact aside_queueInLoop c rfl
  | stopRead => exact aside_queueInLoop c rfl
  | queueSend => exact hpost rfl
  | queueShutdown => exact hpost rfl
  | queueForceClose => exact hpost rfl
  | storeShutdown => exact (hcall _).trans (aside_setState _ _)
  | storeForceClose => exact (hcall _).trans (aside_setState _ _)
  | addDelay => exact ⟨rfl, id, rfl, rfl, rfl, [], (List.append_nil _).symm, rfl⟩

/-- What a move leaves, when it neither sends nor writes. -/
theorem Aside.queues {m : Move} (ha : Aside c c') (hs : c.sendsInLoop m = false) (hw : c.writes m = false)
    (ht : c.taken m = c.pendingFunctors) :
    ∃ fs, c'.pendingFunctors = c.taken m ++ fs ∧
      fs.filter Functor.isNotice = notices mark c m c' := by
  obtain ⟨fs, hfs, hnone⟩ := ha.queue
  refine ⟨fs, ht ▸ hfs, ?_⟩
  rw [notices, hs, hw, completion_false, hnone]
  rfl

theorem filter_completion (wrote : Bool) (n : Nat) :
    (completion wrote n).filter Functor.isNotice = completion wrote n := by
  rw [completion]
  split
  · rfl
  · rfl

theorem filter_crossing (mark n k : Nat) :
    (crossing mark n k).filter Functor.isNotice = crossing mark n k := by
  rw [crossing]
  split
  · rfl
  · rfl

/-- The move keeps what holds between two moves, and of the flow-control callbacks it queues exactly
those that are due. -/
def Notifies (mark : Nat) (c : State) (m : Move) (c' : State) : Prop :=
  Paced mark c' ∧ ∃ fs, c'.pendingFunctors = c.taken m ++ fs ∧
    fs.filter Functor.isNotice = notices mark c m c'

theorem Paced.notifies_of_aside {m : Move} (h : Paced mark c) (ha : Aside c c')
    (hs : c.sendsInLoop m = false) (hw : c.writes m = false) (ht : c.taken m = c.pendingFunctors) :
    Notifies mark c m c' :=
  ⟨h.aside ha, ha.queues hs hw ht⟩

/-- `send` in the loop thread is a `send_in_loop` if it reads `kConnected`, and nothing at all if it
does not. -/
theorem act_send_queues {message : List Byte} {write : WriteResult} (h : Paced mark c)
    (hst : c.act (.send message write) = some c') : Notifies mark c (.act (.send message write)) c' := by
  simp only [State.act] at hst
  split at hst
  · rename_i hs
    obtain ⟨hpaced, hq⟩ := sendInLoop_queues (c := { c with called := c.called ++ [_] })
      ⟨h.wf, h.writing, h.mark, h.complete, h.highWater⟩ hst
    have hwrites : c.writes (.act (.send message write)) = (c.direct && write.ok) := by
      simp [State.writes, hs]
    have hsends : c.sendsInLoop (.act (.send message write)) = true := decide_eq_true hs
    refine ⟨hpaced, _, hq, ?_⟩
    rw [List.filter_append, filter_completion, filter_crossing, notices, hwrites, hsends, if_pos rfl]
    rfl
  · rename_i hs
    cases hst
    refine ⟨h, (Aside.refl c).queues ?_ ?_ rfl⟩
    · exact decide_eq_false hs
    · exact decide_eq_false fun hh => hs hh.1

/-- Of the loop thread's other calls none touches the output buffer. -/
theorem aside_act {a : State.Act} (hsend : ∀ message write, a ≠ .send message write)
    (hst : c.act a = some c') : Aside c c' := by
  cases a with
  | send message write => exact absurd rfl (hsend message write)
  | shutdown =>
    cases hst
    split
    · exact (aside_setState c .disconnecting).trans (aside_shutdownInLoop _)
    · exact .refl c
  | forceClose =>
    cases hst
    exact aside_forceClose c
  | forceCloseWithDelay =>
    cases hst
    split
    · exact ⟨rfl, id, rfl, rfl, rfl, [], (List.append_nil _).symm, rfl⟩
    · exact .refl c
  | startRead =>
    cases hst
    exact aside_startReadInLoop c
  | stopRead =>
    cases hst
    exact aside_stopReadInLoop c
  | retrieveInput len =>
    cases hst
    exact ⟨rfl, id, rfl, rfl, rfl, [], (List.append_nil _).symm, rfl⟩
  | thread t step => exact aside_threadStep hst

/-- The calls of the loop thread: only `send` can be one that writes. -/
theorem act_queues {a : State.Act} (h : Paced mark c) (hst : c.act a = some c') :
    Notifies mark c (.act a) c' := by
  by_cases hsend : ∃ message write, a = .send message write
  · obtain ⟨message, write, rfl⟩ := hsend
    exact act_send_queues h hst
  · have hother : ∀ message write, a ≠ .send message write :=
      fun message write ha => hsend ⟨message, write, ha⟩
    have hnone : c.sendsInLoop (.act a) = false ∧ c.writes (.act a) = false := by
      cases a with
      | send message write => exact absurd rfl (hother message write)
      | _ => exact ⟨rfl, rfl⟩
    exact h.notifies_of_aside (aside_act hother hst) hnone.1 hnone.2 rfl

theorem handleWrite_move {write : WriteResult} (h : Paced mark c)
    (hst : c.move (.handleWrite write) = some c') : Notifies mark c (.handleWrite write) c' := by
  obtain ⟨hpaced, hq⟩ := handleWrite_queues h hst
  have hwrites : c.writes (.handleWrite write) = (c.channel.isWriting && write.ok) := by
    simp [State.writes]
  have hsends : c.sendsInLoop (.handleWrite write) = false := rfl
  refine ⟨hpaced, _, hq, ?_⟩
  rw [filter_completion, notices, hwrites, hsends, if_neg Bool.false_ne_true, List.append_nil]

/-- A queued `send_in_loop` runs once it has been taken out of the queue, so that what it queues
comes behind `c.taken`. -/
theorem sendFunctor_move {write : WriteResult} (h : Paced mark c)
    (hst : c.move (.sendFunctor write) = some c') : Notifies mark c (.sendFunctor write) c' := by
  simp only [State.move] at hst
  split at hst
  · rename_i t message rest hp
    obtain ⟨hpaced, hq⟩ := sendInLoop_queues (c := { c with pendingFunctors := rest })
      ⟨h.wf, h.writing, h.mark, h.complete, h.highWater⟩ hst
    have hwrites : c.writes (.sendFunctor write) = (c.direct && write.ok) := by
      simp [State.writes]
    refine ⟨hpaced, _, by rw [State.taken, hp]; exact hq, ?_⟩
    rw [List.filter_append, filter_completion, filter_crossing, notices, hwrites, State.sendsInLoop, if_pos rfl]
    rfl
  · cases hst

theorem shutdownFunctor_move (h : Paced mark c) (hst : c.move .shutdownFunctor = some c') :
    Notifies mark c .shutdownFunctor c' := by
  simp only [State.move] at hst
  split at hst
  · rename_i rest hp
    cases hst
    have haside := aside_shutdownInLoop { c with pendingFunctors := rest }
    refine ⟨Paced.aside (c := { c with pendingFunctors := rest })
      ⟨h.wf, h.writing, h.mark, h.complete, h.highWater⟩ haside, [], ?_, rfl⟩
    rw [shutdownInLoop_queue, State.taken, hp, List.append_nil]
    rfl
  · cases hst

/-- A functor taken out of the queue is no callback that the move queues. -/
theorem pop_move (h : Paced mark c) (hst : c.move .pop = some c') : Notifies mark c .pop c' := by
  have hpop : ∀ rest, c.pendingFunctors.tail = rest → { c with pendingFunctors := rest } = c' →
      Notifies mark c .pop c' := by
    rintro rest hp rfl
    exact ⟨⟨h.wf, h.writing, h.mark, h.complete, h.highWater⟩, [], by
      rw [State.taken, hp, List.append_nil], rfl⟩
  simp only [State.move] at hst
  split at hst
  all_goals cases hst
  rename_i hp
  exact hpop _ (by rw [hp]; rfl) rfl

theorem aside_readInput {readv : Except Nat (List Byte)} (hst : c.move (.readInput readv) = some c') : Aside c c' := by
  simp only [State.move, State.readInput] at hst
  split at hst
  · split at hst
    · cases hst
      exact ⟨rfl, id, rfl, rfl, rfl, [], (List.append_nil _).symm, rfl⟩
    · cases hst
  · cases hst

/-- The moves at the two ends of a connection's life only take write interest away, if they touch
the channel at all. -/
theorem aside_established (c : State) : Aside c c.established := by
  refine ⟨rfl, fun hw => ?_, rfl, rfl, rfl, [], (List.append_nil _).symm, rfl⟩
  rwa [← Channel.isWriting_enableReading c.channel]

theorem aside_closing (c : State) : Aside c c.closing := by
  refine ⟨rfl, fun hw => ?_, rfl, rfl, rfl, [], (List.append_nil _).symm, rfl⟩
  exact absurd hw (by simp [State.closing])

theorem aside_closed (c : State) : Aside c c.closed := by
  rw [State.closed]
  dsimp only
  split
  · exact ⟨rfl, id, rfl, rfl, rfl, [.connectDestroyed], rfl, rfl⟩
  · exact ⟨rfl, id, rfl, rfl, rfl, [], (List.append_nil _).symm, rfl⟩

theorem aside_destroying (c : State) : Aside c c.destroying := by
  refine ⟨rfl, fun hw => ?_, rfl, rfl, rfl, [], (List.append_nil _).symm, rfl⟩
  exact absurd hw (by simp [State.destroying])

theorem aside_removed (c : State) : Aside c c.removed := by
  refine ⟨rfl, fun hw => ?_, rfl, rfl, rfl, [], (List.append_nil _).symm, rfl⟩
  rwa [← Channel.isWriting_remove c.channel]

/-- The timer of `force_close_with_delay` ends in `force_close`. -/
theorem aside_delayFires (hst : c.move .delayFires = some c') : Aside c c' := by
  cases step_inv (l := .delayFires) hst with
  | @delayFires n hn =>
    have hdelayed : Aside c { c with delayed := n } :=
      ⟨rfl, id, rfl, rfl, rfl, [], (List.append_nil _).symm, rfl⟩
    exact hdelayed.trans (aside_forceClose _)

theorem aside_removeConnectionInLoop (hst : c.move .removeConnectionInLoop = some c') :
    Aside c c' := by
  cases step_inv (l := .removeConnectionInLoop) hst with
  | removeConnectionInLoop hn => exact ⟨rfl, id, rfl, rfl, rfl, [.connectDestroyed], rfl, rfl⟩

/-- **What a move queues.**  The case split is over the moves: a `send_in_loop`, at once or out of
the queue, and a `handle_write` are the only ones that write, and each has been accounted for; a
functor taken out of the queue leaves the rest of it; all other moves leave the output buffer alone
and queue nothing that is a notice. -/
theorem move_queues {m : Move} (h : Paced mark c) (hst : c.move m = some c') : Notifies mark c m c' := by
  cases m with
  | act a => exact act_queues h hst
  | handleWrite write => exact handleWrite_move h hst
  | sendFunctor write => exact sendFunctor_move h hst
  | shutdownFunctor => exact shutdownFunctor_move h hst
  | pop => exact pop_move h hst
  | readInput readv => exact h.notifies_of_aside (aside_readInput hst) rfl rfl rfl
  | established =>
    cases hst
    exact h.notifies_of_aside (aside_established c) rfl rfl rfl
  | closing =>
    cases hst
    exact h.notifies_of_aside (aside_closing c) rfl rfl rfl
  | closed =>
    cases hst
    exact h.notifies_of_aside (aside_closed c) rfl rfl rfl
  | destroying =>
    cases hst
    exact h.notifies_of_aside (aside_destroying c) rfl rfl rfl
  | removed =>
    cases hst
    exact h.notifies_of_aside (aside_removed c) rfl rfl rfl
  | delayFires => exact h.notifies_of_aside (aside_delayFires hst) rfl rfl rfl
  | removeConnectionInLoop =>
    exact h.notifies_of_aside (aside_removeConnectionInLoop hst) rfl rfl rfl
  | serverQueuesDestroy =>
    cases hst
    exact h.notifies_of_aside ⟨rfl, id, rfl, rfl, rfl, [.connectDestroyed], rfl, rfl⟩ rfl rfl rfl

/-! ## 4. Every run -/

theorem paced_init (loopThread : Tid) (client : Bool) (mark : Nat) :
    Paced mark (.init loopThread client mark true true) := by
  refine ⟨Buffer.new_wf Buffer.initSize, fun hw => ?_, rfl, rfl, rfl⟩
  exact absurd hw (by decide : (Channel.new).isWriting ≠ true)

/-- The move queues a high-water callback, with `n` for its argument. -/
def QueuesHighWater (c : State) (m : Move) (c' : State) (n : Nat) : Prop :=
  ∃ fs, c'.pendingFunctors = c.taken m ++ fs ∧ Functor.highWaterMarkCallback n ∈ fs

/-- The high-water callback says that the buffer has come from below the mark to the mark. -/
theorem crosses_of_queuesHighWater {m : Move} {n : Nat}
    (hq : ∃ fs, c'.pendingFunctors = c.taken m ++ fs ∧
      fs.filter Functor.isNotice = notices mark c m c') (h : QueuesHighWater c m c' n) :
    c.buffered < mark ∧ mark ≤ c'.buffered := by
  obtain ⟨fs, hfs, hnotices⟩ := hq
  obtain ⟨gs, hgs, hmem⟩ := h
  obtain rfl : fs = gs := List.append_cancel_left (hfs.symm.trans hgs)
  have hin : Functor.highWaterMarkCallback n ∈ notices mark c m c' :=
    hnotices ▸ List.mem_filter.mpr ⟨hmem, rfl⟩
  simp only [notices, completion, crossing, List.mem_append] at hin
  rcases hin with hin | hin
  · split at hin
    · simp at hin
    · cases hin
  · split at hin
    · split at hin
      · assumption
      · cases hin
    · cases hin

/-- **Flow-control callbacks are exact.**  Take any run of a connection with both callbacks set, cut
into its moves (`step_moves`), so that each `send_in_loop` and `handle_write` is a move of its own.
A move adds exactly these flow-control callbacks to the functor queue: a `send_in_loop` the
high-water callback, with the new number of buffered bytes, if it raises that number from below the
mark to at least the mark; a `send_in_loop` or a `handle_write` one write-complete callback, if its
`write` succeeded and it leaves the output buffer empty; and no others.  So where two moves queue a
high-water callback, the first leaves the buffer at the mark or above, and it is below the mark at
some point before the second.

That is `move_queues` in every state that moves can reach, where `Paced` holds; the last part
follows from it, since the second callback is queued by a move that begins below the mark. -/
theorem flow_control_exact (loopThread : Tid) (client : Bool) (mark : Nat) (c : State)
    (h : Reach State.move anyStep (.init loopThread client mark true true) c) (m : Move) (c' : State)
    (hm : c.move m = some c') :
    (∃ fs, c'.pendingFunctors = c.taken m ++ fs ∧
      fs.filter Functor.isNotice = notices mark c m c') ∧
    ∀ d m' d' n k, Reach State.move anyStep c' d → d.move m' = some d' →
      QueuesHighWater c m c' n → QueuesHighWater d m' d' k →
      mark ≤ c'.buffered ∧
        ∃ e, Reach State.move anyStep c' e ∧ Reach State.move anyStep e d ∧ e.buffered < mark := by
  have hpaced : ∀ {s : State},
      Reach State.move anyStep (.init loopThread client mark true true) s → Paced mark s := by
    intro s hs
    exact hs.invariant (paced_init loopThread client mark) fun _ _ _ hi _ hst => (move_queues hi hst).1
  refine ⟨(move_queues (hpaced h) hm).2, ?_⟩
  intro d m' d' n k hreach hm' hfirst hsecond
  have hd : Paced mark d := hpaced ((h.tail m trivial hm).trans hreach)
  have hcross := crosses_of_queuesHighWater (move_queues (hpaced h) hm).2 hfirst
  have hcross' := crosses_of_queuesHighWater (move_queues hd hm').2 hsecond
  exact ⟨hcross.2, d, hreach, .refl, hcross'.1⟩

/-- Over a mark of 3: one byte is sent at once, the next four wait; two are written out, and with
two more the buffer is at 4, above the mark again. -/
def overTheMark : List Move :=
  [.pop, .established, .act (.send [1] (.wrote 1)), .act (.send [2, 3, 4, 5] (.failed .ewouldblock)),
    .handleWrite (.wrote 2)]

theorem flow_control_exact_overTheMark :
    ∃ c c', Reach State.move anyStep (.init 1 false 3 true true) c ∧
      c.pendingFunctors = [.writeCompleteCallback, .highWaterMarkCallback 4] ∧ c.buffered = 2 ∧
      c.move (.act (.send [6, 7] (.wrote 0))) = some c' ∧
      ∃ fs, c'.pendingFunctors = c.pendingFunctors ++ fs ∧
        fs.filter Functor.isNotice = [.highWaterMarkCallback 4] := by
  have hrun : ∃ c, Reach State.move anyStep (.init 1 false 3 true true) c ∧
      (c.pendingFunctors = [.writeCompleteCallback, .highWaterMarkCallback 4] ∧ c.buffered = 2 ∧
        (c.move (.act (.send [6, 7] (.wrote 0)))).any fun c' =>
          notices 3 c (.act (.send [6, 7] (.wrote 0))) c' = [.highWaterMarkCallback 4]) :=
    Reach.exists_of_exec overTheMark _ (meets_any overTheMark _) (by decide +kernel)
  obtain ⟨c, h, hq, hb, hany⟩ := hrun
  obtain ⟨c', hm, hnotices⟩ := (Option.any_eq_true _ _).mp hany
  obtain ⟨fs, hfs, hfilter⟩ := (flow_control_exact 1 false 3 c h _ c' hm).1
  exact ⟨c, c', h, hq, hb, hm, fs, hfs, hfilter.trans (of_decide_eq_true hnotices)⟩

end Suduo.TcpConnection
