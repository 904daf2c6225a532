/-
# Two connections, end to end

A connection is one of two ends: what `write` accepts here is what `readv` returns there.  Here two
connections, each with its loop, its user code and its threads, are the two parties of a `Duplex`
(`Lib/Duplex.lean`), and the network between them keeps the order and nothing else.  They move as in
`TcpMoves.lean`, so whatever happens at one end can happen between any two moves of the other; a
connection can be gone at any time, and its socket with it.

`stream_end_to_end` follows every byte from `send` to `retrieve`: it is in the output buffer, on its
way, in the input buffer or taken, in this order and once.  The peer of a connection that shuts down
reads the end of the stream when it has read all that was sent, and where `shutdown` overtakes
nothing (`TcpShutdown.lean`) that is all whose `send` had returned before (`eof_after_sends`).
-/
import Suduo.Lib.Duplex
import Suduo.Net.TcpInput
import Suduo.Net.TcpShutdown

namespace Suduo.TcpConnection

open Lib

/-! ## 1. An end of the stream -/

/-- A connection with its socket.  The connection is `Watched`, so that what each half-close
found is on record; `taken` collects what user code has retrieved, which the connection forgets. -/
structure Endpoint where
  watched : Watched
  /-- All that has been retrieved from the input buffer. -/
  taken : List Byte
  /-- The connection is gone, and has closed its socket. -/
  closed : Bool

namespace Endpoint

def conn (e : Endpoint) : State := e.watched.conn

/-- What the input buffer holds. -/
def input (e : Endpoint) : List Byte := e.conn.inputBuffer.contents

def init (loopThread : Tid) (client : Bool) (highWaterMark : Nat) (hasWriteComplete hasHighWaterMark : Bool) :
    Endpoint :=
  ⟨.init loopThread client highWaterMark hasWriteComplete hasHighWaterMark, [], false⟩

inductive Label
  | move (m : Move)
  | close

def step (e : Endpoint) (l : Label) : Option Endpoint :=
  if e.closed then none
  else
    match l with
    | .move m =>
      (e.watched.step m).map fun w =>
        { e with watched := w, taken := e.taken ++ (e.input ++ m.readv.getD []).take m.retrieves }
    | .close => some { e with closed := true }

/-- What a step reads from the socket. -/
def reads : Label → Option (List Byte)
  | .move m => m.readv
  | .close => none

/-- The peer will be told that no more comes, by `shutdown_write` or by `close` of the socket. -/
def finished (e : Endpoint) : Bool := e.closed || !e.conn.halfCloses.isEmpty

variable {e e' : Endpoint}

/-- What a step can be. -/
inductive Step (e : Endpoint) : Label → Endpoint → Prop
  | move {m : Move} {w : Watched} (hw : e.watched.step m = some w) : Step e (.move m)
      { e with watched := w, taken := e.taken ++ (e.input ++ m.readv.getD []).take m.retrieves }
  | close : Step e .close { e with closed := true }

theorem step_inv {l : Label} (h : e.step l = some e') : Step e l e' := by
  simp only [step] at h
  split at h
  · cases h
  · cases l with
    | move m =>
      obtain ⟨w, hw, rfl⟩ := Option.map_eq_some_iff.mp h
      exact .move hw
    | close =>
      cases h
      exact .close

/-- A step of what is watched is a move of the connection, so the laws of the moves apply to it. -/
theorem move_of_step {w w' : Watched} {m : Move} (h : w.step m = some w') : w.conn.move m = some w'.conn := by
  obtain ⟨c, hm, rfl⟩ := Option.map_eq_some_iff.mp h
  exact hm

theorem halfCloses_mono {w w' : Watched} {m : Move} (h : w.step m = some w') (hne : w.conn.halfCloses ≠ []) :
    w'.conn.halfCloses ≠ [] := by
  rcases (move_noted (move_of_step h)).halfCloses with hsame | ⟨-, hclosed⟩
  · rwa [hsame]
  · rw [hclosed.halfCloses]
    exact List.append_ne_nil_of_right_ne_nil _ (List.cons_ne_nil _ _)

theorem finished_iff (e : Endpoint) : e.finished = true ↔ e.closed = true ∨ e.conn.halfCloses ≠ [] := by
  simp [finished]

/-- **A connection is a party** of a stream: what it has written only grows, by `move_written`,
and once it has finished it stays so. -/
def party : Party Endpoint Label Byte where
  step := step
  sent e := e.conn.written
  finished := finished
  reads := reads
  sent_mono h := by
    cases step_inv h with
    | move hw => exact move_written (move_of_step hw)
    | close => exact List.prefix_rfl
  finished_mono h hf := by
    rw [finished_iff] at hf ⊢
    cases step_inv h with
    | move hw => exact hf.imp id (halfCloses_mono hw)
    | close => exact .inl rfl

/-! ## 2. What an end keeps -/

/-- What was read has been taken, or waits in the input buffer.  With this the two sides of the
stream can be compared at all: the reader's user sees the two parts, the network only their sum. -/
def Holds (e : Endpoint) (received : List Byte) : Prop :=
  e.conn.inputBuffer.Wf ∧ e.taken ++ e.input = received

theorem holds_init (loopThread : Tid) (client : Bool) (mark : Nat) (wc hw : Bool) :
    Holds (.init loopThread client mark wc hw) [] :=
  ⟨Buffer.new_wf Buffer.initSize, rfl⟩

theorem step_holds {l : Label} {received : List Byte} (h : Holds e received) (hst : e.step l = some e') :
    Holds e' (received ++ (reads l).getD []) := by
  cases step_inv hst with
  | @move m w hw =>
    obtain ⟨hwf, hin⟩ := move_input h.1 (move_of_step hw)
    refine ⟨hwf, ?_⟩
    change e.taken ++ (e.input ++ m.readv.getD []).take m.retrieves ++ w.conn.inputBuffer.contents = _
    rw [hin, List.append_assoc]
    change e.taken ++ ((e.input ++ m.readv.getD []).take m.retrieves ++ (e.input ++ m.readv.getD []).drop m.retrieves) =
      received ++ m.readv.getD []
    rw [List.take_append_drop, ← List.append_assoc, h.2]
  | close => exact ⟨h.1, h.2.trans (List.append_nil _).symm⟩

/-- What an end keeps of its half-closes.  There is one snapshot for each, and what was written
then is what is written now: a half-closed end writes nothing any more, which is `Duplex.Quiet`
here and is what the kernel sees to there. -/
structure Sound (e : Endpoint) : Prop where
  kept : Kept e.watched
  count : e.watched.snapshots.length = e.conn.halfCloses.length
  last : ∀ s ∈ e.watched.snapshots, s.written = e.conn.written

theorem sound_init (loopThread : Tid) (client : Bool) (mark : Nat) (wc hw : Bool) :
    Sound (.init loopThread client mark wc hw) :=
  ⟨kept_init loopThread client mark wc hw, rfl, by rintro s ⟨⟩⟩

/-- A snapshot is of an end that has finished, because it is of a half-close. -/
theorem Sound.finished (h : Sound e) {s : Snapshot} (hs : s ∈ e.watched.snapshots) : e.finished = true := by
  rw [finished_iff]
  right
  intro hnone
  have hcount := h.count
  rw [hnone] at hcount
  rw [List.length_eq_zero_iff.mp hcount] at hs
  cases hs

theorem step_count {w w' : Watched} {m : Move} (hlen : w.snapshots.length = w.conn.halfCloses.length)
    (h : w.step m = some w') : w'.snapshots.length = w'.conn.halfCloses.length := by
  obtain ⟨c, hm, rfl⟩ := Option.map_eq_some_iff.mp h
  dsimp only
  rcases (move_noted hm).halfCloses with hsame | ⟨-, hclosed⟩
  · rw [if_neg (by rw [hsame]; exact Nat.lt_irrefl _), hsame]
    exact hlen
  · rw [hclosed.halfCloses, List.length_append, List.length_singleton, if_pos (Nat.lt_succ_self _), List.length_append,
      hlen, List.length_singleton]

theorem step_sound {l : Label} (h : Sound e) (hq : Duplex.Quiet party e l) (hst : e.step l = some e') : Sound e' := by
  have hquiet := fun hf => hq hf e' hst
  cases step_inv hst with
  | @move m w hw =>
    have hold : ∀ s ∈ e.watched.snapshots, s.written = w.conn.written :=
      fun s hs => (h.last s hs).trans (hquiet (h.finished hs)).symm
    refine ⟨step_kept h.kept hw, step_count h.count hw, ?_⟩
    rcases step_snapshots hw with hsame | ⟨-, c, hm, -, heq⟩
    · rw [hsame]
      exact hold
    · rw [heq]
      intro s hs
      rcases List.mem_append.mp hs with hs | hs
      · exact hold s hs
      · have hc : w.conn = c := Option.some.inj ((move_of_step hw).symm.trans hm)
        rw [List.mem_singleton.mp hs]
        exact congrArg State.written hc.symm
  | close => exact ⟨h.kept, h.count, h.last⟩

/-- No half-close of this step overtakes a message whose `send` had returned: the condition of
`TcpShutdown.lean`, which a plain `shutdown()` meets or not. -/
def Gracious (e : Endpoint) : Label → Prop
  | .move m => SendsTaken e.watched m
  | .close => True

instance (e : Endpoint) : ∀ l, Decidable (e.Gracious l)
  | .move m => inferInstanceAs (Decidable (SendsTaken e.watched m))
  | .close => .isTrue trivial

/-- Each half-close was of all that had been promised, unless the writing end was over for
another reason. -/
def Complete (e : Endpoint) : Prop := ∀ s ∈ e.watched.snapshots, s.ended = false → s.Complete

/-- Under the condition on the step a half-close adds a complete snapshot, and everything else
adds none. -/
theorem step_complete {l : Label} (h : Sound e) (hall : Complete e) (hg : e.Gracious l) (hst : e.step l = some e') :
    Complete e' := by
  cases step_inv hst with
  | @move m w hw =>
    intro s hs ho
    rcases step_snapshots hw with hsame | ⟨hh, c, hm, hclosed, heq⟩
    · exact hall s (hsame ▸ hs) ho
    · rw [show (Endpoint.watched _) = w from rfl, heq] at hs
      rcases List.mem_append.mp hs with hs | hs
      · exact hall s hs ho
      · rw [List.mem_singleton.mp hs] at ho ⊢
        exact (h.kept.complete_iff hm hclosed ho).mpr (hg (hclosed.ended ▸ ho) hh)
  | close => exact hall

end Endpoint

/-! ## 3. The two ends -/

open Endpoint

variable {near far : Endpoint} {d : Duplex Endpoint Byte}

/-- An end that nothing has happened to.  Who owns it, its high-water mark and which callbacks
are set make no difference. -/
def Endpoint.Fresh (e : Endpoint) : Prop := ∃ loopThread client mark wc hw, e = .init loopThread client mark wc hw

theorem Endpoint.Fresh.sound {e : Endpoint} (h : e.Fresh) : Sound e ∧ Complete e ∧ Holds e [] := by
  obtain ⟨loopThread, client, mark, wc, hw, rfl⟩ := h
  exact ⟨sound_init loopThread client mark wc hw, by rintro s ⟨⟩, holds_init loopThread client mark wc hw⟩

theorem join_party {P : Endpoint → Prop} (hnear : P near) (hfar : P far) (side : Side) :
    P ((party.join near far).party side) := by
  cases side with
  | near => exact hnear
  | far => exact hfar

/-- What has been read of the other end is taken or waits: `step_holds` at both ends, carried
over every interleaving by the induction of `Duplex`. -/
theorem reach_holds {G : Duplex Endpoint Byte → Side × Endpoint.Label → Prop} (hnear : near.Fresh)
    (hfar : far.Fresh) (h : Reach (Duplex.step party) G (party.join near far) d) (side : Side) :
    (d.party side).taken ++ (d.party side).input = d.received side :=
  (Duplex.reach_reads (R := Holds) h
    (join_party (P := fun e => Holds e []) hnear.sound.2.2 hfar.sound.2.2)
    (fun _ _ _ _ hr hst => step_holds hr hst) side).2

/-- **Every byte, from `send` to `retrieve`.**  In every run of two connections, whatever their
users, their threads and the network do, three accounts hold.  What has been taken out of one end,
what waits in its input buffer and what is on its way are what `write` has accepted at the other:
this is `Duplex.conserved` with `reach_holds`.  As long as the writing end is not over, so long as
no `write` has failed for good and the connection has not been closed, these and its output buffer
are the messages passed to `send_in_loop`, in order.  And those of each thread, with the ones in the
queue and the one in hand, are the messages whose `send` found the connection `kConnected`, in the
thread's order.

The three are proved of one end each and meet in what has been written, so no argument is made
about two connections at once. -/
theorem stream_end_to_end (near far : Endpoint) (hnear : near.Fresh) (hfar : far.Fresh) (d : Duplex Endpoint Byte)
    (h : Reach (Duplex.step party) anyStep (party.join near far) d) (side : Side) :
    (d.party side.other).taken ++ (d.party side.other).input ++ d.inFlight side = (d.party side).conn.written ∧
      ((d.party side).conn.ended = false →
        (d.party side.other).taken ++ (d.party side.other).input ++ d.inFlight side ++
          (d.party side).conn.outputBuffer.contents = ((d.party side).conn.processed.map Prod.snd).flatten) ∧
      ∀ t, ofThread t (d.party side).conn.processed ++ queuedBy t (d.party side).conn.pendingFunctors ++
        ((d.party side).conn.call t).messages = ofThread t (d.party side).conn.called := by
  have hrun := Duplex.reach_party (G := anyStep) h side
  have hsound : Sound (d.party side) :=
    hrun.invariant (join_party hnear.sound.1 hfar.sound.1 side) fun _ _ _ hi hg hst => step_sound hi hg.1 hst
  have hstream : (d.party side.other).taken ++ (d.party side.other).input ++ d.inFlight side =
      (d.party side).conn.written := by
    rw [reach_holds hnear hfar h]
    exact (Duplex.reach_conserved h).stream side
  refine ⟨hstream, fun ho => ?_, hsound.kept.flow.order⟩
  have hout := hsound.kept.flow.stream ho
  rw [List.append_nil] at hout
  rw [hstream]
  exact hout

/-- Thread 2 of the near end sends and shuts down while its loop writes in two goes; the far end
reads one byte, and the rest later. -/
def sendsAcross : List (Side × Endpoint.Label) :=
  (sendsThenShutdown.map fun m => (Side.near, Endpoint.Label.move m)) ++
    [(.far, .move .pop), (.far, .move .established), (.far, .move (.readInput (.ok [1]))),
      (.far, .move (.act (.retrieveInput 1))), (.far, .move (.readInput (.ok [2, 3, 4, 5, 6])))]

def freshEnd : Endpoint := .init 1 false 64 false false

theorem fresh_freshEnd : freshEnd.Fresh := ⟨1, false, 64, false, false, rfl⟩

theorem stream_end_to_end_sendsAcross :
    ∃ d, Reach (Duplex.step party) anyStep (party.join freshEnd freshEnd) d ∧
      (d.party .far).taken = [1] ∧ (d.party .far).input = [2, 3, 4, 5, 6] ∧
      (d.party .far).taken ++ (d.party .far).input ++ d.inFlight .near = (d.party .near).conn.written := by
  have hrun : ∃ d, Reach (Duplex.step party) anyStep (party.join freshEnd freshEnd) d ∧
      ((d.party .far).taken = [1] ∧ (d.party .far).input = [2, 3, 4, 5, 6]) :=
    Reach.exists_of_exec sendsAcross _ (meets_any sendsAcross _) (by decide +kernel)
  obtain ⟨d, h, htaken, hinput⟩ := hrun
  exact ⟨d, h, htaken, hinput, (stream_end_to_end _ _ fresh_freshEnd fresh_freshEnd d h .near).1⟩

/-- **The end of the stream comes after everything.**  Where no half-close overtakes a message whose
`send` had returned, whoever has read the end of the stream has read all that was written.  Unless
the other end is gone without having shut down, it has shut down; and of each half-close, what was
read is all that was promised then, unless a write had failed for good or the connection been
closed.

The network gives the end of the stream only behind the last byte (`Duplex`), a half-closed end
writes nothing more (`Sound`), and a half-close of a gracious run is complete (`step_complete`):
the three together are the statement. -/
theorem eof_after_sends (near far : Endpoint) (hnear : near.Fresh) (hfar : far.Fresh) (d : Duplex Endpoint Byte)
    (h : Reach (Duplex.step party) (fun d l => (d.party l.1).Gracious l.2) (party.join near far) d) (side : Side)
    (heof : d.eof side.other = true) :
    (d.party side.other).taken ++ (d.party side.other).input = (d.party side).conn.written ∧
      ((d.party side).watched.snapshots = [] → (d.party side).closed = true) ∧
      ∀ s ∈ (d.party side).watched.snapshots,
        s.written = (d.party side.other).taken ++ (d.party side.other).input ∧ (s.ended = false → s.Complete) := by
  have hrun := Duplex.reach_party h side
  obtain ⟨hsound, hcomplete⟩ : Sound (d.party side) ∧ Complete (d.party side) := by
    refine hrun.invariant (I := fun e => Sound e ∧ Complete e) ?_ ?_
    · exact join_party (P := fun e => Sound e ∧ Complete e) ⟨hnear.sound.1, hnear.sound.2.1⟩
        ⟨hfar.sound.1, hfar.sound.2.1⟩ side
    · rintro e l e' ⟨hs, hc⟩ ⟨hq, hg⟩ hst
      exact ⟨step_sound hs hq hst, step_complete hs hc hg hst⟩
  have hconserved := Duplex.reach_conserved h
  obtain ⟨hempty, hfinished⟩ := hconserved.eof side heof
  have hall : (d.party side.other).taken ++ (d.party side.other).input = (d.party side).conn.written := by
    rw [reach_holds hnear hfar h]
    have hstream := hconserved.stream side
    rwa [hempty, List.append_nil] at hstream
  refine ⟨hall, fun hnone => ?_, fun s hs => ⟨?_, hcomplete s hs⟩⟩
  · rcases (finished_iff _).mp hfinished with hclosed | hne
    · exact hclosed
    · have hcount := hsound.count
      rw [hnone] at hcount
      exact absurd (List.length_eq_zero_iff.mp hcount.symm) hne
  · rw [hall]
    exact hsound.last s hs

theorem eof_after_sends_sendsAcross :
    ∃ d, Reach (Duplex.step party) (fun d l => (d.party l.1).Gracious l.2) (party.join freshEnd freshEnd) d ∧
      d.eof .far = true ∧ (d.party .far).taken ++ (d.party .far).input = (d.party .near).conn.written := by
  have hrun : ∃ d, Reach (Duplex.step party) (fun d l => (d.party l.1).Gracious l.2)
      (party.join freshEnd freshEnd) d ∧ d.eof .far = true :=
    Reach.exists_of_exec (sendsAcross ++ [(.far, .move (.readInput (.ok [])))]) _ (by decide +kernel)
      (by decide +kernel)
  obtain ⟨d, h, heof⟩ := hrun
  exact ⟨d, h, heof, (eof_after_sends _ _ fresh_freshEnd fresh_freshEnd d h .near heof).1⟩

end Suduo.TcpConnection
