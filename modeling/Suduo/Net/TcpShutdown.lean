/-
# What `shutdown` may overtake

`send` and `shutdown` both go straight to work on the loop's thread, and through the functor queue
from any other.  A `shutdown` that finds output still unwritten leaves `shutdown_write` to
`handle_write`.  So a message can be handed in from another thread, its `send` return, and a
`shutdown` on the loop's thread, or the `handle_write` that drains the buffer for an earlier one,
issue `shutdown_write` while the message is still in the queue (`shutdown_overtakes`).

`Watched` keeps, for each call of `shutdown`, what `send` had returned for when it began, and the
state of the output at each `shutdown_write`.  Where the code issues one only with nothing promised
left in the queue (`SendsTaken`), every promised byte has gone to `write(2)` before it, since output
that is buffered holds it back (`shutdown_after_sends`).
-/
import Suduo.Net.TcpMoves

namespace Suduo.TcpConnection

open Lib

/-! ## 1. Calls of `shutdown`, and what was promised -/

/-- The output at one `shutdown_write`. -/
structure Snapshot where
  /-- The messages whose `send` had returned when `shutdown` was last called. -/
  promised : List (Tid × List Byte)
  processed : List (Tid × List Byte)
  written : List Byte
  ended : Bool

/-- A connection, what was promised at the last call of `shutdown`, and the half-closes.  What is
recorded here the connection has no use for, and a move of the connection is one of what is
watched whatever is on record. -/
structure Watched where
  conn : State
  promised : List (Tid × List Byte)
  snapshots : List Snapshot

/-- The message a functor is about to send, with its thread. -/
def Functor.message? : Functor → Option (Tid × List Byte)
  | .sendInLoop t message => some (t, message)
  | _ => none

/-- The messages whose `send` has found the connection up, and returned. -/
def State.returned (c : State) : List (Tid × List Byte) :=
  c.processed ++ c.pendingFunctors.filterMap Functor.message?

/-- A call of `shutdown` begins with this move. -/
def Move.callsShutdown : Move → Bool
  | .act .shutdown | .act (.thread _ .shutdown) => true
  | _ => false

namespace Watched

def init (loopThread : Tid) (client : Bool) (highWaterMark : Nat)
    (hasWriteComplete hasHighWaterMark : Bool) : Watched :=
  ⟨.init loopThread client highWaterMark hasWriteComplete hasHighWaterMark, [], []⟩

/-- What is promised from this move on. -/
def promises (w : Watched) (m : Move) : List (Tid × List Byte) :=
  if m.callsShutdown then w.conn.returned else w.promised

def step (w : Watched) (m : Move) : Option Watched :=
  (w.conn.move m).map fun c =>
    { conn := c
      promised := w.promises m
      snapshots :=
        if w.conn.halfCloses.length < c.halfCloses.length then
          w.snapshots ++ [⟨w.promises m, c.processed, c.written, c.ended⟩]
        else w.snapshots }

end Watched

/-- Everything promised has been passed to `send_in_loop`, in its thread's order, and every byte
of it handed to `write`. -/
def Snapshot.Complete (s : Snapshot) : Prop :=
  (∀ t, ofThread t s.promised <+: ofThread t s.processed) ∧
    s.written = (s.processed.map Prod.snd).flatten

/-- As many messages of each thread have been taken from the queue as were promised. -/
def Taken (promised processed : List (Tid × List Byte)) : Prop :=
  ∀ p ∈ promised, (ofThread p.1 promised).length ≤ (ofThread p.1 processed).length

instance (promised processed : List (Tid × List Byte)) : Decidable (Taken promised processed) :=
  inferInstanceAs (Decidable
    (∀ p ∈ promised, (ofThread p.1 promised).length ≤ (ofThread p.1 processed).length))

/-- `shutdown_write` is issued only when no promised message is in the queue any more.  This is a
condition on the state before the move: of the calls of `shutdown` on the loop's thread and of
the writes that drain the buffer after one. -/
def SendsTaken (w : Watched) (m : Move) : Prop :=
  w.conn.ended = false → HalfCloses w.conn m → Taken (w.promises m) w.conn.processed

instance (w : Watched) (m : Move) : Decidable (SendsTaken w m) :=
  inferInstanceAs (Decidable (w.conn.ended = false → HalfCloses w.conn m →
    Taken (w.promises m) w.conn.processed))

/-! ## 2. What was promised was called -/

variable {c c' : State} {t : Tid}

theorem ofThread_queued (t : Tid) (fs : List Functor) :
    ofThread t (fs.filterMap Functor.message?) = queuedBy t fs := by
  induction fs with
  | nil => rfl
  | cons f fs ih =>
    cases f with
    | sendInLoop u message =>
      by_cases hu : u = t
      · simpa [ofThread, queuedBy, Functor.message?, Functor.messageOf, hu] using ih
      · simpa [ofThread, queuedBy, Functor.message?, Functor.messageOf, hu] using ih
    | _ => exact ih

theorem Flow.processed_called (h : Flow c []) (t : Tid) :
    ofThread t c.processed <+: ofThread t c.called := by
  rw [← h.order t, List.append_assoc]
  exact List.prefix_append _ _

theorem Flow.returned_called (h : Flow c []) (t : Tid) :
    ofThread t c.returned <+: ofThread t c.called := by
  rw [← h.order t, State.returned, ofThread_append, ofThread_queued]
  exact List.prefix_append _ _

/-- With nothing promised left in the queue, what was promised is a front of what was processed.
Both are fronts of what the thread called, so their lengths decide. -/
theorem Taken.prefix {promised processed called : List (Tid × List Byte)}
    (h : Taken promised processed) (hp : ofThread t promised <+: ofThread t called)
    (hq : ofThread t processed <+: ofThread t called) :
    ofThread t promised <+: ofThread t processed := by
  by_cases hnone : ofThread t promised = []
  · rw [hnone]
    exact List.nil_prefix
  · -- some message of `t` is promised, so the count is about `t`
    obtain ⟨message, hm⟩ := List.exists_mem_of_ne_nil _ hnone
    obtain ⟨p, hmem, -⟩ := List.mem_map.mp hm
    obtain ⟨hmem, ht⟩ := List.mem_filter.mp hmem
    have hlen := h p hmem
    rw [of_decide_eq_true ht] at hlen
    exact List.prefix_of_prefix_length_le hp hq hlen

theorem taken_of_prefix {promised processed : List (Tid × List Byte)}
    (h : ∀ t, ofThread t promised <+: ofThread t processed) : Taken promised processed :=
  fun p _ => (h p.1).length_le

/-! ## 3. Every half-close -/

/-- What every move keeps: the account of the output, and that what was promised was called. -/
structure Kept (w : Watched) : Prop where
  flow : Flow w.conn []
  promised : ∀ t, ofThread t w.promised <+: ofThread t w.conn.called

theorem kept_init (loopThread : Tid) (client : Bool) (mark : Nat) (wc hw : Bool) :
    Kept (.init loopThread client mark wc hw) :=
  ⟨flow_init loopThread client mark wc hw, fun _ => List.prefix_rfl⟩

theorem ofThread_mono {ms ns : List (Tid × List Byte)} (h : ms <+: ns) (t : Tid) :
    ofThread t ms <+: ofThread t ns := by
  obtain ⟨rest, rfl⟩ := h
  rw [ofThread_append]
  exact List.prefix_append _ _

/-- Whether the promise is an old one or is made now, it is about messages that were called. -/
theorem Kept.promises {w : Watched} (h : Kept w) (m : Move) (t : Tid) :
    ofThread t (w.promises m) <+: ofThread t w.conn.called := by
  rw [Watched.promises]
  split
  · exact h.flow.returned_called t
  · exact h.promised t

theorem step_kept {w w' : Watched} {m : Move} (h : Kept w) (hst : w.step m = some w') : Kept w' := by
  obtain ⟨c, hm, rfl⟩ := Option.map_eq_some_iff.mp hst
  exact ⟨move_flow h.flow hm, fun t => (h.promises m t).trans (ofThread_mono (move_noted hm).called t)⟩

/-- **What a half-close finds.**  The output is written out, so the snapshot is complete if and
only if nothing promised is left in the queue.  That the output is written out is the account's
doing (`Flow.halfCloses`) and needs no condition. -/
theorem Kept.complete_iff {w : Watched} (h : Kept w) {m : Move} {c : State}
    (hm : w.conn.move m = some c) (hh : HalfClosed w.conn c) (ho : c.ended = false) :
    Snapshot.Complete ⟨w.promises m, c.processed, c.written, c.ended⟩ ↔
      Taken (w.promises m) w.conn.processed := by
  have hflow := move_flow h.flow hm
  constructor
  · intro hc
    rw [← hh.processed]
    exact taken_of_prefix hc.1
  · intro ht
    constructor
    · intro t
      rw [hh.processed]
      exact ht.prefix (h.promises m t) (h.flow.processed_called t)
    · -- no write interest means nothing is buffered
      have hempty : c.outputBuffer.contents = [] := by
        by_contra hne
        have hw := (hflow.writing ho).mpr hne
        rw [hh.notWriting] at hw
        cases hw
      have hstream := hflow.stream ho
      rw [hempty, List.append_nil, List.append_nil] at hstream
      exact hstream

/-- A snapshot is added by a move that issues `shutdown_write`, and by no other. -/
theorem step_snapshots {w w' : Watched} {m : Move} (hst : w.step m = some w') :
    w'.snapshots = w.snapshots ∨ HalfCloses w.conn m ∧ ∃ c, w.conn.move m = some c ∧
      HalfClosed w.conn c ∧
      w'.snapshots = w.snapshots ++ [⟨w.promises m, c.processed, c.written, c.ended⟩] := by
  obtain ⟨c, hm, rfl⟩ := Option.map_eq_some_iff.mp hst
  rcases (move_noted hm).halfCloses with hsame | ⟨hh, hclosed⟩
  · left
    dsimp only
    rw [if_neg (by rw [hsame]; exact Nat.lt_irrefl _)]
  · right
    refine ⟨hh, c, hm, hclosed, ?_⟩
    dsimp only
    rw [if_pos]
    rw [hclosed.halfCloses, List.length_append, List.length_singleton]
    exact Nat.lt_succ_self _

/-- **`shutdown` overtakes nothing, if nothing promised is left in the queue.**  In every
interleaving of the loop's thread with any number of threads that call `send` and `shutdown`,
where `shutdown_write` is issued only when no message is in the functor queue any more whose
`send` had returned before a call of `shutdown` began: at every `shutdown_write`, unless a write
has failed for good or the connection is closed, all such messages have been passed to
`send_in_loop` in the order of their threads, and `write` has been handed every byte.  By
`Kept.complete_iff` no half-close that breaks the condition is complete, so the condition is
exact. -/
theorem shutdown_after_sends (loopThread : Tid) (client : Bool) (mark : Nat) (wc hw : Bool)
    (w : Watched) (h : Reach Watched.step SendsTaken (.init loopThread client mark wc hw) w) :
    ∀ s ∈ w.snapshots, s.ended = false → s.Complete := by
  have hI := h.invariant
    (I := fun w => Kept w ∧ ∀ s ∈ w.snapshots, s.ended = false → s.Complete)
    ⟨kept_init loopThread client mark wc hw, by simp [Watched.init]⟩ ?_
  · exact hI.2
  rintro w m w' ⟨hk, hall⟩ hg hst
  refine ⟨step_kept hk hst, ?_⟩
  rcases step_snapshots hst with hsame | ⟨hh, c, hm, hclosed, heq⟩
  · rw [hsame]
    exact hall
  · intro s hs ho
    rw [heq] at hs
    rcases List.mem_append.mp hs with hs | hs
    · exact hall s hs ho
    · rw [List.mem_singleton.mp hs] at ho ⊢
      exact (hk.complete_iff hm hclosed ho).mpr (hg (hclosed.ended ▸ ho) hh)

/-- Thread 2 sends two bytes and shuts down while the loop's own four are going out in two goes;
its `send_in_loop` is run in between, and the last write issues `shutdown_write`. -/
def sendsThenShutdown : List Move :=
  [.pop, .established, .act (.send [1, 2, 3, 4] (.wrote 1)), .act (.thread 2 (.send [5, 6])),
    .act (.thread 2 .next), .act (.thread 2 .shutdown), .act (.thread 2 .next),
    .act (.thread 2 .next), .sendFunctor (.wrote 0), .shutdownFunctor, .handleWrite (.wrote 2),
    .handleWrite (.wrote 3)]

theorem shutdown_after_sends_sendsThenShutdown :
    ∃ w, Reach Watched.step SendsTaken (.init 1 false 64 false false) w ∧
      w.snapshots.map Snapshot.written = [[1, 2, 3, 4, 5, 6]] ∧
      w.snapshots.map Snapshot.ended = [false] ∧
      ∀ s ∈ w.snapshots, s.ended = false → s.Complete := by
  have hrun : ∃ w, Reach Watched.step SendsTaken (.init 1 false 64 false false) w ∧
      (w.snapshots.map Snapshot.written = [[1, 2, 3, 4, 5, 6]] ∧
        w.snapshots.map Snapshot.ended = [false]) :=
    Reach.exists_of_exec sendsThenShutdown _ (by decide +kernel) (by decide +kernel)
  obtain ⟨w, h, hwr, hen⟩ := hrun
  exact ⟨w, h, hwr, hen, shutdown_after_sends 1 false 64 false false w h⟩

/-- **`shutdown` on the loop's thread overtakes a message in the queue.**  Thread 2's `send(7)` has
returned, then the loop's thread calls `shutdown`: `shutdown_write` is issued, nothing has been
written, and the message is still in the queue. -/
theorem shutdown_overtakes :
    (∃ w, Reach Watched.step anyStep (.init 1 false 64 false false) w ∧
      ∃ s ∈ w.snapshots, s.ended = false ∧ s.promised = [(2, [7])] ∧ s.written = [] ∧
        ¬ s.Complete) ∧
    ∃ c, Reach State.step anyStep (.init 1 false 64 false false) c ∧
      (c.ended = false ∧ c.halfCloses = [[]] ∧ c.written = [] ∧
        c.pendingFunctors = [.sendInLoop 2 [7]]) := by
  constructor
  · have hrun : ∃ w, Reach Watched.step anyStep (.init 1 false 64 false false) w ∧
        (∃ s ∈ w.snapshots, s.ended = false ∧ s.promised = [(2, [7])] ∧ s.written = [] ∧
          s.processed = []) :=
      Reach.exists_of_exec [.pop, .established, .act (.thread 2 (.send [7])),
        .act (.thread 2 .next), .act .shutdown] _ (meets_any _ _) (by decide +kernel)
    obtain ⟨w, h, s, hs, ho, hp, hwr, hq⟩ := hrun
    refine ⟨w, h, s, hs, ho, hp, hwr, ?_⟩
    rintro ⟨hkept, -⟩
    have hlen := (hkept 2).length_le
    rw [hp, hq] at hlen
    exact absurd hlen (by decide)
  · exact Reach.exists_of_exec [.runFunctor [] (.wrote 0), .act (.thread 2 (.send [7])),
      .act (.thread 2 .next), .act .shutdown] _ (meets_any _ _) (by decide +kernel)

/-! ## 4. The runs of the connection -/

/-- **Every run of the connection can be watched**: its steps are runs of moves. -/
theorem watched_of_reach {loopThread : Tid} {client : Bool} {mark : Nat} {wc hw : Bool} {c : State}
    (h : Reach State.step anyStep (.init loopThread client mark wc hw) c) :
    ∃ w, Reach Watched.step anyStep (.init loopThread client mark wc hw) w ∧ w.conn = c := by
  refine (reach_moves h).simulation (R := fun c (w : Watched) => w.conn = c) rfl ?_
  rintro c m c' w rfl - hm
  exact ⟨_, .tail m .refl trivial (by rw [Watched.step, hm]; rfl), rfl⟩

/-- The half-closes of the connection are the snapshots taken. -/
theorem snapshots_length {loopThread : Tid} {client : Bool} {mark : Nat} {wc hw : Bool} {w : Watched}
    (h : Reach Watched.step anyStep (.init loopThread client mark wc hw) w) :
    w.snapshots.length = w.conn.halfCloses.length := by
  refine h.invariant (I := fun w => w.snapshots.length = w.conn.halfCloses.length) rfl ?_
  intro w m w' hlen _ hst
  obtain ⟨c, hm, rfl⟩ := Option.map_eq_some_iff.mp hst
  dsimp only
  rcases (move_noted hm).halfCloses with hsame | ⟨-, hclosed⟩
  · rw [if_neg (by rw [hsame]; exact Nat.lt_irrefl _), hsame]
    exact hlen
  · have hlt : w.conn.halfCloses.length < c.halfCloses.length := by
      rw [hclosed.halfCloses, List.length_append, List.length_singleton]
      exact Nat.lt_succ_self _
    rw [if_pos hlt, hclosed.halfCloses, List.length_append, List.length_append, hlen]
    rfl

end Suduo.TcpConnection
