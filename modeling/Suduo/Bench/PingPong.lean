/-
# The ping-pong benchmark

`bench/pingpong`.  A session of the client sends one block when its connection comes up; from then
on client and server do the same, `conn->send(buf)` with all that the input buffer holds.  The two
connections are those of `TcpConnection.lean`, and the network between them cuts the streams as it
likes (`Lib/Duplex.lean`).

`pingpong_exact` says what goes round: as long as both connections last, the input buffers, the
output buffers and the network hold one block between them, turned as far as the echo has come; so
byte `i` of what a session has read is byte `i` of the block, counted modulo its size.  A session
counts every byte once while it is connected.  After `stop` it does not send what it reads, which
stays in the buffer, and is counted again with the next message.

What the owner of a connection does with it after `handle_close` is left out.
-/
import Suduo.Lib.Duplex
import Suduo.Net.TcpFrame
import Suduo.Net.TcpInput
import Mathlib.Data.List.Rotate

namespace Suduo.PingPong

open Lib
open TcpConnection hiding Label Step

/-! ## 1. What goes round -/

section Rotation

variable {α : Type} {m r x : List α}

/-- What is left of a block when `r` has gone round, turned as far as `r` is long.  The equation
says that the block and what goes round commute, and such lists are the block over and over. -/
theorem rotate_of_append_comm (h : m ++ r = r ++ x) : x = m.rotate r.length := by
  induction hn : r.length using Nat.strong_induction_on generalizing r with
  | _ n ih =>
    subst hn
    have hm : m <+: r ++ x := h ▸ List.prefix_append m r
    have hr : r <+: r ++ x := List.prefix_append r x
    by_cases hle : m.length ≤ r.length
    · obtain ⟨r', rfl⟩ := List.prefix_of_prefix_length_le hm hr hle
      rw [List.append_assoc, List.append_cancel_left_eq] at h
      by_cases hnil : m = []
      · subst hnil
        rw [List.nil_append, List.self_eq_append_right] at h
        rw [h, List.rotate_nil]
      · have hpos : 0 < m.length := List.length_pos_of_ne_nil hnil
        have hlt : r'.length < (m ++ r').length := by
          rw [List.length_append]
          omega
        rw [ih r'.length hlt h rfl, List.length_append, ← List.rotate_rotate, List.rotate_length]
    · obtain ⟨m', rfl⟩ := List.prefix_of_prefix_length_le hr hm (by omega)
      rw [List.append_assoc, List.append_cancel_left_eq] at h
      rw [List.rotate_append_length_eq, h]

/-- And what has gone round is the block again and again. -/
theorem getElem?_of_append_comm (h : m ++ r = r ++ x) (hm : 0 < m.length) (i : Nat) (hi : i < r.length) :
    r[i]? = m[i % m.length]? := by
  induction i using Nat.strong_induction_on with
  | _ i ih =>
    have hsame : (m ++ r)[i]? = r[i]? := by
      rw [h, List.getElem?_append_left hi]
    by_cases hlt : i < m.length
    · rw [← hsame, List.getElem?_append_left hlt, Nat.mod_eq_of_lt hlt]
    · rw [← hsame, List.getElem?_append_right (by omega), ih (i - m.length) (by omega) (by omega),
        ← Nat.mod_eq_sub_mod (by omega)]

end Rotation

/-! ## 2. The two programs -/

/-- `message_` of the client. -/
def message (blockSize : Nat) : List Byte := (List.range blockSize).map fun i => UInt8.ofNat (i % 128)

/-- `Session`, less its connection: the block and the three counters. -/
structure Session where
  /-- `owner_->message()`. -/
  message : List Byte
  bytesRead : Nat
  bytesWritten : Nat
  messagesRead : Nat

def Session.new (message : List Byte) : Session := ⟨message, 0, 0, 0⟩

/-- What `onMessage` counts. -/
def Session.onMessage (s : Session) (readableBytes : Nat) : Session :=
  { s with
    messagesRead := s.messagesRead + 1
    bytesRead := s.bytesRead + readableBytes
    bytesWritten := s.bytesWritten + readableBytes }

/-- A connection with its user. -/
structure Peer where
  conn : State
  /-- A session of the client; the server keeps nothing. -/
  session : Option Session
  /-- All that has been sent out of the input buffer. -/
  taken : List Byte

namespace Peer

/-- `onConnection`, when the connection is up. -/
def onConnection (p : Peer) (write : WriteResult) : Option Peer :=
  match p.session with
  | some s => (p.conn.act (.send s.message write)).map fun c => { p with conn := c }
  | none => some p

/-- `conn->send(buf)`. -/
def send (p : Peer) (write : WriteResult) : Option Peer :=
  if p.conn.state = .connected then do
    let buf := p.conn.inputBuffer
    let c ← p.conn.act (.send buf.contents write)
    let c ← c.act (.retrieveInput buf.readableBytes)
    return { p with conn := c, taken := p.taken ++ buf.contents }
  else some p

/-- `onMessage`. -/
def onMessage (p : Peer) (write : WriteResult) : Option Peer :=
  { p with session := p.session.map fun s : Session => s.onMessage p.conn.inputBuffer.readableBytes }.send write

/-- What thread `t` does next in `session->stop()`: on the loop's thread `shutdown` is one step. -/
def stopAct (c : State) (t : Tid) : State.Act :=
  if t = c.loopThread then .shutdown else .thread t (if c.call t = .idle then .shutdown else .next)

inductive Label
  /-- `connect_established`. -/
  | up (write : WriteResult)
  /-- `handle_read`, `readv` having returned `data`. -/
  | read (data : List Byte) (write : WriteResult)
  /-- `handle_read` at the end of the stream. -/
  | eof
  | handleWrite (write : WriteResult)
  | stop (t : Tid)
  | shutdownInLoop

/-- From `connect_established` to `handle_close` the loop watches for reading. -/
def reading (p : Peer) : Bool := 0 < p.conn.ups && p.conn.closes == 0

def step (p : Peer) : Label → Option Peer
  | .up write =>
    if p.conn.ups = 0 then (p.conn.move .pop).bind fun c => { p with conn := c.established }.onConnection write
    else none
  | .read data write =>
    if p.reading = true ∧ data ≠ [] then
      (p.conn.readInput (.ok data)).bind fun c => { p with conn := c }.onMessage write
    else none
  | .eof =>
    if p.reading = true then (p.conn.readInput (.ok [])).map fun c => { p with conn := c.closing.closed }
    else none
  | .handleWrite write => (p.conn.handleWrite write).map fun c => { p with conn := c }
  | .stop t => (p.conn.act (stopAct p.conn t)).map fun c => { p with conn := c }
  | .shutdownInLoop => (p.conn.move .shutdownFunctor).map fun c => { p with conn := c }

/-- What a step reads from the socket. -/
def reads : Label → Option (List Byte)
  | .read data _ => some data
  | .eof => some []
  | .up _ | .handleWrite _ | .stop _ | .shutdownInLoop => none

/-- No more will come: `shutdown_write` has been called, or `handle_close`.  The other side then
reads an end. -/
def finished (p : Peer) : Bool := !p.conn.halfCloses.isEmpty || 0 < p.conn.closes

end Peer

/-! ## 3. What a step is -/

open Peer

/-- A part of a step that the user has no part in: it is a move, and reads and sends nothing. -/
structure Aside (c c' : State) : Prop where
  run : Reach State.move anyStep c c'
  input : c'.inputBuffer = c.inputBuffer
  processed : c'.processed = c.processed
  ups : c'.ups = c.ups
  closes : c'.closes = c.closes
  state : c'.state = .connected → c.state = .connected

variable {c c' : State} {p p' : Peer}

theorem wroteOutput_processed (c : State) (n : Nat) (b : Buffer) : (c.wroteOutput n b).processed = c.processed := by
  simp only [State.wroteOutput]
  split
  · split
    · rw [State.shutdownInLoop]
      split
      · exact (sameHistory_writeComplete _).processed
      · exact (sameHistory_writeComplete _).processed
    · exact (sameHistory_writeComplete _).processed
  · rfl

theorem aside_handleWrite {write : WriteResult} (h : c.handleWrite write = some c') : Aside c c' := by
  have hframe := frame_handleWrite h
  refine ⟨move_reach (m := .handleWrite write) h, (onwards_handleWrite h).input, ?_, hframe.ups, hframe.closes,
    fun hs => hframe.state.trans hs⟩
  simp only [State.handleWrite] at h
  split at h
  · split at h
    · split at h
      · cases h
        split
        · exact wroteOutput_processed _ _ _
        · rfl
      · cases h
    · cases h
      rfl
  · cases h
    rfl

theorem aside_shutdownFunctor (h : c.move .shutdownFunctor = some c') : Aside c c' := by
  have hrun := move_reach h
  simp only [State.move] at h
  split at h
  · rename_i rest hp
    cases h
    have hframe := frame_shutdownInLoop { c with pendingFunctors := rest }
    refine ⟨hrun, (onwards_shutdownInLoop _).input, ?_, hframe.ups, hframe.closes, fun hs => hframe.state.trans hs⟩
    unfold State.shutdownInLoop
    split <;> rfl
  · cases h

theorem aside_stop {t : Tid} (h : c.act (stopAct c t) = some c') : Aside c c' := by
  have hframe := frame_act h
  have hrun := move_reach (m := .act (stopAct c t)) h
  have hstate : c'.state = .connected → c.state = .connected := by
    intro hs
    rcases hframe.state with hsame | ⟨hdown, -⟩
    · exact hsame.symm.trans hs
    · rw [hdown] at hs
      cases hs
  have hinput : c'.inputBuffer = c.inputBuffer := by
    refine (onwards_act (fun len ha => ?_) h).input
    unfold stopAct at ha
    split at ha
    all_goals cases ha
  refine ⟨hrun, hinput, ?_, hframe.ups, hframe.closes, hstate⟩
  unfold stopAct at h
  split at h
  · cases h
    split
    · unfold State.shutdownInLoop
      split <;> rfl
    · rfl
  · generalize (if c.call t = .idle then State.ThreadStep.shutdown else .next) = step at h
    cases (threadStep_inv h).2 with
    | _ => rfl

/-- `send` on the loop's thread of a connection that is up.  All of the message is accepted at
once. -/
structure Sent (c : State) (message : List Byte) (c' : State) : Prop where
  run : Reach State.move anyStep c c'
  input : c'.inputBuffer = c.inputBuffer
  processed : c'.processed = c.processed ++ [(c.loopThread, message)]
  ups : c'.ups = c.ups
  closes : c'.closes = c.closes
  state : c'.state = c.state

theorem act_send {message : List Byte} {write : WriteResult} (hs : c.state = .connected)
    (h : c.act (.send message write) = some c') : Sent c message c' := by
  have hrun := move_reach (m := .act (.send message write)) h
  simp only [State.act, if_pos hs] at h
  have hframe := frame_sendInLoop h
  exact ⟨hrun, (onwards_sendInLoop h).input, (sameHistory_sendInLoop h).processed, hframe.ups, hframe.closes,
    hframe.state.symm⟩

/-- What a step can be. -/
inductive Step (p : Peer) : Label → Peer → Prop
  | opens {write : WriteResult} {c d : State} {s : Session} (hu : p.conn.ups = 0) (hc : p.conn.move .pop = some c)
      (hs : p.session = some s) (hd : Sent c.established s.message d) : Step p (.up write) { p with conn := d }
  | accepts {write : WriteResult} {c : State} (hu : p.conn.ups = 0) (hc : p.conn.move .pop = some c)
      (hs : p.session = none) : Step p (.up write) { p with conn := c.established }
  /-- What is read is sent at once. -/
  -- `b` has a name of its own: the fields of `d` are compared later, and `retrieve` is not to be computed for that
  | echoes {data : List Byte} {write : WriteResult} {c d : State} {b : Buffer} (hr : p.reading = true)
      (hne : data ≠ []) (hc : p.conn.readInput (.ok data) = some c) (hs : c.state = .connected)
      (hd : Sent c c.inputBuffer.contents d) (hb : b = d.inputBuffer.retrieve c.inputBuffer.readableBytes) :
      Step p (.read data write) {
        conn := { d with inputBuffer := b }
        session := p.session.map fun s : Session => s.onMessage c.inputBuffer.readableBytes
        taken := p.taken ++ c.inputBuffer.contents }
  /-- Or stays in the buffer, when `stop` has been called. -/
  | keeps {data : List Byte} {write : WriteResult} {c : State} (hr : p.reading = true) (hne : data ≠ [])
      (hc : p.conn.readInput (.ok data) = some c) (hs : c.state ≠ .connected) :
      Step p (.read data write) { p with
        conn := c
        session := p.session.map fun s : Session => s.onMessage c.inputBuffer.readableBytes }
  | eof {c : State} (hr : p.reading = true) (hc : p.conn.readInput (.ok []) = some c) :
      Step p .eof { p with conn := c.closing.closed }
  | aside {l : Label} {c : State} (hl : reads l = none) (hc : Aside p.conn c) : Step p l { p with conn := c }

theorem step_inv {l : Label} (h : p.step l = some p') : Step p l p' := by
  cases l with
  | up write =>
    simp only [Peer.step] at h
    split at h
    · rename_i hu
      obtain ⟨c, hc, h⟩ := Option.bind_eq_some_iff.mp h
      unfold onConnection at h
      split at h
      · rename_i s hs
        obtain ⟨d, hd, rfl⟩ := Option.map_eq_some_iff.mp h
        exact .opens hu hc hs (act_send rfl hd)
      · rename_i hs
        cases h
        exact .accepts hu hc hs
    · cases h
  | read data write =>
    simp only [Peer.step] at h
    split at h
    · rename_i hg
      obtain ⟨hr, hne⟩ := hg
      obtain ⟨c, hc, h⟩ := Option.bind_eq_some_iff.mp h
      simp only [onMessage, Peer.send] at h
      split at h
      · rename_i hs
        simp only [Option.bind_eq_bind, Option.bind_eq_some_iff] at h
        obtain ⟨d, hd, e, he, h⟩ := h
        cases he
        cases h
        exact .echoes hr hne hc hs (act_send hs hd) rfl
      · rename_i hs
        cases h
        exact .keeps hr hne hc hs
    · cases h
  | eof =>
    simp only [Peer.step] at h
    split at h
    · rename_i hr
      obtain ⟨c, hc, rfl⟩ := Option.map_eq_some_iff.mp h
      exact .eof hr hc
    · cases h
  | handleWrite write =>
    obtain ⟨c, hc, rfl⟩ := Option.map_eq_some_iff.mp h
    exact .aside rfl (aside_handleWrite hc)
  | stop t =>
    obtain ⟨c, hc, rfl⟩ := Option.map_eq_some_iff.mp h
    exact .aside rfl (aside_stop hc)
  | shutdownInLoop =>
    obtain ⟨c, hc, rfl⟩ := Option.map_eq_some_iff.mp h
    exact .aside rfl (aside_shutdownFunctor hc)

/-- The connection makes a run of its moves, whatever the program does in a step. -/
theorem step_run {l : Label} (h : p.step l = some p') : Reach State.move anyStep p.conn p'.conn := by
  cases step_inv h with
  | opens hu hc hs hd => exact ((move_reach hc).trans (move_reach (m := .established) rfl)).trans hd.run
  | accepts hu hc hs => exact (move_reach hc).trans (move_reach (m := .established) rfl)
  | @echoes data write c d b hr hne hc hs hd hb =>
    have hread := move_reach (m := .readInput (.ok data)) hc
    rw [hb]
    exact (hread.trans hd.run).trans (move_reach (m := .act (.retrieveInput c.inputBuffer.readableBytes)) rfl)
  | @keeps data write c hr hne hc hs => exact move_reach (m := .readInput (.ok data)) hc
  | @eof c hr hc =>
    have hread := move_reach (m := .readInput (.ok [])) hc
    exact (hread.trans (move_reach (m := .closing) rfl)).trans (move_reach (m := .closed) rfl)
  | aside hl hc => exact hc.run

theorem move_pop (h : c.move .pop = some c') : ∃ rest, c' = { c with pendingFunctors := rest } := by
  simp only [State.move] at h
  split at h
  all_goals cases h
  exact ⟨_, rfl⟩

theorem readInput_closes {readv : Except Nat (List Byte)} (h : c.readInput readv = some c') :
    c'.closes = c.closes := by
  obtain ⟨n, errno, b, -, -, rfl⟩ := readInput_inv h
  rfl

/-- What `handle_close` leaves.  What has been read stays read, and nothing more is sent. -/
structure Closed (c c' : State) : Prop where
  input : c'.inputBuffer = c.inputBuffer
  processed : c'.processed = c.processed
  ups : c'.ups = c.ups
  closes : c'.closes = c.closes + 1
  state : c'.state = .disconnected

theorem closing_closed (c : State) : Closed c c.closing.closed := by
  rw [State.closed]
  dsimp only
  split <;> exact ⟨rfl, rfl, rfl, rfl, rfl⟩

/-- `handle_close` is not undone: it is counted, and the count only goes up. -/
theorem step_closes {l : Label} (h : p.step l = some p') : p.conn.closes ≤ p'.conn.closes := by
  cases step_inv h with
  | opens hu hc hs hd =>
    obtain ⟨rest, rfl⟩ := move_pop hc
    exact Nat.le_of_eq hd.closes.symm
  | accepts hu hc hs =>
    obtain ⟨rest, rfl⟩ := move_pop hc
    exact Nat.le_refl _
  | echoes hr hne hc hs hd hb => exact Nat.le_of_eq (hd.closes.trans (readInput_closes hc)).symm
  | keeps hr hne hc hs => exact Nat.le_of_eq (readInput_closes hc).symm
  | @eof c hr hc =>
    have hread : c.closes = p.conn.closes := readInput_closes hc
    have hcount : c.closing.closed.closes = c.closes + 1 := (closing_closed c).closes
    dsimp only
    omega
  | aside hl hc => exact Nat.le_of_eq hc.closes.symm

theorem step_written {l : Label} (h : p.step l = some p') : p.conn.written <+: p'.conn.written := by
  refine (step_run h).invariant (I := fun c => p.conn.written <+: c.written) List.prefix_rfl ?_
  intro c m c' hi _ hst
  exact hi.trans (move_written hst)

theorem step_halfCloses {l : Label} (h : p.step l = some p') (hne : p.conn.halfCloses ≠ []) :
    p'.conn.halfCloses ≠ [] := by
  refine (step_run h).invariant (I := fun c => c.halfCloses ≠ []) hne ?_
  intro c m c' hi _ hst
  rcases (move_noted hst).halfCloses with hsame | ⟨-, hclosed⟩
  · rwa [hsame]
  · rw [hclosed.halfCloses]
    exact List.append_ne_nil_of_right_ne_nil _ (List.cons_ne_nil _ _)

theorem finished_iff (p : Peer) : p.finished = true ↔ p.conn.halfCloses ≠ [] ∨ 0 < p.conn.closes := by
  simp [finished]

/-- **A program with its connection is a party.**  From here on the network between two of them
is the library's. -/
def party : Party Peer Label Byte where
  step := Peer.step
  sent p := p.conn.written
  finished := finished
  reads := reads
  sent_mono h := step_written h
  finished_mono h hf := by
    rw [finished_iff] at hf ⊢
    exact hf.imp (step_halfCloses h) fun hpos => Nat.lt_of_lt_of_le hpos (step_closes h)

/-! ## 4. What a program keeps -/

/-- What a peer has put into the stream itself. -/
def Peer.block (p : Peer) : List Byte := if p.conn.ups = 0 then [] else (p.session.map Session.message).getD []

/-- What has been read waits in the buffer or has been sent, behind the block, and is counted.
The bytes of the connection itself are accounted for by `Flow`. -/
structure Kept (p : Peer) (received : List Byte) : Prop where
  flow : Flow p.conn []
  wf : p.conn.inputBuffer.Wf
  input : p.taken ++ p.conn.inputBuffer.contents = received
  output : (p.conn.processed.map Prod.snd).flatten = p.block ++ p.taken
  fresh : p.conn.ups = 0 → received = [] ∧ ∀ s ∈ p.session, s.bytesRead = 0
  counts : ∀ s ∈ p.session, s.bytesWritten = s.bytesRead ∧ received.length ≤ s.bytesRead
  connected : p.conn.state = .connected →
    p.conn.inputBuffer.contents = [] ∧ ∀ s ∈ p.session, s.bytesRead = received.length

theorem message_onMessage (session : Option Session) (n : Nat) :
    (session.map fun s : Session => s.onMessage n).map Session.message = session.map Session.message := by
  cases session <;> rfl

theorem mem_onMessage {session : Option Session} {n : Nat} {s : Session}
    (h : s ∈ session.map fun s : Session => s.onMessage n) : ∃ t ∈ session, s = t.onMessage n := by
  obtain ⟨t, ht, rfl⟩ := Option.map_eq_some_iff.mp h
  exact ⟨t, ht, rfl⟩

theorem block_eq (hu : p'.conn.ups = p.conn.ups)
    (hs : p'.session.map Session.message = p.session.map Session.message) : p'.block = p.block := by
  rw [Peer.block, Peer.block, hu, hs]

theorem readInput_spec {data : List Byte} (hwf : c.inputBuffer.Wf) (h : c.readInput (.ok data) = some c') :
    ∃ b, c' = { c with inputBuffer := b } ∧ b.Wf ∧ b.contents = c.inputBuffer.contents ++ data := by
  obtain ⟨n, errno, b, hfits, hread, rfl⟩ := readInput_inv h
  exact ⟨b, rfl, Buffer.readFd_contents hwf hfits hread⟩

variable {received : List Byte}

/-- A step that neither reads nor sends keeps all of it. -/
theorem Kept.aside (h : Kept p received) (hflow : Flow c []) (hinput : c.inputBuffer = p.conn.inputBuffer)
    (hproc : c.processed = p.conn.processed) (hups : c.ups = p.conn.ups)
    (hstate : c.state = .connected → p.conn.state = .connected) : Kept { p with conn := c } received := by
  have hblock : ({ p with conn := c } : Peer).block = p.block := block_eq hups rfl
  constructor
  · exact hflow
  · exact hinput ▸ h.wf
  · exact (congrArg (fun b : Buffer => p.taken ++ b.contents) hinput).trans h.input
  · rw [hblock]
    exact (congrArg (fun ms : List (Tid × List Byte) => (ms.map Prod.snd).flatten) hproc).trans h.output
  · exact fun hu => h.fresh (hups.symm.trans hu)
  · exact h.counts
  · intro hs
    obtain ⟨hnil, hcount⟩ := h.connected (hstate hs)
    exact ⟨(congrArg Buffer.contents hinput).trans hnil, hcount⟩

/-- The connection comes up, and the session sends its block; the server only waits. -/
theorem Kept.up (h : Kept p received) {d : State} (hu : p.conn.ups = 0) (hflow : Flow d [])
    (hinput : d.inputBuffer = p.conn.inputBuffer)
    (hproc : (d.processed.map Prod.snd).flatten =
      (p.conn.processed.map Prod.snd).flatten ++ (p.session.map Session.message).getD [])
    (hups : d.ups = p.conn.ups + 1) : Kept { p with conn := d } received := by
  obtain ⟨hnone, hzero⟩ := h.fresh hu
  have hempty : p.taken = [] ∧ p.conn.inputBuffer.contents = [] := List.append_eq_nil_iff.mp (h.input.trans hnone)
  have hblock : ({ p with conn := d } : Peer).block = (p.session.map Session.message).getD [] := by
    have hpos : d.ups ≠ 0 := by omega
    rw [Peer.block, if_neg hpos]
  have hnothing : (p.conn.processed.map Prod.snd).flatten = [] := by
    rw [h.output, Peer.block, if_pos hu, hempty.1]
    rfl
  constructor
  · exact hflow
  · exact hinput ▸ h.wf
  · exact (congrArg (fun b : Buffer => p.taken ++ b.contents) hinput).trans h.input
  · rw [hblock, hproc, hnothing, hempty.1, List.nil_append, List.append_nil]
  · intro hu'
    exact absurd (hups.symm.trans hu') (Nat.succ_ne_zero _)
  · exact h.counts
  · intro _
    refine ⟨(congrArg Buffer.contents hinput).trans hempty.2, fun s hs => ?_⟩
    rw [hzero s hs, hnone]
    rfl

/-- A message is sent back as soon as it is read.  The buffer was empty, unless the session was
stopped, and is empty again. -/
theorem Kept.echoes (h : Kept p received) {c d : State} {b : Buffer} {data : List Byte} (hup : p.conn.ups ≠ 0)
    (hc : p.conn.readInput (.ok data) = some c) (hs : c.state = .connected) (hd : Sent c c.inputBuffer.contents d)
    (hb : b = d.inputBuffer.retrieve c.inputBuffer.readableBytes)
    (hflow : Flow { d with inputBuffer := b } []) :
    Kept {
      conn := { d with inputBuffer := b }
      session := p.session.map fun s : Session => s.onMessage c.inputBuffer.readableBytes
      taken := p.taken ++ c.inputBuffer.contents } (received ++ data) := by
  obtain ⟨buf, rfl, hwf, hcontents⟩ := readInput_spec h.wf hc
  obtain ⟨hnil, hcount⟩ := h.connected hs
  have hread : p.taken = received := by
    rw [← h.input, hnil, List.append_nil]
  have hdata : buf.contents = data := by
    rw [hcontents, hnil, List.nil_append]
  have hlen : buf.readableBytes = data.length := by
    rw [← hdata, hwf.length_contents]
  have hdin : d.inputBuffer = buf := hd.input
  obtain ⟨hwfb, hbc⟩ := Buffer.retrieve_spec hwf buf.readableBytes
  have hempty : b.contents = [] := by
    rw [hb, hdin]
    refine hbc.trans ?_
    rw [← hwf.length_contents, List.drop_length]
  constructor
  · exact hflow
  · rw [hb, hdin]
    exact hwfb
  · change p.taken ++ buf.contents ++ b.contents = received ++ data
    rw [hempty, List.append_nil, hread, hdata]
  · have hblock : ({
        conn := { d with inputBuffer := b }
        session := p.session.map fun s : Session => s.onMessage buf.readableBytes
        taken := p.taken ++ buf.contents } : Peer).block = p.block := block_eq hd.ups (message_onMessage _ _)
    rw [hblock]
    change (d.processed.map Prod.snd).flatten = p.block ++ (p.taken ++ buf.contents)
    rw [hd.processed, List.map_append, List.flatten_append, ← List.append_assoc, ← h.output]
    simp
  · intro hu
    exact absurd (hd.ups.symm.trans hu) hup
  · rintro s hs
    obtain ⟨t, ht, rfl⟩ := mem_onMessage hs
    obtain ⟨hwritten, -⟩ := h.counts t ht
    have heq := hcount t ht
    refine ⟨congrArg (· + buf.readableBytes) hwritten, ?_⟩
    change (received ++ data).length ≤ t.bytesRead + buf.readableBytes
    rw [List.length_append, heq, hlen]
  · intro _
    refine ⟨hempty, fun s hs => ?_⟩
    obtain ⟨t, ht, rfl⟩ := mem_onMessage hs
    change t.bytesRead + buf.readableBytes = (received ++ data).length
    rw [List.length_append, hcount t ht, hlen]

/-- After `stop` it stays in the buffer.  `send` on a connection that is not up does nothing, and
the program retrieves only what it has sent. -/
theorem Kept.keeps (h : Kept p received) {c : State} {data : List Byte} (hup : p.conn.ups ≠ 0)
    (hc : p.conn.readInput (.ok data) = some c) (hs : c.state ≠ .connected) (hflow : Flow c []) :
    Kept { p with
      conn := c
      session := p.session.map fun s : Session => s.onMessage c.inputBuffer.readableBytes } (received ++ data) := by
  obtain ⟨buf, rfl, hwf, hcontents⟩ := readInput_spec h.wf hc
  have hlen : buf.readableBytes = p.conn.inputBuffer.contents.length + data.length := by
    rw [← hwf.length_contents, hcontents, List.length_append]
  have hblock : ({ p with
      conn := { p.conn with inputBuffer := buf }
      session := p.session.map fun s : Session => s.onMessage buf.readableBytes } : Peer).block = p.block :=
    block_eq rfl (message_onMessage _ _)
  constructor
  · exact hflow
  · exact hwf
  · change p.taken ++ buf.contents = received ++ data
    rw [hcontents, ← List.append_assoc, h.input]
  · rw [hblock]
    exact h.output
  · exact fun hu => absurd hu hup
  · rintro s hs
    obtain ⟨t, ht, rfl⟩ := mem_onMessage hs
    obtain ⟨hwritten, hle⟩ := h.counts t ht
    refine ⟨congrArg (· + buf.readableBytes) hwritten, ?_⟩
    change (received ++ data).length ≤ t.bytesRead + buf.readableBytes
    rw [List.length_append, hlen]
    omega
  · exact fun hconn => absurd hconn hs

theorem ups_of_reading (h : p.reading = true) : p.conn.ups ≠ 0 := by
  simp only [reading, Bool.and_eq_true, decide_eq_true_eq] at h
  omega

theorem step_flow {l : Label} (h : Flow p.conn []) (hst : p.step l = some p') : Flow p'.conn [] :=
  (step_run hst).invariant h fun _ _ _ hi _ hm => move_flow hi hm

/-- **Every step.**  Each label is one of the parts above, or two of them. -/
theorem step_kept {l : Label} (h : Kept p received) (hst : p.step l = some p') :
    Kept p' (received ++ (reads l).getD []) := by
  have hflow := step_flow h.flow hst
  cases step_inv hst with
  | opens hu hc hs hd =>
    obtain ⟨rest, rfl⟩ := move_pop hc
    rw [reads, Option.getD_none, List.append_nil]
    refine h.up hu hflow hd.input ?_ hd.ups
    rw [hd.processed, List.map_append, List.flatten_append, hs]
    simp [State.established, State.setState]
  | accepts hu hc hs =>
    obtain ⟨rest, rfl⟩ := move_pop hc
    rw [reads, Option.getD_none, List.append_nil]
    refine h.up hu hflow rfl ?_ rfl
    rw [hs]
    simp [State.established, State.setState]
  | echoes hr hne hc hs hd hb => exact h.echoes (ups_of_reading hr) hc hs hd hb hflow
  | keeps hr hne hc hs => exact h.keeps (ups_of_reading hr) hc hs hflow
  | @eof c hr hc =>
    obtain ⟨b, rfl, hwf, hcontents⟩ := readInput_spec h.wf hc
    have hclosed := closing_closed { p.conn with inputBuffer := b }
    rw [List.append_nil] at hcontents
    have hread : Kept { p with conn := { p.conn with inputBuffer := b } } received := by
      refine ⟨h.flow.setInput b, hwf, ?_, h.output, h.fresh, h.counts, ?_⟩
      · change p.taken ++ b.contents = received
        rw [hcontents]
        exact h.input
      · change p.conn.state = .connected → b.contents = [] ∧ ∀ s ∈ p.session, s.bytesRead = received.length
        rw [hcontents]
        exact h.connected
    rw [reads, Option.getD_some, List.append_nil]
    refine hread.aside hflow hclosed.input hclosed.processed hclosed.ups fun hs => ?_
    rw [hclosed.state] at hs
    cases hs
  | aside hl hc =>
    rw [hl, Option.getD_none, List.append_nil]
    exact h.aside hflow hc.input hc.processed hc.ups hc.state

/-- The block of a session does not change.  It is made when the session is. -/
theorem step_message {l : Label} (h : p.step l = some p') :
    p'.session.map Session.message = p.session.map Session.message := by
  cases step_inv h with
  | echoes => exact message_onMessage _ _
  | keeps => exact message_onMessage _ _
  | _ => rfl

/-! ## 5. The two together -/

/-- `_hight_water_mark` as it is set at first. -/
def highWaterMark : Nat := 64 * 1024 * 1024

def Peer.client (loopThread : Tid) (blockSize : Nat) : Peer :=
  ⟨.init loopThread true highWaterMark false false, some (.new (message blockSize)), []⟩

def Peer.server (loopThread : Tid) : Peer := ⟨.init loopThread false highWaterMark false false, none, []⟩

theorem kept_client (loopThread : Tid) (blockSize : Nat) : Kept (.client loopThread blockSize) [] := by
  refine ⟨flow_init _ _ _ _ _, Buffer.new_wf Buffer.initSize, rfl, rfl, fun _ => ⟨rfl, ?_⟩, ?_, fun hs => by cases hs⟩
  · rintro s ⟨⟩
    rfl
  · rintro s ⟨⟩
    exact ⟨rfl, Nat.le_refl _⟩

theorem kept_server (loopThread : Tid) : Kept (.server loopThread) [] := by
  refine ⟨flow_init _ _ _ _ _, Buffer.new_wf Buffer.initSize, rfl, rfl, fun _ => ⟨rfl, ?_⟩, ?_, fun hs => by cases hs⟩
  · rintro s ⟨⟩
  · rintro s ⟨⟩

/-- What is between the session's input and what it has read so far, in the order it will be
read: the network, the server's output buffer and its input buffer, the network again, and the
session's output and input buffers. -/
def ring (d : Duplex Peer Byte) : List Byte :=
  d.inFlight .far ++ (d.party .far).conn.outputBuffer.contents ++ (d.party .far).conn.inputBuffer.contents ++
    d.inFlight .near ++ (d.party .near).conn.outputBuffer.contents ++ (d.party .near).conn.inputBuffer.contents

variable {d : Duplex Peer Byte}

/-- What comes round again behind what the session has read is what it has read, behind its
block.  Each side has sent what it has read, the session its block besides, and the network loses
nothing. -/
theorem block_append_received (hconserved : Duplex.Conserved party d)
    (hnear : Kept (d.party .near) (d.received .near)) (hfar : Kept (d.party .far) (d.received .far))
    (hserver : (d.party .far).block = []) (honear : (d.party .near).conn.ended = false)
    (hofar : (d.party .far).conn.ended = false) :
    (d.party .near).block ++ d.received .near = d.received .near ++ ring d := by
  have hout := hnear.flow.stream honear
  have hback := hfar.flow.stream hofar
  rw [List.append_nil, hnear.output] at hout
  rw [List.append_nil, hfar.output, hserver, List.nil_append] at hback
  have hthere : d.received .far ++ d.inFlight .near = (d.party .near).conn.written := hconserved.stream .near
  have hhere : d.received .near ++ d.inFlight .far = (d.party .far).conn.written := hconserved.stream .far
  calc (d.party .near).block ++ d.received .near
      = (d.party .near).block ++ (d.party .near).taken ++ (d.party .near).conn.inputBuffer.contents := by
        rw [List.append_assoc, hnear.input]
    _ = d.received .far ++ d.inFlight .near ++ (d.party .near).conn.outputBuffer.contents ++
          (d.party .near).conn.inputBuffer.contents := by
        rw [← hout, hthere]
    _ = (d.party .far).conn.written ++ (d.party .far).conn.outputBuffer.contents ++
          (d.party .far).conn.inputBuffer.contents ++ d.inFlight .near ++
          (d.party .near).conn.outputBuffer.contents ++ (d.party .near).conn.inputBuffer.contents := by
        rw [hback, hfar.input]
    _ = d.received .near ++ ring d := by
        rw [← hhere, ring]
        simp only [List.append_assoc]

/-- **One block goes round.**  In every run of a session and the server, for as long as both
connections last: the input and output buffers and the network hold one block between them,
turned by as much as the session has read; what it has read is the block over and over; and the
session has counted every byte it read, each once while it is connected.  The argument is one
equation between lists (`block_append_received`), and what the cuts, the short writes and the
order of events do to it is nothing. -/
theorem pingpong_exact (blockSize : Nat) (clientLoop serverLoop : Tid) (d : Duplex Peer Byte)
    (h : Reach (Duplex.step party) anyStep (party.join (.client clientLoop blockSize) (.server serverLoop)) d)
    (hclient : (d.party .near).conn.ended = false) (hserver : (d.party .far).conn.ended = false) :
    ∃ s, (d.party .near).session = some s ∧
      s.bytesWritten = s.bytesRead ∧ (d.received .near).length ≤ s.bytesRead ∧
      ((d.party .near).conn.state = .connected → s.bytesRead = (d.received .near).length) ∧
      ring d = (if (d.party .near).conn.ups = 0 then [] else message blockSize).rotate (d.received .near).length ∧
      (0 < blockSize → ∀ i, i < (d.received .near).length →
        (d.received .near)[i]? = (message blockSize)[i % blockSize]?) := by
  have hkept (side : Side) : Kept (d.party side) (d.received side) := by
    refine Duplex.reach_reads h (fun x => ?_) (fun _ _ _ _ hr hst => step_kept hr hst) side
    cases x with
    | near => exact kept_client clientLoop blockSize
    | far => exact kept_server serverLoop
  have hmessage (side : Side) : (d.party side).session.map Session.message =
      (((party.join (.client clientLoop blockSize) (.server serverLoop)).party side).session).map Session.message :=
    (Duplex.reach_party (G := anyStep) h side).invariant
      (I := fun p => p.session.map Session.message =
        (((party.join (.client clientLoop blockSize) (.server serverLoop)).party side).session).map Session.message)
      rfl fun _ _ _ hi _ hst => (step_message hst).trans hi
  have hnear := hkept .near
  have hblock : (d.party .near).block = if (d.party .near).conn.ups = 0 then [] else message blockSize := by
    rw [Peer.block, hmessage .near]
    rfl
  have hempty : (d.party .far).block = [] := by
    rw [Peer.block, hmessage .far]
    exact ite_self _
  have hround := block_append_received (Duplex.reach_conserved h) hnear (hkept .far) hempty hclient hserver
  rw [hblock] at hround
  obtain ⟨s, hs, -⟩ := Option.map_eq_some_iff.mp (hmessage .near)
  obtain ⟨hwritten, hle⟩ := hnear.counts s hs
  refine ⟨s, hs, hwritten, hle, fun hc => (hnear.connected hc).2 s hs, rotate_of_append_comm hround, ?_⟩
  intro hpos i hi
  have hlength : (message blockSize).length = blockSize := by
    rw [message, List.length_map, List.length_range]
  by_cases hu : (d.party .near).conn.ups = 0
  · rw [(hnear.fresh hu).1] at hi
    cases hi
  · rw [if_neg hu] at hround
    have hbyte := getElem?_of_append_comm hround (hlength.symm ▸ hpos) i hi
    rwa [hlength] at hbyte

/-- Five bytes go out in two pieces; the server reads two and writes one, and the session has read that. -/
def firstByte : List (Side × Label) :=
  [(.near, .up (.wrote 3)), (.far, .up (.wrote 0)), (.far, .read [0, 1] (.wrote 1)), (.near, .handleWrite (.wrote 2)),
    (.near, .read [0] (.wrote 0))]

theorem pingpong_exact_firstByte :
    ∃ d, Reach (Duplex.step party) anyStep (party.join (.client 1 5) (.server 2)) d ∧
      ring d = [1, 2, 3, 4, 0] ∧ ∃ s, (d.party .near).session = some s ∧ s.bytesRead = (d.received .near).length := by
  have hrun : ∃ d, Reach (Duplex.step party) anyStep (party.join (.client 1 5) (.server 2)) d ∧
      ((d.party .near).conn.ended = false ∧ (d.party .far).conn.ended = false ∧
        (d.party .near).conn.state = .connected ∧ (d.party .near).conn.ups ≠ 0 ∧ d.received .near = [0]) :=
    Reach.exists_of_exec firstByte _ (meets_any firstByte _) (by decide +kernel)
  obtain ⟨d, h, hclient, hserver, hup, hups, hread⟩ := hrun
  obtain ⟨s, hs, -, -, hcount, hring, -⟩ := pingpong_exact 5 1 2 d h hclient hserver
  rw [if_neg hups, hread] at hring
  exact ⟨d, h, hring, s, hs, hcount hup⟩

end Suduo.PingPong
