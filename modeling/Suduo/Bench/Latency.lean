/-
# The latency benchmark: two codecs, back to back

`bench/zeromq/remote_lat.cpp`, the client, and `bench/zeromq/local_lat.cpp`, the server, each with a
`LengthHeaderCodec`.  The client sends one message when it is connected; the server sends back every message
it decodes; the client counts what comes back, sends it again, and after `g_totalMsgs` round trips shuts
down.  It aborts on a message of another size than its own.

Between the two are bytes: each side hands whole frames to its connection, and the other reads them in
whatever pieces `read` returns them, in order (`Suduo.Net.TcpOutput`).  A step is one such read with the
call of `onMessage` behind it.  So a run here is one in which the connection lasts; what its end sets
off is left out.
-/
import Suduo.Lib.Reach
import Suduo.Bench.LengthHeaderCodec

namespace Suduo.Latency

open Lib
open LengthHeaderCodec (Seen kHeaderLen receive onMessage onMessageRound Framed Decodes frameLength
  storeInt32 hostToNetwork32 toInt32 networkToHost32 loadInt32)

/-! ## 1. The state -/

/-- One end of the connection: its input buffer, and whether it is still up. -/
structure Peer where
  buf : Buffer
  /-- `_state == Connected`. -/
  up : Bool
  deriving DecidableEq, Repr

structure State where
  /-- `g_msgSize` and `g_totalMsgs`. -/
  msgSize : Nat
  totalMsgs : Nat
  connected : Bool
  client : Peer
  server : Peer
  /-- The bytes on their way. -/
  toServer : List Byte
  toClient : List Byte
  /-- `g_msgCount`. -/
  msgCount : Nat
  /-- `abort()` has been called. -/
  aborted : Bool
  deriving DecidableEq, Repr

def State.init (msgSize totalMsgs : Nat) : State where
  msgSize := msgSize
  totalMsgs := totalMsgs
  connected := false
  client := ⟨.new, true⟩
  server := ⟨.new, true⟩
  toServer := []
  toClient := []
  msgCount := 0
  aborted := false

/-- `g_message`: `g_msgSize` times `'H'`. -/
def message (msgSize : Nat) : List Byte := List.replicate msgSize 72

/-- What `codec->send` adds to the bytes on their way. -/
def Peer.send (p : Peer) (message wire : List Byte) : Except Buffer.Error (List Byte) := do
  let frame ← LengthHeaderCodec.send message
  return if p.up then wire ++ frame else wire

/-! ## 2. The callbacks -/

/-- `onConnection` of the client, when the connection is up. -/
def State.onConnection (s : State) : Except Buffer.Error State := do
  let wire ← s.client.send (message s.msgSize) s.toServer
  return { s with connected := true, toServer := wire }

/-- `onStringMessage` of the client. -/
def State.onStringMessage (s : State) (message : List Byte) : Except Buffer.Error State :=
  if s.aborted then .ok s
  else if message.length ≠ s.msgSize then .ok { s with aborted := true }
  else
    let s := { s with msgCount := s.msgCount + 1 }
    if s.msgCount < s.totalMsgs then do
      let wire ← s.client.send message s.toServer
      return { s with toServer := wire }
    else .ok { s with client := { s.client with up := false } }

/-- The server reads a segment: `onMessage`, and what its `onStringMessage` sends.  Each message
is put on the wire as one frame. -/
def State.serverReads (s : State) (seg : List Byte) : ExceptT Buffer.Error Option State := do
  let (seen, buf) ← receive ({}, s.server.buf) seg
  let wire ← ExceptT.mk (some (seen.messages.foldlM (fun wire m => s.server.send m wire) s.toClient))
  return { s with server := ⟨buf, s.server.up && !seen.down⟩, toClient := wire }

/-- The client reads a segment. -/
def State.clientReads (s : State) (seg : List Byte) : ExceptT Buffer.Error Option State := do
  let (seen, buf) ← receive ({}, s.client.buf) seg
  let s ← ExceptT.mk (some (seen.messages.foldlM State.onStringMessage s))
  return { s with client := ⟨buf, s.client.up && !seen.down⟩ }

/-! ## 3. The steps -/

inductive Label
  | connected
  /-- `read` returns the first `n` bytes of those on their way. -/
  | serverReads (n : Nat)
  | clientReads (n : Nat)
  deriving DecidableEq, Repr

/-- The state a call returns in, if it returns. -/
def returned {α : Type} (x : ExceptT Buffer.Error Option α) : Option α :=
  match x.run with
  | some (.ok a) => some a
  | _ => none

def State.step (s : State) : Label → Option State
  | .connected => if s.connected then none else s.onConnection.toOption
  | .serverReads n =>
    if 0 < n ∧ n ≤ s.toServer.length then
      returned ({ s with toServer := s.toServer.drop n }.serverReads (s.toServer.take n))
    else none
  | .clientReads n =>
    if s.aborted = false ∧ 0 < n ∧ n ≤ s.toClient.length then
      returned ({ s with toClient := s.toClient.drop n }.clientReads (s.toClient.take n))
    else none

/-! ## 4. One segment of a frame -/

/-- The frame of a message. -/
def frame (message : List Byte) : List Byte := storeInt32 (hostToNetwork32 message.length) ++ message

theorem length_frame (m : List Byte) : (frame m).length = kHeaderLen + m.length := by
  rw [frame, List.length_append]
  rfl

theorem frame_ne_nil (m : List Byte) : frame m ≠ [] := by
  intro h
  have hlen := length_frame m
  rw [h] at hlen
  simp only [kHeaderLen, List.length_nil] at hlen
  omega

variable {b : Buffer} {m c seg : List Byte} {n : Nat}

/-- What is in front of a frame that is not all there is its length, or less than that. -/
theorem frameLength_take (hm : m.length < 2 ^ 31) (k : Nat) :
    frameLength ((frame m).take k) = none ∨
      frameLength ((frame m).take k) = some (m.length : Int) := by
  by_cases hk : kHeaderLen ≤ k
  · right
    have hhead : (frame m).take k =
        storeInt32 (hostToNetwork32 m.length) ++ m.take (k - kHeaderLen) := by
      rw [frame, List.take_append, List.take_of_length_le hk]
      rfl
    rw [hhead, LengthHeaderCodec.frameLength_store hm]
  · left
    have hlen : ((frame m).take k).length < 4 := by
      rw [List.length_take]
      simp only [kHeaderLen] at hk
      omega
    generalize (frame m).take k = read at hlen ⊢
    rcases read with - | ⟨a, - | ⟨b, - | ⟨c, - | ⟨d, l⟩⟩⟩⟩
    · rfl
    · rfl
    · rfl
    · rfl
    · simp only [List.length_cons] at hlen
      omega

theorem framed_frame (hm : m.length ≤ 65536) : Framed (frame m) m.length := by
  refine ⟨?_, hm, Nat.le_of_eq (length_frame m).symm⟩
  exact LengthHeaderCodec.frameLength_store (by omega) m

theorem not_framed_take (hm : m.length < 2 ^ 31) {k : Nat} (hk : k < (frame m).length) (len : Nat) :
    ¬ Framed ((frame m).take k) len := by
  rintro ⟨hlen, -, hall⟩
  rw [length_frame] at hk
  rw [List.length_take, length_frame] at hall
  obtain hnone | hsome := frameLength_take hm k
  · rw [hnone] at hlen
    cases hlen
  · rw [hsome, Option.some.injEq, Int.natCast_inj] at hlen
    omega

/-- A round that finds no length in front, or too little behind one in range, leaves all as it
is. -/
theorem onMessageRound_waits (seen : Seen) (hin : b.Input n) (hno : ∀ len, ¬ Framed b.contents len)
    (hrange : ∀ len, frameLength b.contents = some len → 0 ≤ len ∧ len ≤ 65536) :
    onMessageRound (seen, b) = .ok (.inr (seen, b)) := by
  have hread : b.contents.length = b.readableBytes := hin.wf.length_contents
  unfold onMessageRound
  dsimp only
  split
  case isFalse => rfl
  case isTrue hheader =>
    rw [← hread] at hheader
    have hlen := LengthHeaderCodec.frameLength_eq hheader
    rw [Buffer.load_peek hin.wf hheader, Buffer.ok_bind]
    generalize toInt32 (networkToHost32 (loadInt32 (b.contents.take kHeaderLen))) = len at hlen ⊢
    obtain ⟨hnonneg, hle⟩ := hrange len hlen
    obtain ⟨len, rfl⟩ : ∃ k : Nat, len = k := ⟨len.toNat, by omega⟩
    rw [if_neg (by omega), Int.toNat_natCast, Buffer.addSize_eq (by simp only [kHeaderLen]; omega),
      if_neg fun hall => hno len ⟨hlen, by omega, by omega⟩]
    rfl

theorem onMessage_waits (seen : Seen) (hin : b.Input n) (hno : ∀ len, ¬ Framed b.contents len)
    (hrange : ∀ len, frameLength b.contents = some len → 0 ≤ len ∧ len ≤ 65536) :
    onMessage seen b = some (.ok (seen, b)) :=
  loop_leave (onMessageRound_waits seen hin hno hrange) _

/-- The rest of a segment's way: it is appended, and then `onMessage` is called. -/
theorem receive_append (hin : b.Input n) (hsz : Buffer.preAppendSize + (n + seg.length) < 2 ^ 63) :
    ∃ b', b'.Input (n + seg.length) ∧ b'.contents = b.contents ++ seg ∧
      receive ({}, b) seg = onMessage {} b' := by
  obtain ⟨b', hok, hin', hc'⟩ := Buffer.input_append hin hsz
  refine ⟨b', hin', hc', ?_⟩
  rw [receive]
  change (ExceptT.mk (some (b.append seg)) >>= _) = _
  rw [hok, ok_then]

/-- **A part of a frame** is kept.  The buffer then has that part, and no more. -/
theorem receive_part (hin : b.Input n) (hsz : Buffer.preAppendSize + (n + seg.length) < 2 ^ 63)
    (hm : m.length ≤ 65536) {k : Nat} (hk : k < (frame m).length)
    (hc : b.contents ++ seg = (frame m).take k) :
    ∃ b', receive ({}, b) seg = some (.ok ({}, b')) ∧ b'.Input (n + seg.length) ∧
      b'.contents = (frame m).take k := by
  obtain ⟨b', hin', hc', heq⟩ := receive_append hin hsz
  rw [hc] at hc'
  refine ⟨b', heq.trans (onMessage_waits {} hin' ?_ ?_), hin', hc'⟩
  · intro len
    rw [hc']
    exact not_framed_take (by omega) hk len
  · intro len hlen
    rw [hc'] at hlen
    obtain hnone | hsome := frameLength_take (m := m) (by omega) k
    · rw [hnone] at hlen
      cases hlen
    · rw [hsome, Option.some.injEq] at hlen
      omega

/-- **A whole frame** is taken, and its message passed on.  Nothing is behind it, because there
is one message at a time. -/
theorem receive_whole (hin : b.Input n) (hsz : Buffer.preAppendSize + (n + seg.length) < 2 ^ 63)
    (hm : m.length ≤ 65536) (hc : b.contents ++ seg = frame m) :
    ∃ b', receive ({}, b) seg = some (.ok (⟨[m], false⟩, b')) ∧ b'.Input (n + seg.length) ∧
      b'.contents = [] := by
  obtain ⟨b₁, hin₁, hc₁, heq⟩ := receive_append hin hsz
  rw [hc] at hc₁
  have hframed : Framed b₁.contents m.length := hc₁ ▸ framed_frame hm
  obtain ⟨-, -, hno⟩ | ⟨len, b₂, hround, hframe, hin₂, hc₂⟩ :=
    LengthHeaderCodec.onMessageRound_spec {} hin₁
  · exact absurd hframed (hno _)
  · obtain rfl : m.length = len := hframed.unique hframe
    have hnil : b₂.contents = [] := by
      rw [hc₂, hc₁, ← length_frame, List.drop_length]
    have hbody : (b₁.contents.drop kHeaderLen).take m.length = m := by
      have hlen : (storeInt32 (hostToNetwork32 m.length)).length = kHeaderLen := rfl
      rw [hc₁, frame, List.drop_left' hlen, List.take_length]
    have hwaits := onMessageRound_waits ⟨[m], false⟩ hin₂
      (by
        intro len hframe
        rw [hnil] at hframe
        cases hframe.1)
      (by
        intro len hlen
        rw [hnil] at hlen
        cases hlen)
    refine ⟨b₂, ?_, hin₂, hnil⟩
    rw [heq, onMessage, loop, hround]
    have hfuel : b₁.readableBytes = kHeaderLen + m.length := by
      rw [← hin₁.wf.length_contents, hc₁, length_frame]
    dsimp only
    rw [hbody, hfuel]
    have hone : kHeaderLen + m.length = kHeaderLen - 1 + m.length + 1 := by
      simp only [kHeaderLen]
      omega
    rw [hone]
    exact loop_leave hwaits _

/-- **A frame that is too long** is never taken.  Its length is out of range, so the codec shuts
down and leaves it where it is; each further segment has it looked at again. -/
theorem receive_tooLong (hin : b.Input n) (hsz : Buffer.preAppendSize + (n + seg.length) < 2 ^ 63)
    (hm : m.length < 2 ^ 31) (hbig : 65536 < m.length) {k : Nat}
    (hc : b.contents ++ seg = (frame m).take k) :
    ∃ b' down, receive ({}, b) seg = some (.ok (⟨[], down⟩, b')) ∧ b'.Input (n + seg.length) ∧
      b'.contents = (frame m).take k := by
  obtain ⟨b₁, hin₁, hc₁, heq⟩ := receive_append hin hsz
  rw [hc] at hc₁
  have hno : ∀ len, ¬ Framed b₁.contents len := by
    rintro len ⟨hlen, hle, -⟩
    rw [hc₁] at hlen
    obtain hnone | hsome := frameLength_take hm k
    · rw [hnone] at hlen
      cases hlen
    · rw [hsome, Option.some.injEq, Int.natCast_inj] at hlen
      omega
  obtain ⟨more, down, b₂, hcall, hin₂, hdec⟩ := LengthHeaderCodec.onMessage_spec {} hin₁
  obtain ⟨rfl, hc₂⟩ := hdec.unique (.stop hno)
  exact ⟨b₂, down, heq.trans hcall, hin₂, hc₂.trans hc₁⟩

/-! ## 5. Where the message is -/

/-- The round trips that are made: the first one whatever `g_totalMsgs` is, since the message is
sent before anything is counted. -/
def rounds (totalMsgs : Nat) : Nat := max 1 totalMsgs

/-- `len` bytes of a frame, and no more, are on each leg of a round trip. -/
def frameSize (msgSize : Nat) : Nat := kHeaderLen + msgSize

theorem length_message (msgSize : Nat) : (frame (message msgSize)).length = frameSize msgSize := by
  rw [length_frame, message, List.length_replicate]
  rfl

/-- **One message is on its way**: of its frame `k` bytes have arrived at the one side or at the
other, and nothing else is anywhere.  This is the whole state of a run, for a run has no choice
but in how the frame is cut. -/
inductive Stage (s : State) : Prop
  | before (hconn : s.connected = false) (hcount : s.msgCount = 0) (hto : s.toServer = [])
      (hback : s.toClient = []) (hup : s.client.up = true)
      (hserver : s.server.buf.Input 0 ∧ s.server.buf.contents = [])
      (hclient : s.client.buf.Input 0 ∧ s.client.buf.contents = [])
  | outward (k : Nat) (hk : k < frameSize s.msgSize) (hconn : s.connected = true)
      (hcount : s.msgCount < rounds s.totalMsgs) (hto : s.toServer = (frame (message s.msgSize)).drop k)
      (hback : s.toClient = []) (hup : s.client.up = true)
      (hserver : s.server.buf.Input (s.msgCount * frameSize s.msgSize + k) ∧
        s.server.buf.contents = (frame (message s.msgSize)).take k)
      (hclient : s.client.buf.Input (s.msgCount * frameSize s.msgSize) ∧ s.client.buf.contents = [])
  | homeward (k : Nat) (hk : k < frameSize s.msgSize) (hconn : s.connected = true)
      (hcount : s.msgCount < rounds s.totalMsgs) (hto : s.toServer = [])
      (hback : s.toClient = (frame (message s.msgSize)).drop k) (hup : s.client.up = true)
      (hserver : s.server.buf.Input ((s.msgCount + 1) * frameSize s.msgSize) ∧
        s.server.buf.contents = [])
      (hclient : s.client.buf.Input (s.msgCount * frameSize s.msgSize + k) ∧
        s.client.buf.contents = (frame (message s.msgSize)).take k)
  | done (hconn : s.connected = true) (hcount : s.msgCount = rounds s.totalMsgs)
      (hto : s.toServer = []) (hback : s.toClient = []) (hup : s.client.up = false)

/-- What stays, and where the message is.  The three lemmas on a frame say what one read makes of
it. -/
structure Exchange (msgSize totalMsgs : Nat) (s : State) : Prop where
  size : s.msgSize = msgSize
  total : s.totalMsgs = totalMsgs
  running : s.aborted = false
  up : s.server.up = true
  stage : Stage s

/-- The bytes still to be read until the last message is back. -/
def rank (s : State) : Nat :=
  if s.connected then
    (if s.toServer = [] then 0 else s.toServer.length + frameSize s.msgSize) + s.toClient.length +
      2 * (frameSize s.msgSize * (rounds s.totalMsgs - 1 - s.msgCount))
  else 2 * (frameSize s.msgSize * rounds s.totalMsgs) + 1

theorem exchange_init (msgSize totalMsgs : Nat) :
    Exchange msgSize totalMsgs (.init msgSize totalMsgs) :=
  ⟨rfl, rfl, rfl, rfl, .before rfl rfl rfl rfl rfl ⟨Buffer.input_new, Buffer.new_contents Buffer.initSize⟩
    ⟨Buffer.input_new, Buffer.new_contents Buffer.initSize⟩⟩

section Steps

variable {msgSize totalMsgs : Nat} {s s' : State}

/-- No buffer comes near the size at which `append` throws.  The bound is for all that was ever
received, which is more than a buffer holds at a time. -/
theorem size_fits (hm : msgSize ≤ 65536) (ht : totalMsgs < 2 ^ 31) {count j : Nat}
    (hcount : count < rounds totalMsgs) (hj : j ≤ frameSize msgSize) :
    Buffer.preAppendSize + (count * frameSize msgSize + j) < 2 ^ 63 := by
  have hF : frameSize msgSize ≤ 65540 := by
    simp only [frameSize, kHeaderLen]
    omega
  have hc : count ≤ 2 ^ 31 := by
    unfold rounds at hcount
    omega
  have hprod : count * frameSize msgSize ≤ 2 ^ 31 * 65540 := Nat.mul_le_mul hc hF
  simp only [Buffer.preAppendSize]
  omega

theorem peer_send {p : Peer} (hup : p.up = true) (hm : m.length < 2 ^ 31) (wire : List Byte) :
    p.send m wire = .ok (wire ++ frame m) := by
  rw [Peer.send, LengthHeaderCodec.send_frame (by omega), Buffer.ok_bind, if_pos hup]
  rfl

theorem length_message_le (hm : msgSize ≤ 65536) : (message msgSize).length < 2 ^ 31 := by
  rw [message, List.length_replicate]
  omega

/-- A round trip less, and the two frames of the next one.  What is left to read goes down with
every read. -/
theorem rank_step {F T count : Nat} (h : count + 1 < T) :
    F * (T - 1 - count) = F + F * (T - 1 - (count + 1)) := by
  obtain ⟨d, hd⟩ : ∃ d, T - 1 - count = d + 1 := ⟨T - 1 - (count + 1), by omega⟩
  have hd' : T - 1 - (count + 1) = d := by omega
  rw [hd, hd', Nat.mul_succ, Nat.add_comm]

theorem step_connected (hm : msgSize ≤ 65536) (h : Exchange msgSize totalMsgs s)
    (hst : s.step .connected = some s') :
    Exchange msgSize totalMsgs s' ∧ rank s' < rank s := by
  simp only [State.step] at hst
  split at hst
  · cases hst
  · rename_i hconn
    obtain rfl := h.size
    cases h.stage with
    | before hc hcount hto hback hup hserver hclient =>
      rw [State.onConnection, peer_send hup (length_message_le hm), hto] at hst
      cases hst
      have hpos : 0 < frameSize s.msgSize := by simp only [frameSize, kHeaderLen]; omega
      refine ⟨⟨rfl, h.total, h.running, h.up, .outward 0 hpos rfl ?_ ?_ hback hup ?_ ?_⟩, ?_⟩
      · change s.msgCount < max 1 s.totalMsgs
        omega
      · rfl
      · refine ⟨?_, hserver.2⟩
        simpa [hcount] using hserver.1
      · simpa [hcount] using hclient
      · have hne : frame (message s.msgSize) ≠ [] := frame_ne_nil _
        have hT : 1 ≤ rounds s.totalMsgs := Nat.le_max_left _ _
        obtain ⟨d, hd⟩ : ∃ d, rounds s.totalMsgs = d + 1 := ⟨rounds s.totalMsgs - 1, by omega⟩
        simp only [rank, hc, Bool.false_eq_true, if_false, if_true, List.nil_append, hne, hback,
          length_message, hcount, hd, List.length_nil, Nat.add_sub_cancel, Nat.sub_zero,
          Nat.mul_succ]
        omega
    | outward k hk hc | homeward k hk hc | done hc => exact absurd hc hconn

/-- What a read of `n` bytes makes of a frame of which `k` have arrived. -/
theorem take_more (l : List Byte) (k n : Nat) : l.take k ++ (l.drop k).take n = l.take (k + n) :=
  List.take_add.symm

theorem foldlM_one {α β : Type} {f : α → β → Except Buffer.Error α} {a a' : α} {x : β}
    (h : f a x = .ok a') : [x].foldlM f a = .ok a' := by
  rw [List.foldlM_cons, h]
  rfl

theorem serverReads_eq {seen : Seen} {buf : Buffer} {wire : List Byte}
    (hrecv : receive ({}, s.server.buf) seg = some (.ok (seen, buf)))
    (hsend : seen.messages.foldlM (fun wire m => s.server.send m wire) s.toClient = .ok wire) :
    returned (s.serverReads seg) =
      some { s with server := ⟨buf, s.server.up && !seen.down⟩, toClient := wire } := by
  unfold State.serverReads
  rw [hrecv]
  change returned (ExceptT.mk (some (seen.messages.foldlM _ s.toClient)) >>= _) = _
  rw [hsend]
  rfl

theorem clientReads_eq {seen : Seen} {buf : Buffer}
    (hrecv : receive ({}, s.client.buf) seg = some (.ok (seen, buf)))
    (hcall : seen.messages.foldlM State.onStringMessage s = .ok s') :
    returned (s.clientReads seg) =
      some { s' with client := ⟨buf, s'.client.up && !seen.down⟩ } := by
  unfold State.clientReads
  rw [hrecv]
  change returned (ExceptT.mk (some (seen.messages.foldlM _ s)) >>= _) = _
  rw [hcall]
  rfl

theorem step_serverReads (hm : msgSize ≤ 65536) (ht : totalMsgs < 2 ^ 31)
    (h : Exchange msgSize totalMsgs s) {n : Nat} (hst : s.step (.serverReads n) = some s') :
    Exchange msgSize totalMsgs s' ∧ rank s' < rank s := by
  obtain rfl := h.size
  obtain rfl := h.total
  simp only [State.step, Option.ite_none_right_eq_some] at hst
  obtain ⟨⟨hpos, hle⟩, hst⟩ := hst
  have hup := h.up
  cases h.stage with
  | before hc hcount hto | homeward k hk hc hcount hto | done hc hcount hto =>
    rw [hto] at hle
    exact absurd hle (Nat.not_le.mpr hpos)
  | outward k hk hc hcount hto hback hup' hserver hclient =>
    have hlen : s.toServer.length = frameSize s.msgSize - k := by
      rw [hto, List.length_drop, length_message]
    have hmlen : (message s.msgSize).length ≤ 65536 := by
      rw [message, List.length_replicate]
      exact hm
    have hseg : (s.toServer.take n).length = n := List.length_take_of_le hle
    have hbytes : s.server.buf.contents ++ s.toServer.take n =
        (frame (message s.msgSize)).take (k + n) := by
      rw [hserver.2, hto, take_more]
    have hsz := size_fits hm ht hcount (j := k + (s.toServer.take n).length) (by omega)
    rw [← Nat.add_assoc (s.msgCount * _)] at hsz
    have hne : s.toServer ≠ [] := by
      intro hnil
      rw [hnil] at hle
      exact absurd hle (Nat.not_le.mpr hpos)
    by_cases hall : k + n = frameSize s.msgSize
    · -- the frame is whole, and goes back at once
      have hwhole : s.server.buf.contents ++ s.toServer.take n = frame (message s.msgSize) := by
        rw [hbytes, hall, ← length_message, List.take_length]
      obtain ⟨b', hrecv, hin', hc'⟩ := receive_whole hserver.1 hsz hmlen hwhole
      have hsend := peer_send hup (length_message_le hm) s.toClient
      rw [hback, List.nil_append, ← hback] at hsend
      rw [serverReads_eq (s := { s with toServer := s.toServer.drop n }) hrecv (foldlM_one hsend)] at hst
      cases hst
      have hdrop : s.toServer.drop n = [] := List.drop_of_length_le (by omega)
      have hF : 0 < frameSize s.msgSize := by omega
      refine ⟨⟨rfl, rfl, h.running, by simp [hup], .homeward 0 hF hc hcount hdrop rfl hup' ?_ hclient⟩, ?_⟩
      · refine ⟨?_, hc'⟩
        rw [hseg, Nat.add_assoc, hall, ← Nat.succ_mul] at hin'
        exact hin'
      · simp only [rank, hc, if_true, hdrop, hne, if_false, hback, List.length_nil, length_message, hlen]
        omega
    · have hkn : k + n < frameSize s.msgSize := by omega
      have hlt : k + n < (frame (message s.msgSize)).length := by rwa [length_message]
      obtain ⟨b', hrecv, hin', hc'⟩ := receive_part hserver.1 hsz hmlen hlt hbytes
      rw [serverReads_eq (s := { s with toServer := s.toServer.drop n }) hrecv rfl] at hst
      cases hst
      rw [hseg, Nat.add_assoc] at hin'
      have hdrop : s.toServer.drop n = (frame (message s.msgSize)).drop (k + n) := by
        rw [hto, List.drop_drop]
      refine ⟨⟨rfl, rfl, h.running, by simp [hup], .outward (k + n) hkn hc hcount hdrop hback hup'
        ⟨hin', hc'⟩ hclient⟩, ?_⟩
      have hne' : s.toServer.drop n ≠ [] := by
        intro hnil
        have := congrArg List.length hnil
        rw [List.length_drop, List.length_nil] at this
        omega
      simp only [rank, hc, if_true, hne, hne', if_false, List.length_drop]
      omega

/-- What the client does with its message when it is back: it sends it again, or it shuts down.
The size is right, so it does not abort. -/
theorem onStringMessage_back (hm : msgSize ≤ 65536) (hsize : s.msgSize = msgSize)
    (hrun : s.aborted = false) (hup : s.client.up = true) (hto : s.toServer = []) :
    s.onStringMessage (message msgSize) =
      .ok (if s.msgCount + 1 < s.totalMsgs then
          { s with msgCount := s.msgCount + 1, toServer := frame (message msgSize) }
        else
          { s with msgCount := s.msgCount + 1, client := { s.client with up := false } }) := by
  have hlen : (message msgSize).length = s.msgSize := by
    rw [message, List.length_replicate, hsize]
  simp only [State.onStringMessage, hrun, Bool.false_eq_true, if_false, hlen, ne_eq, not_true]
  split
  · rw [peer_send hup (length_message_le hm), hto]
    rfl
  · rfl

theorem step_clientReads (hm : msgSize ≤ 65536) (ht : totalMsgs < 2 ^ 31)
    (h : Exchange msgSize totalMsgs s) {n : Nat} (hst : s.step (.clientReads n) = some s') :
    Exchange msgSize totalMsgs s' ∧ rank s' < rank s := by
  obtain rfl := h.size
  obtain rfl := h.total
  simp only [State.step, Option.ite_none_right_eq_some] at hst
  obtain ⟨⟨-, hpos, hle⟩, hst⟩ := hst
  cases h.stage with
  | before hc hcount hto hback | outward k hk hc hcount hto hback | done hc hcount hto hback =>
    rw [hback] at hle
    exact absurd hle (Nat.not_le.mpr hpos)
  | homeward k hk hc hcount hto hback hup hserver hclient =>
    have hlen : s.toClient.length = frameSize s.msgSize - k := by
      rw [hback, List.length_drop, length_message]
    have hmlen : (message s.msgSize).length ≤ 65536 := by
      rw [message, List.length_replicate]
      exact hm
    have hseg : (s.toClient.take n).length = n := List.length_take_of_le hle
    have hbytes : s.client.buf.contents ++ s.toClient.take n =
        (frame (message s.msgSize)).take (k + n) := by
      rw [hclient.2, hback, take_more]
    have hsz := size_fits hm ht hcount (j := k + (s.toClient.take n).length) (by omega)
    rw [← Nat.add_assoc (s.msgCount * _)] at hsz
    by_cases hall : k + n = frameSize s.msgSize
    · have hwhole : s.client.buf.contents ++ s.toClient.take n = frame (message s.msgSize) := by
        rw [hbytes, hall, ← length_message, List.take_length]
      obtain ⟨b', hrecv, hin', hc'⟩ := receive_whole hclient.1 hsz hmlen hwhole
      rw [hseg, Nat.add_assoc, hall, ← Nat.succ_mul] at hin'
      have hdrop : s.toClient.drop n = [] := List.drop_of_length_le (by omega)
      have hback' := onStringMessage_back (s := { s with toClient := s.toClient.drop n }) hm rfl
        h.running hup hto
      rw [clientReads_eq (s := { s with toClient := s.toClient.drop n }) hrecv (foldlM_one hback')] at hst
      have hF : 0 < frameSize s.msgSize := by omega
      split at hst
      · -- and out again
        rename_i hmore
        change s.msgCount + 1 < s.totalMsgs at hmore
        cases hst
        have hT : s.msgCount + 1 < rounds s.totalMsgs :=
          Nat.lt_of_lt_of_le hmore (Nat.le_max_right _ _)
        refine ⟨⟨rfl, rfl, h.running, h.up, .outward 0 hF hc hT rfl hdrop (by simp [hup]) hserver
          ⟨hin', hc'⟩⟩, ?_⟩
        have hne : frame (message s.msgSize) ≠ [] := frame_ne_nil _
        simp only [rank, hc, if_true, hto, hne, if_false, hdrop, List.length_nil, length_message,
          rank_step hT, hlen]
        omega
      · rename_i hlast
        change ¬ s.msgCount + 1 < s.totalMsgs at hlast
        cases hst
        have hT : s.msgCount + 1 = rounds s.totalMsgs := by
          unfold rounds at hcount ⊢
          omega
        refine ⟨⟨rfl, rfl, h.running, h.up, .done hc hT hto hdrop (by simp)⟩, ?_⟩
        have hzero : rounds s.totalMsgs - 1 - (s.msgCount + 1) = 0 := by omega
        simp only [rank, hc, if_true, hto, hdrop, List.length_nil, hzero, Nat.mul_zero]
        omega
    · have hkn : k + n < frameSize s.msgSize := by omega
      have hlt : k + n < (frame (message s.msgSize)).length := by rwa [length_message]
      obtain ⟨b', hrecv, hin', hc'⟩ := receive_part hclient.1 hsz hmlen hlt hbytes
      rw [clientReads_eq (s := { s with toClient := s.toClient.drop n }) hrecv rfl] at hst
      cases hst
      rw [hseg, Nat.add_assoc] at hin'
      have hdrop : s.toClient.drop n = (frame (message s.msgSize)).drop (k + n) := by
        rw [hback, List.drop_drop]
      refine ⟨⟨rfl, rfl, h.running, h.up, .homeward (k + n) hkn hc hcount hto hdrop (by simp [hup])
        hserver ⟨hin', hc'⟩⟩, ?_⟩
      simp only [rank, hc, if_true, hto, List.length_drop]
      omega

theorem step_exchange (hm : msgSize ≤ 65536) (ht : totalMsgs < 2 ^ 31) {l : Label}
    (h : Exchange msgSize totalMsgs s) (hst : s.step l = some s') :
    Exchange msgSize totalMsgs s' ∧ rank s' < rank s := by
  cases l with
  | connected => exact step_connected hm h hst
  | serverReads n => exact step_serverReads hm ht h hst
  | clientReads n => exact step_clientReads hm ht h hst

theorem Exchange.count_le (h : Exchange msgSize totalMsgs s) : s.msgCount ≤ rounds totalMsgs := by
  obtain rfl := h.total
  cases h.stage with
  | before hc hcount => exact hcount ▸ Nat.zero_le _
  | outward k hk hc hcount | homeward k hk hc hcount => exact Nat.le_of_lt hcount
  | done hc hcount => exact Nat.le_of_eq hcount

/-- **Nothing holds the message up**: as long as round trips are missing, something can be read. -/
theorem Exchange.goes_on (hm : msgSize ≤ 65536) (ht : totalMsgs < 2 ^ 31)
    (h : Exchange msgSize totalMsgs s) (hmore : s.msgCount < rounds totalMsgs) :
    ∃ l s', s.step l = some s' := by
  obtain rfl := h.size
  obtain rfl := h.total
  have hmlen : (message s.msgSize).length ≤ 65536 := by
    rw [message, List.length_replicate]
    exact hm
  cases h.stage with
  | before hc hcount hto hback hup hserver hclient =>
    refine ⟨.connected,
      { s with connected := true, toServer := s.toServer ++ frame (message s.msgSize) }, ?_⟩
    rw [State.step, if_neg (by simp [hc]), State.onConnection, peer_send hup (length_message_le hm)]
    rfl
  | outward k hk hc hcount hto hback hup hserver hclient =>
    -- all that is on its way is read at once
    have hlen : s.toServer.length = frameSize s.msgSize - k := by
      rw [hto, List.length_drop, length_message]
    have hwhole : s.server.buf.contents ++ s.toServer.take s.toServer.length =
        frame (message s.msgSize) := by
      rw [List.take_length, hserver.2, hto, List.take_append_drop]
    have hsz := size_fits hm ht hcount (j := k + (s.toServer.take s.toServer.length).length)
      (by rw [List.take_length]; omega)
    rw [← Nat.add_assoc (s.msgCount * _)] at hsz
    obtain ⟨b', hrecv, -⟩ := receive_whole hserver.1 hsz hmlen hwhole
    have hpos : 0 < s.toServer.length := by omega
    have hgo := serverReads_eq (s := { s with toServer := s.toServer.drop s.toServer.length }) hrecv
      (foldlM_one (peer_send h.up (length_message_le hm) s.toClient))
    exact ⟨.serverReads s.toServer.length, _, (if_pos ⟨hpos, Nat.le_refl _⟩).trans hgo⟩
  | homeward k hk hc hcount hto hback hup hserver hclient =>
    have hlen : s.toClient.length = frameSize s.msgSize - k := by
      rw [hback, List.length_drop, length_message]
    have hwhole : s.client.buf.contents ++ s.toClient.take s.toClient.length =
        frame (message s.msgSize) := by
      rw [List.take_length, hclient.2, hback, List.take_append_drop]
    have hsz := size_fits hm ht hcount (j := k + (s.toClient.take s.toClient.length).length)
      (by rw [List.take_length]; omega)
    rw [← Nat.add_assoc (s.msgCount * _)] at hsz
    obtain ⟨b', hrecv, -⟩ := receive_whole hclient.1 hsz hmlen hwhole
    have hpos : 0 < s.toClient.length := by omega
    have hback' := onStringMessage_back (s := { s with toClient := s.toClient.drop s.toClient.length })
      hm rfl h.running hup hto
    have hgo := clientReads_eq (s := { s with toClient := s.toClient.drop s.toClient.length }) hrecv
      (foldlM_one hback')
    exact ⟨.clientReads s.toClient.length, _, (if_pos ⟨h.running, hpos, Nat.le_refl _⟩).trans hgo⟩
  | done hc hcount => exact absurd hmore (by omega)

/-- Once the last message is back, nothing is left to read. -/
theorem Exchange.ends (h : Exchange msgSize totalMsgs s) (hdone : s.msgCount = rounds totalMsgs)
    (l : Label) : s.step l = none := by
  obtain rfl := h.total
  cases h.stage with
  | before hc hcount =>
    have hT : 1 ≤ rounds s.totalMsgs := Nat.le_max_left _ _
    omega
  | outward k hk hc hcount | homeward k hk hc hcount => omega
  | done hc hcount hto hback hup =>
    cases l with
    | connected => simp [State.step, hc]
    | serverReads n => simp only [State.step, hto, List.length_nil]; rw [if_neg (by omega)]
    | clientReads n => simp only [State.step, hback, List.length_nil]; rw [if_neg (by omega)]

/-! ## 6. A message that is too long -/

/-- The server never gets the message whole, so nothing comes back. -/
structure Refused (msgSize : Nat) (s : State) : Prop where
  size : s.msgSize = msgSize
  running : s.aborted = false
  count : s.msgCount = 0
  back : s.toClient = []
  up : s.client.up = true
  stage : (s.connected = false ∧ s.toServer = [] ∧ s.server.buf.Input 0 ∧
      s.server.buf.contents = []) ∨
    (s.connected = true ∧ ∃ k ≤ frameSize msgSize, s.toServer = (frame (message msgSize)).drop k ∧
      s.server.buf.Input k ∧ s.server.buf.contents = (frame (message msgSize)).take k)

theorem step_refused (hm : 65536 < msgSize) (h31 : msgSize < 2 ^ 31) {l : Label}
    (h : Refused msgSize s) (hst : s.step l = some s') : Refused msgSize s' := by
  obtain rfl := h.size
  have hlen : (message s.msgSize).length = s.msgSize := List.length_replicate
  cases l with
  | connected =>
    simp only [State.step] at hst
    split at hst
    · cases hst
    · rename_i hconn
      obtain ⟨hc, hto, hin, hcont⟩ | ⟨hc, -⟩ := h.stage
      · rw [State.onConnection, peer_send h.up (by omega), hto] at hst
        cases hst
        exact ⟨rfl, h.running, h.count, h.back, h.up,
          .inr ⟨rfl, 0, Nat.zero_le _, rfl, hin, hcont⟩⟩
      · exact absurd hc hconn
  | serverReads n =>
    simp only [State.step, Option.ite_none_right_eq_some] at hst
    obtain ⟨⟨hpos, hle⟩, hst⟩ := hst
    obtain ⟨hc, hto, -⟩ | ⟨hc, k, hk, hto, hin, hcont⟩ := h.stage
    · rw [hto] at hle
      exact absurd hle (Nat.not_le.mpr hpos)
    · have hF : frameSize s.msgSize = 4 + s.msgSize := rfl
      have hto' : s.toServer.length = frameSize s.msgSize - k := by
        rw [hto, List.length_drop, length_message]
      have hseg : (s.toServer.take n).length = n := List.length_take_of_le hle
      have hbytes : s.server.buf.contents ++ s.toServer.take n =
          (frame (message s.msgSize)).take (k + n) := by
        rw [hcont, hto, take_more]
      have hsz : Buffer.preAppendSize + (k + (s.toServer.take n).length) < 2 ^ 63 := by
        simp only [Buffer.preAppendSize]
        omega
      obtain ⟨b', down, hrecv, hin', hc'⟩ := receive_tooLong hin hsz (by omega) (by omega) hbytes
      rw [serverReads_eq (s := { s with toServer := s.toServer.drop n }) hrecv rfl] at hst
      cases hst
      rw [hseg] at hin'
      refine ⟨rfl, h.running, h.count, h.back, h.up, .inr ⟨hc, k + n, by omega, ?_, hin', hc'⟩⟩
      change s.toServer.drop n = _
      rw [hto, List.drop_drop]
  | clientReads n =>
    simp only [State.step, Option.ite_none_right_eq_some, h.back, List.length_nil] at hst
    omega

end Steps

/-! ## 7. Runs -/

/-- **The benchmark ends, and counts right**, as long as the connection lasts: a step is a read,
and no read fails.  However the stream is cut, the client never aborts.  With messages up to
65536 bytes every run gets to its last round trip, in no more reads than there are bytes to be
read, and stops there; with longer ones, no message ever comes back. -/
theorem latency_exact (msgSize totalMsgs : Nat) (h31 : msgSize < 2 ^ 31) (ht : totalMsgs < 2 ^ 31)
    (ls : List Label) (s : State) (hrun : exec State.step (.init msgSize totalMsgs) ls = some s) :
    s.aborted = false ∧
      (msgSize ≤ 65536 → s.msgCount ≤ rounds totalMsgs ∧
        ls.length ≤ 2 * (frameSize msgSize * rounds totalMsgs) + 1 ∧
        ((∀ l, s.step l = none) ↔ s.msgCount = rounds totalMsgs)) ∧
      (65536 < msgSize → s.msgCount = 0 ∧ s.toClient = []) := by
  by_cases hm : msgSize ≤ 65536
  · obtain ⟨h, hlen⟩ := exec_length_le (fun _ _ _ hi hst => step_exchange hm ht hi hst) ls _ s
      (exchange_init msgSize totalMsgs) hrun
    have hrank : rank (.init msgSize totalMsgs) = 2 * (frameSize msgSize * rounds totalMsgs) + 1 := rfl
    refine ⟨h.running, fun _ => ⟨h.count_le, by omega, fun hstuck => ?_, h.ends⟩, fun hbig => by omega⟩
    by_contra hne
    obtain ⟨l, s', hst⟩ := h.goes_on hm ht (Nat.lt_of_le_of_ne h.count_le hne)
    rw [hstuck l] at hst
    cases hst
  · have hbig : 65536 < msgSize := Nat.lt_of_not_le hm
    have hstart : Refused msgSize (.init msgSize totalMsgs) :=
      ⟨rfl, rfl, rfl, rfl, rfl, .inl ⟨rfl, rfl, Buffer.input_new, Buffer.new_contents Buffer.initSize⟩⟩
    have h : Refused msgSize s :=
      (Reach.of_exec_any ls hrun).invariant hstart fun _ _ _ hi _ hst => step_refused hbig h31 hi hst
    exact ⟨h.running, fun hle => absurd hle hm, fun _ => ⟨h.count, h.back⟩⟩

/-- Two round trips of a message of one byte, its frames cut here and there. -/
def twoTrips : List Label :=
  [.connected, .serverReads 2, .serverReads 3, .clientReads 4, .clientReads 1, .serverReads 5,
    .clientReads 5]

theorem latency_exact_twoTrips :
    ∃ s, exec State.step (.init 1 2) twoTrips = some s ∧ s.msgCount = 2 ∧ s.aborted = false ∧
      (1 ≤ 65536 → s.msgCount ≤ rounds 2 ∧ twoTrips.length ≤ 2 * (frameSize 1 * rounds 2) + 1 ∧
        ((∀ l, s.step l = none) ↔ s.msgCount = rounds 2)) ∧
      (65536 < 1 → s.msgCount = 0 ∧ s.toClient = []) := by
  have hex : (exec State.step (.init 1 2) twoTrips).any (fun s => decide (s.msgCount = 2)) = true := by
    decide +kernel
  cases hrun : exec State.step (.init 1 2) twoTrips with
  | none =>
    rw [hrun] at hex
    cases hex
  | some s =>
    rw [hrun, Option.any_some, decide_eq_true_eq] at hex
    exact ⟨s, rfl, hex, latency_exact 1 2 (by decide) (by decide) twoTrips s hrun⟩

end Suduo.Latency
