/-
# `LengthHeaderCodec`: messages behind a length

`bench/zeromq/codec.h`.  A message on the wire is its length, a signed 32-bit integer in network
order, and its bytes.  `onMessage` decodes what the input buffer holds, as often as it is called;
`send` puts the header into the space that every `Buffer` keeps in front.

`Decodes` is what the framing MEANS, on a whole stream.  `framing` says that `onMessage` computes it
however the stream is cut, and that it takes back what `send` has made.
-/
import Suduo.Lib.Endian
import Suduo.Lib.Incremental
import Suduo.Net.BufferInput

namespace Suduo.LengthHeaderCodec

open Lib

/-! ## 1. Integers in network order -/

/-- A 32-bit integer in memory; the host is little-endian. -/
def loadInt32 : List Byte → Nat
  | [b₀, b₁, b₂, b₃] =>
    b₀.toNat + b₁.toNat * 2 ^ 8 + b₂.toNat * 2 ^ 16 + b₃.toNat * 2 ^ 24
  | _ => 0

def storeInt32 (x : Nat) : List Byte :=
  [.ofNat x, .ofNat (x / 2 ^ 8), .ofNat (x / 2 ^ 16), .ofNat (x / 2 ^ 24)]

def bswap32 (x : Nat) : Nat :=
  x % 2 ^ 8 * 2 ^ 24 + x / 2 ^ 8 % 2 ^ 8 * 2 ^ 16 + x / 2 ^ 16 % 2 ^ 8 * 2 ^ 8 + x / 2 ^ 24 % 2 ^ 8

def hostToNetwork32 (host : Nat) : Nat := bswap32 host

def networkToHost32 (network : Nat) : Nat := bswap32 network

/-- The `int32_t` of 32 bits. -/
def toInt32 (x : Nat) : Int := if x < 2 ^ 31 then x else x - 2 ^ 32

/-! ## 2. The codec -/

def kHeaderLen : Nat := 4

/-- What the callbacks have seen: the messages passed to `messageCallback_`, and whether
`shutdown` was called. -/
structure Seen where
  messages : List (List Byte) := []
  down : Bool := false
  deriving DecidableEq, Repr

/-- One round of the loop in `onMessage`. -/
def onMessageRound (s : Seen × Buffer) : Except Buffer.Error ((Seen × Buffer) ⊕ (Seen × Buffer)) :=
  let (seen, buf) := s
  if kHeaderLen ≤ buf.readableBytes then do
    let data ← Buffer.load buf.buffer buf.readIndex (buf.readIndex + kHeaderLen)
    let len := toInt32 (networkToHost32 (loadInt32 data))
    if len > 65536 ∨ len < 0 then return .inr ({ seen with down := true }, buf)
    else if Buffer.addSize len.toNat kHeaderLen ≤ buf.readableBytes then
      let buf := buf.retrieve kHeaderLen
      let message ← Buffer.load buf.buffer buf.readIndex (buf.readIndex + len.toNat)
      let seen := { seen with messages := seen.messages ++ [message] }
      return .inl (seen, buf.retrieve len.toNat)
    else return .inr (seen, buf)
  else return .inr (seen, buf)

/-- `onMessage`: each round takes a header at least, so this fuel is enough (`onMessage_spec`). -/
def onMessage (seen : Seen) (buf : Buffer) : ExceptT Buffer.Error Option (Seen × Buffer) :=
  loop onMessageRound (buf.readableBytes + 1) (seen, buf)

/-- `send`: the bytes handed to the connection. -/
def send (message : List Byte) : Except Buffer.Error (List Byte) := do
  let buf ← Buffer.new.append message
  let len := message.length % 2 ^ 32
  let be32 := hostToNetwork32 len
  let buf ← buf.prepend (storeInt32 be32)
  return buf.contents

/-- The stream that a list of messages makes. -/
def sendAll : List (List Byte) → Except Buffer.Error (List Byte)
  | [] => return []
  | message :: messages => do
    let frame ← send message
    let frames ← sendAll messages
    return frame ++ frames

/-- One segment arrives: it is appended to the input buffer, and `onMessage` is called.  It is
called with all that the buffer holds, decoded or not. -/
def receive (s : Seen × Buffer) (seg : List Byte) : ExceptT Buffer.Error Option (Seen × Buffer) := do
  let buf ← ExceptT.mk (some (s.2.append seg))
  onMessage s.1 buf

/-- A stream in segments, up to the first exception. -/
def receiveAll (s : Seen × Buffer) (segs : List (List Byte)) :
    ExceptT Buffer.Error Option (Seen × Buffer) := segs.foldlM receive s

/-! ## 3. What the framing means -/

/-- The length in front of a stream: a signed big-endian integer. -/
def frameLength : List Byte → Option Int
  | b₀ :: b₁ :: b₂ :: b₃ :: _ =>
    some (toInt32 (b₀.toNat * 2 ^ 24 + b₁.toNat * 2 ^ 16 + b₂.toNat * 2 ^ 8 + b₃.toNat))
  | _ => none

/-- A whole message is in front. -/
def Framed (stream : List Byte) (len : Nat) : Prop :=
  frameLength stream = some (len : Int) ∧ len ≤ 65536 ∧ kHeaderLen + len ≤ stream.length

/-- **The reference decoder**, on a whole stream: message after message, up to a length out of
range or a message that is not all there.  It knows no buffer, no segments and no rounds. -/
inductive Decodes : List Byte → List (List Byte) → List Byte → Prop
  | message {stream rest : List Byte} {messages : List (List Byte)} (len : Nat)
      (h : Framed stream len) (next : Decodes (stream.drop (kHeaderLen + len)) messages rest) :
      Decodes stream ((stream.drop kHeaderLen).take len :: messages) rest
  | stop {stream : List Byte} (h : ∀ len, ¬ Framed stream len) : Decodes stream [] stream

variable {stream rest more : List Byte} {messages : List (List Byte)}

theorem frameLength_append (h : kHeaderLen ≤ stream.length) (more : List Byte) :
    frameLength (stream ++ more) = frameLength stream := by
  match stream, h with
  | _ :: _ :: _ :: _ :: _, _ => rfl

theorem Framed.unique {len len' : Nat} (h : Framed stream len) (h' : Framed stream len') :
    len = len' := by
  have heq : some (len : Int) = some (len' : Int) := h.1.symm.trans h'.1
  simpa only [Option.some.injEq, Int.natCast_inj] using heq

/-- Bytes that come later do not change a message that is there. -/
theorem Framed.append {len : Nat} (h : Framed stream len) (more : List Byte) :
    Framed (stream ++ more) len := by
  obtain ⟨hlen, hrange, hall⟩ := h
  refine ⟨?_, hrange, ?_⟩
  · rw [frameLength_append (by omega), hlen]
  · rw [List.length_append]
    omega

/-- The reference decoder is a function: the length in front decides what comes next. -/
theorem Decodes.unique {messages' : List (List Byte)} {rest' : List Byte}
    (h : Decodes stream messages rest) (h' : Decodes stream messages' rest') :
    messages = messages' ∧ rest = rest' := by
  induction h generalizing messages' rest' with
  | message len hframe next ih =>
    cases h' with
    | message len' hframe' next' =>
      obtain rfl := hframe.unique hframe'
      obtain ⟨rfl, rfl⟩ := ih next'
      exact ⟨rfl, rfl⟩
    | stop hno => exact absurd hframe (hno len)
  | stop hno =>
    cases h' with
    | message len' hframe' next' => exact absurd hframe' (hno len')
    | stop hno' => exact ⟨rfl, rfl⟩

/-- **Decoding goes on where it stopped**, with the bytes that were left in front.  By induction
on what was decoded first. -/
theorem Decodes.append {messages' : List (List Byte)} {rest' : List Byte}
    (h : Decodes stream messages rest) (h' : Decodes (rest ++ more) messages' rest') :
    Decodes (stream ++ more) (messages ++ messages') rest' := by
  induction h with
  | @message stream rest messages len hframe next ih =>
    have hall : kHeaderLen + len ≤ stream.length := hframe.2.2
    have hbody : ((stream ++ more).drop kHeaderLen).take len =
        (stream.drop kHeaderLen).take len := by
      rw [List.drop_append_of_le_length (by omega), List.take_append_of_le_length]
      rw [List.length_drop]
      omega
    rw [List.cons_append, ← hbody]
    refine .message len (hframe.append more) ?_
    rw [List.drop_append_of_le_length hall]
    exact ih h'
  | stop hno => exact h'

/-! ## 4. One call of `onMessage` -/

theorem loadInt32_eq {data : List Byte} (h : data.length = kHeaderLen) :
    loadInt32 data = Endian.little.load data := by
  match data, h with
  | [b₀, b₁, b₂, b₃], _ =>
    simp only [loadInt32, Endian.load, ofLowFirst, List.map_cons, List.map_nil, Nat.ofDigits_cons,
      Nat.ofDigits_nil]
    omega

theorem storeInt32_eq (x : Nat) : storeInt32 x = Endian.little.store kHeaderLen x := by
  simp only [storeInt32, kHeaderLen, Endian.store, lowFirst, Nat.div_div_eq_div_mul, Nat.reducePow,
    Nat.reduceMul]

theorem bswap32_eq (x : Nat) : bswap32 x = Endian.little.toBig kHeaderLen x := by
  simp only [bswap32, kHeaderLen, Endian.toBig, highFirst, lowFirst, List.reverse_cons, List.reverse_nil,
    List.nil_append, List.cons_append, ofLowFirst, List.map_cons, List.map_nil, Nat.ofDigits_cons,
    Nat.ofDigits_nil, UInt8.toNat_ofNat', Nat.div_div_eq_div_mul, Nat.reducePow, Nat.reduceMul]
  omega

/-- The length in front is the word of the first four bytes, from the highest. -/
theorem frameLength_header {data : List Byte} (h : data.length = kHeaderLen) (more : List Byte) :
    frameLength (data ++ more) = some (toInt32 (ofHighFirst data)) := by
  match data, h with
  | [b₀, b₁, b₂, b₃], _ =>
    have hword : ofHighFirst [b₀, b₁, b₂, b₃] =
        b₀.toNat * 2 ^ 24 + b₁.toNat * 2 ^ 16 + b₂.toNat * 2 ^ 8 + b₃.toNat := by
      simp only [ofHighFirst, List.reverse_cons, List.reverse_nil, List.nil_append, List.cons_append,
        ofLowFirst, List.map_cons, List.map_nil, Nat.ofDigits_cons, Nat.ofDigits_nil]
      omega
    rw [hword]
    rfl

/-- What the code reads at `peek()` is the length in front. -/
theorem frameLength_eq (h : kHeaderLen ≤ stream.length) :
    frameLength stream = some (toInt32 (networkToHost32 (loadInt32 (stream.take kHeaderLen)))) := by
  have hlen : (stream.take kHeaderLen).length = kHeaderLen := List.length_take_of_le h
  have hword := Endian.little.toBig_load (stream.take kHeaderLen)
  rw [hlen] at hword
  rw [networkToHost32, loadInt32_eq hlen, bswap32_eq, hword, ← frameLength_header hlen,
    List.take_append_drop]

/-- **One round**: it stops where no whole message is in front, and takes the one that is.  The
length that it reads in network order is the length in front, and it is never read outside the
buffer. -/
theorem onMessageRound_spec {n : Nat} {b : Buffer} (seen : Seen) (hin : b.Input n) :
    (∃ down, onMessageRound (seen, b) = .ok (.inr (⟨seen.messages, down⟩, b)) ∧
      ∀ len, ¬ Framed b.contents len) ∨
      ∃ len b', onMessageRound (seen, b) =
          .ok (.inl (⟨seen.messages ++ [(b.contents.drop kHeaderLen).take len], seen.down⟩, b')) ∧
        Framed b.contents len ∧ b'.Input n ∧ b'.contents = b.contents.drop (kHeaderLen + len) := by
  have hread : b.contents.length = b.readableBytes := hin.wf.length_contents
  unfold onMessageRound
  dsimp only
  split
  case isFalse hshort =>
    refine .inl ⟨seen.down, rfl, fun len hframe => ?_⟩
    have hall := hframe.2.2
    omega
  case isTrue hheader =>
    rw [← hread] at hheader
    have hlen := frameLength_eq hheader
    rw [Buffer.load_peek hin.wf hheader, Buffer.ok_bind]
    generalize toInt32 (networkToHost32 (loadInt32 (b.contents.take kHeaderLen))) = len at hlen ⊢
    split
    case isTrue hbad =>
      refine .inl ⟨true, rfl, fun len' hframe => ?_⟩
      have heq : some len = some (len' : Int) := hlen.symm.trans hframe.1
      have hrange := hframe.2.1
      simp only [Option.some.injEq] at heq
      omega
    case isFalse hgood =>
      obtain ⟨len, rfl⟩ : ∃ k : Nat, len = k := ⟨len.toNat, by omega⟩
      rw [Int.toNat_natCast, Buffer.addSize_eq (by simp only [kHeaderLen]; omega)]
      split
      case isTrue hall =>
        right
        obtain ⟨hin₁, hc₁⟩ := Buffer.input_retrieve hin kHeaderLen
        have hbody : len ≤ (b.retrieve kHeaderLen).contents.length := by
          rw [hc₁, List.length_drop]
          omega
        obtain ⟨hin₂, hc₂⟩ := Buffer.input_retrieve hin₁ len
        rw [hc₁, List.drop_drop] at hc₂
        refine ⟨len, (b.retrieve kHeaderLen).retrieve len, ?_, ⟨hlen, by omega, by omega⟩, hin₂, hc₂⟩
        rw [Buffer.load_peek hin₁.wf hbody, hc₁]
        rfl
      case isFalse hpart =>
        refine .inl ⟨seen.down, rfl, fun len' hframe => ?_⟩
        have heq : some (len : Int) = some (len' : Int) := hlen.symm.trans hframe.1
        have hall := hframe.2.2
        simp only [Option.some.injEq] at heq
        omega

/-- **One call decodes what is there**, and no round reads outside the buffer.  By induction on
what can be read. -/
theorem onMessage_spec {n : Nat} {b : Buffer} (seen : Seen) (h : b.Input n) :
    ∃ more down b', onMessage seen b = some (.ok (⟨seen.messages ++ more, down⟩, b')) ∧ b'.Input n ∧
      Decodes b.contents more b'.contents := by
  have hloop : ∃ r, onMessage seen b = some (.ok r) ∧ ∃ more, r.1.messages = seen.messages ++ more ∧
      r.2.Input n ∧ Decodes b.contents more r.2.contents := by
    refine loop_spec (I := fun s => s.2.Input n) (m := fun s => s.2.contents.length)
      (P := fun s (r : Seen × Buffer) => ∃ more, r.1.messages = s.1.messages ++ more ∧ r.2.Input n ∧
        Decodes s.2.contents more r.2.contents) ?_ _ (seen, b) h ?_
    · rintro ⟨seen, b⟩ (hin : b.Input n)
      rcases onMessageRound_spec seen hin with ⟨down, hround, hno⟩ | ⟨len, b', hround, hframe, hin', hc'⟩
      · exact .inr ⟨_, hround, [], (List.append_nil _).symm, hin, .stop hno⟩
      · refine .inl ⟨_, hround, hin', ?_, ?_⟩
        · have hall := hframe.2.2
          change b'.contents.length < b.contents.length
          rw [hc', List.length_drop]
          simp only [kHeaderLen] at hall ⊢
          omega
        · rintro r ⟨more, hmore, hin'', hdec⟩
          change Decodes b'.contents _ _ at hdec
          rw [hc'] at hdec
          refine ⟨_, ?_, hin'', .message len hframe hdec⟩
          rw [hmore, List.append_assoc]
          rfl
    · change b.contents.length < b.readableBytes + 1
      rw [h.wf.length_contents]
      exact Nat.lt_succ_self _
  obtain ⟨⟨⟨messages, down⟩, b'⟩, hr, more, rfl, hin', hdec⟩ := hloop
  exact ⟨more, down, b', hr, hin', hdec⟩

/-! ## 5. A stream in segments -/

theorem Decodes.stopped (h : Decodes stream messages rest) : ∀ len, ¬ Framed rest len := by
  induction h with
  | message len hframe next ih => exact ih
  | stop hno => exact hno

/-- **A run of the codec.**  An `append` fails only for a stream that no vector can hold; else
the messages are those of the whole stream, from the bytes that were left on.  By induction on
the segments, with `Decodes.append` for each. -/
theorem receiveAll_spec (segs : List (List Byte)) : ∀ {n : Nat} {b : Buffer} (seen : Seen), b.Input n →
    (∀ len, ¬ Framed b.contents len) →
    (∃ e, receiveAll (seen, b) segs = some (.error e) ∧
      2 ^ 63 ≤ Buffer.preAppendSize + (n + segs.flatten.length)) ∨
    ∃ more down b', receiveAll (seen, b) segs = some (.ok (⟨seen.messages ++ more, down⟩, b')) ∧
      Decodes (b.contents ++ segs.flatten) more b'.contents := by
  induction segs with
  | nil =>
    intro n b seen hin hno
    refine .inr ⟨[], seen.down, b, ?_, ?_⟩
    · rw [List.append_nil]
      rfl
    · rw [List.flatten_nil, List.append_nil]
      exact .stop hno
  | cons seg segs ih =>
    intro n b seen hin hno
    rw [List.flatten_cons, List.length_append]
    cases hst : b.append seg with
    | error e =>
      refine .inl ⟨e, ?_, ?_⟩
      · rw [receiveAll, List.foldlM_cons, receive, hst, error_then]
        rfl
      · by_contra hfits
        have hs : Buffer.preAppendSize + (n + seg.length) < 2 ^ 63 := by omega
        obtain ⟨b', hok, -⟩ := Buffer.input_append hin hs
        rw [hst] at hok
        cases hok
    | ok b₁ =>
      obtain ⟨hin₁, hc₁⟩ := Buffer.input_append_ok hin hst
      obtain ⟨more, down, b₂, hcall, hin₂, hdec⟩ := onMessage_spec seen hin₁
      have hstep : receiveAll (seen, b) (seg :: segs) =
          receiveAll (⟨seen.messages ++ more, down⟩, b₂) segs := by
        rw [receiveAll, List.foldlM_cons, receive, hst, ok_then, hcall]
        rfl
      rw [hstep]
      rcases ih ⟨seen.messages ++ more, down⟩ hin₂ hdec.stopped with
        ⟨e, herr, hbig⟩ | ⟨more', down', b', hrun, hdec'⟩
      · exact .inl ⟨e, herr, by omega⟩
      · refine .inr ⟨more ++ more', down', b', ?_, ?_⟩
        · rw [hrun, List.append_assoc]
        · rw [hc₁] at hdec
          rw [← List.append_assoc]
          exact hdec.append hdec'

/-! ## 6. What `send` makes -/

/-- The header that `send` prepends is read back as the length. -/
theorem frameLength_store {len : Nat} (h : len < 2 ^ 31) (more : List Byte) :
    frameLength (storeInt32 (hostToNetwork32 len) ++ more) = some (len : Int) := by
  have hbytes : storeInt32 (hostToNetwork32 len) = highFirst kHeaderLen len := by
    rw [storeInt32_eq, hostToNetwork32, bswap32_eq, Endian.store_toBig]
  have hfits : len < 256 ^ kHeaderLen := Nat.lt_trans h (by decide)
  rw [hbytes, frameLength_header (length_highFirst _ _), ofHighFirst_highFirst hfits, toInt32, if_pos h]

/-- `send` puts the length into the header space of a new buffer, whatever the receiver will say.
The code asserts nothing about the size. -/
theorem send_frame {message : List Byte} (h : message.length < 2 ^ 32) :
    send message = .ok (storeInt32 (hostToNetwork32 message.length) ++ message) := by
  have hs : Buffer.preAppendSize + (0 + message.length) < 2 ^ 63 := by
    simp only [Buffer.preAppendSize]
    omega
  obtain ⟨b₁, h₁, hin₁, hc₁⟩ := Buffer.input_append Buffer.input_new hs
  have hroom : (storeInt32 (hostToNetwork32 message.length)).length ≤ b₁.preAppendBytes := by
    have hheader := hin₁.header
    change 4 ≤ b₁.readIndex
    simp only [Buffer.preAppendSize] at hheader
    omega
  obtain ⟨b₂, h₂, -, hc₂⟩ := Buffer.prepend_spec hin₁.wf hroom
  have hmod : message.length % 2 ^ 32 = message.length := Nat.mod_eq_of_lt h
  unfold send
  dsimp only
  rw [h₁, Buffer.ok_bind, hmod, h₂, Buffer.ok_bind, hc₂, hc₁, Buffer.new_contents]
  rfl

/-- **`send` frames the message**: the header space of a new buffer has room for the length. -/
theorem send_spec {message : List Byte} (h : message.length ≤ 65536) :
    send message = .ok (storeInt32 (hostToNetwork32 message.length) ++ message) :=
  send_frame (by omega)

theorem sendAll_spec (messages : List (List Byte)) (h : ∀ m ∈ messages, m.length ≤ 65536) :
    ∃ stream, sendAll messages = .ok stream ∧ Decodes stream messages [] := by
  induction messages with
  | nil =>
    refine ⟨[], rfl, .stop fun len hframe => ?_⟩
    cases hframe.1
  | cons m messages ih =>
    obtain ⟨hm, hrest⟩ := List.forall_mem_cons.mp h
    obtain ⟨stream, hsend, hdec⟩ := ih hrest
    refine ⟨storeInt32 (hostToNetwork32 m.length) ++ m ++ stream, ?_, ?_⟩
    · rw [sendAll, send_spec hm, Buffer.ok_bind, hsend]
      rfl
    · have hlen : (storeInt32 (hostToNetwork32 m.length)).length = kHeaderLen := rfl
      have hframe : Framed (storeInt32 (hostToNetwork32 m.length) ++ m ++ stream) m.length := by
        refine ⟨?_, hm, ?_⟩
        · rw [List.append_assoc, frameLength_store (by omega)]
        · rw [List.length_append, List.length_append, hlen]
          omega
      have hbody : ((storeInt32 (hostToNetwork32 m.length) ++ m ++ stream).drop kHeaderLen).take
          m.length = m := by
        rw [List.append_assoc, List.drop_left' hlen, List.take_left' rfl]
      have hnext : (storeInt32 (hostToNetwork32 m.length) ++ m ++ stream).drop
          (kHeaderLen + m.length) = stream := by
        refine List.drop_left' ?_
        rw [List.length_append, hlen]
      have hdec' := Decodes.message m.length hframe (hnext.symm ▸ hdec)
      rwa [hbody] at hdec'

/-- **Length-header framing is a faithful stream code.**  However a stream is cut: the codec ends
(in an exception of `append` only if the stream is longer than a vector can be), it has passed on
the messages of the reference decoder and left exactly the undecoded suffix; and if the stream
was made by `send`, these are the messages that were sent, and nothing is left. -/
theorem framing (segs : List (List Byte)) :
    (∃ e, receiveAll ({}, Buffer.new) segs = some (.error e) ∧
      2 ^ 63 ≤ Buffer.preAppendSize + segs.flatten.length) ∨
    ∃ seen b, receiveAll ({}, Buffer.new) segs = some (.ok (seen, b)) ∧
      (∀ messages rest, Decodes segs.flatten messages rest ↔
        messages = seen.messages ∧ rest = b.contents) ∧
      ∀ messages : List (List Byte), (∀ m ∈ messages, m.length ≤ 65536) →
        ∃ stream, sendAll messages = .ok stream ∧
          (segs.flatten = stream → seen.messages = messages ∧ b.contents = []) := by
  have hstart : ∀ len, ¬ Framed (Buffer.new.contents) len := by
    intro len hframe
    rw [Buffer.new_contents] at hframe
    cases hframe.1
  rcases receiveAll_spec segs {} Buffer.input_new hstart with
    ⟨e, herr, hbig⟩ | ⟨more, down, b, hrun, hdec⟩
  · exact .inl ⟨e, herr, by omega⟩
  · rw [Buffer.new_contents, List.nil_append] at hdec
    refine .inr ⟨⟨more, down⟩, b, hrun, ?_, ?_⟩
    · intro messages rest
      constructor
      · intro h
        exact h.unique hdec
      · rintro ⟨rfl, rfl⟩
        exact hdec
    · intro messages hsmall
      obtain ⟨stream, hsend, hdec'⟩ := sendAll_spec messages hsmall
      refine ⟨stream, hsend, ?_⟩
      rintro rfl
      exact hdec.unique hdec'

end Suduo.LengthHeaderCodec
