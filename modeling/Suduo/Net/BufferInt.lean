/-
# Integers in a `Buffer`

`append_int_N`, `peek_int_N`, `read_int_N` and `prepend_int_N` of `net/Buffer.h`, with
`net/Endian.h`.  An integer is converted to an unsigned word, its bytes are swapped if the host
keeps the lowest first, the word is converted back, and its memory is copied.  A single byte is
copied as it is.

Whatever the host, each call comes to one of the calls for bytes (`appendInt_eq`, `prependInt_eq`,
`peekInt_eq`), and those are specified in `Buffer.lean`: growing, sliding and the reset of the
indices are theirs.  What is left for sequences is an induction over the integers.
-/
import Suduo.Lib.Endian
import Suduo.Net.BufferInput

namespace Suduo.Buffer

open Lib

/-! ## 1. The code -/

/-- What reading an integer can end in. -/
inductive IntError
  | buffer (e : Error)
  | assertion
  deriving DecidableEq, Repr

variable (host : Endian)

/-- `host_to_network_64`, `_32` and `_16`, for words of `n` bytes. -/
def hostToNetwork (n x : Nat) : Nat := host.toBig n x

/-- `network_to_host_64`, `_32` and `_16`. -/
def networkToHost (n x : Nat) : Nat := host.toBig n x

/-- The memory of a signed integer. -/
def memory (n : Nat) (data : Int) : List Byte := host.store n (unsigned n data)

/-- The signed integer that `memcpy` makes of this memory. -/
def ofMemory (n : Nat) (bytes : List Byte) : Int := signed n (host.load bytes)

/-- The `data` of `append_int` and `prepend_int`, for `n` bytes: converted to unsigned, swapped,
and converted back. -/
def networkInt (n : Nat) (x : Int) : Int := signed n (hostToNetwork host n (unsigned n x))

def appendInt64 (b : Buffer) (x : Int) : Except Error Buffer := b.append (memory host 8 (networkInt host 8 x))

def appendInt32 (b : Buffer) (x : Int) : Except Error Buffer := b.append (memory host 4 (networkInt host 4 x))

def appendInt16 (b : Buffer) (x : Int) : Except Error Buffer := b.append (memory host 2 (networkInt host 2 x))

def appendInt8 (b : Buffer) (x : Int) : Except Error Buffer := b.append (memory host 1 x)

def prependInt64 (b : Buffer) (x : Int) : Except Error Buffer := b.prepend (memory host 8 (networkInt host 8 x))

def prependInt32 (b : Buffer) (x : Int) : Except Error Buffer := b.prepend (memory host 4 (networkInt host 4 x))

def prependInt16 (b : Buffer) (x : Int) : Except Error Buffer := b.prepend (memory host 2 (networkInt host 2 x))

def prependInt8 (b : Buffer) (x : Int) : Except Error Buffer := b.prepend (memory host 1 x)

/-- `peek_int_64` and its likes: `n` bytes at `peek()`, which need not be readable. -/
def peekWord (n : Nat) (b : Buffer) : Except IntError Int := do
  let bytes ← (load b.buffer b.readIndex (b.readIndex + n)).mapError .buffer
  let data := ofMemory host n bytes
  return signed n (networkToHost host n (unsigned n data))

def peekInt64 (b : Buffer) : Except IntError Int := peekWord host 8 b

def peekInt32 (b : Buffer) : Except IntError Int := peekWord host 4 b

/-- The only one that asserts that there is something to read. -/
def peekInt16 (b : Buffer) : Except IntError Int :=
  if 2 ≤ b.readableBytes then peekWord host 2 b else .error .assertion

def peekInt8 (b : Buffer) : Except IntError Int := do
  let bytes ← (load b.buffer b.readIndex (b.readIndex + 1)).mapError .buffer
  return ofMemory host 1 bytes

def retrieveInt64 (b : Buffer) : Buffer := b.retrieve 8

def retrieveInt32 (b : Buffer) : Buffer := b.retrieve 4

def retrieveInt16 (b : Buffer) : Buffer := b.retrieve 2

def retrieveInt8 (b : Buffer) : Buffer := b.retrieve 1

def readInt64 (b : Buffer) : Except IntError (Int × Buffer) := do
  let result ← peekInt64 host b
  return (result, b.retrieveInt64)

def readInt32 (b : Buffer) : Except IntError (Int × Buffer) := do
  let result ← peekInt32 host b
  return (result, b.retrieveInt32)

def readInt16 (b : Buffer) : Except IntError (Int × Buffer) := do
  let result ← peekInt16 host b
  return (result, b.retrieveInt16)

def readInt8 (b : Buffer) : Except IntError (Int × Buffer) := do
  let result ← peekInt8 host b
  return (result, b.retrieveInt8)

/-! ## 2. Tagged integers -/

inductive Width
  | int8 | int16 | int32 | int64
  deriving DecidableEq, Repr

def Width.bytes : Width → Nat
  | .int8 => 1
  | .int16 => 2
  | .int32 => 4
  | .int64 => 8

/-- A signed integer of one of the widths. -/
structure TaggedInt where
  width : Width
  value : Int
  fits : -2 ^ (8 * width.bytes - 1) ≤ value ∧ value < 2 ^ (8 * width.bytes - 1)

def appendInt (b : Buffer) : Width → Int → Except Error Buffer
  | .int8, x => appendInt8 host b x
  | .int16, x => appendInt16 host b x
  | .int32, x => appendInt32 host b x
  | .int64, x => appendInt64 host b x

def prependInt (b : Buffer) : Width → Int → Except Error Buffer
  | .int8, x => prependInt8 host b x
  | .int16, x => prependInt16 host b x
  | .int32, x => prependInt32 host b x
  | .int64, x => prependInt64 host b x

def peekInt (b : Buffer) : Width → Except IntError Int
  | .int8 => peekInt8 host b
  | .int16 => peekInt16 host b
  | .int32 => peekInt32 host b
  | .int64 => peekInt64 host b

def readInt (b : Buffer) : Width → Except IntError (Int × Buffer)
  | .int8 => readInt8 host b
  | .int16 => readInt16 host b
  | .int32 => readInt32 host b
  | .int64 => readInt64 host b

def appendInts (b : Buffer) (xs : List TaggedInt) : Except Error Buffer :=
  xs.foldlM (fun b x => appendInt host b x.width x.value) b

def prependInts (b : Buffer) (xs : List TaggedInt) : Except Error Buffer :=
  xs.foldlM (fun b x => prependInt host b x.width x.value) b

def readInts (b : Buffer) : List Width → Except IntError (List Int × Buffer)
  | [] => return ([], b)
  | w :: ws => do
    let (x, b) ← readInt host b w
    let (xs, b) ← readInts b ws
    return (x :: xs, b)

/-- The bytes of an integer on the wire: its two's complement, from the highest byte. -/
def encode (x : TaggedInt) : List Byte := highFirst x.width.bytes (unsigned x.width.bytes x.value)

def encodeAll (xs : List TaggedInt) : List Byte := xs.flatMap encode

@[simp] theorem length_encode (x : TaggedInt) : (encode x).length = x.width.bytes := length_highFirst _ _

/-! ## 3. One integer -/

variable {host} {b : Buffer} {n : Nat}

/-- On any host the memory of the converted integer is its encoding.  The two conversions to and
from signed cancel, and what is left is `store_toBig`. -/
theorem memory_networkInt (n : Nat) (x : Int) : memory host n (networkInt host n x) = highFirst n (unsigned n x) := by
  rw [memory, networkInt, hostToNetwork, unsigned_signed (Endian.toBig_lt (unsigned_lt n x)),
    Endian.store_toBig]

theorem memory_one (x : Int) : memory host 1 x = highFirst 1 (unsigned 1 x) := Endian.store_one host _

theorem appendInt_eq (b : Buffer) (x : TaggedInt) :
    appendInt host b x.width x.value = b.append (encode x) := by
  rw [encode]
  cases x.width with
  | int8 => exact congrArg b.append (memory_one _)
  | int16 => exact congrArg b.append (memory_networkInt 2 _)
  | int32 => exact congrArg b.append (memory_networkInt 4 _)
  | int64 => exact congrArg b.append (memory_networkInt 8 _)

theorem prependInt_eq (b : Buffer) (x : TaggedInt) :
    prependInt host b x.width x.value = b.prepend (encode x) := by
  rw [encode]
  cases x.width with
  | int8 => exact congrArg b.prepend (memory_one _)
  | int16 => exact congrArg b.prepend (memory_networkInt 2 _)
  | int32 => exact congrArg b.prepend (memory_networkInt 4 _)
  | int64 => exact congrArg b.prepend (memory_networkInt 8 _)

/-- The integer that bytes on the wire stand for: the first byte is the highest, and its highest
bit the sign. -/
def decode (bytes : List Byte) : Int := signed bytes.length (ofHighFirst bytes)

theorem decode_encode (x : TaggedInt) : decode (encode x) = x.value := by
  have hfits : -(256 ^ x.width.bytes : Nat) ≤ x.value * 2 ∧ x.value * 2 < (256 ^ x.width.bytes : Nat) := by
    obtain ⟨w, v, hle, hlt⟩ := x
    cases w <;> simp only [Width.bytes] at hle hlt ⊢ <;> omega
  rw [decode, length_encode, encode, ofHighFirst_highFirst (unsigned_lt _ _), signed_unsigned hfits.1 hfits.2]

theorem peekWord_eq (h : b.Wf) (hn : n ≤ b.contents.length) :
    peekWord host n b = .ok (decode (b.contents.take n)) := by
  have hlen : (b.contents.take n).length = n := List.length_take_of_le hn
  have hword : host.load (b.contents.take n) < 256 ^ n := by
    have hlt := host.load_lt (b.contents.take n)
    rwa [hlen] at hlt
  have hbig := host.toBig_load (b.contents.take n)
  rw [hlen] at hbig
  rw [peekWord, load_peek h hn]
  change Except.ok (signed n (host.toBig n (unsigned n (signed n (host.load (b.contents.take n)))))) = _
  rw [unsigned_signed hword, hbig, decode, hlen]

/-- **What `peek_int` returns**, of each width: the first bytes of the contents, decoded. -/
theorem peekInt_eq (h : b.Wf) {w : Width} (hw : w.bytes ≤ b.contents.length) :
    peekInt host b w = .ok (decode (b.contents.take w.bytes)) := by
  cases w with
  | int8 =>
    have hone : 1 ≤ b.contents.length := hw
    have hlen : (b.contents.take 1).length = 1 := List.length_take_of_le hone
    rw [peekInt, peekInt8, load_peek h hone]
    change Except.ok (signed 1 (host.load (b.contents.take 1))) = Except.ok (decode (b.contents.take 1))
    rw [Endian.load_one host hlen, decode, hlen]
  | int16 =>
    have hread : 2 ≤ b.readableBytes := h.length_contents ▸ hw
    rw [peekInt, peekInt16, if_pos hread]
    exact peekWord_eq h hw
  | int32 => exact peekWord_eq h hw
  | int64 => exact peekWord_eq h hw

/-- `read_int` is `peek_int`, and then the bytes are gone. -/
theorem readInt_eq (b : Buffer) (w : Width) :
    readInt host b w = (peekInt host b w).map fun x => (x, b.retrieve w.bytes) := by
  cases w with
  | int8 => exact (map_eq_pure_bind (fun x => (x, b.retrieve 1)) (peekInt8 host b)).symm
  | int16 => exact (map_eq_pure_bind (fun x => (x, b.retrieve 2)) (peekInt16 host b)).symm
  | int32 => exact (map_eq_pure_bind (fun x => (x, b.retrieve 4)) (peekInt32 host b)).symm
  | int64 => exact (map_eq_pure_bind (fun x => (x, b.retrieve 8)) (peekInt64 host b)).symm

/-! ## 4. Sequences -/

/-- **Appending** makes the encodings, one behind the other; or the vector would have to be
larger than `max_size`, and then the integer that does not fit is not appended at all. -/
theorem appendInts_spec (xs : List TaggedInt) : ∀ {b : Buffer}, b.Wf →
    2 ^ 63 ≤ b.writeIndex + (encodeAll xs).length ∧ appendInts host b xs = .error .lengthError ∨
      ∃ b', appendInts host b xs = .ok b' ∧ b'.Wf ∧ b'.contents = b.contents ++ encodeAll xs := by
  induction xs with
  | nil =>
    intro b h
    refine .inr ⟨b, rfl, h, ?_⟩
    rw [encodeAll, List.flatMap_nil, List.append_nil]
  | cons x xs ih =>
    intro b h
    have hsmall : (encode x).length < 2 ^ 63 := by
      rw [length_encode]
      cases x.width <;> decide
    have hsplit : encodeAll (x :: xs) = encode x ++ encodeAll xs := List.flatMap_cons
    rw [appendInts, List.foldlM_cons, appendInt_eq, hsplit, List.length_append]
    rcases append_total h hsmall with ⟨hbig, herr⟩ | ⟨b₁, hst, hwf, hc⟩
    · rw [herr]
      exact .inl ⟨by omega, rfl⟩
    · have hend := append_writeIndex h hst
      rw [hst, ok_bind]
      rcases ih hwf with ⟨hbig, herr⟩ | ⟨b', hrest, hwf', hc'⟩
      · exact .inl ⟨by omega, herr⟩
      · refine .inr ⟨b', hrest, hwf', ?_⟩
        rw [hc', hc, List.append_assoc]

/-- **Reading** takes them off again.  The tags say where each integer ends, so what comes later
is not touched. -/
theorem readInts_spec (xs : List TaggedInt) (later : List Byte) : ∀ {b : Buffer}, b.Wf →
    b.contents = encodeAll xs ++ later →
    ∃ b', readInts host b (xs.map TaggedInt.width) = .ok (xs.map TaggedInt.value, b') ∧ b'.Wf ∧
      b'.contents = later := by
  induction xs with
  | nil => exact fun {b} h hc => ⟨b, rfl, h, hc⟩
  | cons x xs ih =>
    intro b h hc
    rw [encodeAll, List.flatMap_cons, List.append_assoc] at hc
    have hlen := length_encode x
    have hw : x.width.bytes ≤ b.contents.length := by
      rw [hc, List.length_append, hlen]
      omega
    have hfirst : b.contents.take x.width.bytes = encode x := by
      rw [hc, ← hlen, List.take_left]
    have hrest : b.contents.drop x.width.bytes = encodeAll xs ++ later := by
      rw [hc, ← hlen, List.drop_left]
      rfl
    obtain ⟨hwf, hdrop⟩ := retrieve_spec h x.width.bytes
    obtain ⟨b', hread, hwf', hc'⟩ := ih hwf (hdrop.trans hrest)
    refine ⟨b', ?_, hwf', hc'⟩
    rw [List.map_cons, readInts, readInt_eq, peekInt_eq h hw, hfirst, decode_encode]
    change (readInts host (b.retrieve x.width.bytes) (xs.map TaggedInt.width) >>= _) = _
    rw [hread]
    rfl

theorem prepend_readIndex {b' : Buffer} {data : List Byte} (h : b.Wf) (hd : data.length ≤ b.preAppendBytes)
    (hst : b.prepend data = .ok b') : b'.preAppendBytes = b.preAppendBytes - data.length := by
  have hle := h.le
  have hbound := h.bound
  have hsmall := h.small
  have hfits : b.readIndex < 2 ^ 64 := by omega
  have hsub : subSize b.readIndex data.length = b.readIndex - data.length := subSize_eq hd hfits
  rw [prepend, hsub] at hst
  obtain ⟨v, -, hb'⟩ := bind_eq_ok.mp hst
  exact (congrArg Buffer.readIndex (Except.ok.inj hb')).symm

/-- **Prepending** puts each in front of those before it, while there is room in front; so the
list is given in reverse. -/
theorem prependInts_spec (xs : List TaggedInt) {b : Buffer} (h : b.Wf)
    (hroom : (encodeAll xs).length ≤ b.preAppendBytes) :
    ∃ b', prependInts host b xs.reverse = .ok b' ∧ b'.Wf ∧ b'.contents = encodeAll xs ++ b.contents ∧
      b'.preAppendBytes = b.preAppendBytes - (encodeAll xs).length := by
  induction xs with
  | nil => exact ⟨b, rfl, h, rfl, rfl⟩
  | cons x xs ih =>
    have hsplit : encodeAll (x :: xs) = encode x ++ encodeAll xs := List.flatMap_cons
    rw [hsplit, List.length_append] at hroom ⊢
    obtain ⟨b₁, hst, hwf, hc, hleft⟩ := ih (by omega)
    have hfront : (encode x).length ≤ b₁.preAppendBytes := by omega
    obtain ⟨b', hlast, hwf', hc'⟩ := prepend_spec hwf hfront
    refine ⟨b', ?_, hwf', ?_, ?_⟩
    · rw [prependInts] at hst
      rw [prependInts, List.reverse_cons, List.foldlM_append, hst, ok_bind, List.foldlM_cons, prependInt_eq,
        hlast]
      rfl
    · rw [hc', hc, List.append_assoc]
    · rw [prepend_readIndex hwf hfront hlast, hleft]
      omega

/-- **Integers survive the buffer**, on a host of either kind.  Integers that are appended stand
behind what was there as their encodings, unless the vector cannot grow that far.  Read with the
same tags when what was there is gone, they come back in order, and what was appended later is left.
`peek_int` returns what `read_int` does.  And prepended in reverse order, while they fit into the
space in front, they make the bytes that appending them in order to an empty buffer makes, before
the contents.

Everything goes through the encoding, which does not depend on the host: appending makes it
(`memory_networkInt`), reading undoes it (`decode_encode`), and growing, sliding and the reset of
the indices are those of the calls for bytes. -/
theorem integers_survive (host : Endian) (xs : List TaggedInt) :
    (∀ b : Buffer, b.Wf →
      2 ^ 63 ≤ b.writeIndex + (encodeAll xs).length ∧ appendInts host b xs = .error .lengthError ∨
        ∃ b', appendInts host b xs = .ok b' ∧ b'.Wf ∧ b'.contents = b.contents ++ encodeAll xs) ∧
    (∀ (b b₁ b₂ : Buffer) (later : List Byte), b.Wf → appendInts host b xs = .ok b₁ →
      b₁.append later = .ok b₂ →
      ∃ b₃, readInts host (b₂.retrieve b.contents.length) (xs.map TaggedInt.width) =
        .ok (xs.map TaggedInt.value, b₃) ∧ b₃.contents = later) ∧
    (∀ (b : Buffer) (w : Width),
      readInt host b w = (peekInt host b w).map (fun x => (x, b.retrieve w.bytes)) ∧
        (b.Wf → w.bytes ≤ b.readableBytes →
          ∃ x, peekInt host b w = .ok x ∧ readInt host b w = .ok (x, b.retrieve w.bytes))) ∧
    ∀ b b₀ : Buffer, b.Wf → b₀.Wf → b₀.contents = [] → (encodeAll xs).length ≤ b.preAppendBytes →
      ∃ b', prependInts host b xs.reverse = .ok b' ∧ b'.contents = encodeAll xs ++ b.contents ∧
        ∀ b₁ b₂, appendInts host b₀ xs = .ok b₁ → b₁.append b.contents = .ok b₂ →
          b'.contents = b₂.contents := by
  have happended {b b₁ : Buffer} (h : b.Wf) (hst : appendInts host b xs = .ok b₁) :
      b₁.Wf ∧ b₁.contents = b.contents ++ encodeAll xs := by
    rcases appendInts_spec xs h with ⟨-, herr⟩ | ⟨b', hok, hspec⟩
    · rw [hst] at herr
      cases herr
    · rw [hst] at hok
      cases hok
      exact hspec
  refine ⟨fun b h => appendInts_spec xs h, ?_, ?_, ?_⟩
  · intro b b₁ b₂ later h hst hlater
    obtain ⟨hwf₁, hc₁⟩ := happended h hst
    obtain ⟨hwf₂, hc₂⟩ := append_ok hwf₁ hlater
    obtain ⟨hwf, hdrop⟩ := retrieve_spec hwf₂ b.contents.length
    rw [hc₂, hc₁, List.append_assoc, List.drop_left] at hdrop
    obtain ⟨b₃, hread, -, hc₃⟩ := readInts_spec xs later hwf hdrop
    exact ⟨b₃, hread, hc₃⟩
  · intro b w
    refine ⟨readInt_eq b w, fun h hw => ?_⟩
    have hpeek := @peekInt_eq host b h w (h.length_contents ▸ hw)
    refine ⟨_, hpeek, ?_⟩
    rw [readInt_eq, hpeek]
    rfl
  · intro b b₀ h h₀ hempty hroom
    obtain ⟨b', hst, -, hc, -⟩ := prependInts_spec xs h hroom
    refine ⟨b', hst, hc, fun b₁ b₂ hst₁ hst₂ => ?_⟩
    obtain ⟨hwf₁, hc₁⟩ := happended h₀ hst₁
    rw [hc, (append_ok hwf₁ hst₂).2, hc₁, hempty, List.nil_append]

/-- Three negative integers, and their seven bytes. -/
def negatives : List TaggedInt :=
  [⟨.int8, -1, by decide⟩, ⟨.int16, -2, by decide⟩, ⟨.int32, -3, by decide⟩]

theorem encodeAll_negatives : encodeAll negatives = [255, 255, 254, 255, 255, 255, 253] := by decide

theorem integers_survive_negatives : ∃ b₁ b₂ b₃ b₄ : Buffer,
    appendInts .little Buffer.new negatives = .ok b₁ ∧ b₁.append [] = .ok b₂ ∧
      b₁.contents = [255, 255, 254, 255, 255, 255, 253] ∧
      readInts .little (b₂.retrieve 0) [.int8, .int16, .int32] = .ok ([-1, -2, -3], b₃) ∧
      b₃.contents = [] ∧ (∃ x, peekInt .little b₁ .int8 = .ok x) ∧
      prependInts .little Buffer.new negatives.reverse = .ok b₄ ∧ b₄.contents = b₁.contents := by
  obtain ⟨happend, hread, hpeek, hprepend⟩ := integers_survive .little negatives
  have hnew : Buffer.new.Wf := new_wf initSize
  have hfits : Buffer.new.writeIndex + (encodeAll negatives).length < 2 ^ 63 := by
    rw [encodeAll_negatives]
    decide
  have hroom : (encodeAll negatives).length ≤ Buffer.new.preAppendBytes := by
    rw [encodeAll_negatives]
    decide
  rcases happend Buffer.new hnew with ⟨hbig, -⟩ | ⟨b₁, hst₁, hwf₁, hc₁⟩
  · omega
  · rw [encodeAll_negatives, new_contents, List.nil_append] at hc₁
    have hend : b₁.writeIndex + ([] : List Byte).length < 2 ^ 63 :=
      Nat.lt_of_le_of_lt hwf₁.bound hwf₁.small
    have hbytes : Width.int8.bytes ≤ b₁.readableBytes := by
      rw [← hwf₁.length_contents, hc₁]
      decide
    obtain ⟨b₂, hst₂, -, -⟩ := append_spec hwf₁ hend
    obtain ⟨b₃, hst₃, hc₃⟩ := hread Buffer.new b₁ b₂ [] hnew hst₁ hst₂
    obtain ⟨x, hx, -⟩ := (hpeek b₁ .int8).2 hwf₁ hbytes
    obtain ⟨b₄, hst₄, hc₄, -⟩ := hprepend Buffer.new Buffer.new hnew hnew (new_contents initSize) hroom
    rw [new_contents, List.length_nil] at hst₃
    rw [encodeAll_negatives, new_contents, List.append_nil] at hc₄
    exact ⟨b₁, b₂, b₃, b₄, hst₁, hst₂, hc₁, hst₃, hc₃, ⟨x, hx⟩, hst₄, hc₄.trans hc₁.symm⟩

end Suduo.Buffer
