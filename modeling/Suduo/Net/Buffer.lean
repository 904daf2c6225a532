/-
# `Buffer`: one vector, two indices

`net/Buffer.h` and `Buffer::read_fd` of `net/Buffer.cpp`.  The readable bytes lie between
`read_index` and `write_index`; in front of them is the header space for `prepend`, behind them
the writeable space.  Everything moves the same two indices: `retrieve` forward, `prepend` and
`unwrite` back, `retrieve_all` to the start, and `make_space` either grows the vector or slides the
readable bytes down to the header.

The model computes as the code does: `size_t` wraps at `2 ^ 64`, `vector::resize` throws above
`max_size`, and every copy names the range it reads and the range it writes.  A copy that leaves
the vector, or a forward `std::copy` into its own source range, is `Error.badCopy`; so the
statement that all copies stay in bounds is that no operation answers `badCopy`.

`Wf` is the index invariant.  Under it each operation has ONE lemma, its specification: the
operation returns, keeps `Wf`, and does to `contents` what the list operation does.  The module
`BufferQueue` runs these into the refinement of a byte queue.
-/
import Suduo.Lib.Slice
import Mathlib.Algebra.Order.Ring.Nat
import Mathlib.Data.List.DropRight

namespace Suduo

open Lib

/-! ## 1. The code -/

/-- What a `Buffer` operation can end in instead of returning. -/
inductive Buffer.Error
  /-- `std::length_error` from `vector::resize`. -/
  | lengthError
  /-- A copy outside the vector, or onto its own source. -/
  | badCopy
  deriving DecidableEq, Repr

/-- `suduo::net::Buffer`. -/
structure Buffer where
  buffer : List Byte
  readIndex : Nat
  writeIndex : Nat
  deriving DecidableEq, Repr

namespace Buffer

/-- `size_t` addition. -/
def addSize (a b : Nat) : Nat := (a + b) % 2 ^ 64

/-- `size_t` subtraction. -/
def subSize (a b : Nat) : Nat := (a + 2 ^ 64 - b) % 2 ^ 64

/-- `vector<char>::max_size()`. -/
def maxSize : Nat := 2 ^ 63 - 1

def initSize : Nat := 1024

def preAppendSize : Nat := 8

/-- `sizeof(extrabuf)` in `read_fd`. -/
def extrabufSize : Nat := 65536

/-- `Buffer::Buffer`.  The size asked for is not used. -/
def new (_size : Nat := initSize) : Buffer :=
  ⟨List.replicate (addSize preAppendSize initSize) 0, preAppendSize, preAppendSize⟩

def readableBytes (b : Buffer) : Nat := subSize b.writeIndex b.readIndex

def writeadbleBytes (b : Buffer) : Nat := subSize b.buffer.length b.writeIndex

def preAppendBytes (b : Buffer) : Nat := b.readIndex

/-- Read the range `[first, last)` of a vector. -/
def load (v : List Byte) (first last : Nat) : Except Error (List Byte) :=
  if first ≤ last ∧ last ≤ v.length then .ok (slice v first last) else .error .badCopy

/-- Copy `d` to the range that starts at `dest`. -/
def store (v : List Byte) (dest : Nat) (d : List Byte) : Except Error (List Byte) :=
  if dest + d.length ≤ v.length then .ok (overwrite v dest d) else .error .badCopy

/-- `std::copy` within one vector; its destination may not lie in the source range. -/
def copyWithin (v : List Byte) (first last dest : Nat) : Except Error (List Byte) :=
  if first ≤ dest ∧ dest < last then .error .badCopy
  else do
    let d ← load v first last
    store v dest d

/-- `vector::resize`. -/
def resize (v : List Byte) (n : Nat) : Except Error (List Byte) :=
  if n ≤ maxSize then .ok (v.take n ++ List.replicate (n - v.length) 0) else .error .lengthError

def retrieveAll (b : Buffer) : Buffer :=
  { b with readIndex := preAppendSize, writeIndex := preAppendSize }

def retrieve (b : Buffer) (len : Nat) : Buffer :=
  if len < b.readableBytes then { b with readIndex := addSize b.readIndex len }
  else b.retrieveAll

/-- `retrieve_until`; `stop` is the offset of the pointer `end` from `begin()`. -/
def retrieveUntil (b : Buffer) (stop : Nat) : Buffer := b.retrieve (subSize stop b.readIndex)

def retrieveAsString (b : Buffer) (len : Nat) : Except Error (List Byte × Buffer) := do
  let result ← load b.buffer b.readIndex (b.readIndex + len)
  return (result, b.retrieve len)

def retrieveAllAsString (b : Buffer) : Except Error (List Byte × Buffer) :=
  b.retrieveAsString b.readableBytes

def makeSpace (b : Buffer) (len : Nat) : Except Error Buffer :=
  if addSize b.writeadbleBytes b.preAppendBytes < addSize len preAppendSize then do
    let v ← resize b.buffer (addSize b.writeIndex len)
    return { b with buffer := v }
  else do
    let readable := b.readableBytes
    let v ← copyWithin b.buffer b.readIndex b.writeIndex preAppendSize
    return ⟨v, preAppendSize, addSize preAppendSize readable⟩

def ensureWriteableBytes (b : Buffer) (len : Nat) : Except Error Buffer :=
  if b.writeadbleBytes < len then b.makeSpace len else .ok b

def hasWritten (b : Buffer) (len : Nat) : Buffer :=
  { b with writeIndex := addSize b.writeIndex len }

def unwrite (b : Buffer) (len : Nat) : Buffer :=
  { b with writeIndex := subSize b.writeIndex len }

/-- Copy `data` to `write_begin()`: the middle of `append`, and what a caller of `has_written`
does first. -/
def writeAtBegin (b : Buffer) (data : List Byte) : Except Error Buffer := do
  let v ← store b.buffer b.writeIndex data
  return { b with buffer := v }

def append (b : Buffer) (data : List Byte) : Except Error Buffer := do
  let b ← b.ensureWriteableBytes data.length
  let b ← b.writeAtBegin data
  return b.hasWritten data.length

def prepend (b : Buffer) (data : List Byte) : Except Error Buffer := do
  let r := subSize b.readIndex data.length
  let v ← store b.buffer r data
  return { b with buffer := v, readIndex := r }

/-- `to_string`. -/
def toBytes (b : Buffer) : Except Error (List Byte) := load b.buffer b.readIndex b.writeIndex

/-- `shrink`: what `swap(other)` leaves in `*this`. -/
def shrink (b : Buffer) (reserve : Nat) : Except Error Buffer := do
  let other ← new.ensureWriteableBytes (addSize b.readableBytes reserve)
  other.append (← b.toBytes)

/-- `swap`. -/
def swap (b rhs : Buffer) : Buffer × Buffer :=
  (⟨rhs.buffer, rhs.readIndex, rhs.writeIndex⟩, ⟨b.buffer, b.readIndex, b.writeIndex⟩)

/-- The total length of the iovecs `read_fd` passes to `readv`. -/
def iovLength (b : Buffer) : Nat :=
  if b.writeadbleBytes < extrabufSize then b.writeadbleBytes + extrabufSize
  else b.writeadbleBytes

/-- `readv` reads no more than the iovecs hold. -/
def fitsIov (b : Buffer) : Except Nat (List Byte) → Bool
  | .ok data => data.length ≤ b.iovLength
  | .error _ => true

/-- `read_fd`, given what `readv` does: fail with an errno, or read `data`, filling the writeable
part of the vector first and `extrabuf` after it.  Returns `n` and what is stored to
`*saved_errno`, if anything is. -/
def readFd (b : Buffer) : Except Nat (List Byte) → Except Error (Int × Option Nat × Buffer)
  | .error errno => .ok (-1, some errno, b)
  | .ok data =>
    let writeable := b.writeadbleBytes
    if data.length ≤ writeable then do
      let b ← b.writeAtBegin data
      return (data.length, none, b.hasWritten data.length)
    else do
      let b ← b.writeAtBegin (data.take writeable)
      let b ← { b with writeIndex := b.buffer.length }.append (data.drop writeable)
      return (data.length, none, b)

/-! ## 2. The index invariant and the contents -/

/-- `read_index <= write_index <= _buffer.size()`, the header fits, and no `size_t` sum of two
sizes wraps.  The last is what makes the code's arithmetic that of numbers, and it holds because
a vector is never larger than `max_size`. -/
structure Wf (b : Buffer) : Prop where
  le : b.readIndex ≤ b.writeIndex
  bound : b.writeIndex ≤ b.buffer.length
  header : preAppendSize ≤ b.buffer.length
  small : b.buffer.length < 2 ^ 63

/-- The readable bytes.  All specifications below are in terms of these, so whoever uses a
`Buffer` does not see where in the vector they lie. -/
def contents (b : Buffer) : List Byte := slice b.buffer b.readIndex b.writeIndex

variable {b : Buffer}

theorem addSize_eq {x y : Nat} (h : x + y < 2 ^ 64) : addSize x y = x + y :=
  Nat.mod_eq_of_lt h

theorem subSize_eq {x y : Nat} (h : y ≤ x) (hx : x < 2 ^ 64) : subSize x y = x - y := by
  have : x + 2 ^ 64 - y = x - y + 2 ^ 64 := by omega
  rw [subSize, this, Nat.add_mod_right]
  exact Nat.mod_eq_of_lt (by omega)

theorem Wf.readable (h : b.Wf) : b.readableBytes = b.writeIndex - b.readIndex := by
  have := h.bound
  have := h.small
  exact subSize_eq h.le (by omega)

theorem Wf.writeable (h : b.Wf) : b.writeadbleBytes = b.buffer.length - b.writeIndex := by
  have := h.small
  exact subSize_eq h.bound (by omega)

theorem Wf.length_contents (h : b.Wf) : b.contents.length = b.readableBytes := by
  rw [contents, length_slice h.bound, h.readable]

@[simp] theorem new_length (n : Nat) : (new n).buffer.length = preAppendSize + initSize := by
  rw [new, List.length_replicate, addSize_eq (by decide)]

theorem new_wf (n : Nat) : (new n).Wf := by
  refine ⟨Nat.le_refl _, ?_, ?_, ?_⟩
  · rw [new_length]; exact Nat.le_add_right _ _
  · rw [new_length]; exact Nat.le_add_right _ _
  · rw [new_length]; decide

@[simp] theorem new_contents (n : Nat) : (new n).contents = [] := by simp [contents, new]

/-- Peels one returned value off a `do` block. -/
theorem ok_bind {ε α β : Type} (a : α) (f : α → Except ε β) :
    (Except.ok a >>= f) = f a := rfl

theorem bind_eq_ok {ε α β : Type} {x : Except ε α} {f : α → Except ε β} {r : β} :
    (x >>= f) = .ok r ↔ ∃ a, x = .ok a ∧ f a = .ok r := by
  constructor
  · intro h
    cases x with
    | error e => cases h
    | ok a => exact ⟨a, rfl, h⟩
  · rintro ⟨a, rfl, h⟩
    exact h

theorem load_eq {v : List Byte} {first last : Nat} (h : first ≤ last) (hl : last ≤ v.length) :
    load v first last = .ok (slice v first last) := if_pos ⟨h, hl⟩

theorem store_eq {v d : List Byte} {dest : Nat} (h : dest + d.length ≤ v.length) :
    store v dest d = .ok (overwrite v dest d) := if_pos h

/-! ## 3. One specification for each operation -/

theorem retrieveAll_spec (h : b.Wf) : b.retrieveAll.Wf ∧ b.retrieveAll.contents = [] :=
  ⟨⟨Nat.le_refl _, h.header, h.header, h.small⟩, slice_self _ _⟩

/-- `retrieve` drops from the front, and everything when asked for more. -/
theorem retrieve_spec (h : b.Wf) (len : Nat) :
    (b.retrieve len).Wf ∧ (b.retrieve len).contents = b.contents.drop len := by
  unfold retrieve
  split
  · rename_i hlt
    have hread := h.readable
    have hadd : addSize b.readIndex len = b.readIndex + len := by
      have := h.bound
      have := h.small
      exact addSize_eq (by omega)
    rw [hadd]
    refine ⟨⟨?_, h.bound, h.header, h.small⟩, (drop_slice _ _ _ _).symm⟩
    change b.readIndex + len ≤ b.writeIndex
    omega
  · rename_i hge
    refine ⟨(retrieveAll_spec h).1, ?_⟩
    rw [(retrieveAll_spec h).2, eq_comm, List.drop_eq_nil_iff, h.length_contents]
    omega

/-- `retrieve_until` a pointer `k` bytes after `peek()` drops `k` bytes. -/
theorem retrieveUntil_spec (h : b.Wf) {k : Nat} (hk : b.readIndex + k < 2 ^ 64) :
    (b.retrieveUntil (b.readIndex + k)).Wf ∧
      (b.retrieveUntil (b.readIndex + k)).contents = b.contents.drop k := by
  have : subSize (b.readIndex + k) b.readIndex = k := by
    rw [subSize_eq (Nat.le_add_right _ _) hk, Nat.add_sub_cancel_left]
  rw [retrieveUntil, this]
  exact retrieve_spec h k

/-- `retrieve_as_string` returns the front it drops. -/
theorem retrieveAsString_spec (h : b.Wf) {len : Nat} (hlen : len ≤ b.readableBytes) :
    ∃ b', b.retrieveAsString len = .ok (b.contents.take len, b') ∧ b'.Wf ∧
      b'.contents = b.contents.drop len := by
  have hread := h.readable
  have hle := h.le
  have hbound := h.bound
  refine ⟨b.retrieve len, ?_, retrieve_spec h len⟩
  rw [retrieveAsString, load_eq (by omega) (by omega), contents, take_slice _ (by omega)]
  rfl

theorem retrieveAllAsString_spec (h : b.Wf) :
    ∃ b', b.retrieveAllAsString = .ok (b.contents, b') ∧ b'.Wf ∧ b'.contents = [] := by
  obtain ⟨b', heq, hwf, hc⟩ := retrieveAsString_spec h (Nat.le_refl _)
  have hfull : b.contents.length ≤ b.readableBytes := Nat.le_of_eq h.length_contents
  rw [List.take_of_length_le hfull] at heq
  rw [List.drop_of_length_le hfull] at hc
  exact ⟨b', heq, hwf, hc⟩

/-- Growing: the vector gets longer at its end, the indices stay. -/
theorem resize_spec (h : b.Wf) {n : Nat} (hn : b.buffer.length ≤ n) (hs : n < 2 ^ 63) :
    ∃ v, resize b.buffer n = .ok v ∧ v.length = n ∧ Wf { b with buffer := v } ∧
      contents { b with buffer := v } = b.contents := by
  have hmax : n ≤ maxSize := by simp only [maxSize]; omega
  refine ⟨b.buffer ++ List.replicate (n - b.buffer.length) 0, ?_, ?_, ?_, ?_⟩
  · rw [resize, if_pos hmax, List.take_of_length_le hn]
  · rw [List.length_append, List.length_replicate]; omega
  · have hbound := h.bound
    have hheader := h.header
    refine ⟨h.le, ?_, ?_, ?_⟩ <;> simp only [List.length_append, List.length_replicate] <;> omega
  · exact slice_append_right _ h.bound

/-- Sliding: the readable bytes move down to the header, which lies before them.  The ranges may
overlap, but the destination is not inside the source, so `std::copy` may be used. -/
theorem copyWithin_spec (h : b.Wf) (hr : preAppendSize < b.readIndex) :
    ∃ v, copyWithin b.buffer b.readIndex b.writeIndex preAppendSize = .ok v ∧
      v.length = b.buffer.length ∧
      slice v preAppendSize (preAppendSize + b.readableBytes) = b.contents := by
  have hread := h.readable
  have hle := h.le
  have hbound := h.bound
  have hlen : (slice b.buffer b.readIndex b.writeIndex).length = b.readableBytes :=
    h.length_contents
  have hfit : preAppendSize + (slice b.buffer b.readIndex b.writeIndex).length ≤
      b.buffer.length := by omega
  refine ⟨overwrite b.buffer preAppendSize (slice b.buffer b.readIndex b.writeIndex), ?_,
    length_overwrite hfit, ?_⟩
  · have hno : ¬ (b.readIndex ≤ preAppendSize ∧ preAppendSize < b.writeIndex) := by omega
    rw [copyWithin, if_neg hno, load_eq h.le h.bound]
    exact store_eq hfit
  · rw [← hlen]
    exact slice_overwrite_self h.header

/-- **`make_space` makes the space**, whichever way it goes, and keeps the readable bytes; or the
vector would have to be larger than `max_size`.  It is only called when the writeable part is too
small, and then the slide goes strictly downwards. -/
theorem makeSpace_total (h : b.Wf) {len : Nat} (hw : b.writeadbleBytes < len)
    (hl : len + preAppendSize < 2 ^ 64) (hs : b.writeIndex + len < 2 ^ 64) :
    2 ^ 63 ≤ b.writeIndex + len ∧ b.makeSpace len = .error .lengthError ∨
      ∃ b', b.makeSpace len = .ok b' ∧ b'.Wf ∧ b'.contents = b.contents ∧
        len ≤ b'.writeadbleBytes := by
  have hwr := h.writeable
  have hread := h.readable
  have hle := h.le
  have hbound := h.bound
  have hheader := h.header
  have hsmall := h.small
  have hpre : preAppendSize = 8 := rfl
  have hsum : addSize b.writeadbleBytes b.preAppendBytes =
      b.writeadbleBytes + b.readIndex := addSize_eq (by simp only [preAppendBytes]; omega)
  have hneed : addSize len preAppendSize = len + preAppendSize := addSize_eq (by omega)
  unfold makeSpace
  rw [hsum, hneed]
  split
  · have hgrow : addSize b.writeIndex len = b.writeIndex + len := addSize_eq (by omega)
    rw [hgrow]
    rcases Nat.lt_or_ge (b.writeIndex + len) (2 ^ 63) with hs | hs
    · right
      obtain ⟨v, hv, hlen, hwf, hc⟩ :=
        resize_spec h (n := b.writeIndex + len) (by omega) (by omega)
      rw [hv]
      refine ⟨_, rfl, hwf, hc, ?_⟩
      rw [hwf.writeable]
      change len ≤ v.length - b.writeIndex
      omega
    · left
      have hmax : ¬ b.writeIndex + len ≤ maxSize := by simp only [maxSize]; omega
      rw [resize, if_neg hmax]
      exact ⟨hs, rfl⟩
  · rename_i hfits
    right
    obtain ⟨v, hv, hlen, hc⟩ := copyWithin_spec h (by omega)
    have hend : addSize preAppendSize b.readableBytes = preAppendSize + b.readableBytes :=
      addSize_eq (by omega)
    have hwf : Wf ⟨v, preAppendSize, preAppendSize + b.readableBytes⟩ := by
      refine ⟨Nat.le_add_right _ _, ?_, ?_, ?_⟩
      · change preAppendSize + b.readableBytes ≤ v.length
        omega
      · change preAppendSize ≤ v.length
        omega
      · change v.length < 2 ^ 63
        omega
    refine ⟨⟨v, preAppendSize, preAppendSize + b.readableBytes⟩, ?_, hwf, hc, ?_⟩
    · simp only [hv, hend]
      rfl
    · rw [hwf.writeable]
      change len ≤ v.length - (preAppendSize + b.readableBytes)
      omega

theorem ensureWriteableBytes_total (h : b.Wf) {len : Nat} (hl : len + preAppendSize < 2 ^ 64)
    (hs : b.writeIndex + len < 2 ^ 64) :
    2 ^ 63 ≤ b.writeIndex + len ∧ b.ensureWriteableBytes len = .error .lengthError ∨
      ∃ b', b.ensureWriteableBytes len = .ok b' ∧ b'.Wf ∧ b'.contents = b.contents ∧
        len ≤ b'.writeadbleBytes := by
  unfold ensureWriteableBytes
  split
  · rename_i hw
    exact makeSpace_total h hw hl hs
  · rename_i hw
    exact .inr ⟨b, rfl, h, rfl, by omega⟩

/-- `ensure_writeable_bytes` changes nothing that can be read, whether it grows, slides or does
nothing. -/
theorem ensureWriteableBytes_spec (h : b.Wf) {len : Nat} (hs : b.writeIndex + len < 2 ^ 63) :
    ∃ b', b.ensureWriteableBytes len = .ok b' ∧ b'.Wf ∧ b'.contents = b.contents ∧
      len ≤ b'.writeadbleBytes := by
  have hl : len + preAppendSize < 2 ^ 64 := by
    unfold preAppendSize
    omega
  rcases ensureWriteableBytes_total h hl (by omega) with ⟨hbig, -⟩ | hok
  · omega
  · exact hok

/-- Writing `data` at `write_begin()` and declaring it written appends it.  A caller who writes
more than there is room for would leave the vector. -/
theorem writeAtBegin_spec (h : b.Wf) {data : List Byte} (hd : data.length ≤ b.writeadbleBytes) :
    ∃ b', b.writeAtBegin data = .ok b' ∧ (b'.hasWritten data.length).Wf ∧
      (b'.hasWritten data.length).contents = b.contents ++ data ∧
      b'.buffer.length = b.buffer.length ∧ b'.writeIndex = b.writeIndex := by
  have hwr := h.writeable
  have hle := h.le
  have hbound := h.bound
  have hsmall := h.small
  have hfit : b.writeIndex + data.length ≤ b.buffer.length := by omega
  have hadd : addSize b.writeIndex data.length = b.writeIndex + data.length :=
    addSize_eq (by omega)
  have hlen := length_overwrite hfit
  refine ⟨{ b with buffer := overwrite b.buffer b.writeIndex data }, ?_, ?_, ?_, hlen, rfl⟩
  · rw [writeAtBegin, store_eq hfit]
    rfl
  · refine ⟨?_, ?_, ?_, ?_⟩
    · change b.readIndex ≤ addSize b.writeIndex data.length
      omega
    · change addSize b.writeIndex data.length ≤ (overwrite b.buffer b.writeIndex data).length
      omega
    · change preAppendSize ≤ (overwrite b.buffer b.writeIndex data).length
      rw [hlen]; exact h.header
    · change (overwrite b.buffer b.writeIndex data).length < 2 ^ 63
      omega
  · change slice (overwrite b.buffer b.writeIndex data) b.readIndex
      (addSize b.writeIndex data.length) = _
    rw [hadd, ← slice_append_slice _ hle (Nat.le_add_right _ _),
      slice_overwrite_left (Nat.le_refl _) hbound, slice_overwrite_self hbound]
    rfl

/-- **`append` appends**, unless the vector cannot grow that far.  Then it throws before anything
is written. -/
theorem append_total (h : b.Wf) {data : List Byte} (hl : data.length < 2 ^ 63) :
    2 ^ 63 ≤ b.writeIndex + data.length ∧ b.append data = .error .lengthError ∨
      ∃ b', b.append data = .ok b' ∧ b'.Wf ∧ b'.contents = b.contents ++ data := by
  have hbound := h.bound
  have hsmall := h.small
  have hpre : data.length + preAppendSize < 2 ^ 64 := by
    unfold preAppendSize
    omega
  rcases ensureWriteableBytes_total h hpre (by omega) with ⟨hbig, herr⟩ | ⟨b₁, h₁, hwf, hc, hroom⟩
  · left
    refine ⟨hbig, ?_⟩
    rw [append, herr]
    rfl
  · right
    obtain ⟨b₂, h₂, hwf₂, hc₂, -⟩ := writeAtBegin_spec hwf hroom
    refine ⟨b₂.hasWritten data.length, ?_, hwf₂, hc ▸ hc₂⟩
    rw [append, h₁, ok_bind, h₂, ok_bind]
    rfl

theorem append_spec (h : b.Wf) {data : List Byte} (hs : b.writeIndex + data.length < 2 ^ 63) :
    ∃ b', b.append data = .ok b' ∧ b'.Wf ∧ b'.contents = b.contents ++ data := by
  have hl : data.length < 2 ^ 63 := by omega
  rcases append_total h hl with ⟨hbig, -⟩ | hok
  · omega
  · exact hok

/-- `unwrite` drops from the back as many bytes as it is told, and there must be as many. -/
theorem unwrite_spec (h : b.Wf) {len : Nat} (hlen : len ≤ b.readableBytes) :
    (b.unwrite len).Wf ∧ (b.unwrite len).contents = b.contents.rdrop len := by
  have hread := h.readable
  have hle := h.le
  have hbound := h.bound
  have hsmall := h.small
  have hsub : subSize b.writeIndex len = b.writeIndex - len := subSize_eq (by omega) (by omega)
  rw [unwrite, hsub]
  refine ⟨⟨?_, ?_, h.header, h.small⟩, ?_⟩
  · change b.readIndex ≤ b.writeIndex - len
    omega
  · change b.writeIndex - len ≤ b.buffer.length
    omega
  · have hlast : b.readIndex + (b.readableBytes - len) = b.writeIndex - len := by omega
    rw [List.rdrop, h.length_contents, contents, contents, take_slice _ (by omega), hlast]

/-- `prepend` pushes in front, as long as the header has room. -/
theorem prepend_spec (h : b.Wf) {data : List Byte} (hd : data.length ≤ b.preAppendBytes) :
    ∃ b', b.prepend data = .ok b' ∧ b'.Wf ∧ b'.contents = data ++ b.contents := by
  have hle := h.le
  have hbound := h.bound
  have hsmall := h.small
  rw [preAppendBytes] at hd
  have hsub : subSize b.readIndex data.length = b.readIndex - data.length :=
    subSize_eq hd (by omega)
  have hback : b.readIndex - data.length + data.length = b.readIndex := by omega
  have hfit : b.readIndex - data.length + data.length ≤ b.buffer.length := by omega
  have hlen := length_overwrite hfit
  refine ⟨⟨overwrite b.buffer (b.readIndex - data.length) data, b.readIndex - data.length,
    b.writeIndex⟩, ?_, ⟨?_, ?_, ?_, ?_⟩, ?_⟩
  · simp only [prepend, hsub, store_eq hfit]
    rfl
  · change b.readIndex - data.length ≤ b.writeIndex
    omega
  · change b.writeIndex ≤ (overwrite b.buffer _ data).length
    omega
  · change preAppendSize ≤ (overwrite b.buffer _ data).length
    rw [hlen]; exact h.header
  · change (overwrite b.buffer _ data).length < 2 ^ 63
    omega
  · -- the copied range ends where the old contents begin
    have hstart : b.readIndex - data.length ≤ b.buffer.length := by omega
    change slice (overwrite b.buffer (b.readIndex - data.length) data)
      (b.readIndex - data.length) b.writeIndex = data ++ slice b.buffer b.readIndex b.writeIndex
    rw [← slice_append_slice _ (b := b.readIndex) (by omega) hle,
      slice_overwrite_right (a := b.readIndex) (by omega) hstart]
    congr 1
    conv_lhs => rw [← hback]
    rw [Nat.add_sub_cancel]
    exact slice_overwrite_self hstart

theorem toBytes_spec (h : b.Wf) : b.toBytes = .ok b.contents := load_eq h.le h.bound

/-- `shrink` moves the readable bytes to a fresh vector, which has room for them and the reserve;
the old one goes with the temporary that it was swapped into. -/
theorem shrink_spec (h : b.Wf) {reserve : Nat}
    (hs : preAppendSize + (b.readableBytes + reserve) < 2 ^ 63) :
    ∃ b', b.shrink reserve = .ok b' ∧ b'.Wf ∧ b'.contents = b.contents := by
  have hadd : addSize b.readableBytes reserve = b.readableBytes + reserve := addSize_eq (by omega)
  obtain ⟨b₁, h₁, hwf₁, hc₁, hroom⟩ := ensureWriteableBytes_spec (new_wf initSize) hs
  have hfits : b₁.writeIndex + b.contents.length < 2 ^ 63 := by
    have hwr := hwf₁.writeable
    have hsmall := hwf₁.small
    rw [h.length_contents]
    have hbound := hwf₁.bound
    omega
  obtain ⟨b₂, h₂, hwf₂, hc₂⟩ := append_spec hwf₁ hfits
  refine ⟨b₂, ?_, hwf₂, ?_⟩
  · rw [shrink, hadd, h₁, ok_bind, toBytes_spec h, ok_bind, h₂]
  · rw [hc₂, hc₁, new_contents, List.nil_append]

/-- The branch of `read_fd` that needs no `extrabuf`. -/
theorem readFd_fits {data : List Byte} (hle : data.length ≤ b.writeadbleBytes) :
    b.readFd (.ok data) = (do
      let b₁ ← b.writeAtBegin data
      return (data.length, none, b₁.hasWritten data.length)) := if_pos hle

/-- The spill branch of `read_fd`: what did not fit was read into `extrabuf`, and is appended. -/
theorem readFd_spill {data : List Byte} (hgt : ¬ data.length ≤ b.writeadbleBytes) :
    b.readFd (.ok data) = (do
      let b₁ ← b.writeAtBegin (data.take b.writeadbleBytes)
      let b₂ ← { b₁ with writeIndex := b₁.buffer.length }.append (data.drop b.writeadbleBytes)
      return (data.length, none, b₂)) := if_neg hgt

/-- `read_fd` returns how much was read, in the vector and behind it together. -/
theorem readFd_count {b b' : Buffer} {data : List Byte} {n : Int} {errno : Option Nat}
    (h : b.readFd (.ok data) = .ok (n, errno, b')) : n = data.length := by
  by_cases hle : data.length ≤ b.writeadbleBytes
  · rw [readFd_fits hle] at h
    cases hw : b.writeAtBegin data with
    | error _ => rw [hw] at h; cases h
    | ok b₁ => rw [hw, ok_bind] at h; cases h; rfl
  · rw [readFd_spill hle] at h
    cases hw : b.writeAtBegin (data.take b.writeadbleBytes) with
    | error _ => rw [hw] at h; cases h
    | ok b₁ =>
      rw [hw, ok_bind] at h
      cases ha : Buffer.append { b₁ with writeIndex := b₁.buffer.length }
          (data.drop b.writeadbleBytes) with
      | error _ => rw [ha] at h; cases h
      | ok b₂ => rw [ha, ok_bind] at h; cases h; rfl

/-- **`read_fd` appends exactly what was read**, spilling over into `extrabuf` or not.  When it
does, the vector is filled to its end first and the rest goes through `append`, so the order is
that of the two `iovec`s. -/
theorem readFd_spec (h : b.Wf) {data : List Byte} (hs : b.writeIndex + data.length < 2 ^ 63) :
    ∃ b', b.readFd (.ok data) = .ok (data.length, none, b') ∧ b'.Wf ∧
      b'.contents = b.contents ++ data := by
  have hwr := h.writeable
  have hbound := h.bound
  by_cases hle : data.length ≤ b.writeadbleBytes
  · obtain ⟨b₁, h₁, hwf₁, hc₁, -⟩ := writeAtBegin_spec h hle
    refine ⟨b₁.hasWritten data.length, ?_, hwf₁, hc₁⟩
    rw [readFd_fits hle, h₁, ok_bind]
    rfl
  · -- the vector is filled to its end first
    have htake : (data.take b.writeadbleBytes).length = b.writeadbleBytes := by
      rw [List.length_take]
      omega
    obtain ⟨b₁, h₁, hwf₁, hc₁, hlen₁, hw₁⟩ := writeAtBegin_spec h (Nat.le_of_eq htake)
    have hfull : b₁.hasWritten (data.take b.writeadbleBytes).length =
        { b₁ with writeIndex := b₁.buffer.length } := by
      have hsmall := h.small
      have hadd : addSize b₁.writeIndex (data.take b.writeadbleBytes).length =
          b₁.buffer.length := by
        rw [hw₁, htake, hlen₁, addSize_eq (by omega)]
        omega
      rw [hasWritten, hadd]
    rw [hfull] at hwf₁ hc₁
    have hrest : b₁.buffer.length + (data.drop b.writeadbleBytes).length < 2 ^ 63 := by
      rw [hlen₁, List.length_drop]
      omega
    obtain ⟨b₂, h₂, hwf₂, hc₂⟩ := append_spec hwf₁ hrest
    refine ⟨b₂, ?_, hwf₂, ?_⟩
    · rw [readFd_spill hle, h₁, ok_bind, h₂]
      rfl
    · rw [hc₂, hc₁, List.append_assoc, List.take_append_drop]

end Buffer

end Suduo
