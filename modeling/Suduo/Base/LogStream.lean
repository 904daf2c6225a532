/-
# `LogStream`: what is printed into the buffer

`base/LogStream.h`.  A `StreamBuffer` is an array and a pointer into it, and everything that is inserted
is written where the pointer is.  A write outside the array, and a pointer moved past its end, have no
meaning: the operation is `none` then.

The three kinds of insertion differ in what they do when there is no room.  Strings are tested before
they are copied (`append`).  Numbers are not: `std::to_chars` fails, and the pointer goes to what it
returns, the end.  Pointers write their `0x` before anything is tested.  So a number that does not fit
fills the buffer with what `to_chars` leaves, and a pointer can write past its end.

`insert_exact` says of one insertion when it is all or nothing, and `log_stream_exact` of a run.
-/
import Suduo.Base.AsyncLogger

namespace Suduo.LogStream

open Lib AsyncLogger

/-! ## 1. `StreamBuffer` in memory -/

/-- `StreamBuffer<SIZE>`: the array, and where in it `_current` is. -/
structure StreamArray (n : Nat) where
  buffer : List Byte
  current : Nat
  length_buffer : buffer.length = n
  current_le : current ≤ n

namespace StreamArray

variable {n : Nat}

/-- The constructor does not initialize the array. -/
def new (left : Nat → Byte) : StreamArray n where
  buffer := (List.range n).map left
  current := 0
  length_buffer := by rw [List.length_map, List.length_range]
  current_le := Nat.zero_le n

def size (b : StreamArray n) : Nat := b.current

def availability (b : StreamArray n) : Nat := n - b.current

/-- What has been written: the bytes before `_current`. -/
def written (b : StreamArray n) : StreamBuffer n where
  written := b.buffer.take b.current
  bound := by
    rw [List.length_take, b.length_buffer]
    exact Nat.min_le_right _ _

/-- `to_string`. -/
def contents (b : StreamArray n) : List Byte := b.written.written

/-- A write to `_buffer + off`. -/
def write (b : StreamArray n) (off : Nat) (s : List Byte) : Option (StreamArray n) :=
  if h : off + s.length ≤ n then
    some { b with
      buffer := overwrite b.buffer off s
      length_buffer := by rw [length_overwrite (by rwa [b.length_buffer]), b.length_buffer] }
  else none

def move (b : StreamArray n) (step : Nat) : Option (StreamArray n) :=
  if h : b.current + step ≤ n then some { b with current := b.current + step, current_le := h }
  else none

def append (b : StreamArray n) (buf : List Byte) : Option (StreamArray n) :=
  if b.availability > buf.length then do
    let b ← b.write b.current buf
    b.move buf.length
  else some b

/-- `std::to_chars` to what is between `_buffer + first` and `_end`, with the pointer it returns.
Text that does not fit leaves `left` there: the standard says of that range only that it is
unspecified, so every statement is for all `left`. -/
def toChars (left : Nat → Byte) (b : StreamArray n) (first : Nat) (text : List Byte) :
    Option (StreamArray n × Nat) :=
  if first + text.length ≤ n then do
    let b ← b.write first text
    some (b, first + text.length)
  else do
    let b ← b.write first ((List.range (n - first)).map left)
    some (b, n)

end StreamArray

/-! ## 2. The operators -/

/-- Text as bytes. -/
def ascii (s : List Char) : List Byte := s.map fun c => UInt8.ofNat c.toNat

/-- A number in base ten. -/
def intText (val : Int) : List Byte :=
  ascii (if val < 0 then '-' :: Nat.toDigits 10 val.natAbs else Nat.toDigits 10 val.natAbs)

def hexText (val : Nat) : List Byte := ascii (Nat.toDigits 16 val)

/-- What is on the right of `<<`.  A `const char*` is null or what is before its terminator. -/
inductive Insertion
  | bool (val : Bool)
  | int (val : Int32)
  | unsignedInt (val : UInt32)
  | long (val : Int64)
  | unsignedLong (val : UInt64)
  | longLong (val : Int64)
  | unsignedLongLong (val : UInt64)
  | pointer (val : UInt64)
  | char (val : Byte)
  | cStr (val : Option (List Byte))
  | str (val : List Byte)
  deriving DecidableEq

namespace StreamArray

variable {n : Nat}

/-- `operator<<` of the six integer types. -/
def putInt (left : Nat → Byte) (b : StreamArray n) (val : Int) : Option (StreamArray n) := do
  let (b, ptr) ← b.toChars left b.current (intText val)
  b.move (ptr - b.current)

/-- `operator<<(const void*)`. -/
def putPointer (left : Nat → Byte) (b : StreamArray n) (val : UInt64) : Option (StreamArray n) := do
  let buf := b.current
  let b ← b.write buf (ascii ['0'])
  let b ← b.write (buf + 1) (ascii ['x'])
  let (b, ptr) ← b.toChars left (buf + 2) (hexText val.toNat)
  b.move (ptr - b.current)

/-- `operator<<`. -/
def insert (left : Nat → Byte) (b : StreamArray n) : Insertion → Option (StreamArray n)
  | .bool val => b.append (if val then ascii "true".toList else ascii "false".toList)
  | .int val => b.putInt left val.toInt
  | .unsignedInt val => b.putInt left val.toNat
  | .long val => b.putInt left val.toInt
  | .unsignedLong val => b.putInt left val.toNat
  | .longLong val => b.putInt left val.toInt
  | .unsignedLongLong val => b.putInt left val.toNat
  | .pointer val => b.putPointer left val
  | .char val => b.append [val]
  | .cStr (some val) => b.append val
  | .cStr none => some b
  | .str val => b.append val

/-! ## 3. What one operation does -/

variable {b b' : StreamArray n} {s text : List Byte} {left : Nat → Byte} {off first : Nat}

theorem contents_length (b : StreamArray n) : b.contents.length = b.size := by
  have hlen := b.length_buffer
  have hle := b.current_le
  change (b.buffer.take b.current).length = b.current
  rw [List.length_take]
  omega

/-- A write outside the array has no meaning, and `none` says so. -/
theorem write_none (h : n < off + s.length) : b.write off s = none := dif_neg (by omega)

theorem write_some (b : StreamArray n) (off : Nat) (s : List Byte) (h : off + s.length ≤ n) :
    ∃ b', b.write off s = some b' ∧ b'.buffer = overwrite b.buffer off s ∧ b'.current = b.current :=
  ⟨_, dif_pos h, rfl, rfl⟩

theorem move_some (b : StreamArray n) (step : Nat) (h : b.current + step ≤ n) :
    ∃ b', b.move step = some b' ∧ b'.buffer = b.buffer ∧ b'.current = b.current + step :=
  ⟨_, dif_pos h, rfl, rfl⟩

/-- Written where the pointer is, and the pointer moved behind it: that is appending to the
contents. -/
theorem contents_extend (hbuf : b'.buffer = overwrite b.buffer b.current s)
    (hcur : b'.current = b.current + s.length) : b'.contents = b.contents ++ s := by
  have hle : b.current ≤ b.buffer.length := by
    rw [b.length_buffer]
    exact b.current_le
  change b'.buffer.take b'.current = b.buffer.take b.current ++ s
  rw [hbuf, hcur, take_overwrite hle]

theorem written_inj {x y : StreamBuffer n} (h : x.written = y.written) : x = y := by
  cases x
  cases y
  cases h
  rfl

theorem written_availability (b : StreamArray n) : b.written.availability = b.availability :=
  congrArg (n - ·) b.contents_length

/-- **Strings are all or nothing**: the bytes that have been written are those of the buffer without an
array. -/
theorem append_spec (b : StreamArray n) (s : List Byte) :
    ∃ b', b.append s = some b' ∧ b'.written = b.written.append s := by
  by_cases h : b.availability > s.length
  · have hle : b.current + s.length ≤ n := by
      rw [availability] at h
      omega
    obtain ⟨b₁, hwrite, hbuf, hcur⟩ := write_some b b.current s hle
    obtain ⟨b₂, hmove, hbuf₂, hcur₂⟩ := move_some b₁ s.length (by rwa [hcur])
    refine ⟨b₂, ?_, written_inj ?_⟩
    · rw [append, if_pos h, hwrite]
      exact hmove
    · rw [StreamBuffer.append_written (by rwa [written_availability])]
      exact contents_extend (by rw [hbuf₂, hbuf]) (by rw [hcur₂, hcur])
  · refine ⟨b, if_neg h, ?_⟩
    rw [StreamBuffer.append, dif_neg (by rwa [written_availability])]

theorem toChars_fits (h : first + text.length ≤ n) :
    ∃ b', b.toChars left first text = some (b', first + text.length) ∧
      b'.buffer = overwrite b.buffer first text ∧ b'.current = b.current := by
  obtain ⟨b', hwrite, hbuf, hcur⟩ := write_some b first text h
  refine ⟨b', ?_, hbuf, hcur⟩
  rw [toChars, if_pos h, hwrite]
  rfl

/-- The pointer that is returned is the end, so the caller moves `_current` there without looking
at the error. -/
theorem toChars_fails (hfirst : first ≤ n) (h : ¬ first + text.length ≤ n) :
    ∃ b', b.toChars left first text = some (b', n) ∧
      b'.buffer = overwrite b.buffer first ((List.range (n - first)).map left) ∧
      b'.current = b.current := by
  have hle : first + ((List.range (n - first)).map left).length ≤ n := by
    rw [List.length_map, List.length_range]
    omega
  obtain ⟨b', hwrite, hbuf, hcur⟩ := write_some b first _ hle
  refine ⟨b', ?_, hbuf, hcur⟩
  rw [toChars, if_neg h, hwrite]
  rfl

theorem putInt_fits (left : Nat → Byte) {val : Int} (h : b.current + (intText val).length ≤ n) :
    ∃ b', b.putInt left val = some b' ∧ b'.contents = b.contents ++ intText val := by
  obtain ⟨b₁, hchars, hbuf, hcur⟩ := toChars_fits (b := b) h
  obtain ⟨b₂, hmove, hbuf₂, hcur₂⟩ :=
    move_some b₁ (intText val).length (by rwa [hcur])
  refine ⟨b₂, ?_, contents_extend (by rw [hbuf₂, hbuf]) (by rw [hcur₂, hcur])⟩
  rw [putInt, hchars]
  change b₁.move (b.current + (intText val).length - b₁.current) = _
  rw [hcur, Nat.add_sub_cancel_left, hmove]

/-- A number that does not fit fills the buffer with whatever `to_chars` leaves. -/
theorem putInt_fails (left : Nat → Byte) {val : Int} (h : ¬ b.current + (intText val).length ≤ n) :
    ∃ b', b.putInt left val = some b' ∧ b'.size = n ∧
      b'.contents = b.contents ++ (List.range (n - b.current)).map left := by
  have hle := b.current_le
  obtain ⟨b₁, hchars, hbuf, hcur⟩ := toChars_fails (b := b) hle h
  obtain ⟨b₂, hmove, hbuf₂, hcur₂⟩ :=
    move_some b₁ (n - b.current) (by rw [hcur]; omega)
  refine ⟨b₂, ?_, ?_, contents_extend (by rw [hbuf₂, hbuf]) ?_⟩
  · rw [putInt, hchars]
    change b₁.move (n - b₁.current) = _
    rw [hcur, hmove]
  · change b₂.current = n
    rw [hcur₂, hcur]
    omega
  · rw [hcur₂, hcur, List.length_map, List.length_range]

/-- The `0x` of a pointer needs two bytes, and nobody tests whether they are there. -/
theorem putPointer_none {val : UInt64} (h : n < b.current + 2) : b.putPointer left val = none := by
  rw [putPointer]
  by_cases h₁ : b.current + (ascii ['0']).length ≤ n
  · obtain ⟨b₁, hwrite, -⟩ := write_some b b.current (ascii ['0']) h₁
    rw [hwrite]
    change (b₁.write (b.current + 1) (ascii ['x'])).bind _ = none
    rw [write_none (Nat.lt_of_lt_of_eq h rfl), Option.bind_none]
  · rw [write_none (by omega)]
    rfl

/-- With its `0x` written, a pointer is printed as a number is. -/
theorem putPointer_chars (val : UInt64) (h : b.current + 2 ≤ n) :
    ∃ b₁ : StreamArray n, b₁.current = b.current ∧
      b₁.buffer.take (b.current + 2) = b.contents ++ ascii ['0', 'x'] ∧
      b.putPointer left val = (b₁.toChars left (b.current + 2) (hexText val.toNat)).bind
        fun p => p.1.move (p.2 - p.1.current) := by
  obtain ⟨b₁, hwrite, hbuf, hcur⟩ :=
    write_some b b.current (ascii ['0']) (Nat.le_trans (Nat.le_succ _) h)
  obtain ⟨b₂, hwrite₂, hbuf₂, hcur₂⟩ := write_some b₁ (b.current + 1) (ascii ['x']) h
  have hone : b.current + 1 ≤ b₁.buffer.length := by
    rw [b₁.length_buffer]
    omega
  have hzero : b.current ≤ b.buffer.length := by
    rw [b.length_buffer]
    omega
  have hx : b₂.buffer.take (b.current + 2) = b₁.buffer.take (b.current + 1) ++ ascii ['x'] := by
    rw [hbuf₂]
    exact take_overwrite (d := ascii ['x']) hone
  have h0 : b₁.buffer.take (b.current + 1) = b.contents ++ ascii ['0'] := by
    rw [hbuf]
    exact take_overwrite (d := ascii ['0']) hzero
  refine ⟨b₂, hcur₂.trans hcur, ?_, ?_⟩
  · rw [hx, h0, List.append_assoc]
    rfl
  · rw [putPointer, hwrite]
    change (b₁.write (b.current + 1) (ascii ['x'])).bind _ = _
    rw [hwrite₂]
    rfl

/-- Behind the `0x`, the digits.  Both are there if there is room for both. -/
theorem putPointer_fits (left : Nat → Byte) {val : UInt64} (h : b.current + (2 + (hexText val.toNat).length) ≤ n) :
    ∃ b', b.putPointer left val = some b' ∧
      b'.contents = b.contents ++ (ascii ['0', 'x'] ++ hexText val.toNat) := by
  obtain ⟨b₁, hcur, htake, hput⟩ := putPointer_chars (b := b) val (by omega)
  have hfits : b.current + 2 + (hexText val.toNat).length ≤ n := by omega
  obtain ⟨b₂, hchars, hbuf₂, hcur₂⟩ := toChars_fits (b := b₁) hfits
  obtain ⟨b₃, hmove, hbuf₃, hcur₃⟩ :=
    move_some b₂ (2 + (hexText val.toNat).length) (by rw [hcur₂, hcur]; exact h)
  refine ⟨b₃, ?_, ?_⟩
  · have hstep : b.current + 2 + (hexText val.toNat).length - b₂.current =
        2 + (hexText val.toNat).length := by
      rw [hcur₂, hcur]
      omega
    rw [hput, hchars, Option.bind_some, hstep, hmove]
  · have hlen : b.current + 2 ≤ b₁.buffer.length := by
      rw [b₁.length_buffer]
      omega
    have hcur' : b₃.current = b.current + 2 + (hexText val.toNat).length := by
      rw [hcur₃, hcur₂, hcur, Nat.add_assoc]
    change b₃.buffer.take b₃.current = _
    rw [hcur', hbuf₃, hbuf₂, take_overwrite hlen, htake, List.append_assoc]

/-- A pointer that does not fit fills the buffer: nothing can be inserted behind it. -/
theorem putPointer_fails (left : Nat → Byte) {val : UInt64} (htwo : b.current + 2 ≤ n)
    (h : ¬ b.current + (2 + (hexText val.toNat).length) ≤ n) :
    ∃ b', b.putPointer left val = some b' ∧ b'.size = n := by
  obtain ⟨b₁, hcur, -, hput⟩ := putPointer_chars (b := b) val htwo
  have hfails : ¬ b.current + 2 + (hexText val.toNat).length ≤ n := by omega
  obtain ⟨b₂, hchars, -, hcur₂⟩ := toChars_fails (b := b₁) htwo hfails
  obtain ⟨b₃, hmove, -, hcur₃⟩ :=
    move_some b₂ (n - b.current) (by rw [hcur₂, hcur]; omega)
  refine ⟨b₃, ?_, ?_⟩
  · rw [hput, hchars, Option.bind_some, hcur₂, hcur, hmove]
  · change b₃.current = n
    rw [hcur₃, hcur₂, hcur]
    omega

end StreamArray

/-! ## 4. One insertion -/

/-- What decides whether there is room, and so what happens when there is none. -/
inductive Kind
  /-- Tested before it is copied. -/
  | string
  /-- Left to `to_chars`. -/
  | number
  /-- A number behind `0x`. -/
  | pointer
  deriving DecidableEq

namespace Insertion

def kind : Insertion → Kind
  | .int _ | .unsignedInt _ | .long _ | .unsignedLong _ | .longLong _ | .unsignedLongLong _ => .number
  | .pointer _ => .pointer
  | .bool _ | .char _ | .cStr _ | .str _ => .string

/-- The text of what is inserted. -/
def render : Insertion → List Byte
  | .bool val => if val then ascii "true".toList else ascii "false".toList
  | .int val => intText val.toInt
  | .unsignedInt val => intText val.toNat
  | .long val => intText val.toInt
  | .unsignedLong val => intText val.toNat
  | .longLong val => intText val.toInt
  | .unsignedLongLong val => intText val.toNat
  | .pointer val => ascii ['0', 'x'] ++ hexText val.toNat
  | .char val => [val]
  | .cStr (some val) => val
  | .cStr none => []
  | .str val => val

/-- The text fits.  By the test of `append` a string must leave one byte free; `spare` says whether that
is what fitting means for a string, or only that the array is long enough. -/
def Fits {n : Nat} (spare : Bool) (b : StreamArray n) (i : Insertion) : Prop :=
  i.render.length + (if spare ∧ i.kind = .string then 1 else 0) ≤ b.availability

instance {n : Nat} (spare : Bool) (b : StreamArray n) (i : Insertion) : Decidable (i.Fits spare b) :=
  inferInstanceAs (Decidable (_ ≤ _))

/-- What is added to the contents when the insertion is all or nothing. -/
def added {n : Nat} (spare : Bool) (b : StreamArray n) (i : Insertion) : List Byte :=
  if i.Fits spare b then i.render else []

/-- Nothing goes wrong: a number fits or finds no room at all, a pointer fits, and a string does not
take exactly the room that is left. -/
def Safe {n : Nat} (spare : Bool) (b : StreamArray n) (i : Insertion) : Prop :=
  match i.kind with
  | .string => spare = true ∨ i.render.length ≠ b.availability ∨ b.availability = 0
  | .number => i.render.length ≤ b.availability ∨ b.availability = 0
  | .pointer => i.render.length ≤ b.availability

/-- All or nothing, within the array. -/
def AllOrNothing {n : Nat} (spare : Bool) (left : Nat → Byte) (b : StreamArray n) (i : Insertion) :
    Prop :=
  ∃ b', b.insert left i = some b' ∧ b'.contents = b.contents ++ i.added spare b

end Insertion

open StreamArray Insertion

variable {n : Nat} {b : StreamArray n} {left : Nat → Byte} {spare : Bool} {i : Insertion}

/-- A null pointer is appended as an empty string would be. -/
theorem append_nil_written (b : StreamArray n) : b.written.append [] = b.written := by
  refine written_inj ?_
  unfold StreamBuffer.append
  split
  · exact List.append_nil _
  · rfl

/-- What an insertion of each kind does: a string is appended as to the buffer without an array,
and the six integer types are printed alike.  Behind this lemma the operators are not told apart
any more. -/
theorem insert_kind (left : Nat → Byte) (b : StreamArray n) (i : Insertion) :
    match i.kind with
    | .string => ∃ b', b.insert left i = some b' ∧ b'.written = b.written.append i.render
    | .number => ∃ val, b.insert left i = b.putInt left val ∧ i.render = intText val
    | .pointer => ∃ val, b.insert left i = b.putPointer left val ∧
        i.render = ascii ['0', 'x'] ++ hexText val.toNat := by
  cases i with
  | bool val => exact b.append_spec _
  | char val => exact b.append_spec _
  | str val => exact b.append_spec _
  | cStr val =>
    cases val with
    | some val => exact b.append_spec _
    | none => exact ⟨b, rfl, (append_nil_written b).symm⟩
  | int val => exact ⟨_, rfl, rfl⟩
  | unsignedInt val => exact ⟨_, rfl, rfl⟩
  | long val => exact ⟨_, rfl, rfl⟩
  | unsignedLong val => exact ⟨_, rfl, rfl⟩
  | longLong val => exact ⟨_, rfl, rfl⟩
  | unsignedLongLong val => exact ⟨_, rfl, rfl⟩
  | pointer val => exact ⟨val, rfl, rfl⟩

/-- Bytes are added that do not count: the insertion did not fit, and the contents are longer
than before. -/
theorem not_allOrNothing {b' : StreamArray n} (hins : b.insert left i = some b') (hsize : b'.size = n)
    (hroom : b.availability ≠ 0) (hfits : ¬ i.Fits spare b) : ¬ i.AllOrNothing spare left b := by
  rintro ⟨b₁, hins₁, hcont⟩
  rw [hins] at hins₁
  cases hins₁
  rw [added, if_neg hfits, List.append_nil] at hcont
  have hlen := congrArg List.length hcont
  rw [contents_length, contents_length, hsize] at hlen
  have hle := b.current_le
  rw [StreamArray.size] at hlen
  rw [availability] at hroom
  omega

/-- A string, by its own test or by the room: it is left out when it would fill the buffer to the
last byte, so where that counts as fitting it must not occur. -/
theorem string_exact (hkind : i.kind = .string) :
    i.AllOrNothing spare left b ↔ spare = true ∨ i.render.length ≠ b.availability ∨ b.availability = 0 := by
  have hkinds := insert_kind left b i
  rw [hkind] at hkinds
  obtain ⟨b', hins, hwritten⟩ := hkinds
  have hcont : b'.contents = (b.written.append i.render).written := congrArg _ hwritten
  have hiff : i.AllOrNothing spare left b ↔ b'.contents = b.contents ++ i.added spare b := by
    refine ⟨fun ⟨b₁, hins₁, h⟩ => ?_, fun h => ⟨b', hins, h⟩⟩
    rw [hins] at hins₁
    cases hins₁
    exact h
  have hfit : i.Fits spare b ↔ i.render.length + (if spare = true then 1 else 0) ≤ b.availability := by
    rw [Fits, hkind]
    simp
  rw [hiff, hcont]
  by_cases hroom : b.availability > i.render.length
  · have hfits : i.Fits spare b := by
      rw [hfit]
      split <;> omega
    rw [StreamBuffer.append_written (by rwa [written_availability]), added, if_pos hfits]
    exact iff_of_true rfl (.inr (.inl (by omega)))
  · have hkept : (b.written.append i.render).written = b.contents := by
      rw [StreamBuffer.append, dif_neg (by rwa [written_availability])]
      rfl
    rw [hkept, List.self_eq_append_right, added]
    split
    · rename_i hfits
      rw [hfit] at hfits
      -- it fits the array exactly, and is left out
      have hspare : ¬ spare = true := fun hspare => by
        rw [if_pos hspare] at hfits
        omega
      rw [if_neg hspare] at hfits
      have hlen : i.render.length = b.availability := by omega
      rw [← List.length_eq_zero_iff, hlen]
      simp [hspare]
    · rename_i hfits
      refine iff_of_true rfl ?_
      by_cases hspare : spare = true
      · exact .inl hspare
      · rw [hfit, if_neg hspare] at hfits
        exact .inr (.inl (by omega))

/-- A number is all or nothing when it fits, or when no room at all is left for `to_chars` to
spoil. -/
theorem number_exact (hkind : i.kind = .number) :
    i.AllOrNothing spare left b ↔ i.render.length ≤ b.availability ∨ b.availability = 0 := by
  have hkinds := insert_kind left b i
  rw [hkind] at hkinds
  obtain ⟨val, hput, hrender⟩ := hkinds
  have hle := b.current_le
  have hfit : i.Fits spare b ↔ i.render.length ≤ b.availability := by
    rw [Fits, hkind]
    simp
  by_cases hroom : b.current + (intText val).length ≤ n
  · obtain ⟨b', hins, hcont⟩ := putInt_fits left hroom
    have hfits : i.render.length ≤ b.availability := by
      rw [hrender, availability]
      omega
    refine iff_of_true ⟨b', hput.trans hins, ?_⟩ (.inl hfits)
    rw [hcont, added, if_pos (hfit.mpr hfits), hrender]
  · obtain ⟨b', hins, hsize, hcont⟩ := putInt_fails left hroom
    have hfails : ¬ i.render.length ≤ b.availability := by
      rw [hrender, availability]
      omega
    by_cases hzero : b.availability = 0
    · refine iff_of_true ⟨b', hput.trans hins, ?_⟩ (.inr hzero)
      rw [availability] at hzero
      rw [hcont, added, if_neg (by rwa [hfit]), hzero]
      rfl
    · refine iff_of_false ?_ (by rintro (h | h) <;> contradiction)
      exact not_allOrNothing (hput.trans hins) hsize hzero (by rwa [hfit])

/-- A pointer is all or nothing when it fits and in no other case: with less than two bytes left
it is written past the end. -/
theorem pointer_exact (hkind : i.kind = .pointer) :
    i.AllOrNothing spare left b ↔ i.render.length ≤ b.availability := by
  have hkinds := insert_kind left b i
  rw [hkind] at hkinds
  obtain ⟨val, hput, hrender⟩ := hkinds
  have hle := b.current_le
  have hlen : i.render.length = 2 + (hexText val.toNat).length := by
    rw [hrender, List.length_append]
    rfl
  have hfit : i.Fits spare b ↔ i.render.length ≤ b.availability := by
    rw [Fits, hkind]
    simp
  by_cases hroom : b.current + (2 + (hexText val.toNat).length) ≤ n
  · obtain ⟨b', hins, hcont⟩ := putPointer_fits left hroom
    have hfits : i.render.length ≤ b.availability := by
      rw [hlen, availability]
      omega
    refine iff_of_true ⟨b', hput.trans hins, ?_⟩ hfits
    rw [hcont, added, if_pos (hfit.mpr hfits), hrender]
  · have hfails : ¬ i.render.length ≤ b.availability := by
      rw [hlen, availability]
      omega
    refine iff_of_false ?_ hfails
    by_cases htwo : b.current + 2 ≤ n
    · obtain ⟨b', hins, hsize⟩ := putPointer_fails left htwo hroom
      have hzero : b.availability ≠ 0 := by
        rw [availability]
        omega
      exact not_allOrNothing (hput.trans hins) hsize hzero (by rwa [hfit])
    · rintro ⟨b', hins, -⟩
      rw [hput, putPointer_none (by omega)] at hins
      cases hins

/-- **When an insertion is all or nothing**: exactly when it is safe.  The three kinds are the
three lemmas above. -/
theorem insert_exact (spare : Bool) (left : Nat → Byte) (b : StreamArray n) (i : Insertion) :
    i.AllOrNothing spare left b ↔ i.Safe spare b := by
  unfold Safe
  cases hkind : i.kind with
  | string => exact string_exact hkind
  | number => exact number_exact hkind
  | pointer => exact pointer_exact hkind

/-! ## 5. Runs -/

/-- An insertion, and what a `to_chars` that fails in it leaves. -/
abbrev Step := Insertion × (Nat → Byte)

/-- Insertions one after the other. -/
def run (b : StreamArray n) (steps : List Step) : Option (StreamArray n) :=
  steps.foldlM (fun b s => b.insert s.2 s.1) b

/-- The renderings of the insertions that fitted when they were made; which these are depends on
the buffer at that time, so the buffer goes along. -/
def fitted (spare : Bool) (b : StreamArray n) : List Step → List Byte
  | [] => []
  | s :: steps => s.1.added spare b ++
      match b.insert s.2 s.1 with
      | some b' => fitted spare b' steps
      | none => []

/-- The insertions stay in the array, and what is then behind the contents there were are the renderings
that fitted. -/
def Exact (spare : Bool) (b : StreamArray n) (steps : List Step) : Prop :=
  ∃ b', run b steps = some b' ∧ b'.size ≤ n ∧ b'.contents = b.contents ++ fitted spare b steps

variable {steps : List Step} {s : Step}

theorem run_cons (b : StreamArray n) (s : Step) (steps : List Step) :
    run b (s :: steps) = (b.insert s.2 s.1).bind fun b' => run b' steps :=
  List.foldlM_cons

theorem run_singleton (b : StreamArray n) (s : Step) : run b [s] = b.insert s.2 s.1 := by
  rw [run_cons]
  cases b.insert s.2 s.1 with
  | none => rfl
  | some b' => rfl

theorem exact_nil (spare : Bool) (b : StreamArray n) : Exact spare b [] :=
  ⟨b, rfl, b.current_le, (List.append_nil _).symm⟩

/-- A run that begins with an insertion that is all or nothing is as good as what comes after it. -/
theorem exact_cons {b' : StreamArray n} (hins : b.insert s.2 s.1 = some b')
    (hcont : b'.contents = b.contents ++ s.1.added spare b) :
    Exact spare b (s :: steps) ↔ Exact spare b' steps := by
  have hrun : run b (s :: steps) = run b' steps := by
    rw [run_cons, hins, Option.bind_some]
  have hfitted : fitted spare b (s :: steps) = s.1.added spare b ++ fitted spare b' steps := by
    rw [fitted, hins]
  unfold Exact
  rw [hrun, hfitted, hcont]
  simp only [List.append_assoc]

/-- The first insertion alone: to be exact it must be there in whole, or not at all. -/
theorem exact_singleton : Exact spare b [s] ↔ s.1.AllOrNothing spare s.2 b := by
  constructor
  · rintro ⟨b', hrun, -, hcont⟩
    rw [run_singleton] at hrun
    rw [fitted, hrun] at hcont
    exact ⟨b', hrun, by rw [hcont]; exact congrArg _ (List.append_nil _)⟩
  · rintro ⟨b', hins, hcont⟩
    exact (exact_cons hins hcont).mpr (exact_nil spare b')

/-- **When a run is all or nothing**, from any buffer: exactly when each insertion is safe where
it is made.  By induction on the run; the first insertion alone is `insert_exact`, and what comes
after it begins at the buffer it leaves. -/
theorem run_exact (spare : Bool) (b : StreamArray n) (steps : List Step) :
    (∀ pre, pre <+: steps → Exact spare b pre) ↔
      ∀ pre s b', pre ++ [s] <+: steps → run b pre = some b' → s.1.Safe spare b' := by
  induction steps generalizing b with
  | nil =>
    refine iff_of_true (fun pre hpre => ?_) (fun pre s b' hpre => ?_)
    · rw [List.prefix_nil.mp hpre]
      exact exact_nil spare b
    · exact absurd (List.prefix_nil.mp hpre) (by simp)
  | cons s steps ih =>
    constructor
    · intro h
      have hfirst := exact_singleton.mp (h [s] (List.cons_prefix_cons.mpr ⟨rfl, List.nil_prefix⟩))
      obtain ⟨b₁, hins, hcont⟩ := hfirst
      have hrest := (ih b₁).mp fun pre hpre =>
        (exact_cons hins hcont).mp (h (s :: pre) (List.cons_prefix_cons.mpr ⟨rfl, hpre⟩))
      intro pre s' b' hpre hrun
      cases pre with
      | nil =>
        cases hrun
        rw [List.nil_append, List.cons_prefix_cons] at hpre
        rw [hpre.1]
        exact (insert_exact spare s.2 b s.1).mp ⟨b₁, hins, hcont⟩
      | cons s₁ pre =>
        rw [List.cons_append, List.cons_prefix_cons] at hpre
        rw [hpre.1, run_cons, hins, Option.bind_some] at hrun
        exact hrest pre s' b' hpre.2 hrun
    · intro h
      have hsafe : s.1.Safe spare b := h [] s b (List.cons_prefix_cons.mpr ⟨rfl, List.nil_prefix⟩) rfl
      obtain ⟨b₁, hins, hcont⟩ := (insert_exact spare s.2 b s.1).mpr hsafe
      have hrest := (ih b₁).mpr fun pre s' b' hpre hrun => by
        refine h (s :: pre) s' b' (List.cons_prefix_cons.mpr ⟨rfl, hpre⟩) ?_
        rwa [run_cons, hins, Option.bind_some]
      intro pre hpre
      cases pre with
      | nil => exact exact_nil spare b
      | cons s₁ pre =>
        rw [List.cons_prefix_cons] at hpre
        rw [hpre.1]
        exact (exact_cons hins hcont).mpr (hrest pre hpre.2)

/-- `MIN_BUFFER_SIZE`. -/
def minBufferSize : Nat := 4000

/-- `LogStream::Buffer`. -/
abbrev Buffer := StreamArray minBufferSize

/-- A stream nothing has been inserted into. -/
def empty (left : Nat → Byte) : Buffer := new left

theorem empty_contents (left : Nat → Byte) : (empty left).contents = [] :=
  List.take_zero (l := (List.range minBufferSize).map left)

/-- **When a `LogStream` is all or nothing.**  Every run of insertions stays in the array and has
the renderings that fitted for contents, if and only if every number fits or finds the buffer
full, every pointer fits, and, where a string that takes all the room that is left counts as
fitting, no string does.  This is `run_exact` from the empty buffer, and `log_stream_overrun` is
a run that fails it both ways. -/
theorem log_stream_exact (spare : Bool) (left : Nat → Byte) (steps : List Step) :
    (∀ pre, pre <+: steps → ∃ b, run (empty left) pre = some b ∧ b.size ≤ minBufferSize ∧
      b.contents = fitted spare (empty left) pre) ↔
    ∀ pre s b, pre ++ [s] <+: steps → run (empty left) pre = some b → s.1.Safe spare b := by
  rw [← run_exact]
  simp only [Exact, empty_contents, List.nil_append]

/-- A message that leaves room for one byte.  That byte is not enough for what the destructor
inserts. -/
theorem run_almost (left : Nat → Byte) {msg : List Byte} (h : msg.length = 3999) :
    ∃ b, run (empty left) [(.str msg, left)] = some b ∧ b.availability = 1 := by
  obtain ⟨b, happ, hwritten⟩ := (empty left).append_spec msg
  have havail : (empty left).availability = 4000 := rfl
  have hroom : (empty left).written.availability > msg.length := by
    rw [written_availability, havail, h]
    decide
  have hcont : b.contents = (empty left).contents ++ msg := by
    rw [contents, hwritten]
    exact StreamBuffer.append_written hroom
  have hsize : b.size = 3999 := by
    rw [← contents_length, hcont, empty_contents, List.nil_append, h]
  refine ⟨b, ?_, ?_⟩
  · rw [run_singleton]
    exact happ
  · rw [availability, ← StreamArray.size, hsize]
    rfl

/-- Behind such a message, a number changes the contents and a pointer is written past the end. -/
theorem run_overrun (left : Nat → Byte) {msg : List Byte} (h : msg.length = 3999) :
    ¬ Exact true (empty left) [(.str msg, left), (.int 12345, left)] ∧
      run (empty left) [(.str msg, left), (.pointer 1, left)] = none := by
  obtain ⟨b₁, hrun₁, hroom⟩ := run_almost left h
  have hins : (empty left).insert left (.str msg) = some b₁ := (run_singleton _ _).symm.trans hrun₁
  constructor
  · intro hexact
    have hsafe : Safe true (empty left) (.str msg) := .inl rfl
    obtain ⟨b, hins', hcont⟩ := (insert_exact true left (empty left) (.str msg)).mpr hsafe
    rw [hins] at hins'
    cases hins'
    have hone := exact_singleton.mp ((exact_cons hins hcont).mp hexact)
    have hunsafe : (intText 12345).length ≤ b₁.availability ∨ b₁.availability = 0 :=
      (insert_exact true left b₁ (.int 12345)).mp hone
    rw [hroom] at hunsafe
    revert hunsafe
    decide
  · have hfull : minBufferSize < b₁.current + 2 := by
      rw [availability] at hroom
      omega
    rw [run_cons, hins, Option.bind_some, run_singleton]
    exact putPointer_none hfull

/-- 3999 characters, and then a number or a pointer. -/
theorem log_stream_overrun :
    (¬ ∃ b, run (empty fun _ => 0) [(.str (List.replicate 3999 97), fun _ => 0),
        (.int 12345, fun _ => 0)] = some b ∧ b.size ≤ minBufferSize ∧
      b.contents = fitted true (empty fun _ => 0) [(.str (List.replicate 3999 97), fun _ => 0),
        (.int 12345, fun _ => 0)]) ∧
    run (empty fun _ => 0) [(.str (List.replicate 3999 97), fun _ => 0),
      (.pointer 1, fun _ => 0)] = none := by
  obtain ⟨hnumber, hpointer⟩ := run_overrun (fun _ => 0) (List.length_replicate (a := (97 : Byte)))
  rw [Exact, empty_contents, List.nil_append] at hnumber
  exact ⟨hnumber, hpointer⟩

end Suduo.LogStream
