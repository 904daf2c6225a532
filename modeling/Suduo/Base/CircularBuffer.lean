/-
# `CircularBuffer`

`base/CircularBuffer.h`: a vector of fixed length with the indices of its first stored element and of
the place behind the last, and the number of stored elements.  How the three agree is part of the
type, so no operation has to be given it.  `pop` on an empty buffer is undefined in the source, and
`none` here.
-/
import Mathlib.Data.List.Rotate
import Mathlib.Tactic.Basic

namespace Suduo

variable {α : Type}

structure CircularBuffer (α : Type) where
  buffer : List α
  beginIdx : Nat
  endIdx : Nat
  size : Nat
  size_le : size ≤ buffer.length
  begin_lt : 0 < buffer.length → beginIdx < buffer.length
  end_eq : 0 < buffer.length → endIdx = (beginIdx + size) % buffer.length
  deriving DecidableEq

namespace CircularBuffer

/-! ## 1. The operations -/

/-- `CircularBuffer::CircularBuffer`; the elements are value-initialized. -/
def new [Inhabited α] (maxSize : Nat) : CircularBuffer α where
  buffer := List.replicate maxSize default
  beginIdx := 0
  endIdx := 0
  size := 0
  size_le := Nat.zero_le _
  begin_lt := id
  end_eq := fun _ => by simp

def full (b : CircularBuffer α) : Bool := b.size == b.buffer.length

def empty (b : CircularBuffer α) : Bool := b.size == 0

/-- `capacity`, which is what is left. -/
def capacity (b : CircularBuffer α) : Nat := b.buffer.length - b.size

/-- An index moves on, from the end of the vector to its start. -/
def advance (n i : Nat) : Nat := if n ≤ i + 1 then 0 else i + 1

theorem advance_eq_mod {n i : Nat} (h : i < n) : advance n i = (i + 1) % n := by
  unfold advance
  split
  · rw [show i + 1 = n by omega, Nat.mod_self]
  · rw [Nat.mod_eq_of_lt (by omega)]

theorem end_lt (b : CircularBuffer α) (h : 0 < b.buffer.length) : b.endIdx < b.buffer.length := by
  rw [b.end_eq h]
  exact Nat.mod_lt _ h

/-- `push`. -/
def push (b : CircularBuffer α) (val : α) : CircularBuffer α :=
  if h : b.full then b
  else
    have hlt : b.size < b.buffer.length := by
      have := b.size_le
      simp only [full, beq_iff_eq] at h
      omega
    { buffer := b.buffer.set b.endIdx val
      beginIdx := b.beginIdx
      endIdx := advance b.buffer.length b.endIdx
      size := b.size + 1
      size_le := by rw [List.length_set]; exact hlt
      begin_lt := by rw [List.length_set]; exact b.begin_lt
      end_eq := by
        intro hpos
        rw [List.length_set] at hpos ⊢
        rw [advance_eq_mod (b.end_lt hpos), b.end_eq hpos, Nat.mod_add_mod, Nat.add_assoc] }

theorem length_pos (b : CircularBuffer α) (h : 0 < b.size) : 0 < b.buffer.length :=
  Nat.lt_of_lt_of_le h b.size_le

/-- What `pop` leaves. -/
def dropFirst (b : CircularBuffer α) (h : 0 < b.size) : CircularBuffer α :=
  have hadvance := advance_eq_mod (b.begin_lt (b.length_pos h))
  { b with
    beginIdx := advance b.buffer.length b.beginIdx
    size := b.size - 1
    size_le := Nat.le_trans (Nat.sub_le _ _) b.size_le
    begin_lt := fun hpos => by rw [hadvance]; exact Nat.mod_lt _ hpos
    end_eq := fun hpos => by
      rw [hadvance, Nat.mod_add_mod, b.end_eq hpos]
      congr 1
      omega }

/-- `pop`. -/
def pop (b : CircularBuffer α) : Option (α × CircularBuffer α) :=
  if h : 0 < b.size then
    have hlt := b.begin_lt (b.length_pos h)
    some (b.buffer[b.beginIdx], b.dropFirst h)
  else none

/-! ## 2. The stored elements -/

/-- The stored elements, the oldest first: read from `_begin` on, with wrap-around.  This is what
the two indices and the size mean, and the only thing that is said about a buffer from outside. -/
def contents (b : CircularBuffer α) : List α := (b.buffer.rotate b.beginIdx).take b.size

@[simp] theorem length_contents (b : CircularBuffer α) : b.contents.length = b.size := by
  simp [contents, b.size_le]

theorem contents_new [Inhabited α] (n : Nat) : (new n : CircularBuffer α).contents = [] := by
  simp [contents, new]

/-- Less than once around, an index wraps at most once. -/
theorem wrap_eq {n i k : Nat} (hi : i < n) (hk : k ≤ n) :
    (k + i) % n = if k + i < n then k + i else k + i - n := by
  split
  · exact Nat.mod_eq_of_lt (by assumption)
  · rw [Nat.mod_eq_sub_mod (by omega), Nat.mod_eq_of_lt (by omega)]

/-- **`push` on a buffer with room** appends.  The place behind the last element is outside the
stored ones, because there is room, so writing to it changes none of them. -/
theorem contents_push {b : CircularBuffer α} (h : b.full = false) (val : α) :
    (b.push val).contents = b.contents ++ [val] := by
  have hlt : b.size < b.buffer.length := by
    have := b.size_le
    simp only [full, beq_eq_false_iff_ne] at h
    omega
  have hpos : 0 < b.buffer.length := by omega
  have hbegin := b.begin_lt hpos
  have hend := b.end_eq hpos
  rw [Nat.add_comm, wrap_eq hbegin b.size_le] at hend
  simp only [push, h, Bool.false_eq_true, ↓reduceDIte, contents]
  refine List.ext_getElem (by simp; omega) fun i h₁ h₂ => ?_
  have hi : i ≤ b.size := by
    simp only [List.length_take, List.length_rotate, List.length_set] at h₁
    omega
  have hwrap := wrap_eq hbegin (show i ≤ b.buffer.length by omega)
  rw [List.getElem_take, List.getElem_rotate, List.getElem_set, List.getElem_append]
  simp only [List.length_set, List.length_take, List.length_rotate]
  rcases Nat.lt_or_eq_of_le hi with hi | rfl
  · -- an old element, somewhere else than at `_end`
    have hne : b.endIdx ≠ (i + b.beginIdx) % b.buffer.length := by
      rw [hend, hwrap]
      split <;> split <;> omega
    rw [dif_pos (by omega), if_neg hne, List.getElem_take, List.getElem_rotate]
  · rw [dif_neg (by omega), if_pos (hend.trans hwrap.symm), List.getElem_singleton]

@[simp] theorem length_push (b : CircularBuffer α) (val : α) :
    (b.push val).buffer.length = b.buffer.length := by
  unfold push
  split
  · rfl
  · simp

/-- **`pop` on a buffer that is not empty** returns the oldest element and leaves the others, in
their order. -/
theorem pop_spec {b : CircularBuffer α} (h : b.empty = false) :
    ∃ val b', b.pop = some (val, b') ∧ b.contents = val :: b'.contents ∧
      b'.buffer.length = b.buffer.length := by
  have hsize : 0 < b.size := by
    simp only [empty, beq_eq_false_iff_ne] at h
    omega
  have hpos : 0 < b.buffer.length := Nat.lt_of_lt_of_le hsize b.size_le
  have hbegin := b.begin_lt hpos
  have hle := b.size_le
  refine ⟨b.buffer[b.beginIdx], b.dropFirst hsize, dif_pos hsize, ?_, rfl⟩
  simp only [contents, dropFirst, advance_eq_mod hbegin]
  refine List.ext_getElem ?_ fun i h₁ h₂ => ?_
  · rw [List.length_cons, List.length_take, List.length_take, List.length_rotate,
      List.length_rotate]
    omega
  rw [List.getElem_take, List.getElem_rotate]
  cases i with
  | zero => simp [Nat.mod_eq_of_lt hbegin]
  | succ i =>
    rw [List.getElem_cons_succ, List.getElem_take, List.getElem_rotate]
    congr 1
    rw [Nat.add_mod_mod, Nat.add_assoc, Nat.add_comm 1]

end CircularBuffer

end Suduo
