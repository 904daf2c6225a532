/-
# `CircularBuffer` with its `int`s

`base/CircularBuffer.h` declares `_begin`, `_end` and `_size` as `int`, indexes a vector with them and
compares them with its `size_t` length.  `Cells` has the fields as they are declared and computes as
the code does: `++` and `--` are undefined at the ends of the range, an `int` becomes a `size_t`
modulo `2 ^ 64`, and `vector::operator[]` is undefined outside the vector.  Undefined is `none`.

`CircularBuffer` of the module before carries its invariant in its type.  `push_cells` and `pop_cells`
say that up to a length of `2 ^ 31 - 1` the code moves from the fields of one such buffer to those of
the next, and `circular_fifo` follows by induction over the calls.
-/
import Mathlib.Data.Int.ModEq
import Suduo.Base.CircularBuffer
import Suduo.Lib.Reach

namespace Suduo.CircularBuffer

open Lib

variable {α : Type}

/-! ## 1. The code -/

structure Cells (α : Type) where
  buffer : List α
  beginIdx : Int
  endIdx : Int
  size : Int
  deriving DecidableEq

/-- `++` on an `int`. -/
def increment (i : Int) : Option Int := if i < 2 ^ 31 - 1 then some (i + 1) else none

/-- `--` on an `int`. -/
def decrement (i : Int) : Option Int := if -2 ^ 31 < i then some (i - 1) else none

/-- An `int` converted to `size_t`. -/
def toSize (i : Int) : Nat := (i % 2 ^ 64).toNat

/-- A `size_t` converted to `int`. -/
def toInt (n : Nat) : Int := (n : Int).bmod (2 ^ 32)

namespace Cells

/-- `CircularBuffer::CircularBuffer`. -/
def new [Inhabited α] (maxSize : Nat) : Cells α := ⟨List.replicate maxSize default, 0, 0, 0⟩

def full (c : Cells α) : Bool := toSize c.size == c.buffer.length

def empty (c : Cells α) : Bool := c.size == 0

/-- `size()`. -/
def sizeInt (c : Cells α) : Int := c.size

/-- `capacity()`; the difference is one of `size_t`s. -/
def capacity (c : Cells α) : Int := toInt ((c.buffer.length + 2 ^ 64 - toSize c.sizeInt) % 2 ^ 64)

def push (c : Cells α) (val : α) : Option (Cells α) :=
  if c.full then some c
  else do
    let idx := toSize c.endIdx
    let endIdx ← increment c.endIdx
    if idx < c.buffer.length then
      let buffer := c.buffer.set idx val
      let endIdx := if buffer.length ≤ toSize endIdx then 0 else endIdx
      let size ← increment c.size
      return { c with buffer, endIdx, size }
    else none

def pop (c : Cells α) : Option (α × Cells α) := do
  let val ← c.buffer[toSize c.beginIdx]?
  let beginIdx ← increment c.beginIdx
  let beginIdx := if c.buffer.length ≤ toSize beginIdx then 0 else beginIdx
  let size ← decrement c.size
  return (val, { c with beginIdx, size })

/-- The stored elements: `_size` of them, read from `_begin` on with wrap-around. -/
def stored (c : Cells α) : List α := (c.buffer.rotate (toSize c.beginIdx)).take (toSize c.size)

end Cells

/-! ## 2. The code on the fields of a well-formed buffer -/

/-- The fields of a buffer. -/
def cells (b : CircularBuffer α) : Cells α := ⟨b.buffer, b.beginIdx, b.endIdx, b.size⟩

theorem increment_eq {i : Nat} (h : i + 1 < 2 ^ 31) : increment i = some ((i + 1 : Nat) : Int) := by
  rw [increment, if_pos (by omega)]
  rfl

theorem decrement_eq {i : Nat} (h : 0 < i) : decrement i = some ((i - 1 : Nat) : Int) := by
  rw [decrement, if_pos (by omega), Int.natCast_sub h]
  rfl

@[simp] theorem toSize_eq {i : Nat} (h : i < 2 ^ 31) : toSize i = i := by
  unfold toSize
  omega

theorem toInt_eq {n : Nat} (h : n < 2 ^ 31) : toInt n = n :=
  Int.bmod_eq_of_le_mul_two (by omega) (by omega)

/-- The `if` that wraps an index around, on an `int` that is converted to compare it. -/
theorem wrap_advance {n i : Nat} (hn : n < 2 ^ 31) (hi : i < n) :
    (if n ≤ toSize ((i + 1 : Nat) : Int) then 0 else ((i + 1 : Nat) : Int)) = (advance n i : Nat) := by
  rw [toSize_eq (by omega), advance]
  split <;> rfl

theorem empty_cells (b : CircularBuffer α) : b.cells.empty = b.empty := by
  change ((b.size : Int) == 0) = (b.size == 0)
  rw [Bool.eq_iff_iff, beq_iff_eq, beq_iff_eq, Int.natCast_eq_zero]

section

variable {b : CircularBuffer α} (hn : b.buffer.length < 2 ^ 31)
include hn

theorem full_cells : b.cells.full = b.full := by
  have hle := b.size_le
  change (toSize b.size == b.buffer.length) = (b.size == b.buffer.length)
  rw [toSize_eq (by omega)]

theorem capacity_cells : b.cells.capacity = b.capacity := by
  have hle := b.size_le
  change toInt ((b.buffer.length + 2 ^ 64 - toSize b.size) % 2 ^ 64) = (b.buffer.length - b.size : Nat)
  have hdiff : (b.buffer.length + 2 ^ 64 - b.size) % 2 ^ 64 = b.buffer.length - b.size := by omega
  rw [toSize_eq (by omega), hdiff, toInt_eq (by omega)]

theorem stored_cells : b.cells.stored = b.contents := by
  have hle := b.size_le
  rcases Nat.eq_zero_or_pos b.buffer.length with h0 | hpos
  · have hnil : b.buffer = [] := List.length_eq_zero_iff.mp h0
    simp [Cells.stored, contents, cells, hnil]
  · have hlt := b.begin_lt hpos
    change (b.buffer.rotate (toSize b.beginIdx)).take (toSize b.size) = _
    rw [toSize_eq (by omega), toSize_eq (by omega)]
    rfl

/-- **`push` of the code** goes from the fields of a buffer to those of the buffer pushed to: no
`int` overflows, no conversion changes a value and no index is outside the vector. -/
theorem push_cells (val : α) : b.cells.push val = some (b.push val).cells := by
  unfold Cells.push CircularBuffer.push
  rw [full_cells hn]
  by_cases hfull : b.full = true
  · rw [if_pos hfull, dif_pos hfull]
  · have hle := b.size_le
    have hlt : b.size < b.buffer.length := by
      simp only [full, beq_iff_eq] at hfull
      omega
    have hend := b.end_lt (by omega)
    have hidx : toSize b.cells.endIdx = b.endIdx := toSize_eq (by omega)
    have hnext : increment b.cells.endIdx = some ((b.endIdx + 1 : Nat) : Int) := increment_eq (by omega)
    have hsize : increment b.cells.size = some ((b.size + 1 : Nat) : Int) := increment_eq (by omega)
    have hin : b.endIdx < b.cells.buffer.length := hend
    have hwrap := wrap_advance hn hend
    rw [if_neg hfull, dif_neg hfull, hidx, hnext, hsize]
    simp only [Option.bind_eq_bind, Option.bind_some, if_pos hin, List.length_set]
    change some (Cells.mk _ _ (if b.buffer.length ≤ _ then 0 else _) _) = _
    rw [hwrap]
    rfl

/-- **`pop` of the code**, on a buffer that is not empty, for the same reasons. -/
theorem pop_cells (h : 0 < b.size) :
    b.cells.pop = b.pop.map fun r => (r.1, r.2.cells) := by
  have hle := b.size_le
  have hbegin := b.begin_lt (b.length_pos h)
  have hat : b.cells.buffer[toSize b.cells.beginIdx]? = some b.buffer[b.beginIdx] := by
    change b.buffer[toSize b.beginIdx]? = _
    rw [toSize_eq (by omega), List.getElem?_eq_getElem hbegin]
  have hnext : increment b.cells.beginIdx = some ((b.beginIdx + 1 : Nat) : Int) :=
    increment_eq (by omega)
  have hsize : decrement b.cells.size = some ((b.size - 1 : Nat) : Int) := decrement_eq h
  have hwrap := wrap_advance hn hbegin
  rw [Cells.pop, CircularBuffer.pop, dif_pos h, hat, hnext, hsize]
  simp only [Option.bind_eq_bind, Option.bind_some, Option.map_some]
  change some (_, Cells.mk _ (if b.buffer.length ≤ _ then 0 else _) _ _) = _
  rw [hwrap]
  rfl

end

/-! ## 3. Calls, and what they mean -/

inductive Op (α : Type)
  | push (val : α)
  | pop
  deriving DecidableEq

/-- The buffer, and what `pop` has returned so far. -/
structure State (α : Type) where
  cells : Cells α
  returned : List α
  deriving DecidableEq

/-- A `CircularBuffer` that nothing was called on. -/
def start [Inhabited α] (n : Nat) : State α := ⟨.new n, []⟩

def step (s : State α) : Op α → Option (State α)
  | .push val => do
    let cells ← s.cells.push val
    return { s with cells }
  | .pop => do
    let (val, cells) ← s.cells.pop
    return ⟨cells, s.returned ++ [val]⟩

/-- `pop` is only called when the buffer is not empty. -/
def PopsStored (s : State α) : Op α → Prop
  | .push _ => True
  | .pop => s.cells.empty = false

instance (s : State α) : (op : Op α) → Decidable (PopsStored s op)
  | .push _ => .isTrue trivial
  | .pop => inferInstanceAs (Decidable (_ = false))

/-- A queue of bounded length, with everything that was put into it and taken out of it. -/
structure Fifo (α : Type) where
  accepted : List α
  popped : List α
  queue : List α
  deriving DecidableEq

/-- One call, on a queue of at most `n` elements: what is pushed onto a full one is discarded. -/
def Fifo.step (n : Nat) (f : Fifo α) : Op α → Fifo α
  | .push val =>
    if f.queue.length = n then f
    else { f with accepted := f.accepted ++ [val], queue := f.queue ++ [val] }
  | .pop =>
    match f.queue with
    | [] => f
    | val :: queue => { f with popped := f.popped ++ [val], queue }

def fifo (n : Nat) (ops : List (Op α)) : Fifo α := ops.foldl (Fifo.step n) ⟨[], [], []⟩

/-- What the members of a buffer of length `n` say, when `q` is stored. -/
structure Agrees (n : Nat) (c : Cells α) (q : List α) : Prop where
  begin_range : 0 ≤ c.beginIdx ∧ c.beginIdx < n
  end_range : 0 ≤ c.endIdx ∧ c.endIdx < n
  size_range : 0 ≤ c.size ∧ c.size ≤ n
  end_eq : c.endIdx ≡ c.beginIdx + c.size [ZMOD n]
  stored : c.stored = q
  full : c.full = (q.length == n)
  empty : c.empty = q.isEmpty
  size : c.sizeInt = q.length
  capacity : c.capacity = n - q.length
  push_full : c.full = true → ∀ val, c.push val = some c

/-! ## 4. The refinement -/

/-- The state is that of a well-formed buffer, and its contents are the queue.  The buffer stands
between the two: the code refines it by `push_cells` and `pop_cells`, and it refines the queue by
`contents_push` and `pop_spec`. -/
structure Sim (n : Nat) (s : State α) (f : Fifo α) (b : CircularBuffer α) : Prop where
  cells : s.cells = b.cells
  length : b.buffer.length = n
  contents : b.contents = f.queue
  returned : s.returned = f.popped
  balance : f.popped ++ f.queue = f.accepted

variable {n : Nat} {s : State α} {f : Fifo α} {b : CircularBuffer α}

theorem sim_start [Inhabited α] (n : Nat) :
    Sim n (start n : State α) ⟨[], [], []⟩ (CircularBuffer.new n) where
  cells := rfl
  length := List.length_replicate
  contents := contents_new n
  returned := rfl
  balance := rfl

/-- **The step lemma**: a call that is allowed succeeds and does to the queue what it should. -/
theorem step_sim (hn : n < 2 ^ 31) (h : Sim n s f b) (op : Op α) (hop : PopsStored s op) :
    ∃ s' b', step s op = some s' ∧ Sim n s' (f.step n op) b' := by
  have hlen : b.buffer.length < 2 ^ 31 := by rw [h.length]; exact hn
  have hq : f.queue.length = b.size := by rw [← h.contents, length_contents]
  cases op with
  | push val =>
    refine ⟨{ s with cells := (b.push val).cells }, b.push val, ?_, ?_⟩
    · rw [step, h.cells, push_cells hlen val]
      rfl
    by_cases hfull : b.full = true
    · -- discarded
      have hat : f.queue.length = n := by
        rw [hq, ← h.length]
        exact beq_iff_eq.mp hfull
      have hsame : b.push val = b := dif_pos hfull
      rw [hsame, Fifo.step, if_pos hat]
      exact { h with cells := rfl }
    · have hroom : b.full = false := Bool.eq_false_iff.mpr hfull
      have hne : f.queue.length ≠ n := by
        intro hat
        rw [hq, ← h.length] at hat
        exact hfull (beq_iff_eq.mpr hat)
      rw [Fifo.step, if_neg hne]
      exact {
        cells := rfl
        length := (length_push b val).trans h.length
        contents := by rw [contents_push hroom, h.contents]
        returned := h.returned
        balance := by rw [← List.append_assoc, h.balance] }
  | pop =>
    have hempty : b.empty = false := by
      rw [← empty_cells, ← h.cells]
      exact hop
    have hpos : 0 < b.size := by
      simp only [empty, beq_eq_false_iff_ne] at hempty
      omega
    obtain ⟨val, b', hpop, hcons, hkeep⟩ := pop_spec hempty
    rw [h.contents] at hcons
    refine ⟨⟨b'.cells, s.returned ++ [val]⟩, b', ?_, ?_⟩
    · rw [step, h.cells, pop_cells hlen hpos, hpop]
      rfl
    · simp only [Fifo.step, hcons]
      have hbal := h.balance
      rw [hcons] at hbal
      exact {
        cells := rfl
        length := hkeep.trans h.length
        contents := rfl
        returned := by rw [h.returned]
        balance := by rw [List.append_assoc, List.singleton_append, hbal] }

/-- The run lemma: what `step_sim` says of one call, along any list of calls. -/
theorem exec_sim (hn : n < 2 ^ 31) (ops : List (Op α)) (h : Sim n s f b)
    (hops : Meets step PopsStored s ops) :
    ∃ s' b', exec step s ops = some s' ∧ Sim n s' (ops.foldl (Fifo.step n) f) b' := by
  induction ops generalizing s f b with
  | nil => exact ⟨s, b, rfl, h⟩
  | cons op ops ih =>
    obtain ⟨s₁, b₁, hst, hsim⟩ := step_sim hn h op hops.1
    obtain ⟨s₂, b₂, hrest, hsim₂⟩ := ih hsim (hops.2 s₁ hst)
    refine ⟨s₂, b₂, ?_, hsim₂⟩
    rw [exec, hst, Option.bind_some, hrest]

/-- What the type of a buffer keeps is what its members say. -/
theorem Sim.agrees (hpos : 1 ≤ n) (hn : n < 2 ^ 31) (h : Sim n s f b) : Agrees n s.cells f.queue := by
  have hlen : b.buffer.length < 2 ^ 31 := by rw [h.length]; exact hn
  have hle := b.size_le
  have hbegin := b.begin_lt (by rw [h.length]; exact hpos)
  have hend := b.end_lt (by rw [h.length]; exact hpos)
  have heq := b.end_eq (by rw [h.length]; exact hpos)
  have hq : f.queue.length = b.size := by rw [← h.contents, length_contents]
  rw [h.length] at hle hbegin hend heq
  rw [h.cells]
  exact {
    begin_range := ⟨Int.natCast_nonneg _, Int.ofNat_lt.mpr hbegin⟩
    end_range := ⟨Int.natCast_nonneg _, Int.ofNat_lt.mpr hend⟩
    size_range := ⟨Int.natCast_nonneg _, Int.ofNat_le.mpr hle⟩
    end_eq := by
      change (b.endIdx : Int) ≡ b.beginIdx + b.size [ZMOD n]
      rw [heq, Int.natCast_mod, Int.natCast_add]
      exact Int.mod_modEq _ _
    stored := (stored_cells hlen).trans h.contents
    full := by rw [full_cells hlen, full, h.length, hq]
    empty := by
      rw [empty_cells, empty, ← hq, Bool.eq_iff_iff, beq_iff_eq, List.isEmpty_iff]
      exact List.length_eq_zero_iff
    size := by rw [hq]; rfl
    capacity := by rw [capacity_cells hlen, capacity, h.length, hq, Int.natCast_sub hle]
    push_full := fun hfull val => if_pos hfull }

/-- **`CircularBuffer` is a bounded FIFO.**  No run of calls that pops only what is there reaches
undefined behaviour, and after it the members agree with the queue of what was accepted and not
yet popped; what was popped are the oldest, in order.  The length may be anything that an `int`
can count, and the calls any list: the invariant of the type does the work, and the induction
only follows it. -/
theorem circular_fifo [Inhabited α] {n : Nat} (hpos : 1 ≤ n) (hn : n < 2 ^ 31) (ops : List (Op α))
    (hops : Meets step PopsStored (start n) ops) :
    ∃ s, exec step (start n) ops = some s ∧ Agrees n s.cells (fifo n ops).queue ∧
      s.returned = (fifo n ops).popped ∧
      (fifo n ops).popped ++ (fifo n ops).queue = (fifo n ops).accepted := by
  obtain ⟨s, b, hrun, hsim⟩ := exec_sim hn ops (sim_start n) hops
  exact ⟨s, hrun, hsim.agrees hpos hn, hsim.returned, hsim.balance⟩

/-- Full at once, one discarded, and around the end. -/
def wrapping : List (Op Nat) := [.push 1, .push 2, .push 3, .pop, .push 4, .pop, .push 5, .push 6]

theorem circular_fifo_wrapping : ∃ s, exec step (start 2) wrapping = some s ∧
    Agrees 2 s.cells [4, 5] ∧ s.returned = [1, 2] := by
  obtain ⟨s, hrun, hagrees, hret, -⟩ :=
    circular_fifo (n := 2) (by decide) (by decide) wrapping (by decide)
  exact ⟨s, hrun, hagrees, hret⟩

end Suduo.CircularBuffer
