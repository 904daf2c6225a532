/-
# Byte memory

A memory is a byte for each address.  `read` takes a run of bytes out of it and `write` puts one in; the
lemmas say what a read sees of a write, and that a read of several parts is the parts one after the
other.  `memcmp` is that of C, and what is used of it is when it is zero.
-/
import Mathlib.Data.List.Basic
import Suduo.Lib.Slice

namespace Lib

/-- A byte for each address. -/
abbrev Memory := Nat → Byte

namespace Memory

/-- The `n` bytes from address `p` on. -/
def read (mem : Memory) (p n : Nat) : List Byte := (List.range n).map fun i => mem (p + i)

/-- Put these bytes at address `p`. -/
def write (mem : Memory) (p : Nat) (bytes : List Byte) : Memory := fun i =>
  if p ≤ i then bytes[i - p]?.getD (mem i) else mem i

variable {mem : Memory} {p q n : Nat} {bytes xs ys : List Byte}

@[simp] theorem length_read (mem : Memory) (p n : Nat) : (mem.read p n).length = n := by
  rw [read, List.length_map, List.length_range]

theorem read_add (mem : Memory) (p m n : Nat) :
    mem.read p (m + n) = mem.read p m ++ mem.read (p + m) n := by
  simp only [read, List.range_add, List.map_append, List.map_map, Function.comp_def, Nat.add_assoc]

/-- These bytes are in memory at `p`. -/
def Has (mem : Memory) (p : Nat) (bytes : List Byte) : Prop := mem.read p bytes.length = bytes

/-- These bytes are in memory at `p`, and those behind them, exactly if all of them are. -/
theorem has_append : mem.Has p (xs ++ ys) ↔ mem.Has p xs ∧ mem.Has (p + xs.length) ys := by
  unfold Has
  rw [List.length_append, read_add]
  constructor
  · exact fun h => List.append_inj h (length_read mem p xs.length)
  · rintro ⟨h₁, h₂⟩
    rw [h₁, h₂]

/-- What was written is there, from its first byte to its last. -/
theorem has_write (mem : Memory) (p : Nat) (bytes : List Byte) : (mem.write p bytes).Has p bytes := by
  refine List.ext_getElem (length_read _ _ _) fun i _ hi => ?_
  simp only [read, List.getElem_map, List.getElem_range]
  rw [write, if_pos (Nat.le_add_right p i), Nat.add_sub_cancel_left, List.getElem?_eq_getElem hi,
    Option.getD_some]

/-- A read that the write does not touch, because it ends before or begins behind. -/
theorem read_write_apart (h : q + n ≤ p ∨ p + bytes.length ≤ q) :
    (mem.write p bytes).read q n = mem.read q n := by
  refine List.map_congr_left fun i hi => ?_
  rw [List.mem_range] at hi
  unfold write
  split
  · rw [List.getElem?_eq_none (by omega), Option.getD_none]
  · rfl

end Memory

/-- `memcmp` on two runs of the same length. -/
def memcmp : List Byte → List Byte → Int
  | x :: xs, y :: ys => if x = y then memcmp xs ys else x.toNat - y.toNat
  | _, _ => 0

theorem memcmp_eq_zero {xs ys : List Byte} (h : xs.length = ys.length) : memcmp xs ys = 0 ↔ xs = ys := by
  induction xs generalizing ys with
  | nil =>
    obtain rfl : ys = [] := List.length_eq_zero_iff.mp h.symm
    exact ⟨fun _ => rfl, fun _ => rfl⟩
  | cons x xs ih =>
    cases ys with
    | nil => simp at h
    | cons y ys =>
      have hlen : xs.length = ys.length := by simpa using h
      unfold memcmp
      split
      · rename_i heq
        rw [ih hlen, heq, List.cons.injEq, and_iff_right rfl]
      · rename_i hne
        have hdiff : (x.toNat : Int) - y.toNat ≠ 0 := by
          have : x.toNat ≠ y.toNat := fun h => hne (UInt8.toNat_inj.mp h)
          omega
        exact iff_of_false hdiff fun heq => hne (List.cons.inj heq).1

end Lib
