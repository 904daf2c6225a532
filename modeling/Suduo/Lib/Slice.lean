/-
# Slices of a flat memory block

A contiguous block is a list; `slice v a b` are its elements at offsets `a ≤ i < b`, and
`overwrite v off d` is the block after copying `d` to offset `off`.  The lemmas say how the two
compose: a slice sees exactly the part of an overwrite that it overlaps, adjacent slices join, and
dropping or taking from a slice moves one of its ends.  They are stated with the bounds the copies
of real code have, so that "in bounds" is always the side condition and never hidden in the
definition.

`swapRemove v i` is the block without its element at `i`, the last one moved to the hole.
-/
import Mathlib.Data.List.Basic
import Mathlib.Tactic.Basic

namespace Lib

/-- The unit of memory and of byte streams. -/
abbrev Byte := UInt8

variable {α : Type*}

/-- The elements at offsets `a ≤ i < b`.  Where an offset is out of range there is less, and it
is the lemmas that ask for the bounds. -/
def slice (v : List α) (a b : Nat) : List α := (v.take b).drop a

/-- The block after copying `d` to offset `off`. -/
def overwrite (v : List α) (off : Nat) (d : List α) : List α :=
  v.take off ++ d ++ v.drop (off + d.length)

theorem length_slice {v : List α} {a b : Nat} (h : b ≤ v.length) :
    (slice v a b).length = b - a := by
  simp only [slice, List.length_drop, List.length_take]
  omega

@[simp] theorem slice_self (v : List α) (a : Nat) : slice v a a = [] := by
  rw [slice, List.drop_eq_nil_iff, List.length_take]
  omega

theorem length_overwrite {v : List α} {off : Nat} {d : List α} (h : off + d.length ≤ v.length) :
    (overwrite v off d).length = v.length := by
  simp only [overwrite, List.length_append, List.length_take, List.length_drop]
  omega

/-- The block up to the end of what was copied: what stood in front, and the copy. -/
theorem take_overwrite {v : List α} {off : Nat} {d : List α} (h : off ≤ v.length) :
    (overwrite v off d).take (off + d.length) = v.take off ++ d := by
  have hlen : (v.take off ++ d).length = off + d.length := by
    rw [List.length_append, List.length_take, Nat.min_eq_left h]
  rw [overwrite, ← hlen, List.take_left]

/-- Adjacent slices join.  With the three lemmas on what an overwrite changes, this is how the
contents of a block are followed through a copy. -/
theorem slice_append_slice (v : List α) {a b c : Nat} (hab : a ≤ b) (hbc : b ≤ c) :
    slice v a b ++ slice v b c = slice v a c := by
  have hsplit : v.take c = v.take b ++ (v.take c).drop b := by
    conv_lhs => rw [← List.take_append_drop b (v.take c)]
    rw [List.take_take, Nat.min_eq_left hbc]
  simp only [slice]
  rcases Nat.lt_or_ge v.length a with hlt | hge
  · -- both sides are empty
    have hz : ∀ n m, n ≥ a → ((v.take m).drop n) = [] := by
      intro n m hn
      rw [List.drop_eq_nil_iff, List.length_take]
      omega
    rw [hz a b (Nat.le_refl a), hz b c hab, hz a c (Nat.le_refl a), List.append_nil]
  · conv_rhs => rw [hsplit]
    rw [List.drop_append, List.length_take]
    have h0 : a - min b v.length = 0 := by omega
    rw [h0, List.drop_zero]

theorem drop_slice (v : List α) (a b n : Nat) : (slice v a b).drop n = slice v (a + n) b := by
  rw [slice, slice, List.drop_drop]

theorem take_slice (v : List α) {a b n : Nat} (h : a + n ≤ b) :
    (slice v a b).take n = slice v a (a + n) := by
  rw [slice, slice, List.take_drop, List.take_take, Nat.min_eq_left h]

/-- What was copied is there, at the place to which it was copied. -/
theorem slice_overwrite_self {v : List α} {off : Nat} {d : List α} (h : off ≤ v.length) :
    slice (overwrite v off d) off (off + d.length) = d := by
  have hoff : (v.take off).length = off := by rw [List.length_take]; omega
  rw [slice, overwrite, List.append_assoc, List.take_append, hoff, List.drop_append]
  have h1 : off + d.length - off = d.length := by omega
  rw [h1, List.take_left, List.take_of_length_le (by rw [hoff]; omega), hoff, Nat.sub_self,
    List.drop_of_length_le (Nat.le_of_eq hoff), List.nil_append, List.drop_zero]

/-- A slice before the copied range does not see it. -/
theorem slice_overwrite_left {v : List α} {off a b : Nat} {d : List α} (h : b ≤ off)
    (hoff : off ≤ v.length) : slice (overwrite v off d) a b = slice v a b := by
  have hlen : (v.take off).length = off := by rw [List.length_take]; omega
  rw [slice, slice, overwrite, List.append_assoc, List.take_append_of_le_length (by omega),
    List.take_take, Nat.min_eq_left h]

/-- A slice after the copied range does not see it. -/
theorem slice_overwrite_right {v : List α} {off a b : Nat} {d : List α} (h : off + d.length ≤ a)
    (hoff : off ≤ v.length) : slice (overwrite v off d) a b = slice v a b := by
  have hlen : (v.take off ++ d).length = off + d.length := by
    rw [List.length_append, List.length_take]
    omega
  have hdrop : (overwrite v off d).drop a = v.drop a := by
    rw [overwrite, List.drop_append, List.drop_of_length_le (by omega), List.nil_append, hlen,
      List.drop_drop]
    congr 1
    omega
  rw [slice, slice, List.drop_take, List.drop_take, hdrop]

/-- Growing a block at its end does not change its slices. -/
theorem slice_append_right {v : List α} (w : List α) {a b : Nat} (h : b ≤ v.length) :
    slice (v ++ w) a b = slice v a b := by
  rw [slice, slice, List.take_append_of_le_length h]

/-! ## Removal by swapping -/

/-- The last element fills the hole at `i`. -/
def swapRemove (v : List α) (i : Nat) : List α :=
  match v.getLast? with
  | some x => (v.set i x).dropLast
  | none => v

/-- The last element moves to `i`, the others stay, and the block is shorter by one.  If `i` is
the last one there is no move, and the statement covers that: the element is gone. -/
theorem getElem?_swapRemove {v : List α} {i j : Nat} (hi : i < v.length) :
    (swapRemove v i)[j]? =
      if j < v.length - 1 then (if j = i then v[v.length - 1]? else v[j]?) else none := by
  have hlast : v.getLast? = v[v.length - 1]? := List.getLast?_eq_getElem?
  have hx : v[v.length - 1]? = some (v[v.length - 1]) := List.getElem?_eq_getElem (by omega)
  unfold swapRemove
  rw [hlast, hx]
  dsimp only
  rw [List.getElem?_dropLast, List.length_set, List.getElem?_set]
  split
  · by_cases hij : i = j
    · subst hij
      simp
    · rw [if_neg hij, if_neg (Ne.symm hij)]
  · rfl

theorem swapRemove_last {v : List α} : swapRemove v (v.length - 1) = v.dropLast := by
  unfold swapRemove
  cases h : v.getLast? with
  | none => rw [List.getLast?_eq_none_iff.mp h]; rfl
  | some x =>
    dsimp only
    refine List.ext_getElem? fun j => ?_
    rw [List.getElem?_dropLast, List.getElem?_dropLast, List.length_set]
    split
    · rw [List.getElem?_set_ne (by omega)]
    · rfl

end Lib
