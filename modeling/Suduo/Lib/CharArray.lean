/-
# Character arrays

An array of characters has a fixed size, and a write that does not lie within it has no meaning: `put`
then gives nothing.  A C string is what is before the first terminator, and there must be one.

Code that prints into an array goes from left to right.  So what is known of it is how it starts
(`s <+: arr`): a write at the end of what is known makes that longer (`put_extend`), and with a
terminator at its end it is the string (`cString_eq`).
-/
import Mathlib.Data.List.TakeWhile
import Suduo.Lib.Slice

namespace Lib.CharArray

/-- The terminator. -/
def nul : Char := Char.ofNat 0

/-- `s` is written from `off` on; nothing comes of it if that runs past the end of the array. -/
def put (arr : List Char) (off : Nat) (s : List Char) : Option (List Char) :=
  if off + s.length ≤ arr.length then some (overwrite arr off s) else none

/-- The string that starts where the array does.  Without a terminator there is none, and
whatever reads one goes on behind the array. -/
def cString (arr : List Char) : Option (List Char) :=
  if nul ∈ arr then some (arr.takeWhile (· ≠ nul)) else none

def strlen (arr : List Char) : Option Nat := (cString arr).map List.length

variable {arr arr' s pre : List Char} {off : Nat}

theorem put_eq (h : off + s.length ≤ arr.length) : put arr off s = some (overwrite arr off s) := if_pos h

/-- Writing at the end of what is known of the array makes that longer by what is written, and
leaves the size of the array as it is. -/
theorem put_extend (hpre : pre <+: arr) (h : pre.length + s.length ≤ arr.length) :
    ∃ arr', put arr pre.length s = some arr' ∧ pre ++ s <+: arr' ∧ arr'.length = arr.length := by
  refine ⟨overwrite arr pre.length s, put_eq h, ?_, length_overwrite h⟩
  rw [overwrite, ← List.prefix_iff_eq_take.mp hpre]
  exact List.prefix_append _ _

theorem cString_eq (hplain : nul ∉ s) (h : s ++ [nul] <+: arr) : cString arr = some s := by
  obtain ⟨post, rfl⟩ := h
  have hmem : nul ∈ s ++ [nul] ++ post := by simp
  have hall : ∀ c ∈ s, decide (c ≠ nul) = true := fun c hc => decide_eq_true fun heq => hplain (heq ▸ hc)
  have hstop : ([nul] ++ post).takeWhile (· ≠ nul) = [] := rfl
  rw [cString, if_pos hmem, List.append_assoc, List.takeWhile_append_of_pos hall, hstop, List.append_nil]

theorem strlen_eq (hplain : nul ∉ s) (h : s ++ [nul] <+: arr) : strlen arr = some s.length := by
  rw [strlen, cString_eq hplain h, Option.map_some]

end Lib.CharArray
