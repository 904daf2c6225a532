/-
# Words in memory

A number takes `n` bytes, and a host keeps them from the lowest or from the highest.  What two hosts
exchange is in the second order, so a host of the first kind swaps the bytes of a word before it copies it
out.  `store_toBig` and `toBig_load` say that the swap is right: on either kind of host the bytes that go
out are the number from its highest byte, and a word that came in reads as that number.

Signed numbers go through unsigned words of the same size and back (`unsigned`, `signed`), which loses
nothing of a number that fits.
-/
import Mathlib.Data.Nat.Digits.Defs
import Suduo.Lib.Slice

namespace Lib

/-! ## 1. The two orders -/

/-- The `n` low bytes of a number, from the lowest. -/
def lowFirst : Nat → Nat → List Byte
  | 0, _ => []
  | n + 1, x => UInt8.ofNat x :: lowFirst n (x / 256)

/-- The same from the highest: the order of the network. -/
def highFirst (n x : Nat) : List Byte := (lowFirst n x).reverse

/-- The number that has these bytes, from the lowest. -/
def ofLowFirst (bytes : List Byte) : Nat := Nat.ofDigits 256 (bytes.map UInt8.toNat)

def ofHighFirst (bytes : List Byte) : Nat := ofLowFirst bytes.reverse

variable {n x : Nat} {bytes : List Byte}

@[simp] theorem length_lowFirst (n x : Nat) : (lowFirst n x).length = n := by
  induction n generalizing x with
  | zero => rfl
  | succ n ih => rw [lowFirst, List.length_cons, ih]

@[simp] theorem length_highFirst (n x : Nat) : (highFirst n x).length = n := by
  rw [highFirst, List.length_reverse, length_lowFirst]

theorem ofLowFirst_lt (bytes : List Byte) : ofLowFirst bytes < 256 ^ bytes.length := by
  have hlt : ∀ d ∈ bytes.map UInt8.toNat, d < 256 := by
    intro d hd
    obtain ⟨b, -, rfl⟩ := List.mem_map.mp hd
    exact b.toNat_lt
  have h := Nat.ofDigits_lt_base_pow_length (by decide) hlt
  rwa [List.length_map] at h

theorem ofHighFirst_lt (bytes : List Byte) : ofHighFirst bytes < 256 ^ bytes.length := by
  have h := ofLowFirst_lt bytes.reverse
  rwa [List.length_reverse] at h

/-- A number that fits comes back from its bytes. -/
theorem ofLowFirst_lowFirst (h : x < 256 ^ n) : ofLowFirst (lowFirst n x) = x := by
  induction n generalizing x with
  | zero =>
    obtain rfl : x = 0 := by omega
    rfl
  | succ n ih =>
    have hrest : x / 256 < 256 ^ n := Nat.div_lt_of_lt_mul (by rwa [Nat.pow_succ, Nat.mul_comm] at h)
    have hhead : (UInt8.ofNat x).toNat = x % 256 := UInt8.toNat_ofNat'
    rw [lowFirst, ofLowFirst, List.map_cons, Nat.ofDigits_cons]
    change (UInt8.ofNat x).toNat + 256 * ofLowFirst (lowFirst n (x / 256)) = x
    rw [ih hrest, hhead, Nat.mod_add_div]

theorem ofHighFirst_highFirst (h : x < 256 ^ n) : ofHighFirst (highFirst n x) = x := by
  rw [ofHighFirst, highFirst, List.reverse_reverse, ofLowFirst_lowFirst h]

/-- Bytes come back from the number they make. -/
theorem lowFirst_ofLowFirst (bytes : List Byte) : lowFirst bytes.length (ofLowFirst bytes) = bytes := by
  induction bytes with
  | nil => rfl
  | cons b bytes ih =>
    have hb : b.toNat < 256 := b.toNat_lt
    have hsplit : ofLowFirst (b :: bytes) = b.toNat + 256 * ofLowFirst bytes := rfl
    have hlow : UInt8.ofNat (b.toNat + 256 * ofLowFirst bytes) = b := by
      refine UInt8.toNat_inj.mp ?_
      rw [UInt8.toNat_ofNat']
      omega
    have hhigh : (b.toNat + 256 * ofLowFirst bytes) / 256 = ofLowFirst bytes := by omega
    rw [hsplit, List.length_cons, lowFirst, hlow, hhigh, ih]

/-! ## 2. Words of a host -/

/-- How a host keeps its words: the lowest byte first, or the highest. -/
inductive Endian
  | little | big
  deriving DecidableEq, Repr

namespace Endian

/-- A word of `n` bytes, in memory. -/
def store : Endian → Nat → Nat → List Byte
  | .little, n, x => lowFirst n x
  | .big, n, x => highFirst n x

/-- The word in these bytes of memory. -/
def load : Endian → List Byte → Nat
  | .little, bytes => ofLowFirst bytes
  | .big, bytes => ofHighFirst bytes

/-- The word to keep, so that the bytes in memory are those of `x` from the highest; and back,
since the swap undoes itself. -/
def toBig : Endian → Nat → Nat → Nat
  | .little, n, x => ofLowFirst (highFirst n x)
  | .big, _, x => x

variable {e : Endian}

@[simp] theorem length_store (e : Endian) (n x : Nat) : (e.store n x).length = n := by
  cases e with
  | little => exact length_lowFirst n x
  | big => exact length_highFirst n x

theorem load_lt (e : Endian) (bytes : List Byte) : e.load bytes < 256 ^ bytes.length := by
  cases e with
  | little => exact ofLowFirst_lt bytes
  | big => exact ofHighFirst_lt bytes

theorem toBig_lt (h : x < 256 ^ n) : e.toBig n x < 256 ^ n := by
  cases e with
  | little =>
    have hlt := ofLowFirst_lt (highFirst n x)
    rwa [length_highFirst] at hlt
  | big => exact h

/-- **What goes out** is in the order of the network: on a host that keeps the highest byte first
there is nothing to swap, and on the other the two reversals are one. -/
theorem store_toBig (e : Endian) (n x : Nat) : e.store n (e.toBig n x) = highFirst n x := by
  cases e with
  | little =>
    have h := lowFirst_ofLowFirst (highFirst n x)
    rwa [length_highFirst] at h
  | big => rfl

/-- **What came in** is read in the order of the network, on either kind of host. -/
theorem toBig_load (e : Endian) (bytes : List Byte) :
    e.toBig bytes.length (e.load bytes) = ofHighFirst bytes := by
  cases e with
  | little =>
    change ofLowFirst (lowFirst bytes.length (ofLowFirst bytes)).reverse = _
    rw [lowFirst_ofLowFirst]
    rfl
  | big => rfl

/-- A word that fits comes back from memory, -/
theorem load_store (e : Endian) (h : x < 256 ^ n) : e.load (e.store n x) = x := by
  cases e with
  | little => exact ofLowFirst_lowFirst h
  | big => exact ofHighFirst_highFirst h

/-- and so does memory from a word. -/
theorem store_load (e : Endian) (bytes : List Byte) : e.store bytes.length (e.load bytes) = bytes := by
  cases e with
  | little => exact lowFirst_ofLowFirst bytes
  | big =>
    have h := lowFirst_ofLowFirst bytes.reverse
    rw [List.length_reverse] at h
    rw [store, load, highFirst, ofHighFirst, h, List.reverse_reverse]

/-- Words are equal when their bytes are, so comparing two words is comparing two stretches of
memory of the same length. -/
theorem load_inj (e : Endian) {xs ys : List Byte} (hlen : xs.length = ys.length) :
    e.load xs = e.load ys ↔ xs = ys := by
  constructor
  · intro h
    rw [← store_load e xs, ← store_load e ys, hlen, h]
  · exact congrArg e.load

/-- A single byte is the same on every host, since there is no order to choose. -/
theorem store_one (e : Endian) (x : Nat) : e.store 1 x = highFirst 1 x := by
  cases e <;> rfl

theorem load_one (e : Endian) (h : bytes.length = 1) : e.load bytes = ofHighFirst bytes := by
  obtain ⟨b, rfl⟩ := List.length_eq_one_iff.mp h
  cases e <;> rfl

end Endian

/-! ## 3. Signed numbers -/

/-- The word of `n` bytes that a signed number is converted to. -/
def unsigned (n : Nat) (x : Int) : Nat := (x % (256 ^ n : Nat)).toNat

/-- The signed number that a word of `n` bytes is converted to: its two's complement. -/
def signed (n u : Nat) : Int := (u : Int).bmod (256 ^ n)

theorem cast_unsigned (n : Nat) (x : Int) : (unsigned n x : Int) = x % (256 ^ n : Nat) :=
  Int.toNat_of_nonneg (Int.emod_nonneg x (Int.natCast_ne_zero.mpr (Nat.pow_pos (by decide)).ne'))

theorem unsigned_lt (n : Nat) (x : Int) : unsigned n x < 256 ^ n := by
  have h : (unsigned n x : Int) < (256 ^ n : Nat) := by
    rw [cast_unsigned]
    exact Int.emod_lt_of_pos x (Int.natCast_pos.mpr (Nat.pow_pos (by decide)))
  exact Int.ofNat_lt.mp h

/-- A signed number that fits comes back.  The bounds are those of `n` bytes in two's complement,
doubled so that no division occurs. -/
theorem signed_unsigned {x : Int} (hle : -(256 ^ n : Nat) ≤ x * 2) (hlt : x * 2 < (256 ^ n : Nat)) :
    signed n (unsigned n x) = x := by
  rw [signed, cast_unsigned, Int.emod_bmod, Int.bmod_eq_of_le_mul_two hle hlt]

/-- And so does a word, through the signed number that it stands for. -/
theorem unsigned_signed {u : Nat} (h : u < 256 ^ n) : unsigned n (signed n u) = u := by
  have hcast : (unsigned n (signed n u) : Int) = u := by
    rw [cast_unsigned, signed, Int.bmod_emod]
    exact Int.emod_eq_of_lt (Int.natCast_nonneg u) (Int.ofNat_lt.mpr h)
  exact Int.ofNat_inj.mp hcast

end Lib
