/-
# The text of IP addresses

The canonical text of an IPv4 address is its four bytes in decimal.  That of an IPv6 address is its eight
words in hexadecimal, without the longest run of two or more zeros, the first of several (`::`); an IPv4
address at the end of a `::` or `::ffff:` is written as one.  `text4` and `text6` print, `bytes4` and
`parse6` read back.

A text is its groups with a separator between them, and splitting at the separator gives the groups
back; so the round trips (`bytes4_text4`, `parse6_text6`) are facts about lists of groups.  The reader
takes more than what the printer prints.
-/
import Mathlib.Data.List.TakeWhile
import Mathlib.Tactic.Basic
import Suduo.Lib.Slice

namespace Lib.IpText

/-! ## 1. Numbers in a base -/

/-- The value of a digit. -/
def digitVal (c : Char) : Nat := if c.isDigit then c.toNat - 48 else c.toNat - 87

def ofDigits (b : Nat) (s : List Char) : Nat := s.foldl (fun acc c => b * acc + digitVal c) 0

theorem digitVal_digitChar : ∀ d < 16, digitVal d.digitChar = d := by decide

theorem ofDigits_append (b : Nat) (s : List Char) (c : Char) :
    ofDigits b (s ++ [c]) = b * ofDigits b s + digitVal c := by
  rw [ofDigits, List.foldl_append]
  rfl

variable {b n : Nat}

theorem ofDigits_toDigits (hb : 1 < b) (hb' : b ≤ 16) (n : Nat) : ofDigits b (Nat.toDigits b n) = n := by
  induction n using Nat.strongRecOn with
  | ind n ih =>
    by_cases h : n < b
    · rw [Nat.toDigits_of_lt_base h]
      change b * 0 + digitVal n.digitChar = n
      rw [digitVal_digitChar n (by omega), Nat.mul_zero, Nat.zero_add]
    · have hmod : n % b < 16 := Nat.lt_of_lt_of_le (Nat.mod_lt n (by omega)) hb'
      rw [Nat.toDigits_of_base_le hb (by omega), ofDigits_append,
        ih (n / b) (Nat.div_lt_self (by omega) hb), digitVal_digitChar _ hmod, Nat.div_add_mod]

/-- What is printed are digits, so nothing in it can be taken for a separator. -/
theorem mem_toDigits (hb : 1 < b) (hb' : b ≤ 16) {c : Char} (h : c ∈ Nat.toDigits b n) :
    ∃ d < 16, c = d.digitChar := by
  induction n using Nat.strongRecOn with
  | ind n ih =>
    by_cases hn : n < b
    · rw [Nat.toDigits_of_lt_base hn, List.mem_singleton] at h
      exact ⟨n, by omega, h⟩
    · rw [Nat.toDigits_of_base_le hb (by omega), List.mem_append, List.mem_singleton] at h
      rcases h with h | h
      · exact ih (n / b) (Nat.div_lt_self (by omega) hb) h
      · exact ⟨n % b, Nat.lt_of_lt_of_le (Nat.mod_lt n (by omega)) hb', h⟩

theorem digitChar_ne : ∀ d < 16, d.digitChar ≠ '.' ∧ d.digitChar ≠ ':' ∧ d.digitChar ≠ Char.ofNat 0 := by
  decide

/-- No separator and no terminator is among the digits of a number, so where a text is split is
decided by what stands between them. -/
theorem toDigits_plain (hb : 1 < b) (hb' : b ≤ 16) (n : Nat) :
    '.' ∉ Nat.toDigits b n ∧ ':' ∉ Nat.toDigits b n ∧ Char.ofNat 0 ∉ Nat.toDigits b n := by
  have hother : ∀ c, (∀ d < 16, d.digitChar ≠ c) → c ∉ Nat.toDigits b n := by
    intro c hc h
    obtain ⟨d, hd, heq⟩ := mem_toDigits hb hb' h
    exact hc d hd heq.symm
  exact ⟨hother '.' fun d hd => (digitChar_ne d hd).1, hother ':' fun d hd => (digitChar_ne d hd).2.1,
    hother (Char.ofNat 0) fun d hd => (digitChar_ne d hd).2.2⟩

/-! ## 2. Groups and separators -/

theorem mem_intercalate {sep c : Char} {gs : List (List Char)} (h : c ∈ [sep].intercalate gs) :
    c = sep ∨ ∃ g ∈ gs, c ∈ g := by
  induction gs with
  | nil => simp at h
  | cons g gs ih =>
    cases gs with
    | nil => exact .inr ⟨g, List.mem_singleton_self g, by simpa using h⟩
    | cons g' gs =>
      rw [List.intercalate_cons_cons, List.mem_append, List.mem_append, List.mem_singleton] at h
      rcases h with (h | h) | h
      · exact .inr ⟨g, List.mem_cons_self, h⟩
      · exact .inl h
      · rcases ih h with h | ⟨g₁, hmem, h⟩
        · exact .inl h
        · exact .inr ⟨g₁, List.mem_cons_of_mem g hmem, h⟩

theorem sep_mem_intercalate (sep : Char) {gs : List (List Char)} (h : 2 ≤ gs.length) :
    sep ∈ [sep].intercalate gs := by
  match gs, h with
  | g :: g' :: gs, _ =>
    rw [List.intercalate_cons_cons]
    simp

/-! ## 3. IPv4 -/

def text4 (bytes : List Byte) : List Char :=
  ['.'].intercalate (bytes.map fun byte => Nat.toDigits 10 byte.toNat)

def bytes4 (s : List Char) : List Byte := (s.splitOn '.').map fun d => UInt8.ofNat (ofDigits 10 d)

/-- **The round trip of IPv4.**  Splitting at the dots gives the digits of each byte back, as no
digit is a dot, and the value of the digits of a byte is the byte. -/
theorem bytes4_text4 {bytes : List Byte} (h : bytes ≠ []) : bytes4 (text4 bytes) = bytes := by
  have hplain : ∀ g ∈ bytes.map fun byte => Nat.toDigits 10 byte.toNat, '.' ∉ g := by
    intro g hg
    obtain ⟨byte, -, rfl⟩ := List.mem_map.mp hg
    exact (toDigits_plain (by decide) (by decide) _).1
  have hne : (bytes.map fun byte => Nat.toDigits 10 byte.toNat) ≠ [] := by
    rwa [Ne, List.map_eq_nil_iff]
  rw [bytes4, text4, List.splitOn_intercalate '.' hplain hne, List.map_map]
  refine List.map_id'' (fun byte => ?_) bytes
  rw [Function.comp_apply, ofDigits_toDigits (by decide) (by decide), UInt8.ofNat_toNat]

theorem text4_plain (bytes : List Byte) : ':' ∉ text4 bytes ∧ Char.ofNat 0 ∉ text4 bytes := by
  have hother : ∀ c, c ≠ '.' → (∀ n, c ∉ Nat.toDigits 10 n) → c ∉ text4 bytes := by
    intro c hdot hdigits h
    rcases mem_intercalate h with h | ⟨g, hg, h⟩
    · exact hdot h
    · obtain ⟨byte, -, rfl⟩ := List.mem_map.mp hg
      exact hdigits _ h
  have hplain : ∀ n, _ := toDigits_plain (b := 10) (by decide) (by decide)
  exact ⟨hother ':' (by decide) fun n => (hplain n).2.1,
    hother (Char.ofNat 0) (by decide) fun n => (hplain n).2.2⟩

theorem length_byte (byte : Byte) : (Nat.toDigits 10 byte.toNat).length ≤ 3 := by
  rw [Nat.length_toDigits_le_iff (by decide) (by decide)]
  have := byte.toNat_lt
  omega

/-- Four bytes take at most fifteen characters: three for each and three dots. -/
theorem length_text4 {bytes : List Byte} (h : bytes.length = 4) : (text4 bytes).length ≤ 15 := by
  match bytes, h with
  | [w, x, y, z], _ =>
    have hw := length_byte w
    have hx := length_byte x
    have hy := length_byte y
    have hz := length_byte z
    simp only [text4, List.map_cons, List.map_nil, List.intercalate_cons_cons,
      List.intercalate_singleton, List.length_append, List.length_singleton]
    omega

/-! ## 4. Words -/

/-- The words of sixteen bits that these bytes are. -/
def words : List Byte → List Nat
  | x :: y :: rest => (x.toNat * 256 + y.toNat) :: words rest
  | _ => []

def bytesOf (ws : List Nat) : List Byte := ws.flatMap fun w => [UInt8.ofNat (w / 256), UInt8.ofNat w]

/-- What is left of the bytes at the end, where `words` stops: none, or a single one. -/
theorem short_cases {bytes : List Byte} (h : ∀ x y rest, bytes = x :: y :: rest → False) :
    bytes = [] ∨ ∃ x, bytes = [x] := by
  match bytes with
  | [] => exact .inl rfl
  | [x] => exact .inr ⟨x, rfl⟩
  | x :: y :: rest => exact absurd rfl (h x y rest)

theorem bytesOf_words {bytes : List Byte} (h : bytes.length % 2 = 0) : bytesOf (words bytes) = bytes := by
  induction bytes using words.induct with
  | case1 x y rest ih =>
    have hx := x.toNat_lt
    have hy := y.toNat_lt
    have hhigh : (x.toNat * 256 + y.toNat) / 256 = x.toNat := by omega
    have hlow : UInt8.ofNat (x.toNat * 256 + y.toNat) = y := by
      refine UInt8.toNat_inj.mp ?_
      rw [UInt8.toNat_ofNat']
      omega
    have hrest : bytesOf (words rest) = rest := ih (by simp only [List.length_cons] at h; omega)
    rw [words, bytesOf, List.flatMap_cons, hhigh, hlow, UInt8.ofNat_toNat]
    change [x, y] ++ bytesOf (words rest) = _
    rw [hrest]
    rfl
  | case2 bytes hshort =>
    rcases short_cases hshort with rfl | ⟨x, rfl⟩
    · rfl
    · simp at h

theorem words_bytesOf {ws : List Nat} (h : ∀ w ∈ ws, w < 65536) : words (bytesOf ws) = ws := by
  induction ws with
  | nil => rfl
  | cons w ws ih =>
    have hw := h w List.mem_cons_self
    have hrest := ih fun w' hmem => h w' (List.mem_cons_of_mem w hmem)
    have hval : (UInt8.ofNat (w / 256)).toNat * 256 + (UInt8.ofNat w).toNat = w := by
      rw [UInt8.toNat_ofNat', UInt8.toNat_ofNat']
      omega
    change ((UInt8.ofNat (w / 256)).toNat * 256 + (UInt8.ofNat w).toNat) :: words (bytesOf ws) = w :: ws
    rw [hval, hrest]

theorem length_words (bytes : List Byte) : (words bytes).length = bytes.length / 2 := by
  induction bytes using words.induct with
  | case1 x y rest ih =>
    rw [words, List.length_cons, ih, List.length_cons, List.length_cons]
    omega
  | case2 bytes hshort =>
    rcases short_cases hshort with rfl | ⟨x, rfl⟩
    · rfl
    · simp [words]

theorem words_lt {bytes : List Byte} : ∀ w ∈ words bytes, w < 65536 := by
  induction bytes using words.induct with
  | case1 x y rest ih =>
    intro w hw
    rw [words, List.mem_cons] at hw
    rcases hw with rfl | hw
    · have hx := x.toNat_lt
      have hy := y.toNat_lt
      omega
    · exact ih w hw
  | case2 bytes hshort =>
    rcases short_cases hshort with rfl | ⟨x, rfl⟩
    · exact fun w hw => absurd hw List.not_mem_nil
    · exact fun w hw => absurd hw List.not_mem_nil

/-! ## 5. IPv6 -/

/-- `len` zeros from `start` on, more than one: a single zero is written out. -/
def isRun (ws : List Nat) (r : Nat × Nat) : Bool :=
  2 ≤ r.2 && r.1 + r.2 ≤ ws.length && (slice ws r.1 (r.1 + r.2)).all (· == 0)

def runs (ws : List Nat) : List (Nat × Nat) :=
  ((List.range ws.length).flatMap fun start =>
    (List.range (ws.length + 1)).map fun len => (start, len)).filter (isRun ws)

/-- The longest run, and of several the first. -/
def longest : List (Nat × Nat) → Option (Nat × Nat)
  | [] => none
  | r :: rs =>
    match longest rs with
    | none => some r
    | some r' => if r.2 < r'.2 then some r' else some r

def hex (w : Nat) : List Char := Nat.toDigits 16 w

/-- An IPv4 address is at the end. -/
def embeds (ws : List Nat) (r : Nat × Nat) : Bool :=
  r.1 = 0 && (r.2 = 6 || r.2 = 5 && ws[5]? = some 0xffff)

/-- The groups behind the run. -/
def tailGroups (ws : List Nat) (r : Nat × Nat) : List (List Char) :=
  if embeds ws r then ((ws.drop (r.1 + r.2)).take (6 - r.2)).map hex ++ [text4 (bytesOf (ws.drop 6))]
  else (ws.drop (r.1 + r.2)).map hex

/-- A side of `::` that has no groups is an empty one. -/
def orEmpty (gs : List (List Char)) : List (List Char) := if gs = [] then [[]] else gs

/-- What is between the colons. -/
def groups (ws : List Nat) : List (List Char) :=
  match longest (runs ws) with
  | none => ws.map hex
  | some r => orEmpty ((ws.take r.1).map hex) ++ [] :: orEmpty (tailGroups ws r)

def text6 (ws : List Nat) : List Char := [':'].intercalate (groups ws)

def parseGroup (g : List Char) : List Nat := if '.' ∈ g then words (bytes4 g) else [ofDigits 16 g]

/-- Groups to words; an empty group stands for the zeros that are missing. -/
def wordsOf (gs : List (List Char)) : List Nat :=
  let left := (gs.takeWhile (· ≠ [])).flatMap parseGroup
  let right := ((gs.dropWhile (· ≠ [])).filter (· ≠ [])).flatMap parseGroup
  left ++ List.replicate (8 - left.length - right.length) 0 ++ right

def parse6 (s : List Char) : List Nat := wordsOf (s.splitOn ':')

theorem hex_ne_nil (w : Nat) : hex w ≠ [] := Nat.toDigits_ne_nil

theorem hex_groups_ne {ws : List Nat} : ∀ g ∈ ws.map hex, g ≠ [] := by
  intro g hg
  obtain ⟨w, -, rfl⟩ := List.mem_map.mp hg
  exact hex_ne_nil w

theorem parseGroup_hex (w : Nat) : parseGroup (hex w) = [w] := by
  have hplain : '.' ∉ hex w := (toDigits_plain (by decide) (by decide) w).1
  rw [parseGroup, if_neg hplain, hex, ofDigits_toDigits (by decide) (by decide)]

theorem flatMap_hex (ws : List Nat) : (ws.map hex).flatMap parseGroup = ws := by
  induction ws with
  | nil => rfl
  | cons w ws ih => rw [List.map_cons, List.flatMap_cons, parseGroup_hex, ih, List.singleton_append]

theorem longest_mem {rs : List (Nat × Nat)} {r : Nat × Nat} (h : longest rs = some r) : r ∈ rs := by
  induction rs generalizing r with
  | nil => cases h
  | cons r₁ rs ih =>
    unfold longest at h
    split at h
    · cases h
      exact List.mem_cons_self
    · rename_i r' hr'
      split at h
      · cases h
        exact List.mem_cons_of_mem r₁ (ih hr')
      · cases h
        exact List.mem_cons_self

/-- The run that is left out is one of zeros, so what is in front of it, that many zeros, and
what is behind it are all of the words. -/
theorem longest_isRun {ws : List Nat} {r : Nat × Nat} (h : longest (runs ws) = some r) :
    2 ≤ r.2 ∧ r.1 + r.2 ≤ ws.length ∧
      ws.take r.1 ++ List.replicate r.2 0 ++ ws.drop (r.1 + r.2) = ws := by
  have hmem := (List.mem_filter.mp (longest_mem h)).2
  unfold isRun at hmem
  simp only [Bool.and_eq_true, decide_eq_true_eq, List.all_eq_true, beq_iff_eq] at hmem
  obtain ⟨⟨htwo, hle⟩, hzero⟩ := hmem
  have hslice : slice ws r.1 (r.1 + r.2) = List.replicate r.2 0 := by
    rw [List.eq_replicate_iff]
    refine ⟨?_, hzero⟩
    rw [length_slice hle, Nat.add_sub_cancel_left]
  refine ⟨htwo, hle, ?_⟩
  have hfront : ws.take r.1 = slice ws 0 r.1 := by rw [slice, List.drop_zero]
  have hjoin : slice ws 0 (r.1 + r.2) = ws.take (r.1 + r.2) := by rw [slice, List.drop_zero]
  rw [hfront, ← hslice, slice_append_slice ws (Nat.zero_le _) (Nat.le_add_right _ _), hjoin,
    List.take_append_drop]

theorem orEmpty_front {gs : List (List Char)} (rest : List (List Char)) (h : ∀ g ∈ gs, g ≠ []) :
    (orEmpty gs ++ [] :: rest).takeWhile (· ≠ []) = gs ∧
      (orEmpty gs ++ [] :: rest).dropWhile (· ≠ []) =
        if gs = [] then [] :: [] :: rest else [] :: rest := by
  unfold orEmpty
  split
  · rename_i hnil
    rw [hnil]
    exact ⟨rfl, rfl⟩
  · have hall : ∀ g ∈ gs, decide (g ≠ []) = true := fun g hg => decide_eq_true (h g hg)
    rw [List.takeWhile_append_of_pos hall, List.dropWhile_append_of_pos hall]
    exact ⟨List.append_nil gs, rfl⟩

theorem orEmpty_filter {gs : List (List Char)} (h : ∀ g ∈ gs, g ≠ []) :
    (orEmpty gs).filter (· ≠ []) = gs := by
  unfold orEmpty
  split
  · rename_i hnil
    rw [hnil]
    rfl
  · exact List.filter_eq_self.mpr fun g hg => decide_eq_true (h g hg)

/-- A text with a `::`.  The empty group is where the reader stops taking groups from the left,
and what it has to fill in is what is missing of eight words. -/
theorem wordsOf_split {left right : List (List Char)} (hl : ∀ g ∈ left, g ≠ [])
    (hr : ∀ g ∈ right, g ≠ []) :
    wordsOf (orEmpty left ++ [] :: orEmpty right) =
      left.flatMap parseGroup ++
        List.replicate (8 - (left.flatMap parseGroup).length - (right.flatMap parseGroup).length) 0 ++
        right.flatMap parseGroup := by
  obtain ⟨htake, hdrop⟩ := orEmpty_front (orEmpty right) hl
  have hfilter : ((orEmpty left ++ [] :: orEmpty right).dropWhile (· ≠ [])).filter (· ≠ []) = right := by
    rw [hdrop]
    split
    · exact orEmpty_filter hr
    · exact orEmpty_filter hr
  unfold wordsOf
  rw [htake, hfilter]

/-- A text without: every group is a word, and there are eight of them. -/
theorem wordsOf_plain {ws : List Nat} (h : ws.length = 8) : wordsOf (ws.map hex) = ws := by
  have hall : ∀ g ∈ ws.map hex, decide (g ≠ []) = true :=
    fun g hg => decide_eq_true (hex_groups_ne g hg)
  have htake : (ws.map hex).takeWhile (· ≠ []) = ws.map hex := List.takeWhile_eq_self_iff.mpr hall
  have hdrop : (ws.map hex).dropWhile (· ≠ []) = [] := List.dropWhile_eq_nil_iff.mpr hall
  unfold wordsOf
  rw [htake, hdrop, flatMap_hex]
  simp [h]

theorem dot_mem_text4 {bytes : List Byte} (h : 2 ≤ bytes.length) : '.' ∈ text4 bytes :=
  sep_mem_intercalate '.' (by rw [List.length_map]; exact h)

/-- The groups behind the run say the words behind the run, whether or not the last two are
written as an IPv4 address. -/
theorem tailGroups_spec {ws : List Nat} {r : Nat × Nat} (hlen : ws.length = 8)
    (hlt : ∀ w ∈ ws, w < 65536) :
    (∀ g ∈ tailGroups ws r, g ≠ []) ∧ (tailGroups ws r).flatMap parseGroup = ws.drop (r.1 + r.2) := by
  unfold tailGroups
  split
  · rename_i hembeds
    unfold embeds at hembeds
    simp only [Bool.and_eq_true, Bool.or_eq_true, decide_eq_true_eq] at hembeds
    obtain ⟨hstart, hcase⟩ := hembeds
    have hle : r.2 ≤ 6 := by omega
    have hbytes : (bytesOf (ws.drop 6)).length = 4 := by
      match ws, hlen with
      | [_, _, _, _, _, _, _, _], _ => rfl
    have hdot : '.' ∈ text4 (bytesOf (ws.drop 6)) := dot_mem_text4 (by omega)
    have hparse : parseGroup (text4 (bytesOf (ws.drop 6))) = ws.drop 6 := by
      have hne : bytesOf (ws.drop 6) ≠ [] := by
        intro hnil
        rw [hnil] at hbytes
        cases hbytes
      rw [parseGroup, if_pos hdot, bytes4_text4 hne,
        words_bytesOf fun w hw => hlt w (List.mem_of_mem_drop hw)]
    constructor
    · intro g hg
      rw [List.mem_append, List.mem_singleton] at hg
      rcases hg with hg | rfl
      · exact hex_groups_ne g hg
      · exact List.ne_nil_of_mem hdot
    · rw [List.flatMap_append, flatMap_hex, List.flatMap_singleton, hparse, hstart, Nat.zero_add]
      have hdrop : ws.drop 6 = (ws.drop r.2).drop (6 - r.2) := by
        rw [List.drop_drop]
        congr 1
        omega
      rw [hdrop, List.take_append_drop]
  · exact ⟨hex_groups_ne, flatMap_hex _⟩

/-- **The groups say the words.**  With a run of zeros left out, the two sides are read back by
`wordsOf_split`, and the zeros that it fills in are those of the run (`longest_isRun`); without,
it is `wordsOf_plain`. -/
theorem wordsOf_groups {ws : List Nat} (hlen : ws.length = 8) (hlt : ∀ w ∈ ws, w < 65536) :
    wordsOf (groups ws) = ws := by
  unfold groups
  split
  · exact wordsOf_plain hlen
  · rename_i r hr
    obtain ⟨-, hle, hsplit⟩ := longest_isRun hr
    obtain ⟨hne, htail⟩ := tailGroups_spec (r := r) hlen hlt
    have hzeros : 8 - (ws.take r.1).length - (ws.drop (r.1 + r.2)).length = r.2 := by
      rw [List.length_take, List.length_drop]
      omega
    rw [wordsOf_split hex_groups_ne hne, htail, flatMap_hex, hzeros, hsplit]

theorem hex_plain {ws : List Nat} {g : List Char} (hg : g ∈ ws.map hex) : ':' ∉ g ∧ Char.ofNat 0 ∉ g := by
  obtain ⟨w, -, rfl⟩ := List.mem_map.mp hg
  exact (toDigits_plain (by decide) (by decide) w).2

theorem orEmpty_plain {gs : List (List Char)} {g : List Char} (hg : g ∈ orEmpty gs) : g ∈ gs ∨ g = [] := by
  unfold orEmpty at hg
  split at hg
  · exact .inr (List.mem_singleton.mp hg)
  · exact .inl hg

/-- No group has a colon in it, or a terminator.  Groups can then be told apart. -/
theorem groups_plain {ws : List Nat} {g : List Char} (hg : g ∈ groups ws) :
    ':' ∉ g ∧ Char.ofNat 0 ∉ g := by
  have hempty : ':' ∉ ([] : List Char) ∧ Char.ofNat 0 ∉ ([] : List Char) := by simp
  unfold groups at hg
  split at hg
  · exact hex_plain hg
  · rename_i r hr
    rw [List.mem_append, List.mem_cons] at hg
    rcases hg with hg | rfl | hg
    · rcases orEmpty_plain hg with hg | rfl
      · exact hex_plain hg
      · exact hempty
    · exact hempty
    · rcases orEmpty_plain hg with hg | rfl
      · unfold tailGroups at hg
        split at hg
        · rw [List.mem_append, List.mem_singleton] at hg
          rcases hg with hg | rfl
          · exact hex_plain hg
          · exact text4_plain _
        · exact hex_plain hg
      · exact hempty

theorem orEmpty_length (gs : List (List Char)) : 1 ≤ (orEmpty gs).length := by
  unfold orEmpty
  split
  · exact Nat.le_refl 1
  · rename_i hne
    exact List.length_pos_iff.mpr hne

theorem groups_length {ws : List Nat} (hlen : ws.length = 8) : 2 ≤ (groups ws).length := by
  unfold groups
  split
  · rw [List.length_map, hlen]
    decide
  · rename_i r hr
    have := orEmpty_length ((ws.take r.1).map hex)
    rw [List.length_append, List.length_cons]
    omega

/-- **The round trip of IPv6.**  Splitting at the colons gives the groups back, since none of
them has a colon in it, and the groups say the words. -/
theorem parse6_text6 {ws : List Nat} (hlen : ws.length = 8) (hlt : ∀ w ∈ ws, w < 65536) :
    parse6 (text6 ws) = ws := by
  have hne : groups ws ≠ [] := by
    intro hnil
    have := groups_length hlen
    rw [hnil] at this
    exact absurd this (by decide)
  rw [parse6, text6, List.splitOn_intercalate ':' (fun g hg => (groups_plain hg).1) hne,
    wordsOf_groups hlen hlt]

/-- An IPv6 text has a colon, -/
theorem colon_mem_text6 {ws : List Nat} (hlen : ws.length = 8) : ':' ∈ text6 ws :=
  sep_mem_intercalate ':' (groups_length hlen)

/-- and no terminator. -/
theorem text6_plain (ws : List Nat) : Char.ofNat 0 ∉ text6 ws := by
  intro h
  rcases mem_intercalate h with h | ⟨g, hg, h⟩
  · exact absurd h (by decide)
  · exact (groups_plain hg).2 h

example : String.ofList (text6 [0x2001, 0xdb8, 0, 0, 1, 0, 0, 1]) = "2001:db8::1:0:0:1" := by decide

example : String.ofList (text6 [0, 0, 0, 0, 0, 0xffff, 0x102, 0x304]) = "::ffff:1.2.3.4" := by decide

end Lib.IpText
