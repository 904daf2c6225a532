/-
# The input side of a `Buffer`

A connection's input buffer is only appended to and retrieved from.  Nothing is prepended, so its
indices never fall below the header space, and `write_index` never exceeds it by more than the bytes
appended in all: that is what keeps every `append` of a stream of less than `max_size` bytes from a
`length_error`.

Line-based readers look for the first CRLF in what can be read; bytes that are appended later do not
move it.
-/
import Suduo.Net.Buffer

namespace Suduo.Buffer

open Lib

variable {b b' : Buffer}

/-! ## 1. Appending and retrieving -/

/-- A buffer to which `n` bytes have been appended, and nothing prepended.  Then `write_index` is
bounded by what has come in, however often the bytes were moved, and that bound is what keeps
`append` from throwing. -/
structure Input (b : Buffer) (n : Nat) : Prop where
  wf : b.Wf
  header : preAppendSize ≤ b.readIndex
  bound : b.writeIndex ≤ preAppendSize + n

theorem input_new : new.Input 0 :=
  ⟨new_wf initSize, Nat.le_refl preAppendSize, Nat.le_refl preAppendSize⟩

/-- `make_space` leaves the indices alone or slides them down. -/
theorem makeSpace_cases {len : Nat} (hst : b.makeSpace len = .ok b') :
    b'.readIndex = b.readIndex ∧ b'.writeIndex = b.writeIndex ∨
      addSize len preAppendSize ≤ addSize b.writeadbleBytes b.preAppendBytes ∧
        b'.readIndex = preAppendSize ∧ b'.writeIndex = addSize preAppendSize b.readableBytes := by
  rw [makeSpace] at hst
  split at hst
  · obtain ⟨v, -, hb'⟩ := bind_eq_ok.mp hst
    cases hb'
    exact .inl ⟨rfl, rfl⟩
  · rename_i hfits
    obtain ⟨v, -, hb'⟩ := bind_eq_ok.mp hst
    cases hb'
    exact .inr ⟨Nat.le_of_not_lt hfits, rfl, rfl⟩

/-- `append` in its two steps: making room, and copying. -/
theorem append_cases {data : List Byte} (h : b.append data = .ok b') :
    ∃ b₁ v, b.ensureWriteableBytes data.length = .ok b₁ ∧ store b₁.buffer b₁.writeIndex data = .ok v ∧
      b' = { b₁ with buffer := v, writeIndex := addSize b₁.writeIndex data.length } := by
  obtain ⟨b₁, h₁, h⟩ := bind_eq_ok.mp h
  obtain ⟨b₂, h₂, hb'⟩ := bind_eq_ok.mp h
  obtain ⟨v, hv, hb₂⟩ := bind_eq_ok.mp h₂
  cases hb₂
  exact ⟨b₁, v, h₁, hv, (Except.ok.inj hb').symm⟩

/-- No vector is larger than `max_size`, so a `resize` that returns has stayed below. -/
theorem makeSpace_small {len : Nat} (h : b.Wf) (hst : b.makeSpace len = .ok b') :
    b'.buffer.length < 2 ^ 63 := by
  have hsmall := h.small
  rw [makeSpace] at hst
  split at hst
  · obtain ⟨v, hv, hb'⟩ := bind_eq_ok.mp hst
    cases hb'
    rw [resize] at hv
    split at hv
    · rename_i hmax
      cases hv
      simp only [maxSize] at hmax
      simp only [List.length_append, List.length_take, List.length_replicate]
      omega
    · cases hv
  · obtain ⟨v, hv, hb'⟩ := bind_eq_ok.mp hst
    cases hb'
    rw [copyWithin] at hv
    split at hv
    · cases hv
    · rw [load_eq h.le h.bound, ok_bind, store] at hv
      split at hv
      · rename_i hfit
        cases hv
        change (overwrite b.buffer _ _).length < 2 ^ 63
        rw [length_overwrite hfit]
        exact hsmall
      · cases hv

theorem append_small {data : List Byte} (h : b.Wf) (hst : b.append data = .ok b') :
    data.length < 2 ^ 63 := by
  obtain ⟨b₁, v, h₁, hv, rfl⟩ := append_cases hst
  have hsmall : b₁.buffer.length < 2 ^ 63 := by
    unfold ensureWriteableBytes at h₁
    split at h₁
    · exact makeSpace_small h h₁
    · cases h₁
      exact h.small
  unfold store at hv
  split at hv
  · rename_i hfit
    omega
  · cases hv

/-- `append` moves `write_index` by no more than it appends.  When it slides, `read_index` is
above the header, so the slide goes downwards. -/
theorem append_writeIndex {data : List Byte} (h : b.Wf) (hst : b.append data = .ok b') :
    b'.writeIndex ≤ b.writeIndex + data.length := by
  have hl := append_small h hst
  have hwr := h.writeable
  have hread := h.readable
  have hle := h.le
  have hbound := h.bound
  have hsmall := h.small
  have hpre : preAppendSize = 8 := rfl
  obtain ⟨b₁, v, h₁, -, rfl⟩ := append_cases hst
  have hspace : b₁.writeIndex ≤ b.writeIndex := by
    rw [ensureWriteableBytes] at h₁
    split at h₁
    · rename_i hw
      rcases makeSpace_cases h₁ with ⟨-, hsame⟩ | ⟨hfits, -, hslid⟩
      · exact Nat.le_of_eq hsame
      · have hsum : addSize b.writeadbleBytes b.preAppendBytes = b.writeadbleBytes + b.readIndex :=
          addSize_eq (by rw [preAppendBytes]; omega)
        have hneed : addSize data.length preAppendSize = data.length + preAppendSize :=
          addSize_eq (by omega)
        rw [hslid, addSize_eq (by omega)]
        omega
    · cases h₁
      exact Nat.le_refl _
  have hmod : addSize b₁.writeIndex data.length ≤ b₁.writeIndex + data.length := Nat.mod_le _ _
  change addSize b₁.writeIndex data.length ≤ _
  omega

/-- It leaves `read_index` at the header or above: bytes are moved to the header's end at most. -/
theorem append_readIndex {data : List Byte} (hr : preAppendSize ≤ b.readIndex)
    (hst : b.append data = .ok b') : preAppendSize ≤ b'.readIndex := by
  obtain ⟨b₁, v, h₁, -, rfl⟩ := append_cases hst
  change preAppendSize ≤ b₁.readIndex
  rw [ensureWriteableBytes] at h₁
  split at h₁
  · rcases makeSpace_cases h₁ with ⟨hsame, -⟩ | ⟨-, hslid, -⟩
    · exact hsame ▸ hr
    · exact Nat.le_of_eq hslid.symm
  · cases h₁
    exact hr

/-- An `append` that returns has appended. -/
theorem append_ok {data : List Byte} (h : b.Wf) (hst : b.append data = .ok b') :
    b'.Wf ∧ b'.contents = b.contents ++ data := by
  rcases append_total h (append_small h hst) with ⟨-, herr⟩ | ⟨b₁, hok, hwf, hc⟩
  · rw [hst] at herr
    cases herr
  · rw [hst] at hok
    cases hok
    exact ⟨hwf, hc⟩

/-- **`append` on an input buffer**, if it returns. -/
theorem input_append_ok {n : Nat} (h : b.Input n) {data : List Byte} (hst : b.append data = .ok b') :
    b'.Input (n + data.length) ∧ b'.contents = b.contents ++ data := by
  obtain ⟨hwf, hc⟩ := append_ok h.wf hst
  have hend := append_writeIndex h.wf hst
  have hbound := h.bound
  exact ⟨⟨hwf, append_readIndex h.header hst, by omega⟩, hc⟩

/-- It does return while the stream fits a vector: the size asked for is at most the header and
what was appended in all. -/
theorem input_append {n : Nat} (h : b.Input n) {data : List Byte}
    (hs : preAppendSize + (n + data.length) < 2 ^ 63) :
    ∃ b', b.append data = .ok b' ∧ b'.Input (n + data.length) ∧
      b'.contents = b.contents ++ data := by
  have hbound := h.bound
  have hfits : b.writeIndex + data.length < 2 ^ 63 := by omega
  obtain ⟨b', hst, -⟩ := append_spec h.wf hfits
  exact ⟨b', hst, input_append_ok h hst⟩

theorem input_retrieve {n : Nat} (h : b.Input n) (len : Nat) :
    (b.retrieve len).Input n ∧ (b.retrieve len).contents = b.contents.drop len := by
  obtain ⟨hwf, hc⟩ := retrieve_spec h.wf len
  refine ⟨⟨hwf, ?_, ?_⟩, hc⟩
  · unfold retrieve
    split
    · have hread := h.wf.readable
      have hb := h.wf.bound
      have hsmall := h.wf.small
      have hheader := h.header
      have hadd : addSize b.readIndex len = b.readIndex + len := addSize_eq (by omega)
      change preAppendSize ≤ addSize b.readIndex len
      omega
    · exact Nat.le_refl _
  · unfold retrieve
    split
    · exact h.bound
    · exact Nat.le_add_right _ _

theorem input_retrieveUntil {n k : Nat} (h : b.Input n) (hk : k ≤ b.contents.length) :
    (b.retrieveUntil (b.readIndex + k)).Input n ∧
      (b.retrieveUntil (b.readIndex + k)).contents = b.contents.drop k := by
  have hlen := h.wf.length_contents
  have hread := h.wf.readable
  have hle := h.wf.le
  have hb := h.wf.bound
  have hsmall := h.wf.small
  have hsub : subSize (b.readIndex + k) b.readIndex = k := by
    rw [subSize_eq (Nat.le_add_right _ _) (by omega), Nat.add_sub_cancel_left]
  rw [retrieveUntil, hsub]
  exact input_retrieve h k

/-- What a reader of lines may assume of a buffer, and keeps: it reads, and retrieves no more
than there is.  Both of the invariants that readers are used with are such. -/
structure Readable (J : Buffer → Prop) : Prop where
  wf : ∀ {b : Buffer}, J b → b.Wf
  keep : ∀ {b : Buffer} {k : Nat}, J b → k ≤ b.contents.length → J (b.retrieveUntil (b.readIndex + k))

theorem Wf.retrieveUntil (h : b.Wf) {k : Nat} (hk : k ≤ b.contents.length) :
    (b.retrieveUntil (b.readIndex + k)).Wf ∧
      (b.retrieveUntil (b.readIndex + k)).contents = b.contents.drop k := by
  have hlen := h.length_contents
  have hread := h.readable
  have hle := h.le
  have hb := h.bound
  have hsmall := h.small
  exact retrieveUntil_spec h (by omega)

theorem readable_wf : Readable Wf := ⟨id, fun h hk => (h.retrieveUntil hk).1⟩

theorem readable_input (n : Nat) : Readable fun b => b.Input n :=
  ⟨Input.wf, fun h hk => (input_retrieveUntil h hk).1⟩

/-- Reading from `peek()` reads what can be read, as long as there is enough of it. -/
theorem load_peek (h : b.Wf) {len : Nat} (hlen : len ≤ b.contents.length) :
    load b.buffer b.readIndex (b.readIndex + len) = .ok (b.contents.take len) := by
  have hl := h.length_contents
  have hread := h.readable
  have hle := h.le
  have hbound := h.bound
  rw [load_eq (Nat.le_add_right _ _) (by omega), contents, take_slice _ (by omega)]

/-! ## 2. Lines -/

/-- `std::search` for CRLF: the offset of the first one. -/
def searchCRLF : List Byte → Option Nat
  | [] => none
  | x :: xs => if x = 13 ∧ xs.head? = some 10 then some 0 else (searchCRLF xs).map (· + 1)

/-- `find_CRLF`, as an offset from `peek()`. -/
def findCRLF (b : Buffer) : Option Nat := searchCRLF b.contents

variable {xs ys line rest : List Byte} {k : Nat}

theorem searchCRLF_lt (h : searchCRLF xs = some k) : k + 2 ≤ xs.length := by
  induction xs generalizing k with
  | nil => cases h
  | cons x xs ih =>
    unfold searchCRLF at h
    split at h
    · rename_i hcrlf
      cases h
      cases xs with
      | nil => cases hcrlf.2
      | cons y ys => simp only [List.length_cons]; omega
    · cases hrec : searchCRLF xs with
      | none => rw [hrec] at h; cases h
      | some j =>
        rw [hrec] at h
        cases h
        have hj := ih hrec
        change j + 1 + 2 ≤ xs.length + 1
        omega

/-- What comes later does not move the first CRLF, so a line once found stays the line. -/
theorem searchCRLF_append (h : searchCRLF xs = some k) (ys : List Byte) :
    searchCRLF (xs ++ ys) = some k := by
  induction xs generalizing k with
  | nil => cases h
  | cons x xs ih =>
    unfold searchCRLF at h
    rw [List.cons_append, searchCRLF]
    split at h
    · rename_i hcrlf
      have hhead : (xs ++ ys).head? = some 10 := by
        rw [List.head?_append, hcrlf.2]
        rfl
      rw [if_pos ⟨hcrlf.1, hhead⟩]
      exact h
    · rename_i hno
      cases hrec : searchCRLF xs with
      | none => rw [hrec] at h; cases h
      | some j =>
        have hhead : (xs ++ ys).head? = xs.head? := by
          cases xs with
          | nil => cases hrec
          | cons y zs => rfl
        rw [hrec] at h
        rw [hhead, if_neg hno, ih hrec]
        exact h

theorem searchCRLF_cons_none {x : Byte} : searchCRLF (x :: xs) = none ↔
    ¬ (x = 13 ∧ xs.head? = some 10) ∧ searchCRLF xs = none := by
  rw [searchCRLF]
  split
  · rename_i hcrlf
    exact ⟨fun h => absurd h (Option.some_ne_none 0), fun h => absurd hcrlf h.1⟩
  · rename_i hno
    rw [Option.map_eq_none_iff]
    exact ⟨fun h => ⟨hno, h⟩, And.right⟩

/-- It finds nothing exactly if the two bytes stand nowhere side by side. -/
theorem searchCRLF_eq_none : searchCRLF xs = none ↔ ¬ [13, 10] <:+: xs := by
  induction xs with
  | nil => exact ⟨fun _ h => absurd (List.eq_nil_of_infix_nil h) (List.cons_ne_nil _ _), fun _ => rfl⟩
  | cons x xs ih =>
    rw [searchCRLF_cons_none, ih, List.infix_cons_iff, not_or]
    refine and_congr_left' (not_congr ?_)
    rw [List.cons_prefix_cons]
    refine and_congr eq_comm ?_
    cases xs with
    | nil => simp
    | cons y ys => simp [List.cons_prefix_cons, eq_comm]

theorem searchCRLF_of_notMem (h : 13 ∉ xs) : searchCRLF xs = none := by
  rw [searchCRLF_eq_none]
  exact fun hin => h (hin.subset (List.mem_cons_self ..))

/-- Two pieces without a CRLF, and none where they meet. -/
theorem searchCRLF_append_none (h : searchCRLF xs = none) (h' : searchCRLF ys = none)
    (hmeet : ys.head? ≠ some 10) : searchCRLF (xs ++ ys) = none := by
  induction xs with
  | nil => exact h'
  | cons x xs ih =>
    obtain ⟨hno, hrest⟩ := searchCRLF_cons_none.mp h
    rw [List.cons_append, searchCRLF_cons_none]
    refine ⟨?_, ih hrest⟩
    rintro ⟨hx, hnext⟩
    cases xs with
    | nil => exact hmeet hnext
    | cons y zs => exact hno ⟨hx, hnext⟩

/-- A line: what stands before the first CRLF, and what comes after. -/
structure Line (xs line rest : List Byte) : Prop where
  first : searchCRLF xs = some line.length
  eq : xs = line ++ 13 :: 10 :: rest

theorem searchCRLF_eq (h : searchCRLF xs = some k) : Line xs (xs.take k) (xs.drop (k + 2)) := by
  have hlen := searchCRLF_lt h
  refine ⟨?_, ?_⟩
  · rw [h, List.length_take, Nat.min_eq_left (by omega)]
  · induction xs generalizing k with
    | nil => cases h
    | cons x xs ih =>
      unfold searchCRLF at h
      split at h
      · rename_i hcrlf
        cases h
        obtain ⟨rfl, hhead⟩ := hcrlf
        cases xs with
        | nil => cases hhead
        | cons y zs => cases hhead; rfl
      · cases hrec : searchCRLF xs with
        | none => rw [hrec] at h; cases h
        | some j =>
          rw [hrec] at h
          cases h
          have hj := ih hrec (searchCRLF_lt hrec)
          change x :: xs = x :: (xs.take j ++ 13 :: 10 :: xs.drop (j + 2))
          rw [← hj]

/-- What has no CRLF is a line when one comes after it. -/
theorem line_of_none (h : searchCRLF line = none) (rest : List Byte) :
    Line (line ++ 13 :: 10 :: rest) line rest := by
  refine ⟨?_, rfl⟩
  induction line with
  | nil => rfl
  | cons x xs ih =>
    obtain ⟨hno, hrest⟩ := searchCRLF_cons_none.mp h
    have hhere : ¬ (x = 13 ∧ (xs ++ 13 :: 10 :: rest).head? = some 10) := by
      rintro ⟨hx, hnext⟩
      cases xs with
      | nil => cases hnext
      | cons y zs => exact hno ⟨hx, hnext⟩
    rw [List.cons_append, searchCRLF, if_neg hhere, ih hrest]
    rfl

theorem Line.take (h : Line xs line rest) : xs.take line.length = line := by
  rw [h.eq, List.take_left]

theorem Line.drop (h : Line xs line rest) : xs.drop (line.length + 2) = rest := by
  rw [h.eq, ← List.drop_drop, List.drop_left]
  rfl

theorem Line.unique {line' rest' : List Byte} (h : Line xs line rest) (h' : Line xs line' rest') :
    line = line' ∧ rest = rest' := by
  have hlen : line.length = line'.length := by
    have heq : some line.length = some line'.length := h.first.symm.trans h'.first
    simpa only [Option.some.injEq] using heq
  exact ⟨by rw [← h.take, ← h'.take, hlen], by rw [← h.drop, ← h'.drop, hlen]⟩

/-! ## 3. Writers -/

/-- `f` puts `data` behind what is in a buffer, provided that the whole fits a vector.  A writer
that is made of others is treated by the two rules below, so no writer needs to be proved by
following its indices. -/
def Appends (f : Buffer → Except Error Buffer) (data : List Byte) : Prop :=
  ∀ ⦃b : Buffer⦄ ⦃n : Nat⦄, b.Input n → preAppendSize + (n + data.length) < 2 ^ 63 →
    ∃ b', f b = .ok b' ∧ b'.Input (n + data.length) ∧ b'.contents = b.contents ++ data

theorem appends_append (data : List Byte) : Appends (fun b => b.append data) data :=
  fun _ _ h hs => input_append h hs

theorem appends_pure : Appends pure [] :=
  fun b _ h _ => ⟨b, rfl, h, (List.append_nil _).symm⟩

/-- One after the other: what is appended is one behind the other, and the bound for the whole is
enough for both. -/
theorem Appends.andThen {f g : Buffer → Except Error Buffer} {xs ys : List Byte} (hf : Appends f xs)
    (hg : Appends g ys) : Appends (fun b => f b >>= g) (xs ++ ys) := by
  intro b n h hs
  rw [List.length_append, ← Nat.add_assoc] at hs ⊢
  obtain ⟨b₁, hf₁, h₁, hc₁⟩ := hf h (by omega)
  obtain ⟨b₂, hg₂, h₂, hc₂⟩ := hg h₁ (by omega)
  refine ⟨b₂, ?_, h₂, ?_⟩
  · change f b >>= g = _
    rw [hf₁, ok_bind, hg₂]
  · rw [hc₂, hc₁, List.append_assoc]

/-- A loop over what is to be written is a chain of appends, by induction on the list. -/
theorem Appends.foldlM {α : Type} {f : Buffer → α → Except Error Buffer} {text : α → List Byte}
    (hf : ∀ x, Appends (fun b => f b x) (text x)) (xs : List α) :
    Appends (fun b => xs.foldlM f b) (xs.flatMap text) := by
  induction xs with
  | nil => exact appends_pure
  | cons x xs ih => exact (hf x).andThen ih

end Suduo.Buffer
