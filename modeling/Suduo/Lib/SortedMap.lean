/-
# Sorted maps with positions

A finite map over a linear order, kept as the list of its entries in key order: an ordered
container whose POSITIONS matter, because programs hold on to them while they change the map.  A
position is named by the key it stands at, `none` being the end; inserting leaves every other
position where it is, and that is all an iterator of a node-based container promises.

The order of the entries is a field, so every map is sorted and no operation asks for it.  Each
operation is described by what it does to `get?`, and each way of finding a position by the LEAST
key it can be.
-/
import Mathlib.Order.Lattice
import Mathlib.Data.List.Nodup
import Mathlib.Tactic.Basic

namespace Lib

universe u v

/-- A finite map, as its entries in increasing key order.  The order is a field: no map can be
built out of order, and a key that occurs has one entry. -/
structure SortedMap (κ : Type u) (ν : Type v) [LinearOrder κ] where
  entries : List (κ × ν)
  sorted : entries.Pairwise fun a b => a.1 < b.1

namespace SortedMap

variable {κ : Type u} {ν : Type v} [LinearOrder κ]

/-! ## 1. Operations -/

def empty : SortedMap κ ν := ⟨[], .nil⟩

def size (m : SortedMap κ ν) : Nat := m.entries.length

def get? (m : SortedMap κ ν) (k : κ) : Option ν :=
  (m.entries.find? fun e => e.1 = k).map Prod.snd

def contains (m : SortedMap κ ν) (k : κ) : Bool := (m.get? k).isSome

/-- The first key from the left that satisfies `p`. -/
def firstKey? (m : SortedMap κ ν) (p : κ → Bool) : Option κ :=
  (m.entries.find? fun e => p e.1).map Prod.fst

/-- The first position. -/
def begin? (m : SortedMap κ ν) : Option κ := m.firstKey? fun _ => true

/-- The first position not below `k`.  A range up to it holds every key below `k` and no other,
which is what a range is used for. -/
def lowerBound (m : SortedMap κ ν) (k : κ) : Option κ := m.firstKey? fun j => k ≤ j

/-- The position after `k`. -/
def next (m : SortedMap κ ν) (k : κ) : Option κ := m.firstKey? fun j => k < j

/-- Insertion into a sorted list; an entry that is there already stays. -/
def insertEntry (k : κ) (v : ν) : List (κ × ν) → List (κ × ν)
  | [] => [(k, v)]
  | e :: es =>
    if k < e.1 then (k, v) :: e :: es
    else if k = e.1 then e :: es
    else e :: insertEntry k v es

theorem mem_insertEntry {k : κ} {v : ν} {a : κ × ν} {es : List (κ × ν)}
    (h : a ∈ insertEntry k v es) : a = (k, v) ∨ a ∈ es := by
  induction es with
  | nil => simpa [insertEntry] using h
  | cons e es ih =>
    rw [insertEntry] at h
    split at h
    · simpa using h
    · split at h
      · exact .inr h
      · rcases List.mem_cons.mp h with rfl | h
        · exact .inr (List.mem_cons_self ..)
        · exact (ih h).imp id (List.mem_cons_of_mem _)

theorem insertEntry_sorted {k : κ} {v : ν} {es : List (κ × ν)}
    (h : es.Pairwise fun a b => a.1 < b.1) :
    (insertEntry k v es).Pairwise fun a b => a.1 < b.1 := by
  induction es with
  | nil => exact List.pairwise_singleton _ _
  | cons e es ih =>
    obtain ⟨hhd, htl⟩ := List.pairwise_cons.mp h
    rw [insertEntry]
    split
    · rename_i hlt
      refine List.pairwise_cons.mpr ⟨?_, h⟩
      intro a ha
      rcases List.mem_cons.mp ha with rfl | ha
      · exact hlt
      · exact lt_trans hlt (hhd a ha)
    · rename_i hnlt
      split
      · exact h
      · rename_i hne
        refine List.pairwise_cons.mpr ⟨?_, ih htl⟩
        intro a ha
        rcases mem_insertEntry ha with rfl | ha
        · exact lt_of_le_of_ne (not_lt.mp hnlt) (Ne.symm hne)
        · exact hhd a ha

/-- Insert, unless the key is there already: the older value stays, as with `std::map::insert`. -/
def insert (m : SortedMap κ ν) (k : κ) (v : ν) : SortedMap κ ν :=
  ⟨insertEntry k v m.entries, insertEntry_sorted m.sorted⟩

def erase (m : SortedMap κ ν) (k : κ) : SortedMap κ ν :=
  ⟨m.entries.filter fun e => e.1 ≠ k, m.sorted.filter _⟩

/-- Replace the value at position `k`, if there is one. -/
def set (m : SortedMap κ ν) (k : κ) (v : ν) : SortedMap κ ν :=
  ⟨m.entries.map fun e => (e.1, if e.1 = k then v else e.2), List.pairwise_map.mpr m.sorted⟩

/-- Position `k` lies before `stop`. -/
def Before (k : κ) : Option κ → Prop
  | none => True
  | some j => k < j

instance (k : κ) : (stop : Option κ) → Decidable (Before k stop)
  | none => .isTrue trivial
  | some j => inferInstanceAs (Decidable (k < j))

/-- Erase the range from the first position to `stop`; up to the end, that is all of it. -/
def eraseBefore (m : SortedMap κ ν) (stop : Option κ) : SortedMap κ ν :=
  ⟨m.entries.filter fun e => ¬ Before e.1 stop, m.sorted.filter _⟩

/-! ## 2. Searching from the left -/

variable {m : SortedMap κ ν} {j k : κ} {v w : ν}

/-- In a sorted list the first entry that satisfies `p` is the one with the least key.  Every way
of finding a position is a case of it, and after this lemma the order of the list is not looked
at again. -/
theorem find?_eq_some_iff_least {p : κ × ν → Bool} {e : κ × ν} {es : List (κ × ν)}
    (h : es.Pairwise fun a b => a.1 < b.1) :
    es.find? p = some e ↔ e ∈ es ∧ p e ∧ ∀ a ∈ es, p a → e.1 ≤ a.1 := by
  induction es with
  | nil => simp
  | cons a es ih =>
    obtain ⟨hhd, htl⟩ := List.pairwise_cons.mp h
    by_cases hp : p a
    · rw [List.find?_cons_of_pos hp, Option.some.injEq]
      constructor
      · rintro rfl
        refine ⟨List.mem_cons_self .., hp, ?_⟩
        intro b hb _
        rcases List.mem_cons.mp hb with rfl | hb
        · exact le_refl _
        · exact le_of_lt (hhd b hb)
      · rintro ⟨he, -, hmin⟩
        rcases List.mem_cons.mp he with rfl | he
        · rfl
        · exact absurd (hmin a (List.mem_cons_self ..) hp) (not_le_of_gt (hhd e he))
    · rw [List.find?_cons_of_neg hp, ih htl]
      constructor
      · rintro ⟨he, hpe, hmin⟩
        refine ⟨List.mem_cons_of_mem _ he, hpe, ?_⟩
        intro b hb hpb
        rcases List.mem_cons.mp hb with rfl | hb
        · exact absurd hpb hp
        · exact hmin b hb hpb
      · rintro ⟨he, hpe, hmin⟩
        rcases List.mem_cons.mp he with rfl | he
        · exact absurd hpe hp
        · exact ⟨he, hpe, fun b hb => hmin b (List.mem_cons_of_mem _ hb)⟩

theorem get?_eq_some : m.get? k = some v ↔ (k, v) ∈ m.entries := by
  rw [get?, Option.map_eq_some_iff]
  constructor
  · rintro ⟨e, he, rfl⟩
    obtain ⟨hmem, hk, -⟩ := (find?_eq_some_iff_least m.sorted).mp he
    exact of_decide_eq_true hk ▸ hmem
  · intro h
    refine ⟨(k, v), (find?_eq_some_iff_least m.sorted).mpr ⟨h, decide_eq_true rfl, ?_⟩, rfl⟩
    intro a _ ha
    exact ge_of_eq (of_decide_eq_true ha)

theorem get?_eq_none : m.get? k = none ↔ ∀ v, m.get? k ≠ some v := by
  rw [Option.eq_none_iff_forall_ne_some]

/-- The first key that satisfies `p` is the least such key. -/
theorem firstKey?_eq_some {p : κ → Bool} :
    m.firstKey? p = some k ↔
      (∃ v, m.get? k = some v) ∧ p k ∧ ∀ j v, m.get? j = some v → p j → k ≤ j := by
  rw [firstKey?, Option.map_eq_some_iff]
  constructor
  · rintro ⟨e, he, rfl⟩
    obtain ⟨hmem, hp, hmin⟩ := (find?_eq_some_iff_least m.sorted).mp he
    refine ⟨⟨e.2, get?_eq_some.mpr hmem⟩, hp, ?_⟩
    intro j v hj hpj
    exact hmin (j, v) (get?_eq_some.mp hj) hpj
  · rintro ⟨⟨v, hv⟩, hp, hmin⟩
    refine ⟨(k, v), (find?_eq_some_iff_least m.sorted).mpr ⟨get?_eq_some.mp hv, hp, ?_⟩, rfl⟩
    intro a ha hpa
    exact hmin a.1 a.2 (get?_eq_some.mpr ha) hpa

theorem firstKey?_eq_none {p : κ → Bool} :
    m.firstKey? p = none ↔ ∀ j v, m.get? j = some v → ¬ p j := by
  rw [firstKey?, Option.map_eq_none_iff, List.find?_eq_none]
  constructor
  · intro h j v hj
    exact h (j, v) (get?_eq_some.mp hj)
  · intro h a ha
    exact h a.1 a.2 (get?_eq_some.mpr ha)

theorem begin?_eq_some :
    m.begin? = some k ↔ (∃ v, m.get? k = some v) ∧ ∀ j v, m.get? j = some v → k ≤ j := by
  rw [begin?, firstKey?_eq_some]
  simp only [forall_const, true_and]

theorem begin?_eq_none : m.begin? = none ↔ ∀ j v, m.get? j ≠ some v := by
  rw [begin?, firstKey?_eq_none]
  simp only [not_true_eq_false, imp_false, ne_eq]

theorem lowerBound_eq_some :
    m.lowerBound j = some k ↔
      (∃ v, m.get? k = some v) ∧ j ≤ k ∧ ∀ i v, m.get? i = some v → j ≤ i → k ≤ i := by
  rw [lowerBound, firstKey?_eq_some]
  simp only [decide_eq_true_eq]

theorem lowerBound_eq_none : m.lowerBound j = none ↔ ∀ i v, m.get? i = some v → i < j := by
  rw [lowerBound, firstKey?_eq_none]
  simp only [decide_eq_true_eq, not_le]

theorem next_eq_some :
    m.next j = some k ↔
      (∃ v, m.get? k = some v) ∧ j < k ∧ ∀ i v, m.get? i = some v → j < i → k ≤ i := by
  rw [next, firstKey?_eq_some]
  simp only [decide_eq_true_eq]

theorem next_eq_none : m.next j = none ↔ ∀ i v, m.get? i = some v → i ≤ j := by
  rw [next, firstKey?_eq_none]
  simp only [decide_eq_true_eq, not_lt]

/-- The positions before the next one are those up to the current one: nothing lies between a
position and its successor. -/
theorem before_next {v : ν} (h : m.get? k = some v) : Before k (m.next j) ↔ k ≤ j := by
  cases hn : m.next j with
  | none => exact ⟨fun _ => next_eq_none.mp hn k v h, fun _ => trivial⟩
  | some i =>
    obtain ⟨-, hlt, hmin⟩ := next_eq_some.mp hn
    constructor
    · intro hb
      by_contra hgt
      exact absurd (hmin k v h (not_le.mp hgt)) (not_le_of_gt hb)
    · intro hle
      exact lt_of_le_of_lt hle hlt

/-! ## 3. Lookup after each operation -/

@[simp] theorem get?_empty : (empty : SortedMap κ ν).get? k = none := rfl

theorem mem_insertEntry_of_mem {a : κ × ν} {es : List (κ × ν)} (h : a ∈ es) :
    a ∈ insertEntry k v es := by
  induction es with
  | nil => cases h
  | cons e es ih =>
    rw [insertEntry]
    split
    · exact List.mem_cons_of_mem _ h
    · split
      · exact h
      · rcases List.mem_cons.mp h with rfl | h
        · exact List.mem_cons_self ..
        · exact List.mem_cons_of_mem _ (ih h)

theorem mem_insertEntry_self {es : List (κ × ν)} (h : ∀ w, (k, w) ∉ es) :
    (k, v) ∈ insertEntry k v es := by
  induction es with
  | nil => exact List.mem_cons_self ..
  | cons e es ih =>
    have hne : k ≠ e.1 := fun heq => h e.2 (heq ▸ List.mem_cons_self ..)
    rw [insertEntry, if_neg hne]
    split
    · exact List.mem_cons_self ..
    · exact List.mem_cons_of_mem _ (ih fun w hw => h w (List.mem_cons_of_mem _ hw))

/-- Inserting under a new key adds that one entry, and all others are found as before. -/
theorem get?_insert (h : m.get? k = none) :
    (m.insert k v).get? j = if j = k then some v else m.get? j := by
  have hnew : ∀ w, (k, w) ∉ m.entries := fun w hw =>
    get?_eq_none.mp h w (get?_eq_some.mpr hw)
  split
  · rename_i heq
    subst heq
    exact get?_eq_some.mpr (mem_insertEntry_self hnew)
  · rename_i hne
    refine Option.ext fun w => ?_
    rw [get?_eq_some, get?_eq_some]
    refine ⟨fun hw => ?_, mem_insertEntry_of_mem⟩
    rcases mem_insertEntry hw with heq | hw
    · exact absurd (congrArg Prod.fst heq) hne
    · exact hw

theorem get?_insert_of_get? (h : m.get? j = some w) : (m.insert k v).get? j = some w :=
  get?_eq_some.mpr (mem_insertEntry_of_mem (get?_eq_some.mp h))

/-- An entry found after inserting was there before or is the new one, whether or not the
insertion did anything. -/
theorem get?_insert_cases (h : (m.insert k v).get? j = some w) :
    m.get? j = some w ∨ j = k ∧ w = v := by
  rcases mem_insertEntry (get?_eq_some.mp h) with heq | hmem
  · exact .inr (Prod.mk.inj heq)
  · exact .inl (get?_eq_some.mpr hmem)

theorem get?_erase : (m.erase k).get? j = if j = k then none else m.get? j := by
  refine Option.ext fun w => ?_
  rw [get?_eq_some, erase, List.mem_filter]
  split
  · rename_i heq
    simp [heq]
  · rename_i hne
    rw [get?_eq_some]
    simp [hne]

/-- What is left was there before. -/
theorem get?_of_get?_erase (h : (m.erase k).get? j = some w) : m.get? j = some w := by
  rw [get?_erase] at h
  split at h
  · cases h
  · exact h

theorem get?_set :
    (m.set k v).get? j = if j = k ∧ m.contains k then some v else m.get? j := by
  refine Option.ext fun w => ?_
  rw [get?_eq_some, set, List.mem_map]
  split
  · rename_i hk
    obtain ⟨rfl, hk⟩ := hk
    obtain ⟨w', hw'⟩ := Option.isSome_iff_exists.mp hk
    constructor
    · rintro ⟨e, -, he⟩
      obtain ⟨h1, h2⟩ := Prod.mk.inj he
      rw [if_pos h1] at h2
      exact congrArg some h2
    · intro h
      exact ⟨(j, w'), get?_eq_some.mp hw', by simpa using h⟩
  · rename_i hk
    rw [get?_eq_some]
    have hne : ∀ w', (j, w') ∈ m.entries → j ≠ k := by
      rintro w' hw' rfl
      exact hk ⟨rfl, Option.isSome_iff_exists.mpr ⟨w', get?_eq_some.mpr hw'⟩⟩
    constructor
    · rintro ⟨e, he, heq⟩
      obtain ⟨rfl, h2⟩ := Prod.mk.inj heq
      rw [if_neg (hne e.2 he)] at h2
      exact h2 ▸ he
    · intro hw
      exact ⟨(j, w), hw, by simp [hne w hw]⟩

/-- Setting a value leaves every position where it is. -/
theorem get?_set_cases (h : (m.set k v).get? j = some w) :
    j = k ∧ w = v ∨ j ≠ k ∧ m.get? j = some w := by
  rw [get?_set] at h
  split at h
  · rename_i hk
    cases h
    exact .inl ⟨hk.1, rfl⟩
  · rename_i hk
    refine .inr ⟨?_, h⟩
    rintro rfl
    exact hk ⟨rfl, Option.isSome_iff_exists.mpr ⟨w, h⟩⟩

theorem get?_set_of_ne (h : j ≠ k) : (m.set k v).get? j = m.get? j := by
  rw [get?_set, if_neg fun hk => h hk.1]

theorem get?_set_self (h : m.get? k = some w) : (m.set k v).get? k = some v := by
  rw [get?_set, if_pos ⟨rfl, Option.isSome_iff_exists.mpr ⟨w, h⟩⟩]

/-- An entry assigned, whether it was there or not. -/
theorem get?_set_insert : ((m.insert k w).set k v).get? j = if j = k then some v else m.get? j := by
  split
  · rename_i heq
    subst heq
    cases hj : m.get? j with
    | none => exact get?_set_self ((get?_insert hj).trans (if_pos rfl))
    | some w' => exact get?_set_self (get?_insert_of_get? hj)
  · rename_i hne
    rw [get?_set_of_ne hne]
    cases hj : m.get? j with
    | none =>
      rw [get?_eq_none]
      intro w' hw'
      rcases get?_insert_cases hw' with hold | ⟨heq, -⟩
      · rw [hj] at hold
        cases hold
      · exact hne heq
    | some w' => exact get?_insert_of_get? hj

theorem get?_eraseBefore {stop : Option κ} :
    (m.eraseBefore stop).get? j = if Before j stop then none else m.get? j := by
  refine Option.ext fun w => ?_
  rw [get?_eq_some, eraseBefore, List.mem_filter]
  split
  · rename_i hb
    simp [hb]
  · rename_i hb
    rw [get?_eq_some]
    simp [hb]

theorem get?_of_get?_eraseBefore {stop : Option κ} (h : (m.eraseBefore stop).get? j = some w) :
    m.get? j = some w ∧ ¬ Before j stop := by
  rw [get?_eraseBefore] at h
  split at h
  · cases h
  · exact ⟨h, by assumption⟩

/-! ## 4. Sizes -/

universe u' v'

theorem nodup_keys (m : SortedMap κ ν) : (m.entries.map Prod.fst).Nodup :=
  List.pairwise_map.mpr (m.sorted.imp ne_of_lt)

theorem mem_keys : k ∈ m.entries.map Prod.fst ↔ ∃ v, m.get? k = some v := by
  rw [List.mem_map]
  constructor
  · rintro ⟨⟨k, v⟩, hmem, rfl⟩
    exact ⟨v, get?_eq_some.mpr hmem⟩
  · rintro ⟨v, hv⟩
    exact ⟨(k, v), get?_eq_some.mp hv, rfl⟩

/-- Two maps whose keys correspond one to one are of one size.  `f` takes the keys of the one to
those of the other, and need not be injective but on the keys that occur. -/
theorem size_eq_of_keys {κ' : Type u'} {ν' : Type v'} [LinearOrder κ'] {n : SortedMap κ' ν'}
    (f : κ → κ')
    (hinj : ∀ j k v w, m.get? j = some v → m.get? k = some w → f j = f k → j = k)
    (hkeys : ∀ i, (∃ u, n.get? i = some u) ↔ ∃ k v, m.get? k = some v ∧ f k = i) :
    m.size = n.size := by
  have hnodup : ((m.entries.map Prod.fst).map f).Nodup := by
    refine List.Nodup.map_on ?_ m.nodup_keys
    intro j hj k hk
    obtain ⟨v, hv⟩ := mem_keys.mp hj
    obtain ⟨w, hw⟩ := mem_keys.mp hk
    exact hinj j k v w hv hw
  have hperm : ((m.entries.map Prod.fst).map f).Perm (n.entries.map Prod.fst) := by
    refine (List.perm_ext_iff_of_nodup hnodup n.nodup_keys).mpr fun i => ?_
    rw [mem_keys, hkeys, List.mem_map]
    constructor
    · rintro ⟨k, hk, hi⟩
      obtain ⟨v, hv⟩ := mem_keys.mp hk
      exact ⟨k, v, hv, hi⟩
    · rintro ⟨k, v, hv, hi⟩
      exact ⟨k, mem_keys.mpr ⟨v, hv⟩, hi⟩
  simpa [size] using hperm.length_eq

end SortedMap

end Lib
