/-
# Consuming a stream in pieces

A consumer reads a stream from the front: in a state `s` it looks at the bytes it has, and either
takes some of them and goes on, or has to wait.  Input comes in SEGMENTS; after each, the consumer
runs until it waits again, and what it has not taken stays.

The one property that makes the cutting invisible is that a step, once possible, is not changed by
bytes that come later (`stable`).  Then running on all the input at once is running on a part of it
and going on with the rest (`consume_append`), however often (`feed_eq`).

A step may take nothing if it leads to a state that waits for ever: a verdict on the input.

The code that does this is a `while` over a buffer.  `loop` is such a loop, with fuel, and
`loop_spec` the rule for it: an invariant, a measure that falls, and what the result says about
where the loop began.
-/
import Mathlib.Data.List.Basic
import Mathlib.Tactic.Basic

namespace Lib

universe u v

/-! ## 1. Loops -/

/-- `while (true)`: a round fails, goes on with a state, or leaves with a result.  The outer
`none` is a loop that is still running. -/
def loop {ε : Type u} {σ : Type u} {β : Type u} (round : σ → Except ε (σ ⊕ β)) :
    Nat → σ → ExceptT ε Option β
  | 0, _ => none
  | fuel + 1, s =>
    match round s with
    | .error e => some (.error e)
    | .ok (.inl s') => loop round fuel s'
    | .ok (.inr r) => some (.ok r)

/-- Peels a value off a `do` block: a statement that succeeded is replaced by what it returned. -/
theorem ok_then {ε : Type u} {α β : Type u} (a : α) (f : α → ExceptT ε Option β) :
    (ExceptT.mk (some (.ok a)) >>= f) = f a := rfl

theorem error_then {ε : Type u} {α β : Type u} (e : ε) (f : α → ExceptT ε Option β) :
    (ExceptT.mk (some (.error e)) >>= f) = some (.error e) := rfl

/-- **The rule for loops.**  `I` is invariant, `m` falls, and `P s r` is what leaving with `r`
means for a loop that began at `s`; a round hands it back. -/
theorem loop_spec {ε : Type u} {σ : Type u} {β : Type u} {round : σ → Except ε (σ ⊕ β)}
    {I : σ → Prop} {m : σ → Nat} {P : σ → β → Prop}
    (hround : ∀ s, I s →
      (∃ s', round s = .ok (.inl s') ∧ I s' ∧ m s' < m s ∧ ∀ r, P s' r → P s r) ∨
        ∃ r, round s = .ok (.inr r) ∧ P s r) (fuel : Nat) :
    ∀ s, I s → m s < fuel → ∃ r, loop round fuel s = some (.ok r) ∧ P s r := by
  induction fuel with
  | zero => exact fun _ _ h => absurd h (Nat.not_lt_zero _)
  | succ fuel ih =>
    intro s hs hfuel
    unfold loop
    rcases hround s hs with ⟨s', hgo, hs', hless, hback⟩ | ⟨r, hleave, hpost⟩
    · obtain ⟨r, hr, hpost⟩ := ih s' hs' (by omega)
      rw [hgo]
      exact ⟨r, hr, hback r hpost⟩
    · rw [hleave]
      exact ⟨r, rfl, hpost⟩

section

variable {ε : Type u} {σ : Type u} {β : Type u} {round : σ → Except ε (σ ⊕ β)} {s : σ}

theorem loop_leave {r : β} (h : round s = .ok (.inr r)) (fuel : Nat) :
    loop round (fuel + 1) s = some (.ok r) := by rw [loop, h]

theorem loop_error {e : ε} (h : round s = .error e) (fuel : Nat) :
    loop round (fuel + 1) s = some (.error e) := by rw [loop, h]

/-- A round that changes nothing is the last word: however much fuel there is, the loop does not
get any further.  This is how a loop that never ends is recognised. -/
theorem loop_stuck (h : round s = .ok (.inl s)) : ∀ fuel, loop round fuel s = none
  | 0 => rfl
  | fuel + 1 => by rw [loop, h]; exact loop_stuck h fuel

/-- What a round keeps holds of the result, if there is one.  Unlike `loop_spec` it does not say
that there is. -/
theorem loop_keeps {I : σ → Prop} {Q : β → Prop}
    (hgo : ∀ s s', I s → round s = .ok (.inl s') → I s')
    (hleave : ∀ s r, I s → round s = .ok (.inr r) → Q r) (fuel : Nat) :
    ∀ {s : σ} {r : β}, I s → loop round fuel s = some (.ok r) → Q r := by
  induction fuel with
  | zero => exact fun _ h => absurd h (Option.some_ne_none _).symm
  | succ fuel ih =>
    intro s r hs h
    unfold loop at h
    split at h
    · cases h
    · rename_i s' hround
      exact ih (hgo s s' hs hround) h
    · rename_i r' hround
      cases h
      exact hleave s r hs hround

end

/-! ## 2. Consumers -/

/-- A consumer of a stream of `α`: what one step does, and how many elements it takes.  The three
laws are what the theory below rests on.  A step once possible is not changed by what comes
later; it takes no more than there is; and it takes something, unless it leads to a state in
which nothing is ever possible again. -/
structure Consumer (σ : Type u) (α : Type v) where
  step : σ → List α → Option (σ × Nat)
  stable : ∀ {s s' : σ} {k : Nat} {xs : List α} (ys : List α),
    step s xs = some (s', k) → step s (xs ++ ys) = some (s', k)
  takes : ∀ {s s' : σ} {k : Nat} {xs : List α}, step s xs = some (s', k) → k ≤ xs.length
  progress : ∀ {s s' : σ} {k : Nat} {xs : List α}, step s xs = some (s', k) →
    0 < k ∨ ∀ ys, step s' ys = none

namespace Consumer

variable {σ : Type u} {α : Type v} (m : Consumer σ α)

/-! ## 3. Running until it waits -/

/-- At most `fuel` steps. -/
def run : Nat → σ → List α → σ × List α
  | 0, s, xs => (s, xs)
  | fuel + 1, s, xs =>
    match m.step s xs with
    | some (s', k) => run fuel s' (xs.drop k)
    | none => (s, xs)

/-- Run until the consumer waits.  Each step but the last takes an element, so as many steps as
there are elements, and one more, are always enough. -/
def consume (s : σ) (xs : List α) : σ × List α := m.run (xs.length + 1) s xs

variable {m} {s s' : σ} {k : Nat} {xs ys : List α}

theorem run_of_none (h : m.step s xs = none) : ∀ fuel, m.run fuel s xs = (s, xs)
  | 0 => rfl
  | fuel + 1 => by rw [run, h]

theorem run_of_some (h : m.step s xs = some (s', k)) (fuel : Nat) :
    m.run (fuel + 1) s xs = m.run fuel s' (xs.drop k) := by rw [run, h]

/-- Fuel beyond the length of the input changes nothing.  Induction on the fuel; a step that
takes nothing is followed by none, and after any other the input is shorter. -/
theorem run_fuel (fuel : Nat) : ∀ {fuel' : Nat} {s : σ} {xs : List α}, xs.length < fuel →
    xs.length < fuel' → m.run fuel s xs = m.run fuel' s xs := by
  induction fuel with
  | zero => exact fun h => absurd h (Nat.not_lt_zero _)
  | succ fuel ih =>
    intro fuel' s xs h h'
    obtain ⟨fuel', rfl⟩ : ∃ n, fuel' = n + 1 := ⟨fuel' - 1, by omega⟩
    cases hst : m.step s xs with
    | none => rw [run_of_none hst, run_of_none hst]
    | some p =>
      obtain ⟨s', k⟩ := p
      rw [run_of_some hst, run_of_some hst]
      rcases m.progress hst with hk | hfinal
      · have htakes := m.takes hst
        have hlen : (xs.drop k).length < xs.length := by
          rw [List.length_drop]
          omega
        exact ih (by omega) (by omega)
      · rw [run_of_none (hfinal _), run_of_none (hfinal _)]

theorem run_eq_consume {fuel : Nat} (h : xs.length < fuel) : m.run fuel s xs = m.consume s xs :=
  run_fuel fuel h (Nat.lt_succ_self _)

theorem consume_of_none (h : m.step s xs = none) : m.consume s xs = (s, xs) := run_of_none h _

theorem consume_of_some (h : m.step s xs = some (s', k)) :
    m.consume s xs = m.consume s' (xs.drop k) := by
  rw [consume, run_of_some h]
  rcases m.progress h with hk | hfinal
  · refine run_eq_consume ?_
    have htakes := m.takes h
    rw [List.length_drop]
    omega
  · rw [consume, run_of_none (hfinal _), run_of_none (hfinal _)]

/-- **What holds of the consumer's progress**: an induction along its steps, down to where it
waits. -/
theorem consume_induct {motive : σ → List α → Prop}
    (wait : ∀ s xs, m.step s xs = none → motive s xs)
    (go : ∀ s xs s' k, m.step s xs = some (s', k) → motive s' (xs.drop k) → motive s xs)
    (s : σ) (xs : List α) : motive s xs := by
  suffices h : ∀ n, ∀ s xs, xs.length < n → motive s xs from h _ s xs (Nat.lt_succ_self _)
  intro n
  induction n with
  | zero => exact fun _ _ h => absurd h (Nat.not_lt_zero _)
  | succ n ih =>
    intro s xs hlen
    cases hst : m.step s xs with
    | none => exact wait s xs hst
    | some p =>
      obtain ⟨s', k⟩ := p
      refine go s xs s' k hst ?_
      rcases m.progress hst with hk | hfinal
      · refine ih s' _ ?_
        have htakes := m.takes hst
        rw [List.length_drop]
        omega
      · exact wait s' _ (hfinal _)

/-- In the end it waits.  So `consume` is not a matter of the fuel it was given, and a second
`consume` finds nothing to do. -/
theorem step_consume (s : σ) (xs : List α) :
    m.step (m.consume s xs).1 (m.consume s xs).2 = none := by
  induction s, xs using m.consume_induct with
  | wait s xs h =>
    rw [consume_of_none h]
    exact h
  | go s xs s' k h ih =>
    rw [consume_of_some h]
    exact ih

/-! ## 4. Segments -/

/-- **Later bytes change nothing that was done.**  Consuming all of the input is consuming the
first part of it, and then what that left together with the second.  Each step on the first part
is possible on the whole as well (`stable`), and it is the same step there. -/
theorem consume_append (s : σ) (xs ys : List α) :
    m.consume s (xs ++ ys) = m.consume (m.consume s xs).1 ((m.consume s xs).2 ++ ys) := by
  induction s, xs using m.consume_induct with
  | wait s xs h => rw [consume_of_none h]
  | go s xs s' k h ih =>
    rw [consume_of_some (m.stable ys h), consume_of_some h,
      List.drop_append_of_le_length (m.takes h), ih]

/-- After each segment, run until it waits: what a connection does with a stream that arrives in
pieces. -/
def feed (m : Consumer σ α) (s : σ) (xs : List α) (segs : List (List α)) : σ × List α :=
  segs.foldl (fun p seg => m.consume p.1 (p.2 ++ seg)) (s, xs)

/-- **Any cutting is as good as none.**  However the input arrives, the consumer ends up where it
would if all of it had been there at once; by `consume_append`, once for each segment. -/
theorem feed_eq (segs : List (List α)) : ∀ {s : σ} {xs : List α}, m.step s xs = none →
    m.feed s xs segs = m.consume s (xs ++ segs.flatten) := by
  induction segs with
  | nil =>
    intro s xs h
    rw [List.flatten_nil, List.append_nil, consume_of_none h]
    rfl
  | cons seg segs ih =>
    intro s xs h
    have hrest := ih (step_consume s (xs ++ seg))
    rw [List.flatten_cons, ← List.append_assoc, consume_append, ← hrest]
    rfl

end Consumer

end Lib
