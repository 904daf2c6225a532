/-
# Runs of a labelled step function

A component is modelled as a partial step function `step : σ → ι → Option σ`: a label `l` is one
atomic step of one party (a call, an event, the next statement of a thread), and `step s l = none`
says that `s` cannot take it.  A RUN is any sequence of labels, so a statement about all
interleavings is a statement about all label sequences.

`Reach step G s₀` collects the states that runs from `s₀` visit when every step taken meets the
guard `G`.  The guard is how an exact side condition is stated: it reads the state BEFORE the
step and the label, never what the step computes.  With `G := anyStep` it is plain reachability.

The module has the induction every safety proof uses (`Reach.invariant`), the rule that takes a run
of one step function to a run of another (`Reach.simulation`), and the passage from a
concrete label list (`exec`) to a reachable state that the closed witnesses use.
-/
import Mathlib.Logic.Basic
import Mathlib.Data.List.Basic

namespace Lib

universe u v w x

variable {σ : Type u} {ι : Type v}

/-! ## 1. Guarded reachability -/

/-- The guard that lets every step through.  A statement about every run is one under this guard. -/
def anyStep : σ → ι → Prop := fun _ _ => True

/-- `Reach step G s₀ s`: some run of `step` leads from `s₀` to `s`, each of its steps meeting
`G`.  The run itself is not kept, since safety is a matter of the states it visits; a statement about
two moments of one run has two of these, end to end (`Reach.trans`). -/
inductive Reach (step : σ → ι → Option σ) (G : σ → ι → Prop) (s₀ : σ) : σ → Prop
  | refl : Reach step G s₀ s₀
  | tail {s s' : σ} (l : ι) : Reach step G s₀ s → G s l → step s l = some s' →
      Reach step G s₀ s'

variable {step : σ → ι → Option σ} {G : σ → ι → Prop} {s₀ s s' : σ}

/-- **The invariant rule.**  What holds at the start and is kept by every step that meets the
guard holds in every state a guarded run visits. -/
theorem Reach.invariant {I : σ → Prop} (h : Reach step G s₀ s) (h0 : I s₀)
    (hstep : ∀ s l s', I s → G s l → step s l = some s' → I s') : I s := by
  induction h with
  | refl => exact h0
  | tail l _ hg hst ih => exact hstep _ l _ ih hg hst

/-- Runs compose, by induction on the second one. -/
theorem Reach.trans {s₁ s₂ : σ} (h : Reach step G s₀ s₁) (h' : Reach step G s₁ s₂) :
    Reach step G s₀ s₂ := by
  induction h' with
  | refl => exact h
  | tail l _ hg hst ih => exact ih.tail l hg hst

/-- **The simulation rule.**  If each step from related states is matched by a run of `step'` to
related states, so is each run. -/
theorem Reach.simulation {τ : Type w} {κ : Type x} {step' : τ → κ → Option τ} {G' : τ → κ → Prop}
    {R : σ → τ → Prop} {t₀ : τ} (h : Reach step G s₀ s) (h0 : R s₀ t₀)
    (hstep : ∀ s l s' t, R s t → G s l → step s l = some s' → ∃ t', Reach step' G' t t' ∧ R s' t') :
    ∃ t, Reach step' G' t₀ t ∧ R s t := by
  induction h with
  | refl => exact ⟨t₀, .refl, h0⟩
  | tail l _ hg hst ih =>
    obtain ⟨t, hrun, hr⟩ := ih
    obtain ⟨t', hrun', hr'⟩ := hstep _ l _ t hr hg hst
    exact ⟨t', hrun.trans hrun', hr'⟩

/-- **The projection rule.**  A component of a larger system makes a run of its own: each step of the
system leaves it alone, or is a step of the component that meets the component's guard.  The
invariant `I` says what the rest of the system knows when it gets there. -/
theorem Reach.project {τ : Type w} {κ : Type x} {step' : τ → κ → Option τ} {G' : τ → κ → Prop}
    {I : σ → Prop} (f : σ → τ) (h : Reach step G s₀ s) (h0 : I s₀)
    (hI : ∀ s l s', I s → G s l → step s l = some s' → I s')
    (hstep : ∀ s l s', I s → G s l → step s l = some s' →
      f s' = f s ∨ ∃ k, G' (f s) k ∧ step' (f s) k = some (f s')) :
    Reach step' G' (f s₀) (f s) := by
  have hsim : ∃ t, Reach step' G' (f s₀) t ∧ (I s ∧ t = f s) := by
    refine h.simulation (R := fun s t => I s ∧ t = f s) ⟨h0, rfl⟩ ?_
    rintro s l s' t ⟨hi, rfl⟩ hg hst
    refine ⟨f s', ?_, hI s l s' hi hg hst, rfl⟩
    obtain heq | ⟨k, hg', hst'⟩ := hstep s l s' hi hg hst
    · rw [heq]
      exact .refl
    · exact Reach.refl.tail k hg' hst'
  obtain ⟨t, hrun, -, rfl⟩ := hsim
  exact hrun

/-! ## 2. Executing a list of labels -/

/-- Run a list of labels; `none` as soon as one of them is not possible.  This is what a concrete
run is evaluated with. -/
def exec (step : σ → ι → Option σ) : σ → List ι → Option σ
  | s, [] => some s
  | s, l :: ls => (step s l).bind fun s' => exec step s' ls

/-- The steps of a label list that are actually taken all meet `G`.  Nothing is said of what
comes behind a step that is not possible, as no run goes there. -/
def Meets (step : σ → ι → Option σ) (G : σ → ι → Prop) : σ → List ι → Prop
  | _, [] => True
  | s, l :: ls => G s l ∧ ∀ s' ∈ step s l, Meets step G s' ls

instance decidableMeets [∀ s l, Decidable (G s l)] :
    ∀ (s : σ) (ls : List ι), Decidable (Meets step G s ls)
  | _, [] => .isTrue trivial
  | s, l :: ls =>
    match h : step s l with
    | none =>
      decidable_of_iff (G s l) ⟨fun hg => ⟨hg, fun s' hs' => by simp [h] at hs'⟩, fun hm => hm.1⟩
    | some s' =>
      have := decidableMeets s' ls
      decidable_of_iff (G s l ∧ Meets step G s' ls)
        ⟨fun hm => ⟨hm.1, fun t ht => by
            rw [h] at ht
            cases ht
            exact hm.2⟩,
          fun hm => ⟨hm.1, hm.2 s' h⟩⟩

/-- An executed label list is a run, so a state that a run of fixed labels leads to may stand
where a reachable one is asked for. -/
theorem Reach.of_exec (ls : List ι) (s₀ : σ) (hm : Meets step G s₀ ls)
    (h : exec step s₀ ls = some s) : Reach step G s₀ s := by
  induction ls generalizing s₀ with
  | nil =>
    simp only [exec, Option.some.injEq] at h
    subst h
    exact .refl
  | cons l ls ih =>
    simp only [exec, Option.bind_eq_some_iff] at h
    obtain ⟨s₁, hst, hrest⟩ := h
    have htail : Reach step G s₁ s := ih s₁ (hm.2 s₁ hst) hrest
    exact (Reach.refl.tail l hm.1 hst).trans htail

/-- What can be computed of the state a label list leads to holds of a reachable state.  The
state itself never has to be written down: `decide` runs the list and tests the property. -/
theorem Reach.exists_of_exec (ls : List ι) (P : σ → Prop) [DecidablePred P]
    (hm : Meets step G s₀ ls) (h : (exec step s₀ ls).any (fun s => decide (P s)) = true) :
    ∃ s, Reach step G s₀ s ∧ P s := by
  cases he : exec step s₀ ls with
  | none => simp [he] at h
  | some s =>
    rw [he, Option.any_some, decide_eq_true_eq] at h
    exact ⟨s, Reach.of_exec ls s₀ hm he, h⟩

/-- Without a guard, executing is enough. -/
theorem meets_any (ls : List ι) (s₀ : σ) : Meets step anyStep s₀ ls := by
  induction ls generalizing s₀ with
  | nil => trivial
  | cons l ls ih => exact ⟨trivial, fun s' _ => ih s'⟩

theorem Reach.of_exec_any (ls : List ι) (h : exec step s₀ ls = some s) :
    Reach step anyStep s₀ s := Reach.of_exec ls s₀ (meets_any ls s₀) h

/-! ## 3. Folding a step over a list -/

/-- **The fold rule.**  An invariant indexed by what is still to be consumed, kept by each element
consumed, holds at the end for nothing left. -/
theorem foldlM_consume {f : σ → ι → Option σ} {I : List ι → σ → Prop}
    (hstep : ∀ x xs s s', I (x :: xs) s → f s x = some s' → I xs s') (xs : List ι) (s s' : σ)
    (hi : I xs s) (h : xs.foldlM f s = some s') : I [] s' := by
  induction xs generalizing s with
  | nil =>
    cases h
    exact hi
  | cons x xs ih =>
    simp only [List.foldlM_cons, Option.bind_eq_bind, Option.bind_eq_some_iff] at h
    obtain ⟨s₁, hx, hrest⟩ := h
    exact ih s₁ (hstep x xs s s₁ hi hx) hrest

/-! ## 4. Runs that end -/

/-- **The ranking rule.**  Where each step lowers a rank, the rank bounds the length of every run. -/
theorem exec_length_le {I : σ → Prop} {rank : σ → Nat}
    (hstep : ∀ s l s', I s → step s l = some s' → I s' ∧ rank s' < rank s) (ls : List ι) (s s' : σ)
    (hi : I s) (h : exec step s ls = some s') : I s' ∧ ls.length + rank s' ≤ rank s := by
  induction ls generalizing s with
  | nil =>
    cases h
    exact ⟨hi, by simp⟩
  | cons l ls ih =>
    simp only [exec, Option.bind_eq_some_iff] at h
    obtain ⟨s₁, hst, hrest⟩ := h
    obtain ⟨hi₁, hlt⟩ := hstep s l s₁ hi hst
    obtain ⟨hi', hle⟩ := ih s₁ hi₁ hrest
    refine ⟨hi', ?_⟩
    rw [List.length_cons]
    omega

end Lib
