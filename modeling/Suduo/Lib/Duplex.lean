/-
# Two parties and the streams between them

A `Party` is a component that writes one stream and reads another.  Two of them are joined by a
network that takes what a party sends and hands it on in the same order, in pieces of its own
choice; it reports the end of a stream when all of it has been read and its sender has finished, and
takes nothing from one who has.  It may be slow, or never deliver at all.

`reach_conserved` says that on the way nothing is lost, doubled or overtaken.  `reach_party` says
that each party makes a run of its own, with whatever is true of those.
-/
import Suduo.Lib.Reach
import Mathlib.Logic.Function.Basic

namespace Lib

universe u v w

/-! ## 1. The parties -/

/-- One of the two ends. -/
inductive Side
  | near
  | far
  deriving DecidableEq

def Side.other : Side → Side
  | .near => .far
  | .far => .near

@[simp] theorem Side.other_other (side : Side) : side.other.other = side := by cases side <;> rfl

@[simp] theorem Side.other_ne (side : Side) : side.other ≠ side := by cases side <;> decide

theorem Side.eq_or_other (x side : Side) : x = side ∨ x = side.other := by
  cases x <;> cases side <;> decide

/-- A component with a stream out of it and a stream into it.  What it has sent only grows, and
once it has ended its stream it stays so: these two laws are all that the network relies on. -/
structure Party (σ : Type u) (ι : Type v) (α : Type w) where
  step : σ → ι → Option σ
  /-- All that it has sent. -/
  sent : σ → List α
  /-- It has ended its stream. -/
  finished : σ → Bool
  /-- What a step reads; nothing where it finds the end. -/
  reads : ι → Option (List α)
  sent_mono : ∀ {s l s'}, step s l = some s' → sent s <+: sent s'
  finished_mono : ∀ {s l s'}, step s l = some s' → finished s = true → finished s' = true

/-- The two ends and what is between them.  What a side has read, and whether it has read the end
of the stream, is recorded here, since a party may forget it. -/
structure Duplex (σ : Type u) (α : Type w) where
  party : Side → σ
  /-- Sent by this side, and not yet read by the other. -/
  inFlight : Side → List α
  /-- Read by this side. -/
  received : Side → List α
  /-- This side has read the end of the stream. -/
  eof : Side → Bool

variable {σ : Type u} {ι : Type v} {α : Type w} (P : Party σ ι α)

/-- Two parties, what they have sent so far being on its way. -/
def Party.join (near far : σ) : Duplex σ α where
  party
    | .near => near
    | .far => far
  inFlight
    | .near => P.sent near
    | .far => P.sent far
  received _ := []
  eof _ := false

namespace Duplex

/-! ## 2. The network -/

/-- The network has for this step what it reads: bytes from the front of what is on its way, as
many as it chooses, or the end of the stream if nothing is on its way and the sender has
finished. -/
def Offers (d : Duplex σ α) (side : Side) (l : ι) : Prop :=
  match P.reads l with
  | none => True
  | some [] => d.inFlight side.other = [] ∧ P.finished (d.party side.other) = true
  | some data => data <+: d.inFlight side.other

instance [DecidableEq α] (d : Duplex σ α) (side : Side) (l : ι) : Decidable (d.Offers P side l) := by
  unfold Offers
  split <;> infer_instance

/-- What a step reads, as a list. -/
def data (l : ι) : List α := (P.reads l).getD []

/-- What a step that ends in `s` sends. -/
def new (d : Duplex σ α) (side : Side) (s : σ) : List α := (P.sent s).drop (P.sent (d.party side)).length

/-- A step of one party, with the network's part in it.  A step that reads is possible only where
the network has that for it, and what a party sends after it has finished is refused. -/
def step [DecidableEq α] (d : Duplex σ α) : Side × ι → Option (Duplex σ α)
  | (side, l) =>
    if d.Offers P side l then (P.step (d.party side) l).bind fun s =>
      if P.finished (d.party side) = true ∧ d.new P side s ≠ [] then none
      else some {
        party := Function.update d.party side s
        inFlight := fun x => if x = side then d.inFlight x ++ d.new P side s else (d.inFlight x).drop (data P l).length
        received := Function.update d.received side (d.received side ++ data P l)
        eof := Function.update d.eof side (d.eof side || P.reads l == some []) }
    else none

/-- What a step does: one party takes a step of its own, what it sends joins what is on its way,
what it reads leaves it, and everything on the other side stays. -/
structure Moved (d : Duplex σ α) (side : Side) (l : ι) (d' : Duplex σ α) : Prop where
  offers : d.Offers P side l
  stepped : P.step (d.party side) l = some (d'.party side)
  others : d'.party side.other = d.party side.other
  quiet : P.finished (d.party side) = true → P.sent (d'.party side) = P.sent (d.party side)
  sends : d'.inFlight side = d.inFlight side ++ d.new P side (d'.party side)
  takes : d'.inFlight side.other = (d.inFlight side.other).drop (data P l).length
  received : d'.received side = d.received side ++ data P l
  othersReceived : d'.received side.other = d.received side.other
  eof : d'.eof side = true → d.eof side = true ∨ P.reads l = some []
  othersEof : d'.eof side.other = d.eof side.other

variable {P} {d d' : Duplex σ α}

theorem sent_new {side : Side} {l : ι} {s : σ} (h : P.step (d.party side) l = some s) :
    P.sent (d.party side) ++ d.new P side s = P.sent s := by
  obtain ⟨rest, hrest⟩ := P.sent_mono h
  rw [new, ← hrest, List.drop_left]

/-- **Inversion of a step.**  One side moves; what it reads is taken from the front of what is in
flight, and what it sends is put behind. -/
theorem step_inv [DecidableEq α] {side : Side} {l : ι} (h : d.step P (side, l) = some d') : Moved P d side l d' := by
  simp only [step] at h
  split at h
  · rename_i hoffers
    obtain ⟨s, hs, h⟩ := Option.bind_eq_some_iff.mp h
    split at h
    · cases h
    · rename_i hquiet
      cases h
      refine ⟨hoffers, by simpa using hs, by simp, fun hf => ?_, by simp, by simp, by simp, by simp, ?_, by simp⟩
      · by_contra hne
        refine hquiet ⟨hf, fun hnil => hne ?_⟩
        have hsent := sent_new hs
        rw [hnil, List.append_nil] at hsent
        simpa using hsent.symm
      · simp
  · cases h

/-! ## 3. What the network keeps -/

variable (P) in
/-- Nothing is lost, doubled or overtaken, and the end comes last: what the one has read,
followed by what is on its way, is what the other has sent. -/
structure Conserved (d : Duplex σ α) : Prop where
  stream : ∀ side : Side, d.received side.other ++ d.inFlight side = P.sent (d.party side)
  eof : ∀ side : Side, d.eof side.other = true → d.inFlight side = [] ∧ P.finished (d.party side) = true

theorem conserved_join (near far : σ) : Conserved P (P.join near far) := by
  refine ⟨fun side => ?_, fun side h => by cases h⟩
  cases side <;> rfl

/-- What a party reads is the front of what is on its way. -/
theorem Offers.take {side : Side} {l : ι} (h : d.Offers P side l) :
    data P l ++ (d.inFlight side.other).drop (data P l).length = d.inFlight side.other := by
  unfold Offers at h
  unfold data
  split at h
  · rename_i hnone
    rw [hnone]
    rfl
  · rename_i hend
    rw [hend]
    rfl
  · rename_i bytes _ hdata
    rw [hdata]
    obtain ⟨rest, hrest⟩ := h
    rw [Option.getD_some, ← hrest, List.drop_left]

theorem Offers.finished {side : Side} {l : ι} (h : d.Offers P side l) (hend : P.reads l = some []) :
    d.inFlight side.other = [] ∧ P.finished (d.party side.other) = true := by
  rw [Offers, hend] at h
  exact h

theorem Moved.conserved {side : Side} {l : ι} (h : Conserved P d) (hm : Moved P d side l d') : Conserved P d' := by
  have hsent := sent_new hm.stepped
  constructor
  · intro x
    rcases Side.eq_or_other x side with rfl | rfl
    · rw [hm.othersReceived, hm.sends, ← List.append_assoc, h.stream, hsent]
    · have hstream := h.stream side.other
      rw [Side.other_other] at hstream ⊢
      rw [hm.received, hm.takes, hm.others, List.append_assoc, hm.offers.take]
      exact hstream
  · intro x hx
    rcases Side.eq_or_other x side with rfl | rfl
    · -- the one that steps has finished, and so sends nothing
      rw [hm.othersEof] at hx
      obtain ⟨hempty, hf⟩ := h.eof _ hx
      have hnew : d.new P x (d'.party x) = [] := by
        rw [new, hm.quiet hf, List.drop_length]
      rw [hm.sends, hempty, hnew]
      exact ⟨rfl, P.finished_mono hm.stepped hf⟩
    · rw [Side.other_other] at hx
      have hend : d.inFlight side.other = [] ∧ P.finished (d.party side.other) = true := by
        rcases hm.eof hx with hbefore | hend
        · exact h.eof side.other (by rwa [Side.other_other])
        · exact hm.offers.finished hend
      rw [hm.takes, hm.others, hend.1]
      exact ⟨List.drop_nil, hend.2⟩

/-! ## 4. Runs -/

/-- **The streams are conserved**, in every run of two parties joined by the network, whatever
they are.  A step of either side adds at the one end of what is on its way or takes at the other,
so the invariant is kept by both. -/
theorem reach_conserved [DecidableEq α] {G : Duplex σ α → Side × ι → Prop} {near far : σ}
    (h : Reach (step P) G (P.join near far) d) : Conserved P d :=
  h.invariant (conserved_join near far) fun _ _ _ hi _ hst => (step_inv hst).conserved hi

/-- **What a party makes of what it has read.**  If a relation between a party's state and all it
has read so far is kept by its own steps, it holds of both sides in every run of the two: the
network can only choose when something is read, and how much of it. -/
theorem reach_reads [DecidableEq α] {G : Duplex σ α → Side × ι → Prop} {R : σ → List α → Prop}
    {near far : σ} (h : Reach (step P) G (P.join near far) d) (h0 : ∀ side, R ((P.join near far).party side) [])
    (hstep : ∀ s l s' r, R s r → P.step s l = some s' → R s' (r ++ data P l)) (side : Side) :
    R (d.party side) (d.received side) := by
  refine h.invariant (I := fun d => ∀ side, R (d.party side) (d.received side)) h0 ?_ side
  rintro d ⟨x, l⟩ d' hr - hst side
  have hm := step_inv hst
  rcases Side.eq_or_other side x with rfl | rfl
  · rw [hm.received]
    exact hstep _ l _ _ (hr side) hm.stepped
  · rw [hm.others, hm.othersReceived]
    exact hr _

variable (P) in
/-- Who has finished sends nothing. -/
def Quiet (s : σ) (l : ι) : Prop :=
  P.finished s = true → ∀ s', P.step s l = some s' → P.sent s' = P.sent s

/-- **Each party makes a run of its own**, in which it sends nothing once it has finished.  So
every law of one party alone is a law of each of the two, under whatever guard the joint run
keeps to. -/
theorem reach_party [DecidableEq α] {G : σ → ι → Prop} {near far : σ}
    (h : Reach (step P) (fun d l => G (d.party l.1) l.2) (P.join near far) d) (side : Side) :
    Reach P.step (fun s l => Quiet P s l ∧ G s l) ((P.join near far).party side) (d.party side) := by
  refine h.project (I := fun _ => True) (fun d => d.party side) trivial (fun _ _ _ _ _ _ => trivial) ?_
  rintro d ⟨x, l⟩ d' - hg hst
  have hm := step_inv hst
  rcases Side.eq_or_other side x with rfl | rfl
  · refine .inr ⟨l, ⟨fun hf s' hs' => ?_, hg⟩, hm.stepped⟩
    rw [hm.stepped] at hs'
    cases hs'
    exact hm.quiet hf
  · exact .inl hm.others

end Duplex

end Lib
