/-
# A `Buffer` is a byte queue

The abstract layer over `Buffer`: what the class is FOR.  A queue is a list of bytes; a program
over buffers is a list of operations, each on one buffer of a store, or a `swap` of two.  The
concrete run threads the vectors and indices of `Buffer.lean` and stops at the first `length_error`
or bad copy; the abstract run threads the lists.

`refines` is the result: under the preconditions the callers owe, the concrete run goes through to
its end, every buffer of the store satisfies the index invariant, and it reads back the abstract
store, with every returned string and count the abstract one.  Going through to the end is what
says that every copy stayed inside its vector.
-/
import Suduo.Net.Buffer

namespace Suduo.BufferQueue

open Lib

/-! ## 1. Operations and their two meanings -/

/-- What one call on a buffer is asked to do. -/
inductive Op
  | append (data : List Byte)
  | retrieve (len : Nat)
  /-- `retrieve_until(peek() + len)`. -/
  | retrieveUntil (len : Nat)
  | retrieveAll
  | retrieveAsString (len : Nat)
  | retrieveAllAsString
  | ensureWriteableBytes (len : Nat)
  /-- `data` written at `write_begin()`, then `has_written`. -/
  | hasWritten (data : List Byte)
  | unwrite (len : Nat)
  | prepend (data : List Byte)
  | shrink (reserve : Nat)
  /-- `read_fd` on a `readv` that fails with an errno or reads these bytes. -/
  | readFd (readv : Except Nat (List Byte))
  deriving DecidableEq, Repr

/-- What a call returns. -/
inductive Ret
  | void
  | string (bytes : List Byte)
  /-- The `ssize_t` of `read_fd` and what it stores to `*saved_errno`. -/
  | count (n : Int) (savedErrno : Option Nat)
  deriving DecidableEq, Repr

/-- The call on a `Buffer`. -/
def Op.run (b : Buffer) : Op → Except Buffer.Error (Ret × Buffer)
  | .append data => return (.void, ← b.append data)
  | .retrieve len => return (.void, b.retrieve len)
  | .retrieveUntil len => return (.void, b.retrieveUntil (b.readIndex + len))
  | .retrieveAll => return (.void, b.retrieveAll)
  | .retrieveAsString len => do
    let (bytes, b) ← b.retrieveAsString len
    return (.string bytes, b)
  | .retrieveAllAsString => do
    let (bytes, b) ← b.retrieveAllAsString
    return (.string bytes, b)
  | .ensureWriteableBytes len => return (.void, ← b.ensureWriteableBytes len)
  | .hasWritten data => do
    let b ← b.writeAtBegin data
    return (.void, b.hasWritten data.length)
  | .unwrite len => return (.void, b.unwrite len)
  | .prepend data => return (.void, ← b.prepend data)
  | .shrink reserve => return (.void, ← b.shrink reserve)
  | .readFd readv => do
    let (n, savedErrno, b) ← b.readFd readv
    return (.count n savedErrno, b)

/-- The call on a byte list: what the operation means.  That `unwrite` and `prepend` are
operations on the same list is the reason for having it. -/
def Op.spec (q : List Byte) : Op → Ret × List Byte
  | .append data | .hasWritten data => (.void, q ++ data)
  | .retrieve len | .retrieveUntil len => (.void, q.drop len)
  | .retrieveAll => (.void, [])
  | .retrieveAsString len => (.string (q.take len), q.drop len)
  | .retrieveAllAsString => (.string q, [])
  | .ensureWriteableBytes _ | .shrink _ => (.void, q)
  | .unwrite len => (.void, q.rdrop len)
  | .prepend data => (.void, data ++ q)
  | .readFd (.error errno) => (.count (-1) (some errno), q)
  | .readFd (.ok data) => (.count data.length none, q ++ data)

/-- What a caller owes: the room it was told of, and sizes that fit a vector.  Each clause is a
precondition of the C++ function, none of the proof. -/
def Op.Pre (b : Buffer) : Op → Prop
  | .append data => b.writeIndex + data.length < 2 ^ 63
  -- the pointer is one of the address space
  | .retrieveUntil len => b.readIndex + len < 2 ^ 64
  | .retrieveAsString len | .unwrite len => len ≤ b.readableBytes
  | .ensureWriteableBytes len => b.writeIndex + len < 2 ^ 63
  | .hasWritten data => data.length ≤ b.writeadbleBytes
  | .prepend data => data.length ≤ b.preAppendBytes
  | .shrink reserve => Buffer.preAppendSize + (b.readableBytes + reserve) < 2 ^ 63
  | .readFd (.ok data) => b.fitsIov (.ok data) ∧ b.writeIndex + data.length < 2 ^ 63
  | .retrieve _ | .retrieveAll | .retrieveAllAsString | .readFd (.error _) => True

instance Op.decidablePre (b : Buffer) : (op : Op) → Decidable (op.Pre b)
  | .append _ | .retrieveUntil _ | .ensureWriteableBytes _ | .shrink _ => Nat.decLt _ _
  | .retrieveAsString _ | .unwrite _ | .hasWritten _ | .prepend _ => Nat.decLe _ _
  | .readFd (.ok _) => instDecidableAnd
  | .retrieve _ | .retrieveAll | .retrieveAllAsString | .readFd (.error _) => .isTrue trivial

/-- **One operation refines one list operation.**  Each case is the specification of the call in
`Buffer.lean`, and the precondition is what that one asks for. -/
theorem Op.run_refines {b : Buffer} (h : b.Wf) (op : Op) (hp : op.Pre b) :
    ∃ b', op.run b = .ok ((op.spec b.contents).1, b') ∧ b'.Wf ∧
      b'.contents = (op.spec b.contents).2 := by
  cases op with
  | append data =>
    obtain ⟨b', heq, hwf, hc⟩ := Buffer.append_spec h hp
    exact ⟨b', by rw [Op.run, heq]; rfl, hwf, hc⟩
  | retrieve len =>
    obtain ⟨hwf, hc⟩ := Buffer.retrieve_spec h len
    exact ⟨_, rfl, hwf, hc⟩
  | retrieveUntil len =>
    obtain ⟨hwf, hc⟩ := Buffer.retrieveUntil_spec h hp
    exact ⟨_, rfl, hwf, hc⟩
  | retrieveAll =>
    obtain ⟨hwf, hc⟩ := Buffer.retrieveAll_spec h
    exact ⟨_, rfl, hwf, hc⟩
  | retrieveAsString len =>
    obtain ⟨b', heq, hwf, hc⟩ := Buffer.retrieveAsString_spec h hp
    exact ⟨b', by rw [Op.run, heq]; rfl, hwf, hc⟩
  | retrieveAllAsString =>
    obtain ⟨b', heq, hwf, hc⟩ := Buffer.retrieveAllAsString_spec h
    exact ⟨b', by rw [Op.run, heq]; rfl, hwf, hc⟩
  | ensureWriteableBytes len =>
    obtain ⟨b', heq, hwf, hc, -⟩ := Buffer.ensureWriteableBytes_spec h hp
    exact ⟨b', by rw [Op.run, heq]; rfl, hwf, hc⟩
  | hasWritten data =>
    obtain ⟨b', heq, hwf, hc, -⟩ := Buffer.writeAtBegin_spec h hp
    exact ⟨b'.hasWritten data.length, by rw [Op.run, heq]; rfl, hwf, hc⟩
  | unwrite len =>
    obtain ⟨hwf, hc⟩ := Buffer.unwrite_spec h hp
    exact ⟨_, rfl, hwf, hc⟩
  | prepend data =>
    obtain ⟨b', heq, hwf, hc⟩ := Buffer.prepend_spec h hp
    exact ⟨b', by rw [Op.run, heq]; rfl, hwf, hc⟩
  | shrink reserve =>
    obtain ⟨b', heq, hwf, hc⟩ := Buffer.shrink_spec h hp
    exact ⟨b', by rw [Op.run, heq]; rfl, hwf, hc⟩
  | readFd readv =>
    cases readv with
    | error errno => exact ⟨b, rfl, h, rfl⟩
    | ok data =>
      obtain ⟨b', heq, hwf, hc⟩ := Buffer.readFd_spec h hp.2
      exact ⟨b', by rw [Op.run, heq]; rfl, hwf, hc⟩

/-! ## 2. Programs over several buffers -/

/-- One statement of a program: an operation on buffer `i`, or `swap`. -/
inductive Stmt
  | on (i : Nat) (op : Op)
  | swap (i j : Nat)
  deriving DecidableEq, Repr

/-- The buffers, by number, and what the calls have returned so far. -/
structure Store (β : Type) where
  buf : Nat → β
  returned : List Ret

/-- A store of fresh values. -/
def Store.fresh {β : Type} (b : β) : Store β := ⟨fun _ => b, []⟩

/-- One statement on the buffers. -/
def Stmt.run (s : Store Buffer) : Stmt → Except Buffer.Error (Store Buffer)
  | .on i op => do
    let (r, b) ← op.run (s.buf i)
    return ⟨Function.update s.buf i b, s.returned ++ [r]⟩
  | .swap i j =>
    let (b, rhs) := (s.buf i).swap (s.buf j)
    return ⟨Function.update (Function.update s.buf i b) j rhs, s.returned⟩

/-- One statement on the lists. -/
def Stmt.spec (s : Store (List Byte)) : Stmt → Store (List Byte)
  | .on i op =>
    ⟨Function.update s.buf i (op.spec (s.buf i)).2, s.returned ++ [(op.spec (s.buf i)).1]⟩
  | .swap i j => ⟨Function.update (Function.update s.buf i (s.buf j)) j (s.buf i), s.returned⟩

/-- A program on the buffers, up to its end or its first failure. -/
def run (s : Store Buffer) : List Stmt → Except Buffer.Error (Store Buffer)
  | [] => .ok s
  | c :: cs => do run (← c.run s) cs

/-- A program on the lists. -/
def spec (s : Store (List Byte)) (cs : List Stmt) : Store (List Byte) := cs.foldl Stmt.spec s

/-- The caller of one statement keeps its preconditions. -/
def Stmt.Pre (s : Store Buffer) : Stmt → Prop
  | .on i op => op.Pre (s.buf i)
  | .swap _ _ => True

/-- Each statement of the program finds its preconditions met when it is its turn.  They are
about the buffer at that time, so the buffers are run along. -/
def Pre (s : Store Buffer) : List Stmt → Prop
  | [] => True
  | c :: cs => c.Pre s ∧
    match c.run s with
    | .ok s' => Pre s' cs
    | .error _ => True

instance Stmt.decidablePre (s : Store Buffer) : (c : Stmt) → Decidable (c.Pre s)
  | .on i op => Op.decidablePre (s.buf i) op
  | .swap _ _ => .isTrue trivial

instance decidablePre : (s : Store Buffer) → (cs : List Stmt) → Decidable (Pre s cs)
  | _, [] => .isTrue trivial
  | s, c :: cs =>
    match h : c.run s with
    | .ok s' =>
      have := decidablePre s' cs
      decidable_of_iff (c.Pre s ∧ Pre s' cs) (by simp only [Pre, h])
    | .error _ => decidable_of_iff (c.Pre s) (by simp only [Pre, h, and_true])

/-- Every buffer of the store has its indices in order. -/
def AllWf (s : Store Buffer) : Prop := ∀ i, (s.buf i).Wf

/-- The lists a store of buffers stands for. -/
def abs (s : Store Buffer) : Store (List Byte) := ⟨fun i => (s.buf i).contents, s.returned⟩

/-! ## 3. The refinement -/

/-- The step lemma: a statement whose preconditions are met succeeds and does to the lists what
it should.  The other buffers are not touched; a `swap` exchanges two of them, indices and all. -/
theorem Stmt.run_refines {s : Store Buffer} (h : AllWf s) (c : Stmt) (hp : c.Pre s) :
    ∃ s', c.run s = .ok s' ∧ AllWf s' ∧ abs s' = c.spec (abs s) := by
  cases c with
  | on i op =>
    obtain ⟨b', heq, hwf, hc⟩ := op.run_refines (h i) hp
    refine ⟨⟨Function.update s.buf i b', _⟩, by rw [Stmt.run, heq]; rfl, ?_, ?_⟩
    · intro k
      rcases eq_or_ne k i with rfl | hne
      · simpa only [Function.update_self] using hwf
      · simpa only [Function.update_of_ne hne] using h k
    · simp only [abs, Stmt.spec, Store.mk.injEq, and_true]
      rw [← hc]
      funext k
      exact Function.apply_update (fun _ b => Buffer.contents b) s.buf i b' k
  | swap i j =>
    refine ⟨_, rfl, ?_, ?_⟩
    · intro k
      simp only [Function.update_apply]
      split
      · exact h i
      · split
        · exact h j
        · exact h k
    · simp only [abs, Stmt.spec, Store.mk.injEq, and_true]
      funext k
      simp only [Function.update_apply, apply_ite Buffer.contents]

/-- The run lemma, from any store in order; by induction on the program, one step lemma after the
other. -/
theorem run_refines (cs : List Stmt) : ∀ {s : Store Buffer}, AllWf s → Pre s cs →
    ∃ s', run s cs = .ok s' ∧ AllWf s' ∧ abs s' = spec (abs s) cs := by
  induction cs with
  | nil =>
    intro s h _
    exact ⟨s, rfl, h, rfl⟩
  | cons c cs ih =>
    intro s h hp
    obtain ⟨s₁, h₁, hwf₁, habs₁⟩ := c.run_refines h hp.1
    have hrest : Pre s₁ cs := by
      have := hp.2
      rwa [h₁] at this
    obtain ⟨s₂, h₂, hwf₂, habs₂⟩ := ih hwf₁ hrest
    refine ⟨s₂, ?_, hwf₂, ?_⟩
    · rw [run, h₁, Buffer.ok_bind, h₂]
    · rw [habs₂, habs₁]
      rfl

/-- **A `Buffer` refines a byte queue.**  Every program over fresh buffers whose calls meet their
preconditions runs to its end, with no copy out of bounds and no `length_error`; then
`read_index ≤ write_index ≤ size` in every buffer, and the readable bytes and the returned values
are those of the lists. -/
theorem refines (cs : List Stmt) (hp : Pre (.fresh Buffer.new) cs) :
    ∃ s, run (.fresh Buffer.new) cs = .ok s ∧
      (∀ i, (s.buf i).readIndex ≤ (s.buf i).writeIndex ∧
        (s.buf i).writeIndex ≤ (s.buf i).buffer.length) ∧
      (∀ i, (s.buf i).contents = (spec (.fresh []) cs).buf i) ∧
      s.returned = (spec (.fresh []) cs).returned := by
  obtain ⟨s, hrun, hwf, habs⟩ := run_refines cs (s := .fresh Buffer.new)
    (fun _ => Buffer.new_wf Buffer.initSize) hp
  have hfresh : abs (.fresh Buffer.new) = .fresh [] := by
    simp only [abs, Store.fresh, Buffer.new_contents]
  rw [hfresh] at habs
  refine ⟨s, hrun, fun i => ⟨(hwf i).le, (hwf i).bound⟩, fun i => ?_, ?_⟩
  · rw [← habs]
    rfl
  · rw [← habs]
    rfl

/-- Two buffers, a header pushed in front, a swap, and a read that fills the vector and spills. -/
def framed : List Stmt :=
  [.on 0 (.append [1, 2, 3]), .on 0 (.retrieve 1), .on 0 (.prepend [9, 8]), .swap 0 1,
    .on 1 (.unwrite 1), .on 0 (.readFd (.ok (List.replicate 1100 7))),
    .on 0 (.retrieve 1099), .on 0 (.append [5]), .on 0 .retrieveAllAsString,
    .on 1 (.retrieveAsString 3)]

theorem refines_framed : Pre (.fresh Buffer.new) framed ∧
    ∃ s, run (.fresh Buffer.new) framed = .ok s ∧ (s.buf 1).contents = [] ∧
      s.returned.drop 6 = [.void, .string [7, 5], .string [9, 8, 2]] := by
  have hp : Pre (.fresh Buffer.new) framed := by decide +kernel
  obtain ⟨s, hrun, -, hc, hret⟩ := refines framed hp
  refine ⟨hp, s, hrun, ?_, ?_⟩
  · rw [hc 1]
    decide +kernel
  · rw [hret]
    decide +kernel

end Suduo.BufferQueue
