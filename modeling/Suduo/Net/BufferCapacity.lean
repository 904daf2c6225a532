/-
# Capacity requests on a `Buffer`

The constructor, `ensure_writeable_bytes` and `shrink` of `net/Buffer.h` are asked for a number of writeable
bytes.  What such a call leaves behind when it throws matters here, so the calls that may throw are
given again, assignment by assignment, over a state that a throw keeps (`Call`), and shown to compute
what `Buffer.lean` has (`ensureWriteableBytesCall_eq`, `appendCall_outcome`, `shrinkCall_eq`).

The sums of `make_space` and `shrink` wrap.  A request for almost all of the address space is then taken
for a small one: it returns without the room, or with a vector cut off below `write_index`.
`capacity_honoured` has the exact requests that go wrong, in every buffer that calls can make of a new
one, and the constructor, which never looks at the size it is given.
-/
import Suduo.Lib.Reach
import Suduo.Net.BufferInput
import Suduo.Net.BufferQueue

namespace Suduo.Buffer

open Lib

/-! ## 1. The code, with what a throw leaves -/

/-- A call on `*this`; whether it returns or throws, it leaves a buffer.  The functions of
`Buffer.lean` return no buffer when they throw, and a promise about what is left could not be
stated of them. -/
abbrev Call := EStateM Error Buffer Unit

/-- Something that does not assign to `*this`. -/
def compute {α : Type} (x : Except Error α) : EStateM Error Buffer α := fun b =>
  match x with
  | .ok a => .ok a b
  | .error e => .error e b

/-- A call on a local variable: if it throws, the variable is gone and `*this` is as it was. -/
def onLocal (other : Buffer) (call : Call) : EStateM Error Buffer Buffer := fun b =>
  match call other with
  | .ok _ other => .ok other b
  | .error e _ => .error e b

/-- `make_space`.  `resize` of a vector of bytes throws before it changes anything. -/
def makeSpaceCall (len : Nat) : Call := do
  let b ← get
  if addSize b.writeadbleBytes b.preAppendBytes < addSize len preAppendSize then
    let v ← compute (resize b.buffer (addSize b.writeIndex len))
    modify fun b => { b with buffer := v }
  else
    let readable := b.readableBytes
    let v ← compute (copyWithin b.buffer b.readIndex b.writeIndex preAppendSize)
    modify fun b => { b with buffer := v }
    modify fun b => { b with readIndex := preAppendSize }
    modify fun b => { b with writeIndex := addSize b.readIndex readable }

def ensureWriteableBytesCall (len : Nat) : Call := do
  let b ← get
  if b.writeadbleBytes < len then makeSpaceCall len

/-- Copy `data` to `write_begin()`. -/
def writeCall (data : List Byte) : Call := do
  let b ← get
  let v ← compute (store b.buffer b.writeIndex data)
  modify fun b => { b with buffer := v }

def appendCall (data : List Byte) : Call := do
  ensureWriteableBytesCall data.length
  writeCall data
  modify fun b => b.hasWritten data.length

/-- `shrink`; only the `swap` at its end assigns to `*this`. -/
def shrinkCall (reserve : Nat) : Call := do
  let b ← get
  let other ← onLocal new (ensureWriteableBytesCall (addSize b.readableBytes reserve))
  let other ← onLocal other (appendCall (← compute b.toBytes))
  set (b.swap other).1

/-- `read_fd`, given what `readv` does. -/
def readFdCall : Except Nat (List Byte) → Call
  | .error _ => pure ()
  | .ok data => do
    let b ← get
    let writeable := b.writeadbleBytes
    if data.length ≤ writeable then
      writeCall data
      modify fun b => b.hasWritten data.length
    else
      writeCall (data.take writeable)
      modify fun b => { b with writeIndex := b.buffer.length }
      appendCall (data.drop writeable)

/-- A call that cannot throw, taken from `BufferQueue`. -/
def runCall (op : BufferQueue.Op) : Call := do
  let b ← get
  let (_, b) ← compute (op.run b)
  set b

/-- Any call. -/
def opCall : BufferQueue.Op → Call
  | .append data => appendCall data
  | .ensureWriteableBytes len => ensureWriteableBytesCall len
  | .shrink reserve => shrinkCall reserve
  | .readFd readv => readFdCall readv
  | op => runCall op

/-- One call of a program that goes on after a `length_error`. -/
def callStep (b : Buffer) (op : BufferQueue.Op) : Option Buffer :=
  match opCall op b with
  | .ok _ b => some b
  | .error .lengthError b => some b
  | .error .badCopy _ => none

/-! ## 2. What a request is promised -/

/-- The request for `n` writeable bytes is honoured in `b`: the call returns with the room, or it
throws and leaves the indices; either way nothing that can be read changes.  A copy outside the
vector is neither, and counts as a broken promise. -/
structure Honoured (call : Call) (n : Nat) (b : Buffer) : Prop where
  returned : ∀ b', call b = .ok () b' →
    n ≤ b'.writeadbleBytes ∧ b'.contents = b.contents ∧ b'.writeIndex ≤ b'.buffer.length
  thrown : ∀ b', call b = .error .lengthError b' →
    b'.readIndex = b.readIndex ∧ b'.writeIndex = b.writeIndex ∧ b'.contents = b.contents
  inBounds : ∀ b', call b ≠ .error .badCopy b'

/-- No sum of `make_space` wraps. -/
def EnsureFits (b : Buffer) (len : Nat) : Prop :=
  len + preAppendSize < 2 ^ 64 ∧ b.writeIndex + len < 2 ^ 64

/-- No sum of `shrink` wraps, or the readable bytes alone are more than a new vector can take. -/
def ShrinkFits (b : Buffer) (reserve : Nat) : Prop :=
  b.readableBytes + reserve + preAppendSize < 2 ^ 64 ∨ 2 ^ 63 ≤ b.readableBytes + preAppendSize

instance (b : Buffer) (n : Nat) : Decidable (EnsureFits b n) := instDecidableAnd

instance (b : Buffer) (n : Nat) : Decidable (ShrinkFits b n) := instDecidableOr

/-- What a caller owes, and for capacity requests the condition under which they are honoured. -/
def Owed (b : Buffer) : BufferQueue.Op → Prop
  -- a range of memory
  | .append data => data.length < 2 ^ 63
  | .retrieveUntil len => b.readIndex + len < 2 ^ 64
  | .retrieveAsString len | .unwrite len => len ≤ b.readableBytes
  | .hasWritten data => data.length ≤ b.writeadbleBytes
  | .prepend data => data.length ≤ b.preAppendBytes
  | .readFd readv => b.fitsIov readv
  | .ensureWriteableBytes len => EnsureFits b len
  | .shrink reserve => ShrinkFits b reserve
  | .retrieve _ | .retrieveAll | .retrieveAllAsString => True

instance decidableOwed (b : Buffer) : (op : BufferQueue.Op) → Decidable (Owed b op)
  | .append _ | .retrieveUntil _ => Nat.decLt _ _
  | .retrieveAsString _ | .unwrite _ | .hasWritten _ | .prepend _ => Nat.decLe _ _
  | .readFd _ => inferInstanceAs (Decidable (_ = true))
  | .ensureWriteableBytes _ => instDecidableAnd
  | .shrink _ => instDecidableOr
  | .retrieve _ | .retrieveAll | .retrieveAllAsString => .isTrue trivial

/-! ## 3. The calls compute what the functions do -/

/-- A function that assigns nothing before it throws, as a call. -/
def result (b : Buffer) : Except Error Buffer → EStateM.Result Error Buffer Unit
  | .ok b' => .ok () b'
  | .error e => .error e b

/-- A call as a function. -/
def outcome : EStateM.Result Error Buffer Unit → Except Error Buffer
  | .ok _ b => .ok b
  | .error e _ => .error e

section

variable {α β : Type} (f : α → EStateM Error Buffer β) (g : Buffer → Buffer) (b : Buffer)

theorem get_bind (k : Buffer → EStateM Error Buffer β) : (get >>= k) b = k b b := rfl

theorem compute_ok_bind (a : α) : (compute (.ok a) >>= f) b = f a b := rfl

theorem compute_error_bind (e : Error) : (compute (.error e) >>= f) b = .error e b := rfl

theorem modify_bind (k : PUnit → EStateM Error Buffer β) : (modify g >>= k) b = k ⟨⟩ (g b) := rfl

theorem modify_run : (modify g : Call) b = .ok () (g b) := rfl

end

variable {b b' : Buffer} {n : Nat} {data : List Byte}

theorem makeSpaceCall_eq (b : Buffer) (len : Nat) : makeSpaceCall len b = result b (b.makeSpace len) := by
  unfold makeSpaceCall makeSpace
  rw [get_bind]
  split
  · cases resize b.buffer (addSize b.writeIndex len) with
    | error e => rw [compute_error_bind]; rfl
    | ok v => rw [compute_ok_bind, modify_run]; rfl
  · dsimp only
    cases copyWithin b.buffer b.readIndex b.writeIndex preAppendSize with
    | error e => rw [compute_error_bind]; rfl
    | ok v => rw [compute_ok_bind, modify_bind, modify_bind, modify_run]; rfl

theorem ensureWriteableBytesCall_eq (b : Buffer) (len : Nat) :
    ensureWriteableBytesCall len b = result b (b.ensureWriteableBytes len) := by
  unfold ensureWriteableBytesCall ensureWriteableBytes
  rw [get_bind]
  split
  · exact makeSpaceCall_eq b len
  · rfl

theorem writeCall_eq (b : Buffer) (data : List Byte) : writeCall data b = result b (b.writeAtBegin data) := by
  unfold writeCall writeAtBegin
  rw [get_bind]
  cases store b.buffer b.writeIndex data with
  | error e => rw [compute_error_bind]; rfl
  | ok v => rw [compute_ok_bind, modify_run]; rfl

/-- One call after another is one call, which throws where the first or the second does. -/
theorem seq_run {α : Type} (call : Call) (k : EStateM Error Buffer α) (b : Buffer) :
    (call >>= fun _ => k) b =
      match call b with
      | .ok _ b' => k b'
      | .error e b' => .error e b' := by
  change EStateM.bind call (fun _ => k) b = _
  unfold EStateM.bind
  cases call b with
  | ok _ b' => rfl
  | error e b' => rfl

theorem appendCall_run (b : Buffer) (data : List Byte) :
    appendCall data b =
      match b.ensureWriteableBytes data.length with
      | .error e => .error e b
      | .ok b₁ =>
        match b₁.writeAtBegin data with
        | .error e => .error e b₁
        | .ok b₂ => .ok () (b₂.hasWritten data.length) := by
  unfold appendCall
  rw [seq_run, ensureWriteableBytesCall_eq]
  cases b.ensureWriteableBytes data.length with
  | error e => rfl
  | ok b₁ =>
    dsimp only [result]
    rw [seq_run, writeCall_eq]
    cases b₁.writeAtBegin data with
    | error e => rfl
    | ok b₂ => rfl

theorem append_run (b : Buffer) (data : List Byte) :
    b.append data =
      match b.ensureWriteableBytes data.length with
      | .error e => .error e
      | .ok b₁ =>
        match b₁.writeAtBegin data with
        | .error e => .error e
        | .ok b₂ => .ok (b₂.hasWritten data.length) := by
  unfold append
  cases b.ensureWriteableBytes data.length with
  | error e => rfl
  | ok b₁ =>
    rw [ok_bind]
    dsimp only
    cases b₁.writeAtBegin data with
    | error e => rfl
    | ok b₂ => rfl

theorem appendCall_outcome (b : Buffer) (data : List Byte) :
    outcome (appendCall data b) = b.append data := by
  rw [appendCall_run, append_run]
  cases b.ensureWriteableBytes data.length with
  | error e => rfl
  | ok b₁ =>
    dsimp only
    cases b₁.writeAtBegin data with
    | error e => rfl
    | ok b₂ => rfl

/-- On a local variable only what a call computes counts. -/
theorem onLocal_eq (other : Buffer) (call : Call) : onLocal other call = compute (outcome (call other)) := by
  funext b
  unfold onLocal
  cases call other with
  | ok _ other => rfl
  | error e _ => rfl

theorem outcome_result (b : Buffer) (x : Except Error Buffer) : outcome (result b x) = x := by
  cases x <;> rfl

/-- **A `shrink` that throws changes nothing**, because everything that can throw works on the
new buffer. -/
theorem shrinkCall_eq (b : Buffer) (reserve : Nat) : shrinkCall reserve b = result b (b.shrink reserve) := by
  unfold shrinkCall shrink
  rw [get_bind, onLocal_eq, ensureWriteableBytesCall_eq, outcome_result]
  cases new.ensureWriteableBytes (addSize b.readableBytes reserve) with
  | error e => rw [compute_error_bind]; rfl
  | ok other =>
    rw [compute_ok_bind, ok_bind]
    cases b.toBytes with
    | error e => rw [compute_error_bind]; rfl
    | ok bytes =>
      rw [compute_ok_bind, onLocal_eq, appendCall_outcome, ok_bind]
      cases other.append bytes with
      | error e => rw [compute_error_bind]; rfl
      | ok other => rw [compute_ok_bind]; rfl

/-! ## 4. Calls on a buffer made by calls -/

/-- The vector was never made smaller: it has at least the size that the constructor gave it. -/
structure Roomy (b : Buffer) : Prop where
  wf : b.Wf
  size : preAppendSize + initSize ≤ b.buffer.length

theorem new_roomy (n : Nat) : (new n).Roomy := ⟨new_wf n, Nat.le_of_eq (new_length n).symm⟩

theorem store_length {v v' d : List Byte} {dest : Nat} (h : store v dest d = .ok v') :
    v'.length = v.length ∧ dest + d.length ≤ v.length := by
  unfold store at h
  split at h
  · rename_i hfit
    cases h
    exact ⟨length_overwrite hfit, hfit⟩
  · cases h

theorem resize_length {v v' : List Byte} {n : Nat} (h : resize v n = .ok v') : v'.length = n := by
  unfold resize at h
  split at h
  · cases h
    rw [List.length_append, List.length_take, List.length_replicate]
    omega
  · cases h

theorem copyWithin_length {v v' : List Byte} {first last dest : Nat}
    (h : copyWithin v first last dest = .ok v') :
    v'.length = v.length ∧ dest + (last - first) ≤ v.length := by
  unfold copyWithin at h
  split at h
  · cases h
  · obtain ⟨d, hload, hstore⟩ := bind_eq_ok.mp h
    obtain ⟨hlen, hfit⟩ := store_length hstore
    unfold load at hload
    split at hload
    · rename_i hin
      cases hload
      rw [length_slice hin.2] at hfit
      exact ⟨hlen, hfit⟩
    · cases hload

/-- `make_space` never makes the vector smaller, unless the new size wraps. -/
theorem makeSpace_length_le (h : b.Wf) (hw : b.writeadbleBytes < n) (hs : b.writeIndex + n < 2 ^ 64)
    (hst : b.makeSpace n = .ok b') : b.buffer.length ≤ b'.buffer.length := by
  have hwr := h.writeable
  unfold makeSpace at hst
  split at hst
  · obtain ⟨v, hv, hb'⟩ := bind_eq_ok.mp hst
    cases hb'
    have hlen := resize_length hv
    rw [addSize_eq hs] at hlen
    change _ ≤ v.length
    omega
  · obtain ⟨v, hv, hb'⟩ := bind_eq_ok.mp hst
    cases hb'
    exact Nat.le_of_eq (copyWithin_length hv).1.symm

/-- **`ensure_writeable_bytes` when no sum wraps**: it makes the room or throws. -/
theorem Roomy.ensure (h : b.Roomy) (hfit : EnsureFits b n) :
    b.ensureWriteableBytes n = .error .lengthError ∨
      ∃ b', b.ensureWriteableBytes n = .ok b' ∧ b'.Roomy ∧ b'.contents = b.contents ∧
        n ≤ b'.writeadbleBytes := by
  rcases ensureWriteableBytes_total h.wf hfit.1 hfit.2 with ⟨-, herr⟩ | ⟨b', hok, hwf, hc, hroom⟩
  · exact .inl herr
  · refine .inr ⟨b', hok, ⟨hwf, ?_⟩, hc, hroom⟩
    refine Nat.le_trans h.size ?_
    unfold ensureWriteableBytes at hok
    split at hok
    · rename_i hw
      exact makeSpace_length_le h.wf hw hfit.2 hok
    · cases hok
      exact Nat.le_refl _

/-- Writing at `write_begin()` stays inside the vector. -/
theorem Roomy.write (h : b.Roomy) (hd : data.length ≤ b.writeadbleBytes) :
    ∃ b', b.writeAtBegin data = .ok b' ∧ (b'.hasWritten data.length).Roomy ∧
      (b'.hasWritten data.length).contents = b.contents ++ data ∧
      b'.buffer.length = b.buffer.length ∧ b'.writeIndex = b.writeIndex := by
  obtain ⟨b', hok, hwf, hc, hlen, hindex⟩ := writeAtBegin_spec h.wf hd
  refine ⟨b', hok, ⟨hwf, ?_⟩, hc, hlen, hindex⟩
  change _ ≤ b'.buffer.length
  rw [hlen]
  exact h.size

theorem fits_of_small (h : b.Wf) (hl : n < 2 ^ 63) : EnsureFits b n := by
  have hbound := h.bound
  have hsmall := h.small
  have hpre : preAppendSize = 8 := rfl
  exact ⟨by omega, by omega⟩

/-- The call stays in bounds and leaves a buffer of the kind, whether it throws or not. -/
def Safe (call : Call) (b : Buffer) : Prop :=
  ∃ b', (call b = .ok () b' ∨ call b = .error .lengthError b') ∧ b'.Roomy

theorem Roomy.safe {call : Call} {x : Except Error Buffer} (h : b.Roomy) (heq : call b = result b x)
    (hx : x = .error .lengthError ∨ ∃ b', x = .ok b' ∧ b'.Roomy) : Safe call b := by
  rcases hx with rfl | ⟨b', rfl, hroomy⟩
  · exact ⟨b, .inr heq, h⟩
  · exact ⟨b', .inl heq, hroomy⟩

theorem Roomy.ensure_safe (h : b.Roomy) (hfit : EnsureFits b n) : Safe (ensureWriteableBytesCall n) b := by
  refine h.safe (ensureWriteableBytesCall_eq b n) ?_
  rcases h.ensure hfit with herr | ⟨b', hok, hroomy, -⟩
  · exact .inl herr
  · exact .inr ⟨b', hok, hroomy⟩

theorem Roomy.append_safe (h : b.Roomy) (hl : data.length < 2 ^ 63) : Safe (appendCall data) b := by
  unfold Safe
  rw [appendCall_run]
  rcases h.ensure (fits_of_small h.wf hl) with herr | ⟨b₁, h₁, hroomy, -, hroom⟩
  · rw [herr]
    exact ⟨b, .inr rfl, h⟩
  · obtain ⟨b₂, h₂, hroomy₂, -⟩ := hroomy.write hroom
    rw [h₁]
    dsimp only
    rw [h₂]
    exact ⟨_, .inl rfl, hroomy₂⟩

/-- `read_fd`; it may throw when the vector is already filled. -/
theorem Roomy.readFd_safe (h : b.Roomy) (hd : b.fitsIov (.ok data) = true) :
    Safe (readFdCall (.ok data)) b := by
  have hwr := h.wf.writeable
  have hsmall := h.wf.small
  unfold Safe readFdCall
  dsimp only
  rw [get_bind]
  split
  · rename_i hle
    obtain ⟨b₁, h₁, hroomy, -⟩ := h.write hle
    rw [seq_run, writeCall_eq, h₁]
    exact ⟨_, .inl rfl, hroomy⟩
  · rename_i hgt
    have htake : (data.take b.writeadbleBytes).length = b.writeadbleBytes := by
      rw [List.length_take]
      omega
    obtain ⟨b₁, h₁, hroomy, -, hlen, hindex⟩ := h.write (Nat.le_of_eq htake)
    -- the vector is full now
    have hfull : b₁.hasWritten (data.take b.writeadbleBytes).length =
        { b₁ with writeIndex := b₁.buffer.length } := by
      have hbound := h.wf.bound
      rw [hasWritten, hindex, htake, hlen, addSize_eq (by omega)]
      congr 1
      omega
    rw [hfull] at hroomy
    have hrest : (data.drop b.writeadbleBytes).length < 2 ^ 63 := by
      have hiov : data.length ≤ b.iovLength := of_decide_eq_true hd
      unfold iovLength extrabufSize at hiov
      rw [List.length_drop]
      split at hiov <;> omega
    rw [seq_run, writeCall_eq, h₁]
    dsimp only [result]
    rw [modify_bind]
    exact hroomy.append_safe hrest

/-- The indices stay, or the readable bytes are moved to the header. -/
theorem ensure_indices {other : Buffer} (h : b.ensureWriteableBytes n = .ok other) :
    other.readIndex = b.readIndex ∧ other.writeIndex = b.writeIndex ∨
      other.readIndex = preAppendSize ∧ other.writeIndex = addSize preAppendSize b.readableBytes := by
  unfold ensureWriteableBytes at h
  split at h
  · rcases makeSpace_cases h with hsame | ⟨-, hslid⟩
    · exact .inl hsame
    · exact .inr hslid
  · cases h
    exact .inl ⟨rfl, rfl⟩

theorem new_readableBytes : (new).readableBytes = 0 := by
  rw [(new_wf _).readable]
  rfl

theorem new_writeadbleBytes (m : Nat) : (new m).writeadbleBytes = initSize := by
  have hw : (new m).writeIndex = preAppendSize := rfl
  rw [(new_wf _).writeable, new_length, hw, Nat.add_sub_cancel_left]

/-- Where the sum wraps, a new buffer moves an empty range onto itself. -/
theorem new_ensure_wraps (hn : n < 2 ^ 64) (h8 : ¬ n + preAppendSize < 2 ^ 64) :
    new.ensureWriteableBytes n = .ok new := by
  have hpre : preAppendSize = 8 := rfl
  have hinit : initSize = 1024 := rfl
  have hr : (new).readIndex = preAppendSize := rfl
  have hw : (new).writeIndex = preAppendSize := rfl
  have hfree := new_writeadbleBytes initSize
  have hbranch : ¬ addSize (new).writeadbleBytes (new).preAppendBytes < addSize n preAppendSize := by
    have hwrap : addSize n preAppendSize = n + preAppendSize - 2 ^ 64 := by
      unfold addSize
      omega
    rw [hfree, hwrap, preAppendBytes, hr, addSize_eq (by omega)]
    omega
  have hcopy : copyWithin (new).buffer (new).readIndex (new).writeIndex preAppendSize =
      .ok (new).buffer := by
    have hin : preAppendSize ≤ (new).buffer.length := (new_wf _).header
    rw [hr, hw, copyWithin, if_neg (by omega), load_eq (Nat.le_refl _) hin, ok_bind, slice_self,
      store_eq (by simp only [List.length_nil]; omega), overwrite]
    simp
  rw [ensureWriteableBytes, if_pos (by omega), makeSpace, if_neg hbranch, hcopy, ok_bind,
    new_readableBytes, addSize_eq (by omega)]
  rfl

/-- What `ensure_writeable_bytes` does to a new buffer.  Its indices stay where they are, since
there is nothing to move. -/
theorem new_ensure (hn : n < 2 ^ 64) :
    new.ensureWriteableBytes n = .error .lengthError ∧ n + preAppendSize < 2 ^ 64 ∧
        2 ^ 63 ≤ preAppendSize + n ∨
      ∃ other, new.ensureWriteableBytes n = .ok other ∧ other.Roomy ∧ other.contents = [] ∧
        other.readIndex = preAppendSize ∧ other.writeIndex = preAppendSize ∧
        (n + preAppendSize < 2 ^ 64 → n ≤ other.writeadbleBytes) := by
  have hw : (new).writeIndex = preAppendSize := rfl
  by_cases h8 : n + preAppendSize < 2 ^ 64
  · have hfit : EnsureFits new n := ⟨h8, by rw [hw, Nat.add_comm]; exact h8⟩
    rcases (new_roomy _).ensure hfit with herr | ⟨other, hok, hroomy, hc, hroom⟩
    · left
      rcases ensureWriteableBytes_total (new_wf _) hfit.1 hfit.2 with ⟨hbig, -⟩ | ⟨_, hok, -⟩
      · exact ⟨herr, h8, hbig⟩
      · rw [herr] at hok
        cases hok
    · have hindex : other.readIndex = preAppendSize ∧ other.writeIndex = preAppendSize := by
        rcases ensure_indices hok with hsame | ⟨hread, hwrite⟩
        · exact hsame
        · refine ⟨hread, hwrite.trans ?_⟩
          rw [new_readableBytes, addSize_eq (by decide), Nat.add_zero]
      exact .inr ⟨other, hok, hroomy, hc.trans (new_contents _), hindex.1, hindex.2, fun _ => hroom⟩
  · exact .inr ⟨new, new_ensure_wraps hn h8, new_roomy _, new_contents _, rfl, rfl, fun h => absurd h h8⟩

/-- Appending to a buffer that still has its indices at the header. -/
theorem fresh_append {other : Buffer} (h : other.Roomy) (hc : other.contents = [])
    (hr : other.readIndex = preAppendSize) (hw : other.writeIndex = preAppendSize)
    (hl : data.length < 2 ^ 63) :
    2 ^ 63 ≤ data.length + preAppendSize ∧ other.append data = .error .lengthError ∨
      data.length + preAppendSize < 2 ^ 63 ∧ ∃ b', other.append data = .ok b' ∧ b'.Wf ∧
        b'.contents = data ∧ b'.writeadbleBytes + preAppendSize + data.length < 2 ^ 63 := by
  rcases append_total h.wf hl with ⟨hbig, herr⟩ | ⟨b', hok, hwf, hcont⟩
  · rw [hw] at hbig
    exact .inl ⟨by omega, herr⟩
  · rw [hc, List.nil_append] at hcont
    have hread := append_readIndex (Nat.le_of_eq hr.symm) hok
    have hlen := hwf.length_contents
    have hreadable := hwf.readable
    have hwr := hwf.writeable
    have hle := hwf.le
    have hbound := hwf.bound
    have hsmall := hwf.small
    rw [hcont] at hlen
    exact .inr ⟨by omega, b', hok, hwf, hcont, by omega⟩

/-- What `append` leaves of the room there was.  Where there is room for its bytes and `n` more,
these `n` are left. -/
theorem append_room (h : b.Wf) (hroom : data.length + n ≤ b.writeadbleBytes)
    (hst : b.append data = .ok b') : n ≤ b'.writeadbleBytes := by
  obtain ⟨b₁, h₁, hwf, -, hlen, hindex⟩ := writeAtBegin_spec h (Nat.le_trans (Nat.le_add_right _ n) hroom)
  have henough : b.ensureWriteableBytes data.length = .ok b := by
    rw [ensureWriteableBytes, if_neg (by omega)]
  rw [append, henough, ok_bind, h₁, ok_bind] at hst
  cases hst
  have hbound := h.bound
  have hsmall := h.small
  have hwr := h.writeable
  have hend : addSize b₁.writeIndex data.length = b.writeIndex + data.length := by
    rw [hindex, addSize_eq (by omega)]
  rw [hwf.writeable]
  change n ≤ b₁.buffer.length - addSize b₁.writeIndex data.length
  omega

/-! ## 5. Which requests are honoured -/

theorem honoured_thrown {call : Call} (h : call b = result b (.error .lengthError)) :
    Honoured call n b where
  returned b' hb' := by rw [h] at hb'; cases hb'
  thrown b' hb' := by
    rw [h] at hb'
    cases hb'
    exact ⟨rfl, rfl, rfl⟩
  inBounds b' hb' := by rw [h] at hb'; cases hb'

theorem honoured_returned {call : Call} (h : call b = result b (.ok b')) :
    Honoured call n b ↔ n ≤ b'.writeadbleBytes ∧ b'.contents = b.contents ∧
      b'.writeIndex ≤ b'.buffer.length := by
  constructor
  · exact fun hon => hon.returned b' h
  · intro hb'
    refine ⟨fun b₁ hb₁ => ?_, fun b₁ hb₁ => ?_, fun b₁ hb₁ => ?_⟩
    · rw [h] at hb₁
      cases hb₁
      exact hb'
    · rw [h] at hb₁
      cases hb₁
    · rw [h] at hb₁
      cases hb₁

theorem not_honoured_badCopy {call : Call} (h : call b = result b (.error .badCopy)) :
    ¬ Honoured call n b := fun hon => hon.inBounds b h

/-- A copy needs no memory, so the one thing that can go wrong are its bounds. -/
theorem copyWithin_error {v : List Byte} {first last dest : Nat} {e : Error}
    (h : copyWithin v first last dest = .error e) : e = .badCopy := by
  unfold copyWithin load store at h
  split at h
  · cases h
    rfl
  · split at h
    · rw [ok_bind] at h
      split at h
      · cases h
      · cases h
        rfl
    · cases h
      rfl

/-- A request that does not fit is larger than any vector, so it can be honoured only by
throwing. -/
theorem huge_of_not_fits (h : b.Wf) (hno : ¬ EnsureFits b n) : 2 ^ 63 ≤ n :=
  Nat.not_lt.mp fun hlt => hno (fits_of_small h hlt)

/-- A vector that grows for it grows by a sum that wraps, and ends in front of `write_index`: the
readable bytes are cut off, or their index is outside the vector. -/
theorem not_honoured_grow (h : b.Roomy) (hn : n < 2 ^ 64) (hno : ¬ EnsureFits b n)
    (hgrow : addSize b.writeadbleBytes b.preAppendBytes < addSize n preAppendSize)
    (heq : ensureWriteableBytesCall n b =
      result b (do
        let v ← resize b.buffer (addSize b.writeIndex n)
        .ok { b with buffer := v })) : ¬ Honoured (ensureWriteableBytesCall n) n b := by
  have hwr := h.wf.writeable
  have hle := h.wf.le
  have hbound := h.wf.bound
  have hsmall := h.wf.small
  have hhuge := huge_of_not_fits h.wf hno
  have hpre : preAppendSize = 8 := rfl
  have hwrap : 2 ^ 64 ≤ b.writeIndex + n := by
    by_contra hlt
    have h8 : 2 ^ 64 ≤ n + preAppendSize := by
      unfold EnsureFits at hno
      omega
    have hneed : addSize n preAppendSize = n + preAppendSize - 2 ^ 64 := by
      unfold addSize
      omega
    have hsize := h.size
    have hinit : initSize = 1024 := rfl
    rw [hneed, preAppendBytes, addSize_eq (by omega)] at hgrow
    omega
  have hsum : addSize b.writeIndex n = b.writeIndex + n - 2 ^ 64 := by
    unfold addSize
    omega
  have hmax : b.writeIndex + n - 2 ^ 64 ≤ maxSize := by
    unfold maxSize
    omega
  intro hon
  cases hv : resize b.buffer (addSize b.writeIndex n) with
  | error e =>
    rw [hsum, resize, if_pos hmax] at hv
    cases hv
  | ok v =>
    have hlen := resize_length hv
    rw [hv, ok_bind] at heq
    have hcut : b.writeIndex ≤ v.length := ((honoured_returned heq).mp hon).2.2
    omega

/-- **`ensure_writeable_bytes`** is honoured when no sum wraps, and otherwise not.  In the one
direction this is `Roomy.ensure`.  In the other the request is huge, so returning is wrong; and
it does return, or it grows by a sum that wraps. -/
theorem ensure_honoured_iff (h : b.Roomy) (hn : n < 2 ^ 64) :
    Honoured (ensureWriteableBytesCall n) n b ↔ EnsureFits b n := by
  have heq := ensureWriteableBytesCall_eq b n
  constructor
  · intro hon
    by_contra hno
    have hwr := h.wf.writeable
    have hread := h.wf.readable
    have hle := h.wf.le
    have hbound := h.wf.bound
    have hsmall := h.wf.small
    have hpre : preAppendSize = 8 := rfl
    have hhuge := huge_of_not_fits h.wf hno
    rw [ensureWriteableBytes, if_pos (by omega), makeSpace] at heq
    split at heq
    · rename_i hgrow
      exact not_honoured_grow h hn hno hgrow heq hon
    · -- the readable bytes are moved, which makes no room
      dsimp only at heq
      cases hv : copyWithin b.buffer b.readIndex b.writeIndex preAppendSize with
      | error e =>
        rw [copyWithin_error hv] at hv
        rw [hv] at heq
        exact not_honoured_badCopy heq hon
      | ok v =>
        obtain ⟨hlen, hfit⟩ := copyWithin_length hv
        rw [hv, ok_bind] at heq
        have hroom := ((honoured_returned heq).mp hon).1
        change n ≤ subSize v.length (addSize preAppendSize b.readableBytes) at hroom
        rw [addSize_eq (by omega), subSize_eq (by omega) (by omega)] at hroom
        omega
  · intro hfit
    rcases h.ensure hfit with herr | ⟨b', hok, hroomy, hc, hroom⟩
    · rw [herr] at heq
      exact honoured_thrown heq
    · rw [hok] at heq
      exact (honoured_returned heq).mpr ⟨hroom, hc, hroomy.wf.bound⟩

theorem error_bind {ε α β : Type} (e : ε) (f : α → Except ε β) : (Except.error e >>= f) = .error e := rfl

/-- **`shrink`** is honoured when no sum wraps, or when not even the readable bytes fit a new
vector; then it throws, whatever reserve is asked for. -/
theorem shrink_honoured_iff (h : b.Roomy) (hn : n < 2 ^ 64) :
    Honoured (shrinkCall n) n b ↔ ShrinkFits b n := by
  have heq := shrinkCall_eq b n
  have hpre : preAppendSize = 8 := rfl
  have hlen := h.wf.length_contents
  have hread := h.wf.readable
  have hbound := h.wf.bound
  have hsmall := h.wf.small
  have hsum : addSize b.readableBytes n < 2 ^ 64 := by
    unfold addSize
    omega
  rcases new_ensure hsum with ⟨herr, h8, hbig⟩ | ⟨other, hok, hroomy, hempty, hr, hw, hroom⟩
  · -- the new buffer does not take the request
    have hthrow : b.shrink n = .error .lengthError := by rw [shrink, herr, error_bind]
    rw [hthrow] at heq
    refine iff_of_true (honoured_thrown heq) ?_
    unfold addSize at h8 hbig
    unfold ShrinkFits
    omega
  · have happend : b.shrink n = other.append b.contents := by
      rw [shrink, hok, ok_bind, toBytes_spec h.wf, ok_bind]
    have hl : b.contents.length < 2 ^ 63 := by omega
    rw [happend] at heq
    rcases fresh_append hroomy hempty hr hw hl with ⟨hbig, herr⟩ | ⟨hfits, b', hok', hwf, hc, hcap⟩
    · rw [herr] at heq
      refine iff_of_true (honoured_thrown heq) ?_
      unfold ShrinkFits
      omega
    · rw [hok'] at heq
      rw [honoured_returned heq]
      unfold ShrinkFits
      constructor
      · rintro ⟨hcapacity, -⟩
        omega
      · rintro (hfit | hbig)
        · have hadd : addSize b.readableBytes n = b.readableBytes + n := addSize_eq (by omega)
          rw [hadd] at hroom
          exact ⟨append_room hroomy.wf (by rw [hlen]; exact hroom hfit) hok', hc, hwf.bound⟩
        · omega

/-! ## 6. Runs -/

theorem Safe.step {op : BufferQueue.Op} (h : Safe (opCall op) b) (hst : callStep b op = some b') :
    b'.Roomy := by
  obtain ⟨b₁, hcall | hcall, hroomy⟩ := h
  · rw [callStep, hcall] at hst
    cases hst
    exact hroomy
  · rw [callStep, hcall] at hst
    cases hst
    exact hroomy

theorem retrieve_buffer (b : Buffer) (len : Nat) : (b.retrieve len).buffer = b.buffer := by
  unfold retrieve
  split <;> rfl

theorem setWriteIndex_buffer (b : Buffer) (w : Nat) : { b with writeIndex := w }.buffer = b.buffer := rfl

theorem unwrite_buffer (b : Buffer) (len : Nat) : (b.unwrite len).buffer = b.buffer :=
  setWriteIndex_buffer b _

theorem retrieveAsString_buffer {len : Nat} {bytes : List Byte}
    (h : b.retrieveAsString len = .ok (bytes, b')) : b'.buffer = b.buffer := by
  unfold retrieveAsString at h
  obtain ⟨_, -, hret⟩ := bind_eq_ok.mp h
  cases hret
  exact retrieve_buffer b len

/-- A call that keeps the size of the vector is safe: it needs no memory. -/
theorem Roomy.run_safe (h : b.Roomy) (op : BufferQueue.Op) (hp : op.Pre b)
    (hlen : ∀ r b', op.run b = .ok (r, b') → b'.buffer.length = b.buffer.length) :
    Safe (runCall op) b := by
  obtain ⟨b₁, hrun, hwf, -⟩ := op.run_refines h.wf hp
  refine ⟨b₁, .inl ?_, hwf, by rw [hlen _ _ hrun]; exact h.size⟩
  rw [runCall, get_bind, hrun, compute_ok_bind]
  rfl

theorem Roomy.shrink_safe (h : b.Roomy) (reserve : Nat) : Safe (shrinkCall reserve) b := by
  refine h.safe (shrinkCall_eq b reserve) ?_
  have hlen := h.wf.length_contents
  have hread := h.wf.readable
  have hbound := h.wf.bound
  have hsmall := h.wf.small
  have hl : b.contents.length < 2 ^ 63 := by omega
  have hsum : addSize b.readableBytes reserve < 2 ^ 64 := by
    unfold addSize
    omega
  rcases new_ensure hsum with ⟨herr, -⟩ | ⟨other, hok, hroomy, -⟩
  · exact .inl (by rw [shrink, herr, error_bind])
  · have happend : b.shrink reserve = outcome (appendCall b.contents other) := by
      rw [shrink, hok, ok_bind, toBytes_spec h.wf, ok_bind, appendCall_outcome]
    rw [happend]
    obtain ⟨b', hcall | hcall, hroomy'⟩ := hroomy.append_safe hl
    · rw [hcall]
      exact .inr ⟨b', rfl, hroomy'⟩
    · rw [hcall]
      exact .inl rfl

/-- Every call whose caller owes nothing stays in bounds and leaves a buffer of the kind, whether
it throws or not. -/
theorem Roomy.call_safe (h : b.Roomy) (op : BufferQueue.Op) (howed : Owed b op) : Safe (opCall op) b := by
  cases op with
  | append data => exact h.append_safe howed
  | ensureWriteableBytes len => exact h.ensure_safe howed
  | shrink reserve => exact h.shrink_safe reserve
  | readFd readv =>
    cases readv with
    | error errno => exact ⟨b, .inl rfl, h⟩
    | ok data => exact h.readFd_safe howed
  | retrieve len =>
    refine h.run_safe (.retrieve len) trivial fun r b₁ hrun => ?_
    cases hrun
    rw [retrieve_buffer]
  | retrieveUntil len =>
    refine h.run_safe (.retrieveUntil len) howed fun r b₁ hrun => ?_
    cases hrun
    rw [retrieveUntil, retrieve_buffer]
  | retrieveAll =>
    refine h.run_safe .retrieveAll trivial fun r b₁ hrun => ?_
    cases hrun
    rfl
  | retrieveAsString len =>
    refine h.run_safe (.retrieveAsString len) howed fun r b₁ hrun => ?_
    obtain ⟨⟨bytes, b₂⟩, hget, hret⟩ := bind_eq_ok.mp hrun
    cases hret
    rw [retrieveAsString_buffer hget]
  | retrieveAllAsString =>
    refine h.run_safe .retrieveAllAsString trivial fun r b₁ hrun => ?_
    obtain ⟨⟨bytes, b₂⟩, hget, hret⟩ := bind_eq_ok.mp hrun
    cases hret
    rw [retrieveAsString_buffer hget]
  | hasWritten data =>
    refine h.run_safe (.hasWritten data) howed fun r b₁ hrun => ?_
    obtain ⟨b₂, hwrite, hret⟩ := bind_eq_ok.mp hrun
    cases hret
    obtain ⟨v, hv, hret⟩ := bind_eq_ok.mp hwrite
    cases hret
    exact (store_length hv).1
  | unwrite len =>
    refine h.run_safe (.unwrite len) howed fun r b₁ hrun => ?_
    cases hrun
    exact congrArg List.length (unwrite_buffer b len)
  | prepend data =>
    refine h.run_safe (.prepend data) howed fun r b₁ hrun => ?_
    obtain ⟨b₂, hwrite, hret⟩ := bind_eq_ok.mp hrun
    cases hret
    obtain ⟨v, hv, hret⟩ := bind_eq_ok.mp hwrite
    cases hret
    exact (store_length hv).1

/-- Every buffer that calls have made of a new one is roomy, however they ended. -/
theorem reach_roomy {m : Nat} (h : Reach callStep Owed (new m) b) : b.Roomy :=
  h.invariant (new_roomy m) fun _ op _ hroomy howed hst => (hroomy.call_safe op howed).step hst

/-- **Which capacity requests are honoured.**  The constructor gives its `init_size` to everyone;
in every buffer of a run whose requests so far met the condition, `ensure_writeable_bytes` and
`shrink` keep their promise if and only if the new request meets it.  That the requests so far
met it is needed because a broken one leaves a buffer of which nothing can be said; and what a
run leaves is `Roomy`, which is all that the two equivalences use. -/
theorem capacity_honoured {m : Nat} (h : Reach callStep Owed (new m) b) (hn : n < 2 ^ 64) :
    (n ≤ (new n).writeadbleBytes ↔ n ≤ initSize) ∧
      (Honoured (ensureWriteableBytesCall n) n b ↔ EnsureFits b n) ∧
      (Honoured (shrinkCall n) n b ↔ ShrinkFits b n) := by
  have hroomy := reach_roomy h
  rw [new_writeadbleBytes]
  exact ⟨Iff.rfl, ensure_honoured_iff hroomy hn, shrink_honoured_iff hroomy hn⟩

/-- A header is pushed in front, room is asked for and the buffer shrunk. -/
def requests : List BufferQueue.Op :=
  [.append [1, 2, 3], .prepend [0, 3], .ensureWriteableBytes 2000, .retrieve 2, .shrink 1500]

theorem capacity_honoured_requests : ∃ b, Reach callStep Owed (new 16) b ∧ b.contents = [1, 2, 3] ∧
    Honoured (ensureWriteableBytesCall 5000) 5000 b ∧
    ¬ Honoured (shrinkCall (2 ^ 64 - 3)) (2 ^ 64 - 3) b := by
  obtain ⟨b, hreach, hc, hfit, hno⟩ := Reach.exists_of_exec requests
    (fun b => b.contents = [1, 2, 3] ∧ EnsureFits b 5000 ∧ ¬ ShrinkFits b (2 ^ 64 - 3))
    (by decide +kernel : Meets callStep Owed (new 16) requests) (by decide +kernel)
  refine ⟨b, hreach, hc, ?_, ?_⟩
  · exact (capacity_honoured hreach (by decide)).2.1.mpr hfit
  · rw [(capacity_honoured hreach (by decide)).2.2]
    exact hno

/-- The constructor, and requests for the whole address space, in a new buffer. -/
theorem requests_missed : ¬ 2000 ≤ (new 2000).writeadbleBytes ∧
    ¬ Honoured (ensureWriteableBytesCall (2 ^ 64 - 1)) (2 ^ 64 - 1) new ∧
    ¬ Honoured (shrinkCall (2 ^ 64 - 1)) (2 ^ 64 - 1) new := by
  refine ⟨by decide +kernel, ?_, ?_⟩
  · rw [ensure_honoured_iff (new_roomy _) (by decide)]
    decide
  · rw [shrink_honoured_iff (new_roomy _) (by decide)]
    decide +kernel

end Suduo.Buffer
