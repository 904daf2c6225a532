/-
# `AsyncLogger`: the front end, the backend thread and the buffers they exchange

`base/AsyncLogger.cpp` over `StreamBuffer` of `base/LogStream.h`.  Any number of threads `append`
under the mutex; one backend thread (`thread_func`) takes the filled buffers away under the same
mutex, writes them out WITHOUT it, and hands two emptied ones back as spares.  Buffers change
owner by `unique_ptr` moves, so a pointer is `Option Buffer` here, `none` being null after a move.

What is modelled as one step is what the mutex or program order makes one: an `append`; the locked
section of a round, cut in two where `time_wait` gives the mutex up; the test for an overrun; the
write-out of ONE buffer; the recycling at the end of a round.  A step that would dereference a
null pointer or take `back()` of an empty vector is not possible (`none`), so "this never happens"
is a theorem about enabled steps (`recycle_eq`).

The recycling needs one buffer for `new_buffer_1` and, only if the front end used up the spare
`_next_buffer`, a second one for `new_buffer_2`.  That the second is then there is the one fact
that depends on history: the spare can only have gone by pushing a full buffer first
(`Exchange.spare`).

`log_conserved` puts it together: nothing is lost, reordered or written twice, for every
interleaving, as long as no round finds more than 25 buffers.
-/
import Suduo.Lib.Reach
import Suduo.Lib.Slice
import Mathlib.Data.List.Basic
import Mathlib.Tactic.Basic

namespace Suduo.AsyncLogger

open Lib

/-! ## 1. `StreamBuffer` -/

/-- `StreamBuffer<SIZE>`: the bytes between `_buffer` and `_current`.  What lies between
`_current` and `_end` is never read. -/
structure StreamBuffer (size : Nat) where
  written : List Byte
  bound : written.length ≤ size
  deriving DecidableEq

namespace StreamBuffer

variable {n : Nat}

/-- `StreamBuffer::StreamBuffer`. -/
def new : StreamBuffer n := ⟨[], Nat.zero_le n⟩

/-- `size`. -/
def size (b : StreamBuffer n) : Nat := b.written.length

/-- `availability`, `_end - _current`. -/
def availability (b : StreamBuffer n) : Nat := n - b.size

/-- `append`: all of `buf`, or nothing when it does not leave at least one byte free. -/
def append (b : StreamBuffer n) (buf : List Byte) : StreamBuffer n :=
  if h : b.availability > buf.length then
    ⟨b.written ++ buf, by
      simp only [availability, size] at h
      rw [List.length_append]
      omega⟩
  else b

/-- `reset`. -/
def reset (_ : StreamBuffer n) : StreamBuffer n := new

@[simp] theorem new_written : (new : StreamBuffer n).written = [] := rfl

theorem append_written {b : StreamBuffer n} {buf : List Byte} (h : b.availability > buf.length) :
    (b.append buf).written = b.written ++ buf := by
  simp [append, h]

/-- An empty buffer takes every message shorter than the buffer.  So a message within the limits
is never dropped: when it does not fit into what is left of one buffer, it goes into an empty
one. -/
theorem append_new_written {buf : List Byte} (h : buf.length < n) :
    ((new : StreamBuffer n).append buf).written = buf := by
  rw [append_written (by simpa [availability, size] using h)]
  simp

end StreamBuffer

/-! ## 2. The logger and its backend thread -/

/-- `MAX_BUFFER_SIZE`. -/
def maxBufferSize : Nat := 4000 * 1000

abbrev Buffer := StreamBuffer maxBufferSize

/-- `BufferPtr`. -/
abbrev BufferPtr := Option Buffer

/-- The bytes behind a pointer. -/
def ptrBytes : BufferPtr → List Byte
  | some b => b.written
  | none => []

/-- The bytes behind a `BufferPoll`, in order. -/
def pollBytes (v : List BufferPtr) : List Byte := v.flatMap ptrBytes

/-- Where `thread_func` is. -/
inductive Pc
  | notStarted
  /-- At `while (_running)`. -/
  | head
  /-- In `time_wait`, the mutex given up. -/
  | waiting
  /-- The locked section is over, the test for an overrun is next. -/
  | swapped
  /-- Writing out; the first `i` buffers are written. -/
  | writing (i : Nat)
  | exited
  deriving DecidableEq, Repr

/-- The logger.  The last two fields are history. -/
structure State where
  running : Bool
  currentBuffer : BufferPtr
  nextBuffer : BufferPtr
  bufferPoll : List BufferPtr
  pc : Pc
  newBuffer1 : BufferPtr
  newBuffer2 : BufferPtr
  bufferToWrite : List BufferPtr
  /-- Every byte given to `LogFile::append`. -/
  file : List Byte
  /-- Every byte given to `AsyncLogger::append`, in append order. -/
  appended : List Byte
  deriving DecidableEq

/-- One atomic step. -/
inductive Label
  /-- `append`, by any thread. -/
  | append (log : List Byte)
  /-- `start`, and the beginning of `thread_func`. -/
  | start
  /-- `stop`'s store to `_running`. -/
  | stop
  /-- The test `while (_running)` and the locked section up to `time_wait` or its end. -/
  | round
  /-- `time_wait` returns, notified or not, and the locked section goes on. -/
  | wake
  /-- The test `buffer_to_write.size() > 25`; `buf` is the text of the message, which carries
  the time of day. -/
  | checkOverrun (buf : List Byte)
  /-- One round of the write-out loop. -/
  | write
  /-- From `resize(2)` to the end of the loop body. -/
  | recycle
  deriving DecidableEq

namespace State

/-- `AsyncLogger::AsyncLogger`. -/
def init : State where
  running := false
  currentBuffer := some .new
  nextBuffer := some .new
  bufferPoll := []
  pc := .notStarted
  newBuffer1 := none
  newBuffer2 := none
  bufferToWrite := []
  file := []
  appended := []

/-- `append`. -/
def append (s : State) (log : List Byte) : Option State := do
  let cur ← s.currentBuffer
  if cur.availability > log.length then
    return { s with currentBuffer := some (cur.append log), appended := s.appended ++ log }
  else
    let fresh := s.nextBuffer.getD .new
    return { s with
      bufferPoll := s.bufferPoll ++ [some cur]
      currentBuffer := some (fresh.append log)
      nextBuffer := none
      appended := s.appended ++ log }

/-- The locked section of a round from the `push_back` on. -/
def swapBuffers (s : State) : State :=
  { s with
    bufferToWrite := s.bufferPoll ++ [s.currentBuffer]
    bufferPoll := s.bufferToWrite
    currentBuffer := s.newBuffer1
    newBuffer1 := none
    nextBuffer := if s.nextBuffer.isNone then s.newBuffer2 else s.nextBuffer
    newBuffer2 := if s.nextBuffer.isNone then none else s.newBuffer2
    pc := .swapped }

/-- `if (!new_buffer) { new_buffer = move(v.back()); v.pop_back(); new_buffer->reset(); }` -/
def refill (newBuffer : BufferPtr) (v : List BufferPtr) : Option (BufferPtr × List BufferPtr) :=
  match newBuffer with
  | some b => some (some b, v)
  | none =>
    match v.getLast? with
    | some (some b) => some (some b.reset, v.dropLast)
    -- `back()` of an empty vector, or `reset` through a null pointer
    | _ => none

/-- The end of the loop body. -/
def recycle (s : State) : Option State := do
  let v := if s.bufferToWrite.length > 2 then s.bufferToWrite.take 2 else s.bufferToWrite
  let (new1, v) ← refill s.newBuffer1 v
  let (new2, _) ← refill s.newBuffer2 v
  return { s with newBuffer1 := new1, newBuffer2 := new2, bufferToWrite := [], pc := .head }

def step (s : State) : Label → Option State
  | .append log => s.append log
  | .start =>
    if s.pc = .notStarted then
      some { s with running := true, pc := .head, newBuffer1 := some .new,
                    newBuffer2 := some .new, bufferToWrite := [] }
    else none
  | .stop => some { s with running := false }
  | .round =>
    if s.pc = .head then
      if s.running then
        if s.bufferPoll.isEmpty then some { s with pc := .waiting } else some s.swapBuffers
      else some { s with pc := .exited }
    else none
  | .wake => if s.pc = .waiting then some s.swapBuffers else none
  | .checkOverrun buf =>
    if s.pc = .swapped then
      if s.bufferToWrite.length > 25 then
        some { s with file := s.file ++ buf, bufferToWrite := s.bufferToWrite.take 2,
                      pc := .writing 0 }
      else some { s with pc := .writing 0 }
    else none
  | .write =>
    match s.pc with
    | .writing i =>
      match s.bufferToWrite[i]? with
      | some (some b) => some { s with file := s.file ++ b.written, pc := .writing (i + 1) }
      | _ => none
    | _ => none
  | .recycle => if s.pc = .writing s.bufferToWrite.length then s.recycle else none

/-- The part of `buffer_to_write` that is not written yet: all of it after the swap, and from the
place of the backend on during the write-out. -/
def unwritten (s : State) : List BufferPtr :=
  match s.pc with
  | .swapped => s.bufferToWrite
  | .writing i => s.bufferToWrite.drop i
  | _ => []

end State

/-! ## 3. The buffer exchange

One invariant for both sides.  It says who owns a buffer in each phase, and that the spares are
empty, which is why a swap loses nothing. -/

/-- A pointer to an empty buffer. -/
def EmptyPtr (p : BufferPtr) : Prop := p = some .new

/-- What the backend thread holds at each place of its loop.  Between the swap and the recycling
`new_buffer_1` is gone, and `new_buffer_2` is gone only if two buffers are there to replace both. -/
def Backend (s : State) : Prop :=
  match s.pc with
  | .notStarted | .exited => s.bufferToWrite = []
  | .head | .waiting =>
    EmptyPtr s.newBuffer1 ∧ EmptyPtr s.newBuffer2 ∧ s.bufferToWrite = []
  | .swapped | .writing _ =>
    s.newBuffer1 = none ∧ (∀ p ∈ s.bufferToWrite, p.isSome = true) ∧
      (EmptyPtr s.newBuffer2 ∧ 1 ≤ s.bufferToWrite.length ∨
        s.newBuffer2 = none ∧ 2 ≤ s.bufferToWrite.length)

/-- Who owns a buffer at each place of the code.  The current buffer is always there, the filled
ones are no null pointers, and the spare is empty unless an `append` has used it up; what the
backend holds depends on where it is (`Backend`). -/
structure Exchange (s : State) : Prop where
  current : s.currentBuffer.isSome = true
  poll : ∀ p ∈ s.bufferPoll, p.isSome = true
  /-- The spare is empty, or it was used up by an `append` that pushed a full buffer first. -/
  spare : EmptyPtr s.nextBuffer ∨ s.nextBuffer = none ∧ s.bufferPoll ≠ []
  backend : Backend s

theorem exchange_init : Exchange State.init where
  current := rfl
  poll := fun p hp => by simp [State.init] at hp
  spare := .inl rfl
  backend := rfl

/-- The two ways `append` goes: into the current buffer, or, when that has no room, into the
spare or a new one, the full buffer being pushed to the filled ones. -/
theorem append_cases {s s' : State} {log : List Byte} (h : s.append log = some s') :
    ∃ cur, s.currentBuffer = some cur ∧
      ((cur.availability > log.length ∧
          s' = { s with currentBuffer := some (cur.append log),
                        appended := s.appended ++ log }) ∨
        s' = { s with bufferPoll := s.bufferPoll ++ [some cur]
                      currentBuffer := some ((s.nextBuffer.getD .new).append log)
                      nextBuffer := none
                      appended := s.appended ++ log }) := by
  simp only [State.append, Option.bind_eq_bind, Option.bind_eq_some_iff] at h
  obtain ⟨cur, hcur, h⟩ := h
  refine ⟨cur, hcur, ?_⟩
  split at h
  · rename_i ha
    exact .inl ⟨ha, (Option.some.inj h).symm⟩
  · exact .inr (Option.some.inj h).symm

/-- `append` by any thread, at any place of the backend, keeps the exchange.  If it takes the
spare it has pushed a full buffer before, which is what `spare` asks for. -/
theorem exchange_append {s s' : State} {log : List Byte} (h : Exchange s)
    (hst : s.append log = some s') : Exchange s' := by
  obtain ⟨cur, -, ⟨-, rfl⟩ | rfl⟩ := append_cases hst
  · exact ⟨rfl, h.poll, h.spare, h.backend⟩
  · refine ⟨rfl, ?_, .inr ⟨rfl, by simp⟩, h.backend⟩
    intro p hp
    rcases List.mem_append.mp hp with hp | hp
    · exact h.poll p hp
    · rw [List.mem_singleton.mp hp]; rfl

/-- The locked section keeps the exchange: the current buffer goes out with the filled ones, an
empty one takes its place, and the spare is replaced if it was used. -/
theorem exchange_swapBuffers {s : State} (h : Exchange s) (h1 : EmptyPtr s.newBuffer1)
    (h2 : EmptyPtr s.newBuffer2) (hw : s.bufferToWrite = []) : Exchange s.swapBuffers := by
  have hall : ∀ p ∈ s.bufferPoll ++ [s.currentBuffer], p.isSome = true := by
    intro p hp
    rcases List.mem_append.mp hp with hp | hp
    · exact h.poll p hp
    · rw [List.mem_singleton.mp hp]; exact h.current
  have hpoll : ∀ p ∈ s.swapBuffers.bufferPoll, p.isSome = true := by
    simp [State.swapBuffers, hw]
  have hcur : s.swapBuffers.currentBuffer.isSome = true := by
    change s.newBuffer1.isSome = true
    rw [h1]; rfl
  rcases h.spare with hn | ⟨hn, hp⟩
  · -- the spare is still there: `new_buffer_2` stays behind
    refine ⟨hcur, hpoll, .inl ?_, rfl, hall, .inl ⟨?_, ?_⟩⟩
    · simp only [State.swapBuffers, EmptyPtr] at *
      simp [hn]
    · simp only [State.swapBuffers, EmptyPtr] at *
      simp [hn, h2]
    · simp [State.swapBuffers]
  · -- the spare is used up: then a full buffer was pushed, and two go out
    refine ⟨hcur, hpoll, .inl ?_, rfl, hall, .inr ⟨?_, ?_⟩⟩
    · simp only [State.swapBuffers, EmptyPtr] at *
      simp [hn, h2]
    · simp [State.swapBuffers, hn]
    · have : 0 < s.bufferPoll.length := List.length_pos_iff.mpr hp
      simp only [State.swapBuffers, List.length_append, List.length_singleton]
      omega

/-- The test for an overrun keeps at least as many buffers as the recycling needs. -/
theorem backend_take_two {p : BufferPtr} {v : List BufferPtr}
    (h : EmptyPtr p ∧ 1 ≤ v.length ∨ p = none ∧ 2 ≤ v.length) :
    EmptyPtr p ∧ 1 ≤ (v.take 2).length ∨ p = none ∧ 2 ≤ (v.take 2).length := by
  simp only [List.length_take]
  rcases h with ⟨hp, hl⟩ | ⟨hp, hl⟩
  · exact .inl ⟨hp, by omega⟩
  · exact .inr ⟨hp, by omega⟩

@[simp] theorem refill_some (b : Buffer) (v : List BufferPtr) :
    State.refill (some b) v = some (some b, v) := rfl

/-- `refill` on a null pointer and a non-empty vector of real buffers. -/
theorem refill_none {v : List BufferPtr} (hv : ∀ p ∈ v, p.isSome = true) (hl : 1 ≤ v.length) :
    State.refill none v = some (some .new, v.dropLast) := by
  have hne : v ≠ [] := fun he => by simp [he] at hl
  have hlast : v.getLast? = some (v.getLast hne) := List.getLast?_eq_some_getLast hne
  obtain ⟨b, hb⟩ := Option.isSome_iff_exists.mp (hv _ (List.getLast_mem hne))
  simp only [State.refill, hlast, hb]
  rfl

/-- **The recycling always finds its buffers.**  It yields two empty spares and an empty
`buffer_to_write`.  One buffer is there because the current one goes out in every swap; that a
second is there when both spares are gone is `Exchange.spare`, which says that a full buffer went
out with it. -/
theorem recycle_eq {s : State} {i : Nat} (h : Exchange s) (hpc : s.pc = .writing i) :
    s.recycle = some { s with newBuffer1 := some .new, newBuffer2 := some .new,
                              bufferToWrite := [], pc := .head } := by
  obtain ⟨h1, hall, hcase⟩ : s.newBuffer1 = none ∧ (∀ p ∈ s.bufferToWrite, p.isSome = true) ∧
      (EmptyPtr s.newBuffer2 ∧ 1 ≤ s.bufferToWrite.length ∨
        s.newBuffer2 = none ∧ 2 ≤ s.bufferToWrite.length) := by
    have hb := h.backend
    simp only [Backend, hpc] at hb
    exact hb
  -- whether or not `resize(2)` cut it, the vector keeps enough real buffers
  set v := if s.bufferToWrite.length > 2 then s.bufferToWrite.take 2 else s.bufferToWrite with hv
  have hvall : ∀ p ∈ v, p.isSome = true := by
    intro p hp
    rw [hv] at hp
    split at hp
    · exact hall p (List.mem_of_mem_take hp)
    · exact hall p hp
  have hvcase : EmptyPtr s.newBuffer2 ∧ 1 ≤ v.length ∨ s.newBuffer2 = none ∧ 2 ≤ v.length := by
    rw [hv]
    split
    · exact backend_take_two hcase
    · exact hcase
  have hl1 : 1 ≤ v.length := by
    rcases hvcase with ⟨-, hl⟩ | ⟨-, hl⟩ <;> omega
  have hdrop : ∀ p ∈ v.dropLast, p.isSome = true := fun p hp => hvall p (List.dropLast_subset v hp)
  rcases hvcase with ⟨h2, -⟩ | ⟨h2, hl2⟩
  · rw [EmptyPtr] at h2
    simp only [State.recycle, ← hv, h1, refill_none hvall hl1, Option.bind_eq_bind,
      Option.bind_some, h2, refill_some]
    rfl
  · have hl' : 1 ≤ v.dropLast.length := by rw [List.length_dropLast]; omega
    simp only [State.recycle, ← hv, h1, refill_none hvall hl1, Option.bind_eq_bind,
      Option.bind_some, h2, refill_none hdrop hl']
    rfl

/-- The transitions, one constructor for each way a step can change the state. -/
inductive Step (s : State) : Label → State → Prop
  | append (log : List Byte) (s' : State) (h : s.append log = some s') : Step s (.append log) s'
  | start (hpc : s.pc = .notStarted) :
      Step s .start { s with running := true, pc := .head, newBuffer1 := some .new,
                             newBuffer2 := some .new, bufferToWrite := [] }
  | stop : Step s .stop { s with running := false }
  | waits (hpc : s.pc = .head) : Step s .round { s with pc := .waiting }
  | exits (hpc : s.pc = .head) : Step s .round { s with pc := .exited }
  | swaps (hpc : s.pc = .head) : Step s .round s.swapBuffers
  | wakes (hpc : s.pc = .waiting) : Step s .wake s.swapBuffers
  | overrun (buf : List Byte) (hpc : s.pc = .swapped) (hmany : s.bufferToWrite.length > 25) :
      Step s (.checkOverrun buf) { s with file := s.file ++ buf
                                          bufferToWrite := s.bufferToWrite.take 2
                                          pc := .writing 0 }
  | noOverrun (buf : List Byte) (hpc : s.pc = .swapped) :
      Step s (.checkOverrun buf) { s with pc := .writing 0 }
  | write (i : Nat) (b : Buffer) (hpc : s.pc = .writing i)
      (hget : s.bufferToWrite[i]? = some (some b)) :
      Step s .write { s with file := s.file ++ b.written, pc := .writing (i + 1) }
  | recycle (hpc : s.pc = .writing s.bufferToWrite.length) :
      Step s .recycle { s with newBuffer1 := some .new, newBuffer2 := some .new,
                               bufferToWrite := [], pc := .head }

/-- **Inversion of a step.**  It needs the exchange, since without it the recycling could be
stuck and the constructor would have nothing to say. -/
theorem step_inv {s s' : State} {l : Label} (h : Exchange s) (hst : s.step l = some s') :
    Step s l s' := by
  cases l with
  | append log => exact .append log s' hst
  | start =>
    simp only [State.step] at hst
    split at hst
    · rename_i hpc
      cases hst
      exact .start hpc
    · cases hst
  | stop =>
    cases hst
    exact .stop
  | round =>
    simp only [State.step] at hst
    split at hst
    · rename_i hpc
      split at hst
      · split at hst
        · cases hst; exact .waits hpc
        · cases hst; exact .swaps hpc
      · cases hst; exact .exits hpc
    · cases hst
  | wake =>
    simp only [State.step] at hst
    split at hst
    · rename_i hpc
      cases hst
      exact .wakes hpc
    · cases hst
  | checkOverrun buf =>
    simp only [State.step] at hst
    split at hst
    · rename_i hpc
      split at hst
      · rename_i hmany
        cases hst
        exact .overrun buf hpc hmany
      · cases hst
        exact .noOverrun buf hpc
    · cases hst
  | write =>
    simp only [State.step] at hst
    split at hst
    · rename_i i hpc
      split at hst
      · rename_i b hget
        cases hst
        exact .write i b hpc hget
      · cases hst
    · cases hst
  | recycle =>
    simp only [State.step] at hst
    split at hst
    · rename_i hpc
      rw [recycle_eq h hpc, Option.some.injEq] at hst
      subst hst
      exact .recycle hpc
    · cases hst

/-- The spares of a backend at the head of its loop or in `time_wait`, and nothing left over. -/
theorem Exchange.spares {s : State} (h : Exchange s) (hpc : s.pc = .head ∨ s.pc = .waiting) :
    EmptyPtr s.newBuffer1 ∧ EmptyPtr s.newBuffer2 ∧ s.bufferToWrite = [] := by
  have hb := h.backend
  rcases hpc with hpc | hpc
  · simpa only [Backend, hpc] using hb
  · simpa only [Backend, hpc] using hb

theorem step_exchange {s s' : State} {l : Label} (h : Exchange s) (hst : s.step l = some s') :
    Exchange s' := by
  have hb := h.backend
  cases step_inv h hst with
  | append log s' ha => exact exchange_append h ha
  | start hpc => exact ⟨h.current, h.poll, h.spare, rfl, rfl, rfl⟩
  | stop => exact ⟨h.current, h.poll, h.spare, hb⟩
  | waits hpc => exact ⟨h.current, h.poll, h.spare, h.spares (.inl hpc)⟩
  | exits hpc => exact ⟨h.current, h.poll, h.spare, (h.spares (.inl hpc)).2.2⟩
  | swaps hpc =>
    obtain ⟨h1, h2, hw⟩ := h.spares (.inl hpc)
    exact exchange_swapBuffers h h1 h2 hw
  | wakes hpc =>
    obtain ⟨h1, h2, hw⟩ := h.spares (.inr hpc)
    exact exchange_swapBuffers h h1 h2 hw
  | overrun buf hpc hmany =>
    simp only [Backend, hpc] at hb
    obtain ⟨h1, hall, hcase⟩ := hb
    exact ⟨h.current, h.poll, h.spare, h1, fun p hp => hall p (List.mem_of_mem_take hp),
      backend_take_two hcase⟩
  | noOverrun buf hpc =>
    simp only [Backend, hpc] at hb
    exact ⟨h.current, h.poll, h.spare, hb⟩
  | write i b hpc hget =>
    simp only [Backend, hpc] at hb
    exact ⟨h.current, h.poll, h.spare, hb⟩
  | recycle hpc => exact ⟨h.current, h.poll, h.spare, rfl, rfl, rfl⟩

/-! ## 4. Conservation -/

/-- The messages fit a buffer, and no round finds more than 25 buffers.  Past the second limit
the code drops what it has, on purpose, so nothing can be claimed there. -/
def WithinLimits (s : State) : Label → Prop
  | .append log => log.length < maxBufferSize
  | .checkOverrun _ => s.bufferToWrite.length ≤ 25
  | _ => True

instance (s : State) : ∀ l, Decidable (WithinLimits s l)
  | .append log => inferInstanceAs (Decidable (log.length < maxBufferSize))
  | .checkOverrun _ => inferInstanceAs (Decidable (s.bufferToWrite.length ≤ 25))
  | .start | .stop | .round | .wake | .write | .recycle => .isTrue trivial

/-- Written out, then taken away, then filled, then being filled: all that was appended, in this
order. -/
def Conserved (s : State) : Prop :=
  s.file ++ pollBytes s.unwritten ++ pollBytes s.bufferPoll ++ ptrBytes s.currentBuffer =
    s.appended

@[simp] theorem pollBytes_nil : pollBytes [] = [] := rfl

@[simp] theorem pollBytes_append (v w : List BufferPtr) :
    pollBytes (v ++ w) = pollBytes v ++ pollBytes w := by simp [pollBytes]

@[simp] theorem pollBytes_cons_some (b : Buffer) (v : List BufferPtr) :
    pollBytes (some b :: v) = b.written ++ pollBytes v := rfl

@[simp] theorem pollBytes_singleton (p : BufferPtr) : pollBytes [p] = ptrBytes p := by
  simp [pollBytes]

/-- `append` puts the message behind everything else, in whichever buffer it lands.  A spare that
takes the place of the current buffer is empty, so nothing gets between. -/
theorem conserved_append {s s' : State} {log : List Byte} (hx : Exchange s) (h : Conserved s)
    (hlen : log.length < maxBufferSize) (hst : s.append log = some s') : Conserved s' := by
  obtain ⟨cur, hcur, hcase⟩ := append_cases hst
  rw [Conserved, hcur] at h
  rcases hcase with ⟨ha, rfl⟩ | rfl
  · simp only [Conserved, ← h, ptrBytes, StreamBuffer.append_written ha, List.append_assoc]
    rfl
  · -- the spare is empty, so the fresh current buffer holds exactly the message
    have hfresh : ((s.nextBuffer.getD .new).append log).written = log := by
      rcases hx.spare with hn | ⟨hn, -⟩
      · rw [hn]; exact StreamBuffer.append_new_written hlen
      · rw [hn]; exact StreamBuffer.append_new_written hlen
    simp only [Conserved, ← h, ptrBytes, hfresh, pollBytes_append, pollBytes_singleton,
      List.append_assoc]
    rfl

/-- The swap only renames: the current buffer joins the filled ones, and its replacement is
empty. -/
theorem conserved_swapBuffers {s : State} (h : Conserved s) (h1 : EmptyPtr s.newBuffer1)
    (hw : s.bufferToWrite = []) (hun : s.unwritten = []) : Conserved s.swapBuffers := by
  have hc : ptrBytes s.newBuffer1 = [] := by rw [h1]; rfl
  simp only [Conserved, hun, pollBytes_nil, List.append_nil] at h
  simp only [Conserved, State.swapBuffers, State.unwritten, hw, hc, pollBytes_append,
    pollBytes_singleton, pollBytes_nil, List.append_nil, ← h, List.append_assoc]

theorem unwritten_of_head {s : State} (hpc : s.pc = .head ∨ s.pc = .waiting) :
    s.unwritten = [] := by
  rcases hpc with hpc | hpc
  · simp only [State.unwritten, hpc]
  · simp only [State.unwritten, hpc]

/-- The buffer that is written next is the first of those left. -/
theorem pollBytes_drop {v : List BufferPtr} {i : Nat} {b : Buffer} (hget : v[i]? = some (some b)) :
    pollBytes (v.drop i) = b.written ++ pollBytes (v.drop (i + 1)) := by
  obtain ⟨hi, hb⟩ := List.getElem?_eq_some_iff.mp hget
  rw [List.drop_eq_getElem_cons hi, hb, pollBytes_cons_some]

theorem step_conserved {s s' : State} {l : Label} (hx : Exchange s) (h : Conserved s)
    (hg : WithinLimits s l) (hst : s.step l = some s') : Conserved s' := by
  cases step_inv hx hst with
  | append log s' ha => exact conserved_append hx h hg ha
  | start hpc => simpa [Conserved, State.unwritten, hpc] using h
  | stop => exact h
  | waits hpc => simpa [Conserved, State.unwritten, hpc] using h
  | exits hpc => simpa [Conserved, State.unwritten, hpc] using h
  | swaps hpc =>
    obtain ⟨h1, -, hw⟩ := hx.spares (.inl hpc)
    exact conserved_swapBuffers h h1 hw (unwritten_of_head (.inl hpc))
  | wakes hpc =>
    obtain ⟨h1, -, hw⟩ := hx.spares (.inr hpc)
    exact conserved_swapBuffers h h1 hw (unwritten_of_head (.inr hpc))
  | overrun buf hpc hmany => exact absurd hmany (Nat.not_lt.mpr hg)
  | noOverrun buf hpc => simpa [Conserved, State.unwritten, hpc] using h
  | write i b hpc hget =>
    simp only [Conserved, State.unwritten, hpc, pollBytes_drop hget] at h
    simp only [Conserved, State.unwritten, ← h, List.append_assoc]
  | recycle hpc => simpa [Conserved, State.unwritten, hpc] using h

/-- **The logger conserves and orders the data.**  Along every interleaving of `append`s of messages
shorter than a buffer with the steps of the backend thread, as long as no round finds more than 25
buffers: the bytes written out, then the unwritten part of `buffer_to_write`, then `_buffer_poll`,
then `_current_buffer`, are the appended messages in append order; `_current_buffer` is never null
between two steps; both spares are there and empty at every loop head; and the recycling never meets
an empty vector.

The invariant is `Exchange` and `Conserved` together.  The exchange is needed for the order,
because a swap moves buffers without looking at what is in them: it loses nothing since what it
puts in their place is empty. -/
theorem log_conserved (s : State) (h : Reach State.step WithinLimits State.init s) :
    s.file ++ pollBytes s.unwritten ++ pollBytes s.bufferPoll ++ ptrBytes s.currentBuffer =
      s.appended ∧
    s.currentBuffer ≠ none ∧
    (s.pc = .head → s.newBuffer1 = some .new ∧ s.newBuffer2 = some .new) ∧
    (s.pc = .writing s.bufferToWrite.length → (s.step .recycle).isSome = true) := by
  obtain ⟨hx, hc⟩ : Exchange s ∧ Conserved s := by
    refine h.invariant (I := fun s => Exchange s ∧ Conserved s) ⟨exchange_init, rfl⟩ ?_
    rintro s l s' ⟨hx, hc⟩ hg hst
    exact ⟨step_exchange hx hst, step_conserved hx hc hg hst⟩
  refine ⟨hc, ?_, ?_, ?_⟩
  · exact Option.isSome_iff_ne_none.mp hx.current
  · intro hpc
    have hb := hx.backend
    simp only [Backend, hpc] at hb
    exact ⟨hb.1, hb.2.1⟩
  · intro hpc
    simp only [State.step, if_pos hpc, recycle_eq hx hpc]
    rfl

/-- One message goes through a whole round while another is appended during the write-out. -/
def oneRound : List Label :=
  [.append [1, 2], .start, .round, .wake, .append [3], .checkOverrun [], .write, .recycle]

theorem log_conserved_oneRound :
    ∃ s, exec State.step State.init oneRound = some s ∧ s.file = [1, 2] ∧
      s.file ++ pollBytes s.unwritten ++ pollBytes s.bufferPoll ++ ptrBytes s.currentBuffer =
        s.appended := by
  refine ⟨_, rfl, rfl, ?_⟩
  exact (log_conserved _ (Reach.of_exec oneRound State.init (by decide) rfl)).1

end Suduo.AsyncLogger
