/-
# The two streams of a connection, move by move

What `readv` reads is appended to the input buffer, and only `retrieve` takes bytes out of it again;
what `write` has accepted is only added to.  So of the moves of a connection (`TcpMoves.lean`) one
reads and one retrieves (`move_input`), and `send_in_loop` and `handle_write` write
(`move_written`).
-/
import Suduo.Net.TcpMoves

namespace Suduo

open Lib

namespace Buffer

variable {b b' : Buffer} {data : List Byte} {n : Int} {errno : Option Nat}

/-- A `read_fd` that does not throw has appended what it read, whether it fitted into the buffer
or went through the second `iovec`. -/
theorem readFd_contents (h : b.Wf) (hfits : b.fitsIov (.ok data) = true)
    (hread : b.readFd (.ok data) = .ok (n, errno, b')) :
    b'.Wf ∧ b'.contents = b.contents ++ data := by
  have hbound := h.bound
  have hsmall := h.small
  have hwr := h.writeable
  have hlen : data.length ≤ b.iovLength := of_decide_eq_true hfits
  by_cases hle : data.length ≤ b.writeadbleBytes
  · have hsize : b.writeIndex + data.length < 2 ^ 63 := by omega
    obtain ⟨b₁, h₁, hwf₁, hc₁⟩ := readFd_spec h hsize
    rw [h₁] at hread
    cases hread
    exact ⟨hwf₁, hc₁⟩
  · have htake : (data.take b.writeadbleBytes).length = b.writeadbleBytes := by
      rw [List.length_take]
      omega
    obtain ⟨b₁, h₁, hwf₁, hc₁, hlen₁, hw₁⟩ := writeAtBegin_spec h (Nat.le_of_eq htake)
    rw [readFd_spill hle, h₁, ok_bind] at hread
    have hfull : b₁.hasWritten (data.take b.writeadbleBytes).length =
        { b₁ with writeIndex := b₁.buffer.length } := by
      have hadd : addSize b₁.writeIndex (data.take b.writeadbleBytes).length = b₁.buffer.length := by
        rw [hw₁, htake, hlen₁, addSize_eq (by omega)]
        omega
      rw [hasWritten, hadd]
    rw [hfull] at hwf₁ hc₁
    have hrest : (data.drop b.writeadbleBytes).length < 2 ^ 63 := by
      have hextra : extrabufSize = 65536 := rfl
      rw [iovLength] at hlen
      rw [List.length_drop]
      split at hlen <;> omega
    rcases append_total hwf₁ hrest with ⟨-, herr⟩ | ⟨b₂, h₂, hwf₂, hc₂⟩
    · rw [herr] at hread
      cases hread
    · rw [h₂] at hread
      cases hread
      refine ⟨hwf₂, ?_⟩
      rw [hc₂, hc₁, List.append_assoc, List.take_append_drop]

end Buffer

namespace TcpConnection

/-! ## 1. What a move reads and retrieves -/

/-- What `readv` returns in a move; a move that does not read, or whose `readv` fails, returns
nothing. -/
def Move.readv : Move → Option (List Byte)
  | .readInput (.ok data) => some data
  | _ => none

/-- How many bytes a move retrieves from the input buffer.  Only user code does that. -/
def Move.retrieves : Move → Nat
  | .act (.retrieveInput len) => len
  | _ => 0

/-! ## 2. What the others leave alone -/

/-- The input is as it was, and what has been written is still there.  All moves but two are of
this kind, and it composes, so each helper of the connection is looked at once. -/
structure Onwards (c c' : State) : Prop where
  input : c'.inputBuffer = c.inputBuffer
  written : c.written <+: c'.written

variable {c c' d : State}

theorem Onwards.refl (c : State) : Onwards c c := ⟨rfl, List.prefix_rfl⟩

theorem Onwards.of_eq (hi : c'.inputBuffer = c.inputBuffer) (hw : c'.written = c.written) : Onwards c c' :=
  ⟨hi, hw ▸ List.prefix_rfl⟩

theorem Onwards.trans (h : Onwards c c') (h' : Onwards c' d) : Onwards c d :=
  ⟨h'.input.trans h.input, h.written.trans h'.written⟩

theorem onwards_writeComplete (c : State) : Onwards c c.writeComplete := by
  unfold State.writeComplete
  split
  · exact .of_eq rfl rfl
  · exact .refl c

theorem onwards_crossHighWaterMark (c : State) (remaining : Nat) : Onwards c (c.crossHighWaterMark remaining) := by
  unfold State.crossHighWaterMark
  dsimp only
  split
  · exact .of_eq rfl rfl
  · exact .refl c

theorem onwards_bufferRest {message : List Byte} {n : Nat} (h : c.bufferRest message n = some c') : Onwards c c' := by
  simp only [State.bufferRest] at h
  split at h
  · split at h
    · cases h
      have hcross := onwards_crossHighWaterMark c (message.length - n)
      exact ⟨hcross.input, hcross.written⟩
    · cases h
  · cases h
    exact .refl c

theorem onwards_writeDirectly {message : List Byte} {write : WriteResult}
    (h : c.writeDirectly message write = some c') : Onwards c c' := by
  cases write with
  | wrote n =>
    simp only [State.writeDirectly] at h
    split at h
    · have hwrote : Onwards c { c with written := c.written ++ message.take n } := ⟨rfl, List.prefix_append _ _⟩
      have hrest := onwards_bufferRest h
      split at hrest
      · exact (hwrote.trans (onwards_writeComplete _)).trans hrest
      · exact hwrote.trans hrest
    · cases h
  | failed errno =>
    simp only [State.writeDirectly] at h
    split at h
    · cases h
      exact .of_eq rfl rfl
    · exact onwards_bufferRest h

theorem onwards_sendInLoop {t : Tid} {message : List Byte} {write : WriteResult}
    (h : c.sendInLoop t message write = some c') : Onwards c c' := by
  have hnoted : Onwards c { c with processed := c.processed ++ [(t, message)] } := .of_eq rfl rfl
  simp only [State.sendInLoop] at h
  split at h
  · split at h
    · cases h
      exact hnoted
    · split at h
      · exact hnoted.trans (onwards_writeDirectly h)
      · exact hnoted.trans (onwards_bufferRest h)
  · cases h

theorem onwards_shutdownInLoop (c : State) : Onwards c c.shutdownInLoop := by
  unfold State.shutdownInLoop
  split
  · exact .refl c
  · exact .of_eq rfl rfl

theorem onwards_wroteOutput (c : State) (n : Nat) (b : Buffer) : Onwards c (c.wroteOutput n b) := by
  have hwrote (ch : Channel) : Onwards c { c with written := c.written ++ c.outputBuffer.contents.take n,
                                                  outputBuffer := b, channel := ch } :=
    ⟨rfl, List.prefix_append _ _⟩
  simp only [State.wroteOutput]
  split
  · have hdone := (hwrote c.channel.disableWriting).trans (onwards_writeComplete _)
    split
    · exact hdone.trans (onwards_shutdownInLoop _)
    · exact hdone
  · exact hwrote c.channel

theorem onwards_handleWrite {write : WriteResult} (h : c.handleWrite write = some c') : Onwards c c' := by
  simp only [State.handleWrite] at h
  split at h
  · split at h
    · split at h
      · cases h
        split
        · exact onwards_wroteOutput c _ _
        · exact .refl c
      · cases h
    · cases h
      exact .of_eq rfl rfl
  · cases h
    exact .refl c

theorem onwards_forceClose (c : State) : Onwards c c.forceClose := by
  unfold State.forceClose
  split
  · exact .of_eq rfl rfl
  · exact .refl c

theorem onwards_threadStep {t : Tid} {step : State.ThreadStep} (h : c.threadStep t step = some c') : Onwards c c' := by
  cases (threadStep_inv h).2 with
  | refused => exact .refl c
  | _ => exact .of_eq rfl rfl

/-- Every call but `retrieve` leaves the input buffer as it is. -/
theorem onwards_act {a : State.Act} (ha : ∀ len, a ≠ .retrieveInput len) (h : c.act a = some c') :
    Onwards c c' := by
  cases a with
  | send message write =>
    simp only [State.act] at h
    split at h
    · have hsent := onwards_sendInLoop h
      exact ⟨hsent.input, hsent.written⟩
    · cases h
      exact .refl c
  | shutdown =>
    cases h
    split
    · have hdown := onwards_shutdownInLoop (c.setState .disconnecting)
      exact ⟨hdown.input, hdown.written⟩
    · exact .refl c
  | forceClose =>
    cases h
    exact onwards_forceClose c
  | forceCloseWithDelay =>
    cases h
    split
    · exact .of_eq rfl rfl
    · exact .refl c
  | startRead =>
    cases h
    rw [State.startReadInLoop]
    split
    · exact .of_eq rfl rfl
    · exact .refl c
  | stopRead =>
    cases h
    rw [State.stopReadInLoop]
    split
    · exact .of_eq rfl rfl
    · exact .refl c
  | retrieveInput len => exact absurd rfl (ha len)
  | thread t step => exact onwards_threadStep h

/-! ## 3. A move -/

/-- Every move that neither reads nor retrieves leaves the input alone. -/
theorem move_onwards {m : Move} (hread : ∀ readv, m ≠ .readInput readv)
    (hact : ∀ len, m ≠ .act (.retrieveInput len)) (h : c.move m = some c') : Onwards c c' := by
  cases m with
  | act a => exact onwards_act (fun len ha => hact len (by rw [ha])) h
  | sendFunctor write =>
    simp only [State.move] at h
    split at h
    · have hsent := onwards_sendInLoop h
      exact ⟨hsent.input, hsent.written⟩
    · cases h
  | shutdownFunctor =>
    simp only [State.move] at h
    split at h
    · rename_i rest hp
      cases h
      have hdown := onwards_shutdownInLoop { c with pendingFunctors := rest }
      exact ⟨hdown.input, hdown.written⟩
    · cases h
  | pop =>
    simp only [State.move] at h
    split at h
    all_goals cases h
    exact .of_eq rfl rfl
  | readInput readv => exact absurd rfl (hread readv)
  | handleWrite write => exact onwards_handleWrite h
  | closed =>
    cases h
    rw [State.closed]
    dsimp only
    split <;> exact .of_eq rfl rfl
  | established | closing | destroying | removed | serverQueuesDestroy =>
    cases h
    exact .of_eq rfl rfl
  | delayFires =>
    cases step_inv (l := .delayFires) h with
    | @delayFires n hn =>
      have hforced := onwards_forceClose { c with delayed := n }
      exact ⟨hforced.input, hforced.written⟩
  | removeConnectionInLoop =>
    cases step_inv (l := .removeConnectionInLoop) h with
    | removeConnectionInLoop hn => exact .of_eq rfl rfl

theorem readInput_inv {readv : Except Nat (List Byte)} (h : c.readInput readv = some c') :
    ∃ n errno b, c.inputBuffer.fitsIov readv = true ∧ c.inputBuffer.readFd readv = .ok (n, errno, b) ∧
      c' = { c with inputBuffer := b } := by
  simp only [State.readInput] at h
  split at h
  · rename_i hfits
    split at h
    · rename_i n errno b hread
      cases h
      exact ⟨n, errno, b, hfits, hread, rfl⟩
    · cases h
  · cases h

/-- **What has been written is only added to.**  `write` is the only thing that changes it, and
that appends. -/
theorem move_written {m : Move} (h : c.move m = some c') : c.written <+: c'.written := by
  by_cases hread : ∃ readv, m = .readInput readv
  · obtain ⟨readv, rfl⟩ := hread
    obtain ⟨n, errno, b, -, -, rfl⟩ := readInput_inv h
    exact List.prefix_rfl
  · by_cases hact : ∃ len, m = .act (.retrieveInput len)
    · obtain ⟨len, rfl⟩ := hact
      cases h
      exact List.prefix_rfl
    · exact (move_onwards (fun readv hm => hread ⟨readv, hm⟩) (fun len hm => hact ⟨len, hm⟩) h).written

/-- **What a move does to the input**: what `readv` returns joins it at the end, what is
retrieved leaves it at the front.  For most moves both are nothing, and then it is
`move_onwards`. -/
theorem move_input {m : Move} (hwf : c.inputBuffer.Wf) (h : c.move m = some c') :
    c'.inputBuffer.Wf ∧
      c'.inputBuffer.contents = (c.inputBuffer.contents ++ m.readv.getD []).drop m.retrieves := by
  by_cases hread : ∃ readv, m = .readInput readv
  · obtain ⟨readv, rfl⟩ := hread
    obtain ⟨n, errno, b, hfits, hb, rfl⟩ := readInput_inv h
    cases readv with
    | error e =>
      cases hb
      exact ⟨hwf, (List.append_nil _).symm⟩
    | ok data => exact Buffer.readFd_contents hwf hfits hb
  · by_cases hact : ∃ len, m = .act (.retrieveInput len)
    · obtain ⟨len, rfl⟩ := hact
      cases h
      obtain ⟨hwf', hc⟩ := Buffer.retrieve_spec hwf len
      refine ⟨hwf', hc.trans ?_⟩
      change _ = (c.inputBuffer.contents ++ []).drop len
      rw [List.append_nil]
    · have hsame := (move_onwards (fun readv hm => hread ⟨readv, hm⟩) (fun len hm => hact ⟨len, hm⟩) h).input
      have hnone : m.readv = none := by
        unfold Move.readv
        split
        · rename_i data
          exact absurd ⟨_, rfl⟩ hread
        · rfl
      have hzero : m.retrieves = 0 := by
        unfold Move.retrieves
        split
        · rename_i len
          exact absurd ⟨_, rfl⟩ hact
        · rfl
      rw [hsame, hnone, hzero]
      exact ⟨hwf, (List.append_nil _).symm⟩

end TcpConnection

end Suduo
