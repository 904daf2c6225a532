/-
# When `parseRequest` returns

The loop of `parseRequest` has a branch for each state but the last.  A call that takes the last
line of a request leaves the context in `kGotAll`, and a call on such a context finds no branch that
would clear `hasMore`: it never returns, whatever is in the buffer.  `HttpServer` calls `reset` in
between; the class does not ask for it.

From every other state that calls can lead to, it ends: a round takes a line or leaves
(`parseRequest_spec`).  The one way to end without an answer is the assertion of `setMethod`, where
a rejected request line is looked at again.
-/
import Suduo.Bench.HttpGrammar

namespace Suduo.Http

open Lib
open Buffer (Line searchCRLF)

namespace HttpContext

variable {t : Int} {c c' : HttpContext} {b b' : Buffer} {line : List Byte} {r : HttpRequest}

/-! ## 1. Contexts that calls lead to -/

/-- Calls of `parseRequest`, on any buffers, and of `reset`. -/
inductive Reached : HttpContext → Prop
  | new : Reached {}
  | parse {c c' : HttpContext} {t : Int} {b b' : Buffer} {ok : Bool} (h : Reached c) (hb : b.Wf)
      (hcall : parseRequest t c b = some (.ok (ok, c', b'))) : Reached c'
  | reset {c : HttpContext} (h : Reached c) : Reached c.reset

/-- A round never comes to the state without a branch that does anything.  `kExpectBody` is
declared, and never set. -/
theorem parseRound_noBody (hc : c.state ≠ .kExpectBody)
    {out : (HttpContext × Buffer) ⊕ (Bool × HttpContext × Buffer)} (h : parseRound t (c, b) = .ok out) :
    Sum.elim (fun s => s.1.state) (fun s => s.2.1.state) out ≠ .kExpectBody := by
  unfold parseRound at h
  dsimp only at h
  split at h
  · split at h
    · obtain ⟨line, -, h⟩ := Buffer.bind_eq_ok.mp h
      obtain ⟨⟨ok, request⟩, -, h⟩ := Buffer.bind_eq_ok.mp h
      cases ok with
      | true =>
        cases h
        exact fun h => nomatch h
      | false =>
        cases h
        exact hc
    · cases h
      exact hc
  · split at h
    · obtain ⟨line, -, h⟩ := Buffer.bind_eq_ok.mp h
      split at h
      · cases h
        exact hc
      · cases h
        exact fun h => nomatch h
    · cases h
      exact hc
  · rename_i hbody
    exact absurd hbody hc
  · cases h
    exact hc

theorem Reached.noBody (h : Reached c) : c.state ≠ .kExpectBody := by
  induction h with
  | new => exact fun h => nomatch h
  | @parse c c' t b b' ok h hb hcall ih =>
    exact loop_keeps (I := fun s => s.1.state ≠ .kExpectBody) (Q := fun out => out.2.1.state ≠ .kExpectBody)
      (fun _ _ hs hround => parseRound_noBody hs hround)
      (fun _ _ hs hround => parseRound_noBody hs hround) _ ih hcall
  | reset h ih => exact fun h => nomatch h

/-! ## 2. How a call ends -/

/-- The call ends: with an answer, or at an assertion. -/
def Ends (t : Int) (c : HttpContext) (b : Buffer) : Prop :=
  ∃ fuel out, loop (parseRound t) fuel (c, b) = some out

/-- It ends with an answer. -/
def Answers (t : Int) (c : HttpContext) (b : Buffer) : Prop :=
  ∃ fuel out, loop (parseRound t) fuel (c, b) = some (.ok out)

/-- The first line goes to `setMethod`, and there is a method already.  This is read off the
context and the bytes, before the call. -/
def Asserts (c : HttpContext) (b : Buffer) : Prop :=
  c.state = .kExpectRequestLine ∧ c.request.method ≠ .kInvalid ∧
    ∃ line rest, Line b.contents line rest ∧ space ∈ line

theorem Answers.ends (h : Answers t c b) : Ends t c b := by
  obtain ⟨fuel, out, h⟩ := h
  exact ⟨fuel, .ok out, h⟩

theorem answers_of_leave {out : Bool × HttpContext × Buffer} (h : parseRound t (c, b) = .ok (.inr out)) :
    Answers t c b := ⟨1, out, loop_leave h 0⟩

/-- **A completed request is not left again.**  No branch is taken and nothing changes, so the
loop goes on for good. -/
theorem not_ends_gotAll (h : c.state = .kGotAll) (t : Int) (b : Buffer) : ¬ Ends t c b := by
  rintro ⟨fuel, out, hend⟩
  have hround : parseRound t (c, b) = .ok (.inl (c, b)) := by
    unfold parseRound
    simp only [h]
    rfl
  rw [loop_stuck hround] at hend
  cases hend

theorem answers_ready (h : Ready c) (hb : b.Wf) (t : Int) : Answers t c b := by
  obtain ⟨ok, c', b', hparse, -⟩ := parseRequest_spec (t := t) Buffer.readable_wf hb h
  exact ⟨_, _, hparse⟩

theorem processRequestLine_noSpace (h : space ∉ line) : processRequestLine r line = .ok (false, r) := by
  unfold processRequestLine
  dsimp only
  rw [List.idxOf_eq_length h, if_neg (not_not_intro rfl)]
  rfl

theorem processRequestLine_asserts (hr : r.method ≠ .kInvalid) (h : space ∈ line) :
    processRequestLine r line = .error .assertion := by
  unfold processRequestLine HttpRequest.setMethod
  dsimp only
  rw [if_pos (mt List.idxOf_eq_length_iff.mp (not_not_intro h)), if_neg hr]
  rfl

/-- **A request line with a method already there**: the assertion fails if a line has come, and a
space in it.  Without either, `setMethod` is not called. -/
theorem answers_again (hb : b.Wf) (hstate : c.state = .kExpectRequestLine) (hr : c.request.method ≠ .kInvalid)
    (t : Int) : Answers t c b ∧ ¬ Asserts c b ∨
      Asserts c b ∧ ∀ fuel, loop (parseRound t) (fuel + 1) (c, b) = some (.error .assertion) := by
  cases hcrlf : searchCRLF b.contents with
  | none =>
    refine .inl ⟨answers_of_leave (parseRound_waits (.inl hstate) hcrlf), ?_⟩
    rintro ⟨-, -, line, rest, hline, -⟩
    rw [hline.first] at hcrlf
    cases hcrlf
  | some k =>
    have hline := Buffer.searchCRLF_eq hcrlf
    by_cases hspace : space ∈ b.contents.take k
    · refine .inr ⟨⟨hstate, hr, _, _, hline, hspace⟩, loop_error ?_⟩
      unfold parseRound
      simp only [hstate, Buffer.findCRLF, hcrlf]
      rw [peekLine_eq hb hcrlf, Buffer.ok_bind, processRequestLine_asserts hr hspace]
      rfl
    · refine .inl ⟨answers_of_leave (parseRound_requestLine hb hcrlf hstate (processRequestLine_noSpace hspace)), ?_⟩
      rintro ⟨-, -, line, rest, hline', hspace'⟩
      obtain ⟨rfl, -⟩ := hline'.unique hline
      exact hspace hspace'

/-- **When a call returns.**  On a context that calls of `parseRequest` and `reset` lead to, and
any buffer: a call ends exactly if the context has not completed a request, in whatever number of
rounds; and it ends with an answer exactly if, besides, the assertion of `setMethod` does not
fail.  The contexts are those of all histories, also of calls on a context that has refused a
line. -/
theorem parseRequest_ends_iff (h : Reached c) (hb : b.Wf) (t : Int) :
    (Ends t c b ↔ c.state ≠ .kGotAll) ∧ (Answers t c b ↔ c.state ≠ .kGotAll ∧ ¬ Asserts c b) := by
  have hanswers (ha : Answers t c b) (hgot : c.state ≠ .kGotAll) (hno : ¬ Asserts c b) :
      (Ends t c b ↔ c.state ≠ .kGotAll) ∧ (Answers t c b ↔ c.state ≠ .kGotAll ∧ ¬ Asserts c b) :=
    ⟨⟨fun _ => hgot, fun _ => ha.ends⟩, ⟨fun _ => ⟨hgot, hno⟩, fun _ => ha⟩⟩
  cases hstate : c.state with
  | kExpectRequestLine =>
    rw [← hstate]
    have hgot : c.state ≠ .kGotAll := by rw [hstate]; exact fun h => nomatch h
    by_cases hr : c.request.method = .kInvalid
    · exact hanswers (answers_ready (.inl ⟨hstate, hr⟩) hb t) hgot fun ha => ha.2.1 hr
    · rcases answers_again hb hstate hr t with ⟨ha, hno⟩ | ⟨hassert, hfails⟩
      · exact hanswers ha hgot hno
      · refine ⟨⟨fun _ => hgot, fun _ => ⟨1, _, hfails 0⟩⟩, ?_, fun hh => absurd hassert hh.2⟩
        rintro ⟨fuel, out, hend⟩
        cases fuel with
        | zero => cases hend
        | succ fuel =>
          rw [hfails fuel] at hend
          cases hend
  | kExpectHeaders =>
    rw [← hstate]
    refine hanswers (answers_ready (.inr hstate) hb t) ?_ ?_
    · rw [hstate]
      exact fun h => nomatch h
    · rintro ⟨hline, -⟩
      rw [hstate] at hline
      cases hline
  | kExpectBody => exact absurd hstate h.noBody
  | kGotAll =>
    refine ⟨⟨fun hend => absurd hend (not_ends_gotAll hstate t b), fun hno => absurd rfl hno⟩, ?_, ?_⟩
    · exact fun ha => absurd ha.ends (not_ends_gotAll hstate t b)
    · exact fun hh => absurd rfl hh.1

/-- A context that a call has just completed, from the text of a request. -/
theorem reached_gotAll : ∃ c, Reached c ∧ c.state = .kGotAll := by
  have hfits : Buffer.new.writeIndex + (getLine ++ [13, 10]).length < 2 ^ 63 := by decide
  obtain ⟨b, -, hwf, hcontents⟩ := Buffer.append_spec (Buffer.new_wf Buffer.initSize) hfits
  rw [Buffer.new_contents, List.nil_append] at hcontents
  have hline : Line (getLine ++ [13, 10]) (getLine.take 14) [13, 10] := ⟨by decide, by decide⟩
  have hlast : Headers [13, 10] [] [] := .last ⟨by decide, by decide⟩ (by decide)
  have hhead : Head b.contents [] [] := hcontents ▸ ⟨_, _, hline, requestLine_get, hlast⟩
  obtain ⟨ok, c, b', hparse, -, hall, -⟩ := parseRequest_spec (t := 0) Buffer.readable_wf hwf ready_new
  obtain ⟨c', hconsume, hgot⟩ := consume_head (t := 0) hhead
  rw [hall] at hconsume
  obtain ⟨⟨rfl, rfl⟩, -⟩ : (ok = true ∧ c = c') ∧ b'.contents = [] := by
    simpa only [Prod.mk.injEq] using hconsume
  exact ⟨c, .parse .new hwf hparse, of_decide_eq_true hgot⟩

theorem parseRequest_ends_iff_new : ({} : HttpContext).state ≠ .kGotAll ∧ Answers 0 {} Buffer.new ∧
    ∃ c, Reached c ∧ ¬ Ends 0 c Buffer.new := by
  have hnew := parseRequest_ends_iff .new (Buffer.new_wf Buffer.initSize) 0
  have hready : ({} : HttpContext).state ≠ .kGotAll := fun h => nomatch h
  obtain ⟨c, hc, hgot⟩ := reached_gotAll
  refine ⟨hready, hnew.2.mpr ⟨hready, fun ha => ha.2.1 rfl⟩, c, hc, fun hend => ?_⟩
  exact (parseRequest_ends_iff hc (Buffer.new_wf Buffer.initSize) 0).1.mp hend hgot

/-- `GET / HTTP/1.1`, an empty line, and another call: it does not end. -/
theorem second_call_hangs : ¬ ∀ c, Reached c → ∀ b : Buffer, b.Wf → ∀ t, Ends t c b := by
  intro hall
  obtain ⟨c, hc, hgot⟩ := reached_gotAll
  exact not_ends_gotAll hgot 0 _ (hall c hc Buffer.new (Buffer.new_wf Buffer.initSize) 0)

end HttpContext

end Suduo.Http
