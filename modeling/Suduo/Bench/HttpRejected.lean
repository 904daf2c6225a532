/-
# After a request was refused

A request line that is refused stays in the input buffer, and `onMessage` goes on feeding the same
context.  So the next segment has the line refused once more: another 400, which `send` drops
because the connection was shut down with the first.  That is how "no further response" comes about.

It works only if the line did not begin with a method.  Otherwise `request_` has that method now,
and the second look at the line is a second `setMethod`, which asserts that there is none.  What
decides is the stream and where it is cut: such a line must not be in sight before the last segment
(`NeverResumed`).
-/
import Suduo.Bench.HttpServer
import Suduo.Bench.HttpTermination
import Suduo.Net.TcpFrame

namespace Suduo.Http

open Lib
open Buffer (Line)
open HttpContext (parser timeless space)

/-! ## 1. What is sent -/

/-- Whether `_state == Connected` still holds, and what `send` took. -/
structure Wire where
  connected : Bool := true
  sent : List Action := []

def Wire.step (w : Wire) : Action → Wire
  | .request _ => w
  | .response => if w.connected then { w with sent := w.sent ++ [.response] } else w
  | .badRequest => if w.connected then { w with sent := w.sent ++ [.badRequest] } else w
  | .shutdown => { w with connected := false }

/-- The connection after these actions. -/
def wire (actions : List Action) : Wire := actions.foldl Wire.step {}

/-- The calls on the connection that an action is. -/
def Action.calls (response badRequest : List Byte) (write : TcpConnection.WriteResult) :
    Action → List TcpConnection.State.Act
  | .request _ => []
  | .response => [.send response write]
  | .badRequest => [.send badRequest write]
  | .shutdown => [.shutdown]

/-- The wire is what the connection's `_state` says: `shutdown` ends it, and then a `send` does
nothing.  So what is said here of a wire is said of the connection of `Suduo.Net.TcpConnection`. -/
theorem wire_step {w : Wire} {c c' : TcpConnection.State} {response badRequest : List Byte}
    {write : TcpConnection.WriteResult} {a : Action} (h : w.connected = decide (c.state = .connected))
    (hst : c.callback (a.calls response badRequest write) = some c') :
    (w.step a).connected = decide (c'.state = .connected) ∧ (w.connected = false → c' = c) := by
  have hsend (message : List Byte) (hact : c.act (.send message write) = some c') :
      w.connected = decide (c'.state = .connected) ∧ (w.connected = false → c' = c) := by
    simp only [TcpConnection.State.act] at hact
    split at hact
    · rename_i hup
      have hstate := (TcpConnection.frame_sendInLoop hact).state
      refine ⟨h.trans ?_, fun hdown => ?_⟩
      · rw [hstate]
      · rw [h, decide_eq_false_iff_not] at hdown
        exact absurd hup hdown
    · cases hact
      exact ⟨h, fun _ => rfl⟩
  have hone (act : TcpConnection.State.Act) (hrun : c.callback [act] = some c') : c.act act = some c' := by
    rw [TcpConnection.State.callback, List.foldlM_cons] at hrun
    obtain ⟨d, hd, hnil⟩ := Option.bind_eq_some_iff.mp hrun
    cases hnil
    exact hd
  cases a with
  | request r =>
    cases hst
    exact ⟨h, fun _ => rfl⟩
  | response =>
    obtain ⟨hkeep, hidle⟩ := hsend response (hone _ hst)
    refine ⟨?_, hidle⟩
    rw [Wire.step]
    split
    · exact hkeep
    · exact hkeep
  | badRequest =>
    obtain ⟨hkeep, hidle⟩ := hsend badRequest (hone _ hst)
    refine ⟨?_, hidle⟩
    rw [Wire.step]
    split
    · exact hkeep
    · exact hkeep
  | shutdown =>
    have hact := hone _ hst
    simp only [TcpConnection.State.act, Option.some.injEq] at hact
    split at hact
    · rename_i hup
      have hstate := (TcpConnection.frame_shutdownInLoop (c.setState .disconnecting)).state
      rw [hact] at hstate
      refine ⟨?_, fun hdown => ?_⟩
      · rw [← hstate]
        rfl
      · rw [h, decide_eq_false_iff_not] at hdown
        exact absurd hup hdown
    · rename_i hdown
      subst hact
      refine ⟨?_, fun _ => rfl⟩
      rw [decide_eq_false hdown]
      rfl

/-- **After a refusal**: no request is passed on, and nothing more is sent.  It is said of every
refusal, and the second ones are harmless because the first has ended the wire. -/
def Quiet (actions : List Action) : Prop :=
  ∀ before after, actions = before ++ .badRequest :: after →
    (∀ r, .request r ∉ after) ∧ (wire actions).sent = (wire (before ++ [.badRequest])).sent

/-- Nothing is sent on a wire that is down, by induction on what is tried. -/
theorem sent_of_down {actions : List Action} : ∀ {w : Wire}, w.connected = false →
    (actions.foldl Wire.step w).sent = w.sent := by
  induction actions with
  | nil => exact fun _ => rfl
  | cons a actions ih =>
    intro w h
    have hstep : (w.step a).sent = w.sent ∧ (w.step a).connected = false := by
      cases a with
      | request r => exact ⟨rfl, h⟩
      | response => rw [Wire.step, h]; exact ⟨rfl, h⟩
      | badRequest => rw [Wire.step, h]; exact ⟨rfl, h⟩
      | shutdown => exact ⟨rfl, rfl⟩
    rw [List.foldl_cons, ih hstep.2, hstep.1]

/-- A refusal and what `onMessage` does with it; then only refusals. -/
def Refused (actions : List Action) : Prop :=
  ∃ before after, .badRequest ∉ before ∧ actions = before ++ .badRequest :: .shutdown :: after ∧
    ∀ r, .request r ∉ after

/-- An element that the front does not have stands behind it. -/
theorem split_behind {α : Type} {x : α} {front rest before after : List α} (h : x ∉ front)
    (heq : front ++ rest = before ++ x :: after) :
    ∃ mid, before = front ++ mid ∧ rest = mid ++ x :: after := by
  rcases List.append_eq_append_iff.mp heq with ⟨mid, hbefore, hrest⟩ | ⟨mid, rfl, hmid⟩
  · exact ⟨mid, hbefore, hrest⟩
  · cases mid with
    | nil => exact ⟨[], by rw [List.append_nil, List.append_nil], hmid.symm⟩
    | cons a mid =>
      obtain ⟨rfl, -⟩ := List.cons.inj hmid
      exact absurd (List.mem_append_right _ (List.mem_cons_self ..)) h

theorem Refused.quiet {actions : List Action} (h : Refused actions) : Quiet actions := by
  obtain ⟨front, rest, hclean, rfl, hnone⟩ := h
  have hsent (more : List Action) : (wire (front ++ .badRequest :: .shutdown :: more)).sent =
      (wire (front ++ [.badRequest])).sent := by
    rw [wire, wire, List.foldl_append, List.foldl_append, List.foldl_cons, List.foldl_cons, sent_of_down rfl]
    rfl
  intro before after heq
  obtain ⟨mid, rfl, hmid⟩ := split_behind hclean heq
  match mid, hmid with
  | [], hmid =>
    -- the first refusal
    cases hmid
    rw [List.append_nil]
    refine ⟨fun r hin => ?_, hsent rest⟩
    rcases List.mem_cons.mp hin with hin | hin
    · cases hin
    · exact hnone r hin
  | [_], hmid => cases hmid
  | _ :: _ :: mid, hmid =>
    cases hmid
    refine ⟨fun r hin => hnone r (List.mem_append_right _ (List.mem_cons_of_mem _ hin)), ?_⟩
    rw [hsent, List.append_assoc]
    exact (hsent (mid ++ [.badRequest])).symm

theorem quiet_of_notMem {actions : List Action} (h : .badRequest ∉ actions) : Quiet actions := by
  rintro before after rfl
  exact absurd (List.mem_append_right _ (List.mem_cons_self ..)) h

/-! ## 2. A request line that is refused -/

/-- The line begins with a method and a space. -/
def Begins (line : List Byte) : Prop := ∃ method ∈ methods, ∃ start, line = method ++ space :: start

section

variable {t : Int} {r : HttpRequest} {c : HttpContext} {line xs rest : List Byte}

theorem begins_iff {method : List Byte} (hm : space ∉ method) (start : List Byte) :
    Begins (method ++ space :: start) ↔ method ∈ methods := by
  constructor
  · rintro ⟨method', hin, start', heq⟩
    have hlen := congrArg (List.idxOf space) heq
    rw [HttpContext.idxOf_first hm, HttpContext.idxOf_first (HttpContext.space_notMem_method _ hin)] at hlen
    have htake := congrArg (List.take method.length) heq
    rw [HttpContext.take_first, hlen, HttpContext.take_first] at htake
    exact htake ▸ hin
  · exact fun hin => ⟨method, hin, start, rfl⟩

theorem processVersion_method (r : HttpRequest) (version : List Byte) :
    (HttpContext.processVersion r version).2.method = r.method := by
  unfold HttpContext.processVersion
  split
  · split
    · rfl
    · split
      · rfl
      · rfl
  · rfl

/-- Behind the first word, `method_` is what that word stands for.  The rest of the line may be
anything. -/
theorem processRequestLine_method (hr : r.method = .kInvalid) {method : List Byte} (hm : space ∉ method)
    (start : List Byte) : ∃ out, HttpContext.processRequestLine r (method ++ space :: start) = .ok out ∧
      out.2.method = HttpRequest.methodOf method ∧ (method ∉ methods → out = (false, r)) := by
  unfold HttpContext.processRequestLine HttpRequest.setMethod
  dsimp only
  rw [HttpContext.idxOf_first hm, if_pos (HttpContext.first_ne_length _ _), if_pos hr, Buffer.ok_bind,
    HttpContext.take_first, HttpContext.drop_first]
  dsimp only
  split
  · rename_i hknown
    refine ⟨_, rfl, ?_, fun hno => ?_⟩
    · rw [processVersion_method]
      split
      · rfl
      · rfl
    · exact absurd ((HttpContext.methodOf_ne_iff _).mp (of_decide_eq_true hknown.1)) hno
  · refine ⟨_, rfl, rfl, fun hno => ?_⟩
    rw [not_not.mp (mt (HttpContext.methodOf_ne_iff _).mp hno), ← hr]

/-- **A refused line**: the method it begins with stays behind, or nothing does. -/
theorem processRequestLine_refused (hr : r.method = .kInvalid) (hbad : ¬ RequestLine line) :
    ∃ r', HttpContext.processRequestLine r line = .ok (false, r') ∧
      (Begins line → r'.method ≠ .kInvalid) ∧ (¬ Begins line → r' = r) := by
  obtain ⟨ok, r', hline⟩ := HttpContext.processRequestLine_returns hr line
  have hno : ok = false := by
    rw [Bool.eq_false_iff, Ne, HttpContext.processRequestLine_iff hr hline]
    exact hbad
  subst hno
  refine ⟨r', hline, ?_⟩
  by_cases hspace : space ∈ line
  · obtain ⟨method, start, rfl, hm⟩ := List.eq_append_cons_of_mem hspace
    obtain ⟨out, hout, hmethod, hnone⟩ := processRequestLine_method hr hm start
    rw [hline] at hout
    cases hout
    rw [begins_iff hm]
    refine ⟨fun hin => ?_, fun hin => congrArg Prod.snd (hnone hin)⟩
    rw [hmethod]
    exact (HttpContext.methodOf_ne_iff _).mpr hin
  · rw [HttpContext.processRequestLine_noSpace hspace] at hline
    cases hline
    refine ⟨?_, fun _ => rfl⟩
    rintro ⟨method, -, start, rfl⟩
    exact absurd (List.mem_append_right _ (List.mem_cons_self ..)) hspace

/-- The parser stops at such a line and leaves it where it is. -/
theorem consume_refused (hstate : c.state = .kExpectRequestLine) (hr : c.request.method = .kInvalid)
    (hline : Line xs line rest) (hbad : ¬ RequestLine line) :
    ∃ r', (parser t).consume (true, c) xs = ((false, { c with request := r' }), xs) ∧
      (Begins line → r'.method ≠ .kInvalid) ∧ (¬ Begins line → r' = c.request) := by
  obtain ⟨r', hout, hleft⟩ := processRequestLine_refused hr hbad
  refine ⟨r', ?_, hleft⟩
  have hstep : (parser t).step (true, c) xs = some ((false, { c with request := r' }), 0) := by
    refine HttpContext.step_eq_some.mpr ⟨line.length, false, hline.first, ?_, rfl⟩
    rw [hline.take]
    simp only [HttpContext.onLine, hstate, hout]
  rw [Consumer.consume_of_some hstep, Consumer.consume_of_none (HttpContext.step_done (.inl rfl) _)]
  rfl

end

/-! ## 3. The stream -/

/-- The first line of what waits is no request line. -/
def BadFirst (w : List Byte) : Prop := ∃ line rest, Line w line rest ∧ ¬ RequestLine line

/-- And it begins with a method. -/
def Spoiled (w : List Byte) : Prop := ∃ line rest, Line w line rest ∧ ¬ RequestLine line ∧ Begins line

/-- What waits when a segment has come: without the request that it has completed, if any.  One
call of `onMessage` passes on one request at most. -/
inductive Takes (w seg : List Byte) : List Byte → Prop
  | served {last rest : List Byte} (h : Head (w ++ seg) last rest) : Takes w seg rest
  | waits (h : ∀ last rest, ¬ Head (w ++ seg) last rest) : Takes w seg (w ++ seg)

/-- **Only the last segment** meets a line that begins with a method and is no request line,
where a request should begin.  This is a condition on the stream and its cuts; it does not ask
the parser, and `Takes` says where a request begins. -/
def NeverResumed : List Byte → List (List Byte) → Prop
  | _, [] => True
  | w, seg :: segs => (Spoiled (w ++ seg) → segs = []) ∧ ∀ w', Takes w seg w' → NeverResumed w' segs

theorem Takes.unique {w seg w₁ w₂ : List Byte} (h : Takes w seg w₁) (h' : Takes w seg w₂) : w₁ = w₂ := by
  cases h with
  | served h =>
    cases h' with
    | served h' => exact (h.unique h').2
    | waits hno => exact absurd h (hno _ _)
  | waits hno =>
    cases h' with
    | served h' => exact absurd h' (hno _ _)
    | waits => rfl

theorem BadFirst.append {w : List Byte} (h : BadFirst w) (seg : List Byte) : BadFirst (w ++ seg) := by
  obtain ⟨line, rest, hline, hbad⟩ := h
  refine ⟨line, rest ++ seg, ⟨Buffer.searchCRLF_append hline.first seg, ?_⟩, hbad⟩
  rw [hline.eq, List.append_assoc]
  rfl

/-! ## 4. One segment -/

namespace Conn

variable (callback : HttpRequest → Bool → Bool) {s : Conn} {n k : Nat} {w seg : List Byte} {t : Int} {b : Buffer}

/-- A connection that goes on: it has refused nothing yet, or a line that leaves no method
behind.  In the second case it may be looked at as often as segments come. -/
structure Open (s : Conn) (n : Nat) (w : List Byte) : Prop where
  waiting : Waiting s n w
  said : .badRequest ∉ s.actions ∨ Refused s.actions ∧ BadFirst w

theorem open_new : Open {} 0 [] := ⟨waiting_new, .inl (List.not_mem_nil)⟩

theorem Open.quiet (h : Open s n w) : Quiet s.actions := h.said.elim quiet_of_notMem fun hh => hh.1.quiet

theorem Open.refused (h : Open s n w) : Refused (s.actions ++ [.badRequest, .shutdown]) := by
  rcases h.said with hclean | ⟨⟨before, after, hclean, heq, hnone⟩, -⟩
  · exact ⟨s.actions, [], hclean, rfl, fun _ => List.not_mem_nil⟩
  · refine ⟨before, after ++ [.badRequest, .shutdown], hclean, ?_, fun r hin => ?_⟩
    · rw [heq, List.append_assoc]
      rfl
    · rcases List.mem_append.mp hin with hin | hin
      · exact hnone r hin
      · simp at hin

/-- A connection that has refused a line and kept its method.  Nothing is wrong with it yet; what
is, comes with the next segment. -/
structure Dead (s : Conn) (n : Nat) : Prop where
  input : s.input.Input n
  state : s.context.state = .kExpectRequestLine
  method : s.context.request.method ≠ .kInvalid
  line : ∃ line rest, Line s.input.contents line rest ∧ space ∈ line
  refused : Refused s.actions

/-- A segment that leaves a line in front which is no request line.  Which of the two it is
depends on how the line begins. -/
theorem onMessage_refused (h : Open s n w) (hin : b.Input k) (hcont : b.contents = s.input.contents ++ seg)
    (hbad : BadFirst (w ++ seg)) :
    ∃ s', onMessage callback t { s with input := b } = some (.ok s') ∧
      (¬ Spoiled (w ++ seg) ∧ Open s' k (w ++ seg) ∨ Spoiled (w ++ seg) ∧ Dead s' k) := by
  obtain ⟨line, rest, hline, hno⟩ := hbad
  obtain ⟨r', hc, hmethod, hsame⟩ := consume_refused (t := 0) (c := {}) rfl rfl hline hno
  obtain ⟨c', b', hmessage, hin', hctx, hleft, -⟩ := onMessage_spec callback (t := t) h.waiting hin hcont hc
  have hstate : c'.state = .kExpectRequestLine := congrArg HttpContext.state hctx
  have hkept : c'.request.method = r'.method := congrArg (fun c => c.request.method) hctx
  have hgot : ¬ c'.gotAll = true := by
    rw [gotAll_iff, hstate]
    exact fun hh => nomatch hh
  rw [if_neg hgot] at hmessage
  refine ⟨_, hmessage, ?_⟩
  by_cases hbegins : Begins line
  · refine .inr ⟨⟨line, rest, hline, hno, hbegins⟩, hin', hstate, ?_, ⟨line, rest, ?_, ?_⟩, h.refused⟩
    · rw [hkept]
      exact hmethod hbegins
    · rw [hleft]
      exact hline
    · obtain ⟨method, -, start, rfl⟩ := hbegins
      exact List.mem_append_right _ (List.mem_cons_self ..)
  · refine .inl ⟨?_, ⟨hin', .inl ⟨hstate, ?_⟩, ?_⟩, .inr ⟨h.refused, line, rest, hline, hno⟩⟩
    · rintro ⟨line', rest', hline', -, hbegins'⟩
      obtain ⟨rfl, -⟩ := hline.unique hline'
      exact hbegins hbegins'
    · rw [hkept, hsame hbegins]
    · change (parser 0).consume (true, { c' with request := c'.request.timeless }) b'.contents = _
      rw [hctx, hsame hbegins, hleft]

/-- Any other segment: it completes a request, or it waits for more. -/
theorem onMessage_good (h : Open s n w) (hin : b.Input k) (hcont : b.contents = s.input.contents ++ seg)
    (hgood : ¬ BadFirst (w ++ seg)) :
    ∃ s' w', onMessage callback t { s with input := b } = some (.ok s') ∧ Takes w seg w' ∧ Open s' k w' := by
  have hclean : .badRequest ∉ s.actions := h.said.resolve_right fun hh => hgood (hh.2.append seg)
  have hwaits {c : HttpContext} {y : List Byte} (hc : (parser 0).consume (true, {}) (w ++ seg) = ((true, c), y))
      (hgot : c.gotAll = false) (hhead : ∀ last rest, ¬ Head (w ++ seg) last rest) :
      ∃ s' w', onMessage callback t { s with input := b } = some (.ok s') ∧ Takes w seg w' ∧ Open s' k w' := by
    obtain ⟨c', b', hmessage, hin', rfl, hleft, hend⟩ := onMessage_spec callback (t := t) h.waiting hin hcont hc
    have hgot' : ¬ c'.gotAll = true := by
      rw [Bool.not_eq_true]
      exact hgot
    have hready : c'.Ready := by
      rcases hend with ⟨-, hready⟩ | hdone | hstate
      · exact hready
      · cases hdone
      · exact absurd (gotAll_iff.mpr hstate) hgot'
    rw [if_neg hgot'] at hmessage
    refine ⟨_, _, hmessage, .waits hhead, waiting_of_parsed hin' hready hc rfl hleft, .inl ?_⟩
    rw [if_pos rfl, List.append_nil]
    exact hclean
  rcases HttpContext.consume_new 0 (w ++ seg) with
    ⟨hno, hc⟩ | ⟨line, rest, c, hline, hbad, -⟩ | ⟨line, xs, hline, hright, hmore⟩
  · refine hwaits hc rfl fun last rest hh => ?_
    obtain ⟨line, xs, hline, -⟩ := hh
    rw [hline.first] at hno
    cases hno
  · exact absurd ⟨line, rest, hline, hbad⟩ hgood
  · rcases hmore with ⟨last, rest, c, hheaders, hc, hgot⟩ | ⟨hheaders, c, rest, hc, hgot⟩
    · -- a request is complete
      obtain ⟨c', b', hmessage, hin', rfl, hleft, -⟩ := onMessage_spec callback (t := t) h.waiting hin hcont hc
      have hgot' : c'.gotAll = true := hgot
      rw [if_pos hgot'] at hmessage
      refine ⟨_, _, hmessage, .served ⟨line, xs, hline, hright, hheaders⟩, ⟨hin', HttpContext.ready_new, ?_⟩, .inl ?_⟩
      · rw [hleft]
        rfl
      · rw [if_pos rfl, List.append_nil, List.mem_append, not_or]
        refine ⟨hclean, ?_⟩
        unfold onRequest
        split
        · simp
        · simp
    · refine hwaits hc hgot fun last rest' hh => ?_
      obtain ⟨line', xs', hline', -, hh'⟩ := hh
      obtain ⟨-, rfl⟩ := hline.unique hline'
      exact hheaders _ _ hh'

/-- **A segment too many**: the line is looked at again, and has its method already.  The bytes
that have come do not matter, since the line stands in front of them. -/
theorem onMessage_dead (h : Dead s n) (hin : b.Input k) (hcont : b.contents = s.input.contents ++ seg) :
    onMessage callback t { s with input := b } = some (.error .assertion) := by
  obtain ⟨line, rest, hline, hspace⟩ := h.line
  have hagain : HttpContext.Asserts s.context b := by
    refine ⟨h.state, h.method, line, rest ++ seg, ⟨?_, ?_⟩, hspace⟩
    · rw [hcont]
      exact Buffer.searchCRLF_append hline.first seg
    · rw [hcont, hline.eq, List.append_assoc]
      rfl
  have hparse : s.context.parseRequest t b = some (.error .assertion) := by
    rcases HttpContext.answers_again hin.wf h.state h.method t with ⟨-, hno⟩ | ⟨-, hfails⟩
    · exact absurd hagain hno
    · exact hfails _
  rw [onMessage, hparse]
  rfl

/-! ## 5. Every run -/

theorem not_spoiled_of_good (h : ¬ BadFirst w) : ¬ Spoiled w := by
  rintro ⟨line, rest, hline, hbad, -⟩
  exact h ⟨line, rest, hline, hbad⟩

theorem takes_of_bad (h : BadFirst (w ++ seg)) : Takes w seg (w ++ seg) := by
  obtain ⟨line, rest, hline, hbad⟩ := h
  refine .waits fun last rest' hh => ?_
  obtain ⟨line', xs, hline', hgood, -⟩ := hh
  obtain ⟨rfl, -⟩ := hline.unique hline'
  exact hbad hgood

/-- **One segment**, however it is.  The two lemmas on a connection that goes on, put together. -/
theorem onMessage_open (h : Open s n w) (hin : b.Input k) (hcont : b.contents = s.input.contents ++ seg) :
    ∃ s' w', onMessage callback t { s with input := b } = some (.ok s') ∧ Takes w seg w' ∧
      (¬ Spoiled (w ++ seg) ∧ Open s' k w' ∨ Spoiled (w ++ seg) ∧ Dead s' k) := by
  by_cases hbad : BadFirst (w ++ seg)
  · obtain ⟨s', hmessage, hnext⟩ := onMessage_refused callback (t := t) h hin hcont hbad
    exact ⟨s', _, hmessage, takes_of_bad hbad, hnext⟩
  · obtain ⟨s', w', hmessage, htakes, hopen⟩ := onMessage_good callback (t := t) h hin hcont hbad
    exact ⟨s', w', hmessage, htakes, .inl ⟨not_spoiled_of_good hbad, hopen⟩⟩

theorem receiveAll_cons {arrivals : List (Int × List Byte)} {s' : Conn} (hst : s.input.append seg = .ok b)
    (hmessage : onMessage callback t { s with input := b } = some (.ok s')) :
    receiveAll callback s ((t, seg) :: arrivals) = receiveAll callback s' arrivals := by
  rw [receiveAll, List.foldlM_cons, receive_of_append callback hst, hmessage]
  rfl

/-- How a connection ends on which a refusal is harmless: all segments are handled, and after a
refusal no request is passed on and nothing is sent; or the input buffer cannot grow any more. -/
def Harmless (callback : HttpRequest → Bool → Bool) (s : Conn) (arrivals : List (Int × List Byte)) : Prop :=
  (∃ s', receiveAll callback s arrivals = some (.ok s') ∧ Quiet s'.actions) ∨
    ∃ e, receiveAll callback s arrivals = some (.error (.buffer e))

theorem harmless_of_open (arrivals : List (Int × List Byte)) : ∀ {s : Conn} {n : Nat} {w : List Byte},
    Open s n w → NeverResumed w (arrivals.map Prod.snd) → Harmless callback s arrivals := by
  induction arrivals with
  | nil => exact fun {s} _ _ h _ => .inl ⟨s, rfl, h.quiet⟩
  | cons arrival arrivals ih =>
    intro s n w h hnever
    obtain ⟨t, seg⟩ := arrival
    obtain ⟨hlast, hrest⟩ := hnever
    cases hst : s.input.append seg with
    | error e =>
      refine .inr ⟨e, ?_⟩
      rw [receiveAll, List.foldlM_cons, receive, hst]
      rfl
    | ok b =>
      obtain ⟨hin, hcont⟩ := Buffer.input_append_ok h.waiting.input hst
      obtain ⟨s', w', hmessage, htakes, hnext⟩ := onMessage_open callback (t := t) h hin hcont
      rw [Harmless, receiveAll_cons callback hst hmessage]
      rcases hnext with ⟨-, hopen⟩ | ⟨hspoiled, hdead⟩
      · exact ih hopen (hrest w' htakes)
      · -- it was the last segment
        obtain rfl : arrivals = [] := List.map_eq_nil_iff.mp (hlast hspoiled)
        exact .inl ⟨s', rfl, hdead.refused.quiet⟩

/-- Otherwise the assertion fails, unless the buffer is full before.  By induction on the
segments: the first one that meets such a line leaves a dead connection, and there is another. -/
theorem asserts_of_open (arrivals : List (Int × List Byte)) : ∀ {s : Conn} {n : Nat} {w : List Byte},
    Open s n w → Buffer.preAppendSize + (n + (arrivals.map Prod.snd).flatten.length) < 2 ^ 63 →
    ¬ NeverResumed w (arrivals.map Prod.snd) →
    receiveAll callback s arrivals = some (.error .assertion) := by
  induction arrivals with
  | nil => exact fun _ _ hno => absurd trivial hno
  | cons arrival arrivals ih =>
    intro s n w h hs hno
    obtain ⟨t, seg⟩ := arrival
    rw [List.map_cons, List.flatten_cons, List.length_append] at hs
    dsimp only at hs
    have hfits : Buffer.preAppendSize + (n + seg.length) < 2 ^ 63 := by omega
    obtain ⟨b, hst, hin, hcont⟩ := Buffer.input_append h.waiting.input hfits
    obtain ⟨s', w', hmessage, htakes, hnext⟩ := onMessage_open callback (t := t) h hin hcont
    rw [receiveAll_cons callback hst hmessage]
    rcases hnext with ⟨hclean, hopen⟩ | ⟨hspoiled, hdead⟩
    · refine ih hopen (by omega) fun hnever => hno ⟨fun hsp => absurd hsp hclean, fun w'' htakes' => ?_⟩
      rwa [← htakes.unique htakes']
    · cases arrivals with
      | nil => exact absurd ⟨fun _ => rfl, fun _ _ => trivial⟩ hno
      | cons arrival' arrivals =>
        obtain ⟨t', seg'⟩ := arrival'
        rw [List.map_cons, List.flatten_cons, List.length_append] at hs
        dsimp only at hs
        have hfits' : Buffer.preAppendSize + (n + seg.length + seg'.length) < 2 ^ 63 := by omega
        obtain ⟨b', hst', hin', hcont'⟩ := Buffer.input_append hdead.input hfits'
        rw [receiveAll, List.foldlM_cons, receive_of_append callback hst', onMessage_dead callback hdead hin' hcont']
        rfl

/-- **A refused request is harmless unless it is looked at again with its method.**  A byte stream
that comes on one connection, cut in any way.  If only the last segment meets, where a request
should begin, a line that begins with a method and a space and is no request line, then the assertion
of `setMethod` holds at every call, and once `parseRequest` has returned `false` no request is
passed to `httpCallback_` and no further response is sent.  If another segment meets one, the
assertion fails at the next. -/
theorem refusal_harmless (arrivals : List (Int × List Byte)) :
    (NeverResumed [] (arrivals.map Prod.snd) → Harmless callback {} arrivals) ∧
      (Buffer.preAppendSize + (arrivals.map Prod.snd).flatten.length < 2 ^ 63 →
        Harmless callback {} arrivals → NeverResumed [] (arrivals.map Prod.snd)) := by
  refine ⟨harmless_of_open callback arrivals open_new, fun hs hharmless => ?_⟩
  by_contra hno
  have hfails := asserts_of_open callback arrivals open_new (by omega) hno
  rcases hharmless with ⟨s, hok, -⟩ | ⟨e, herr⟩
  · rw [hfails] at hok
    cases hok
  · rw [hfails] at herr
    cases herr

/-- `HEY /`, and the end of the line: no method. -/
def heyLine : List Byte := ascii ['H', 'E', 'Y', ' ', '/', '\r', '\n']

/-- `GET / HTTP/9`, and the end of the line: a method, but no version. -/
def getLine9 : List Byte := ascii ['G', 'E', 'T', ' ', '/', ' ', 'H', 'T', 'T', 'P', '/', '9', '\r', '\n']

theorem refusal_harmless_heyLine :
    Harmless (fun _ close => close) {} [(0, heyLine), (1, [33]), (2, getLine)] := by
  have hunspoiled (seg : List Byte) : ¬ Spoiled (heyLine ++ seg) := by
    rintro ⟨line, rest, hline, -, hbegins⟩
    have hfirst : Line (heyLine ++ seg) (heyLine.take 5) seg := ⟨Buffer.searchCRLF_append (by decide) seg, rfl⟩
    obtain ⟨rfl, -⟩ := hline.unique hfirst
    exact absurd ((begins_iff (by decide) (ascii ['/'])).mp hbegins) (by decide : heyLine.take 3 ∉ methods)
  have hbad : ¬ RequestLine (heyLine.take 5) := by
    rw [← HttpContext.processRequestLine_iff (r := {}) rfl rfl]
    exact Bool.false_ne_true
  have htakes (seg w' : List Byte) {w : List Byte} (hw : ∃ more, w ++ seg = heyLine ++ more)
      (h : Takes w seg w') : w' = w ++ seg := by
    obtain ⟨more, hmore⟩ := hw
    refine h.unique (takes_of_bad ⟨heyLine.take 5, more, ?_, hbad⟩)
    rw [hmore]
    exact ⟨Buffer.searchCRLF_append (by decide) more, rfl⟩
  refine (refusal_harmless (fun _ close => close) [(0, heyLine), (1, [33]), (2, getLine)]).1 ?_
  refine ⟨fun h => absurd h ?_, fun w₁ h₁ => ⟨fun h => absurd h ?_, fun w₂ h₂ => ⟨fun _ => rfl, fun _ _ => trivial⟩⟩⟩
  · exact List.append_nil heyLine ▸ hunspoiled []
  · rw [htakes heyLine w₁ ⟨[], (List.append_nil _).symm⟩ h₁]
    exact hunspoiled [33]

/-- `GET / HTTP/9` is refused, and one more byte arrives. -/
theorem resumed_asserts : ¬ ∀ arrivals, Harmless (fun _ close => close) {} arrivals := by
  intro hall
  have hno : ¬ NeverResumed [] (([(0, getLine9), (1, [33])] : List (Int × List Byte)).map Prod.snd) := by
    rintro ⟨hlast, -⟩
    have hbad : ¬ RequestLine (getLine9.take 12) := by
      rw [← HttpContext.processRequestLine_iff (r := {}) rfl rfl]
      exact Bool.false_ne_true
    have hspoiled : Spoiled ([] ++ getLine9) := by
      refine ⟨getLine9.take 12, [], ⟨by decide, by decide⟩, hbad, ascii ['G', 'E', 'T'], by decide, _, rfl⟩
    exact absurd (hlast hspoiled) (by decide)
  have hfails := asserts_of_open (fun _ close => close) [(0, getLine9), (1, [33])] open_new (by decide) hno
  rcases hall [(0, getLine9), (1, [33])] with ⟨s, hok, -⟩ | ⟨e, herr⟩
  · rw [hfails] at hok
    cases hok
  · rw [hfails] at herr
    cases herr

end Conn

end Suduo.Http
