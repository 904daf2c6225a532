/-
# Which requests `HttpContext` accepts

The request grammar, line by line, and the language that one call of `parseRequest` on a fresh
context accepts.

They differ in one place.  The header block ends, by the comment in the source, with an EMPTY line;
the code ends it with any line that has no colon.  `acceptance` says that this is all: on every
input that has no such line in that place, the call is exactly the grammar.
-/
import Suduo.Bench.HttpContext

namespace Suduo.Http

open Lib
open Buffer (Line)

/-! ## 1. The grammar -/

def methods : List (List Byte) :=
  [ascii ['G', 'E', 'T'], ascii ['P', 'O', 'S', 'T'], ascii ['H', 'E', 'A', 'D'], ascii ['P', 'U', 'T'],
    ascii ['D', 'E', 'L', 'E', 'T', 'E']]

def versions : List (List Byte) :=
  [ascii ['H', 'T', 'T', 'P', '/', '1', '.', '0'], ascii ['H', 'T', 'T', 'P', '/', '1', '.', '1']]

/-- `METHOD SP target SP HTTP/1.(0|1)`. -/
def RequestLine (line : List Byte) : Prop :=
  ∃ method ∈ methods, ∃ target, HttpContext.space ∉ target ∧ ∃ version ∈ versions,
    line = method ++ HttpContext.space :: (target ++ HttpContext.space :: version)

/-- Header lines, each with a colon, up to a line `last` without one.  That is how the code has
it; the grammar has `last` empty. -/
inductive Headers : List Byte → List Byte → List Byte → Prop
  | last {xs last rest : List Byte} (h : Line xs last rest) (hcolon : HttpContext.colon ∉ last) :
      Headers xs last rest
  | header {xs line xs' last rest : List Byte} (h : Line xs line xs') (hcolon : HttpContext.colon ∈ line)
      (next : Headers xs' last rest) : Headers xs last rest

/-- A request line and header lines, up to a line `last` without a colon. -/
def Head (s last rest : List Byte) : Prop :=
  ∃ line xs, Line s line xs ∧ RequestLine line ∧ Headers xs last rest

/-- **A request**: the line that ends its headers is empty. -/
def Request (s rest : List Byte) : Prop := Head s [] rest

theorem Headers.unique {xs last rest last' rest' : List Byte} (h : Headers xs last rest)
    (h' : Headers xs last' rest') : last = last' ∧ rest = rest' := by
  induction h generalizing last' rest' with
  | last hl hcolon =>
    cases h' with
    | last hl' hcolon' => exact hl.unique hl'
    | header hl' hcolon' next' =>
      obtain ⟨rfl, -⟩ := hl.unique hl'
      exact absurd hcolon' hcolon
  | header hl hcolon next ih =>
    cases h' with
    | last hl' hcolon' =>
      obtain ⟨rfl, -⟩ := hl.unique hl'
      exact absurd hcolon hcolon'
    | header hl' hcolon' next' =>
      obtain ⟨-, rfl⟩ := hl.unique hl'
      exact ih next'

theorem Head.unique {s last rest last' rest' : List Byte} (h : Head s last rest)
    (h' : Head s last' rest') : last = last' ∧ rest = rest' := by
  obtain ⟨line, xs, hl, -, hh⟩ := h
  obtain ⟨line', xs', hl', -, hh'⟩ := h'
  obtain ⟨-, rfl⟩ := hl.unique hl'
  exact hh.unique hh'

/-! ## 2. The request line -/

namespace HttpContext

variable {t : Int} {r : HttpRequest} {c : HttpContext} {line xs last rest : List Byte}

/-- `std::find` stops at the first.  What stands before it has none. -/
theorem idxOf_first {x : Byte} {before : List Byte} (h : x ∉ before) (after : List Byte) :
    (before ++ x :: after).idxOf x = before.length := by
  rw [List.idxOf_append_of_notMem h, List.idxOf_cons_self, Nat.add_zero]

theorem take_first {x : Byte} (before after : List Byte) :
    (before ++ x :: after).take before.length = before := List.take_left

theorem drop_first {x : Byte} (before after : List Byte) :
    (before ++ x :: after).drop (before.length + 1) = after := by
  rw [← List.drop_drop, List.drop_left]
  rfl

theorem first_ne_length {x : Byte} (before after : List Byte) :
    before.length ≠ (before ++ x :: after).length := by
  rw [List.length_append, List.length_cons]
  omega

theorem methodOf_ne_iff (m : List Byte) : HttpRequest.methodOf m ≠ .kInvalid ↔ m ∈ methods := by
  unfold HttpRequest.methodOf
  simp only [methods, List.mem_cons, List.not_mem_nil, or_false]
  constructor
  · intro h
    by_contra hno
    simp only [not_or] at hno
    obtain ⟨h₁, h₂, h₃, h₄, h₅⟩ := hno
    rw [if_neg h₁, if_neg h₂, if_neg h₃, if_neg h₄, if_neg h₅] at h
    exact h rfl
  · rintro (rfl | rfl | rfl | rfl | rfl) <;> decide

theorem space_notMem_method : ∀ m ∈ methods, space ∉ m := by decide

theorem processVersion_iff (r : HttpRequest) (version : List Byte) :
    (processVersion r version).1 = true ↔ version ∈ versions := by
  unfold processVersion
  simp only [versions, List.mem_cons, List.not_mem_nil, or_false]
  constructor
  · intro h
    split at h
    · rename_i hseven
      have hcut := List.take_append_drop 7 version
      rw [hseven.2] at hcut
      split at h
      · rename_i hone
        rw [hone] at hcut
        exact .inr hcut.symm
      · split at h
        · rename_i hzero
          rw [hzero] at hcut
          exact .inl hcut.symm
        · cases h
    · cases h
  · rintro (rfl | rfl) <;> rfl

/-- What `processRequestLine` makes of the target. -/
def setTarget (r : HttpRequest) (target : List Byte) : HttpRequest :=
  let question := target.idxOf questionMark
  if question ≠ target.length then
    { r with path := target.take question, query := target.drop question }
  else { r with path := target }

/-- The request line with its two spaces.  Of what stands behind the second only `HTTP/1.0` and
`HTTP/1.1` will do, and the target is cut at its first `?`. -/
theorem processRequestLine_words (hr : r.method = .kInvalid) {method target : List Byte}
    (hm : space ∉ method) (ht : space ∉ target) (version : List Byte) :
    processRequestLine r (method ++ space :: (target ++ space :: version)) =
      .ok (if method ∈ methods then
        processVersion (setTarget { r with method := HttpRequest.methodOf method } target) version
        else (false, { r with method := HttpRequest.methodOf method })) := by
  unfold processRequestLine HttpRequest.setMethod
  dsimp only
  rw [idxOf_first hm, if_pos (first_ne_length _ _), if_pos hr, Buffer.ok_bind, take_first, drop_first]
  dsimp only
  rw [idxOf_first ht, take_first, drop_first]
  by_cases hknown : method ∈ methods
  · rw [if_pos ⟨decide_eq_true ((methodOf_ne_iff _).mpr hknown), first_ne_length _ _⟩, if_pos hknown]
    rfl
  · have hno : ¬ (decide (HttpRequest.methodOf method ≠ .kInvalid) = true ∧
        target.length ≠ (target ++ space :: version).length) := by
      rintro ⟨h, -⟩
      exact hknown ((methodOf_ne_iff _).mp (of_decide_eq_true h))
    rw [if_neg hno, if_neg hknown]
    rfl

/-- Without two spaces it is no request line.  The method may have been set all the same. -/
theorem processRequestLine_short (hr : r.method = .kInvalid)
    (h : space ∉ line ∨ ∃ method start, space ∉ method ∧ space ∉ start ∧ line = method ++ space :: start) :
    ∃ r', processRequestLine r line = .ok (false, r') := by
  unfold processRequestLine HttpRequest.setMethod
  dsimp only
  rcases h with h | ⟨method, start, hm, hs, rfl⟩
  · rw [List.idxOf_eq_length h, if_neg (not_not_intro rfl)]
    exact ⟨_, rfl⟩
  · rw [idxOf_first hm, if_pos (first_ne_length _ _), if_pos hr, Buffer.ok_bind, drop_first]
    dsimp only
    rw [List.idxOf_eq_length hs, if_neg (fun h => h.2 rfl)]
    exact ⟨_, rfl⟩

/-- **`processRequestLine` accepts exactly the request lines.**  The line is cut at its first two
spaces, or it has not that many; in each case the result is that of one of the two lemmas above. -/
theorem processRequestLine_iff (hr : r.method = .kInvalid) {ok : Bool} {r' : HttpRequest}
    (hst : processRequestLine r line = .ok (ok, r')) : ok = true ↔ RequestLine line := by
  constructor
  · rintro rfl
    by_cases hfirst : space ∈ line
    · obtain ⟨method, start, rfl, hm⟩ := List.eq_append_cons_of_mem hfirst
      by_cases hsecond : space ∈ start
      · obtain ⟨target, version, rfl, ht⟩ := List.eq_append_cons_of_mem hsecond
        have heq := processRequestLine_words hr hm ht version
        rw [hst] at heq
        split at heq
        · rename_i hknown
          have hv := congrArg Prod.fst (Except.ok.inj heq).symm
          exact ⟨method, hknown, target, ht, version, (processVersion_iff _ _).mp hv, rfl⟩
        · cases heq
      · obtain ⟨r₁, heq⟩ := processRequestLine_short hr (.inr ⟨method, start, hm, hsecond, rfl⟩)
        rw [hst] at heq
        cases heq
    · obtain ⟨r₁, heq⟩ := processRequestLine_short hr (.inl hfirst)
      rw [hst] at heq
      cases heq
  · rintro ⟨method, hknown, target, ht, version, hv, rfl⟩
    have heq := processRequestLine_words hr (space_notMem_method method hknown) ht version
    rw [hst, if_pos hknown] at heq
    exact (congrArg Prod.fst (Except.ok.inj heq)).trans ((processVersion_iff _ version).mpr hv)

/-! ## 3. One call -/

theorem idxOf_colon_iff : line.idxOf colon ≠ line.length ↔ colon ∈ line := by
  rw [Ne, List.idxOf_eq_length_iff, not_not]

/-- A line in the header block.  Whether the block goes on is decided by a colon, and by nothing
else. -/
theorem step_header (hstate : c.state = .kExpectHeaders) (hline : Line xs line rest) :
    ∃ c', (parser t).step (true, c) xs = some ((true, c'), line.length + 2) ∧
      c'.state = if colon ∈ line then .kExpectHeaders else .kGotAll := by
  by_cases hcolon : colon ∈ line
  · refine ⟨{ c with request := c.request.addHeader line (line.idxOf colon) }, ?_, ?_⟩
    · refine step_eq_some.mpr ⟨line.length, true, hline.first, ?_, rfl⟩
      rw [hline.take]
      simp only [onLine, hstate, if_pos (idxOf_colon_iff.mpr hcolon)]
    · rw [if_pos hcolon]
      exact hstate
  · refine ⟨{ c with state := .kGotAll }, ?_, ?_⟩
    · refine step_eq_some.mpr ⟨line.length, true, hline.first, ?_, rfl⟩
      rw [hline.take]
      simp only [onLine, hstate, if_neg (mt idxOf_colon_iff.mp hcolon)]
    · rw [if_neg hcolon]

/-- A block of header lines is taken to its end, by induction on the block. -/
theorem consume_headers (h : Headers xs last rest) : ∀ {c : HttpContext}, c.state = .kExpectHeaders →
    ∃ c', (parser t).consume (true, c) xs = ((true, c'), rest) ∧ c'.gotAll = true := by
  induction h with
  | @last xs last rest hline hcolon =>
    intro c hstate
    obtain ⟨c', hst, hstate'⟩ := step_header (t := t) hstate hline
    rw [if_neg hcolon] at hstate'
    refine ⟨c', ?_, ?_⟩
    · rw [Consumer.consume_of_some hst, hline.drop, Consumer.consume_of_none (step_done (.inr hstate') _)]
    · rw [gotAll, hstate']
      rfl
  | @header xs line xs' last rest hline hcolon next ih =>
    intro c hstate
    obtain ⟨c₁, hst, hstate₁⟩ := step_header (t := t) hstate hline
    rw [if_pos hcolon] at hstate₁
    obtain ⟨c', hrest, hgot⟩ := ih hstate₁
    refine ⟨c', ?_, hgot⟩
    rw [Consumer.consume_of_some hst, hline.drop, hrest]

/-- And only such a block makes the request complete.  The induction is on a bound for what can
be read, since a line is taken in each step. -/
theorem headers_of_consume (n : Nat) : ∀ {xs : List Byte} {c : HttpContext}, xs.length < n →
    c.state = .kExpectHeaders → (∃ last rest, Headers xs last rest) ∨
      ∃ c' rest, (parser t).consume (true, c) xs = ((true, c'), rest) ∧ c'.gotAll = false := by
  induction n with
  | zero => exact fun h => absurd h (Nat.not_lt_zero _)
  | succ n ih =>
    intro xs c hlen hstate
    cases hcrlf : Buffer.searchCRLF xs with
    | none =>
      have hwait : (parser t).step (true, c) xs = none := by
        change step t (true, c) xs = none
        rw [step, hcrlf]
        rfl
      refine .inr ⟨c, xs, Consumer.consume_of_none hwait, ?_⟩
      rw [gotAll, hstate]
      rfl
    | some k =>
      have hline := Buffer.searchCRLF_eq hcrlf
      by_cases hcolon : colon ∈ xs.take k
      · obtain ⟨c₁, hst, hstate₁⟩ := step_header (t := t) hstate hline
        rw [if_pos hcolon] at hstate₁
        have hless : (xs.drop (k + 2)).length < n := by
          have := Buffer.searchCRLF_lt hcrlf
          rw [List.length_drop]
          omega
        rcases ih hless hstate₁ with ⟨last, rest, hh⟩ | ⟨c', rest, hrest, hgot⟩
        · exact .inl ⟨last, rest, .header hline hcolon hh⟩
        · refine .inr ⟨c', rest, ?_, hgot⟩
          rw [Consumer.consume_of_some hst, hline.drop, hrest]
      · exact .inl ⟨_, _, .last hline hcolon⟩

/-- **What one call comes to**, on a fresh context: the first line is missing, or no request
line; or the head of a request is there up to its last line, or not yet.  All that is said of
acceptance below is read off these four cases. -/
theorem consume_new (t : Int) (s : List Byte) :
    (Buffer.searchCRLF s = none ∧ (parser t).consume (true, {}) s = ((true, {}), s)) ∨
    (∃ line rest c', Line s line rest ∧ ¬ RequestLine line ∧
      (parser t).consume (true, {}) s = ((false, c'), s) ∧ c'.gotAll = false) ∨
    ∃ line xs, Line s line xs ∧ RequestLine line ∧
      ((∃ last rest c', Headers xs last rest ∧ (parser t).consume (true, {}) s = ((true, c'), rest) ∧
        c'.gotAll = true) ∨
      (∀ last rest, ¬ Headers xs last rest) ∧
        ∃ c' rest, (parser t).consume (true, {}) s = ((true, c'), rest) ∧ c'.gotAll = false) := by
  cases hcrlf : Buffer.searchCRLF s with
  | none =>
    refine .inl ⟨rfl, Consumer.consume_of_none ?_⟩
    change step t (true, {}) s = none
    rw [step, hcrlf]
    rfl
  | some k =>
    right
    have hline := Buffer.searchCRLF_eq hcrlf
    have hinvalid : ({} : HttpContext).request.method = .kInvalid := rfl
    obtain ⟨ok, request, hst⟩ := processRequestLine_returns hinvalid (s.take k)
    have hiff := processRequestLine_iff hinvalid hst
    cases ok with
    | false =>
      left
      refine ⟨_, _, { request }, hline, mt hiff.mpr Bool.noConfusion, ?_, rfl⟩
      have hstep : (parser t).step (true, {}) s = some ((false, { request }), 0) := by
        refine step_eq_some.mpr ⟨k, false, hcrlf, ?_, rfl⟩
        simp only [onLine, hst]
      rw [Consumer.consume_of_some hstep, Consumer.consume_of_none (step_done (.inl rfl) _)]
      rfl
    | true =>
      right
      refine ⟨_, _, hline, hiff.mp rfl, ?_⟩
      have hstep : (parser t).step (true, {}) s =
          some ((true, ⟨.kExpectHeaders, { request with receiveTime := t }⟩), k + 2) := by
        refine step_eq_some.mpr ⟨k, true, hcrlf, ?_, rfl⟩
        simp only [onLine, hst]
      rw [Consumer.consume_of_some hstep]
      by_cases hall : ∃ last rest, Headers (s.drop (k + 2)) last rest
      · obtain ⟨last, rest, hh⟩ := hall
        obtain ⟨c', hrest, hgot⟩ := consume_headers (t := t) hh
          (c := ⟨.kExpectHeaders, { request with receiveTime := t }⟩) rfl
        exact .inl ⟨last, rest, c', hh, hrest, hgot⟩
      · have hno : ∀ last rest, ¬ Headers (s.drop (k + 2)) last rest :=
          fun last rest hh => hall ⟨last, rest, hh⟩
        refine .inr ⟨hno, ?_⟩
        exact (headers_of_consume _ (Nat.lt_succ_self _) rfl).resolve_left hall

/-- A head is taken to its end, whatever its last line is. -/
theorem consume_head {s : List Byte} (h : Head s last rest) :
    ∃ c', (parser t).consume (true, {}) s = ((true, c'), rest) ∧ c'.gotAll = true := by
  obtain ⟨line, xs, hline, hgood, hh⟩ := h
  rcases consume_new t s with
    ⟨hno, -⟩ | ⟨line', rest', -, hline', hbad, -⟩ | ⟨line', xs', hline', -, hmore⟩
  · rw [hline.first] at hno
    cases hno
  · obtain ⟨rfl, -⟩ := hline.unique hline'
    exact absurd hgood hbad
  · obtain ⟨-, rfl⟩ := hline.unique hline'
    rcases hmore with ⟨last', rest', c', hh', heq, hgot⟩ | ⟨hno, -⟩
    · obtain ⟨-, rfl⟩ := hh.unique hh'
      exact ⟨c', heq, hgot⟩
    · exact absurd hh (hno _ _)

end HttpContext

/-! ## 4. Acceptance -/

/-- What a call of `parseRequest` on `s` should come to: `ok`, the context `c` and the bytes
`left`.  The last line is about the lines that the grammar does not have. -/
structure Exact (s : List Byte) (ok : Bool) (c : HttpContext) (left : List Byte) : Prop where
  complete : c.gotAll = true ↔ ∃ rest, Request s rest
  consumed : ∀ rest, Request s rest → left = rest
  rejects : ok = false ↔ ∃ line rest, Line s line rest ∧ ¬ RequestLine line
  bare : ∀ last rest, Head s last rest → last ≠ [] → c.gotAll = false

/-- After the request line and header lines comes a line that has no colon but is not empty. -/
def BareLine (s : List Byte) : Prop := ∃ last rest, Head s last rest ∧ last ≠ []

section

variable {s : List Byte} {ok : Bool} {c : HttpContext} {left : List Byte}

/-- Without a head there is nothing to accept, and nothing was accepted. -/
theorem exact_of_no_head (hhead : ∀ last rest, ¬ Head s last rest) (hgot : c.gotAll = false)
    (hrejects : ok = false ↔ ∃ line rest, Line s line rest ∧ ¬ RequestLine line) :
    Exact s ok c left ↔ ¬ BareLine s := by
  refine ⟨fun _ => ?_, fun _ => ⟨?_, ?_, hrejects, ?_⟩⟩
  · rintro ⟨last, rest, hh, -⟩
    exact hhead _ _ hh
  · rw [hgot]
    exact ⟨fun hgot => (Bool.noConfusion hgot), fun ⟨rest, hr⟩ => absurd hr (hhead _ _)⟩
  · exact fun rest hr => absurd hr (hhead _ _)
  · exact fun last rest hh _ => absurd hh (hhead _ _)

/-- With one, the request is complete; that is right if its last line is empty, and wrong
otherwise. -/
theorem exact_of_head {last : List Byte} (hhead : Head s last left) (hgot : c.gotAll = true)
    (hrejects : ok = false ↔ ∃ line rest, Line s line rest ∧ ¬ RequestLine line) :
    Exact s ok c left ↔ ¬ BareLine s := by
  constructor
  · rintro hexact ⟨last', rest', hh', hne⟩
    have hfalse := hexact.bare last' rest' hh' hne
    rw [hgot] at hfalse
    cases hfalse
  · intro hbare
    have hempty : last = [] := by
      by_contra hne
      exact hbare ⟨last, left, hhead, hne⟩
    subst hempty
    refine ⟨⟨fun _ => ⟨left, hhead⟩, fun _ => hgot⟩, fun rest' hr => (hhead.unique hr).2, hrejects, ?_⟩
    intro last' rest' hh' hne
    exact absurd (hhead.unique hh').1.symm hne

theorem exact_iff (t : Int) (h : (HttpContext.parser t).consume (true, {}) s = ((ok, c), left)) :
    Exact s ok c left ↔ ¬ BareLine s := by
  rcases HttpContext.consume_new t s with
    ⟨hno, heq⟩ | ⟨line, rest, c', hline, hbad, heq, hgot⟩ | ⟨line, xs, hline, hgood, hmore⟩
  · have hnone : ∀ line rest, ¬ Line s line rest := by
      intro line rest hline
      rw [hline.first] at hno
      cases hno
    rw [h] at heq
    cases heq
    refine exact_of_no_head ?_ rfl ?_
    · rintro last rest ⟨line, xs, hline, -⟩
      exact hnone _ _ hline
    · exact ⟨fun hok => (Bool.noConfusion hok), fun ⟨line, rest, hline, _⟩ => absurd hline (hnone _ _)⟩
  · rw [h] at heq
    cases heq
    refine exact_of_no_head ?_ hgot ⟨fun _ => ⟨line, rest, hline, hbad⟩, fun _ => rfl⟩
    rintro last rest ⟨line', xs, hline', hgood, -⟩
    obtain ⟨rfl, -⟩ := hline.unique hline'
    exact hbad hgood
  · have hrejects : true = false ↔ ∃ line rest, Line s line rest ∧ ¬ RequestLine line := by
      refine ⟨fun hok => (Bool.noConfusion hok), ?_⟩
      rintro ⟨line', rest, hline', hbad⟩
      obtain ⟨rfl, -⟩ := hline.unique hline'
      exact absurd hgood hbad
    rcases hmore with ⟨last, rest, c', hh, heq, hgot⟩ | ⟨hno, c', rest, heq, hgot⟩
    · rw [h] at heq
      cases heq
      exact exact_of_head ⟨line, xs, hline, hgood, hh⟩ hgot hrejects
    · rw [h] at heq
      cases heq
      refine exact_of_no_head ?_ hgot hrejects
      rintro last rest ⟨line', xs', hline', -, hh⟩
      obtain ⟨-, rfl⟩ := hline.unique hline'
      exact hno _ _ hh

end

/-- **Acceptance is the grammar, but for bare lines.**  For every string in a buffer, one call on
a fresh context returns, and does what the grammar says exactly if no bare line stands where the
empty line should.  The condition is on the bytes alone. -/
theorem acceptance (t : Int) {b : Buffer} (h : b.Wf) :
    ∃ ok c b', HttpContext.parseRequest t {} b = some (.ok (ok, c, b')) ∧
      (Exact b.contents ok c b'.contents ↔ ¬ BareLine b.contents) := by
  obtain ⟨ok, c, b', hparse, -, hall, -⟩ :=
    HttpContext.parseRequest_spec (t := t) Buffer.readable_wf h HttpContext.ready_new
  exact ⟨ok, c, b', hparse, exact_iff t hall⟩

/-- `GET / HTTP/1.1`, and the end of the line. -/
def getLine : List Byte :=
  ascii ['G', 'E', 'T', ' ', '/', ' ', 'H', 'T', 'T', 'P', '/', '1', '.', '1', '\r', '\n']

theorem requestLine_get : RequestLine (getLine.take 14) :=
  ⟨ascii ['G', 'E', 'T'], by decide, ascii ['/'], by decide,
    ascii ['H', 'T', 'T', 'P', '/', '1', '.', '1'], by decide, by decide⟩

theorem acceptance_get : ∃ b : Buffer, b.Wf ∧ b.contents = getLine ++ [13, 10] ∧
    ∃ ok c b', HttpContext.parseRequest 0 {} b = some (.ok (ok, c, b')) ∧
      Exact b.contents ok c b'.contents ∧ c.gotAll = true := by
  have hfits : Buffer.new.writeIndex + (getLine ++ [13, 10]).length < 2 ^ 63 := by decide
  obtain ⟨b, -, hwf, hc⟩ := Buffer.append_spec (Buffer.new_wf Buffer.initSize) hfits
  rw [Buffer.new_contents, List.nil_append] at hc
  have hline : Line (getLine ++ [13, 10]) (getLine.take 14) [13, 10] := ⟨by decide, by decide⟩
  have hlast : Headers [13, 10] [] [] := .last ⟨by decide, by decide⟩ (by decide)
  have hrequest : Head (getLine ++ [13, 10]) [] [] := ⟨_, _, hline, requestLine_get, hlast⟩
  obtain ⟨ok, c, b', hparse, hiff⟩ := acceptance 0 hwf
  have hexact : Exact b.contents ok c b'.contents := by
    refine hiff.mpr ?_
    rw [hc]
    rintro ⟨last, rest, hh, hne⟩
    exact hne (hh.unique hrequest).1
  refine ⟨b, hwf, hc, ok, c, b', hparse, hexact, hexact.complete.mpr ⟨[], ?_⟩⟩
  rw [hc]
  exact hrequest

/-- `GET / HTTP/1.1`, then a line `x`: the request is complete, and what follows would be the next one. -/
theorem bareLine_accepted : ∃ b : Buffer, b.contents = getLine ++ [120, 13, 10] ∧
    ∃ c b', HttpContext.parseRequest 0 {} b = some (.ok (true, c, b')) ∧ c.gotAll = true ∧
      b'.contents = [] ∧ ¬ Exact b.contents true c b'.contents := by
  have hfits : Buffer.new.writeIndex + (getLine ++ [120, 13, 10]).length < 2 ^ 63 := by decide
  obtain ⟨b, -, hwf, hc⟩ := Buffer.append_spec (Buffer.new_wf Buffer.initSize) hfits
  rw [Buffer.new_contents, List.nil_append] at hc
  have hline : Line (getLine ++ [120, 13, 10]) (getLine.take 14) [120, 13, 10] := ⟨by decide, by decide⟩
  have hlast : Headers [120, 13, 10] [120] [] := .last ⟨by decide, by decide⟩ (by decide)
  have hbare : Head b.contents [120] [] := hc ▸ ⟨_, _, hline, requestLine_get, hlast⟩
  obtain ⟨ok, c, b', hparse, -, hall, -⟩ :=
    HttpContext.parseRequest_spec (t := 0) Buffer.readable_wf hwf HttpContext.ready_new
  obtain ⟨c', hhead, hgot⟩ := HttpContext.consume_head (t := 0) hbare
  rw [hall] at hhead
  obtain ⟨⟨rfl, rfl⟩, hleft⟩ : (ok = true ∧ c = c') ∧ b'.contents = [] := by
    simpa only [Prod.mk.injEq] using hhead
  refine ⟨b, hc, c, b', hparse, hgot, hleft, fun hexact => ?_⟩
  have hfalse := hexact.bare [120] [] hbare (by decide)
  rw [hgot] at hfalse
  cases hfalse

end Suduo.Http
