/-
# `HttpContext`: one request, as its bytes arrive

`bench/http/HttpContext.cpp`, `HttpContext.h` and `HttpRequest.h`.  `parseRequest` works line by
line on the input buffer: the request line, then headers, up to a line without a colon.  Its
progress is spread over three places: the state, the request built so far, and the bytes it has left
in the buffer.

On what can be READ from the buffer it is a consumer (`parser`), and `parseRequest_spec` says that
the loop over the buffer is that consumer.  What follows for streams that arrive in pieces is then
the library's: `incremental`.
-/
import Mathlib.Data.List.Lex
import Suduo.Lib.Incremental
import Suduo.Lib.SortedMap
import Suduo.Net.BufferInput

namespace Suduo.Http

open Lib

/-! ## 1. `HttpRequest` -/

inductive Error
  | buffer (e : Buffer.Error)
  | assertion
  deriving DecidableEq, Repr

/-- Bytes in a `std::string` compare as unsigned. -/
instance : LinearOrder Byte where
  le_refl := UInt8.le_refl
  le_trans _ _ _ := UInt8.le_trans
  le_antisymm _ _ := UInt8.le_antisymm
  le_total := UInt8.le_total
  lt_iff_le_not_ge a b := by
    rw [UInt8.lt_iff_toNat_lt, UInt8.le_iff_toNat_le, UInt8.le_iff_toNat_le]
    omega
  toDecidableLE := inferInstance

/-- A string literal. -/
def ascii (cs : List Char) : List Byte := cs.map fun c => .ofNat c.toNat

inductive Method
  | kInvalid | kGet | kPost | kHead | kPut | kDelete
  deriving DecidableEq, Repr

inductive Version
  | kUnknown | kHttp10 | kHttp11
  deriving DecidableEq, Repr

/-- `HttpRequest`.  Times are microseconds since the epoch; 0 is the invalid time.  The one
assertion in the class is that of `setMethod`: there is no method yet. -/
structure HttpRequest where
  method : Method := .kInvalid
  version : Version := .kUnknown
  path : List Byte := []
  query : List Byte := []
  receiveTime : Int := 0
  headers : SortedMap (List Byte) (List Byte) := .empty

namespace HttpRequest

/-- The method a name stands for. -/
def methodOf (m : List Byte) : Method :=
  if m = ascii ['G', 'E', 'T'] then .kGet
  else if m = ascii ['P', 'O', 'S', 'T'] then .kPost
  else if m = ascii ['H', 'E', 'A', 'D'] then .kHead
  else if m = ascii ['P', 'U', 'T'] then .kPut
  else if m = ascii ['D', 'E', 'L', 'E', 'T', 'E'] then .kDelete
  else .kInvalid

def setMethod (r : HttpRequest) (m : List Byte) : Except Error (Bool × HttpRequest) :=
  if r.method = .kInvalid then .ok (methodOf m ≠ .kInvalid, { r with method := methodOf m })
  else .error .assertion

/-- `isspace`, in the C locale. -/
def isspace (c : Byte) : Bool := c = 32 ∨ 9 ≤ c ∧ c ≤ 13

/-- `addHeader`, for a line and the offset of its colon: the value is what follows, without the space around
it. -/
def addHeader (r : HttpRequest) (line : List Byte) (colon : Nat) : HttpRequest :=
  let field := line.take colon
  let value := (line.drop (colon + 1)).dropWhile isspace
  let value := (value.reverse.dropWhile isspace).reverse
  { r with headers := (r.headers.insert field []).set field value }

def getHeader (r : HttpRequest) (field : List Byte) : List Byte :=
  (r.headers.get? field).getD []

end HttpRequest

/-! ## 2. `HttpContext` -/

inductive ParseState
  | kExpectRequestLine | kExpectHeaders | kExpectBody | kGotAll
  deriving DecidableEq, Repr

structure HttpContext where
  state : ParseState := .kExpectRequestLine
  request : HttpRequest := {}

namespace HttpContext

def gotAll (c : HttpContext) : Bool := c.state = .kGotAll

def reset (_ : HttpContext) : HttpContext := {}

def space : Byte := 32

def colon : Byte := 58

def questionMark : Byte := 63

/-- The rest of `processRequestLine`, from the version on. -/
def processVersion (r : HttpRequest) (version : List Byte) : Bool × HttpRequest :=
  if version.length = 8 ∧ version.take 7 = ascii ['H', 'T', 'T', 'P', '/', '1', '.'] then
    if version.drop 7 = ascii ['1'] then (true, { r with version := .kHttp11 })
    else if version.drop 7 = ascii ['0'] then (true, { r with version := .kHttp10 })
    else (false, r)
  else (false, r)

/-- `processRequestLine`.  `std::find` is `idxOf`: the length when nothing is found.  The method
is set as soon as the first word is there, also where the line turns out to be no request line,
and it stays behind. -/
def processRequestLine (r : HttpRequest) (line : List Byte) : Except Error (Bool × HttpRequest) :=
  let sp := line.idxOf space
  if sp ≠ line.length then do
    let (known, r) ← r.setMethod (line.take sp)
    let start := line.drop (sp + 1)
    let sp := start.idxOf space
    if known ∧ sp ≠ start.length then
      let target := start.take sp
      let question := target.idxOf questionMark
      let r :=
        if question ≠ target.length then
          { r with path := target.take question, query := target.drop question }
        else { r with path := target }
      return processVersion r (start.drop (sp + 1))
    else return (false, r)
  else return (false, r)

/-- The bytes from `peek()` to the pointer `crlf`. -/
def peekLine (buf : Buffer) (crlf : Nat) : Except Error (List Byte) :=
  (Buffer.load buf.buffer buf.readIndex (buf.readIndex + crlf)).mapError .buffer

/-- One round of the loop in `parseRequest`.  It leaves with `ok`; in the two last states
`hasMore` stays set and nothing changes. -/
def parseRound (receiveTime : Int) (s : HttpContext × Buffer) :
    Except Error ((HttpContext × Buffer) ⊕ (Bool × HttpContext × Buffer)) :=
  let (c, buf) := s
  match c.state with
  | .kExpectRequestLine =>
    match buf.findCRLF with
    | some crlf => do
      let line ← peekLine buf crlf
      let (ok, request) ← processRequestLine c.request line
      if ok then
        let request := { request with receiveTime }
        return .inl (⟨.kExpectHeaders, request⟩, buf.retrieveUntil (buf.readIndex + (crlf + 2)))
      else return .inr (false, { c with request }, buf)
    | none => return .inr (true, c, buf)
  | .kExpectHeaders =>
    match buf.findCRLF with
    | some crlf => do
      let line ← peekLine buf crlf
      let found := line.idxOf colon
      if found ≠ line.length then
        let request := c.request.addHeader line found
        return .inl ({ c with request }, buf.retrieveUntil (buf.readIndex + (crlf + 2)))
      else
        -- whatever the line is
        return .inr (true, { c with state := .kGotAll }, buf.retrieveUntil (buf.readIndex + (crlf + 2)))
    | none => return .inr (true, c, buf)
  | .kExpectBody | .kGotAll => return .inl (c, buf)

/-- `parseRequest`.  Every round but the last takes a line, so this fuel is enough unless the
state is one of the two last (`parseRequest_spec`); there the loop of the code does not end
either. -/
def parseRequest (receiveTime : Int) (c : HttpContext) (buf : Buffer) :
    ExceptT Error Option (Bool × HttpContext × Buffer) :=
  loop (parseRound receiveTime) (buf.readableBytes + 1) (c, buf)

/-! ## 3. The parser as a consumer -/

/-- What `parseRequest` has come to: whether it is still `ok`, and the context. -/
abbrev Progress := Bool × HttpContext

/-- What is done with a line, and whether it is taken. -/
def onLine (receiveTime : Int) : Progress → List Byte → Option (Progress × Bool)
  | (false, _), _ => none
  | (true, c), line =>
    match c.state with
    | .kExpectRequestLine =>
      match processRequestLine c.request line with
      | .ok (true, request) => some ((true, ⟨.kExpectHeaders, { request with receiveTime }⟩), true)
      | .ok (false, request) => some ((false, { c with request }), false)
      | .error _ => none
    | .kExpectHeaders =>
      let found := line.idxOf colon
      if found ≠ line.length then
        some ((true, { c with request := c.request.addHeader line found }), true)
      else some ((true, { c with state := .kGotAll }), true)
    | .kExpectBody | .kGotAll => none

def step (receiveTime : Int) (p : Progress) (xs : List Byte) : Option (Progress × Nat) := do
  let crlf ← Buffer.searchCRLF xs
  let (p, taken) ← onLine receiveTime p (xs.take crlf)
  return (p, if taken then crlf + 2 else 0)

variable {t : Int} {p p' : Progress} {c : HttpContext} {xs line : List Byte} {k : Nat}

theorem step_eq_some : step t p xs = some (p', k) ↔ ∃ crlf taken, Buffer.searchCRLF xs = some crlf ∧
    onLine t p (xs.take crlf) = some (p', taken) ∧ k = if taken then crlf + 2 else 0 := by
  unfold step
  simp only [Option.bind_eq_bind, Option.bind_eq_some_iff, Option.pure_def, Option.some.injEq,
    Prod.mk.injEq]
  constructor
  · rintro ⟨crlf, hcrlf, ⟨q, taken⟩, hline, rfl, rfl⟩
    exact ⟨crlf, taken, hcrlf, hline, rfl⟩
  · rintro ⟨crlf, taken, hcrlf, hline, rfl⟩
    exact ⟨crlf, hcrlf, (p', taken), hline, rfl, rfl⟩

/-- The caller has its answer: an error, or the request. -/
def Done (p : Progress) : Prop := p.1 = false ∨ p.2.state = .kGotAll

/-- Then no line is looked at any more: the request is refused, or complete. -/
theorem step_done (h : Done p) (xs : List Byte) : step t p xs = none := by
  rw [Option.eq_none_iff_forall_ne_some]
  rintro ⟨p', k⟩ hst
  obtain ⟨crlf, taken, -, hline, -⟩ := step_eq_some.mp hst
  obtain ⟨ok, c⟩ := p
  cases ok with
  | false => cases hline
  | true =>
    have hstate : c.state = .kGotAll := h.resolve_left Bool.noConfusion
    simp only [onLine, hstate] at hline
    cases hline

/-- A line that is left where it is has failed.  The code retrieves a line when it has been
parsed. -/
theorem onLine_left (h : onLine t p line = some (p', false)) : Done p' := by
  obtain ⟨ok, c⟩ := p
  cases ok with
  | false => cases h
  | true =>
    unfold onLine at h
    dsimp only at h
    split at h
    · split at h
      · cases h
      · cases h
        exact .inl rfl
      · cases h
    · split at h <;> cases h
    · cases h
    · cases h

/-- **The parser**: its progress, line by line.  That it is a consumer says that what it makes of
a line does not depend on the bytes behind it, and that it takes what it has looked at. -/
def parser (t : Int) : Consumer Progress Byte where
  step := step t
  stable := by
    intro p p' k xs ys h
    obtain ⟨crlf, taken, hcrlf, hline, rfl⟩ := step_eq_some.mp h
    refine step_eq_some.mpr ⟨crlf, taken, Buffer.searchCRLF_append hcrlf ys, ?_, rfl⟩
    have hlen := Buffer.searchCRLF_lt hcrlf
    rw [List.take_append_of_le_length (by omega)]
    exact hline
  takes := by
    intro p p' k xs h
    obtain ⟨crlf, taken, hcrlf, -, rfl⟩ := step_eq_some.mp h
    have hlen := Buffer.searchCRLF_lt hcrlf
    split <;> omega
  progress := by
    intro p p' k xs h
    obtain ⟨crlf, taken, -, hline, rfl⟩ := step_eq_some.mp h
    cases taken with
    | true => exact .inl (Nat.succ_pos _)
    | false => exact .inr (step_done (onLine_left hline))

/-! ## 4. The loop over the buffer -/

/-- A context on which `parseRequest` may be called: it ends, and no assertion fails.  A fresh
context is ready, and a call that has neither failed nor completed a request leaves one that is. -/
def Ready (c : HttpContext) : Prop :=
  c.state = .kExpectRequestLine ∧ c.request.method = .kInvalid ∨ c.state = .kExpectHeaders

theorem ready_new : Ready {} := .inl ⟨rfl, rfl⟩

/-- On a request without a method no assertion of `processRequestLine` fails.  There is one, in
`setMethod`. -/
theorem processRequestLine_returns {r : HttpRequest} (h : r.method = .kInvalid) (line : List Byte) :
    ∃ ok r', processRequestLine r line = .ok (ok, r') := by
  unfold processRequestLine HttpRequest.setMethod
  dsimp only
  rw [if_pos h]
  split
  · rw [Buffer.ok_bind]
    dsimp only
    split
    · exact ⟨_, _, rfl⟩
    · exact ⟨_, _, rfl⟩
  · exact ⟨_, _, rfl⟩

variable {b : Buffer} {crlf : Nat}

theorem peekLine_eq (hb : b.Wf) (hcrlf : Buffer.searchCRLF b.contents = some crlf) :
    peekLine b crlf = .ok (b.contents.take crlf) := by
  have hlen := Buffer.searchCRLF_lt hcrlf
  rw [peekLine, Buffer.load_peek hb (by omega)]
  rfl

theorem Ready.state (h : Ready c) : c.state = .kExpectRequestLine ∨ c.state = .kExpectHeaders :=
  h.imp And.left id

theorem parseRound_waits (hc : c.state = .kExpectRequestLine ∨ c.state = .kExpectHeaders)
    (hcrlf : Buffer.searchCRLF b.contents = none) : parseRound t (c, b) = .ok (.inr (true, c, b)) := by
  unfold parseRound
  rcases hc with hstate | hstate
  · simp only [hstate, Buffer.findCRLF, hcrlf]
    rfl
  · simp only [hstate, Buffer.findCRLF, hcrlf]
    rfl

theorem parseRound_requestLine (hb : b.Wf) (hcrlf : Buffer.searchCRLF b.contents = some crlf)
    (hstate : c.state = .kExpectRequestLine) {ok : Bool} {request : HttpRequest}
    (hline : processRequestLine c.request (b.contents.take crlf) = .ok (ok, request)) :
    parseRound t (c, b) = .ok (if ok then
      .inl (⟨.kExpectHeaders, { request with receiveTime := t }⟩, b.retrieveUntil (b.readIndex + (crlf + 2)))
      else .inr (false, { c with request }, b)) := by
  unfold parseRound
  simp only [hstate, Buffer.findCRLF, hcrlf]
  rw [peekLine_eq hb hcrlf, Buffer.ok_bind, hline, Buffer.ok_bind]
  cases ok with
  | true => rfl
  | false => rfl

theorem parseRound_header (hb : b.Wf) (hcrlf : Buffer.searchCRLF b.contents = some crlf)
    (hstate : c.state = .kExpectHeaders) {line : List Byte} (hline : b.contents.take crlf = line) :
    parseRound t (c, b) = .ok (if line.idxOf colon ≠ line.length then
      .inl ({ c with request := c.request.addHeader line (line.idxOf colon) },
        b.retrieveUntil (b.readIndex + (crlf + 2)))
      else .inr (true, { c with state := .kGotAll }, b.retrieveUntil (b.readIndex + (crlf + 2)))) := by
  unfold parseRound
  simp only [hstate, Buffer.findCRLF, hcrlf]
  rw [peekLine_eq hb hcrlf, Buffer.ok_bind, hline]
  split
  · rfl
  · rfl

/-- **One round of the loop is one line of the parser**, on what can be read.  The states are
taken one by one; in each, the buffer has a line or has none. -/
theorem parseRound_spec {J : Buffer → Prop} (hJ : Buffer.Readable J) (hb : J b) (hc : Ready c) :
    (∃ c' b' k, parseRound t (c, b) = .ok (.inl (c', b')) ∧ Ready c' ∧ J b' ∧ 0 < k ∧
      (parser t).step (true, c) b.contents = some ((true, c'), k) ∧ b'.contents = b.contents.drop k) ∨
    ∃ ok c' b', parseRound t (c, b) = .ok (.inr (ok, c', b')) ∧ J b' ∧
      (parser t).consume (true, c) b.contents = ((ok, c'), b'.contents) ∧
      (ok = true ∧ Ready c' ∨ Done (ok, c')) := by
  have hwf := hJ.wf hb
  cases hcrlf : Buffer.searchCRLF b.contents with
  | none =>
    have hstep : (parser t).step (true, c) b.contents = none := by
      change step t (true, c) b.contents = none
      rw [step, hcrlf]
      rfl
    exact .inr ⟨true, c, b, parseRound_waits hc.state hcrlf, hb, Consumer.consume_of_none hstep, .inl ⟨rfl, hc⟩⟩
  | some crlf =>
    have hlen := Buffer.searchCRLF_lt hcrlf
    have hdrop := (hwf.retrieveUntil hlen).2
    have hkeep := hJ.keep hb hlen
    -- what the parser does with the line
    have hparser (p' : Progress) (taken : Bool)
        (hline : onLine t (true, c) (b.contents.take crlf) = some (p', taken)) :
        (parser t).step (true, c) b.contents = some (p', if taken then crlf + 2 else 0) :=
      step_eq_some.mpr ⟨crlf, taken, hcrlf, hline, rfl⟩
    have hlast (p' : Progress) (taken : Bool)
        (hline : onLine t (true, c) (b.contents.take crlf) = some (p', taken)) (hdone : Done p') :
        (parser t).consume (true, c) b.contents =
          (p', b.contents.drop (if taken then crlf + 2 else 0)) := by
      rw [Consumer.consume_of_some (hparser p' taken hline), Consumer.consume_of_none]
      exact step_done hdone _
    rcases hc with ⟨hstate, hmethod⟩ | hstate
    · obtain ⟨ok, request, hline⟩ := processRequestLine_returns hmethod (b.contents.take crlf)
      have hround := parseRound_requestLine (t := t) hwf hcrlf hstate hline
      cases ok with
      | true =>
        refine .inl ⟨_, _, crlf + 2, hround, .inr rfl, hkeep, Nat.succ_pos _, ?_, hdrop⟩
        refine hparser _ true ?_
        simp only [onLine, hstate, hline]
      | false =>
        refine .inr ⟨_, _, _, hround, hb, ?_, .inr (.inl rfl)⟩
        refine hlast (false, { c with request }) false ?_ (.inl rfl)
        simp only [onLine, hstate, hline]
    · have hround := parseRound_header (t := t) hwf hcrlf hstate rfl
      by_cases hfound : (b.contents.take crlf).idxOf colon ≠ (b.contents.take crlf).length
      · rw [if_pos hfound] at hround
        refine .inl ⟨_, _, crlf + 2, hround, .inr hstate, hkeep, Nat.succ_pos _, ?_, hdrop⟩
        refine hparser _ true ?_
        simp only [onLine, hstate, if_pos hfound]
      · rw [if_neg hfound] at hround
        refine .inr ⟨_, _, _, hround, hkeep, ?_, .inr (.inr rfl)⟩
        rw [hdrop]
        refine hlast (true, { c with state := .kGotAll }) true ?_ (.inr rfl)
        simp only [onLine, hstate, if_neg hfound]

/-- **`parseRequest` is the parser**, run until it waits.  By induction on what can be read: a
round takes a line of it, and the last one none.  What the state of the buffer is besides its
contents, the caller chooses (`J`). -/
theorem parseRequest_spec {J : Buffer → Prop} (hJ : Buffer.Readable J) (hb : J b) (hc : Ready c) :
    ∃ ok c' b', parseRequest t c b = some (.ok (ok, c', b')) ∧ J b' ∧
      (parser t).consume (true, c) b.contents = ((ok, c'), b'.contents) ∧
      (ok = true ∧ Ready c' ∨ Done (ok, c')) := by
  have hloop : ∃ r, parseRequest t c b = some (.ok r) ∧ J r.2.2 ∧
      (parser t).consume (true, c) b.contents = ((r.1, r.2.1), r.2.2.contents) ∧
      (r.1 = true ∧ Ready r.2.1 ∨ Done (r.1, r.2.1)) := by
    refine loop_spec (I := fun s => Ready s.1 ∧ J s.2) (m := fun s => s.2.contents.length)
      (P := fun s (r : Bool × HttpContext × Buffer) => J r.2.2 ∧
        (parser t).consume (true, s.1) s.2.contents = ((r.1, r.2.1), r.2.2.contents) ∧
        (r.1 = true ∧ Ready r.2.1 ∨ Done (r.1, r.2.1))) ?_ _ (c, b) ⟨hc, hb⟩ ?_
    · rintro ⟨c, b⟩ ⟨(hc : Ready c), (hb : J b)⟩
      rcases parseRound_spec (t := t) hJ hb hc with
        ⟨c', b', k, hround, hc', hb', hk, hstep, hdrop⟩ | ⟨ok, c', b', hround, hb', hall, hend⟩
      · refine .inl ⟨(c', b'), hround, ⟨hc', hb'⟩, ?_, ?_⟩
        · have htakes := (parser t).takes hstep
          change b'.contents.length < b.contents.length
          rw [hdrop, List.length_drop]
          omega
        · rintro r ⟨hr, hrest, hend⟩
          refine ⟨hr, ?_, hend⟩
          dsimp only at hrest ⊢
          rw [Consumer.consume_of_some hstep, ← hdrop]
          exact hrest
      · exact .inr ⟨(ok, c', b'), hround, hb', hall, hend⟩
    · change b.contents.length < b.readableBytes + 1
      rw [(hJ.wf hb).length_contents]
      exact Nat.lt_succ_self _
  obtain ⟨⟨ok, c', b'⟩, hr, hb', hall, hend⟩ := hloop
  exact ⟨ok, c', b', hr, hb', hall, hend⟩

end HttpContext

/-! ## 5. Segments -/

/-- A context, its input buffer, and what the last call of `parseRequest` returned.  A caller
that has been refused, or has its request, does not call again. -/
structure Parse where
  ok : Bool := true
  context : HttpContext := {}
  input : Buffer := Buffer.new

namespace Parse

/-- The caller has its answer. -/
def stopped (p : Parse) : Bool := !p.ok || p.context.gotAll

/-- A segment arrives: it is appended, and parsed unless the caller has its answer. -/
def receive (t : Int) (p : Parse) (seg : List Byte) : ExceptT Error Option Parse := do
  let input ← ExceptT.mk (some ((p.input.append seg).mapError .buffer))
  if p.stopped then return { p with input }
  else
    let (ok, context, input) ← p.context.parseRequest t input
    return ⟨ok, context, input⟩

def receiveAll (t : Int) (p : Parse) (segs : List (List Byte)) : ExceptT Error Option Parse :=
  segs.foldlM (receive t) p

/-- Where the parser is. -/
def progress (p : Parse) : HttpContext.Progress × List Byte := ((p.ok, p.context), p.input.contents)

/-- What holds between two segments, after `n` bytes: the buffer could hold them all, and the
context can be parsed on with, or is done. -/
structure Between (p : Parse) (n : Nat) : Prop where
  input : p.input.Input n
  ready : p.ok = true ∧ p.context.Ready ∨ HttpContext.Done (p.ok, p.context)

theorem between_new : Between {} 0 := ⟨Buffer.input_new, .inl ⟨rfl, HttpContext.ready_new⟩⟩

variable {t : Int} {p : Parse} {n : Nat}

theorem stopped_iff : p.stopped = true ↔ HttpContext.Done (p.ok, p.context) := by
  simp [stopped, HttpContext.Done, HttpContext.gotAll]

theorem stopped_of_ready (h : p.context.Ready) (hok : p.ok = true) : p.stopped = false := by
  rw [stopped, hok, HttpContext.gotAll]
  rcases h with ⟨h, -⟩ | h
  · rw [h]
    rfl
  · rw [h]
    rfl

/-- **One segment**: the parser goes on with it, from where it stopped. -/
theorem receive_spec (h : Between p n) (seg : List Byte)
    (hs : Buffer.preAppendSize + (n + seg.length) < 2 ^ 63) :
    ∃ p', receive t p seg = some (.ok p') ∧ Between p' (n + seg.length) ∧
      p'.progress = (HttpContext.parser t).consume p.progress.1 (p.progress.2 ++ seg) := by
  obtain ⟨b, hst, hin, hc⟩ := Buffer.input_append h.input hs
  have hreceive : receive t p seg = (if p.stopped then return { p with input := b }
      else do
        let (ok, context, input) ← p.context.parseRequest t b
        return ⟨ok, context, input⟩ : ExceptT Error Option Parse) := by
    rw [receive, hst]
    rfl
  rw [hreceive]
  rcases h.ready with ⟨hok, hready⟩ | hdone
  · rw [stopped_of_ready hready hok, if_neg Bool.noConfusion]
    obtain ⟨ok, c, b', hparse, hin', hall, hend⟩ :=
      HttpContext.parseRequest_spec (t := t) (Buffer.readable_input _) hin hready
    refine ⟨⟨ok, c, b'⟩, ?_, ⟨hin', hend⟩, ?_⟩
    · rw [hparse]
      rfl
    · change ((ok, c), b'.contents) = (HttpContext.parser t).consume (p.ok, p.context) (p.input.contents ++ seg)
      rw [← hc, hok, hall]
  · rw [stopped_iff.mpr hdone, if_pos rfl]
    refine ⟨_, rfl, ⟨hin, .inr hdone⟩, ?_⟩
    rw [Consumer.consume_of_none (HttpContext.step_done hdone _)]
    exact congrArg _ hc

/-- **Any number of segments.**  By induction on them; what they do to the parser is what
`Consumer.feed` does. -/
theorem receiveAll_spec (segs : List (List Byte)) : ∀ {p : Parse} {n : Nat}, Between p n →
    Buffer.preAppendSize + (n + segs.flatten.length) < 2 ^ 63 →
    ∃ p', receiveAll t p segs = some (.ok p') ∧
      p'.progress = (HttpContext.parser t).feed p.progress.1 p.progress.2 segs := by
  induction segs with
  | nil => exact fun {p _} _ _ => ⟨p, rfl, rfl⟩
  | cons seg segs ih =>
    intro p n h hs
    rw [List.flatten_cons, List.length_append] at hs
    obtain ⟨p₁, hst, h₁, hp₁⟩ := receive_spec (t := t) h seg (by omega)
    obtain ⟨p', hrun, hp'⟩ := ih h₁ (by omega)
    refine ⟨p', ?_, ?_⟩
    · rw [receiveAll, List.foldlM_cons, hst]
      exact hrun
    · rw [hp', hp₁]
      rfl

/-- A stream that was appended in one piece fits.  `append` fails if it does not, and later
segments take no more. -/
theorem fits_of_receive {s : List Byte} {q : Parse} (h : receive t {} s = some (.ok q)) :
    Buffer.preAppendSize + s.length < 2 ^ 63 := by
  cases hst : Buffer.new.append s with
  | error e =>
    rw [receive, hst] at h
    cases h
  | ok b =>
    obtain ⟨hin, hc⟩ := Buffer.input_append_ok Buffer.input_new hst
    have hlen := hin.wf.length_contents
    have hread := hin.wf.readable
    have hheader := hin.header
    have hle := hin.wf.le
    have hbound := hin.wf.bound
    have hsmall := hin.wf.small
    rw [hc, Buffer.new_contents, List.nil_append] at hlen
    omega

/-- **Incremental parsing equals one-shot parsing.**  A stream that is appended and parsed in one
piece, and the same stream cut in any way: the result, the context with its request and the bytes
left are the same.  The one piece is parsed whenever it fits a `Buffer`.  Both runs are runs of
the parser by `receiveAll_spec`, and a consumer does not depend on the cut. -/
theorem incremental (t : Int) (segs : List (List Byte)) :
    (Buffer.preAppendSize + segs.flatten.length < 2 ^ 63 → ∃ q, receive t {} segs.flatten = some (.ok q)) ∧
    ∀ q, receive t {} segs.flatten = some (.ok q) → ∃ p, receiveAll t {} segs = some (.ok p) ∧
      p.ok = q.ok ∧ p.context = q.context ∧ p.input.contents = q.input.contents := by
  have hone (hs : Buffer.preAppendSize + segs.flatten.length < 2 ^ 63) :=
    receive_spec (t := t) between_new segs.flatten (by omega)
  refine ⟨fun hs => ?_, fun q hq => ?_⟩
  · obtain ⟨q, hq, -⟩ := hone hs
    exact ⟨q, hq⟩
  · have hs := fits_of_receive hq
    obtain ⟨q', hq', -, hprog⟩ := hone hs
    rw [hq] at hq'
    cases hq'
    obtain ⟨p, hp, hfeed⟩ := receiveAll_spec (t := t) segs between_new (by omega)
    have hstart : (HttpContext.parser t).step (true, {}) Buffer.new.contents = none := by
      rw [Buffer.new_contents]
      rfl
    have heq : p.progress = q.progress := by
      rw [hprog, hfeed]
      exact Consumer.feed_eq segs hstart
    unfold progress at heq
    simp only [Prod.mk.injEq] at heq
    exact ⟨p, hp, heq.1.1, heq.1.2, heq.2⟩

end Parse

end Suduo.Http
