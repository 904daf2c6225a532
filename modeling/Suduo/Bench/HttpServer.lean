/-
# `HttpServer`: one connection, request after request

`HttpServer::onMessage` and `onRequest` of `bench/http/HttpServer.cpp`.  A segment is appended to
the input buffer of the connection and `onMessage` is called; a complete request goes to
`httpCallback_`, and the context starts again with what is left in the buffer.

`onMessage` looks for ONE request.  If a segment brings the ends of two, the second waits for
another segment, although all of it is there.  So how many requests a stream yields depends on how
it is cut, and `pipelining` says exactly how: the segments that end at or behind a request must be
enough for it and all requests after it.
-/
import Mathlib.Data.List.Forall2
import Suduo.Bench.HttpGrammar

namespace Suduo.Http

open Lib

/-! ## 1. The code -/

/-- What the server does about a connection, in the order in which it does it: the calls of
`onRequest` and the two that `onMessage` makes when the parser refuses. -/
inductive Action
  /-- `httpCallback_(request, &response)`. -/
  | request (request : HttpRequest)
  /-- `conn->send` of the response. -/
  | response
  /-- `conn->send("HTTP/1.1 400 Bad Request\r\n\r\n")`. -/
  | badRequest
  | shutdown

/-- A connection of the server: its context, its input buffer, and what was done so far.  The
actions are only added to, so that they are the whole history of the connection. -/
structure Conn where
  context : HttpContext := {}
  input : Buffer := Buffer.new
  actions : List Action := []

namespace Conn

/-- `close`, as `onRequest` finds it in the request. -/
def closes (req : HttpRequest) : Bool :=
  let connection := req.getHeader (ascii ['C', 'o', 'n', 'n', 'e', 'c', 't', 'i', 'o', 'n'])
  connection = ascii ['c', 'l', 'o', 's', 'e'] ∨
    req.version = .kHttp10 ∧ connection ≠ ascii ['K', 'e', 'e', 'p', '-', 'A', 'l', 'i', 'v', 'e']

/-- `onRequest`.  `callback` is what `httpCallback_` makes of `closeConnection()`. -/
def onRequest (callback : HttpRequest → Bool → Bool) (req : HttpRequest) : List Action :=
  [.request req, .response] ++ if callback req (closes req) then [.shutdown] else []

def onMessage (callback : HttpRequest → Bool → Bool) (receiveTime : Int) (s : Conn) :
    ExceptT Error Option Conn := do
  let (ok, context, input) ← s.context.parseRequest receiveTime s.input
  let actions := s.actions ++ if ok then [] else [.badRequest, .shutdown]
  if context.gotAll then
    return { context := context.reset, input, actions := actions ++ onRequest callback context.request }
  else return { context, input, actions }

/-- A segment arrives: `handle_read` appends it to the input buffer and calls `onMessage`, once
and not once for each request that is complete. -/
def receive (callback : HttpRequest → Bool → Bool) (s : Conn) (arrival : Int × List Byte) :
    ExceptT Error Option Conn := do
  let input ← ExceptT.mk (some ((s.input.append arrival.2).mapError .buffer))
  onMessage callback arrival.1 { s with input }

def receiveAll (callback : HttpRequest → Bool → Bool) (s : Conn) (arrivals : List (Int × List Byte)) :
    ExceptT Error Option Conn := arrivals.foldlM (receive callback) s

end Conn

/-- What a request says, apart from when it came.  The time of arrival is the time of the segment
that completed it, so two ways of cutting a stream cannot agree on it. -/
def HttpRequest.fields (r : HttpRequest) :
    Method × List Byte × List Byte × Version × SortedMap (List Byte) (List Byte) :=
  (r.method, r.path, r.query, r.version, r.headers)

/-- The requests passed to `httpCallback_`. -/
def Conn.served (s : Conn) :
    List (Method × List Byte × List Byte × Version × SortedMap (List Byte) (List Byte)) :=
  s.actions.filterMap fun
    | .request r => some r.fields
    | _ => none

/-- A well-formed request, as `HttpContext` accepts it: parsed on its own it is complete, and
nothing is left.  That every request of the grammar is one is `wellFormed_of_request`. -/
def WellFormed (bytes : List Byte) (request : HttpRequest) : Prop :=
  ∃ q, Parse.receive 0 {} bytes = some (.ok q) ∧ q.ok = true ∧ q.context.gotAll = true ∧
    q.context.request = request ∧ q.input.contents = []

/-! ## 2. How many requests are served -/

/-- How many of the segments, the first of which begins behind `before` bytes, end at `e` or
behind it. -/
def cutsFrom (e : Nat) : Nat → List (List Byte) → Nat
  | _, [] => 0
  | before, seg :: segs =>
    (if e ≤ before + seg.length then 1 else 0) + cutsFrom e (before + seg.length) segs

/-- **Enough segments**: for each request, as many segments end at its last byte or behind it as
there are requests from it to the last.  A segment lets one request through, so this many are
needed; `servedCount_eq_iff` says that they suffice. -/
def EnoughCuts (requests : List (List Byte)) (before : Nat) (segs : List (List Byte)) : Prop :=
  ∀ k < requests.length,
    requests.length - k ≤ cutsFrom (requests.take (k + 1)).flatten.length before segs

instance (requests : List (List Byte)) (before : Nat) (segs : List (List Byte)) :
    Decidable (EnoughCuts requests before segs) :=
  inferInstanceAs (Decidable (∀ k < requests.length,
    requests.length - k ≤ cutsFrom (requests.take (k + 1)).flatten.length before segs))

/-- The number of requests served when `before` bytes of the first are there: each segment that
reaches the end of the request that is due serves that one, and no other, whatever else it
brings. -/
def servedCount : List (List Byte) → Nat → List (List Byte) → Nat
  | _, _, [] => 0
  | [], _, _ :: _ => 0
  | r :: requests, before, seg :: segs =>
    if r.length ≤ before + seg.length then servedCount requests (before + seg.length - r.length) segs + 1
    else servedCount (r :: requests) (before + seg.length) segs

theorem cutsFrom_le (e : Nat) (segs : List (List Byte)) : ∀ before, cutsFrom e before segs ≤ segs.length := by
  induction segs with
  | nil => exact fun _ => Nat.le_refl _
  | cons seg segs ih =>
    intro before
    have hrest := ih (before + seg.length)
    rw [cutsFrom, List.length_cons]
    split <;> omega

/-- Behind `e` all segments count, since each of them ends later. -/
theorem cutsFrom_eq {e : Nat} (segs : List (List Byte)) : ∀ {before : Nat}, e ≤ before →
    cutsFrom e before segs = segs.length := by
  induction segs with
  | nil => exact fun _ => rfl
  | cons seg segs ih =>
    intro before h
    rw [cutsFrom, if_pos (by omega), ih (by omega), List.length_cons, Nat.add_comm]

/-- Positions may be counted from anywhere, so what has been served can be taken off the front of
the stream. -/
theorem cutsFrom_shift {e d : Nat} (segs : List (List Byte)) : ∀ {before : Nat}, d ≤ before →
    cutsFrom (d + e) before segs = cutsFrom e (before - d) segs := by
  induction segs with
  | nil => exact fun _ => rfl
  | cons seg segs ih =>
    intro before h
    have hsub : before - d + seg.length = before + seg.length - d := by omega
    have hiff : d + e ≤ before + seg.length ↔ e ≤ before + seg.length - d := by omega
    rw [cutsFrom, cutsFrom, ih (by omega), hsub]
    simp only [hiff]

/-- The end of a request of the stream, counted from the beginning of the first one and not from
the end of it. -/
theorem length_take_succ (r : List Byte) (requests : List (List Byte)) (k : Nat) :
    ((r :: requests).take (k + 1)).flatten.length = r.length + (requests.take k).flatten.length := by
  rw [List.take_succ_cons, List.flatten_cons, List.length_append]

/-- A segment that ends no request counts for none: every request ends behind it. -/
theorem enoughCuts_before {r seg : List Byte} {requests segs : List (List Byte)} {before : Nat}
    (h : ¬ r.length ≤ before + seg.length) :
    EnoughCuts (r :: requests) before (seg :: segs) ↔
      EnoughCuts (r :: requests) (before + seg.length) segs := by
  unfold EnoughCuts
  refine forall₂_congr fun k _ => ?_
  rw [cutsFrom, if_neg, Nat.zero_add]
  rw [length_take_succ]
  omega

/-- A segment that ends the first request is used up by it, and the others need the rest of the
segments.  For a request that the segment has reached as well, the condition on the first one
gives the missing segment. -/
theorem enoughCuts_served {r seg : List Byte} {requests segs : List (List Byte)} {before : Nat}
    (h : r.length ≤ before + seg.length) :
    EnoughCuts (r :: requests) before (seg :: segs) ↔
      EnoughCuts requests (before + seg.length - r.length) segs := by
  have hend (k : Nat) : cutsFrom ((r :: requests).take (k + 1)).flatten.length (before + seg.length) segs =
      cutsFrom (requests.take k).flatten.length (before + seg.length - r.length) segs := by
    rw [length_take_succ, cutsFrom_shift segs h]
  constructor
  · intro hall k hk
    have hfirst := hall 0 (Nat.succ_pos _)
    have hnext := hall (k + 1) (Nat.succ_lt_succ hk)
    have hle := cutsFrom_le ((r :: requests).take (0 + 1)).flatten.length segs (before + seg.length)
    rw [cutsFrom, List.length_cons] at hfirst hnext
    rw [hend] at hnext
    -- if the segment reaches behind request `k` too, then so do all after it
    by_cases hreach : ((r :: requests).take (k + 1 + 1)).flatten.length ≤ before + seg.length
    · have hbehind : (requests.take (k + 1)).flatten.length ≤ before + seg.length - r.length := by
        rw [length_take_succ] at hreach
        omega
      rw [cutsFrom_eq segs hbehind]
      split at hfirst <;> omega
    · rw [if_neg hreach] at hnext
      omega
  · intro hall k hk
    rw [cutsFrom, hend, List.length_cons]
    cases k with
    | zero =>
      have hreach : ((r :: requests).take (0 + 1)).flatten.length ≤ before + seg.length := by
        rw [length_take_succ]
        simpa using h
      have hnone : (requests.take 0).flatten.length ≤ before + seg.length - r.length := Nat.zero_le _
      rw [if_pos hreach, cutsFrom_eq segs hnone]
      cases requests with
      | nil => simp only [List.length_nil]; omega
      | cons r' requests =>
        have hrest := hall 0 (Nat.succ_pos _)
        have hle := cutsFrom_le ((r' :: requests).take (0 + 1)).flatten.length segs
          (before + seg.length - r.length)
        omega
    | succ k =>
      have hrest := hall k (Nat.lt_of_succ_lt_succ hk)
      omega

/-- **All are served exactly if there are enough segments.**  By induction over the segments: one
that ends the request due takes it off the list, one that does not leaves the list alone, and
`enoughCuts_served` and `enoughCuts_before` say that the condition moves along. -/
theorem servedCount_eq_iff (segs : List (List Byte)) : ∀ (requests : List (List Byte)) (before : Nat),
    servedCount requests before segs = requests.length ↔ EnoughCuts requests before segs := by
  induction segs with
  | nil =>
    intro requests before
    constructor
    · intro h k hk
      change 0 = requests.length at h
      omega
    · intro h
      change 0 = requests.length
      by_contra hne
      have hno := h 0 (by omega)
      change requests.length - 0 ≤ 0 at hno
      omega
  | cons seg segs ih =>
    intro requests before
    cases requests with
    | nil => exact ⟨fun _ k hk => absurd hk (Nat.not_lt_zero _), fun _ => rfl⟩
    | cons r requests =>
      rw [servedCount, List.length_cons]
      by_cases h : r.length ≤ before + seg.length
      · rw [if_pos h, enoughCuts_served h, ← ih, Nat.succ_inj]
      · rw [if_neg h, enoughCuts_before h, ← ih, List.length_cons]

theorem servedCount_le (segs : List (List Byte)) : ∀ (requests : List (List Byte)) (before : Nat),
    servedCount requests before segs ≤ requests.length := by
  induction segs with
  | nil => exact fun _ _ => Nat.zero_le _
  | cons seg segs ih =>
    intro requests before
    cases requests with
    | nil => exact Nat.le_refl _
    | cons r requests =>
      rw [servedCount]
      split
      · exact Nat.succ_le_succ (ih _ _)
      · exact ih _ _

/-! ## 3. The time of arrival -/

/-- A request without its time. -/
def HttpRequest.timeless (r : HttpRequest) : HttpRequest := { r with receiveTime := 0 }

namespace HttpContext

def timeless : Progress → Progress
  | (ok, c) => (ok, { c with request := c.request.timeless })

theorem processVersion_timeless {r r' : HttpRequest} (h : r' = r.timeless) (version : List Byte) :
    processVersion r' version = ((processVersion r version).1, (processVersion r version).2.timeless) := by
  subst h
  unfold processVersion
  repeat' split
  all_goals rfl

theorem setMethod_timeless (r : HttpRequest) (m : List Byte) :
    r.timeless.setMethod m = (r.setMethod m).map fun q => (q.1, q.2.timeless) := by
  unfold HttpRequest.setMethod
  by_cases h : r.method = Method.kInvalid
  · rw [if_pos h, if_pos (show r.timeless.method = Method.kInvalid from h)]
    rfl
  · rw [if_neg h, if_neg (show ¬ r.timeless.method = Method.kInvalid from h)]
    rfl

theorem processRequestLine_timeless (r : HttpRequest) (line : List Byte) :
    processRequestLine r.timeless line =
      (processRequestLine r line).map fun q => (q.1, q.2.timeless) := by
  unfold processRequestLine
  dsimp only
  rw [setMethod_timeless]
  split
  · cases r.setMethod (line.take (line.idxOf space)) with
    | error e => rfl
    | ok q =>
      obtain ⟨known, r'⟩ := q
      simp only [Except.map, Buffer.ok_bind]
      split
      · split
        · exact congrArg Except.ok (processVersion_timeless (by rfl) _)
        · exact congrArg Except.ok (processVersion_timeless (by rfl) _)
      · rfl
  · rfl

theorem onLine_timeless (t : Int) (p : Progress) (line : List Byte) :
    onLine 0 (timeless p) line = (onLine t p line).map fun q => (timeless q.1, q.2) := by
  obtain ⟨ok, c⟩ := p
  cases ok with
  | false => rfl
  | true =>
    simp only [timeless, onLine]
    cases c.state with
    | kExpectRequestLine =>
      dsimp only
      rw [processRequestLine_timeless]
      cases processRequestLine c.request line with
      | error e => rfl
      | ok q =>
        obtain ⟨ok, request⟩ := q
        cases ok <;> rfl
    | kExpectHeaders =>
      dsimp only
      split <;> rfl
    | kExpectBody => rfl
    | kGotAll => rfl

/-- **The parser does not look at the time**: it only notes it in the request.  So a stream can
be parsed with all arrivals at time 0, and what comes of it differs in the time alone. -/
theorem consume_timeless (t : Int) (p : Progress) (xs : List Byte) :
    (parser 0).consume (timeless p) xs =
      (timeless ((parser t).consume p xs).1, ((parser t).consume p xs).2) := by
  have hstep (p : Progress) (xs : List Byte) :
      (parser 0).step (timeless p) xs = ((parser t).step p xs).map fun q => (timeless q.1, q.2) := by
    change step 0 (timeless p) xs = (step t p xs).map _
    unfold step
    cases Buffer.searchCRLF xs with
    | none => rfl
    | some crlf =>
      simp only [Option.bind_eq_bind, Option.bind_some, onLine_timeless t]
      cases onLine t p (xs.take crlf) <;> rfl
  induction p, xs using (parser t).consume_induct with
  | wait p xs hwait =>
    have hwait' : (parser 0).step (timeless p) xs = none := by
      rw [hstep, hwait]
      rfl
    rw [Consumer.consume_of_none hwait, Consumer.consume_of_none hwait']
  | go p xs p' k hgo ih =>
    have hgo' : (parser 0).step (timeless p) xs = some (timeless p', k) := by
      rw [hstep, hgo]
      rfl
    rw [Consumer.consume_of_some hgo, Consumer.consume_of_some hgo', ih]

/-- What the parser has decided it has decided for good: more input is left where it is. -/
theorem consume_done {t : Int} {p p' : Progress} {xs ys : List Byte} (h : (parser t).consume p xs = (p', ys))
    (hdone : Done p') (zs : List Byte) : (parser t).consume p (xs ++ zs) = (p', ys ++ zs) := by
  rw [Consumer.consume_append, h, Consumer.consume_of_none (step_done hdone _)]

end HttpContext

open HttpContext (parser timeless)

/-- Parsed on its own, a well-formed request is complete at its end.  This is `WellFormed` read
as a run of the incremental parser, without the buffer. -/
theorem WellFormed.consume {r : List Byte} {request : HttpRequest} (h : WellFormed r request) :
    ∃ c, (parser 0).consume (true, {}) r = ((true, c), []) ∧ c.gotAll = true ∧ c.request = request := by
  obtain ⟨q, hq, hok, hgot, hreq, hleft⟩ := h
  have hfits := Parse.fits_of_receive hq
  obtain ⟨q', hq', -, hprog⟩ := Parse.receive_spec (t := 0) Parse.between_new r (by omega)
  rw [hq] at hq'
  cases hq'
  refine ⟨q.context, ?_, hgot, hreq⟩
  rw [Parse.progress, hok, hleft] at hprog
  change _ = (parser 0).consume (true, {}) (Buffer.new.contents ++ r) at hprog
  rw [Buffer.new_contents, List.nil_append] at hprog
  exact hprog.symm

/-- Every request of the grammar is well-formed: the grammar's language is what the parser
accepts. -/
theorem wellFormed_of_request {r : List Byte} (h : Request r [])
    (hs : Buffer.preAppendSize + r.length < 2 ^ 63) : ∃ request, WellFormed r request := by
  obtain ⟨q, hq, -, hprog⟩ := Parse.receive_spec (t := 0) Parse.between_new r (by omega)
  obtain ⟨c, hall, hgot⟩ := HttpContext.consume_head (t := 0) h
  change ((q.ok, q.context), q.input.contents) =
    (parser 0).consume (true, {}) (Buffer.new.contents ++ r) at hprog
  rw [Buffer.new_contents, List.nil_append, hall] at hprog
  obtain ⟨⟨hok, hc⟩, hleft⟩ : (q.ok = true ∧ q.context = c) ∧ q.input.contents = [] := by
    simpa only [Prod.mk.injEq] using hprog
  exact ⟨c.request, q, hq, hok, hc ▸ hgot, hc ▸ rfl, hleft⟩

theorem gotAll_iff {c : HttpContext} : c.gotAll = true ↔ c.state = .kGotAll := by
  rw [HttpContext.gotAll, decide_eq_true_iff]

/-- Before its last byte a well-formed request is not complete, and nothing is wrong with it
either.  If the parser had decided on a beginning of it, it would leave the rest of the request
unread (`consume_done`), and then the whole would leave something, which it does not. -/
theorem WellFormed.consume_prefix {x z : List Byte} {request : HttpRequest} (h : WellFormed (x ++ z) request)
    (hz : z ≠ []) : ∃ c y, (parser 0).consume (true, {}) x = ((true, c), y) ∧ c.gotAll = false := by
  obtain ⟨c₁, hall, -⟩ := h.consume
  obtain ⟨⟨⟨ok, c⟩, y⟩, hx⟩ : ∃ q, (parser 0).consume (true, {}) x = q := ⟨_, rfl⟩
  have hnot : ¬ HttpContext.Done (ok, c) := by
    intro hdone
    rw [HttpContext.consume_done hx hdone z] at hall
    have hempty : y ++ z = [] := congrArg Prod.snd hall
    exact hz (List.append_eq_nil_iff.mp hempty).2
  have hok : ok = true := by
    cases ok with
    | false => exact absurd (.inl rfl) hnot
    | true => rfl
  subst hok
  refine ⟨c, y, hx, ?_⟩
  rw [Bool.eq_false_iff, Ne, gotAll_iff]
  exact fun hgot => hnot (.inr hgot)

/-! ## 4. One connection -/

namespace Conn

variable (callback : HttpRequest → Bool → Bool) {s : Conn} {n : Nat} {w seg : List Byte} {t : Int}

/-- Between two segments: `w` is what has come of the requests not yet served.  The parser has
seen a part of it and the rest is in the buffer, to which `n` bytes have been appended in all;
that it goes on from there as it would start with all of `w` is what lets a run forget how `w`
was cut. -/
structure Waiting (s : Conn) (n : Nat) (w : List Byte) : Prop where
  input : s.input.Input n
  ready : s.context.Ready
  same : (parser 0).consume (timeless (true, s.context)) s.input.contents = (parser 0).consume (true, {}) w

theorem waiting_new : Waiting {} 0 [] := by
  refine ⟨Buffer.input_new, HttpContext.ready_new, ?_⟩
  change (parser 0).consume (true, {}) Buffer.new.contents = _
  rw [Buffer.new_contents]

theorem served_flatMap_onRequest (passed : List HttpRequest) :
    (passed.flatMap (onRequest callback)).filterMap
      (fun | .request r => some r.fields | _ => none) = passed.map HttpRequest.fields := by
  induction passed with
  | nil => rfl
  | cons req passed ih =>
    have hone : (onRequest callback req).filterMap (fun | .request r => some r.fields | _ => none) =
        [req.fields] := by
      unfold onRequest
      split <;> rfl
    rw [List.flatMap_cons, List.filterMap_append, hone, ih]
    rfl

/-- **A call of `onMessage`**, when `seg` has been put into the buffer.  The parser comes to
where it comes on all of what waits, `c` and `y`, but for the time; what is done depends on that
alone.  A parser that is neither ready for more nor done does not occur. -/
theorem onMessage_spec (h : Waiting s n w) {b : Buffer} {k : Nat} (hin : b.Input k)
    (hcont : b.contents = s.input.contents ++ seg) {ok : Bool} {c : HttpContext} {y : List Byte}
    (hc : (parser 0).consume (true, {}) (w ++ seg) = ((ok, c), y)) :
    ∃ c' b', onMessage callback t { s with input := b } = some (.ok (if c'.gotAll then
        ⟨{}, b', s.actions ++ (if ok then [] else [.badRequest, .shutdown]) ++ onRequest callback c'.request⟩
        else ⟨c', b', s.actions ++ if ok then [] else [.badRequest, .shutdown]⟩)) ∧
      b'.Input k ∧ { c' with request := c'.request.timeless } = c ∧ b'.contents = y ∧
      (ok = true ∧ c'.Ready ∨ HttpContext.Done (ok, c')) := by
  obtain ⟨ok', c', b', hparse, hin', hall, hend⟩ :=
    HttpContext.parseRequest_spec (t := t) (Buffer.readable_input _) hin h.ready
  have hsame : (timeless (ok', c'), b'.contents) = ((ok, c), y) := by
    have htime := HttpContext.consume_timeless t (true, s.context) b.contents
    rw [hall, hcont, Consumer.consume_append, h.same, ← Consumer.consume_append, hc] at htime
    exact htime.symm
  obtain ⟨rfl, hctx, hleft⟩ :
      ok' = ok ∧ { c' with request := c'.request.timeless } = c ∧ b'.contents = y := by
    simpa only [timeless, Prod.mk.injEq, and_assoc] using hsame
  refine ⟨c', b', ?_, hin', hctx, hleft, hend⟩
  have hmessage : onMessage callback t { s with input := b } = (if c'.gotAll then
      return ⟨{}, b', s.actions ++ (if ok' then [] else [.badRequest, .shutdown]) ++
        onRequest callback c'.request⟩
      else return ⟨c', b', s.actions ++ if ok' then [] else [.badRequest, .shutdown]⟩ :
        ExceptT Error Option Conn) := by
    rw [onMessage, hparse]
    rfl
  rw [hmessage]
  split
  · rfl
  · rfl

/-- Where the parser has stopped for lack of input, going on with what it left is going on with
everything. -/
theorem waiting_of_parsed {c' : HttpContext} {b' : Buffer} {actions : List Action} (hin : b'.Input n)
    (hready : c'.Ready) {c : HttpContext} {y : List Byte}
    (hc : (parser 0).consume (true, {}) w = ((true, c), y))
    (hctx : { c' with request := c'.request.timeless } = c) (hleft : b'.contents = y) :
    Waiting ⟨c', b', actions⟩ n w := by
  refine ⟨hin, hready, ?_⟩
  change (parser 0).consume (true, { c' with request := c'.request.timeless }) b'.contents = _
  have hwait := Consumer.step_consume (m := parser 0) (true, {}) w
  rw [hc] at hwait
  rw [hctx, hleft, hc]
  exact Consumer.consume_of_none hwait

theorem receive_of_append {b : Buffer} (hst : s.input.append seg = .ok b) :
    receive callback s (t, seg) = onMessage callback t { s with input := b } := by
  have hmap : (Except.ok b : Except Buffer.Error Buffer).mapError Error.buffer = .ok b := rfl
  rw [receive, hst, hmap, ok_then]

/-- **One segment**: if it brings the end of the request that is due, this request is passed on
and what is behind it waits; if it does not, nothing is done.  Never are two requests passed on,
since `onMessage` calls `parseRequest` once. -/
theorem receive_spec (h : Waiting s n w) (hs : Buffer.preAppendSize + (n + seg.length) < 2 ^ 63)
    {c : HttpContext} {y : List Byte}
    (hc : (parser 0).consume (true, {}) (w ++ seg) = ((true, c), y)) :
    ∃ s', receive callback s (t, seg) = some (.ok s') ∧
      if c.gotAll then (∃ req : HttpRequest, req.timeless = c.request ∧
        s'.actions = s.actions ++ onRequest callback req) ∧ Waiting s' (n + seg.length) y
      else s'.actions = s.actions ∧ Waiting s' (n + seg.length) (w ++ seg) := by
  obtain ⟨b, hst, hin, hcont⟩ := Buffer.input_append h.input hs
  obtain ⟨c', b', hmessage, hin', rfl, rfl, hend⟩ := onMessage_spec callback (t := t) h hin hcont hc
  rw [receive_of_append callback hst, hmessage]
  change ∃ s', _ ∧ if c'.gotAll then _ else _
  by_cases hgot : c'.gotAll = true
  · simp only [if_pos hgot]
    refine ⟨_, rfl, ⟨c'.request, rfl, ?_⟩, hin', HttpContext.ready_new, ?_⟩
    · rw [if_true, List.append_nil]
    · rfl
  · simp only [if_neg hgot]
    have hready : c'.Ready := by
      rcases hend with ⟨-, hready⟩ | hdone | hstate
      · exact hready
      · cases hdone
      · exact absurd (gotAll_iff.mpr hstate) hgot
    refine ⟨_, rfl, ?_, waiting_of_parsed hin' hready hc rfl rfl⟩
    rw [if_true, List.append_nil]

/-! A segment ends the request that is due, or it ends none; `receive_spec` is used once for each of
the three ways this comes about, and a run is put together from them. -/

/-- When every request has been served nothing comes any more, and nothing is done about it. -/
theorem receive_idle (h : Waiting s n w) (hs : Buffer.preAppendSize + (n + seg.length) < 2 ^ 63)
    (hnone : w ++ seg = []) :
    ∃ s', receive callback s (t, seg) = some (.ok s') ∧ s'.actions = s.actions ∧
      Waiting s' (n + seg.length) (w ++ seg) := by
  have hstart : (parser 0).consume (true, {}) (w ++ seg) = ((true, {}), []) := by
    rw [hnone]
    rfl
  exact receive_spec callback h hs hstart

/-- The segment that brings the end of a request: that request is passed on, and what has come of the
next ones waits. -/
theorem receive_complete {r : List Byte} {request : HttpRequest} (hr : WellFormed r request)
    (h : Waiting s n w) (hs : Buffer.preAppendSize + (n + seg.length) < 2 ^ 63) {w' : List Byte}
    (hw : w ++ seg = r ++ w') :
    ∃ (s' : Conn) (req : HttpRequest), receive callback s (t, seg) = some (.ok s') ∧
      req.fields = request.fields ∧ s'.actions = s.actions ++ onRequest callback req ∧
      Waiting s' (n + seg.length) w' := by
  obtain ⟨c, hall, hgot, rfl⟩ := hr.consume
  have hdone : HttpContext.Done (true, c) := .inr (gotAll_iff.mp hgot)
  have hc : (parser 0).consume (true, {}) (w ++ seg) = ((true, c), w') := by
    rw [hw, HttpContext.consume_done hall hdone w', List.nil_append]
  obtain ⟨s', hst, hone⟩ := receive_spec callback (t := t) h hs hc
  rw [if_pos hgot] at hone
  obtain ⟨⟨req, hreq, hacts⟩, hwait⟩ := hone
  refine ⟨s', req, hst, ?_, hacts, hwait⟩
  rw [← hreq]
  rfl

/-- A segment that does not bring the end, the blank line missing or a part of it: it waits with the
rest of the request, and the connection does nothing. -/
theorem receive_partial {r z : List Byte} {request : HttpRequest} (hr : WellFormed r request)
    (h : Waiting s n w) (hs : Buffer.preAppendSize + (n + seg.length) < 2 ^ 63)
    (hw : w ++ seg ++ z = r) (hz : z ≠ []) :
    ∃ s', receive callback s (t, seg) = some (.ok s') ∧ s'.actions = s.actions ∧
      Waiting s' (n + seg.length) (w ++ seg) := by
  obtain ⟨c, y, hc, hgot⟩ := WellFormed.consume_prefix (hw ▸ hr) hz
  obtain ⟨s', hst, hone⟩ := receive_spec callback (t := t) h hs hc
  rw [hgot, if_neg Bool.noConfusion] at hone
  exact ⟨s', hst, hone⟩

/-- Of two cuts of one stream the later one begins with the earlier. -/
theorem reached_of_length_le {x later r rest : List Byte} (h : x ++ later = r ++ rest)
    (hlen : r.length ≤ x.length) :
    ∃ w', x = r ++ w' ∧ w' ++ later = rest ∧ w'.length = x.length - r.length := by
  obtain ⟨w', rfl⟩ : r <+: x :=
    List.prefix_of_prefix_length_le (List.prefix_append r rest) (h ▸ List.prefix_append x later) hlen
  rw [List.append_assoc] at h
  refine ⟨w', rfl, List.append_cancel_left h, ?_⟩
  rw [List.length_append, Nat.add_sub_cancel_left]

theorem short_of_length_lt {x later r rest : List Byte} (h : x ++ later = r ++ rest)
    (hlen : x.length < r.length) : ∃ z, x ++ z = r ∧ z ≠ [] := by
  obtain ⟨z, rfl⟩ : x <+: r :=
    List.prefix_of_prefix_length_le (h ▸ List.prefix_append x later) (List.prefix_append r rest)
      (Nat.le_of_lt hlen)
  refine ⟨z, rfl, ?_⟩
  rintro rfl
  rw [List.append_nil] at hlen
  exact Nat.lt_irrefl _ hlen

theorem receiveAll_of_receive {a : Int × List Byte} {s₁ : Conn} (h : receive callback s a = some (.ok s₁))
    (arrivals : List (Int × List Byte)) :
    receiveAll callback s (a :: arrivals) = receiveAll callback s₁ arrivals := by
  rw [receiveAll, List.foldlM_cons, h]
  rfl

/-- **A run**: the requests passed on are the first of the stream, one for each segment that ends one,
and nothing else is done.  The induction is over the segments.  What it carries is `Waiting`: before
each of them the bytes that have come and belong to no request passed on are `w`, and the parser is
where it would be after `w` alone, so that the next segment finds a request that begins at the
beginning of `w`. -/
theorem receiveAll_passed (arrivals : List (Int × List Byte)) : ∀ {requests : List (List Byte)}
    {parsed : List HttpRequest} {s : Conn} {n : Nat} {w : List Byte}, List.Forall₂ WellFormed requests parsed →
    Waiting s n w → w ++ (arrivals.map Prod.snd).flatten = requests.flatten →
    Buffer.preAppendSize + (n + (arrivals.map Prod.snd).flatten.length) < 2 ^ 63 →
    ∃ (s' : Conn) (passed : List HttpRequest), receiveAll callback s arrivals = some (.ok s') ∧
      s'.actions = s.actions ++ passed.flatMap (onRequest callback) ∧ passed.map HttpRequest.fields =
        (parsed.take (servedCount requests w.length (arrivals.map Prod.snd))).map HttpRequest.fields := by
  induction arrivals with
  | nil =>
    intro requests parsed s n w hwf h hstream hs
    refine ⟨s, [], rfl, (List.append_nil _).symm, ?_⟩
    change _ = (parsed.take 0).map _
    rw [List.take_zero]
  | cons arrival arrivals ih =>
    intro requests parsed s n w hwf h hstream hs
    obtain ⟨t, seg⟩ := arrival
    change Buffer.preAppendSize + (n + (seg ++ (arrivals.map Prod.snd).flatten).length) < 2 ^ 63 at hs
    rw [List.length_append] at hs
    have hstream' : w ++ seg ++ (arrivals.map Prod.snd).flatten = requests.flatten := by
      rw [List.append_assoc]
      exact hstream
    cases hwf with
    | nil =>
      have hnone : w ++ seg = [] := (List.append_eq_nil_iff.mp hstream').1
      obtain ⟨s₁, hst, hacts, h₁⟩ := receive_idle callback (t := t) h (by omega) hnone
      obtain ⟨s', passed, hrun, hacts', hpassed⟩ := ih .nil h₁ hstream' (by omega)
      refine ⟨s', passed, (receiveAll_of_receive callback hst _).trans hrun, ?_, ?_⟩
      · rw [hacts', hacts]
      · rw [hpassed, List.take_nil, List.take_nil]
    | @cons r request requests parsed hr hwf =>
      rw [List.flatten_cons] at hstream'
      change ∃ (s' : Conn) (passed : List HttpRequest), _ ∧ _ ∧ passed.map _ =
        ((request :: parsed).take (if r.length ≤ w.length + seg.length
        then servedCount requests (w.length + seg.length - r.length) (arrivals.map Prod.snd) + 1
        else servedCount (r :: requests) (w.length + seg.length) (arrivals.map Prod.snd))).map _
      rw [← List.length_append]
      split
      case isTrue hreach =>
        obtain ⟨w', hw, hrest, hlen⟩ := reached_of_length_le hstream' hreach
        obtain ⟨s₁, req, hst, hreq, hacts, h₁⟩ := receive_complete callback (t := t) hr h (by omega) hw
        obtain ⟨s', passed, hrun, hacts', hpassed⟩ := ih hwf h₁ hrest (by omega)
        refine ⟨s', req :: passed, (receiveAll_of_receive callback hst _).trans hrun, ?_, ?_⟩
        · rw [hacts', hacts, List.append_assoc]
          rfl
        · rw [List.map_cons, hpassed, hlen, hreq]
          rfl
      case isFalse hshort =>
        obtain ⟨z, hw, hz⟩ := short_of_length_lt hstream' (Nat.lt_of_not_le hshort)
        obtain ⟨s₁, hst, hacts, h₁⟩ := receive_partial callback (t := t) hr h (by omega) hw hz
        obtain ⟨s', passed, hrun, hacts', hpassed⟩ := ih (.cons hr hwf) h₁ hstream' (by omega)
        refine ⟨s', passed, (receiveAll_of_receive callback hst _).trans hrun, ?_, hpassed⟩
        rw [hacts', hacts]

/-- The requests served are those passed on, read off the actions. -/
theorem receiveAll_spec (arrivals : List (Int × List Byte)) {requests : List (List Byte)}
    {parsed : List HttpRequest} {s : Conn} {n : Nat} {w : List Byte} (hwf : List.Forall₂ WellFormed requests parsed)
    (h : Waiting s n w) (hstream : w ++ (arrivals.map Prod.snd).flatten = requests.flatten)
    (hs : Buffer.preAppendSize + (n + (arrivals.map Prod.snd).flatten.length) < 2 ^ 63) :
    ∃ s', receiveAll callback s arrivals = some (.ok s') ∧
      s'.served = s.served ++
        (parsed.take (servedCount requests w.length (arrivals.map Prod.snd))).map HttpRequest.fields := by
  obtain ⟨s', passed, hrun, hacts, hpassed⟩ := receiveAll_passed callback arrivals hwf h hstream hs
  refine ⟨s', hrun, ?_⟩
  rw [served, hacts, List.filterMap_append, served_flatMap_onRequest, hpassed]
  rfl

/-- One segmentation: all requests are passed on exactly if there are enough segments.  What is
passed on is always a beginning of the list (`receiveAll_passed`), so to pass on all is to pass
on as many, and `servedCount_eq_iff` counts them. -/
theorem served_iff {requests : List (List Byte)} {parsed : List HttpRequest}
    (hwf : List.Forall₂ WellFormed requests parsed)
    (hs : Buffer.preAppendSize + requests.flatten.length < 2 ^ 63) {arrivals : List (Int × List Byte)}
    (h : (arrivals.map Prod.snd).flatten = requests.flatten) :
    ∃ s, receiveAll callback {} arrivals = some (.ok s) ∧
      (s.served = parsed.map HttpRequest.fields ↔ EnoughCuts requests 0 (arrivals.map Prod.snd)) := by
  obtain ⟨s, hrun, hserved⟩ := receiveAll_spec callback arrivals hwf waiting_new h
    (by rw [h]; omega)
  refine ⟨s, hrun, ?_⟩
  have hlen : requests.length = parsed.length := hwf.length_eq
  have hle := servedCount_le (arrivals.map Prod.snd) requests 0
  change s.served = (parsed.take (servedCount requests 0 (arrivals.map Prod.snd))).map _ at hserved
  rw [← servedCount_eq_iff, hserved]
  constructor
  · intro heq
    have hsame := congrArg List.length heq
    rw [List.length_map, List.length_map, List.length_take] at hsame
    omega
  · intro heq
    rw [heq, hlen, List.take_length]

/-- **Pipelining.**  A stream of well-formed requests, cut in any two ways and whenever the
pieces come: the same requests are passed to `httpCallback_`, and these are all, exactly if both
ways have enough segments.  The two ways meet in the list of requests and not in each other, so
the condition is one on each of them.  Without it fewer are served: `twoAtOnce_serves_one` has
two requests in one segment and no segment for the second. -/
theorem pipelining {requests : List (List Byte)}
    {parsed : List HttpRequest} (hwf : List.Forall₂ WellFormed requests parsed)
    (hs : Buffer.preAppendSize + requests.flatten.length < 2 ^ 63) {arrivals arrivals' : List (Int × List Byte)}
    (h : (arrivals.map Prod.snd).flatten = requests.flatten)
    (h' : (arrivals'.map Prod.snd).flatten = requests.flatten) :
    ∃ s s', receiveAll callback {} arrivals = some (.ok s) ∧
      receiveAll callback {} arrivals' = some (.ok s') ∧
      (s.served = s'.served ∧ s.served = parsed.map HttpRequest.fields ↔
        EnoughCuts requests 0 (arrivals.map Prod.snd) ∧ EnoughCuts requests 0 (arrivals'.map Prod.snd)) := by
  obtain ⟨s, hrun, hiff⟩ := served_iff callback hwf hs h
  obtain ⟨s', hrun', hiff'⟩ := served_iff callback hwf hs h'
  refine ⟨s, s', hrun, hrun', ?_⟩
  rw [← hiff, ← hiff']
  constructor
  · rintro ⟨hsame, hall⟩
    exact ⟨hall, hsame ▸ hall⟩
  · rintro ⟨hall, hall'⟩
    exact ⟨hall.trans hall'.symm, hall⟩

/-- `GET / HTTP/1.1` and an empty line. -/
def get : List Byte := getLine ++ [13, 10]

theorem wellFormed_get : ∃ request, WellFormed get request := by
  refine wellFormed_of_request ⟨getLine.take 14, [13, 10], ⟨by decide, by decide⟩, requestLine_get, ?_⟩ (by decide)
  exact .last ⟨by decide, by decide⟩ (by decide)

/-- Two requests, each in a segment of its own, or the first cut in two. -/
theorem pipelining_get : ∃ request s s', List.Forall₂ WellFormed [get, get] [request, request] ∧
    receiveAll (fun _ close => close) {} [(0, get), (5, get)] = some (.ok s) ∧
    receiveAll (fun _ close => close) {} [(0, get.take 5), (1, get.drop 5), (5, get)] = some (.ok s') ∧
    s.served = s'.served ∧ s.served = [request, request].map HttpRequest.fields := by
  obtain ⟨request, hr⟩ := wellFormed_get
  have hwf : List.Forall₂ WellFormed [get, get] [request, request] := .cons hr (.cons hr .nil)
  have htwo : (([(0, get), (5, get)] : List (Int × List Byte)).map Prod.snd).flatten =
      [get, get].flatten := by decide
  have hthree : (([(0, get.take 5), (1, get.drop 5), (5, get)] : List (Int × List Byte)).map Prod.snd).flatten =
      [get, get].flatten := by decide
  obtain ⟨s, s', hrun, hrun', hiff⟩ := pipelining (fun _ close => close) hwf (by decide) htwo hthree
  exact ⟨request, s, s', hwf, hrun, hrun', hiff.mpr ⟨by decide, by decide⟩⟩

/-- Two requests in one segment: the first is served and the second stays in the buffer, where
nobody looks until something else arrives. -/
theorem twoAtOnce_serves_one : ∃ request s s', List.Forall₂ WellFormed [get, get] [request, request] ∧
    receiveAll (fun _ close => close) {} [(0, get ++ get)] = some (.ok s) ∧
    receiveAll (fun _ close => close) {} [(0, get), (5, get)] = some (.ok s') ∧
    s'.served = [request, request].map HttpRequest.fields ∧ s.served ≠ s'.served := by
  obtain ⟨request, hr⟩ := wellFormed_get
  have hwf : List.Forall₂ WellFormed [get, get] [request, request] := .cons hr (.cons hr .nil)
  have hone : (([(0, get ++ get)] : List (Int × List Byte)).map Prod.snd).flatten = [get, get].flatten := by
    decide
  have htwo : (([(0, get), (5, get)] : List (Int × List Byte)).map Prod.snd).flatten =
      [get, get].flatten := by decide
  obtain ⟨s, hrun, hiff⟩ := served_iff (fun _ close => close) hwf (by decide) hone
  obtain ⟨s', hrun', hiff'⟩ := served_iff (fun _ close => close) hwf (by decide) htwo
  have hall := hiff'.mpr (by decide)
  refine ⟨request, s, s', hwf, hrun, hrun', hall, fun heq => ?_⟩
  exact absurd (hiff.mp (heq.trans hall)) (by decide)

end Conn

end Suduo.Http
