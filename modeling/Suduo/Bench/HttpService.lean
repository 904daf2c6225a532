/-
# A connection of `HttpServer`, requests in and responses out

`HttpServer.lean` has what `onMessage` does with what it receives.  Here it also sends: `onRequest`
makes a response, has `httpCallback_` fill it in, and hands its text to `conn->send`, which takes it
unless `shutdown` has been called.

The responses are no concern of the parser.  So a run of this server is a run of the other, with its
actions carried out (`receiveAll_eq`), and what it answers follows from what was passed on.  What
the client then has is `served_exact`: the responses to the requests passed on, in that order, up to
the first that closes the connection, and nothing else.

`httpCallback_` may do anything between two calls, look at a clock for one.  All that shows of it is
what it makes of the request of each call.
-/
import Suduo.Bench.HttpResponse
import Suduo.Bench.HttpServer

namespace Suduo.Http.HttpServer

open Lib

/-! ## 1. The code -/

/-- What each call of `httpCallback_` makes of a request and a fresh response.  The number of the
call stands for all that may have changed since the last. -/
abbrev HttpCallback := Nat → HttpRequest → HttpResponse → HttpResponse

/-- The output side of a connection. -/
structure Output where
  /-- `_state == Connected`. -/
  connected : Bool := true
  sent : List Byte := []
  /-- Calls of `httpCallback_` so far. -/
  calls : Nat := 0

/-- A connection of the server. -/
structure Connection where
  context : HttpContext := {}
  input : Buffer := Buffer.new
  output : Output := {}

def badRequest : List Byte :=
  ascii ['H', 'T', 'T', 'P', '/', '1', '.', '1', ' ', '4', '0', '0', ' ', 'B', 'a', 'd', ' ',
    'R', 'e', 'q', 'u', 'e', 's', 't', '\r', '\n', '\r', '\n']

namespace Output

/-- `TcpConnection::send`. -/
def send (s : Output) (message : List Byte) : Output :=
  if s.connected then { s with sent := s.sent ++ message } else s

/-- `TcpConnection::shutdown`. -/
def shutdown (s : Output) : Output := { s with connected := false }

end Output

variable (httpCallback : HttpCallback)

/-- The response to the request of a call. -/
def respond (call : Nat) (req : HttpRequest) : HttpResponse := httpCallback call req (.new (Conn.closes req))

def onRequest (req : HttpRequest) (s : Output) : Except Error Output := do
  let response := respond httpCallback s.calls req
  let buf ← (response.appendToBuffer Buffer.new).mapError .buffer
  let s := { s with calls := s.calls + 1 }.send buf.contents
  return if response.closeConnection then s.shutdown else s

def onMessage (receiveTime : Int) (s : Connection) : ExceptT Error Option Connection := do
  let (ok, context, input) ← s.context.parseRequest receiveTime s.input
  let output := if ok then s.output else (s.output.send badRequest).shutdown
  if context.gotAll then
    let output ← ExceptT.mk (some (onRequest httpCallback context.request output))
    return { context := context.reset, input, output }
  else return { context, input, output }

/-- A segment arrives. -/
def receive (s : Connection) (arrival : Int × List Byte) : ExceptT Error Option Connection := do
  let input ← ExceptT.mk (some ((s.input.append arrival.2).mapError .buffer))
  onMessage httpCallback arrival.1 { s with input }

def receiveAll (s : Connection) (arrivals : List (Int × List Byte)) : ExceptT Error Option Connection :=
  arrivals.foldlM (receive httpCallback) s

/-! ## 2. What is sent -/

/-- A response is sent. -/
def answer (s : Output) (req : HttpRequest) : Output :=
  let response := respond httpCallback s.calls req
  let s := { s with calls := s.calls + 1 }.send response.text
  if response.closeConnection then s.shutdown else s

/-- An action of the other model, carried out.  The last two are part of those before them:
`onRequest` shuts down by itself, and so does the refusal. -/
def perform (s : Output) : Action → Output
  | .request req => answer httpCallback s req
  | .badRequest => (s.send badRequest).shutdown
  | .response | .shutdown => s

/-- The connection, with what has been done on it carried out. -/
def carriedOut (c : Conn) : Connection := ⟨c.context, c.input, c.actions.foldl (perform httpCallback) {}⟩

/-- The responses to requests that are passed on one after another. -/
def responses : Nat → List HttpRequest → List HttpResponse
  | _, [] => []
  | call, req :: reqs => respond httpCallback call req :: responses (call + 1) reqs

/-- The first that closes the connection is the last. -/
def upToClosing : List HttpResponse → List HttpResponse
  | [] => []
  | r :: rs => if r.closeConnection then [r] else r :: upToClosing rs

variable {httpCallback} {s : Output} {req : HttpRequest}

theorem onRequest_eq (hr : (respond httpCallback s.calls req).Readable) :
    onRequest httpCallback req s = .ok (answer httpCallback s req) := by
  have hfits := hr.fits
  obtain ⟨buf, happend, -, hcont⟩ := HttpResponse.appends_text hr.body Buffer.input_new (by omega)
  rw [Buffer.new_contents, List.nil_append] at hcont
  unfold onRequest answer
  dsimp only
  rw [happend, ← hcont]
  rfl

/-! ## 3. The two models -/

variable (callback : HttpRequest → Bool → Bool)

theorem perform_onRequest (s : Output) (req : HttpRequest) :
    (Conn.onRequest callback req).foldl (perform httpCallback) s = answer httpCallback s req := by
  unfold Conn.onRequest
  split
  · rfl
  · rfl

theorem perform_passed (passed : List HttpRequest) (s : Output) :
    (passed.flatMap (Conn.onRequest callback)).foldl (perform httpCallback) s =
      passed.foldl (answer httpCallback) s := by
  rw [List.foldl_flatMap]
  simp only [perform_onRequest]

/-- What is left of the output after the verdict of `parseRequest`. -/
theorem perform_verdict (httpCallback : HttpCallback) (s : Output) (ok : Bool) :
    (if ok then [] else [Action.badRequest, Action.shutdown]).foldl (perform httpCallback) s =
      if ok then s else (s.send badRequest).shutdown := by
  cases ok with
  | true => rfl
  | false => rfl

section

variable (hr : ∀ call req, (respond httpCallback call req).Readable)

include hr

theorem onMessage_parsed {t : Int} {s : Connection} {ok : Bool} {context : HttpContext} {input : Buffer}
    (hparse : s.context.parseRequest t s.input = some (.ok (ok, context, input))) :
    onMessage httpCallback t s = some (.ok (if context.gotAll then ⟨context.reset, input, answer httpCallback
        (if ok then s.output else (s.output.send badRequest).shutdown) context.request⟩
      else ⟨context, input, if ok then s.output else (s.output.send badRequest).shutdown⟩)) := by
  rw [onMessage, hparse]
  cases hgot : context.gotAll with
  | true =>
    have hanswer := onRequest_eq
      (hr (if ok then s.output else (s.output.send badRequest).shutdown).calls context.request)
    change (if context.gotAll = true then _ else _) = _
    rw [if_pos hgot, hanswer]
    rfl
  | false =>
    change (if context.gotAll = true then _ else _) = _
    rw [if_neg (hgot ▸ Bool.false_ne_true)]
    rfl

/-- **One call of `onMessage`** is the other model's, with its actions carried out.  Both have
the same parser, and what is sent has no way back to it. -/
theorem onMessage_eq (t : Int) (c : Conn) : onMessage httpCallback t (carriedOut httpCallback c) =
    (Conn.onMessage callback t c).map (carriedOut httpCallback) := by
  cases hparse : c.context.parseRequest t c.input with
  | none =>
    have hcode : (carriedOut httpCallback c).context.parseRequest t (carriedOut httpCallback c).input = none := hparse
    rw [onMessage, Conn.onMessage, hcode, hparse]
    rfl
  | some result =>
    cases result with
    | error e =>
      have hcode : (carriedOut httpCallback c).context.parseRequest t (carriedOut httpCallback c).input =
        some (.error e) := hparse
      rw [onMessage, Conn.onMessage, hcode, hparse]
      rfl
    | ok q =>
      obtain ⟨ok, context, input⟩ := q
      have hverdict := perform_verdict httpCallback (carriedOut httpCallback c).output ok
      have hmodel : Conn.onMessage callback t c = some (.ok (if context.gotAll then
          ⟨context.reset, input, c.actions ++ (if ok then [] else [.badRequest, .shutdown]) ++
            Conn.onRequest callback context.request⟩
          else ⟨context, input, c.actions ++ if ok then [] else [.badRequest, .shutdown]⟩)) := by
        rw [Conn.onMessage, hparse]
        change (if context.gotAll = true then _ else _) = _
        split
        · rfl
        · rfl
      rw [onMessage_parsed hr (s := carriedOut httpCallback c) hparse, hmodel, ← hverdict]
      refine congrArg (fun s => some (Except.ok s)) ?_
      split
      · simp only [carriedOut, List.foldl_append, perform_onRequest]
      · simp only [carriedOut, List.foldl_append]

/-- **A segment** is handled as in the other model. -/
theorem receive_eq (c : Conn) (arrival : Int × List Byte) :
    receive httpCallback (carriedOut httpCallback c) arrival =
      (Conn.receive callback c arrival).map (carriedOut httpCallback) := by
  have hinput : (carriedOut httpCallback c).input = c.input := rfl
  rw [receive, Conn.receive, hinput]
  cases c.input.append arrival.2 with
  | error e =>
    have hmap : (Except.error e : Except Buffer.Error Buffer).mapError Error.buffer = .error (.buffer e) := rfl
    rw [hmap, error_then, error_then]
    rfl
  | ok b =>
    have hmap : (Except.ok b : Except Buffer.Error Buffer).mapError Error.buffer = .ok b := rfl
    rw [hmap, ok_then, ok_then, ← onMessage_eq callback hr]
    rfl

/-- **A run of the server** is a run of the other model, with its actions carried out. -/
theorem receiveAll_eq (arrivals : List (Int × List Byte)) : ∀ c : Conn,
    receiveAll httpCallback (carriedOut httpCallback c) arrivals =
      (Conn.receiveAll callback c arrivals).map (carriedOut httpCallback) := by
  induction arrivals with
  | nil => exact fun _ => rfl
  | cons arrival arrivals ih =>
    intro c
    rw [receiveAll, Conn.receiveAll, List.foldlM_cons, List.foldlM_cons, receive_eq callback hr]
    cases Conn.receive callback c arrival with
    | none => rfl
    | some result =>
      cases result with
      | error e => rfl
      | ok c' => exact ih c'

end

/-! ## 4. Responses, in order -/

/-- On a wire that is down nothing is sent any more, however many requests are still answered. -/
theorem answers_down (httpCallback : HttpCallback) (reqs : List HttpRequest) : ∀ {s : Output}, s.connected = false →
    (reqs.foldl (answer httpCallback) s).sent = s.sent ∧ (reqs.foldl (answer httpCallback) s).connected = false := by
  induction reqs with
  | nil => exact fun h => ⟨rfl, h⟩
  | cons req reqs ih =>
    intro s h
    have hone : (answer httpCallback s req).sent = s.sent ∧ (answer httpCallback s req).connected = false := by
      simp only [answer, Output.send, h, if_neg Bool.false_ne_true]
      split
      · exact ⟨rfl, rfl⟩
      · exact ⟨rfl, rfl⟩
    obtain ⟨hsent, hdown⟩ := ih hone.2
    exact ⟨hsent.trans hone.1, hdown⟩

/-- **What is sent**: the responses up to the first that closes the connection.  By induction on
the requests; behind that response nothing is sent. -/
theorem answers_sent (httpCallback : HttpCallback) (reqs : List HttpRequest) : ∀ {s : Output}, s.connected = true →
    (reqs.foldl (answer httpCallback) s).sent =
      s.sent ++ (upToClosing (responses httpCallback s.calls reqs)).flatMap HttpResponse.text ∧
    ((reqs.foldl (answer httpCallback) s).connected = false ↔
      ∃ r ∈ responses httpCallback s.calls reqs, r.closeConnection = true) := by
  induction reqs with
  | nil =>
    intro s h
    refine ⟨(List.append_nil _).symm, ?_⟩
    rw [List.foldl_nil, h]
    simp [responses]
  | cons req reqs ih =>
    intro s h
    rw [List.foldl_cons, responses, upToClosing]
    cases hclose : (respond httpCallback s.calls req).closeConnection with
    | true =>
      have hone : answer httpCallback s req =
          ⟨false, s.sent ++ (respond httpCallback s.calls req).text, s.calls + 1⟩ := by
        simp [answer, Output.send, Output.shutdown, h, hclose]
      obtain ⟨hsent, hdown⟩ := answers_down httpCallback reqs (s := answer httpCallback s req) (by rw [hone])
      refine ⟨?_, iff_of_true hdown ⟨_, List.mem_cons_self, hclose⟩⟩
      rw [hsent, hone, if_pos rfl, List.flatMap_singleton]
    | false =>
      have hone : answer httpCallback s req =
          ⟨true, s.sent ++ (respond httpCallback s.calls req).text, s.calls + 1⟩ := by
        simp [answer, Output.send, h, hclose]
      obtain ⟨hsent, hdown⟩ := ih (s := answer httpCallback s req) (by rw [hone])
      rw [hone] at hsent hdown ⊢
      refine ⟨?_, ?_⟩
      · rw [hsent, if_neg Bool.noConfusion, List.flatMap_cons, List.append_assoc]
      · rw [hdown, List.exists_mem_cons_iff, hclose]
        exact (or_iff_right Bool.false_ne_true).symm

/-- **The client reads them back**, the last one to the end of the stream if it closes the
connection.  Each response but the last says where it ends. -/
theorem client_reads (rs : List HttpResponse) (hr : ∀ r ∈ rs, r.Readable) : ∀ got : List Received,
    ∃ s, Client.reader.consume ⟨.statusLine, got⟩ ((upToClosing rs).flatMap HttpResponse.text) = (s, []) ∧
      s.atEnd = got ++ (upToClosing rs).map HttpResponse.received := by
  induction rs with
  | nil => exact fun got => ⟨_, Consumer.consume_of_none rfl, (List.append_nil _).symm⟩
  | cons r rs ih =>
    intro got
    have hfirst := hr r List.mem_cons_self
    rw [upToClosing]
    cases hclose : r.closeConnection with
    | true =>
      rw [if_pos rfl, List.flatMap_singleton, Client.consume_closing hfirst hclose]
      exact ⟨_, rfl, rfl⟩
    | false =>
      rw [if_neg Bool.noConfusion, List.flatMap_cons, Client.consume_kept hfirst hclose, List.map_cons]
      obtain ⟨s, hread, hend⟩ := ih (fun r' hr' => hr r' (List.mem_cons_of_mem _ hr')) (got ++ [r.received])
      refine ⟨s, hread, hend.trans ?_⟩
      rw [List.append_assoc]
      rfl

theorem responses_readable (hr : ∀ call req, (respond httpCallback call req).Readable) (reqs : List HttpRequest) :
    ∀ call, ∀ r ∈ responses httpCallback call reqs, r.Readable := by
  induction reqs with
  | nil => exact fun _ _ hin => absurd hin List.not_mem_nil
  | cons req reqs ih =>
    intro call r hin
    rcases List.mem_cons.mp hin with rfl | hin
    · exact hr call req
    · exact ih (call + 1) r hin

/-- **One connection, end to end.**  A stream of well-formed requests, cut in any way, and an
`httpCallback_` that makes nothing but readable responses (`HttpResponse.Readable`).  Requests
are passed to `httpCallback_` in the order of the stream, one for each segment that ends one
(`servedCount`); however what the server sends is cut again on its way, the client has in the end
exactly the responses to them, in that order, up to the first that closes the connection; and the
connection is shut down exactly if there is one.  That responses are readable is needed: the
server does not look at what its callback puts into a header. -/
theorem served_exact (hr : ∀ call req, (respond httpCallback call req).Readable) {requests : List (List Byte)}
    {parsed : List HttpRequest} (hwf : List.Forall₂ WellFormed requests parsed)
    (hs : Buffer.preAppendSize + requests.flatten.length < 2 ^ 63) {arrivals : List (Int × List Byte)}
    (h : (arrivals.map Prod.snd).flatten = requests.flatten) :
    ∃ (s : Connection) (passed : List HttpRequest), receiveAll httpCallback {} arrivals = some (.ok s) ∧
      passed.map HttpRequest.fields =
        (parsed.take (servedCount requests 0 (arrivals.map Prod.snd))).map HttpRequest.fields ∧
      (s.output.connected = false ↔ ∃ r ∈ responses httpCallback 0 passed, r.closeConnection = true) ∧
      ∀ segs : List (List Byte), segs.flatten = s.output.sent →
        (Client.reader.feed {} [] segs).2 = [] ∧ (Client.reader.feed {} [] segs).1.atEnd =
          (upToClosing (responses httpCallback 0 passed)).map HttpResponse.received := by
  obtain ⟨c, passed, hrun, hacts, hpassed⟩ :=
    Conn.receiveAll_passed (fun _ close => close) arrivals hwf Conn.waiting_new h (by rw [h]; omega)
  have hserver := receiveAll_eq (fun _ close => close) hr arrivals {}
  rw [hrun] at hserver
  obtain ⟨hsent, hdown⟩ := answers_sent httpCallback passed (s := {}) rfl
  have hout : (carriedOut httpCallback c).output = passed.foldl (answer httpCallback) {} := by
    change c.actions.foldl _ _ = _
    rw [hacts]
    exact perform_passed (fun _ close => close) passed {}
  rw [← hout] at hsent hdown
  refine ⟨carriedOut httpCallback c, passed, hserver, hpassed, hdown, fun segs hsegs => ?_⟩
  have hwait : Client.reader.step {} [] = none := rfl
  obtain ⟨s, hread, hend⟩ := client_reads (responses httpCallback 0 passed) (responses_readable hr passed 0) []
  rw [Consumer.feed_eq segs hwait, hsegs, hsent]
  change (Client.reader.consume {} ((upToClosing (responses httpCallback 0 passed)).flatMap HttpResponse.text)).2 = _ ∧
    (Client.reader.consume {} ((upToClosing (responses httpCallback 0 passed)).flatMap HttpResponse.text)).1.atEnd = _
  rw [hread]
  exact ⟨rfl, hend⟩

/-! ## 5. The callbacks -/

/-- `defaultHttpCallback`. -/
def defaultHttpCallback : HttpCallback := fun _ _ resp =>
  ((resp.setStatusCode .k404NotFound).setStatusMessage
    (ascii ['N', 'o', 't', ' ', 'F', 'o', 'u', 'n', 'd'])).setCloseConnection true

/-- The page of the test server, up to the time. -/
def pageStart : List Byte :=
  ascii ['<', 'h', 't', 'm', 'l', '>', '<', 'h', 'e', 'a', 'd', '>', '<', 't', 'i', 't', 'l', 'e', '>',
    'T', 'h', 'i', 's', ' ', 'i', 's', ' ', 't', 'i', 't', 'l', 'e', '<', '/', 't', 'i', 't', 'l', 'e', '>',
    '<', '/', 'h', 'e', 'a', 'd', '>', '<', 'b', 'o', 'd', 'y', '>', '<', 'h', '1', '>', 'H', 'e', 'l', 'l', 'o',
    '<', '/', 'h', '1', '>', 'N', 'o', 'w', ' ', 'i', 's', ' ']

def pageEnd : List Byte :=
  ascii ['<', '/', 'b', 'o', 'd', 'y', '>', '<', '/', 'h', 't', 'm', 'l', '>']

def server : List Byte := ascii ['S', 'e', 'r', 'v', 'e', 'r']

def suduo : List Byte := ascii ['s', 'u', 'd', 'u', 'o']

def textHtml : List Byte := ascii ['t', 'e', 'x', 't', '/', 'h', 't', 'm', 'l']

def imagePng : List Byte := ascii ['i', 'm', 'a', 'g', 'e', '/', 'p', 'n', 'g']

def textPlain : List Byte := ascii ['t', 'e', 'x', 't', '/', 'p', 'l', 'a', 'i', 'n']

/-- `onRequest` of `HttpServer_test.cpp`: `now` is the text of the time at each call, `favicon`
the picture. -/
def testOnRequest (now : Nat → List Byte) (favicon : List Byte) : HttpCallback := fun call req resp =>
  let ok := (resp.setStatusCode .k200Ok).setStatusMessage (ascii ['O', 'K'])
  if req.path = ascii ['/'] then
    ((ok.setContentType textHtml).addHeader server suduo).setBody (pageStart ++ now call ++ pageEnd)
  else if req.path = ascii ['/', 'f', 'a', 'v', 'i', 'c', 'o', 'n', '.', 'i', 'c', 'o'] then
    (ok.setContentType imagePng).setBody favicon
  else if req.path = ascii ['/', 'h', 'e', 'l', 'l', 'o'] then
    ((ok.setContentType textPlain).addHeader server suduo).setBody
      (ascii ['h', 'e', 'l', 'l', 'o', ',', ' ', 'w', 'o', 'r', 'l', 'd', '!', '\n'])
  else defaultHttpCallback call req resp

/-- A response as it is made has no header fields, so nothing of it can go wrong. -/
theorem defaultHttpCallback_readable (call : Nat) (req : HttpRequest) :
    (respond defaultHttpCallback call req).Readable where
  message := by
    change ¬ crlf <:+: ascii ['N', 'o', 't', ' ', 'F', 'o', 'u', 'n', 'd']
    decide
  headers := fun _ hin => absurd hin List.not_mem_nil
  body := Nat.zero_lt_succ _
  small := by
    change 9 + 0 < 2 ^ 62
    decide

/-- A response whose header fields are words can be read: no word has a colon or an end of line
in it. -/
theorem readable_words {r : HttpResponse} (message : List Byte) (entries : List (List Byte × List Byte))
    (hmessage : r.statusMessage = message) (hentries : r.headers.entries = entries)
    (hwords : ∀ h ∈ entries, HttpContext.colon ∉ h.1 ∧ (∀ b ∈ h.1 ++ h.2, HttpRequest.isspace b = false) ∧
      Client.isContentLength h.1 = false)
    (hfits : ¬ crlf <:+: message ∧
      message.length + (entries.map fun h => h.1.length + h.2.length + 4).sum < 2 ^ 62)
    (hbody : r.body.length < 10 ^ 13) : r.Readable where
  message := hmessage ▸ hfits.1
  headers h hin := by
    rw [hentries] at hin
    obtain ⟨hcolon, hplain, hname⟩ := hwords h hin
    refine ⟨HttpResponse.cleanHeader_word hcolon (fun b hb => ?_) (fun b hb => ?_), hname⟩
    · exact hplain b (List.mem_append_left _ hb)
    · exact hplain b (List.mem_append_right _ hb)
  body := hbody
  small := hmessage ▸ hentries ▸ hfits.2

/-- **The test server can be read**, whatever is asked for and whenever.  Its headers are fixed
words, and its bodies have a bounded length. -/
theorem testOnRequest_readable {now : Nat → List Byte} {favicon : List Byte} (hnow : ∀ call, (now call).length ≤ 64)
    (hicon : favicon.length = 555) (call : Nat) (req : HttpRequest) :
    (respond (testOnRequest now favicon) call req).Readable := by
  unfold respond testOnRequest
  dsimp only
  split
  · refine readable_words (ascii ['O', 'K']) [(ascii HttpResponse.contentType, textHtml), (server, suduo)] rfl rfl
      (by decide +kernel) (by decide +kernel) ?_
    have htime := hnow call
    change (pageStart ++ now call ++ pageEnd).length < 10 ^ 13
    simp only [pageStart, pageEnd, ascii, List.length_append, List.length_map, List.length_cons, List.length_nil]
    omega
  · split
    · refine readable_words (ascii ['O', 'K']) [(ascii HttpResponse.contentType, imagePng)] rfl rfl
        (by decide +kernel) (by decide +kernel) ?_
      change favicon.length < 10 ^ 13
      omega
    · split
      · refine readable_words (ascii ['O', 'K']) [(ascii HttpResponse.contentType, textPlain), (server, suduo)] rfl rfl
          (by decide +kernel) (by decide +kernel) ?_
        change 14 < 10 ^ 13
        decide
      · exact defaultHttpCallback_readable call req

/-- Two requests for `/` to the test server, the second in two segments, at a time that is not printed. -/
theorem served_exact_get : ∃ request, List.Forall₂ WellFormed [Conn.get, Conn.get] [request, request] ∧
    ∃ (s : Connection) (passed : List HttpRequest),
      receiveAll (testOnRequest (fun _ => []) (List.replicate 555 0)) {}
        [(0, Conn.get), (5, Conn.get.take 3), (6, Conn.get.drop 3)] = some (.ok s) ∧
      passed.map HttpRequest.fields = [request, request].map HttpRequest.fields ∧
      (Client.reader.feed {} [] [s.output.sent]).1.atEnd =
        (upToClosing (responses (testOnRequest (fun _ => []) (List.replicate 555 0)) 0 passed)).map
          HttpResponse.received := by
  obtain ⟨request, hget⟩ := Conn.wellFormed_get
  have hwf : List.Forall₂ WellFormed [Conn.get, Conn.get] [request, request] := .cons hget (.cons hget .nil)
  have hcut : (([(0, Conn.get), (5, Conn.get.take 3), (6, Conn.get.drop 3)] : List (Int × List Byte)).map
      Prod.snd).flatten = [Conn.get, Conn.get].flatten := by decide
  have hreadable : ∀ call req, (respond (testOnRequest (fun _ => []) (List.replicate 555 0)) call req).Readable :=
    testOnRequest_readable (fun _ => Nat.zero_le _) List.length_replicate
  obtain ⟨s, passed, hrun, hpassed, -, hclient⟩ := served_exact hreadable hwf (by decide) hcut
  refine ⟨request, hwf, s, passed, hrun, ?_, (hclient [s.output.sent] (List.append_nil _)).2⟩
  rw [hpassed]
  have hcount : servedCount [Conn.get, Conn.get] 0
      (([(0, Conn.get), (5, Conn.get.take 3), (6, Conn.get.drop 3)] : List (Int × List Byte)).map Prod.snd) = 2 := by
    decide
  rw [hcount]
  rfl

end Suduo.Http.HttpServer
