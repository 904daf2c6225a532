/-
# `HttpResponse`: what the server answers, and what a client makes of it

`bench/http/HttpResponse.h` and `HttpResponse.cpp`.  A response has no length of its own on the
wire: a client finds its end by `Content-Length`, or, after `Connection: close`, by the end of the
stream.  `appendToBuffer` writes the first of these for every response that keeps the connection and
for no other.

`Client` is a reader with the rules of HTTP/1.1 for that: a status line, header fields up to an
empty line, and then as many bytes as `Content-Length` says, or all that come.  It is not code of
the repository; it says what the bytes are for.  It has asked for no `HEAD`, and knows no transfer
coding.

Two responses written one after the other are read back as two if what is put into them leaves the
framing alone (`Readable`): a CRLF in the status message or a header, or a second `Content-Length`,
would not.
-/
import Suduo.Bench.HttpRoundTrip
import Suduo.Lib.IpText
import Suduo.Net.ConnectionName

namespace Suduo.Http

open Lib
open Buffer (Line searchCRLF)

/-! ## 1. The code -/

inductive HttpStatusCode
  | kUnknown | k200Ok | k301MovedPermanently | k400BadRequest | k404NotFound
  deriving DecidableEq, Repr

def HttpStatusCode.value : HttpStatusCode → Nat
  | .kUnknown => 0
  | .k200Ok => 200
  | .k301MovedPermanently => 301
  | .k400BadRequest => 400
  | .k404NotFound => 404

structure HttpResponse where
  headers : SortedMap (List Byte) (List Byte) := .empty
  statusCode : HttpStatusCode := .kUnknown
  statusMessage : List Byte := []
  closeConnection : Bool
  body : List Byte := []

namespace HttpResponse

/-- The constructor. -/
def new (close : Bool) : HttpResponse := { closeConnection := close }

def setStatusCode (r : HttpResponse) (code : HttpStatusCode) : HttpResponse := { r with statusCode := code }

def setStatusMessage (r : HttpResponse) (message : List Byte) : HttpResponse := { r with statusMessage := message }

def setCloseConnection (r : HttpResponse) (on : Bool) : HttpResponse := { r with closeConnection := on }

def addHeader (r : HttpResponse) (key value : List Byte) : HttpResponse :=
  { r with headers := (r.headers.insert key []).set key value }

def contentType : List Char := ['C', 'o', 'n', 't', 'e', 'n', 't', '-', 'T', 'y', 'p', 'e']

def setContentType (r : HttpResponse) (value : List Byte) : HttpResponse := r.addHeader (ascii contentType) value

def setBody (r : HttpResponse) (body : List Byte) : HttpResponse := { r with body }

def httpVersion : List Char := ['H', 'T', 'T', 'P', '/', '1', '.', '1', ' ']

def contentLength : List Char := ['C', 'o', 'n', 't', 'e', 'n', 't', '-', 'L', 'e', 'n', 'g', 't', 'h']

def connection : List Char := ['C', 'o', 'n', 'n', 'e', 'c', 't', 'i', 'o', 'n']

def close : List Char := ['c', 'l', 'o', 's', 'e']

def keepAlive : List Char := ['K', 'e', 'e', 'p', '-', 'A', 'l', 'i', 'v', 'e']

/-- The body of the loop over `headers_`. -/
def appendHeader (output : Buffer) (header : List Byte × List Byte) : Except Buffer.Error Buffer := do
  let output ← output.append header.1
  let output ← output.append (ascii [':', ' '])
  let output ← output.append header.2
  output.append crlf

/-- The header fields before those of `headers_`.  The array that `Content-Length` is printed
into has 32 bytes, so with a very long body the line would lose its end. -/
def appendConnection (r : HttpResponse) (output : Buffer) : Except Buffer.Error Buffer :=
  if r.closeConnection then output.append (ascii (connection ++ ':' :: ' ' :: close ++ ['\r', '\n']))
  else do
    let output ← output.append
      (ascii (snprintf 32 (contentLength ++ ':' :: ' ' :: decimal r.body.length ++ ['\r', '\n'])))
    output.append (ascii (connection ++ ':' :: ' ' :: keepAlive ++ ['\r', '\n']))

def appendToBuffer (r : HttpResponse) (output : Buffer) : Except Buffer.Error Buffer := do
  let output ← output.append (ascii (snprintf 32 (httpVersion ++ decimal r.statusCode.value ++ [' '])))
  let output ← output.append r.statusMessage
  let output ← output.append crlf
  let output ← r.appendConnection output
  let output ← r.headers.entries.foldlM appendHeader output
  let output ← output.append crlf
  output.append r.body

/-! ## 2. What is written -/

/-- The first line. -/
def statusLine (r : HttpResponse) : List Byte :=
  ascii (httpVersion ++ decimal r.statusCode.value) ++ HttpContext.space :: r.statusMessage

def connectionFields (r : HttpResponse) : List (List Byte × List Byte) :=
  if r.closeConnection then [(ascii connection, ascii close)]
  else [(ascii contentLength, ascii (decimal r.body.length)), (ascii connection, ascii keepAlive)]

/-- The header fields, in the order they are written in. -/
def fields (r : HttpResponse) : List (List Byte × List Byte) := r.connectionFields ++ r.headers.entries

def text (r : HttpResponse) : List Byte :=
  r.statusLine ++ crlf ++ r.fields.flatMap (fun h => Canonical.headerLine h ++ crlf) ++ crlf ++ r.body

theorem ascii_append (cs ds : List Char) : ascii (cs ++ ds) = ascii cs ++ ascii ds := List.map_append

theorem ascii_crlf : ascii ['\r', '\n'] = crlf := rfl

theorem appends_header (h : List Byte × List Byte) :
    Buffer.Appends (fun b => appendHeader b h) (Canonical.headerLine h ++ crlf) := by
  have hline : Canonical.headerLine h ++ crlf = h.1 ++ (ascii [':', ' '] ++ (h.2 ++ crlf)) := by
    rw [Canonical.headerLine, List.append_assoc]
    rfl
  rw [hline]
  exact (Buffer.appends_append _).andThen ((Buffer.appends_append _).andThen
    ((Buffer.appends_append _).andThen (Buffer.appends_append _)))

variable {r : HttpResponse}

/-- A status code has three digits, and nothing of the line is cut off. -/
theorem statusLine_fits (code : HttpStatusCode) :
    snprintf 32 (httpVersion ++ decimal code.value ++ [' ']) = httpVersion ++ decimal code.value ++ [' '] := by
  cases code <;> rfl

/-- Up to thirteen digits there is room for the end of the line.  With more, its last byte would
be cut off. -/
theorem contentLength_fits {n : Nat} (h : n < 10 ^ 13) :
    snprintf 32 (contentLength ++ ':' :: ' ' :: decimal n ++ ['\r', '\n']) =
      contentLength ++ ':' :: ' ' :: decimal n ++ ['\r', '\n'] := by
  refine List.take_of_length_le ?_
  have hdigits : (decimal n).length ≤ 13 := decimal_length (by decide) h
  simp only [contentLength, List.length_append, List.length_cons, List.length_nil]
  omega

theorem appends_connection (hbody : r.body.length < 10 ^ 13) :
    Buffer.Appends r.appendConnection (r.connectionFields.flatMap fun h => Canonical.headerLine h ++ crlf) := by
  have hline (field value : List Char) : ascii (field ++ ':' :: ' ' :: value ++ ['\r', '\n']) =
      Canonical.headerLine (ascii field, ascii value) ++ crlf := by
    rw [ascii_append, ascii_append, ascii_crlf]
    rfl
  cases hclose : r.closeConnection with
  | true =>
    have hcode : r.appendConnection =
        fun b => b.append (Canonical.headerLine (ascii connection, ascii close) ++ crlf) := by
      funext b
      rw [appendConnection, hclose, if_pos rfl, hline]
    rw [hcode, connectionFields, hclose, if_pos rfl, List.flatMap_singleton]
    exact Buffer.appends_append _
  | false =>
    have hcode : r.appendConnection = fun b =>
        b.append (Canonical.headerLine (ascii contentLength, ascii (decimal r.body.length)) ++ crlf) >>=
          fun b => b.append (Canonical.headerLine (ascii connection, ascii keepAlive) ++ crlf) := by
      funext b
      rw [appendConnection, hclose, if_neg Bool.noConfusion, contentLength_fits hbody, hline, hline]
    rw [hcode, connectionFields, hclose, if_neg Bool.noConfusion, List.flatMap_cons, List.flatMap_singleton]
    exact (Buffer.appends_append _).andThen (Buffer.appends_append _)

/-- **`appendToBuffer` puts the text of the response behind what is in the buffer.**  It is a
chain of appends, and `Buffer.Appends` composes. -/
theorem appends_text (hbody : r.body.length < 10 ^ 13) : Buffer.Appends r.appendToBuffer r.text := by
  have htext : r.text = ascii (httpVersion ++ decimal r.statusCode.value ++ [' ']) ++ (r.statusMessage ++ (crlf ++
      (r.connectionFields.flatMap (fun h => Canonical.headerLine h ++ crlf) ++
        (r.headers.entries.flatMap (fun h => Canonical.headerLine h ++ crlf) ++ (crlf ++ r.body))))) := by
    rw [text, statusLine, fields, List.flatMap_append, ascii_append (_ ++ _)]
    simp only [List.append_assoc]
    rfl
  have hcode : r.appendToBuffer = fun b =>
      b.append (ascii (httpVersion ++ decimal r.statusCode.value ++ [' '])) >>= fun b =>
        b.append r.statusMessage >>= fun b => b.append crlf >>= fun b => r.appendConnection b >>= fun b =>
          r.headers.entries.foldlM appendHeader b >>= fun b => b.append crlf >>= fun b => b.append r.body := by
    funext b
    rw [appendToBuffer, statusLine_fits]
  rw [htext, hcode]
  exact (Buffer.appends_append _).andThen ((Buffer.appends_append _).andThen ((Buffer.appends_append _).andThen
    ((appends_connection hbody).andThen ((Buffer.Appends.foldlM appends_header _).andThen
      ((Buffer.appends_append _).andThen (Buffer.appends_append _))))))

end HttpResponse

/-! ## 3. A client -/

/-- A response as a client has it.  The header fields are all there, in the order in which they
came. -/
structure Received where
  statusCode : Nat
  statusMessage : List Byte
  headers : List (List Byte × List Byte)
  body : List Byte
  deriving DecidableEq, Repr

/-- Where a client is in the stream. -/
inductive Reading
  | statusLine
  | fields (r : Received)
  | untilEnd (r : Received)
  | refused
  deriving DecidableEq, Repr

structure Client where
  reading : Reading := .statusLine
  received : List Received := []
  deriving DecidableEq, Repr

namespace Client

def number (digits : List Byte) : Nat := IpText.ofDigits 10 (digits.map fun d => Char.ofNat d.toNat)

def readStatusLine (line : List Byte) : Option Received :=
  let code := line.drop HttpResponse.httpVersion.length
  let sp := code.idxOf HttpContext.space
  if line.take HttpResponse.httpVersion.length = ascii HttpResponse.httpVersion ∧ sp ≠ code.length then
    some ⟨number (code.take sp), code.drop (sp + 1), [], []⟩
  else none

/-- Without the space around it. -/
def trim (value : List Byte) : List Byte :=
  ((value.dropWhile HttpRequest.isspace).reverse.dropWhile HttpRequest.isspace).reverse

def readField (line : List Byte) : Option (List Byte × List Byte) :=
  let found := line.idxOf HttpContext.colon
  if found ≠ line.length then some (line.take found, trim (line.drop (found + 1))) else none

/-- Field names are compared without regard to case. -/
def lower (field : List Byte) : List Byte := field.map fun c => if 65 ≤ c ∧ c ≤ 90 then c + 32 else c

def isContentLength (field : List Byte) : Bool :=
  lower field = ascii ['c', 'o', 'n', 't', 'e', 'n', 't', '-', 'l', 'e', 'n', 'g', 't', 'h']

def contentLength? (headers : List (List Byte × List Byte)) : Option Nat :=
  (headers.find? fun h => isContentLength h.1).map fun h => number h.2

/-- At the empty line: the body, if its length is known. -/
def readBody (s : Client) (r : Received) (xs : List Byte) : Option (Client × Nat) :=
  match contentLength? r.headers with
  | some n =>
    if n + 2 ≤ xs.length then
      some (⟨.statusLine, s.received ++ [{ r with body := (xs.drop 2).take n }]⟩, n + 2)
    else none
  | none => some ({ s with reading := .untilEnd r }, 2)

def step (s : Client) (xs : List Byte) : Option (Client × Nat) :=
  match s.reading with
  | .statusLine => do
    let k ← searchCRLF xs
    match readStatusLine (xs.take k) with
    | some r => return ({ s with reading := .fields r }, k + 2)
    | none => return ({ s with reading := .refused }, 0)
  | .fields r => do
    let k ← searchCRLF xs
    if k = 0 then readBody s r xs
    else
      match readField (xs.take k) with
      | some h => return ({ s with reading := .fields { r with headers := r.headers ++ [h] } }, k + 2)
      | none => return ({ s with reading := .refused }, 0)
  | .untilEnd r => do
    let x ← xs.head?
    return ({ s with reading := .untilEnd { r with body := r.body ++ [x] } }, 1)
  | .refused => none

variable {s s' : Client} {r : Received} {xs ys : List Byte} {k : Nat}

theorem readBody_append (h : readBody s r xs = some (s', k)) (ys : List Byte) (hxs : 2 ≤ xs.length) :
    readBody s r (xs ++ ys) = some (s', k) := by
  unfold readBody at h ⊢
  cases hlen : contentLength? r.headers with
  | none =>
    rw [hlen] at h
    exact h
  | some n =>
    rw [hlen] at h
    dsimp only at h ⊢
    by_cases hn : n + 2 ≤ xs.length
    · have hn' : n + 2 ≤ (xs ++ ys).length := by
        rw [List.length_append]
        omega
      have htake : ((xs ++ ys).drop 2).take n = (xs.drop 2).take n := by
        rw [List.drop_append_of_le_length hxs, List.take_append_of_le_length]
        rw [List.length_drop]
        omega
      rw [if_pos hn] at h
      rw [if_pos hn', htake]
      exact h
    · rw [if_neg hn] at h
      cases h

theorem readBody_takes (h : readBody s r xs = some (s', k)) (hxs : 2 ≤ xs.length) : 0 < k ∧ k ≤ xs.length := by
  unfold readBody at h
  split at h
  · split at h
    · cases h
      omega
    · cases h
  · cases h
    omega

/-- What a step at a line depends on: that the line is there to its end. -/
theorem step_line {f : Nat → Option (Client × Nat)} (h : (searchCRLF xs).bind f = some (s', k)) :
    ∃ n, searchCRLF xs = some n ∧ n + 2 ≤ xs.length ∧ f n = some (s', k) := by
  obtain ⟨n, hn, hf⟩ := Option.bind_eq_some_iff.mp h
  exact ⟨n, hn, Buffer.searchCRLF_lt hn, hf⟩

theorem step_append (h : step s xs = some (s', k)) (ys : List Byte) : step s (xs ++ ys) = some (s', k) := by
  unfold step at h ⊢
  cases hs : s.reading with
  | statusLine =>
    simp only [hs, Option.bind_eq_bind] at h ⊢
    obtain ⟨n, hn, hlen, h⟩ := step_line h
    rw [Buffer.searchCRLF_append hn ys, Option.bind_some, List.take_append_of_le_length (by omega)]
    exact h
  | fields r =>
    simp only [hs, Option.bind_eq_bind] at h ⊢
    obtain ⟨n, hn, hlen, h⟩ := step_line h
    rw [Buffer.searchCRLF_append hn ys, Option.bind_some]
    split at h
    · rename_i hzero
      rw [if_pos hzero]
      exact readBody_append h ys (by omega)
    · rename_i hline
      rw [if_neg hline, List.take_append_of_le_length (by omega)]
      exact h
  | untilEnd r =>
    simp only [hs, Option.bind_eq_bind] at h ⊢
    obtain ⟨x, hx, h⟩ := Option.bind_eq_some_iff.mp h
    rw [List.head?_append, hx]
    exact h
  | refused =>
    simp only [hs] at h
    cases h

/-- A step takes what it has looked at, or it is the last. -/
theorem step_takes (h : step s xs = some (s', k)) : k ≤ xs.length ∧ (0 < k ∨ s'.reading = .refused) := by
  unfold step at h
  split at h
  · obtain ⟨n, -, hlen, h⟩ := step_line h
    split at h
    · cases h
      exact ⟨hlen, .inl (Nat.succ_pos _)⟩
    · cases h
      exact ⟨Nat.zero_le _, .inr rfl⟩
  · obtain ⟨n, -, hlen, h⟩ := step_line h
    split at h
    · obtain ⟨hpos, hle⟩ := readBody_takes h (by omega)
      exact ⟨hle, .inl hpos⟩
    · split at h
      · cases h
        exact ⟨hlen, .inl (Nat.succ_pos _)⟩
      · cases h
        exact ⟨Nat.zero_le _, .inr rfl⟩
  · obtain ⟨x, hx, h⟩ := Option.bind_eq_some_iff.mp h
    cases h
    exact ⟨List.length_pos_of_mem (List.mem_of_mem_head? hx), .inl Nat.one_pos⟩
  · cases h

/-- **The client**, as a consumer of the stream.  So however the stream is cut on its way, the
client reads the same responses. -/
def reader : Consumer Client Byte where
  step := step
  stable := fun ys h => step_append h ys
  takes := fun h => (step_takes h).1
  progress := fun h => (step_takes h).2.imp id fun hrefused ys => by
    rw [step, hrefused]

/-- What has been received when the stream ends. -/
def atEnd (s : Client) : List Received :=
  match s.reading with
  | .untilEnd r => s.received ++ [r]
  | _ => s.received

end Client

/-! ## 4. Reading back -/

namespace HttpResponse

/-- Nothing put into the response takes part in the framing.  A status message or a header with a
CRLF in it would end a line, and a header named `Content-Length` would be taken for the length. -/
structure Readable (r : HttpResponse) : Prop where
  message : ¬ crlf <:+: r.statusMessage
  headers : ∀ h ∈ r.headers.entries, CleanHeader h.1 h.2 ∧ Client.isContentLength h.1 = false
  body : r.body.length < 10 ^ 13
  small : r.statusMessage.length + (r.headers.entries.map fun h => h.1.length + h.2.length + 4).sum < 2 ^ 62

/-- The response, as it should arrive. -/
def received (r : HttpResponse) : Received := ⟨r.statusCode.value, r.statusMessage, r.fields, r.body⟩

/-- Digits are letters of a word: they end nothing, neither the word nor the line. -/
theorem decimal_plain {n : Nat} {b : Byte} (h : b ∈ ascii (decimal n)) : HttpRequest.isspace b = false := by
  have hdigit : ∀ d < 16, HttpRequest.isspace (.ofNat d.digitChar.toNat) = false := by decide
  obtain ⟨c, hc, rfl⟩ := List.mem_map.mp h
  obtain ⟨d, hd, rfl⟩ := IpText.mem_toDigits (by decide) (by decide) hc
  exact hdigit d hd

theorem notMem_of_isspace {xs : List Byte} (h : ∀ b ∈ xs, HttpRequest.isspace b = false) {c : Byte}
    (hc : HttpRequest.isspace c = true) : c ∉ xs := by
  intro hin
  rw [h c hin] at hc
  cases hc

theorem cleanHeader_word {field value : List Byte} (hcolon : HttpContext.colon ∉ field)
    (hfield : ∀ b ∈ field, HttpRequest.isspace b = false) (hvalue : ∀ b ∈ value, HttpRequest.isspace b = false) :
    CleanHeader field value where
  no_colon := hcolon
  field_line := ⟨notMem_of_isspace hfield (by decide), notMem_of_isspace hfield (by decide)⟩
  value_line := ⟨notMem_of_isspace hvalue (by decide), notMem_of_isspace hvalue (by decide)⟩
  starts c hc := hvalue c (List.mem_of_mem_head? hc)
  ends c hc := hvalue c (List.mem_of_getLast? hc)

/-- All header fields are clean: those that the response makes by itself, and those of
`headers_`, by assumption. -/
theorem Readable.fields_clean {r : HttpResponse} (h : r.Readable) : ∀ f ∈ r.fields, CleanHeader f.1 f.2 := by
  intro f hf
  rcases List.mem_append.mp hf with hf | hf
  · unfold connectionFields at hf
    split at hf
    · obtain rfl := List.mem_singleton.mp hf
      exact cleanHeader_word (by decide +kernel) (by decide +kernel) (by decide +kernel)
    · simp only [List.mem_cons, List.not_mem_nil, or_false] at hf
      have hname : HttpContext.colon ∉ ascii contentLength ∧
          ∀ b ∈ ascii contentLength, HttpRequest.isspace b = false := by decide +kernel
      rcases hf with rfl | rfl
      · exact cleanHeader_word hname.1 hname.2 fun b hb => decimal_plain hb
      · exact cleanHeader_word (by decide +kernel) (by decide +kernel) (by decide +kernel)
  · exact (h.headers f hf).1

theorem length_headerLines (hs : List (List Byte × List Byte)) :
    (hs.flatMap fun h => Canonical.headerLine h ++ crlf).length =
      (hs.map fun h => h.1.length + h.2.length + 4).sum := by
  rw [List.length_flatMap]
  congr 1
  refine List.map_congr_left fun h _ => ?_
  simp only [Canonical.headerLine, crlf, List.length_append, List.length_cons, List.length_nil]
  omega

/-- It fits a buffer: no append of it fails. -/
theorem Readable.fits {r : HttpResponse} (h : r.Readable) : Buffer.preAppendSize + r.text.length < 2 ^ 63 := by
  have hcode : (decimal r.statusCode.value).length ≤ 3 := by cases r.statusCode <;> decide
  have hdigits : (decimal r.body.length).length ≤ 13 := decimal_length (by decide) h.body
  have hconnection : (r.connectionFields.map fun h => h.1.length + h.2.length + 4).sum ≤ 60 := by
    unfold connectionFields
    split
    · decide
    · simp [ascii, contentLength, connection, keepAlive]
      omega
  have hbody := h.body
  have hsmall := h.small
  rw [text, statusLine, List.length_append, List.length_append, List.length_append, length_headerLines, fields,
    List.map_append, List.sum_append]
  simp only [ascii, httpVersion, crlf, Buffer.preAppendSize, List.length_append, List.length_map, List.length_cons,
    List.length_nil]
  omega

end HttpResponse

namespace Client

open HttpResponse (httpVersion)

variable {r : HttpResponse} {got : List Received} {seen : Received} {field value : List Byte}

theorem number_decimal (n : Nat) : number (ascii (decimal n)) = n := by
  have hdigit : ∀ d < 16, Char.ofNat (UInt8.ofNat d.digitChar.toNat).toNat = d.digitChar := by decide
  have hback : (ascii (decimal n)).map (fun d => Char.ofNat d.toNat) = decimal n := by
    rw [ascii, List.map_map]
    refine (List.map_congr_left fun c hc => ?_).trans (List.map_id (decimal n))
    obtain ⟨d, hd, rfl⟩ := IpText.mem_toDigits (by decide) (by decide) hc
    exact hdigit d hd
  rw [number, hback]
  exact IpText.ofDigits_toDigits (by decide) (by decide) n

theorem readStatusLine_statusLine (r : HttpResponse) :
    readStatusLine r.statusLine = some ⟨r.statusCode.value, r.statusMessage, [], []⟩ := by
  have hline : r.statusLine =
      ascii httpVersion ++ (ascii (decimal r.statusCode.value) ++ HttpContext.space :: r.statusMessage) := by
    rw [HttpResponse.statusLine, HttpResponse.ascii_append, List.append_assoc]
  have hspace : HttpContext.space ∉ ascii (decimal r.statusCode.value) :=
    HttpResponse.notMem_of_isspace (fun _ hb => HttpResponse.decimal_plain hb) (by decide)
  have hlen : httpVersion.length = (ascii httpVersion).length := rfl
  unfold readStatusLine
  dsimp only
  rw [hline, hlen, List.take_left, List.drop_left, HttpContext.idxOf_first hspace,
    if_pos ⟨rfl, HttpContext.first_ne_length _ _⟩, HttpContext.take_first, HttpContext.drop_first, number_decimal]

/-- The status line is one line: no message that can be read has a CRLF in it. -/
theorem line_statusLine (h : r.Readable) (rest : List Byte) :
    Line (r.statusLine ++ crlf ++ rest) r.statusLine rest := by
  have hmessage : searchCRLF (HttpContext.space :: r.statusMessage) = none :=
    Buffer.searchCRLF_cons_none.mpr
      ⟨fun hh => absurd hh.1 (by decide), Buffer.searchCRLF_eq_none.mpr h.message⟩
  have hversion : searchCRLF (ascii (httpVersion ++ decimal r.statusCode.value)) = none := by
    cases r.statusCode <;> decide
  rw [List.append_assoc]
  refine Buffer.line_of_none ?_ rest
  exact Buffer.searchCRLF_append_none hversion hmessage fun hh => absurd (Option.some.inj hh) (by decide)

theorem readField_headerLine (h : CleanHeader field value) :
    readField (Canonical.headerLine (field, value)) = some (field, value) := by
  -- the server takes a value off its line in the same way
  have htrim : trim (HttpContext.space :: value) = value := by
    have hserver := HttpContext.addHeader_headerLine {} h
    unfold HttpRequest.addHeader Canonical.headerLine at hserver
    dsimp only at hserver
    rw [HttpContext.take_first, HttpContext.drop_first] at hserver
    have hget := congrArg (fun r : HttpRequest => r.headers.get? field) hserver
    simp only [SortedMap.get?_set_insert, if_true] at hget
    exact Option.some.inj hget
  unfold readField Canonical.headerLine
  dsimp only
  rw [HttpContext.idxOf_first h.no_colon, if_pos (HttpContext.first_ne_length _ _), HttpContext.take_first,
    HttpContext.drop_first, htrim]

theorem step_statusLine (h : r.Readable) (rest : List Byte) :
    reader.step ⟨.statusLine, got⟩ (r.statusLine ++ crlf ++ rest) =
      some (⟨.fields ⟨r.statusCode.value, r.statusMessage, [], []⟩, got⟩, r.statusLine.length + 2) := by
  have hline := line_statusLine h rest
  simp only [reader, step, hline.first, Option.bind_eq_bind, Option.bind_some, hline.take, readStatusLine_statusLine]
  rfl

theorem step_field (h : CleanHeader field value) (rest : List Byte) :
    reader.step ⟨.fields seen, got⟩ (Canonical.headerLine (field, value) ++ crlf ++ rest) =
      some (⟨.fields { seen with headers := seen.headers ++ [(field, value)] }, got⟩,
        (Canonical.headerLine (field, value)).length + 2) := by
  have hline := HttpContext.line_headerLine h rest
  have hne : (Canonical.headerLine (field, value)).length ≠ 0 := by
    rw [Canonical.headerLine, List.length_append, List.length_cons]
    omega
  simp only [reader, step, hline.first, Option.bind_eq_bind, Option.bind_some, if_neg hne, hline.take,
    readField_headerLine h]
  rfl

/-- **The header fields come in the order they were written in.**  By induction on the fields,
each of which is one line. -/
theorem consume_headers (fields : List (List Byte × List Byte)) (hclean : ∀ f ∈ fields, CleanHeader f.1 f.2) :
    ∀ {seen : Received} (rest : List Byte), reader.consume ⟨.fields seen, got⟩
        (fields.flatMap (fun h => Canonical.headerLine h ++ crlf) ++ rest) =
      reader.consume ⟨.fields { seen with headers := seen.headers ++ fields }, got⟩ rest := by
  induction fields with
  | nil =>
    intro seen rest
    rw [List.append_nil]
    rfl
  | cons f fields ih =>
    intro seen rest
    have hf := hclean f (List.mem_cons_self ..)
    rw [List.flatMap_cons, List.append_assoc, Consumer.consume_of_some (step_field hf _),
      (HttpContext.line_headerLine hf _).drop, ih fun g hg => hclean g (List.mem_cons_of_mem _ hg)]
    simp only [List.append_assoc, List.singleton_append]

/-- The response up to its empty line.  What is left to read is the body, and how far it goes the
fields say. -/
theorem consume_head (h : r.Readable) (rest : List Byte) :
    reader.consume ⟨.statusLine, got⟩ (r.text ++ rest) =
      reader.consume ⟨.fields { r.received with body := [] }, got⟩ (crlf ++ (r.body ++ rest)) := by
  have htext : r.text ++ rest = r.statusLine ++ crlf ++
      (r.fields.flatMap (fun h => Canonical.headerLine h ++ crlf) ++ (crlf ++ (r.body ++ rest))) := by
    simp only [HttpResponse.text, List.append_assoc]
  rw [htext, Consumer.consume_of_some (step_statusLine h _), (line_statusLine h _).drop,
    consume_headers r.fields h.fields_clean]
  rfl

/-- `Content-Length` is there if the connection is kept, and says how long the body is.  There is
no other such field, and the number that was printed is read back. -/
theorem contentLength?_fields (h : r.Readable) :
    contentLength? r.fields = if r.closeConnection then none else some r.body.length := by
  have hrest : r.headers.entries.find? (fun f => isContentLength f.1) = none := by
    rw [List.find?_eq_none]
    intro f hf
    rw [(h.headers f hf).2]
    exact Bool.false_ne_true
  unfold contentLength? HttpResponse.fields HttpResponse.connectionFields
  cases r.closeConnection with
  | true =>
    have hconnection : isContentLength (ascii HttpResponse.connection) = false := by decide
    rw [if_pos rfl, if_pos rfl, List.singleton_append, List.find?_cons, hconnection]
    exact congrArg (Option.map _) hrest
  | false =>
    have hname : isContentLength (ascii HttpResponse.contentLength) = true := by decide
    rw [if_neg Bool.noConfusion, if_neg Bool.noConfusion, List.cons_append, List.find?_cons, hname]
    exact congrArg some (number_decimal r.body.length)

theorem step_crlf (rest : List Byte) :
    reader.step ⟨.fields seen, got⟩ (crlf ++ rest) = readBody ⟨.fields seen, got⟩ seen (crlf ++ rest) := rfl

/-- **A response that keeps the connection** has its end where its body ends, and the next begins
there.  So responses can follow one another. -/
theorem consume_kept (h : r.Readable) (hkept : r.closeConnection = false) (rest : List Byte) :
    reader.consume ⟨.statusLine, got⟩ (r.text ++ rest) = reader.consume ⟨.statusLine, got ++ [r.received]⟩ rest := by
  have hlen := contentLength?_fields h
  rw [hkept, if_neg Bool.noConfusion] at hlen
  have hbody : reader.step ⟨.fields { r.received with body := [] }, got⟩ (crlf ++ (r.body ++ rest)) =
      some (⟨.statusLine, got ++ [r.received]⟩, r.body.length + 2) := by
    have hfits : r.body.length + 2 ≤ (crlf ++ (r.body ++ rest)).length := by
      simp only [crlf, List.length_append, List.length_cons, List.length_nil]
      omega
    have htake : ((crlf ++ (r.body ++ rest)).drop 2).take r.body.length = r.body := List.take_left
    rw [step_crlf, readBody]
    simp only [HttpResponse.received, hlen, if_pos hfits, htake]
  have hdrop : ((crlf ++ r.body) ++ rest).drop (r.body.length + 2) = rest := List.drop_left
  rw [consume_head h, Consumer.consume_of_some hbody, ← List.append_assoc, hdrop]

/-- To the end of the stream every byte is taken. -/
theorem consume_untilEnd (xs : List Byte) : ∀ {seen : Received}, reader.consume ⟨.untilEnd seen, got⟩ xs =
    (⟨.untilEnd { seen with body := seen.body ++ xs }, got⟩, []) := by
  induction xs with
  | nil =>
    intro seen
    rw [List.append_nil]
    exact Consumer.consume_of_none rfl
  | cons x xs ih =>
    intro seen
    have hstep : reader.step ⟨.untilEnd seen, got⟩ (x :: xs) =
        some (⟨.untilEnd { seen with body := seen.body ++ [x] }, got⟩, 1) := rfl
    rw [Consumer.consume_of_some hstep, List.drop_one, List.tail_cons, ih]
    simp only [List.append_assoc, List.singleton_append]

/-- **A response that closes the connection** ends with the stream.  It can only be the last. -/
theorem consume_closing (h : r.Readable) (hcloses : r.closeConnection = true) :
    reader.consume ⟨.statusLine, got⟩ r.text = (⟨.untilEnd r.received, got⟩, []) := by
  have hlen := contentLength?_fields h
  rw [hcloses, if_pos rfl] at hlen
  have hbody : reader.step ⟨.fields { r.received with body := [] }, got⟩ (crlf ++ (r.body ++ [])) =
      some (⟨.untilEnd { r.received with body := [] }, got⟩, 2) := by
    rw [step_crlf, readBody]
    simp only [HttpResponse.received, hlen]
  have hdrop : (crlf ++ (r.body ++ [])).drop 2 = r.body := List.append_nil r.body
  have hhead : reader.consume ⟨.statusLine, got⟩ (r.text ++ []) = _ := consume_head h []
  rw [List.append_nil] at hhead
  rw [hhead, Consumer.consume_of_some hbody, hdrop, consume_untilEnd]
  rfl

end Client

end Suduo.Http
