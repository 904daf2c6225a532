/-
# A request written out is parsed back

The other direction of `HttpGrammar`: not which texts `parseRequest` accepts, but what it makes of
one.  `Canonical` is a request as a client writes it, with what makes its text readable as fields:
no piece holds a byte that would end it.  A path may well hold a lone CR or LF; only the two
together end a line.

The text is read back in two parts: the request line in one step, and the header block by an
induction over its fields.  Each line sets one entry of the map, so a field that comes twice has its
last value.
-/
import Suduo.Bench.HttpGrammar

namespace Suduo.Http

open Lib
open Buffer (Line searchCRLF)

/-! ## 1. The text of a request -/

namespace HttpRequest

/-- `methodString`. -/
def methodString : Method → List Byte
  | .kInvalid => ascii ['U', 'N', 'K', 'N', 'O', 'W', 'N']
  | .kGet => ascii ['G', 'E', 'T']
  | .kPost => ascii ['P', 'O', 'S', 'T']
  | .kHead => ascii ['H', 'E', 'A', 'D']
  | .kPut => ascii ['P', 'U', 'T']
  | .kDelete => ascii ['D', 'E', 'L', 'E', 'T', 'E']

theorem methodOf_methodString {m : Method} (h : m ≠ .kInvalid) : methodOf (methodString m) = m := by
  cases m with
  | kInvalid => exact absurd rfl h
  | _ => decide

theorem methodString_mem {m : Method} (h : m ≠ .kInvalid) : methodString m ∈ methods := by
  cases m with
  | kInvalid => exact absurd rfl h
  | _ => decide

end HttpRequest

/-- How a version is written. -/
def versionString : Version → List Byte
  | .kUnknown => []
  | .kHttp10 => ascii ['H', 'T', 'T', 'P', '/', '1', '.', '0']
  | .kHttp11 => ascii ['H', 'T', 'T', 'P', '/', '1', '.', '1']

/-- The end of a line. -/
def crlf : List Byte := [13, 10]

/-- A header field that can be written on a line, and its value, which has no space around it.
`addHeader` would take such a space away. -/
structure CleanHeader (field value : List Byte) : Prop where
  no_colon : HttpContext.colon ∉ field
  field_line : 13 ∉ field ∧ 10 ∉ field
  value_line : 13 ∉ value ∧ 10 ∉ value
  starts : ∀ c ∈ value.head?, HttpRequest.isspace c = false
  ends : ∀ c ∈ value.getLast?, HttpRequest.isspace c = false

/-- A request as it is written.  No piece holds what ends it: the conditions are on each piece by
itself. -/
structure Canonical where
  method : Method
  path : List Byte
  query : List Byte
  version : Version
  headers : List (List Byte × List Byte)
  known : method ≠ .kInvalid
  spoken : version ≠ .kUnknown
  path_clean : HttpContext.space ∉ path ∧ HttpContext.questionMark ∉ path ∧ ¬ crlf <:+: path
  query_clean : HttpContext.space ∉ query ∧ ¬ crlf <:+: query
  query_starts : query = [] ∨ query.head? = some HttpContext.questionMark
  headers_clean : ∀ h ∈ headers, CleanHeader h.1 h.2

namespace Canonical

def requestLine (q : Canonical) : List Byte :=
  HttpRequest.methodString q.method ++ HttpContext.space ::
    ((q.path ++ q.query) ++ HttpContext.space :: versionString q.version)

/-- `field: value`. -/
def headerLine (h : List Byte × List Byte) : List Byte :=
  h.1 ++ HttpContext.colon :: HttpContext.space :: h.2

def text (q : Canonical) : List Byte :=
  q.requestLine ++ crlf ++ q.headers.flatMap (fun h => headerLine h ++ crlf) ++ crlf

end Canonical

/-! ## 2. One header -/

namespace HttpContext

variable {t : Int} {c : HttpContext} {rest : List Byte}

/-- `addHeader` takes the value off its line as it was put there: behind the colon, and without
the one space that was written there. -/
theorem addHeader_headerLine (r : HttpRequest) {field value : List Byte} (h : CleanHeader field value) :
    r.addHeader (Canonical.headerLine (field, value)) field.length =
      { r with headers := (r.headers.insert field []).set field value } := by
  have hleft : (space :: value).dropWhile HttpRequest.isspace = value := by
    rw [List.dropWhile_cons_of_pos (by decide), List.dropWhile_eq_self_iff]
    intro hl hspace
    have hstart := h.starts _ (List.head?_eq_getElem? ▸ List.getElem?_eq_getElem hl)
    rw [hstart] at hspace
    cases hspace
  have hright : value.reverse.dropWhile HttpRequest.isspace = value.reverse := by
    rw [List.dropWhile_eq_self_iff]
    intro hl hspace
    have hend := h.ends (value.reverse.get ⟨0, hl⟩) (by
      rw [← List.head?_reverse, List.head?_eq_getElem?]
      exact List.getElem?_eq_getElem hl)
    rw [List.get_eq_getElem] at hend
    rw [hend] at hspace
    cases hspace
  unfold HttpRequest.addHeader Canonical.headerLine
  dsimp only
  rw [take_first, drop_first, hleft, hright, List.reverse_reverse]

/-- A header line is one line, with its first colon after the field.  A value may have colons of
its own. -/
theorem line_headerLine {field value : List Byte} (h : CleanHeader field value) (rest : List Byte) :
    Line (Canonical.headerLine (field, value) ++ crlf ++ rest) (Canonical.headerLine (field, value)) rest := by
  rw [List.append_assoc]
  refine Buffer.line_of_none (Buffer.searchCRLF_of_notMem ?_) rest
  rw [Canonical.headerLine, List.mem_append, List.mem_cons, List.mem_cons]
  rintro (hin | hin | hin | hin)
  · exact h.field_line.1 hin
  · exact absurd hin (by decide)
  · exact absurd hin (by decide)
  · exact h.value_line.1 hin

theorem step_headerLine (hstate : c.state = .kExpectHeaders) {field value : List Byte}
    (h : CleanHeader field value) (rest : List Byte) :
    (parser t).step (true, c) (Canonical.headerLine (field, value) ++ crlf ++ rest) =
      some ((true, { c with request :=
        { c.request with headers := (c.request.headers.insert field []).set field value } }),
        (Canonical.headerLine (field, value)).length + 2) := by
  have hline := line_headerLine h rest
  have hcolon : (Canonical.headerLine (field, value)).idxOf colon = field.length :=
    idxOf_first h.no_colon _
  have hfound : field.length ≠ (Canonical.headerLine (field, value)).length := first_ne_length _ _
  refine step_eq_some.mpr ⟨_, true, hline.first, ?_, rfl⟩
  rw [hline.take]
  simp only [onLine, hstate]
  rw [hcolon, if_pos hfound, addHeader_headerLine _ h]

/-! ## 3. The header block -/

/-- The map with one header more. -/
def addField (headers : SortedMap (List Byte) (List Byte)) (h : List Byte × List Byte) :
    SortedMap (List Byte) (List Byte) := (headers.insert h.1 []).set h.1 h.2

/-- The empty line ends the header block, as any line without a colon would. -/
theorem step_emptyLine (hstate : c.state = .kExpectHeaders) (rest : List Byte) :
    (parser t).step (true, c) (crlf ++ rest) = some ((true, { c with state := .kGotAll }), 2) := by
  have hline : Line (crlf ++ rest) [] rest := ⟨rfl, rfl⟩
  refine step_eq_some.mpr ⟨_, true, hline.first, ?_, rfl⟩
  rw [hline.take]
  simp only [onLine, hstate]
  rfl

/-- **A header block is taken field by field**, by induction on the fields, up to the empty line. -/
theorem consume_fields (headers : List (List Byte × List Byte))
    (hclean : ∀ h ∈ headers, CleanHeader h.1 h.2) : ∀ {c : HttpContext}, c.state = .kExpectHeaders →
    (parser t).consume (true, c)
        (headers.flatMap (fun h => Canonical.headerLine h ++ crlf) ++ crlf ++ rest) =
      ((true, ⟨.kGotAll, { c.request with headers := headers.foldl addField c.request.headers }⟩), rest) := by
  induction headers with
  | nil =>
    intro c hstate
    rw [List.flatMap_nil, List.nil_append, Consumer.consume_of_some (step_emptyLine hstate rest)]
    exact Consumer.consume_of_none (step_done (.inr rfl) _)
  | cons h headers ih =>
    intro c hstate
    have hh := hclean h (List.mem_cons_self ..)
    rw [List.flatMap_cons, List.append_assoc, List.append_assoc,
      Consumer.consume_of_some (step_headerLine hstate hh _), (line_headerLine hh _).drop, ← List.append_assoc,
      ih fun h' hin => hclean h' (List.mem_cons_of_mem _ hin)]
    · rfl
    · exact hstate

/-- What stands in the map afterwards: the last value of each field.  `addHeader` overwrites. -/
theorem get?_foldl_addField (headers : List (List Byte × List Byte)) (field : List Byte) :
    ∀ m : SortedMap (List Byte) (List Byte),
      (headers.foldl addField m).get? field = (headers.reverse.lookup field).or (m.get? field) := by
  induction headers with
  | nil => exact fun _ => rfl
  | cons h headers ih =>
    intro m
    rw [List.foldl_cons, ih, List.reverse_cons, List.lookup_append, Option.or_assoc, addField,
      SortedMap.get?_set_insert]
    congr 1
    by_cases heq : field = h.1
    · rw [if_pos heq, List.lookup_cons, beq_iff_eq.mpr heq]
      rfl
    · rw [if_neg heq, List.lookup_cons, beq_eq_false_iff_ne.mpr heq]
      rfl

/-! ## 4. The request line -/

theorem setTarget_canonical (q : Canonical) (r : HttpRequest) (hr : r.query = []) :
    setTarget r (q.path ++ q.query) = { r with path := q.path, query := q.query } := by
  unfold setTarget
  dsimp only
  rcases q.query_starts with hnone | hsome
  · rw [hnone, List.append_nil, List.idxOf_eq_length q.path_clean.2.1, if_neg (not_not_intro rfl), ← hr]
  · obtain ⟨query, hq⟩ := List.head?_eq_some_iff.mp hsome
    rw [hq, idxOf_first q.path_clean.2.1, if_pos (first_ne_length _ _), List.take_left, List.drop_left]

theorem processVersion_versionString {v : Version} (h : v ≠ .kUnknown) (r : HttpRequest) :
    processVersion r (versionString v) = (true, { r with version := v }) := by
  cases v with
  | kUnknown => exact absurd rfl h
  | _ => rfl

theorem processRequestLine_canonical (q : Canonical) : processRequestLine {} q.requestLine =
    .ok (true, { method := q.method, path := q.path, query := q.query, version := q.version }) := by
  have htarget : space ∉ q.path ++ q.query := by
    rw [List.mem_append, not_or]
    exact ⟨q.path_clean.1, q.query_clean.1⟩
  have hmethod := HttpRequest.methodString_mem q.known
  rw [Canonical.requestLine, processRequestLine_words rfl (space_notMem_method _ hmethod) htarget, if_pos hmethod,
    HttpRequest.methodOf_methodString q.known, setTarget_canonical q _ rfl,
    processVersion_versionString q.spoken]

/-- The request line is one line.  Path and query have no CRLF in them. -/
theorem line_requestLine (q : Canonical) (rest : List Byte) :
    Line (q.requestLine ++ crlf ++ rest) q.requestLine rest := by
  rw [List.append_assoc]
  refine Buffer.line_of_none ?_ rest
  have hspace {xs : List Byte} : (space :: xs).head? ≠ some 10 :=
    fun h => absurd (Option.some.inj h) (by decide)
  have hversion : searchCRLF (space :: versionString q.version) = none := by
    cases q.version <;> decide
  have hquery : searchCRLF (q.query ++ space :: versionString q.version) = none :=
    Buffer.searchCRLF_append_none (Buffer.searchCRLF_eq_none.mpr q.query_clean.2) hversion hspace
  have hmeet : (q.query ++ space :: versionString q.version).head? ≠ some 10 := by
    rcases q.query_starts with hnone | hsome
    · rw [hnone]
      exact hspace
    · rw [List.head?_append, hsome]
      exact fun h => absurd (Option.some.inj h) (by decide)
  have hmethod : searchCRLF (HttpRequest.methodString q.method) = none := by
    cases q.method <;> decide
  have htarget : searchCRLF (space :: (q.path ++ (q.query ++ space :: versionString q.version))) = none := by
    refine Buffer.searchCRLF_cons_none.mpr ⟨fun h => absurd h.1 (by decide), ?_⟩
    exact Buffer.searchCRLF_append_none (Buffer.searchCRLF_eq_none.mpr q.path_clean.2.2) hquery hmeet
  rw [Canonical.requestLine, List.append_assoc]
  exact Buffer.searchCRLF_append_none hmethod htarget hspace

/-- The request that a text stands for. -/
def parsed (q : Canonical) (t : Int) : HttpRequest where
  method := q.method
  path := q.path
  query := q.query
  version := q.version
  receiveTime := t
  headers := q.headers.foldl addField .empty

/-- **The whole text**, and what the parser has read from it.  This is an equation, so nothing of
the request is left out. -/
theorem consume_text (q : Canonical) (t : Int) (trailing : List Byte) :
    (parser t).consume (true, {}) (q.text ++ trailing) = ((true, ⟨.kGotAll, parsed q t⟩), trailing) := by
  have hsplit : q.text ++ trailing = q.requestLine ++ crlf ++
      (q.headers.flatMap (fun h => Canonical.headerLine h ++ crlf) ++ crlf ++ trailing) := by
    simp only [Canonical.text, List.append_assoc]
  have hline := line_requestLine q
    (q.headers.flatMap (fun h => Canonical.headerLine h ++ crlf) ++ crlf ++ trailing)
  have hstep : (parser t).step (true, {}) (q.text ++ trailing) = some ((true, ⟨.kExpectHeaders,
      { method := q.method, path := q.path, query := q.query, version := q.version, receiveTime := t }⟩),
      q.requestLine.length + 2) := by
    rw [hsplit]
    refine step_eq_some.mpr ⟨_, true, hline.first, ?_, rfl⟩
    rw [hline.take]
    simp only [onLine, processRequestLine_canonical]
  rw [Consumer.consume_of_some hstep, hsplit, hline.drop, consume_fields q.headers q.headers_clean rfl]
  rfl

/-- **A canonical request is parsed back.**  The text of a request, with any bytes behind it, on a
fresh context: `parseRequest` returns, the request is complete, it has the method, path, query and
version that were written, each field has the value of its last occurrence and no other field is
there, and exactly the bytes behind it are left. -/
theorem parse_text (q : Canonical) (trailing : List Byte) (t : Int) (b : Buffer) (h : b.Wf)
    (hb : b.contents = q.text ++ trailing) :
    ∃ c b', parseRequest t {} b = some (.ok (true, c, b')) ∧ c.gotAll = true ∧
      c.request.method = q.method ∧ c.request.path = q.path ∧ c.request.query = q.query ∧
      c.request.version = q.version ∧
      (∀ field, c.request.headers.get? field = q.headers.reverse.lookup field) ∧
      b'.contents = trailing := by
  obtain ⟨ok, c, b', hparse, -, hall, -⟩ := parseRequest_spec (t := t) Buffer.readable_wf h ready_new
  rw [hb, consume_text] at hall
  simp only [Prod.mk.injEq] at hall
  obtain ⟨⟨rfl, rfl⟩, hleft⟩ := hall
  refine ⟨_, b', hparse, rfl, rfl, rfl, rfl, rfl, fun field => ?_, hleft.symm⟩
  have hfield := get?_foldl_addField q.headers field .empty
  rwa [SortedMap.get?_empty, Option.or_none] at hfield

/-- No path, a query, and the fields `A`, the empty one, and `A` again, whose first value is empty. -/
def repeatedField : Canonical where
  method := .kPut
  path := []
  query := ascii ['?', 'x']
  version := .kHttp10
  headers := [(ascii ['A'], []), ([], ascii ['c', ' ', 'd']), (ascii ['A'], ascii ['b'])]
  known := by decide
  spoken := by decide
  path_clean := by decide
  query_clean := by decide
  query_starts := .inr rfl
  headers_clean := by
    intro h hin
    simp only [List.mem_cons, List.not_mem_nil, or_false] at hin
    rcases hin with rfl | rfl | rfl <;> refine ⟨by decide, by decide, by decide, ?_, ?_⟩ <;>
      rintro c ⟨⟩ <;> rfl

theorem parse_text_repeatedField : ∃ b : Buffer, b.contents = repeatedField.text ++ crlf ∧
    ∃ c b', parseRequest 7 {} b = some (.ok (true, c, b')) ∧ c.gotAll = true ∧
      c.request.headers.get? (ascii ['A']) = some (ascii ['b']) ∧
      c.request.headers.get? (ascii ['B']) = none ∧ b'.contents = crlf := by
  have hfits : Buffer.new.writeIndex + (repeatedField.text ++ crlf).length < 2 ^ 63 := by decide
  obtain ⟨b, -, hwf, hb⟩ := Buffer.append_spec (Buffer.new_wf Buffer.initSize) hfits
  rw [Buffer.new_contents, List.nil_append] at hb
  obtain ⟨c, b', hparse, hgot, -, -, -, -, hheaders, hleft⟩ := parse_text repeatedField crlf 7 b hwf hb
  refine ⟨b, hb, c, b', hparse, hgot, ?_, ?_, hleft⟩
  · rw [hheaders]
    decide
  · rw [hheaders]
    decide

end HttpContext

end Suduo.Http
