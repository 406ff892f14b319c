import HarnessConformance.Lib.Splitting
import HarnessConformance.Lib.JsonRoundTrip
import HarnessConformance.Admission.Document
import HarnessConformance.LinuxReadiness.CaseRecord

/-! # HTTP messages

`http_message`, `parse_headers` and `read_http` of `live_proxy_client.py`, over a peer that hands out the bytes
of a stream in pieces of its own choosing. -/

namespace HarnessConformance.ProxyClient
open Lib Lib.Outcome Lib.Lines Lib.Splitting
open Admission (require require_eq_ok refusal)
set_option autoImplicit false

/-! ## Text -/

def asciiBytes (text : String) : Bytes := text.toList.map fun c => UInt8.ofNat c.toNat

/-- `text.encode("ascii")` -/
def encodeAscii (text : String) : Py Bytes :=
  if text.toList.all fun c => c.toNat < 128 then .ok (asciiBytes text) else .error .unicodeEncodeError

/-- The bytes as characters of the same numbers. -/
def latin (bytes : Bytes) : List Char := bytes.map fun b => Char.ofNat b.toNat

/-- `name.lower()` -/
def lower (name : Bytes) : Bytes := name.map fun b => if 65 ≤ b ∧ b ≤ 90 then b + 32 else b

def crlf : Bytes := [13, 10]

/-- `b"\r\n\r\n"` -/
def blankLine : Bytes := [13, 10, 13, 10]

/-! ## Messages -/

/-- `[A-Za-z0-9.:-]{1,253}` -/
def hostPattern : Regex := .between (.one fun c => c.isAlphanum || c ∈ ['.', ':', '-']) 1 252

/-- `http_message(first, body, host)` -/
def httpMessage (first : String) (body : Bytes) (host : Option String) : Py Bytes := do
  require "HTTP_MESSAGE_INVALID" ('\r' ∉ first.toList ∧ '\n' ∉ first.toList)
  let headers := [first, "Content-Type: application/json",
    "Content-Length: " ++ String.ofList (Json.encodeNat body.length), "Connection: close"]
  let headers ← match host with
    | none => pure headers
    | some host => do
      require "HTTP_HOST_INVALID" (hostPattern.fullmatch host)
      pure (headers ++ ["Host: " ++ host])
  pure ((← encodeAscii ("\r\n".intercalate headers ++ "\r\n\r\n")) ++ body)

abbrev Fields := List (Bytes × Bytes)

def headerNames : List Bytes :=
  [asciiBytes "host", asciiBytes "content-type", asciiBytes "content-length", asciiBytes "connection"]

/-- One round of the loop over the header lines. -/
def headerField (fields : Fields) (line : Bytes) : Py Fields :=
  match cut (asciiBytes ": ") line with
  | none => .error (refusal "HTTP_HEADERS_INVALID")
  | some (name, value) => do
    require "HTTP_HEADERS_INVALID" (¬ (asciiBytes " " <+: line ∨ asciiBytes "\t" <+: line))
    let name := lower name
    require "HTTP_HEADER_FORBIDDEN" (name ∈ headerNames ∧ name ∉ fields.map Prod.fst ∧ value ≠ [] ∧
      ∀ n ∈ value, 32 ≤ n ∧ n ≤ 126)
    pure (fields ++ [(name, value)])

/-- The names of a complete header. -/
def expectedNames (response : Bool) : List Bytes :=
  [asciiBytes "content-type", asciiBytes "content-length", asciiBytes "connection"] ++
    if response then [] else [asciiBytes "host"]

/-- `0|[1-9][0-9]{0,6}` -/
def lengthPattern : Regex :=
  .alt (.char '0') (.seq (.one fun c => '1' ≤ c && c ≤ '9') (.upTo (.one fun c => c.isDigit) 6))

/-- The length that a complete header states. -/
def contentLength (response : Bool) (fields : Fields) : Py ℕ :=
  match fields.lookup (asciiBytes "content-length") with
  | none => .error (refusal "HTTP_HEADERS_INVALID")
  | some value => do
    require "HTTP_HEADERS_INVALID" ((∀ name ∈ fields.map Prod.fst, name ∈ expectedNames response) ∧
      (∀ name ∈ expectedNames response, name ∈ fields.map Prod.fst) ∧
      fields.lookup (asciiBytes "content-type") = some (asciiBytes "application/json") ∧
      fields.lookup (asciiBytes "connection") = some (asciiBytes "close") ∧
      lengthPattern.fullmatchChars (latin value))
    pure (Json.natOfDigits (latin value))

/-- `host.encode("ascii")` -/
def hostBytes : Option String → Py Bytes
  | none => .error .attributeError
  | some host => encodeAscii host

def statusLine : Bytes := asciiBytes "HTTP/1.1 200 OK"

def requestLines : List Bytes := Case.all.map fun case => asciiBytes ("POST " ++ case.path ++ " HTTP/1.1")

/-- The first line answers the fixed way, or asks for the one host. -/
def requireTarget (first : Bytes) (response : Bool) (fields : Fields) (host : Option String) : Py Unit :=
  if response then require "HTTP_STATUS_INVALID" (first = statusLine)
  else if first ∈ requestLines then do
    let host ← hostBytes host
    require "HTTP_REQUEST_TARGET" (fields.lookup (asciiBytes "host") = some host)
  else .error (refusal "HTTP_REQUEST_TARGET")

/-- `parse_headers(raw, response, host)` -/
def parseHeaders (raw : Bytes) (response : Bool) (host : Option String) : Py (Bytes × ℕ) := do
  require "HTTP_HEADERS_INVALID" (raw.length ≤ 16384 ∧ blankLine <:+ raw)
  let lines := split crlf (raw.take (raw.length - 4))
  require "HTTP_HEADERS_INVALID" (lines ≠ [] ∧ lines.length ≤ 32)
  let fields ← lines.tail.foldlM headerField []
  let length ← contentLength response fields
  require "HTTP_BODY_SIZE" (0 < length ∧ length ≤ if response then 4194304 else 16384)
  let first := lines.headD []
  requireTarget first response fields host
  pure (first, length)

/-! ## The peer -/

/-- The other end of a connection: what it has not delivered yet, and what it chooses at its calls in order. -/
structure Peer where
  rest : Bytes
  choices : ℕ → ℕ

namespace Peer

variable (peer : Peer)

/-- `tls.read(n)`: some bytes of the stream, at most `n` of them, and none only at its end. -/
def read (n : ℕ) : Bytes × Peer :=
  let size := min n (max 1 (peer.choices 0))
  (peer.rest.take size, ⟨peer.rest.drop size, fun i => peer.choices (i + 1)⟩)

/-- `tls.ssl.pending()` -/
def pending : ℕ × Peer := (min (peer.choices 0) peer.rest.length, ⟨peer.rest, fun i => peer.choices (i + 1)⟩)

/-- `tls.incoming.pending` -/
def incoming : ℕ × Peer := (peer.choices 0, ⟨peer.rest, fun i => peer.choices (i + 1)⟩)

theorem read_append (n : ℕ) : (peer.read n).1 ++ (peer.read n).2.rest = peer.rest := List.take_append_drop _ _

theorem read_length_le (n : ℕ) : (peer.read n).1.length ≤ n := by
  have htake := List.length_take_le (min n (max 1 (peer.choices 0))) peer.rest
  exact htake.trans (Nat.min_le_left _ _)

variable {peer} in
theorem read_eq_nil {n : ℕ} (hn : 0 < n) : (peer.read n).1 = [] ↔ peer.rest = [] := by
  rw [read, List.take_eq_nil_iff]
  have hsize : min n (max 1 (peer.choices 0)) ≠ 0 := by omega
  exact or_iff_right hsize

/-- Every cut of the stream is a choice. -/
theorem exists_read {n : ℕ} {piece rest : Bytes} (hpiece : piece ≠ []) (hn : piece.length ≤ n) :
    ∃ choices, (read ⟨piece ++ rest, choices⟩ n).1 = piece := by
  have hpos := List.length_pos_iff.mpr hpiece
  have hsize : min n (max 1 piece.length) = piece.length := by omega
  exact ⟨fun _ => piece.length, by rw [read, hsize, List.take_left]⟩

end Peer

/-! ## Reading -/

/-- The loop up to the blank line. -/
def readHeaders (peer : Peer) (data : Bytes) : Py (Bytes × Peer) :=
  if cut blankLine data ≠ none then .ok (data, peer)
  else if 16384 ≤ data.length then .error (refusal "HTTP_HEADERS_SIZE")
  else
    let (part, rest) := peer.read (min 4096 (16384 - data.length))
    if part = [] then .error (refusal "HTTP_TRUNCATED_HEADERS") else readHeaders rest (data ++ part)
termination_by 16384 - data.length
decreasing_by
  have hpart := List.length_pos_iff.mpr ‹¬ part = []›
  simp only [List.length_append]
  omega

/-- The loop over the body. -/
def readBody (size : ℕ) (peer : Peer) (body : Bytes) : Py (Bytes × Peer) :=
  if size ≤ body.length then .ok (body, peer)
  else
    let (part, rest) := peer.read (min 65536 (size + 1 - body.length))
    if part = [] then .error (refusal "HTTP_TRUNCATED_BODY")
    else if size < (body ++ part).length then .error (refusal "HTTP_SURPLUS")
    else readBody size rest (body ++ part)
termination_by size - body.length
decreasing_by
  have hpart := List.length_pos_iff.mpr ‹¬ part = []›
  simp only [List.length_append]
  omega

/-- `read_http(tls, response, host)`, with no deadline passing. -/
def readHttp (peer : Peer) (response : Bool) (host : Option String) : Py (Bytes × Bytes) := do
  let (data, peer) ← readHeaders peer []
  let (headers, body) := (cut blankLine data).getD (data, [])
  let (first, size) ← parseHeaders (headers ++ blankLine) response host
  require "HTTP_SURPLUS" (body.length ≤ size)
  let (body, peer) ← readBody size peer body
  let (pending, peer) := peer.pending
  require "HTTP_PIPELINING" (pending = 0)
  if response then do
    let (part, _) := peer.read 1
    require "HTTP_SURPLUS" (part = [])
    pure (first, body)
  else do
    let (incoming, _) := peer.incoming
    require "HTTP_BUFFERED_RECORD_SURPLUS" (incoming = 0)
    pure (first, body)

end HarnessConformance.ProxyClient
