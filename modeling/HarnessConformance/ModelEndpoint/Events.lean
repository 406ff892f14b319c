import HarnessConformance.Lib.JsonLoads
import HarnessConformance.Lib.Utf8
import HarnessConformance.ModelEndpoint.Guard

/-! # Event streams

`_parse_json` and `MeqClient._events` of `tests/model_endpoint/_client.py`: the values that a stream of server-sent
events carries up to its terminal event. -/

namespace HarnessConformance.ModelEndpoint
open Lib Lib.Outcome Lib.Lines Lib.Splitting Lib.Utf8
open Lib.JsonLoads (Text Loaded ReadLimits loads)
set_option autoImplicit false

/-- `MAX_SSE_TOTAL_BYTES` -/
def maxSseTotalBytes : ℕ := 8 * 1024 * 1024

/-- `MAX_SSE_LINE_BYTES` -/
def maxSseLineBytes : ℕ := 1024 * 1024

/-- `_parse_json(raw)` of text. -/
def parseText (limits : ReadLimits) (text : Text) : Except MeqCode Loaded :=
  match loads limits text with
  | none => .error .malformedJson
  | some v => .ok v

/-- `_parse_json(raw)` of bytes. -/
def parseBytes (limits : ReadLimits) (raw : Bytes) : Except MeqCode Loaded :=
  match decodeText raw with
  | none => .error .malformedJson
  | some text => parseText limits text

/-! ## The response -/

/-- A response that is being read: what is left of it, and the failure that comes behind that, if it does not end. -/
structure Response where
  rest : Bytes
  failure : Option MeqCode

/-- `response.readline(limit)` -/
def Response.readline (limit : ℕ) (r : Response) : Except MeqCode (Bytes × Response) :=
  match cut [lineFeed] r.rest with
  | some (line, behind) =>
    if line.length < limit then .ok (line ++ [lineFeed], { r with rest := behind })
    else .ok (r.rest.take limit, { r with rest := r.rest.drop limit })
  | none =>
    match r.failure with
    | some code =>
      if r.rest.length < limit then .error code else .ok (r.rest.take limit, { r with rest := r.rest.drop limit })
    | none => .ok (r.rest.take limit, { r with rest := r.rest.drop limit })

theorem Response.readline_append {limit : ℕ} {r r' : Response} {line : Bytes} (h : r.readline limit = .ok (line, r')) :
    line ++ r'.rest = r.rest := by
  unfold Response.readline at h
  cases hcut : cut [lineFeed] r.rest with
  | some parts =>
    obtain ⟨before, behind⟩ := parts
    rw [hcut] at h
    dsimp only at h
    split at h
    · obtain ⟨rfl, rfl⟩ := Prod.mk.inj (Except.ok.inj h)
      exact (cut_eq hcut).symm
    · obtain ⟨rfl, rfl⟩ := Prod.mk.inj (Except.ok.inj h)
      exact List.take_append_drop limit r.rest
  | none =>
    rw [hcut] at h
    dsimp only at h
    split at h
    · split at h
      · cases h
      · obtain ⟨rfl, rfl⟩ := Prod.mk.inj (Except.ok.inj h)
        exact List.take_append_drop limit r.rest
    · obtain ⟨rfl, rfl⟩ := Prod.mk.inj (Except.ok.inj h)
      exact List.take_append_drop limit r.rest

/-! ## The loop -/

/-- `events`, `data_lines` and `total`. -/
structure Progress where
  events : List Loaded
  dataLines : List Text
  total : ℕ

/-- `text.endswith("\r")`, and the text without it. -/
def stripReturn (text : Text) : Text := if text.getLast? = some '\r' then text.dropLast else text

def stripSpace (value : Text) : Text := if value.head? = some ' ' then value.drop 1 else value

def terminal : Text := "[DONE]".toList

/-- An empty line: the data lines before it are an event, or the terminal event. -/
def dispatch (limits : ReadLimits) (s : Progress) : Except MeqCode (Progress ⊕ List Loaded) :=
  if s.dataLines = [] then .ok (.inl s)
  else
    let data := ['\n'].intercalate s.dataLines
    if data = terminal then .ok (.inr s.events)
    else do
      let v ← parseText limits data
      pure (.inl { s with events := s.events ++ [v], dataLines := [] })

/-- A line that is not empty. -/
def field (s : Progress) (text : Text) : Except MeqCode Progress :=
  if text.head? = some ':' then .ok s
  else
    match cut [':'] text with
    | none => .error .sseFraming
    | some (name, value) =>
      if name = "data".toList then .ok { s with dataLines := s.dataLines ++ [stripSpace value] }
      else if name ∈ ["event".toList, "id".toList, "retry".toList] then .ok s
      else .error .sseFraming

/-- One round of the loop, with the line read. -/
def eventLine (limits : ReadLimits) (s : Progress) (line : Bytes) : Except MeqCode (Progress ⊕ List Loaded) := do
  let s := { s with total := s.total + line.length }
  guardWith .oversize (s.total ≤ maxSseTotalBytes ∧ line.length ≤ maxSseLineBytes)
  guardWith .sseFraming (line.getLast? = some lineFeed)
  match decodeText line.dropLast with
  | none => .error .sseFraming
  | some text => do
    guardWith .sseFraming ('\r' ∉ stripReturn text)
    if stripReturn text = [] then dispatch limits s
    else do
      let s ← field s (stripReturn text)
      pure (.inl s)

theorem eventLine_ended {limits : ReadLimits} {s : Progress} {line : Bytes} {r : Progress ⊕ List Loaded}
    (h : eventLine limits s line = .ok r) : line ≠ [] := by
  unfold eventLine at h
  simp only [bind_eq_ok, guardWith_eq_ok] at h
  obtain ⟨_, -, _, hlast, -⟩ := h
  rintro rfl
  cases hlast

/-- The rounds of the loop. `poll` is what `cancel` and the deadline say before each of them. -/
def rounds (limits : ReadLimits) (poll : ℕ → Option MeqCode) (count : ℕ) (r : Response) (s : Progress) : Except MeqCode (List Loaded) :=
  match poll count with
  | some code => .error code
  | none =>
    match _hread : r.readline (maxSseLineBytes + 1) with
    | .error code => .error code
    | .ok (line, r') =>
      match _hline : eventLine limits s line with
      | .error code => .error code
      | .ok (.inr events) => .ok events
      | .ok (.inl s') => rounds limits poll (count + 1) r' s'
termination_by r.rest.length
decreasing_by
  have happend := congrArg List.length (Response.readline_append _hread)
  have hpos := List.length_pos_iff.mpr (eventLine_ended _hline)
  rw [List.length_append] at happend
  omega

/-- `_events(exchange, cancel)` -/
def events (limits : ReadLimits) (poll : ℕ → Option MeqCode) (r : Response) : Except MeqCode (List Loaded) :=
  rounds limits poll 0 r ⟨[], [], 0⟩

end HarnessConformance.ModelEndpoint
