import HarnessConformance.Lib.IpAddress
import HarnessConformance.Lib.Outcome
import Mathlib

/-! # The base-URL guard

`guard_base_url` of `tests/model_endpoint/_client.py`: which base URLs a probe client may connect to. -/

namespace HarnessConformance.ModelEndpoint
open Lib Lib.Outcome Lib.Splitting Lib.IpAddress
set_option autoImplicit false

/-- The codes of `MeqError` that are raised here. -/
inductive MeqCode
  | guardMalformed
  | guardScheme
  | guardFragment
  | guardQuery
  | guardUserinfo
  | guardEmptyHost
  | guardPort
  | guardName
  | guardLinkLocal
  | guardMetadata
  | guardHostClass
  | readTimeout
  | connectionLost
  | protocolError
  | malformedJson
  | oversize
  | sseFraming
  | cancelled
  deriving DecidableEq

structure Target where
  scheme : Text
  address : Text
  port : ℕ
  basePath : Text
  deriving DecidableEq

def schemePorts : List (Text × ℕ) := [("http".toList, 80), ("https".toList, 443)]

def network4 (literal : String) (bits : ℕ) : Network := ⟨.v4 ((parse4 literal.toList).getD 0), bits⟩

def network6 (literal : String) (bits : ℕ) : Network := ⟨.v6 ((parse6 literal.toList).getD 0), bits⟩

/-- `_ADMITTED` -/
def admitted : List Network :=
  [network4 "127.0.0.0" 8, network4 "10.0.0.0" 8, network4 "172.16.0.0" 12, network4 "192.168.0.0" 16, network6 "::1" 128,
    network6 "fc00::" 7]

/-- `_LINK_LOCAL` -/
def linkLocal : List Network := [network4 "169.254.0.0" 16, network6 "fe80::" 10]

/-- `_METADATA` -/
def metadata : List Network := [network6 "fd00:ec2::254" 128, network6 "fd20:ce::254" 128]

/-- `LOCALHOST_ADDRESS` -/
def localhostAddress : Text := "127.0.0.1".toList

def isPathChar (c : Char) : Bool := c.isAlphanum || c ∈ ['-', '.', '_', '~', '/']

/-- `_plain_path` -/
def PlainPath (path : Text) : Prop :=
  path.head? = some '/' ∧ (∀ c ∈ path, isPathChar c) ∧ ∀ segment ∈ split ['/'] (path.drop 1), segment ∉ [[], ['.'], ['.', '.']]

instance : DecidablePred PlainPath := fun path =>
  decidable_of_iff (path.head? = some '/' ∧ path.all isPathChar = true ∧
    ∀ segment ∈ split ['/'] (path.drop 1), segment ∉ [[], ['.'], ['.', '.']]) (by rw [PlainPath, List.all_eq_true])

def isPrintable (c : Char) : Bool := '!' ≤ c && c ≤ '~'

/-- `str.lower` of ASCII text. -/
def lower (text : Text) : Text := text.map Char.toLower

/-- The host, the text of the port if there is one, and whether the host stands in brackets. -/
def hostPort (authority : Text) : Except MeqCode (Text × Option Text × Bool) :=
  if authority.head? = some '[' then
    match cut [']'] authority with
    | none => .error .guardMalformed
    | some (front, behind) => do
      guardWith .guardMalformed (behind = [] ∨ behind.head? = some ':')
      pure (front.drop 1, if behind = [] then none else some (behind.drop 1), true)
  else do
    guardWith .guardMalformed (authority.count ':' ≤ 1)
    match cut [':'] authority with
    | none => pure (authority, none, false)
    | some (host, port) => pure (host, some port, false)

def portOf (schemePort : ℕ) : Option Text → Except MeqCode ℕ
  | none => .ok schemePort
  | some text => do
    guardWith .guardPort (text ≠ [] ∧ text.length ≤ 5 ∧ text.all Char.isDigit)
    guardWith .guardPort (1 ≤ valueIn 10 text ∧ valueIn 10 text ≤ 65535)
    pure (valueIn 10 text)

def addressOf (host : Text) (bracketed : Bool) : Except MeqCode Address :=
  if bracketed then
    match parse6 host with
    | none => .error .guardMalformed
    | some n => .ok (.v6 n)
  else if lower host = "localhost".toList then
    .ok (.v4 ((parse4 localhostAddress).getD 0))
  else
    match parse4 host with
    | none => .error .guardName
    | some n => .ok (.v4 n)

/-- `guard_base_url(base_url)` -/
def guardBaseUrl (baseUrl : Text) : Except MeqCode Target := do
  guardWith .guardMalformed (baseUrl ≠ [] ∧ '\\' ∉ baseUrl ∧ baseUrl.all isPrintable)
  let (front, rest) := (cut "://".toList baseUrl).getD ([], [])
  let scheme := lower front
  match schemePorts.lookup scheme with
  | none => .error .guardScheme
  | some schemePort => do
    let authority := rest.takeWhile (· ∉ ['/', '?', '#'])
    let tail := rest.dropWhile (· ∉ ['/', '?', '#'])
    guardWith .guardFragment ('#' ∉ tail)
    guardWith .guardQuery ('?' ∉ tail)
    guardWith .guardUserinfo ('@' ∉ authority)
    guardWith .guardMalformed ('%' ∉ authority)
    let (host, portText, bracketed) ← hostPort authority
    guardWith .guardEmptyHost (host ≠ [])
    guardWith .guardMalformed ('[' ∉ host ∧ ']' ∉ host)
    let port ← portOf schemePort portText
    let address ← addressOf host bracketed
    guardWith .guardLinkLocal (∀ net ∈ linkLocal, ¬ net.Contains address)
    guardWith .guardMetadata (∀ net ∈ metadata, ¬ net.Contains address)
    guardWith .guardHostClass (∃ net ∈ admitted, net.Contains address)
    let basePath := tail.rdropWhile (· = '/')
    guardWith .guardMalformed (basePath = [] ∨ PlainPath basePath)
    pure ⟨scheme, address.text, port, basePath⟩

end HarnessConformance.ModelEndpoint
