import HarnessConformance.Schema

/-! # The fixed cases and their instants

The ten cases of the Linux baseline and the one spelling of time its records use. -/

namespace HarnessConformance
open Lib Lib.Outcome Lib.Lines
set_option autoImplicit false

/-! ## Cases -/

inductive Case where
  | hostIsolationNegatives
  | linuxTargetBuild
  | fullPredecessorRegression
  | controlContainerStartup
  | postgresMigrationAndRls
  | durableRestart
  | arbitraryNonRootUid
  | readOnlyRootFilesystem
  | kubernetesSmoke
  | defaultDenyNetwork
  deriving DecidableEq

namespace Case

def name : Case → String
  | hostIsolationNegatives => "HOST_ISOLATION_NEGATIVES"
  | linuxTargetBuild => "LINUX_TARGET_BUILD"
  | fullPredecessorRegression => "FULL_PREDECESSOR_REGRESSION"
  | controlContainerStartup => "CONTROL_CONTAINER_STARTUP"
  | postgresMigrationAndRls => "POSTGRES_MIGRATION_AND_RLS"
  | durableRestart => "DURABLE_RESTART"
  | arbitraryNonRootUid => "ARBITRARY_NON_ROOT_UID"
  | readOnlyRootFilesystem => "READ_ONLY_ROOT_FILESYSTEM"
  | kubernetesSmoke => "KUBERNETES_SMOKE"
  | defaultDenyNetwork => "DEFAULT_DENY_NETWORK"

/-- `CASES`, in the order of the source. -/
def all : List Case :=
  [hostIsolationNegatives, linuxTargetBuild, fullPredecessorRegression, controlContainerStartup,
    postgresMigrationAndRls, durableRestart, arbitraryNonRootUid, readOnlyRootFilesystem, kubernetesSmoke,
    defaultDenyNetwork]

/-- `type(value) is str and value in CASES`, as the case named. -/
def ofJson? (value : Json) : Option Case := all.find? fun c => value = .str c.name

theorem mem_all (c : Case) : c ∈ all := by
  cases c <;> decide

theorem nodup_all : all.Nodup := by decide

theorem nodup_names : (all.map name).Nodup := by decide

theorem name_injective {c d : Case} (h : c.name = d.name) : c = d :=
  List.inj_on_of_nodup_map nodup_names (mem_all c) (mem_all d) h

theorem ofJson?_eq_some {value : Json} {c : Case} : ofJson? value = some c ↔ value = .str c.name := by
  constructor
  · intro h
    simpa using List.find?_some h
  · rintro rfl
    cases hfind : ofJson? (.str c.name) with
    | none => simpa using List.find?_eq_none.mp hfind c (mem_all c)
    | some d =>
      have hd : Json.str c.name = .str d.name := by simpa using List.find?_some hfind
      rw [name_injective (Json.str.inj hd)]

end Case

/-! ## Instants -/

def digit : Regex := .one fun c => c.isDigit

/-- `[0-9]{4}-[0-9]{2}-[0-9]{2}T[0-9]{2}:[0-9]{2}:[0-9]{2}(?:\.[0-9]{1,6})?Z` -/
def timePattern : Regex :=
  .chain [.times digit 4, .char '-', .times digit 2, .char '-', .times digit 2, .char 'T', .times digit 2, .char ':',
    .times digit 2, .char ':', .times digit 2, .alt .eps (.seq (.char '.') (.between digit 1 5)), .char 'Z']

/-- Microseconds since `0001-01-01T00:00:00Z`, the order of aware datetimes. -/
abbrev Instant := ℕ

def isLeap (year : ℕ) : Bool := year % 4 == 0 && (year % 100 != 0 || year % 400 == 0)

def daysInMonth (year month : ℕ) : ℕ :=
  if month = 2 then (if isLeap year then 29 else 28)
  else if month = 4 ∨ month = 6 ∨ month = 9 ∨ month = 11 then 30 else 31

/-- Days from `0001-01-01` to the date. -/
def daysBefore (year month day : ℕ) : ℕ :=
  (year - 1) * 365 + (year - 1) / 4 - (year - 1) / 100 + (year - 1) / 400 +
    ((List.range (month - 1)).map fun m => daysInMonth year (m + 1)).sum + (day - 1)

/-- `datetime.fromisoformat(text[:-1] + "+00:00")`, for a text that matches `timePattern`. -/
def fromIsoFormat (text : List Char) : Option Instant :=
  let field (start width : ℕ) : ℕ := Json.natOfDigits ((text.drop start).take width)
  let year := field 0 4
  let month := field 5 2
  let day := field 8 2
  let hour := field 11 2
  let minute := field 14 2
  let second := field 17 2
  let fraction := (text.drop 20).takeWhile Char.isDigit
  let micros := Json.natOfDigits (fraction ++ List.replicate (6 - fraction.length) '0')
  if 1 ≤ year ∧ 1 ≤ month ∧ month ≤ 12 ∧ 1 ≤ day ∧ day ≤ daysInMonth year month ∧ hour < 24 ∧ minute < 60 ∧ second < 60
  then some ((((daysBefore year month day * 24 + hour) * 60 + minute) * 60 + second) * 1000000 + micros)
  else none

/-- The instant a text names, if the readiness records may spell it so. -/
def instantOf (text : String) : Option Instant :=
  if timePattern.fullmatch text then fromIsoFormat text.toList else none

example : instantOf "0001-01-02T00:00:01.5Z" = some 86401500000 := by decide

/-- A text that names an instant. -/
abbrev TimeText := Text fun s => (instantOf s).isSome

/-- A time that samples are built from. -/
def newYear : TimeText := ⟨"2026-01-01T00:00:00Z", by decide⟩

def Text.instant (t : TimeText) : Instant := (instantOf t.text).get t.valid

/-- `require_time(value, name)` of `linux_readiness.py` -/
def requireTime (value : Json) (name : String) : Py TimeText := do
  let _ ← requireText (.conformance "LINUX_TIME_INVALID" "Linux readiness binding or mandatory case is invalid")
    timePattern.fullmatch value
  requireText (.conformance "INVALID_TIME" (name ++ " must be UTC RFC3339")) _ value

@[simp] theorem requireTime_eq_ok {value : Json} {name : String} {t : TimeText} :
    requireTime value name = .ok t ↔ value = .str t.text := by
  simp only [requireTime, bind_eq_ok, requireText_eq_ok]
  constructor
  · rintro ⟨_, -, h⟩
    exact h
  · rintro rfl
    have hpattern : timePattern.fullmatch t.text = true := by
      have hvalid := t.valid
      unfold instantOf at hvalid
      split at hvalid
      · assumption
      · cases hvalid
    exact ⟨⟨t.text, hpattern⟩, rfl, rfl⟩

end HarnessConformance
