import HarnessConformance.ProxyClient.Framing

/-! # Facts of a process

`_proc_process_fields` of `live_proxy_server.py`: what is read out of `/proc/<pid>/stat` and `/proc/<pid>/status`.
The name of a process stands in both files, and the process chooses it. -/

namespace HarnessConformance.ProxyServer
open Lib Lib.Outcome Lib.Lines Lib.Splitting
open Admission (require require_eq_ok refusal)
open ProxyClient (asciiBytes latin digits latin_digits digits_range)
set_option autoImplicit false

/-! ## Numbers -/

/-- `[1-9][0-9]{0,9}` -/
def pidPattern : Regex := .seq (.one fun c => '1' ≤ c && c ≤ '9') (.upTo (.one Char.isDigit) 9)

/-- `0|[1-9][0-9]{0,more}` -/
def plainPattern (more : ℕ) : Regex :=
  .alt (.char '0') (.seq (.one fun c => '1' ≤ c && c ≤ '9') (.upTo (.one Char.isDigit) more))

/-- `-?(?:0|[1-9][0-9]{0,19})` -/
def signedPattern : Regex := .seq (.upTo (.char '-') 1) (plainPattern 19)

/-- `[A-Za-z_][A-Za-z0-9_]{0,63}` -/
def keyPattern : Regex :=
  .seq (.one fun c => c.isAlpha || c == '_') (.upTo (.one fun c => c.isAlphanum || c == '_') 63)

def isHexDigit (c : Char) : Bool := c.isDigit || ('a' ≤ c && c ≤ 'f')

/-- `[0-9a-f]{16}` -/
def capabilityPattern : Regex := .times (.one isHexDigit) 16

/-- `int(text)` of digits. -/
def decimal (text : Bytes) : ℕ := Json.natOfDigits (latin text)

/-- `int(text)` of digits behind an optional sign. -/
def signed (text : Bytes) : ℤ :=
  match text with
  | 45 :: rest => -(decimal rest : ℤ)
  | text => decimal text

def hexDigit (b : UInt8) : ℕ := if b.toNat < 58 then b.toNat - 48 else b.toNat - 87

/-- `int(text, 16)` of lower-case digits. -/
def hexadecimal (text : Bytes) : ℕ := text.foldl (fun n b => 16 * n + hexDigit b) 0

/-! ## `stat` -/

def states : List Bytes := ["R", "S", "D", "T", "t", "I"].map asciiBytes

/-- The text of the process number, and the fields behind the name. -/
def statFields (raw : Bytes) : Py (Bytes × List Bytes) := do
  require "KERNEL_PROCESS_STAT_LAYOUT" (0 < raw.length ∧ raw.length ≤ 8192 ∧ raw.getLast? = some 10 ∧ 0 ∉ raw)
  match cut (asciiBytes " (") raw with
  | none => .error (refusal "KERNEL_PROCESS_STAT_LAYOUT")
  | some (pid, rest) =>
    match cutLast (asciiBytes ") ") rest with
    | none => .error (refusal "KERNEL_PROCESS_STAT_LAYOUT")
    | some (comm, behind) => do
      require "KERNEL_PROCESS_STAT_LAYOUT" (pidPattern.fullmatchChars (latin pid) ∧ 0 < comm.length ∧ comm.length ≤ 256)
      let fields := split [32] behind.dropLast
      require "KERNEL_PROCESS_STAT_LAYOUT" (fields.length = 50 ∧ fields.headD [] ∈ states ∧
        ∀ v ∈ fields.tail, signedPattern.fullmatchChars (latin v))
      pure (pid, fields)

/-- The numbers of `stat` that are used. -/
structure Stat where
  pid : ℕ
  parent : ℤ
  threads : ℤ
  start : ℤ
  deriving DecidableEq

def readStat (pid : Bytes) (fields : List Bytes) : Py Stat := do
  let numbers := fields.tail.map signed
  require "KERNEL_PROCESS_STAT_RANGE" (∀ v ∈ numbers, -2 ^ 63 ≤ v ∧ v < 2 ^ 64)
  let stat : Stat := ⟨decimal pid, numbers.getD 0 0, numbers.getD 16 0, numbers.getD 18 0⟩
  require "KERNEL_PROCESS_STAT_RANGE" (1 < stat.pid ∧ stat.pid < 2 ^ 31 ∧ 0 < stat.parent ∧ stat.parent < 2 ^ 31 ∧
    1 ≤ stat.threads ∧ stat.threads ≤ 4096 ∧ 0 < stat.start ∧ stat.start ≤ 9007199254740991)
  pure stat

/-! ## `status` -/

abbrev Rows := List (Bytes × List Bytes)

/-- `bytes.isspace` -/
def isWhite (b : UInt8) : Bool := b = 32 ∨ (9 ≤ b ∧ b ≤ 13)

/-- `value.split()` -/
def words (value : Bytes) : List Bytes := (value.splitOnP isWhite).filter (· ≠ [])

/-- One round of the loop over the lines. -/
def statusRow (rows : Rows) (line : Bytes) : Py Rows :=
  match cut (asciiBytes ":") line with
  | none => .error (refusal "KERNEL_PROCESS_STATUS_LAYOUT")
  | some (key, value) => do
    require "KERNEL_PROCESS_STATUS_LAYOUT" (keyPattern.fullmatchChars (latin key) ∧ key ∉ rows.map Prod.fst)
    pure (rows ++ [(key, words value)])

def statusRows (status : Bytes) : Py Rows := do
  require "KERNEL_PROCESS_STATUS_LAYOUT" (0 < status.length ∧ status.length ≤ 65536 ∧ status.getLast? = some 10 ∧ 0 ∉ status ∧
    (splitLines status).length ≤ 512)
  (splitLines status).foldlM statusRow []

/-- `rows.get(key, [])` -/
def Rows.values (rows : Rows) (key : String) : List Bytes := (rows.lookup (asciiBytes key)).getD []

/-- The closure `integers`. -/
def integers (rows : Rows) (key : String) (minimum maximum count : ℕ) : Py (List ℕ) := do
  let values := rows.values key
  require "KERNEL_PROCESS_STATUS_FIELD" (values.length = count ∧ ∀ v ∈ values, (plainPattern 15).fullmatchChars (latin v))
  let values := values.map decimal
  require "KERNEL_PROCESS_STATUS_RANGE" (∀ v ∈ values, minimum ≤ v ∧ v ≤ maximum)
  pure values

/-- One round of the loop over the capability sets. -/
def capability (rows : Rows) (key : String) : Py ℕ := do
  let values := rows.values key
  require "KERNEL_PROCESS_CAPABILITIES" (values.length = 1 ∧ capabilityPattern.fullmatchChars (latin (values.headD [])))
  pure (hexadecimal (values.headD []))

structure ProcessFacts where
  pid : ℕ
  parent : ℤ
  startTicks : ℤ
  threads : ℤ
  uid : List ℕ
  gid : List ℕ
  namespacePids : List ℕ
  groups : List ℕ
  capabilities : List ℕ
  seccompMode : ℕ
  noNewPrivs : ℕ
  deriving DecidableEq

def readStatus (stat : Stat) (rows : Rows) : Py ProcessFacts := do
  let pids ← integers rows "Pid" 2 2147483647 1
  let tgids ← integers rows "Tgid" 2 2147483647 1
  require "KERNEL_PROCESS_STATUS_MISMATCH" (pids = tgids ∧ tgids = [stat.pid])
  let parents ← integers rows "PPid" 1 2147483647 1
  require "KERNEL_PROCESS_STATUS_MISMATCH" (parents.map Int.ofNat = [stat.parent])
  let threads ← integers rows "Threads" 1 4096 1
  require "KERNEL_PROCESS_STATUS_MISMATCH" (threads.map Int.ofNat = [stat.threads])
  let tracers ← integers rows "TracerPid" 0 0 1
  require "KERNEL_PROCESS_STATUS_MISMATCH" (tracers = [0])
  let chainSize := (rows.values "NSpid").length
  require "KERNEL_PROCESS_PID_NAMESPACE" (1 ≤ chainSize ∧ chainSize ≤ 32)
  let chain ← integers rows "NSpid" 1 2147483647 chainSize
  require "KERNEL_PROCESS_PID_NAMESPACE" (chain.headD 0 = stat.pid)
  let group ← integers rows "NStgid" 1 2147483647 chainSize
  require "KERNEL_PROCESS_PID_NAMESPACE" (group = chain)
  let groups ← integers rows "Groups" 0 2147483647 (rows.values "Groups").length
  require "KERNEL_PROCESS_GROUPS" (asciiBytes "Groups" ∈ rows.map Prod.fst ∧ groups.length ≤ 256 ∧ groups.Nodup)
  let capabilities ← ["CapInh", "CapPrm", "CapEff", "CapBnd", "CapAmb"].mapM (capability rows)
  let uid ← integers rows "Uid" 0 2147483647 4
  let gid ← integers rows "Gid" 0 2147483647 4
  let seccomp ← integers rows "Seccomp" 2 2 1
  let noNewPrivs ← integers rows "NoNewPrivs" 0 1 1
  pure ⟨stat.pid, stat.parent, stat.start, stat.threads, uid, gid, chain, groups, capabilities, seccomp.headD 0, noNewPrivs.headD 0⟩

/-- `_proc_process_fields(raw, status)` -/
def procProcessFields (raw status : Bytes) : Py ProcessFacts := do
  let (pid, fields) ← statFields raw
  let stat ← readStat pid fields
  let rows ← statusRows status
  readStatus stat rows

end HarnessConformance.ProxyServer
