import HarnessConformance.ProxyServer.Elf
import HarnessConformance.ProxyServer.ProcessFields

/-! # Memory maps

`_native_auxv` and `_proc_code_maps` of `live_proxy_server.py`: the executable mappings of a process from its
auxiliary vector and `/proc/<pid>/maps`. -/

namespace HarnessConformance.ProxyServer
open Lib Lib.Outcome Lib.Lines Lib.LittleEndian Lib.Splitting
open Admission (require require_eq_ok refusal)
open ProxyClient (asciiBytes latin)
set_option autoImplicit false

/-! ## The auxiliary vector -/

/-- `struct.unpack_from("<QQ", raw, offset)`, for this many offsets. -/
def pairs : ℕ → Bytes → List (ℕ × ℕ)
  | 0, _ => []
  | count + 1, raw => (ofLittle (raw.take 8), ofLittle ((raw.drop 8).take 8)) :: pairs count (raw.drop 16)

def auxvEntries (result : List (ℕ × ℕ)) : List (ℕ × ℕ) → Py (List (ℕ × ℕ))
  | [] => .error (refusal "KERNEL_AUXV_TERMINATOR")
  | (key, value) :: rest =>
    if key = 0 then do
      require "KERNEL_AUXV_TERMINATOR" (value = 0 ∧ rest = [])
      pure result
    else do
      require "KERNEL_AUXV_DUPLICATE" (key ∉ result.map Prod.fst)
      auxvEntries (result ++ [(key, value)]) rest

def nativeAuxv (raw : Bytes) : Py (List (ℕ × ℕ)) := do
  require "KERNEL_AUXV_LAYOUT" (16 ≤ raw.length ∧ raw.length ≤ 65536 ∧ raw.length % 16 = 0)
  let result ← auxvEntries [] (pairs (raw.length / 16) raw)
  require "KERNEL_AUXV_REQUIRED" ((result.lookup 6).getD 0 ∈ pageSizes ∧ 0 < (result.lookup 33).getD 0 ∧
    (result.lookup 33).getD 0 % (result.lookup 6).getD 0 = 0)
  pure result

/-! ## A line -/

/-- `[0-9a-f]{lo,lo+more}` -/
def hexPattern (lo more : ℕ) : Regex := .between (.one isHexDigit) lo more

/-- `[r-][w-][x-][ps]` -/
def permsPattern : Regex :=
  .chain [.one fun c => c == 'r' || c == '-', .one fun c => c == 'w' || c == '-', .one fun c => c == 'x' || c == '-',
    .one fun c => c == 'p' || c == 's']

/-- `[0-9]{1,20}` -/
def inodePattern : Regex := .between (.one Char.isDigit) 1 19

/-- `match.groups()` -/
structure MapGroups where
  start : Bytes
  stop : Bytes
  perms : Bytes
  offset : Bytes
  major : Bytes
  minor : Bytes
  inode : Bytes
  path : Option Bytes

/-- Every group is written as its part of the pattern says. -/
def MapGroups.Written (g : MapGroups) : Prop :=
  (hexPattern 1 15).fullmatchChars (latin g.start) ∧ (hexPattern 1 15).fullmatchChars (latin g.stop) ∧
    permsPattern.fullmatchChars (latin g.perms) ∧ (hexPattern 1 15).fullmatchChars (latin g.offset) ∧
    (hexPattern 2 6).fullmatchChars (latin g.major) ∧ (hexPattern 2 6).fullmatchChars (latin g.minor) ∧
    inodePattern.fullmatchChars (latin g.inode)

instance : DecidablePred MapGroups.Written := fun _ => inferInstanceAs (Decidable (_ ∧ _))

def isDigitByte (b : UInt8) : Bool := (Char.ofNat b.toNat).isDigit

/-- `(?: +([^\n]*))?`, at the end of a line. -/
def pathGroup : Bytes → Option (Option Bytes)
  | [] => some none
  | 32 :: rest => some (some (rest.dropWhile (· = 32)))
  | _ => none

/-- `re.fullmatch(pattern, line)` with `([0-9a-f]{1,16})-([0-9a-f]{1,16}) ([r-][w-][x-][ps]) ([0-9a-f]{1,16})
([0-9a-f]{2,8}):([0-9a-f]{2,8}) +([0-9]{1,20})(?: +([^\n]*))?`: no group but the last can hold the mark behind it. -/
def matchGroups (line : Bytes) : Option MapGroups := do
  let (start, line) ← cut (asciiBytes "-") line
  let (stop, line) ← cut (asciiBytes " ") line
  let (perms, line) ← cut (asciiBytes " ") line
  let (offset, line) ← cut (asciiBytes " ") line
  let (major, line) ← cut (asciiBytes ":") line
  let (minor, line) ← cut (asciiBytes " ") line
  let line := line.dropWhile (· = 32)
  let path ← pathGroup (line.dropWhile isDigitByte)
  let groups : MapGroups := ⟨start, stop, perms, offset, major, minor, line.takeWhile isDigitByte, path⟩
  if groups.Written then some groups else none

/-- The groups, the numbers among them read. -/
structure MapLine where
  start : ℕ
  stop : ℕ
  perms : Bytes
  offset : ℕ
  major : ℕ
  minor : ℕ
  inode : ℕ
  path : Option Bytes
  deriving DecidableEq

def MapGroups.line (g : MapGroups) : MapLine where
  start := hexadecimal g.start
  stop := hexadecimal g.stop
  perms := g.perms
  offset := hexadecimal g.offset
  major := hexadecimal g.major
  minor := hexadecimal g.minor
  inode := decimal g.inode
  path := g.path

/-! ## The mappings -/

structure FileMap where
  path : String
  start : ℕ
  stop : ℕ
  permissions : String
  offset : ℕ
  deviceMajor : ℕ
  deviceMinor : ℕ
  inode : ℕ
  deriving DecidableEq

structure KernelMap where
  start : ℕ
  stop : ℕ
  permissions : String
  deriving DecidableEq

structure Maps where
  files : List FileMap
  kernel : List (String × KernelMap)
  pageSize : ℕ
  deriving DecidableEq

namespace MapLine

def pathBytes (m : MapLine) : Bytes := m.path.getD []

def writable (m : MapLine) : Prop := 119 ∈ m.perms

def executable (m : MapLine) : Prop := 120 ∈ m.perms

/-- `path in (b"[vdso]", b"[vsyscall]")` -/
def named (m : MapLine) : Prop := m.pathBytes = asciiBytes "[vdso]" ∨ m.pathBytes = asciiBytes "[vsyscall]"

instance : DecidablePred writable := fun _ => inferInstanceAs (Decidable (_ ∈ _))
instance : DecidablePred executable := fun _ => inferInstanceAs (Decidable (_ ∈ _))
instance : DecidablePred named := fun _ => inferInstanceAs (Decidable (_ ∨ _))

def file (m : MapLine) : FileMap where
  path := ascii m.pathBytes
  start := m.start
  stop := m.stop
  permissions := ascii m.perms
  offset := m.offset
  deviceMajor := m.major
  deviceMinor := m.minor
  inode := m.inode

def special (m : MapLine) : String × KernelMap := (ascii m.pathBytes, ⟨m.start, m.stop, ascii m.perms⟩)

end MapLine

/-- `maps`, `special` and `previous_end`. -/
structure Found where
  maps : List FileMap
  special : List (String × KernelMap)
  previousEnd : ℕ

/-- The checks of `[vdso]` or `[vsyscall]`. -/
def kernelMap (machine : String) (vdsoAddress : ℕ) (special : List (String × KernelMap)) (m : MapLine) : Py Unit := do
  require "KERNEL_MAPS_SPECIAL" (ascii m.pathBytes ∉ special.map Prod.fst ∧ (m.offset, m.major, m.minor, m.inode) = (0, 0, 0, 0))
  if ascii m.pathBytes = "[vdso]" then
    require "KERNEL_MAPS_VDSO" (m.start = vdsoAddress ∧ m.perms = asciiBytes "r-xp" ∧ m.stop - m.start ≤ 1048576)
  else
    require "KERNEL_MAPS_VSYSCALL" (machine = "x86_64" ∧ m.start = 0xffffffffff600000 ∧ m.stop - m.start = 4096 ∧
      m.perms = asciiBytes "--xp")

def filePath (m : MapLine) : Py Unit := do
  require "KERNEL_MAPS_FILE_PATH" (pathPattern.fullmatchChars (latin m.pathBytes) ∧ 0 < m.inode)
  require "KERNEL_MAPS_FILE_PATH" (∀ part ∈ split (asciiBytes "/") (m.pathBytes.drop 1), part ∉ [[], asciiBytes ".", asciiBytes ".."])

/-- One round of the loop over the lines. -/
def codeLine (machine : String) (pageSize vdsoAddress : ℕ) (s : Found) (line : Bytes) : Py Found := do
  require "KERNEL_MAPS_LINE_SIZE" (line.length ≤ 8192)
  match matchGroups line with
  | none => .error (refusal "KERNEL_MAPS_LAYOUT")
  | some groups => do
    let m := groups.line
    require "KERNEL_MAPS_RANGE" (s.previousEnd ≤ m.start ∧ m.start < m.stop ∧ m.start % pageSize = 0 ∧ m.stop % pageSize = 0 ∧
      m.offset % pageSize = 0 ∧ m.inode < 2 ^ 64 ∧ ¬ (m.writable ∧ m.executable))
    if ¬ m.executable then
      pure { s with previousEnd := m.stop }
    else do
      require "KERNEL_MAPS_ANONYMOUS_CODE" (s.maps.length + s.special.length < 256 ∧ m.path ≠ none)
      if m.named then do
        kernelMap machine vdsoAddress s.special m
        pure { s with special := s.special ++ [m.special], previousEnd := m.stop }
      else do
        filePath m
        pure { s with maps := s.maps ++ [m.file], previousEnd := m.stop }

/-- `_proc_code_maps(raw, machine, auxv)` -/
def procCodeMaps (raw : Bytes) (machine : String) (auxv : Bytes) : Py Maps := do
  require "KERNEL_MAPS_SIZE" (0 < raw.length ∧ raw.length ≤ 1048576 ∧ raw.getLast? = some lineFeed ∧ 0 ∉ raw ∧ carriageReturn ∉ raw)
  require "KERNEL_MAPS_ABI" (machine ∈ ["x86_64", "aarch64"])
  let auxiliary ← nativeAuxv auxv
  let pageSize := (auxiliary.lookup 6).getD 0
  let vdsoAddress := (auxiliary.lookup 33).getD 0
  require "KERNEL_MAPS_COUNT" (0 < (splitLines raw).length ∧ (splitLines raw).length ≤ 16384)
  let s ← (splitLines raw).foldlM (codeLine machine pageSize vdsoAddress) ⟨[], [], 0⟩
  require "KERNEL_MAPS_CODE_MISSING" (s.maps ≠ [] ∧ "[vdso]" ∈ s.special.map Prod.fst)
  pure ⟨s.maps, s.special, pageSize⟩

end HarnessConformance.ProxyServer
