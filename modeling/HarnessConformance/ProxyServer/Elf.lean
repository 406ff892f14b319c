import HarnessConformance.Lib.Splitting
import HarnessConformance.Lib.LittleEndian
import HarnessConformance.Lib.Pages
import HarnessConformance.ProxyClient.Der

/-! # Executable images

`_elf_code_layout` of `live_proxy_server.py`: the code pages of an ELF64 image from its program headers. -/

namespace HarnessConformance.ProxyServer
open Lib Lib.Outcome Lib.Lines Lib.LittleEndian Lib.Pages
open Admission (require require_eq_ok)
open ProxyClient (slice)
set_option autoImplicit false

/-! ## Reads -/

/-- `struct.unpack_from(…, raw, offset)` for a format of this size, its fields not yet told apart. -/
def unpackFrom (raw : Bytes) (offset size : ℕ) : Py Bytes :=
  if offset + size ≤ raw.length then .ok (slice raw offset (offset + size)) else .error .structError

theorem unpackFrom_eq_ok {raw : Bytes} {offset size : ℕ} {bytes : Bytes} :
    unpackFrom raw offset size = .ok bytes ↔ offset + size ≤ raw.length ∧ slice raw offset (offset + size) = bytes := by
  unfold unpackFrom
  split <;> simp_all

/-- The unsigned field between two offsets. -/
def little (raw : Bytes) (start stop : ℕ) : ℕ := ofLittle (slice raw start stop)

/-- `<16sHHIQQQIHHHHHH`, without the fields that are not looked at. -/
structure Header where
  ident : Bytes
  kind : ℕ
  architecture : ℕ
  version : ℕ
  phoff : ℕ
  flags : ℕ
  ehsize : ℕ
  phsize : ℕ
  count : ℕ

def Header.ofBytes (bytes : Bytes) : Header where
  ident := slice bytes 0 16
  kind := little bytes 16 18
  architecture := little bytes 18 20
  version := little bytes 20 24
  phoff := little bytes 32 40
  flags := little bytes 48 52
  ehsize := little bytes 52 54
  phsize := little bytes 54 56
  count := little bytes 56 58

/-- `<IIQQQQQQ`, without the physical address. -/
structure ProgramHeader where
  tag : ℕ
  perms : ℕ
  offset : ℕ
  address : ℕ
  size : ℕ
  memory : ℕ
  alignment : ℕ
  deriving DecidableEq

def ProgramHeader.ofBytes (bytes : Bytes) : ProgramHeader where
  tag := little bytes 0 4
  perms := little bytes 4 8
  offset := little bytes 8 16
  address := little bytes 16 24
  size := little bytes 32 40
  memory := little bytes 40 48
  alignment := little bytes 48 56

structure Segment where
  offset : ℕ
  length : ℕ
  permissions : String
  virtualAddress : ℕ
  deriving DecidableEq

structure Layout where
  kind : ℕ
  interpreter : Option String
  segments : List Segment
  deriving DecidableEq

namespace ProgramHeader

variable (p : ProgramHeader)

def executable : Prop := p.perms &&& 1 ≠ 0

instance : DecidablePred executable := fun p => inferInstanceAs (Decidable (p.perms &&& 1 ≠ 0))

def fileEnd : ℕ := p.offset + p.size

/-- Where the segment ends in memory. -/
def stop : ℕ := p.address + p.memory

def segment (pageSize : ℕ) : Segment where
  offset := down pageSize p.offset
  length := up pageSize (p.offset + p.size) - down pageSize p.offset
  permissions := (if p.perms &&& 4 ≠ 0 then "r" else "-") ++ "-xp"
  virtualAddress := down pageSize p.address

end ProgramHeader

/-! ## The reader -/

/-- `{"x86_64": 62, "aarch64": 183}` -/
def architectures : String → Option ℕ
  | "x86_64" => some 62
  | "aarch64" => some 183
  | _ => none

def pageSizes : List ℕ := [4096, 16384, 65536]

/-- `/[A-Za-z0-9_./+-]+` -/
def pathPattern : Regex :=
  .seq (.char '/') (.plus (.one fun c => c.isAlphanum || c ∈ ['_', '.', '/', '+', '-']))

/-- `data.decode("ascii")`, of bytes that are ASCII. -/
def ascii (data : Bytes) : String := String.ofList (data.map fun b => Char.ofNat b.toNat)

/-- What the segment that names the interpreter adds to what was found before. -/
def interpreterOf (raw : Bytes) (p : ProgramHeader) (interpreter : Option String) : Py (Option String) :=
  if p.tag = 3 then do
    require "KERNEL_ELF_INTERPRETER" (interpreter = none ∧ 2 ≤ p.size ∧ p.size ≤ 4096)
    let data := slice raw p.offset (p.offset + p.size)
    require "KERNEL_ELF_INTERPRETER" (data.getLast? = some 0 ∧ 0 ∉ data.dropLast)
    let path := ascii data.dropLast
    require "KERNEL_ELF_INTERPRETER" (pathPattern.fullmatch path)
    require "KERNEL_ELF_INTERPRETER" (∀ part ∈ (path.toList.drop 1).splitOn '/', part ∉ [[], ['.'], ['.', '.']])
    pure (some path)
  else pure interpreter

structure Progress where
  segments : List Segment
  interpreter : Option String
  lastLoadEnd : ℕ

/-- The part of a round that only a `PT_LOAD` reaches. -/
def loadSegment (pageSize : ℕ) (p : ProgramHeader) (s : Progress) : Py Progress := do
  require "KERNEL_ELF_LOAD_LAYOUT" (p.perms ≤ 7 ∧ p.size ≤ p.memory ∧ 0 < p.memory ∧ s.lastLoadEnd ≤ p.address ∧
    (p.alignment ∈ [0, 1] ∨ p.alignment &&& (p.alignment - 1) = 0) ∧
    (p.alignment ≤ 1 ∨ p.address % p.alignment = p.offset % p.alignment) ∧ p.address % pageSize = p.offset % pageSize)
  let s := { s with lastLoadEnd := p.address + p.memory }
  if ¬ p.executable then pure s else do
    require "KERNEL_ELF_EXECUTABLE_LOAD" (p.perms &&& 2 = 0 ∧ 0 < p.size ∧ s.segments.length < 16)
    require "KERNEL_ELF_ANONYMOUS_CODE" (up pageSize (p.offset + p.memory) = up pageSize (p.offset + p.size) ∧
      up pageSize (p.offset + p.size) - down pageSize p.offset ≤ 67108864)
    pure { s with segments := s.segments ++ [p.segment pageSize] }

/-- One round of the loop over the program headers. -/
def programHeader (raw : Bytes) (pageSize : ℕ) (header : Header) (s : Progress) (index : ℕ) : Py Progress := do
  let p := ProgramHeader.ofBytes (← unpackFrom raw (header.phoff + index * 56) 56)
  require "KERNEL_ELF_BOUNDS" (p.offset + p.size ≤ raw.length ∧ p.address + p.memory ≤ 2 ^ 64)
  require "KERNEL_ELF_EXECUTABLE_STACK" (p.tag = 0x6474e551 → ¬ p.executable)
  let interpreter ← interpreterOf raw p s.interpreter
  if p.tag ≠ 1 then pure { s with interpreter } else loadSegment pageSize p { s with interpreter }

/-- `_elf_code_layout(raw, machine, page_size)` -/
def elfCodeLayout (raw : Bytes) (machine : String) (pageSize : ℕ) : Py Layout := do
  require "KERNEL_ELF_SIZE" (64 ≤ raw.length ∧ raw.length ≤ 67108864)
  require "KERNEL_ELF_ABI" (machine ∈ ["x86_64", "aarch64"] ∧ pageSize ∈ pageSizes)
  let header := Header.ofBytes (← unpackFrom raw 0 64)
  require "KERNEL_ELF_LAYOUT" (slice header.ident 0 7 = [0x7f, 0x45, 0x4c, 0x46, 2, 1, 1] ∧
    (header.ident[7]? = some 0 ∨ header.ident[7]? = some 3) ∧ header.ident.drop 8 = List.replicate 8 0 ∧ header.kind ∈ [2, 3] ∧
    header.version = 1 ∧ header.flags = 0 ∧ some header.architecture = architectures machine ∧ header.ehsize = 64 ∧
    header.phsize = 56 ∧ 1 ≤ header.count ∧ header.count ≤ 128 ∧ 64 ≤ header.phoff ∧ header.phoff % 8 = 0 ∧
    header.phoff + header.count * header.phsize ≤ raw.length)
  let s ← (List.range header.count).foldlM (programHeader raw pageSize header) ⟨[], none, 0⟩
  require "KERNEL_ELF_CODE_MISSING" (s.segments ≠ [])
  require "KERNEL_ELF_DUPLICATE_CODE" (s.segments.map fun s => (s.offset, s.length)).Nodup
  pure ⟨header.kind, s.interpreter, s.segments⟩

/-! ## The tables of an image -/

def header (raw : Bytes) : Header := Header.ofBytes (slice raw 0 64)

/-- The entry at an index of the program header table. -/
def entry (raw : Bytes) (index : ℕ) : ProgramHeader :=
  let start := (header raw).phoff + index * 56
  ProgramHeader.ofBytes (slice raw start (start + 56))

def programHeaders (raw : Bytes) : List ProgramHeader := (List.range (header raw).count).map (entry raw)

def loads (raw : Bytes) : List ProgramHeader := (programHeaders raw).filter (·.tag = 1)

/-- What an accepted `PT_LOAD` satisfies by itself. -/
structure Loadable (raw : Bytes) (pageSize : ℕ) (p : ProgramHeader) : Prop where
  fileEnd : p.offset + p.size ≤ raw.length
  stop : p.address + p.memory ≤ 2 ^ 64
  memory : 0 < p.memory
  congruent : p.address % pageSize = p.offset % pageSize
  readOnly : p.executable → p.perms &&& 2 = 0
  size : p.executable → 0 < p.size
  anonymous : p.executable → up pageSize (p.offset + p.memory) = up pageSize (p.offset + p.size)
  bounded : p.executable → up pageSize (p.offset + p.size) - down pageSize p.offset ≤ 67108864

/-- What the loop has established after some program headers. -/
structure Reached (raw : Bytes) (pageSize : ℕ) (seen : List ProgramHeader) (s : Progress) : Prop where
  loadable : ∀ p ∈ seen.filter (·.tag = 1), Loadable raw pageSize p
  sorted : (seen.filter (·.tag = 1)).Pairwise fun p q => p.stop ≤ q.address
  last : ∀ p ∈ seen.filter (·.tag = 1), p.stop ≤ s.lastLoadEnd
  segments : s.segments = ((seen.filter (·.tag = 1)).filter (·.executable)).map (·.segment pageSize)
  count : s.segments.length ≤ 16

section
variable {raw : Bytes} {pageSize : ℕ}

theorem loadSegment_eq_ok {p : ProgramHeader} {s t : Progress} (h : loadSegment pageSize p s = .ok t)
    (hfile : p.offset + p.size ≤ raw.length) (hstop : p.address + p.memory ≤ 2 ^ 64) :
    Loadable raw pageSize p ∧ s.lastLoadEnd ≤ p.address ∧ t.lastLoadEnd = p.stop ∧
      t.segments = s.segments ++ (if p.executable then [p.segment pageSize] else []) ∧
      (s.segments.length ≤ 16 → t.segments.length ≤ 16) := by
  unfold loadSegment at h
  simp only [bind_eq_ok, require_eq_ok] at h
  obtain ⟨_, ⟨-, -, hmemory, hlast, -, -, hcongruent⟩, h⟩ := h
  by_cases hexec : p.executable
  · rw [if_neg (not_not.mpr hexec)] at h
    simp only [bind_eq_ok, require_eq_ok, pure_eq_ok] at h
    obtain ⟨_, ⟨hread, hsize, hcount⟩, _, ⟨hanonymous, hbounded⟩, rfl⟩ := h
    refine ⟨⟨hfile, hstop, hmemory, hcongruent, fun _ => hread, fun _ => hsize, fun _ => hanonymous, fun _ => hbounded⟩,
      hlast, rfl, by rw [if_pos hexec], fun _ => ?_⟩
    rw [List.length_append, List.length_singleton]
    exact hcount
  · rw [if_pos hexec, pure_eq_ok] at h
    obtain rfl := h
    exact ⟨⟨hfile, hstop, hmemory, hcongruent, fun hx => absurd hx hexec, fun hx => absurd hx hexec,
      fun hx => absurd hx hexec, fun hx => absurd hx hexec⟩, hlast, rfl, by simp [hexec], id⟩

theorem reached_load {seen : List ProgramHeader} {s t : Progress} {p : ProgramHeader} (hs : Reached raw pageSize seen s)
    (htag : p.tag = 1) (hfile : p.offset + p.size ≤ raw.length) (hstop : p.address + p.memory ≤ 2 ^ 64)
    (h : loadSegment pageSize p s = .ok t) : Reached raw pageSize (seen ++ [p]) t := by
  obtain ⟨hload, hlast, hend, hsegments, hcount⟩ := loadSegment_eq_ok h hfile hstop
  have hfilter : (seen ++ [p]).filter (·.tag = 1) = seen.filter (·.tag = 1) ++ [p] := by simp [htag]
  constructor
  · rw [hfilter]
    exact fun q hq => (List.mem_append.mp hq).elim (hs.loadable q) fun hq => List.mem_singleton.mp hq ▸ hload
  · rw [hfilter, List.pairwise_append]
    refine ⟨hs.sorted, List.pairwise_singleton _ _, fun q hq r hr => ?_⟩
    obtain rfl := List.mem_singleton.mp hr
    exact (hs.last q hq).trans hlast
  · rw [hfilter, hend]
    intro q hq
    rcases List.mem_append.mp hq with hq | hq
    · exact ((hs.last q hq).trans hlast).trans (Nat.le_add_right _ _)
    · exact (List.mem_singleton.mp hq ▸ le_rfl)
  · rw [hfilter, hsegments, hs.segments, List.filter_append, List.map_append]
    by_cases hexec : p.executable <;> simp [hexec]
  · exact hcount hs.count

/-- One round extends the headers seen by its own. -/
theorem reached_step {seen : List ProgramHeader} {s t : Progress} {index : ℕ} (hs : Reached raw pageSize seen s)
    (h : programHeader raw pageSize (header raw) s index = .ok t) : Reached raw pageSize (seen ++ [entry raw index]) t := by
  unfold programHeader at h
  simp only [bind_eq_ok, require_eq_ok, unpackFrom_eq_ok] at h
  obtain ⟨_, ⟨-, rfl⟩, _, ⟨hfile, hstop⟩, _, -, interpreter, -, h⟩ := h
  have hentry : ProgramHeader.ofBytes (slice raw ((header raw).phoff + index * 56) ((header raw).phoff + index * 56 + 56)) =
      entry raw index := rfl
  rw [hentry] at h hfile hstop
  have hs' : Reached raw pageSize seen { s with interpreter } := ⟨hs.loadable, hs.sorted, hs.last, hs.segments, hs.count⟩
  by_cases htag : (entry raw index).tag = 1
  · rw [if_neg (not_not.mpr htag)] at h
    exact reached_load hs' htag hfile hstop h
  · rw [if_pos htag, pure_eq_ok] at h
    obtain rfl := h
    have hfilter : (seen ++ [entry raw index]).filter (·.tag = 1) = seen.filter (·.tag = 1) := by simp [htag]
    exact ⟨hfilter ▸ hs.loadable, hfilter ▸ hs.sorted, hfilter ▸ hs.last, hfilter ▸ hs.segments, hs.count⟩

theorem reached_init : Reached raw pageSize [] ⟨[], none, 0⟩ := by
  constructor <;> simp

/-- What an accepted image satisfies. -/
structure Accepted (raw : Bytes) (pageSize : ℕ) (layout : Layout) : Prop where
  page : pageSize ∈ pageSizes
  header : 64 ≤ raw.length
  table : (ProxyServer.header raw).phoff + (ProxyServer.header raw).count * 56 ≤ raw.length
  loadable : ∀ p ∈ loads raw, Loadable raw pageSize p
  sorted : (loads raw).Pairwise fun p q => p.stop ≤ q.address
  segments : layout.segments = ((loads raw).filter (·.executable)).map (·.segment pageSize)
  some : layout.segments ≠ []
  count : layout.segments.length ≤ 16
  distinct : (layout.segments.map fun s => (s.offset, s.length)).Nodup

theorem accepted {machine : String} {layout : Layout} (h : elfCodeLayout raw machine pageSize = .ok layout) :
    Accepted raw pageSize layout := by
  unfold elfCodeLayout at h
  simp only [bind_eq_ok, require_eq_ok, unpackFrom_eq_ok, pure_eq_ok] at h
  obtain ⟨_, ⟨hlow, -⟩, _, ⟨-, hpage⟩, _, ⟨-, rfl⟩, _, ⟨-, -, -, -, -, -, -, -, hphsize, -, -, -, -, htable⟩, s, hfold, _, hsome,
    _, hdistinct, rfl⟩ := h
  have hreached : Reached raw pageSize (programHeaders raw) s :=
    foldlM_history (fun past s => Reached raw pageSize (past.map (entry raw)) s) reached_init
      (fun past s index t hs ht => by simpa using reached_step hs ht) hfold
  rw [hphsize] at htable
  exact ⟨hpage, hlow, htable, hreached.loadable, hreached.sorted, hreached.segments, hsome, hreached.count, hdistinct⟩

end

end HarnessConformance.ProxyServer
