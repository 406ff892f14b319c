import HarnessConformance.ProxyServer.Elf

/-! # The pages of an executable image

What the layout of an accepted image says of its file and its memory, and when its code has its pages to itself. -/

namespace HarnessConformance.ProxyServer
open Lib Lib.Outcome Lib.Lines Lib.LittleEndian Lib.Pages
set_option autoImplicit false

variable {raw : Bytes} {machine : String} {pageSize : ℕ} {layout : Layout}

theorem pageSizes_pos (h : pageSize ∈ pageSizes) : 0 < pageSize := by
  have hall : ∀ page ∈ pageSizes, 0 < page := by decide
  exact hall pageSize h

theorem pageSizes_dvd (h : pageSize ∈ pageSizes) : pageSize ∣ 2 ^ 64 := by
  have hall : ∀ page ∈ pageSizes, page ∣ 2 ^ 64 := by decide
  exact hall pageSize h

namespace Segment

variable (s : Segment)

/-- The addresses of its pages. -/
def range : Set ℕ := Set.Ico s.virtualAddress (s.virtualAddress + s.length)

end Segment

namespace ProgramHeader

variable {p : ProgramHeader}

/-- The addresses of the pages that it occupies in memory. -/
def range (p : ProgramHeader) (pageSize : ℕ) : Set ℕ := pages pageSize p.address p.stop

theorem segment_fileEnd (h : 0 < pageSize) :
    (p.segment pageSize).offset + (p.segment pageSize).length = up pageSize (p.offset + p.size) := by
  have hle : down pageSize p.offset ≤ up pageSize (p.offset + p.size) :=
    down_le.trans ((Nat.le_add_right _ _).trans (le_up h))
  exact Nat.add_sub_cancel' hle

theorem segment_stop (h : 0 < pageSize) (hp : Loadable raw pageSize p) (hexec : p.executable) :
    (p.segment pageSize).virtualAddress + (p.segment pageSize).length = up pageSize p.stop := by
  have hends := hp.anonymous hexec
  have hshift := down_add_up (n := p.memory) h hp.congruent
  have hle : down pageSize p.offset ≤ up pageSize (p.offset + p.memory) :=
    down_le.trans ((Nat.le_add_right _ _).trans (le_up h))
  have haddress : down pageSize p.address + (up pageSize (p.offset + p.memory) - down pageSize p.offset) =
      up pageSize (p.address + p.memory) := by omega
  rwa [hends] at haddress

/-- The pages of the segment returned are those of the program header. -/
theorem segment_range (h : 0 < pageSize) (hp : Loadable raw pageSize p) (hexec : p.executable) :
    (p.segment pageSize).range = p.range pageSize := by
  rw [Segment.range, segment_stop h hp hexec]
  rfl

end ProgramHeader

/-! ## The layout -/

/-- What a returned segment says of the program header it stands for. -/
structure Describes (raw : Bytes) (pageSize : ℕ) (p : ProgramHeader) (s : Segment) : Prop where
  readOnly : p.perms &&& 2 = 0
  offset : s.offset = down pageSize p.offset
  address : s.virtualAddress = down pageSize p.address
  aligned : pageSize ∣ s.offset ∧ pageSize ∣ s.length ∧ pageSize ∣ s.virtualAddress
  permissions : s.permissions = if p.perms &&& 4 ≠ 0 then "r-xp" else "--xp"
  fileEnd : s.offset + s.length = up pageSize (p.offset + p.size)
  memoryEnd : s.offset + s.length = up pageSize (p.offset + p.memory)
  within : s.offset + s.length ≤ up pageSize raw.length
  stop : s.virtualAddress + s.length = up pageSize (p.address + p.memory)
  addressable : s.virtualAddress + s.length ≤ 2 ^ 64

theorem describes_segment (hpage : pageSize ∈ pageSizes) {p : ProgramHeader} (hp : Loadable raw pageSize p)
    (hexec : p.executable) : Describes raw pageSize p (p.segment pageSize) := by
  have h := pageSizes_pos hpage
  have hend := p.segment_fileEnd h
  have hstop := ProgramHeader.segment_stop h hp hexec
  refine ⟨hp.readOnly hexec, rfl, rfl, ⟨dvd_down, Nat.dvd_sub dvd_up dvd_down, dvd_down⟩, ?_, hend,
    hend.trans (hp.anonymous hexec).symm, hend.trans_le (up_mono h hp.fileEnd), hstop,
    hstop.trans_le (up_le (pageSizes_dvd hpage) hp.stop)⟩
  rw [ProgramHeader.segment]
  by_cases hread : p.perms &&& 4 ≠ 0
  · rw [if_pos hread, if_pos hread]
    rfl
  · rw [if_neg hread, if_neg hread]
    rfl

/-- The layout returned for an image, against the program headers of its bytes. -/
structure LayoutSound (raw : Bytes) (pageSize : ℕ) (layout : Layout) : Prop where
  header : 64 ≤ raw.length
  table : ∀ index < (ProxyServer.header raw).count, (ProxyServer.header raw).phoff + index * 56 + 56 ≤ raw.length
  segments : List.Forall₂ (Describes raw pageSize) ((loads raw).filter (·.executable)) layout.segments
  count : 1 ≤ layout.segments.length ∧ layout.segments.length ≤ 16

theorem elf_layout_sound (h : elfCodeLayout raw machine pageSize = .ok layout) : LayoutSound raw pageSize layout := by
  have ha := accepted h
  refine ⟨ha.header, fun index hindex => ?_, ?_, List.length_pos_iff.mpr ha.some, ha.count⟩
  · have htable := ha.table
    have hentries := Nat.mul_le_mul_right 56 (Nat.succ_le_of_lt hindex)
    omega
  · rw [ha.segments, List.forall₂_map_right_iff, List.forall₂_same]
    intro p hp
    obtain ⟨hload, hexec⟩ := List.mem_filter.mp hp
    exact describes_segment ha.page (ha.loadable p hload) (of_decide_eq_true hexec)

/-- An image of one kind, with these program headers after its header and nothing else. -/
def image (machine : ℕ) (table : List ProgramHeader) : Bytes :=
  [0x7f, 0x45, 0x4c, 0x46, 2, 1, 1, 0] ++ List.replicate 8 0 ++ toLittle 2 3 ++ toLittle 2 machine ++ toLittle 4 1 ++
    toLittle 8 0 ++ toLittle 8 64 ++ toLittle 8 0 ++ toLittle 4 0 ++ toLittle 2 64 ++ toLittle 2 56 ++
    toLittle 2 table.length ++ toLittle 6 0 ++
    table.flatMap fun p => toLittle 4 p.tag ++ toLittle 4 p.perms ++ toLittle 8 p.offset ++ toLittle 8 p.address ++
      toLittle 8 0 ++ toLittle 8 p.size ++ toLittle 8 p.memory ++ toLittle 8 p.alignment

theorem elf_layout_sound_image :
    LayoutSound (image 62 [⟨1, 5, 0, 4096, 120, 120, 4096⟩]) 4096 ⟨3, none, [⟨0, 4096, "r-xp", 4096⟩]⟩ :=
  elf_layout_sound (show elfCodeLayout _ "x86_64" 4096 = _ by decide +kernel)

/-! ## Sharing pages -/

/-- The program header whose pages lie at an address once all have been mapped in order. -/
def mapped (raw : Bytes) (pageSize : ℕ) : ℕ → Option ProgramHeader :=
  placed pageSize (·.address) (·.stop) (loads raw)

/-- The returned segments have their pages to themselves, and mapping the image leaves them in place. -/
structure CodeApart (raw : Bytes) (pageSize : ℕ) (layout : Layout) : Prop where
  segments : layout.segments.Pairwise fun s t => Disjoint s.range t.range
  loads : (loads raw).Pairwise fun p q =>
    (p.executable → Disjoint (p.segment pageSize).range (q.range pageSize)) ∧
      (q.executable → Disjoint (q.segment pageSize).range (p.range pageSize))
  mapped : ∀ address p, p.executable →
    (p ∈ ProxyServer.loads raw ∧ address ∈ (p.segment pageSize).range ↔ mapped raw pageSize address = some p)

/-- No two `PT_LOAD`s that follow each other meet on a page where one of them is executable. -/
def NeighboursApart (raw : Bytes) (pageSize : ℕ) : Prop :=
  (loads raw).IsChain fun p q => p.executable ∨ q.executable → up pageSize p.stop ≤ down pageSize q.address

/-- The pages of an executable `PT_LOAD` and of another one. -/
abbrev RangesApart (pageSize : ℕ) (p q : ProgramHeader) : Prop :=
  p.executable ∨ q.executable → Disjoint (p.range pageSize) (q.range pageSize)

theorem neighboursApart_iff (ha : Accepted raw pageSize layout) :
    (loads raw).Pairwise (RangesApart pageSize) ↔ NeighboursApart raw pageSize :=
  pairwise_pages (pageSizes_pos ha.page) ha.sorted fun p hp => Nat.lt_add_of_pos_right (ha.loadable p hp).memory

/-- On the program headers of an accepted image the segments can be put for their pages. -/
theorem rangesApart_iff (ha : Accepted raw pageSize layout) {p q : ProgramHeader} (hp : p ∈ loads raw) (hq : q ∈ loads raw) :
    RangesApart pageSize p q ↔ (p.executable → Disjoint (p.segment pageSize).range (q.range pageSize)) ∧
      (q.executable → Disjoint (q.segment pageSize).range (p.range pageSize)) := by
  have h := pageSizes_pos ha.page
  constructor
  · intro hpq
    constructor
    · intro hexec
      rw [p.segment_range h (ha.loadable p hp) hexec]
      exact hpq (.inl hexec)
    · intro hexec
      rw [q.segment_range h (ha.loadable q hq) hexec]
      exact (hpq (.inr hexec)).symm
  · rintro ⟨hpq, hqp⟩ (hexec | hexec)
    · rw [← p.segment_range h (ha.loadable p hp) hexec]
      exact hpq hexec
    · rw [← q.segment_range h (ha.loadable q hq) hexec]
      exact (hqp hexec).symm

theorem segments_apart (ha : Accepted raw pageSize layout) (h : (loads raw).Pairwise (RangesApart pageSize)) :
    layout.segments.Pairwise fun s t => Disjoint s.range t.range := by
  rw [ha.segments, List.pairwise_map]
  refine (h.filter _).imp_of_mem fun {p q} hp hq hpq => ?_
  obtain ⟨hp, hexec⟩ := List.mem_filter.mp hp
  obtain ⟨hq, hexecq⟩ := List.mem_filter.mp hq
  have hpos := pageSizes_pos ha.page
  rw [p.segment_range hpos (ha.loadable p hp) (of_decide_eq_true hexec),
    q.segment_range hpos (ha.loadable q hq) (of_decide_eq_true hexecq)]
  exact hpq (.inl (of_decide_eq_true hexec))

theorem mapped_apart (ha : Accepted raw pageSize layout) (h : (loads raw).Pairwise (RangesApart pageSize)) (address : ℕ)
    (p : ProgramHeader) (hexec : p.executable) :
    p ∈ loads raw ∧ address ∈ (p.segment pageSize).range ↔ mapped raw pageSize address = some p := by
  have hpos := pageSizes_pos ha.page
  constructor
  · rintro ⟨hp, haddress⟩
    rw [p.segment_range hpos (ha.loadable p hp) hexec] at haddress
    exact placed_of_pairwise h hp hexec haddress
  · intro hmapped
    obtain ⟨hp, haddress⟩ := mem_of_placed hmapped
    refine ⟨hp, ?_⟩
    rw [p.segment_range hpos (ha.loadable p hp) hexec]
    exact haddress

theorem code_apart_iff (h : elfCodeLayout raw machine pageSize = .ok layout) :
    CodeApart raw pageSize layout ↔ NeighboursApart raw pageSize := by
  have ha := accepted h
  rw [← neighboursApart_iff ha]
  constructor
  · intro hapart
    exact hapart.loads.imp_of_mem fun hp hq hpq => (rangesApart_iff ha hp hq).mpr hpq
  · intro hpairs
    refine ⟨segments_apart ha hpairs, ?_, mapped_apart ha hpairs⟩
    exact hpairs.imp_of_mem fun hp hq hpq => (rangesApart_iff ha hp hq).mp hpq

/-- Code on its own page, and data on the next one. -/
theorem code_apart_iff_image :
    let raw := image 62 [⟨1, 5, 0, 4096, 176, 176, 4096⟩, ⟨1, 6, 0, 8192, 176, 176, 4096⟩]
    CodeApart raw 4096 ⟨3, none, [⟨0, 4096, "r-xp", 4096⟩]⟩ ↔ NeighboursApart raw 4096 :=
  code_apart_iff (show elfCodeLayout _ "x86_64" 4096 = _ by decide +kernel)

/-- Data that starts on the page where code ends. -/
theorem code_shares_page :
    let raw := image 62 [⟨1, 5, 0, 0, 176, 176, 4096⟩, ⟨1, 6, 176, 176, 0, 8, 0⟩]
    elfCodeLayout raw "x86_64" 4096 = .ok ⟨3, none, [⟨0, 4096, "r-xp", 0⟩]⟩ ∧
      ¬ CodeApart raw 4096 ⟨3, none, [⟨0, 4096, "r-xp", 0⟩]⟩ := by
  refine ⟨by decide +kernel, fun hapart => ?_⟩
  have hloads : loads (image 62 [⟨1, 5, 0, 0, 176, 176, 4096⟩, ⟨1, 6, 176, 176, 0, 8, 0⟩]) =
      [⟨1, 5, 0, 0, 176, 176, 4096⟩, ⟨1, 6, 176, 176, 0, 8, 0⟩] := by decide +kernel
  have hpairs := hapart.loads
  rw [hloads] at hpairs
  have hdisjoint := ((List.pairwise_cons.mp hpairs).1 _ (List.mem_singleton_self _)).1 (by decide)
  have hcode : 0 ∈ (ProgramHeader.segment ⟨1, 5, 0, 0, 176, 176, 4096⟩ 4096).range := ⟨by decide, by decide⟩
  have hdata : 0 ∈ ProgramHeader.range ⟨1, 6, 176, 176, 0, 8, 0⟩ 4096 := ⟨by decide, by decide⟩
  exact Set.disjoint_left.mp hdisjoint hcode hdata

end HarnessConformance.ProxyServer
