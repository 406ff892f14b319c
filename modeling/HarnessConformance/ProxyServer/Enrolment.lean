import HarnessConformance.ProxyServer.CodePages

/-! # Enrolling an image

The rules that `validate_qualification_record` and `_KernelCodeFiles` set for the executable segments of a
file row, on the row of an accepted image. -/

namespace HarnessConformance.ProxyServer
open Lib Lib.Outcome Lib.Lines Lib.LittleEndian Lib.Pages
open Admission (require require_eq_ok)
set_option autoImplicit false

/-- One entry of `executableSegments`. -/
structure SegmentPin where
  offset : ℕ
  length : ℕ
  permissions : String
  deriving DecidableEq

/-- The part of a file row that the segments are checked against. -/
structure FileRow where
  size : ℕ
  executableSegments : List SegmentPin

/-- `{k: v for k, v in s.items() if k != "virtualAddress"}` -/
def Segment.pin (s : Segment) : SegmentPin := ⟨s.offset, s.length, s.permissions⟩

/-- The row of an image. -/
def fileRow (raw : Bytes) (layout : Layout) : FileRow := ⟨raw.length, layout.segments.map Segment.pin⟩

/-! ## The record -/

/-- One round of the loop over the segments of a row. -/
def recordSegment (row : FileRow) (seen : List SegmentPin) (segment : SegmentPin) : Py (List SegmentPin) := do
  require "QUALIFICATION_SEGMENT_INVALID" (segment ∉ seen ∧ segment.offset < row.size ∧
    segment.offset + segment.length ≤ (row.size + 4095) / 4096 * 4096)
  pure (seen ++ [segment])

/-- The rules of `validate_qualification_record` on the segments of a row. -/
def recordSegments (row : FileRow) : Py Unit := do
  let _ ← row.executableSegments.foldlM (recordSegment row) []
  pure ()

theorem recordSegments_eq_ok {row : FileRow} : recordSegments row = .ok () ↔ row.executableSegments.Nodup ∧
    ∀ s ∈ row.executableSegments, s.offset < row.size ∧ s.offset + s.length ≤ up 4096 row.size := by
  have hfold : ∀ (segments seen : List SegmentPin), (∃ t, segments.foldlM (recordSegment row) seen = .ok t) ↔
      segments.Nodup ∧ (∀ s ∈ segments, s ∉ seen) ∧
        ∀ s ∈ segments, s.offset < row.size ∧ s.offset + s.length ≤ up 4096 row.size := by
    intro segments
    induction segments with
    | nil => simp [pure, Except.pure]
    | cons s segments ih =>
      intro seen
      have hstep : (∃ t, (s :: segments).foldlM (recordSegment row) seen = .ok t) ↔
          (s ∉ seen ∧ s.offset < row.size ∧ s.offset + s.length ≤ up 4096 row.size) ∧
            ∃ t, segments.foldlM (recordSegment row) (seen ++ [s]) = .ok t := by
        simp only [foldlM_cons_eq_ok, recordSegment, bind_eq_ok, require_eq_ok, pure_eq_ok]
        constructor
        · rintro ⟨t, _, ⟨_, hs, rfl⟩, ht⟩
          exact ⟨hs, t, ht⟩
        · rintro ⟨hs, t, ht⟩
          exact ⟨t, _, ⟨(), hs, rfl⟩, ht⟩
      rw [hstep, ih, List.nodup_cons]
      simp only [List.forall_mem_cons, List.mem_append, List.mem_singleton, not_or]
      constructor
      · rintro ⟨⟨hseen, hs⟩, hnodup, hnew, hrest⟩
        exact ⟨⟨fun hmem => (hnew s hmem).2 rfl, hnodup⟩, ⟨hseen, fun x hx => (hnew x hx).1⟩, hs, hrest⟩
      · rintro ⟨⟨hmem, hnodup⟩, ⟨hseen, hnew⟩, hs, hrest⟩
        exact ⟨⟨hseen, hs⟩, hnodup, fun x hx => ⟨hnew x hx, fun heq => hmem (heq ▸ hx)⟩, hrest⟩
  have hall := hfold row.executableSegments []
  simp only [List.not_mem_nil, not_false_eq_true, implies_true, true_and] at hall
  rw [← hall, recordSegments]
  simp only [bind_eq_ok, pure_eq_ok, and_true]

/-! ## The code files -/

/-- The rules of `_KernelCodeFiles.__init__` on the segments of a row. -/
def codeFileSegments (pageSize : ℕ) (row : FileRow) : Py Unit := do
  require "KERNEL_CODE_SEGMENTS" (row.executableSegments.length ≤ 16)
  row.executableSegments.forM fun s => require "KERNEL_CODE_SEGMENTS" (s.offset < row.size ∧ 0 < s.length ∧
    s.length ≤ 67108864 ∧ s.offset % pageSize = 0 ∧ s.length % pageSize = 0 ∧
    s.permissions ∈ ["r-xp", "--xp", "r-xs", "--xs"])

theorem codeFileSegments_eq_ok {pageSize : ℕ} {row : FileRow} : codeFileSegments pageSize row = .ok () ↔
    row.executableSegments.length ≤ 16 ∧ ∀ s ∈ row.executableSegments, s.offset < row.size ∧ 0 < s.length ∧
      s.length ≤ 67108864 ∧ s.offset % pageSize = 0 ∧ s.length % pageSize = 0 ∧
      s.permissions ∈ ["r-xp", "--xp", "r-xs", "--xs"] := by
  simp only [codeFileSegments, bind_eq_ok, forM_eq_ok, require_eq_ok, exists_const]

/-! ## Accepted images -/

section
variable {raw : Bytes} {machine : String} {pageSize : ℕ} {layout : Layout}

/-- The segments of the layout, each with its program header. -/
theorem forall_segments (ha : Accepted raw pageSize layout) {P : Segment → Prop} : (∀ s ∈ layout.segments, P s) ↔
    ∀ p ∈ loads raw, p.executable → P (p.segment pageSize) := by
  rw [ha.segments, List.forall_mem_map]
  simp only [List.mem_filter, decide_eq_true_eq, and_imp]

theorem segment_offset_lt {p : ProgramHeader} (hp : Loadable raw pageSize p) (hexec : p.executable) :
    (p.segment pageSize).offset < raw.length := by
  have hsize := hp.size hexec
  have hfile := hp.fileEnd
  have hdown : (p.segment pageSize).offset ≤ p.offset := down_le
  omega

theorem segment_length_pos (h : 0 < pageSize) {p : ProgramHeader} (hp : Loadable raw pageSize p) (hexec : p.executable) :
    0 < (p.segment pageSize).length :=
  Nat.sub_pos_of_lt (down_lt_up h (Nat.lt_add_of_pos_right (hp.size hexec)))

/-- The rules for the page size hold of the row of every accepted image. -/
theorem codeFileSegments_fileRow (ha : Accepted raw pageSize layout) :
    codeFileSegments pageSize (fileRow raw layout) = .ok () := by
  have hpos := pageSizes_pos ha.page
  rw [codeFileSegments_eq_ok, fileRow, List.length_map, List.forall_mem_map]
  refine ⟨ha.count, (forall_segments ha).mpr fun p hp hexec => ?_⟩
  have hload := ha.loadable p hp
  have hdescribes := describes_segment ha.page hload hexec
  refine ⟨segment_offset_lt hload hexec, segment_length_pos hpos hload hexec, hload.bounded hexec,
    Nat.mod_eq_zero_of_dvd hdescribes.aligned.1, Nat.mod_eq_zero_of_dvd hdescribes.aligned.2.1, ?_⟩
  rw [Segment.pin, hdescribes.permissions]
  split <;> simp

theorem nodup_pins (ha : Accepted raw pageSize layout) : (layout.segments.map Segment.pin).Nodup := by
  have hidentity : (layout.segments.map Segment.pin).map (fun s => (s.offset, s.length)) =
      layout.segments.map fun s => (s.offset, s.length) := by
    rw [List.map_map]
    rfl
  exact List.Nodup.of_map _ (hidentity ▸ ha.distinct)

/-- The record's rules ask one thing more of it, the room of its last code page. -/
theorem recordSegments_fileRow (ha : Accepted raw pageSize layout) : recordSegments (fileRow raw layout) = .ok () ↔
    ∀ p ∈ loads raw, p.executable → up pageSize (p.offset + p.size) ≤ up 4096 raw.length := by
  have hpos := pageSizes_pos ha.page
  rw [recordSegments_eq_ok, fileRow, List.forall_mem_map, forall_segments ha]
  constructor
  · rintro ⟨-, hsegments⟩ p hp hexec
    exact p.segment_fileEnd hpos ▸ (hsegments p hp hexec).2
  · intro hroom
    refine ⟨nodup_pins ha, fun p hp hexec => ⟨segment_offset_lt (ha.loadable p hp) hexec, ?_⟩⟩
    exact (p.segment_fileEnd hpos).trans_le (hroom p hp hexec)

/-- The row of an accepted image satisfies the rules for its page size, and those of the record exactly when
its code pages end within the file's last 4096 bytes. -/
theorem enrolment (h : elfCodeLayout raw machine pageSize = .ok layout) :
    codeFileSegments pageSize (fileRow raw layout) = .ok () ∧
      (fileRow raw layout).executableSegments.Nodup ∧
      (∀ s ∈ (fileRow raw layout).executableSegments,
        s.offset < raw.length ∧ s.offset + s.length ≤ up pageSize raw.length) ∧
      (recordSegments (fileRow raw layout) = .ok () ↔
        ∀ p ∈ loads raw, p.executable → up pageSize (p.offset + p.size) ≤ up 4096 raw.length) ∧
      (pageSize = 4096 → recordSegments (fileRow raw layout) = .ok ()) := by
  have ha := accepted h
  have hpos := pageSizes_pos ha.page
  have hroom : ∀ p ∈ loads raw, up pageSize (p.offset + p.size) ≤ up pageSize raw.length := fun p hp =>
    up_mono hpos (ha.loadable p hp).fileEnd
  refine ⟨codeFileSegments_fileRow ha, nodup_pins ha, ?_, recordSegments_fileRow ha, ?_⟩
  · rw [fileRow, List.forall_mem_map, forall_segments ha]
    intro p hp hexec
    exact ⟨segment_offset_lt (ha.loadable p hp) hexec, (p.segment_fileEnd hpos).trans_le (hroom p hp)⟩
  · rintro rfl
    exact (recordSegments_fileRow ha).mpr fun p hp _ => hroom p hp

theorem enrolment_image :
    let raw := image 62 [⟨1, 5, 0, 4096, 120, 120, 4096⟩]
    recordSegments (fileRow raw ⟨3, none, [⟨0, 4096, "r-xp", 4096⟩]⟩) = .ok () :=
  (enrolment (show elfCodeLayout _ "x86_64" 4096 = _ by decide +kernel)).2.2.2.2 rfl

end

/-- The same image where pages have 16384 bytes. -/
theorem enrolment_refused :
    let raw := image 62 [⟨1, 5, 0, 16384, 120, 120, 16384⟩]
    elfCodeLayout raw "x86_64" 16384 = .ok ⟨3, none, [⟨0, 16384, "r-xp", 16384⟩]⟩ ∧
      recordSegments (fileRow raw ⟨3, none, [⟨0, 16384, "r-xp", 16384⟩]⟩) =
        .error (.conformance "QUALIFICATION_SEGMENT_INVALID" "fixed proxy refused; no execution authority") := by
  refine ⟨by decide +kernel, by decide +kernel⟩

end HarnessConformance.ProxyServer
