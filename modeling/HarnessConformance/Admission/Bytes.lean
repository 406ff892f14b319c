import HarnessConformance.Admission.Reader

/-! # The bytes of an accepted ledger

The reader drops the line terminators and never looks at them again. The rows are exact and the
chain commits to them; the separators are exact only where no carriage return took their place. -/

namespace HarnessConformance.Admission
open Lib Lib.Outcome Lib.Lines Lib.HashChain
set_option autoImplicit false

theorem clean_texts (rows : List Row) : ∀ line ∈ rows.map Row.text, Clean line :=
  List.forall_mem_map.mpr fun row _ => row.clean_text

section
variable [Runtime]

theorem chains : Chains Row.digest Row.previousDigest Row.sequence machine Ledger.previous Ledger.count :=
  ⟨fun h => h.sequence, fun h => h.previous, fun _ _ => rfl, fun _ _ => rfl⟩

/-- The byte strings whose digests the reader takes as row digests. -/
def hashed (raw : Bytes) : Set Bytes := {data | data ∈ splitLines raw}

theorem History.mem_hashed {raw : Bytes} {rows : List Row} (h : History raw rows) {row : Row} (hrow : row ∈ rows) :
    row.text ∈ hashed raw := by
  change row.text ∈ splitLines raw
  rw [h.lines]
  exact List.mem_map_of_mem hrow

/-- Head digest and count commit to the rows. -/
theorem rows_eq_of_head {raw raw' : Bytes} {rows rows' : List Row} {s s' : Ledger} (h : History raw rows)
    (h' : History raw' rows') (hs : machine.Replays .empty rows s) (hs' : machine.Replays .empty rows' s')
    (hfree : CollisionFree (hashed raw ∪ hashed raw')) (hprevious : s.previous = s'.previous) (hcount : s.count = s'.count) :
    rows = rows' := by
  have hchained := chains.chained rfl hs'
  rw [← hprevious, ← hcount] at hchained
  refine (chains.chained rfl hs).eq hchained ?_
  have hmem {row : Row} (hrow : row ∈ rows ∨ row ∈ rows') : row.text ∈ hashed raw ∪ hashed raw' :=
    hrow.imp h.mem_hashed h'.mem_hashed
  exact fun r hr t ht hrt => Row.text_injective (byteDigest_inj hfree (hmem hr) (hmem ht) hrt)

/-- The bytes are those of the rows exactly where no carriage return stands. -/
theorem History.exact_iff {raw : Bytes} {rows : List Row} (h : History raw rows) :
    raw = joinLines (rows.map Row.text) ↔ carriageReturn ∉ raw := by
  constructor
  · intro hraw
    rw [hraw]
    exact not_mem_joinLines (clean_texts rows)
  · intro hraw
    rw [← h.lines, joinLines_splitLines h.ended hraw]

/-- Of two accepted histories, the rows are canonical and the head digest and the count fix them. Both
are spelled by their rows, and fixed as bytes by head digest and count, if and only if neither has a
carriage return. -/
theorem accepted_ledger_bytes {raw raw' : Bytes} {s s' : Ledger} (h : parseReservations raw = .ok s)
    (h' : parseReservations raw' = .ok s') (hfree : CollisionFree (hashed raw ∪ hashed raw')) : ∃ rows rows' : List Row,
    splitLines raw = rows.map Row.text ∧ splitLines raw' = rows'.map Row.text ∧
    (∀ row ∈ rows ++ rows', canonicalBytes row.toJson = .ok row.text) ∧
    (s.previous = s'.previous → s.count = s'.count → rows = rows') ∧
    ((raw = joinLines (rows.map Row.text) ∧ raw' = joinLines (rows'.map Row.text) ∧
      (s.previous = s'.previous → s.count = s'.count → raw = raw')) ↔ carriageReturn ∉ raw ∧ carriageReturn ∉ raw') := by
  obtain ⟨rows, hrows, hs⟩ := parseReservations_eq_ok.mp h
  obtain ⟨rows', hrows', hs'⟩ := parseReservations_eq_ok.mp h'
  have hcommits := rows_eq_of_head hrows hrows' hs hs' hfree
  refine ⟨rows, rows', hrows.lines, hrows'.lines, ?_, hcommits, ?_⟩
  · rw [List.forall_mem_append]
    exact ⟨fun row hrow => canonicalBytes_eq_ok.mpr ⟨(hrows.fits row hrow).valid, rfl⟩,
      fun row hrow => canonicalBytes_eq_ok.mpr ⟨(hrows'.fits row hrow).valid, rfl⟩⟩
  · rw [hrows.exact_iff, hrows'.exact_iff]
    refine ⟨fun hexact => ⟨hexact.1, hexact.2.1⟩, fun hcr => ⟨hcr.1, hcr.2, fun hprevious hcount => ?_⟩⟩
    rw [hrows.exact_iff.mpr hcr.1, hrows'.exact_iff.mpr hcr.2, hcommits hprevious hcount]

/-! ## One row, two spellings -/

theorem History.single {row : Row} (hfits : row.Fits) {terminator : Bytes}
    (hterm : terminator = [lineFeed] ∨ terminator = [carriageReturn, lineFeed]) : History (row.text ++ terminator) [row] := by
  refine ⟨splitLines_terminated row.clean_text hterm, by simpa using hfits, .inr ?_, ?_, (by decide : 1 ≤ maxRows)⟩
  · rcases hterm with rfl | rfl <;> simp
  · have hlength : terminator.length ≤ 2 := by
      rcases hterm with rfl | rfl <;> decide
    have hsize := hfits.size.2
    rw [List.length_append, maxHistory]
    omega

end

namespace Sample

def binding : AdmissionBinding :=
  ⟨⟨"tenant", by decide⟩, ⟨"staging", by decide⟩, ⟨"run-1", by decide⟩, ⟨"capacity-1", by decide⟩,
    ⟨"proxy", by decide⟩, zero, zero, zero, zero⟩

def reserved : Row := ⟨1, zero, binding, newYear, .reserved⟩

theorem fits : @Row.Fits .ascii reserved :=
  @Row.Fits.mk .ascii reserved (by decide +kernel) (by decide +kernel) ⟨32137, by decide +kernel⟩

/-- A history of one reservation is accepted under both terminators. -/
theorem parse_reserved {terminator : Bytes} (hterm : terminator = [lineFeed] ∨ terminator = [carriageReturn, lineFeed]) :
    @parseReservations .ascii (reserved.text ++ terminator) = .ok (@Ledger.push .ascii .empty reserved) := by
  let _ := Runtime.ascii
  have hadmits : Ledger.empty.Admits reserved := ⟨rfl, rfl, rfl, nofun⟩
  exact parseReservations_eq_ok.mpr ⟨[reserved], .single fits hterm, hadmits, rfl⟩

end Sample

/-- Two accepted byte strings with one head digest and one count, the second not spelled by its rows. -/
theorem accepted_ledger_bytes_crlf : ∃ s,
    @parseReservations .ascii (Sample.reserved.text ++ [lineFeed]) = .ok s ∧
    @parseReservations .ascii (Sample.reserved.text ++ [carriageReturn, lineFeed]) = .ok s ∧
    Sample.reserved.text ++ [lineFeed] ≠ Sample.reserved.text ++ [carriageReturn, lineFeed] ∧
    ∀ rows : List Row, Sample.reserved.text ++ [carriageReturn, lineFeed] ≠ joinLines (rows.map Row.text) := by
  refine ⟨_, Sample.parse_reserved (.inl rfl), Sample.parse_reserved (.inr rfl), ?_, fun rows hrows => ?_⟩
  · exact fun h => absurd (List.append_cancel_left h) (by decide)
  · exact not_mem_joinLines (clean_texts rows) (hrows ▸ by simp)

/-- Both sides of the equivalence, at the two spellings of one reservation. -/
theorem accepted_ledger_bytes_reserved : ∃ rows rows' : List Row,
    splitLines (Sample.reserved.text ++ [lineFeed]) = rows.map Row.text ∧
    splitLines (Sample.reserved.text ++ [carriageReturn, lineFeed]) = rows'.map Row.text ∧ rows = rows' ∧
    ¬ carriageReturn ∉ Sample.reserved.text ++ [carriageReturn, lineFeed] := by
  let _ := Runtime.ascii
  have hlines {terminator : Bytes} (hterm : terminator = [lineFeed] ∨ terminator = [carriageReturn, lineFeed]) :
      hashed (Sample.reserved.text ++ terminator) = {Sample.reserved.text} := by
    ext data
    rw [hashed, splitLines_terminated Sample.reserved.clean_text hterm]
    exact List.mem_singleton
  have hfree : CollisionFree (hashed (Sample.reserved.text ++ [lineFeed]) ∪
      hashed (Sample.reserved.text ++ [carriageReturn, lineFeed])) := by
    rw [hlines (.inl rfl), hlines (.inr rfl), Set.union_self]
    exact Set.injOn_singleton _ _
  obtain ⟨rows, rows', hrows, hrows', -, hcommits, -⟩ :=
    accepted_ledger_bytes (Sample.parse_reserved (.inl rfl)) (Sample.parse_reserved (.inr rfl)) hfree
  exact ⟨rows, rows', hrows, hrows', hcommits rfl rfl, by simp⟩

end HarnessConformance.Admission
