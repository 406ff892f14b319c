import HarnessConformance.Lib.HashChain
import HarnessConformance.ReplayStore.Journal

/-! # The bytes of an accepted replay journal

An accepted byte string is the canonical text of its rows, one line feed behind each, and the head
digest with the row count commits to all of it. -/

namespace HarnessConformance.ReplayStore
open Lib Lib.Outcome Lib.Lines Lib.HashChain
set_option autoImplicit false

theorem clean_text (row : Row) : Clean row.text := clean_canonicalText _

theorem clean_texts (rows : List Row) : ∀ line ∈ rows.map Row.text, Clean line :=
  List.forall_mem_map.mpr fun row _ => clean_text row

section
variable [Runtime]

/-- The journal as a machine over typed rows. -/
def machine : Machine Replay Row := ⟨Replay.Admits, Replay.push⟩

/-- A row within the bounds of the canonical encoder and of one record. -/
structure Row.Fits (row : Row) : Prop where
  valid : Valid row.toJson
  size : row.text.length + 1 ≤ maxRecord

/-- The rows an accepted byte string spells. -/
structure Spells (raw : Bytes) (rows : List Row) : Prop where
  bytes : raw = joinLines (rows.map Row.text)
  fits : ∀ row ∈ rows, row.Fits
  length : raw.length ≤ maxJournal
  count : rows.length ≤ maxRecords

/-- What `replayLine` asks of the spelling of a row. -/
def LineSpells (line : Bytes) (row : Row) : Prop :=
  (0 < line.length ∧ line.length ≤ maxRecord) ∧ (line = row.text ∨ line = row.text ++ [lineFeed]) ∧ Valid row.toJson

/-- A line that is not cut short spells its row in one way. -/
theorem LineSpells.line {line : Bytes} {row : Row} (h : LineSpells line row) (hline : ¬ Clean line) :
    line = row.text ++ [lineFeed] ∧ row.Fits := by
  obtain ⟨⟨-, hlength⟩, htext | htext, hvalid⟩ := h
  · rw [htext] at hline
    exact absurd (clean_text row) hline
  · rw [htext, List.length_append, List.length_singleton] at hlength
    exact ⟨htext, hvalid, hlength⟩

theorem Row.Fits.lineSpells {row : Row} (h : row.Fits) : LineSpells (row.text ++ [lineFeed]) row := by
  refine ⟨⟨by simp, ?_⟩, .inr rfl, h.valid⟩
  rw [List.length_append, List.length_singleton]
  exact h.size

theorem lines_of_lineSpells {lines : List Bytes} {rows : List Row} (h : List.Forall₂ LineSpells lines rows)
    (hlines : ∀ line ∈ lines, ¬ Clean line) :
    lines = rows.map (fun row => row.text ++ [lineFeed]) ∧ ∀ row ∈ rows, row.Fits := by
  induction h with
  | nil => exact ⟨rfl, nofun⟩
  | cons hrow _ ih =>
    rw [List.forall_mem_cons] at hlines
    obtain ⟨hline, hfits⟩ := hrow.line hlines.1
    obtain ⟨hrest, hall⟩ := ih hlines.2
    exact ⟨by rw [List.map_cons, hline, hrest], List.forall_mem_cons.mpr ⟨hfits, hall⟩⟩

/-- The reader accepts exactly the spelled replays. -/
theorem parseJournal_eq_ok {raw : Bytes} {s : Replay} :
    parseJournal raw = .ok s ↔ ∃ rows, Spells raw rows ∧ machine.Replays .empty rows s := by
  simp only [parseJournal, bind_eq_ok, require_eq_ok, exists_const]
  have hline (s t : Replay) (line : Bytes) : replayLine s line = .ok t ↔
      ∃ row, LineSpells line row ∧ machine.admits s row ∧ t = machine.push s row := by
    simp only [replayLine_eq_ok, machine, LineSpells, and_assoc]
  rw [Machine.foldlM_eq_ok hline]
  constructor
  · rintro ⟨hlength, hended, hcount, rows, hlines, hreplays⟩
    obtain ⟨hrows, hfits⟩ := lines_of_lineSpells hlines fun line hline => not_clean_of_mem_splitKeep hended hline
    refine ⟨rows, ⟨?_, hfits, hlength, ?_⟩, hreplays⟩
    · rw [← flatten_splitKeep raw, hrows, joinLines, List.flatMap_map, List.flatMap_def]
    · rwa [hrows, List.length_map] at hcount
  · rintro ⟨rows, ⟨rfl, hfits, hlength, hcount⟩, hreplays⟩
    have hsplit := splitKeep_joinLines (clean_texts rows)
    rw [List.map_map] at hsplit
    rw [hsplit, List.length_map]
    refine ⟨hlength, Ended.joinLines _, hcount, rows, ?_, hreplays⟩
    rw [List.forall₂_map_left_iff, List.forall₂_same]
    exact fun row hrow => (hfits row hrow).lineSpells

/-! ## The chain -/

def Row.digest (row : Row) : Digest := digestOf row.toJson

theorem chains : Chains Row.digest Row.previousDigest Row.sequence machine Replay.previous Replay.count :=
  ⟨fun h => h.sequence, fun h => h.previous, fun _ _ => rfl, fun _ _ => rfl⟩

/-- The byte strings whose digests the reader takes. -/
def hashed (raw : Bytes) : Set Bytes := {data | data ++ [lineFeed] ∈ splitKeep raw}

theorem Spells.mem_hashed {raw : Bytes} {rows : List Row} (h : Spells raw rows) {row : Row} (hrow : row ∈ rows) :
    row.text ∈ hashed raw := by
  change row.text ++ [lineFeed] ∈ splitKeep raw
  rw [h.bytes, splitKeep_joinLines (clean_texts rows)]
  exact List.mem_map.mpr ⟨row.text, List.mem_map_of_mem hrow, rfl⟩

/-- Head digest and count commit to the rows. -/
theorem rows_eq_of_head {raw raw' : Bytes} {rows rows' : List Row} {s s' : Replay} (h : Spells raw rows)
    (h' : Spells raw' rows') (hs : machine.Replays .empty rows s) (hs' : machine.Replays .empty rows' s')
    (hfree : CollisionFree (hashed raw ∪ hashed raw')) (hprevious : s.previous = s'.previous) (hcount : s.count = s'.count) :
    rows = rows' := by
  have hchained := chains.chained rfl hs'
  rw [← hprevious, ← hcount] at hchained
  refine (chains.chained rfl hs).eq hchained ?_
  have hmem {row : Row} (hrow : row ∈ rows ∨ row ∈ rows') : row.text ∈ hashed raw ∪ hashed raw' :=
    hrow.imp h.mem_hashed h'.mem_hashed
  exact fun r hr t ht hrt => Row.text_injective (byteDigest_inj hfree (hmem hr) (hmem ht) hrt)

/-- An accepted journal is the canonical text of numbered and linked rows, and no other byte string
is accepted with its head digest and count. -/
theorem accepted_journal_bytes {raw : Bytes} {s : Replay} (h : parseJournal raw = .ok s) :
    (∃ rows : List Row, raw = joinLines (rows.map Row.text) ∧ (∀ row ∈ rows, canonicalBytes row.toJson = .ok row.text) ∧
      s.count = rows.length ∧ (∀ i row, rows[i]? = some row → row.sequence = i + 1) ∧
      Linked Row.digest Row.previousDigest zero rows ∧ s.previous = head Row.digest zero rows) ∧
    (∀ raw' s', parseJournal raw' = .ok s' → CollisionFree (hashed raw ∪ hashed raw') → s'.previous = s.previous →
      s'.count = s.count → raw' = raw) ∧
    (∀ raw', raw' ≠ raw → CollisionFree (hashed raw ∪ hashed raw') → (∃ e, parseJournal raw' = .error e) ∨
      ∃ s', parseJournal raw' = .ok s' ∧ (s'.previous ≠ s.previous ∨ s'.count ≠ s.count)) := by
  obtain ⟨rows, hspells, hreplays⟩ := parseJournal_eq_ok.mp h
  have hs := chains.chained rfl hreplays
  have hcommits : ∀ raw' s', parseJournal raw' = .ok s' → CollisionFree (hashed raw ∪ hashed raw') →
      s'.previous = s.previous → s'.count = s.count → raw' = raw := by
    intro raw' s' h' hfree hprevious hcount
    obtain ⟨rows', hspells', hreplays'⟩ := parseJournal_eq_ok.mp h'
    have hrows := rows_eq_of_head hspells hspells' hreplays hreplays' hfree hprevious.symm hcount.symm
    rw [hspells.bytes, hspells'.bytes, hrows]
  refine ⟨⟨rows, hspells.bytes, ?_, hs.count, hs.numbered, hs.linked, hs.last⟩, hcommits, ?_⟩
  · exact fun row hrow => canonicalBytes_eq_ok.mpr ⟨(hspells.fits row hrow).valid, rfl⟩
  · intro raw' hne hfree
    rcases ok_or_error (parseJournal raw') with ⟨s', hs'⟩ | herror
    · refine .inr ⟨s', hs', ?_⟩
      by_contra hsame
      rw [not_or, not_not, not_not] at hsame
      exact hne (hcommits raw' s' hs' hfree hsame.1 hsame.2)
    · exact .inl herror

end

namespace Sample

def reserved : Row := ⟨1, zero, zero, zero, .reserved, newYear, ⟨none, by decide⟩⟩

theorem fits : @Row.Fits .ascii reserved := @Row.Fits.mk .ascii reserved (by decide +kernel) (by decide +kernel)

theorem parse_reserved : @parseJournal .ascii (reserved.text ++ [lineFeed]) = .ok (@Replay.push .ascii .empty reserved) := by
  let _ := Runtime.ascii
  have hadmits : Replay.empty.Admits reserved := ⟨rfl, rfl, follows_none.mpr rfl⟩
  refine parseJournal_eq_ok.mpr ⟨[reserved], ⟨?_, by simpa using fits, ?_, (by decide : 1 ≤ maxRecords)⟩, hadmits, rfl⟩
  · exact (List.append_nil _).symm
  · rw [List.length_append, List.length_singleton]
    exact fits.size.trans (by decide)

end Sample

/-- The journal of one reservation is accepted, and no other byte string has its head digest and count. -/
theorem accepted_journal_bytes_reserved :
    (∃ s, @parseJournal .ascii (Sample.reserved.text ++ [lineFeed]) = .ok s) ∧
      ∀ raw' s', @parseJournal .ascii raw' = .ok s' →
        @CollisionFree .ascii (hashed (Sample.reserved.text ++ [lineFeed]) ∪ hashed raw') →
        s'.previous = @Row.digest .ascii Sample.reserved → s'.count = 1 → raw' = Sample.reserved.text ++ [lineFeed] :=
  ⟨⟨_, Sample.parse_reserved⟩, (@accepted_journal_bytes .ascii _ _ Sample.parse_reserved).2.1⟩

end HarnessConformance.ReplayStore
