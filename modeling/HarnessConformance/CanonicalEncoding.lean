import HarnessConformance.Canonical
import HarnessConformance.Lib.JsonSame

/-! # Canonical JSON as an encoding

Every value that `canonical_bytes` accepts is read back from its bytes, values with the same bytes
are the same up to member order, and no other bytes are a document of the value. -/

namespace HarnessConformance
open Lib Lib.Outcome Lib.Lines Lib.Utf8
set_option autoImplicit false

variable [Runtime]

theorem loadJsonBytes_canonicalBytes {v : Json} {data : Bytes} (hv : v.Wf) (h : canonicalBytes v = .ok data)
    (hlength : data.length ≤ maxFileBytes) : loadJsonBytes data = .ok v.canon := by
  obtain ⟨hvalid, rfl⟩ := canonicalBytes_eq_ok.mp h
  have hspace : ∀ c ∈ ([] : List Char), Json.isSpace c = true := by simp
  obtain ⟨hread, hdecode⟩ := decode_canonicalText hv hspace
  rw [List.append_nil] at hread hdecode
  have hnil : canonicalText v ++ encodeText [] = canonicalText v := List.append_nil _
  rw [hnil] at hread
  exact loadJsonBytes_eq_ok.mpr ⟨hlength, _, hread, hdecode, validAt_canon.mpr hvalid⟩

/-- Two dictionary values share their bytes exactly when they are the same. -/
theorem canonicalBytes_same {v w : Json} {data : Bytes} (hv : v.Wf) (hw : w.Wf) (h : canonicalBytes v = .ok data) :
    canonicalBytes w = .ok data ↔ v.Same w := by
  obtain ⟨hvalid, rfl⟩ := canonicalBytes_eq_ok.mp h
  rw [canonicalBytes_eq_ok, Json.same_iff hv hw]
  constructor
  · rintro ⟨-, htext⟩
    exact ((canonicalText_injective hw hv).mp htext).symm
  · intro hcanon
    refine ⟨?_, (canonicalText_injective hw hv).mpr hcanon.symm⟩
    rwa [Valid, ← validAt_canon, ← hcanon, validAt_canon]

theorem requireCanonicalDocument_same {v : Json} {data : Bytes} (hv : v.Wf) (hlength : data.length ≤ maxFileBytes) :
    (∃ u, requireCanonicalDocument data = .ok u ∧ u.Same v) ↔
      ∃ encoded, canonicalBytes v = .ok encoded ∧ (data = encoded ∨ data = encoded ++ [lineFeed]) := by
  constructor
  · rintro ⟨u, hu, hsame⟩
    obtain ⟨hcanonical, hspelling, -⟩ := requireCanonicalDocument_eq_ok.mp hu
    have hencoded := canonicalBytes_eq_ok.mpr ⟨hcanonical.valid, rfl⟩
    exact ⟨canonicalText u, (canonicalBytes_same hcanonical.wf hv hencoded).mpr hsame, hspelling⟩
  · rintro ⟨encoded, hencoded, hspelling⟩
    obtain ⟨hvalid, rfl⟩ := canonicalBytes_eq_ok.mp hencoded
    refine ⟨v.canon, requireCanonicalDocument_eq_ok.mpr ⟨canonical_canon hv hvalid, ?_, hlength⟩, Json.same_canon hv⟩
    rwa [canonicalText_canon]

/-- Canonical JSON is a bijection between the accepted values, up to member order, and their bytes. -/
theorem canonical_encoding {v w : Json} (hv : v.Wf) (hw : w.Wf) :
    (∀ data, canonicalBytes v = .ok data → data.length ≤ maxFileBytes → ∃ u, loadJsonBytes data = .ok u ∧ u.Same v) ∧
      (∀ data, canonicalBytes v = .ok data → (canonicalBytes w = .ok data ↔ v.Same w)) ∧
      ∀ data, data.length ≤ maxFileBytes → ((∃ u, requireCanonicalDocument data = .ok u ∧ u.Same v) ↔
        ∃ encoded, canonicalBytes v = .ok encoded ∧ (data = encoded ∨ data = encoded ++ [lineFeed])) := by
  refine ⟨fun data hdata hlength => ?_, fun data hdata => canonicalBytes_same hv hw hdata,
    fun data hlength => requireCanonicalDocument_same hv hlength⟩
  exact ⟨v.canon, loadJsonBytes_canonicalBytes hv hdata hlength, Json.same_canon hv⟩

omit [Runtime] in
/-- `{"a": true}` and `{"a": 1}` have different bytes. -/
theorem canonical_encoding_sample :
    ∃ data, @canonicalBytes .ascii (.obj [("a", .bool true)]) = .ok data ∧ @canonicalBytes .ascii (.obj [("a", .int 1)]) ≠ .ok data := by
  let _ := Runtime.ascii
  have hvalid : Valid (.obj [("a", .bool true)]) := by decide
  have hencoded := canonicalBytes_eq_ok.mpr ⟨hvalid, rfl⟩
  have hsame := (canonical_encoding (v := .obj [("a", .bool true)]) (w := .obj [("a", .int 1)]) (by decide) (by decide)).2.1 _ hencoded
  refine ⟨_, hencoded, fun h => ?_⟩
  exact absurd ((Json.same_iff (by decide) (by decide)).mp (hsame.mp h)) (by decide)

end HarnessConformance
