import HarnessConformance.Lib.Base64
import HarnessConformance.Python

/-! # Base64url values

`b64url_encode` and `b64url_decode` of `crypto.py`: a value is accepted exactly when it is the text of a byte
string of the expected length. -/

namespace HarnessConformance.Crypto
open Lib Lib.Outcome Lib.Lines
set_option autoImplicit false

/-- `b64url_encode(value)` -/
def b64urlEncode (value : Bytes) : String := Base64.encode value

/-- `b64url_decode(value, expected_length=…)` -/
def b64urlDecode (value : Json) (expectedLength : ℕ) : Py Bytes :=
  let malformed : PyError := .conformance "INVALID_BASE64URL" "value must be unpadded base64url"
  match value with
  | .str text =>
    if '=' ∈ text.toList then .error malformed
    else
      match Base64.decode text with
      | none => .error malformed
      | some decoded => do
        conform "INVALID_BASE64URL" "base64url length or canonical encoding is invalid"
          (decoded.length = expectedLength ∧ b64urlEncode decoded = text)
        pure decoded
  | _ => .error malformed

theorem b64urlDecode_eq_ok {value : Json} {expectedLength : ℕ} {data : Bytes} :
    b64urlDecode value expectedLength = .ok data ↔ value = .str (b64urlEncode data) ∧ data.length = expectedLength := by
  constructor
  · intro h
    unfold b64urlDecode at h
    dsimp only at h
    split at h
    · split_ifs at h
      split at h
      · cases h
      · simp only [bind_eq_ok, conform_eq_ok, pure_eq_ok, exists_const] at h
        obtain ⟨⟨hlength, hencoded⟩, rfl⟩ := h
        exact ⟨congrArg Json.str hencoded.symm, hlength⟩
    · cases h
  · rintro ⟨rfl, hlength⟩
    have hpadding : '=' ∉ (b64urlEncode data).toList := fun hmem => (Base64.encode_ascii data _ hmem).2 rfl
    have hdecoded : Base64.decode (b64urlEncode data) = some data := Base64.decode_encode data
    simp only [b64urlDecode, if_neg hpadding, hdecoded, bind_eq_ok, conform_eq_ok, pure_eq_ok, exists_const]
    exact ⟨⟨hlength, trivial⟩, trivial⟩

theorem conforms_b64urlDecode (value : Json) (expectedLength : ℕ) : Conforms (b64urlDecode value expectedLength) := by
  unfold b64urlDecode
  dsimp only
  split
  · split_ifs
    · exact conforms_conformance
    · split
      · exact conforms_conformance
      · exact conforms_conform.bind fun _ _ => conforms_ok
  · exact conforms_conformance

end HarnessConformance.Crypto
