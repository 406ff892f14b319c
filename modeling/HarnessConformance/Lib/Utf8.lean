import HarnessConformance.Lib.Lines

/-! # UTF-8 over byte lists

The core library's encoder and decoder, moved from byte arrays to byte lists. Text whose
characters are all printable encodes to bytes that end no line. -/

namespace HarnessConformance.Lib.Utf8
open Lines
set_option autoImplicit false

def encodeText (text : List Char) : Bytes := text.flatMap String.utf8EncodeChar

def decodeText (raw : Bytes) : Option (List Char) := raw.toByteArray.utf8Decode?.map Array.toList

theorem toByteArray_injective {xs ys : Bytes} (h : xs.toByteArray = ys.toByteArray) : xs = ys := by
  have h' := congrArg ByteArray.data h
  simpa using h'

theorem decodeText_encodeText (text : List Char) : decodeText (encodeText text) = some text := by
  have h : (encodeText text).toByteArray = text.utf8Encode := rfl
  rw [decodeText, h, List.utf8Decode?_utf8Encode]
  rfl

theorem encodeText_of_decodeText {raw : Bytes} {text : List Char} (h : decodeText raw = some text) :
    encodeText text = raw := by
  obtain ⟨chars, hchars, rfl⟩ := Option.map_eq_some_iff.mp h
  have hget := ByteArray.utf8Encode_get_utf8Decode? (b := raw.toByteArray) (h := by rw [hchars]; rfl)
  simp only [hchars, Option.get_some] at hget
  exact toByteArray_injective hget

theorem encodeText_injective {s t : List Char} (h : encodeText s = encodeText t) : s = t := by
  have hs := decodeText_encodeText s
  rw [h, decodeText_encodeText] at hs
  exact (Option.some.inj hs).symm

theorem encodeText_append (s t : List Char) : encodeText (s ++ t) = encodeText s ++ encodeText t :=
  List.flatMap_append

theorem length_encodeText_le (text : List Char) : (encodeText text).length ≤ 4 * text.length := by
  induction text with
  | nil => exact Nat.zero_le _
  | cons c cs ih =>
    have hchar : (String.utf8EncodeChar c).length ≤ 4 := by
      rw [String.length_utf8EncodeChar]
      exact Char.utf8Size_le_four c
    have happend : encodeText (c :: cs) = String.utf8EncodeChar c ++ encodeText cs := rfl
    rw [happend, List.length_append, List.length_cons]
    omega

theorem encodeText_lineFeed : encodeText ['\n'] = [lineFeed] := rfl

/-- No byte of a character lies below an ASCII bound that the character reaches. -/
theorem le_of_mem_utf8EncodeChar {n : ℕ} (hn : n ≤ 128) {c : Char} (hc : n ≤ c.toNat) {b : UInt8}
    (hb : b ∈ String.utf8EncodeChar c) : n ≤ b.toNat := by
  have hval : c.val.toNat = c.toNat := rfl
  unfold String.utf8EncodeChar at hb
  simp only [hval] at hb
  split at hb
  · obtain rfl := List.mem_singleton.mp hb
    simp only [UInt8.toNat_ofNat']
    omega
  · split at hb
    · simp only [List.mem_cons, List.not_mem_nil, or_false] at hb
      rcases hb with rfl | rfl <;> simp only [UInt8.toNat_ofNat'] <;> omega
    · split at hb
      · simp only [List.mem_cons, List.not_mem_nil, or_false] at hb
        rcases hb with rfl | rfl | rfl <;> simp only [UInt8.toNat_ofNat'] <;> omega
      · simp only [List.mem_cons, List.not_mem_nil, or_false] at hb
        rcases hb with rfl | rfl | rfl | rfl <;> simp only [UInt8.toNat_ofNat'] <;> omega

theorem le_of_mem_encodeText {n : ℕ} (hn : n ≤ 128) {text : List Char} (h : ∀ c ∈ text, n ≤ c.toNat) {b : UInt8}
    (hb : b ∈ encodeText text) : n ≤ b.toNat := by
  obtain ⟨c, hc, hbc⟩ := List.mem_flatMap.mp hb
  exact le_of_mem_utf8EncodeChar hn (h c hc) hbc

theorem clean_encodeText {text : List Char} (h : ∀ c ∈ text, 32 ≤ c.toNat) : Clean (encodeText text) := by
  intro b hb
  have hge := le_of_mem_encodeText (by decide) h hb
  simp only [isBody, Bool.and_eq_true, decide_eq_true_eq]
  constructor <;> rintro rfl <;> exact absurd hge (by decide)

/-- Only the character NUL is written with the byte zero. -/
theorem zero_not_mem_encodeText {text : List Char} (h : ∀ c ∈ text, 0 < c.toNat) : (0 : UInt8) ∉ encodeText text :=
  fun hzero => absurd (le_of_mem_encodeText (by decide) h hzero) (by decide)

end HarnessConformance.Lib.Utf8
