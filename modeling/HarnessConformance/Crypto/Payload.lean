import HarnessConformance.CanonicalEncoding

/-! # Domain separation

`signature_payload` of `crypto.py` and the text that `canonical_digest` hashes. A NUL ends the
domain and canonical JSON holds none, so either text determines its domain and its document. -/

namespace HarnessConformance.Crypto
open Lib Lib.Outcome Lib.Lines Lib.Utf8
set_option autoImplicit false

/-- No NUL in a domain. -/
def NulFree (domain : String) : Prop := ∀ c ∈ domain.toList, 0 < c.toNat

instance (domain : String) : Decidable (NulFree domain) := List.decidableBAll _ _

/-- Two documents hold the same under every key outside `fields`. -/
def AgreeOutside (fields : List String) (v w : Json) : Prop :=
  ∀ k, k ∉ fields → Option.Rel Json.Same (v.get? k) (w.get? k)

/-- Signatures taken as ideal: a signature is valid for no text but the one that was signed. -/
structure IdealSignature (κ σ : Type) where
  sign : κ → Bytes → σ
  valid : κ → Bytes → σ → Prop
  bound : ∀ key signed text, valid key text (sign key signed) → text = signed

theorem zero_not_mem_canonicalText (v : Json) : (0 : UInt8) ∉ canonicalText v :=
  zero_not_mem_encodeText fun c hc => lt_of_lt_of_le (by decide) (Json.printable_encode v.canon c hc)

theorem domainPrefix_inj {d e : Option String} {x y : Bytes} (hd : ∀ s, d = some s → NulFree s) (hx : (0 : UInt8) ∉ x)
    (hy : (0 : UInt8) ∉ y) (h : domainPrefix d ++ x = domainPrefix e ++ y) : d = e ∧ x = y := by
  cases d with
  | none =>
    cases e with
    | none => exact ⟨rfl, h⟩
    | some e =>
      have hmem : (0 : UInt8) ∈ x := by
        rw [domainPrefix, List.nil_append] at h
        rw [h]
        simp [domainPrefix]
      exact absurd hmem hx
  | some d =>
    cases e with
    | none =>
      have hmem : (0 : UInt8) ∈ y := by
        rw [domainPrefix, domainPrefix, List.nil_append] at h
        rw [← h]
        simp
      exact absurd hmem hy
    | some e =>
      have hnul : (0 : UInt8) ∉ encodeText d.toList := zero_not_mem_encodeText (hd d rfl)
      simp only [domainPrefix, List.append_assoc, List.singleton_append] at h
      obtain ⟨hdomain, -, htext⟩ := (List.append_cons_inj_of_notMem hnul hx).mp h
      exact ⟨congrArg some (String.toList_injective (encodeText_injective hdomain)), htext⟩

/-- `{key: value for key, value in document.items() if key not in fields}` -/
def unsigned (document : Json) (fields : List String) : Py Json := do
  pure (.obj ((← membersOf document).filter fun m => m.1 ∉ fields))

theorem unsigned_eq_ok {document v : Json} {fields : List String} : unsigned document fields = .ok v ↔
    ∃ members, document = .obj members ∧ v = .obj (members.filter fun m => m.1 ∉ fields) := by
  simp only [unsigned, bind_eq_ok, membersOf_eq_ok, pure_eq_ok]
  exact exists_congr fun members => and_congr_right fun _ => eq_comm

theorem wf_unsigned {document v : Json} {fields : List String} (h : document.Wf) (hv : unsigned document fields = .ok v) : v.Wf := by
  obtain ⟨members, rfl, rfl⟩ := unsigned_eq_ok.mp hv
  obtain ⟨hnd, hmembers⟩ := Json.wf_obj.mp h
  exact Json.wf_obj.mpr ⟨hnd.sublist (List.filter_sublist.map Prod.fst), fun m hm => hmembers m (List.mem_filter.mp hm).1⟩

theorem get?_unsigned {document v : Json} {fields : List String} (hv : unsigned document fields = .ok v) {k : String}
    (hk : k ∉ fields) : v.get? k = document.get? k := by
  obtain ⟨members, rfl, rfl⟩ := unsigned_eq_ok.mp hv
  exact Json.get?_filter (p := fun key => decide (key ∉ fields)) (by simpa using hk)

variable [Runtime]

/-- What `canonical_digest(value, domain)` hashes. -/
def digestPreimage (value : Json) (domain : Option String) : Py Bytes := do
  let data ← canonicalBytes value
  pure (domainPrefix domain ++ data)

theorem canonicalDigest_eq {value : Json} {domain : Option String} {digest : Digest} :
    canonicalDigest value domain = .ok digest ↔ ∃ data, digestPreimage value domain = .ok data ∧ byteDigest data = digest := by
  simp only [canonicalDigest, digestPreimage, bind_eq_ok, pure_eq_ok]
  constructor
  · rintro ⟨data, hdata, h⟩
    exact ⟨_, ⟨data, hdata, rfl⟩, h⟩
  · rintro ⟨_, ⟨data, hdata, rfl⟩, h⟩
    exact ⟨data, hdata, h⟩

/-- `signature_payload(domain, document, fields)` -/
def signaturePayload (domain : String) (document : Json) (fields : List String) : Py Bytes := do
  let data ← canonicalBytes (← unsigned document fields)
  pure (encodeText domain.toList ++ [0] ++ data)

theorem signaturePayload_eq_ok {domain : String} {document : Json} {fields : List String} {payload : Bytes} :
    signaturePayload domain document fields = .ok payload ↔
      ∃ v, unsigned document fields = .ok v ∧ digestPreimage v (some domain) = .ok payload := by
  simp only [signaturePayload, digestPreimage, domainPrefix, bind_eq_ok]

theorem digestPreimage_inj {v w : Json} (hv : v.Wf) (hw : w.Wf) {d e : Option String} (hd : ∀ s, d = some s → NulFree s)
    {data : Bytes} (h : digestPreimage v d = .ok data) (h' : digestPreimage w e = .ok data) : d = e ∧ v.Same w := by
  simp only [digestPreimage, bind_eq_ok, pure_eq_ok, canonicalBytes_eq_ok] at h h'
  obtain ⟨_, ⟨-, rfl⟩, rfl⟩ := h
  obtain ⟨_, ⟨-, rfl⟩, heq⟩ := h'
  obtain ⟨hdomain, htext⟩ := domainPrefix_inj hd (zero_not_mem_canonicalText v) (zero_not_mem_canonicalText w) heq.symm
  exact ⟨hdomain, (Json.same_iff hv hw).mpr ((canonicalText_injective hv hw).mp htext)⟩

theorem signaturePayload_inj {v w : Json} (hv : v.Wf) (hw : w.Wf) {d e : String} (hd : NulFree d) {fields : List String}
    {payload : Bytes} (h : signaturePayload d v fields = .ok payload) (h' : signaturePayload e w fields = .ok payload) :
    d = e ∧ AgreeOutside fields v w := by
  obtain ⟨a, ha, hpayload⟩ := signaturePayload_eq_ok.mp h
  obtain ⟨b, hb, hpayload'⟩ := signaturePayload_eq_ok.mp h'
  have hdomain : ∀ s, some d = some s → NulFree s := fun s hs => Option.some.inj hs ▸ hd
  obtain ⟨heq, hsame⟩ := digestPreimage_inj (wf_unsigned hv ha) (wf_unsigned hw hb) hdomain hpayload hpayload'
  refine ⟨Option.some.inj heq, fun k hk => ?_⟩
  rw [← get?_unsigned ha hk, ← get?_unsigned hb hk]
  exact hsame.get? (wf_unsigned hv ha) (wf_unsigned hw hb) k

/-- What is hashed or signed under one domain is nothing that is hashed or signed under another domain
or for another document, and neither is its digest or its signature. -/
theorem domain_separation {v w : Json} (hv : v.Wf) (hw : w.Wf) {hashed : Set Bytes} (hsha : CollisionFree hashed) {κ σ : Type}
    (ideal : IdealSignature κ σ) :
    (∀ d e data, (∀ s, d = some s → NulFree s) → (∀ s, e = some s → NulFree s) →
        digestPreimage v d = .ok data → digestPreimage w e = .ok data → d = e ∧ v.Same w) ∧
      (∀ e data, digestPreimage v none = .ok data → digestPreimage w (some e) ≠ .ok data) ∧
      (∀ d e fields payload, NulFree d → NulFree e → signaturePayload d v fields = .ok payload →
        signaturePayload e w fields = .ok payload → d = e ∧ AgreeOutside fields v w) ∧
      (∀ d e digest, (∀ s, d = some s → NulFree s) → (∀ s, e = some s → NulFree s) →
        (∀ data, digestPreimage v d = .ok data ∨ digestPreimage w e = .ok data → data ∈ hashed) →
        canonicalDigest v d = .ok digest → canonicalDigest w e = .ok digest → d = e ∧ v.Same w) ∧
      ∀ key d e fields signed payload, NulFree d → NulFree e → signaturePayload d v fields = .ok signed →
        signaturePayload e w fields = .ok payload → ideal.valid key payload (ideal.sign key signed) →
        d = e ∧ AgreeOutside fields v w := by
  refine ⟨fun d e data hd _ h h' => digestPreimage_inj hv hw hd h h', fun e data h h' => ?_,
    fun d e fields payload hd _ h h' => signaturePayload_inj hv hw hd h h', fun d e digest hd _ hmem h h' => ?_,
    fun key d e fields signed payload hd _ h h' hvalid => ?_⟩
  · have hdomain := (digestPreimage_inj hv hw (by simp) h h').1
    cases hdomain
  · obtain ⟨x, hx, hdigest⟩ := canonicalDigest_eq.mp h
    obtain ⟨y, hy, hdigest'⟩ := canonicalDigest_eq.mp h'
    have hxy := byteDigest_inj hsha (hmem x (.inl hx)) (hmem y (.inr hy)) (hdigest.trans hdigest'.symm)
    exact digestPreimage_inj hv hw hd hx (hxy ▸ hy)
  · obtain rfl := ideal.bound key signed payload hvalid
    exact signaturePayload_inj hv hw hd h h'

omit [Runtime] in
/-- The same document under two domains. -/
theorem domain_separation_sample :
    ∃ data, @digestPreimage .ascii .null (some "a") = .ok data ∧ @digestPreimage .ascii .null (some "b") ≠ .ok data := by
  let _ := Runtime.ascii
  have hvalid : Valid .null := by decide
  have hfirst : digestPreimage .null (some "a") = .ok (domainPrefix (some "a") ++ canonicalText .null) := by
    simp only [digestPreimage, bind_eq_ok, pure_eq_ok]
    exact ⟨_, canonicalBytes_eq_ok.mpr ⟨hvalid, rfl⟩, rfl⟩
  let ideal : IdealSignature Unit Bytes := ⟨fun _ text => text, fun _ text s => text = s, fun _ _ _ h => h⟩
  have hseparate := (domain_separation (v := .null) (w := .null) trivial trivial (Set.injOn_empty _) ideal).1
  refine ⟨_, hfirst, fun h => ?_⟩
  have hsame := (hseparate _ _ _ (by decide) (by decide) hfirst h).1
  exact absurd hsame (by decide)

end HarnessConformance.Crypto
