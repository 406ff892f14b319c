import HarnessConformance.Campaign.Report
import HarnessConformance.Campaign.Verification

/-! # The evidence pipeline

The evidence of a report is signed and verified, and no other document is verified in its place. -/

namespace HarnessConformance.Campaign
open Lib Lib.Outcome Lib.Lines Lib.Utf8 Lib.Json LinuxReadiness Crypto
set_option autoImplicit false

/-! ## Sets of texts -/

theorem distinct_texts {texts : List String} (h : texts.Nodup) : distinct (texts.map Json.str) = texts.map Json.str := by
  induction texts with
  | nil => rfl
  | cons t ts ih =>
    obtain ⟨hnot, hnodup⟩ := List.nodup_cons.mp h
    have hany : ¬ (ts.map Json.str).any (fun w => pyEq (.str t) w) = true := by
      rw [List.any_map, List.any_eq_true]
      rintro ⟨s, hs, heq⟩
      rw [Function.comp_apply, str_pyEq, Json.str.injEq] at heq
      exact hnot (heq ▸ hs)
    rw [List.map_cons, distinct, if_neg hany, ih hnodup]

theorem countDistinct_texts {texts : List String} (h : texts.Nodup) : countDistinct (texts.map Json.str) = .ok texts.length := by
  have hhash : (texts.map Json.str).all isHashable = true := by simp [isHashable]
  rw [countDistinct, if_pos hhash, distinct_texts h, List.length_map]

theorem firsts_texts (texts : List String) : ∃ axes : List String, firsts (texts.map Json.str) = axes.map Json.str ∧ axes.Nodup ∧
    ∀ a, a ∈ axes ↔ a ∈ texts := by
  refine ⟨texts.reverse.dedup.reverse, ?_, List.nodup_reverse.mpr (List.nodup_dedup _), by simp⟩
  rw [firsts, ← List.map_reverse, List.dedup_map_of_injective (fun _ _ => Json.str.inj), List.map_reverse]

/-! ## Plain texts -/

theorem keyId_plain (keyId : KeyId) : isPlain keyId.text = true ∧ keyId.text.length ≤ 128 := by
  have htail : (Regex.one fun c => c.isAlphanum || c == '.' || c == '_' || c == ':' || c == '-').Over fun c => isPlainChar c = true := by
    intro c hc
    simp only [Bool.or_eq_true, beq_iff_eq] at hc
    rcases hc with (((h | rfl) | rfl) | rfl) | rfl
    · exact isPlainChar_alphanum h
    all_goals decide
  refine ⟨isPlain_of_over (r := keyIdPattern) ⟨fun c => isPlainChar_alphanum, trivial, over_upTo htail 127⟩ keyId.valid, ?_⟩
  have hlength := (Regex.fullmatch_iff.mp keyId.valid).length_le (by decide +kernel)
  have hlongest : keyIdPattern.longest = 128 := by decide +kernel
  rwa [hlongest, String.length_toList] at hlength

/-! ## Bundles -/

section
variable [Runtime]

theorem textValid_reason {reason : String} (h : isReason reason = true) : TextValid reason :=
  textValid_plain (isReason_iff.mp h).1 ((isReason_iff.mp h).2.trans (by decide))

/-- What the evidence of a report holds. -/
structure Bundle where
  bundleId : String
  campaignId : Identifier
  environmentId : Identifier
  issuedAt : String
  axes : List String
  reportDigest : Digest
  status : ResultStatus
  tenantId : Identifier
  valid : TextValid bundleId ∧ TextValid issuedAt
  issued : ∃ moment, requireTime (.str issuedAt) "issuedAt" = .ok moment
  origin : axes ≠ [] ∧ axes.Nodup ∧ ∀ a ∈ axes, a ∈ evidenceAxes ∧ a ≠ "TENANT_ACCEPTANCE"

namespace Bundle

/-- The fields that the digest covers. -/
def body (b : Bundle) : Json.Members :=
  [("schemaVersion", .str bundleSchema), ("bundleId", .str b.bundleId), ("campaignId", .str b.campaignId.text),
    ("environmentId", .str b.environmentId.text), ("issuedAt", .str b.issuedAt), ("originatedAxes", .arr (b.axes.map .str)),
    ("producer", .str "planeon.harness-conformance/0.1.0"), ("reportDigest", .str b.reportDigest.text),
    ("resultStatus", .str b.status.name), ("subjectDigests", .arr [.str b.reportDigest.text]), ("tenantId", .str b.tenantId.text)]

def digest (b : Bundle) : Digest := byteDigest (domainPrefix (some evidenceDomain) ++ canonicalText (.obj b.body))

/-- The evidence without a signature. -/
def members (b : Bundle) : Json.Members := b.body ++ [("bundleDigest", .str b.digest.text)]

/-- The evidence that a key signs. -/
def claimed (b : Bundle) (keyId : KeyId) : Json.Members :=
  b.members ++ [("signerKeyId", .str keyId.text), ("signaturePurpose", .str "TECHNICAL_EVIDENCE")]

/-- The evidence with its signature. -/
def signed (b : Bundle) (keyId : KeyId) (signature : Bytes) : Json.Members :=
  b.claimed keyId ++ [("signature", .str (b64urlEncode signature))]

variable (b : Bundle)

theorem length_axes : b.axes.length ≤ 12 := by
  have hsub : b.axes ⊆ evidenceAxes := fun a ha => (b.origin.2.2 a ha).1
  exact (b.origin.2.1.subperm hsub).length_le

theorem axis_reason {a : String} (h : a ∈ b.axes) : isReason a = true := by
  have hall : evidenceAxes.all isReason = true := by decide
  exact List.all_eq_true.mp hall a (b.origin.2.2 a h).1

theorem valid_body : Valid (.obj b.body) := by
  have hid (i : Identifier) : ValidAt 1 (.str i.text) := validAt_str.mpr ⟨by decide, textValid_plain i.id_plain (i.id_length.trans (by decide))⟩
  have hdigest (d : Digest) {depth : ℕ} (hdepth : depth ≤ maxDepth) : ValidAt depth (.str d.text) :=
    validAt_str.mpr ⟨hdepth, textValid_plain d.digest_plain (d.digest_length.trans (by decide))⟩
  have haxes : ValidAt 1 (.arr (b.axes.map .str)) := by
    refine validAt_arr.mpr ⟨by decide, ?_, List.forall_mem_map.mpr fun a ha => ?_⟩
    · rw [List.length_map]
      exact b.length_axes.trans (by decide)
    · exact validAt_str.mpr ⟨by decide, textValid_reason (b.axis_reason ha)⟩
  have hsubjects : ValidAt 1 (.arr [.str b.reportDigest.text]) :=
    validAt_arr.mpr ⟨by decide, (by decide : 1 ≤ _), List.forall_mem_singleton.mpr (hdigest _ (by decide))⟩
  have member {key : String} {v : Json} (hkey : isReason key = true) (hv : ValidAt 1 v) :
      0 + 1 ≤ maxDepth ∧ TextValid key ∧ ValidAt (0 + 1) v := ⟨by decide, textValid_reason hkey, hv⟩
  have htext {text : String} (h : TextValid text) : ValidAt 1 (.str text) := validAt_str.mpr ⟨by decide, h⟩
  refine validAt_obj.mpr ⟨by decide, (by decide : 11 ≤ _), ?_⟩
  simp only [body, List.forall_mem_cons]
  exact ⟨member (by decide) (htext (textValid_reason (by decide))), member (by decide) (htext b.valid.1), member (by decide) (hid _),
    member (by decide) (hid _), member (by decide) (htext b.valid.2), member (by decide) haxes,
    member (by decide) (htext (textValid_reason (by decide))), member (by decide) (hdigest _ (by decide)),
    member (by decide) (htext (textValid_reason b.status.name_reason)), member (by decide) hsubjects, member (by decide) (hid _), List.forall_mem_nil _⟩

theorem canonicalDigest_body : canonicalDigest (.obj b.body) (some evidenceDomain) = .ok b.digest :=
  canonicalDigest_eq_ok.mpr ⟨b.valid_body, rfl⟩

theorem valid_claimed (keyId : KeyId) : Valid (.obj (b.claimed keyId)) := by
  obtain ⟨-, -, hbody⟩ := validAt_obj.mp b.valid_body
  have member {key : String} {text : String} (hkey : isReason key = true) (h : TextValid text) :
      0 + 1 ≤ maxDepth ∧ TextValid key ∧ ValidAt (0 + 1) (.str text) := ⟨by decide, textValid_reason hkey, validAt_str.mpr ⟨by decide, h⟩⟩
  obtain ⟨hplain, hlength⟩ := keyId_plain keyId
  refine validAt_obj.mpr ⟨by decide, (by decide : 14 ≤ _), ?_⟩
  rw [claimed, members, List.append_assoc, List.forall_mem_append]
  refine ⟨hbody, ?_⟩
  simp only [List.cons_append, List.nil_append, List.forall_mem_cons]
  exact ⟨member (by decide) (textValid_plain b.digest.digest_plain (b.digest.digest_length.trans (by decide))),
    member (by decide) (textValid_plain hplain (hlength.trans (by decide))), member (by decide) (textValid_reason (by decide)), nofun⟩

/-! ## Validation -/

section
variable {ms : Json.Members} {signed : Option Bool}

theorem header_of_closed (hclosed : closeEvidence (.obj (b.members ++ ms)) (b.members ++ ms) signed = .ok ()) :
    evidenceHeader (.obj (b.members ++ ms)) signed = .ok () := by
  obtain ⟨moment, hmoment⟩ := b.issued
  have hstatus : isOneOf (.str b.status.name) resultStates = true := by cases b.status <;> rfl
  simp only [evidenceHeader, bind_eq_ok, item_eq_ok, conform_eq_ok, requireDigest_eq_ok, requireObject_eq_ok]
  exact ⟨_, rfl, (), hclosed, _, rfl, (), rfl, _, rfl, moment, hmoment, _, rfl, b.reportDigest, rfl, _, rfl, b.digest, rfl, _, rfl, hstatus⟩

theorem checkAxes_axes : checkAxes (.arr (b.axes.map .str)) = .ok () := by
  obtain ⟨hne, hnodup, hknown⟩ := b.origin
  have hcount := countDistinct_texts hnodup
  have hall : (b.axes.map Json.str).all (fun a => isOneOf a evidenceAxes ∧ a ≠ .str "TENANT_ACCEPTANCE") = true := by
    rw [List.all_eq_true, List.forall_mem_map]
    intro a ha
    exact decide_eq_true ⟨isOneOf_iff.mpr ⟨a, (hknown a ha).1, rfl⟩, fun h => (hknown a ha).2 (Json.str.inj h)⟩
  revert hcount hall
  rw [← List.length_map (f := Json.str)]
  cases hitems : b.axes.map Json.str with
  | nil => exact absurd (List.map_eq_nil_iff.mp hitems) hne
  | cons a as =>
    intro hcount hall
    rw [checkAxes, hcount, ok_bind, (conform_eq_ok (u := ())).mpr rfl, ok_bind]
    exact conform_eq_ok.mpr hall

/-- What is left is the signature. -/
theorem validateEvidence_of_closed (hclosed : closeEvidence (.obj (b.members ++ ms)) (b.members ++ ms) signed = .ok ())
    (hunsigned : unsigned (.obj (b.members ++ ms)) (signatureFields ++ ["bundleDigest"]) = .ok (.obj b.body))
    (hsignature : "signature" ∈ Json.keys (b.members ++ ms) → ∃ (keyId : KeyId) (signature : Bytes), signature.length = 64 ∧
      (Json.obj (b.members ++ ms)).get? "signerKeyId" = some (.str keyId.text) ∧
      (Json.obj (b.members ++ ms)).get? "signaturePurpose" = some (.str "TECHNICAL_EVIDENCE") ∧
      (Json.obj (b.members ++ ms)).get? "signature" = some (.str (b64urlEncode signature))) :
    validateEvidence (.obj (b.members ++ ms)) signed = .ok (.obj (b.members ++ ms)) := by
  have hsubjects : checkSubjects (.arr [.str b.reportDigest.text]) = .ok () := by
    rw [checkSubjects]
    refine forM_eq_ok.mpr (List.forall_mem_singleton.mpr ?_)
    rw [requireDigest_eq_ok.mpr rfl]
    rfl
  have haxes : (Json.obj (b.members ++ ms)).get? "originatedAxes" = some (.arr (b.axes.map .str)) := rfl
  have hsubject : (Json.obj (b.members ++ ms)).get? "subjectDigests" = some (.arr [.str b.reportDigest.text]) := rfl
  have hdigest : (Json.obj (b.members ++ ms)).get? "bundleDigest" = some (.str b.digest.text) := rfl
  rw [validateEvidence, b.header_of_closed hclosed, ok_bind, item_eq_ok.mpr haxes, ok_bind, b.checkAxes_axes, ok_bind,
    item_eq_ok.mpr hsubject, ok_bind, hsubjects, ok_bind, hunsigned, ok_bind, b.canonicalDigest_body, ok_bind, item_eq_ok.mpr hdigest,
    ok_bind, (conform_eq_ok (u := ())).mpr rfl, ok_bind, membersOf_eq_ok.mpr rfl, ok_bind]
  split
  · rename_i hall
    obtain ⟨keyId, signature, hlength, hid, hpurpose, hsign⟩ := hsignature (hall _ (by decide))
    have hkey : requireKeyId (.str keyId.text) "signerKeyId" = .ok keyId := requireText_eq_ok.mpr rfl
    rw [item_eq_ok.mpr hid, ok_bind, hkey, ok_bind, item_eq_ok.mpr hpurpose, ok_bind, (conform_eq_ok (u := ())).mpr rfl, ok_bind,
      item_eq_ok.mpr hsign, ok_bind, b64urlDecode_eq_ok.mpr ⟨rfl, hlength⟩]
    rfl
  · rfl

end

theorem validateEvidence_members : validateEvidence (.obj b.members) (some false) = .ok (.obj b.members) := by
  have hclosed : closeEvidence (.obj (b.members ++ [])) (b.members ++ []) (some false) = .ok () :=
    closed_eq_ok.mpr ⟨_, rfl, fun k => Iff.rfl⟩
  rw [← List.append_nil b.members]
  refine b.validateEvidence_of_closed hclosed rfl fun hmem => ?_
  have hnot : "signature" ∉ baseFields := by decide
  exact absurd hmem hnot

theorem signed_eq (keyId : KeyId) (signature : Bytes) : b.signed keyId signature = b.members ++
    [("signerKeyId", .str keyId.text), ("signaturePurpose", .str "TECHNICAL_EVIDENCE"), ("signature", .str (b64urlEncode signature))] := by
  rw [signed, claimed, List.append_assoc]
  rfl

theorem validateEvidence_signed (keyId : KeyId) {signature : Bytes} (h : signature.length = 64) :
    validateEvidence (.obj (b.signed keyId signature)) (some true) = .ok (.obj (b.signed keyId signature)) := by
  rw [signed_eq]
  refine b.validateEvidence_of_closed (closed_eq_ok.mpr ⟨_, rfl, fun k => Iff.rfl⟩) rfl fun _ => ?_
  exact ⟨keyId, signature, h, rfl, rfl, rfl⟩

/-- What is signed is what is verified. -/
theorem signaturePayload_claimed (keyId : KeyId) (signature : Bytes) :
    signaturePayload evidenceDomain (.obj (b.signed keyId signature)) ["signature"] =
      signaturePayload evidenceDomain (.obj (b.claimed keyId)) ["signature"] := rfl

def payload (keyId : KeyId) : Bytes := encodeText evidenceDomain.toList ++ [0] ++ canonicalText (.obj (b.claimed keyId))

theorem signaturePayload_eq (keyId : KeyId) :
    signaturePayload evidenceDomain (.obj (b.claimed keyId)) ["signature"] = .ok (b.payload keyId) := by
  have hunsigned : unsigned (.obj (b.claimed keyId)) ["signature"] = .ok (.obj (b.claimed keyId)) := rfl
  rw [signaturePayload, hunsigned, ok_bind, canonicalBytes_eq_ok.mpr ⟨b.valid_claimed keyId, rfl⟩]
  rfl

end Bundle

/-! ## Reports -/

section
variable {campaign environment report : Json} {runId observedAt : String} {c : CampaignShape} {e : EnvironmentShape}

/-- The fields of a returned report. -/
structure ReportOf (c : CampaignShape) (e : EnvironmentShape) (environment : Json) (runId observedAt : String) (report : Json)
    (results : List ControlResult) (digest : Digest) : Prop where
  rounds : List.Forall₂ (fun control result => runControl environment control = .ok result) c.controls results
  texts : TextValid runId ∧ TextValid observedAt
  report : report = .obj
    [("schemaVersion", .str "harness.planeon.ai/campaign-report/v1alpha1"), ("campaignId", .str c.campaignId.text),
      ("campaignVersion", .str c.version.text), ("environmentId", .str e.environmentId.text),
      ("executionClass", .str c.executionClass), ("observedAt", .str observedAt),
      ("results", .arr (results.map ControlResult.asDict)), ("runId", .str runId), ("status", .str (overall results).name),
      ("tenantId", .str e.tenantId.text), ("reportDigest", .str digest.text)]

theorem reportOf_runCampaign (hcampaign : validateCampaign campaign = .ok campaign)
    (henvironment : validateEnvironment environment = .ok environment) (hc : c.At campaign) (he : e.At environment)
    (h : runCampaign campaign environment runId observedAt = .ok report) :
    ∃ results digest, ReportOf c e environment runId observedAt report results digest := by
  obtain ⟨results, hrounds, body, hbody, digest, hdigest, rfl⟩ := (runCampaign_eq_ok hcampaign henvironment hc).mp h
  simp only [reportBody, bind_eq_ok, item_eq_ok, pure_eq_ok, hc.campaignId, hc.version, hc.executionClass, he.environmentId,
    he.tenantId, Option.some.injEq, exists_eq_left'] at hbody
  subst hbody
  have hmembers := (validAt_obj.mp (canonicalDigest_eq_ok.mp hdigest).1).2.2
  have hrun := (validAt_str.mp (hmembers ("runId", .str runId) (by simp)).2.2).2
  have hobserved := (validAt_str.mp (hmembers ("observedAt", .str observedAt) (by simp)).2.2).2
  exact ⟨results, digest, hrounds, ⟨hrun, hobserved⟩, rfl⟩

theorem axis_of_runControl {control : Json} {shape : ControlShape} {result : ControlResult} (hshape : shape.At control)
    (h : runControl environment control = .ok result) : result.axis = .str shape.axis := by
  rw [runControl, item_eq_ok.mpr hshape.handler, ok_bind, Handler.ofJson?_eq_some.mpr rfl] at h
  simp only [bind_eq_ok, item_eq_ok, pure_eq_ok, hshape.axis, Option.some.injEq] at h
  obtain ⟨_, -, _, -, _, -, _, -, _, rfl, rfl⟩ := h
  rfl

/-- The axes of the results are those that the execution class may originate. -/
theorem axes_of_rounds {results : List ControlResult} (hc : c.At campaign)
    (hrounds : List.Forall₂ (fun control result => runControl environment control = .ok result) c.controls results) :
    ∃ texts : List String, results.map ControlResult.axis = texts.map .str ∧ texts ≠ [] ∧ ∀ t ∈ texts, t ∈ axesOf c.executionClass := by
  have hresult : ∀ result ∈ results, ∃ t, result.axis = .str t ∧ t ∈ axesOf c.executionClass := by
    intro result hresult
    obtain ⟨control, hcontrol, hround⟩ := forall₂_mem_right hrounds hresult
    obtain ⟨shape, hshape, haxis⟩ := hc.control control hcontrol
    exact ⟨shape.axis, axis_of_runControl hshape hround, haxis⟩
  obtain ⟨texts, htexts⟩ := forall₂_of_mem_left hresult
  have hmap : List.Forall₂ (· = ·) (results.map ControlResult.axis) (texts.map Json.str) := by
    rw [List.forall₂_map_left_iff, List.forall₂_map_right_iff]
    exact htexts.imp fun _ _ h => h.1
  rw [List.forall₂_eq_eq_eq] at hmap
  refine ⟨texts, hmap, ?_, fun t ht => ?_⟩
  · rintro rfl
    have hlength := hrounds.length_eq.trans htexts.length_eq
    exact hc.bounded.1 (List.length_eq_zero_iff.mp hlength)
  · obtain ⟨result, -, h⟩ := forall₂_mem_right htexts ht
    exact h.2

theorem originatedAxes_report {results : List ControlResult} {digest : Digest} (hc : c.At campaign)
    (h : ReportOf c e environment runId observedAt report results digest) :
    ∃ axes : List String, originatedAxes report = .ok (axes.map .str) ∧ axes ≠ [] ∧ axes.Nodup ∧
      ∀ a ∈ axes, a ∈ evidenceAxes ∧ a ≠ "TENANT_ACCEPTANCE" := by
  have hallowed : ∀ t ∈ axesOf c.executionClass, t ∈ evidenceAxes ∧ t ≠ "TENANT_ACCEPTANCE" := by
    unfold axesOf
    split <;> decide
  obtain ⟨texts, htexts, hne, hmem⟩ := axes_of_rounds hc h.rounds
  have hrows : (results.map ControlResult.asDict).mapM (fun row => item row "axis") = .ok (texts.map .str) := by
    rw [mapM_eq_ok, List.forall₂_map_left_iff, ← htexts, List.forall₂_map_right_iff, List.forall₂_same]
    exact fun result _ => rfl
  obtain ⟨axes, hfirsts, hnodup, haxes⟩ := firsts_texts texts
  rw [h.report, originatedAxes, membersOf, ok_bind]
  by_cases hoffline : c.executionClass = "OFFLINE_TEST"
  · have hclass : Json.str c.executionClass = .str "OFFLINE_TEST" := congrArg _ hoffline
    exact ⟨["UNIT"], if_pos hclass, List.cons_ne_nil _ _, List.nodup_singleton _, by decide⟩
  · have hclass : ¬ Json.str c.executionClass = .str "OFFLINE_TEST" := fun heq => hoffline (Json.str.inj heq)
    refine ⟨axes, (if_neg hclass).trans ?_, ?_, hnodup, fun a ha => hallowed a (hmem a ((haxes a).mp ha))⟩
    · rw [item_eq_ok.mpr rfl, ok_bind, iterate, ok_bind, hrows, ok_bind, hfirsts]
      rfl
    · obtain ⟨t, ht⟩ := List.exists_mem_of_ne_nil texts hne
      exact List.ne_nil_of_mem ((haxes t).mpr ht)

/-- The bundle of a report. -/
theorem exists_bundle {results : List ControlResult} {digest : Digest} (hc : c.At campaign)
    (h : ReportOf c e environment runId observedAt report results digest)
    (hissued : ∃ moment, requireTime (.str observedAt) "issuedAt" = .ok moment) (hbundle : TextValid (runId ++ ".evidence")) :
    ∃ b : Bundle, b.tenantId = e.tenantId ∧ buildEvidence report = .ok (.obj b.members) := by
  obtain ⟨axes, haxes, hne, hnodup, hknown⟩ := originatedAxes_report hc h
  let b : Bundle := ⟨runId ++ ".evidence", c.campaignId, e.environmentId, observedAt, axes, digest, overall results, e.tenantId,
    ⟨hbundle, h.texts.2⟩, hissued, hne, hnodup, hknown⟩
  refine ⟨b, rfl, ?_⟩
  have hforbidden : Json.str "TENANT_ACCEPTANCE" ∉ axes.map Json.str := by
    rintro hmem
    obtain ⟨a, ha, heq⟩ := List.mem_map.mp hmem
    exact (hknown a ha).2 (Json.str.inj heq)
  rw [buildEvidence, haxes, ok_bind, (conform_eq_ok (u := ())).mpr hforbidden, ok_bind, h.report]
  simp only [bind_eq_ok, item_eq_ok, textItem_eq_ok, pure_eq_ok]
  exact ⟨_, rfl, _, rfl, _, rfl, _, rfl, _, rfl, _, rfl, _, rfl, b.digest, b.canonicalDigest_body, rfl⟩

end

/-! ## Signing keys and trust -/

variable [Sha512]

/-- A well-formed technical signing key. -/
structure SigningKey where
  keyId : KeyId
  seed : Bytes
  length : seed.length = 32

structure SigningKey.At (key : Json) (k : SigningKey) : Prop where
  closed : closed key keyFields = .ok ()
  schemaVersion : key.get? "schemaVersion" = some (.str "harness.planeon.ai/test-signing-key/v1alpha1")
  keyId : key.get? "keyId" = some (.str k.keyId.text)
  purpose : key.get? "purpose" = some (.str "TECHNICAL_EVIDENCE")
  seed : key.get? "seed" = some (.str (b64urlEncode k.seed))

/-- A trust bundle whose only entry for a key identifier is the given one. -/
structure TrustsOnly (trust : Json) (keyId : KeyId) (entry : Json) : Prop where
  closed : closed trust ["schemaVersion", "keys"] = .ok ()
  schemaVersion : trust.get? "schemaVersion" = some (.str "harness.planeon.ai/conformance-trust-bundle/v1alpha1")
  keys : ∃ keys, trust.get? "keys" = some (.arr keys) ∧ keys.filter (isKeyEntry (.str keyId.text)) = [entry]

section
variable {key trust : Json} {k : SigningKey} {tenantId validFrom validUntil : String}

/-- The entry of a key, as `public_entry` writes it. -/
noncomputable def SigningKey.entry (k : SigningKey) (tenantId validFrom validUntil : String) : Json := .obj
  [("keyId", .str k.keyId.text), ("purpose", .str "TECHNICAL_EVIDENCE"), ("publicKey", .str (b64urlEncode (publicBytes k.seed))),
    ("revoked", .bool false), ("tenantId", .str tenantId), ("validFrom", .str validFrom), ("validUntil", .str validUntil)]

omit [Runtime] in
theorem publicEntry_eq (hkey : k.At key) :
    publicEntry key tenantId validFrom validUntil = .ok (k.entry tenantId validFrom validUntil) := by
  rw [publicEntry, item_eq_ok.mpr hkey.seed, ok_bind, b64urlDecode_eq_ok.mpr ⟨rfl, k.length⟩, ok_bind, item_eq_ok.mpr hkey.keyId,
    ok_bind, publicKey_eq k.length]
  rfl

/-- The signature of a bundle. -/
noncomputable def Bundle.signature (b : Bundle) (k : SigningKey) : Bytes :=
  nonceBytes k.seed (b.payload k.keyId) ++ LittleEndian.toLittle 32 (signatureScalar k.seed (b.payload k.keyId))

theorem Bundle.length_signature (b : Bundle) (k : SigningKey) : (b.signature k).length = 64 := by
  rw [signature, List.length_append, nonceBytes, LittleEndian.length_toLittle, LittleEndian.length_toLittle]

theorem Bundle.signEvidence_members (b : Bundle) (hkey : k.At key) :
    signEvidence (.obj b.members) key = .ok (.obj (b.signed k.keyId (b.signature k))) := by
  obtain ⟨ms, rfl, -⟩ := closed_eq_ok.mp hkey.closed
  have hid : requireKeyId (.str k.keyId.text) "keyId" = .ok k.keyId := requireText_eq_ok.mpr rfl
  have hpayload := b.signaturePayload_eq k.keyId
  rw [signEvidence, b.validateEvidence_members, ok_bind, requireObject, ok_bind, hkey.closed, ok_bind, item_eq_ok.mpr hkey.schemaVersion,
    ok_bind, (conform_eq_ok (u := ())).mpr rfl, ok_bind, item_eq_ok.mpr hkey.keyId, ok_bind, hid, ok_bind, item_eq_ok.mpr hkey.purpose,
    ok_bind, (conform_eq_ok (u := ())).mpr rfl, ok_bind, item_eq_ok.mpr hkey.seed, ok_bind, b64urlDecode_eq_ok.mpr ⟨rfl, k.length⟩,
    ok_bind, membersOf, ok_bind]
  refine bind_eq_ok.mpr ⟨_, hpayload, ?_⟩
  rw [sign_eq _ k.length]
  rfl

theorem Bundle.trustEntry_signed (b : Bundle) (signature : Bytes)
    (htrust : TrustsOnly trust k.keyId (k.entry b.tenantId.text validFrom validUntil)) :
    trustEntry (.obj (b.signed k.keyId signature)) trust = .ok (k.entry b.tenantId.text validFrom validUntil) := by
  obtain ⟨keys, hkeys, hfilter⟩ := htrust.keys
  obtain ⟨ms, rfl, -⟩ := closed_eq_ok.mp htrust.closed
  let entry := k.entry b.tenantId.text validFrom validUntil
  have hpurpose : entry.get? "purpose" = some (.str "TECHNICAL_EVIDENCE") := rfl
  have hscoped : entry.get? "tenantId" = some (.str b.tenantId.text) := rfl
  have hrevoked : entry.get? "revoked" = some (.bool false) := rfl
  have hid : (Json.obj (b.signed k.keyId signature)).get? "signerKeyId" = some (.str k.keyId.text) := rfl
  have htenant : (Json.obj (b.signed k.keyId signature)).get? "tenantId" = some (.str b.tenantId.text) := rfl
  have hclosed : HarnessConformance.closed (k.entry b.tenantId.text validFrom validUntil) entryFields = .ok () := by
    refine closed_eq_ok.mpr ⟨_, rfl, fun name => ?_⟩
    change name ∈ ["keyId", "purpose", "publicKey", "revoked", "tenantId", "validFrom", "validUntil"] ↔ name ∈ entryFields
    simp only [entryFields, List.mem_cons, List.not_mem_nil]
    tauto
  have hscope : Json.str "TECHNICAL_EVIDENCE" = .str "TECHNICAL_EVIDENCE" ∧ pyEq (.str b.tenantId.text) (.str b.tenantId.text) = true :=
    ⟨rfl, by rw [pyEq_str]⟩
  rw [trustEntry, requireObject, ok_bind, htrust.closed, ok_bind, item_eq_ok.mpr htrust.schemaVersion, ok_bind,
    (conform_eq_ok (u := ())).mpr rfl, ok_bind, item_eq_ok.mpr hkeys, ok_bind]
  dsimp only
  rw [item_eq_ok.mpr hid, ok_bind, hfilter]
  dsimp only
  rw [hclosed, ok_bind, item_eq_ok.mpr hpurpose, ok_bind, item_eq_ok.mpr hscoped, ok_bind, item_eq_ok.mpr htenant, ok_bind,
    (conform_eq_ok (u := ())).mpr hscope, ok_bind, item_eq_ok.mpr hrevoked, ok_bind, (conform_eq_ok (u := ())).mpr rfl]
  rfl

/-- The times of a verification: now, within the validity of the entry. -/
structure Current (validFrom validUntil now : String) : Prop where
  times : ∃ first last instant, requireTime (.str validFrom) "validFrom" = .ok first ∧
    requireTime (.str validUntil) "validUntil" = .ok last ∧ requireTime (.str now) "now" = .ok instant ∧
    first.le instant = .ok true ∧ instant.le last = .ok true

theorem Bundle.verifyEvidence_signed (b : Bundle) {now : String} (hnonce : nonceOf k.seed (b.payload k.keyId) ≠ 0)
    (htrust : TrustsOnly trust k.keyId (k.entry b.tenantId.text validFrom validUntil)) (hcurrent : Current validFrom validUntil now) :
    verifyEvidence (.obj (b.signed k.keyId (b.signature k))) trust now = .ok (.obj [("keyId", .str k.keyId.text),
      ("publicKey", .str (b64urlEncode (publicBytes k.seed))), ("verified", .bool true)]) := by
  obtain ⟨first, last, instant, hfirst, hlast, hinstant, hle, hle'⟩ := hcurrent.times
  have hpublic : (k.entry b.tenantId.text validFrom validUntil).get? "publicKey" = some (.str (b64urlEncode (publicBytes k.seed))) := rfl
  have hsignature : (Json.obj (b.signed k.keyId (b.signature k))).get? "signature" = some (.str (b64urlEncode (b.signature k))) := rfl
  have hid : (k.entry b.tenantId.text validFrom validUntil).get? "keyId" = some (.str k.keyId.text) := rfl
  have hbefore : isCurrent (k.entry b.tenantId.text validFrom validUntil) instant = .ok true := by
    have hfrom : (k.entry b.tenantId.text validFrom validUntil).get? "validFrom" = some (.str validFrom) := rfl
    have huntil : (k.entry b.tenantId.text validFrom validUntil).get? "validUntil" = some (.str validUntil) := rfl
    rw [isCurrent, item_eq_ok.mpr hfrom, ok_bind, hfirst, ok_bind, hle, ok_bind, if_pos rfl, item_eq_ok.mpr huntil, ok_bind, hlast,
      ok_bind, hle']
  have hlength : (publicBytes k.seed).length = 32 := LittleEndian.length_toLittle _ _
  rw [verifyEvidence, b.validateEvidence_signed k.keyId (b.length_signature k), ok_bind, b.trustEntry_signed _ htrust, ok_bind, hinstant,
    ok_bind, hbefore, ok_bind, (conform_eq_ok (u := ())).mpr rfl, ok_bind, item_eq_ok.mpr hpublic, ok_bind,
    b64urlDecode_eq_ok.mpr ⟨rfl, hlength⟩, ok_bind, item_eq_ok.mpr hsignature, ok_bind,
    b64urlDecode_eq_ok.mpr ⟨rfl, b.length_signature k⟩, ok_bind, b.signaturePayload_claimed, b.signaturePayload_eq, ok_bind,
    Bundle.signature, verify_signature hnonce, ok_bind, (conform_eq_ok (u := ())).mpr rfl, ok_bind, item_eq_ok.mpr hid]
  rfl

/-- What `sign_evidence` signs for a report. -/
def signedMessage (report : Json) (keyId : KeyId) : Py Bytes := do
  let evidence ← membersOf (← buildEvidence report)
  signaturePayload evidenceDomain
    (.obj (evidence ++ [("signerKeyId", .str keyId.text), ("signaturePurpose", .str "TECHNICAL_EVIDENCE")])) ["signature"]

/-! ## Tampering -/

/-- The key, the text and the signature that `verify` is given for a document. -/
structure Presents (document trust : Json) (key text signature : Bytes) : Prop where
  key : ∃ entry encoded, trustEntry document trust = .ok entry ∧ entry.get? "publicKey" = some encoded ∧
    b64urlDecode encoded 32 = .ok key
  text : signaturePayload evidenceDomain document ["signature"] = .ok text
  signature : ∃ encoded, document.get? "signature" = some encoded ∧ b64urlDecode encoded 64 = .ok signature

/-- Of the texts that a document presents with a signature, the signature is valid for signed ones only. -/
def Unforgeable (document trust : Json) (signed : Set Bytes) : Prop :=
  ∀ key text signature, Presents document trust key text signature → verify key text signature = .ok true → text ∈ signed

theorem presents_of_verifyEvidence {document result : Json} {now : String} (h : verifyEvidence document trust now = .ok result) :
    ∃ key text signature, Presents document trust key text signature ∧ verify key text signature = .ok true := by
  simp only [verifyEvidence, bind_eq_ok, item_eq_ok, conform_eq_ok] at h
  obtain ⟨_, hvalid, entry, hentry, _, -, _, -, _, -, encoded, hencoded, key, hkey, encodedSignature, hsignature, signature,
    hdecoded, text, htext, valid, hverify, _, hconform, -⟩ := h
  obtain ⟨rfl, -⟩ := validateEvidence_eq_ok hvalid
  exact ⟨key, text, signature, ⟨⟨entry, encoded, hentry, hencoded, hkey⟩, htext, encodedSignature, hsignature, hdecoded⟩,
    hconform ▸ hverify⟩

omit [Sha512] in
theorem Bundle.wf_signed (b : Bundle) (keyId : KeyId) (signature : Bytes) : (Json.obj (b.signed keyId signature)).Wf := by
  have htexts (texts : List Json) (h : ∀ v ∈ texts, ∃ t, v = .str t) : (Json.arr texts).Wf := by
    refine Json.wf_arr.mpr fun v hv => ?_
    obtain ⟨t, rfl⟩ := h v hv
    trivial
  have hkeys : (Json.keys (b.signed keyId signature)).Nodup := by
    have hnodup : (baseFields ++ ["signerKeyId", "signaturePurpose", "signature"]).Nodup := by decide
    exact hnodup
  have haxes := htexts (b.axes.map .str) (List.forall_mem_map.mpr fun a _ => ⟨a, rfl⟩)
  have hsubjects := htexts [.str b.reportDigest.text] (List.forall_mem_singleton.mpr ⟨_, rfl⟩)
  refine Json.wf_obj.mpr ⟨hkeys, ?_⟩
  simp only [Bundle.signed, Bundle.claimed, Bundle.members, Bundle.body, List.cons_append, List.nil_append, List.forall_mem_cons]
  exact ⟨trivial, trivial, trivial, trivial, trivial, haxes, trivial, trivial, trivial, hsubjects, trivial, trivial, trivial, trivial,
    trivial, nofun⟩

/-- A document that is verified holds what was signed. -/
theorem Bundle.agreeOutside_of_verifyEvidence (b : Bundle) {keyId : KeyId} {signature : Bytes} {document result : Json} {now : String}
    (hwf : document.Wf) (hforge : Unforgeable document trust {b.payload keyId})
    (h : verifyEvidence document trust now = .ok result) :
    AgreeOutside ["signature"] document (.obj (b.signed keyId signature)) := by
  obtain ⟨key, text, presented, hpresents, hverify⟩ := presents_of_verifyEvidence h
  obtain rfl : text = b.payload keyId := hforge key text presented hpresents hverify
  have hpayload : signaturePayload evidenceDomain (.obj (b.signed keyId signature)) ["signature"] = .ok (b.payload keyId) :=
    (b.signaturePayload_claimed keyId signature).trans (b.signaturePayload_eq keyId)
  have hdomain : NulFree evidenceDomain := by decide
  exact (signaturePayload_inj hwf (b.wf_signed keyId signature) hdomain hpresents.text hpayload).2

/-! ## The pipeline -/

/-- The evidence of a report is built, signed and verified where the identifier of the run with its suffix is a canonical
text, and what is verified in its place holds the same outside the signature. -/
theorem evidence_roundTrip {campaign environment report entry : Json} {runId observedAt now : String} {issued : Moment}
    (hreport : runCampaign campaign environment runId observedAt = .ok report)
    (hissued : requireTime (.str observedAt) "issuedAt" = .ok issued) (hbundle : TextValid (runId ++ ".evidence"))
    (hkey : k.At key) (hnonce : ∀ message, signedMessage report k.keyId = .ok message → nonceOf k.seed message ≠ 0)
    (htenant : report.get? "tenantId" = some (.str tenantId))
    (hentry : publicEntry key tenantId validFrom validUntil = .ok entry) (htrust : TrustsOnly trust k.keyId entry)
    (hcurrent : Current validFrom validUntil now) :
    ∃ evidence signed result, buildEvidence report = .ok evidence ∧ signEvidence evidence key = .ok signed ∧
      verifyEvidence signed trust now = .ok result ∧
      ∀ document, document.Wf → Unforgeable document trust {message | signedMessage report k.keyId = .ok message} →
        ¬ AgreeOutside ["signature"] document signed → ∃ e, verifyEvidence document trust now = .error e := by
  have hrun := hreport
  rw [runCampaign] at hrun
  obtain ⟨validCampaign, hcampaign, hrun⟩ := bind_eq_ok.mp hrun
  obtain ⟨validEnvironment, henvironment, -⟩ := bind_eq_ok.mp hrun
  obtain ⟨rfl, c, hc⟩ := campaign_of_validateCampaign hcampaign
  obtain ⟨rfl, e, he⟩ := environment_of_validateEnvironment henvironment
  obtain ⟨results, digest, hof⟩ := reportOf_runCampaign hcampaign henvironment hc he hreport
  obtain ⟨b, hb, hbuild⟩ := exists_bundle hc hof ⟨issued, hissued⟩ hbundle
  have hmessage : signedMessage report k.keyId = .ok (b.payload k.keyId) := by
    rw [signedMessage, hbuild, ok_bind, membersOf, ok_bind]
    exact b.signaturePayload_eq k.keyId
  obtain rfl : b.tenantId.text = tenantId := by
    rw [hof.report] at htenant
    exact hb ▸ Json.str.inj (Option.some.inj htenant)
  obtain rfl := Except.ok.inj ((publicEntry_eq hkey).symm.trans hentry)
  refine ⟨_, _, _, hbuild, b.signEvidence_members hkey, b.verifyEvidence_signed (hnonce _ hmessage) htrust hcurrent,
    fun document hwf hforge hdiffers => ?_⟩
  cases hverified : verifyEvidence document trust now with
  | error e => exact ⟨e, rfl⟩
  | ok result =>
    have hsigned : Unforgeable document trust {b.payload k.keyId} := by
      intro key text signature hpresents hverify
      exact Except.ok.inj ((hforge key text signature hpresents hverify).symm.trans hmessage)
    exact absurd (b.agreeOutside_of_verifyEvidence hwf hsigned hverified) hdiffers

end

end

namespace Sample

/-- The digests of the nonce's and of the challenge's text, for the evidence of the report below. -/
def digests : Bytes × Bytes :=
  ([247, 155, 181, 206, 125, 109, 254, 205, 215, 219, 24, 96, 159, 227, 228, 3, 51, 41, 32, 202, 34, 114, 62, 184, 31, 245,
    171, 153, 99, 32, 245, 10, 162, 208, 143, 86, 198, 196, 147, 45, 190, 108, 10, 134, 0, 48, 138, 122, 214, 191, 39, 6, 83, 54,
    25, 69, 108, 8, 106, 23, 133, 170, 236, 7],
    [206, 196, 7, 66, 232, 232, 56, 88, 216, 13, 243, 69, 215, 140, 43, 62, 36, 172, 242, 192, 78, 151, 108, 190, 14, 227, 195,
    19, 215, 179, 240, 110, 168, 115, 219, 163, 49, 153, 178, 201, 251, 112, 63, 99, 117, 65, 215, 157, 34, 140, 2, 243, 194, 2,
    198, 6, 122, 208, 175, 67, 248, 167, 9, 44])

/-- SHA-512 on the texts that signing this evidence with 32 zero bytes reads. -/
@[reducible] def sha512 : Sha512 where
  digest data :=
    if data = zeroSeed then tabulated.1 else if data.take 32 = tabulated.1.drop 32 then digests.1 else digests.2
  length_digest data := by split_ifs <;> rfl

def signer : SigningKey := ⟨⟨"key", by decide +kernel⟩, zeroSeed, rfl⟩

def signingKey : Json :=
  .obj [("schemaVersion", .str "harness.planeon.ai/test-signing-key/v1alpha1"), ("keyId", .str "key"),
    ("purpose", .str "TECHNICAL_EVIDENCE"), ("seed", .str (b64urlEncode zeroSeed))]

theorem at_signingKey : signer.At signingKey :=
  ⟨closed_eq_ok.mpr ⟨_, rfl, fun _ => Iff.rfl⟩, rfl, rfl, rfl, rfl⟩

def trustBundle (entry : Json) : Json :=
  .obj [("schemaVersion", .str "harness.planeon.ai/conformance-trust-bundle/v1alpha1"), ("keys", .arr [entry])]

theorem trustsOnly_trustBundle [Sha512] (tenantId validFrom validUntil : String) :
    TrustsOnly (trustBundle (signer.entry tenantId validFrom validUntil)) signer.keyId (signer.entry tenantId validFrom validUntil) := by
  have hentry : isKeyEntry (.str signer.keyId.text) (signer.entry tenantId validFrom validUntil) = true := by
    change pyEq (.str "key") (.str "key") = true
    rw [pyEq_str]
  exact ⟨closed_eq_ok.mpr ⟨_, rfl, fun _ => Iff.rfl⟩, rfl, _, rfl, by rw [List.filter_cons_of_pos hentry, List.filter_nil]⟩

theorem nonceOf_signer (message : Bytes) : @nonceOf sha512 zeroSeed message ≠ 0 := by
  let _ := sha512
  have hprefix : (clampedScalar zeroSeed).2 = tabulated.1.drop 32 := rfl
  have htake : (tabulated.1.drop 32 ++ message).take 32 = tabulated.1.drop 32 := List.take_left' rfl
  have hseed : ¬ tabulated.1.drop 32 ++ message = zeroSeed := by
    intro heq
    rw [heq] at htake
    revert htake
    decide
  have hdigest : Sha512.digest (tabulated.1.drop 32 ++ message) = digests.1 := (if_neg hseed).trans (if_pos htake)
  rw [nonceOf, hprefix, digestScalar, hdigest]
  decide +kernel

end Sample

open Sample

theorem evidence_roundTrip_sample : let _ := Runtime.ascii; let _ := Sample.sha512
    ∃ report entry evidence signed result,
      runCampaign (campaign (control .eventAssertion [])) environment "run" "2026-01-01T00:00:00Z" = .ok report ∧
      publicEntry signingKey "tenant" "2026-01-01T00:00:00Z" "2026-12-31T00:00:00Z" = .ok entry ∧
      buildEvidence report = .ok evidence ∧ signEvidence evidence signingKey = .ok signed ∧
      verifyEvidence signed (trustBundle entry) "2026-06-01T00:00:00Z" = .ok result := by
  intro _ _
  have hrun : TextValid "run" := textValid_plain (by decide) (by decide)
  have hobserved : TextValid "2026-01-01T00:00:00Z" := textValid_plain (by decide) (by decide)
  have hbundle : TextValid ("run" ++ ".evidence") := textValid_plain (by decide) (by decide)
  have hvalidCampaign : ∃ c, validateCampaign (campaign (control .eventAssertion [])) = .ok c :=
    ⟨campaign (control .eventAssertion []), by decide +kernel⟩
  obtain ⟨validCampaign, hcampaign⟩ := hvalidCampaign
  have hvalidEnvironment : ∃ e, validateEnvironment environment = .ok e := ⟨environment, by decide +kernel⟩
  obtain ⟨validEnvironment, henvironment⟩ := hvalidEnvironment
  obtain ⟨rfl, c, hc⟩ := campaign_of_validateCampaign hcampaign
  obtain ⟨rfl, e, he⟩ := environment_of_validateEnvironment henvironment
  obtain ⟨report, rows, hreport, -⟩ := exists_report hcampaign henvironment hc he hrun hobserved (Sample.reportable not_false)
  obtain ⟨results, digest, hof⟩ := reportOf_runCampaign hcampaign henvironment hc he hreport
  have htenant : report.get? "tenantId" = some (.str "tenant") := by
    have htenantId : e.tenantId.text = "tenant" := Json.str.inj (Option.some.inj (he.tenantId.symm.trans rfl))
    rw [hof.report, ← htenantId]
    rfl
  have hentry : publicEntry signingKey "tenant" "2026-01-01T00:00:00Z" "2026-12-31T00:00:00Z" =
      .ok (signer.entry "tenant" "2026-01-01T00:00:00Z" "2026-12-31T00:00:00Z") := publicEntry_eq at_signingKey
  have hcurrent : Current "2026-01-01T00:00:00Z" "2026-12-31T00:00:00Z" "2026-06-01T00:00:00Z" :=
    ⟨_, _, _, rfl, rfl, rfl, rfl, rfl⟩
  obtain ⟨evidence, signed, result, hbuild, hsign, hverify, -⟩ := evidence_roundTrip hreport rfl hbundle at_signingKey
    (fun message _ => nonceOf_signer message) htenant hentry (trustsOnly_trustBundle _ _ _) hcurrent
  exact ⟨report, _, evidence, signed, result, hreport, hentry, hbuild, hsign, hverify⟩

/-- A run whose identifier is as long as a canonical text may be. -/
def Sample.longRun : String := String.ofList (List.replicate maxFileBytes 'a')

theorem Sample.plain_longRun : isPlain longRun = true := by
  rw [isPlain, longRun, String.toList_ofList, List.all_eq_true]
  intro c hc
  rw [List.eq_of_mem_replicate hc]
  decide

theorem Sample.length_longRun : longRun.length = maxFileBytes := by
  rw [longRun, String.length_ofList, List.length_replicate]

/-- The identifier of a bundle is longer than that of its run. -/
theorem buildEvidence_longRun : let _ := Runtime.ascii
    ∃ report, runCampaign (campaign (control .eventAssertion [])) environment longRun "2026-01-01T00:00:00Z" = .ok report ∧
      ∀ evidence, buildEvidence report ≠ .ok evidence := by
  intro _
  have hrun : TextValid longRun := (textValid_plain_iff plain_longRun).mpr length_longRun.le
  have hobserved : TextValid "2026-01-01T00:00:00Z" := textValid_plain (by decide) (by decide)
  have hvalidCampaign : ∃ c, validateCampaign (campaign (control .eventAssertion [])) = .ok c :=
    ⟨campaign (control .eventAssertion []), by decide +kernel⟩
  obtain ⟨validCampaign, hcampaign⟩ := hvalidCampaign
  have hvalidEnvironment : ∃ e, validateEnvironment environment = .ok e := ⟨environment, by decide +kernel⟩
  obtain ⟨validEnvironment, henvironment⟩ := hvalidEnvironment
  obtain ⟨rfl, c, hc⟩ := campaign_of_validateCampaign hcampaign
  obtain ⟨rfl, e, he⟩ := environment_of_validateEnvironment henvironment
  obtain ⟨report, rows, hreport, -⟩ := exists_report hcampaign henvironment hc he hrun hobserved (Sample.reportable not_false)
  obtain ⟨results, digest, hof⟩ := reportOf_runCampaign hcampaign henvironment hc he hreport
  refine ⟨report, hreport, fun evidence hbuild => ?_⟩
  rw [hof.report] at hbuild
  simp only [buildEvidence, bind_eq_ok, item_eq_ok, textItem_eq_ok] at hbuild
  obtain ⟨axes, -, _, -, _, -, runId, hrunId, _, -, _, -, _, -, _, -, _, -, _, hdigest, -⟩ := hbuild
  obtain rfl : longRun = runId := Json.str.inj (Option.some.inj hrunId)
  have hmembers := (validAt_obj.mp (canonicalDigest_eq_ok.mp hdigest).1).2.2
  have htext := (validAt_str.mp (hmembers ("bundleId", .str (longRun ++ ".evidence")) (by simp)).2.2).2
  have hplain : isPlain (longRun ++ ".evidence") = true := by
    rw [isPlain, String.toList_append, List.all_append]
    exact Bool.and_eq_true_iff.mpr ⟨plain_longRun, by decide⟩
  have hle := (textValid_plain_iff hplain).mp htext
  rw [String.length_append, length_longRun] at hle
  exact absurd hle (by decide)

end HarnessConformance.Campaign
