import HarnessConformance.Campaign.Refusals
import HarnessConformance.Crypto.Completeness
import HarnessConformance.Crypto.Payload

/-! # Technical evidence

`evidence.py`: the evidence of a report, its signature, and its verification against a trust bundle. -/

namespace HarnessConformance.Campaign
open Lib Lib.Outcome Lib.Lines Lib.Json LinuxReadiness Crypto
set_option autoImplicit false

/-- `EVIDENCE_DOMAIN` -/
def evidenceDomain : String := "planeon.harness-technical-evidence/v1alpha1"

def bundleSchema : String := "harness.planeon.ai/technical-evidence-bundle/v1alpha1"

def signatureFields : List String := ["signerKeyId", "signaturePurpose", "signature"]

/-- `base`, of `validate_evidence`. -/
def baseFields : List String :=
  ["schemaVersion", "bundleId", "campaignId", "environmentId", "issuedAt", "originatedAxes", "producer", "reportDigest",
    "resultStatus", "subjectDigests", "tenantId", "bundleDigest"]

/-! ## Sets of values -/

/-- The members of `set(items)`, of hashable items. -/
def distinct : List Json → List Json
  | [] => []
  | v :: vs => if vs.any fun w => pyEq v w then distinct vs else v :: distinct vs

/-- `len(set(items))` -/
def countDistinct (items : List Json) : Py ℕ :=
  if items.all isHashable then .ok (distinct items).length else .error .typeError

/-- `list(dict.fromkeys(items))`, of strings: the first occurrences. -/
def firsts (items : List Json) : List Json := items.reverse.dedup.reverse

/-! ## Building -/

/-- `originated_axes`, of `build_evidence`. -/
def originatedAxes (report : Json) : Py (List Json) := do
  if getOr (← membersOf report) "executionClass" .null = .str "OFFLINE_TEST" then pure [.str "UNIT"]
  else
    let axes ← (← iterate (← item report "results")).mapM fun result => item result "axis"
    pure (firsts axes)

variable [Runtime]

/-- `build_evidence(report)` -/
def buildEvidence (report : Json) : Py Json := do
  let axes ← originatedAxes report
  conform "TENANT_ACCEPTANCE_FORBIDDEN" "campaigns cannot originate tenant acceptance" (.str "TENANT_ACCEPTANCE" ∉ axes)
  let reportDigest ← item report "reportDigest"
  let evidence : Json.Members :=
    [("schemaVersion", .str bundleSchema), ("bundleId", .str ((← textItem report "runId") ++ ".evidence")),
      ("campaignId", ← item report "campaignId"), ("environmentId", ← item report "environmentId"),
      ("issuedAt", ← item report "observedAt"), ("originatedAxes", .arr axes),
      ("producer", .str "planeon.harness-conformance/0.1.0"), ("reportDigest", reportDigest),
      ("resultStatus", ← item report "status"), ("subjectDigests", .arr [reportDigest]), ("tenantId", ← item report "tenantId")]
  let digest ← canonicalDigest (.obj evidence) (some evidenceDomain)
  pure (.obj (evidence ++ [("bundleDigest", .str digest.text)]))

/-! ## Validation -/

omit [Runtime] in
/-- The field names, with or without those of a signature. -/
def closeEvidence (document : Json) (members : Json.Members) (signed : Option Bool) : Py Unit :=
  match signed with
  | some true => closed document (baseFields ++ signatureFields)
  | some false => closed document baseFields
  | none => do
    closedWith document baseFields signatureFields
    let present := signatureFields.filter fun k => k ∈ Json.keys members
    conform "INCOMPLETE_SIGNATURE" "all technical signature fields are required" (present = [] ∨ present = signatureFields)

omit [Runtime] in
/-- The axes that evidence may originate. -/
def checkAxes (axes : Json) : Py Unit := do
  match axes with
  | .arr (axis :: rest) =>
    let count ← countDistinct (axis :: rest)
    conform "DUPLICATE_AXIS" "originated axes must be unique" ((axis :: rest).length = count)
    conform "INVALID_AXIS" "evidence contains a forbidden axis"
      ((axis :: rest).all fun a => isOneOf a evidenceAxes ∧ a ≠ .str "TENANT_ACCEPTANCE")
  | _ => .error (.conformance "INVALID_AXIS" "originatedAxes must be non-empty")

omit [Runtime] in
def checkSubjects (subjects : Json) : Py Unit :=
  match subjects with
  | .arr (subject :: rest) => (subject :: rest).forM fun digest => do
    let _ ← requireDigest digest "subjectDigest"
  | _ => .error (.conformance "INVALID_SUBJECT" "subject digests must be non-empty")

omit [Runtime] in
/-- The checks before the axes. -/
def evidenceHeader (document : Json) (signed : Option Bool) : Py Unit := do
  let members ← requireObject document "technical evidence"
  closeEvidence document members signed
  conform "UNSUPPORTED_SCHEMA" "unsupported evidence schema" ((← item document "schemaVersion") = .str bundleSchema)
  let _ ← requireTime (← item document "issuedAt") "issuedAt"
  let _ ← requireDigest (← item document "reportDigest") "reportDigest"
  let _ ← requireDigest (← item document "bundleDigest") "bundleDigest"
  conform "INVALID_RESULT" "unknown evidence result" (isOneOf (← item document "resultStatus") resultStates)

/-- `validate_evidence(document, signed=…)` -/
def validateEvidence (document : Json) (signed : Option Bool) : Py Json := do
  evidenceHeader document signed
  checkAxes (← item document "originatedAxes")
  checkSubjects (← item document "subjectDigests")
  let expected ← canonicalDigest (← unsigned document (signatureFields ++ ["bundleDigest"])) (some evidenceDomain)
  conform "EVIDENCE_DIGEST_MISMATCH" "technical evidence digest does not match"
    ((← item document "bundleDigest") = .str expected.text)
  if ∀ k ∈ signatureFields, k ∈ Json.keys (← membersOf document) then
    let _ ← requireKeyId (← item document "signerKeyId") "signerKeyId"
    conform "INVALID_SIGNATURE_PURPOSE" "technical evidence purpose is required"
      ((← item document "signaturePurpose") = .str "TECHNICAL_EVIDENCE")
    let _ ← b64urlDecode (← item document "signature") 64
  pure document

/-! ## Signing and verification -/

variable [Sha512]

def keyFields : List String := ["schemaVersion", "keyId", "purpose", "seed"]

/-- `sign_evidence(evidence, key)` -/
def signEvidence (evidence key : Json) : Py Json := do
  let _ ← validateEvidence evidence (some false)
  let _ ← requireObject key "signing key"
  closed key keyFields
  conform "UNSUPPORTED_KEY_SCHEMA" "unsupported local signing-key schema"
    ((← item key "schemaVersion") = .str "harness.planeon.ai/test-signing-key/v1alpha1")
  let keyId ← requireKeyId (← item key "keyId") "keyId"
  conform "SIGNING_PURPOSE_FORBIDDEN" "only technical evidence may be signed" ((← item key "purpose") = .str "TECHNICAL_EVIDENCE")
  let seed ← b64urlDecode (← item key "seed") 32
  let signed := (← membersOf evidence) ++ [("signerKeyId", .str keyId.text), ("signaturePurpose", .str "TECHNICAL_EVIDENCE")]
  let payload ← signaturePayload evidenceDomain (.obj signed) ["signature"]
  let signature ← sign seed payload
  pure (.obj (signed ++ [("signature", .str (b64urlEncode signature))]))

omit [Runtime] [Sha512] in
/-- `isinstance(item, dict) and item.get("keyId") == key_id` -/
def isKeyEntry (keyId entry : Json) : Bool :=
  match entry with
  | .obj members => pyEq (getOr members "keyId" .null) keyId
  | _ => false

def entryFields : List String := ["keyId", "purpose", "publicKey", "tenantId", "validFrom", "validUntil", "revoked"]

omit [Runtime] [Sha512] in
/-- The entry of the trust bundle that verifies an evidence document. -/
def trustEntry (evidence trust : Json) : Py Json := do
  let _ ← requireObject trust "trust bundle"
  closed trust ["schemaVersion", "keys"]
  conform "UNSUPPORTED_TRUST_SCHEMA" "unsupported trust bundle"
    ((← item trust "schemaVersion") = .str "harness.planeon.ai/conformance-trust-bundle/v1alpha1")
  match ← item trust "keys" with
  | .arr keys =>
    let keyId ← item evidence "signerKeyId"
    match keys.filter (isKeyEntry keyId) with
    | [entry] =>
      closed entry entryFields
      conform "TRUST_SCOPE_MISMATCH" "signer purpose or tenant scope does not match"
        ((← item entry "purpose") = .str "TECHNICAL_EVIDENCE" ∧ pyEq (← item entry "tenantId") (← item evidence "tenantId"))
      conform "TRUST_KEY_REVOKED" "signer key is revoked" ((← item entry "revoked") = .bool false)
      pure entry
    | _ => .error (.conformance "AMBIGUOUS_TRUST_KEY" "signer key must resolve exactly once")
  | _ => .error (.conformance "INVALID_TRUST_BUNDLE" "trust keys must be an array")

omit [Runtime] [Sha512] in
/-- `require_time(valid_from) <= instant <= require_time(valid_until)`; the second bound is read after the first comparison. -/
def isCurrent (entry : Json) (instant : Moment) : Py Bool := do
  let validFrom ← requireTime (← item entry "validFrom") "validFrom"
  if ← validFrom.le instant then
    let validUntil ← requireTime (← item entry "validUntil") "validUntil"
    instant.le validUntil
  else pure false

/-- `verify_evidence(evidence, trust_bundle, now=…)` -/
def verifyEvidence (evidence trust : Json) (now : String) : Py Json := do
  let evidence ← validateEvidence evidence (some true)
  let entry ← trustEntry evidence trust
  let instant ← requireTime (.str now) "now"
  conform "TRUST_KEY_NOT_CURRENT" "signer key is outside its validity window" (← isCurrent entry instant)
  let key ← b64urlDecode (← item entry "publicKey") 32
  let signature ← b64urlDecode (← item evidence "signature") 64
  let payload ← signaturePayload evidenceDomain evidence ["signature"]
  conform "SIGNATURE_INVALID" "technical evidence signature is invalid" (← verify key payload signature)
  pure (.obj [("keyId", ← item entry "keyId"), ("publicKey", .str (b64urlEncode key)), ("verified", .bool true)])

omit [Runtime] in
/-- `public_entry(key, tenant_id=…, valid_from=…, valid_until=…)` -/
def publicEntry (key : Json) (tenantId validFrom validUntil : String) : Py Json := do
  let seed ← b64urlDecode (← item key "seed") 32
  let keyId ← item key "keyId"
  let encoded ← publicKey seed
  pure (.obj [("keyId", keyId), ("purpose", .str "TECHNICAL_EVIDENCE"), ("publicKey", .str (b64urlEncode encoded)),
    ("revoked", .bool false), ("tenantId", .str tenantId), ("validFrom", .str validFrom), ("validUntil", .str validUntil)])

end HarnessConformance.Campaign
