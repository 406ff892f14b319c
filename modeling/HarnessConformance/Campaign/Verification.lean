import HarnessConformance.Campaign.Evidence
import HarnessConformance.Crypto.Decode

/-! # What verification raises

`verify_evidence` refuses whatever it does not accept, but for two partial operations: the set of the originated axes
and the comparison of datetimes. -/

namespace HarnessConformance.Crypto
open Lib Lib.Outcome Lib.Lines
set_option autoImplicit false

/-! ## Signatures -/

theorem encodePoint_of_range {x y : ℤ} (hy : 0 ≤ y ∧ y < 2 ^ 255) : ∃ data, encodePoint (x, y) = .ok data := by
  obtain ⟨n, rfl⟩ := Int.eq_ofNat_of_zero_le hy.1
  obtain ⟨b, hb⟩ := Int.eq_ofNat_of_zero_le (Int.emod_nonneg x (by decide : (2 : ℤ) ≠ 0))
  have hbit : b < 2 := by
    have hlt := Int.emod_lt_of_pos x (by decide : (0 : ℤ) < 2)
    omega
  have hor : Int.lor (n : ℤ) (x % 2 * 2 ^ 255) = ((n ||| b * 2 ^ 255 : ℕ) : ℤ) := by
    rw [hb]
    rfl
  have hlt : n ||| b * 2 ^ 255 < 2 ^ 256 := by
    refine Nat.or_lt_two_pow ?_ ?_
    · have hn := hy.2
      omega
    · omega
  refine ⟨_, if_pos ?_⟩
  rw [hor]
  exact ⟨Int.natCast_nonneg _, by exact_mod_cast hlt⟩

theorem conforms_decodePoint (data : Bytes) : Conforms (decodePoint data) := by
  refine conforms_conform.bind fun _ _ => conforms_conform.bind fun _ hy => ?_
  have hrange : (0 : ℤ) ≤ ordinate data ∧ (ordinate data : ℤ) < 2 ^ 255 := by
    have hQ := conform_eq_ok.mp hy
    have hle : Q ≤ 2 ^ 255 := by decide
    exact ⟨Int.natCast_nonneg _, by exact_mod_cast hQ.trans_le hle⟩
  obtain ⟨encoded, hencoded⟩ := encodePoint_of_range (x := abscissa (ordinate data) (signBit data)) hrange
  dsimp only
  rw [hencoded]
  exact conforms_ok.bind fun _ _ => conforms_conform.bind fun _ _ => conforms_conform.bind fun _ _ => conforms_ok

/-- `verify` returns. -/
theorem verify_returns [Sha512] (key message signature : Bytes) : ∃ b, verify key message signature = .ok b := by
  have hreturns (x : Py Bool) (hx : Conforms x) (hother : ∀ reason message, x = .error (.conformance reason message) → False) :
      ∃ b, x = .ok b := by
    cases x with
    | ok b => exact ⟨b, rfl⟩
    | error e =>
      obtain ⟨reason, message, rfl⟩ := hx e rfl
      exact absurd rfl (hother reason message)
  unfold verify
  split
  · exact ⟨false, rfl⟩
  · split
    · exact ⟨false, rfl⟩
    · rename_i hother
      refine hreturns _ ((conforms_decodePoint _).bind fun _ _ => (conforms_decodePoint _).bind fun _ _ => ?_) hother
      dsimp only
      split <;> exact conforms_ok

end HarnessConformance.Crypto

namespace HarnessConformance.Campaign
open Lib Lib.Outcome Lib.Lines Lib.Json LinuxReadiness Crypto
set_option autoImplicit false

/-! ## Datetimes -/

theorem Moment.le_of_aware {left right : Moment} (h : left.isAware = right.isAware) : ∃ b, left.le right = .ok b := by
  obtain ⟨c, _ | a⟩ := left <;> obtain ⟨d, _ | b⟩ := right
  · exact ⟨_, rfl⟩
  · cases h
  · cases h
  · exact ⟨_, rfl⟩

theorem Moment.le_of_not_aware {left right : Moment} (h : left.isAware ≠ right.isAware) : left.le right = .error .typeError := by
  obtain ⟨c, _ | a⟩ := left <;> obtain ⟨d, _ | b⟩ := right
  · exact absurd rfl h
  · rfl
  · rfl
  · exact absurd rfl h

/-- A datetime with a zone is compared with one that has none. -/
def MixesZones (entry : Json) (instant : Moment) : Prop :=
  ∃ first validFrom, entry.get? "validFrom" = some first ∧ requireTime first "validFrom" = .ok validFrom ∧
    (validFrom.isAware ≠ instant.isAware ∨ (validFrom.le instant = .ok true ∧ ∃ last validUntil,
      entry.get? "validUntil" = some last ∧ requireTime last "validUntil" = .ok validUntil ∧ instant.isAware ≠ validUntil.isAware))

section
variable {allowed : PyError → Bool} (h : Lenient allowed)
include h

theorem raises_isCurrent {members : Json.Members} (hkeys : ∀ k, k ∈ Json.keys members ↔ k ∈ entryFields) {instant : Moment}
    (hzones : ¬ MixesZones (.obj members) instant) : Raises allowed (isCurrent (.obj members) instant) := by
  obtain ⟨first, hfirst⟩ := exists_get?_of_mem_keys ((hkeys "validFrom").mpr (by decide))
  obtain ⟨last, hlast⟩ := exists_get?_of_mem_keys ((hkeys "validUntil").mpr (by decide))
  rw [isCurrent, item_eq_ok.mpr hfirst, ok_bind]
  refine (raises_requireTime h).bind fun validFrom hfrom => ?_
  have haware : validFrom.isAware = instant.isAware := by
    by_contra hne
    exact hzones ⟨first, validFrom, hfirst, hfrom, .inl hne⟩
  obtain ⟨b, hb⟩ := Moment.le_of_aware haware
  rw [hb, ok_bind]
  cases b with
  | false => exact raises_ok
  | true =>
    rw [if_pos rfl, item_eq_ok.mpr hlast, ok_bind]
    refine (raises_requireTime h).bind fun validUntil huntil => ?_
    have haware' : instant.isAware = validUntil.isAware := by
      by_contra hne
      exact hzones ⟨first, validFrom, hfirst, hfrom, .inr ⟨hb, last, validUntil, hlast, huntil, hne⟩⟩
    obtain ⟨c, hc⟩ := Moment.le_of_aware haware'
    rw [hc]
    exact raises_ok

end

theorem isCurrent_of_mixesZones {entry : Json} {instant : Moment} (h : MixesZones entry instant) :
    isCurrent entry instant = .error .typeError := by
  obtain ⟨first, validFrom, hfirst, hfrom, hne | ⟨hle, last, validUntil, hlast, huntil, hne⟩⟩ := h
  · rw [isCurrent, item_eq_ok.mpr hfirst, ok_bind, hfrom, ok_bind, Moment.le_of_not_aware hne]
    rfl
  · rw [isCurrent, item_eq_ok.mpr hfirst, ok_bind, hfrom, ok_bind, hle, ok_bind, if_pos rfl, item_eq_ok.mpr hlast, ok_bind, huntil,
      ok_bind, Moment.le_of_not_aware hne]

/-! ## Evidence -/

/-- The set of the originated axes is built, and one of them cannot be hashed. -/
def HashesContainer (evidence : Json) (signed : Option Bool) : Prop :=
  evidenceHeader evidence signed = .ok () ∧ ∃ axes, evidence.get? "originatedAxes" = some (.arr axes) ∧ axes.all isHashable = false

section
variable {allowed : PyError → Bool} (h : Lenient allowed) {evidence : Json} {signed : Option Bool}
include h

theorem raises_checkSubjects (subjects : Json) : Raises allowed (checkSubjects subjects) := by
  unfold checkSubjects
  split
  · exact raises_forM fun _ _ => (raises_requireDigest h).bind fun _ _ => raises_ok
  · exact raises_error (h _ _ (by decide))

theorem raises_checkAxes {axes : Json} (hhash : ∀ items, axes = .arr items → items.all isHashable = true) :
    Raises allowed (checkAxes axes) := by
  unfold checkAxes
  split
  · rename_i axis rest
    rw [countDistinct, if_pos (hhash _ rfl)]
    exact raises_ok.bind fun _ _ => (raises_conform (h _ _ (by decide))).bind fun _ _ => raises_conform (h _ _ (by decide))
  · exact raises_error (h _ _ (by decide))

theorem raises_closeEvidence (members : Json.Members) : Raises allowed (closeEvidence (.obj members) members signed) := by
  unfold closeEvidence
  split
  · exact raises_closedWith h
  · exact raises_closedWith h
  · exact (raises_closedWith h).bind fun _ _ => raises_conform (h _ _ (by decide))

omit h in
/-- The base fields are there. -/
theorem base_of_closeEvidence {members : Json.Members} {u : Unit} (hclosed : closeEvidence (.obj members) members signed = .ok u) :
    ∀ k ∈ baseFields, k ∈ Json.keys members := by
  unfold closeEvidence at hclosed
  split at hclosed
  · exact fun k hk => (closedWith_eq_ok.mp hclosed).1 k (List.mem_append_left _ hk)
  · exact (closedWith_eq_ok.mp hclosed).1
  · obtain ⟨_, hclosed, -⟩ := bind_eq_ok.mp hclosed
    exact (closedWith_eq_ok.mp hclosed).1

theorem raises_evidenceHeader : Raises allowed (evidenceHeader evidence signed) := by
  refine (raises_requireObject h).bind fun members hmembers => ?_
  obtain rfl := requireObject_eq_ok.mp hmembers
  refine (raises_closeEvidence h members).bind fun _ hclosed => ?_
  have hitem {k : String} (hk : k ∈ baseFields) : Raises allowed (item (.obj members) k) := by
    obtain ⟨v, hv⟩ := exists_get?_of_mem_keys (base_of_closeEvidence hclosed k hk)
    exact raises_item hv
  refine (hitem (by decide)).bind fun _ _ => (raises_conform (h _ _ (by decide))).bind fun _ _ => ?_
  refine (hitem (by decide)).bind fun _ _ => (raises_requireTime h).bind fun _ _ => ?_
  refine (hitem (by decide)).bind fun _ _ => (raises_requireDigest h).bind fun _ _ => ?_
  refine (hitem (by decide)).bind fun _ _ => (raises_requireDigest h).bind fun _ _ => ?_
  exact (hitem (by decide)).bind fun _ _ => raises_conform (h _ _ (by decide))

omit h in
theorem members_of_evidenceHeader {u : Unit} (hheader : evidenceHeader evidence signed = .ok u) :
    ∃ members, evidence = .obj members ∧ closeEvidence (.obj members) members signed = .ok () := by
  obtain ⟨members, hmembers, hrest⟩ := bind_eq_ok.mp hheader
  obtain ⟨_, hclosed, -⟩ := bind_eq_ok.mp hrest
  obtain rfl := requireObject_eq_ok.mp hmembers
  exact ⟨members, rfl, hclosed⟩

variable [Runtime]

theorem raises_validateEvidence (hhash : ¬ HashesContainer evidence signed) : Raises allowed (validateEvidence evidence signed) := by
  refine (raises_evidenceHeader h).bind fun _ hheader => ?_
  obtain ⟨members, rfl, hclosed⟩ := members_of_evidenceHeader hheader
  have hitem {k : String} (hk : k ∈ Json.keys members) : Raises allowed (item (.obj members) k) := by
    obtain ⟨v, hv⟩ := exists_get?_of_mem_keys hk
    exact raises_item hv
  have hbase {k : String} (hk : k ∈ baseFields) := hitem (base_of_closeEvidence hclosed k hk)
  refine (hbase (by decide)).bind fun axes haxes => (raises_checkAxes h ?_).bind fun _ _ => ?_
  · rintro items rfl
    by_contra hnot
    exact hhash ⟨hheader, items, item_eq_ok.mp haxes, by simpa using hnot⟩
  refine (hbase (by decide)).bind fun _ _ => (raises_checkSubjects h _).bind fun _ _ => ?_
  refine raises_ok.bind fun _ _ => (raises_canonicalDigest (valueReasons_allowed h) _ _).bind fun _ _ => ?_
  refine (hbase (by decide)).bind fun _ _ => (raises_conform (h _ _ (by decide))).bind fun _ _ => ?_
  refine raises_ok.bind fun ms hms => ?_
  obtain rfl := Except.ok.inj hms
  split
  · rename_i hsigned
    refine (hitem (hsigned _ (by decide))).bind fun _ _ => (raises_requireKeyId h).bind fun _ _ => ?_
    refine (hitem (hsigned _ (by decide))).bind fun _ _ => (raises_conform (h _ _ (by decide))).bind fun _ _ => ?_
    exact (hitem (hsigned _ (by decide))).bind fun _ _ => (raises_b64urlDecode h).bind fun _ _ => raises_ok
  · exact raises_ok

omit h in
theorem validateEvidence_of_hashesContainer (hhash : HashesContainer evidence signed) :
    validateEvidence evidence signed = .error .typeError := by
  obtain ⟨hheader, axes, haxes, hhash⟩ := hhash
  rw [validateEvidence, hheader, ok_bind, item_eq_ok.mpr haxes, ok_bind]
  cases axes with
  | nil => cases hhash
  | cons axis rest =>
    rw [checkAxes, countDistinct, if_neg (by simp [hhash])]
    rfl

end

/-! ## Trust -/

section
variable {allowed : PyError → Bool} (h : Lenient allowed) {members : Json.Members}
include h

theorem raises_trustEntry (hbase : ∀ k ∈ ["signerKeyId", "tenantId"], k ∈ Json.keys members) (trust : Json) :
    Raises allowed (trustEntry (.obj members) trust) := by
  have hitem {k : String} (hk : k ∈ ["signerKeyId", "tenantId"]) : Raises allowed (item (.obj members) k) := by
    obtain ⟨v, hv⟩ := exists_get?_of_mem_keys (hbase k hk)
    exact raises_item hv
  refine raises_object h fun fields htrust hkeys => ?_
  subst htrust
  refine (raises_item_of_keys hkeys (by decide)).bind fun _ _ => (raises_conform (h _ _ (by decide))).bind fun _ _ => ?_
  refine (raises_item_of_keys hkeys (by decide)).bind fun keys _ => ?_
  split
  · refine (hitem (by decide)).bind fun keyId _ => ?_
    split
    · rename_i entry hmatching
      have hentry : isKeyEntry keyId entry = true := List.of_mem_filter (hmatching ▸ List.mem_singleton_self entry)
      cases entry with
      | obj ms =>
        refine (raises_closedWith h).bind fun _ hclosed => ?_
        obtain ⟨_, ⟨⟩, hms⟩ := closed_eq_ok.mp hclosed
        refine (raises_item_of_keys hms (by decide)).bind fun _ _ => (raises_item_of_keys hms (by decide)).bind fun _ _ => ?_
        refine (hitem (by decide)).bind fun _ _ => (raises_conform (h _ _ (by decide))).bind fun _ _ => ?_
        refine (raises_item_of_keys hms (by decide)).bind fun _ _ => (raises_conform (h _ _ (by decide))).bind fun _ _ => ?_
        exact raises_ok
      | _ => cases hentry
    · exact raises_error (h _ _ (by decide))
  · exact raises_error (h _ _ (by decide))

omit h in
/-- The entry that is found is closed. -/
theorem members_of_trustEntry {evidence trust entry : Json} (hentry : trustEntry evidence trust = .ok entry) :
    ∃ fields, entry = .obj fields ∧ ∀ k, k ∈ Json.keys fields ↔ k ∈ entryFields := by
  simp only [trustEntry, bind_eq_ok] at hentry
  obtain ⟨_, -, _, -, _, -, _, -, keys, -, hentry⟩ := hentry
  cases keys with
  | arr items =>
    simp only [bind_eq_ok] at hentry
    obtain ⟨keyId, -, hentry⟩ := hentry
    split at hentry
    · simp only [bind_eq_ok, pure_eq_ok] at hentry
      obtain ⟨_, hclosed, _, -, _, -, _, -, _, -, _, -, _, -, rfl⟩ := hentry
      exact closed_eq_ok.mp hclosed
    · cases hentry
  | _ => cases hentry

end

/-! ## Verification -/

section
variable [Runtime] [Sha512] {evidence trust : Json} {now : String}

/-- The times of a resolved entry, or the time of the verification, are with and without a zone. -/
def ComparesZones (evidence trust : Json) (now : String) : Prop :=
  validateEvidence evidence (some true) = .ok evidence ∧ ∃ entry instant,
    trustEntry evidence trust = .ok entry ∧ requireTime (.str now) "now" = .ok instant ∧ MixesZones entry instant

omit [Sha512] in
theorem validateEvidence_eq_ok {signed : Option Bool} {v : Json} (h : validateEvidence evidence signed = .ok v) :
    v = evidence ∧ evidenceHeader evidence signed = .ok () := by
  simp only [validateEvidence, bind_eq_ok] at h
  obtain ⟨⟨⟩, hheader, _, -, _, -, _, -, _, -, _, -, _, -, _, -, _, -, _, -, h⟩ := h
  refine ⟨?_, hheader⟩
  split at h
  · simp only [bind_eq_ok, pure_eq_ok] at h
    obtain ⟨_, -, _, -, _, -, _, -, _, -, _, -, rfl⟩ := h
    rfl
  · exact (pure_eq_ok.mp h).symm

theorem raises_verifyEvidence {allowed : PyError → Bool} (h : Lenient allowed) (hhash : ¬ HashesContainer evidence (some true))
    (hzones : ¬ ComparesZones evidence trust now) : Raises allowed (verifyEvidence evidence trust now) := by
  refine (raises_validateEvidence h hhash).bind fun v hv => ?_
  obtain ⟨rfl, hheader⟩ := validateEvidence_eq_ok hv
  obtain ⟨members, rfl, hclosed⟩ := members_of_evidenceHeader hheader
  have hkeys := (closedWith_eq_ok.mp hclosed).1
  have hitem {k : String} (hk : k ∈ baseFields ++ signatureFields) : Raises allowed (item (.obj members) k) := by
    obtain ⟨v, hv⟩ := exists_get?_of_mem_keys (hkeys k hk)
    exact raises_item hv
  refine (raises_trustEntry h (fun k hk => hkeys k ?_) trust).bind fun entry hentry => ?_
  · rcases List.mem_pair.mp hk with rfl | rfl <;> decide
  obtain ⟨fields, rfl, hfields⟩ := members_of_trustEntry hentry
  refine (raises_requireTime h).bind fun instant hinstant => ?_
  have hmixes : ¬ MixesZones (.obj fields) instant := fun hmixes => hzones ⟨hv, _, instant, hentry, hinstant, hmixes⟩
  refine (raises_isCurrent h hfields hmixes).bind fun _ _ => (raises_conform (h _ _ (by decide))).bind fun _ _ => ?_
  refine (raises_item_of_keys hfields (by decide)).bind fun _ _ => (raises_b64urlDecode h).bind fun key _ => ?_
  refine (hitem (by decide)).bind fun _ _ => (raises_b64urlDecode h).bind fun signature _ => ?_
  refine (raises_ok.bind fun _ _ => (raises_canonicalBytes (valueReasons_allowed h) _).bind fun _ _ => raises_ok).bind fun payload _ => ?_
  obtain ⟨b, hb⟩ := verify_returns key payload signature
  rw [hb, ok_bind]
  refine (raises_conform (h _ _ (by decide))).bind fun _ _ => ?_
  exact (raises_item_of_keys hfields (by decide)).bind fun _ _ => raises_ok

end

/-- Evidence whose only axis is a list. -/
def Sample.listAxis : Json :=
  .obj [("schemaVersion", .str bundleSchema), ("bundleId", .str "run.evidence"), ("campaignId", .str "sample"),
    ("environmentId", .str "local"), ("issuedAt", .str "2026-01-01T00:00:00Z"), ("originatedAxes", .arr [.arr []]),
    ("producer", .str "planeon.harness-conformance/0.1.0"), ("reportDigest", .str zero.text), ("resultStatus", .str "PASS"),
    ("subjectDigests", .arr [.str zero.text]), ("tenantId", .str "tenant"), ("bundleDigest", .str zero.text),
    ("signerKeyId", .str "key"), ("signaturePurpose", .str "TECHNICAL_EVIDENCE"), ("signature", .str "")]

end HarnessConformance.Campaign
