import HarnessConformance.Admission.Cleanup

/-! # Remaining resources

The rows that `cleanup_receipt` admits, and that no list of them is too large for a receipt. -/

namespace HarnessConformance.Admission
open Lib Lib.Outcome Lib.Lines
set_option autoImplicit false

/-! ## Rows -/

/-- A resource that a cleanup leaves behind. -/
structure Remaining where
  kind : Kind
  nameSpace : Name
  name : Name
  uid : Option Uid
  digest : Digest
  reason : String
  known : reason ∈ cleanupReasons
  ambiguous : uid = none → reason = "IO_AMBIGUOUS"

namespace Remaining

variable (r : Remaining)

def uidJson : Json := r.uid.elim .null fun uid => .str uid.text

def toJson : Json :=
  .obj [("apiVersion", .str "v1"), ("kind", .str r.kind.name), ("namespace", .str r.nameSpace.text), ("name", .str r.name.text),
    ("uid", r.uidJson), ("manifestDigest", .str r.digest.text), ("reasonCode", .str r.reason)]

def identity : Identity := ⟨r.kind, r.nameSpace, r.name⟩

theorem canon_uidJson : r.uidJson.canon = r.uidJson := by
  unfold uidJson
  cases r.uid <;> rfl

theorem wf_toJson : r.toJson.Wf := by
  have huid : r.uidJson.Wf := by
    unfold uidJson
    cases r.uid <;> trivial
  have hnodup : cleanupFields.Nodup := by decide
  refine Json.wf_obj.mpr ⟨hnodup, ?_⟩
  simp only [List.forall_mem_cons]
  exact ⟨trivial, trivial, trivial, trivial, huid, trivial, trivial, nofun⟩

/-- A row that spells a remaining resource. -/
def Spells (row : Json) (r : Remaining) : Prop := row.canon = r.toJson.canon

theorem get?_of_spells {row v : Json} {r : Remaining} (hwf : row.Wf) (h : Spells row r) {k : String}
    (hk : r.toJson.get? k = some v) (hv : v.canon = v) : (row.get? k).map Json.canon = some v := by
  rw [← Json.get?_canon hwf, h, Json.get?_canon r.wf_toJson, hk, Option.map_some, hv]

theorem str_of_canon {o : Option Json} {s : String} (h : o.map Json.canon = some (.str s)) : o = some (.str s) := by
  obtain ⟨v, rfl, hv⟩ := Option.map_eq_some_iff.mp h
  cases v <;> simp_all [Json.canon]

theorem null_of_canon {o : Option Json} (h : o.map Json.canon = some .null) : o = some .null := by
  obtain ⟨v, rfl, hv⟩ := Option.map_eq_some_iff.mp h
  cases v <;> simp_all [Json.canon]

/-- What the fields of a row hold. -/
structure At (row : Json) (r : Remaining) : Prop where
  closed : closed row cleanupFields = .ok ()
  apiVersion : row.get? "apiVersion" = some (.str "v1")
  kind : row.get? "kind" = some (.str r.kind.name)
  nameSpace : row.get? "namespace" = some (.str r.nameSpace.text)
  name : row.get? "name" = some (.str r.name.text)
  uid : row.get? "uid" = some r.uidJson
  digest : row.get? "manifestDigest" = some (.str r.digest.text)
  reason : row.get? "reasonCode" = some (.str r.reason)

theorem spells_iff {row : Json} (hwf : row.Wf) {r : Remaining} : Spells row r ↔ At row r := by
  constructor
  · intro h
    have hclosed : HarnessConformance.closed row cleanupFields = .ok () := by
      rw [← closed_canon, h, closed_canon]
      exact closed_eq_ok.mpr ⟨_, rfl, fun _ => Iff.rfl⟩
    have hget {k s : String} (hk : r.toJson.get? k = some (.str s)) : row.get? k = some (.str s) :=
      str_of_canon (get?_of_spells hwf h hk rfl)
    have huid : row.get? "uid" = some r.uidJson := by
      have hmap := get?_of_spells hwf h (k := "uid") rfl r.canon_uidJson
      unfold uidJson at hmap ⊢
      cases huid : r.uid with
      | none =>
        rw [huid] at hmap
        exact null_of_canon hmap
      | some uid =>
        rw [huid] at hmap
        exact str_of_canon hmap
    exact ⟨hclosed, hget rfl, hget rfl, hget rfl, hget rfl, huid, hget rfl, hget rfl⟩
  · rintro ⟨hclosed, hversion, hkind, hnameSpace, hname, huid, hdigest, hreason⟩
    have hget {k : String} {v : Json} (hk : row.get? k = some v) : row.canon.get? k = some v.canon := by
      rw [Json.get?_canon hwf, hk, Option.map_some]
    have hnodup : cleanupFields.Nodup := by decide
    refine eq_canon_of_closed_canon hwf.canon (Json.canon_canon row) (closed_canon.mpr hclosed) hnodup rfl ?_
    simp only [List.forall_mem_cons]
    exact ⟨hget hversion, hget hkind, hget hnameSpace, hget hname, hget huid, hget hdigest, hget hreason, nofun⟩

end Remaining

/-- A row is admitted exactly when it spells a remaining resource whose identity is new. -/
theorem cleanupRow_eq_ok {seen after : List Identity} {row : Json} (hwf : row.Wf) : cleanupRow seen row = .ok after ↔
    ∃ r, Remaining.Spells row r ∧ r.identity ∉ seen ∧ after = r.identity :: seen := by
  constructor
  · intro h
    simp only [cleanupRow, bind_eq_ok, item_eq_ok, require_eq_ok, exists_const, requireKind_eq_ok, requireName_eq_ok,
      requireDigest_eq_ok, pure_eq_ok] at h
    obtain ⟨_, hclosed, _, hversion, rfl, _, hkind, kind, rfl, reason, hreason, hreasons, _, hns, nameSpace, rfl, h⟩ := h
    obtain ⟨_, hname, name, rfl, uid, huid, _, hreason', _, hremaining, _, hdigest, digest, rfl, hnew, rfl⟩ := h
    obtain ⟨text, hknown, rfl⟩ := isOneOf_iff.mp hreasons
    obtain rfl := Option.some.inj (hreason.symm.trans hreason')
    unfold requireRemainingUid at hremaining
    split at hremaining
    · rename_i hnull
      refine ⟨⟨kind, nameSpace, name, none, digest, text, hknown, fun _ => Json.str.inj hnull.2⟩, ?_, hnew, rfl⟩
      have hnone : row.get? "uid" = some .null := hnull.1 ▸ huid
      exact (Remaining.spells_iff hwf).mpr ⟨hclosed, hversion, hkind, hns, hname, hnone, hdigest, hreason⟩
    · simp only [bind_eq_ok, requireText_eq_ok] at hremaining
      obtain ⟨t, rfl, -⟩ := hremaining
      refine ⟨⟨kind, nameSpace, name, some t, digest, text, hknown, fun h => absurd h (Option.some_ne_none _)⟩, ?_, hnew, rfl⟩
      exact (Remaining.spells_iff hwf).mpr ⟨hclosed, hversion, hkind, hns, hname, huid, hdigest, hreason⟩
  · rintro ⟨r, hspells, hnew, rfl⟩
    obtain ⟨hclosed, hversion, hkind, hnameSpace, hname, huid, hdigest, hreason⟩ := (Remaining.spells_iff hwf).mp hspells
    have hremaining : requireRemainingUid r.uidJson (.str r.reason) = .ok () := by
      unfold requireRemainingUid Remaining.uidJson
      cases hu : r.uid with
      | none => exact if_pos ⟨rfl, congrArg _ (r.ambiguous hu)⟩
      | some uid =>
        refine (if_neg fun h => Json.noConfusion h.1).trans (bind_eq_ok.mpr ⟨uid, requireText_eq_ok.mpr rfl, rfl⟩)
    simp only [cleanupRow, bind_eq_ok, item_eq_ok, require_eq_ok, exists_const, requireKind_eq_ok, requireName_eq_ok,
      requireDigest_eq_ok, pure_eq_ok]
    exact ⟨(), hclosed, _, hversion, rfl, _, hkind, r.kind, rfl, _, hreason, isOneOf_iff.mpr ⟨_, r.known, rfl⟩, _, hnameSpace, r.nameSpace,
      rfl, _, hname, r.name, rfl, _, huid, _, hreason, (), hremaining, _, hdigest, r.digest, rfl, hnew, rfl⟩

/-! ## Lists of rows -/

/-- Rows that spell resources of different identities. -/
structure Legal (rows : List Json) (rs : List Remaining) : Prop where
  spells : List.Forall₂ Remaining.Spells rows rs
  distinct : (rs.map Remaining.identity).Nodup
  few : rows.length ≤ 32

theorem foldlM_cleanupRow {rows : List Json} (hwf : ∀ row ∈ rows, row.Wf) {seen after : List Identity} :
    rows.foldlM cleanupRow seen = .ok after ↔ ∃ rs, List.Forall₂ Remaining.Spells rows rs ∧
      (rs.map Remaining.identity).Nodup ∧ (∀ r ∈ rs, r.identity ∉ seen) ∧ after = (rs.map Remaining.identity).reverse ++ seen := by
  induction rows generalizing seen with
  | nil =>
    rw [List.foldlM_nil, pure_eq_ok]
    constructor
    · rintro rfl
      exact ⟨[], .nil, List.nodup_nil, nofun, rfl⟩
    · rintro ⟨rs, hspells, -, -, rfl⟩
      cases hspells
      rfl
  | cons row rows ih =>
    rw [List.forall_mem_cons] at hwf
    rw [foldlM_cons_eq_ok]
    constructor
    · rintro ⟨u, hrow, hrest⟩
      obtain ⟨r, hspells, hnew, rfl⟩ := (cleanupRow_eq_ok hwf.1).mp hrow
      obtain ⟨rs, hrs, hdistinct, hfresh, rfl⟩ := (ih hwf.2).mp hrest
      have hne : ∀ s ∈ rs, s.identity ≠ r.identity := fun s hs heq => hfresh s hs (heq ▸ List.mem_cons_self)
      refine ⟨r :: rs, .cons hspells hrs, ?_, ?_, ?_⟩
      · rw [List.map_cons, List.nodup_cons]
        refine ⟨fun hmem => ?_, hdistinct⟩
        obtain ⟨s, hs, heq⟩ := List.mem_map.mp hmem
        exact hne s hs heq
      · exact List.forall_mem_cons.mpr ⟨hnew, fun s hs hmem => hfresh s hs (List.mem_cons_of_mem _ hmem)⟩
      · rw [List.map_cons, List.reverse_cons, List.append_assoc]
        rfl
    · rintro ⟨_, hspells, hdistinct, hfresh, rfl⟩
      obtain ⟨r, rs, hrow, hrs, rfl⟩ := List.forall₂_cons_left_iff.mp hspells
      rw [List.map_cons, List.nodup_cons] at hdistinct
      rw [List.forall_mem_cons] at hfresh
      refine ⟨_, (cleanupRow_eq_ok hwf.1).mpr ⟨r, hrow, hfresh.1, rfl⟩, (ih hwf.2).mpr ⟨rs, hrs, hdistinct.2, ?_, ?_⟩⟩
      · intro s hs hmem
        rcases List.mem_cons.mp hmem with heq | hmem
        · exact hdistinct.1 (heq ▸ List.mem_map_of_mem hs)
        · exact hfresh.2 s hs hmem
      · rw [List.map_cons, List.reverse_cons, List.append_assoc]
        rfl

/-! ## Sizes -/

theorem name_short (n : Name) : Json.isPlain n.text = true ∧ n.text.length ≤ 63 := by
  have hlower (c : Char) (h : (('a' ≤ c && c ≤ 'z') || c.isDigit) = true) : Json.isPlainChar c = true := by
    rw [Bool.or_eq_true, Bool.and_eq_true, decide_eq_true_eq, decide_eq_true_eq] at h
    exact h.elim isPlainChar_lower isPlainChar_digit
  have htail : (Regex.one fun c => ('a' ≤ c && c ≤ 'z') || c.isDigit || c == '.' || c == '-').Over fun c => Json.isPlainChar c = true := by
    intro c h
    simp only [Bool.or_eq_true _ (c == '.'), Bool.or_eq_true _ (c == '-'), beq_iff_eq] at h
    rcases h with (h | rfl) | rfl
    · exact hlower c h
    all_goals decide
  refine ⟨Json.isPlain_of_over (r := namePattern) ⟨hlower, over_upTo htail 62⟩ n.valid, ?_⟩
  have hlength := (Regex.fullmatch_iff.mp n.valid).length_le (by decide +kernel)
  have hlongest : namePattern.longest = 63 := by decide +kernel
  rwa [hlongest, String.length_toList] at hlength

theorem uid_short (u : Uid) : Json.isPlain u.text = true ∧ u.text.length ≤ 128 := by
  have hchar : (Regex.one fun c => c.isAlpha || c.isDigit || c == '-').Over fun c => Json.isPlainChar c = true := by
    intro c h
    simp only [Bool.or_eq_true _ (c == '-'), beq_iff_eq] at h
    rcases h with h | rfl
    · exact isPlainChar_alphanum h
    · decide
  refine ⟨Json.isPlain_of_over (r := uidPattern) ⟨over_times hchar 1, over_upTo hchar 127⟩ u.valid, ?_⟩
  have hlength := (Regex.fullmatch_iff.mp u.valid).length_le (by decide +kernel)
  have hlongest : uidPattern.longest = 128 := by decide +kernel
  rwa [hlongest, String.length_toList] at hlength

theorem kind_short (k : Kind) : Json.isPlain k.name = true ∧ k.name.length ≤ 9 := by
  cases k <;> decide

theorem reason_short {reason : String} (h : reason ∈ cleanupReasons) : Json.isPlain reason = true ∧ reason.length ≤ 23 := by
  have hall : cleanupReasons.all (fun reason => Json.isPlain reason && decide (reason.length ≤ 23)) = true := by decide
  have hreason := List.all_eq_true.mp hall reason h
  rwa [Bool.and_eq_true, decide_eq_true_eq] at hreason

namespace Remaining

variable (r : Remaining)

/-- The width of a text of plain characters. -/
theorem width_str {s : String} (h : Json.isPlain s = true) : (Json.str s).width = s.length + 2 := by
  rw [Json.width, Json.textWidth_plain h]

theorem uidJson_small : r.uidJson.Plain ∧ r.uidJson.width ≤ 130 ∧ r.uidJson.height = 0 := by
  unfold uidJson
  cases r.uid with
  | none => exact ⟨trivial, by decide, rfl⟩
  | some uid =>
    obtain ⟨hplain, hlength⟩ := uid_short uid
    exact ⟨hplain, (width_str hplain).trans_le (Nat.add_le_add_right hlength 2), rfl⟩

/-- The longest row has 456 characters. -/
theorem toJson_small : r.toJson.Plain ∧ r.toJson.width ≤ 456 ∧ r.toJson.height ≤ 1 := by
  obtain ⟨hkind, hkindLength⟩ := kind_short r.kind
  obtain ⟨hnameSpace, hnameSpaceLength⟩ := name_short r.nameSpace
  obtain ⟨hname, hnameLength⟩ := name_short r.name
  obtain ⟨huid, huidWidth, huidHeight⟩ := r.uidJson_small
  obtain ⟨hreason, hreasonLength⟩ := reason_short r.known
  have hdigest := r.digest.digest_plain
  have hdigestLength := r.digest.digest_length
  refine ⟨Json.plain_obj.mpr ?_, ?_, ?_⟩
  · simp only [List.forall_mem_cons]
    have hversion : Json.isPlain "v1" = true := by decide
    exact ⟨⟨by decide, hversion⟩, ⟨by decide, hkind⟩, ⟨by decide, hnameSpace⟩, ⟨by decide, hname⟩, ⟨by decide, huid⟩,
      ⟨by decide, hdigest⟩, ⟨by decide, hreason⟩, nofun⟩
  · have hkeys : Json.textWidth "apiVersion" = 10 ∧ Json.textWidth "kind" = 4 ∧ Json.textWidth "namespace" = 9 ∧
        Json.textWidth "name" = 4 ∧ Json.textWidth "uid" = 3 ∧ Json.textWidth "manifestDigest" = 14 ∧ Json.textWidth "reasonCode" = 10 := by
      decide
    obtain ⟨hapiKey, hkindKey, hnameSpaceKey, hnameKey, huidKey, hdigestKey, hreasonKey⟩ := hkeys
    have hversion : (Json.str "v1").width = 4 := by decide
    simp only [toJson, Json.width.eq_7, Json.widthMembers, List.length_cons, List.length_nil, hapiKey, hkindKey, hnameSpaceKey, hnameKey,
      huidKey, hdigestKey, hreasonKey, hversion, width_str hkind, width_str hnameSpace, width_str hname, width_str hdigest, width_str hreason]
    omega
  · refine Json.heightMembers_le.mpr ?_
    simp only [List.forall_mem_cons, huidHeight]
    exact ⟨le_rfl, le_rfl, le_rfl, le_rfl, le_rfl, le_rfl, le_rfl, nofun⟩

end Remaining

/-! ## Receipts -/

variable [Runtime]

namespace Legal

variable {rows : List Json} {rs : List Remaining} (h : Legal rows rs)
include h

omit [Runtime] in
theorem row_small : ∀ row ∈ rows, row.Plain ∧ row.width ≤ 456 ∧ row.height ≤ 1 := by
  intro row hrow
  obtain ⟨r, -, hspells⟩ := forall₂_mem_left h.spells hrow
  obtain ⟨hplain, hwidth, hheight⟩ := r.toJson_small
  have hcanon : row.canon = r.toJson.canon := hspells
  rw [← Json.plain_canon, ← Json.width_canon row, ← Json.height_canon row, hcanon, Json.plain_canon, Json.width_canon,
    Json.height_canon]
  exact ⟨hplain, hwidth, hheight⟩

omit [Runtime] in
theorem arr_small : (Json.arr rows).width ≤ 14625 ∧ (Json.arr rows).height ≤ 2 := by
  have hsmall := h.row_small
  have hfew := h.few
  constructor
  · have hsum : (rows.map Json.width).sum ≤ rows.length * 456 := by
      have hle := List.sum_le_card_nsmul (rows.map Json.width) 456 (List.forall_mem_map.mpr fun row hrow => (hsmall row hrow).2.1)
      rwa [List.length_map, smul_eq_mul] at hle
    rw [Json.width, Json.widthItems_eq]
    omega
  · exact Json.heightItems_le.mpr fun row hrow => Nat.succ_le_succ (hsmall row hrow).2.2

theorem valid_arr {depth : ℕ} (hdepth : depth ≤ 16) : ValidAt depth (.arr rows) := by
  have hsmall := h.row_small
  have hfew := h.few
  have hdeep : (16 : ℕ) + 2 ≤ maxDepth := by decide
  refine validAt_arr.mpr ⟨by omega, hfew.trans (by decide), fun row hrow => ?_⟩
  obtain ⟨hplain, hwidth, hheight⟩ := hsmall row hrow
  exact validAt_plain hplain (by omega) (hwidth.trans (by decide))

end Legal

omit [Runtime] in
theorem case_width (c : Case) : (Json.str c.name).width ≤ 34 := by
  obtain ⟨hplain, hlength⟩ := Case.name_short c
  exact (Remaining.width_str hplain).trans_le (Nat.add_le_add_right hlength 2)

section
variable {binding previous : Digest} {c : Case} {now : TimeText} {rows : List Json} {rs : List Remaining}

omit [Runtime] in
/-- No legal list of rows makes a receipt too large. -/
theorem receiptJson_small (h : Legal rows rs) :
    (receiptJson (.str binding.text) (.str c.name) (.str now.text) rows (.str previous.text)).width ≤ 16384 ∧
      (receiptJson (.str binding.text) (.str c.name) (.str now.text) rows (.str previous.text)).height ≤ 16 := by
  obtain ⟨hwidth, hheight⟩ := h.arr_small
  have hkeys : Json.textWidth "schemaVersion" = 13 ∧ Json.textWidth "bindingDigest" = 13 ∧ Json.textWidth "operation" = 9 ∧
      Json.textWidth "observedAt" = 10 ∧ Json.textWidth "state" = 5 ∧ Json.textWidth "remainingResources" = 18 ∧
      Json.textWidth "previousReceiptDigest" = 21 := by decide
  obtain ⟨hversionKey, hbindingKey, hoperationKey, hobservedKey, hstateKey, hremainingKey, hpreviousKey⟩ := hkeys
  have hversion : (Json.str "planeon.internal.proxy-cleanup/v1").width = 35 := by decide
  have hcase := case_width c
  have htime := Remaining.width_str now.time_plain
  have htimeLength := now.time_length
  have hbinding := Remaining.width_str binding.digest_plain
  have hbindingLength := binding.digest_length
  have hprevious := Remaining.width_str previous.digest_plain
  have hpreviousLength := previous.digest_length
  have hstate : (Json.str (if rows = [] then "CLEAN" else "CLEANUP_PENDING")).width ≤ 17 := by split <;> decide
  constructor
  · rw [receiptJson, Json.width]
    simp only [Json.widthMembers, List.length_cons, List.length_nil, hversionKey, hbindingKey, hoperationKey, hobservedKey,
      hstateKey, hremainingKey, hpreviousKey, hversion, htime, hbinding, hprevious]
    omega
  · refine Json.heightMembers_le.mpr ?_
    simp only [List.forall_mem_cons]
    have harr : (Json.arr rows).height + 1 ≤ 16 := Nat.succ_le_of_lt (hheight.trans_lt (by decide))
    exact ⟨Nat.le_add_left 1 15, Nat.le_add_left 1 15, Nat.le_add_left 1 15, Nat.le_add_left 1 15, Nat.le_add_left 1 15, harr,
      Nat.le_add_left 1 15, List.forall_mem_nil _⟩

theorem valid_receiptJson (h : Legal rows rs) :
    Valid (receiptJson (.str binding.text) (.str c.name) (.str now.text) rows (.str previous.text)) := by
  have hkey {key : String} (h : Json.isPlain key = true ∧ key.length ≤ 32) : TextValid key := textValid_plain h.1 (h.2.trans (by decide))
  have member {key : String} {v : Json} (h : Json.isPlain key = true ∧ key.length ≤ 32) (hv : ValidAt 1 v) :
      0 + 1 ≤ maxDepth ∧ TextValid key ∧ ValidAt (0 + 1) v := ⟨by decide, hkey h, hv⟩
  have text {s : String} (hplain : Json.isPlain s = true) (hlength : s.length ≤ 128) : ValidAt 1 (.str s) :=
    validAt_str.mpr ⟨by decide, textValid_plain hplain (hlength.trans (by decide))⟩
  have hcase := Case.name_short c
  have hstate : ValidAt 1 (.str (if rows = [] then "CLEAN" else "CLEANUP_PENDING")) := by
    split <;> exact text (by decide) (by decide)
  refine validAt_obj.mpr ⟨by decide, (by decide : 7 ≤ _), ?_⟩
  simp only [List.forall_mem_cons]
  exact ⟨member (Json.shortKey rfl) (text (by decide) (by decide)),
    member (Json.shortKey rfl) (text binding.digest_plain (binding.digest_length.trans (by decide))),
    member (Json.shortKey rfl) (text hcase.1 (hcase.2.trans (by decide))),
    member (Json.shortKey rfl) (text now.time_plain (now.time_length.trans (by decide))), member (Json.shortKey rfl) hstate,
    member (Json.shortKey rfl) (h.valid_arr (by decide)),
    member (Json.shortKey rfl) (text previous.digest_plain (previous.digest_length.trans (by decide))), nofun⟩

omit [Runtime] in
theorem wf_receiptJson (hrows : ∀ row ∈ rows, row.Wf) :
    (receiptJson (.str binding.text) (.str c.name) (.str now.text) rows (.str previous.text)).Wf := by
  have hnodup : (["schemaVersion", "bindingDigest", "operation", "observedAt", "state", "remainingResources",
    "previousReceiptDigest"] : List String).Nodup := by decide
  refine Json.wf_obj.mpr ⟨hnodup, ?_⟩
  simp only [List.forall_mem_cons]
  exact ⟨trivial, trivial, trivial, trivial, trivial, Json.wf_arr.mpr hrows, trivial, nofun⟩

/-- A receipt is written for exactly the legal lists. -/
theorem cleanupReceipt_iff {remaining receipt : Json} (hwf : remaining.Wf) :
    cleanupReceipt (.str binding.text) (.str c.name) (.str now.text) remaining (.str previous.text) = .ok receipt ↔
      ∃ rows rs, remaining = .arr rows ∧ Legal rows rs ∧
        receipt = (receiptJson (.str binding.text) (.str c.name) (.str now.text) rows (.str previous.text)).canon := by
  constructor
  · intro h
    simp only [cleanupReceipt, bind_eq_ok, requireDigest_eq_ok, requireCase_eq_ok, requireTime_eq_ok, requireList_eq_ok] at h
    obtain ⟨_, -, _, -, _, -, rows, ⟨rfl, hfew⟩, _, -, seen, hrows, hdocument⟩ := h
    have hrowsWf := Json.wf_arr.mp hwf
    obtain ⟨rs, hspells, hdistinct, -, -⟩ := (foldlM_cleanupRow hrowsWf).mp hrows
    exact ⟨rows, rs, rfl, ⟨hspells, hdistinct, hfew⟩, document_data_wf (wf_receiptJson hrowsWf) hdocument⟩
  · rintro ⟨rows, rs, rfl, hlegal, rfl⟩
    have hrowsWf := Json.wf_arr.mp hwf
    have hrows : rows.foldlM cleanupRow [] = .ok ((rs.map Remaining.identity).reverse ++ []) :=
      (foldlM_cleanupRow hrowsWf).mpr ⟨rs, hlegal.spells, hlegal.distinct, fun _ _ => List.not_mem_nil, rfl⟩
    obtain ⟨hwidth, hheight⟩ := @receiptJson_small binding previous c now rows rs hlegal
    have hdocument := document_of_width (by decide) (wf_receiptJson hrowsWf) (valid_receiptJson hlegal) hheight hwidth
    simp only [cleanupReceipt, bind_eq_ok, requireDigest_eq_ok, requireCase_eq_ok, requireTime_eq_ok, requireList_eq_ok]
    exact ⟨binding, rfl, previous, rfl, c, rfl, rows, ⟨rfl, hlegal.few⟩, now, rfl, _, hrows, hdocument⟩

end

end HarnessConformance.Admission
