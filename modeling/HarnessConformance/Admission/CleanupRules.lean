import HarnessConformance.Admission.Remaining
import HarnessConformance.Admission.Transcript

/-! # Both rules for what a cleanup leaves

The ledger writes a receipt for a list of remaining resources, and the transcript takes a `CLEANUP_RECORDED` with such a
list. They are written apart; on resources of the dispatched case they admit the same lists. -/

namespace HarnessConformance.Admission
open Lib Lib.Outcome Lib.Lines
set_option autoImplicit false

/-! ## Texts -/

theorem accepts_text {pattern : Regex} {high : ℕ} (hempty : pattern.fullmatch "" = false)
    (hlength : ∀ t : Text pattern.fullmatch, t.text.length ≤ high) {v : Json} :
    (Shape.text 1 high (some pattern)).Accepts v ↔ ∃ t : Text pattern.fullmatch, v = .str t.text := by
  constructor
  · rintro ⟨t, rfl, -, -, hpattern⟩
    exact ⟨⟨t, hpattern pattern rfl⟩, rfl⟩
  · rintro ⟨t, rfl⟩
    refine ⟨t.text, rfl, Nat.one_le_iff_ne_zero.mpr fun hzero => ?_, hlength t, fun r hr => ?_⟩
    · have hvalid := t.valid
      rw [String.length_eq_zero_iff.mp hzero, hempty] at hvalid
      cases hvalid
    · obtain rfl := Option.some.inj hr
      exact t.valid

theorem accepts_name {v : Json} : nameShape.Accepts v ↔ ∃ n : Name, v = .str n.text :=
  accepts_text (by decide) fun n => (name_short n).2

theorem accepts_uid {v : Json} : uidShape.Accepts v ↔ ∃ u : Uid, v = .str u.text :=
  accepts_text (by decide) fun u => (uid_short u).2

theorem accepts_digest_iff {v : Json} : digestShape.Accepts v ↔ ∃ d : Digest, v = .str d.text :=
  accepts_text (by decide) fun d => d.digest_length.trans (by decide)

theorem accepts_kind {v : Json} : (namesShape ["Pod", "ConfigMap", "Service"]).Accepts v ↔ ∃ k : Kind, v = .str k.name := by
  rw [namesShape, Shape.accepts_enum]
  constructor
  · rintro ⟨name, hname, rfl⟩
    simp only [List.mem_cons, List.not_mem_nil, or_false] at hname
    rcases hname with rfl | rfl | rfl
    · exact ⟨.pod, rfl⟩
    · exact ⟨.configMap, rfl⟩
    · exact ⟨.service, rfl⟩
  · rintro ⟨k, rfl⟩
    exact ⟨k.name, by cases k <;> decide, rfl⟩

theorem accepts_optionalUid {v : Json} : (Shape.oneOf [.null, uidShape]).Accepts v ↔ v = .null ∨ ∃ u : Uid, v = .str u.text := by
  have hnull : Shape.null.Accepts v ↔ v = .null := Iff.rfl
  have hone : (Shape.oneOf [.null, uidShape]).Accepts v ↔
      (v = .null ∧ ¬ uidShape.Accepts v ∧ True) ∨
        (v ≠ .null ∧ ((uidShape.Accepts v ∧ True) ∨ (¬ uidShape.Accepts v ∧ False))) := Iff.rfl
  rw [hone, accepts_uid]
  constructor
  · rintro (⟨h, -⟩ | ⟨-, ⟨h, -⟩ | ⟨-, h⟩⟩)
    · exact .inl h
    · exact .inr h
    · exact h.elim
  · rintro (rfl | ⟨u, rfl⟩)
    · exact .inl ⟨rfl, by rintro ⟨_, ⟨⟩⟩, trivial⟩
    · exact .inr ⟨by rintro ⟨⟩, .inl ⟨⟨u, rfl⟩, trivial⟩⟩

/-! ## Rows -/

/-- What the shape leaves to the transcript: a missing UID is ambiguous I/O. -/
def UidKnown (row : Json) : Prop :=
  ∃ uid reason, row.get? "uid" = some uid ∧ row.get? "reasonCode" = some reason ∧ (uid ≠ .null ∨ reason = .str "IO_AMBIGUOUS")

theorem spells_of_shape {row : Json} (hwf : row.Wf) : (remainingShape.Accepts row ∧ UidKnown row) ↔ ∃ r, Remaining.Spells row r := by
  rw [remainingShape, Shape.accepts_obj_iff (by decide) hwf]
  simp only [List.forall_mem_cons]
  constructor
  · rintro ⟨⟨hkeys, ⟨_, hversion, hv1⟩, ⟨_, hkind, hk⟩, ⟨_, hnameSpace, hns⟩, ⟨_, hname, hn⟩, ⟨uid, huid, hu⟩, ⟨_, hdigest, hd⟩,
      ⟨_, hreason, hr⟩, -⟩, uid', reason, huid', hreason', hknown⟩
    obtain rfl := Option.some.inj (huid.symm.trans huid')
    obtain rfl := Option.some.inj (hreason.symm.trans hreason')
    obtain rfl := Shape.accepts_str.mp hv1
    obtain ⟨kind, rfl⟩ := accepts_kind.mp hk
    obtain ⟨nameSpace, rfl⟩ := accepts_name.mp hns
    obtain ⟨name, rfl⟩ := accepts_name.mp hn
    obtain ⟨digest, rfl⟩ := accepts_digest_iff.mp hd
    obtain ⟨reason, hmem, rfl⟩ := Shape.accepts_enum.mp hr
    have hclosed : closed row cleanupFields = .ok () := closed_eq_ok.mpr hkeys
    rcases accepts_optionalUid.mp hu with rfl | ⟨uid, rfl⟩
    · have hambiguous : reason = "IO_AMBIGUOUS" := Json.str.inj (hknown.resolve_left fun h => h rfl)
      exact ⟨⟨kind, nameSpace, name, none, digest, reason, hmem, fun _ => hambiguous⟩, (Remaining.spells_iff hwf).mpr
        ⟨hclosed, hversion, hkind, hnameSpace, hname, huid, hdigest, hreason⟩⟩
    · exact ⟨⟨kind, nameSpace, name, some uid, digest, reason, hmem, fun h => by cases h⟩, (Remaining.spells_iff hwf).mpr
        ⟨hclosed, hversion, hkind, hnameSpace, hname, huid, hdigest, hreason⟩⟩
  · rintro ⟨r, hspells⟩
    obtain ⟨hclosed, hversion, hkind, hnameSpace, hname, huid, hdigest, hreason⟩ := (Remaining.spells_iff hwf).mp hspells
    have hoptional : (Shape.oneOf [.null, uidShape]).Accepts r.uidJson := by
      refine accepts_optionalUid.mpr ?_
      unfold Remaining.uidJson
      cases r.uid with
      | none => exact .inl rfl
      | some u => exact .inr ⟨u, rfl⟩
    refine ⟨⟨closed_eq_ok.mp hclosed, ⟨_, hversion, Shape.accepts_str.mpr rfl⟩, ⟨_, hkind, accepts_kind.mpr ⟨_, rfl⟩⟩,
      ⟨_, hnameSpace, accepts_name.mpr ⟨_, rfl⟩⟩, ⟨_, hname, accepts_name.mpr ⟨_, rfl⟩⟩, ⟨_, huid, hoptional⟩,
      ⟨_, hdigest, accepts_digest_iff.mpr ⟨_, rfl⟩⟩, ⟨_, hreason, Shape.accepts_enum.mpr ⟨_, r.known, rfl⟩⟩, List.forall_mem_nil _⟩,
      _, _, huid, hreason, ?_⟩
    cases hu : r.uid with
    | none => exact .inr (congrArg _ (r.ambiguous hu))
    | some u => exact .inl (by rw [Remaining.uidJson, hu]; rintro ⟨⟩)

/-- What `onRemaining` tells rows apart by. -/
def rowKey (i : Identity) : Json × Json × Json := (.str i.kind.name, .str i.nameSpace.text, .str i.name.text)

theorem rowKey_injective : Function.Injective rowKey := by
  rintro ⟨k, ns, n⟩ ⟨k', ns', n'⟩ h
  obtain ⟨hk, hrest⟩ := Prod.mk.inj h
  obtain ⟨hns, hn⟩ := Prod.mk.inj hrest
  obtain rfl := Kind.name_injective (Json.str.inj hk)
  obtain rfl := Text.ext (Json.str.inj hns)
  obtain rfl := Text.ext (Json.str.inj hn)
  rfl

section
variable [Runtime]

namespace Transcript

variable {t : Transcript}

omit [Runtime] in
theorem onRemaining_eq_ok {row : Json} (hwf : row.Wf) {r : Remaining} (h : Remaining.Spells row r)
    (seen after : List (Json × Json × Json)) : t.onRemaining seen row = .ok after ↔
      t.Owns (.str r.digest.text) ∧ rowKey r.identity ∉ seen ∧ after = rowKey r.identity :: seen := by
  obtain ⟨-, -, hkind, hnameSpace, hname, huid, hdigest, hreason⟩ := (Remaining.spells_iff hwf).mp h
  have hknown : r.uidJson ≠ .null ∨ Json.str r.reason = .str "IO_AMBIGUOUS" := by
    cases hu : r.uid with
    | none => exact .inr (congrArg _ (r.ambiguous hu))
    | some u => exact .inl (by rw [Remaining.uidJson, hu]; rintro ⟨⟩)
  simp only [onRemaining, bind_eq_ok, item_eq_ok, require_eq_ok, exists_const, pure_eq_ok, hkind, hnameSpace, hname, huid, hdigest, hreason,
    Option.some.injEq, exists_eq_left', Owns]
  constructor
  · rintro ⟨digests, hdigests, ⟨hnew, hmem, -⟩, rfl⟩
    exact ⟨⟨digests, hdigests, hmem⟩, hnew, rfl⟩
  · rintro ⟨⟨digests, hdigests, hmem⟩, hnew, rfl⟩
    exact ⟨digests, hdigests, ⟨hnew, hmem, hknown⟩, rfl⟩

omit [Runtime] in
/-- An owned list passes both the shape and the loop of the transcript exactly when it is legal. -/
theorem legal_iff {rows : List Json} (hwf : ∀ row ∈ rows, row.Wf)
    (howns : ∀ row ∈ rows, ∃ digest, row.get? "manifestDigest" = some digest ∧ t.Owns digest) :
    ((Shape.arr 0 32 true remainingShape).Accepts (.arr rows) ∧ ∃ seen, rows.foldlM t.onRemaining [] = .ok seen) ↔
      ∃ rs, Legal rows rs := by
  have hdigests {rs : List Remaining} (hspells : List.Forall₂ Remaining.Spells rows rs) : ∀ r ∈ rs, t.Owns (.str r.digest.text) := by
    intro r hr
    obtain ⟨row, hrow, hspelled⟩ := forall₂_mem_right hspells hr
    obtain ⟨digest, hdigest, hown⟩ := howns row hrow
    have hat := (Remaining.spells_iff (hwf row hrow)).mp hspelled
    rwa [← Option.some.inj (hdigest.symm.trans hat.digest)]
  have hfold {rs : List Remaining} (hspells : List.Forall₂ Remaining.Spells rows rs) {seen : List (Json × Json × Json)} :
      rows.foldlM t.onRemaining [] = .ok seen ↔ (∀ r ∈ rs, t.Owns (.str r.digest.text)) ∧
        (rs.map fun r => rowKey r.identity).Nodup ∧ (∀ r ∈ rs, rowKey r.identity ∉ []) ∧
        seen = (rs.map fun r => rowKey r.identity).reverse ++ [] := by
    refine foldlM_distinct (R := fun row r => row.Wf ∧ Remaining.Spells row r) (fun h => onRemaining_eq_ok h.1 h.2) ?_
    refine List.forall₂_iff_get.mpr ⟨hspells.length_eq, fun i hi hi' => ⟨hwf _ (List.get_mem ..), ?_⟩⟩
    exact (List.forall₂_iff_get.mp hspells).2 i hi hi'
  have hkeys (rs : List Remaining) : (rs.map fun r => rowKey r.identity).Nodup ↔ (rs.map Remaining.identity).Nodup := by
    rw [← List.nodup_map_iff rowKey_injective, List.map_map]
    rfl
  constructor
  · rintro ⟨⟨_, ⟨⟩, -, hfew, -, hshape⟩, seen, hseen⟩
    obtain ⟨rs, hspells⟩ : ∃ rs, List.Forall₂ Remaining.Spells rows rs := by
      refine forall₂_of_mem_left fun row hrow => (spells_of_shape (hwf row hrow)).mp ⟨hshape row hrow, ?_⟩
      obtain ⟨before, after, hstep⟩ := foldlM_mem hseen hrow
      simp only [onRemaining, bind_eq_ok, item_eq_ok, require_eq_ok, exists_const] at hstep
      obtain ⟨_, -, _, -, _, -, _, -, _, -, uid, huid, reason, hreason, ⟨-, -, hknown⟩, -⟩ := hstep
      exact ⟨uid, reason, huid, hreason, hknown⟩
    exact ⟨rs, hspells, (hkeys rs).mp ((hfold hspells).mp hseen).2.1, hfew⟩
  · rintro ⟨rs, hspells, hdistinct, hfew⟩
    have hcanon : rows.map Json.canon = rs.map fun r => r.toJson.canon := by
      rw [← List.forall₂_eq_eq_eq, List.forall₂_map_left_iff, List.forall₂_map_right_iff]
      exact hspells
    refine ⟨⟨rows, rfl, Nat.zero_le _, hfew, fun _ => ?_, fun row hrow => ?_⟩, _, (hfold hspells).mpr
      ⟨hdigests hspells, (hkeys rs).mpr hdistinct, fun _ _ => List.not_mem_nil, rfl⟩⟩
    · rw [hcanon]
      refine List.Nodup.map_on (fun r hr s hs heq => ?_) hdistinct.of_map
      have hsame : r.identity = s.identity := by
        have hat : Remaining.At r.toJson s := (Remaining.spells_iff r.wf_toJson).mp heq
        have hkind : some (Json.str r.kind.name) = some (.str s.kind.name) := hat.kind
        have hnameSpace : some (Json.str r.nameSpace.text) = some (.str s.nameSpace.text) := hat.nameSpace
        have hname : some (Json.str r.name.text) = some (.str s.name.text) := hat.name
        rw [Remaining.identity, Remaining.identity, Kind.name_injective (Json.str.inj (Option.some.inj hkind)),
          Text.ext (Json.str.inj (Option.some.inj hnameSpace)), Text.ext (Json.str.inj (Option.some.inj hname))]
      exact List.inj_on_of_nodup_map hdistinct hr hs hsame
    · obtain ⟨r, -, hspelled⟩ := forall₂_mem_left hspells hrow
      exact ((spells_of_shape (hwf row hrow)).mpr ⟨r, hspelled⟩).1

end Transcript

/-! ## The two rules -/

/-- What the server says of a cleanup that leaves `rows`. -/
def cleanupPayload (digest : Digest) (rows : List Json) : Json :=
  .obj [("cleanupDigest", .str digest.text), ("state", .str (if rows = [] then "CLEAN" else "CLEANUP_PENDING")),
    ("remainingResources", .arr rows)]

section
variable {digest : Digest} {rows : List Json} {rs : List Remaining}

omit [Runtime] in
theorem wf_cleanupPayload (hrows : ∀ row ∈ rows, row.Wf) : (cleanupPayload digest rows).Wf := by
  have hnodup : (["cleanupDigest", "state", "remainingResources"] : List String).Nodup := by decide
  refine Json.wf_obj.mpr ⟨hnodup, ?_⟩
  simp only [List.forall_mem_cons]
  exact ⟨trivial, trivial, Json.wf_arr.mpr hrows, List.forall_mem_nil _⟩

omit [Runtime] in
theorem accepts_cleanupPayload (hrows : ∀ row ∈ rows, row.Wf) :
    (Shape.obj (payloadShapes .cleanupRecorded)).Accepts (cleanupPayload digest rows) ↔
      (Shape.arr 0 32 true remainingShape).Accepts (.arr rows) := by
  have hstate : (namesShape ["CLEAN", "CLEANUP_PENDING"]).Accepts (.str (if rows = [] then "CLEAN" else "CLEANUP_PENDING")) := by
    refine Shape.accepts_enum.mpr ⟨_, ?_, rfl⟩
    split <;> decide
  have hkeys : ∃ members, cleanupPayload digest rows = .obj members ∧
      ∀ k, k ∈ Json.keys members ↔ k ∈ (payloadShapes .cleanupRecorded).map Prod.fst := ⟨_, rfl, fun _ => Iff.rfl⟩
  rw [Shape.accepts_obj_iff (by decide) (wf_cleanupPayload hrows)]
  simp only [payloadShapes, List.forall_mem_cons]
  constructor
  · rintro ⟨-, -, -, ⟨_, hget, haccepts⟩, -⟩
    obtain rfl := Option.some.inj hget
    exact haccepts
  · intro h
    exact ⟨hkeys, ⟨_, rfl, accepts_digest_iff.mpr ⟨digest, rfl⟩⟩, ⟨_, rfl, hstate⟩, ⟨_, rfl, h⟩, List.forall_mem_nil _⟩

omit [Runtime] in
/-- No legal list of rows makes a payload too large. -/
theorem cleanupPayload_small (h : Legal rows rs) :
    (cleanupPayload digest rows).width ≤ 16384 ∧ (cleanupPayload digest rows).height ≤ 16 := by
  obtain ⟨hwidth, hheight⟩ := h.arr_small
  have hkeys : Json.textWidth "cleanupDigest" = 13 ∧ Json.textWidth "state" = 5 ∧ Json.textWidth "remainingResources" = 18 := by decide
  obtain ⟨hdigestKey, hstateKey, hremainingKey⟩ := hkeys
  have hdigest := Remaining.width_str digest.digest_plain
  have hlength := digest.digest_length
  have hstate : (Json.str (if rows = [] then "CLEAN" else "CLEANUP_PENDING")).width ≤ 17 := by split <;> decide
  constructor
  · rw [cleanupPayload, Json.width]
    simp only [Json.widthMembers, List.length_cons, List.length_nil, hdigestKey, hstateKey, hremainingKey, hdigest]
    omega
  · refine Json.heightMembers_le.mpr ?_
    simp only [List.forall_mem_cons]
    have harr : (Json.arr rows).height + 1 ≤ 16 := Nat.succ_le_of_lt (hheight.trans_lt (by decide))
    exact ⟨Nat.le_add_left 1 15, Nat.le_add_left 1 15, harr, List.forall_mem_nil _⟩

theorem valid_cleanupPayload (h : Legal rows rs) : Valid (cleanupPayload digest rows) := by
  have member {key : String} {v : Json} (h : Json.isPlain key = true ∧ key.length ≤ 32) (hv : ValidAt 1 v) :
      0 + 1 ≤ maxDepth ∧ TextValid key ∧ ValidAt (0 + 1) v := ⟨by decide, textValid_plain h.1 (h.2.trans (by decide)), hv⟩
  have text {s : String} (hplain : Json.isPlain s = true) (hlength : s.length ≤ 128) : ValidAt 1 (.str s) :=
    validAt_str.mpr ⟨by decide, textValid_plain hplain (hlength.trans (by decide))⟩
  have hstate : ValidAt 1 (.str (if rows = [] then "CLEAN" else "CLEANUP_PENDING")) := by
    split <;> exact text (by decide) (by decide)
  refine validAt_obj.mpr ⟨by decide, (by decide : 3 ≤ _), ?_⟩
  simp only [List.forall_mem_cons]
  exact ⟨member (Json.shortKey rfl) (text digest.digest_plain (digest.digest_length.trans (by decide))),
    member (Json.shortKey rfl) hstate, member (Json.shortKey rfl) (h.valid_arr (by decide)), List.forall_mem_nil _⟩

variable {t : Transcript} {binding previous : Digest} {c : Case} {now : TimeText}

end

end

end HarnessConformance.Admission
