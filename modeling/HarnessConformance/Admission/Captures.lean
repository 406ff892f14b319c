import HarnessConformance.Equality
import HarnessConformance.Admission.Chronology
import HarnessConformance.Admission.Qualification

/-! # Accepted captures

What holds of a capture that is accepted against a record: its times, and the files and executable mappings of the
role that it is of. -/

namespace HarnessConformance.Admission
open Lib Lib.Outcome Lib.Lines
set_option autoImplicit false

/-! ## Values compared -/

/-- A part of a document without booleans: `==` tells it apart. -/
structure Settled (v : Json) : Prop where
  wf : v.Wf
  canon : v.canon = v
  boolFree : v.boolFree = true

namespace Settled

variable {v w : Json}

theorem eq_of_pyEq (hv : Settled v) (hw : Settled w) (h : pyEq v w = true) : v = w := by
  have heq := canon_eq_of_boolFree hv.boolFree hw.boolFree hv.wf hw.wf h
  rwa [hv.canon, hw.canon] at heq

theorem get? {k : String} (h : Settled v) (hk : v.get? k = some w) : Settled w := by
  refine ⟨h.wf.get? hk, Json.canon_get? h.wf h.canon hk, ?_⟩
  cases v with
  | obj members => exact Json.boolFree_obj.mp h.boolFree _ (Json.lookup_mem hk)
  | _ => cases hk

theorem item {vs : List Json} (h : Settled (.arr vs)) (hw : w ∈ vs) : Settled w := by
  refine ⟨Json.wf_arr.mp h.wf w hw, ?_, Json.boolFree_arr.mp h.boolFree w hw⟩
  have hcanon := h.canon
  rw [Json.canon_arr, Json.arr.injEq] at hcanon
  exact (List.map_eq_map_iff.mp (hcanon.trans (List.map_id vs).symm)) w hw

end Settled

/-! ## Documents -/

section
variable [Runtime]

omit [Runtime] in
theorem asked_qualification (variant : QualificationVariant) : Pinned.Asked Pinned.qualificationDefinitions variant.spec := by
  cases variant with
  | record => exact @Pinned.Asked.qualification "record" _ (by decide) rfl
  | capture => exact @Pinned.Asked.qualification "capture" _ (by decide) rfl

/-- What the reader of records and captures accepts. -/
structure Qualified (variant : QualificationVariant) (v : Json) : Prop where
  settled : Settled v
  valid : ∃ ρ, Spec.Reads Pinned.qualificationDefinitions ρ ∧ variant.spec.Valid ρ v

omit [Runtime] in
theorem bars_qualification : ∀ p ∈ Pinned.qualificationDefinitions, ∀ t ∈ p.2.nodes, t.barsBooleans = true := by
  have h : (Pinned.qualificationDefinitions.all fun p => p.2.nodes.all Spec.barsBooleans) = true := by decide +kernel
  simpa only [List.all_eq_true] using h

omit [Runtime] in
theorem boolFree_qualification {variant : QualificationVariant} {ρ : String → Json → Prop} {v : Json}
    (hreads : Spec.Reads Pinned.qualificationDefinitions ρ) (h : variant.spec.Valid ρ v) : v.boolFree = true := by
  have hfit := (asked_qualification variant).fit.2
  rw [Pinned.Fit, Bool.and_eq_true] at hfit
  have hmem : ∃ name, (name, variant.spec) ∈ Pinned.qualificationDefinitions := by
    cases variant with
    | record => exact ⟨"record", Spec.mem_of_lookup rfl⟩
    | capture => exact ⟨"capture", Spec.mem_of_lookup rfl⟩
  obtain ⟨name, hmem⟩ := hmem
  exact Spec.boolFree_of_valid (bars_qualification _ hmem) (Spec.boolFree_of_reads hreads bars_qualification hfit.2) h

theorem of_qualificationDocument {value : Input} {variant : QualificationVariant} {v : Json} (hwf : value.Wf)
    (h : qualificationDocument value variant = .ok v) : document value 262144 = .ok v ∧ Qualified variant v := by
  simp only [qualificationDocument, bind_eq_ok, require_eq_ok, exists_const, pure_eq_ok] at h
  obtain ⟨w, hdocument, -, _, hshape, rfl⟩ := h
  have hcanonical := document_canonical hdocument
  obtain ⟨ρ, hreads⟩ := (asked_qualification variant).exists_reads
  have hdecides := (asked_qualification variant).decides hreads le_rfl w (isDocument_of_document hwf le_rfl hdocument)
  have hvalid := hdecides.2.mp hshape
  exact ⟨hdocument, ⟨hcanonical.wf, hcanonical.canon, boolFree_qualification hreads hvalid⟩, ρ, hreads, hvalid⟩

/-! ## The record -/

omit [Runtime] in
theorem textsOf_arr {vs : List Json} {texts : List String} : textsOf (.arr vs) = .ok texts ↔ vs = texts.map .str := by
  simp only [textsOf, iterate, ok_bind, mapM_eq_ok]
  constructor
  · intro h
    induction h with
    | nil => rfl
    | @cons v t vs texts hv _ ih =>
      cases v with
      | str s =>
        obtain rfl := pure_eq_ok.mp hv
        rw [ih, List.map_cons]
      | _ => cases hv
  · rintro rfl
    exact List.forall₂_map_left_iff.mpr (List.forall₂_same.mpr fun t _ => rfl)

omit [Runtime] in
theorem of_inventory {rows : List Json} {files : List (String × Json)} (h : inventory rows = .ok files) :
    files.map Prod.snd = rows ∧ ∀ f ∈ files, f.2.get? "path" = some (.str f.1) := by
  rw [inventory, mapM_eq_ok] at h
  induction h with
  | nil => exact ⟨rfl, nofun⟩
  | @cons row f rows files hrow _ ih =>
    simp only [bind_eq_ok, textItem_eq_ok, pure_eq_ok] at hrow
    obtain ⟨path, hpath, rfl⟩ := hrow
    exact ⟨by rw [List.map_cons, ih.1], List.forall_mem_cons.mpr ⟨hpath, ih.2⟩⟩

omit [Runtime] in
/-- The paths of the rows are distinct when those of the inventory are. -/
theorem nodup_paths {files : List (String × Json)} (h : ∀ f ∈ files, f.2.get? "path" = some (.str f.1)) :
    ((files.map Prod.snd).map fun row => row.get? "path").Nodup ↔ (files.map Prod.fst).Nodup := by
  have hkeys : (files.map Prod.snd).map (fun row => row.get? "path") =
      (files.map Prod.fst).map fun p => some (Json.str p) := by
    rw [List.map_map, List.map_map]
    exact List.map_congr_left h
  rw [hkeys]
  exact List.nodup_map_iff fun p q h => Json.str.inj (Option.some.inj h)

/-- A row that one of the paths names. -/
def isNamed (paths : List String) (row : Json) : Bool := paths.any fun p => row.get? "path" = some (.str p)

/-- What the record enrols for a role: paths, each of one of its files, and files of paths of their own. -/
structure Enrolment (record : Json) (name : String) (paths : List String) (rows : List Json) : Prop where
  selected : ∃ roles role, record.get? "roles" = some roles ∧ roles.get? name = some role ∧
    role.get? "filePaths" = some (.arr (paths.map .str))
  files : record.get? "files" = some (.arr rows)
  distinct : (rows.map fun row => row.get? "path").Nodup
  covered : ∀ p ∈ paths, ∃ row ∈ rows, row.get? "path" = some (.str p)

omit [Runtime] in
/-- The files of a record, and the segments of each. -/
theorem Qualified.rows {record : Json} (h : Qualified .record record) : ∃ rows, record.get? "files" = some (.arr rows) ∧
    ∀ row ∈ rows, ∃ segments, row.get? "executableSegments" = some (.arr segments) ∧
      ∀ s ∈ segments, ∃ ms, s = .obj ms ∧ ∀ k ∈ Json.keys ms, k ∈ ["offset", "length", "permissions"] := by
  obtain ⟨ρ, hreads, hvalid⟩ := h.valid
  obtain ⟨files, hfiles, hlist⟩ := @Spec.Valid.get? ρ record "files" _ hvalid _ rfl
  obtain ⟨rows, rfl, -, -, -, hrows⟩ := Spec.valid_array.mp hlist
  refine ⟨rows, hfiles, fun row hrow => ?_⟩
  have hfile := (hreads "file" _ rfl row).mp (Spec.valid_reference.mp (hrows row hrow))
  obtain ⟨value, hvalue, hsegments⟩ := @Spec.Valid.get? ρ row "executableSegments" _ hfile _ rfl
  obtain ⟨segments, rfl, -, -, -, hall⟩ := Spec.valid_array.mp hsegments
  refine ⟨segments, hvalue, fun s hs => ?_⟩
  obtain ⟨ms, rfl, hkeys, -⟩ := Spec.valid_object.mp ((hreads "segment" _ rfl s).mp (Spec.valid_reference.mp (hall s hs)))
  exact ⟨ms, rfl, fun k hk => (hkeys k).mp hk⟩

omit [Runtime] in
/-- The paths of a role of a record are a list. -/
theorem Qualified.filePaths {record roles role : Json} {name : String} (h : Qualified .record record)
    (hroles : record.get? "roles" = some roles) (hrole : roles.get? name = some role) :
    ∃ vs, role.get? "filePaths" = some (.arr vs) := by
  obtain ⟨ρ, hreads, hvalid⟩ := h.valid
  obtain ⟨roles', hroles', hobject⟩ := @Spec.Valid.get? ρ record "roles" _ hvalid _ rfl
  obtain rfl := Option.some.inj (hroles.symm.trans hroles')
  obtain ⟨members, rfl, hkeys, hmembers⟩ := Spec.valid_object.mp hobject
  have hmem := Json.lookup_mem hrole
  obtain ⟨p, hp, hvalid⟩ := Spec.ValidAt.exists (hmembers _ hmem) ((hkeys name).mp (List.mem_map_of_mem hmem))
  have hset : ∃ w, role.get? "filePaths" = some w ∧ (Pinned.set 1 128 (Spec.reference "path")).Valid ρ w := by
    simp only [List.mem_cons, List.not_mem_nil, or_false] at hp
    rcases hp with rfl | rfl | rfl | rfl <;> exact @Spec.Valid.get? ρ role "filePaths" _ hvalid _ rfl
  obtain ⟨w, hw, hlist⟩ := hset
  obtain ⟨vs, rfl, -⟩ := Spec.valid_array.mp hlist
  exact ⟨vs, hw⟩

omit [Runtime] in
theorem of_requireFiles {record : Json} {rows : List Json} {files : List (String × Json)}
    (hrows : record.get? "files" = some (.arr rows)) (h : requireFiles record = .ok files) :
    files.map Prod.snd = rows ∧ (∀ f ∈ files, f.2.get? "path" = some (.str f.1)) ∧ (files.map Prod.fst).Nodup := by
  simp only [requireFiles, bind_eq_ok, item_eq_ok, hrows, Option.some.injEq, exists_eq_left', iterate, Except.ok.injEq,
    require_eq_ok, pure_eq_ok] at h
  obtain ⟨found, hfound, sizes, -, _, ⟨hnodup, -⟩, _, -, rfl⟩ := h
  obtain ⟨hsnd, hpaths⟩ := of_inventory hfound
  exact ⟨hsnd, hpaths, hnodup⟩

omit [Runtime] in
theorem requireRole_selected {profile role : Json} {files : List (String × Json)} {ids : List Json} {name : String}
    {selected : List String} (h : requireRole profile files ids name role = .ok selected) :
    (∃ value, role.get? "filePaths" = some value ∧ textsOf value = .ok selected) ∧ selected ⊆ files.map Prod.fst := by
  simp only [requireRole, bind_eq_ok, pure_eq_ok] at h
  obtain ⟨found, hfiles, _, -, _, -, _, -, _, -, rfl⟩ := h
  simp only [requireRoleFiles, bind_eq_ok, item_eq_ok, textItem_eq_ok, require_eq_ok, pure_eq_ok] at hfiles
  obtain ⟨_, -, _, -, _, -, value, hvalue, texts, htexts, _, -, _, ⟨hsub, -⟩, _, -, _, -, _, -, _, -, _, -, _, -, rfl⟩ := hfiles
  exact ⟨⟨value, hvalue, htexts⟩, hsub⟩

variable [AddressReader]

/-- What an accepted record enrols for one of its roles. -/
theorem enrolment_of_record {record profile endpoints roles role : Json} {name : String} (hq : Qualified .record record)
    (h : requireRecord record profile endpoints = .ok ()) (hroles : record.get? "roles" = some roles)
    (hrole : roles.get? name = some role) : ∃ paths rows, Enrolment record name paths rows ∧
      role.get? "filePaths" = some (.arr (paths.map .str)) := by
  obtain ⟨rows, hrows, -⟩ := hq.rows
  obtain ⟨vs, hvs⟩ := hq.filePaths hroles hrole
  simp only [requireRecord, bind_eq_ok, item_eq_ok, hroles, Option.some.injEq, exists_eq_left', membersOf_eq_ok] at h
  obtain ⟨_, -, ids, -, files, hfiles, members, rfl, used, hused, -⟩ := h
  obtain ⟨hsnd, hpaths, hnodup⟩ := of_requireFiles hrows hfiles
  obtain ⟨selected, -, hselected⟩ := forall₂_mem_left (mapM_eq_ok.mp hused) (Json.lookup_mem hrole)
  obtain ⟨⟨value, hvalue, htexts⟩, hsub⟩ := requireRole_selected hselected
  obtain rfl := Option.some.inj (hvs.symm.trans hvalue)
  obtain rfl := textsOf_arr.mp htexts
  refine ⟨selected, rows, ⟨⟨_, role, hroles, hrole, hvs⟩, hrows, ?_, fun p hp => ?_⟩, hvs⟩
  · rw [← hsnd]
    exact (nodup_paths hpaths).mpr hnodup
  · obtain ⟨f, hf, rfl⟩ := List.mem_map.mp (hsub hp)
    exact ⟨f.2, hsnd ▸ List.mem_map_of_mem hf, hpaths f hf⟩

end

/-! ## The files observed -/

/-- A file of a capture, as the checks read it. -/
structure FileRow where
  path : String
  device : ℤ
  inode : ℤ
  entry : Json
  segments : List Json

namespace FileRow

structure Of (value : Json) (f : FileRow) : Prop where
  entry : value.get? "entry" = some f.entry
  path : f.entry.get? "path" = some (.str f.path)
  device : value.get? "device" = some (.int f.device)
  inode : value.get? "inode" = some (.int f.inode)
  segments : f.entry.get? "executableSegments" = some (.arr f.segments)

def identity (f : FileRow) : ℤ × ℤ := (f.device, f.inode)

/-- The executable mapping of a segment of the file. -/
def mapping (f : FileRow) (segment : Json) : Json :=
  match segment with
  | .obj ms => .obj (("path", .str f.path) :: (ms ++ [("device", .int f.device), ("inode", .int f.inode)]))
  | v => v

def mappings (f : FileRow) : List Json := f.segments.map f.mapping

end FileRow

/-- What one turn of the loop over the files finds. -/
structure Found (expected : List (String × Json)) (a : String × Json) (f : FileRow) : Prop where
  file : expected.lookup a.1 = some f.entry
  path : f.path = a.1
  device : a.2.get? "device" = some (.int f.device)
  inode : a.2.get? "inode" = some (.int f.inode)
  entry : ∃ entry, a.2.get? "entry" = some entry ∧ pyEq entry f.entry = true
  segments : f.entry.get? "executableSegments" = some (.arr f.segments)

theorem mappingOf_eq_ok {path : String} {device inode : ℤ} {segment v : Json} :
    mappingOf path device inode segment = .ok v ↔ ∃ ms, segment = .obj ms ∧
      v = .obj (("path", .str path) :: (ms ++ [("device", .int device), ("inode", .int inode)])) := by
  simp only [mappingOf, bind_eq_ok, membersOf_eq_ok, pure_eq_ok]
  exact exists_congr fun ms => and_congr_right fun _ => eq_comm

theorem mapM_mappingOf {f : FileRow} {segments found : List Json}
    (h : segments.mapM (mappingOf f.path f.device f.inode) = .ok found) : found = segments.map f.mapping := by
  have hall := mapM_eq_ok.mp h
  clear h
  induction hall with
  | nil => rfl
  | cons hv _ ih =>
    obtain ⟨ms, rfl, rfl⟩ := mappingOf_eq_ok.mp hv
    rw [List.map_cons, ih, FileRow.mapping]

theorem fileAt_eq_ok {files : List (String × Json)} {path : String} {row : Json} :
    fileAt files path = .ok row ↔ files.lookup path = some row := by
  unfold fileAt
  cases files.lookup path <;> simp

/-- One turn of the loop. -/
theorem requireObservedFile_step {expected : List (String × Json)} {s t : FileScan} {a : String × Json}
    (hsegments : ∀ row, expected.lookup a.1 = some row → ∃ segments, row.get? "executableSegments" = some (.arr segments))
    (h : requireObservedFile expected s a = .ok t) :
    ∃ f, Found expected a f ∧ f.identity ∉ s.seen ∧ t = ⟨f.identity :: s.seen, s.mappings ++ f.mappings⟩ := by
  obtain ⟨path, row⟩ := a
  simp only [requireObservedFile, bind_eq_ok, intItem_eq_ok, item_eq_ok, fileAt_eq_ok, require_eq_ok, pure_eq_ok] at h
  obtain ⟨device, hdevice, inode, hinode, file, hfile, entry, hentry, _, -, _, -, _, -, _, -, _, ⟨hseen, heq, -⟩, value, hvalue,
    segments, hsegs, found, hfound, rfl⟩ := h
  obtain ⟨segs, hsegs'⟩ := hsegments file hfile
  obtain rfl := Option.some.inj (hvalue.symm.trans hsegs')
  obtain rfl := Except.ok.inj hsegs
  refine ⟨⟨path, device, inode, file, segs⟩, ⟨hfile, rfl, hdevice, hinode, ⟨entry, hentry, heq⟩, hsegs'⟩, hseen, ?_⟩
  rw [mapM_mappingOf (f := ⟨path, device, inode, file, segs⟩) hfound]
  rfl

/-- The whole loop: every file is found once, on an inode of its own. -/
theorem requireObservedFile_run {expected actual : List (String × Json)} {s t : FileScan}
    (hsegments : ∀ path row, expected.lookup path = some row → ∃ segments, row.get? "executableSegments" = some (.arr segments))
    (hs : s.seen.Nodup) (h : actual.foldlM (requireObservedFile expected) s = .ok t) :
    ∃ files, List.Forall₂ (Found expected) actual files ∧ t.seen = (files.map FileRow.identity).reverse ++ s.seen ∧
      t.seen.Nodup ∧ t.mappings = s.mappings ++ files.flatMap FileRow.mappings := by
  induction actual generalizing s with
  | nil =>
    obtain rfl := pure_eq_ok.mp h
    exact ⟨[], .nil, by simp, hs, by simp⟩
  | cons a actual ih =>
    obtain ⟨u, hu, hrest⟩ := foldlM_cons_eq_ok.mp h
    obtain ⟨f, hf, hfresh, rfl⟩ := requireObservedFile_step (hsegments a.1) hu
    obtain ⟨files, hfiles, hseen, hnodup, hmappings⟩ := ih (List.nodup_cons.mpr ⟨hfresh, hs⟩) hrest
    exact ⟨f :: files, .cons hf hfiles, by simp [hseen], hnodup, by simp [hmappings]⟩

/-- The lists of a capture. -/
theorem Qualified.lists {capture : Json} (h : Qualified .capture capture) :
    ∃ observed maps, capture.get? "files" = some (.arr observed) ∧ capture.get? "executableMaps" = some (.arr maps) := by
  obtain ⟨ρ, -, hvalid⟩ := h.valid
  obtain ⟨files, hfiles, hlist⟩ := @Spec.Valid.get? ρ capture "files" _ hvalid _ rfl
  obtain ⟨maps, hmaps, hlist'⟩ := @Spec.Valid.get? ρ capture "executableMaps" _ hvalid _ rfl
  obtain ⟨observed, rfl, -⟩ := Spec.valid_array.mp hlist
  obtain ⟨found, rfl, -⟩ := Spec.valid_array.mp hlist'
  exact ⟨observed, found, hfiles, hmaps⟩

theorem isNamed_iff {paths : List String} {row : Json} {p : String} (h : row.get? "path" = some (.str p)) :
    isNamed paths row = true ↔ p ∈ paths := by
  simp only [isNamed, List.any_eq_true, decide_eq_true_eq, h, Option.some.injEq, Json.str.injEq]
  exact ⟨fun ⟨q, hq, heq⟩ => heq ▸ hq, fun hp => ⟨p, hp, rfl⟩⟩

/-- The files that the checks expect are the rows named. -/
theorem of_enrolledFiles {record role : Json} {name : String} {paths : List String} {rows : List Json}
    {expected : List (String × Json)} (he : Enrolment record name paths rows)
    (hpaths : role.get? "filePaths" = some (.arr (paths.map .str))) (h : enrolledFiles record role = .ok expected) :
    expected.map Prod.snd = rows.filter (isNamed paths) ∧ (expected.map Prod.fst).Nodup ∧
      ∀ f ∈ expected, f.2 ∈ rows ∧ f.2.get? "path" = some (.str f.1) := by
  simp only [enrolledFiles, bind_eq_ok, item_eq_ok, hpaths, he.files, Option.some.injEq, exists_eq_left', textsOf_arr, iterate,
    Except.ok.injEq, pure_eq_ok] at h
  obtain ⟨selected, hselected, files, hfiles, rfl⟩ := h
  obtain rfl := List.map_injective_iff.mpr (fun p q h => Json.str.inj h) hselected
  obtain ⟨rfl, hnames⟩ := of_inventory hfiles
  have hfilter : files.filter (fun f => f.1 ∈ paths) = files.filter fun f => isNamed paths f.2 :=
    List.filter_congr fun f hf => by rw [Bool.eq_iff_iff, decide_eq_true_eq, isNamed_iff (hnames f hf)]
  have hnodup : (files.map Prod.fst).Nodup := (nodup_paths hnames).mp he.distinct
  refine ⟨?_, hnodup.sublist (List.filter_sublist.map _), fun f hf => ?_⟩
  · rw [hfilter, List.filter_map]
    rfl
  · have hmem := List.mem_of_mem_filter hf
    exact ⟨List.mem_map_of_mem hmem, hnames f hmem⟩

theorem forall₂_imp_mem {α β : Type} {R S : α → β → Prop} {xs : List α} {ys : List β} (h : List.Forall₂ R xs ys)
    (himp : ∀ x ∈ xs, ∀ y, R x y → S x y) : List.Forall₂ S xs ys := by
  induction h with
  | nil => exact .nil
  | cons hxy _ ih =>
    rw [List.forall_mem_cons] at himp
    exact .cons (himp.1 _ hxy) (ih himp.2)

theorem of_observedRows {observed : List Json} {actual : List (String × Json)}
    (h : (observed.mapM fun row => do pure (← textItem (← item row "entry") "path", row)) = .ok actual) :
    actual.map Prod.snd = observed := by
  have hall := mapM_eq_ok.mp h
  clear h
  induction hall with
  | nil => rfl
  | cons hrow _ ih =>
    simp only [bind_eq_ok, pure_eq_ok] at hrow
    obtain ⟨_, -, path, -, rfl⟩ := hrow
    rw [List.map_cons, ih]

/-- The files of an accepted capture are the rows named, each on an inode of its own. -/
theorem of_requireObservedFiles {record capture role : Json} {name : String} {paths : List String} {rows observed mappings : List Json}
    (hrecord : Qualified .record record) (hcapture : Qualified .capture capture) (he : Enrolment record name paths rows)
    (hpaths : role.get? "filePaths" = some (.arr (paths.map .str))) (hobserved : capture.get? "files" = some (.arr observed))
    (h : requireObservedFiles record capture role = .ok mappings) :
    ∃ files, List.Forall₂ FileRow.Of observed files ∧ (files.map FileRow.entry).Perm (rows.filter (isNamed paths)) ∧
      (files.map FileRow.identity).Nodup ∧ mappings = files.flatMap FileRow.mappings := by
  simp only [requireObservedFiles, bind_eq_ok, item_eq_ok, hobserved, Option.some.injEq, exists_eq_left', iterate,
    Except.ok.injEq, require_eq_ok, exists_const, pure_eq_ok] at h
  obtain ⟨expected, hexpected, actual, hactual, ⟨hdistinct, hsame⟩, s, hs, rfl⟩ := h
  obtain ⟨hrows, hnodup, hnames⟩ := of_enrolledFiles he hpaths hexpected
  obtain ⟨rows', hrows', hsegments⟩ := hrecord.rows
  obtain rfl := Json.arr.inj (Option.some.inj (he.files.symm.trans hrows'))
  have hlookup {path : String} {row : Json} (h : expected.lookup path = some row) : row ∈ rows ∧ row.get? "path" = some (.str path) :=
    hnames _ (Json.lookup_mem h)
  obtain ⟨files, hfiles, hseen, hinodes, hmappings⟩ := requireObservedFile_run (fun path row h => by
    obtain ⟨segments, hsegs, -⟩ := hsegments row (hlookup h).1
    exact ⟨segments, hsegs⟩) List.nodup_nil hs
  rw [hseen, List.append_nil, List.nodup_reverse] at hinodes
  obtain rfl := of_observedRows hactual
  have hrow : ∀ a ∈ actual, Settled a.2 := fun a ha =>
    (hcapture.settled.get? hobserved).item (List.mem_map_of_mem ha)
  have hof : ∀ a ∈ actual, ∀ f, Found expected a f → FileRow.Of a.2 f := by
    intro a ha f hf
    obtain ⟨entry, hentry, heq⟩ := hf.entry
    obtain ⟨hmem, hpath⟩ := hlookup hf.file
    have hsame : entry = f.entry :=
      ((hrow a ha).get? hentry).eq_of_pyEq ((hrecord.settled.get? he.files).item hmem) heq
    exact ⟨hsame ▸ hentry, hf.path ▸ hpath, hf.device, hf.inode, hf.segments⟩
  refine ⟨files, List.forall₂_map_left_iff.mpr (forall₂_imp_mem hfiles hof), ?_, hinodes, hmappings⟩
  have hpaths : files.map FileRow.path = actual.map Prod.fst := by
    clear hof hrow hs hseen hmappings hinodes hactual hdistinct hsame hobserved
    induction hfiles with
    | nil => rfl
    | cons hf _ ih => rw [List.map_cons, List.map_cons, hf.path, ih]
  have hperm : (files.map fun f => (f.path, f.entry)).Perm expected := by
    have hnodup' : (files.map fun f => (f.path, f.entry)).Nodup := by
      refine List.Nodup.of_map Prod.fst ?_
      rw [List.map_map]
      exact hpaths ▸ hdistinct
    refine (List.perm_ext_iff_of_nodup hnodup' hnodup.of_map).mpr fun e => ⟨fun he => ?_, fun he => ?_⟩
    · obtain ⟨f, hf, rfl⟩ := List.mem_map.mp he
      obtain ⟨a, -, hfound⟩ := forall₂_mem_right hfiles hf
      exact hfound.path ▸ Json.lookup_mem hfound.file
    · obtain ⟨-, hsub⟩ := Bool.and_eq_true_iff.mp hsame
      have hkey : e.1 ∈ actual.map Prod.fst := of_decide_eq_true hsub (List.mem_map_of_mem he)
      obtain ⟨a, ha, hkey⟩ := List.mem_map.mp hkey
      obtain ⟨f, hf, hfound⟩ := forall₂_mem_left hfiles ha
      have hentry : f.entry = e.2 := by
        have hfile := hfound.file
        rw [hkey, Json.lookup_of_mem hnodup he] at hfile
        exact (Option.some.inj hfile).symm
      exact List.mem_map.mpr ⟨f, hf, by rw [hfound.path, hkey, hentry]⟩
  have hmap := hperm.map Prod.snd
  rwa [List.map_map, hrows] at hmap

/-! ## The executable mappings -/

/-- Lists with the same texts up to order hold the same values up to order. -/
theorem perm_of_texts {vs ws : List Json} (hvs : ∀ v ∈ vs, v.Wf) (hws : ∀ w ∈ ws, w.Wf)
    (h : (vs.map canonicalText).Perm (ws.map canonicalText)) : (vs.map Json.canon).Perm (ws.map Json.canon) := by
  have htext : List.Forall₂ (fun v t => canonicalText v = t) vs (vs.map canonicalText) :=
    List.forall₂_map_right_iff.mpr (List.forall₂_same.mpr fun _ _ => rfl)
  have hleft : Relation.Comp (List.Forall₂ fun v t => canonicalText v = t) List.Perm vs (ws.map canonicalText) := ⟨_, htext, h⟩
  rw [List.forall₂_comp_perm_eq_perm_comp_forall₂] at hleft
  obtain ⟨us, hperm, hus⟩ := hleft
  have hcanon : us.map Json.canon = ws.map Json.canon := by
    have hall : ∀ u ∈ us, u.Wf := fun u hu => hvs u (hperm.mem_iff.mpr hu)
    clear hperm htext h
    rw [List.forall₂_map_right_iff] at hus
    induction hus with
    | nil => rfl
    | @cons u w us ws huw _ ih =>
      rw [List.forall_mem_cons] at hws hall
      rw [List.map_cons, List.map_cons, (canonicalText_injective hall.1 hws.1).mp huw, ih hws.2 hall.2]
  exact hcanon ▸ hperm.map Json.canon

section
variable [Runtime]

theorem of_requireMappings {capture : Json} {maps mappings : List Json} (hcapture : Qualified .capture capture)
    (hmaps : capture.get? "executableMaps" = some (.arr maps)) (hwf : ∀ m ∈ mappings, m.Wf)
    (h : requireMappings capture mappings = .ok ()) : maps.Perm (mappings.map Json.canon) := by
  have htexts {vs : List Json} {ts : List Bytes} (h : vs.mapM canonicalBytes = .ok ts) : ts = vs.map canonicalText := by
    have hall := mapM_eq_ok.mp h
    clear h
    induction hall with
    | nil => rfl
    | cons hv _ ih => rw [List.map_cons, ih, (canonicalBytes_eq_ok.mp hv).2]
  simp only [requireMappings, bind_eq_ok, item_eq_ok, hmaps, Option.some.injEq, exists_eq_left', iterate, Except.ok.injEq,
    require_eq_ok] at h
  obtain ⟨expected, hexpected, observed, hobserved, hsort⟩ := h
  obtain rfl := htexts hexpected
  obtain rfl := htexts hobserved
  have hsettled := hcapture.settled.get? hmaps
  have hperm : (maps.map canonicalText).Perm (mappings.map canonicalText) :=
    (List.perm_insertionSort _ _).symm.trans (hsort ▸ List.perm_insertionSort _ _)
  have hcanon : maps.map Json.canon = maps :=
    (List.map_eq_map_iff.mpr fun v hv => (hsettled.item hv).canon).trans (List.map_id maps)
  have hvalues := perm_of_texts (fun v hv => (hsettled.item hv).wf) hwf hperm
  rwa [hcanon] at hvalues

omit [Runtime] in
/-- The mappings of the files of a record have no repeated keys. -/
theorem wf_mappings {f : FileRow} (hsettled : Settled (.arr f.segments))
    (hsegments : ∀ s ∈ f.segments, ∃ ms, s = .obj ms ∧ ∀ k ∈ Json.keys ms, k ∈ ["offset", "length", "permissions"]) :
    ∀ m ∈ f.mappings, m.Wf := by
  intro m hm
  obtain ⟨segment, hsegment, rfl⟩ := List.mem_map.mp hm
  obtain ⟨ms, rfl, hkeys⟩ := hsegments segment hsegment
  obtain ⟨hnodup, hmembers⟩ := Json.wf_obj.mp (hsettled.item hsegment).wf
  have hfresh {k : String} (hk : k ∉ ["offset", "length", "permissions"]) : k ∉ Json.keys ms := fun h => hk (hkeys k h)
  refine Json.wf_obj.mpr ⟨?_, ?_⟩
  · have hlist : Json.keys (("path", Json.str f.path) :: (ms ++ [("device", .int f.device), ("inode", .int f.inode)])) =
        "path" :: (Json.keys ms ++ ["device", "inode"]) := by simp [Json.keys]
    have hpath := hfresh (k := "path") (by decide)
    have hdevice := hfresh (k := "device") (by decide)
    have hinode := hfresh (k := "inode") (by decide)
    rw [hlist, List.nodup_cons, List.nodup_append]
    refine ⟨by simp [hpath], hnodup, by decide, fun k hk l hl heq => ?_⟩
    subst heq
    simp only [List.mem_cons, List.not_mem_nil, or_false] at hl
    rcases hl with rfl | rfl
    · exact hdevice hk
    · exact hinode hk
  · refine List.forall_mem_cons.mpr ⟨trivial, List.forall_mem_append.mpr ⟨hmembers, ?_⟩⟩
    simp [Json.Wf]

/-! ## One capture -/

/-- The times of a capture. -/
structure Inspection where
  started : ℤ
  finished : ℤ
  deadline : ℤ
  observedAt : Instant

namespace Inspection

structure Of (capture : Json) (i : Inspection) : Prop where
  started : capture.get? "inspectionStartedMs" = some (.int i.started)
  finished : capture.get? "inspectionFinishedMs" = some (.int i.finished)
  deadline : capture.get? "deadlineMs" = some (.int i.deadline)
  observedAt : ∃ text, capture.get? "observedAt" = some text ∧ time text = .ok i.observedAt

/-- A short inspection, before its deadline and in the window of the record's scope. -/
structure Timely (record : Json) (i : Inspection) : Prop where
  order : i.started ≤ i.finished ∧ i.finished < i.deadline
  short : i.finished - i.started ≤ 2000
  lifetime : i.deadline - i.started ≤ 900000
  window : ∃ scope validFrom expiresAt first last, record.get? "scope" = some scope ∧
    scope.get? "validFrom" = some validFrom ∧ scope.get? "expiresAt" = some expiresAt ∧ time validFrom = .ok first ∧
    time expiresAt = .ok last ∧ first ≤ i.observedAt ∧ i.observedAt < last

end Inspection

/-- The files of the capture are those enrolled, each on an inode of its own, and its executable mappings are their segments. -/
def Enrolled (record : Json) (name : String) (capture : Json) : Prop :=
  ∃ paths rows observed files maps, Enrolment record name paths rows ∧ capture.get? "files" = some (.arr observed) ∧
    List.Forall₂ FileRow.Of observed files ∧ (files.map FileRow.entry).Perm (rows.filter (isNamed paths)) ∧
    (files.map FileRow.identity).Nodup ∧ capture.get? "executableMaps" = some (.arr maps) ∧
    maps.Perm ((files.flatMap FileRow.mappings).map Json.canon)

/-- What the run theorem says of a capture. -/
structure Reading where
  document : Json
  inspection : Inspection

structure Accepted (record : Json) (name : String) (capture : Input) (r : Reading) : Prop where
  document : document capture 262144 = .ok r.document
  qualified : Qualified .capture r.document
  inspection : r.inspection.Of r.document
  timely : r.inspection.Timely record
  enrolled : Enrolled record name r.document

omit [Runtime] in
theorem of_requireInspection {record capture : Json} (h : requireInspection record capture = .ok ()) :
    ∃ i : Inspection, i.Of capture ∧ i.Timely record := by
  simp only [requireInspection, bind_eq_ok, intItem_eq_ok, item_eq_ok, require_eq_ok, exists_const] at h
  obtain ⟨started, hstarted, finished, hfinished, deadline, hdeadline, ⟨horder, hbefore, hshort, hlifetime⟩, text, htext, now, hnow,
    scope, hscope, validFrom, hvalidFrom, first, hfirst, expiresAt, hexpiresAt, last, hlast, hwindow⟩ := h
  refine ⟨⟨started, finished, deadline, now⟩, ⟨hstarted, hfinished, hdeadline, text, htext, hnow⟩, ⟨horder, hbefore⟩, hshort,
    hlifetime, ?_⟩
  exact ⟨scope, validFrom, expiresAt, first, last, hscope, hvalidFrom, hexpiresAt, hfirst, hlast, hwindow⟩

theorem of_requireCaptureBinding {record capture role entry : Json} (h : requireCaptureBinding record capture role = .ok entry) :
    ∃ name roles, role = .str name ∧ record.get? "roles" = some roles ∧ roles.get? name = some entry := by
  simp only [requireCaptureBinding, bind_eq_ok, item_eq_ok, membersOf_eq_ok] at h
  obtain ⟨_, hroles, members, rfl, h⟩ := h
  cases role with
  | str name =>
    simp only [bind_eq_ok, item_eq_ok] at h
    obtain ⟨_, -, _, -, _, -, _, -, _, -, _, -, hentry⟩ := h
    exact ⟨name, _, rfl, hroles, hentry⟩
  | _ => cases h

variable [AddressReader]

/-- A capture that is accepted by itself. -/
theorem of_requireCapture {record capture profile endpoints role : Json} (hrecord : Qualified .record record)
    (hcapture : Qualified .capture capture) (haccepted : requireRecord record profile endpoints = .ok ())
    (h : requireCapture record capture role = .ok ()) : ∃ name, role = .str name ∧
      (∃ i : Inspection, i.Of capture ∧ i.Timely record) ∧ Enrolled record name capture := by
  simp only [requireCapture, bind_eq_ok] at h
  obtain ⟨entry, hentry, _, -, _, hinspection, _, -, mappings, hfiles, _, hmaps, -⟩ := h
  obtain ⟨name, roles, rfl, hroles, hrole⟩ := of_requireCaptureBinding hentry
  obtain ⟨paths, rows, he, hpaths⟩ := enrolment_of_record hrecord haccepted hroles hrole
  obtain ⟨observed, maps, hobserved, hmapsItem⟩ := hcapture.lists
  obtain ⟨files, hof, hperm, hinodes, rfl⟩ := of_requireObservedFiles hrecord hcapture he hpaths hobserved hfiles
  refine ⟨name, rfl, of_requireInspection hinspection, paths, rows, observed, files, maps, he, hobserved, hof, hperm, hinodes,
    hmapsItem, of_requireMappings hcapture hmapsItem (fun m hm => ?_) hmaps⟩
  obtain ⟨f, hf, hm⟩ := List.mem_flatMap.mp hm
  have hrow : f.entry ∈ rows := List.mem_of_mem_filter (hperm.mem_iff.mp (List.mem_map_of_mem hf))
  obtain ⟨rows', hrows', hsegments⟩ := hrecord.rows
  obtain rfl := Json.arr.inj (Option.some.inj (he.files.symm.trans hrows'))
  obtain ⟨segments, hsegs, hall⟩ := hsegments _ hrow
  obtain ⟨_, -, hfile⟩ := forall₂_mem_right hof hf
  obtain rfl := Json.arr.inj (Option.some.inj (hfile.segments.symm.trans hsegs))
  have hsettled : Settled (.arr f.segments) := ((hrecord.settled.get? he.files).item hrow).get? hfile.segments
  exact wf_mappings hsettled hall m hm

theorem of_validateCapture {record capture profile : Input} {endpoints role : Json} {documents : Json × Json}
    (hrecord : record.Wf) (hcapture : capture.Wf) (h : validateCapture record capture profile endpoints role = .ok documents) :
    ∃ name r, role = .str name ∧ document record 262144 = .ok documents.1 ∧ Accepted documents.1 name capture r ∧
      r.document = documents.2 := by
  simp only [validateCapture, validateQualificationRecord, bind_eq_ok, pure_eq_ok] at h
  obtain ⟨R, ⟨_, hR, P, -, _, haccepted, rfl⟩, c, hc, _, hchecks, rfl⟩ := h
  obtain ⟨hRdocument, hRqualified⟩ := of_qualificationDocument hrecord hR
  obtain ⟨hdocument, hqualified⟩ := of_qualificationDocument hcapture hc
  obtain ⟨name, hrole, ⟨i, hi, htimely⟩, henrolled⟩ := of_requireCapture hRqualified hqualified haccepted hchecks
  exact ⟨name, ⟨c, i⟩, hrole, hRdocument, ⟨hdocument, hqualified, hi, htimely, henrolled⟩, rfl⟩

end

end HarnessConformance.Admission
