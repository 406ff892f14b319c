import HarnessConformance.Admission.Transcript

/-! # Snapshots of a transcript

`_snapshot` of `live_proxy_server.py`: the text by which the server notices that a transcript has changed. It exists for
every transcript that frames reach, and it leaves nothing out. -/

namespace HarnessConformance.Admission
open Lib Lib.Outcome Lib.Lines
set_option autoImplicit false

section
variable [Runtime]

namespace Transcript

/-- The size and the digest of one chunk. -/
def chunkRow (chunk : Bytes) : Json := .obj [("size", .int chunk.length), ("sha256", .str (byteDigest chunk).text)]

/-- The dictionary that `_snapshot` encodes: the fields under their names in the source. -/
def snapshotMembers (t : Transcript) : Json.Members :=
  [("binding", t.binding), ("dispatch", t.dispatch), ("sequence", .int t.sequence), ("previous", .str t.previous.text),
    ("execution", t.execution), ("pending", t.pending), ("cleanup", t.cleanup), ("terminal", t.terminal),
    ("actions", .arr ((t.actions.sort (· ≤ ·)).map .int)), ("chunks", .arr (t.chunks.map chunkRow)), ("receipt_size", .int t.receiptSize),
    ("failed_action", .bool t.failedAction), ("poisoned", .bool t.poisoned)]

/-- `_snapshot(transcript)` -/
def snapshot (t : Transcript) : Py Bytes := canonicalBytes (.obj t.snapshotMembers)

/-! ## Totality -/

theorem validAt_int {n : ℤ} {depth : ℕ} (hdepth : depth ≤ maxDepth) (h : n.natAbs ≤ maxSafeInteger) : ValidAt depth (.int n) := by
  simp only [ValidAt, validateValue, bind_eq_ok, checkDepth_eq_ok, conform_eq_ok, exists_const]
  exact ⟨hdepth, h⟩

theorem validAt_digest (d : Digest) {depth : ℕ} (hdepth : depth ≤ maxDepth) : ValidAt depth (.str d.text) :=
  validAt_str.mpr ⟨hdepth, textValid_plain d.digest_plain (d.digest_length.trans (by decide))⟩

theorem validAt_chunkRow {chunk : Bytes} (h : chunk.length ≤ 4194304) : ValidAt 2 (chunkRow chunk) := by
  have hsize : ValidAt 3 (.int chunk.length) := validAt_int (by decide) (by
    rw [Int.natAbs_natCast]
    exact h.trans (by decide))
  have hkey {key : String} (h : Json.isPlain key = true ∧ key.length ≤ 32) : TextValid key := textValid_plain h.1 (h.2.trans (by decide))
  refine validAt_obj.mpr ⟨by decide, (by decide : 2 ≤ _), ?_⟩
  simp only [List.forall_mem_cons]
  exact ⟨⟨by decide, hkey (Json.shortKey rfl), hsize⟩, ⟨by decide, hkey (Json.shortKey rfl), validAt_digest _ (by decide)⟩, nofun⟩

section
variable {t : Transcript}

theorem valid_snapshot (ho : t.Opened) (hs : t.Sound) : Valid (.obj t.snapshotMembers) := by
  have hkey {key : String} (h : Json.isPlain key = true ∧ key.length ≤ 32) : TextValid key := textValid_plain h.1 (h.2.trans (by decide))
  have member {key : String} {v : Json} (h : Json.isPlain key = true ∧ key.length ≤ 32) (hv : ValidAt 1 v) :
      0 + 1 ≤ maxDepth ∧ TextValid key ∧ ValidAt (0 + 1) v := ⟨by decide, hkey h, hv⟩
  have hsequence : ValidAt 1 (.int t.sequence) := validAt_int (by decide) (by
    rw [Int.natAbs_natCast]
    exact hs.sequence_le.trans (by decide))
  have hactions : ValidAt 1 (.arr ((t.actions.sort (· ≤ ·)).map .int)) := by
    refine validAt_arr.mpr ⟨by decide, ?_, List.forall_mem_map.mpr fun a ha => ?_⟩
    · rw [List.length_map, Finset.length_sort]
      exact hs.card_actions.trans (by decide)
    · have hrange := hs.actions a ((Finset.mem_sort _).mp ha)
      have hsafe : (256 : ℕ) ≤ maxSafeInteger := by decide
      exact validAt_int (by decide) (by omega)
  have hchunks : ValidAt 1 (.arr (t.chunks.map chunkRow)) := by
    refine validAt_arr.mpr ⟨by decide, ?_, List.forall_mem_map.mpr fun chunk hchunk => ?_⟩
    · rw [List.length_map]
      exact hs.chunks.trans (by decide)
    · have hle := List.single_le_sum (by simp) _ (List.mem_map_of_mem (f := List.length) hchunk)
      rw [← List.length_flatten, ← hs.size.1] at hle
      exact validAt_chunkRow (hle.trans hs.size.2)
  have hreceipt : ValidAt 1 (.int t.receiptSize) := validAt_int (by decide) (by
    rw [Int.natAbs_natCast]
    exact hs.size.2.trans (by decide))
  have hbool (b : Bool) : ValidAt 1 (.bool b) := checkDepth_eq_ok.mpr (by decide)
  obtain ⟨hexecution, hpending, hcleanup, hterminal⟩ := hs.stored
  refine validAt_obj.mpr ⟨by decide, (by decide : 13 ≤ _), ?_⟩
  simp only [snapshotMembers, List.forall_mem_cons]
  exact ⟨member (Json.shortKey rfl) ho.binding.2.1, member (Json.shortKey rfl) ho.dispatch.2.1, member (Json.shortKey rfl) hsequence,
    member (Json.shortKey rfl) (validAt_digest _ (by decide)), member (Json.shortKey rfl) hexecution.valid,
    member (Json.shortKey rfl) hpending.valid, member (Json.shortKey rfl) hcleanup.valid, member (Json.shortKey rfl) hterminal.valid,
    member (Json.shortKey rfl) hactions, member (Json.shortKey rfl) hchunks, member (Json.shortKey rfl) hreceipt,
    member (Json.shortKey rfl) (hbool _), member (Json.shortKey rfl) (hbool _), nofun⟩

theorem wf_snapshot (ho : t.Opened) (hs : t.Sound) : (Json.obj t.snapshotMembers).Wf := by
  have hkeys : (Json.keys t.snapshotMembers).Nodup := by
    have hnodup : ["binding", "dispatch", "sequence", "previous", "execution", "pending", "cleanup", "terminal", "actions", "chunks",
      "receipt_size", "failed_action", "poisoned"].Nodup := by decide
    exact hnodup
  have hactions : (Json.arr ((t.actions.sort (· ≤ ·)).map .int)).Wf := Json.wf_arr.mpr (List.forall_mem_map.mpr fun _ _ => trivial)
  have hchunks : (Json.arr (t.chunks.map chunkRow)).Wf := by
    refine Json.wf_arr.mpr (List.forall_mem_map.mpr fun chunk _ => ?_)
    have hnodup : (["size", "sha256"] : List String).Nodup := by decide
    exact Json.wf_obj.mpr ⟨hnodup, by simp [Json.Wf]⟩
  obtain ⟨hexecution, hpending, hcleanup, hterminal⟩ := hs.stored
  refine Json.wf_obj.mpr ⟨hkeys, ?_⟩
  simp only [snapshotMembers, List.forall_mem_cons]
  exact ⟨ho.binding.1.wf, ho.dispatch.1.wf, trivial, trivial, hexecution.canonical.wf, hpending.canonical.wf, hcleanup.canonical.wf,
    hterminal.canonical.wf, hactions, hchunks, trivial, trivial, trivial, nofun⟩

theorem snapshot_eq_ok (ho : t.Opened) (hs : t.Sound) : t.snapshot = .ok (canonicalText (.obj t.snapshotMembers)) :=
  canonicalBytes_eq_ok.mpr ⟨valid_snapshot ho hs, rfl⟩

end

/-! ## Nothing is left out -/

/-- Chunks of one size and digest are one chunk. -/
theorem chunkRow_inj {hashed : Set Bytes} (hsha : CollisionFree hashed) {x y : Bytes} (hx : x ∈ hashed) (hy : y ∈ hashed)
    (h : (chunkRow x).canon = (chunkRow y).canon) : x = y := by
  have hwf (chunk : Bytes) : (chunkRow chunk).Wf := by
    have hnodup : (["size", "sha256"] : List String).Nodup := by decide
    exact Json.wf_obj.mpr ⟨hnodup, by simp [Json.Wf]⟩
  have hdigest : (byteDigest x).text = (byteDigest y).text := Json.str.inj (Json.canon_get?_eq (hwf x) (hwf y) h (k := "sha256") rfl rfl)
  exact byteDigest_inj hsha hx hy (Text.ext hdigest)

omit [Runtime] in
theorem eq_of_map_eq {α β : Type} {f : α → β} {s : Set α} (hf : Set.InjOn f s) {xs ys : List α} (hxs : ∀ x ∈ xs, x ∈ s)
    (hys : ∀ y ∈ ys, y ∈ s) (h : xs.map f = ys.map f) : xs = ys := by
  induction xs generalizing ys with
  | nil => exact (List.map_eq_nil_iff.mp h.symm).symm
  | cons x xs ih =>
    cases ys with
    | nil => cases h
    | cons y ys =>
      rw [List.map_cons, List.map_cons, List.cons.injEq] at h
      rw [List.forall_mem_cons] at hxs hys
      rw [hf hxs.1 hys.1 h.1, ih hxs.2 hys.2 h.2]

/-- Two transcripts with one snapshot are one transcript. -/
theorem eq_of_snapshot {t u : Transcript} (ht : t.Reachable) (hu : u.Reachable)
    (hsha : CollisionFree {chunk | chunk ∈ t.chunks ∨ chunk ∈ u.chunks}) (h : t.snapshot = u.snapshot) : t = u := by
  have hto := ht.opened
  have huo := hu.opened
  have hts := ht.sound
  have hus := hu.sound
  rw [snapshot_eq_ok hto hts, snapshot_eq_ok huo hus, Except.ok.injEq,
    canonicalText_injective (wf_snapshot hto hts) (wf_snapshot huo hus)] at h
  have field {k : String} {a b : Json} (ha : (Json.obj t.snapshotMembers).get? k = some a)
      (hb : (Json.obj u.snapshotMembers).get? k = some b) : a.canon = b.canon :=
    Json.canon_get?_eq (wf_snapshot hto hts) (wf_snapshot huo hus) h ha hb
  have stored {k : String} {a b : Json} (ha : (Json.obj t.snapshotMembers).get? k = some a)
      (hb : (Json.obj u.snapshotMembers).get? k = some b) (hca : Canonical a) (hcb : Canonical b) : a = b := by
    rw [← hca.canon, ← hcb.canon]
    exact field ha hb
  obtain ⟨hexecution, hpending, hcleanup, hterminal⟩ := hts.stored
  obtain ⟨hexecution', hpending', hcleanup', hterminal'⟩ := hus.stored
  have hbinding : t.binding = u.binding := stored (k := "binding") rfl rfl hto.binding.1 huo.binding.1
  have hdispatch : t.dispatch = u.dispatch := stored (k := "dispatch") rfl rfl hto.dispatch.1 huo.dispatch.1
  have hsequence : (t.sequence : ℤ) = u.sequence := Json.int.inj (field (k := "sequence") rfl rfl)
  have hprevious : t.previous.text = u.previous.text := Json.str.inj (field (k := "previous") rfl rfl)
  have hexecution : t.execution = u.execution := stored (k := "execution") rfl rfl hexecution.canonical hexecution'.canonical
  have hpending : t.pending = u.pending := stored (k := "pending") rfl rfl hpending.canonical hpending'.canonical
  have hcleanup : t.cleanup = u.cleanup := stored (k := "cleanup") rfl rfl hcleanup.canonical hcleanup'.canonical
  have hterminal : t.terminal = u.terminal := stored (k := "terminal") rfl rfl hterminal.canonical hterminal'.canonical
  have hactions : t.actions = u.actions := by
    have heq : ((t.actions.sort (· ≤ ·)).map Json.int).map Json.canon = ((u.actions.sort (· ≤ ·)).map Json.int).map Json.canon := by
      have hfield := field (k := "actions") rfl rfl
      rwa [Json.canon_arr, Json.canon_arr, Json.arr.injEq] at hfield
    have hint : Json.canon ∘ Json.int = Json.int := rfl
    rw [List.map_map, List.map_map, hint] at heq
    have hsort := List.map_injective_iff.mpr (fun _ _ => Json.int.inj) heq
    rw [← Finset.sort_toFinset (r := (· ≤ ·)) t.actions, hsort, Finset.sort_toFinset]
  have hchunks : t.chunks = u.chunks := by
    have hfield := field (k := "chunks") rfl rfl
    rw [Json.canon_arr, Json.canon_arr, Json.arr.injEq, List.map_map, List.map_map] at hfield
    have hinj : Set.InjOn (Json.canon ∘ chunkRow) {chunk | chunk ∈ t.chunks ∨ chunk ∈ u.chunks} := fun _ hx _ hy h =>
      chunkRow_inj hsha hx hy h
    exact eq_of_map_eq hinj (fun _ => .inl) (fun _ => .inr) hfield
  have hsize : (t.receiptSize : ℤ) = u.receiptSize := Json.int.inj (field (k := "receipt_size") rfl rfl)
  have hfailed : t.failedAction = u.failedAction := Json.bool.inj (field (k := "failed_action") rfl rfl)
  have hpoisoned : t.poisoned = u.poisoned := hts.live.trans hus.live.symm
  have hsequence := Int.ofNat.inj hsequence
  have hsize := Int.ofNat.inj hsize
  have hprevious := Text.ext hprevious
  cases t
  cases u
  simp only at hbinding hdispatch hsequence hprevious hexecution hpending hcleanup hterminal hactions hchunks hsize hfailed hpoisoned
  rw [hbinding, hdispatch, hsequence, hprevious, hexecution, hpending, hcleanup, hterminal, hactions, hchunks, hsize, hfailed, hpoisoned]

/-! ## Runs -/

/-- What a transcript answers to frames, each answer with the snapshot behind it. -/
def answers (t : Transcript) : List (Input × String) → List (Py Json × Py Bytes)
  | [] => []
  | (raw, party) :: frames => ((t.accept raw party).2, (t.accept raw party).1.snapshot) :: (t.accept raw party).1.answers frames

/-- The transcript after frames. -/
def after (t : Transcript) (frames : List (Input × String)) : Transcript :=
  frames.foldl (fun t frame => (t.accept frame.1 frame.2).1) t

end Transcript

end

end HarnessConformance.Admission
