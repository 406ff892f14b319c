import HarnessConformance.ReplayStore.Bytes

/-! # Custody of a nonce over whole runs

What one operation may append, and what every run from the empty journal keeps: one reservation
for a key, a path of edges under it, and nothing after a terminal row. -/

namespace HarnessConformance.ReplayStore
open Lib Lib.Outcome Lib.Lines Lib.AppendLog
set_option autoImplicit false

/-- The window of the binding, for a row of the given state at the given time. -/
def InWindow (b : SessionBinding) : State → TimeText → Prop
  | .reserved, now => b.notBefore.instant ≤ now.instant ∧ now.instant < b.notAfter.instant
  | .running, now => now.instant < b.notAfter.instant
  | .completed, now => now.instant < b.notAfter.instant
  | .expired, now => b.notAfter.instant ≤ now.instant
  | _, _ => True

theorem not_mem_edges_reserved (s : State) : State.reserved ∉ s.edges := by
  cases s <;> decide

theorem requireWindow_eq_ok {b : SessionBinding} {state : State} {now : TimeText} {u : Unit} (hstate : state ≠ .reserved) :
    requireWindow b state now = .ok u ↔ InWindow b state now := by
  cases state <;> simp [requireWindow, InWindow, pure_eq_ok] at hstate ⊢

/-- The writer's checks give the reader's, and the window. -/
theorem requireTransition_eq_ok {b : SessionBinding} (row : Row) {prior? : Option Row} {u : Unit}
    (h : requireTransition b row.bindingDigest row.state row.observedAt prior? = .ok u) :
    Follows prior? row ∧ InWindow b row.state row.observedAt := by
  unfold requireTransition at h
  by_cases hstate : row.state = .reserved
  · simp only [hstate, if_true, bind_eq_ok, require_eq_ok, exists_const] at h
    rw [h.1, follows_none, hstate]
    exact ⟨rfl, h.2⟩
  · rw [if_neg hstate] at h
    cases prior? with
    | none => simp at h
    | some prior =>
      simp only [bind_eq_ok, require_eq_ok, exists_const, requireWindow_eq_ok hstate] at h
      obtain ⟨⟨hbinding, hedge⟩, hclock, hwindow⟩ := h
      exact ⟨follows_some.mpr ⟨hedge, hbinding.symm, hclock⟩, hwindow⟩

/-! ## Rows of one key -/

/-- The rows of one key, in order. -/
def underKey (key : Digest) (rows : List Row) : List Row := rows.filter (·.replayKey = key)

theorem underKey_snoc {key : Digest} {rows : List Row} {row : Row} :
    underKey key (rows ++ [row]) = if row.replayKey = key then underKey key rows ++ [row] else underKey key rows := by
  rw [underKey, underKey, List.filter_append, List.filter_singleton]
  by_cases hkey : row.replayKey = key <;> simp [hkey]

/-- Consecutive rows of one key. -/
def Succeeds (prior row : Row) : Prop := Follows (some prior) row

/-- What two rows of one key owe each other, however far apart. -/
structure Before (r t : Row) : Prop where
  binding : t.bindingDigest = r.bindingDigest
  clock : r.observedAt.instant ≤ t.observedAt.instant
  open_ : r.state ∉ State.terminals
  not_reserved : t.state ≠ .reserved

theorem Succeeds.before {r t : Row} (h : Succeeds r t) : Before r t := by
  obtain ⟨hedge, hbinding, hclock⟩ := follows_some.mp h
  refine ⟨hbinding, hclock, fun hterminal => ?_, fun hreserved => ?_⟩
  · have hnone : r.state.edges = [] := by
      revert hterminal
      cases r.state <;> decide
    rw [hnone] at hedge
    cases hedge
  · rw [hreserved] at hedge
    exact not_mem_edges_reserved _ hedge

instance : IsTrans Row Before :=
  ⟨fun _ _ _ h h' => ⟨h'.binding.trans h.binding, h.clock.trans h'.clock, h.open_, h'.not_reserved⟩⟩

theorem pairwise_before {rows : List Row} (h : rows.IsChain Succeeds) : rows.Pairwise Before :=
  (h.imp fun _ _ => Succeeds.before).pairwise

/-- The rows of every key form a path that begins with a reservation; the table holds its end. -/
structure Paths (rows : List Row) (s : Replay) : Prop where
  latest : ∀ key, s.latest.lookup key = (underKey key rows).getLast?
  begins : ∀ key row, (underKey key rows).head? = some row → row.state = .reserved
  path : ∀ key, (underKey key rows).IsChain Succeeds

/-- Any two rows of one key, in the order of the journal. -/
theorem Paths.pairwise {rows : List Row} {s : Replay} (h : Paths rows s) :
    rows.Pairwise fun r t => r.replayKey = t.replayKey → Before r t := by
  rw [List.pairwise_iff_forall_sublist]
  intro r t hsub hkey
  have hunder := hsub.filter fun row : Row => row.replayKey = t.replayKey
  rw [List.filter_cons_of_pos (by simpa using hkey), List.filter_cons_of_pos (by simp), List.filter_nil] at hunder
  exact List.pairwise_iff_forall_sublist.mp (pairwise_before (h.path t.replayKey)) hunder

/-- All rows of one key name one binding. -/
theorem Paths.digest {rows : List Row} {s : Replay} (h : Paths rows s) :
    ∀ r ∈ rows, ∀ t ∈ rows, r.replayKey = t.replayKey → r.bindingDigest = t.bindingDigest := by
  have hsymm : Std.Symm fun r t : Row => r.replayKey = t.replayKey → r.bindingDigest = t.bindingDigest :=
    ⟨fun _ _ h hkey => (h hkey.symm).symm⟩
  have hpairs : rows.Pairwise fun r t => r.replayKey = t.replayKey → r.bindingDigest = t.bindingDigest :=
    h.pairwise.imp fun hbefore hkey => (hbefore hkey).binding.symm
  exact fun r hr t ht => hpairs.forall_of_forall (fun _ _ _ => rfl) hr ht

section
variable [Runtime]

/-- The key of a scope and nonce. -/
def pairKey (tenantId nonce : Identifier) : Digest :=
  byteDigest (domainPrefix (some "planeon.live-replay-key/v1alpha1") ++
    canonicalText (.obj [("tenantId", .str tenantId.text), ("nonce", .str nonce.text)]))

theorem replayKey_eq_ok {b : SessionBinding} {key : Digest} (h : replayKey (.data b.toJson) = .ok key) :
    key = pairKey b.tenantId b.nonce := by
  simp only [replayKey, bind_eq_ok, canonicalDigest_eq_ok] at h
  obtain ⟨c, hc, -, hkey⟩ := h
  rw [SessionBinding.validate_data hc] at hkey
  rw [pairKey, hkey]

/-- What one append says about its binding and the journal before it. -/
structure Records (raw : Bytes) (s : Replay) (b : SessionBinding) (row : Row) : Prop where
  key : row.replayKey = pairKey b.tenantId b.nonce
  binding : row.bindingDigest = digestOf b.toJson
  window : InWindow b row.state row.observedAt
  admits : s.Admits row
  fits : row.Fits
  count : s.count < maxRecords
  length : (raw ++ row.text ++ [lineFeed]).length ≤ maxJournal

theorem prepareRecord_eq_ok {poisoned : Bool} {raw row : Bytes} {binding : Input} {state now receipt : Json}
    {reply : Digest} (h : prepareRecord poisoned raw binding state now receipt = .ok (row, reply)) :
    poisoned = false ∧ ∃ b s r, SessionBinding.validate binding = .ok b ∧ parseJournal raw = .ok s ∧ Records raw s b r ∧
      state = .str r.state.name ∧ row = r.text ++ [lineFeed] ∧ reply = r.digest ∧ now = .str r.observedAt.text := by
  simp only [prepareRecord, bind_eq_ok, require_eq_ok, exists_const, requireTime_eq_ok, requireState_eq_ok,
    requireReceipt_eq_ok, pure_eq_ok, canonicalDigest_none] at h
  obtain ⟨b, hb, now, rfl, hpoisoned, st, rfl, s, hs, key, hkey, digest, ⟨-, rfl⟩, u, htransition, receipt, -, text,
    hencoded, hroom, hout⟩ := h
  obtain ⟨hvalid, rfl⟩ := canonicalBytes_eq_ok.mp hencoded
  obtain ⟨rfl, rfl⟩ := Prod.mk.inj hout
  obtain ⟨hcount, hsize, hlength⟩ := hroom
  obtain ⟨hfollows, hwindow⟩ := requireTransition_eq_ok ⟨_, s.previous, key, _, st, now, receipt⟩ htransition
  rw [List.length_append, List.length_singleton] at hsize
  rw [← List.length_append, ← List.append_assoc] at hlength
  exact ⟨hpoisoned, b, s, _, hb, hs,
    ⟨replayKey_eq_ok hkey, rfl, hwindow, ⟨rfl, rfl, hfollows⟩, ⟨hvalid, hsize⟩, hcount, hlength⟩, rfl, rfl, rfl, rfl⟩

/-- A recorded row is one the reader accepts behind the journal it was recorded for. -/
theorem parseJournal_append {raw : Bytes} {s : Replay} {b : SessionBinding} {row : Row} {rows : List Row}
    (hspells : Spells raw rows) (hreplays : machine.Replays .empty rows s) (hrow : Records raw s b row) :
    Spells (raw ++ (row.text ++ [lineFeed])) (rows ++ [row]) ∧ machine.Replays .empty (rows ++ [row]) (s.push row) := by
  refine ⟨⟨?_, ?_, ?_, ?_⟩, Machine.replays_snoc.mpr ⟨s, hreplays, hrow.admits, rfl⟩⟩
  · rw [List.map_append, List.map_singleton, joinLines_snoc, ← hspells.bytes, List.append_assoc]
  · rw [List.forall_mem_append]
    exact ⟨hspells.fits, by simpa using hrow.fits⟩
  · rw [← List.append_assoc]
    exact hrow.length
  · have hcount := hrow.count
    rw [(chains.chained rfl hreplays).count] at hcount
    rw [List.length_append, List.length_singleton]
    exact hcount

theorem prepare_eq_ok {poisoned : Bool} {raw row : Bytes} {op : Op} {reply : Digest}
    (h : prepare poisoned raw op = .ok (row, reply)) : ∃ state now receipt,
      prepareRecord poisoned raw op.binding state now receipt = .ok (row, reply) ∧
      ((∃ binding now, op = .reserveNonce binding now) → state = .str State.reserved.name) := by
  cases op with
  | reserveNonce binding now => exact ⟨_, _, _, h, fun _ => rfl⟩
  | running binding now => exact ⟨_, _, _, h, by rintro ⟨_, _, ⟨⟩⟩⟩
  | terminal binding state now receipt =>
    simp only [prepare, bind_eq_ok] at h
    obtain ⟨_, -, h⟩ := h
    exact ⟨_, _, _, h, by rintro ⟨_, _, ⟨⟩⟩⟩

/-- The replay journal with its reader, as an append-only log. -/
def log : AppendLog.Journal Op PyError Digest where
  prepare := prepare
  broken := broken
  Accepts raw := ∃ s, parseJournal raw = .ok s
  poisoned_refuses raw op := by
    refine not_ok_iff_error.mp ?_
    rintro ⟨⟨row, reply⟩, h⟩
    obtain ⟨state, now, receipt, h, -⟩ := prepare_eq_ok h
    exact absurd (prepareRecord_eq_ok h).1 (by decide)
  ended := by
    rintro raw ⟨s, h⟩
    obtain ⟨rows, hspells, -⟩ := parseJournal_eq_ok.mp h
    exact hspells.bytes ▸ Ended.joinLines _
  accepts := by
    intro poisoned raw op row reply h
    obtain ⟨state, now, receipt, h, -⟩ := prepare_eq_ok h
    obtain ⟨-, b, s, r, -, hs, -⟩ := prepareRecord_eq_ok h
    exact ⟨s, hs⟩
  accepts_row := by
    intro poisoned raw op row reply h
    obtain ⟨state, now, receipt, h, -⟩ := prepare_eq_ok h
    obtain ⟨-, b, s, r, -, hs, hrecords, -, hrow, -⟩ := prepareRecord_eq_ok h
    obtain ⟨rows, hspells, hreplays⟩ := parseJournal_eq_ok.mp hs
    rw [hrow]
    exact ⟨_, parseJournal_eq_ok.mpr ⟨_, parseJournal_append hspells hreplays hrecords⟩⟩
  row_line := by
    intro poisoned raw op row reply h
    obtain ⟨state, now, receipt, h, -⟩ := prepare_eq_ok h
    obtain ⟨-, b, s, r, -, -, -, -, hrow, -⟩ := prepareRecord_eq_ok h
    exact ⟨r.text, clean_text r, hrow⟩

/-! ## Runs -/

theorem paths {rows : List Row} {s : Replay} (h : machine.Replays .empty rows s) : Paths rows s := by
  refine h.induction Paths ⟨fun _ => rfl, nofun, fun _ => .nil⟩ fun past u row _ hpast hrow => ?_
  have hfollows := hrow.follows
  rw [hpast.latest] at hfollows
  refine ⟨fun key => ?_, fun key r hr => ?_, fun key => ?_⟩
  · rw [underKey_snoc]
    by_cases hkey : row.replayKey = key
    · subst hkey
      rw [if_pos rfl, List.getLast?_concat]
      exact AList.lookup_insert _
    · rw [if_neg hkey, ← hpast.latest]
      exact AList.lookup_insert_ne (Ne.symm hkey)
  · rw [underKey_snoc] at hr
    split at hr
    · rename_i hkey
      subst hkey
      cases hrows : underKey row.replayKey past with
      | nil =>
        rw [hrows] at hr hfollows
        obtain rfl : row = r := by simpa using hr
        exact follows_none.mp hfollows
      | cons first rest =>
        rw [hrows] at hr
        exact hpast.begins row.replayKey r (by rw [hrows]; exact hr)
    · exact hpast.begins key r hr
  · rw [underKey_snoc]
    split
    · rename_i hkey
      subst hkey
      rw [List.isChain_append]
      refine ⟨hpast.path _, .singleton _, fun prior hprior next hnext => ?_⟩
      obtain rfl : row = next := by simpa using hnext
      rw [hprior] at hfollows
      exact hfollows
    · exact hpast.path key

/-- Where an appended row comes from. -/
structure Origin {ι : Type} (ops : List (ι × Op)) (e : SessionBinding × Row) : Prop where
  op : ∃ p ∈ ops, SessionBinding.validate p.2.binding = .ok e.1
  key : e.2.replayKey = pairKey e.1.tenantId e.1.nonce
  binding : e.2.bindingDigest = digestOf e.1.toJson
  window : InWindow e.1 e.2.state e.2.observedAt

/-- The storage after operations of any instances on the empty journal. -/
def storage {ι : Type} [DecidableEq ι] (ops : List (ι × Op)) : Bytes := (log.runClean (.start []) ops).raw

theorem storage_snoc {ι : Type} [DecidableEq ι] (ops : List (ι × Op)) (p : ι × Op) : storage (ops ++ [p]) =
    match prepare false (storage ops) p.2 with
    | .ok (row, _) => storage ops ++ row
    | .error _ => storage ops := by
  have hclean : (log.runClean (.start []) ops).poisoned p.1 = false := by
    rw [Journal.runClean_poisoned]
    rfl
  rw [storage, Journal.runClean_snoc, storage]
  cases hp : prepare false (log.runClean (.start []) ops).raw p.2 with
  | error e => rw [(Journal.step_refused (c := ⟨p.1, p.2, .none⟩) (hclean ▸ hp)).1]
  | ok out =>
    obtain ⟨row, reply⟩ := out
    rw [(Journal.step_completes (c := ⟨p.1, p.2, .none⟩) (hclean ▸ hp) rfl).1]

theorem storage_entries {ι : Type} [DecidableEq ι] (ops : List (ι × Op)) : ∃ (entries : List (SessionBinding × Row))
    (s : Replay), Spells (storage ops) (entries.map Prod.snd) ∧ machine.Replays .empty (entries.map Prod.snd) s ∧
      ∀ e ∈ entries, Origin ops e := by
  induction ops using List.reverseRecOn with
  | nil => exact ⟨[], .empty, ⟨rfl, nofun, Nat.zero_le _, Nat.zero_le _⟩, rfl, nofun⟩
  | append_singleton ops p ih =>
    obtain ⟨entries, s, hspells, hreplays, horigin⟩ := ih
    have hold : ∀ e ∈ entries, Origin (ops ++ [p]) e := fun e he =>
      let ⟨⟨q, hq, hvalid⟩, hkey, hbinding, hwindow⟩ := horigin e he
      ⟨⟨q, List.mem_append_left _ hq, hvalid⟩, hkey, hbinding, hwindow⟩
    rw [storage_snoc]
    split
    · rename_i row reply hp
      obtain ⟨state, now, receipt, hp, -⟩ := prepare_eq_ok hp
      obtain ⟨-, b, s', r, hb, hs', hrecords, -, hrow, -⟩ := prepareRecord_eq_ok hp
      obtain rfl : s = s' := by
        have hs := parseJournal_eq_ok.mpr ⟨_, hspells, hreplays⟩
        rw [hs] at hs'
        exact Except.ok.inj hs'
      obtain ⟨hspells', hreplays'⟩ := parseJournal_append hspells hreplays hrecords
      rw [hrow]
      refine ⟨entries ++ [(b, r)], s.push r, by simpa using hspells', by simpa using hreplays', ?_⟩
      rw [List.forall_mem_append]
      refine ⟨hold, ?_⟩
      rintro e he
      obtain rfl := List.mem_singleton.mp he
      exact ⟨⟨p, by simp, hb⟩, hrecords.key, hrecords.binding, hrecords.window⟩
    · exact ⟨entries, s, hspells, hreplays, hold⟩

/-- The texts of the bindings the operations name. -/
def bindingTexts {ι : Type} (ops : List (ι × Op)) : Set Bytes :=
  {text | ∃ p ∈ ops, ∃ b, SessionBinding.validate p.2.binding = .ok b ∧ text = canonicalText b.toJson}

/-- Custody of every nonce in a journal, whose rows stand beside the bindings they were written for. -/
structure Custody (entries : List (SessionBinding × Row)) : Prop where
  reserved_once : ∀ tenantId nonce, (entries.filter fun e =>
    e.1.tenantId = tenantId ∧ e.1.nonce = nonce ∧ e.2.state = .reserved).length ≤ 1
  begins : ∀ key row, (underKey key (entries.map Prod.snd)).head? = some row → row.state = .reserved
  path : ∀ key, (underKey key (entries.map Prod.snd)).IsChain fun r t => t.state ∈ r.state.edges
  digest : ∀ key, (underKey key (entries.map Prod.snd)).Pairwise fun r t => t.bindingDigest = r.bindingDigest
  clock : ∀ key, (underKey key (entries.map Prod.snd)).Pairwise fun r t => r.observedAt.instant ≤ t.observedAt.instant
  ended : ∀ key, (underKey key (entries.map Prod.snd)).Pairwise fun r _ => r.state ∉ State.terminals
  window : ∀ e ∈ entries, InWindow e.1 e.2.state e.2.observedAt
  binding : ∀ e ∈ entries, ∀ f ∈ entries, e.2.replayKey = f.2.replayKey → e.1 = f.1

theorem reserved_once {ι : Type} {ops : List (ι × Op)} {entries : List (SessionBinding × Row)} {s : Replay}
    (hpaths : Paths (entries.map Prod.snd) s) (horigin : ∀ e ∈ entries, Origin ops e) (tenantId nonce : Identifier) :
    (entries.filter fun e => e.1.tenantId = tenantId ∧ e.1.nonce = nonce ∧ e.2.state = .reserved).length ≤ 1 := by
  refine length_le_one ?_
  rw [List.pairwise_filter]
  refine (List.pairwise_map.mp hpaths.pairwise).imp_of_mem ?_
  intro e f he hf hbefore hep hfp
  simp only [decide_eq_true_eq] at hep hfp
  have hkey : e.2.replayKey = f.2.replayKey := by
    rw [(horigin e he).key, (horigin f hf).key, hep.1, hep.2.1, hfp.1, hfp.2.1]
  exact (hbefore hkey).not_reserved hfp.2.2

/-- Rows of one key were written for one binding. -/
theorem binding_of_key {ι : Type} {ops : List (ι × Op)} {entries : List (SessionBinding × Row)} {s : Replay}
    (hpaths : Paths (entries.map Prod.snd) s) (horigin : ∀ e ∈ entries, Origin ops e)
    (hfree : CollisionFree (bindingTexts ops)) {e f : SessionBinding × Row} (he : e ∈ entries) (hf : f ∈ entries)
    (hkey : e.2.replayKey = f.2.replayKey) : e.1 = f.1 := by
  have hmem {g : SessionBinding × Row} (hg : g ∈ entries) : canonicalText g.1.toJson ∈ bindingTexts ops := by
    obtain ⟨p, hp, hvalid⟩ := (horigin g hg).op
    exact ⟨p, hp, g.1, hvalid, rfl⟩
  have hdigest : e.2.bindingDigest = f.2.bindingDigest :=
    hpaths.digest _ (List.mem_map_of_mem he) _ (List.mem_map_of_mem hf) hkey
  rw [(horigin e he).binding, (horigin f hf).binding] at hdigest
  have htext := byteDigest_inj hfree (hmem he) (hmem hf) hdigest
  exact SessionBinding.eq_of_canon ((canonicalText_injective e.1.wf_toJson f.1.wf_toJson).mp htext)

theorem custody {ι : Type} {ops : List (ι × Op)} {entries : List (SessionBinding × Row)} {s : Replay}
    (hreplays : machine.Replays .empty (entries.map Prod.snd) s) (horigin : ∀ e ∈ entries, Origin ops e)
    (hfree : CollisionFree (bindingTexts ops)) : Custody entries := by
  have hpaths := paths hreplays
  have hbefore (key : Digest) := pairwise_before (hpaths.path key)
  exact {
    reserved_once := reserved_once hpaths horigin
    begins := hpaths.begins
    path := fun key => (hpaths.path key).imp fun _ _ h => (follows_some.mp h).1
    digest := fun key => (hbefore key).imp Before.binding
    clock := fun key => (hbefore key).imp Before.clock
    ended := fun key => (hbefore key).imp Before.open_
    window := fun e he => (horigin e he).window
    binding := fun e he f hf => binding_of_key hpaths horigin hfree he hf }

/-- A key with a row takes no reservation, and a key with a terminal row takes no row at all. -/
theorem prepare_refused {rows : List Row} {s : Replay} {raw : Bytes} (hspells : Spells raw rows)
    (hreplays : machine.Replays .empty rows s) {poisoned : Bool} {op : Op} {b : SessionBinding}
    (hb : SessionBinding.validate op.binding = .ok b) {row : Row} (hrow : row ∈ rows)
    (hkey : row.replayKey = pairKey b.tenantId b.nonce)
    (hop : (∃ binding now, op = .reserveNonce binding now) ∨ row.state ∈ State.terminals) :
    ∃ e, prepare poisoned raw op = .error e := by
  refine not_ok_iff_error.mp ?_
  rintro ⟨⟨encoded, reply⟩, h⟩
  obtain ⟨state, now, receipt, hrecord, hreserve⟩ := prepare_eq_ok h
  obtain ⟨-, c, t, r, hc, ht, hrecords, hstate, -⟩ := prepareRecord_eq_ok hrecord
  rw [parseJournal_eq_ok.mpr ⟨rows, hspells, hreplays⟩] at ht
  obtain rfl := Except.ok.inj ht
  rw [hb] at hc
  obtain rfl := Except.ok.inj hc
  have hpairs := (paths (parseJournal_append hspells hreplays hrecords).2).pairwise
  have hbefore := (List.pairwise_append.mp hpairs).2.2 row hrow r (by simp) (hkey.trans hrecords.key.symm)
  rcases hop with hop | hterminal
  · rw [hreserve hop] at hstate
    exact hbefore.not_reserved (State.name_injective (Json.str.inj hstate)).symm
  · exact hbefore.open_ hterminal

/-- Custody over whole runs: whatever operations any instances perform on the empty journal, in
any order, the stored bytes are accepted and every nonce is in custody. -/
theorem nonce_custody {ι : Type} [DecidableEq ι] (ops : List (ι × Op)) (hfree : CollisionFree (bindingTexts ops)) :
    ∃ (entries : List (SessionBinding × Row)) (s : Replay), parseJournal (storage ops) = .ok s ∧
      storage ops = joinLines ((entries.map Prod.snd).map Row.text) ∧ (∀ e ∈ entries, Origin ops e) ∧ Custody entries ∧
      ∀ e ∈ entries, ∀ poisoned op b, SessionBinding.validate op.binding = .ok b → b.tenantId = e.1.tenantId →
        b.nonce = e.1.nonce → (∃ binding now, op = .reserveNonce binding now) ∨ e.2.state ∈ State.terminals →
        ∃ err, prepare poisoned (storage ops) op = .error err := by
  obtain ⟨entries, s, hspells, hreplays, horigin⟩ := storage_entries ops
  refine ⟨entries, s, parseJournal_eq_ok.mpr ⟨_, hspells, hreplays⟩, hspells.bytes, horigin,
    custody hreplays horigin hfree, ?_⟩
  intro e he poisoned op b hb htenant hnonce hop
  refine prepare_refused hspells hreplays hb (List.mem_map_of_mem he) ?_ hop
  rw [(horigin e he).key, htenant, hnonce]

end

namespace Sample

def binding : SessionBinding := LiveSession.Sample.binding

/-- Two instances reserve one nonce, and one of them goes on. -/
def ops : List (ℕ × Op) :=
  [(0, .reserveNonce (.data binding.toJson) (.str "2026-01-01T00:00:00Z")),
    (1, .reserveNonce (.data binding.toJson) (.str "2026-01-01T00:00:01Z")),
    (0, .running (.data binding.toJson) (.str "2026-01-01T00:00:02Z"))]

theorem binding_ops : ∀ p ∈ ops, p.2.binding = .data binding.toJson := by
  simp only [ops, List.forall_mem_cons, Op.binding, true_and]
  exact List.forall_mem_nil _

end Sample

theorem nonce_custody_sample : ∃ (entries : List (SessionBinding × Row)) (s : Replay),
    @parseJournal .ascii (@storage .ascii ℕ _ Sample.ops) = .ok s ∧ Custody entries := by
  let _ := Runtime.ascii
  have hfree : CollisionFree (bindingTexts Sample.ops) := by
    refine Set.Subsingleton.injOn ?_ _
    intro x hx y hy
    obtain ⟨p, hp, b, hb, hxb⟩ := hx
    obtain ⟨q, hq, c, hc, hyc⟩ := hy
    rw [Sample.binding_ops p hp] at hb
    rw [Sample.binding_ops q hq] at hc
    rw [hxb, hyc, SessionBinding.validate_data hb, SessionBinding.validate_data hc]
  obtain ⟨entries, s, hs, -, -, hcustody, -⟩ := nonce_custody Sample.ops hfree
  exact ⟨entries, s, hs, hcustody⟩

end HarnessConformance.ReplayStore
