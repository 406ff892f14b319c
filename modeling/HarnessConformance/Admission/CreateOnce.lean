import HarnessConformance.Admission.Capacity
import HarnessConformance.Admission.Bytes

/-! # Resources are created at most once

The dictionary of a reservation remembers every intent and every created identity of its rows, and
holds nothing else. What the reader checks against the dictionary it has therefore checked against
all the rows before. -/

namespace HarnessConformance.Admission
open Lib Lib.Outcome Lib.Lines
set_option autoImplicit false

/-! ## What the dictionary remembers -/

namespace Reservation

/-- The dictionary holds what an event stated of a resource. -/
def Remembers (r : Reservation) : Event → Prop
  | .createIntent operation intent => ∃ created, r.resources.lookup intent.identity = some ⟨intent, operation, created⟩
  | .created operation intent uid version =>
    r.resources.lookup intent.identity = some ⟨intent, operation, some (uid, version)⟩
  | _ => True

variable {r : Reservation}

theorem lookup_of_fresh {operation : Case} {intent : Intent} (h : r.Fresh operation intent) :
    r.resources.lookup intent.identity = none := by
  have hnew : intent.identity ∉ r.resources := h.2.1
  exact AList.lookup_eq_none.mpr hnew

theorem Remembers.own_intent {e : Event} (h : r.Remembers e) {operation : Case} {intent : Intent}
    (hfresh : r.Fresh operation intent) : (r.own operation intent none).Remembers e := by
  have hnone := lookup_of_fresh hfresh
  cases e with
  | createIntent c i =>
    obtain ⟨created, hlookup⟩ := h
    have hne : i.identity ≠ intent.identity := by
      intro heq
      rw [heq, hnone] at hlookup
      cases hlookup
    exact ⟨created, (lookup_own_ne hne).trans hlookup⟩
  | created c i uid version =>
    have hlookup : r.resources.lookup i.identity = _ := h
    have hne : i.identity ≠ intent.identity := by
      intro heq
      rw [heq, hnone] at hlookup
      cases hlookup
    exact (lookup_own_ne hne).trans hlookup
  | _ => trivial

theorem Remembers.own_created {e : Event} (h : r.Remembers e) {operation : Case} {intent : Intent}
    (hintended : r.Intended operation intent) (created : Uid × Version) :
    (r.own operation intent (some created)).Remembers e := by
  have hopen : r.resources.lookup intent.identity = some ⟨intent, operation, none⟩ := hintended
  cases e with
  | createIntent c i =>
    obtain ⟨before, hlookup⟩ := h
    by_cases heq : i.identity = intent.identity
    · rw [heq, hopen] at hlookup
      obtain ⟨rfl, rfl, -⟩ := Owned.mk.inj (Option.some.inj hlookup)
      exact ⟨some created, lookup_own_self⟩
    · exact ⟨before, (lookup_own_ne heq).trans hlookup⟩
  | created c i uid version =>
    have hlookup : r.resources.lookup i.identity = _ := h
    have hne : i.identity ≠ intent.identity := by
      intro heq
      rw [heq, hopen] at hlookup
      cases hlookup
    exact (lookup_own_ne hne).trans hlookup
  | _ => trivial

end Reservation

/-! ## What a later row owes an earlier one -/

/-- Two events of one key, the first of them earlier. -/
structure Apart (e f : Event) : Prop where
  intents : ∀ c i c' i', e = .createIntent c i → f = .createIntent c' i' →
    i.manifestDigest ≠ i'.manifestDigest ∧ i.identity ≠ i'.identity
  actions : ∀ c i i', e = .createIntent c i → f = .createIntent c i' → i.actionId < i'.actionId
  uids : ∀ c i uid v c' i' uid' v', e = .created c i uid v → f = .created c' i' uid' v' → uid ≠ uid'
  cleanup : ∀ c receipt, e = .recorded c receipt →
    (∀ i, f ≠ .createIntent c i) ∧ ∀ i uid v, f ≠ .created c i uid v

/-- The rows of a key against its dictionary. -/
structure Accounts (past : List Row) (r : Reservation) : Prop where
  remembers : ∀ row ∈ past, r.Remembers row.event
  intended : ∀ identity o, r.resources.lookup identity = some o →
    o.intent.identity = identity ∧ ∃ row ∈ past, row.event = .createIntent o.operation o.intent
  one_open : ∀ identity identity' o o', r.resources.lookup identity = some o → r.resources.lookup identity' = some o' →
    o.created = none → o'.created = none → identity = identity'
  apart : past.Pairwise fun p t => Apart p.event t.event

theorem Accounts.first (row : Row) (h : row.event = .reserved) : Accounts [row] (.first row) := by
  refine ⟨fun t ht => ?_, fun identity o hlookup => ?_, fun identity identity' o o' hlookup => ?_, List.pairwise_singleton _ _⟩
  · rw [List.mem_singleton.mp ht, h]
    trivial
  · cases hlookup
  · cases hlookup

section
variable [Runtime]

/-- The checks of an accepted row, against all rows the dictionary remembers. -/
theorem Extends.apart {past : List Row} {r : Reservation} {row : Row} (h : Extends past r row)
    (hremembers : ∀ t ∈ past, r.Remembers t.event) : ∀ t ∈ past, Apart t.event row.event := by
  obtain ⟨recorded, hallows, hrecorded⟩ := h.allows
  intro t ht
  have hmemory := hremembers t ht
  refine ⟨fun c i c' i' he hf => ?_, fun c i i' he hf => ?_, fun c i uid v c' i' uid' v' he hf => ?_, fun c receipt he => ?_⟩
  · rw [he] at hmemory
    rw [hf] at hallows
    obtain ⟨created, hlookup⟩ := hmemory
    obtain ⟨-, -, -, hnew, -, hdigests, -⟩ := hallows
    have howned : (⟨i, c, created⟩ : Owned) ∈ r.owned := Reservation.mem_owned.mpr ⟨_, hlookup⟩
    refine ⟨hdigests _ howned, fun hid => hnew ?_⟩
    rw [← hid]
    exact AList.lookup_isSome.mp (Option.isSome_iff_exists.mpr ⟨_, hlookup⟩)
  · rw [he] at hmemory
    rw [hf] at hallows
    obtain ⟨created, hlookup⟩ := hmemory
    obtain ⟨-, -, -, -, -, -, hactions⟩ := hallows
    exact hactions _ (Reservation.mem_owned.mpr ⟨_, hlookup⟩) rfl
  · rw [he] at hmemory
    rw [hf] at hallows
    obtain ⟨-, -, -, hnew⟩ := hallows
    have howned : (⟨i, c, some (uid, v)⟩ : Owned) ∈ r.owned := Reservation.mem_owned.mpr ⟨_, hmemory⟩
    exact fun hsame => hnew _ howned (congrArg some hsame)
  · refine ⟨fun i hf => ?_, fun i uid v hf => ?_⟩
    · rw [hf] at hallows hrecorded
      exact hrecorded hallows.1 t ht c receipt he rfl
    · rw [hf] at hallows hrecorded
      exact hrecorded hallows.1 t ht c receipt he rfl

namespace Reservation
variable {r : Reservation} {recorded : Bool} {observedAt : TimeText}

theorem Remembers.after {e f : Event} (h : r.Remembers e) (hallows : r.Allows recorded observedAt f) :
    (r.after f).Remembers e := by
  cases f with
  | createIntent operation intent => exact h.own_intent hallows.2.2
  | created operation intent uid version => exact h.own_created hallows.2.2.1 (uid, version)
  | _ => cases e <;> exact h

theorem remembers_after (e : Event) : (r.after e).Remembers e := by
  cases e with
  | createIntent operation intent => exact ⟨none, lookup_own_self⟩
  | created operation intent uid version => exact lookup_own_self
  | _ => trivial

/-- An entry after an event is an old one, or the event's own. -/
theorem lookup_after {e : Event} {identity : Identity} {o : Owned} (h : (r.after e).resources.lookup identity = some o) :
    r.resources.lookup identity = some o ∨ (∃ c i, e = .createIntent c i ∧ identity = i.identity ∧ o = ⟨i, c, none⟩) ∨
      ∃ c i uid v, e = .created c i uid v ∧ identity = i.identity ∧ o = ⟨i, c, some (uid, v)⟩ := by
  have hown (c : Case) (i : Intent) (created : Option (Uid × Version))
      (h : (r.own c i created).resources.lookup identity = some o) :
      r.resources.lookup identity = some o ∨ identity = i.identity ∧ o = ⟨i, c, created⟩ := by
    by_cases hid : identity = i.identity
    · rw [hid, lookup_own_self] at h
      exact .inr ⟨hid, (Option.some.inj h).symm⟩
    · exact .inl ((lookup_own_ne hid).symm.trans h)
  cases e with
  | createIntent c i => exact (hown c i none h).imp id fun hnew => .inl ⟨c, i, rfl, hnew⟩
  | created c i uid v => exact (hown c i _ h).imp id fun hnew => .inr ⟨c, i, uid, v, rfl, hnew⟩
  | _ => exact .inl h

end Reservation

theorem Accounts.after {past : List Row} {r : Reservation} {row : Row} (h : Accounts past r) (hrow : Extends past r row) :
    Accounts (past ++ [row]) (r.after row.event) := by
  obtain ⟨recorded, hallows, -⟩ := hrow.allows
  have hintended : ∀ identity o, r.resources.lookup identity = some o →
      o.intent.identity = identity ∧ ∃ t ∈ past ++ [row], t.event = .createIntent o.operation o.intent := by
    intro identity o hlookup
    obtain ⟨hid, t, ht, hevent⟩ := h.intended identity o hlookup
    exact ⟨hid, t, List.mem_append_left _ ht, hevent⟩
  refine ⟨fun t ht => ?_, fun identity o hlookup => ?_, fun identity identity' o o' hlookup hlookup' hopen hopen' => ?_, ?_⟩
  · rcases List.mem_append.mp ht with ht | ht
    · exact (h.remembers t ht).after hallows
    · rw [List.mem_singleton.mp ht]
      exact Reservation.remembers_after row.event
  · rcases Reservation.lookup_after hlookup with hold | ⟨c, i, he, rfl, rfl⟩ | ⟨c, i, uid, v, he, rfl, rfl⟩
    · exact hintended identity o hold
    · exact ⟨rfl, row, by simp, he⟩
    · rw [he] at hallows
      obtain ⟨-, hintent⟩ := hintended _ _ hallows.2.2.1
      exact ⟨rfl, hintent⟩
  · rcases Reservation.lookup_after hlookup with hold | ⟨c, i, he, hid, ho⟩ | ⟨c, i, uid, v, he, hid, ho⟩
    · rcases Reservation.lookup_after hlookup' with hold' | ⟨c', i', he', hid', ho'⟩ | ⟨c', i', uid', v', he', hid', ho'⟩
      · exact h.one_open identity identity' o o' hold hold' hopen hopen'
      · rw [he'] at hallows
        exact absurd hopen (hallows.2.2.2.2.1 o (Reservation.mem_owned.mpr ⟨identity, hold⟩))
      · rw [ho'] at hopen'
        cases hopen'
    · rcases Reservation.lookup_after hlookup' with hold' | ⟨c', i', he', hid', ho'⟩ | ⟨c', i', uid', v', he', hid', ho'⟩
      · rw [he] at hallows
        exact absurd hopen' (hallows.2.2.2.2.1 o' (Reservation.mem_owned.mpr ⟨identity', hold'⟩))
      · rw [he] at he'
        obtain ⟨-, rfl⟩ := Event.createIntent.inj he'
        rw [hid, hid']
      · rw [ho'] at hopen'
        cases hopen'
    · rw [ho] at hopen
      cases hopen
  · rw [List.pairwise_append]
    refine ⟨h.apart, List.pairwise_singleton _ _, fun p hp t ht => ?_⟩
    rw [List.mem_singleton.mp ht]
    exact hrow.apart h.remembers p hp

theorem accounts {past : List Row} {l : Life} (h : Life.machine.Replays .start past l) : l.Keeps Accounts past := by
  refine Life.induction .first (fun past r row hpast hrow => ?_) h
  have hafter := hpast.after hrow
  refine ⟨fun t ht => ?_, hafter.intended, hafter.one_open, hafter.apart⟩
  have hmemory := hafter.remembers t ht
  cases hevent : t.event <;> rw [hevent] at hmemory <;> exact hmemory

/-! ## Whole histories -/

theorem accounts_of_lookup {rows : List Row} {s : Ledger} (h : machine.Replays .empty rows s) {key : Name × Name}
    {r : Reservation} (hr : s.reservations.lookup key = some r) : Accounts (underKey key rows) r := by
  have hkeeps := accounts (lives h key)
  unfold Life.Keeps Ledger.life at hkeeps
  rw [hr] at hkeeps
  exact hkeeps

/-- Any two rows of one key, in the order of the history. -/
theorem apart_rows {rows : List Row} {s : Ledger} (h : machine.Replays .empty rows s) :
    rows.Pairwise fun p t => p.key = t.key → Apart p.event t.event := by
  rw [List.pairwise_iff_forall_sublist]
  intro p t hsub hkey
  have hunder := hsub.filter fun row : Row => row.key = t.key
  rw [List.filter_cons_of_pos (by simpa using hkey), List.filter_cons_of_pos (by simp), List.filter_nil] at hunder
  have ht : t ∈ rows := hsub.subset (by simp)
  obtain ⟨r, hr, -⟩ := sound_of_mem h ht
  exact List.pairwise_iff_forall_sublist.mp (accounts_of_lookup h hr).apart hunder

/-- The state before a row past the reservation, and what it says of the row. -/
theorem extends_of_split {before after : List Row} {row : Row} {s : Ledger}
    (h : machine.Replays .empty (before ++ row :: after) s) (hreserved : row.event ≠ .reserved) :
    ∃ u r, machine.Replays .empty before u ∧ u.reservations.lookup row.key = some r ∧
      Extends (underKey row.key before) r row := by
  obtain ⟨u, hu, hadmits, -⟩ := Machine.replays_append.mp h
  have hlife := projects.admits hadmits
  cases hr : u.reservations.lookup row.key with
  | none =>
    have hevent := hlife.event
    unfold Ledger.life at hevent
    rw [hr] at hevent
    exact absurd hevent hreserved
  | some r => exact ⟨u, r, hu, hr, Life.extends (lives hu row.key) hlife hr⟩

/-- The event creates a resource of the operation, or intends to. -/
def Event.touches (e : Event) (operation : Case) : Prop :=
  (∃ i, e = .createIntent operation i) ∨ ∃ i uid v, e = .created operation i uid v

/-- Every resource of a history is created at most once. -/
structure CreateOnce (rows : List Row) : Prop where
  apart : rows.Pairwise fun p t => p.key = t.key → Apart p.event t.event
  answered : ∀ before row after, rows = before ++ row :: after → ∀ c i uid v, row.event = .created c i uid v →
    (before.filter fun t => t.key = row.key ∧ t.event = .createIntent c i).length = 1
  current : ∀ before row after, rows = before ++ row :: after → ∀ c, row.event.touches c →
    ∃ u r, ReadTo before u ∧ u.reservations.lookup row.key = some r ∧ r.current = some c
  one_open : ∀ before after, rows = before ++ after → ∃ u, ReadTo before u ∧
    ∀ key r, u.reservations.lookup key = some r → ∀ identity identity' o o', r.resources.lookup identity = some o →
      r.resources.lookup identity' = some o' → o.created = none → o'.created = none → identity = identity'

theorem answered_of_split {before after : List Row} {row : Row} {s : Ledger}
    (h : machine.Replays .empty (before ++ row :: after) s) {c : Case} {i : Intent} {uid : Uid} {v : Version}
    (hevent : row.event = .created c i uid v) :
    (before.filter fun t => t.key = row.key ∧ t.event = .createIntent c i).length = 1 := by
  obtain ⟨u, r, hu, hr, hextends⟩ := extends_of_split h (by rw [hevent]; exact Event.noConfusion)
  obtain ⟨recorded, hallows, -⟩ := hextends.allows
  rw [hevent] at hallows
  have haccounts := accounts_of_lookup hu hr
  obtain ⟨-, t, ht, hintent⟩ := haccounts.intended _ _ hallows.2.2.1
  obtain ⟨hmem, hkey⟩ := mem_underKey.mp ht
  have hfound : t ∈ before.filter fun t => t.key = row.key ∧ t.event = .createIntent c i := by
    rw [List.mem_filter, decide_eq_true_eq]
    exact ⟨hmem, hkey, hintent⟩
  refine Nat.le_antisymm (length_le_one ?_) (List.length_pos_of_mem hfound)
  rw [List.pairwise_filter]
  refine (apart_rows hu).imp fun hpair hp hq => ?_
  simp only [decide_eq_true_eq] at hp hq
  exact ((hpair (hp.1.trans hq.1.symm)).intents c i c i hp.2 hq.2).2 rfl

theorem createOnce {rows : List Row} {s : Ledger} (hfits : ∀ row ∈ rows, row.Fits) (h : machine.Replays .empty rows s) :
    CreateOnce rows where
  apart := apart_rows h
  answered := by
    rintro before row after rfl c i uid v hevent
    exact answered_of_split h hevent
  current := by
    rintro before row after rfl c htouches
    have hreserved : row.event ≠ .reserved := by
      rcases htouches with ⟨i, he⟩ | ⟨i, uid, v, he⟩ <;> rw [he] <;> exact Event.noConfusion
    obtain ⟨u, r, hu, hr, hextends⟩ := extends_of_split h hreserved
    obtain ⟨recorded, hallows, -⟩ := hextends.allows
    refine ⟨u, r, foldlM_texts (fun t ht => hfits t (List.mem_append_left _ ht)) hu, hr, ?_⟩
    rcases htouches with ⟨i, he⟩ | ⟨i, uid, v, he⟩
    · rw [he] at hallows
      exact hallows.2.1
    · rw [he] at hallows
      exact hallows.2.1
  one_open := by
    rintro before after rfl
    obtain ⟨u, hu, -⟩ := Machine.replays_append.mp h
    exact ⟨u, foldlM_texts (fun t ht => hfits t (List.mem_append_left _ ht)) hu,
      fun key r hr => (accounts_of_lookup hu hr).one_open⟩

end

end HarnessConformance.Admission
