import HarnessConformance.Admission.Reader

/-! # The life of one reservation

The rows of one key, as a machine of their own. The ledger is such a machine for each key, joined
only by the rule that no reservation is opened while another one is held. -/

namespace HarnessConformance.Admission
open Lib Lib.Outcome Lib.Lines
set_option autoImplicit false

/-- A reservation, once opened, and the operations with a recorded cleanup. -/
structure Life where
  reservation? : Option Reservation
  recorded : List Case

namespace Life

def start : Life := ⟨none, []⟩

def hasRecorded (l : Life) (e : Event) : Bool :=
  match e.operation? with
  | none => false
  | some operation => operation ∈ l.recorded

def recordedAfter (l : Life) : Event → List Case
  | .recorded operation _ => operation :: l.recorded
  | _ => l.recorded

end Life

/-- The rows of one key, in order. -/
def underKey (key : Name × Name) (rows : List Row) : List Row := rows.filter fun row => row.key = key

theorem mem_underKey {key : Name × Name} {rows : List Row} {row : Row} :
    row ∈ underKey key rows ↔ row ∈ rows ∧ row.key = key := by
  rw [underKey, List.mem_filter, decide_eq_true_eq]

def Ledger.recordedOf (s : Ledger) (key : Name × Name) : List Case := (s.recorded.filter fun p => p.1 = key).map Prod.snd

/-- What a ledger holds under a key. -/
def Ledger.life (s : Ledger) (key : Name × Name) : Life := ⟨s.reservations.lookup key, s.recordedOf key⟩

theorem Ledger.mem_recordedOf {s : Ledger} {key : Name × Name} {operation : Case} :
    operation ∈ s.recordedOf key ↔ (key, operation) ∈ s.recorded := by
  simp only [recordedOf, List.mem_map, List.mem_filter, decide_eq_true_eq]
  constructor
  · rintro ⟨⟨k, c⟩, ⟨hmem, rfl⟩, rfl⟩
    exact hmem
  · exact fun hmem => ⟨(key, operation), ⟨hmem, rfl⟩, rfl⟩

theorem Ledger.hasRecorded_life (s : Ledger) (key : Name × Name) (e : Event) :
    s.hasRecorded key e = (s.life key).hasRecorded e := by
  unfold hasRecorded Life.hasRecorded
  cases e.operation? with
  | none => rfl
  | some operation =>
    have hmem : operation ∈ (s.life key).recorded ↔ (key, operation) ∈ s.recorded := mem_recordedOf
    exact (decide_eq_decide.mpr hmem).symm

variable [Runtime]

namespace Life

structure Admits (l : Life) (row : Row) : Prop where
  event : match l.reservation? with
    | none => row.event = .reserved
    | some prior => (row.binding = prior.binding ∧ prior.last ≤ row.observedAt.instant ∧ prior.held = true) ∧
        prior.Allows (l.hasRecorded row.event) row.observedAt row.event

def next (l : Life) (row : Row) : Reservation :=
  match l.reservation? with
  | none => .first row
  | some prior => { prior.after row.event with last := row.observedAt.instant }

def push (l : Life) (row : Row) : Life := ⟨some (l.next row), l.recordedAfter row.event⟩

def machine : Machine Life Row := ⟨Admits, push⟩

end Life

/-! ## The ledger, key by key -/

theorem Ledger.recordedOf_push (s : Ledger) (row : Row) (key : Name × Name) : (s.push row).recordedOf key =
    if row.key = key then (s.life key).recordedAfter row.event else s.recordedOf key := by
  unfold recordedOf push recordedAfter Life.recordedAfter life recordedOf
  by_cases hkey : row.key = key
  · rw [if_pos hkey]
    cases row.event <;> simp [hkey]
  · rw [if_neg hkey]
    cases row.event <;> simp [hkey]

theorem projects : Machine.Projects machine Life.machine Row.key Ledger.life where
  admits {s row} h := by
    refine ⟨?_⟩
    have hevent := h.event
    change match s.reservations.lookup row.key with | none => _ | some prior => _
    cases hlookup : s.reservations.lookup row.key with
    | none =>
      rw [hlookup] at hevent
      exact hevent.1
    | some prior =>
      rw [hlookup, s.hasRecorded_life] at hevent
      exact hevent
  push s row := by
    have hrecorded := s.recordedOf_push row row.key
    rw [if_pos rfl] at hrecorded
    change Life.mk _ _ = Life.mk _ _
    rw [Life.mk.injEq]
    exact ⟨AList.lookup_insert _, hrecorded⟩
  push_ne s row key hkey := by
    have hrecorded := s.recordedOf_push row key
    rw [if_neg (Ne.symm hkey)] at hrecorded
    change Life.mk _ _ = Life.mk _ _
    rw [Life.mk.injEq]
    exact ⟨AList.lookup_insert_ne hkey, hrecorded⟩

/-- The rows of every key are a life. -/
theorem lives {rows : List Row} {s : Ledger} (h : machine.Replays .empty rows s) (key : Name × Name) :
    Life.machine.Replays .start (underKey key rows) (s.life key) := projects.replays h key

/-! ## What every life keeps -/

/-- A row that a reservation with the given rows behind it takes. -/
structure Extends (past : List Row) (r : Reservation) (row : Row) : Prop where
  binding : row.binding = r.binding
  clock : r.last ≤ row.observedAt.instant
  held : r.held = true
  allows : ∃ recorded, r.Allows recorded row.observedAt row.event ∧ (recorded = false →
    ∀ t ∈ past, ∀ operation receipt, t.event = .recorded operation receipt → row.event.operation? ≠ some operation)

/-- The state the reader's loop has reached after some rows. -/
def ReadTo (rows : List Row) (s : Ledger) : Prop := (rows.map Row.text).foldlM replayLine .empty = .ok s

/-- A reservation once opened is `P` with the rows behind it. -/
def Life.Keeps (P : List Row → Reservation → Prop) (past : List Row) (l : Life) : Prop :=
  match l.reservation? with
  | none => past = []
  | some r => P past r

theorem Life.mem_recorded {past : List Row} {l : Life} (h : machine.Replays .start past l) {t : Row} (ht : t ∈ past)
    {operation : Case} {receipt : Receipt} (hevent : t.event = .recorded operation receipt) : operation ∈ l.recorded := by
  have hall : ∀ t ∈ past, ∀ operation receipt, t.event = .recorded operation receipt → operation ∈ l.recorded := by
    refine h.induction (fun past l => ∀ t ∈ past, ∀ operation receipt, t.event = .recorded operation receipt →
      operation ∈ l.recorded) (fun t ht => absurd ht List.not_mem_nil) ?_
    intro past u row _ hpast _ t ht operation receipt hevent
    change operation ∈ u.recordedAfter row.event
    rcases List.mem_append.mp ht with ht | ht
    · have hmem := hpast t ht operation receipt hevent
      unfold recordedAfter
      split
      · exact List.mem_cons_of_mem _ hmem
      · exact hmem
    · rw [List.mem_singleton.mp ht] at hevent
      rw [hevent]
      exact List.mem_cons_self
  exact hall t ht operation receipt hevent

theorem Life.extends {past : List Row} {l : Life} (h : machine.Replays .start past l) {row : Row} (hadmits : l.Admits row)
    {r : Reservation} (hr : l.reservation? = some r) : Extends past r row := by
  have hevent := hadmits.event
  rw [hr] at hevent
  obtain ⟨⟨hbinding, hclock, hheld⟩, hallows⟩ := hevent
  refine ⟨hbinding, hclock, hheld, _, hallows, fun hfalse t ht operation receipt hrecorded hoperation => ?_⟩
  rw [hasRecorded, hoperation] at hfalse
  exact of_decide_eq_false hfalse (mem_recorded h ht hrecorded)

theorem Life.induction {P : List Row → Reservation → Prop} (hfirst : ∀ row, row.event = .reserved → P [row] (.first row))
    (hnext : ∀ past r row, P past r → Extends past r row →
      P (past ++ [row]) { r.after row.event with last := row.observedAt.instant })
    {past : List Row} {l : Life} (h : machine.Replays .start past l) : l.Keeps P past := by
  refine h.induction (fun past l => l.Keeps P past) rfl ?_
  intro past u row hu hpast hadmits
  have hevent := hadmits.event
  change P (past ++ [row]) (u.next row)
  unfold next
  unfold Keeps at hpast
  cases hprior : u.reservation? with
  | none =>
    rw [hprior] at hevent hpast
    rw [show past = [] from hpast]
    exact hfirst row hevent
  | some prior =>
    rw [hprior] at hpast
    exact hnext past prior row hpast (Life.extends hu hadmits hprior)

end HarnessConformance.Admission
