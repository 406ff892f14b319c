import HarnessConformance.Admission.Life

/-! # Capacity

A reservation gives its capacity back only when every case has run and every run was closed by a
clean receipt, and a resource once intended never leaves a clean receipt behind it. -/

namespace HarnessConformance.Admission
open Lib Lib.Outcome Lib.Lines
set_option autoImplicit false

/-! ## Owned resources -/

namespace Reservation
variable {r : Reservation} {operation : Case} {intent : Intent} {created : Option (Uid × Version)} {o : Owned}

theorem mem_owned : o ∈ r.owned ↔ ∃ identity, r.resources.lookup identity = some o := by
  rw [owned, List.mem_map]
  constructor
  · rintro ⟨⟨identity, o'⟩, hmem, rfl⟩
    exact ⟨identity, AList.mem_lookup_iff.mpr hmem⟩
  · rintro ⟨identity, hlookup⟩
    exact ⟨⟨identity, o⟩, AList.mem_lookup_iff.mp hlookup, rfl⟩

theorem mem_ownedBy : o ∈ r.ownedBy operation ↔ o ∈ r.owned ∧ o.operation = operation := by
  rw [ownedBy, List.mem_filter, decide_eq_true_eq]

theorem lookup_own_self : (r.own operation intent created).resources.lookup intent.identity =
    some ⟨intent, operation, created⟩ := AList.lookup_insert _

theorem lookup_own_ne {identity : Identity} (h : identity ≠ intent.identity) :
    (r.own operation intent created).resources.lookup identity = r.resources.lookup identity :=
  AList.lookup_insert_ne h

theorem mem_owned_own (h : o ∈ (r.own operation intent created).owned) : o = ⟨intent, operation, created⟩ ∨ o ∈ r.owned := by
  obtain ⟨identity, hlookup⟩ := mem_owned.mp h
  by_cases hid : identity = intent.identity
  · rw [hid, lookup_own_self] at hlookup
    exact .inl (Option.some.inj hlookup).symm
  · rw [lookup_own_ne hid] at hlookup
    exact .inr (mem_owned.mpr ⟨identity, hlookup⟩)

theorem own_owned_ne_nil : (r.own operation intent created).owned ≠ [] :=
  List.ne_nil_of_mem (mem_owned.mpr ⟨intent.identity, lookup_own_self⟩)

end Reservation

/-! ## What a reservation owes its rows -/

structure Sound (past : List Row) (r : Reservation) : Prop where
  nodup : r.done.Nodup
  current : ∀ c, r.current = some c → c ∈ r.done
  closed : ∀ c ∈ r.done, r.current ≠ some c →
    ∃ row ∈ past, ∃ receipt, row.event = .recorded c receipt ∧ isClean receipt.val = true
  owned : ∀ o ∈ r.owned, r.current = some o.operation
  released : r.held = false → r.current = none ∧ Case.all.length ≤ r.done.length
  intended : ∀ row ∈ past, ∀ c i, row.event = .createIntent c i → r.owned ≠ []

theorem Sound.done_perm {past : List Row} {r : Reservation} (h : Sound past r) (hheld : r.held = false) :
    r.done.Perm Case.all :=
  (h.nodup.subperm fun c _ => Case.mem_all c).perm_of_length_le (h.released hheld).2

theorem Sound.owned_of_released {past : List Row} {r : Reservation} (h : Sound past r) (hheld : r.held = false) :
    r.owned = [] := by
  refine List.eq_nil_iff_forall_not_mem.mpr fun o ho => ?_
  have hcurrent := h.owned o ho
  rw [(h.released hheld).1] at hcurrent
  cases hcurrent

theorem Sound.first (row : Row) (h : row.event = .reserved) : Sound [row] (.first row) := by
  refine ⟨List.nodup_nil, fun c hc => ?_, fun c hc => absurd hc List.not_mem_nil, fun o ho => absurd ho List.not_mem_nil,
    fun hheld => ?_, fun row' hrow c i hevent => ?_⟩
  · cases hc
  · cases hheld
  · rw [List.mem_singleton.mp hrow, h] at hevent
    cases hevent

variable [Runtime]

/-! ## Clean receipts -/

/-- The receipt a recorded row may carry lists what remains, and is clean when nothing does. -/
theorem allows_recorded {r : Reservation} {recorded : Bool} {observedAt : TimeText} {operation : Case} {receipt : Receipt}
    (h : r.Allows recorded observedAt (.recorded operation receipt)) : ∃ remaining,
    receipt.val.get? "remainingResources" = some (.arr remaining) ∧ (isClean receipt.val = true ↔ remaining = []) := by
  obtain ⟨-, remaining, hget, hexpected, -⟩ := h
  obtain ⟨rows, hrows, hjson, hreads, -⟩ := cleanupReceipt_eq_ok (receipt.property.1.get? hget) hexpected
  obtain rfl := Json.arr.inj hrows
  have hstate : receipt.val.get? "state" = some (.str (if remaining = [] then "CLEAN" else "CLEANUP_PENDING")) := by
    rw [hreads, Json.get?_canon hjson]
    rfl
  refine ⟨remaining, hget, ?_⟩
  rw [isClean, hstate, decide_eq_true_eq]
  by_cases hnil : remaining = []
  · simp [hnil]
  · simp [hnil]

/-- A clean receipt leaves nothing its operation owns. -/
theorem ownedBy_of_clean {r : Reservation} {recorded : Bool} {observedAt : TimeText} {operation : Case} {receipt : Receipt}
    (h : r.Allows recorded observedAt (.recorded operation receipt)) (hclean : isClean receipt.val = true) :
    r.ownedBy operation = [] := by
  obtain ⟨remaining, hget, hiff⟩ := allows_recorded h
  obtain ⟨-, -, -, -, haccounted⟩ := h
  by_contra hne
  rw [requireAccounted, if_neg hne] at haccounted
  simp only [bind_eq_ok, item_eq_ok, requireList_eq_ok, require_eq_ok] at haccounted
  obtain ⟨_, hget', listed, ⟨hlisted, -⟩, _, -, hlength, -⟩ := haccounted
  rw [hget, hlisted] at hget'
  rw [← Json.arr.inj (Option.some.inj hget'), hiff.mp hclean] at hlength
  exact hne (List.length_eq_zero_iff.mp hlength.symm)

/-! ## Every row keeps it -/

/-- An accepted row keeps a held reservation sound. -/
theorem Sound.after {past : List Row} {r : Reservation} (h : Sound past r) (hheld : r.held = true) {recorded : Bool}
    {row : Row} (hallows : r.Allows recorded row.observedAt row.event) : Sound (past ++ [row]) (r.after row.event) := by
  have hclosed : ∀ c ∈ r.done, r.current ≠ some c →
      ∃ t ∈ past ++ [row], ∃ receipt, t.event = .recorded c receipt ∧ isClean receipt.val = true := by
    intro c hc hne
    obtain ⟨t, ht, hrecorded⟩ := h.closed c hc hne
    exact ⟨t, List.mem_append_left _ ht, hrecorded⟩
  have hintended (hne : ∀ c i, row.event ≠ .createIntent c i) :
      ∀ t ∈ past ++ [row], ∀ c i, t.event = .createIntent c i → r.owned ≠ [] := by
    intro t ht c i hevent
    rcases List.mem_append.mp ht with ht | ht
    · exact h.intended t ht c i hevent
    · rw [List.mem_singleton.mp ht] at hevent
      exact absurd hevent (hne c i)
  cases hevent : row.event with
  | reserved =>
    rw [hevent] at hallows
    exact hallows.elim
  | running operation =>
    rw [hevent] at hallows hintended
    obtain ⟨hnone, hnew⟩ := hallows
    refine ⟨?_, ?_, ?_, ?_, ?_, hintended fun _ _ heq => Event.noConfusion heq⟩
    · rw [Reservation.after, List.nodup_append]
      exact ⟨h.nodup, List.nodup_singleton _, fun c hc d hd hcd => hnew (List.mem_singleton.mp hd ▸ hcd ▸ hc)⟩
    · intro c hc
      obtain rfl := Option.some.inj hc
      exact List.mem_append_right _ (List.mem_singleton_self _)
    · intro c hc hne
      rcases List.mem_append.mp hc with hc | hc
      · exact hclosed c hc (by rw [hnone]; nofun)
      · exact absurd (congrArg some (List.mem_singleton.mp hc).symm) hne
    · intro o ho
      have hcurrent := h.owned o ho
      rw [hnone] at hcurrent
      cases hcurrent
    · intro hfalse
      exact absurd (hheld.symm.trans hfalse) (by decide)
  | recorded operation receipt =>
    rw [hevent] at hallows hintended
    have hcurrent : r.current = some operation := hallows.1
    by_cases hclean : isClean receipt.val = true
    · have hafter : (r.after (.recorded operation receipt)).current = none := if_pos hclean
      have howned := ownedBy_of_clean hallows hclean
      refine ⟨h.nodup, ?_, ?_, ?_, ?_, hintended fun _ _ heq => Event.noConfusion heq⟩
      · rw [hafter]
        nofun
      · intro c hc _
        by_cases hsame : c = operation
        · exact ⟨row, by simp, receipt, hsame ▸ hevent, hclean⟩
        · exact hclosed c hc (by rw [hcurrent]; exact fun heq => hsame (Option.some.inj heq).symm)
      · intro o ho
        have hoperation : o.operation = operation := Option.some.inj ((h.owned o ho).symm.trans hcurrent)
        have hmem : o ∈ r.ownedBy operation := Reservation.mem_ownedBy.mpr ⟨ho, hoperation⟩
        rw [howned] at hmem
        cases hmem
      · intro hfalse
        refine ⟨hafter, ?_⟩
        simpa [Reservation.after, hclean] using hfalse
    · have hafter : (r.after (.recorded operation receipt)).current = some operation := if_neg hclean
      refine ⟨h.nodup, ?_, ?_, ?_, ?_, hintended fun _ _ heq => Event.noConfusion heq⟩
      · rw [hafter, ← hcurrent]
        exact h.current
      · rw [hafter, ← hcurrent]
        exact hclosed
      · rw [hafter, ← hcurrent]
        exact h.owned
      · intro hfalse
        simp [Reservation.after, hclean] at hfalse
  | createIntent operation intent =>
    rw [hevent] at hallows
    refine ⟨h.nodup, h.current, hclosed, ?_, ?_, fun _ _ _ _ _ => Reservation.own_owned_ne_nil⟩
    · intro o ho
      rcases Reservation.mem_owned_own ho with rfl | ho
      · exact hallows.2.1
      · exact h.owned o ho
    · intro hfalse
      exact absurd (hheld.symm.trans hfalse) (by decide)
  | created operation intent uid version =>
    rw [hevent] at hallows
    refine ⟨h.nodup, h.current, hclosed, ?_, ?_, fun _ _ _ _ _ => Reservation.own_owned_ne_nil⟩
    · intro o ho
      rcases Reservation.mem_owned_own ho with rfl | ho
      · exact hallows.2.1
      · exact h.owned o ho
    · intro hfalse
      exact absurd (hheld.symm.trans hfalse) (by decide)

/-- Every life is sound. -/
theorem sound {past : List Row} {l : Life} (h : Life.machine.Replays .start past l) : l.Keeps Sound past := by
  refine Life.induction .first (fun past r row hpast hrow => ?_) h
  obtain ⟨recorded, hallows, -⟩ := hrow.allows
  have hafter := hpast.after hrow.held hallows
  exact ⟨hafter.nodup, hafter.current, hafter.closed, hafter.owned, hafter.released, hafter.intended⟩

/-- The reservation of a key with a row. -/
theorem sound_of_mem {rows : List Row} {s : Ledger} (h : machine.Replays .empty rows s) {row : Row} (hrow : row ∈ rows) :
    ∃ r, s.reservations.lookup row.key = some r ∧ Sound (underKey row.key rows) r := by
  have hkeeps := sound (lives h row.key)
  unfold Life.Keeps Ledger.life at hkeeps
  cases hlookup : s.reservations.lookup row.key with
  | none =>
    rw [hlookup] at hkeeps
    have hmem : row ∈ underKey row.key rows := mem_underKey.mpr ⟨hrow, rfl⟩
    rw [show underKey row.key rows = [] from hkeeps] at hmem
    cases hmem
  | some r =>
    rw [hlookup] at hkeeps
    exact ⟨r, rfl, hkeeps⟩

theorem sound_of_lookup {rows : List Row} {s : Ledger} (h : machine.Replays .empty rows s) {key : Name × Name}
    {r : Reservation} (hr : s.reservations.lookup key = some r) : Sound (underKey key rows) r := by
  have hkeeps := sound (lives h key)
  unfold Life.Keeps Ledger.life at hkeeps
  rw [hr] at hkeeps
  exact hkeeps

/-! ## One held reservation -/

def OneHeld (s : Ledger) : Prop := ∀ key key' r r', s.reservations.lookup key = some r →
  s.reservations.lookup key' = some r' → r.held = true → r'.held = true → key = key'

theorem oneHeld {rows : List Row} {s : Ledger} (h : machine.Replays .empty rows s) : OneHeld s := by
  refine h.induction (fun _ s => OneHeld s) (fun key key' r r' hr => ?_) ?_
  · cases hr
  intro past u row _ hpast hrow
  -- A held reservation under another key was held before the row.
  have hother : ∀ key r, key ≠ row.key → (u.push row).reservations.lookup key = some r → r.held = false := by
    intro key r hne hr
    rw [show (u.push row).reservations.lookup key = _ from AList.lookup_insert_ne hne] at hr
    have hevent := hrow.event
    cases hlookup : u.reservations.lookup row.key with
    | none =>
      rw [hlookup] at hevent
      exact hevent.2 _ (AList.mem_lookup_iff.mp hr)
    | some prior =>
      rw [hlookup] at hevent
      by_contra hheld
      exact hne (hpast key row.key r prior hr hlookup (by simpa using hheld) hevent.1.2.2)
  intro key key' r r' hr hr' hheld hheld'
  by_cases hkey : key = row.key
  · by_cases hkey' : key' = row.key
    · rw [hkey, hkey']
    · exact absurd (hheld'.symm.trans (hother key' r' hkey' hr')) (by decide)
  · exact absurd (hheld.symm.trans (hother key r hkey hr)) (by decide)

/-! ## An intent holds its reservation -/

theorem held_of_intent {rows : List Row} {s : Ledger} (h : machine.Replays .empty rows s) {row : Row} (hrow : row ∈ rows)
    {operation : Case} {intent : Intent} (hevent : row.event = .createIntent operation intent) :
    ∃ r, s.reservations.lookup row.key = some r ∧ r.held = true := by
  obtain ⟨r, hr, hsound⟩ := sound_of_mem h hrow
  refine ⟨r, hr, ?_⟩
  have howned := hsound.intended row (mem_underKey.mpr ⟨hrow, rfl⟩) operation intent hevent
  by_contra hheld
  exact howned (hsound.owned_of_released (by simpa using hheld))

theorem not_reserved_after_intent {rows more : List Row} {s t : Ledger} (h : machine.Replays .empty rows s)
    (hmore : machine.Replays s more t) {row : Row} (hrow : row ∈ rows) {operation : Case} {intent : Intent}
    (hevent : row.event = .createIntent operation intent) : ∀ later ∈ more, later.event ≠ .reserved := by
  intro later hlater hreserved
  obtain ⟨before, rest, rfl⟩ := List.append_of_mem hlater
  obtain ⟨u, hbefore, hrest⟩ := Machine.replays_append.mp hmore
  have hu : machine.Replays .empty (rows ++ before) u := Machine.replays_append.mpr ⟨s, h, hbefore⟩
  obtain ⟨r, hr, hheld⟩ := held_of_intent hu (List.mem_append_left _ hrow) hevent
  have hadmits := hrest.1.event
  rw [hreserved] at hadmits
  cases hlookup : u.reservations.lookup later.key with
  | none =>
    rw [hlookup] at hadmits
    have hfree := hadmits.2 _ (AList.mem_lookup_iff.mp hr)
    exact absurd (hheld.symm.trans hfree) (by decide)
  | some prior =>
    rw [hlookup] at hadmits
    exact hadmits.2.elim

/-- Exclusive use of the capacity, in a ledger with the given rows. -/
structure CapacityExclusive (rows : List Row) (s : Ledger) : Prop where
  one_held : OneHeld s
  done : ∀ key r, s.reservations.lookup key = some r → r.held = false → r.done.Perm Case.all
  closed : ∀ key r, s.reservations.lookup key = some r → r.held = false → ∀ c, ∃ row ∈ rows, row.key = key ∧
    ∃ receipt, row.event = .recorded c receipt ∧ isClean receipt.val = true
  owns_nothing : ∀ key r, s.reservations.lookup key = some r → r.held = false → r.owned = []

theorem capacityExclusive {rows : List Row} {s : Ledger} (h : machine.Replays .empty rows s) : CapacityExclusive rows s where
  one_held := oneHeld h
  done _ _ hr hheld := (sound_of_lookup h hr).done_perm hheld
  closed key r hr hheld c := by
    have hsound := sound_of_lookup h hr
    have hdone : c ∈ r.done := (hsound.done_perm hheld).mem_iff.mpr (Case.mem_all c)
    obtain ⟨row, hrow, hclean⟩ := hsound.closed c hdone (by rw [(hsound.released hheld).1]; nofun)
    obtain ⟨hmem, hkey⟩ := mem_underKey.mp hrow
    exact ⟨row, hmem, hkey, hclean⟩
  owns_nothing _ _ hr hheld := (sound_of_lookup h hr).owned_of_released hheld

end HarnessConformance.Admission
