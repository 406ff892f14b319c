import HarnessConformance.Admission.CreateOnce
import HarnessConformance.Admission.Log
import HarnessConformance.ReplayStore.Custody

/-! # Runs of the admission log

Any number of instances call the log in any order. Without faults their calls are serial: the ledger grows by one admitted
row for each call that succeeds. With faults both journals of the service stop where they stand. -/

namespace HarnessConformance.Admission
open Lib Lib.Outcome Lib.Lines Lib.AppendLog
set_option autoImplicit false

section
variable [Runtime]

/-! ## One row -/

/-- A line behind an accepted history is one admitted row. -/
theorem row_of_line {raw line : Bytes} {s t : Ledger} (hs : parseReservations raw = .ok s) (hline : Clean line)
    (ht : parseReservations (raw ++ (line ++ [lineFeed])) = .ok t) :
    ∃ row : Row, line = row.text ∧ row.Fits ∧ s.Admits row ∧ t = s.push row := by
  simp only [parseReservations, bind_eq_ok, require_eq_ok, exists_const] at hs ht
  obtain ⟨⟨-, hended⟩, -, hs⟩ := hs
  obtain ⟨-, -, ht⟩ := ht
  rw [← List.append_assoc, splitLines_append_line hended hline] at ht
  obtain ⟨u, hu, hrow⟩ := foldlM_snoc.mp ht
  rw [hs] at hu
  obtain rfl := Except.ok.inj hu
  obtain ⟨row, ⟨htext, hfits⟩, hadmits, rfl⟩ := replayLine_eq_ok.mp hrow
  exact ⟨row, htext, hfits, hadmits, rfl⟩

variable [AddressReader]

/-- A call that succeeds: the state it found, the row it appended, and the head that it returns. -/
structure Succeeds (raw : Bytes) (op : Op) (after : Bytes) (reply : Digest) (s : Ledger) (row : Row) : Prop where
  found : parseReservations raw = .ok s
  admits : s.Admits row
  appended : after = raw ++ (row.text ++ [lineFeed])
  read : parseReservations after = .ok (s.push row)
  head : reply = (s.push row).previous
  expected : ∀ binding state operation now profile brokerBinding action expectedHistory observed,
    op = .recordResource binding state operation now profile brokerBinding action expectedHistory observed → raw = expectedHistory

theorem succeeds_of_prepare {poisoned : Bool} {raw row : Bytes} {op : Op} {reply : Digest}
    (h : prepare poisoned raw op = .ok (row, reply)) : ∃ s r, Succeeds raw op (raw ++ row) reply s r := by
  obtain ⟨-, ⟨s, hs⟩, ⟨json, rfl, rfl⟩, ⟨t, ht⟩, hexpected⟩ := prepare_eq_ok h
  obtain ⟨r, htext, -, hadmits, rfl⟩ := row_of_line hs (clean_canonicalText json) ht
  refine ⟨s, r, hs, hadmits, by rw [htext], ht, ?_, hexpected⟩
  rw [digestOf, htext]
  rfl

/-! ## Serial runs -/

section
variable {ι : Type} [DecidableEq ι]

/-- The ledger after operations of any instances on the empty storage. -/
def storage (ops : List (ι × Op)) : Bytes := (log.runClean (.start []) ops).raw

/-- What the call of an instance answers behind these operations. -/
def replyTo (ops : List (ι × Op)) (p : ι × Op) : Py Digest := log.stepReply (log.runClean (.start []) ops) ⟨p.1, p.2, .none⟩

/-- One more call is refused and changes nothing, or it succeeds. -/
theorem storage_snoc (ops : List (ι × Op)) (p : ι × Op) :
    ((∃ e, replyTo ops p = .error e) ∧ storage (ops ++ [p]) = storage ops) ∨
      ∃ reply s row, replyTo ops p = .ok reply ∧ Succeeds (storage ops) p.2 (storage (ops ++ [p])) reply s row := by
  obtain ⟨hraw, hreply⟩ := @Journal.runClean_step ι Op PyError Digest log _ [] ops p
  rw [replyTo, hreply, storage, hraw, storage]
  cases hp : log.prepare false (log.runClean (.start []) ops).raw p.2 with
  | error e => exact .inl ⟨⟨e, rfl⟩, rfl⟩
  | ok out =>
    obtain ⟨row, reply⟩ := out
    obtain ⟨s, r, h⟩ := succeeds_of_prepare hp
    exact .inr ⟨reply, s, r, rfl, h⟩

theorem storage_length_le (ops more : List (ι × Op)) : (storage ops).length ≤ (storage (ops ++ more)).length := by
  induction more using List.reverseRecOn with
  | nil => rw [List.append_nil]
  | append_singleton more p ih =>
    rw [← List.append_assoc]
    refine ih.trans ?_
    rcases storage_snoc (ops ++ more) p with ⟨-, hsame⟩ | ⟨reply, s, row, -, h⟩
    · rw [hsame]
    · rw [h.appended, List.length_append]
      exact Nat.le_add_right _ _

/-- The rows of the ledger, with the moment each of them was appended at. -/
theorem storage_rows (ops : List (ι × Op)) : ∃ (rows : List Row) (s : Ledger), History (storage ops) rows ∧
    machine.Replays .empty rows s ∧ storage ops = joinLines (rows.map Row.text) ∧
    ∀ n ≤ rows.length, ∃ m ≤ ops.length, storage (ops.take m) = joinLines ((rows.take n).map Row.text) := by
  induction ops using List.reverseRecOn with
  | nil =>
    refine ⟨[], .empty, ⟨rfl, nofun, .inl rfl, Nat.zero_le _, Nat.zero_le _⟩, rfl, rfl, fun n hn => ⟨0, le_rfl, ?_⟩⟩
    rw [List.take_nil, List.take_nil]
    rfl
  | append_singleton ops p ih =>
    obtain ⟨rows, s, hhistory, hs, hraw, hmoments⟩ := ih
    have hearlier (n : ℕ) (hn : n ≤ rows.length) : ∃ m ≤ (ops ++ [p]).length,
        storage ((ops ++ [p]).take m) = joinLines ((rows.take n).map Row.text) := by
      obtain ⟨m, hm, hmoment⟩ := hmoments n hn
      refine ⟨m, hm.trans (by simp), ?_⟩
      rw [List.take_append_of_le_length hm, hmoment]
    rcases storage_snoc ops p with ⟨-, hsame⟩ | ⟨reply, u, row, -, h⟩
    · rw [hsame]
      exact ⟨rows, s, hhistory, hs, hraw, hearlier⟩
    · have hu : u = s := by
        have hfound := parseReservations_eq_ok.mpr ⟨rows, hhistory, hs⟩
        rw [h.found] at hfound
        exact Except.ok.inj hfound
      subst hu
      obtain ⟨all, hall, hreplays⟩ := parseReservations_eq_ok.mp h.read
      have hjoin : storage (ops ++ [p]) = joinLines ((rows ++ [row]).map Row.text) := by
        rw [h.appended, hraw, List.map_append, List.map_singleton, joinLines_snoc, List.append_assoc]
      have hrows : all = rows ++ [row] := by
        refine text_map_injective ?_
        rw [← hall.lines, hjoin, splitLines_joinLines (clean_texts _)]
      rw [hrows] at hall hreplays
      refine ⟨rows ++ [row], _, hall, hreplays, hjoin, fun n hn => ?_⟩
      rcases Nat.lt_or_ge rows.length n with hlt | hle
      · refine ⟨(ops ++ [p]).length, le_rfl, ?_⟩
        rw [List.take_length, hjoin, List.take_of_length_le]
        rw [List.length_append, List.length_singleton]
        omega
      · rw [List.take_append_of_le_length hle]
        exact hearlier n hle

/-- Calls of any instances in any order: none is lost, and each moment of the ledger stays readable. -/
structure Serial (ops : List (ι × Op)) : Prop where
  call : ∀ p, ((∃ e, replyTo ops p = .error e) ∧ storage (ops ++ [p]) = storage ops) ∨
    ∃ reply s row, replyTo ops p = .ok reply ∧ Succeeds (storage ops) p.2 (storage (ops ++ [p])) reply s row
  rows : ∃ (rows : List Row) (s : Ledger), storage ops = joinLines (rows.map Row.text) ∧ parseReservations (storage ops) = .ok s ∧
    ∀ n ≤ rows.length, ∃ m ≤ ops.length, ∃ t, storage (ops.take m) = joinLines ((rows.take n).map Row.text) ∧
      parseReservations (joinLines ((rows.take n).map Row.text)) = .ok t ∧ machine.Replays t (rows.drop n) s

theorem serial (ops : List (ι × Op)) : Serial ops := by
  refine ⟨storage_snoc ops, ?_⟩
  obtain ⟨rows, s, hhistory, hs, hraw, hmoments⟩ := storage_rows ops
  refine ⟨rows, s, hraw, parseReservations_eq_ok.mpr ⟨rows, hhistory, hs⟩, fun n hn => ?_⟩
  obtain ⟨m, hm, hmoment⟩ := hmoments n hn
  obtain ⟨past, t, hpast, ht, hjoin, -⟩ := storage_rows (ops.take m)
  have hsame : past = rows.take n := by
    refine text_map_injective ?_
    rw [← hpast.lines, hmoment, splitLines_joinLines (clean_texts _)]
  rw [hsame] at hpast ht
  refine ⟨m, hm, t, hmoment, hmoment ▸ parseReservations_eq_ok.mpr ⟨_, hpast, ht⟩, ?_⟩
  rw [← List.take_append_drop n rows] at hs
  obtain ⟨u, hu, hrest⟩ := Machine.replays_append.mp hs
  rwa [hu.unique ht] at hrest

/-- No update of the ledger is lost, and of two calls prepared against one history at most one succeeds. -/
theorem no_lost_update (ops : List (ι × Op)) : Serial ops ∧ ∀ (p q : ι × Op) (between : List (ι × Op)) (history : Bytes),
    (∀ op ∈ [p.2, q.2], ∃ binding state operation now profile brokerBinding action observed,
      op = .recordResource binding state operation now profile brokerBinding action history observed) →
    (∃ reply, replyTo ops p = .ok reply) → ∃ e, replyTo (ops ++ [p] ++ between) q = .error e := by
  refine ⟨serial ops, fun p q between history hops ⟨reply, hreply⟩ => ?_⟩
  obtain ⟨_, _, _, _, _, _, _, _, hp⟩ := hops p.2 List.mem_cons_self
  obtain ⟨_, _, _, _, _, _, _, _, hq⟩ := hops q.2 (List.mem_cons_of_mem _ List.mem_cons_self)
  rcases storage_snoc ops p with ⟨⟨e, he⟩, -⟩ | ⟨_, s, row, -, hfirst⟩
  · rw [hreply] at he
    cases he
  · rcases storage_snoc (ops ++ [p] ++ between) q with ⟨he, -⟩ | ⟨_, _, _, -, hsecond⟩
    · exact he
    · have hlonger := storage_length_le (ops ++ [p]) between
      rw [hsecond.expected _ _ _ _ _ _ _ _ _ hq, hfirst.appended, hfirst.expected _ _ _ _ _ _ _ _ _ hp, List.length_append,
        List.length_append, List.length_singleton] at hlonger
      omega

end

/-! ## Capacity -/

omit [AddressReader] in
/-- Whoever holds the capacity holds it alone, and who has intended a creation holds it in every longer history. -/
structure Exclusive (raw : Bytes) (s : Ledger) : Prop where
  rows : ∃ rows, History raw rows ∧ CapacityExclusive rows s
  held : ∀ rows, History raw rows → ∀ row ∈ rows, ∀ operation intent, row.event = .createIntent operation intent →
    ∀ rest t, parseReservations (raw ++ rest) = .ok t → (∃ r, t.reservations.lookup row.key = some r ∧ r.held = true) ∧
      ∃ more : List Row, splitLines (raw ++ rest) = (rows ++ more).map Row.text ∧ ∀ later ∈ more, later.event ≠ .reserved

omit [AddressReader] in
theorem exclusive_of_accepted {raw : Bytes} {s : Ledger} (h : parseReservations raw = .ok s) : Exclusive raw s := by
  obtain ⟨rows, hhistory, hs⟩ := parseReservations_eq_ok.mp h
  refine ⟨⟨rows, hhistory, capacityExclusive hs⟩, fun rows' hhistory' row hrow operation intent hevent rest t ht => ?_⟩
  obtain rfl : rows' = rows := text_map_injective (hhistory'.lines.symm.trans hhistory.lines)
  obtain ⟨all, hall, hreplays⟩ := parseReservations_eq_ok.mp ht
  obtain ⟨more, rfl, hmore⟩ := hhistory.extension hs hall hreplays
  exact ⟨held_of_intent hreplays (List.mem_append_left _ hrow) hevent, more, hall.lines,
    not_reserved_after_intent hs hmore hrow hevent⟩

/-- Capacity is exclusive in every accepted history, and in every history that calls with any faults leave behind it. -/
theorem capacity_exclusive {ι : Type} [DecidableEq ι] {raw : Bytes} {s : Ledger} (h : parseReservations raw = .ok s)
    (calls : List (Call ι Op)) : Exclusive raw s ∧ ∃ kept torn t, (log.run (.start raw) calls).raw = kept ++ torn ∧ raw <+: kept ∧
      parseReservations kept = .ok t ∧ Exclusive kept t ∧ (torn = [] ∨ ∀ u, parseReservations (kept ++ torn) ≠ .ok u) := by
  obtain ⟨kept, torn, hraw, hprefix, ⟨t, ht⟩, htorn⟩ := Journal.run_kept (J := log) (s := .start raw) ⟨s, h⟩ rfl calls
  refine ⟨exclusive_of_accepted h, kept, torn, t, hraw, hprefix, ht, exclusive_of_accepted ht, htorn.imp_right fun hne u hu => ?_⟩
  rw [hraw] at hne
  exact hne (log.ended ⟨u, hu⟩)

/-! ## Faults -/

/-- Behind any accepted histories both journals of the service stop at a fault: what was refused left no trace, who saw a fault
writes no more, nobody writes behind a torn row, and a row that is whole is accepted. -/
theorem journals_fail_stop {ι : Type} [DecidableEq ι] {raw raw' : Bytes} {s : Ledger} {s' : ReplayStore.Replay}
    (h : parseReservations raw = .ok s) (h' : ReplayStore.parseJournal raw' = .ok s') (calls : List (Call ι Op))
    (calls' : List (Call ι ReplayStore.Op)) : log.StopsAfterFault raw calls ∧ ReplayStore.log.StopsAfterFault raw' calls' :=
  ⟨log.stopsAfterFault ⟨s, h⟩ calls, ReplayStore.log.stopsAfterFault ⟨s', h'⟩ calls'⟩

end

namespace Sample

/-- An address reader for runs that hold no address. -/
abbrev noAddresses : AddressReader := ⟨fun _ => none⟩

/-- The append of one instance stops after a byte, and another instance goes on. -/
def calls : List (Call ℕ Op) :=
  [⟨0, .record binding.toJson (.str "RUNNING") (.str Case.hostIsolationNegatives.name) (.str newYear.text) .null, .append 1⟩,
    ⟨1, .record binding.toJson (.str "RUNNING") (.str Case.hostIsolationNegatives.name) (.str newYear.text) .null, .none⟩]

end Sample

theorem capacity_exclusive_reserved : ∃ s kept torn, @Exclusive .ascii (Sample.reserved.text ++ [lineFeed]) s ∧
    ((@log .ascii Sample.noAddresses).run (.start (Sample.reserved.text ++ [lineFeed])) Sample.calls).raw = kept ++ torn := by
  let _ := Runtime.ascii
  let _ := Sample.noAddresses
  obtain ⟨hexclusive, kept, torn, -, hraw, -⟩ := capacity_exclusive (Sample.parse_reserved (.inl rfl)) Sample.calls
  exact ⟨_, kept, torn, hexclusive, hraw⟩

theorem journals_fail_stop_reserved : (@log .ascii Sample.noAddresses).StopsAfterFault (Sample.reserved.text ++ [lineFeed]) Sample.calls := by
  let _ := Runtime.ascii
  let _ := Sample.noAddresses
  exact (journals_fail_stop (Sample.parse_reserved (.inl rfl)) ReplayStore.Sample.parse_reserved Sample.calls []).1

end HarnessConformance.Admission
