import HarnessConformance.Coordination.Step

/-! # Safety of the board

What holds of every record and of the log in every state reached, and what every further operation
keeps. An operation counts as accepted when it is answered so and changes a record: a retry of an
accepted operation repeats the answer only. -/

namespace HarnessConformance.Coordination
open Lib
set_option autoImplicit false

variable {n : ℕ}

def Reply.accepted (reply : Reply) : Bool := reply.answer = .accepted && reply.changed

def Row.isExpiryOf (i : Fin n) : Row n → Bool
  | .expiry _ j _ => j = i
  | .answer _ _ _ => false

/-- An accepted operation of some kind on the item. -/
def Row.isAccepted (p : Kind → Bool) (i : Fin n) : Row n → Bool
  | .expiry _ _ _ => false
  | .answer _ op reply => reply.accepted && p op.body.kind && decide (slotOf n op.body.item = some i)

def Kind.isMerge (kind : Kind) : Bool := kind = .merge

/-! ## Outcomes -/

section
variable {cfg : Config} {b : Board n} {t : ℤ} {op : Op}

def expiryRows (cfg : Config) (t : ℤ) (b : Board n) : List (Row n) :=
  (List.finRange n).flatMap fun i => (expiredOf cfg t (b.records i)).map fun c => .expiry t i c

theorem apply_log (hb : cfg.bypass = []) (b : Board n) (t : ℤ) (op : Op) :
    (apply cfg b t op).1.log = b.log ++ (expiryRows cfg t b ++ [.answer t op (apply cfg b t op).2]) := by
  rw [← List.append_assoc]
  rcases apply_cases hb b t op with ⟨info, answer, -, h⟩ | ⟨-, -, -, i, info, record, -, -, h⟩
  · rw [h]
    rfl
  · rw [h]
    rfl

/-- The record of an item after an operation: expired only, or changed by it. -/
theorem apply_record (hb : cfg.bypass = []) (b : Board n) (t : ℤ) (op : Op) (j : Fin n) :
    ((apply cfg b t op).1.records j = expireRecord cfg t (b.records j) ∧
        ¬ ((apply cfg b t op).2.accepted = true ∧ slotOf n op.body.item = some j)) ∨
      ∃ info, slotOf n op.body.item = some j ∧
        Change cfg (expire cfg t b) t op (expireRecord cfg t (b.records j)) info ((apply cfg b t op).1.records j) ∧
        (apply cfg b t op).2.accepted = true ∧ (apply cfg b t op).2.claimOpId = info.claimOpId := by
  rcases apply_cases hb b t op with ⟨info, answer, hinfo, h⟩ | ⟨-, -, -, i, info, record, hslot, hchange, h⟩
  · left
    rw [h]
    refine ⟨rfl, fun haccepted => ?_⟩
    simp [finish, Reply.accepted, hinfo] at haccepted
  · rw [h]
    by_cases hij : i = j
    · subst hij
      refine .inr ⟨info, hslot, ?_, ?_, rfl⟩
      · have hafter : (finish ((expire cfg t b).setRecord i record) t op info .accepted).1.records i = record := by
          simp [finish, Board.setRecord]
        rw [hafter]
        exact hchange
      · simp [finish, Reply.accepted, hchange.changed]
    · left
      refine ⟨?_, fun haccepted => hij (Option.some.inj (hslot.symm.trans haccepted.2))⟩
      simp [finish, Board.setRecord, Function.update_of_ne (Ne.symm hij), expire]

end

/-! ## Records -/

/-- At most one claim, and exactly one when held. -/
structure RecordOk (record : Record) : Prop where
  single : record.claims.length ≤ 1
  held : record.state = .held ↔ record.claims ≠ []

theorem RecordOk.eq_singleton {record : Record} (h : RecordOk record) {c : Claim} (hc : c ∈ record.claims) :
    record.claims = [c] := by
  obtain ⟨d, hd⟩ := List.length_eq_one_iff.mp (le_antisymm h.single (List.length_pos_of_mem hc))
  rw [hd, List.mem_singleton] at hc
  rw [hd, hc]

theorem RecordOk.nil {record : Record} (h : RecordOk record) (hstate : record.state ≠ .held) : record.claims = [] := by
  by_contra hne
  exact hstate (h.held.mpr hne)

theorem expireRecord_ok (cfg : Config) (t : ℤ) {record : Record} (h : RecordOk record) : RecordOk (expireRecord cfg t record) := by
  unfold expireRecord
  split_ifs with hstate
  · refine ⟨(List.length_filter_le _ _).trans h.single, ?_⟩
    dsimp only
    split_ifs with hlive
    · simp [hlive]
    · simp only [true_iff]
      exact hlive
  · exact h

theorem Change.ok {cfg : Config} {b : Board n} {t : ℤ} {op : Op} {before after : Record} {info : Info}
    (h : Change cfg b t op before info after) (hbefore : RecordOk before) : RecordOk after := by
  cases h with
  | claim holder hkind hstate hcap =>
    have hnil : before.claims = [] := hbefore.nil (by simp [hstate])
    exact ⟨by simp [hnil], by simp⟩
  | renew c hkind hown =>
    have hone := hbefore.eq_singleton (ownClaim_spec hown).1
    have hheld : before.state = .held := hbefore.held.mpr (by simp [hone])
    exact ⟨by simp [hone], by simp [hone, hheld]⟩
  | release c hkind hmem hagent =>
    have hone := hbefore.eq_singleton hmem
    exact ⟨by simp [hone], by simp [hone]⟩
  | merge c hkind hown hverdicts => exact ⟨by simp, by simp⟩
  | verify c verdict hkind hmem hid hholder hverifier hself =>
    have hone := hbefore.eq_singleton hmem
    have hheld : before.state = .held := hbefore.held.mpr (by simp [hone])
    exact ⟨by simp [hone], by simp [hone, hheld]⟩

theorem expireRecord_version (cfg : Config) (t : ℤ) (record : Record) :
    (expireRecord cfg t record).version = record.version + (expiredOf cfg t record).length := by
  unfold expireRecord expiredOf
  split_ifs
  · rfl
  · rfl

theorem Change.version {cfg : Config} {b : Board n} {t : ℤ} {op : Op} {before after : Record} {info : Info}
    (h : Change cfg b t op before info after) :
    after.version = before.version + if op.body.kind.isStateOp then 1 else 0 := by
  cases h with
  | claim holder hkind hstate hcap => rcases hkind with hkind | hkind <;> simp [hkind, Kind.isStateOp]
  | renew c hkind hown => simp [hkind, Kind.isStateOp]
  | release c hkind hmem hagent => simp [hkind, Kind.isStateOp]
  | merge c hkind hown hverdicts => simp [hkind, Kind.isStateOp]
  | verify c verdict hkind hmem hid hholder hverifier hself => simp [hkind, Kind.isStateOp]

theorem Change.merged {cfg : Config} {b : Board n} {t : ℤ} {op : Op} {before after : Record} {info : Info}
    (h : Change cfg b t op before info after) (hbefore : RecordOk before) :
    before.state ≠ .merged ∧ (after.state = .merged ↔ op.body.kind.isMerge = true) := by
  have hholds {c : Claim} (hc : c ∈ before.claims) : before.state = .held := hbefore.held.mpr (List.ne_nil_of_mem hc)
  cases h with
  | claim holder hkind hstate hcap => rcases hkind with hkind | hkind <;> simp [hkind, hstate, Kind.isMerge]
  | renew c hkind hown => simp [hkind, hholds (ownClaim_spec hown).1, Kind.isMerge]
  | release c hkind hmem hagent => simp [hkind, hholds hmem, hbefore.eq_singleton hmem, Kind.isMerge]
  | merge c hkind hown hverdicts => simp [hkind, hholds (ownClaim_spec hown).1, Kind.isMerge]
  | verify c verdict hkind hmem hid hholder hverifier hself => simp [hkind, hholds hmem, Kind.isMerge]

theorem expireRecord_merged (cfg : Config) (t : ℤ) (record : Record) :
    (expireRecord cfg t record).state = .merged ↔ record.state = .merged := by
  unfold expireRecord
  split_ifs with hstate
  · dsimp only
    split_ifs <;> simp [hstate]
  · rfl

/-! ## Counting the log -/

theorem countP_expiryRows (cfg : Config) (t : ℤ) (b : Board n) (i : Fin n) :
    (expiryRows cfg t b).countP (Row.isExpiryOf i) = (expiredOf cfg t (b.records i)).length := by
  have hitem (j : Fin n) :
      ((expiredOf cfg t (b.records j)).map fun c => Row.expiry t j c).countP (Row.isExpiryOf i) =
        if j = i then (expiredOf cfg t (b.records i)).length else 0 := by
    rw [List.countP_map]
    by_cases hji : j = i
    · subst hji
      rw [if_pos rfl, List.countP_eq_length]
      intro c _
      simp [Row.isExpiryOf]
    · rw [if_neg hji, List.countP_eq_zero]
      intro c _
      simp [Row.isExpiryOf, hji]
  rw [expiryRows, List.countP_flatMap]
  simp only [Function.comp_def, hitem]
  rw [← Fin.sum_univ_def, Finset.sum_ite_eq' Finset.univ i, if_pos (Finset.mem_univ i)]

theorem countP_expiryRows_accepted (cfg : Config) (t : ℤ) (b : Board n) (p : Kind → Bool) (i : Fin n) :
    (expiryRows cfg t b).countP (Row.isAccepted p i) = 0 := by
  rw [List.countP_eq_zero]
  intro row hrow
  obtain ⟨j, -, hmem⟩ := List.mem_flatMap.mp hrow
  obtain ⟨c, -, rfl⟩ := List.mem_map.mp hmem
  simp [Row.isAccepted]

section
variable {cfg : Config} {b : Board n} {t : ℤ} {op : Op}

theorem apply_countP_expiry (hb : cfg.bypass = []) (b : Board n) (t : ℤ) (op : Op) (i : Fin n) :
    (apply cfg b t op).1.log.countP (Row.isExpiryOf i) =
      b.log.countP (Row.isExpiryOf i) + (expiredOf cfg t (b.records i)).length := by
  rw [apply_log hb, List.countP_append, List.countP_append, countP_expiryRows]
  simp [Row.isExpiryOf]

theorem apply_countP_accepted (hb : cfg.bypass = []) (b : Board n) (t : ℤ) (op : Op) (p : Kind → Bool) (i : Fin n) :
    (apply cfg b t op).1.log.countP (Row.isAccepted p i) =
      b.log.countP (Row.isAccepted p i) + if Row.isAccepted p i (.answer t op (apply cfg b t op).2) then 1 else 0 := by
  rw [apply_log hb, List.countP_append, List.countP_append, countP_expiryRows_accepted, zero_add, List.countP_singleton]

end

/-! ## The states reached -/

structure BoardOk (b : Board n) : Prop where
  record : ∀ i, RecordOk (b.records i)
  version : ∀ i, (b.records i).version = b.log.countP (Row.isExpiryOf i) + b.log.countP (Row.isAccepted Kind.isStateOp i)
  merges : ∀ i, b.log.countP (Row.isAccepted Kind.isMerge i) = if (b.records i).state = .merged then 1 else 0

theorem start_ok : BoardOk (Board.start : Board n) := by
  refine ⟨fun i => ⟨?_, ?_⟩, fun i => ?_, fun i => ?_⟩
  · simp [Board.start]
  · simp [Board.start]
  · simp [Board.start]
  · simp [Board.start]

section
variable {cfg : Config} {b : Board n} {t : ℤ} {op : Op}

theorem apply_record_ok (hb : cfg.bypass = []) (h : BoardOk b) (i : Fin n) : RecordOk ((apply cfg b t op).1.records i) := by
  have hexpired := expireRecord_ok cfg t (h.record i)
  rcases apply_record hb b t op i with ⟨hsame, -⟩ | ⟨info, -, hchange, -, -⟩
  · rw [hsame]
    exact hexpired
  · exact hchange.ok hexpired

/-- The version moves by one for each expiry and by one for an accepted state operation on the item. -/
theorem apply_version (hb : cfg.bypass = []) (b : Board n) (t : ℤ) (op : Op) (i : Fin n) :
    ((apply cfg b t op).1.records i).version =
      (b.records i).version + (expiredOf cfg t (b.records i)).length +
        if Row.isAccepted Kind.isStateOp i (.answer t op (apply cfg b t op).2) then 1 else 0 := by
  rcases apply_record hb b t op i with ⟨hsame, hrefused⟩ | ⟨info, hslot, hchange, haccepted, -⟩
  · have hrow : Row.isAccepted Kind.isStateOp i (.answer t op (apply cfg b t op).2) = false := by
      by_contra hrow
      simp only [Row.isAccepted, Bool.not_eq_false, Bool.and_eq_true, decide_eq_true_eq] at hrow
      exact hrefused ⟨hrow.1.1, hrow.2⟩
    rw [hsame, expireRecord_version, hrow]
    rfl
  · rw [hchange.version, expireRecord_version]
    simp [Row.isAccepted, hslot, haccepted]

theorem apply_merged (hb : cfg.bypass = []) (h : BoardOk b) (t : ℤ) (op : Op) (i : Fin n) :
    (if ((apply cfg b t op).1.records i).state = .merged then 1 else 0) =
      (if (b.records i).state = .merged then 1 else 0) +
        if Row.isAccepted Kind.isMerge i (.answer t op (apply cfg b t op).2) then 1 else 0 := by
  rcases apply_record hb b t op i with ⟨hsame, hrefused⟩ | ⟨info, hslot, hchange, haccepted, -⟩
  · have hrow : Row.isAccepted Kind.isMerge i (.answer t op (apply cfg b t op).2) = false := by
      by_contra hrow
      simp only [Row.isAccepted, Bool.not_eq_false, Bool.and_eq_true, decide_eq_true_eq] at hrow
      exact hrefused ⟨hrow.1.1, hrow.2⟩
    rw [hsame, hrow]
    simp [expireRecord_merged]
  · obtain ⟨hbefore, hafter⟩ := hchange.merged (expireRecord_ok cfg t (h.record i))
    rw [Ne, expireRecord_merged] at hbefore
    simp [Row.isAccepted, hslot, haccepted, hbefore, hafter]

theorem apply_ok (hb : cfg.bypass = []) (h : BoardOk b) (t : ℤ) (op : Op) : BoardOk (apply cfg b t op).1 := by
  refine ⟨apply_record_ok hb h, fun i => ?_, fun i => ?_⟩
  · have hexpiry := apply_countP_expiry hb b t op i
    have haccepted := apply_countP_accepted hb b t op Kind.isStateOp i
    have hbefore := h.version i
    rw [apply_version hb]
    omega
  · rw [apply_countP_accepted hb, apply_merged hb h, h.merges i]

end

theorem run_append (cfg : Config) (b : Board n) (ops more : List (ℤ × Op)) :
    run cfg b (ops ++ more) = run cfg (run cfg b ops) more := List.foldl_append

theorem run_induction {cfg : Config} {motive : Board n → Prop} (step : ∀ b t op, motive b → motive (apply cfg b t op).1)
    (ops : List (ℤ × Op)) {b : Board n} (h : motive b) : motive (run cfg b ops) := by
  induction ops generalizing b with
  | nil => exact h
  | cons p ops ih => exact ih (step b p.1 p.2 h)

theorem run_ok {cfg : Config} (hb : cfg.bypass = []) (ops : List (ℤ × Op)) {b : Board n} (h : BoardOk b) :
    BoardOk (run cfg b ops) :=
  run_induction (motive := BoardOk) (fun _ t op h => apply_ok hb h t op) ops h

/-! ## What every operation keeps -/

theorem expireRecord_live {cfg : Config} (hb : cfg.bypass = []) (t : ℤ) {record : Record} (h : RecordOk record) :
    ∀ c ∈ (expireRecord cfg t record).claims, t < c.leaseUntil := by
  intro c hc
  unfold expireRecord at hc
  split_ifs at hc with hstate
  · have hlive := (List.mem_filter.mp hc).2
    simpa [lapsed, hb] using hlive
  · rw [h.nil hstate] at hc
    cases hc

theorem Change.live {cfg : Config} {b : Board n} {t : ℤ} {op : Op} {before after : Record} {info : Info}
    (h : Change cfg b t op before info after) (hlease : 1 ≤ cfg.leaseTicks) (hbefore : RecordOk before)
    (hlive : ∀ c ∈ before.claims, t < c.leaseUntil) : ∀ c ∈ after.claims, t < c.leaseUntil := by
  intro d hd
  cases h with
  | claim holder hkind hstate hcap =>
    rcases List.mem_append.mp hd with hd | hd
    · exact hlive d hd
    · rw [List.mem_singleton.mp hd]
      dsimp only
      omega
  | renew c hkind hown =>
    have hone := hbefore.eq_singleton (ownClaim_spec hown).1
    simp only [hone, List.replace_cons_self, List.mem_singleton] at hd
    rw [hd]
    dsimp only
    omega
  | release c hkind hmem hagent => exact hlive d (List.mem_of_mem_erase hd)
  | merge c hkind hown hverdicts => cases hd
  | verify c verdict hkind hmem hid hholder hverifier hself =>
    have hone := hbefore.eq_singleton hmem
    simp only [hone, List.replace_cons_self, List.mem_singleton] at hd
    rw [hd]
    exact hlive c hmem

theorem heldCount_setRecord (b : Board n) (i : Fin n) (record : Record) :
    heldCount (b.setRecord i record) + (b.records i).claims.length = heldCount b + record.claims.length := by
  have hcounts : (fun j => ((b.setRecord i record).records j).claims.length) =
      Function.update (fun j => (b.records j).claims.length) i record.claims.length := by
    funext j
    exact Function.apply_update (fun _ (r : Record) => r.claims.length) b.records i record j
  have hrest := Finset.add_sum_erase Finset.univ (fun j => (b.records j).claims.length) (Finset.mem_univ i)
  rw [heldCount, heldCount, hcounts, Finset.sum_update_of_mem (Finset.mem_univ i), Finset.sdiff_singleton_eq_erase, ← hrest]
  ring

/-- RENEW, RELEASE and MERGE -/
def Kind.isHolderOp : Kind → Bool
  | .renew | .release | .merge => true
  | _ => false

/-- What the operation that arrives at `t` keeps and does. -/
structure StepOk (cfg : Config) (b : Board n) (t : ℤ) (op : Op) : Prop where
  absorbing : ∀ i, (b.records i).state = .merged → ((apply cfg b t op).1.records i).state = .merged
  cap : (apply cfg b t op).2.accepted → (op.body.kind = .acquire ∨ op.body.kind = .assign) →
    heldCount (apply cfg b t op).1 ≤ cfg.concurrency
  live : ∀ i, ∀ c ∈ ((apply cfg b t op).1.records i).claims, t < c.leaseUntil
  version : ∀ i, ((apply cfg b t op).1.records i).version =
    (b.records i).version + (expiredOf cfg t (b.records i)).length +
      if Row.isAccepted Kind.isStateOp i (.answer t op (apply cfg b t op).2) then 1 else 0
  holder : (apply cfg b t op).2.accepted → op.body.kind.isHolderOp →
    ∃ i, slotOf n op.body.item = some i ∧ ∃ c ∈ (b.records i).claims,
      t < c.leaseUntil ∧ (apply cfg b t op).2.claimOpId = some c.claimOpId ∧
      (c.holder = op.body.agent ∨ (op.body.kind = .release ∧ cfg.mode = .central ∧ some op.body.agent = cfg.coordinator))

section
variable {cfg : Config} {b : Board n} {t : ℤ} {op : Op}

theorem apply_accepted (hb : cfg.bypass = []) (h : (apply cfg b t op).2.accepted) :
    Changed cfg (expire cfg t b) t op (apply cfg b t op) := by
  rcases apply_cases hb b t op with ⟨info, answer, hinfo, heq⟩ | ⟨-, -, -, hchanged⟩
  · rw [heq] at h
    simp [finish, Reply.accepted, hinfo] at h
  · exact hchanged

theorem apply_absorbing (hb : cfg.bypass = []) (h : BoardOk b) (t : ℤ) (op : Op) (i : Fin n)
    (hmerged : (b.records i).state = .merged) : ((apply cfg b t op).1.records i).state = .merged := by
  rcases apply_record hb b t op i with ⟨hsame, -⟩ | ⟨info, -, hchange, -, -⟩
  · rw [hsame]
    exact (expireRecord_merged cfg t _).mpr hmerged
  · have hbefore := (hchange.merged (expireRecord_ok cfg t (h.record i))).1
    exact absurd ((expireRecord_merged cfg t _).mpr hmerged) hbefore

theorem apply_cap (hb : cfg.bypass = []) (haccepted : (apply cfg b t op).2.accepted)
    (hkind : op.body.kind = .acquire ∨ op.body.kind = .assign) : heldCount (apply cfg b t op).1 ≤ cfg.concurrency := by
  obtain ⟨i, info, record, -, hchange, heq⟩ := apply_accepted hb haccepted
  have hcount := heldCount_setRecord (expire cfg t b) i record
  have hafter : heldCount (apply cfg b t op).1 = heldCount ((expire cfg t b).setRecord i record) := by
    rw [heq]
    rfl
  rw [hafter]
  cases hchange with
  | claim holder _ hstate hcap =>
    rw [List.length_append, List.length_singleton] at hcount
    omega
  | renew c hother hown => rcases hkind with hkind | hkind <;> simp [hkind] at hother
  | release c hother hmem hagent => rcases hkind with hkind | hkind <;> simp [hkind] at hother
  | merge c hother hown hverdicts => rcases hkind with hkind | hkind <;> simp [hkind] at hother
  | verify c verdict hother hmem hid hholder hverifier hself => rcases hkind with hkind | hkind <;> simp [hkind] at hother

theorem apply_live (hb : cfg.bypass = []) (hlease : 1 ≤ cfg.leaseTicks) (h : BoardOk b) (i : Fin n) :
    ∀ c ∈ ((apply cfg b t op).1.records i).claims, t < c.leaseUntil := by
  have hexpired := expireRecord_live hb t (h.record i)
  rcases apply_record hb b t op i with ⟨hsame, -⟩ | ⟨info, -, hchange, -, -⟩
  · rw [hsame]
    exact hexpired
  · exact hchange.live hlease (expireRecord_ok cfg t (h.record i)) hexpired

theorem mem_of_mem_expireRecord {record : Record} {c : Claim} (hc : c ∈ (expireRecord cfg t record).claims) :
    c ∈ record.claims := by
  unfold expireRecord at hc
  split_ifs at hc
  · exact (List.mem_filter.mp hc).1
  · exact hc

theorem apply_holder (hb : cfg.bypass = []) (h : BoardOk b) (haccepted : (apply cfg b t op).2.accepted)
    (hkind : op.body.kind.isHolderOp) :
    ∃ i, slotOf n op.body.item = some i ∧ ∃ c ∈ (b.records i).claims,
      t < c.leaseUntil ∧ (apply cfg b t op).2.claimOpId = some c.claimOpId ∧
      (c.holder = op.body.agent ∨ (op.body.kind = .release ∧ cfg.mode = .central ∧ some op.body.agent = cfg.coordinator)) := by
  obtain ⟨i, info, record, hslot, hchange, heq⟩ := apply_accepted hb haccepted
  have hlive := expireRecord_live hb t (h.record i)
  rw [heq]
  refine ⟨i, hslot, ?_⟩
  cases hchange with
  | claim holder hother hstate hcap => rcases hother with hother | hother <;> simp [hother, Kind.isHolderOp] at hkind
  | renew c _ hown =>
    obtain ⟨hmem, hagent⟩ := ownClaim_spec hown
    exact ⟨c, mem_of_mem_expireRecord hmem, hlive c hmem, rfl, .inl hagent⟩
  | release c hrelease hmem hagent =>
    exact ⟨c, mem_of_mem_expireRecord hmem, hlive c hmem, rfl, hagent.imp id fun hcentral => ⟨hrelease, hcentral⟩⟩
  | merge c _ hown hverdicts =>
    obtain ⟨hmem, hagent⟩ := ownClaim_spec hown
    exact ⟨c, mem_of_mem_expireRecord hmem, hlive c hmem, rfl, .inl hagent⟩
  | verify c verdict hother hmem hid hholder hverifier hself => simp [hother, Kind.isHolderOp] at hkind

theorem apply_step_ok (hb : cfg.bypass = []) (hlease : 1 ≤ cfg.leaseTicks) (h : BoardOk b) (t : ℤ) (op : Op) :
    StepOk cfg b t op where
  absorbing := apply_absorbing hb h t op
  cap := apply_cap hb
  live := apply_live hb hlease h
  version := apply_version hb b t op
  holder := apply_holder hb h

end

/-- In every state reached each item has at most one claim, exactly when it is held, its version counts its
expiries and its accepted state operations, and it was merged at most once; and every operation that
arrives there keeps a merged item merged, the cap, the leases and the holders' rights. -/
theorem board_safety (cfg : Config) (hb : cfg.bypass = []) (hlease : 1 ≤ cfg.leaseTicks) (ops : List (ℤ × Op)) :
    BoardOk (run cfg (.start : Board n) ops) ∧
      (∀ t op, StepOk cfg (run cfg (.start : Board n) ops) t op) ∧
      ∀ more i, ((run cfg (.start : Board n) ops).records i).state = .merged →
        ((run cfg (.start : Board n) (ops ++ more)).records i).state = .merged := by
  have hok := run_ok (n := n) hb ops start_ok
  refine ⟨hok, apply_step_ok hb hlease hok, fun more i hmerged => ?_⟩
  rw [run_append]
  have hrun := run_induction (motive := fun b => BoardOk b ∧ (b.records i).state = .merged)
    (fun b t op h => ⟨apply_ok hb h.1 t op, apply_absorbing hb h.1 t op i h.2⟩) more ⟨hok, hmerged⟩
  exact hrun.2

/-- Two items, two workers that claim for themselves. -/
def sampleConfig : Config where
  mode := .decentralized
  workers := ["W1", "W2"]
  coordinator := none
  edges := []
  deadline := 100
  leaseTicks := 10
  concurrency := 1
  evidenceRule := none
  bypass := []

def sampleOp (opId agent : String) (kind : Kind) (version : ℤ) : Op where
  opId := opId
  retryOf := none
  body :=
    { agent := agent
      kind := kind
      item := some 1
      toAgent := none
      expectedVersion := some version
      workDigest := some "w" }

theorem board_safety_sample :
    let ops := [(1, sampleOp "a" "W1" .acquire 0), (2, sampleOp "b" "W2" .acquire 1)]
    BoardOk (run sampleConfig (.start : Board 2) ops) ∧ (∀ t op, StepOk sampleConfig (run sampleConfig (.start : Board 2) ops) t op) ∧
      ∀ more i, ((run sampleConfig (.start : Board 2) ops).records i).state = .merged →
        ((run sampleConfig (.start : Board 2) (ops ++ more)).records i).state = .merged :=
  board_safety sampleConfig rfl (by decide) _

end HarnessConformance.Coordination
