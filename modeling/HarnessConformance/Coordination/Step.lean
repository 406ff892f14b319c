import HarnessConformance.Coordination.Board

/-! # What one operation does

Without a bypass an operation is either refused, and then only the expiries of its tick change the
records, or it is accepted and changes the record of its item as one of five changes. -/

namespace HarnessConformance.Coordination
open Lib
set_option autoImplicit false

variable {n : ℕ}

/-! ## Changes -/

/-- ACQUIRE, ASSIGN, RENEW, RELEASE and MERGE: the operations that move the version. -/
def Kind.isStateOp : Kind → Bool
  | .acquire | .assign | .renew | .release | .merge => true
  | _ => false

/-- What an accepted operation does to the record of its item. -/
inductive Change (cfg : Config) (b : Board n) (t : ℤ) (op : Op) (record : Record) : Info → Record → Prop
  | claim (holder : String) (hkind : op.body.kind = .acquire ∨ op.body.kind = .assign) (hstate : record.state = .opened)
      (hcap : heldCount b < cfg.concurrency) :
      Change cfg b t op record { claimOpId := some op.opId, leaseUntil := some (t + cfg.leaseTicks), changed := true }
        { record with
          claims := record.claims ++ [⟨holder, op.opId, t + cfg.leaseTicks, []⟩]
          state := .held
          version := record.version + 1 }
  | renew (c : Claim) (hkind : op.body.kind = .renew) (hown : ownClaim record op.body.agent = some c) :
      Change cfg b t op record { claimOpId := some c.claimOpId, leaseUntil := some (t + cfg.leaseTicks), changed := true }
        { record with
          claims := record.claims.replace c { c with leaseUntil := t + cfg.leaseTicks }
          version := record.version + 1 }
  | release (c : Claim) (hkind : op.body.kind = .release) (hmem : c ∈ record.claims)
      (hagent : c.holder = op.body.agent ∨ (cfg.mode = .central ∧ some op.body.agent = cfg.coordinator)) :
      Change cfg b t op record { claimOpId := some c.claimOpId, changed := true }
        { record with
          claims := record.claims.erase c
          state := if record.claims.erase c = [] then .opened else record.state
          version := record.version + 1 }
  | merge (c : Claim) (hkind : op.body.kind = .merge) (hown : ownClaim record op.body.agent = some c)
      (hverdicts : mergeRefusal cfg c.verdicts op.body.workDigest = none) :
      Change cfg b t op record { claimOpId := some c.claimOpId, changed := true }
        { record with state := .merged, claims := [], mergedClaim := some c, version := record.version + 1 }
  | verify (c : Claim) (verdict : Verdict) (hkind : op.body.kind = .verify verdict) (hmem : c ∈ record.claims)
      (hid : c.claimOpId = verdict.claimOpId) (hholder : c.holder = verdict.holder)
      (hverifier : verdict.verifier = op.body.agent) (hself : op.body.agent ∉ record.claims.map (·.holder)) :
      Change cfg b t op record { claimOpId := some c.claimOpId, changed := true }
        { record with claims := record.claims.replace c { c with verdicts := c.verdicts ++ [verdict] } }

/-- The operation is refused, or answered without any change. -/
def Refused (b : Board n) (t : ℤ) (op : Op) (outcome : Board n × Reply) : Prop :=
  ∃ info answer, info.changed = false ∧ outcome = finish b t op info answer

/-- The operation is accepted and changes the record of its item. -/
def Changed (cfg : Config) (b : Board n) (t : ℤ) (op : Op) (outcome : Board n × Reply) : Prop :=
  ∃ i info record, slotOf n op.body.item = some i ∧ Change cfg b t op (b.records i) info record ∧
    outcome = finish (b.setRecord i record) t op info .accepted

theorem Change.changed {cfg : Config} {b : Board n} {t : ℤ} {op : Op} {before after : Record} {info : Info}
    (h : Change cfg b t op before info after) : info.changed = true := by
  cases h <;> rfl

theorem Refused.intro {b : Board n} {t : ℤ} {op : Op} {info : Info} (answer : Answer) (h : info.changed = false) :
    Refused b t op (finish b t op info answer) := ⟨info, answer, h, rfl⟩

theorem ownClaim_spec {record : Record} {agent : String} {c : Claim} (h : ownClaim record agent = some c) :
    c ∈ record.claims ∧ c.holder = agent := by
  refine ⟨List.mem_of_find?_eq_some h, ?_⟩
  simpa using List.find?_some h

variable {cfg : Config} {b : Board n} {t : ℤ} {op : Op}

theorem claim_cases (hb : cfg.bypass = []) (hkind : op.body.kind = .acquire ∨ op.body.kind = .assign) :
    Refused b t op (claim cfg b t op) ∨ Changed cfg b t op (claim cfg b t op) := by
  unfold claim
  split
  · rename_i holder i _ hslot
    simp only [hb, List.not_mem_nil, not_false_eq_true, and_true]
    split_ifs with hmerged hheld hversion hcap
    · exact .inl (.intro _ rfl)
    · exact .inl (.intro _ rfl)
    · exact .inl (.intro _ rfl)
    · exact .inl (.intro _ rfl)
    · have hopened : (b.records i).state = .opened := by
        cases hstate : (b.records i).state with
        | opened => rfl
        | held => exact absurd hstate hheld
        | merged => exact absurd hstate hmerged
      exact .inr ⟨i, _, _, hslot, .claim holder hkind hopened (not_le.mp hcap), rfl⟩
  · exact .inl (.intro _ rfl)

theorem actsOn_cases (hb : cfg.bypass = []) {record : Record} {c : Claim} (h : actsOn cfg record op = some c) :
    ownClaim record op.body.agent = some c ∨
      (op.body.kind = .release ∧ c ∈ record.claims ∧ cfg.mode = .central ∧ some op.body.agent = cfg.coordinator) := by
  unfold actsOn at h
  split at h
  · rename_i hown
    exact .inl (hown.trans h)
  · rename_i hkind
    split_ifs at h with hcentral
    exact .inr ⟨hkind, List.mem_of_mem_head? h, hcentral⟩
  · simp [hb] at h
  · cases h

theorem holderOp_cases (hb : cfg.bypass = [])
    (hkind : op.body.kind = .renew ∨ op.body.kind = .release ∨ op.body.kind = .merge) :
    Refused b t op (holderOp cfg b t op) ∨ Changed cfg b t op (holderOp cfg b t op) := by
  unfold holderOp
  split
  · exact .inl (.intro _ rfl)
  rename_i i hslot
  dsimp only
  split
  · exact .inl (.intro _ rfl)
  rename_i c hacts
  have hown := actsOn_cases hb hacts
  by_cases hversion : (!versionOk cfg (b.records i) op) = true
  · rw [if_pos hversion]
    exact .inl (.intro _ rfl)
  rw [if_neg hversion]
  rcases hkind with hkind | hkind | hkind
  · have hclaim := hown.resolve_right (by simp [hkind])
    rw [hkind]
    exact .inr ⟨i, _, _, hslot, .renew c hkind hclaim, rfl⟩
  · rw [hkind]
    refine .inr ⟨i, _, _, hslot, .release c hkind ?_ ?_, rfl⟩
    · rcases hown with hclaim | ⟨-, hmem, -⟩
      · exact (ownClaim_spec hclaim).1
      · exact hmem
    · rcases hown with hclaim | ⟨-, -, hcentral⟩
      · exact .inl (ownClaim_spec hclaim).2
      · exact .inr hcentral
  · have hclaim := hown.resolve_right (by simp [hkind])
    rw [hkind]
    dsimp only
    split
    · exact .inl (.intro _ rfl)
    · rename_i hverdicts
      exact .inr ⟨i, _, _, hslot, .merge c hkind hclaim hverdicts, rfl⟩

theorem verify_cases (hb : cfg.bypass = []) {verdict : Verdict} (hkind : op.body.kind = .verify verdict) :
    Refused b t op (verify cfg b t op verdict) ∨ Changed cfg b t op (verify cfg b t op verdict) := by
  unfold verify
  split
  · exact .inl (.intro _ rfl)
  rename_i i hslot
  simp only [hb, List.not_mem_nil, not_false_eq_true, and_true]
  split_ifs with hheld hself
  · exact .inl (.intro _ rfl)
  · exact .inl (.intro _ rfl)
  split
  · exact .inl (.intro _ rfl)
  rename_i c hfound
  split_ifs with hledger hhistory
  · exact .inl (.intro _ rfl)
  · exact .inl (.intro _ rfl)
  have hid : c.claimOpId = verdict.claimOpId := by simpa using List.find?_some hfound
  rw [not_or, not_not, not_not] at hledger
  exact .inr ⟨i, _, _, hslot, .verify c verdict hkind (List.mem_of_find?_eq_some hfound) hid hledger.2 hledger.1 hself, rfl⟩

theorem operate_cases (hb : cfg.bypass = []) :
    Refused b t op (operate cfg b t op) ∨ Changed cfg b t op (operate cfg b t op) := by
  unfold operate
  split
  · left
    unfold message
    split_ifs
    · exact .intro _ rfl
    · exact .intro _ rfl
    · exact .intro _ rfl
  · rename_i hkind
    exact claim_cases hb (.inl hkind)
  · rename_i hkind
    exact claim_cases hb (.inr hkind)
  · rename_i hkind
    exact holderOp_cases hb (.inl hkind)
  · rename_i hkind
    exact holderOp_cases hb (.inr (.inl hkind))
  · rename_i hkind
    exact holderOp_cases hb (.inr (.inr hkind))
  · rename_i verdict hkind
    exact verify_cases hb hkind
  · exact .inl (.intro _ rfl)

theorem retry_refused (original : String) : Refused b t op (retry b t op original) := by
  unfold retry
  split
  · exact .intro _ rfl
  · split_ifs
    · exact .intro _ rfl
    · exact .intro _ rfl

/-- An operation is refused or changes the record of its item; only a new one, in time, does the latter. -/
theorem apply_cases (hb : cfg.bypass = []) (b : Board n) (t : ℤ) (op : Op) :
    Refused (expire cfg t b) t op (apply cfg b t op) ∨
      (op.retryOf = none ∧ t ≤ cfg.deadline ∧ b.answered.lookup op.opId = none ∧
        Changed cfg (expire cfg t b) t op (apply cfg b t op)) := by
  unfold apply
  simp only [hb, List.not_mem_nil, not_false_eq_true, and_true, if_false]
  split_ifs with hdeadline hduplicate
  · exact .inl (.intro _ rfl)
  · exact .inl (.intro _ rfl)
  split
  · exact .inl (retry_refused _)
  · rename_i hretry
    have hnew : b.answered.lookup op.opId = none := Option.not_isSome_iff_eq_none.mp hduplicate
    have htime : t ≤ cfg.deadline := by
      by_contra hlate
      exact hdeadline ⟨not_le.mp hlate, hretry⟩
    exact (operate_cases hb).imp id fun h => ⟨hretry, htime, hnew, h⟩

end HarnessConformance.Coordination
