import HarnessConformance.Coordination.Answers

/-! # Verified merges

The verdicts that a claim carries are those accepted for its identifier, and no identifier is used for two
claims. So a merge rests on a verdict for that very claim, by somebody other than its holder. -/

namespace HarnessConformance.Coordination
open Lib
set_option autoImplicit false

variable {n : ℕ}

/-! ## Accepted verdicts -/

/-- The verdict, and who submitted it, of a VERIFY that is accepted for the claim. -/
def acceptedVerdict (op : Op) (reply : Reply) (claimOpId : String) : Option (String × Verdict) :=
  match op.body.kind with
  | .verify verdict => if reply.accepted ∧ reply.claimOpId = some claimOpId then some (op.body.agent, verdict) else none
  | _ => none

def Row.verdictFor (claimOpId : String) : Row n → Option (String × Verdict)
  | .expiry _ _ _ => none
  | .answer _ op reply => acceptedVerdict op reply claimOpId

def verdictsFor (log : List (Row n)) (claimOpId : String) : List (String × Verdict) := log.filterMap (Row.verdictFor claimOpId)

theorem verdictsFor_expiryRows (cfg : Config) (t : ℤ) (b : Board n) (claimOpId : String) :
    verdictsFor (expiryRows cfg t b) claimOpId = [] := by
  rw [verdictsFor, List.filterMap_eq_nil_iff]
  intro row hrow
  obtain ⟨j, -, hmem⟩ := List.mem_flatMap.mp hrow
  obtain ⟨c, -, rfl⟩ := List.mem_map.mp hmem
  rfl

theorem apply_verdictsFor {cfg : Config} (hb : cfg.bypass = []) (b : Board n) (t : ℤ) (op : Op) (claimOpId : String) :
    verdictsFor (apply cfg b t op).1.log claimOpId =
      verdictsFor b.log claimOpId ++ (acceptedVerdict op (apply cfg b t op).2 claimOpId).toList := by
  have hrows := verdictsFor_expiryRows cfg t b claimOpId
  rw [verdictsFor] at hrows
  rw [apply_log hb, verdictsFor, List.filterMap_append, List.filterMap_append, hrows, List.nil_append, verdictsFor]
  rfl

/-! ## Claims -/

/-- The claim carries the verdicts accepted for it, each submitted by its verifier, who is not the holder. -/
structure ClaimOk (log : List (Row n)) (c : Claim) : Prop where
  verdicts : c.verdicts = (verdictsFor log c.claimOpId).map Prod.snd
  independent : ∀ p ∈ verdictsFor log c.claimOpId, p.1 ≠ c.holder ∧ p.2.verifier = p.1

structure VerdictsOk (b : Board n) : Prop where
  board : BoardOk b
  answers : AnswersOk b
  claims : ∀ i, ∀ c ∈ (b.records i).claims, ClaimOk b.log c
  known : ∀ i, ∀ c ∈ (b.records i).claims, answerTo b.log c.claimOpId ≠ none
  unique : ∀ i j, ∀ c ∈ (b.records i).claims, ∀ d ∈ (b.records j).claims, c.claimOpId = d.claimOpId → i = j
  verified : ∀ opId, verdictsFor b.log opId ≠ [] → answerTo b.log opId ≠ none

section
variable {cfg : Config} {b : Board n} {t : ℤ} {op : Op}

theorem Change.claimOpId {before after : Record} {info : Info} (h : Change cfg b t op before info after)
    (hbefore : RecordOk before) {d : Claim} (hd : d ∈ after.claims) :
    (∃ c ∈ before.claims, c.claimOpId = d.claimOpId) ∨ d.claimOpId = op.opId := by
  cases h with
  | claim holder hkind hstate hcap =>
    rcases List.mem_append.mp hd with hd | hd
    · exact .inl ⟨d, hd, rfl⟩
    · rw [List.mem_singleton.mp hd]
      exact .inr rfl
  | renew c hkind hown =>
    have hmem := (ownClaim_spec hown).1
    simp only [hbefore.eq_singleton hmem, List.replace_cons_self, List.mem_singleton] at hd
    rw [hd]
    exact .inl ⟨c, hmem, rfl⟩
  | release c hkind hmem hagent => exact .inl ⟨d, List.mem_of_mem_erase hd, rfl⟩
  | merge c hkind hown hverdicts => cases hd
  | verify c verdict hkind hmem hid hholder hverifier hself =>
    simp only [hbefore.eq_singleton hmem, List.replace_cons_self, List.mem_singleton] at hd
    rw [hd]
    exact .inl ⟨c, hmem, rfl⟩

/-- A claim after the operation was there before, or is the new one under the operation's identifier. -/
theorem apply_claimOpId (hb : cfg.bypass = []) (h : BoardOk b) {j : Fin n} {d : Claim} (hd : d ∈ ((apply cfg b t op).1.records j).claims) :
    (∃ c ∈ (b.records j).claims, c.claimOpId = d.claimOpId) ∨
      (slotOf n op.body.item = some j ∧ d.claimOpId = op.opId ∧ b.answered.lookup op.opId = none) := by
  rcases apply_record hb b t op j with ⟨hsame, -⟩ | ⟨info, hslot, hchange, haccepted, -⟩
  · rw [hsame] at hd
    exact .inl ⟨d, mem_of_mem_expireRecord hd, rfl⟩
  · rcases hchange.claimOpId (expireRecord_ok cfg t (h.record j)) hd with ⟨c, hc, hid⟩ | hid
    · exact .inl ⟨c, mem_of_mem_expireRecord hc, hid⟩
    · have hchanged : (apply cfg b t op).2.changed = true := by
        simp only [Reply.accepted, Bool.and_eq_true] at haccepted
        exact haccepted.2
      exact .inr ⟨hslot, hid, (apply_changed hb hchanged).2.2⟩

theorem apply_answerTo_ne_none (hb : cfg.bypass = []) {opId : String} (h : answerTo b.log opId ≠ none) :
    answerTo (apply cfg b t op).1.log opId ≠ none := by
  rw [apply_answerTo hb]
  cases hold : answerTo b.log opId with
  | none => exact absurd hold h
  | some entry => simp

theorem apply_answerTo_self (hb : cfg.bypass = []) : answerTo (apply cfg b t op).1.log op.opId ≠ none := by
  rw [apply_answerTo hb, if_pos rfl]
  cases answerTo b.log op.opId <;> simp

/-- An accepted VERIFY names a claim that is there, and was not submitted by its holder. -/
theorem acceptedVerdict_spec (hb : cfg.bypass = []) {claimOpId : String} {p : String × Verdict}
    (h : acceptedVerdict op (apply cfg b t op).2 claimOpId = some p) :
    ∃ i, slotOf n op.body.item = some i ∧ (apply cfg b t op).2.accepted ∧ op.body.kind = .verify p.2 ∧ p.1 = op.body.agent ∧
      ∃ c ∈ (b.records i).claims, c.claimOpId = claimOpId := by
  unfold acceptedVerdict at h
  split at h
  · rename_i verdict hkind
    simp only [Option.ite_none_right_eq_some, Option.some.injEq] at h
    obtain ⟨⟨haccepted, hid⟩, rfl⟩ := h
    obtain ⟨i, info, record, hslot, hchange, heq⟩ := apply_accepted hb haccepted
    refine ⟨i, hslot, haccepted, hkind, rfl, ?_⟩
    rw [heq] at hid
    cases hchange with
    | claim holder hother hstate hcap => rcases hother with hother | hother <;> simp [hother] at hkind
    | renew c hother hown => simp [hother] at hkind
    | release c hother hmem hagent => simp [hother] at hkind
    | merge c hother hown hverdicts => simp [hother] at hkind
    | verify c verdict' hother hmem _ hholder hverifier hself =>
      exact ⟨c, mem_of_mem_expireRecord hmem, Option.some.inj hid⟩
  · cases h

theorem ClaimOk.keep (hb : cfg.bypass = []) {c : Claim} (h : ClaimOk b.log c)
    (hrow : acceptedVerdict op (apply cfg b t op).2 c.claimOpId = none) : ClaimOk (apply cfg b t op).1.log c := by
  have hsame : verdictsFor (apply cfg b t op).1.log c.claimOpId = verdictsFor b.log c.claimOpId := by
    rw [apply_verdictsFor hb, hrow]
    exact List.append_nil _
  refine ⟨?_, ?_⟩
  · rw [hsame]
    exact h.verdicts
  · rw [hsame]
    exact h.independent

theorem acceptedVerdict_eq_none {reply : Reply} (claimOpId : String) (h : ∀ verdict, op.body.kind ≠ .verify verdict) :
    acceptedVerdict op reply claimOpId = none := by
  unfold acceptedVerdict
  split
  · rename_i verdict hkind
    exact absurd hkind (h verdict)
  · rfl

/-- A claim on another item, or of another operation, is not verified by this one. -/
theorem acceptedVerdict_other (hb : cfg.bypass = []) (h : VerdictsOk b) {j : Fin n} {d : Claim} (hd : d ∈ (b.records j).claims)
    (hother : ¬ ((apply cfg b t op).2.accepted = true ∧ slotOf n op.body.item = some j)) :
    acceptedVerdict op (apply cfg b t op).2 d.claimOpId = none := by
  cases hverdict : acceptedVerdict op (apply cfg b t op).2 d.claimOpId with
  | none => rfl
  | some p =>
    obtain ⟨i, hslot, haccepted, -, -, c, hc, hid⟩ := acceptedVerdict_spec hb hverdict
    have hij : i = j := h.unique i j c hc d hd hid
    exact absurd ⟨haccepted, hij ▸ hslot⟩ hother

theorem apply_claim_ok (hb : cfg.bypass = []) (h : VerdictsOk b) {j : Fin n} {d : Claim}
    (hd : d ∈ ((apply cfg b t op).1.records j).claims) : ClaimOk (apply cfg b t op).1.log d := by
  have hexpired := expireRecord_ok cfg t (h.board.record j)
  have hbefore {c : Claim} (hc : c ∈ (expireRecord cfg t (b.records j)).claims) : ClaimOk b.log c :=
    h.claims j c (mem_of_mem_expireRecord hc)
  rcases apply_record hb b t op j with ⟨hsame, hother⟩ | ⟨info, -, hchange, haccepted, hinfo⟩
  · rw [hsame] at hd
    exact (hbefore hd).keep hb (acceptedVerdict_other hb h (mem_of_mem_expireRecord hd) hother)
  · have hchanged : (apply cfg b t op).2.changed = true := by
      simp only [Reply.accepted, Bool.and_eq_true] at haccepted
      exact haccepted.2
    have hnew : answerTo b.log op.opId = none := by
      rw [← h.answers.recorded]
      exact (apply_changed hb hchanged).2.2
    generalize (apply cfg b t op).1.records j = after at hchange hd
    cases hchange with
    | claim holder hkind hstate hcap =>
      have hnone : acceptedVerdict op (apply cfg b t op).2 d.claimOpId = none :=
        acceptedVerdict_eq_none _ fun verdict => by rcases hkind with hkind | hkind <;> simp [hkind]
      rcases List.mem_append.mp hd with hd | hd
      · exact (hbefore hd).keep hb hnone
      · rw [List.mem_singleton.mp hd] at hnone ⊢
        have hfresh : verdictsFor b.log op.opId = [] := by
          by_contra hverified
          exact h.verified op.opId hverified hnew
        have hempty : verdictsFor (apply cfg b t op).1.log op.opId = [] := by
          rw [apply_verdictsFor hb, hfresh, hnone]
          rfl
        refine ⟨?_, ?_⟩
        · dsimp only
          rw [hempty]
          rfl
        · dsimp only
          rw [hempty]
          exact List.forall_mem_nil _
    | renew c hkind hown =>
      have hmem := (ownClaim_spec hown).1
      simp only [hexpired.eq_singleton hmem, List.replace_cons_self, List.mem_singleton] at hd
      have hnone : acceptedVerdict op (apply cfg b t op).2 c.claimOpId = none :=
        acceptedVerdict_eq_none _ fun verdict => by simp [hkind]
      have hkeep := (hbefore hmem).keep hb hnone
      rw [hd]
      exact ⟨hkeep.verdicts, hkeep.independent⟩
    | release c hkind hmem hagent =>
      have hmem := List.mem_of_mem_erase hd
      exact (hbefore hmem).keep hb (acceptedVerdict_eq_none _ fun verdict => by simp [hkind])
    | merge c hkind hown hverdicts => cases hd
    | verify c verdict hkind hmem hid hholder hverifier hself =>
      simp only [hexpired.eq_singleton hmem, List.replace_cons_self, List.mem_singleton] at hd
      have hverdict : acceptedVerdict op (apply cfg b t op).2 c.claimOpId = some (op.body.agent, verdict) := by
        simp [acceptedVerdict, hkind, haccepted, hinfo]
      have hlog : verdictsFor (apply cfg b t op).1.log c.claimOpId = verdictsFor b.log c.claimOpId ++ [(op.body.agent, verdict)] := by
        rw [apply_verdictsFor hb, hverdict]
        rfl
      rw [hd]
      refine ⟨?_, ?_⟩
      · dsimp only
        rw [hlog, List.map_append, ← (hbefore hmem).verdicts]
        rfl
      · dsimp only
        rw [hlog]
        intro p hp
        rcases List.mem_append.mp hp with hp | hp
        · exact (hbefore hmem).independent p hp
        · rw [List.mem_singleton.mp hp]
          exact ⟨fun hagent => hself (List.mem_map.mpr ⟨c, hmem, hagent.symm⟩), hverifier⟩

theorem apply_known (hb : cfg.bypass = []) (h : VerdictsOk b) (j : Fin n) :
    ∀ d ∈ ((apply cfg b t op).1.records j).claims, answerTo (apply cfg b t op).1.log d.claimOpId ≠ none := by
  intro d hd
  rcases apply_claimOpId hb h.board hd with ⟨c, hc, hid⟩ | ⟨-, hid, -⟩
  · rw [← hid]
    exact apply_answerTo_ne_none hb (h.known j c hc)
  · rw [hid]
    exact apply_answerTo_self hb

theorem apply_unique (hb : cfg.bypass = []) (h : VerdictsOk b) (i j : Fin n) :
    ∀ c ∈ ((apply cfg b t op).1.records i).claims, ∀ d ∈ ((apply cfg b t op).1.records j).claims,
      c.claimOpId = d.claimOpId → i = j := by
  -- an identifier of an earlier claim was answered, that of a new one was not
  have hclash {k : Fin n} {e : Claim} (he : e ∈ (b.records k).claims) (hid : e.claimOpId = op.opId)
      (hnew : b.answered.lookup op.opId = none) : False := by
    rw [h.answers.recorded, ← hid] at hnew
    exact h.known k e he hnew
  intro c hc d hd hsame
  rcases apply_claimOpId hb h.board hc with ⟨c', hc', hcid⟩ | ⟨hslot, hcid, hnew⟩
  · rcases apply_claimOpId hb h.board hd with ⟨d', hd', hdid⟩ | ⟨-, hdid, hnew⟩
    · exact h.unique i j c' hc' d' hd' (hcid.trans (hsame.trans hdid.symm))
    · exact (hclash hc' (hcid.trans (hsame.trans hdid)) hnew).elim
  · rcases apply_claimOpId hb h.board hd with ⟨d', hd', hdid⟩ | ⟨hslot', -, -⟩
    · exact (hclash hd' (hdid.trans (hsame.symm.trans hcid)) hnew).elim
    · exact Option.some.inj (hslot.symm.trans hslot')

theorem apply_verified (hb : cfg.bypass = []) (h : VerdictsOk b) (opId : String)
    (hverified : verdictsFor (apply cfg b t op).1.log opId ≠ []) : answerTo (apply cfg b t op).1.log opId ≠ none := by
  rw [apply_verdictsFor hb] at hverified
  cases hverdict : acceptedVerdict op (apply cfg b t op).2 opId with
  | none =>
    rw [hverdict] at hverified
    have hbefore : verdictsFor b.log opId ≠ [] := by simpa using hverified
    exact apply_answerTo_ne_none hb (h.verified opId hbefore)
  | some p =>
    obtain ⟨i, -, -, -, -, c, hc, hid⟩ := acceptedVerdict_spec hb hverdict
    rw [← hid]
    exact apply_answerTo_ne_none hb (h.known i c hc)

theorem apply_verdicts_ok (hb : cfg.bypass = []) (h : VerdictsOk b) (t : ℤ) (op : Op) : VerdictsOk (apply cfg b t op).1 where
  board := apply_ok hb h.board t op
  answers := apply_answers hb h.answers t op
  claims _ _ hd := apply_claim_ok hb h hd
  known := apply_known hb h
  unique := apply_unique hb h
  verified := apply_verified hb h

end

theorem start_verdicts_ok : VerdictsOk (Board.start : Board n) where
  board := start_ok
  answers := ⟨fun _ => rfl, List.nodup_nil⟩
  claims := by simp [Board.start]
  known := by simp [Board.start]
  unique := by simp [Board.start]
  verified := by simp [Board.start, verdictsFor]

theorem run_verdicts_ok {cfg : Config} (hb : cfg.bypass = []) (ops : List (ℤ × Op)) :
    VerdictsOk (run cfg (.start : Board n) ops) :=
  run_induction (motive := VerdictsOk) (fun _ t op h => apply_verdicts_ok hb h t op) ops start_verdicts_ok

/-! ## Merges -/

theorem mergeRefusal_eq {cfg : Config} (hb : cfg.bypass = []) (hrule : cfg.evidenceRule = none) (verdicts : List Verdict)
    (work : Option String) : mergeRefusal cfg verdicts work = verdictRefusal verdicts (onWork verdicts work) false := by
  simp [mergeRefusal, hb, hrule]

theorem verdictRefusal_eq_none {verdicts found : List Verdict} (h : verdictRefusal verdicts found false = none) :
    ∃ v, found.getLast? = some v ∧ v.status = "PASS" := by
  unfold verdictRefusal at h
  by_cases hempty : verdicts = []
  · rw [if_pos hempty] at h
    cases h
  rw [if_neg hempty, if_neg Bool.false_ne_true] at h
  cases hlast : found.getLast? with
  | none => simp [hlast] at h
  | some v =>
    rw [hlast] at h
    simp only [ite_eq_left_iff, reduceCtorEq, imp_false, not_not] at h
    exact ⟨v, rfl, h⟩

/-- The merge is by the holder of a live claim, and the last verdict accepted for that claim on the work was
PASS, by its verifier, who is not the holder. -/
def MergeVerified (b : Board n) (t : ℤ) (op : Op) (reply : Reply) : Prop :=
  ∃ i, slotOf n op.body.item = some i ∧ ∃ c ∈ (b.records i).claims,
    c.holder = op.body.agent ∧ t < c.leaseUntil ∧ reply.claimOpId = some c.claimOpId ∧
    ∃ p, ((verdictsFor b.log c.claimOpId).filter fun p => some p.2.workDigest = op.body.workDigest).getLast? = some p ∧
      p.2.status = "PASS" ∧ p.1 ≠ c.holder ∧ p.2.verifier = p.1

/-- The new claim has an identifier under which nothing was answered or verified before. -/
def ClaimFresh (b : Board n) (op : Op) (reply : Reply) : Prop :=
  reply.claimOpId = some op.opId ∧ answerTo b.log op.opId = none ∧ verdictsFor b.log op.opId = [] ∧
    ∀ i, ∀ c ∈ (b.records i).claims, c.claimOpId ≠ op.opId

section
variable {cfg : Config} {b : Board n} {t : ℤ} {op : Op}

theorem apply_merge_verified (hb : cfg.bypass = []) (hrule : cfg.evidenceRule = none) (h : VerdictsOk b)
    (haccepted : (apply cfg b t op).2.accepted) (hkind : op.body.kind = .merge) : MergeVerified b t op (apply cfg b t op).2 := by
  obtain ⟨i, info, record, hslot, hchange, heq⟩ := apply_accepted hb haccepted
  rw [heq]
  refine ⟨i, hslot, ?_⟩
  cases hchange with
  | merge c _ hown hverdicts =>
    obtain ⟨hmem, hagent⟩ := ownClaim_spec hown
    have hclaim := h.claims i c (mem_of_mem_expireRecord hmem)
    refine ⟨c, mem_of_mem_expireRecord hmem, hagent, expireRecord_live hb t (h.board.record i) c hmem, rfl, ?_⟩
    rw [mergeRefusal_eq hb hrule] at hverdicts
    obtain ⟨v, hlast, hpass⟩ := verdictRefusal_eq_none hverdicts
    rw [onWork, hclaim.verdicts, List.filter_map, List.getLast?_map, Option.map_eq_some_iff] at hlast
    obtain ⟨p, hp, rfl⟩ := hlast
    have hmemp := List.mem_of_getLast? hp
    exact ⟨p, hp, hpass, hclaim.independent p (List.mem_filter.mp hmemp).1⟩
  | claim holder hother hstate hcap => rcases hother with hother | hother <;> simp [hkind] at hother
  | renew c hother hown => simp [hkind] at hother
  | release c hother hmem hagent => simp [hkind] at hother
  | verify c verdict hother hmem hid hholder hverifier hself => simp [hkind] at hother

theorem apply_claim_fresh (hb : cfg.bypass = []) (h : VerdictsOk b) (haccepted : (apply cfg b t op).2.accepted)
    (hkind : op.body.kind = .acquire ∨ op.body.kind = .assign) : ClaimFresh b op (apply cfg b t op).2 := by
  have hchanged : (apply cfg b t op).2.changed = true := by
    simp only [Reply.accepted, Bool.and_eq_true] at haccepted
    exact haccepted.2
  have hnew : answerTo b.log op.opId = none := by
    rw [← h.answers.recorded]
    exact (apply_changed hb hchanged).2.2
  refine ⟨?_, hnew, ?_, fun i c hc hid => h.known i c hc (hid ▸ hnew)⟩
  · obtain ⟨i, info, record, -, hchange, heq⟩ := apply_accepted hb haccepted
    rw [heq]
    cases hchange with
    | claim holder _ hstate hcap => rfl
    | renew c hother hown => rcases hkind with hkind | hkind <;> simp [hkind] at hother
    | release c hother hmem hagent => rcases hkind with hkind | hkind <;> simp [hkind] at hother
    | merge c hother hown hverdicts => rcases hkind with hkind | hkind <;> simp [hkind] at hother
    | verify c verdict hother hmem hid hholder hverifier hself => rcases hkind with hkind | hkind <;> simp [hkind] at hother
  · by_contra hverified
    exact h.verified op.opId hverified hnew

end

/-- Work is merged only on the last verdict accepted for the very claim under which it is merged, and no
verdict accepted before counts for a new claim. -/
theorem merges_verified (cfg : Config) (hb : cfg.bypass = []) (hrule : cfg.evidenceRule = none) (ops : List (ℤ × Op)) (t : ℤ)
    (op : Op) (haccepted : (apply cfg (run cfg (.start : Board n) ops) t op).2.accepted) :
    (op.body.kind = .merge →
      MergeVerified (run cfg (.start : Board n) ops) t op (apply cfg (run cfg (.start : Board n) ops) t op).2) ∧
      (op.body.kind = .acquire ∨ op.body.kind = .assign →
        ClaimFresh (run cfg (.start : Board n) ops) op (apply cfg (run cfg (.start : Board n) ops) t op).2) := by
  have hok : VerdictsOk (run cfg (.start : Board n) ops) := run_verdicts_ok hb ops
  exact ⟨apply_merge_verified hb hrule hok haccepted, apply_claim_fresh hb hok haccepted⟩

/-- A worker claims an item, the other one verifies its work, and the work is merged. -/
def sampleOps : List (ℤ × Op) :=
  [(1, sampleOp "a" "W1" .acquire 0),
    (2, sampleOp "b" "W2" (.verify
      { verdictId := "v"
        workDigest := "w"
        status := "PASS"
        claimOpId := "a"
        verifier := "W2"
        holder := "W1"
        supersedes := none
        evidence := 1
        checks := none }) 1)]

theorem merges_verified_sample :
    (.merge = Kind.merge →
      MergeVerified (run sampleConfig (.start : Board 2) sampleOps) 3 (sampleOp "c" "W1" .merge 1)
        (apply sampleConfig (run sampleConfig (.start : Board 2) sampleOps) 3 (sampleOp "c" "W1" .merge 1)).2) ∧
      (.merge = Kind.acquire ∨ .merge = Kind.assign →
        ClaimFresh (run sampleConfig (.start : Board 2) sampleOps) (sampleOp "c" "W1" .merge 1)
          (apply sampleConfig (run sampleConfig (.start : Board 2) sampleOps) 3 (sampleOp "c" "W1" .merge 1)).2) :=
  merges_verified sampleConfig rfl rfl sampleOps 3 (sampleOp "c" "W1" .merge 1) (by decide)

end HarnessConformance.Coordination
