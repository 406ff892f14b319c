import HarnessConformance.Coordination.Verdicts

/-! # Improvements and their evidence

An improvement needs new evidence, and the board compares a PASS with the verdict that it supersedes and with
no other. That is enough as long as the superseded verdict is the FAIL with the most evidence; a verdict of
another status or with less evidence in between makes room for a PASS below an earlier FAIL. -/

namespace HarnessConformance.Coordination
open Lib
set_option autoImplicit false

variable {n : ℕ}

/-! ## Histories -/

/-- A PASS has more evidence than every FAIL on the same work before it. -/
def Improves (verdicts : List Verdict) : Prop :=
  verdicts.Pairwise fun earlier later => earlier.workDigest = later.workDigest → earlier.status = "FAIL" →
    later.status = "PASS" → earlier.evidence < later.evidence

instance (verdicts : List Verdict) : Decidable (Improves verdicts) :=
  inferInstanceAs (Decidable (verdicts.Pairwise _))

/-- Where the work has a FAIL, its latest verdict is the FAIL with the most evidence. -/
def LatestFail (verdicts : List Verdict) (work : String) : Prop :=
  ∀ v ∈ onWork verdicts (some work), v.status = "FAIL" →
    ∃ last ∈ (onWork verdicts (some work)).getLast?, last.status = "FAIL" ∧ v.evidence ≤ last.evidence

instance (verdicts : List Verdict) (work : String) : Decidable (LatestFail verdicts work) :=
  inferInstanceAs (Decidable (∀ v ∈ onWork verdicts (some work), v.status = "FAIL" →
    ∃ last ∈ (onWork verdicts (some work)).getLast?, last.status = "FAIL" ∧ v.evidence ≤ last.evidence))

theorem mem_onWork {verdicts : List Verdict} {work : String} {v : Verdict} :
    v ∈ onWork verdicts (some work) ↔ v ∈ verdicts ∧ v.workDigest = work := by
  simp [onWork]

theorem historyOk_iff {verdicts : List Verdict} {verdict : Verdict} : historyOk verdicts verdict = true ↔
    (∀ v ∈ verdicts, v.verdictId ≠ verdict.verdictId) ∧
      verdict.supersedes = (onWork verdicts (some verdict.workDigest)).getLast?.map (·.verdictId) ∧
      ∀ v ∈ (onWork verdicts (some verdict.workDigest)).getLast?,
        v.status = "FAIL" → verdict.status = "PASS" → v.evidence < verdict.evidence := by
  simp [historyOk]

theorem Improves.snoc {verdicts : List Verdict} {verdict : Verdict} (h : Improves verdicts)
    (hhistory : historyOk verdicts verdict = true) (hlatest : verdict.status = "PASS" → LatestFail verdicts verdict.workDigest) :
    Improves (verdicts ++ [verdict]) := by
  obtain ⟨-, -, hnew⟩ := historyOk_iff.mp hhistory
  refine List.pairwise_append.mpr ⟨h, List.pairwise_singleton _ _, fun v hv w hw hwork hfail hpass => ?_⟩
  obtain rfl := List.mem_singleton.mp hw
  obtain ⟨last, hlast, hlastFail, hle⟩ := hlatest hpass v (mem_onWork.mpr ⟨hv, hwork⟩) hfail
  exact hle.trans_lt (hnew last hlast hlastFail hpass)

/-- An identifier that no verdict has. -/
def freshId (verdicts : List Verdict) : String :=
  String.ofList (List.replicate ((verdicts.map fun v => v.verdictId.length).sum + 1) 'v')

theorem freshId_ne {verdicts : List Verdict} {v : Verdict} (hv : v ∈ verdicts) : v.verdictId ≠ freshId verdicts := by
  intro hsame
  have hle := List.single_le_sum (by simp) _ (List.mem_map_of_mem (f := fun v => v.verdictId.length) hv)
  have hlength : v.verdictId.length = (verdicts.map fun v => v.verdictId.length).sum + 1 := by
    rw [hsame, freshId, String.length_ofList, List.length_replicate]
  omega

/-- Otherwise the history admits a PASS below an earlier FAIL. -/
theorem exists_laundered {verdicts : List Verdict} {work : String} (h : ¬ LatestFail verdicts work) :
    ∃ verdict, verdict.workDigest = work ∧ verdict.status = "PASS" ∧ historyOk verdicts verdict = true ∧
      ¬ Improves (verdicts ++ [verdict]) := by
  simp only [LatestFail, not_forall] at h
  obtain ⟨v, hv, hfail, hlatest⟩ := h
  let verdict : Verdict :=
    { verdictId := freshId verdicts
      workDigest := work
      status := "PASS"
      claimOpId := v.claimOpId
      verifier := v.verifier
      holder := v.holder
      supersedes := (onWork verdicts (some work)).getLast?.map (·.verdictId)
      evidence := v.evidence
      checks := none }
  refine ⟨verdict, rfl, rfl, historyOk_iff.mpr ⟨fun w hw => freshId_ne hw, rfl, fun last hlast hlastFail _ => ?_⟩, fun himproves => ?_⟩
  · by_contra hle
    exact hlatest ⟨last, hlast, hlastFail, not_lt.mp hle⟩
  · obtain ⟨hmem, hwork⟩ := mem_onWork.mp hv
    have hbelow := (List.pairwise_append.mp himproves).2.2 v hmem verdict (List.mem_singleton_self _) hwork hfail rfl
    exact lt_irrefl _ hbelow

/-! ## Accepted verdicts -/

section
variable {cfg : Config} {b : Board n} {t : ℤ} {op : Op}

/-- Only the operation itself changes anything. -/
theorem apply_eq_operate (hb : cfg.bypass = []) (h : (apply cfg b t op).2.accepted = true) :
    apply cfg b t op = operate cfg (expire cfg t b) t op := by
  have hrefused {outcome : Board n × Reply} (hno : Refused (expire cfg t b) t op outcome) : outcome.2.accepted = false := by
    obtain ⟨info, answer, hchanged, rfl⟩ := hno
    simp [Reply.accepted, finish, hchanged]
  revert h
  unfold apply
  simp only [hb, List.not_mem_nil, not_false_eq_true, and_true, if_false]
  split_ifs
  · intro h
    rw [hrefused (.intro _ rfl)] at h
    cases h
  · intro h
    rw [hrefused (.intro _ rfl)] at h
    cases h
  · split
    · intro h
      rw [hrefused (retry_refused _)] at h
      cases h
    · exact fun _ => rfl

theorem verify_history {verdict : Verdict} (h : (verify cfg b t op verdict).2.accepted = true) :
    ∃ i, ∃ c ∈ (b.records i).claims, (verify cfg b t op verdict).2.claimOpId = some c.claimOpId ∧
      c.claimOpId = verdict.claimOpId ∧ historyOk c.verdicts verdict = true := by
  have hrefused (info : Info) {answer : Answer} (hno : answer ≠ .accepted) : (finish b t op info answer).2.accepted = false := by
    simp [Reply.accepted, finish, hno]
  unfold verify at h ⊢
  split at h
  · rw [hrefused _ (by decide)] at h
    cases h
  rename_i i hslot
  dsimp only at h ⊢
  split_ifs at h ⊢ with hheld hself
  · rw [hrefused _ (by decide)] at h
    cases h
  · rw [hrefused _ (by decide)] at h
    cases h
  split at h
  · rw [hrefused _ (by decide)] at h
    cases h
  rename_i c hfound
  split_ifs at h ⊢ with hledger hhistory
  · rw [hrefused _ (by decide)] at h
    cases h
  · rw [hrefused _ (by decide)] at h
    cases h
  · have hid : c.claimOpId = verdict.claimOpId := by simpa using List.find?_some hfound
    refine ⟨i, c, List.mem_of_find?_eq_some hfound, rfl, hid, ?_⟩
    simpa using hhistory

/-- An accepted verdict fits the history of its claim. -/
theorem acceptedVerdict_history (hb : cfg.bypass = []) {claimOpId : String} {p : String × Verdict}
    (h : acceptedVerdict op (apply cfg b t op).2 claimOpId = some p) :
    op.body.kind = .verify p.2 ∧ p.2.claimOpId = claimOpId ∧
      ∃ i, ∃ c ∈ (b.records i).claims, c.claimOpId = claimOpId ∧ historyOk c.verdicts p.2 = true := by
  obtain ⟨-, -, haccepted, hkind, -, -⟩ := acceptedVerdict_spec hb h
  have hverify : apply cfg b t op = verify cfg (expire cfg t b) t op p.2 := by
    rw [apply_eq_operate hb haccepted, operate, hkind]
  have hclaimed : (apply cfg b t op).2.claimOpId = some claimOpId := by
    simp only [acceptedVerdict, hkind, Option.ite_none_right_eq_some] at h
    exact h.1.2
  rw [hverify] at haccepted hclaimed
  obtain ⟨i, c, hmem, hid, hnamed, hhistory⟩ := verify_history haccepted
  rw [hid] at hclaimed
  have hclaim : c.claimOpId = claimOpId := Option.some.inj hclaimed
  exact ⟨hkind, hnamed.symm.trans hclaim, i, c, mem_of_mem_expireRecord hmem, hclaim, hhistory⟩

end

/-! ## Runs -/

/-- The verdicts accepted for a claim so far. -/
def history (b : Board n) (claimOpId : String) : List Verdict := (verdictsFor b.log claimOpId).map Prod.snd

/-- A PASS is submitted only where the latest verdict on its work is the FAIL with the most evidence, if there is a FAIL. -/
def SubmittedOk (b : Board n) (op : Op) : Prop :=
  match op.body.kind with
  | .verify verdict => verdict.status = "PASS" → LatestFail (history b verdict.claimOpId) verdict.workDigest
  | _ => True

/-- Every operation of a run is submitted so. -/
def RunSubmittedOk (cfg : Config) : Board n → List (ℤ × Op) → Prop
  | _, [] => True
  | b, (t, op) :: ops => SubmittedOk b op ∧ RunSubmittedOk cfg (apply cfg b t op).1 ops

section
variable {cfg : Config} {b : Board n} {t : ℤ} {op : Op}

theorem apply_history (hb : cfg.bypass = []) (claimOpId : String) : history (apply cfg b t op).1 claimOpId =
    history b claimOpId ++ (acceptedVerdict op (apply cfg b t op).2 claimOpId).toList.map Prod.snd := by
  rw [history, apply_verdictsFor hb, List.map_append, history]

theorem apply_improves (hb : cfg.bypass = []) (h : VerdictsOk b) (hsubmitted : SubmittedOk b op)
    (himproves : ∀ claimOpId, Improves (history b claimOpId)) (claimOpId : String) :
    Improves (history (apply cfg b t op).1 claimOpId) := by
  rw [apply_history hb]
  cases hverdict : acceptedVerdict op (apply cfg b t op).2 claimOpId with
  | none => simpa using himproves claimOpId
  | some p =>
    obtain ⟨hkind, hnamed, i, c, hc, hid, hhistory⟩ := acceptedVerdict_history hb hverdict
    have hverdicts : c.verdicts = history b claimOpId := by
      rw [history, ← hid]
      exact (h.claims i c hc).verdicts
    rw [hverdicts] at hhistory
    simp only [SubmittedOk, hkind, hnamed] at hsubmitted
    exact (himproves claimOpId).snoc hhistory hsubmitted

theorem run_improves (hb : cfg.bypass = []) (ops : List (ℤ × Op)) (h : VerdictsOk b) (hsubmitted : RunSubmittedOk cfg b ops)
    (himproves : ∀ claimOpId, Improves (history b claimOpId)) (claimOpId : String) :
    Improves (history (run cfg b ops) claimOpId) := by
  induction ops generalizing b with
  | nil => exact himproves claimOpId
  | cons p ops ih =>
    obtain ⟨hstep, hrest⟩ := hsubmitted
    exact ih (apply_verdicts_ok hb h p.1 p.2) hrest (apply_improves hb h hstep himproves)

end

/-- In a run that submits a PASS only over the FAIL with the most evidence, every improvement has new evidence. Where the
history of a live claim is another one, it admits a PASS that has none. -/
theorem improvements (cfg : Config) (hb : cfg.bypass = []) (ops : List (ℤ × Op)) :
    (RunSubmittedOk cfg (.start : Board n) ops → ∀ claimOpId, Improves (history (run cfg (.start : Board n) ops) claimOpId)) ∧
      ∀ i, ∀ c ∈ ((run cfg (.start : Board n) ops).records i).claims, ∀ work,
        ¬ LatestFail (history (run cfg (.start : Board n) ops) c.claimOpId) work →
          ∃ verdict, verdict.workDigest = work ∧ verdict.status = "PASS" ∧ historyOk c.verdicts verdict = true ∧
            ¬ Improves (history (run cfg (.start : Board n) ops) c.claimOpId ++ [verdict]) := by
  refine ⟨fun hsubmitted => ?_, fun i c hc work hlatest => ?_⟩
  · exact run_improves hb ops start_verdicts_ok hsubmitted fun _ => List.Pairwise.nil
  · have hverdicts : c.verdicts = history (run cfg (.start : Board n) ops) c.claimOpId :=
      ((run_verdicts_ok hb ops).claims i c hc).verdicts
    rw [hverdicts]
    exact exists_laundered hlatest

/-- The verdict of another worker on the work of the first claim. -/
def sampleVerdict (verdictId status : String) (supersedes : Option String) (evidence : ℤ) : Kind :=
  .verify
    { verdictId := verdictId
      workDigest := "w"
      status := status
      claimOpId := "a"
      verifier := "W2"
      holder := "W1"
      supersedes := supersedes
      evidence := evidence
      checks := none }

theorem improvements_sample :
    let ops := [(1, sampleOp "a" "W1" .acquire 0), (2, sampleOp "b" "W2" (sampleVerdict "u" "FAIL" none 1) 1),
      (3, sampleOp "c" "W2" (sampleVerdict "v" "PASS" (some "u") 2) 1)]
    ∀ claimOpId, Improves (history (run sampleConfig (.start : Board 2) ops) claimOpId) := by
  refine (improvements sampleConfig rfl _).1 ⟨trivial, ?_, ?_, trivial⟩
  · exact fun hpass => absurd hpass (by decide)
  · intro _
    decide

/-- Three units of evidence for a FAIL, one for the next FAIL and two for the PASS. -/
theorem improvement_laundered : ¬ ∀ (cfg : Config) (ops : List (ℤ × Op)), cfg.bypass = [] →
    ∀ claimOpId, Improves (history (run cfg (.start : Board 2) ops) claimOpId) := by
  intro h
  have himproves := h sampleConfig
    [(1, sampleOp "a" "W1" .acquire 0), (2, sampleOp "b" "W2" (sampleVerdict "u" "FAIL" none 3) 1),
      (3, sampleOp "c" "W2" (sampleVerdict "v" "FAIL" (some "u") 1) 1),
      (4, sampleOp "d" "W2" (sampleVerdict "x" "PASS" (some "v") 2) 1)] rfl "a"
  exact absurd himproves (by decide)

end HarnessConformance.Coordination
