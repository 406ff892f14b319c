import HarnessConformance.Coordination.Safety

/-! # Exactly-once effects

The table of answers holds for each identifier the first answer that the log has for it, and an operation
whose identifier has an answer changes nothing. -/

namespace HarnessConformance.Coordination
open Lib
set_option autoImplicit false

variable {n : ℕ}

/-! ## The log as a table of answers -/

def Row.entryOf (opId : String) : Row n → Option Entry
  | .expiry _ _ _ => none
  | .answer _ op reply => if op.opId = opId then some ⟨reply, op.body⟩ else none

/-- The first answer in the log for an identifier. -/
def answerTo (log : List (Row n)) (opId : String) : Option Entry := log.findSome? (Row.entryOf opId)

/-- The identifier of an operation that changed a record. -/
def Row.changedBy : Row n → Option String
  | .expiry _ _ _ => none
  | .answer _ op reply => if reply.changed then some op.opId else none

theorem answerTo_expiryRows (cfg : Config) (t : ℤ) (b : Board n) (opId : String) : answerTo (expiryRows cfg t b) opId = none := by
  rw [answerTo, List.findSome?_eq_none_iff]
  intro row hrow
  obtain ⟨j, -, hmem⟩ := List.mem_flatMap.mp hrow
  obtain ⟨c, -, rfl⟩ := List.mem_map.mp hmem
  rfl

theorem changedBy_expiryRows (cfg : Config) (t : ℤ) (b : Board n) : (expiryRows cfg t b).filterMap Row.changedBy = [] := by
  rw [List.filterMap_eq_nil_iff]
  intro row hrow
  obtain ⟨j, -, hmem⟩ := List.mem_flatMap.mp hrow
  obtain ⟨c, -, rfl⟩ := List.mem_map.mp hmem
  rfl

theorem answerTo_isSome_of_changedBy {log : List (Row n)} {opId : String} (h : opId ∈ log.filterMap Row.changedBy) :
    (answerTo log opId).isSome := by
  obtain ⟨row, hrow, hid⟩ := List.mem_filterMap.mp h
  rw [answerTo, List.findSome?_isSome_iff]
  refine ⟨row, hrow, ?_⟩
  cases row with
  | expiry t i c => cases hid
  | answer t op reply =>
    simp only [Row.changedBy, Option.ite_none_right_eq_some, Option.some.injEq] at hid
    simp [Row.entryOf, hid.2]

/-! ## One operation -/

section
variable {cfg : Config} {b : Board n} {t : ℤ} {op : Op}

theorem finish_answered (b : Board n) (t : ℤ) (op : Op) (info : Info) (answer : Answer) (opId : String) :
    (finish b t op info answer).1.answered.lookup opId =
      (b.answered.lookup opId).or
        (if op.opId = opId then some ⟨(finish b t op info answer).2, op.body⟩ else none) := by
  simp only [finish]
  by_cases hid : op.opId = opId
  · subst hid
    cases hold : b.answered.lookup op.opId with
    | none => simp [List.lookup_append, hold]
    | some entry => simp [hold]
  · have hother : (opId == op.opId) = false := by simpa using Ne.symm hid
    cases hold : (b.answered.lookup op.opId).isSome with
    | false => simp [List.lookup_append, List.lookup, hid, hother]
    | true => simp [hid]

theorem apply_answered (hb : cfg.bypass = []) (b : Board n) (t : ℤ) (op : Op) (opId : String) :
    (apply cfg b t op).1.answered.lookup opId =
      (b.answered.lookup opId).or (if op.opId = opId then some ⟨(apply cfg b t op).2, op.body⟩ else none) := by
  rcases apply_cases hb b t op with ⟨info, answer, -, h⟩ | ⟨-, -, -, i, info, record, -, -, h⟩
  · rw [h]
    exact finish_answered (expire cfg t b) t op info answer opId
  · rw [h]
    exact finish_answered ((expire cfg t b).setRecord i record) t op info .accepted opId

theorem apply_answerTo (hb : cfg.bypass = []) (b : Board n) (t : ℤ) (op : Op) (opId : String) :
    answerTo (apply cfg b t op).1.log opId =
      (answerTo b.log opId).or (if op.opId = opId then some ⟨(apply cfg b t op).2, op.body⟩ else none) := by
  have hrows := answerTo_expiryRows cfg t b opId
  rw [answerTo] at hrows
  rw [apply_log hb, answerTo, List.findSome?_append, List.findSome?_append, hrows, Option.none_or]
  simp only [List.findSome?_cons, List.findSome?_nil, Row.entryOf, answerTo]
  split_ifs <;> rfl

/-- An operation that changes nothing leaves the records to the expiries of its tick. -/
theorem apply_unchanged (hb : cfg.bypass = []) (h : (apply cfg b t op).2.changed = false) :
    (apply cfg b t op).1.records = (expire cfg t b).records := by
  rcases apply_cases hb b t op with ⟨info, answer, -, heq⟩ | ⟨-, -, -, i, info, record, -, hchange, heq⟩
  · rw [heq]
    rfl
  · rw [heq] at h
    simp [finish, hchange.changed] at h

theorem apply_changed (hb : cfg.bypass = []) (h : (apply cfg b t op).2.changed = true) :
    op.retryOf = none ∧ t ≤ cfg.deadline ∧ b.answered.lookup op.opId = none := by
  rcases apply_cases hb b t op with ⟨info, answer, hinfo, heq⟩ | ⟨hretry, htime, hnew, -⟩
  · rw [heq] at h
    simp [finish, hinfo] at h
  · exact ⟨hretry, htime, hnew⟩

/-- What a retry of `original` is answered, given the answer recorded for that. -/
def retryAnswer (entry : Option Entry) (body : Body) : Answer × Option String × Option ℤ :=
  match entry with
  | some entry =>
    if entry.body = body then (entry.result.answer, entry.result.claimOpId, entry.result.leaseUntil)
    else (.retryMismatch, none, none)
  | none => (.retryMismatch, none, none)

theorem apply_retry (hb : cfg.bypass = []) {original : String} (hretry : op.retryOf = some original)
    (hnew : b.answered.lookup op.opId = none) :
    ((apply cfg b t op).2.answer, (apply cfg b t op).2.claimOpId, (apply cfg b t op).2.leaseUntil) =
      retryAnswer (b.answered.lookup original) op.body := by
  have hentry : apply cfg b t op = retry (expire cfg t b) t op original := by
    have hanswered : ((expire cfg t b).answered.lookup op.opId).isSome = false := by
      rw [expire, hnew]
      rfl
    simp [apply, hb, hretry, hanswered]
  have hsame : (expire cfg t b).answered.lookup original = b.answered.lookup original := rfl
  rw [hentry, retry, hsame]
  unfold retryAnswer
  cases b.answered.lookup original with
  | none => rfl
  | some entry =>
    dsimp only
    by_cases hbody : entry.body = op.body
    · rw [if_neg (not_not.mpr hbody), if_pos hbody]
      rfl
    · rw [if_pos hbody, if_neg hbody]
      rfl

end

/-! ## Runs -/

structure AnswersOk (b : Board n) : Prop where
  recorded : ∀ opId, b.answered.lookup opId = answerTo b.log opId
  once : (b.log.filterMap Row.changedBy).Nodup

theorem apply_answers {cfg : Config} (hb : cfg.bypass = []) {b : Board n} (h : AnswersOk b) (t : ℤ) (op : Op) :
    AnswersOk (apply cfg b t op).1 := by
  refine ⟨fun opId => ?_, ?_⟩
  · rw [apply_answered hb, apply_answerTo hb, h.recorded]
  · rw [apply_log hb, List.filterMap_append, List.filterMap_append, changedBy_expiryRows, List.nil_append]
    cases hchanged : (apply cfg b t op).2.changed with
    | false => simpa [Row.changedBy, hchanged] using h.once
    | true =>
      have hnew : (answerTo b.log op.opId).isSome = false := by
        rw [← h.recorded, (apply_changed hb hchanged).2.2]
        rfl
      have hfresh : op.opId ∉ b.log.filterMap Row.changedBy := by
        intro hmem
        rw [answerTo_isSome_of_changedBy hmem] at hnew
        cases hnew
      simp only [List.filterMap_cons, List.filterMap_nil, Row.changedBy, hchanged, if_true]
      rw [← List.concat_eq_append, List.nodup_concat]
      exact ⟨hfresh, h.once⟩

theorem run_answers {cfg : Config} (hb : cfg.bypass = []) (ops : List (ℤ × Op)) {b : Board n} (h : AnswersOk b) :
    AnswersOk (run cfg b ops) :=
  run_induction (motive := AnswersOk) (fun _ t op h => apply_answers hb h t op) ops h

/-- What the operation that arrives at `t` changes, and what a retry is answered. -/
structure EffectsOk (cfg : Config) (b : Board n) (t : ℤ) (op : Op) : Prop where
  unchanged : (apply cfg b t op).2.changed = false → (apply cfg b t op).1.records = (expire cfg t b).records
  once : answerTo b.log op.opId ≠ none ∨ op.retryOf ≠ none ∨ cfg.deadline < t → (apply cfg b t op).2.changed = false
  retry : answerTo b.log op.opId = none → ∀ original, op.retryOf = some original →
    ((apply cfg b t op).2.answer, (apply cfg b t op).2.claimOpId, (apply cfg b t op).2.leaseUntil) =
      retryAnswer (answerTo b.log original) op.body

theorem apply_effects {cfg : Config} (hb : cfg.bypass = []) {b : Board n} (h : AnswersOk b) (t : ℤ) (op : Op) :
    EffectsOk cfg b t op := by
  refine ⟨apply_unchanged hb, fun hcase => ?_, fun hnew original hretry => ?_⟩
  · by_contra hchanged
    obtain ⟨hretry, htime, hnew⟩ := apply_changed hb (Bool.not_eq_false _ ▸ hchanged)
    rw [h.recorded] at hnew
    rcases hcase with hrepeat | hretried | hlate
    · exact hrepeat hnew
    · exact hretried hretry
    · exact absurd htime (not_le.mpr hlate)
  · rw [← h.recorded] at hnew
    rw [apply_retry hb hretry hnew, h.recorded]

/-- Whatever is delivered how often and in which order, an identifier changes the board at most once; a repeated
identifier, a retry and a late operation change nothing; and a retry that is not itself a repetition repeats
the first answer given to the operation that it names, if the body is the same. -/
theorem exactly_once (cfg : Config) (hb : cfg.bypass = []) (ops : List (ℤ × Op)) :
    ((run cfg (.start : Board n) ops).log.filterMap Row.changedBy).Nodup ∧
      ∀ t op, EffectsOk cfg (run cfg (.start : Board n) ops) t op := by
  have hok : AnswersOk (run cfg (.start : Board n) ops) := run_answers hb ops ⟨fun _ => rfl, List.nodup_nil⟩
  exact ⟨hok.once, apply_effects hb hok⟩

theorem exactly_once_sample :
    let ops := [(1, sampleOp "a" "W1" .acquire 0), (2, { sampleOp "b" "W1" .acquire 0 with retryOf := some "a" })]
    ((run sampleConfig (.start : Board 2) ops).log.filterMap Row.changedBy).Nodup ∧
      ∀ t op, EffectsOk sampleConfig (run sampleConfig (.start : Board 2) ops) t op :=
  exactly_once sampleConfig rfl _

/-- A retry that is itself delivered twice is refused the second time, as a duplicate. -/
theorem retry_delivered_twice :
    ¬ ∀ (ops : List (ℤ × Op)) (t : ℤ) (op : Op) (original : String) (entry : Entry), op.retryOf = some original →
      answerTo (run sampleConfig (.start : Board 2) ops).log original = some entry → entry.body = op.body →
      (apply sampleConfig (run sampleConfig (.start : Board 2) ops) t op).2.answer = entry.result.answer := by
  intro h
  have hrepeat := h [(1, sampleOp "a" "W1" .acquire 0), (2, { sampleOp "b" "W1" .acquire 0 with retryOf := some "a" })] 3
    { sampleOp "b" "W1" .acquire 0 with retryOf := some "a" } "a" _ rfl rfl rfl
  revert hrepeat
  decide

end HarnessConformance.Coordination
