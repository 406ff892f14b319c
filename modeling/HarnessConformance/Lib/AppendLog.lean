import HarnessConformance.Lib.Lines

/-! # An append-only log over storage that may give way

One call prepares a row from the bytes it read, appends it, syncs and reads back. The storage may
cut the append short, lose the sync or return other bytes on read-back; the instance that saw it
refuses every later call. A `Journal` bundles the preparation with what its reader is known to
accept, and the facts below hold of every journal. -/

namespace HarnessConformance.Lib.AppendLog
open Lines
set_option autoImplicit false

/-- What the storage does in one call. -/
inductive Fault where
  | none
  | append (written : ℕ)
  | sync
  | readBack (seen : Option Bytes)
  deriving DecidableEq

variable {ι ω ε ρ : Type}

/-- The bytes left in the storage, the instance's poison flag and the reply of one call. -/
structure Turn (ε ρ : Type) where
  raw : Bytes
  poisoned : Bool
  reply : Except ε ρ

/-- The bytes after the append of `row`. -/
def appended (raw row : Bytes) : Fault → Bytes
  | .append written => raw ++ row.take written
  | _ => raw ++ row

/-- Whether append, sync and read-back all went as they should. -/
def completes (raw row : Bytes) : Fault → Bool
  | .none => true
  | .readBack (some seen) => seen == raw ++ row
  | _ => false

/-- Append, sync and read back a prepared row. -/
def turn (broken : Fault → ε) (poisoned : Bool) (raw : Bytes) (fault : Fault) : Except ε (Bytes × ρ) → Turn ε ρ
  | .error e => ⟨raw, poisoned, .error e⟩
  | .ok (row, reply) =>
    if completes raw row fault then ⟨raw ++ row, poisoned, .ok reply⟩
    else ⟨appended raw row fault, true, .error (broken fault)⟩

theorem turn_error (broken : Fault → ε) (poisoned : Bool) (raw : Bytes) (fault : Fault) (e : ε) :
    turn (ρ := ρ) broken poisoned raw fault (.error e) = ⟨raw, poisoned, .error e⟩ := rfl

theorem appended_of_completes {raw row : Bytes} {fault : Fault} (h : completes raw row fault = true) :
    appended raw row fault = raw ++ row := by
  cases fault <;> simp_all [completes, appended]

theorem turn_ok_raw (broken : Fault → ε) (poisoned : Bool) (raw : Bytes) (fault : Fault) (row : Bytes) (reply : ρ) :
    (turn broken poisoned raw fault (.ok (row, reply))).raw = appended raw row fault := by
  unfold turn
  dsimp only
  split
  · rename_i h
    rw [appended_of_completes h]
  · rfl

/-! ## Journals -/

/-- A writer with the reader it writes for. `prepare` runs the checks made before the append, on
the poison flag and the bytes of the storage. -/
structure Journal (ω ε ρ : Type) where
  prepare : Bool → Bytes → ω → Except ε (Bytes × ρ)
  broken : Fault → ε
  Accepts : Bytes → Prop
  poisoned_refuses : ∀ raw op, ∃ e, prepare true raw op = .error e
  ended : ∀ {raw}, Accepts raw → Ended raw
  accepts : ∀ {poisoned raw op row reply}, prepare poisoned raw op = .ok (row, reply) → Accepts raw
  accepts_row : ∀ {poisoned raw op row reply}, prepare poisoned raw op = .ok (row, reply) → Accepts (raw ++ row)
  row_line : ∀ {poisoned raw op row reply}, prepare poisoned raw op = .ok (row, reply) →
    ∃ line, Clean line ∧ row = line ++ [lineFeed]

/-- One call by one instance. -/
structure Call (ι ω : Type) where
  who : ι
  op : ω
  fault : Fault

/-- Shared bytes and a poison flag for each instance; an instance not yet created is not poisoned. -/
structure System (ι : Type) where
  raw : Bytes
  poisoned : ι → Bool

/-- Bytes found in the storage, before any instance saw a fault. -/
def System.start (raw : Bytes) : System ι := ⟨raw, fun _ => false⟩

namespace Journal
variable (J : Journal ω ε ρ)

def call (poisoned : Bool) (raw : Bytes) (op : ω) (fault : Fault) : Turn ε ρ :=
  turn J.broken poisoned raw fault (J.prepare poisoned raw op)

variable [DecidableEq ι]

def stepReply (s : System ι) (c : Call ι ω) : Except ε ρ := (J.call (s.poisoned c.who) s.raw c.op c.fault).reply

def step (s : System ι) (c : Call ι ω) : System ι :=
  let t := J.call (s.poisoned c.who) s.raw c.op c.fault
  ⟨t.raw, Function.update s.poisoned c.who t.poisoned⟩

def run (s : System ι) (calls : List (Call ι ω)) : System ι := calls.foldl J.step s

/-- A run in which the storage never gives way. -/
def runClean (s : System ι) (ops : List (ι × ω)) : System ι := J.run s (ops.map fun p => ⟨p.1, p.2, .none⟩)

/-! ## One call -/

variable {J} {s : System ι} {c : Call ι ω} {row : Bytes} {reply : ρ}

theorem step_refused {e : ε} (h : J.prepare (s.poisoned c.who) s.raw c.op = .error e) :
    J.step s c = s ∧ J.stepReply s c = .error e := by
  simp only [step, stepReply, call, h, turn_error, Function.update_eq_self, and_self]

theorem step_raw (h : J.prepare (s.poisoned c.who) s.raw c.op = .ok (row, reply)) :
    (J.step s c).raw = appended s.raw row c.fault := by
  simp only [step, call, h, turn_ok_raw]

theorem step_completes (h : J.prepare (s.poisoned c.who) s.raw c.op = .ok (row, reply))
    (hc : completes s.raw row c.fault = true) :
    J.step s c = { s with raw := s.raw ++ row } ∧ J.stepReply s c = .ok reply := by
  simp only [step, stepReply, call, h, turn, hc, if_true, Function.update_eq_self, and_self]

theorem step_breaks (h : J.prepare (s.poisoned c.who) s.raw c.op = .ok (row, reply))
    (hc : completes s.raw row c.fault = false) :
    (J.step s c).poisoned c.who = true ∧ J.stepReply s c = .error (J.broken c.fault) := by
  simp only [step, stepReply, call, h, turn, hc, Bool.false_eq_true, if_false, Function.update_self, and_self]

theorem step_poisoned_other {i : ι} (h : i ≠ c.who) : (J.step s c).poisoned i = s.poisoned i :=
  Function.update_of_ne h _ _

theorem step_of_poisoned (h : s.poisoned c.who = true) : J.step s c = s ∧ ∃ e, J.stepReply s c = .error e := by
  obtain ⟨e, he⟩ := J.poisoned_refuses s.raw c.op
  rw [← h] at he
  obtain ⟨hstep, hreply⟩ := step_refused he
  exact ⟨hstep, e, hreply⟩

theorem step_of_not_ended (h : ¬ Ended s.raw) : J.step s c = s ∧ ∃ e, J.stepReply s c = .error e := by
  cases hp : J.prepare (s.poisoned c.who) s.raw c.op with
  | error e =>
    obtain ⟨hstep, hreply⟩ := step_refused hp
    exact ⟨hstep, e, hreply⟩
  | ok out =>
    obtain ⟨row, reply⟩ := out
    exact absurd (J.ended (J.accepts hp)) h

/-! ## Runs -/

@[simp] theorem run_nil : J.run s [] = s := rfl

theorem run_cons {calls : List (Call ι ω)} : J.run s (c :: calls) = J.run (J.step s c) calls := rfl

theorem run_snoc {calls : List (Call ι ω)} : J.run s (calls ++ [c]) = J.step (J.run s calls) c := by
  rw [run, run, List.foldl_append, List.foldl_cons, List.foldl_nil]

theorem step_keeps_poison {i : ι} (h : s.poisoned i = true) : (J.step s c).poisoned i = true := by
  by_cases hi : i = c.who
  · subst hi
    rw [(step_of_poisoned h).1]
    exact h
  · rw [step_poisoned_other hi]
    exact h

theorem run_keeps_poison {i : ι} (h : s.poisoned i = true) (calls : List (Call ι ω)) :
    (J.run s calls).poisoned i = true := by
  induction calls generalizing s with
  | nil => exact h
  | cons c calls ih => exact ih (step_keeps_poison h)

/-- Bytes that end in the middle of a row are never written to again, by any instance. -/
theorem run_of_not_ended (h : ¬ Ended s.raw) (calls : List (Call ι ω)) : J.run s calls = s := by
  induction calls with
  | nil => rfl
  | cons c calls ih => rw [run_cons, (step_of_not_ended h).1, ih]

theorem runClean_snoc {ops : List (ι × ω)} {p : ι × ω} :
    J.runClean s (ops ++ [p]) = J.step (J.runClean s ops) ⟨p.1, p.2, .none⟩ := by
  rw [runClean, runClean, List.map_append, List.map_singleton, run_snoc]

theorem step_clean_poisoned {i : ι} {op : ω} : (J.step s ⟨i, op, .none⟩).poisoned = s.poisoned := by
  cases hp : J.prepare (s.poisoned i) s.raw op with
  | error e => rw [(step_refused (c := ⟨i, op, .none⟩) hp).1]
  | ok out =>
    obtain ⟨row, reply⟩ := out
    rw [(step_completes (c := ⟨i, op, .none⟩) hp rfl).1]

theorem runClean_poisoned {ops : List (ι × ω)} : (J.runClean s ops).poisoned = s.poisoned := by
  induction ops using List.reverseRecOn with
  | nil => rfl
  | append_singleton ops p ih => rw [runClean_snoc, step_clean_poisoned, ih]

theorem not_ended_torn {raw line : Bytes} (hline : Clean line) {written : ℕ} (hpos : 0 < written)
    (hlt : written < (line ++ [lineFeed]).length) : ¬ Ended (raw ++ (line ++ [lineFeed]).take written) := by
  rw [List.length_append, List.length_singleton] at hlt
  rw [List.take_append_of_le_length (by omega)]
  have hne : line.take written ≠ [] := by
    intro hnil
    have hlen := congrArg List.length hnil
    rw [List.length_take, List.length_nil] at hlen
    omega
  rintro (hnil | hlast)
  · exact hne (List.append_eq_nil_iff.mp hnil).2
  · rw [List.getLast?_append_of_ne_nil _ hne] at hlast
    exact hline.not_mem.1 (List.mem_of_mem_take (List.mem_of_getLast? hlast))

/-- What a step leaves of accepted bytes: an accepted history from `first` on, and behind it nothing or a torn row. -/
def Kept (J : Journal ω ε ρ) (first raw : Bytes) : Prop :=
  ∃ kept torn, raw = kept ++ torn ∧ first <+: kept ∧ J.Accepts kept ∧ (torn = [] ∨ ¬ Ended raw)

theorem step_kept {first : Bytes} (h : Kept J first s.raw) : Kept J first (J.step s c).raw := by
  obtain ⟨kept, torn, hraw, hfirst, haccepts, htorn⟩ := h
  rcases htorn with rfl | htorn
  · rw [List.append_nil] at hraw
    cases hp : J.prepare (s.poisoned c.who) s.raw c.op with
    | error e =>
      rw [(step_refused hp).1]
      exact ⟨kept, [], by rw [List.append_nil, hraw], hfirst, haccepts, .inl rfl⟩
    | ok out =>
      obtain ⟨row, reply⟩ := out
      obtain ⟨line, hline, rfl⟩ := J.row_line hp
      have hwhole : Kept J first (s.raw ++ (line ++ [lineFeed])) :=
        ⟨_, [], (List.append_nil _).symm, hfirst.trans (hraw ▸ List.prefix_append _ _), J.accepts_row hp, .inl rfl⟩
      rw [step_raw hp]
      cases c.fault with
      | append written =>
        by_cases hzero : written = 0
        · subst hzero
          exact ⟨kept, [], by rw [List.append_nil, hraw]; exact List.append_nil _, hfirst, haccepts, .inl rfl⟩
        · by_cases hlt : written < (line ++ [lineFeed]).length
          · exact ⟨kept, _, by rw [← hraw]; rfl, hfirst, haccepts, .inr (not_ended_torn hline (Nat.pos_of_ne_zero hzero) hlt)⟩
          · rw [appended, List.take_of_length_le (Nat.le_of_not_lt hlt)]
            exact hwhole
      | none => exact hwhole
      | sync => exact hwhole
      | readBack seen => exact hwhole
  · rw [(step_of_not_ended htorn).1]
    exact ⟨kept, torn, hraw, hfirst, haccepts, .inr htorn⟩

theorem run_kept {first : Bytes} (h : J.Accepts first) (hraw : s.raw = first) (calls : List (Call ι ω)) :
    Kept J first (J.run s calls).raw := by
  induction calls using List.reverseRecOn with
  | nil => exact ⟨first, [], by rw [run_nil, hraw, List.append_nil], List.prefix_rfl, h, .inl rfl⟩
  | append_singleton calls c ih =>
    rw [run_snoc]
    exact step_kept ih

/-- A call on storage that never gives way appends its row or changes nothing. -/
theorem runClean_step {raw : Bytes} {ops : List (ι × ω)} {p : ι × ω} :
    (J.runClean (.start raw) (ops ++ [p])).raw = (match J.prepare false (J.runClean (.start raw) ops).raw p.2 with
      | .ok (row, _) => (J.runClean (.start raw) ops).raw ++ row
      | .error _ => (J.runClean (.start raw) ops).raw) ∧
    J.stepReply (J.runClean (.start raw) ops) ⟨p.1, p.2, .none⟩ =
      (J.prepare false (J.runClean (.start raw) ops).raw p.2).map Prod.snd := by
  have hclean : (J.runClean (.start raw) ops).poisoned p.1 = false := by
    rw [runClean_poisoned]
    rfl
  rw [runClean_snoc]
  cases hp : J.prepare false (J.runClean (.start raw) ops).raw p.2 with
  | error e =>
    obtain ⟨hstep, hreply⟩ := step_refused (c := ⟨p.1, p.2, .none⟩) (hclean ▸ hp)
    rw [hstep, hreply]
    exact ⟨rfl, rfl⟩
  | ok out =>
    obtain ⟨row, reply⟩ := out
    obtain ⟨hstep, hreply⟩ := step_completes (c := ⟨p.1, p.2, .none⟩) (hclean ▸ hp) rfl
    rw [hstep, hreply]
    exact ⟨rfl, rfl⟩

/-! ## Fail-stop -/

/-- What holds of a call `c` made in the state `s`, whatever the storage does in it and whatever
calls come later. -/
structure FailStop (J : Journal ω ε ρ) (s : System ι) (c : Call ι ω) : Prop where
  refused : ∀ e, J.prepare (s.poisoned c.who) s.raw c.op = .error e → J.step s c = s
  poisons : ∀ row reply, J.prepare (s.poisoned c.who) s.raw c.op = .ok (row, reply) →
    completes s.raw row c.fault = false → (∃ e, J.stepReply s c = .error e) ∧
    ∀ later c', c'.who = c.who → (J.run (J.step s c) later).poisoned c.who = true ∧
      (∃ e, J.stepReply (J.run (J.step s c) later) c' = .error e) ∧
      J.step (J.run (J.step s c) later) c' = J.run (J.step s c) later
  torn : ∀ row reply written, J.prepare (s.poisoned c.who) s.raw c.op = .ok (row, reply) →
    c.fault = .append written → 0 < written → written < row.length →
    ∀ later c', (J.run (J.step s c) later).raw = (J.step s c).raw ∧
      ∃ e, J.stepReply (J.run (J.step s c) later) c' = .error e
  whole : ∀ row reply, J.prepare (s.poisoned c.who) s.raw c.op = .ok (row, reply) →
    (J.step s c).raw = s.raw ++ row → J.Accepts (J.step s c).raw ∧
    (J.step s c).raw = (J.step s { c with fault := .none }).raw ∧
    J.stepReply s { c with fault := .none } = .ok reply

theorem failStop (s : System ι) (c : Call ι ω) : FailStop J s c where
  refused e h := (step_refused h).1
  poisons row reply h hc := by
    obtain ⟨hpoisoned, hreply⟩ := step_breaks h hc
    refine ⟨⟨_, hreply⟩, fun later c' hwho => ?_⟩
    have hlater := run_keeps_poison (J := J) hpoisoned later
    obtain ⟨hstep, herror⟩ := step_of_poisoned (J := J) (c := c') (hwho ▸ hlater)
    exact ⟨hlater, herror, hstep⟩
  torn row reply written h hfault hpos hlt later c' := by
    obtain ⟨line, hline, rfl⟩ := J.row_line h
    have htorn : ¬ Ended (J.step s c).raw := by
      rw [step_raw h, hfault]
      exact not_ended_torn hline hpos hlt
    rw [run_of_not_ended htorn later]
    exact ⟨rfl, (step_of_not_ended htorn).2⟩
  whole row reply h hraw := by
    have hok := step_completes (c := { c with fault := .none }) h rfl
    rw [hraw, hok.1]
    exact ⟨J.accepts_row h, rfl, hok.2⟩

/-- A run from accepted bytes under any faults: each call stops as `FailStop` says, and the accepted bytes stay. -/
structure StopsAfterFault (J : Journal ω ε ρ) (first : Bytes) (calls : List (Call ι ω)) : Prop where
  stops : ∀ past c later, calls = past ++ c :: later → FailStop J (J.run (.start first) past) c
  kept : Kept J first (J.run (.start first) calls).raw

theorem stopsAfterFault (J : Journal ω ε ρ) {first : Bytes} (h : J.Accepts first) (calls : List (Call ι ω)) :
    StopsAfterFault J first calls :=
  ⟨fun _ c _ _ => failStop _ c, run_kept h rfl calls⟩

end Journal
end HarnessConformance.Lib.AppendLog
