import HarnessConformance.Supervisor.Lifecycle

/-! # What a history of calls may hold

The rules a run keeps, said of its calls and their answers alone: which call may be made after
which history. A history is safe when every call in it was permitted by what came before. -/

namespace HarnessConformance.Supervisor
open Lib Lib.Outcome Lib.Lines
open LiveSession (State expectedRegressions validateReceipt)
set_option autoImplicit false

abbrev Entry := Event fun c => Py (Value c)
abbrev Log := History fun c => Py (Value c)

/-! ## Kinds of calls -/

inductive Kind where
  | reading
  | reserve
  | running
  | terminal
  | establish
  | peer
  | request
  | execute
  | interrupt
  | cleanup
  deriving DecidableEq

def Call.kind : Call → Kind
  | clock => .reading
  | monotonic => .reading
  | reserveNonce _ _ => .reserve
  | running _ _ => .running
  | terminal _ _ _ _ => .terminal
  | establish _ _ _ => .establish
  | checkPeer => .peer
  | request _ => .request
  | execute _ _ => .execute
  | interrupt => .interrupt
  | cleanup => .cleanup

/-- A call of this kind was made, whatever came of it. -/
def Made (k : Kind) (h : Log) : Prop := ∃ e ∈ h, e.call.kind = k

theorem made_snoc {k : Kind} {h : Log} {e : Entry} : Made k (h ++ [e]) ↔ Made k h ∨ e.call.kind = k := by
  simp [Made, or_and_right, exists_or]

theorem not_made_snoc {k : Kind} {h : Log} {e : Entry} (hh : ¬ Made k h) (he : e.call.kind ≠ k) : ¬ Made k (h ++ [e]) := by
  rw [made_snoc]
  exact not_or.mpr ⟨hh, he⟩

theorem Made.append {k : Kind} {h t : Log} (hmade : Made k h) : Made k (h ++ t) := by
  obtain ⟨e, he, hk⟩ := hmade
  exact ⟨e, List.mem_append_left _ he, hk⟩

/-! ## Readings -/

/-- The value of a number that a reading can be. -/
def Number.value? : Number → Option ℚ
  | int n => if double |(n : ℚ)| = ⊤ then none else some n
  | float q => some q
  | other => none

theorem requireMonotonic_eq_ok {reason : String} {floor : Option ℚ} {x : Number} {q : ℚ} :
    requireMonotonic reason floor x = .ok q ↔ x.value? = some q ∧ ∀ r ∈ floor, r ≤ q := by
  cases x with
  | int n =>
    by_cases hover : double |(n : ℚ)| = ⊤
    · simp [requireMonotonic, Number.value?, hover]
    · simp only [requireMonotonic, Number.value?, if_neg hover, bind_eq_ok, require_eq_ok, pure_eq_ok, exists_const,
        Option.some.injEq]
      constructor
      · rintro ⟨hfloor, rfl⟩
        exact ⟨rfl, hfloor⟩
      · rintro ⟨rfl, hfloor⟩
        exact ⟨hfloor, rfl⟩
  | float p =>
    simp only [requireMonotonic, Number.value?, bind_eq_ok, require_eq_ok, pure_eq_ok, exists_const, Option.some.injEq]
    constructor
    · rintro ⟨hfloor, rfl⟩
      exact ⟨rfl, hfloor⟩
    · rintro ⟨rfl, hfloor⟩
      exact ⟨hfloor, rfl⟩
  | other => simp [requireMonotonic, Number.value?]

/-- The clock answer that waits for its monotonic one, and the readings accepted so far: a reading
is a usable clock answer directly followed by a usable monotonic one, and it is accepted when
neither falls behind the reading accepted last. -/
structure Meter where
  pending : Option TimeText
  accepted : List (Instant × ℚ)

def Meter.step (m : Meter) (e : Entry) : Meter :=
  match e with
  | ⟨.clock, .ok value⟩ => ⟨(requireTime value "now").toOption, m.accepted⟩
  | ⟨.monotonic, .ok x⟩ =>
    match m.pending, x.value? with
    | some t, some q =>
      ⟨none, if ∀ r ∈ m.accepted.getLast?, r.1 ≤ t.instant ∧ r.2 ≤ q then m.accepted ++ [(t.instant, q)] else m.accepted⟩
    | _, _ => ⟨none, m.accepted⟩
  | _ => ⟨none, m.accepted⟩

def meter (h : Log) : Meter := h.foldl Meter.step ⟨none, []⟩

/-- The readings accepted in a history. -/
def accepted (h : Log) : List (Instant × ℚ) := (meter h).accepted

theorem meter_snoc (h : Log) (e : Entry) : meter (h ++ [e]) = (meter h).step e := by
  rw [meter, List.foldl_append]
  rfl

theorem accepted_snoc {h : Log} {e : Entry} (he : e.call ≠ .monotonic) : accepted (h ++ [e]) = accepted h := by
  rw [accepted, meter_snoc, accepted]
  obtain ⟨c, answer⟩ := e
  cases c with
  | monotonic => exact absurd rfl he
  | clock => cases answer <;> rfl
  | _ => rfl

theorem accepted_error {h : Log} {e : PyError} : accepted (h ++ [⟨.monotonic, .error e⟩]) = accepted h := by
  rw [accepted, meter_snoc]
  rfl

/-- What a clock answer and a monotonic one add to the accepted readings. -/
theorem accepted_reading {h : Log} {value : Json} {t : TimeText} {x : Number} (ht : requireTime value "now" = .ok t) :
    accepted (h ++ [⟨.clock, .ok value⟩] ++ [⟨.monotonic, .ok x⟩]) = match x.value? with
      | some q => if ∀ r ∈ (accepted h).getLast?, r.1 ≤ t.instant ∧ r.2 ≤ q then accepted h ++ [(t.instant, q)] else accepted h
      | none => accepted h := by
  have hclock : (meter h).step ⟨.clock, .ok value⟩ = ⟨some t, accepted h⟩ := by
    rw [Meter.step, ht]
    rfl
  rw [accepted, meter_snoc, meter_snoc, hclock, Meter.step]
  cases x.value? <;> rfl

/-- No reading falls behind an earlier one. -/
theorem accepted_sorted (h : Log) : (accepted h).Pairwise fun r s => r.1 ≤ s.1 ∧ r.2 ≤ s.2 := by
  have htrans : IsTrans (Instant × ℚ) fun r s => r.1 ≤ s.1 ∧ r.2 ≤ s.2 :=
    ⟨fun _ _ _ h h' => ⟨h.1.trans h'.1, h.2.trans h'.2⟩⟩
  suffices hchain : (accepted h).IsChain fun r s => r.1 ≤ s.1 ∧ r.2 ≤ s.2 from hchain.pairwise
  induction h using List.reverseRecOn with
  | nil => exact .nil
  | append_singleton h e ih =>
    rw [accepted, meter_snoc]
    unfold Meter.step
    split
    · exact ih
    · split
      · dsimp only
        split
        · rename_i hlast
          refine List.isChain_append.mpr ⟨ih, .singleton _, fun r hr s hs => ?_⟩
          obtain rfl : (_, _) = s := Option.some.inj hs
          exact hlast r hr
        · exact ih
      · exact ih
    · exact ih

theorem accepted_le {h : Log} {r last : Instant × ℚ} (hlast : (accepted h).getLast? = some last) (hr : r ∈ accepted h) :
    r.1 ≤ last.1 ∧ r.2 ≤ last.2 := by
  obtain ⟨rs, hrs⟩ := List.getLast?_eq_some_iff.mp hlast
  have hsorted := accepted_sorted h
  rw [hrs, List.pairwise_append] at hsorted
  rw [hrs, List.mem_append, List.mem_singleton] at hr
  rcases hr with hr | rfl
  · exact hsorted.2.2 r hr last (List.mem_singleton_self _)
  · exact ⟨le_rfl, le_rfl⟩

/-! ## Permitted calls -/

/-- The handle is out and nothing was cleaned up. -/
def Open (h : Log) : Prop := (∃ b t, (⟨.running b t, .ok ()⟩ : Entry) ∈ h) ∧ ¬ Made .cleanup h

/-- The reservation of a binding went through no later than at an instant. -/
def ReservedBy (h : Log) (b : SessionBinding) (instant : Instant) : Prop :=
  ∃ t, (⟨.reserveNonce b t, .ok ()⟩ : Entry) ∈ h ∧ t.instant ≤ instant

variable [Runtime]

/-- A case was requested, executed and checked, and its receipt accepted with status PASS. -/
def Passed (b : SessionBinding) (plan : Json) (c : Case) (h : Log) : Prop :=
  ∃ request raw deadline t x expected receipt,
    [⟨.request c, .ok request⟩, ⟨.execute request deadline, .ok raw⟩, ⟨.clock, .ok (.str (Text.text t))⟩, ⟨.monotonic, .ok x⟩,
      ⟨.checkPeer, .ok ()⟩] <:+: h ∧ expectedRegressions plan c = .ok expected ∧
    validateReceipt raw (.data (sessionOf b .running).toJson) (.data b.toJson) request (.data expected)
      (.str (t : TimeText).text) = .ok receipt ∧ receipt.get? "status" = some (.str "PASS")

theorem Passed.append {b : SessionBinding} {plan : Json} {c : Case} {h t : Log} (hpassed : Passed b plan c h) :
    Passed b plan c (h ++ t) := by
  obtain ⟨request, raw, deadline, u, x, expected, receipt, hinfix, hrest⟩ := hpassed
  exact ⟨request, raw, deadline, u, x, expected, receipt, hinfix.trans (List.prefix_append h t).isInfix, hrest⟩

/-- What a terminal record needs of the history it ends: it stands directly behind a cleanup that
returned and the two readings of its own, which fall behind no accepted reading; the record says
EXPIRED exactly from the end of the window on, and COMPLETED only inside the window and before the
deadline, with every case passed. -/
structure MayEnd (h : Log) (b : SessionBinding) (ending : Ending) (t : TimeText) : Prop where
  once : ¬ Made .terminal h
  reserved : ReservedBy h b t.instant
  ran : ∀ c u, (⟨.running c u, .ok ()⟩ : Entry) ∈ h → u.instant ≤ t.instant
  expired : ending = .expired ↔ b.notAfter.instant ≤ t.instant
  readings : ∃ earlier x m,
    h = earlier ++ [⟨.clock, .ok (.str t.text)⟩] ++ [⟨.monotonic, .ok x⟩] ++ [⟨.cleanup, .ok ()⟩] ∧ Number.value? x = some m ∧
      (∀ r ∈ accepted earlier, r.1 ≤ t.instant ∧ r.2 ≤ m) ∧
      (ending = .completed → (∃ u, (⟨.running b u, .ok ()⟩ : Entry) ∈ earlier) ∧ ∃ plan deadline,
        (⟨.establish b plan deadline, .ok ()⟩ : Entry) ∈ earlier ∧ m < deadline ∧ t.instant < b.notAfter.instant ∧
        ∀ c, Passed b plan c earlier)

/-- Whether a call may be made after a history. -/
def Permitted (h : Log) : Call → Prop
  | .reserveNonce b t => ¬ Made .reserve h ∧ ¬ Made .running h ∧ ¬ Made .terminal h ∧
      b.notBefore.instant ≤ t.instant ∧ t.instant < b.notAfter.instant
  | .establish b _ _ => ∃ instant, ReservedBy h b instant
  | .running b t => ¬ Made .running h ∧ ¬ Made .terminal h ∧ ReservedBy h b t.instant ∧ t.instant < b.notAfter.instant
  | .request c => Open h ∧ ∀ answer, (⟨.request c, answer⟩ : Entry) ∉ h
  | .execute request _ => Open h ∧ ∃ c, h.getLast? = some ⟨.request c, .ok request⟩
  | .terminal b ending t _ => MayEnd h b ending t
  | .cleanup => ¬ Made .cleanup h
  | _ => True

/-- Every call was permitted when it was made. -/
def Safe (h : Log) : Prop := ∀ before e after, h = before ++ e :: after → Permitted before e.call

theorem safe_nil : Safe [] := by
  intro before e after h
  cases before <;> cases h

theorem safe_snoc {h : Log} {e : Entry} : Safe (h ++ [e]) ↔ Safe h ∧ Permitted h e.call :=
  forall_split_snoc (P := fun before e => Permitted before (Event.call e))

end HarnessConformance.Supervisor
