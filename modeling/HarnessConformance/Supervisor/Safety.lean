import HarnessConformance.Supervisor.History

/-! # Safety of the lifecycle

What is known while a run is in progress, what each operation makes of it, and from that what holds
of whole runs: the history is safe, and a handle counts from the opening that returned it until the
run ends. -/

namespace HarnessConformance.Supervisor
open Lib Lib.Outcome Lib.Lines Lib.Action
open LiveSession (State expectedRegressions validateReceipt validateReceipt_eq_ok)
set_option autoImplicit false

variable [Runtime]

/-! ## A run in progress -/

/-- What is known of a record in progress. -/
structure Watch (a : Active) (h : Log) : Prop where
  safe : Safe h
  reserved : ReservedBy h a.binding a.lastWall
  unended : ¬ Made .terminal h
  uncleaned : ¬ Made .cleanup h
  ran : ∀ b t, (⟨.running b t, .ok ()⟩ : Entry) ∈ h → t.instant ≤ a.lastWall
  reading : (accepted h).getLast? = some (a.lastWall, a.lastMonotonic)

/-- Only the binding and the last reading count. -/
theorem Watch.congr {a a' : Active} {h : Log} (hwatch : Watch a h) (hbinding : a'.binding = a.binding)
    (hwall : a'.lastWall = a.lastWall) (hmonotonic : a'.lastMonotonic = a.lastMonotonic) : Watch a' h := by
  obtain ⟨hsafe, hreserved, hunended, huncleaned, hran, hreading⟩ := hwatch
  rw [← hbinding, ← hwall] at hreserved
  rw [← hwall] at hran
  rw [← hwall, ← hmonotonic] at hreading
  exact ⟨hsafe, hreserved, hunended, huncleaned, hran, hreading⟩

/-- A call that neither ends the run nor reads the time. -/
theorem Watch.snoc {a : Active} {h : Log} {e : Entry} (hwatch : Watch a h) (hpermitted : Permitted h e.call)
    (hkind : e.call.kind ≠ .terminal ∧ e.call.kind ≠ .cleanup)
    (hran : ∀ b t, e = ⟨.running b t, .ok ()⟩ → t.instant ≤ a.lastWall) (hreading : accepted (h ++ [e]) = accepted h) :
    Watch a (h ++ [e]) := by
  obtain ⟨t, ht, hle⟩ := hwatch.reserved
  refine ⟨safe_snoc.mpr ⟨hwatch.safe, hpermitted⟩, ⟨t, List.mem_append_left _ ht, hle⟩, not_made_snoc hwatch.unended hkind.1,
    not_made_snoc hwatch.uncleaned hkind.2, fun b u hu => ?_, hreading ▸ hwatch.reading⟩
  rcases List.mem_append.mp hu with hu | hu
  · exact hwatch.ran b u hu
  · exact hran b u (List.mem_singleton.mp hu).symm

/-- A call of a kind that any run in progress may make. -/
theorem Watch.quiet {a : Active} {h : Log} {c : Call} {answer : Py (Value c)} (hwatch : Watch a h)
    (hc : c = .clock ∨ c = .checkPeer ∨ c = .interrupt) : Watch a (h ++ [⟨c, answer⟩]) := by
  rcases hc with rfl | rfl | rfl <;>
    exact hwatch.snoc trivial (by simp [Call.kind]) nofun (accepted_snoc (by simp))

/-- A monotonic call whose answer is not accepted. -/
theorem Watch.unread {a : Active} {h : Log} {answer : Py Number} (hwatch : Watch a h)
    (hreading : accepted (h ++ [⟨.monotonic, answer⟩]) = accepted h) : Watch a (h ++ [⟨.monotonic, answer⟩]) :=
  hwatch.snoc trivial (by simp [Call.kind]) nofun hreading

/-- A reading that falls behind none. -/
theorem Watch.read {a : Active} {h : Log} {value : Json} {t : TimeText} {x : Number} {m : ℚ} (hwatch : Watch a h)
    (ht : requireTime value "now" = .ok t) (hx : x.value? = some m) (hwall : a.lastWall ≤ t.instant)
    (hmonotonic : a.lastMonotonic ≤ m) :
    Watch { a with lastWall := t.instant, lastMonotonic := m } (h ++ [⟨.clock, .ok value⟩] ++ [⟨.monotonic, .ok x⟩]) := by
  have hkeeps : ∀ r ∈ (accepted h).getLast?, r.1 ≤ t.instant ∧ r.2 ≤ m := by
    rw [hwatch.reading]
    rintro r hr
    obtain rfl := Option.some.inj hr
    exact ⟨hwall, hmonotonic⟩
  have hreading := accepted_reading (h := h) (x := x) ht
  simp only [hx, if_pos hkeeps] at hreading
  obtain ⟨u, hu, hle⟩ := hwatch.reserved
  refine ⟨safe_snoc.mpr ⟨safe_snoc.mpr ⟨hwatch.safe, trivial⟩, trivial⟩,
    ⟨u, List.mem_append_left _ (List.mem_append_left _ hu), hle.trans hwall⟩,
    not_made_snoc (not_made_snoc hwatch.unended (by simp [Call.kind])) (by simp [Call.kind]),
    not_made_snoc (not_made_snoc hwatch.uncleaned (by simp [Call.kind])) (by simp [Call.kind]), fun b v hv => ?_, ?_⟩
  · have hold : (⟨.running b v, .ok ()⟩ : Entry) ∈ h := by simpa using hv
    exact (hwatch.ran b v hold).trans hwall
  · rw [hreading, List.getLast?_concat]

/-- The run is over, or never began after its reservation was tried. -/
structure Spent (s : Lifecycle) (h : Log) : Prop where
  active : s.active = none
  opened : s.opened = true
  safe : Safe h

/-- The run is in progress. -/
structure Held (s : Lifecycle) (h : Log) : Prop where
  opened : s.opened = true
  active : ∃ a, s.active = some a ∧ Watch a h

/-! ## Readings -/

omit [Runtime] in
theorem ensures_current {α : Type} {s : Lifecycle} {h : Log} {a : Active} (hactive : s.active = some a)
    {f : Active → Life α} {Q : Py α → Lifecycle → Log → Prop} (hf : (f a).Ensures s h Q) : (current >>= f).Ensures s h Q := by
  refine ensures_bind.mpr (ensures_get_bind ?_)
  rw [hactive]
  exact ensures_pure.mpr hf

/-- `_now` reads behind no accepted reading; what it raises leaves the run in progress. -/
theorem ensures_now {s : Lifecycle} {h : Log} {a : Active} (hopened : s.opened = true) (hactive : s.active = some a)
    (hwatch : Watch a h) {Q : Py TimeText → Lifecycle → Log → Prop}
    (herror : ∀ e s' h', Held s' h' → Q (.error e) s' h')
    (hok : ∀ (t : TimeText) x (m : ℚ), a.lastWall ≤ t.instant → t.instant < a.binding.notAfter.instant → m < a.deadline →
      Watch { a with lastWall := t.instant, lastMonotonic := m }
        (h ++ [⟨.clock, .ok (.str t.text)⟩] ++ [⟨.monotonic, .ok x⟩]) →
      Q (.ok t) { s with active := some { a with lastWall := t.instant, lastMonotonic := m } }
        (h ++ [⟨.clock, .ok (.str t.text)⟩] ++ [⟨.monotonic, .ok x⟩])) : now.Ensures s h Q := by
  unfold now
  refine ensures_current hactive (ensures_call_bind (fun e => ?_) fun value => ?_)
  · exact herror e _ _ ⟨hopened, a, hactive, hwatch.quiet (.inl rfl)⟩
  have hclock : Watch a (h ++ [⟨.clock, .ok value⟩]) := hwatch.quiet (.inl rfl)
  refine ensures_lift_bind (fun e _ => herror e _ _ ⟨hopened, a, hactive, hclock⟩) fun t ht => ?_
  obtain rfl := requireTime_eq_ok.mp ht
  refine ensures_call_bind (fun e => ?_) fun x => ?_
  · exact herror e _ _ ⟨hopened, a, hactive, hclock.unread accepted_error⟩
  have hreading := accepted_reading (h := h) (x := x) ht
  refine ensures_lift_bind (fun e he => ?_) fun m hm => ?_
  · refine herror e _ _ ⟨hopened, a, hactive, hclock.unread ?_⟩
    rw [hreading, accepted_snoc (by simp)]
    cases hx : x.value? with
    | none => rfl
    | some q =>
      refine if_neg fun hkeeps => ?_
      have hfloor : ∀ r ∈ some a.lastMonotonic, r ≤ q := by
        rintro r ⟨⟩
        exact (hkeeps _ hwatch.reading).2
      rw [requireMonotonic_eq_ok.mpr ⟨hx, hfloor⟩] at he
      cases he
  obtain ⟨hx, hfloor⟩ := requireMonotonic_eq_ok.mp hm
  refine ensures_lift_bind (fun e he => ?_) fun _ hwall => ?_
  · refine herror e _ _ ⟨hopened, a, hactive, hclock.unread ?_⟩
    rw [hreading, accepted_snoc (by simp), hx]
    refine if_neg fun hkeeps => ?_
    rw [(require_eq_ok (u := ())).mpr (hkeeps _ hwatch.reading).1] at he
    cases he
  have hread := hwatch.read ht hx (require_eq_ok.mp hwall) (hfloor _ rfl)
  refine ensures_modify_bind ?_
  rw [hactive]
  refine ensures_lift_bind (fun e _ => herror e _ _ ⟨hopened, _, rfl, hread⟩) fun _ hwindow => ?_
  obtain ⟨hend, hdeadline⟩ := require_eq_ok.mp hwindow
  exact ensures_pure.mpr (hok t x m (require_eq_ok.mp hwall) hend hdeadline hread)

theorem ensures_finalReading {s : Lifecycle} {h : Log} {a : Active} {ending : Ending} (hsafe : Safe h)
    (hcleanup : ¬ Made .cleanup h) : (finalReading a ending).Ensures s h fun r s' h' =>
      s' = s ∧ Safe h' ∧ ¬ Made .cleanup h' ∧ ∀ t ending', r = .ok (t, ending') → ∃ x m,
        h' = h ++ [⟨.clock, .ok (.str t.text)⟩] ++ [⟨.monotonic, .ok x⟩] ∧ Number.value? x = some m ∧
        a.lastWall ≤ t.instant ∧ a.lastMonotonic ≤ m ∧
        ending' = if a.binding.notAfter.instant ≤ t.instant then .expired else if a.deadline ≤ m then .failed else ending := by
  have hclock (answer : Py Json) : Safe (h ++ [⟨.clock, answer⟩]) ∧ ¬ Made .cleanup (h ++ [⟨.clock, answer⟩]) :=
    ⟨safe_snoc.mpr ⟨hsafe, trivial⟩, not_made_snoc hcleanup (by simp [Call.kind])⟩
  have hboth (answer : Py Json) (reading : Py Number) : Safe (h ++ [⟨.clock, answer⟩] ++ [⟨.monotonic, reading⟩]) ∧
      ¬ Made .cleanup (h ++ [⟨.clock, answer⟩] ++ [⟨.monotonic, reading⟩]) :=
    ⟨safe_snoc.mpr ⟨(hclock answer).1, trivial⟩, not_made_snoc (hclock answer).2 (by simp [Call.kind])⟩
  unfold finalReading
  refine ensures_call_bind (fun e => ⟨rfl, (hclock _).1, (hclock _).2, nofun⟩) fun value => ?_
  refine ensures_lift_bind (fun e _ => ⟨rfl, (hclock _).1, (hclock _).2, nofun⟩) fun t ht => ?_
  obtain rfl := requireTime_eq_ok.mp ht
  refine ensures_call_bind (fun e => ⟨rfl, (hboth _ _).1, (hboth _ _).2, nofun⟩) fun x => ?_
  refine ensures_lift_bind (fun e _ => ⟨rfl, (hboth _ _).1, (hboth _ _).2, nofun⟩) fun _ hwall => ?_
  refine ensures_lift_bind (fun e _ => ⟨rfl, (hboth _ _).1, (hboth _ _).2, nofun⟩) fun m hm => ?_
  obtain ⟨hx, hfloor⟩ := requireMonotonic_eq_ok.mp hm
  refine ensures_pure.mpr ⟨rfl, (hboth _ _).1, (hboth _ _).2, fun u ending' heq => ?_⟩
  obtain ⟨rfl, rfl⟩ := Prod.mk.inj (Except.ok.inj heq)
  exact ⟨x, m, rfl, hx, require_eq_ok.mp hwall, hfloor _ rfl, rfl⟩

/-! ## Termination -/

/-- Whatever happens while a run ends, it is over, and its record was permitted. -/
theorem ensures_terminate {s : Lifecycle} {h : Log} {a : Active} {ending : Ending} {original : Option PyError}
    (hopened : s.opened = true) (hactive : s.active = some a) (hwatch : Watch a h) (hending : ending ≠ .expired)
    (hcompleted : ending = .completed → (∃ u, (⟨.running a.binding u, .ok ()⟩ : Entry) ∈ h) ∧
      (⟨.establish a.binding a.plan a.deadline, .ok ()⟩ : Entry) ∈ h ∧ ∀ c, Passed a.binding a.plan c h) :
    (terminate ending original).Ensures s h fun _ s' h' => Spent s' h' := by
  unfold terminate
  refine ensures_get_bind ?_
  rw [hactive]
  refine ensures_modify_bind (ensures_bind.mpr (ensures_outcome.mpr ?_))
  refine (ensures_finalReading hwatch.safe hwatch.uncleaned).mono fun r s' h' ⟨hs', hsafe, hcleanup, hr⟩ => ?_
  subst hs'
  refine ensures_bind.mpr (ensures_outcome.mpr (ensures_call.mpr fun cleaned => ?_))
  have hcleaned : Safe (h' ++ [⟨.cleanup, cleaned⟩]) := safe_snoc.mpr ⟨hsafe, hcleanup⟩
  have hspent : Spent { s with active := none } (h' ++ [⟨.cleanup, cleaned⟩]) := ⟨rfl, hopened, hcleaned⟩
  cases r with
  | error e => exact ensures_lift.mpr hspent
  | ok reading =>
    obtain ⟨t, ending'⟩ := reading
    cases cleaned with
    | error e => exact ensures_lift.mpr hspent
    | ok u =>
      obtain ⟨x, m, rfl, hx, hwall, hmonotonic, hending'⟩ := hr t ending' rfl
      refine ensures_lift_bind (fun e _ => hspent) fun digest _ => ensures_call.mpr fun answer => ⟨rfl, hopened, ?_⟩
      refine safe_snoc.mpr ⟨hcleaned, ?_⟩
      obtain ⟨v, hv, hle⟩ := hwatch.reserved
      have hmem {e : Entry} (he : e ∈ h) : e ∈ h ++ [⟨.clock, .ok (.str t.text)⟩] ++ [⟨.monotonic, .ok x⟩] ++ [⟨.cleanup, .ok ()⟩] := by
        simp [he]
      refine ⟨?_, ⟨v, hmem hv, hle.trans hwall⟩, fun c w hw => ?_, ?_, h, x, m, rfl, hx, fun r hr => ?_, fun hcomplete => ?_⟩
      · refine not_made_snoc (not_made_snoc (not_made_snoc hwatch.unended ?_) ?_) ?_ <;> simp [Call.kind]
      · have hold : (⟨.running c w, .ok ()⟩ : Entry) ∈ h := by simpa using hw
        exact (hwatch.ran c w hold).trans hwall
      · rw [hending']
        split
        · simpa using ‹_›
        · split <;> simp [*]
      · obtain ⟨hr1, hr2⟩ := accepted_le hwatch.reading hr
        exact ⟨hr1.trans hwall, hr2.trans hmonotonic⟩
      · rw [hcomplete] at hending'
        split at hending'
        · cases hending'
        · rename_i hend
          split at hending'
          · cases hending'
          · rename_i hdeadline
            obtain ⟨hrunning, hestablished, hpassed⟩ := hcompleted hending'.symm
            exact ⟨hrunning, a.plan, a.deadline, hestablished, not_le.mp hdeadline, not_le.mp hend, hpassed⟩

/-- The exceptions of a body end the run it left in progress. -/
theorem ensures_failing {α : Type} {body : Life α} {s : Lifecycle} {h : Log} {Q : Py α → Lifecycle → Log → Prop}
    (hspent : ∀ e s' h', Spent s' h' → Q (.error e) s' h')
    (hbody : body.Ensures s h fun
      | .ok a, s', h' => Q (.ok a) s' h'
      | .error _, s', h' => Held s' h' ∨ Spent s' h') : (failing body).Ensures s h Q := by
  refine ensures_attempt.mpr (hbody.mono fun outcome s' h' hout => ?_)
  cases outcome with
  | ok a => exact hout
  | error e =>
    refine ensures_get_bind ?_
    rcases hout with ⟨hopened, a, hactive, hwatch⟩ | hspent'
    · rw [hactive]
      refine ensures_bind.mpr ((ensures_terminate hopened hactive hwatch (by decide) (by simp)).mono fun r s'' h'' hs => ?_)
      cases r with
      | ok _ => exact ensures_lift.mpr (hspent e _ _ hs)
      | error e' => exact hspent e' _ _ hs
    · rw [hspent'.active]
      exact ensures_lift.mpr (hspent e _ _ hspent')

/-! ## Opening -/

/-- Nothing was tried yet: no call but readings, and none of them accepted. -/
structure Fresh (s : Lifecycle) (h : Log) : Prop where
  active : s.active = none
  opened : s.opened = false
  safe : Safe h
  accepted : accepted h = []
  quiet : ∀ e ∈ h, e.call.kind = .reading

theorem Fresh.not_made {s : Lifecycle} {h : Log} (hfresh : Fresh s h) {k : Kind} (hk : k ≠ .reading) : ¬ Made k h := by
  rintro ⟨e, he, rfl⟩
  exact hk (hfresh.quiet e he)

theorem Fresh.snoc {s : Lifecycle} {h : Log} {e : Entry} (hfresh : Fresh s h) (hpermitted : Permitted h e.call)
    (hkind : e.call.kind = .reading) (haccepted : Supervisor.accepted (h ++ [e]) = Supervisor.accepted h) :
    Fresh s (h ++ [e]) := by
  refine ⟨hfresh.active, hfresh.opened, safe_snoc.mpr ⟨hfresh.safe, hpermitted⟩, haccepted.trans hfresh.accepted, ?_⟩
  exact List.forall_mem_append.mpr ⟨hfresh.quiet, List.forall_mem_singleton.mpr hkind⟩

/-- What is known between the operations of a run in progress. -/
structure Live (a : Active) (h : Log) : Prop where
  watch : Watch a h
  running : ∃ t, (⟨.running a.binding t, .ok ()⟩ : Entry) ∈ h
  established : (⟨.establish a.binding a.plan a.deadline, .ok ()⟩ : Entry) ∈ h
  state : a.state = .running
  requested : ∀ c answer, (⟨.request c, answer⟩ : Entry) ∈ h → c ∈ a.done.map Prod.fst
  nodup : (a.done.map Prod.fst).Nodup
  passed : ∀ c ∈ a.done.map Prod.fst, Passed a.binding a.plan c h

theorem Live.open {a : Active} {h : Log} (hlive : Live a h) : Open h := by
  obtain ⟨t, ht⟩ := hlive.running
  exact ⟨⟨a.binding, t, ht⟩, hlive.watch.uncleaned⟩

/-- A session is in progress and a handle to it is out. -/
structure Ongoing (n : ℕ) (s : Lifecycle) (h : Log) : Prop where
  opened : s.opened = true
  active : ∃ a, s.active = some a ∧ a.handle = some n ∧ Live a h

theorem ensures_openSession_busy {s : Lifecycle} {h : Log} (hopened : s.opened = true) (binding : Input) (plan : Json) :
    (openSession binding plan).Ensures s h fun r s' h' => (∃ e, r = .error e) ∧ s' = s ∧ h' = h := by
  unfold openSession
  refine ensures_lift_bind (fun e _ => ⟨⟨e, rfl⟩, rfl, rfl⟩) fun b _ => ensures_get_bind ?_
  refine ensures_lift_bind (fun e _ => ⟨⟨e, rfl⟩, rfl, rfl⟩) fun _ hbusy => ?_
  have hfree := (require_eq_ok.mp hbusy).2
  rw [hopened] at hfree
  cases hfree

/-- From the reservation on, the one handle is out or the body's exception finds the run in progress or spent. -/
theorem ensures_startSession {s : Lifecycle} {h : Log} {a : Active} {t : TimeText} (hactive : s.active = none)
    (hopened : s.opened = true) (hsafe : Safe h) (hquiet : ∀ k ≠ .reading, ¬ Made k h)
    (haccepted : accepted h = [(t.instant, a.lastMonotonic)]) (hwall : a.lastWall = t.instant) (hdone : a.done = [])
    (hwindow : a.binding.notBefore.instant ≤ t.instant ∧ t.instant < a.binding.notAfter.instant) :
    (startSession a t).Ensures s h fun
      | .ok n, s', h' => Ongoing n s' h'
      | .error _, s', h' => Held s' h' ∨ Spent s' h' := by
  have hreserve (answer : Py Unit) : Safe (h ++ [⟨.reserveNonce a.binding t, answer⟩]) :=
    safe_snoc.mpr ⟨hsafe, hquiet _ (by decide), hquiet _ (by decide), hquiet _ (by decide), hwindow⟩
  have hreserved : Watch a (h ++ [⟨.reserveNonce a.binding t, .ok ()⟩]) := by
    refine ⟨hreserve _, ⟨t, by simp, hwall.ge⟩, not_made_snoc (hquiet _ (by decide)) (by simp [Call.kind]),
      not_made_snoc (hquiet _ (by decide)) (by simp [Call.kind]), fun c u hu => ?_, ?_⟩
    · have hmade : Made .running (h ++ [⟨.reserveNonce a.binding t, .ok ()⟩]) := ⟨_, hu, rfl⟩
      exact absurd hmade (not_made_snoc (hquiet _ (by decide)) (by simp [Call.kind]))
    · rw [accepted_snoc (by simp), haccepted, hwall]
      rfl
  unfold startSession
  refine ensures_call_bind (fun e => .inr ⟨hactive, hopened, hreserve _⟩) fun _ => ensures_modify_bind ?_
  refine ensures_bind.mpr (ensures_now (s := { s with active := some a }) hopened rfl hreserved (fun e s' h' hheld => .inl hheld)
    fun t₁ x₁ m₁ _ _ _ hwatch₁ => ?_)
  have hestablish (answer : Py Unit) := hwatch₁.snoc (e := ⟨.establish a.binding a.plan a.deadline, answer⟩)
    ⟨_, hwatch₁.reserved⟩ (by simp [Call.kind]) nofun (accepted_snoc (by simp))
  refine ensures_call_bind (fun e => .inl ⟨hopened, _, rfl, hestablish _⟩) fun _ => ?_
  have hpeer (answer : Py Unit) : Watch _ (_ ++ [⟨.checkPeer, answer⟩]) := (hestablish (.ok ())).quiet (.inr (.inl rfl))
  refine ensures_call_bind (fun e => .inl ⟨hopened, _, rfl, hpeer _⟩) fun _ => ?_
  refine ensures_bind.mpr (ensures_now (s := { s with active := some _ }) hopened rfl (hpeer _) (fun e s' h' hheld => .inl hheld)
    fun t₂ x₂ m₂ _ hend₂ _ hwatch₂ => ?_)
  have hunrun : ¬ Made .running (h ++ [⟨.reserveNonce a.binding t, .ok ()⟩] ++ [⟨.clock, .ok (.str t₁.text)⟩] ++
      [⟨.monotonic, .ok x₁⟩] ++ [⟨.establish a.binding a.plan a.deadline, .ok ()⟩] ++ [⟨.checkPeer, .ok ()⟩] ++
      [⟨.clock, .ok (.str t₂.text)⟩] ++ [⟨.monotonic, .ok x₂⟩]) := by
    simp only [made_snoc, Call.kind, reduceCtorEq, or_false]
    exact hquiet _ (by decide)
  have hrunning (answer : Py Unit) := hwatch₂.snoc (e := ⟨.running a.binding t₂, answer⟩)
    ⟨hunrun, hwatch₂.unended, hwatch₂.reserved, hend₂⟩ (by simp [Call.kind]) (by rintro c u ⟨rfl, rfl⟩; exact le_rfl)
    (accepted_snoc (by simp))
  refine ensures_call_bind (fun e => .inl ⟨hopened, _, rfl, hrunning _⟩) fun _ => ?_
  refine ensures_modify_bind (ensures_get_bind (ensures_modify_bind (ensures_pure.mpr ⟨hopened, _, rfl, rfl, ?_⟩)))
  have hwatch := hrunning (.ok ())
  have hrequest : ¬ Made .request (h ++ [⟨.reserveNonce a.binding t, .ok ()⟩] ++ [⟨.clock, .ok (.str t₁.text)⟩] ++
      [⟨.monotonic, .ok x₁⟩] ++ [⟨.establish a.binding a.plan a.deadline, .ok ()⟩] ++ [⟨.checkPeer, .ok ()⟩] ++
      [⟨.clock, .ok (.str t₂.text)⟩] ++ [⟨.monotonic, .ok x₂⟩] ++ [⟨.running a.binding t₂, .ok ()⟩]) := by
    simp only [made_snoc, Call.kind, reduceCtorEq, or_false]
    exact hquiet _ (by decide)
  exact ⟨hwatch.congr rfl rfl rfl, ⟨t₂, by simp⟩, by simp, rfl, fun c answer hc => absurd ⟨_, hc, rfl⟩ hrequest, by simp [hdone], by simp [hdone]⟩

/-- An opening is refused before the reservation, or spends the instance, or puts out the one handle. -/
theorem ensures_openSession {s : Lifecycle} {h : Log} (hfresh : Fresh s h) (binding : Input) (plan : Json) :
    (openSession binding plan).Ensures s h fun
      | .ok n, s', h' => Ongoing n s' h'
      | .error _, s', h' => Fresh s' h' ∨ Spent s' h' := by
  unfold openSession
  refine ensures_lift_bind (fun e _ => .inl hfresh) fun b _ => ensures_get_bind ?_
  refine ensures_lift_bind (fun e _ => .inl hfresh) fun _ _ => ?_
  have hclock (answer : Py Json) : Fresh s (h ++ [⟨.clock, answer⟩]) := hfresh.snoc trivial rfl (accepted_snoc (by simp))
  refine ensures_call_bind (fun e => .inl (hclock _)) fun value => ?_
  refine ensures_lift_bind (fun e _ => .inl (hclock _)) fun session hsession => ?_
  refine ensures_lift_bind (fun e _ => .inl (hclock _)) fun architecture _ => ?_
  refine ensures_lift_bind (fun e _ => .inl (hclock _)) fun _ _ => ?_
  refine ensures_lift_bind (fun e _ => .inl (hclock _)) fun t ht => ?_
  obtain rfl := requireTime_eq_ok.mp ht
  refine ensures_call_bind (fun e => .inl ((hclock _).snoc trivial rfl accepted_error)) fun x => ?_
  have hreading := accepted_reading (h := h) (x := x) ht
  refine ensures_lift_bind (fun e he => .inl ((hclock _).snoc trivial rfl ?_)) fun m hm => ?_
  · rw [hreading, accepted_snoc (by simp)]
    cases hx : x.value? with
    | none => rfl
    | some q =>
      rw [requireMonotonic_eq_ok.mpr ⟨hx, by simp⟩] at he
      cases he
  obtain ⟨hx, -⟩ := requireMonotonic_eq_ok.mp hm
  simp only [hx, hfresh.accepted, List.getLast?_nil, Option.mem_def, reduceCtorEq, false_implies, implies_true, if_true,
    List.nil_append] at hreading
  have hwindow : b.notBefore.instant ≤ t.instant ∧ t.instant < b.notAfter.instant := by
    obtain ⟨hread, -, u, hu, hwindow⟩ := Session.validate_eq_ok.mp hsession
    obtain rfl := Text.ext (Json.str.inj hu)
    rw [Session.read_toJson (sessionOf b .reserved) b.validate_toJson] at hread
    rw [← Except.ok.inj hread] at hwindow
    exact hwindow
  -- The first reading is accepted; from here on the instance is spent whatever happens.
  have hsafe : Safe (h ++ [⟨.clock, .ok (.str t.text)⟩] ++ [⟨.monotonic, .ok x⟩]) :=
    safe_snoc.mpr ⟨(hclock _).safe, trivial⟩
  have hquiet : ∀ k ≠ .reading, ¬ Made k (h ++ [⟨.clock, .ok (.str t.text)⟩] ++ [⟨.monotonic, .ok x⟩]) :=
    fun k hk => not_made_snoc (not_made_snoc (hfresh.not_made hk) hk.symm) hk.symm
  refine ensures_modify_bind (ensures_failing (fun e s' h' hspent => .inr hspent) ?_)
  refine Ensures.mono (ensures_startSession hfresh.active rfl hsafe hquiet hreading rfl rfl hwindow) fun r s' h' hr => ?_
  cases r with
  | ok n => exact hr
  | error e => exact hr

/-! ## Executing -/

omit [Runtime] in
/-- All ten cases are done once ten different ones are. -/
theorem mem_of_done {cases : List Case} (hnodup : cases.Nodup) (hlength : cases.length = Case.all.length) (c : Case) :
    c ∈ cases := by
  have hsub := hnodup.subperm fun c _ => Case.mem_all c
  exact (hsub.perm_of_length_le hlength.ge).mem_iff.mpr (Case.mem_all c)

omit [Runtime] in
theorem requireOperation_eq_ok {done : List (Case × Digest)} {caseId : Json} {c : Case} :
    requireOperation done caseId = .ok c ↔ caseId = .str c.name ∧ c ∉ done.map Prod.fst := by
  rw [requireOperation, ← Case.ofJson?_eq_some]
  cases Case.ofJson? caseId with
  | none => simp
  | some d =>
    simp only [bind_eq_ok, require_eq_ok, pure_eq_ok, exists_const, Option.some.injEq]
    exact ⟨fun ⟨hd, heq⟩ => ⟨heq, heq ▸ hd⟩, fun ⟨heq, hd⟩ => ⟨heq ▸ hd, heq⟩⟩

/-- One case: the run goes on with the case passed, or ends; an exception finds it in progress or over. -/
theorem ensures_executeCase {s : Lifecycle} {h : Log} {a : Active} {n : ℕ} (hopened : s.opened = true)
    (hactive : s.active = some a) (hhandle : a.handle = some n) (hlive : Live a h) (caseId architecture : Json) :
    (executeCase a caseId architecture).Ensures s h fun
      | .ok _, s', h' => Ongoing n s' h' ∨ Spent s' h'
      | .error _, s', h' => Held s' h' ∨ Spent s' h' := by
  have hwatch := hlive.watch
  have hheld : Held s h := ⟨hopened, a, hactive, hwatch⟩
  unfold executeCase
  refine ensures_lift_bind (fun e _ => .inl hheld) fun c hc => ?_
  obtain ⟨-, hfresh⟩ := requireOperation_eq_ok.mp hc
  refine ensures_lift_bind (fun e _ => .inl hheld) fun target _ => ?_
  refine ensures_lift_bind (fun e _ => .inl hheld) fun _ _ => ?_
  refine ensures_bind.mpr (ensures_now hopened hactive hwatch (fun e s' h' hheld => .inl hheld)
    fun t₁ x₁ m₁ _ _ _ hwatch₁ => ?_)
  have hpeer₁ (answer : Py Unit) : Watch _ (_ ++ [⟨.checkPeer, answer⟩]) := hwatch₁.quiet (.inr (.inl rfl))
  refine ensures_call_bind (fun e => .inl ⟨hopened, _, rfl, hpeer₁ _⟩) fun _ => ?_
  set h₁ : Log := h ++ [⟨.clock, .ok (.str t₁.text)⟩] ++ [⟨.monotonic, .ok x₁⟩] ++ [⟨.checkPeer, .ok ()⟩] with hh₁
  have hopen₁ : Open h₁ := by
    obtain ⟨u, hu⟩ := hlive.running
    exact ⟨⟨a.binding, u, by simp [hh₁, hu]⟩, (hpeer₁ (.ok ())).uncleaned⟩
  have hunasked : ∀ answer, (⟨.request c, answer⟩ : Entry) ∉ h₁ := by
    intro answer hmem
    exact hfresh (hlive.requested c answer (by simpa [hh₁] using hmem))
  have hrequest (answer : Py Input) := (hpeer₁ (.ok ())).snoc (e := ⟨.request c, answer⟩) ⟨hopen₁, hunasked⟩
    (by simp [Call.kind]) nofun (accepted_snoc (by simp))
  refine ensures_call_bind (fun e => .inl ⟨hopened, _, rfl, hrequest _⟩) fun request => ?_
  have hopen₂ : Open (h₁ ++ [⟨.request c, .ok request⟩]) := by
    obtain ⟨b, u, hu⟩ := hopen₁.1
    exact ⟨⟨b, u, List.mem_append_left _ hu⟩, (hrequest (.ok request)).uncleaned⟩
  have hexecute (answer : Py Input) := (hrequest (.ok request)).snoc (e := ⟨.execute request a.deadline, answer⟩)
    ⟨hopen₂, c, List.getLast?_concat⟩ (by simp [Call.kind]) nofun (accepted_snoc (by simp))
  refine ensures_call_bind (fun e => .inl ⟨hopened, _, rfl, hexecute _⟩) fun raw => ?_
  refine ensures_bind.mpr (ensures_now (s := { s with active := some _ }) hopened rfl (hexecute (.ok raw))
    (fun e s' h' hheld => .inl hheld) fun t₂ x₂ m₂ _ _ _ hwatch₂ => ?_)
  have hpeer₂ (answer : Py Unit) : Watch _ (_ ++ [⟨.checkPeer, answer⟩]) := hwatch₂.quiet (.inr (.inl rfl))
  refine ensures_call_bind (fun e => .inl ⟨hopened, _, rfl, hpeer₂ _⟩) fun _ => ?_
  set h₂ : Log := h₁ ++ [⟨.request c, .ok request⟩] ++ [⟨.execute request a.deadline, .ok raw⟩] ++
    [⟨.clock, .ok (.str t₂.text)⟩] ++ [⟨.monotonic, .ok x₂⟩] ++ [⟨.checkPeer, .ok ()⟩] with hh₂
  have hheld₂ : Held { s with active := some { a with lastWall := t₂.instant, lastMonotonic := m₂ } } h₂ :=
    ⟨hopened, _, rfl, hpeer₂ (.ok ())⟩
  refine ensures_lift_bind (fun e _ => .inl hheld₂) fun expected hexpected => ?_
  refine ensures_lift_bind (fun e _ => .inl hheld₂) fun receipt hreceipt => ?_
  refine ensures_lift_bind (fun e _ => .inl hheld₂) fun digest _ => ensures_modify_bind ?_
  have hwatch₃ : Watch { a with done := a.done ++ [(c, digest)], lastWall := t₂.instant, lastMonotonic := m₂ } h₂ :=
    (hpeer₂ (.ok ())).congr rfl rfl rfl
  refine ensures_lift_bind (fun e _ => .inl ⟨hopened, _, rfl, hwatch₃⟩) fun status hstatus => ?_
  -- The receipt counts for its case once it says PASS.
  have hprefix : h <+: h₂ := by simp [hh₁, hh₂]
  have hpassed (hstatus : receipt.get? "status" = some (.str "PASS")) : Passed a.binding a.plan c h₂ := by
    rw [hlive.state] at hreceipt
    refine ⟨request, raw, a.deadline, t₂, x₂, expected, receipt, ⟨h₁, [], ?_⟩, hexpected, hreceipt, hstatus⟩
    simp [hh₂]
  have hlive₃ (hstatus : receipt.get? "status" = some (.str "PASS")) : Live { a with
      done := a.done ++ [(c, digest)], lastWall := t₂.instant, lastMonotonic := m₂ } h₂ := by
    obtain ⟨u, hu⟩ := hlive.running
    refine ⟨hwatch₃, ⟨u, hprefix.subset hu⟩, hprefix.subset hlive.established, hlive.state, fun c' answer hc' => ?_, ?_,
      fun c' hc' => ?_⟩
    · rw [List.map_append, List.mem_append]
      have hcases : (⟨.request c', answer⟩ : Entry) ∈ h ∨ c' = c := by
        simp only [hh₂, hh₁, List.mem_append, List.mem_singleton, Event.mk.injEq, reduceCtorEq, false_and, or_false,
          Call.request.injEq] at hc'
        exact hc'.imp id And.left
      exact hcases.imp (hlive.requested c' answer) fun heq => by simp [heq]
    · rw [List.map_append, List.nodup_append]
      refine ⟨hlive.nodup, List.nodup_singleton _, ?_⟩
      rintro c' hc' _ hmem rfl
      obtain rfl : c' = c := by simpa using hmem
      exact hfresh hc'
    · rw [List.map_append, List.mem_append, List.map_singleton, List.mem_singleton] at hc'
      rcases hc' with hc' | rfl
      · obtain ⟨rest, hrest⟩ := hprefix
        exact hrest ▸ (hlive.passed c' hc').append
      · exact hpassed hstatus
  have hspent {ending : Ending} (hending : ending ≠ .expired)
      (hcompleted : ending = .completed → Live { a with
        done := a.done ++ [(c, digest)], lastWall := t₂.instant, lastMonotonic := m₂ } h₂ ∧
        (a.done ++ [(c, digest)]).length = Case.all.length) :
      (terminate ending none).Ensures { s with active := some { a with
        done := a.done ++ [(c, digest)], lastWall := t₂.instant, lastMonotonic := m₂ } } h₂ fun _ s' h' => Spent s' h' := by
    refine ensures_terminate hopened rfl hwatch₃ hending fun hcomplete => ?_
    obtain ⟨hlive, hlength⟩ := hcompleted hcomplete
    refine ⟨hlive.running, hlive.established, fun c' => hlive.passed c' (mem_of_done hlive.nodup ?_ c')⟩
    rw [List.length_map]
    exact hlength
  dsimp only
  split
  · refine ensures_bind.mpr ((hspent (by decide) (by simp)).mono fun r s' h' hs => ?_)
    cases r with
    | ok _ => exact ensures_pure.mpr (.inr hs)
    | error e => exact .inr hs
  · rename_i hpass
    have hlive₄ := hlive₃ (not_not.mp hpass ▸ item_eq_ok.mp hstatus)
    split
    · rename_i hlength
      refine ensures_bind.mpr ((hspent (by decide) fun _ => ⟨hlive₄, hlength⟩).mono fun r s' h' hs => ?_)
      cases r with
      | ok _ => exact ensures_pure.mpr (.inr hs)
      | error e => exact .inr hs
    · exact ensures_pure.mpr (.inl ⟨hopened, _, rfl, hhandle, hlive₄⟩)

/-! ## Handles -/

def handleInvalid : PyError := .conformance "SUPERVISOR_HANDLE_INVALID" "protected Linux boundary refused"

omit [Runtime] in
/-- Anything but the handle of the session in progress is refused at once. -/
theorem ensures_held_bind {α : Type} {s : Lifecycle} {h : Log} {handle : Handle} {f : Unit → Life α}
    {Q : Py α → Lifecycle → Log → Prop} (hrefused : Q (.error handleInvalid) s h)
    (hheld : ∀ a n, s.active = some a → a.handle = some n → handle = .issued n → (f ()).Ensures s h Q) :
    (held handle >>= f).Ensures s h Q := by
  refine ensures_bind.mpr (ensures_get_bind (ensures_lift.mpr ?_))
  by_cases hnames : ∃ active ∈ s.active, ∃ n ∈ active.handle, handle = .issued n
  · obtain ⟨a, hactive, n, hn, hhandle⟩ := hnames
    rw [show require "SUPERVISOR_HANDLE_INVALID" (∃ active ∈ s.active, ∃ n ∈ active.handle, handle = .issued n) = .ok () from
      require_eq_ok.mpr ⟨a, hactive, n, hn, hhandle⟩]
    exact hheld a n hactive hn hhandle
  · rw [show require "SUPERVISOR_HANDLE_INVALID" (∃ active ∈ s.active, ∃ n ∈ active.handle, handle = .issued n) =
      .error handleInvalid from if_neg hnames]
    exact hrefused

/-- The outcome of an operation on a handle while session `n` is in progress: refused at once, or
the handle is its handle. -/
def Handled {α : Type} (n : ℕ) (handle : Handle) (s : Lifecycle) (h : Log) (r : Py α) (s' : Lifecycle) (h' : Log) : Prop :=
  (r = .error handleInvalid ∧ s' = s ∧ h' = h) ∨ (handle = .issued n ∧ (Ongoing n s' h' ∨ Spent s' h'))

theorem ensures_executeFixed {s : Lifecycle} {h : Log} {n : ℕ} (hongoing : Ongoing n s h) (handle : Handle)
    (caseId architecture : Json) : (executeFixed handle caseId architecture).Ensures s h (Handled n handle s h) := by
  obtain ⟨hopened, a, hactive, hhandle, hlive⟩ := hongoing
  refine ensures_held_bind (.inl ⟨rfl, rfl, rfl⟩) fun a' m hactive' hm hissued => ?_
  obtain rfl : a' = a := Option.some.inj (hactive'.symm.trans hactive)
  obtain rfl : m = n := Option.some.inj (hm.symm.trans hhandle)
  refine ensures_failing (fun e s' h' hspent => .inr ⟨hissued, .inr hspent⟩) (ensures_current hactive ?_)
  refine (ensures_executeCase hopened hactive hhandle hlive caseId architecture).mono fun r s' h' hr => ?_
  cases r with
  | ok value => exact .inr ⟨hissued, hr⟩
  | error e => exact hr

theorem Live.interrupted {a : Active} {h : Log} {answer : Py Unit} (hlive : Live a h) :
    Live a (h ++ [⟨.interrupt, answer⟩]) := by
  obtain ⟨t, ht⟩ := hlive.running
  refine ⟨hlive.watch.quiet (.inr (.inr rfl)), ⟨t, List.mem_append_left _ ht⟩, List.mem_append_left _ hlive.established,
    hlive.state, fun c answer hc => ?_, hlive.nodup, fun c hc => (hlive.passed c hc).append⟩
  exact hlive.requested c answer (by simpa using hc)

theorem ensures_cancel {s : Lifecycle} {h : Log} {n : ℕ} (hongoing : Ongoing n s h) (handle : Handle) :
    (cancel handle).Ensures s h (Handled n handle s h) := by
  obtain ⟨hopened, a, hactive, hhandle, hlive⟩ := hongoing
  refine ensures_held_bind (.inl ⟨rfl, rfl, rfl⟩) fun a' m hactive' hm hissued => ?_
  obtain rfl : m = n := by
    obtain rfl : a' = a := Option.some.inj (hactive'.symm.trans hactive)
    exact Option.some.inj (hm.symm.trans hhandle)
  refine ensures_call_bind (fun e => .inr ⟨hissued, .inl ⟨hopened, a, hactive, hhandle, hlive.interrupted⟩⟩) fun _ => ?_
  exact (ensures_terminate hopened hactive hlive.interrupted.watch (by decide) (by simp)).mono fun r s' h' hspent =>
    .inr ⟨hissued, .inr hspent⟩

/-! ## The cases asked for -/

section
variable {P : Call → Prop}

omit [Runtime] in
theorem only_current : current.Only P := by
  refine only_get.bind fun s => ?_
  split
  · exact only_pure
  · exact only_lift

omit [Runtime] in
theorem only_now (hP : ∀ c : Call, c.kind ≠ .request → P c) : now.Only P := by
  have hclock : P .clock := hP _ (by simp [Call.kind])
  have hmonotonic : P .monotonic := hP _ (by simp [Call.kind])
  exact only_current.bind fun _ => (only_call hclock).bind fun _ => only_lift.bind fun _ => (only_call hmonotonic).bind fun _ =>
    only_lift.bind fun _ => only_lift.bind fun _ => only_modify.bind fun _ => only_lift.bind fun _ => only_pure

theorem only_terminate (hP : ∀ c : Call, c.kind ≠ .request → P c) {ending : Ending} {original : Option PyError} :
    (terminate ending original).Only P := by
  have hreading (a : Active) : (finalReading a ending).Only P :=
    (only_call (hP _ (by simp [Call.kind]))).bind fun _ => only_lift.bind fun _ => (only_call (hP _ (by simp [Call.kind]))).bind
      fun _ => only_lift.bind fun _ => only_lift.bind fun _ => only_pure
  refine only_get.bind fun s => ?_
  split
  · exact only_pure
  · refine only_modify.bind fun _ => (hreading _).outcome.bind fun r => ?_
    refine (only_call (hP _ (by simp [Call.kind]))).outcome.bind fun cleaned => ?_
    split
    · exact only_lift.bind fun _ => only_call (hP _ (by simp [Call.kind]))
    · exact only_lift
    · exact only_lift

/-- The only case an execution asks the boundary for is the one it was called with. -/
theorem only_executeFixed (handle : Handle) (caseId architecture : Json) :
    (executeFixed handle caseId architecture).Only fun call => ∀ c, call = .request c → caseId = .str c.name := by
  have hP : ∀ call : Call, call.kind ≠ .request → ∀ c, call = .request c → caseId = .str c.name := by
    rintro call hkind c rfl
    exact absurd rfl hkind
  have hother (call : Call) (hcall : call.kind ≠ .request) := hP call hcall
  refine (only_get.bind fun _ => only_lift).bind fun _ => Only.attempt (only_current.bind fun a => ?_) fun e => ?_
  · refine only_lift_bind fun c hc => ?_
    have hrequest : ∀ d, Call.request c = .request d → caseId = .str d.name := by
      rintro d ⟨rfl⟩
      exact (requireOperation_eq_ok.mp hc).1
    refine only_lift.bind fun _ => only_lift.bind fun _ => (only_now hP).bind fun _ => ?_
    refine (only_call (hother .checkPeer (by simp [Call.kind]))).bind fun _ => (only_call hrequest).bind fun request => ?_
    refine (only_call (hother (.execute request a.deadline) (by simp [Call.kind]))).bind fun _ => (only_now hP).bind fun _ => ?_
    refine (only_call (hother .checkPeer (by simp [Call.kind]))).bind fun _ => only_lift.bind fun _ => only_lift.bind fun _ => ?_
    refine only_lift.bind fun _ => only_modify.bind fun _ => only_lift.bind fun _ => ?_
    dsimp only
    split
    · exact (only_terminate hP).bind fun _ => only_pure
    · split
      · exact (only_terminate hP).bind fun _ => only_pure
      · exact only_pure
  · refine only_get.bind fun s => ?_
    dsimp only
    split
    · exact (only_terminate hP).bind fun _ => only_lift
    · exact only_lift

end

/-! ## Whole runs -/

omit [Runtime] in
theorem history_snoc (steps : List Step) (st : Step) : history (steps ++ [st]) = history steps ++ st.events := by
  simp [history]

/-- The step returned a handle. -/
def Issues (st : Step) : Prop := ∃ n, st.outcome = .ok (.handle n)

def Refused (st : Step) : Prop := st.events = [] ∧ st.outcome = .error handleInvalid

/-- The handle is one that an earlier step returned, and no run was ended since. -/
def Counts (before : List Step) (handle : Handle) : Prop :=
  ∃ n, handle = .issued n ∧ (∃ st ∈ before, st.outcome = .ok (.handle n)) ∧ ¬ Made .cleanup (history before)

/-- What a step owes the steps before it: one handle is issued at most, every other handle and
every handle after a termination is refused, and an execution asks only for its own case. -/
def HandleRule (before : List Step) (st : Step) : Prop :=
  match st.op with
  | .openSession _ _ => Issues st → ∀ st' ∈ before, ¬ Issues st'
  | .executeFixed handle caseId _ => (Refused st ∨ Counts before handle) ∧
      ∀ c answer, (⟨.request c, answer⟩ : Entry) ∈ st.events → caseId = .str c.name
  | .cancel handle => Refused st ∨ Counts before handle
  | .close => True

/-- Where an instance stands between two operations. -/
inductive Phase (steps : List Step) (s : Lifecycle) : Prop where
  | fresh : Fresh s (history steps) → Phase steps s
  | spent : Spent s (history steps) → Phase steps s
  | ongoing (n : ℕ) : Ongoing n s (history steps) → (∃ st ∈ steps, st.outcome = .ok (.handle n)) → Phase steps s

theorem Phase.safe {steps : List Step} {s : Lifecycle} (hphase : Phase steps s) : Safe (history steps) := by
  cases hphase with
  | fresh hfresh => exact hfresh.safe
  | spent hspent => exact hspent.safe
  | ongoing n hongoing =>
    obtain ⟨-, a, -, -, hlive⟩ := hongoing
    exact hlive.watch.safe

structure Between (steps : List Step) (s : Lifecycle) : Prop where
  phase : Phase steps s
  issued : (∃ st ∈ steps, Issues st) → s.opened = true

theorem Between.start : Between [] .start :=
  ⟨.fresh ⟨rfl, rfl, safe_nil, rfl, nofun⟩, nofun⟩

section
variable {steps : List Step} {s s' : Lifecycle} {events : Log} {outcome : Py Reply}

/-- A refused operation on a handle leaves everything as it was. -/
theorem Between.refused {op : Op} (hbetween : Between steps s) (hs : s' = s) (hevents : history steps ++ events = history steps)
    (houtcome : ∀ n, outcome ≠ .ok (.handle n)) : Between (steps ++ [⟨op, events, outcome⟩]) s' := by
  subst hs
  have hhistory : history (steps ++ [⟨op, events, outcome⟩]) = history steps := (history_snoc _ _).trans hevents
  have hmem {st : Step} (hst : st ∈ steps) : st ∈ steps ++ [⟨op, events, outcome⟩] := List.mem_append_left _ hst
  refine ⟨?_, fun ⟨st, hst, n, hn⟩ => ?_⟩
  · cases hbetween.phase with
    | fresh hfresh => exact .fresh (hhistory ▸ hfresh)
    | spent hspent => exact .spent (hhistory ▸ hspent)
    | ongoing n hongoing hissued =>
      obtain ⟨st, hst, hn⟩ := hissued
      exact .ongoing n (hhistory ▸ hongoing) ⟨st, hmem hst, hn⟩
  · rcases List.mem_append.mp hst with hst | hst
    · exact hbetween.issued ⟨st, hst, n, hn⟩
    · obtain rfl := List.mem_singleton.mp hst
      exact absurd hn (houtcome n)

/-- An operation on the handle of the session in progress. -/
theorem Between.handled {op : Op} {n : ℕ} (hstate : Ongoing n s' (history steps ++ events) ∨ Spent s' (history steps ++ events))
    (hissued : ∃ st ∈ steps, st.outcome = .ok (.handle n)) : Between (steps ++ [⟨op, events, outcome⟩]) s' := by
  have hhistory : history (steps ++ [⟨op, events, outcome⟩]) = history steps ++ events := history_snoc _ _
  rw [← hhistory] at hstate
  rcases hstate with hongoing | hspent
  · obtain ⟨st, hst, hn⟩ := hissued
    exact ⟨.ongoing n hongoing ⟨st, List.mem_append_left _ hst, hn⟩, fun _ => hongoing.opened⟩
  · exact ⟨.spent hspent, fun _ => hspent.opened⟩

theorem counts_of_ongoing {n : ℕ} {handle : Handle} (hongoing : Ongoing n s (history steps))
    (hissued : ∃ st ∈ steps, st.outcome = .ok (.handle n)) (hhandle : handle = .issued n) : Counts steps handle := by
  obtain ⟨-, a, -, -, hlive⟩ := hongoing
  exact ⟨n, hhandle, hissued, hlive.watch.uncleaned⟩

omit [Runtime] in
/-- Without a session in progress every handle is refused. -/
theorem ensures_held_none {α : Type} {h : Log} (hactive : s.active = none) (handle : Handle) (f : Unit → Life α) :
    (held handle >>= f).Ensures s h fun r s' h' => r = .error handleInvalid ∧ s' = s ∧ h' = h := by
  refine ensures_held_bind ⟨rfl, rfl, rfl⟩ fun a n ha => ?_
  rw [hactive] at ha
  cases ha

/-- An operation on a handle, whichever it is. -/
theorem step_handle {α : Type} {op : Op} {p : Life α} {g : α → Reply} {handle : Handle} (hbetween : Between steps s)
    (hnone : ∀ h, s.active = none → p.Ensures s h fun r s' h' => r = .error handleInvalid ∧ s' = s ∧ h' = h)
    (hsome : ∀ n h, Ongoing n s h → p.Ensures s h (Handled n handle s h))
    (hruns : ((p >>= fun a => pure (g a) : Life Reply) s).Runs events (outcome, s')) :
    Between (steps ++ [⟨op, events, outcome⟩]) s' ∧ (Refused ⟨op, events, outcome⟩ ∨ Counts steps handle) := by
  have hrefused {r : Py α} (hr : r = .error handleInvalid) (hs : s' = s) (hevents : history steps ++ events = history steps)
      (houtcome : outcome = r.map g) : Between (steps ++ [⟨op, events, outcome⟩]) s' ∧ Refused ⟨op, events, outcome⟩ := by
    subst hr
    refine ⟨hbetween.refused hs hevents ?_, ?_, houtcome⟩
    · rw [houtcome]
      exact fun n => nofun
    · simpa using hevents
  have hidle (hactive : s.active = none) :
      Between (steps ++ [⟨op, events, outcome⟩]) s' ∧ (Refused ⟨op, events, outcome⟩ ∨ Counts steps handle) := by
    obtain ⟨r, ⟨hr, hs, hevents⟩, houtcome⟩ := (hnone _ hactive).of_map hruns
    exact (hrefused hr hs hevents houtcome).imp id .inl
  cases hbetween.phase with
  | fresh hfresh => exact hidle hfresh.active
  | spent hspent => exact hidle hspent.active
  | ongoing n hongoing hissued =>
    obtain ⟨r, hhandled, houtcome⟩ := (hsome n _ hongoing).of_map hruns
    rcases hhandled with ⟨hr, hs, hevents⟩ | ⟨hhandle, hstate⟩
    · exact (hrefused hr hs hevents houtcome).imp id .inl
    · exact ⟨.handled hstate hissued, .inr (counts_of_ongoing hongoing hissued hhandle)⟩

theorem step_openSession {binding : Input} {plan : Json} (hbetween : Between steps s)
    (hruns : (perform (.openSession binding plan) s).Runs events (outcome, s')) :
    Between (steps ++ [⟨.openSession binding plan, events, outcome⟩]) s' ∧
      (Issues ⟨.openSession binding plan, events, outcome⟩ → ∀ st ∈ steps, ¬ Issues st) := by
  have hbusy (hopened : s.opened = true) :
      Between (steps ++ [⟨.openSession binding plan, events, outcome⟩]) s' ∧
        (Issues ⟨.openSession binding plan, events, outcome⟩ → ∀ st ∈ steps, ¬ Issues st) := by
    obtain ⟨r, ⟨⟨e, rfl⟩, hs, hevents⟩, he⟩ := (ensures_openSession_busy hopened binding plan).of_map hruns
    refine ⟨hbetween.refused hs hevents fun n hn => ?_, fun ⟨n, hn⟩ => ?_⟩
    · rw [he] at hn
      cases hn
    · rw [show outcome = _ from hn] at he
      cases he
  cases hbetween.phase with
  | spent hspent => exact hbusy hspent.opened
  | ongoing n hongoing => exact hbusy hongoing.opened
  | fresh hfresh =>
    have hunissued : ∀ st ∈ steps, ¬ Issues st := by
      intro st hst hissues
      have hopened := hbetween.issued ⟨st, hst, hissues⟩
      rw [hfresh.opened] at hopened
      cases hopened
    obtain ⟨r, hstate, houtcome⟩ := (ensures_openSession hfresh binding plan).of_map hruns
    rw [← history_snoc steps ⟨.openSession binding plan, events, outcome⟩] at hstate
    refine ⟨?_, fun _ => hunissued⟩
    cases r with
    | ok n =>
      exact ⟨.ongoing n hstate ⟨_, List.mem_append_right _ (List.mem_singleton_self _), houtcome⟩, fun _ => hstate.opened⟩
    | error e =>
      refine ⟨hstate.elim .fresh .spent, fun ⟨st, hst, n, hn⟩ => ?_⟩
      rcases List.mem_append.mp hst with hst | hst
      · exact absurd ⟨n, hn⟩ (hunissued st hst)
      · obtain rfl := List.mem_singleton.mp hst
        rw [show outcome = _ from hn] at houtcome
        cases houtcome

theorem step_close (hbetween : Between steps s) (hruns : (perform .close s).Runs events (outcome, s')) :
    Between (steps ++ [⟨.close, events, outcome⟩]) s' := by
  have hidle (hactive : s.active = none) : Between (steps ++ [⟨.close, events, outcome⟩]) s' := by
    have hnothing : (close : Life Unit).Ensures s (history steps) fun r s' h' => r = .ok () ∧ s' = s ∧ h' = history steps := by
      refine ensures_get_bind ?_
      rw [hactive]
      exact ensures_pure.mpr ⟨rfl, rfl, rfl⟩
    obtain ⟨r, ⟨rfl, hs, hevents⟩, houtcome⟩ := hnothing.of_map hruns
    exact hbetween.refused hs hevents fun n => houtcome ▸ nofun
  cases hbetween.phase with
  | fresh hfresh => exact hidle hfresh.active
  | spent hspent => exact hidle hspent.active
  | ongoing n hongoing hissued =>
    obtain ⟨hopened, a, hactive, -, hlive⟩ := hongoing
    have hterminate : (terminate .failed none).Ensures s (history steps) fun _ s' h' => Spent s' h' :=
      ensures_terminate hopened hactive hlive.watch nofun nofun
    obtain ⟨r, hspent, -⟩ := hterminate.of_map hruns
    exact .handled (.inr hspent) hissued

end

theorem step_between {steps : List Step} {s s' : Lifecycle} {op : Op} {events : Log} {outcome : Py Reply}
    (hbetween : Between steps s) (hruns : (perform op s).Runs events (outcome, s')) :
    Between (steps ++ [⟨op, events, outcome⟩]) s' ∧ HandleRule steps ⟨op, events, outcome⟩ := by
  cases op with
  | openSession binding plan => exact step_openSession hbetween hruns
  | executeFixed handle caseId architecture =>
    have honly := ((only_executeFixed handle caseId architecture).bind fun a => only_pure (a := Reply.result a)) s events outcome s' hruns
    obtain ⟨hnext, hrule⟩ := step_handle hbetween
      (fun h hactive => ensures_held_none hactive handle _)
      (fun n h hongoing => ensures_executeFixed hongoing handle caseId architecture) hruns
    exact ⟨hnext, hrule, fun c answer hc => honly _ hc c rfl⟩
  | cancel handle =>
    exact step_handle hbetween (fun h hactive => ensures_held_none hactive handle _)
      (fun n h hongoing => ensures_cancel hongoing handle) hruns
  | close => exact ⟨step_close hbetween hruns, trivial⟩

theorem run_between {steps : List Step} {s : Lifecycle} (hrun : Run steps s) : Between steps s := by
  induction hrun with
  | start => exact .start
  | step hrun hruns ih => exact (step_between ih hruns).1

/-- Lifecycle safety: in every run of one instance every call was permitted when it was made, and
every handle was honoured or refused as it had to be. -/
theorem lifecycle_safe {steps : List Step} {s : Lifecycle} (hrun : Run steps s) : Safe (history steps) ∧
    ∀ before st after, steps = before ++ st :: after → HandleRule before st := by
  refine ⟨(run_between hrun).phase.safe, ?_⟩
  induction hrun with
  | start => exact fun before st after h => by simp at h
  | step hrun hruns ih => exact forall_split_snoc.mpr ⟨ih, (step_between (run_between hrun) hruns).2⟩

/-! ## A failed run -/

namespace Sample
open LiveSession.Sample (binding instant)

omit [Runtime] in
def plan : Json := .obj [("target", .obj [("architecture", .str "amd64")])]

def active : Active :=
  ⟨binding, .reserved, plan, [], none, deadlineAfter (.float 0) (binding.notAfter.instant - instant.instant), instant.instant, 0⟩

def failedDigest : Digest := digestOf (outcomeJson .failed [])

/-- The calls of the termination. -/
def ended : Log :=
  [⟨.clock, .ok (.str instant.text)⟩, ⟨.monotonic, .ok (.float 0)⟩, ⟨.cleanup, .ok ()⟩,
    ⟨.terminal binding .failed instant failedDigest, .ok ()⟩]

/-- The monotonic source fails behind the reservation. -/
def failed : Step :=
  ⟨.openSession (.data binding.toJson) plan,
    [⟨.clock, .ok (.str instant.text)⟩, ⟨.monotonic, .ok (.float 0)⟩, ⟨.reserveNonce binding instant, .ok ()⟩,
      ⟨.clock, .ok (.str instant.text)⟩, ⟨.monotonic, .error .osError⟩] ++ ended,
    .error .osError⟩

theorem valid_outcome : Valid (outcomeJson .failed []) := by
  have hstate : Slim 130 1 ("state", .str Ending.failed.name) :=
    (Slim.literal (Json.shortKey rfl) rfl (by decide)).mono (by decide : 8 ≤ 130) (Nat.zero_le 1)
  have hreceipts : Slim 130 1 ("receipts", .obj []) := .obj (Json.shortKey rfl) (List.forall_mem_nil _) le_rfl (by decide : 2 + 0 * (0 + 36) ≤ 130)
  have hnative : Slim 130 1 ("nativeAcceptance", .bool false) :=
    ⟨(Json.shortKey rfl).1, (Json.shortKey rfl).2, trivial, (by decide : 5 ≤ 130), (by decide : 0 ≤ 1)⟩
  have hslim : ∀ m ∈ [("state", Json.str Ending.failed.name), ("receipts", .obj []), ("nativeAcceptance", .bool false)],
      Slim 130 1 m := by
    simp only [List.forall_mem_cons]
    exact ⟨hstate, hreceipts, hnative, nofun⟩
  exact validAt_slim hslim (by decide : 3 ≤ _) (by decide) (by decide)

theorem runs_terminate : (terminate .failed (some .osError) ⟨some active, 0, true⟩).Runs ended (.ok (), ⟨none, 0, true⟩) := by
  have hreading : (finalReading active .failed ⟨none, 0, true⟩).Runs
      [⟨.clock, .ok (.str instant.text)⟩, ⟨.monotonic, .ok (.float 0)⟩] (.ok (instant, .failed), ⟨none, 0, true⟩) := by
    refine runs_call_bind (runs_lift_bind (requireTime_eq_ok.mpr rfl) (runs_call_bind ?_))
    refine runs_lift_bind ((require_eq_ok (u := ())).mpr le_rfl) (runs_lift_bind (requireMonotonic_eq_ok.mpr ⟨rfl, by simp [active]⟩) ?_)
    have hending : (if active.binding.notAfter.instant ≤ instant.instant then Ending.expired
        else if active.deadline ≤ ((0 : ℚ) : WithTop ℚ) then .failed else .failed) = .failed := by
      rw [ite_self]
      exact if_neg (by decide : ¬ binding.notAfter.instant ≤ instant.instant)
    rw [hending]
    exact ⟨rfl, rfl⟩
  refine runs_get_bind (runs_modify_bind ?_)
  refine runs_bind (runs_outcome hreading) rfl (runs_bind (runs_outcome runs_call) rfl ?_)
  exact runs_lift_bind (canonicalDigest_eq_ok.mpr ⟨valid_outcome, rfl⟩) runs_call

theorem runs_failed : (perform failed.op .start).Runs failed.events (failed.outcome, ⟨none, 0, true⟩) := by
  have hsession : Session.validate (.data (sessionOf binding .reserved).toJson) (.data binding.toJson) (.str instant.text) =
      .ok (sessionOf binding .reserved) :=
    Session.validate_eq_ok.mpr ⟨Session.read_toJson _ binding.validate_toJson, by decide, instant, rfl, by decide, by decide⟩
  have hstart : (startSession active instant ⟨none, 0, true⟩).Runs [⟨.reserveNonce binding instant, .ok ()⟩,
      ⟨.clock, .ok (.str instant.text)⟩, ⟨.monotonic, .error .osError⟩] (.error .osError, ⟨some active, 0, true⟩) := by
    have hcurrent : (current ⟨some active, 0, true⟩).Runs [] (.ok active, ⟨some active, 0, true⟩) := ⟨rfl, rfl⟩
    refine runs_call_bind (runs_modify_bind (runs_bind_error (runs_bind hcurrent rfl ?_)))
    exact runs_call_bind (runs_lift_bind (requireTime_eq_ok.mpr rfl) runs_call_error)
  refine runs_bind_error (runs_lift_bind binding.validate_toJson (runs_get_bind ?_))
  refine runs_lift_bind ((require_eq_ok (u := ())).mpr ⟨rfl, rfl⟩) (runs_call_bind (runs_lift_bind hsession ?_))
  refine runs_lift_bind rfl (runs_lift_bind ((require_eq_ok (u := ())).mpr (by decide)) (runs_lift_bind (requireTime_eq_ok.mpr rfl) ?_))
  refine runs_call_bind (runs_lift_bind (requireMonotonic_eq_ok.mpr ⟨rfl, nofun⟩) (runs_modify_bind ?_))
  refine runs_attempt hstart rfl (runs_get_bind ?_)
  exact runs_bind runs_terminate rfl ⟨rfl, rfl⟩

theorem run_failed : Run [failed] ⟨none, 0, true⟩ :=
  (.step .start runs_failed : Run ([] ++ [⟨failed.op, failed.events, failed.outcome⟩]) ⟨none, 0, true⟩)

end Sample

omit [Runtime] in
/-- A run that fails behind its reservation. -/
theorem lifecycle_safe_failed : @Run .ascii [@Sample.failed .ascii] ⟨none, 0, true⟩ ∧
    @Safe .ascii (history [@Sample.failed .ascii]) ∧
    ∀ before st after, [@Sample.failed .ascii] = before ++ st :: after → HandleRule before st := by
  let _ := Runtime.ascii
  exact ⟨Sample.run_failed, lifecycle_safe Sample.run_failed⟩

end HarnessConformance.Supervisor
