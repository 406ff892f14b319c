import HarnessConformance.Lib.Outcome

/-! # Programs that call their environment

A script is a tree: each call is continued by whatever the environment answers, so one run of it is
a list of calls with their answers. Over scripts sit actions, with a state of their own and with
exceptions; a change of state made before an exception stays made. `Ensures` says what holds of an
action's outcome, its state and the history so far however the environment answers. -/

namespace HarnessConformance.Lib
set_option autoImplicit false

variable {Call : Type} {Answer : Call → Type} {α β σ ε : Type}

/-- One call and its answer. -/
structure Event (Answer : Call → Type) where
  call : Call
  answer : Answer call

abbrev History (Answer : Call → Type) := List (Event Answer)

/-- What holds of every entry after what stands before it, when one more entry is made. -/
theorem forall_split_snoc {P : List α → α → Prop} {l : List α} {x : α} :
    (∀ before a after, l ++ [x] = before ++ a :: after → P before a) ↔
      (∀ before a after, l = before ++ a :: after → P before a) ∧ P l x := by
  constructor
  · intro h
    refine ⟨fun before a after heq => h before a (after ++ [x]) ?_, h l x [] rfl⟩
    rw [heq, List.append_assoc]
    rfl
  · rintro ⟨hl, hx⟩ before a after heq
    rcases List.eq_nil_or_concat after with rfl | ⟨after, last, rfl⟩
    · obtain ⟨rfl, hlast⟩ := List.append_inj' heq rfl
      exact List.head_eq_of_cons_eq hlast ▸ hx
    · rw [List.concat_eq_append, ← List.cons_append, ← List.append_assoc] at heq
      obtain ⟨rfl, -⟩ := List.append_inj' heq rfl
      exact hl before a after rfl

inductive Script (Answer : Call → Type) (α : Type) where
  | done (a : α)
  | ask (c : Call) (next : Answer c → Script Answer α)

namespace Script

def bind (p : Script Answer α) (f : α → Script Answer β) : Script Answer β :=
  match p with
  | done a => f a
  | ask c next => ask c fun answer => (next answer).bind f

/-- The script makes these calls, is answered so, and ends with this value. -/
def Runs : Script Answer α → History Answer → α → Prop
  | done a, events, b => events = [] ∧ a = b
  | ask c next, events, b => ∃ answer rest, events = ⟨c, answer⟩ :: rest ∧ (next answer).Runs rest b

theorem done_bind (a : α) (f : α → Script Answer β) : (done a : Script Answer α).bind f = f a := rfl

theorem ask_bind (c : Call) (next : Answer c → Script Answer α) (f : α → Script Answer β) :
    (ask c next).bind f = ask c fun answer => (next answer).bind f := rfl

theorem runs_done {a b : α} {events : History Answer} : (done a : Script Answer α).Runs events b ↔ events = [] ∧ a = b := Iff.rfl

theorem runs_ask {c : Call} {next : Answer c → Script Answer α} {events : History Answer} {b : α} :
    (ask c next).Runs events b ↔ ∃ answer rest, events = ⟨c, answer⟩ :: rest ∧ (next answer).Runs rest b := Iff.rfl

theorem runs_bind {p : Script Answer α} {f : α → Script Answer β} {events : History Answer} {b : β} :
    (p.bind f).Runs events b ↔ ∃ a first rest, events = first ++ rest ∧ p.Runs first a ∧ (f a).Runs rest b := by
  induction p generalizing events with
  | done a =>
    rw [done_bind]
    constructor
    · exact fun h => ⟨a, [], events, rfl, ⟨rfl, rfl⟩, h⟩
    · rintro ⟨_, _, rest, rfl, ⟨rfl, rfl⟩, hrest⟩
      exact hrest
  | ask c next ih =>
    rw [ask_bind, runs_ask]
    constructor
    · rintro ⟨answer, rest, rfl, hnext⟩
      obtain ⟨a, first, rest, rfl, hfirst, hrest⟩ := (ih answer).mp hnext
      exact ⟨a, ⟨c, answer⟩ :: first, rest, rfl, ⟨answer, first, rfl, hfirst⟩, hrest⟩
    · rintro ⟨a, _, rest, rfl, ⟨answer, first, rfl, hfirst⟩, hrest⟩
      exact ⟨answer, first ++ rest, rfl, (ih answer).mpr ⟨a, first, rest, rfl, hfirst, hrest⟩⟩

end Script

/-! ## Actions -/

/-- A script that may raise and that carries a state, raised exceptions included. -/
def Action (Answer : Call → Type) (σ ε α : Type) := σ → Script Answer (Except ε α × σ)

namespace Action

protected def pure (a : α) : Action Answer σ ε α := fun s => .done (.ok a, s)

protected def bind (p : Action Answer σ ε α) (f : α → Action Answer σ ε β) : Action Answer σ ε β := fun s =>
  (p s).bind fun
    | (.ok a, s) => f a s
    | (.error e, s) => .done (.error e, s)

instance : Monad (Action Answer σ ε) where
  pure := Action.pure
  bind := Action.bind

/-- `try: body except: handler` -/
def attempt (body : Action Answer σ ε α) (handler : ε → Action Answer σ ε α) : Action Answer σ ε α := fun s =>
  (body s).bind fun
    | (.ok a, s) => .done (.ok a, s)
    | (.error e, s) => handler e s

/-- The outcome of an action, its exceptions as values. -/
def outcome (body : Action Answer σ ε α) : Action Answer σ ε (Except ε α) := fun s =>
  (body s).bind fun (r, s) => .done (.ok r, s)

/-- What an action without calls computes. -/
def lift (x : Except ε α) : Action Answer σ ε α := fun s => .done (x, s)

def raise (e : ε) : Action Answer σ ε α := lift (.error e)

def get : Action Answer σ ε σ := fun s => .done (.ok s, s)

def modify (f : σ → σ) : Action Answer σ ε Unit := fun s => .done (.ok (), f s)

/-- A call whose answer is a value or an exception. -/
def call {Value : Call → Type} (c : Call) : Action (fun c => Except ε (Value c)) σ ε (Value c) := fun s =>
  .ask c fun answer => .done (answer, s)

/-! ## What an action ensures -/

def Ensures (p : Action Answer σ ε α) (s : σ) (h : History Answer) (Q : Except ε α → σ → History Answer → Prop) : Prop :=
  ∀ events outcome s', (p s).Runs events (outcome, s') → Q outcome s' (h ++ events)

variable {p : Action Answer σ ε α} {s : σ} {h : History Answer} {Q R : Except ε α → σ → History Answer → Prop}

theorem Ensures.mono (hp : p.Ensures s h Q) (hQ : ∀ outcome s' h', Q outcome s' h' → R outcome s' h') : p.Ensures s h R :=
  fun _ _ _ hruns => hQ _ _ _ (hp _ _ _ hruns)

theorem ensures_lift {x : Except ε α} : (lift x : Action Answer σ ε α).Ensures s h Q ↔ Q x s h := by
  constructor
  · intro hp
    simpa using hp [] x s ⟨rfl, rfl⟩
  · rintro hQ events outcome s' ⟨rfl, heq⟩
    obtain ⟨rfl, rfl⟩ := Prod.mk.inj heq
    simpa using hQ

theorem ensures_pure {a : α} : (pure a : Action Answer σ ε α).Ensures s h Q ↔ Q (.ok a) s h :=
  ensures_lift (x := .ok a)

theorem ensures_get {Q : Except ε σ → σ → History Answer → Prop} :
    (get : Action Answer σ ε σ).Ensures s h Q ↔ Q (.ok s) s h :=
  ensures_lift (x := .ok s)

theorem ensures_modify {f : σ → σ} {Q : Except ε Unit → σ → History Answer → Prop} :
    (modify f : Action Answer σ ε Unit).Ensures s h Q ↔ Q (.ok ()) (f s) h := by
  constructor
  · intro hp
    simpa using hp [] (.ok ()) (f s) ⟨rfl, rfl⟩
  · rintro hQ events outcome s' ⟨rfl, heq⟩
    obtain ⟨rfl, rfl⟩ := Prod.mk.inj heq
    simpa using hQ

/-- After the first part, either the second runs or its exception goes through. -/
theorem ensures_bind {f : α → Action Answer σ ε β} {Q : Except ε β → σ → History Answer → Prop} :
    (p >>= f).Ensures s h Q ↔ p.Ensures s h fun
      | .ok a, s', h' => (f a).Ensures s' h' Q
      | .error e, s', h' => Q (.error e) s' h' := by
  constructor
  · intro hp first outcome s' hfirst
    cases outcome with
    | ok a =>
      intro rest outcome s'' hrest
      rw [List.append_assoc]
      exact hp _ _ _ (Script.runs_bind.mpr ⟨(.ok a, s'), first, rest, rfl, hfirst, hrest⟩)
    | error e =>
      refine hp first (.error e) s' (Script.runs_bind.mpr ⟨(.error e, s'), first, [], ?_, hfirst, rfl, rfl⟩)
      exact (List.append_nil _).symm
  · intro hp events outcome s' hruns
    obtain ⟨⟨result, s''⟩, first, rest, rfl, hfirst, hrest⟩ := Script.runs_bind.mp hruns
    have hmid := hp first result s'' hfirst
    cases result with
    | ok a =>
      rw [← List.append_assoc]
      exact hmid rest outcome s' hrest
    | error e =>
      obtain ⟨rfl, heq⟩ := hrest
      obtain ⟨rfl, rfl⟩ := Prod.mk.inj heq
      rw [List.append_nil]
      exact hmid

/-- A run of an action under a pure result. -/
theorem Ensures.of_map {g : α → β} {events : History Answer} {outcome : Except ε β} {s' : σ} (hp : p.Ensures s h Q)
    (hruns : ((p >>= fun a => pure (g a) : Action Answer σ ε β) s).Runs events (outcome, s')) :
    ∃ r, Q r s' (h ++ events) ∧ outcome = r.map g := by
  obtain ⟨⟨r, s''⟩, first, rest, rfl, hfirst, hrest⟩ := Script.runs_bind.mp hruns
  have hQ := hp first r s'' hfirst
  cases r with
  | ok a =>
    obtain ⟨rfl, heq⟩ := hrest
    obtain ⟨rfl, rfl⟩ := Prod.mk.inj heq
    rw [List.append_nil]
    exact ⟨.ok a, hQ, rfl⟩
  | error e =>
    obtain ⟨rfl, heq⟩ := hrest
    obtain ⟨rfl, rfl⟩ := Prod.mk.inj heq
    rw [List.append_nil]
    exact ⟨.error e, hQ, rfl⟩

theorem ensures_attempt {handler : ε → Action Answer σ ε α} :
    (attempt p handler).Ensures s h Q ↔ p.Ensures s h fun
      | .ok a, s', h' => Q (.ok a) s' h'
      | .error e, s', h' => (handler e).Ensures s' h' Q := by
  constructor
  · intro hp first outcome s' hfirst
    cases outcome with
    | ok a =>
      refine hp first (.ok a) s' (Script.runs_bind.mpr ⟨(.ok a, s'), first, [], ?_, hfirst, rfl, rfl⟩)
      exact (List.append_nil _).symm
    | error e =>
      intro rest outcome s'' hrest
      rw [List.append_assoc]
      exact hp _ _ _ (Script.runs_bind.mpr ⟨(.error e, s'), first, rest, rfl, hfirst, hrest⟩)
  · intro hp events outcome s' hruns
    obtain ⟨⟨result, s''⟩, first, rest, rfl, hfirst, hrest⟩ := Script.runs_bind.mp hruns
    have hmid := hp first result s'' hfirst
    cases result with
    | ok a =>
      obtain ⟨rfl, heq⟩ := hrest
      obtain ⟨rfl, rfl⟩ := Prod.mk.inj heq
      rw [List.append_nil]
      exact hmid
    | error e =>
      rw [← List.append_assoc]
      exact hmid rest outcome s' hrest

theorem ensures_outcome {Q : Except ε (Except ε α) → σ → History Answer → Prop} :
    (outcome p).Ensures s h Q ↔ p.Ensures s h fun r s' h' => Q (.ok r) s' h' := by
  constructor
  · intro hp first r s' hfirst
    refine hp first (.ok r) s' (Script.runs_bind.mpr ⟨(r, s'), first, [], ?_, hfirst, rfl, rfl⟩)
    exact (List.append_nil _).symm
  · intro hp events r s' hruns
    obtain ⟨⟨r', s''⟩, first, rest, rfl, hfirst, rfl, heq⟩ := Script.runs_bind.mp hruns
    obtain ⟨rfl, rfl⟩ := Prod.mk.inj heq
    rw [List.append_nil]
    exact hp first r' s'' hfirst

/-- A call takes every answer. -/
theorem ensures_call {Value : Call → Type} {c : Call} {h : History fun c => Except ε (Value c)}
    {Q : Except ε (Value c) → σ → History (fun c => Except ε (Value c)) → Prop} :
    (call c : Action (fun c => Except ε (Value c)) σ ε (Value c)).Ensures s h Q ↔ ∀ answer, Q answer s (h ++ [⟨c, answer⟩]) := by
  constructor
  · exact fun hp answer => hp [⟨c, answer⟩] answer s ⟨answer, [], rfl, rfl, rfl⟩
  · rintro hQ events outcome s' ⟨answer, _, rfl, rfl, heq⟩
    obtain ⟨rfl, rfl⟩ := Prod.mk.inj heq
    exact hQ answer

/-! ## One step at a time -/

section
variable {f : α → Action Answer σ ε β} {Q : Except ε β → σ → History Answer → Prop}

theorem ensures_lift_bind {x : Except ε α} (herror : ∀ e, x = .error e → Q (.error e) s h)
    (hok : ∀ a, x = .ok a → (f a).Ensures s h Q) : (lift x >>= f).Ensures s h Q := by
  refine ensures_bind.mpr (ensures_lift.mpr ?_)
  cases x with
  | ok a => exact hok a rfl
  | error e => exact herror e rfl

theorem ensures_get_bind {f : σ → Action Answer σ ε β} (hget : (f s).Ensures s h Q) : (get >>= f).Ensures s h Q :=
  ensures_bind.mpr (ensures_get.mpr hget)

theorem ensures_modify_bind {g : σ → σ} {f : Unit → Action Answer σ ε β} (hmodify : (f ()).Ensures (g s) h Q) :
    (modify g >>= f).Ensures s h Q :=
  ensures_bind.mpr (ensures_modify.mpr hmodify)

theorem ensures_call_bind {Value : Call → Type} {c : Call} {h : History fun c => Except ε (Value c)}
    {f : Value c → Action (fun c => Except ε (Value c)) σ ε β} {Q : Except ε β → σ → History (fun c => Except ε (Value c)) → Prop}
    (herror : ∀ e, Q (.error e) s (h ++ [⟨c, .error e⟩]))
    (hok : ∀ value, (f value).Ensures s (h ++ [⟨c, .ok value⟩]) Q) : (call c >>= f).Ensures s h Q := by
  refine ensures_bind.mpr (ensures_call.mpr fun answer => ?_)
  cases answer with
  | ok value => exact hok value
  | error e => exact herror e

end

/-! ## One run -/

section
variable {f : α → Action Answer σ ε β} {events first rest : History Answer} {r : Except ε β × σ} {s' : σ}

theorem runs_lift_bind {x : Except ε α} {a : α} (hx : x = .ok a) (hf : (f a s).Runs events r) : ((lift x >>= f) s).Runs events r := by
  subst hx
  exact hf

theorem runs_get_bind {f : σ → Action Answer σ ε β} (hf : (f s s).Runs events r) : ((get >>= f) s).Runs events r := hf

theorem runs_modify_bind {g : σ → σ} {f : Unit → Action Answer σ ε β} (hf : (f () (g s)).Runs events r) :
    ((modify g >>= f) s).Runs events r := hf

theorem runs_bind {a : α} (hp : (p s).Runs first (.ok a, s')) (hevents : events = first ++ rest)
    (hf : (f a s').Runs rest r) : ((p >>= f) s).Runs events r :=
  Script.runs_bind.mpr ⟨(.ok a, s'), first, rest, hevents, hp, hf⟩

theorem runs_bind_error {e : ε} (hp : (p s).Runs events (.error e, s')) : ((p >>= f) s).Runs events (.error e, s') :=
  Script.runs_bind.mpr ⟨(.error e, s'), events, [], (List.append_nil _).symm, hp, rfl, rfl⟩

theorem runs_outcome {x : Except ε α} (hp : (p s).Runs events (x, s')) : (outcome p s).Runs events (.ok x, s') :=
  Script.runs_bind.mpr ⟨(x, s'), events, [], (List.append_nil _).symm, hp, rfl, rfl⟩

theorem runs_attempt {handler : ε → Action Answer σ ε α} {e : ε} {r : Except ε α × σ} (hp : (p s).Runs first (.error e, s'))
    (hevents : events = first ++ rest) (hhandler : (handler e s').Runs rest r) : (attempt p handler s).Runs events r :=
  Script.runs_bind.mpr ⟨(.error e, s'), first, rest, hevents, hp, hhandler⟩

end

section
variable {Value : Call → Type} {c : Call} {f : Value c → Action (fun c => Except ε (Value c)) σ ε β}
  {events : History fun c => Except ε (Value c)} {r : Except ε β × σ}

theorem runs_call {answer : Except ε (Value c)} :
    ((call c : Action (fun c => Except ε (Value c)) σ ε (Value c)) s).Runs [⟨c, answer⟩] (answer, s) :=
  ⟨answer, [], rfl, rfl, rfl⟩

theorem runs_call_bind {value : Value c} (hf : (f value s).Runs events r) :
    ((call c >>= f) s).Runs (⟨c, .ok value⟩ :: events) r :=
  ⟨.ok value, events, rfl, hf⟩

theorem runs_call_error {e : ε} : ((call c >>= f) s).Runs [⟨c, .error e⟩] (.error e, s) :=
  ⟨.error e, [], rfl, rfl, rfl⟩

end

/-! ## The calls an action makes -/

/-- Every call of the action is one of these. -/
def Only (p : Action Answer σ ε α) (P : Call → Prop) : Prop :=
  ∀ s events outcome s', (p s).Runs events (outcome, s') → ∀ e ∈ events, P e.call

variable {P : Call → Prop}

theorem only_lift {x : Except ε α} : (lift x : Action Answer σ ε α).Only P := by
  rintro s events outcome s' ⟨rfl, -⟩
  nofun

theorem only_pure {a : α} : (pure a : Action Answer σ ε α).Only P := only_lift (x := .ok a)

theorem only_get : (get : Action Answer σ ε σ).Only P := by
  rintro s events outcome s' ⟨rfl, -⟩
  nofun

theorem only_modify {f : σ → σ} : (modify f : Action Answer σ ε Unit).Only P := by
  rintro s events outcome s' ⟨rfl, -⟩
  nofun

theorem only_call {Value : Call → Type} {c : Call} (h : P c) :
    (call c : Action (fun c => Except ε (Value c)) σ ε (Value c)).Only P := by
  rintro s events outcome s' ⟨answer, _, rfl, rfl, -⟩
  exact List.forall_mem_singleton.mpr h

theorem Only.bind {f : α → Action Answer σ ε β} (hp : p.Only P) (hf : ∀ a, (f a).Only P) : (p >>= f).Only P := by
  intro s events outcome s' hruns
  obtain ⟨⟨result, s''⟩, first, rest, rfl, hfirst, hrest⟩ := Script.runs_bind.mp hruns
  rw [List.forall_mem_append]
  refine ⟨hp _ _ _ _ hfirst, ?_⟩
  cases result with
  | ok a => exact hf a _ _ _ _ hrest
  | error e =>
    obtain ⟨rfl, -⟩ := hrest
    nofun

theorem only_lift_bind {x : Except ε α} {f : α → Action Answer σ ε β} (hf : ∀ a, x = .ok a → (f a).Only P) :
    (lift x >>= f).Only P := by
  intro s events outcome s' hruns
  obtain ⟨⟨result, s''⟩, first, rest, rfl, ⟨rfl, heq⟩, hrest⟩ := Script.runs_bind.mp hruns
  obtain ⟨rfl, rfl⟩ := Prod.mk.inj heq
  cases x with
  | ok a => exact hf a rfl _ _ _ _ hrest
  | error e =>
    obtain ⟨rfl, -⟩ := hrest
    nofun

theorem Only.attempt {handler : ε → Action Answer σ ε α} (hp : p.Only P) (hhandler : ∀ e, (handler e).Only P) :
    (attempt p handler).Only P := by
  intro s events outcome s' hruns
  obtain ⟨⟨result, s''⟩, first, rest, rfl, hfirst, hrest⟩ := Script.runs_bind.mp hruns
  rw [List.forall_mem_append]
  refine ⟨hp _ _ _ _ hfirst, ?_⟩
  cases result with
  | ok a =>
    obtain ⟨rfl, -⟩ := hrest
    nofun
  | error e => exact hhandler e _ _ _ _ hrest

theorem Only.outcome (hp : p.Only P) : (Action.outcome p).Only P := by
  intro s events outcome s' hruns
  obtain ⟨⟨result, s''⟩, first, rest, rfl, hfirst, rfl, -⟩ := Script.runs_bind.mp hruns
  rw [List.append_nil]
  exact hp _ _ _ _ hfirst

end Action

end HarnessConformance.Lib
