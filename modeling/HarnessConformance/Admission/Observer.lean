import HarnessConformance.Admission.Observation
import HarnessConformance.Lib.HashChain

/-! # Runs of observations

The answers a run of the observer accepts one after another, each checked against the one before
it: what is numbered, linked and constant over the whole run. -/

namespace HarnessConformance.Admission
open Lib Lib.Outcome Lib.Lines
set_option autoImplicit false

section
variable [Runtime]

/-- A request, the answer to it, and the time at which the answer is checked. -/
structure Exchange where
  request : Input
  observation : Input
  now : Json

/-- One more answer, with the last accepted one as `previous`. -/
def observe (binding profile : Input) (seen : List Json) (x : Exchange) : Py (List Json) := do
  let observation ← validateMessages binding x.request x.observation profile x.now (seen.getLast?.map .data)
  pure (seen ++ [observation])

/-- All the answers of a run. -/
def observeAll (binding profile : Input) (xs : List Exchange) : Py (List Json) := xs.foldlM (observe binding profile) []

/-- Every answer was accepted after those before it. -/
inductive Answered (b p : Json) : List Exchange → List Json → Prop
  | nil : Answered b p [] []
  | snoc {xs : List Exchange} {os : List Json} {x : Exchange} {o : Json} (past : Answered b p xs os)
      (answer : Answer b p x.now os.getLast? o) : Answered b p (xs ++ [x]) (os ++ [o])

/-- The documents of the run are read once for all its answers. -/
theorem answered_of_observeAll {binding profile : Input} {xs : List Exchange} {os : List Json}
    (h : observeAll binding profile xs = .ok os) : (xs = [] ∧ os = []) ∨ ∃ b p,
      observationDocument binding observationBindingShape 65536 = .ok b ∧ validateProfile profile = .ok p ∧
        Answered b p xs os := by
  refine foldlM_history (f := observe binding profile) (fun xs os => (xs = [] ∧ os = []) ∨ ∃ b p,
    observationDocument binding observationBindingShape 65536 = .ok b ∧ validateProfile profile = .ok p ∧
      Answered b p xs os) (.inl ⟨rfl, rfl⟩) (fun past seen x os hpast hstep => .inr ?_) h
  simp only [observe, bind_eq_ok, pure_eq_ok] at hstep
  obtain ⟨o, ho, rfl⟩ := hstep
  obtain ⟨b, p, hb, hp, hanswer⟩ := answer_of_validateMessages ho
  rcases hpast with ⟨rfl, rfl⟩ | ⟨b', p', hb', hp', hanswered⟩
  · exact ⟨b, p, hb, hp, .snoc .nil hanswer⟩
  · obtain rfl := Except.ok.inj (hb.symm.trans hb')
    obtain rfl := Except.ok.inj (hp.symm.trans hp')
    exact ⟨b, p, hb, hp, .snoc hanswered hanswer⟩

namespace Answered

variable {b p : Json} {xs : List Exchange} {os : List Json}

/-- What the answers have in common with a predecessor, they all have in common. -/
theorem constant (h : Answered b p xs os) {α : Type} (f : Json → Option α)
    (hsome : ∀ {now : Json} {previous : Option Json} {o : Json}, Answer b p now previous o → ∃ v, f o = some v)
    (hkeeps : ∀ {previous o : Json}, Successor previous o → f o = f previous) (hne : os ≠ []) :
    ∃ v, ∀ o ∈ os, f o = some v := by
  induction h with
  | nil => exact absurd rfl hne
  | @snoc xs os x o past answer ih =>
    cases os using List.reverseRecOn with
    | nil =>
      obtain ⟨v, hv⟩ := hsome answer
      exact ⟨v, by simpa using hv⟩
    | append_singleton os last =>
      obtain ⟨v, hv⟩ := ih (by simp)
      have hlast := hv last (by simp)
      have hnew := hkeeps (answer.successor last List.getLast?_concat)
      refine ⟨v, fun o' ho' => ?_⟩
      rcases List.mem_append.mp ho' with hold | hnew'
      · exact hv o' hold
      · rw [List.mem_singleton.mp hnew', hnew, hlast]

/-- What holds of every accepted answer holds of all answers of the run. -/
theorem forall_mem (h : Answered b p xs os) {o : Json} (ho : o ∈ os) : ∃ now previous, Answer b p now previous o := by
  induction h with
  | nil => cases ho
  | snoc past answer ih =>
    rcases List.mem_append.mp ho with hold | hnew
    · exact ih hold
    · rw [List.mem_singleton.mp hnew]
      exact ⟨_, _, answer⟩

theorem forall₂ (h : Answered b p xs os) : List.Forall₂ (fun x o => InWindow p o x.now) xs os := by
  induction h with
  | nil => exact .nil
  | snoc past answer ih => exact List.rel_append ih (.cons answer.window .nil)

/-- No later answer was observed before an earlier one. -/
theorem clock (h : Answered b p xs os) : os.Pairwise fun o o' => ∃ t t', momentOf o "observedAt" = some t ∧
    momentOf o' "observedAt" = some t' ∧ t ≤ t' := by
  induction h with
  | nil => exact .nil
  | @snoc xs os x o past answer ih =>
    refine List.pairwise_append.mpr ⟨ih, List.pairwise_singleton _ _, fun a ha a' ha' => ?_⟩
    rw [List.mem_singleton.mp ha']
    cases os using List.reverseRecOn with
    | nil => cases ha
    | append_singleton os last =>
      obtain ⟨t, t', ht, ht', hle⟩ := (answer.successor last List.getLast?_concat).clock
      rcases List.mem_append.mp ha with hold | hlast
      · obtain ⟨u, u', hu, hu', hle'⟩ := (List.pairwise_append.mp ih).2.2 a hold last (by simp)
        obtain rfl := Option.some.inj (hu'.symm.trans ht)
        exact ⟨u, t', hu, ht', hle'.trans hle⟩
      · rw [List.mem_singleton.mp hlast]
        exact ⟨t, t', ht, ht', hle⟩

end Answered

/-! ## The chain -/

def sequenceOf (o : Json) : ℕ :=
  match o.get? "sequence" with
  | some (.int n) => n.toNat
  | _ => 0

omit [Runtime] in
theorem sequenceOf_eq {o : Json} {n : ℤ} (h : o.get? "sequence" = some (.int n)) : sequenceOf o = n.toNat := by
  rw [sequenceOf, h]

omit [Runtime] in
/-- The digest an answer names as that of its predecessor. -/
def linkOf (o : Json) : Option Json := o.get? "previousObservationDigest"

/-- The member a successor has to hold. -/
def digestText (o : Json) : Option Json := some (.str (digestOf o).text)

theorem Answer.sequence {b p now o : Json} {previous : Option Json} (h : Answer b p now previous o) :
    o.get? "sequence" = some (.int (sequenceOf o)) ∧ 1 ≤ sequenceOf o := by
  obtain ⟨w, hw, n, rfl, hlow, -⟩ := h.shape.get? (k := "sequence") rfl
  rw [sequenceOf_eq hw]
  refine ⟨?_, by omega⟩
  rw [hw, Int.toNat_of_nonneg (by omega)]

namespace Answered

variable {b p : Json} {xs : List Exchange} {os : List Json}

/-- The answers are numbered from one and linked from the zero digest. -/
theorem chained (h : Answered b p xs os) : HashChain.Chained digestText linkOf sequenceOf (some (.str zero.text)) os
    (HashChain.head digestText (some (.str zero.text)) os) os.length := by
  induction h with
  | nil => exact ⟨rfl, by simp, trivial, rfl⟩
  | @snoc xs os x o past answer ih =>
    rw [HashChain.head_snoc, List.length_append, List.length_singleton]
    cases os using List.reverseRecOn with
    | nil =>
      obtain ⟨hsequence, hlink⟩ := answer.initial rfl
      exact ih.snoc (sequenceOf_eq hsequence) hlink
    | append_singleton os last =>
      have hsuccessor := answer.successor last List.getLast?_concat
      obtain ⟨n, hn, hnext⟩ := hsuccessor.sequence
      have hlast := ih.numbered os.length last List.getElem?_concat_length
      refine ih.snoc ?_ ?_
      · rw [sequenceOf_eq hn] at hlast
        rw [sequenceOf_eq hnext, List.length_append, List.length_singleton]
        omega
      · rw [HashChain.head_snoc]
        exact hsuccessor.digest

theorem numbered (h : Answered b p xs os) {i : ℕ} {o : Json} (hi : os[i]? = some o) : o.get? "sequence" = some (.int (i + 1)) := by
  obtain ⟨now, previous, hanswer⟩ := h.forall_mem (List.mem_of_getElem? hi)
  rw [hanswer.sequence.1, h.chained.numbered i o hi]
  rfl

theorem successor (h : Answered b p xs os) {i : ℕ} {o o' : Json} (hi : os[i]? = some o) (hi' : os[i + 1]? = some o') :
    Successor o o' := by
  induction h with
  | nil => simp at hi
  | @snoc xs os x a past answer ih =>
    rcases Nat.lt_trichotomy (i + 1) os.length with hlt | heq | hgt
    · rw [List.getElem?_append_left (by omega)] at hi
      rw [List.getElem?_append_left hlt] at hi'
      exact ih hi hi'
    · rw [heq, List.getElem?_concat_length] at hi'
      rw [List.getElem?_append_left (by omega)] at hi
      rw [← Option.some.inj hi']
      refine answer.successor o ?_
      rw [List.getLast?_eq_getElem?, ← heq, Nat.add_sub_cancel, hi]
    · rw [List.getElem?_eq_none (by simp; omega)] at hi'
      cases hi'

/-- No answer is accepted twice. -/
theorem nodup (h : Answered b p xs os) : os.Nodup := by
  rw [List.nodup_iff_getElem?_ne_getElem?]
  intro i j hij hj heq
  have hi : os[i]? = some os[i] := List.getElem?_eq_getElem (hij.trans hj)
  have hsame := (h.numbered hi).symm.trans (h.numbered (heq ▸ hi))
  simp only [Option.some.injEq, Json.int.injEq] at hsame
  omega

end Answered

/-! ## What a whole run keeps -/

/-- The members that no answer of a run may change. -/
def stableFields : List String := ["bindingDigest", "runNonce", "observerBootId", "generation", "enforcement"]

/-- The answers of one run. -/
structure ObservationChain (profile : Input) (xs : List Exchange) (os : List Json) : Prop where
  numbered : ∀ (i : ℕ) (o : Json), os[i]? = some o → o.get? "sequence" = some (.int (i + 1))
  initial : ∀ o : Json, os[0]? = some o → o.get? "previousObservationDigest" = some (.str zero.text)
  linked : ∀ (i : ℕ) (o o' : Json), os[i]? = some o → os[i + 1]? = some o' →
    o'.get? "previousObservationDigest" = some (.str (digestOf o).text)
  constant : ∀ k ∈ stableFields, ∃ v, ∀ o ∈ os, o.get? k = some v
  projections : ∀ policy : Policy, ∃ v, ∀ o ∈ os, projectionOf o policy = some v
  clock : os.Pairwise fun o o' => ∃ t t' : Instant, momentOf o "observedAt" = some t ∧ momentOf o' "observedAt" = some t' ∧ t ≤ t'
  fresh : List.Forall₂ (fun x o => ∃ p, validateProfile profile = .ok p ∧ InWindow p o x.now) xs os

theorem Answered.constant_fields {b p : Json} {xs : List Exchange} {os : List Json} (h : Answered b p xs os)
    (hne : os ≠ []) : ∀ k ∈ stableFields, ∃ v, ∀ o ∈ os, o.get? k = some v := by
  have hgeneration : ∃ v, ∀ o ∈ os, o.get? "generation" = some v := h.constant (·.get? "generation")
    (fun ha => (ha.shape.get? (k := "generation") rfl).imp fun _ hw => hw.1) (fun hs => hs.generation) hne
  obtain ⟨generation, hgen⟩ := hgeneration
  simp only [stableFields, List.forall_mem_cons]
  refine ⟨⟨.str (digestOf b).text, fun o ho => ?_⟩, ?_, ?_, ⟨generation, hgen⟩, ?_, nofun⟩
  · obtain ⟨now, previous, hanswer⟩ := h.forall_mem ho
    exact hanswer.bindingDigest
  · exact h.constant (·.get? "runNonce") (fun ha => (ha.shape.get? (k := "runNonce") rfl).imp fun _ hw => hw.1)
      (fun hs => hs.runNonce) hne
  · exact h.constant (·.get? "observerBootId") (fun ha => (ha.shape.get? (k := "observerBootId") rfl).imp fun _ hw => hw.1)
      (fun hs => hs.observerBootId) hne
  · obtain ⟨o, ho⟩ := List.exists_mem_of_ne_nil os hne
    obtain ⟨now, previous, hanswer⟩ := h.forall_mem ho
    obtain ⟨-, pins, -, hpins, -⟩ := hanswer.enforcement
    refine ⟨(Json.obj (("policyGeneration", generation) :: pins)).canon, fun o' ho' => ?_⟩
    obtain ⟨now', previous', hanswer'⟩ := h.forall_mem ho'
    obtain ⟨generation', pins', hgeneration', hpins', henforcement⟩ := hanswer'.enforcement
    obtain rfl := Option.some.inj (hgeneration'.symm.trans (hgen o' ho'))
    obtain rfl := Json.obj.inj (Option.some.inj (hpins'.symm.trans hpins))
    exact henforcement

theorem Answered.constant_projections {b p : Json} {xs : List Exchange} {os : List Json} (h : Answered b p xs os)
    (hne : os ≠ []) (policy : Policy) : ∃ v, ∀ o ∈ os, projectionOf o policy = some v := by
  obtain ⟨o, ho⟩ := List.exists_mem_of_ne_nil os hne
  obtain ⟨now, previous, hanswer⟩ := h.forall_mem ho
  obtain ⟨projections, expected, hprojections, hexpected, -⟩ := hanswer.projection policy
  refine ⟨expected, fun o' ho' => ?_⟩
  obtain ⟨now', previous', hanswer'⟩ := h.forall_mem ho'
  obtain ⟨projections', expected', hprojections', hexpected', hprojection⟩ := hanswer'.projection policy
  obtain rfl := Option.some.inj (hprojections'.symm.trans hprojections)
  obtain rfl := Option.some.inj (hexpected'.symm.trans hexpected)
  exact hprojection

theorem observationChain_of_observeAll {binding profile : Input} {xs : List Exchange} {os : List Json}
    (h : observeAll binding profile xs = .ok os) : ObservationChain profile xs os := by
  rcases answered_of_observeAll h with ⟨rfl, rfl⟩ | ⟨b, p, -, hp, hanswered⟩
  · exact ⟨by simp, by simp, by simp, fun _ _ => ⟨.null, nofun⟩, fun _ => ⟨.null, nofun⟩, .nil, .nil⟩
  · rcases eq_or_ne os [] with rfl | hne
    · exact ⟨by simp, by simp, by simp, fun _ _ => ⟨.null, nofun⟩, fun _ => ⟨.null, nofun⟩, .nil, hanswered.forall₂.imp fun _ _ hw => ⟨p, hp, hw⟩⟩
    · refine ⟨fun i o hi => hanswered.numbered hi, fun o ho => ?_, fun i o o' hi hi' => (hanswered.successor hi hi').digest,
        hanswered.constant_fields hne, hanswered.constant_projections hne, hanswered.clock,
        hanswered.forall₂.imp fun _ _ hw => ⟨p, hp, hw⟩⟩
      obtain ⟨a, rest, rfl⟩ := List.exists_cons_of_ne_nil hne
      obtain rfl := Option.some.inj ho
      exact hanswered.chained.linked.1

/-- The texts that the digests of a run are taken of. -/
def observationTexts (os : List Json) : Set Bytes := {text | ∃ o ∈ os, text = canonicalText o}

/-- Every run of accepted observations is a chain, and its last observation fixes it. -/
theorem observation_chain {binding profile : Input} {xs : List Exchange} {os : List Json}
    (h : observeAll binding profile xs = .ok os) : ObservationChain profile xs os ∧
      ∀ binding' profile' xs' os', observeAll binding' profile' xs' = .ok os' →
        CollisionFree (observationTexts os ∪ observationTexts os') → os ≠ [] → os.getLast? = os'.getLast? → os = os' := by
  refine ⟨observationChain_of_observeAll h, fun binding' profile' xs' os' h' hfree hne hlast => ?_⟩
  rcases answered_of_observeAll h with ⟨rfl, rfl⟩ | ⟨b, p, -, -, hanswered⟩
  · exact absurd rfl hne
  rcases answered_of_observeAll h' with ⟨rfl, rfl⟩ | ⟨b', p', -, -, hanswered'⟩
  · exact absurd (List.getLast?_eq_none_iff.mp hlast) hne
  have hcanonical : ∀ o, o ∈ os ∨ o ∈ os' → Canonical o := by
    rintro o (ho | ho)
    · obtain ⟨now, previous, hanswer⟩ := hanswered.forall_mem ho
      exact hanswer.canonical
    · obtain ⟨now, previous, hanswer⟩ := hanswered'.forall_mem ho
      exact hanswer.canonical
  have htext : ∀ o, o ∈ os ∨ o ∈ os' → canonicalText o ∈ observationTexts os ∪ observationTexts os' :=
    fun o ho => ho.imp (fun h => ⟨o, h, rfl⟩) fun h => ⟨o, h, rfl⟩
  have hinj : Set.InjOn digestText {o | o ∈ os ∨ o ∈ os'} := by
    intro o ho o' ho' heq
    have hdigest : digestOf o = digestOf o' := Text.ext (Json.str.inj (Option.some.inj heq))
    exact (hcanonical o ho).eq_of_text (hcanonical o' ho') (byteDigest_inj hfree (htext o ho) (htext o' ho') hdigest)
  obtain ⟨front, last, rfl⟩ := (List.eq_nil_or_concat' os).resolve_left hne
  rw [List.getLast?_concat] at hlast
  obtain ⟨front', rfl⟩ := List.getLast?_eq_some_iff.mp hlast.symm
  have hcount : front.length = front'.length := by
    have hnumber := hanswered.numbered (List.getElem?_concat_length (l := front) (a := last))
    have hnumber' := hanswered'.numbered (List.getElem?_concat_length (l := front') (a := last))
    have hsame := hnumber.symm.trans hnumber'
    simp only [Option.some.injEq, Json.int.injEq] at hsame
    omega
  refine HashChain.eq_of_head hinj hanswered.chained.linked hanswered'.chained.linked ?_ ?_
  · rw [List.length_append, List.length_append, hcount]
  · rw [HashChain.head_snoc, HashChain.head_snoc]

/-- A challenge is compared with the one before it; an answer of the run is accepted once, whatever it is challenged with. -/
theorem consecutive_challenges {binding profile : Input} {xs : List Exchange} {os : List Json}
    (h : observeAll binding profile xs = .ok os) :
    (∀ (i : ℕ) (o o' : Json), os[i]? = some o → os[i + 1]? = some o' → o'.get? "challenge" ≠ o.get? "challenge") ∧
      os.Nodup := by
  rcases answered_of_observeAll h with ⟨rfl, rfl⟩ | ⟨b, p, -, -, hanswered⟩
  · exact ⟨by simp, .nil⟩
  · exact ⟨fun i o o' hi hi' => (hanswered.successor hi hi').challenge, hanswered.nodup⟩

end

/-! ## A run of three answers -/

namespace ObserverSample
open SampleProfile (scope quota profile)

def identity (p : Policy) : Json.Members :=
  match p with
  | .resourceQuota => [("kind", .str "ResourceQuota"), ("name", .str "quota"), ("uid", .str "uid-1")]
  | .limitRange => [("kind", .str "LimitRange"), ("name", .str "limits"), ("uid", .str "uid-2")]
  | .serviceAccount => [("kind", .str "ServiceAccount"), ("name", .str "runner"), ("uid", .str "uid-3")]
  | _ => [("kind", .str "Policy"), ("name", .str "policy"), ("uid", .str "uid-4")]

def projection (p : Policy) : Json.Members :=
  [("apiVersion", .str "v1"), ("namespace", .str "lab"), ("projectionDigest", .str zero.text)] ++ identity p

def pins : Json.Members :=
  [("admissionFenceDigest", .str zero.text), ("rbacClosureDigest", .str zero.text),
    ("networkEnforcementDigest", .str zero.text), ("hostPreflightDigest", .str zero.text)]

def bindingRest : Json.Members :=
  [("schemaVersion", .str "planeon.internal.policy-observation-binding/v1"), ("scope", .obj scope),
    ("observer", .obj [("executableDigest", .str zero.text), ("manifestDigest", .str zero.text)]),
    ("namespace", .obj [("name", .str "lab"), ("uid", .str "uid-0")]),
    ("projections", .obj (Policy.all.map fun p => (p.name, .obj (projection p)))), ("enforcementPins", .obj pins)]

def bindingOf (d : Digest) : Json := .obj ([("profileDigest", .str d.text)] ++ bindingRest)

theorem slim_text {key : String} (hkey : Json.isPlain key = true ∧ key.length ≤ 32) (d : Digest) :
    Slim 2000 3 (key, .str d.text) :=
  (slim_digest hkey d le_rfl).mono (by decide) (by decide)

theorem message_binding [Runtime] (d : Digest) : Message observationBindingShape 65536 (bindingOf d) := by
  have hzero : observationBindingShape.Accepts (bindingOf zero) :=
    accepts_of_slim (@pinned_observationBinding .ascii) (by decide +kernel) (List.forall_mem_cons.mpr
      ⟨slim_text (Json.shortKey rfl) zero, slim_of_isSlim (by decide +kernel)⟩) (by decide) (by decide +kernel)
  have hwf : (bindingOf zero).Wf := by decide +kernel
  refine @Message.of_slim _ _ _ _ 2000 3 ?_ ?_ ?_ ?_
  · exact Json.wf_obj.mpr ⟨(Json.wf_obj.mp hwf).1, List.forall_mem_cons.mpr ⟨trivial, (List.forall_mem_cons.mp (Json.wf_obj.mp hwf).2).2⟩⟩
  · exact List.forall_mem_cons.mpr ⟨slim_text (Json.shortKey rfl) d, slim_of_isSlim (by decide +kernel)⟩
  · exact (by decide : 3 < 16 ∧ 7 ≤ maxCollectionItems ∧ 2000 ≤ maxCollectionItems ∧ 2 + 7 * (2000 + 36) ≤ 65536)
  · exact hzero.replace rfl (by simpa using ⟨_, rfl, accepts_digest d⟩)

/-- A challenge of one repeated character. -/
def challengeOf (c : Char) : String := String.ofList (List.replicate 64 c)

/-- What a request and its answer say of their place in the run. -/
structure Place where
  link : Digest
  challenge : { c : Char // c = 'a' ∨ c = 'b' }
  sequence : { n : ℕ // 1 ≤ n ∧ n ≤ 3 }

def Place.members (d : Digest) (p : Place) : Json.Members :=
  [("bindingDigest", .str d.text), ("previousObservationDigest", .str p.link.text), ("sequence", .int p.sequence.val),
    ("challenge", .str (challengeOf p.challenge.val))]

def start : Place := ⟨zero, ⟨'a', .inl rfl⟩, ⟨1, by decide⟩⟩

def requestRest : Json.Members :=
  [("runNonce", .str "run-1"), ("schemaVersion", .str "planeon.internal.policy-observation-request/v1"),
    ("operation", .str "OBSERVE_POLICY")]

def observationRest : Json.Members :=
  [("runNonce", .str "run-1"), ("schemaVersion", .str "planeon.internal.policy-observation/v1"),
    ("observerBootId", .str "00000000-0000-0000-0000-000000000000"), ("generation", .str (challengeOf '0')),
    ("observedAt", .str "2026-01-01T00:00:00Z"), ("expiresAt", .str "2026-01-01T00:00:05Z"),
    ("namespace", .obj [("name", .str "lab"), ("uid", .str "uid-0"), ("resourceVersion", .str "1")]),
    ("projections", .obj (Policy.all.map fun p => (p.name, .obj (("resourceVersion", .str "1") :: projection p)))),
    ("quota", .obj [("hard", quota 100), ("used", quota 0)]),
    ("enforcement", .obj (("policyGeneration", .str (challengeOf '0')) :: pins))]

def requestOf (d : Digest) (p : Place) : Json := .obj (p.members d ++ requestRest)

def observationOf (d : Digest) (p : Place) : Json := .obj (p.members d ++ observationRest)

theorem slim_members (d : Digest) (p : Place) : ∀ m ∈ p.members d, Slim 2000 3 m := by
  obtain ⟨link, ⟨c, hc⟩, ⟨n, hlow, hhigh⟩⟩ := p
  simp only [Place.members, List.forall_mem_cons]
  refine ⟨slim_text (Json.shortKey rfl) d, slim_text (Json.shortKey rfl) link, ?_, ?_, nofun⟩
  · exact (slim_count (Json.shortKey rfl) (hhigh.trans (by decide))).mono (by decide) (by decide)
  · have hslim : [("challenge", Json.str (challengeOf 'a')), ("challenge", .str (challengeOf 'b'))].all (isSlim 2000 3) = true := by
      decide +kernel
    rcases hc with rfl | rfl
    · exact slim_of_isSlim hslim _ (by simp)
    · exact slim_of_isSlim hslim _ (by simp)

theorem accepts_members {properties : List (String × Shape)} (h : ∀ p ∈ echoShapes, properties.lookup p.1 = some p.2) (d : Digest)
    (p : Place) : ∀ m ∈ p.members d, ∃ s, properties.lookup m.1 = some s ∧ s.Accepts m.2 := by
  obtain ⟨link, ⟨c, hc⟩, ⟨n, hlow, hhigh⟩⟩ := p
  simp only [echoShapes, List.forall_mem_cons] at h
  simp only [Place.members, List.forall_mem_cons]
  refine ⟨⟨_, h.1, accepts_digest d⟩, ⟨_, h.2.2.2.2.1, accepts_digest link⟩, ⟨_, h.2.2.2.1, n, rfl, ?_, ?_⟩, ⟨_, h.2.2.1, ?_⟩, nofun⟩
  · exact Int.ofNat_le.mpr hlow
  · exact (Int.ofNat_le.mpr hhigh).trans (by decide)
  · rcases hc with rfl | rfl
    · exact ⟨_, rfl, by decide +kernel⟩
    · exact ⟨_, rfl, by decide +kernel⟩

/-- What does not depend on the place in the run is checked once, at its start. -/
theorem message_of_start [Runtime] {properties : List (String × Shape)} {rest : Json.Members} {maximum : ℕ}
    (hwf : (Json.obj (start.members zero ++ rest)).Wf) (hslim : ∀ m ∈ rest, Slim 2000 3 m)
    (hstart : (Shape.obj properties).Accepts (.obj (start.members zero ++ rest)))
    (hsize : rest.length ≤ 10 ∧ 2 + (rest.length + 4) * (2000 + 36) ≤ maximum)
    (h : ∀ p ∈ echoShapes, properties.lookup p.1 = some p.2) (d : Digest) (p : Place) :
    Message (.obj properties) maximum (.obj (p.members d ++ rest)) := by
  obtain ⟨hnd, hmembers⟩ := Json.wf_obj.mp hwf
  have hrest : ∀ m ∈ rest, m.2.Wf := fun m hm => hmembers m (List.mem_append_right _ hm)
  have hlength : (p.members d ++ rest).length = rest.length + 4 := List.length_append.trans (Nat.add_comm _ _)
  refine @Message.of_slim _ _ _ _ 2000 3 (Json.wf_obj.mpr ⟨hnd, ?_⟩) ?_ ⟨by decide, ?_, by decide, ?_⟩ ?_
  · exact List.forall_mem_append.mpr ⟨by simp [Place.members, Json.Wf], hrest⟩
  · exact List.forall_mem_append.mpr ⟨slim_members d p, hslim⟩
  · have hsmall : 14 ≤ maxCollectionItems := by decide
    omega
  · rw [hlength]
    exact hsize.2
  · exact hstart.replace rfl (accepts_members h d p)

theorem message_request [Runtime] (d : Digest) (p : Place) : Message requestShape 16384 (requestOf d p) := by
  have hstart : requestShape.Accepts (requestOf zero start) :=
    accepts_of_slim (@pinned_request .ascii) (by decide +kernel) (List.forall_mem_append.mpr
      ⟨slim_members zero start, slim_of_isSlim (by decide +kernel)⟩) (by decide) (by decide +kernel)
  exact message_of_start (by decide +kernel) (slim_of_isSlim (by decide +kernel)) hstart (by decide) (fun p hp => Shape.lookup_of_mem (by decide) (List.mem_append_right _ hp)) d p

theorem message_observation [Runtime] (d : Digest) (p : Place) : Message observationShape 65536 (observationOf d p) := by
  have hstart : observationShape.Accepts (observationOf zero start) :=
    accepts_of_slim (@pinned_observation .ascii) (by decide +kernel) (List.forall_mem_append.mpr
      ⟨slim_members zero start, slim_of_isSlim (by decide +kernel)⟩) (by decide) (by decide +kernel)
  exact message_of_start (by decide +kernel) (slim_of_isSlim (by decide +kernel)) hstart (by decide)
    (fun p hp => Shape.lookup_of_mem (by decide) (List.mem_append_left _ (List.mem_append_right _ hp))) d p


/-! ### The run -/

section
variable [Runtime]

/-- The binding of the sample profile. -/
def binding : Json := bindingOf (digestOf profile.canon)

/-- The digest every message of the run names. -/
def named : Digest := digestOf binding.canon

def exchange (p : Place) : Exchange := ⟨.data (requestOf named p), .data (observationOf named p), .str "2026-01-01T00:00:01Z"⟩

def answer (p : Place) : Json := (observationOf named p).canon

end

/-- What a message says apart from its place in the run. -/
theorem item_back {front back : Json.Members} {k : String} (hwf : (Json.obj (front ++ back)).Wf) (hk : k ∈ Json.keys back) :
    item (Json.obj (front ++ back)).canon k = item (Json.obj back).canon k := by
  obtain ⟨v, hv⟩ := Option.isSome_iff_exists.mp (Json.lookup_isSome.mpr hk)
  obtain ⟨hnd, hmembers⟩ := Json.wf_obj.mp hwf
  have hback : (Json.obj back).Wf := Json.wf_obj.mpr
    ⟨hnd.sublist ((List.sublist_append_right front back).map Prod.fst), fun m hm => hmembers m (List.mem_append_right _ hm)⟩
  rw [item_canon hwf (Json.lookup_of_mem hnd (List.mem_append_right front (Json.lookup_mem hv))), item_canon hback hv]

section
variable [Runtime] (p : Place)

theorem item_binding {k : String} (hk : k ∈ Json.keys bindingRest) :
    item binding.canon k = item (Json.obj bindingRest).canon k :=
  item_back (message_binding _).wf hk

theorem item_answer {k : String} (hk : k ∈ Json.keys observationRest) :
    item (answer p) k = item (Json.obj observationRest).canon k :=
  item_back (message_observation named p).wf hk

/-- What a message says of its place in the run. -/
theorem item_members {rest : Json.Members} {k : String} {v : Json} (hwf : (Json.obj (p.members named ++ rest)).Wf)
    (hk : (p.members named).lookup k = some v) : item (Json.obj (p.members named ++ rest)).canon k = .ok v.canon :=
  item_canon hwf (Json.lookup_of_mem (Json.wf_obj.mp hwf).1 (List.mem_append_left _ (Json.lookup_mem hk)))

/-- The scope of the profile, as the binding repeats it. -/
def scopeDocument : Json := (Json.obj scope).canon

/-- The references of the profile, as the policy checks see them. -/
def references : List Json :=
  [SampleProfile.reference "ResourceQuota" "quota" "uid-1", SampleProfile.reference "LimitRange" "limits" "uid-2",
    SampleProfile.reference "ServiceAccount" "runner" "uid-3"].map Json.canon

/-- The checks that do not depend on the place in the run. -/
structure PlaceChecks : Prop where
  scope : requireProfileBinding binding.canon profile.canon = .ok scopeDocument
  policies : Policy.all.forM (requirePolicy binding.canon (answer p) profile.canon scopeDocument references) = .ok ()
  nameSpace : requireNamespace binding.canon (answer p) = .ok ()
  window : requireWindow (answer p) scopeDocument (.str "2026-01-01T00:00:01Z") = .ok ()
  enforcement : requireEnforcement binding.canon (answer p) = .ok ()
  headroom : requireHeadroom profile.canon (answer p) = .ok ()

theorem checks : PlaceChecks p := by
  refine ⟨?_, forM_eq_ok.mpr ?_, ?_, ?_, ?_, ?_⟩
  · have hdigest : item binding.canon "profileDigest" = .ok (.str (digestOf profile.canon).text) :=
      item_canon (v := binding) (w := .str (digestOf profile.canon).text) (message_binding _).wf rfl
    have hcanonical : canonicalDigest profile.canon none = .ok (digestOf profile.canon) :=
      canonicalDigest_none.mpr ⟨validAt_canon.mpr SampleProfile.valid, rfl⟩
    simp only [requireProfileBinding, hdigest, hcanonical, ok_bind, item_binding (k := "scope") (by decide),
      item_binding (k := "namespace") (by decide)]
    decide +kernel
  · simp only [requirePolicy, item_binding (k := "projections") (by decide), item_answer p (k := "projections") (by decide)]
    decide +kernel
  · simp only [requireNamespace, item_binding (k := "namespace") (by decide), item_answer p (k := "namespace") (by decide)]
    decide +kernel
  · simp only [requireWindow, item_answer p (k := "observedAt") (by decide), item_answer p (k := "expiresAt") (by decide)]
    decide +kernel
  · simp only [requireEnforcement, item_binding (k := "enforcementPins") (by decide), item_answer p (k := "enforcement") (by decide),
      item_answer p (k := "generation") (by decide)]
    decide +kernel
  · simp only [requireHeadroom, item_answer p (k := "quota") (by decide)]
    decide +kernel

/-- The members a message shares with its request, and what they hold. -/
theorem item_place {rest : Json.Members} (hwf : (Json.obj (p.members named ++ rest)).Wf) :
    item (Json.obj (p.members named ++ rest)).canon "bindingDigest" = .ok (.str named.text) ∧
    item (Json.obj (p.members named ++ rest)).canon "previousObservationDigest" = .ok (.str p.link.text) ∧
    item (Json.obj (p.members named ++ rest)).canon "sequence" = .ok (.int p.sequence.val) ∧
    item (Json.obj (p.members named ++ rest)).canon "challenge" = .ok (.str (challengeOf p.challenge.val)) :=
  ⟨item_members p hwf (v := .str named.text) rfl, item_members p hwf (v := .str p.link.text) rfl,
    item_members p hwf (v := .int p.sequence.val) rfl, item_members p hwf (v := .str (challengeOf p.challenge.val)) rfl⟩

theorem run_nonce {rest : Json.Members} (hwf : (Json.obj (p.members named ++ rest)).Wf) (hmem : ("runNonce", .str "run-1") ∈ rest) :
    item (Json.obj (p.members named ++ rest)).canon "runNonce" = .ok (.str "run-1") :=
  item_canon (w := .str "run-1") hwf (Json.lookup_of_mem (Json.wf_obj.mp hwf).1 (List.mem_append_right _ hmem))

theorem echo : requireEcho binding.canon (requestOf named p).canon (answer p) scopeDocument = .ok () := by
  have hrequest := (message_request named p).wf
  have hanswer := (message_observation named p).wf
  obtain ⟨rd, rl, rs, rc⟩ := item_place p hrequest
  obtain ⟨od, ol, os, oc⟩ := item_place p hanswer
  have rr := run_nonce p hrequest List.mem_cons_self
  have or := run_nonce p hanswer List.mem_cons_self
  have hscope : item scopeDocument "runNonce" = .ok (.str "run-1") := by decide +kernel
  have hdigest : canonicalDigest binding.canon none = .ok named :=
    canonicalDigest_none.mpr ⟨(message_binding _).canon.valid, rfl⟩
  simp only [requestOf, answer, observationOf, requireEcho, rd, hdigest, rr, hscope, ok_bind]
  refine bind_eq_ok.mpr ⟨(), require_eq_ok.mpr ⟨trivial, trivial⟩, forM_eq_ok.mpr ?_⟩
  simp only [echoed, List.forall_mem_cons, rd, rl, rs, rc, rr, od, ol, os, oc, or, ok_bind, require_eq_ok, true_and]
  exact List.forall_mem_nil _

theorem initial : requireChain (requestOf named start).canon (answer start) none = .ok () := by
  obtain ⟨-, rl, rs, -⟩ := item_place start (message_request named start).wf
  simp only [requestOf, requireChain, rs, rl, ok_bind]
  exact require_eq_ok.mpr ⟨rfl, rfl⟩

/-- A place after another one. -/
structure Follows (p p' : Place) : Prop where
  link : p'.link = digestOf (answer p)
  sequence : p'.sequence.val = p.sequence.val + 1
  challenge : challengeOf p'.challenge.val ≠ challengeOf p.challenge.val

theorem successor {p p' : Place} (h : Follows p p') :
    requireChain (requestOf named p').canon (answer p') (some (.data (answer p))) = .ok () := by
  have hmessage := (message_observation named p).canon
  have hdocument : observationDocument (.data (answer p)) observationShape 65536 = .ok (answer p).canon :=
    hmessage.document pinned_observation (by decide)
  obtain ⟨rd, rl, rs, rc⟩ := item_place p' (message_request named p').wf
  obtain ⟨pd, -, ps, pc⟩ := item_place p (message_observation named p).wf
  have rr := run_nonce p' (message_request named p').wf List.mem_cons_self
  have pr := run_nonce p (message_observation named p).wf List.mem_cons_self
  have hrest {k : String} {v : Json} (hk : k ∈ Json.keys observationRest) (q : Place)
      (hv : item (Json.obj observationRest).canon k = .ok v) : item (answer q) k = .ok v := (item_answer q hk).trans hv
  have hboot : item (Json.obj observationRest).canon "observerBootId" = .ok (.str "00000000-0000-0000-0000-000000000000") := by
    decide +kernel
  have hgeneration : item (Json.obj observationRest).canon "generation" = .ok (.str (challengeOf '0')) := by decide +kernel
  have hobserved : item (Json.obj observationRest).canon "observedAt" = .ok (.str "2026-01-01T00:00:00Z") := by decide +kernel
  have htime : time (.str "2026-01-01T00:00:00Z") = .ok 63902822400000000 := by decide +kernel
  simp only [requireChain, hdocument, requireSuccessor, ok_bind, bind_eq_ok, intItem_eq_ok, canonicalDigest_none, require_eq_ok]
  refine ⟨_, pd, _, rd, _, pr, _, rr, _, rs, _, item_eq_ok.mp ps, _, rl, _, ⟨hmessage.valid, rfl⟩, (), ⟨rfl, rfl, ?_, ?_⟩, ?_⟩
  · rw [h.sequence]
    rfl
  · rw [h.link]
  · refine ⟨_, hrest (by decide) p' hboot, _, hrest (by decide) p hboot, _, hrest (by decide) p' hgeneration, _,
      hrest (by decide) p hgeneration, _, rc, _, pc, (), ⟨rfl, rfl, ?_⟩, _, hrest (by decide) p hobserved, _, htime, _,
      hrest (by decide) p' hobserved, _, htime, le_rfl⟩
    exact fun heq => h.challenge (Json.str.inj heq)

/-- A message at its place is accepted, whatever the places before. -/
theorem accepted {previous : Option Input} (hprofile : validateProfile (.data profile) = .ok profile.canon)
    (hchain : requireChain (requestOf named p).canon (answer p) previous = .ok ()) :
    validateMessages (.data binding) (exchange p).request (exchange p).observation (.data profile) (exchange p).now previous =
      .ok (answer p) := by
  have hbinding := (message_binding (digestOf profile.canon)).document pinned_observationBinding (by decide)
  have hrequest := (message_request named p).document pinned_request (by decide)
  have hanswer := (message_observation named p).document pinned_observation (by decide)
  have hentries : (item profile.canon "capacityEntries" >>= fun e => item e "preexistingResourceRefs" >>= iterate) =
      .ok references := by decide +kernel
  simp only [bind_eq_ok] at hentries
  obtain ⟨entries, hentries, rows, hrows, hreferences⟩ := hentries
  simp only [validateMessages, requireMessages, bind_eq_ok, pure_eq_ok]
  exact ⟨_, hbinding, _, hrequest, _, hanswer, _, hprofile, (), ⟨_, (checks p).scope, entries, hentries, rows, hrows, _, hreferences,
    (), (checks p).policies, (), (checks p).nameSpace, (), echo p, (), hchain, (), (checks p).window, (), (checks p).enforcement,
    (checks p).headroom⟩, rfl⟩

/-- The second place names the first answer, with another challenge. -/
def second : Place := ⟨digestOf (answer start), ⟨'b', .inr rfl⟩, ⟨2, by decide⟩⟩

/-- The third place repeats the challenge of the first. -/
def third : Place := ⟨digestOf (answer second), ⟨'a', .inl rfl⟩, ⟨3, by decide⟩⟩

theorem follows_second : Follows start second := ⟨rfl, rfl, (by decide : challengeOf 'b' ≠ challengeOf 'a')⟩

theorem follows_third : Follows second third := ⟨rfl, rfl, (by decide : challengeOf 'a' ≠ challengeOf 'b')⟩

theorem run (hprofile : validateProfile (.data profile) = .ok profile.canon) :
    observeAll (.data binding) (.data profile) [exchange start, exchange second, exchange third] =
      .ok [answer start, answer second, answer third] := by
  have h1 := accepted start hprofile initial
  have h2 := accepted second hprofile (successor follows_second)
  have h3 := accepted third hprofile (successor follows_third)
  refine foldlM_cons_eq_ok.mpr ⟨[answer start], bind_eq_ok.mpr ⟨_, h1, rfl⟩, ?_⟩
  refine foldlM_cons_eq_ok.mpr ⟨[answer start, answer second], bind_eq_ok.mpr ⟨_, h2, rfl⟩, ?_⟩
  exact foldlM_cons_eq_ok.mpr ⟨_, bind_eq_ok.mpr ⟨_, h3, rfl⟩, rfl⟩

end

end ObserverSample

open ObserverSample in
/-- The sample run is a chain of three answers. -/
theorem observation_chain_sample : ∃ xs os, @observeAll .ascii (.data (@binding .ascii)) (.data SampleProfile.profile) xs = .ok os ∧
    @ObservationChain .ascii (.data SampleProfile.profile) xs os ∧ os.length = 3 := by
  let _ := Runtime.ascii
  exact ⟨_, _, run SampleProfile.accepted, (observation_chain (run SampleProfile.accepted)).1, rfl⟩

open ObserverSample in
/-- A run that is accepted although its third challenge is its first. -/
theorem challenge_reused : ∃ xs os, @observeAll .ascii (.data (@binding .ascii)) (.data SampleProfile.profile) xs = .ok os ∧
    ¬ (os.map fun o => o.get? "challenge").Nodup := by
  let _ := Runtime.ascii
  refine ⟨_, _, run SampleProfile.accepted, ?_⟩
  have hfirst := item_eq_ok.mp (item_place start (message_observation named start).wf).2.2.2
  have hthird := item_eq_ok.mp (item_place third (message_observation named third).wf).2.2.2
  have hsame : (answer third).get? "challenge" = (answer start).get? "challenge" := hthird.trans hfirst.symm
  simp [hsame]

open ObserverSample in
theorem consecutive_challenges_sample : ∃ xs os,
    @observeAll .ascii (.data (@binding .ascii)) (.data SampleProfile.profile) xs = .ok os ∧ os.length = 3 ∧ os.Nodup := by
  let _ := Runtime.ascii
  exact ⟨_, _, run SampleProfile.accepted, rfl, (consecutive_challenges (run SampleProfile.accepted)).2⟩

end HarnessConformance.Admission
