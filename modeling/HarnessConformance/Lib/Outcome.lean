import Mathlib

/-! # Fallible steps and the runs built from them

Inversion of `Except` computations and the two induction rules for a left fold of fallible
steps: what every step preserves, every accepted fold preserves (`foldlM_invariant`), and a fold
over an extended list is a fold followed by one more step (`foldlM_snoc`). -/

namespace HarnessConformance.Lib.Outcome
set_option autoImplicit false

variable {ε α β σ : Type}

/-! ## Inversion -/

theorem bind_eq_ok {x : Except ε α} {f : α → Except ε β} {b : β} :
    (x >>= f) = .ok b ↔ ∃ a, x = .ok a ∧ f a = .ok b := by
  cases x with
  | error e => simp [bind, Except.bind]
  | ok a => simp [bind, Except.bind]

theorem ok_bind {a : α} {f : α → Except ε β} : ((.ok a : Except ε α) >>= f) = f a := rfl

theorem pure_eq_ok {a b : α} : (pure a : Except ε α) = .ok b ↔ a = b := by
  simp [pure, Except.pure]

/-- A named guard: nothing when `p` holds, the error otherwise. -/
def guardWith (e : ε) (p : Prop) [Decidable p] : Except ε Unit :=
  if p then .ok () else .error e

@[simp] theorem guardWith_eq_ok {e : ε} {p : Prop} [Decidable p] {u : Unit} :
    guardWith e p = .ok u ↔ p := by
  unfold guardWith
  split <;> simp_all

theorem guardWith_of {e : ε} {p : Prop} [Decidable p] (h : p) : guardWith e p = .ok () :=
  guardWith_eq_ok.mpr h

/-- Either outcome, told apart by whether some value is returned. -/
theorem ok_or_error (x : Except ε α) : (∃ a, x = .ok a) ∨ ∃ e, x = .error e := by
  cases x with
  | error e => exact .inr ⟨e, rfl⟩
  | ok a => exact .inl ⟨a, rfl⟩

theorem not_ok_iff_error {x : Except ε α} : (¬ ∃ a, x = .ok a) ↔ ∃ e, x = .error e := by
  cases x with
  | error e => simp
  | ok a => simp

/-! ## Loops -/

theorem forM_eq_ok {f : α → Except ε Unit} {xs : List α} :
    xs.forM f = .ok () ↔ ∀ x ∈ xs, f x = .ok () := by
  induction xs with
  | nil => simp [pure, Except.pure]
  | cons x xs ih =>
    rw [List.forM_eq_forM] at ih ⊢
    have hstep : forM (x :: xs) f = .ok () ↔ f x = .ok () ∧ forM xs f = .ok () := by
      simp only [List.forM_cons, bind_eq_ok, exists_and_right]
      exact ⟨fun ⟨⟨_, hx⟩, hxs⟩ => ⟨hx, hxs⟩, fun ⟨hx, hxs⟩ => ⟨⟨_, hx⟩, hxs⟩⟩
    rw [hstep, ih, List.forall_mem_cons]

theorem mapM_eq_ok {f : α → Except ε β} {xs : List α} {ys : List β} :
    xs.mapM f = .ok ys ↔ List.Forall₂ (fun x y => f x = .ok y) xs ys := by
  induction xs generalizing ys with
  | nil => simp [pure, Except.pure, eq_comm]
  | cons x xs ih =>
    simp only [List.mapM_cons, bind_eq_ok, pure_eq_ok]
    constructor
    · rintro ⟨y, hy, ys', hys, rfl⟩
      exact .cons hy (ih.mp hys)
    · rintro (_ | ⟨hy, hys⟩)
      exact ⟨_, hy, _, ih.mpr hys, rfl⟩

theorem forall₂_mem_left {R : α → β → Prop} {xs : List α} {ys : List β} (h : List.Forall₂ R xs ys) {x : α} (hx : x ∈ xs) :
    ∃ y ∈ ys, R x y := by
  induction h with
  | nil => cases hx
  | @cons a b as bs hab _ ih =>
    rcases List.mem_cons.mp hx with rfl | hx
    · exact ⟨b, List.mem_cons_self, hab⟩
    · obtain ⟨y, hy, hxy⟩ := ih hx
      exact ⟨y, List.mem_cons_of_mem _ hy, hxy⟩

theorem forall₂_mem_right {R : α → β → Prop} {xs : List α} {ys : List β} (h : List.Forall₂ R xs ys) {y : β} (hy : y ∈ ys) :
    ∃ x ∈ xs, R x y :=
  forall₂_mem_left h.flip hy

theorem forall₂_getElem? {R : α → β → Prop} {xs : List α} {ys : List β} (h : List.Forall₂ R xs ys) {i : ℕ} {x : α}
    (hi : xs[i]? = some x) : ∃ y, ys[i]? = some y ∧ R x y := by
  obtain ⟨hlt, rfl⟩ := List.getElem?_eq_some_iff.mp hi
  have hlt' : i < ys.length := h.length_eq ▸ hlt
  exact ⟨ys[i], List.getElem?_eq_getElem hlt', h.get hlt hlt'⟩

theorem forall₂_of_mem_left {R : α → β → Prop} {xs : List α} (h : ∀ x ∈ xs, ∃ y, R x y) : ∃ ys, List.Forall₂ R xs ys := by
  induction xs with
  | nil => exact ⟨[], .nil⟩
  | cons x xs ih =>
    rw [List.forall_mem_cons] at h
    obtain ⟨y, hy⟩ := h.1
    obtain ⟨ys, hys⟩ := ih h.2
    exact ⟨y :: ys, .cons hy hys⟩

theorem foldlM_cons_eq_ok {f : σ → α → Except ε σ} {s t : σ} {x : α} {xs : List α} :
    (x :: xs).foldlM f s = .ok t ↔ ∃ u, f s x = .ok u ∧ xs.foldlM f u = .ok t := by
  rw [List.foldlM_cons, bind_eq_ok]

theorem foldlM_append_eq_ok {f : σ → α → Except ε σ} {s t : σ} {xs ys : List α} :
    (xs ++ ys).foldlM f s = .ok t ↔ ∃ u, xs.foldlM f s = .ok u ∧ ys.foldlM f u = .ok t := by
  rw [List.foldlM_append, bind_eq_ok]

theorem foldlM_snoc {f : σ → α → Except ε σ} {s t : σ} {xs : List α} {x : α} :
    (xs ++ [x]).foldlM f s = .ok t ↔ ∃ u, xs.foldlM f s = .ok u ∧ f u x = .ok t := by
  simp only [foldlM_append_eq_ok, foldlM_cons_eq_ok, List.foldlM_nil, pure_eq_ok, exists_eq_right]

/-- Every item of an accepted fold was accepted by its step. -/
theorem foldlM_mem {f : σ → α → Except ε σ} {s t : σ} {xs : List α} (h : xs.foldlM f s = .ok t) {x : α} (hx : x ∈ xs) :
    ∃ u v, f u x = .ok v := by
  obtain ⟨before, after, rfl⟩ := List.append_of_mem hx
  obtain ⟨u, -, hrest⟩ := foldlM_append_eq_ok.mp h
  obtain ⟨v, hv, -⟩ := foldlM_cons_eq_ok.mp hrest
  exact ⟨u, v, hv⟩

/-- What every accepted step keeps, every accepted fold keeps. -/
theorem foldlM_invariant {f : σ → α → Except ε σ} (Inv : σ → Prop)
    (hstep : ∀ s x t, Inv s → f s x = .ok t → Inv t) {s t : σ} {xs : List α}
    (hs : Inv s) (h : xs.foldlM f s = .ok t) : Inv t := by
  induction xs generalizing s with
  | nil =>
    rw [List.foldlM_nil, pure_eq_ok] at h
    exact h ▸ hs
  | cons x xs ih =>
    obtain ⟨u, hu, hrest⟩ := foldlM_cons_eq_ok.mp h
    exact ih (hstep s x u hs hu) hrest

/-- The same with a history: the invariant relates the state to the items consumed so far. -/
theorem foldlM_history {f : σ → α → Except ε σ} (Inv : List α → σ → Prop) {s₀ : σ} (h0 : Inv [] s₀)
    (hstep : ∀ past s x t, Inv past s → f s x = .ok t → Inv (past ++ [x]) t) {t : σ} {xs : List α}
    (h : xs.foldlM f s₀ = .ok t) : Inv xs t := by
  induction xs using List.reverseRecOn generalizing t with
  | nil =>
    rw [List.foldlM_nil, pure_eq_ok] at h
    exact h ▸ h0
  | append_singleton xs x ih =>
    obtain ⟨u, hu, hx⟩ := foldlM_snoc.mp h
    exact hstep xs u x t (ih hu) hx

/-- A loop that gathers keys and refuses one it has seen. -/
theorem foldlM_distinct {κ : Type} {f : List κ → α → Except ε (List κ)} {R : α → β → Prop} {P : β → Prop} {key : β → κ}
    (hf : ∀ {a b}, R a b → ∀ seen after, f seen a = .ok after ↔ P b ∧ key b ∉ seen ∧ after = key b :: seen)
    {xs : List α} {ys : List β} (h : List.Forall₂ R xs ys) {seen after : List κ} : xs.foldlM f seen = .ok after ↔
      (∀ y ∈ ys, P y) ∧ (ys.map key).Nodup ∧ (∀ y ∈ ys, key y ∉ seen) ∧ after = (ys.map key).reverse ++ seen := by
  induction h generalizing seen with
  | nil =>
    rw [List.foldlM_nil, pure_eq_ok, eq_comm]
    simp
  | @cons x y xs ys hxy _ ih =>
    rw [foldlM_cons_eq_ok]
    simp only [hf hxy, ih, List.forall_mem_cons, List.map_cons, List.nodup_cons, List.mem_map, not_exists, not_and,
      List.reverse_cons, List.append_assoc, List.singleton_append]
    constructor
    · rintro ⟨_, ⟨hp, hnew, rfl⟩, hall, hnd, hfresh, rfl⟩
      exact ⟨⟨hp, hall⟩, ⟨fun z hz heq => hfresh z hz (heq ▸ List.mem_cons_self), hnd⟩,
        ⟨hnew, fun z hz hmem => hfresh z hz (List.mem_cons_of_mem _ hmem)⟩, rfl⟩
    · rintro ⟨⟨hp, hall⟩, ⟨hne, hnd⟩, ⟨hnew, hfresh⟩, rfl⟩
      refine ⟨_, ⟨hp, hnew, rfl⟩, hall, hnd, fun z hz hmem => ?_, rfl⟩
      rcases List.mem_cons.mp hmem with heq | hmem
      · exact hne z hz heq
      · exact hfresh z hz hmem

end HarnessConformance.Lib.Outcome
