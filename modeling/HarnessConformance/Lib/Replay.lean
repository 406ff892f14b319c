import HarnessConformance.Lib.Outcome

/-! # Guarded replay

A machine admits an item in a state or refuses it, and pushes the admitted ones. A replay is a run
of admitted items; a fold of fallible steps over spelled items is a replay of what they spell. -/

namespace HarnessConformance.Lib
open Outcome
set_option autoImplicit false

variable {σ α ε τ : Type}

theorem length_le_one {l : List α} (h : l.Pairwise fun _ _ => False) : l.length ≤ 1 := by
  match l, h with
  | [], _ => simp
  | [_], _ => simp
  | _ :: y :: _, h => exact ((List.pairwise_cons.mp h).1 y (by simp)).elim

structure Machine (σ α : Type) where
  admits : σ → α → Prop
  push : σ → α → σ

namespace Machine
variable (M : Machine σ α)

/-- Every item is admitted in the state its predecessors left; the last state is `t`. -/
def Replays : σ → List α → σ → Prop
  | s, [], t => t = s
  | s, a :: items, t => M.admits s a ∧ Replays (M.push s a) items t

variable {M} {s t u : σ} {a : α} {items more : List α}

@[simp] theorem replays_nil : M.Replays s [] t ↔ t = s := Iff.rfl

theorem replays_cons : M.Replays s (a :: items) t ↔ M.admits s a ∧ M.Replays (M.push s a) items t := Iff.rfl

theorem replays_append : M.Replays s (items ++ more) u ↔ ∃ t, M.Replays s items t ∧ M.Replays t more u := by
  induction items generalizing s with
  | nil => simp
  | cons a items ih => simp only [List.cons_append, replays_cons, ih, and_assoc, exists_and_left]

theorem replays_snoc : M.Replays s (items ++ [a]) u ↔ ∃ t, M.Replays s items t ∧ M.admits t a ∧ u = M.push t a := by
  simp only [replays_append, replays_cons, replays_nil]

/-- The items determine the state. -/
theorem Replays.unique (h : M.Replays s items t) (h' : M.Replays s items u) : t = u := by
  induction items generalizing s with
  | nil =>
    rw [replays_nil] at h h'
    rw [h, h']
  | cons a items ih => exact ih h.2 h'.2

/-- What holds at the start and is kept by every admitted push holds of every replay, as a
relation between the items so far and the state. -/
theorem Replays.induction (Inv : List α → σ → Prop) (h : M.Replays s items t) (hnil : Inv [] s)
    (hpush : ∀ past u a, M.Replays s past u → Inv past u → M.admits u a → Inv (past ++ [a]) (M.push u a)) :
    Inv items t := by
  induction items using List.reverseRecOn generalizing t with
  | nil =>
    rw [replays_nil] at h
    exact h ▸ hnil
  | append_singleton items a ih =>
    obtain ⟨u, hu, ha, rfl⟩ := replays_snoc.mp h
    exact hpush items u a hu (ih hu) ha

/-- A fold whose steps read one spelled item each is a replay of the items. -/
theorem foldlM_replays {step : σ → τ → Except ε σ} {spells : τ → α → Prop}
    (hstep : ∀ s t x, step s x = .ok t → ∃ a, spells x a ∧ M.admits s a ∧ t = M.push s a) {xs : List τ}
    (h : xs.foldlM step s = .ok t) : ∃ items, List.Forall₂ spells xs items ∧ M.Replays s items t := by
  induction xs generalizing s with
  | nil => exact ⟨[], .nil, (pure_eq_ok.mp h).symm⟩
  | cons x xs ih =>
    obtain ⟨u, hu, h⟩ := foldlM_cons_eq_ok.mp h
    obtain ⟨a, hspells, hadmits, rfl⟩ := hstep s u x hu
    obtain ⟨items, hitems, hreplays⟩ := ih h
    exact ⟨a :: items, .cons hspells hitems, hadmits, hreplays⟩

/-- Where a step takes every admitted item it reads, the fold takes every replay. -/
theorem foldlM_eq_ok {step : σ → τ → Except ε σ} {spells : τ → α → Prop}
    (hstep : ∀ s t x, step s x = .ok t ↔ ∃ a, spells x a ∧ M.admits s a ∧ t = M.push s a) {xs : List τ} :
    xs.foldlM step s = .ok t ↔ ∃ items, List.Forall₂ spells xs items ∧ M.Replays s items t := by
  refine ⟨foldlM_replays fun s t x => (hstep s t x).mp, ?_⟩
  rintro ⟨items, hitems, hreplays⟩
  induction hitems generalizing s with
  | nil =>
    rw [List.foldlM_nil, pure_eq_ok]
    exact hreplays.symm
  | cons hspells _ ih =>
    rw [foldlM_cons_eq_ok]
    exact ⟨_, (hstep s _ _).mpr ⟨_, hspells, hreplays.1, rfl⟩, ih hreplays.2⟩

/-! ## One key at a time -/

/-- A machine seen through one key at a time: an item moves the view of its own key, by the steps
of the machine `K`, and no other view. -/
structure Projects {κ σ' : Type} (M : Machine σ α) (K : Machine σ' α) (key : α → κ) (view : σ → κ → σ') : Prop where
  admits : ∀ {s a}, M.admits s a → K.admits (view s (key a)) a
  push : ∀ s a, view (M.push s a) (key a) = K.push (view s (key a)) a
  push_ne : ∀ s a k, k ≠ key a → view (M.push s a) k = view s k

/-- The items of one key are a replay of the machine of that key. -/
theorem Projects.replays {κ σ' : Type} [DecidableEq κ] {K : Machine σ' α} {key : α → κ} {view : σ → κ → σ'}
    (hp : Projects M K key view) (h : M.Replays s items t) (k : κ) :
    K.Replays (view s k) (items.filter fun a => key a = k) (view t k) := by
  induction items generalizing s with
  | nil =>
    rw [replays_nil] at h
    rw [h]
    rfl
  | cons a items ih =>
    obtain ⟨hadmits, hrest⟩ := h
    have hnext := ih hrest
    by_cases hk : key a = k
    · subst hk
      rw [List.filter_cons_of_pos (by simp)]
      rw [hp.push] at hnext
      exact ⟨hp.admits hadmits, hnext⟩
    · rw [List.filter_cons_of_neg (by simpa using hk)]
      rw [hp.push_ne s a k (Ne.symm hk)] at hnext
      exact hnext

end Machine
end HarnessConformance.Lib
