import Mathlib

/-! # Splitting at a separator

`cut` splits a list at the first place where a separator stands, `split` at every such place. The
first place does not depend on what follows it (`cut_append`, `cut_take`). -/

namespace HarnessConformance.Lib.Splitting
set_option autoImplicit false

instance lawfulChars : LawfulBEq (List Char) := inferInstance

variable {α : Type} [DecidableEq α] {sep s t : List α} {a : α}

/-- What stands before and after the first separator. -/
def cut (sep : List α) : List α → Option (List α × List α)
  | [] => if sep = [] then some ([], []) else none
  | x :: xs =>
    if sep <+: x :: xs then some ([], (x :: xs).drop sep.length) else (cut sep xs).map fun p => (x :: p.1, p.2)

theorem cut_leading (h : sep <+: s) : cut sep s = some ([], s.drop sep.length) := by
  cases s with
  | nil =>
    obtain rfl := List.prefix_nil.mp h
    rfl
  | cons x xs => rw [cut, if_pos h]

theorem cut_cons {x : α} {xs : List α} (h : ¬ sep <+: x :: xs) :
    cut sep (x :: xs) = (cut sep xs).map fun p => (x :: p.1, p.2) := by
  rw [cut, if_neg h]

theorem cut_cons_eq_some {x : α} {xs before after : List α} (h : ¬ sep <+: x :: xs) :
    cut sep (x :: xs) = some (before, after) ↔ ∃ rest, cut sep xs = some (rest, after) ∧ before = x :: rest := by
  rw [cut_cons h, Option.map_eq_some_iff]
  constructor
  · rintro ⟨⟨rest, _⟩, hrest, heq⟩
    obtain ⟨rfl, rfl⟩ := Prod.mk.inj heq
    exact ⟨rest, hrest, rfl⟩
  · rintro ⟨rest, hrest, rfl⟩
    exact ⟨(rest, after), hrest, rfl⟩

theorem cut_eq {before after : List α} (h : cut sep s = some (before, after)) : s = before ++ sep ++ after := by
  induction s generalizing before with
  | nil =>
    rw [cut] at h
    split at h
    · obtain ⟨rfl, rfl⟩ := Prod.mk.inj (Option.some.inj h)
      subst_vars
      rfl
    · cases h
  | cons x xs ih =>
    by_cases hsep : sep <+: x :: xs
    · rw [cut_leading hsep] at h
      obtain ⟨rfl, rfl⟩ := Prod.mk.inj (Option.some.inj h)
      exact (List.prefix_append_drop hsep)
    · obtain ⟨rest, hrest, rfl⟩ := (cut_cons_eq_some hsep).mp h
      rw [ih hrest]
      rfl

/-- No separator stands before the first. -/
theorem length_le_of_cut {before after u v : List α} (h : cut sep s = some (before, after)) (hs : s = u ++ sep ++ v) :
    before.length ≤ u.length := by
  induction s generalizing before u with
  | nil =>
    have hnil := cut_eq h
    obtain ⟨rfl, -⟩ : before = [] ∧ _ := by simpa using hnil.symm
    exact Nat.zero_le _
  | cons x xs ih =>
    by_cases hsep : sep <+: x :: xs
    · rw [cut_leading hsep] at h
      obtain ⟨rfl, -⟩ := Prod.mk.inj (Option.some.inj h)
      exact Nat.zero_le _
    · obtain ⟨rest, hrest, rfl⟩ := (cut_cons_eq_some hsep).mp h
      cases u with
      | nil => exact absurd (hs ▸ List.append_assoc [] sep v ▸ List.prefix_append sep v) hsep
      | cons y u => exact Nat.succ_le_succ (ih hrest (List.cons.inj hs).2)

/-- What stands before and after the last separator. -/
def cutLast (sep s : List α) : Option (List α × List α) :=
  (cut sep.reverse s.reverse).map fun p => (p.2.reverse, p.1.reverse)

theorem cutLast_eq {before after : List α} (h : cutLast sep s = some (before, after)) : s = before ++ sep ++ after := by
  obtain ⟨⟨x, y⟩, hcut, heq⟩ := Option.map_eq_some_iff.mp h
  obtain ⟨rfl, rfl⟩ := Prod.mk.inj heq
  have hs := congrArg List.reverse (cut_eq hcut)
  simpa using hs

/-- Behind the last separator stands a part of what stands behind any other. -/
theorem cutLast_append {u v before after : List α} (h : cutLast sep (u ++ sep ++ v) = some (before, after)) :
    ∃ w, v = w ++ after ∧ u ++ sep ++ w = before ++ sep := by
  obtain ⟨⟨x, y⟩, hcut, heq⟩ := Option.map_eq_some_iff.mp h
  obtain ⟨rfl, rfl⟩ := Prod.mk.inj heq
  have hlength := @length_le_of_cut α _ _ _ _ _ v.reverse u.reverse hcut (by simp)
  have hwhole := cutLast_eq h
  rw [List.length_reverse] at hlength
  obtain ⟨w, hw⟩ : x.reverse <:+ v := by
    refine List.suffix_of_suffix_length_le ?_ (List.suffix_append (u ++ sep) v) (by rwa [List.length_reverse])
    rw [hwhole]
    exact List.suffix_append _ _
  refine ⟨w, hw.symm, ?_⟩
  rw [← hw, ← List.append_assoc] at hwhole
  exact List.append_cancel_right hwhole

/-! ## What follows the separator -/

theorem cut_append {before after : List α} (h : cut sep s = some (before, after)) (t : List α) :
    cut sep (s ++ t) = some (before, after ++ t) := by
  induction s generalizing before with
  | nil =>
    have hnil := cut_eq h
    obtain ⟨rfl, rfl, rfl⟩ : before = [] ∧ sep = [] ∧ after = [] := by simpa using hnil.symm
    exact cut_leading List.nil_prefix
  | cons x xs ih =>
    by_cases hsep : sep <+: x :: xs
    · rw [cut_leading hsep] at h
      obtain ⟨rfl, rfl⟩ := Prod.mk.inj (Option.some.inj h)
      rw [cut_leading (hsep.trans (List.prefix_append _ _)), List.drop_append_of_le_length hsep.length_le]
    · obtain ⟨rest, hrest, rfl⟩ := (cut_cons_eq_some hsep).mp h
      have hlength := congrArg List.length (cut_eq hrest)
      have hlong : ¬ sep <+: x :: (xs ++ t) := fun hp =>
        hsep (List.prefix_of_prefix_length_le hp (List.prefix_append (x :: xs) t) (by simp at hlength ⊢; omega))
      exact (cut_cons_eq_some hlong).mpr ⟨rest, ih hrest, rfl⟩

/-- A separator found with something after it is found without. -/
theorem cut_self {before after : List α} (h : cut sep (before ++ sep ++ after) = some (before, after)) :
    cut sep (before ++ sep) = some (before, []) := by
  induction before with
  | nil =>
    have hsep : sep <+: [] ++ sep := List.prefix_rfl
    rw [cut_leading hsep, List.nil_append, List.drop_length]
  | cons x xs ih =>
    rw [List.cons_append, List.cons_append] at h
    rw [List.cons_append]
    have hsep : ¬ sep <+: x :: (xs ++ sep ++ after) := by
      intro hsep
      rw [cut_leading hsep] at h
      cases (Prod.mk.inj (Option.some.inj h)).1
    obtain ⟨rest, hrest, heq⟩ := (cut_cons_eq_some hsep).mp h
    obtain rfl := (List.cons.inj heq).2
    have hshort : ¬ sep <+: x :: (xs ++ sep) := fun hp => hsep (hp.trans (List.prefix_append (x :: (xs ++ sep)) after))
    exact (cut_cons_eq_some hshort).mpr ⟨xs, ih hrest, rfl⟩

theorem cut_take {before after : List α} (h : cut sep s = some (before, after)) {n : ℕ}
    (hn : before.length + sep.length ≤ n) : ∃ rest, cut sep (s.take n) = some (before, rest) := by
  obtain rfl := cut_eq h
  have hlength : (before ++ sep).length ≤ n := by rwa [List.length_append]
  rw [List.take_append, List.take_of_length_le hlength]
  exact ⟨_, cut_append (cut_self h) _⟩

/-! ## Separators with a mark -/

/-- A stretch without the separator's first item is passed over. -/
theorem cut_skip {u : List α} (hu : a ∉ u) (s : List α) :
    cut (a :: sep) (u ++ s) = (cut (a :: sep) s).map fun p => (u ++ p.1, p.2) := by
  induction u with
  | nil => simp
  | cons x u ih =>
    rw [List.mem_cons, not_or] at hu
    have hsep : ¬ a :: sep <+: x :: (u ++ s) := fun hp => hu.1 (List.cons_prefix_cons.mp hp).1
    rw [List.cons_append, cut_cons hsep, ih hu.2, Option.map_map]
    rfl

theorem cut_mark {u : List α} (hu : a ∉ u) (t : List α) : cut (a :: sep) (u ++ (a :: sep ++ t)) = some (u, t) := by
  rw [cut_skip hu, cut_leading (List.prefix_append _ _), List.drop_left, Option.map_some, List.append_nil]

theorem cut_none (hs : a ∉ s) : cut (a :: sep) s = none := by
  have hskip := @cut_skip α _ sep a s hs []
  rwa [List.append_nil, cut, if_neg (List.cons_ne_nil a sep)] at hskip

theorem not_mem_of_cut_none (h : cut [a] s = none) : a ∉ s := by
  intro hmem
  obtain ⟨u, v, rfl, hu⟩ := List.eq_append_cons_of_mem hmem
  have hfound := @cut_mark α _ [] a u hu v
  rw [List.singleton_append, h] at hfound
  cases hfound

theorem not_mem_of_cut {before after : List α} (h : cut [a] s = some (before, after)) : a ∉ before := by
  intro hmem
  obtain ⟨u, v, rfl, -⟩ := List.eq_append_cons_of_mem hmem
  have hle := @length_le_of_cut α _ _ _ _ _ u (v ++ [a] ++ after) h (by simp [cut_eq h])
  simp at hle

/-! ## All separators -/

/-- The parts between the separators. -/
def split (sep s : List α) : List (List α) :=
  match _hcut : cut sep s with
  | none => [s]
  | some (before, after) => if _hsep : sep = [] then [s] else before :: split sep after
termination_by s.length
decreasing_by
  have hlength := congrArg List.length (cut_eq _hcut)
  have hpos := List.length_pos_iff.mpr _hsep
  simp only [List.length_append] at hlength
  omega

theorem split_none (h : cut sep s = none) : split sep s = [s] := by
  rw [split]
  split
  · rfl
  · simp_all

theorem split_some (hsep : sep ≠ []) {before after : List α} (h : cut sep s = some (before, after)) :
    split sep s = before :: split sep after := by
  rw [split]
  split
  · simp_all
  · rename_i heq
    obtain ⟨rfl, rfl⟩ := Prod.mk.inj (Option.some.inj (h.symm.trans heq))
    rw [dif_neg hsep]

theorem split_ne_nil : split sep s ≠ [] := by
  rw [split]
  split
  · simp
  · split <;> simp

/-- The parts joined again. -/
theorem intercalate_split (s : List α) : sep.intercalate (split sep s) = s := by
  fun_induction split sep s with
  | case1 s h => exact List.intercalate_singleton
  | case2 s before after h => exact List.intercalate_singleton
  | case3 s before after h hsep ih =>
    rw [List.intercalate_cons_of_ne_nil split_ne_nil, ih, cut_eq h]

/-- Parts without the separator's first item are told apart again. -/
theorem split_intercalate {lines : List (List α)} (hne : lines ≠ []) (hlines : ∀ l ∈ lines, a ∉ l) :
    split (a :: sep) ((a :: sep).intercalate lines) = lines := by
  induction lines with
  | nil => cases hne rfl
  | cons l lines ih =>
    rw [List.forall_mem_cons] at hlines
    cases lines with
    | nil => rw [List.intercalate_singleton, split_none (cut_none hlines.1)]
    | cons m lines =>
      rw [List.intercalate_cons_cons, List.append_assoc,
        split_some (List.cons_ne_nil a sep) (cut_mark hlines.1 _), ih (List.cons_ne_nil _ _) hlines.2]

/-- One part more than there are separators. -/
theorem length_split (s : List α) : (split [a] s).length = s.count a + 1 := by
  fun_induction split [a] s with
  | case1 s h => rw [List.count_eq_zero.mpr (not_mem_of_cut_none h), List.length_singleton]
  | case2 s before after h hsep => cases hsep
  | case3 s before after h hsep ih =>
    have hbefore := List.count_eq_zero.mpr (not_mem_of_cut h)
    rw [List.length_cons, ih, cut_eq h, List.count_append, List.count_append, hbefore, List.count_singleton_self]
    omega

theorem not_mem_of_mem_split {part : List α} (h : part ∈ split [a] s) : a ∉ part := by
  fun_induction split [a] s with
  | case1 s hcut => exact List.mem_singleton.mp h ▸ not_mem_of_cut_none hcut
  | case2 s before after hcut hsep => cases hsep
  | case3 s before after hcut hsep ih =>
    rcases List.mem_cons.mp h with rfl | h
    · exact not_mem_of_cut hcut
    · exact ih h

theorem mem_of_mem_split {part : List α} {x : α} (hpart : part ∈ split sep s) (hx : x ∈ part) : x ∈ s := by
  fun_induction split sep s with
  | case1 s h => exact List.mem_singleton.mp hpart ▸ hx
  | case2 s before after h => exact List.mem_singleton.mp hpart ▸ hx
  | case3 s before after h hsep ih =>
    rw [cut_eq h]
    rcases List.mem_cons.mp hpart with rfl | hpart
    · exact List.mem_append_left _ (List.mem_append_left _ hx)
    · exact List.mem_append_right _ (ih hpart)

/-- Two separators in a row end the lines that they follow. -/
theorem cut_double {lines : List (List α)} (hne : lines ≠ []) (hlines : ∀ l ∈ lines, l ≠ [] ∧ a ∉ l) (hsep : a ∉ sep)
    (t : List α) : cut (a :: (sep ++ a :: sep)) ((a :: sep).intercalate lines ++ (a :: (sep ++ a :: sep) ++ t)) =
      some ((a :: sep).intercalate lines, t) := by
  induction lines with
  | nil => cases hne rfl
  | cons l lines ih =>
    rw [List.forall_mem_cons] at hlines
    cases lines with
    | nil =>
      rw [List.intercalate_singleton]
      exact cut_mark hlines.1.2 t
    | cons m lines =>
      have hrest := ih (List.cons_ne_nil _ _) hlines.2
      obtain ⟨hm, ham⟩ := (List.forall_mem_cons.mp hlines.2).1
      obtain ⟨b, m, rfl⟩ := List.exists_cons_of_ne_nil hm
      have hab : a ≠ b := fun h => ham (h ▸ List.mem_cons_self)
      obtain ⟨rest, hjoin⟩ : ∃ rest, (a :: sep).intercalate ((b :: m) :: lines) = b :: rest := by
        cases lines with
        | nil => exact ⟨m, List.intercalate_singleton⟩
        | cons k lines => exact ⟨_, List.intercalate_cons_cons⟩
      rw [List.intercalate_cons_cons, List.append_assoc, List.append_assoc, cut_skip hlines.1.2]
      rw [hjoin] at hrest ⊢
      -- the separator after this line is followed by a line, not by a second separator
      have hdouble : ¬ a :: (sep ++ a :: sep) <+: a :: (sep ++ (b :: rest ++ (a :: (sep ++ a :: sep) ++ t))) := by
        intro hp
        have htail := (List.prefix_append_right_inj sep).mp (List.cons_prefix_cons.mp hp).2
        exact hab (List.cons_prefix_cons.mp htail).1
      rw [@List.cons_append α a sep, cut_cons hdouble, cut_skip hsep, hrest]
      simp

end HarnessConformance.Lib.Splitting
