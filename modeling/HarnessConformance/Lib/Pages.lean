import Mathlib

/-! # Rounding to pages

Addresses rounded down and up to a page, and when extents that do not meet have pages in common. -/

namespace HarnessConformance.Lib.Pages
set_option autoImplicit false

def down (page n : ℕ) : ℕ := n - n % page

def up (page n : ℕ) : ℕ := (n + page - 1) / page * page

variable {page n m : ℕ}

theorem dvd_down : page ∣ down page n := Nat.dvd_sub_mod n

theorem dvd_up : page ∣ up page n := Dvd.intro_left _ rfl

theorem down_le : down page n ≤ n := Nat.sub_le n _

theorem lt_down_add (h : 0 < page) : n < down page n + page := by
  have hmod := Nat.mod_lt n h
  have hle := Nat.mod_le n page
  rw [down]
  omega

theorem le_up (h : 0 < page) : n ≤ up page n := by
  have hdiv := Nat.div_add_mod' (n + page - 1) page
  have hmod := Nat.mod_lt (n + page - 1) h
  rw [up]
  omega

theorem up_lt_add (h : 0 < page) : up page n < n + page := by
  have hle := Nat.div_mul_le_self (n + page - 1) page
  rw [up]
  omega

theorem down_le_up (h : 0 < page) : down page n ≤ up page n := down_le.trans (le_up h)

/-- Nothing on a page boundary lies between a number and its rounding. -/
theorem up_le (hm : page ∣ m) (h : n ≤ m) : up page n ≤ m := by
  rcases Nat.eq_zero_or_pos page with rfl | hpos
  · simp [up]
  by_contra hlt
  have hup := up_lt_add (n := n) hpos
  have hstep := Nat.le_of_dvd (by omega) (Nat.dvd_sub (dvd_up (n := n)) hm)
  omega

theorem le_down (hm : page ∣ m) (h : m ≤ n) : m ≤ down page n := by
  rcases Nat.eq_zero_or_pos page with rfl | hpos
  · obtain rfl := Nat.eq_zero_of_zero_dvd hm
    exact Nat.zero_le _
  by_contra hlt
  have hdown := lt_down_add (n := n) hpos
  have hstep := Nat.le_of_dvd (by omega) (Nat.dvd_sub hm (dvd_down (n := n)))
  omega

theorem up_mono (h : 0 < page) (hnm : n ≤ m) : up page n ≤ up page m := up_le dvd_up (hnm.trans (le_up h))

theorem down_mono (hnm : n ≤ m) : down page n ≤ down page m := le_down dvd_down (down_le.trans hnm)

theorem down_lt_up (h : 0 < page) (hnm : n < m) : down page n < up page m :=
  lt_of_le_of_lt down_le (lt_of_lt_of_le hnm (le_up h))

/-- A whole number of pages moves through the rounding. -/
theorem up_add (hm : page ∣ m) (h : 0 < page) : up page (m + n) = m + up page n := by
  obtain ⟨k, rfl⟩ := hm
  have hdiv : (page * k + (n + page - 1)) / page = k + (n + page - 1) / page := Nat.mul_add_div h k _
  have hshift : page * k + n + page - 1 = page * k + (n + page - 1) := by omega
  rw [up, hshift, hdiv, up, Nat.add_mul, Nat.mul_comm k page]

/-- Two extents of one length that start at the same place of their pages end after as many pages. -/
theorem down_add_up (h : 0 < page) {a o : ℕ} (hmod : a % page = o % page) :
    down page a + up page (o + n) = up page (a + n) + down page o := by
  have ho : o + n = down page o + (o % page + n) := by
    have := Nat.mod_le o page
    rw [down]
    omega
  have ha : a + n = down page a + (a % page + n) := by
    have := Nat.mod_le a page
    rw [down]
    omega
  rw [ho, up_add dvd_down h, ha, up_add dvd_down h, hmod]
  omega

/-! ## Extents -/

/-- The pages of an extent. -/
def pages (page start stop : ℕ) : Set ℕ := Set.Ico (down page start) (up page stop)

variable {s e t f : ℕ}

theorem pages_disjoint (h : 0 < page) (hs : s < e) (het : e ≤ t) (ht : t < f) :
    Disjoint (pages page s e) (pages page t f) ↔ up page e ≤ down page t := by
  rw [pages, pages, Set.Ico_disjoint_Ico]
  have hst : down page s ≤ down page t := down_mono (hs.le.trans het)
  have hef : up page e ≤ up page f := up_mono h (het.trans ht.le)
  rw [min_eq_left hef, max_eq_right hst]

variable {α : Type} {start stop : α → ℕ} {marked : α → Prop} {xs : List α}

/-- In the order of their addresses, extents need comparing with their neighbours only. -/
theorem pairwise_pages (h : 0 < page) (hsorted : xs.Pairwise fun x y => stop x ≤ start y)
    (hpos : ∀ x ∈ xs, start x < stop x) :
    (xs.Pairwise fun x y => marked x ∨ marked y → Disjoint (pages page (start x) (stop x)) (pages page (start y) (stop y))) ↔
      xs.IsChain fun x y => marked x ∨ marked y → up page (stop x) ≤ down page (start y) := by
  induction xs with
  | nil => simp
  | cons x xs ih =>
    rw [List.pairwise_cons] at hsorted ⊢
    rw [List.forall_mem_cons] at hpos
    have htail := ih hsorted.2 hpos.2
    have hmeet : ∀ z ∈ xs, (Disjoint (pages page (start x) (stop x)) (pages page (start z) (stop z)) ↔
        up page (stop x) ≤ down page (start z)) := fun z hz => pages_disjoint h hpos.1 (hsorted.1 z hz) (hpos.2 z hz)
    cases xs with
    | nil => simp
    | cons y ys =>
      rw [List.isChain_cons_cons, ← htail]
      constructor
      · rintro ⟨hx, hrest⟩
        exact ⟨fun hmark => (hmeet y List.mem_cons_self).mp (hx y List.mem_cons_self hmark), hrest⟩
      · rintro ⟨hxy, hrest⟩
        refine ⟨fun z hz hmark => (hmeet z hz).mpr ?_, hrest⟩
        rcases List.mem_cons.mp hz with rfl | hz
        · exact hxy hmark
        have hyz := (List.pairwise_cons.mp hsorted.2).1 z hz
        have hy := hpos.2 y List.mem_cons_self
        by_cases hmarkx : marked x
        · exact (hxy (.inl hmarkx)).trans (down_mono (hy.le.trans hyz))
        · -- the later extent is marked, and so kept clear of the one between
          have hdisjoint := (List.pairwise_cons.mp hrest).1 z hz (.inr (hmark.resolve_left hmarkx))
          have hclear := (pages_disjoint h hy hyz (hpos.2 z (List.mem_cons_of_mem _ hz))).mp hdisjoint
          exact (up_mono h ((hsorted.1 y List.mem_cons_self).trans hy.le)).trans hclear

/-! ## Mapping -/

/-- The extent that a page belongs to when the extents are mapped in order, each over those before. -/
def placed (page : ℕ) (start stop : α → ℕ) : List α → ℕ → Option α
  | [], _ => none
  | x :: xs, n =>
    match placed page start stop xs n with
    | some y => some y
    | none => if down page (start x) ≤ n ∧ n < up page (stop x) then some x else none

theorem placed_cons_some {x : α} {n : ℕ} {y : α} : placed page start stop (x :: xs) n = some y ↔
    placed page start stop xs n = some y ∨
      placed page start stop xs n = none ∧ n ∈ pages page (start x) (stop x) ∧ x = y := by
  rw [placed]
  cases placed page start stop xs n with
  | some z => simp
  | none =>
    by_cases hn : down page (start x) ≤ n ∧ n < up page (stop x)
    · simp [hn, pages]
    · simp [hn, pages]

theorem mem_of_placed {n : ℕ} {y : α} (h : placed page start stop xs n = some y) :
    y ∈ xs ∧ n ∈ pages page (start y) (stop y) := by
  induction xs with
  | nil => cases h
  | cons x xs ih =>
    rcases placed_cons_some.mp h with h | ⟨-, hn, rfl⟩
    · exact ⟨List.mem_cons_of_mem _ (ih h).1, (ih h).2⟩
    · exact ⟨List.mem_cons_self, hn⟩

/-- An extent that shares no page with another one stays in place. -/
theorem placed_of_pairwise
    (h : xs.Pairwise fun x y =>
      marked x ∨ marked y → Disjoint (pages page (start x) (stop x)) (pages page (start y) (stop y)))
    {x : α} (hx : x ∈ xs) (hmark : marked x) {n : ℕ} (hn : n ∈ pages page (start x) (stop x)) :
    placed page start stop xs n = some x := by
  induction xs with
  | nil => cases hx
  | cons z xs ih =>
    rw [List.pairwise_cons] at h
    rcases List.mem_cons.mp hx with rfl | hx
    · refine placed_cons_some.mpr (.inr ⟨?_, hn, rfl⟩)
      cases hplaced : placed page start stop xs n with
      | none => rfl
      | some y =>
        obtain ⟨hy, hny⟩ := mem_of_placed hplaced
        exact absurd hny (Set.disjoint_left.mp (h.1 y hy (.inl hmark)) hn)
    · exact placed_cons_some.mpr (.inl (ih h.2 hx))

end HarnessConformance.Lib.Pages
