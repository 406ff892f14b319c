import Mathlib

/-! # Anchored regular expressions over characters

Expressions are built from character classes; `fullmatch` decides membership by derivatives and
`fullmatch_iff` holds it to the inductive language `Matches`. The smart constructors keep the
derivative of a bounded repetition linear in its bound. -/

namespace HarnessConformance.Lib
set_option autoImplicit false

inductive Regex where
  | empty
  | eps
  | one (p : Char → Bool)
  | seq (a b : Regex)
  | alt (a b : Regex)
  | star (a : Regex)

namespace Regex

inductive Matches : Regex → List Char → Prop where
  | eps : Matches eps []
  | one {p : Char → Bool} {c : Char} (h : p c = true) : Matches (one p) [c]
  | seq {a b : Regex} {s t : List Char} (ha : Matches a s) (hb : Matches b t) : Matches (seq a b) (s ++ t)
  | altLeft {a b : Regex} {s : List Char} (h : Matches a s) : Matches (alt a b) s
  | altRight {a b : Regex} {s : List Char} (h : Matches b s) : Matches (alt a b) s
  | starNil {a : Regex} : Matches (star a) []
  | starCons {a : Regex} {s t : List Char} (ha : Matches a s) (hs : Matches (star a) t) :
      Matches (star a) (s ++ t)

/-! ## Derivatives -/

def nullable : Regex → Bool
  | empty => false
  | eps => true
  | one _ => false
  | seq a b => nullable a && nullable b
  | alt a b => nullable a || nullable b
  | star _ => true

def mkSeq : Regex → Regex → Regex
  | empty, _ => empty
  | eps, b => b
  | a, b => seq a b

def mkAlt : Regex → Regex → Regex
  | empty, b => b
  | a, empty => a
  | a, b => alt a b

def deriv (c : Char) : Regex → Regex
  | empty => empty
  | eps => empty
  | one p => if p c then eps else empty
  | seq a b =>
    if nullable a then mkAlt (mkSeq (deriv c a) b) (deriv c b) else mkSeq (deriv c a) b
  | alt a b => mkAlt (deriv c a) (deriv c b)
  | star a => mkSeq (deriv c a) (star a)

def fullmatchChars : Regex → List Char → Bool
  | r, [] => nullable r
  | r, c :: s => fullmatchChars (deriv c r) s

def fullmatch (r : Regex) (s : String) : Bool := fullmatchChars r s.toList

/-! ## The language of each constructor -/

theorem not_matches_empty {s : List Char} : ¬ Matches empty s := by
  rintro ⟨⟩

theorem matches_eps {s : List Char} : Matches eps s ↔ s = [] := by
  constructor
  · rintro ⟨⟩
    rfl
  · rintro rfl
    exact .eps

theorem matches_one {p : Char → Bool} {s : List Char} : Matches (one p) s ↔ ∃ c, p c = true ∧ s = [c] := by
  constructor
  · rintro (_ | h)
    exact ⟨_, h, rfl⟩
  · rintro ⟨c, h, rfl⟩
    exact .one h

theorem matches_seq {a b : Regex} {s : List Char} :
    Matches (seq a b) s ↔ ∃ t u, Matches a t ∧ Matches b u ∧ s = t ++ u := by
  constructor
  · rintro (_ | _ | ⟨ha, hb⟩)
    exact ⟨_, _, ha, hb, rfl⟩
  · rintro ⟨t, u, ha, hb, rfl⟩
    exact .seq ha hb

theorem matches_alt {a b : Regex} {s : List Char} : Matches (alt a b) s ↔ Matches a s ∨ Matches b s := by
  constructor
  · intro h
    cases h with
    | altLeft h => exact .inl h
    | altRight h => exact .inr h
  · rintro (h | h)
    · exact .altLeft h
    · exact .altRight h

theorem matches_mkSeq {a b : Regex} {s : List Char} : Matches (mkSeq a b) s ↔ Matches (seq a b) s := by
  unfold mkSeq
  split
  · rw [matches_seq]
    exact ⟨fun h => absurd h not_matches_empty, fun ⟨_, _, h, _⟩ => absurd h not_matches_empty⟩
  · simp [matches_seq, matches_eps]
  · rfl

theorem matches_mkAlt {a b : Regex} {s : List Char} : Matches (mkAlt a b) s ↔ Matches (alt a b) s := by
  unfold mkAlt
  split <;> simp [matches_alt, not_matches_empty]

theorem nullable_iff {r : Regex} : nullable r = true ↔ Matches r [] := by
  induction r with
  | empty => simp [nullable, not_matches_empty]
  | eps => simp [nullable, matches_eps]
  | one p => simp [nullable, matches_one]
  | seq a b iha ihb =>
    rw [nullable, Bool.and_eq_true, iha, ihb, matches_seq]
    constructor
    · rintro ⟨ha, hb⟩
      exact ⟨[], [], ha, hb, rfl⟩
    · rintro ⟨t, u, ha, hb, h⟩
      obtain ⟨rfl, rfl⟩ := List.append_eq_nil_iff.mp h.symm
      exact ⟨ha, hb⟩
  | alt a b iha ihb => rw [nullable, Bool.or_eq_true, iha, ihb, matches_alt]
  | star a => simp [nullable, Matches.starNil]

/-- A nonempty word of `star a` starts with a nonempty word of `a`. -/
theorem star_cons {a : Regex} {c : Char} {s : List Char} (h : Matches (star a) (c :: s)) :
    ∃ t u, Matches a (c :: t) ∧ Matches (star a) u ∧ s = t ++ u := by
  generalize hr : star a = r at h
  generalize hw : c :: s = w at h
  induction h with
  | starNil => cases hw
  | @starCons a' t u ha hs _ ih =>
    cases hr
    cases t with
    | nil => exact ih rfl hw
    | cons d t =>
      obtain ⟨rfl, rfl⟩ := List.cons.inj hw
      exact ⟨t, u, ha, hs, rfl⟩
  | _ => cases hr

theorem matches_deriv {c : Char} {r : Regex} {s : List Char} :
    Matches (deriv c r) s ↔ Matches r (c :: s) := by
  induction r generalizing s with
  | empty => simp [deriv, not_matches_empty]
  | eps => simp [deriv, not_matches_empty, matches_eps]
  | one p =>
    rw [deriv]
    split
    · simp_all [matches_eps, matches_one]
    · simp_all [not_matches_empty, matches_one]
  | seq a b iha ihb =>
    have hleft : Matches (mkSeq (deriv c a) b) s ↔ ∃ t u, Matches a (c :: t) ∧ Matches b u ∧ s = t ++ u := by
      rw [matches_mkSeq, matches_seq]
      simp only [iha]
    have hsplit : Matches (seq a b) (c :: s) ↔
        (∃ t u, Matches a (c :: t) ∧ Matches b u ∧ s = t ++ u) ∨ (Matches a [] ∧ Matches b (c :: s)) := by
      rw [matches_seq]
      constructor
      · rintro ⟨t, u, ha, hb, h⟩
        cases t with
        | nil => exact .inr ⟨ha, by simpa using h ▸ hb⟩
        | cons d t =>
          obtain ⟨rfl, rfl⟩ := List.cons.inj h
          exact .inl ⟨t, u, ha, hb, rfl⟩
      · rintro (⟨t, u, ha, hb, rfl⟩ | ⟨ha, hb⟩)
        · exact ⟨c :: t, u, ha, hb, rfl⟩
        · exact ⟨[], c :: s, ha, hb, rfl⟩
    rw [deriv, hsplit]
    split
    · rw [matches_mkAlt, matches_alt, hleft, ihb]
      simp_all [nullable_iff]
    · rw [hleft]
      simp_all [nullable_iff]
  | alt a b iha ihb => rw [deriv, matches_mkAlt, matches_alt, matches_alt, iha, ihb]
  | star a iha =>
    rw [deriv, matches_mkSeq, matches_seq]
    constructor
    · rintro ⟨t, u, ha, hs, rfl⟩
      exact .starCons (iha.mp ha) hs
    · intro h
      obtain ⟨t, u, ha, hs, rfl⟩ := star_cons h
      exact ⟨t, u, iha.mpr ha, hs, rfl⟩

theorem fullmatchChars_iff {r : Regex} {s : List Char} : fullmatchChars r s = true ↔ Matches r s := by
  induction s generalizing r with
  | nil => exact nullable_iff
  | cons c s ih => rw [fullmatchChars, ih, matches_deriv]

theorem fullmatch_iff {r : Regex} {s : String} : fullmatch r s = true ↔ Matches r s.toList :=
  fullmatchChars_iff

/-! ## Derived forms -/

def char (c : Char) : Regex := one (· == c)

def literal (s : String) : Regex := s.toList.foldr (fun c r => seq (char c) r) eps

def times (a : Regex) : Nat → Regex
  | 0 => eps
  | n + 1 => seq a (times a n)

def upTo (a : Regex) : Nat → Regex
  | 0 => eps
  | n + 1 => alt eps (seq a (upTo a n))

/-- `a{lo,hi}` with `hi = lo + more`. -/
def between (a : Regex) (lo more : Nat) : Regex := seq (times a lo) (upTo a more)

def plus (a : Regex) : Regex := seq a (star a)

/-- The concatenation of a list of expressions. -/
def chain (rs : List Regex) : Regex := rs.foldr seq eps

theorem matches_times_one {p : Char → Bool} {n : Nat} {s : List Char} :
    Matches (times (one p) n) s ↔ s.length = n ∧ ∀ c ∈ s, p c = true := by
  induction n generalizing s with
  | zero =>
    rw [times, matches_eps, List.length_eq_zero_iff]
    exact ⟨by rintro rfl; simp, fun h => h.1⟩
  | succ n ih =>
    rw [times, matches_seq]
    constructor
    · rintro ⟨t, u, ht, hu, rfl⟩
      obtain ⟨c, hc, rfl⟩ := matches_one.mp ht
      obtain ⟨hlen, hall⟩ := ih.mp hu
      exact ⟨by simp [hlen], by simpa [hc] using hall⟩
    · rintro ⟨hlen, hall⟩
      obtain ⟨c, t, rfl⟩ := List.exists_cons_of_length_eq_add_one hlen
      rw [List.forall_mem_cons] at hall
      exact ⟨[c], t, .one hall.1, ih.mpr ⟨by simpa using hlen, hall.2⟩, rfl⟩

theorem matches_char {c : Char} {s : List Char} : Matches (char c) s ↔ s = [c] := by
  simp [char, matches_one]

theorem matches_literal {lit : String} {s : List Char} : Matches (literal lit) s ↔ s = lit.toList := by
  unfold literal
  induction lit.toList generalizing s with
  | nil => exact matches_eps
  | cons c cs ih =>
    rw [List.foldr_cons, matches_seq]
    constructor
    · rintro ⟨t, u, ht, hu, rfl⟩
      rw [matches_char.mp ht, ih.mp hu, List.singleton_append]
    · rintro rfl
      exact ⟨[c], cs, matches_char.mpr rfl, ih.mpr rfl, rfl⟩

theorem matches_chain_cons {r : Regex} {rs : List Regex} {s : List Char} :
    Matches (chain (r :: rs)) s ↔ ∃ t u, Matches r t ∧ Matches (chain rs) u ∧ s = t ++ u :=
  matches_seq

theorem matches_chain_nil {s : List Char} : Matches (chain []) s ↔ s = [] := matches_eps

/-! ## Words over an alphabet -/

/-- Every class of the expression lies inside `P`. -/
def Over (P : Char → Prop) : Regex → Prop
  | empty => True
  | eps => True
  | one p => ∀ c, p c = true → P c
  | seq a b => Over P a ∧ Over P b
  | alt a b => Over P a ∧ Over P b
  | star a => Over P a

theorem Matches.over {P : Char → Prop} {r : Regex} {s : List Char} (h : Matches r s) (hr : Over P r) :
    ∀ c ∈ s, P c := by
  induction h with
  | eps => simp
  | one h => simpa using hr _ h
  | seq _ _ iha ihb =>
    intro c hc
    rcases List.mem_append.mp hc with hc | hc
    · exact iha hr.1 c hc
    · exact ihb hr.2 c hc
  | altLeft _ ih => exact ih hr.1
  | altRight _ ih => exact ih hr.2
  | starNil => simp
  | starCons _ _ iha ihs =>
    intro c hc
    rcases List.mem_append.mp hc with hc | hc
    · exact iha hr c hc
    · exact ihs hr c hc

theorem Over.times {P : Char → Prop} {a : Regex} (h : Over P a) (n : ℕ) : Over P (times a n) := by
  induction n with
  | zero => trivial
  | succ n ih => exact ⟨h, ih⟩

theorem Over.upTo {P : Char → Prop} {a : Regex} (h : Over P a) (n : ℕ) : Over P (upTo a n) := by
  induction n with
  | zero => trivial
  | succ n ih => exact ⟨trivial, h, ih⟩

theorem Over.between {P : Char → Prop} {a : Regex} (h : Over P a) (lo more : ℕ) : Over P (between a lo more) :=
  ⟨h.times lo, h.upTo more⟩

/-! ## Words of bounded length -/

def starFree : Regex → Bool
  | empty | eps | one _ => true
  | seq a b | alt a b => starFree a && starFree b
  | star _ => false

/-- The length of the longest word, for an expression without a star. -/
def longest : Regex → ℕ
  | empty | eps | star _ => 0
  | one _ => 1
  | seq a b => longest a + longest b
  | alt a b => max (longest a) (longest b)

theorem Matches.length_le {r : Regex} {s : List Char} (h : Matches r s) (hr : starFree r = true) : s.length ≤ longest r := by
  induction h with
  | eps => exact Nat.zero_le _
  | one h => exact le_rfl
  | seq _ _ iha ihb =>
    rw [starFree, Bool.and_eq_true] at hr
    rw [List.length_append, longest]
    exact Nat.add_le_add (iha hr.1) (ihb hr.2)
  | altLeft _ ih =>
    rw [starFree, Bool.and_eq_true] at hr
    exact (ih hr.1).trans (le_max_left _ _)
  | altRight _ ih =>
    rw [starFree, Bool.and_eq_true] at hr
    exact (ih hr.2).trans (le_max_right _ _)
  | starNil => cases hr
  | starCons => cases hr

end Regex
end HarnessConformance.Lib
