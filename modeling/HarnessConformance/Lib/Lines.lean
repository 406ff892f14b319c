import Mathlib

/-! # Universal line splitting of byte strings

A line ends at a line feed, a carriage return or the pair of them. `splitKeep` keeps the
terminators, `splitLines` drops them. The second forgets how each line was ended: two byte
strings with the same lines need not be equal, unless both use the line feed only
(`joinLines_splitLines`). -/

namespace HarnessConformance.Lib.Lines
set_option autoImplicit false

abbrev Bytes := List UInt8

instance : LawfulBEq Bytes := inferInstance

def lineFeed : UInt8 := 10
def carriageReturn : UInt8 := 13

/-- A byte that belongs to a line and does not end one. -/
def isBody (b : UInt8) : Bool := b ≠ lineFeed && b ≠ carriageReturn

def Clean (line : Bytes) : Prop := ∀ b ∈ line, isBody b = true

/-- Empty, or ended by a line feed. -/
def Ended (raw : Bytes) : Prop := raw = [] ∨ raw.getLast? = some lineFeed

instance (raw : Bytes) : Decidable (Ended raw) := inferInstanceAs (Decidable (_ ∨ _))

def splitKeep : Bytes → List Bytes
  | [] => []
  | 13 :: 10 :: rest => [carriageReturn, lineFeed] :: splitKeep rest
  | b :: rest =>
    if isBody b then
      match splitKeep rest with
      | [] => [[b]]
      | line :: lines => (b :: line) :: lines
    else [b] :: splitKeep rest

attribute [grind =] splitKeep

def splitLines (raw : Bytes) : List Bytes := (splitKeep raw).map (·.takeWhile isBody)

/-- The lines written back, each with one line feed. -/
def joinLines (lines : List Bytes) : Bytes := lines.flatMap (· ++ [lineFeed])

/-! ## Clean lines -/

theorem Clean.not_mem {line : Bytes} (h : Clean line) : lineFeed ∉ line ∧ carriageReturn ∉ line :=
  ⟨fun hm => absurd (h _ hm) (by decide), fun hm => absurd (h _ hm) (by decide)⟩

theorem Clean.takeWhile_append {line rest : Bytes} (h : Clean line) :
    (line ++ lineFeed :: rest).takeWhile isBody = line := by
  rw [List.takeWhile_append_of_pos h]
  simp [isBody]

theorem Clean.of_cons {b : UInt8} {line : Bytes} (h : Clean (b :: line)) :
    isBody b = true ∧ Clean line :=
  ⟨h b (List.mem_cons_self ..), fun c hc => h c (List.mem_cons_of_mem b hc)⟩

/-! ## Splitting at the first terminator -/

theorem splitKeep_body {b : UInt8} (hb : isBody b = true) (rest : Bytes) :
    splitKeep (b :: rest) =
      match splitKeep rest with
      | [] => [[b]]
      | line :: lines => (b :: line) :: lines := by
  have hcr : ∀ tail : Bytes, b = 13 → rest = 10 :: tail → False := by
    intro _ h _
    subst h
    exact absurd hb (by decide)
  rw [splitKeep]
  · rw [if_pos hb]
  · exact hcr

theorem splitKeep_lineFeed (rest : Bytes) : splitKeep (lineFeed :: rest) = [lineFeed] :: splitKeep rest := by
  rw [splitKeep]
  · rfl
  · rintro _ h
    exact absurd h (by decide)

/-- A clean line runs up to the first piece of what follows. -/
theorem splitKeep_clean {line : Bytes} (h : Clean line) {rest first : Bytes} {pieces : List Bytes}
    (hrest : splitKeep rest = first :: pieces) : splitKeep (line ++ rest) = (line ++ first) :: pieces := by
  induction line with
  | nil => exact hrest
  | cons b line ih =>
    obtain ⟨hb, hline⟩ := h.of_cons
    rw [List.cons_append, splitKeep_body hb, ih hline]
    rfl

theorem splitKeep_line {line : Bytes} (h : Clean line) (rest : Bytes) :
    splitKeep (line ++ lineFeed :: rest) = (line ++ [lineFeed]) :: splitKeep rest :=
  splitKeep_clean h (splitKeep_lineFeed rest)

/-- One line, ended by either terminator that ends in a line feed. -/
theorem splitLines_terminated {line terminator : Bytes} (h : Clean line)
    (hterm : terminator = [lineFeed] ∨ terminator = [carriageReturn, lineFeed]) : splitLines (line ++ terminator) = [line] := by
  rcases hterm with rfl | rfl
  · rw [splitLines, splitKeep_clean h (splitKeep_lineFeed []), splitKeep, List.map_cons, List.map_nil, h.takeWhile_append]
  · have hsplit : splitKeep [carriageReturn, lineFeed] = [[carriageReturn, lineFeed]] := rfl
    rw [splitLines, splitKeep_clean h hsplit, List.map_cons, List.map_nil, List.takeWhile_append_of_pos h]
    simp [isBody]

theorem flatten_splitKeep (raw : Bytes) : (splitKeep raw).flatten = raw := by
  induction raw using splitKeep.induct with
  | case1 => rfl
  | case2 rest ih => simp [splitKeep, ih, carriageReturn, lineFeed]
  | case3 b rest _ hb hnil ih =>
    rw [splitKeep_body hb, hnil]
    rw [hnil] at ih
    simp [← ih]
  | case4 b rest _ hb line lines hcons ih =>
    rw [splitKeep_body hb, hcons]
    rw [hcons] at ih
    simp [← ih]
  | case5 b rest hpair hb ih =>
    rw [splitKeep, if_neg hb, List.flatten_cons, ih, List.singleton_append]
    exact hpair

theorem splitKeep_eq_nil {raw : Bytes} : splitKeep raw = [] ↔ raw = [] := by
  constructor
  · intro h
    rw [← flatten_splitKeep raw, h, List.flatten_nil]
  · rintro rfl
    rfl

/-! ## Byte strings that end in a line feed -/

theorem Ended.of_cons {b : UInt8} {rest : Bytes} (h : Ended (b :: rest)) : rest ≠ [] → Ended rest := by
  intro hne
  rcases h with h | h
  · cases h
  · rw [List.getLast?_cons_of_ne_nil hne] at h
    exact .inr h

theorem Ended.append_line {raw line : Bytes} : Ended (raw ++ line ++ [lineFeed]) :=
  .inr List.getLast?_concat

/-- No terminator straddles the end of a byte string that ends in a line feed. -/
theorem splitKeep_append {raw : Bytes} (h : Ended raw) (rest : Bytes) :
    splitKeep (raw ++ rest) = splitKeep raw ++ splitKeep rest := by
  induction raw using splitKeep.induct with
  | case1 => rfl
  | case2 tail ih =>
    by_cases htail : tail = []
    · subst htail
      simp [splitKeep]
    · have := ih ((h.of_cons (by simp)).of_cons htail)
      simp [splitKeep, this]
  | case3 b tail _ hb hnil ih =>
    rw [splitKeep_eq_nil] at hnil
    subst hnil
    rcases h with h | h
    · cases h
    · obtain rfl : b = lineFeed := by simpa using h
      exact absurd hb (by decide)
  | case4 b tail _ hb line lines hcons ih =>
    have hne : tail ≠ [] := by
      rintro rfl
      cases hcons
    rw [List.cons_append, splitKeep_body hb, splitKeep_body hb, ih (h.of_cons hne), hcons]
    rfl
  | case5 b tail hpair hb ih =>
    by_cases htail : tail = []
    · subst htail
      obtain rfl : b = lineFeed := by
        rcases h with h | h
        · cases h
        · simpa using h
      exact splitKeep_lineFeed rest
    · have hpair' : ∀ more : Bytes, b = 13 → tail ++ rest = 10 :: more → False := by
        intro more hb13 hmore
        obtain ⟨c, tail', rfl⟩ := List.exists_cons_of_ne_nil htail
        obtain ⟨rfl, -⟩ := List.cons.inj hmore
        exact hpair tail' hb13 rfl
      rw [List.cons_append, splitKeep, if_neg hb, ih (h.of_cons htail), splitKeep, if_neg hb]
      · rfl
      · exact hpair
      · exact hpair'

/-- Every line of a byte string that ends in a line feed carries its terminator. -/
theorem not_clean_of_mem_splitKeep {raw line : Bytes} (h : Ended raw) (hline : line ∈ splitKeep raw) :
    ¬ Clean line := by
  induction raw using splitKeep.induct generalizing line with
  | case1 => cases hline
  | case2 tail ih =>
    rw [splitKeep, List.mem_cons] at hline
    rcases hline with rfl | hline
    · exact fun hc => absurd (hc lineFeed (by simp)) (by decide)
    · by_cases htail : tail = []
      · subst htail
        cases hline
      · exact ih ((h.of_cons (by simp)).of_cons htail) hline
  | case3 b tail _ hb hnil ih =>
    rw [splitKeep_eq_nil] at hnil
    subst hnil
    rcases h with h | h
    · cases h
    · obtain rfl : b = lineFeed := by simpa using h
      exact absurd hb (by decide)
  | case4 b tail _ hb first lines hcons ih =>
    have hne : tail ≠ [] := by
      rintro rfl
      cases hcons
    rw [splitKeep_body hb, hcons, List.mem_cons] at hline
    rw [hcons] at ih
    rcases hline with rfl | hline
    · intro hc
      exact ih (h.of_cons hne) (List.mem_cons_self ..) hc.of_cons.2
    · exact ih (h.of_cons hne) (List.mem_cons_of_mem _ hline)
  | case5 b tail hpair hb ih =>
    rw [splitKeep, if_neg hb, List.mem_cons] at hline
    · rcases hline with rfl | hline
      · exact fun hc => hb (hc b (List.mem_singleton_self b))
      · by_cases htail : tail = []
        · subst htail
          cases hline
        · exact ih (h.of_cons htail) hline
    · exact hpair

/-! ## Lines and their concatenation -/

@[simp] theorem joinLines_nil : joinLines [] = [] := rfl

theorem joinLines_cons (line : Bytes) (lines : List Bytes) :
    joinLines (line :: lines) = line ++ lineFeed :: joinLines lines := by
  simp [joinLines]

theorem joinLines_append (xs ys : List Bytes) : joinLines (xs ++ ys) = joinLines xs ++ joinLines ys :=
  List.flatMap_append

theorem joinLines_snoc (lines : List Bytes) (line : Bytes) :
    joinLines (lines ++ [line]) = joinLines lines ++ line ++ [lineFeed] := by
  rw [joinLines_append, joinLines_cons, joinLines_nil, List.append_assoc]

theorem Ended.joinLines (lines : List Bytes) : Ended (joinLines lines) := by
  induction lines using List.reverseRecOn with
  | nil => exact .inl rfl
  | append_singleton lines line _ =>
    rw [joinLines_snoc]
    exact Ended.append_line

theorem not_mem_joinLines {lines : List Bytes} (h : ∀ line ∈ lines, Clean line) : carriageReturn ∉ joinLines lines := by
  simp only [joinLines, List.mem_flatMap, List.mem_append, List.mem_singleton, not_exists, not_and, not_or]
  exact fun line hline => ⟨(h line hline).not_mem.2, by decide⟩

theorem splitKeep_joinLines {lines : List Bytes} (h : ∀ line ∈ lines, Clean line) :
    splitKeep (joinLines lines) = lines.map (· ++ [lineFeed]) := by
  induction lines with
  | nil => rfl
  | cons line lines ih =>
    rw [List.forall_mem_cons] at h
    rw [joinLines_cons, splitKeep_line h.1, ih h.2, List.map_cons]

theorem splitLines_joinLines {lines : List Bytes} (h : ∀ line ∈ lines, Clean line) :
    splitLines (joinLines lines) = lines := by
  rw [splitLines, splitKeep_joinLines h, List.map_map]
  conv_rhs => rw [← List.map_id lines]
  exact List.map_congr_left fun line hline => (h line hline).takeWhile_append

theorem splitKeep_append_line {raw line : Bytes} (h : Ended raw) (hline : Clean line) :
    splitKeep (raw ++ line ++ [lineFeed]) = splitKeep raw ++ [line ++ [lineFeed]] := by
  rw [List.append_assoc, splitKeep_append h, splitKeep_line hline]
  rfl

theorem splitLines_append_line {raw line : Bytes} (h : Ended raw) (hline : Clean line) :
    splitLines (raw ++ line ++ [lineFeed]) = splitLines raw ++ [line] := by
  rw [splitLines, splitKeep_append_line h hline, List.map_append]
  simp only [List.map_cons, List.map_nil, hline.takeWhile_append]
  rfl

/-- Without a carriage return, the bytes are clean lines with one line feed each. -/
theorem exists_joinLines {raw : Bytes} (h : Ended raw) (hcr : carriageReturn ∉ raw) :
    ∃ lines, (∀ line ∈ lines, Clean line) ∧ raw = joinLines lines := by
  induction raw with
  | nil => exact ⟨[], by simp, rfl⟩
  | cons b tail ih =>
    rw [List.mem_cons, not_or] at hcr
    by_cases hb : isBody b = true
    · have hne : tail ≠ [] := by
        rintro rfl
        rcases h with h | h
        · cases h
        · obtain rfl : b = lineFeed := by simpa using h
          exact absurd hb (by decide)
      obtain ⟨lines, hlines, rfl⟩ := ih (h.of_cons hne) hcr.2
      cases lines with
      | nil => exact absurd rfl hne
      | cons line lines =>
        rw [List.forall_mem_cons] at hlines
        refine ⟨(b :: line) :: lines, ?_, by simp [joinLines_cons]⟩
        exact List.forall_mem_cons.mpr ⟨List.forall_mem_cons.mpr ⟨hb, hlines.1⟩, hlines.2⟩
    · have hlf : b = lineFeed := by
        simp only [isBody, Bool.and_eq_true, decide_eq_true_eq, not_and, not_not] at hb
        by_contra hne
        exact hcr.1 (hb hne).symm
      by_cases htail : tail = []
      · subst htail
        exact ⟨[[]], by simp [Clean], by rw [hlf]; rfl⟩
      · obtain ⟨lines, hlines, rfl⟩ := ih (h.of_cons htail) hcr.2
        refine ⟨[] :: lines, List.forall_mem_cons.mpr ⟨by simp [Clean], hlines⟩, ?_⟩
        rw [joinLines_cons, hlf, List.nil_append]

theorem joinLines_splitLines {raw : Bytes} (h : Ended raw) (hcr : carriageReturn ∉ raw) :
    joinLines (splitLines raw) = raw := by
  obtain ⟨lines, hlines, rfl⟩ := exists_joinLines h hcr
  rw [splitLines_joinLines hlines]

end HarnessConformance.Lib.Lines
