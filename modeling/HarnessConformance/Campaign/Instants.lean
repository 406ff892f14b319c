import HarnessConformance.Campaign.Verification

/-! # The instants of accepted times

`require_time` replaces the last `Z` of a text by `+00:00`. The offset is read as one where a time stands
before it; after a date alone its sign is taken for the separator, and the datetime is naive. -/

namespace HarnessConformance.Campaign
open Lib Lib.Json
set_option autoImplicit false

/-- The text before its final `Z`. -/
def beforeZ (text : String) : List Char := text.toList.dropLast

/-- `"+00:00"` -/
def utcOffset : List Char := ['+', '0', '0', ':', '0', '0']

/-- The microseconds of UTC since `0001-01-01`, where a naive datetime is taken for UTC. -/
def Moment.instant (m : Moment) : ℤ := m.clock - m.offset.getD 0

/-- The datetime is in UTC, at the instant that the text denotes before its final `Z`. -/
def DenotesUtc (text : String) (m : Moment) : Prop :=
  m.offset = some 0 ∧ ∃ alone, fromisoformat (beforeZ text) = some alone ∧ alone.instant = m.instant

/-- Something stands behind the date, before the final `Z`. -/
def HasTime (text : String) : Prop := separatorOf (beforeZ text) < (beforeZ text).length

/-- Before its final `Z` the text is by itself a date with a time, of no offset or of the offset 0. -/
def HasUtcTime (text : String) : Prop :=
  HasTime text ∧ ∃ alone, fromisoformat (beforeZ text) = some alone ∧ (alone.offset = none ∨ alone.offset = some 0)

/-! ## Digits -/

theorem readDigits_eq_some {width : ℕ} {text rest : List Char} {value : ℕ} :
    readDigits width text = some (value, rest) ↔
      ∃ digits, text = digits ++ rest ∧ digits.length = width ∧ digits.all Char.isDigit ∧ natOfDigits digits = value := by
  unfold readDigits
  dsimp only
  constructor
  · intro h
    split_ifs at h with hdigits
    obtain ⟨rfl, rfl⟩ : natOfDigits (text.take width) = value ∧ text.drop width = rest := by simpa using h
    exact ⟨_, (List.take_append_drop _ _).symm, hdigits.1, hdigits.2, rfl⟩
  · rintro ⟨digits, rfl, rfl, hdigits, rfl⟩
    rw [List.take_left, List.drop_left, if_pos ⟨rfl, hdigits⟩]

theorem readDigits_append {width : ℕ} {text rest : List Char} {value : ℕ} (h : readDigits width text = some (value, rest))
    (behind : List Char) : readDigits width (text ++ behind) = some (value, rest ++ behind) := by
  obtain ⟨digits, rfl, hlength, hdigits, hvalue⟩ := readDigits_eq_some.mp h
  exact readDigits_eq_some.mpr ⟨digits, List.append_assoc _ _ _, hlength, hdigits, hvalue⟩

/-- Digits are not read across a character that is none. -/
theorem readDigits_of_append {width : ℕ} {text behind rest : List Char} {value : ℕ} {c : Char} (hc : c.isDigit = false)
    (h : readDigits width (text ++ c :: behind) = some (value, rest)) :
    ∃ left, rest = left ++ c :: behind ∧ readDigits width text = some (value, left) := by
  obtain ⟨digits, htext, hlength, hdigits, hvalue⟩ := readDigits_eq_some.mp h
  obtain ⟨left, hleft, hrest⟩ | ⟨left, hleft, hrest⟩ := List.append_eq_append_iff.mp htext
  · cases left with
    | nil =>
      rw [List.append_nil] at hleft
      subst hleft
      exact ⟨[], hrest.symm, readDigits_eq_some.mpr ⟨_, (List.append_nil _).symm, hlength, hdigits, hvalue⟩⟩
    | cons d left =>
      obtain ⟨rfl, -⟩ := List.cons.inj hrest
      have hdigit : c.isDigit := List.all_eq_true.mp hdigits c (hleft ▸ List.mem_append_right _ List.mem_cons_self)
      rw [hc] at hdigit
      cases hdigit
  · exact ⟨left, hrest, readDigits_eq_some.mpr ⟨_, hleft, hlength, hdigits, hvalue⟩⟩

/-! ## Clocks -/

/-- Two readings of one clock. -/
def Clock.Same (c d : Clock) : Prop := c.fields = d.fields ∧ c.micros = d.micros

theorem Clock.Same.microseconds {c d : Clock} (h : c.Same d) : c.microseconds = d.microseconds := by
  obtain ⟨hfields, hmicros⟩ := h
  have hseconds : c.seconds = d.seconds := by rw [Clock.seconds, Clock.seconds, hfields]
  rw [Clock.microseconds, Clock.microseconds, hseconds, hmicros]

theorem Clock.Same.valid {c d : Clock} (h : c.Same d) : c.valid = d.valid := by
  rw [Clock.valid, Clock.valid, h.1]

theorem parseFraction_eq_some {fields : List ℕ} {text : List Char} {follows : Bool} {c : Clock} :
    parseFraction fields text follows = some c ↔ ∃ value rest, readDigits (min 6 text.length) text = some (value, rest) ∧
      c = ⟨fields, value * 10 ^ (6 - min 6 text.length), isMore (rest.dropWhile Char.isDigit) follows⟩ := by
  unfold parseFraction
  dsimp only
  cases hread : readDigits (min 6 text.length) text with
  | none => simp
  | some pair =>
    obtain ⟨value, rest⟩ := pair
    constructor
    · intro h
      exact ⟨value, rest, rfl, (Option.some.inj h).symm⟩
    · rintro ⟨value', rest', h, rfl⟩
      cases h
      rfl

/-- What stands behind a clock has no part in its fields. -/
theorem parseFraction_same {fields : List ℕ} {text : List Char} {follows follows' : Bool} {c d : Clock}
    (hc : parseFraction fields text follows = some c) (hd : parseFraction fields text follows' = some d) : c.Same d := by
  obtain ⟨value, rest, hread, rfl⟩ := parseFraction_eq_some.mp hc
  obtain ⟨value', rest', hread', rfl⟩ := parseFraction_eq_some.mp hd
  obtain ⟨rfl, -⟩ := Prod.mk.inj (Option.some.inj (hread.symm.trans hread'))
  exact ⟨rfl, rfl⟩

theorem parseClock_same (turns : ℕ) {fields : List ℕ} {separated follows follows' : Bool} {text : List Char} {c d : Clock}
    (hc : parseClock turns fields separated follows text = some c) (hd : parseClock turns fields separated follows' text = some d) :
    c.Same d := by
  induction turns generalizing fields separated text with
  | zero => exact parseFraction_same hc hd
  | succ turns ih =>
    rw [parseClock] at hc hd
    cases hread : readDigits 2 text with
    | none => simp [hread] at hc
    | some pair =>
      obtain ⟨value, rest⟩ := pair
      simp only [hread, Option.bind_eq_bind, Option.bind_some, Option.pure_def] at hc hd
      match rest with
      | [] =>
        obtain rfl := Option.some.inj hc
        obtain rfl := Option.some.inj hd
        exact ⟨rfl, rfl⟩
      | [_] =>
        obtain rfl := Option.some.inj hc
        obtain rfl := Option.some.inj hd
        exact ⟨rfl, rfl⟩
      | first :: second :: more =>
        dsimp only at hc hd
        split_ifs at hc hd
        all_goals first
          | exact ih hc hd
          | exact parseFraction_same hc hd

/-- Too few digits stand before an offset that is appended. -/
theorem readDigits_short {width : ℕ} {text : List Char} (h : text.length < width) : readDigits width (text ++ utcOffset) = none := by
  cases hread : readDigits width (text ++ utcOffset) with
  | none => rfl
  | some pair =>
    obtain ⟨value, rest⟩ := pair
    obtain ⟨left, -, hleft⟩ := readDigits_of_append (by decide) hread
    obtain ⟨digits, rfl, hlength, -⟩ := readDigits_eq_some.mp hleft
    rw [List.length_append] at h
    omega

theorem min_length_append (text : List Char) : min 6 (text ++ utcOffset).length = 6 := by
  have hlength : utcOffset.length = 6 := rfl
  rw [List.length_append, hlength]
  omega

theorem parseFraction_short {fields : List ℕ} {follows : Bool} {text : List Char} (h : text.length < 2) :
    parseFraction fields (text ++ utcOffset) follows = none := by
  rw [Option.eq_none_iff_forall_ne_some]
  intro c hc
  obtain ⟨value, rest, hread, -⟩ := parseFraction_eq_some.mp hc
  rw [min_length_append, readDigits_short (by omega)] at hread
  cases hread

theorem parseClock_short (turns : ℕ) {fields : List ℕ} {separated follows : Bool} {text : List Char} (h : text.length < 2) :
    parseClock turns fields separated follows (text ++ utcOffset) = none := by
  cases turns with
  | zero => exact parseFraction_short h
  | succ turns =>
    rw [parseClock, readDigits_short h]
    rfl

/-- A fraction that nothing stands behind ends before an offset that is appended. -/
theorem parseFraction_of_append {fields : List ℕ} {text : List Char} {c : Clock}
    (h : parseFraction fields (text ++ utcOffset) false = some c) (hmore : c.more = false) :
    parseFraction fields text false = some c := by
  obtain ⟨value, rest, hread, rfl⟩ := parseFraction_eq_some.mp h
  rw [min_length_append] at hread
  obtain ⟨left, rfl, hleft⟩ := readDigits_of_append (by decide) hread
  have hlength : min 6 text.length = 6 := by
    obtain ⟨digits, rfl, hdigits, -⟩ := readDigits_eq_some.mp hleft
    rw [List.length_append]
    omega
  refine parseFraction_eq_some.mpr ⟨value, left, by rw [hlength, hleft], ?_⟩
  rw [hlength, min_length_append]
  congr 1
  dsimp only at hmore
  rw [List.dropWhile_append] at hmore ⊢
  cases hrest : left.dropWhile Char.isDigit with
  | nil =>
    rw [hrest] at hmore
    cases hmore
  | cons d more => rfl

/-- Whether a clock has colons, once the character behind its first two digits is known. -/
def hasColons (fields : List ℕ) (separated : Bool) (first : Char) : Bool := if fields.length = 1 then first = ':' else separated

/-- What the loop of a clock does with two characters or more that stand behind its last two digits. -/
def clockStep (turns : ℕ) (fields : List ℕ) (separated follows : Bool) (first : Char) (more : List Char) : Option Clock :=
  if separated ∧ first = ':' then parseClock turns fields separated follows more
  else if first = '.' ∨ first = ',' then parseFraction fields more follows
  else if !separated then parseClock turns fields separated follows (first :: more)
  else none

theorem parseClock_step {turns : ℕ} {fields : List ℕ} {separated follows : Bool} {text more : List Char} {value : ℕ}
    {first second : Char} (h : readDigits 2 text = some (value, first :: second :: more)) :
    parseClock (turns + 1) fields separated follows text =
      clockStep turns (fields ++ [value]) (hasColons (fields ++ [value]) separated first) follows first (second :: more) := by
  rw [parseClock, h]
  dsimp only [Option.bind_eq_bind, Option.bind_some]
  by_cases hfirst : (fields ++ [value]).length = 1
  · simp only [clockStep, hasColons, if_pos hfirst, decide_eq_true_eq]
  · simp only [clockStep, hasColons, if_neg hfirst, Bool.decide_eq_true]

theorem clockStep_of_append {turns : ℕ} {fields : List ℕ} {separated : Bool} {first : Char} {more : List Char} {c : Clock}
    (ih : ∀ {text : List Char}, parseClock turns fields separated false (text ++ utcOffset) = some c →
      parseClock turns fields separated false text = some c)
    (h : clockStep turns fields separated false first (more ++ utcOffset) = some c) (hmore : c.more = false) :
    clockStep turns fields separated false first more = some c := by
  unfold clockStep at h ⊢
  by_cases hcolon : separated = true ∧ first = ':'
  · rw [if_pos hcolon] at h ⊢
    exact ih h
  · rw [if_neg hcolon] at h ⊢
    by_cases hpoint : first = '.' ∨ first = ','
    · rw [if_pos hpoint] at h ⊢
      exact parseFraction_of_append h hmore
    · rw [if_neg hpoint] at h ⊢
      by_cases hjoined : (!separated) = true
      · rw [if_pos hjoined] at h ⊢
        exact ih h
      · rw [if_neg hjoined] at h
        cases h

/-- Nothing but an offset stands behind the first character. -/
theorem clockStep_short {turns : ℕ} {fields : List ℕ} {separated follows : Bool} {first : Char} :
    clockStep turns fields separated follows first utcOffset = none := by
  have hbehind : parseClock turns fields separated follows utcOffset = none := parseClock_short turns (by decide : ([] : List Char).length < 2)
  have hfraction : parseFraction fields utcOffset follows = none := parseFraction_short (by decide : ([] : List Char).length < 2)
  have hwhole : parseClock turns fields separated follows ([first] ++ utcOffset) = none := parseClock_short turns Nat.one_lt_two
  rw [List.singleton_append] at hwhole
  unfold clockStep
  rw [hbehind, hfraction, hwhole]
  simp only [ite_self]

/-- The sign of an offset is not read as a part of the clock. -/
theorem clockStep_sign {turns : ℕ} {fields : List ℕ} {separated follows : Bool} :
    clockStep turns fields separated follows '+' utcOffset.tail = none := by
  have hwhole : parseClock turns fields separated follows ('+' :: utcOffset.tail) = none :=
    parseClock_short turns (by decide : ([] : List Char).length < 2)
  have hcolon : ¬(separated = true ∧ '+' = ':') := by simp
  unfold clockStep
  rw [if_neg hcolon, if_neg (by decide), hwhole]
  simp only [ite_self]

theorem parseClock_of_append (turns : ℕ) {fields : List ℕ} {separated : Bool} {text : List Char} {c : Clock}
    (h : parseClock turns fields separated false (text ++ utcOffset) = some c) (hmore : c.more = false) :
    parseClock turns fields separated false text = some c := by
  induction turns generalizing fields separated text with
  | zero => exact parseFraction_of_append h hmore
  | succ turns ih =>
    cases hread : readDigits 2 (text ++ utcOffset) with
    | none =>
      rw [parseClock, hread] at h
      cases h
    | some pair =>
      obtain ⟨value, rest⟩ := pair
      obtain ⟨left, rfl, hleft⟩ := readDigits_of_append (by decide) hread
      match left with
      | [] =>
        rw [parseClock_step hread] at h
        cases clockStep_sign.symm.trans h
      | [first] =>
        rw [parseClock_step hread] at h
        cases clockStep_short.symm.trans h
      | first :: second :: more =>
        rw [parseClock_step hread] at h
        rw [parseClock_step hleft]
        exact clockStep_of_append ih h hmore

/-! ## Times -/

/-- A character that ends the clock. -/
def isSign (c : Char) : Bool := c = '+' ∨ c = '-' ∨ c = 'Z'

def clockOf (text : List Char) : List Char := text.takeWhile fun c => !isSign c

def zoneOf (text : List Char) : List Char := text.dropWhile fun c => !isSign c

/-- The offset that a zone stands for; without a zone nothing may be left behind the clock. -/
def readZone (more : Bool) : List Char → Option (Option ℤ)
  | [] => if more then none else some none
  | 'Z' :: rest => if isMore rest false then none else some (some 0)
  | sign :: rest => do
    let offset ← parseClock 3 [] true false rest
    if offset.more ∨ 86400 ≤ offset.seconds then none
    else pure (some (if sign = '-' then -offset.microseconds else offset.microseconds))

theorem readZone_of_ne {more : Bool} {sign : Char} {rest : List Char} (hsign : sign ≠ 'Z') :
    readZone more (sign :: rest) = (parseClock 3 [] true false rest).bind fun clock =>
      if clock.more ∨ 86400 ≤ clock.seconds then none
      else some (some (if sign = '-' then -clock.microseconds else clock.microseconds)) := by
  unfold readZone
  split
  · contradiction
  · rename_i heq
    exact absurd (List.cons.inj heq).1 hsign
  · rename_i heq
    obtain ⟨rfl, rfl⟩ := List.cons.inj heq
    rfl

theorem parseTime_eq (text : List Char) : parseTime text =
    (parseClock 3 [] true (zoneOf text ≠ []) (clockOf text)).bind fun clock =>
      if !clock.valid then none else (readZone clock.more (zoneOf text)).map fun offset => (clock.microseconds, offset) := by
  unfold parseTime
  refine congrArg (Option.bind (parseClock 3 [] true (zoneOf text ≠ []) (clockOf text))) (funext fun clock => ?_)
  cases clock.valid
  · rfl
  · have hzone : List.dropWhile (fun c => !(fun c : Char => decide (c = '+' ∨ c = '-' ∨ c = 'Z')) c) text = zoneOf text := rfl
    have hvalid : ¬((!true) = true) := Bool.false_ne_true
    rw [hzone, if_neg hvalid, if_neg hvalid]
    cases zoneOf text with
    | nil => cases clock.more <;> rfl
    | cons sign rest =>
      by_cases hZ : sign = 'Z'
      · subst hZ
        change (if isMore rest false then none else some (clock.microseconds, some 0)) =
          Option.map (fun offset => (clock.microseconds, offset)) (if isMore rest false then none else some (some 0))
        cases isMore rest false <;> rfl
      · rw [readZone_of_ne hZ]
        split
        · contradiction
        · rename_i heq
          exact absurd (List.cons.inj heq).1 hZ
        · rename_i heq
          obtain ⟨rfl, rfl⟩ := List.cons.inj heq
          cases parseClock 3 [] true false rest with
          | none => rfl
          | some offset =>
            dsimp only [Option.bind_eq_bind, Option.bind_some]
            split_ifs <;> rfl

theorem parseTime_eq_some {text : List Char} {micros : ℤ} {offset : Option ℤ} : parseTime text = some (micros, offset) ↔
    ∃ clock, parseClock 3 [] true (zoneOf text ≠ []) (clockOf text) = some clock ∧ clock.valid = true ∧
      readZone clock.more (zoneOf text) = some offset ∧ clock.microseconds = micros := by
  rw [parseTime_eq]
  constructor
  · intro h
    obtain ⟨clock, hclock, h⟩ := Option.bind_eq_some_iff.mp h
    by_cases hvalid : clock.valid = true
    · rw [hvalid] at h
      obtain ⟨_, hzone, heq⟩ := Option.map_eq_some_iff.mp h
      obtain ⟨hmicros, rfl⟩ := Prod.mk.inj heq
      exact ⟨clock, hclock, hvalid, hzone, hmicros⟩
    · rw [Bool.eq_false_iff.mpr hvalid] at h
      cases h
  · rintro ⟨clock, hclock, hvalid, hzone, rfl⟩
    refine Option.bind_eq_some_iff.mpr ⟨clock, hclock, ?_⟩
    rw [hvalid, hzone]
    rfl

theorem clockOf_append_zoneOf (text : List Char) : clockOf text ++ zoneOf text = text := List.takeWhile_append_dropWhile

theorem of_no_zone {text : List Char} (h : zoneOf text = []) :
    clockOf text = text ∧ clockOf (text ++ utcOffset) = text ∧ zoneOf (text ++ utcOffset) = utcOffset := by
  have hclock : clockOf text = text := by
    have happend := clockOf_append_zoneOf text
    rwa [h, List.append_nil] at happend
  have hsign : clockOf utcOffset = [] ∧ zoneOf utcOffset = utcOffset := by decide
  unfold clockOf zoneOf at *
  refine ⟨hclock, ?_, ?_⟩
  · rw [List.takeWhile_append, hclock, if_pos rfl, hsign.1, List.append_nil]
  · rw [List.dropWhile_append, h, List.isEmpty_nil, if_pos rfl, hsign.2]

theorem of_zone {text : List Char} (h : zoneOf text ≠ []) :
    clockOf (text ++ utcOffset) = clockOf text ∧ zoneOf (text ++ utcOffset) = zoneOf text ++ utcOffset := by
  have hlength : (clockOf text).length ≠ text.length := by
    have happend := congrArg List.length (clockOf_append_zoneOf text)
    have hpos := List.length_pos_iff.mpr h
    rw [List.length_append] at happend
    omega
  unfold clockOf zoneOf at *
  refine ⟨?_, ?_⟩
  · rw [List.takeWhile_append, if_neg hlength]
  · rw [List.dropWhile_append, if_neg (by rwa [List.isEmpty_iff])]

theorem readZone_utcOffset (more : Bool) : readZone more utcOffset = some (some 0) := by
  cases more <;> decide

theorem readZone_Z {more : Bool} {rest : List Char} {offset : Option ℤ} (h : readZone more ('Z' :: rest) = some offset) :
    offset = some 0 := by
  rw [readZone] at h
  split_ifs at h
  exact (Option.some.inj h).symm

theorem readZone_sign {more : Bool} {sign : Char} {rest : List Char} {offset : Option ℤ} (hsign : sign ≠ 'Z') :
    readZone more (sign :: rest) = some offset ↔ ∃ clock, parseClock 3 [] true false rest = some clock ∧ clock.more = false ∧
      clock.seconds < 86400 ∧ offset = some (if sign = '-' then -clock.microseconds else clock.microseconds) := by
  rw [readZone_of_ne hsign, Option.bind_eq_some_iff]
  constructor
  · rintro ⟨clock, hclock, h⟩
    by_cases hbad : clock.more = true ∨ 86400 ≤ clock.seconds
    · rw [if_pos hbad] at h
      cases h
    · rw [if_neg hbad] at h
      rw [not_or, Bool.not_eq_true, not_le] at hbad
      exact ⟨clock, hclock, hbad.1, hbad.2, (Option.some.inj h).symm⟩
  · rintro ⟨clock, hclock, hmore, hseconds, rfl⟩
    refine ⟨clock, hclock, if_neg ?_⟩
    rw [not_or, hmore, not_le]
    exact ⟨Bool.false_ne_true, hseconds⟩

/-- What is appended to a zone that is read as a whole stands behind a NUL. -/
theorem readZone_append {more : Bool} {zone : List Char} {offset offset' : Option ℤ} (hne : zone ≠ [])
    (h : readZone more (zone ++ utcOffset) = some offset) (halone : readZone more zone = some offset') :
    offset = some (offset'.getD 0) := by
  obtain ⟨sign, rest, rfl⟩ := List.exists_cons_of_ne_nil hne
  rw [List.cons_append] at h
  by_cases hsign : sign = 'Z'
  · subst hsign
    rw [readZone_Z h, readZone_Z halone]
    rfl
  · obtain ⟨clock, hclock, hmore, -, rfl⟩ := (readZone_sign hsign).mp h
    obtain ⟨clock', hclock', -, -, rfl⟩ := (readZone_sign hsign).mp halone
    obtain rfl : clock = clock' := Option.some.inj ((parseClock_of_append 3 hclock hmore).symm.trans hclock')
    rfl

/-- The clock of a time is its own before an offset that is appended, and so is its zone if it has one. -/
theorem parseTime_append {text : List Char} {micros micros' : ℤ} {offset offset' : Option ℤ}
    (h : parseTime (text ++ utcOffset) = some (micros, offset)) (halone : parseTime text = some (micros', offset')) :
    micros' = micros ∧ offset = some (offset'.getD 0) := by
  obtain ⟨clock, hclock, -, hzone, rfl⟩ := parseTime_eq_some.mp h
  obtain ⟨clock', hclock', -, hzone', rfl⟩ := parseTime_eq_some.mp halone
  by_cases hnone : zoneOf text = []
  · obtain ⟨hself, hfront, hoffset⟩ := of_no_zone hnone
    rw [hfront] at hclock
    rw [hself] at hclock'
    rw [hoffset, readZone_utcOffset] at hzone
    have hnaive : offset' = none := by
      rw [hnone, readZone] at hzone'
      split_ifs at hzone'
      exact (Option.some.inj hzone').symm
    refine ⟨(parseClock_same 3 hclock' hclock).microseconds, ?_⟩
    rw [hnaive, ← Option.some.inj hzone]
    rfl
  · obtain ⟨hfront, hoffset⟩ := of_zone hnone
    have hne : zoneOf text ++ utcOffset ≠ [] := List.append_ne_nil_of_left_ne_nil hnone _
    rw [hfront, hoffset, decide_eq_true hne] at hclock
    rw [decide_eq_true hnone] at hclock'
    obtain rfl : clock = clock' := Option.some.inj (hclock.symm.trans hclock')
    rw [hoffset] at hzone
    exact ⟨rfl, readZone_append hnone hzone hzone'⟩

/-- With an offset appended to it a time is aware. -/
theorem parseTime_aware {text : List Char} {micros : ℤ} {offset : Option ℤ}
    (h : parseTime (text ++ utcOffset) = some (micros, offset)) : ∃ o, offset = some o := by
  obtain ⟨clock, -, -, hzone, -⟩ := parseTime_eq_some.mp h
  by_cases hnone : zoneOf text = []
  · rw [(of_no_zone hnone).2.2, readZone_utcOffset] at hzone
    exact ⟨0, (Option.some.inj hzone).symm⟩
  · rw [(of_zone hnone).2] at hzone
    obtain ⟨sign, rest, hsign⟩ := List.exists_cons_of_ne_nil hnone
    rw [hsign, List.cons_append] at hzone
    by_cases hz : sign = 'Z'
    · subst hz
      exact ⟨0, readZone_Z hzone⟩
    · obtain ⟨_, -, -, -, rfl⟩ := (readZone_sign hz).mp hzone
      exact ⟨_, rfl⟩

/-! ## Dates -/

/-- The part of a date behind its last dash. -/
def readDay (width : ℕ) (dashed : Bool) (rest : List Char) (days : ℕ → Option ℕ) : Option ℕ :=
  if dashed ∧ rest.head? ≠ some '-' then none
  else (readDigits width (if dashed then rest.tail else rest)).bind fun pair => days pair.1

/-- The part of a date behind its first dash. -/
def readYearDay (year : ℕ) (dashed : Bool) (rest : List Char) : Option ℕ :=
  if rest.head? = some 'W' then
    (readDigits 2 rest.tail).bind fun pair =>
      if pair.2 = [] then weekDays year pair.1 1 else readDay 1 dashed pair.2 (weekDays year pair.1)
  else (readDigits 2 rest).bind fun pair => readDay 2 dashed pair.2 (calendarDays year pair.1)

theorem parseDate_eq (text : List Char) : parseDate text = (readDigits 4 text).bind fun pair =>
    readYearDay pair.1 (pair.2.head? = some '-') (if pair.2.head? = some '-' then pair.2.tail else pair.2) := by
  unfold parseDate readYearDay readDay
  simp only [decide_eq_true_eq]
  rfl

theorem length_of_readDigits {width : ℕ} {text rest : List Char} {value : ℕ} (h : readDigits width text = some (value, rest)) :
    text.length = width + rest.length := by
  obtain ⟨digits, rfl, rfl, -⟩ := readDigits_eq_some.mp h
  exact List.length_append

theorem getElem?_of_readDigits {width : ℕ} {text rest : List Char} {value : ℕ} (h : readDigits width text = some (value, rest)) :
    text[width]? = rest.head? := by
  obtain ⟨digits, rfl, rfl, -⟩ := readDigits_eq_some.mp h
  rw [List.getElem?_append_right le_rfl, Nat.sub_self, List.head?_eq_getElem?]

/-- One character more if there are dashes. -/
def dashWidth (dashed : Bool) : ℕ := if dashed then 1 else 0

theorem width_le_of_readDay {width : ℕ} {dashed : Bool} {text behind : List Char} {days : ℕ → Option ℕ} {n : ℕ}
    (h : readDay width dashed (text ++ '+' :: behind) days = some n) : dashWidth dashed + width ≤ text.length := by
  unfold readDay at h
  by_cases hdash : dashed = true ∧ (text ++ '+' :: behind).head? ≠ some '-'
  · rw [if_pos hdash] at h
    cases h
  · rw [if_neg hdash] at h
    obtain ⟨⟨value, rest⟩, hread, -⟩ := Option.bind_eq_some_iff.mp h
    cases dashed with
    | false =>
      rw [if_neg Bool.false_ne_true] at hread
      obtain ⟨left, -, hleft⟩ := readDigits_of_append (by decide) hread
      have hlength := length_of_readDigits hleft
      rw [dashWidth, if_neg Bool.false_ne_true]
      omega
    | true =>
      rw [if_pos rfl] at hread
      cases text with
      | nil => simp at hdash
      | cons c text =>
        obtain ⟨left, -, hleft⟩ := readDigits_of_append (by decide) hread
        have hlength := length_of_readDigits hleft
        rw [dashWidth, if_pos rfl, List.length_cons]
        omega

theorem width_le_of_readYearDay {year : ℕ} {dashed : Bool} {text behind : List Char} {n : ℕ}
    (h : readYearDay year dashed (text ++ '+' :: behind) = some n) : dashWidth dashed + 4 ≤ text.length := by
  unfold readYearDay at h
  by_cases hweek : (text ++ '+' :: behind).head? = some 'W'
  · rw [if_pos hweek] at h
    obtain ⟨⟨week, rest⟩, hread, h⟩ := Option.bind_eq_some_iff.mp h
    cases text with
    | nil => simp at hweek
    | cons c text =>
      obtain ⟨left, rfl, hleft⟩ := readDigits_of_append (by decide) hread
      have hlength := length_of_readDigits hleft
      rw [if_neg (by simp)] at h
      have hday := width_le_of_readDay h
      rw [List.length_cons]
      omega
  · rw [if_neg hweek] at h
    obtain ⟨⟨month, rest⟩, hread, h⟩ := Option.bind_eq_some_iff.mp h
    obtain ⟨left, rfl, hleft⟩ := readDigits_of_append (by decide) hread
    have hlength := length_of_readDigits hleft
    have hday := width_le_of_readDay h
    omega

/-- A date that a sign stands behind has all its characters before the sign. -/
theorem width_le_of_parseDate {text behind : List Char} {days : ℕ} (h : parseDate (text ++ '+' :: behind) = some days) :
    2 * dashWidth (text[4]? = some '-') + 8 ≤ text.length := by
  rw [parseDate_eq] at h
  obtain ⟨⟨year, rest⟩, hyear, h⟩ := Option.bind_eq_some_iff.mp h
  obtain ⟨left, rfl, hleft⟩ := readDigits_of_append (by decide) hyear
  have hlength := length_of_readDigits hleft
  rw [getElem?_of_readDigits hleft]
  cases left with
  | nil =>
    have hrest := width_le_of_readYearDay (h : readYearDay _ _ ([] ++ _) = _)
    rw [List.length_nil] at hrest
    omega
  | cons c left =>
    by_cases hdash : c = '-'
    · subst hdash
      simp only [List.cons_append, List.head?_cons, decide_true, if_true, List.tail_cons] at h
      have hrest := width_le_of_readYearDay h
      simp only [List.head?_cons, decide_true, dashWidth, if_true, List.length_cons] at hrest hlength ⊢
      omega
    · simp only [List.cons_append, List.head?_cons, Option.some.injEq, hdash, decide_false, if_false] at h
      have hjoined : readYearDay year false ((c :: left) ++ '+' :: behind) = some days := h
      have hrest := width_le_of_readYearDay hjoined
      simp only [List.head?_cons, Option.some.injEq, hdash, decide_false, dashWidth, Bool.false_eq_true, if_false] at hrest ⊢
      omega

/-! ## Separators -/

theorem seven_le_separatorOf (text : List Char) : 7 ≤ separatorOf text := by
  unfold separatorOf
  dsimp only
  split_ifs <;> omega

theorem separatorOf_le (text : List Char) : separatorOf text ≤ 2 * dashWidth (text[4]? = some '-') + 8 := by
  unfold separatorOf
  dsimp only
  by_cases hdash : text[4]? = some '-'
  · have hwidth : dashWidth (text[4]? = some '-') = 1 := by rw [decide_eq_true hdash]; rfl
    rw [hwidth]
    split_ifs <;> omega
  · have hwidth : dashWidth (text[4]? = some '-') = 0 := by rw [decide_eq_false hdash]; rfl
    rw [hwidth]
    split_ifs <;> omega

/-- The date of a text with an offset appended ends before the offset. -/
theorem separatorOf_append_le {text : List Char} {days : ℕ}
    (h : parseDate ((text ++ utcOffset).take (separatorOf (text ++ utcOffset))) = some days) :
    separatorOf (text ++ utcOffset) ≤ text.length := by
  by_contra hgt
  rw [not_le] at hgt
  obtain ⟨k, hk⟩ : ∃ k, separatorOf (text ++ utcOffset) - text.length = k + 1 := ⟨_, (Nat.succ_pred_eq_of_pos (by omega)).symm⟩
  have htake : (text ++ utcOffset).take (separatorOf (text ++ utcOffset)) = text ++ '+' :: utcOffset.tail.take k := by
    rw [List.take_append, List.take_of_length_le hgt.le, hk]
    rfl
  rw [htake] at h
  have hwidth := width_le_of_parseDate h
  have hle := separatorOf_le (text ++ utcOffset)
  rw [List.getElem?_append_left (by omega)] at hle
  omega

theorem getElem?_utcOffset {text : List Char} : (text ++ utcOffset)[text.length]? = some '+' := by
  rw [List.getElem?_append_right le_rfl, Nat.sub_self]
  rfl

/-- Where a separator stands behind a date of an ISO week with dashes, whose text is `text`. -/
def weekSeparator (text : List Char) : ℕ :=
  if text[8]? = some '-' then (if text[10]?.any Char.isDigit then 8 else 10) else 8

theorem eight_le_weekSeparator (text : List Char) : 8 ≤ weekSeparator text := by
  unfold weekSeparator
  split_ifs <;> omega

theorem weekSeparator_append {text : List Char} (hle : weekSeparator (text ++ utcOffset) ≤ text.length)
    (hne : text.length ≠ weekSeparator (text ++ utcOffset) + 1) : weekSeparator (text ++ utcOffset) = weekSeparator text := by
  have height := (eight_le_weekSeparator (text ++ utcOffset)).trans hle
  by_cases hshort : text.length = 8
  · have hbehind : (text ++ utcOffset)[8]? = some '+' := hshort ▸ getElem?_utcOffset
    have hnone : text[8]? = none := List.getElem?_eq_none (by omega)
    unfold weekSeparator
    rw [hbehind, hnone, if_neg (by decide), if_neg (by decide)]
  · have hsame : (text ++ utcOffset)[8]? = text[8]? := List.getElem?_append_left (by omega)
    by_cases hdash : text[8]? = some '-'
    · unfold weekSeparator at hle hne ⊢
      rw [hsame, if_pos hdash] at hle hne ⊢
      rw [if_pos hdash]
      rcases (by omega : text.length = 9 ∨ text.length = 10 ∨ 10 < text.length) with hlength | hlength | hlength
      · split_ifs at hle hne <;> omega
      · have hbehind : (text ++ utcOffset)[10]? = some '+' := hlength ▸ getElem?_utcOffset
        have hnone : text[10]? = none := List.getElem?_eq_none (by omega)
        rw [hbehind, hnone]
        rfl
      · rw [List.getElem?_append_left hlength]
    · unfold weekSeparator
      rw [hsame, if_neg hdash, if_neg hdash]

theorem digits_append {text : List Char} (h : 7 ≤ text.length) :
    ((text ++ utcOffset).drop 7).takeWhile Char.isDigit = (text.drop 7).takeWhile Char.isDigit := by
  have hnone : utcOffset.takeWhile Char.isDigit = [] := by decide
  rw [List.drop_append_of_le_length h, List.takeWhile_append, hnone, List.append_nil]
  by_cases hall : ((text.drop 7).takeWhile Char.isDigit).length = (text.drop 7).length
  · rw [if_pos hall]
    exact ((List.takeWhile_prefix _).eq_of_length hall).symm
  · rw [if_neg hall]

/-- An offset that is appended behind more than a separator does not move the separator. -/
theorem separatorOf_append {text : List Char} (hle : separatorOf (text ++ utcOffset) ≤ text.length)
    (hne : text.length ≠ separatorOf (text ++ utcOffset) + 1) : separatorOf (text ++ utcOffset) = separatorOf text := by
  have hseven := (seven_le_separatorOf (text ++ utcOffset)).trans hle
  have hlong : (text ++ utcOffset).length ≠ 7 := by
    have hlength : utcOffset.length = 6 := rfl
    rw [List.length_append, hlength]
    omega
  unfold separatorOf at hle hne ⊢
  rw [if_neg hlong, List.getElem?_append_left (by omega : 4 < text.length), List.getElem?_append_left (by omega : 5 < text.length)]
    at hle hne ⊢
  by_cases hdash : text[4]? = some '-'
  · rw [if_pos hdash] at hle hne ⊢
    by_cases hweek : text[5]? = some 'W'
    · rw [if_pos hweek] at hle hne ⊢
      change weekSeparator (text ++ utcOffset) ≤ text.length at hle
      have height : text.length ≠ 7 := by
        have hwidth := (eight_le_weekSeparator (text ++ utcOffset)).trans hle
        omega
      rw [if_neg height, if_pos hdash, if_pos hweek]
      exact weekSeparator_append hle hne
    · rw [if_neg hweek] at hle hne ⊢
      have hten : text.length ≠ 7 := by omega
      rw [if_neg hten, if_pos hdash, if_neg hweek]
  · rw [if_neg hdash] at hle hne ⊢
    by_cases hweek : text[4]? = some 'W'
    · rw [if_pos hweek] at hle hne ⊢
      rw [digits_append hseven]
      by_cases hlength : text.length = 7
      · rw [if_pos hlength, List.drop_of_length_le hlength.le]
        rfl
      · rw [if_neg hlength, if_neg hdash, if_pos hweek]
    · rw [if_neg hweek] at hle hne ⊢
      have height : text.length ≠ 7 := by omega
      rw [if_neg height, if_neg hdash, if_neg hweek]

/-! ## Accepted times -/

theorem requireTime_eq_ok {text : String} {name : String} {m : Moment} :
    requireTime (.str text) name = .ok m ↔
      text.length ≤ 40 ∧ text.toList.getLast? = some 'Z' ∧ fromisoformat (beforeZ text ++ utcOffset) = some m := by
  have hoffset : "+00:00".toList = utcOffset := by decide
  unfold requireTime
  dsimp only
  rw [hoffset]
  by_cases htext : text.length ≤ 40 ∧ text.toList.getLast? = some 'Z'
  · rw [if_pos htext, beforeZ]
    cases fromisoformat (text.toList.dropLast ++ utcOffset) with
    | none => simp
    | some moment => simp [htext]
  · rw [if_neg htext]
    simp only [reduceCtorEq, false_iff]
    exact fun h => htext ⟨h.1, h.2.1⟩

theorem fromisoformat_eq_some {text : List Char} {m : Moment} : fromisoformat text = some m ↔ 7 ≤ text.length ∧
    ∃ days micros, parseDate (text.take (separatorOf text)) = some days ∧
      parseAfterDate (text.drop (separatorOf text)) = some (micros, m.offset) ∧ days * 86400000000 + micros = m.clock := by
  unfold fromisoformat
  by_cases hshort : text.length < 7
  · simp [hshort, not_le.mpr hshort]
  · rw [if_neg hshort]
    constructor
    · intro h
      obtain ⟨days, hdays, h⟩ := Option.bind_eq_some_iff.mp h
      obtain ⟨⟨micros, offset⟩, htime, h⟩ := Option.bind_eq_some_iff.mp h
      obtain rfl := Option.some.inj h
      exact ⟨not_lt.mp hshort, days, micros, hdays, htime, rfl⟩
    · rintro ⟨-, days, micros, hdays, htime, hclock⟩
      refine Option.bind_eq_some_iff.mpr ⟨days, hdays, Option.bind_eq_some_iff.mpr ⟨_, htime, ?_⟩⟩
      obtain ⟨clock, offset⟩ := m
      obtain rfl : days * 86400000000 + micros = clock := hclock
      rfl

theorem parseAfterDate_of_two {c d : Char} {text : List Char} : parseAfterDate (c :: d :: text) = parseTime (d :: text) := by
  rw [parseAfterDate, if_neg]
  · rfl
  · simp

theorem parseTime_utcOffset : parseTime utcOffset = none := by decide

/-- Behind its date an accepted text has nothing, and is naive, or a separator and a time with its offset. -/
theorem accepted_reading {text : String} {name : String} {m : Moment} (h : requireTime (.str text) name = .ok m) :
    ∃ days : ℕ, parseDate ((beforeZ text).take (separatorOf (beforeZ text))) = some days ∧
      ((beforeZ text).length = separatorOf (beforeZ text) ∧ m.offset = none ∨
        ∃ c d time micros offset, (beforeZ text).drop (separatorOf (beforeZ text)) = c :: d :: time ∧
          parseTime (d :: time ++ utcOffset) = some (micros, some offset) ∧ m = ⟨days * 86400000000 + micros, some offset⟩) := by
  obtain ⟨-, -, hread⟩ := requireTime_eq_ok.mp h
  obtain ⟨-, days, micros, hdays, htime, hclock⟩ := fromisoformat_eq_some.mp hread
  have hle := separatorOf_append_le hdays
  have hseparator := @separatorOf_append (beforeZ text) hle
  rw [List.take_append_of_le_length hle] at hdays
  rw [List.drop_append_of_le_length hle] at htime
  match hrest : (beforeZ text).drop (separatorOf (beforeZ text ++ utcOffset)) with
  | [] =>
    have hlength := List.drop_eq_nil_iff.mp hrest
    have hsame := hseparator (by omega)
    have hnaive : parseAfterDate ([] ++ utcOffset) = some (0, none) := by decide
    rw [hrest, hnaive] at htime
    rw [hsame] at hdays hlength hle
    exact ⟨days, hdays, .inl ⟨le_antisymm hlength hle, (Prod.mk.inj (Option.some.inj htime)).2.symm⟩⟩
  | [c] =>
    have hnone : parseAfterDate ([c] ++ utcOffset) = none := by
      rw [← parseTime_utcOffset]
      exact parseAfterDate_of_two
    rw [hrest, hnone] at htime
    cases htime
  | c :: d :: time =>
    have hlength := congrArg List.length hrest
    rw [List.length_drop, List.length_cons, List.length_cons] at hlength
    have hsame := hseparator (by omega)
    have hjoined : parseTime (d :: time ++ utcOffset) = some (micros, m.offset) := by
      rw [hrest] at htime
      rw [← htime]
      exact parseAfterDate_of_two.symm
    obtain ⟨offset, hoffset⟩ := parseTime_aware hjoined
    rw [hsame] at hdays hrest
    rw [hoffset] at hjoined
    refine ⟨days, hdays, .inr ⟨c, d, time, micros, offset, hrest, hjoined, ?_⟩⟩
    rw [hclock, ← hoffset]

theorem isAware_iff {text : String} {name : String} {m : Moment} (h : requireTime (.str text) name = .ok m) :
    m.isAware = true ↔ HasTime text := by
  obtain ⟨days, -, ⟨hlength, hnaive⟩ | ⟨c, d, time, micros, offset, hrest, -, rfl⟩⟩ := accepted_reading h
  · unfold Moment.isAware HasTime
    rw [hnaive, hlength]
    simp
  · have hlength := congrArg List.length hrest
    rw [List.length_drop, List.length_cons, List.length_cons] at hlength
    have htime : HasTime text := by
      unfold HasTime
      omega
    exact iff_of_true rfl htime

/-- The text that is accepted, and the text before its `Z`, where both are datetimes. -/
theorem accepted_alone {text : String} {name : String} {m alone : Moment} (h : requireTime (.str text) name = .ok m)
    (htime : HasTime text) (halone : fromisoformat (beforeZ text) = some alone) :
    alone.clock = m.clock ∧ m.offset = some (alone.offset.getD 0) := by
  obtain ⟨days, hdays, ⟨hlength, -⟩ | ⟨c, d, time, micros, offset, hrest, hjoined, rfl⟩⟩ := accepted_reading h
  · exact absurd htime (by rw [HasTime, hlength]; exact lt_irrefl _)
  · obtain ⟨-, days', micros', hdays', hafter, hclock⟩ := fromisoformat_eq_some.mp halone
    obtain rfl : days = days' := Option.some.inj (hdays.symm.trans hdays')
    rw [hrest, parseAfterDate_of_two] at hafter
    obtain ⟨rfl, hoffset⟩ := parseTime_append hjoined hafter
    exact ⟨hclock.symm, hoffset⟩

theorem denotesUtc_iff {text : String} {name : String} {m : Moment} (h : requireTime (.str text) name = .ok m) :
    DenotesUtc text m ↔ HasUtcTime text := by
  constructor
  · rintro ⟨hoffset, alone, halone, -⟩
    have htime : HasTime text := (isAware_iff h).mp (by rw [Moment.isAware, hoffset]; rfl)
    obtain ⟨-, hshift⟩ := accepted_alone h htime halone
    refine ⟨htime, alone, halone, ?_⟩
    cases hzone : alone.offset with
    | none => exact .inl rfl
    | some offset =>
      rw [hoffset, hzone] at hshift
      exact .inr hshift.symm
  · rintro ⟨htime, alone, halone, hzone⟩
    obtain ⟨hclock, hshift⟩ := accepted_alone h htime halone
    have hzero : alone.offset.getD 0 = 0 := by
      rcases hzone with hzone | hzone <;> rw [hzone] <;> rfl
    rw [hzero] at hshift
    refine ⟨hshift, alone, halone, ?_⟩
    rw [Moment.instant, Moment.instant, hclock, hzero, hshift]
    rfl

example : fromisoformat "2026-01-01".toList = some ⟨739616 * 86400000000, none⟩ := by decide +kernel

end HarnessConformance.Campaign
