import HarnessConformance.Lib.Splitting

/-! # Internet addresses

The numbers of IPv4 and IPv6 addresses, read from their literals and written as their canonical text: four decimal
octets, and eight hexadecimal groups of which the longest run of zeros is left out. An address written is read back. -/

namespace HarnessConformance.Lib.IpAddress
open Splitting
set_option autoImplicit false

abbrev Text := List Char

/-! ## Numerals -/

def digitValue (c : Char) : ℕ := if c.isDigit then c.toNat - 48 else if c.isLower then c.toNat - 87 else c.toNat - 55

def isHex (c : Char) : Bool := c.isDigit || ('a' ≤ c && c ≤ 'f') || ('A' ≤ c && c ≤ 'F')

/-- The number of a list of digits, the highest first. -/
def ofWords (base : ℕ) (words : List ℕ) : ℕ := words.foldl (fun n w => base * n + w) 0

def valueIn (base : ℕ) (text : Text) : ℕ := ofWords base (text.map digitValue)

/-- The lowest `count` digits of a number, the highest first. -/
def words (base : ℕ) : ℕ → ℕ → List ℕ
  | 0, _ => []
  | count + 1, n => words base count (n / base) ++ [n % base]

theorem ofWords_concat (base : ℕ) (ws : List ℕ) (w : ℕ) : ofWords base (ws ++ [w]) = base * ofWords base ws + w := by
  simp [ofWords]

theorem ofWords_words (base count n : ℕ) : ofWords base (words base count n) = n % base ^ count := by
  induction count generalizing n with
  | zero => rw [words, pow_zero, Nat.mod_one]; rfl
  | succ count ih =>
    rw [words, ofWords_concat, ih, pow_succ', Nat.mod_mul]
    exact Nat.add_comm _ _

theorem words_lt {base : ℕ} (hbase : 0 < base) {count n w : ℕ} (h : w ∈ words base count n) : w < base := by
  induction count generalizing n with
  | zero => cases h
  | succ count ih =>
    rcases List.mem_append.mp h with h | h
    · exact ih h
    · rw [List.mem_singleton.mp h]
      exact Nat.mod_lt n hbase

@[simp] theorem length_words (base count n : ℕ) : (words base count n).length = count := by
  induction count generalizing n with
  | zero => rfl
  | succ count ih => rw [words, List.length_append, ih, List.length_singleton]

theorem digitChar_hex : ∀ d < 16, digitValue d.digitChar = d ∧ isHex d.digitChar = true := by decide

section
variable {base : ℕ}

theorem valueIn_toDigits (hbase : 1 < base) (hle : base ≤ 16) (n : ℕ) : valueIn base (Nat.toDigits base n) = n := by
  induction n using Nat.base_induction base hbase with
  | single m hm =>
    rw [Nat.toDigits_of_lt_base hm, valueIn, List.map_singleton, (digitChar_hex m (by omega)).1]
    simp [ofWords]
  | digit m k hk hm ih =>
    rw [← Nat.toDigits_append_toDigits hbase hm hk, Nat.toDigits_of_lt_base hk, valueIn, List.map_append, List.map_singleton,
      ofWords_concat, (digitChar_hex k (by omega)).1]
    exact congrArg (base * · + k) ih

theorem isHex_toDigits (hbase : 1 < base) (hle : base ≤ 16) (n : ℕ) : ∀ c ∈ Nat.toDigits base n, isHex c = true := by
  induction n using Nat.base_induction base hbase with
  | single m hm =>
    rw [Nat.toDigits_of_lt_base hm]
    simpa using (digitChar_hex m (by omega)).2
  | digit m k hk hm ih =>
    rw [← Nat.toDigits_append_toDigits hbase hm hk, Nat.toDigits_of_lt_base hk]
    intro c hc
    rcases List.mem_append.mp hc with hc | hc
    · exact ih c hc
    · rw [List.mem_singleton.mp hc]
      exact (digitChar_hex k (by omega)).2

theorem toDigits_eq_zero (hbase : 1 < base) (hle : base ≤ 16) {n : ℕ} (h : Nat.toDigits base n = ['0']) : n = 0 := by
  have hvalue := valueIn_toDigits hbase hle n
  rw [h] at hvalue
  simpa [valueIn, ofWords, digitValue] using hvalue.symm

end

/-- What is written of each item is read back, item by item. -/
theorem mapM_map {α β : Type} {write : α → β} {read : β → Option α} {xs : List α} (h : ∀ x ∈ xs, read (write x) = some x) :
    (xs.map write).mapM read = some xs := by
  induction xs with
  | nil => rfl
  | cons x xs ih =>
    rw [List.forall_mem_cons] at h
    rw [List.map_cons, List.mapM_cons, h.1, ih h.2]
    rfl

/-! ## Four octets -/

def parseOctet (text : Text) : Option ℕ :=
  if text ≠ [] ∧ text.all Char.isDigit ∧ text.length ≤ 3 ∧ (text = ['0'] ∨ text.head? ≠ some '0') ∧ valueIn 10 text ≤ 255
  then some (valueIn 10 text) else none

def parse4 (text : Text) : Option ℕ :=
  let octets := split ['.'] text
  if octets.length = 4 then (octets.mapM parseOctet).map (ofWords 256) else none

def render4 (n : ℕ) : Text := ['.'].intercalate ((words 256 4 n).map (Nat.toDigits 10))

theorem octet_facts : ∀ b < 256, parseOctet (Nat.toDigits 10 b) = some b ∧ '.' ∉ Nat.toDigits 10 b := by decide +kernel

theorem parse4_render4 {n : ℕ} (h : n < 2 ^ 32) : parse4 (render4 n) = some n := by
  have hoctets : ∀ b ∈ words 256 4 n, b < 256 := fun b hb => words_lt (by decide) hb
  have hsplit : split ['.'] (render4 n) = (words 256 4 n).map (Nat.toDigits 10) := by
    refine split_intercalate (by simp [words]) fun text htext => ?_
    obtain ⟨b, hb, rfl⟩ := List.mem_map.mp htext
    exact (octet_facts b (hoctets b hb)).2
  have hread : ((words 256 4 n).map (Nat.toDigits 10)).mapM parseOctet = some (words 256 4 n) :=
    mapM_map fun b hb => (octet_facts b (hoctets b hb)).1
  unfold parse4
  dsimp only
  rw [hsplit, if_pos (by simp), hread, Option.map_some, ofWords_words]
  exact congrArg some (Nat.mod_eq_of_lt h)

/-! ## Eight groups -/

def parseHextet (text : Text) : Option ℕ :=
  if text ≠ [] ∧ text.all isHex ∧ text.length ≤ 4 then some (valueIn 16 text) else none

/-- The last part, when it is four octets, as the two groups that it stands for. -/
def octetSuffix (parts : List Text) : Option (List Text) :=
  if '.' ∈ parts.getLastD [] then
    (parse4 (parts.getLastD [])).map fun n => parts.dropLast ++ [Nat.toDigits 16 (n / 65536), Nat.toDigits 16 (n % 65536)]
  else some parts

/-- The place of the one empty part inside, if there is any. -/
def skipIndex (parts : List Text) : Option (Option ℕ) :=
  let inside := parts.tail.dropLast
  if 1 < inside.count [] then none else some (if [] ∈ inside then some (inside.idxOf [] + 1) else none)

/-- The groups before and after the empty part, and zeros in its place. -/
def parseSkipped (parts : List Text) (skip : ℕ) : Option (List ℕ) :=
  let high := if parts.headD [] = [] then skip - 1 else skip
  let low := if parts.getLastD [] = [] then parts.length - skip - 2 else parts.length - skip - 1
  if (parts.headD [] = [] ∧ high ≠ 0) ∨ (parts.getLastD [] = [] ∧ low ≠ 0) ∨ 8 ≤ high + low then none
  else do
    let first ← (parts.take high).mapM parseHextet
    let last ← (parts.drop (parts.length - low)).mapM parseHextet
    some (first ++ List.replicate (8 - (high + low)) 0 ++ last)

/-- An address of sixteen bytes, without a zone. -/
def parse6 (text : Text) : Option ℕ := do
  let parts := split [':'] text
  if parts.length < 3 then none
  else do
    let parts ← octetSuffix parts
    if 9 < parts.length then none
    else
      match ← skipIndex parts with
      | some skip => (parseSkipped parts skip).map (ofWords 65536)
      | none =>
        if parts.length ≠ 8 ∨ parts.headD [] = [] ∨ parts.getLastD [] = [] then none
        else (parts.mapM parseHextet).map (ofWords 65536)

/-- The longest run of zeros seen, and the run that is being seen. -/
structure Zeros where
  bestStart : ℕ
  bestLength : ℕ
  start : Option ℕ
  length : ℕ

def zeroStep (s : Zeros) (entry : Text × ℕ) : Zeros :=
  if entry.1 = ['0'] then
    let length := s.length + 1
    let start := s.start.getD entry.2
    if s.bestLength < length then ⟨start, length, some start, length⟩ else ⟨s.bestStart, s.bestLength, some start, length⟩
  else ⟨s.bestStart, s.bestLength, none, 0⟩

def compressHextets (hextets : List Text) : List Text :=
  let s := hextets.zipIdx.foldl zeroStep ⟨0, 0, none, 0⟩
  if 1 < s.bestLength then
    let stop := s.bestStart + s.bestLength
    let shown := hextets.take s.bestStart ++ [[]] ++ hextets.drop stop
    let shown := if stop = hextets.length then shown ++ [[]] else shown
    if s.bestStart = 0 then [] :: shown else shown
  else hextets

def render6 (n : ℕ) : Text := [':'].intercalate (compressHextets ((words 65536 8 n).map (Nat.toDigits 16)))

/-! ## The text of an address -/

/-- What the search holds of the groups passed: the run that they end with, and the longest run in them. -/
structure Seen (passed : List Text) (s : Zeros) : Prop where
  run : ∃ front, passed = front ++ List.replicate s.length ['0'] ∧ s.start = if s.length = 0 then none else some front.length
  best : ∃ front back, passed = front ++ List.replicate s.bestLength ['0'] ++ back ∧ (0 < s.bestLength → s.bestStart = front.length)

theorem seen_step {passed : List Text} {s : Zeros} (hs : Seen passed s) (text : Text) :
    Seen (passed ++ [text]) (zeroStep s (text, passed.length)) := by
  obtain ⟨front, hrun, hstart⟩ := hs.run
  obtain ⟨before, back, hbest, hbestStart⟩ := hs.best
  unfold zeroStep
  by_cases hzero : text = ['0']
  · have hextended : passed ++ [text] = front ++ List.replicate (s.length + 1) ['0'] := by
      rw [hzero, hrun, List.append_assoc, List.replicate_succ']
    have hplace : s.start.getD passed.length = front.length := by
      by_cases hnone : s.length = 0
      · rw [hstart, if_pos hnone, Option.getD_none, hrun, hnone, List.replicate_zero, List.append_nil]
      · rw [hstart, if_neg hnone, Option.getD_some]
    rw [if_pos hzero, hplace]
    dsimp only
    split
    · exact ⟨⟨front, hextended, rfl⟩, front, [], by rw [List.append_nil]; exact hextended, fun _ => rfl⟩
    · refine ⟨⟨front, hextended, rfl⟩, before, back ++ [text], ?_, hbestStart⟩
      rw [hbest, List.append_assoc _ back]
  · rw [if_neg hzero]
    refine ⟨⟨passed ++ [text], by simp, rfl⟩, before, back ++ [text], ?_, hbestStart⟩
    rw [hbest, List.append_assoc _ back]

theorem seen_fold (hextets : List Text) : Seen hextets (hextets.zipIdx.foldl zeroStep ⟨0, 0, none, 0⟩) := by
  induction hextets using List.reverseRecOn with
  | nil => exact ⟨⟨[], rfl, rfl⟩, [], [], rfl, fun h => absurd h (lt_irrefl 0)⟩
  | append_singleton hextets text ih =>
    rw [List.zipIdx_append, List.foldl_append]
    simpa using seen_step ih text

/-- A part that is empty where the text begins or ends with the skipped groups. -/
def padded (part : List Text) : List Text := if part = [] then [[]] else part

theorem compressHextets_eq (hextets : List Text) : compressHextets hextets = hextets ∨
    ∃ front zeros back, 2 ≤ zeros ∧ hextets = front ++ List.replicate zeros ['0'] ++ back ∧
      compressHextets hextets = padded front ++ [[]] ++ padded back := by
  unfold compressHextets
  dsimp only
  by_cases hlong : 1 < (hextets.zipIdx.foldl zeroStep ⟨0, 0, none, 0⟩).bestLength
  · right
    obtain ⟨front, back, hparts, hstart⟩ := (seen_fold hextets).best
    rw [if_pos hlong]
    generalize hextets.zipIdx.foldl zeroStep ⟨0, 0, none, 0⟩ = s at *
    have hplace := hstart (by omega)
    refine ⟨front, s.bestLength, back, hlong, hparts, ?_⟩
    have htake : hextets.take s.bestStart = front := by
      rw [hparts, hplace, List.append_assoc, List.take_left]
    have hdrop : hextets.drop (s.bestStart + s.bestLength) = back := by
      have hlength : s.bestStart + s.bestLength = (front ++ List.replicate s.bestLength ['0']).length := by
        rw [List.length_append, List.length_replicate, hplace]
      rw [hlength]
      conv_lhs => rw [hparts]
      exact List.drop_left
    have hend : s.bestStart + s.bestLength = hextets.length ↔ back = [] := by
      have hlength := congrArg List.length hparts
      rw [List.length_append, List.length_append, List.length_replicate, ← hplace] at hlength
      rw [← List.length_eq_zero_iff]
      omega
    have hbegin : s.bestStart = 0 ↔ front = [] := by rw [hplace, List.length_eq_zero_iff]
    rw [htake, hdrop]
    unfold padded
    by_cases hfront : front = [] <;> by_cases hback : back = [] <;> simp [hbegin, hend, hfront, hback]
  · left
    rw [if_neg hlong]

/-! ## The address read back -/

theorem parseHextet_toDigits {w : ℕ} (h : w < 65536) : parseHextet (Nat.toDigits 16 w) = some w := by
  have hhex : (Nat.toDigits 16 w).all isHex = true := List.all_eq_true.mpr (isHex_toDigits (by decide) (by decide) w)
  have hlength : (Nat.toDigits 16 w).length ≤ 4 := (Nat.length_toDigits_le_iff (by decide) (by decide)).mpr h
  rw [parseHextet, if_pos ⟨Nat.toDigits_ne_nil, hhex, hlength⟩, valueIn_toDigits (by decide) (by decide)]

section
variable {front back : List Text}

theorem padded_ne_nil (part : List Text) : padded part ≠ [] := by
  unfold padded
  split
  · exact List.cons_ne_nil _ _
  · assumption

theorem empty_not_mem_padded {part : List Text} (h : [] ∉ part) : [] ∉ (padded part).tail ∧ [] ∉ (padded part).dropLast := by
  unfold padded
  split
  · exact ⟨List.not_mem_nil, List.not_mem_nil⟩
  · exact ⟨fun hmem => h (List.mem_of_mem_tail hmem), fun hmem => h (List.mem_of_mem_dropLast hmem)⟩

/-- The one empty part inside stands between the groups. -/
theorem skipIndex_padded (hfront : [] ∉ front) (hback : [] ∉ back) :
    skipIndex (padded front ++ [[]] ++ padded back) = some (some (padded front).length) := by
  have hinside : (padded front ++ [[]] ++ padded back).tail.dropLast =
      (padded front).tail ++ [[]] ++ (padded back).dropLast := by
    rw [List.append_assoc, List.tail_append_of_ne_nil (padded_ne_nil front), ← List.append_assoc,
      List.dropLast_append_of_ne_nil (padded_ne_nil back)]
  have hbefore := (empty_not_mem_padded hfront).1
  have hafter := (empty_not_mem_padded hback).2
  have hcount : ((padded front).tail ++ [[]] ++ (padded back).dropLast).count [] = 1 := by
    rw [List.count_append, List.count_append, List.count_eq_zero.mpr hbefore, List.count_eq_zero.mpr hafter]
    rfl
  have hplace : ((padded front).tail ++ [[]] ++ (padded back).dropLast).idxOf [] + 1 = (padded front).length := by
    have hlength := List.length_pos_iff.mpr (padded_ne_nil front)
    rw [List.append_assoc, List.idxOf_append_of_notMem hbefore, List.length_tail]
    simp only [List.singleton_append, List.idxOf_cons_self]
    omega
  unfold skipIndex
  dsimp only
  rw [hinside, hcount, if_neg (lt_irrefl 1), if_pos (by simp), hplace]

theorem headD_padded (hfront : [] ∉ front) (rest : List Text) : (padded front ++ rest).headD [] = [] ↔ front = [] := by
  unfold padded
  cases front with
  | nil => simp
  | cons text front =>
    rw [List.mem_cons, not_or] at hfront
    simpa using Ne.symm hfront.1

theorem getLastD_padded (hback : [] ∉ back) (rest : List Text) : (rest ++ padded back).getLastD [] = [] ↔ back = [] := by
  unfold padded
  by_cases hnil : back = []
  · simp [hnil]
  · have hlast := List.getLast_mem hnil
    rw [if_neg hnil, List.getLastD_eq_getLast?, List.getLast?_append_of_ne_nil _ hnil, List.getLast?_eq_getLast_of_ne_nil hnil]
    exact ⟨fun heq => absurd (heq ▸ hlast) hback, fun heq => absurd heq hnil⟩

theorem take_padded (rest : List Text) : (padded front ++ rest).take front.length = front := by
  unfold padded
  split
  · simp_all
  · exact List.take_left

theorem drop_padded (rest : List Text) : (rest ++ padded back).drop ((rest ++ padded back).length - back.length) = back := by
  unfold padded
  split
  · simp_all
  · rw [List.length_append, Nat.add_sub_cancel, List.drop_left]

end

theorem hextet_ne_nil (ws : List ℕ) : [] ∉ ws.map (Nat.toDigits 16) := by
  intro hmem
  obtain ⟨w, -, hw⟩ := List.mem_map.mp hmem
  exact Nat.toDigits_ne_nil hw

/-- The groups around the skipped ones are read, and the skipped ones are zeros. -/
theorem parseSkipped_padded {first last : List ℕ} (hfirst : ∀ w ∈ first, w < 65536) (hlast : ∀ w ∈ last, w < 65536)
    (hlength : first.length + last.length < 8) :
    parseSkipped (padded (first.map (Nat.toDigits 16)) ++ [[]] ++ padded (last.map (Nat.toDigits 16)))
      (padded (first.map (Nat.toDigits 16))).length =
      some (first ++ List.replicate (8 - (first.length + last.length)) 0 ++ last) := by
  have hread : ∀ ws : List ℕ, (∀ w ∈ ws, w < 65536) → (ws.map (Nat.toDigits 16)).mapM parseHextet = some ws :=
    fun ws hws => mapM_map fun w hw => parseHextet_toDigits (hws w hw)
  have hempty : ∀ ws : List ℕ, ws.map (Nat.toDigits 16) = [] ↔ ws.length = 0 := by simp
  have hfront := hextet_ne_nil first
  have hback := hextet_ne_nil last
  have hfirstLength := @List.length_map _ _ first (Nat.toDigits 16)
  have hlastLength := @List.length_map _ _ last (Nat.toDigits 16)
  have htake := @take_padded (first.map (Nat.toDigits 16)) ([[]] ++ padded (last.map (Nat.toDigits 16)))
  have hdrop := @drop_padded (last.map (Nat.toDigits 16)) (padded (first.map (Nat.toDigits 16)) ++ [[]])
  have hhead := @headD_padded (first.map (Nat.toDigits 16)) hfront ([[]] ++ padded (last.map (Nat.toDigits 16)))
  have hend := @getLastD_padded (last.map (Nat.toDigits 16)) hback (padded (first.map (Nat.toDigits 16)) ++ [[]])
  rw [← List.append_assoc] at htake hhead
  rw [hfirstLength] at htake
  rw [hlastLength] at hdrop
  rw [hempty] at hhead hend
  have hhigh : (if first.length = 0 then (padded (first.map (Nat.toDigits 16))).length - 1
      else (padded (first.map (Nat.toDigits 16))).length) = first.length := by
    cases first <;> simp [padded]
  have hlow : ∀ n, (if last.length = 0 then n + 1 + (padded (last.map (Nat.toDigits 16))).length - n - 2
      else n + 1 + (padded (last.map (Nat.toDigits 16))).length - n - 1) = last.length := by
    intro n
    cases last <;> simp [padded] <;> omega
  have htotal : (padded (first.map (Nat.toDigits 16)) ++ [[]] ++ padded (last.map (Nat.toDigits 16))).length =
      (padded (first.map (Nat.toDigits 16))).length + 1 + (padded (last.map (Nat.toDigits 16))).length := by
    rw [List.length_append, List.length_append, List.length_singleton]
  rw [htotal] at hdrop
  unfold parseSkipped
  simp only [hhead, hend, htotal, hhigh, hlow]
  rw [if_neg (by omega), htake, hdrop, hread first hfirst, hread last hlast]
  rfl

theorem not_hex_mark : isHex ':' = false ∧ isHex '.' = false := by decide

/-- Hexadecimal groups and empty parts hold neither mark. -/
theorem mark_not_mem {parts : List Text} (h : ∀ text ∈ parts, ∀ c ∈ text, isHex c = true) :
    ∀ text ∈ parts, ':' ∉ text ∧ '.' ∉ text := by
  intro text htext
  constructor
  · intro hmem
    exact absurd (h text htext _ hmem) (by rw [not_hex_mark.1]; exact Bool.false_ne_true)
  · intro hmem
    exact absurd (h text htext _ hmem) (by rw [not_hex_mark.2]; exact Bool.false_ne_true)

theorem octetSuffix_hex {parts : List Text} (hne : parts ≠ []) (h : ∀ text ∈ parts, ∀ c ∈ text, isHex c = true) :
    octetSuffix parts = some parts := by
  have hlast : parts.getLastD [] ∈ parts := by
    rw [List.getLastD_eq_getLast?, List.getLast?_eq_getLast_of_ne_nil hne]
    exact List.getLast_mem hne
  rw [octetSuffix, if_neg (mark_not_mem h _ hlast).2]

theorem split_hextets {parts : List Text} (hne : parts ≠ []) (h : ∀ text ∈ parts, ∀ c ∈ text, isHex c = true) :
    split [':'] ([':'].intercalate parts) = parts :=
  split_intercalate hne fun text htext => (mark_not_mem h text htext).1

theorem isHex_hextets (ws : List ℕ) : ∀ text ∈ ws.map (Nat.toDigits 16), ∀ c ∈ text, isHex c = true := by
  intro text htext
  obtain ⟨w, -, rfl⟩ := List.mem_map.mp htext
  exact isHex_toDigits (by decide) (by decide) w

theorem isHex_padded {part : List Text} (h : ∀ text ∈ part, ∀ c ∈ text, isHex c = true) :
    ∀ text ∈ padded part, ∀ c ∈ text, isHex c = true := by
  unfold padded
  split
  · simp
  · exact h

theorem parse6_groups {ws : List ℕ} (hlength : ws.length = 8) (h : ∀ w ∈ ws, w < 65536) :
    parse6 ([':'].intercalate (ws.map (Nat.toDigits 16))) = some (ofWords 65536 ws) := by
  have hparts : (ws.map (Nat.toDigits 16)).length = 8 := by rw [List.length_map, hlength]
  have hne : ws.map (Nat.toDigits 16) ≠ [] := by
    intro hnil
    rw [hnil] at hparts
    cases hparts
  have hempty := hextet_ne_nil ws
  have hskip : skipIndex (ws.map (Nat.toDigits 16)) = some none := by
    have hinside : [] ∉ (ws.map (Nat.toDigits 16)).tail.dropLast := fun hmem =>
      hempty (List.mem_of_mem_tail (List.mem_of_mem_dropLast hmem))
    unfold skipIndex
    dsimp only
    rw [List.count_eq_zero.mpr hinside, if_neg (by decide), if_neg hinside]
  have hhead : (ws.map (Nat.toDigits 16)).headD [] ≠ [] := by
    intro hnil
    obtain ⟨text, rest, hcons⟩ := List.exists_cons_of_ne_nil hne
    rw [hcons] at hnil hempty
    exact hempty (hnil ▸ List.mem_cons_self)
  have hlast : (ws.map (Nat.toDigits 16)).getLastD [] ≠ [] := by
    intro hnil
    rw [List.getLastD_eq_getLast?, List.getLast?_eq_getLast_of_ne_nil hne, Option.getD_some] at hnil
    exact hempty (hnil ▸ List.getLast_mem hne)
  unfold parse6
  dsimp only
  rw [split_hextets hne (isHex_hextets ws), if_neg (by omega), octetSuffix_hex hne (isHex_hextets ws), Option.bind_eq_bind,
    Option.bind_some, if_neg (by omega), hskip, Option.bind_eq_bind, Option.bind_some]
  dsimp only
  have hwhole : ¬ ((ws.map (Nat.toDigits 16)).length ≠ 8 ∨ (ws.map (Nat.toDigits 16)).headD [] = [] ∨
      (ws.map (Nat.toDigits 16)).getLastD [] = []) := by
    rintro (h | h | h)
    exacts [h hparts, hhead h, hlast h]
  rw [if_neg hwhole, mapM_map fun w hw => parseHextet_toDigits (h w hw), Option.map_some]

theorem parse6_padded {first last : List ℕ} (hfirst : ∀ w ∈ first, w < 65536) (hlast : ∀ w ∈ last, w < 65536)
    (hlength : first.length + last.length < 7) :
    parse6 ([':'].intercalate (padded (first.map (Nat.toDigits 16)) ++ [[]] ++ padded (last.map (Nat.toDigits 16)))) =
      some (ofWords 65536 (first ++ List.replicate (8 - (first.length + last.length)) 0 ++ last)) := by
  have hhex : ∀ text ∈ padded (first.map (Nat.toDigits 16)) ++ [[]] ++ padded (last.map (Nat.toDigits 16)),
      ∀ c ∈ text, isHex c = true := by
    intro text htext
    rcases List.mem_append.mp htext with htext | htext
    · rcases List.mem_append.mp htext with htext | htext
      · exact isHex_padded (isHex_hextets first) text htext
      · simp [List.mem_singleton.mp htext]
    · exact isHex_padded (isHex_hextets last) text htext
  have hne : padded (first.map (Nat.toDigits 16)) ++ [[]] ++ padded (last.map (Nat.toDigits 16)) ≠ [] := by simp
  have hcount : 3 ≤ (padded (first.map (Nat.toDigits 16)) ++ [[]] ++ padded (last.map (Nat.toDigits 16))).length ∧
      (padded (first.map (Nat.toDigits 16)) ++ [[]] ++ padded (last.map (Nat.toDigits 16))).length ≤ 9 := by
    have hpad : ∀ ws : List ℕ, 1 ≤ (padded (ws.map (Nat.toDigits 16))).length ∧
        (padded (ws.map (Nat.toDigits 16))).length ≤ max 1 ws.length := by
      intro ws
      cases ws <;> simp [padded]
    have hbefore := hpad first
    have hafter := hpad last
    rw [List.length_append, List.length_append, List.length_singleton]
    omega
  unfold parse6
  dsimp only
  rw [split_hextets hne hhex, if_neg (by omega), octetSuffix_hex hne hhex, Option.bind_eq_bind, Option.bind_some,
    if_neg (by omega), skipIndex_padded (hextet_ne_nil first) (hextet_ne_nil last), Option.bind_eq_bind, Option.bind_some]
  dsimp only
  rw [parseSkipped_padded hfirst hlast (by omega), Option.map_some]

theorem parse6_render6 {n : ℕ} (h : n < 2 ^ 128) : parse6 (render6 n) = some n := by
  have hwords : ∀ w ∈ words 65536 8 n, w < 65536 := fun w hw => words_lt (by decide) hw
  have hvalue : ofWords 65536 (words 65536 8 n) = n := by
    rw [ofWords_words]
    exact Nat.mod_eq_of_lt h
  unfold render6
  rcases compressHextets_eq ((words 65536 8 n).map (Nat.toDigits 16)) with hsame | ⟨front, zeros, back, hzeros, hparts, hshown⟩
  · rw [hsame, parse6_groups (length_words _ _ _) hwords, hvalue]
  · obtain ⟨left, last, hws, hleft, rfl⟩ := List.map_eq_append_iff.mp hparts
    obtain ⟨first, middle, rfl, rfl, hmiddle⟩ := List.map_eq_append_iff.mp hleft
    have hmiddleLength : middle.length = zeros := by
      have hlength := congrArg List.length hmiddle
      rwa [List.length_map, List.length_replicate] at hlength
    have hzero : middle = List.replicate zeros 0 := by
      refine List.eq_replicate_iff.mpr ⟨hmiddleLength, fun w hw => ?_⟩
      have htext : Nat.toDigits 16 w ∈ List.replicate zeros ['0'] := hmiddle ▸ List.mem_map_of_mem hw
      exact toDigits_eq_zero (by decide) (by decide) (List.eq_of_mem_replicate htext)
    have htotal : first.length + zeros + last.length = 8 := by
      have hlength := congrArg List.length hws
      rw [length_words, List.length_append, List.length_append, hmiddleLength] at hlength
      exact hlength.symm
    rw [hws] at hwords hvalue
    rw [hshown, parse6_padded (fun w hw => hwords w (by simp [hw])) (fun w hw => hwords w (by simp [hw])) (by omega)]
    have hskipped : 8 - (first.length + last.length) = zeros := by omega
    rw [hskipped, ← hzero, hvalue]

/-! ## Bounds -/

theorem forall₂_of_mapM {α β : Type} {read : α → Option β} {xs : List α} {ys : List β} (h : xs.mapM read = some ys) :
    List.Forall₂ (fun x y => read x = some y) xs ys := by
  induction xs generalizing ys with
  | nil =>
    obtain rfl := Option.some.inj h
    exact .nil
  | cons x xs ih =>
    simp only [List.mapM_cons, Option.bind_eq_bind, Option.bind_eq_some_iff] at h
    obtain ⟨y, hy, ys, hys, heq⟩ := h
    obtain rfl := Option.some.inj heq
    exact .cons hy (ih hys)

theorem ofWords_lt {base : ℕ} {ws : List ℕ} (h : ∀ w ∈ ws, w < base) : ofWords base ws < base ^ ws.length := by
  induction ws using List.reverseRecOn with
  | nil => exact Nat.one_pos
  | append_singleton ws w ih =>
    have hw := h w (by simp)
    have hrest := ih fun v hv => h v (List.mem_append_left _ hv)
    rw [ofWords_concat, List.length_append, List.length_singleton, pow_succ']
    calc
      _ < base * ofWords base ws + base := Nat.add_lt_add_left hw _
      _ = base * (ofWords base ws + 1) := by ring
      _ ≤ base * base ^ ws.length := Nat.mul_le_mul_left _ hrest

theorem digitValue_lt {c : Char} (h : isHex c = true) : digitValue c < 16 := by
  have hrange : 48 ≤ c.toNat ∧ c.toNat ≤ 57 ∨ 97 ≤ c.toNat ∧ c.toNat ≤ 102 ∨ 65 ≤ c.toNat ∧ c.toNat ≤ 70 := by
    simp only [isHex, Bool.or_eq_true, Bool.and_eq_true, decide_eq_true_eq, Char.isDigit, Char.le_def, ge_iff_le,
      UInt32.le_iff_toNat_le] at h
    obtain (h | h) | h := h
    · exact .inl h
    · exact .inr (.inl h)
    · exact .inr (.inr h)
  have hall : ∀ n < 128, (48 ≤ n ∧ n ≤ 57 ∨ 97 ≤ n ∧ n ≤ 102 ∨ 65 ≤ n ∧ n ≤ 70) → digitValue (Char.ofNat n) < 16 := by
    decide +kernel
  have hvalue := hall c.toNat (by omega) hrange
  rwa [Char.ofNat_toNat] at hvalue

theorem parseOctet_lt {text : Text} {n : ℕ} (h : parseOctet text = some n) : n < 256 := by
  unfold parseOctet at h
  split at h
  · rename_i hocted
    obtain rfl := Option.some.inj h
    exact Nat.lt_succ_of_le hocted.2.2.2.2
  · cases h

theorem parseHextet_lt {text : Text} {n : ℕ} (h : parseHextet text = some n) : n < 65536 := by
  unfold parseHextet at h
  split at h
  · rename_i hhextet
    obtain ⟨-, hhex, hlength⟩ := hhextet
    obtain rfl := Option.some.inj h
    have hvalue : valueIn 16 text < 16 ^ (text.map digitValue).length := by
      refine ofWords_lt fun w hw => ?_
      obtain ⟨c, hc, rfl⟩ := List.mem_map.mp hw
      exact digitValue_lt (List.all_eq_true.mp hhex c hc)
    rw [List.length_map] at hvalue
    exact hvalue.trans_le (Nat.pow_le_pow_right (by decide) hlength)
  · cases h

/-- The words read of as many parts. -/
theorem mapM_words {base : ℕ} {read : Text → Option ℕ} (hread : ∀ {text n}, read text = some n → n < base) {parts : List Text}
    {ws : List ℕ} (h : parts.mapM read = some ws) : ws.length = parts.length ∧ ∀ w ∈ ws, w < base := by
  have hrel := forall₂_of_mapM h
  clear h
  induction hrel with
  | nil => simp
  | cons hfirst _ ih =>
    refine ⟨by rw [List.length_cons, List.length_cons, ih.1], ?_⟩
    exact List.forall_mem_cons.mpr ⟨hread hfirst, ih.2⟩

theorem parse4_lt {text : Text} {n : ℕ} (h : parse4 text = some n) : n < 2 ^ 32 := by
  unfold parse4 at h
  dsimp only at h
  split at h
  · rename_i hfour
    obtain ⟨ws, hws, rfl⟩ := Option.map_eq_some_iff.mp h
    obtain ⟨hlength, hbound⟩ := mapM_words parseOctet_lt hws
    have hlt := ofWords_lt hbound
    rw [hlength, hfour] at hlt
    exact hlt
  · cases h

theorem parseSkipped_words {parts : List Text} {skip : ℕ} {ws : List ℕ} (h : parseSkipped parts skip = some ws) :
    ws.length ≤ 8 ∧ ∀ w ∈ ws, w < 65536 := by
  unfold parseSkipped at h
  dsimp only at h
  generalize (if parts.headD [] = [] then skip - 1 else skip) = high at h
  generalize (if parts.getLastD [] = [] then parts.length - skip - 2 else parts.length - skip - 1) = low at h
  split at h
  · cases h
  · rename_i hcheck
    rw [not_or, not_or, not_le] at hcheck
    simp only [Option.bind_eq_bind, Option.bind_eq_some_iff] at h
    obtain ⟨first, hfirst, last, hlast, heq⟩ := h
    obtain ⟨hfirstLength, hfirstBound⟩ := mapM_words parseHextet_lt hfirst
    obtain ⟨hlastLength, hlastBound⟩ := mapM_words parseHextet_lt hlast
    rw [List.length_take] at hfirstLength
    rw [List.length_drop] at hlastLength
    obtain rfl := Option.some.inj heq
    constructor
    · rw [List.length_append, List.length_append, List.length_replicate]
      omega
    · intro w hw
      rcases List.mem_append.mp hw with hw | hw
      · rcases List.mem_append.mp hw with hw | hw
        · exact hfirstBound w hw
        · rw [List.eq_of_mem_replicate hw]
          decide
      · exact hlastBound w hw

theorem parse6_lt {text : Text} {n : ℕ} (h : parse6 text = some n) : n < 2 ^ 128 := by
  have hwords : ∀ ws : List ℕ, ws.length ≤ 8 → (∀ w ∈ ws, w < 65536) → ofWords 65536 ws < 2 ^ 128 := fun ws hlength hbound =>
    (ofWords_lt hbound).trans_le (Nat.pow_le_pow_right (n := 65536) (by decide) hlength)
  unfold parse6 at h
  dsimp only at h
  split at h
  · cases h
  · simp only [Option.bind_eq_bind, Option.bind_eq_some_iff] at h
    obtain ⟨parts, -, h⟩ := h
    split at h
    · cases h
    · simp only [Option.bind_eq_some_iff] at h
      obtain ⟨skip, -, h⟩ := h
      cases skip with
      | some skip =>
        obtain ⟨ws, hws, rfl⟩ := Option.map_eq_some_iff.mp h
        obtain ⟨hlength, hbound⟩ := parseSkipped_words hws
        exact hwords ws hlength hbound
      | none =>
        dsimp only at h
        split at h
        · cases h
        · rename_i hwhole
          obtain ⟨ws, hws, rfl⟩ := Option.map_eq_some_iff.mp h
          obtain ⟨hlength, hbound⟩ := mapM_words parseHextet_lt hws
          exact hwords ws (by omega) hbound

/-! ## Addresses and networks -/

inductive Address
  | v4 (n : ℕ)
  | v6 (n : ℕ)
  deriving DecidableEq

namespace Address

/-- A number of four or of sixteen bytes. -/
def Fits : Address → Prop
  | v4 n => n < 2 ^ 32
  | v6 n => n < 2 ^ 128

def text : Address → Text
  | v4 n => render4 n
  | v6 n => render6 n

end Address

/-- A network by its address and the length of its mask. -/
structure Network where
  address : Address
  bits : ℕ

def Network.Contains (net : Network) : Address → Prop
  | .v4 n => net.address = .v4 (n &&& (2 ^ 32 - 2 ^ (32 - net.bits)))
  | .v6 n => net.address = .v6 (n &&& (2 ^ 128 - 2 ^ (128 - net.bits)))

instance (net : Network) : DecidablePred net.Contains
  | .v4 _ => inferInstanceAs (Decidable (_ = _))
  | .v6 _ => inferInstanceAs (Decidable (_ = _))

/-! ## The characters of an address -/

theorem mem_intercalate {sep : Text} {parts : List Text} {c : Char} (h : c ∈ sep.intercalate parts) :
    c ∈ sep ∨ ∃ part ∈ parts, c ∈ part := by
  induction parts with
  | nil => cases h
  | cons part parts ih =>
    cases parts with
    | nil =>
      rw [List.intercalate_singleton] at h
      exact .inr ⟨part, List.mem_cons_self, h⟩
    | cons other parts =>
      rw [List.intercalate_cons_cons, List.append_assoc] at h
      rcases List.mem_append.mp h with h | h
      · exact .inr ⟨part, List.mem_cons_self, h⟩
      · rcases List.mem_append.mp h with h | h
        · exact .inl h
        · rcases ih h with h | ⟨found, hfound, hc⟩
          · exact .inl h
          · exact .inr ⟨found, List.mem_cons_of_mem _ hfound, hc⟩

theorem mem_render4 {n : ℕ} {c : Char} (h : c ∈ render4 n) : c = '.' ∨ isHex c = true := by
  rcases mem_intercalate h with h | ⟨part, hpart, hc⟩
  · exact .inl (List.mem_singleton.mp h)
  · obtain ⟨b, -, rfl⟩ := List.mem_map.mp hpart
    exact .inr (isHex_toDigits (by decide) (by decide) b c hc)

theorem mem_render6 {n : ℕ} {c : Char} (h : c ∈ render6 n) : c = ':' ∨ isHex c = true := by
  rcases mem_intercalate h with h | ⟨part, hpart, hc⟩
  · exact .inl (List.mem_singleton.mp h)
  · have hgroups := isHex_hextets (words 65536 8 n)
    rcases compressHextets_eq ((words 65536 8 n).map (Nat.toDigits 16)) with hsame | ⟨front, zeros, back, -, hparts, hshown⟩
    · exact .inr (hgroups part (hsame ▸ hpart) c hc)
    · rw [hparts] at hgroups
      rw [hshown] at hpart
      rcases List.mem_append.mp hpart with hpart | hpart
      · rcases List.mem_append.mp hpart with hpart | hpart
        · exact .inr (isHex_padded (fun text htext => hgroups text (by simp [htext])) part hpart c hc)
        · rw [List.mem_singleton.mp hpart] at hc
          cases hc
      · exact .inr (isHex_padded (fun text htext => hgroups text (by simp [htext])) part hpart c hc)

theorem mark_mem_intercalate {sep : Text} {parts : List Text} (h : 2 ≤ parts.length) : ∀ c ∈ sep, c ∈ sep.intercalate parts := by
  intro c hc
  match parts, h with
  | part :: other :: parts, _ =>
    rw [List.intercalate_cons_cons]
    simp [hc]

/-- Only an address of sixteen bytes is written with colons. -/
theorem colon_mem_text {a : Address} : ':' ∈ a.text ↔ ∃ n, a = .v6 n := by
  cases a with
  | v4 n =>
    refine ⟨fun h => ?_, fun ⟨_, h⟩ => by cases h⟩
    rcases mem_render4 h with h | h
    · exact absurd h (by decide)
    · exact absurd h (by decide)
  | v6 n =>
    refine ⟨fun _ => ⟨n, rfl⟩, fun _ => ?_⟩
    refine mark_mem_intercalate ?_ ':' (by simp)
    rcases compressHextets_eq ((words 65536 8 n).map (Nat.toDigits 16)) with hsame | ⟨front, zeros, back, -, -, hshown⟩
    · rw [hsame, List.length_map, length_words]
      decide
    · have hfront := List.length_pos_iff.mpr (padded_ne_nil front)
      rw [hshown, List.length_append, List.length_append, List.length_singleton]
      omega

end HarnessConformance.Lib.IpAddress
