import HarnessConformance.ModelEndpoint.Events

/-! # Framed event streams

Whatever way a list of JSON texts is framed as events, the values read are those of the texts, in order; and nothing
is read of a stream that does not come to its terminal event. -/

namespace HarnessConformance.ModelEndpoint
open Lib Lib.Outcome Lib.Lines Lib.Splitting Lib.Utf8
open Lib.JsonLoads (Text Loaded ReadLimits loads Shifted loads_shifted)
set_option autoImplicit false

/-! ## Framing -/

/-- A line on the wire, and whether a carriage return stands before its line feed. -/
structure WireLine where
  text : Text
  carriage : Bool

def WireLine.bytes (w : WireLine) : Bytes := encodeText w.text ++ (if w.carriage then [carriageReturn] else []) ++ [lineFeed]

def wireBytes (wire : List WireLine) : Bytes := wire.flatMap WireLine.bytes

def Unbroken (text : Text) : Prop := '\r' ∉ text ∧ '\n' ∉ text

/-- A comment, or a field that is passed over. -/
def Ignorable (text : Text) : Prop :=
  Unbroken text ∧ ∃ name ∈ ["".toList, "event".toList, "id".toList, "retry".toList], ∃ value, text = name ++ ':' :: value

/-- `data:` or `data: `, and a piece of a text. -/
def dataLine (space : Bool) (piece : Text) : Text := "data".toList ++ ':' :: ((if space then [' '] else []) ++ piece)

/-- The lines of one event: its pieces in order, ignorable lines among them, and an empty line. -/
inductive Block : List Text → List Text → Prop
  | close {noise : List Text} (hnoise : ∀ text ∈ noise, Ignorable text) : Block [] (noise ++ [[]])
  | piece {noise pieces lines : List Text} {piece : Text} (space : Bool) (hnoise : ∀ text ∈ noise, Ignorable text)
      (hlines : Block pieces lines) : Block (piece :: pieces) (noise ++ dataLine space piece :: lines)

/-- Events one after the other, ignorable and empty lines between them. -/
inductive Framed : List (List Text) → List Text → Prop
  | done : Framed [] []
  | event {gap pieces lines more : List Text} {blocks : List (List Text)} (hgap : ∀ text ∈ gap, Ignorable text ∨ text = [])
      (hblock : Block pieces lines) (hmore : Framed blocks more) : Framed (pieces :: blocks) (gap ++ lines ++ more)

/-- No line and not all of them are longer than allowed. -/
def Within (wire : List WireLine) : Prop :=
  (∀ w ∈ wire, w.bytes.length ≤ maxSseLineBytes) ∧ (wireBytes wire).length ≤ maxSseTotalBytes

/-! ## A line read -/

theorem byte_of_char {c : Char} {b : UInt8} (hb : b ∈ String.utf8EncodeChar c) (hlow : b.toNat < 128) : b.toNat = c.toNat := by
  by_cases hc : 128 ≤ c.toNat
  · exact absurd (le_of_mem_utf8EncodeChar (le_refl 128) hc hb) (not_le.mpr hlow)
  · have hval : c.val.toNat = c.toNat := rfl
    unfold String.utf8EncodeChar at hb
    simp only [hval] at hb
    rw [if_pos (by omega)] at hb
    obtain rfl := List.mem_singleton.mp hb
    rw [UInt8.toNat_ofNat']
    omega

theorem lineFeed_not_mem_encodeText {text : Text} (h : '\n' ∉ text) : lineFeed ∉ encodeText text := by
  intro hmem
  obtain ⟨c, hc, hb⟩ := List.mem_flatMap.mp hmem
  have hchar : c = '\n' := Char.toNat_inj.mp (byte_of_char hb (by decide)).symm
  exact h (hchar ▸ hc)

section
variable {limits : ReadLimits} {w : WireLine} {s : Progress}

theorem WireLine.readline (hunbroken : Unbroken w.text) (hlength : w.bytes.length ≤ maxSseLineBytes) (rest : Bytes)
    (failure : Option MeqCode) :
    Response.readline (maxSseLineBytes + 1) ⟨w.bytes ++ rest, failure⟩ = .ok (w.bytes, ⟨rest, failure⟩) := by
  have hclean : lineFeed ∉ encodeText w.text ++ (if w.carriage then [carriageReturn] else []) := by
    intro hmem
    rcases List.mem_append.mp hmem with hmem | hmem
    · exact lineFeed_not_mem_encodeText hunbroken.2 hmem
    · split at hmem
      · exact absurd hmem (by decide)
      · cases hmem
  have hcut := @cut_mark UInt8 _ [] lineFeed _ hclean rest
  have hwhole : w.bytes ++ rest = encodeText w.text ++ (if w.carriage then [carriageReturn] else []) ++ ([lineFeed] ++ rest) := by
    rw [WireLine.bytes, List.append_assoc _ [lineFeed]]
  unfold Response.readline
  dsimp only
  rw [hwhole, hcut]
  have hshort : (encodeText w.text ++ (if w.carriage then [carriageReturn] else [])).length < maxSseLineBytes + 1 := by
    rw [WireLine.bytes, List.length_append, List.length_singleton] at hlength
    omega
  exact if_pos hshort

theorem WireLine.decode (hunbroken : Unbroken w.text) :
    ∃ text, decodeText w.bytes.dropLast = some text ∧ stripReturn text = w.text := by
  have hbytes : w.bytes.dropLast = encodeText (w.text ++ (if w.carriage then ['\r'] else [])) := by
    rw [WireLine.bytes, List.dropLast_concat, encodeText_append]
    cases w.carriage <;> rfl
  refine ⟨_, by rw [hbytes, decodeText_encodeText], ?_⟩
  unfold stripReturn
  cases w.carriage with
  | true => simp
  | false =>
    have hlast : w.text.getLast? ≠ some '\r' := fun h => hunbroken.1 (List.mem_of_getLast? h)
    simp [hlast]

/-- The state with the bytes of a line counted. -/
def Progress.count (s : Progress) (n : ℕ) : Progress := { s with total := s.total + n }

@[simp] theorem Progress.count_count (s : Progress) (m n : ℕ) : (s.count m).count n = s.count (m + n) := by
  simp [Progress.count, Nat.add_assoc]

/-- What a line does is what its text does. -/
theorem eventLine_wire (hunbroken : Unbroken w.text) (hlength : w.bytes.length ≤ maxSseLineBytes)
    (htotal : s.total + w.bytes.length ≤ maxSseTotalBytes) :
    eventLine limits s w.bytes =
      if w.text = [] then dispatch limits (s.count w.bytes.length)
      else (field (s.count w.bytes.length) w.text).map .inl := by
  obtain ⟨text, hdecode, hstrip⟩ := w.decode hunbroken
  have hlast : w.bytes.getLast? = some lineFeed := by rw [WireLine.bytes, List.getLast?_concat]
  unfold eventLine
  dsimp only
  rw [guardWith_of ⟨htotal, hlength⟩, ok_bind, guardWith_of hlast, ok_bind, hdecode]
  dsimp only
  rw [hstrip, guardWith_of hunbroken.1, ok_bind]
  rfl

end

/-! ## Lines in a row -/

/-- No cancellation and no deadline. -/
def quiet : ℕ → Option MeqCode := fun _ => none

/-- Lines that take the loop from one state to another, whatever follows them. -/
def Runs (limits : ReadLimits) (s : Progress) (wire : List WireLine) (t : Progress) : Prop :=
  ∀ count rest failure, ∃ next, rounds limits quiet count ⟨wireBytes wire ++ rest, failure⟩ s =
    rounds limits quiet next ⟨rest, failure⟩ t

/-- The bytes that a state has room for. -/
def Room (s : Progress) (wire : List WireLine) : Prop :=
  (∀ w ∈ wire, w.bytes.length ≤ maxSseLineBytes) ∧ s.total + (wireBytes wire).length ≤ maxSseTotalBytes

section
variable {limits : ReadLimits} {s t u : Progress} {w : WireLine} {before behind wire : List WireLine}

theorem wireBytes_append (before behind : List WireLine) : wireBytes (before ++ behind) = wireBytes before ++ wireBytes behind :=
  List.flatMap_append

theorem Runs.refl (s : Progress) : Runs limits s [] s := fun count _ _ => ⟨count, rfl⟩

theorem Runs.trans (hbefore : Runs limits s before t) (hbehind : Runs limits t behind u) : Runs limits s (before ++ behind) u := by
  intro count rest failure
  obtain ⟨middle, hmiddle⟩ := hbefore count (wireBytes behind ++ rest) failure
  obtain ⟨next, hnext⟩ := hbehind middle rest failure
  refine ⟨next, ?_⟩
  rw [wireBytes_append, List.append_assoc, hmiddle, hnext]

theorem rounds_wire (hunbroken : Unbroken w.text) (hlength : w.bytes.length ≤ maxSseLineBytes) (count : ℕ) (rest : Bytes)
    (failure : Option MeqCode) {r : Progress ⊕ List Loaded} (hline : eventLine limits s w.bytes = .ok r) :
    rounds limits quiet count ⟨w.bytes ++ rest, failure⟩ s = r.elim (rounds limits quiet (count + 1) ⟨rest, failure⟩) .ok := by
  have hread := w.readline hunbroken hlength rest failure
  rw [rounds]
  split
  · rename_i hpoll
    cases hpoll
  · split
    · rename_i herror
      cases hread.symm.trans herror
    · rename_i line r' hok
      obtain ⟨rfl, rfl⟩ := Prod.mk.inj (Except.ok.inj (hok.symm.trans hread))
      split
      · rename_i herror
        cases hline.symm.trans herror
      · rename_i events hevents
        obtain rfl := Except.ok.inj (hline.symm.trans hevents)
        rfl
      · rename_i t ht
        obtain rfl := Except.ok.inj (hline.symm.trans ht)
        rfl

theorem Runs.line (hunbroken : Unbroken w.text) (hlength : w.bytes.length ≤ maxSseLineBytes)
    (hline : eventLine limits s w.bytes = .ok (.inl t)) : Runs limits s [w] t := by
  intro count rest failure
  refine ⟨count + 1, ?_⟩
  have hbytes : wireBytes [w] = w.bytes := by simp [wireBytes]
  rw [hbytes, rounds_wire hunbroken hlength count rest failure hline]
  rfl

theorem Room.line (h : Room s (w :: wire)) : w.bytes.length ≤ maxSseLineBytes ∧ s.total + w.bytes.length ≤ maxSseTotalBytes := by
  obtain ⟨hlines, htotal⟩ := h
  rw [wireBytes, List.flatMap_cons, List.length_append] at htotal
  exact ⟨hlines w List.mem_cons_self, by omega⟩

/-- The room that lines leave for the lines behind them. -/
theorem Room.right (h : Room s (before ++ behind)) (htotal : t.total = s.total + (wireBytes before).length) : Room t behind := by
  obtain ⟨hlines, hbytes⟩ := h
  rw [wireBytes_append, List.length_append] at hbytes
  exact ⟨fun w hw => hlines w (List.mem_append_right _ hw), by omega⟩

theorem Room.left (h : Room s (before ++ behind)) : Room s before := by
  obtain ⟨hlines, hbytes⟩ := h
  rw [wireBytes_append, List.length_append] at hbytes
  exact ⟨fun w hw => hlines w (List.mem_append_left _ hw), by omega⟩

theorem Ignorable.ne_nil {text : Text} (h : Ignorable text) : text ≠ [] := by
  obtain ⟨-, name, -, value, rfl⟩ := h
  simp

theorem field_ignorable {text : Text} (h : Ignorable text) : field s text = .ok s := by
  obtain ⟨-, name, hname, value, rfl⟩ := h
  unfold field
  by_cases hcomment : name = []
  · rw [hcomment, List.nil_append, List.head?_cons, if_pos rfl]
  · have hfields : ∀ name ∈ ["".toList, "event".toList, "id".toList, "retry".toList], name ≠ [] →
        name.head? ≠ some ':' ∧ ':' ∉ name ∧ name ≠ "data".toList ∧ name ∈ ["event".toList, "id".toList, "retry".toList] := by decide
    obtain ⟨hhead, hcolon, hdata, hfield⟩ := hfields name hname hcomment
    have hfirst : (name ++ ':' :: value).head? ≠ some ':' := by
      rw [List.head?_append_of_ne_nil _ hcomment]
      exact hhead
    have hcut : cut [':'] (name ++ ':' :: value) = some (name, value) := @cut_mark Char _ [] ':' _ hcolon value
    rw [if_neg hfirst, hcut]
    dsimp only
    rw [if_neg hdata, if_pos hfield]

/-- Ignorable lines, and empty lines while no event is open, are passed over. -/
theorem Runs.noise (hnoise : ∀ w ∈ wire, Ignorable w.text ∨ w.text = [] ∧ s.dataLines = []) (hroom : Room s wire) :
    Runs limits s wire (s.count (wireBytes wire).length) := by
  induction wire generalizing s with
  | nil => exact Runs.refl s
  | cons w wire ih =>
    obtain ⟨hlength, htotal⟩ := hroom.line
    have hpassed : eventLine limits s w.bytes = .ok (.inl (s.count w.bytes.length)) ∧ Unbroken w.text := by
      rcases hnoise w List.mem_cons_self with hignorable | ⟨hempty, hclosed⟩
      · rw [eventLine_wire hignorable.1 hlength htotal, if_neg hignorable.ne_nil, field_ignorable hignorable]
        exact ⟨rfl, hignorable.1⟩
      · have hunbroken : Unbroken w.text := by simp [hempty, Unbroken]
        rw [eventLine_wire hunbroken hlength htotal, if_pos hempty, dispatch]
        exact ⟨if_pos hclosed, hunbroken⟩
    have hfirst := Runs.line hpassed.2 hlength hpassed.1
    have hbytes : wireBytes (w :: wire) = wireBytes [w] ++ wireBytes wire := wireBytes_append [w] wire
    have hone : (wireBytes [w]).length = w.bytes.length := by simp [wireBytes]
    have hrest := @ih (s.count w.bytes.length) (fun v hv => hnoise v (List.mem_cons_of_mem _ hv))
      (@Room.right s _ [w] wire hroom (by rw [hone]; rfl))
    have hcount : (s.count w.bytes.length).count (wireBytes wire).length = s.count (wireBytes (w :: wire)).length := by
      rw [hbytes, List.length_append, hone, Progress.count_count]
    exact hcount ▸ hfirst.trans hrest

/-- A piece behind `data:` is read as it is, or without a space that it begins with. -/
theorem field_dataLine (space : Bool) (piece : Text) :
    ∃ shifted, Shifted piece shifted ∧ field s (dataLine space piece) = .ok { s with dataLines := s.dataLines ++ [shifted] } := by
  have hhead : (dataLine space piece).head? ≠ some ':' := by simp [dataLine]
  have hcut : cut [':'] (dataLine space piece) = some ("data".toList, (if space then [' '] else []) ++ piece) :=
    @cut_mark Char _ [] ':' "data".toList (by decide) _
  have hfield : ∀ shifted, stripSpace ((if space then [' '] else []) ++ piece) = shifted →
      field s (dataLine space piece) = .ok { s with dataLines := s.dataLines ++ [shifted] } := by
    rintro shifted rfl
    unfold field
    rw [if_neg hhead, hcut]
    rfl
  cases space with
  | true => exact ⟨piece, .inl rfl, hfield piece rfl⟩
  | false =>
    by_cases hspace : piece.head? = some ' '
    · obtain ⟨rest, rfl⟩ : ∃ rest, piece = ' ' :: rest := by
        cases piece with
        | nil => cases hspace
        | cons c rest => exact ⟨rest, by rw [Option.some.inj hspace]⟩
      exact ⟨rest, .inr rfl, hfield rest rfl⟩
    · exact ⟨piece, .inl rfl, hfield piece (by simp [stripSpace, hspace])⟩

theorem unbroken_dataLine {space : Bool} {piece : Text} (h : Unbroken piece) : Unbroken (dataLine space piece) := by
  cases space <;> simpa [Unbroken, dataLine] using h

/-- The lines of an event up to its empty line: its pieces are the data lines, some of them shifted. -/
theorem Runs.block {pieces lines : List Text} (hblock : Block pieces lines) (hpieces : ∀ piece ∈ pieces, Unbroken piece)
    (hwire : wire.map WireLine.text = lines) (hroom : Room s wire) :
    ∃ before last shifted, wire = before ++ [last] ∧ last.text = [] ∧ List.Forall₂ Shifted pieces shifted ∧
      Runs limits s before { s with dataLines := s.dataLines ++ shifted, total := s.total + (wireBytes before).length } := by
  induction hblock generalizing s wire with
  | @close noise hnoise =>
    obtain ⟨before, last, rfl, hbefore, hlast⟩ := List.map_eq_append_iff.mp hwire
    obtain ⟨w, rfl, hw⟩ := List.map_eq_singleton_iff.mp hlast
    refine ⟨before, w, [], rfl, hw, .nil, ?_⟩
    have hruns := @Runs.noise limits s before (fun v hv => .inl (hnoise _ (hbefore ▸ List.mem_map_of_mem hv))) hroom.left
    rw [List.append_nil]
    exact hruns
  | @piece noise pieces lines piece space hnoise _ ih =>
    rw [List.forall_mem_cons] at hpieces
    obtain ⟨before, behind, rfl, hbefore, hbehind⟩ := List.map_eq_append_iff.mp hwire
    obtain ⟨w, wire, rfl, hw, hmore⟩ := List.map_eq_cons_iff.mp hbehind
    have hnoiseRuns := @Runs.noise limits s before (fun v hv => .inl (hnoise _ (hbefore ▸ List.mem_map_of_mem hv))) hroom.left
    have hroomData : Room (s.count (wireBytes before).length) (w :: wire) := hroom.right rfl
    obtain ⟨hlength, htotal⟩ := hroomData.line
    have hunbroken : Unbroken w.text := hw ▸ unbroken_dataLine hpieces.1
    obtain ⟨shifted, hshifted, hfield⟩ := @field_dataLine ((s.count (wireBytes before).length).count w.bytes.length) space piece
    have hline := @eventLine_wire limits w _ hunbroken hlength htotal
    have hne : w.text ≠ [] := by simp [hw, dataLine]
    rw [if_neg hne, hw, hfield] at hline
    have hdataRuns := Runs.line hunbroken hlength hline
    have hone : (wireBytes [w]).length = w.bytes.length := by simp [wireBytes]
    obtain ⟨rest, last, more, rfl, hlast, hmoreShifted, hmoreRuns⟩ := @ih
      { s with dataLines := s.dataLines ++ [shifted], total := s.total + (wireBytes before).length + w.bytes.length }
      wire hpieces.2 hmore (@Room.right _ _ [w] wire hroomData (by rw [hone]; rfl))
    refine ⟨before ++ ([w] ++ rest), last, shifted :: more, by simp, hlast, .cons hshifted hmoreShifted, ?_⟩
    have hall := hnoiseRuns.trans (hdataRuns.trans hmoreRuns)
    have hbytes : (wireBytes (before ++ ([w] ++ rest))).length =
        (wireBytes before).length + (w.bytes.length + (wireBytes rest).length) := by
      rw [wireBytes_append, wireBytes_append, List.length_append, List.length_append, hone]
    rw [hbytes]
    simpa [Nat.add_assoc] using hall

/-- The first event of a framed stream, up to its empty line. -/
theorem Runs.event {pieces lines : List Text} {blocks : List (List Text)} (hframed : Framed (pieces :: blocks) lines)
    (hpieces : ∀ piece ∈ pieces, Unbroken piece) (hwire : wire.map WireLine.text = lines) (hroom : Room s wire)
    (hclosed : s.dataLines = []) :
    ∃ before last behind shifted, wire = before ++ last :: behind ∧ last.text = [] ∧
      Framed blocks (behind.map WireLine.text) ∧ List.Forall₂ Shifted pieces shifted ∧
      Runs limits s before { s with dataLines := shifted, total := s.total + (wireBytes before).length } := by
  cases hframed with
  | @event gap _ lines more _ hgap hblock hmore =>
    obtain ⟨front, behind, rfl, hfront, hbehind⟩ := List.map_eq_append_iff.mp hwire
    obtain ⟨gapWire, blockWire, rfl, hgapWire, hblockWire⟩ := List.map_eq_append_iff.mp hfront
    have hgapRuns := @Runs.noise limits s gapWire
      (fun w hw => (hgap _ (hgapWire ▸ List.mem_map_of_mem hw)).imp_right fun hempty => ⟨hempty, hclosed⟩) hroom.left.left
    have hroomBlock : Room (s.count (wireBytes gapWire).length) blockWire := hroom.left.right rfl
    obtain ⟨before, last, shifted, rfl, hlast, hshifted, hblockRuns⟩ := @Runs.block limits _ _ _ _ hblock hpieces hblockWire hroomBlock
    refine ⟨gapWire ++ before, last, behind, shifted, by simp, hlast, hbehind ▸ hmore, hshifted, ?_⟩
    have hall := hgapRuns.trans hblockRuns
    rw [wireBytes_append, List.length_append]
    simpa [Progress.count, hclosed, Nat.add_assoc] using hall

end

/-! ## The events -/

section
variable {limits : ReadLimits} {s : Progress}

theorem loads_terminal : loads limits terminal = none := rfl

/-- An event whose data lines are a text, some of them shifted, is read as the text is. -/
theorem dispatch_text {text : Text} {v : Loaded} {shifted : List Text} (hparse : parseText limits text = .ok v)
    (hshifted : List.Forall₂ Shifted (split ['\n'] text) shifted) (hlines : s.dataLines = shifted) :
    dispatch limits s = .ok (.inl { s with events := s.events ++ [v], dataLines := [] }) := by
  have hload : loads limits (['\n'].intercalate shifted) = loads limits text := by
    rw [← loads_shifted hshifted, intercalate_split]
  have hread : parseText limits (['\n'].intercalate shifted) = .ok v := by rw [parseText, hload, ← parseText, hparse]
  have hne : shifted ≠ [] := by
    rintro rfl
    exact split_ne_nil (List.forall₂_nil_right_iff.mp hshifted)
  have hterminal : ['\n'].intercalate shifted ≠ terminal := by
    intro heq
    rw [heq, parseText, loads_terminal] at hread
    cases hread
  unfold dispatch
  rw [hlines, if_neg hne]
  dsimp only
  rw [if_neg hterminal, hread]
  rfl

theorem dispatch_terminal {shifted : List Text} (hshifted : List.Forall₂ Shifted [terminal] shifted) (hlines : s.dataLines = shifted) :
    dispatch limits s = .ok (.inr s.events) := by
  obtain ⟨last, _, hlast, hnil, rfl⟩ := List.forall₂_cons_left_iff.mp hshifted
  obtain rfl := List.forall₂_nil_left_iff.mp hnil
  have hsame : last = terminal := by
    rcases hlast with rfl | hspace
    · rfl
    · exact absurd (List.cons.inj hspace).1 (by decide)
  rw [dispatch, hlines, if_neg (List.cons_ne_nil _ _), List.intercalate_singleton, hsame]
  rfl

theorem unbroken_split {text : Text} (h : '\r' ∉ text) : ∀ piece ∈ split ['\n'] text, Unbroken piece :=
  fun _ hpiece => ⟨fun hmem => h (mem_of_mem_split hpiece hmem), not_mem_of_mem_split hpiece⟩

/-- Behind the lines before it, the empty line of an event does what its data lines say. -/
theorem Runs.dispatched {before behind : List WireLine} {last : WireLine} {t : Progress} {r : Progress ⊕ List Loaded}
    (hruns : Runs limits s before t) (hlast : last.text = []) (hroom : Room t [last])
    (hdispatch : dispatch limits (t.count last.bytes.length) = .ok r) (count : ℕ) (rest : Bytes) (failure : Option MeqCode) :
    ∃ next, rounds limits quiet count ⟨wireBytes (before ++ last :: behind) ++ rest, failure⟩ s =
      r.elim (rounds limits quiet next ⟨wireBytes behind ++ rest, failure⟩) .ok := by
  obtain ⟨hlength, htotal⟩ := hroom.line
  have hunbroken : Unbroken last.text := by simp [hlast, Unbroken]
  have hline := @eventLine_wire limits last t hunbroken hlength htotal
  rw [if_pos hlast, hdispatch] at hline
  obtain ⟨middle, hmiddle⟩ := hruns count (wireBytes (last :: behind) ++ rest) failure
  refine ⟨middle + 1, ?_⟩
  have hbytes : wireBytes (last :: behind) ++ rest = last.bytes ++ (wireBytes behind ++ rest) := by
    rw [wireBytes, List.flatMap_cons, List.append_assoc]
    rfl
  rw [wireBytes_append, List.append_assoc, hmiddle, hbytes, rounds_wire hunbroken hlength _ _ _ hline]

theorem rounds_framed {texts : List Text} {values : List Loaded}
    (hparse : List.Forall₂ (fun text v => parseText limits text = .ok v) texts values) (hreturn : ∀ text ∈ texts, '\r' ∉ text)
    {wire : List WireLine} (hframed : Framed (texts.map (split ['\n']) ++ [[terminal]]) (wire.map WireLine.text))
    (hroom : Room s wire) (hclosed : s.dataLines = []) (count : ℕ) (rest : Bytes) (failure : Option MeqCode) :
    rounds limits quiet count ⟨wireBytes wire ++ rest, failure⟩ s = .ok (s.events ++ values) := by
  induction hparse generalizing s wire count with
  | nil =>
    obtain ⟨before, last, behind, shifted, rfl, hlast, -, hshifted, hruns⟩ := @Runs.event limits s wire _ _ _ hframed
      (by simp [Unbroken, terminal]) rfl hroom hclosed
    have hlastRoom := @Room.right s { s with dataLines := shifted, total := s.total + (wireBytes before).length } before
      (last :: behind) hroom rfl
    obtain ⟨_, hrounds⟩ := @Runs.dispatched limits s before behind last _ _ hruns hlast (@Room.left _ [last] behind hlastRoom)
      (dispatch_terminal hshifted rfl) count rest failure
    rw [hrounds, List.append_nil]
    rfl
  | @cons text v texts values hread _ ih =>
    rw [List.forall_mem_cons] at hreturn
    obtain ⟨before, last, behind, shifted, rfl, hlast, hbehind, hshifted, hruns⟩ := @Runs.event limits s wire _ _ _ hframed
      (unbroken_split hreturn.1) rfl hroom hclosed
    have hlastRoom := @Room.right s { s with dataLines := shifted, total := s.total + (wireBytes before).length } before
      (last :: behind) hroom rfl
    obtain ⟨next, hrounds⟩ := @Runs.dispatched limits s before behind last _ _ hruns hlast (@Room.left _ [last] behind hlastRoom)
      (dispatch_text hread hshifted rfl) count rest failure
    rw [hrounds]
    have hone : (wireBytes [last]).length = last.bytes.length := by simp [wireBytes]
    have hrest := @ih ⟨s.events ++ [v], [], s.total + (wireBytes before).length + last.bytes.length⟩ hreturn.2 behind hbehind
      (@Room.right _ _ [last] behind hlastRoom (by rw [hone])) rfl next
    exact hrest.trans (by rw [List.append_assoc, List.singleton_append])

end

/-! ## Streams that are cut short -/

/-- The text of a line, if it has one. -/
def lineText (line : Bytes) : Option Text := (decodeText line).map stripReturn

/-- The data lines that are open behind a line. -/
def openData (dataLines : List Text) (line : Bytes) : List Text :=
  match lineText line with
  | none => dataLines
  | some text =>
    if text = [] then []
    else
      match cut [':'] text with
      | none => dataLines
      | some (name, value) => if name = "data".toList then dataLines ++ [stripSpace value] else dataLines

/-- A stream that comes to its terminal event: whole lines whose open data is the terminal alone, and an empty line. -/
def Terminates (dataLines : List Text) (stream : Bytes) : Prop :=
  ∃ lines last rest, stream = joinLines (lines ++ [last]) ++ rest ∧ (∀ line ∈ lines ++ [last], lineFeed ∉ line) ∧
    lineText last = some [] ∧ lines.foldl openData dataLines = [terminal]

section
variable {limits : ReadLimits} {s : Progress} {line : Bytes}

/-- A line that was read whole holds one line feed, at its end. -/
theorem readline_line {limit : ℕ} {r r' : Response} (h : r.readline limit = .ok (line, r')) (hlast : line.getLast? = some lineFeed) :
    lineFeed ∉ line.dropLast := by
  have hmem : lineFeed ∈ line := List.mem_of_getLast? hlast
  unfold Response.readline at h
  cases hcut : cut [lineFeed] r.rest with
  | none =>
    have hnone := not_mem_of_cut_none hcut
    have htake : lineFeed ∉ r.rest.take limit := fun hmem => hnone (List.mem_of_mem_take hmem)
    rw [hcut] at h
    dsimp only at h
    split at h
    · split at h
      · cases h
      · obtain ⟨rfl, -⟩ := Prod.mk.inj (Except.ok.inj h)
        exact absurd hmem htake
    · obtain ⟨rfl, -⟩ := Prod.mk.inj (Except.ok.inj h)
      exact absurd hmem htake
  | some parts =>
    obtain ⟨before, behind⟩ := parts
    have hbefore := not_mem_of_cut hcut
    rw [hcut] at h
    dsimp only at h
    split at h
    · obtain ⟨rfl, -⟩ := Prod.mk.inj (Except.ok.inj h)
      rwa [List.dropLast_concat]
    · rename_i hlong
      obtain ⟨rfl, -⟩ := Prod.mk.inj (Except.ok.inj h)
      rw [cut_eq hcut, List.append_assoc, List.take_append_of_le_length (not_lt.mp hlong)] at hmem
      exact absurd (List.mem_of_mem_take hmem) hbefore

theorem dispatch_sum {r : Progress ⊕ List Loaded} (h : dispatch limits s = .ok r) :
    (∃ t, r = .inl t ∧ t.dataLines = []) ∨ (∃ events, r = .inr events) ∧ s.dataLines = [terminal] := by
  unfold dispatch at h
  by_cases hempty : s.dataLines = []
  · rw [if_pos hempty] at h
    exact .inl ⟨s, (Except.ok.inj h).symm, hempty⟩
  · rw [if_neg hempty] at h
    dsimp only at h
    by_cases hterminal : ['\n'].intercalate s.dataLines = terminal
    · rw [if_pos hterminal] at h
      refine .inr ⟨⟨s.events, (Except.ok.inj h).symm⟩, ?_⟩
      -- two lines would be joined by a line feed
      match hlines : s.dataLines, hempty with
      | [line], _ =>
        rw [hlines, List.intercalate_singleton] at hterminal
        rw [hterminal]
      | line :: other :: more, _ =>
        have hfeed : '\n' ∈ terminal := by
          rw [← hterminal, hlines, List.intercalate_cons_cons]
          simp
        exact absurd hfeed (by decide)
    · rw [if_neg hterminal] at h
      simp only [bind_eq_ok, pure_eq_ok] at h
      obtain ⟨v, -, rfl⟩ := h
      exact .inl ⟨_, rfl, rfl⟩

theorem field_openData {t : Progress} {text : Text} (hne : text ≠ []) (hline : lineText line = some text) (h : field s text = .ok t) :
    t.dataLines = openData s.dataLines line := by
  unfold openData
  rw [hline]
  dsimp only
  rw [if_neg hne]
  unfold field at h
  by_cases hcomment : text.head? = some ':'
  · rw [if_pos hcomment] at h
    obtain rfl := Except.ok.inj h
    obtain ⟨comment, rfl⟩ : ∃ comment, text = ':' :: comment := by
      obtain ⟨c, comment, rfl⟩ := List.exists_cons_of_ne_nil hne
      exact ⟨comment, by rw [Option.some.inj hcomment]⟩
    have hcut : cut [':'] (':' :: comment) = some ([], comment) := @cut_mark Char _ [] ':' [] List.not_mem_nil comment
    rw [hcut]
    rfl
  · rw [if_neg hcomment] at h
    cases hcut : cut [':'] text with
    | none => simp [hcut] at h
    | some parts =>
      obtain ⟨name, value⟩ := parts
      rw [hcut] at h
      dsimp only at h ⊢
      by_cases hdata : name = "data".toList
      · rw [if_pos hdata] at h ⊢
        obtain rfl := Except.ok.inj h
        rfl
      · rw [if_neg hdata] at h ⊢
        split at h
        · obtain rfl := Except.ok.inj h
          rfl
        · cases h

/-- What a line leaves open, or that it ends the stream. -/
theorem eventLine_sum {r : Progress ⊕ List Loaded} (h : eventLine limits s line = .ok r) : line.getLast? = some lineFeed ∧
    ((∃ t, r = .inl t ∧ t.dataLines = openData s.dataLines line.dropLast) ∨
      (∃ events, r = .inr events) ∧ lineText line.dropLast = some [] ∧ s.dataLines = [terminal]) := by
  unfold eventLine at h
  simp only [bind_eq_ok, guardWith_eq_ok] at h
  obtain ⟨_, -, _, hlast, h⟩ := h
  refine ⟨hlast, ?_⟩
  cases hdecode : decodeText line.dropLast with
  | none => simp [hdecode] at h
  | some text =>
    rw [hdecode] at h
    simp only [bind_eq_ok, guardWith_eq_ok] at h
    obtain ⟨_, -, h⟩ := h
    have hline : lineText line.dropLast = some (stripReturn text) := by rw [lineText, hdecode, Option.map_some]
    by_cases hempty : stripReturn text = []
    · rw [if_pos hempty] at h
      rw [hempty] at hline
      rcases dispatch_sum h with ⟨t, rfl, ht⟩ | ⟨hevents, hdata⟩
      · refine .inl ⟨t, rfl, ?_⟩
        rw [ht, openData, hline]
        rfl
      · exact .inr ⟨hevents, hline, hdata⟩
    · rw [if_neg hempty] at h
      simp only [bind_eq_ok, pure_eq_ok] at h
      obtain ⟨t, ht, rfl⟩ := h
      have hopen := field_openData hempty hline ht
      exact .inl ⟨t, rfl, hopen⟩

theorem joinLines_dropLast (hlast : line.getLast? = some lineFeed) : joinLines [line.dropLast] = line := by
  have hwhole := List.dropLast_append_getLast? lineFeed hlast
  simpa [joinLines] using hwhole

theorem rounds_terminates {poll : ℕ → Option MeqCode} {count : ℕ} {r : Response} {values : List Loaded}
    (h : rounds limits poll count r s = .ok values) : Terminates s.dataLines r.rest := by
  fun_induction rounds limits poll count r s with
  | case1 => cases h
  | case2 => cases h
  | case3 => cases h
  | case4 count r s hpoll line r' hread events hline =>
    obtain ⟨hlast, hcases⟩ := eventLine_sum hline
    rcases hcases with ⟨t, hinl, -⟩ | ⟨-, htext, hdata⟩
    · cases hinl
    · refine ⟨[], line.dropLast, r'.rest, ?_, ?_, htext, hdata⟩
      · rw [List.nil_append, joinLines_dropLast hlast, Response.readline_append hread]
      · simpa using readline_line hread hlast
  | case5 count r s hpoll line r' hread t hline ih =>
    obtain ⟨hlast, hcases⟩ := eventLine_sum hline
    rcases hcases with ⟨u, hinl, hopen⟩ | ⟨⟨events, hinr⟩, -⟩
    · obtain rfl := Sum.inl.inj hinl
      obtain ⟨lines, last, rest, hrest, hclean, htext, hdata⟩ := ih h
      refine ⟨line.dropLast :: lines, last, rest, ?_, ?_, htext, by rw [List.foldl_cons, ← hopen, hdata]⟩
      · have hsplit := joinLines_append [line.dropLast] (lines ++ [last])
        rw [joinLines_dropLast hlast, List.singleton_append] at hsplit
        rw [← Response.readline_append hread, hrest, List.cons_append, hsplit, List.append_assoc]
      · exact List.forall_mem_cons.mpr ⟨readline_line hread hlast, hclean⟩
    · cases hinr

end

/-- Without cancellation and deadlines, a framed stream gives the values of its texts, in order and whatever follows its
terminal event; and a stream that does not come to a terminal event gives an error. -/
theorem event_stream (limits : ReadLimits) :
    (∀ texts values (wire : List WireLine) rest failure,
      List.Forall₂ (fun text v => parseText limits text = .ok v) texts values → (∀ text ∈ texts, '\r' ∉ text) →
      Framed (texts.map (split ['\n']) ++ [[terminal]]) (wire.map WireLine.text) → Within wire →
      events limits (fun _ => none) ⟨wireBytes wire ++ rest, failure⟩ = .ok values) ∧
    ∀ poll r, ¬ Terminates [] r.rest → ∃ code, events limits poll r = .error code := by
  refine ⟨fun texts values wire rest failure hparse hreturn hframed hwithin => ?_, fun poll r hcut => ?_⟩
  · have hroom : Room ⟨[], [], 0⟩ wire := ⟨hwithin.1, by rw [Nat.zero_add]; exact hwithin.2⟩
    exact rounds_framed hparse hreturn hframed hroom rfl 0 rest failure
  · rcases ok_or_error (events limits poll r) with ⟨values, hvalues⟩ | herror
    · exact absurd (rounds_terminates hvalues) hcut
    · exact herror

/-- Two texts, one of them over two lines behind a bare `data:`, with a comment and a field between their lines. -/
def sampleWire : List WireLine :=
  [⟨": hello".toList, false⟩, ⟨[], true⟩, ⟨"data: 7".toList, true⟩, ⟨[], false⟩, ⟨"id: 1".toList, false⟩, ⟨"data:[".toList, false⟩,
    ⟨":".toList, true⟩, ⟨"data: 1]".toList, false⟩, ⟨[], false⟩, ⟨"data:[DONE]".toList, true⟩, ⟨[], true⟩]

theorem sampleWire_framed : Framed (["7".toList, "[\n 1]".toList].map (split ['\n']) ++ [[terminal]]) (sampleWire.map WireLine.text) := by
  have hpieces : ["7".toList, "[\n 1]".toList].map (split ['\n']) = [["7".toList], ["[".toList, " 1]".toList]] := by decide +kernel
  have hcomment : Ignorable ": hello".toList := ⟨by unfold Unbroken; decide, "".toList, by decide, " hello".toList, rfl⟩
  have hbare : Ignorable ":".toList := ⟨by unfold Unbroken; decide, "".toList, by decide, [], rfl⟩
  have hfield : Ignorable "id: 1".toList := ⟨by unfold Unbroken; decide, "id".toList, by decide, " 1".toList, rfl⟩
  have hseven : Block ["7".toList] ["data: 7".toList, []] := @Block.piece [] _ _ _ true (by simp) (@Block.close [] (by simp))
  have hlist : Block ["[".toList, " 1]".toList] ["data:[".toList, ":".toList, "data: 1]".toList, []] :=
    @Block.piece [] _ _ _ false (by simp) (@Block.piece [":".toList] _ _ _ false (by simpa using hbare) (@Block.close [] (by simp)))
  have hdone : Block [terminal] ["data:[DONE]".toList, []] := @Block.piece [] _ _ _ false (by simp) (@Block.close [] (by simp))
  have hthird := @Framed.event [] _ _ _ _ (by simp) hdone .done
  have hsecond := @Framed.event ["id: 1".toList] _ _ _ _ (by simpa using hfield) hlist hthird
  have hfirst := @Framed.event [": hello".toList, []] _ _ _ _ (by simpa using hcomment) hseven hsecond
  rw [hpieces]
  exact hfirst

theorem event_stream_sample :
    events ⟨100, 4300⟩ quiet ⟨wireBytes sampleWire ++ [0, 255], none⟩ = .ok [.int 7, .arr [.int 1]] ∧
    ∃ code, events ⟨100, 4300⟩ quiet ⟨encodeText "data: 7".toList, none⟩ = .error code := by
  constructor
  · have hwithin : Within sampleWire := by
      unfold Within
      decide +kernel
    exact (event_stream ⟨100, 4300⟩).1 ["7".toList, "[\n 1]".toList] _ sampleWire _ _ (.cons rfl (.cons rfl .nil)) (by decide)
      sampleWire_framed hwithin
  · refine (event_stream ⟨100, 4300⟩).2 quiet _ ?_
    rintro ⟨lines, last, rest, hstream, -⟩
    have hfeed : lineFeed ∈ joinLines (lines ++ [last]) ++ rest := by
      rw [joinLines_snoc]
      simp
    rw [← hstream] at hfeed
    exact lineFeed_not_mem_encodeText (by decide) hfeed

end HarnessConformance.ModelEndpoint
