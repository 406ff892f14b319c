import HarnessConformance.ProxyClient.Http

/-! # Framing

However the peer cuts its stream, a response is read when the stream is one header block and the body that it
announces, and nothing else. -/

namespace HarnessConformance.ProxyClient
open Lib Lib.Outcome Lib.Lines Lib.Splitting
open Admission (require require_eq_ok refusal)
set_option autoImplicit false

/-! ## The loops -/

section
variable {peer peer' : Peer} {data data' body body' headers : Bytes} {size : ℕ}

theorem readHeaders_sound (h : readHeaders peer data = .ok (data', peer')) (hdata : data.length ≤ 16384) :
    data' ++ peer'.rest = data ++ peer.rest ∧ data'.length ≤ 16384 ∧ cut blankLine data' ≠ none := by
  fun_induction readHeaders peer data with
  | case1 peer data hfound =>
    obtain ⟨rfl, rfl⟩ := Prod.mk.inj (Except.ok.inj h)
    exact ⟨rfl, hdata, hfound⟩
  | case2 => cases h
  | case3 => cases h
  | case4 peer data hfound hsize part rest hread hpart ih =>
    have happend := peer.read_append (min 4096 (16384 - data.length))
    have hlength := peer.read_length_le (min 4096 (16384 - data.length))
    rw [hread] at happend hlength
    dsimp only at happend hlength
    obtain ⟨hrest, htotal⟩ := ih h (by rw [List.length_append]; omega)
    exact ⟨by rw [hrest, List.append_assoc, happend], htotal⟩

theorem readHeaders_total (hdata : data.length ≤ 16384) (hcut : cut blankLine (data ++ peer.rest) = some (headers, body))
    (hsize : headers.length + 4 ≤ 16384) : ∃ r, readHeaders peer data = .ok r := by
  fun_induction readHeaders peer data with
  | case1 peer data hfound => exact ⟨_, rfl⟩
  | case2 peer data hfound hfull =>
    have hexact : data.length = 16384 := le_antisymm hdata hfull
    obtain ⟨rest, hrest⟩ := cut_take hcut (n := data.length) (by rw [hexact]; exact hsize)
    rw [List.take_left] at hrest
    exact absurd (hrest ▸ Option.some_ne_none _) hfound
  | case3 peer data hfound hfull rest hread =>
    have hpos : 0 < min 4096 (16384 - data.length) := by omega
    have hend : peer.rest = [] := (Peer.read_eq_nil hpos).mp (by rw [hread])
    rw [hend, List.append_nil] at hcut
    exact absurd (hcut ▸ Option.some_ne_none _) hfound
  | case4 peer data hfound hfull part rest hread hpart ih =>
    have happend := peer.read_append (min 4096 (16384 - data.length))
    have hlength := peer.read_length_le (min 4096 (16384 - data.length))
    rw [hread] at happend hlength
    dsimp only at happend hlength
    exact ih (by rw [List.length_append]; omega) (by rwa [List.append_assoc, happend])

theorem readBody_sound (h : readBody size peer body = .ok (body', peer')) (hbody : body.length ≤ size) :
    body' ++ peer'.rest = body ++ peer.rest ∧ body'.length = size := by
  fun_induction readBody size peer body with
  | case1 peer body hdone =>
    obtain ⟨rfl, rfl⟩ := Prod.mk.inj (Except.ok.inj h)
    exact ⟨rfl, le_antisymm hbody hdone⟩
  | case2 => cases h
  | case3 => cases h
  | case4 peer body hdone part rest hread hpart hsurplus ih =>
    have happend := peer.read_append (min 65536 (size + 1 - body.length))
    rw [hread] at happend
    dsimp only at happend
    obtain ⟨hrest, hlength⟩ := ih h (not_lt.mp hsurplus)
    exact ⟨by rw [hrest, List.append_assoc, happend], hlength⟩

theorem readBody_total (hexact : (body ++ peer.rest).length = size) : ∃ r, readBody size peer body = .ok r := by
  fun_induction readBody size peer body with
  | case1 => exact ⟨_, rfl⟩
  | case2 peer body hdone rest hread =>
    have hpos : 0 < min 65536 (size + 1 - body.length) := by omega
    have hend : peer.rest = [] := (Peer.read_eq_nil hpos).mp (by rw [hread])
    rw [hend, List.append_nil] at hexact
    exact absurd hexact.ge hdone
  | case3 peer body hdone part rest hread hpart hsurplus =>
    have happend := peer.read_append (min 65536 (size + 1 - body.length))
    rw [hread] at happend
    dsimp only at happend
    rw [← happend, ← List.append_assoc, List.length_append] at hexact
    omega
  | case4 peer body hdone part rest hread hpart hsurplus ih =>
    have happend := peer.read_append (min 65536 (size + 1 - body.length))
    rw [hread] at happend
    dsimp only at happend
    exact ih (by rwa [List.append_assoc, happend])

end

/-! ## The message read -/

section
variable {stream first body : Bytes} {choices : ℕ → ℕ} {host : Option String}

theorem pending_eq_zero {peer : Peer} (h : peer.rest = []) : peer.pending.1 = 0 := by
  rw [Peer.pending, h]
  exact Nat.min_zero _

/-- The reader takes the stream whole: a header block, the body announced, and its end. -/
theorem readHttp_eq_ok : readHttp ⟨stream, choices⟩ true host = .ok (first, body) ↔
    ∃ headers, cut blankLine stream = some (headers, body) ∧ headers.length + 4 ≤ 16384 ∧
      parseHeaders (headers ++ blankLine) true host = .ok (first, body.length) := by
  constructor
  · intro h
    unfold readHttp at h
    simp only [bind_eq_ok, require_eq_ok, pure_eq_ok, if_true] at h
    obtain ⟨⟨data, peer⟩, hheaders, ⟨first', size⟩, hparse, _, hsize, ⟨body', peer'⟩, hbody, _, -, _, hend, heq⟩ := h
    obtain ⟨rfl, rfl⟩ := Prod.mk.inj heq
    obtain ⟨hdata, hlength, hfound⟩ := readHeaders_sound hheaders (Nat.zero_le _)
    obtain ⟨⟨headers, after⟩, hcut⟩ := Option.ne_none_iff_exists'.mp hfound
    rw [hcut] at hparse hsize hbody
    obtain ⟨hrest, hexact⟩ := readBody_sound hbody hsize
    have hdone : peer'.pending.2.rest = [] := (Peer.read_eq_nil Nat.one_pos).mp hend
    have hrest' : peer'.rest = [] := hdone
    rw [hrest', List.append_nil] at hrest
    refine ⟨headers, ?_, ?_, hexact ▸ hparse⟩
    · have hstream : data ++ peer.rest = stream := hdata
      rw [← hstream, hrest]
      exact cut_append hcut _
    · have hparts := congrArg List.length (cut_eq hcut)
      simp only [List.length_append, blankLine, List.length_cons, List.length_nil] at hparts
      omega
  · rintro ⟨headers, hcut, hlength, hparse⟩
    obtain ⟨⟨data, peer⟩, hheaders⟩ : ∃ r, readHeaders ⟨stream, choices⟩ [] = .ok r :=
      readHeaders_total (Nat.zero_le _) hcut hlength
    obtain ⟨hdata, -, hfound⟩ := readHeaders_sound hheaders (Nat.zero_le _)
    obtain ⟨⟨headers', after⟩, hcut'⟩ := Option.ne_none_iff_exists'.mp hfound
    have hstream : data ++ peer.rest = stream := hdata
    have hwhole : cut blankLine stream = some (headers', after ++ peer.rest) := hstream ▸ cut_append hcut' peer.rest
    obtain ⟨rfl, rfl⟩ := Prod.mk.inj (Option.some.inj (hwhole.symm.trans hcut))
    obtain ⟨⟨body', peer'⟩, hbody⟩ : ∃ r, readBody (after ++ peer.rest).length peer after = .ok r := readBody_total rfl
    have hafter : after.length ≤ (after ++ peer.rest).length := by
      rw [List.length_append]
      exact Nat.le_add_right _ _
    obtain ⟨hrest, hexact⟩ := readBody_sound hbody hafter
    -- the body read has the length of what was left, so nothing is left now
    have hdone : peer'.rest = [] := by
      have htotal := congrArg List.length hrest
      rw [List.length_append, hexact] at htotal
      exact List.length_eq_zero_iff.mp (by omega)
    rw [hdone, List.append_nil] at hrest
    subst hrest
    unfold readHttp
    rw [hheaders, ok_bind]
    dsimp only
    rw [hcut', Option.getD_some, hparse, ok_bind]
    dsimp only
    rw [require, conform, guardWith_of hafter, ok_bind, hbody, ok_bind]
    dsimp only
    rw [require, conform, guardWith_of (pending_eq_zero hdone), ok_bind, if_pos rfl]
    have hlast : (peer'.pending.2.read 1).1 = [] := (Peer.read_eq_nil Nat.one_pos).mpr hdone
    rw [require, conform, guardWith_of hlast]
    rfl

end

/-! ## The header read -/

def headerLine (row : Bytes × Bytes) : Bytes := row.1 ++ asciiBytes ": " ++ row.2

/-- A line that continues the one before it. -/
def Folded (line : Bytes) : Prop := asciiBytes " " <+: line ∨ asciiBytes "\t" <+: line

instance : DecidablePred Folded := fun line => inferInstanceAs (Decidable (asciiBytes " " <+: line ∨ asciiBytes "\t" <+: line))

theorem headerField_eq_ok {fields fields' : Fields} {line : Bytes} : headerField fields line = .ok fields' ↔
    ∃ name value, cut (asciiBytes ": ") line = some (name, value) ∧ ¬ Folded line ∧
      (lower name ∈ headerNames ∧ lower name ∉ fields.map Prod.fst ∧ value ≠ [] ∧ ∀ n ∈ value, 32 ≤ n ∧ n ≤ 126) ∧
      fields' = fields ++ [(lower name, value)] := by
  unfold headerField
  cases hcut : cut (asciiBytes ": ") line with
  | none => simp
  | some p =>
    obtain ⟨name, value⟩ := p
    simp only [bind_eq_ok, require_eq_ok, pure_eq_ok]
    constructor
    · rintro ⟨_, hfold, _, hfield, rfl⟩
      exact ⟨name, value, rfl, hfold, hfield, rfl⟩
    · rintro ⟨_, _, heq, hfold, hfield, rfl⟩
      obtain ⟨rfl, rfl⟩ := Prod.mk.inj (Option.some.inj heq)
      exact ⟨(), hfold, (), hfield, rfl⟩

theorem headerFields_sound {lines : List Bytes} {fields fields' : Fields}
    (h : lines.foldlM headerField fields = .ok fields') (hfields : (fields.map Prod.fst).Nodup) :
    ∃ rows : Fields, lines = rows.map headerLine ∧ fields' = fields ++ rows.map (fun r => (lower r.1, r.2)) ∧
      (fields'.map Prod.fst).Nodup ∧ ∀ r ∈ rows, ¬ Folded (headerLine r) := by
  induction lines generalizing fields with
  | nil =>
    rw [List.foldlM_nil, pure_eq_ok] at h
    obtain rfl := h
    exact ⟨[], rfl, (List.append_nil _).symm, hfields, by simp⟩
  | cons line lines ih =>
    obtain ⟨middle, hline, hlines⟩ := foldlM_cons_eq_ok.mp h
    obtain ⟨name, value, hcut, hfold, ⟨-, hnew, -⟩, rfl⟩ := headerField_eq_ok.mp hline
    have hmiddle : ((fields ++ [(lower name, value)]).map Prod.fst).Nodup := by
      rw [List.map_append]
      exact List.Nodup.append hfields (List.nodup_singleton _) (List.disjoint_singleton.mpr hnew)
    obtain ⟨rows, rfl, rfl, hnodup, hrows⟩ := ih hlines hmiddle
    have hline : line = headerLine (name, value) := cut_eq hcut
    refine ⟨(name, value) :: rows, by rw [List.map_cons, hline], by simp, hnodup, ?_⟩
    exact List.forall_mem_cons.mpr ⟨hline ▸ hfold, hrows⟩

/-- A response whose header has the three expected fields, each once and on a line of its own, and whose body is
followed by nothing. -/
structure Response (stream first body : Bytes) (fields : Fields) : Prop where
  stream : stream = crlf.intercalate (first :: fields.map headerLine) ++ blankLine ++ body
  first : first = statusLine
  names : (fields.map fun f => lower f.1).Perm (expectedNames true)
  unfolded : ∀ f ∈ fields, ¬ Folded (headerLine f)
  length : ∃ f ∈ fields, lower f.1 = asciiBytes "content-length" ∧ Json.natOfDigits (latin f.2) = body.length
  bounded : 0 < body.length ∧ body.length ≤ 4194304

theorem contentLength_eq_ok {response : Bool} {fields : Fields} {length : ℕ} : contentLength response fields = .ok length ↔
    ∃ value, fields.lookup (asciiBytes "content-length") = some value ∧
      ((∀ name ∈ fields.map Prod.fst, name ∈ expectedNames response) ∧
        (∀ name ∈ expectedNames response, name ∈ fields.map Prod.fst) ∧
        fields.lookup (asciiBytes "content-type") = some (asciiBytes "application/json") ∧
        fields.lookup (asciiBytes "connection") = some (asciiBytes "close") ∧
        lengthPattern.fullmatchChars (latin value)) ∧ Json.natOfDigits (latin value) = length := by
  unfold contentLength
  cases fields.lookup (asciiBytes "content-length") with
  | none => simp
  | some value =>
    simp only [bind_eq_ok, require_eq_ok, pure_eq_ok]
    constructor
    · rintro ⟨_, hnames, rfl⟩
      exact ⟨value, rfl, hnames, rfl⟩
    · rintro ⟨_, heq, hnames, rfl⟩
      obtain rfl := Option.some.inj heq
      exact ⟨(), hnames, rfl⟩

theorem lookup_mem {fields : Fields} {name value : Bytes} (h : fields.lookup name = some value) : (name, value) ∈ fields := by
  obtain ⟨before, after, rfl, -⟩ := List.lookup_eq_some_iff.mp h
  exact List.mem_append_right _ List.mem_cons_self

theorem take_append_blankLine {raw : Bytes} (h : blankLine <:+ raw) : raw.take (raw.length - 4) ++ blankLine = raw := by
  obtain ⟨front, rfl⟩ := h
  have hlength : (front ++ blankLine).length - 4 = front.length := by simp [blankLine]
  rw [hlength, List.take_left]

theorem response_of_parse {raw first body : Bytes} {host : Option String}
    (h : parseHeaders raw true host = .ok (first, body.length)) : ∃ fields, Response (raw ++ body) first body fields := by
  unfold parseHeaders at h
  simp only [bind_eq_ok, require_eq_ok, pure_eq_ok, if_true] at h
  obtain ⟨_, ⟨-, hblank⟩, _, ⟨hlines, -⟩, fields, hfold, length, hlength, _, hbounds, _, htarget, heq⟩ := h
  obtain ⟨hfirst, rfl⟩ := Prod.mk.inj heq
  obtain ⟨line, lines, hsplit⟩ := List.exists_cons_of_ne_nil hlines
  rw [hsplit] at hfold htarget hfirst
  obtain rfl : line = first := hfirst
  obtain ⟨rows, rfl, rfl, hnodup, hrows⟩ := headerFields_sound hfold List.nodup_nil
  obtain ⟨value, hvalue, ⟨hknown, hall, -⟩, hdigits⟩ := contentLength_eq_ok.mp hlength
  have hperm : ((rows.map fun r => (lower r.1, r.2)).map Prod.fst).Perm (expectedNames true) := by
    rw [List.nil_append] at hnodup hknown hall
    have hexpected : (expectedNames true).Nodup := by decide
    exact (List.perm_ext_iff_of_nodup hnodup hexpected).mpr fun name => ⟨hknown name, hall name⟩
  refine ⟨rows, ?_, require_eq_ok.mp htarget, ?_, hrows, ?_, hbounds⟩
  · have hjoin : crlf.intercalate (split crlf (raw.take (raw.length - 4))) = raw.take (raw.length - 4) :=
      intercalate_split _
    rw [hsplit] at hjoin
    rw [hjoin, take_append_blankLine hblank]
  · rwa [List.map_map] at hperm
  · obtain ⟨row, hrow, heq⟩ := List.mem_map.mp (lookup_mem hvalue)
    obtain ⟨hname, rfl⟩ := Prod.mk.inj heq
    exact ⟨row, hrow, hname, hdigits⟩

/-! ## The message written -/

theorem asciiBytes_append (s t : String) : asciiBytes (s ++ t) = asciiBytes s ++ asciiBytes t := by
  simp [asciiBytes]

theorem mem_upTo {p : Char → Bool} {n : ℕ} {s : List Char} (hlength : s.length ≤ n) (hs : ∀ c ∈ s, p c = true) :
    Regex.Matches (.upTo (.one p) n) s := by
  induction n generalizing s with
  | zero =>
    obtain rfl := List.length_eq_zero_iff.mp (Nat.le_zero.mp hlength)
    exact .eps
  | succ n ih =>
    cases s with
    | nil => exact .altLeft .eps
    | cons c s =>
      rw [List.forall_mem_cons] at hs
      exact .altRight (.seq (.one hs.1) (ih (Nat.le_of_succ_le_succ hlength) hs.2))

/-- The digits of a length, as bytes. -/
def digits (n : ℕ) : Bytes := asciiBytes (String.ofList (Json.encodeNat n))

theorem digit_iff {c : Char} : Json.isDigit c = true ↔ 48 ≤ c.toNat ∧ c.toNat ≤ 57 := by
  simp only [Json.isDigit, Bool.and_eq_true, decide_eq_true_eq, Char.le_def, UInt32.le_iff_toNat_le]
  rfl

theorem toNat_ofNat_digit {c : Char} (h : Json.isDigit c = true) : (UInt8.ofNat c.toNat).toNat = c.toNat := by
  have hrange := digit_iff.mp h
  rw [UInt8.toNat_ofNat']
  omega

theorem latin_digits (n : ℕ) : latin (digits n) = Json.encodeNat n := by
  rw [latin, digits, asciiBytes, String.toList_ofList, List.map_map]
  have hid : ∀ c ∈ Json.encodeNat n, (fun b : UInt8 => Char.ofNat b.toNat) (UInt8.ofNat c.toNat) = c := by
    intro c hc
    dsimp only
    rw [toNat_ofNat_digit (Json.isDigit_of_mem_encodeNat hc), Char.ofNat_toNat]
  exact (List.map_congr_left hid).trans (List.map_id _)

theorem digits_range (n : ℕ) : ∀ b ∈ digits n, 48 ≤ b.toNat ∧ b.toNat ≤ 57 := by
  intro b hb
  rw [digits, asciiBytes, String.toList_ofList] at hb
  obtain ⟨c, hc, rfl⟩ := List.mem_map.mp hb
  have hdigit := Json.isDigit_of_mem_encodeNat hc
  rw [toNat_ofNat_digit hdigit]
  exact digit_iff.mp hdigit

theorem length_encodeNat {n : ℕ} (h : n ≤ 4194304) : (Json.encodeNat n).length ≤ 7 := by
  unfold Json.encodeNat
  split
  · decide
  · rw [List.length_map, List.length_reverse]
    exact (Nat.digits_length_le_iff (by decide) n).mpr (by omega)

theorem length_digits (n : ℕ) : (digits n).length = (Json.encodeNat n).length := by
  rw [digits, asciiBytes, List.length_map, String.toList_ofList]

theorem lengthPattern_encodeNat {n : ℕ} (hpos : 0 < n) (h : n ≤ 4194304) :
    lengthPattern.fullmatchChars (Json.encodeNat n) = true := by
  obtain ⟨c, t, hct, hdigit, hzero⟩ := Json.encodeNat_head (Nat.pos_iff_ne_zero.mp hpos)
  have hlength := length_encodeNat h
  rw [hct, List.length_cons] at hlength
  have hfirst : (fun c : Char => decide ('1' ≤ c) && decide (c ≤ '9')) c = true := by
    have hrange := digit_iff.mp hdigit
    have hnot : c.toNat ≠ 48 := fun heq => hzero (Char.toNat_inj.mp heq)
    simp only [Bool.and_eq_true, decide_eq_true_eq, Char.le_def, UInt32.le_iff_toNat_le]
    have hval : c.val.toNat = c.toNat := rfl
    have hone : '1'.val.toNat = 49 := rfl
    have hnine : '9'.val.toNat = 57 := rfl
    omega
  have hall : ∀ d ∈ t, d.isDigit = true := by
    intro d hd
    have hmem : d ∈ Json.encodeNat n := hct ▸ List.mem_cons_of_mem c hd
    have hrange := digit_iff.mp (Json.isDigit_of_mem_encodeNat hmem)
    simp only [Char.isDigit, Bool.and_eq_true, decide_eq_true_eq, ge_iff_le, UInt32.le_iff_toNat_le]
    exact hrange
  rw [Regex.fullmatchChars_iff, hct]
  exact .altRight (.seq (.one hfirst) (mem_upTo (by omega) hall))

/-- The header lines of a response. -/
def responseLines (n : ℕ) : List Bytes :=
  [statusLine, asciiBytes "Content-Type: application/json", asciiBytes "Content-Length: " ++ digits n,
    asciiBytes "Connection: close"]

theorem responseLines_clean (n : ℕ) : ∀ l ∈ responseLines n, l ≠ [] ∧ 13 ∉ l := by
  have hlength : asciiBytes "Content-Length: " ++ digits n ≠ [] ∧ 13 ∉ asciiBytes "Content-Length: " ++ digits n := by
    refine ⟨List.append_ne_nil_of_left_ne_nil (by decide) _, fun hmem => ?_⟩
    rcases List.mem_append.mp hmem with hmem | hmem
    · exact absurd hmem (by decide)
    · exact absurd (digits_range n 13 hmem) (by decide)
  simp only [responseLines, List.forall_mem_cons]
  exact ⟨by decide, by decide, hlength, by decide, by simp⟩

theorem length_responseLines {n : ℕ} (h : n ≤ 4194304) : (crlf.intercalate (responseLines n)).length + 4 ≤ 16384 := by
  have hdigits := length_digits n ▸ length_encodeNat h
  have hstatus : statusLine.length = 15 := by decide
  have htype : (asciiBytes "Content-Type: application/json").length = 30 := by decide
  have hlength : (asciiBytes "Content-Length: ").length = 16 := by decide
  have hclose : (asciiBytes "Connection: close").length = 17 := by decide
  have hcrlf : crlf.length = 2 := rfl
  simp only [responseLines, List.intercalate_cons_cons, List.intercalate_singleton, List.length_append]
  omega

theorem cut_responseLines (n : ℕ) (body : Bytes) :
    cut blankLine (crlf.intercalate (responseLines n) ++ (blankLine ++ body)) = some (crlf.intercalate (responseLines n), body) :=
  @cut_double UInt8 _ [10] 13 (responseLines n) (List.cons_ne_nil _ _) (responseLines_clean n) (by decide) body

theorem encodeAscii_response (n : ℕ) :
    encodeAscii ("\r\n".intercalate ["HTTP/1.1 200 OK", "Content-Type: application/json",
      "Content-Length: " ++ String.ofList (Json.encodeNat n), "Connection: close"] ++ "\r\n\r\n") =
      .ok (crlf.intercalate (responseLines n) ++ blankLine) := by
  have hdigits : (Json.encodeNat n).all (fun c => c.toNat < 128) = true := by
    refine List.all_eq_true.mpr fun c hc => decide_eq_true ?_
    have hrange := digit_iff.mp (Json.isDigit_of_mem_encodeNat hc)
    omega
  have hcrlf : asciiBytes "\r\n" = crlf := by decide
  have hblank : asciiBytes "\r\n\r\n" = blankLine := by decide
  have hjoin : "\r\n".intercalate ["HTTP/1.1 200 OK", "Content-Type: application/json",
      "Content-Length: " ++ String.ofList (Json.encodeNat n), "Connection: close"] =
      "HTTP/1.1 200 OK" ++ "\r\n" ++ "Content-Type: application/json" ++ "\r\n" ++
        ("Content-Length: " ++ String.ofList (Json.encodeNat n)) ++ "\r\n" ++ "Connection: close" := rfl
  rw [hjoin, encodeAscii, if_pos]
  · simp only [asciiBytes_append, hcrlf, hblank, responseLines, List.intercalate_cons_cons, List.intercalate_singleton,
      List.append_assoc]
    rfl
  · simp only [String.toList_append, String.toList_ofList, List.all_append, hdigits, Bool.and_true]
    decide

theorem httpMessage_response (body : Bytes) : httpMessage "HTTP/1.1 200 OK" body none =
    .ok (crlf.intercalate (responseLines body.length) ++ (blankLine ++ body)) := by
  have hfirst : '\r' ∉ "HTTP/1.1 200 OK".toList ∧ '\n' ∉ "HTTP/1.1 200 OK".toList := by decide
  unfold httpMessage
  rw [require, conform, guardWith_of hfirst, ok_bind]
  dsimp only
  rw [pure_bind, encodeAscii_response, ok_bind, ← List.append_assoc]
  rfl

def responseNames : List Bytes := [asciiBytes "content-type", asciiBytes "content-length", asciiBytes "connection"]

/-- The fields of a response. -/
def responseFields (n : ℕ) : Fields :=
  [(asciiBytes "content-type", asciiBytes "application/json"), (asciiBytes "content-length", digits n),
    (asciiBytes "connection", asciiBytes "close")]

theorem digits_ne_nil {n : ℕ} (h : 0 < n) : digits n ≠ [] := by
  obtain ⟨c, t, hct, -, -⟩ := Json.encodeNat_head (Nat.pos_iff_ne_zero.mp h)
  rw [← List.length_pos_iff, length_digits, hct]
  exact Nat.succ_pos _

theorem headerFields_response {n : ℕ} (h : 0 < n) :
    (responseLines n).tail.foldlM headerField [] = .ok (responseFields n) := by
  have htype : headerField [] (asciiBytes "Content-Type: application/json") =
      .ok [(asciiBytes "content-type", asciiBytes "application/json")] := by decide +kernel
  have hlength : headerField [(asciiBytes "content-type", asciiBytes "application/json")]
      (asciiBytes "Content-Length: " ++ digits n) =
      .ok [(asciiBytes "content-type", asciiBytes "application/json"), (asciiBytes "content-length", digits n)] := by
    have hmark : asciiBytes "Content-Length: " ++ digits n = asciiBytes "Content-Length" ++ (58 :: [32] ++ digits n) := rfl
    refine headerField_eq_ok.mpr ⟨asciiBytes "Content-Length", digits n, ?_, ?_, ⟨by decide, by decide, digits_ne_nil h, ?_⟩, rfl⟩
    · rw [hmark]
      exact cut_mark (by decide) _
    · rintro (hspace | htab)
      · exact absurd (List.cons_prefix_cons.mp hspace).1 (by decide)
      · exact absurd (List.cons_prefix_cons.mp htab).1 (by decide)
    · intro b hb
      have hrange := digits_range n b hb
      rw [UInt8.le_iff_toNat_le, UInt8.le_iff_toNat_le]
      exact ⟨by have : (32 : UInt8).toNat = 32 := rfl; omega, by have : (126 : UInt8).toNat = 126 := rfl; omega⟩
  have hnew : lower (asciiBytes "Connection") ∉ [asciiBytes "content-type", asciiBytes "content-length"] := by decide
  have hclose : headerField [(asciiBytes "content-type", asciiBytes "application/json"),
      (asciiBytes "content-length", digits n)] (asciiBytes "Connection: close") = .ok (responseFields n) :=
    headerField_eq_ok.mpr ⟨asciiBytes "Connection", asciiBytes "close", by decide +kernel, by decide +kernel,
      ⟨by decide, hnew, by decide +kernel, by decide +kernel⟩, rfl⟩
  exact foldlM_cons_eq_ok.mpr ⟨_, htype, foldlM_cons_eq_ok.mpr ⟨_, hlength, foldlM_cons_eq_ok.mpr ⟨_, hclose, rfl⟩⟩⟩

theorem parseHeaders_response {n : ℕ} (hpos : 0 < n) (h : n ≤ 4194304) (host : Option String) :
    parseHeaders (crlf.intercalate (responseLines n) ++ blankLine) true host = .ok (statusLine, n) := by
  have hlength := length_responseLines h
  have htake : (crlf.intercalate (responseLines n) ++ blankLine).take
      ((crlf.intercalate (responseLines n) ++ blankLine).length - 4) = crlf.intercalate (responseLines n) := by
    have hsub : (crlf.intercalate (responseLines n) ++ blankLine).length - 4 = (crlf.intercalate (responseLines n)).length := by
      simp [blankLine]
    rw [hsub, List.take_left]
  have hsplit : split crlf (crlf.intercalate (responseLines n)) = responseLines n :=
    split_intercalate (List.cons_ne_nil _ _) fun l hl => (responseLines_clean n l hl).2
  have hnames : (∀ name ∈ responseNames, name ∈ expectedNames true) ∧ ∀ name ∈ expectedNames true, name ∈ responseNames := by
    decide
  have htarget : requireTarget statusLine true (responseFields n) host = .ok () := by
    rw [requireTarget, if_pos rfl]
    exact require_eq_ok.mpr rfl
  have hcontent : contentLength true (responseFields n) = .ok n :=
    contentLength_eq_ok.mpr ⟨digits n, rfl, ⟨hnames.1, hnames.2, rfl, rfl,
      latin_digits n ▸ lengthPattern_encodeNat hpos h⟩, by rw [latin_digits, Json.natOfDigits_encodeNat]⟩
  unfold parseHeaders
  simp only [bind_eq_ok, require_eq_ok, pure_eq_ok, htake, hsplit]
  refine ⟨(), ⟨?_, List.suffix_append _ _⟩, (), ⟨List.cons_ne_nil _ _, (by decide : 4 ≤ 32)⟩, _, headerFields_response hpos,
    n, hcontent, (), ⟨hpos, h⟩, (), htarget, rfl⟩
  rw [List.length_append]
  exact hlength

/-- What is written as a response is read back. -/
theorem readHttp_httpMessage {body : Bytes} (hpos : 0 < body.length) (h : body.length ≤ 4194304) :
    ∃ message, httpMessage "HTTP/1.1 200 OK" body none = .ok message ∧
      ∀ choices host, readHttp ⟨message, choices⟩ true host = .ok (statusLine, body) :=
  ⟨_, httpMessage_response body, fun _ host => readHttp_eq_ok.mpr
    ⟨_, cut_responseLines _ _, length_responseLines h, parseHeaders_response hpos h host⟩⟩

/-- A response is read from a stream if and only if the stream is a header block that is accepted, the body that
it announces and nothing more; written responses are read back; and what is read was one response. -/
theorem read_http_response :
    (∀ stream choices host first body, readHttp ⟨stream, choices⟩ true host = .ok (first, body) ↔
      ∃ headers, cut blankLine stream = some (headers, body) ∧ (headers ++ blankLine).length ≤ 16384 ∧
        parseHeaders (headers ++ blankLine) true host = .ok (first, body.length)) ∧
    (∀ body : Bytes, 1 ≤ body.length → body.length ≤ 4194304 →
      ∃ message, httpMessage "HTTP/1.1 200 OK" body none = .ok message ∧
        ∀ choices host, readHttp ⟨message, choices⟩ true host = .ok (asciiBytes "HTTP/1.1 200 OK", body)) ∧
    (∀ stream choices host first body, readHttp ⟨stream, choices⟩ true host = .ok (first, body) →
      ∃ fields, Response stream first body fields) := by
  refine ⟨fun stream choices host first body => ?_, fun body hpos h => readHttp_httpMessage hpos h,
    fun stream choices host first body h => ?_⟩
  · rw [readHttp_eq_ok]
    simp only [List.length_append, blankLine, List.length_cons, List.length_nil]
  · obtain ⟨headers, hcut, -, hparse⟩ := readHttp_eq_ok.mp h
    obtain ⟨fields, hfields⟩ := response_of_parse hparse
    rw [← cut_eq hcut] at hfields
    exact ⟨fields, hfields⟩

theorem read_http_response_braces : ∃ message, httpMessage "HTTP/1.1 200 OK" [123, 125] none = .ok message ∧
    ∀ choices host, readHttp ⟨message, choices⟩ true host = .ok (asciiBytes "HTTP/1.1 200 OK", [123, 125]) :=
  read_http_response.2.1 [123, 125] (by decide) (by decide)

end HarnessConformance.ProxyClient
