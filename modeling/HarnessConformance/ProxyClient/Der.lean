import HarnessConformance.Lib.Der
import HarnessConformance.Admission.Document

/-! # Certificate bytes

`_der_items` of `live_proxy_client.py`: what it splits is exactly a concatenation of DER items. -/

namespace HarnessConformance.ProxyClient
open Lib Lib.Outcome Lib.Lines Lib.Der
open Admission (require require_eq_ok)
set_option autoImplicit false

/-! ## Reads -/

/-- `raw[i]` -/
def byteAt (raw : Bytes) (i : ℕ) : Py UInt8 :=
  match raw[i]? with
  | some b => .ok b
  | none => .error .indexError

/-- `raw[start:stop]` -/
def slice (raw : Bytes) (start stop : ℕ) : Bytes := (raw.drop start).take (stop - start)

@[simp] theorem byteAt_eq_ok {raw : Bytes} {i : ℕ} {b : UInt8} : byteAt raw i = .ok b ↔ raw[i]? = some b := by
  unfold byteAt
  cases raw[i]? <;> simp

/-! ## The splitter -/

structure Row where
  tag : UInt8
  content : Bytes
  whole : Bytes
  deriving DecidableEq

/-- Where the content starts, and its length, from the first byte of the length. -/
def derLength (raw : Bytes) (offset : ℕ) (length : UInt8) : Py (ℕ × ℕ) :=
  if length &&& 128 ≠ 0 then do
    let count := (length &&& 127).toNat
    require "TLS_DER_LENGTH" ((1 ≤ count ∧ count ≤ 3) ∧ offset + count ≤ raw.length)
    require "TLS_DER_LENGTH" ((← byteAt raw offset) ≠ 0)
    let length := ofBig (slice raw offset (offset + count))
    require "TLS_DER_LENGTH" (128 ≤ length)
    pure (offset + count, length)
  else pure (offset, length.toNat)

/-- One turn of the loop: the row at `start`, and where the next one starts. -/
def derItem (raw : Bytes) (start rows : ℕ) : Py (Row × ℕ) := do
  require "TLS_DER_INVALID" (rows < 256 ∧ start + 2 ≤ raw.length)
  let tag ← byteAt raw start
  let length ← byteAt raw (start + 1)
  require "TLS_DER_TAG" (tag &&& 31 ≠ 31)
  let (offset, length) ← derLength raw (start + 2) length
  require "TLS_DER_TRUNCATED" (offset + length ≤ raw.length)
  pure (⟨tag, slice raw offset (offset + length), slice raw start (offset + length)⟩, offset + length)

theorem derLength_le {raw : Bytes} {offset : ℕ} {length : UInt8} {p : ℕ × ℕ} (h : derLength raw offset length = .ok p) :
    offset ≤ p.1 := by
  unfold derLength at h
  split at h
  · simp only [bind_eq_ok, require_eq_ok, exists_const, pure_eq_ok] at h
    obtain ⟨-, _, -, -, -, rfl⟩ := h
    exact Nat.le_add_right _ _
  · obtain rfl := pure_eq_ok.mp h
    exact le_rfl

theorem derItem_lt {raw : Bytes} {start rows : ℕ} {row : Row} {next : ℕ} (h : derItem raw start rows = .ok (row, next)) :
    start < next := by
  simp only [derItem, bind_eq_ok, require_eq_ok, exists_const, pure_eq_ok] at h
  obtain ⟨-, _, -, _, -, -, ⟨offset, length⟩, hlength, -, heq⟩ := h
  have hle := derLength_le hlength
  obtain ⟨-, rfl⟩ := Prod.mk.inj heq
  dsimp only at hle ⊢
  omega

def derLoop (raw : Bytes) (offset : ℕ) (rows : List Row) : Py (List Row) :=
  if _hlt : offset < raw.length then
    match h : derItem raw offset rows.length with
    | .ok (row, next) =>
      have := derItem_lt h
      derLoop raw next (rows ++ [row])
    | .error e => .error e
  else pure rows
termination_by raw.length - offset

/-- `_der_items(raw)` -/
def derItems (raw : Bytes) : Py (List Row) := do
  require "TLS_DER_SIZE" (raw.length ≤ 262144)
  derLoop raw 0 []

/-! ## What it reads -/

theorem forall_byte {p : UInt8 → Prop} (h : ∀ n : Fin 256, p ⟨⟨n⟩⟩) (b : UInt8) : p b := h b.toBitVec.toFin

/-- The high bit tells the short form from the count of the long one. -/
theorem byte_bits (b : UInt8) : (b &&& 128 = 0 ↔ b.toNat < 128) ∧ (b &&& 128 ≠ 0 → UInt8.ofNat (128 + (b &&& 127).toNat) = b) := by
  revert b
  refine forall_byte ?_
  decide +kernel

theorem count_bits {k : ℕ} (h : k ≤ 127) : UInt8.ofNat (128 + k) &&& 128 ≠ 0 ∧ (UInt8.ofNat (128 + k) &&& 127).toNat = k := by
  have hall : ∀ k : Fin 128, UInt8.ofNat (128 + k) &&& 128 ≠ 0 ∧ (UInt8.ofNat (128 + k) &&& 127).toNat = k := by decide +kernel
  exact hall ⟨k, Nat.lt_succ_of_le h⟩

theorem take_of_drop {raw tail : Bytes} {start : ℕ} {x : Bytes} (h : raw.drop start = x ++ tail) {stop : ℕ}
    (hstop : stop = start + x.length) : slice raw start stop = x ∧ raw.drop stop = tail := by
  subst hstop
  rw [slice, Nat.add_sub_cancel_left, ← List.drop_drop, h]
  exact ⟨List.take_left, List.drop_left⟩

/-- A read length is the shortest definite form of it. -/
theorem derLength_eq_ok {raw : Bytes} {start : ℕ} {b : UInt8} {rest : Bytes} (h : raw.drop start = b :: rest) {offset n : ℕ} :
    derLength raw (start + 1) b = .ok (offset, n) ↔
      n < 2 ^ 24 ∧ offset = start + (definite n).length ∧ definite n <+: raw.drop start := by
  have hrest : raw.drop (start + 1) = rest := by rw [← List.drop_drop, h, List.drop_one, List.tail_cons]
  have hlength : raw.length = start + 1 + rest.length := by
    have hdrop := congrArg List.length h
    rw [List.length_drop, List.length_cons] at hdrop
    omega
  have hlead (i : ℕ) : raw[start + 1 + i]? = rest[i]? := by rw [← hrest, List.getElem?_drop]
  rw [h]
  constructor
  · intro hread
    unfold derLength at hread
    split at hread
    · rename_i hlong
      simp only [bind_eq_ok, require_eq_ok, exists_const, byteAt_eq_ok, pure_eq_ok] at hread
      obtain ⟨⟨⟨hcount, hcount'⟩, hfits⟩, lead, hlead', hnonzero, hbig, heq⟩ := hread
      obtain ⟨rfl, rfl⟩ := Prod.mk.inj heq
      generalize hk : (b &&& 127).toNat = k at *
      have hfirst : rest[0]? = some lead := (hlead 0).symm.trans hlead'
      obtain ⟨rest', rfl⟩ : ∃ rest', rest = lead :: rest' := by
        cases rest with
        | nil => cases hfirst
        | cons c rest' => exact ⟨rest', by rw [Option.some.inj hfirst]⟩
      have hslice : slice raw (start + 1) (start + 1 + k) = lead :: rest'.take (k - 1) := by
        obtain ⟨k, rfl⟩ : ∃ j, k = j + 1 := ⟨k - 1, by omega⟩
        rw [slice, Nat.add_sub_cancel_left, hrest, List.take_succ_cons, Nat.add_sub_cancel]
      have htoBig : toBig (ofBig (slice raw (start + 1) (start + 1 + k))) = lead :: rest'.take (k - 1) := by
        rw [hslice, toBig_ofBig hnonzero]
      rw [List.length_cons] at hlength
      have hcountLength : (lead :: rest'.take (k - 1)).length = k := by
        rw [List.length_cons, List.length_take]
        omega
      have hform : definite (ofBig (slice raw (start + 1) (start + 1 + k))) = b :: lead :: rest'.take (k - 1) := by
        have hb := (byte_bits b).2 hlong
        rw [hk] at hb
        rw [definite, if_neg (by omega), htoBig, hcountLength, hb]
      refine ⟨?_, ?_, ?_⟩
      · have hle : (toBig (ofBig (slice raw (start + 1) (start + 1 + k)))).length ≤ 3 := by
          rw [htoBig, hcountLength]
          exact hcount'
        exact length_toBig_le.mp hle
      · rw [hform, List.length_cons, hcountLength]
        omega
      · rw [hform]
        refine List.cons_prefix_cons.mpr ⟨rfl, List.cons_prefix_cons.mpr ⟨rfl, List.take_prefix _ _⟩⟩
    · rename_i hshort
      obtain ⟨rfl, rfl⟩ := Prod.mk.inj (pure_eq_ok.mp hread)
      have hlt := (byte_bits b).1.mp (not_not.mp hshort)
      have hform : definite b.toNat = [b] := by rw [definite, if_pos hlt, UInt8.ofNat_toNat]
      rw [hform]
      exact ⟨hlt.trans (by decide), rfl, List.cons_prefix_cons.mpr ⟨rfl, List.nil_prefix⟩⟩
  · rintro ⟨hn, rfl, hprefix⟩
    by_cases hlt : n < 128
    · have hform : definite n = [UInt8.ofNat n] := if_pos hlt
      rw [hform] at hprefix ⊢
      obtain ⟨rfl, -⟩ := List.cons_prefix_cons.mp hprefix
      have hnat : (UInt8.ofNat n).toNat = n := by simp; omega
      have hshort : ¬ UInt8.ofNat n &&& 128 ≠ 0 := not_not.mpr ((byte_bits _).1.mpr (by omega))
      rw [derLength, if_neg hshort, hnat]
      rfl
    · have hform : definite n = UInt8.ofNat (128 + (toBig n).length) :: toBig n := if_neg hlt
      rw [hform] at hprefix ⊢
      obtain ⟨rfl, htoBig⟩ := List.cons_prefix_cons.mp hprefix
      have hcount : (toBig n).length ≤ 3 := length_toBig_le.mpr hn
      obtain ⟨hlong, hk⟩ := count_bits (k := (toBig n).length) (by omega)
      obtain ⟨lead, bytes, hbytes, hnonzero⟩ := toBig_ne_zero (n := n) (by omega)
      obtain ⟨tail, rfl⟩ := htoBig
      have hpositive : 1 ≤ (toBig n).length := by
        rw [hbytes]
        exact Nat.le_add_left 1 _
      have hslice := (take_of_drop hrest rfl).1
      have hlead' : raw[start + 1]? = some lead := by
        rw [← Nat.add_zero (start + 1), hlead, hbytes]
        rfl
      rw [List.length_append] at hlength
      rw [derLength, if_pos hlong, hk]
      simp only [bind_eq_ok, require_eq_ok, exists_const, byteAt_eq_ok, pure_eq_ok]
      refine ⟨⟨⟨hpositive, hcount⟩, by omega⟩, lead, hlead', hnonzero, ?_, ?_⟩
      · rw [hslice, ofBig_toBig]
        omega
      · rw [hslice, ofBig_toBig, List.length_cons, Nat.add_right_comm, Nat.add_assoc]

/-- Items that the splitter takes: their tags have one byte. -/
def Legal (i : UInt8 × Bytes) : Prop := i.1 &&& 31 ≠ 31 ∧ i.2.length < 2 ^ 24

def Row.of (i : UInt8 × Bytes) : Row := ⟨i.1, i.2, encode i.1 i.2⟩

/-- One turn reads one item. -/
theorem derItem_eq_ok {raw : Bytes} {start rows next : ℕ} {row : Row} : derItem raw start rows = .ok (row, next) ↔
    rows < 256 ∧ ∃ i, Legal i ∧ raw.drop start = encode i.1 i.2 ++ raw.drop next ∧ next = start + (encode i.1 i.2).length ∧
      row = Row.of i := by
  simp only [derItem, bind_eq_ok, require_eq_ok, exists_const, byteAt_eq_ok, pure_eq_ok]
  constructor
  · rintro ⟨⟨hrows, htwo⟩, tag, htag, b, hb, hlow, ⟨offset, n⟩, hlength, hfits, heq⟩
    obtain ⟨rest, hrest⟩ : ∃ rest, raw.drop (start + 1) = b :: rest := by
      cases hdrop : raw.drop (start + 1) with
      | nil =>
        have hle := List.drop_eq_nil_iff.mp hdrop
        omega
      | cons c rest =>
        have hc : (raw.drop (start + 1))[0]? = some b := by rwa [List.getElem?_drop]
        rw [hdrop] at hc
        exact ⟨rest, by rw [Option.some.inj hc]⟩
    have hhead : raw.drop start = tag :: b :: rest := by
      have hlt : start < raw.length := by omega
      rw [List.drop_eq_getElem_cons hlt, hrest]
      rw [List.getElem?_eq_getElem hlt] at htag
      rw [Option.some.inj htag]
    obtain ⟨hn, rfl, tail, htail⟩ := (derLength_eq_ok hrest).mp hlength
    obtain ⟨rfl, rfl⟩ := Prod.mk.inj heq
    have hdrop := (take_of_drop htail.symm rfl).2
    have hlengthDrop := congrArg List.length hdrop
    rw [List.length_drop] at hlengthDrop
    dsimp only at hfits ⊢
    have hcontent : (tail.take n).length = n := by
      rw [List.length_take]
      omega
    have hsplit : raw.drop start = encode tag (tail.take n) ++ tail.drop n := by
      rw [hhead, encode, hcontent, List.cons_append, List.append_assoc, List.take_append_drop, htail, hrest]
    have hwhole : start + (encode tag (tail.take n)).length = start + 1 + (definite n).length + n := by
      rw [encode, List.length_cons, List.length_append, hcontent]
      omega
    have hslices := take_of_drop hsplit hwhole.symm
    have hslice : slice raw (start + 1 + (definite n).length) (start + 1 + (definite n).length + n) = tail.take n := by
      rw [slice, Nat.add_sub_cancel_left, hdrop]
    refine ⟨hrows, (tag, tail.take n), ⟨hlow, hcontent.trans_lt hn⟩, ?_, hwhole.symm, ?_⟩
    · rw [hslices.2]
      exact hsplit
    · rw [hslices.1, hslice]
      rfl
  · rintro ⟨hrows, ⟨tag, content⟩, ⟨hlow, hn⟩, hsplit, rfl, rfl⟩
    dsimp only at hlow hn hsplit ⊢
    have hform : ∃ b form, definite content.length = b :: form := by
      unfold definite
      split <;> exact ⟨_, _, rfl⟩
    obtain ⟨b, form, hform⟩ := hform
    have hwhole : (encode tag content).length = 1 + (definite content.length).length + content.length := by
      rw [encode, List.length_cons, List.length_append]
      omega
    have hhead : raw.drop start = tag :: b :: (form ++ content ++ raw.drop (start + (encode tag content).length)) := by
      rw [hsplit, encode, hform]
      rfl
    have hrest : raw.drop (start + 1) = b :: (form ++ content ++ raw.drop (start + (encode tag content).length)) := by
      rw [← List.drop_drop, hhead, List.drop_one, List.tail_cons]
    have hlength := congrArg List.length hsplit
    rw [List.length_drop, List.length_append, List.length_drop, hwhole, hform, List.length_cons] at hlength
    have htag : raw[start]? = some tag := by
      rw [← Nat.add_zero start, ← List.getElem?_drop, hhead]
      rfl
    have hb : raw[start + 1]? = some b := by
      rw [← List.getElem?_drop, hhead]
      rfl
    have hprefix : definite content.length <+: raw.drop (start + 1) := by
      rw [hrest, hform]
      exact List.cons_prefix_cons.mpr ⟨rfl, List.append_assoc _ _ _ ▸ List.prefix_append _ _⟩
    have hread := (derLength_eq_ok hrest).mpr ⟨hn, rfl, hprefix⟩
    have hstop : start + 1 + (definite content.length).length + content.length = start + (encode tag content).length := by
      rw [hwhole]
      omega
    have hbody : raw.drop (start + 1) = definite content.length ++ (content ++ raw.drop (start + (encode tag content).length)) := by
      rw [hrest, hform, List.append_assoc]
      rfl
    have hslice := (take_of_drop (take_of_drop hbody rfl).2 rfl).1
    refine ⟨⟨hrows, by omega⟩, tag, htag, b, hb, hlow, _, hread, ?_, ?_⟩
    · dsimp only
      rw [hform, List.length_cons]
      omega
    · dsimp only
      rw [hslice, hstop, (take_of_drop hsplit rfl).1]
      rfl

theorem encodeAll_cons (i : UInt8 × Bytes) (items : List (UInt8 × Bytes)) :
    encodeAll (i :: items) = encode i.1 i.2 ++ encodeAll items := rfl

theorem next_le {raw x : Bytes} {start next : ℕ} (hstart : start ≤ raw.length) (h : raw.drop start = x ++ raw.drop next)
    (hnext : next = start + x.length) : next ≤ raw.length := by
  have hlength := congrArg List.length h
  rw [List.length_drop, List.length_append, List.length_drop] at hlength
  omega

/-- The loop appends the rows of the items that the rest of the bytes spells. -/
theorem derLoop_eq_ok {raw : Bytes} {offset : ℕ} (hoffset : offset ≤ raw.length) {rows all : List Row} :
    derLoop raw offset rows = .ok all ↔ ∃ items : List (UInt8 × Bytes), (∀ i ∈ items, Legal i) ∧ raw.drop offset = encodeAll items ∧
      (items = [] ∨ rows.length + items.length ≤ 256) ∧ all = rows ++ items.map Row.of := by
  induction hmeasure : raw.length - offset using Nat.strong_induction_on generalizing offset rows with
  | _ n ih =>
    rw [derLoop]
    by_cases hlt : offset < raw.length
    · rw [dif_pos hlt]
      have hne : raw.drop offset ≠ [] := fun hnil => absurd (List.drop_eq_nil_iff.mp hnil) (not_le.mpr hlt)
      constructor
      · intro hread
        split at hread
        · rename_i row next hitem
          obtain ⟨hcount, i, hi, hsplit, hnext, rfl⟩ := derItem_eq_ok.mp hitem
          have hsmaller : raw.length - next < n := by
            have hless := derItem_lt hitem
            omega
          obtain ⟨items, hitems, hdrop, hfew, rfl⟩ := (ih _ hsmaller (next_le hoffset hsplit hnext) rfl).mp hread
          refine ⟨i :: items, List.forall_mem_cons.mpr ⟨hi, hitems⟩, ?_, .inr ?_, ?_⟩
          · rw [hsplit, hdrop, encodeAll_cons]
          · rw [List.length_append, List.length_singleton] at hfew
            rcases hfew with rfl | hfew
            · exact hcount
            · rw [List.length_cons]
              omega
          · rw [List.map_cons, List.append_assoc, List.singleton_append]
        · cases hread
      · rintro ⟨items, hitems, hdrop, hfew, rfl⟩
        cases items with
        | nil => exact absurd hdrop hne
        | cons i items =>
          rw [List.forall_mem_cons] at hitems
          rw [encodeAll_cons] at hdrop
          have hrest : raw.drop (offset + (encode i.1 i.2).length) = encodeAll items := (take_of_drop hdrop rfl).2
          have hsplit := hdrop
          rw [← hrest] at hsplit
          have hfew' := hfew.resolve_left (List.cons_ne_nil _ _)
          rw [List.length_cons] at hfew'
          have hitem := derItem_eq_ok.mpr ⟨(by omega : rows.length < 256), i, hitems.1, hsplit, rfl, rfl⟩
          have hless := derItem_lt hitem
          split
          · rename_i row next hitem'
            obtain ⟨rfl, rfl⟩ := Prod.mk.inj (Except.ok.inj (hitem.symm.trans hitem'))
            refine (ih _ (by omega) (next_le hoffset hsplit rfl) rfl).mpr ⟨items, hitems.2, hrest, .inr ?_, ?_⟩
            · rw [List.length_append, List.length_singleton]
              omega
            · rw [List.map_cons, List.append_assoc, List.singleton_append]
          · rename_i e hitem'
            cases hitem.symm.trans hitem'
    · rw [dif_neg hlt, pure_eq_ok]
      have hdrop : raw.drop offset = [] := List.drop_eq_nil_iff.mpr (not_lt.mp hlt)
      rw [hdrop]
      constructor
      · rintro rfl
        exact ⟨[], nofun, rfl, .inl rfl, (List.append_nil _).symm⟩
      · rintro ⟨items, -, hall, -, rfl⟩
        cases items with
        | nil => exact (List.append_nil _).symm
        | cons i items => cases hall

theorem derItems_eq_ok {raw : Bytes} {rows : List Row} : derItems raw = .ok rows ↔ raw.length ≤ 262144 ∧
    ∃ items : List (UInt8 × Bytes), (∀ i ∈ items, Legal i) ∧ items.length ≤ 256 ∧ raw = encodeAll items ∧ rows = items.map Row.of := by
  simp only [derItems, bind_eq_ok, require_eq_ok, exists_const, derLoop_eq_ok (Nat.zero_le _), List.drop_zero, List.nil_append,
    List.length_nil, Nat.zero_add]
  refine and_congr_right fun _ => ⟨?_, ?_⟩
  · rintro ⟨items, hitems, hraw, hfew, rfl⟩
    refine ⟨items, hitems, ?_, hraw, rfl⟩
    rcases hfew with rfl | hfew
    · exact Nat.zero_le _
    · exact hfew
  · rintro ⟨items, hitems, hfew, hraw, rfl⟩
    exact ⟨items, hitems, hraw, .inr hfew, rfl⟩

/-! ## Refusals -/

theorem conforms_byteAt {raw : Bytes} {i : ℕ} (h : i < raw.length) : Conforms (byteAt raw i) := by
  rw [byteAt, List.getElem?_eq_getElem h]
  exact conforms_ok

/-- Nothing is read outside of the bytes. -/
theorem conforms_derItems (raw : Bytes) : Conforms (derItems raw) := by
  have hlength (offset : ℕ) (b : UInt8) : Conforms (derLength raw offset b) := by
    unfold derLength
    split
    · refine conforms_conform.bind fun _ hcount => (conforms_byteAt ?_).bind fun _ _ => conforms_conform.bind fun _ _ => ?_
      · obtain ⟨⟨hcount, -⟩, hfits⟩ := require_eq_ok.mp hcount
        omega
      · exact conforms_conform.bind fun _ _ => conforms_ok
    · exact conforms_ok
  have hitem (start rows : ℕ) : Conforms (derItem raw start rows) := by
    refine conforms_conform.bind fun _ hfits => ?_
    obtain ⟨-, hfits⟩ := require_eq_ok.mp hfits
    refine (conforms_byteAt (by omega)).bind fun _ _ => (conforms_byteAt (by omega)).bind fun _ _ => conforms_conform.bind fun _ _ => ?_
    exact (hlength _ _).bind fun _ _ => conforms_conform.bind fun _ _ => conforms_ok
  have hloop (offset : ℕ) (rows : List Row) : Conforms (derLoop raw offset rows) := by
    fun_induction derLoop raw offset rows with
    | case1 offset rows _ row next h _ ih => exact ih
    | case2 offset rows _ e h =>
      intro e' he
      obtain rfl := Except.error.inj he
      exact hitem offset rows.length e h
    | case3 offset rows _ => exact conforms_ok
  exact conforms_conform.bind fun _ _ => hloop _ _

/-! ## Decompositions -/

/-- Rows that spell the bytes, each the shortest encoding of its content. -/
def Decomposes (rows : List Row) (raw : Bytes) : Prop :=
  (rows.map Row.whole).flatten = raw ∧ ∀ row ∈ rows, row.whole = encode row.tag row.content

theorem length_content_le {items : List (UInt8 × Bytes)} {i : UInt8 × Bytes} (h : i ∈ items) :
    i.2.length ≤ (encodeAll items).length := by
  have hsub : (encode i.1 i.2).Sublist (encodeAll items) :=
    List.sublist_flatten_of_mem (List.mem_map_of_mem h)
  refine le_trans ?_ hsub.length_le
  rw [encode, List.length_cons, List.length_append]
  omega

theorem Decomposes.items {rows : List Row} {raw : Bytes} (h : Decomposes rows raw) :
    rows = (rows.map fun row => (row.tag, row.content)).map Row.of ∧ raw = encodeAll (rows.map fun row => (row.tag, row.content)) := by
  obtain ⟨rfl, hwhole⟩ := h
  constructor
  · rw [List.map_map]
    refine ((List.map_congr_left fun row hrow => ?_).trans (List.map_id _)).symm
    rw [Function.comp_apply, Row.of, ← hwhole row hrow]
    rfl
  · rw [encodeAll, List.map_map]
    exact congrArg List.flatten (List.map_congr_left hwhole)

theorem decomposes_map (items : List (UInt8 × Bytes)) : Decomposes (items.map Row.of) (encodeAll items) := by
  constructor
  · rw [List.map_map, encodeAll]
    rfl
  · exact List.forall_mem_map.mpr fun i _ => rfl

/-- The splitter never reads outside, takes bytes apart in the only way there is, and takes every concatenation of few items
with short tags. -/
theorem der_lossless : (∀ raw, Conforms (derItems raw)) ∧
    (∀ raw rows, derItems raw = .ok rows → Decomposes rows raw ∧ ∀ rows', Decomposes rows' raw → rows' = rows) ∧
    ∀ items : List (UInt8 × Bytes), items.length ≤ 256 → (∀ i ∈ items, i.1 &&& 31 ≠ 31 ∧ i.2.length < 2 ^ 24) →
      (encodeAll items).length ≤ 262144 → derItems (encodeAll items) = .ok (items.map Row.of) := by
  refine ⟨conforms_derItems, fun raw rows h => ?_, fun items hfew hitems hsize => ?_⟩
  · obtain ⟨hsize, items, -, -, rfl, rfl⟩ := derItems_eq_ok.mp h
    refine ⟨decomposes_map items, fun rows' h' => ?_⟩
    obtain ⟨hrows, hraw⟩ := h'.items
    have hlarge : 262144 < 256 ^ 127 := by norm_num
    have hdefinite {all : List (UInt8 × Bytes)} (hall : encodeAll items = encodeAll all) : ∀ i ∈ all, Definite i.2.length :=
      fun i hi => ((length_content_le hi).trans (hall ▸ hsize)).trans_lt hlarge
    rw [hrows, encodeAll_inj (hdefinite rfl) (hdefinite hraw) hraw]
  · exact derItems_eq_ok.mpr ⟨hsize, items, hitems, hfew, rfl, rfl⟩

/-- An empty set and a string of two hundred bytes, whose length takes the long form. -/
theorem der_lossless_sample : ∃ rows, derItems (encodeAll [(0x30, []), (0x04, List.replicate 200 7)]) = .ok rows ∧
    Decomposes rows (encodeAll [(0x30, []), (0x04, List.replicate 200 7)]) := by
  have hread := der_lossless.2.2 [(0x30, []), (0x04, List.replicate 200 7)] (by decide)
    (List.forall_mem_cons.mpr ⟨by decide, List.forall_mem_singleton.mpr ⟨by decide, by decide +kernel⟩⟩) (by decide +kernel)
  exact ⟨_, hread, (der_lossless.2.1 _ _ hread).1⟩

end HarnessConformance.ProxyClient
