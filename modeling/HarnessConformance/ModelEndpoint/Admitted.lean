import HarnessConformance.ModelEndpoint.Guard

/-! # Admitted base URLs

What an accepted base URL is: a local literal, with nothing in it that another reader could take for another host.
Written back from its target, it is accepted as the same target. -/

namespace HarnessConformance.ModelEndpoint
open Lib Lib.Outcome Lib.Splitting Lib.IpAddress
set_option autoImplicit false

/-! ## Local literals -/

/-- The address that a host text names by itself. -/
inductive Denotes : Text → Address → Prop
  | localhost {host : Text} (h : lower host = "localhost".toList) : Denotes host (.v4 0x7f000001)
  | four {host : Text} {n : ℕ} (h : parse4 host = some n) : Denotes host (.v4 n)
  | six {host : Text} {n : ℕ} (h : parse6 host = some n) : Denotes ('[' :: (host ++ [']'])) (.v6 n)

/-- The text of a port behind the host: none for the port of the scheme, or a colon and up to five digits. -/
inductive PortText (scheme : Text) : Text → ℕ → Prop
  | ofScheme {port : ℕ} (h : schemePorts.lookup scheme = some port) : PortText scheme [] port
  | written {digits : Text} (hlength : digits ≠ [] ∧ digits.length ≤ 5) (hdigits : ∀ c ∈ digits, c.isDigit = true) :
      PortText scheme (':' :: digits) (valueIn 10 digits)

/-- A base URL that names a local address literally, and the target that it names. -/
structure LocalUrl (url : Text) (t : Target) : Prop where
  scheme : t.scheme = "http".toList ∨ t.scheme = "https".toList
  port : 1 ≤ t.port ∧ t.port ≤ 65535
  plain : ∀ c ∈ url, isPrintable c = true ∧ c ∉ ['\\', '@', '?', '#', '%']
  path : t.basePath = [] ∨ PlainPath t.basePath
  parts : ∃ scheme host port slashes address,
    url = scheme ++ ("://".toList ++ (host ++ (port ++ (t.basePath ++ List.replicate slashes '/')))) ∧
      lower scheme = t.scheme ∧ Denotes host address ∧ PortText t.scheme port t.port ∧ t.address = address.text ∧
      (∃ net ∈ admitted, net.Contains address) ∧ ∀ net ∈ linkLocal ++ metadata, ¬ net.Contains address

/-- `scheme://address:port` and the base path, an address of sixteen bytes in brackets. -/
def Target.url (t : Target) : Text :=
  t.scheme ++ ("://".toList ++ ((if ':' ∈ t.address then '[' :: (t.address ++ [']']) else t.address) ++
    (':' :: Nat.toDigits 10 t.port ++ t.basePath)))

/-! ## What the guard reads -/

section
variable {authority host rest : Text} {portText : Option Text} {bracketed : Bool} {schemePort port : ℕ} {address : Address}

def hostText (host : Text) (bracketed : Bool) : Text := if bracketed then '[' :: (host ++ [']']) else host

def behindHost : Option Text → Text
  | none => []
  | some text => ':' :: text

theorem behind_bracket {behind : Text} (h : behind = [] ∨ behind.head? = some ':') :
    behindHost (if behind = [] then none else some (behind.drop 1)) = behind := by
  cases behind with
  | nil => rfl
  | cons c behind =>
    have hc : c = ':' := by simpa using h
    rw [hc]
    rfl

/-- The authority is the host and the port, and nothing else. -/
theorem hostPort_eq_ok (h : hostPort authority = .ok (host, portText, bracketed)) :
    authority = hostText host bracketed ++ behindHost portText := by
  unfold hostPort at h
  by_cases hopen : authority.head? = some '['
  · rw [if_pos hopen] at h
    cases hcut : cut [']'] authority with
    | none => simp [hcut] at h
    | some parts =>
      obtain ⟨front, behind⟩ := parts
      rw [hcut] at h
      simp only [bind_eq_ok, pure_eq_ok, guardWith_eq_ok, Prod.mk.injEq] at h
      obtain ⟨_, hcolon, rfl, rfl, rfl⟩ := h
      have hauthority := cut_eq hcut
      have hfront : '[' :: front.drop 1 = front := by
        rw [hauthority] at hopen
        cases front with
        | nil => exact absurd hopen (by simp)
        | cons c front =>
          have hc : c = '[' := by simpa using hopen
          rw [hc]
          rfl
      rw [behind_bracket hcolon, hostText, if_pos rfl, ← List.cons_append, hfront]
      exact hauthority
  · rw [if_neg hopen] at h
    simp only [bind_eq_ok, guardWith_eq_ok] at h
    obtain ⟨_, -, h⟩ := h
    cases hcut : cut [':'] authority with
    | none =>
      rw [hcut, pure_eq_ok] at h
      obtain ⟨rfl, rfl, rfl⟩ := by simpa only [Prod.mk.injEq] using h
      exact (List.append_nil _).symm
    | some parts =>
      obtain ⟨front, behind⟩ := parts
      rw [hcut, pure_eq_ok] at h
      obtain ⟨rfl, rfl, rfl⟩ := by simpa only [Prod.mk.injEq] using h
      rw [cut_eq hcut, List.append_assoc]
      rfl

theorem portOf_eq_ok {scheme : Text} (hscheme : schemePorts.lookup scheme = some schemePort) (h : portOf schemePort portText = .ok port) :
    (1 ≤ port ∧ port ≤ 65535) ∧ PortText scheme (behindHost portText) port := by
  cases portText with
  | none =>
    obtain rfl := Except.ok.inj h
    refine ⟨?_, .ofScheme hscheme⟩
    obtain ⟨before, after, hports, -⟩ := List.lookup_eq_some_iff.mp hscheme
    have hmem : (scheme, schemePort) ∈ schemePorts := by
      rw [hports]
      simp
    exact (by decide : ∀ entry ∈ schemePorts, 1 ≤ entry.2 ∧ entry.2 ≤ 65535) _ hmem
  | some text =>
    simp only [portOf, bind_eq_ok, guardWith_eq_ok, pure_eq_ok] at h
    obtain ⟨_, ⟨hne, hlength, hdigits⟩, _, hbounds, rfl⟩ := h
    exact ⟨hbounds, .written ⟨hne, hlength⟩ (List.all_eq_true.mp hdigits)⟩

theorem addressOf_eq_ok (h : addressOf host bracketed = .ok address) : Denotes (hostText host bracketed) address ∧ address.Fits := by
  unfold addressOf at h
  unfold hostText
  cases bracketed with
  | true =>
    simp only [if_true] at h ⊢
    cases hparse : parse6 host with
    | none => simp [hparse] at h
    | some n =>
      rw [hparse] at h
      obtain rfl := Except.ok.inj h
      exact ⟨.six hparse, parse6_lt hparse⟩
  | false =>
    simp only [Bool.false_eq_true, if_false] at h ⊢
    by_cases hlocal : lower host = "localhost".toList
    · rw [if_pos hlocal] at h
      obtain rfl := Except.ok.inj h
      have hloopback : (parse4 localhostAddress).getD 0 = 0x7f000001 := by decide +kernel
      rw [hloopback]
      have hfits : 0x7f000001 < 2 ^ 32 := by decide
      exact ⟨.localhost hlocal, hfits⟩
    · rw [if_neg hlocal] at h
      cases hparse : parse4 host with
      | none => simp [hparse] at h
      | some n =>
        rw [hparse] at h
        obtain rfl := Except.ok.inj h
        exact ⟨.four hparse, parse4_lt hparse⟩

end

theorem scheme_of_lookup {scheme : Text} {port : ℕ} (h : schemePorts.lookup scheme = some port) :
    scheme = "http".toList ∨ scheme = "https".toList := by
  obtain ⟨before, after, hports, -⟩ := List.lookup_eq_some_iff.mp h
  have hmem : (scheme, port) ∈ schemePorts := by
    rw [hports]
    simp
  exact (by decide : ∀ entry ∈ schemePorts, entry.1 = "http".toList ∨ entry.1 = "https".toList) _ hmem

/-- A letter of a scheme is none of the marks. -/
theorem scheme_char {scheme : Text} (h : lower scheme = "http".toList ∨ lower scheme = "https".toList) :
    ∀ c ∈ scheme, c ∉ ['@', '?', '#', '%'] := by
  intro c hc hmark
  have hlower : c.toLower ∈ lower scheme := List.mem_map_of_mem hc
  have hmarks : ∀ c ∈ ['@', '?', '#', '%'], c.toLower ∉ "http".toList ∧ c.toLower ∉ "https".toList := List.forall_iff_forall_mem.mp (by decide)
  rcases h with h | h
  · exact (hmarks c hmark).1 (h ▸ hlower)
  · exact (hmarks c hmark).2 (h ▸ hlower)

theorem pathChar_mark {c : Char} (h : isPathChar c = true) : c ∉ ['@', '?', '#', '%'] := by
  intro hmark
  have hmarks : ∀ m ∈ ['@', '?', '#', '%'], isPathChar m = false := List.forall_iff_forall_mem.mp (by decide)
  exact Bool.false_ne_true ((hmarks c hmark).symm.trans h)

/-- The path and the slashes that the guard strips off it. -/
theorem strip_slashes (tail : Text) : ∃ slashes, tail = tail.rdropWhile (· = '/') ++ List.replicate slashes '/' := by
  refine ⟨(tail.rtakeWhile (· = '/')).length, ?_⟩
  have hslashes : tail.rtakeWhile (· = '/') = List.replicate (tail.rtakeWhile (· = '/')).length '/' :=
    List.eq_replicate_iff.mpr ⟨rfl, fun c hc => by simpa using List.mem_rtakeWhile_imp hc⟩
  rw [← hslashes, List.rdropWhile_append_rtakeWhile]

/-- What the guard accepts, and what it knows of the address and the path then. -/
theorem localUrl_of_guard {url : Text} {t : Target} (h : guardBaseUrl url = .ok t) : LocalUrl url t ∧
    ∃ address, t.address = Address.text address ∧ address.Fits ∧ (∃ net ∈ admitted, net.Contains address) ∧
      (∀ net ∈ linkLocal ++ metadata, ¬ net.Contains address) ∧ t.basePath.rdropWhile (· = '/') = t.basePath := by
  unfold guardBaseUrl at h
  simp only [bind_eq_ok, guardWith_eq_ok] at h
  obtain ⟨_, ⟨-, hbackslash, hprintable⟩, h⟩ := h
  cases hcut : cut "://".toList url with
  | none =>
    have hnone : schemePorts.lookup (lower []) = none := by decide
    rw [hcut] at h
    simp only [Option.getD_none, hnone, reduceCtorEq] at h
  | some parts =>
    obtain ⟨scheme, rest⟩ := parts
    rw [hcut] at h
    simp only [Option.getD_some] at h
    cases hlookup : schemePorts.lookup (lower scheme) with
    | none => simp [hlookup] at h
    | some schemePort =>
      rw [hlookup] at h
      simp only [bind_eq_ok, guardWith_eq_ok, pure_eq_ok] at h
      obtain ⟨_, -, _, -, _, huserinfo, _, hpercent, ⟨host, portText, bracketed⟩, hauthority, _, -, _, -, port, hport,
        address, haddress, _, hlinkLocal, _, hmetadata, _, hadmitted, _, hpath, rfl⟩ := h
      have hrest : rest = rest.takeWhile (· ∉ ['/', '?', '#']) ++ rest.dropWhile (· ∉ ['/', '?', '#']) :=
        List.takeWhile_append_dropWhile.symm
      have hbefore : ∀ c ∈ rest.takeWhile (· ∉ ['/', '?', '#']), c ∉ ['/', '?', '#'] := fun c hc => by
        simpa using List.mem_takeWhile_imp hc
      have hhost := hostPort_eq_ok hauthority
      obtain ⟨hbounds, hportText⟩ := portOf_eq_ok hlookup hport
      obtain ⟨hdenotes, hfits⟩ := addressOf_eq_ok haddress
      generalize rest.takeWhile (· ∉ ['/', '?', '#']) = authority at *
      generalize rest.dropWhile (· ∉ ['/', '?', '#']) = tail at *
      obtain ⟨slashes, htail⟩ := strip_slashes tail
      have hscheme := scheme_of_lookup hlookup
      have hrefused : ∀ net ∈ linkLocal ++ metadata, ¬ net.Contains address := by
        intro net hnet
        rcases List.mem_append.mp hnet with hnet | hnet
        · exact hlinkLocal net hnet
        · exact hmetadata net hnet
      have hmarks : ∀ c ∈ url, c ∉ ['@', '?', '#', '%'] := by
        intro c hc
        rw [cut_eq hcut, List.append_assoc, hrest] at hc
        rcases List.mem_append.mp hc with hc | hc
        · exact scheme_char hscheme c hc
        · rcases List.mem_append.mp hc with hc | hc
          · exact (List.forall_iff_forall_mem.mp (by decide) : ∀ c ∈ "://".toList, c ∉ ['@', '?', '#', '%']) c hc
          · rcases List.mem_append.mp hc with hc | hc
            · have hstop := hbefore c hc
              have hat : c ≠ '@' := fun heq => huserinfo (heq ▸ hc)
              have hhex : c ≠ '%' := fun heq => hpercent (heq ▸ hc)
              simp only [List.mem_cons, List.not_mem_nil, or_false, not_or] at hstop ⊢
              exact ⟨hat, hstop.2.1, hstop.2.2, hhex⟩
            · rw [htail] at hc
              rcases List.mem_append.mp hc with hc | hc
              · rcases hpath with hnil | hplain
                · rw [hnil] at hc
                  cases hc
                · exact pathChar_mark (hplain.2.1 c hc)
              · rw [List.eq_of_mem_replicate hc]
                decide
      refine ⟨⟨hscheme, hbounds, fun c hc => ⟨List.all_eq_true.mp hprintable c hc, ?_⟩, hpath, scheme, hostText host bracketed, behindHost portText,
        slashes, address, ?_, rfl, hdenotes, hportText, rfl, hadmitted, hrefused⟩, address, rfl, hfits, hadmitted, hrefused,
        List.rdropWhile_idempotent _ _⟩
      · rw [List.mem_cons, not_or]
        exact ⟨fun heq => hbackslash (heq ▸ hc), hmarks c hc⟩
      · rw [cut_eq hcut, List.append_assoc, hrest, hhost, List.append_assoc]
        rw [← htail]

/-! ## The target written back -/

theorem hex_printable {c : Char} (h : isHex c = true) : isPrintable c = true := by
  simp only [isHex, isPrintable, Bool.or_eq_true, Bool.and_eq_true, decide_eq_true_eq, Char.isDigit, Char.le_def, ge_iff_le,
    UInt32.le_iff_toNat_le] at h ⊢
  have hlow : '!'.val.toNat = 33 := rfl
  have hhigh : '~'.val.toNat = 126 := rfl
  have hdigits : '0'.val.toNat = 48 ∧ '9'.val.toNat = 57 := ⟨rfl, rfl⟩
  have hlower : 'a'.val.toNat = 97 ∧ 'f'.val.toNat = 102 := ⟨rfl, rfl⟩
  have hupper : 'A'.val.toNat = 65 ∧ 'F'.val.toNat = 70 := ⟨rfl, rfl⟩
  omega

/-- A character of an address in text is printable, and no mark but the colon. -/
theorem address_char {a : Address} {c : Char} (h : c ∈ a.text) :
    isPrintable c = true ∧ c ∉ ['/', '?', '#', '@', '%', '[', ']', '\\'] ∧ c.toLower ≠ 'l' := by
  have hkind : isHex c = true ∨ c = '.' ∨ c = ':' := by
    cases a with
    | v4 n =>
      rcases mem_render4 h with h | h
      · exact .inr (.inl h)
      · exact .inl h
    | v6 n =>
      rcases mem_render6 h with h | h
      · exact .inr (.inr h)
      · exact .inl h
  rcases hkind with hhex | rfl | rfl
  · refine ⟨hex_printable hhex, fun hmark => ?_, fun hlower => ?_⟩
    · have hmarks : ∀ m ∈ ['/', '?', '#', '@', '%', '[', ']', '\\'], isHex m = false := List.forall_iff_forall_mem.mp (by decide)
      exact Bool.false_ne_true ((hmarks c hmark).symm.trans hhex)
    · have hall : ∀ n < 128, isHex (Char.ofNat n) = true → (Char.ofNat n).toLower ≠ 'l' := by decide +kernel
      have hprintable := hex_printable hhex
      simp only [isPrintable, Bool.and_eq_true, decide_eq_true_eq, Char.le_def, UInt32.le_iff_toNat_le] at hprintable
      have hhigh : '~'.val.toNat = 126 := rfl
      have hbound : c.toNat < 128 := lt_of_le_of_lt hprintable.2 (by decide)
      have hvalue := hall c.toNat hbound
      rw [Char.ofNat_toNat] at hvalue
      exact hvalue hhex hlower
  · decide
  · decide

section
variable {a : Address} {port : ℕ}

/-- The host as it is written back. -/
def shown (a : Address) : Text := if ':' ∈ a.text then '[' :: (a.text ++ [']']) else a.text

theorem text_ne_nil (hfits : a.Fits) : a.text ≠ [] := by
  intro hnil
  cases a with
  | v4 n =>
    have hread : parse4 (Address.text (.v4 n)) = some n := parse4_render4 hfits
    have hnone : parse4 [] = none := by decide +kernel
    rw [hnil, hnone] at hread
    cases hread
  | v6 n =>
    have hread : parse6 (Address.text (.v6 n)) = some n := parse6_render6 hfits
    have hnone : parse6 [] = none := by decide +kernel
    rw [hnil, hnone] at hread
    cases hread

theorem hostPort_shown (hfits : a.Fits) (digits : Text) (hdigits : ':' ∉ digits) : hostPort (shown a ++ ':' :: digits) =
    .ok (a.text, some digits, decide (':' ∈ a.text)) := by
  unfold hostPort shown
  by_cases hcolon : ':' ∈ a.text
  · have hclose : ']' ∉ '[' :: a.text := by
      intro hmem
      rcases List.mem_cons.mp hmem with hmem | hmem
      · exact absurd hmem (by decide)
      · exact (address_char hmem).2.1 (by decide)
    have hcut : cut [']'] ('[' :: (a.text ++ [']']) ++ ':' :: digits) = some ('[' :: a.text, ':' :: digits) := by
      have hmark := @cut_mark Char _ [] ']' _ hclose (':' :: digits)
      simpa using hmark
    have hopen : ('[' :: (a.text ++ [']']) ++ ':' :: digits).head? = some '[' := rfl
    rw [if_pos hcolon, if_pos hopen, hcut, decide_eq_true hcolon]
    rfl
  · have hopen : (a.text ++ ':' :: digits).head? ≠ some '[' := by
      obtain ⟨c, text, htext⟩ := List.exists_cons_of_ne_nil (text_ne_nil hfits)
      intro hhead
      rw [htext, List.cons_append, List.head?_cons] at hhead
      have hc : c ∈ a.text := htext ▸ List.mem_cons_self
      exact (address_char hc).2.1 (by rw [Option.some.inj hhead]; decide)
    have hcount : (a.text ++ ':' :: digits).count ':' ≤ 1 := by
      rw [List.count_append, List.count_cons_self, List.count_eq_zero.mpr hcolon, List.count_eq_zero.mpr hdigits]
    have hcut : cut [':'] (a.text ++ ':' :: digits) = some (a.text, digits) := @cut_mark Char _ [] ':' _ hcolon digits
    rw [if_neg hcolon, if_neg hopen, guardWith_of hcount, ok_bind, hcut, decide_eq_false hcolon]
    rfl

theorem portOf_digits (schemePort : ℕ) (hport : 1 ≤ port ∧ port ≤ 65535) :
    portOf schemePort (some (Nat.toDigits 10 port)) = .ok port := by
  have hlength : (Nat.toDigits 10 port).length ≤ 5 := (Nat.length_toDigits_le_iff (by decide) (by decide)).mpr (by omega)
  have hvalue := @valueIn_toDigits 10 (by decide) (by decide) port
  have hdigits : ∀ c ∈ Nat.toDigits 10 port, c.isDigit = true := fun c hc => Nat.isDigit_of_mem_toDigits (by decide) (by decide) hc
  simp only [portOf]
  rw [guardWith_of ⟨Nat.toDigits_ne_nil, hlength, List.all_eq_true.mpr hdigits⟩, ok_bind, hvalue, guardWith_of hport]
  rfl

theorem addressOf_text (hfits : a.Fits) : addressOf a.text (decide (':' ∈ a.text)) = .ok a := by
  unfold addressOf
  cases a with
  | v4 n =>
    have hcolon : ¬ ':' ∈ Address.text (.v4 n) := by simp [colon_mem_text]
    have hlocal : lower (Address.text (.v4 n)) ≠ "localhost".toList := by
      intro heq
      have hl : 'l' ∈ lower (Address.text (.v4 n)) := by
        rw [heq]
        decide
      obtain ⟨c, hc, hlower⟩ := List.mem_map.mp hl
      exact (address_char hc).2.2 hlower
    have hread : parse4 (Address.text (.v4 n)) = some n := parse4_render4 hfits
    rw [decide_eq_false hcolon, if_neg Bool.false_ne_true, if_neg hlocal, hread]
  | v6 n =>
    have hcolon : ':' ∈ Address.text (.v6 n) := colon_mem_text.mpr ⟨n, rfl⟩
    have hread : parse6 (Address.text (.v6 n)) = some n := parse6_render6 hfits
    rw [decide_eq_true hcolon, if_pos rfl, hread]

end

theorem digit_printable {c : Char} (h : c.isDigit = true) : isPrintable c = true := by
  refine hex_printable ?_
  rw [isHex, h]
  rfl

/-- The characters of the authority written back. -/
theorem authority_char {a : Address} {digits : Text} (hdigits : ∀ c ∈ digits, c.isDigit = true) :
    ∀ c ∈ shown a ++ ':' :: digits, isPrintable c = true ∧ c ∉ ['/', '?', '#', '@', '%', '\\'] := by
  have hmarks : ∀ c ∈ [':', '[', ']'], isPrintable c = true ∧ c ∉ ['/', '?', '#', '@', '%', '\\'] := List.forall_iff_forall_mem.mp (by decide)
  have htext : ∀ c ∈ a.text, isPrintable c = true ∧ c ∉ ['/', '?', '#', '@', '%', '\\'] := by
    intro c hc
    obtain ⟨hprintable, hmark, -⟩ := address_char hc
    refine ⟨hprintable, fun hmem => hmark ?_⟩
    exact (List.forall_iff_forall_mem.mp (by decide) : ∀ m ∈ ['/', '?', '#', '@', '%', '\\'], m ∈ ['/', '?', '#', '@', '%', '[', ']', '\\']) c hmem
  have hdigit : ∀ c ∈ digits, isPrintable c = true ∧ c ∉ ['/', '?', '#', '@', '%', '\\'] := by
    intro c hc
    refine ⟨digit_printable (hdigits c hc), fun hmem => ?_⟩
    have hno : ∀ m ∈ ['/', '?', '#', '@', '%', '\\'], m.isDigit = false := List.forall_iff_forall_mem.mp (by decide)
    exact Bool.false_ne_true ((hno c hmem).symm.trans (hdigits c hc))
  intro c hc
  rcases List.mem_append.mp hc with hc | hc
  · unfold shown at hc
    split at hc
    · rcases List.mem_cons.mp hc with rfl | hc
      · exact hmarks _ (by decide)
      · rcases List.mem_append.mp hc with hc | hc
        · exact htext c hc
        · rw [List.mem_singleton.mp hc]
          exact hmarks _ (by decide)
    · exact htext c hc
  · rcases List.mem_cons.mp hc with rfl | hc
    · exact hmarks _ (by decide)
    · exact hdigit c hc

/-- The authority ends where the path begins. -/
theorem authority_split {authority basePath : Text}
    (hauthority : ∀ c ∈ authority, isPrintable c = true ∧ c ∉ ['/', '?', '#', '@', '%', '\\'])
    (hpath : basePath = [] ∨ basePath.head? = some '/') :
    (authority ++ basePath).takeWhile (· ∉ ['/', '?', '#']) = authority ∧
      (authority ++ basePath).dropWhile (· ∉ ['/', '?', '#']) = basePath := by
  have hpass : ∀ c ∈ authority, decide (c ∉ ['/', '?', '#']) = true := by
    intro c hc
    refine decide_eq_true fun hmem => (hauthority c hc).2 ?_
    exact (List.forall_iff_forall_mem.mp (by decide) : ∀ m ∈ ['/', '?', '#'], m ∈ ['/', '?', '#', '@', '%', '\\']) c hmem
  have hstop : basePath.takeWhile (· ∉ ['/', '?', '#']) = [] ∧ basePath.dropWhile (· ∉ ['/', '?', '#']) = basePath := by
    cases basePath with
    | nil => exact ⟨rfl, rfl⟩
    | cons c path =>
      have hc : c = '/' := by simpa using hpath
      rw [hc]
      simp
  constructor
  · rw [List.takeWhile_append_of_pos hpass, hstop.1, List.append_nil]
  · rw [List.dropWhile_append_of_pos hpass, hstop.2]

/-- A target whose address is local is accepted as it is written back. -/
theorem guard_url {t : Target} {a : Address} (hscheme : t.scheme = "http".toList ∨ t.scheme = "https".toList)
    (hport : 1 ≤ t.port ∧ t.port ≤ 65535) (haddress : t.address = a.text) (hfits : a.Fits)
    (hadmitted : ∃ net ∈ admitted, net.Contains a) (hrefused : ∀ net ∈ linkLocal ++ metadata, ¬ net.Contains a)
    (hpath : t.basePath = [] ∨ PlainPath t.basePath) (hstrip : t.basePath.rdropWhile (· = '/') = t.basePath)
    (hplain : ∀ c ∈ t.basePath, isPrintable c = true ∧ c ∉ ['\\', '@', '?', '#', '%']) : guardBaseUrl t.url = .ok t := by
  obtain ⟨scheme, address, port, basePath⟩ := t
  dsimp only at *
  subst haddress
  have hurl : Target.url ⟨scheme, a.text, port, basePath⟩ =
      scheme ++ (':' :: ['/', '/'] ++ (shown a ++ ':' :: Nat.toDigits 10 port ++ basePath)) := by
    simp [Target.url, shown]
  have hdigits : ∀ c ∈ Nat.toDigits 10 port, c.isDigit = true := fun c hc => Nat.isDigit_of_mem_toDigits (by decide) (by decide) hc
  have hcolonDigits : ':' ∉ Nat.toDigits 10 port := fun hmem => absurd (hdigits _ hmem) (by decide)
  have hauthority := authority_char (a := a) hdigits
  have hsplit := @authority_split _ basePath hauthority (hpath.imp_right fun h => h.1)
  have hletters : ∃ schemePort, schemePorts.lookup (lower scheme) = some schemePort ∧ lower scheme = scheme ∧ ':' ∉ scheme ∧
      ∀ c ∈ scheme, isPrintable c = true ∧ c ≠ '\\' := by
    rcases hscheme with rfl | rfl
    · exact ⟨80, rfl, rfl, by decide, List.forall_iff_forall_mem.mp (by decide)⟩
    · exact ⟨443, rfl, rfl, by decide, List.forall_iff_forall_mem.mp (by decide)⟩
  obtain ⟨schemePort, hlookup, hlower, hcolon, hscheme⟩ := hletters
  have hcut := @cut_mark Char _ ['/', '/'] ':' scheme hcolon (shown a ++ ':' :: Nat.toDigits 10 port ++ basePath)
  have hclean : Target.url ⟨scheme, a.text, port, basePath⟩ ≠ [] ∧ '\\' ∉ Target.url ⟨scheme, a.text, port, basePath⟩ ∧
      (Target.url ⟨scheme, a.text, port, basePath⟩).all isPrintable = true := by
    have hall : ∀ c ∈ Target.url ⟨scheme, a.text, port, basePath⟩, isPrintable c = true ∧ c ≠ '\\' := by
      intro c hc
      rw [hurl] at hc
      rcases List.mem_append.mp hc with hc | hc
      · exact hscheme c hc
      · rcases List.mem_append.mp hc with hc | hc
        · exact (List.forall_iff_forall_mem.mp (by decide) : ∀ c ∈ ':' :: ['/', '/'], isPrintable c = true ∧ c ≠ '\\') c hc
        · rcases List.mem_append.mp hc with hc | hc
          · exact ⟨(hauthority c hc).1, fun heq => (hauthority c hc).2 (by simp [heq])⟩
          · exact ⟨(hplain c hc).1, fun heq => (hplain c hc).2 (by simp [heq])⟩
    exact ⟨by simp [hurl], fun hmem => (hall _ hmem).2 rfl, List.all_eq_true.mpr fun c hc => (hall c hc).1⟩
  have hmark : ∀ c ∈ ['@', '%'], c ∉ shown a ++ ':' :: Nat.toDigits 10 port := by
    intro c hc hmem
    exact (hauthority c hmem).2 ((List.forall_iff_forall_mem.mp (by decide) : ∀ m ∈ ['@', '%'], m ∈ ['/', '?', '#', '@', '%', '\\']) c hc)
  have hpathMark : ∀ c ∈ ['#', '?'], c ∉ basePath := by
    intro c hc hmem
    exact (hplain c hmem).2 ((List.forall_iff_forall_mem.mp (by decide) : ∀ m ∈ ['#', '?'], m ∈ ['\\', '@', '?', '#', '%']) c hc)
  have hbrackets : '[' ∉ a.text ∧ ']' ∉ a.text :=
    ⟨fun hmem => (address_char hmem).2.1 (by decide), fun hmem => (address_char hmem).2.1 (by decide)⟩
  unfold guardBaseUrl
  rw [guardWith_of hclean, ok_bind, hurl]
  have hfront : (cut "://".toList (scheme ++ (':' :: ['/', '/'] ++ (shown a ++ ':' :: Nat.toDigits 10 port ++ basePath)))).getD ([], []) =
      (scheme, shown a ++ ':' :: Nat.toDigits 10 port ++ basePath) := congrArg (Option.getD · ([], [])) hcut
  simp only [hfront, hlower, hsplit.1, hsplit.2]
  rw [hlower] at hlookup
  rw [hlookup]
  dsimp only
  rw [guardWith_of (hpathMark '#' (by decide)), ok_bind, guardWith_of (hpathMark '?' (by decide)), ok_bind,
    guardWith_of (hmark '@' (by decide)), ok_bind, guardWith_of (hmark '%' (by decide)), ok_bind,
    hostPort_shown hfits _ hcolonDigits, ok_bind]
  dsimp only
  rw [guardWith_of (text_ne_nil hfits), ok_bind, guardWith_of hbrackets, ok_bind, portOf_digits schemePort hport, ok_bind,
    addressOf_text hfits, ok_bind, guardWith_of fun net hnet => hrefused net (List.mem_append_left _ hnet), ok_bind,
    guardWith_of fun net hnet => hrefused net (List.mem_append_right _ hnet), ok_bind, guardWith_of hadmitted, ok_bind, hstrip,
    guardWith_of hpath, ok_bind]
  rfl

/-- The guard admits local literals only, and a target written back is admitted as itself. -/
theorem guard_admits_local (url : Text) (t : Target) (h : guardBaseUrl url = .ok t) : LocalUrl url t ∧ guardBaseUrl t.url = .ok t := by
  obtain ⟨hlocal, address, haddress, hfits, hadmitted, hrefused, hstrip⟩ := localUrl_of_guard h
  refine ⟨hlocal, guard_url hlocal.scheme hlocal.port haddress hfits hadmitted hrefused hlocal.path hstrip fun c hc => ?_⟩
  obtain ⟨scheme, host, port, slashes, _, hurl, -⟩ := hlocal.parts
  refine hlocal.plain c ?_
  rw [hurl]
  simp [hc]

theorem guard_admits_local_samples :
    LocalUrl "HTTP://LocalHost/v1/".toList ⟨"http".toList, "127.0.0.1".toList, 80, "/v1".toList⟩ ∧
    LocalUrl "https://[FD00:0::0:1]:8443".toList ⟨"https".toList, "fd00::1".toList, 8443, []⟩ :=
  ⟨(guard_admits_local _ _ (by decide +kernel)).1, (guard_admits_local _ _ (by decide +kernel)).1⟩

end HarnessConformance.ModelEndpoint
