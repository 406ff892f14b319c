import HarnessConformance.ProxyServer.CodeMaps

/-! # The mapped code

What an accepted listing of mappings says: its lines are read whole and in order, and what is returned of them is
every executable line once, and nothing else. -/

namespace HarnessConformance.ProxyServer
open Lib Lib.Outcome Lib.Lines Lib.LittleEndian Lib.Splitting
open Admission (require_eq_ok)
open ProxyClient (asciiBytes latin)
set_option autoImplicit false

/-! ## The auxiliary vector -/

def pairBytes (pair : ℕ × ℕ) : Bytes := toLittle 8 pair.1 ++ toLittle 8 pair.2

/-- An auxiliary vector: the entries, no key twice, and the terminator. -/
structure AuxVector (raw : Bytes) (entries : List (ℕ × ℕ)) : Prop where
  bytes : raw = (entries ++ [(0, 0)]).flatMap pairBytes
  keys : (entries.map Prod.fst).Nodup
  nonzero : 0 ∉ entries.map Prod.fst

theorem pairBytes_pairs {count : ℕ} {raw : Bytes} (h : raw.length = 16 * count) : raw = (pairs count raw).flatMap pairBytes := by
  induction count generalizing raw with
  | zero => exact List.length_eq_zero_iff.mp h
  | succ count ih =>
    have hkey : (raw.take 8).length = 8 := by simp; omega
    have hvalue : ((raw.drop 8).take 8).length = 8 := by simp; omega
    have hfirst := toLittle_ofLittle (raw.take 8)
    have hsecond := toLittle_ofLittle ((raw.drop 8).take 8)
    rw [hkey] at hfirst
    rw [hvalue] at hsecond
    have hrest : raw.drop 16 = (raw.drop 8).drop 8 := by rw [List.drop_drop]
    rw [pairs, List.flatMap_cons, pairBytes, hfirst, hsecond, ← ih (by simp; omega), hrest, List.append_assoc,
      List.take_append_drop, List.take_append_drop]

theorem auxvEntries_eq_ok {done entries result : List (ℕ × ℕ)} (h : auxvEntries done entries = .ok result)
    (hdone : (done.map Prod.fst).Nodup ∧ 0 ∉ done.map Prod.fst) :
    done ++ entries = result ++ [(0, 0)] ∧ (result.map Prod.fst).Nodup ∧ 0 ∉ result.map Prod.fst := by
  induction entries generalizing done with
  | nil => cases h
  | cons entry rest ih =>
    obtain ⟨key, value⟩ := entry
    rw [auxvEntries] at h
    by_cases hkey : key = 0
    · rw [if_pos hkey] at h
      simp only [bind_eq_ok, require_eq_ok, pure_eq_ok] at h
      obtain ⟨_, ⟨rfl, rfl⟩, rfl⟩ := h
      exact ⟨by rw [hkey], hdone⟩
    · rw [if_neg hkey] at h
      simp only [bind_eq_ok, require_eq_ok] at h
      obtain ⟨_, hnew, h⟩ := h
      have hnext : ((done ++ [(key, value)]).map Prod.fst).Nodup ∧ 0 ∉ (done ++ [(key, value)]).map Prod.fst := by
        rw [List.map_append]
        constructor
        · exact List.Nodup.append hdone.1 (List.nodup_singleton _) (List.disjoint_singleton.mpr hnew)
        · simpa [Ne.symm hkey] using hdone.2
      obtain ⟨hentries, hresult⟩ := ih h hnext
      exact ⟨by rw [← hentries, List.append_assoc, List.singleton_append], hresult⟩

theorem lookup_getD_mem {entries : List (ℕ × ℕ)} {key : ℕ} (h : 0 < (entries.lookup key).getD 0) :
    (key, (entries.lookup key).getD 0) ∈ entries := by
  cases hlookup : entries.lookup key with
  | none => simp [hlookup] at h
  | some value =>
    obtain ⟨before, after, rfl, -⟩ := List.lookup_eq_some_iff.mp hlookup
    simp

/-- An accepted vector is one, and holds the page size and the address of the kernel's code. -/
theorem nativeAuxv_eq_ok {raw : Bytes} {entries : List (ℕ × ℕ)} (h : nativeAuxv raw = .ok entries) :
    AuxVector raw entries ∧ (entries.lookup 6).getD 0 ∈ pageSizes ∧ (6, (entries.lookup 6).getD 0) ∈ entries ∧
      (33, (entries.lookup 33).getD 0) ∈ entries := by
  unfold nativeAuxv at h
  simp only [bind_eq_ok, require_eq_ok, pure_eq_ok] at h
  obtain ⟨_, ⟨-, -, hlength⟩, _, hentries, _, ⟨hpage, hvdso, -⟩, rfl⟩ := h
  obtain ⟨hall, hkeys, hnonzero⟩ := auxvEntries_eq_ok hentries ⟨List.nodup_nil, by simp⟩
  have hbytes := @pairBytes_pairs (raw.length / 16) raw (by omega)
  rw [List.nil_append] at hall
  refine ⟨⟨hall ▸ hbytes, hkeys, hnonzero⟩, hpage, lookup_getD_mem ?_, lookup_getD_mem hvdso⟩
  exact (by decide : ∀ n ∈ pageSizes, 0 < n) _ hpage

/-! ## The text of a line -/

/-- What may stand behind the inode: nothing, or spaces and the path. -/
def PathText (text : Bytes) : Option Bytes → Prop
  | none => text = []
  | some path => path.head? ≠ some 32 ∧ ∃ gap, text = List.replicate (gap + 1) 32 ++ path

/-- A line that the pattern matches, with its groups. -/
structure Spells (line : Bytes) (g : MapGroups) : Prop where
  written : g.Written
  text : ∃ gap tail, PathText tail g.path ∧
    line = g.start ++ (asciiBytes "-" ++ (g.stop ++ (asciiBytes " " ++ (g.perms ++ (asciiBytes " " ++ (g.offset ++
      (asciiBytes " " ++ (g.major ++ (asciiBytes ":" ++ (g.minor ++ (List.replicate (gap + 1) 32 ++ (g.inode ++ tail))))))))))))

theorem spaces_dropWhile (text : Bytes) : ∃ gap, text = List.replicate gap 32 ++ text.dropWhile (· = 32) := by
  refine ⟨(text.takeWhile (· = 32)).length, ?_⟩
  have hspaces : text.takeWhile (· = 32) = List.replicate (text.takeWhile (· = 32)).length 32 :=
    List.eq_replicate_iff.mpr ⟨rfl, fun b hb => by simpa using List.mem_takeWhile_imp hb⟩
  rw [← hspaces, List.takeWhile_append_dropWhile]

theorem dropWhile_spaces {text : Bytes} (gap : ℕ) (h : text.head? ≠ some 32) :
    (List.replicate gap 32 ++ text).dropWhile (· = 32) = text := by
  induction gap with
  | zero =>
    cases text with
    | nil => rfl
    | cons b text =>
      have hb : b ≠ 32 := fun heq => h (by rw [heq, List.head?_cons])
      simp [hb]
  | succ gap ih => simpa [List.replicate_succ] using ih

theorem pathGroup_eq_some {text : Bytes} {path : Option Bytes} : pathGroup text = some path ↔ PathText text path := by
  constructor
  · intro h
    unfold pathGroup at h
    split at h
    · obtain rfl := Option.some.inj h
      rfl
    · rename_i rest
      obtain rfl := Option.some.inj h
      obtain ⟨gap, hgap⟩ := spaces_dropWhile rest
      refine ⟨fun hspace => ?_, gap, by rw [List.replicate_succ, List.cons_append, ← hgap]⟩
      have hhead := List.head?_dropWhile_not (fun b : UInt8 => decide (b = 32)) rest
      rw [hspace] at hhead
      simp at hhead
    · cases h
  · intro h
    cases path with
    | none =>
      have htext : text = [] := h
      rw [htext]
      rfl
    | some path =>
      obtain ⟨hhead, gap, rfl⟩ := h
      rw [List.replicate_succ, List.cons_append, pathGroup, dropWhile_spaces gap hhead]

theorem not_mem_of_pattern {r : Regex} {text : Bytes} {b : UInt8} (h : r.fullmatchChars (latin text))
    (hr : Regex.Over (· ≠ Char.ofNat b.toNat) r) : b ∉ text := by
  intro hb
  exact (Regex.fullmatchChars_iff.mp h).over hr _ (List.mem_map_of_mem hb) rfl

theorem cut_of_mark {mark : String} {b : UInt8} (hmark : asciiBytes mark = [b]) {before : Bytes} (h : b ∉ before) (after : Bytes) :
    cut (asciiBytes mark) (before ++ (asciiBytes mark ++ after)) = some (before, after) := by
  rw [hmark]
  exact cut_mark h after

theorem inode_digits {inode : Bytes} (h : inodePattern.fullmatchChars (latin inode)) : inode ≠ [] ∧ ∀ b ∈ inode, isDigitByte b = true := by
  have hmatches := Regex.fullmatchChars_iff.mp h
  constructor
  · rintro rfl
    exact absurd h (by decide)
  · intro b hb
    have hover : Regex.Over (fun c => c.isDigit = true) inodePattern := Regex.Over.between (a := .one Char.isDigit) (fun _ hc => hc) 1 19
    exact hmatches.over hover _ (List.mem_map_of_mem hb)

theorem isDigitByte_ne_space {b : UInt8} (h : isDigitByte b = true) : b ≠ 32 := by
  rintro rfl
  exact absurd h (by decide)

theorem takeWhile_inode {inode tail : Bytes} {path : Option Bytes} (hinode : ∀ b ∈ inode, isDigitByte b = true)
    (htail : PathText tail path) :
    (inode ++ tail).takeWhile isDigitByte = inode ∧ (inode ++ tail).dropWhile isDigitByte = tail := by
  have hstop : tail.takeWhile isDigitByte = [] ∧ tail.dropWhile isDigitByte = tail := by
    cases path with
    | none =>
      have hnil : tail = [] := htail
      rw [hnil]
      exact ⟨rfl, rfl⟩
    | some path =>
      obtain ⟨-, gap, rfl⟩ := htail
      have hspace : isDigitByte 32 = false := by decide
      simp [List.replicate_succ, hspace]
  constructor
  · rw [List.takeWhile_append_of_pos hinode, hstop.1, List.append_nil]
  · rw [List.dropWhile_append_of_pos hinode, hstop.2]

/-- The groups found are those of the one way in which the pattern matches. -/
theorem matchGroups_eq_some {line : Bytes} {g : MapGroups} : matchGroups line = some g ↔ Spells line g := by
  constructor
  · intro h
    unfold matchGroups at h
    simp only [Option.bind_eq_bind, Option.bind_eq_some_iff, Prod.exists, Option.ite_none_right_eq_some, Option.some.injEq] at h
    obtain ⟨start, line₁, h₁, stop, line₂, h₂, perms, line₃, h₃, offset, line₄, h₄, major, line₅, h₅, minor, line₆, h₆,
      path, hpath, hwritten, rfl⟩ := h
    obtain ⟨gap, hgap⟩ := spaces_dropWhile line₆
    refine ⟨hwritten, gap, (line₆.dropWhile (· = 32)).dropWhile isDigitByte, pathGroup_eq_some.mp hpath, ?_⟩
    have hspace : asciiBytes " " = [32] := by decide
    have hrest : asciiBytes " " ++ line₆ = List.replicate (gap + 1) 32 ++ line₆.dropWhile (· = 32) := by
      rw [List.replicate_succ, List.cons_append, ← hgap, hspace, List.singleton_append]
    rw [List.takeWhile_append_dropWhile, ← hrest, cut_eq h₁, cut_eq h₂, cut_eq h₃, cut_eq h₄, cut_eq h₅, cut_eq h₆]
    simp only [List.append_assoc]
  · rintro ⟨hwritten, gap, tail, htail, rfl⟩
    obtain ⟨hstart, hstop, hperms, hoffset, hmajor, hminor, hinode⟩ := id hwritten
    obtain ⟨hinodeNe, hdigits⟩ := inode_digits hinode
    have hspace : asciiBytes " " = [32] := by decide
    have hhex : ∀ (b : UInt8) (lo more : ℕ), isHexDigit (Char.ofNat b.toNat) = false →
        Regex.Over (· ≠ Char.ofNat b.toNat) (hexPattern lo more) := by
      intro b lo more hb
      have hclass : Regex.Over (· ≠ Char.ofNat b.toNat) (.one isHexDigit) := by
        rintro c hc rfl
        exact absurd (hb.symm.trans hc) Bool.false_ne_true
      exact hclass.between lo more
    have hpermsOver : Regex.Over (· ≠ Char.ofNat (32 : UInt8).toNat) permsPattern := by
      refine ⟨?_, ?_, ?_, ?_, trivial⟩ <;>
        · rintro c hc rfl
          exact absurd hc (by decide)
    have h₁ : 45 ∉ g.start := not_mem_of_pattern hstart (hhex _ _ _ (by decide))
    have h₂ : 32 ∉ g.stop := not_mem_of_pattern hstop (hhex _ _ _ (by decide))
    have h₃ : 32 ∉ g.perms := not_mem_of_pattern hperms hpermsOver
    have h₄ : 32 ∉ g.offset := not_mem_of_pattern hoffset (hhex _ _ _ (by decide))
    have h₅ : 58 ∉ g.major := not_mem_of_pattern hmajor (hhex _ _ _ (by decide))
    have h₆ : 32 ∉ g.minor := not_mem_of_pattern hminor (hhex _ _ _ (by decide))
    have hgap : List.replicate (gap + 1) 32 ++ (g.inode ++ tail) = asciiBytes " " ++ (List.replicate gap 32 ++ (g.inode ++ tail)) := by
      rw [hspace, List.replicate_succ, List.singleton_append, List.cons_append]
    have hhead : (g.inode ++ tail).head? ≠ some 32 := by
      obtain ⟨b, inode, hb⟩ := List.exists_cons_of_ne_nil hinodeNe
      rw [hb, List.cons_append, List.head?_cons]
      intro heq
      exact isDigitByte_ne_space (hdigits b (hb ▸ List.mem_cons_self)) (Option.some.inj heq)
    obtain ⟨htake, hdrop⟩ := takeWhile_inode hdigits htail
    unfold matchGroups
    simp only [hgap, cut_of_mark (by decide : asciiBytes "-" = [45]) h₁, cut_of_mark hspace h₂, cut_of_mark hspace h₃,
      cut_of_mark hspace h₄, cut_of_mark (by decide : asciiBytes ":" = [58]) h₅, cut_of_mark hspace h₆, Option.bind_eq_bind,
      Option.bind_some, dropWhile_spaces gap hhead, htake, hdrop, pathGroup_eq_some.mpr htail]
    exact if_pos hwritten

/-! ## The numbers of a line -/

theorem hexDigit_lt {b : UInt8} (h : isHexDigit (Char.ofNat b.toNat) = true) : hexDigit b < 16 := by
  have hall : ∀ n < 256, isHexDigit (Char.ofNat n) = true → (if n < 58 then n - 48 else n - 87) < 16 := by decide +kernel
  exact hall b.toNat b.toNat_lt h

theorem hexadecimal_lt {text : Bytes} (h : ∀ b ∈ text, isHexDigit (Char.ofNat b.toNat) = true) : hexadecimal text < 16 ^ text.length := by
  have hfold : ∀ n : ℕ, text.foldl (fun n b => 16 * n + hexDigit b) n < (n + 1) * 16 ^ text.length := by
    induction text with
    | nil => simp
    | cons b text ih =>
      intro n
      rw [List.forall_mem_cons] at h
      have hb := hexDigit_lt h.1
      have hrest := ih h.2 (16 * n + hexDigit b)
      rw [List.foldl_cons, List.length_cons, pow_succ]
      calc
        _ < (16 * n + hexDigit b + 1) * 16 ^ text.length := hrest
        _ ≤ (16 * (n + 1)) * 16 ^ text.length := Nat.mul_le_mul_right _ (by omega)
        _ = (n + 1) * (16 ^ text.length * 16) := by ring
  simpa [hexadecimal] using hfold 0

theorem hexadecimal_lt_word {text : Bytes} (h : (hexPattern 1 15).fullmatchChars (latin text)) : hexadecimal text < 2 ^ 64 := by
  have hmatches := Regex.fullmatchChars_iff.mp h
  have hover : Regex.Over (fun c => isHexDigit c = true) (hexPattern 1 15) := Regex.Over.between (a := .one isHexDigit) (fun _ hc => hc) 1 15
  have hlength : text.length ≤ 16 := by
    have hle := hmatches.length_le (by decide)
    rwa [latin, List.length_map] at hle
  have hlt := hexadecimal_lt fun b hb => hmatches.over hover _ (List.mem_map_of_mem hb)
  calc
    _ < 16 ^ text.length := hlt
    _ ≤ 16 ^ 16 := Nat.pow_le_pow_right (by decide) hlength
    _ = 2 ^ 64 := by decide

/-! ## The executable lines -/

/-- An absolute path whose every segment is a name. -/
structure CanonicalPath (path : Bytes) : Prop where
  segments : ∃ parts : List Bytes, path = asciiBytes "/" ++ (asciiBytes "/").intercalate parts ∧
    ∀ part ∈ parts, 47 ∉ part ∧ part ∉ [[], asciiBytes ".", asciiBytes ".."]
  unspaced : 32 ∉ path
  present : ¬ asciiBytes " (deleted)" <:+ path

/-- The mapping of the kernel at the address that the auxiliary vector gives, or the one that x86 fixes. -/
structure KernelCode (machine : String) (vdsoAddress : ℕ) (m : MapLine) : Prop where
  zero : m.offset = 0 ∧ m.major = 0 ∧ m.minor = 0 ∧ m.inode = 0
  place : m.path = some (asciiBytes "[vdso]") ∧ m.start = vdsoAddress ∧ m.stop ≤ m.start + 1048576 ∧ m.perms = asciiBytes "r-xp" ∨
    m.path = some (asciiBytes "[vsyscall]") ∧ machine = "x86_64" ∧ m.start = 0xffffffffff600000 ∧ m.stop = m.start + 4096 ∧
      m.perms = asciiBytes "--xp"

structure FileCode (m : MapLine) : Prop where
  path : ∃ path, m.path = some path ∧ CanonicalPath path
  inode : 0 < m.inode

/-- The ranges of a line: a range of whole pages below the top of the address space. -/
structure Ranged (pageSize : ℕ) (m : MapLine) : Prop where
  positive : m.start < m.stop
  bounded : m.stop < 2 ^ 64
  aligned : pageSize ∣ m.start ∧ pageSize ∣ m.stop ∧ pageSize ∣ m.offset
  exclusive : ¬ (m.writable ∧ m.executable)

section
variable {machine : String} {pageSize vdsoAddress : ℕ} {m : MapLine}

theorem canonicalPath {path : Bytes} (h : pathPattern.fullmatchChars (latin path))
    (hparts : ∀ part ∈ split (asciiBytes "/") (path.drop 1), part ∉ [[], asciiBytes ".", asciiBytes ".."]) : CanonicalPath path := by
  have hmatches := Regex.fullmatchChars_iff.mp h
  have hslash : asciiBytes "/" = [47] := by decide
  obtain ⟨front, rest, hfront, -, hpath⟩ := Regex.matches_seq.mp hmatches
  obtain rfl := Regex.matches_char.mp hfront
  have hfirst : path = [47] ++ path.drop 1 := by
    cases path with
    | nil => cases hpath
    | cons b path =>
      have hb : Char.ofNat b.toNat = '/' := (List.cons.inj hpath).1
      have hall : ∀ n < 256, Char.ofNat n = '/' → n = 47 := by decide +kernel
      have hbyte : b = 47 := UInt8.toNat_inj.mp (hall b.toNat b.toNat_lt hb)
      rw [hbyte]
      rfl
  have hunspaced : 32 ∉ path := by
    refine not_mem_of_pattern h ⟨?_, ?_, ?_⟩ <;>
      · rintro c hc rfl
        exact absurd hc (by decide)
  refine ⟨⟨split (asciiBytes "/") (path.drop 1), ?_, fun part hpart => ⟨not_mem_of_mem_split (hslash ▸ hpart), hparts part hpart⟩⟩,
    hunspaced, fun hsuffix => hunspaced (hsuffix.subset (by decide))⟩
  rw [intercalate_split, hslash]
  exact hfirst

theorem kernelCode {special : List (String × KernelMap)} (hnamed : m.named)
    (hlt : m.start < m.stop) (h : kernelMap machine vdsoAddress special m = .ok ()) :
    KernelCode machine vdsoAddress m ∧ ascii m.pathBytes ∉ special.map Prod.fst := by
  unfold kernelMap at h
  simp only [bind_eq_ok, require_eq_ok] at h
  obtain ⟨_, ⟨hnew, hzero⟩, h⟩ := h
  simp only [Prod.mk.injEq] at hzero
  refine ⟨⟨hzero, ?_⟩, hnew⟩
  have hpath : ∀ path : Bytes, path ≠ [] → m.pathBytes = path → m.path = some path := by
    intro path hne heq
    cases hm : m.path with
    | none =>
      rw [MapLine.pathBytes, hm] at heq
      exact absurd heq.symm hne
    | some p =>
      rw [MapLine.pathBytes, hm] at heq
      exact congrArg some heq
  rcases hnamed with hvdso | hvsyscall
  · have hname : ascii m.pathBytes = "[vdso]" := by
      rw [hvdso]
      decide
    rw [if_pos hname] at h
    obtain ⟨hstart, hperms, hlength⟩ := require_eq_ok.mp h
    exact .inl ⟨hpath _ (by decide) hvdso, hstart, by omega, hperms⟩
  · have hname : ascii m.pathBytes ≠ "[vdso]" := by
      rw [hvsyscall]
      decide
    rw [if_neg hname] at h
    obtain ⟨hmachine, hstart, hlength, hperms⟩ := require_eq_ok.mp h
    exact .inr ⟨hpath _ (by decide) hvsyscall, hmachine, hstart, by omega, hperms⟩

theorem fileCode (hpath : m.path ≠ none) (h : filePath m = .ok ()) : FileCode m := by
  unfold filePath at h
  simp only [bind_eq_ok, require_eq_ok] at h
  obtain ⟨_, ⟨hpattern, hinode⟩, hparts⟩ := h
  obtain ⟨path, hsome⟩ := Option.ne_none_iff_exists'.mp hpath
  rw [MapLine.pathBytes, hsome] at hpattern hparts
  exact ⟨⟨path, hsome, canonicalPath hpattern hparts⟩, hinode⟩

/-- What one line does: it is passed over if it is not executable, and else it is kept as what it is. -/
theorem codeLine_eq_ok {s t : Found} {line : Bytes} (h : codeLine machine pageSize vdsoAddress s line = .ok t) :
    ∃ g, Spells line g ∧ s.previousEnd ≤ g.line.start ∧ Ranged pageSize g.line ∧ t.previousEnd = g.line.stop ∧
      (¬ g.line.executable ∧ t.maps = s.maps ∧ t.special = s.special ∨
        g.line.executable ∧ g.line.named ∧ KernelCode machine vdsoAddress g.line ∧ ascii g.line.pathBytes ∉ s.special.map Prod.fst ∧
          t.maps = s.maps ∧ t.special = s.special ++ [g.line.special] ∨
        g.line.executable ∧ ¬ g.line.named ∧ FileCode g.line ∧ t.maps = s.maps ++ [g.line.file] ∧ t.special = s.special) := by
  unfold codeLine at h
  simp only [bind_eq_ok, require_eq_ok] at h
  obtain ⟨_, -, h⟩ := h
  cases hgroups : matchGroups line with
  | none => simp [hgroups] at h
  | some g =>
    rw [hgroups] at h
    simp only [bind_eq_ok, require_eq_ok] at h
    obtain ⟨_, ⟨hprevious, hlt, hstart, hstop, hoffset, -, hexclusive⟩, h⟩ := h
    have hspells := matchGroups_eq_some.mp hgroups
    have hranged : Ranged pageSize g.line := ⟨hlt, hexadecimal_lt_word hspells.written.2.1,
      ⟨Nat.dvd_of_mod_eq_zero hstart, Nat.dvd_of_mod_eq_zero hstop, Nat.dvd_of_mod_eq_zero hoffset⟩, hexclusive⟩
    refine ⟨g, hspells, hprevious, hranged, ?_⟩
    by_cases hexecutable : g.line.executable
    · rw [if_neg (not_not_intro hexecutable)] at h
      simp only [bind_eq_ok, require_eq_ok] at h
      obtain ⟨_, ⟨-, hpath⟩, h⟩ := h
      by_cases hnamed : g.line.named
      · rw [if_pos hnamed] at h
        simp only [bind_eq_ok, pure_eq_ok] at h
        obtain ⟨⟨⟩, hkernel, rfl⟩ := h
        obtain ⟨hcode, hnew⟩ := kernelCode hnamed hlt hkernel
        exact ⟨rfl, .inr (.inl ⟨hexecutable, hnamed, hcode, hnew, rfl, rfl⟩)⟩
      · rw [if_neg hnamed] at h
        simp only [bind_eq_ok, pure_eq_ok] at h
        obtain ⟨⟨⟩, hfile, rfl⟩ := h
        exact ⟨rfl, .inr (.inr ⟨hexecutable, hnamed, fileCode hpath hfile, rfl, rfl⟩)⟩
    · rw [if_pos hexecutable, pure_eq_ok] at h
      obtain rfl := h
      exact ⟨rfl, .inl ⟨hexecutable, rfl, rfl⟩⟩

/-! ## The listing -/

/-- What stands in the result for the lines read: their executable lines, each once and in order. -/
structure Covered (machine : String) (pageSize vdsoAddress : ℕ) (rows : List MapLine) (files : List FileMap)
    (kernel : List (String × KernelMap)) : Prop where
  once : (kernel.map Prod.fst).Nodup
  ordered : rows.Pairwise fun m n => m.stop ≤ n.start
  ranged : ∀ m ∈ rows, Ranged pageSize m
  code : ∀ m ∈ rows, m.executable → if m.named then KernelCode machine vdsoAddress m else FileCode m
  files : files = (rows.filter fun m => m.executable ∧ ¬ m.named).map MapLine.file
  kernel : kernel = (rows.filter fun m => m.executable ∧ m.named).map MapLine.special

theorem covered_step {rows : List MapLine} {s t : Found} {line : Bytes} (hs : Covered machine pageSize vdsoAddress rows s.maps s.special)
    (hprevious : ∀ m ∈ rows, m.stop ≤ s.previousEnd) (h : codeLine machine pageSize vdsoAddress s line = .ok t) :
    ∃ g, Spells line g ∧ Covered machine pageSize vdsoAddress (rows ++ [g.line]) t.maps t.special ∧
      ∀ m ∈ rows ++ [g.line], m.stop ≤ t.previousEnd := by
  obtain ⟨g, hspells, hstart, hranged, hend, hcases⟩ := codeLine_eq_ok h
  refine ⟨g, hspells, ?_, ?_⟩
  · have hordered : (rows ++ [g.line]).Pairwise fun m n => m.stop ≤ n.start := by
      refine List.pairwise_append.mpr ⟨hs.ordered, List.pairwise_singleton _ _, fun m hm n hn => ?_⟩
      rw [List.mem_singleton.mp hn]
      exact (hprevious m hm).trans hstart
    have hrangedAll : ∀ m ∈ rows ++ [g.line], Ranged pageSize m := by
      intro m hm
      rcases List.mem_append.mp hm with hm | hm
      · exact hs.ranged m hm
      · exact List.mem_singleton.mp hm ▸ hranged
    have hcode : (g.line.executable → if g.line.named then KernelCode machine vdsoAddress g.line else FileCode g.line) →
        ∀ m ∈ rows ++ [g.line], m.executable → if m.named then KernelCode machine vdsoAddress m else FileCode m := by
      intro hlast m hm
      rcases List.mem_append.mp hm with hm | hm
      · exact hs.code m hm
      · exact List.mem_singleton.mp hm ▸ hlast
    rcases hcases with ⟨hexecutable, hmaps, hspecial⟩ | ⟨hexecutable, hnamed, hkernel, hnew, hmaps, hspecial⟩ |
      ⟨hexecutable, hnamed, hfile, hmaps, hspecial⟩
    · refine ⟨hspecial ▸ hs.once, hordered, hrangedAll, hcode fun hx => absurd hx hexecutable, ?_, ?_⟩
      · simp [List.filter_append, hexecutable, hmaps, hs.files]
      · simp [List.filter_append, hexecutable, hspecial, hs.kernel]
    · refine ⟨?_, hordered, hrangedAll, hcode fun _ => ?_, ?_, ?_⟩
      · rw [hspecial, List.map_append]
        exact List.Nodup.append hs.once (List.nodup_singleton _) (List.disjoint_singleton.mpr hnew)
      · rw [if_pos hnamed]
        exact hkernel
      · simp [List.filter_append, hnamed, hmaps, hs.files]
      · simp [List.filter_append, hexecutable, hnamed, hspecial, hs.kernel]
    · refine ⟨hspecial ▸ hs.once, hordered, hrangedAll, hcode fun _ => ?_, ?_, ?_⟩
      · rw [if_neg hnamed]
        exact hfile
      · simp [List.filter_append, hexecutable, hnamed, hmaps, hs.files]
      · simp [List.filter_append, hnamed, hspecial, hs.kernel]
  · intro m hm
    rw [hend]
    rcases List.mem_append.mp hm with hm | hm
    · exact ((hprevious m hm).trans hstart).trans hranged.positive.le
    · exact List.mem_singleton.mp hm ▸ le_rfl

theorem covered_fold {lines : List Bytes} {s : Found} (h : lines.foldlM (codeLine machine pageSize vdsoAddress) ⟨[], [], 0⟩ = .ok s) :
    ∃ rows, List.Forall₂ (fun line m => ∃ g, Spells line g ∧ g.line = m) lines rows ∧
      Covered machine pageSize vdsoAddress rows s.maps s.special := by
  have hempty : Covered machine pageSize vdsoAddress [] [] [] :=
    ⟨List.nodup_nil, List.Pairwise.nil, by simp, by simp, rfl, rfl⟩
  obtain ⟨rows, hrows, hcovered, -⟩ := foldlM_history (fun done s => ∃ rows,
    List.Forall₂ (fun line m => ∃ g, Spells line g ∧ g.line = m) done rows ∧
      Covered machine pageSize vdsoAddress rows s.maps s.special ∧ ∀ m ∈ rows, m.stop ≤ s.previousEnd)
    ⟨[], .nil, hempty, by simp⟩ (by
      rintro done s line t ⟨rows, hrows, hcovered, hprevious⟩ hstep
      obtain ⟨g, hspells, hnext⟩ := covered_step hcovered hprevious hstep
      exact ⟨rows ++ [g.line], List.rel_append hrows (.cons ⟨g, hspells, rfl⟩ .nil), hnext⟩) h
  exact ⟨rows, hrows, hcovered⟩

end

/-- An accepted listing is read line by line without loss. Its ranges follow each other, and the result is every
executable line once: the files, and the kernel's own mappings where the auxiliary vector and the machine put them. -/
theorem code_maps_sound {raw auxv : Bytes} {machine : String} {maps : Maps} (h : procCodeMaps raw machine auxv = .ok maps) :
    ∃ entries vdsoAddress rows, AuxVector auxv entries ∧ (6, maps.pageSize) ∈ entries ∧ (33, vdsoAddress) ∈ entries ∧
      maps.pageSize ∈ pageSizes ∧ raw = joinLines (splitLines raw) ∧
      List.Forall₂ (fun line m => ∃ g, Spells line g ∧ g.line = m) (splitLines raw) rows ∧
      Covered machine maps.pageSize vdsoAddress rows maps.files maps.kernel ∧
      maps.files ≠ [] ∧ "[vdso]" ∈ maps.kernel.map Prod.fst := by
  unfold procCodeMaps at h
  simp only [bind_eq_ok, require_eq_ok, pure_eq_ok] at h
  obtain ⟨_, ⟨-, -, hend, -, hcr⟩, _, -, entries, hauxv, _, -, s, hfold, _, ⟨hfiles, hvdso⟩, rfl⟩ := h
  obtain ⟨hvector, hpage, hsix, haddress⟩ := nativeAuxv_eq_ok hauxv
  obtain ⟨rows, hrows, hcovered⟩ := covered_fold hfold
  exact ⟨entries, _, rows, hvector, hsix, haddress, hpage, (joinLines_splitLines (.inr hend) hcr).symm, hrows, hcovered, hfiles, hvdso⟩

def sampleMaps : Bytes := joinLines (["00400000-00401000 r-xp 00000000 08:01 12    /bin/sh", "7ffd1000-7ffd2000 rw-p 00000000 00:00 0 [stack]",
  "7ffd3000-7ffd4000 r-xp 00000000 00:00 0 [vdso]", "ffffffffff600000-ffffffffff601000 --xp 00000000 00:00 0 [vsyscall]"].map asciiBytes)

def sampleAuxv : Bytes := [(6, 4096), (33, 0x7ffd3000), (0, 0)].flatMap pairBytes

theorem code_maps_sound_sample : ∃ maps, procCodeMaps sampleMaps "x86_64" sampleAuxv = .ok maps ∧
    ∃ vdsoAddress rows, Covered "x86_64" maps.pageSize vdsoAddress rows maps.files maps.kernel := by
  have haccepted : (procCodeMaps sampleMaps "x86_64" sampleAuxv).toOption.isSome := by decide +kernel
  rcases ok_or_error (procCodeMaps sampleMaps "x86_64" sampleAuxv) with ⟨maps, hmaps⟩ | ⟨e, herror⟩
  · obtain ⟨_, vdsoAddress, rows, -, -, -, -, -, -, hcovered, -⟩ := code_maps_sound hmaps
    exact ⟨maps, hmaps, vdsoAddress, rows, hcovered⟩
  · rw [herror] at haccepted
    cases haccepted

end HarnessConformance.ProxyServer
