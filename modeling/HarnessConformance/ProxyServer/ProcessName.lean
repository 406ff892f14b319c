import HarnessConformance.ProxyServer.ProcessFields

/-! # The name of a process

A process writes its own name into the two files that are read. Whatever it writes there, the facts that are
accepted are those of the other fields: a second `) ` behind the name leaves too few fields, and a line inside
the name that carries the key of a real line is a key seen twice. -/

namespace HarnessConformance.ProxyServer
open Lib Lib.Outcome Lib.Lines Lib.Splitting
open Admission (require require_eq_ok refusal)
open ProxyClient (asciiBytes latin digits latin_digits digits_range lookup_mem)
set_option autoImplicit false

/-! ## What the kernel writes -/

/-- A process without its name: its number, the fields that stand behind the name in `stat`, and the keys and
values of the lines that stand before and after the line of the name in `status`. -/
structure Process where
  pid : ℕ
  fields : List Bytes
  before : List (Bytes × Bytes)
  after : List (Bytes × Bytes)

def rowLine (row : Bytes × Bytes) : Bytes := row.1 ++ asciiBytes ":" ++ row.2

def capabilitySets : List String := ["CapInh", "CapPrm", "CapEff", "CapBnd", "CapAmb"]

/-- The keys of the lines that carry facts. -/
def factKeys : List String := ["NSpid", "Groups", "Uid", "Gid", "Seccomp", "NoNewPrivs"] ++ capabilitySets

namespace Process

def rows (p : Process) : List (Bytes × Bytes) := p.before ++ p.after

/-- The 50 fields are told apart by single spaces, the keys have no colon, no line is broken, and the lines that
carry facts are there. -/
structure WellFormed (p : Process) : Prop where
  fifty : p.fields.length = 50
  unspaced : ∀ f ∈ p.fields, 32 ∉ f
  keys : ∀ row ∈ p.rows, 58 ∉ row.1
  clean : ∀ row ∈ p.rows, Clean (rowLine row)
  present : ∀ key ∈ factKeys, asciiBytes key ∈ p.rows.map Prod.fst

/-- `/proc/<pid>/stat` -/
def stat (p : Process) (comm : Bytes) : Bytes :=
  digits p.pid ++ asciiBytes " (" ++ comm ++ asciiBytes ") " ++ [32].intercalate p.fields ++ [lineFeed]

/-- `/proc/<pid>/status`, with the name as it is shown there. -/
def status (p : Process) (shown : Bytes) : Bytes :=
  joinLines (p.before.map rowLine ++ [asciiBytes "Name:\t" ++ shown] ++ p.after.map rowLine)

/-- The words of the line with a key. -/
def values (p : Process) (key : String) : List Bytes := words ((p.rows.lookup (asciiBytes key)).getD [])

def numbers (p : Process) (key : String) : List ℕ := (p.values key).map decimal

/-- The facts that the fields and the lines state. -/
def facts (p : Process) : ProcessFacts where
  pid := p.pid
  parent := signed (p.fields.getD 1 [])
  startTicks := signed (p.fields.getD 19 [])
  threads := signed (p.fields.getD 17 [])
  uid := p.numbers "Uid"
  gid := p.numbers "Gid"
  namespacePids := p.numbers "NSpid"
  groups := p.numbers "Groups"
  capabilities := capabilitySets.map fun key => hexadecimal ((p.values key).headD [])
  seccompMode := (p.numbers "Seccomp").headD 0
  noNewPrivs := (p.numbers "NoNewPrivs").headD 0

end Process

variable {p : Process} {comm shown raw pid line key value : Bytes} {fields lines : List Bytes} {rows rows' : Rows}

/-! ## `stat` -/

theorem statFields_eq_ok (h : statFields raw = .ok (pid, fields)) :
    ∃ rest comm behind, cut (asciiBytes " (") raw = some (pid, rest) ∧
      cutLast (asciiBytes ") ") rest = some (comm, behind) ∧ split [32] behind.dropLast = fields ∧ fields.length = 50 := by
  unfold statFields at h
  cases hfirst : cut (asciiBytes " (") raw with
  | none => simp [hfirst, bind_eq_ok] at h
  | some front =>
    obtain ⟨pid', rest⟩ := front
    rw [hfirst] at h
    dsimp only at h
    cases hlast : cutLast (asciiBytes ") ") rest with
    | none => simp [hlast, bind_eq_ok] at h
    | some back =>
      obtain ⟨comm, behind⟩ := back
      rw [hlast] at h
      simp only [bind_eq_ok, require_eq_ok, pure_eq_ok] at h
      obtain ⟨_, -, _, -, _, ⟨hfifty, -⟩, heq⟩ := h
      obtain ⟨rfl, rfl⟩ := Prod.mk.inj heq
      exact ⟨rest, comm, behind, rfl, hlast, rfl, hfifty⟩

theorem space_not_mem_digits (n : ℕ) : 32 ∉ digits n := fun hmem => absurd (digits_range n 32 hmem) (by decide)

/-- The last `) ` that leaves all the fields behind it is the one that the kernel writes. -/
theorem behind_name {before behind : Bytes} (hfields : fields.length = 50) (hunspaced : ∀ f ∈ fields, 32 ∉ f)
    (hlast : cutLast (asciiBytes ") ") (comm ++ asciiBytes ") " ++ ([32].intercalate fields ++ [lineFeed])) = some (before, behind))
    (hfifty : (split [32] behind.dropLast).length = 50) : split [32] behind.dropLast = fields := by
  have hne : fields ≠ [] := by
    intro hnil
    rw [hnil] at hfields
    cases hfields
  have hsplit : split [32] ([32].intercalate fields) = fields := split_intercalate hne hunspaced
  obtain ⟨passed, htext, hmark⟩ := cutLast_append hlast
  have hall : ([32].intercalate fields).count 32 = 49 := by
    have hcount := length_split (a := (32 : UInt8)) ([32].intercalate fields)
    rw [hsplit, hfields] at hcount
    omega
  have hbehind : 49 ≤ behind.count 32 := by
    have hcount := length_split (a := (32 : UInt8)) behind.dropLast
    have hsub := (List.dropLast_sublist behind).count_le 32
    omega
  have htotal := congrArg (List.count 32) htext
  rw [List.count_append, List.count_append, hall] at htotal
  have hline : List.count 32 [lineFeed] = 0 := by decide
  have hnone : 32 ∉ passed := List.count_eq_zero.mp (by omega)
  -- what is passed over ends with the space of the mark, if it is not empty
  have hempty : passed = [] := by
    by_contra hpassed
    have hend := congrArg List.getLast? hmark
    rw [List.getLast?_append_of_ne_nil _ hpassed, List.getLast?_append_of_ne_nil _ (by decide)] at hend
    exact hnone (List.mem_of_getLast? hend)
  rw [hempty, List.nil_append] at htext
  rw [← htext, List.dropLast_concat, hsplit]

theorem fields_of_stat (hp : p.WellFormed) (h : statFields (p.stat comm) = .ok (pid, fields)) :
    pid = digits p.pid ∧ fields = p.fields := by
  obtain ⟨rest, before, behind, hfirst, hlast, rfl, hfifty⟩ := statFields_eq_ok h
  have hmark : p.stat comm = digits p.pid ++ (32 :: [40] ++
      (comm ++ asciiBytes ") " ++ ([32].intercalate p.fields ++ [lineFeed]))) := by
    have hopen : asciiBytes " (" = 32 :: [40] := by decide
    simp only [Process.stat, hopen, List.append_assoc]
  have hcut : cut (asciiBytes " (") (p.stat comm) =
      some (digits p.pid, comm ++ asciiBytes ") " ++ ([32].intercalate p.fields ++ [lineFeed])) := by
    rw [hmark]
    exact cut_mark (space_not_mem_digits p.pid) _
  obtain ⟨rfl, rfl⟩ := Prod.mk.inj (Option.some.inj (hfirst.symm.trans hcut))
  exact ⟨rfl, behind_name hp.fifty hp.unspaced hlast hfifty⟩

theorem decimal_digits (n : ℕ) : decimal (digits n) = n := by
  rw [decimal, latin_digits, Json.natOfDigits_encodeNat]

theorem getD_signed (fields : List Bytes) (i : ℕ) : (fields.tail.map signed).getD i 0 = signed (fields.getD (i + 1) []) := by
  rw [List.getD_eq_getElem?_getD, List.getD_eq_getElem?_getD, List.getElem?_map, List.getElem?_tail]
  cases fields[i + 1]? with
  | none => decide
  | some f => rfl

theorem stat_of_readStat {stat : Stat} (h : readStat (digits p.pid) p.fields = .ok stat) :
    stat = ⟨p.pid, p.facts.parent, p.facts.threads, p.facts.startTicks⟩ := by
  unfold readStat at h
  simp only [bind_eq_ok, require_eq_ok, pure_eq_ok, decimal_digits, getD_signed] at h
  obtain ⟨_, -, _, -, rfl⟩ := h
  rfl

/-! ## `status` -/

theorem statusRow_eq_ok : statusRow rows line = .ok rows' ↔
    ∃ key value, cut (asciiBytes ":") line = some (key, value) ∧
      (keyPattern.fullmatchChars (latin key) ∧ key ∉ rows.map Prod.fst) ∧ rows' = rows ++ [(key, words value)] := by
  unfold statusRow
  cases hcut : cut (asciiBytes ":") line with
  | none => simp
  | some parts =>
    obtain ⟨key, value⟩ := parts
    simp only [bind_eq_ok, require_eq_ok, pure_eq_ok]
    constructor
    · rintro ⟨_, hkey, rfl⟩
      exact ⟨key, value, rfl, hkey, rfl⟩
    · rintro ⟨_, _, heq, hkey, rfl⟩
      obtain ⟨rfl, rfl⟩ := Prod.mk.inj (Option.some.inj heq)
      exact ⟨(), hkey, rfl⟩

/-- What is read of the lines: the keys differ, and every line that was read left its row. -/
theorem statusRow_fold (h : lines.foldlM statusRow [] = .ok rows) :
    (rows.map Prod.fst).Nodup ∧
      ∀ line ∈ lines, ∀ key value, cut (asciiBytes ":") line = some (key, value) → (key, words value) ∈ rows := by
  refine foldlM_history (fun done rows => (rows.map Prod.fst).Nodup ∧
    ∀ line ∈ done, ∀ key value, cut (asciiBytes ":") line = some (key, value) → (key, words value) ∈ rows)
    ⟨List.nodup_nil, by simp⟩ ?_ h
  rintro done rows line rows' ⟨hnodup, hdone⟩ hrow
  obtain ⟨key, value, hcut, ⟨-, hnew⟩, rfl⟩ := statusRow_eq_ok.mp hrow
  constructor
  · rw [List.map_append]
    exact List.Nodup.append hnodup (List.nodup_singleton _) (List.disjoint_singleton.mpr hnew)
  · intro other hother key' value' hcut'
    rcases List.mem_append.mp hother with hother | hother
    · exact List.mem_append_left _ (hdone other hother key' value' hcut')
    · obtain rfl := List.mem_singleton.mp hother
      obtain ⟨rfl, rfl⟩ := Prod.mk.inj (Option.some.inj (hcut.symm.trans hcut'))
      exact List.mem_append_right _ (List.mem_singleton_self _)

theorem lookup_of_row (hnodup : (rows.map Prod.fst).Nodup) {found : List Bytes} (h : (key, found) ∈ rows) :
    rows.lookup key = some found := by
  obtain ⟨before, after, rfl⟩ := List.append_of_mem h
  refine List.lookup_eq_some_iff.mpr ⟨before, after, rfl, fun row hrow => ?_⟩
  rw [List.map_append, List.map_cons, List.nodup_append] at hnodup
  have hne := hnodup.2.2 row.1 (List.mem_map_of_mem hrow) key List.mem_cons_self
  simpa using Ne.symm hne

theorem cut_rowLine {row : Bytes × Bytes} (h : 58 ∉ row.1) : cut (asciiBytes ":") (rowLine row) = some row := by
  have hcolon : asciiBytes ":" = 58 :: [] := by decide
  rw [rowLine, hcolon, List.append_assoc]
  exact cut_mark h row.2

/-- The kernel's own lines stay lines, whatever the name is shown as. -/
theorem rowLine_mem_splitLines (hp : p.WellFormed) {row : Bytes × Bytes} (hrow : row ∈ p.rows) :
    rowLine row ∈ splitLines (p.status shown) := by
  have hclean : ∀ rows : List (Bytes × Bytes), (∀ r ∈ rows, r ∈ p.rows) → ∀ line ∈ rows.map rowLine, Clean line := by
    intro rows hrows line hline
    obtain ⟨r, hr, rfl⟩ := List.mem_map.mp hline
    exact hp.clean r (hrows r hr)
  have hbefore := splitLines_joinLines (hclean p.before fun r hr => List.mem_append_left _ hr)
  have hafter := splitLines_joinLines (hclean p.after fun r hr => List.mem_append_right _ hr)
  rw [splitLines] at hbefore hafter
  rw [Process.status, joinLines_append, joinLines_append, splitLines, splitKeep_append (joinLines_append _ _ ▸ Ended.joinLines _),
    splitKeep_append (Ended.joinLines _), List.map_append, List.map_append, hbefore, hafter]
  rcases List.mem_append.mp hrow with hrow | hrow
  · exact List.mem_append_left _ (List.mem_append_left _ (List.mem_map_of_mem hrow))
  · exact List.mem_append_right _ (List.mem_map_of_mem hrow)

theorem values_of_status (hp : p.WellFormed) (h : statusRows (p.status shown) = .ok rows) {name : String}
    (hname : name ∈ factKeys) : rows.values name = p.values name := by
  unfold statusRows at h
  simp only [bind_eq_ok, require_eq_ok] at h
  obtain ⟨_, -, hfold⟩ := h
  obtain ⟨hnodup, hrows⟩ := statusRow_fold hfold
  obtain ⟨value, hvalue⟩ : ∃ value, p.rows.lookup (asciiBytes name) = some value := by
    refine Option.ne_none_iff_exists'.mp fun hnone => ?_
    obtain ⟨row, hrow, hkey⟩ := List.mem_map.mp (hp.present name hname)
    simpa [hkey] using List.lookup_eq_none_iff.mp hnone row hrow
  have hrow : (asciiBytes name, value) ∈ p.rows := lookup_mem hvalue
  have hread := hrows _ (@rowLine_mem_splitLines p shown hp _ hrow) _ _ (cut_rowLine (hp.keys _ hrow))
  rw [Rows.values, lookup_of_row hnodup hread, Process.values, hvalue]
  rfl

theorem integers_eq_ok {name : String} {minimum maximum count : ℕ} {numbers : List ℕ}
    (h : integers rows name minimum maximum count = .ok numbers) : numbers = (rows.values name).map decimal := by
  unfold integers at h
  simp only [bind_eq_ok, require_eq_ok, pure_eq_ok] at h
  obtain ⟨_, -, _, -, rfl⟩ := h
  rfl

theorem capability_eq_ok {name : String} {set : ℕ} (h : capability rows name = .ok set) :
    set = hexadecimal ((rows.values name).headD []) := by
  unfold capability at h
  simp only [bind_eq_ok, require_eq_ok, pure_eq_ok] at h
  obtain ⟨_, -, rfl⟩ := h
  rfl

theorem capabilities_eq_ok {names : List String} {sets : List ℕ} (h : names.mapM (capability rows) = .ok sets) :
    sets = names.map fun name => hexadecimal ((rows.values name).headD []) := by
  have hsets := mapM_eq_ok.mp h
  clear h
  induction hsets with
  | nil => rfl
  | cons hset _ ih => rw [ih, capability_eq_ok hset, List.map_cons]

/-- The facts are the numbers of `stat` and what stands under the fact keys. -/
theorem readStatus_eq_ok {stat : Stat} {facts : ProcessFacts} (h : readStatus stat rows = .ok facts) :
    facts = ⟨stat.pid, stat.parent, stat.start, stat.threads, (rows.values "Uid").map decimal, (rows.values "Gid").map decimal,
      (rows.values "NSpid").map decimal, (rows.values "Groups").map decimal,
      capabilitySets.map fun name => hexadecimal ((rows.values name).headD []),
      ((rows.values "Seccomp").map decimal).headD 0, ((rows.values "NoNewPrivs").map decimal).headD 0⟩ := by
  unfold readStatus at h
  simp only [bind_eq_ok, require_eq_ok, pure_eq_ok] at h
  obtain ⟨_, -, _, -, _, -, _, -, _, -, _, -, _, -, _, -, _, -, _, -, chain, hchain, _, -, _, -, _, -, groups, hgroups, _, -,
    sets, hsets, uid, huid, gid, hgid, seccomp, hseccomp, privs, hprivs, rfl⟩ := h
  rw [integers_eq_ok hchain, integers_eq_ok hgroups, capabilities_eq_ok hsets, integers_eq_ok huid, integers_eq_ok hgid,
    integers_eq_ok hseccomp, integers_eq_ok hprivs]
  rfl

/-! ## The facts -/

theorem facts_of_procProcessFields (hp : p.WellFormed) {facts : ProcessFacts}
    (h : procProcessFields (p.stat comm) (p.status shown) = .ok facts) : facts = p.facts := by
  unfold procProcessFields at h
  simp only [bind_eq_ok] at h
  obtain ⟨⟨pid, fields⟩, hfields, stat, hstat, rows, hrows, hfacts⟩ := h
  obtain ⟨rfl, rfl⟩ := fields_of_stat hp hfields
  have hvalues : ∀ {name : String}, name ∈ factKeys → rows.values name = p.values name := fun hname =>
    values_of_status hp hrows hname
  have hsets : (capabilitySets.map fun name => hexadecimal ((rows.values name).headD [])) =
      capabilitySets.map fun name => hexadecimal ((p.values name).headD []) := by
    refine List.map_congr_left fun name hname => ?_
    rw [hvalues (List.mem_append_right _ hname)]
  rw [readStatus_eq_ok hfacts, stat_of_readStat hstat, hsets, hvalues (by decide), hvalues (by decide), hvalues (by decide),
    hvalues (by decide), hvalues (by decide), hvalues (by decide)]
  rfl

/-- However the kernel prints a name, the facts accepted are those of the real fields and lines, so that two
processes that differ in their names only are read alike. -/
theorem name_cannot_spoof (p : Process) (hp : p.WellFormed) (print : Bytes → Bytes) :
    (∀ comm facts, procProcessFields (p.stat comm) (p.status (print comm)) = .ok facts → facts = p.facts) ∧
    (∀ comm comm' facts facts', procProcessFields (p.stat comm) (p.status (print comm)) = .ok facts →
      procProcessFields (p.stat comm') (p.status (print comm')) = .ok facts' → facts = facts') := by
  refine ⟨fun comm facts h => facts_of_procProcessFields hp h, fun comm comm' facts facts' h h' => ?_⟩
  rw [facts_of_procProcessFields hp h, facts_of_procProcessFields hp h']

/-- The kernel's escapes in `status`: a line feed and the backslash. -/
def escaped (comm : Bytes) : Bytes :=
  comm.flatMap fun b => if b = lineFeed then [92, 110] else if b = 92 then [92, 92] else [b]

def sampleProcess : Process where
  pid := 42
  fields := (["S", "7"] ++ List.replicate 15 "0" ++ ["1", "0", "900"] ++ List.replicate 30 "0").map asciiBytes
  before := []
  after := [("Tgid", "\t42"), ("Pid", "\t42"), ("PPid", "\t7"), ("TracerPid", "\t0"), ("Uid", "\t5\t5\t5\t5"),
    ("Gid", "\t6\t6\t6\t6"), ("Groups", "\t6 "), ("NStgid", "\t42"), ("NSpid", "\t42"), ("Threads", "\t1"),
    ("CapInh", "\t0000000000000000"), ("CapPrm", "\t0000000000000000"), ("CapEff", "\t0000000000000000"),
    ("CapBnd", "\t0000000000000000"), ("CapAmb", "\t0000000000000000"), ("NoNewPrivs", "\t1"),
    ("Seccomp", "\t2")].map fun row => (asciiBytes row.1, asciiBytes row.2)

def sampleName : Bytes := asciiBytes "a) (b\rLine:c"

/-- A name with a mark and with a line of its own is accepted, and changes nothing. -/
theorem name_cannot_spoof_sample : procProcessFields (sampleProcess.stat sampleName)
    (sampleProcess.status (escaped sampleName)) = .ok sampleProcess.facts := by
  have hp : sampleProcess.WellFormed := by
    refine ⟨by decide, by decide +kernel, by decide +kernel, ?_, by decide +kernel⟩
    unfold Clean
    decide +kernel
  have haccepted : (procProcessFields (sampleProcess.stat sampleName)
      (sampleProcess.status (escaped sampleName))).toOption.isSome := by decide +kernel
  rcases ok_or_error (procProcessFields (sampleProcess.stat sampleName) (sampleProcess.status (escaped sampleName))) with
    ⟨facts, hfacts⟩ | ⟨e, herror⟩
  · rw [hfacts, (name_cannot_spoof sampleProcess hp escaped).1 _ _ hfacts]
  · rw [herror] at haccepted
    cases haccepted

end HarnessConformance.ProxyServer
