import HarnessConformance.Admission.Captures

/-! # Captures that follow one another

Captures accepted in turn, each after the one before, keep one identity, and their inspections stand in order. -/

namespace HarnessConformance.Admission
open Lib Lib.Outcome Lib.Lines
set_option autoImplicit false

section
variable [Runtime] [AddressReader]

/-! ## Runs -/

/-- One capture after another, of one identity and under one deadline. -/
structure Continues (a b : Reading) : Prop where
  retained : ∀ key ∈ retainedFields, ∃ v, a.document.get? key = some v ∧ b.document.get? key = some v
  deadline : b.inspection.deadline = a.inspection.deadline
  apart : a.inspection.finished ≤ b.inspection.started
  later : a.inspection.observedAt ≤ b.inspection.observedAt

omit [Runtime] [AddressReader] in
theorem Continues.trans {a b c : Reading} (hab : Continues a b) (hbc : Continues b c)
    (hb : b.inspection.started ≤ b.inspection.finished) : Continues a c where
  retained key hkey := by
    obtain ⟨v, hv, hv'⟩ := hab.retained key hkey
    obtain ⟨w, hw, hw'⟩ := hbc.retained key hkey
    obtain rfl := Option.some.inj (hv'.symm.trans hw)
    exact ⟨v, hv, hw'⟩
  deadline := hbc.deadline.trans hab.deadline
  apart := hab.apart.trans (hb.trans hbc.apart)
  later := hab.later.trans hbc.later

omit [AddressReader] in
/-- A capture that is accepted after another continues it. -/
theorem continues_of_requireRetained {record : Json} {name : String} {w : Json} {c : Input} {a b : Reading} (hw : w.Wf)
    (ha : Accepted record name (.data w) a) (hb : Accepted record name c b) (h : requireRetained b.document w = .ok ()) :
    Continues a b := by
  simp only [requireRetained, bind_eq_ok, intItem_eq_ok, textItem_eq_ok, require_eq_ok] at h
  obtain ⟨⟨⟩, hretained, finished, hfinished, started, hstarted, earlier, hearlier, later, hlater, deadline, hdeadline,
    deadline', hdeadline', hle, horder, rfl⟩ := h
  have hcanon : a.document = w.canon := document_data_wf hw ha.document
  have hfield {k : String} {v : Json} (h : w.get? k = some v) : a.document.get? k = some v.canon := by
    rw [hcanon, Json.get?_canon hw, h, Option.map_some]
  have hint {k : String} {m n : ℤ} (h : w.get? k = some (.int m)) (h' : a.document.get? k = some (.int n)) : m = n :=
    Json.int.inj (Option.some.inj ((hfield h).symm.trans h'))
  refine ⟨fun key hkey => ?_, ?_, ?_, ?_⟩
  · have hturn := forM_eq_ok.mp hretained key hkey
    simp only [bind_eq_ok, item_eq_ok, require_eq_ok] at hturn
    obtain ⟨v, hv, u, hu, heq⟩ := hturn
    have hsettled := ha.qualified.settled.get? (hfield hu)
    have hfree : u.boolFree = true := Json.boolFree_canon u ▸ hsettled.boolFree
    have hvs := hb.qualified.settled.get? hv
    have hsame := canon_eq_of_boolFree hvs.boolFree hfree hvs.wf (hw.get? hu) heq
    rw [hvs.canon] at hsame
    exact ⟨v, hsame ▸ hfield hu, hv⟩
  · have hb' := Json.int.inj (Option.some.inj (hdeadline.symm.trans hb.inspection.deadline))
    exact hb'.symm.trans (hint hdeadline' ha.inspection.deadline)
  · have hstart := Json.int.inj (Option.some.inj (hstarted.symm.trans hb.inspection.started))
    rw [← hint hfinished ha.inspection.finished, ← hstart]
    exact hle
  · obtain ⟨text, htext, htime⟩ := ha.inspection.observedAt
    obtain ⟨text', htext', htime'⟩ := hb.inspection.observedAt
    obtain rfl := Option.some.inj ((hfield hearlier).symm.trans htext)
    obtain rfl := Option.some.inj (hlater.symm.trans htext')
    exact time_mono htime htime' horder

/-- Captures accepted in turn, each after the one before. -/
def AcceptedRun (record profile : Input) (endpoints role : Json) : Option Input → List Input → Prop
  | _, [] => True
  | previous, capture :: captures =>
    validateQualificationCapture record capture profile endpoints role previous = .ok () ∧
      AcceptedRun record profile endpoints role (some capture) captures

/-- The capture has an accepted reading under the record and the role handed over. -/
def ReadAs (record : Input) (role : Json) (capture : Input) (r : Reading) : Prop :=
  ∃ R name, document record 262144 = .ok R ∧ role = .str name ∧ Accepted R name capture r

section
variable {record profile : Input} {endpoints role : Json}

theorem read_of_validate {capture : Input} {previous : Option Input} (hrecord : record.Wf) (hcapture : capture.Wf)
    (h : validateQualificationCapture record capture profile endpoints role previous = .ok ()) :
    ∃ r, ReadAs record role capture r := by
  simp only [validateQualificationCapture, bind_eq_ok] at h
  obtain ⟨documents, hvalidate, -⟩ := h
  obtain ⟨name, r, hrole, hdocument, haccepted, -⟩ := of_validateCapture hrecord hcapture hvalidate
  exact ⟨r, _, name, hdocument, hrole, haccepted⟩

/-- One step of a run: the capture continues the one before. -/
theorem continues_of_validate {capture previous : Input} {a b : Reading} (hrecord : record.Wf) (hcapture : capture.Wf)
    (hprevious : previous.Wf) (ha : ReadAs record role previous a) (hb : ReadAs record role capture b)
    (h : validateQualificationCapture record capture profile endpoints role (some previous) = .ok ()) : Continues a b := by
  simp only [validateQualificationCapture, bind_eq_ok] at h
  obtain ⟨⟨R, c⟩, hvalidate, _, -, h⟩ := h
  obtain ⟨name, r, rfl, hR, hr, hrc⟩ := of_validateCapture hrecord hcapture hvalidate
  obtain ⟨R', name', hR', hname', ha⟩ := ha
  obtain ⟨R'', name'', hR'', hname'', hb⟩ := hb
  obtain rfl := Except.ok.inj (hR.symm.trans hR')
  obtain rfl := Except.ok.inj (hR.symm.trans hR'')
  obtain rfl := Json.str.inj (hname'.symm.trans hname'')
  have hdocument : b.document = c := (Except.ok.inj (hb.document.symm.trans hr.document)).trans hrc
  cases previous with
  | data w => exact continues_of_requireRetained hprevious ha hb (hdocument ▸ h)
  | bytes raw => cases h
  | foreign => cases h

/-- Captures that are accepted one after another keep one identity; their inspections are short, apart and in order, under
one deadline; and each shows the files enrolled for its role. -/
theorem qualification_run {captures : List Input} (hrecord : record.Wf) (hcaptures : ∀ c ∈ captures, c.Wf)
    (h : AcceptedRun record profile endpoints role none captures) :
    ∃ readings, List.Forall₂ (ReadAs record role) captures readings ∧ readings.Pairwise Continues := by
  have hrun : ∀ previous, AcceptedRun record profile endpoints role previous captures →
      ∃ readings, List.Forall₂ (ReadAs record role) captures readings ∧ readings.Pairwise Continues := by
    clear h
    induction captures with
    | nil => exact fun _ _ => ⟨[], .nil, .nil⟩
    | cons c captures ih =>
      rintro previous ⟨hc, hrest⟩
      rw [List.forall_mem_cons] at hcaptures
      obtain ⟨r, hr⟩ := read_of_validate hrecord hcaptures.1 hc
      obtain ⟨readings, hall, hpairs⟩ := ih hcaptures.2 (some c) hrest
      refine ⟨r :: readings, .cons hr hall, List.pairwise_cons.mpr ⟨?_, hpairs⟩⟩
      cases hall with
      | nil => simp
      | @cons d s captures readings hs hrests =>
        have hstep := continues_of_validate hrecord (List.forall_mem_cons.mp hcaptures.2).1 hcaptures.1 hr hs hrest.1
        obtain ⟨_, _, -, -, haccepted⟩ := hs
        refine List.forall_mem_cons.mpr ⟨hstep, fun t ht => ?_⟩
        exact hstep.trans ((List.pairwise_cons.mp hpairs).1 t ht) haccepted.timely.order.1
  exact hrun none h

end

end

namespace SampleCaptures

/-! ### Documents with a digest filled in -/

section
variable {front back : Json.Members} {key : String}

/-- A dictionary that holds a digest between its other members. -/
def filled (front back : Json.Members) (key : String) (d : Digest) : Json := .obj (front ++ (key, .str d.text) :: back)

/-- What is checked once, with the digest of zeros. -/
structure Checked (variant : QualificationVariant) (front back : Json.Members) (key : String) : Prop where
  wf : (filled front back key zero).Wf
  canon : (filled front back key zero).canon = filled front back key zero
  plain : (filled front back key zero).plainWidth.any (· ≤ 262144) = true
  valid : @Valid .ascii (filled front back key zero)
  height : (filled front back key zero).height ≤ 16
  shape : @shapeIn .ascii Pinned.qualificationDefinitions variant.spec (filled front back key zero) = .ok ()

/-- One pass over a closed document. -/
def isChecked (variant : QualificationVariant) (value : Json) : Bool :=
  decide value.Wf && decide (value.canon = value) && value.plainWidth.any (· ≤ 262144) && decide (@Valid .ascii value) &&
    value.height ≤ 16 && decide (@shapeIn .ascii Pinned.qualificationDefinitions variant.spec value = .ok ())

theorem checked_of_isChecked {variant : QualificationVariant} (h : isChecked variant (filled front back key zero) = true) :
    Checked variant front back key := by
  simp only [isChecked, Bool.and_eq_true, decide_eq_true_eq] at h
  obtain ⟨⟨⟨⟨⟨hwf, hcanon⟩, hplain⟩, hvalid⟩, hheight⟩, hshape⟩ := h
  exact ⟨hwf, hcanon, hplain, hvalid, hheight, hshape⟩

theorem isPrintable_plain {text : String} (h : Json.isPlain text = true) : isPrintable text = true := by
  refine List.all_eq_true.mpr fun c hc => ?_
  have hchar := List.all_eq_true.mp h c hc
  simp only [Json.isPlainChar, Bool.and_eq_true, decide_eq_true_eq] at hchar ⊢
  omega

theorem isPrintableAscii_plain {v : Json} (h : v.Plain) : isPrintableAscii v = true := by
  induction v with
  | str text => exact isPrintable_plain h
  | arr items ih =>
    rw [Json.plain_arr] at h
    rw [isPrintableAscii]
    induction items with
    | nil => rfl
    | cons v vs ihs =>
      rw [List.forall_mem_cons] at h ih
      rw [itemsPrintable, ih.1 h.1, ihs ih.2 h.2, Bool.and_self]
  | obj members ih =>
    rw [Json.plain_obj] at h
    rw [isPrintableAscii]
    induction members with
    | nil => rfl
    | cons m ms ihs =>
      rw [List.forall_mem_cons] at h ih
      rw [membersPrintable, isPrintable_plain h.1.1, ih.1 h.1.2, ihs ih.2 h.2, Bool.and_self, Bool.and_self]
  | _ => rfl

/-- Whatever holds of the members one by one holds with another digest. -/
theorem forall_filled {P : String × Json → Prop} (d : Digest) (hdigest : P (key, .str zero.text) → P (key, .str d.text))
    (h : ∀ m ∈ front ++ (key, .str zero.text) :: back, P m) : ∀ m ∈ front ++ (key, .str d.text) :: back, P m := by
  rw [List.forall_mem_append, List.forall_mem_cons] at h ⊢
  exact ⟨h.1, hdigest h.2.1, h.2.2⟩

theorem keys_filled (d : Digest) : Json.keys (front ++ (key, Json.str d.text) :: back) =
    Json.keys (front ++ (key, Json.str zero.text) :: back) := by
  simp [Json.keys]

theorem width_filled (d : Digest) : (filled front back key d).width ≤ (filled front back key zero).width := by
  have hd : Json.textWidth d.text ≤ Json.textWidth zero.text := by
    rw [Json.textWidth_plain d.digest_plain]
    exact d.digest_length
  simp only [filled, Json.width, Json.widthMembers_eq, List.map_append, List.map_cons, List.sum_append, List.sum_cons,
    List.length_append, List.length_cons]
  omega

section
variable {d : Digest} (hnodup : (Json.keys (front ++ (key, Json.str zero.text) :: back)).Nodup)
include hnodup

theorem item_filled {m : String × Json} (h : m ∈ front ++ (key, .str d.text) :: back) :
    item (filled front back key d) m.1 = .ok m.2 :=
  item_eq_ok.mpr (Json.lookup_of_mem (keys_filled d ▸ hnodup) h)

theorem item_outside {k : String} {v : Json} (h : (front ++ back).lookup k = some v) :
    item (filled front back key d) k = .ok v := by
  refine item_filled (m := (k, v)) hnodup ?_
  have hmem := Json.lookup_mem h
  rw [List.mem_append] at hmem ⊢
  exact hmem.imp_right (List.mem_cons_of_mem _)

end

variable {variant : QualificationVariant} (h : Checked variant front back key) (d : Digest)
include h

theorem Checked.wf_filled : (filled front back key d).Wf := by
  obtain ⟨hnodup, hmembers⟩ := Json.wf_obj.mp h.wf
  exact Json.wf_obj.mpr ⟨keys_filled d ▸ hnodup, forall_filled (P := fun m => m.2.Wf) d id hmembers⟩

theorem Checked.canon_filled : (filled front back key d).canon = filled front back key d := by
  obtain ⟨hsorted, hmembers⟩ := (Json.canon_obj_eq_self h.wf).mp h.canon
  refine (Json.canon_obj_eq_self (h.wf_filled d)).mpr ⟨?_,
    forall_filled (P := fun m => m.2.canon = m.2) d (fun _ => rfl) hmembers⟩
  have hkeys : (Json.keys (front ++ (key, Json.str zero.text) :: back)).Pairwise (· ≤ ·) := List.pairwise_map.mpr hsorted
  rw [← keys_filled d] at hkeys
  exact List.pairwise_map.mp hkeys

theorem Checked.valid_filled : @Valid .ascii (filled front back key d) := by
  let _ := Runtime.ascii
  obtain ⟨hdepth, hcount, hmembers⟩ := validAt_obj.mp h.valid
  refine validAt_obj.mpr ⟨hdepth, by simpa using hcount, forall_filled d (fun hzero => ⟨hzero.1, hzero.2.1, ?_⟩) hmembers⟩
  exact validAt_str.mpr ⟨hzero.1, textValid_plain d.digest_plain (d.digest_length.trans (by decide))⟩

theorem Checked.document_filled : @document .ascii (.data (filled front back key d)) 262144 =
    .ok (filled front back key d) := by
  let _ := Runtime.ascii
  have hheight : (filled front back key d).height ≤ 16 := by
    have hzero := Json.heightMembers_le.mp h.height
    exact Json.heightMembers_le.mpr (forall_filled (P := fun m => m.2.height + 1 ≤ 16) d id hzero)
  obtain ⟨n, hn, hle⟩ := (Option.any_eq_true _ _).mp h.plain
  have hwidth := (width_filled d).trans ((Json.plainWidth_eq_some hn).2.trans_le (of_decide_eq_true hle))
  exact (document_data_eq_ok (by decide) (h.wf_filled d)).mpr ⟨h.valid_filled d, hheight, hwidth, (h.canon_filled d).symm⟩

theorem Checked.printable_filled : isPrintableAscii (filled front back key d) = true := by
  obtain ⟨n, hn, -⟩ := (Option.any_eq_true _ _).mp h.plain
  have hplain := Json.plain_obj.mp (Json.plainWidth_eq_some hn).1
  refine isPrintableAscii_plain (Json.plain_obj.mpr (forall_filled d (fun hzero => ⟨hzero.1, ?_⟩) hplain))
  exact d.digest_plain

theorem Checked.qualified {properties : List (String × Spec)} (hspec : variant.spec = .object properties)
    (hkey : properties.lookup key = some Pinned.bareDigest) :
    @qualificationDocument .ascii (.data (filled front back key d)) variant = .ok (filled front back key d) := by
  let _ := Runtime.ascii
  obtain ⟨ρ, hreads⟩ := (asked_qualification variant).exists_reads
  have hdecides := (asked_qualification variant).decides hreads le_rfl
  have hdocument (e : Digest) : IsDocument (filled front back key e) :=
    @isDocument_of_document _ (.data (filled front back key e)) _ _ (h.wf_filled e) le_rfl (h.document_filled e)
  have hzero : (Spec.object properties).Valid ρ (filled front back key zero) :=
    hspec ▸ (hdecides _ (hdocument zero)).2.mp h.shape
  have hvalid : (Spec.object properties).Valid ρ (filled front back key d) := by
    obtain ⟨_, ⟨⟩, hkeys, hmembers⟩ := Spec.valid_object.mp hzero
    refine Spec.valid_object.mpr ⟨_, rfl, fun k => by rw [keys_filled d, hkeys k], ?_⟩
    refine forall_filled (P := fun m => Spec.ValidAt ρ properties m.1 m.2) d (fun _ => ?_) hmembers
    exact (Spec.validAt_lookup hkey).mpr (Spec.valid_string.mpr
      ⟨d.text, rfl, nofun, nofun, fun r hr => Option.some.inj hr ▸ d.valid⟩)
  have hshape : shapeIn Pinned.qualificationDefinitions variant.spec (filled front back key d) = .ok () :=
    (hdecides _ (hdocument d)).2.mpr (hspec ▸ hvalid)
  simp only [qualificationDocument, bind_eq_ok, require_eq_ok, exists_const, pure_eq_ok]
  exact ⟨_, h.document_filled d, h.printable_filled d, (), hshape, rfl⟩

end
/-! ### A capture of a broker -/

/-- Numeric addresses of the fourth version. -/
abbrev ipv4 : AddressReader where
  ipAddress text :=
    let parts := Splitting.split ['.'] text.toList
    let octets := parts.map Json.natOfDigits
    if parts.length = 4 ∧
        (∀ p ∈ parts, p ≠ [] ∧ p.length ≤ 3 ∧ p.all Char.isDigit ∧ (p = ['0'] ∨ p.head? ≠ some '0')) ∧
        ∀ n ∈ octets, n ≤ 255 then
      some ⟨.v4, text, octets.all (· == 0), octets.head?.any fun n => 224 ≤ n && n ≤ 239, false, false⟩
    else none

def one : String := "sha256:" ++ String.ofList (List.replicate 64 '1')

def segment : Json := .obj [("length", .int 4096), ("offset", .int 0), ("permissions", .str "r-xp")]

def file (path : String) : Json :=
  .obj [("executableSegments", .arr [segment]), ("mode", .str "0555"), ("path", .str path), ("selinuxLabel", .str "label"),
    ("sha256", .str zero.text), ("size", .int 4096), ("verityDigest", .str one)]

def python : String := "/opt/planeon/python/3.12.14/bin/python3.12"

def program (hook : String) : Json :=
  .obj [("ifindex", .int 0), ("instructionBytes", .int 8), ("mapIds", .arr []), ("programId", .int 7),
    ("programType", .int (if hook = "INET_SOCK_CREATE" then 9 else 18)), ("translatedSha256", .str zero.text)]

def hooks : List String :=
  ["INET4_BIND", "INET4_CONNECT", "INET6_BIND", "INET6_CONNECT", "INET_SOCK_CREATE", "UDP4_SENDMSG", "UDP6_SENDMSG"]

/-- The fields that a process shares with its role. -/
def cgroup (path : String) : Json :=
  .obj [("cpuPeriodMicros", .int 1000), ("cpuQuotaMicros", .int 1000), ("inode", .int 1), ("memoryMaxBytes", .int 1048576),
    ("path", .str path), ("pidsMax", .int 1)]

def namespaces : Json := .obj [("mnt", .int 1), ("net", .int 1), ("pid", .int 1), ("user", .int 1)]

def role (executable cgroupPath : String) (interpreter : Option String) (user : ℤ) : Json :=
  .obj [("artifactDigest", .str zero.text), ("bpfPrograms", .obj (hooks.map fun hook => (hook, program hook))),
    ("cgroup", cgroup cgroupPath), ("executable", .str executable),
    ("filePaths", .arr ((executable :: interpreter.toList).map .str)), ("gid", .int user),
    ("interpreterPath", interpreter.elim .null .str), ("namespaceInodes", namespaces), ("outboundEndpointIds", .arr []),
    ("processLabel", .str "label"), ("seccompMode", .int 2), ("uid", .int user)]

def broker : String := "/opt/planeon/bin/harness-capacity-broker"

def brokerGroup : String := "/sys/fs/cgroup/planeon-live/capacity-broker"

def roles : Json :=
  .obj [("BROKER", role broker brokerGroup none 0),
    ("OBSERVER", role "/opt/planeon/bin/harness-policy-observer" "/sys/fs/cgroup/planeon-live/policy-observer" none 0),
    ("SERVER", role "/opt/planeon/bin/harness-live-proxy-serve" "/sys/fs/cgroup/planeon-live/proxy-server" (some python) 0),
    ("WORKER", role "/opt/planeon/bin/harness-live-probe-exec" "/sys/fs/cgroup/planeon-live/probe-worker" (some python) 10000)]

def host : Json :=
  .obj [("bootId", .str "00000000-0000-0000-0000-000000000000"), ("kernelNotesDigest", .str zero.text),
    ("kernelRelease", .str "6.12"), ("machine", .str "x86_64")]

def status : Json :=
  .obj [("denyUnknown", .int 1), ("enforcing", .int 1), ("policyload", .int 1), ("sequence", .int 0), ("version", .int 1)]

def paths : List String :=
  [broker, "/opt/planeon/bin/harness-policy-observer", "/opt/planeon/bin/harness-live-proxy-serve",
    "/opt/planeon/bin/harness-live-probe-exec", python]

def before : Json.Members :=
  [("endpointTuples", .arr [.obj [("addressFamily", .str "IPV4"), ("endpointId", .str "proxy"), ("ipAddress", .str "10.0.0.1"),
      ("kind", .str "CAMPAIGN_PROXY"), ("port", .int 8443)]]),
    ("files", .arr (paths.map file)),
    ("host", host)]

def after : Json.Members :=
  [("qualificationProfile", .str "SELINUX_FSVERITY_CGROUP_BPF_V1"), ("roles", roles),
    ("schemaVersion", .str "planeon.internal.native-qualification/v1"),
    ("scope", .obj [("capacityNonce", .str "capacity-1"), ("environmentId", .str "staging"),
      ("expiresAt", .str "2026-01-01T00:10:00Z"), ("namespace", .str "lab"), ("runNonce", .str "run-1"),
      ("tenantId", .str "tenant"), ("validFrom", .str "2026-01-01T00:00:00Z")]),
    ("selinux", .obj [("policyDigest", .str zero.text), ("status", status)])]

def recordOf (d : Digest) : Json := filled before after "profileDigest" d

def endpoints : Json :=
  .arr [.obj [("endpointId", .str "proxy"), ("kind", .str "CAMPAIGN_PROXY"), ("addressFamily", .str "IPV4"),
    ("ipAddress", .str "10.0.0.1"), ("port", .int 8443)]]

/-- An inspection without any length, so that the capture may follow itself. -/
def front : Json.Members :=
  [("bpfPrograms", .obj (hooks.map fun hook =>
      (hook, .obj [("effectiveIds", .arr [.int 7]), ("localIds", .arr [.int 7]), ("program", program hook)]))),
    ("deadlineMs", .int 60000), ("evidenceClass", .str "DATA_CHECK_ONLY"),
    ("executableMaps", .arr [.obj [("device", .int 1), ("inode", .int 2), ("length", .int 4096), ("offset", .int 0),
      ("path", .str broker), ("permissions", .str "r-xp")]]),
    ("files", .arr [.obj [("contentDigest", .str zero.text), ("device", .int 1), ("entry", file broker), ("gid", .int 0),
      ("inode", .int 2), ("measuredVerity", .str one), ("nlink", .int 1), ("uid", .int 0)]]),
    ("host", host), ("inspectionFinishedMs", .int 1000), ("inspectionStartedMs", .int 1000),
    ("kernelPolicyDigest", .str zero.text), ("observedAt", .str "2026-01-01T00:00:01Z"),
    ("process", .obj [("cgroup", cgroup brokerGroup), ("gid", .int 0), ("namespaceInodes", namespaces), ("pid", .int 2),
      ("processLabel", .str "label"), ("seccompMode", .int 2), ("startTicks", .int 1), ("uid", .int 0)])]

def back : Json.Members := [("role", .str "BROKER"), ("selinuxAfter", status), ("selinuxBefore", status)]

def captureOf (d : Digest) : Json := filled front back "qualificationDigest" d

section
variable [Runtime]

/-- The record of the sample profile. -/
def record : Json := recordOf (digestOf SampleProfile.profile.canon)

def capture : Json := captureOf (digestOf record)

end

def keysOf (front back : Json.Members) (key : String) : List String := Json.keys (front ++ (key, .str zero.text) :: back)

theorem keys_nodup : (keysOf before after "profileDigest").Nodup ∧ (keysOf front back "qualificationDigest").Nodup := by
  decide +kernel

section
variable [Runtime]

theorem item_record {k : String} {v : Json} (h : (before ++ after).lookup k = some v) : item record k = .ok v :=
  item_outside keys_nodup.1 h

theorem digest_record : item record "profileDigest" = .ok (.str (digestOf SampleProfile.profile.canon).text) :=
  item_filled keys_nodup.1 (List.mem_append_right _ List.mem_cons_self)

theorem item_capture {k : String} {v : Json} (h : (front ++ back).lookup k = some v) : item capture k = .ok v :=
  item_outside keys_nodup.2 h

theorem digest_capture : item capture "qualificationDigest" = .ok (.str (digestOf record).text) :=
  item_filled keys_nodup.2 (List.mem_append_right _ List.mem_cons_self)

end

/-! ### The checks -/

def inventoried : List (String × Json) := paths.map fun path => (path, file path)

/-- The files of each role. -/
def used : List (List String) :=
  [[broker], ["/opt/planeon/bin/harness-policy-observer"], ["/opt/planeon/bin/harness-live-proxy-serve", python],
    ["/opt/planeon/bin/harness-live-probe-exec", python]]

section
variable [Runtime] [AddressReader]

/-- What is asked of the record. -/
structure RecordChecks : Prop where
  scope : requireRecordScope record SampleProfile.profile.canon = .ok ()
  endpoints : requireEndpoints record SampleProfile.profile.canon endpoints = .ok [.str "proxy"]
  files : requireFiles record = .ok inventoried
  roles : (membersOf roles >>= fun ms => ms.mapM fun m =>
    requireRole SampleProfile.profile.canon inventoried [.str "proxy"] m.1 m.2) = .ok used
  used : sameSet used.flatten (inventoried.map Prod.fst) = true

theorem RecordChecks.accepted (h : RecordChecks) :
    requireRecord record SampleProfile.profile.canon SampleCaptures.endpoints = .ok () := by
  obtain ⟨members, hmembers, hroles⟩ := bind_eq_ok.mp h.roles
  simp only [requireRecord, bind_eq_ok]
  exact ⟨(), h.scope, _, h.endpoints, _, h.files, _, item_record rfl, _, hmembers, _, hroles, require_eq_ok.mpr h.used⟩

end

theorem record_checks : @RecordChecks .ascii ipv4 := by
  refine @RecordChecks.mk .ascii ipv4 ?_ ?_ ?_ ?_ ?_
  · have hdigest : @canonicalDigest .ascii SampleProfile.profile.canon none =
        .ok (@digestOf .ascii SampleProfile.profile.canon) :=
      (@canonicalDigest_none .ascii _ _).mpr ⟨(@validAt_canon .ascii _ _).mpr (@SampleProfile.valid .ascii), rfl⟩
    simp only [requireRecordScope, bind_eq_ok, require_eq_ok]
    refine ⟨_, rfl, _, @item_record .ascii _ _ rfl, _, rfl, _, rfl, _, @digest_record .ascii, _, hdigest, (),
      ⟨pyEq_str.mpr rfl, ?_⟩, _, @item_record .ascii _ _ rfl, _, rfl, _, rfl, rfl⟩
    decide +kernel
  · simp only [requireEndpoints, @item_record .ascii "endpointTuples" _ rfl, ok_bind]
    decide +kernel
  · simp only [requireFiles, @item_record .ascii "files" _ rfl, ok_bind]
    decide +kernel
  · decide +kernel
  · decide +kernel

/-- The entry of the broker. -/
def entry : Json := role broker brokerGroup none 0

/-- The mapping of the only file of the role. -/
def mapping : Json :=
  .obj [("path", .str broker), ("length", .int 4096), ("offset", .int 0), ("permissions", .str "r-xp"), ("device", .int 1),
    ("inode", .int 2)]

section
variable [Runtime]

/-- What is asked of the capture, apart from its binding. -/
structure CaptureChecks : Prop where
  status : requirePolicyStatus record capture = .ok ()
  inspection : requireInspection record capture = .ok ()
  process : requireProcess capture entry = .ok ()
  files : requireObservedFiles record capture entry = .ok [mapping]
  mappings : requireMappings capture [mapping] = .ok ()
  programs : (item capture "bpfPrograms" >>= fun programs => membersOf programs >>= fun ms =>
    ms.forM fun m => requireObservedProgram entry m.1 m.2) = .ok ()
  retained : ∀ key ∈ retainedFields, ((front ++ back).lookup key).any (fun v => pyEq v v) = true

theorem binding_accepted (hvalid : Valid record) : requireCaptureBinding record capture (.str "BROKER") = .ok entry := by
  have hbytes := canonicalBytes_eq_ok.mpr ⟨hvalid, rfl⟩
  simp only [requireCaptureBinding, bind_eq_ok, require_eq_ok]
  exact ⟨_, item_record rfl, _, rfl, _, item_capture rfl, _, digest_capture, _, hbytes, _, item_capture rfl, _, item_record rfl,
    (), ⟨List.mem_cons_self, pyEq_str.mpr rfl, pyEq_str.mpr rfl, pyEq_refl (by decide)⟩, rfl⟩

theorem CaptureChecks.accepted (h : CaptureChecks) (hvalid : Valid record) :
    requireCapture record capture (.str "BROKER") = .ok () := by
  simp only [requireCapture, bind_eq_ok]
  exact ⟨_, binding_accepted hvalid, (), h.status, (), h.inspection, (), h.process, _, h.files, (), h.mappings,
    by simpa only [bind_eq_ok] using h.programs⟩

theorem CaptureChecks.follows (h : CaptureChecks) : requireRetained capture capture = .ok () := by
  simp only [requireRetained, bind_eq_ok, intItem_eq_ok, textItem_eq_ok, require_eq_ok]
  refine ⟨(), forM_eq_ok.mpr fun key hkey => ?_, _, item_eq_ok.mp (item_capture rfl), _, item_eq_ok.mp (item_capture rfl),
    _, item_eq_ok.mp (item_capture rfl), _, item_eq_ok.mp (item_capture rfl), _, item_eq_ok.mp (item_capture rfl),
    _, item_eq_ok.mp (item_capture rfl), le_rfl, le_rfl, rfl⟩
  obtain ⟨v, hv, heq⟩ := (Option.any_eq_true _ _).mp (h.retained key hkey)
  simp only [item_capture hv, ok_bind]
  exact require_eq_ok.mpr heq

end

theorem capture_checks : @CaptureChecks .ascii := by
  refine @CaptureChecks.mk .ascii ?_ ?_ ?_ ?_ ?_ ?_ ?_
  · simp only [requirePolicyStatus, @item_record .ascii "selinux" _ rfl, @item_capture .ascii "selinuxAfter" _ rfl,
      @item_capture .ascii "selinuxBefore" _ rfl, @item_capture .ascii "kernelPolicyDigest" _ rfl]
    decide +kernel
  · simp only [requireInspection, intItem, @item_capture .ascii "inspectionStartedMs" _ rfl,
      @item_capture .ascii "inspectionFinishedMs" _ rfl, @item_capture .ascii "deadlineMs" _ rfl,
      @item_capture .ascii "observedAt" _ rfl, @item_record .ascii "scope" _ rfl]
    decide +kernel
  · simp only [requireProcess, @item_capture .ascii "process" _ rfl]
    decide +kernel
  · simp only [requireObservedFiles, enrolledFiles, @item_record .ascii "files" _ rfl, @item_capture .ascii "files" _ rfl]
    decide +kernel
  · simp only [requireMappings, @item_capture .ascii "executableMaps" _ rfl]
    decide +kernel
  · simp only [@item_capture .ascii "bpfPrograms" _ rfl, ok_bind]
    decide +kernel
  · decide +kernel

theorem checked : Checked .record before after "profileDigest" ∧ Checked .capture front back "qualificationDigest" :=
  ⟨checked_of_isChecked (by decide +kernel), checked_of_isChecked (by decide +kernel)⟩

/-- The record of the sample profile and the capture of its broker are accepted. -/
theorem capture_validated : @validateCapture .ascii ipv4 (.data (@record .ascii)) (.data (@capture .ascii))
    (.data SampleProfile.profile) endpoints (.str "BROKER") = .ok (@record .ascii, @capture .ascii) := by
  simp only [validateCapture, validateQualificationRecord, bind_eq_ok]
  exact ⟨_, ⟨_, checked.1.qualified _ rfl rfl, _, SampleProfile.accepted, (),
      @RecordChecks.accepted .ascii ipv4 record_checks, rfl⟩, _,
    checked.2.qualified _ rfl rfl, (),
    @CaptureChecks.accepted .ascii capture_checks (checked.1.valid_filled _), rfl⟩

theorem validated {previous : Option Input} (h : previous = none ∨ previous = some (.data (@capture .ascii))) :
    @validateQualificationCapture .ascii ipv4 (.data (@record .ascii)) (.data (@capture .ascii)) (.data SampleProfile.profile)
      endpoints (.str "BROKER") previous = .ok () := by
  simp only [validateQualificationCapture, bind_eq_ok]
  refine ⟨_, capture_validated, ?_⟩
  obtain rfl | rfl := h
  · rfl
  · exact bind_eq_ok.mpr ⟨_, capture_validated, @CaptureChecks.follows .ascii capture_checks⟩

end SampleCaptures

open SampleCaptures in
/-- One capture, accepted and then accepted again after itself. -/
theorem qualification_run_sample : let _ := Runtime.ascii; let _ := ipv4
    ∃ readings, List.Forall₂ (ReadAs (.data record) (.str "BROKER")) [.data capture, .data capture] readings ∧
      readings.Pairwise Continues := by
  intro _ _
  have hcapture := checked.2.wf_filled (digestOf record)
  refine @qualification_run _ _ _ (.data SampleProfile.profile) endpoints _ _ (checked.1.wf_filled _) ?_
    ⟨validated (.inl rfl), validated (.inr rfl), trivial⟩
  exact List.forall_mem_cons.mpr ⟨hcapture, List.forall_mem_singleton.mpr hcapture⟩

end HarnessConformance.Admission
