import HarnessConformance.LiveSession.Receipt

/-! # Receipts are case records

The receipt validator and the record validator compute a case's status by different code. What the
first accepts, the second accepts with the same status. -/

namespace HarnessConformance.LiveSession
open Lib Lib.Outcome Lib.Lines
open LinuxReadiness (Status Counts reported caseRecord CaseRecord caseRecord_eq_ok caseRecords recordStatuses regression
  readCounts)
set_option autoImplicit false

theorem isObject_iff {v : Json} : isObject v = true ↔ ∃ members, v = .obj members := by
  cases v <;> simp [isObject]

/-- A suite that a receipt may report is a suite that the record may report. -/
theorem regression_of_receipt {name : String} {result baseline : Json} {flag : Bool}
    (h : receiptRegression name result baseline = .ok flag) : ∃ c, regression result = .ok c ∧ c.incomplete = flag := by
  simp only [receiptRegression, bind_eq_ok, item_eq_ok, require_eq_ok, requireDigest_eq_ok, pure_eq_ok, exists_const] at h
  obtain ⟨-, _, hclosed, _, -, _, -, digest, -, _, -, count, -, counts, hcounts, -, _, hdigest, ⟨rfl, -⟩, rfl⟩ := h
  obtain ⟨members, rfl, hkeys⟩ := closed_eq_ok.mp hclosed
  refine ⟨counts, ?_, rfl⟩
  simp only [regression, bind_eq_ok, LinuxReadiness.obj_eq_ok, item_eq_ok, requireDigest_eq_ok]
  exact ⟨members, ⟨rfl, hkeys⟩, _, hdigest, digest, rfl, hcounts⟩

/-- The two ways to compute a status agree. -/
theorem receiptStatus_eq_overall {failed : Bool} {statuses : List Status} {counts : List Counts}
    (h : counts.any Counts.incomplete = failed) : receiptStatus failed statuses = Status.overall (recordStatuses statuses counts) := by
  subst h
  unfold receiptStatus Status.overall recordStatuses
  cases counts.any Counts.incomplete <;> simp

variable [Runtime]

theorem Receipt.caseRecord {s : Session} {request : Request} {t : TimeText} {expected receipt : Json} (hwf : receipt.Wf)
    (h : Receipt s request t expected receipt) : ∃ status : Status, receipt.get? "status" = some (.str status.name) ∧
      caseRecord request.operation receipt = .ok status := by
  obtain ⟨time, htime, -⟩ := h.observedAt
  obtain ⟨output, checks, regressions, statuses, failed, houtput, houtputClosed, hchecks, hregressions, h'⟩ := h.output
  obtain ⟨hchecksClosed, hstatuses, hregressionsClosed, -, hfailed, hstatus, hvalid, hdigest⟩ := h'
  obtain ⟨members, hmembers, hchecksKeys⟩ := closed_eq_ok.mp hchecksClosed
  obtain rfl := Json.obj.inj hmembers
  obtain ⟨members, hmembers, hregressionsKeys⟩ := closed_eq_ok.mp hregressionsClosed
  obtain rfl := Json.obj.inj hmembers
  have hnd : (Json.keys regressions).Nodup := (Json.wf_obj.mp ((hwf.get? houtput).get? hregressions)).1
  -- Every reported suite is read under its name and among the members alike.
  have hread : ∀ m ∈ regressions, ∃ flag ∈ failed, ∃ baseline, receiptRegression m.1 m.2 baseline = .ok flag := by
    intro m hm
    have hname := (hregressionsKeys m.1).mp (List.mem_map_of_mem hm)
    obtain ⟨flag, hflag, result, hresult, baseline, -, hok⟩ := forall₂_mem_left hfailed hname
    rw [show (Json.obj regressions).get? m.1 = some m.2 from Json.lookup_of_mem hnd hm] at hresult
    exact ⟨flag, hflag, baseline, Option.some.inj hresult ▸ hok⟩
  obtain ⟨counts, hcounts⟩ : ∃ counts, List.Forall₂ (fun m c => regression m.2 = .ok c) regressions counts := by
    refine forall₂_of_mem_left fun m hm => ?_
    obtain ⟨flag, -, baseline, hok⟩ := hread m hm
    obtain ⟨c, hc, -⟩ := regression_of_receipt hok
    exact ⟨c, hc⟩
  have hany : counts.any Counts.incomplete = failed.any id := by
    rw [Bool.eq_iff_iff, List.any_eq_true, List.any_eq_true]
    constructor
    · rintro ⟨c, hc, hincomplete⟩
      obtain ⟨m, hm, hcm⟩ := forall₂_mem_right hcounts hc
      obtain ⟨flag, hflag, baseline, hok⟩ := hread m hm
      obtain ⟨c', hc', rfl⟩ := regression_of_receipt hok
      rw [hcm] at hc'
      exact ⟨_, hflag, Except.ok.inj hc' ▸ hincomplete⟩
    · rintro ⟨flag, hflag, htrue⟩
      obtain ⟨name, -, result, hresult, baseline, -, hok⟩ := forall₂_mem_right hfailed hflag
      obtain ⟨c', hc', rfl⟩ := regression_of_receipt hok
      obtain ⟨c, hc, hcm⟩ := forall₂_mem_left hcounts (Json.lookup_mem hresult)
      rw [hc'] at hcm
      exact ⟨c, hc, Except.ok.inj hcm ▸ htrue⟩
  refine ⟨_, hstatus, caseRecord_eq_ok.mpr ⟨h.closed, h.caseId, hstatus, ⟨time, htime⟩, ⟨_, h.runNonce⟩, ⟨_, h.probeDigest⟩,
    ⟨_, h.commandDigest⟩, output, checks, regressions, statuses, counts, houtput, houtputClosed, hchecks, hchecksKeys,
    hstatuses, hregressions, hregressionsKeys, hcounts, hvalid, hdigest, receiptStatus_eq_overall hany⟩⟩

/-- A receipt accepted for a case, by whatever session, request and plan. -/
def ReceiptFor (c : Case) (receipt : Json) : Prop := ∃ value session expectedBinding expectedRequest expectedRegressions now,
  validateReceipt value session expectedBinding expectedRequest expectedRegressions now = .ok receipt ∧
    receipt.get? "caseId" = some (.str c.name)

theorem caseRecord_of_validateReceipt {value session expectedBinding expectedRequest expectedRegressions : Input}
    {now receipt : Json}
    (h : validateReceipt value session expectedBinding expectedRequest expectedRegressions now = .ok receipt) :
    ∃ c status, receipt.get? "caseId" = some (.str (Case.name c)) ∧
      receipt.get? "status" = some (.str (Status.name status)) ∧ caseRecord c receipt = .ok status := by
  obtain ⟨s, -, request, -, hdocument, t, -, expected, -, hreceipt⟩ := validateReceipt_eq_ok.mp h
  obtain ⟨status, hstatus, hrecord⟩ := hreceipt.caseRecord (dataDocument_canonical hdocument).wf
  exact ⟨request.operation, status, hreceipt.caseId, hstatus, hrecord⟩

/-- Every accepted receipt is an entry the signed record may hold under its case, with the same
status; ten of them in the order of the cases are the record's case part. -/
theorem receipts_are_case_records :
    (∀ value session expectedBinding expectedRequest expectedRegressions now receipt,
      validateReceipt value session expectedBinding expectedRequest expectedRegressions now = .ok receipt →
      ∃ c status, receipt.get? "caseId" = some (.str (Case.name c)) ∧
        receipt.get? "status" = some (.str (Status.name status)) ∧ caseRecord c receipt = .ok status) ∧
    ∀ receipts, List.Forall₂ ReceiptFor Case.all receipts → ∃ statuses, caseRecords (.arr receipts) = .ok statuses ∧
      List.Forall₂ (fun receipt status => receipt.get? "status" = some (.str (Status.name status))) receipts statuses := by
  refine ⟨fun _ _ _ _ _ _ _ h => caseRecord_of_validateReceipt h, fun receipts h => ?_⟩
  have hentries : ∀ entry ∈ Case.all.zip receipts, ∃ status : Status,
      entry.2.get? "status" = some (.str status.name) ∧ caseRecord entry.1 entry.2 = .ok status := by
    intro entry hentry
    obtain ⟨value, session, expectedBinding, expectedRequest, expectedRegressions, now, hok, hcase⟩ :=
      List.forall₂_zip h hentry
    obtain ⟨c, status, hc, hstatus, hrecord⟩ := caseRecord_of_validateReceipt hok
    rw [hcase, Option.some.injEq, Json.str.injEq] at hc
    rw [Case.name_injective hc]
    exact ⟨status, hstatus, hrecord⟩
  obtain ⟨statuses, hstatuses⟩ := forall₂_of_mem_left hentries
  have hzip : receipts = (Case.all.zip receipts).map Prod.snd := (List.map_snd_zip h.length_eq.ge).symm
  refine ⟨statuses, ?_, ?_⟩
  · simp only [caseRecords, bind_eq_ok, LinuxReadiness.require_eq_ok, exists_const, mapM_eq_ok]
    exact ⟨h.length_eq.symm, hstatuses.imp fun _ _ hentry => hentry.2⟩
  · rw [hzip, List.forall₂_map_left_iff]
    exact hstatuses.imp fun _ _ hentry => hentry.1

end HarnessConformance.LiveSession
