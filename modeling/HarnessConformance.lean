import HarnessConformance.Lib.Outcome
import HarnessConformance.Lib.Lines
import HarnessConformance.Lib.Regex
import HarnessConformance.Lib.JsonText
import HarnessConformance.Lib.JsonRoundTrip
import HarnessConformance.Lib.JsonSame
import HarnessConformance.Lib.Utf8
import HarnessConformance.Lib.JsonSize
import HarnessConformance.Lib.Sha256
import HarnessConformance.Lib.HashChain
import HarnessConformance.Lib.AppendLog
import HarnessConformance.Lib.LittleEndian
import HarnessConformance.Lib.Base64
import HarnessConformance.Lib.Primality
import HarnessConformance.Lib.Edwards
import HarnessConformance.Lib.Replay
import HarnessConformance.Lib.Script
import HarnessConformance.Python
import HarnessConformance.Equality
import HarnessConformance.Canonical
import HarnessConformance.CanonicalEncoding
import HarnessConformance.Schema
import HarnessConformance.LinuxReadiness
import HarnessConformance.LiveSession
import HarnessConformance.PlainData
import HarnessConformance.ReplayStore.Journal
import HarnessConformance.ReplayStore.Bytes
import HarnessConformance.ReplayStore.Custody
import HarnessConformance.Lib.Traversal
import HarnessConformance.Admission.Document
import HarnessConformance.Admission.Boundary
import HarnessConformance.Lib.Der
import HarnessConformance.Lib.Bpf
import HarnessConformance.Lib.Splitting
import HarnessConformance.Lib.IpAddress
import HarnessConformance.ProxyClient.Der
import HarnessConformance.ProxyClient.Http
import HarnessConformance.ProxyClient.Framing
import HarnessConformance.LinuxBoundary.Seccomp
import HarnessConformance.Lib.Pages
import HarnessConformance.ProxyServer.Elf
import HarnessConformance.ProxyServer.CodePages
import HarnessConformance.ProxyServer.Enrolment
import HarnessConformance.ProxyServer.ProcessFields
import HarnessConformance.ProxyServer.ProcessName
import HarnessConformance.ProxyServer.CodeMaps
import HarnessConformance.ProxyServer.MappedCode
import HarnessConformance.Lib.JsonLoads
import HarnessConformance.ModelEndpoint.Guard
import HarnessConformance.ModelEndpoint.Admitted
import HarnessConformance.ModelEndpoint.Events
import HarnessConformance.ModelEndpoint.EventStream
import HarnessConformance.Admission.Fields
import HarnessConformance.Admission.Cleanup
import HarnessConformance.Admission.Remaining
import HarnessConformance.Admission.Ledger
import HarnessConformance.Admission.Rows
import HarnessConformance.Admission.Reader
import HarnessConformance.Admission.Bytes
import HarnessConformance.Admission.Life
import HarnessConformance.Admission.Capacity
import HarnessConformance.Admission.CreateOnce
import HarnessConformance.LiveSession.Session
import HarnessConformance.LiveSession.Receipt
import HarnessConformance.LiveSession.Refinement
import HarnessConformance.LiveSession.Completion
import HarnessConformance.LinuxReadiness.Plan
import HarnessConformance.LinuxReadiness.CaseRecord
import HarnessConformance.LinuxReadiness.Probe
import HarnessConformance.Supervisor.Lifecycle
import HarnessConformance.Supervisor.History
import HarnessConformance.Supervisor.Safety
import HarnessConformance.Supervisor.Agreement
import HarnessConformance.Lib.Shape
import HarnessConformance.Admission.Shape
import HarnessConformance.Admission.Profile
import HarnessConformance.Admission.Observation
import HarnessConformance.Admission.Broker
import HarnessConformance.Admission.Transcript
import HarnessConformance.Admission.Snapshot
import HarnessConformance.Admission.Observer
import HarnessConformance.Lib.JsonSchema
import HarnessConformance.Admission.Specification
import HarnessConformance.Admission.Pinned
import HarnessConformance.Admission.LeastPrivilege
import HarnessConformance.Crypto.Payload
import HarnessConformance.Crypto.Ed25519
import HarnessConformance.Crypto.Field
import HarnessConformance.Crypto.Decode
import HarnessConformance.Crypto.Group
import HarnessConformance.Crypto.Completeness
import HarnessConformance.Crypto.Base64Url
import HarnessConformance.Coordination.Board
import HarnessConformance.Coordination.Step
import HarnessConformance.Coordination.Safety
import HarnessConformance.Coordination.Answers
import HarnessConformance.Coordination.Verdicts
import HarnessConformance.Coordination.Improvement
import HarnessConformance.Coordination.Gateway
import HarnessConformance.Campaign.IsoTime
import HarnessConformance.Campaign.Validators
import HarnessConformance.Campaign.Assertions
import HarnessConformance.Campaign.Run
import HarnessConformance.Campaign.Overall
import HarnessConformance.Campaign.Refusals
import HarnessConformance.Campaign.Static
import HarnessConformance.Campaign.Containment
import HarnessConformance.Campaign.Report
import HarnessConformance.Campaign.Evidence
import HarnessConformance.Campaign.Verification
import HarnessConformance.Campaign.Instants
import HarnessConformance.Campaign.RoundTrip
import HarnessConformance.Admission.Chronology
import HarnessConformance.Admission.Qualification
import HarnessConformance.Admission.Captures
import HarnessConformance.Admission.CaptureRun
import HarnessConformance.Admission.CreateRecord
import HarnessConformance.Admission.Log
import HarnessConformance.Admission.LogRuns
import HarnessConformance.Admission.Conversation
import HarnessConformance.Admission.Lockstep
import HarnessConformance.Admission.CleanupRules
import HarnessConformance.Enforcement.Codec
