import AdmissionControl.Json.Printer
import AdmissionControl.Limiter.Nested
import AdmissionControl.Limiter.Waiting
import AdmissionControl.Naming.Document
import AdmissionControl.Proofs.Breaker.History
import AdmissionControl.Proofs.Limiter.Idleness
import AdmissionControl.Proofs.Limiter.Isolation
import AdmissionControl.Proofs.Limiter.OpenBreaker
import AdmissionControl.Proofs.Limiter.Replay
import AdmissionControl.Proofs.Limiter.Timeouts
import AdmissionControl.Proofs.Rule.LeakDues
import AdmissionControl.Proofs.Rule.LimitChange
import AdmissionControl.Proofs.Rule.LimitRaise
import AdmissionControl.Proofs.Rule.QuotaChain
import AdmissionControl.Proofs.Rule.TokenDues
import AdmissionControl.Proofs.Rule.TokenOverflow
import AdmissionControl.Proofs.Rule.Traceless
import AdmissionControl.Proofs.Rule.WindowBound
import AdmissionControl.Proofs.Rule.WindowLog
import AdmissionControl.Proofs.Service.Coherence
import AdmissionControl.Proofs.Service.Endpoints
import AdmissionControl.Proofs.Service.Exclusion
import AdmissionControl.Proofs.Service.Exemption
import AdmissionControl.Proofs.Service.NoLostUpdate
import AdmissionControl.Proofs.Service.Outcomes
import AdmissionControl.Service.Traffic
import AdmissionControl.Settings.Document
import AdmissionControl.Proofs.Service.Updates
import AdmissionControl.Proofs.Service.Answers
import AdmissionControl.Proofs.Settings.Conversion
import AdmissionControl.Proofs.Settings.Orders
import AdmissionControl.Proofs.Json.RoundTrip
import AdmissionControl.Proofs.Json.Doubles
import AdmissionControl.Proofs.Settings.Documents
