import ModelScale.Main
import ModelScale.Proofs.Command.Failed
import ModelScale.Proofs.Command.History
import ModelScale.Proofs.Command.Repeated
import ModelScale.Proofs.Comment.Reader
import ModelScale.Proofs.Decimal.Quotient
import ModelScale.Proofs.Qc.Inert
import ModelScale.Proofs.Qc.Reread
import ModelScale.Proofs.Qc.Suffix
import ModelScale.Proofs.Vrd.Captured
import ModelScale.Proofs.Vrd.Gaps
import ModelScale.Proofs.Vrd.Commented
import ModelScale.Proofs.Document.RoundTrip
import ModelScale.Proofs.Decimal.Canonical
import ModelScale.Proofs.Decimal.Overflow
import ModelScale.Proofs.Document.Convention
import ModelScale.Proofs.Qc.Recoverable
import ModelScale.Proofs.Vrd.Rebuilt
import ModelScale.Proofs.Decimal.Monotone
import ModelScale.Proofs.Report.Agreement
import ModelScale.Proofs.Faults
import ModelScale.Proofs.Vrd.Pattern
