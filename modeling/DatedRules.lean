import DatedRules.Main
import DatedRules.Proofs.BeforeFees
import DatedRules.Proofs.CanonicalText
import DatedRules.Proofs.DateForms
import DatedRules.Proofs.DateOptions
import DatedRules.Proofs.Decomposition
import DatedRules.Proofs.Entries
import DatedRules.Proofs.ExitCodes
import DatedRules.Proofs.FactorOrder
import DatedRules.Proofs.Faults
import DatedRules.Proofs.Inventory
import DatedRules.Proofs.Offences
import DatedRules.Proofs.Outline
import DatedRules.Proofs.Presentation
import DatedRules.Proofs.Recorded
import DatedRules.Proofs.ReportJson
import DatedRules.Proofs.ReportText
import DatedRules.Proofs.RoundedTwice
import DatedRules.Proofs.Splitting
import DatedRules.Proofs.Variants
