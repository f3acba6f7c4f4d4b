import DatedRules.Calendar.Date
import DatedRules.Text.Quoted

/-!
# What a rule is called

Every rule carries a `RuleInfo`: a reference of identifier and version, the date from which it is
valid, and a description. `Kind` tells how a rule arrives at its value.
-/

namespace DatedRules

/-- A rule's identifier and version. -/
structure Reference where
  id : String
  version : String
deriving DecidableEq

namespace Reference

def toText (r : Reference) : String := r.id ++ "@" ++ r.version

/-- The order of references: by identifier, then by version. -/
def precedes (r s : Reference) : Bool :=
  r.id < s.id || (r.id == s.id && r.version ≤ s.version)

end Reference

/-- The description of a rule for readers and for audits. -/
structure RuleInfo where
  validFrom : Date
  description : String
  reference : Reference
deriving DecidableEq

/-- How a rule arrives at its value. -/
inductive Kind
  | constant
  | extract
  | extractAt
  | combine
  | multiply
  | latestValidVariant
deriving DecidableEq

namespace Kind

/-- The kind as explanations and canonical texts have it. -/
def name : Kind → String
  | constant => "constant"
  | extract => "extract"
  | extractAt => "extract_at"
  | combine => "combine"
  | multiply => "multiply"
  | latestValidVariant => "latest_valid_variant"

/-- The kind as the short form of a rule has it. -/
def title : Kind → String
  | constant => "Constant"
  | extract => "Extract"
  | extractAt => "ExtractAt"
  | combine => "Combine"
  | multiply => "Multiply"
  | latestValidVariant => "LatestValidVariant"

end Kind

/-- The short form of a rule. -/
def RuleInfo.summary (info : RuleInfo) (kind : Kind) : String :=
  "Rule \x7b kind: " ++ kind.title ++
    ", reference: RuleReference \x7b id: " ++ Text.quoted info.reference.id ++
    ", version: " ++ Text.quoted info.reference.version ++
    " \x7d, valid_from: " ++ info.validFrom.toText ++ " \x7d"

end DatedRules
