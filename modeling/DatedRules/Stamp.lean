import DatedRules.Digest.Sha256
import DatedRules.Rule.Graph

/-!
# Stamps

A stamp says which engine and which rule definitions a result was obtained with: the name of the
engine and the SHA-256 digest of the graph's canonical text. Combining functions are not part of it;
whoever changes one gives the rule a new version.
-/

namespace DatedRules

/-- The engine and a digest of the rules. -/
structure Stamp where
  engine : String
  digest : String
deriving DecidableEq

namespace Stamp

/-- Name and release of this engine. -/
def engineName : String := "regel-engine/0.1.0"

/-- The stamp of a rule graph. -/
def of (g : Graph) : Stamp := ⟨engineName, Sha256.hexDigest g.canonicalText⟩

def toText (s : Stamp) : String := s.engine ++ "+sha256:" ++ s.digest

end Stamp

end DatedRules
