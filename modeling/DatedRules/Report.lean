import DatedRules.Json.Value
import DatedRules.Run

/-!
# JSON of periods, rules and explanations

The fields of every object stand in the order of their names.
-/

namespace DatedRules

/-- A period as its two ends, the second null where there is none. -/
def Period.toJson (p : Period) : Json :=
  .object [
    ("from", .string p.start.toText),
    ("to", match p.stop with | some d => .string d.toText | none => .null)]

def RuleInfo.toJson (info : RuleInfo) : Json :=
  .object [
    ("description", .string info.description),
    ("id", .string info.reference.id),
    ("valid_from", .string info.validFrom.toText),
    ("version", .string info.reference.version)]

namespace Node

mutual

/-- An explanation, rule by rule down to the facts. -/
def toJson : Node → Json
  | fact value source description =>
    .object [
      ("description", .string description),
      ("fact", .string value),
      ("source", .string source)]
  | rule info kind value children =>
    .object [
      ("children", .array (toJsonAll children)),
      ("kind", .string kind.name),
      ("rule", info.toJson),
      ("value", .string value)]

def toJsonAll : List Node → List Json
  | [] => []
  | n :: ns => toJson n :: toJsonAll ns

end

end Node

end DatedRules
