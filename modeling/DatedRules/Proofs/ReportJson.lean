import DatedRules.Proofs.CanonicalText
import DatedRules.Proofs.DecimalText
import DatedRules.Reconciliation.Report

/-!
# What a report in JSON tells

JSON values are equal where their arrays agree item by item and their objects field by field, in
whatever order the fields stand (`Json.Same`).

Every text in a report tells what it is the text of, be it a decimal (`Decimal.toText_injective`), a
date, a kind or a reason. So the fields of an object tell the parts of what it was made of. By
recursion on an explanation the whole tree follows from its JSON (`Node.eq_of_same`), and with it
the result of a run from its report with explanations (`Reconciliation.runJson_same_iff`): facts and
rules have different fields, and nothing that an explanation holds is left out.
-/

namespace DatedRules

namespace Json

/-- Whether two values are equal as JSON. -/
inductive Same : Json → Json → Prop
  | nulls : Same null null
  | strings (text : String) : Same (string text) (string text)
  | arrays {js ks : List Json} (h : List.Forall₂ Same js ks) : Same (array js) (array ks)
  | objects {ms ns : List (String × Json)}
      (h : ∀ name, Option.Rel Same (ms.lookup name) (ns.lookup name)) : Same (object ms) (object ns)

mutual

theorem Same.refl : ∀ j : Json, j.Same j
  | null => .nulls
  | string text => .strings text
  | array js => .arrays (same_items js)
  | object ms => .objects (same_members ms)

theorem same_items : ∀ js : List Json, List.Forall₂ Same js js
  | [] => .nil
  | j :: js => .cons (Same.refl j) (same_items js)

theorem same_members : ∀ (ms : List (String × Json)) (name : String),
    Option.Rel Same (ms.lookup name) (ms.lookup name)
  | [], _ => .none
  | (_, j) :: ms, name => by
    rw [List.lookup_cons]
    split
    · exact .some (Same.refl j)
    · exact same_members ms name

end

theorem same_string_iff {s t : String} : (string s).Same (string t) ↔ s = t := by
  constructor
  · rintro ⟨⟩
    rfl
  · rintro rfl
    exact .refl _

theorem same_array_iff {js ks : List Json} :
    (array js).Same (array ks) ↔ List.Forall₂ Same js ks :=
  ⟨fun h => by cases h; assumption, .arrays⟩

section Fields

variable {ms ns : List (String × Json)}

theorem Same.lookup (h : (object ms).Same (object ns)) (name : String) :
    Option.Rel Same (ms.lookup name) (ns.lookup name) := by
  cases h with
  | objects h => exact h name

theorem Same.field (h : (object ms).Same (object ns)) (name : String) {j k : Json}
    (hj : ms.lookup name = some j) (hk : ns.lookup name = some k) : j.Same k := by
  have hfield := h.lookup name
  rw [hj, hk] at hfield
  cases hfield
  assumption

theorem Same.text (h : (object ms).Same (object ns)) (name : String) {s t : String}
    (hs : ms.lookup name = some (string s)) (ht : ns.lookup name = some (string t)) : s = t :=
  same_string_iff.1 (h.field name hs ht)

theorem Same.exists_field (h : (object ms).Same (object ns)) (name : String) {j : Json}
    (hj : ms.lookup name = some j) : ∃ k, ns.lookup name = some k := by
  have hfield := h.lookup name
  rw [hj] at hfield
  generalize ns.lookup name = k at hfield ⊢
  cases hfield
  exact ⟨_, rfl⟩

end Fields

theorem eq_of_same_map {α : Type} {f : α → Json} (hf : ∀ {a b}, (f a).Same (f b) → a = b)
    {xs ys : List α} (h : (array (xs.map f)).Same (array (ys.map f))) : xs = ys := by
  rw [same_array_iff, List.forall₂_map_left_iff, List.forall₂_map_right_iff] at h
  have heq : List.Forall₂ Eq xs ys := h.imp fun _ _ => hf
  rwa [List.forall₂_eq_eq_eq] at heq

end Json

theorem Reason.name_injective : Function.Injective name := by
  intro a b h
  cases a <;> cases b <;> first | rfl | (revert h; decide)

theorem Stamp.eq_of_toText_eq {s t : Stamp} (h : s.engine = t.engine) (heq : s.toText = t.toText) :
    s = t := by
  obtain ⟨engine, digest⟩ := s
  obtain ⟨engine', digest'⟩ := t
  obtain rfl : engine = engine' := h
  have hchars := congrArg String.toList heq
  simpa [toText, String.toList_inj] using hchars

open Json (same_string_iff eq_of_same_map)

theorem RuleInfo.eq_of_same {a b : RuleInfo} (h : a.toJson.Same b.toJson) : a = b := by
  obtain ⟨validFrom, description, ⟨id, version⟩⟩ := a
  obtain ⟨validFrom', description', ⟨id', version'⟩⟩ := b
  obtain rfl : description = description' := h.text "description" rfl rfl
  obtain rfl : id = id' := h.text "id" rfl rfl
  obtain rfl := Date.toText_injective (h.text "valid_from" rfl rfl)
  obtain rfl : version = version' := h.text "version" rfl rfl
  rfl

theorem Period.eq_of_same {p q : Period} (h : p.toJson.Same q.toJson) : p = q := by
  obtain ⟨start, stop, hp⟩ := p
  obtain ⟨start', stop', hq⟩ := q
  obtain rfl := Date.toText_injective (h.text "from" rfl rfl)
  have hstop := h.field "to" rfl rfl
  rcases stop with _ | d <;> rcases stop' with _ | d'
  · rfl
  · cases hstop
  · cases hstop
  · obtain rfl := Date.toText_injective (same_string_iff.1 hstop)
    rfl

namespace Node

mutual

theorem eq_of_same : ∀ {m n : Node}, m.toJson.Same n.toJson → m = n
  | fact value source description, fact value' source' description', h => by
    obtain rfl : value = value' := h.text "fact" rfl rfl
    obtain rfl : source = source' := h.text "source" rfl rfl
    obtain rfl : description = description' := h.text "description" rfl rfl
    rfl
  | fact value source description, rule info kind value' children, h => by
    obtain ⟨_, hk⟩ := h.exists_field "fact" rfl
    cases hk
  | rule info kind value children, fact value' source description, h => by
    obtain ⟨_, hk⟩ := h.exists_field "rule" rfl
    cases hk
  | rule info kind value children, rule info' kind' value' children', h => by
    obtain rfl := RuleInfo.eq_of_same (h.field "rule" rfl rfl)
    obtain rfl := Kind.name_injective (h.text "kind" rfl rfl)
    obtain rfl : value = value' := h.text "value" rfl rfl
    obtain rfl := all_eq_of_same (Json.same_array_iff.1 (h.field "children" rfl rfl))
    rfl

theorem all_eq_of_same : ∀ {ms ns : List Node},
    List.Forall₂ Json.Same (toJsonAll ms) (toJsonAll ns) → ms = ns
  | [], [], _ => rfl
  | [], n :: ns, h => nomatch h
  | m :: ms, [], h => nomatch h
  | m :: ms, n :: ns, .cons h hs => by
    obtain rfl := eq_of_same h
    obtain rfl := all_eq_of_same hs
    rfl

end

end Node

theorem Evaluated.eq_of_toNode_eq {τ : ValueType} {x y : Evaluated τ} (hvalue : x.value = y.value)
    (h : x.toNode = y.toNode) : x = y := by
  obtain ⟨value, rule, kind, children⟩ := x
  obtain ⟨value', rule', kind', children'⟩ := y
  obtain ⟨rfl, rfl, -, rfl⟩ := Node.rule.inj h
  obtain rfl : value = value' := hvalue
  rfl

namespace Reconciliation

theorem OutcomeKind.name_injective : Function.Injective name := by
  intro a b h
  cases a <;> cases b <;> first | rfl | (revert h; decide)

theorem eq_of_same_resultJson {x y : PeriodResult outcome}
    (h : (resultJson true x).Same (resultJson true y)) : x = y := by
  obtain ⟨period, result⟩ := x
  obtain ⟨period', result'⟩ := y
  obtain rfl := Period.eq_of_same (h.field "period" rfl rfl)
  have hdifference := Decimal.toText_injective (h.text "differanse" rfl rfl)
  have hkind := OutcomeKind.name_injective (h.text "outcome" rfl rfl)
  have hvalue : result.value = result'.value := by
    rcases hv : result.value with ⟨k, d⟩
    rcases hv' : result'.value with ⟨k', d'⟩
    simp_all
  obtain rfl := Evaluated.eq_of_toNode_eq hvalue (Node.eq_of_same (h.field "explanation" rfl rfl))
  rfl

theorem eq_of_same_offenceJson {a b : Offence} (h : (offenceJson a).Same (offenceJson b)) :
    a = b := by
  obtain ⟨rule, reason, periods⟩ := a
  obtain ⟨rule', reason', periods'⟩ := b
  obtain rfl := RuleInfo.eq_of_same (h.field "rule" rfl rfl)
  obtain rfl := Reason.name_injective (h.text "reason" rfl rfl)
  obtain rfl := eq_of_same_map Period.eq_of_same (h.field "periods" rfl rfl)
  rfl

theorem eq_of_same_runJson {r₁ r₂ : RunResult outcome} (hengine : r₁.stamp.engine = r₂.stamp.engine)
    (h : (runJson true r₁).Same (runJson true r₂)) : r₁ = r₂ := by
  match r₁, r₂ with
  | .success results stamp, .success results' stamp' =>
    obtain rfl := eq_of_same_map eq_of_same_resultJson (h.field "results" rfl rfl)
    obtain rfl := Stamp.eq_of_toText_eq hengine (h.text "engine_version" rfl rfl)
    rfl
  | .success results stamp, .invalid findings =>
    exact absurd (h.text "status" rfl rfl) (by decide)
  | .invalid findings, .success results stamp =>
    exact absurd (h.text "status" rfl rfl) (by decide)
  | .invalid ⟨offences, stamp⟩, .invalid ⟨offences', stamp'⟩ =>
    obtain rfl := eq_of_same_map eq_of_same_offenceJson (h.field "offending_rules" rfl rfl)
    obtain rfl := Stamp.eq_of_toText_eq hengine (h.text "engine_version" rfl rfl)
    rfl

/-- The results of one engine are equal if their reports with explanations are, and so are
explanations of any shape if their JSON is. -/
theorem runJson_same_iff {r₁ r₂ : RunResult outcome} (h : r₁.stamp.engine = r₂.stamp.engine) :
    ((runJson true r₁).Same (runJson true r₂) ↔ r₁ = r₂) ∧
      ∀ m n : Node, m.toJson.Same n.toJson ↔ m = n :=
  ⟨⟨eq_of_same_runJson h, fun heq => heq ▸ .refl _⟩,
    fun _ _ => ⟨Node.eq_of_same, fun heq => heq ▸ .refl _⟩⟩

/-- A success whose explanation is a fact from a source. -/
def successFrom (source : String) : RunResult outcome :=
  .success [⟨.openFrom (dayOf 2025 1 1), ⟨⟨.ingenEndring, .zero⟩, rule.info, .combine,
    [.rule differenceRule.info .combine "0" [.fact "0" source "utbetalt"]]⟩⟩] rule.stamp

/-- Where only the source of a fact differs, only the reports with explanations do. -/
theorem runJson_same_iff_successFrom :
    (successFrom "register").stamp.engine = (successFrom "melding").stamp.engine ∧
      runJson false (successFrom "register") = runJson false (successFrom "melding") ∧
      ¬ (runJson true (successFrom "register")).Same (runJson true (successFrom "melding")) := by
  have hengine : (successFrom "register").stamp.engine = (successFrom "melding").stamp.engine := rfl
  refine ⟨hengine, rfl, fun h => ?_⟩
  have heq := (runJson_same_iff hengine).1.1 h
  simp [successFrom] at heq

end Reconciliation

end DatedRules
