import DatedRules.Proofs.DateText
import DatedRules.Proofs.Pointwise

/-!
# What a canonical text tells

The nodes of a graph in preorder, each with its depth, determine the graph
(`Graph.preorder_injective`): the children of a node end where a node follows that is not deeper
than it. The line of a node determines the node and where the line ends, provided that its
identifier and version have no `|`, which ends them, and its description has no line feed
(`Graph.Visit.line_append_inj`). So graphs of such nodes have different canonical texts
(`Graph.canonicalText_inj`), and the stamp tells them apart.

Nothing keeps `|` out of an identifier or a version, and where it is in one the canonical text may
be that of another graph (`Graph.canonicalText_mistaken`).
-/

namespace DatedRules

namespace Graph

/-- Whether the first of the nodes, if there is one, stands above a depth. -/
def BeginsAbove (k : Nat) (us : List Visit) : Prop := ∀ v ∈ us.head?, v.depth < k

theorem beginsAbove_visitsAll {k : Nat} {us : List Visit} (h : BeginsAbove k us) :
    ∀ gs : List Graph, BeginsAbove (k + 1) (visitsAll k gs ++ us)
  | [] => fun v hv => Nat.lt_succ_of_lt (h v hv)
  | node info kind children :: gs => by
    intro v hv
    simp only [visitsAll, visits, List.cons_append, List.head?_cons, Option.mem_some_iff] at hv
    subst hv
    exact Nat.lt_succ_self k

mutual

theorem visits_append_inj {k : Nat} : ∀ {g h : Graph} {us vs : List Visit}, BeginsAbove (k + 1) us →
    BeginsAbove (k + 1) vs → visits k g ++ us = visits k h ++ vs → g = h ∧ us = vs
  | node info kind children, node info' kind' children', us, vs, hus, hvs, h => by
    simp only [visits, List.cons_append, List.cons.injEq, Visit.mk.injEq] at h
    obtain ⟨⟨-, rfl, rfl⟩, h⟩ := h
    obtain ⟨rfl, hrest⟩ := visitsAll_append_inj hus hvs h
    exact ⟨rfl, hrest⟩

theorem visitsAll_append_inj {k : Nat} : ∀ {gs hs : List Graph} {us vs : List Visit},
    BeginsAbove k us → BeginsAbove k vs → visitsAll k gs ++ us = visitsAll k hs ++ vs →
      gs = hs ∧ us = vs
  | [], [], _, _, _, _, h => ⟨rfl, h⟩
  | [], node info kind children :: hs, us, vs, hus, _, h => by
    rw [visitsAll, List.nil_append] at h
    exact absurd (hus ⟨k, info, kind⟩ (h ▸ rfl)) (Nat.lt_irrefl k)
  | node info kind children :: gs, [], us, vs, _, hvs, h => by
    rw [eq_comm, visitsAll, List.nil_append] at h
    exact absurd (hvs ⟨k, info, kind⟩ (h ▸ rfl)) (Nat.lt_irrefl k)
  | g :: gs, h :: hs, us, vs, hus, hvs, heq => by
    simp only [visitsAll, List.append_assoc] at heq
    obtain ⟨rfl, htail⟩ :=
      visits_append_inj (beginsAbove_visitsAll hus gs) (beginsAbove_visitsAll hvs hs) heq
    obtain ⟨rfl, hrest⟩ := visitsAll_append_inj hus hvs htail
    exact ⟨rfl, hrest⟩

end

theorem preorder_injective : Function.Injective preorder := by
  intro g h heq
  have hnil : BeginsAbove 1 [] := fun v hv => nomatch hv
  have heq' : visits 0 g ++ [] = visits 0 h ++ [] := by simpa [preorder] using heq
  exact (visits_append_inj hnil hnil heq').1

end Graph

/-- Whether nothing in a rule's information can be taken for the end of a field or of a line. -/
structure RuleInfo.Plain (info : RuleInfo) : Prop where
  id : '|' ∉ info.reference.id.toList
  version : '|' ∉ info.reference.version.toList
  description : '\n' ∉ info.description.toList

instance (info : RuleInfo) : Decidable info.Plain :=
  decidable_of_iff ('|' ∉ info.reference.id.toList ∧ '|' ∉ info.reference.version.toList ∧
      '\n' ∉ info.description.toList)
    ⟨fun h => ⟨h.1, h.2.1, h.2.2⟩, fun h => ⟨h.id, h.version, h.description⟩⟩

theorem Kind.name_injective : Function.Injective Kind.name := by
  intro a b h
  cases a <;> cases b <;> first | rfl | (revert h; decide)

theorem Kind.bar_not_mem_name (kind : Kind) : '|' ∉ kind.name.toList := by
  cases kind <;> decide

theorem Date.bar_not_mem_chars (d : Date) : '|' ∉ d.chars := by
  intro h
  rcases Date.mem_chars h with h | h <;> revert h <;> decide

open Reconciliation (about dayOf)

namespace Graph

theorem bar_not_mem_digits (n : Nat) : '|' ∉ Text.digits n := by
  intro h
  have := Text.isDigit_of_mem_digits h
  revert this
  decide

theorem digits_injective : Function.Injective Text.digits := by
  intro m n h
  rw [← Nat.ofDigitChars_ten_toDigits (n := m), ← Nat.ofDigitChars_ten_toDigits (n := n)]
  exact congrArg (Nat.ofDigitChars 10 · 0) h

theorem toList_line (v : Visit) : v.line.toList =
    Text.digits v.depth ++ '|' :: (v.kind.name.toList ++ '|' :: (v.info.reference.id.toList ++
      '|' :: (v.info.reference.version.toList ++ '|' :: (v.info.validFrom.chars ++
        '|' :: (v.info.description.toList ++ ['\n']))))) := by
  simp [Visit.line, Date.toText, Text.digits]

/-- A line tells its node and where it ends. -/
theorem Visit.line_append_inj {v w : Visit} (hv : v.info.Plain) (hw : w.info.Plain)
    {us vs : List Char} (h : v.line.toList ++ us = w.line.toList ++ vs) : v = w ∧ us = vs := by
  simp only [toList_line, List.append_assoc, List.cons_append, List.nil_append] at h
  obtain ⟨hdepth, h⟩ := append_cons_inj (bar_not_mem_digits _) (bar_not_mem_digits _) h
  obtain ⟨hkind, h⟩ := append_cons_inj (Kind.bar_not_mem_name _) (Kind.bar_not_mem_name _) h
  obtain ⟨hid, h⟩ := append_cons_inj hv.id hw.id h
  obtain ⟨hversion, h⟩ := append_cons_inj hv.version hw.version h
  obtain ⟨hdate, h⟩ := append_cons_inj (Date.bar_not_mem_chars _) (Date.bar_not_mem_chars _) h
  obtain ⟨hdescription, hrest⟩ := append_cons_inj hv.description hw.description h
  refine ⟨?_, hrest⟩
  obtain ⟨depth, ⟨validFrom, description, ⟨id, version⟩⟩, kind⟩ := v
  obtain rfl := digits_injective hdepth
  obtain rfl := Kind.name_injective (String.toList_inj.1 hkind)
  obtain rfl := String.toList_inj.1 hid
  obtain rfl := String.toList_inj.1 hversion
  obtain rfl := Date.chars_injective hdate
  obtain rfl := String.toList_inj.1 hdescription
  rfl

theorem line_ne_nil (v : Visit) : v.line.toList ≠ [] := by
  rw [toList_line]
  simp

theorem eq_of_lines_eq {us vs : List Visit} (hus : ∀ v ∈ us, v.info.Plain)
    (hvs : ∀ v ∈ vs, v.info.Plain)
    (h : us.flatMap (·.line.toList) = vs.flatMap (·.line.toList)) : us = vs := by
  induction us generalizing vs with
  | nil =>
    rcases vs with _ | ⟨v, vs⟩
    · rfl
    · rw [List.flatMap_nil, eq_comm, List.flatMap_cons, List.append_eq_nil_iff] at h
      exact absurd h.1 (line_ne_nil v)
  | cons u us ih =>
    rw [List.flatMap_cons] at h
    rcases vs with _ | ⟨v, vs⟩
    · rw [List.flatMap_nil, List.append_eq_nil_iff] at h
      exact absurd h.1 (line_ne_nil u)
    · rw [List.flatMap_cons] at h
      rw [List.forall_mem_cons] at hus hvs
      obtain ⟨rfl, htail⟩ := Visit.line_append_inj hus.1 hvs.1 h
      rw [ih hus.2 hvs.2 htail]

/-- Whether the information on every rule of a graph is plain. -/
def Plain (g : Graph) : Prop := ∀ v ∈ g.preorder, v.info.Plain

instance (g : Graph) : Decidable g.Plain :=
  inferInstanceAs (Decidable (∀ v ∈ g.preorder, v.info.Plain))

/-- Plain graphs with one canonical text are one graph: they agree in shape and order, and at every
node in kind, identifier, version, first day of validity and description. -/
theorem canonicalText_inj {g h : Graph} (hg : g.Plain) (hh : h.Plain) :
    g.canonicalText = h.canonicalText ↔ g = h := by
  refine ⟨fun heq => ?_, congrArg canonicalText⟩
  have hlines := congrArg String.toList heq
  simp only [canonicalText, String.toList_join, List.flatMap_map] at hlines
  exact preorder_injective (eq_of_lines_eq hg hh hlines)

/-- The nodes of `SUM`, `A` and `B`, the last a child of the first or of the second. -/
def sumGraph (nested : Bool) : Graph :=
  let a := node (about "A" "Ledd") .combine
  let b := node (about "B" "Ledd") .constant []
  node (about "SUM" "Sum") .combine (if nested then [a [b]] else [a [], b])

theorem canonicalText_inj_sumGraph : (sumGraph true).Plain ∧ (sumGraph false).Plain ∧
    (sumGraph true).canonicalText ≠ (sumGraph false).canonicalText := by
  have htrue : (sumGraph true).Plain := by decide
  have hfalse : (sumGraph false).Plain := by decide
  refine ⟨htrue, hfalse, fun h => ?_⟩
  have hchildren := congrArg (·.children.length) ((canonicalText_inj htrue hfalse).1 h)
  exact absurd hchildren (by decide)

/-- A rule whose description begins with a day, and one whose version ends with a day. -/
def januaryRates : Graph :=
  node ⟨dayOf 2024 1 1, "2024-06-01|Satser", ⟨"SATS", "1"⟩⟩ .constant []

def juneRates : Graph :=
  node ⟨dayOf 2024 6 1, "Satser", ⟨"SATS", "1|2024-01-01"⟩⟩ .constant []

/-- Rules that are valid from different days have one canonical text where a version has a `|`. -/
theorem canonicalText_mistaken : januaryRates.canonicalText = juneRates.canonicalText ∧
    januaryRates.info.validFrom ≠ juneRates.info.validFrom ∧
    januaryRates.info.reference ≠ juneRates.info.reference := by
  decide

end Graph

end DatedRules
