import DatedRules.Proofs.DateText
import DatedRules.Reconciliation.Library
import DatedRules.Text.Lines
import Mathlib.Algebra.GroupWithZero.Nat
import Mathlib.Data.List.TakeWhile

/-!
# The outline of an explanation

The text of an explanation has a line for each node, indented by its depth. Apart from what the
nodes say, there is the outline of the tree, and depths in preorder are enough to tell it: read from
the last one back, each node takes what stands deeper and follows it directly
(`Outline.forest_visits`).

The text is taken apart at its line feeds (`Text.lines_join`). Line feeds in what the nodes say make
for as many more lines (`Evaluated.length_lines_toText`), and these look like nodes
(`Evaluated.toText_brokenSource`). Where there are none, the text has exactly the lines of the
nodes, and if no description begins with a space its outline is that of the tree
(`Evaluated.toText_outline`).
-/

namespace DatedRules

/-- The shape of a tree. -/
inductive Outline
  | node (below : List Outline)

namespace Outline

/-- The trees whose nodes have these depths in preorder, each with the depth of its root. -/
def forest : List ℕ → List (ℕ × Outline)
  | [] => []
  | d :: ds =>
    (d, node (((forest ds).takeWhile fun t => d < t.1).map (·.2))) ::
      (forest ds).dropWhile fun t => d < t.1

def ofDepths? (depths : List ℕ) : Option Outline := (forest depths).head?.map (·.2)

/-- Whether the first of the depths, if there is one, is no deeper than `k`. -/
def BeginsBy (k : ℕ) (ds : List ℕ) : Prop := ∀ d ∈ ds.head?, d ≤ k

variable {k : ℕ} {ds : List ℕ}

theorem not_deeper_of_beginsBy (h : BeginsBy k ds) :
    (forest ds).takeWhile (fun t => k < t.1) = [] ∧
      (forest ds).dropWhile (fun t => k < t.1) = forest ds := by
  cases ds with
  | nil => exact ⟨rfl, rfl⟩
  | cons d ds =>
    have hd : ¬ k < d := not_lt.2 (h d rfl)
    simp [forest, hd]

/-- A node takes the trees that stand directly below it and leaves what does not begin deeper. -/
theorem forest_cons (ts : List Outline) {us : List ℕ} (h : BeginsBy k ds)
    (hus : forest us = ts.map (k + 1, ·) ++ forest ds) :
    forest (k :: us) = (k, node ts) :: forest ds := by
  obtain ⟨htake, hdrop⟩ := not_deeper_of_beginsBy h
  have hts : ∀ t ∈ ts.map (k + 1, ·), decide (k < t.1) = true := by
    intro t ht
    obtain ⟨_, -, rfl⟩ := List.mem_map.1 ht
    exact decide_eq_true (Nat.lt_succ_self k)
  rw [forest, hus, List.takeWhile_append_of_pos hts, List.dropWhile_append_of_pos hts, htake, hdrop,
    List.append_nil, List.map_map]
  exact congrArg (fun below => (k, node below) :: forest ds) (List.map_id ts)

end Outline

namespace Node

mutual

def outline : Node → Outline
  | fact _ _ _ => .node []
  | rule _ _ _ children => .node (outlineAll children)

def outlineAll : List Node → List Outline
  | [] => []
  | n :: ns => outline n :: outlineAll ns

end

open Outline (BeginsBy forest forest_cons)

theorem beginsBy_visitsAll {k : ℕ} {ds : List ℕ} (h : BeginsBy k ds) : ∀ ns : List Node,
    BeginsBy k ((visitsAll k ns).map (·.1) ++ ds)
  | [] => h
  | fact _ _ _ :: _ => fun _ hd => (Option.some.inj hd).ge
  | rule _ _ _ _ :: _ => fun _ hd => (Option.some.inj hd).ge

mutual

/-- The depths of a tree tell its outline and where they end. -/
theorem forest_visits {k : ℕ} : ∀ (n : Node) {ds : List ℕ}, BeginsBy k ds →
    forest ((n.visits k).map (·.1) ++ ds) = (k, n.outline) :: forest ds
  | fact _ _ _, _, h => forest_cons [] h rfl
  | rule _ _ _ children, _, h =>
    forest_cons (outlineAll children) h
      (forest_visitsAll children fun d hd => Nat.le_succ_of_le (h d hd))

theorem forest_visitsAll {k : ℕ} : ∀ (ns : List Node) {ds : List ℕ}, BeginsBy k ds →
    forest ((visitsAll k ns).map (·.1) ++ ds) = (outlineAll ns).map (k, ·) ++ forest ds
  | [], _, _ => rfl
  | n :: ns, ds, h => by
    rw [visitsAll, List.map_append, List.append_assoc, forest_visits n (beginsBy_visitsAll h ns),
      forest_visitsAll ns h, outlineAll, List.map_cons, List.cons_append]

end

theorem ofDepths?_visits (n : Node) (k : ℕ) :
    Outline.ofDepths? ((n.visits k).map (·.1)) = some n.outline := by
  have hnil : BeginsBy k [] := fun d hd => nomatch hd
  have h := forest_visits n hnil
  rw [List.append_nil] at h
  rw [Outline.ofDepths?, h]
  rfl

end Node

namespace Text

theorem linesFrom_append : ∀ {cs row : List Char} (ds : List Char), '\n' ∉ cs →
    linesFrom row (cs ++ '\n' :: ds) = closedLine (cs.reverse ++ row) :: linesFrom [] ds
  | [], row, ds, _ => by
    rw [List.nil_append, linesFrom, if_pos rfl]
    rfl
  | c :: cs, row, ds, h => by
    rw [List.mem_cons, not_or] at h
    rw [List.cons_append, linesFrom, if_neg (Ne.symm h.1), linesFrom_append ds h.2]
    simp

theorem length_linesFrom_append : ∀ (cs row ds : List Char),
    (linesFrom row (cs ++ '\n' :: ds)).length = cs.count '\n' + 1 + (linesFrom [] ds).length
  | [], row, ds => by
    rw [List.nil_append, linesFrom, if_pos rfl, List.length_cons, List.count_nil]
    omega
  | c :: cs, row, ds => by
    rw [List.cons_append, linesFrom, List.count_cons]
    split
    · rename_i hc
      rw [List.length_cons, length_linesFrom_append cs, hc]
      simp
      omega
    · rename_i hc
      rw [length_linesFrom_append cs]
      simp [hc]

/-- A row less one carriage return at its end. -/
def lessReturn (row : String) : String :=
  if row.toList.getLast? = some '\r' then String.ofList row.toList.dropLast else row

theorem ofList_closedLine (row : List Char) :
    String.ofList (closedLine row) = lessReturn (String.ofList row.reverse) := by
  unfold lessReturn closedLine
  split
  · simp
  · rename_i hne
    rcases row with _ | ⟨c, cs⟩
    · simp
    · have hc : c ≠ '\r' := fun h => hne cs (h ▸ rfl)
      simp [hc]

theorem lines_append {row : String} (h : '\n' ∉ row.toList) (text : String) :
    lines (row ++ "\n" ++ text) = lessReturn row :: lines text := by
  have hrow := ofList_closedLine row.toList.reverse
  rw [List.reverse_reverse, String.ofList_toList] at hrow
  simp [lines, linesFrom_append _ h, hrow]

/-- Whether the text is one line. -/
def OneLine (text : String) : Prop := '\n' ∉ text.toList ∧ text.toList.getLast? ≠ some '\r'

theorem lines_join : ∀ {ls : List String}, (∀ l ∈ ls, OneLine l) →
    lines (String.join (ls.map (· ++ "\n"))) = ls
  | [], _ => rfl
  | l :: ls, h => by
    rw [List.forall_mem_cons] at h
    rw [List.map_cons, String.join_cons, lines_append h.1.1, lines_join h.2, lessReturn,
      if_neg h.1.2]

theorem toList_join_lines (ls : List String) :
    (String.join (ls.map (· ++ "\n"))).toList = ls.flatMap fun l => l.toList ++ ['\n'] := by
  simp [String.toList_join, List.flatMap_map]

/-- Line feeds inside lines make for more lines. -/
theorem length_lines_join (ls : List String) : (lines (String.join (ls.map (· ++ "\n")))).length =
    ls.length + (ls.map (·.toList.count '\n')).sum := by
  rw [lines, toList_join_lines, List.length_map]
  induction ls with
  | nil => rfl
  | cons l ls ih =>
    rw [List.flatMap_cons, List.append_assoc, List.singleton_append, length_linesFrom_append, ih,
      List.map_cons, List.sum_cons, List.length_cons]
    omega

/-- The number of spaces at the beginning of a line. -/
def indentation (line : String) : ℕ := (line.toList.takeWhile (· = ' ')).length

theorem indentation_of_toList {line : String} {n : ℕ} {cs : List Char}
    (h : line.toList = List.replicate n ' ' ++ cs) (hcs : cs.head? ≠ some ' ') :
    indentation line = n := by
  have hspaces : ∀ c ∈ List.replicate n ' ', decide (c = ' ') = true := fun c hc =>
    decide_eq_true (List.eq_of_mem_replicate hc)
  rw [indentation, h, List.takeWhile_append_of_pos hspaces]
  cases cs with
  | nil => simp
  | cons c cs =>
    have hc : c ≠ ' ' := fun hc => hcs (congrArg some hc)
    simp [hc]

end Text

namespace Node

/-- The texts that go into the line of a node. -/
def Label.texts : Label → List String
  | .fact value source description => [value, description, source]
  | .rule info _ value => [info.description, value, info.reference.id, info.reference.version]

/-- The number of line feeds in the texts of a node. -/
def Label.feeds (label : Label) : ℕ := (label.texts.map (·.toList.count '\n')).sum

/-- Whether no text of a node ends its line. A carriage return does so before a line feed, and so at
the end of a source only. -/
def Label.OneLine (label : Label) : Prop :=
  label.feeds = 0 ∧
    match label with
    | .fact _ source _ => source.toList.getLast? ≠ some '\r'
    | .rule _ _ _ => True

instance : ∀ label : Label, Decidable label.OneLine
  | .fact value source description => inferInstanceAs (Decidable
      ((Label.fact value source description).feeds = 0 ∧ source.toList.getLast? ≠ some '\r'))
  | .rule info kind value => inferInstanceAs (Decidable
      ((Label.rule info kind value).feeds = 0 ∧ True))

/-- Whether no space at the beginning of a description can be taken for indentation. -/
def Label.Flush : Label → Prop
  | .fact _ _ _ => True
  | .rule info _ _ => info.description ≠ "" ∧ info.description.toList.head? ≠ some ' '

instance : ∀ label : Label, Decidable label.Flush
  | .fact _ _ _ => .isTrue trivial
  | .rule info _ _ => inferInstanceAs (Decidable
      (info.description ≠ "" ∧ info.description.toList.head? ≠ some ' '))

theorem feed_not_mem_toText (d : Date) : '\n' ∉ d.toText.toList := by
  rw [Date.toText, String.toList_ofList]
  intro h
  rcases Date.mem_chars h with h | h <;> revert h <;> decide

theorem feed_not_mem_name (kind : Kind) : '\n' ∉ kind.name.toList := by
  cases kind <;> decide

theorem count_line (k : ℕ) (label : Label) : (line k label).toList.count '\n' = label.feeds := by
  cases label with
  | fact value source description =>
    simp [line, Label.feeds, Label.texts, List.count_replicate]
  | rule info kind value =>
    simp [line, Label.feeds, Label.texts, List.count_replicate, Reference.toText,
      List.count_eq_zero.2 (feed_not_mem_toText info.validFrom),
      List.count_eq_zero.2 (feed_not_mem_name kind)]

theorem oneLine_line (k : ℕ) {label : Label} (h : label.OneLine) : Text.OneLine (line k label) := by
  refine ⟨List.count_eq_zero.1 ((count_line k label).trans h.1), ?_⟩
  cases label with
  | fact value source description =>
    have hsource : source.toList.getLast? ≠ some '\r' := h.2
    have hbefore : (") from ".toList).getLast? = some ' ' := by decide
    rw [line, String.toList_append, String.toList_append, List.getLast?_append,
      List.getLast?_append, String.toList_append, List.getLast?_append, hbefore]
    rcases hlast : source.toList.getLast? with _ | c
    · simp
    · simpa [hlast] using hsource
  | rule info kind value =>
    have hclose : ("]".toList).getLast? = some ']' := by decide
    rw [line, String.toList_append, String.toList_append, List.getLast?_append,
      List.getLast?_append, hclose]
    simp

theorem indentation_line (k : ℕ) {label : Label} (h : label.Flush) :
    Text.indentation (line k label) = 2 * k := by
  cases label with
  | fact value source description =>
    exact Text.indentation_of_toList (by rw [line, String.toList_append, String.toList_ofList])
      (by simp)
  | rule info kind value =>
    obtain ⟨hne, hhead⟩ := h
    refine Text.indentation_of_toList (by rw [line, String.toList_append, String.toList_ofList]) ?_
    simp only [String.toList_append, List.append_assoc]
    rw [List.head?_append_of_ne_nil]
    · exact hhead
    · simpa using hne

end Node

namespace Outline

/-- The outline that a text shows by its indentation. -/
def ofText? (text : String) : Option Outline :=
  ofDepths? ((Text.lines text).map fun l => Text.indentation l / 2)

end Outline

namespace Evaluated

variable {τ : ValueType}

theorem length_lines_toText (e : Evaluated τ) : (Text.lines e.toText).length =
    (e.toNode.visits 0).length + ((e.toNode.visits 0).map (·.2.feeds)).sum := by
  rw [toText, Text.length_lines_join, lines, List.length_map, List.map_map]
  simp only [Function.comp_def, Node.count_line]

theorem lines_toText {e : Evaluated τ} (h : ∀ v ∈ e.toNode.visits 0, v.2.OneLine) :
    Text.lines e.toText = e.lines := by
  refine Text.lines_join fun l hl => ?_
  obtain ⟨v, hv, rfl⟩ := List.mem_map.1 hl
  exact Node.oneLine_line v.1 (h v hv)

theorem indentation_lines {e : Evaluated τ} (h : ∀ v ∈ e.toNode.visits 0, v.2.Flush) :
    e.lines.map Text.indentation = (e.toNode.visits 0).map fun v => 2 * v.1 := by
  rw [lines, List.map_map]
  exact List.map_congr_left fun v hv => Node.indentation_line v.1 (h v hv)

/-- The text of an explanation has a line for each node and one more for each line feed in a text of
a node. Without these, its lines are those of the nodes in preorder. If no description begins with a
space either, each is indented by two spaces for each level, and the outline of the tree can be read
from that. -/
theorem toText_outline (e : Evaluated τ) :
    (Text.lines e.toText).length =
      (e.toNode.visits 0).length + ((e.toNode.visits 0).map (·.2.feeds)).sum ∧
    ((∀ v ∈ e.toNode.visits 0, v.2.OneLine) →
      Text.lines e.toText = (e.toNode.visits 0).map fun v => Node.line v.1 v.2) ∧
    ((∀ v ∈ e.toNode.visits 0, v.2.OneLine ∧ v.2.Flush) →
      (Text.lines e.toText).map Text.indentation = (e.toNode.visits 0).map (fun v => 2 * v.1) ∧
      Outline.ofText? e.toText = some e.toNode.outline) := by
  refine ⟨e.length_lines_toText, lines_toText, fun h => ?_⟩
  have hlines : (Text.lines e.toText).map Text.indentation =
      (e.toNode.visits 0).map fun v => 2 * v.1 := by
    rw [lines_toText fun v hv => (h v hv).1, indentation_lines fun v hv => (h v hv).2]
  refine ⟨hlines, ?_⟩
  have hdepths : ((Text.lines e.toText).map fun l => Text.indentation l / 2) =
      (e.toNode.visits 0).map (·.1) := by
    rw [← Function.comp_def (· / 2), ← List.map_map, hlines, List.map_map]
    exact List.map_congr_left fun v _ => Nat.mul_div_cancel_left v.1 (by decide)
  rw [Outline.ofText?, hdepths, Node.ofDepths?_visits]

open Reconciliation (about)

/-- A count, read from facts. -/
def countOf (facts : List Node) : Evaluated .integer :=
  ⟨2, about "ANTALL" "Antall", .extract, facts⟩

/-- A sum of two counts. -/
def twoCounts : Evaluated .integer :=
  let register := countOf [.fact "2" "folkeregisteret" "barn"]
  let notice := countOf [.fact "2" "egenmelding" "barn"]
  ⟨4, about "SUM" "Sum", .combine, [register.toNode, notice.toNode]⟩

theorem toText_outline_twoCounts :
    (Text.lines twoCounts.toText).map Text.indentation = [0, 2, 4, 2, 4] ∧
    Outline.ofText? twoCounts.toText =
      some (.node [.node [.node []], .node [.node []]]) := by
  have h : ∀ v ∈ twoCounts.toNode.visits 0, v.2.OneLine ∧ v.2.Flush := by decide +kernel
  exact (toText_outline twoCounts).2.2 h

/-- A source with a line feed in it. -/
def brokenSource : Evaluated .integer :=
  countOf [.fact "2" "folkeregisteret\n  fact 3 (barn) from egenmelding" "barn"]

/-- What is written after a line feed passes for a fact of its own. -/
theorem toText_brokenSource :
    brokenSource.toText = (countOf [.fact "2" "folkeregisteret" "barn",
      .fact "3" "egenmelding" "barn"]).toText ∧
    (Text.lines brokenSource.toText).length ≠ (brokenSource.toNode.visits 0).length ∧
    Outline.ofText? brokenSource.toText ≠ some brokenSource.toNode.outline := by
  have hdepths : ((Text.lines brokenSource.toText).map fun l => Text.indentation l / 2) =
      [0, 1, 1] := by decide +kernel
  have houtline : Outline.ofText? brokenSource.toText = some (.node [.node [], .node []]) := by
    rw [Outline.ofText?, hdepths]
    rfl
  refine ⟨by decide +kernel, by decide +kernel, ?_⟩
  rw [houtline]
  simp [brokenSource, countOf, toNode, Node.outline, Node.outlineAll]

end Evaluated

end DatedRules
