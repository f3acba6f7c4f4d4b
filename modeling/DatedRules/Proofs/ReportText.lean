import DatedRules.Proofs.DecimalText
import DatedRules.Proofs.Outline
import DatedRules.Reconciliation.Report

/-!
# Explanations in a report

The rows of a report in text end at line feeds. An explanation may hold any characters and so any
number of rows, but it is taken apart into lines first. These are the rows of the explanation, each
less one carriage return at its end; the last one, which no line feed ends, is left out if it is
empty and kept as it stands otherwise (`Text.lines_eq_rows`). So none of them has a line feed
(`Text.feed_not_mem_of_mem_lines`), and each follows a margin of four spaces.

No other row begins like that: a piece begins with a bracket and the stamp with a word, and periods,
decimals and digests have no line feed in them. So the rows of a report are known
(`Reconciliation.rows_runText`), and without those that begin with the margin it is the report
without explanations (`Reconciliation.runText_withoutIndented`).
-/

namespace DatedRules

namespace Text

/-- The rows of a text, which line feeds alone separate. -/
def rows (text : String) : List String := (text.toList.splitOn '\n').map String.ofList

theorem intercalate_rows (text : String) : "\n".intercalate (rows text) = text := by
  simp [← String.toList_inj, rows, String.toList_intercalate, Function.comp_def]

theorem rows_ne_nil (text : String) : rows text ≠ [] := by
  simp [rows, List.splitOn_ne_nil]

theorem rows_of_feed_not_mem {text : String} (h : '\n' ∉ text.toList) : rows text = [text] := by
  simp [rows, List.splitOn_eq_singleton h]

theorem rows_append {row : String} (h : '\n' ∉ row.toList) (text : String) :
    rows (row ++ "\n" ++ text) = row :: rows text := by
  simp [rows, List.splitOn_append_cons_self_of_not_mem h]

theorem rows_join (text : String) : ∀ {ls : List String}, (∀ l ∈ ls, '\n' ∉ l.toList) →
    rows (String.join (ls.map (· ++ "\n")) ++ text) = ls ++ rows text
  | [], _ => by simp
  | l :: ls, h => by
    rw [List.forall_mem_cons] at h
    rw [List.map_cons, String.join_cons, String.append_assoc, rows_append h.1, rows_join text h.2,
      List.cons_append]

/-- A text is one row, or a row, a line feed and the text after it. -/
theorem rows_induction {motive : String → Prop} (last : ∀ row, '\n' ∉ row.toList → motive row)
    (cons : ∀ row text, '\n' ∉ row.toList → motive text → motive (row ++ "\n" ++ text))
    (text : String) : motive text := by
  by_cases h : '\n' ∈ text.toList
  · obtain ⟨row, rest, heq, hrow⟩ := List.eq_append_cons_of_mem h
    have htext : text = String.ofList row ++ "\n" ++ String.ofList rest := by
      simp [← String.toList_inj, heq]
    have hshorter : rest.length < text.length := by
      rw [← String.length_toList, heq, List.length_append, List.length_cons]
      omega
    rw [htext]
    exact cons _ _ (by rwa [String.toList_ofList]) (rows_induction last cons (String.ofList rest))
  · exact last text h
termination_by text.length

theorem feed_not_mem_of_mem_rows {text : String} : ∀ row ∈ rows text, '\n' ∉ row.toList := by
  induction text using rows_induction with
  | last row h =>
    rw [rows_of_feed_not_mem h, List.forall_mem_singleton]
    exact h
  | cons row text h ih =>
    rw [rows_append h, List.forall_mem_cons]
    exact ⟨h, ih⟩

theorem linesFrom_of_feed_not_mem : ∀ {cs row : List Char}, '\n' ∉ cs →
    linesFrom row cs = if row.reverse ++ cs = [] then [] else [row.reverse ++ cs]
  | [], row, _ => by simp [linesFrom]
  | c :: cs, row, h => by
    rw [List.mem_cons, not_or] at h
    rw [linesFrom, if_neg (Ne.symm h.1), linesFrom_of_feed_not_mem h.2]
    simp

theorem lines_of_feed_not_mem {text : String} (h : '\n' ∉ text.toList) :
    lines text = if text = "" then [] else [text] := by
  have hnil : text.toList = [] ↔ text = "" := by simp
  rw [lines, linesFrom_of_feed_not_mem h, List.reverse_nil, List.nil_append]
  split <;> simp_all

/-- The lines of a text are its rows, each less a carriage return at its end. The last row is a line
only if it is not empty, and then as it stands. -/
theorem lines_eq_rows (text : String) : lines text =
    (rows text).dropLast.map lessReturn ++ ((rows text).getLast?.filter (· ≠ "")).toList := by
  induction text using rows_induction with
  | last row h =>
    rw [rows_of_feed_not_mem h, lines_of_feed_not_mem h]
    split <;> simp [Option.filter, *]
  | cons row text h ih =>
    obtain ⟨r, rs, hr⟩ := List.exists_cons_of_ne_nil (rows_ne_nil text)
    rw [rows_append h, lines_append h, ih, hr]
    simp

theorem feed_not_mem_lessReturn {row : String} (h : '\n' ∉ row.toList) :
    '\n' ∉ (lessReturn row).toList := by
  rw [lessReturn]
  split
  · rw [String.toList_ofList]
    exact fun hmem => h (List.dropLast_subset _ hmem)
  · exact h

theorem feed_not_mem_of_mem_lines {text l : String} (h : l ∈ lines text) : '\n' ∉ l.toList := by
  rw [lines_eq_rows, List.mem_append, List.mem_map, Option.mem_toList] at h
  rcases h with ⟨row, hrow, rfl⟩ | h
  · exact feed_not_mem_lessReturn (feed_not_mem_of_mem_rows row (List.dropLast_subset _ hrow))
  · exact feed_not_mem_of_mem_rows l (List.mem_of_getLast? (Option.eq_some_of_filter_eq_some h))

def margin : String := "    "

def isIndented (row : String) : Bool := margin.toList.isPrefixOf row.toList

/-- A text without the rows that begin with four spaces. -/
def withoutIndented (text : String) : String :=
  "\n".intercalate ((rows text).filter (!isIndented ·))

/-- The rows that begin with four spaces, less these. -/
def indentedRows (text : String) : List String :=
  ((rows text).filter isIndented).map fun row => String.ofList (row.toList.drop 4)

end Text

theorem Sha256.feed_not_mem_hexDigest (text : String) : '\n' ∉ (hexDigest text).toList := by
  rw [hexDigest, String.toList_ofList]
  simp only [List.mem_flatMap, hexWord, List.mem_map, not_exists, not_and]
  exact fun _ _ _ _ => Nat.digitChar_ne '\n' (by decide)

theorem Stamp.feed_not_mem_toText (g : Graph) : '\n' ∉ (Stamp.of g).toText.toList := by
  have h := Sha256.feed_not_mem_hexDigest g.canonicalText
  simp [toText, Stamp.of, engineName, h]

theorem Decimal.feed_not_mem_toText (a : Decimal) : '\n' ∉ a.toText.toList := by
  obtain ⟨whole, places, -, -, hwhole, hplaces, -, hchars⟩ := a.exists_chars_eq
  have hw : '\n' ∉ whole := fun h => absurd (hwhole _ h) (by decide)
  have hp : '\n' ∉ places := fun h => absurd (hplaces _ h) (by decide)
  rw [toText, String.toList_ofList, hchars]
  split <;> split <;> simp [hw, hp]

theorem Period.feed_not_mem_toText (p : Period) : '\n' ∉ p.toText.toList := by
  have hstart := Node.feed_not_mem_toText p.start
  rcases hstop : p.stop with _ | stop
  · simp [toText, hstop, hstart]
  · simp [toText, hstop, hstart, Node.feed_not_mem_toText stop]

namespace Reconciliation

/-- The row for one piece, apart from its explanation. -/
def pieceRow (x : PeriodResult outcome) : String :=
  x.period.toText ++ "  " ++ x.result.value.kind.name ++ "  differanse " ++
    x.result.value.difference.toText

def pieceRows (explain : Bool) (x : PeriodResult outcome) : List String :=
  pieceRow x ::
    if explain then (Text.lines x.result.toText).map (Text.margin ++ ·) else []

theorem resultText_eq (explain : Bool) (x : PeriodResult outcome) :
    resultText explain x = String.join ((pieceRows explain x).map (· ++ "\n")) := by
  cases explain
  · simp [resultText, pieceRows, pieceRow]
  · simp [resultText, pieceRows, pieceRow, Function.comp_def, Text.margin]

theorem join_resultText (explain : Bool) : ∀ results : List (PeriodResult outcome),
    String.join (results.map (resultText explain)) =
      String.join ((results.flatMap (pieceRows explain)).map (· ++ "\n"))
  | [] => rfl
  | x :: results => by
    rw [List.map_cons, String.join_cons, join_resultText explain results, resultText_eq,
      List.flatMap_cons, List.map_append, String.join_append]

theorem feed_not_mem_name (kind : OutcomeKind) : '\n' ∉ kind.name.toList := by
  cases kind <;> decide

theorem feed_not_mem_of_mem_pieceRows {explain : Bool} {x : PeriodResult outcome} {row : String}
    (h : row ∈ pieceRows explain x) : '\n' ∉ row.toList := by
  rcases List.mem_cons.1 h with rfl | h
  · simp [pieceRow, x.period.feed_not_mem_toText, feed_not_mem_name,
      Decimal.feed_not_mem_toText]
  · split at h
    · obtain ⟨l, hl, rfl⟩ := List.mem_map.1 h
      simp [Text.margin, Text.feed_not_mem_of_mem_lines hl]
    · cases h

/-- The rows of a report are those of its pieces, the stamp and what follows the last line feed. -/
theorem rows_runText (explain : Bool) (results : List (PeriodResult outcome)) {stamp : Stamp}
    (h : '\n' ∉ stamp.toText.toList) : Text.rows (runText explain (.success results stamp)) =
      results.flatMap (pieceRows explain) ++ ["engine " ++ stamp.toText, ""] := by
  have hpieces : ∀ row ∈ results.flatMap (pieceRows explain), '\n' ∉ row.toList := by
    intro row hrow
    obtain ⟨x, -, hrow⟩ := List.mem_flatMap.1 hrow
    exact feed_not_mem_of_mem_pieceRows hrow
  have hstamp : '\n' ∉ ("engine " ++ stamp.toText).toList := by simp [h]
  have htext : runText explain (.success results stamp) =
      String.join ((results.flatMap (pieceRows explain)).map (· ++ "\n")) ++
        ("engine " ++ stamp.toText ++ "\n" ++ "") := by
    rw [← join_resultText, String.append_empty, ← String.append_assoc, ← String.append_assoc]
    rfl
  rw [htext, Text.rows_join _ hpieces, Text.rows_append hstamp,
    Text.rows_of_feed_not_mem (by simp)]

theorem isIndented_pieceRow (x : PeriodResult outcome) : Text.isIndented (pieceRow x) = false := by
  simp [Text.isIndented, Text.margin, pieceRow, Period.toText, List.isPrefixOf]

theorem isIndented_margin (l : String) : Text.isIndented (Text.margin ++ l) = true := by
  simp [Text.isIndented]

theorem filter_pieceRows (x : PeriodResult outcome) :
    (pieceRows true x).filter (!Text.isIndented ·) = pieceRows false x ∧
      (pieceRows true x).filter Text.isIndented =
        (Text.lines x.result.toText).map (Text.margin ++ ·) := by
  constructor <;>
    simp [pieceRows, isIndented_pieceRow, isIndented_margin, List.filter_map, Function.comp_def]

/-- A report without its indented rows is the one without explanations. The indented rows are, piece
by piece, the lines of the explanations, whatever these say. -/
theorem runText_withoutIndented (results : List (PeriodResult outcome)) (g : Graph)
    (findings : InvalidRun) :
    Text.withoutIndented (runText true (.success results (Stamp.of g))) =
      runText false (.success results (Stamp.of g)) ∧
    Text.indentedRows (runText true (.success results (Stamp.of g))) =
      results.flatMap (fun x => Text.lines x.result.toText) ∧
    Text.rows (runText true (.success results (Stamp.of g))) =
      results.flatMap (fun x =>
        pieceRow x :: (Text.lines x.result.toText).map (Text.margin ++ ·)) ++
        ["engine " ++ (Stamp.of g).toText, ""] ∧
    runText true (.invalid findings) = runText false (.invalid findings) := by
  have hstamp := Stamp.feed_not_mem_toText g
  generalize Stamp.of g = stamp at hstamp ⊢
  have hlast : ["engine " ++ stamp.toText, ""].filter (!Text.isIndented ·) =
      ["engine " ++ stamp.toText, ""] ∧
        ["engine " ++ stamp.toText, ""].filter Text.isIndented = [] := by
    constructor <;> simp [Text.isIndented, Text.margin, List.isPrefixOf]
  refine ⟨?_, ?_, rows_runText true results hstamp, rfl⟩
  · rw [← Text.intercalate_rows (runText false _), Text.withoutIndented,
      rows_runText true results hstamp, rows_runText false results hstamp, List.filter_append,
      hlast.1, List.filter_flatMap]
    simp only [(filter_pieceRows _).1]
  · rw [Text.indentedRows, rows_runText true results hstamp, List.filter_append, hlast.2,
      List.append_nil, List.filter_flatMap]
    simp only [(filter_pieceRows _).2, List.map_flatMap, List.map_map]
    simp [Function.comp_def, Text.margin]

end Reconciliation

end DatedRules
