import DatedRules.Proofs.Formula
import DatedRules.Proofs.Histories
import DatedRules.Proofs.Inventory

/-!
# Amounts on record

An explanation has rules of the graph only (`Rule.references_sublist`), so that in one of the
reconciliation the facts below `BRUTTO`, `UTBETALT` and `AVKORTING` are the amounts of the basis on
the first day of the piece (`under_of_evaluate_rule`). The piece has no change of these inside, and
so they are what the entries of the file say that are in force throughout it (`run_recorded`): no
result goes back to an amount that is not on record or that a later entry has replaced.
-/

namespace DatedRules

namespace Node

mutual

/-- What stands directly below the rules of an identifier. -/
def under (id : String) : Node → List Node
  | fact _ _ _ => []
  | rule info _ _ children =>
    (if info.reference.id = id then children else []) ++ underAll id children

def underAll (id : String) : List Node → List Node
  | [] => []
  | n :: ns => under id n ++ underAll id ns

end

mutual

theorem under_eq_nil {id : String} {k : Nat} : ∀ {n : Node},
    (∀ r ∈ (n.visits k).filterMap (·.2.reference?), r.id ≠ id) → n.under id = []
  | fact _ _ _, _ => rfl
  | rule info kind value children, h => by
    simp only [visits, List.filterMap_cons, Label.reference?, List.forall_mem_cons] at h
    rw [under, if_neg h.1, underAll_eq_nil h.2, List.nil_append]

theorem underAll_eq_nil {id : String} {k : Nat} : ∀ {ns : List Node},
    (∀ r ∈ (visitsAll k ns).filterMap (·.2.reference?), r.id ≠ id) → underAll id ns = []
  | [], _ => rfl
  | n :: ns, h => by
    simp only [visitsAll, List.filterMap_append, List.forall_mem_append] at h
    rw [underAll, under_eq_nil h.1, underAll_eq_nil h.2, List.nil_append]

end

end Node

namespace Rule

variable {G : Type} {g : G} {d : Date} {τ : ValueType}

theorem under_of_evaluate {r : Rule G τ} (hr : r.WellFormed) {id : String}
    (hid : ∀ ref ∈ r.graph.references, ref.id ≠ id) {e : Evaluated τ}
    (h : r.evaluate g d = .ok e) : e.toNode.under id = [] := by
  have hrefs : (e.toNode.visits 0).filterMap (·.2.reference?) = e.references :=
    List.filterMap_congr fun v _ => by rcases v with ⟨k, _ | _⟩ <;> rfl
  refine Node.under_eq_nil (k := 0) fun ref href => hid ref ?_
  exact (references_sublist hr h).subset (hrefs ▸ href)

/-- The results of a successful run are values of pieces on their first days. -/
theorem mem_pieces_of_success {r : Rule G τ} {p : Period} {results : List (PeriodResult τ)}
    {stamp : Stamp} (h : r.run g p = .ok (.success results stamp)) {x : PeriodResult τ}
    (hx : x ∈ results) : x.period ∈ r.pieces g p ∧ r.evaluate g x.period.start = .ok x.result := by
  have hmem : x.told ∈ (r.pieces g p).map (r.firstDay g) := by
    rw [← (run_eq_success_iff.1 h).2]
    exact List.mem_map_of_mem hx
  obtain ⟨q, hq, hqx⟩ := List.mem_map.1 hmem
  obtain ⟨rfl, he⟩ := Prod.mk.inj hqx
  exact ⟨hq, he⟩

end Rule

namespace Reconciliation

variable {g : Basis} {d : Date}

/-- The explanation that an amount is on record. -/
def recorded (f : Fact Decimal) : Node := .fact f.value.toText f.source f.description

theorem evaluate_owedRule {e : Evaluated .decimal} (h : owedRule.evaluate g d = .ok e) :
    ∃ v, e.toNode = .rule owedRule.info .combine v
      [.rule grossRule.info .extractAt (g.gross.on d).value.toText [recorded (g.gross.on d)],
        .rule deductionRule.info .extract g.deduction.value.toText [recorded g.deduction]] := by
  obtain ⟨v, -, rfl⟩ := Rule.applied_eq_ok_iff.1 h
  exact ⟨_, rfl⟩

theorem evaluate_differenceRule {e : Evaluated .decimal} (h : differenceRule.evaluate g d = .ok e) :
    ∃ v o, owedRule.evaluate g d = .ok o ∧ e.toNode = .rule differenceRule.info .combine v
      [.rule paidRule.info .extractAt (g.paid.on d).value.toText [recorded (g.paid.on d)],
        o.toNode] := by
  obtain ⟨x, hx, h⟩ := bind_eq_ok_iff.1 h
  obtain ⟨o, ho, h⟩ := bind_eq_ok_iff.1 h
  obtain ⟨v, -, rfl⟩ := Rule.applied_eq_ok_iff.1 h
  obtain rfl := Except.ok.inj hx
  exact ⟨_, o, ho, rfl⟩

theorem evaluate_rule {e : Evaluated outcome} (h : rule.evaluate g d = .ok e) :
    ∃ v x y z, differenceRule.evaluate g d = .ok x ∧ courtFee.evaluate g d = .ok y ∧
      limitRule.evaluate g d = .ok z ∧
      e.toNode = .rule rule.info .combine v [x.toNode, y.toNode, z.toNode] := by
  obtain ⟨x, hx, h⟩ := bind_eq_ok_iff.1 h
  obtain ⟨y, hy, h⟩ := bind_eq_ok_iff.1 h
  obtain ⟨z, hz, h⟩ := bind_eq_ok_iff.1 h
  obtain ⟨o, -, rfl⟩ := Rule.applied_eq_ok_iff.1 h
  exact ⟨_, x, y, z, hx, hy, hz, rfl⟩

theorem under_eq_nil_of_evaluate {r : Rule Basis .decimal} (hr : r.WellFormed)
    (hids : ∀ id ∈ ["BRUTTO", "UTBETALT", "AVKORTING"], ∀ ref ∈ r.graph.references, ref.id ≠ id)
    {e : Evaluated .decimal} (h : r.evaluate g d = .ok e) : e.toNode.under "BRUTTO" = [] ∧
      e.toNode.under "UTBETALT" = [] ∧ e.toNode.under "AVKORTING" = [] := by
  refine ⟨?_, ?_, ?_⟩ <;> exact Rule.under_of_evaluate hr (hids _ (by simp)) h

/-- The amounts that an explanation of the reconciliation goes back to. The court fee and the limit
for paying out go back to none. -/
theorem under_of_evaluate_rule {e : Evaluated outcome} (h : rule.evaluate g d = .ok e) :
    e.toNode.under "BRUTTO" = [recorded (g.gross.on d)] ∧
      e.toNode.under "UTBETALT" = [recorded (g.paid.on d)] ∧
      e.toNode.under "AVKORTING" = [recorded g.deduction] := by
  obtain ⟨v, x, y, z, hx, hy, hz, he⟩ := evaluate_rule h
  obtain ⟨v', o, ho, hx⟩ := evaluate_differenceRule hx
  obtain ⟨v'', ho⟩ := evaluate_owedRule ho
  have hfee := under_eq_nil_of_evaluate courtFee_built.wellFormed (by decide) hy
  have hlimit := under_eq_nil_of_evaluate limitRule_built.wellFormed (by decide) hz
  rw [he, hx, ho]
  simp only [Node.under, Node.underAll, hfee, hlimit, List.append_nil, recorded]
  exact ⟨rfl, rfl, rfl⟩

theorem mem_cuts_of_breakpoint {b : Date} (hb : b ∈ g.gross.breakpoints ∨ b ∈ g.paid.breakpoints) :
    b ∈ rule.breakpoints.union (rule.dataBreakpoints g) := by
  refine DateSet.mem_union.2 (.inr (DateSet.mem_ofList.2 ?_))
  have hdates : rule.dataDates g =
      g.paid.breakpoints.toList ++ (g.gross.breakpoints.toList ++ []) ++ [] ++ [] := rfl
  rw [hdates]
  simpa [or_comm, DateSet.mem_def] using hb

theorem ofText_eq_ok {text : String} {start : Date} (h : Basis.ofText text start = .ok g) :
    ∃ file, InputFile.ofText text = .ok file ∧
      scheduleOf "brutto" "Ytelse før avkorting" start file.gross = .ok g.gross ∧
      scheduleOf "utbetalt" "Utbetalt ytelse" start file.paid = .ok g.paid ∧
      g.deduction = ⟨file.deduction.amount, file.deduction.source,
        file.deduction.description.getD "Avkorting etter endelig inntekt"⟩ := by
  obtain ⟨file, hfile, h⟩ := bind_eq_ok_iff.1 h
  obtain ⟨gross, hgross, h⟩ := bind_eq_ok_iff.1 h
  obtain ⟨paid, hpaid, h⟩ := bind_eq_ok_iff.1 h
  cases h
  exact ⟨file, mapError_eq_ok_iff.1 hfile, hgross, hpaid, rfl⟩

/-- Whether nodes are the one fact of an entry that is in force throughout a period. -/
def FromEntryOf (entries : List AmountEntry) (description : String) (q : Period) (ns : List Node) :
    Prop :=
  ∃ before e after b, entries = before ++ e :: after ∧ InForce before e after b q ∧
    ns = [.fact e.amount.toText e.source description]

theorem fromEntryOf_of_scheduleOf {field description : String} {start : Date}
    {entries : List AmountEntry} {s : Schedule (Fact Decimal)} {q : Period}
    (h : scheduleOf field description start entries = .ok s) (hstart : start ≤ q.start)
    (hq : ∀ b ∈ s.breakpoints, ¬ Period.Inside b q) :
    FromEntryOf entries description q [recorded (s.on q.start)] := by
  obtain ⟨before, e, after, b, hsplit, hforce, hon⟩ := exists_inForce h hstart hq
  exact ⟨before, e, after, b, hsplit, hforce, by rw [hon]; rfl⟩

/-- Every result of a successful run goes back to the entries of the file that are in force
throughout its piece of the period, and to the deduction of the file. -/
theorem run_recorded {text : String} {p : Period} {g : Basis}
    {results : List (PeriodResult outcome)} {stamp : Stamp}
    (hg : Basis.ofText text p.start = .ok g) (hrun : rule.run g p = .ok (.success results stamp)) :
    ∃ file, InputFile.ofText text = .ok file ∧ ∀ x ∈ results,
      FromEntryOf file.gross "Ytelse før avkorting" x.period (x.result.toNode.under "BRUTTO") ∧
      FromEntryOf file.paid "Utbetalt ytelse" x.period (x.result.toNode.under "UTBETALT") ∧
      x.result.toNode.under "AVKORTING" = [.fact file.deduction.amount.toText file.deduction.source
        (file.deduction.description.getD "Avkorting etter endelig inntekt")] := by
  obtain ⟨file, hfile, hgross, hpaid, hded⟩ := ofText_eq_ok hg
  refine ⟨file, hfile, fun x hx => ?_⟩
  obtain ⟨hpiece, heval⟩ := Rule.mem_pieces_of_success hrun hx
  obtain ⟨hbrutto, hutbetalt, havkorting⟩ := under_of_evaluate_rule heval
  have hstart : p.start ≤ x.period.start := (p.tiles_partition _).start_le hpiece
  have hquiet : ∀ b, b ∈ g.gross.breakpoints ∨ b ∈ g.paid.breakpoints →
      ¬ Period.Inside b x.period := fun b hb =>
    Period.not_inside_of_mem_partition hpiece (mem_cuts_of_breakpoint hb)
  rw [hbrutto, hutbetalt, havkorting, hded]
  exact ⟨fromEntryOf_of_scheduleOf hgross hstart fun b hb => hquiet b (.inl hb),
    fromEntryOf_of_scheduleOf hpaid hstart fun b hb => hquiet b (.inr hb), rfl⟩

/-- A file whose entries are not in order and of which two have one date. -/
def shuffledText : String :=
  "[[[\"2024-07-01\", \"11000\", \"vedtak 3\"], [\"2024-01-01\", \"9000\", \"vedtak 1\"], " ++
    "[\"2024-01-01\", \"10000\", \"vedtak 2\"]], [[\"2023-06-01\", \"8500\", \"utbetaling\"]], " ++
    "[\"1500\", \"skatteetaten\", null]]"

def shuffledFile : InputFile where
  gross := [
    ⟨"2024-07-01", .ofNat 11000, "vedtak 3"⟩,
    ⟨"2024-01-01", .ofNat 9000, "vedtak 1"⟩,
    ⟨"2024-01-01", .ofNat 10000, "vedtak 2"⟩]
  paid := [⟨"2023-06-01", .ofNat 8500, "utbetaling"⟩]
  deduction := ⟨.ofNat 1500, "skatteetaten", none⟩

def grossFact (n : Nat) (source : String) (h : n < 2 ^ 96 := by decide) : Fact Decimal :=
  ⟨.ofNat n h, source, "Ytelse før avkorting"⟩

def shuffledBasis : Basis where
  gross := (Schedule.constant (grossFact 9000 "vedtak 1")).withChanges [
    (dayOf 2024 1 1, grossFact 9000 "vedtak 1"), (dayOf 2024 1 1, grossFact 10000 "vedtak 2"),
    (dayOf 2024 7 1, grossFact 11000 "vedtak 3")]
  paid := (Schedule.constant ⟨.ofNat 8500, "utbetaling", "Utbetalt ytelse"⟩).withChanges [
    (dayOf 2023 6 1, ⟨.ofNat 8500, "utbetaling", "Utbetalt ytelse"⟩)]
  deduction := ⟨.ofNat 1500, "skatteetaten", "Avkorting etter endelig inntekt"⟩

theorem basis_shuffledFile : shuffledFile.basis (newYear 2024) = .ok shuffledBasis := by
  have hgross : datedFacts "Ytelse før avkorting" shuffledFile.gross = .ok [
      (dayOf 2024 7 1, grossFact 11000 "vedtak 3"), (dayOf 2024 1 1, grossFact 9000 "vedtak 1"),
      (dayOf 2024 1 1, grossFact 10000 "vedtak 2")] := rfl
  have hpaid : datedFacts "Utbetalt ytelse" shuffledFile.paid = .ok [
      (dayOf 2023 6 1, ⟨.ofNat 8500, "utbetaling", "Utbetalt ytelse"⟩)] := rfl
  have hle : ¬ dayOf 2024 7 1 ≤ dayOf 2024 1 1 := by decide
  rw [InputFile.basis,
    scheduleOf_eq_of_sorted hgross (by simp [List.mergeSort, hle]; exact ⟨rfl, rfl⟩) (by decide),
    scheduleOf_eq_of_sorted hpaid (List.mergeSort_singleton _) (by decide)]
  rfl

theorem ofText_shuffledText : Basis.ofText shuffledText (newYear 2024) = .ok shuffledBasis := by
  have hread : (InputFile.ofText shuffledText).toOption = some shuffledFile := by decide +kernel
  rcases h : InputFile.ofText shuffledText with fault | file <;> rw [h] at hread
  · cases hread
  · obtain rfl := Option.some.inj hread
    rw [Basis.ofText, h]
    exact basis_shuffledFile

theorem run_recorded_shuffledText : ∃ results stamp file,
    Basis.ofText shuffledText (Period.openFrom (newYear 2024)).start = .ok shuffledBasis ∧
    rule.run shuffledBasis (.openFrom (newYear 2024)) = .ok (.success results stamp) ∧
    InputFile.ofText shuffledText = .ok file ∧
    (∀ x ∈ results,
      FromEntryOf file.gross "Ytelse før avkorting" x.period (x.result.toNode.under "BRUTTO")) ∧
    [newYear 2024, dayOf 2024 7 1].map (fun d =>
      ((RunResult.success results stamp).on? d).map fun e => e.facts.map (·.source)) = [
        some ["utbetaling", "vedtak 2", "skatteetaten", "rule:RETTSGEBYR-2024@2024.1",
          "rule:RETTSGEBYR-2024@2024.1", "rule:ANDEL-ETTERBETALING@2024.1"],
        some ["utbetaling", "vedtak 3", "skatteetaten", "rule:RETTSGEBYR-2024@2024.1",
          "rule:RETTSGEBYR-2024@2024.1", "rule:ANDEL-ETTERBETALING@2024.1"]] := by
  have hsources : ((rule.run shuffledBasis (.openFrom (newYear 2024))).toOption.map fun res =>
      [newYear 2024, dayOf 2024 7 1].map fun d =>
        (res.on? d).map fun e => e.facts.map (·.source)) = some [
        some ["utbetaling", "vedtak 2", "skatteetaten", "rule:RETTSGEBYR-2024@2024.1",
          "rule:RETTSGEBYR-2024@2024.1", "rule:ANDEL-ETTERBETALING@2024.1"],
        some ["utbetaling", "vedtak 3", "skatteetaten", "rule:RETTSGEBYR-2024@2024.1",
          "rule:RETTSGEBYR-2024@2024.1", "rule:ANDEL-ETTERBETALING@2024.1"]] := by
    decide +kernel
  rcases hrun : rule.run shuffledBasis (.openFrom (newYear 2024)) with
    o | ⟨results, stamp⟩ | findings <;> rw [hrun] at hsources
  · cases hsources
  · obtain ⟨file, hfile, h⟩ := run_recorded (p := .openFrom (newYear 2024)) ofText_shuffledText hrun
    exact ⟨results, stamp, file, ofText_shuffledText, rfl, hfile, fun x hx => (h x hx).1,
      Option.some.inj hsources⟩
  · simp [Except.toOption, RunResult.on?] at hsources

end Reconciliation

end DatedRules
