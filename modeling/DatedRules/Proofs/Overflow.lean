import DatedRules.Proofs.Fitting
import DatedRules.Proofs.Formula
import DatedRules.Reconciliation.InputFile

/-!
# Overflow

Sums and differences overflow from half a unit below `2 ^ 96` on (`exists_add?_eq_some_iff`,
`exists_sub_eq_ok_iff`). A rule evaluation that meets such a difference in a combining function ends
there, and so does the run: it has a result if and only if no date of the period meets one
(`Rule.exists_run_iff`).

The reconciliation takes two differences, and neither is guarded. It has a result if and only if
both are in range on every date of the period (`run_ok_iff`); amounts of either sign that are each
in range may well have a difference that is not.
-/

namespace DatedRules

namespace Decimal

/-- Half a unit below the first number that is out of range. -/
def overflowBound : ℚ := 2 ^ 96 - 1 / 2

variable {a b : Decimal}

theorem abs_toRat_lt (a : Decimal) : |a.toRat| < overflowBound := by
  have hm : (a.mantissa : ℚ) ≤ 2 ^ 96 - 1 := by
    have h : a.mantissa + 1 ≤ 2 ^ 96 := a.mantissa_lt
    have h' : (a.mantissa : ℚ) + 1 ≤ 2 ^ 96 := by exact_mod_cast h
    linarith
  have hle : |a.toRat| ≤ a.mantissa := by
    rw [abs_toRat]
    exact div_le_self (Nat.cast_nonneg _) (by exact_mod_cast Nat.pow_pos (by decide))
  unfold overflowBound
  linarith

theorem exists_fit_iff {n : ℤ} {s : ℕ} :
    (∃ q, fit n.natAbs s = some q) ↔ |(n : ℚ) / (10 ^ s : ℕ)| < overflowBound := by
  have hs := pow_ten_pos s
  have habs : |(n : ℚ) / (10 ^ s : ℕ)| = (n.natAbs : ℚ) / (10 ^ s : ℕ) := by
    rw [abs_div, abs_of_pos hs, Nat.cast_natAbs, Int.cast_abs]
  rw [← Option.isSome_iff_exists, ← Option.ne_none_iff_isSome, Ne, fit_eq_none_iff, not_le, habs,
    overflowBound, div_lt_iff₀ hs]
  generalize 10 ^ s = k
  rw [← Nat.cast_lt (α := ℚ)]
  push_cast
  constructor <;> intro h <;> linarith

theorem exists_add?_eq_some_iff :
    (∃ c, a.add? b = some c) ↔ |a.toRat + b.toRat| < overflowBound := by
  unfold add?
  by_cases ha : a.isZero = true
  · rw [if_pos ha, toRat_of_isZero ha, zero_add]
    exact ⟨fun _ => abs_toRat_lt b, fun _ => ⟨b, rfl⟩⟩
  by_cases hb : b.isZero = true
  · rw [if_neg ha, if_pos hb, toRat_of_isZero hb, add_zero]
    exact ⟨fun _ => abs_toRat_lt a, fun _ => ⟨a, rfl⟩⟩
  rw [if_neg ha, if_neg hb, toRat_eq_at (Nat.le_max_left a.scale b.scale),
    toRat_eq_at (Nat.le_max_right a.scale b.scale), ← add_div, ← Int.cast_add, ← exists_fit_iff]
  constructor
  · rintro ⟨c, hc⟩
    dsimp only at hc
    split at hc
    · cases hc
    · exact ⟨_, ‹_›⟩
  · rintro ⟨⟨m, t⟩, hfit⟩
    have hrange := fit_lt hfit
    simp only [hfit]
    exact ⟨_, dif_pos hrange⟩

/-- A difference overflows from half a unit below the first number out of range on. -/
theorem exists_sub_eq_ok_iff : (∃ c, a.sub b = .ok c) ↔ |a.toRat - b.toRat| < overflowBound := by
  rw [sub_eq_add_neg, ← toRat_negated, ← exists_add?_eq_some_iff]
  unfold sub sub?
  rcases add? a (if b.isZero then b else b.neg) with _ | c <;> simp

end Decimal

namespace Rule

variable {α β τ : ValueType} {G : Type} {g : G} {d : Date}

theorem sound_bind_iff {α β : Type} {x : Except Stop α} {f : α → Except Stop β} :
    Sound (x >>= f) ↔ Sound x ∧ ∀ a, x = .ok a → Sound (f a) := by
  rcases x with s | a
  · constructor
    · exact fun h => ⟨fun o ho => h o (by cases ho; rfl), fun a ha => by cases ha⟩
    · exact fun h o ho => h.1 o (by cases ho; rfl)
  · exact ⟨fun h => ⟨sound_ok a, fun b hb => by cases hb; exact h⟩, fun h => h.2 a rfl⟩

theorem sound_applied_iff {info : RuleInfo} {children : List Node}
    {value : Except Decimal.Overflow τ.Carrier} :
    Sound (applied info children value) ↔ ∃ v, value = .ok v := by
  refine ⟨fun h => ?_, sound_applied⟩
  rcases value with o | v
  · exact absurd rfl (h o)
  · exact ⟨v, rfl⟩

variable {info : RuleInfo} {a : Rule G α} {b : Rule G β}
  {f : α.Carrier → β.Carrier → Except Decimal.Overflow τ.Carrier} {x : α.Carrier} {y : β.Carrier}

theorem valueOn_combine2_eq (ha : a.valueOn g d = .ok x) (hb : b.valueOn g d = .ok y) :
    (combine2 info a b f).valueOn g d = (f x y).mapError .overflow := by
  obtain ⟨x, hx, rfl⟩ := valueOn_eq_ok_iff.1 ha
  obtain ⟨y, hy, rfl⟩ := valueOn_eq_ok_iff.1 hb
  rw [valueOn, evaluate, hx, hy]
  show (applied info [x.toNode, y.toNode] (f x.value y.value)).map (·.value) = _
  rcases f x.value y.value with o | v <;> rfl

theorem sound_combine2_iff (ha : a.valueOn g d = .ok x) :
    Sound ((combine2 info a b f).evaluate g d) ↔
      Sound (b.evaluate g d) ∧ ∀ y, b.valueOn g d = .ok y → ∃ v, f x y = .ok v := by
  obtain ⟨x, hx, rfl⟩ := valueOn_eq_ok_iff.1 ha
  simp only [evaluate, hx, sound_bind_iff, sound_ok, sound_applied_iff, valueOn_eq_ok_iff,
    Except.ok.injEq, forall_eq', forall_exists_index, and_imp, forall_apply_eq_imp_iff₂, true_and]

/-- A run has a result if and only if no date has an overflow in a combining function. Its outcomes
are failures and values, and an evaluation that ends in an overflow has neither. -/
theorem exists_run_iff {r : Rule G τ} (hs : r.SteadyOn g) {p : Period} :
    (∃ res, r.run g p = .ok res) ↔ ∀ d ∈ p, Sound (r.evaluate g d) := by
  constructor
  · rintro ⟨res, hrun⟩ d hd
    obtain ⟨os, hos, -⟩ := run_eq_ok_iff.1 hrun
    have ha := outcomes_account hs hos
    obtain ⟨⟨q, x⟩, ho, hdq⟩ := ha.exists_mem hd
    rw [ha.tells _ ho d hdq]
    rcases x with f | e
    · exact sound_failure _
    · exact sound_ok e
  · intro h
    obtain ⟨os, hos⟩ := exists_outcomes fun q hq =>
      h q.start ((p.tiles_partition _).mem_iff.2 ⟨q, hq, q.start_mem⟩)
    exact ⟨_, run_eq_ok_iff.2 ⟨os, hos, rfl⟩⟩

end Rule

namespace Reconciliation

/-- Whether the two differences of a date are in range, of which the second is the amount as paid
out less what is owed as the rules work it out. -/
structure Basis.InRangeOn (g : Basis) (d : Date) : Prop where
  gross : |g.grossOn d - g.deduction.value.toRat| < Decimal.overflowBound
  paid : ∀ c, owed (g.gross.on d).value g.deduction.value = .ok c →
    |g.paidOn d - c.toRat| < Decimal.overflowBound

variable {g : Basis} {d : Date}

theorem exists_owed_iff {gross deduction : Decimal} : (∃ c, owed gross deduction = .ok c) ↔
    |gross.toRat - deduction.toRat| < Decimal.overflowBound := by
  rw [← Decimal.exists_sub_eq_ok_iff]
  unfold owed
  rcases gross.sub deduction with o | c
  · constructor <;> exact fun ⟨c, hc⟩ => nomatch hc
  · exact ⟨fun _ => ⟨c, rfl⟩, fun _ => ⟨_, rfl⟩⟩

theorem valueOn_owedRule_eq_ok_iff {c : Decimal} : owedRule.valueOn g d = .ok c ↔
    owed (g.gross.on d).value g.deduction.value = .ok c := by
  have hvalue : owedRule.valueOn g d =
      (owed (g.gross.on d).value g.deduction.value).mapError .overflow :=
    Rule.valueOn_combine2_eq rfl rfl
  rw [hvalue]
  rcases owed (g.gross.on d).value g.deduction.value with o | v <;> simp [Except.mapError]

theorem sound_owedRule_iff : Rule.Sound (owedRule.evaluate g d) ↔
    |g.grossOn d - g.deduction.value.toRat| < Decimal.overflowBound := by
  have hded : deductionRule.valueOn g d = .ok g.deduction.value := rfl
  rw [owedRule, Rule.sound_combine2_iff (x := (g.gross.on d).value) rfl]
  constructor
  · intro h
    exact exists_owed_iff.1 (h.2 _ hded)
  · intro h
    refine ⟨Rule.sound_ok _, fun y hy => ?_⟩
    rw [hded, Except.ok.injEq] at hy
    subst hy
    exact exists_owed_iff.2 h

theorem sound_differenceRule_iff : Rule.Sound (differenceRule.evaluate g d) ↔ g.InRangeOn d := by
  rw [differenceRule, Rule.sound_combine2_iff (x := (g.paid.on d).value) rfl, sound_owedRule_iff]
  constructor
  · rintro ⟨hgross, hpaid⟩
    exact ⟨hgross, fun c hc =>
      Decimal.exists_sub_eq_ok_iff.1 (hpaid c (valueOn_owedRule_eq_ok_iff.2 hc))⟩
  · rintro ⟨hgross, hpaid⟩
    exact ⟨hgross, fun c hc =>
      Decimal.exists_sub_eq_ok_iff.2 (hpaid c (valueOn_owedRule_eq_ok_iff.1 hc))⟩

theorem courtFee_total : courtFee.Total := fun i => match i with
  | ⟨0, _⟩ | ⟨1, _⟩ | ⟨2, _⟩ => trivial

theorem limitRule_total : limitRule.Total := fun i => match i with
  | ⟨0, _⟩ => courtFee_total
  | ⟨1, _⟩ => trivial

/-- The court fee and the limit have no value on some dates, but they never overflow. -/
theorem sound_rule_iff : Rule.Sound (rule.evaluate g d) ↔ g.InRangeOn d := by
  rw [← sound_differenceRule_iff, rule, Rule.evaluate, Rule.sound_bind_iff]
  refine and_iff_left fun x _ => ?_
  refine (Rule.sound_evaluate g d _ courtFee_total).bind fun y => ?_
  exact (Rule.sound_evaluate g d _ limitRule_total).bind fun z => Rule.sound_ok _

/-- The reconciliation has a result, be it a success or findings, if and only if its two differences
are in range on every date. -/
theorem run_ok_iff {g : Basis} {p : Period} :
    (∃ res, rule.run g p = .ok res) ↔ ∀ d ∈ p, g.InRangeOn d := by
  rw [Rule.exists_run_iff (rule_steadyOn g)]
  exact forall₂_congr fun d _ => sound_rule_iff

/-- A file with the largest amount there is and a negative deduction. -/
def overflowingText : String :=
  "\x7b\"brutto\": [\x7b\"fra\": \"2024-01-01\", \"beloep\": \"79228162514264337593543950335\", " ++
    "\"kilde\": \"vedtak\"\x7d], \"utbetalt\": [\x7b\"fra\": \"2024-01-01\", \"beloep\": \"0\", " ++
    "\"kilde\": \"utbetaling\"\x7d], " ++
    "\"avkorting\": \x7b\"beloep\": \"-1\", \"kilde\": \"skatteetaten\"\x7d\x7d"

/-- A file that is accepted may have no result for a period that starts where it does. -/
theorem run_overflowingText : ∃ g, Basis.ofText overflowingText (newYear 2024) = .ok g ∧
    rule.run g ⟨newYear 2024, some (newYear 2025), by decide⟩ = .error .difference := by
  have h : ((Basis.ofText overflowingText (newYear 2024)).toOption.any fun g =>
      match rule.run g ⟨newYear 2024, some (newYear 2025), by decide⟩ with
      | .error o => decide (o = .difference)
      | .ok _ => false) = true := by decide +kernel
  rcases hg : Basis.ofText overflowingText (newYear 2024) with e | g <;> rw [hg] at h
  · cases h
  · refine ⟨g, rfl, ?_⟩
    simp only [Except.toOption, Option.any_some] at h
    split at h
    · rename_i o ho
      rw [ho, of_decide_eq_true h]
    · cases h

end Reconciliation

end DatedRules
