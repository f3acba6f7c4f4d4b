import DatedRules.Calendar.DateSet

/-!
# Periods

A period is a non-empty half-open range of dates, `[start, stop)`, or `[start, ...)` where it is
open. `Period.partition` cuts a period at the dates strictly inside it.
-/

namespace DatedRules

/-- The dates from `start` on, up to but not including `stop` if there is one. -/
structure Period where
  start : Date
  stop : Option Date
  start_lt : ∀ e ∈ stop, start < e
deriving DecidableEq

/-- A period's end that is not after its start. -/
structure EmptyPeriod where
  start : Date
  stop : Date
deriving DecidableEq

def EmptyPeriod.message (e : EmptyPeriod) : String :=
  "empty period: " ++ e.stop.toText ++ " is not after " ++ e.start.toText

namespace Period

/-- The period without end. -/
def openFrom (start : Date) : Period := ⟨start, none, by simp⟩

/-- The period between two dates, or from the first on if there is no second. -/
def between (start : Date) : Option Date → Except EmptyPeriod Period
  | none => .ok (openFrom start)
  | some stop =>
    if h : start < stop then .ok ⟨start, some stop, by simpa using h⟩ else .error ⟨start, stop⟩

/-- Whether a date is before the end of a period, if that has one. -/
def Before (d : Date) (stop : Option Date) : Prop := ∀ e ∈ stop, d < e

instance (d : Date) (stop : Option Date) : Decidable (Before d stop) := by
  unfold Before
  cases stop with
  | none => exact .isTrue (by simp)
  | some e => exact decidable_of_iff (d < e) (by simp)

instance : Membership Date Period := ⟨fun p d => p.start ≤ d ∧ Before d p.stop⟩

instance (p : Period) (d : Date) : Decidable (d ∈ p) :=
  inferInstanceAs (Decidable (p.start ≤ d ∧ Before d p.stop))

theorem mem_def {p : Period} {d : Date} : d ∈ p ↔ p.start ≤ d ∧ Before d p.stop := Iff.rfl

/-- A date strictly inside a period: it can end there and another can start. -/
def Inside (d : Date) (p : Period) : Prop := p.start < d ∧ Before d p.stop

instance (d : Date) (p : Period) : Decidable (Inside d p) :=
  inferInstanceAs (Decidable (p.start < d ∧ Before d p.stop))

/-- Cuts a period at those of the dates that are strictly inside what is left of it. -/
def cut (p : Period) : List Date → List Period
  | [] => [p]
  | b :: bs =>
    if h : Inside b p then
      ⟨p.start, some b, by simpa using h.1⟩ :: cut ⟨b, p.stop, h.2⟩ bs
    else cut p bs

/-- The period in pieces, cut at every breakpoint strictly inside it. -/
def partition (p : Period) (breakpoints : DateSet) : List Period := p.cut breakpoints.toList

/-- The order of periods: by start, and from one start the period without end comes first. -/
def precedes (p q : Period) : Bool :=
  p.start < q.start ||
    (p.start == q.start &&
      match p.stop, q.stop with
      | none, _ => true
      | some _, none => false
      | some a, some b => a ≤ b)

/-- A period's text. -/
def toText (p : Period) : String :=
  "[" ++ p.start.toText ++ ", " ++ (match p.stop with | some d => d.toText | none => "...") ++ ")"

end Period

end DatedRules
