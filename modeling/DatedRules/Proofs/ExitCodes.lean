import DatedRules.CommandLine.Program
import DatedRules.Proofs.DateOptions
import DatedRules.Proofs.Recorded

/-!
# Exit codes

A reconciliation is asked for with dates that could be read (`Asks.dated`). If the period, the file
or its text is rejected the answer has exit code 1 (`code_of_rejected`). Else there is a basis, and
the exit code is 2 if and only if the run on it is invalid (`code_of_accepted`).

Exit code 2 also is that of arguments that cannot be read. Dates are arguments, and so one that is
not a date ends with it (`misused_of_unreadable`, `respond_unreadableDate`), while a wrong date in a
file is a reason to reject the file.
-/

namespace DatedRules.CommandLine

open Reconciliation (Basis)

/-- Whether arguments ask for a reconciliation. -/
def Asks (args : List String) (explain : Bool) (path : String) (start : Date)
    (stop : Option Date) : Prop :=
  ∃ r, readArguments args = .ok r ∧ r.action = .reconcile explain path start stop

/-- Whether arguments cannot be read. -/
def Misused (args : List String) : Prop :=
  readArguments args = .error .nothing ∨ ∃ e, readArguments args = .error (.error e)

/-- Whether there are a period and a file with a basis for it. -/
def Accepted (files : Files) (path : String) (start : Date) (stop : Option Date) (period : Period)
    (basis : Basis) : Prop :=
  Period.between start stop = .ok period ∧
    ∃ text, files path = .ok text ∧ Basis.ofText text period.start = .ok basis

/-- Whether the period is empty, the file cannot be read or its text is not that of a basis. -/
inductive Rejected (files : Files) (path : String) (start : Date) (stop : Option Date) : Prop
  | period {e : EmptyPeriod} (h : Period.between start stop = .error e)
  | file {period : Period} {reason : String} (hp : Period.between start stop = .ok period)
      (h : files path = .error reason)
  | text {period : Period} {text : String} {e : Reconciliation.InputError}
      (hp : Period.between start stop = .ok period) (ht : files path = .ok text)
      (h : Basis.ofText text period.start = .error e)

variable {files : Files} {args : List String} {explain : Bool} {path : String} {start : Date}
  {stop : Option Date}

theorem Asks.dated (h : Asks args explain path start stop) :
    ∃ (before : List String) (level : Level) (after : List String),
      args = before ++ level.name :: after ∧ level.hasPeriod = true ∧
        explain = (level == .explain) ∧ Dated "from" after (some start) ∧
        Dated "to" after stop := by
  obtain ⟨r, hr, haction⟩ := h
  obtain ⟨before, level, after, v, hargs, hv, hr⟩ := readArguments_eq_ok hr
  rw [hr, actionOf] at haction
  split at haction
  · rename_i path start hpath hstart
    split at haction
    · rename_i hl
      cases haction
      obtain ⟨-, -, hdated⟩ := readCommand_eq_ok hl hv
      exact ⟨before, level, after, hargs, hl, rfl, hstart ▸ hdated .start, hdated .stop⟩
    · cases haction
  · cases haction

/-- A command with a period that stands first is misused, asks for its help or is carried out. -/
theorem command_cases {level : Level} {after : List String} (hl : level.hasPeriod = true) :
    Misused (level.name :: after) ∨ readArguments (level.name :: after) = .error (.help level) ∨
      ∃ path start stop, Asks (level.name :: after) (level == .explain) path start stop ∧
        Dated "from" after (some start) ∧ Dated "to" after stop := by
  have htop := level.ne_top hl
  unfold Misused Asks
  rw [readArguments_cons htop]
  rcases hv : readCommand level after with i | v
  · rcases ends_readCommand htop i hv with rfl | ⟨e, rfl⟩
    · exact .inr (.inl rfl)
    · exact .inl (.inr ⟨e, rfl⟩)
  · obtain ⟨hpath, hstart, hdated⟩ := readCommand_eq_ok hl hv
    obtain ⟨path, hpath⟩ := Option.isSome_iff_exists.1 hpath
    obtain ⟨start, hstart⟩ := Option.isSome_iff_exists.1 hstart
    refine .inr (.inr ⟨path, start, v.stop, ⟨_, rfl, ?_⟩, hstart ▸ hdated .start, hdated .stop⟩)
    simp only [actionOf, hpath, hstart, if_pos hl]

theorem misused_of_unreadable {level : Level} {after : List String} {text : String}
    (hl : level.hasPeriod = true) (h : Given "from" text after ∨ Given "to" text after)
    (htext : Date.ofText? text = none) :
    Misused (level.name :: after) ∨ readArguments (level.name :: after) = .error (.help level) := by
  rcases command_cases hl with hm | hh | ⟨path, start, stop, -, hfrom, hto⟩
  · exact .inl hm
  · exact .inr hh
  · have hread : ∃ d, Date.ofText? text = some d := by
      rcases h with h | h
      · exact (hfrom.reads text h).imp fun _ hd => hd.2
      · exact (hto.reads text h).imp fun _ hd => hd.2
    obtain ⟨d, hd⟩ := hread
    rw [htext] at hd
    cases hd

theorem rejected_or_accepted (files : Files) (path : String) (start : Date) (stop : Option Date) :
    Rejected files path start stop ∨
      ∃ period basis, Accepted files path start stop period basis := by
  rcases hp : Period.between start stop with e | period
  · exact .inl (.period hp)
  rcases ht : files path with reason | text
  · exact .inl (.file hp ht)
  rcases hb : Basis.ofText text period.start with e | basis
  · exact .inl (.text hp ht hb)
  · exact .inr ⟨period, basis, hp, text, ht, hb⟩

section Codes

variable {output : Format} {quiet : Bool} {period : Period} {basis : Basis}

theorem reconcile_of_accepted (h : Accepted files path start stop period basis) :
    reconcile files path start stop =
      (Reconciliation.rule.run basis period).mapError .overflow := by
  obtain ⟨hp, text, ht, hb⟩ := h
  simp [reconcile, bind, Except.bind, Except.mapError, hp, ht, hb]

theorem Rejected.exists_error (h : Rejected files path start stop) :
    ∃ e, (∀ o, e ≠ .overflow o) ∧ reconcile files path start stop = .error e := by
  cases h with
  | @period e h =>
    refine ⟨.period e, by simp, ?_⟩
    simp [reconcile, bind, Except.bind, Except.mapError, h]
  | @file period reason hp h =>
    refine ⟨.file path reason, by simp, ?_⟩
    simp [reconcile, bind, Except.bind, Except.mapError, hp, h]
  | @text period text e hp ht h =>
    refine ⟨.input path e, by simp, ?_⟩
    simp [reconcile, bind, Except.bind, Except.mapError, hp, ht, h]

theorem respondRun_error {e : RunError} (he : ∀ o, e ≠ .overflow o) :
    respondRun output quiet explain (.error e) =
      ⟨1, "", if quiet then "" else errorText output e.message⟩ := by
  cases e <;> first | rfl | exact absurd rfl (he _)

theorem code_of_rejected (h : Rejected files path start stop) :
    (respondRun output quiet explain (reconcile files path start stop)).code = 1 := by
  obtain ⟨e, he, hreconcile⟩ := h.exists_error
  rw [hreconcile, respondRun_error he]

theorem code_of_accepted (h : Accepted files path start stop period basis) :
    ((respondRun output quiet explain (reconcile files path start stop)).code = 2 ↔
      ∃ findings, Reconciliation.rule.run basis period = .ok (.invalid findings)) ∧
    (respondRun output quiet explain (reconcile files path start stop)).code ≠ 1 := by
  rw [reconcile_of_accepted h]
  rcases Reconciliation.rule.run basis period with o | ⟨results, stamp⟩ | findings <;>
    simp [respondRun, Except.mapError, RunResult.isSuccess]

theorem code_reconcile_eq_two_iff :
    (respondRun output quiet explain (reconcile files path start stop)).code = 2 ↔
      ∃ period basis findings, Accepted files path start stop period basis ∧
        Reconciliation.rule.run basis period = .ok (.invalid findings) := by
  constructor
  · intro hcode
    rcases rejected_or_accepted files path start stop with h | ⟨period, basis, h⟩
    · rw [code_of_rejected h] at hcode
      cases hcode
    · obtain ⟨findings, hrun⟩ := (code_of_accepted h).1.1 hcode
      exact ⟨period, basis, findings, h, hrun⟩
  · rintro ⟨period, basis, findings, h, hrun⟩
    exact (code_of_accepted h).1.2 ⟨findings, hrun⟩

theorem code_reconcile_eq_one_iff :
    (respondRun output quiet explain (reconcile files path start stop)).code = 1 ↔
      Rejected files path start stop := by
  refine ⟨fun hcode => ?_, code_of_rejected⟩
  rcases rejected_or_accepted files path start stop with h | ⟨period, basis, h⟩
  · exact h
  · exact absurd hcode (code_of_accepted h).2

end Codes

theorem exists_respond_eq (files : Files) (h : Asks args explain path start stop) : ∃ output quiet,
    respond files args = respondRun output quiet explain (reconcile files path start stop) := by
  obtain ⟨r, hr, haction⟩ := h
  exact ⟨r.output, r.quiet, by rw [respond, hr]; simp only [respondRequest, haction]⟩

theorem code_of_misused (h : Misused args) : (respond files args).code = 2 := by
  rcases h with h | ⟨e, h⟩ <;> rw [respond, h] <;> rfl

theorem misused_or_asks (h : (respond files args).code ≠ 0) :
    Misused args ∨ ∃ explain path start stop, Asks args explain path start stop := by
  rcases hr : readArguments args with i | r <;> rw [respond, hr] at h
  · cases i with
    | error e => exact .inl (.inr ⟨e, hr⟩)
    | nothing => exact .inl (.inl hr)
    | help level => exact absurd rfl h
    | version => exact absurd rfl h
  · rcases haction : r.action with ⟨explain, path, start, stop⟩ | _
    · exact .inr ⟨explain, path, start, stop, r, hr, haction⟩
    · simp [respondRequest, haction] at h

/-- Exit code 1 is that of a rejected input, and exit code 2 that of an invalid run on an accepted
one or of arguments that cannot be read, such as a date that is not one. -/
theorem respond_code (files : Files) (args : List String) :
    ((respond files args).code = 2 ↔ Misused args ∨
      ∃ explain path start stop period basis findings, Asks args explain path start stop ∧
        Accepted files path start stop period basis ∧
        Reconciliation.rule.run basis period = .ok (.invalid findings)) ∧
    ((respond files args).code = 1 ↔
      ∃ explain path start stop, Asks args explain path start stop ∧
        Rejected files path start stop) ∧
    (∀ explain path start stop, Asks args explain path start stop →
      ∃ (before : List String) (level : Level) (after : List String),
        args = before ++ level.name :: after ∧ level.hasPeriod = true ∧
          explain = (level == .explain) ∧ Dated "from" after (some start) ∧ Dated "to" after stop) ∧
    ∀ (level : Level) (after : List String) (text : String), args = level.name :: after →
      level.hasPeriod = true → Given "from" text after ∨ Given "to" text after →
        Date.ofText? text = none → Misused args ∨ readArguments args = .error (.help level) := by
  refine ⟨⟨fun hcode => ?_, ?_⟩, ⟨fun hcode => ?_, ?_⟩, fun _ _ _ _ => Asks.dated, ?_⟩
  · rcases misused_or_asks (by rw [hcode]; decide) with h | ⟨explain, path, start, stop, h⟩
    · exact .inl h
    · obtain ⟨output, quiet, hrespond⟩ := exists_respond_eq files h
      rw [hrespond, code_reconcile_eq_two_iff] at hcode
      obtain ⟨period, basis, findings, hinput, hrun⟩ := hcode
      exact .inr ⟨explain, path, start, stop, period, basis, findings, h, hinput, hrun⟩
  · rintro (h | ⟨explain, path, start, stop, period, basis, findings, h, hinput, hrun⟩)
    · exact code_of_misused h
    · obtain ⟨output, quiet, hrespond⟩ := exists_respond_eq files h
      rw [hrespond, code_reconcile_eq_two_iff]
      exact ⟨period, basis, findings, hinput, hrun⟩
  · rcases misused_or_asks (by rw [hcode]; decide) with h | ⟨explain, path, start, stop, h⟩
    · rw [code_of_misused h] at hcode
      cases hcode
    · obtain ⟨output, quiet, hrespond⟩ := exists_respond_eq files h
      rw [hrespond, code_reconcile_eq_one_iff] at hcode
      exact ⟨explain, path, start, stop, h, hcode⟩
  · rintro ⟨explain, path, start, stop, h, hinput⟩
    obtain ⟨output, quiet, hrespond⟩ := exists_respond_eq files h
    rw [hrespond, code_reconcile_eq_one_iff]
    exact hinput
  · rintro level after text rfl hl hgiven htext
    exact misused_of_unreadable hl hgiven htext

/-- With a date that is not one the exit code is that of an invalid run, although the file is
accepted for the date that was meant. -/
theorem respond_unreadableDate : Date.ofText? "01.01.2024" = none ∧
    (respond (fun _ => .ok Reconciliation.shuffledText)
      ["run", "g.json", "--from", "01.01.2024"]).code = 2 ∧
    Accepted (fun _ => .ok Reconciliation.shuffledText) "g.json" (Reconciliation.newYear 2024) none
      (.openFrom (Reconciliation.newYear 2024)) Reconciliation.shuffledBasis :=
  ⟨by decide, by decide +kernel, rfl, _, rfl, Reconciliation.ofText_shuffledText⟩

end DatedRules.CommandLine
