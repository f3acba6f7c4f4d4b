import DatedRules.Proofs.ExitCodes
import DatedRules.Proofs.Parts

/-!
# One verdict in all presentations

A reconciliation is run or explained, in one of two formats, and with `--quiet` or not
(`Presentation`). The arguments for it have the flags before or after the command and everything in
any order (`Invokes`). What the program answers is made from one result, which only depends on the
file and the dates (`respond_invokes`).

So an error of the input, an overflow and a result each have their own answers (`presents_error`,
`presents_overflow`, `presents_ok`), and these have the same exit code in all presentations, and the
same message in both formats (`respond_presentation`).
-/

namespace DatedRules.CommandLine

/-- The flags of a presentation, the format perhaps in an argument of its own. -/
def flags (output : Option (Format × Bool)) (quiet : Bool) : List Part :=
  (output.map fun o => .output o.1 o.2).toList ++ if quiet then [.quiet] else []

def periodParts (path start : String) (stop : Option String) : List Part :=
  .path path :: .start start :: (stop.map .stop).toList

/-- How a reconciliation is presented. -/
structure Presentation where
  explain : Bool
  output : Format
  quiet : Bool

def Presentation.level (p : Presentation) : Level := if p.explain then .explain else .run

/-- Whether arguments ask for a reconciliation with a presentation. The flags stand before or after
the command, in any order, and a format after it counts. -/
def Invokes (path start : String) (stop : Option String) (p : Presentation) (args : List String) :
    Prop :=
  ∃ (before after : List Part) (o₁ o₂ : Option (Format × Bool)) (q₁ q₂ : Bool),
    args = before.flatMap Part.args ++ p.level.name :: after.flatMap Part.args ∧
    before.Perm (flags o₁ q₁) ∧ after.Perm (periodParts path start stop ++ flags o₂ q₂) ∧
    p.output = ((o₂.or o₁).map Prod.fst).getD .text ∧ p.quiet = (q₂ || q₁)

section Flags

variable {path start : String} {stop : Option String} {o : Option (Format × Bool)} {q : Bool}

theorem nodup_flags : ((flags o q).map Part.param).Nodup := by
  cases o <;> cases q <;> simp [flags, Part.param]

theorem nodup_periodParts :
    ((periodParts path start stop ++ flags o q).map Part.param).Nodup := by
  cases stop <;> cases o <;> cases q <;> simp [periodParts, flags, Part.param]

theorem valuesOf_flags : valuesOf (flags o q) = ⟨o.map Prod.fst, q, none, none, none⟩ := by
  cases o <;> cases q <;> rfl

theorem valuesOf_periodParts : valuesOf (periodParts path start stop ++ flags o q) =
    ⟨o.map Prod.fst, q, some path, Date.ofText? start, stop.bind Date.ofText?⟩ := by
  cases stop <;> cases o <;> cases q <;> rfl

theorem global_flags : ∀ p ∈ flags o q, p.Global := by
  cases o <;> cases q <;> simp [flags, Part.Global]

theorem readable_periodParts (hpath : (Part.path path).Readable)
    (hstart : (Part.start start).Readable)
    (hstop : ∀ text, stop = some text → (Part.stop text).Readable) :
    ∀ p ∈ periodParts path start stop ++ flags o q, p.Readable := by
  cases stop <;> cases o <;> cases q <;> simp_all [periodParts, flags, Part.Readable]

end Flags

variable {files : Files} {path start : String} {stop : Option String} {first : Date}
  {last : Option Date} {p : Presentation} {args : List String}

theorem Presentation.level_hasPeriod (p : Presentation) : p.level.hasPeriod = true := by
  unfold level
  split <;> rfl

theorem Presentation.level_beq_explain (p : Presentation) : (p.level == .explain) = p.explain := by
  unfold level
  cases p.explain <;> rfl

/-- The answer presents the result for the file and the dates. -/
theorem respond_invokes (hpath : path ≠ "" ∧ path.toList.head? ≠ some '-')
    (hstart : Date.ofText? start = some first) (hstop : stop.map Date.ofText? = last.map some)
    (h : Invokes path start stop p args) :
    respond files args =
      respondRun p.output p.quiet p.explain (reconcile files path first last) := by
  obtain ⟨before, after, o₁, o₂, q₁, q₂, rfl, hbefore, hafter, houtput, hquiet⟩ := h
  have hlast : stop.bind Date.ofText? = last := by
    cases stop <;> cases last <;> simp_all
  have hread : ∀ part ∈ after, part.Readable := by
    intro part hpart
    refine readable_periodParts hpath ⟨first, hstart⟩ ?_ part (hafter.mem_iff.1 hpart)
    rintro text rfl
    cases last <;> simp_all [Part.Readable]
  have hnodup : (after.map Part.param).Nodup := (hafter.map _).nodup_iff.2 nodup_periodParts
  have hafterValues : valuesOf after = ⟨o₂.map Prod.fst, q₂, some path, some first, last⟩ := by
    rw [valuesOf_perm hafter hnodup, valuesOf_periodParts, hstart, hlast]
  have hbeforeNodup : (before.map Part.param).Nodup := (hbefore.map _).nodup_iff.2 nodup_flags
  have hbeforeValues : valuesOf before = ⟨o₁.map Prod.fst, q₁, none, none, none⟩ := by
    rw [valuesOf_perm hbefore hbeforeNodup, valuesOf_flags]
  have hcommand := readCommand_parts p.level_hasPeriod hread hnodup (by simp [hafterValues])
    (by simp [hafterValues])
  have hrequest := readArguments_parts p.level_hasPeriod
    (fun part hpart => global_flags part (hbefore.mem_iff.1 hpart)) hbeforeNodup hcommand
  rw [respond, hrequest]
  simp [respondRequest, actionOf, p.level_hasPeriod, p.level_beq_explain, hafterValues,
    hbeforeValues, houtput, hquiet, Option.map_or]

/-- Whether an answer is that of a code and, for an error of the input, a message. -/
structure Presents (code : Nat) (message : String) (p : Presentation) (r : Response) : Prop where
  code_eq : r.code = code
  quiet : p.quiet = true → r.stdout = "" ∧ (r.stderr = "" ∨ code = 101)
  stdout_ne : p.quiet = false → (r.stdout ≠ "" ↔ code = 0 ∨ code = 2)
  stdout_eq : code = 1 → r.stdout = ""
  stderr_eq : code = 1 → p.quiet = false → r.stderr =
    match p.output with
    | .text => message ++ "\n"
    | .json => (Json.object [("error", .string message)]).compact ++ "\n"

section Results

variable (p : Presentation)

theorem presents_ok (r : RunResult Reconciliation.outcome) :
    Presents (if r.isSuccess then 0 else 2) "" p
      (respondRun p.output p.quiet p.explain (.ok r)) := by
  have hcode : (if r.isSuccess then 0 else 2) = 0 ∨ (if r.isSuccess then 0 else 2) = 2 := by
    cases r.isSuccess <;> simp
  have hone : (if r.isSuccess then 0 else 2) ≠ 1 := by
    cases r.isSuccess <;> simp
  refine ⟨rfl, fun h => ⟨?_, .inl rfl⟩, fun h => ⟨fun _ => hcode, fun _ => ?_⟩,
    fun h => absurd h hone, fun h => absurd h hone⟩
  · simp [respondRun, h]
  · have hne : ∀ text : String, text ++ "\n" ≠ "" := fun text hempty => by simp at hempty
    rw [h]
    cases p.output <;> exact hne _

theorem presents_overflow (o : Decimal.Overflow) :
    Presents 101 "" p (respondRun p.output p.quiet p.explain (.error (.overflow o))) :=
  ⟨rfl, fun _ => ⟨rfl, .inr rfl⟩, fun _ => by simp [respondRun], nofun, nofun⟩

theorem presents_error {e : RunError} (he : ∀ o, e ≠ .overflow o) :
    Presents 1 ("error: " ++ e.message) p (respondRun p.output p.quiet p.explain (.error e)) := by
  rw [respondRun_error he]
  refine ⟨rfl, fun h => ?_, fun h => ?_, fun _ => rfl, fun _ h => ?_⟩
  · simp [h]
  · simp
  · rw [h]
    cases p.output <;> rfl

end Results

/-- The exit code and the message of an error of the input are the same for every presentation.
The code 101 is that of an overflow. -/
theorem respond_presentation (files : Files)
    (hpath : path ≠ "" ∧ path.toList.head? ≠ some '-')
    (hstart : Date.ofText? start = some first) (hstop : stop.map Date.ofText? = last.map some) :
    ∃ (code : Nat) (message : String),
      (∀ (p : Presentation) (args : List String), Invokes path start stop p args →
        Presents code message p (respond files args)) ∧
      (code = 101 → ∃ period basis overflow, Accepted files path first last period basis ∧
        Reconciliation.rule.run basis period = .error overflow) := by
  suffices h : ∃ (code : Nat) (message : String),
      (∀ p : Presentation, Presents code message p
        (respondRun p.output p.quiet p.explain (reconcile files path first last))) ∧
      (code = 101 → ∃ period basis overflow, Accepted files path first last period basis ∧
        Reconciliation.rule.run basis period = .error overflow) by
    obtain ⟨code, message, hpresents, hoverflow⟩ := h
    refine ⟨code, message, fun p args hargs => ?_, hoverflow⟩
    rw [respond_invokes hpath hstart hstop hargs]
    exact hpresents p
  rcases rejected_or_accepted files path first last with hinput | ⟨period, basis, hinput⟩
  · obtain ⟨e, he, hreconcile⟩ := hinput.exists_error
    rw [hreconcile]
    exact ⟨1, _, fun p => presents_error p he, nofun⟩
  · rw [reconcile_of_accepted hinput]
    rcases hrun : Reconciliation.rule.run basis period with o | r
    · exact ⟨101, _, fun p => presents_overflow p o, fun _ => ⟨period, basis, o, hinput, hrun⟩⟩
    · refine ⟨_, _, fun p => presents_ok p r, ?_⟩
      cases r.isSuccess <;> nofun

/-- A silent explanation ends as a run does. -/
theorem respond_presentation_explained :
    ("g.json" ≠ "" ∧ "g.json".toList.head? ≠ some '-') ∧
    Date.ofText? "2024-01-01" = some (Reconciliation.newYear 2024) ∧
    (respond (fun _ => .ok Reconciliation.shuffledText)
        ["--quiet", "explain", "--from=2024-01-01", "g.json", "--output", "json"]).code =
      (respond (fun _ => .ok Reconciliation.shuffledText)
        ["run", "g.json", "--from=2024-01-01"]).code := by
  have hpath : "g.json" ≠ "" ∧ "g.json".toList.head? ≠ some '-' := by decide
  have hstart : Date.ofText? "2024-01-01" = some (Reconciliation.newYear 2024) := by decide
  have hstop : (none : Option String).map Date.ofText? = (none : Option Date).map some := rfl
  obtain ⟨code, message, h, -⟩ :=
    respond_presentation (fun _ => .ok Reconciliation.shuffledText) hpath hstart hstop
  have hexplain : Invokes "g.json" "2024-01-01" none ⟨true, .json, true⟩
      ["--quiet", "explain", "--from=2024-01-01", "g.json", "--output", "json"] :=
    ⟨_, _, none, some (.json, true), true, false, rfl, .refl _, .swap _ _ _, rfl, rfl⟩
  have hrun : Invokes "g.json" "2024-01-01" none ⟨false, .text, false⟩
      ["run", "g.json", "--from=2024-01-01"] :=
    ⟨_, _, none, none, false, false, rfl, .refl _, .refl _, rfl, rfl⟩
  exact ⟨hpath, hstart, (h _ _ hexplain).code_eq.trans (h _ _ hrun).code_eq.symm⟩

end DatedRules.CommandLine
