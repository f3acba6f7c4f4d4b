import DatedRules.CommandLine.Arguments
import DatedRules.Proofs.Steady

/-!
# What the date options read

Before `--`, the text for an option is the next argument or stands after an equals sign (`Given`).
The scan of a command takes one argument after the other (`Scan.exists_reads_of_scan`). At any time
a text is offered to an option where it is pending, where the option waits for it and it comes next,
or where the arguments that follow give it (`Scan.Offers`). A pending value is looked at before
anything else is, and one argument is read as far as it offers a text itself and leaves what the
others offer (`Scan.Reads.takes`). By induction the whole scan reads what is offered to begin with
(`Scan.takes_of_scan`).

So a command that is carried out has read every text given for `--from` and `--to`, and its dates
are those of these texts (`readCommand_eq_ok`). One that is not ends with its help or with a wrong
argument (`ends_readCommand`).
-/

namespace DatedRules.CommandLine

/-- The arguments before `--`. -/
def beforeOperands (args : List String) : List String := args.takeWhile (· ≠ "--")

/-- Whether arguments give a text for an option: as the next argument or after an equals sign. -/
def Given (name text : String) (args : List String) : Prop :=
  ["--" ++ name, text] <:+: beforeOperands args ∨ "--" ++ name ++ "=" ++ text ∈ beforeOperands args

/-- The options that are dates. -/
inductive DateOption : Param → String → Prop
  | start : DateOption .start "from"
  | stop : DateOption .stop "to"

/-- The date read for one of these options. -/
def Values.date? (v : Values) : Param → Option Date
  | .start => v.start
  | .stop => v.stop
  | _ => .none

theorem Level.ne_top (level : Level) (hl : level.hasPeriod = true) : level ≠ .top := by
  rintro rfl
  cases hl

section Long

/-- A name ends with the argument or at the first equals sign. -/
theorem eq_of_long?_eq_some {arg name : String} {value : Option String}
    (h : long? arg = some (name, value)) : arg = "--" ++ name ++ value.elim "" ("=" ++ ·) := by
  unfold long? at h
  split at h
  · rename_i cs hcs
    split at h
    · cases h
    · have happ := List.takeWhile_append_dropWhile (p := (· != '=')) (l := cs)
      have hhead := List.head?_dropWhile_not (· != '=') cs
      dsimp only at h
      split at h
      · rename_i hdrop
        rw [hdrop, List.append_nil] at happ
        simp only [Option.some.injEq, Prod.mk.injEq] at h
        obtain ⟨rfl, rfl⟩ := h
        rw [← String.toList_inj, hcs]
        simp [happ]
      · rename_i c text hdrop
        rw [hdrop] at happ hhead
        obtain rfl : c = '=' := by simpa using hhead
        simp only [Option.some.injEq, Prod.mk.injEq] at h
        obtain ⟨rfl, rfl⟩ := h
        rw [← String.toList_inj, hcs]
        simp [happ]
  · cases h

theorem ne_separator {arg : String} {x : String × Option String} (h : long? arg = some x) :
    arg ≠ "--" := by
  rintro rfl
  cases h

variable {param : Param} {name : String} (h : DateOption param name)

include h

theorem DateOption.eq_name_iff {arg : String} :
    arg = "--" ++ name ↔ long? arg = some (name, none) := by
  refine ⟨?_, fun hlong => by simpa using eq_of_long?_eq_some hlong⟩
  rintro rfl
  cases h <;> rfl

theorem DateOption.eq_assignment_iff {arg text : String} :
    arg = "--" ++ name ++ "=" ++ text ↔ long? arg = some (name, some text) := by
  refine ⟨?_, fun hlong => by simpa [String.append_assoc] using eq_of_long?_eq_some hlong⟩
  rintro rfl
  cases h <;> simp [long?]

theorem DateOption.eq_iff_of_option? {level : Level} (hl : level.hasPeriod = true) {n : String}
    {q : Param} (hq : option? level n = some q) : q = param ↔ n = name := by
  unfold option? at hq
  split at hq <;> simp only [hl, if_true, Option.some.injEq, reduceCtorEq] at hq <;> subst hq <;>
    cases h <;> simp

theorem DateOption.given_cons {arg text : String} {args : List String} :
    Given name text (arg :: args) ↔ arg ≠ "--" ∧
      (long? arg = some (name, none) ∧ (beforeOperands args).head? = some text ∨
        long? arg = some (name, some text) ∨ Given name text args) := by
  rw [← h.eq_name_iff, ← h.eq_assignment_iff, Given, Given, beforeOperands, List.takeWhile_cons]
  by_cases harg : arg = "--"
  · simp [harg]
  · have hhead : [text] <+: args.takeWhile (· ≠ "--") ↔
        (args.takeWhile (· ≠ "--")).head? = some text := by
      cases args.takeWhile (· ≠ "--") <;> simp [List.prefix_cons_iff, eq_comm]
    simp only [harg, ne_eq, not_false_eq_true, decide_true, if_true, List.infix_cons_iff,
      List.cons_prefix_cons, hhead, List.mem_cons, beforeOperands, true_and]
    rw [eq_comm (a := "--" ++ name), eq_comm (a := "--" ++ name ++ "=" ++ text)]
    tauto

end Long

section Takes

/-- Whether reading on from some values reads the texts that are offered for an option, and them
only. -/
structure Takes (param : Param) (offered : String → Prop) (v v' : Values) : Prop where
  keeps : ∀ d, v.date? param = some d → v'.date? param = some d
  reads : ∀ t, offered t → ∃ d, v'.date? param = some d ∧ Date.ofText? t = some d
  only : ∀ d, v'.date? param = some d →
    v.date? param = some d ∨ ∃ t, offered t ∧ Date.ofText? t = some d

variable {param : Param} {name : String} {A B : String → Prop} {u v w : Values}

theorem Takes.of_eq (h : v.date? param = w.date? param) : Takes param (fun _ => False) v w where
  keeps := fun _ hd => h ▸ hd
  reads := fun _ hf => hf.elim
  only := fun _ hd => .inl (h ▸ hd)

theorem Takes.trans (h : Takes param A u v) (h' : Takes param B v w) :
    Takes param (fun t => A t ∨ B t) u w where
  keeps := fun d hd => h'.keeps d (h.keeps d hd)
  reads := by
    rintro t (ht | ht)
    · obtain ⟨d, hd, hread⟩ := h.reads t ht
      exact ⟨d, h'.keeps d hd, hread⟩
    · exact h'.reads t ht
  only := by
    intro d hd
    rcases h'.only d hd with hd | ⟨t, ht, hread⟩
    · rcases h.only d hd with hd | ⟨t, ht, hread⟩
      · exact .inl hd
      · exact .inr ⟨t, .inl ht, hread⟩
    · exact .inr ⟨t, .inr ht, hread⟩

theorem Takes.congr (h : Takes param A v w) (hAB : ∀ t, A t ↔ B t) : Takes param B v w where
  keeps := h.keeps
  reads := fun t ht => h.reads t ((hAB t).2 ht)
  only := fun d hd => (h.only d hd).imp_right fun ⟨t, ht, hread⟩ => ⟨t, (hAB t).1 ht, hread⟩

theorem readDate_eq_ok_iff {text : String} {d : Date} :
    readDate param text = .ok d ↔ Date.ofText? text = some d := by
  unfold readDate Date.read
  rcases Date.ofText? text with _ | d' <;> simp [Except.mapError]

theorem set_eq_ok {q : Param} {value : Option String} (h : v.set q value = .ok w) :
    (∃ text d, value = some text ∧ Date.ofText? text = some d ∧
      (q = .start ∧ v.start = none ∧ w = { v with start := some d } ∨
        q = .stop ∧ v.stop = none ∧ w = { v with stop := some d })) ∨
    q ≠ .start ∧ q ≠ .stop ∧ w.start = v.start ∧ w.stop = v.stop := by
  unfold Values.set at h
  rcases value with _ | text
  · cases q <;> simp only [reduceCtorEq] at h
    split at h <;> cases h
    exact .inr ⟨nofun, nofun, rfl, rfl⟩
  cases q with
  | start | stop =>
    simp only at h
    split at h
    · cases h
    · obtain ⟨d, hd, h⟩ := bind_eq_ok_iff.1 h
      cases h
      rw [readDate_eq_ok_iff] at hd
      simp_all
  | output =>
    refine .inr ⟨nofun, nofun, ?_⟩
    simp only at h
    split at h <;> try cases h
    split at h <;> try cases h
    split at h <;> cases h
    exact ⟨rfl, rfl⟩
  | quiet => cases h
  | path =>
    refine .inr ⟨nofun, nofun, ?_⟩
    simp only at h
    split at h <;> cases h
    exact ⟨rfl, rfl⟩

theorem date?_of_set (hd : DateOption param name) {q : Param} {value : Option String}
    (h : v.set q value = .ok w) :
    q ≠ param ∧ w.date? param = v.date? param ∨
      q = param ∧ ∃ text d, value = some text ∧ Date.ofText? text = some d ∧
        v.date? param = none ∧ w.date? param = some d := by
  rcases set_eq_ok h with ⟨text, d, rfl, hread, ⟨rfl, hnone, rfl⟩ | ⟨rfl, hnone, rfl⟩⟩ |
      ⟨hstart, hstop, hstart', hstop'⟩ <;> cases hd <;> simp_all [Values.date?]

theorem takes_of_set (hd : DateOption param name) {q : Param} {value : Option String}
    (h : v.set q value = .ok w) :
    Takes param (fun t => q = param ∧ value = some t) v w ∧ ¬ (q = param ∧ value = none) := by
  rcases date?_of_set hd h with ⟨hne, heq⟩ | ⟨rfl, text, d, rfl, hread, hnone, hsome⟩
  · exact ⟨(Takes.of_eq heq.symm).congr (by simp [hne]), by simp [hne]⟩
  · refine ⟨⟨?_, ?_, ?_⟩, by simp⟩
    · intro d' hd'
      rw [hnone] at hd'
      cases hd'
    · rintro t ⟨-, ht⟩
      cases ht
      exact ⟨d, hsome, hread⟩
    · intro d' hd'
      rw [hsome] at hd'
      cases hd'
      exact .inr ⟨text, ⟨rfl, rfl⟩, hread⟩

end Takes

namespace Scan

variable {level : Level} {s t : Scan}

theorem settle_eq_ok (h : s.settle = .ok t) :
    t = { s with values := t.values, pending := none, awaiting := false } ∧
      (s.pending = none ∧ t.values = s.values ∨
        ∃ q value, s.pending = some (q, value) ∧ s.values.set q value = .ok t.values) := by
  unfold settle at h
  split at h
  · cases h
    simp_all
  · rename_i q value hpending
    split at h
    · rename_i values hset
      cases h
      exact ⟨rfl, .inr ⟨q, value, hpending, hset⟩⟩
    · cases h

theorem takes_of_settle {param : Param} {name : String} (hd : DateOption param name)
    (h : s.settle = .ok t) :
    Takes param (fun text => s.pending = some (param, some text)) s.values t.values ∧
      s.pending ≠ some (param, none) := by
  rcases (settle_eq_ok h).2 with ⟨hnone, heq⟩ | ⟨q, value, hpending, hset⟩
  · rw [hnone, heq]
    exact ⟨(Takes.of_eq rfl).congr (by simp), nofun⟩
  · obtain ⟨htakes, hvalue⟩ := takes_of_set hd hset
    simp only [hpending, Option.some.injEq, Prod.mk.injEq, ne_eq]
    exact ⟨htakes, hvalue⟩

/-- How one argument of a command is read. -/
inductive Reads (level : Level) (s : Scan) : String → Scan → Prop
  | operand {arg : String} {t : Scan}
      (hplain : s.operandsOnly = true ∨ s.awaiting = false ∧ long? arg = none ∧ arg ≠ "--")
      (h : s.settle = .ok t) :
      Reads level s arg
        { t with pending := some (.path, some arg), awaiting := false, operandSeen := true }
  | separator (h : s.operandsOnly = false) : Reads level s "--" { s with operandsOnly := true }
  | value {arg : String} (h : s.operandsOnly = false) (hawaiting : s.awaiting = true)
      (hplain : long? arg = none ∧ arg ≠ "--") :
      Reads level s arg
        { s with pending := s.pending.map fun p => (p.1, some arg), awaiting := false }
  | awaited {arg name : String} {param : Param} {t : Scan} (h : s.operandsOnly = false)
      (hlong : long? arg = some (name, none)) (hparam : option? level name = some param)
      (ht : s.settle = .ok t) :
      Reads level s arg { t with pending := some (param, none), awaiting := true }
  | assigned {arg name text : String} {param : Param} {t u : Scan} (h : s.operandsOnly = false)
      (hlong : long? arg = some (name, some text)) (hparam : option? level name = some param)
      (ht : s.settle = .ok t) (hu : settle { t with pending := some (param, some text) } = .ok u) :
      Reads level s arg u
  | quiet {arg : String} {t u : Scan} (h : s.operandsOnly = false)
      (hlong : long? arg = some ("quiet", none)) (ht : s.settle = .ok t)
      (hu : settle { t with pending := some (.quiet, none) } = .ok u) : Reads level s arg u

theorem reads_of_readOperand {arg : String}
    (hplain : s.operandsOnly = true ∨ s.awaiting = false ∧ long? arg = none ∧ arg ≠ "--")
    (h : readOperand level s arg = .ok t) : Reads level s arg t := by
  unfold readOperand at h
  split at h
  · obtain ⟨u, hu, h⟩ := bind_eq_ok_iff.1 h
    obtain ⟨t', ht', hu⟩ := bind_eq_ok_iff.1 hu
    cases hu
    cases h
    exact .operand (t := t') hplain ht'
  · split at h <;> cases h

theorem reads_of_readLong {arg name : String} {value : Option String} (hl : level.hasPeriod = true)
    (hs : s.operandsOnly = false) (hlong : long? arg = some (name, value))
    (h : readLong level s name value = .ok t) : Reads level s arg t := by
  have htop := level.ne_top hl
  rcases hparam : option? level name with _ | param <;> rcases value with _ | text <;>
    simp only [readLong, hparam, htop, and_false, if_false] at h
  · split at h
    · rename_i hname
      subst hname
      obtain ⟨u, hu, h⟩ := bind_eq_ok_iff.1 h
      exact .quiet hs hlong hu h
    · split at h
      · obtain ⟨u, hu, h⟩ := bind_eq_ok_iff.1 h
        cases h
      · cases h
  · split at h
    · cases h
    · split at h <;> cases h
  · obtain ⟨u, hu, h⟩ := bind_eq_ok_iff.1 h
    cases h
    exact .awaited (t := u) hs hlong hparam hu
  · obtain ⟨u, hu, h⟩ := bind_eq_ok_iff.1 h
    exact .assigned hs hlong hparam hu h

theorem exists_reads_of_scan {arg : String} {args rest : List String} {u : Scan}
    (hl : level.hasPeriod = true) (h : scan level s (arg :: args) = .ok (u, rest)) :
    ∃ t, Reads level s arg t ∧ scan level t args = .ok (u, rest) := by
  have htop := level.ne_top hl
  rw [scan] at h
  simp only [htop, false_and, if_false] at h
  split at h
  · rename_i hs
    obtain ⟨t, ht, h⟩ := bind_eq_ok_iff.1 h
    exact ⟨t, reads_of_readOperand (.inl hs) ht, h⟩
  · rename_i hs
    rw [Bool.not_eq_true] at hs
    split at h
    · rename_i harg
      subst harg
      exact ⟨_, .separator hs, h⟩
    · rename_i harg
      split at h
      · rename_i name value hlong
        obtain ⟨t, ht, h⟩ := bind_eq_ok_iff.1 h
        exact ⟨t, reads_of_readLong hl hs hlong ht, h⟩
      · rename_i hlong
        split at h
        · cases h
        · split at h
          · rename_i hawaiting
            exact ⟨_, .value hs hawaiting ⟨hlong, harg⟩, h⟩
          · rename_i hawaiting
            obtain ⟨t, ht, h⟩ := bind_eq_ok_iff.1 h
            exact ⟨t, reads_of_readOperand
              (.inr ⟨Bool.eq_false_of_not_eq_true hawaiting, hlong, harg⟩) ht, h⟩

/-- Whether the pending option or the arguments that follow offer a text to an option. -/
def Offers (s : Scan) (param : Param) (name : String) (args : List String) (text : String) : Prop :=
  s.pending = some (param, some text) ∨ s.operandsOnly = false ∧
    (s.awaiting = true ∧ s.pending = some (param, none) ∧
        (beforeOperands args).head? = some text ∨ Given name text args)

/-- Whether only an option without a value waits for one. -/
def Waiting (s : Scan) : Prop := s.awaiting = true → ∃ q, s.pending = some (q, none)

variable {param : Param} {name : String} (hd : DateOption param name)

include hd

theorem Reads.takes {arg : String} (hl : level.hasPeriod = true) (hw : s.Waiting)
    (h : Reads level s arg t) : t.Waiting ∧ ∃ offered, Takes param offered s.values t.values ∧
      ∀ args text, s.Offers param name (arg :: args) text ↔
        offered text ∨ t.Offers param name args text := by
  have hsettle : ∀ {u : Scan}, s.settle = .ok u →
      u.pending = none ∧ u.awaiting = false ∧ u.operandsOnly = s.operandsOnly := by
    intro u hu
    rw [(settle_eq_ok hu).1]
    exact ⟨rfl, rfl, rfl⟩
  cases h with
  | @operand _ u hplain hu =>
    obtain ⟨htakes, hvalue⟩ := takes_of_settle hd hu
    refine ⟨nofun, _, htakes, fun args text => ?_⟩
    have hparam : Param.path ≠ param := by cases hd <;> nofun
    simp only [Offers, hvalue, hd.given_cons, (hsettle hu).2.2, Option.some.injEq, Prod.mk.injEq,
      hparam]
    rcases hplain with hs | ⟨hs, hlong, harg⟩
    · simp [hs]
    · simp [hlong, harg]
  | separator h =>
    refine ⟨hw, fun _ => False, .of_eq rfl, fun args text => ?_⟩
    simp [Offers, hd.given_cons, beforeOperands]
  | value h hawaiting hplain =>
    obtain ⟨q, hq⟩ := hw hawaiting
    refine ⟨nofun, fun _ => False, .of_eq rfl, fun args text => ?_⟩
    simp [Offers, hd.given_cons, beforeOperands, h, hq, hawaiting, hplain]
  | @awaited _ n q u h hlong hparam hu =>
    obtain ⟨htakes, hvalue⟩ := takes_of_settle hd hu
    have hq := hd.eq_iff_of_option? hl hparam
    refine ⟨fun _ => ⟨q, rfl⟩, _, htakes, fun args text => ?_⟩
    simp [Offers, hd.given_cons, h, hvalue, hlong, hq, ne_separator hlong, hsettle hu]
  | @assigned _ n value q u t h hlong hparam hu ht =>
    obtain ⟨htakes, hvalue⟩ := takes_of_settle hd hu
    obtain ⟨htakes', -⟩ := takes_of_settle hd ht
    have hq := hd.eq_iff_of_option? hl hparam
    rw [(settle_eq_ok ht).1]
    refine ⟨nofun, _, htakes.trans htakes', fun args text => ?_⟩
    simp [Offers, hd.given_cons, h, hvalue, hlong, hq, ne_separator hlong, hsettle hu, or_assoc]
  | @quiet _ u t h hlong hu ht =>
    obtain ⟨htakes, hvalue⟩ := takes_of_settle hd hu
    obtain ⟨htakes', -⟩ := takes_of_settle hd ht
    have hname : "quiet" ≠ name := by cases hd <;> decide
    rw [(settle_eq_ok ht).1]
    refine ⟨nofun, _, htakes.trans htakes', fun args text => ?_⟩
    simp [Offers, hd.given_cons, h, hvalue, hlong, hname, ne_separator hlong, hsettle hu]

theorem takes_of_scan (hl : level.hasPeriod = true) {rest : List String} {u : Scan} :
    ∀ {args : List String} {s : Scan}, s.Waiting → scan level s args = .ok (t, rest) →
      t.settle = .ok u → Takes param (s.Offers param name args) s.values u.values
  | [], s, hw, h, hu => by
    cases h
    obtain ⟨htakes, hvalue⟩ := takes_of_settle hd hu
    exact htakes.congr fun text => by simp [Offers, Given, beforeOperands]
  | arg :: args, s, hw, h, hu => by
    obtain ⟨s', hs', h⟩ := exists_reads_of_scan hl h
    obtain ⟨hw', offered, htakes, hoffers⟩ := hs'.takes hd hl hw
    exact (htakes.trans (takes_of_scan hl hw' h hu)).congr fun text => (hoffers args text).symm

end Scan

/-- Whether a date is what arguments give for an option, if they give anything. -/
structure Dated (name : String) (args : List String) (date? : Option Date) : Prop where
  reads : ∀ t, Given name t args → ∃ d, date? = some d ∧ Date.ofText? t = some d
  given : ∀ d, date? = some d → ∃ t, Given name t args ∧ Date.ofText? t = some d

variable {level : Level} {args : List String} {v : Values}

/-- A command with a period has its path and its first day, and its dates are those given. -/
theorem readCommand_eq_ok (hl : level.hasPeriod = true) (h : readCommand level args = .ok v) :
    v.path.isSome = true ∧ v.start.isSome = true ∧
      ∀ {param name}, DateOption param name → Dated name args (v.date? param) := by
  obtain ⟨⟨s, rest⟩, hs, h⟩ := bind_eq_ok_iff.1 h
  obtain ⟨u, hu, h⟩ := bind_eq_ok_iff.1 h
  have hsome : u.values.path.isSome = true ∧ u.values.start.isSome = true ∧ u.values = v := by
    rcases hpath : u.values.path with _ | path <;> rcases hstart : u.values.start with _ | start <;>
      simp_all [pure, Except.pure]
  obtain ⟨hpath, hstart, rfl⟩ := hsome
  refine ⟨hpath, hstart, fun {param name} hd => ?_⟩
  have hwaiting : Scan.begin.Waiting := fun h => nomatch h
  have htakes := Scan.takes_of_scan hd hl hwaiting hs hu
  have hnone : Scan.begin.values.date? param = none := by cases hd <;> rfl
  constructor
  · exact fun t ht => htakes.reads t (.inr ⟨rfl, .inr ht⟩)
  · intro d hdate
    rcases htakes.only d hdate with hd' | ⟨t, ht, hread⟩
    · rw [hnone] at hd'
      cases hd'
    · rcases ht with ht | ⟨-, ⟨ht, -⟩ | ht⟩
      · cases ht
      · cases ht
      · exact ⟨t, ht, hread⟩

theorem suffix_of_scan {rest : List String} {t : Scan} : ∀ {args : List String} {s : Scan},
    scan level s args = .ok (t, rest) → rest <:+ args
  | [], s, h => by
    cases h
    exact List.suffix_refl _
  | arg :: args, s, h => by
    have hcons : ∀ {s'}, scan level s' args = .ok (t, rest) → rest <:+ arg :: args :=
      fun h => (suffix_of_scan h).trans (List.suffix_cons _ _)
    rw [scan] at h
    split at h
    · obtain ⟨s', -, h⟩ := bind_eq_ok_iff.1 h
      exact hcons h
    · split at h
      · cases h
        exact List.suffix_refl _
      · split at h
        · exact hcons h
        · split at h
          · obtain ⟨s', -, h⟩ := bind_eq_ok_iff.1 h
            exact hcons h
          · split at h
            · cases h
            · split at h
              · exact hcons h
              · obtain ⟨s', -, h⟩ := bind_eq_ok_iff.1 h
                exact hcons h

theorem command?_eq_some {name : String} (h : command? name = some level) :
    level ≠ .top ∧ name = level.name := by
  have hmem := List.mem_of_find?_eq_some h
  have hname := List.find?_some h
  refine ⟨?_, (of_decide_eq_true hname).symm⟩
  rintro rfl
  exact absurd hmem (by decide)

theorem readArguments_eq_ok {r : Request} (h : readArguments args = .ok r) :
    ∃ before level after v, args = before ++ level.name :: after ∧
      readCommand level after = .ok v ∧ r.action = actionOf level v := by
  obtain ⟨⟨s, rest⟩, hs, h⟩ := bind_eq_ok_iff.1 h
  obtain ⟨before, hbefore⟩ := suffix_of_scan hs
  rcases rest with _ | ⟨name, after⟩
  · obtain ⟨u, hu, h⟩ := bind_eq_ok_iff.1 h
    split at h <;> cases h
  · dsimp only at h
    split at h
    · cases h
    · rename_i level hlevel
      obtain ⟨v, hv, h⟩ := bind_eq_ok_iff.1 h
      obtain ⟨u, hu, h⟩ := bind_eq_ok_iff.1 h
      cases h
      exact ⟨before, level, after, v, by rw [← hbefore, (command?_eq_some hlevel).2], hv, rfl⟩

section Ends

variable {α β : Type} {s : Scan}

/-- Whether reading that has no result ends in the help for a level or with a wrong argument. -/
def Ends (level : Level) (x : Except Interrupt α) : Prop :=
  ∀ i, x = .error i → i = .help level ∨ ∃ e, i = .error e

theorem ends_ok {a : α} : Ends level (.ok a) := nofun

theorem ends_error {e : UsageError} : Ends (α := α) level (.error (.error e)) := by
  rintro _ ⟨⟩
  exact .inr ⟨e, rfl⟩

theorem ends_help : Ends (α := α) level (.error (.help level)) := by
  rintro _ ⟨⟩
  exact .inl rfl

theorem Ends.bind {x : Except Interrupt α} {f : α → Except Interrupt β} (hx : Ends level x)
    (hf : ∀ a, Ends level (f a)) : Ends level (x >>= f) := by
  rcases x with i | a
  · rintro _ ⟨⟩
    exact hx i rfl
  · exact hf a

theorem Ends.ite {P : Prop} [Decidable P] {x y : Except Interrupt α} (hx : Ends level x)
    (hy : Ends level y) : Ends level (if P then x else y) := by
  split
  · exact hx
  · exact hy

theorem ends_settle : Ends level s.settle := by
  unfold Scan.settle
  split
  · exact ends_ok
  · split
    · exact ends_ok
    · exact ends_error

theorem ends_readOperand {arg : String} : Ends level (readOperand level s arg) := by
  have hhold : Ends level (s.hold .path (some arg)) := ends_settle.bind fun _ => ends_ok
  exact .ite (hhold.bind fun _ => ends_ok) (.ite ends_error ends_error)

theorem ends_readLong (hl : level ≠ .top) {name : String} {value : Option String} :
    Ends level (readLong level s name value) := by
  rcases hparam : option? level name with _ | param <;> rcases value with _ | text <;>
    simp only [readLong, hparam, hl, and_false, if_false]
  · exact .ite (ends_settle.bind fun _ => ends_settle)
      (.ite (ends_settle.bind fun _ => ends_help) ends_error)
  · exact .ite ends_error (.ite ends_error ends_error)
  · exact ends_settle.bind fun _ => ends_ok
  · exact ends_settle.bind fun _ => ends_settle

theorem ends_readShort (hl : level ≠ .top) {letter : Char} :
    Ends (α := α) level (.error (readShort level s letter)) := by
  have hsettle := @ends_settle level s
  simp only [readShort, hl, and_false, if_false]
  split
  · rcases hs : s.settle with e | u
    · rintro _ ⟨⟩
      exact hsettle e hs
    · exact ends_help
  · exact ends_error

theorem ends_scan (hl : level ≠ .top) : ∀ {args : List String} {s : Scan},
    Ends level (scan level s args)
  | [], s => ends_ok
  | arg :: args, s => by
    rw [scan]
    simp only [hl, false_and, if_false]
    split
    · exact ends_readOperand.bind fun _ => ends_scan hl
    · split
      · exact ends_scan hl
      · split
        · exact (ends_readLong hl).bind fun _ => ends_scan hl
        · split
          · exact ends_readShort hl
          · split
            · exact ends_scan hl
            · exact ends_readOperand.bind fun _ => ends_scan hl

theorem ends_readCommand (hl : level ≠ .top) : Ends level (readCommand level args) := by
  refine (ends_scan hl).bind fun x => ends_settle.bind fun u => ?_
  exact .ite ends_error ends_ok

end Ends

theorem readArguments_cons (hl : level ≠ .top) : readArguments (level.name :: args) =
    (readCommand level args).map fun v => ⟨v.output.getD .text, v.quiet, actionOf level v⟩ := by
  have hcommand : command? level.name = some level := by
    cases level <;> first | rfl | exact absurd rfl hl
  have hscan : scan .top .begin (level.name :: args) = .ok (.begin, level.name :: args) := by
    rw [scan]
    simp [Scan.begin, hcommand]
  simp only [readArguments, hscan, bind, Except.bind, hcommand]
  rcases readCommand level args with i | v
  · rfl
  · simp [Scan.settle, Scan.begin, Values.none, Except.map, pure, Except.pure]

end DatedRules.CommandLine
