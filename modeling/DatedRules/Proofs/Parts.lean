import DatedRules.Proofs.DateOptions
import Mathlib.Data.List.Nodup

/-!
# Arguments in parts

The arguments of a command come in parts of one or two: the path, the dates, the format and the
flag. A scan that holds some values (`Scan.Holds`) reads the arguments of one more part and then
holds its value too (`Scan.Holds.scan_part`). The format in an argument of its own and the path are
still pending then, so what a scan holds is what it has when that is settled.

By induction parts with different parameters are all read (`Scan.Holds.scan_parts`). Their values
are independent of each other, and so of the order of the parts (`valuesOf_perm`). With what stands
before the command these are the values of the request (`readArguments_parts`).
-/

namespace DatedRules.CommandLine

def Format.name : Format → String
  | text => "text"
  | json => "json"

/-- What a reconciliation is asked for with. The format may stand in an argument of its own. -/
inductive Part
  | path (text : String)
  | start (text : String)
  | stop (text : String)
  | output (format : Format) (apart : Bool)
  | quiet

namespace Part

def param : Part → Param
  | path _ => .path
  | start _ => .start
  | stop _ => .stop
  | output _ _ => .output
  | quiet => .quiet

def value : Part → Option String
  | path text | start text | stop text => some text
  | output format _ => some format.name
  | quiet => none

def args : Part → List String
  | path text => [text]
  | start text => ["--from=" ++ text]
  | stop text => ["--to=" ++ text]
  | output format false => ["--output=" ++ format.name]
  | output format true => ["--output", format.name]
  | quiet => ["--quiet"]

/-- Whether a part can be read: a path is not taken for an option, and a date is one. -/
def Readable : Part → Prop
  | path text => text ≠ "" ∧ text.toList.head? ≠ some '-'
  | start text | stop text => ∃ d, Date.ofText? text = some d
  | output _ _ | quiet => True

/-- Whether a part may also stand before the command. -/
def Global : Part → Prop
  | output _ _ | quiet => True
  | path _ | start _ | stop _ => False

end Part

def Values.add (v : Values) : Part → Values
  | .path text => { v with path := some text }
  | .start text => { v with start := Date.ofText? text }
  | .stop text => { v with stop := Date.ofText? text }
  | .output format _ => { v with output := some format }
  | .quiet => { v with quiet := true }

def Values.has (v : Values) : Param → Bool
  | .output => v.output.isSome
  | .quiet => v.quiet
  | .path => v.path.isSome
  | .start => v.start.isSome
  | .stop => v.stop.isSome

theorem has_none (param : Param) : Values.none.has param = false := by
  cases param <;> rfl

theorem set_part {v : Values} {part : Part} (hpart : part.Readable)
    (hv : v.has part.param = false) : v.set part.param part.value = .ok (v.add part) := by
  cases part with
  | path text => simp_all [Part.Readable, Part.param, Part.value, Values.set, Values.add]
  | start text =>
    obtain ⟨d, hd⟩ := hpart
    simp_all [Part.param, Part.value, Values.set, Values.add, Values.has, readDate_eq_ok_iff.2 hd]
  | stop text =>
    obtain ⟨d, hd⟩ := hpart
    simp_all [Part.param, Part.value, Values.set, Values.add, Values.has, readDate_eq_ok_iff.2 hd]
  | output format apart =>
    cases format <;>
      simp_all [Part.param, Part.value, Values.set, Values.add, Values.has, Format.name,
        readFormat?]
  | quiet => simp_all [Part.param, Part.value, Values.set, Values.add, Values.has]

theorem add_comm_of_ne {v : Values} {p q : Part} (h : p.param ≠ q.param) :
    (v.add p).add q = (v.add q).add p := by
  cases p <;> cases q <;> first | rfl | exact absurd rfl h

theorem has_add_of_ne {v : Values} {p : Part} {param : Param} (h : param ≠ p.param) :
    (v.add p).has param = v.has param := by
  cases p <;> cases param <;> first | rfl | exact absurd rfl h

namespace Scan

variable {level : Level} {s : Scan} {v : Values}

/-- Whether a scan has come to some values, the last of which may be pending, and goes on with
options. -/
structure Holds (s : Scan) (v : Values) : Prop where
  settle : s.settle = .ok ⟨v, none, false, false, v.path.isSome⟩
  seen : s.operandSeen = v.path.isSome
  awaiting : s.awaiting = false
  operandsOnly : s.operandsOnly = false

theorem holds_settled (v : Values) : Holds ⟨v, none, false, false, v.path.isSome⟩ v :=
  ⟨rfl, rfl, rfl, rfl⟩

theorem scan_long {arg name : String} {value : Option String} {args : List String}
    (hs : s.operandsOnly = false) (hlong : long? arg = some (name, value)) :
    scan level s (arg :: args) = readLong level s name value >>= fun t => scan level t args := by
  have hcommand : ¬ ((command? arg).isSome = true ∨ arg = "help") := by
    rintro (h | rfl)
    · obtain ⟨l, hl⟩ := Option.isSome_iff_exists.1 h
      rw [(command?_eq_some hl).2] at hlong
      cases l <;> cases hlong
    · cases hlong
  rw [scan]
  simp only [hs, Bool.false_eq_true, if_false, hcommand, and_false, ne_separator hlong, hlong]

theorem Holds.put {part : Part} (hs : s.Holds v) (hpart : part.Readable)
    (hv : v.has part.param = false) (hpath : part.param ≠ .path) :
    s.put part.param part.value =
      .ok ⟨v.add part, none, false, false, (v.add part).path.isSome⟩ := by
  have hsame : (v.add part).path = v.path := by
    cases part <;> first | rfl | exact absurd rfl hpath
  rw [Scan.put, hs.settle, hsame]
  simp [bind, Except.bind, Scan.settle, set_part hpart hv]

theorem Holds.scan_put {part : Part} {arg name : String} {value : Option String} (hs : s.Holds v)
    (hpart : part.Readable) (hv : v.has part.param = false) (hpath : part.param ≠ .path)
    (hlong : long? arg = some (name, value))
    (hread : readLong level s name value = s.put part.param part.value) :
    ∃ t : Scan, t.Holds (v.add part) ∧ ∀ rest, scan level s (arg :: rest) = scan level t rest := by
  refine ⟨_, holds_settled _, fun rest => ?_⟩
  rw [scan_long hs.operandsOnly hlong, hread, hs.put hpart hv hpath]
  rfl

theorem Holds.scan_path {text : String} (hs : s.Holds v) (hl : level.hasPeriod = true)
    (htext : text ≠ "" ∧ text.toList.head? ≠ some '-') (hv : v.path = none) :
    ∃ t : Scan, t.Holds (v.add (.path text)) ∧
      ∀ rest, scan level s (text :: rest) = scan level t rest := by
  have hlong : long? text = none := by
    unfold long?
    split <;> simp_all
  have hshort : short? text = none := by
    unfold short?
    split <;> simp_all
  have hne : text ≠ "--" := by
    rintro rfl
    exact htext.2 rfl
  refine ⟨⟨v, some (.path, some text), false, false, true⟩, ⟨?_, rfl, rfl, rfl⟩, fun rest => ?_⟩
  · simp [Scan.settle, Values.set, htext, Values.add]
  · have hread : readOperand level s text =
        .ok ⟨v, some (.path, some text), false, false, true⟩ := by
      simp [readOperand, hl, hs.seen, hv, Scan.hold, hs.settle, bind, Except.bind, pure,
        Except.pure]
    rw [scan]
    simp [hs.operandsOnly, hs.awaiting, level.ne_top hl, hne, hlong, hshort, hread, bind,
      Except.bind]

/-- A format in an argument of its own is pending in the end. -/
theorem Holds.scan_apart {format : Format} (hs : s.Holds v) (hv : v.output = none) :
    ∃ t : Scan, t.Holds (v.add (.output format true)) ∧
      ∀ rest, scan level s ("--output" :: format.name :: rest) = scan level t rest := by
  refine ⟨⟨v, some (.output, some format.name), false, false, v.path.isSome⟩, ⟨?_, rfl, rfl, rfl⟩,
    fun rest => ?_⟩
  · cases format <;> simp [Scan.settle, Values.set, hv, Format.name, readFormat?, Values.add]
  · have hread : readLong level s "output" none =
        .ok ⟨v, some (.output, none), true, false, v.path.isSome⟩ := by
      simp [readLong, option?, Scan.hold, hs.settle, bind, Except.bind, pure, Except.pure]
    have hlong : long? "--output" = some ("output", none) := by decide
    have hname : long? format.name = none ∧ short? format.name = none ∧ format.name ≠ "--" := by
      cases format <;> decide
    rw [scan_long hs.operandsOnly hlong, hread]
    simp only [bind, Except.bind]
    rw [scan]
    simp [hname]

/-- One part is read, and leaves the rest of the arguments as it is. -/
theorem Holds.scan_part {part : Part} (hs : s.Holds v) (hpart : part.Readable)
    (hv : v.has part.param = false) (hl : level.hasPeriod = true ∨ part.Global) :
    ∃ t : Scan, t.Holds (v.add part) ∧
      ∀ rest, scan level s (part.args ++ rest) = scan level t rest := by
  cases part with
  | path text =>
    exact hs.scan_path (hl.resolve_right id) hpart (by simpa [Part.param, Values.has] using hv)
  | start text =>
    have hlong : long? ("--from=" ++ text) = some ("from", some text) := by simp [long?]
    refine hs.scan_put hpart hv (by simp [Part.param]) hlong ?_
    simp [readLong, option?, hl.resolve_right id, Part.param, Part.value]
  | stop text =>
    have hlong : long? ("--to=" ++ text) = some ("to", some text) := by simp [long?]
    refine hs.scan_put hpart hv (by simp [Part.param]) hlong ?_
    simp [readLong, option?, hl.resolve_right id, Part.param, Part.value]
  | output format apart =>
    cases apart with
    | false =>
      have hlong : long? ("--output=" ++ format.name) = some ("output", some format.name) := by
        simp [long?]
      refine hs.scan_put hpart hv (by simp [Part.param]) hlong ?_
      simp [readLong, option?, Part.param, Part.value]
    | true => exact hs.scan_apart (by simpa [Part.param, Values.has] using hv)
  | quiet =>
    have hlong : long? "--quiet" = some ("quiet", none) := by decide
    refine hs.scan_put hpart hv (by simp [Part.param]) hlong ?_
    simp [readLong, option?, Part.param, Part.value]

theorem Holds.scan_parts : ∀ {parts : List Part} {s : Scan} {v : Values}, s.Holds v →
    (∀ p ∈ parts, p.Readable) → (parts.map Part.param).Nodup →
      (∀ p ∈ parts, v.has p.param = false) →
        (level.hasPeriod = true ∨ ∀ p ∈ parts, p.Global) →
          ∃ t : Scan, t.Holds (parts.foldl Values.add v) ∧
            ∀ rest, scan level s (parts.flatMap Part.args ++ rest) = scan level t rest
  | [], s, _, hs, _, _, _, _ => ⟨s, hs, fun _ => rfl⟩
  | p :: ps, s, v, hs, hread, hnodup, hv, hl => by
    rw [List.forall_mem_cons] at hread hv
    rw [List.forall_mem_cons] at hl
    rw [List.map_cons, List.nodup_cons] at hnodup
    obtain ⟨t, ht, hscan⟩ := hs.scan_part hread.1 hv.1 (hl.imp_right And.left)
    have hv' : ∀ q ∈ ps, (v.add p).has q.param = false := by
      intro q hq
      rw [has_add_of_ne fun h => hnodup.1 (List.mem_map.2 ⟨q, hq, h⟩)]
      exact hv.2 q hq
    obtain ⟨u, hu, hscan'⟩ := ht.scan_parts hread.2 hnodup.2 hv' (hl.imp_right And.right)
    refine ⟨u, hu, fun rest => ?_⟩
    rw [List.flatMap_cons, List.append_assoc, hscan, hscan']

end Scan

def valuesOf (parts : List Part) : Values := parts.foldl Values.add .none

theorem exists_scan_parts {level : Level} {parts : List Part} (hread : ∀ p ∈ parts, p.Readable)
    (hnodup : (parts.map Part.param).Nodup)
    (hl : level.hasPeriod = true ∨ ∀ p ∈ parts, p.Global) :
    ∃ t : Scan, t.Holds (valuesOf parts) ∧
      ∀ rest, scan level .begin (parts.flatMap Part.args ++ rest) = scan level t rest :=
  (Scan.holds_settled .none).scan_parts hread hnodup (fun _ _ => has_none _) hl

theorem valuesOf_perm {ps qs : List Part} (h : ps.Perm qs) (hnodup : (ps.map Part.param).Nodup) :
    valuesOf ps = valuesOf qs := by
  refine h.foldl_eq' (fun p hp q hq v => ?_) _
  by_cases hparam : p.param = q.param
  · rw [List.inj_on_of_nodup_map hnodup hp hq hparam]
  · exact add_comm_of_ne hparam

section Parts

variable {level : Level} {before after : List Part}

theorem readCommand_parts (hl : level.hasPeriod = true) (hread : ∀ p ∈ after, p.Readable)
    (hnodup : (after.map Part.param).Nodup) (hpath : (valuesOf after).path.isSome = true)
    (hstart : (valuesOf after).start.isSome = true) :
    readCommand level (after.flatMap Part.args) = .ok (valuesOf after) := by
  obtain ⟨t, ht, hscan⟩ := exists_scan_parts hread hnodup (.inl hl)
  have hend : scan level .begin (after.flatMap Part.args) = .ok (t, []) := by
    have := hscan []
    rwa [List.append_nil] at this
  simp [readCommand, hend, ht.settle, bind, Except.bind, pure, Except.pure, ← Option.not_isSome,
    hpath, hstart]

theorem readArguments_parts (hl : level.hasPeriod = true) (hglobal : ∀ p ∈ before, p.Global)
    (hnodup : (before.map Part.param).Nodup) {v : Values}
    (hv : readCommand level (after.flatMap Part.args) = .ok v) :
    readArguments (before.flatMap Part.args ++ level.name :: after.flatMap Part.args) = .ok {
      output := (v.output.or (valuesOf before).output).getD .text
      quiet := v.quiet || (valuesOf before).quiet
      action := actionOf level v } := by
  have hread : ∀ p ∈ before, p.Readable := fun p hp => by
    have := hglobal p hp
    cases p <;> trivial
  obtain ⟨t, ht, hscan⟩ := @exists_scan_parts .top before hread hnodup (.inr hglobal)
  have hcommand : command? level.name = some level := by
    cases level <;> first | rfl | cases hl
  have hend : scan .top .begin (before.flatMap Part.args ++ level.name :: after.flatMap Part.args) =
      .ok (t, level.name :: after.flatMap Part.args) := by
    refine (hscan _).trans ?_
    rw [scan]
    simp [ht.operandsOnly, ht.awaiting, hcommand]
  simp [readArguments, hend, hcommand, hv, ht.settle, bind, Except.bind, pure, Except.pure]

end Parts

end DatedRules.CommandLine
