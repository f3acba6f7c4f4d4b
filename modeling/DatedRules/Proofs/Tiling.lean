import DatedRules.Period
import Mathlib.Data.List.Chain
import Mathlib.Data.List.Forall2
import Mathlib.Data.List.Pairwise

/-!
# Tilings of a period

A list of periods tiles a period (`Period.Tiles`) if it is the period itself, or starts with a piece
that ends at a date strictly inside the period and goes on with a tiling of the rest. Such a list
starts and ends as the period does, each piece starts where the one before it ends, and it has every
date of the period in exactly one piece (`Period.Tiles.mem_iff`, `Period.Tiles.eq_of_mem`).

A partition tiles its period (`Period.tiles_partition`), and no breakpoint is strictly inside one of
its pieces (`Period.not_inside_of_mem_partition`). Tilings of the pieces of a tiling tile the whole
(`Period.Tiles.flatten`).
-/

namespace DatedRules

namespace Period

theorem before_some {d e : Date} : Before d (some e) ↔ d < e := by simp [Before]

theorem Before.of_le {d d' : Date} {stop : Option Date} (h : d ≤ d') (h' : Before d' stop) :
    Before d stop := fun e he => Date.lt_of_le_of_lt h (h' e he)

theorem start_mem (p : Period) : p.start ∈ p := ⟨Date.le_refl _, p.start_lt⟩

/-- One period is over before another starts. -/
def Precedes (p q : Period) : Prop := ∃ e ∈ p.stop, e ≤ q.start

theorem Precedes.start_lt {p q : Period} (h : p.Precedes q) : p.start < q.start := by
  obtain ⟨e, he, hle⟩ := h
  exact Date.lt_of_lt_of_le (p.start_lt e he) hle

theorem Precedes.not_mem {p q : Period} (h : p.Precedes q) {d : Date} (hd : d ∈ p) : d ∉ q := by
  obtain ⟨e, he, hle⟩ := h
  intro hq
  have h₁ := Date.lt_of_lt_of_le (hd.2 e he) hle
  exact Date.lt_irrefl d (Date.lt_of_lt_of_le h₁ hq.1)

/-- The periods make up a period, one after the other. -/
inductive Tiles : Period → List Period → Prop
  | whole (p : Period) : Tiles p [p]
  | cut {p : Period} {b : Date} {qs : List Period} (h : Inside b p) :
      Tiles ⟨b, p.stop, h.2⟩ qs → Tiles p (⟨p.start, some b, by simpa using h.1⟩ :: qs)

namespace Tiles

variable {p : Period} {qs : List Period}

theorem first (h : p.Tiles qs) : qs.head?.map start = some p.start := by
  cases h <;> rfl

theorem ne_nil (h : p.Tiles qs) : qs ≠ [] := by
  cases h <;> simp

theorem last (h : p.Tiles qs) : qs.getLast?.map stop = some p.stop := by
  induction h with
  | whole p => rfl
  | cut _ hqs ih =>
    rw [List.getLast?_cons_of_ne_nil hqs.ne_nil]
    exact ih

/-- Each piece starts where the one before it ends. -/
theorem joined (h : p.Tiles qs) : qs.IsChain fun q q' => q.stop = some q'.start := by
  induction h with
  | whole p => simp
  | cut _ hqs ih =>
    refine .cons ih fun q hq => ?_
    have hf := hqs.first
    rw [Option.mem_def.1 hq] at hf
    simp only [Option.map_some, Option.some.injEq] at hf ⊢
    exact hf.symm

theorem start_le (h : p.Tiles qs) {q : Period} (hq : q ∈ qs) : p.start ≤ q.start := by
  induction h with
  | whole p => simp_all [Date.le_refl]
  | cut hb _ ih =>
    rcases List.mem_cons.1 hq with rfl | hq
    · exact Date.le_refl _
    · exact Date.le_trans (Date.le_of_lt hb.1) (ih hq)

/-- A date before the end of a piece is before the end of the period. -/
theorem before (h : p.Tiles qs) {q : Period} (hq : q ∈ qs) {d : Date} (hd : Before d q.stop) :
    Before d p.stop := by
  induction h with
  | whole p => simp_all
  | cut hb _ ih =>
    rcases List.mem_cons.1 hq with rfl | hq
    · exact hb.2.of_le (Date.le_of_lt (before_some.1 hd))
    · exact ih hq

theorem inside (h : p.Tiles qs) {q : Period} (hq : q ∈ qs) {d : Date} (hd : Inside d q) :
    Inside d p :=
  ⟨Date.lt_of_le_of_lt (h.start_le hq) hd.1, h.before hq hd.2⟩

/-- The pieces have the dates of the period and no others. -/
theorem mem_iff (h : p.Tiles qs) {d : Date} : d ∈ p ↔ ∃ q ∈ qs, d ∈ q := by
  refine ⟨fun hd => ?_, fun ⟨q, hq, hd⟩ =>
    ⟨Date.le_trans (h.start_le hq) hd.1, h.before hq hd.2⟩⟩
  induction h with
  | whole p => exact ⟨p, by simp, hd⟩
  | @cut p b qs hb _ ih =>
    by_cases hlt : d < b
    · exact ⟨_, List.mem_cons_self .., hd.1, before_some.2 hlt⟩
    · obtain ⟨q, hq, hdq⟩ := ih ⟨Date.not_lt.1 hlt, hd.2⟩
      exact ⟨q, List.mem_cons_of_mem _ hq, hdq⟩

/-- Every piece is over before a later one starts. -/
theorem ordered (h : p.Tiles qs) : qs.Pairwise Precedes := by
  induction h with
  | whole p => simp
  | cut _ hqs ih => exact .cons (fun q hq => ⟨_, rfl, hqs.start_le hq⟩) ih

/-- No date is in two pieces. -/
theorem eq_of_mem (h : p.Tiles qs) {q q' : Period} (hq : q ∈ qs) (hq' : q' ∈ qs) {d : Date}
    (hd : d ∈ q) (hd' : d ∈ q') : q = q' := by
  have hdis : qs.Pairwise fun a b => d ∈ a → d ∈ b → a = b :=
    h.ordered.imp fun hab ha hb => absurd hb (hab.not_mem ha)
  have hflip : qs.Pairwise (flip fun a b => d ∈ a → d ∈ b → a = b) :=
    h.ordered.imp fun hab hb ha => absurd hb (hab.not_mem ha)
  exact List.Pairwise.forall_of_forall_of_flip (fun _ _ _ _ => rfl) hdis hflip hq hq' hd hd'

/-- Tilings of the two parts of a period that is cut at `b` tile the period. -/
theorem append {b : Date} (hb : Inside b p) {xs ys : List Period} {p₁ : Period}
    (hx : p₁.Tiles xs) (hstart : p₁.start = p.start) (hstop : p₁.stop = some b)
    (hy : Tiles ⟨b, p.stop, hb.2⟩ ys) : p.Tiles (xs ++ ys) := by
  induction hx generalizing p with
  | whole q =>
    obtain ⟨s, e, hse⟩ := q
    subst hstart hstop
    exact .cut hb hy
  | @cut q c xs hc _ ih =>
    have hcb : c < b := hc.2 b hstop
    have hcp : Inside c p := ⟨hstart ▸ hc.1, hb.2.of_le (Date.le_of_lt hcb)⟩
    have htail : Tiles ⟨c, p.stop, hcp.2⟩ (xs ++ ys) := ih ⟨hcb, hb.2⟩ rfl hstop hy
    have := Tiles.cut hcp htail
    simpa only [hstart, List.cons_append] using this

/-- Tilings of the pieces, one after the other, tile the period. -/
theorem flatten (h : p.Tiles qs) {qss : List (List Period)} (hf : List.Forall₂ Tiles qs qss) :
    p.Tiles qss.flatten := by
  induction h generalizing qss with
  | whole p =>
    obtain ⟨qs, _, hqs, hnil, rfl⟩ := List.forall₂_cons_left_iff.1 hf
    obtain rfl := List.forall₂_nil_left_iff.1 hnil
    simpa using hqs
  | cut hb _ ih =>
    obtain ⟨qs, _, hqs, hrest, rfl⟩ := List.forall₂_cons_left_iff.1 hf
    exact append hb hqs rfl rfl (ih hrest)

end Tiles

theorem tiles_cut : ∀ (bs : List Date) (p : Period), p.Tiles (p.cut bs)
  | [], p => .whole p
  | b :: bs, p => by
    unfold cut
    split
    · rename_i hb
      exact .cut hb (tiles_cut bs _)
    · exact tiles_cut bs p

theorem tiles_partition (p : Period) (s : DateSet) : p.Tiles (p.partition s) :=
  tiles_cut s.toList p

theorem not_inside_of_mem_cut : ∀ {bs : List Date} {p q : Period}, bs.Pairwise (· < ·) →
    q ∈ p.cut bs → ∀ b ∈ bs, ¬ Inside b q
  | [], _, _, _, _ => by simp
  | b :: bs, p, q, hbs, hq => by
    rw [List.pairwise_cons] at hbs
    unfold cut at hq
    split at hq
    · rename_i hb
      rcases List.mem_cons.1 hq with rfl | hq
      · rintro c hc ⟨-, hcb⟩
        rcases List.mem_cons.1 hc with rfl | hc
        · exact Date.lt_irrefl _ (before_some.1 hcb)
        · exact Date.lt_irrefl _ (Date.lt_trans (hbs.1 c hc) (before_some.1 hcb))
      · intro c hc
        rcases List.mem_cons.1 hc with rfl | hc
        · exact fun hin => Date.not_lt.2 ((tiles_cut bs _).start_le hq) hin.1
        · exact not_inside_of_mem_cut hbs.2 hq c hc
    · rename_i hb
      intro c hc
      rcases List.mem_cons.1 hc with rfl | hc
      · exact fun hin => hb ((tiles_cut bs p).inside hq hin)
      · exact not_inside_of_mem_cut hbs.2 hq c hc

/-- A piece of a partition has no breakpoint but possibly its start. -/
theorem not_inside_of_mem_partition {p q : Period} {s : DateSet} (hq : q ∈ p.partition s) {b : Date}
    (hb : b ∈ s) : ¬ Inside b q :=
  not_inside_of_mem_cut s.ascending hq b hb

/-- From the start of a piece to another of its dates there is no breakpoint to come across. -/
theorem no_breakpoint_of_mem_partition {p q : Period} {s : DateSet} (hq : q ∈ p.partition s)
    {d : Date} (hd : d ∈ q) {b : Date} (hb : b ∈ s) : ¬ (q.start < b ∧ b ≤ d) :=
  fun h => not_inside_of_mem_partition hq hb ⟨h.1, hd.2.of_le h.2⟩

end Period

end DatedRules
