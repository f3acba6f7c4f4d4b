import DatedRules.Calendar.DateSet

/-!
# Values that change over time

A `Varying` gives a value on every date, together with the dates on which that value may change;
between two of those it is to stay the same (`Varying.Steady`).

A `Schedule` is the common case: an initial value and dated changes, of which the latest one on or
before a date is in force. Schedules are steady (`Schedule.steady_varying`), and so are pairs of
steady values (`Varying.Steady.pair`).
-/

namespace DatedRules

/-- A value for every date. -/
structure Varying (α : Type) where
  breakpoints : DateSet
  on : Date → α

namespace Varying

variable {α β : Type}

/-- Whether the value changes on breakpoints only. -/
def Steady (v : Varying α) : Prop :=
  ∀ d₁ d₂, d₁ ≤ d₂ → (∀ b ∈ v.breakpoints, ¬ (d₁ < b ∧ b ≤ d₂)) → v.on d₁ = v.on d₂

/-- Two varying values side by side. -/
def pair (a : Varying α) (b : Varying β) : Varying (α × β) where
  breakpoints := a.breakpoints.union b.breakpoints
  on d := (a.on d, b.on d)

theorem Steady.pair {a : Varying α} {b : Varying β} (ha : a.Steady) (hb : b.Steady) :
    (a.pair b).Steady := by
  intro d₁ d₂ h hn
  have h₁ := ha d₁ d₂ h fun x hx => hn x (DateSet.mem_union.2 (.inl hx))
  have h₂ := hb d₁ d₂ h fun x hx => hn x (DateSet.mem_union.2 (.inr hx))
  simp [Varying.pair, h₁, h₂]

end Varying

/-- A value and its dated changes, in ascending order of their dates. -/
structure Schedule (α : Type) where
  initial : α
  changes : List (Date × α)
  ascending : changes.Pairwise (·.1 < ·.1)
deriving DecidableEq

namespace Schedule

variable {α : Type}

/-- The schedule without changes. -/
def constant (initial : α) : Schedule α := ⟨initial, [], .nil⟩

/-- Puts a change into an ascending list, in place of one on the same date. -/
def setIn (d : Date) (a : α) : List (Date × α) → List (Date × α)
  | [] => [(d, a)]
  | c :: cs =>
    if d < c.1 then (d, a) :: c :: cs
    else if d = c.1 then (d, a) :: cs
    else c :: setIn d a cs

theorem fst_of_mem_setIn {d : Date} {a : α} {x : Date × α} :
    ∀ {cs : List (Date × α)}, x ∈ setIn d a cs → x.1 = d ∨ x ∈ cs
  | [], h => by simp_all [setIn]
  | c :: cs, h => by
    unfold setIn at h
    split at h
    · rcases List.mem_cons.1 h with rfl | h
      · exact .inl rfl
      · exact .inr h
    · split at h
      · rcases List.mem_cons.1 h with rfl | h
        · exact .inl rfl
        · exact .inr (List.mem_cons_of_mem _ h)
      · rcases List.mem_cons.1 h with rfl | h
        · exact .inr (List.mem_cons_self ..)
        · exact (fst_of_mem_setIn h).imp id (List.mem_cons_of_mem _)

theorem setIn_ascending {d : Date} {a : α} :
    ∀ {cs : List (Date × α)}, cs.Pairwise (·.1 < ·.1) → (setIn d a cs).Pairwise (·.1 < ·.1)
  | [], _ => by simp [setIn]
  | c :: cs, h => by
    rw [List.pairwise_cons] at h
    unfold setIn
    split
    · rename_i hd
      refine .cons (fun x hx => ?_) (.cons h.1 h.2)
      rcases List.mem_cons.1 hx with rfl | hx
      · exact hd
      · exact Date.lt_trans hd (h.1 x hx)
    · split
      · rename_i heq
        refine .cons (fun x hx => ?_) h.2
        rw [heq]
        exact h.1 x hx
      · rename_i hd hne
        refine .cons (fun x hx => ?_) (setIn_ascending h.2)
        rcases fst_of_mem_setIn hx with hx | hx
        · rw [hx]
          exact Date.lt_of_le_of_ne (Date.not_lt.1 hd) (fun h' => hne h'.symm)
        · exact h.1 x hx

/-- The schedule with a change on `d`, which replaces one that is there already. -/
def withChange (s : Schedule α) (d : Date) (a : α) : Schedule α :=
  ⟨s.initial, setIn d a s.changes, setIn_ascending s.ascending⟩

/-- The schedule with several changes, made one after the other. -/
def withChanges (s : Schedule α) (changes : List (Date × α)) : Schedule α :=
  changes.foldl (fun s c => s.withChange c.1 c.2) s

/-- The value on a date: that of the latest change up to then, if any. -/
def on (s : Schedule α) (d : Date) : α :=
  match (s.changes.takeWhile fun c => c.1 ≤ d).getLast? with
  | some c => c.2
  | none => s.initial

/-- The dates of the changes. -/
def breakpoints (s : Schedule α) : DateSet :=
  ⟨s.changes.map Prod.fst, List.pairwise_map.2 s.ascending⟩

/-- A schedule as a varying value. -/
def varying (s : Schedule α) : Varying α := ⟨s.breakpoints, s.on⟩

theorem takeWhile_eq_of_forall_mem {d₁ d₂ : Date} :
    ∀ {cs : List (Date × α)}, (∀ c ∈ cs, c.1 ≤ d₁ ↔ c.1 ≤ d₂) →
      (cs.takeWhile fun c => c.1 ≤ d₁) = cs.takeWhile fun c => c.1 ≤ d₂
  | [], _ => rfl
  | c :: cs, h => by
    have hc := h c (List.mem_cons_self ..)
    have ih := takeWhile_eq_of_forall_mem fun x hx => h x (List.mem_cons_of_mem _ hx)
    simp only [List.takeWhile_cons, hc, ih]

theorem steady_varying (s : Schedule α) : s.varying.Steady := by
  intro d₁ d₂ h hn
  show s.on d₁ = s.on d₂
  have hw : (s.changes.takeWhile fun c => c.1 ≤ d₁) = s.changes.takeWhile fun c => c.1 ≤ d₂ := by
    refine takeWhile_eq_of_forall_mem fun c hc => ⟨fun h₁ => Date.le_trans h₁ h, fun h₂ => ?_⟩
    have hb : c.1 ∈ s.varying.breakpoints := List.mem_map.2 ⟨c, hc, rfl⟩
    exact Date.not_lt.1 fun h₁ => hn c.1 hb ⟨h₁, h₂⟩
  rw [on, on, hw]

end Schedule

end DatedRules
