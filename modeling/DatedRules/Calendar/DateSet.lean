import DatedRules.Calendar.Date

/-!
# Sets of dates

A finite set of dates is kept as the list of its members in ascending order, each once; so two sets
with the same members are equal (`DateSet.ext`).
-/

namespace DatedRules

/-- A finite set of dates. -/
structure DateSet where
  toList : List Date
  ascending : toList.Pairwise (· < ·)
deriving DecidableEq

namespace DateSet

instance : Membership Date DateSet := ⟨fun s d => d ∈ s.toList⟩

instance (s : DateSet) (d : Date) : Decidable (d ∈ s) := inferInstanceAs (Decidable (d ∈ s.toList))

theorem mem_def {s : DateSet} {d : Date} : d ∈ s ↔ d ∈ s.toList := Iff.rfl

def empty : DateSet := ⟨[], .nil⟩

/-- Puts a date into an ascending list, where it is missing. -/
def insertInto (d : Date) : List Date → List Date
  | [] => [d]
  | e :: es => if d < e then d :: e :: es else if d = e then e :: es else e :: insertInto d es

theorem mem_insertInto {d x : Date} : ∀ {es : List Date}, x ∈ insertInto d es ↔ x = d ∨ x ∈ es
  | [] => by simp [insertInto]
  | e :: es => by
    unfold insertInto
    split
    · simp
    · split
      · rename_i h
        subst h
        simp
      · simp [@mem_insertInto d x es, or_left_comm]

theorem insertInto_ascending {d : Date} :
    ∀ {es : List Date}, es.Pairwise (· < ·) → (insertInto d es).Pairwise (· < ·)
  | [], _ => by simp [insertInto]
  | e :: es, h => by
    rw [List.pairwise_cons] at h
    unfold insertInto
    split
    · rename_i hd
      refine .cons (fun x hx => ?_) (.cons h.1 h.2)
      rcases List.mem_cons.1 hx with rfl | hx
      · exact hd
      · exact Date.lt_trans hd (h.1 x hx)
    · split
      · exact .cons h.1 h.2
      · rename_i hd hne
        refine .cons (fun x hx => ?_) (insertInto_ascending h.2)
        rcases mem_insertInto.1 hx with rfl | hx
        · exact Date.lt_of_le_of_ne (Date.not_lt.1 hd) (fun h' => hne h'.symm)
        · exact h.1 x hx

def insert (s : DateSet) (d : Date) : DateSet :=
  ⟨insertInto d s.toList, insertInto_ascending s.ascending⟩

theorem mem_insert {s : DateSet} {d x : Date} : x ∈ s.insert d ↔ x = d ∨ x ∈ s :=
  mem_insertInto

/-- Puts all dates of a list into a set. -/
def insertAll (s : DateSet) (ds : List Date) : DateSet := ds.foldl insert s

theorem mem_insertAll {x : Date} :
    ∀ {ds : List Date} {s : DateSet}, x ∈ s.insertAll ds ↔ x ∈ ds ∨ x ∈ s
  | [], s => by simp [insertAll]
  | d :: ds, s => by
    rw [insertAll, List.foldl_cons, ← insertAll, mem_insertAll, mem_insert, List.mem_cons]
    simp only [or_left_comm, or_assoc]

def ofList (ds : List Date) : DateSet := empty.insertAll ds

theorem mem_ofList {x : Date} {ds : List Date} : x ∈ ofList ds ↔ x ∈ ds := by
  rw [ofList, mem_insertAll]
  simp [mem_def, empty]

def union (s t : DateSet) : DateSet := s.insertAll t.toList

theorem mem_union {s t : DateSet} {x : Date} : x ∈ s.union t ↔ x ∈ s ∨ x ∈ t := by
  rw [union, mem_insertAll, or_comm]
  rfl

theorem eq_of_ascending : ∀ {l m : List Date}, l.Pairwise (· < ·) → m.Pairwise (· < ·) →
    (∀ x, x ∈ l ↔ x ∈ m) → l = m
  | [], [], _, _, _ => rfl
  | [], b :: m, _, _, h => by simpa using h b
  | a :: l, [], _, _, h => by simpa using h a
  | a :: l, b :: m, hl, hm, h => by
    rw [List.pairwise_cons] at hl hm
    have hab : a = b := by
      rcases List.mem_cons.1 ((h a).1 (List.mem_cons_self ..)) with h₁ | h₁
      · exact h₁
      rcases List.mem_cons.1 ((h b).2 (List.mem_cons_self ..)) with h₂ | h₂
      · exact h₂.symm
      exact absurd (Date.lt_trans (hl.1 b h₂) (hm.1 a h₁)) (Date.lt_irrefl a)
    subst hab
    have ih : l = m := by
      refine eq_of_ascending hl.2 hm.2 (fun x => ?_)
      constructor
      · intro hx
        rcases List.mem_cons.1 ((h x).1 (List.mem_cons_of_mem _ hx)) with rfl | h₁
        · exact absurd (hl.1 x hx) (Date.lt_irrefl x)
        · exact h₁
      · intro hx
        rcases List.mem_cons.1 ((h x).2 (List.mem_cons_of_mem _ hx)) with rfl | h₁
        · exact absurd (hm.1 x hx) (Date.lt_irrefl x)
        · exact h₁
    rw [ih]

theorem ext {s t : DateSet} (h : ∀ x, x ∈ s ↔ x ∈ t) : s = t := by
  cases s with
  | mk l hl =>
    cases t with
    | mk m hm =>
      congr
      exact eq_of_ascending hl hm h

end DateSet

end DatedRules
