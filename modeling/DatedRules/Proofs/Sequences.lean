import Mathlib.Data.List.Flatten
import Mathlib.Data.List.Forall2
import Mathlib.Data.List.OfFn

/-!
# Lists and computations along them

A computation that may end with an error has a value if and only if each of its steps has one, and
otherwise has the error of the first step that has none (`bind_eq_ok_iff`, `bind_eq_error_iff`).
Along a list this says which values the elements have one by one (`mapM_eq_ok_iff`), or which first
part of the list has values and which element after it has the error (`mapM_eq_error_iff`).
-/

namespace DatedRules

section Steps

variable {ε ε' α β : Type}

theorem bind_eq_ok_iff {x : Except ε α} {f : α → Except ε β} {b : β} :
    x >>= f = .ok b ↔ ∃ a, x = .ok a ∧ f a = .ok b := by
  rcases x with e | a <;> simp [bind, Except.bind]

theorem bind_eq_error_iff {x : Except ε α} {f : α → Except ε β} {e : ε} :
    x >>= f = .error e ↔ x = .error e ∨ ∃ a, x = .ok a ∧ f a = .error e := by
  rcases x with e' | a <;> simp [bind, Except.bind]

theorem mapError_bind (h : ε → ε') (x : Except ε α) (f : α → Except ε β) :
    (x >>= f).mapError h = (x.mapError h) >>= fun a => (f a).mapError h := by
  cases x <;> rfl

theorem mapError_eq_ok_iff {f : ε → ε'} {x : Except ε α} {a : α} :
    x.mapError f = .ok a ↔ x = .ok a := by
  rcases x with e | b <;> simp [Except.mapError]

theorem mapError_eq_error_iff {f : ε → ε'} {x : Except ε α} {e : ε'} :
    x.mapError f = .error e ↔ ∃ e', x = .error e' ∧ e = f e' := by
  rcases x with e' | a <;> simp [Except.mapError, eq_comm]

end Steps

section Along

variable {ε α β : Type} {f : α → Except ε β}

theorem mapM_eq_ok_iff {xs : List α} {ys : List β} :
    xs.mapM f = .ok ys ↔ List.Forall₂ (fun x y => f x = .ok y) xs ys := by
  induction xs generalizing ys with
  | nil => cases ys <;> simp [pure, Except.pure]
  | cons x xs ih =>
    rw [List.mapM_cons]
    rcases hx : f x with e | y
    · cases ys <;> simp [bind, Except.bind, hx]
    · rcases hxs : xs.mapM f with e | zs
      · cases ys <;> simp [bind, Except.bind, hx, hxs, ← ih]
      · cases ys <;> simp [bind, Except.bind, pure, Except.pure, hx, hxs, ← ih]

/-- A list is gone through up to the first element that has an error. -/
theorem mapM_eq_error_iff {xs : List α} {e : ε} :
    xs.mapM f = .error e ↔ ∃ before x after, xs = before ++ x :: after ∧
      (∀ y ∈ before, ∃ b, f y = .ok b) ∧ f x = .error e := by
  induction xs with
  | nil => simp [pure, Except.pure]
  | cons x xs ih =>
    rw [List.mapM_cons]
    constructor
    · intro h
      rcases hx : f x with e' | b
      · rw [hx] at h
        obtain rfl := Except.error.inj h
        exact ⟨[], x, xs, rfl, by simp, hx⟩
      · rcases hxs : xs.mapM f with e' | bs <;> rw [hx, hxs] at h
        · obtain rfl := Except.error.inj h
          obtain ⟨before, y, after, rfl, hbefore, hy⟩ := ih.1 hxs
          exact ⟨x :: before, y, after, rfl, List.forall_mem_cons.2 ⟨⟨b, hx⟩, hbefore⟩, hy⟩
        · cases h
    · rintro ⟨_ | ⟨z, before⟩, y, after, heq, hbefore, hy⟩
      · obtain ⟨rfl, rfl⟩ := List.cons.inj heq
        rw [hy]
        rfl
      · obtain ⟨rfl, rfl⟩ := List.cons.inj heq
        obtain ⟨⟨b, hx⟩, hbefore⟩ := List.forall_mem_cons.1 hbefore
        rw [hx, ih.2 ⟨before, y, after, rfl, hbefore, hy⟩]
        rfl

theorem exists_mapM_eq_ok : ∀ {xs : List α},
    (∀ x ∈ xs, ∃ y, f x = .ok y) → ∃ ys, xs.mapM f = .ok ys
  | [], _ => ⟨[], rfl⟩
  | x :: xs, h => by
    obtain ⟨y, hy⟩ := h x (List.mem_cons_self ..)
    obtain ⟨ys, hys⟩ := exists_mapM_eq_ok fun z hz => h z (List.mem_cons_of_mem _ hz)
    exact ⟨y :: ys, mapM_eq_ok_iff.2 (.cons hy (mapM_eq_ok_iff.1 hys))⟩

theorem mapM_congr {f' : α → Except ε β} : ∀ {xs : List α},
    (∀ x ∈ xs, f x = f' x) → xs.mapM f = xs.mapM f'
  | [], _ => rfl
  | x :: xs, h => by
    rw [List.mapM_cons, List.mapM_cons, h x (List.mem_cons_self ..),
      mapM_congr fun y hy => h y (List.mem_cons_of_mem _ hy)]

theorem mapM_map {γ : Type} (k : β → γ) : ∀ xs : List α,
    (xs.mapM fun x => (f x).map k) = (xs.mapM f).map (List.map k)
  | [] => rfl
  | x :: xs => by
    rw [List.mapM_cons, List.mapM_cons, mapM_map k xs]
    rcases f x with e | y
    · rfl
    · rcases xs.mapM f with e | ys <;> rfl

theorem mapM_flatMap {γ : Type} {k : γ → List α} : ∀ xs : List γ,
    (xs.flatMap k).mapM f = (xs.mapM fun x => (k x).mapM f).map List.flatten
  | [] => rfl
  | x :: xs => by
    rw [List.flatMap_cons, List.mapM_append, mapM_flatMap xs, List.mapM_cons]
    rcases (k x).mapM f with e | ys
    · rfl
    · rcases xs.mapM fun x => (k x).mapM f with e | yss <;> rfl

end Along

section Related

variable {α β : Type*} {R : α → β → Prop} {xs : List α}

theorem exists_getElem?_of_forall₂ : ∀ {xs : List α} {ys : List β},
    List.Forall₂ R xs ys → ∀ {i : Nat} {x : α}, xs[i]? = some x → ∃ y, ys[i]? = some y ∧ R x y
  | _, _, .nil, i, x, hx => by simp at hx
  | _, y :: _, .cons h _, 0, x, hx => by
    obtain rfl := Option.some.inj hx
    exact ⟨y, rfl, h⟩
  | _, _ :: _, .cons _ h, i + 1, x, hx => exists_getElem?_of_forall₂ h hx

theorem exists_of_forall₂_of_mem {ys : List β}
    (h : List.Forall₂ R xs ys) {y : β} (hy : y ∈ ys) : ∃ x ∈ xs, R x y := by
  obtain ⟨i, hi⟩ := List.mem_iff_getElem?.1 hy
  obtain ⟨x, hx, hR⟩ := exists_getElem?_of_forall₂ h.flip hi
  exact ⟨x, List.mem_of_getElem? hx, hR⟩

theorem exists_append_of_forall₂ {us vs : List β} {y : β}
    (h : List.Forall₂ R xs (us ++ y :: vs)) : ∃ before x after, xs = before ++ x :: after ∧
      R x y ∧ List.Forall₂ R after vs := by
  obtain ⟨x, after, hx, hafter, hdrop⟩ :=
    List.forall₂_cons_right_iff.1 (List.forall₂_drop_append xs us (y :: vs) h)
  refine ⟨xs.take us.length, x, after, ?_, hx, hafter⟩
  rw [← hdrop, List.take_append_drop]

end Related

theorem mem_flatten_ofFn {α : Type} {n : Nat} {f : Fin n → List α} {a : α} :
    a ∈ (List.ofFn f).flatten ↔ ∃ i, a ∈ f i := by
  simp only [List.mem_flatten, List.mem_ofFn, exists_exists_eq_and]

/-- In an ordered list what holds up to some point holds of a first part of the list. -/
theorem takeWhile_eq_filter_of_pairwise {α : Type*} {R : α → α → Prop} {P : α → Bool}
    (hP : ∀ x y, R x y → P y = true → P x = true) : ∀ {xs : List α}, xs.Pairwise R →
      xs.takeWhile P = xs.filter P
  | [], _ => rfl
  | x :: xs, h => by
    rw [List.pairwise_cons] at h
    rw [List.takeWhile_cons, List.filter_cons, takeWhile_eq_filter_of_pairwise hP h.2]
    by_cases hx : P x = true
    · rw [if_pos hx, if_pos hx]
    · have hnone : xs.filter P = [] :=
        List.filter_eq_nil_iff.2 fun y hy hPy => hx (hP x y (h.1 y hy) hPy)
      rw [if_neg hx, if_neg hx, hnone]

theorem append_cons_inj {α : Type*} {c : α} : ∀ {xs ys us vs : List α}, c ∉ xs → c ∉ ys →
    xs ++ c :: us = ys ++ c :: vs → xs = ys ∧ us = vs
  | [], [], _, _, _, _, h => ⟨rfl, (List.cons.inj h).2⟩
  | [], y :: ys, _, _, _, hy, h => absurd (List.cons.inj h).1 (List.ne_of_not_mem_cons hy)
  | x :: xs, [], _, _, hx, _, h => absurd (List.cons.inj h).1.symm (List.ne_of_not_mem_cons hx)
  | x :: xs, y :: ys, _, _, hx, hy, h => by
    obtain ⟨rfl, htail⟩ := List.cons.inj h
    obtain ⟨rfl, hrest⟩ := append_cons_inj (List.not_mem_of_not_mem_cons hx)
      (List.not_mem_of_not_mem_cons hy) htail
    exact ⟨rfl, hrest⟩

end DatedRules
