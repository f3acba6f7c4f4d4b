import DatedRules.Rule.Definition
import Mathlib.Data.List.Pairwise

/-!
# Built rules

A rule is built (`Rule.Built`) if it comes from constants and reads by the constructors that are
open to authors of rules. Such a rule is well-formed (`Rule.Built.wellFormed`): a product is refused
with fewer than two factors, and candidates are put into the order of their dates before two
neighbours of one date are refused, so that the dates of the variants ascend strictly.
-/

namespace DatedRules

theorem ascending_of_firstRepeat? : ∀ {ds : List Date}, ds.Pairwise (· ≤ ·) →
    firstRepeat? ds = none → ds.Pairwise (· < ·)
  | [], _, _ => .nil
  | [d], _, _ => List.pairwise_singleton _ d
  | d :: e :: ds, hle, h => by
    rw [List.pairwise_cons] at hle
    rw [firstRepeat?] at h
    split at h
    · cases h
    · rename_i hne
      have ih := ascending_of_firstRepeat? hle.2 h
      have hde : d < e := Date.lt_of_le_of_ne (hle.1 e (List.mem_cons_self ..)) hne
      refine .cons (fun x hx => ?_) ih
      rcases List.mem_cons.1 hx with rfl | hx
      · exact hde
      · exact Date.lt_trans hde ((List.pairwise_cons.1 ih).1 x hx)

namespace Rule

variable {G : Type}

/-- Whether a rule is made by the constructors for authors of rules. -/
inductive Built : {τ : ValueType} → Rule G τ → Prop
  | constant {τ : ValueType} (info : RuleInfo) (value : τ.Carrier) :
      Built (.constant info value : Rule G τ)
  | extract {τ : ValueType} (info : RuleInfo) (read : G → Fact τ.Carrier) :
      Built (.extract info read : Rule G τ)
  | extractAt {τ : ValueType} (info : RuleInfo) (read : G → Varying (Fact τ.Carrier)) :
      Built (.extractAt info read : Rule G τ)
  | combine1 {α τ : ValueType} {a : Rule G α} (info : RuleInfo)
      (f : α.Carrier → Except Decimal.Overflow τ.Carrier) (ha : Built a) :
      Built (.combine1 info a f)
  | combine2 {α β τ : ValueType} {a : Rule G α} {b : Rule G β} (info : RuleInfo)
      (f : α.Carrier → β.Carrier → Except Decimal.Overflow τ.Carrier) (ha : Built a)
      (hb : Built b) : Built (.combine2 info a b f)
  | combine3 {α β γ τ : ValueType} {a : Rule G α} {b : Rule G β} {c : Rule G γ} (info : RuleInfo)
      (f : α.Carrier → β.Carrier → γ.Carrier → Except Decimal.Overflow τ.Carrier) (ha : Built a)
      (hb : Built b) (hc : Built c) : Built (.combine3 info a b c f)
  | multiply {info : RuleInfo} {factors : List (Rule G .decimal)} {r : Rule G .decimal}
      (hf : ∀ a ∈ factors, Built a) (h : multiply info factors = .ok r) : Built r
  | latestValidVariant {τ : ValueType} {info : RuleInfo} {candidates : List (Rule G τ)}
      {r : Rule G τ} (hc : ∀ a ∈ candidates, Built a)
      (h : latestValidVariant info candidates = .ok r) : Built r

theorem inOrder_ordered {τ : ValueType} (candidates : List (Rule G τ)) :
    (inOrder candidates).Pairwise fun a b => a.validFrom ≤ b.validFrom :=
  Date.pairwise_mergeSort validFrom candidates

theorem inOrder_perm {τ : ValueType} (candidates : List (Rule G τ)) :
    (inOrder candidates).Perm candidates :=
  List.mergeSort_perm _ _

theorem pairwise_validFrom_inOrder {τ : ValueType} (candidates : List (Rule G τ)) :
    ((inOrder candidates).map validFrom).Pairwise (· ≤ ·) :=
  List.pairwise_map.2 (inOrder_ordered candidates)

theorem multiply_eq_ok_iff {info : RuleInfo} {factors : List (Rule G .decimal)}
    {r : Rule G .decimal} : multiply info factors = .ok r ↔
      2 ≤ factors.length ∧ product info factors.length factors.get = r := by
  unfold multiply
  split
  · simp
    omega
  · simp
    omega

theorem latestValidVariant_eq_ok {τ : ValueType} {info : RuleInfo} {candidates : List (Rule G τ)}
    {r : Rule G τ} (h : latestValidVariant info candidates = .ok r) :
    candidates ≠ [] ∧
      (inOrder candidates).Pairwise (fun a b => a.validFrom < b.validFrom) ∧
      r = variants info (inOrder candidates).length (inOrder candidates).get := by
  unfold latestValidVariant at h
  split at h
  · cases h
  · rename_i hne
    simp only [] at h
    split at h
    · cases h
    · rename_i hnone
      have hlt := ascending_of_firstRepeat? (pairwise_validFrom_inOrder candidates) hnone
      rw [List.pairwise_map] at hlt
      exact ⟨by simpa using hne, hlt, (Except.ok.inj h).symm⟩

theorem Built.wellFormed {τ : ValueType} {r : Rule G τ} (h : r.Built) : r.WellFormed := by
  induction h with
  | constant | extract | extractAt => trivial
  | combine1 _ _ _ ha => exact ha
  | combine2 _ _ _ _ ha hb => exact ⟨ha, hb⟩
  | combine3 _ _ _ _ _ ha hb hc => exact ⟨ha, hb, hc⟩
  | multiply _ h ih =>
    obtain ⟨hlen, rfl⟩ := multiply_eq_ok_iff.1 h
    exact ⟨hlen, fun i => ih _ (List.get_mem _ i)⟩
  | @latestValidVariant τ info candidates _ _ h ih =>
    obtain ⟨hne, hlt, rfl⟩ := latestValidVariant_eq_ok h
    have hperm := inOrder_perm candidates
    refine ⟨?_, fun i j hij => List.pairwise_iff_get.1 hlt i j hij, fun i => ?_⟩
    · rw [hperm.length_eq]
      exact List.length_pos_iff.2 hne
    · exact ih _ (hperm.mem_iff.1 (List.get_mem _ i))

end Rule

end DatedRules
