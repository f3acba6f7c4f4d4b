import DatedRules.Proofs.Tiling

/-!
# Where a partition cuts

The dates on which its pieces start determine a tiling (`Tiles.eq_of_starts`), and the pieces of a
partition start with the period and at the breakpoints strictly inside it (`map_start_partition`).
So a partition sees of its breakpoints those inside the period only (`partition_congr`), and to cut
at two sets of breakpoints is to cut at the first and every piece at the second (`partition_union`).
With the bounds of the pieces and the dates in them that is all there is to say about a partition by
itself (`partition_covers`).

For a date `b` strictly inside a period the partitions of the two parts around `b`, one after the
other, are the partition of the period if `b` is a breakpoint (`partition_of_mem`). If it is not,
the last piece before `b` and the first one after it are one piece there (`partition_of_not_mem`).
-/

namespace DatedRules

namespace Period

section Parts

variable {p : Period} {b : Date}

theorem Inside.start_lt (h : Inside b p) : ∀ e ∈ some b, p.start < e := by
  simpa using h.1

theorem Inside.lt_stop (h : Inside b p) : ∀ e ∈ p.stop, b < e := h.2

/-- The part of a period before a date inside it. -/
def Inside.before (h : Inside b p) : Period := ⟨p.start, some b, h.start_lt⟩

/-- The part of a period from a date inside it on. -/
def Inside.after (h : Inside b p) : Period := ⟨b, p.stop, h.lt_stop⟩

theorem Inside.inside_before (h : Inside b p) {d : Date} :
    Inside d h.before ↔ Inside d p ∧ d < b := by
  simp only [Inside, Inside.before, before_some]
  constructor
  · rintro ⟨h₁, h₂⟩
    exact ⟨⟨h₁, h.2.of_le (Date.le_of_lt h₂)⟩, h₂⟩
  · rintro ⟨⟨h₁, -⟩, h₂⟩
    exact ⟨h₁, h₂⟩

theorem Inside.inside_after (h : Inside b p) {d : Date} :
    Inside d h.after ↔ Inside d p ∧ b < d := by
  simp only [Inside, Inside.after]
  constructor
  · rintro ⟨h₁, h₂⟩
    exact ⟨⟨Date.lt_trans h.1 h₁, h₂⟩, h₁⟩
  · rintro ⟨⟨-, h₁⟩, h₂⟩
    exact ⟨h₂, h₁⟩

theorem Inside.mem (h : Inside b p) : b ∈ p := ⟨Date.le_of_lt h.1, h.2⟩

theorem Inside.mem_iff (h : Inside b p) {d : Date} : d ∈ p ↔ d ∈ h.before ∨ d ∈ h.after := by
  simp only [mem_def, Inside.before, Inside.after, before_some]
  constructor
  · rintro ⟨h₁, h₂⟩
    by_cases hd : d < b
    · exact .inl ⟨h₁, hd⟩
    · exact .inr ⟨Date.not_lt.1 hd, h₂⟩
  · rintro (⟨h₁, h₂⟩ | ⟨h₁, h₂⟩)
    · exact ⟨h₁, h.2.of_le (Date.le_of_lt h₂)⟩
    · exact ⟨Date.le_trans (Date.le_of_lt h.1) h₁, h₂⟩

theorem inside_of_mem_of_ne {d : Date} (h : d ∈ p) (hne : d ≠ p.start) : Inside d p :=
  ⟨Date.lt_of_le_of_ne h.1 hne.symm, h.2⟩

end Parts

namespace Tiles

variable {p : Period} {qs : List Period}

theorem start_mem_starts (h : p.Tiles qs) : p.start ∈ qs.map start := by
  have hf := h.first
  rw [← List.head?_map] at hf
  exact List.mem_of_mem_head? hf

theorem le_of_mem_starts (h : p.Tiles qs) {d : Date} (hd : d ∈ qs.map start) : p.start ≤ d := by
  obtain ⟨q, hq, rfl⟩ := List.mem_map.1 hd
  exact h.start_le hq

theorem flatMap (h : p.Tiles qs) {f : Period → List Period} (hf : ∀ q ∈ qs, q.Tiles (f q)) :
    p.Tiles (qs.flatMap f) := by
  rw [List.flatMap_def]
  refine h.flatten ?_
  rw [List.forall₂_map_right_iff, List.forall₂_same]
  exact hf

/-- Tilings whose pieces start on the same dates are the same. -/
theorem eq_of_starts {xs ys : List Period} (hx : p.Tiles xs) (hy : p.Tiles ys)
    (h : ∀ d, d ∈ xs.map start ↔ d ∈ ys.map start) : xs = ys := by
  induction hx generalizing ys with
  | whole p =>
    cases hy with
    | whole => rfl
    | @cut _ c _ hc hys =>
      have hmem := (h c).2 (List.mem_cons_of_mem _ hys.start_mem_starts)
      rw [List.map_singleton, List.mem_singleton] at hmem
      exact absurd hc.1 (hmem ▸ Date.lt_irrefl _)
  | @cut p b xs hb hxs ih =>
    cases hy with
    | whole =>
      have hmem := (h b).1 (List.mem_cons_of_mem _ hxs.start_mem_starts)
      rw [List.map_singleton, List.mem_singleton] at hmem
      exact absurd hb.1 (hmem ▸ Date.lt_irrefl _)
    | @cut _ c ys hc hys =>
      simp only [List.map_cons, List.mem_cons] at h
      have hbc : b = c := by
        refine Date.le_antisymm ?_ ?_
        · rcases (h c).2 (.inr hys.start_mem_starts) with hcp | hcx
          · exact absurd hc.1 (hcp ▸ Date.lt_irrefl _)
          · exact hxs.le_of_mem_starts hcx
        · rcases (h b).1 (.inr hxs.start_mem_starts) with hbp | hby
          · exact absurd hb.1 (hbp ▸ Date.lt_irrefl _)
          · exact hys.le_of_mem_starts hby
      subst hbc
      have hlate : ∀ {zs : List Period}, Tiles ⟨b, p.stop, hb.2⟩ zs → ∀ {d},
          d ∈ zs.map start → d ≠ p.start := by
        rintro zs hz d hd rfl
        exact Date.not_lt.2 (hz.le_of_mem_starts hd) hb.1
      rw [ih hys fun d => ⟨fun hd => ?_, fun hd => ?_⟩]
      · exact ((h d).1 (.inr hd)).resolve_left (hlate hxs hd)
      · exact ((h d).2 (.inr hd)).resolve_left (hlate hys hd)

/-- The last piece of one tiling and the first of another that goes on from there make one piece of
a tiling of the whole. -/
theorem fuse {b : Date} (hb : Inside b p) {us vs : List Period} {p₁ : Period} (hu : p₁.Tiles us)
    (hstart : p₁.start = p.start) (hstop : p₁.stop = some b) (hv : hb.after.Tiles vs) :
    ∃ xs q q' ys z, us = xs ++ [q] ∧ vs = q' :: ys ∧ q.stop = some b ∧ q'.start = b ∧
      z.start = q.start ∧ z.stop = q'.stop ∧ p.Tiles (xs ++ z :: ys) := by
  induction hu generalizing p with
  | whole p₁ =>
    cases hv with
    | whole => exact ⟨[], p₁, _, [], p, rfl, rfl, hstop, rfl, hstart.symm, rfl, .whole p⟩
    | @cut _ c vs hc hvs =>
      have hcp : Inside c p := (hb.inside_after.1 hc).1
      exact ⟨[], p₁, _, vs, hcp.before, rfl, rfl, hstop, rfl, hstart.symm, rfl, .cut hcp hvs⟩
  | @cut p₁ c us hc hus ih =>
    have hcb : c < b := hc.2 b hstop
    have hcp : Inside c p := ⟨hstart ▸ hc.1, hb.2.of_le (Date.le_of_lt hcb)⟩
    have hbc : Inside b hcp.after := hcp.inside_after.2 ⟨hb, hcb⟩
    obtain ⟨xs, q, q', ys, z, rfl, rfl, hq, hq', hz, hz', ht⟩ := ih hbc rfl hstop hv
    refine ⟨_ :: xs, q, q', ys, z, rfl, rfl, hq, hq', hz, hz', ?_⟩
    simpa only [hstart, List.cons_append] using Tiles.cut hcp ht

end Tiles

/-- The pieces start with the period and at those of the dates, in their order, that are strictly
inside it. The dates ascend, so that the rest of the period from one of them on has the later ones
inside that the period has. -/
theorem map_start_cut : ∀ {bs : List Date} {p : Period}, bs.Pairwise (· < ·) →
    (p.cut bs).map start = p.start :: bs.filter fun b => Inside b p
  | [], p, _ => rfl
  | b :: bs, p, hbs => by
    rw [List.pairwise_cons] at hbs
    unfold cut
    split
    · rename_i hb
      have hrest : (bs.filter fun c => Inside c hb.after) = bs.filter fun c => Inside c p := by
        refine List.filter_congr fun c hc => ?_
        rw [decide_eq_decide, hb.inside_after]
        exact and_iff_left (hbs.1 c hc)
      have htail := @map_start_cut bs hb.after hbs.2
      rw [List.map_cons, List.filter_cons_of_pos (by simpa using hb), ← hrest]
      exact congrArg _ htail
    · rename_i hb
      rw [List.filter_cons_of_neg (by simpa using hb)]
      exact map_start_cut hbs.2

section Partition

variable {p : Period} {s t : DateSet}

/-- The pieces of a partition start with the period and at the breakpoints inside it. -/
theorem map_start_partition (p : Period) (s : DateSet) :
    (p.partition s).map start = p.start :: s.toList.filter fun b => Inside b p :=
  map_start_cut s.ascending

theorem mem_starts_partition {d : Date} :
    d ∈ (p.partition s).map start ↔ d = p.start ∨ d ∈ s ∧ Inside d p := by
  rw [map_start_partition, List.mem_cons, List.mem_filter, decide_eq_true_iff, DateSet.mem_def]

theorem partition_eq_of_tiles {qs : List Period} (h : p.Tiles qs)
    (hs : ∀ d, d ∈ qs.map start ↔ d = p.start ∨ d ∈ s ∧ Inside d p) : p.partition s = qs :=
  (p.tiles_partition s).eq_of_starts h fun d => mem_starts_partition.trans (hs d).symm

/-- A partition does not see breakpoints that are not inside the period. -/
theorem partition_congr (h : ∀ d, Inside d p → (d ∈ s ↔ d ∈ t)) :
    p.partition s = p.partition t := by
  refine partition_eq_of_tiles (p.tiles_partition t) fun d => ?_
  rw [mem_starts_partition]
  refine or_congr_right (and_congr_left fun hd => (h d hd).symm)

theorem partition_of_forall_not_inside (h : ∀ b ∈ s, ¬ Inside b p) : p.partition s = [p] := by
  refine partition_eq_of_tiles (.whole p) fun d => ?_
  rw [List.map_singleton, List.mem_singleton]
  exact ⟨.inl, fun hd => hd.resolve_right fun hd => h d hd.1 hd.2⟩

/-- To cut at two sets of breakpoints is to cut at the first and each piece at the second. -/
theorem partition_union (p : Period) (s t : DateSet) :
    p.partition (s.union t) = (p.partition s).flatMap fun q => q.partition t := by
  have htiles := p.tiles_partition s
  refine partition_eq_of_tiles (htiles.flatMap fun q _ => q.tiles_partition t) fun d => ?_
  rw [List.map_flatMap, List.mem_flatMap, DateSet.mem_union]
  simp only [mem_starts_partition]
  constructor
  · rintro ⟨q, hq, rfl | ⟨hd, hdq⟩⟩
    · have hstart : q.start ∈ (p.partition s).map start := List.mem_map_of_mem hq
      exact (mem_starts_partition.1 hstart).imp id fun h => ⟨.inl h.1, h.2⟩
    · exact .inr ⟨.inr hd, htiles.inside hq hdq⟩
  · intro hd
    have hdp : d ∈ p := by
      rcases hd with rfl | hd
      · exact p.start_mem
      · exact hd.2.mem
    by_cases hstart : d ∈ (p.partition s).map start
    · obtain ⟨q, hq, rfl⟩ := List.mem_map.1 hstart
      exact ⟨q, hq, .inl rfl⟩
    · rw [mem_starts_partition, not_or] at hstart
      obtain ⟨q, hq, hdq⟩ := htiles.mem_iff.1 hdp
      have hdt : d ∈ t := by
        rcases hd with h | ⟨h | h, hin⟩
        · exact absurd h hstart.1
        · exact absurd ⟨h, hin⟩ hstart.2
        · exact h
      by_cases heq : d = q.start
      · exact ⟨q, hq, .inl heq⟩
      · exact ⟨q, hq, .inr ⟨hdt, inside_of_mem_of_ne hdq heq⟩⟩

variable {b : Date} (hb : Inside b p)

include hb in
theorem inside_cases {d : Date} (hd : Inside d p) :
    Inside d hb.before ∨ d = b ∨ Inside d hb.after := by
  rw [hb.inside_before, hb.inside_after]
  rcases Int.lt_trichotomy d.rank b.rank with h | h | h
  · exact .inl ⟨hd, h⟩
  · exact .inr (.inl (Date.rank_inj h))
  · exact .inr (.inr ⟨hd, h⟩)

/-- A period is partitioned around one of the breakpoints. -/
theorem partition_of_mem (h : b ∈ s) :
    p.partition s = hb.before.partition s ++ hb.after.partition s := by
  have htiles : p.Tiles (hb.before.partition s ++ hb.after.partition s) :=
    .append hb (hb.before.tiles_partition s) rfl rfl (hb.after.tiles_partition s)
  refine partition_eq_of_tiles htiles fun d => ?_
  rw [List.map_append, List.mem_append, mem_starts_partition, mem_starts_partition]
  constructor
  · rintro ((rfl | ⟨hd, hin⟩) | (rfl | ⟨hd, hin⟩))
    · exact .inl rfl
    · exact .inr ⟨hd, (hb.inside_before.1 hin).1⟩
    · exact .inr ⟨h, hb⟩
    · exact .inr ⟨hd, (hb.inside_after.1 hin).1⟩
  · rintro (rfl | ⟨hd, hin⟩)
    · exact .inl (.inl rfl)
    · rcases inside_cases hb hin with hin | heq | hin
      · exact .inl (.inr ⟨hd, hin⟩)
      · exact .inr (.inl heq)
      · exact .inr (.inr ⟨hd, hin⟩)

/-- Around a date that is no breakpoint the two pieces that meet there are one in the partition of
the period. -/
theorem partition_of_not_mem (h : b ∉ s) :
    ∃ xs q q' ys z, hb.before.partition s = xs ++ [q] ∧ hb.after.partition s = q' :: ys ∧
      q.stop = some b ∧ q'.start = b ∧ z.start = q.start ∧ z.stop = q'.stop ∧
        p.partition s = xs ++ z :: ys := by
  obtain ⟨xs, q, q', ys, z, hx, hy, hq, hq', hz, hz', ht⟩ :=
    Tiles.fuse hb (hb.before.tiles_partition s) rfl rfl (hb.after.tiles_partition s)
  refine ⟨xs, q, q', ys, z, hx, hy, hq, hq', hz, hz', partition_eq_of_tiles ht fun d => ?_⟩
  have hleft : d ∈ (xs ++ z :: ys).map start ↔
      d ∈ (hb.before.partition s).map start ∨ d ∈ ys.map start := by
    simp [hx, hz, or_assoc]
  have hright : d ∈ (hb.after.partition s).map start ↔ d = b ∨ d ∈ ys.map start := by
    simp [hy, hq']
  rw [mem_starts_partition] at hleft hright
  have hlate : d ∈ ys.map start → d ≠ b := by
    have hord := (hb.after.tiles_partition s).ordered
    rw [hy, List.pairwise_cons] at hord
    rintro hd rfl
    obtain ⟨q'', hq'', heq⟩ := List.mem_map.1 hd
    have hlt := (hord.1 q'' hq'').start_lt
    rw [heq, hq'] at hlt
    exact Date.lt_irrefl _ hlt
  rw [hleft]
  constructor
  · rintro ((rfl | ⟨hd, hin⟩) | hd)
    · exact .inl rfl
    · exact .inr ⟨hd, (hb.inside_before.1 hin).1⟩
    · rcases hright.2 (.inr hd) with heq | ⟨hds, hin⟩
      · exact absurd heq (hlate hd)
      · exact .inr ⟨hds, (hb.inside_after.1 hin).1⟩
  · rintro (rfl | ⟨hd, hin⟩)
    · exact .inl (.inl rfl)
    · rcases inside_cases hb hin with hin | rfl | hin
      · exact .inl (.inr ⟨hd, hin⟩)
      · exact absurd hd h
      · have hne : d ≠ b := fun heq => Date.lt_irrefl b (heq ▸ (hb.inside_after.1 hin).2)
        exact .inr ((hright.1 (.inr ⟨hd, hin⟩)).resolve_left hne)

end Partition

/-- The bounds of a period are such that a period can be made of them. -/
theorem between_bounds (p : Period) : between p.start p.stop = .ok p := by
  rcases p with ⟨a, _ | e, h⟩
  · rfl
  · exact dif_pos (h e rfl)

/-- A date of a period is in one piece of a tiling, any other date in none. -/
theorem Tiles.countP_mem {p : Period} {qs : List Period} (h : p.Tiles qs) (d : Date) :
    qs.countP (fun q => d ∈ q) = if d ∈ p then 1 else 0 := by
  induction h with
  | whole p => simp
  | @cut p b qs hb _ ih =>
    rw [List.countP_cons, ih]
    show (if d ∈ hb.after then 1 else 0) + (if decide (d ∈ hb.before) then 1 else 0) = _
    by_cases hafter : d ∈ hb.after
    · have hbefore : d ∉ hb.before := fun h => Date.not_lt.2 hafter.1 (before_some.1 h.2)
      simp [hb.mem_iff, hafter, hbefore]
    · by_cases hbefore : d ∈ hb.before <;> simp [hb.mem_iff, hafter, hbefore]

/-- A partition covers its period exactly: the pieces are periods, in order and joined to each
other, that start with the period and at the breakpoints inside it and end as the period does, and
each date is in one of them if it is in the period, and in none otherwise. To cut at two sets of
breakpoints is to cut at the first and then each piece at the second. -/
theorem partition_covers (p : Period) (s t : DateSet) :
    (∀ q ∈ p.partition s, between q.start q.stop = .ok q) ∧
    ((p.partition s).map start = p.start :: s.toList.filter fun b => Inside b p) ∧
    (p.partition s).getLast?.map stop = some p.stop ∧
    (p.partition s).IsChain (fun q q' => q.stop = some q'.start) ∧
    (p.partition s).Pairwise Precedes ∧
    (∀ d, (p.partition s).countP (fun q => d ∈ q) = if d ∈ p then 1 else 0) ∧
    p.partition (s.union t) = (p.partition s).flatMap fun q => q.partition t := by
  have htiles := p.tiles_partition s
  exact ⟨fun q _ => q.between_bounds, map_start_partition p s, htiles.last, htiles.joined,
    htiles.ordered, htiles.countP_mem, partition_union p s t⟩

end Period

end DatedRules
