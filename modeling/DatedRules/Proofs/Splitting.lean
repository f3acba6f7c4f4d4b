import DatedRules.Proofs.Readings
import DatedRules.Proofs.Successes

/-!
# Runs on the two parts of a period

A run on a period is a success if and only if the runs on its parts before and from a date inside it
are, and then the results are those of the parts, one after the other. At a breakpoint this is all
there is to it (`Rule.results_of_mem`). At any other date the last result before and the first one
after have the same value, and are one result in the run on the whole period
(`Rule.results_of_not_mem`). Both are put together in `Rule.run_split`.
-/

namespace DatedRules

/-- A period that starts as one period and stops as another that follows it has the dates of both.
-/
theorem Period.mem_iff_of_meet {x y z : Period} {b d : Date} (hx : x.stop = some b)
    (hy : y.start = b) (hstart : z.start = x.start) (hstop : z.stop = y.stop) :
    d ∈ z ↔ d ∈ x ∨ d ∈ y := by
  have hb : Inside b z := by
    refine ⟨?_, ?_⟩
    · rw [hstart]
      exact x.start_lt b hx
    · rw [hstop, ← hy]
      exact y.start_lt
  rw [hb.mem_iff]
  simp only [mem_def, Inside.before, Inside.after, hstart, hstop, hx, hy]

theorem PeriodResult.told_eq_firstDay {G : Type} {τ : ValueType} {r : Rule G τ} {g : G}
    {x : PeriodResult τ} {q : Period} :
    x.told = r.firstDay g q ↔ x.period = q ∧ r.evaluate g q.start = .ok x.result := by
  simp only [told, Rule.firstDay, Prod.mk.injEq, eq_comm (a := r.evaluate g q.start)]

namespace Rule

variable {G : Type} {τ : ValueType} {r : Rule G τ} {g : G} {p : Period} {b : Date}
  {xs ys zs : List (PeriodResult τ)}

/-- The dates on which a run may cut. -/
def cuts (r : Rule G τ) (g : G) : DateSet := r.breakpoints.union (r.dataBreakpoints g)

theorem mem_cuts : b ∈ r.cuts g ↔ b ∈ r.breakpoints ∨ b ∈ r.dataBreakpoints g := DateSet.mem_union

theorem isSuccess_split (hs : r.SteadyOn g) (hb : Period.Inside b p) :
    (∃ xs, r.run g p = .ok (.success xs r.stamp)) ↔
      (∃ ys, r.run g hb.before = .ok (.success ys r.stamp)) ∧
        ∃ zs, r.run g hb.after = .ok (.success zs r.stamp) := by
  rw [exists_success_iff hs, exists_success_iff hs, exists_success_iff hs]
  constructor
  · intro h
    exact ⟨fun d hd => h d (hb.mem_iff.2 (.inl hd)), fun d hd => h d (hb.mem_iff.2 (.inr hd))⟩
  · rintro ⟨h₁, h₂⟩ d hd
    rcases hb.mem_iff.1 hd with hd | hd
    · exact h₁ d hd
    · exact h₂ d hd

/-- Around a breakpoint the results of the parts are those of the whole. -/
theorem results_of_mem (hb : Period.Inside b p) (h : b ∈ r.cuts g)
    (hx : r.run g p = .ok (.success xs r.stamp))
    (hy : r.run g hb.before = .ok (.success ys r.stamp))
    (hz : r.run g hb.after = .ok (.success zs r.stamp)) : xs = ys ++ zs := by
  have hpieces : r.pieces g p = r.pieces g hb.before ++ r.pieces g hb.after :=
    Period.partition_of_mem hb h
  refine PeriodResult.told_injective.list_map ?_
  rw [List.map_append, (run_eq_success_iff.1 hx).2, (run_eq_success_iff.1 hy).2,
    (run_eq_success_iff.1 hz).2, hpieces, List.map_append]

/-- Around another date the two results that meet there are one in the whole. -/
theorem results_of_not_mem (hs : r.SteadyOn g) (hb : Period.Inside b p) (h : b ∉ r.cuts g)
    (hx : r.run g p = .ok (.success xs r.stamp))
    (hy : r.run g hb.before = .ok (.success ys r.stamp))
    (hz : r.run g hb.after = .ok (.success zs r.stamp)) :
    ∃ init x y tail z, ys = init ++ [x] ∧ zs = y :: tail ∧ xs = init ++ z :: tail ∧
      x.period.stop = some b ∧ y.period.start = b ∧ x.result = y.result ∧ z.result = x.result ∧
        z.period.start = x.period.start ∧ z.period.stop = y.period.stop := by
  obtain ⟨ps, q, q', qs, w, hbefore, hafter, hq, hq', hw, hw', hwhole⟩ :=
    Period.partition_of_not_mem hb h
  have hbw : b ∈ w := by
    refine ⟨?_, ?_⟩
    · rw [hw]
      exact Date.le_of_lt (q.start_lt b hq)
    · rw [hw', ← hq']
      exact q'.start_lt
  have hmem : w ∈ r.pieces g p := by
    rw [pieces, ← cuts, hwhole]
    simp
  have heval := evaluate_of_mem_piece hs hmem hbw
  have hx' := (run_eq_success_iff.1 hx).2
  have hy' := (run_eq_success_iff.1 hy).2
  have hz' := (run_eq_success_iff.1 hz).2
  rw [pieces, ← cuts, hwhole, List.map_append, List.map_eq_append_iff] at hx'
  rw [pieces, ← cuts, hbefore, List.map_append, List.map_eq_append_iff] at hy'
  rw [pieces, ← cuts, hafter, List.map_cons, List.map_eq_cons_iff] at hz'
  obtain ⟨init, last, rfl, hinit, hlast⟩ := hy'
  obtain ⟨x, rfl, hxq⟩ := List.map_eq_singleton_iff.1 hlast
  obtain ⟨y, tail, rfl, hyq, htail⟩ := hz'
  obtain ⟨init', rest, rfl, hinit', hrest⟩ := hx'
  rw [List.map_cons, List.map_eq_cons_iff] at hrest
  obtain ⟨z, tail', rfl, hzw, htail'⟩ := hrest
  obtain rfl := PeriodResult.told_injective.list_map (hinit'.trans hinit.symm)
  obtain rfl := PeriodResult.told_injective.list_map (htail'.trans htail.symm)
  obtain ⟨rfl, hxe⟩ := PeriodResult.told_eq_firstDay.1 hxq
  obtain ⟨rfl, hye⟩ := PeriodResult.told_eq_firstDay.1 hyq
  obtain ⟨rfl, hze⟩ := PeriodResult.told_eq_firstDay.1 hzw
  rw [hw, hxe] at hze
  rw [hw, hxe, ← hq', hye] at heval
  exact ⟨init', x, y, tail', z, rfl, rfl, rfl, hq, hq', (Except.ok.inj heval).symm,
    (Except.ok.inj hze).symm, hw, hw'⟩

/-- A run on a period, told from the runs on its parts before and from a date inside it. -/
theorem run_split (hs : r.SteadyOn g) (hb : Period.Inside b p) :
    ((∃ xs, r.run g p = .ok (.success xs r.stamp)) ↔
      (∃ ys, r.run g hb.before = .ok (.success ys r.stamp)) ∧
        ∃ zs, r.run g hb.after = .ok (.success zs r.stamp)) ∧
    ∀ xs ys zs, r.run g p = .ok (.success xs r.stamp) →
      r.run g hb.before = .ok (.success ys r.stamp) →
      r.run g hb.after = .ok (.success zs r.stamp) →
        (b ∈ r.breakpoints ∨ b ∈ r.dataBreakpoints g → xs = ys ++ zs) ∧
        (¬ (b ∈ r.breakpoints ∨ b ∈ r.dataBreakpoints g) →
          ∃ init x y tail z, ys = init ++ [x] ∧ zs = y :: tail ∧ xs = init ++ z :: tail ∧
            x.result = y.result ∧ z.result = x.result ∧ z.period.start = x.period.start ∧
              z.period.stop = y.period.stop ∧
                ∀ d, d ∈ z.period ↔ d ∈ x.period ∨ d ∈ y.period) := by
  refine ⟨isSuccess_split hs hb, fun xs ys zs hx hy hz => ⟨fun h => ?_, fun h => ?_⟩⟩
  · exact results_of_mem hb (mem_cuts.2 h) hx hy hz
  · obtain ⟨init, x, y, tail, z, hys, hzs, hxs, hxb, hyb, hxy, hzx, hstart, hstop⟩ :=
      results_of_not_mem hs hb (fun h' => h (mem_cuts.1 h')) hx hy hz
    exact ⟨init, x, y, tail, z, hys, hzs, hxs, hxy, hzx, hstart, hstop,
      fun d => Period.mem_iff_of_meet hxb hyb hstart hstop⟩

open Reconciliation in
/-- In March 2024 nothing changes, in July the amount does. -/
theorem run_split_aboveCourtFee : aboveCourtFee.SteadyOn raisedBasis ∧
    ∃ (march : Period.Inside (dayOf 2024 3 1) year2024)
      (july : Period.Inside (dayOf 2024 7 1) year2024) (xs ys zs ys' zs' : List _),
      aboveCourtFee.run raisedBasis year2024 = .ok (.success xs aboveCourtFee.stamp) ∧
      aboveCourtFee.run raisedBasis march.before = .ok (.success ys aboveCourtFee.stamp) ∧
      aboveCourtFee.run raisedBasis march.after = .ok (.success zs aboveCourtFee.stamp) ∧
      aboveCourtFee.run raisedBasis july.before = .ok (.success ys' aboveCourtFee.stamp) ∧
      aboveCourtFee.run raisedBasis july.after = .ok (.success zs' aboveCourtFee.stamp) ∧
      xs = ys' ++ zs' ∧ ∃ init x y tail z, ys = init ++ [x] ∧ zs = y :: tail ∧
        xs = init ++ z :: tail ∧ x.result = y.result ∧
          ∀ d, d ∈ z.period ↔ d ∈ x.period ∨ d ∈ y.period := by
  have hs := aboveCourtFee_steadyOn raisedBasis
  have march : Period.Inside (dayOf 2024 3 1) year2024 := by decide
  have july : Period.Inside (dayOf 2024 7 1) year2024 := by decide
  obtain ⟨xs, hx⟩ := exists_success_of_isSuccess (r := aboveCourtFee) (g := raisedBasis)
    (p := year2024) rfl
  obtain ⟨⟨ys, hy⟩, zs, hz⟩ := (run_split hs march).1.1 ⟨xs, hx⟩
  obtain ⟨⟨ys', hy'⟩, zs', hz'⟩ := (run_split hs july).1.1 ⟨xs, hx⟩
  refine ⟨hs, march, july, xs, ys, zs, ys', zs', hx, hy, hz, hy', hz', ?_, ?_⟩
  · exact ((run_split hs july).2 _ _ _ hx hy' hz').1 (by decide)
  · obtain ⟨init, x, y, tail, z, hys, hzs, hxs, hxy, -, -, -, hd⟩ :=
      ((run_split hs march).2 _ _ _ hx hy hz).2 (by decide)
    exact ⟨init, x, y, tail, z, hys, hzs, hxs, hxy, hd⟩

end Rule

end DatedRules
