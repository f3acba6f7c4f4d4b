import DatedRules.Proofs.Products

/-!
# Nearest numbers of some decimal places

A product that has too many digits, and a quotient that does not come out even, is rounded before
anyone asks for it: to as many decimal places as there is room for, and to the nearest number of so
many places (`exists_nearestAt_of_mul?`, `exists_nearestAt_of_div?`). For a product that is what
`Decimal.fit` does (`isNearest_of_fit`). For a quotient the rounds of the long division keep the
dividend as the digits found so far times the divisor and the remainder
(`nearest_of_longDivision`), the last of them rounds (`longDivision_succ`), and what is taken off
afterwards is zeros only (`numberOf_trim`). A quotient that is a decimal is not rounded
(`toRat_div?_of_isDecimal`).
-/

namespace DatedRules

/-- Whether a whole number is as near to `n / d` as any. -/
def IsNearest (q n d : ℕ) : Prop := 2 * (q * d) ≤ 2 * n + d ∧ 2 * n ≤ 2 * (q * d) + d

theorem isNearest_roundHalfEven {n d : ℕ} (hd : 0 < d) : IsNearest (roundHalfEven n d) n d := by
  have hsplit := Nat.div_add_mod' n d
  have hrest := Nat.mod_lt n hd
  unfold IsNearest roundHalfEven
  dsimp only
  split
  · rw [Nat.add_mul, Nat.one_mul]
    omega
  · omega

theorem roundHalfEven_of_rest {q r d : ℕ} (hr : r < d) : roundHalfEven (q * d + r) d =
    if d < 2 * r ∨ (2 * r = d ∧ q % 2 = 1) then q + 1 else q := by
  have hdiv : (q * d + r) / d = q := by
    rw [Nat.mul_comm, Nat.mul_add_div (Nat.zero_lt_of_lt hr), Nat.div_eq_of_lt hr, Nat.add_zero]
  have hmod : (q * d + r) % d = r := by
    rw [Nat.mul_comm, Nat.mul_add_mod, Nat.mod_eq_of_lt hr]
  unfold roundHalfEven
  rw [hdiv, hmod]

theorem IsNearest.mul_right {q n d : ℕ} (h : IsNearest q n d) (k : ℕ) :
    IsNearest q (n * k) (d * k) := by
  obtain ⟨h₁, h₂⟩ := h
  have h₁' := Nat.mul_le_mul_right k h₁
  have h₂' := Nat.mul_le_mul_right k h₂
  simp only [Nat.add_mul, Nat.mul_assoc] at h₁' h₂'
  exact ⟨h₁', h₂'⟩

namespace Decimal

/-- Whether `y` has at most `s` decimal places and no such number is nearer to `x`. -/
structure NearestAt (s : ℕ) (x y : ℚ) : Prop where
  onGrid : ∃ n : ℤ, y * (10 ^ s : ℕ) = n
  near : |y - x| * (2 * (10 ^ s : ℕ)) ≤ 1

theorem nearestAt_self_zero : NearestAt 0 0 0 := ⟨⟨0, by simp⟩, by simp⟩

theorem nearestAt_of_isNearest {q n d s : ℕ} {x : ℚ} (hd : 0 < d) (hx : x * (10 ^ s : ℕ) * d = n)
    (h : IsNearest q n d) : NearestAt s x (q / (10 ^ s : ℕ)) := by
  have hs := pow_ten_pos s
  have hd' : (0 : ℚ) < d := by exact_mod_cast hd
  obtain ⟨hlow, hhigh⟩ : 2 * ((q : ℚ) * d) ≤ 2 * n + d ∧ 2 * (n : ℚ) ≤ 2 * (q * d) + d := by
    exact_mod_cast h
  have hdist : ((q : ℚ) / (10 ^ s : ℕ) - x) * (2 * (10 ^ s : ℕ)) * d = 2 * (q * d) - 2 * n := by
    rw [← hx]
    field_simp
  refine ⟨⟨q, div_mul_cancel₀ _ hs.ne'⟩, ?_⟩
  rw [← abs_of_pos (show (0 : ℚ) < 2 * (10 ^ s : ℕ) by linarith), ← abs_mul, abs_le]
  constructor
  · refine le_of_mul_le_mul_right ?_ hd'
    rw [hdist]
    linarith
  · refine le_of_mul_le_mul_right ?_ hd'
    rw [hdist]
    linarith

theorem NearestAt.signOf_mul {s : ℕ} {x y : ℚ} (h : NearestAt s x y) (negative : Bool) :
    NearestAt s (signOf negative * x) (signOf negative * y) := by
  obtain ⟨⟨n, hn⟩, hnear⟩ := h
  refine ⟨⟨if negative then -n else n, ?_⟩, ?_⟩
  · rw [mul_assoc, hn]
    cases negative <;> simp [signOf]
  · rwa [← mul_sub, abs_mul, abs_signOf, one_mul]

theorem toRat_of_ofParts? {negative : Bool} {m t : ℕ} {c : Decimal}
    (h : ofParts? negative m t = some c) :
    c.toRat = signOf negative * (m / (10 ^ t : ℕ)) := by
  obtain ⟨rfl, rfl, rfl⟩ := ofParts?_eq_some h
  exact toRat_eq_signOf_mul c

/-- A sign may be left out for zero. -/
theorem signOf_and_mul {negative keep : Bool} {y : ℚ} (h : keep = false → y = 0) :
    signOf (negative && keep) * y = signOf negative * y := by
  cases keep
  · rw [h rfl, mul_zero, mul_zero]
  · rw [Bool.and_true]

section Products

variable {a b c : Decimal}

/-- A magnitude in range is nearest among those of its scale, also where rounding reaches `2 ^ 96`
and takes one more place. -/
theorem isNearest_of_fit {m s q t : ℕ} (h : fit m s = some (q, t)) :
    t ≤ s ∧ IsNearest q m (10 ^ (s - t)) := by
  unfold fit at h
  split at h
  · cases h
  · rename_i k hk
    obtain ⟨hks, ⟨-, hdigits⟩, -⟩ := surplus?_eq_some_iff.1 hk
    have hpos : 0 < 10 ^ k := Nat.pow_pos (by decide)
    have hnear := isNearest_roundHalfEven (n := m) hpos
    dsimp only at h
    split at h
    · cases h
      exact ⟨Nat.sub_le s k, by rwa [Nat.sub_sub_self hks]⟩
    · rename_i hbig
      split at h
      · rename_i hlt
        cases h
        have hq : roundHalfEven m (10 ^ k) = 2 ^ 96 := by
          have hup := roundHalfEven_le m (10 ^ k)
          omega
        have hten : roundHalfEven (2 ^ 96) 10 = 7922816251426433759354395034 := by decide
        have hm := (Nat.div_lt_iff_lt_mul hpos).1 hdigits
        rw [hq] at hnear
        obtain ⟨hlow, -⟩ := hnear
        rw [hq, hten, show s - (s - k - 1) = k + 1 by omega, Nat.pow_succ]
        unfold IsNearest
        omega
      · cases h

/-- Zero is near enough to a product of small factors that has more than 47 places. -/
theorem nearestAt_zero_of_small {m s : ℕ} (hm : m < 2 ^ 64) (hs : 47 < s) :
    NearestAt 28 ((m : ℚ) / (10 ^ s : ℕ)) 0 := by
  refine ⟨⟨0, by simp⟩, ?_⟩
  have hle : 2 * (m * 10 ^ 28) ≤ 10 ^ s :=
    calc 2 * (m * 10 ^ 28) ≤ 2 * (2 ^ 64 * 10 ^ 28) := by omega
      _ ≤ 10 ^ 48 := by decide
      _ ≤ 10 ^ s := Nat.pow_le_pow_right (by decide) hs
  rw [zero_sub, abs_neg, abs_of_nonneg (by positivity), div_mul_eq_mul_div,
    div_le_one (pow_ten_pos s)]
  calc (m : ℚ) * (2 * (10 ^ 28 : ℕ)) = (2 * (m * 10 ^ 28) : ℕ) := by push_cast; ring
    _ ≤ (10 ^ s : ℕ) := by exact_mod_cast hle

theorem exists_nearestAt_of_mul? (h : a.mul? b = some c) :
    ∃ s, NearestAt s (a.toRat * b.toRat) c.toRat := by
  unfold mul? at h
  split at h
  · rename_i hz
    cases h
    rw [toRat_mul_of_isZero hz, toRat_of_isZero rfl]
    exact ⟨0, nearestAt_self_zero⟩
  · dsimp only at h
    rw [toRat_mul_eq]
    split at h
    · rename_i hfew
      simp only [Bool.and_eq_true, decide_eq_true_eq] at hfew
      obtain ⟨⟨ha, hb⟩, hs⟩ := hfew
      cases h
      have hm : a.mantissa * b.mantissa < 2 ^ 32 * 2 ^ 32 := Nat.mul_lt_mul'' ha hb
      have hnear := (nearestAt_zero_of_small hm hs).signOf_mul (a.negative != b.negative)
      rw [mul_zero] at hnear
      exact ⟨28, by rwa [toRat_of_isZero rfl]⟩
    · split at h
      · cases h
      · rename_i q t hfit
        obtain ⟨hts, hnear⟩ := isNearest_of_fit hfit
        refine ⟨t, ?_⟩
        rw [toRat_of_ofParts? h, signOf_and_mul (by simp_all)]
        refine (nearestAt_of_isNearest (Nat.pow_pos (by decide)) ?_ hnear).signOf_mul _
        rw [mul_assoc, ← Nat.cast_mul, ← Nat.pow_add, Nat.add_sub_cancel' hts,
          div_mul_cancel₀ _ (pow_ten_pos _).ne']

end Products

section Division

/-- The last digit taken off and rounded: exactly half of it is only left if nothing follows. -/
theorem isNearest_tenth (n : ℕ) {r d : ℕ} (hr : r < d) :
    IsNearest (if 5 < n % 10 || (n % 10 == 5 && (r != 0 || n / 10 % 2 == 1)) then n / 10 + 1
      else n / 10) (n * d + r) (d * 10) := by
  have hsplit : n * d = n / 10 * (d * 10) + n % 10 * d := by
    conv_lhs => rw [← Nat.div_add_mod' n 10]
    ring
  have hdigit : n % 10 ≤ 9 := Nat.le_of_lt_succ (Nat.mod_lt n (by decide))
  unfold IsNearest
  rw [hsplit]
  split
  · have hhigh : 5 ≤ n % 10 := by grind
    have hmul := Nat.mul_le_mul_right d hhigh
    have hmul' := Nat.mul_le_mul_right d hdigit
    rw [Nat.add_mul, Nat.one_mul]
    omega
  · have hlow : n % 10 ≤ 4 ∨ n % 10 = 5 ∧ r = 0 := by grind
    have hmul : n % 10 * d + r ≤ 5 * d := by
      rcases hlow with hle | ⟨heq, rfl⟩
      · have hle' := Nat.mul_le_mul_right d hle
        omega
      · rw [heq, Nat.add_zero]
    omega

theorem shorten_eq_some {n : ℕ} {scale : ℤ} {more inexact : Bool} {q : Quotient}
    (h : Quotient.shorten n scale more inexact = some q) :
    1 ≤ scale ∧ q = ⟨if 5 < n % 10 || (n % 10 == 5 && (more || n / 10 % 2 == 1)) then n / 10 + 1
      else n / 10, scale - 1, inexact⟩ := by
  unfold Quotient.shorten at h
  split at h
  · cases h
  · exact ⟨by omega, by simpa using h.symm⟩

theorem headroom_succ (digits room : ℕ) : headroom digits (room + 1) =
    if digits * 10 ^ (room + 1) < 2 ^ 96 then room + 1 else headroom digits room := by
  unfold headroom
  rw [List.range_succ, List.reverse_append, List.reverse_singleton, List.singleton_append,
    List.find?_cons]
  split <;> simp_all

theorem headroom_zero (digits : ℕ) : headroom digits 0 = 0 := by
  unfold headroom
  rw [show (List.range (0 + 1)).reverse = [0] from rfl, List.find?_singleton]
  split <;> rfl

theorem headroom_le (digits : ℕ) : ∀ room, headroom digits room ≤ room
  | 0 => (headroom_zero digits).le
  | room + 1 => by
    rw [headroom_succ]
    split
    · exact Nat.le_refl _
    · exact (headroom_le digits room).trans (Nat.le_succ room)

/-- Digits that cannot be moved by any place have no room for one more. -/
theorem le_of_headroom_eq_zero {digits : ℕ} : ∀ {room}, 0 < room → headroom digits room = 0 →
    2 ^ 96 ≤ digits * 10
  | room + 1, _, h => by
    rw [headroom_succ] at h
    split at h
    · cases h
    · rename_i hbig
      rcases Nat.eq_zero_or_pos room with rfl | hpos
      · simpa using hbig
      · exact le_of_headroom_eq_zero hpos h

theorem full_of_headroom {digits : ℕ} {scale : ℤ} (hscale : scale ≤ 28)
    (h : headroom digits (Nat.min 9 (28 - scale).toNat) = 0) :
    scale = 28 ∨ 2 ^ 96 ≤ digits * 10 := by
  rcases hscale.lt_or_eq with hlt | heq
  · have hleft : 0 < (28 - scale).toNat := by omega
    exact .inr (le_of_headroom_eq_zero (Nat.lt_min.2 ⟨by decide, hleft⟩) h)
  · exact .inl heq

/-- A round of long division leaves no remainder, rounds the last digit as there is no room for
another, or moves the digits on by some places. -/
theorem longDivision_succ {d rounds digits r : ℕ} {scale : ℤ} {inexact : Bool} {q : Quotient}
    (hr : r < d) (hscale : scale ≤ 28)
    (h : longDivision d (rounds + 1) digits r scale inexact = some q) :
    (r = 0 ∧ 0 ≤ scale ∧ q = ⟨digits, scale, inexact⟩) ∨
    (r ≠ 0 ∧ 0 ≤ scale ∧ (scale = 28 ∨ 2 ^ 96 ≤ digits * 10) ∧
      ∃ n, n = roundHalfEven (digits * d + r) d ∧
        (q = ⟨n, scale, true⟩ ∨ 2 ^ 96 ≤ n ∧ Quotient.shorten n scale true true = some q)) ∨
    ∃ p n rest more, scale + (p : ℕ) ≤ 28 ∧ rest < d ∧ n * d + rest = (digits * d + r) * 10 ^ p ∧
      (2 ^ 96 ≤ n ∧ Quotient.shorten n (scale + p) (rest != 0) more = some q ∨
        n < 2 ^ 96 ∧ longDivision d rounds n rest (scale + p) more = some q) := by
  have hd : 0 < d := Nat.zero_lt_of_lt hr
  unfold longDivision at h
  dsimp only at h
  split at h
  · rename_i hdone
    exact .inl ⟨hdone.1, hdone.2, by simpa using h.symm⟩
  · rename_i hmore
    right
    have hroom : Nat.min 9 (28 - scale).toNat ≤ (28 - scale).toNat := Nat.min_le_right ..
    have hback : Nat.min 9 (-scale).toNat ≤ (-scale).toNat := Nat.min_le_right ..
    have hhead := headroom_le digits (Nat.min 9 (28 - scale).toNat)
    set p := if r = 0 then Nat.min 9 (-scale).toNat
      else headroom digits (Nat.min 9 (28 - scale).toNat) with hp
    split at h
    · cases h
    · rename_i hguard
      split at h
      · rename_i hzero
        left
        have hr₀ : r ≠ 0 := by
          rintro rfl
          have hneg : 0 < (-scale).toNat := by omega
          have hpos : 0 < Nat.min 9 (-scale).toNat := Nat.lt_min.2 ⟨by decide, hneg⟩
          rw [if_pos rfl] at hp
          omega
        rw [← roundHalfEven_of_rest hr] at h
        rw [if_neg hr₀] at hp
        refine ⟨hr₀, by omega, full_of_headroom hscale (hp.symm.trans hzero), _, rfl, ?_⟩
        have hinexact : (inexact || r != 0) = true := by simp [hr₀]
        rw [hinexact] at h
        split at h
        · exact .inl (by simpa using h.symm)
        · rename_i hbig
          exact .inr ⟨not_lt.1 hbig, h⟩
      · split at h
        · cases h
        · right
          refine ⟨p, digits * 10 ^ p + r * 10 ^ p / d, r * 10 ^ p % d, inexact || r != 0, ?_,
            Nat.mod_lt _ hd, ?_, ?_⟩
          · split at hp <;> omega
          · rw [Nat.add_mul, Nat.add_assoc, Nat.div_add_mod', Nat.add_mul]
            ring
          · split at h
            · rename_i hbig
              exact .inl ⟨hbig, h⟩
            · rename_i hsmall
              exact .inr ⟨not_le.1 hsmall, h⟩

/-- Whether digits at their scale are nearest to `n / d` at scale 28, and that number itself if it
has a mantissa in range. -/
structure Quotient.Nearest (q : Quotient) (n d : ℕ) : Prop where
  nonneg : 0 ≤ q.scale
  le : q.scale ≤ 28
  near : IsNearest q.digits n (d * 10 ^ (28 - q.scale).toNat)
  exact : ∀ m t, m < 2 ^ 96 → t ≤ 28 → m * (d * 10 ^ (28 - t)) = n →
    q.digits * (d * 10 ^ (28 - q.scale).toNat) = n

theorem Quotient.Nearest.pow_eq {q : Quotient} {n d : ℕ} (h : q.Nearest n d) :
    10 ^ 28 = 10 ^ q.scale.toNat * 10 ^ (28 - q.scale).toNat := by
  have hnonneg := h.nonneg
  have hle := h.le
  rw [← Nat.pow_add]
  congr 1
  omega

/-- Numbers at two scales that are the same at scale 28, at the larger of the two. -/
theorem eq_of_aligned {m d t x s : ℕ} (ht : t ≤ 28) (hs : s ≤ 28)
    (h : m * (d * 10 ^ (28 - t)) = x * 10 ^ (28 - s)) :
    t ≤ s ∧ m * 10 ^ (s - t) * d = x ∨ s < t ∧ m * d = x * 10 ^ (t - s) := by
  rcases Nat.lt_or_ge s t with hlt | hle
  · have hpos : 0 < 10 ^ (28 - t) := Nat.pow_pos (by decide)
    refine .inr ⟨hlt, Nat.eq_of_mul_eq_mul_right hpos ?_⟩
    rw [Nat.mul_assoc, h, Nat.mul_assoc, ← Nat.pow_add, show t - s + (28 - t) = 28 - s by omega]
  · have hpos : 0 < 10 ^ (28 - s) := Nat.pow_pos (by decide)
    refine .inl ⟨hle, Nat.eq_of_mul_eq_mul_right hpos ?_⟩
    rw [← h, show 28 - t = s - t + (28 - s) by omega, Nat.pow_add]
    ring

variable {d n : ℕ}

theorem rest_eq_zero {d x k r : ℕ} (hr : r < d) (h : x * d = k * d + r) : r = 0 := by
  have hmod : (k * d + r) % d = 0 := by rw [← h, Nat.mul_mod_left]
  rwa [Nat.mul_comm, Nat.mul_add_mod, Nat.mod_eq_of_lt hr] at hmod

/-- Digits that leave a remainder and have no room for another one are not those of a decimal. -/
theorem not_decimal_of_rest {k r s m t : ℕ} (hr : r < d) (hr₀ : r ≠ 0) (hs : s ≤ 28)
    (hfull : s = 28 ∨ 2 ^ 96 ≤ k * 10) (hm : m < 2 ^ 96) (ht : t ≤ 28) :
    m * (d * 10 ^ (28 - t)) ≠ (k * d + r) * 10 ^ (28 - s) := by
  intro h
  rcases eq_of_aligned ht hs h with ⟨-, heq⟩ | ⟨hlt, heq⟩
  · exact hr₀ (rest_eq_zero hr heq)
  · have hbig : 2 ^ 96 ≤ k * 10 := hfull.resolve_left (by omega)
    have hten := Rounding.ten_le_pow (Nat.sub_pos_of_lt hlt)
    have hle : 2 ^ 96 * d ≤ m * d :=
      calc 2 ^ 96 * d ≤ k * 10 * d := Nat.mul_le_mul_right d hbig
        _ = k * d * 10 := by ring
        _ ≤ (k * d + r) * 10 ^ (t - s) := Nat.mul_le_mul (Nat.le_add_right _ _) hten
        _ = m * d := heq.symm
    exact absurd (Nat.le_of_mul_le_mul_right hle (Nat.zero_lt_of_lt hr)) (not_le.2 hm)

/-- Digits out of range are those of a decimal only if they end in a zero and nothing follows. -/
theorem last_zero_of_decimal {k r s m t : ℕ} (hr : r < d) (hs : s ≤ 28) (hk : 2 ^ 96 ≤ k)
    (hm : m < 2 ^ 96) (ht : t ≤ 28)
    (h : m * (d * 10 ^ (28 - t)) = (k * d + r) * 10 ^ (28 - s)) : r = 0 ∧ k % 10 = 0 := by
  have hd := Nat.zero_lt_of_lt hr
  have hlarge : ∀ j, m * d ≠ (k * d + r) * 10 ^ j := fun j heq => by
    have hle : k * d ≤ m * d :=
      calc k * d ≤ (k * d + r) * 10 ^ j :=
            (Nat.le_add_right _ _).trans (Nat.le_mul_of_pos_right _ (Nat.pow_pos (by decide)))
        _ = m * d := heq.symm
    exact absurd (hk.trans (Nat.le_of_mul_le_mul_right hle hd)) (not_le.2 hm)
  rcases eq_of_aligned ht hs h with ⟨hle, heq⟩ | ⟨-, heq⟩
  · obtain rfl := rest_eq_zero hr heq
    refine ⟨rfl, ?_⟩
    rcases hle.lt_or_eq with hlt | rfl
    · have hk' : k = m * 10 ^ (s - t) := (Nat.eq_of_mul_eq_mul_right hd heq).symm
      rw [hk', show s - t = s - t - 1 + 1 by omega, Nat.pow_succ, ← Nat.mul_assoc, Nat.mul_mod_left]
    · rw [Nat.sub_self] at heq
      exact absurd (by simpa using heq) (hlarge 0)
  · exact absurd heq (hlarge _)

theorem nearest_of_tenth {k m s : ℕ} {inexact : Bool} (hpos : 1 ≤ s) (hs : s ≤ 28)
    (hn : k * 10 ^ (28 - s) = n) (hnear : IsNearest m k (d * 10))
    (hexact : ∀ c t, c < 2 ^ 96 → t ≤ 28 → c * (d * 10 ^ (28 - t)) = n → m * (d * 10) = k) :
    Quotient.Nearest ⟨m, s - 1, inexact⟩ n d := by
  have hplaces : (28 - ((s : ℤ) - 1)).toNat = 28 - s + 1 := by omega
  have hten : d * 10 ^ (28 - s + 1) = d * 10 * 10 ^ (28 - s) := by
    rw [Nat.pow_succ', Nat.mul_assoc]
  refine ⟨by simp only; omega, by simp only; omega, ?_, fun c t hc ht hct => ?_⟩
  · have hmul := hnear.mul_right (10 ^ (28 - s))
    rwa [hn, ← hten, ← hplaces] at hmul
  · rw [hplaces, hten, ← Nat.mul_assoc, hexact c t hc ht hct, hn]

/-- Digits that have no room for another one are rounded by the remainder. Should that take them to
`2 ^ 96`, they are half a unit below it at most, and so nearest to it less the last place too. -/
theorem nearest_of_rounded {digits r m s : ℕ} {q : Quotient} (hr : r < d) (hr₀ : r ≠ 0)
    (hdigits : digits < 2 ^ 96) (hs : s ≤ 28) (hfull : s = 28 ∨ 2 ^ 96 ≤ digits * 10)
    (hn : (digits * d + r) * 10 ^ (28 - s) = n) (hm : m = roundHalfEven (digits * d + r) d)
    (hq : q = ⟨m, s, true⟩ ∨ 2 ^ 96 ≤ m ∧ Quotient.shorten m s true true = some q) :
    q.Nearest n d := by
  have hplaces : (28 - (s : ℤ)).toNat = 28 - s := by omega
  have hnear : IsNearest m (digits * d + r) d :=
    hm ▸ isNearest_roundHalfEven (Nat.zero_lt_of_lt hr)
  have hnot : ∀ c t, c < 2 ^ 96 → t ≤ 28 → c * (d * 10 ^ (28 - t)) ≠ n := fun c t hc ht =>
    hn ▸ not_decimal_of_rest hr hr₀ hs hfull hc ht
  rcases hq with rfl | ⟨hbig, hq⟩
  · refine ⟨by simp only; omega, by simp only; omega, ?_, fun c t hc ht hct =>
      absurd hct (hnot c t hc ht)⟩
    rw [hplaces, ← hn]
    exact hnear.mul_right _
  · have hup : m ≤ digits + 1 := by
      rw [hm, roundHalfEven_of_rest hr]
      split <;> omega
    have hm' : m = 2 ^ 96 := by omega
    have hdigits' : digits = 2 ^ 96 - 1 := by omega
    obtain ⟨hone, rfl⟩ := shorten_eq_some hq
    refine nearest_of_tenth (by omega) hs hn ?_ fun c t hc ht hct => absurd hct (hnot c t hc ht)
    subst hm' hdigits'
    obtain ⟨hlow, -⟩ := hnear
    simp only [IsNearest] at hlow ⊢
    norm_num at hlow ⊢
    omega

/-- Digits that have outgrown the range lose the last one. -/
theorem nearest_of_shortened {m r s : ℕ} {inexact : Bool} {q : Quotient} (hr : r < d)
    (hbig : 2 ^ 96 ≤ m) (hs : s ≤ 28) (hn : (m * d + r) * 10 ^ (28 - s) = n)
    (hq : Quotient.shorten m s (r != 0) inexact = some q) : q.Nearest n d := by
  obtain ⟨hone, rfl⟩ := shorten_eq_some hq
  refine nearest_of_tenth (by omega) hs hn (isNearest_tenth m hr) fun c t hc ht hct => ?_
  obtain ⟨rfl, hlast⟩ := last_zero_of_decimal hr hs hbig hc ht (hct.trans hn.symm)
  have hdown : (if 5 < m % 10 || (m % 10 == 5 && ((0 : ℕ) != 0 || m / 10 % 2 == 1))
      then m / 10 + 1 else m / 10) = m / 10 := by simp [hlast]
  rw [hdown, Nat.mul_comm d, ← Nat.mul_assoc, Nat.div_mul_cancel (Nat.dvd_of_mod_eq_zero hlast),
    Nat.add_zero]

/-- The rounds keep the dividend, and the last of them is nearest to the quotient. -/
theorem nearest_of_longDivision : ∀ {rounds digits r : ℕ} {scale : ℤ} {inexact : Bool}
    {q : Quotient}, r < d → digits < 2 ^ 96 → scale ≤ 28 →
      (digits * d + r) * 10 ^ (28 - scale).toNat = n →
        longDivision d rounds digits r scale inexact = some q → q.Nearest n d
  | 0, _, _, _, _, _, _, _, _, _, h => by cases h
  | rounds + 1, digits, r, scale, inexact, q, hr, hdigits, hscale, hn, h => by
    rcases longDivision_succ hr hscale h with ⟨rfl, hpos, rfl⟩ |
      ⟨hr₀, hpos, hfull, m, hm, hq⟩ | ⟨p, m, rest, more, hroom, hrest, hmove, hq⟩
    · have heq : digits * (d * 10 ^ (28 - scale).toNat) = n := by
        rw [← hn, Nat.add_zero, Nat.mul_assoc]
      refine ⟨hpos, hscale, ?_, fun _ _ _ _ _ => heq⟩
      rw [← heq]
      exact ⟨Nat.le_add_right _ _, Nat.le_add_right _ _⟩
    · obtain ⟨s, rfl⟩ := Int.eq_ofNat_of_zero_le hpos
      rw [show (28 - (s : ℤ)).toNat = 28 - s by omega] at hn
      exact nearest_of_rounded hr hr₀ hdigits (by omega) (hfull.imp_left (by omega)) hn hm hq
    · have hpow : (28 - scale).toNat = p + (28 - (scale + p)).toNat := by omega
      have hn' : (m * d + rest) * 10 ^ (28 - (scale + p)).toNat = n := by
        rw [← hn, hmove, Nat.mul_assoc, ← Nat.pow_add, ← hpow]
      rcases hq with ⟨hbig, hq⟩ | ⟨hsmall, hq⟩
      · obtain ⟨hone, -⟩ := shorten_eq_some hq
        obtain ⟨s, hs⟩ := Int.eq_ofNat_of_zero_le (by omega : 0 ≤ scale + p)
        rw [hs] at hn' hq hroom
        rw [show (28 - (s : ℤ)).toNat = 28 - s by omega] at hn'
        exact nearest_of_shortened hrest hbig (by omega) hn' hq
      · exact nearest_of_longDivision hrest hsmall hroom hn' hq

/-- The number of a mantissa and a scale. -/
def numberOf (q : ℕ × ℕ) : ℚ := q.1 / (10 ^ q.2 : ℕ)

theorem numberOf_drop {k m s : ℕ} (hs : k ≤ s) (hm : m % 10 ^ k = 0) :
    numberOf (m / 10 ^ k, s - k) = numberOf (m, s) := by
  have hsplit : m = m / 10 ^ k * 10 ^ k := (Nat.div_mul_cancel (Nat.dvd_of_mod_eq_zero hm)).symm
  have hpow : 10 ^ s = 10 ^ (s - k) * 10 ^ k := by rw [← Nat.pow_add, Nat.sub_add_cancel hs]
  unfold numberOf
  rw [div_eq_div_iff (pow_ten_pos _).ne' (pow_ten_pos _).ne', ← Nat.cast_mul, ← Nat.cast_mul]
  dsimp only
  rw [hpow]
  conv_rhs => rw [hsplit]
  rw [Nat.mul_comm (10 ^ (s - k)), Nat.mul_assoc]

theorem numberOf_dropZeros (k : ℕ) (q : ℕ × ℕ) : numberOf (dropZeros k q) = numberOf q := by
  unfold dropZeros
  split
  · rename_i h
    exact numberOf_drop h.1 h.2
  · rfl

theorem numberOf_dropEights : ∀ (rounds : ℕ) (q : ℕ × ℕ),
    numberOf (dropEights rounds q) = numberOf q
  | 0, _ => rfl
  | rounds + 1, (m, s) => by
    unfold dropEights
    split
    · rename_i h
      rw [numberOf_dropEights rounds, numberOf_drop h.1 h.2.2]
    · rfl

/-- What is taken off the digits of a quotient is zeros only. -/
theorem numberOf_trim (m s : ℕ) : numberOf (trim m s) = numberOf (m, s) := by
  unfold trim
  rw [numberOf_dropZeros, numberOf_dropZeros, numberOf_dropZeros, numberOf_dropEights]

variable {a b c : Decimal}

/-- The dividend brought to as many places more than the divisor as a decimal has. -/
def scaledDividend (a b : Decimal) : ℕ := a.mantissa * 10 ^ (28 + b.scale - a.scale)

theorem toRat_div_eq (a b : Decimal) : a.toRat / b.toRat =
    signOf (a.negative != b.negative) * (a.scaledDividend b / (b.mantissa * 10 ^ 28 : ℕ)) := by
  have hsign : signOf a.negative / signOf b.negative = signOf (a.negative != b.negative) := by
    cases a.negative <;> cases b.negative <;> norm_num [signOf]
  have hpow : 10 ^ (28 + b.scale - a.scale) * 10 ^ a.scale = 10 ^ 28 * 10 ^ b.scale := by
    have := a.scale_le
    rw [← Nat.pow_add, ← Nat.pow_add, Nat.sub_add_cancel (by omega)]
  rw [toRat_eq_signOf_mul a, toRat_eq_signOf_mul b, mul_div_mul_comm, hsign, div_div_div_eq]
  congr 1
  rcases Nat.eq_zero_or_pos b.mantissa with hb | hb
  · simp [hb]
  · have hb' : (b.mantissa : ℚ) ≠ 0 := by exact_mod_cast hb.ne'
    rw [div_eq_div_iff (mul_ne_zero (pow_ten_pos _).ne' hb')
      (by rw [Nat.cast_mul]; exact mul_ne_zero hb' (pow_ten_pos _).ne')]
    norm_cast
    calc a.mantissa * 10 ^ b.scale * (b.mantissa * 10 ^ 28)
        = a.mantissa * (10 ^ 28 * 10 ^ b.scale) * b.mantissa := by ring
      _ = a.scaledDividend b * (10 ^ a.scale * b.mantissa) := by
          rw [← hpow, scaledDividend]
          ring

/-- A quotient has the digits that the long division finds, less zeros. -/
theorem exists_quotient_of_div? (h : a.div? b = some c) (ha : a.isZero = false) :
    0 < b.mantissa ∧ ∃ q : Quotient, q.Nearest (a.scaledDividend b) b.mantissa ∧
      c.toRat = signOf (a.negative != b.negative) * numberOf (q.digits, q.scale.toNat) := by
  unfold div? at h
  split at h
  · cases h
  · rename_i hb
    have hd : 0 < b.mantissa := Nat.pos_of_ne_zero (by simpa [isZero] using hb)
    have hscale := a.scale_le
    rw [if_neg (by simp [ha])] at h
    dsimp only at h
    split at h
    · cases h
    · rename_i q hq
      refine ⟨hd, q, nearest_of_longDivision (Nat.mod_lt _ hd)
        ((Nat.div_le_self _ _).trans_lt a.mantissa_lt) (by omega) ?_ hq, ?_⟩
      · rw [Nat.div_add_mod', scaledDividend]
        congr 2
        omega
      · have hnumber : numberOf (if q.inexact then trim q.digits q.scale.toNat
            else (q.digits, q.scale.toNat)) = numberOf (q.digits, q.scale.toNat) := by
          split
          · exact numberOf_trim _ _
          · rfl
        rw [← hnumber, toRat_of_ofParts? h, ← numberOf]
        refine signOf_and_mul fun hzero => ?_
        rw [numberOf, show (_ : ℕ × ℕ).1 = 0 by simpa using hzero, Nat.cast_zero, zero_div]

theorem div_toRat_of_isZero (h : a.div? b = some c) (ha : a.isZero = true) :
    c.toRat = a.toRat / b.toRat := by
  unfold div? at h
  rw [toRat_of_isZero ha, zero_div]
  split at h
  · cases h
  · simp only [Option.some.injEq] at h
    rw [← h, toRat_of_isZero rfl]

theorem exists_nearestAt_of_div? (h : a.div? b = some c) :
    ∃ s, NearestAt s (a.toRat / b.toRat) c.toRat := by
  rcases ha : a.isZero with _ | _
  · obtain ⟨hd, q, hq, hc⟩ := exists_quotient_of_div? h ha
    refine ⟨q.scale.toNat, ?_⟩
    rw [hc, toRat_div_eq]
    have hpos := Nat.mul_pos hd (Nat.pow_pos (n := (28 - q.scale).toNat) (show 0 < 10 by decide))
    refine (nearestAt_of_isNearest hpos ?_ hq.near).signOf_mul _
    have hd' : (b.mantissa : ℚ) ≠ 0 := by exact_mod_cast hd.ne'
    rw [hq.pow_eq]
    have h₁ := (pow_ten_pos q.scale.toNat).ne'
    have h₂ := (pow_ten_pos (28 - q.scale).toNat).ne'
    push_cast at h₁ h₂ ⊢
    field_simp
  · rw [div_toRat_of_isZero h ha, toRat_of_isZero ha, zero_div]
    exact ⟨0, nearestAt_self_zero⟩

/-- A quotient that is a decimal is found. -/
theorem toRat_div?_of_isDecimal (h : a.div? b = some c) (hx : IsDecimal (a.toRat / b.toRat)) :
    c.toRat = a.toRat / b.toRat := by
  rcases ha : a.isZero with _ | _
  · obtain ⟨hd, q, hq, hc⟩ := exists_quotient_of_div? h ha
    obtain ⟨e, he⟩ := hx
    have hd' : ((b.mantissa * 10 ^ 28 : ℕ) : ℚ) ≠ 0 := by
      exact_mod_cast (Nat.mul_pos hd (Nat.pow_pos (by decide))).ne'
    have hdigits : e.mantissa * (b.mantissa * 10 ^ 28) = a.scaledDividend b * 10 ^ e.scale := by
      have habs : |e.toRat| = |a.toRat / b.toRat| := by rw [he]
      rw [toRat_div_eq, abs_toRat, abs_mul, abs_signOf, one_mul, abs_of_nonneg (by positivity),
        div_eq_div_iff (pow_ten_pos _).ne' hd'] at habs
      exact_mod_cast habs
    have hexact := hq.exact e.mantissa e.scale e.mantissa_lt e.scale_le
      (Nat.eq_of_mul_eq_mul_right (Nat.pow_pos (n := e.scale) (show 0 < 10 by decide)) (by
        rw [← hdigits, Nat.mul_assoc, Nat.mul_assoc, ← Nat.pow_add, Nat.sub_add_cancel e.scale_le]))
    rw [hc, toRat_div_eq, numberOf]
    congr 1
    rw [div_eq_div_iff (pow_ten_pos _).ne' hd', ← Nat.cast_mul, ← Nat.cast_mul]
    norm_cast
    dsimp only
    rw [← hexact, hq.pow_eq]
    ring
  · exact div_toRat_of_isZero h ha

end Division

end Decimal
end DatedRules
