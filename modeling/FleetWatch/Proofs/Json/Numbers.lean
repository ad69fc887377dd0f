import FleetWatch.Json.Literal

/-!
# Written numbers

The digits of a natural number, and what a written integer is read as.

## Main definitions

* `Literal.Spelled`: a literal as the grammar has them.
-/
namespace FleetWatch.Json

/-! ## Digits -/

theorem digitsOf_of_lt {n : Nat} (h : n < 10) : Literal.digitsOf n = [Digit.ofNat n] := by
  have hchar : ∀ k < 10, Digit.ofNat ((Nat.digitChar k).toNat - 48) = Digit.ofNat k := by decide
  simp [Literal.digitsOf, Nat.toDigits_of_lt_base h, hchar n h]

theorem digitsOf_of_ge {n : Nat} (h : 10 ≤ n) :
    Literal.digitsOf n = Literal.digitsOf (n / 10) ++ [Digit.ofNat (n % 10)] := by
  have hchar : ∀ k < 10, Digit.ofNat ((Nat.digitChar k).toNat - 48) = Digit.ofNat k := by decide
  simp [Literal.digitsOf, Nat.toDigits_of_base_le (by decide) h, hchar _ (Nat.mod_lt n (by decide))]

theorem digitsOf_ne_nil (n : Nat) : Literal.digitsOf n ≠ [] := by
  simp [Literal.digitsOf, Nat.toDigits_ne_nil]

@[simp] theorem val_digitOfNat (n : Nat) : (Digit.ofNat n).val = n % 10 := rfl

/-- The digits of a number have its value. -/
@[simp] theorem natOfDigits_digitsOf (n : Nat) : natOfDigits (Literal.digitsOf n) = n := by
  induction n using Nat.strongRecOn with
  | _ n ih =>
    rcases Nat.lt_or_ge n 10 with h | h
    · rw [digitsOf_of_lt h]
      simp [natOfDigits, Nat.mod_eq_of_lt h]
    · have hrest := ih (n / 10) (by omega)
      rw [natOfDigits] at hrest
      rw [digitsOf_of_ge h, natOfDigits, List.foldl_append, hrest]
      simp only [List.foldl_cons, List.foldl_nil, val_digitOfNat]
      omega

/-- Only zero has a leading zero. -/
theorem head_digitsOf {n : Nat} (h : n ≠ 0) : ∃ d ds, Literal.digitsOf n = d :: ds ∧ d.val ≠ 0 := by
  induction n using Nat.strongRecOn with
  | _ n ih =>
    rcases Nat.lt_or_ge n 10 with hn | hn
    · refine ⟨_, _, digitsOf_of_lt hn, ?_⟩
      rw [val_digitOfNat]
      omega
    · obtain ⟨d, ds, hds, hd⟩ := ih (n / 10) (by omega) (by omega)
      exact ⟨d, ds ++ [Digit.ofNat (n % 10)], by rw [digitsOf_of_ge hn, hds]; rfl, hd⟩

theorem le_foldl_digits (ds : List Digit) (n : Nat) :
    n ≤ ds.foldl (fun n d => n * 10 + d.val) n := by
  induction ds generalizing n with
  | nil => exact Nat.le_refl n
  | cons d ds ih => exact Nat.le_trans (by omega) (ih (n * 10 + d.val))

/-- Digits of a value within the limit are absorbed entirely. -/
theorem absorb_eq_of_le {ds : List Digit} {n : Nat}
    (h : ds.foldl (fun n d => n * 10 + d.val) n ≤ significandLimit) :
    absorb n ds = (ds.foldl (fun n d => n * 10 + d.val) n, []) := by
  induction ds generalizing n with
  | nil => rfl
  | cons d ds ih =>
    have hle := Nat.le_trans (le_foldl_digits ds (n * 10 + d.val)) h
    rw [absorb, if_neg (Nat.not_lt.mpr hle), ih h]
    rfl

theorem absorb_digitsOf {n : Nat} (h : n ≤ significandLimit) :
    absorb 0 (Literal.digitsOf n) = (n, []) := by
  have hvalue : (Literal.digitsOf n).foldl (fun n d => n * 10 + d.val) 0 = n :=
    natOfDigits_digitsOf n
  rw [absorb_eq_of_le (by rw [hvalue]; exact h), hvalue]

namespace Literal

/-- A literal as the grammar has them: with digits before the point, the first of which is zero only
if it is the only one, and with digits in an exponent. -/
structure Spelled (l : Literal) : Prop where
  whole : l.whole = [Digit.ofNat 0] ∨ ∃ d ds, l.whole = d :: ds ∧ d.val ≠ 0
  exponent : ∀ e, l.exponent = some e → e.digits ≠ []

/-! ## Integers -/

theorem spelled_ofInt (i : Int) : (ofInt i).Spelled where
  whole := by
    by_cases h : i.natAbs = 0
    · left
      simp only [ofInt, h]
      exact digitsOf_of_lt (by decide)
    · right
      exact head_digitsOf h
  exponent := by simp [ofInt]

/-- An integer of 64 bits, signed or not, is read as itself. -/
theorem read?_ofInt {i : Int} (hlow : -(UInt64.size / 2 : Nat) ≤ i) (hhigh : i < UInt64.size) :
    (ofInt i).read? = some (.integer i) := by
  have hlimit : i.natAbs ≤ significandLimit := by
    have : UInt64.size = 18446744073709551616 := rfl
    simp only [significandLimit]
    omega
  simp only [read?, ofInt, isWhole, absorb_digitsOf hlimit, List.isEmpty_nil, Option.isNone_none,
    Bool.and_self, if_true, Option.some.injEq]
  rw [readWhole]
  by_cases h : i < 0
  · simp only [h, decide_true, Bool.not_true, Bool.false_eq_true, if_false]
    rw [if_pos (by omega)]
    congr 1
    omega
  · simp only [h, decide_false, Bool.not_false, if_true]
    congr 1
    omega

/-! ## Floats -/

theorem spelled_ofDecimal (layout : Layout) (negative : Bool) {d : Decimal}
    (hd : d.digits ≠ 0 ∨ d.exponent = 0) : (ofDecimal layout negative d).Spelled := by
  have hzero : d.digits = 0 → digitsOf d.digits = [Digit.ofNat 0] := by
    intro h
    rw [h]
    exact digitsOf_of_lt (by decide)
  unfold ofDecimal
  dsimp only
  split
  · refine ⟨?_, fun e he => ?_⟩
    · by_cases h : d.digits = 0
      · simp [hzero h]
      · obtain ⟨c, cs, hcs, hc⟩ := head_digitsOf h
        exact .inr ⟨c, [], by simp [hcs], hc⟩
    · obtain rfl := Option.some.inj he
      exact digitsOf_ne_nil _
  · split
    · exact ⟨.inl rfl, by simp⟩
    · next hlead =>
      refine ⟨?_, by simp⟩
      by_cases h : d.digits = 0
      · have hexponent : d.exponent = 0 := hd.resolve_left fun hne => hne h
        left
        simp [hzero h, hexponent]
      · obtain ⟨c, cs, hcs, hc⟩ := head_digitsOf h
        exact .inr ⟨c, _, by simp [hcs]; rfl, hc⟩

end Literal

end FleetWatch.Json

namespace FleetWatch

namespace Decimal

theorem trim_of_digits_eq_zero {d : Decimal} (h : d.digits = 0) (fuel : Nat) :
    d.trim fuel = d := by
  cases fuel <;> simp [Decimal.trim, h]

theorem digits_trim_ne_zero {d : Decimal} (h : d.digits ≠ 0) (fuel : Nat) :
    (d.trim fuel).digits ≠ 0 := by
  induction fuel generalizing d with
  | zero => exact h
  | succ fuel ih =>
    rw [Decimal.trim]
    split
    · exact ih (by dsimp only; omega)
    · exact h

end Decimal

theorem le_nearestEven (n d : Nat) : n / d ≤ nearestEven n d := by
  unfold nearestEven
  dsimp only
  split
  · exact Nat.le_refl _
  · split
    · exact Nat.le_succ _
    · split
      · exact Nat.le_refl _
      · exact Nat.le_succ _

namespace Binary

/-- The reals that round to a number that is not zero are above zero. -/
theorem low_around_pos {f : Format} (hp : 0 < f.precision) {n : Nat} (hn : n ≠ 0) :
    0 < (Interval.around f n).low := by
  have hlog := Nat.log2_self_le hn
  have hspacing : f.spacing n ≤ n.log2 := by
    unfold Format.spacing
    omega
  have hstep : (1 <<< (f.spacing n + 1)) ≤ 2 * n := by
    rw [Nat.one_shiftLeft, Nat.pow_succ]
    have := Nat.pow_le_pow_right (n := 2) (by decide) hspacing
    omega
  have hhalf : (1 <<< f.spacing n) ≤ 1 <<< (f.spacing n + 1) := by
    rw [Nat.one_shiftLeft, Nat.one_shiftLeft]
    exact Nat.pow_le_pow_right (by decide) (Nat.le_succ _)
  simp only [Interval.around]
  split <;> omega

/-- A point that is found among `k`, `k + 1` and one at or above `k` is not zero, where zero is none
of them. -/
theorem digits_ne_zero_of_inside {inside : Nat → Bool} (hzero : inside 0 = false) {k nearest : Nat}
    (hnearest : k ≤ nearest) {e : Int} {d : Decimal}
    (h : (if inside k && inside (k + 1) then some (Decimal.mk nearest e)
      else if inside k then some ⟨k, e⟩
      else if inside (k + 1) then some ⟨k + 1, e⟩
      else none) = some d) : d.digits ≠ 0 := by
  have hk : inside k = true → k ≠ 0 := by
    rintro hin rfl
    simp [hzero] at hin
  split at h
  · next hin =>
    obtain rfl := Option.some.inj h
    have := hk (by simp_all)
    dsimp only
    omega
  · split at h
    · next hin =>
      obtain rfl := Option.some.inj h
      exact hk hin
    · split at h
      · obtain rfl := Option.some.inj h
        exact Nat.succ_ne_zero k
      · cases h

/-- A decimal inside an interval above zero is not zero. -/
theorem digits_onGrid_ne_zero {i : Interval} (hlow : 0 < i.low) {e : Int} {d : Decimal}
    (h : i.onGrid? e = some d) : d.digits ≠ 0 := by
  have hup : 0 < i.low * Nat.pow 10 (-e).toNat := Nat.mul_pos hlow (Nat.pow_pos (by decide))
  let up := Nat.pow 10 (-e).toNat
  let unit := i.denominator * Nat.pow 10 e.toNat
  let inside (k : Nat) : Bool :=
    if i.closed then i.low * up ≤ k * unit && k * unit ≤ i.high * up
    else i.low * up < k * unit && k * unit < i.high * up
  have hzero : inside 0 = false := by
    have hbelow : ¬ i.low * up ≤ 0 := Nat.not_le.mpr hup
    simp only [inside, Nat.zero_mul, hbelow, Nat.not_lt_zero, decide_false, Bool.false_and,
      ite_self]
  exact @digits_ne_zero_of_inside inside hzero _ _ (le_nearestEven (i.value * up) unit) e d h

theorem digits_shortest {f : Format} (hp : 0 < f.precision) {n : Nat} (hn : n ≠ 0) :
    (shortest f n).digits ≠ 0 ∨ (shortest f n).exponent = 0 := by
  have hlow := low_around_pos hp hn
  unfold shortest
  dsimp only
  generalize Interval.around f n = i at hlow
  generalize hfound : (List.range digitLimit).findSome? (fun (count : Nat) =>
    i.onGrid? (leadingExponent i.value i.denominator - count)) = found
  cases found with
  | none =>
    rw [Option.getD_none, Decimal.trim_of_digits_eq_zero rfl]
    exact .inr rfl
  | some d =>
    obtain ⟨count, -, hcount⟩ := List.exists_of_findSome?_eq_some hfound
    exact .inl (Decimal.digits_trim_ne_zero (digits_onGrid_ne_zero hlow hcount) digitLimit)

end Binary

namespace Json.Literal

/-- The literal of a float is one of the grammar. -/
theorem spelled_of_ofFloat? {f : Binary.Format} {x : Binary f} {l : Literal}
    (h : ofFloat? x = some l) : l.Spelled := by
  cases x with
  | nan => cases h
  | infinite negative => cases h
  | finite negative units holds =>
    rw [ofFloat?] at h
    split at h
    · obtain rfl := Option.some.inj h
      exact ⟨.inl rfl, by simp⟩
    · next hunits =>
      obtain rfl := Option.some.inj h
      refine spelled_ofDecimal floatLayout negative (Binary.digits_shortest ?_ hunits)
      -- a format without significands has no number but zero
      obtain ⟨m, s, hm, -, rfl⟩ := holds
      refine Nat.pos_of_ne_zero fun hp => hunits ?_
      rw [hp, Nat.one_shiftLeft, Nat.pow_zero, Nat.lt_one_iff] at hm
      rw [hm, Nat.zero_shiftLeft]

end Json.Literal
end FleetWatch
