import FleetWatch.Binary.Format

/-!
# Exact conversions

Rounding leaves the numbers of a format as they are, so that a number that is converted into a wider
format and back is the same one.

## Main definitions

* `Binary.Format.Within`: the numbers of a format are numbers of another one.
-/
namespace FleetWatch.Binary

namespace Format
variable {f g : Format}

theorem lt_of_holds {k : Nat} (h : f.Holds k) : k < 1 <<< (f.precision + f.top) := by
  obtain ⟨m, s, hm, hs, rfl⟩ := h
  rw [Nat.one_shiftLeft] at hm ⊢
  rw [Nat.shiftLeft_eq, Nat.pow_add]
  calc m * 2 ^ s < 2 ^ f.precision * 2 ^ s :=
        Nat.mul_lt_mul_of_pos_right hm (Nat.two_pow_pos s)
    _ ≤ 2 ^ f.precision * 2 ^ f.top :=
        Nat.mul_le_mul_left _ (Nat.pow_le_pow_right (by decide) hs)

/-- A number of a format is a multiple of the spacing there. -/
theorem spacing_dvd_of_holds {k : Nat} (h : f.Holds k) : 1 <<< f.spacing k ∣ k := by
  obtain ⟨m, s, hm, -, rfl⟩ := h
  rw [Nat.one_shiftLeft] at hm ⊢
  rw [Nat.shiftLeft_eq]
  by_cases hzero : m * 2 ^ s = 0
  · rw [hzero]
    exact Nat.dvd_zero _
  · have hlt : m * 2 ^ s < 2 ^ (f.precision + s) := by
      rw [Nat.pow_add]
      exact Nat.mul_lt_mul_of_pos_right hm (Nat.two_pow_pos s)
    have hlog : (m * 2 ^ s).log2 < f.precision + s := (Nat.log2_lt hzero).mpr hlt
    have hspacing : f.spacing (m * 2 ^ s) ≤ s := by
      unfold spacing
      omega
    exact Nat.dvd_trans (Nat.pow_dvd_pow 2 hspacing) (Nat.dvd_mul_left _ _)

/-- A quotient that is a number of the format is not rounded. -/
theorem round_of_holds {k d : Nat} (h : f.Holds k) (hd : 0 < d) : f.round (k * d) d = k := by
  obtain ⟨q, hq⟩ := spacing_dvd_of_holds h
  rw [Nat.one_shiftLeft] at hq
  unfold round
  rw [Nat.mul_div_cancel _ hd]
  have hpow : 0 < 2 ^ f.spacing k := Nat.two_pow_pos _
  have hmul : k * d = q * (d * 2 ^ f.spacing k) := by
    calc k * d = 2 ^ f.spacing k * q * d := by rw [← hq]
      _ = q * (d * 2 ^ f.spacing k) := by ac_rfl
  simp only [Nat.shiftLeft_eq]
  rw [hmul, nearestEven_of_dvd (Nat.mul_pos hd hpow)]
  exact (Nat.mul_comm _ _).trans hq.symm

/-- A format with more precision, finer steps and a wider range has all the numbers of another. -/
structure Within (f g : Format) : Prop where
  precision : f.precision ≤ g.precision
  scale : f.scale ≤ g.scale
  top : f.top + (g.scale - f.scale) ≤ g.top

theorem single_within_double : single.Within double := ⟨by decide, by decide, by decide⟩

/-- The steps of a number, counted in another format. -/
theorem Within.holds (hw : f.Within g) {k : Nat} (h : f.Holds k) :
    g.Holds (k <<< (g.scale - f.scale)) := by
  obtain ⟨m, s, hm, hs, rfl⟩ := h
  refine ⟨m, s + (g.scale - f.scale), ?_, ?_, (Nat.shiftLeft_add _ _ _).symm⟩
  · simp only [Nat.one_shiftLeft] at hm ⊢
    exact Nat.lt_of_lt_of_le hm (Nat.pow_le_pow_right (by decide) hw.precision)
  · have := hw.top
    omega

end Format

variable {f g : Format}

/-- A quotient that is a number of the format is that number. -/
theorem ofRatio_of_holds (hp : 0 < f.precision) {k n d : Nat} (h : f.Holds k) (hd : 0 < d)
    (hn : n <<< f.scale = k * d) (negative : Bool) :
    (ofRatio negative n d : Binary f) = .finite negative k h := by
  have hround : f.round (n <<< f.scale) d = k := by rw [hn, Format.round_of_holds h hd]
  unfold ofRatio
  rw [dif_pos ⟨hp, by rw [hround]; exact Format.lt_of_holds h⟩]
  simp only [hround]

/-- A finite number in a wider format. -/
theorem convert_finite (hw : f.Within g) (hp : 0 < f.precision) (negative : Bool) {k : Nat}
    (h : f.Holds k) :
    ((finite negative k h : Binary f).convert : Binary g) =
      .finite negative (k <<< (g.scale - f.scale)) (hw.holds h) := by
  have hscale := hw.scale
  refine ofRatio_of_holds (Nat.lt_of_lt_of_le hp hw.precision) (hw.holds h) ?_ ?_ negative
  · rw [Nat.one_shiftLeft]
    exact Nat.two_pow_pos _
  · rw [Nat.one_shiftLeft, ← Nat.shiftLeft_eq, ← Nat.shiftLeft_add]
    congr 1
    omega

/-- A number converted into a wider format and back is the same one. -/
theorem convert_convert (hw : f.Within g) (hp : 0 < f.precision) (x : Binary f) :
    ((x.convert : Binary g).convert : Binary f) = x := by
  cases x with
  | nan => rfl
  | infinite negative => rfl
  | finite negative k h =>
    have hscale := hw.scale
    rw [convert_finite hw hp]
    refine ofRatio_of_holds hp h ?_ ?_ negative
    · rw [Nat.one_shiftLeft]
      exact Nat.two_pow_pos _
    · rw [Nat.one_shiftLeft, ← Nat.shiftLeft_eq, ← Nat.shiftLeft_add]
      congr 1
      omega

end FleetWatch.Binary
