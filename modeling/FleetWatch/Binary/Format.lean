/-!
# Binary floating-point numbers

A finite number is a whole count of the format's smallest step, so comparison, widening and exact
sums are arithmetic on natural numbers. One rounding, to nearest with ties to even, serves every
operation that can leave the format.

## Main definitions

* `Binary.Format`: precision, step and range; `Binary.Format.single` and `Binary.Format.double`.
* `Binary f`: the numbers of a format.
* `Binary.ofRatio`: a signed quotient of naturals, rounded into a format.
* `Binary.convert`, `Binary.add`, `Binary.mul`, `Binary.div`: the arithmetic used by the readings.
-/
namespace FleetWatch

/-- The quotient `n / d` rounded to the nearest natural number, a tie going to the even one. -/
def nearestEven (n d : Nat) : Nat :=
  let q := n / d
  let r := n % d
  if 2 * r < d then q
  else if d < 2 * r then q + 1
  else if q % 2 = 0 then q else q + 1

theorem nearestEven_le (n d : Nat) : nearestEven n d ≤ n / d + 1 := by
  unfold nearestEven; dsimp only; split
  · omega
  · split
    · omega
    · split <;> omega

theorem nearestEven_of_dvd {d : Nat} (hd : 0 < d) (q : Nat) : nearestEven (q * d) d = q := by
  unfold nearestEven; simp [Nat.mul_div_cancel _ hd, hd]

namespace Binary

/-- A format: significands of `precision` bits, steps of `2 ^ -scale`, and a widest spacing of
`2 ^ top` steps. -/
structure Format where
  precision : Nat
  scale : Nat
  top : Nat
deriving DecidableEq, Repr

namespace Format

/-- The 32-bit interchange format. -/
def single : Format := ⟨24, 149, 253⟩

/-- The 64-bit interchange format. -/
def double : Format := ⟨53, 1074, 2045⟩

/-- The spacing exponent at `n` steps: numbers there are multiples of `2 ^ spacing`. -/
def spacing (f : Format) (n : Nat) : Nat := n.log2 + 1 - f.precision

/-- The count of steps `n` is a number of the format. -/
def Holds (f : Format) (n : Nat) : Prop :=
  ∃ m s, m < 1 <<< f.precision ∧ s ≤ f.top ∧ n = m <<< s

theorem holds_zero (f : Format) : f.Holds 0 :=
  ⟨0, 0, Nat.one_shiftLeft _ ▸ Nat.two_pow_pos _, Nat.zero_le _, by simp⟩

/-- The quotient `n / d` rounded to a significand of the format's precision, without an upper
limit on its size. -/
def round (f : Format) (n d : Nat) : Nat :=
  let s := f.spacing (n / d)
  nearestEven n (d <<< s) <<< s

theorem shiftRight_spacing_lt (f : Format) (n : Nat) :
    n >>> f.spacing n < 1 <<< f.precision := by
  rw [Nat.shiftRight_eq_div_pow, Nat.one_shiftLeft, Nat.div_lt_iff_lt_mul (Nat.two_pow_pos _),
    ← Nat.pow_add]
  refine Nat.lt_of_lt_of_le Nat.lt_log2_self (Nat.pow_le_pow_right (by decide) ?_)
  unfold spacing; omega

/-- A rounded quotient whose spacing and significand are within the range is a number of the
format. -/
theorem holds_round (f : Format) (hp : 0 < f.precision) {n d : Nat}
    (h : f.round n d < 1 <<< (f.precision + f.top)) : f.Holds (f.round n d) := by
  have hq := f.shiftRight_spacing_lt (n / d)
  rw [Nat.shiftRight_eq_div_pow, Nat.one_shiftLeft, Nat.div_div_eq_div_mul] at hq
  rw [Nat.one_shiftLeft] at h
  have hle := nearestEven_le n (d * 2 ^ f.spacing (n / d))
  have hr : f.round n d =
      nearestEven n (d * 2 ^ f.spacing (n / d)) * 2 ^ f.spacing (n / d) := by
    simp only [round, Nat.shiftLeft_eq]
  simp only [Holds, Nat.shiftLeft_eq, Nat.one_mul]
  generalize hs : f.spacing (n / d) = s at hq hle hr
  generalize hm : nearestEven n (d * 2 ^ s) = m at hle hr
  have hlog : s = 0 ∨ 2 ^ (f.precision - 1) ≤ m := by
    rcases Nat.eq_zero_or_pos s with h0 | h0
    · exact .inl h0
    · right
      have hne : n / d ≠ 0 := by
        intro hz; rw [hz] at hs; simp [spacing] at hs; omega
      have hlo := Nat.log2_self_le hne
      have hexp : (n / d).log2 = f.precision - 1 + s := by
        unfold spacing at hs; omega
      rw [hexp, Nat.pow_add] at hlo
      have hdiv : 2 ^ (f.precision - 1) ≤ n / (d * 2 ^ s) := by
        rw [← Nat.div_div_eq_div_mul, Nat.le_div_iff_mul_le (Nat.two_pow_pos _)]
        exact hlo
      have hge : n / (d * 2 ^ s) ≤ m := by
        rw [← hm]; unfold nearestEven; dsimp only
        split
        · exact Nat.le_refl _
        · split
          · exact Nat.le_succ _
          · split
            · exact Nat.le_refl _
            · exact Nat.le_succ _
      exact Nat.le_trans hdiv hge
  have htop : s ≤ f.top := by
    rcases hlog with h0 | h0
    · omega
    · have h1 : 2 ^ (f.precision - 1) * 2 ^ s < 2 ^ (f.precision + f.top) := by
        rw [hr] at h
        exact Nat.lt_of_le_of_lt (Nat.mul_le_mul_right _ h0) h
      rw [← Nat.pow_add, Nat.pow_lt_pow_iff_right (by decide)] at h1
      omega
  rcases Nat.lt_or_ge m (2 ^ f.precision) with hlt | hge
  · exact ⟨m, s, hlt, htop, hr⟩
  · have hmeq : m = 2 ^ f.precision := by omega
    have hst : s < f.top := by
      rw [hr, hmeq, ← Nat.pow_add, Nat.pow_lt_pow_iff_right (by decide)] at h
      omega
    refine ⟨2 ^ (f.precision - 1), s + 1, ?_, hst, ?_⟩
    · exact Nat.pow_lt_pow_right (by decide) (by omega)
    · rw [hr, hmeq, ← Nat.pow_add, ← Nat.pow_add]; congr 1; omega

end Format
end Binary

/-- A number of the format `f`; a finite one is `units` steps of `2 ^ -f.scale`. -/
inductive Binary (f : Binary.Format) where
  | nan
  | infinite (negative : Bool)
  | finite (negative : Bool) (units : Nat) (holds : f.Holds units)
deriving DecidableEq

abbrev Single := Binary .single

abbrev Double := Binary .double

namespace Binary
variable {f g : Format}

def zero (negative : Bool) : Binary f := .finite negative 0 f.holds_zero

instance : Inhabited (Binary f) := ⟨zero false⟩

/-- Neither infinite nor the missing number. -/
def isFinite : Binary f → Bool
  | .finite .. => true
  | _ => false

/-- The signed quotient `n / d` rounded to the format; beyond its range lies infinity. -/
def ofRatio (negative : Bool) (n d : Nat) : Binary f :=
  let r := f.round (n <<< f.scale) d
  if h : 0 < f.precision ∧ r < 1 <<< (f.precision + f.top) then
    .finite negative r (f.holds_round h.1 h.2)
  else .infinite negative

def ofNat (n : Nat) : Binary f := ofRatio false n 1

/-- The nearest number to an integer; zero is positive. -/
def ofInt (i : Int) : Binary f := ofRatio (i < 0) i.natAbs 1

/-- The same number in another format, rounded where that is narrower. -/
def convert : Binary f → Binary g
  | .nan => .nan
  | .infinite s => .infinite s
  | .finite s n _ => ofRatio s n (1 <<< f.scale)

def neg : Binary f → Binary f
  | .nan => .nan
  | .infinite s => .infinite !s
  | .finite s n h => .finite (!s) n h

def mul : Binary f → Binary f → Binary f
  | .finite s n _, .finite t m _ => ofRatio (s ^^ t) (n * m) (1 <<< (2 * f.scale))
  | .infinite s, .infinite t => .infinite (s ^^ t)
  | .infinite s, .finite t m _ | .finite s m _, .infinite t =>
    if m = 0 then .nan else .infinite (s ^^ t)
  | _, _ => .nan

def div : Binary f → Binary f → Binary f
  | .finite s n _, .finite t m _ =>
    if m = 0 then (if n = 0 then .nan else .infinite (s ^^ t)) else ofRatio (s ^^ t) n m
  | .infinite s, .finite t _ _ => .infinite (s ^^ t)
  | .finite s _ _, .infinite t => zero (s ^^ t)
  | _, _ => .nan

/-- The sum, rounded once; a sum of zero is positive unless both terms are negative zeros. -/
def add : Binary f → Binary f → Binary f
  | .finite s n _, .finite t m _ =>
    if s = t then ofRatio s (n + m) (1 <<< f.scale)
    else if n = m then zero false
    else if m < n then ofRatio s (n - m) (1 <<< f.scale)
    else ofRatio t (m - n) (1 <<< f.scale)
  | .infinite s, .infinite t => if s = t then .infinite s else .nan
  | .infinite s, .finite .. | .finite .., .infinite s => .infinite s
  | _, _ => .nan

/-- At most zero; false of the missing number. -/
def nonPositive : Binary f → Bool
  | .nan => false
  | .infinite s => s
  | .finite s n _ => s || n = 0

/-- The integer part cut off towards zero and clamped to `0 … limit`; zero for the missing
number. -/
def truncate (limit : Nat) : Binary f → Nat
  | .nan => 0
  | .infinite s => if s then 0 else limit
  | .finite s n _ => if s then 0 else min limit (n >>> f.scale)

theorem truncate_le (limit : Nat) (x : Binary f) : x.truncate limit ≤ limit := by
  cases x with
  | nan => exact Nat.zero_le _
  | infinite s => cases s <;> simp [truncate]
  | finite s n h =>
    cases s
    · exact Nat.min_le_left _ _
    · exact Nat.zero_le _

end Binary
end FleetWatch
