import FleetWatch.Time.Calendar
import Mathlib.Algebra.GroupWithZero.Nat

/-!
# Dates and day numbers

The date of a day number exists, and has that number.
-/
namespace FleetWatch.Time

theorem sum_monthLengths (y : Int) :
    (monthLengths y).sum = if isLeapYear y then 366 else 365 := by
  unfold monthLengths
  split <;> rfl

namespace Date

/-- The month and day found for a number of days stand for that number. -/
theorem monthAndDay_spec {ls : List Nat} {n : Nat} (month : Nat) (h : n < ls.sum) :
    ∃ i day, monthAndDay month n ls = (month + i, day) ∧ (ls.take i).sum + day = n + 1 ∧
      1 ≤ day ∧ day ≤ ls.getD i 0 := by
  induction ls generalizing month n with
  | nil => simp at h
  | cons l ls ih =>
    rw [monthAndDay]
    split
    · next hn => exact ⟨0, n + 1, rfl, by simp, by omega, by simpa [Nat.succ_le_iff] using hn⟩
    · next hn =>
      rw [List.sum_cons] at h
      obtain ⟨i, day, hfound, hsum, hday, hle⟩ := ih (n := n - l) (month + 1) (by omega)
      refine ⟨i + 1, day, ?_, ?_, hday, by simpa using hle⟩
      · rw [hfound, Nat.add_assoc, Nat.add_comm 1 i]
      · rw [List.take_succ_cons, List.sum_cons]
        omega

/-- A day of a year, counted from zero, as a date. -/
theorem dayNumber_monthAndDay (year : Int) {k : Nat} (h : k < (monthLengths year).sum) :
    let found := monthAndDay 1 k (monthLengths year)
    (Date.mk year found.1 found.2).valid = true ∧
      (Date.mk year found.1 found.2).dayNumber = daysBeforeYear year - epochOffset + k := by
  obtain ⟨i, day, hfound, hsum, hday, hle⟩ := monthAndDay_spec 1 h
  rw [hfound]
  dsimp only
  constructor
  · simpa [valid, hday] using hle
  · have hmonths :
        ((monthLengths year).take i).foldl (· + ·) 0 = ((monthLengths year).take i).sum :=
      List.sum_eq_foldl.symm
    simp only [dayNumber, Nat.add_sub_cancel_left, hmonths]
    omega

theorem daysBeforeYear_eq (era : Int) {century fourth single : Nat} (hcentury : century ≤ 3)
    (hfourth : fourth ≤ 24) (hsingle : single ≤ 3) :
    daysBeforeYear (era * 400 + (century * 100 + fourth * 4 + single + 1 : Nat)) =
      era * 146097 + century * 36524 + fourth * 1461 + single * 365 := by
  generalize hyear : era * 400 + (century * 100 + fourth * 4 + single + 1 : Nat) = year
  have hfours : (year - 1) / 4 = era * 100 + century * 25 + fourth := by omega
  have hhundreds : (year - 1) / 100 = era * 4 + century := by omega
  have heras : (year - 1) / 400 = era := by omega
  rw [daysBeforeYear, hfours, hhundreds, heras]
  omega

/-- The spans of 400, 100, 4 and 1 years that are taken off a number of days leave a day of the year
they lead to. -/
theorem spans (n : Int) :
    let era := n / 146097
    let r := (n % 146097).toNat
    let century := min (r / 36524) 3
    let r := r - century * 36524
    let fourth := r / 1461
    let r := r % 1461
    let single := min (r / 365) 3
    let year := era * 400 + (century * 100 + fourth * 4 + single + 1 : Nat)
    r - single * 365 < (monthLengths year).sum ∧
      daysBeforeYear year + (r - single * 365 : Nat) = n := by
  intro era r century r₁ fourth r₂ single year
  have hr : (r : Int) = n - era * 146097 := by omega
  have hcentury : century ≤ 3 ∧ century * 36524 ≤ r ∧ (r₁ < 36524 ∨ century = 3 ∧ r₁ ≤ 36524) := by
    omega
  have hfourth : fourth ≤ 24 ∧ r₁ = fourth * 1461 + r₂ ∧ r₂ < 1461 := by omega
  have hsingle : single ≤ 3 ∧ single * 365 ≤ r₂ ∧
      (r₂ - single * 365 < 365 ∨ single = 3 ∧ r₂ - single * 365 = 365) := by omega
  have hyear : year = era * 400 + century * 100 + fourth * 4 + single + 1 := by
    simp only [year]
    omega
  constructor
  · rw [sum_monthLengths]
    rcases hsingle.2.2 with h | ⟨h3, h⟩
    · split <;> omega
    · -- only the last of four years can have one day more
      have hleap : isLeapYear year = true := by
        simp only [isLeapYear, Bool.and_eq_true, Bool.or_eq_true, decide_eq_true_eq, ne_eq,
          decide_not, Bool.not_eq_true', decide_eq_false_iff_not]
        omega
      rw [if_pos hleap]
      omega
  · rw [daysBeforeYear_eq era hcentury.1 hfourth.1 hsingle.1]
    omega

/-- The date of a day number exists, and has that number. -/
theorem dayNumber_ofDayNumber (n : Int) :
    (ofDayNumber n).valid = true ∧ (ofDayNumber n).dayNumber = n := by
  obtain ⟨hlt, hdays⟩ := spans (n + epochOffset)
  obtain ⟨hvalid, hnumber⟩ := dayNumber_monthAndDay _ hlt
  refine ⟨hvalid, ?_⟩
  have hsum : (ofDayNumber n).dayNumber = n + epochOffset - epochOffset := by
    rw [← hdays]
    refine hnumber.trans ?_
    omega
  omega

/-- A date that exists has two digits for its month and its day. -/
theorem le_of_valid {d : Date} (h : d.valid = true) : d.month ≤ 12 ∧ d.day ≤ 31 := by
  simp only [valid, Bool.and_eq_true, decide_eq_true_eq] at h
  obtain ⟨⟨hmonth, hday⟩, hle⟩ := h
  have hlengths : ∀ l ∈ monthLengths d.year, l ≤ 31 := by
    unfold monthLengths
    split <;> decide
  rw [List.getD_eq_getElem?_getD] at hle
  cases hfound : (monthLengths d.year)[d.month - 1]? with
  | none =>
    rw [hfound, Option.getD_none] at hle
    omega
  | some l =>
    obtain ⟨hindex, -⟩ := List.getElem?_eq_some_iff.mp hfound
    have hlength : (monthLengths d.year).length = 12 := rfl
    rw [hfound, Option.getD_some] at hle
    exact ⟨by omega, Nat.le_trans hle (hlengths l (List.mem_of_getElem? hfound))⟩

end Date
end FleetWatch.Time
