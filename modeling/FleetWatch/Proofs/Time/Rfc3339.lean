import FleetWatch.Proofs.Time.Calendar
import FleetWatch.Time.Rfc3339

/-!
# Printed timestamps

What is printed of an instant is read as that instant, if a leap second stands only where there can
be one; and no other instants come out of a text.

## Main definitions

* `Instant.Regular`: a leap second stands at the end of a minute.
-/
namespace FleetWatch.Time

open Text

/-! ## Digits -/

/-- The value of a string of digits. -/
def digitValue (ds : List Char) : Nat := ds.foldl (fun n c => n * 10 + (c.toNat - 48)) 0

theorem digitValue_eq (ds : List Char) : digitValue ds = Nat.ofDigitChars 10 ds 0 := by
  rw [digitValue, Nat.ofDigitChars_eq_foldl]
  congr 1
  funext n c
  rw [Nat.mul_comm]
  rfl

/-- Digits are read up to the limit, or to a character that is none. -/
theorem readDigits_append {limit : Nat} {ds : List Char} (rest : List Char) (hne : ds ≠ [])
    (hds : ∀ c ∈ ds, c.isDigit = true) (hlimit : ds.length ≤ limit)
    (hrest : ds.length = limit ∨ ∀ c tail, rest = c :: tail → c.isDigit = false) :
    readDigits limit (ds ++ rest) = some (digitValue ds, rest) := by
  have htaken : ((ds ++ rest).take limit).takeWhile Char.isDigit = ds := by
    rw [List.take_append, List.take_of_length_le hlimit, List.takeWhile_append_of_pos hds]
    rcases hrest with h | h
    · simp [h]
    · cases rest with
      | nil => simp
      | cons c tail =>
        cases limit - ds.length with
        | zero => simp
        | succ n => simp [h c tail rfl]
  have hempty : ds.isEmpty = false := by simpa using hne
  simp [readDigits, htaken, hempty, digitValue]

/-- What is read as a number are digits at the front. -/
theorem of_readDigits {limit n : Nat} {cs rest : List Char}
    (h : readDigits limit cs = some (n, rest)) :
    ∃ ds, (∀ c ∈ ds, c.isDigit = true) ∧ ds.length ≤ limit ∧ cs = ds ++ rest ∧
      n = digitValue ds := by
  unfold readDigits at h
  generalize hds : (cs.take limit).takeWhile Char.isDigit = ds at h
  dsimp only at h
  split at h
  · cases h
  · obtain ⟨rfl, rfl⟩ := Prod.mk.inj (Option.some.inj h)
    have hfront : ds <+: cs :=
      hds ▸ (List.takeWhile_prefix Char.isDigit).trans (List.take_prefix limit cs)
    refine ⟨ds, fun c hc => ?_, ?_, ?_, rfl⟩
    · rw [← hds] at hc
      exact List.all_eq_true.mp List.all_takeWhile c hc
    · rw [← hds]
      exact Nat.le_trans (List.takeWhile_prefix Char.isDigit).length_le (List.length_take_le ..)
    · obtain ⟨rest, rfl⟩ := hfront
      simp

theorem digitValue_lt {ds : List Char} (hds : ∀ c ∈ ds, c.isDigit = true) :
    digitValue ds < 10 ^ ds.length := by
  have hfold : ∀ (ds : List Char) (n : Nat), (∀ c ∈ ds, c.isDigit = true) →
      ds.foldl (fun n c => n * 10 + (c.toNat - 48)) n < (n + 1) * 10 ^ ds.length := by
    intro ds
    induction ds with
    | nil => intro n _; simp
    | cons c ds ih =>
      intro n hds
      obtain ⟨hc, hds⟩ := List.forall_mem_cons.mp hds
      have hdigit : 48 ≤ c.toNat ∧ c.toNat ≤ 57 := by
        simpa [Char.isDigit, UInt32.le_iff_toNat_le] using hc
      have hstep := ih (n * 10 + (c.toNat - 48)) hds
      rw [List.foldl_cons, List.length_cons, Nat.pow_succ']
      calc _ < (n * 10 + (c.toNat - 48) + 1) * 10 ^ ds.length := hstep
        _ ≤ ((n + 1) * 10) * 10 ^ ds.length := Nat.mul_le_mul_right _ (by omega)
        _ = (n + 1) * (10 * 10 ^ ds.length) := Nat.mul_assoc ..
  simpa [digitValue] using hfold ds 0 hds

theorem toList_padded (width n : Nat) :
    (padded width n).toList =
      List.replicate (width - (Nat.toDigits 10 n).length) '0' ++ Nat.toDigits 10 n := by
  simp [padded]

theorem isDigit_of_mem_padded {width n : Nat} {c : Char} (h : c ∈ (padded width n).toList) :
    c.isDigit = true := by
  rw [toList_padded, List.mem_append] at h
  rcases h with h | h
  · obtain rfl := List.eq_of_mem_replicate h
    rfl
  · exact Nat.isDigit_of_mem_toDigits (by decide) (by decide) h

theorem padded_ne_nil (width n : Nat) : (padded width n).toList ≠ [] := by
  simp [toList_padded, Nat.toDigits_ne_nil]

@[simp] theorem digitValue_padded (width n : Nat) : digitValue (padded width n).toList = n := by
  rw [digitValue_eq, toList_padded, Nat.ofDigitChars_append, Nat.ofDigitChars_replicate_zero,
    Nat.mul_zero, Nat.ofDigitChars_ten_toDigits]

theorem length_padded {width n : Nat} (hwidth : 0 < width) (hn : n < 10 ^ width) :
    (padded width n).toList.length = width := by
  have hle := (Nat.length_toDigits_le_iff (b := 10) (by decide) hwidth).mpr hn
  rw [toList_padded, List.length_append, List.length_replicate]
  omega

/-- A number in its full width is read as such. -/
theorem readDigits_padded {width n : Nat} (hwidth : 0 < width) (hn : n < 10 ^ width)
    (rest : List Char) : readDigits width ((padded width n).toList ++ rest) = some (n, rest) := by
  have hlength := length_padded hwidth hn
  have h := readDigits_append rest (padded_ne_nil width n)
    (fun c hc => isDigit_of_mem_padded hc) (Nat.le_of_eq hlength) (.inl hlength)
  rwa [digitValue_padded] at h

/-- A number is read as such if no digit follows. -/
theorem readDigits_padded_of_end {limit : Nat} (width n : Nat) {rest : List Char}
    (hlimit : (padded width n).toList.length ≤ limit)
    (hrest : ∀ c tail, rest = c :: tail → c.isDigit = false) :
    readDigits limit ((padded width n).toList ++ rest) = some (n, rest) := by
  have h := readDigits_append rest (padded_ne_nil width n)
    (fun c hc => isDigit_of_mem_padded hc) hlimit (.inr hrest)
  rwa [digitValue_padded] at h

theorem isBlank_of_isDigit {c : Char} (h : c.isDigit = true) : isBlank c = false := by
  have hrange : 48 ≤ c.toNat ∧ c.toNat ≤ 57 := by
    simpa [Char.isDigit, UInt32.le_iff_toNat_le] using h
  simp only [isBlank, blankRanges, List.any_cons, List.any_nil, Bool.or_false, Bool.or_eq_false_iff,
    Bool.and_eq_false_iff, decide_eq_false_iff_not]
  omega

/-- No blanks stand before a number. -/
theorem trimStart_padded (width n : Nat) (rest : List Char) :
    trimStart ((padded width n).toList ++ rest) = (padded width n).toList ++ rest := by
  obtain ⟨c, cs, h⟩ := List.exists_cons_of_ne_nil (padded_ne_nil width n)
  have hblank := isBlank_of_isDigit (isDigit_of_mem_padded (h ▸ List.mem_cons_self))
  simp [trimStart, h, hblank]

theorem readNumber_padded {width n : Nat} (hwidth : 0 < width) (hn : n < 10 ^ width)
    (rest : List Char) : readNumber width ((padded width n).toList ++ rest) = some (n, rest) := by
  rw [readNumber, trimStart_padded, readDigits_padded hwidth hn]

/-! ## The parts of a timestamp -/

theorem readYear_printYear (y : Int) (rest : List Char) :
    readYear ((printYear y).toList ++ '-' :: rest) = some (y, '-' :: rest) := by
  have hend : ∀ c tail, '-' :: rest = c :: tail → c.isDigit = false := by
    intro c tail h
    obtain ⟨rfl, -⟩ := List.cons.inj h
    rfl
  unfold printYear
  split
  · next hy =>
    have hn : y.toNat < 10 ^ 4 := by omega
    have hread := readDigits_padded (by decide) hn ('-' :: rest)
    obtain ⟨c, cs, h⟩ := List.exists_cons_of_ne_nil (padded_ne_nil 4 y.toNat)
    have hdigit : c.isDigit = true := isDigit_of_mem_padded (h ▸ List.mem_cons_self)
    rw [readYear, trimStart_padded]
    split
    · next heq =>
      rw [h] at heq
      obtain ⟨rfl, -⟩ := List.cons.inj heq
      cases hdigit
    · next heq =>
      rw [h] at heq
      obtain ⟨rfl, -⟩ := List.cons.inj heq
      cases hdigit
    · rw [hread]
      simp [Int.toNat_of_nonneg hy.1]
  · next hy =>
    have hlength : (padded 4 y.natAbs).toList.length ≤
        ((padded 4 y.natAbs).toList ++ '-' :: rest).length := by simp
    have hread := readDigits_padded_of_end 4 y.natAbs hlength hend
    split
    · next hneg =>
      have htrim : ∀ cs, trimStart ('-' :: cs) = '-' :: cs := fun _ => rfl
      have habs : -(y.natAbs : Int) = y := by omega
      simp only [String.toList_append, String.reduceToList, List.cons_append, List.nil_append,
        readYear, htrim, hread, Option.map_some, habs]
    · next hneg =>
      have htrim : ∀ cs, trimStart ('+' :: cs) = '+' :: cs := fun _ => rfl
      have habs : (y.natAbs : Int) = y := by omega
      simp only [String.toList_append, String.reduceToList, List.cons_append, List.nil_append,
        readYear, htrim, hread, Option.map_some, habs]

theorem readFraction_printFraction {nano : Nat} (hnano : nano < nanosPerSecond) :
    readFraction ((printFraction nano).toList ++ ['Z']) = some (nano, ['Z']) := by
  have hgroups : ∀ {width n : Nat}, 0 < width → width ≤ 9 → n < 10 ^ width →
      readFraction (("." ++ padded width n).toList ++ ['Z']) =
        some (n * Nat.pow 10 (9 - width), ['Z']) := by
    intro width n hpos hle hn
    have hlength := length_padded hpos hn
    have hend : ∀ c tail, ['Z'] = c :: tail → c.isDigit = false := by simp
    have hread := readDigits_padded_of_end width n (hlength.symm ▸ hle) hend
    simp [readFraction, hread, hlength]
  rw [nanosPerSecond] at hnano
  unfold printFraction
  split
  · next h => rw [h]; rfl
  · split
    · next h =>
      rw [hgroups (by decide) (by decide) (by omega), Option.some.injEq, Prod.mk.injEq]
      refine ⟨?_, rfl⟩
      change nano / 1000000 * 1000000 = nano
      omega
    · split
      · next h =>
        rw [hgroups (by decide) (by decide) (by omega), Option.some.injEq, Prod.mk.injEq]
        refine ⟨?_, rfl⟩
        change nano / 1000 * 1000 = nano
        omega
      · rw [hgroups (by decide) (by decide) (by omega)]
        simp

/-- A fraction is less than a second. -/
theorem lt_of_readFraction {cs rest : List Char} {nano : Nat}
    (h : readFraction cs = some (nano, rest)) : nano < nanosPerSecond := by
  unfold readFraction at h
  split at h
  · next digits =>
    obtain ⟨⟨n, after⟩, hread, h⟩ := Option.map_eq_some_iff.mp h
    obtain ⟨rfl, -⟩ := Prod.mk.inj h
    obtain ⟨ds, hds, hlimit, rfl, rfl⟩ := of_readDigits hread
    have hlt := digitValue_lt hds
    have hlength : (ds ++ after).length - after.length = ds.length := by simp
    rw [hlength]
    calc digitValue ds * 10 ^ (9 - ds.length)
      _ < 10 ^ ds.length * 10 ^ (9 - ds.length) :=
        Nat.mul_lt_mul_of_pos_right hlt (Nat.pow_pos (by decide))
      _ = nanosPerSecond := by
        rw [← Nat.pow_add, Nat.add_sub_of_le hlimit]
        rfl
  · obtain ⟨rfl, -⟩ := Prod.mk.inj (Option.some.inj h)
    decide

/-- Offsets are whole minutes. -/
theorem emod_of_readOffset {cs rest : List Char} {offset : Int}
    (h : readOffset cs = some (offset, rest)) : offset % 60 = 0 := by
  unfold readOffset at h
  split at h
  · cases h
  · split at h
    · obtain ⟨rfl, -⟩ := Prod.mk.inj (Option.some.inj h)
      rfl
    · split at h
      · obtain ⟨rfl, -⟩ := Prod.mk.inj (Option.some.inj h)
        rfl
      · split at h
        · simp only [Option.bind_eq_bind, Option.bind_eq_some_iff] at h
          obtain ⟨⟨hours, _⟩, -, ⟨minutes, _⟩, -, h⟩ := h
          split at h
          · obtain ⟨rfl, -⟩ := Prod.mk.inj (Option.some.inj h)
            split <;> omega
          · cases h
        · cases h

theorem readOffset_universal : readOffset (trimStart ['Z']) = some (0, []) := by decide

namespace Instant

/-- A leap second stands at the end of a minute. -/
def Regular (t : Instant) : Prop := t.isLeap = true → t.second % 60 = 59

/-- The date and time of day of an instant are those of the instant. -/
theorem localInstant?_clock {t : Instant} (ht : t.Regular) :
    localInstant? (Date.ofDayNumber (t.second / daySeconds)) (t.secondOfDay.toNat / 3600)
      (t.secondOfDay.toNat / 60 % 60)
      (t.secondOfDay.toNat % 60 + if t.isLeap then 1 else 0) (t.nano % nanosPerSecond) =
      some t := by
  obtain ⟨hvalid, hday⟩ := Date.dayNumber_ofDayNumber (t.second / daySeconds)
  have hsod : t.second / daySeconds * daySeconds + t.secondOfDay = t.second ∧
      0 ≤ t.secondOfDay ∧ t.secondOfDay < 86400 ∧ t.secondOfDay % 60 = t.second % 60 := by
    simp only [secondOfDay, daySeconds]
    omega
  generalize t.secondOfDay = sod at hsod
  have hhour : sod.toNat / 3600 < 24 := by omega
  have hminute : sod.toNat / 60 % 60 < 60 := by omega
  have hnano := t.nano_lt
  cases hleap : t.isLeap with
  | true =>
    have hlong : nanosPerSecond ≤ t.nano := of_decide_eq_true hleap
    have hsecond : sod.toNat % 60 = 59 := by
      have := ht hleap
      omega
    have hseconds : t.second / daySeconds * daySeconds +
        (sod.toNat / 3600 * 3600 + sod.toNat / 60 % 60 * 60 + 59 : Nat) = t.second := by
      omega
    have hnanos : nanosPerSecond + t.nano % nanosPerSecond = t.nano := by
      rw [Nat.mod_eq_sub_mod hlong, Nat.mod_eq_of_lt (by omega)]
      omega
    simp only [localInstant?, hvalid, hhour, hminute, hsecond, hday, if_true, decide_true,
      Bool.and_self, Nat.reduceAdd, Nat.le_refl, hnanos, Nat.reduceLeDiff, Nat.min_eq_right]
    rw [hseconds, of?_second_nano]
  | false =>
    have hshort : t.nano < nanosPerSecond := Nat.not_le.mp (of_decide_eq_false hleap)
    have hsecond : sod.toNat % 60 < 60 := Nat.mod_lt _ (by decide)
    have hseconds : t.second / daySeconds * daySeconds +
        (sod.toNat / 3600 * 3600 + sod.toNat / 60 % 60 * 60 + sod.toNat % 60 : Nat) =
          t.second := by
      omega
    simp only [localInstant?, hvalid, hhour, hminute, Nat.ne_of_lt hsecond, Nat.le_of_lt hsecond,
      hday, Bool.false_eq_true, if_false, if_true, decide_true, Bool.and_self, Nat.add_zero,
      Nat.mod_eq_of_lt hshort, Nat.min_eq_left (Nat.le_of_lt_succ hsecond)]
    rw [hseconds, of?_second_nano]

/-- A printed instant is read as that instant. -/
theorem parse?_print {t : Instant} (ht : t.Regular) : parse? t.print = some t := by
  have hlocal := localInstant?_clock ht
  have hsod : t.secondOfDay.toNat < 86400 := by
    simp only [secondOfDay, daySeconds]
    omega
  have hdate := Date.le_of_valid (Date.dayNumber_ofDayNumber (t.second / daySeconds)).1
  generalize hsecond : (t.secondOfDay.toNat % 60 + if t.isLeap then 1 else 0) = second at hlocal
  have hmonth : (Date.ofDayNumber (t.second / daySeconds)).month < 10 ^ 2 := by omega
  have hday : (Date.ofDayNumber (t.second / daySeconds)).day < 10 ^ 2 := by omega
  have hhour : t.secondOfDay.toNat / 3600 < 10 ^ 2 := by omega
  have hminute : t.secondOfDay.toNat / 60 % 60 < 10 ^ 2 := by omega
  have hsecond' : second < 10 ^ 2 := by
    rw [← hsecond]
    split <;> omega
  have hnano : t.nano % nanosPerSecond < nanosPerSecond := Nat.mod_lt _ (by decide)
  have hsign : ∀ c cs, isBlank c = false → readSign c (c :: cs) = some cs := by
    intro c cs h
    simp [readSign, trimStart, h]
  have hbind : ∀ {α β : Type} (a : α) (f : α → Option β), some a >>= f = f a := fun _ _ => rfl
  have htext : t.print.toList =
      (printYear (Date.ofDayNumber (t.second / daySeconds)).year).toList ++ '-' ::
        ((padded 2 (Date.ofDayNumber (t.second / daySeconds)).month).toList ++ '-' ::
        ((padded 2 (Date.ofDayNumber (t.second / daySeconds)).day).toList ++ 'T' ::
        ((padded 2 (t.secondOfDay.toNat / 3600)).toList ++ ':' ::
        ((padded 2 (t.secondOfDay.toNat / 60 % 60)).toList ++ ':' ::
        ((padded 2 second).toList ++
          ((printFraction (t.nano % nanosPerSecond)).toList ++ ['Z'])))))) := by
    simp only [print, printClock, String.toList_append, String.reduceToList, List.append_assoc,
      List.cons_append, List.nil_append, hsecond]
  -- each part is read off the front, and the mark behind it ends its digits
  rw [parse?, htext, readYear_printYear, hbind]
  dsimp only
  rw [hsign _ _ (by decide), hbind, readNumber_padded (by decide) hmonth, hbind]
  dsimp only
  rw [hsign _ _ (by decide), hbind, readNumber_padded (by decide) hday, hbind]
  dsimp only
  rw [if_pos (by decide), hbind, readNumber_padded (by decide) hhour, hbind]
  dsimp only
  rw [hsign _ _ (by decide), hbind, readNumber_padded (by decide) hminute, hbind]
  dsimp only
  rw [hsign _ _ (by decide), hbind, readNumber_padded (by decide) hsecond', hbind]
  dsimp only
  rw [readFraction_printFraction hnano, hbind]
  dsimp only
  rw [readOffset_universal, hbind, if_pos (by rfl), hlocal, hbind]
  exact (congrArg (of? · t.nano) (Int.sub_zero t.second)).trans (of?_second_nano t)

theorem regular_of_localInstant? {date : Date} {hour minute second nano : Nat} {t : Instant}
    (hnano : nano < nanosPerSecond)
    (h : localInstant? date hour minute second nano = some t) : t.Regular := by
  intro hleap
  have hlong : nanosPerSecond ≤ t.nano := of_decide_eq_true hleap
  unfold localInstant? at h
  split at h
  · obtain ⟨hseconds, hnanos⟩ := of?_eq_some h
    by_cases h60 : second = 60
    · rw [hseconds, h60, daySeconds]
      omega
    · simp only [h60, if_false] at hnanos
      omega
  · cases h

/-- An instant that is read from a text is regular. -/
theorem regular_of_parse? {s : String} {t : Instant} (h : parse? s = some t) : t.Regular := by
  obtain ⟨⟨year, cs⟩, -, h⟩ := Option.bind_eq_some_iff.mp h
  obtain ⟨cs, -, h⟩ := Option.bind_eq_some_iff.mp h
  obtain ⟨⟨month, cs⟩, -, h⟩ := Option.bind_eq_some_iff.mp h
  obtain ⟨cs, -, h⟩ := Option.bind_eq_some_iff.mp h
  obtain ⟨⟨day, cs⟩, -, h⟩ := Option.bind_eq_some_iff.mp h
  dsimp only at h
  split at h
  · split at h
    · obtain ⟨cs, -, h⟩ := Option.bind_eq_some_iff.mp h
      obtain ⟨⟨hour, cs⟩, -, h⟩ := Option.bind_eq_some_iff.mp h
      obtain ⟨cs, -, h⟩ := Option.bind_eq_some_iff.mp h
      obtain ⟨⟨minute, cs⟩, -, h⟩ := Option.bind_eq_some_iff.mp h
      obtain ⟨cs, -, h⟩ := Option.bind_eq_some_iff.mp h
      obtain ⟨⟨second, cs⟩, -, h⟩ := Option.bind_eq_some_iff.mp h
      obtain ⟨⟨nano, cs⟩, hfraction, h⟩ := Option.bind_eq_some_iff.mp h
      obtain ⟨⟨offset, cs⟩, hoffset, h⟩ := Option.bind_eq_some_iff.mp h
      dsimp only at h
      split at h
      · obtain ⟨here, hhere, h⟩ := Option.bind_eq_some_iff.mp h
        obtain ⟨hsecond, hnano⟩ := of?_eq_some h
        have hregular := regular_of_localInstant? (lt_of_readFraction hfraction) hhere
        have hminutes := emod_of_readOffset hoffset
        intro hleap
        have hhereLeap : here.isLeap = true := by simpa [isLeap, hnano] using hleap
        have := hregular hhereLeap
        omega
      · cases h
    · cases h
  · cases h

end Instant
end FleetWatch.Time
