import FleetWatch.Text.Blank

/-!
# Trimmed text

What is left of a text without the blanks at its ends: the part in the middle that neither begins
nor ends with a blank, with nothing but blanks around it.

## Main definitions

* `Text.IsTrimmed`: there are no blanks at the ends of a text.
-/
namespace FleetWatch.Text

/-- The text neither begins nor ends with a blank. -/
def IsTrimmed (s : String) : Prop :=
  s.toList.head?.any isBlank = false ∧ s.toList.getLast?.any isBlank = false

instance (s : String) : Decidable (IsTrimmed s) := inferInstanceAs (Decidable (_ ∧ _))

section TrimStart
variable {before cs : List Char}

theorem trimStart_append (h : ∀ c ∈ before, isBlank c = true) :
    trimStart (before ++ cs) = trimStart cs :=
  List.dropWhile_append_of_pos h

theorem trimStart_eq_self (h : cs.head?.any isBlank = false) : trimStart cs = cs := by
  cases cs with
  | nil => rfl
  | cons c cs =>
    have hc : ¬ isBlank c = true := by simpa using h
    exact List.dropWhile_cons_of_neg hc

theorem head?_trimStart (cs : List Char) : (trimStart cs).head?.any isBlank = false := by
  induction cs with
  | nil => rfl
  | cons c cs ih =>
    cases hc : isBlank c with
    | true => simpa [trimStart, hc] using ih
    | false => simp [trimStart, hc]

/-- What is taken from the front are blanks. -/
theorem exists_append_trimStart (cs : List Char) :
    ∃ before, (∀ c ∈ before, isBlank c = true) ∧ cs = before ++ trimStart cs :=
  ⟨cs.takeWhile isBlank, List.all_eq_true.mp List.all_takeWhile,
    List.takeWhile_append_dropWhile.symm⟩

end TrimStart

/-- A text without the blanks at its ends is the part that has none, between blanks. -/
theorem trim_eq_iff {s t : String} :
    trim s = t ↔ IsTrimmed t ∧ ∃ before after, (∀ c ∈ before, isBlank c = true) ∧
      (∀ c ∈ after, isBlank c = true) ∧ s.toList = before ++ t.toList ++ after := by
  constructor
  · rintro rfl
    obtain ⟨before, hbefore, hs⟩ := exists_append_trimStart s.toList
    obtain ⟨after, hafter, hrest⟩ := exists_append_trimStart (trimStart s.toList).reverse
    have hmiddle : trimStart s.toList = (trim s).toList ++ after.reverse := by
      rw [← List.reverse_reverse (trimStart s.toList), hrest, List.reverse_append, trim,
        String.toList_ofList]
    refine ⟨⟨?_, ?_⟩, before, after.reverse, hbefore, by simpa using hafter, ?_⟩
    · have hhead := head?_trimStart s.toList
      rw [hmiddle] at hhead
      cases hcs : (trim s).toList with
      | nil => rfl
      | cons c cs => simpa [hcs] using hhead
    · rw [trim, String.toList_ofList, List.getLast?_reverse]
      exact head?_trimStart _
    · rw [List.append_assoc, ← hmiddle]
      exact hs
  · rintro ⟨⟨hhead, hlast⟩, before, after, hbefore, hafter, hs⟩
    rw [trim, hs, List.append_assoc, trimStart_append hbefore]
    cases hcs : t.toList with
    | nil =>
      have hnothing : trimStart after = [] := by
        rw [← List.append_nil after, trimStart_append hafter]
        rfl
      rw [List.nil_append, hnothing, ← String.ofList_toList (s := t), hcs]
      rfl
    | cons c cs =>
      rw [hcs] at hhead hlast
      have hstart : trimStart (c :: cs ++ after) = c :: cs ++ after :=
        trimStart_eq_self (by simpa using hhead)
      rw [← List.head?_reverse] at hlast
      rw [hstart, List.reverse_append, trimStart_append (by simpa using hafter),
        trimStart_eq_self hlast, List.reverse_reverse, ← hcs, String.ofList_toList]

end FleetWatch.Text
