import FleetWatch.Proofs.Dispatch.DeltaStream

/-!
# Reconciliation tells what differs

A reconciliation has records of the hosts that differ from what was last sent of them, in the order
of their ids. Each tells the items that differ and no others, and depends on nothing but its own
host. Once the records are committed nothing is left to tell; until then the same is told again.

## Main definitions

* `Compact.field`: the value of a field.
* `SentState.Differs`: a host differs from what was last sent of it.
* `Reconciler.changeOf?`: the change of a host.
-/
namespace FleetWatch

/-! ## Fields -/

theorem changed_eq_some_iff {α : Type} [DecidableEq α] {previous current : Option α} {a : α} :
    changed previous current = some a ↔ current = some a ∧ previous ≠ some a := by
  unfold changed
  grind

namespace Compact

/-- The value of a field; the online flag is no field. -/
def field (c : Compact) (i : Item) : Option i.Value := Known.item { compact := c } i

@[simp] theorem field_empty (i : Item) : empty.field i = none := by
  cases i <;> rfl

theorem eq_empty_iff (c : Compact) : c = .empty ↔ ∀ i, c.field i = none := by
  refine ⟨fun h i => h ▸ field_empty i, fun h => ?_⟩
  have hsame : ({ compact := c } : Known) = { compact := .empty } :=
    Known.ext_item fun i => (h i).trans (field_empty i).symm
  exact congrArg Known.compact hsame

theorem field_diff (previous current : Compact) (i : Item) :
    (diff previous current).field i = changed (previous.field i) (current.field i) := by
  cases i <;> rfl

/-- A difference has exactly the fields that are present now and were absent or different. -/
theorem field_diff_eq_some_iff {previous current : Compact} {i : Item} {v : i.Value} :
    (diff previous current).field i = some v ↔
      current.field i = some v ∧ previous.field i ≠ some v := by
  rw [field_diff, changed_eq_some_iff]

end Compact

namespace SentState

/-- A host differs from what was last sent of it: nothing was, or its online flag turned, or it has
a field that was not sent like that. -/
def Differs (current : SentState) (sent : Option SentState) : Prop :=
  sent = none ∨ ∃ s, sent = some s ∧ (s.online ≠ current.online ∨
    ∃ i v, current.compact.field i = some v ∧ s.compact.field i ≠ some v)

theorem not_differs_self (s : SentState) : ¬ s.Differs (some s) := by
  rintro (h | ⟨t, h, honline | ⟨i, v, hv, hne⟩⟩)
  · cases h
  · exact honline (congrArg online (Option.some.inj h).symm)
  · exact hne (Option.some.inj h ▸ hv)

end SentState

namespace Reconciler

/-! ## The change of one host -/

variable {sent : Option SentState} {h : String} {current : SentState} {c : Change}

/-- A host has a change exactly when it differs. -/
theorem change?_eq_none_iff : change? sent h current = none ↔ ¬ current.Differs sent := by
  unfold change?
  simp only [ite_eq_left_iff, reduceCtorEq, imp_false, Decidable.not_not, Bool.and_eq_true,
    Compact.isEmpty_iff, Bool.not_eq_true']
  cases sent with
  | none => simp [SentState.Differs]
  | some s =>
    simp only [SentState.Differs, Option.map_some, Option.getD_some, Compact.eq_empty_iff,
      Option.eq_none_iff_forall_ne_some, ne_eq, Compact.field_diff_eq_some_iff, Option.all_some,
      decide_eq_false_iff_not, Option.some.injEq, exists_eq_left', not_or, not_exists]
    grind

/-- A record has the online flag of a host that was not sent or turned, and the fields that are
present and were not sent like that. -/
theorem record_of_change? (hc : change? sent h current = some c) :
    (c.record.online = if sent.any fun s => s.online = current.online then none
      else some current.online) ∧
    ∀ i v, c.record.fields.field i = some v ↔
      current.compact.field i = some v ∧ (sent.bind fun s => s.compact.field i) ≠ some v := by
  unfold change? at hc
  simp only [Option.ite_none_left_eq_some, Option.some.injEq] at hc
  obtain ⟨-, rfl⟩ := hc
  cases sent with
  | none => simp [Compact.field_diff_eq_some_iff]
  | some s => simp [Compact.field_diff_eq_some_iff]

/-- No record is empty. -/
theorem nonempty_of_change? (hc : change? sent h current = some c) :
    c.record.online.isSome ∨ c.record.fields ≠ .empty := by
  unfold change? at hc
  simp only [Option.ite_none_left_eq_some, Option.some.injEq] at hc
  obtain ⟨hnews, rfl⟩ := hc
  dsimp only
  cases hturned : sent.all fun s => s.online ≠ current.online with
  | true => exact .inl rfl
  | false =>
    refine .inr fun hempty => hnews ?_
    rw [hempty, hturned]
    rfl

/-! ## The changes of all hosts -/

/-- The change of a host. -/
def changeOf? (r : Reconciler) (entries : Entries) (now : Time.Instant) (threshold : Time.Span)
    (h : String) : Option Change :=
  entries[h]?.bind fun e => change? (r.lastSent? h) h (e.sentState now threshold)

variable (r : Reconciler) (entries : Entries) (now : Time.Instant) (threshold : Time.Span)

theorem mem_reconcile_iff :
    c ∈ r.reconcile entries now threshold ↔
      r.changeOf? entries now threshold c.record.id = some c := by
  have hfilter := r.filter_reconcile entries now threshold c.record.id
  rw [← changeOf?] at hfilter
  have hmem : c ∈ (r.reconcile entries now threshold).filter (fun d => d.record.id = c.record.id) ↔
      c ∈ r.reconcile entries now threshold := by simp
  rw [← hmem, hfilter, Option.mem_toList]

theorem mem_ids_iff :
    h ∈ (r.reconcile entries now threshold).map (fun c => c.record.id) ↔
      (r.changeOf? entries now threshold h).isSome := by
  rw [List.mem_map, Option.isSome_iff_exists]
  constructor
  · rintro ⟨c, hc, rfl⟩
    exact ⟨c, (r.mem_reconcile_iff entries now threshold).mp hc⟩
  · rintro ⟨c, hc⟩
    obtain ⟨e, -, hchange⟩ := Option.bind_eq_some_iff.mp hc
    obtain rfl := id_of_change? hchange
    exact ⟨c, (r.mem_reconcile_iff entries now threshold).mpr hc, rfl⟩

/-- The records are in the order of their hosts. -/
theorem pairwise_reconcile :
    ((r.reconcile entries now threshold).map fun c => c.record.id).Pairwise (· < ·) := by
  rw [List.pairwise_map]
  refine Std.TreeMap.ordered_keys_toList.filterMap _ ?_
  intro p q hlt c hc d hd
  rw [id_of_change? hc, id_of_change? hd]
  exact compareOfLessAndEq_eq_lt.mp hlt

/-! ## Commits -/

/-- A commit sets what was last sent of the hosts with records, and of no others. -/
theorem lastSent?_commit_eq :
    (r.commit (r.reconcile entries now threshold)).lastSent? h =
      if h ∈ (r.reconcile entries now threshold).map (fun c => c.record.id) then
        entries[h]?.map fun e => e.sentState now threshold
      else r.lastSent? h := by
  rw [lastSent?_commit_reconcile, ← changeOf?]
  simp only [mem_ids_iff]
  cases hc : r.changeOf? entries now threshold h with
  | none => simp
  | some c =>
    obtain ⟨e, he, hchange⟩ := Option.bind_eq_some_iff.mp hc
    simp [he, state_of_change? hchange]

/-- Once its changes are committed a reconciliation finds nothing. -/
theorem reconcile_commit :
    (r.commit (r.reconcile entries now threshold)).reconcile entries now threshold = [] := by
  rw [List.eq_nil_iff_forall_not_mem]
  intro c hc
  obtain ⟨e, he, hchange⟩ :=
    Option.bind_eq_some_iff.mp ((mem_reconcile_iff _ entries now threshold).mp hc)
  rw [lastSent?_commit_reconcile, he, Option.bind_some] at hchange
  cases hbefore : change? (r.lastSent? c.record.id) c.record.id (e.sentState now threshold) with
  | none =>
    rw [hbefore, Option.map_none, Option.none_or] at hchange
    rw [hchange] at hbefore
    cases hbefore
  | some d =>
    rw [hbefore, Option.map_some, Option.some_or, state_of_change? hbefore] at hchange
    rw [change?_eq_none_iff.mpr (SentState.not_differs_self _)] at hchange
    cases hchange

/-- A delta that is taken leaves nothing to find, and one that is not leaves everything. -/
theorem reconcile_publish (d : Dispatcher) (seq : Nat) (ts : Time.Instant) :
    let changes := d.reconciler.reconcile entries now threshold
    (d.publish seq ts changes).2.reconciler.reconcile entries now threshold =
      if (d.publish seq ts changes).1 then [] else changes := by
  dsimp only
  unfold Dispatcher.publish
  split
  · exact reconcile_commit ..
  · rfl

/-- The records of a reconciliation are in the order of their hosts. A host has one exactly when
there is an entry of it that differs from what was last sent; the record has the online flag exactly
when nothing was sent of the host or that turned, has exactly the fields that are present and were
absent or different, and is not empty; it is the same whatever becomes of other hosts. A commit sets
what was last sent of exactly the hosts with records. After it, and so after a delta that is taken,
the same reconciliation finds nothing; after a delta that is not taken it finds the same. -/
theorem reconcile_tells_differences (r : Reconciler) (entries : Entries) (now : Time.Instant)
    (threshold : Time.Span) :
    let changes := r.reconcile entries now threshold
    (changes.map fun c => c.record.id).Pairwise (· < ·) ∧
    (∀ h, h ∈ changes.map (fun c => c.record.id) ↔
      ∃ e, entries[h]? = some e ∧ (e.sentState now threshold).Differs (r.lastSent? h)) ∧
    (∀ c ∈ changes, ∃ e, entries[c.record.id]? = some e ∧
      (c.record.online =
        if (r.lastSent? c.record.id).any fun s => s.online = e.isOnline now threshold then none
        else some (e.isOnline now threshold)) ∧
      (∀ i v, c.record.fields.field i = some v ↔ e.snapshot.compact.field i = some v ∧
        ((r.lastSent? c.record.id).bind fun s => s.compact.field i) ≠ some v) ∧
      (c.record.online.isSome ∨ c.record.fields ≠ .empty)) ∧
    (∀ (r' : Reconciler) (entries' : Entries) (h : String), entries'[h]? = entries[h]? →
      r'.lastSent? h = r.lastSent? h →
      ((r'.reconcile entries' now threshold).map Change.record).filter (fun d => d.id = h) =
        (changes.map Change.record).filter fun d => d.id = h) ∧
    (∀ h, (r.commit changes).lastSent? h =
      if h ∈ changes.map (fun c => c.record.id) then
        entries[h]?.map fun e => e.sentState now threshold
      else r.lastSent? h) ∧
    (r.commit changes).reconcile entries now threshold = [] ∧
    ∀ (d : Dispatcher) (seq : Nat) (ts : Time.Instant), d.reconciler = r →
      (d.publish seq ts changes).2.reconciler.reconcile entries now threshold =
        if (d.publish seq ts changes).1 then [] else changes := by
  intro changes
  refine ⟨r.pairwise_reconcile entries now threshold, fun h => ?_, fun c hc => ?_,
    fun r' entries' h he hsent => ?_, fun h => r.lastSent?_commit_eq entries now threshold,
    r.reconcile_commit entries now threshold, ?_⟩
  · rw [mem_ids_iff, changeOf?, Option.isSome_bind]
    cases entries[h]? with
    | none => simp
    | some e =>
      have hiff : change? (r.lastSent? h) h (e.sentState now threshold) = none ↔
          ¬ (e.sentState now threshold).Differs (r.lastSent? h) := change?_eq_none_iff
      simp [Option.isSome_iff_ne_none, hiff]
  · obtain ⟨e, he, hchange⟩ :=
      Option.bind_eq_some_iff.mp ((r.mem_reconcile_iff entries now threshold).mp hc)
    obtain ⟨honline, hfields⟩ := record_of_change? hchange
    exact ⟨e, he, honline, hfields, nonempty_of_change? hchange⟩
  · have hown (r : Reconciler) (entries : Entries) :
        ((r.reconcile entries now threshold).map Change.record).filter (fun d => d.id = h) =
          (r.changeOf? entries now threshold h).toList.map Change.record := by
      rw [List.filter_map, changeOf?, ← filter_reconcile]
      rfl
    rw [hown, hown, changeOf?, changeOf?, he, hsent]
  · rintro d seq ts rfl
    exact reconcile_publish entries now threshold d seq ts

end Reconciler
end FleetWatch
