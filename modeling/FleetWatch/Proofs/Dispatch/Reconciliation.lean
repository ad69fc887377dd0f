import FleetWatch.Proofs.Dashboard.Picture

/-!
# What reconciliation keeps

The changes of a reconciliation tell as much as the states that they lead to. So a picture that has
followed every change that was committed holds all that was last sent, and after a commit all that
the hosts are.

## Main definitions

* `Reconciler.item`: an item of a host as it was last sent.
* `Reconciler.Tracks`: a picture holds what was last sent.
* `Reconciler.Covers`: what was last sent holds the state of all hosts.
-/
namespace FleetWatch

/-- Distinct keys belong to one value each. -/
theorem filter_fst_eq_singleton {β : Type} {l : List (String × β)} (hl : (l.map Prod.fst).Nodup)
    {h : String} {b : β} (hb : (h, b) ∈ l) : l.filter (fun p => p.1 = h) = [(h, b)] := by
  induction l with
  | nil => simp at hb
  | cons p l ih =>
    rw [List.map_cons, List.nodup_cons] at hl
    rcases List.mem_cons.mp hb with rfl | hb
    · have hnone : l.filter (fun p => p.1 = h) = [] := by
        rw [List.filter_eq_nil_iff]
        intro q hq
        simp only [decide_eq_true_eq]
        rintro rfl
        exact hl.1 (List.mem_map.mpr ⟨q, hq, rfl⟩)
      simp [hnone]
    · have hne : p.1 ≠ h := by
        rintro rfl
        exact hl.1 (List.mem_map.mpr ⟨_, hb, rfl⟩)
      simp [hne, ih hl.2 hb]

theorem filter_toList_entries (entries : Entries) (h : String) :
    entries.toList.filter (fun p => p.1 = h) = (entries[h]?.map fun e => (h, e)).toList := by
  cases he : entries[h]? with
  | some e =>
    have hmem : (h, e) ∈ entries.toList := Std.TreeMap.mem_toList_iff_getElem?_eq_some.mpr he
    have hnodup : (entries.toList.map Prod.fst).Nodup := by
      rw [Std.TreeMap.map_fst_toList_eq_keys]
      exact Std.TreeMap.nodup_keys
    simpa using filter_fst_eq_singleton hnodup hmem
  | none =>
    simp only [Option.map_none, Option.toList_none, List.filter_eq_nil_iff, decide_eq_true_eq]
    rintro ⟨k, e⟩ hmem rfl
    rw [Std.TreeMap.mem_toList_iff_getElem?_eq_some] at hmem
    simp_all

namespace Reconciler

def item (r : Reconciler) (hostId : String) (i : Item) : Option i.Value :=
  (r.lastSent? hostId).bind fun s => s.known.item i

/-- The picture holds what was last sent. -/
def Tracks (r : Reconciler) (p : Picture) : Prop :=
  ∀ h i v, r.item h i = some v → p.item h i = some v

/-- What was last sent holds the state of every host. -/
def Covers (r : Reconciler) (entries : Entries) (now : Time.Instant) (threshold : Time.Span) :
    Prop :=
  ∀ h e, entries[h]? = some e → ∀ i v, (e.sentState now threshold).known.item i = some v →
    r.item h i = some v

/-! ## The change of one host -/

theorem state_of_change? {previous : Option SentState} {h : String} {current : SentState}
    {c : Change} (hc : change? previous h current = some c) : c.state = current := by
  unfold change? at hc
  simp only [Option.ite_none_left_eq_some, Option.some.injEq] at hc
  obtain ⟨-, rfl⟩ := hc
  rfl

/-- The items of the record that leads from one state to another are those that changed. -/
theorem item_changed (previous : Option SentState) (current : SentState) (i : Item) :
    ({ online :=
        if previous.all fun sent => sent.online ≠ current.online then some current.online else none
       compact :=
        Compact.diff ((previous.map SentState.compact).getD .empty) current.compact } : Known).item
          i = changed (previous.bind fun s => s.known.item i) (current.known.item i) := by
  cases previous with
  | none =>
    cases i with
    | online => simp [Known.item, SentState.known, changed]
    | _ => rfl
  | some sent =>
    cases i with
    | online => simp [Known.item, SentState.known, changed]
    | _ => rfl

/-- A record tells the items that changed. -/
theorem told_of_change? {previous : Option SentState} {h : String} {current : SentState}
    {c : Change} (hc : change? previous h current = some c) (i : Item) :
    c.record.told.item i =
      changed (previous.bind fun s => s.known.item i) (current.known.item i) := by
  unfold change? at hc
  simp only [Option.ite_none_left_eq_some, Option.some.injEq] at hc
  obtain ⟨-, rfl⟩ := hc
  exact item_changed previous current i

/-- A host without a change has no item that changed. -/
theorem changed_of_change?_eq_none {previous : Option SentState} {h : String}
    {current : SentState} (hc : change? previous h current = none) (i : Item) :
    changed (previous.bind fun s => s.known.item i) (current.known.item i) = none := by
  rw [← item_changed]
  unfold change? at hc
  simp only [ite_eq_left_iff, reduceCtorEq, imp_false, Decidable.not_not, Bool.and_eq_true,
    Compact.isEmpty_iff, Bool.not_eq_true'] at hc
  rw [hc.1, hc.2]
  cases i <;> rfl

theorem eq_some_of_changed_eq_none {α : Type} [DecidableEq α] {previous current : Option α} {a : α}
    (h : changed previous current = none) (ha : current = some a) : previous = some a := by
  subst ha
  cases previous with
  | none => simp [changed] at h
  | some b => simpa [changed] using h

/-! ## The changes of all hosts -/

theorem filter_reconcile (r : Reconciler) (entries : Entries) (now : Time.Instant)
    (threshold : Time.Span) (h : String) :
    (r.reconcile entries now threshold).filter (fun c => c.record.id = h) =
      (entries[h]?.bind fun e =>
        change? (r.lastSent? h) h (e.sentState now threshold)).toList := by
  let f : String × LiveEntry → Option Change := fun p =>
    change? (r.lastSent? p.1) p.1 (p.2.sentState now threshold)
  have hf : (fun p => (f p).filter fun c => c.record.id = h) =
      fun p => if p.1 = h then f p else none := by
    funext p
    cases hc : f p with
    | none => simp
    | some c => simp [Option.filter, id_of_change? hc]
  have hsplit : (entries.toList.filterMap f).filter (fun c => c.record.id = h) =
      (entries.toList.filter fun p => p.1 = h).filterMap f := by
    rw [List.filter_filterMap, hf, List.filterMap_filter]
    simp
  calc (r.reconcile entries now threshold).filter (fun c => c.record.id = h)
      = (entries.toList.filterMap f).filter (fun c => c.record.id = h) := rfl
    _ = ((entries[h]?.map fun e => (h, e)).toList).filterMap f := by
      rw [hsplit, filter_toList_entries]
    _ = _ := by
      cases entries[h]? with
      | none => rfl
      | some e => cases he : f (h, e) <;> simp_all [f]

/-- A change is that of a host to its present state. -/
theorem exists_of_mem_reconcile {r : Reconciler} {entries : Entries} {now : Time.Instant}
    {threshold : Time.Span} {c : Change} (hc : c ∈ r.reconcile entries now threshold) :
    ∃ e, entries[c.record.id]? = some e ∧ c.state = e.sentState now threshold := by
  obtain ⟨⟨h, e⟩, hmem, hchange⟩ := List.mem_filterMap.mp hc
  rw [id_of_change? hchange, state_of_change? hchange]
  exact ⟨e, Std.TreeMap.mem_toList_iff_getElem?_eq_some.mp hmem, rfl⟩

theorem lastSent?_commit (r : Reconciler) (cs : List Change) (h : String) :
    (r.commit cs).lastSent? h =
      ((cs.filter fun c => c.record.id = h).getLast?.map Change.state).or (r.lastSent? h) := by
  induction cs generalizing r with
  | nil => simp [commit, lastSent?]
  | cons c cs ih =>
    have hstep : r.commit (c :: cs) = (r.commit [c]).commit cs := rfl
    rw [hstep, ih]
    by_cases e : c.record.id = h
    · subst e
      cases hl : (cs.filter fun d => d.record.id = c.record.id).getLast? <;>
        simp [commit, lastSent?, List.getLast?_cons, hl]
    · simp [commit, lastSent?, Std.TreeMap.getElem?_insert, e]

/-- What is last sent of a host is what its change leads to, if it has one. -/
theorem lastSent?_commit_reconcile (r : Reconciler) (entries : Entries) (now : Time.Instant)
    (threshold : Time.Span) (h : String) :
    (r.commit (r.reconcile entries now threshold)).lastSent? h =
      ((entries[h]?.bind fun e =>
        change? (r.lastSent? h) h (e.sentState now threshold)).map Change.state).or
          (r.lastSent? h) := by
  rw [lastSent?_commit, filter_reconcile]
  cases entries[h]?.bind fun e => change? (r.lastSent? h) h (e.sentState now threshold) <;> rfl

/-- What is known of a host after a reconciliation is known from its change, if it has one. -/
theorem item_follow_reconcile (r : Reconciler) (p : Picture) (entries : Entries)
    (now : Time.Instant) (threshold : Time.Span) (h : String) (i : Item) :
    (((r.reconcile entries now threshold).map Change.record).foldl Picture.follow p).item h i =
      ((entries[h]?.bind fun e => change? (r.lastSent? h) h (e.sentState now threshold)).bind
        fun c => c.record.told.item i).or (p.item h i) := by
  have hfilter : ((r.reconcile entries now threshold).map Change.record).filter
      (fun d => d.id = h) =
        ((entries[h]?.bind fun e => change? (r.lastSent? h) h
          (e.sentState now threshold)).map Change.record).toList := by
    rw [List.filter_map, Option.toList_map, ← filter_reconcile]
    rfl
  rw [Picture.item_foldl_follow_eq, hfilter]
  cases entries[h]?.bind fun e => change? (r.lastSent? h) h (e.sentState now threshold) <;> simp

/-! ## What a commit keeps -/

theorem tracks_start : Tracks {} {} := by
  intro h i v hv
  simp [item, lastSent?] at hv

/-- A picture that follows what is committed still holds what was last sent. -/
theorem Tracks.commit {r : Reconciler} {p : Picture} (ht : r.Tracks p) (entries : Entries)
    (now : Time.Instant) (threshold : Time.Span) :
    (r.commit (r.reconcile entries now threshold)).Tracks
      (((r.reconcile entries now threshold).map Change.record).foldl Picture.follow p) := by
  intro h i v hv
  rw [item_follow_reconcile]
  rw [item, lastSent?_commit_reconcile] at hv
  cases hb : entries[h]?.bind fun e => change? (r.lastSent? h) h (e.sentState now threshold) with
  | none =>
    rw [hb] at hv
    simpa using ht h i v (by simpa [item] using hv)
  | some c =>
    obtain ⟨e, -, hc⟩ := Option.bind_eq_some_iff.mp hb
    have hcur : (e.sentState now threshold).known.item i = some v := by
      simpa [hb, state_of_change? hc] using hv
    rw [Option.bind_some, told_of_change? hc]
    -- an item is told, or is what was sent, and that the picture holds already
    cases ht' : changed ((r.lastSent? h).bind fun s => s.known.item i)
        ((e.sentState now threshold).known.item i) with
    | none => simpa using ht h i v (eq_some_of_changed_eq_none ht' hcur)
    | some w =>
      have hw := Compact.or_changed ((r.lastSent? h).bind fun s => s.known.item i)
        ((e.sentState now threshold).known.item i)
      rw [ht', hcur] at hw
      simpa using hw

/-- Once the changes are committed, what was last sent holds the state of every host. -/
theorem covers_commit (r : Reconciler) (entries : Entries) (now : Time.Instant)
    (threshold : Time.Span) :
    (r.commit (r.reconcile entries now threshold)).Covers entries now threshold := by
  intro h e he i v hv
  rw [item, lastSent?_commit_reconcile, he, Option.bind_some]
  cases hc : change? (r.lastSent? h) h (e.sentState now threshold) with
  | none => simpa using eq_some_of_changed_eq_none (changed_of_change?_eq_none hc i) hv
  | some c => simpa [state_of_change? hc] using hv

/-- A picture that holds what was last sent holds the state of every host that it covers. -/
theorem Covers.item_picture {r : Reconciler} {p : Picture} {entries : Entries}
    {now : Time.Instant} {threshold : Time.Span} (hc : r.Covers entries now threshold)
    (ht : r.Tracks p) {h : String} {e : LiveEntry} (he : entries[h]? = some e) {i : Item}
    {v : i.Value} (hv : (e.sentState now threshold).known.item i = some v) :
    p.item h i = some v :=
  ht h i v (hc h e he i v hv)

end Reconciler
end FleetWatch
