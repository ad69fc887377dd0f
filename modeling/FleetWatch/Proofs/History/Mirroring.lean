import FleetWatch.Proofs.History.Stored

/-!
# A table in the place of a memory

As long as the rows of each host arrive in the order of their times, which are whole milliseconds,
and the memory has room for them, a table holds the entries of the rows that the memory holds, in
the same order. It deletes as many as the memory, and finds what the memory finds as it comes back
from being stored.

## Main definitions

* `Memory.Takes`: rows that arrive in order and find room.
* `Table.Mirrors`: a table holds what a memory holds.
-/
namespace FleetWatch.History

open Time

/-! ## Sorted tables -/

section Sorted
variable {β : Type}

/-- A key after all others comes last. -/
theorem toList_insert_last {t : Std.TreeMap Int β} {k : Int} (v : β)
    (h : ∀ p ∈ t.toList, p.1 < k) : (t.insert k v).toList = t.toList ++ [(k, v)] := by
  have hperm : (t.insert k v).toList.Perm (t.toList ++ [(k, v)]) := by
    have hrest : t.toList.filter (fun p => decide ¬(k == p.1) = true) = t.toList := by
      refine List.filter_eq_self.mpr fun p hp => ?_
      have := h p hp
      simp only [beq_iff_eq, decide_eq_true_eq]
      omega
    have hinsert := Std.TreeMap.toList_insert_perm (t := t) (k := k) (v := v)
    rw [hrest] at hinsert
    exact hinsert.trans (List.perm_append_singleton (k, v) t.toList).symm
  have hsorted : (t.toList ++ [(k, v)]).Pairwise (fun a b => compare a.1 b.1 = .lt) := by
    refine List.pairwise_append.mpr ⟨Std.TreeMap.ordered_keys_toList, List.pairwise_singleton _ _,
      fun p hp q hq => ?_⟩
    obtain rfl := List.mem_singleton.mp hq
    exact Std.compare_eq_lt.mpr (h p hp)
  refine List.Perm.eq_of_pairwise (fun a b _ _ hab hba => ?_)
    Std.TreeMap.ordered_keys_toList hsorted hperm
  have hab := Std.compare_eq_lt.mp hab
  have hba := Std.compare_eq_lt.mp hba
  omega

/-- Keys in order, all between two bounds, are no more than there is room for. -/
theorem length_le_of_sorted {l : List Int} {low high : Int} (hsorted : l.Pairwise (· < ·))
    (hlow : ∀ k ∈ l, low ≤ k) (hhigh : ∀ k ∈ l, k ≤ high) :
    l.length ≤ (high - low + 1).toNat := by
  induction l generalizing low with
  | nil => exact Nat.zero_le _
  | cons k l ih =>
    obtain ⟨hfirst, hsorted⟩ := List.pairwise_cons.mp hsorted
    have hrest : l.length ≤ (high - (k + 1) + 1).toNat :=
      ih hsorted (fun j hj => hfirst j hj) fun j hj => hhigh j (List.mem_cons_of_mem _ hj)
    have := hlow k List.mem_cons_self
    have := hhigh k List.mem_cons_self
    rw [List.length_cons]
    omega

end Sorted

/-- There are fewer milliseconds than a signed word has numbers. -/
theorem length_lt_of_pairwise {rows : List Row}
    (h : (rows.map fun r => r.timestamp.millis).Pairwise (· < ·)) :
    rows.length < UInt64.size / 2 := by
  have hlength : _ ≤ (Instant.lastMilli - Instant.firstMilli + 1).toNat :=
    length_le_of_sorted h
      (fun k hk => by obtain ⟨r, -, rfl⟩ := List.mem_map.mp hk; exact r.timestamp.firstMilli_le)
      (fun k hk => by obtain ⟨r, -, rfl⟩ := List.mem_map.mp hk; exact r.timestamp.millis_le)
  rw [List.length_map] at hlength
  exact Nat.lt_of_le_of_lt hlength (by decide +kernel)

/-- The rows of a host are in the order of their times. -/
theorem Table.pairwise_rowsOf (t : Table) (h : String) :
    ((t.rowsOf h).map Prod.fst).Pairwise (· < ·) := by
  unfold rowsOf
  cases t.rows[h]? with
  | none => exact List.Pairwise.nil
  | some rows =>
    exact List.pairwise_map.mpr
      (Std.TreeMap.ordered_keys_toList.imp fun hlt => Std.compare_eq_lt.mp hlt)

/-! ## Mirrors -/

/-- A table holds the entries of the rows that a memory holds, in the same order. -/
structure Table.Mirrors (t : Table) (m : Memory) : Prop where
  isOpen : t.isOpen = true
  rows : ∀ h : String, (t.rows[h]?).map Std.TreeMap.toList = (m.rows[h]?).map (List.map Row.entry)
  host : ∀ h, ∀ r ∈ m.rowsOf h, r.hostId = h
  storable : ∀ h, ∀ r ∈ m.rowsOf h, r.Storable

namespace Table.Mirrors
variable {t : Table} {m : Memory}

theorem rowsOf (hm : t.Mirrors m) (h : String) : t.rowsOf h = (m.rowsOf h).map Row.entry := by
  rw [Table.rowsOf, hm.rows h, Memory.rowsOf]
  cases m.rows[h]? <;> rfl

theorem not_closed (hm : t.Mirrors m) : ¬(!t.isOpen) = true := by
  rw [hm.isOpen]
  decide

/-- A host has fewer rows than a signed word has numbers. -/
theorem length_lt (hm : t.Mirrors m) (h : String) : (m.rowsOf h).length < UInt64.size / 2 := by
  have hkeys := t.pairwise_rowsOf h
  rw [hm.rowsOf h, List.map_map] at hkeys
  exact length_lt_of_pairwise hkeys

/-- The two hold the same number of rows. -/
theorem total (hm : t.Mirrors m) : t.total = m.total := by
  have hlists : (t.rows.map fun _ rows => rows.toList).toList =
      (m.rows.map fun _ rows => rows.map Row.entry).toList :=
    Std.TreeMap.Equiv.toList_eq <| Std.TreeMap.Equiv.of_forall_constGet?_eq fun h => by
      simpa only [Std.TreeMap.getElem?_map] using hm.rows h
  rw [Std.TreeMap.toList_map, Std.TreeMap.toList_map] at hlists
  have hsums := congrArg
    (List.foldl (fun (n : Nat) (p : String × List (Int × Cells)) => n + p.2.length) 0) hlists
  simp only [List.foldl_map, List.length_map, Std.TreeMap.length_toList] at hsums
  exact hsums

end Table.Mirrors

theorem mirrors_empty (path : String) (capacity : UInt64) :
    ({ path } : Table).Mirrors (.new capacity) :=
  ⟨rfl, fun h => by simp [Memory.new], fun h r hr => by simp [Memory.new, Memory.rowsOf] at hr,
    fun h r hr => by simp [Memory.new, Memory.rowsOf] at hr⟩

/-! ## Rows that arrive -/

namespace Memory

/-- Rows that can be stored, arrive in the order of their times and find room. -/
def Takes (m : Memory) : List Row → Prop
  | [] => True
  | r :: rows =>
    r.Storable ∧ (∀ kept ∈ m.rowsOf r.hostId, kept.timestamp < r.timestamp) ∧
      (m.rowsOf r.hostId).length < m.capacity ∧ (m.appendRow r).Takes rows

theorem lastOf_of_length_le {α : Type} {n : Nat} {l : List α} (h : l.length ≤ n) :
    lastOf n l = l := by
  rw [lastOf, Nat.sub_eq_zero_of_le h, List.drop_zero]

theorem rowsOf_cleanup (m : Memory) (before : Instant) (h : String) :
    (m.cleanup before).2.rowsOf h = (m.rowsOf h).filter fun r => before ≤ r.timestamp := by
  simp only [cleanup, rowsOf, Std.TreeMap.getElem?_map]
  cases m.rows[h]? <;> rfl

end Memory

namespace Table.Mirrors
variable {t : Table} {m : Memory}

theorem put (hm : t.Mirrors m) {r : Row} (hr : r.Storable)
    (hlast : ∀ kept ∈ m.rowsOf r.hostId, kept.timestamp < r.timestamp)
    (hroom : (m.rowsOf r.hostId).length < m.capacity) :
    (t.put r.hostId r.timestamp.millis r.cells).Mirrors (m.appendRow r) := by
  have hkept : Memory.lastOf m.capacity (m.rowsOf r.hostId ++ [r]) = m.rowsOf r.hostId ++ [r] :=
    Memory.lastOf_of_length_le (by rw [List.length_append]; exact hroom)
  have hrows (h : String) : (m.appendRow r).rowsOf h =
      if r.hostId = h then m.rowsOf h ++ [r] else m.rowsOf h := by
    rw [Memory.rowsOf_appendRow]
    split
    · next e => subst e; exact hkept
    · rfl
  have hold : ((t.rows[r.hostId]?).getD {}).toList = (m.rowsOf r.hostId).map Row.entry := by
    rw [← hm.rowsOf, Table.rowsOf]
    cases t.rows[r.hostId]? <;> rfl
  have hinsert : (((t.rows[r.hostId]?).getD {}).insert r.timestamp.millis r.cells).toList =
      (m.rowsOf r.hostId ++ [r]).map Row.entry := by
    rw [toList_insert_last, hold, List.map_append]
    · rfl
    · intro p hp
      rw [hold] at hp
      obtain ⟨kept, hkept, rfl⟩ := List.mem_map.mp hp
      exact (Instant.IsMillis.lt_iff (hm.storable _ kept hkept).time hr.time).mp (hlast kept hkept)
  refine ⟨hm.isOpen, fun h => ?_, fun h x hx => ?_, fun h x hx => ?_⟩
  · simp only [Table.put, Memory.appendRow, Std.TreeMap.getElem?_insert, Std.compare_eq_iff_eq]
    split
    · rw [Option.map_some, Option.map_some, hinsert, hkept]
    · exact hm.rows h
  · rw [hrows] at hx
    split at hx
    · next e =>
      obtain hx | hx := List.mem_append.mp hx
      · exact hm.host h x hx
      · exact List.mem_singleton.mp hx ▸ e
    · exact hm.host h x hx
  · rw [hrows] at hx
    split at hx
    · obtain hx | hx := List.mem_append.mp hx
      · exact hm.storable h x hx
      · exact List.mem_singleton.mp hx ▸ hr
    · exact hm.storable h x hx

/-- Rows that the memory takes can be stored, and the table mirrors the memory again. -/
theorem append (hm : t.Mirrors m) {rows : List Row} (hrows : m.Takes rows) :
    ∃ u, t.append rows = .ok u ∧ u.Mirrors (m.append rows) := by
  rw [t.append_eq_foldlM]
  induction rows generalizing t m with
  | nil => exact ⟨t, rfl, hm⟩
  | cons r rows ih =>
    obtain ⟨hr, hlast, hroom, hrest⟩ := hrows
    obtain ⟨u, hu, hmirrors⟩ := ih (hm.put hr hlast hroom) hrest
    have hone : t.append [r] = .ok (t.put r.hostId r.timestamp.millis r.cells) := by
      simp [Table.append, hm.isOpen, hr.ofRow?, bind, Except.bind, pure, Except.pure]
    refine ⟨u, ?_, hmirrors⟩
    rw [List.foldlM_cons, hone]
    exact hu

/-! ## Rows that go -/

theorem cleanup (hm : t.Mirrors m) {before : Instant} (hbefore : before.IsMillis) :
    ∃ u, t.cleanup before = .ok ((m.cleanup before).1, u) ∧ u.Mirrors (m.cleanup before).2 := by
  let u : Table := { t with
    rows := t.rows.map fun _ rows => rows.filter fun millis _ => before.millis ≤ millis }
  have hfilter (h : String) : ((m.rowsOf h).map Row.entry).filter
      (fun p => decide (before.millis ≤ p.1)) =
      ((m.rowsOf h).filter fun r => before ≤ r.timestamp).map Row.entry := by
    rw [List.filter_map]
    congr 1
    refine List.filter_congr fun r hr => decide_eq_decide.mpr ?_
    exact (Instant.IsMillis.le_iff hbefore (hm.storable h r hr).time).symm
  have hmirrors : u.Mirrors (m.cleanup before).2 := by
    refine ⟨hm.isOpen, fun h => ?_, fun h r hr => ?_, fun h r hr => ?_⟩
    · have hold := hm.rows h
      have hfilter := hfilter h
      simp only [u, Memory.cleanup, Memory.rowsOf, Std.TreeMap.getElem?_map] at hfilter ⊢
      cases ht : t.rows[h]? with
      | none =>
        cases hmem : m.rows[h]? with
        | none => rfl
        | some rows => simp [ht, hmem] at hold
      | some cells =>
        cases hmem : m.rows[h]? with
        | none => simp [ht, hmem] at hold
        | some rows =>
          simp only [ht, hmem, Option.map_some, Option.some.injEq, Option.getD_some] at hold hfilter
          simp only [Option.map_some, Std.TreeMap.toList_filter, hold, hfilter]
    · rw [Memory.rowsOf_cleanup] at hr
      exact hm.host h r (List.mem_filter.mp hr).1
    · rw [Memory.rowsOf_cleanup] at hr
      exact hm.storable h r (List.mem_filter.mp hr).1
  refine ⟨u, ?_, hmirrors⟩
  have htotal : t.total - u.total = (m.cleanup before).1 := by
    rw [hm.total, hmirrors.total]
    rfl
  rw [Table.cleanup, if_neg hm.not_closed, ← htotal]

/-! ## Queries -/

/-- The entries of rows are read back as the rows are. -/
theorem readAll_map_entry {h : String} {rows : List Row} (hrows : ∀ r ∈ rows, r.hostId = h) :
    Table.readAll h (rows.map Row.entry) = rows.mapM Row.stored := by
  induction rows with
  | nil => rfl
  | cons r rows ih =>
    obtain ⟨hr, hrows⟩ := List.forall_mem_cons.mp hrows
    have hrest := ih hrows
    unfold Table.readAll at hrest ⊢
    rw [List.map_cons, List.mapM_cons, List.mapM_cons, hrest]
    subst hr
    rfl

/-- A limit that turns negative as a signed word is larger than any host's number of rows. -/
theorem rowLimit_eq {limit : UInt64} {l : List (Int × Cells)} (h : l.length < UInt64.size / 2) :
    Table.rowLimit limit l = l.take limit.toNat := by
  unfold Table.rowLimit
  split
  · next hlimit =>
    have hneg := Int64.lt_iff_toInt_lt.mp hlimit
    change limit.toBitVec.toInt < 0 at hneg
    have hlarge := BitVec.toInt_neg_iff.mp hneg
    change 2 ^ 64 ≤ 2 * limit.toNat at hlarge
    have hsize : UInt64.size = 2 ^ 64 := rfl
    rw [List.take_of_length_le (by omega)]
  · rfl

theorem range (hm : t.Mirrors m) {q : Query} (hstart : q.start.IsMillis) (hstop : q.stop.IsMillis) :
    t.range q = (m.range q).mapM Row.stored := by
  let found := (m.rowsOf q.hostId).filter fun r => q.start ≤ r.timestamp ∧ r.timestamp ≤ q.stop
  have hfound : (t.rowsOf q.hostId).filter
      (fun p => decide (q.start.millis ≤ p.1 ∧ p.1 ≤ q.stop.millis)) = found.map Row.entry := by
    rw [hm.rowsOf, List.filter_map]
    congr 1
    refine List.filter_congr fun r hr => decide_eq_decide.mpr ?_
    have htime := (hm.storable _ r hr).time
    exact and_congr (Instant.IsMillis.le_iff hstart htime).symm
      (Instant.IsMillis.le_iff htime hstop).symm
  have hhost : ∀ r ∈ found, r.hostId = q.hostId := fun r hr =>
    hm.host _ r (List.mem_filter.mp hr).1
  have hlength : (found.map Row.entry).length < UInt64.size / 2 := by
    rw [List.length_map]
    exact Nat.lt_of_le_of_lt (List.length_filter_le _ _) (hm.length_lt q.hostId)
  rw [Table.range, if_neg hm.not_closed]
  dsimp only
  rw [hfound]
  unfold Memory.range
  cases q.limit with
  | none => exact readAll_map_entry hhost
  | some n =>
    dsimp only
    rw [rowLimit_eq hlength, ← List.map_take]
    exact readAll_map_entry fun r hr => hhost r (List.mem_of_mem_take hr)

/-- A traversal fails as one of its elements does. -/
theorem exists_of_mapM_error {α β ε : Type} {f : α → Except ε β} {e : ε} {l : List α}
    (h : l.mapM f = .error e) : ∃ a ∈ l, f a = .error e := by
  induction l with
  | nil => cases h
  | cons a l ih =>
    rw [List.mapM_cons] at h
    cases ha : f a with
    | error e' =>
      rw [ha] at h
      obtain rfl := Except.error.inj h
      exact ⟨a, List.mem_cons_self, ha⟩
    | ok b =>
      cases hl : l.mapM f with
      | ok bs =>
        rw [ha, hl] at h
        cases h
      | error e' =>
        rw [ha, hl] at h
        obtain ⟨c, hc, hfail⟩ := ih (hl.trans h)
        exact ⟨c, List.mem_cons_of_mem _ hc, hfail⟩

/-- A traversal whose elements all fail alike may go from the end to the front. -/
theorem reverse_mapM_reverse {α β ε : Type} {f : α → Except ε β} {e : ε} {l : List α}
    (he : ∀ a ∈ l, ∀ e', f a = .error e' → e' = e) :
    List.reverse <$> l.reverse.mapM f = l.mapM f := by
  induction l with
  | nil => rfl
  | cons a l ih =>
    have hrest := ih fun b hb => he b (List.mem_cons_of_mem _ hb)
    rw [List.reverse_cons, List.mapM_append, List.mapM_cons, List.mapM_cons, ← hrest]
    cases hback : l.reverse.mapM f with
    | ok bs => cases f a <;> simp [bind, Except.bind, pure, Except.pure, Functor.map, Except.map]
    | error e' =>
      obtain ⟨c, hc, hfail⟩ := exists_of_mapM_error hback
      have hsame := he c (List.mem_cons_of_mem _ (List.mem_reverse.mp hc)) e' hfail
      cases ha : f a with
      | ok b => rfl
      | error e'' =>
        rw [hsame, he a List.mem_cons_self e'' ha]
        rfl

theorem latest (hm : t.Mirrors m) (h : String) (limit : UInt64) :
    t.latest h limit = (m.latest h limit).mapM Row.stored := by
  have hlength : ((m.rowsOf h).map Row.entry).reverse.length < UInt64.size / 2 := by
    rw [List.length_reverse, List.length_map]
    exact hm.length_lt h
  have hlast : (((m.rowsOf h).map Row.entry).reverse.take limit.toNat) =
      ((m.latest h limit).reverse).map Row.entry := by
    rw [← List.map_reverse, ← List.map_take, List.take_reverse]
    rfl
  have hmem : ∀ r ∈ m.latest h limit, r ∈ m.rowsOf h := fun r hr => List.mem_of_mem_drop hr
  rw [Table.latest, if_neg hm.not_closed, hm.rowsOf, rowLimit_eq hlength, hlast,
    readAll_map_entry fun r hr => hm.host h r (hmem r (List.mem_reverse.mp hr))]
  exact reverse_mapM_reverse fun r hr e he => (hm.storable h r (hmem r hr)).stored_error he

end Table.Mirrors

end FleetWatch.History
