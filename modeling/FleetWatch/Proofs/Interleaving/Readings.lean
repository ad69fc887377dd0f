import FleetWatch.Live

/-!
# Readings of live state

Live state as the outcome of a log of writes, and what is read of it in two steps, first the
entries of the agents and then that of the hub's own machine, while writes go on.

## Main definitions

* `Write`: a write of live state.
* `agentEntries`, `ownEntry`: the live state that a log leads to.
* `Reading`: how far the log was at the two steps, with `Reading.entries` and `Reading.source`, the
  write that the entry of a host comes from.
-/
namespace FleetWatch.Interleaving

/-! ## Last positions -/

/-- The position of the last item with a property. -/
def lastIndex? {α : Type} (p : α → Bool) : List α → Option Nat
  | [] => none
  | a :: l => ((lastIndex? p l).map (· + 1)).or (if p a then some 0 else none)

section
variable {α : Type} {p : α → Bool}

theorem getElem?_of_lastIndex? {l : List α} {i : Nat} (h : lastIndex? p l = some i) :
    ∃ a, l[i]? = some a ∧ p a := by
  induction l generalizing i with
  | nil => simp [lastIndex?] at h
  | cons a l ih =>
    rw [lastIndex?] at h
    cases hl : lastIndex? p l with
    | none =>
      rw [hl] at h
      simp only [Option.map_none, Option.none_or, Option.ite_none_right_eq_some,
        Option.some.injEq] at h
      obtain ⟨ha, rfl⟩ := h
      exact ⟨a, rfl, ha⟩
    | some j =>
      rw [hl] at h
      simp only [Option.map_some, Option.some_or, Option.some.injEq] at h
      subst h
      exact ih hl

theorem lastIndex?_lt {l : List α} {i : Nat} (h : lastIndex? p l = some i) : i < l.length := by
  obtain ⟨a, ha, -⟩ := getElem?_of_lastIndex? h
  exact (List.getElem?_eq_some_iff.mp ha).1

theorem lastIndex?_append (l l' : List α) :
    lastIndex? p (l ++ l') = ((lastIndex? p l').map (· + l.length)).or (lastIndex? p l) := by
  induction l with
  | nil => simp [lastIndex?]
  | cons a l ih =>
    rw [List.cons_append, lastIndex?, ih, lastIndex?]
    cases lastIndex? p l' with
    | none => simp
    | some j => simp [Nat.add_assoc]

/-- In a longer list the last position is no earlier. -/
theorem lastIndex?_take_mono {l : List α} {m n i : Nat} (hmn : m ≤ n)
    (h : lastIndex? p (l.take m) = some i) : ∃ j, lastIndex? p (l.take n) = some j ∧ i ≤ j := by
  have hshort : (l.take n).take m = l.take m := by rw [List.take_take, Nat.min_eq_left hmn]
  rw [← List.take_append_drop m (l.take n), lastIndex?_append, hshort, h]
  cases lastIndex? p ((l.take n).drop m) with
  | none => exact ⟨i, rfl, Nat.le_refl i⟩
  | some j =>
    have hi := lastIndex?_lt h
    exact ⟨j + (l.take m).length, rfl, by omega⟩

end

/-! ## Writes -/

/-- An entry that replaces the one of an agent's host, or that of the hub's own machine. -/
structure Write where
  own : Bool
  entry : LiveEntry
deriving DecidableEq

/-- The write is one of the hub's own machine or of an agent, for a host. -/
def Write.isFor (own : Bool) (hostId : String) (w : Write) : Bool :=
  w.own = own && w.entry.hostId = hostId

/-- The entry of a position of the log. -/
def entryAt (log : List Write) (i : Nat) : Option LiveEntry := log[i]?.map Write.entry

/-- The entry of the last write with a property. -/
def lastWritten (p : Write → Bool) (log : List Write) : Option LiveEntry :=
  log.foldl (fun entry w => if p w then some w.entry else entry) none

def agentEntries (log : List Write) : Entries :=
  log.foldl (fun entries w => if w.own then entries else entries.insert w.entry.hostId w.entry) {}

def ownEntry (log : List Write) : Option LiveEntry := lastWritten Write.own log

@[simp] theorem agentEntries_snoc (log : List Write) (w : Write) :
    agentEntries (log ++ [w]) =
      if w.own then agentEntries log
      else (agentEntries log).insert w.entry.hostId w.entry := by
  simp [agentEntries]

@[simp] theorem ownEntry_snoc (log : List Write) (w : Write) :
    ownEntry (log ++ [w]) = if w.own then some w.entry else ownEntry log := by
  simp [ownEntry, lastWritten]

theorem foldl_entry_eq (p : Write → Bool) (log : List Write) (start : Option LiveEntry) :
    log.foldl (fun entry w => if p w then some w.entry else entry) start =
      ((lastIndex? p log).bind (entryAt log)).or start := by
  induction log generalizing start with
  | nil => simp [lastIndex?]
  | cons w log ih =>
    rw [List.foldl_cons, ih, lastIndex?]
    cases hl : lastIndex? p log with
    | none => by_cases hp : p w <;> simp [hp, entryAt]
    | some i =>
      obtain ⟨v, hv, -⟩ := getElem?_of_lastIndex? hl
      simp [entryAt, hv]

theorem lastWritten_eq (p : Write → Bool) (log : List Write) :
    lastWritten p log = (lastIndex? p log).bind (entryAt log) := by
  rw [lastWritten, foldl_entry_eq, Option.or_none]

theorem getElem?_agentEntries (log : List Write) (h : String) :
    (agentEntries log)[h]? = lastWritten (Write.isFor false h) log := by
  suffices hgen : ∀ start : Entries,
      (log.foldl (fun entries w => if w.own then entries else
        entries.insert w.entry.hostId w.entry) start)[h]? =
      log.foldl (fun entry w => if w.isFor false h then some w.entry else entry) start[h]? by
    simpa [agentEntries, lastWritten] using hgen {}
  intro start
  induction log generalizing start with
  | nil => rfl
  | cons w log ih =>
    rw [List.foldl_cons, List.foldl_cons, ih]
    cases ho : w.own with
    | true => simp [Write.isFor, ho]
    | false =>
      by_cases e : w.entry.hostId = h <;>
        simp [Write.isFor, ho, e, Std.TreeMap.getElem?_insert]

/-- The hub's own machine goes by one id in all writes. -/
def OwnedBy (machine : String) (log : List Write) : Prop :=
  ∀ w ∈ log, w.own → w.entry.hostId = machine

/-- The entry of the last write of a first part. -/
theorem lastWritten_take (p : Write → Bool) (log : List Write) (n : Nat) :
    lastWritten p (log.take n) = (lastIndex? p (log.take n)).bind (entryAt log) := by
  rw [lastWritten_eq]
  cases hi : lastIndex? p (log.take n) with
  | none => rfl
  | some i =>
    have hlt := lastIndex?_lt hi
    rw [List.length_take] at hlt
    rw [Option.bind_some, Option.bind_some, entryAt, entryAt, List.getElem?_take_of_lt (by omega)]

theorem lastWritten_congr {p q : Write → Bool} {log : List Write} (h : ∀ w ∈ log, p w = q w) :
    lastWritten p log = lastWritten q log := by
  suffices hgen : ∀ start, log.foldl (fun entry w => if p w then some w.entry else entry) start =
      log.foldl (fun entry w => if q w then some w.entry else entry) start from hgen none
  induction log with
  | nil => exact fun _ => rfl
  | cons w log ih =>
    intro start
    rw [List.foldl_cons, List.foldl_cons, h w List.mem_cons_self]
    exact ih (fun v hv => h v (List.mem_cons_of_mem _ hv)) _

theorem OwnedBy.snoc {machine : String} {log : List Write} (ho : OwnedBy machine log) {w : Write}
    (hw : w.own → w.entry.hostId = machine) : OwnedBy machine (log ++ [w]) := by
  intro v hv hown
  rcases List.mem_append.mp hv with hv | hv
  · exact ho v hv hown
  · rw [List.mem_singleton.mp hv] at hown ⊢
    exact hw hown

theorem OwnedBy.take {machine : String} {log : List Write} (ho : OwnedBy machine log) (n : Nat) :
    OwnedBy machine (log.take n) :=
  fun w hw => ho w (List.mem_of_mem_take hw)

theorem OwnedBy.hostId_of_ownEntry {machine : String} {log : List Write} (ho : OwnedBy machine log)
    {e : LiveEntry} (he : ownEntry log = some e) : e.hostId = machine := by
  rw [ownEntry, lastWritten_eq, Option.bind_eq_some_iff] at he
  obtain ⟨i, hi, he⟩ := he
  obtain ⟨w, hw, hown⟩ := getElem?_of_lastIndex? hi
  rw [entryAt, hw, Option.map_some, Option.some.injEq] at he
  rw [← he]
  exact ho w (List.mem_of_getElem? hw) hown

theorem OwnedBy.lastWritten_isFor {machine : String} {log : List Write} (ho : OwnedBy machine log)
    (h : String) :
    lastWritten (Write.isFor true h) log = if machine = h then ownEntry log else none := by
  by_cases e : machine = h
  · rw [if_pos e, ownEntry]
    refine lastWritten_congr fun w hw => ?_
    cases hown : w.own with
    | true => simp [Write.isFor, hown, ho w hw hown, e]
    | false => simp [Write.isFor, hown]
  · rw [if_neg e, lastWritten_eq, Option.bind_eq_none_iff]
    intro i hi
    obtain ⟨w, hw, hfor⟩ := getElem?_of_lastIndex? hi
    simp only [Write.isFor, Bool.and_eq_true, decide_eq_true_eq] at hfor
    exact absurd ((ho w (List.mem_of_getElem? hw) hfor.1).symm.trans hfor.2) e

theorem getElem?_consolidated (l : LiveStore) (own : Option LiveEntry) (h : String) :
    (l.consolidated own)[h]? = l.entries[h]?.or (own.filter fun e => e.hostId = h) := by
  cases own with
  | none => simp [LiveStore.consolidated]
  | some e =>
    rw [LiveStore.consolidated, Std.TreeMap.getElem?_insertIfNew, Option.filter_some]
    by_cases he : e.hostId = h
    · cases hl : l.entries[h]? with
      | none =>
        have hnot : h ∉ l.entries := by
          rw [Std.TreeMap.mem_iff_isSome_getElem?, hl]
          exact Bool.false_ne_true
        simp [he, hnot]
      | some d =>
        have hmem : h ∈ l.entries := by
          rw [Std.TreeMap.mem_iff_isSome_getElem?, hl]
          rfl
        simp [he, hmem]
    · simp [he]

/-! ## Readings -/

/-- How long the log was when the entries of the agents were copied, and when that of the hub's own
machine was added. -/
structure Reading where
  agentsAt : Nat
  ownAt : Nat
deriving DecidableEq

namespace Reading

/-- The reading was made, in order, while the log was written. -/
def IsOf (r : Reading) (log : List Write) : Prop :=
  r.agentsAt ≤ r.ownAt ∧ r.ownAt ≤ log.length

/-- The entries that were read. -/
def entries (r : Reading) (log : List Write) : Entries :=
  LiveStore.consolidated ⟨agentEntries (log.take r.agentsAt)⟩ (ownEntry (log.take r.ownAt))

/-- The position of the write that the entry of a host was read from. -/
def source (r : Reading) (log : List Write) (hostId : String) : Option Nat :=
  (lastIndex? (Write.isFor false hostId) (log.take r.agentsAt)).or
    (lastIndex? (Write.isFor true hostId) (log.take r.ownAt))

theorem IsOf.append {r : Reading} {log : List Write} (h : r.IsOf log) (w : Write) :
    r.IsOf (log ++ [w]) := by
  obtain ⟨horder, hlen⟩ := h
  refine ⟨horder, ?_⟩
  rw [List.length_append]
  omega

/-- What is written later does not change what was read. -/
theorem IsOf.entries_append {r : Reading} {log : List Write} (h : r.IsOf log) (w : Write) :
    r.entries (log ++ [w]) = r.entries log := by
  obtain ⟨horder, hlen⟩ := h
  rw [entries, entries, List.take_append_of_le_length hlen,
    List.take_append_of_le_length (by omega)]

/-- The entry of a host is that of a write, the last of its agent or else of the hub's own
machine. -/
theorem getElem?_entries {machine : String} {log : List Write} (ho : OwnedBy machine log)
    (r : Reading) (h : String) :
    (r.entries log)[h]? = (r.source log h).bind (entryAt log) := by
  have hown : (ownEntry (log.take r.ownAt)).filter (fun e => e.hostId = h) =
      lastWritten (Write.isFor true h) (log.take r.ownAt) := by
    rw [(ho.take r.ownAt).lastWritten_isFor]
    cases he : ownEntry (log.take r.ownAt) with
    | none => simp
    | some e => simp [Option.filter, (ho.take r.ownAt).hostId_of_ownEntry he]
  rw [entries, getElem?_consolidated, getElem?_agentEntries, hown, lastWritten_take,
    lastWritten_take, source]
  cases hi : lastIndex? (Write.isFor false h) (log.take r.agentsAt) with
  | none => simp
  | some i =>
    obtain ⟨w, hw, -⟩ := getElem?_of_lastIndex? hi
    have hlt := (List.getElem?_eq_some_iff.mp hw).1
    rw [List.length_take] at hlt
    have hentry : entryAt log i = some w.entry := by
      rw [entryAt, ← List.getElem?_take_of_lt (show i < r.agentsAt by omega), hw, Option.map_some]
    rw [Option.bind_some, Option.some_or, Option.bind_some, hentry, Option.some_or]

/-- A position that an entry was read from holds a write for its host. -/
theorem exists_of_source {log : List Write} {r : Reading} {h : String} {i : Nat}
    (hi : r.source log h = some i) : ∃ w, log[i]? = some w ∧ w.entry.hostId = h := by
  have hfor : ∀ own n, lastIndex? (Write.isFor own h) (log.take n) = some i →
      ∃ w, log[i]? = some w ∧ w.entry.hostId = h := by
    intro own n hlast
    obtain ⟨w, hw, hisFor⟩ := getElem?_of_lastIndex? hlast
    have hlt := (List.getElem?_eq_some_iff.mp hw).1
    rw [List.length_take] at hlt
    rw [List.getElem?_take_of_lt (by omega)] at hw
    simp only [Write.isFor, Bool.and_eq_true, decide_eq_true_eq] at hisFor
    exact ⟨w, hw, hisFor.2⟩
  rw [source, Option.or_eq_some_iff] at hi
  rcases hi with hagent | ⟨-, hown⟩
  · exact hfor _ _ hagent
  · exact hfor _ _ hown

/-- A host that is not both an agent's and the hub's own machine is read from the same write or a
later one when everything is read later. -/
theorem source_mono {machine : String} {log : List Write} (ho : OwnedBy machine log)
    {r s : Reading} (hagents : r.agentsAt ≤ s.agentsAt) (hown : r.ownAt ≤ s.ownAt) {h : String}
    (hone : h = machine → ∀ w ∈ log, w.entry.hostId = h → w.own) {i : Nat}
    (hi : r.source log h = some i) : ∃ j, s.source log h = some j ∧ i ≤ j := by
  rw [source, Option.or_eq_some_iff] at hi
  rcases hi with hagent | ⟨-, hmachine⟩
  · obtain ⟨j, hj, hij⟩ := lastIndex?_take_mono hagents hagent
    exact ⟨j, by rw [source, hj, Option.some_or], hij⟩
  · obtain ⟨j, hj, hij⟩ := lastIndex?_take_mono hown hmachine
    refine ⟨j, ?_, hij⟩
    -- the host is the hub's own machine, so no agent writes for it
    obtain ⟨w, hw, hfor⟩ := getElem?_of_lastIndex? hmachine
    simp only [Write.isFor, Bool.and_eq_true, decide_eq_true_eq] at hfor
    have hid := (ho.take r.ownAt) w (List.mem_of_getElem? hw) hfor.1
    have hnone : lastIndex? (Write.isFor false h) (log.take s.agentsAt) = none := by
      rw [Option.eq_none_iff_forall_ne_some]
      intro k hk
      obtain ⟨v, hv, hfor'⟩ := getElem?_of_lastIndex? hk
      simp only [Write.isFor, Bool.and_eq_true, decide_eq_true_eq] at hfor'
      have := hone (hfor.2.symm.trans hid) v
        (List.mem_of_mem_take (List.mem_of_getElem? hv)) hfor'.2
      simp [hfor'.1] at this
    rw [source, hnone, hj, Option.none_or]

/-- Nothing that was read has been written since. -/
def IsCurrent (r : Reading) (log : List Write) : Prop :=
  (∀ w ∈ log.drop r.agentsAt, w.own) ∧ ∀ w ∈ log.drop r.ownAt, w.own = false

instance (r : Reading) (log : List Write) : Decidable (r.IsCurrent log) :=
  inferInstanceAs
    (Decidable ((∀ w ∈ log.drop r.agentsAt, w.own) ∧ ∀ w ∈ log.drop r.ownAt, w.own = false))

theorem foldl_eq_self {α β : Type} {f : β → α → β} {l : List α} (h : ∀ a ∈ l, ∀ b, f b a = b)
    (b : β) : l.foldl f b = b := by
  induction l generalizing b with
  | nil => rfl
  | cons a l ih =>
    rw [List.foldl_cons, h a List.mem_cons_self]
    exact ih (fun a' ha' => h a' (List.mem_cons_of_mem _ ha')) b

theorem agentEntries_append_of_forall (log : List Write) {later : List Write}
    (h : ∀ w ∈ later, w.own) :
    agentEntries (log ++ later) = agentEntries log := by
  rw [agentEntries, List.foldl_append]
  exact foldl_eq_self (fun w hw entries => if_pos (h w hw)) _

theorem ownEntry_append_of_forall (log : List Write) {later : List Write}
    (h : ∀ w ∈ later, w.own = false) :
    ownEntry (log ++ later) = ownEntry log := by
  rw [ownEntry, lastWritten, List.foldl_append]
  exact foldl_eq_self (fun w hw entry => if_neg (by simp [h w hw])) _

/-- A current reading has the entries that are there now. -/
theorem IsCurrent.entries_eq {r : Reading} {log : List Write} (h : r.IsCurrent log) :
    r.entries log = LiveStore.consolidated ⟨agentEntries log⟩ (ownEntry log) := by
  obtain ⟨hagents, hown⟩ := h
  have hagents := agentEntries_append_of_forall (log.take r.agentsAt) hagents
  have hown := ownEntry_append_of_forall (log.take r.ownAt) hown
  rw [List.take_append_drop] at hagents hown
  rw [entries, hagents, hown]

end Reading

end FleetWatch.Interleaving
