import FleetWatch.Dispatch.Reconciler

/-!
# Pictures of the hosts

What somebody knows of the hosts who follows the messages to dashboards: each record of a delta is
laid over what was known of its host. Of every item the last record counts that tells it, and only
an item that no record tells is as it was before.

## Main definitions

* `Item`: what there is to be told of a host; `Known`: what is known of one.
* `Picture`, `Picture.follow`, `Picture.replay`: what is known of all hosts, and its change by
  records and messages.
* `Tells`: some message has a record of a host with an item.
-/
namespace FleetWatch

/-- What there is to be told of a host. -/
inductive Item where
  | online
  | cpu
  | mem
  | disk
  | rx
  | tx
  | uptime
deriving DecidableEq

/-- The values of an item. -/
abbrev Item.Value : Item → Type
  | online => Bool
  | cpu | mem | disk => UInt8
  | rx | tx | uptime => UInt64

instance : (i : Item) → DecidableEq i.Value
  | .online => inferInstanceAs (DecidableEq Bool)
  | .cpu | .mem | .disk => inferInstanceAs (DecidableEq UInt8)
  | .rx | .tx | .uptime => inferInstanceAs (DecidableEq UInt64)

/-- What is known of a host. -/
structure Known where
  online : Option Bool := none
  compact : Compact := .empty
deriving DecidableEq

namespace Known

/-- The value of an item, if it is known. -/
def item (k : Known) : (i : Item) → Option i.Value
  | .online => k.online
  | .cpu => k.compact.cpu
  | .mem => k.compact.mem
  | .disk => k.compact.disk
  | .rx => k.compact.rx
  | .tx => k.compact.tx
  | .uptime => k.compact.uptime

/-- What is known once something later has been laid over it. -/
def overlay (k later : Known) : Known where
  online := later.online.or k.online
  compact := k.compact.overlay later.compact

@[simp] theorem item_overlay (k later : Known) (i : Item) :
    (k.overlay later).item i = (later.item i).or (k.item i) := by
  cases i <;> rfl

@[simp] theorem item_default (i : Item) : ({} : Known).item i = none := by
  cases i <;> rfl

theorem ext_item {k l : Known} (h : ∀ i, k.item i = l.item i) : k = l := by
  obtain ⟨_, _, _, _, _, _, _⟩ := k
  obtain ⟨_, _, _, _, _, _, _⟩ := l
  have := h .online; have := h .cpu; have := h .mem; have := h .disk
  have := h .rx; have := h .tx; have := h .uptime
  simp_all [item]

end Known

/-- What a record tells of its host. -/
def DeltaRecord.told (r : DeltaRecord) : Known := ⟨r.online, r.fields⟩

/-- What is known once a state has been sent. -/
def SentState.known (s : SentState) : Known := ⟨some s.online, s.compact⟩

/-- What the view of a host tells. -/
def ServerView.known (v : ServerView) : Known where
  online := some v.online
  compact := (v.metrics.map Snapshot.compact).getD .empty

/-- The records of a message; a full view has none. -/
def Message.ToDashboard.records : Message.ToDashboard → List DeltaRecord
  | .full .. => []
  | .delta _ _ records => records

/-- What is known of all hosts. -/
abbrev Picture := Std.TreeMap String Known

namespace Picture

def item (p : Picture) (hostId : String) (i : Item) : Option i.Value :=
  (p[hostId]?).bind fun k => k.item i

/-- The picture with a record laid over it. -/
def follow (p : Picture) (r : DeltaRecord) : Picture :=
  p.insert r.id (((p[r.id]?).getD {}).overlay r.told)

/-- The picture with the records of messages laid over it in order. -/
def replay (p : Picture) (ms : List Message.ToDashboard) : Picture :=
  (ms.flatMap Message.ToDashboard.records).foldl follow p

/-- The picture that a full view gives. -/
def ofViews (views : List ServerView) : Picture :=
  views.foldl (fun p v => p.insert v.id v.known) {}

@[simp] theorem item_empty (h : String) (i : Item) : item {} h i = none := by
  simp [item]

theorem item_of_getElem? {p : Picture} {h : String} {k : Known} (hk : p[h]? = some k) (i : Item) :
    p.item h i = k.item i := by
  simp [item, hk]

theorem exists_of_item {p : Picture} {h : String} {i : Item} {v : i.Value}
    (hv : p.item h i = some v) : ∃ k, p[h]? = some k ∧ k.item i = some v :=
  Option.bind_eq_some_iff.mp hv

/-- A host is known to be in a state as soon as all its items are. -/
theorem getElem?_eq_some_known_iff {p : Picture} {h : String} {s : SentState} :
    p[h]? = some s.known ↔ ∀ i, p.item h i = s.known.item i := by
  constructor
  · intro hk i
    exact item_of_getElem? hk i
  · intro hall
    obtain ⟨k, hk, -⟩ := exists_of_item (i := .online) (v := s.online) (hall .online)
    have heq : k = s.known := Known.ext_item fun i => by rw [← hall i, item_of_getElem? hk]
    rw [hk, heq]

theorem item_follow (p : Picture) (r : DeltaRecord) (h : String) (i : Item) :
    (p.follow r).item h i =
      if r.id = h then (r.told.item i).or (p.item h i) else p.item h i := by
  unfold follow item
  by_cases e : r.id = h
  · subst e
    cases p[r.id]? <;> simp
  · simp [Std.TreeMap.getElem?_insert, e]

@[simp] theorem replay_nil (p : Picture) : p.replay [] = p := rfl

theorem replay_append (p : Picture) (ms ns : List Message.ToDashboard) :
    p.replay (ms ++ ns) = (p.replay ms).replay ns := by
  simp [replay]

/-- Only the records of a host count for it. -/
theorem item_foldl_follow_eq (rs : List DeltaRecord) (p : Picture) (h : String) (i : Item) :
    (rs.foldl follow p).item h i =
      (rs.filter fun r => r.id = h).foldl (fun v r => (r.told.item i).or v) (p.item h i) := by
  induction rs generalizing p with
  | nil => rfl
  | cons r rs ih =>
    rw [List.foldl_cons, ih, item_follow]
    by_cases e : r.id = h <;> simp [e]

/-- What records tell does not depend on what they are laid over. -/
theorem item_foldl_follow (rs : List DeltaRecord) (p : Picture) (h : String) (i : Item) :
    (rs.foldl follow p).item h i = ((rs.foldl follow {}).item h i).or (p.item h i) := by
  induction rs generalizing p with
  | nil => simp
  | cons r rs ih =>
    rw [List.foldl_cons, List.foldl_cons, ih (p.follow r), ih (follow {} r), item_follow,
      item_follow]
    split <;> simp [Option.or_assoc]

theorem item_replay (p : Picture) (ms : List Message.ToDashboard) (h : String) (i : Item) :
    (p.replay ms).item h i = ((replay {} ms).item h i).or (p.item h i) :=
  item_foldl_follow _ p h i

end Picture

/-- Some message has a record of the host with the item. -/
def Tells (ms : List Message.ToDashboard) (hostId : String) (i : Item) : Prop :=
  ∃ m ∈ ms, ∃ r ∈ m.records, r.id = hostId ∧ (r.told.item i).isSome

instance (ms : List Message.ToDashboard) (hostId : String) (i : Item) :
    Decidable (Tells ms hostId i) :=
  inferInstanceAs (Decidable (∃ m ∈ ms, ∃ r ∈ m.records, r.id = hostId ∧ (r.told.item i).isSome))

namespace Picture

theorem isSome_item_foldl_follow (rs : List DeltaRecord) (h : String) (i : Item) :
    ((rs.foldl follow {}).item h i).isSome ↔
      ∃ r ∈ rs, r.id = h ∧ (r.told.item i).isSome := by
  induction rs with
  | nil => simp
  | cons r rs ih =>
    rw [List.foldl_cons, item_foldl_follow, Option.isSome_or, Bool.or_eq_true, ih, item_follow]
    by_cases e : r.id = h
    · simp [e, or_comm]
    · simp [e]

theorem isSome_item_replay (ms : List Message.ToDashboard) (h : String) (i : Item) :
    ((replay {} ms).item h i).isSome ↔ Tells ms h i := by
  unfold replay Tells
  rw [isSome_item_foldl_follow]
  simp only [List.mem_flatMap]
  constructor
  · rintro ⟨r, ⟨m, hm, hr⟩, hid, hi⟩
    exact ⟨m, hm, r, hr, hid, hi⟩
  · rintro ⟨m, hm, r, hr, hid, hi⟩
    exact ⟨r, ⟨m, hm, hr⟩, hid, hi⟩

/-- An item that is not told stays as it was. -/
theorem item_replay_of_not_tells (p : Picture) {ms : List Message.ToDashboard} {h : String}
    {i : Item} (hn : ¬ Tells ms h i) : (p.replay ms).item h i = p.item h i := by
  rw [← isSome_item_replay, Option.not_isSome_iff_eq_none] at hn
  rw [item_replay, hn, Option.none_or]

/-- An item that the last messages tell is known from them as from all messages. -/
theorem item_replay_of_tells (p : Picture) (before : List Message.ToDashboard)
    {ms : List Message.ToDashboard} {h : String} {i : Item} (ht : Tells ms h i) :
    (p.replay ms).item h i = (replay {} (before ++ ms)).item h i := by
  obtain ⟨v, hv⟩ := Option.isSome_iff_exists.mp ((isSome_item_replay ms h i).mpr ht)
  rw [replay_append, item_replay p, item_replay (replay {} before), hv]
  rfl

end Picture
end FleetWatch
