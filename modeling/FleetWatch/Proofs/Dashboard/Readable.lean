import FleetWatch.Proofs.Dashboard.FullView
import FleetWatch.Proofs.Metrics.Survival

/-!
# Readable full views

A full view is read back from its text exactly when every snapshot is that there is an entry of.
-/
namespace FleetWatch

open Wire

@[simp] theorem ServerView.proper : ServerView.schema.Proper :=
  ⟨by decide, fun _ => rfl, by simp⟩

@[simp] theorem DeltaRecord.proper : DeltaRecord.schema.Proper :=
  ⟨by decide, fun _ => rfl, by simp, by simp [Compact.fields]⟩

@[simp] theorem Message.ToDashboard.proper : Message.ToDashboard.schema.Proper :=
  ⟨by decide, by decide, fun _ => rfl, by simp, by decide, fun _ => rfl, by simp, trivial⟩

/-- A view is read back when its snapshot is. -/
@[simp] theorem ServerView.returns_iff (surplus : Json.Fault) (room : Nat) (v : ServerView) :
    ServerView.schema.Returns surplus (room + 5) v ↔ ∀ s, v.metrics = some s → s.ReadsBack := by
  obtain ⟨id, name, location, provider, tag, online, version, metrics⟩ := v
  cases version <;> cases metrics <;> simp [ServerView.schema, Snapshot.readsBack_iff]

namespace Message.ToDashboard

/-- A full view is read back when all snapshots that it shows are. -/
theorem decode_encode_full_iff (seq : UInt64) (ts : Int64) (servers : List ServerView) :
    schema.decode (schema.encode (.full seq ts servers)) = .ok (.full seq ts servers) ↔
      ∀ v ∈ servers, ∀ s, v.metrics = some s → s.ReadsBack := by
  have hview : ∀ v : ServerView, ServerView.schema.Returns .shape (Json.nestingLimit - 1 - 1) v ↔
      ∀ s, v.metrics = some s → s.ReadsBack := ServerView.returns_iff .shape 120
  rw [Schema.decode_encode_iff proper]
  simp [schema, hview]

end Message.ToDashboard

namespace Dashboard

/-- A snapshot that is shown with a profile is that of an entry. -/
theorem exists_of_mem_views {now : Time.Instant} {threshold : Time.Span} {ps : List Profile}
    {entries : Entries} {v : ServerView} (hv : v ∈ (views now threshold ps entries).1)
    {s : Snapshot} (hs : v.metrics = some s) :
    ∃ (h : String) (e : LiveEntry), entries[h]? = some e ∧ e.snapshot = s := by
  induction ps generalizing entries with
  | nil => cases hv
  | cons p ps ih =>
    rcases List.mem_cons.mp hv with rfl | hv
    · obtain ⟨e, he, rfl⟩ := Option.map_eq_some_iff.mp hs
      exact ⟨p.id, e, he, rfl⟩
    · obtain ⟨h, e, he, hsnapshot⟩ := ih hv
      rw [Std.TreeMap.getElem?_erase] at he
      split at he
      · cases he
      · exact ⟨h, e, he, hsnapshot⟩

/-- Every entry that is left was there. -/
theorem getElem?_of_left {now : Time.Instant} {threshold : Time.Span} {ps : List Profile}
    {entries : Entries} {h : String} {e : LiveEntry}
    (he : (views now threshold ps entries).2[h]? = some e) : entries[h]? = some e := by
  induction ps generalizing entries with
  | nil => exact he
  | cons p ps ih =>
    have herase := ih he
    rw [Std.TreeMap.getElem?_erase] at herase
    split at herase
    · cases herase
    · exact herase

/-- Every snapshot that is shown is that of an entry. -/
theorem exists_of_mem_allViews {settings : Settings} {profiles : List Profile} {entries : Entries}
    {now : Time.Instant} {v : ServerView} (hv : v ∈ allViews settings profiles entries now)
    {s : Snapshot} (hs : v.metrics = some s) :
    ∃ (h : String) (e : LiveEntry), entries[h]? = some e ∧ e.snapshot = s := by
  rcases List.mem_append.mp hv with hv | hv
  · exact exists_of_mem_views hv hs
  · obtain ⟨e, he, rfl⟩ := List.mem_map.mp hv
    rw [values_eq_map_snd] at he
    obtain ⟨⟨h, e⟩, hmem, rfl⟩ := List.mem_map.mp he
    have hleft := getElem?_of_left (Std.TreeMap.mem_toList_iff_getElem?_eq_some.mp hmem)
    exact ⟨h, e, hleft, by simpa [ServerView.ofProfile] using hs⟩

/-- What a dashboard is shown on its arrival is read back exactly when every snapshot is that there
is an entry of. -/
theorem decode_encode_currentView_iff (h : Hub)
    (hids : ∀ (k : String) (e : LiveEntry), h.entries[k]? = some e → e.hostId = k)
    (now : Time.Instant) :
    Message.ToDashboard.schema.decode (Message.ToDashboard.schema.encode (currentView h now)) =
        .ok (currentView h now) ↔
      ∀ (k : String) (e : LiveEntry), h.entries[k]? = some e → e.snapshot.ReadsBack := by
  unfold currentView fullView
  rw [Message.ToDashboard.decode_encode_full_iff]
  constructor
  · intro hviews k e he
    obtain ⟨v, hv, -, hmetrics, -⟩ := exists_mem_allViews he (hids k e he) h.settings _ now
    exact hviews v hv e.snapshot hmetrics
  · intro hentries v hv s hs
    obtain ⟨k, e, he, rfl⟩ := exists_of_mem_allViews hv hs
    exact hentries k e he

end Dashboard
end FleetWatch
