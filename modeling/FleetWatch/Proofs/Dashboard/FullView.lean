import FleetWatch.Dashboard.View

/-!
# What the full view shows

Every host that there is an entry of is shown with its snapshot, whether it has a profile or not.

## Main definitions

* `ServerView.Shows`: a view is that of an entry.
-/
namespace FleetWatch

/-- The view is of the host of an entry, with its snapshot and its online flag. -/
def ServerView.Shows (v : ServerView) (e : LiveEntry) (now : Time.Instant) (threshold : Time.Span) :
    Prop :=
  v.id = e.hostId ∧ v.metrics = some e.snapshot ∧ v.online = e.isOnline now threshold

theorem ServerView.shows_ofProfile {p : Profile} {e : LiveEntry} (hid : p.id = e.hostId)
    (now : Time.Instant) (threshold : Time.Span) :
    (ServerView.ofProfile p (some e) now threshold).Shows e now threshold :=
  ⟨hid, rfl, by simp [ofProfile]⟩

theorem values_eq_map_snd {β : Type} (m : Std.TreeMap String β) :
    m.values = m.toList.map Prod.snd := by
  have hfold : m.values = m.foldr (fun _ v l => v :: l) [] := rfl
  rw [hfold, Std.TreeMap.foldr_eq_foldr_toList, List.foldr_cons_eq_append]
  simp

namespace Dashboard

/-- An entry is shown with a profile that has its id, or is left. -/
theorem exists_mem_views {entries : Entries} {h : String} {e : LiveEntry}
    (he : entries[h]? = some e) (hid : e.hostId = h) (now : Time.Instant) (threshold : Time.Span)
    (ps : List Profile) :
    (∃ v ∈ (views now threshold ps entries).1, v.Shows e now threshold) ∨
      (views now threshold ps entries).2[h]? = some e := by
  induction ps generalizing entries with
  | nil => exact .inr he
  | cons p ps ih =>
    by_cases hp : p.id = h
    · refine .inl ⟨_, List.mem_cons_self, ?_⟩
      rw [hp, he]
      exact ServerView.shows_ofProfile (hp.trans hid.symm) now threshold
    · have hleft : (entries.erase p.id)[h]? = some e := by
        simpa [Std.TreeMap.getElem?_erase, hp] using he
      exact (ih hleft).imp_left fun ⟨v, hv, hshows⟩ => ⟨v, List.mem_cons_of_mem _ hv, hshows⟩

theorem exists_mem_orphans {left : Entries} {h : String} {e : LiveEntry} (he : left[h]? = some e)
    (now : Time.Instant) (threshold : Time.Span) :
    ∃ v ∈ orphans now threshold left, v.Shows e now threshold := by
  have hmem : e ∈ left.values := by
    rw [values_eq_map_snd]
    exact List.mem_map.mpr ⟨(h, e), Std.TreeMap.mem_toList_iff_getElem?_eq_some.mpr he, rfl⟩
  exact ⟨_, List.mem_map.mpr ⟨e, hmem, rfl⟩, ServerView.shows_ofProfile rfl now threshold⟩

/-- Every host that there is an entry of is shown. -/
theorem exists_mem_allViews {entries : Entries} {h : String} {e : LiveEntry}
    (he : entries[h]? = some e) (hid : e.hostId = h) (settings : Settings)
    (profiles : List Profile) (now : Time.Instant) :
    ∃ v ∈ allViews settings profiles entries now, v.Shows e now settings.onlineThreshold := by
  rcases exists_mem_views he hid now settings.onlineThreshold
      (listing settings.localHost profiles) with ⟨v, hv, hshows⟩ | hleft
  · exact ⟨v, List.mem_append_left _ hv, hshows⟩
  · obtain ⟨v, hv, hshows⟩ := exists_mem_orphans hleft now settings.onlineThreshold
    exact ⟨v, List.mem_append_right _ hv, hshows⟩

end Dashboard
end FleetWatch
