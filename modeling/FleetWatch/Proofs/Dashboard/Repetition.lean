import FleetWatch.Proofs.Dashboard.Listing
import FleetWatch.Proofs.Session.Telling
import FleetWatch.Proofs.Wire.RoundTrip
import Mathlib.Data.List.Induction

/-!
# Hosts that are listed repeatedly

The directory lists its profiles by the ids in order of configuration, whatever has been noted about
them since. An id that is configured twice is listed twice, and as there is one entry of it, only
its first view has a snapshot. No other host is listed twice.

## Main definitions

* `Note`, `Directory.noteAll`: what agents tell about their hosts.
* `Directory.Lists`: a directory in service with profiles of certain ids.
-/
namespace FleetWatch

/-! ## Directories -/

/-- Something that is to be noted about a host. -/
structure Note where
  hostId : String
  fact : Fact
  value : String

namespace Directory

def note (d : Directory) (n : Note) : Except HubError Directory :=
  match n.fact with
  | .version => d.recordVersion n.hostId n.value
  | .ip => d.recordIp n.hostId n.value

def noteAll (d : Directory) (notes : List Note) : Except HubError Directory := notes.foldlM note d

/-- The directory is in service and has profiles of these ids, in this order. -/
structure Lists (d : Directory) (ids : List String) : Prop where
  service : d.outages = []
  order : d.order = ids
  profile : ∀ k ∈ ids, ∃ p, d.find? k = some p ∧ p.id = k

/-- A directory has a profile of every server that it is made of. -/
theorem exists_find?_new (servers : List Profile) (targets : List ProbeTarget) :
    ∀ k ∈ servers.map Profile.id, ∃ p, (new servers targets).find? k = some p ∧ p.id = k := by
  induction servers using List.reverseRecOn with
  | nil => simp
  | append_singleton servers q ih =>
    intro k hk
    have hfind : (new (servers ++ [q]) targets).find? k =
        if q.id = k then some q else (new servers targets).find? k := by
      simp [new, find?, Std.TreeMap.getElem?_insert]
    rw [hfind]
    split
    · next hq => exact ⟨q, rfl, hq⟩
    · next hq =>
      refine ih k ?_
      simpa [Ne.symm hq] using hk

theorem lists_new (servers : List Profile) (targets : List ProbeTarget) :
    (new servers targets).Lists (servers.map Profile.id) :=
  ⟨rfl, rfl, exists_find?_new servers targets⟩

namespace Lists
variable {d : Directory} {ids : List String}

theorem profiles_eq (h : d.Lists ids) : d.profiles = .ok d.list := by
  simp [profiles, answer, h.service]

theorem map_id_list (h : d.Lists ids) : d.list.map Profile.id = ids := by
  have hids : ∀ k ∈ ids, (d.find? k).map Profile.id = some k := by
    intro k hk
    obtain ⟨p, hp, rfl⟩ := h.profile k hk
    simp [hp]
  rw [list, h.order, List.map_filterMap, List.filterMap_congr hids, List.filterMap_some]

theorem update (h : d.Lists ids) (hostId : String) {f : Profile → Profile}
    (hf : ∀ p, (f p).id = p.id) : (d.update hostId f).Lists ids where
  service := (outages_update ..).trans h.service
  order := (order_update ..).trans h.order
  profile := by
    intro k hk
    obtain ⟨p, hp, hid⟩ := h.profile k hk
    rw [find?_update, hp]
    split
    · exact ⟨f p, rfl, (hf p).trans hid⟩
    · exact ⟨p, rfl, hid⟩

/-- What is noted is taken, and the directory lists the same ids. -/
theorem note (h : d.Lists ids) (n : Note) : ∃ e, d.note n = .ok e ∧ e.Lists ids := by
  obtain ⟨hostId, fact, value⟩ := n
  have hlearn : (d.update hostId fun p => p.learn fact value).Lists ids :=
    h.update hostId fun p => by cases fact <;> rfl
  refine ⟨_, ?_, hlearn⟩
  cases fact <;> simp [Directory.note, recordVersion, recordIp, answer, h.service, Profile.learn]

theorem noteAll (h : d.Lists ids) (notes : List Note) :
    ∃ e, d.noteAll notes = .ok e ∧ e.Lists ids := by
  induction notes generalizing d with
  | nil => exact ⟨d, rfl, h⟩
  | cons n notes ih =>
    obtain ⟨e, he, hlists⟩ := h.note n
    obtain ⟨e', he', hlists'⟩ := ih hlists
    refine ⟨e', ?_, hlists'⟩
    rw [Directory.noteAll, List.foldlM_cons, he]
    exact he'

end Lists
end Directory

/-! ## Views of one host -/

namespace Dashboard

section Views
variable (now : Time.Instant) (threshold : Time.Span)

/-- Without an entry all views of a host are views without one. -/
theorem filter_views_of_none {entries : Entries} {k : String} (hnone : entries[k]? = none)
    (ps : List Profile) :
    (views now threshold ps entries).1.filter (·.id = k) =
      (ps.filter (·.id = k)).map fun p => .ofProfile p none now threshold := by
  induction ps generalizing entries with
  | nil => rfl
  | cons p ps ih =>
    have herase : (entries.erase p.id)[k]? = none := by
      simp [Std.TreeMap.getElem?_erase, hnone]
    by_cases hp : p.id = k
    · subst hp
      simp [views, ih herase, hnone]
    · simp [views, ih herase, hp]

/-- The first view of a host has its entry, and its further ones have none. -/
theorem filter_views_of_cons {ps again : List Profile} {p : Profile} {k : String}
    (hps : ps.filter (·.id = k) = p :: again) (entries : Entries) :
    (views now threshold ps entries).1.filter (·.id = k) =
      .ofProfile p entries[k]? now threshold ::
        again.map fun q => .ofProfile q none now threshold := by
  induction ps generalizing entries with
  | nil => cases hps
  | cons q ps ih =>
    by_cases hq : q.id = k
    · subst hq
      obtain ⟨rfl, rfl⟩ : q = p ∧ ps.filter (·.id = q.id) = again := by simpa using hps
      have herase : (entries.erase q.id)[q.id]? = none := by simp
      have hrest := filter_views_of_none now threshold herase ps
      simpa [views] using hrest
    · have herase : (entries.erase q.id)[k]? = entries[k]? := by
        simp [Std.TreeMap.getElem?_erase, hq]
      have hrest := ih (by simpa [hq] using hps) (entries.erase q.id)
      simpa [views, hq, herase] using hrest

theorem filter_views_of_not_mem {ps : List Profile} {k : String} (hk : k ∉ ps.map Profile.id)
    (entries : Entries) : (views now threshold ps entries).1.filter (·.id = k) = [] := by
  rw [← map_id_views now threshold ps entries] at hk
  simpa [List.filter_eq_nil_iff] using hk

theorem filter_orphans {left : Entries} (hk : left.Keyed) (k : String) :
    (orphans now threshold left).filter (·.id = k) =
      left[k]?.toList.map fun e => .ofProfile (.unnamed e.hostId) (some e) now threshold := by
  have hvalues : left.values.filter (·.hostId = k) = left[k]?.toList := by
    have hsame : ∀ p ∈ left.toList,
        ((fun e : LiveEntry => decide (e.hostId = k)) ∘ Prod.snd) p = decide (p.1 = k) := by
      intro p hp
      rw [Function.comp_apply, hk p.1 p.2 (Std.TreeMap.mem_toList_iff_getElem?_eq_some.mp hp)]
    rw [values_eq_map_snd, List.filter_map, List.filter_congr hsame, filter_toList_entries]
    cases left[k]? <;> rfl
  rw [orphans, List.filter_map, ← hvalues]
  rfl

end Views

/-- The hub's own machine is not listed, or it is and no profile has its id. -/
theorem listing_cases (localHost : Option LocalHost) (profiles : List Profile) :
    listing localHost profiles = profiles ∨
      ∃ own : Profile, listing localHost profiles = own :: profiles ∧
        own.id ∉ profiles.map Profile.id := by
  rw [listing_eq]
  cases hown : localHost.filter fun l => l.id ∉ profiles.map Profile.id with
  | none => exact .inl rfl
  | some l =>
    have hl : l.id ∉ profiles.map Profile.id := by
      simpa using (Option.filter_eq_some_iff.mp hown).2
    exact .inr ⟨l.profile, rfl, hl⟩

/-- The hub's own machine repeats no id. -/
theorem count_listing (localHost : Option LocalHost) (profiles : List Profile) (k : String) :
    ((listing localHost profiles).map Profile.id).count k - 1 =
      (profiles.map Profile.id).count k - 1 := by
  obtain hsame | ⟨own, hcons, hown⟩ := listing_cases localHost profiles
  · rw [hsame]
  · rw [hcons, List.map_cons]
    by_cases hk : own.id = k
    · subst hk
      simp [List.count_eq_zero_of_not_mem hown]
    · rw [List.count_cons_of_ne hk]

theorem nodup_listing_iff (localHost : Option LocalHost) (profiles : List Profile) :
    ((listing localHost profiles).map Profile.id).Nodup ↔ (profiles.map Profile.id).Nodup := by
  obtain hsame | ⟨own, hcons, hown⟩ := listing_cases localHost profiles
  · rw [hsame]
  · rw [hcons, List.map_cons, List.nodup_cons, and_iff_right hown]

variable {entries : Entries}

/-- A host with an entry is shown by its first view; it has as many views more, without a snapshot,
as its id is repeated by the profiles. -/
theorem filter_allViews (hk : entries.Keyed) {k : String} {e : LiveEntry}
    (he : entries[k]? = some e) (settings : Settings) (profiles : List Profile)
    (now : Time.Instant) :
    ∃ v again, (allViews settings profiles entries now).filter (·.id = k) = v :: again ∧
      v.Shows e now settings.onlineThreshold ∧
      again.length = (profiles.map Profile.id).count k - 1 ∧
      ∀ w ∈ again, w.metrics = none ∧ w.online = false := by
  let ps := listing settings.localHost profiles
  have hcount : (ps.map Profile.id).count k = (ps.filter (·.id = k)).length := by
    rw [← List.countP_eq_length_filter, List.count, List.countP_map]
    rfl
  rw [← count_listing settings.localHost profiles k, hcount]
  have hleft := getElem?_left now settings.onlineThreshold ps entries k
  have hsplit : (allViews settings profiles entries now).filter (·.id = k) =
      (views now settings.onlineThreshold ps entries).1.filter (·.id = k) ++
        (views now settings.onlineThreshold ps entries).2[k]?.toList.map fun e =>
          .ofProfile (.unnamed e.hostId) (some e) now settings.onlineThreshold := by
    rw [← filter_orphans now settings.onlineThreshold (keyed_left now _ hk ps)]
    exact List.filter_append ..
  cases hps : ps.filter (·.id = k) with
  | nil =>
    have hnot : k ∉ ps.map Profile.id := by simpa [List.filter_eq_nil_iff] using hps
    rw [if_neg hnot, he] at hleft
    rw [hsplit, filter_views_of_not_mem now _ hnot, hleft]
    exact ⟨_, [], rfl, ServerView.shows_ofProfile rfl .., rfl, by simp⟩
  | cons p again =>
    obtain ⟨hmem, hp⟩ : p ∈ ps ∧ p.id = k := by
      have hfound : p ∈ ps.filter (·.id = k) := hps ▸ List.mem_cons_self
      simpa using hfound
    rw [if_pos (List.mem_map.mpr ⟨p, hmem, hp⟩)] at hleft
    rw [hsplit, filter_views_of_cons now _ hps, hleft, he]
    exact ⟨_, _, List.append_nil _, ServerView.shows_ofProfile (hp.trans (hk k e he).symm) ..,
      by simp, by simp [ServerView.ofProfile]⟩

/-- Hosts are listed once if no id is repeated by the profiles. -/
theorem nodup_allViews_iff (hk : entries.Keyed) (settings : Settings) (profiles : List Profile)
    (now : Time.Instant) :
    ((allViews settings profiles entries now).map ServerView.id).Nodup ↔
      (profiles.map Profile.id).Nodup := by
  let ps := listing settings.localHost profiles
  let left := (views now settings.onlineThreshold ps entries).2
  have hleft : left.Keyed := keyed_left now _ hk ps
  have hids : (allViews settings profiles entries now).map ServerView.id =
      ps.map Profile.id ++ left.values.map LiveEntry.hostId := by
    rw [← map_id_views now settings.onlineThreshold ps entries]
    simp [allViews, orphans, ps, left, Profile.unnamed]
  have hvalues : (left.values.map LiveEntry.hostId).Nodup := by
    refine List.pairwise_map.mpr (hleft.pairwise_values.imp fun {d e} hlt heq => ?_)
    exact String.lt_irrefl e.hostId (heq ▸ hlt)
  have hapart : ∀ i ∈ ps.map Profile.id, ∀ j ∈ left.values.map LiveEntry.hostId, i ≠ j := by
    rintro i hi j hj rfl
    obtain ⟨e, he, rfl⟩ := List.mem_map.mp hj
    have hfound := hleft.mem_values_iff.mp he
    rw [getElem?_left, if_pos hi] at hfound
    cases hfound
  rw [hids, List.nodup_append, ← nodup_listing_iff settings.localHost profiles]
  exact ⟨fun h => h.1, fun h => ⟨h, hvalues, hapart⟩⟩

/-- Whatever is configured, noted and delivered, the hosts that the full view lists are distinct
exactly when the configured ids are. A host with an entry is shown by its first view, and it has
further views, without a snapshot and offline, exactly as often as its id is repeated by the
configuration. -/
theorem full_view_lists_hosts_once_iff (c : Config) (notes : List Note) :
    ∃ d, (Directory.ofConfig c).noteAll notes = .ok d ∧
      ∀ (h : Hub) (arrivals : List LiveEntry) (now : Time.Instant),
        let h := { h with directory := d, live := .of arrivals }
        ∃ servers, currentView h now = .full (.ofNat h.seq) (.ofInt now.millis) servers ∧
          ((servers.map ServerView.id).Nodup ↔ (c.servers.map Profile.id).Nodup) ∧
          ∀ k e, h.entries[k]? = some e →
            ∃ v again, servers.filter (·.id = k) = v :: again ∧
              v.Shows e now h.settings.onlineThreshold ∧
              again.length = (c.servers.map Profile.id).count k - 1 ∧
              ∀ w ∈ again, w.metrics = none ∧ w.online = false := by
  obtain ⟨d, hd, hlists⟩ := (Directory.lists_new c.servers c.pingTargets).noteAll notes
  refine ⟨d, hd, fun h arrivals now => ?_⟩
  intro h
  have hk : h.entries.Keyed := (Entries.Keyed.of_arrivals arrivals).consolidated h.localEntry
  have hview : currentView h now = fullView h.settings h.seq d.list h.entries now := by
    rw [currentView_eq, hlists.profiles_eq]
    rfl
  refine ⟨_, hview, ?_, fun k e he => ?_⟩
  · rw [nodup_allViews_iff hk, hlists.map_id_list]
  · rw [← hlists.map_id_list]
    exact filter_allViews hk he h.settings d.list now

/-- A configuration with one server given twice. -/
def twiceDoc : Json.Doc :=
  .obj [("servers", .array (List.replicate 2 (.obj [("id", .str "a"), ("token", .str "t")])))]

/-- All else is as configured when nothing is said about it. -/
def twiceConfig : Config where
  listen := ⟨.v4 0 0 0 0, 3001, 0⟩
  adminToken := none
  cors := false
  trustProxyHeaders := false
  broadcastIntervalMs := 1000
  onlineThresholdSecs := 30
  commandQueueCapacity := 16
  dashboardQueueCapacity := 64
  localHost := none
  servers := List.replicate 2 { id := "a", token := "t" }
  pingTargets := []
  history := none

/-- The server that is configured twice has delivered a reading. -/
def twiceHub : Hub where
  settings := twiceConfig.settings
  directory := .ofConfig twiceConfig
  live := .of [⟨"a", .ofUsage 10, .epoch⟩]

/-- The configuration is accepted, and the server has two views, the second of which has nothing of
the reading and says that the server is offline. -/
theorem server_given_twice_is_listed_twice :
    Config.parse twiceDoc.print = .ok twiceConfig ∧
    ∃ e v w, twiceHub.entries["a"]? = some e ∧
      currentView twiceHub .epoch = .full 0 0 [v, w] ∧
      v.id = "a" ∧ w.id = "a" ∧ v.Shows e .epoch twiceHub.settings.onlineThreshold ∧
      v.online = true ∧ w.metrics = none ∧ w.online = false := by
  have hspelled : twiceDoc.Spelled :=
    ⟨⟨⟨trivial, trivial, trivial⟩, ⟨trivial, trivial, trivial⟩, trivial⟩, trivial⟩
  refine ⟨?_, ⟨"a", .ofUsage 10, .epoch⟩, _, _, rfl, rfl, rfl, rfl, ⟨rfl, rfl, rfl⟩, rfl, rfl, rfl⟩
  rw [Config.parse, Wire.Schema.decode_print _ hspelled]
  rfl

end Dashboard
end FleetWatch
