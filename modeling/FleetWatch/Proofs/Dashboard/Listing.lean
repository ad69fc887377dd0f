import FleetWatch.Proofs.Dashboard.FullView
import FleetWatch.Proofs.Dispatch.Reconciliation
import FleetWatch.Web.Answer
import Mathlib.Data.List.Forall2

/-!
# The full view as a listing

The hub's own machine comes first, unless a profile has its id, then the profiles as the directory
gives them, then the hosts that are left, in the order of their ids. Views use entries up as they
are listed, so that each entry is shown by one view, whichever ids occur twice. What is shown is
therefore what the health page counts, and what reconciliation tells to be online.

## Main definitions

* `LiveStore.of`: the store that arrivals lead to.
* `Entries.Keyed`: entries stand under the hosts they are of.
* `ServerView.Describes`: a view has the particulars of a profile.
* `ServerView.shown?`, `LiveEntry.shown`: what is shown of an entry.
-/
namespace FleetWatch

/-! ## Entries -/

/-- The store that arrivals lead to. -/
def LiveStore.of (arrivals : List LiveEntry) : LiveStore :=
  arrivals.foldl (fun l e => l.put e.hostId e.snapshot e.receivedAt) {}

/-- Entries stand under the hosts that they are of. -/
def Entries.Keyed (entries : Entries) : Prop :=
  ∀ (h : String) (e : LiveEntry), entries[h]? = some e → e.hostId = h

namespace Entries.Keyed
variable {entries : Entries}

theorem insert (hk : entries.Keyed) (e : LiveEntry) :
    Entries.Keyed (Std.TreeMap.insert entries e.hostId e) := by
  intro h d hd
  rw [Std.TreeMap.getElem?_insert] at hd
  split at hd
  · next he => exact Option.some.inj hd ▸ Std.compare_eq_iff_eq.mp he
  · exact hk h d hd

theorem erase (hk : entries.Keyed) (h : String) : Entries.Keyed (Std.TreeMap.erase entries h) := by
  intro k e he
  rw [Std.TreeMap.getElem?_erase] at he
  split at he
  · cases he
  · exact hk k e he

theorem of_arrivals (arrivals : List LiveEntry) : (LiveStore.of arrivals).entries.Keyed := by
  suffices hgen : ∀ l : LiveStore, l.entries.Keyed →
      (arrivals.foldl (fun l e => l.put e.hostId e.snapshot e.receivedAt) l).entries.Keyed from
    hgen {} fun h e he => by simp at he
  induction arrivals with
  | nil => exact fun l hl => hl
  | cons e arrivals ih => exact fun l hl => ih _ (hl.insert e)

theorem consolidated {l : LiveStore} (hk : l.entries.Keyed) (own : Option LiveEntry) :
    (l.consolidated own).Keyed := by
  cases own with
  | none => exact hk
  | some e =>
    intro h d hd
    rw [LiveStore.consolidated, Std.TreeMap.getElem?_insertIfNew] at hd
    split at hd
    · next he => exact Option.some.inj hd ▸ Std.compare_eq_iff_eq.mp he.1
    · exact hk h d hd

end Entries.Keyed

theorem nodup_toList {β : Type} (m : Std.TreeMap String β) : m.toList.Nodup :=
  Std.TreeMap.distinct_keys_toList.imp fun hne heq => hne (by simp [heq])

/-- The values are those of one key and those of all others. -/
theorem values_perm_erase {β : Type} (m : Std.TreeMap String β) (k : String) :
    m.values.Perm (m[k]?.toList ++ (m.erase k).values) := by
  have hlists : m.toList.Perm ((m[k]?.map fun b => (k, b)).toList ++ (m.erase k).toList) := by
    refine (List.perm_ext_iff_of_nodup (nodup_toList m) ?_).mpr fun p => ?_
    · refine List.nodup_append.mpr ⟨?_, nodup_toList _, fun p hp q hq hpq => ?_⟩
      · cases m[k]? <;> simp
      · subst hpq
        obtain ⟨b, -, rfl⟩ := by simpa using hp
        simp [Std.TreeMap.mem_toList_iff_getElem?_eq_some] at hq
    · obtain ⟨j, b⟩ := p
      by_cases hj : k = j
      · subst hj
        simp [Std.TreeMap.mem_toList_iff_getElem?_eq_some]
      · simp [Std.TreeMap.mem_toList_iff_getElem?_eq_some, Std.TreeMap.getElem?_erase, hj]
  have hvalues := hlists.map Prod.snd
  rw [List.map_append, ← values_eq_map_snd, ← values_eq_map_snd] at hvalues
  cases hk : m[k]? <;> simpa [hk] using hvalues

theorem Entries.Keyed.mem_values_iff {entries : Entries} (hk : entries.Keyed) {e : LiveEntry} :
    e ∈ entries.values ↔ entries[e.hostId]? = some e := by
  rw [values_eq_map_snd, List.mem_map]
  constructor
  · rintro ⟨⟨h, d⟩, hmem, rfl⟩
    have hd := Std.TreeMap.mem_toList_iff_getElem?_eq_some.mp hmem
    rwa [hk h d hd]
  · exact fun he => ⟨(e.hostId, e), Std.TreeMap.mem_toList_iff_getElem?_eq_some.mpr he, rfl⟩

/-- Entries are in the order of their hosts. -/
theorem Entries.Keyed.pairwise_values {entries : Entries} (hk : entries.Keyed) :
    entries.values.Pairwise fun d e => d.hostId < e.hostId := by
  rw [values_eq_map_snd, List.pairwise_map]
  refine Std.TreeMap.ordered_keys_toList.imp_of_mem fun {p q} hp hq hlt => ?_
  rw [hk p.1 p.2 (Std.TreeMap.mem_toList_iff_getElem?_eq_some.mp hp),
    hk q.1 q.2 (Std.TreeMap.mem_toList_iff_getElem?_eq_some.mp hq)]
  exact compareOfLessAndEq_eq_lt.mp hlt

/-! ## Views -/

/-- What is shown of an entry: its host, its snapshot and whether it is online. -/
def LiveEntry.shown (now : Time.Instant) (threshold : Time.Span) (e : LiveEntry) :
    String × Snapshot × Bool :=
  (e.hostId, e.snapshot, e.isOnline now threshold)

namespace ServerView
variable {p : Profile} {entry : Option LiveEntry} {now : Time.Instant} {threshold : Time.Span}

/-- The view has the particulars of a profile. -/
structure Describes (v : ServerView) (p : Profile) : Prop where
  id : v.id = p.id
  name : v.name = p.name
  location : v.location = p.location
  provider : v.provider = p.provider
  tag : v.tag = p.tag

/-- The entry that a view shows, if it has a snapshot. -/
def shown? (v : ServerView) : Option (String × Snapshot × Bool) :=
  v.metrics.map fun s => (v.id, s, v.online)

@[simp] theorem id_ofProfile : (ofProfile p entry now threshold).id = p.id := rfl

theorem describes_ofProfile : (ofProfile p entry now threshold).Describes p :=
  ⟨rfl, rfl, rfl, rfl, rfl⟩

theorem shown?_ofProfile (hid : ∀ e ∈ entry, e.hostId = p.id) :
    (ofProfile p entry now threshold).shown? = entry.map (LiveEntry.shown now threshold) := by
  cases entry with
  | none => rfl
  | some e => simp [shown?, ofProfile, LiveEntry.shown, hid]

/-- Without an entry to show a host is offline. -/
theorem online_of_metrics_none (h : (ofProfile p entry now threshold).metrics = none) :
    (ofProfile p entry now threshold).online = false := by
  cases entry with
  | none => rfl
  | some e => cases h

end ServerView

namespace Dashboard

section Views
variable (now : Time.Instant) (threshold : Time.Span)

/-- The hub's own machine is listed first unless a profile has its id. -/
theorem listing_eq (localHost : Option LocalHost) (profiles : List Profile) :
    listing localHost profiles =
      (localHost.filter fun l => l.id ∉ profiles.map Profile.id).toList.map LocalHost.profile ++
        profiles := by
  cases localHost with
  | none => rfl
  | some l =>
    by_cases hl : l.id ∈ profiles.map Profile.id
    · have hany : profiles.any (fun p => p.id = l.id) = true := by simpa using hl
      simp [listing, hany, hl, Option.filter]
    · have hany : profiles.any (fun p => p.id = l.id) = false := by simpa using hl
      simp [listing, hany, hl, Option.filter]

theorem describes_views (ps : List Profile) (entries : Entries) :
    List.Forall₂ ServerView.Describes (views now threshold ps entries).1 ps := by
  induction ps generalizing entries with
  | nil => exact .nil
  | cons p ps ih => exact .cons ServerView.describes_ofProfile (ih _)

theorem map_id_views (ps : List Profile) (entries : Entries) :
    (views now threshold ps entries).1.map ServerView.id = ps.map Profile.id := by
  induction ps generalizing entries with
  | nil => rfl
  | cons p ps ih => exact congrArg (p.id :: ·) (ih _)

theorem ofProfile_of_mem_views {ps : List Profile} {entries : Entries} {v : ServerView}
    (hv : v ∈ (views now threshold ps entries).1) :
    ∃ p entry, v = .ofProfile p entry now threshold := by
  induction ps generalizing entries with
  | nil => cases hv
  | cons p ps ih =>
    obtain rfl | hv := List.mem_cons.mp hv
    · exact ⟨p, _, rfl⟩
    · exact ih hv

/-- The entries that are left are those that no profile has the id of. -/
theorem getElem?_left (ps : List Profile) (entries : Entries) (h : String) :
    (views now threshold ps entries).2[h]? =
      if h ∈ ps.map Profile.id then none else entries[h]? := by
  induction ps generalizing entries with
  | nil => rfl
  | cons p ps ih =>
    change (views now threshold ps (entries.erase p.id)).2[h]? = _
    rw [ih, Std.TreeMap.getElem?_erase]
    by_cases hp : p.id = h <;> by_cases hps : h ∈ ps.map Profile.id <;> grind

theorem keyed_left {entries : Entries} (hk : entries.Keyed) (ps : List Profile) :
    (views now threshold ps entries).2.Keyed := by
  intro h e he
  rw [getElem?_left] at he
  split at he
  · cases he
  · exact hk h e he

/-- Those are the entries that no view has the id of. -/
theorem mem_values_left_iff {entries : Entries} (hk : entries.Keyed) (ps : List Profile)
    (e : LiveEntry) :
    e ∈ (views now threshold ps entries).2.values ↔
      entries[e.hostId]? = some e ∧
        ∀ v ∈ (views now threshold ps entries).1, v.id ≠ e.hostId := by
  have hids : (∀ v ∈ (views now threshold ps entries).1, v.id ≠ e.hostId) ↔
      e.hostId ∉ ps.map Profile.id := by
    simp [← map_id_views now threshold ps entries]
  rw [(keyed_left now threshold hk ps).mem_values_iff, getElem?_left, hids]
  split <;> simp_all

/-- Each entry is shown by one view, or is left. -/
theorem perm_views {entries : Entries} (hk : entries.Keyed) (ps : List Profile) :
    ((views now threshold ps entries).1.filterMap ServerView.shown? ++
      (views now threshold ps entries).2.values.map (LiveEntry.shown now threshold)).Perm
      (entries.values.map (LiveEntry.shown now threshold)) := by
  induction ps generalizing entries with
  | nil => exact .refl _
  | cons p ps ih =>
    have hid : ∀ e ∈ entries[p.id]?, e.hostId = p.id := fun e he => hk p.id e he
    have hfirst : (ServerView.ofProfile p entries[p.id]? now threshold).shown? =
        entries[p.id]?.map (LiveEntry.shown now threshold) := ServerView.shown?_ofProfile hid
    have hrest := ih (hk.erase p.id)
    have hsplit := (values_perm_erase entries p.id).map (LiveEntry.shown now threshold)
    rw [List.map_append] at hsplit
    refine .trans ?_ hsplit.symm
    -- the first view takes the entry of its id, and the others share out what is left
    cases he : entries[p.id]? with
    | none =>
      rw [he] at hfirst
      simpa [views, List.filterMap_cons, he, hfirst] using hrest
    | some e =>
      rw [he] at hfirst
      simpa [views, List.filterMap_cons, he, hfirst] using hrest

theorem describes_orphans (left : Entries) :
    List.Forall₂ (fun v (e : LiveEntry) => v.Describes (.unnamed e.hostId))
      (orphans now threshold left) left.values :=
  List.forall₂_map_left_iff.mpr (List.forall₂_same.mpr fun _ _ => ServerView.describes_ofProfile)

theorem shown_orphans (left : Entries) :
    (orphans now threshold left).filterMap ServerView.shown? =
      left.values.map (LiveEntry.shown now threshold) := by
  have hshown (e : LiveEntry) :
      (ServerView.ofProfile (.unnamed e.hostId) (some e) now threshold).shown? =
        some (e.shown now threshold) :=
    ServerView.shown?_ofProfile fun d hd => Option.some.inj hd ▸ rfl
  rw [orphans, List.filterMap_map, ← List.filterMap_eq_map]
  exact List.filterMap_congr fun e _ => hshown e

end Views

theorem currentView_eq (h : Hub) (now : Time.Instant) :
    currentView h now =
      fullView h.settings h.seq (h.directory.profiles.toOption.getD []) h.entries now := by
  unfold currentView
  cases h.directory.profiles <;> rfl

variable {settings : Settings} {profiles : List Profile} {entries : Entries} {now : Time.Instant}

/-- Each entry is shown by one view, and no other view has a snapshot. -/
theorem perm_allViews (hk : entries.Keyed) (settings : Settings) (profiles : List Profile)
    (now : Time.Instant) :
    ((allViews settings profiles entries now).filterMap ServerView.shown?).Perm
      (entries.values.map (LiveEntry.shown now settings.onlineThreshold)) := by
  have hsplit := perm_views now settings.onlineThreshold hk (listing settings.localHost profiles)
  rwa [← shown_orphans, ← List.filterMap_append] at hsplit

theorem online_of_metrics_none {v : ServerView} (hv : v ∈ allViews settings profiles entries now)
    (hnone : v.metrics = none) : v.online = false := by
  have hprofile : ∃ p entry, v = .ofProfile p entry now settings.onlineThreshold := by
    obtain hv | hv := List.mem_append.mp hv
    · exact ofProfile_of_mem_views _ _ hv
    · obtain ⟨e, -, rfl⟩ := List.mem_map.mp hv
      exact ⟨_, _, rfl⟩
  obtain ⟨p, entry, rfl⟩ := hprofile
  exact ServerView.online_of_metrics_none hnone

/-- As many views have a snapshot as there are entries. -/
theorem countP_metrics_allViews (hk : entries.Keyed) (settings : Settings)
    (profiles : List Profile) (now : Time.Instant) :
    (allViews settings profiles entries now).countP (·.metrics.isSome) = entries.size := by
  have hshown : (fun v : ServerView => v.metrics.isSome) = fun v => v.shown?.isSome := by
    funext v
    simp [ServerView.shown?]
  calc (allViews settings profiles entries now).countP (·.metrics.isSome)
      = ((allViews settings profiles entries now).filterMap ServerView.shown?).length := by
        rw [List.length_filterMap_eq_countP, hshown]
    _ = entries.values.length := by
        rw [(perm_allViews hk settings profiles now).length_eq, List.length_map]
    _ = entries.size := by
        rw [values_eq_map_snd, List.length_map, Std.TreeMap.length_toList]

/-- As many views are online as entries are. -/
theorem countP_online_allViews (hk : entries.Keyed) (settings : Settings)
    (profiles : List Profile) (now : Time.Instant) :
    (allViews settings profiles entries now).countP (·.online) =
      entries.values.countP fun e => e.isOnline now settings.onlineThreshold := by
  have hshown : ∀ v ∈ allViews settings profiles entries now,
      v.online = (v.shown?.map (·.2.2)).getD false := by
    intro v hv
    cases hm : v.metrics with
    | none => simp [ServerView.shown?, hm, online_of_metrics_none hv hm]
    | some s => simp [ServerView.shown?, hm]
  calc (allViews settings profiles entries now).countP (·.online)
      = ((allViews settings profiles entries now).filterMap ServerView.shown?).countP
          (·.2.2) := by
        rw [List.countP_filterMap]
        exact List.countP_congr fun v hv => by rw [hshown v hv]
    _ = _ := by
        rw [(perm_allViews hk settings profiles now).countP_eq, List.countP_map]
        rfl

/-- Hosts are shown online if their entry is. -/
theorem exists_online_allViews (hk : entries.Keyed) (settings : Settings)
    (profiles : List Profile) (now : Time.Instant) (k : String) :
    (∃ v ∈ allViews settings profiles entries now, v.id = k ∧ v.online) ↔
      ∃ e, entries[k]? = some e ∧ e.isOnline now settings.onlineThreshold := by
  have hperm := perm_allViews hk settings profiles now
  constructor
  · rintro ⟨v, hv, rfl, honline⟩
    obtain ⟨s, hs⟩ : ∃ s, v.metrics = some s := by
      refine Option.ne_none_iff_exists'.mp fun hnone => ?_
      rw [online_of_metrics_none hv hnone] at honline
      cases honline
    have hmem : (v.id, s, v.online) ∈
        (allViews settings profiles entries now).filterMap ServerView.shown? :=
      List.mem_filterMap.mpr ⟨v, hv, by simp [ServerView.shown?, hs]⟩
    obtain ⟨e, he, heq⟩ := List.mem_map.mp (hperm.mem_iff.mp hmem)
    obtain ⟨hid, -, hflag⟩ : e.hostId = v.id ∧ _ ∧ _ := by simpa [LiveEntry.shown] using heq
    exact ⟨e, hid ▸ hk.mem_values_iff.mp he, hflag.trans honline⟩
  · rintro ⟨e, he, honline⟩
    obtain ⟨v, hv, hshows⟩ := exists_mem_allViews he (hk k e he) settings profiles now
    exact ⟨v, hv, hshows.1.trans (hk k e he), hshows.2.2.trans honline⟩

end Dashboard

/-- The hosts that reconciliation tells to be online are those whose entry is. -/
theorem Reconciler.online_lastSent?_commit_iff (r : Reconciler) (entries : Entries)
    (now : Time.Instant) (threshold : Time.Span) (k : String) :
    (k ∈ entries ∧ ∃ s,
      (r.commit (r.reconcile entries now threshold)).lastSent? k = some s ∧ s.online) ↔
      ∃ e, entries[k]? = some e ∧ e.isOnline now threshold := by
  have htold {e : LiveEntry} (he : entries[k]? = some e) :
      ∃ s, (r.commit (r.reconcile entries now threshold)).lastSent? k = some s ∧
        s.online = e.isOnline now threshold := by
    have hitem := r.covers_commit entries now threshold k e he .online
      (e.isOnline now threshold) rfl
    obtain ⟨s, hs, honline⟩ := Option.bind_eq_some_iff.mp hitem
    exact ⟨s, hs, Option.some.inj honline⟩
  constructor
  · rintro ⟨hmem, s, hs, honline⟩
    obtain ⟨e, he⟩ := Option.isSome_iff_exists.mp (Std.TreeMap.mem_iff_isSome_getElem?.mp hmem)
    obtain ⟨told, htold, hsame⟩ := htold he
    obtain rfl : told = s := Option.some.inj (htold.symm.trans hs)
    exact ⟨e, he, hsame.symm.trans honline⟩
  · rintro ⟨e, he, honline⟩
    obtain ⟨s, hs, hsame⟩ := htold he
    exact ⟨Std.TreeMap.mem_iff_isSome_getElem?.mpr (by simp [he]), s, hs, hsame.trans honline⟩

namespace Dashboard

/-- The full view lists the hub's own machine, unless a profile has its id, then the profiles, then
the hosts of the entries that are left. Each entry is shown by one view, under its id and as online
as it is, and views without an entry are offline; so the views count up to what the health page
says, and the hosts that are shown online are those that reconciliation tells to be online. -/
theorem full_view_lists_all_hosts (h : Hub) (arrivals : List LiveEntry) (now : Time.Instant) :
    let h := { h with live := .of arrivals }
    let threshold := h.settings.onlineThreshold
    let profiles := h.directory.profiles.toOption.getD []
    let own := h.settings.localHost.filter fun l => l.id ∉ profiles.map Profile.id
    ∃ (listed unlisted : List ServerView) (rest : List LiveEntry),
      let servers := listed ++ unlisted
      currentView h now = .full (.ofNat h.seq) (.ofInt now.millis) servers ∧
      List.Forall₂ ServerView.Describes listed (own.toList.map LocalHost.profile ++ profiles) ∧
      List.Forall₂ (fun v e => v.Describes (.unnamed e.hostId)) unlisted rest ∧
      rest.Pairwise (fun d e => d.hostId < e.hostId) ∧
      (∀ e, e ∈ rest ↔ h.entries[e.hostId]? = some e ∧ ∀ v ∈ listed, v.id ≠ e.hostId) ∧
      (servers.filterMap ServerView.shown?).Perm
        (h.entries.values.map (LiveEntry.shown now threshold)) ∧
      (∀ v ∈ servers, v.metrics = none → v.online = false) ∧
      (Web.healthReport h now).hosts = .ofNat (servers.countP (·.metrics.isSome)) ∧
      (Web.healthReport h now).online = .ofNat (servers.countP (·.online)) ∧
      ∀ (r : Reconciler) (k : String), (∃ v ∈ servers, v.id = k ∧ v.online) ↔
        k ∈ h.entries ∧
          ∃ s, (r.commit (r.reconcile h.entries now threshold)).lastSent? k = some s ∧
            s.online := by
  intro h threshold profiles own
  have hk : h.entries.Keyed := (Entries.Keyed.of_arrivals arrivals).consolidated h.localEntry
  let ps := listing h.settings.localHost profiles
  have hps : ps = own.toList.map LocalHost.profile ++ profiles := listing_eq _ _
  refine ⟨(views now threshold ps h.entries).1,
    orphans now threshold (views now threshold ps h.entries).2,
    (views now threshold ps h.entries).2.values, currentView_eq h now,
    hps ▸ describes_views now threshold ps h.entries, describes_orphans now threshold _,
    (keyed_left now threshold hk ps).pairwise_values, mem_values_left_iff now threshold hk ps,
    perm_allViews hk h.settings profiles now, fun v => online_of_metrics_none,
    congrArg UInt64.ofNat (countP_metrics_allViews hk h.settings profiles now).symm,
    congrArg UInt64.ofNat (countP_online_allViews hk h.settings profiles now).symm,
    fun r k => ?_⟩
  rw [r.online_lastSent?_commit_iff]
  exact exists_online_allViews hk h.settings profiles now k

end Dashboard
end FleetWatch
