import FleetWatch.Hub

/-!
# The full view

All hosts as a newly attached dashboard is shown them: the hub's own machine, the configured
servers, and then whatever else there is a snapshot of. Attaching registers the dashboard first and
reads what it is shown after that, so nothing that is broadcast meanwhile passes it by.

## Main definitions

* `ServerView.ofProfile`: a host as it is shown.
* `Dashboard.listing`, `Dashboard.views`, `Dashboard.fullView`: the hosts in order, and the message
  with all of them.
* `Dashboard.attach`, with its steps `register` and `currentView`.
-/
namespace FleetWatch

/-- A host as it is shown, by its profile and, once there is a snapshot of it, its entry. -/
def ServerView.ofProfile (p : Profile) (entry : Option LiveEntry) (now : Time.Instant)
    (threshold : Time.Span) : ServerView where
  id := p.id
  name := p.name
  location := p.location
  provider := p.provider
  tag := p.tag
  online := entry.any fun e => e.isOnline now threshold
  version := p.version.or (entry.bind fun e => e.snapshot.version)
  metrics := entry.map LiveEntry.snapshot

/-- The profile of the hub's own machine. -/
def LocalHost.profile (l : LocalHost) : Profile where
  id := l.id
  token := ""
  name := l.name
  location := l.location
  provider := l.provider
  tag := l.tag

/-- The profile of a host that has none: it is called by its id. -/
def Profile.unnamed (hostId : String) : Profile where
  id := hostId
  token := ""
  name := hostId

namespace Dashboard

/-- The profiles that are shown first: that of the hub's own machine, unless a configured server has
its id, and those of the configured servers. -/
def listing (localHost : Option LocalHost) (profiles : List Profile) : List Profile :=
  match localHost with
  | some l => if profiles.any fun p => p.id = l.id then profiles else l.profile :: profiles
  | none => profiles

/-- The views of the hosts with a profile; each entry is used up by the first that has its id. Also
the entries that are left. -/
def views (now : Time.Instant) (threshold : Time.Span) :
    List Profile → Entries → List ServerView × Entries
  | [], entries => ([], entries)
  | p :: ps, entries =>
    let (rest, left) := views now threshold ps (entries.erase p.id)
    (.ofProfile p entries[p.id]? now threshold :: rest, left)

/-- The views of the hosts without a profile, in the order of their ids. -/
def orphans (now : Time.Instant) (threshold : Time.Span) (left : Entries) : List ServerView :=
  left.values.map fun e => .ofProfile (.unnamed e.hostId) (some e) now threshold

def allViews (settings : Settings) (profiles : List Profile) (entries : Entries)
    (now : Time.Instant) : List ServerView :=
  let (first, left) :=
    views now settings.onlineThreshold (listing settings.localHost profiles) entries
  first ++ orphans now settings.onlineThreshold left

def fullView (settings : Settings) (seq : Nat) (profiles : List Profile) (entries : Entries)
    (now : Time.Instant) : Message.ToDashboard :=
  .full (.ofNat seq) (.ofInt now.millis) (allViews settings profiles entries now)

/-- The message with the views of all hosts as they are now. When the profiles cannot be looked up,
only the hosts with snapshots are shown. -/
def currentView (h : Hub) (now : Time.Instant) : Message.ToDashboard :=
  let profiles := match h.directory.profiles with
    | .ok profiles => profiles
    | .error _ => []
  fullView h.settings h.seq profiles h.entries now

def queueRoom (h : Hub) : Nat := max 1 h.settings.dashboardQueueCapacity.toNat

def register (h : Hub) (id : Id) (origin : String) : Hub :=
  { h with dashboards := h.dashboards.register id origin (queueRoom h) }

/-- Attaches a dashboard: registers it, and then builds what it is shown. Nothing when there cannot
be a queue of the configured size. -/
def attach (h : Hub) (id : Id) (origin : String) (now : Time.Instant) :
    Option (Message.ToDashboard × Hub) :=
  if queueRoom h ≤ Queue.Bounded.largest then
    let h := register h id origin
    some (currentView h now, h)
  else none

end Dashboard
end FleetWatch
