import FleetWatch.Metrics.Snapshot
import FleetWatch.Time.Span
import Std.Data.TreeMap

/-!
# Live state

The latest snapshot of every host, with the time of its arrival. A host is online for a while after
that time.

## Main definitions

* `LiveEntry`, `isFresh`, `LiveEntry.isOnline`.
* `LiveStore`: the entries by host; `LiveStore.put`, `LiveStore.consolidated`.
-/
namespace FleetWatch

/-- The latest snapshot of a host. -/
structure LiveEntry where
  hostId : String
  snapshot : Snapshot
  receivedAt : Time.Instant
deriving DecidableEq

/-- The longest signed span: the milliseconds of a signed 64-bit word. -/
def longestSpan : Time.Span := .ofMillis (UInt64.size / 2 - 1)

/-- Less than the threshold has passed since the arrival; longer thresholds than the longest signed
span count as that. -/
def isFresh (receivedAt now : Time.Instant) (threshold : Time.Span) : Bool :=
  now.since receivedAt < (min threshold.nanos longestSpan.nanos : Nat)

def LiveEntry.isOnline (e : LiveEntry) (now : Time.Instant) (threshold : Time.Span) : Bool :=
  isFresh e.receivedAt now threshold

/-- The latest entries by host. -/
abbrev Entries := Std.TreeMap String LiveEntry

structure LiveStore where
  entries : Entries := {}

namespace LiveStore

def put (l : LiveStore) (hostId : String) (snapshot : Snapshot) (at_ : Time.Instant) : LiveStore :=
  ⟨l.entries.insert hostId ⟨hostId, snapshot, at_⟩⟩

def get? (l : LiveStore) (hostId : String) : Option LiveEntry := l.entries[hostId]?

@[simp] theorem get?_put (l : LiveStore) (h k : String) (s : Snapshot) (t : Time.Instant) :
    (l.put h s t).get? k = if h = k then some ⟨h, s, t⟩ else l.get? k := by
  simp [put, get?, Std.TreeMap.getElem?_insert]

/-- All entries, with the hub's own under its host unless an agent delivers for that. -/
def consolidated (l : LiveStore) (localEntry : Option LiveEntry) : Entries :=
  match localEntry with
  | none => l.entries
  | some e => l.entries.insertIfNew e.hostId e

end LiveStore
end FleetWatch
