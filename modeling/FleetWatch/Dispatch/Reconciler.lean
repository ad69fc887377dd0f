import FleetWatch.Live
import FleetWatch.Message.Dashboard

/-!
# Reconciliation

What dashboards have to be told, as the difference between the hosts now and what was last sent of
them. A difference that has been handed over is committed, and only then counts as sent.

## Main definitions

* `SentState`: what was sent of a host.
* `Reconciler.change?`, `Reconciler.reconcile`: what is to be sent.
* `Reconciler.commit`: it has been sent.
-/
namespace FleetWatch

/-- What dashboards know of a host. -/
structure SentState where
  online : Bool
  compact : Compact
deriving DecidableEq

/-- What dashboards should know of a host. -/
def LiveEntry.sentState (e : LiveEntry) (now : Time.Instant) (threshold : Time.Span) :
    SentState where
  online := e.isOnline now threshold
  compact := e.snapshot.compact

/-- A host's record in a delta, and what dashboards know of the host once they have it. -/
structure Change where
  record : DeltaRecord
  state : SentState
deriving DecidableEq

/-- What was last sent of every host. -/
structure Reconciler where
  lastSent : Std.TreeMap String SentState := {}

namespace Reconciler

/-- What was last sent of a host. -/
def lastSent? (r : Reconciler) (hostId : String) : Option SentState := r.lastSent[hostId]?

/-- The change of a host from what was sent to the current state: its online flag if that turned or
was never sent, and the fields that differ. Nothing when there is neither. -/
def change? (previous : Option SentState) (hostId : String) (current : SentState) :
    Option Change :=
  let fields := Compact.diff ((previous.map SentState.compact).getD .empty) current.compact
  let turned := previous.all fun sent => sent.online ≠ current.online
  if fields.isEmpty && !turned then none
  else some
    { record := { id := hostId, online := if turned then some current.online else none, fields }
      state := current }

/-- The changes of all hosts, in the order of their ids. -/
def reconcile (r : Reconciler) (entries : Entries) (now : Time.Instant)
    (threshold : Time.Span) : List Change :=
  entries.toList.filterMap fun (hostId, e) =>
    change? (r.lastSent? hostId) hostId (e.sentState now threshold)

/-- The changes have been handed over. -/
def commit (r : Reconciler) (changes : List Change) : Reconciler where
  lastSent := changes.foldl (fun sent c => sent.insert c.record.id c.state) r.lastSent

@[simp] theorem id_of_change? {previous : Option SentState} {hostId : String}
    {current : SentState} {c : Change} (h : change? previous hostId current = some c) :
    c.record.id = hostId := by
  unfold change? at h
  simp only [Option.ite_none_left_eq_some, Option.some.injEq] at h
  obtain ⟨-, rfl⟩ := h
  rfl

end Reconciler
end FleetWatch
