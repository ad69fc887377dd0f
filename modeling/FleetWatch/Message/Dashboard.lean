import FleetWatch.Metrics.Compact

/-!
# Messages to dashboards

A full view of all hosts, and deltas that hold what changed.

## Main definitions

* `ServerView`: a host as it is shown.
* `DeltaRecord`: what changed of one host.
* `Message.ToDashboard`: the messages.
-/
namespace FleetWatch

open Wire

/-- A host as it is shown. -/
structure ServerView where
  id : String
  name : String
  location : String
  provider : String
  tag : String
  online : Bool
  version : Option String
  metrics : Option Snapshot
deriving DecidableEq

def ServerView.schema : Schema ServerView :=
  .record
    (.cons "id" .text .required <|
     .cons "name" .text .required <|
     .cons "location" .text .required <|
     .cons "provider" .text .required <|
     .cons "tag" .text .required <|
     .cons "online" .flag .required <|
     .cons "version" (.option .text) .optional <|
     .cons "metrics" (.option Snapshot.schema) .optional .nil)
    ⟨fun (id, name, location, provider, tag, online, version, metrics, ()) =>
      { id, name, location, provider, tag, online, version, metrics },
     fun v => (v.id, v.name, v.location, v.provider, v.tag, v.online, v.version, v.metrics, ()),
     fun _ => rfl⟩

/-- What changed of one host: its online flag if that turned, and the changed fields. -/
structure DeltaRecord where
  id : String
  online : Option Bool
  fields : Compact
deriving DecidableEq

def DeltaRecord.schema : Schema DeltaRecord :=
  .split
    (.cons "id" .text .required <| .cons "on" (.option .flag) .optional .nil)
    Compact.fields
    ⟨fun ((id, online, ()), parts) => { id, online, fields := Compact.view.make parts },
     fun r => ((r.id, r.online, ()), Compact.view.parts r.fields), fun _ => rfl⟩

namespace Message

/-- What a dashboard is sent; `ts` is the time in milliseconds since 1970. -/
inductive ToDashboard where
  | full (seq : UInt64) (ts : Int64) (servers : List ServerView)
  | delta (seq : UInt64) (ts : Int64) (records : List DeltaRecord)
deriving DecidableEq

def ToDashboard.schema : Schema ToDashboard :=
  .tagged "type" <|
    .cons "full"
      (.cons "seq" .word64 .required <|
       .cons "ts" .int64 .required <|
       .cons "servers" (.list ServerView.schema) .required .nil)
      (fun (seq, ts, servers, ()) => .full seq ts servers)
      (fun | .full seq ts servers => some (seq, ts, servers, ()) | _ => none)
      (fun a b h => by cases a <;> cases h; rfl) <|
    .cons "delta"
      (.cons "seq" .word64 .required <|
       .cons "ts" .int64 .required <|
       .cons "d" (.list DeltaRecord.schema) .required .nil)
      (fun (seq, ts, records, ()) => .delta seq ts records)
      (fun | .delta seq ts records => some (seq, ts, records, ()) | _ => none)
      (fun a b h => by cases a <;> cases h; rfl) .nil

end Message
end FleetWatch
