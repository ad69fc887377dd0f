import FleetWatch.Config
import FleetWatch.Metrics.Snapshot

/-!
# Messages between agents and the hub

Text frames tagged by `type`.

## Main definitions

* `Command`: an instruction for an agent.
* `Message.FromAgent`: authentication and readings.
* `Message.ToAgent`: the answer to an authentication, errors and commands.
-/
namespace FleetWatch

open Wire

/-- An instruction for an agent. -/
structure Command where
  action : String
  payload : Option Json.Value

namespace Command

def fields :=
  Fields.cons "action" .text .required <| .cons "payload" (.option .free) .optional .nil

def schema : Schema Command :=
  .record fields
    ⟨fun (action, payload, ()) => { action, payload }, fun c => (c.action, c.payload, ()),
     fun _ => rfl⟩

end Command

namespace Message

/-- What an agent sends. -/
inductive FromAgent where
  | auth (serverId token : String) (version : Option String)
  | metrics (reading : Snapshot) (serverId version token : Option String)
deriving DecidableEq

def FromAgent.schema : Schema FromAgent :=
  .tagged "type" <|
    .cons "auth"
      (.cons "server_id" .text .required <|
       .cons "token" .text .required <|
       .cons "version" (.option .text) .optional .nil)
      (fun (serverId, token, version, ()) => .auth serverId token version)
      (fun
        | .auth serverId token version => some (serverId, token, version, ())
        | _ => none)
      (fun a b h => by cases a <;> cases h; rfl) <|
    .cons "metrics"
      (.cons "metrics" Snapshot.schema .required <|
       .cons "server_id" (.option .text) .optional <|
       .cons "version" (.option .text) .optional <|
       .cons "token" (.option .text) .optional .nil)
      (fun (reading, serverId, version, token, ()) => .metrics reading serverId version token)
      (fun
        | .metrics reading serverId version token => some (reading, serverId, version, token, ())
        | _ => none)
      (fun a b h => by cases a <;> cases h; rfl) .nil

/-- The outcome of an authentication. -/
inductive AuthStatus where
  | ok
  | error
deriving DecidableEq

namespace AuthStatus

def names : List (String × AuthStatus) := [("ok", .ok), ("error", .error)]

def name : AuthStatus → String
  | ok => "ok"
  | error => "error"

def schema : Schema AuthStatus := .choice names name (fun a => by cases a <;> decide)

end AuthStatus

/-- What the hub sends to an agent. -/
inductive ToAgent where
  | auth (status : AuthStatus) (message : Option String) (pingTargets : List ProbeTarget)
  | error (message : String)
  | command (c : Command)

namespace ToAgent

/-- The agent is accepted and told what to probe. -/
def accepted (pingTargets : List ProbeTarget) : ToAgent := .auth .ok none pingTargets

/-- The agent is refused. -/
def rejected (reason : String) : ToAgent := .auth .error (some reason) []

def schema : Schema ToAgent :=
  .tagged "type" <|
    .cons "auth"
      (.cons "status" AuthStatus.schema .required <|
       .cons "message" (.option .text) .optional <|
       .cons "ping_targets" (.list ProbeTarget.schema) .nonempty .nil)
      (fun (status, message, pingTargets, ()) => .auth status message pingTargets)
      (fun
        | .auth status message pingTargets => some (status, message, pingTargets, ())
        | _ => none)
      (fun a b h => by cases a <;> cases h; rfl) <|
    .cons "error" (.cons "message" .text .required .nil)
      (fun (message, ()) => .error message)
      (fun | .error message => some (message, ()) | _ => none)
      (fun a b h => by cases a <;> cases h; rfl) <|
    .cons "command" Command.fields
      (fun (action, payload, ()) => .command { action, payload })
      (fun | .command c => some (c.action, c.payload, ()) | _ => none)
      (fun a b h => by cases a <;> cases h; rfl) .nil

end ToAgent
end Message
end FleetWatch
