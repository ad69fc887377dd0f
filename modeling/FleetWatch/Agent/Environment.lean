import FleetWatch.Text.Blank
import FleetWatch.Text.Natural

/-!
# The environment of an agent

What an agent is told by its environment variables. A variable that is not valid text counts as not
set.

## Main definitions

* `Agent.Environment`, `Agent.Environment.ofVariables`.
-/
namespace FleetWatch.Agent

/-- What an agent is told. -/
structure Environment where
  hubUrl : String
  serverId : Option String
  token : Option String
  intervalSecs : UInt64

/-- Where the hub is expected when nothing is said about it. -/
def defaultHubUrl : String := "ws://127.0.0.1:3001/ws/agent"

/-- The seconds between two readings: a positive number, otherwise one. -/
def intervalOf (text : Option String) : UInt64 :=
  match text.bind fun s => Text.parseWord64? (Text.trim s) with
  | some n => if 0 < n then n else 1
  | none => 1

/-- The environment given by variables; each is looked up by name and holds bytes. -/
def Environment.ofVariables (lookup : String → Option ByteArray) : Environment :=
  let text (name : String) : Option String := (lookup name).bind String.fromUTF8?
  { hubUrl := (text "HUB_URL").getD defaultHubUrl
    serverId := text "AGENT_SERVER_ID"
    token := text "AGENT_TOKEN"
    intervalSecs := intervalOf (text "AGENT_INTERVAL") }

end FleetWatch.Agent
