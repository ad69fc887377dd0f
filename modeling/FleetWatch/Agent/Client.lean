import FleetWatch.Message.Agent
import FleetWatch.Wire.Reader

/-!
# The agent's side of a connection

An agent authenticates itself first, whatever it is told before the answer to that it passes over.
Once it has been accepted it sends a reading at every tick and whenever it is told to refresh.

## Main definitions

* `Agent.Client`, `Agent.Client.Phase`.
* `Agent.Client.start`: the first frame.
* `Agent.Client.step`, `Agent.Client.advance`: what an event brings about.
-/
namespace FleetWatch.Agent

/-- Why a connection ends in failure. -/
inductive Client.Failure where
  | rejected (reason : Option String)
  | closedEarly
  | brokenEarly
  | broken
deriving DecidableEq

def Client.Failure.message : Client.Failure → String
  | rejected reason => "authentication rejected: " ++ reason.getD "no reason given"
  | closedEarly => "connection closed during authentication"
  | brokenEarly => "failed to read auth reply"
  | broken => "failed to read from hub"

/-- How far a connection has come. -/
inductive Client.Phase where
  | authenticating
  | streaming
  | ended (failure : Option Client.Failure)
deriving DecidableEq

/-- What happens to a connection. -/
inductive Client.Event where
  /-- A text frame arrives. -/
  | text (s : String)
  /-- A frame of another kind arrives. -/
  | other
  /-- The hub closes the connection. -/
  | close
  /-- The connection breaks. -/
  | cut
  /-- It is time for a reading. -/
  | tick

/-- The agent's side of a connection. -/
structure Client where
  phase : Client.Phase := .authenticating
  /-- What the agent has been told to probe. -/
  targets : List ProbeTarget := []

namespace Client

def version : String := "0.1.0"

/-- A connection and the frame it begins with. -/
def start (serverId token : String) : Client × Message.FromAgent :=
  ({}, .auth serverId token (some version))

def push (reading : Snapshot) : Message.FromAgent := .metrics reading none none none

/-- What a frame brings about while the agent waits for the answer to its authentication. -/
def answer (c : Client) (text : String) : Client :=
  match Message.ToAgent.schema.decode text with
  | .ok (.auth .ok _ targets) => { c with phase := .streaming, targets }
  | .ok (.auth .error reason _) => { c with phase := .ended (some (.rejected reason)) }
  | _ => c

/-- The frame asks for a reading. -/
def asksForReading (text : String) : Bool :=
  match Message.ToAgent.schema.decode text with
  | .ok (.command c) => c.action = "refresh"
  | _ => false

/-- What an event brings about, and the frames that are sent; `reading` is the agent's reading at
the time. -/
def step (c : Client) (reading : Snapshot) : Event → Client × List Message.FromAgent
  | .text s =>
    match c.phase with
    | .authenticating => (c.answer s, [])
    | .streaming => (c, if asksForReading s then [push reading] else [])
    | .ended _ => (c, [])
  | .other => (c, [])
  | .close =>
    match c.phase with
    | .authenticating => ({ c with phase := .ended (some .closedEarly) }, [])
    | .streaming => ({ c with phase := .ended none }, [])
    | .ended _ => (c, [])
  | .cut =>
    match c.phase with
    | .authenticating => ({ c with phase := .ended (some .brokenEarly) }, [])
    | .streaming => ({ c with phase := .ended (some .broken) }, [])
    | .ended _ => (c, [])
  | .tick =>
    match c.phase with
    | .streaming => (c, [push reading])
    | _ => (c, [])

/-- What an event brings about when ticks start with the acceptance: the first one comes with
that. -/
def advance (c : Client) (reading : Snapshot) (e : Event) : Client × List Message.FromAgent :=
  let (after, frames) := c.step reading e
  if c.phase = .authenticating && after.phase = .streaming then
    let (after, first) := after.step reading .tick
    (after, frames ++ first)
  else (after, frames)

end Client
end FleetWatch.Agent
