import FleetWatch.Session.Agent

/-!
# Connections of agents

The two sides of a connection as they take turns with the rest of the hub. The reader takes in one
frame after the other; an authentication is several steps of it, between which others may act. The
writer sends what waits, replies before commands.

## Main definitions

* `Connection`, `Connection.Reader`: a connection and how far its reader has come.
* `Connection.arrive`, `Connection.hangUp`: what comes over the wire.
* `Connection.read`, `Connection.write`: the next step of the reader and of the writer.
-/
namespace FleetWatch

open Queue

/-- What the writer is given. -/
inductive Connection.Outgoing where
  | frame (m : Message.ToAgent)
  | close

/-- How far a reader has come. -/
inductive Connection.Reader where
  /-- Waits for a frame. -/
  | ready
  /-- Has a message that is acted on in one step. -/
  | handling (m : Message.FromAgent)
  /-- The steps of an authentication. -/
  | checking (hostId token : String) (version : Option String)
  | entering (hostId : String) (version : Option String)
  | remembering (hostId : String) (version : Option String)
  | noting (hostId : String) (version : Option String)
  | gathering
  /-- Queues what is to be sent. -/
  | replying (waiting : List Connection.Outgoing)
  /-- Ends the session. -/
  | leaving
  | gone

/-- A connection with the frames that it has sent. -/
structure Connection where
  session : AgentSession
  reader : Connection.Reader := .ready
  replies : Bounded Connection.Outgoing := .empty 8
  writing : Bool := true
  written : List Message.ToAgent := []

namespace Connection

/-- What is sent after a message has been acted on. -/
def outgoing : Except HubError (Option Message.ToAgent) → List Outgoing
  | .ok reply => reply.toList.map .frame
  | .error e => e.reply?.toList.map .frame ++ if e.isFatal then [.close] else []

def start (h : Hub) (id : Session.Id) (remoteIp : Option Net.IpAddress) : Connection × Hub :=
  let (session, h) := AgentSession.start h id remoteIp
  ({ session }, h)

/-- A text frame arrives at a reader that waits for one. -/
def arrive (c : Connection) (text : String) : Connection :=
  match c.reader with
  | .ready =>
    if c.session.state = .closed then c
    else match Message.FromAgent.schema.decode text with
      | .error fault => { c with reader := .replying (outgoing (.error (.undecodable fault))) }
      | .ok (.auth hostId token version) =>
        if c.session.state = .connected then { c with reader := .checking hostId token version }
        else { c with reader := .handling (.auth hostId token version) }
      | .ok m => { c with reader := .handling m }
  | _ => c

def hangUp (c : Connection) : Connection :=
  match c.reader with
  | .ready => { c with reader := .leaving }
  | _ => c

/-- The next step of the reader. -/
def read (c : Connection) (h : Hub) (now : Time.Instant) : Connection × Hub :=
  match c.reader with
  | .ready | .gone => (c, h)
  | .handling m =>
    let (answer, session, h) := c.session.handle h now m
    ({ c with session, reader := .replying (outgoing answer) }, h)
  | .checking hostId token version =>
    match AgentSession.checkToken h.directory hostId token with
    | .error e =>
      ({ c with
        session := { c.session with state := .closed }
        reader := .replying (outgoing (.error e)) }, h)
    | .ok () => ({ c with reader := .entering hostId version }, h)
  | .entering hostId version =>
    let (session, h) := c.session.enter h hostId
    ({ c with session, reader := .remembering hostId version }, h)
  | .remembering hostId version =>
    ({ c with session := c.session.remember h hostId, reader := .noting hostId version }, h)
  | .noting hostId version =>
    let (session, h) := c.session.noteVersion? h hostId version
    ({ c with session, reader := .gathering }, h)
  | .gathering =>
    let reply := Message.ToAgent.accepted (AgentSession.probeTargets h)
    ({ c with reader := .replying (outgoing (.ok (some reply))) }, h)
  | .replying [] => ({ c with reader := .ready }, h)
  | .replying (o :: rest) =>
    if c.writing then
      match c.replies.offer? o, o with
      | some replies, .frame _ => ({ c with replies, reader := .replying rest }, h)
      | some replies, .close => ({ c with replies, reader := .leaving }, h)
      | none, _ => (c, h)
    else ({ c with reader := .leaving }, h)
  | .leaving =>
    let (session, h) := c.session.close h
    ({ c with session, reader := .gone }, { h with agents := h.agents.dropSession c.session.id })

/-- The writer ends, and nobody receives commands any more. -/
def endWriting (c : Connection) (h : Hub) : Connection × Hub :=
  ({ c with writing := false }, { h with agents := h.agents.dropReceiver c.session.id })

/-- The next step of the writer: a reply if one waits, and otherwise a command. -/
def write (c : Connection) (h : Hub) : Connection × Hub :=
  if c.writing then
    match c.replies.take? with
    | some (.frame m, replies) => ({ c with replies, written := c.written ++ [m] }, h)
    | some (.close, replies) => { c with replies }.endWriting h
    | none =>
      match c.reader with
      | .gone => c.endWriting h
      | _ =>
        match h.agents.receive c.session.id with
        | (some command, agents) =>
          ({ c with written := c.written ++ [.command command] }, { h with agents })
        | (none, agents) => (c, { h with agents })
  else (c, h)

end Connection
end FleetWatch
