import FleetWatch.Error
import Std.Data.TreeMap

/-!
# The server directory

The configured servers and what has been learnt about them. Any of its calls may be out of service;
a call that is fails and changes nothing.

## Main definitions

* `Directory`, `Directory.ofConfig`.
* `Directory.Call`: the calls that can be out of service.
* `Directory.resolveToken`, `Directory.profile`, `Directory.profiles`, `Directory.probeTargets`,
  `Directory.recordVersion`, `Directory.recordIp`.
-/
namespace FleetWatch

inductive Directory.Call where
  | resolveToken
  | profile
  | profiles
  | probeTargets
  | recordVersion
  | recordIp
deriving DecidableEq, Repr

/-- The configured servers: their ids in order of configuration, and the profile of each id. -/
structure Directory where
  order : List String := []
  servers : Std.TreeMap String Profile := {}
  targets : List ProbeTarget := []
  /-- The calls that fail. -/
  outages : List Directory.Call := []

namespace Directory

/-- The directory of a list of profiles; of profiles with one id the last counts, and it is listed
as often as the id occurs. -/
def new (servers : List Profile) (targets : List ProbeTarget) : Directory where
  order := servers.map Profile.id
  servers := servers.foldl (fun m p => m.insert p.id p) {}
  targets

def ofConfig (c : Config) : Directory := new c.servers c.pingTargets

/-- The answer to a call, unless it is out of service. -/
def answer {α : Type} (d : Directory) (call : Call) (a : α) : Except HubError α :=
  if call ∈ d.outages then .error (.unavailable "connection refused") else .ok a

@[simp] theorem answer_eq_ok_iff {α : Type} (d : Directory) (call : Call) (a b : α) :
    d.answer call a = .ok b ↔ call ∉ d.outages ∧ a = b := by
  unfold answer; split <;> simp_all

/-- The profile of a host as it stands, in service or not. -/
def find? (d : Directory) (hostId : String) : Option Profile := d.servers[hostId]?

/-- The profiles in order of configuration as they stand. -/
def list (d : Directory) : List Profile := d.order.filterMap d.find?

/-- The token that an agent for a host has to present. -/
def resolveToken (d : Directory) (hostId : String) : Except HubError (Option String) :=
  d.answer .resolveToken ((d.find? hostId).map Profile.token)

def profile (d : Directory) (hostId : String) : Except HubError (Option Profile) :=
  d.answer .profile (d.find? hostId)

def profiles (d : Directory) : Except HubError (List Profile) := d.answer .profiles d.list

def probeTargets (d : Directory) : Except HubError (List ProbeTarget) :=
  d.answer .probeTargets d.targets

def update (d : Directory) (hostId : String) (f : Profile → Profile) : Directory :=
  match d.find? hostId with
  | some p => { d with servers := d.servers.insert hostId (f p) }
  | none => d

def recordVersion (d : Directory) (hostId version : String) : Except HubError Directory :=
  d.answer .recordVersion (d.update hostId fun p => { p with version := some version })

def recordIp (d : Directory) (hostId ip : String) : Except HubError Directory :=
  d.answer .recordIp (d.update hostId fun p => { p with ip := some ip })

@[simp] theorem find?_update (d : Directory) (h k : String) (f : Profile → Profile) :
    (d.update h f).find? k = if h = k then (d.find? k).map f else d.find? k := by
  unfold update
  split
  · next p hp =>
    unfold find? at *
    by_cases e : h = k
    · subst e; simp [hp]
    · simp [Std.TreeMap.getElem?_insert, e]
  · next hp =>
    by_cases e : h = k
    · subst e; simp [hp]
    · simp [e]

@[simp] theorem order_update (d : Directory) (h : String) (f : Profile → Profile) :
    (d.update h f).order = d.order := by
  unfold update; split <;> rfl

end Directory
end FleetWatch
