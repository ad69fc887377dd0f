import FleetWatch.Proofs.Interleaving.System

/-!
# Live state is what the log says

Throughout every run, live state is the outcome of the log, and everything that was read of it is a
reading of the log.

## Main definitions

* `Copied`: the entries of the agents were copied at a length of the log.
* `Recorded`: the invariant.
-/
namespace FleetWatch.Interleaving

/-- The entries of the agents were copied when the log had a length. -/
def Copied (agents : Entries) (agentsAt : Nat) (log : List Write) : Prop :=
  agentsAt ≤ log.length ∧ agents = agentEntries (log.take agentsAt)

theorem Copied.append {agents : Entries} {agentsAt : Nat} {log : List Write}
    (h : Copied agents agentsAt log) (w : Write) : Copied agents agentsAt (log ++ [w]) := by
  obtain ⟨hlen, hagents⟩ := h
  refine ⟨by rw [List.length_append]; omega, ?_⟩
  rw [hagents, List.take_append_of_le_length hlen]

theorem Copied.isOf {agents : Entries} {agentsAt : Nat} {log : List Write}
    (h : Copied agents agentsAt log) : Reading.IsOf ⟨agentsAt, log.length⟩ log :=
  ⟨h.1, Nat.le_refl _⟩

/-- A copy with the present entry of the hub's own machine added is a reading. -/
theorem Copied.entries {agents : Entries} {agentsAt : Nat} {log : List Write}
    (h : Copied agents agentsAt log) :
    LiveStore.consolidated ⟨agents⟩ (ownEntry log) =
      Reading.entries ⟨agentsAt, log.length⟩ log := by
  rw [Reading.entries, h.2, List.take_length]

/-- What a tick has read is what the log says. -/
def Tick.Recorded (log : List Write) : Tick → Prop
  | .idle => True
  | .copied agents agentsAt => Copied agents agentsAt log
  | .found _ reading _ => reading.IsOf log
  | .numbered d | .handed d => d.reading.IsOf log

/-- What an attachment has read is what the log says, and its views are those of its reading. -/
def Stage.Recorded (settings : Settings) (log : List Write) : Stage → Prop
  | .registered | .numbered _ => True
  | .copied _ agents agentsAt => Copied agents agentsAt log
  | .shown _ reading now views =>
    reading.IsOf log ∧
      ∃ profiles, views = Dashboard.allViews settings profiles (reading.entries log) now

theorem Tick.Recorded.append {t : Tick} {log : List Write} (h : t.Recorded log) (w : Write) :
    t.Recorded (log ++ [w]) := by
  cases t with
  | idle => trivial
  | copied agents agentsAt => exact Copied.append h w
  | found now reading changes => exact Reading.IsOf.append h w
  | numbered d => exact Reading.IsOf.append h w
  | handed d => exact Reading.IsOf.append h w

theorem Stage.Recorded.append {settings : Settings} {t : Stage} {log : List Write}
    (h : t.Recorded settings log) (w : Write) : t.Recorded settings (log ++ [w]) := by
  cases t with
  | registered => trivial
  | numbered seq => trivial
  | copied seq agents agentsAt => exact Copied.append h w
  | shown seq reading now views =>
    obtain ⟨hread, profiles, hviews⟩ := h
    exact ⟨hread.append w, profiles, by rw [hread.entries_append w]; exact hviews⟩

/-- Live state is the outcome of the log, and what was read of it is a reading of the log. -/
structure Recorded (s : System) : Prop where
  live : s.hub.live.entries = agentEntries s.log
  own : s.hub.localEntry = ownEntry s.log
  owned : OwnedBy s.machine s.log
  tick : s.tick.Recorded s.log
  deltas : ∀ d ∈ s.deltas, d.reading.IsOf s.log
  attachments : ∀ a ∈ s.attachments, a.stage.Recorded s.hub.settings s.log
  lastTick : ∀ now reading, s.lastTick = some (now, reading) → reading.IsOf s.log

namespace Recorded

theorem start (machine : String) (settings : Settings) (directory : Directory) (capacity : Nat) :
    Recorded (.start machine settings directory capacity) where
  live := rfl
  own := rfl
  owned := by simp [System.start, OwnedBy]
  tick := trivial
  deltas := by simp [System.start]
  attachments := by simp [System.start]
  lastTick := by simp [System.start]

theorem tick_of_eq {s : System} (h : Recorded s) {t : Tick} (ht : s.tick = t) :
    t.Recorded s.log := by
  rw [← ht]
  exact h.tick

theorem advance {s : System} (h : Recorded s) (profiles : List Profile) (now : Time.Instant)
    {a : Attachment} (ha : a.stage.Recorded s.hub.settings s.log) :
    (s.advance profiles now a).stage.Recorded s.hub.settings s.log := by
  obtain ⟨since, queued, received, stage⟩ := a
  cases stage with
  | registered => trivial
  | numbered seq => exact ⟨Nat.le_refl _, by rw [List.take_length]; exact h.live⟩
  | copied seq agents agentsAt =>
    refine ⟨Copied.isOf ha, profiles, ?_⟩
    rw [h.own, Copied.entries ha]
  | shown seq reading now views => exact ha

/-- One more write keeps what was read. -/
theorem write {s t : System} (h : Recorded s) (w : Write)
    (hlog : t.log = s.log ++ [w]) (hlive : t.hub.live.entries = agentEntries t.log)
    (hown : t.hub.localEntry = ownEntry t.log) (howned : OwnedBy t.machine t.log)
    (htick : t.tick = s.tick) (hdeltas : t.deltas = s.deltas)
    (hatt : t.attachments = s.attachments) (hset : t.hub.settings = s.hub.settings)
    (hlast : t.lastTick = s.lastTick) : Recorded t := by
  refine ⟨hlive, hown, howned, ?_, ?_, ?_, ?_⟩
  · rw [htick, hlog]
    exact h.tick.append w
  · rw [hdeltas, hlog]
    exact fun d hd => (h.deltas d hd).append w
  · rw [hatt, hset, hlog]
    exact fun a ha => (h.attachments a ha).append w
  · rw [hlast, hlog]
    exact fun now reading hl => (h.lastTick now reading hl).append w

theorem step {s t : System} (h : Recorded s) (hs : s.Step t) : Recorded t := by
  cases hs with
  | put hostId snapshot at_ =>
    refine h.write ⟨false, hostId, snapshot, at_⟩ rfl ?_ ?_ ?_ rfl rfl rfl rfl rfl
    · simp [Hub.putReading, LiveStore.put, h.live]
    · simpa [Hub.putReading, Hub.record] using h.own
    · exact h.owned.snoc fun hown => by simp at hown
  | putLocal snapshot at_ =>
    refine h.write ⟨true, s.machine, snapshot, at_⟩ rfl ?_ ?_ ?_ rfl rfl rfl rfl rfl
    · simpa [Hub.putLocalReading, Hub.setLocal, Hub.record] using h.live
    · simp [Hub.putLocalReading, Hub.setLocal]
    · exact h.owned.snoc fun _ => rfl
  | copy hidle =>
    refine ⟨h.live, h.own, h.owned, ?_, h.deltas, h.attachments, h.lastTick⟩
    exact ⟨Nat.le_refl _, by rw [List.take_length]; exact h.live⟩
  | findNothing now htick hnone =>
    refine ⟨h.live, h.own, h.owned, trivial, h.deltas, h.attachments, ?_⟩
    intro now' reading hl
    obtain ⟨rfl, rfl⟩ := Prod.mk.inj (Option.some.inj hl)
    exact Copied.isOf (h.tick_of_eq htick)
  | find now htick =>
    have hread := Copied.isOf (h.tick_of_eq htick)
    exact ⟨h.live, h.own, h.owned, hread, h.deltas, h.attachments, h.lastTick⟩
  | number htick =>
    have hread := h.tick_of_eq htick
    exact ⟨h.live, h.own, h.owned, hread, h.deltas, h.attachments, h.lastTick⟩
  | defer htick => exact ⟨h.live, h.own, h.owned, trivial, h.deltas, h.attachments, h.lastTick⟩
  | hand htick hoffer =>
    have hread := h.tick_of_eq htick
    refine ⟨h.live, h.own, h.owned, hread, ?_, h.attachments, ?_⟩
    · intro d hd
      rcases List.mem_append.mp hd with hd | hd
      · exact h.deltas d hd
      · rw [List.mem_singleton.mp hd]
        exact hread
    · intro now reading hl
      obtain ⟨rfl, rfl⟩ := Prod.mk.inj (Option.some.inj hl)
      exact hread
  | commit htick => exact ⟨h.live, h.own, h.owned, trivial, h.deltas, h.attachments, h.lastTick⟩
  | serve | receive =>
    refine ⟨h.live, h.own, h.owned, h.tick, h.deltas, ?_, h.lastTick⟩
    intro a ha
    obtain ⟨b, hb, rfl | rfl⟩ := exists_of_mem_modify ha
    · exact h.attachments a hb
    · exact h.attachments b hb
  | arrive origin =>
    refine ⟨h.live, h.own, h.owned, h.tick, h.deltas, ?_, h.lastTick⟩
    intro a ha
    rcases List.mem_append.mp ha with ha | ha
    · exact h.attachments a ha
    · rw [List.mem_singleton.mp ha]
      trivial
  | attach id profiles now =>
    refine ⟨h.live, h.own, h.owned, h.tick, h.deltas, ?_, h.lastTick⟩
    intro a ha
    obtain ⟨b, hb, rfl | rfl⟩ := exists_of_mem_modify ha
    · exact h.attachments a hb
    · exact h.advance profiles now (h.attachments b hb)
  | _ => exact ⟨h.live, h.own, h.owned, h.tick, h.deltas, h.attachments, h.lastTick⟩

end Recorded

end FleetWatch.Interleaving
