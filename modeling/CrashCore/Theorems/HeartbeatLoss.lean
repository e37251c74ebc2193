import CrashCore.Ingestion.SocketIoClient
import CrashCore.Ingestion.SocketIoProtocol

/-! Whether the loss of the heartbeat is detected. A tick pings before it checks, and the ping renews the time that the
check measures from: the timeout never passes. -/

namespace CrashCore
namespace SocketIoClient

variable {c : SocketIoClient} {now : TimestampMs} {data : Bytes}

/-- A tick, and the frames that come in before it. -/
structure Turn where
  frames : List (Bytes × TimestampMs) := []
  now : TimestampMs

def receive (c : SocketIoClient) (frames : List (Bytes × TimestampMs)) : SocketIoClient :=
  frames.foldl (fun c f => c.onBinaryFrame f.1 f.2) c

/-- The client after the first `n` turns. -/
def after (c : SocketIoClient) (turns : Nat → Turn) : Nat → SocketIoClient
  | 0 => c
  | n + 1 => ((receive (after c turns n) (turns n).frames).tick (turns n).now).1

/-- The tick of turn `n` reports a timeout. -/
def Reports (c : SocketIoClient) (turns : Nat → Turn) (n : Nat) : Prop :=
  ((receive (after c turns n) (turns n).frames).tick (turns n).now).2 = true

/-- The ticks of a connected client are at most one interval apart, and neither a pong nor a ping nor a close comes
    in. -/
structure Silence (c : SocketIoClient) (turns : Nat → Turn) : Prop where
  connected : c.connected = true
  canSend : c.canSend = true
  forward : ∀ n, (turns n).now ≤ (turns (n + 1)).now
  spaced : ∀ n, (turns (n + 1)).now ≤ (turns n).now + c.heartbeat.intervalMs
  silent : ∀ n, ∀ f ∈ (turns n).frames, ¬Engineio.isPing f.1 ∧ ¬Engineio.isPong f.1 ∧ ¬Engineio.isClose f.1

/-- Some tick reports the timeout within the timeout and two intervals from `since` on, the time of the last pong or of
    the first ping. -/
def Detects (c : SocketIoClient) (turns : Nat → Turn) (since : TimestampMs) : Prop :=
  ∃ n, (turns n).now ≤ since + c.heartbeat.timeoutMs + 2 * c.heartbeat.intervalMs ∧ Reports c turns n

/-! ### What a turn does to the thresholds -/

/-- The client sends, with the given interval and timeout. -/
structure Pings (intervalMs timeoutMs : Int) (c : SocketIoClient) : Prop where
  canSend : c.canSend = true
  interval : c.heartbeat.intervalMs = intervalMs
  timeout : c.heartbeat.timeoutMs = timeoutMs

variable {intervalMs timeoutMs : Int}

theorem Pings.onBinaryFrame (h : Pings intervalMs timeoutMs c) : Pings intervalMs timeoutMs (c.onBinaryFrame data now) := by
  obtain ⟨hsend, hinterval, htimeout⟩ := h
  unfold SocketIoClient.onBinaryFrame
  dsimp only
  repeat' split
  all_goals exact ⟨hsend, hinterval, htimeout⟩

theorem Pings.receive (h : Pings intervalMs timeoutMs c) (frames : List (Bytes × TimestampMs)) :
    Pings intervalMs timeoutMs (receive c frames) := by
  induction frames generalizing c with
  | nil => exact h
  | cons f frames ih => exact ih h.onBinaryFrame

theorem Pings.ping (h : Pings intervalMs timeoutMs c) (now : TimestampMs) : Pings intervalMs timeoutMs (c.ping now) := by
  obtain ⟨hsend, hinterval, htimeout⟩ := h
  unfold SocketIoClient.ping
  split <;> exact ⟨hsend, hinterval, htimeout⟩

theorem Pings.tick (h : Pings intervalMs timeoutMs c) (now : TimestampMs) : Pings intervalMs timeoutMs (c.tick now).1 := by
  obtain ⟨hsend, hinterval, htimeout⟩ := h.ping now
  unfold SocketIoClient.tick HeartbeatMonitor.check
  split
  · exact h
  · dsimp only
    split <;> exact ⟨hsend, hinterval, htimeout⟩

theorem Pings.after (h : Pings intervalMs timeoutMs c) (turns : Nat → Turn) :
    ∀ n, Pings intervalMs timeoutMs (after c turns n)
  | 0 => h
  | n + 1 => ((Pings.after h turns n).receive _).tick _

/-! ### No tick reports a timeout -/

theorem ping_of_due (h : Pings intervalMs timeoutMs c) (hdue : c.heartbeat.shouldPing now = true) :
    (c.ping now).heartbeat = c.heartbeat.onPingSent now := by
  rw [SocketIoClient.ping, if_pos ⟨hdue, h.canSend⟩]

theorem ping_of_not_due (hdue : ¬c.heartbeat.shouldPing now = true) : c.ping now = c :=
  if_neg fun hc => hdue hc.1

theorem lt_of_not_due {m : HeartbeatMonitor} (hdue : ¬m.shouldPing now = true) :
    now - m.state.lastPingMs < m.intervalMs := by
  unfold HeartbeatMonitor.shouldPing at hdue
  split at hdue
  · exact absurd rfl hdue
  · exact Int.not_le.mp fun hle => hdue (decide_eq_true hle)

/-- After `ping` the last ping is either just now or less than an interval ago. -/
theorem not_lost_ping (h : Pings intervalMs timeoutMs c) (hlt : intervalMs < timeoutMs) (hpos : 0 ≤ timeoutMs) :
    ¬(c.ping now).heartbeat.Lost now := by
  rintro ⟨-, hpassed, -⟩
  rw [(h.ping now).timeout] at hpassed
  by_cases hdue : c.heartbeat.shouldPing now = true
  · rw [ping_of_due h hdue] at hpassed
    simp only [HeartbeatMonitor.onPingSent, sub_self] at hpassed
    omega
  · have hrecent := lt_of_not_due hdue
    rw [ping_of_not_due hdue] at hpassed
    rw [h.interval] at hrecent
    exact lt_asymm hlt (hpassed.trans hrecent)

theorem tick_quiet (h : Pings intervalMs timeoutMs c) (hlt : intervalMs < timeoutMs) (hpos : 0 ≤ timeoutMs)
    (now : TimestampMs) : (c.tick now).2 = false := by
  unfold SocketIoClient.tick HeartbeatMonitor.check
  split
  · rfl
  · dsimp only
    rw [if_neg (not_lost_ping h hlt hpos)]
    rfl

theorem Silence.not_reports {turns : Nat → Turn} (h : Silence c turns)
    (hlt : c.heartbeat.intervalMs < c.heartbeat.timeoutMs) (n : Nat) : ¬Reports c turns n := by
  intro hreports
  have hinterval : 0 ≤ c.heartbeat.intervalMs := (le_add_iff_nonneg_right _).mp ((h.forward 0).trans (h.spaced 0))
  have hpings : Pings c.heartbeat.intervalMs c.heartbeat.timeoutMs c := ⟨h.canSend, rfl, rfl⟩
  have hquiet := tick_quiet ((hpings.after turns n).receive (turns n).frames) hlt (by omega) (turns n).now
  exact Bool.false_ne_true (hquiet.symm.trans hreports)

/-- No run of ticks detects the loss. -/
theorem not_detects {turns : Nat → Turn} (hlt : c.heartbeat.intervalMs < c.heartbeat.timeoutMs) (h : Silence c turns)
    (since : TimestampMs) : ¬Detects c turns since :=
  fun ⟨n, _, hreports⟩ => h.not_reports hlt n hreports

/-! ### A client that has joined -/

def joinedClient : SocketIoClient := ((({} : SocketIoClient).setSend).joinCrashNamespace true true).1

/-- A tick at each interval, and nothing comes in. -/
def quietTurns (n : Nat) : Turn := { now := 1700000000000 + 25000 * n }

theorem silence_quietTurns : Silence joinedClient quietTurns where
  connected := rfl
  canSend := rfl
  forward n := by
    show (1700000000000 + 25000 * n : Int) ≤ 1700000000000 + 25000 * (n + 1 : Nat)
    omega
  spaced n := by
    show (1700000000000 + 25000 * (n + 1 : Nat) : Int) ≤ 1700000000000 + 25000 * n + 25000
    omega
  silent n f hf := absurd hf List.not_mem_nil

theorem not_detects_joined : joinedClient.heartbeat.intervalMs < joinedClient.heartbeat.timeoutMs ∧
    ¬Detects joinedClient quietTurns 1700000000000 :=
  ⟨by decide, not_detects (by decide) silence_quietTurns _⟩

/-- The first ping goes out at the first tick, no pong comes, and none of the ticks in the next 110 s, or ever after,
    reports the timeout of 60 s. -/
theorem not_detects_quiet : joinedClient.heartbeat.intervalMs = 25000 ∧ joinedClient.heartbeat.timeoutMs = 60000 ∧
    Silence joinedClient quietTurns ∧ (after joinedClient quietTurns 1).heartbeat.state.pingsSent = 1 ∧
    ¬Detects joinedClient quietTurns (quietTurns 0).now :=
  ⟨rfl, rfl, silence_quietTurns, rfl, fun ⟨n, _, hreports⟩ => silence_quietTurns.not_reports (by decide) n hreports⟩

end SocketIoClient
end CrashCore
