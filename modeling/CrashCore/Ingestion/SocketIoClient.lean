import CrashCore.Ingestion.SocketIoProtocol

/-! The heartbeat of the Socket.IO client (`ingestion/heartbeat/heartbeat_monitor.hpp`,
`ingestion/socketio/socketio_client.hpp`).

A call has one clock reading. What an open frame says of the session, and the handlers of frames and packets, are left
out; what goes to `send_` is kept for the record. -/

namespace CrashCore
namespace Constants

def HEARTBEAT_INTERVAL_MS : Int := 25000
def HEARTBEAT_TIMEOUT_MS : Int := 60000
def BC_SOCKET_NSP : String := "/g/cm"

end Constants

structure HeartbeatState where
  lastPingMs : TimestampMs := 0
  lastPongMs : TimestampMs := 0
  pingsSent : Nat := 0
  pongsReceived : Nat := 0
  timedOut : Bool := false

structure HeartbeatMonitor where
  intervalMs : Int := Constants.HEARTBEAT_INTERVAL_MS
  timeoutMs : Int := Constants.HEARTBEAT_TIMEOUT_MS
  state : HeartbeatState := {}

namespace HeartbeatMonitor

def onPingSent (h : HeartbeatMonitor) (now : TimestampMs) : HeartbeatMonitor :=
  { h with state := { h.state with lastPingMs := now, pingsSent := h.state.pingsSent + 1 } }

def onPongReceived (h : HeartbeatMonitor) (now : TimestampMs) : HeartbeatMonitor :=
  { h with
    state := { h.state with lastPongMs := now, pongsReceived := h.state.pongsReceived + 1, timedOut := false } }

/-- The last ping is older than the timeout, and no pong has come since. -/
def Lost (h : HeartbeatMonitor) (now : TimestampMs) : Prop :=
  0 < h.state.lastPingMs ∧ h.timeoutMs < now - h.state.lastPingMs ∧ h.state.lastPongMs < h.state.lastPingMs

instance (h : HeartbeatMonitor) (now : TimestampMs) : Decidable (h.Lost now) := inferInstanceAs (Decidable (_ ∧ _))

/-- The result is false when it reports a timeout. -/
def check (h : HeartbeatMonitor) (now : TimestampMs) : HeartbeatMonitor × Bool :=
  if h.Lost now then ({ h with state := { h.state with timedOut := true } }, false) else (h, true)

def shouldPing (h : HeartbeatMonitor) (now : TimestampMs) : Bool :=
  if h.state.lastPingMs = 0 then true else decide (h.intervalMs ≤ now - h.state.lastPingMs)

end HeartbeatMonitor

structure SocketIoClient where
  heartbeat : HeartbeatMonitor := {}
  /-- `send_` is set. -/
  canSend : Bool := false
  connected : Bool := false
  joined : Bool := false
  framesRx : Nat := 0
  opens : Nat := 0
  joins : Nat := 0
  sent : List Bytes := []

namespace SocketIoClient

def setSend (c : SocketIoClient) : SocketIoClient := { c with canSend := true }

/-- Join crash namespace and room; `connectOk` and `joinOk` are the results of `send_`. -/
def joinCrashNamespace (c : SocketIoClient) (connectOk joinOk : Bool) : SocketIoClient × Except Error Unit :=
  if ¬c.canSend then (c, .error ⟨.internalError, "send not configured"⟩)
  else
    let c := { c with sent := c.sent ++ [encodeConnect (ascii Constants.BC_SOCKET_NSP)] }
    if ¬connectOk then (c, .error ⟨.networkError, "connect frame send failed"⟩)
    else
      let c := { c with sent := c.sent ++ [encodeJoin (ascii Constants.BC_SOCKET_NSP) (ascii "join")] }
      if ¬joinOk then (c, .error ⟨.networkError, "join frame send failed"⟩)
      else ({ c with joined := true, connected := true, joins := c.joins + 1 }, .ok ())

/-- Handle an inbound Engine.IO frame. -/
def onBinaryFrame (c : SocketIoClient) (data : Bytes) (now : TimestampMs) : SocketIoClient :=
  let c := { c with framesRx := c.framesRx + 1 }
  if data = [] then c
  else if Engineio.isPing data then
    let c := { c with heartbeat := c.heartbeat.onPingSent now }
    if c.canSend then { c with sent := c.sent ++ [[0x33]], heartbeat := c.heartbeat.onPongReceived now } else c
  else if Engineio.isPong data then { c with heartbeat := c.heartbeat.onPongReceived now }
  else if Engineio.isOpenFrame data then { c with opens := c.opens + 1 }
  else if Engineio.isClose data then { c with connected := false, joined := false }
  else c

/-- Send ping if due. -/
def ping (c : SocketIoClient) (now : TimestampMs) : SocketIoClient :=
  if c.heartbeat.shouldPing now ∧ c.canSend then
    { c with sent := c.sent ++ [[0x32]], heartbeat := c.heartbeat.onPingSent now }
  else c

/-- Periodic tick: send ping if due, check timeout. The flag is true when `check` reports a timeout. -/
def tick (c : SocketIoClient) (now : TimestampMs) : SocketIoClient × Bool :=
  if ¬c.connected then (c, false)
  else
    let c := c.ping now
    let (heartbeat, alive) := c.heartbeat.check now
    ({ c with heartbeat }, !alive)

end SocketIoClient
end CrashCore
