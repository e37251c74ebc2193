import CrashCore.Common.Rounding
import CrashCore.Common.Types

/-! How long a client waits before it connects again (`ingestion/reconnect_policy.hpp`), and a WebSocket session that connects,
loses the connection and tries again (`ingestion/websocket/websocket_session.hpp`). `draw` is what the distribution of the
jitter gives; products are exact.

The transport of the session is the Beast connection (`ingestion/websocket/beast_connection.hpp`), which reads on a thread
of its own, or the plain one (`ingestion/websocket/websocket_connection.hpp`). A turn of the pump that `stop` interrupts
does nothing. Metrics and the last error are left out: nothing here reads them. -/

namespace CrashCore

structure ReconnectPolicy where
  baseMs : Int := 500
  maxMs : Int := 30000
  wafBackoffMs : Int := 12000
  jitterRatio : Double := 2 / 10

namespace ReconnectPolicy

/-- The attempt, not below zero and not above 20. -/
def shift (attempt : Int) : Nat :=
  let attempt := if attempt < 0 then 0 else attempt
  let attempt := if 20 < attempt then 20 else attempt
  attempt.toNat

def applyJitter (p : ReconnectPolicy) (delay : Int) (draw : Double) : Int :=
  if p.jitterRatio ≤ 0 then delay else max 1 (Double.truncate (delay * draw))

def delayMs (p : ReconnectPolicy) (attempt : Int) (wafBlocked : Bool) (draw : Double) : Int :=
  if wafBlocked then p.wafBackoffMs
  else
    let d := p.baseMs * 2 ^ shift attempt
    let d := if p.maxMs < d then p.maxMs else d
    p.applyJitter d draw

end ReconnectPolicy

/-! ### The session -/

structure WebSocketConfig where
  reconnectBaseMs : Int := 500
  reconnectMaxMs : Int := 30000
  maxReconnectAttempts : Int := 50
  autoReconnect : Bool := true
  beast : Bool := true

/-- The wait after so many failures. -/
def WebSocketConfig.delayMs (cfg : WebSocketConfig) (consecutiveFails : Nat) : Int :=
  min cfg.reconnectMaxMs (cfg.reconnectBaseMs * 2 ^ min consecutiveFails 10)

namespace WebSocketSession

/-- What a connect meets. -/
inductive Handshake
  | failed
  /-- The server is there, and a frame of the join cannot be sent. -/
  | notJoined
  /-- The connection may be lost again before the session knows that it is up. -/
  | joined (lost : Bool)
deriving DecidableEq

structure State where
  running : Bool := false
  connected : Bool := false
  /-- `conn_->connected()`. -/
  transport : Bool := false
  /-- `io_thread_` is joinable. -/
  ioThread : Bool := false
  consecutiveFails : Nat := 0
  reconnects : Nat := 0
  /-- The program has ended in `std::terminate`. -/
  terminated : Bool := false
  /-- Bookkeeping: the waits since the session was connected. -/
  waits : List Int := []

inductive Act
  | start (h : Handshake)
  /-- The other side closes the connection, or the network does. -/
  | drop
  | turn (h : Handshake)
  | stop
deriving DecidableEq

/-- `conn_->close()`, which joins the thread. -/
def close (s : State) : State :=
  { s with transport := false, ioThread := false, connected := s.connected && !s.transport }

/-- `conn_->connect()`. A thread is not assigned to one that is still joinable. -/
def connect (cfg : WebSocketConfig) (s : State) (h : Handshake) : State × Bool :=
  if s.transport then (s, true)
  else if h = .failed then (s, false)
  else if cfg.beast ∧ s.ioThread then ({ s with terminated := true }, false)
  else ({ s with transport := true, ioThread := cfg.beast }, true)

def doConnect (cfg : WebSocketConfig) (s : State) (h : Handshake) : State × Bool :=
  match connect cfg s h with
  | (s, false) => (s, false)
  | (s, true) =>
    match h with
    | .joined lost => ({ s with connected := true, consecutiveFails := 0, transport := !lost, waits := [] }, true)
    | _ => (close s, false)

def attemptReconnect (cfg : WebSocketConfig) (s : State) (h : Handshake) : State :=
  if cfg.maxReconnectAttempts ≤ s.consecutiveFails then s
  else
    (doConnect cfg
      { s with
        consecutiveFails := s.consecutiveFails + 1
        reconnects := s.reconnects + 1
        waits := s.waits ++ [cfg.delayMs s.consecutiveFails] } h).1

def step (cfg : WebSocketConfig) (s : State) (a : Act) : Option State :=
  if s.terminated then none
  else
    match a with
    | .start h =>
      if s.running then some s
      else
        match doConnect cfg { s with running := true } h with
        | (s, true) => some s
        | (s, false) => some { s with running := false }
    | .drop => if s.transport then some { s with transport := false, connected := false } else none
    | .turn h =>
      if ¬(s.running ∧ cfg.autoReconnect) then none
      else if s.transport then some s
      else some (attemptReconnect cfg { s with connected := false } h)
    | .stop => some { close { s with running := false } with connected := false }

end WebSocketSession
end CrashCore
