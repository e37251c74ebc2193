import CrashCore.Config.TomlConfig
import CrashCore.Prediction.AdaptiveEdge
import CrashCore.PredictionInterface.InProcessSubmit

/-! The configuration of the application (`application/application_config.hpp`): how it configures the strategy
(`application/application.hpp`, `init`; the edge has been constructed before), and how it is read from a file
(`config/toml_config.hpp`). -/

namespace CrashCore

/-- The settings of the strategy. -/
structure ApplicationConfig where
  qualityEdge : Double := .nearest (2 / 100)
  reducedEdge : Double := .nearest (5 / 1000)
  minConfidence : Double := .nearest (55 / 100)

namespace ApplicationConfig

def setOptions (config : ApplicationConfig) (o : ClientOptions) : ClientOptions :=
  { o with
    minConfidence := config.minConfidence
    defaultTarget := .nearest (130 / 100)
    qualityEdge := config.qualityEdge
    reducedEdge := config.reducedEdge }

/-- The edge keeps the value that it was constructed with. -/
def setEdge (config : ApplicationConfig) (e : AdaptiveEdge) : AdaptiveEdge :=
  { e with config := { e.config with initialEdge := config.qualityEdge } }

/-- The edge that is attached to the client, constructed with `edgeConfig`, after some outcomes. -/
def attachedEdge (config : ApplicationConfig) (edgeConfig : AdaptiveEdgeConfig) (outcomes : List Outcome) :
    AdaptiveEdge :=
  outcomes.foldl AdaptiveEdge.noteOutcome (config.setEdge { config := edgeConfig })

end ApplicationConfig

/-! ### The configuration of a file -/

/-- The fields of `ApplicationConfig` that a file sets. -/
structure FileConfig where
  host : Chars := "bc.game".toList
  path : Chars := "/game/crash".toList
  nsp : Chars := "/g/cm".toList
  eventQueueCapacity : UInt64 := 4096
  workerCount : UInt64 := 4
  outboxCapacity : UInt64 := 2048
  predictionTimeoutMs : Int := 50
  heartbeatIntervalMs : Int := 25000
  enableTelegram : Bool := true
  enablePersistence : Bool := false
  logLevel : Chars := "info".toList
  degradedMs : Int := 15000
  staleMs : Int := 90000
  stuckMaxAgeMs : Int := 180000
  lossCooldownMs : Int := 60000
  lossCooldownThreshold : Int := 3
  enableNativeSocket : Bool := true
  socketHost : Chars := "socketv4.bc.game".toList

namespace TomlConfig

/-- An integer of the file as a `std::size_t`: a negative one is taken modulo `2 ^ 64`. -/
def getSize (c : TomlConfig) (name key : String) (fallback : UInt64) : UInt64 :=
  .ofInt (c.getInt name.toList key.toList fallback.toNat)

def toApplicationConfig (c : TomlConfig) : FileConfig :=
  let cfg : FileConfig := {}
  { host := c.get "ingestion".toList "host".toList cfg.host
    path := c.get "ingestion".toList "path".toList cfg.path
    nsp := c.get "ingestion".toList "nsp".toList cfg.nsp
    eventQueueCapacity := c.getSize "concurrency" "event_queue_capacity" cfg.eventQueueCapacity
    workerCount := c.getSize "concurrency" "worker_count" cfg.workerCount
    outboxCapacity := c.getSize "delivery" "outbox_capacity" cfg.outboxCapacity
    predictionTimeoutMs := c.getInt "prediction".toList "timeout_ms".toList cfg.predictionTimeoutMs
    heartbeatIntervalMs := c.getInt "ingestion".toList "heartbeat_ms".toList cfg.heartbeatIntervalMs
    enableTelegram := c.getBool "delivery".toList "enable_telegram".toList cfg.enableTelegram
    enablePersistence := c.getBool "persistence".toList "enabled".toList cfg.enablePersistence
    logLevel := c.get "logging".toList "level".toList cfg.logLevel
    degradedMs := c.getInt "ingestion".toList "degraded_ms".toList cfg.degradedMs
    staleMs := c.getInt "ingestion".toList "stale_ms".toList cfg.staleMs
    stuckMaxAgeMs := c.getInt "validation".toList "stuck_max_age_ms".toList cfg.stuckMaxAgeMs
    lossCooldownMs := c.getInt "validation".toList "loss_cooldown_ms".toList cfg.lossCooldownMs
    -- `static_cast<int>`
    lossCooldownThreshold :=
      (c.getInt "validation".toList "loss_cooldown_threshold".toList cfg.lossCooldownThreshold).bmod (2 ^ 32)
    enableNativeSocket := c.getBool "ingestion".toList "enable_native_socket".toList cfg.enableNativeSocket
    socketHost := c.get "ingestion".toList "socket_host".toList cfg.socketHost }

/-! ### The integers of a file -/

variable {s : Chars} {value fallback : Int}

theorem stoll_range (h : stoll s = some value) : -2 ^ 63 ≤ value ∧ value < 2 ^ 63 := by
  obtain ⟨hfits, hvalue⟩ := Option.ite_none_left_eq_some.mp h
  rw [not_or, not_or, Option.some.inj hvalue] at hfits
  omega

theorem getInt_range (c : TomlConfig) (name key : Chars) (hlow : -2 ^ 63 ≤ fallback) (hhigh : fallback < 2 ^ 63) :
    -2 ^ 63 ≤ c.getInt name key fallback ∧ c.getInt name key fallback < 2 ^ 63 := by
  unfold getInt
  dsimp only
  split
  · exact ⟨hlow, hhigh⟩
  · rcases hvalue : stoll (c.get name key) with _ | value
    · exact ⟨hlow, hhigh⟩
    · exact stoll_range hvalue

end TomlConfig
end CrashCore
