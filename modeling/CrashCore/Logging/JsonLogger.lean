import CrashCore.Common.Types
import CrashCore.Library.JsonText

/-! The JSON logger (`logging/json_logger.hpp`), as far as it writes a line. -/

namespace CrashCore
open JsonText (octets)

inductive JsonLogLevel
  | trace | debug | info | warn | error
deriving DecidableEq

def JsonLogLevel.toString : JsonLogLevel → List UInt8
  | .trace => octets "trace"
  | .debug => octets "debug"
  | .info => octets "info"
  | .warn => octets "warn"
  | .error => octets "error"

structure JsonLogEvent where
  level : JsonLogLevel := .info
  component : List UInt8
  message : List UInt8
  correlationId : List UInt8
  /-- The keys and values of the map, in the order of its iteration. -/
  fields : List (List UInt8 × List UInt8)
  keys_nodup : (fields.map (·.1)).Nodup
  tsMs : TimestampMs := 0

namespace JsonLogger

/-- What `escape` writes for one character. -/
def escapeChar (c : UInt8) : List UInt8 :=
  if c = '"'.toUInt8 then octets "\\\""
  else if c = '\\'.toUInt8 then octets "\\\\"
  else if c = '\n'.toUInt8 then octets "\\n"
  else [c]

def escape (s : List UInt8) : List UInt8 := s.flatMap escapeChar

/-- The line that `writeLine` writes. -/
def writeLine (ev : JsonLogEvent) : List UInt8 :=
  octets "\x7b\"ts\":" ++ octets (toString ev.tsMs) ++ octets ",\"level\":\"" ++ ev.level.toString ++
    octets "\",\"component\":\"" ++ escape ev.component ++ octets "\",\"msg\":\"" ++ escape ev.message ++ octets "\"" ++
    (if ev.correlationId = [] then [] else octets ",\"correlationId\":\"" ++ escape ev.correlationId ++ octets "\"") ++
    ev.fields.flatMap (fun (k, v) => octets ",\"" ++ escape k ++ octets "\":\"" ++ escape v ++ octets "\"") ++
    octets "\x7d\n"

end JsonLogger
end CrashCore
