import CrashCore.Ingestion.SocketIoProtocol
import CrashCore.Library.JsonText

/-! The client of the external signer (`ingestion/signing/external_signer_client.hpp`). What the system calls do comes
with each call, and a call has one clock reading. -/

namespace CrashCore
open JsonText (octets)

structure SocketSignature where
  p : Bytes
  t : Bytes
  ua : Bytes
  atMs : TimestampMs
  valid : Bool
deriving DecidableEq

/-- What the system does in a call. -/
structure SignerPeer where
  socket : Bool := true
  accepts : Bool := true
  /-- The result of `write`. -/
  taken : Int
  /-- What `read` gives, if it gives anything. -/
  reply : Option Bytes

structure ExternalSignerClient where
  path : String := "/tmp/crashcore-signer.sock"
  /-- `fd_` is a descriptor. -/
  isOpen : Bool := false
  connected : Bool := false
  successes : Nat := 0
  failures : Nat := 0

namespace ExternalSignerClient

def connect (c : ExternalSignerClient) (peer : SignerPeer) : ExternalSignerClient × Except Error Unit :=
  if c.isOpen then (c, .ok ())
  else if ¬peer.socket then (c, .error ⟨.networkError, "socket() failed"⟩)
  else if ¬peer.accepts then (c, .error ⟨.connectionFailed, "connect to signer UDS failed: " ++ c.path⟩)
  else ({ c with isOpen := true, connected := true }, .ok ())

/-- What is written for one byte of the user agent. -/
def escapeChar (c : UInt8) : Bytes := if c = '"'.toUInt8 ∨ c = '\\'.toUInt8 then ['\\'.toUInt8, c] else [c]

def request (userAgent : Bytes) (ts : TimestampMs) : Bytes :=
  octets "\x7b\"op\":\"sign\",\"ua\":\"" ++ userAgent.flatMap escapeChar ++ octets "\",\"ts\":" ++ octets (toString ts) ++
    octets "\x7d\n"

/-- The text behind a key, up to the next quote. -/
def extract (resp : Bytes) (key : String) : Bytes :=
  let needle := octets ("\"" ++ key ++ "\":\"")
  match TextSearch.find resp needle 0 with
  | none => []
  | some pos =>
    match TextSearch.find resp (octets "\"") (pos + needle.length) with
    | none => []
    | some last => (resp.drop (pos + needle.length)).take (last - (pos + needle.length))

/-- A call with the bytes that it hands to `write`. -/
structure Signing where
  client : ExternalSignerClient
  written : Option Bytes := none
  result : Except Error SocketSignature

def failed (c : ExternalSignerClient) : ExternalSignerClient := { c with failures := c.failures + 1 }

/-- The connection is given up. -/
def lost (c : ExternalSignerClient) : ExternalSignerClient := { c.failed with isOpen := false, connected := false }

/-- What is made of a response. -/
def receive (c : ExternalSignerClient) (userAgent : Bytes) (ts : TimestampMs) (resp : Bytes) :
    ExternalSignerClient × Except Error SocketSignature :=
  if TextSearch.find resp (octets "\"ok\":true") 0 = none ∧ TextSearch.find resp (octets "\"ok\": true") 0 = none then
    (c.failed, .error ⟨.authFailed, "signer rejected: " ++ toText resp⟩)
  else
    let p := extract resp "p"
    let t := extract resp "t"
    let sig : SocketSignature := { p, t, ua := userAgent, atMs := ts, valid := !p.isEmpty && !t.isEmpty }
    if ¬sig.valid then (c.failed, .error ⟨.authFailed, "signer response missing p/t"⟩)
    else ({ c with successes := c.successes + 1 }, .ok sig)

def sign (c : ExternalSignerClient) (peer : SignerPeer) (userAgent : Bytes) (ts : TimestampMs) : Signing :=
  match c.connect peer with
  | (c, .error e) => { client := c, result := .error e }
  | (c, .ok _) =>
    let req := request userAgent ts
    if peer.taken < 0 ∨ peer.taken ≠ req.length then
      { client := c.lost, written := some req, result := .error ⟨.networkError, "signer write failed"⟩ }
    else
      match peer.reply with
      | none => { client := c.lost, written := some req, result := .error ⟨.networkError, "signer read failed"⟩ }
      | some resp =>
        let (c, result) := c.receive userAgent ts resp
        { client := c, written := some req, result }

/-- A call writes a request or nothing. -/
theorem written_sign {c : ExternalSignerClient} {peer : SignerPeer} {userAgent line : Bytes} {ts : TimestampMs}
    (h : (c.sign peer userAgent ts).written = some line) : line = request userAgent ts := by
  unfold sign at h
  split at h
  · cases h
  · dsimp only at h
    split at h
    · exact (Option.some.inj h).symm
    · split at h
      · exact (Option.some.inj h).symm
      · exact (Option.some.inj h).symm

end ExternalSignerClient
end CrashCore
