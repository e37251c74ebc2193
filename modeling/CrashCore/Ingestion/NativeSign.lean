import CrashCore.Ingestion.ExternalSigner

/-! `NativeSign` (`ingestion/signing/native_sign.hpp`): the external signer if one is attached and answers, else an HMAC with
the key. `hmacSha256Hex` of the crypto library is a parameter; the secrets and the random bytes come with each call. -/

namespace CrashCore
open JsonText (octets)

def defaultUa : Bytes :=
  octets "Mozilla/5.0 (Windows NT 10.0; Win64; x64) AppleWebKit/537.36 (KHTML, like Gecko) Chrome/122.0.0.0 Safari/537.36"

/-- What a call finds outside: `BC_USER_AGENT`, `BC_SIGN_KEY`, the random text, and the external signer with its clock. -/
structure SignInputs where
  userAgent : Option Bytes := none
  key : Option Bytes := none
  nonce : Bytes := []
  peer : SignerPeer := { taken := -1, reply := none }
  peerMs : TimestampMs := 0

structure NativeSign where
  external : Option ExternalSignerClient := none
  /-- `cached_`, once it is valid. -/
  cached : Option SocketSignature := none
  freshMs : Int := 60000
  staleMs : Int := 600000
  cacheHits : Nat := 0
  refreshes : Nat := 0
  staleServes : Nat := 0
  failures : Nat := 0

namespace NativeSign

variable (hmacSha256Hex : Bytes → Bytes → Bytes)

/-- The fallback; no signature without a key. -/
def localSignature (inputs : SignInputs) (ua : Bytes) (now : TimestampMs) : Option SocketSignature :=
  match inputs.key with
  | none | some [] => none
  | some key =>
    let material := octets (toString now) ++ octets "|" ++ ua ++ octets "|" ++ inputs.nonce
    some { t := octets (toString now), p := hmacSha256Hex key material, ua, atMs := now, valid := true }

/-- The signature of the external signer, when it gives a valid one. -/
def askExternal (s : NativeSign) (inputs : SignInputs) (ua : Bytes) : NativeSign × Option SocketSignature :=
  match s.external with
  | none => (s, none)
  | some c =>
    let signing := c.sign inputs.peer ua inputs.peerMs
    ({ s with external := some signing.client },
      match signing.result with
      | .ok sig => if sig.valid then some sig else none
      | .error _ => none)

def refreshUnlocked (s : NativeSign) (inputs : SignInputs) (now : TimestampMs) : NativeSign × Option SocketSignature :=
  let ua := inputs.userAgent.getD defaultUa
  match askExternal s inputs ua with
  | (s, some sig) => (s, some { sig with atMs := now })
  | (s, none) => (s, localSignature hmacSha256Hex inputs ua now)

/-- A refresh that fails leaves an old signature in use for a while. -/
def signSocketQuery (s : NativeSign) (inputs : SignInputs) (now : TimestampMs) : NativeSign × Option SocketSignature :=
  match s.cached.filter fun sig => now - sig.atMs < s.freshMs with
  | some sig => ({ s with cacheHits := s.cacheHits + 1 }, some sig)
  | none =>
    match refreshUnlocked hmacSha256Hex s inputs now with
    | (s, some sig) => ({ s with cached := some sig, refreshes := s.refreshes + 1 }, some sig)
    | (s, none) =>
      match s.cached.filter fun sig => now - sig.atMs < s.staleMs with
      | some sig => ({ s with staleServes := s.staleServes + 1 }, some sig)
      | none => ({ s with failures := s.failures + 1 }, none)

def isReady (s : NativeSign) : Bool := s.cached.isSome

/-- A call and what it returned. -/
structure Served where
  inputs : SignInputs
  now : TimestampMs
  signature : Option SocketSignature

/-- The signer after calls at any times, and as bookkeeping the calls and the signatures that were made. -/
structure Log where
  sign : NativeSign
  served : List Served := []
  made : List SocketSignature := []

def step (l : Log) (a : SignInputs × TimestampMs) : Option Log :=
  let (sign, signature) := l.sign.signSocketQuery hmacSha256Hex a.1 a.2
  some
    { sign
      served := l.served ++ [⟨a.1, a.2, signature⟩]
      made := l.made ++ if l.sign.refreshes < sign.refreshes then signature.toList else [] }

end NativeSign
end CrashCore
