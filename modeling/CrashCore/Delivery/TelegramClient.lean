import CrashCore.Delivery.Signal
import CrashCore.Library.Decimal
import CrashCore.Library.JsonText
import CrashCore.Library.TextSearch

/-! The client of the Telegram API: its request bodies (`delivery/telegram/telegram_api.hpp`) and the attempts to send one
(`delivery/telegram/telegram_client.hpp`). What the HTTP client gives comes with each call; a response body is one character
a byte. -/

namespace CrashCore
namespace TelegramApi
open JsonText (octets)

/-- `%04x`. -/
def hex4 (n : Nat) : List UInt8 := ((Nat.toDigits 16 n).leftpad 4 '0').map (·.toUInt8)

/-- What `escapeJson` writes for one character; `c < 0x20` compares it as unsigned. -/
def escapeChar (c : UInt8) : List UInt8 :=
  if c = '"'.toUInt8 then octets "\\\""
  else if c = '\\'.toUInt8 then octets "\\\\"
  else if c = '\n'.toUInt8 then octets "\\n"
  else if c = '\r'.toUInt8 then octets "\\r"
  else if c = '\t'.toUInt8 then octets "\\t"
  else if c < 0x20 then octets "\\u" ++ hex4 c.toNat
  else [c]

def escapeJson (text : List UInt8) : List UInt8 := text.flatMap escapeChar

def buildSendMessageBody (chatId text : List UInt8) (parseMode : List UInt8 := [])
    (disableNotification : Bool := false) : List UInt8 :=
  octets "\x7b\"chat_id\":\"" ++ escapeJson chatId ++ octets "\",\"text\":\"" ++ escapeJson text ++ octets "\"" ++
    (if parseMode = [] then [] else octets ",\"parse_mode\":\"" ++ escapeJson parseMode ++ octets "\"") ++
    (if disableNotification then octets ",\"disable_notification\":true" else []) ++ octets "\x7d"

end TelegramApi

/-! ### Sending -/

open JsonText (octets)

/-- `std::strtoll`: 0 without a digit, and the nearest value for what does not fit. -/
def strtoll (text : List Char) : Int :=
  let text := text.dropWhile [' ', '\t', '\n', '\x0b', '\x0c', '\r'].contains
  let value := Decimal.signed (fun digits => (Decimal.natural digits : Int)) text
  max (-2 ^ 63) (min (2 ^ 63 - 1) value)

structure TelegramCredentials where
  botToken : List UInt8 := []
  chatId : List UInt8 := []
  extraChatIds : List (List UInt8) := []

def TelegramCredentials.valid (c : TelegramCredentials) : Bool :=
  !c.botToken.isEmpty && (!c.chatId.isEmpty || !c.extraChatIds.isEmpty)

structure HttpRequest where
  method : String := "POST"
  host : String
  path : List UInt8
  port : Nat := 443
  tls : Bool := true
  headers : List (String × String)
  body : List UInt8
  timeoutMs : Int
deriving DecidableEq

structure HttpResponse where
  status : Int := 0
  body : List Char := []
deriving DecidableEq

def HttpResponse.ok (r : HttpResponse) : Bool := 200 ≤ r.status ∧ r.status < 300

structure TelegramResponse where
  ok : Bool := false
  messageId : Int := 0
  description : String := ""
  raw : List Char := []
  errorCode : Int := 0
deriving DecidableEq

structure TelegramClient where
  creds : TelegramCredentials
  sent : Nat := 0
  failed : Nat := 0
  lastSentMs : TimestampMs := 0

namespace TelegramClient

/-- The number behind the colon that follows a key. -/
def numberAfter (body : List Char) (key : String) : Option Int := do
  let pos ← TextSearch.find body key.toList 0
  let colon ← TextSearch.find body [':'] pos
  some (strtoll (body.drop (colon + 1)))

def parseResponse (http : HttpResponse) : Except Error TelegramResponse :=
  if ¬http.ok then
    let description := "HTTP " ++ toString http.status
    if http.status = 429 then
      let retryAfterSec := (numberAfter http.body "\"retry_after\"").getD 1
      .error ⟨.rateLimited, "rate limited retry_after=" ++ toString retryAfterSec⟩
    else if http.status = 401 ∨ http.status = 403 then .error ⟨.authFailed, description⟩
    else .error ⟨.networkError, description⟩
  else
    let ok := (TextSearch.find http.body "\"ok\":true".toList 0).isSome ||
      (TextSearch.find http.body "\"ok\": true".toList 0).isSome
    if ok then .ok { ok, raw := http.body, messageId := (numberAfter http.body "\"message_id\"").getD 0 }
    else .error ⟨.networkError, "telegram ok=false"⟩

def request (c : TelegramClient) (text : List UInt8) (timeoutMs : Int := -1) : HttpRequest where
  host := "api.telegram.org"
  path := octets "/bot" ++ c.creds.botToken ++ octets "/sendMessage"
  headers := [("Content-Type", "application/json"), ("User-Agent", "CrashCore/1.0")]
  body := TelegramApi.buildSendMessageBody c.creds.chatId text
  timeoutMs := if 0 < timeoutMs then timeoutMs else 10000

/-- The result of a call, with the requests that were made and the milliseconds slept. -/
structure Sending where
  client : TelegramClient
  requests : List HttpRequest := []
  sleeps : List Int := []
  result : Except Error TelegramResponse

def sendMessage (c : TelegramClient) (text : List UInt8) (answer : Except Error HttpResponse) (timeoutMs : Int := -1) :
    Sending :=
  if ¬c.creds.valid then { client := c, result := .error ⟨.authFailed, "telegram credentials missing"⟩ }
  else
    match answer with
    | .error e => { client := { c with failed := c.failed + 1 }, requests := [c.request text timeoutMs], result := .error e }
    | .ok http => { client := c, requests := [c.request text timeoutMs], result := parseResponse http }

/-- A pause of turn `i` that grows with each turn, as an `int`. This product and the next are undefined where they do not
    fit; here they wrap. -/
def growingMs (unit : Int) (i : Nat) : Int := (unit * (i + 1)).bmod (2 ^ 32)

/-- The pause that a rate limit asks for. -/
def rateLimitMs (i : Nat) (message : String) : Int :=
  let waitMs := growingMs 500 i
  match TextSearch.find message.toList "retry_after=".toList 0 with
  | none => waitMs
  | some pos =>
    let sec := strtoll (message.toList.drop (pos + 12))
    if 0 < sec then (sec * 1000).bmod (2 ^ 64) else waitMs

/-- The loop from its turn `i` on, with the turns that are left and the error so far. `answer i` and `now i` are what turn
    `i` meets. -/
def retryFrom (text : List UInt8) (answer : Nat → Except Error HttpResponse) (now : Nat → TimestampMs) :
    Nat → Nat → TelegramClient → Error → Sending
  | 0, _, c, lastErr => { client := { c with failed := c.failed + 1 }, result := .error lastErr }
  | left + 1, i, c, _ =>
    let r := c.sendMessage text (answer i)
    match r.result with
    | .ok resp => { r with client := { r.client with sent := r.client.sent + 1, lastSentMs := now i }, result := .ok resp }
    | .error e =>
      if e.code = .authFailed then { r with client := { r.client with failed := r.client.failed + 1 } }
      else
        let sleepMs := if e.code = .rateLimited then rateLimitMs i e.message else growingMs 100 i
        let later := retryFrom text answer now left (i + 1) r.client e
        { later with requests := r.requests ++ later.requests, sleeps := sleepMs :: later.sleeps }

def sendMessageWithRetry (c : TelegramClient) (text : List UInt8) (answer : Nat → Except Error HttpResponse)
    (now : Nat → TimestampMs) (maxRetries : Int := 3) : Sending :=
  retryFrom text answer now maxRetries.toNat 0 c ⟨.networkError, "no attempt"⟩

end TelegramClient
end CrashCore
