import CrashCore.Common.Types
import CrashCore.Library.TextSearch

/-! The rounds of the history service and how its answers are read (`ingestion/rest/crash_history_client.hpp`). A text
is its list of bytes, a `Char` each. -/

namespace CrashCore

/-- A round from the history service, with the checks of `valid()`. -/
structure FetchedRound where
  gameId : GameId
  multiplier : Double
  hash : String := ""
  beganAtMs : TimestampMs := 0
  crashedAtMs : TimestampMs
  named : gameId ≠ ""
  inRange : 1 ≤ multiplier ∧ multiplier ≤ 1000000
  crashed : 0 < crashedAtMs

/-- The End that the handler of the poll worker and the worker itself make of it. -/
def FetchedRound.event (fr : FetchedRound) : CrashEvent where
  kind := .end
  gameId := fr.gameId
  roundId := fr.gameId
  crashPoint := fr.multiplier
  hash := fr.hash
  beganAtMs := fr.beganAtMs
  endedAtMs := fr.crashedAtMs
  eventTimeMs := fr.crashedAtMs
  valid := true

/-- The settings of a reader: `std::strtod`, with no result where it converts nothing or no finite number. -/
structure HistoryReader where
  strtod : List Char → Option Double

namespace HistoryReader
open TextSearch

/-- `"key":`. -/
def field (key : String) : List Char := '"' :: key.toList ++ ['"', ':']

def findNum (reader : HistoryReader) (detail : List Char) (key : String) : Option Double :=
  match find detail (field key) 0 with
  | none => none
  | some pos =>
    reader.strtod ((detail.drop (pos + (field key).length)).dropWhile fun c => c = ' ' ∨ c = '"')

def findStr (detail : List Char) (key : String) : String :=
  let needle := field key ++ ['"']
  match find detail needle 0 with
  | none => ""
  | some pos =>
    match find detail ['"'] (pos + needle.length) with
    | none => ""
    | some stop => String.ofList ((detail.drop (pos + needle.length)).take (stop - (pos + needle.length)))

def toMs : Option Double → TimestampMs
  | none => 0
  | some v => if v < 1000000000000 then 0 else v.floor

/-- The end of the round, else its beginning, else its preparation. -/
def crashedAtMs (reader : HistoryReader) (detail : List Char) : TimestampMs :=
  let crashed := toMs (reader.findNum detail "endTime")
  let crashed := if crashed = 0 then toMs (reader.findNum detail "beginTime") else crashed
  if crashed = 0 then toMs (reader.findNum detail "prepareTime") else crashed

/-- `parseFetchedRound`, and `valid()` of its result. -/
def parseFetchedRound (reader : HistoryReader) (gameId detail : List Char) : Option FetchedRound :=
  if hid : gameId = [] ∨ ¬gameId.all Char.isDigit ∨ detail = [] then none
  else
    match reader.findNum detail "rate" with
    | none => none
    | some rate =>
      if hrate : 1 ≤ rate ∧ rate ≤ 1000000 then
        if hcrashed : 0 < reader.crashedAtMs detail then
          some
            { gameId := String.ofList gameId
              multiplier := rate
              hash := findStr detail "hash"
              beganAtMs := toMs (reader.findNum detail "beginTime")
              crashedAtMs := reader.crashedAtMs detail
              named := by
                intro h
                exact hid (Or.inl (by simpa using congrArg String.toList h))
              inRange := hrate
              crashed := hcrashed }
        else none
      else none

/-- The position after a found one; `npos + 1` is 0. -/
def after : Option Nat → Nat
  | none => 0
  | some pos => pos + 1

/-- A string from position `i` up to its closing quote, without its escapes, and the position of that quote. -/
def unescape : List Char → Nat → List Char × Nat
  | [], i => ([], i)
  | '\\' :: c :: rest, i => let (detail, j) := unescape rest (i + 2); (c :: detail, j)
  | '"' :: _, i => ([], i)
  | c :: rest, i => let (detail, j) := unescape rest (i + 1); (c :: detail, j)

/-- The loop of `parseHistoryBody` from `pos` on, without its cache: the valid rounds that it comes by. There is no
    result when it takes more than `fuel` turns. -/
def parseHistoryBody (reader : HistoryReader) (body : List Char) : Nat → Nat → Option (List FetchedRound)
  | 0, _ => none
  | fuel + 1, pos =>
    if body.length ≤ pos then some []
    else
      match find body "\"gameId\"".toList pos with
      | none => some []
      | some gidPos =>
        let q1 := find body ['"'] (after (find body [':'] gidPos))
        match q1, find body ['"'] (after q1) with
        | some q1, some q2 =>
          match find body "\"gameDetail\"".toList q2 with
          | none => parseHistoryBody reader body fuel (q2 + 1)
          | some detailPos =>
            if q2 + 500 < detailPos then parseHistoryBody reader body fuel (q2 + 1)
            else
              match find body ['"'] (after (find body [':'] detailPos)) with
              | none => parseHistoryBody reader body fuel (q2 + 1)
              | some dq1 =>
                let (detail, i) := unescape (body.drop (dq1 + 1)) (dq1 + 1)
                let rest := parseHistoryBody reader body fuel (i + 1)
                match reader.parseFetchedRound ((body.drop (q1 + 1)).take (q2 - q1 - 1)) detail with
                | none => rest
                | some r => rest.map (r :: ·)
        | _, _ => some []

end HistoryReader
end CrashCore
