import CrashCore.Ingestion.SocketIoProtocol

/-! Decoding of native frames to events (`ingestion/event_decoder.hpp`). Latency is not tracked. -/

namespace CrashCore

/-- The readings of the clocks in one call, in their order. -/
structure Readings where
  receivedNs : Int
  payloadMs : TimestampMs
  decodedNs : Int
  eventMs : TimestampMs

structure EventDecoder where
  decoded : Nat := 0
  invalid : Nat := 0

namespace EventDecoder

/-- "st" is End, "bg" is Start/Begin. -/
def mapEventName (event : String) : EventKind :=
  let key := String.ofList (event.toList.map Char.toLower)
  if key = "pg" then .progress
  else if key = "pr" ∨ key = "prepare" ∨ key = "ready" then .prepare
  else if key = "bg" ∨ key = "begin" ∨ key = "start" then .start
  else if key = "ed" ∨ key = "st" ∨ key = "end" ∨ key = "crash" ∨ key = "bust" then .end
  else if key = "ping" ∨ key = "pong" then .heartbeat
  else .unknown

section
variable (multiplierFromElapsed : Int → Double)

/-- What a payload of a kind other than Progress makes of the event. -/
def applyPayload (ev : CrashEvent) (payload : CrashPayload) : CrashEvent :=
  let gameId := payload.gameId.getD ev.gameId
  let ev : CrashEvent :=
    { ev with
      gameId
      roundId := payload.gameId.getD ev.roundId
      crashPoint := if ev.kind = .end then payload.multiplier.getD ev.crashPoint else ev.crashPoint
      currentMult := if ev.kind = .end then ev.currentMult else payload.multiplier.getD ev.currentMult
      hash := payload.hash.getD ev.hash
      beganAtMs := payload.beginTime.getD ev.beganAtMs
      endedAtMs := payload.endTime.getD ev.endedAtMs }
  let ev : CrashEvent :=
    match payload.elapsedMs with
    | some elapsedMs => { ev with elapsedMs, currentMult := multiplierFromElapsed elapsedMs }
    | none => ev
  { ev with valid := gameId ≠ "" ∨ ev.kind = .progress }

def decodeEventPacket (d : EventDecoder) (pkt : SocketIoPacket) (source : EventSource) (clock : Readings) :
    Option (EventDecoder × Except Error CrashEvent) :=
  let rawEventName := toText pkt.event
  let kind := mapEventName rawEventName
  let ev : CrashEvent := { kind, source, receivedAtNs := clock.receivedNs, rawEventName }
  if kind = .unknown then some (d, .error ⟨.parseError, "unknown event name: " ++ rawEventName⟩)
  else
    let decoded : Option CrashEvent :=
      if pkt.payload = [] then some { ev with valid := kind = .connect ∨ kind = .heartbeat }
      else if kind = .progress then
        (decodeProgressElapsed pkt.payload pkt.payload.length).map fun
          | some elapsedMs => { ev with elapsedMs, currentMult := multiplierFromElapsed elapsedMs, valid := true }
          | none => ev
      else
        (decodeProtobuf pkt.payload pkt.payload.length).map fun fields =>
          applyPayload multiplierFromElapsed ev (fieldsToPayload multiplierFromElapsed rawEventName fields clock.payloadMs)
    decoded.map fun ev =>
      ({ decoded := d.decoded + 1, invalid := if ev.valid then d.invalid else d.invalid + 1 },
        .ok { ev with decodedAtNs := clock.decodedNs, eventTimeMs := clock.eventMs })

/-- Decode a binary Engine.IO / Socket.IO frame. -/
def decodeBinary (d : EventDecoder) (data : Bytes) (source : EventSource) (clock : Readings) :
    Option (EventDecoder × Except Error CrashEvent) :=
  let control (kind : EventKind) (rawEventName : String) : CrashEvent :=
    { kind, source, receivedAtNs := clock.receivedNs, decodedAtNs := clock.decodedNs, valid := true, rawEventName }
  let refused (message : String) : Option (EventDecoder × Except Error CrashEvent) := some (d, .error ⟨.parseError, message⟩)
  if data = [] then refused "empty frame"
  else if Engineio.isPing data then some (d, .ok (control .heartbeat "ping"))
  else if Engineio.isPong data ∨ Engineio.isOpenFrame data ∨ Engineio.isClose data then
    refused "control frame not an event"
  else if data[0]? = some 0x04 then
    (parsePacket data data.length).bind fun pkt =>
      if pkt.kind = .event then decodeEventPacket multiplierFromElapsed d pkt source clock
      else if pkt.kind = .connect then some (d, .ok (control .connect "connect"))
      else refused "non-event packet"
  else if Engineio.isMessage data ∧ 1 < data.length then refused "text message path not used on hot path"
  else refused "unrecognised frame"

end

/-! ### Frames that were written -/

section Frames
variable {multiplierFromElapsed : Int → Double} {nsp event payload : Bytes} (d : EventDecoder) (source : EventSource)
  (clock : Readings)

/-- An event packet is no control frame. -/
theorem decodeBinary_encodeEvent (hnsp : nsp.length ≤ 255) (hevent : event.length ≤ 255) :
    decodeBinary multiplierFromElapsed d (encodeEvent nsp event payload) source clock =
      decodeEventPacket multiplierFromElapsed d { kind := .event, nsp, event, payload } source clock := by
  have head : ∃ b rest, encodeEvent nsp event payload = 0x04 :: 0x02 :: b :: rest := ⟨_, _, rfl⟩
  obtain ⟨b, rest, frame⟩ := head
  unfold decodeBinary
  rw [parsePacket_encodeEvent hnsp hevent]
  simp [frame]

/-- The event of a frame that ends a round. -/
def endEvent (source : EventSource) (clock : Readings) (name : String) (gameId m : Nat) (hash : ByteString) : CrashEvent where
  kind := .end
  source := source
  roundId := toString gameId
  gameId := toString gameId
  crashPoint := (m : Rat) / 100
  endedAtMs := clock.payloadMs
  eventTimeMs := clock.eventMs
  receivedAtNs := clock.receivedNs
  decodedAtNs := clock.decodedNs
  hash := toText hash.bytes
  rawEventName := name
  valid := true

theorem decodeBinary_end (hnsp : nsp.length ≤ 255) {name : String} (hname : name = "ed" ∨ name = "st") {gameId m : Nat}
    (hgameId : gameId < 2 ^ 56) (hm : m < 2 ^ 56) (hash : ByteString) :
    decodeBinary multiplierFromElapsed d (encodeEvent nsp (ascii name) (encodeEndPayload gameId ((m : Rat) / 100) hash))
      source clock = some ({ d with decoded := d.decoded + 1 }, .ok (endEvent source clock name gameId m hash)) := by
  have hevent : (ascii name).length ≤ 255 := by
    rcases hname with rfl | rfl
    · decide
    · decide
  have hname' : toText (ascii name) = name ∧ mapEventName name = .end ∧ name ≠ "pg" := by
    rcases hname with rfl | rfl
    · decide
    · decide
  have payload : encodeProtobuf (endFields gameId m hash) ≠ [] := encodeProtobuf_ne_nil
  rw [decodeBinary_encodeEvent d source clock hnsp hevent, encodeEndPayload_hundredths hm]
  simp only [decodeEventPacket, hname', payload, decodeProtobuf_endFields hgameId hm, fieldsToPayload_endFields _ hname,
    if_false, Option.map_some]
  by_cases h : hash.bytes = []
  · simp [applyPayload, endEvent, h, toText]
  · simp [applyPayload, endEvent, h]

/-- The event of a progress frame. -/
def progressEvent (multiplierFromElapsed : Int → Double) (source : EventSource) (clock : Readings) (elapsed : Nat) :
    CrashEvent where
  kind := .progress
  source := source
  currentMult := multiplierFromElapsed elapsed
  eventTimeMs := clock.eventMs
  receivedAtNs := clock.receivedNs
  decodedAtNs := clock.decodedNs
  rawEventName := "pg"
  elapsedMs := elapsed
  valid := true

theorem decodeBinary_progress (hnsp : nsp.length ≤ 255) {elapsed : Nat} (h : elapsed < 2 ^ 56) :
    decodeBinary multiplierFromElapsed d (encodeEvent nsp (ascii "pg") (encodeProgressPayload elapsed)) source clock =
      some ({ d with decoded := d.decoded + 1 },
        .ok (progressEvent multiplierFromElapsed source clock elapsed)) := by
  have hevent : (ascii "pg").length ≤ 255 := by decide
  have hname : toText (ascii "pg") = "pg" ∧ mapEventName "pg" = .progress := by decide
  have payload : encodeProgressPayload elapsed = 8 :: writeVarint elapsed := by
    have tag : writeVarint (tagOf 1 0) = [8] := by simp [tagOf, toInt32, writeVarint]
    have fits : ((elapsed : Int) % 2 ^ 64).toNat = elapsed := by omega
    rw [encodeProgressPayload, fits]
    simp [encodeProtobuf, encodeField, tag]
  have read : decodeProgressElapsed (8 :: writeVarint elapsed) (8 :: writeVarint elapsed).length = some (some (elapsed : Int)) := by
    have number := readVarint_write (8 :: writeVarint elapsed).length [8] [] h (by simp [Nat.add_comm])
    rw [List.append_nil] at number
    simp only [List.singleton_append, List.length_cons, List.length_nil] at number
    simp [decodeProgressElapsed, number]
  rw [decodeBinary_encodeEvent d source clock hnsp hevent, payload]
  simp only [decodeEventPacket, hname, read, List.cons_ne_nil, reduceCtorEq, if_false, if_true, Option.map_some]
  rfl

end Frames

end EventDecoder
end CrashCore
