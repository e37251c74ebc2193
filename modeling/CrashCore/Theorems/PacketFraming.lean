import CrashCore.Ingestion.EventDecoder
import CrashCore.Ingestion.SocketIoProtocol

/-! The packets that the client writes are read back by its own parser. -/

namespace CrashCore

theorem parsePacket_encodeConnect {nsp : Bytes} (hnsp : nsp.length ≤ 255) :
    parsePacket (encodeConnect nsp) (encodeConnect nsp).length = some { kind := .connect, nsp } := by
  have htype : (0x00 : UInt8) &&& 0x0f = 0 ∧ (0x00 : UInt8) &&& 0x80 = 0 := by decide
  show parsePacket (layout [0x04, 0x00] nsp [0]) (layout [0x04, 0x00] nsp [0]).length = _
  exact parsePacket_connect rfl rfl (if_pos htype.2) hnsp (Or.inl htype.1)

theorem parsePacket_encodeJoin {nsp room : Bytes} (hnsp : nsp.length ≤ 255) (hroom : room.length ≤ 255) :
    parsePacket (encodeJoin nsp room) (encodeJoin nsp room).length = some { kind := .event, nsp, event := room } := by
  have htype : (0x82 : UInt8) &&& 0x0f ≠ 0 ∧ (0x82 : UInt8) &&& 0x80 ≠ 0 := by decide
  have hrest : UInt8.ofNat room.length :: room = UInt8.ofNat room.length :: (room ++ []) := by rw [List.append_nil]
  show parsePacket (layout [0x04, 0x82, 0, 0, 0, 0] nsp _) (layout [0x04, 0x82, 0, 0, 0, 0] nsp _).length = _
  exact parsePacket_event rfl rfl (if_neg htype.2) hnsp htype.1 hroom hrest

/-- Namespaces, event names and rooms of at most 255 bytes, and payloads of any length, survive all three encoders. -/
theorem packets_roundTrip (nsp event room payload : Bytes) (hnsp : nsp.length ≤ 255) (hevent : event.length ≤ 255)
    (hroom : room.length ≤ 255) :
    parsePacket (encodeConnect nsp) (encodeConnect nsp).length = some { kind := .connect, nsp } ∧
    parsePacket (encodeJoin nsp room) (encodeJoin nsp room).length = some { kind := .event, nsp, event := room } ∧
    parsePacket (encodeEvent nsp event payload) (encodeEvent nsp event payload).length =
      some { kind := .event, nsp, event, payload } :=
  ⟨parsePacket_encodeConnect hnsp, parsePacket_encodeJoin hnsp hroom, parsePacket_encodeEvent hnsp hevent payload⟩

theorem packets_roundTrip_progress :
    parsePacket [4, 0, 5, 47, 103, 47, 99, 109, 0] 9 = some { kind := .connect, nsp := ascii "/g/cm" } ∧
    parsePacket [4, 130, 0, 0, 0, 0, 5, 47, 103, 47, 99, 109, 4, 106, 111, 105, 110] 17 =
      some { kind := .event, nsp := ascii "/g/cm", event := ascii "join" } ∧
    parsePacket [4, 2, 5, 47, 103, 47, 99, 109, 2, 112, 103, 8, 1] 13 =
      some { kind := .event, nsp := ascii "/g/cm", event := ascii "pg", payload := [8, 1] } :=
  packets_roundTrip (ascii "/g/cm") (ascii "pg") (ascii "join") [8, 1] (by decide) (by decide) (by decide)

/-! ### End events

End events on the wire: what is encoded is decoded. -/

namespace EventDecoder

/-- For any decoder, source, clocks and curve. -/
theorem decodeBinary_encodeEndPayload (multiplierFromElapsed : Int → Double) (d : EventDecoder) (source : EventSource)
    (clock : Readings) {nsp : Bytes} (hnsp : nsp.length ≤ 255) {name : String} (hname : name = "ed" ∨ name = "st")
    {gameId m : Nat} (hgameId : gameId < 2 ^ 56) (hm : m < 2 ^ 56) (hash : ByteString) :
    ∃ ev, decodeBinary multiplierFromElapsed d
        (encodeEvent nsp (ascii name) (encodeEndPayload gameId ((m : Rat) / 100) hash)) source clock =
          some ({ d with decoded := d.decoded + 1 }, .ok ev) ∧
      ev.IsValidEnd ∧ ev.gameId = toString gameId ∧ ev.roundId = toString gameId ∧ ev.crashPoint = (m : Rat) / 100 ∧
      ev.hash = toText hash.bytes :=
  ⟨_, decodeBinary_end d source clock hnsp hname hgameId hm hash, ⟨rfl, rfl⟩, rfl, rfl, rfl, rfl⟩

/-- Game 300 ends at 2.50. -/
theorem decodeBinary_encodeEndPayload_synth : ∃ ev, decodeBinary (fun _ => 1) {}
      (encodeEvent (ascii "/g/cm") (ascii "ed") (encodeEndPayload 300 ((250 : Nat) / 100) ⟨ascii "synth", by decide⟩))
      .nativeSocket ⟨0, 0, 0, 0⟩ = some (⟨1, 0⟩, .ok ev) ∧
    ev.IsValidEnd ∧ ev.gameId = "300" ∧ ev.roundId = "300" ∧ ev.crashPoint = (250 : Nat) / 100 ∧ ev.hash = "synth" :=
  decodeBinary_encodeEndPayload (fun _ => 1) {} .nativeSocket ⟨0, 0, 0, 0⟩ (by decide) (.inl rfl) (by decide) (by decide) _

end EventDecoder
end CrashCore
