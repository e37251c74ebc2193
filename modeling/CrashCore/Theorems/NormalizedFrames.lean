import CrashCore.Ingestion.DecodeHelpers
import CrashCore.Ingestion.EventDecoder

/-! What normalization keeps of an event. The way through a raw source event keeps the times of the phase and its
multiplier; the begin of a round that a Prepare or an End carries, the multiplier of a Prepare or a Start, and the
verdict on a Progress without time are lost. -/

namespace CrashCore
open Realtime EventDecoder

variable {multiplierFromElapsed : Int → Double} {ev : CrashEvent} {now : TimestampMs} {ns : Int}

/-- The same time, or the same after the conversion of seconds. -/
def SameTime (t t' : TimestampMs) : Prop := t' = t ∨ t' = toEpochMs t

instance (t t' : TimestampMs) : Decidable (SameTime t t') := inferInstanceAs (Decidable (_ ∨ _))

/-- The normalized event `out` says what `ev` says. -/
structure Preserves (ev out : CrashEvent) : Prop where
  kind : out.kind = ev.kind
  gameId : out.gameId = ev.gameId
  valid : out.valid = ev.valid
  crashPoint : out.crashPoint = ev.crashPoint
  currentMult : out.currentMult = ev.currentMult
  hash : out.hash = ev.hash
  elapsedMs : out.elapsedMs = ev.elapsedMs
  began : SameTime ev.beganAtMs out.beganAtMs
  ended : SameTime ev.endedAtMs out.endedAtMs

/-- The event carries nothing that its phase drops: it is not normalized, or a Progress with its time, a Prepare with
    neither multiplier nor begin, a Start without multiplier, or an End without begin. -/
def CarriesNoMore (ev : CrashEvent) : Prop :=
  match ev.kind with
  | .progress => ev.valid = true
  | .prepare => ev.gameId = "" ∨ (ev.currentMult = 0 ∧ ev.beganAtMs = 0)
  | .start => ev.gameId = "" ∨ ev.currentMult = 0
  | .end => ev.gameId = "" ∨ ev.beganAtMs = 0
  | _ => True

/-! ### What the decoder makes -/

/-- The name that the normalizer sees of an event without a phase. -/
def rawName (ev : CrashEvent) : String := if ev.rawEventName = "" then "unknown" else ev.rawEventName

def HasPhase (ev : CrashEvent) : Prop :=
  ev.kind = .prepare ∨ ev.kind = .start ∨ ev.kind = .progress ∨ ev.kind = .end

structure Decoded (ev : CrashEvent) : Prop where
  phase : ¬HasPhase ev → Realtime.mapEventName (rawName ev) = none
  anonymous : ev.kind = .progress → ev.gameId = "" ∧ ev.beganAtMs = 0
  named : ev.kind ≠ .progress → ev.gameId ≠ "" → ev.valid = true
  elapsed : 0 ≤ ev.elapsedMs ∨ ev.elapsedMs = -1
  crashPoint : ev.kind ≠ .end → ev.crashPoint = 0
  currentMult : ev.kind = .end → ev.currentMult = 0
  began : 0 ≤ ev.beganAtMs
  ended : ev.kind ≠ .end → ev.endedAtMs = 0

/-- The decoder and the normalizer know the same names. -/
theorem mapEventName_of_heartbeat {name : String} (h : EventDecoder.mapEventName name = .heartbeat) :
    name ≠ "" ∧ Realtime.mapEventName name = none := by
  have hname : name ≠ "" := by
    rintro rfl
    exact absurd h (by decide)
  refine ⟨hname, ?_⟩
  unfold EventDecoder.mapEventName at h
  unfold Realtime.mapEventName
  generalize String.ofList (name.toList.map Char.toLower) = key at h ⊢
  dsimp only at h ⊢
  have hping : key = "ping" ∨ key = "pong" := by
    by_contra hno
    rw [if_neg hno] at h
    repeat' split at h
    all_goals cases h
  rcases hping with rfl | rfl
  · decide
  · decide

/-- A name of an event packet has a phase or is a heartbeat. -/
theorem hasPhase_or_heartbeat {name : String} (h : EventDecoder.mapEventName name = ev.kind) (hk : ev.kind ≠ .unknown) :
    HasPhase ev ∨ ev.kind = .heartbeat := by
  unfold EventDecoder.mapEventName at h
  dsimp only at h
  unfold HasPhase
  repeat' split at h
  all_goals simp_all

section
variable {name : String} (source : EventSource)

/-- An event without a payload that could be read. -/
theorem decoded_bare (ns : Int) (valid : Bool) (hunknown : EventDecoder.mapEventName name ≠ .unknown) :
    Decoded { kind := EventDecoder.mapEventName name, source, receivedAtNs := ns, rawEventName := name, valid } where
  phase h := by
    obtain ⟨hname, hnone⟩ := mapEventName_of_heartbeat ((hasPhase_or_heartbeat rfl hunknown).resolve_left h)
    exact (congrArg _ (if_neg hname)).trans hnone
  anonymous _ := ⟨rfl, rfl⟩
  named _ h := absurd rfl h
  elapsed := .inr rfl
  crashPoint _ := rfl
  currentMult _ := rfl
  began := le_refl _
  ended _ := rfl

/-- The event of a control frame. -/
def controlEvent (kind : EventKind) (clock : Readings) (name : String) : CrashEvent where
  kind := kind
  source := source
  receivedAtNs := clock.receivedNs
  decodedAtNs := clock.decodedNs
  rawEventName := name
  valid := true

theorem decoded_control (kind : EventKind) (clock : Readings) (hname : name ≠ "" ∧ Realtime.mapEventName name = none) :
    Decoded (controlEvent source kind clock name) where
  phase _ := (congrArg _ (if_neg hname.1)).trans hname.2
  anonymous _ := ⟨rfl, rfl⟩
  named _ h := absurd rfl h
  elapsed := .inr rfl
  crashPoint _ := rfl
  currentMult _ := rfl
  began := le_refl _
  ended _ := rfl

/-- A payload of a kind other than Progress. -/
theorem decoded_applyPayload (ns : Int) (hkind : EventDecoder.mapEventName name ≠ .progress)
    (hunknown : EventDecoder.mapEventName name ≠ .unknown) (fields : Fields) (now : TimestampMs) :
    Decoded (applyPayload multiplierFromElapsed
      { kind := EventDecoder.mapEventName name, source, receivedAtNs := ns, rawEventName := name }
      (fieldsToPayload multiplierFromElapsed name fields now)) := by
  have hpg : name ≠ "pg" := by
    rintro rfl
    exact hkind (by decide)
  have hend : EventDecoder.mapEventName name ≠ .end → ¬(name = "ed" ∨ name = "st") := by
    rintro h (rfl | rfl)
    · exact h (by decide)
    · exact h (by decide)
  unfold fieldsToPayload
  rw [if_neg hpg]
  unfold applyPayload
  dsimp only
  refine ⟨fun h => ?_, fun h => absurd h hkind, fun _ h => ?_, .inr rfl, fun h => if_neg h, fun h => if_pos h, ?_,
    fun h => ?_⟩
  · exact (decoded_bare source ns false hunknown).phase h
  · exact decide_eq_true (.inl h)
  · show 0 ≤ ((((getNum fields 3).or (getNum fields 4)).map Int.ofNat).getD 0 : Int)
    cases (getNum fields 3).or (getNum fields 4) with
    | none => exact le_refl _
    | some n => exact Int.natCast_nonneg n
  · show (if name = "ed" ∨ name = "st" then some now else none).getD 0 = 0
    rw [if_neg (hend h)]
    rfl

theorem decodeProgressElapsed_nonneg {buf : Bytes} {elapsed : Int}
    (h : decodeProgressElapsed buf buf.length = some (some elapsed)) : 0 ≤ elapsed := by
  have rest : ∀ e, (decodeProtobuf buf buf.length).map (fun fields => (getNum fields 1).map Int.ofNat) = some (some e) →
      0 ≤ e := by
    intro e he
    obtain ⟨fields, -, he⟩ := Option.map_eq_some_iff.mp he
    obtain ⟨n, -, rfl⟩ := Option.map_eq_some_iff.mp he
    exact Int.natCast_nonneg n
  unfold decodeProgressElapsed at h
  split at h
  · cases h
  split at h
  · cases h
  dsimp only at h
  split at h
  · split at h
    · cases h
    · cases h
      exact Int.natCast_nonneg _
    · exact rest _ h
  · exact rest _ h

end

theorem decoded_of_decodeEventPacket {d d' : EventDecoder} {pkt : SocketIoPacket} {source : EventSource}
    {clock : Readings} (h : d.decodeEventPacket multiplierFromElapsed pkt source clock = some (d', .ok ev)) :
    Decoded ev := by
  unfold decodeEventPacket at h
  dsimp only at h
  split at h
  · cases h
  rename_i hunknown
  obtain ⟨ev', hev, h⟩ := Option.map_eq_some_iff.mp h
  cases h
  suffices hdecoded : Decoded ev' from
    ⟨hdecoded.phase, hdecoded.anonymous, hdecoded.named, hdecoded.elapsed, hdecoded.crashPoint, hdecoded.currentMult,
      hdecoded.began, hdecoded.ended⟩
  have bare (valid : Bool) := decoded_bare source clock.receivedNs valid hunknown
  split at hev
  · cases hev
    exact bare _
  split at hev
  · rename_i hprogress
    obtain ⟨elapsed, helapsed, rfl⟩ := Option.map_eq_some_iff.mp hev
    rcases elapsed with _ | elapsed
    · exact bare false
    obtain ⟨hphase, hanonymous, hnamed, -, hcrash, -, hbegan, hended⟩ := bare true
    have hnoEnd : EventDecoder.mapEventName (toText pkt.event) ≠ .end := by simp [hprogress]
    exact ⟨hphase, hanonymous, hnamed, .inl (decodeProgressElapsed_nonneg helapsed), hcrash, fun h => absurd h hnoEnd,
      hbegan, hended⟩
  · rename_i hkind
    obtain ⟨fields, -, rfl⟩ := Option.map_eq_some_iff.mp hev
    exact decoded_applyPayload source clock.receivedNs hkind hunknown fields clock.payloadMs

/-- Every event that the decoder accepts. -/
theorem decoded_of_decodeBinary {d d' : EventDecoder} {data : Bytes} {source : EventSource} {clock : Readings}
    (h : d.decodeBinary multiplierFromElapsed data source clock = some (d', .ok ev)) : Decoded ev := by
  have hping : "ping" ≠ "" ∧ Realtime.mapEventName "ping" = none := by decide
  have hconnect : "connect" ≠ "" ∧ Realtime.mapEventName "connect" = none := by decide
  unfold decodeBinary at h
  dsimp only at h
  split at h
  · cases h
  split at h
  · cases h
    exact decoded_control source .heartbeat clock hping
  split at h
  · cases h
  split at h
  · obtain ⟨pkt, -, h⟩ := Option.bind_eq_some_iff.mp h
    split at h
    · exact decoded_of_decodeEventPacket h
    split at h
    · cases h
      exact decoded_control source .connect clock hconnect
    · cases h
  · split at h <;> cases h

/-! ### What is left after normalization -/

/-- What the way through the raw event makes of an event with a phase. -/
structure Carried (ev out : CrashEvent) : Prop where
  kind : out.kind = ev.kind
  gameId : out.gameId = ev.gameId
  valid : out.valid = true
  crashPoint : out.crashPoint = if ev.kind = .end then ev.crashPoint else 0
  currentMult : out.currentMult = if ev.kind = .progress then ev.currentMult else 0
  hash : out.hash = ev.hash
  elapsedMs : out.elapsedMs = if 0 ≤ ev.elapsedMs then ev.elapsedMs else -1
  began : out.beganAtMs = if ev.kind = .start then toEpochMs ev.beganAtMs else 0
  ended : out.endedAtMs = if ev.kind = .end then toEpochMs ev.endedAtMs else 0

theorem mapEventName_wire : Realtime.mapEventName "pr" = some .prepare ∧ Realtime.mapEventName "bg" = some .begin ∧
    Realtime.mapEventName "pg" = some .progress ∧ Realtime.mapEventName "ed" = some .end := by decide

/-- An event without a phase, or without the game that its phase needs, stays as it is. -/
theorem normalized_of_rejected (h : Decoded ev) (hrejected : ¬HasPhase ev ∨ (ev.kind ≠ .progress ∧ ev.gameId = "")) :
    normalized multiplierFromElapsed ev now ns = ev := by
  have hnone : normalizeSourceEvent multiplierFromElapsed (fromCrashEvent ev "native-bc-socket") now = none := by
    by_cases hphase : HasPhase ev
    · obtain ⟨hkind, hgame⟩ := hrejected.resolve_left (not_not_intro hphase)
      rcases hphase with hk | hk | hk | hk
      · simp [normalizeSourceEvent, fromCrashEvent, hk, hgame, mapEventName_wire]
      · simp [normalizeSourceEvent, fromCrashEvent, hk, hgame, mapEventName_wire]
      · exact absurd hk hkind
      · simp [normalizeSourceEvent, fromCrashEvent, hk, hgame, mapEventName_wire]
    · have hevent : (fromCrashEvent ev "native-bc-socket").event = rawName ev := by
        unfold HasPhase at hphase
        unfold fromCrashEvent
        cases hk : ev.kind <;> simp [hk] at hphase <;> rfl
      rw [normalizeSourceEvent, hevent, h.phase hphase]
  rw [normalized, hnone]

/-- A raw event with a phase, and with a game if its phase needs one, is normalized field by field. -/
theorem normalizeSourceEvent_of_phase (multiplierFromElapsed : Int → Double) (now : TimestampMs) {raw : RawSourceEvent}
    {phase : Realtime.RoundPhase} (hphase : Realtime.mapEventName raw.event = some phase)
    (hgame : phase = .progress ∨ ∃ g ∈ raw.gameId, g ≠ "") :
    ∃ n, normalizeSourceEvent multiplierFromElapsed raw now = some n ∧ n.phase = phase ∧
      n.gameId = raw.gameId.getD "" ∧ n.hash = raw.hash ∧ n.elapsedMs = raw.elapsedMs ∧
      n.beganAt = raw.beganAt.map toEpochMs ∧ n.crashedAt = raw.crashedAt.map toEpochMs ∧
      ∀ m ∈ raw.multiplier, n.multiplier = some m := by
  have hid : (raw.gameId.filter fun gameId => gameId ≠ "").getD "" = raw.gameId.getD "" := by
    rcases raw.gameId with _ | g
    · rfl
    · by_cases hg : g = ""
      · simp [Option.filter, hg]
      · simp [Option.filter, hg]
  have hkept : ¬(phase ≠ .progress ∧ (raw.gameId.filter fun gameId => gameId ≠ "").getD "" = "") := by
    rintro ⟨hne, hempty⟩
    obtain ⟨g, hg, hgne⟩ := hgame.resolve_left hne
    rw [hid, hg] at hempty
    exact hgne hempty
  unfold normalizeSourceEvent
  rw [hphase]
  dsimp only
  rw [if_neg hkept]
  refine ⟨_, rfl, rfl, hid, rfl, rfl, rfl, rfl, fun m hm => ?_⟩
  show (if _ then _ else _) = _
  rw [if_neg fun h => Option.some_ne_none m (hm.symm.trans h.2), hm]

/-- The phase that the wire name of a kind has. -/
def wirePhase : EventKind → Option Realtime.RoundPhase
  | .prepare => some .prepare
  | .start => some .begin
  | .progress => some .progress
  | .end => some .end
  | _ => none

/-- What the raw event has of an event. -/
structure RawOf (ev : CrashEvent) (raw : RawSourceEvent) : Prop where
  phase : HasPhase ev → Realtime.mapEventName raw.event = wirePhase ev.kind
  gameId : raw.gameId = if ev.gameId = "" then none else some ev.gameId
  hash : raw.hash = if ev.hash = "" then none else some ev.hash
  elapsedMs : raw.elapsedMs = if 0 ≤ ev.elapsedMs then some ev.elapsedMs else none
  beganAt : raw.beganAt = if ev.kind = .start then some ev.beganAtMs else none
  crashedAt : raw.crashedAt = if ev.kind = .end then some ev.endedAtMs else none
  progress : ev.kind = .progress → raw.multiplier = some ev.currentMult
  «end» : ev.kind = .end → raw.multiplier = some ev.crashPoint

theorem mapEventName_fromCrashEvent (sourceId : String) (h : HasPhase ev) :
    Realtime.mapEventName (fromCrashEvent ev sourceId).event = wirePhase ev.kind := by
  obtain ⟨hprepare, hstart, hprogress, hend⟩ := mapEventName_wire
  rcases h with hk | hk | hk | hk
  · simp only [fromCrashEvent, hk]
    exact hprepare
  · simp only [fromCrashEvent, hk]
    exact hstart
  · simp only [fromCrashEvent, hk]
    exact hprogress
  · simp only [fromCrashEvent, hk]
    exact hend

theorem rawOf_fromCrashEvent (ev : CrashEvent) (sourceId : String) : RawOf ev (fromCrashEvent ev sourceId) := by
  refine ⟨mapEventName_fromCrashEvent sourceId, ?_, ?_, ?_, ?_, ?_, ?_, ?_⟩
  all_goals
    unfold fromCrashEvent
    cases hk : ev.kind <;> simp

/-- The event of a normalized one. -/
theorem crashEventFromNormalized_fields (n : SourceRoundEvent) (ns : Int) :
    wirePhase (crashEventFromNormalized n ns).kind = some n.phase ∧ (crashEventFromNormalized n ns).gameId = n.gameId ∧
      (crashEventFromNormalized n ns).valid = true ∧ (crashEventFromNormalized n ns).hash = n.hash.getD "" ∧
      (crashEventFromNormalized n ns).elapsedMs = n.elapsedMs.getD (-1) ∧
      (crashEventFromNormalized n ns).beganAtMs = n.beganAt.getD 0 ∧
      (crashEventFromNormalized n ns).endedAtMs = n.crashedAt.getD 0 ∧
      (crashEventFromNormalized n ns).currentMult = (if n.phase = .progress then n.multiplier.getD 0 else 0) ∧
      (crashEventFromNormalized n ns).crashPoint = if n.phase = .end then n.multiplier.getD 0 else 0 := by
  unfold crashEventFromNormalized
  cases n.phase <;> exact ⟨rfl, rfl, rfl, rfl, rfl, rfl, rfl, rfl, rfl⟩

theorem wirePhase_injective {k k' : EventKind} {phase : Realtime.RoundPhase} (h : wirePhase k = some phase)
    (h' : wirePhase k' = some phase) : k = k' := by
  cases k <;> cases k' <;> first | rfl | cases h <;> cases h'

theorem getD_none_of_empty (s : String) : (if s = "" then none else some s).getD "" = s := by
  split
  · rename_i hempty
    exact hempty.symm
  · rfl

theorem carried_normalized (hphase : HasPhase ev) (hgame : ev.kind = .progress ∨ ev.gameId ≠ "") :
    Carried ev (normalized multiplierFromElapsed ev now ns) := by
  have hraw := rawOf_fromCrashEvent ev "native-bc-socket"
  generalize hrawIs : fromCrashEvent ev "native-bc-socket" = raw at hraw
  obtain ⟨phase, hwire⟩ : ∃ phase, wirePhase ev.kind = some phase := by
    rcases hphase with hk | hk | hk | hk <;> exact ⟨_, congrArg wirePhase hk⟩
  have hid : phase = .progress ∨ ∃ g ∈ raw.gameId, g ≠ "" := by
    refine hgame.imp (fun hk => ?_) fun h => ⟨ev.gameId, ?_, h⟩
    · exact Option.some.inj (hwire.symm.trans (congrArg wirePhase hk))
    · rw [hraw.gameId, if_neg h]
      rfl
  obtain ⟨n, hn, hnphase, hngame, hnhash, hnelapsed, hnbegan, hncrashed, hnmult⟩ :=
    normalizeSourceEvent_of_phase multiplierFromElapsed now ((hraw.phase hphase).trans hwire) hid
  have hout : normalized multiplierFromElapsed ev now ns = crashEventFromNormalized n ns := by
    rw [normalized, hrawIs, hn]
  obtain ⟨hkind, hgame', hvalid, hhash, helapsed, hbegan, hended, hmult, hcrash⟩ := crashEventFromNormalized_fields n ns
  rw [hout]
  rw [hnphase] at hkind hmult hcrash
  have hsame : (crashEventFromNormalized n ns).kind = ev.kind := wirePhase_injective hkind hwire
  refine ⟨hsame, ?_, hvalid, ?_, ?_, ?_, ?_, ?_, ?_⟩
  · rw [hgame', hngame, hraw.gameId, getD_none_of_empty]
  · rw [hcrash]
    by_cases hk : ev.kind = .end
    · rw [if_pos hk, hnmult _ (hraw.end hk)]
      rw [hk] at hwire
      cases hwire
      rfl
    · rw [if_neg hk, if_neg]
      rintro rfl
      exact hk (wirePhase_injective hwire rfl)
  · rw [hmult]
    by_cases hk : ev.kind = .progress
    · rw [if_pos hk, hnmult _ (hraw.progress hk)]
      rw [hk] at hwire
      cases hwire
      rfl
    · rw [if_neg hk, if_neg]
      rintro rfl
      exact hk (wirePhase_injective hwire rfl)
  · rw [hhash, hnhash, hraw.hash, getD_none_of_empty]
  · rw [helapsed, hnelapsed, hraw.elapsedMs]
    split <;> rfl
  · rw [hbegan, hnbegan, hraw.beganAt]
    split <;> rfl
  · rw [hended, hncrashed, hraw.crashedAt]
    split <;> rfl

/-! ### When nothing is lost -/

theorem sameTime_zero {t : TimestampMs} (ht : 0 ≤ t) : SameTime t 0 ↔ t = 0 := by
  refine ⟨fun h => ?_, fun h => .inl h.symm⟩
  rcases h with h | h
  · exact h.symm
  · unfold toEpochMs at h
    split at h
    · rename_i hle
      exact le_antisymm hle ht
    · rename_i hpos
      split at h
      · exact absurd h (ne_of_lt (Int.mul_pos (Int.not_le.mp hpos) (by decide)))
      · exact h.symm

theorem Preserves.refl (ev : CrashEvent) : Preserves ev ev := ⟨rfl, rfl, rfl, rfl, rfl, rfl, rfl, .inl rfl, .inl rfl⟩

/-- What is left to compare when the event goes through the raw one. -/
theorem Carried.preserves_iff {out : CrashEvent} (hc : Carried ev out) (h : Decoded ev) : Preserves ev out ↔
    ev.valid = true ∧ (ev.kind = .progress ∨ ev.currentMult = 0) ∧ (ev.kind = .start ∨ ev.beganAtMs = 0) := by
  have hcrash : out.crashPoint = ev.crashPoint := by
    rw [hc.crashPoint]
    split
    · rfl
    · rename_i hk
      exact (h.crashPoint hk).symm
  have helapsed : out.elapsedMs = ev.elapsedMs := by
    rw [hc.elapsedMs]
    rcases h.elapsed with helapsed | helapsed
    · exact if_pos helapsed
    · rw [helapsed]
      rfl
  have hended : SameTime ev.endedAtMs out.endedAtMs := by
    rw [hc.ended]
    split
    · exact .inr rfl
    · rename_i hk
      exact .inl (h.ended hk).symm
  have hmult : out.currentMult = ev.currentMult ↔ ev.kind = .progress ∨ ev.currentMult = 0 := by
    rw [hc.currentMult]
    split
    · rename_i hk
      exact iff_of_true rfl (.inl hk)
    · rename_i hk
      exact ⟨fun hm => .inr hm.symm, fun hm => (hm.resolve_left hk).symm⟩
  have hbegan : SameTime ev.beganAtMs out.beganAtMs ↔ ev.kind = .start ∨ ev.beganAtMs = 0 := by
    rw [hc.began]
    split
    · rename_i hk
      exact iff_of_true (.inr rfl) (.inl hk)
    · rename_i hk
      exact (sameTime_zero h.began).trans ⟨.inr, fun hb => hb.resolve_left hk⟩
  refine ⟨fun hp => ⟨hp.valid.symm.trans hc.valid, hmult.mp hp.currentMult, hbegan.mp hp.began⟩, ?_⟩
  rintro ⟨hvalid, hm, hb⟩
  exact ⟨hc.kind, hc.gameId, hc.valid.trans hvalid.symm, hcrash, hmult.mpr hm, hc.hash, helapsed, hbegan.mpr hb, hended⟩

/-- A decoded event is preserved exactly if it carries no more than its phase keeps. -/
theorem Decoded.preserves_iff (h : Decoded ev) (now : TimestampMs) (ns : Int) :
    Preserves ev (normalized multiplierFromElapsed ev now ns) ↔ CarriesNoMore ev := by
  by_cases hrejected : ¬HasPhase ev ∨ (ev.kind ≠ .progress ∧ ev.gameId = "")
  · rw [normalized_of_rejected h hrejected]
    refine iff_of_true (Preserves.refl ev) ?_
    unfold CarriesNoMore
    rcases hrejected with hphase | ⟨hkind, hgame⟩
    · unfold HasPhase at hphase
      cases hk : ev.kind <;> simp [hk] at hphase ⊢
    · cases hk : ev.kind <;> simp_all
  rw [not_or, not_not, not_and_or, not_not] at hrejected
  obtain ⟨hphase, hgame⟩ := hrejected
  rw [(carried_normalized hphase hgame).preserves_iff h]
  unfold CarriesNoMore
  rcases hphase with hk | hk | hk | hk
  · have hgame' : ev.gameId ≠ "" := hgame.resolve_left (by simp [hk])
    simp [hk, hgame', h.named (by simp [hk]) hgame']
  · have hgame' : ev.gameId ≠ "" := hgame.resolve_left (by simp [hk])
    simp [hk, hgame', h.named (by simp [hk]) hgame']
  · simp [hk, (h.anonymous hk).2]
  · have hgame' : ev.gameId ≠ "" := hgame.resolve_left (by simp [hk])
    simp [hk, hgame', h.named (by simp [hk]) hgame', h.currentMult hk]

theorem decodeAndNormalizeBinary_of_decoded {d d' : EventDecoder} {data : Bytes} {clock : Readings}
    (h : d.decodeBinary multiplierFromElapsed data .nativeSocket clock = some (d', .ok ev)) (now : TimestampMs) (ns : Int) :
    decodeAndNormalizeBinary multiplierFromElapsed d data clock now ns =
      some (d', some (normalized multiplierFromElapsed ev now ns)) := by
  rw [decodeAndNormalizeBinary, h]
  rfl

/-- Of the frames that `decodeBinary` accepts, the normalization preserves exactly those whose event carries no more
    than its phase keeps. -/
theorem decodeAndNormalizeBinary_preserves_iff {d d' : EventDecoder} {data : Bytes} {clock : Readings}
    (h : d.decodeBinary multiplierFromElapsed data .nativeSocket clock = some (d', .ok ev)) :
    (∃ out, decodeAndNormalizeBinary multiplierFromElapsed d data clock now ns = some (d', some out) ∧
      Preserves ev out) ↔ CarriesNoMore ev := by
  rw [← (decoded_of_decodeBinary h).preserves_iff now ns, decodeAndNormalizeBinary_of_decoded h]
  exact ⟨fun ⟨out, heq, hp⟩ => Option.some.inj (Prod.mk.inj (Option.some.inj heq)).2 ▸ hp, fun hp => ⟨_, rfl, hp⟩⟩

/-- The start of a progress curve. -/
theorem decodeAndNormalizeBinary_preserves_progress :
    ∃ out, decodeAndNormalizeBinary (fun _ => 1) {} (encodeEvent (ascii "/g/cm") (ascii "pg") (encodeProgressPayload 0))
      ⟨0, 0, 0, 0⟩ 0 0 = some ({ decoded := 1 }, some out) ∧
        Preserves (progressEvent (fun _ => 1) .nativeSocket ⟨0, 0, 0, 0⟩ 0) out := by
  have decoded : decodeBinary (fun _ => 1) {} (encodeEvent (ascii "/g/cm") (ascii "pg") (encodeProgressPayload 0))
      .nativeSocket ⟨0, 0, 0, 0⟩ = some ({ decoded := 1 }, .ok (progressEvent (fun _ => 1) .nativeSocket ⟨0, 0, 0, 0⟩ 0)) :=
    decodeBinary_progress {} .nativeSocket ⟨0, 0, 0, 0⟩ (by decide) (by decide : 0 < 2 ^ 56)
  exact (decodeAndNormalizeBinary_preserves_iff decoded).mpr rfl

/-- The fields of an End of game 7 at 2.50 with the begin of the round. -/
def fullEndFields : List Field := [(1, .number 7), (3, .number 1700000000), (6, .number 250)]

def fullEndFrame : Bytes := encodeEvent (ascii "/g/cm") (ascii "ed") (encodeProtobuf fullEndFields)

/-- The begin of the round is lost. -/
theorem not_preserves_fullEnd : ∃ d ev out,
    decodeBinary (fun _ => 1) {} fullEndFrame .nativeSocket ⟨0, 1700000020000, 0, 0⟩ = some (d, .ok ev) ∧
      decodeAndNormalizeBinary (fun _ => 1) {} fullEndFrame ⟨0, 1700000020000, 0, 0⟩ 1700000020000 0 = some (d, some out) ∧
      ev.beganAtMs = 1700000000 ∧ out.beganAtMs = 0 ∧ ¬Preserves ev out := by
  have hfields : decodeProtobuf (encodeProtobuf fullEndFields) (encodeProtobuf fullEndFields).length =
      some (lastWrites fullEndFields) := by
    refine decodeProtobuf_encodeProtobuf fun f hf => ?_
    simp only [fullEndFields, List.mem_cons, List.not_mem_nil, or_false] at hf
    rcases hf with rfl | rfl | rfl <;> simp [Encodable]
  have hname : toText (ascii "ed") = "ed" ∧ EventDecoder.mapEventName "ed" = .end := by decide
  have hdecoded : ∃ d ev, decodeBinary (fun _ => 1) {} fullEndFrame .nativeSocket ⟨0, 1700000020000, 0, 0⟩ =
      some (d, .ok ev) ∧ ev.beganAtMs = 1700000000 ∧ ev.kind = .end ∧ ev.gameId = "7" := by
    rw [fullEndFrame, decodeBinary_encodeEvent _ _ _ (by decide) (by decide)]
    simp only [decodeEventPacket, hname, hfields, Option.map_some, reduceCtorEq, if_false]
    rw [if_neg (show encodeProtobuf fullEndFields ≠ [] from encodeProtobuf_ne_nil)]
    exact ⟨_, _, rfl, by decide, by decide, by decide⟩
  obtain ⟨d, ev, hdecoded, hbegan, hkind, hgame⟩ := hdecoded
  have hc : Carried ev (normalized (fun _ => 1) ev 1700000020000 0) :=
    carried_normalized (.inr (.inr (.inr hkind))) (.inr (by simp [hgame]))
  have hzero : (normalized (fun _ => 1) ev 1700000020000 0).beganAtMs = 0 := hc.began.trans (if_neg (by simp [hkind]))
  refine ⟨d, ev, _, hdecoded, decodeAndNormalizeBinary_of_decoded hdecoded _ _, hbegan, hzero, fun hp => ?_⟩
  have hlost := hp.began
  rw [hzero, hbegan] at hlost
  exact absurd hlost (by decide)

end CrashCore
