import CrashCore.Application.RoundFrames
import CrashCore.Library.Run
import CrashCore.Theorems.DedupeKeys
import CrashCore.Theorems.SyntheticRounds

/-! When the progress of a new round is suppressed. Progress has no round in its key, so an elapsed time that the last
8192 events had, in whatever round, is a duplicate for the filter. -/

namespace CrashCore

/-! ### The filter -/

namespace DuplicateFilter

/-- What the filter lets through is valid and new, and its key is kept; anything else leaves the keys as they are. -/
theorem accept_cases (d : DuplicateFilter) (ev : CrashEvent) : (d.accept ev).1.max = d.max ∧
    (((d.accept ev).2 = true ∧ ev.valid = true ∧ (d.accept ev).1.order = (d.order ++ [makeKey ev]).popFrontTo d.max) ∨
      ((d.accept ev).2 = false ∧ (d.accept ev).1.order = d.order)) := by
  unfold accept
  split
  · exact ⟨rfl, .inr ⟨rfl, rfl⟩⟩
  rename_i hv
  split
  · exact ⟨rfl, .inr ⟨rfl, rfl⟩⟩
  · exact ⟨rfl, .inl ⟨rfl, not_not.mp hv, rfl⟩⟩

end DuplicateFilter

/-! ### Rounds -/

namespace RoundStateRegistry
variable {r r' : RoundStateRegistry} {id : GameId} {ev : CrashEvent} {now : TimestampMs} {st : LiveRoundState}

/-- The round is there and not sealed. -/
def Open (r : RoundStateRegistry) (id : GameId) : Prop := ∃ st, r.get id = some st ∧ st.sealed = false

theorem get_of_byId (h : r.byId = r'.byId) (id : GameId) : r.get id = r'.get id := by rw [get, get, h]

theorem Open.not_sealed (h : r.Open id) : ¬r.Sealed id := by
  rintro ⟨st, hst, hsealed⟩
  obtain ⟨st', hst', hopen⟩ := h
  rw [hst', Option.mem_some_iff] at hst
  subst hst
  rw [hopen] at hsealed
  cases hsealed

/-- An open round stays open but for its End. -/
theorem Open.apply (h : r.Open id) (hend : ev.kind = .end → r.keyOf ev ≠ id) : (r.apply ev now).1.Open id := by
  by_cases hk : r.Keyed ev
  swap
  · rwa [apply_of_not_keyed hk]
  by_cases hi : r.Ignores ev
  · rw [apply_of_ignores hk hi]
    by_cases hid : id = r.keyOf ev
    · refine ⟨_, (get_put id).trans (if_pos hid), ?_⟩
      exact Bool.eq_false_iff.mpr (mt sealed_stamped.mp (hid ▸ h.not_sealed))
    · obtain ⟨st, hst, hopen⟩ := h
      exact ⟨st, ((get_put id).trans (if_neg hid)).trans hst, hopen⟩
  · obtain ⟨st, hst, -, hbyId⟩ := apply_of_accepts now hk hi
    by_cases hid : id = r.keyOf ev
    · refine ⟨st, ((get_of_byId hbyId id).trans (get_put id)).trans (if_pos hid), ?_⟩
      exact Bool.eq_false_iff.mpr (mt hst.sealed.mp fun hkind => hend hkind hid.symm)
    · obtain ⟨st', hst', hopen⟩ := h
      exact ⟨st', (((get_of_byId hbyId id).trans (get_put id)).trans (if_neg hid)).trans hst', hopen⟩

/-- A Start opens its round. -/
theorem open_of_start (r : RoundStateRegistry) (now : TimestampMs) (hk : r.Keyed ev) (hkind : ev.kind = .start) :
    (r.apply ev now).1.Open (r.keyOf ev) := by
  have hi : ¬r.Ignores ev := by
    unfold Ignores
    rw [hkind]
    exact id
  obtain ⟨st, hst, -, hbyId⟩ := apply_of_accepts now hk hi
  refine ⟨st, ((get_of_byId hbyId _).trans (get_put _)).trans (if_pos rfl), ?_⟩
  exact Bool.eq_false_iff.mpr (mt hst.sealed.mp (by rw [hkind]; decide))

/-- Progress sets the multiplier of an open round. -/
theorem apply_progress (now : TimestampMs) (hk : r.Keyed ev) (hkind : ev.kind = .progress) (h : r.Open (r.keyOf ev))
    (hmult : 0 < ev.currentMult) : (r.apply ev now).1.currentId = r.currentId ∧
      ∃ st, (r.apply ev now).1.get (r.keyOf ev) = some st ∧ st.multiplier = ev.currentMult := by
  have hstamped : ¬(r.stamped ev now).sealed = true := mt sealed_stamped.mp h.not_sealed
  have hopen : ¬((r.get (r.keyOf ev)).getD {}).sealed = true := hstamped
  have hcond : ¬(¬ev.valid = true ∨ r.keyOf ev = "") := not_or.mpr ⟨not_not_intro hk.1, hk.2⟩
  unfold RoundStateRegistry.apply
  dsimp only
  rw [if_neg hcond]
  simp only [hkind, if_neg hopen, if_pos hmult]
  exact ⟨rfl, _, (get_put _).trans (if_pos rfl), rfl⟩

end RoundStateRegistry

/-! ### Events out of frames -/

namespace EventDecoder
variable {curve : Int → Double} {d d' : EventDecoder} {pkt : SocketIoPacket} {data : Bytes} {source : EventSource}
  {clock : Readings} {ev : CrashEvent}

/-- What the decoder makes of progress, and of the events that begin and end rounds. -/
structure FromFrame (curve : Int → Double) (ev : CrashEvent) : Prop where
  named : ev.valid = true → ev.kind = .start ∨ ev.kind = .end → ev.gameId ≠ ""
  unnamed : ev.kind = .progress → DuplicateFilter.idOf ev = "" ∧ ev.sequence = 0
  mult : ev.valid = true → ev.kind = .progress → ev.currentMult = curve ev.elapsedMs

theorem fromFrame_other (hstart : ev.kind ≠ .start) (hend : ev.kind ≠ .end) (hprogress : ev.kind ≠ .progress) :
    FromFrame curve ev where
  named _ hkind := absurd hkind (not_or.mpr ⟨hstart, hend⟩)
  unnamed hkind := absurd hkind hprogress
  mult _ hkind := absurd hkind hprogress

theorem applyPayload_kind (ev : CrashEvent) (payload : CrashPayload) :
    (applyPayload curve ev payload).kind = ev.kind := by
  unfold applyPayload
  dsimp only
  split <;> rfl

theorem applyPayload_valid (ev : CrashEvent) (payload : CrashPayload) (hkind : ev.kind ≠ .progress)
    (hv : (applyPayload curve ev payload).valid = true) : (applyPayload curve ev payload).gameId ≠ "" := by
  unfold applyPayload at hv ⊢
  dsimp only at hv ⊢
  split at hv
  all_goals
    split
    all_goals simpa [hkind] using hv

theorem decodeEventPacket_fromFrame (h : decodeEventPacket curve d pkt source clock = some (d', .ok ev)) :
    FromFrame curve ev := by
  unfold decodeEventPacket at h
  dsimp only at h
  generalize mapEventName (toText pkt.event) = kind at h
  split at h
  · cases h
  obtain ⟨decoded, hdecoded, h⟩ := Option.map_eq_some_iff.mp h
  cases h
  split at hdecoded
  · cases hdecoded
    refine ⟨fun hv hkind => ?_, fun _ => ⟨rfl, rfl⟩, fun hv hkind => ?_⟩
    · rcases hkind with rfl | rfl <;> cases hv
    · obtain rfl : kind = .progress := hkind
      cases hv
  split at hdecoded
  · rename_i hkind
    subst hkind
    obtain ⟨elapsed, -, helapsed⟩ := Option.map_eq_some_iff.mp hdecoded
    rcases elapsed with _ | elapsedMs
    · cases helapsed
      exact ⟨nofun, fun _ => ⟨rfl, rfl⟩, nofun⟩
    · cases helapsed
      exact ⟨fun _ hkind => by simp at hkind, fun _ => ⟨rfl, rfl⟩, fun _ _ => rfl⟩
  · rename_i hprogress
    obtain ⟨fields, -, rfl⟩ := Option.map_eq_some_iff.mp hdecoded
    have hkind : (applyPayload curve
        { kind, source, receivedAtNs := clock.receivedNs, rawEventName := toText pkt.event }
        (fieldsToPayload curve (toText pkt.event) fields clock.payloadMs)).kind = kind := applyPayload_kind _ _
    refine ⟨fun hv _ => applyPayload_valid _ _ hprogress hv, fun h => ?_, fun _ h => ?_⟩
    · exact absurd (hkind.symm.trans h) hprogress
    · exact absurd (hkind.symm.trans h) hprogress

theorem decodeBinary_fromFrame (h : decodeBinary curve d data source clock = some (d', .ok ev)) :
    FromFrame curve ev := by
  unfold decodeBinary at h
  dsimp only at h
  split at h
  · cases h
  split at h
  · cases h
    exact fromFrame_other nofun nofun nofun
  split at h
  · cases h
  split at h
  · obtain ⟨pkt, -, h⟩ := Option.bind_eq_some_iff.mp h
    split at h
    · exact decodeEventPacket_fromFrame h
    split at h
    · cases h
      exact fromFrame_other nofun nofun nofun
    · cases h
  · split at h <;> cases h

end EventDecoder

/-! ### What a frame does -/

namespace RoundFrames
open Transition EventDecoder DuplicateFilter

variable {κ : Type} {submit : κ → PredictionRequest → Submission κ} {exp : Double → Double} {w t : Watched κ}
  {s s' : State κ} {f : Frame} {ev : CrashEvent} {since : GameId → Option (List Int)} {passed : Bool} {id : GameId}
  {l : List Int} {client : κ} {queueCapacity : Nat} {outbox : OutboxLifecycle} {d : EventDecoder}

theorem intake_dupes (s : State κ) (f : Frame) (ev : CrashEvent) :
    (PipelineLoop.intake s.loop (.ok ev) f.accepted f.ns).1.dupes.max = s.loop.dupes.max ∧
      ((passes s f ev = true ∧ ev.valid = true ∧
          (PipelineLoop.intake s.loop (.ok ev) f.accepted f.ns).1.dupes.order =
            (s.loop.dupes.order ++ [makeKey ev]).popFrontTo s.loop.dupes.max) ∨
        (passes s f ev = false ∧
          (PipelineLoop.intake s.loop (.ok ev) f.accepted f.ns).1.dupes.order = s.loop.dupes.order)) := by
  have haccept := accept_cases s.loop.dupes ev
  unfold passes PipelineLoop.intake
  dsimp only
  by_cases hcontrol : ¬f.accepted = true ∧ (ev.kind = .heartbeat ∨ ev.kind = .connect)
  · rw [if_pos hcontrol]
    exact ⟨rfl, .inr ⟨rfl, rfl⟩⟩
  by_cases hinvalid : ¬f.accepted = true ∧ ¬ev.valid = true
  · rw [if_neg hcontrol, if_pos hinvalid]
    exact ⟨rfl, .inr ⟨rfl, rfl⟩⟩
  rw [if_neg hcontrol, if_neg hinvalid]
  revert haccept
  rcases s.loop.dupes.accept ev with ⟨dupes, _ | _⟩
  · exact id
  · exact id

/-- Only what passes is applied to the rounds. -/
theorem takeIn_ok (h : takeIn submit s f (.ok ev) = some s') :
    s'.loop.dupes = (PipelineLoop.intake s.loop (.ok ev) f.accepted f.ns).1.dupes ∧
      s'.rounds = if passes s f ev then (s.rounds.apply ev f.now).1 else s.rounds := by
  obtain ⟨loop, hloop, rfl⟩ := Option.map_eq_some_iff.mp h
  have hdupes := PipelineLoop.step_dupes hloop
  unfold passes
  rcases (PipelineLoop.intake s.loop (.ok ev) f.accepted f.ns).2 with _ | _
  · exact ⟨hdupes, rfl⟩
  · exact ⟨hdupes, rfl⟩

theorem takeIn_error {e : Error} (h : takeIn submit s f (.error e) = some s') :
    s'.loop.dupes = s.loop.dupes ∧ s'.rounds = s.rounds := by
  obtain ⟨loop, hloop, rfl⟩ := Option.map_eq_some_iff.mp h
  exact ⟨PipelineLoop.step_dupes hloop, rfl⟩

/-- A round is heard of as open when it has just been started, or was open before and has not been ended. -/
theorem hear_some (h : hear since ev passed id = some l) : (passed = true ∧ ev.kind = .start ∧ ev.gameId = id) ∨
    ((∃ l, since id = some l) ∧ (passed = true → ev.kind = .end → ev.gameId ≠ id)) := by
  cases hkind : ev.kind <;> simp only [hear, hkind] at h
  case start =>
    split at h
    · by_cases hid : ev.gameId = id
      · exact .inl ⟨‹_›, rfl, hid⟩
      · rw [Function.update_of_ne (Ne.symm hid)] at h
        exact .inr ⟨⟨l, h⟩, nofun⟩
    · exact .inr ⟨⟨l, h⟩, nofun⟩
  case «end» =>
    split at h
    · have hid : ev.gameId ≠ id := by
        rintro rfl
        rw [Function.update_self] at h
        cases h
      rw [Function.update_of_ne (Ne.symm hid)] at h
      exact .inr ⟨⟨l, h⟩, fun _ _ => hid⟩
    · exact .inr ⟨⟨l, h⟩, fun hpassed => absurd hpassed ‹_›⟩
  case progress =>
    split at h
    · obtain ⟨l', hl', -⟩ := Option.map_eq_some_iff.mp h
      exact .inr ⟨⟨l', hl'⟩, nofun⟩
    · exact .inr ⟨⟨l, h⟩, nofun⟩
  all_goals exact .inr ⟨⟨l, h⟩, nofun⟩

/-- The filter knows the last events that it let through, and the rounds heard of as open are. -/
structure Inv (w : Watched κ) : Prop where
  max : w.state.loop.dupes.max = 8192
  order : w.state.loop.dupes.order = (w.taken.map makeKey).popFrontTo 8192
  unnamed : ∀ ev ∈ w.taken, ev.kind = .progress → idOf ev = "" ∧ ev.sequence = 0
  isOpen : ∀ id l, w.since id = some l → id ≠ "" ∧ w.state.rounds.Open id

theorem keyOf_named (r : RoundStateRegistry) (h : ev.gameId ≠ "") : r.keyOf ev = ev.gameId := by
  simp [RoundStateRegistry.keyOf, h]

theorem Inv.take_ok (h : Inv w) (hev : FromFrame (multiplierFromElapsed exp) ev)
    (ht : take submit w f (.ok ev) = some t) : Inv t := by
  obtain ⟨state, hstate, rfl⟩ := Option.map_eq_some_iff.mp ht
  obtain ⟨hdupes, hrounds⟩ := takeIn_ok hstate
  obtain ⟨hmax, hcases⟩ := intake_dupes w.state f ev
  rcases hcases with ⟨hpasses, hv, horder⟩ | ⟨hpasses, horder⟩
  swap
  · rw [hpasses, if_neg Bool.false_ne_true] at hrounds
    dsimp only
    rw [hpasses]
    refine ⟨?_, ?_, h.unnamed, fun id l hsince => ?_⟩
    · rw [hdupes, hmax, h.max]
    · rw [hdupes, horder, h.order]
      rfl
    · obtain ⟨hpassed, -⟩ | ⟨⟨l', hl'⟩, -⟩ := hear_some hsince
      · cases hpassed
      · rw [hrounds]
        exact h.isOpen id l' hl'
  · rw [hpasses, if_pos rfl] at hrounds
    dsimp only
    rw [hpasses]
    refine ⟨?_, ?_, fun ev' hev' => ?_, fun id l hsince => ?_⟩
    · rw [hdupes, hmax, h.max]
    · rw [hdupes, horder, h.order, h.max, List.popFrontTo_append_singleton]
      simp
    · rcases List.mem_append.mp hev' with hev' | hev'
      · exact h.unnamed ev' hev'
      · obtain rfl := List.mem_singleton.mp hev'
        exact hev.unnamed
    · rw [hrounds]
      obtain ⟨-, hkind, rfl⟩ | ⟨⟨l', hl'⟩, hend⟩ := hear_some hsince
      · have hnamed := hev.named hv (.inl hkind)
        have hkey := keyOf_named w.state.rounds hnamed
        exact ⟨hnamed, hkey ▸ RoundStateRegistry.open_of_start w.state.rounds f.now ⟨hv, hkey ▸ hnamed⟩ hkind⟩
      · obtain ⟨hid, hopen⟩ := h.isOpen id l' hl'
        refine ⟨hid, hopen.apply fun hkind => ?_⟩
        rw [keyOf_named w.state.rounds (hev.named hv (.inr hkind))]
        exact hend rfl hkind

theorem Inv.watch (h : Inv w) (ht : watch submit exp w f = some t) : Inv t := by
  obtain ⟨⟨d, decoded⟩, hd, ht⟩ := Option.bind_eq_some_iff.mp ht
  rcases decoded with e | ev
  · obtain ⟨state, hstate, rfl⟩ := Option.map_eq_some_iff.mp ht
    obtain ⟨hdupes, hrounds⟩ := takeIn_error hstate
    refine ⟨?_, ?_, h.unnamed, fun id l hsince => ?_⟩
    · rw [hdupes, h.max]
    · rw [hdupes, h.order]
    · rw [hrounds]
      exact h.isOpen id l hsince
  · exact h.take_ok (decodeBinary_fromFrame hd) ht

theorem inv_initial : Inv (Watched.initial client queueCapacity outbox) where
  max := rfl
  order := rfl
  unnamed _ hev := absurd hev List.not_mem_nil
  isOpen _ _ hsince := absurd hsince (Option.some_ne_none _).symm

/-- The last events that the filter let through have no progress with the elapsed time. -/
def NotRecent (taken : List CrashEvent) (elapsedMs : Int) : Prop :=
  ∀ ev ∈ taken.popFrontTo 8192, ev.kind = .progress → ev.elapsedMs ≠ elapsedMs

/-- The filter knows a progress event exactly if its elapsed time is recent. -/
theorem Inv.known_iff (h : Inv w) (hev : FromFrame (multiplierFromElapsed exp) ev) (hkind : ev.kind = .progress) :
    makeKey ev ∉ w.state.loop.dupes.order ↔ NotRecent w.taken ev.elapsedMs := by
  rw [h.order, ← List.map_popFrontTo]
  refine ⟨fun hnew ev' hev' hkind' helapsed => hnew ?_, fun hnot hmem => ?_⟩
  · obtain ⟨hid', hsequence'⟩ := h.unnamed ev' ((List.popFrontTo_suffix _).subset hev') hkind'
    obtain ⟨hid, hsequence⟩ := hev.unnamed hkind
    refine List.mem_map.mpr ⟨ev', hev', ?_⟩
    have hkey (ev : CrashEvent) : makeKey ev =
        idOf ev ++ ":" ++ toString ev.kind.toNat ++ ":" ++ toString ev.sequence ++ ":" ++ toString ev.elapsedMs := rfl
    rw [hkey, hkey, hid, hid', hkind, hkind', hsequence, hsequence', helapsed]
  · obtain ⟨ev', hev', hkey⟩ := List.mem_map.mp hmem
    obtain ⟨-, hkind', -, helapsed⟩ := makeKey_inj hkey
    exact hnot ev' hev' (hkind'.trans hkind) helapsed

/-- After any frames, in a current round that is started and not ended, progress that was not received since the Start
    is let through and sets the multiplier exactly if the last 8192 events let through have no progress with the same
    elapsed time. -/
theorem progress_passes_iff
    (hr : Reaches (RoundFrames.watch submit exp) anyStep (Watched.initial client queueCapacity outbox) w)
    (hd : decodeBinary (multiplierFromElapsed exp) {} f.data .nativeSocket f.clock = some (d, .ok ev))
    (hkind : ev.kind = .progress) (hv : ev.valid = true) (hopen : w.since w.state.rounds.currentId = some l)
    (_ : ev.elapsedMs ∉ l) (ht : RoundFrames.watch submit exp w f = some t) :
    (passes w.state f ev = true ∧ t.state.rounds.currentId = w.state.rounds.currentId ∧
      ∃ st, t.state.rounds.get t.state.rounds.currentId = some st ∧
        st.multiplier = multiplierFromElapsed exp ev.elapsedMs) ↔ NotRecent w.taken ev.elapsedMs := by
  have h : Inv w := hr.invariant inv_initial fun _ _ _ hs _ ht => hs.watch ht
  have hev := decodeBinary_fromFrame hd
  have hpasses : passes w.state f ev = true ↔ makeKey ev ∉ w.state.loop.dupes.order := by
    have hmain : ev.kind ≠ .heartbeat ∧ ev.kind ≠ .connect := by
      rw [hkind]
      decide
    rw [passes, (PipelineLoop.intake_valid w.state.loop f.ns hv hmain f.accepted).1, accept_iff]
    exact and_iff_right hv
  rw [← h.known_iff hev hkind, ← hpasses]
  refine ⟨And.left, fun hpass => ⟨hpass, ?_⟩⟩
  rw [RoundFrames.watch, hd] at ht
  obtain ⟨state, hstate, rfl⟩ := Option.map_eq_some_iff.mp ht
  obtain ⟨-, hrounds⟩ := takeIn_ok hstate
  rw [hpass, if_pos rfl] at hrounds
  obtain ⟨hid, hround⟩ := h.isOpen _ _ hopen
  have hkey : w.state.rounds.keyOf ev = w.state.rounds.currentId := by
    have hnamed : (if ev.gameId ≠ "" then ev.gameId else ev.roundId) = "" := (hev.unnamed hkind).1
    rw [RoundStateRegistry.keyOf, hnamed]
    exact if_pos ⟨rfl, hkind⟩
  have hmult := hev.mult hv hkind
  obtain ⟨hcurrent, st, hst, hset⟩ := RoundStateRegistry.apply_progress f.now ⟨hv, hkey ▸ hid⟩ hkind (hkey ▸ hround)
    (hmult ▸ lt_of_lt_of_le one_pos (one_le_multiplierFromElapsed exp _))
  dsimp only
  rw [hrounds, hcurrent, ← hkey]
  exact ⟨rfl, st, hst, hset.trans hmult⟩

/-! ### Two rounds -/

def beginFrame (gameId : Nat) : Bytes := encodeEvent (ascii "/g/cm") (ascii "bg") (encodeEndPayload gameId 1 .empty)

def beginEvent (clock : Readings) (gameId : Nat) : CrashEvent where
  kind := .start
  source := .nativeSocket
  roundId := toString gameId
  gameId := toString gameId
  currentMult := 1
  eventTimeMs := clock.eventMs
  receivedAtNs := clock.receivedNs
  decodedAtNs := clock.decodedNs
  rawEventName := "bg"
  valid := true

theorem decodeBinary_beginFrame (curve : Int → Double) (clock : Readings) {gameId : Nat} (hgameId : gameId < 2 ^ 56) :
    decodeBinary curve {} (beginFrame gameId) .nativeSocket clock = some (⟨1, 0⟩, .ok (beginEvent clock gameId)) := by
  have hname : toText (ascii "bg") = "bg" ∧ mapEventName "bg" = .start := by decide
  have hpayload : encodeProtobuf (endFields gameId 100 .empty) ≠ [] := encodeProtobuf_ne_nil
  have hempty : ByteString.empty.bytes = [] := rfl
  unfold beginFrame
  rw [← hundred, decodeBinary_encodeEvent {} .nativeSocket clock (by decide) (by decide),
    encodeEndPayload_hundredths (by decide)]
  simp only [decodeEventPacket, hname, hpayload, decodeProtobuf_endFields hgameId (by decide : 100 < 2 ^ 56), if_false,
    Option.map_some, reduceCtorEq]
  simp [applyPayload, beginEvent, fieldsToPayload, endFields, hempty, lastWrites, writes, getNum, getStr]

/-- A run over frames that are decoded so. -/
theorem run_of_decoded : ∀ {ps : List (Frame × Except Error CrashEvent)} (w : Watched κ),
    (∀ p ∈ ps, ∃ d, decodeBinary (multiplierFromElapsed exp) {} p.1.data .nativeSocket p.1.clock = some (d, p.2)) →
      run (RoundFrames.watch submit exp) w (ps.map (·.1)) = run (fun w p => take submit w p.1 p.2) w ps
  | [], _, _ => rfl
  | p :: ps, w, h => by
    obtain ⟨d, hd⟩ := h p List.mem_cons_self
    have hstep : RoundFrames.watch submit exp w p.1 = take submit w p.1 p.2 := by
      rw [RoundFrames.watch, hd]
      rfl
    rw [List.map_cons, run, run, hstep]
    exact congrArg _ (funext fun w => run_of_decoded w fun p hp => h p (List.mem_cons_of_mem _ hp))

/-- The exponential close to 0. -/
def growth (x : Double) : Double := 1 + x + x * x / 2

def ticked (elapsed : Nat) : Frame × Except Error CrashEvent :=
  ({ data := progressFrame elapsed },
    .ok (progressEvent (multiplierFromElapsed growth) .nativeSocket ⟨0, 0, 0, 0⟩ elapsed))

def begun (gameId : Nat) : Frame × Except Error CrashEvent :=
  ({ data := beginFrame gameId }, .ok (beginEvent ⟨0, 0, 0, 0⟩ gameId))

theorem synth_fits : (ascii "synth").length < 2 ^ 56 := by decide

/-- The round ends at 1.00. -/
def ended (gameId : Nat) : Frame × Except Error CrashEvent :=
  ({ data := endFrame gameId ((100 : Nat) / 100) },
    .ok (endEvent .nativeSocket ⟨0, 0, 0, 0⟩ "ed" gameId 100 ⟨ascii "synth", synth_fits⟩))

/-- Round 1 with a tick at 5 ms, and the Start of round 2. -/
def nextStarted : List (Frame × Except Error CrashEvent) := [begun 1, ticked 5, ended 1, begun 2]

theorem decoded_nextStarted (last : Frame × Except Error CrashEvent) (hlast : last = ticked 5 ∨ last = ticked 7) :
    ∀ p ∈ nextStarted ++ [last],
      ∃ d, decodeBinary (multiplierFromElapsed growth) {} p.1.data .nativeSocket p.1.clock = some (d, p.2) := by
  intro p hp
  have hbegin (gameId : Nat) (h : gameId < 2 ^ 56) :=
    decodeBinary_beginFrame (multiplierFromElapsed growth) ⟨0, 0, 0, 0⟩ h
  have htick (elapsed : Nat) (h : elapsed < 2 ^ 56) :=
    decodeBinary_progressFrame (multiplierFromElapsed growth) ⟨0, 0, 0, 0⟩ h
  simp only [nextStarted, List.cons_append, List.nil_append, List.mem_cons, List.not_mem_nil, or_false] at hp
  rcases hp with rfl | rfl | rfl | rfl | rfl
  · exact ⟨_, hbegin 1 (by decide)⟩
  · exact ⟨_, htick 5 (by decide)⟩
  · exact ⟨_, decodeBinary_endFrame (multiplierFromElapsed growth) ⟨0, 0, 0, 0⟩ (by decide) (by decide)⟩
  · exact ⟨_, hbegin 2 (by decide)⟩
  · rcases hlast with rfl | rfl
    · exact ⟨_, htick 5 (by decide)⟩
    · exact ⟨_, htick 7 (by decide)⟩

def fresh : Watched Unit := Watched.initial () 4096 (.new 2048 30000)

/-- What is looked at after the Start of round 2. -/
def heard (w : Watched Unit) : GameId × Option (List Int) × List (EventKind × Int) :=
  (w.state.rounds.currentId, w.since "2", w.taken.map fun ev => (ev.kind, ev.elapsedMs))

theorem heard_nextStarted : (run (fun w p => take silent w p.1 p.2) fresh nextStarted).map heard =
    some ("2", some [], [(.start, -1), (.progress, 5), (.end, -1), (.start, -1)]) := by decide +kernel

/-- Round 2 is started, and a tick comes. -/
theorem exists_ticked {last : Frame × Except Error CrashEvent} (hlast : last = ticked 5 ∨ last = ticked 7)
    (hruns : (run (fun w p => take silent w p.1 p.2) fresh (nextStarted ++ [last])).isSome) : ∃ w t,
    Reaches (RoundFrames.watch silent growth) anyStep fresh w ∧
      heard w = ("2", some [], [(.start, -1), (.progress, 5), (.end, -1), (.start, -1)]) ∧
      RoundFrames.watch silent growth w last.1 = some t ∧
      run (fun w p => take silent w p.1 p.2) fresh (nextStarted ++ [last]) = some t := by
  obtain ⟨t, ht⟩ := Option.isSome_iff_exists.mp hruns
  have hdecoded := decoded_nextStarted last hlast
  have hall : run (RoundFrames.watch silent growth) fresh ((nextStarted ++ [last]).map (·.1)) = _ :=
    run_of_decoded fresh hdecoded
  rw [ht, List.map_append, run_append] at hall
  obtain ⟨w, hw, hlastStep⟩ := Option.bind_eq_some_iff.mp hall
  have hstep : RoundFrames.watch silent growth w last.1 = some t := by
    obtain ⟨u, hu, hrest⟩ := Option.bind_eq_some_iff.mp hlastStep
    cases hrest
    exact hu
  refine ⟨w, t, Reaches.of_run (meets_anyStep _ _) hw, ?_, hstep, ht⟩
  rw [run_of_decoded fresh fun p hp => hdecoded p (List.mem_append_left _ hp)] at hw
  have hheard := heard_nextStarted
  rw [hw] at hheard
  exact Option.some.inj hheard

/-- A tick at a time that no round had. -/
theorem progress_passes_seven : ∃ w t, RoundFrames.watch silent growth w (ticked 7).1 = some t ∧
    w.state.rounds.currentId = "2" ∧ t.state.rounds.currentId = "2" ∧
    ∃ st, t.state.rounds.get "2" = some st ∧ st.multiplier = multiplierFromElapsed growth 7 := by
  obtain ⟨w, t, hreaches, hheard, hstep, -⟩ := exists_ticked (.inr rfl) (by decide +kernel)
  obtain ⟨hcurrent, hsince, htaken⟩ : w.state.rounds.currentId = "2" ∧ w.since "2" = some [] ∧
      (w.taken.map fun ev => (ev.kind, ev.elapsedMs)) = [(.start, -1), (.progress, 5), (.end, -1), (.start, -1)] := by
    simpa [heard] using hheard
  have hnot : NotRecent w.taken 7 := by
    intro ev hev hkind helapsed
    have hmem : (ev.kind, ev.elapsedMs) ∈ w.taken.map fun ev => (ev.kind, ev.elapsedMs) :=
      List.mem_map_of_mem ((List.popFrontTo_suffix _).subset hev)
    rw [htaken, hkind, helapsed] at hmem
    exact absurd hmem (by decide)
  have hd := decodeBinary_progressFrame (multiplierFromElapsed growth) ⟨0, 0, 0, 0⟩ (by decide : 7 < 2 ^ 56)
  have hopen : w.since w.state.rounds.currentId = some [] := hcurrent ▸ hsince
  obtain ⟨-, hsame, hset⟩ := (progress_passes_iff hreaches hd rfl rfl hopen List.not_mem_nil hstep).mpr hnot
  rw [hsame, hcurrent] at hset
  exact ⟨w, t, hstep, hcurrent, hsame.trans hcurrent, hset⟩

/-- Round 2 is started and has no tick yet; its tick at 5 ms, which round 1 had too, changes nothing. -/
theorem not_progress_passes_five : ∃ w t, Reaches (RoundFrames.watch silent growth) anyStep fresh w ∧
    w.state.rounds.currentId = "2" ∧ w.since "2" = some [] ∧
    RoundFrames.watch silent growth w { data := progressFrame (5 : Nat) } = some t ∧
    ∃ st, t.state.rounds.get "2" = some st ∧ st.multiplier = 0 ∧ st.multiplier ≠ multiplierFromElapsed growth 5 := by
  obtain ⟨w, t, hreaches, hheard, hstep, hrun⟩ := exists_ticked (.inl rfl) (by decide +kernel)
  obtain ⟨hcurrent, hsince, -⟩ : w.state.rounds.currentId = "2" ∧ w.since "2" = some [] ∧
      (w.taken.map fun ev => (ev.kind, ev.elapsedMs)) = [(.start, -1), (.progress, 5), (.end, -1), (.start, -1)] := by
    simpa [heard] using hheard
  have hzero : ((run (fun w p => take silent w p.1 p.2) fresh (nextStarted ++ [ticked 5])).map fun t =>
      (t.state.rounds.get "2").map (·.multiplier)) = some (some 0) := by decide +kernel
  rw [hrun] at hzero
  obtain ⟨st, hst, hmult⟩ := Option.map_eq_some_iff.mp (Option.some.inj hzero)
  refine ⟨w, t, hreaches, hcurrent, hsince, hstep, st, hst, hmult, fun heq => ?_⟩
  have hone := one_le_multiplierFromElapsed growth 5
  rw [← heq, hmult] at hone
  exact absurd hone (by decide)

end RoundFrames
end CrashCore
