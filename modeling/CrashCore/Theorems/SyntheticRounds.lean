import CrashCore.Application.RoundFrames
import CrashCore.Library.Run
import CrashCore.Theorems.TriggerAgreement

/-! Synthetic rounds in a fresh pipeline loop. Their first frame is an End at 1.00 for the decoder, so the last one, an
End of the same round, is a duplicate. -/

namespace CrashCore

/-! ### The loop leaves the filter alone -/

namespace PipelineLoop
variable {κ : Type} (submit : κ → PredictionRequest → Submission κ) (s : State κ) (now : TimestampMs) (ns : Int)

theorem onPredictionResponse_dupes (resp : PredictionResponse) : (onPredictionResponse s resp now).dupes = s.dupes := by
  unfold onPredictionResponse
  dsimp only
  split
  · rfl
  · split <;> rfl

theorem submitTo_dupes (req : PredictionRequest) : (submitTo submit s req now).1.dupes = s.dupes := by
  unfold submitTo
  dsimp only
  split
  · rfl
  · exact onPredictionResponse_dupes _ now _

theorem predict_dupes (ev : CrashEvent) : (predict submit s ev now ns).dupes = s.dupes := by
  unfold predict
  split
  · rfl
  · exact (submitTo_dupes submit _ now _).trans (submitTo_dupes submit _ now _)

theorem drainPrediction_dupes : ∀ (fuel : Nat) (s : State κ), (drainPrediction submit now ns fuel s).dupes = s.dupes
  | 0, _ => rfl
  | fuel + 1, s => by
    rw [drainPrediction]
    split
    · rfl
    · exact (drainPrediction_dupes fuel _).trans (predict_dupes submit _ now ns _)

theorem drainValidation_dupes : ∀ (fuel : Nat) (s : State κ), (drainValidation now fuel s).dupes = s.dupes
  | 0, _ => rfl
  | fuel + 1, s => by
    rw [drainValidation]
    split
    · rfl
    · exact drainValidation_dupes fuel _

theorem drain_dupes (order : List Nat) : (drain submit s now ns order).dupes = s.dupes :=
  (drainValidation_dupes now _ _).trans (drainPrediction_dupes submit now ns _ s)

/-- A valid event gets in exactly if the filter does not know it. -/
theorem intake_valid {ev : CrashEvent} (hv : ev.valid = true) (hk : ev.kind ≠ .heartbeat ∧ ev.kind ≠ .connect)
    (accepted : Bool) :
    (intake s (.ok ev) accepted ns).2 = (s.dupes.accept ev).2 ∧
      (intake s (.ok ev) accepted ns).1.dupes = (s.dupes.accept ev).1 := by
  simp only [intake, hv, hk, or_self, and_false, not_true_eq_false, if_false]
  rcases s.dupes.accept ev with ⟨dupes, _ | _⟩
  · exact ⟨rfl, rfl⟩
  · exact ⟨rfl, rfl⟩

variable {submit s now ns}

/-- A step with a frame keeps the filter that `intake` leaves. -/
theorem step_dupes {decoded : Except Error CrashEvent} {accepted : Bool} {order : List Nat} {t : State κ}
    (h : step submit s (.frame decoded accepted now ns order) = some t) :
    t.dupes = (intake s decoded accepted ns).1.dupes := by
  simp only [step] at h
  split at h
  · rename_i u hu
    cases h
    rw [hu]
  · rename_i u hu
    obtain ⟨-, h⟩ := Option.ite_none_right_eq_some.mp h
    cases h
    rw [hu]
    exact drain_dupes submit u now ns order

end PipelineLoop
namespace RoundFrames
open Transition EventDecoder

variable {κ : Type} {submit : κ → PredictionRequest → Submission κ} {multiplierFromElapsed : Int → Double}
  {s t : State κ} {f : Frame} {ev : CrashEvent} {gameId : Nat}

/-- The round is sealed with the multiplier, which is recorded once, and one End is routed, with the multiplier. -/
structure Faithful (s : State κ) (gameId : Nat) (finalMult : Double) : Prop where
  isSealed : ∃ st, s.rounds.get (toString gameId) = some st ∧ st.sealed = true ∧ st.finalMult = finalMult
  recorded : s.stats.values = [finalMult]
  routed : ∃ ev, s.routed = [ev] ∧ ev.crashPoint = finalMult

/-- What is noted as routed is in both queues. -/
theorem Routes.queues {r : EventRouter} (h : Routes r ev) (t0 : Int) :
    (r.route ev t0).1.toValidation.items = r.toValidation.items ++ [{ ev with routedAtNs := t0 }] ∧
      (r.route ev t0).1.toPrediction.items = r.toPrediction.items ++ [{ ev with routedAtNs := t0 }] := by
  obtain ⟨hend, accepts, notFull⟩ := h
  refine ⟨((EventRouter.route_end t0 hend.1 hend.2).resolve_left fun refuses => accepts refuses.1).2, ?_⟩
  rw [EventRouter.route_toPrediction t0 notFull, if_pos ⟨hend, fun seen => accepts (.inl seen)⟩]

/-! ### Frames -/

/-- A valid event of a round is observed when it is new to the filter, and else dropped. -/
theorem takeIn_valid (hv : ev.valid = true) (hk : ev.kind ≠ .heartbeat ∧ ev.kind ≠ .connect)
    (h : takeIn submit s f (.ok ev) = some t) : t.loop.dupes = (s.loop.dupes.accept ev).1 ∧
      if (s.loop.dupes.accept ev).2 then
        t.rounds = (s.rounds.apply ev f.now).1 ∧ t.routed = (observe s ev f.now).routed ∧
          t.stats = (observe s ev f.now).stats
      else t.rounds = s.rounds ∧ t.routed = s.routed ∧ t.stats = s.stats := by
  obtain ⟨loop, hloop, rfl⟩ := Option.map_eq_some_iff.mp h
  obtain ⟨taken, dupes⟩ := PipelineLoop.intake_valid s.loop f.ns hv hk f.accepted
  have kept := PipelineLoop.step_dupes hloop
  rw [taken]
  rcases (s.loop.dupes.accept ev).2 with _ | _
  · exact ⟨kept.trans dupes, rfl, rfl, rfl⟩
  · exact ⟨kept.trans dupes, rfl, rfl, rfl⟩

theorem onFrame_of_decoded {d : EventDecoder} {decoded : Except Error CrashEvent}
    (hd : decodeBinary multiplierFromElapsed {} f.data .nativeSocket f.clock = some (d, decoded)) :
    onFrame submit multiplierFromElapsed s f = takeIn submit s f decoded := by
  rw [onFrame, hd]
  rfl

/-- What is routed stays. -/
theorem onFrame_routed (h : onFrame submit multiplierFromElapsed s f = some t) : s.routed <+: t.routed := by
  obtain ⟨⟨d, decoded⟩, -, h⟩ := Option.bind_eq_some_iff.mp h
  obtain ⟨loop, -, rfl⟩ := Option.map_eq_some_iff.mp h
  dsimp only
  split
  · rename_i ev _ _
    unfold observe
    dsimp only
    split
    · exact List.prefix_append _ _
    · exact List.prefix_rfl
  · exact List.prefix_rfl

theorem hundred : ((100 : Nat) : Rat) / 100 = 1 := by norm_num

section
variable (multiplierFromElapsed) (clock : Readings)

theorem decodeBinary_startFrame (hgameId : gameId < 2 ^ 56) :
    decodeBinary multiplierFromElapsed {} (startFrame gameId) .nativeSocket clock =
      some (⟨1, 0⟩, .ok (endEvent .nativeSocket clock "st" gameId 100 .empty)) := by
  unfold startFrame
  rw [← hundred]
  exact decodeBinary_end {} .nativeSocket clock (by decide) (.inr rfl) hgameId (by decide) .empty

theorem decodeBinary_endFrame {m : Nat} (hgameId : gameId < 2 ^ 56) (hm : m < 2 ^ 56) :
    decodeBinary multiplierFromElapsed {} (endFrame gameId ((m : Rat) / 100)) .nativeSocket clock =
      some (⟨1, 0⟩, .ok (endEvent .nativeSocket clock "ed" gameId m ⟨ascii "synth", by decide⟩)) :=
  decodeBinary_end {} .nativeSocket clock (by decide) (.inl rfl) hgameId hm _

theorem decodeBinary_progressFrame {elapsed : Nat} (h : elapsed < 2 ^ 56) :
    decodeBinary multiplierFromElapsed {} (progressFrame elapsed) .nativeSocket clock =
      some (⟨1, 0⟩, .ok (progressEvent multiplierFromElapsed .nativeSocket clock elapsed)) :=
  decodeBinary_progress {} .nativeSocket clock (by decide) h

end

/-- The key of an End of the game, at whatever multiplier. -/
def endKey (gameId : Nat) : String := toString gameId ++ ":" ++ toString 3 ++ ":" ++ toString 0 ++ ":" ++ toString (-1 : Int)

theorem makeKey_end (clock : Readings) (name : String) (gameId m : Nat) (hash : ByteString) :
    DuplicateFilter.makeKey (endEvent .nativeSocket clock name gameId m hash) = endKey gameId := by
  have named : (endEvent .nativeSocket clock name gameId m hash).gameId ≠ "" := by simp [endEvent]
  rw [DuplicateFilter.makeKey, if_pos named]
  rfl

theorem accept_new (d : DuplicateFilter) (hv : ev.valid = true) (h : DuplicateFilter.makeKey ev ∉ d.order) :
    d.accept ev = ({ d with
      order := (d.order ++ [DuplicateFilter.makeKey ev]).popFrontTo d.max, accepted := d.accepted + 1 }, true) := by
  rw [DuplicateFilter.accept, if_neg (not_not_intro hv), if_neg h]

theorem accept_known {d : DuplicateFilter} (hv : ev.valid = true) (h : DuplicateFilter.makeKey ev ∈ d.order) :
    d.accept ev = ({ d with duplicates := d.duplicates + 1 }, false) := by
  rw [DuplicateFilter.accept, if_neg (not_not_intro hv), if_pos h]

theorem not_full_new {α : Type} (capacity : Nat) : ¬(SpscQueue.new capacity : SpscQueue α).Full := by
  have := (SpscQueue.new capacity : SpscQueue α).two_le
  intro h
  have h : (SpscQueue.new capacity : SpscQueue α).cap ≤ 0 + 1 := h
  omega

/-- The frame that is to start the round ends it, at 1.00. -/
theorem onFrame_start {client : κ} {queueCapacity : Nat} {outbox : OutboxLifecycle} (hgameId : gameId < 2 ^ 56)
    (hdata : f.data = startFrame gameId)
    (h : onFrame submit multiplierFromElapsed (initial client queueCapacity outbox) f = some t) :
    Faithful t gameId 1 ∧ t.rounds.currentId = "" ∧ t.loop.dupes.max = 8192 ∧
      t.loop.dupes.order = [endKey gameId] := by
  have hd := decodeBinary_startFrame multiplierFromElapsed f.clock hgameId
  rw [← hdata] at hd
  rw [onFrame_of_decoded hd] at h
  obtain ⟨dupes, observed⟩ := takeIn_valid (by rfl) (by simp [endEvent]) h
  have isValid : (endEvent .nativeSocket f.clock "st" gameId 100 .empty).valid = true := rfl
  have new := accept_new (initial client queueCapacity outbox).loop.dupes isValid List.not_mem_nil
  rw [new] at dupes observed
  obtain ⟨rounds, routed, stats⟩ := observed
  have takes : Routes (initial client queueCapacity outbox).loop.router
      (endEvent .nativeSocket f.clock "st" gameId 100 .empty) := by
    refine ⟨⟨rfl, rfl⟩, ?_, not_full_new queueCapacity⟩
    rintro (⟨-, seen⟩ | full)
    · exact List.not_mem_nil seen
    · exact not_full_new queueCapacity full
  have key : (initial client queueCapacity outbox).rounds.keyOf
      (endEvent .nativeSocket f.clock "st" gameId 100 .empty) = toString gameId := by
    simp [RoundStateRegistry.keyOf, endEvent]
  obtain ⟨current, st, found, isSealed, finalMult⟩ :=
    RoundStateRegistry.apply_end (initial client queueCapacity outbox).rounds f.now isValid rfl (by simp [key])
  have crash : (endEvent .nativeSocket f.clock "st" gameId 100 .empty).crashPoint = 1 := hundred
  rw [key] at found
  rw [crash, if_pos one_pos] at finalMult
  refine ⟨⟨⟨st, rounds ▸ found, isSealed, finalMult⟩, ?_, ?_⟩, ?_, ?_, ?_⟩
  · rw [stats, observe, if_pos ⟨rfl, crash ▸ one_pos⟩, crash]
    rfl
  · refine ⟨_, ?_, crash⟩
    rw [routed, observe, if_pos takes]
    rfl
  · rw [rounds]
    exact current
  · rw [dupes]
    rfl
  · rw [dupes, ← makeKey_end f.clock "st" gameId 100 .empty]
    rfl

/-! ### A round at 1.00 -/

def progressKey : String := "" ++ ":" ++ toString 1 ++ ":" ++ toString 0 ++ ":" ++ toString (0 : Int)

/-- The round is over after the first frame, and the filter knows at most the two keys that its frames have. -/
structure Over (s : State κ) (gameId : Nat) : Prop where
  faithful : Faithful s gameId 1
  current : s.rounds.currentId = ""
  max : s.loop.dupes.max = 8192
  order : s.loop.dupes.order = [endKey gameId] ∨ s.loop.dupes.order = [endKey gameId, progressKey]

theorem Over.of_known (hs : Over s gameId) (hv : ev.valid = true) (hk : ev.kind ≠ .heartbeat ∧ ev.kind ≠ .connect)
    (known : DuplicateFilter.makeKey ev ∈ s.loop.dupes.order) (h : takeIn submit s f (.ok ev) = some t) :
    Over t gameId := by
  obtain ⟨dupes, observed⟩ := takeIn_valid hv hk h
  rw [accept_known hv known] at dupes observed
  obtain ⟨rounds, routed, stats⟩ := observed
  obtain ⟨⟨isSealed, recorded, hrouted⟩, current, max, order⟩ := hs
  exact ⟨⟨rounds ▸ isSealed, stats ▸ recorded, routed ▸ hrouted⟩, rounds ▸ current, dupes ▸ max, dupes ▸ order⟩

theorem Over.endFrame (hs : Over s gameId) (hgameId : gameId < 2 ^ 56) (hdata : f.data = endFrame gameId 1)
    (h : onFrame submit multiplierFromElapsed s f = some t) : Over t gameId := by
  have hd := decodeBinary_endFrame multiplierFromElapsed f.clock (m := 100) hgameId (by decide)
  rw [hundred, ← hdata] at hd
  rw [onFrame_of_decoded hd] at h
  refine hs.of_known (by rfl) (by simp [endEvent]) ?_ h
  rw [makeKey_end]
  rcases hs.order with order | order
  · simp [order]
  · simp [order]

/-- There is no current round that the progress could belong to. -/
theorem Over.progressFrame (hs : Over s gameId) (hdata : f.data = progressFrame 0)
    (h : onFrame submit multiplierFromElapsed s f = some t) : Over t gameId := by
  have hd := decodeBinary_progressFrame multiplierFromElapsed f.clock (by decide : 0 < 2 ^ 56)
  rw [Nat.cast_zero, ← hdata] at hd
  rw [onFrame_of_decoded hd] at h
  have key : DuplicateFilter.makeKey (progressEvent multiplierFromElapsed .nativeSocket f.clock 0) = progressKey := by rfl
  by_cases known : progressKey ∈ s.loop.dupes.order
  · exact hs.of_known (by rfl) (by simp [progressEvent]) (key ▸ known) h
  obtain ⟨dupes, observed⟩ := takeIn_valid (by rfl) (by simp [progressEvent]) h
  rw [accept_new _ (by rfl) (key ▸ known)] at dupes observed
  obtain ⟨rounds, routed, stats⟩ := observed
  have noKey : s.rounds.keyOf (progressEvent multiplierFromElapsed .nativeSocket f.clock 0) = "" := by
    simp [RoundStateRegistry.keyOf, progressEvent, hs.current]
  rw [RoundStateRegistry.apply_of_no_key noKey] at rounds
  have notEnd : ¬Routes s.loop.router (progressEvent multiplierFromElapsed .nativeSocket f.clock 0) :=
    fun h => absurd h.1.1 (by simp [progressEvent])
  rw [observe, if_neg notEnd] at routed
  rw [observe, if_neg fun h => absurd h.1 (by simp [progressEvent])] at stats
  have order : s.loop.dupes.order = [endKey gameId] := hs.order.resolve_right fun order => known (by simp [order])
  obtain ⟨⟨isSealed, recorded, hrouted⟩, current, max, -⟩ := hs
  refine ⟨⟨rounds ▸ isSealed, stats ▸ recorded, routed ▸ hrouted⟩, rounds ▸ current, dupes ▸ max, .inr ?_⟩
  rw [dupes, key, order, max]
  rfl

/-! ### The whole round -/

theorem syntheticRoundFrames_one (elapsedOf : Double → Int) (gameId ticks : Nat) :
    ∀ data ∈ (syntheticRoundFrames elapsedOf gameId 1 ticks).tail, data = progressFrame 0 ∨ data = endFrame gameId 1 := by
  intro data hdata
  rcases List.mem_append.mp hdata with hdata | hdata
  · obtain ⟨i, -, rfl⟩ := List.mem_map.mp hdata
    simp [elapsedFromMultiplier]
  · exact .inr (List.mem_singleton.mp hdata)

/-- Whatever the frames meet, a round is replayed exactly if its final multiplier is 1.00. -/
theorem faithful_iff {elapsedOf : Double → Int} {client : κ} {queueCapacity : Nat} {outbox : OutboxLifecycle}
    {m ticks : Nat} {frames : List Frame} (hgameId : gameId < 2 ^ 56)
    (hframes : frames.map (·.data) = syntheticRoundFrames elapsedOf gameId ((m : Rat) / 100) ticks)
    (hrun : run (onFrame submit multiplierFromElapsed) (initial client queueCapacity outbox) frames = some s) :
    Faithful s gameId ((m : Rat) / 100) ↔ m = 100 := by
  obtain _ | ⟨f, rest⟩ := frames
  · cases hframes
  have hdata : f.data = startFrame gameId := (List.cons.inj hframes).1
  obtain ⟨u, hu, hrun⟩ := Option.bind_eq_some_iff.mp hrun
  obtain ⟨start, current, max, order⟩ := onFrame_start hgameId hdata hu
  constructor
  · intro h
    have kept : u.routed <+: s.routed := run_invariant (P := fun s => u.routed <+: s.routed)
      (fun _ _ _ h hs => h.trans (onFrame_routed hs)) List.prefix_rfl hrun
    obtain ⟨ev, hev, first⟩ := start.routed
    obtain ⟨ev', hev', final⟩ := h.routed
    rw [hev, hev'] at kept
    obtain rfl : ev = ev' := List.singleton_inj.mp (kept.eq_of_length rfl)
    have one : (m : Rat) / 100 = 1 := final.symm.trans first
    rw [div_eq_one_iff_eq (by norm_num)] at one
    exact_mod_cast one
  · rintro rfl
    rw [hundred] at hframes ⊢
    have each : ∀ f ∈ rest, f.data = progressFrame 0 ∨ f.data = endFrame gameId 1 := fun f hf => by
      refine syntheticRoundFrames_one elapsedOf gameId ticks f.data ?_
      rw [← hframes]
      exact List.mem_map_of_mem hf
    refine ((Reaches.of_run (meets_of_forall u each) hrun).invariant (P := (Over · gameId))
      ⟨start, current, max, .inl order⟩ fun s f t hs hf h => ?_).faithful
    rcases hf with hf | hf
    · exact hs.progressFrame hf h
    · exact hs.endFrame hgameId hf h

/-! ### Rounds with one tick -/

/-- An engine that does not answer. -/
def silent (_ : Unit) (_ : PredictionRequest) : Submission Unit := { client := () }

/-- The curve at 0 ms, and at the 15271 ms that a round up to 2.50 lasts. -/
def curve (elapsed : Int) : Double := if elapsed ≤ 0 then 1 else 249 / 100

def oneTick (elapsed : Nat) (finalMult : Double) : List Frame :=
  [{ data := startFrame 1 }, { data := progressFrame elapsed }, { data := endFrame 1 finalMult }]

/-- The same with the events in the place of the frames. -/
theorem run_oneTick {elapsed m : Nat} (helapsed : elapsed < 2 ^ 56) (hm : m < 2 ^ 56) (s : State Unit) :
    run (onFrame silent curve) s (oneTick elapsed ((m : Rat) / 100)) =
      (takeIn silent s { data := startFrame 1 } (.ok (endEvent .nativeSocket ⟨0, 0, 0, 0⟩ "st" 1 100 .empty))).bind
        fun s => (takeIn silent s { data := progressFrame elapsed }
          (.ok (progressEvent curve .nativeSocket ⟨0, 0, 0, 0⟩ elapsed))).bind
            fun s => (takeIn silent s { data := endFrame 1 ((m : Rat) / 100) }
              (.ok (endEvent .nativeSocket ⟨0, 0, 0, 0⟩ "ed" 1 m ⟨ascii "synth", by decide⟩))).bind some := by
  have start := decodeBinary_startFrame curve ⟨0, 0, 0, 0⟩ (by decide : 1 < 2 ^ 56)
  have progress := decodeBinary_progressFrame curve ⟨0, 0, 0, 0⟩ helapsed
  have last := decodeBinary_endFrame curve ⟨0, 0, 0, 0⟩ (by decide : 1 < 2 ^ 56) hm
  simp only [oneTick, run]
  rw [onFrame_of_decoded start]
  refine congrArg _ (funext fun s => ?_)
  rw [onFrame_of_decoded progress]
  refine congrArg _ (funext fun s => ?_)
  rw [onFrame_of_decoded last]

theorem faithful_oneTick : ∃ s, run (onFrame silent curve) (initial () 4096 (.new 2048 30000))
    (oneTick 0 ((100 : Nat) / 100)) = some s ∧ Faithful s 1 ((100 : Nat) / 100) := by
  have runs : (run (onFrame silent curve) (initial () 4096 (.new 2048 30000)) (oneTick 0 ((100 : Nat) / 100))).isSome := by
    rw [run_oneTick (by decide) (by decide)]
    decide +kernel
  obtain ⟨s, hs⟩ := Option.isSome_iff_exists.mp runs
  have frames : (oneTick 0 ((100 : Nat) / 100)).map (·.data) =
      syntheticRoundFrames (fun _ => 0) 1 ((100 : Nat) / 100) 1 := by
    rw [hundred]
    rfl
  exact ⟨s, hs, (faithful_iff (by decide) frames hs).mpr rfl⟩

/-- The round 1 ends at 2.50 and is replayed as one that ends at 1.00. -/
theorem not_faithful_oneTick : (oneTick 15271 ((250 : Nat) / 100)).map (·.data) =
      syntheticRoundFrames (fun _ => 15271) 1 ((250 : Nat) / 100) 1 ∧
    ∃ s, run (onFrame silent curve) (initial () 4096 (.new 2048 30000)) (oneTick 15271 ((250 : Nat) / 100)) = some s ∧
      s.stats.values = [1] ∧ ¬Faithful s 1 ((250 : Nat) / 100) := by
  have runs : (run (onFrame silent curve) (initial () 4096 (.new 2048 30000)) (oneTick 15271 ((250 : Nat) / 100))).map
      (·.stats.values) = some [1] := by
    rw [run_oneTick (by decide) (by decide)]
    decide +kernel
  obtain ⟨s, hs, values⟩ := Option.map_eq_some_iff.mp runs
  refine ⟨?_, s, hs, values, fun h => ?_⟩
  · have elapsed : elapsedFromMultiplier (fun _ => 15271) ((250 : Nat) / 100) = 15271 := if_neg (by norm_num)
    simp only [syntheticRoundFrames, elapsed]
    rfl
  · have recorded := h.recorded
    rw [values] at recorded
    norm_num at recorded

end RoundFrames

end CrashCore
