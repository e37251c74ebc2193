import CrashCore.Application.OutcomeMessages
import CrashCore.Delivery.OutboxCalls
import CrashCore.Theorems.SendOnce

/-! When the messages about outcomes are deliverable. The guard that rejects a prediction once its round has started
is also asked for the outcome of the round, by then mostly long started: the message is rejected at every attempt and
dead-lettered. It gets through only while the noted start is still ahead. -/

namespace CrashCore
namespace OutcomeMessages
open DeliveryWorkers OutboxCalls Transition

variable {persistent : Bool} {s t : State} {a : Act} {base : DeliveryWorkers.State} {x : OutboxItem}

structure Deliverable (s : State) : Prop where
  authorized : ∀ d ∈ s.deliveries, d.result.allowed = true
  alive : s.deadLetters = []

/-- At the first delivery of a tracked outcome the deadline has not passed, and the noted start of its round is still
    ahead. -/
def StartAhead (s : State) : Act → Prop
  | .other .deliver =>
    match s.base.worker with
    | .claimed item => Tracked s item → item.attempts = 0 →
        (0 < item.signal.createdAtMs →
          s.base.clock - item.signal.createdAtMs ≤ s.base.guard.deliveryDeadlineMs) ∧
        ∀ started ∈ s.base.guard.started item.signal.roundId, s.base.clock < started + s.base.guard.postStartGraceMs
    | _ => True
  | _ => True

instance (s : State) : DecidablePred (StartAhead s)
  | .other .deliver =>
    match h : s.base.worker with
    | .claimed item => decidable_of_iff (Tracked s item → item.attempts = 0 →
        (0 < item.signal.createdAtMs →
          s.base.clock - item.signal.createdAtMs ≤ s.base.guard.deliveryDeadlineMs) ∧
        ∀ started ∈ s.base.guard.started item.signal.roundId, s.base.clock < started + s.base.guard.postStartGraceMs)
        (by simp only [StartAhead, h])
    | .waiting => .isTrue (by simp only [StartAhead, h])
    | .sent _ => .isTrue (by simp only [StartAhead, h])
    | .rejected _ => .isTrue (by simp only [StartAhead, h])
  | .socketEvent .. => .isTrue trivial
  | .outcome .. => .isTrue trivial
  | .other (.advance _) => .isTrue trivial
  | .other (.persist ..) => .isTrue trivial
  | .other (.publish _) => .isTrue trivial
  | .other (.noteTargetStarted ..) => .isTrue trivial
  | .other (.killStale ..) => .isTrue trivial
  | .other .claim => .isTrue trivial
  | .other .complete => .isTrue trivial
  | .other (.recoverStaleClaims _) => .isTrue trivial
  | .other (.claimRows ..) => .isTrue trivial
  | .other (.deliverRow _) => .isTrue trivial
  | .other (.completeRow ..) => .isTrue trivial

/-- Where the claimed item is tracked and new, the condition is what the guard asks for. -/
theorem startAhead_iff {item : OutboxItem} (hw : s.base.worker = .claimed item) :
    StartAhead s (.other .deliver) ↔
      (Tracked s item → item.attempts = 0 → (authorize s.base item).allowed = true) := by
  simp only [StartAhead, hw, authorize, TemporalGuard.allowed_iff]

/-! ### The bookkeeping -/

theorem mem_mark_of_ne {keys : Finset String} {k key : String} (b : Bool) (h : k ≠ key) : k ∈ mark keys key b ↔ k ∈ keys := by
  cases b <;> simp [mark, h]

theorem tracked_congr {y : OutboxItem} (hsignal : y.signal = x.signal) (hkey : y.dedupeKey = x.dedupeKey) :
    Tracked s y ↔ Tracked s x := by
  rw [Tracked, hsignal, hkey, Tracked]

/-- With a database and without, an outcome is offered to the outbox once. -/
theorem publishOutcome_eq (b : DeliveryWorkers.State) (persistent : Bool) (o : Outcome) (sig : Signal) (fault : Fault) :
    ∃ conn, (durableTx b).publishOutcome persistent o sig b.clock fault =
      ({ durableTx b with db := .pg conn, handoff := some (b.handoff.publishOutcome sig b.clock).1 },
        (b.handoff.publishOutcome sig b.clock).2.isOk) := by
  cases persistent with
  | false => exact ⟨b.conn, rfl⟩
  | true =>
    rcases hexec : b.conn.exec (Tables.insertOutcome (DurablePredictionTx.outcomeRow o b.clock)) fault with
      ⟨conn, m | u⟩ <;>
      exact ⟨conn, by
        simp [durableTx, DurablePredictionTx.publishOutcome, DurablePredictionTx.persistOutcome, hexec,
          DurablePredictionTx.publishOutcomeMemory]⟩

theorem outcomeHandler_inv (persistent : Bool) (s : State) (o : Outcome) (fault : Fault) :
    ∃ base, base.worker = s.base.worker ∧
      base.handoff.outbox = (s.base.handoff.outbox.publish (signalFromOutcome o s.base.clock) s.base.clock).1 ∧
      outcomeHandler persistent s o fault = { s with
        base
        announced :=
          if (s.base.handoff.outbox.publish (signalFromOutcome o s.base.clock) s.base.clock).2.isOk then
            mark s.announced (signalFromOutcome o s.base.clock).dedupeKey (s.base.guard.started o.roundId).isSome
          else s.announced } := by
  obtain ⟨houtbox, htaken⟩ := s.base.handoff.publishOutcome_outbox (signalFromOutcome o s.base.clock) s.base.clock
  obtain ⟨conn, htx⟩ := publishOutcome_eq s.base persistent o (signalFromOutcome o s.base.clock) fault
  refine ⟨withTx s.base (((durableTx s.base).publishOutcome persistent o (signalFromOutcome o s.base.clock)
    s.base.clock fault).1), ?_, ?_, ?_⟩
  · rw [htx]
    rfl
  · rw [htx]
    exact houtbox
  · rw [outcomeHandler, htx]
    dsimp only
    rw [htaken]
    rfl

/-! ### One step -/

structure Inv (s : State) : Prop where
  keyed : Keyed (view s.base)
  fresh : ∀ x ∈ unsentItems s.base, Tracked s x → x.attempts = 0
  untracked : ∀ item, s.base.worker = .rejected item → ¬Tracked s item
  deliverable : Deliverable s

theorem Deliverable.same (h : Deliverable s) (hdeliveries : t.deliveries = s.deliveries)
    (hdead : t.deadLetters = s.deadLetters) : Deliverable t :=
  ⟨hdeliveries ▸ h.authorized, hdead ▸ h.alive⟩

/-- A step that moves no worker and queues only fresh items. -/
theorem Inv.same (h : Inv s) (hkeyed : Keyed (view base)) (hworker : base.worker = s.base.worker)
    (hitems : ∀ x ∈ unsentItems base, x ∈ unsentItems s.base ∨ x.attempts = 0) : Inv { s with base } where
  keyed := hkeyed
  fresh x hx ht := (hitems x hx).elim (fun hx => h.fresh x hx ht) id
  untracked item hw := h.untracked item (hworker ▸ hw)
  deliverable := h.deliverable.same rfl rfl

theorem socketEvent_inv (h : Inv s) (persistent : Bool) (e : CrashEvent) (fault : Fault) :
    Inv (socketEvent persistent s e fault) := by
  unfold socketEvent
  split
  · cases persistent <;> exact h.same h.keyed rfl fun x hx => Or.inl hx
  · exact h

/-- The key of an accepted outcome was no live item's. -/
theorem outcomeHandler_step (h : Inv s) (persistent : Bool) (o : Outcome) (fault : Fault) :
    Inv (outcomeHandler persistent s o fault) := by
  obtain ⟨base, hworker, houtbox, heq⟩ := outcomeHandler_inv persistent s o fault
  have hiff := s.base.handoff.outbox.publish_ok_iff (signalFromOutcome o s.base.clock) s.base.clock
  have hkeyed : Keyed (view base) := publish_keyed h.keyed houtbox hworker
  rw [heq]
  by_cases hok : (s.base.handoff.outbox.publish (signalFromOutcome o s.base.clock) s.base.clock).2.isOk
  swap
  · rw [if_neg hok]
    refine h.same hkeyed hworker fun x hx => ?_
    exact (unsent_publish houtbox hworker hx).imp id fun hx => by rw [hx.2]; rfl
  have haccepts : s.base.handoff.outbox.Accepts (signalFromOutcome o s.base.clock) := by
    rcases hp : (s.base.handoff.outbox.publish (signalFromOutcome o s.base.clock) s.base.clock).2 with m | n
    · rw [hp] at hok
      cases hok
    · exact hiff.mp ⟨n, hp⟩
  have hother : ∀ x ∈ unsentItems s.base, x.dedupeKey ≠ (signalFromOutcome o s.base.clock).dedupeKey := by
    intro x hx hkey
    refine haccepts.1 (Or.inr ?_)
    rw [← hkey]
    exact h.keyed.reserved _ (List.mem_map.mpr ⟨x, live_of_unsent hx, rfl⟩)
  rw [if_pos hok]
  refine ⟨hkeyed, fun x hx ht => ?_, fun item hw ht => ?_, h.deliverable.same rfl rfl⟩
  · rcases unsent_publish houtbox hworker hx with hx | ⟨-, rfl⟩
    · exact h.fresh x hx ⟨ht.1, (mem_mark_of_ne _ (hother x hx)).mp ht.2.1, ht.2.2⟩
    · rfl
  · have hw : s.base.worker = .rejected item := hworker ▸ hw
    have hx : item ∈ unsentItems s.base := unsent_of_inHand (by rw [hw]; exact List.mem_singleton_self item)
    exact h.untracked item hw ⟨ht.1, (mem_mark_of_ne _ (hother item hx)).mp ht.2.1, ht.2.2⟩

theorem claim_step (h : Inv s) (hs : DeliveryWorkers.step s.base .claim = some base) : Inv (noteClaim s base) := by
  have hkeyed := claim_keyed h.keyed hs
  obtain ⟨hw, rfl | ⟨item, outbox, hc, hbase⟩⟩ := claim_inv hs
  · simpa only [noteClaim, hw] using h
  obtain ⟨claimed, hclaimed⟩ : ∃ claimed, base.worker = .claimed claimed := ⟨_, by rw [hbase]⟩
  have hnone : ∀ item, base.worker ≠ .rejected item := fun item hw' => by
    rw [hclaimed] at hw'
    cases hw'
  by_cases hnew : claimed.attempts = 0
  · simp only [noteClaim, hw, hclaimed, hnew, ↓reduceIte]
    refine ⟨hkeyed, fun x hx ht => ?_, fun item hw' => absurd hw' (hnone item), h.deliverable.same rfl rfl⟩
    rcases List.mem_append.mp hx with hq | hh
    · obtain ⟨y, hy, hsignal, hattempts, hkey⟩ := unsent_claim hs hx
      rw [← hattempts]
      refine h.fresh y hy ((tracked_congr hsignal hkey).mpr ⟨ht.1, ht.2.1, ?_⟩)
      exact (mem_mark_of_ne _ (key_ne_of_queued hkeyed hclaimed hq)).mp ht.2.2
    · rw [hclaimed] at hh
      rw [List.mem_singleton.mp hh]
      exact hnew
  · simp only [noteClaim, hw, hclaimed, hnew, ↓reduceIte]
    refine ⟨hkeyed, fun x hx ht => ?_, fun item hw' => absurd hw' (hnone item), h.deliverable.same rfl rfl⟩
    obtain ⟨y, hy, hsignal, hattempts, hkey⟩ := unsent_claim hs hx
    rw [← hattempts]
    exact h.fresh y hy ((tracked_congr hsignal hkey).mpr ht)

theorem deliver_step (h : Inv s) (hok : StartAhead s (.other .deliver))
    (hs : DeliveryWorkers.step s.base .deliver = some base) : Inv (noteDelivery s base) := by
  have hkeyed : Keyed (view base) := deliver_view hs ▸ h.keyed
  have hfresh : ∀ x ∈ unsentItems base, Tracked s x → x.attempts = 0 := fun x hx => h.fresh x (unsent_deliver hs hx)
  obtain ⟨item, hw, hcase⟩ := deliver_inv hs
  have hresult : ((authorize s.base item).allowed = true ∧ base.worker = .sent item) ∨
      ((authorize s.base item).allowed = false ∧ base.worker = .rejected item) :=
    hcase.imp (fun hc => ⟨hc.1, by rw [hc.2]⟩) fun hc => ⟨hc.1, by rw [hc.2]⟩
  rcases hresult with ⟨ha, hsent⟩ | ⟨ha, hrejected⟩
  · have hnone : ∀ item, base.worker = .rejected item → ¬Tracked s item := fun item hw' => by
      rw [hsent] at hw'
      cases hw'
    simp only [noteDelivery, hw]
    split
    · refine ⟨hkeyed, hfresh, hnone, fun d hd => ?_, h.deliverable.alive⟩
      rcases List.mem_append.mp hd with hd | hd
      · exact h.deliverable.authorized d hd
      · rw [List.mem_singleton.mp hd]
        exact ha
    · exact ⟨hkeyed, hfresh, hnone, h.deliverable.same rfl rfl⟩
  · have hhand : item ∈ unsentItems s.base := unsent_of_inHand (by rw [hw]; exact List.mem_singleton_self item)
    have hnot : ¬Tracked s item := fun ht => by
      rw [(startAhead_iff hw).mp hok ht (h.fresh item hhand ht)] at ha
      cases ha
    simp only [noteDelivery, hw, hnot, false_and, ↓reduceIte]
    refine ⟨hkeyed, hfresh, fun item' hw' => ?_, h.deliverable.same rfl rfl⟩
    rw [hrejected] at hw'
    cases hw'
    exact hnot

/-- A rejected item is not tracked, so neither its dead letter nor its next item is. -/
theorem complete_step (h : Inv s) (hs : DeliveryWorkers.step s.base .complete = some base) :
    Inv (noteCompletion s base) := by
  have hkeyed := complete_keyed h.keyed hs
  have hfresh : ∀ x ∈ unsentItems base, Tracked s x → x.attempts = 0 := by
    intro x hx ht
    rcases unsent_complete hs hx with hx | ⟨item, -, hw, hsignal, hkey⟩
    · exact h.fresh x hx ht
    · exact absurd ((tracked_congr hsignal hkey).mp ht) (h.untracked item hw)
  obtain ⟨item, hcase⟩ := complete_inv hs
  have hwaiting : base.worker = .waiting := by rcases hcase with ⟨-, hbase⟩ | ⟨-, hbase⟩ <;> rw [hbase]
  have hsame : noteCompletion s base = { s with base } := by
    rcases hcase with ⟨hw, -⟩ | ⟨hw, -⟩
    · simp only [noteCompletion, hw]
    · simp only [noteCompletion, hw, h.untracked item hw, false_and, ↓reduceIte]
  rw [hsame]
  refine ⟨hkeyed, hfresh, fun item hw => ?_, h.deliverable.same rfl rfl⟩
  rw [hwaiting] at hw
  cases hw

theorem step_inv (h : Inv s) (hok : StartAhead s a) (hs : step persistent s a = some t) : Inv t := by
  cases a with
  | socketEvent e fault =>
    cases hs
    exact socketEvent_inv h persistent e fault
  | outcome p e fault =>
    simp only [step] at hs
    split at hs <;> cases hs
    exact outcomeHandler_step h persistent _ fault
  | other a =>
    simp only [step] at hs
    split at hs
    swap
    · cases hs
    obtain ⟨base, hbase, rfl⟩ := Option.map_eq_some_iff.mp hs
    by_cases hclaim : a = .claim
    · subst hclaim
      exact claim_step h hbase
    by_cases hdeliver : a = .deliver
    · subst hdeliver
      exact deliver_step h hok hbase
    by_cases hcomplete : a = .complete
    · subst hcomplete
      exact complete_step h hbase
    have hnote : note s base a = { s with base } := by
      cases a <;> first | rfl | contradiction
    rw [hnote]
    obtain ⟨hworker, houtbox | ⟨signal, houtbox⟩⟩ := step_frame hbase hclaim hdeliver hcomplete
    · exact h.same (keyed_step h.keyed hbase) hworker fun x hx => Or.inl (unsent_congr houtbox hworker ▸ hx)
    · refine h.same (keyed_step h.keyed hbase) hworker fun x hx => ?_
      exact (unsent_publish houtbox hworker hx).imp id fun hx => by rw [hx.2]; rfl

/-- A tracked first delivery that is authorized met the condition. -/
theorem startAhead_of_deliverable (hs : step persistent s a = some t) (ht : Deliverable t) : StartAhead s a := by
  cases a with
  | socketEvent | outcome => exact trivial
  | other a =>
    cases a with
    | deliver =>
      obtain ⟨base, hbase, rfl⟩ := Option.map_eq_some_iff.mp hs
      obtain ⟨item, hw, -⟩ := deliver_inv hbase
      rw [startAhead_iff hw]
      intro htracked hnew
      refine ht.authorized ⟨item.signal, authorize s.base item⟩ ?_
      simp only [note, noteDelivery, hw, htracked, hnew, and_self, ↓reduceIte]
      exact List.mem_append_right _ (List.mem_singleton_self _)
    | _ => exact trivial

/-! ### Runs -/

theorem inv_initial (tables : Tables) (clock : TimestampMs) (capacity : Nat) (deliveryDeadlineMs : Int) :
    Inv (initial tables clock capacity deliveryDeadlineMs) where
  keyed := keyed_congr (keyed_initial capacity) rfl rfl
  fresh x hx := by simp [unsentItems, initial, DeliveryWorkers.initial, inHand] at hx
  untracked item hw := by cases hw
  deliverable := ⟨fun _ hd => (List.not_mem_nil hd).elim, rfl⟩

/-- Along a run every outcome of a round with a noted start that is claimed within the deadline is authorized, and none
    of them is dead-lettered, exactly when at each of their first deliveries the noted start is still ahead. -/
theorem deliverable_along_iff {tables : Tables} {clock : TimestampMs} {capacity : Nat} {deliveryDeadlineMs : Int}
    {acts : List Act} (hr : run (step persistent) (initial tables clock capacity deliveryDeadlineMs) acts ≠ none) :
    Along (step persistent) Deliverable (initial tables clock capacity deliveryDeadlineMs) acts ↔
      Meets (step persistent) StartAhead (initial tables clock capacity deliveryDeadlineMs) acts :=
  along_iff_meets (I := Inv) (fun _ h => h.deliverable) (fun _ _ _ h hok hs => step_inv h hok hs)
    (fun _ _ _ _ hs ht => startAhead_of_deliverable hs ht) (inv_initial tables clock capacity deliveryDeadlineMs) hr

def entersRound : PredictionEvent := { predictionId := "p1", targetRoundId := "r1", decision := .enter, targetMult := 2 }

def endsRound : CrashEvent := { kind := .end, valid := true, roundId := "r1", gameId := "r1", crashPoint := 3 }

/-- The round is announced with a start that is 9 s ahead, and its outcome is sent before. -/
def beforeTheStart : List Act :=
  [.socketEvent { kind := .prepare, gameId := "r1", beganAtMs := 10000 } none, .outcome entersRound endsRound none,
    .other .claim, .other .deliver, .other .complete]

theorem deliverable_along_beforeTheStart :
    Along (step true) Deliverable (initial {} 1000 8 5000) beforeTheStart :=
  (deliverable_along_iff (by decide +kernel)).mpr (by decide +kernel)

/-- The round starts, ends, and its outcome is claimed at once, five times. -/
def afterTheStart : List Act :=
  [.socketEvent { kind := .start, gameId := "r1", beganAtMs := 1000 } none, .other (.advance 500),
    .outcome entersRound endsRound none] ++
    (List.replicate 5 [Act.other .claim, .other .deliver, .other .complete]).flatten

theorem not_deliverable_along_afterTheStart :
    ¬Along (step true) Deliverable (initial {} 1000 8 5000) afterTheStart := by
  have hlast : (run (step true) (initial {} 1000 8 5000) afterTheStart).map
      (fun s => (s.deliveries.map (·.result.decision), s.deadLetters.map (·.roundId))) =
        some ([.rejectTargetStarted], ["r1"]) := by
    decide +kernel
  obtain ⟨s, hs, hpair⟩ := Option.map_eq_some_iff.mp hlast
  refine not_along_of_last hs fun h => ?_
  simp [h.alive] at hpair

end OutcomeMessages
end CrashCore
