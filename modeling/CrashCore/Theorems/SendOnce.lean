import CrashCore.Delivery.OutboxCalls
import CrashCore.Delivery.Workers
import CrashCore.Theorems.RowSendOnce

/-! When a durable prediction is handed to the Telegram client at most once. It is queued twice, as a signal and
as a row, and each copy is sent at most once; nothing keeps the two workers from sending one copy each.

First the items of the outbox with its one worker: which of them are live after a step, and that no two carry the same
key. -/

namespace CrashCore
namespace DeliveryWorkers
open OutboxCalls

variable {s t : State} {a : Action} {x : OutboxItem} {signal : Signal} {now : TimestampMs}

/-- The item in the hands of the outbox worker. -/
def held : OutboxWorker → List (WorkerId × OutboxItem)
  | .waiting => []
  | .claimed item | .sent item | .rejected item => [(0, item)]

/-- The in-memory outbox with its one worker. -/
def view (s : State) : OutboxCalls.State := { outbox := s.handoff.outbox, held := held s.worker }

/-- The item there, unless its signal was handed to the client. -/
def inHand : OutboxWorker → List OutboxItem
  | .claimed item | .rejected item => [item]
  | .waiting | .sent _ => []

def unsentItems (s : State) : List OutboxItem := s.handoff.outbox.items ++ inHand s.worker

/-! ### The unsent items -/

theorem unsent_of_queued (h : x ∈ s.handoff.outbox.items) : x ∈ unsentItems s := List.mem_append_left _ h

theorem unsent_of_inHand (h : x ∈ inHand s.worker) : x ∈ unsentItems s := List.mem_append_right _ h

theorem live_of_unsent (h : x ∈ unsentItems s) : x ∈ live (view s) := by
  rcases List.mem_append.mp h with hq | hh
  · exact List.mem_append_left _ hq
  · refine List.mem_append_right _ ?_
    rcases hw : s.worker with _ | item | item | item <;> simp_all [inHand, held, view]

theorem unsent_congr (houtbox : t.handoff.outbox = s.handoff.outbox) (hworker : t.worker = s.worker) :
    unsentItems t = unsentItems s := by
  rw [unsentItems, houtbox, hworker, unsentItems]

/-- A publication adds the fresh item of an accepted signal. -/
theorem unsent_publish (houtbox : t.handoff.outbox = (s.handoff.outbox.publish signal now).1)
    (hworker : t.worker = s.worker) (hx : x ∈ unsentItems t) :
    x ∈ unsentItems s ∨
      (s.handoff.outbox.Accepts signal ∧ x = Outbox.freshItem signal now s.handoff.outbox.queue.nextId) := by
  rcases List.mem_append.mp hx with hx | hx
  swap
  · exact Or.inl (unsent_of_inHand (hworker ▸ hx))
  rw [houtbox] at hx
  rcases s.handoff.outbox.publish_cases signal now with ⟨-, -, hsame⟩ | ⟨-, -, -, hsame⟩ | ⟨haccepts, -, hitems, -⟩
  · exact Or.inl (unsent_of_queued (hsame.items ▸ hx))
  · exact Or.inl (unsent_of_queued (hsame.items ▸ hx))
  · rw [hitems] at hx
    exact (List.mem_append.mp hx).imp unsent_of_queued fun hx => ⟨haccepts, List.mem_singleton.mp hx⟩

/-- A claim writes the state and the time of the claim into the item. -/
theorem unsent_claim (hs : step s .claim = some t) (hx : x ∈ unsentItems t) :
    ∃ y ∈ unsentItems s, y.signal = x.signal ∧ y.attempts = x.attempts ∧ y.dedupeKey = x.dedupeKey := by
  obtain ⟨-, rfl | ⟨item, outbox, hc, rfl⟩⟩ := claim_inv hs
  · exact ⟨x, hx, rfl, rfl, rfl⟩
  obtain ⟨head, hitems, rfl, -⟩ := Outbox.claim_eq_some hc
  rcases List.mem_append.mp hx with hx | hx
  · exact ⟨x, unsent_of_queued (by rw [hitems]; exact List.mem_cons_of_mem _ hx), rfl, rfl, rfl⟩
  · rw [List.mem_singleton.mp hx]
    exact ⟨head, unsent_of_queued (by rw [hitems]; exact List.mem_cons_self), rfl, rfl, rfl⟩

theorem unsent_deliver (hs : step s .deliver = some t) (hx : x ∈ unsentItems t) : x ∈ unsentItems s := by
  obtain ⟨item, hw, ⟨-, rfl⟩ | ⟨-, rfl⟩⟩ := deliver_inv hs
  · have hx : x ∈ s.handoff.outbox.items := by simpa [unsentItems, inHand] using hx
    exact unsent_of_queued hx
  · rw [unsentItems, hw]
    exact hx

/-- A completion re-queues a rejected item with one attempt more. -/
theorem unsent_complete (hs : step s .complete = some t) (hx : x ∈ unsentItems t) :
    x ∈ unsentItems s ∨ ∃ item ∈ unsentItems s, s.worker = .rejected item ∧ x.signal = item.signal ∧
      x.dedupeKey = item.dedupeKey := by
  obtain ⟨item, ⟨-, rfl⟩ | ⟨hw, rfl⟩⟩ := complete_inv hs
  · have hx : x ∈ s.handoff.outbox.items := by simpa [unsentItems, inHand, withOutbox] using hx
    exact Or.inl (unsent_of_queued hx)
  have hx : x ∈ (s.handoff.outbox.markFailed item "delivery failed").1.items := by
    simpa [unsentItems, inHand, withOutbox] using hx
  have hhand : item ∈ unsentItems s := unsent_of_inHand (by rw [hw]; exact List.mem_singleton_self item)
  by_cases hl : Outbox.LastAttempt item
  · rw [(Outbox.markFailed_dead s.handoff.outbox "delivery failed" hl).1] at hx
    exact Or.inl (unsent_of_queued hx)
  · obtain ⟨-, ⟨-, hitems⟩ | ⟨-, hitems⟩, -⟩ := Outbox.markFailed_requeue s.handoff.outbox "delivery failed" hl
    · rw [hitems] at hx
      rcases List.mem_append.mp hx with hx | hx
      · exact Or.inl (unsent_of_queued hx)
      · rw [List.mem_singleton.mp hx]
        exact Or.inr ⟨item, hhand, hw, rfl, rfl⟩
    · rw [hitems] at hx
      exact Or.inl (unsent_of_queued hx)

/-! ### The keys -/

theorem keyed_congr {u v : OutboxCalls.State} (h : Keyed u) (houtbox : v.outbox = u.outbox) (hheld : v.held = u.held) :
    Keyed v := by
  obtain ⟨_, _, _, _, _⟩ := u
  obtain ⟨_, _, _, _, _⟩ := v
  cases houtbox
  cases hheld
  exact ⟨h.key, h.nodup, h.reserved⟩

theorem publish_keyed (h : Keyed (view s)) (houtbox : t.handoff.outbox = (s.handoff.outbox.publish signal now).1)
    (hworker : t.worker = s.worker) : Keyed (view t) := by
  obtain ⟨u, hu⟩ : ∃ u, OutboxCalls.step (view s) (.publish signal now) = some u := by
    simp only [OutboxCalls.step]
    split <;> exact ⟨_, rfl⟩
  refine keyed_congr (step_keyed h hu) ?_ ?_ <;> rcases publish_inv hu with ⟨-, rfl⟩ | ⟨-, rfl⟩
  · exact houtbox
  · exact houtbox
  · exact congrArg held hworker
  · exact congrArg held hworker

/-- A worker step that keeps the live items up to what a claim and a failed delivery write into them. -/
theorem keyed_of_pairs {u : OutboxCalls.State} (h : Keyed u) (hpending : u.outbox.pendingKeys = t.handoff.outbox.pendingKeys)
    (hpairs : (live u).map (fun x => (x.dedupeKey, x.signal.dedupeKey)) =
      (live (view t)).map fun x => (x.dedupeKey, x.signal.dedupeKey)) : Keyed (view t) := by
  obtain ⟨hkey, hnodup, hres⟩ := h.pairs (List.Perm.refl _)
  exact keyed_of_perm (List.Perm.of_eq hpairs.symm) hkey hnodup fun k hk => hpending ▸ hres k hk

theorem claim_keyed (h : Keyed (view s)) (hs : step s .claim = some t) : Keyed (view t) := by
  obtain ⟨hw, rfl | ⟨item, outbox, hc, rfl⟩⟩ := claim_inv hs
  · exact h
  have hheld : (view s).held = [] := by rw [view, hw]; rfl
  have hstep : OutboxCalls.step (view s) (.claim 0 s.clock) =
      some { view s with outbox, held := (view s).held ++ [(0, item)] } := by
    simp only [OutboxCalls.step, view, hc]
  refine keyed_of_pairs (step_keyed h hstep) rfl ?_
  rw [live, live, hheld]
  simp only [view, held, List.nil_append, List.map_append, List.map_cons, List.map_nil]
  rfl

theorem deliver_view (hs : step s .deliver = some t) : view t = view s := by
  obtain ⟨item, hw, ⟨-, rfl⟩ | ⟨-, rfl⟩⟩ := deliver_inv hs <;>
    · rw [view, view, hw]
      rfl

theorem complete_keyed (h : Keyed (view s)) (hs : step s .complete = some t) : Keyed (view t) := by
  obtain ⟨item, ⟨hw, rfl⟩ | ⟨hw, rfl⟩⟩ := complete_inv hs
  · have hheld : (view s).held = [(0, item)] := by rw [view, hw]; rfl
    obtain ⟨u, hu⟩ : ∃ u, OutboxCalls.step (view s) (.markDelivered 0 item s.clock) = some u := by
      simp only [OutboxCalls.step, hheld, List.mem_singleton, ↓reduceIte]
      exact ⟨_, rfl⟩
    have hkeyed := step_keyed h hu
    obtain ⟨-, rfl⟩ := markDelivered_inv hu
    refine keyed_congr hkeyed rfl ?_
    simp only [hheld, List.erase_cons_head]
    rfl
  · have hheld : (view s).held = [(0, item)] := by rw [view, hw]; rfl
    obtain ⟨u, hu⟩ : ∃ u, OutboxCalls.step (view s) (.markFailed 0 item "delivery failed") = some u := by
      simp only [OutboxCalls.step, hheld, List.mem_singleton, ↓reduceIte]
      exact ⟨_, rfl⟩
    have hkeyed := step_keyed h hu
    obtain ⟨-, hcase⟩ := markFailed_inv hu
    have hparts : u.outbox = (s.handoff.outbox.markFailed item "delivery failed").1 ∧ u.held = [] := by
      rcases hcase with ⟨-, rfl⟩ | ⟨-, rfl⟩ <;> exact ⟨rfl, by simp only [hheld, List.erase_cons_head]⟩
    exact keyed_congr hkeyed hparts.1.symm hparts.2.symm

/-- The claimed item shares its key with no queued one. -/
theorem key_ne_of_queued {item : OutboxItem} (h : Keyed (view s)) (hw : s.worker = .claimed item)
    (hx : x ∈ s.handoff.outbox.items) : x.dedupeKey ≠ item.dedupeKey := by
  have hnodup := h.nodup
  have hlive : live (view s) = s.handoff.outbox.items ++ [item] := by
    rw [live, view, hw]
    rfl
  rw [liveKeys, hlive, List.map_append, List.nodup_append] at hnodup
  exact hnodup.2.2 _ (List.mem_map.mpr ⟨x, hx, rfl⟩) _ (List.mem_singleton_self _)

theorem keyed_step (h : Keyed (view s)) (hs : step s a = some t) : Keyed (view t) := by
  by_cases hclaim : a = .claim
  · exact claim_keyed h (hclaim ▸ hs)
  by_cases hdeliver : a = .deliver
  · exact deliver_view (hdeliver ▸ hs) ▸ h
  by_cases hcomplete : a = .complete
  · exact complete_keyed h (hcomplete ▸ hs)
  obtain ⟨hworker, houtbox | ⟨signal, houtbox⟩⟩ := step_frame hs hclaim hdeliver hcomplete
  · exact keyed_congr h houtbox (congrArg held hworker)
  · exact publish_keyed h houtbox hworker

end DeliveryWorkers

/-! ### Both copies -/

namespace DeliveryWorkers
open DurablePredictionTx Connection OutboxCalls Transition

variable {s t : State} {a : Action} {item : OutboxItem} {signal : Signal} {now : TimestampMs} {p : PredictionId}
  {d : Drainer}

/-- The signals sent for a prediction. -/
def signalsOf (s : State) (p : PredictionId) : List Signal :=
  s.signalsSent.filter fun g => g.kind = .prediction ∧ g.predictionId = p

/-- How often the message of a prediction was handed to the client. -/
def sends (s : State) (p : PredictionId) : Nat := (signalsOf s p).length + s.rowsSent.count (notificationKey p)

def AtMostOnce (s : State) : Prop := ∀ p ∈ s.persisted, sends s p ≤ 1

/-! ### The condition -/

/-- The copy of a prediction that may be sent. -/
inductive Side
  | memory | row
deriving DecidableEq, Repr

def SentFromMemory (s : State) (p : PredictionId) : Prop := ∃ g ∈ s.signalsSent, g.kind = .prediction ∧ g.predictionId = p

def SentFromRow (s : State) (p : PredictionId) : Prop := notificationKey p ∈ s.rowsSent

/-- Of each durable prediction only one copy, given by `side`, is delivered at a moment at which the temporal guard
    allows it, and a signal that was sent is published again only while the outbox knows its key. -/
def OneSided (side : PredictionId → Side) (s : State) : Action → Prop
  | .persist pev f => Commits pev s.clock s.conn f →
      (SentFromMemory s pev.predictionId → side pev.predictionId = .memory ∧
        s.handoff.outbox.Knows (signalFromPrediction pev s.clock).dedupeKey) ∧
      (SentFromRow s pev.predictionId → side pev.predictionId = .row)
  | .publish signal => signal.kind = .prediction → SentFromMemory s signal.predictionId →
      s.handoff.outbox.Knows signal.dedupeKey
  | .deliver =>
    match s.worker with
    | .claimed item => item.signal.kind = .prediction → item.signal.predictionId ∈ s.persisted →
        (authorize s item).allowed = true → side item.signal.predictionId = .memory
    | _ => True
  | .deliverRow d => ∀ row ∈ (s.batches d).rows.head?, ∀ p ∈ s.persisted, row.dedupeKey = notificationKey p →
      (authorizeRow s row).allowed = true → side p = .row
  | _ => True

instance : Decidable (SentFromMemory s p) := inferInstanceAs (Decidable (∃ g ∈ s.signalsSent, _))

instance : Decidable (SentFromRow s p) := inferInstanceAs (Decidable (_ ∈ _))

instance (side : PredictionId → Side) (s : State) : DecidablePred (OneSided side s)
  | .persist pev f => decidable_of_iff (Commits pev s.clock s.conn f →
      (SentFromMemory s pev.predictionId → side pev.predictionId = .memory ∧
        s.handoff.outbox.Knows (signalFromPrediction pev s.clock).dedupeKey) ∧
      (SentFromRow s pev.predictionId → side pev.predictionId = .row)) Iff.rfl
  | .publish signal => decidable_of_iff (signal.kind = .prediction → SentFromMemory s signal.predictionId →
      s.handoff.outbox.Knows signal.dedupeKey) Iff.rfl
  | .deliver =>
    match h : s.worker with
    | .claimed item => decidable_of_iff (item.signal.kind = .prediction → item.signal.predictionId ∈ s.persisted →
        (authorize s item).allowed = true → side item.signal.predictionId = .memory) (by simp only [OneSided, h])
    | .waiting => .isTrue (by simp only [OneSided, h])
    | .sent _ => .isTrue (by simp only [OneSided, h])
    | .rejected _ => .isTrue (by simp only [OneSided, h])
  | .deliverRow d => decidable_of_iff (∀ row ∈ (s.batches d).rows.head?, ∀ p ∈ s.persisted,
      row.dedupeKey = notificationKey p → (authorizeRow s row).allowed = true → side p = .row) Iff.rfl
  | .advance _ => .isTrue trivial
  | .noteTargetStarted .. => .isTrue trivial
  | .killStale .. => .isTrue trivial
  | .claim => .isTrue trivial
  | .complete => .isTrue trivial
  | .recoverStaleClaims _ => .isTrue trivial
  | .claimRows .. => .isTrue trivial
  | .completeRow .. => .isTrue trivial

/-! ### The signals -/

structure SignalInv (s : State) : Prop where
  keyed : Keyed (view s)
  unsent : ∀ x ∈ unsentItems s, x.signal.kind = .prediction → ¬SentFromMemory s x.signal.predictionId
  once : ∀ p, (signalsOf s p).length ≤ 1

theorem signalsOf_congr (h : t.signalsSent = s.signalsSent) : signalsOf t = signalsOf s := by
  funext p
  rw [signalsOf, h, signalsOf]

theorem sentFromMemory_congr (h : t.signalsSent = s.signalsSent) : SentFromMemory t p ↔ SentFromMemory s p := by
  rw [SentFromMemory, h, SentFromMemory]

/-- A step that sends no signal and queues none that was sent. -/
theorem SignalInv.of_items (h : SignalInv s) (hkeyed : Keyed (view t)) (hsent : t.signalsSent = s.signalsSent)
    (hitems : ∀ x ∈ unsentItems t, x.signal.kind = .prediction → SentFromMemory s x.signal.predictionId →
      ∃ y ∈ unsentItems s, y.signal = x.signal) : SignalInv t := by
  refine ⟨hkeyed, fun x hx hk hm => ?_, ?_⟩
  · rw [sentFromMemory_congr hsent] at hm
    obtain ⟨y, hy, heq⟩ := hitems x hx hk hm
    exact h.unsent y hy (heq ▸ hk) (heq ▸ hm)
  · rw [signalsOf_congr hsent]
    exact h.once

theorem SignalInv.same (h : SignalInv s) (hhandoff : t.handoff = s.handoff) (hworker : t.worker = s.worker)
    (hsent : t.signalsSent = s.signalsSent) : SignalInv t := by
  have houtbox := congrArg DurableHandoff.outbox hhandoff
  exact h.of_items (keyed_congr h.keyed houtbox (congrArg held hworker)) hsent fun x hx _ _ =>
    ⟨x, unsent_congr houtbox hworker ▸ hx, rfl⟩

/-- A publication that the outbox accepts is not one of a signal that was sent. -/
theorem SignalInv.publish (h : SignalInv s) (houtbox : t.handoff.outbox = (s.handoff.outbox.publish signal now).1)
    (hworker : t.worker = s.worker) (hsent : t.signalsSent = s.signalsSent)
    (hok : signal.kind = .prediction → SentFromMemory s signal.predictionId → s.handoff.outbox.Knows signal.dedupeKey) :
    SignalInv t := by
  refine h.of_items (publish_keyed h.keyed houtbox hworker) hsent fun x hx hk hm => ?_
  rcases unsent_publish houtbox hworker hx with hx | ⟨haccepts, rfl⟩
  · exact ⟨x, hx, rfl⟩
  · exact absurd (hok hk hm) haccepts.1

theorem claim_signalInv (h : SignalInv s) (hs : step s .claim = some t) : SignalInv t := by
  have hsent : t.signalsSent = s.signalsSent := by
    obtain ⟨-, rfl | ⟨item, outbox, -, rfl⟩⟩ := claim_inv hs <;> rfl
  refine h.of_items (claim_keyed h.keyed hs) hsent fun x hx _ _ => ?_
  obtain ⟨y, hy, hsignal, -⟩ := unsent_claim hs hx
  exact ⟨y, hy, hsignal⟩

/-- Distinct live items have distinct keys, so a signal that is sent now was the only unsent one of its key. -/
theorem deliver_signalInv (h : SignalInv s) (hs : step s .deliver = some t) : SignalInv t := by
  have hkeyed : Keyed (view t) := deliver_view hs ▸ h.keyed
  have hkept : ∀ x ∈ unsentItems t, x ∈ unsentItems s := fun x hx => unsent_deliver hs hx
  obtain ⟨item, hw, ⟨-, rfl⟩ | ⟨-, rfl⟩⟩ := deliver_inv hs
  · have hhand : item ∈ unsentItems s := unsent_of_inHand (by rw [hw]; exact List.mem_singleton_self item)
    refine ⟨hkeyed, fun x hx hk hm => ?_, fun p => ?_⟩
    · have hxs : x ∈ s.handoff.outbox.items := by simpa [unsentItems, inHand] using hx
      obtain ⟨g, hg, hgk, hgp⟩ := hm
      rcases List.mem_append.mp hg with hg | hg
      · exact h.unsent x (hkept x hx) hk ⟨g, hg, hgk, hgp⟩
      · obtain rfl := List.mem_singleton.mp hg
        have hsame : x.dedupeKey = item.dedupeKey := by
          rw [h.keyed.key x (live_of_unsent (hkept x hx)), h.keyed.key item (live_of_unsent hhand), Signal.dedupeKey,
            Signal.dedupeKey, hk, hgk, hgp]
        exact key_ne_of_queued h.keyed hw hxs hsame
    · unfold signalsOf
      rw [List.filter_append]
      by_cases hp : item.signal.kind = .prediction ∧ item.signal.predictionId = p
      · have hnone : s.signalsSent.filter (fun g => g.kind = .prediction ∧ g.predictionId = p) = [] := by
          rw [List.filter_eq_nil_iff]
          intro g hg hgp
          rw [decide_eq_true_eq] at hgp
          exact h.unsent item hhand hp.1 ⟨g, hg, hgp.1, hgp.2.trans hp.2.symm⟩
        rw [hnone, List.nil_append]
        exact List.length_filter_le _ _
      · have hnone : [item.signal].filter (fun g => g.kind = .prediction ∧ g.predictionId = p) = [] := by simp [hp]
        rw [hnone, List.append_nil]
        exact h.once p
  · exact h.of_items hkeyed rfl fun x hx _ _ => ⟨x, hkept x hx, rfl⟩

theorem complete_signalInv (h : SignalInv s) (hs : step s .complete = some t) : SignalInv t := by
  have hsent : t.signalsSent = s.signalsSent := by
    obtain ⟨item, ⟨-, rfl⟩ | ⟨-, rfl⟩⟩ := complete_inv hs <;> rfl
  refine h.of_items (complete_keyed h.keyed hs) hsent fun x hx _ _ => ?_
  rcases unsent_complete hs hx with hx | ⟨item, hitem, -, hsignal, -⟩
  · exact ⟨x, hx, rfl⟩
  · exact ⟨item, hitem, hsignal.symm⟩

/-! ### One step -/

/-- What was sent for a durable prediction came from its own side. -/
def Sided (side : PredictionId → Side) (s : State) : Prop :=
  ∀ p ∈ s.persisted, (SentFromMemory s p → side p = .memory) ∧ (SentFromRow s p → side p = .row)

structure Inv (side : PredictionId → Side) (s : State) : Prop where
  closed : s.conn.Closed
  rows : RowInv s
  signals : SignalInv s
  sided : Sided side s

/-- A step that sends nothing and persists nothing. -/
theorem Sided.same {side : PredictionId → Side} (h : Sided side s) (hpersisted : t.persisted = s.persisted)
    (hsignals : t.signalsSent = s.signalsSent) (hrows : t.rowsSent = s.rowsSent) : Sided side t := by
  intro p hp
  rw [sentFromMemory_congr hsignals, SentFromRow, hrows]
  exact h p (hpersisted ▸ hp)

variable {side : PredictionId → Side}

theorem persist_signals (h : Inv side s) {pev : PredictionEvent} {f : Faults} (hok : OneSided side s (.persist pev f))
    (hs : step s (.persist pev f) = some t) : SignalInv t ∧ Sided side t := by
  obtain ⟨conn, repo, -, ⟨hcommits, rfl⟩ | ⟨-, rfl⟩⟩ := persist_inv h.closed hs
  · obtain ⟨hmemory, hrow⟩ := hok hcommits
    constructor
    · have hout := (s.handoff.publishPrediction_outbox (signalFromPrediction pev s.clock) s.clock).1
      exact h.signals.publish hout rfl rfl fun _ hm => (hmemory hm).2
    · intro p hp
      rcases List.mem_append.mp hp with hp | hp
      · exact h.sided p hp
      · rw [List.mem_singleton.mp hp]
        exact ⟨fun hm => (hmemory hm).1, hrow⟩
  · exact ⟨h.signals.same rfl rfl rfl, h.sided.same rfl rfl rfl⟩

theorem deliver_sided (h : Inv side s) (hok : OneSided side s .deliver) (hs : step s .deliver = some t) :
    Sided side t := by
  obtain ⟨item, hw, ⟨ha, rfl⟩ | ⟨-, rfl⟩⟩ := deliver_inv hs
  · intro p hp
    refine ⟨?_, (h.sided p hp).2⟩
    rintro ⟨g, hg, hk, rfl⟩
    rcases List.mem_append.mp hg with hg | hg
    · exact (h.sided _ hp).1 ⟨g, hg, hk, rfl⟩
    · obtain rfl := List.mem_singleton.mp hg
      simp only [OneSided, hw] at hok
      exact hok hk hp ha
  · exact h.sided.same rfl rfl rfl

theorem deliverRow_sided (h : Inv side s) (hok : OneSided side s (.deliverRow d))
    (hs : step s (.deliverRow d) = some t) : Sided side t := by
  obtain ⟨row, rest, hb, ⟨ha, rfl⟩ | ⟨-, rfl⟩⟩ := deliverRow_inv hs
  · intro p hp
    refine ⟨(h.sided p hp).1, fun hr => ?_⟩
    rcases List.mem_append.mp hr with hr | hr
    · exact (h.sided p hp).2 hr
    · refine hok row ?_ p hp (List.mem_singleton.mp hr).symm ha
      rw [hb]
      rfl
  · exact h.sided.same rfl rfl rfl

theorem step_inv (h : Inv side s) (hok : OneSided side s a) (hs : step s a = some t) : Inv side t := by
  obtain ⟨hrows, hclosed⟩ := step_rowInv h.rows h.closed hs
  suffices hrest : SignalInv t ∧ Sided side t from ⟨hclosed, hrows, hrest.1, hrest.2⟩
  cases a with
  | persist pev f => exact persist_signals h hok hs
  | publish signal =>
    cases hs
    exact ⟨h.signals.publish rfl rfl rfl hok, h.sided.same rfl rfl rfl⟩
  | claim =>
    refine ⟨claim_signalInv h.signals hs, ?_⟩
    obtain ⟨-, rfl | ⟨item, outbox, -, rfl⟩⟩ := claim_inv hs
    · exact h.sided
    · exact h.sided.same rfl rfl rfl
  | deliver => exact ⟨deliver_signalInv h.signals hs, deliver_sided h hok hs⟩
  | complete =>
    refine ⟨complete_signalInv h.signals hs, ?_⟩
    obtain ⟨item, ⟨-, rfl⟩ | ⟨-, rfl⟩⟩ := complete_inv hs <;> exact h.sided.same rfl rfl rfl
  | deliverRow d =>
    refine ⟨?_, deliverRow_sided h hok hs⟩
    obtain ⟨row, rest, -, ⟨-, rfl⟩ | ⟨-, rfl⟩⟩ := deliverRow_inv hs <;> exact h.signals.same rfl rfl rfl
  | _ =>
    have hu := step_local hs trivial
    exact ⟨h.signals.same hu.handoff hu.worker hu.signalsSent, h.sided.same hu.persisted hu.signalsSent hu.rowsSent⟩

/-- Each copy is sent at most once, and only one of them. -/
theorem Inv.atMostOnce (h : Inv side s) : AtMostOnce s := by
  intro p hp
  obtain ⟨hmemory, hrow⟩ := h.sided p hp
  have honce : s.rowsSent.count (notificationKey p) ≤ 1 := List.nodup_iff_count_le_one.mp h.rows.once _
  unfold sends
  rcases Nat.eq_zero_or_pos (signalsOf s p).length with hzero | hpos
  · rw [hzero, Nat.zero_add]
    exact honce
  · obtain ⟨g, hg⟩ := List.length_pos_iff_exists_mem.mp hpos
    have hg := List.mem_filter.mp hg
    rw [decide_eq_true_eq] at hg
    have hnone : s.rowsSent.count (notificationKey p) = 0 := by
      rw [List.count_eq_zero]
      intro hr
      have hside := hrow hr
      rw [hmemory ⟨g, hg.1, hg.2⟩] at hside
      cases hside
    rw [hnone, Nat.add_zero]
    exact h.signals.once p

/-! ### Runs -/

theorem inv_initial {tables : Tables} {clock : TimestampMs} {deliveryDeadlineMs : Int} (capacity : Nat)
    (h : Timely tables clock) (hdeadline : deliveryDeadlineMs ≤ NotificationWorker.claimStaleMs) :
    Inv side (initial tables clock capacity deliveryDeadlineMs) where
  closed := closed_idle
  rows := rowInv_initial capacity h hdeadline
  signals := ⟨keyed_congr (keyed_initial capacity) rfl rfl, fun _ hx => by simp [unsentItems, initial, inHand] at hx,
    fun _ => Nat.zero_le 1⟩
  sided := nofun

/-- With a delivery deadline of at most the claim timeout, in a run in which only one copy of each durable prediction is ever
    delivered in time, each of them is handed to the client at most once. -/
theorem atMostOnce_of_reaches {tables : Tables} {clock : TimestampMs} {capacity : Nat} {deliveryDeadlineMs : Int}
    (side : PredictionId → Side) (ht : Timely tables clock)
    (hdeadline : deliveryDeadlineMs ≤ NotificationWorker.claimStaleMs)
    (hr : Reaches step (OneSided side) (initial tables clock capacity deliveryDeadlineMs) s) : AtMostOnce s :=
  (hr.invariant (P := Inv side) (inv_initial capacity ht hdeadline) fun _ _ _ h hok hs => step_inv h hok hs).atMostOnce

def entersRound : PredictionEvent := { predictionId := "p1", targetRoundId := "r1", decision := .enter }

/-- The signal is sent at once, and the row is claimed after its deadline. -/
def lateRow : List Action :=
  [.persist entersRound {}, .claim, .deliver, .complete, .advance 6000, .claimRows .loop none, .deliverRow .loop,
    .completeRow .loop none]

theorem lateRow_atMostOnce : ∃ s, run step (initial {} 1 8 5000) lateRow = some s ∧ AtMostOnce s := by
  obtain ⟨s, hs⟩ := Option.isSome_iff_exists.mp (by decide : (run step (initial {} 1 8 5000) lateRow).isSome = true)
  have htimely : Timely {} 1 := ⟨by decide, List.nodup_nil, fun _ hr => (List.not_mem_nil hr).elim,
    fun _ hr => (List.not_mem_nil hr).elim⟩
  exact ⟨s, hs, atMostOnce_of_reaches (fun _ => .memory) htimely (by decide) (.of_run (by decide) hs)⟩

/-- Both workers deliver in time. -/
def bothCopies : List Action :=
  [.persist entersRound {}, .claim, .deliver, .complete, .claimRows .loop none, .deliverRow .loop]

theorem bothCopies_not_atMostOnce : ∃ s, Reaches step anyStep (initial {} 1 8 5000) s ∧ ¬AtMostOnce s := by
  have hsends : (run step (initial {} 1 8 5000) bothCopies).map (fun s => (s.persisted, sends s "p1")) = some (["p1"], 2) := by
    decide
  obtain ⟨s, hs, hpair⟩ := Option.map_eq_some_iff.mp hsends
  refine ⟨s, .of_run (meets_anyStep _ _) hs, fun h => ?_⟩
  obtain ⟨hpersisted, htwo⟩ := Prod.mk.inj hpair
  have hone := h "p1" (by rw [hpersisted]; exact List.mem_singleton_self _)
  rw [htwo] at hone
  exact absurd hone (by decide)

end DeliveryWorkers
end CrashCore
