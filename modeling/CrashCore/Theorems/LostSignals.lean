import CrashCore.Application.ForensicNotes
import CrashCore.Theorems.SendOnce

/-! When the search for lost signals is exact. A prediction is published under its own id, but only the worker on the
table notes that it sent something, and under the number of the row; the Delivered stage of a prediction comes from the
feedback on its outcome. -/

namespace CrashCore
namespace SignalTracing
open DeliveryWorkers DeliveryForensics DurablePredictionTx Transition

variable {persistent : Bool} {s t : State} {a : Act} {base : DeliveryWorkers.State} {p : PredictionId}

/-- One of the workers sent the message of the prediction. -/
def Sent (s : State) (p : PredictionId) : Prop := SentFromMemory s.base p ∨ SentFromRow s.base p

instance (s : State) (p : PredictionId) : Decidable (Sent s p) := inferInstanceAs (Decidable (_ ∨ _))

/-- Since when a prediction is published whose message was not sent. -/
def due (s : State) (p : PredictionId) : Option TimestampMs := if Sent s p then none else s.publishedAt p

def Lost (s : State) (p : PredictionId) : Prop := (s.publishedAt p).isSome ∧ ¬Sent s p

instance (s : State) (p : PredictionId) : Decidable (Lost s p) := inferInstanceAs (Decidable (_ ∧ _))

/-- The search finds the predictions that were published more than `age` ago and not sent, and each Delivered stage was
    noted for a send of the message, under the key of the prediction. -/
structure Exact (s : State) : Prop where
  lost : ∀ age p, p ∈ (s.forensics.findLost age s.base.clock).map (·.correlationId) ↔
    (∃ since ∈ s.publishedAt p, since < s.base.clock - age) ∧ ¬Sent s p
  recorded : ∀ d ∈ s.deliveredNotes, d.sent = some (notificationKey d.key)

def ExactWithin (s : State) : Prop := s.traced.card ≤ maxTraces → Exact s

/-! ### The condition -/

/-- The key that a note of `p` forgets is not the one of a prediction that is lost then; that of `p` itself has a
    Delivered stage exactly if the message was sent. -/
def ResponseFaithful (s : State) (p : PredictionId) (first : String) : Prop :=
  (¬(s.forensics.Overflows p ∧ p = first) → (s.forensics.Delivered p ↔ Sent s p)) ∧
    (s.forensics.Overflows p → first = p ∨ (s.publishedAt first).isSome → Sent s first)

/-- A row is sent only under the id of its prediction, and no lost prediction is forgotten. -/
def RowFaithful (s : State) (row : NotificationRow) (result : Except String Unit) (first : String) : Prop :=
  ((rowResult s row result).isOk → row.dedupeKey = notificationKey (toString row.id)) ∧
    (s.forensics.Overflows (toString row.id) → Lost s first →
      (rowResult s row result).isOk ∧ first = toString row.id)

instance (s : State) (p : PredictionId) (first : String) : Decidable (ResponseFaithful s p first) :=
  inferInstanceAs (Decidable (_ ∧ _))

instance (s : State) (row : NotificationRow) (result : Except String Unit) (first : String) :
    Decidable (RowFaithful s row result first) :=
  inferInstanceAs (Decidable (_ ∧ _))

/-- While at most 5000 predictions are traced: the coordinator publishes only what was sent (or published in the same
    millisecond), the feedback takes no outcome, the outbox worker sends no prediction that is lost until then, and
    the notes of responses and rows are faithful. -/
def Faithful (persistent : Bool) (s : State) : Act → Prop
  | .response resp f first =>
    (publication persistent s (fromResponse resp resp.targetRoundId 0 s.base.clock) f).2 = true →
      (insert resp.predictionId s.traced).card ≤ maxTraces → ResponseFaithful s resp.predictionId first
  | .roundEnd resp gameId crashPoint =>
    (handoff s (fromResponse resp gameId crashPoint s.base.clock)).2 = true → s.traced.card ≤ maxTraces →
      Sent s resp.predictionId ∨ s.publishedAt resp.predictionId = some s.base.clock
  | .outcome o .. => ExactlyOnceFeedback.Eligible o → o.predictionId ∉ s.feedback.seen →
      maxTraces < (insert o.predictionId s.traced).card
  | .deliver sent =>
    match s.base.worker with
    | .claimed item => sent = true → s.traced.card ≤ maxTraces → (authorize s.base item).allowed = true →
        item.signal.kind = .prediction → ¬Lost s item.signal.predictionId
    | _ => True
  | .deliverRow d result first =>
    s.traced.card ≤ maxTraces → ∀ row ∈ (s.base.batches d).rows.head?, RowFaithful s row result first
  | .other _ => True

instance (persistent : Bool) (s : State) : DecidablePred (Faithful persistent s)
  | .response resp f first => decidable_of_iff
      ((publication persistent s (fromResponse resp resp.targetRoundId 0 s.base.clock) f).2 = true →
        (insert resp.predictionId s.traced).card ≤ maxTraces → ResponseFaithful s resp.predictionId first) Iff.rfl
  | .roundEnd resp gameId crashPoint => decidable_of_iff
      ((handoff s (fromResponse resp gameId crashPoint s.base.clock)).2 = true → s.traced.card ≤ maxTraces →
        Sent s resp.predictionId ∨ s.publishedAt resp.predictionId = some s.base.clock) Iff.rfl
  | .outcome o .. => decidable_of_iff (ExactlyOnceFeedback.Eligible o → o.predictionId ∉ s.feedback.seen →
      maxTraces < (insert o.predictionId s.traced).card) Iff.rfl
  | .deliver sent =>
    match h : s.base.worker with
    | .claimed item => decidable_of_iff (sent = true → s.traced.card ≤ maxTraces →
        (authorize s.base item).allowed = true → item.signal.kind = .prediction → ¬Lost s item.signal.predictionId)
        (by simp only [Faithful, h])
    | .waiting => .isTrue (by simp only [Faithful, h])
    | .sent _ => .isTrue (by simp only [Faithful, h])
    | .rejected _ => .isTrue (by simp only [Faithful, h])
  | .deliverRow d result first => decidable_of_iff (s.traced.card ≤ maxTraces →
      ∀ row ∈ (s.base.batches d).rows.head?, RowFaithful s row result first) Iff.rfl
  | .other _ => .isTrue trivial

/-! ### What the search goes by -/

theorem due_eq_none : due s p = none ↔ ¬Lost s p := by
  unfold due Lost
  split <;> rename_i h
  · exact ⟨fun _ hl => hl.2 h, fun _ => rfl⟩
  · rw [not_and_not_right, Option.isSome_iff_ne_none]
    exact ⟨fun hn hs => absurd hn hs, fun hn => by_contra fun hs => h (hn hs)⟩

/-- Two times that are past for the same moments are the same. -/
theorem eq_of_past {x y : Option TimestampMs} (h : ∀ now, (∃ since ∈ x, since < now) ↔ ∃ since ∈ y, since < now) : x = y := by
  have hle : ∀ {x y : Option TimestampMs}, (∀ now, (∃ since ∈ x, since < now) ↔ ∃ since ∈ y, since < now) →
      ∀ since ∈ x, ∃ since' ∈ y, since' ≤ since := fun h since hx => by
    obtain ⟨since', hy, hlt⟩ := (h (since + 1)).mp ⟨since, hx, Int.lt_succ since⟩
    exact ⟨since', hy, Int.lt_add_one_iff.mp hlt⟩
  rcases x with _ | x <;> rcases y with _ | y
  · rfl
  · obtain ⟨_, hx, -⟩ := hle (fun now => (h now).symm) y rfl
    cases hx
  · obtain ⟨_, hy, -⟩ := hle h x rfl
    cases hy
  · obtain ⟨_, hy, hyx⟩ := hle h x rfl
    obtain ⟨_, hx, hxy⟩ := hle (fun now => (h now).symm) y rfl
    cases hx
    cases hy
    exact congrArg some (Int.le_antisymm hxy hyx)

/-- The search is exact for every age exactly when it goes by the predictions that are published and not sent. -/
theorem exact_iff : Exact s ↔ (∀ p, s.forensics.lostSince p = due s p) ∧
    ∀ d ∈ s.deliveredNotes, d.sent = some (notificationKey d.key) := by
  have hdue : ∀ p now, (∃ since ∈ due s p, since < now) ↔ (∃ since ∈ s.publishedAt p, since < now) ∧ ¬Sent s p := by
    intro p now
    unfold due
    split <;> rename_i h <;> simp [h]
  constructor
  · refine fun h => ⟨fun p => eq_of_past fun now => ?_, h.recorded⟩
    have hlost := h.lost (s.base.clock - now) p
    rw [mem_findLost, Int.sub_sub_self] at hlost
    rw [hlost, hdue]
  · rintro ⟨hsince, hrecorded⟩
    refine ⟨fun age p => ?_, hrecorded⟩
    rw [mem_findLost, hsince p, hdue]

/-! ### One step -/

structure Inv (s : State) : Prop where
  clock : 0 < s.base.clock
  exact : ExactWithin s

/-- No prediction becomes a sent one. -/
def SendsNothing (s t : State) : Prop := ∀ p, Sent t p ↔ Sent s p

/-- Nothing is noted and nothing published either. -/
structure Silent (s t : State) : Prop where
  sends : SendsNothing s t
  forensics : t.forensics = s.forensics
  publishedAt : t.publishedAt = s.publishedAt
  traced : t.traced = s.traced
  deliveredNotes : t.deliveredNotes = s.deliveredNotes

theorem sendsNothing_of_same (hsignals : t.base.signalsSent = s.base.signalsSent)
    (hrows : t.base.rowsSent = s.base.rowsSent) : SendsNothing s t := fun p => by
  rw [Sent, sentFromMemory_congr hsignals, SentFromRow, hrows]
  exact Iff.rfl

theorem SendsNothing.due (h : SendsNothing s t) (p : PredictionId) :
    due t p = if Sent s p then none else t.publishedAt p :=
  if_congr (h p) rfl rfl

/-- A prediction that is sent is not due any more. -/
theorem due_of_sent (hsent : ∀ q, Sent t q ↔ Sent s q ∨ q = p) (hpublished : t.publishedAt = s.publishedAt)
    (q : PredictionId) : due t q = if q = p then none else due s q := by
  unfold due
  rw [hpublished]
  by_cases hq : q = p
  · rw [if_pos hq, if_pos ((hsent q).mpr (Or.inr hq))]
  · rw [if_neg hq]
    exact if_congr ((hsent q).trans (or_iff_left hq)) rfl rfl

/-- The number of traced predictions only grows, so a step is looked at from an exact state. -/
theorem within_iff {c : Prop} (h : Inv s) (hle : s.traced.card ≤ t.traced.card) (hiff : Exact s → (Exact t ↔ c)) :
    ExactWithin t ↔ (t.traced.card ≤ maxTraces → c) :=
  forall_congr' fun hcard => hiff (h.exact (hle.trans hcard))

theorem Silent.exactWithin (h : Silent s t) (hs : Inv s) : ExactWithin t := by
  refine (within_iff hs (congrArg Finset.card h.traced).ge fun hexact => ?_).mpr fun _ => trivial
  obtain ⟨hsince, hrecorded⟩ := exact_iff.mp hexact
  refine iff_true_intro (exact_iff.mpr ⟨fun p => ?_, h.deliveredNotes ▸ hrecorded⟩)
  rw [h.forensics, hsince p, h.sends.due, h.publishedAt]
  rfl

theorem withTx_sends (b : DeliveryWorkers.State) (tx : DurablePredictionTx) :
    (withTx b tx).signalsSent = b.signalsSent ∧ (withTx b tx).rowsSent = b.rowsSent ∧
      (withTx b tx).clock = b.clock := by
  unfold withTx
  split <;> exact ⟨rfl, rfl, rfl⟩

/-! #### Publications -/

/-- The response handler publishes nothing, or it notes the publication. -/
theorem response_cases {persistent : Bool} {pev : PredictionEvent} {f : Faults} {first : String}
    (ht : t = response persistent s pev f first) :
    ((publication persistent s pev f).2 = false ∧ Silent s t) ∨
      ((publication persistent s pev f).2 = true ∧ SendsNothing s t ∧
        t.forensics = s.forensics.note pev.predictionId .published (outboxId persistent s pev f) "" s.base.clock first ∧
        t.publishedAt = Function.update s.publishedAt pev.predictionId (some s.base.clock) ∧
        t.traced = insert pev.predictionId s.traced ∧ t.deliveredNotes = s.deliveredNotes) := by
  rcases hp : publication persistent s pev f with ⟨tx, published⟩
  obtain ⟨hsignals, hrows, -⟩ := withTx_sends s.base tx
  unfold response at ht
  rw [hp] at ht
  cases published with
  | false =>
    subst ht
    exact Or.inl ⟨rfl, sendsNothing_of_same hsignals hrows, rfl, rfl, rfl, rfl⟩
  | true =>
    subst ht
    exact Or.inr ⟨rfl, sendsNothing_of_same hsignals hrows, rfl, rfl, rfl, rfl⟩

theorem response_iff (h : Inv s) {pev : PredictionEvent} {f : Faults} {first : String}
    (ht : t = response persistent s pev f first) :
    ExactWithin t ↔ ((publication persistent s pev f).2 = true →
      (insert pev.predictionId s.traced).card ≤ maxTraces → ResponseFaithful s pev.predictionId first) := by
  rcases response_cases ht with ⟨hpub, hsilent⟩ | ⟨hpub, hnone, hforensics, hpublished, htraced, hnotes⟩
  · rw [hpub]
    exact iff_of_true (hsilent.exactWithin h) nofun
  rw [imp_iff_right hpub, ← htraced]
  refine within_iff h (Finset.card_le_card (htraced ▸ Finset.subset_insert _ _)) fun hs => ?_
  obtain ⟨hsince, hrecorded⟩ := exact_iff.mp hs
  rw [exact_iff, hnotes, and_iff_left hrecorded, hforensics, lostSince_note_iff, hnone.due, hnone.due, hpublished,
    Function.update_self]
  have hother : ∀ q, q ≠ pev.predictionId → ¬(s.forensics.Overflows pev.predictionId ∧ q = first) →
      s.forensics.lostSince q = due t q := fun q hq _ => by
    rw [hsince q, hnone.due, hpublished, Function.update_of_ne hq]
    rfl
  rw [and_iff_left hother, ResponseFaithful]
  refine and_congr (forall_congr' fun hkept => ?_) (forall_congr' fun _ => ?_)
  · rw [lostSince_published h.clock hkept]
    by_cases hd : s.forensics.Delivered pev.predictionId <;> by_cases hsent : Sent s pev.predictionId <;>
      simp [hd, hsent]
  · by_cases hsent : Sent s first
    · simp [hsent]
    · by_cases hfirst : first = pev.predictionId
      · subst hfirst
        simp [hsent]
      · simp [hsent, hfirst]

/-- What the coordinator publishes is not noted. -/
theorem roundEnd_iff (h : Inv s) {pev : PredictionEvent} (ht : t = roundEnd s pev) :
    ExactWithin t ↔ ((handoff s pev).2 = true → s.traced.card ≤ maxTraces →
      Sent s pev.predictionId ∨ s.publishedAt pev.predictionId = some s.base.clock) := by
  rcases hp : handoff s pev with ⟨tx, published⟩
  obtain ⟨hsignals, hrows, -⟩ := withTx_sends s.base tx
  unfold roundEnd at ht
  rw [hp] at ht
  cases published with
  | false =>
    subst ht
    have hsilent : Silent s { s with base := withTx s.base tx } := ⟨sendsNothing_of_same hsignals hrows, rfl, rfl, rfl, rfl⟩
    exact iff_of_true (hsilent.exactWithin h) nofun
  | true =>
    obtain ⟨hnone, hforensics, hpublished, htraced, hnotes⟩ : SendsNothing s t ∧ t.forensics = s.forensics ∧
        t.publishedAt = Function.update s.publishedAt pev.predictionId (some s.base.clock) ∧ t.traced = s.traced ∧
        t.deliveredNotes = s.deliveredNotes := by
      subst ht
      exact ⟨sendsNothing_of_same hsignals hrows, rfl, rfl, rfl, rfl⟩
    rw [imp_iff_right rfl, ← htraced]
    refine within_iff h (congrArg Finset.card htraced).ge fun hs => ?_
    obtain ⟨hsince, hrecorded⟩ := exact_iff.mp hs
    rw [exact_iff, hnotes, and_iff_left hrecorded, hforensics]
    constructor
    · intro hall
      have hp := hall pev.predictionId
      rw [hsince, hnone.due, hpublished, Function.update_self, due] at hp
      by_cases hsent : Sent s pev.predictionId
      · exact Or.inl hsent
      · rw [if_neg hsent, if_neg hsent] at hp
        exact Or.inr hp
    · intro hcase q
      rw [hsince, hnone.due, hpublished, due]
      by_cases hq : q = pev.predictionId
      · subst hq
        rw [Function.update_self]
        rcases hcase with hsent | hsame
        · rw [if_pos hsent, if_pos hsent]
        · rw [hsame]
      · rw [Function.update_of_ne hq]

/-! #### Feedback and sends -/

/-- The feedback takes an outcome exactly if it is eligible and new. -/
theorem apply_iff (f : ExactlyOnceFeedback) (c : ExactlyOnceFeedback.Call) :
    (f.apply c).2 = true ↔ ExactlyOnceFeedback.Eligible c.outcome ∧ c.outcome.predictionId ∉ f.seen := by
  by_cases h : ¬ExactlyOnceFeedback.Eligible c.outcome ∨ c.outcome.predictionId ∈ f.seen
  · rw [(ExactlyOnceFeedback.apply_ignored h).2.2]
    exact iff_of_false nofun fun hn => h.elim (absurd hn.1) hn.2
  · rw [not_or, not_not] at h
    exact iff_of_true (ExactlyOnceFeedback.apply_noted h.1 h.2).2.2 h

/-- No send precedes the Delivered stage of a prediction. -/
theorem outcome_iff (h : Inv s) {o : Outcome} {answered : Bool} {fault : Fault} {first : String}
    (ht : t = outcome persistent s o answered fault first) :
    ExactWithin t ↔ (ExactlyOnceFeedback.Eligible o → o.predictionId ∉ s.feedback.seen →
      maxTraces < (insert o.predictionId s.traced).card) := by
  have happly := apply_iff s.feedback { outcome := o, now := s.base.clock, answered }
  rcases hp : s.feedback.apply { outcome := o, now := s.base.clock, answered } with ⟨feedback, applied⟩
  rcases hq : (durableTx s.base).publishOutcome persistent o (signalFromOutcome o s.base.clock) s.base.clock fault with
    ⟨tx, taken⟩
  obtain ⟨hsignals, hrows, -⟩ := withTx_sends s.base tx
  unfold outcome at ht
  dsimp only at ht
  rw [hp, hq] at ht
  rw [hp] at happly
  cases applied with
  | false =>
    have hsilent : Silent s t := by
      subst ht
      exact ⟨sendsNothing_of_same hsignals hrows, rfl, rfl, rfl, rfl⟩
    exact iff_of_true (hsilent.exactWithin h) fun he hn => absurd (happly.mpr ⟨he, hn⟩) nofun
  | true =>
    obtain ⟨he, hn⟩ := happly.mp rfl
    have htraced : t.traced = insert o.predictionId s.traced := by rw [ht]; rfl
    have hnotes : ⟨o.predictionId, none⟩ ∈ t.deliveredNotes := by
      rw [ht]
      exact List.mem_append_right _ (List.mem_singleton_self _)
    rw [imp_iff_right he, imp_iff_right hn, ← Nat.not_le, ← htraced]
    exact forall_congr' fun _ => iff_false_intro fun hexact => nomatch hexact.recorded _ hnotes

theorem sent_signal {item : OutboxItem} (hk : item.signal.kind = .prediction)
    (hsignals : t.base.signalsSent = s.base.signalsSent ++ [item.signal]) (hrows : t.base.rowsSent = s.base.rowsSent)
    (q : PredictionId) : Sent t q ↔ Sent s q ∨ q = item.signal.predictionId := by
  have hmemory : SentFromMemory t.base q ↔ SentFromMemory s.base q ∨ q = item.signal.predictionId := by
    simp [SentFromMemory, hsignals, or_and_right, exists_or, hk, eq_comm]
  rw [Sent, hmemory, SentFromRow, hrows, or_right_comm]
  exact Iff.rfl

theorem sent_other {item : OutboxItem} (hk : item.signal.kind ≠ .prediction)
    (hsignals : t.base.signalsSent = s.base.signalsSent ++ [item.signal]) (hrows : t.base.rowsSent = s.base.rowsSent) :
    SendsNothing s t := fun q => by
  have hmemory : SentFromMemory t.base q ↔ SentFromMemory s.base q := by
    simp [SentFromMemory, hsignals, or_and_right, exists_or, hk]
  rw [Sent, hmemory, SentFromRow, hrows]
  exact Iff.rfl

theorem sent_row {row : NotificationRow} {key : String} (hkey : row.dedupeKey = notificationKey key)
    (hsignals : t.base.signalsSent = s.base.signalsSent)
    (hrows : t.base.rowsSent = s.base.rowsSent ++ [row.dedupeKey]) (q : PredictionId) :
    Sent t q ↔ Sent s q ∨ q = key := by
  have hinj : notificationKey q = notificationKey key ↔ q = key := String.append_left_inj _
  rw [Sent, sentFromMemory_congr hsignals, SentFromRow, hrows, List.mem_append, List.mem_singleton, hkey, hinj,
    ← or_assoc]
  exact Iff.rfl

/-- The outbox worker sends the claimed signal or nothing, and nobody notes it. -/
theorem deliver_cases {sent : Bool} (hs : deliver s sent = some t) :
    ∃ item, s.base.worker = .claimed item ∧ t.forensics = s.forensics ∧ t.publishedAt = s.publishedAt ∧
      t.traced = s.traced ∧ t.deliveredNotes = s.deliveredNotes ∧ t.base.rowsSent = s.base.rowsSent ∧
      ((sent = true ∧ (authorize s.base item).allowed = true ∧
          t.base.signalsSent = s.base.signalsSent ++ [item.signal]) ∨
        (¬(sent = true ∧ (authorize s.base item).allowed = true) ∧ t.base.signalsSent = s.base.signalsSent)) := by
  unfold deliver at hs
  rcases hw : s.base.worker with _ | item | item | item <;> rw [hw] at hs <;> dsimp only at hs
  · cases hs
  · refine ⟨item, rfl, ?_⟩
    split at hs <;> rename_i hfail
    · cases hs
      exact ⟨rfl, rfl, rfl, rfl, rfl, Or.inr ⟨fun h => (by rw [hfail.2] at h; cases h.1), rfl⟩⟩
    obtain ⟨base, hbase, rfl⟩ := Option.map_eq_some_iff.mp hs
    obtain ⟨item', hw', ⟨ha, rfl⟩ | ⟨ha, rfl⟩⟩ := deliver_inv hbase <;>
      obtain rfl : item = item' := OutboxWorker.claimed.inj (hw.symm.trans hw')
    · exact ⟨rfl, rfl, rfl, rfl, rfl, Or.inl ⟨by simpa [ha] using hfail, ha, rfl⟩⟩
    · exact ⟨rfl, rfl, rfl, rfl, rfl, Or.inr ⟨fun h => (by rw [ha] at h; cases h.2), rfl⟩⟩
  · cases hs
  · cases hs

theorem deliver_iff (h : Inv s) {sent : Bool} (hs : deliver s sent = some t) :
    ExactWithin t ↔ Faithful persistent s (.deliver sent) := by
  obtain ⟨item, hw, hforensics, hpublished, htraced, hnotes, hrows, hcase⟩ := deliver_cases hs
  simp only [Faithful, hw]
  rcases hcase with ⟨hsent, ha, hsignals⟩ | ⟨hnot, hsignals⟩
  swap
  · have hsilent : Silent s t := ⟨sendsNothing_of_same hsignals hrows, hforensics, hpublished, htraced, hnotes⟩
    exact iff_of_true (hsilent.exactWithin h) fun hsent _ ha => absurd ⟨hsent, ha⟩ hnot
  rw [imp_iff_right hsent, imp_iff_right ha]
  by_cases hk : item.signal.kind = .prediction
  swap
  · have hsilent : Silent s t := ⟨sent_other hk hsignals hrows, hforensics, hpublished, htraced, hnotes⟩
    exact iff_of_true (hsilent.exactWithin h) fun _ hpred => absurd hpred hk
  rw [imp_iff_right hk, ← htraced]
  refine within_iff h (congrArg Finset.card htraced).ge fun hexact => ?_
  obtain ⟨hsince, hrecorded⟩ := exact_iff.mp hexact
  have hdue := due_of_sent (sent_signal hk hsignals hrows) hpublished
  rw [exact_iff, hnotes, and_iff_left hrecorded, hforensics, ← due_eq_none]
  constructor
  · intro hall
    rw [← hsince, hall, hdue, if_pos rfl]
  · intro hnone q
    rw [hsince, hdue]
    split <;> rename_i hq
    · rw [hq, hnone]
    · rfl

/-- The deliver function of the worker on the table notes the send, or why there was none. -/
theorem deliverRow_cases {d : Drainer} {result : Except String Unit} {first : String}
    (hs : deliverRow s d result first = some t) :
    ∃ row, row ∈ (s.base.batches d).rows.head? ∧ t.publishedAt = s.publishedAt ∧ t.traced = s.traced ∧
      t.base.signalsSent = s.base.signalsSent ∧
      ((rowResult s row result = .ok () ∧
          t.forensics = s.forensics.note (toString row.id) .delivered (toString row.id) "" s.base.clock first ∧
          t.deliveredNotes = s.deliveredNotes ++ [⟨toString row.id, some row.dedupeKey⟩] ∧
          t.base.rowsSent = s.base.rowsSent ++ [row.dedupeKey]) ∨
        ∃ m, rowResult s row result = .error m ∧
          t.forensics = s.forensics.note (toString row.id) .failed (toString row.id) m s.base.clock first ∧
          t.deliveredNotes = s.deliveredNotes ∧ t.base.rowsSent = s.base.rowsSent) := by
  unfold deliverRow at hs
  split at hs
  swap
  · cases hs
  rename_i row rest hb
  refine ⟨row, by rw [hb]; rfl, ?_⟩
  rcases hr : rowResult s row result with m | u <;> rw [hr] at hs <;> dsimp only at hs
  · cases hs
    exact ⟨rfl, rfl, rfl, Or.inr ⟨m, rfl, rfl, rfl, rfl⟩⟩
  · have ha : (authorizeRow s.base row).allowed = true := by
      unfold rowResult at hr
      split at hr <;> rename_i ha
      · exact ha
      · cases hr
    obtain ⟨base, hbase, rfl⟩ := Option.map_eq_some_iff.mp hs
    obtain ⟨row', rest', hb', ⟨-, rfl⟩ | ⟨ha', rfl⟩⟩ := deliverRow_inv hbase <;>
      obtain ⟨rfl, rfl⟩ : row = row' ∧ rest = rest' := by simpa using hb.symm.trans hb'
    · exact ⟨rfl, rfl, rfl, Or.inl ⟨rfl, rfl, rfl, rfl⟩⟩
    · rw [ha] at ha'
      cases ha'

/-- After a row was sent. -/
theorem exact_row_sent_iff {row : NotificationRow} {result : Except String Unit} {first : String} (hexact : Exact s)
    (hr : rowResult s row result = .ok ()) (hpublished : t.publishedAt = s.publishedAt)
    (hforensics :
      t.forensics = s.forensics.note (toString row.id) .delivered (toString row.id) "" s.base.clock first)
    (hnotes : t.deliveredNotes = s.deliveredNotes ++ [⟨toString row.id, some row.dedupeKey⟩])
    (hsignals : t.base.signalsSent = s.base.signalsSent)
    (hrows : t.base.rowsSent = s.base.rowsSent ++ [row.dedupeKey]) : Exact t ↔ RowFaithful s row result first := by
  obtain ⟨hsince, hrecorded⟩ := exact_iff.mp hexact
  have hkey : (∀ d ∈ t.deliveredNotes, d.sent = some (notificationKey d.key)) ↔
      row.dedupeKey = notificationKey (toString row.id) := by
    rw [hnotes, List.forall_mem_append, and_iff_right hrecorded, List.forall_mem_singleton, Option.some_inj]
  have hok : (rowResult s row result).isOk = true := by
    rw [hr]
    rfl
  rw [exact_iff, hkey, RowFaithful, imp_iff_right hok, and_comm]
  refine and_congr_right fun hid => ?_
  have hdue := due_of_sent (sent_row hid hsignals hrows) hpublished
  rw [hforensics, lostSince_note_iff]
  constructor
  · rintro ⟨-, hfirst, -⟩ hover hlost
    have hnone := hfirst hover
    rw [hdue] at hnone
    split at hnone <;> rename_i heq
    · exact ⟨hok, heq⟩
    · exact absurd hlost (due_eq_none.mp hnone)
  · intro hfirst
    refine ⟨fun _ => ?_, fun hover => ?_, fun q hq _ => ?_⟩
    · rw [lostSince_delivered, hdue, if_pos rfl]
    · rw [hdue]
      split <;> rename_i heq
      · rfl
      · exact due_eq_none.mpr fun hlost => heq (hfirst hover hlost).2
    · rw [hsince, hdue, if_neg hq]

/-- After a row was rejected or its send failed. -/
theorem exact_row_failed_iff {row : NotificationRow} {result : Except String Unit} {first m : String} (hexact : Exact s)
    (hr : rowResult s row result = .error m) (hpublished : t.publishedAt = s.publishedAt)
    (hforensics :
      t.forensics = s.forensics.note (toString row.id) .failed (toString row.id) m s.base.clock first)
    (hnotes : t.deliveredNotes = s.deliveredNotes) (hsends : SendsNothing s t) :
    Exact t ↔ RowFaithful s row result first := by
  obtain ⟨hsince, hrecorded⟩ := exact_iff.mp hexact
  have hdue : ∀ q, due t q = due s q := fun q => by
    rw [hsends.due, hpublished]
    rfl
  rw [exact_iff, hnotes, and_iff_left hrecorded, hforensics, lostSince_note_iff, RowFaithful, hr]
  constructor
  · rintro ⟨-, hfirst, -⟩
    refine ⟨nofun, fun hover hlost => absurd hlost (due_eq_none.mp ?_)⟩
    rw [← hdue, hfirst hover]
  · rintro ⟨-, hfirst⟩
    refine ⟨fun hkept => ?_, fun hover => ?_, fun q _ _ => ?_⟩
    · rw [lostSince_failed hkept, hsince, hdue]
    · rw [hdue]
      exact due_eq_none.mpr fun hlost => nomatch (hfirst hover hlost).1
    · rw [hsince, hdue]

theorem deliverRow_iff (h : Inv s) {d : Drainer} {result : Except String Unit} {first : String}
    (hs : deliverRow s d result first = some t) : ExactWithin t ↔ Faithful persistent s (.deliverRow d result first) := by
  obtain ⟨row, hrow, hpublished, htraced, hsignals, hcase⟩ := deliverRow_cases hs
  have hhead : (∀ row ∈ (s.base.batches d).rows.head?, RowFaithful s row result first) ↔ RowFaithful s row result first := by
    rw [Option.mem_def.mp hrow]
    exact ⟨fun hall => hall row rfl, fun hone row' hrow' => Option.some.inj hrow' ▸ hone⟩
  rw [Faithful, hhead, ← htraced]
  refine within_iff h (congrArg Finset.card htraced).ge fun hexact => ?_
  rcases hcase with ⟨hr, hforensics, hnotes, hrows⟩ | ⟨m, hr, hforensics, hnotes, hrows⟩
  · exact exact_row_sent_iff hexact hr hpublished hforensics hnotes hsignals hrows
  · exact exact_row_failed_iff hexact hr hpublished hforensics hnotes (sendsNothing_of_same hsignals hrows)

/-! #### All actions -/

/-- What the other actions leave alone. -/
theorem possible_frame {b c : DeliveryWorkers.State} {a : Action} (ha : Possible persistent a)
    (hs : DeliveryWorkers.step b a = some c) :
    c.signalsSent = b.signalsSent ∧ c.rowsSent = b.rowsSent ∧ b.clock ≤ c.clock := by
  cases a with
  | persist | publish | deliver | deliverRow => exact ha.elim
  | claim =>
    obtain ⟨-, rfl | ⟨item, outbox, -, rfl⟩⟩ := claim_inv hs <;> exact ⟨rfl, rfl, Int.le_refl _⟩
  | complete =>
    obtain ⟨item, ⟨-, rfl⟩ | ⟨-, rfl⟩⟩ := complete_inv hs <;> exact ⟨rfl, rfl, Int.le_refl _⟩
  | _ =>
    have h := step_local hs trivial
    exact ⟨h.signalsSent, h.rowsSent, h.clock⟩

theorem step_clock (hs : step persistent s a = some t) : s.base.clock ≤ t.base.clock := by
  unfold step at hs
  split at hs
  swap
  · cases hs
  cases a with
  | response resp f first =>
    simp only [Option.ite_none_right_eq_some] at hs
    obtain ⟨-, hs⟩ := hs
    cases hs
    simp only [response]
    split <;> exact (withTx_sends _ _).2.2.ge
  | roundEnd resp gameId crashPoint =>
    simp only [Option.ite_none_right_eq_some] at hs
    obtain ⟨-, hs⟩ := hs
    cases hs
    simp only [roundEnd]
    split <;> exact (withTx_sends _ _).2.2.ge
  | outcome o answered fault first =>
    cases hs
    simp only [outcome]
    split <;> exact (withTx_sends _ _).2.2.ge
  | deliver sent =>
    simp only [deliver] at hs
    split at hs
    swap
    · cases hs
    split at hs
    · cases hs
      exact Int.le_refl _
    · obtain ⟨base, hbase, rfl⟩ := Option.map_eq_some_iff.mp hs
      obtain ⟨item, -, ⟨-, rfl⟩ | ⟨-, rfl⟩⟩ := deliver_inv hbase <;> exact Int.le_refl _
  | deliverRow d result first =>
    simp only [deliverRow] at hs
    split at hs
    swap
    · cases hs
    split at hs
    · obtain ⟨base, hbase, rfl⟩ := Option.map_eq_some_iff.mp hs
      obtain ⟨row, rest, -, ⟨-, rfl⟩ | ⟨-, rfl⟩⟩ := deliverRow_inv hbase <;> exact Int.le_refl _
    · cases hs
      exact Int.le_refl _
  | other a =>
    simp only [Option.ite_none_right_eq_some] at hs
    obtain ⟨ha, hs⟩ := hs
    obtain ⟨base, hbase, rfl⟩ := Option.map_eq_some_iff.mp hs
    exact (possible_frame ha hbase).2.2

/-- A step from an exact state leads to an exact one exactly if it is faithful. -/
theorem step_iff (h : Inv s) (hs : step persistent s a = some t) : ExactWithin t ↔ Faithful persistent s a := by
  unfold step at hs
  split at hs
  swap
  · cases hs
  cases a with
  | response resp f first =>
    simp only [Option.ite_none_right_eq_some] at hs
    exact response_iff h (Option.some.inj hs.2).symm
  | roundEnd resp gameId crashPoint =>
    simp only [Option.ite_none_right_eq_some] at hs
    exact roundEnd_iff h (Option.some.inj hs.2).symm
  | outcome o answered fault first => exact outcome_iff h (Option.some.inj hs).symm
  | deliver sent => exact deliver_iff h hs
  | deliverRow d result first => exact deliverRow_iff h hs
  | other a =>
    simp only [Option.ite_none_right_eq_some] at hs
    obtain ⟨ha, hs⟩ := hs
    obtain ⟨base, hbase, rfl⟩ := Option.map_eq_some_iff.mp hs
    obtain ⟨hsignals, hrows, -⟩ := possible_frame ha hbase
    have hsilent : Silent s { s with base } := ⟨sendsNothing_of_same hsignals hrows, rfl, rfl, rfl, rfl⟩
    exact iff_of_true (hsilent.exactWithin h) trivial

/-! ### Runs -/

theorem inv_initial {tables : Tables} {clock : TimestampMs} {capacity : Nat} {deliveryDeadlineMs : Int}
    {feedback : ExactlyOnceFeedback} (h : 0 < clock) : Inv (initial tables clock capacity deliveryDeadlineMs feedback) where
  clock := h
  exact _ := exact_iff.mpr ⟨fun _ => (ite_self none).symm, fun _ hd => by cases hd⟩

/-- Along a run, while at most 5000 predictions are traced, the search for lost signals is exact for every age exactly
    when every step is faithful. -/
theorem exact_along_iff {tables : Tables} {clock : TimestampMs} {capacity : Nat} {deliveryDeadlineMs : Int}
    {feedback : ExactlyOnceFeedback} (hclock : 0 < clock) {acts : List Act}
    (hr : run (step persistent) (initial tables clock capacity deliveryDeadlineMs feedback) acts ≠ none) :
    Along (step persistent) ExactWithin (initial tables clock capacity deliveryDeadlineMs feedback) acts ↔
      Meets (step persistent) (Faithful persistent) (initial tables clock capacity deliveryDeadlineMs feedback) acts :=
  along_iff_meets (I := Inv) (fun _ h => h.exact)
    (fun _ _ _ h hok hs => ⟨h.clock.trans_le (step_clock hs), (step_iff h hs).mpr hok⟩)
    (fun _ _ _ h hs ht => (step_iff h hs).mp ht) (inv_initial hclock) hr

def entersRound : PredictionResponse :=
  { predictionId := "p1", targetRoundId := "r1", decision := .enter, confidence := 1, targetMult := 2, valid := true }

/-- Both copies of the message fail, and a minute later the prediction is found. -/
def neverSent : List Act :=
  [.response entersRound {} "", .other .claim, .deliver false, .other .complete, .other (.claimRows .loop none),
    .deliverRow .loop (.error "timeout") "", .other (.completeRow .loop none), .other (.advance 60001)]

theorem exact_along_neverSent : Along (step true) ExactWithin (initial {} 1 8 5000 {}) neverSent :=
  (exact_along_iff (by decide) (by decide +kernel)).mpr (by decide +kernel)

/-- The outbox worker sends the signal at once, and a minute later the prediction is found as lost. -/
def sentFromMemory : List Act := [.response entersRound {} "", .other .claim, .deliver true, .other (.advance 60001)]

theorem not_exact_along_sentFromMemory : ¬Along (step true) ExactWithin (initial {} 1 8 5000 {}) sentFromMemory := by
  have hlast : (run (step true) (initial {} 1 8 5000 {}) sentFromMemory).map (fun s =>
      (s.traced.card, (s.forensics.findLost 60000 s.base.clock).map (·.correlationId),
        s.base.signalsSent.map (fun g => (g.kind, g.predictionId)))) =
      some (1, ["p1"], [(.prediction, "p1")]) := by
    decide +kernel
  obtain ⟨s, hs, hfacts⟩ := Option.map_eq_some_iff.mp hlast
  simp only [Prod.mk.injEq] at hfacts
  obtain ⟨htraced, hfound, hsent⟩ := hfacts
  refine not_along_of_last hs fun h => ?_
  have hexact : Exact s := h (by rw [htraced]; decide)
  refine ((hexact.lost 60000 "p1").mp (by rw [hfound]; exact List.mem_singleton_self _)).2 (Or.inl ?_)
  obtain ⟨g, hg, heq⟩ := List.mem_map.mp (hsent ▸ List.mem_singleton_self (SignalKind.prediction, "p1"))
  exact ⟨g, hg, congrArg Prod.fst heq, congrArg Prod.snd heq⟩

end SignalTracing
end CrashCore
