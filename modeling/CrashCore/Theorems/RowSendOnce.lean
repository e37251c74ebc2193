import CrashCore.Delivery.Workers
import CrashCore.Library.Firsts
import CrashCore.Theorems.PersistPrediction
import Mathlib.Tactic.Linarith

/-! The notification worker hands each row to the Telegram client at most once, in every run. A row can be
claimed a second time only after its first claim was recovered as stale, and by then the delivery deadline of the
row is over.

First the rows of the table and their copies in the hands of the drainers: the invariant that keeps a row from being sent
twice, and what a step may do to the rows so that it stays. -/

namespace CrashCore
namespace DeliveryWorkers
open Connection

variable {s t : State} {fault : Fault} {d d' : Drainer} {b : Batch} {r row : NotificationRow}
  {rest : List NotificationRow}

/-! ### The rows and their copies -/

def table (s : State) : Table NotificationRow.dedupeKey := s.conn.committed.notifications

/-- The delivery deadline of the row is not over. -/
def Fresh (s : State) (r : NotificationRow) : Prop := s.clock - r.createdAtMs ≤ s.guard.deliveryDeadlineMs

/-- How many copies of the row with this id the drainers hold. -/
def copies (s : State) (id : Nat) : Nat :=
  ((s.batches .loop).rows.map (·.id)).count id + ((s.batches .stop).rows.map (·.id)).count id

/-- The copies of a batch that were not handed to the client. -/
def unsent (b : Batch) : List NotificationRow :=
  match b.head with
  | some (.ok _) => b.rows.tail
  | _ => b.rows

/-- A claim, a completion or a recovery keeps these. -/
structure SameRow (r r' : NotificationRow) : Prop where
  id : r.id = r'.id
  key : r.dedupeKey = r'.dedupeKey
  created : r.createdAtMs = r'.createdAtMs

/-- One drainer at most holds the row, a pending row is held by none, and neither a pending row nor one with an
    unsent copy was sent. -/
structure Settled (s : State) (r : NotificationRow) : Prop where
  single : copies s r.id ≤ 1
  pending : r.status = .pending → copies s r.id = 0 ∧ r.dedupeKey ∉ s.rowsSent
  unsent : ∀ d, ∀ x ∈ unsent (s.batches d), x.id = r.id → r.dedupeKey ∉ s.rowsSent

structure RowInv (s : State) : Prop where
  clock : 0 < s.clock
  /-- The deadline is over before a claim is stale. -/
  deadline : s.guard.deliveryDeadlineMs ≤ NotificationWorker.claimStaleMs
  ids : ((table s).rows.map (·.id)).Nodup
  created : ∀ r ∈ (table s).rows, 0 < r.createdAtMs ∧ r.createdAtMs ≤ s.clock
  claimed : ∀ r ∈ (table s).rows, r.status = .claimed → ∀ at_ ∈ r.claimedAtMs, r.createdAtMs ≤ at_
  copy : ∀ d, ∀ x ∈ (s.batches d).rows, ∃ r ∈ (table s).rows, SameRow x r
  settled : ∀ r ∈ (table s).rows, Fresh s r → Settled s r
  known : ∀ k ∈ s.rowsSent, (table s).Has k
  once : s.rowsSent.Nodup

/-- Neither the clock nor the deadline nor what was sent changes. -/
structure Quiet (s t : State) : Prop where
  clock : t.clock = s.clock
  deadline : t.guard.deliveryDeadlineMs = s.guard.deliveryDeadlineMs
  sent : t.rowsSent = s.rowsSent

theorem fresh_congr {r' : NotificationRow} (hq : Quiet s t) (hcreated : r'.createdAtMs = r.createdAtMs) :
    Fresh t r' ↔ Fresh s r := by
  rw [Fresh, Fresh, hq.clock, hq.deadline, hcreated]

/-! ### Counting copies -/

theorem copies_setBatch (s : State) (d : Drainer) (b : Batch) (id : Nat) :
    copies (setBatch s d b) id + ((s.batches d).rows.map (·.id)).count id = copies s id + (b.rows.map (·.id)).count id := by
  cases d <;> simp [copies, setBatch, Function.update] <;> omega

/-- A change of the batch that keeps its rows. -/
theorem copies_setBatch_of_rows (hrows : b.rows = (s.batches d).rows) (id : Nat) :
    copies (setBatch s d b) id = copies s id := by
  have hset := copies_setBatch s d b id
  rw [hrows] at hset
  exact Nat.add_right_cancel hset

theorem count_pos_of_mem {id : Nat} {l : List NotificationRow} (hr : r ∈ l) (hid : r.id = id) :
    0 < (l.map (·.id)).count id :=
  List.count_pos_iff.mpr (List.mem_map.mpr ⟨r, hr, hid⟩)

theorem copies_pos (hr : r ∈ (s.batches d).rows) : 0 < copies s r.id := by
  have hpos := count_pos_of_mem hr rfl
  unfold copies
  cases d <;> omega

theorem copies_eq_zero {id : Nat} (h : ∀ d, ∀ x ∈ (s.batches d).rows, x.id ≠ id) : copies s id = 0 := by
  have hnone : ∀ d, ((s.batches d).rows.map (·.id)).count id = 0 := by
    intro d
    rw [List.count_eq_zero]
    intro hx
    obtain ⟨x, hx, heq⟩ := List.mem_map.mp hx
    exact h d x hx heq
  rw [copies, hnone, hnone]

/-- The only copy of a row is the head of a batch: no other copy in this batch, and none in another. -/
theorem head_only (hb : (s.batches d).rows = row :: rest) (hone : copies s row.id ≤ 1) :
    (∀ x ∈ rest, x.id ≠ row.id) ∧ ∀ d' ≠ d, ∀ x ∈ (s.batches d').rows, x.id ≠ row.id := by
  have hhead : ((s.batches d).rows.map (·.id)).count row.id = (rest.map (·.id)).count row.id + 1 := by
    rw [hb, List.map_cons, List.count_cons_self]
  unfold copies at hone
  refine ⟨fun x hx hid => ?_, fun d' hd x hx hid => ?_⟩
  · have htail := count_pos_of_mem hx hid
    cases d <;> omega
  · have hother := count_pos_of_mem hx hid
    cases d <;> cases d' <;> first | exact hd rfl | omega

theorem mem_of_unsent (hr : r ∈ unsent b) : r ∈ b.rows := by
  unfold unsent at hr
  split at hr
  · exact List.mem_of_mem_tail hr
  · exact hr

/-- Two rows with the same id are the same row. -/
theorem RowInv.eq_of_id (h : RowInv s) {r r' : NotificationRow} (hr : r ∈ (table s).rows) (hr' : r' ∈ (table s).rows)
    (hid : r.id = r'.id) : r = r' := List.inj_on_of_nodup_map h.ids hr hr' hid

theorem RowInv.eq_of_key {r r' : NotificationRow} (hr : r ∈ (table s).rows) (hr' : r' ∈ (table s).rows)
    (hkey : r.dedupeKey = r'.dedupeKey) : r = r' := List.inj_on_of_nodup_map (table s).nodup hr hr' hkey

/-! ### What a step may do to the rows -/

/-- An update that keeps id, key and creation time of every row, beside changes of the batches. -/
theorem RowInv.update (h : RowInv s) (F : NotificationRow → NotificationRow) (hF : ∀ r, SameRow (F r) r)
    (hrows : (table t).rows = (table s).rows.map F) (hq : Quiet s t)
    (hcopy : ∀ d, ∀ x ∈ (t.batches d).rows, (∃ d', x ∈ (s.batches d').rows) ∨ ∃ r ∈ (table s).rows, x = F r)
    (hclaimed : ∀ r ∈ (table s).rows, (F r).status = .claimed → ∀ at_ ∈ (F r).claimedAtMs, r.createdAtMs ≤ at_)
    (hsettled : ∀ r ∈ (table s).rows, Fresh s r → Settled s r → Settled t (F r)) : RowInv t where
  clock := hq.clock ▸ h.clock
  deadline := hq.deadline ▸ h.deadline
  ids := by
    rw [hrows, List.map_map, show (fun r : NotificationRow => r.id) ∘ F = (·.id) from funext fun r => (hF r).id]
    exact h.ids
  created := by
    rw [hrows]
    intro r' hr'
    obtain ⟨r, hr, rfl⟩ := List.mem_map.mp hr'
    rw [(hF r).created, hq.clock]
    exact h.created r hr
  claimed := by
    rw [hrows]
    intro r' hr'
    obtain ⟨r, hr, rfl⟩ := List.mem_map.mp hr'
    rw [(hF r).created]
    exact hclaimed r hr
  copy := by
    rw [hrows]
    intro d x hx
    rcases hcopy d x hx with ⟨d', hx⟩ | ⟨r, hr, rfl⟩
    · obtain ⟨r, hr, hsame⟩ := h.copy d' x hx
      exact ⟨F r, List.mem_map.mpr ⟨r, hr, rfl⟩, hsame.id.trans (hF r).id.symm, hsame.key.trans (hF r).key.symm,
        hsame.created.trans (hF r).created.symm⟩
    · exact ⟨F r, List.mem_map.mpr ⟨r, hr, rfl⟩, rfl, rfl, rfl⟩
  settled := by
    rw [hrows]
    intro r' hr' hfresh
    obtain ⟨r, hr, rfl⟩ := List.mem_map.mp hr'
    have hfresh := (fresh_congr hq (hF r).created).mp hfresh
    exact hsettled r hr hfresh (h.settled r hr hfresh)
  known := by
    rw [hq.sent]
    intro k hk
    obtain ⟨r, hr, hkey⟩ := h.known k hk
    refine ⟨F r, ?_, (hF r).key.trans hkey⟩
    show F r ∈ (table t).rows
    rw [hrows]
    exact List.mem_map.mpr ⟨r, hr, rfl⟩
  once := hq.sent ▸ h.once

theorem Settled.same (h : Settled s r) {r' : NotificationRow} (hsame : SameRow r' r) (hq : Quiet s t)
    (hbatches : t.batches = s.batches) (hpending : r'.status = .pending → r.status = .pending) : Settled t r' := by
  refine ⟨?_, fun hp => ?_, ?_⟩
  · rw [copies, hbatches, hsame.id]
    exact h.single
  · rw [copies, hbatches, hq.sent, hsame.id, hsame.key]
    exact h.pending (hpending hp)
  · rw [hbatches, hq.sent, hsame.id, hsame.key]
    exact h.unsent

/-- A step that touches neither the rows nor the batches. -/
theorem RowInv.same (h : RowInv s) (htable : table t = table s) (hq : Quiet s t) (hbatches : t.batches = s.batches) :
    RowInv t :=
  h.update id (fun _ => ⟨rfl, rfl, rfl⟩) (by rw [htable, List.map_id]) hq (fun d _ hx => Or.inl ⟨d, hbatches ▸ hx⟩)
    h.claimed fun _ _ _ hset => hset.same ⟨rfl, rfl, rfl⟩ hq hbatches id

/-- Statements on a closed connection that map the rows, when only a stale row becomes pending by it. -/
theorem RowInv.mapped (h : RowInv s) (F : NotificationRow → NotificationRow) (hF : ∀ r, SameRow (F r) r)
    (hrows : (table t).rows = (table s).rows.map F) (hq : Quiet s t) (hbatches : t.batches = s.batches)
    (hclaimed : ∀ r, (F r).status = .claimed → F r = r)
    (hpending : ∀ r ∈ (table s).rows, Fresh s r → (F r).status = .pending → r.status = .pending) : RowInv t := by
  refine h.update F hF hrows hq (fun d x hx => Or.inl ⟨d, hbatches ▸ hx⟩) (fun r hr hc => ?_)
    fun r hr hfresh hset => hset.same (hF r) hq hbatches (hpending r hr hfresh)
  have hsame := hclaimed r hc
  rw [hsame] at hc ⊢
  exact h.claimed r hr hc

/-- An UPDATE that succeeds sets the rows it is about; one that fails sets none. -/
theorem exec_update {c : Connection Tables} {stmt : Statement Tables} {where_ : NotificationRow → Prop}
    [DecidablePred where_] {set : NotificationRow → NotificationRow} {hset : ∀ r, (set r).dedupeKey = r.dedupeKey}
    (hc : c.Closed) (hstmt : ∀ d', stmt c.committed = .ok d' → d' = c.committed.updateNotifications where_ set hset)
    (fault : Fault) :
    ∃ F : NotificationRow → NotificationRow,
      (c.exec stmt fault).1.committed.notifications.rows = c.committed.notifications.rows.map F ∧
        ∀ r, F r = r ∨ where_ r ∧ F r = set r := by
  rcases exec_cases stmt fault hc with ⟨d', -, hd', hexec, -⟩ | ⟨m, hexec⟩
  · refine ⟨fun r => if where_ r then set r else r, ?_, fun r => ?_⟩
    · rw [hexec, hstmt d' hd']
      rfl
    · by_cases hw : where_ r
      · exact Or.inr ⟨hw, if_pos hw⟩
      · exact Or.inl (if_neg hw)
  · refine ⟨id, ?_, fun r => Or.inl rfl⟩
    rw [hexec, List.map_id]

/-- An UPDATE on the connection, when only a stale row becomes pending by it and it claims none. -/
theorem RowInv.exec (h : RowInv s) {stmt : Statement Tables} {where_ : NotificationRow → Prop} [DecidablePred where_]
    {set : NotificationRow → NotificationRow} {hset : ∀ r, (set r).dedupeKey = r.dedupeKey} (hc : s.conn.Closed)
    (hstmt : ∀ d', stmt s.conn.committed = .ok d' → d' = s.conn.committed.updateNotifications where_ set hset)
    (ht : t.conn = (s.conn.exec stmt fault).1) (hq : Quiet s t) (hbatches : t.batches = s.batches)
    (hsame : ∀ r, SameRow (set r) r) (hunclaimed : ∀ r, (set r).status ≠ .claimed)
    (hpending : ∀ r ∈ (table s).rows, Fresh s r → where_ r → (set r).status = .pending → r.status = .pending) :
    RowInv t := by
  obtain ⟨F, hrows, hcase⟩ := exec_update hc hstmt fault
  refine h.mapped F (fun r => ?_) (by rw [table, ht, hrows]; rfl) hq hbatches (fun r hr => ?_) fun r hr hfresh hp => ?_
  · rcases hcase r with heq | ⟨-, heq⟩ <;> rw [heq]
    · exact ⟨rfl, rfl, rfl⟩
    · exact hsame r
  · rcases hcase r with heq | ⟨-, heq⟩
    · exact heq
    · rw [heq] at hr
      exact absurd hr (hunclaimed r)
  · rcases hcase r with heq | ⟨hw, heq⟩ <;> rw [heq] at hp
    · exact hp
    · exact hpending r hr hfresh hw hp

/-- The table gains a pending row of this moment, under a new id and a new key. -/
theorem RowInv.insert (h : RowInv s) {new : NotificationRow} (hrows : (table t).rows = (table s).rows ++ [new])
    (hid : ∀ r ∈ (table s).rows, r.id ≠ new.id) (hkey : ¬(table s).Has new.dedupeKey) (hpend : new.status = .pending)
    (hcreated : new.createdAtMs = s.clock) (hq : Quiet s t) (hbatches : t.batches = s.batches) : RowInv t := by
  have hmem : ∀ r, r ∈ (table t).rows ↔ r ∈ (table s).rows ∨ r = new := by
    intro r
    rw [hrows, List.mem_append, List.mem_singleton]
  have hfree : ∀ d, ∀ x ∈ (t.batches d).rows, x.id ≠ new.id := by
    intro d x hx
    rw [hbatches] at hx
    obtain ⟨r, hr, hsame⟩ := h.copy d x hx
    rw [hsame.id]
    exact hid r hr
  have hunknown : new.dedupeKey ∉ t.rowsSent := fun hk => hkey (h.known _ (hq.sent ▸ hk))
  refine ⟨hq.clock ▸ h.clock, hq.deadline ▸ h.deadline, ?_, fun r hr => ?_, fun r hr hst => ?_, fun d x hx => ?_,
    fun r hr hf => ?_, fun k hk => ?_, hq.sent ▸ h.once⟩
  · rw [hrows]
    exact List.nodup_map_append_singleton h.ids hid
  · rw [hq.clock]
    rcases (hmem r).mp hr with hr | rfl
    · exact h.created r hr
    · rw [hcreated]
      exact ⟨h.clock, le_refl _⟩
  · rcases (hmem r).mp hr with hr | rfl
    · exact h.claimed r hr hst
    · rw [hpend] at hst
      cases hst
  · rw [hbatches] at hx
    obtain ⟨r, hr, hsame⟩ := h.copy d x hx
    exact ⟨r, (hmem r).mpr (Or.inl hr), hsame⟩
  · rcases (hmem r).mp hr with hr | rfl
    · exact (h.settled r hr ((fresh_congr hq rfl).mp hf)).same ⟨rfl, rfl, rfl⟩ hq hbatches id
    · have hzero : copies t r.id = 0 := copies_eq_zero hfree
      exact ⟨hzero ▸ Nat.zero_le 1, fun _ => ⟨hzero, hunknown⟩, fun _ _ _ _ => hunknown⟩
  · rw [hq.sent] at hk
    obtain ⟨r, hr, hk⟩ := h.known k hk
    exact ⟨r, (hmem r).mpr (Or.inl hr), hk⟩

theorem RowInv.advance (h : RowInv s) (ms : Nat) : RowInv { s with clock := s.clock + ms } := by
  have hle : s.clock ≤ s.clock + ms := Int.le_add_of_nonneg_right (Int.natCast_nonneg ms)
  refine ⟨lt_of_lt_of_le h.clock hle, h.deadline, h.ids, fun r hr => ?_, h.claimed, h.copy, fun r hr hf => ?_, h.known,
    h.once⟩
  · exact ⟨(h.created r hr).1, le_trans (h.created r hr).2 hle⟩
  · have hset := h.settled r hr (le_trans (sub_le_sub_right hle _) hf)
    exact ⟨hset.single, hset.pending, hset.unsent⟩

/-! ### The first state -/

/-- The table as any run of these calls leaves it behind: distinct ids, and no time in the future. -/
structure Timely (tables : Tables) (clock : TimestampMs) : Prop where
  positive : 0 < clock
  ids : (tables.notifications.rows.map (·.id)).Nodup
  created : ∀ r ∈ tables.notifications.rows, 0 < r.createdAtMs ∧ r.createdAtMs ≤ clock
  claimed : ∀ r ∈ tables.notifications.rows, r.status = .claimed → ∀ at_ ∈ r.claimedAtMs, r.createdAtMs ≤ at_

theorem rowInv_initial {tables : Tables} {clock : TimestampMs} {deliveryDeadlineMs : Int} (capacity : Nat)
    (h : Timely tables clock) (hdeadline : deliveryDeadlineMs ≤ NotificationWorker.claimStaleMs) :
    RowInv (initial tables clock capacity deliveryDeadlineMs) where
  clock := h.positive
  deadline := hdeadline
  ids := h.ids
  created := h.created
  claimed := h.claimed
  copy := fun _ _ hx => (List.not_mem_nil hx).elim
  settled := fun _ _ _ => ⟨Nat.zero_le 1, fun _ => ⟨rfl, List.not_mem_nil⟩, fun _ _ _ _ => List.not_mem_nil⟩
  known := fun _ hk => (List.not_mem_nil hk).elim
  once := List.nodup_nil

end DeliveryWorkers

/-! ### The steps of the workers -/

namespace DeliveryWorkers
open DurablePredictionTx Connection Transition

variable {s t : State} {pev : PredictionEvent} {f : Faults} {fault : Fault} {d : Drainer} {r row : NotificationRow}
  {rest : List NotificationRow}

/-! ### The steps -/

theorem killStale_rowInv (h : RowInv s) (hc : s.conn.Closed) {roundId : RoundId}
    (hs : step s (.killStale roundId fault) = some t) : RowInv t := by
  simp only [step, Option.some.injEq] at hs
  subst hs
  have hguard := s.guard.killStaleForTarget_deadline s.conn roundId s.clock fault
  by_cases hempty : roundId = ""
  · refine h.same ?_ ⟨rfl, hguard, rfl⟩ rfl
    simp only [table, TemporalGuard.killStaleForTarget, if_pos hempty]
  · have hconn := s.guard.killStaleForTarget_conn s.conn s.clock fault hempty
    refine h.exec hc (fun _ hd => (TemporalGuard.killStale_eq_ok hd).2) hconn ⟨rfl, hguard, rfl⟩ rfl ?_ ?_ ?_
    · exact fun _ => ⟨rfl, rfl, rfl⟩
    · exact fun _ hst => NotificationStatus.noConfusion hst
    · exact fun _ _ _ _ hst => NotificationStatus.noConfusion hst

/-- A stale claim is older than the delivery deadline. -/
theorem recoverStaleClaims_rowInv (h : RowInv s) (hc : s.conn.Closed)
    (hs : step s (.recoverStaleClaims fault) = some t) : RowInv t := by
  simp only [step] at hs
  split at hs
  · cases hs
    have hstmt : ∀ d, OutboxRepository.recoverStaleClaims NotificationWorker.claimStaleMs s.clock s.conn.committed = .ok d →
        d = s.conn.committed.updateNotifications _ _ _ := fun _ hd => (Except.ok.inj hd).symm
    refine h.exec hc hstmt rfl ⟨rfl, rfl, rfl⟩ rfl ?_ ?_ fun r hr hfresh hw _ => ?_
    · exact fun _ => ⟨rfl, rfl, rfl⟩
    · exact fun _ hst => NotificationStatus.noConfusion hst
    obtain ⟨hclaimed, claimedAt, hat, hstale⟩ := hw
    have hcreated := h.claimed r hr hclaimed claimedAt hat
    have hdeadline := h.deadline
    rw [Fresh] at hfresh
    linarith
  · cases hs

/-- What a claim sets. -/
def claimedRow (s : State) (r : NotificationRow) : NotificationRow :=
  { r with
    status := .claimed, attempts := r.attempts + 1, workerId := some NotificationWorker.workerId
    claimedAtMs := some s.clock }

def dueIds (s : State) : List Nat := OutboxRepository.due s.conn.committed NotificationWorker.batchSize s.clock

theorem claimRows_inv (hc : s.conn.Closed) (hs : step s (.claimRows d fault) = some t) :
    (s.batches d).rows = [] ∧ (t = s ∨ ∃ conn rows, t = setBatch { s with conn } d { rows } ∧ conn.Closed ∧
      conn.committed.notifications.rows = (table s).rows.map (fun r => if r.id ∈ dueIds s then claimedRow s r else r) ∧
      rows = conn.committed.notifications.rows.filter (·.id ∈ dueIds s)) := by
  simp only [step] at hs
  split at hs
  · rename_i hempty
    refine ⟨hempty, ?_⟩
    rcases exec_cases (OutboxRepository.claimRows NotificationWorker.batchSize NotificationWorker.workerId s.clock) fault
      hc with ⟨d', -, hd', hexec, -⟩ | ⟨m, hexec⟩
    · simp only [OutboxRepository.claim, hexec, hc.visible_eq, Option.some.injEq] at hs
      cases hd'
      exact Or.inr ⟨_, _, hs.symm, closed_idle, rfl, rfl⟩
    · simp only [OutboxRepository.claim, hexec, Option.some.injEq] at hs
      exact Or.inl hs.symm
  · cases hs

theorem pending_of_due (h : RowInv s) (hr : r ∈ (table s).rows) (hdue : r.id ∈ dueIds s) : r.status = .pending := by
  obtain ⟨r', hr', hid⟩ := List.mem_map.mp hdue
  have hmem := (List.mem_insertionSort _).mp (List.mem_of_mem_take hr')
  rw [List.mem_filter, decide_eq_true_eq] at hmem
  rw [h.eq_of_id hr hmem.1 hid.symm]
  exact hmem.2.1

theorem sameRow_claimed (s : State) (r : NotificationRow) : SameRow (if r.id ∈ dueIds s then claimedRow s r else r) r := by
  split <;> exact ⟨rfl, rfl, rfl⟩

/-- The new batch has one copy of each row that was due. -/
theorem claimed_batch (h : RowInv s) {conn : Connection Tables} {rows : List NotificationRow}
    (hrows : conn.committed.notifications.rows =
      (table s).rows.map fun r => if r.id ∈ dueIds s then claimedRow s r else r)
    (hbatch : rows = conn.committed.notifications.rows.filter (·.id ∈ dueIds s)) :
    (∀ x ∈ rows, x.id ∈ dueIds s) ∧ ∀ id, (rows.map (·.id)).count id ≤ 1 := by
  have hids : (conn.committed.notifications.rows.map (·.id)).Nodup := by
    rw [hrows, List.map_map]
    rw [show _ ∘ (fun r => if r.id ∈ dueIds s then claimedRow s r else r) = (fun r : NotificationRow => r.id)
      from funext fun r => (sameRow_claimed s r).id]
    exact h.ids
  rw [hbatch]
  constructor
  · intro x hx
    simpa using (List.mem_filter.mp hx).2
  · exact List.nodup_iff_count_le_one.mp (hids.sublist (List.filter_sublist.map _))

theorem copies_claimed {conn : Connection Tables} {rows : List NotificationRow} (hempty : (s.batches d).rows = []) (id : Nat) :
    copies (setBatch { s with conn } d { rows }) id = copies s id + (rows.map (·.id)).count id := by
  have hset := copies_setBatch { s with conn } d { rows } id
  have hold : (({ s with conn } : State).batches d).rows = [] := hempty
  rw [hold, List.map_nil, List.count_nil, Nat.add_zero] at hset
  exact hset

theorem claimRows_rowInv (h : RowInv s) (hc : s.conn.Closed) (hs : step s (.claimRows d fault) = some t) : RowInv t := by
  obtain ⟨hempty, rfl | ⟨conn, rows, rfl, -, hrows, hbatch⟩⟩ := claimRows_inv hc hs
  · exact h
  obtain ⟨hdue, hone⟩ := claimed_batch h hrows hbatch
  have hnone : ∀ id, id ∉ dueIds s → (rows.map (·.id)).count id = 0 := by
    intro id hid
    rw [List.count_eq_zero]
    intro hmem
    obtain ⟨x, hx, rfl⟩ := List.mem_map.mp hmem
    exact hid (hdue x hx)
  refine h.update (fun r => if r.id ∈ dueIds s then claimedRow s r else r) (sameRow_claimed s) hrows ⟨rfl, rfl, rfl⟩ ?_ ?_ ?_
  · intro d' x hx
    rcases mem_setBatch Batch.rows hx with hx | ⟨-, hx⟩
    · have hx : x ∈ rows := hx
      rw [hbatch, List.mem_filter, hrows] at hx
      obtain ⟨r, hr, heq⟩ := List.mem_map.mp hx.1
      exact Or.inr ⟨r, hr, heq.symm⟩
    · exact Or.inl ⟨d', hx⟩
  · intro r hr hst claimedAt hat
    split at hat
    · cases hat
      exact (h.created r hr).2
    · rename_i hdue
      rw [if_neg hdue] at hst
      exact h.claimed r hr hst claimedAt hat
  · intro r hr _ hset
    by_cases hd : r.id ∈ dueIds s
    · obtain ⟨hzero, hunsent⟩ := hset.pending (pending_of_due h hr hd)
      rw [if_pos hd]
      refine ⟨?_, nofun, fun _ _ _ _ => hunsent⟩
      show copies _ r.id ≤ 1
      rw [copies_claimed hempty, hzero, Nat.zero_add]
      exact hone r.id
    · rw [if_neg hd]
      refine ⟨?_, fun hp => ?_, fun d' x hx hid => ?_⟩
      · rw [copies_claimed hempty, hnone r.id hd]
        exact hset.single
      · rw [copies_claimed hempty, hnone r.id hd]
        exact hset.pending hp
      · rcases mem_setBatch unsent hx with hx | ⟨-, hx⟩
        · exact absurd (hid ▸ hdue x (mem_of_unsent hx)) hd
        · exact hset.unsent d' x hx hid

theorem deliverRow_rejected (h : RowInv s) {m : String} (hb : s.batches d = ⟨row :: rest, none⟩) :
    RowInv (setBatch s d ⟨row :: rest, some (.error m)⟩) := by
  have hrows : (⟨row :: rest, some (.error m)⟩ : Batch).rows = (s.batches d).rows := by rw [hb]
  refine h.update id (fun _ => ⟨rfl, rfl, rfl⟩) (List.map_id _).symm ⟨rfl, rfl, rfl⟩ (fun d' x hx => Or.inl ?_)
    (fun r hr hst => h.claimed r hr hst) fun r _ _ hset => ⟨?_, fun hp => ?_, fun d' x hx hid => ?_⟩
  · rcases mem_setBatch Batch.rows hx with hx | ⟨-, hx⟩
    · exact ⟨d, hrows ▸ hx⟩
    · exact ⟨d', hx⟩
  · rw [copies_setBatch_of_rows hrows]
    exact hset.single
  · rw [copies_setBatch_of_rows hrows]
    exact hset.pending hp
  · rcases mem_setBatch unsent hx with hx | ⟨-, hx⟩
    · exact hset.unsent d x (by rw [hb]; exact hx) hid
    · exact hset.unsent d' x hx hid

theorem deliverRow_sent (h : RowInv s) (hb : s.batches d = ⟨row :: rest, none⟩)
    (ha : (authorizeRow s row).allowed = true) :
    RowInv (setBatch { s with rowsSent := s.rowsSent ++ [row.dedupeKey] } d ⟨row :: rest, some (.ok ())⟩) := by
  have hhead : row ∈ (s.batches d).rows := by
    rw [hb]
    exact List.mem_cons_self
  obtain ⟨r₀, hr₀, hsame⟩ := h.copy d row hhead
  -- The guard allows no send after the deadline, so the row is fresh and its only copy is the head.
  have hfresh : Fresh s r₀ := by
    have hpos : 0 < row.createdAtMs := by
      rw [hsame.created]
      exact (h.created r₀ hr₀).1
    have hdl := TemporalGuard.fresh_of_allowed hpos ha
    rw [hsame.created] at hdl
    exact hdl
  have hset₀ := h.settled r₀ hr₀ hfresh
  have hnew : row.dedupeKey ∉ s.rowsSent := by
    rw [hsame.key]
    exact hset₀.unsent d row (by rw [hb]; exact List.mem_cons_self) hsame.id
  have hrows : (⟨row :: rest, some (.ok ())⟩ : Batch).rows = (s.batches d).rows := by rw [hb]
  have hcopies : ∀ id, copies (setBatch { s with rowsSent := s.rowsSent ++ [row.dedupeKey] } d
      ⟨row :: rest, some (.ok ())⟩) id = copies s id := fun id =>
    copies_setBatch_of_rows (s := { s with rowsSent := s.rowsSent ++ [row.dedupeKey] }) hrows id
  obtain ⟨htail, hother⟩ := head_only (hrows.symm.trans rfl) (hsame.id ▸ hset₀.single)
  refine ⟨h.clock, h.deadline, h.ids, h.created, h.claimed, fun d' x hx => ?_, fun r hr hf => ?_, fun k hk => ?_, ?_⟩
  · rcases mem_setBatch Batch.rows hx with hx | ⟨-, hx⟩
    · exact h.copy d x (hrows ▸ hx)
    · exact h.copy d' x hx
  · have hset := h.settled r hr hf
    by_cases heq : r = r₀
    · subst heq
      refine ⟨?_, fun hp => ?_, fun d' x hx hid => ?_⟩
      · rw [hcopies]
        exact hset.single
      · have hpos := copies_pos hhead
        rw [hsame.id, (hset.pending hp).1] at hpos
        exact absurd hpos (Nat.lt_irrefl 0)
      · rcases mem_setBatch unsent hx with hx | ⟨hd, hx⟩
        · exact absurd (hid.trans hsame.id.symm) (htail x hx)
        · exact absurd (hid.trans hsame.id.symm) (hother d' hd x (mem_of_unsent hx))
    · have hkey : r.dedupeKey ≠ row.dedupeKey := fun hk => heq (RowInv.eq_of_key hr hr₀ (hk.trans hsame.key))
      have hsent : r.dedupeKey ∉ s.rowsSent → r.dedupeKey ∉ s.rowsSent ++ [row.dedupeKey] := by
        rw [List.mem_append, List.mem_singleton, not_or]
        exact fun hn => ⟨hn, hkey⟩
      refine ⟨?_, fun hp => ?_, fun d' x hx hid => hsent ?_⟩
      · rw [hcopies]
        exact hset.single
      · rw [hcopies]
        exact ⟨(hset.pending hp).1, hsent (hset.pending hp).2⟩
      · rcases mem_setBatch unsent hx with hx | ⟨-, hx⟩
        · exact hset.unsent d x (by rw [hb]; exact List.mem_cons_of_mem _ hx) hid
        · exact hset.unsent d' x hx hid
  · rcases List.mem_append.mp hk with hk | hk
    · exact h.known k hk
    · rw [List.mem_singleton.mp hk]
      exact ⟨r₀, hr₀, hsame.key.symm⟩
  · rw [← List.concat_eq_append]
    exact List.Nodup.concat hnew h.once

/-- The statement that completes the head of a batch. -/
def completion (s : State) (row : NotificationRow) : Except String Unit → Statement Tables
  | .ok _ => OutboxRepository.markDelivered row.id s.clock
  | .error m => OutboxRepository.markFailed row.id m (NotificationWorker.retryMs row)
      (decide (row.attempts ≥ NotificationWorker.maxAttempts)) s.clock

theorem completeRow_inv (hs : step s (.completeRow d fault) = some t) :
    ∃ row rest result, s.batches d = ⟨row :: rest, some result⟩ ∧
      t = setBatch { s with conn := (s.conn.exec (completion s row result) fault).1 } d ⟨rest, none⟩ := by
  simp only [step] at hs
  split at hs
  · rename_i row rest u hb
    exact ⟨row, rest, .ok u, hb, (Option.some.inj hs).symm⟩
  · rename_i row rest m hb
    exact ⟨row, rest, .error m, hb, (Option.some.inj hs).symm⟩
  · cases hs

/-- A completion changes its own row only, which it makes pending only if it was rejected. -/
theorem completion_cases (hc : s.conn.Closed) (row : NotificationRow) (result : Except String Unit) (fault : Fault) :
    ∃ F : NotificationRow → NotificationRow,
      (s.conn.exec (completion s row result) fault).1.committed.notifications.rows = (table s).rows.map F ∧
      ∀ r, SameRow (F r) r ∧ (F r = r ∨ (r.id = row.id ∧ (F r).status ≠ .claimed ∧
        ((F r).status = .pending → ∃ m, result = .error m))) := by
  cases result with
  | ok u =>
    have hstmt : ∀ d, completion s row (.ok u) s.conn.committed = .ok d → d = s.conn.committed.updateNotifications _ _ _ :=
      fun _ hd => (Except.ok.inj hd).symm
    obtain ⟨F, hrows, hcase⟩ := exec_update hc hstmt fault
    refine ⟨F, hrows, fun r => ?_⟩
    rcases hcase r with heq | ⟨hid, heq⟩ <;> rw [heq]
    · exact ⟨⟨rfl, rfl, rfl⟩, Or.inl rfl⟩
    · exact ⟨⟨rfl, rfl, rfl⟩, Or.inr ⟨hid, nofun, nofun⟩⟩
  | error m =>
    have hstmt : ∀ d, completion s row (.error m) s.conn.committed = .ok d → d = s.conn.committed.updateNotifications _ _ _ :=
      fun _ hd => (Except.ok.inj hd).symm
    obtain ⟨F, hrows, hcase⟩ := exec_update hc hstmt fault
    refine ⟨F, hrows, fun r => ?_⟩
    rcases hcase r with heq | ⟨hid, heq⟩ <;> rw [heq]
    · exact ⟨⟨rfl, rfl, rfl⟩, Or.inl rfl⟩
    · refine ⟨⟨rfl, rfl, rfl⟩, Or.inr ⟨hid, ?_, fun _ => ⟨m, rfl⟩⟩⟩
      dsimp only
      split <;> nofun

/-- The row at the head is no copy any more. -/
theorem copies_completed (conn : Connection Tables) {result : Option (Except String Unit)}
    (hb : s.batches d = ⟨row :: rest, result⟩) (id : Nat) :
    copies (setBatch { s with conn } d ⟨rest, none⟩) id + (if id = row.id then 1 else 0) = copies s id := by
  have hset := copies_setBatch { s with conn } d ⟨rest, none⟩ id
  have hold : (({ s with conn } : State).batches d).rows = row :: rest := by
    show (s.batches d).rows = _
    rw [hb]
  have hsame : copies { s with conn } id = copies s id := rfl
  rw [hold, List.map_cons, List.count_cons, hsame] at hset
  split <;> rename_i hid
  · rw [if_pos (beq_iff_eq.mpr hid.symm)] at hset
    dsimp only at hset
    omega
  · rw [if_neg (fun hb => hid (beq_iff_eq.mp hb).symm)] at hset
    dsimp only at hset
    omega

theorem completeRow_rowInv (h : RowInv s) (hc : s.conn.Closed) (hs : step s (.completeRow d fault) = some t) :
    RowInv t := by
  obtain ⟨row, rest, result, hb, rfl⟩ := completeRow_inv hs
  obtain ⟨F, hrows, hF⟩ := completion_cases hc row result fault
  refine h.update F (fun r => (hF r).1) hrows ⟨rfl, rfl, rfl⟩ (fun d' x hx => Or.inl ?_) (fun r hr hst => ?_)
    fun r hr _ hset => ?_
  · rcases mem_setBatch Batch.rows hx with hx | ⟨-, hx⟩
    · exact ⟨d, by rw [hb]; exact List.mem_cons_of_mem _ hx⟩
    · exact ⟨d', hx⟩
  · obtain ⟨-, heq | ⟨-, hn, -⟩⟩ := hF r
    · rw [heq] at hst ⊢
      exact h.claimed r hr hst
    · exact absurd hst hn
  · have hle := copies_completed (s.conn.exec (completion s row result) fault).1 hb r.id
    have hunsent : ∀ d', ∀ x ∈ unsent ((setBatch { s with
        conn := (s.conn.exec (completion s row result) fault).1 } d ⟨rest, none⟩).batches d'), x.id = r.id →
        r.dedupeKey ∉ s.rowsSent := by
      intro d' x hx hid
      rcases mem_setBatch unsent hx with hrest | ⟨-, hx⟩
      · refine hset.unsent d x ?_ hid
        rw [hb]
        cases result with
        | ok u => exact hrest
        | error m => exact List.mem_cons_of_mem _ hrest
      · exact hset.unsent d' x hx hid
    refine ⟨?_, fun hp => ?_, fun d' x hx hid => ?_⟩
    · rw [(hF r).1.id]
      have hsingle := hset.single
      omega
    · rw [(hF r).1.id, (hF r).1.key]
      obtain ⟨-, heq | ⟨hid, -, hpend⟩⟩ := hF r
      · rw [heq] at hp
        obtain ⟨hzero, hnot⟩ := hset.pending hp
        exact ⟨by omega, hnot⟩
      · -- The head was rejected, so it was the one copy of the row and it was not sent.
        obtain ⟨m, rfl⟩ := hpend hp
        rw [if_pos hid] at hle
        have hsingle := hset.single
        refine ⟨by omega, hset.unsent d row ?_ hid.symm⟩
        rw [hb]
        exact List.mem_cons_self
    · rw [(hF r).1.id] at hid
      rw [(hF r).1.key]
      exact hunsent d' x hx hid

/-- A call commits its rows and offers the signal to the outbox, or it fails and leaves the outbox alone. -/
theorem persist_inv (hc : s.conn.Closed) (hs : step s (.persist pev f) = some t) :
    ∃ conn repo, (persistRows s.repo s.conn pev (signalFromPrediction pev s.clock) s.clock f).2.1 = conn ∧
      ((Commits pev s.clock s.conn f ∧ t = { s with
          conn, repo
          handoff := (s.handoff.publishPrediction (signalFromPrediction pev s.clock) s.clock).1
          durableOk := s.durableOk + 1
          persisted := s.persisted ++ [pev.predictionId] }) ∨
        (¬Commits pev s.clock s.conn f ∧ t = { s with conn, repo })) := by
  rcases persistRows_commits s.repo pev (signalFromPrediction pev s.clock) s.clock f hc with
    ⟨hcommits, hok, -⟩ | ⟨hfail, m, herr⟩ <;>
    rcases hrows : persistRows s.repo s.conn pev (signalFromPrediction pev s.clock) s.clock f with ⟨repo, conn, r⟩
  · rw [hrows] at hok
    obtain rfl : r = .ok () := hok
    refine ⟨conn, repo, rfl, Or.inl ⟨hcommits, ?_⟩⟩
    simp only [step, durableTx, persistPrediction, hrows, publishMemory, withTx] at hs
    exact (Option.some.inj hs).symm
  · rw [hrows] at herr
    obtain rfl : r = .error m := herr
    refine ⟨conn, repo, rfl, Or.inr ⟨hfail, ?_⟩⟩
    simp only [step, durableTx, persistPrediction, hrows, withTx] at hs
    exact (Option.some.inj hs).symm

theorem persist_rowInv (h : RowInv s) (hc : s.conn.Closed) (hs : step s (.persist pev f) = some t) : RowInv t := by
  obtain ⟨conn, repo, hconn, hcase⟩ := persist_inv hc hs
  have hparts : t.conn = conn ∧ t.clock = s.clock ∧ t.guard = s.guard ∧ t.batches = s.batches ∧
      t.rowsSent = s.rowsSent := by
    rcases hcase with ⟨-, rfl⟩ | ⟨-, rfl⟩ <;> exact ⟨rfl, rfl, rfl, rfl, rfl⟩
  obtain ⟨htable, hclock, hguard, hbatches, hsent⟩ := hparts
  have hq : Quiet s t := ⟨hclock, by rw [hguard], hsent⟩
  rcases persistRows_notifications s.repo pev (signalFromPrediction pev s.clock) s.clock f hc with
    hsame | ⟨roundId, hsame⟩
  · rw [hconn, ← htable] at hsame
    exact h.same hsame hq hbatches
  · rw [hconn, ← htable] at hsame
    by_cases hhas : (table s).Has (notificationKey pev.predictionId)
    · exact h.same (hsame.trans (Table.insertIfAbsent_of_has hhas)) hq hbatches
    · refine h.insert ((congrArg Table.rows hsame).trans (Table.insertIfAbsent_rows hhas)) (fun r hr => ?_) hhas rfl ?_
        hq hbatches
      · exact Nat.ne_of_lt (Tables.id_lt_next _ r hr)
      · show (if s.clock ≠ 0 then s.clock else s.clock) = s.clock
        exact ite_self _

/-! ### Runs -/

theorem step_rowInv {a : Action} (h : RowInv s) (hc : s.conn.Closed) (hs : step s a = some t) :
    RowInv t ∧ t.conn.Closed := by
  cases a with
  | advance ms =>
    cases hs
    exact ⟨h.advance ms, hc⟩
  | persist pev f =>
    refine ⟨persist_rowInv h hc hs, ?_⟩
    obtain ⟨conn, repo, hconn, ⟨-, rfl⟩ | ⟨-, rfl⟩⟩ := persist_inv hc hs <;> exact hconn ▸ persistRows_closed
  | publish signal =>
    cases hs
    exact ⟨h.same rfl ⟨rfl, rfl, rfl⟩ rfl, hc⟩
  | noteTargetStarted roundId startedAtMs =>
    cases hs
    refine ⟨h.same rfl ⟨rfl, ?_, rfl⟩ rfl, hc⟩
    exact s.guard.noteTargetStarted_deadline roundId startedAtMs s.clock
  | killStale roundId fault =>
    refine ⟨killStale_rowInv h hc hs, ?_⟩
    simp only [step, Option.some.injEq] at hs
    subst hs
    by_cases hempty : roundId = ""
    · simp only [TemporalGuard.killStaleForTarget, if_pos hempty]
      exact hc
    · rw [s.guard.killStaleForTarget_conn s.conn s.clock fault hempty]
      exact exec_closed hc
  | claim =>
    simp only [step] at hs
    split at hs <;> cases hs
    · exact ⟨h.same rfl ⟨rfl, rfl, rfl⟩ rfl, hc⟩
    · exact ⟨h, hc⟩
  | deliver =>
    simp only [step] at hs
    split at hs
    · split at hs <;> cases hs <;> exact ⟨h.same rfl ⟨rfl, rfl, rfl⟩ rfl, hc⟩
    · cases hs
  | complete =>
    simp only [step] at hs
    split at hs <;> cases hs <;> exact ⟨h.same rfl ⟨rfl, rfl, rfl⟩ rfl, hc⟩
  | recoverStaleClaims fault =>
    refine ⟨recoverStaleClaims_rowInv h hc hs, ?_⟩
    simp only [step] at hs
    split at hs <;> cases hs
    exact exec_closed hc
  | claimRows d fault =>
    refine ⟨claimRows_rowInv h hc hs, ?_⟩
    obtain ⟨-, rfl | ⟨conn, rows, rfl, hconn, -⟩⟩ := claimRows_inv hc hs
    · exact hc
    · exact hconn
  | deliverRow d =>
    obtain ⟨row, rest, hb, ⟨ha, rfl⟩ | ⟨-, rfl⟩⟩ := deliverRow_inv hs
    · exact ⟨deliverRow_sent h hb ha, hc⟩
    · exact ⟨deliverRow_rejected h hb, hc⟩
  | completeRow d fault =>
    refine ⟨completeRow_rowInv h hc hs, ?_⟩
    obtain ⟨row, rest, result, -, rfl⟩ := completeRow_inv hs
    exact exec_closed hc

/-- In every run each row is handed to the client at most once. -/
theorem rowsSent_nodup_of_reaches {tables : Tables} {clock : TimestampMs} {capacity : Nat} {deliveryDeadlineMs : Int}
    (ht : Timely tables clock) (hdeadline : deliveryDeadlineMs ≤ NotificationWorker.claimStaleMs)
    (hr : Reaches step anyStep (initial tables clock capacity deliveryDeadlineMs) s) : s.rowsSent.Nodup :=
  (hr.invariant (P := fun s => RowInv s ∧ s.conn.Closed) ⟨rowInv_initial capacity ht hdeadline, closed_idle⟩
    fun _ _ _ h _ hs => step_rowInv h.1 h.2 hs).1.once

end DeliveryWorkers
end CrashCore
