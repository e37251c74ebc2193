import CrashCore.Persistence.NotificationOutbox

/-! The two encodings of the lifecycle of an outbox row. The repository and the stale kill write `status` and leave
`state`; the statements of `SqlBuilder` write `state` and leave `status`. So the columns agree as long as no
statement changes either. -/

namespace CrashCore
namespace NotificationOutbox
open Transition

variable {t t' : NotificationOutbox} {d : Tables} {stmt : Statement Tables}

/-- The two columns mean the same state. -/
def Agrees (r : OutboxRecord) : Prop := r.state = r.status.outboxState.toNat

instance : DecidablePred Agrees := fun _ => inferInstanceAs (Decidable (_ = _))

def AllAgree (t : NotificationOutbox) : Prop := ∀ r ∈ t.rows, Agrees r

instance : DecidablePred AllAgree := fun t => inferInstanceAs (Decidable (∀ r ∈ t.rows, Agrees r))

/-- The columns agree; what was delivered before the age limit is pruned; and a row that is delivered by one column
    is not pending by the other. -/
structure Coherent (t : NotificationOutbox) : Prop where
  agree : AllAgree t
  pruned : ∀ maxAgeMs now t', pruneDatabase maxAgeMs now t = .ok t' → ∀ r ∈ t'.rows, r.status = .delivered →
    ∀ delivered ∈ r.deliveredAtMs, 0 < delivered → now - maxAgeMs ≤ delivered
  exclusive : ∀ r ∈ t.rows, (r.status = .delivered → r.state ≠ 0) ∧ (r.state = 3 → r.status ≠ .pending)

/-- The statement changes no status and no state, and a row it inserts is pending in both columns. A kill that cannot be
    evaluated changes nothing. -/
def KeepsColumns (t : NotificationOutbox) : Operation → Prop
  | .enqueue .. | .prune .. => True
  | .claim limit _ now => OutboxRepository.due t.view limit now = []
  | .markDelivered id _ => ∀ r ∈ t.rows, r.id = id → r.status = .delivered
  | .markFailed id _ _ deadLetter _ =>
    ∀ r ∈ t.rows, r.id = id → r.status = if deadLetter then .dead else .pending
  | .recoverStaleClaims olderThanMs now =>
    ∀ r ∈ t.rows, ¬(r.status = .claimed ∧ ∃ claimed ∈ r.claimedAtMs, claimed < now - olderThanMs)
  | .killStale roundId => (∀ r ∈ t.rows, ¬TemporalGuard.Unmatchable roundId r.toNotificationRow) →
    ∀ r ∈ t.rows, ¬TemporalGuard.Selected roundId r.toNotificationRow
  | .insertOutbox item => t.Has item.dedupeKey ∨ item.state = .pending
  | .claimOutboxBatch limit _ => t.oldestPending limit = []
  | .markOutboxDelivered id _ => ∀ r ∈ t.rows, r.id = id → r.state = 3

instance (t : NotificationOutbox) : DecidablePred (KeepsColumns t)
  | .enqueue .. | .prune .. => .isTrue trivial
  | .claim limit _ now => decidable_of_iff (OutboxRepository.due t.view limit now = []) Iff.rfl
  | .markDelivered id _ => decidable_of_iff (∀ r ∈ t.rows, r.id = id → r.status = .delivered) Iff.rfl
  | .markFailed id _ _ deadLetter _ =>
    decidable_of_iff (∀ r ∈ t.rows, r.id = id → r.status = if deadLetter then .dead else .pending) Iff.rfl
  | .recoverStaleClaims olderThanMs now => decidable_of_iff
      (∀ r ∈ t.rows, ¬(r.status = .claimed ∧ ∃ claimed ∈ r.claimedAtMs, claimed < now - olderThanMs)) Iff.rfl
  | .killStale roundId => decidable_of_iff ((∀ r ∈ t.rows, ¬TemporalGuard.Unmatchable roundId r.toNotificationRow) →
      ∀ r ∈ t.rows, ¬TemporalGuard.Selected roundId r.toNotificationRow) Iff.rfl
  | .insertOutbox item => decidable_of_iff (t.Has item.dedupeKey ∨ item.state = .pending) Iff.rfl
  | .claimOutboxBatch limit _ => decidable_of_iff (t.oldestPending limit = []) Iff.rfl
  | .markOutboxDelivered id _ => decidable_of_iff (∀ r ∈ t.rows, r.id = id → r.state = 3) Iff.rfl

theorem toNat_outboxState_injective {a b : NotificationStatus} (h : a.outboxState.toNat = b.outboxState.toNat) :
    a = b := by
  cases a <;> cases b <;> first | rfl | cases h

theorem AllAgree.coherent (h : AllAgree t) : Coherent t where
  agree := h
  pruned := by
    intro maxAgeMs now t' ht r hr hstatus delivered hdelivered hpos
    cases ht
    obtain ⟨hmem, hkeep⟩ := List.mem_filter.mp hr
    have hstate : r.state = 3 := (h r hmem).trans (by rw [hstatus]; rfl)
    by_contra hlate
    refine absurd ?_ (of_decide_eq_true hkeep)
    exact ⟨hstate, delivered, hdelivered, hpos, Int.not_le.mp hlate⟩
  exclusive := by
    intro r hr
    have hr := h r hr
    constructor
    · intro hstatus
      rw [hr, hstatus]
      decide
    · rintro hstate hstatus
      rw [Agrees, hstatus, hstate] at hr
      cases hr

/-! ### Through the repository -/

theorem withRow_of_mem {r : OutboxRecord} {row : NotificationRow} (hr : r ∈ t.rows) (hkey : row.dedupeKey = r.key) :
    t.withRow row = { r with toNotificationRow := row } := by
  have hfind : t.find? row.dedupeKey = some r := Table.find?_eq_some.mpr ⟨hr, hkey.symm⟩
  simp only [withRow, hfind]

/-- The repository changes a row's status exactly if the columns of that row agree no longer. -/
theorem agrees_withRow {r : OutboxRecord} {row : NotificationRow} (h : AllAgree t) (hr : r ∈ t.rows)
    (hkey : row.dedupeKey = r.key) : Agrees (t.withRow row) ↔ row.status = r.status := by
  rw [withRow_of_mem hr hkey]
  show r.state = row.status.outboxState.toNat ↔ _
  rw [h r hr]
  exact ⟨fun heq => (toNat_outboxState_injective heq).symm, fun heq => by rw [heq]⟩

theorem allAgree_update (h : AllAgree t) {where_ : Tables → NotificationRow → Prop} [∀ d, DecidablePred (where_ d)]
    {set : NotificationRow → NotificationRow} {hset : ∀ r, (set r).dedupeKey = r.dedupeKey}
    (ht : throughRepository (fun d => .ok (d.updateNotifications (where_ d) set hset)) t = .ok t') :
    AllAgree t' ↔ ∀ r ∈ t.rows, where_ t.view r.toNotificationRow → (set r.toNotificationRow).status = r.status := by
  cases ht
  let f : NotificationRow → NotificationRow := fun r => if where_ t.view r then set r else r
  have hkey : ∀ r, (f r).dedupeKey = r.dedupeKey := by
    intro r
    unfold f
    split
    · exact hset r
    · rfl
  have hrow : ∀ r ∈ t.rows, Agrees (t.withRow (f r.toNotificationRow)) ↔
      (where_ t.view r.toNotificationRow → (set r.toNotificationRow).status = r.status) := by
    intro r hr
    rw [agrees_withRow h hr (hkey _)]
    unfold f
    split
    · rename_i hw
      exact ⟨fun heq _ => heq, fun heq => heq hw⟩
    · rename_i hw
      exact ⟨fun _ hw' => absurd hw' hw, fun _ => rfl⟩
  have hrows : ∀ r', r' ∈ (t.view.notifications.rows.map f).map t.withRow ↔
      ∃ r ∈ t.rows, t.withRow (f r.toNotificationRow) = r' := by
    intro r'
    simp [view]
  constructor
  · intro hall r hr
    exact (hrow r hr).mp (hall _ ((hrows _).mpr ⟨r, hr, rfl⟩))
  · intro hall r' hr'
    obtain ⟨r, hr, rfl⟩ := (hrows r').mp hr'
    exact (hrow r hr).mpr (hall r hr)

theorem withRow_of_absent {row : NotificationRow} (hnew : ¬t.Has row.dedupeKey) :
    t.withRow row = { toNotificationRow := row } := by
  have hfind : t.find? row.dedupeKey = none := Table.find?_eq_none.mpr hnew
  simp only [withRow, hfind]

theorem view_has {k : String} : t.view.notifications.Has k ↔ t.Has k := by
  constructor
  · rintro ⟨row, hrow, hk⟩
    obtain ⟨r, hr, rfl⟩ := List.mem_map.mp hrow
    exact ⟨r, hr, hk⟩
  · rintro ⟨r, hr, hk⟩
    exact ⟨r.toNotificationRow, List.mem_map.mpr ⟨r, hr, rfl⟩, hk⟩

theorem allAgree_enqueue (h : AllAgree t) (row : NotificationRow) (hpending : row.status = .pending)
    (ht : throughRepository (Tables.insertNotification row) t = .ok t') : AllAgree t' := by
  cases ht
  let new : NotificationRow := { row with id := t.view.nextNotificationId }
  intro r' hr'
  obtain ⟨row', hrow', rfl⟩ := List.mem_map.mp hr'
  have hrow' : row' ∈ (t.view.notifications.insertIfAbsent new).rows := hrow'
  have hold : row' ∈ t.view.notifications.rows → Agrees (t.withRow row') := by
    intro hmem
    obtain ⟨r, hr, rfl⟩ := List.mem_map.mp hmem
    exact (agrees_withRow h hr rfl).mpr rfl
  by_cases hk : t.view.notifications.Has new.dedupeKey
  · rw [Table.insertIfAbsent_of_has hk] at hrow'
    exact hold hrow'
  · rw [Table.insertIfAbsent_rows hk] at hrow'
    rcases List.mem_append.mp hrow' with hmem | hnew
    · exact hold hmem
    · obtain rfl := List.mem_singleton.mp hnew
      rw [withRow_of_absent fun hh => hk (view_has.mpr hh)]
      show 0 = row.status.outboxState.toNat
      rw [hpending]
      rfl

/-- A claim changes the status of every row it selects. -/
theorem allAgree_claim (h : AllAgree t) {limit : Nat} {workerId : String} {now : TimestampMs}
    (ht : throughRepository (OutboxRepository.claimRows limit workerId now) t = .ok t') :
    AllAgree t' ↔ OutboxRepository.due t.view limit now = [] := by
  refine (allAgree_update h ht).trans ?_
  constructor
  · intro hsame
    refine List.eq_nil_iff_forall_not_mem.mpr fun id hid => ?_
    have hdue := hid
    simp only [OutboxRepository.due, List.mem_map] at hid
    obtain ⟨row, hrow, rfl⟩ := hid
    have hpending := (List.mem_insertionSort _).mp (List.mem_of_mem_take hrow)
    rw [List.mem_filter, decide_eq_true_eq] at hpending
    obtain ⟨r, hr, rfl⟩ := List.mem_map.mp hpending.1
    have hclaimed : NotificationStatus.claimed = r.status := hsame r hr hdue
    rw [hpending.2.1] at hclaimed
    cases hclaimed
  · intro hnone r _ hid
    rw [hnone] at hid
    exact absurd hid List.not_mem_nil

theorem allAgree_markDelivered (h : AllAgree t) {id : Nat} {now : TimestampMs}
    (ht : throughRepository (OutboxRepository.markDelivered id now) t = .ok t') :
    AllAgree t' ↔ ∀ r ∈ t.rows, r.id = id → r.status = .delivered :=
  (allAgree_update h ht).trans (forall₂_congr fun _ _ => imp_congr_right fun _ => eq_comm)

theorem allAgree_markFailed (h : AllAgree t) {id : Nat} {err : String} {retryAfterMs : Int} {deadLetter : Bool}
    {now : TimestampMs}
    (ht : throughRepository (OutboxRepository.markFailed id err retryAfterMs deadLetter now) t = .ok t') :
    AllAgree t' ↔ ∀ r ∈ t.rows, r.id = id → r.status = if deadLetter then .dead else .pending :=
  (allAgree_update h ht).trans (forall₂_congr fun _ _ => imp_congr_right fun _ => eq_comm)

/-- A recovery and a stale kill change the status of every row they select. -/
theorem allAgree_recoverStaleClaims (h : AllAgree t) {olderThanMs : Int} {now : TimestampMs}
    (ht : throughRepository (OutboxRepository.recoverStaleClaims olderThanMs now) t = .ok t') :
    AllAgree t' ↔
      ∀ r ∈ t.rows, ¬(r.status = .claimed ∧ ∃ claimed ∈ r.claimedAtMs, claimed < now - olderThanMs) := by
  refine (allAgree_update h ht).trans (forall₂_congr fun r _ => ?_)
  refine ⟨fun hsame hw => ?_, fun hno hw => absurd hw hno⟩
  have hpending : NotificationStatus.pending = r.status := hsame hw
  rw [hw.1] at hpending
  cases hpending

theorem allAgree_killStale (h : AllAgree t) {roundId : RoundId}
    (ht : throughRepository (TemporalGuard.killStale roundId) t = .ok t') :
    AllAgree t' ↔ KeepsColumns t (.killStale roundId) := by
  have hkill : ∀ d, TemporalGuard.killStale roundId t.view = .ok d →
      throughRepository (fun d => .ok (d.updateNotifications (TemporalGuard.Selected roundId) TemporalGuard.killed fun _ => rfl))
        t = .ok t' ∧ ∀ r ∈ t.rows, ¬TemporalGuard.Unmatchable roundId r.toNotificationRow := by
    intro d hd
    obtain ⟨hall, rfl⟩ := TemporalGuard.killStale_eq_ok hd
    refine ⟨?_, fun r hr => hall _ (List.mem_map_of_mem hr)⟩
    rw [← ht, throughRepository, throughRepository, hd]
  rcases hd : TemporalGuard.killStale roundId t.view with m | d
  · rw [throughRepository, hd] at ht
    cases ht
  obtain ⟨hupdate, hall⟩ := hkill d hd
  refine (allAgree_update h hupdate).trans ⟨fun hsame _ r hr hw => ?_, fun hno r hr hw => absurd hw (hno hall r hr)⟩
  have hdead : NotificationStatus.dead = r.status := hsame r hr hw
  rcases hw.1 with hlive | hlive <;> rw [hlive] at hdead <;> cases hdead

/-! ### Through `SqlBuilder` -/

theorem allAgree_updateState (where_ : OutboxRecord → Prop) [DecidablePred where_]
    (set : OutboxRecord → OutboxRecord) (hset : ∀ r, (set r).key = r.key) (h : AllAgree t) :
    AllAgree (t.updateState where_ set hset) ↔ ∀ r ∈ t.rows, where_ r → Agrees (set r) := by
  constructor
  · intro hall r hr hw
    have hmem := hall (if where_ r then set r else r) (List.mem_map.mpr ⟨r, hr, rfl⟩)
    rwa [if_pos hw] at hmem
  · intro hall r' hr'
    obtain ⟨r, hr, rfl⟩ := List.mem_map.mp hr'
    split
    · rename_i hw
      exact hall r hr hw
    · exact h r hr

theorem allAgree_insertOutbox (h : AllAgree t) {item : OutboxItem} (ht : insertOutbox item t = .ok t') :
    AllAgree t' ↔ t.Has item.dedupeKey ∨ item.state = .pending := by
  cases ht
  by_cases hk : t.Has item.dedupeKey
  · rw [Table.insertIfAbsent_of_has hk]
    exact ⟨fun _ => Or.inl hk, fun _ => h⟩
  · have hnew : item.state.toNat = 0 ↔ item.state = .pending := by cases item.state <;> decide
    constructor
    · intro hall
      have hrow := hall _ (by
        rw [Table.insertIfAbsent_rows hk]
        exact List.mem_append_right _ List.mem_cons_self)
      exact Or.inr (hnew.mp hrow)
    · intro hpending r hr
      rw [Table.insertIfAbsent_rows hk] at hr
      rcases List.mem_append.mp hr with hr | hr
      · exact h r hr
      · obtain rfl := List.mem_singleton.mp hr
        exact hnew.mpr (hpending.resolve_left hk)

/-- A claim changes the state of every row it selects. -/
theorem allAgree_claimOutboxBatch (h : AllAgree t) {limit : Nat} {now : TimestampMs}
    (ht : claimOutboxBatch limit now t = .ok t') : AllAgree t' ↔ t.oldestPending limit = [] := by
  cases ht
  refine (allAgree_updateState _ _ _ h).trans ?_
  constructor
  · intro hsame
    refine List.eq_nil_iff_forall_not_mem.mpr fun id hid => ?_
    have hselected := hid
    simp only [oldestPending, List.mem_map] at hid
    obtain ⟨r, hr, rfl⟩ := hid
    have hpending := (List.mem_insertionSort _).mp (List.mem_of_mem_take hr)
    rw [List.mem_filter, decide_eq_true_eq] at hpending
    have hold : r.state = r.status.outboxState.toNat := h r hpending.1
    have hclaimed : 1 = r.status.outboxState.toNat := hsame r hpending.1 hselected
    rw [← hold, hpending.2] at hclaimed
    cases hclaimed
  · intro hnone r _ hid
    rw [hnone] at hid
    exact absurd hid List.not_mem_nil

theorem allAgree_markOutboxDelivered (h : AllAgree t) {id : Nat} {now : TimestampMs}
    (ht : markOutboxDelivered id now t = .ok t') : AllAgree t' ↔ ∀ r ∈ t.rows, r.id = id → r.state = 3 := by
  cases ht
  refine (allAgree_updateState _ _ _ h).trans (forall₂_congr fun r hr => imp_congr_right fun _ => ?_)
  show 3 = r.status.outboxState.toNat ↔ r.state = 3
  rw [h r hr]
  exact eq_comm

theorem allAgree_prune (h : AllAgree t) {maxAgeMs : Int} {now : TimestampMs}
    (ht : pruneDatabase maxAgeMs now t = .ok t') : AllAgree t' := by
  cases ht
  exact fun r hr => h r (List.mem_filter.mp hr).1

/-! ### Sequences of statements -/

/-- An executed statement keeps the columns in agreement exactly if it changes neither. -/
theorem allAgree_statement (h : AllAgree t) {op : Operation} (ht : statement op t = .ok t') :
    AllAgree t' ↔ KeepsColumns t op := by
  cases op with
  | enqueue row roundId now => exact ⟨fun _ => trivial, fun _ => allAgree_enqueue h _ rfl ht⟩
  | claim limit workerId now => exact allAgree_claim h ht
  | markDelivered id now => exact allAgree_markDelivered h ht
  | markFailed id err retryAfterMs deadLetter now => exact allAgree_markFailed h ht
  | recoverStaleClaims olderThanMs now => exact allAgree_recoverStaleClaims h ht
  | killStale roundId => exact allAgree_killStale h ht
  | insertOutbox item => exact allAgree_insertOutbox h ht
  | claimOutboxBatch limit now => exact allAgree_claimOutboxBatch h ht
  | markOutboxDelivered id now => exact allAgree_markOutboxDelivered h ht
  | prune maxAgeMs now => exact ⟨fun _ => trivial, fun _ => allAgree_prune h ht⟩

/-- No executed statement of the sequence changes a column. -/
def Unchanging (t : NotificationOutbox) (a : Operation × Fault) : Prop := a.2 = none → KeepsColumns t a.1

instance (t : NotificationOutbox) : DecidablePred (Unchanging t) := fun _ => inferInstanceAs (Decidable (_ → _))

/-- Only a kill can fail by itself, on a row that its WHERE clause cannot be evaluated for. -/
theorem keepsColumns_of_error {op : Operation} {m : String} (ht : statement op t = .error m) : KeepsColumns t op := by
  cases op with
  | killStale roundId =>
    intro hall
    have hmatchable : ∀ r ∈ t.view.notifications.rows, ¬TemporalGuard.Unmatchable roundId r := by
      intro row hrow
      obtain ⟨r, hr, rfl⟩ := List.mem_map.mp hrow
      exact hall r hr
    rw [statement, throughRepository, TemporalGuard.killStale_ok hmatchable] at ht
    cases ht
  | _ => cases ht

theorem allAgree_step (h : AllAgree t) {a : Operation × Fault} (hs : step t a = some t') :
    AllAgree t' ↔ Unchanging t a := by
  obtain ⟨op, fault⟩ := a
  obtain rfl := Option.some.inj hs
  rcases fault with _ | m
  · rcases ht' : statement op t with m | t'
    · have hattempt : Connection.attempt (statement op) none t = .error m := ht'
      rw [Connection.exec_idle_error hattempt]
      exact ⟨fun _ _ => keepsColumns_of_error ht', fun _ => h⟩
    · have hattempt : Connection.attempt (statement op) none t = .ok t' := ht'
      rw [Connection.exec_idle_ok hattempt]
      exact (allAgree_statement h ht').trans ⟨fun hk _ => hk, fun hk => hk rfl⟩
  · rw [Connection.exec_idle_error rfl]
    exact ⟨fun _ hno => absurd hno (by simp), fun _ => h⟩

/-- Along any sequence of statements from the empty table, the two encodings are coherent in each state exactly if
    no executed statement changes a status or a state. -/
theorem coherent_along_iff (ops : List (Operation × Fault)) :
    Along step Coherent ({} : NotificationOutbox) ops ↔ Meets step Unchanging ({} : NotificationOutbox) ops :=
  along_iff_meets (I := AllAgree) (fun _ h => h.coherent) (fun _ _ _ h hok hs => (allAgree_step h hs).mpr hok)
    (fun _ _ _ h hs ht => (allAgree_step h hs).mp ht.agree) (fun _ hr => absurd hr List.not_mem_nil)
    (run_ne_none (fun _ _ => Option.some_ne_none _) ops _)

/-- A row that the repository delivers: `state` stays 0. -/
def repositoryDelivery : List (Operation × Fault) :=
  [(.enqueue { id := "p", dedupeKey := "k", payload := "" } "r" 1, none), (.claim 16 "nw-1" 2, none),
    (.markDelivered 1 3, none)]

theorem not_coherent_along_repositoryDelivery :
    ¬Along step Coherent ({} : NotificationOutbox) repositoryDelivery := by
  refine not_along_of_last rfl fun h => ?_
  have hagree := h.agree
  revert hagree
  decide

end NotificationOutbox
end CrashCore
