import CrashCore.Delivery.Workers

/-! Terminal rows of the notification table. A claim, a recovery and a stale kill look at the status of the rows
they change; a completion goes by the id alone. -/

namespace CrashCore
namespace NotificationWorkers
open Transition

def Terminal (status : NotificationStatus) : Prop := status = .delivered ∨ status = .dead

instance : DecidablePred Terminal := fun _ => inferInstanceAs (Decidable (_ ∨ _))

/-- Each terminal row of `d` is in `d'`, with its status. -/
def KeepsTerminal (d d' : Tables) : Prop :=
  ∀ r ∈ d.notifications.rows, Terminal r.status →
    ∃ r' ∈ d'.notifications.rows, r'.dedupeKey = r.dedupeKey ∧ r'.status = r.status

variable {d d' : Tables} {stmt : Statement Tables} {fault : Fault} {now : TimestampMs}

theorem KeepsTerminal.refl (d : Tables) : KeepsTerminal d d := fun r hr _ => ⟨r, hr, rfl, rfl⟩

theorem KeepsTerminal.trans {d₁ d₂ d₃ : Tables} (h₁ : KeepsTerminal d₁ d₂) (h₂ : KeepsTerminal d₂ d₃) :
    KeepsTerminal d₁ d₃ := by
  intro r hr hterminal
  obtain ⟨r', hr', hkey, hstatus⟩ := h₁ r hr hterminal
  obtain ⟨r'', hr'', hkey', hstatus'⟩ := h₂ r' hr' (hstatus ▸ hterminal)
  exact ⟨r'', hr'', hkey'.trans hkey, hstatus'.trans hstatus⟩

/-! ### Statements -/

/-- An update keeps the terminal rows exactly if it writes their own status to those it selects. -/
theorem keepsTerminal_update (where_ : NotificationRow → Prop) [DecidablePred where_]
    (set : NotificationRow → NotificationRow) (hset : ∀ r, (set r).dedupeKey = r.dedupeKey) :
    KeepsTerminal d (d.updateNotifications where_ set hset) ↔
      ∀ r ∈ d.notifications.rows, where_ r → Terminal r.status → (set r).status = r.status := by
  have hrows : (d.updateNotifications where_ set hset).notifications.rows =
      d.notifications.rows.map fun r => if where_ r then set r else r := rfl
  constructor
  · intro h r hr hwhere hterminal
    obtain ⟨r', hr', hkey, hstatus⟩ := h r hr hterminal
    rw [hrows] at hr'
    obtain ⟨r₀, hr₀, rfl⟩ := List.mem_map.mp hr'
    -- The key tells which row it was.
    have hkey₀ : r₀.dedupeKey = r.dedupeKey := by
      rw [← hkey]
      split
      · exact (hset r₀).symm
      · rfl
    obtain rfl := List.inj_on_of_nodup_map d.notifications.nodup hr₀ hr hkey₀
    rwa [if_pos hwhere] at hstatus
  · intro h r hr hterminal
    refine ⟨if where_ r then set r else r, ?_, ?_, ?_⟩
    · rw [hrows]
      exact List.mem_map.mpr ⟨r, hr, rfl⟩
    · split
      · exact hset r
      · rfl
    · split
      · rename_i hwhere
        exact h r hr hwhere hterminal
      · rfl

/-- The statement keeps the primary key and never gives a terminal row another status. -/
def Respects (stmt : Statement Tables) : Prop :=
  ∀ d d', d.IdsUnique → stmt d = .ok d' → d'.IdsUnique ∧ KeepsTerminal d d'

theorem respects_insert (row : NotificationRow) : Respects (Tables.insertNotification row) := by
  intro d d' hids h
  refine ⟨Tables.idsUnique_insertNotification hids h, ?_⟩
  cases h
  exact fun r hr _ => ⟨r, Table.mem_insertIfAbsent hr, rfl, rfl⟩

/-- An update that selects no terminal row. -/
theorem respects_update (where_ : Tables → NotificationRow → Prop) [∀ d, DecidablePred (where_ d)]
    (set : NotificationRow → NotificationRow) (hset : ∀ r, (set r).dedupeKey = r.dedupeKey)
    (hid : ∀ r, (set r).id = r.id)
    (hwhere : ∀ d, d.IdsUnique → ∀ r ∈ d.notifications.rows, where_ d r → ¬Terminal r.status) :
    Respects fun d => .ok (d.updateNotifications (where_ d) set hset) := by
  intro d d' hids h
  cases h
  refine ⟨Tables.idsUnique_update hids hid, (keepsTerminal_update (where_ d) set hset).mpr ?_⟩
  exact fun r hr hw ht => absurd ht (hwhere d hids r hr hw)

theorem status_of_due {limit : Nat} {r : NotificationRow} (hids : d.IdsUnique) (hr : r ∈ d.notifications.rows)
    (hdue : r.id ∈ OutboxRepository.due d limit now) : r.status = .pending := by
  simp only [OutboxRepository.due, List.mem_map] at hdue
  obtain ⟨r', hr', hid⟩ := hdue
  have hmem := (List.mem_insertionSort _).mp (List.mem_of_mem_take hr')
  rw [List.mem_filter, decide_eq_true_eq] at hmem
  obtain rfl := List.inj_on_of_nodup_map hids hmem.1 hr hid
  exact hmem.2.1

theorem respects_claimRows (limit : Nat) (workerId : String) (now : TimestampMs) :
    Respects (OutboxRepository.claimRows limit workerId now) := by
  refine respects_update _ _ _ (fun _ => rfl) fun d hids r hr hdue => ?_
  rw [status_of_due hids hr hdue]
  decide

theorem respects_recoverStaleClaims (olderThanMs : Int) (now : TimestampMs) :
    Respects (OutboxRepository.recoverStaleClaims olderThanMs now) := by
  refine respects_update (fun _ r => r.status = .claimed ∧ ∃ claimed ∈ r.claimedAtMs, claimed < now - olderThanMs) _ _
    (fun _ => rfl) fun d _ r _ hr => ?_
  rw [hr.1]
  decide

theorem respects_killStale (roundId : RoundId) : Respects (TemporalGuard.killStale roundId) := by
  intro d d' hids h
  obtain ⟨-, rfl⟩ := TemporalGuard.killStale_eq_ok h
  refine respects_update (fun _ => TemporalGuard.Selected roundId) TemporalGuard.killed _ (fun _ => rfl)
    (fun d _ r _ hr => ?_) d _ hids rfl
  rcases hr.1 with hr | hr <;> rw [hr] <;> decide

/-- The status a completion writes. -/
def written (config : Config) (row : NotificationRow) : Except String Unit → NotificationStatus
  | .ok _ => .delivered
  | .error _ => if Exhausted config row then .dead else .pending

/-- A completion keeps the terminal rows exactly if its row is not terminal, or has the status it writes. -/
theorem completion_keepsTerminal {config : Config} {row : NotificationRow} {result : Except String Unit}
    (hids : d.IdsUnique) (h : completion config row now result d = .ok d') :
    d'.IdsUnique ∧ (KeepsTerminal d d' ↔
      ∀ r ∈ d.notifications.rows, r.id = row.id → Terminal r.status → written config row result = r.status) := by
  rcases result with m | _ <;> cases h <;>
    refine ⟨Tables.idsUnique_update hids fun _ => rfl, (keepsTerminal_update _ _ _).trans ?_⟩
  · simp only [written, decide_eq_true_eq]
  · exact Iff.rfl

/-! ### Steps -/

section
variable {ω : Type} {s t : State ω} {config : ω → Config}

theorem execute_cases (s : State ω) (stmt : Statement Tables) (fault : Fault) :
    ((∃ m, Connection.attempt stmt fault s.tables = .error m) ∧ (execute s stmt fault).tables = s.tables) ∨
      (fault = none ∧ stmt s.tables = .ok (execute s stmt fault).tables) := by
  unfold execute
  rcases hexec : Connection.attempt stmt fault s.tables with m | d
  · rw [Connection.exec_idle_error hexec]
    exact Or.inl ⟨⟨m, rfl⟩, rfl⟩
  · rw [Connection.exec_idle_ok hexec]
    exact Or.inr (Connection.attempt_eq_ok.mp hexec)

/-- A step that keeps the primary key and the terminal rows. -/
structure Kept (s t : State ω) : Prop where
  ids : t.tables.IdsUnique
  terminal : KeepsTerminal s.tables t.tables

theorem kept_of_same (hids : s.tables.IdsUnique) (h : t.tables = s.tables) : Kept s t :=
  ⟨h ▸ hids, h ▸ KeepsTerminal.refl _⟩

theorem kept_execute {stmt : Statement Tables} (hids : s.tables.IdsUnique) (hstmt : Respects stmt) (fault : Fault) :
    Kept s (execute s stmt fault) := by
  obtain ⟨-, h⟩ | ⟨-, h⟩ := execute_cases s stmt fault
  · exact kept_of_same hids h
  · obtain ⟨hids', hkeeps⟩ := hstmt _ _ hids h
    exact ⟨hids', hkeeps⟩

/-- The first row of the batch is not terminal in the table, or has the status the completion writes. A completion
    that fails changes nothing. -/
def CompletesLive (config : ω → Config) (s : State ω) : Action ω → Prop
  | .complete w result none => ∀ row ∈ (s.batches w).head?, ∀ r ∈ s.tables.notifications.rows,
      r.id = row.id → Terminal r.status → written (config w) row result = r.status
  | _ => True

instance (config : ω → Config) (s : State ω) : DecidablePred (CompletesLive config s)
  | .complete w result none => decidable_of_iff (∀ row ∈ (s.batches w).head?, ∀ r ∈ s.tables.notifications.rows,
      r.id = row.id → Terminal r.status → written (config w) row result = r.status) Iff.rfl
  | .complete _ _ (some _) | .advance _ | .enqueue .. | .claim .. | .recoverStaleClaims .. | .killStale .. =>
    .isTrue trivial

variable [DecidableEq ω] {w : ω}

theorem claim_kept (hids : s.tables.IdsUnique) (hs : step config s (.claim w fault) = some t) : Kept s t := by
  rw [step, Option.ite_none_right_eq_some] at hs
  obtain ⟨-, hs⟩ := hs
  rcases hexec : Connection.attempt (OutboxRepository.claimRows (config w).batchSize (config w).workerId s.clock)
    fault s.tables with m | d
  · simp only [OutboxRepository.claim, Connection.exec_idle_error hexec, Option.some.injEq] at hs
    exact kept_of_same hids (by rw [← hs])
  · simp only [OutboxRepository.claim, Connection.exec_idle_ok hexec, Option.some.injEq] at hs
    obtain ⟨hids', hkeeps⟩ := respects_claimRows _ _ _ _ _ hids (Connection.attempt_eq_ok.mp hexec).2
    rw [← hs]
    exact ⟨hids', hkeeps⟩

theorem killStale_kept {roundId : RoundId} (hids : s.tables.IdsUnique)
    (hs : step config s (.killStale roundId fault) = some t) : Kept s t := by
  have htables : t.tables =
      (s.guard.killStaleForTarget ⟨s.tables, .idle⟩ roundId s.clock fault).2.committed :=
    congrArg State.tables (Option.some.inj hs).symm
  by_cases hempty : roundId = ""
  · refine kept_of_same hids ?_
    rw [htables, TemporalGuard.killStaleForTarget, if_pos hempty]
  · rw [TemporalGuard.killStaleForTarget_conn _ _ _ _ hempty] at htables
    obtain ⟨hids', hkeeps⟩ := kept_execute hids (respects_killStale roundId) fault
    exact ⟨htables ▸ hids', htables ▸ hkeeps⟩

/-- Every step keeps the primary key; it keeps the terminal rows exactly if it completes a live row. -/
theorem step_keepsTerminal {a : Action ω} (hids : s.tables.IdsUnique) (hs : step config s a = some t) :
    t.tables.IdsUnique ∧ (KeepsTerminal s.tables t.tables ↔ CompletesLive config s a) := by
  have keeps (h : Kept s t) (hlive : CompletesLive config s a) :
      t.tables.IdsUnique ∧ (KeepsTerminal s.tables t.tables ↔ CompletesLive config s a) :=
    ⟨h.ids, fun _ => hlive, fun _ => h.terminal⟩
  cases a with
  | advance ms => exact keeps (kept_of_same hids (by rw [← Option.some.inj hs])) trivial
  | enqueue row roundId fault =>
    obtain rfl := Option.some.inj hs
    exact keeps (kept_execute hids (respects_insert _) fault) trivial
  | claim w fault => exact keeps (claim_kept hids hs) trivial
  | recoverStaleClaims w fault =>
    rw [step, Option.ite_none_right_eq_some] at hs
    obtain rfl := Option.some.inj hs.2
    exact keeps (kept_execute hids (respects_recoverStaleClaims _ _) fault) trivial
  | killStale roundId fault => exact keeps (killStale_kept hids hs) trivial
  | complete w result fault =>
    rcases hbatch : s.batches w with _ | ⟨row, rest⟩
    · simp [step, hbatch] at hs
    simp only [step, hbatch, Option.some.injEq] at hs
    subst hs
    rcases fault with _ | m
    · obtain ⟨⟨m, hfails⟩, -⟩ | ⟨-, hdone⟩ := execute_cases s (completion (config w) row s.clock result) none
      · cases result <;> cases hfails
      · obtain ⟨hids', hiff⟩ := completion_keepsTerminal hids hdone
        refine ⟨hids', hiff.trans ?_⟩
        simp [CompletesLive, hbatch]
    · obtain ⟨-, hsame⟩ | ⟨hno, -⟩ := execute_cases s (completion (config w) row s.clock result) (some m)
      · exact keeps (kept_of_same hids hsame) trivial
      · cases hno

/-! ### Runs -/

/-- A delivered or dead row of `s` has its status in `t`. -/
def KeepsRows (s t : State ω) : Prop := KeepsTerminal s.tables t.tables

/-- The part that needs no condition on the steps: what a run that keeps the terminal rows has done. -/
theorem completesLive_of_keepsRows {acts : List (Action ω)} (hids : s.tables.IdsUnique)
    (hrun : run (step config) s acts ≠ none) (h : AlongPairs (step config) KeepsRows s acts) :
    Meets (step config) (CompletesLive config) s acts :=
  AlongPairs.meets (I := fun s => s.tables.IdsUnique) (fun _ _ _ h hs => (step_keepsTerminal h hs).1)
    (fun _ _ _ h hs => (step_keepsTerminal h hs).2.mp) hids hrun h

/-- In a run of any workers, from any table, a delivered or dead row keeps its status from each state to every later
    one, exactly if each completion finds its row live or writes the status the row has. -/
theorem keepsRows_along_iff (config : ω → Config) (s : State ω) (acts : List (Action ω))
    (hids : s.tables.IdsUnique) (hrun : run (step config) s acts ≠ none) :
    AlongPairs (step config) KeepsRows s acts ↔ Meets (step config) (CompletesLive config) s acts :=
  ⟨completesLive_of_keepsRows hids hrun,
    Meets.alongPairs (R := KeepsRows) (I := fun s => s.tables.IdsUnique) (fun _ => KeepsTerminal.refl _)
      (fun _ _ _ => KeepsTerminal.trans) (fun _ _ _ h hs => (step_keepsTerminal h hs).1)
      (fun _ _ _ h hs => (step_keepsTerminal h hs).2.mpr) hids⟩

/-- Worker 0 claims and delivers a row; worker 1 finds nothing. -/
def delivery : List (Action Nat) :=
  [.enqueue { id := "p", dedupeKey := "k", payload := "" } "r" none, .claim 0 none, .claim 1 none,
    .complete 0 (.ok ()) none, .advance 60000, .killStale "r" none]

theorem keepsRows_along_delivery : AlongPairs (step fun _ => {}) KeepsRows { clock := 1 } delivery :=
  (keepsRows_along_iff (fun _ => {}) { clock := 1 } delivery (by decide) (by decide)).mpr (by decide)

/-- The claimed row is killed as stale while its message is on the way; the completion then makes it delivered. -/
def lateDelivery : List (Action Nat) :=
  [.enqueue { id := "p", dedupeKey := "k", payload := "" } "r" none, .claim 0 none, .killStale "r" none,
    .complete 0 (.ok ()) none]

theorem not_keepsRows_along_lateDelivery : ¬AlongPairs (step fun _ => {}) KeepsRows { clock := 1 } lateDelivery := by
  intro h
  have hlive := completesLive_of_keepsRows (by decide) (by decide) h
  revert hlive
  decide

end
end NotificationWorkers
end CrashCore
