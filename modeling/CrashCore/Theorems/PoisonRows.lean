import CrashCore.Delivery.Workers
import CrashCore.Theorems.TerminalRows
import Mathlib.Data.List.Perm.Subperm

/-! How often the workers hand over one row. A claim counts an attempt and a failure compares the attempts with
`maxAttempts`, but a recovered claim and the late failure of an earlier attempt make a row pending without the
comparison. -/

namespace CrashCore
namespace RowDeliveries
open NotificationWorkers (Config Terminal execute execute_cases Exhausted completion)
open Transition

/-! ### Attempts of one row -/

theorem length_le_of_attempts {l : List (Nat × Nat)} {id n : Nat} (hnodup : l.Nodup) (hid : ∀ a ∈ l, a.1 = id)
    (hle : ∀ a ∈ l, 0 < a.2 ∧ a.2 ≤ n) : l.length ≤ n := by
  have hinj : (l.map Prod.snd).Nodup :=
    hnodup.map_on fun a ha b hb heq => Prod.ext ((hid a ha).trans (hid b hb).symm) heq
  have hsub : l.map Prod.snd ⊆ List.range' 1 n := by
    intro k hk
    obtain ⟨a, ha, rfl⟩ := List.mem_map.mp hk
    have := hle a ha
    rw [List.mem_range'_1]
    omega
  have hlength := (List.subperm_of_subset hinj hsub).length_le
  rwa [List.length_map, List.length_range'] at hlength

/-- When all attempts were made, the last one was. -/
theorem mem_of_length_eq {l : List (Nat × Nat)} {id n : Nat} (hnodup : l.Nodup) (hid : ∀ a ∈ l, a.1 = id)
    (hle : ∀ a ∈ l, 0 < a.2 ∧ a.2 ≤ n) (hpos : 0 < l.length) (hlen : l.length = n) : (id, n) ∈ l := by
  by_contra hn
  have hless : l.length ≤ n - 1 := by
    refine length_le_of_attempts hnodup hid fun a ha => ⟨(hle a ha).1, ?_⟩
    have hne : a.2 ≠ n := fun heq => hn (by rwa [← hid a ha, ← heq])
    have := hle a ha
    omega
  omega

/-! ### Rows after a step -/

variable {d d' d'' : Tables} {n : Nat} {a : Nat × Nat} {r : NotificationRow}

/-- The attempt is one of the first `n` of a row. -/
def Current (n : Nat) (d : Tables) (a : Nat × Nat) : Prop :=
  ∃ r ∈ d.notifications.rows, r.id = a.1 ∧ a.2 ≤ r.attempts ∧ 0 < a.2 ∧ a.2 ≤ n

/-- Each row is still there, with no fewer attempts. -/
structure KeepsRows (d d' : Tables) : Prop where
  ids : d'.IdsUnique
  rows : ∀ r ∈ d.notifications.rows, ∃ r' ∈ d'.notifications.rows, r'.id = r.id ∧ r.attempts ≤ r'.attempts

/-- And a terminal row has its status. -/
structure KeepsDone (d d' : Tables) : Prop where
  ids : d'.IdsUnique
  rows : ∀ r ∈ d.notifications.rows, ∃ r' ∈ d'.notifications.rows, r'.id = r.id ∧ r.attempts ≤ r'.attempts ∧
    (Terminal r.status → r'.status = r.status)

theorem KeepsDone.keepsRows (h : KeepsDone d d') : KeepsRows d d' where
  ids := h.ids
  rows r hr := by
    obtain ⟨r', hr', hid, hle, -⟩ := h.rows r hr
    exact ⟨r', hr', hid, hle⟩

theorem KeepsDone.refl (hids : d.IdsUnique) : KeepsDone d d := ⟨hids, fun r hr => ⟨r, hr, rfl, le_rfl, fun _ => rfl⟩⟩

theorem eq_of_id {r' : NotificationRow} (hids : d.IdsUnique) (hr : r ∈ d.notifications.rows)
    (hr' : r' ∈ d.notifications.rows) (hid : r.id = r'.id) : r = r' := List.inj_on_of_nodup_map hids hr hr' hid

theorem Current.keep (h : Current n d a) (hk : KeepsRows d d') : Current n d' a := by
  obtain ⟨r, hr, hid, hle, hpos, hn⟩ := h
  obtain ⟨r', hr', hid', hle'⟩ := hk.rows r hr
  exact ⟨r', hr', hid'.trans hid, hle.trans hle', hpos, hn⟩

/-- The attempts of a row go up to its own number. -/
theorem Current.le (h : Current n d a) (hids : d.IdsUnique) (hr : r ∈ d.notifications.rows) (hid : r.id = a.1) :
    a.2 ≤ r.attempts := by
  obtain ⟨r', hr', hid', hle, -⟩ := h
  rwa [← eq_of_id hids hr' hr (hid'.trans hid.symm)]

theorem keepsDone_insert (row : NotificationRow) (hids : d.IdsUnique) (h : Tables.insertNotification row d = .ok d') :
    KeepsDone d d' := by
  refine ⟨Tables.idsUnique_insertNotification hids h, fun r hr => ?_⟩
  cases h
  exact ⟨r, Table.mem_insertIfAbsent hr, rfl, le_rfl, fun _ => rfl⟩

section
variable {where_ : NotificationRow → Prop} [DecidablePred where_] {set : NotificationRow → NotificationRow}
  {hset : ∀ r, (set r).dedupeKey = r.dedupeKey}

theorem mem_update (hr : r ∈ d.notifications.rows) :
    (if where_ r then set r else r) ∈ (d.updateNotifications where_ set hset).notifications.rows :=
  List.mem_map_of_mem hr

theorem keepsRows_update (hset : ∀ r, (set r).dedupeKey = r.dedupeKey) (hids : d.IdsUnique)
    (hid : ∀ r, (set r).id = r.id) (hle : ∀ r, r.attempts ≤ (set r).attempts) :
    KeepsRows d (d.updateNotifications where_ set hset) := by
  refine ⟨Tables.idsUnique_update hids hid, fun r hr => ⟨_, mem_update hr, ?_⟩⟩
  split
  · exact ⟨hid r, hle r⟩
  · exact ⟨rfl, le_rfl⟩

/-- An update that selects no terminal row. -/
theorem keepsDone_update (hids : d.IdsUnique) (hid : ∀ r, (set r).id = r.id) (hle : ∀ r, r.attempts ≤ (set r).attempts)
    (hlive : ∀ r ∈ d.notifications.rows, where_ r → ¬Terminal r.status) :
    KeepsDone d (d.updateNotifications where_ set hset) := by
  refine ⟨Tables.idsUnique_update hids hid, fun r hr => ⟨_, mem_update hr, ?_⟩⟩
  split
  · rename_i hw
    exact ⟨hid r, hle r, fun ht => absurd ht (hlive r hr hw)⟩
  · exact ⟨rfl, le_rfl, fun _ => rfl⟩

end

variable {ω : Type} {s t : State ω} {w : ω} {config : ω → Config} {fault : Fault}

theorem keepsDone_execute {b : NotificationWorkers.State ω} {stmt : Statement Tables} (hids : b.tables.IdsUnique)
    (hstmt : ∀ d', stmt b.tables = .ok d' → KeepsDone b.tables d') : KeepsDone b.tables (execute b stmt fault).tables := by
  obtain ⟨-, h⟩ | ⟨-, h⟩ := execute_cases b stmt fault
  · rw [h]
    exact .refl hids
  · exact hstmt _ h

/-! ### The invariant -/

/-- The rows of the batch that the delivery function was not given. -/
def unhanded (s : State ω) (w : ω) : List NotificationRow :=
  match s.answers w with
  | none => s.base.batches w
  | some _ => (s.base.batches w).tail

theorem unhanded_none (h : s.answers w = none) : unhanded s w = s.base.batches w := by
  unfold unhanded
  rw [h]

theorem unhanded_some {answer : Except String Unit} (h : s.answers w = some answer) :
    unhanded s w = (s.base.batches w).tail := by
  unfold unhanded
  rw [h]

theorem unhanded_of_same {x : NotificationRow} (hx : x ∈ unhanded t w) (hb : t.base.batches w = s.base.batches w)
    (ha : t.answers w = s.answers w) : x ∈ unhanded s w := by
  unfold unhanded at hx ⊢
  rwa [hb, ha] at hx

theorem mem_of_unhanded {x : NotificationRow} (hx : x ∈ unhanded s w) : x ∈ s.base.batches w := by
  unfold unhanded at hx
  split at hx
  · exact hx
  · exact List.mem_of_mem_tail hx

/-- The delivery function was given this attempt, and its answer is not stored. -/
def AtDelivery (s : State ω) (a : Nat × Nat) : Prop :=
  ∃ w row rest, s.base.batches w = row :: rest ∧ s.answers w ≠ none ∧ attempt row = a

theorem AtDelivery.elsewhere {row : NotificationRow} {rest : List NotificationRow} (h : AtDelivery s a)
    (hb : s.base.batches w = row :: rest) (hne : attempt row ≠ a) :
    ∃ w' ≠ w, ∃ row rest, s.base.batches w' = row :: rest ∧ s.answers w' ≠ none ∧ attempt row = a := by
  obtain ⟨w', row', rest', hb', hans, hrow⟩ := h
  refine ⟨w', ?_, row', rest', hb', hans, hrow⟩
  rintro rfl
  rw [hb] at hb'
  cases hb'
  exact hne hrow

/-- The row is dead, or one of its deliveries succeeded and it is delivered. -/
def Finished (s : State ω) (r : NotificationRow) : Prop :=
  r.status = .dead ∨ (r.status = .delivered ∧ r.id ∈ s.sent)

structure Inv (n : Nat) (s : State ω) : Prop where
  ids : s.base.tables.IdsUnique
  copy : ∀ w, ∀ x ∈ s.base.batches w, Current n s.base.tables (attempt x)
  known : ∀ a ∈ s.handed, Current n s.base.tables a
  once : s.handed.Nodup
  unhanded : ∀ w, ∀ x ∈ unhanded s w, attempt x ∉ s.handed
  nodup : ∀ w, ((s.base.batches w).map attempt).Nodup
  apart : ∀ w w', ∀ x ∈ s.base.batches w, ∀ x' ∈ s.base.batches w', attempt x = attempt x' → w = w'
  answered : ∀ w answer, s.answers w = some answer →
    ∃ row rest, s.base.batches w = row :: rest ∧ (answer.isOk = true → row.id ∈ s.sent)
  settled : ∀ r ∈ s.base.tables.notifications.rows, (r.id, n) ∈ s.handed → Finished s r ∨ AtDelivery s (r.id, n)

theorem terminal_of_finished (h : Finished s r) : Terminal r.status := h.elim .inr fun h => .inl h.1

theorem Finished.same {r' : NotificationRow} (h : Finished s r) (hid : r'.id = r.id) (hstatus : r'.status = r.status)
    (hsent : s.sent ⊆ t.sent) : Finished t r' := by
  rcases h with h | ⟨h, hmem⟩
  · exact Or.inl (hstatus.trans h)
  · exact Or.inr ⟨hstatus.trans h, hid ▸ hsent hmem⟩

/-- A row with a known attempt was there before the step. -/
theorem Inv.origin (h : Inv n s) (hk : KeepsDone s.base.tables d') (hr : r ∈ d'.notifications.rows)
    (ha : (r.id, n) ∈ s.handed) : ∃ r₀ ∈ s.base.tables.notifications.rows, r.id = r₀.id ∧
      (Terminal r₀.status → r.status = r₀.status) := by
  obtain ⟨r₀, hr₀, hid₀, -⟩ := h.known _ ha
  obtain ⟨r', hr', hid', -, hdone⟩ := hk.rows r₀ hr₀
  obtain rfl := eq_of_id hk.ids hr' hr (hid'.trans hid₀)
  exact ⟨r₀, hr₀, hid', hdone⟩

/-- A step that lets nobody lose a batch, and that keeps the terminal rows. -/
theorem Inv.settled_keep (h : Inv n s) {base : NotificationWorkers.State ω} (hk : KeepsDone s.base.tables base.tables)
    (hfull : ∀ w, s.base.batches w ≠ [] → base.batches w = s.base.batches w) :
    ∀ r ∈ base.tables.notifications.rows, (r.id, n) ∈ s.handed →
      Finished { s with base } r ∨ AtDelivery { s with base } (r.id, n) := by
  intro r hr ha
  obtain ⟨r₀, hr₀, hid, hdone⟩ := h.origin hk hr ha
  rw [hid] at ha ⊢
  rcases h.settled r₀ hr₀ ha with hfin | ⟨w, row, rest, hb, hans, hrow⟩
  · exact Or.inl (hfin.same hid (hdone (terminal_of_finished hfin)) fun _ hm => hm)
  · exact Or.inr ⟨w, row, rest, (hfull w (hb ▸ List.cons_ne_nil _ _)).trans hb, hans, hrow⟩

/-- A step that leaves the batches alone and no terminal row behind. -/
theorem Inv.tables (h : Inv n s) {base : NotificationWorkers.State ω} (hbatches : base.batches = s.base.batches)
    (hk : KeepsDone s.base.tables base.tables) : Inv n { s with base } where
  ids := hk.ids
  copy w x hx := (h.copy w x (hbatches ▸ hx)).keep hk.keepsRows
  known a ha := (h.known a ha).keep hk.keepsRows
  once := h.once
  unhanded w x hx := h.unhanded w x (unhanded_of_same hx (congrFun hbatches w) rfl)
  nodup w := hbatches ▸ h.nodup w
  apart w w' x hx x' hx' := h.apart w w' x (hbatches ▸ hx) x' (hbatches ▸ hx')
  answered w answer hans := hbatches ▸ h.answered w answer hans
  settled := h.settled_keep hk fun w _ => congrFun hbatches w

/-! ### Claims -/

variable [DecidableEq ω]

def dueIds (config : ω → Config) (b : NotificationWorkers.State ω) (w : ω) : List Nat :=
  OutboxRepository.due b.tables (config w).batchSize b.clock

def claimedRow (config : ω → Config) (b : NotificationWorkers.State ω) (w : ω) (r : NotificationRow) : NotificationRow :=
  { r with
    status := .claimed, attempts := r.attempts + 1, workerId := some (config w).workerId, claimedAtMs := some b.clock }

theorem claim_inv {b b' : NotificationWorkers.State ω}
    (hs : NotificationWorkers.step config b (.claim w fault) = some b') : b' = b ∨
      (fault = none ∧ b.batches w = [] ∧ ∃ rows, b'.batches = Function.update b.batches w rows ∧
        b'.tables = b.tables.updateNotifications (·.id ∈ dueIds config b w) (claimedRow config b w) (fun _ => rfl) ∧
        rows = b'.tables.notifications.rows.filter (·.id ∈ dueIds config b w)) := by
  rw [NotificationWorkers.step, Option.ite_none_right_eq_some] at hs
  obtain ⟨hempty, hs⟩ := hs
  cases fault with
  | some m =>
    simp only [OutboxRepository.claim, Connection.exec_idle_error (Connection.attempt_some), Option.some.injEq] at hs
    exact Or.inl hs.symm
  | none =>
    have hexec : Connection.attempt (OutboxRepository.claimRows (config w).batchSize (config w).workerId b.clock) none
      b.tables = .ok (b.tables.updateNotifications _ _ _) := rfl
    simp only [OutboxRepository.claim, Connection.exec_idle_ok hexec, Option.some.injEq] at hs
    rw [← hs]
    exact Or.inr ⟨rfl, hempty, _, rfl, rfl, rfl⟩

omit [DecidableEq ω] in
/-- A claimed copy is a row that was due, with one attempt more. -/
theorem mem_claimed {b : NotificationWorkers.State ω} {x : NotificationRow}
    (hx : x ∈ (b.tables.updateNotifications (·.id ∈ dueIds config b w) (claimedRow config b w)
      (fun _ => rfl)).notifications.rows.filter (·.id ∈ dueIds config b w)) :
    ∃ r ∈ b.tables.notifications.rows, r.id ∈ dueIds config b w ∧ x = claimedRow config b w r := by
  obtain ⟨hmem, hdue⟩ := List.mem_filter.mp hx
  obtain ⟨r, hr, rfl⟩ := List.mem_map.mp hmem
  by_cases hw : r.id ∈ dueIds config b w
  · exact ⟨r, hr, hw, if_pos hw⟩
  · rw [if_neg hw] at hdue
    exact absurd (of_decide_eq_true hdue) hw

/-- A claim that takes only rows with attempts left. -/
theorem Inv.claim (h : Inv n s) {base : NotificationWorkers.State ω}
    (hs : NotificationWorkers.step config s.base (.claim w fault) = some base)
    (hok : fault = none → ∀ r ∈ s.base.tables.notifications.rows, r.id ∈ dueIds config s.base w → r.attempts < n) :
    Inv n { s with base } := by
  obtain rfl | ⟨hfault, hempty, rows, hbatches, htables, hrows⟩ := claim_inv hs
  · exact h
  have hattempts := hok hfault
  rw [htables] at hrows
  have hnew : ∀ x ∈ rows, ∃ r ∈ s.base.tables.notifications.rows, r.attempts < n ∧ attempt x = (r.id, r.attempts + 1) := by
    intro x hx
    rw [hrows] at hx
    obtain ⟨r, hr, hdue, rfl⟩ := mem_claimed hx
    exact ⟨r, hr, hattempts r hr hdue, rfl⟩
  have hlive : ∀ r ∈ s.base.tables.notifications.rows, r.id ∈ dueIds config s.base w → ¬Terminal r.status := by
    intro r hr hdue
    rw [NotificationWorkers.status_of_due h.ids hr hdue]
    decide
  have hk : KeepsDone s.base.tables base.tables := by
    rw [htables]
    exact keepsDone_update h.ids (fun _ => rfl) (fun _ => Nat.le_succ _) hlive
  -- No copy has the attempt that the claim counts.
  have hfresh : ∀ a, Current n s.base.tables a → ∀ x ∈ rows, attempt x ≠ a := by
    intro a ha x hx heq
    obtain ⟨r, hr, -, hx⟩ := hnew x hx
    have hle := ha.le h.ids hr (by rw [← heq, hx])
    rw [← heq, hx] at hle
    exact absurd hle (Nat.not_succ_le_self _)
  have hfull : ∀ w', s.base.batches w' ≠ [] → base.batches w' = s.base.batches w' := by
    intro w' hne
    rw [hbatches, Function.update_of_ne]
    rintro rfl
    exact hne hempty
  have hcases : ∀ w' x, x ∈ base.batches w' → x ∈ s.base.batches w' ∨ (w' = w ∧ x ∈ rows) := by
    intro w' x hx
    rw [hbatches, Function.update_apply] at hx
    split at hx
    · rename_i hw
      exact Or.inr ⟨hw, hx⟩
    · exact Or.inl hx
  refine ⟨hk.ids, fun w' x hx => ?_, fun a ha => (h.known a ha).keep hk.keepsRows, h.once, fun w' x hx => ?_,
    fun w' => ?_, fun w₁ w₂ x₁ hx₁ x₂ hx₂ heq => ?_, fun w' answer hans => ?_, h.settled_keep hk hfull⟩
  · rcases hcases w' x hx with hx | ⟨rfl, hx⟩
    · exact (h.copy w' x hx).keep hk.keepsRows
    · rw [hrows] at hx
      obtain ⟨r, hr, hdue, rfl⟩ := mem_claimed hx
      refine ⟨_, htables ▸ mem_update hr, ?_⟩
      rw [if_pos hdue]
      exact ⟨rfl, le_rfl, Nat.succ_pos _, hattempts r hr hdue⟩
  · rcases hcases w' x (mem_of_unhanded hx) with hold | ⟨rfl, hx'⟩
    · exact h.unhanded w' x (unhanded_of_same hx (hfull w' (List.ne_nil_of_mem hold)) rfl)
    · exact fun ha => hfresh _ (h.known _ ha) x hx' rfl
  · show ((base.batches w').map attempt).Nodup
    rw [hbatches, Function.update_apply]
    split
    · have hids : (rows.map (·.id)).Nodup := by
        rw [hrows]
        exact (htables ▸ hk.ids).sublist (List.filter_sublist.map _)
      refine List.Nodup.of_map Prod.fst ?_
      rwa [List.map_map]
    · exact h.nodup w'
  · rcases hcases w₁ x₁ hx₁ with ho₁ | ⟨rfl, hn₁⟩ <;> rcases hcases w₂ x₂ hx₂ with ho₂ | ⟨rfl, hn₂⟩
    · exact h.apart w₁ w₂ x₁ ho₁ x₂ ho₂ heq
    · exact absurd heq.symm (hfresh _ (h.copy w₁ x₁ ho₁) x₂ hn₂)
    · exact absurd heq (hfresh _ (h.copy w₂ x₂ ho₂) x₁ hn₁)
    · rfl
  · obtain ⟨row, rest, hb, hsent⟩ := h.answered w' answer hans
    exact ⟨row, rest, (hfull w' (hb ▸ List.cons_ne_nil _ _)).trans hb, hsent⟩

/-! ### Deliveries -/

theorem deliver_inv {answer : Except String Unit} (hs : step config n s (.deliver w answer) = some t) :
    ∃ row rest, s.base.batches w = row :: rest ∧ s.answers w = none ∧
      t = { s with
        answers := Function.update s.answers w (some answer)
        handed := s.handed ++ [attempt row]
        sent := if answer.isOk then s.sent ++ [row.id] else s.sent } := by
  unfold step at hs
  dsimp only at hs
  split at hs
  · rename_i row rest hb hnone
    cases hs
    exact ⟨row, rest, hb, hnone, rfl⟩
  · cases hs

/-- The first row of a batch is handed over: its attempt is none of those that are left. -/
theorem Inv.unhanded_after (h : Inv n s) {row : NotificationRow} {rest : List NotificationRow}
    (hb : s.base.batches w = row :: rest) (hnone : s.answers w = none) (w' : ω) {x : NotificationRow}
    (hx : if w' = w then x ∈ rest else x ∈ RowDeliveries.unhanded s w') : attempt x ∉ s.handed ++ [attempt row] := by
  intro ha
  have hhead : row ∈ s.base.batches w := hb ▸ List.mem_cons_self
  split at hx
  · have hnodup := h.nodup w
    rw [hb, List.map_cons, List.nodup_cons] at hnodup
    rcases List.mem_append.mp ha with ha | ha
    · refine h.unhanded w x ?_ ha
      rw [unhanded_none hnone, hb]
      exact List.mem_cons_of_mem _ hx
    · exact hnodup.1 (List.mem_map.mpr ⟨x, hx, List.mem_singleton.mp ha⟩)
  · rename_i hne
    rcases List.mem_append.mp ha with ha | ha
    · exact h.unhanded w' x hx ha
    · exact hne (h.apart w' w x (mem_of_unhanded hx) row hhead (List.mem_singleton.mp ha))

theorem Inv.deliver (h : Inv n s) {answer : Except String Unit}
    (hs : step config n s (.deliver w answer) = some t) : Inv n t := by
  obtain ⟨row, rest, hb, hnone, rfl⟩ := deliver_inv hs
  have hhead : row ∈ s.base.batches w := hb ▸ List.mem_cons_self
  have hnew : attempt row ∉ s.handed := by
    refine h.unhanded w row ?_
    rwa [unhanded_none hnone]
  have hsent : s.sent ⊆ if answer.isOk then s.sent ++ [row.id] else s.sent := by
    split
    · exact List.subset_append_left ..
    · exact List.Subset.refl _
  have hanswers : ∀ w', w' ≠ w → Function.update s.answers w (some answer) w' = s.answers w' := fun w' hne =>
    Function.update_of_ne hne ..
  refine ⟨h.ids, h.copy, fun a ha => ?_, ?_, fun w' x hx => h.unhanded_after hb hnone w' ?_, h.nodup, h.apart,
    fun w' answer' hans => ?_, fun r hr ha => ?_⟩
  · rcases List.mem_append.mp ha with ha | ha
    · exact h.known a ha
    · rw [List.mem_singleton.mp ha]
      exact h.copy w row hhead
  · rw [← List.concat_eq_append]
    exact List.Nodup.concat hnew h.once
  · split
    · rename_i hw
      subst hw
      have hans : Function.update s.answers w' (some answer) w' = some answer := Function.update_self ..
      rw [unhanded_some hans] at hx
      dsimp only at hx
      rwa [hb] at hx
    · rename_i hne
      exact unhanded_of_same hx rfl (hanswers w' hne)
  · by_cases hw : w' = w
    · subst hw
      dsimp only at hans
      rw [Function.update_self] at hans
      cases hans
      refine ⟨row, rest, hb, fun hok => ?_⟩
      dsimp only
      rw [if_pos hok]
      exact List.mem_append_right _ (List.mem_singleton_self _)
    · dsimp only at hans
      rw [hanswers w' hw] at hans
      obtain ⟨row', rest', hb', hdone⟩ := h.answered w' answer' hans
      exact ⟨row', rest', hb', fun hok => hsent (hdone hok)⟩
  · have hkept : ∀ w', s.answers w' ≠ none → Function.update s.answers w (some answer) w' ≠ none := by
      intro w' hans
      rw [Function.update_apply]
      split
      · exact nofun
      · exact hans
    rcases List.mem_append.mp ha with ha | ha
    · rcases h.settled r hr ha with hfin | ⟨w', row', rest', hb', hans, hrow⟩
      · exact Or.inl (hfin.same rfl rfl hsent)
      · exact Or.inr ⟨w', row', rest', hb', hkept w' hans, hrow⟩
    · refine Or.inr ⟨w, row, rest, hb, ?_, (List.mem_singleton.mp ha).symm⟩
      dsimp only
      rw [Function.update_self]
      exact nofun

/-! ### Completions and crashes -/

/-- The condition on a step: a claim takes only rows with attempts left, the last attempt of a row is completed, and
    the failure of an earlier attempt is not stored any more when the last attempt has begun. -/
def KeepsBound (config : ω → Config) (n : Nat) (s : State ω) : Action ω → Prop
  | .other (.claim w none) =>
    ∀ r ∈ s.base.tables.notifications.rows, r.id ∈ dueIds (configOf config n) s.base w → r.attempts < n
  | .complete w fault => ∀ row ∈ (s.base.batches w).head?,
      (n ≤ row.attempts → fault = none) ∧
      (row.attempts < n → fault = none → (∀ answer ∈ s.answers w, answer.isOk = false) →
        ∀ r ∈ s.base.tables.notifications.rows, r.id = row.id → r.attempts < n)
  | .crash w => s.answers w ≠ none → ∀ row ∈ (s.base.batches w).head?, row.attempts < n
  | _ => True

instance (config : ω → Config) (n : Nat) (s : State ω) : DecidablePred (KeepsBound config n s)
  | .other (.claim w none) => decidable_of_iff (∀ r ∈ s.base.tables.notifications.rows,
      r.id ∈ dueIds (configOf config n) s.base w → r.attempts < n) Iff.rfl
  | .complete w fault => decidable_of_iff (∀ row ∈ (s.base.batches w).head?,
      (n ≤ row.attempts → fault = none) ∧
      (row.attempts < n → fault = none → (∀ answer ∈ s.answers w, answer.isOk = false) →
        ∀ r ∈ s.base.tables.notifications.rows, r.id = row.id → r.attempts < n)) Iff.rfl
  | .crash w => decidable_of_iff (s.answers w ≠ none → ∀ row ∈ (s.base.batches w).head?, row.attempts < n) Iff.rfl
  | .deliver .. | .other (.claim _ (some _)) | .other (.advance _) | .other (.enqueue ..) | .other (.complete ..)
  | .other (.recoverStaleClaims ..) | .other (.killStale ..) => .isTrue trivial

/-- A worker lets go of the first rows of its batch; the tables keep their rows. -/
theorem Inv.drop (h : Inv n s) {base : NotificationWorkers.State ω} {rows : List NotificationRow}
    (hbatches : base.batches = Function.update s.base.batches w rows) (hsub : rows <:+ s.base.batches w)
    (hrest : rows.length ≤ (s.base.batches w).length - 1) (hk : KeepsRows s.base.tables base.tables)
    (hsettled : ∀ r ∈ base.tables.notifications.rows, (r.id, n) ∈ s.handed →
      Finished s r ∨ ∃ w' ≠ w, ∃ row rest, s.base.batches w' = row :: rest ∧ s.answers w' ≠ none ∧ attempt row = (r.id, n)) :
    Inv n { s with base, answers := Function.update s.answers w none } := by
  have hmem : ∀ w' x, x ∈ base.batches w' → x ∈ s.base.batches w' := by
    intro w' x hx
    rw [hbatches, Function.update_apply] at hx
    split at hx
    · rename_i hw
      exact hw ▸ hsub.subset hx
    · exact hx
  have hother : ∀ w' ≠ w, base.batches w' = s.base.batches w' := fun w' hne => by
    rw [hbatches, Function.update_of_ne hne]
  have hanswers : ∀ w' ≠ w, Function.update s.answers w none w' = s.answers w' := fun w' hne =>
    Function.update_of_ne hne ..
  refine ⟨hk.ids, fun w' x hx => (h.copy w' x (hmem w' x hx)).keep hk, fun a ha => (h.known a ha).keep hk, h.once,
    fun w' x hx => ?_, fun w' => ?_, fun w₁ w₂ x₁ hx₁ x₂ hx₂ => h.apart w₁ w₂ x₁ (hmem _ _ hx₁) x₂ (hmem _ _ hx₂),
    fun w' answer hans => ?_, fun r hr ha => ?_⟩
  · by_cases hw : w' = w
    · subst hw
      have hx := mem_of_unhanded hx
      dsimp only at hx
      rw [hbatches, Function.update_self] at hx
      refine h.unhanded w' x ?_
      rcases hans : s.answers w' with _ | answer
      · rw [unhanded_none hans]
        exact hsub.subset hx
      · rw [unhanded_some hans]
        refine (List.IsSuffix.subset ?_) hx
        exact List.suffix_of_suffix_length_le hsub (List.tail_suffix _) (by rwa [List.length_tail])
    · exact h.unhanded w' x (unhanded_of_same hx (hother w' hw) (hanswers w' hw))
  · by_cases hw : w' = w
    · subst hw
      dsimp only
      rw [hbatches, Function.update_self]
      exact (h.nodup w').sublist (hsub.sublist.map _)
    · dsimp only
      rw [hother w' hw]
      exact h.nodup w'
  · have hne : w' ≠ w := by
      rintro rfl
      dsimp only at hans
      rw [Function.update_self] at hans
      cases hans
    dsimp only at hans
    rw [hanswers w' hne] at hans
    obtain ⟨row, rest, hb, hsent⟩ := h.answered w' answer hans
    exact ⟨row, rest, (hother w' hne).trans hb, hsent⟩
  · rcases hsettled r hr ha with hfin | ⟨w', hne, row, rest, hb, hans, hrow⟩
    · exact Or.inl hfin
    · exact Or.inr ⟨w', row, rest, (hother w' hne).trans hb, (hanswers w' hne).trans_ne hans, hrow⟩

theorem Inv.crash (h : Inv n s) (hok : KeepsBound config n s (.crash w))
    (hs : step config n s (.crash w) = some t) : Inv n t := by
  cases hs
  refine h.drop rfl List.nil_suffix (Nat.zero_le _) (KeepsDone.refl h.ids).keepsRows fun r hr ha => ?_
  rcases h.settled r hr ha with hfin | ⟨w', row, rest, hb, hans, hrow⟩
  · exact Or.inl hfin
  · refine Or.inr ⟨w', ?_, row, rest, hb, hans, hrow⟩
    rintro rfl
    have hlt := hok hans row (by rw [hb]; rfl)
    exact absurd hlt (Nat.not_lt.mpr (congrArg Prod.snd hrow).ge)

/-- The status that a completion writes. -/
def stored (n : Nat) (row : NotificationRow) (answer : Except String Unit) : NotificationStatus :=
  if answer.isOk then .delivered else if n ≤ row.attempts then .dead else .pending

omit [DecidableEq ω] in
theorem completion_keepsRows {b : NotificationWorkers.State ω} (c : Config) (row : NotificationRow)
    (answer : Except String Unit) (hids : b.tables.IdsUnique) :
    KeepsRows b.tables (execute b (completion c row b.clock answer) none).tables := by
  cases answer with
  | ok _ | error _ =>
    refine keepsRows_update ?_ hids ?_ ?_
    · exact fun _ => rfl
    · exact fun _ => rfl
    · exact fun _ => le_rfl

omit [DecidableEq ω] in
/-- A completion that is executed stores its answer in the row it was about. -/
theorem completion_rows {b : NotificationWorkers.State ω} (c : Config) (row : NotificationRow)
    (answer : Except String Unit) (hids : b.tables.IdsUnique) :
    KeepsRows b.tables (execute b (completion c row b.clock answer) none).tables ∧
      ∀ r ∈ (execute b (completion c row b.clock answer) none).tables.notifications.rows,
        ∃ r₀ ∈ b.tables.notifications.rows, r.id = r₀.id ∧
          r.status = if r₀.id = row.id then stored c.maxAttempts row answer else r₀.status := by
  refine ⟨completion_keepsRows c row answer hids, fun r hr => ?_⟩
  cases answer with
  | ok u =>
    obtain ⟨r₀, hr₀, rfl⟩ := List.mem_map.mp hr
    refine ⟨r₀, hr₀, ?_⟩
    split <;> exact ⟨rfl, rfl⟩
  | error m =>
    obtain ⟨r₀, hr₀, rfl⟩ := List.mem_map.mp hr
    refine ⟨r₀, hr₀, ?_⟩
    split
    · refine ⟨rfl, ?_⟩
      show (if decide (Exhausted c row) = true then NotificationStatus.dead else .pending) = _
      have hfailed : ¬(Except.error m : Except String Unit).isOk = true := nofun
      rw [stored, if_neg hfailed]
      by_cases hex : Exhausted c row
      · exact (if_pos (decide_eq_true hex)).trans (if_pos hex).symm
      · exact (if_neg (mt of_decide_eq_true hex)).trans (if_neg hex).symm
    · exact ⟨rfl, rfl⟩

theorem complete_inv (hs : step config n s (.complete w fault) = some t) : ∃ row rest answer,
    s.base.batches w = row :: rest ∧ s.answers w = some answer ∧
      t = { s with
        base := { execute s.base (completion (configOf config n w) row s.base.clock answer) fault with
          batches := Function.update s.base.batches w rest }
        answers := Function.update s.answers w none } := by
  unfold step at hs
  dsimp only at hs
  split at hs
  · rename_i answer hans
    obtain ⟨base, hbase, rfl⟩ := Option.map_eq_some_iff.mp hs
    unfold NotificationWorkers.step at hbase
    dsimp only at hbase
    split at hbase
    · rename_i row rest hb
      cases hbase
      exact ⟨row, rest, answer, hb, hans, rfl⟩
    · cases hbase
  · cases hs

theorem Inv.complete (h : Inv n s) (hok : KeepsBound config n s (.complete w fault))
    (hs : step config n s (.complete w fault) = some t) : Inv n t := by
  obtain ⟨row, rest, answer, hb, hans, rfl⟩ := complete_inv hs
  obtain ⟨hlast, hearly⟩ := hok row (by rw [hb]; rfl)
  have hsub : rest <:+ s.base.batches w := hb ▸ List.suffix_cons row rest
  have hlen : rest.length ≤ (s.base.batches w).length - 1 := by rw [hb]; rfl
  cases fault with
  | some m =>
    -- The statement fails, so the attempt was not the last one.
    have hlt : row.attempts < n := Nat.lt_of_not_le fun hle => nomatch hlast hle
    refine h.drop rfl hsub hlen ?_ fun r hr ha => ?_
    · obtain ⟨-, hsame⟩ | ⟨hno, -⟩ := execute_cases s.base (completion (configOf config n w) row s.base.clock answer)
        (some m)
      · exact hsame ▸ (KeepsDone.refl h.ids).keepsRows
      · cases hno
    · have hne : attempt row ≠ (r.id, n) := fun heq => absurd hlt (Nat.not_lt.mpr (congrArg Prod.snd heq).ge)
      exact (h.settled r hr ha).imp id fun hat => hat.elsewhere hb hne
  | none =>
    obtain ⟨hk, hstored⟩ := completion_rows (configOf config n w) row answer h.ids
    refine h.drop rfl hsub hlen hk fun r hr ha => ?_
    obtain ⟨r₀, hr₀, hid, hstatus⟩ := hstored r hr
    rw [hid] at ha ⊢
    by_cases hrow : r₀.id = row.id
    · left
      rw [if_pos hrow] at hstatus
      by_cases hanswer : answer.isOk = true
      · -- the row was delivered
        obtain ⟨row', rest', hb', hsent⟩ := h.answered w answer hans
        rw [hb] at hb'
        cases hb'
        rw [stored, if_pos hanswer] at hstatus
        exact Or.inr ⟨hstatus, by rw [hid, hrow]; exact hsent hanswer⟩
      · rw [stored, if_neg hanswer] at hstatus
        by_cases hle : n ≤ row.attempts
        · exact Or.inl (hstatus.trans (if_pos hle))
        · -- an earlier attempt, while the last one was handed over
          have hfails : ∀ answer' ∈ s.answers w, answer'.isOk = false := by
            intro answer' hmem
            rw [Option.mem_def, hans] at hmem
            cases hmem
            exact Bool.not_eq_true _ ▸ hanswer
          have hlt := hearly (Nat.lt_of_not_le hle) rfl hfails r₀ hr₀ hrow
          exact absurd ((h.known _ ha).le h.ids hr₀ rfl) (Nat.not_le.mpr hlt)
    · rw [if_neg hrow] at hstatus
      have hne : attempt row ≠ (r₀.id, n) := fun heq => hrow (congrArg Prod.fst heq).symm
      exact (h.settled r₀ hr₀ ha).imp (·.same hid hstatus fun _ hm => hm) fun hat => hat.elsewhere hb hne

/-! ### Runs -/

/-- Which of the other actions keep every row: all but a claim, which also takes copies. -/
theorem other_keepsDone {a : NotificationWorkers.Action ω} {b b' : NotificationWorkers.State ω} (hids : b.tables.IdsUnique)
    (hother : Other a) (hclaim : ∀ w fault, a ≠ .claim w fault) (hs : NotificationWorkers.step config b a = some b') :
    b'.batches = b.batches ∧ KeepsDone b.tables b'.tables := by
  cases a with
  | advance ms =>
    cases hs
    exact ⟨rfl, .refl hids⟩
  | enqueue row roundId fault =>
    cases hs
    exact ⟨rfl, keepsDone_execute hids fun d' hd' => keepsDone_insert _ hids hd'⟩
  | claim w fault => exact absurd rfl (hclaim w fault)
  | complete => exact absurd hother id
  | recoverStaleClaims w fault =>
    rw [NotificationWorkers.step, Option.ite_none_right_eq_some] at hs
    cases hs.2
    refine ⟨rfl, keepsDone_execute hids fun d' hd' => ?_⟩
    cases hd'
    refine keepsDone_update hids (fun _ => rfl) (fun _ => le_rfl) fun r _ hr => ?_
    rw [hr.1]
    decide
  | killStale roundId fault =>
    cases hs
    refine ⟨rfl, ?_⟩
    show KeepsDone b.tables (b.guard.killStaleForTarget ⟨b.tables, .idle⟩ roundId b.clock fault).2.committed
    by_cases hempty : roundId = ""
    · rw [TemporalGuard.killStaleForTarget, if_pos hempty]
      exact .refl hids
    · rw [TemporalGuard.killStaleForTarget_conn _ _ _ _ hempty]
      refine keepsDone_execute (b := b) hids fun d' hd' => ?_
      obtain ⟨-, rfl⟩ := TemporalGuard.killStale_eq_ok hd'
      refine keepsDone_update hids (fun _ => rfl) (fun _ => le_rfl) fun r _ hr => ?_
      rcases hr.1 with hr | hr <;> rw [hr] <;> decide

theorem step_inv {act : Action ω} (h : Inv n s) (hok : KeepsBound config n s act) (hs : step config n s act = some t) :
    Inv n t := by
  cases act with
  | deliver w answer => exact h.deliver hs
  | complete w fault => exact h.complete hok hs
  | crash w => exact h.crash hok hs
  | other a =>
    rw [step, Option.ite_none_right_eq_some] at hs
    obtain ⟨hother, hs⟩ := hs
    obtain ⟨base, hbase, rfl⟩ := Option.map_eq_some_iff.mp hs
    by_cases hclaim : ∃ w fault, a = .claim w fault
    · obtain ⟨w, fault, rfl⟩ := hclaim
      refine h.claim hbase fun hnone => ?_
      subst hnone
      exact hok
    · obtain ⟨hbatches, hk⟩ := other_keepsDone h.ids hother (fun w fault heq => hclaim ⟨w, fault, heq⟩) hbase
      exact h.tables hbatches hk

/-- A row is handed over `n` times at most, and after `n` deliveries that the workers have completed it is dead, unless
    one of them succeeded and it is delivered. -/
structure Bounded (n : Nat) (s : State ω) : Prop where
  atMost : ∀ id, deliveries s id ≤ n
  thenDead : ∀ r ∈ s.base.tables.notifications.rows, 0 < deliveries s r.id → deliveries s r.id = n →
    (∀ w, ∀ x ∈ s.base.batches w, x.id ≠ r.id) → Finished s r

omit [DecidableEq ω] in
theorem Inv.bounded (h : Inv n s) : Bounded n s := by
  have hnodup : ∀ id, (s.handed.filter (·.1 = id)).Nodup := fun id => h.once.filter _
  have hid : ∀ id, ∀ a ∈ s.handed.filter (·.1 = id), a.1 = id := fun id a ha =>
    of_decide_eq_true (List.mem_filter.mp ha).2
  have hle : ∀ id, ∀ a ∈ s.handed.filter (·.1 = id), 0 < a.2 ∧ a.2 ≤ n := by
    intro id a ha
    obtain ⟨-, -, -, -, hpos, hn⟩ := h.known a (List.mem_filter.mp ha).1
    exact ⟨hpos, hn⟩
  refine ⟨fun id => length_le_of_attempts (hnodup id) (hid id) (hle id), fun r hr hpos hall hfree => ?_⟩
  have hlast := mem_of_length_eq (hnodup r.id) (hid r.id) (hle r.id) hpos hall
  rcases h.settled r hr (List.mem_filter.mp hlast).1 with hfin | ⟨w, row, rest, hb, -, hrow⟩
  · exact hfin
  · exact absurd (congrArg Prod.fst hrow) (hfree w row (by rw [hb]; exact List.mem_cons_self))

def initial (tables : Tables) (clock : TimestampMs) : State ω := { base := { tables, clock } }

omit [DecidableEq ω] in
theorem inv_initial {tables : Tables} (clock : TimestampMs) (hids : tables.IdsUnique) :
    Inv n (initial tables clock : State ω) where
  ids := hids
  copy _ _ hx := (List.not_mem_nil hx).elim
  known _ ha := (List.not_mem_nil ha).elim
  once := List.nodup_nil
  unhanded _ _ _ := List.not_mem_nil
  nodup _ := List.nodup_nil
  apart _ _ _ hx := (List.not_mem_nil hx).elim
  answered _ _ hans := nomatch hans
  settled _ _ ha := (List.not_mem_nil ha).elim

/-- For any workers, with the configurations that they like apart from one bound, and from any table. -/
theorem bounded_of_reaches {tables : Tables} {clock : TimestampMs} (hids : tables.IdsUnique)
    (hr : Reaches (step config n) (KeepsBound config n) (initial tables clock) s) : Bounded n s :=
  (hr.invariant (P := Inv n) (inv_initial clock hids) fun _ _ _ h hok hs => step_inv h hok hs).bounded

def poison : NotificationWorkers.Action Unit := .enqueue { id := "p", dedupeKey := "k", payload := "" } "r" none

def refused : Except String Unit := .error "refused"

/-- Two deliveries that fail, the second one after the retry delay. -/
def refusedTwice : List (Action Unit) :=
  [.other poison, .other (.claim () none), .deliver () refused, .complete () none, .other (.advance 1000),
    .other (.claim () none), .deliver () refused, .complete () none]

theorem bounded_refusedTwice : ∃ s, run (step (fun _ => {}) 2) (initial {} 1) refusedTwice = some s ∧
    s.base.tables.notifications.rows.map (·.status) = [.dead] ∧ deliveries s 1 = 2 ∧ Bounded 2 s := by
  have hrun : ((run (step (fun _ => {}) 2) (initial {} 1) refusedTwice).map fun s =>
    (s.base.tables.notifications.rows.map (·.status), deliveries s 1)) = some ([.dead], 2) := by decide +kernel
  have hmeets : Meets (step (fun _ => {}) 2) (KeepsBound (fun _ => {}) 2) (initial {} 1) refusedTwice := by
    decide +kernel
  obtain ⟨s, hs, heq⟩ := Option.map_eq_some_iff.mp hrun
  obtain ⟨hstatus, hcount⟩ := Prod.mk.inj heq
  exact ⟨s, hs, hstatus, hcount, bounded_of_reaches (by decide) (Reaches.of_run hmeets hs)⟩

/-- The worker crashes at its only attempt, and the recovery makes the row pending again. -/
def crashedAtLast : List (Action Unit) :=
  [.other poison, .other (.claim () none), .deliver () refused, .crash (), .other (.advance 30001),
    .other (.recoverStaleClaims () none), .other (.claim () none), .deliver () refused]

theorem not_bounded_crashedAtLast :
    ¬∀ s, Reaches (step (fun _ => {}) 1) anyStep (initial {} 1 : State Unit) s → Bounded 1 s := by
  intro h
  have hrun : ((run (step (fun _ => {}) 1) (initial {} 1) crashedAtLast).map (deliveries · 1)) = some 2 := by
    decide +kernel
  obtain ⟨s, hs, hcount⟩ := Option.map_eq_some_iff.mp hrun
  have hle := (h s (Reaches.of_run (meets_anyStep ..) hs)).atMost 1
  rw [hcount] at hle
  exact absurd hle (by decide)

end RowDeliveries
end CrashCore
