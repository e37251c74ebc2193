import CrashCore.Delivery.Workers

/-! The two delivery workers with each try of a send as a step (`TelegramClient::sendMessageWithRetry` in
`delivery/telegram/telegram_client.hpp`, called by the deliver functions in `application/application.hpp`). A message is
authorized once; then it is handed to the client until a try succeeds, the credentials are refused or the tries run out.
Before each further try the worker sleeps, and anything may happen. -/

namespace CrashCore
namespace SendingWorkers
open DeliveryWorkers (Drainer setBatch)

structure State where
  base : DeliveryWorkers.State
  /-- How often the message of the outbox worker has been tried, while it is being sent. -/
  tries : Option Nat := none
  rowTries : Drainer → Option Nat := fun _ => none

inductive Action
  | base (a : DeliveryWorkers.Action)
  | authorize
  /-- A try, with the answer of the server or the network. -/
  | send (answer : Except Error Unit)
  | authorizeRow (d : Drainer)
  | sendRow (d : Drainer) (answer : Except Error Unit)

/-- The message is tried again after `n` tries, the last of which had this answer. -/
def triesAgain (n : Nat) : Except Error Unit → Bool
  | .ok _ => false
  | .error e => e.code ≠ .authFailed && decide (n < Constants.TELEGRAM_MAX_RETRIES)

def setTries (s : State) (d : Drainer) (tries : Option Nat) : State :=
  { s with rowTries := Function.update s.rowTries d tries }

/-- The deliveries of `DeliveryWorkers` are taken apart here. -/
def step (s : State) : Action → Option State
  | .base .deliver | .base (.deliverRow _) => none
  | .base a => (DeliveryWorkers.step s.base a).map fun base => { s with base }
  | .authorize =>
    match s.base.worker, s.tries with
    | .claimed item, none =>
      if (DeliveryWorkers.authorize s.base item).allowed then some { s with tries := some 0 }
      else some { s with base := { s.base with worker := .rejected item } }
    | _, _ => none
  | .send answer =>
    match s.base.worker, s.tries with
    | .claimed item, some n =>
      let base := { s.base with signalsSent := s.base.signalsSent ++ [item.signal] }
      if triesAgain (n + 1) answer then some { s with base, tries := some (n + 1) }
      else some { s with
        base := { base with worker := if answer.isOk then .sent item else .rejected item }
        tries := none }
    | _, _ => none
  | .authorizeRow d =>
    match s.base.batches d, s.rowTries d with
    | ⟨row :: rest, none⟩, none =>
      if (DeliveryWorkers.authorizeRow s.base row).allowed then some (setTries s d (some 0))
      else some { s with
        base := setBatch s.base d ⟨row :: rest, some (.error (DeliveryWorkers.authorizeRow s.base row).reason)⟩ }
    | _, _ => none
  | .sendRow d answer =>
    match s.base.batches d, s.rowTries d with
    | ⟨row :: rest, none⟩, some n =>
      let base := { s.base with rowsSent := s.base.rowsSent ++ [row.dedupeKey] }
      if triesAgain (n + 1) answer then some (setTries { s with base } d (some (n + 1)))
      else some (setTries { s with base := setBatch base d ⟨row :: rest, some (answer.mapError (·.message))⟩ } d none)
    | _, _ => none

/-! ### Inversion -/

variable {s t : State} {d : Drainer} {answer : Except Error Unit}

theorem base_inv {a : DeliveryWorkers.Action} (hs : step s (.base a) = some t) :
    ∃ base, a ≠ .deliver ∧ (∀ d, a ≠ .deliverRow d) ∧ DeliveryWorkers.step s.base a = some base ∧ t = { s with base } := by
  cases a with
  | deliver => cases hs
  | deliverRow => cases hs
  | _ =>
    simp only [step, Option.map_eq_some_iff] at hs
    obtain ⟨base, hbase, rfl⟩ := hs
    exact ⟨base, nofun, nofun, hbase, rfl⟩

theorem authorize_inv (hs : step s .authorize = some t) :
    ∃ item, s.base.worker = .claimed item ∧ s.tries = none ∧
      (((DeliveryWorkers.authorize s.base item).allowed = true ∧ t = { s with tries := some 0 }) ∨
        ((DeliveryWorkers.authorize s.base item).allowed = false ∧
          t = { s with base := { s.base with worker := .rejected item } })) := by
  simp only [step] at hs
  split at hs
  · rename_i item hw htries
    refine ⟨item, hw, htries, ?_⟩
    split at hs <;> rename_i ha
    · exact Or.inl ⟨ha, (Option.some.inj hs).symm⟩
    · exact Or.inr ⟨by simpa using ha, (Option.some.inj hs).symm⟩
  · cases hs

theorem send_inv (hs : step s (.send answer) = some t) :
    ∃ item n, s.base.worker = .claimed item ∧ s.tries = some n ∧ t.rowTries = s.rowTries ∧
      t.base.signalsSent = s.base.signalsSent ++ [item.signal] ∧
      ((triesAgain (n + 1) answer = true ∧ t.tries = some (n + 1) ∧ t.base.worker = .claimed item) ∨
        (triesAgain (n + 1) answer = false ∧ t.tries = none ∧
          t.base.worker = if answer.isOk then .sent item else .rejected item)) := by
  simp only [step] at hs
  split at hs
  · rename_i item n hw htries
    refine ⟨item, n, hw, htries, ?_⟩
    split at hs <;> rename_i ha <;> cases hs
    · exact ⟨rfl, rfl, Or.inl ⟨ha, rfl, hw⟩⟩
    · exact ⟨rfl, rfl, Or.inr ⟨by simpa using ha, rfl, rfl⟩⟩
  · cases hs

theorem authorizeRow_inv (hs : step s (.authorizeRow d) = some t) :
    ∃ row rest, s.base.batches d = ⟨row :: rest, none⟩ ∧ s.rowTries d = none ∧
      (((DeliveryWorkers.authorizeRow s.base row).allowed = true ∧ t = setTries s d (some 0)) ∨
        ((DeliveryWorkers.authorizeRow s.base row).allowed = false ∧ t = { s with
          base := setBatch s.base d ⟨row :: rest, some (.error (DeliveryWorkers.authorizeRow s.base row).reason)⟩ })) := by
  simp only [step] at hs
  split at hs
  · rename_i row rest hb htries
    refine ⟨row, rest, hb, htries, ?_⟩
    split at hs <;> rename_i ha
    · exact Or.inl ⟨ha, (Option.some.inj hs).symm⟩
    · exact Or.inr ⟨by simpa using ha, (Option.some.inj hs).symm⟩
  · cases hs

theorem sendRow_inv (hs : step s (.sendRow d answer) = some t) :
    ∃ n tries, s.rowTries d = some n ∧ t.rowTries = Function.update s.rowTries d tries ∧ t.tries = s.tries := by
  simp only [step] at hs
  split at hs
  · rename_i row rest n hb htries
    split at hs <;> cases hs
    · exact ⟨n, some (n + 1), htries, rfl, rfl⟩
    · exact ⟨n, none, htries, rfl, rfl⟩
  · cases hs

/-- A delivery of `DeliveryWorkers` is an authorization that is followed at once, where it allows, by a try that succeeds. -/
theorem deliver_eq_authorize_send (htries : s.tries = none) {base : DeliveryWorkers.State}
    (hs : DeliveryWorkers.step s.base .deliver = some base) :
    step s .authorize = some { s with base } ∨
      (step s .authorize).bind (step · (.send (.ok ()))) = some { s with base } := by
  obtain ⟨item, hw, ⟨ha, rfl⟩ | ⟨ha, rfl⟩⟩ := DeliveryWorkers.deliver_inv hs
  · refine Or.inr ?_
    simp only [step, hw, htries, ha, if_true, Option.bind_some, triesAgain]
    rfl
  · refine Or.inl ?_
    simp only [step, hw, htries, ha, Bool.false_eq_true, if_false]

/-- Likewise that of a row. -/
theorem deliverRow_eq_authorize_send (htries : s.rowTries d = none) {base : DeliveryWorkers.State}
    (hs : DeliveryWorkers.step s.base (.deliverRow d) = some base) :
    step s (.authorizeRow d) = some { s with base } ∨
      (step s (.authorizeRow d)).bind (step · (.sendRow d (.ok ()))) = some { s with base } := by
  obtain ⟨row, rest, hb, ⟨ha, rfl⟩ | ⟨ha, rfl⟩⟩ := DeliveryWorkers.deliverRow_inv hs
  · have hself : Function.update (Function.update s.rowTries d (some 0)) d none = s.rowTries := by
      rw [Function.update_idem, Function.update_eq_self_iff]
      exact htries.symm
    refine Or.inr ?_
    simp only [step, hb, htries, ha, if_true, Option.bind_some, setTries, Function.update_self, triesAgain,
      Bool.false_eq_true, if_false, hself]
    rfl
  · refine Or.inl ?_
    simp only [step, hb, htries, ha, Bool.false_eq_true, if_false]

end SendingWorkers
end CrashCore
