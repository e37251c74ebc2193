import CrashCore.Application.Instances
import Mathlib.Tactic.Common

/-! When an instance publishes and sends only with authority. The handlers and the workers never ask for it, so it
has to be there whenever their threads run: from the acquisition in `start` to the release in `stop`. -/

namespace CrashCore
namespace Instances
open DeliveryWorkers Transition

variable {cfg : String → LiveSupervisor.Config} {s t : State} {w x : String} {i : Instance} {ok : Bool}
  {lease : LiveSupervisor.State}

def OnlyHolderActs (s : State) : Prop := ∀ a ∈ s.acts, a.hadAuthority = true

/-! ### The condition -/

/-- A message comes up for delivery that the temporal guard allows. -/
def ComesUp (u : DeliveryWorkers.State) : SendingWorkers.Action → Prop
  | .authorize =>
    match u.worker with
    | .claimed item => (authorize u item).allowed = true
    | _ => False
  | .authorizeRow d =>
    match u.batches d with
    | ⟨row :: _, none⟩ => (authorizeRow u row).allowed = true
    | _ => False
  | _ => False

/-- A delivery worker is trying to send a message: it has been allowed, and no try has settled it. -/
def Sending (d : SendingWorkers.State) : Prop := d.tries ≠ none ∨ d.rowTries .loop ≠ none

instance : DecidablePred Sending := fun _ => inferInstanceAs (Decidable (_ ∨ _))

/-- * The upsert of the acquisition in `start` succeeds.
    * The statements of a renewal succeed, and the row still names the instance.
    * At the release in `stop` no delivery worker is trying to send a message.
    * Between it and the end of the delivery workers no message comes up that the guard allows. -/
def Guarded (s : State) : Action → Prop
  | .upsert w ok => (s.inst w).main = .startAcquiring → ok = true
  | .update _ ok => ok = true
  | .verify w ok => ok = true ∧ LeaseRow.Owns s.lease.row w
  | .delete w _ => (s.inst w).main = .releasing → ¬Sending (s.inst w).delivery
  | .delivery w a => (s.inst w).main = .stopping → ¬ComesUp (connect s (s.inst w)).base a
  | _ => True

instance (u : DeliveryWorkers.State) : DecidablePred (ComesUp u)
  | .authorize =>
    match h : u.worker with
    | .claimed item => decidable_of_iff ((authorize u item).allowed = true) (by simp only [ComesUp, h])
    | .waiting => .isFalse (by simp only [ComesUp, h, not_false_eq_true])
    | .sent _ => .isFalse (by simp only [ComesUp, h, not_false_eq_true])
    | .rejected _ => .isFalse (by simp only [ComesUp, h, not_false_eq_true])
  | .authorizeRow d =>
    match h : u.batches d with
    | ⟨row :: _, none⟩ => decidable_of_iff ((authorizeRow u row).allowed = true) (by simp only [ComesUp, h])
    | ⟨[], _⟩ => .isFalse (by simp only [ComesUp, h, not_false_eq_true])
    | ⟨_ :: _, some _⟩ => .isFalse (by simp only [ComesUp, h, not_false_eq_true])
  | .base _ | .send _ | .sendRow .. => .isFalse id

instance (s : State) : DecidablePred (Guarded s)
  | .upsert w ok => inferInstanceAs (Decidable ((s.inst w).main = .startAcquiring → ok = true))
  | .update _ ok => inferInstanceAs (Decidable (ok = true))
  | .verify w ok => inferInstanceAs (Decidable (ok = true ∧ LeaseRow.Owns s.lease.row w))
  | .delete w _ => inferInstanceAs (Decidable ((s.inst w).main = .releasing → ¬Sending (s.inst w).delivery))
  | .delivery w a => inferInstanceAs (Decidable ((s.inst w).main = .stopping → ¬ComesUp (connect s (s.inst w)).base a))
  | .advance _ | .acquire _ | .readBack .. | .renew _ | .startPollWorker _ | .startOutboxWorker _ => .isTrue trivial
  | .startNotificationWorker _ | .started _ | .stop _ | .stopPollWorker _ | .stopRenewLoop _ => .isTrue trivial
  | .release _ | .stopNotificationWorker _ | .stopOutboxWorker _ => .isTrue trivial

/-! ### What publishes and what sends -/

theorem markFailed_published (o : Outbox) (item : OutboxItem) (error : String) :
    (o.markFailed item error).1.published = o.published := by
  unfold Outbox.markFailed
  dsimp only
  split <;> rfl

/-- Of what the workers do besides the deliveries, only a publication is an act. -/
theorem acted_base {u v : DeliveryWorkers.State} {a : DeliveryWorkers.Action} (hs : DeliveryWorkers.step u a = some v)
    (hdeliver : a ≠ .deliver) (hdeliverRow : ∀ d, a ≠ .deliverRow d) (hacted : Acted u v) :
    (∃ pev f, a = .persist pev f) ∨ ∃ signal, a = .publish signal := by
  have quiet : v.handoff.outbox.published = u.handoff.outbox.published → v.persisted = u.persisted →
      v.signalsSent = u.signalsSent → v.rowsSent = u.rowsSent → False := fun h₁ h₂ h₃ h₄ => hacted ⟨h₁, h₂, h₃, h₄⟩
  cases a with
  | persist pev f => exact Or.inl ⟨pev, f, rfl⟩
  | publish signal => exact Or.inr ⟨signal, rfl⟩
  | claim =>
    obtain ⟨-, rfl | ⟨item, outbox, hc, rfl⟩⟩ := claim_inv hs
    · exact (quiet rfl rfl rfl rfl).elim
    · obtain ⟨⟨head, q⟩, -, heq⟩ := Option.map_eq_some_iff.mp hc
      cases heq
      exact (quiet rfl rfl rfl rfl).elim
  | deliver => exact absurd rfl hdeliver
  | complete =>
    obtain ⟨item, ⟨-, rfl⟩ | ⟨-, rfl⟩⟩ := complete_inv hs
    · exact (quiet rfl rfl rfl rfl).elim
    · exact (quiet (markFailed_published _ _ _) rfl rfl rfl).elim
  | deliverRow d => exact absurd rfl (hdeliverRow d)
  | _ =>
    have h := step_local hs trivial
    exact (quiet (by rw [h.handoff]) h.persisted h.signalsSent h.rowsSent).elim

/-- A try of a message that is being sent. -/
def Tries (u : SendingWorkers.State) : SendingWorkers.Action → Prop
  | .send _ => u.tries ≠ none
  | .sendRow d _ => u.rowTries d ≠ none
  | _ => False

/-- Only a publication or a try is an act. -/
theorem acted_cases {u v : SendingWorkers.State} {a : SendingWorkers.Action} (hs : SendingWorkers.step u a = some v)
    (hacted : Acted u.base v.base) :
    (∃ pev f, a = .base (.persist pev f)) ∨ (∃ signal, a = .base (.publish signal)) ∨ Tries u a := by
  cases a with
  | base a =>
    obtain ⟨base, hdeliver, hdeliverRow, hbase, rfl⟩ := SendingWorkers.base_inv hs
    rcases acted_base hbase hdeliver hdeliverRow hacted with ⟨pev, f, rfl⟩ | ⟨signal, rfl⟩
    · exact Or.inl ⟨pev, f, rfl⟩
    · exact Or.inr (Or.inl ⟨signal, rfl⟩)
  | authorize =>
    obtain ⟨item, -, -, ⟨-, rfl⟩ | ⟨-, rfl⟩⟩ := SendingWorkers.authorize_inv hs <;> exact absurd ⟨rfl, rfl, rfl, rfl⟩ hacted
  | authorizeRow d =>
    obtain ⟨row, rest, -, -, ⟨-, rfl⟩ | ⟨-, rfl⟩⟩ := SendingWorkers.authorizeRow_inv hs <;>
      exact absurd ⟨rfl, rfl, rfl, rfl⟩ hacted
  | send answer =>
    obtain ⟨item, n, -, htries, -⟩ := SendingWorkers.send_inv hs
    refine Or.inr (Or.inr ?_)
    rw [Tries, htries]
    exact Option.some_ne_none n
  | sendRow d answer =>
    obtain ⟨n, tries, htries, -⟩ := SendingWorkers.sendRow_inv hs
    refine Or.inr (Or.inr ?_)
    rw [Tries, htries]
    exact Option.some_ne_none n

/-- A step begins to send only a message that comes up and is allowed. -/
theorem sending_cases {u v : SendingWorkers.State} {a : SendingWorkers.Action} (hs : SendingWorkers.step u a = some v)
    (hsending : Sending v) : Sending u ∨ ComesUp u.base a := by
  cases a with
  | base a =>
    obtain ⟨base, -, -, -, rfl⟩ := SendingWorkers.base_inv hs
    exact Or.inl hsending
  | authorize =>
    obtain ⟨item, hw, -, ⟨ha, rfl⟩ | ⟨-, rfl⟩⟩ := SendingWorkers.authorize_inv hs
    · refine Or.inr ?_
      simp only [ComesUp, hw]
      exact ha
    · exact Or.inl hsending
  | authorizeRow d =>
    obtain ⟨row, rest, hb, -, ⟨ha, rfl⟩ | ⟨-, rfl⟩⟩ := SendingWorkers.authorizeRow_inv hs
    · refine Or.inr ?_
      simp only [ComesUp, hb]
      exact ha
    · exact Or.inl hsending
  | send answer =>
    obtain ⟨item, n, -, htries, -⟩ := SendingWorkers.send_inv hs
    refine Or.inl (Or.inl ?_)
    rw [htries]
    exact Option.some_ne_none n
  | sendRow d answer =>
    obtain ⟨n, tries, htries, hrows, hsame⟩ := SendingWorkers.sendRow_inv hs
    refine Or.inl (hsending.imp (fun h => hsame ▸ h) fun h => ?_)
    rw [hrows] at h
    by_cases hd : d = .loop
    · rw [← hd, htries]
      exact Option.some_ne_none n
    · rwa [Function.update_of_ne (Ne.symm hd)] at h

/-! ### The invariant -/

/-- From the acquisition in `start` to the release in `stop`. -/
def Main.holding : Main → Bool
  | .starting | .running | .draining | .shuttingDown | .releasing => true
  | _ => false

/-- The poll worker may run. -/
def Main.polling : Main → Bool
  | .initialized | .startAcquiring | .starting | .running | .draining => true
  | _ => false

/-- `LiveBoot` has not acquired yet. -/
def Main.booting : Main → Bool
  | .created | .bootAcquiring => true
  | _ => false

structure Instance.Inv (i : Instance) (authority : Bool) : Prop where
  holding : i.main.holding = true → authority = true
  booting : i.main.booting = true → i.booted = false
  booted : i.main = .initialized → i.booted = true → authority = true
  polling : i.pollWorker = true → i.main.polling = true ∧ authority = true
  outbox : i.outboxWorker = true → i.main.holding = true ∨ i.main = .stopping
  notification : i.notificationWorker = true → i.main.holding = true ∨ i.main = .stopping
  silent : i.main = .stopping → ¬Sending i.delivery

section
variable {authority : Bool}

theorem Instance.Inv.no_pollWorker (h : i.Inv authority) (hm : i.main.polling = false) : ¬i.pollWorker = true :=
  fun hp => Bool.false_ne_true (hm.symm.trans (h.polling hp).1)

/-- At these positions no delivery worker runs. -/
theorem Instance.Inv.no_workers (h : i.Inv authority) (hm : i.main.holding = false) (hstop : i.main ≠ .stopping) :
    ¬i.outboxWorker = true ∧ ¬i.notificationWorker = true := by
  have hnot : ¬(i.main.holding = true ∨ i.main = .stopping) := by
    rw [hm]
    exact not_or_intro Bool.false_ne_true hstop
  exact ⟨fun ho => hnot (h.outbox ho), fun hn => hnot (h.notification hn)⟩

end

structure Inv (s : State) : Prop where
  inst : ∀ w, (s.inst w).Inv (hasAuthority s w)
  acts : OnlyHolderActs s

@[simp] theorem setInst_self : (setInst s w i).inst w = i := Function.update_self ..

theorem setInst_other (h : x ≠ w) : (setInst s w i).inst x = s.inst x := Function.update_of_ne h ..

/-- A step of one instance that logs nothing. -/
theorem Inv.setInst (h : Inv s) {t : State} (hother : ∀ x, x ≠ w → t.inst x = s.inst x ∧ hasAuthority t x = hasAuthority s x)
    (hself : (t.inst w).Inv (hasAuthority t w)) (hacts : t.acts = s.acts) : Inv t := by
  refine ⟨fun x => ?_, ?_⟩
  · by_cases hx : x = w
    · rw [hx]
      exact hself
    · obtain ⟨hinst, hauth⟩ := hother x hx
      rw [hinst, hauth]
      exact h.inst x
  · rw [OnlyHolderActs, hacts]
    exact h.acts

/-- A step of the main thread that the supervisor has no part in. -/
theorem Inv.local_ (h : Inv s) (hi : i.Inv (hasAuthority s w)) : Inv (Instances.setInst s w i) := by
  refine h.setInst (fun x hx => ⟨setInst_other hx, rfl⟩) ?_ rfl
  rw [setInst_self]
  exact hi

theorem supervise_inv {a : LiveSupervisor.Action} (hs : supervise cfg s a w i = some t) :
    ∃ lease, LiveSupervisor.step cfg s.lease a = some lease ∧ t = setInst { s with lease } w i := by
  obtain ⟨lease, hl, rfl⟩ := Option.map_eq_some_iff.mp hs
  exact ⟨lease, hl, rfl⟩

/-- A step of the supervisor of `w`, after which its instance is `i`. -/
theorem Inv.supervise (h : Inv s) {a : LiveSupervisor.Action} (ha : a.worker? = some w)
    (hs : supervise cfg s a w i = some t)
    (hi : ∀ lease, LiveSupervisor.step cfg s.lease a = some lease → i.Inv (lease.proc w).sup.hasAuthority) : Inv t := by
  obtain ⟨lease, hl, rfl⟩ := supervise_inv hs
  refine h.setInst (w := w) (fun x hx => ⟨setInst_other hx, ?_⟩) ?_ rfl
  · have hsame := LiveSupervisor.step_other (x := x) (fun heq => hx (Option.some.inj (heq.symm.trans ha))) hl
    exact congrArg (fun p => p.sup.hasAuthority) hsame
  · rw [setInst_self]
    exact hi lease hl

/-! ### The steps of the main thread -/

/-- The main thread goes on with the same authority and the same threads. -/
theorem Instance.Inv.goto {a : Bool} {m : Main} (h : i.Inv a) (hhold : m.holding = true → i.main.holding = true)
    (hboot : m.booting = true → i.main.booting = true) (hinit : m ≠ .initialized) (hstop : m ≠ .stopping)
    (hpoll : i.main.polling = true → m.polling = true ∨ i.pollWorker = false)
    (hworkers : i.main.holding = true ∨ i.main = .stopping → m.holding = true ∨ m = .stopping ∨
      (i.outboxWorker = false ∧ i.notificationWorker = false)) : Instance.Inv { i with main := m } a := by
  refine ⟨fun hm => h.holding (hhold hm), fun hm => h.booting (hboot hm), fun hm => absurd hm hinit, fun hp => ?_,
    fun ho => ?_, fun hn => ?_, fun hm => absurd hm hstop⟩
  · obtain ⟨hmain, hauth⟩ := h.polling hp
    rcases hpoll hmain with hm | hf
    · exact ⟨hm, hauth⟩
    · exact absurd (hf.symm.trans hp) Bool.false_ne_true
  · rcases hworkers (h.outbox ho) with hm | hm | hf
    · exact Or.inl hm
    · exact Or.inr hm
    · exact absurd (hf.1.symm.trans ho) Bool.false_ne_true
  · rcases hworkers (h.notification hn) with hm | hm | hf
    · exact Or.inl hm
    · exact Or.inr hm
    · exact absurd (hf.2.symm.trans hn) Bool.false_ne_true

theorem acquire_keeps (h : Inv s) (hs : step cfg s (.acquire w) = some t) : Inv t := by
  simp only [step] at hs
  have hauth : ∀ lease, LiveSupervisor.step cfg s.lease (.acquire w) = some lease →
      (lease.proc w).sup.hasAuthority = hasAuthority s w := by
    intro lease hl
    obtain ⟨-, rfl⟩ := LiveSupervisor.acquire_inv hl
    rw [LiveSupervisor.setProc_self]
    rfl
  split at hs
  · rename_i hm
    refine h.supervise rfl hs fun lease hl => ?_
    rw [hauth lease hl]
    exact (h.inst w).goto nofun (by rw [hm]; exact id) nofun nofun (by rw [hm]; nofun) (by rw [hm]; nofun)
  · rename_i hm
    refine h.supervise rfl hs fun lease hl => ?_
    rw [hauth lease hl]
    refine (h.inst w).goto nofun nofun nofun nofun (fun _ => Or.inl rfl) ?_
    rw [hm]
    nofun
  · cases hs

theorem upsert_keeps (h : Inv s) (hok : Guarded s (.upsert w ok)) (hs : step cfg s (.upsert w ok) = some t) : Inv t := by
  simp only [step] at hs
  cases ok with
  | true =>
    have hauth : ∀ lease, LiveSupervisor.step cfg s.lease (.upsert w true) = some lease →
        (lease.proc w).sup.hasAuthority = hasAuthority s w := by
      intro lease hl
      obtain ⟨now, -, ⟨-, rfl⟩ | ⟨hf, -⟩⟩ := LiveSupervisor.upsert_inv hl
      · rw [LiveSupervisor.afterUpsert, LiveSupervisor.setProc_self]
        rfl
      · cases hf
    split at hs
    · refine h.supervise rfl hs fun lease hl => ?_
      rw [hauth lease hl]
      exact h.inst w
    · refine h.supervise rfl hs fun lease hl => ?_
      rw [hauth lease hl]
      exact h.inst w
    · cases hs
  | false =>
    split at hs
    · -- The boot is incomplete: nothing runs, and nothing is booted.
      rename_i hm
      refine h.supervise rfl hs fun lease hl => ?_
      have hi := h.inst w
      have hbooted : (s.inst w).booted = false := hi.booting (by rw [hm]; rfl)
      have hpoll := hi.no_pollWorker (by rw [hm]; rfl)
      obtain ⟨houtbox, hnotification⟩ := hi.no_workers (by rw [hm]; rfl) (by rw [hm]; nofun)
      exact ⟨nofun, nofun, fun _ hb => absurd (hbooted.symm.trans hb) Bool.false_ne_true, fun hp => absurd hp hpoll,
        fun ho => absurd ho houtbox, fun hn => absurd hn hnotification, nofun⟩
    · rename_i hm
      cases hok hm
    · cases hs

theorem readBack_keeps (h : Inv s) (hs : step cfg s (.readBack w ok) = some t) : Inv t := by
  simp only [step] at hs
  have hauth : ∀ lease, LiveSupervisor.step cfg s.lease (.readBack w ok) = some lease →
      (lease.proc w).sup.hasAuthority = true := by
    intro lease hl
    obtain ⟨now, -, rfl⟩ := LiveSupervisor.readBack_inv hl
    rw [LiveSupervisor.afterReadBack, LiveSupervisor.setProc_self]
    rfl
  have hi := h.inst w
  split at hs
  · rename_i hm
    refine h.supervise rfl hs fun lease hl => ?_
    rw [hauth lease hl]
    obtain ⟨houtbox, hnotification⟩ := hi.no_workers (by rw [hm]; rfl) (by rw [hm]; nofun)
    exact ⟨fun _ => rfl, nofun, fun _ _ => rfl, fun _ => ⟨rfl, rfl⟩, fun ho => absurd ho houtbox,
      fun hn => absurd hn hnotification, nofun⟩
  · refine h.supervise rfl hs fun lease hl => ?_
    rw [hauth lease hl]
    exact ⟨fun _ => rfl, nofun, nofun, fun _ => ⟨rfl, rfl⟩, fun _ => Or.inl rfl, fun _ => Or.inl rfl, nofun⟩
  · cases hs

theorem release_keeps (h : Inv s) (hs : step cfg s (.release w) = some t) : Inv t := by
  simp only [step] at hs
  have hauth : ∀ lease, LiveSupervisor.step cfg s.lease (.release w) = some lease →
      (lease.proc w).sup.hasAuthority = hasAuthority s w := by
    intro lease hl
    obtain rfl := LiveSupervisor.release_inv hl
    rw [LiveSupervisor.setProc_self]
    rfl
  split at hs
  · rename_i hm
    split at hs
    · cases hs
    refine h.supervise rfl hs fun lease hl => ?_
    rw [hauth lease hl]
    exact (h.inst w).goto (by rw [hm]; exact fun _ => rfl) nofun nofun nofun (by rw [hm]; nofun) fun _ => Or.inl rfl
  · rename_i hm
    split at hs
    · cases hs
    rename_i hw
    rw [Bool.or_eq_true, not_or, Bool.not_eq_true, Bool.not_eq_true] at hw
    refine h.supervise rfl hs fun lease hl => ?_
    rw [hauth lease hl]
    exact (h.inst w).goto nofun nofun nofun nofun (by rw [hm]; nofun) fun _ => Or.inr (Or.inr hw)
  · cases hs

/-- The release takes the authority away; of the threads only the delivery workers are left, and they are sending nothing. -/
theorem delete_keeps (h : Inv s) (hok : Guarded s (.delete w ok)) (hs : step cfg s (.delete w ok) = some t) : Inv t := by
  simp only [step] at hs
  have hi := h.inst w
  split at hs <;> rename_i hm
  · have hpoll := hi.no_pollWorker (by rw [hm]; rfl)
    exact h.supervise rfl hs fun _ _ =>
      ⟨nofun, nofun, nofun, fun hp => absurd hp hpoll, fun _ => Or.inr rfl, fun _ => Or.inr rfl, fun _ => hok hm⟩
  · have hpoll := hi.no_pollWorker (by rw [hm]; rfl)
    obtain ⟨houtbox, hnotification⟩ := hi.no_workers (by rw [hm]; rfl) (by rw [hm]; nofun)
    exact h.supervise rfl hs fun _ _ => ⟨nofun, nofun, nofun, fun hp => absurd hp hpoll,
      fun ho => absurd ho houtbox, fun hn => absurd hn hnotification, nofun⟩
  · cases hs

/-! ### The renew loop -/

theorem renewal_keeps (h : Inv s) {a : LiveSupervisor.Action} (ha : a.worker? = some w)
    (hs : supervise cfg s a w (s.inst w) = some t)
    (hauth : ∀ lease, LiveSupervisor.step cfg s.lease a = some lease →
      (lease.proc w).sup.hasAuthority = hasAuthority s w) : Inv t := by
  refine h.supervise ha hs fun lease hl => ?_
  rw [hauth lease hl]
  exact h.inst w

theorem renew_authority (hl : LiveSupervisor.step cfg s.lease (.renew w) = some lease) :
    (lease.proc w).sup.hasAuthority = hasAuthority s w := by
  obtain ⟨-, rfl⟩ := LiveSupervisor.renew_inv hl
  rw [LiveSupervisor.setProc_self]
  rfl

theorem update_authority (hl : LiveSupervisor.step cfg s.lease (.update w true) = some lease) :
    (lease.proc w).sup.hasAuthority = hasAuthority s w := by
  obtain ⟨now, epoch, -, ⟨-, rfl⟩ | ⟨hf, -⟩⟩ := LiveSupervisor.update_inv hl
  · rw [LiveSupervisor.afterUpdate, LiveSupervisor.setProc_self]
    rfl
  · cases hf

theorem verify_authority (hown : LeaseRow.Owns s.lease.row w)
    (hl : LiveSupervisor.step cfg s.lease (.verify w true) = some lease) :
    (lease.proc w).sup.hasAuthority = hasAuthority s w := by
  obtain ⟨now, r, rfl⟩ := LiveSupervisor.verify_owned hown hl
  rw [LiveSupervisor.afterVerify, LiveSupervisor.setProc_self]
  rfl

/-! ### The acts -/

/-- Whatever publishes or sends has authority: a delivery worker that is trying to send is one before the release. -/
theorem authority_of_act (h : Inv s) {a : SendingWorkers.Action} {d : SendingWorkers.State}
    (hrun : mayRun (s.inst w) a = true) (hs : SendingWorkers.step (connect s (s.inst w)) a = some d)
    (hacted : Acted (connect s (s.inst w)).base d.base) : hasAuthority s w = true := by
  have hi := h.inst w
  have publishes : ((s.inst w).pollWorker || (s.inst w).main = .running || (s.inst w).main = .draining) = true →
      hasAuthority s w = true := by
    intro hp
    rw [Bool.or_eq_true, Bool.or_eq_true, decide_eq_true_eq, decide_eq_true_eq] at hp
    rcases hp with (hp | hm) | hm
    · exact (hi.polling hp).2
    · exact hi.holding (by rw [hm]; rfl)
    · exact hi.holding (by rw [hm]; rfl)
  rcases acted_cases hs hacted with ⟨pev, f, rfl⟩ | ⟨signal, rfl⟩ | htries
  · exact publishes hrun
  · exact publishes hrun
  · cases a with
    | send answer =>
      have hnot : (s.inst w).main ≠ .stopping := fun hm => hi.silent hm (Or.inl htries)
      exact hi.holding ((hi.outbox hrun).resolve_right hnot)
    | sendRow d answer =>
      cases d with
      | loop =>
        have hnot : (s.inst w).main ≠ .stopping := fun hm => hi.silent hm (Or.inr htries)
        exact hi.holding ((hi.notification hrun).resolve_right hnot)
      | stop =>
        have hm : (s.inst w).main = .draining := of_decide_eq_true hrun
        exact hi.holding (by rw [hm]; rfl)
    | _ => exact htries.elim

theorem delivery_keeps (h : Inv s) {a : SendingWorkers.Action} (hok : Guarded s (.delivery w a))
    (hs : step cfg s (.delivery w a) = some t) : Inv t := by
  simp only [step] at hs
  split at hs
  · rename_i hrun
    obtain ⟨d, hd, rfl⟩ := Option.map_eq_some_iff.mp hs
    have hinst : ∀ x, ((afterDelivery s w d).inst x).Inv (hasAuthority s x) := by
      intro x
      by_cases hx : x = w
      · subst hx
        show Instance.Inv (Function.update s.inst x { s.inst x with delivery := d } x) _
        rw [Function.update_self]
        have hi := h.inst x
        refine ⟨hi.holding, hi.booting, hi.booted, hi.polling, hi.outbox, hi.notification, fun hm hsending => ?_⟩
        rcases sending_cases hd hsending with hbefore | hup
        · exact hi.silent hm hbefore
        · exact hok hm hup
      · show Instance.Inv (Function.update s.inst w { s.inst w with delivery := d } x) _
        rw [Function.update_of_ne hx]
        exact h.inst x
    refine ⟨hinst, fun b hb => ?_⟩
    have hb : b ∈ if Acted (connect s (s.inst w)).base d.base then s.acts ++ [⟨w, hasAuthority s w⟩] else s.acts := hb
    split at hb
    · rename_i hacted
      rcases List.mem_append.mp hb with hb | hb
      · exact h.acts b hb
      · rw [List.mem_singleton.mp hb]
        exact authority_of_act h hrun hd hacted
    · exact h.acts b hb
  · cases hs

/-! ### One step -/

theorem advance_keeps (h : Inv s) {ms : Nat} (hs : step cfg s (.advance ms) = some t) : Inv t := by
  cases hs
  exact ⟨h.inst, h.acts⟩

theorem step_inv (h : Inv s) {a : Action} (hok : Guarded s a) (hs : step cfg s a = some t) : Inv t := by
  cases a with
  | advance ms => exact advance_keeps h hs
  | acquire w => exact acquire_keeps h hs
  | upsert w ok => exact upsert_keeps h hok hs
  | readBack w ok => exact readBack_keeps h hs
  | renew w =>
    simp only [step] at hs
    split at hs
    · exact renewal_keeps h rfl hs fun _ hl => renew_authority hl
    · cases hs
  | update w ok =>
    obtain rfl : ok = true := hok
    exact renewal_keeps h rfl hs fun _ hl => update_authority hl
  | verify w ok =>
    obtain ⟨rfl, hown⟩ := hok
    exact renewal_keeps h rfl hs fun _ hl => verify_authority hown hl
  | release w => exact release_keeps h hs
  | delete w ok => exact delete_keeps h hok hs
  | delivery w a => exact delivery_keeps h hok hs
  | startPollWorker w =>
    simp only [step] at hs
    split at hs <;> cases hs
    rename_i hm
    have hi := h.inst w
    refine h.local_ ⟨hi.holding, hi.booting, hi.booted, fun _ => ?_, hi.outbox, hi.notification, hi.silent⟩
    rcases hm with ⟨hm, hb⟩ | hm
    · exact ⟨by rw [hm]; rfl, hi.booted hm hb⟩
    · exact ⟨by rw [hm]; rfl, hi.holding (by rw [hm]; rfl)⟩
  | startOutboxWorker w =>
    simp only [step] at hs
    split at hs <;> cases hs
    rename_i hm
    have hi := h.inst w
    exact h.local_ ⟨hi.holding, hi.booting, hi.booted, hi.polling, fun _ => Or.inl (by rw [hm]; rfl), hi.notification,
      hi.silent⟩
  | startNotificationWorker w =>
    simp only [step] at hs
    split at hs <;> cases hs
    rename_i hm
    have hi := h.inst w
    exact h.local_ ⟨hi.holding, hi.booting, hi.booted, hi.polling, hi.outbox, fun _ => Or.inl (by rw [hm]; rfl), hi.silent⟩
  | started w =>
    simp only [step] at hs
    split at hs <;> cases hs
    rename_i hm
    exact h.local_ ((h.inst w).goto (fun _ => by rw [hm]; rfl) nofun nofun nofun (fun _ => Or.inl rfl) fun _ => Or.inl rfl)
  | stop w =>
    simp only [step] at hs
    split at hs <;> cases hs
    rename_i hm
    exact h.local_ ((h.inst w).goto (fun _ => by rw [hm]; rfl) nofun nofun nofun (fun _ => Or.inl rfl) fun _ => Or.inl rfl)
  | stopPollWorker w =>
    simp only [step] at hs
    split at hs <;> cases hs
    rename_i hm
    have hi := h.inst w
    exact h.local_ ⟨fun _ => hi.holding (by rw [hm.1]; rfl), nofun, nofun, nofun, fun _ => Or.inl rfl, fun _ => Or.inl rfl,
      nofun⟩
  | stopRenewLoop w =>
    simp only [step] at hs
    split at hs <;> cases hs
    have hi := h.inst w
    exact h.local_ ⟨hi.holding, hi.booting, hi.booted, hi.polling, hi.outbox, hi.notification, hi.silent⟩
  | stopNotificationWorker w =>
    simp only [step] at hs
    split at hs <;> cases hs
    have hi := h.inst w
    exact h.local_ ⟨hi.holding, hi.booting, hi.booted, hi.polling, hi.outbox, nofun, hi.silent⟩
  | stopOutboxWorker w =>
    simp only [step] at hs
    split at hs <;> cases hs
    have hi := h.inst w
    exact h.local_ ⟨hi.holding, hi.booting, hi.booted, hi.polling, nofun, hi.notification, hi.silent⟩

/-! ### Runs -/

theorem inv_initial (row : Option LeaseRow) (tables : Tables) (clock : TimestampMs) (capacity : Nat)
    (deliveryDeadlineMs : Int) :
    Inv (initial row tables clock capacity deliveryDeadlineMs) where
  inst := fun _ => ⟨nofun, fun _ => rfl, nofun, nofun, nofun, nofun, nofun⟩
  acts := nofun

/-- Over all interleavings of any instances on one database: in a run whose steps meet the condition everything
    is published and sent with authority. -/
theorem onlyHolderActs_of_reaches (cfg : String → LiveSupervisor.Config) (row : Option LeaseRow) (tables : Tables)
    (clock : TimestampMs) (capacity : Nat) (deliveryDeadlineMs : Int)
    (hr : Reaches (step cfg) Guarded (initial row tables clock capacity deliveryDeadlineMs) s) : OnlyHolderActs s :=
  (hr.invariant (inv_initial row tables clock capacity deliveryDeadlineMs) fun _ _ _ h hok hs => step_inv h hok hs).acts

/-- `init` and `start` of the instance `a`, without the poll worker. -/
def startUp : List Action :=
  [.acquire "a", .upsert "a" true, .readBack "a" true, .acquire "a", .upsert "a" true, .readBack "a" true,
    .startOutboxWorker "a", .startNotificationWorker "a", .started "a"]

/-- `stop` up to the release. -/
def release : List Action :=
  [.stop "a", .stopPollWorker "a", .stopRenewLoop "a", .release "a", .delete "a" true]

def persistOne : Action :=
  .delivery "a" <| .base (.persist { predictionId := "p1", targetRoundId := "r1", decision := .enter } {})

/-- The signal is sent before the release, at the second try. -/
def sendBeforeRelease : List Action :=
  startUp ++ persistOne :: [.delivery "a" (.base .claim), .delivery "a" .authorize,
    .delivery "a" (.send (.error ⟨.networkError, "HTTP 500"⟩)), .delivery "a" (.send (.ok ()))] ++ release

theorem sendBeforeRelease_onlyHolderActs :
    ∃ s, run (step fun _ => {}) (initial none {} 1 8 5000) sendBeforeRelease = some s ∧ OnlyHolderActs s := by
  obtain ⟨s, hs⟩ := Option.isSome_iff_exists.mp
    (by decide : (run (step fun _ => {}) (initial none {} 1 8 5000) sendBeforeRelease).isSome = true)
  exact ⟨s, hs, onlyHolderActs_of_reaches (fun _ => {}) none {} 1 8 5000 (.of_run (by decide) hs)⟩

/-- The outbox worker finds it after the release, and is still running. -/
def sendAfterRelease : List Action :=
  startUp ++ persistOne :: release ++ [.delivery "a" (.base .claim), .delivery "a" .authorize,
    .delivery "a" (.send (.ok ()))]

theorem sendAfterRelease_not_onlyHolderActs :
    ∃ s, Reaches (step fun _ => {}) anyStep (initial none {} 1 8 5000) s ∧ ¬OnlyHolderActs s := by
  have hacts : (run (step fun _ => {}) (initial none {} 1 8 5000) sendAfterRelease).map (·.acts) =
      some [⟨"a", true⟩, ⟨"a", false⟩] := by decide
  obtain ⟨s, hs, hlog⟩ := Option.map_eq_some_iff.mp hacts
  refine ⟨s, .of_run (meets_anyStep _ _) hs, fun h => ?_⟩
  have hauth := h ⟨"a", false⟩ (by rw [hlog]; exact List.mem_cons_of_mem _ (List.mem_singleton_self _))
  cases hauth

/-- A message that came up before the release is tried again after it. -/
example : (run (step fun _ => {}) (initial none {} 1 8 5000) (startUp ++ persistOne :: [.delivery "a" (.base .claim),
    .delivery "a" .authorize, .delivery "a" (.send (.error ⟨.networkError, "HTTP 500"⟩))] ++ release ++
      [.delivery "a" (.send (.ok ()))])).map (·.acts) = some [⟨"a", true⟩, ⟨"a", true⟩, ⟨"a", false⟩] := by
  decide +kernel

end Instances
end CrashCore
