import CrashCore.Delivery.SharedConnection
import Mathlib.Tactic.Common

/-! Atomicity of `persistPrediction` on a shared connection. It holds as long as no statement of another thread
runs between the BEGIN of a call and its COMMIT or ROLLBACK: the connection has one transaction, and whoever
ends it ends it for all. -/

namespace CrashCore
namespace SharedConnection
open Connection Transition

variable {s t : State} {c : LoggedConnection} {id : Nat} {p : PersistCall} {fault : Fault} {log : List Write}

/-- The statements of the call that were reported successful and are not rolled back by the call itself. -/
def Stage.written : Stage → List Part
  | .claiming => [.prediction]
  | .enqueuing => [.prediction, .targetClaim]
  | .committing | .done (.ok _) => [.prediction, .targetClaim, .notification]
  | _ => []

/-- Every call that reported success has all its rows committed and every call that reported failure none,
    and no statement reported as successful was rolled back by another thread. -/
structure Atomic (s : State) : Prop where
  durable : ∀ id p, s.calls id = some p → p.stage = .done (.ok ()) → ∀ part, .own id part ∈ s.conn.committed.log
  nothing : ∀ id p m, s.calls id = some p → p.stage = .done (.error m) → ∀ part, .own id part ∉ s.conn.committed.log
  kept : ∀ id p, s.calls id = some p → ∀ part ∈ p.stage.written, .own id part ∈ s.conn.visible.log
  others : ∀ n ∈ s.acked, .other n ∈ s.conn.visible.log

/-! ### The condition on a step -/

/-- The next statement of the call is its BEGIN. -/
def begins (s : State) (id : Nat) : Bool :=
  match s.calls id with
  | some { stage := .beginning, .. } => true
  | _ => false

/-- No statement runs inside the transaction of another call, and BEGIN does not fail on an idle connection. -/
def Serial (s : State) : Action → Prop
  | .call .. => True
  | .statement id fault => (∀ x ∈ s.open_, x = id) ∧ (begins s id = true → s.conn.tx = .idle → fault = none)
  | .other .. => s.open_ = []

instance : DecidablePred (Serial s)
  | .call .. => .isTrue trivial
  | .statement id fault => inferInstanceAs (Decidable ((∀ x ∈ s.open_, x = id) ∧
      (begins s id = true → s.conn.tx = .idle → fault = none)))
  | .other .. => inferInstanceAs (Decidable (s.open_ = []))

/-! ### The open transaction -/

/-- The transaction is open, and `log` is what it has written. -/
def Working (c : LoggedConnection) (log : List Write) : Prop :=
  ∃ w, c.tx = .inTx w ∧ w.log = c.committed.log ++ log

/-- The connection as a call finds it between its BEGIN and its end. -/
def InTx (id : Nat) (c : LoggedConnection) : Stage → Prop
  | .inserting => c.tx = .aborted ∨ Working c []
  | .claiming => Working c [.own id .prediction]
  | .enqueuing => Working c [.own id .prediction, .own id .targetClaim]
  | .committing => Working c [.own id .prediction, .own id .targetClaim, .own id .notification]
  | .retrying | .rollingBack _ => c.tx = .aborted
  | .beginning | .done _ => False

def Stage.Resting : Stage → Prop
  | .beginning | .done _ => True
  | _ => False

/-- A statement in the transaction adds its write, or aborts the transaction. -/
theorem exec_working (h : Working c log) (stmt : Statement Tables) (w : Write) (fault : Fault) :
    (∃ c', c.exec (stmt.logged w) fault = (c', .ok ()) ∧ Working c' (log ++ [w]) ∧ c'.committed = c.committed) ∨
    (∃ c' m, c.exec (stmt.logged w) fault = (c', .error m) ∧ c'.tx = .aborted ∧ c'.committed = c.committed) := by
  obtain ⟨d, tx⟩ := c
  obtain ⟨e, rfl, hlog⟩ := h
  rcases ha : attempt (stmt.logged w) fault e with m | e'
  · exact Or.inr ⟨_, m, exec_inTx_error ha, rfl, rfl⟩
  · obtain ⟨-, hok⟩ := attempt_eq_ok.mp ha
    refine Or.inl ⟨_, exec_inTx_ok ha, ⟨e', rfl, ?_⟩, rfl⟩
    rw [Statement.logged_ok hok, hlog, List.append_assoc]

theorem exec_of_aborted (h : c.tx = .aborted) (stmt : Statement (Logged Tables Write)) (fault : Fault) :
    ∃ m, c.exec stmt fault = (c, .error m) := by
  obtain ⟨d, tx⟩ := c
  cases h
  exact ⟨_, rfl⟩

/-- What one statement of a call makes of its transaction: the call goes on in it, has committed all three
    writes, or has ended it without a trace. -/
theorem statement_inTx (h : InTx id c p.stage) (fault : Fault) :
    (InTx id (statement c id p fault).1 (statement c id p fault).2 ∧
      (statement c id p fault).1.committed = c.committed ∧ stillOpen [id] id p.stage = [id]) ∨
    ((statement c id p fault).2 = .done (.ok ()) ∧ (statement c id p fault).1.Closed ∧
      (statement c id p fault).1.committed.log =
        c.committed.log ++ [.own id .prediction, .own id .targetClaim, .own id .notification] ∧
      stillOpen [id] id p.stage = []) ∨
    ((∃ m, (statement c id p fault).2 = .done (.error m)) ∧ (statement c id p fault).1.Closed ∧
      (statement c id p fault).1.committed = c.committed ∧ stillOpen [id] id p.stage = []) := by
  obtain ⟨pev, sig, now, stage⟩ := p
  cases stage with
  | beginning => cases h
  | done r => cases h
  | inserting =>
    refine Or.inl ?_
    rcases h with h | h
    · obtain ⟨m, he⟩ := exec_of_aborted h
        ((Tables.insertPrediction (DurablePredictionTx.predictionRow pev now)).logged (.own id .prediction)) fault
      simp only [statement, he]
      exact ⟨h, trivial, rfl⟩
    · rcases exec_working h (Tables.insertPrediction (DurablePredictionTx.predictionRow pev now))
          (.own id .prediction) fault with ⟨c', he, hw, hc⟩ | ⟨c', m, he, ha, hc⟩ <;> simp only [statement, he]
      · exact ⟨hw, hc, rfl⟩
      · exact ⟨ha, hc, rfl⟩
  | claiming =>
    refine Or.inl ?_
    rcases exec_working h (Tables.insertTargetClaim (DurablePredictionTx.targetClaimRow pev now))
        (.own id .targetClaim) fault with ⟨c', he, hw, hc⟩ | ⟨c', m, he, ha, hc⟩ <;> simp only [statement, he]
    · exact ⟨hw, hc, rfl⟩
    · exact ⟨ha, hc, rfl⟩
  | enqueuing =>
    refine Or.inl ?_
    rcases exec_working h (Tables.insertNotification (OutboxRepository.notification
        (DurablePredictionTx.outboxRow pev sig now) pev.targetRoundId now)) (.own id .notification) fault with
      ⟨c', he, hw, hc⟩ | ⟨c', m, he, ha, hc⟩ <;> simp only [statement, he]
    · exact ⟨hw, hc, rfl⟩
    · exact ⟨ha, hc, rfl⟩
  | retrying =>
    obtain ⟨m, he⟩ := exec_of_aborted h ((Tables.insertNotification (OutboxRepository.notification
      (DurablePredictionTx.outboxRow pev sig now) "" now)).logged (.own id .notification)) fault
    simp only [statement, he]
    exact Or.inl ⟨h, trivial, rfl⟩
  | committing =>
    obtain ⟨d, tx⟩ := c
    obtain ⟨w, hw, hlog⟩ := h
    cases hw
    refine Or.inr ?_
    cases fault with
    | none =>
      simp only [statement, commit_inTx]
      exact Or.inl ⟨trivial, closed_idle, hlog, List.erase_cons_head ..⟩
    | some m =>
      simp only [statement, commit_inTx_fault]
      exact Or.inr ⟨⟨_, rfl⟩, closed_aborted, trivial, List.erase_cons_head ..⟩
  | rollingBack m =>
    refine Or.inr (Or.inr ?_)
    simp only [statement]
    exact ⟨⟨m, rfl⟩, rollback_closed, rollback_committed, List.erase_cons_head ..⟩

/-! ### The invariant -/

/-- The call has reported success. -/
def Finished (o : Option PersistCall) : Prop := ∃ p, o = some p ∧ p.stage = .done (.ok ())

structure Inv (s : State) : Prop where
  /-- A call's writes are committed exactly if it has reported success. -/
  settled : ∀ id part, .own id part ∈ s.conn.committed.log ↔ Finished (s.calls id)
  acked : ∀ n ∈ s.acked, .other n ∈ s.conn.committed.log
  tx : (s.open_ = [] ∧ s.conn.Closed ∧ ∀ id p, s.calls id = some p → p.stage.Resting) ∨
    ∃ id p, s.open_ = [id] ∧ s.calls id = some p ∧ InTx id s.conn p.stage ∧
      ∀ id' p', id' ≠ id → s.calls id' = some p' → p'.stage.Resting

theorem inv_initial {conn : Connection Tables} (hc : conn.Closed) : Inv (initial conn) where
  settled := by
    intro id part
    constructor
    · intro h
      exact absurd h List.not_mem_nil
    · rintro ⟨p, hp, -⟩
      cases hp
  acked := fun _ hn => absurd hn List.not_mem_nil
  tx := by
    refine Or.inl ⟨rfl, fun w hw => ?_, fun id p hp => by cases hp⟩
    rcases hc.cases with h | h <;> rw [h] at hw <;> cases hw

/-- A transaction sees everything that was committed before. -/
theorem InTx.visible {stage : Stage} (h : InTx id c stage) :
    (∀ w ∈ c.committed.log, w ∈ c.visible.log) ∧ ∀ part ∈ stage.written, .own id part ∈ c.visible.log := by
  have hworking : ∀ {log : List Write}, Working c log → c.visible.log = c.committed.log ++ log := by
    rintro log ⟨w, hw, hlog⟩
    rw [Connection.visible, hw]
    exact hlog
  have haborted : c.tx = .aborted → c.visible.log = c.committed.log := by
    intro ha
    rw [Connection.visible, ha]
  cases stage with
  | beginning => cases h
  | done r => cases h
  | inserting =>
    rcases h with h | h
    · rw [haborted h]
      exact ⟨fun _ hw => hw, fun _ hp => absurd hp List.not_mem_nil⟩
    · rw [hworking h]
      exact ⟨fun _ hw => List.mem_append_left _ hw, fun _ hp => absurd hp List.not_mem_nil⟩
  | claiming | enqueuing | committing =>
    rw [hworking h]
    exact ⟨fun _ hw => List.mem_append_left _ hw, fun part hp => List.mem_append_right _ (by
      simp only [Stage.written, List.mem_cons, List.not_mem_nil, or_false] at hp ⊢
      simpa using hp)⟩
  | retrying | rollingBack m =>
    rw [haborted h]
    exact ⟨fun _ hw => hw, fun _ hp => absurd hp List.not_mem_nil⟩

theorem Inv.committed_visible (h : Inv s) : ∀ w ∈ s.conn.committed.log, w ∈ s.conn.visible.log := by
  rcases h.tx with ⟨-, hclosed, -⟩ | ⟨id, p, -, -, hin, -⟩
  · rcases hclosed.cases with hc | hc <;> rw [hc] <;> exact fun _ hw => hw
  · exact hin.visible.1

theorem Inv.atomic (h : Inv s) : Atomic s where
  durable := fun id p hp hstage part => (h.settled id part).mpr ⟨p, hp, hstage⟩
  nothing := by
    intro id p m hp hstage part hmem
    obtain ⟨p', hp', hdone⟩ := (h.settled id part).mp hmem
    rw [hp] at hp'
    cases hp'
    rw [hstage] at hdone
    cases hdone
  kept := by
    intro id p hp part hpart
    have hresting : p.stage.Resting → .own id part ∈ s.conn.visible.log := by
      intro hrest
      refine h.committed_visible _ ((h.settled id part).mpr ⟨p, hp, ?_⟩)
      rcases hstage : p.stage with _ | _ | _ | _ | _ | _ | m | r <;> rw [hstage] at hrest hpart
      case done =>
        rcases r with m | u
        · exact absurd hpart List.not_mem_nil
        · rfl
      all_goals first | exact absurd hpart List.not_mem_nil | cases hrest
    rcases h.tx with ⟨-, -, hrest⟩ | ⟨id', p', -, hp', hin, hrest⟩
    · exact hresting (hrest id p hp)
    · by_cases hid : id = id'
      · subst hid
        rw [hp] at hp'
        cases hp'
        exact hin.visible.2 part hpart
      · exact hresting (hrest id p hid hp)
  others := fun n hn => h.committed_visible _ (h.acked n hn)

/-! ### One step -/

theorem finished_setCall_self (calls : Nat → Option PersistCall) (id : Nat) (p : PersistCall) :
    Finished (setCall calls id p id) ↔ p.stage = .done (.ok ()) := by
  rw [setCall_self]
  constructor
  · rintro ⟨p', hp', hstage⟩
    cases hp'
    exact hstage
  · exact fun hstage => ⟨p, rfl, hstage⟩

theorem finished_setCall_other (calls : Nat → Option PersistCall) {x : Nat} (p : PersistCall) (hx : x ≠ id) :
    Finished (setCall calls id p x) ↔ Finished (calls x) := by
  rw [setCall_other _ _ hx]

/-- The other calls stay where they are. -/
theorem resting_setCall {calls : Nat → Option PersistCall} (hrest : ∀ x p', x ≠ id → calls x = some p' → p'.stage.Resting)
    {x : Nat} {p' : PersistCall} (hx : x ≠ id) (hp' : setCall calls id p x = some p') : p'.stage.Resting := by
  rw [setCall_other _ _ hx] at hp'
  exact hrest x p' hx hp'

theorem call_keeps (h : Inv s) {pev : PredictionEvent} {sig : Signal} {now : TimestampMs}
    (hs : step s (.call id pev sig now) = some t) : Inv t := by
  obtain ⟨hnew, rfl⟩ := call_inv hs
  refine ⟨fun x part => (h.settled x part).trans ?_, h.acked, ?_⟩
  · by_cases hx : x = id
    · subst hx
      refine Iff.trans ?_ (finished_setCall_self s.calls x _).symm
      rw [hnew]
      exact ⟨fun ⟨_, hp, _⟩ => (nomatch hp), fun hp => (nomatch hp)⟩
    · exact (finished_setCall_other s.calls _ hx).symm
  · rcases h.tx with ⟨hopen, hclosed, hrest⟩ | ⟨id', p', hopen, hp', hin, hrest⟩
    · refine Or.inl ⟨hopen, hclosed, fun x p' hp' => ?_⟩
      by_cases hx : x = id
      · subst hx
        have hp' := (setCall_self s.calls x _).symm.trans hp'
        cases hp'
        trivial
      · exact resting_setCall (fun x p' _ => hrest x p') hx hp'
    · have hne : id' ≠ id := by
        rintro rfl
        rw [hnew] at hp'
        cases hp'
      refine Or.inr ⟨id', p', hopen, (setCall_other s.calls _ hne).trans hp', hin, fun x p'' hx hp'' => ?_⟩
      by_cases hxid : x = id
      · subst hxid
        have hp'' := (setCall_self s.calls x _).symm.trans hp''
        cases hp''
        trivial
      · exact hrest x p'' hx ((setCall_other s.calls _ hxid).symm.trans hp'')

theorem other_keeps (h : Inv s) {n : Nat} {stmt : Statement Tables} (hok : Serial s (.other n stmt fault))
    (hs : step s (.other n stmt fault) = some t) : Inv t := by
  have hopen : s.open_ = [] := hok
  rcases h.tx with ⟨-, hclosed, hrest⟩ | ⟨id, p, hopen', -⟩
  · rcases hclosed.cases with hc | hc
    · -- Outside a transaction the statement commits by itself.
      rcases ha : attempt (stmt.logged (.other n)) fault s.conn.committed with m | e
      · have he : s.conn.exec (stmt.logged (.other n)) fault = (s.conn, .error m) := by
          rw [hc]
          exact exec_idle_error ha
        simp only [step, he] at hs
        cases hs
        exact h
      · have he : s.conn.exec (stmt.logged (.other n)) fault = (⟨e, .idle⟩, .ok ()) := by
          rw [hc]
          exact exec_idle_ok ha
        obtain ⟨-, hstmt⟩ := attempt_eq_ok.mp ha
        have hlog : e.log = s.conn.committed.log ++ [.other n] := Statement.logged_ok hstmt
        simp only [step, he] at hs
        cases hs
        refine ⟨fun id part => ?_, fun k hk => ?_, Or.inl ⟨hopen, closed_idle, hrest⟩⟩
        · show Write.own id part ∈ e.log ↔ Finished (s.calls id)
          rw [hlog, List.mem_append]
          exact ⟨fun hm => (h.settled id part).mp (hm.resolve_right (by simp)),
            fun hf => Or.inl ((h.settled id part).mpr hf)⟩
        · show Write.other k ∈ e.log
          rw [hlog, List.mem_append]
          rcases List.mem_append.mp hk with hk | hk
          · exact Or.inl (h.acked k hk)
          · exact Or.inr (by rw [List.mem_singleton.mp hk]; exact List.mem_singleton.mpr rfl)
    · have haborted : s.conn.tx = .aborted := congrArg Connection.tx hc
      obtain ⟨m, he⟩ := exec_of_aborted haborted (stmt.logged (.other n)) fault
      simp only [step, he] at hs
      cases hs
      exact h
  · rw [hopen] at hopen'
    cases hopen'

/-- A BEGIN with no transaction open. -/
theorem begin_keeps (h : Inv s) {p : PersistCall} (hp : s.calls id = some p) (hstage : p.stage = .beginning)
    (hopen : s.open_ = []) (hclosed : s.conn.Closed) (hrest : ∀ x p', s.calls x = some p' → p'.stage.Resting)
    (hbegin : s.conn.tx = .idle → fault = none) : Inv (afterStatement s id p fault) := by
  obtain ⟨pev, sig, now, stage⟩ := p
  subst hstage
  have hcommitted : (s.conn.beginTx fault).1.committed = s.conn.committed ∧
      InTx id (s.conn.beginTx fault).1 .inserting := by
    rcases hclosed.cases with hc | hc
    · obtain rfl := hbegin (congrArg Connection.tx hc)
      rw [hc, beginTx_idle]
      exact ⟨rfl, Or.inr ⟨_, rfl, (List.append_nil _).symm⟩⟩
    · rw [hc, beginTx_aborted]
      exact ⟨rfl, Or.inl rfl⟩
  refine ⟨fun x part => ?_, fun k hk => ?_, Or.inr ⟨id, _, ?_, setCall_self s.calls id _, hcommitted.2, ?_⟩⟩
  · show Write.own x part ∈ (s.conn.beginTx fault).1.committed.log ↔ _
    rw [hcommitted.1]
    refine (h.settled x part).trans ?_
    by_cases hx : x = id
    · subst hx
      refine Iff.trans ?_ (finished_setCall_self s.calls x _).symm
      rw [hp]
      exact ⟨fun ⟨_, hp', hd⟩ => by cases hp'; exact (nomatch hd), fun hd => (nomatch hd)⟩
    · exact (finished_setCall_other s.calls _ hx).symm
  · show Write.other k ∈ (s.conn.beginTx fault).1.committed.log
    rw [hcommitted.1]
    exact h.acked k hk
  · show stillOpen s.open_ id .beginning = [id]
    rw [hopen]
    rfl
  · exact fun x p' hx hp' => resting_setCall (fun x p' _ => hrest x p') hx hp'

/-- After a statement of `id`, of the other calls nothing is committed or forgotten. -/
theorem settled_afterStatement (h : Inv s) {p : PersistCall}
    (hother : ∀ x part, x ≠ id →
      (.own x part ∈ (afterStatement s id p fault).conn.committed.log ↔ .own x part ∈ s.conn.committed.log))
    (hself : ∀ part, .own id part ∈ (afterStatement s id p fault).conn.committed.log ↔
      (statement s.conn id p fault).2 = .done (.ok ())) (x : Nat) (part : Part) :
    .own x part ∈ (afterStatement s id p fault).conn.committed.log ↔ Finished ((afterStatement s id p fault).calls x) := by
  by_cases hx : x = id
  · subst hx
    exact (hself part).trans (finished_setCall_self s.calls x { p with stage := (statement s.conn x p fault).2 }).symm
  · exact (hother x part hx).trans ((h.settled x part).trans (finished_setCall_other s.calls _ hx).symm)

/-- When the statement was the last one of `id`, every call rests. -/
theorem resting_afterStatement {p : PersistCall} {r : Except String Unit}
    (hothers : ∀ x p', x ≠ id → (afterStatement s id p fault).calls x = some p' → p'.stage.Resting)
    (hdone : (statement s.conn id p fault).2 = .done r) (x : Nat) (p' : PersistCall)
    (hp' : (afterStatement s id p fault).calls x = some p') : p'.stage.Resting := by
  by_cases hx : x = id
  · subst hx
    have hp' := (setCall_self s.calls x _).symm.trans hp'
    cases hp'
    rw [hdone]
    trivial
  · exact hothers x p' hx hp'

/-- A statement of the call whose transaction is open. -/
theorem inTx_keeps (h : Inv s) {p : PersistCall} (hp : s.calls id = some p) (hnotDone : p.stage.isDone = false)
    (hopen : s.open_ = [id]) (hin : InTx id s.conn p.stage)
    (hrest : ∀ x p', x ≠ id → s.calls x = some p' → p'.stage.Resting) : Inv (afterStatement s id p fault) := by
  have hunfinished : ¬Finished (s.calls id) := by
    rintro ⟨p', hp', hdone⟩
    rw [hp] at hp'
    cases hp'
    rw [hdone] at hnotDone
    cases hnotDone
  have hothers : ∀ x p', x ≠ id → (afterStatement s id p fault).calls x = some p' → p'.stage.Resting :=
    fun x p' hx hp' => resting_setCall hrest hx hp'
  rcases statement_inTx (p := p) hin fault with ⟨hin', hc, ho⟩ | ⟨hdone, hclosed, hlog, ho⟩ | ⟨⟨m, hdone⟩, hclosed, hc, ho⟩
  · refine ⟨settled_afterStatement h (fun x part _ => by rw [afterStatement, hc]) fun part => ?_, fun k hk => ?_,
      Or.inr ⟨id, _, ?_, setCall_self s.calls id _, hin', hothers⟩⟩
    · rw [afterStatement, hc, h.settled]
      exact ⟨fun hf => absurd hf hunfinished, fun hd => by rw [hd] at hin'; cases hin'⟩
    · rw [afterStatement, hc]
      exact h.acked k hk
    · show stillOpen s.open_ id p.stage = [id]
      rw [hopen, ho]
  · refine ⟨settled_afterStatement h (fun x part hx => ?_) fun part => ?_, fun k hk => ?_,
      Or.inl ⟨?_, hclosed, resting_afterStatement hothers hdone⟩⟩
    · rw [afterStatement, hlog, List.mem_append]
      exact ⟨fun hm => hm.resolve_right (by simp [hx]), Or.inl⟩
    · rw [afterStatement, hlog, hdone]
      refine ⟨fun _ => rfl, fun _ => List.mem_append_right _ ?_⟩
      cases part <;> simp
    · rw [afterStatement, hlog]
      exact List.mem_append_left _ (h.acked k hk)
    · show stillOpen s.open_ id p.stage = []
      rw [hopen, ho]
  · refine ⟨settled_afterStatement h (fun x part _ => by rw [afterStatement, hc]) fun part => ?_, fun k hk => ?_,
      Or.inl ⟨?_, hclosed, resting_afterStatement hothers hdone⟩⟩
    · rw [afterStatement, hc, h.settled, hdone]
      exact ⟨fun hf => absurd hf hunfinished, fun hd => by cases hd⟩
    · rw [afterStatement, hc]
      exact h.acked k hk
    · show stillOpen s.open_ id p.stage = []
      rw [hopen, ho]

/-- A statement of a call that is not done: it is the call's BEGIN, with no transaction open, or it runs in
    the call's own transaction. -/
theorem statement_keeps (h : Inv s) (hok : Serial s (.statement id fault))
    (hs : step s (.statement id fault) = some t) : Inv t := by
  obtain ⟨p, hp, hnotDone, rfl⟩ := statement_inv hs
  obtain ⟨halone, hbegin⟩ := hok
  rcases h.tx with ⟨hopen, hclosed, hrest⟩ | ⟨id', p', hopen, hp', hin, hrest⟩
  · have hstage : p.stage = .beginning := by
      have hr := hrest id p hp
      rcases hstage : p.stage with _ | _ | _ | _ | _ | _ | m | r <;> rw [hstage] at hr hnotDone
      case done => cases hnotDone
      all_goals cases hr
    have hbegins : begins s id = true := by
      obtain ⟨pev, sig, now, stage⟩ := p
      cases hstage
      rw [begins, hp]
    exact begin_keeps h hp hstage hopen hclosed hrest (hbegin hbegins)
  · obtain rfl : id' = id := halone id' (by rw [hopen]; exact List.mem_singleton.mpr rfl)
    obtain rfl : p = p' := Option.some.inj (hp.symm.trans hp')
    exact inTx_keeps h hp hnotDone hopen hin hrest

theorem step_keeps (h : Inv s) {a : Action} (hok : Serial s a) (hs : step s a = some t) : Inv t := by
  cases a with
  | call id pev sig now => exact call_keeps h hs
  | statement id fault => exact statement_keeps h hok hs
  | other n stmt fault => exact other_keeps h hok hs

/-! ### Runs -/

/-- From any contents and with no transaction open: in a run in which no statement runs inside the transaction
    of another call, and no BEGIN fails on an idle connection, every call is atomic. -/
theorem atomic_of_reaches (conn : Connection Tables) (hclosed : conn.Closed)
    (hr : Reaches step Serial (initial conn) s) : Atomic s :=
  (hr.invariant (inv_initial hclosed) fun _ _ _ h hok hs => step_keeps h hok hs).atomic

/-- A prediction that enters the round `r1`. -/
def entering (predictionId : PredictionId) : PredictionEvent :=
  { predictionId, targetRoundId := "r1", decision := .enter }

/-- Call 1 writes all its rows, then the enqueue of call 2 fails and its retry too. -/
def oneAfterTheOther : List Action :=
  [.call 1 (entering "p1") { predictionId := "p1" } 5, .call 2 { entering "p2" with targetRoundId := "r2" } { predictionId := "p2" } 6,
    .statement 1 none, .statement 1 none, .statement 1 none, .statement 1 none, .statement 1 none,
    .other 7 .ok none,
    .statement 2 none, .statement 2 none, .statement 2 none, .statement 2 (some "disk full"), .statement 2 none,
    .statement 2 none]

theorem oneAfterTheOther_atomic : ∃ s, run step (initial ⟨{}, .idle⟩) oneAfterTheOther = some s ∧ Atomic s := by
  obtain ⟨s, hs⟩ := Option.isSome_iff_exists.mp
    (by decide : (run step (initial ⟨{}, .idle⟩) oneAfterTheOther).isSome = true)
  exact ⟨s, hs, atomic_of_reaches ⟨{}, .idle⟩ closed_idle (.of_run (by decide) hs)⟩

/-- Call 2 joins the transaction of call 1, fails and rolls it back; call 1 goes on without a transaction. -/
def foreignRollback : List Action :=
  [.call 1 (entering "p1") { predictionId := "p1" } 5, .call 2 { entering "p2" with targetRoundId := "r2" } { predictionId := "p2" } 6,
    .statement 1 none, .statement 1 none, .statement 2 none, .statement 2 (some "disk full"), .statement 2 none,
    .statement 1 none, .statement 1 none, .statement 1 none]

/-- Call 1 reports success, and its `predictions` row is gone. -/
theorem foreignRollback_not_atomic : ∃ s, Reaches step anyStep (initial ⟨{}, .idle⟩) s ∧ ¬Atomic s := by
  have hend : (run step (initial ⟨{}, .idle⟩) foreignRollback).map
      (fun s => ((s.calls 1).map (·.stage), decide (.own 1 .prediction ∈ s.conn.committed.log))) =
      some (some (.done (.ok ())), false) := by decide
  obtain ⟨s, hs, hh⟩ := Option.map_eq_some_iff.mp hend
  rw [Prod.mk.injEq, decide_eq_false_iff_not] at hh
  obtain ⟨p, hp, hstage⟩ := Option.map_eq_some_iff.mp hh.1
  exact ⟨s, .of_run (meets_anyStep _ _) hs, fun ha => hh.2 (ha.durable 1 p hp hstage .prediction)⟩

end SharedConnection
end CrashCore
