import CrashCore.Delivery.DurablePredictionTx
import CrashCore.Library.Run

/-! The authorization of a send by time (`delivery/outbox/temporal_auth.hpp`). -/

namespace CrashCore

inductive TemporalDecision
  | allow | rejectTargetStarted | rejectExpired | rejectUnknownTarget
deriving DecidableEq, Repr

structure TemporalAuthResult where
  decision : TemporalDecision := .allow
  reason : String := ""
deriving DecidableEq, Repr

def TemporalAuthResult.allowed (r : TemporalAuthResult) : Bool := r.decision = .allow

structure TemporalGuard where
  deliveryDeadlineMs : Int := 5000
  postStartGraceMs : Int := 0
  started : RoundId → Option TimestampMs := fun _ => none

/-- The first try that does not end in "no match"; an error ends the search. -/
def firstMatch : List (Option Bool) → Option Bool
  | [] => some false
  | some false :: tries => firstMatch tries
  | result :: _ => result

/-- SQL `text LIKE pattern`, and `none` for the error of a pattern that ends in an escape, where the match comes to it with
    text left. -/
def like : List Char → List Char → Option Bool
  | [], text => some text.isEmpty
  | '%' :: pattern, text => firstMatch (text.tails.map (like pattern))
  | _ :: _, [] => some false
  | ['\\'], _ :: _ => none
  | '_' :: pattern, _ :: text => like pattern text
  | '\\' :: c :: pattern, d :: text => if c = d then like pattern text else some false
  | c :: pattern, d :: text => if c = d then like pattern text else some false

namespace TemporalGuard

def noteTargetStarted (g : TemporalGuard) (roundId : RoundId) (startedAtMs now : TimestampMs) : TemporalGuard :=
  if roundId = "" then g
  else { g with
    started := Function.update g.started roundId (some (if startedAtMs > 0 then startedAtMs else now)) }

def authorizeSend (g : TemporalGuard) (roundId : RoundId) (signalCreatedAtMs now : TimestampMs) :
    TemporalAuthResult :=
  if signalCreatedAtMs > 0 ∧ now - signalCreatedAtMs > g.deliveryDeadlineMs then
    ⟨.rejectExpired, "signal exceeded delivery deadline"⟩
  else
    match g.started roundId with
    | some started =>
      if now ≥ started + g.postStartGraceMs then ⟨.rejectTargetStarted, "target round already started"⟩ else {}
    | none => {}

/-- Neither delivered nor dead. -/
def Undelivered (r : NotificationRow) : Prop := r.status = .pending ∨ r.status = .claimed

instance (r : NotificationRow) : Decidable (Undelivered r) := inferInstanceAs (Decidable (_ ∨ _))

/-- `dedupe_key LIKE $2` with `%` around the round; a round with a NUL takes the second `%` with it. -/
def keyLike (roundId : RoundId) (r : NotificationRow) : Option Bool :=
  like (asParam ("%" ++ roundId ++ "%")).toList r.dedupeKey.toList

/-- The WHERE clause. -/
def Selected (roundId : RoundId) (r : NotificationRow) : Prop :=
  Undelivered r ∧ (r.roundId = asParam roundId ∨ keyLike roundId r = some true)

instance (roundId : RoundId) (r : NotificationRow) : Decidable (Selected roundId r) :=
  inferInstanceAs (Decidable (_ ∧ _))

/-- The WHERE clause cannot be evaluated: the key is compared where the column does not decide. -/
def Unmatchable (roundId : RoundId) (r : NotificationRow) : Prop :=
  Undelivered r ∧ r.roundId ≠ asParam roundId ∧ keyLike roundId r = none

instance (roundId : RoundId) (r : NotificationRow) : Decidable (Unmatchable roundId r) :=
  inferInstanceAs (Decidable (_ ∧ _))

def killed (r : NotificationRow) : NotificationRow :=
  { r with status := .dead, lastError := some "stale:target_started" }

def killStale (roundId : RoundId) : Statement Tables := fun d =>
  if ∃ r ∈ d.notifications.rows, Unmatchable roundId r then .error "LIKE pattern must not end with escape character"
  else .ok (d.updateNotifications (Selected roundId) killed fun _ => rfl)

theorem killStale_ok {roundId : RoundId} {d : Tables} (h : ∀ r ∈ d.notifications.rows, ¬Unmatchable roundId r) :
    killStale roundId d = .ok (d.updateNotifications (Selected roundId) killed fun _ => rfl) :=
  if_neg fun ⟨r, hr, hun⟩ => h r hr hun

theorem killStale_error {roundId : RoundId} {d : Tables} (h : ∃ r ∈ d.notifications.rows, Unmatchable roundId r) :
    killStale roundId d = .error "LIKE pattern must not end with escape character" :=
  if_pos h

/-- What an executed kill has done. -/
theorem killStale_eq_ok {roundId : RoundId} {d d' : Tables} (h : killStale roundId d = .ok d') :
    (∀ r ∈ d.notifications.rows, ¬Unmatchable roundId r) ∧
      d' = d.updateNotifications (Selected roundId) killed fun _ => rfl := by
  by_cases hbad : ∃ r ∈ d.notifications.rows, Unmatchable roundId r
  · rw [killStale_error hbad] at h
    cases h
  · have hall : ∀ r ∈ d.notifications.rows, ¬Unmatchable roundId r := fun r hr hun => hbad ⟨r, hr, hun⟩
    rw [killStale_ok hall] at h
    exact ⟨hall, (Except.ok.inj h).symm⟩

/-- A target without a start time is stamped now. -/
def killStaleForTarget (g : TemporalGuard) (c : Connection Tables) (roundId : RoundId) (now : TimestampMs)
    (fault : Fault) : TemporalGuard × Connection Tables :=
  if roundId = "" then (g, c)
  else
    match c.exec (killStale roundId) fault with
    | (c, .ok _) =>
      ({ g with started := Function.update g.started roundId (some ((g.started roundId).getD now)) }, c)
    | (c, .error _) => (g, c)

theorem noteTargetStarted_deadline (g : TemporalGuard) (roundId : RoundId) (startedAtMs now : TimestampMs) :
    (g.noteTargetStarted roundId startedAtMs now).deliveryDeadlineMs = g.deliveryDeadlineMs := by
  unfold noteTargetStarted
  split <;> rfl

theorem killStaleForTarget_deadline (g : TemporalGuard) (c : Connection Tables) (roundId : RoundId)
    (now : TimestampMs) (fault : Fault) :
    (g.killStaleForTarget c roundId now fault).1.deliveryDeadlineMs = g.deliveryDeadlineMs := by
  unfold killStaleForTarget
  split
  · rfl
  · split <;> rfl

theorem killStaleForTarget_conn (g : TemporalGuard) (c : Connection Tables) {roundId : RoundId} (now : TimestampMs)
    (fault : Fault) (h : roundId ≠ "") :
    (g.killStaleForTarget c roundId now fault).2 = (c.exec (killStale roundId) fault).1 := by
  rw [killStaleForTarget, if_neg h]
  split <;> rename_i he <;> exact (congrArg Prod.fst he).symm

/-- A send is authorized up to the deadline and until the round starts. -/
theorem allowed_iff (g : TemporalGuard) (roundId : RoundId) (createdAtMs now : TimestampMs) :
    (g.authorizeSend roundId createdAtMs now).allowed = true ↔
      (0 < createdAtMs → now - createdAtMs ≤ g.deliveryDeadlineMs) ∧
        ∀ started ∈ g.started roundId, now < started + g.postStartGraceMs := by
  unfold authorizeSend
  split <;> rename_i hexpired
  · exact ⟨nofun, fun h => absurd (h.1 hexpired.1) (Int.not_le.mpr hexpired.2)⟩
  · have hfresh : 0 < createdAtMs → now - createdAtMs ≤ g.deliveryDeadlineMs := fun hpos =>
      Int.not_lt.mp fun hlate => hexpired ⟨hpos, hlate⟩
    rcases hg : g.started roundId with _ | started
    · exact ⟨fun _ => ⟨hfresh, nofun⟩, fun _ => rfl⟩
    · dsimp only
      split <;> rename_i hstarted
      · exact ⟨nofun, fun h => absurd (h.2 started rfl) (Int.not_lt.mpr hstarted)⟩
      · refine ⟨fun _ => ⟨hfresh, fun t ht => ?_⟩, fun _ => rfl⟩
        obtain rfl := Option.some.inj ht
        exact Int.not_le.mp hstarted

/-- No send is authorized after the deadline. -/
theorem fresh_of_allowed {g : TemporalGuard} {roundId : RoundId} {createdAtMs now : TimestampMs}
    (hpos : 0 < createdAtMs) (h : (g.authorizeSend roundId createdAtMs now).allowed = true) :
    now - createdAtMs ≤ g.deliveryDeadlineMs :=
  ((allowed_iff g roundId createdAtMs now).mp h).1 hpos

end TemporalGuard

/-! ### Calls

Calls of a temporal guard whose configuration stays as it is (`delivery/outbox/temporal_auth.hpp`). -/

/-- `killStaleForTarget` with the database that it is given; only PostgreSQL has the table. -/
def TemporalGuard.killStaleIn (g : TemporalGuard) (db : Db) (roundId : RoundId) (now : TimestampMs) (fault : Fault) :
    TemporalGuard × Db :=
  match db with
  | .absent | .base => (g, db)
  | .pg conn =>
    let (g, conn) := g.killStaleForTarget conn roundId now fault
    (g, .pg conn)

namespace GuardCalls

structure State where
  guard : TemporalGuard := {}
  db : Db := .absent
  clock : TimestampMs := 0
  /-- Bookkeeping: the rounds for which a call of `authorizeSend` has answered `RejectTargetStarted`. -/
  rejected : List RoundId := []

inductive Act
  | advance (ms : Nat)
  | noteTargetStarted (roundId : RoundId) (startedAtMs : TimestampMs)
  | killStaleForTarget (roundId : RoundId) (fault : Fault)
  | authorizeSend (roundId : RoundId) (signalCreatedAtMs : TimestampMs)

def step (s : State) : Act → Option State
  | .advance ms => some { s with clock := s.clock + ms }
  | .noteTargetStarted roundId startedAtMs =>
    some { s with guard := s.guard.noteTargetStarted roundId startedAtMs s.clock }
  | .killStaleForTarget roundId fault =>
    let (guard, db) := s.guard.killStaleIn s.db roundId s.clock fault
    some { s with guard, db }
  | .authorizeSend roundId createdAtMs =>
    if (s.guard.authorizeSend roundId createdAtMs s.clock).decision = .rejectTargetStarted then
      some { s with rejected := roundId :: s.rejected }
    else some s

end GuardCalls
end CrashCore
