import CrashCore.PredictionInterface.PredictionClient

/-! Which normalized events are accepted (`realtime/realtime_types.hpp`, `realtime/event_validator.hpp`). What is noted
of the phases and multipliers by game is never read. -/

namespace CrashCore
namespace Realtime

inductive RoundPhase
  | prepare | begin | progress | «end»
deriving DecidableEq, Repr

def RoundPhase.toString : RoundPhase → String
  | .prepare => "prepare"
  | .begin => "begin"
  | .progress => "progress"
  | .end => "end"

structure NormalizedRoundEvent where
  phase : RoundPhase := .prepare
  gameId : GameId := ""
  receivedAt : TimestampMs := 0
deriving DecidableEq

structure ValidateResult where
  ok : Bool := false
  reason : String := ""
  acceptedAt : TimestampMs
deriving DecidableEq

structure EventValidator where
  maxSkewMs : Int := 120000
  maxSeen : Nat := 8192
  seen : List String := []
  /-- The keys of `seen` in the order in which they came. -/
  order : List String := []
  accepted : Nat := 0
  duplicates : Nat := 0
  stale : Nat := 0
  invalid : Nat := 0
  lastArrivalLagMs : Int := 0

namespace EventValidator

/-- The key of an event that may come once. -/
def key (n : NormalizedRoundEvent) : String := n.gameId ++ ":" ++ n.phase.toString

/-- The loop that forgets the oldest keys. -/
def trim (maxSeen : Nat) : List String → List String → List String × List String
  | seen, [] => (seen, [])
  | seen, key :: order =>
    if maxSeen < (key :: order).length then trim maxSeen (seen.filter (· ≠ key)) order else (seen, key :: order)

/-- What is left to do for an event whose game id and age are fine. -/
def acceptOnce (v : EventValidator) (n : NormalizedRoundEvent) (now : TimestampMs) : ValidateResult × EventValidator :=
  if n.phase = .end ∨ n.phase = .begin then
    if key n ∈ v.seen then
      ({ reason := "duplicate", acceptedAt := now }, { v with duplicates := v.duplicates + 1 })
    else
      let (seen, order) := trim v.maxSeen (key n :: v.seen) (v.order ++ [key n])
      ({ ok := true, acceptedAt := now }, { v with seen, order, accepted := v.accepted + 1 })
  else ({ ok := true, acceptedAt := now }, { v with accepted := v.accepted + 1 })

def validate (v : EventValidator) (n : NormalizedRoundEvent) (now : TimestampMs) : ValidateResult × EventValidator :=
  if n.phase ≠ .progress ∧ n.gameId = "" then
    ({ reason := "missing_game_id", acceptedAt := now }, { v with invalid := v.invalid + 1 })
  else if n.phase ≠ .progress ∧ n.gameId.toList.any fun c => c < '0' ∨ '9' < c then
    ({ reason := "non_numeric_game_id", acceptedAt := now }, { v with invalid := v.invalid + 1 })
  else if 0 < n.receivedAt then
    let lag := now - n.receivedAt
    if v.maxSkewMs < lag then ({ reason := "stale", acceptedAt := now }, { v with stale := v.stale + 1 })
    else ({ v with lastArrivalLagMs := lag } : EventValidator).acceptOnce n now
  else v.acceptOnce n now

/-- The event was received too long ago. -/
def Late (v : EventValidator) (n : NormalizedRoundEvent) (now : TimestampMs) : Prop :=
  0 < n.receivedAt ∧ v.maxSkewMs < now - n.receivedAt

theorem acceptOnce_ok (v : EventValidator) (n : NormalizedRoundEvent) (now : TimestampMs) :
    (v.acceptOnce n now).1.ok = true ↔ (n.phase = .end ∨ n.phase = .begin → key n ∉ v.seen) := by
  unfold acceptOnce
  by_cases hphase : n.phase = .end ∨ n.phase = .begin
  · rw [if_pos hphase]
    by_cases hseen : key n ∈ v.seen <;> simp [hseen, hphase]
  · rw [if_neg hphase]
    exact iff_of_true rfl fun h => absurd h hphase

theorem numeric_iff {id : GameId} : Numeric id ↔ id ≠ "" ∧ ¬id.toList.any fun c => c < '0' ∨ '9' < c := by
  have hdigit : ∀ c : Char, c.isDigit = true ↔ ¬(c < '0' ∨ '9' < c) := by
    intro c
    rw [not_or, Char.not_lt, Char.not_lt]
    simp only [Char.isDigit, ge_iff_le, Bool.and_eq_true, decide_eq_true_eq]
    exact Iff.rfl
  unfold Numeric
  refine and_congr (not_congr String.toList_eq_nil_iff) ?_
  simp only [hdigit, List.any_eq_true, decide_eq_true_eq, not_exists, not_and]

/-- Of the events that are no progress, accepted are those of a game with a number that are neither late nor, as a
    start or an end, a repetition. -/
theorem validate_ok_iff {v : EventValidator} {n : NormalizedRoundEvent} {now : TimestampMs} (hphase : n.phase ≠ .progress) :
    (v.validate n now).1.ok = true ↔
      Numeric n.gameId ∧ ¬v.Late n now ∧ (n.phase = .end ∨ n.phase = .begin → key n ∉ v.seen) := by
  rw [numeric_iff]
  unfold validate Late
  by_cases hmissing : n.gameId = ""
  · simp [hphase, hmissing]
  by_cases hchar : n.gameId.toList.any fun c => c < '0' ∨ '9' < c
  · rw [if_neg (fun h => hmissing h.2), if_pos ⟨hphase, hchar⟩]
    exact iff_of_false (by simp) fun h => h.1.2 hchar
  rw [if_neg (fun h => hmissing h.2), if_neg (fun h => hchar h.2)]
  by_cases hreceived : 0 < n.receivedAt
  · rw [if_pos hreceived]
    dsimp only
    by_cases hlag : v.maxSkewMs < now - n.receivedAt
    · rw [if_pos hlag]
      exact iff_of_false (by simp) fun h => h.2.1 ⟨hreceived, hlag⟩
    · rw [if_neg hlag, acceptOnce_ok]
      exact ⟨fun h => ⟨⟨hmissing, hchar⟩, fun hlate => hlag hlate.2, h⟩, fun h => h.2.2⟩
  · rw [if_neg hreceived, acceptOnce_ok]
    exact ⟨fun h => ⟨⟨hmissing, hchar⟩, fun hlate => hreceived hlate.1, h⟩, fun h => h.2.2⟩

/-- The digit strings are the ids that a new validator accepts for an end. -/
theorem numeric_iff_accepted (id : GameId) (now : TimestampMs) :
    Numeric id ↔ (({} : EventValidator).validate { phase := .end, gameId := id } now).1.ok = true := by
  rw [validate_ok_iff RoundPhase.noConfusion]
  refine ⟨fun h => ⟨h, ?_, ?_⟩, And.left⟩
  · rintro ⟨hreceived, -⟩
    exact Int.lt_irrefl 0 hreceived
  · exact fun _ => List.not_mem_nil

end EventValidator
end Realtime
end CrashCore
