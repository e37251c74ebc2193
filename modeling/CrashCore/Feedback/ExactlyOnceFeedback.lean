import CrashCore.Persistence.Tables
import CrashCore.Prediction.AdaptiveEdge
import Mathlib.Data.Finset.Card

/-! Outcome feedback once per prediction (`feedback/exactly_once_feedback.hpp`). -/

namespace CrashCore

/-- A row of `feedback_events` (`migrations/0013`). -/
structure FeedbackRow where
  predictionId : PredictionId
  roundId : RoundId
  outcome : String
  actualMult : Double
  delivered : Bool := true
  createdAtMs : TimestampMs

/-- `uniquePrediction`: the index of `migrations/0039` is there. -/
structure FeedbackEvents where
  uniquePrediction : Bool
  rows : List FeedbackRow := []

/-- `INSERT … ON CONFLICT DO NOTHING`. -/
def FeedbackEvents.insert (events : FeedbackEvents) (row : FeedbackRow) : FeedbackEvents :=
  if events.uniquePrediction ∧ ∃ r ∈ events.rows, r.predictionId = row.predictionId then events
  else { events with rows := events.rows ++ [row] }

structure ExactlyOnceFeedback where
  db : Option FeedbackEvents := none
  edge : Option AdaptiveEdge := none
  seen : Finset PredictionId := ∅
  applied : Nat := 0
  duplicates : Nat := 0
  durable : Nat := 0

namespace ExactlyOnceFeedback

/-- The bound of `seen_`. -/
def maxSeen : Nat := 100000

/-- A call of `apply`; `answered`: the database executes the insert and says so. -/
structure Call where
  outcome : Outcome
  now : TimestampMs := 0
  answered : Bool := true

/-- The outcome has a prediction id and is a win or a loss. -/
def Eligible (o : Outcome) : Prop := o.predictionId ≠ "" ∧ (o.result = .win ∨ o.result = .loss)

instance : DecidablePred Eligible := fun _ => inferInstanceAs (Decidable (_ ∧ _))

/-- The durable insert. -/
def persist (f : ExactlyOnceFeedback) (c : Call) : ExactlyOnceFeedback :=
  match f.db with
  | none => f
  | some events =>
    if c.answered then
      let outcome := if c.outcome.isWin ∨ c.outcome.result = .win then "win" else "loss"
      { f with
        db := some (events.insert
          { predictionId := c.outcome.predictionId
            roundId := c.outcome.roundId
            outcome
            actualMult := sixDecimals c.outcome.actualMult
            createdAtMs := c.now })
        durable := f.durable + 1 }
    else f

def apply (f : ExactlyOnceFeedback) (c : Call) : ExactlyOnceFeedback × Bool :=
  let o := c.outcome
  if o.predictionId = "" then (f, false)
  else if o.result ≠ .win ∧ o.result ≠ .loss then (f, false)
  else if o.predictionId ∈ f.seen then ({ f with duplicates := f.duplicates + 1 }, false)
  else
    let seen := insert o.predictionId f.seen
    (({ f with
        seen := if maxSeen < seen.card then {o.predictionId} else seen
        edge := f.edge.map (·.noteOutcome o)
        applied := f.applied + 1 } : ExactlyOnceFeedback).persist c, true)

def applyAll (f : ExactlyOnceFeedback) (calls : List Call) : ExactlyOnceFeedback :=
  calls.foldl (fun f c => (f.apply c).1) f

/-- The calls of `noteOutcome` on the edge. -/
def noted (f : ExactlyOnceFeedback) : List Outcome := (f.edge.map (·.noted)).getD []

/-- A new object; `config`: the configuration of the edge it is given, if any. -/
def create (db : Option FeedbackEvents) (config : Option AdaptiveEdgeConfig) : ExactlyOnceFeedback :=
  { db, edge := config.map fun config => { config } }

/-! ### One call -/

variable {f : ExactlyOnceFeedback} {c : Call}

theorem persist_rest (f : ExactlyOnceFeedback) (c : Call) :
    (f.persist c).seen = f.seen ∧ (f.persist c).edge = f.edge ∧ (f.persist c).applied = f.applied ∧
      (f.persist c).duplicates = f.duplicates := by
  unfold persist
  split
  · exact ⟨rfl, rfl, rfl, rfl⟩
  · split <;> exact ⟨rfl, rfl, rfl, rfl⟩

/-- An outcome that is not eligible, or whose id is in the seen set, reaches neither the set nor the edge. -/
theorem apply_ignored (h : ¬Eligible c.outcome ∨ c.outcome.predictionId ∈ f.seen) :
    (f.apply c).1.seen = f.seen ∧ (f.apply c).1.edge = f.edge ∧ (f.apply c).2 = false := by
  unfold apply
  by_cases hempty : c.outcome.predictionId = ""
  · simp only [if_pos hempty, and_self]
  by_cases hsettled : c.outcome.result ≠ .win ∧ c.outcome.result ≠ .loss
  · simp only [if_neg hempty, if_pos hsettled, and_self]
  have heligible : Eligible c.outcome := ⟨hempty, by tauto⟩
  have hseen : c.outcome.predictionId ∈ f.seen := h.resolve_left fun hn => hn heligible
  simp only [if_neg hempty, if_neg hsettled, if_pos hseen, and_self]

/-- An eligible outcome whose id is not in the seen set is noted. -/
theorem apply_noted (h : Eligible c.outcome) (hnew : c.outcome.predictionId ∉ f.seen) :
    (f.apply c).1.seen =
        (if maxSeen < f.seen.card + 1 then {c.outcome.predictionId} else insert c.outcome.predictionId f.seen) ∧
      (f.apply c).1.edge = f.edge.map (·.noteOutcome c.outcome) ∧ (f.apply c).2 = true := by
  have hsettled : ¬(c.outcome.result ≠ .win ∧ c.outcome.result ≠ .loss) := by
    have := h.2
    tauto
  unfold apply
  simp only [if_neg h.1, if_neg hsettled, if_neg hnew]
  obtain ⟨hseen, hedge, -⟩ := persist_rest
    { f with
      seen := if maxSeen < (insert c.outcome.predictionId f.seen).card then {c.outcome.predictionId}
        else insert c.outcome.predictionId f.seen
      edge := f.edge.map (·.noteOutcome c.outcome)
      applied := f.applied + 1 } c
  refine ⟨?_, hedge, trivial⟩
  rw [hseen, Finset.card_insert_of_notMem hnew]

/-- Every call is ignored or noted. -/
theorem apply_cases (f : ExactlyOnceFeedback) (c : Call) :
    ((¬Eligible c.outcome ∨ c.outcome.predictionId ∈ f.seen) ∧ (f.apply c).1.edge = f.edge) ∨
      ((Eligible c.outcome ∧ c.outcome.predictionId ∉ f.seen) ∧
        (f.apply c).1.edge = f.edge.map (·.noteOutcome c.outcome)) := by
  by_cases h : ¬Eligible c.outcome ∨ c.outcome.predictionId ∈ f.seen
  · exact Or.inl ⟨h, (apply_ignored h).2.1⟩
  · rw [not_or, not_not] at h
    exact Or.inr ⟨h, (apply_noted h.1 h.2).2.1⟩

theorem edge_isSome_apply : (f.apply c).1.edge.isSome = f.edge.isSome := by
  obtain ⟨-, h⟩ | ⟨-, h⟩ := f.apply_cases c <;> simp [h]

theorem edge_isSome_applyAll (f : ExactlyOnceFeedback) (calls : List Call) :
    (f.applyAll calls).edge.isSome = f.edge.isSome := by
  induction calls using List.reverseRecOn with
  | nil => rfl
  | append_singleton calls c ih => simp [applyAll, edge_isSome_apply, ← ih]

/-- The edge forgets no call. -/
theorem noted_prefix_apply : f.noted <+: (f.apply c).1.noted := by
  obtain ⟨-, h⟩ | ⟨-, h⟩ := f.apply_cases c
  · rw [noted, noted, h]
  · rcases hedge : f.edge with _ | e
    · simp [noted, h, hedge]
    · rw [noted, noted, h, hedge]
      exact ⟨[c.outcome], (AdaptiveEdge.noteOutcome_noted e c.outcome).symm⟩

theorem applyAll_concat (f : ExactlyOnceFeedback) (calls : List Call) (c : Call) :
    f.applyAll (calls ++ [c]) = ((f.applyAll calls).apply c).1 := by
  simp [applyAll, List.foldl_append]

end ExactlyOnceFeedback
end CrashCore
