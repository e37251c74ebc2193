import CrashCore.Common.Types
import CrashCore.Library.Run
import Mathlib.Data.List.Nodup
import Mathlib.Logic.Function.Basic

/-! Requests and attempts (`prediction_interface/prediction_request.hpp`, `prediction_interface/prediction_attempt.hpp`,
`validation/fencing.hpp`), and the calls of one attempt coordinator by any threads. Nobody has set a complete handler.

`begin` bumps the generation of its target under the lock of the fence alone, stores its record under that of the
attempts, and holds neither while the client submits; `complete` and `expireTimeouts` hold the lock of the attempts. The
client may answer at any time, in `submit` too. -/

namespace CrashCore

structure PredictionRequest where
  targetRoundId : RoundId
  gameId : GameId
  requestTimeMs : TimestampMs := 0
  requestNs : Int := 0
  sequence : Nat := 0
  currentMult : Double := 0
  correlationId : String
deriving DecidableEq

def makePredictionRequest (ev : CrashEvent) (correlationId : String) (now : TimestampMs) (ns : Int) : PredictionRequest :=
  let targetRoundId := if ev.roundId = "" then ev.gameId else ev.roundId
  { targetRoundId
    gameId := ev.gameId
    requestTimeMs := now
    requestNs := ns
    sequence := ev.sequence
    currentMult := if 0 < ev.currentMult then ev.currentMult else ev.crashPoint
    correlationId := if correlationId = "" then targetRoundId ++ "-" ++ toString now else correlationId }

/-- `gen_`; a key that the map does not have stands at 0. -/
structure GenerationFence where
  gen : String → Nat := fun _ => 0

namespace GenerationFence

def bump (f : GenerationFence) (key : String) : GenerationFence × Nat :=
  (⟨Function.update f.gen key (f.gen key + 1)⟩, f.gen key + 1)

def isCurrent (f : GenerationFence) (key : String) (generation : Nat) : Prop := f.gen key = generation

instance (f : GenerationFence) (key : String) (generation : Nat) : Decidable (f.isCurrent key generation) :=
  inferInstanceAs (Decidable (_ = _))

end GenerationFence

inductive AttemptState
  | idle | inFlight | completed | timedOut | fenced | failed
deriving DecidableEq, Repr

structure PredictionAttemptRecord where
  attemptId : String
  targetRoundId : RoundId
  correlationId : String
  generation : Nat := 0
  state : AttemptState := .idle
  startedAtMs : TimestampMs := 0
  completedAtMs : TimestampMs := 0
  response : Option PredictionResponse := none
  error : String := ""

/-- The records are a list, the newest first; `std::unordered_map` yields them in an order of its own. -/
structure PredictionAttemptCoordinator where
  fence : GenerationFence := {}
  timeoutMs : Int := 50
  attempts : List PredictionAttemptRecord := []
  started : Nat := 0
  completed : Nat := 0
  timeouts : Nat := 0
  fenced : Nat := 0
  failed : Nat := 0

namespace PredictionAttemptCoordinator

/-- `attempts_[attemptId] = rec`. -/
def put (c : PredictionAttemptCoordinator) (rec : PredictionAttemptRecord) : PredictionAttemptCoordinator :=
  { c with attempts := rec :: c.attempts.filter (·.attemptId ≠ rec.attemptId) }

/-- `begin` up to the call of the client: the new attempt, and the request that the client gets. -/
def beginAttempt (c : PredictionAttemptCoordinator) (req : PredictionRequest) (now : TimestampMs) :
    PredictionAttemptCoordinator × PredictionRequest :=
  let (fence, generation) := c.fence.bump req.targetRoundId
  let attemptId := if req.correlationId = "" then req.targetRoundId ++ "-" ++ toString now else req.correlationId
  ({ c with fence }.put
    { attemptId, targetRoundId := req.targetRoundId, correlationId := attemptId, generation, state := .inFlight,
      startedAtMs := now }, { req with correlationId := attemptId })

/-- `begin` after the call of the client. -/
def submitted (c : PredictionAttemptCoordinator) (attemptId : String) (now : TimestampMs) :
    Except Error Unit → PredictionAttemptCoordinator
  | .ok _ => { c with started := c.started + 1 }
  | .error e =>
    { c with
      attempts := c.attempts.map fun a =>
        if a.attemptId = attemptId then { a with state := .failed, error := e.message, completedAtMs := now } else a
      failed := c.failed + 1 }

def completeLocked (c : PredictionAttemptCoordinator) (a : PredictionAttemptRecord) (resp : PredictionResponse)
    (now : TimestampMs) : PredictionAttemptCoordinator × Bool :=
  let set (a' : PredictionAttemptRecord) := c.attempts.map fun b => if b.attemptId = a.attemptId then a' else b
  if a.state ≠ .inFlight then (c, false)
  else if ¬c.fence.isCurrent a.targetRoundId a.generation then
    ({ c with attempts := set { a with state := .fenced, completedAtMs := now }, fenced := c.fenced + 1 }, false)
  else
    ({ c with
        attempts := set { a with response := some resp, state := .completed, completedAtMs := now }
        completed := c.completed + 1 }, true)

/-- Apply response if generation still current; without its attempt it goes to one in flight for its target. -/
def complete (c : PredictionAttemptCoordinator) (resp : PredictionResponse) (now : TimestampMs) :
    PredictionAttemptCoordinator × Bool :=
  match c.attempts.find? (·.attemptId = resp.correlationId) with
  | some a => c.completeLocked a resp now
  | none =>
    match c.attempts.find? fun a => a.targetRoundId = resp.targetRoundId ∧ a.state = .inFlight with
    | some a => c.completeLocked a resp now
    | none => (c, false)

def Expires (c : PredictionAttemptCoordinator) (now : TimestampMs) (a : PredictionAttemptRecord) : Prop :=
  a.state = .inFlight ∧ c.timeoutMs < now - a.startedAtMs

instance (c : PredictionAttemptCoordinator) (now : TimestampMs) : DecidablePred (c.Expires now) :=
  fun _ => inferInstanceAs (Decidable (_ ∧ _))

def expireTimeouts (c : PredictionAttemptCoordinator) (now : TimestampMs) : PredictionAttemptCoordinator :=
  { c with
    attempts := c.attempts.map fun a =>
      if c.Expires now a then { a with state := .timedOut, completedAtMs := now } else a
    timeouts := c.timeouts + (c.attempts.filter (c.Expires now)).length }

end PredictionAttemptCoordinator

/-! ### Calls -/

namespace PredictionAttemptCoordinator

/-- The record that `begin` stores. -/
def newRecord (req : PredictionRequest) (generation : Nat) (now startedAtMs : TimestampMs) : PredictionAttemptRecord :=
  let attemptId := if req.correlationId = "" then req.targetRoundId ++ "-" ++ toString now else req.correlationId
  { attemptId, targetRoundId := req.targetRoundId, correlationId := attemptId, generation, state := .inFlight, startedAtMs }

/-- `begin` is a bump and then a store. -/
theorem beginAttempt_eq (c : PredictionAttemptCoordinator) (req : PredictionRequest) (now : TimestampMs) :
    (c.beginAttempt req now).1 = { c with fence := (c.fence.bump req.targetRoundId).1 }.put
      (newRecord req (c.fence.bump req.targetRoundId).2 now now) := rfl

/-- The record of an attempt gets a new value. -/
def setRecord (c : PredictionAttemptCoordinator) (attemptId : String) (a : PredictionAttemptRecord) :
    PredictionAttemptCoordinator :=
  { c with attempts := c.attempts.map fun b => if b.attemptId = attemptId then a else b }

def markFenced (c : PredictionAttemptCoordinator) (a : PredictionAttemptRecord) (now : TimestampMs) :
    PredictionAttemptCoordinator :=
  { c.setRecord a.attemptId { a with state := .fenced, completedAtMs := now } with fenced := c.fenced + 1 }

def markCompleted (c : PredictionAttemptCoordinator) (a : PredictionAttemptRecord) (resp : PredictionResponse)
    (now : TimestampMs) : PredictionAttemptCoordinator :=
  { c.setRecord a.attemptId { a with response := some resp, state := .completed, completedAtMs := now } with
    completed := c.completed + 1 }

theorem completeLocked_eq (c : PredictionAttemptCoordinator) (a : PredictionAttemptRecord) (resp : PredictionResponse)
    (now : TimestampMs) : c.completeLocked a resp now =
      if a.state ≠ .inFlight then (c, false)
      else if ¬c.fence.isCurrent a.targetRoundId a.generation then (c.markFenced a now, false)
      else (c.markCompleted a resp now, true) := rfl

/-- The records that `complete` may take: that of the response's correlation id, else those in flight for its target,
    of which it takes the first in the order of the map. -/
def candidates (c : PredictionAttemptCoordinator) (resp : PredictionResponse) : List PredictionAttemptRecord :=
  match c.attempts.find? (·.attemptId = resp.correlationId) with
  | some a => [a]
  | none => c.attempts.filter fun a => a.targetRoundId = resp.targetRoundId ∧ a.state = .inFlight

theorem complete_eq (c : PredictionAttemptCoordinator) (resp : PredictionResponse) (now : TimestampMs) :
    c.complete resp now = ((c.candidates resp).head?.map (c.completeLocked · resp now)).getD (c, false) := by
  unfold complete candidates
  rcases h : c.attempts.find? (·.attemptId = resp.correlationId) with _ | a
  · simp only [h, List.head?_filter]
    split <;> rename_i found <;> simp only [found, Option.map_some, Option.map_none, Option.getD_some, Option.getD_none]
  · simp only [h, List.head?_cons, Option.map_some, Option.getD_some]

end PredictionAttemptCoordinator

namespace AttemptCalls
open PredictionAttemptCoordinator (newRecord)

/-- A response that `complete` was called with, and what was begun by then. -/
structure Arrival where
  response : PredictionResponse
  begun : List (RoundId × Nat)

/-- `complete` has found the generation of an attempt current, and will accept its response. -/
structure Acceptance where
  targetRoundId : RoundId
  generation : Nat
  /-- What was begun at that moment, and when the response arrived. -/
  begun : List (RoundId × Nat)
  begunBefore : List (RoundId × Nat)

structure State where
  coordinator : PredictionAttemptCoordinator := {}
  /-- Calls of `begin` that have bumped the generation and not stored their record, and the attempts of those that
      wait for the client. -/
  bumped : List (PredictionRequest × Nat) := []
  submitting : List String := []
  /-- Calls of `complete` that have not got the lock, and the one that holds it after its look at the fence. -/
  arrivals : List Arrival := []
  marking : Option (PredictionAttemptRecord × PredictionResponse) := none
  /-- Bookkeeping: target and generation of each `begin`, the acceptances, and the ends of attempts. -/
  begun : List (RoundId × Nat) := []
  accepted : List Acceptance := []
  ended : List (String × AttemptState) := []

inductive Act
  /-- A call of `begin` bumps the generation. -/
  | bump (req : PredictionRequest)
  /-- The `n`th of the calls that have bumped stores its record. -/
  | store (n : Nat) (now startedAtMs : TimestampMs)
  | submitted (n : Nat) (result : Except Error Unit) (now : TimestampMs)
  | respond (resp : PredictionResponse)
  /-- The `n`th of the calls of `complete` takes the lock and the `k`th of its candidates. -/
  | check (n k : Nat) (now : TimestampMs)
  /-- The call that has found its generation current marks the record and returns true. -/
  | mark (now : TimestampMs)
  | expireTimeouts (now : TimestampMs)

/-- `completeLocked` up to the acceptance. -/
def checkRecord (s : State) (arrival : Arrival) (a : PredictionAttemptRecord) (now : TimestampMs) : State :=
  if a.state ≠ .inFlight then s
  else if ¬s.coordinator.fence.isCurrent a.targetRoundId a.generation then
    { s with coordinator := s.coordinator.markFenced a now, ended := s.ended ++ [(a.attemptId, .fenced)] }
  else
    { s with
      marking := some (a, arrival.response)
      accepted := s.accepted ++ [⟨a.targetRoundId, a.generation, s.begun, arrival.begun⟩] }

/-- The attempts that `expireTimeouts` ends. -/
def expiring (c : PredictionAttemptCoordinator) (now : TimestampMs) : List PredictionAttemptRecord :=
  c.attempts.filter (c.Expires now)

def step (s : State) : Act → Option State
  | .bump req =>
    let (fence, generation) := s.coordinator.fence.bump req.targetRoundId
    some { s with
      coordinator := { s.coordinator with fence }
      bumped := s.bumped ++ [(req, generation)]
      begun := s.begun ++ [(req.targetRoundId, generation)] }
  | .store n now startedAtMs =>
    match s.marking, s.bumped[n]? with
    | none, some (req, generation) =>
      let record := newRecord req generation now startedAtMs
      some { s with
        coordinator := s.coordinator.put record
        bumped := s.bumped.eraseIdx n
        submitting := s.submitting ++ [record.attemptId] }
    | _, _ => none
  | .submitted n result now =>
    match s.submitting[n]?, result, s.marking with
    | some attemptId, .ok u, _ => some { s with
        coordinator := s.coordinator.submitted attemptId now (.ok u)
        submitting := s.submitting.eraseIdx n }
    | some attemptId, .error e, none => some { s with
        coordinator := s.coordinator.submitted attemptId now (.error e)
        submitting := s.submitting.eraseIdx n
        ended := s.ended ++ [(attemptId, .failed)] }
    | _, _, _ => none
  | .respond response => some { s with arrivals := s.arrivals ++ [⟨response, s.begun⟩] }
  | .check n k now =>
    match s.marking, s.arrivals[n]? with
    | none, some arrival =>
      let s := { s with arrivals := s.arrivals.eraseIdx n }
      match s.coordinator.candidates arrival.response with
      | [] => some s
      | cs => cs[k]?.map fun a => checkRecord s arrival a now
    | _, _ => none
  | .mark now =>
    s.marking.map fun (a, response) =>
      { s with
        coordinator := s.coordinator.markCompleted a response now
        marking := none
        ended := s.ended ++ [(a.attemptId, .completed)] }
  | .expireTimeouts now =>
    if s.marking = none then
      some { s with
        coordinator := s.coordinator.expireTimeouts now
        ended := s.ended ++ (expiring s.coordinator now).map fun a => (a.attemptId, .timedOut) }
    else none

/-! ### What a step does -/

theorem mem_of_mem_candidates {c : PredictionAttemptCoordinator} {resp : PredictionResponse}
    {a : PredictionAttemptRecord} (h : a ∈ c.candidates resp) : a ∈ c.attempts := by
  unfold PredictionAttemptCoordinator.candidates at h
  split at h
  · rename_i b found
    rw [List.mem_singleton] at h
    exact h ▸ List.mem_of_find?_eq_some found
  · exact List.mem_of_mem_filter h

/-- The steps, and what `checkRecord` comes to. -/
inductive Step (s : State) : Act → State → Prop
  | bump (req : PredictionRequest) : Step s (.bump req)
      { s with
        coordinator := { s.coordinator with fence := (s.coordinator.fence.bump req.targetRoundId).1 }
        bumped := s.bumped ++ [(req, (s.coordinator.fence.bump req.targetRoundId).2)]
        begun := s.begun ++ [(req.targetRoundId, (s.coordinator.fence.bump req.targetRoundId).2)] }
  | store {n : Nat} {now startedAtMs : TimestampMs} {req : PredictionRequest} {generation : Nat}
      (free : s.marking = none) (found : s.bumped[n]? = some (req, generation)) : Step s (.store n now startedAtMs)
      { s with
        coordinator := s.coordinator.put (newRecord req generation now startedAtMs)
        bumped := s.bumped.eraseIdx n
        submitting := s.submitting ++ [(newRecord req generation now startedAtMs).attemptId] }
  | started {n : Nat} {attemptId : String} {now : TimestampMs} (found : s.submitting[n]? = some attemptId) :
      Step s (.submitted n (.ok ()) now)
      { s with
        coordinator := { s.coordinator with started := s.coordinator.started + 1 }
        submitting := s.submitting.eraseIdx n }
  | failed {n : Nat} {attemptId : String} {e : Error} {now : TimestampMs} (free : s.marking = none)
      (found : s.submitting[n]? = some attemptId) : Step s (.submitted n (.error e) now)
      { s with
        coordinator := s.coordinator.submitted attemptId now (.error e)
        submitting := s.submitting.eraseIdx n
        ended := s.ended ++ [(attemptId, .failed)] }
  | respond (response : PredictionResponse) :
      Step s (.respond response) { s with arrivals := s.arrivals ++ [⟨response, s.begun⟩] }
  | refused {n k : Nat} {now : TimestampMs} (free : s.marking = none) :
      Step s (.check n k now) { s with arrivals := s.arrivals.eraseIdx n }
  | fenced {n k : Nat} {now : TimestampMs} {a : PredictionAttemptRecord} (free : s.marking = none)
      (stored : a ∈ s.coordinator.attempts) (inFlight : a.state = .inFlight) : Step s (.check n k now)
      { s with
        coordinator := s.coordinator.markFenced a now
        arrivals := s.arrivals.eraseIdx n
        ended := s.ended ++ [(a.attemptId, .fenced)] }
  | accepted {n k : Nat} {now : TimestampMs} {a : PredictionAttemptRecord} {arrival : Arrival} (free : s.marking = none)
      (found : s.arrivals[n]? = some arrival) (stored : a ∈ s.coordinator.attempts) (inFlight : a.state = .inFlight)
      (current : s.coordinator.fence.isCurrent a.targetRoundId a.generation) : Step s (.check n k now)
      { s with
        arrivals := s.arrivals.eraseIdx n
        marking := some (a, arrival.response)
        accepted := s.accepted ++ [⟨a.targetRoundId, a.generation, s.begun, arrival.begun⟩] }
  | mark {now : TimestampMs} {a : PredictionAttemptRecord} {response : PredictionResponse}
      (held : s.marking = some (a, response)) : Step s (.mark now)
      { s with
        coordinator := s.coordinator.markCompleted a response now
        marking := none
        ended := s.ended ++ [(a.attemptId, .completed)] }
  | expired {now : TimestampMs} (free : s.marking = none) : Step s (.expireTimeouts now)
      { s with
        coordinator := s.coordinator.expireTimeouts now
        ended := s.ended ++ (expiring s.coordinator now).map fun a => (a.attemptId, .timedOut) }

theorem step_check {s t : State} {n k : Nat} {now : TimestampMs} (h : step s (.check n k now) = some t) :
    Step s (.check n k now) t := by
  rw [step.eq_def] at h
  dsimp only at h
  split at h
  case h_2 => cases h
  rename_i arrival free found
  split at h
  · cases h
    exact .refused free
  obtain ⟨a, hk, rfl⟩ := Option.map_eq_some_iff.mp h
  have stored : a ∈ s.coordinator.attempts := mem_of_mem_candidates (List.mem_of_getElem? hk)
  unfold checkRecord
  split
  · exact .refused free
  rename_i inFlight
  split
  · exact .fenced free stored (not_not.mp inFlight)
  · rename_i current
    exact .accepted free found stored (not_not.mp inFlight) (not_not.mp current)

theorem step_cases {s t : State} {act : Act} (h : step s act = some t) : Step s act t := by
  cases act with
  | bump req =>
    cases h
    exact .bump req
  | store n now startedAtMs =>
    simp only [step] at h
    split at h
    · rename_i free found
      cases h
      exact .store free found
    · cases h
  | submitted n result now =>
    simp only [step] at h
    split at h
    · rename_i found
      cases h
      exact .started found
    · rename_i found free
      cases h
      exact .failed free found
    · cases h
  | respond response =>
    cases h
    exact .respond response
  | check n k now => exact step_check h
  | mark now =>
    obtain ⟨⟨a, response⟩, held, rfl⟩ := Option.map_eq_some_iff.mp h
    exact .mark held
  | expireTimeouts now =>
    simp only [step] at h
    split at h
    · rename_i free
      cases h
      exact .expired free
    · cases h

/-- A call of `complete` that nothing interrupts is `complete`. -/
theorem check_zero {s : State} {n : Nat} {arrival : Arrival} (now : TimestampMs) (free : s.marking = none)
    (found : s.arrivals[n]? = some arrival) : ∃ t, step s (.check n 0 now) = some t ∧
      (t.marking = none ∧ s.coordinator.complete arrival.response now = (t.coordinator, false) ∨
        ∃ u, step t (.mark now) = some u ∧ s.coordinator.complete arrival.response now = (u.coordinator, true)) := by
  rw [PredictionAttemptCoordinator.complete_eq]
  simp only [step, free, found]
  rcases s.coordinator.candidates arrival.response with _ | ⟨a, as⟩
  · exact ⟨_, rfl, .inl ⟨rfl, rfl⟩⟩
  refine ⟨_, rfl, ?_⟩
  simp only [List.head?_cons, Option.map_some, Option.getD_some, PredictionAttemptCoordinator.completeLocked_eq, checkRecord]
  by_cases inFlight : a.state = .inFlight
  · by_cases current : s.coordinator.fence.isCurrent a.targetRoundId a.generation
    · simp [inFlight, current]
    · simp [inFlight, current]
  · simp [inFlight]

/-! ### Records that end -/

/-- Target and generation of an attempt. -/
def key (a : PredictionAttemptRecord) : RoundId × Nat := (a.targetRoundId, a.generation)

def bumpedKey (b : PredictionRequest × Nat) : RoundId × Nat := (b.1.targetRoundId, b.2)

/-- The generation of one call, and those of the others. -/
theorem eraseIdx_perm {l : List (PredictionRequest × Nat)} {n : Nat} {b : PredictionRequest × Nat}
    (found : l[n]? = some b) : (bumpedKey b :: (l.eraseIdx n).map bumpedKey).Perm (l.map bumpedKey) := by
  obtain ⟨hn, hget⟩ := List.getElem?_eq_some_iff.mp found
  have moved := (List.getElem_cons_eraseIdx_perm hn).map bumpedKey
  rwa [hget, List.map_cons] at moved

def InFlight (a : PredictionAttemptRecord) : Prop := a.state = .inFlight

instance : DecidablePred InFlight := fun _ => inferInstanceAs (Decidable (_ = _))

/-- The records of `P` become what `f` makes of them. -/
def endIf (P : PredictionAttemptRecord → Prop) [DecidablePred P] (f : PredictionAttemptRecord → PredictionAttemptRecord)
    (as : List PredictionAttemptRecord) : List PredictionAttemptRecord :=
  as.map fun a => if P a then f a else a

/-- `f` ends an attempt in state `st`. -/
structure Ends (f : PredictionAttemptRecord → PredictionAttemptRecord) (st : AttemptState) : Prop where
  attemptId : ∀ a, (f a).attemptId = a.attemptId
  key : ∀ a, key (f a) = key a
  state : ∀ a, (f a).state = st
  terminal : st ≠ .inFlight

section
variable {P : PredictionAttemptRecord → Prop} [DecidablePred P] {f : PredictionAttemptRecord → PredictionAttemptRecord}
  {st : AttemptState} {as : List PredictionAttemptRecord} {a b : PredictionAttemptRecord}

theorem Ends.map_attemptId (hf : Ends f st) : (endIf P f as).map (·.attemptId) = as.map (·.attemptId) := by
  unfold endIf
  rw [List.map_map]
  refine List.map_congr_left fun a _ => ?_
  by_cases h : P a <;> simp [h, hf.attemptId]

theorem Ends.map_key (hf : Ends f st) : (endIf P f as).map AttemptCalls.key = as.map AttemptCalls.key := by
  unfold endIf
  rw [List.map_map]
  refine List.map_congr_left fun a _ => ?_
  by_cases h : P a <;> simp [h, hf.key]

/-- Those of `P` are not in flight any more. -/
theorem Ends.filter_inFlight (hf : Ends f st) :
    (endIf P f as).filter InFlight = (as.filter InFlight).filter fun a => ¬P a := by
  unfold endIf
  induction as with
  | nil => rfl
  | cons a as ih =>
    by_cases hP : P a
    · have hfa : ¬InFlight (f a) := fun h => hf.terminal ((hf.state a).symm.trans h)
      by_cases h : InFlight a <;> simp [hP, hfa, h, ih]
    · by_cases h : InFlight a <;> simp [hP, h, ih]

theorem mem_endIf (h : b ∈ endIf P f as) : (∃ a ∈ as, P a ∧ b = f a) ∨ b ∈ as := by
  obtain ⟨a, ha, rfl⟩ := List.mem_map.mp h
  by_cases hP : P a
  · exact .inl ⟨a, ha, hP, by simp [hP]⟩
  · exact .inr (by simpa [hP] using ha)

/-- Attempt ids are keys of the map. -/
theorem eq_of_attemptId (ids : (as.map (·.attemptId)).Nodup) (ha : a ∈ as) (hb : b ∈ as)
    (h : b.attemptId = a.attemptId) : b = a :=
  List.inj_on_of_nodup_map ids hb ha h

theorem setRecord_attempts {c : PredictionAttemptCoordinator} (ids : (c.attempts.map (·.attemptId)).Nodup)
    (ha : a ∈ c.attempts) : (c.setRecord a.attemptId (f a)).attempts = endIf (·.attemptId = a.attemptId) f c.attempts := by
  refine List.map_congr_left fun b hb => ?_
  by_cases h : b.attemptId = a.attemptId
  · simp [eq_of_attemptId ids ha hb h]
  · simp [h]

theorem markFenced_attempts {c : PredictionAttemptCoordinator} (ids : (c.attempts.map (·.attemptId)).Nodup)
    (ha : a ∈ c.attempts) (now : TimestampMs) : (c.markFenced a now).attempts =
      endIf (·.attemptId = a.attemptId) (fun a => { a with state := .fenced, completedAtMs := now }) c.attempts :=
  setRecord_attempts (f := fun a => { a with state := .fenced, completedAtMs := now }) ids ha

theorem markCompleted_attempts {c : PredictionAttemptCoordinator} (ids : (c.attempts.map (·.attemptId)).Nodup)
    (ha : a ∈ c.attempts) (resp : PredictionResponse) (now : TimestampMs) : (c.markCompleted a resp now).attempts =
      endIf (·.attemptId = a.attemptId)
        (fun a => { a with response := some resp, state := .completed, completedAtMs := now }) c.attempts :=
  setRecord_attempts (f := fun a => { a with response := some resp, state := .completed, completedAtMs := now }) ids ha

theorem filter_attemptId (ids : (as.map (·.attemptId)).Nodup) (ha : a ∈ as) :
    as.filter (fun b => b.attemptId = a.attemptId) = [a] := by
  induction as with
  | nil => cases ha
  | cons c as ih =>
    rw [List.map_cons, List.nodup_cons] at ids
    rcases List.mem_cons.mp ha with rfl | ha
    · have none : as.filter (fun b => b.attemptId = a.attemptId) = [] :=
        List.filter_eq_nil_iff.mpr fun b hb h => ids.1 (List.mem_map.mpr ⟨b, hb, of_decide_eq_true h⟩)
      simp [none]
    · have ne : c.attemptId ≠ a.attemptId := fun h => ids.1 (List.mem_map.mpr ⟨a, ha, h.symm⟩)
      simp [ne, ih ids.2 ha]

end

/-- How a record ends in each of the four ways. -/
theorem ends_fenced (now : TimestampMs) : Ends (fun a => { a with state := .fenced, completedAtMs := now }) .fenced :=
  ⟨fun _ => rfl, fun _ => rfl, fun _ => rfl, nofun⟩

theorem ends_completed (resp : PredictionResponse) (now : TimestampMs) :
    Ends (fun a => { a with response := some resp, state := .completed, completedAtMs := now }) .completed :=
  ⟨fun _ => rfl, fun _ => rfl, fun _ => rfl, nofun⟩

theorem ends_failed (message : String) (now : TimestampMs) :
    Ends (fun a => { a with state := .failed, error := message, completedAtMs := now }) .failed :=
  ⟨fun _ => rfl, fun _ => rfl, fun _ => rfl, nofun⟩

theorem ends_timedOut (now : TimestampMs) : Ends (fun a => { a with state := .timedOut, completedAtMs := now }) .timedOut :=
  ⟨fun _ => rfl, fun _ => rfl, fun _ => rfl, nofun⟩

theorem mem_put {c : PredictionAttemptCoordinator} {a b : PredictionAttemptRecord} :
    b ∈ (c.put a).attempts ↔ b = a ∨ b ∈ c.attempts ∧ b.attemptId ≠ a.attemptId := by
  simp [PredictionAttemptCoordinator.put]

/-- The ids are distinct; the record that a call is about to mark is stored and in flight; each call that waits for the
    client has its record. -/
structure Stored (s : State) : Prop where
  ids : (s.coordinator.attempts.map (·.attemptId)).Nodup
  marking : ∀ a response, s.marking = some (a, response) → a ∈ s.coordinator.attempts ∧ InFlight a
  submitting : ∀ attemptId ∈ s.submitting, attemptId ∈ s.coordinator.attempts.map (·.attemptId)

section Stored
variable {s t : State} {act : Act} {c : PredictionAttemptCoordinator} {a : PredictionAttemptRecord}

theorem put_ids (h : (c.attempts.map (·.attemptId)).Nodup) : ((c.put a).attempts.map (·.attemptId)).Nodup := by
  rw [PredictionAttemptCoordinator.put, List.map_cons, List.nodup_cons]
  refine ⟨fun hm => ?_, h.sublist (List.filter_sublist.map _)⟩
  obtain ⟨b, hb, hid⟩ := List.mem_map.mp hm
  exact absurd hid (by simpa using (List.mem_filter.mp hb).2)

theorem mem_put_ids {attemptId : String} : attemptId ∈ (c.put a).attempts.map (·.attemptId) ↔
    attemptId = a.attemptId ∨ attemptId ∈ c.attempts.map (·.attemptId) := by
  simp only [List.mem_map, mem_put]
  constructor
  · rintro ⟨b, rfl | ⟨hb, -⟩, rfl⟩
    · exact .inl rfl
    · exact .inr ⟨b, hb, rfl⟩
  · rintro (rfl | ⟨b, hb, rfl⟩)
    · exact ⟨a, .inl rfl, rfl⟩
    · by_cases h : b.attemptId = a.attemptId
      · exact ⟨a, .inl rfl, h.symm⟩
      · exact ⟨b, .inr ⟨hb, h⟩, rfl⟩

/-- A step that keeps the ids and has the lock keeps `Stored`. -/
theorem Stored.of_ids (hs : Stored s) (free : t.marking = none)
    (ids : t.coordinator.attempts.map (·.attemptId) = s.coordinator.attempts.map (·.attemptId))
    (submitting : ∀ x ∈ t.submitting, x ∈ s.submitting) : Stored t where
  ids := ids ▸ hs.ids
  marking a response h := by simp [free] at h
  submitting x hx := ids ▸ hs.submitting x (submitting x hx)

theorem Stored.step (hs : Stored s) (h : Step s act t) : Stored t := by
  cases h with
  | bump req => exact ⟨hs.ids, hs.marking, hs.submitting⟩
  | @store n now startedAtMs req generation free found =>
    refine ⟨put_ids hs.ids, fun a response h => by simp [free] at h, fun x hx => mem_put_ids.mpr ?_⟩
    rcases List.mem_append.mp hx with hx | hx
    · exact .inr (hs.submitting x hx)
    · exact .inl (List.mem_singleton.mp hx)
  | started found =>
    exact ⟨hs.ids, hs.marking, fun x hx => hs.submitting x (List.mem_of_mem_eraseIdx hx)⟩
  | @failed n attemptId e now free found =>
    exact hs.of_ids free (ends_failed e.message now).map_attemptId fun x => List.mem_of_mem_eraseIdx
  | respond response => exact ⟨hs.ids, hs.marking, hs.submitting⟩
  | refused free => exact ⟨hs.ids, hs.marking, hs.submitting⟩
  | @fenced n k now a free stored inFlight =>
    refine hs.of_ids free ?_ fun x hx => hx
    exact (congrArg _ (markFenced_attempts hs.ids stored now)).trans (ends_fenced now).map_attemptId
  | accepted free found stored inFlight current =>
    refine ⟨hs.ids, fun b response h => ?_, hs.submitting⟩
    cases h
    exact ⟨stored, inFlight⟩
  | @mark now a response held =>
    refine hs.of_ids rfl ?_ fun x hx => hx
    exact (congrArg _ (markCompleted_attempts hs.ids (hs.marking a response held).1 response now)).trans
      (ends_completed response now).map_attemptId
  | @expired now free => exact hs.of_ids free (ends_timedOut now).map_attemptId fun x hx => hx

end Stored

end AttemptCalls
end CrashCore
