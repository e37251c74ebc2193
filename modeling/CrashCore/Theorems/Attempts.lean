import CrashCore.PredictionInterface.PredictionAttempt
import Mathlib.Data.List.Perm.Basic
import Mathlib.Data.List.Perm.Subperm

/-! Attempts, fenced and counted. At the look at the fence that lets a response through, its attempt is the newest that was
begun for its target. -/

namespace CrashCore
namespace AttemptCalls
open Transition
open PredictionAttemptCoordinator (newRecord)

def Acceptance.key (acc : Acceptance) : RoundId × Nat := (acc.targetRoundId, acc.generation)

/-- An acceptance takes the newest attempt that was begun for its target by then; the accepted generations of a target
    increase; and an attempt is marked as completed only by an acceptance, to whose response's arrival it was not
    superseded. -/
structure Fenced (s : State) : Prop where
  newest : ∀ acc ∈ s.accepted, acc.key ∈ acc.begun ∧ ∀ p ∈ acc.begun, p.1 = acc.targetRoundId → p.2 ≤ acc.generation
  arrived : ∀ acc ∈ s.accepted, acc.begunBefore <+: acc.begun ∧ acc.begun <+: s.begun
  increasing : s.accepted.Pairwise fun acc acc' =>
    acc.targetRoundId = acc'.targetRoundId → acc.generation < acc'.generation
  completed : ∀ a ∈ s.coordinator.attempts, a.state = .completed → ∃ acc ∈ s.accepted, acc.key = key a ∧
    ∀ p ∈ acc.begunBefore, p.1 = a.targetRoundId → p.2 ≤ a.generation

/-- The attempts that have begun and not ended, those without a record yet included. -/
def pending (s : State) : List (RoundId × Nat) :=
  s.bumped.map bumpedKey ++ (s.coordinator.attempts.filter InFlight).map key

/-- The fence stands at the newest generation, and an accepted attempt is pending only until it is marked. -/
structure Inv (s : State) : Prop extends Stored s, Fenced s where
  ranged : ∀ p ∈ s.begun, p.2 ≤ s.coordinator.fence.gen p.1
  nodup : (pending s).Nodup
  subset : ∀ p ∈ pending s, p ∈ s.begun
  fresh : ∀ acc ∈ s.accepted, acc.key ∈ pending s → ∃ a response, s.marking = some (a, response) ∧ key a = acc.key
  marked : ∀ a response, s.marking = some (a, response) → ∃ acc ∈ s.accepted, acc.key = key a
  arrivals : ∀ arrival ∈ s.arrivals, arrival.begun <+: s.begun

section
variable {s t : State} {act : Act} {P : PredictionAttemptRecord → Prop} [DecidablePred P]
  {f : PredictionAttemptRecord → PredictionAttemptRecord} {st : AttemptState}

theorem nodup_of_subperm {l l' : List (RoundId × Nat)} (h : l'.Nodup) (hl : l.Subperm l') : l.Nodup := by
  obtain ⟨m, hm, hsub⟩ := hl
  exact hm.nodup_iff.mp (h.sublist hsub)

/-! ### What a step does to the pending attempts -/

theorem pending_of_ends (hf : Ends f st) (bumped : t.bumped = s.bumped)
    (attempts : t.coordinator.attempts = endIf P f s.coordinator.attempts) : (pending t).Sublist (pending s) := by
  unfold pending
  rw [bumped, attempts, hf.filter_inFlight]
  exact List.Sublist.append_left (List.filter_sublist.map _) _

/-- The generation of a call that stores its record moves to the record. -/
theorem pending_put {n : Nat} {req : PredictionRequest} {generation : Nat} {now startedAtMs : TimestampMs}
    (found : s.bumped[n]? = some (req, generation)) (bumped : t.bumped = s.bumped.eraseIdx n)
    (attempts : t.coordinator.attempts = (s.coordinator.put (newRecord req generation now startedAtMs)).attempts) :
    (pending t).Subperm (pending s) := by
  have stored : ((t.coordinator.attempts.filter InFlight).map key).Sublist
      (bumpedKey (req, generation) :: (s.coordinator.attempts.filter InFlight).map key) := by
    rw [attempts, PredictionAttemptCoordinator.put, List.filter_cons_of_pos (by rfl), List.map_cons]
    exact ((List.filter_sublist.filter _).map _).cons_cons _
  unfold pending
  rw [bumped]
  exact ((stored.append_left _).subperm).trans (List.perm_middle.trans ((eraseIdx_perm found).append_right _)).subperm

/-- The end of one record takes its generation away. -/
theorem pending_one {a : PredictionAttemptRecord} (hf : Ends f st) (stored : a ∈ s.coordinator.attempts)
    (inFlight : InFlight a) (bumped : t.bumped = s.bumped)
    (attempts : t.coordinator.attempts = endIf (·.attemptId = a.attemptId) f s.coordinator.attempts) :
    (key a :: pending t).Subperm (pending s) := by
  have split := List.filter_append_perm (fun b => decide (b.attemptId = a.attemptId))
    (s.coordinator.attempts.filter InFlight)
  have one : [a].Sublist ((s.coordinator.attempts.filter InFlight).filter fun b => b.attemptId = a.attemptId) := by
    rw [List.singleton_sublist]
    simp [stored, inFlight]
  have rest : ((a :: t.coordinator.attempts.filter InFlight).map key).Subperm
      ((s.coordinator.attempts.filter InFlight).map key) := by
    rw [attempts, hf.filter_inFlight]
    refine ((one.append_right _).map key).subperm.trans ?_
    simpa using (split.map key).subperm
  unfold pending
  rw [bumped]
  exact List.perm_middle.symm.subperm.trans ((List.subperm_append_left _).mpr rest)

/-! ### What a step keeps -/

theorem completed_of_ends (hf : Ends f st) (hst : st ≠ .completed) {as : List PredictionAttemptRecord} :
    ∀ b ∈ endIf P f as, b.state = .completed → b ∈ as := by
  intro b hb hdone
  rcases mem_endIf hb with ⟨a, -, -, rfl⟩ | hb
  · exact absurd ((hf.state a).symm.trans hdone) hst
  · exact hb

theorem completed_of_put {c : PredictionAttemptCoordinator} {a : PredictionAttemptRecord} (inFlight : InFlight a) :
    ∀ b ∈ (c.put a).attempts, b.state = .completed → b ∈ c.attempts := by
  intro b hb hdone
  rcases mem_put.mp hb with rfl | ⟨hb, -⟩
  · exact absurd (inFlight.symm.trans hdone) nofun
  · exact hb

/-- A step that begins and accepts nothing and completes no record. -/
theorem Inv.of_subperm (hs : Inv s) (stored : Stored t) (fence : t.coordinator.fence = s.coordinator.fence)
    (begun : t.begun = s.begun) (accepted : t.accepted = s.accepted) (marking : t.marking = s.marking)
    (arrivals : ∀ x ∈ t.arrivals, x ∈ s.arrivals) (hpending : (pending t).Subperm (pending s))
    (completed : ∀ b ∈ t.coordinator.attempts, b.state = .completed → b ∈ s.coordinator.attempts) : Inv t where
  toStored := stored
  newest := accepted ▸ hs.newest
  arrived := by
    rw [accepted, begun]
    exact hs.arrived
  increasing := accepted ▸ hs.increasing
  completed b hb hdone := accepted ▸ hs.completed b (completed b hb hdone) hdone
  ranged := by
    rw [begun, fence]
    exact hs.ranged
  nodup := nodup_of_subperm hs.nodup hpending
  subset p hp := begun ▸ hs.subset p (hpending.subset hp)
  fresh acc hacc hp := marking ▸ hs.fresh acc (accepted ▸ hacc) (hpending.subset hp)
  marked a response h := accepted ▸ hs.marked a response (marking ▸ h)
  arrivals x hx := begun ▸ hs.arrivals x (arrivals x hx)

/-- So are the steps that end records in a state other than completed. -/
theorem Inv.of_ends (hs : Inv s) (stored : Stored t) (fence : t.coordinator.fence = s.coordinator.fence)
    (begun : t.begun = s.begun) (accepted : t.accepted = s.accepted) (marking : t.marking = s.marking)
    (arrivals : ∀ x ∈ t.arrivals, x ∈ s.arrivals) (bumped : t.bumped = s.bumped) (ends : Ends f st)
    (hst : st ≠ .completed) (attempts : t.coordinator.attempts = endIf P f s.coordinator.attempts) : Inv t :=
  hs.of_subperm stored fence begun accepted marking arrivals (pending_of_ends ends bumped attempts).subperm
    (attempts ▸ completed_of_ends ends hst)

theorem Inv.bump (hs : Inv s) (req : PredictionRequest) (stored : Stored t)
    (h : Step s (.bump req) t) : Inv t := by
  cases h
  have fresh : ∀ p ∈ s.begun, p ≠ (req.targetRoundId, s.coordinator.fence.gen req.targetRoundId + 1) := by
    rintro p hp rfl
    exact Nat.not_succ_le_self _ (hs.ranged _ hp)
  have more : (pending { s with
      coordinator := { s.coordinator with fence := (s.coordinator.fence.bump req.targetRoundId).1 }
      bumped := s.bumped ++ [(req, (s.coordinator.fence.bump req.targetRoundId).2)]
      begun := s.begun ++ [(req.targetRoundId, (s.coordinator.fence.bump req.targetRoundId).2)] }).Perm
      ((req.targetRoundId, s.coordinator.fence.gen req.targetRoundId + 1) :: pending s) := by
    unfold pending
    rw [List.map_append, List.append_assoc]
    exact List.perm_middle
  refine
    { toStored := stored
      newest := hs.newest
      arrived := fun acc hacc => ⟨(hs.arrived acc hacc).1, (hs.arrived acc hacc).2.trans (List.prefix_append _ _)⟩
      increasing := hs.increasing
      completed := hs.completed
      ranged := fun p hp => ?_
      nodup := more.nodup_iff.mpr (List.nodup_cons.mpr ⟨fun hp => fresh _ (hs.subset _ hp) rfl, hs.nodup⟩)
      subset := fun p hp => ?_
      fresh := fun acc hacc hp => ?_
      marked := hs.marked
      arrivals := fun x hx => (hs.arrivals x hx).trans (List.prefix_append _ _) }
  · rcases List.mem_append.mp hp with hp | hp
    · have := hs.ranged p hp
      by_cases hkey : p.1 = req.targetRoundId
      · rw [hkey] at this
        simp [GenerationFence.bump, hkey]
        omega
      · simpa [GenerationFence.bump, hkey] using this
    · obtain rfl := List.mem_singleton.mp hp
      simp [GenerationFence.bump]
  · rcases List.mem_cons.mp (more.mem_iff.mp hp) with rfl | hp
    · exact List.mem_append_right _ (List.mem_singleton.mpr rfl)
    · exact List.mem_append_left _ (hs.subset p hp)
  · rcases List.mem_cons.mp (more.mem_iff.mp hp) with hp | hp
    · exact absurd hp (fresh _ ((hs.arrived acc hacc).2.subset (hs.newest acc hacc).1))
    · exact hs.fresh acc hacc hp

/-- At the look at the fence, the attempt is the newest that was begun for its target, and newer than those accepted
    before. -/
theorem Inv.accept (hs : Inv s) {n : Nat} {a : PredictionAttemptRecord} {arrival : Arrival} (free : s.marking = none)
    (found : s.arrivals[n]? = some arrival) (hstored : a ∈ s.coordinator.attempts) (inFlight : a.state = .inFlight)
    (current : s.coordinator.fence.isCurrent a.targetRoundId a.generation)
    (ht : t = { s with
      arrivals := s.arrivals.eraseIdx n
      marking := some (a, arrival.response)
      accepted := s.accepted ++ [⟨a.targetRoundId, a.generation, s.begun, arrival.begun⟩] }) (stored : Stored t) :
    Inv t := by
  subst ht
  have waiting : key a ∈ pending s :=
    List.mem_append_right _ (List.mem_map_of_mem (List.mem_filter.mpr ⟨hstored, decide_eq_true inFlight⟩))
  have notYet : ∀ acc ∈ s.accepted, acc.key ∉ pending s := fun acc hacc hp => by
    obtain ⟨b, response, hb, -⟩ := hs.fresh acc hacc hp
    simp [free] at hb
  have below : ∀ p ∈ s.begun, p.1 = a.targetRoundId → p.2 ≤ a.generation := fun p hp hkey => by
    have := hs.ranged p hp
    rw [hkey] at this
    exact this.trans current.le
  have older : ∀ acc ∈ s.accepted, acc.targetRoundId = a.targetRoundId → acc.generation < a.generation := by
    intro acc hacc hkey
    have le := below acc.key ((hs.arrived acc hacc).2.subset (hs.newest acc hacc).1) hkey
    refine Nat.lt_of_le_of_ne le fun heq => notYet acc hacc ?_
    rwa [Acceptance.key, hkey, heq]
  refine
    { toStored := stored
      newest := fun acc hacc => ?_
      arrived := fun acc hacc => ?_
      increasing := List.pairwise_append.mpr ⟨hs.increasing, List.pairwise_singleton _ _, fun acc hacc acc' hacc' => ?_⟩
      completed := fun b hb hdone => ?_
      ranged := hs.ranged
      nodup := hs.nodup
      subset := hs.subset
      fresh := fun acc hacc hp => ?_
      marked := fun b response h => ?_
      arrivals := fun x hx => hs.arrivals x (List.mem_of_mem_eraseIdx hx) }
  · rcases List.mem_append.mp hacc with hacc | hacc
    · exact hs.newest acc hacc
    · obtain rfl := List.mem_singleton.mp hacc
      exact ⟨hs.subset _ waiting, below⟩
  · rcases List.mem_append.mp hacc with hacc | hacc
    · exact hs.arrived acc hacc
    · obtain rfl := List.mem_singleton.mp hacc
      exact ⟨hs.arrivals arrival (List.mem_of_getElem? found), List.prefix_rfl⟩
  · obtain rfl := List.mem_singleton.mp hacc'
    exact older acc hacc
  · obtain ⟨acc, hacc, hacc'⟩ := hs.completed b hb hdone
    exact ⟨acc, List.mem_append_left _ hacc, hacc'⟩
  · rcases List.mem_append.mp hacc with hacc | hacc
    · exact absurd hp (notYet acc hacc)
    · obtain rfl := List.mem_singleton.mp hacc
      exact ⟨a, arrival.response, rfl, rfl⟩
  · cases h
    exact ⟨_, List.mem_append_right _ (List.mem_singleton.mpr rfl), rfl⟩

/-- The record that is marked leaves the pending ones. -/
theorem Inv.mark (hs : Inv s) {a : PredictionAttemptRecord} {response : PredictionResponse} {now : TimestampMs}
    (held : s.marking = some (a, response))
    (ht : t = { s with
      coordinator := s.coordinator.markCompleted a response now
      marking := none
      ended := s.ended ++ [(a.attemptId, .completed)] }) (stored : Stored t) : Inv t := by
  obtain ⟨hstored, inFlight⟩ := hs.marking a response held
  have attempts := markCompleted_attempts hs.ids hstored response now
  have one : (key a :: pending t).Subperm (pending s) :=
    pending_one (ends_completed response now) hstored inFlight (by rw [ht]) (by rw [ht]; exact attempts)
  have rest : (pending t).Subperm (pending s) := (List.sublist_cons_self _ _).subperm.trans one
  have gone : key a ∉ pending t := (List.nodup_cons.mp (nodup_of_subperm hs.nodup one)).1
  subst ht
  refine
    { toStored := stored
      newest := hs.newest
      arrived := hs.arrived
      increasing := hs.increasing
      completed := fun b hb hdone => ?_
      ranged := hs.ranged
      nodup := nodup_of_subperm hs.nodup rest
      subset := fun p hp => hs.subset p (rest.subset hp)
      fresh := fun acc hacc hp => ?_
      marked := fun b response h => nomatch h
      arrivals := hs.arrivals }
  · rcases mem_endIf (attempts ▸ hb) with ⟨c, hc, hid, rfl⟩ | hb
    · obtain rfl := eq_of_attemptId hs.ids hstored hc hid
      obtain ⟨acc, hacc, hkey⟩ := hs.marked c response held
      refine ⟨acc, hacc, hkey, fun p hp htarget => ?_⟩
      have htarget' : p.1 = acc.targetRoundId := htarget.trans (congrArg Prod.fst hkey).symm
      exact ((hs.newest acc hacc).2 p ((hs.arrived acc hacc).1.subset hp) htarget').trans (congrArg Prod.snd hkey).le
    · exact hs.completed b hb hdone
  · obtain ⟨b, response', hb, hkey⟩ := hs.fresh acc hacc (rest.subset hp)
    rw [held] at hb
    cases hb
    exact absurd (hkey ▸ hp) gone

theorem Inv.step (hs : Inv s) (h : Step s act t) : Inv t := by
  have stored : Stored t := hs.toStored.step h
  cases h with
  | bump req => exact hs.bump req stored (.bump req)
  | @store n now startedAtMs req generation free found =>
    exact hs.of_subperm stored rfl rfl rfl rfl (fun _ hx => hx) (pending_put found rfl rfl) (completed_of_put rfl)
  | started found =>
    exact hs.of_subperm stored rfl rfl rfl rfl (fun _ hx => hx) (List.Subperm.refl _) fun b hb _ => hb
  | @failed n attemptId e now free found =>
    exact hs.of_ends stored rfl rfl rfl rfl (fun _ hx => hx) rfl (ends_failed e.message now) nofun rfl
  | respond response =>
    refine { hs with arrivals := fun x hx => ?_, toStored := stored }
    rcases List.mem_append.mp hx with hx | hx
    · exact hs.arrivals x hx
    · obtain rfl := List.mem_singleton.mp hx
      exact List.prefix_rfl
  | refused free =>
    exact hs.of_subperm stored rfl rfl rfl rfl (fun _ hx => List.mem_of_mem_eraseIdx hx) (List.Subperm.refl _)
      fun b hb _ => hb
  | @fenced n k now a free hstored inFlight =>
    exact hs.of_ends stored rfl rfl rfl rfl (fun _ hx => List.mem_of_mem_eraseIdx hx) rfl (ends_fenced now) nofun
      (markFenced_attempts hs.ids hstored now)
  | accepted free found hstored inFlight current => exact hs.accept free found hstored inFlight current rfl stored
  | mark held => exact hs.mark held rfl stored
  | @expired now free =>
    exact hs.of_ends stored rfl rfl rfl rfl (fun _ hx => hx) rfl (ends_timedOut now) nofun rfl

end

theorem inv_init (fence : GenerationFence) (timeoutMs : Int) : Inv { coordinator := { fence, timeoutMs } } where
  ids := by simp
  marking := by simp
  submitting := by simp
  newest := by simp
  arrived := by simp
  increasing := .nil
  completed := by simp
  ranged := by simp
  nodup := by simp [pending]
  subset := by simp [pending]
  fresh := by simp
  marked := by simp
  arrivals := by simp

/-- In every run of the calls, over any fence whose keys nobody clears; equal correlation ids do not matter. -/
theorem fenced_of_reaches (fence : GenerationFence) (timeoutMs : Int) {s : State}
    (h : Reaches step anyStep { coordinator := { fence, timeoutMs } } s) : Fenced s :=
  (h.invariant (inv_init fence timeoutMs) fun _ _ _ hs _ hst => hs.step (step_cases hst)).toFenced

/-- Two attempts on one target, the second begun while the client works on the first: the late response is fenced, the
    second one's is accepted. -/
def overlapping : List Act :=
  [.bump { targetRoundId := "r", gameId := "r", correlationId := "a" }, .store 0 0 0,
    .bump { targetRoundId := "r", gameId := "r", correlationId := "b" },
    .respond { predictionId := "p", correlationId := "a", targetRoundId := "r" }, .check 0 0 1, .store 0 1 1,
    .submitted 0 (.ok ()) 2, .respond { predictionId := "q", correlationId := "b", targetRoundId := "r" },
    .check 0 0 3, .mark 3]

theorem fenced_overlapping : ∃ s, run step { coordinator := {} } overlapping = some s ∧
    s.accepted.map Acceptance.key = [("r", 2)] ∧ s.coordinator.fenced = 1 ∧ Fenced s :=
  ⟨_, rfl, rfl, rfl, fenced_of_reaches {} 50 (.of_run (meets_anyStep overlapping _) rfl)⟩

end AttemptCalls

/-! ### Accounting

A call of `begin` whose client refuses writes its record without a look at its state, and `begin` stores its record over
one of the same id. -/

namespace AttemptCalls
open Transition
open PredictionAttemptCoordinator (newRecord)

/-- How many ends the coordinator has counted. -/
def terminal (c : PredictionAttemptCoordinator) : Nat := c.completed + c.fenced + c.timeouts + c.failed

/-- Each `begin` has its own record, or has not stored it yet; a record has ended once, or is in flight; and the counters
    add up to the calls of `begin`. -/
structure Accounted (s : State) : Prop where
  records : (s.bumped.map bumpedKey ++ s.coordinator.attempts.map key).Perm s.begun
  once : ∀ a ∈ s.coordinator.attempts,
    (s.ended.filter (·.1 = a.attemptId)).map (·.2) = if InFlight a then [] else [a.state]
  counted : s.begun.length = s.bumped.length + s.coordinator.attempts.countP InFlight + terminal s.coordinator

/-- A record is stored under a new id, and a refused submission finds its attempt in flight. -/
def Alone (s : State) : Act → Prop
  | .store n now startedAtMs => ∀ b ∈ s.bumped[n]?,
    (newRecord b.1 b.2 now startedAtMs).attemptId ∉ s.coordinator.attempts.map (·.attemptId)
  | .submitted n (.error _) _ => ∀ attemptId ∈ s.submitting[n]?, ∀ a ∈ s.coordinator.attempts,
    a.attemptId = attemptId → InFlight a
  | _ => True

instance (s : State) (act : Act) : Decidable (Alone s act) := by
  unfold Alone
  split <;> infer_instance

structure AccountedInv (s : State) : Prop extends Stored s, Accounted s where
  named : ∀ e ∈ s.ended, e.1 ∈ s.coordinator.attempts.map (·.attemptId)

section
variable {s t : State} {act : Act} {P : PredictionAttemptRecord → Prop} [DecidablePred P]
  {f : PredictionAttemptRecord → PredictionAttemptRecord} {st : AttemptState} {as : List PredictionAttemptRecord}
  {a : PredictionAttemptRecord}

/-! ### Records that end -/

theorem filter_ends (ids : (as.map (·.attemptId)).Nodup) (ha : a ∈ as) :
    (as.filter P).filter (fun b => b.attemptId = a.attemptId) = if P a then [a] else [] := by
  rw [List.filter_comm, filter_attemptId ids ha]
  by_cases h : P a <;> simp [h]

theorem countP_ends (hf : Ends f st) (hP : ∀ a ∈ as, P a → InFlight a) :
    (endIf P f as).countP InFlight + (as.filter P).length = as.countP InFlight := by
  have within : as.filter P = (as.filter InFlight).filter P := by
    rw [List.filter_filter]
    refine List.filter_congr fun a ha => ?_
    by_cases h : P a
    · simp [h, hP a ha h]
    · simp [h]
  have split := (List.filter_append_perm (fun a => decide ¬P a) (as.filter InFlight)).length_eq
  rw [List.countP_eq_length_filter, List.countP_eq_length_filter, hf.filter_inFlight, within, ← split]
  simp

/-- A step that ends the records of `P`, all of them in flight, and notes and counts them. -/
theorem AccountedInv.of_ends (hs : AccountedInv s) (stored : Stored t) (hf : Ends f st)
    (hP : ∀ a ∈ s.coordinator.attempts, P a → InFlight a) (bumped : t.bumped = s.bumped) (begun : t.begun = s.begun)
    (attempts : t.coordinator.attempts = endIf P f s.coordinator.attempts)
    (ended : t.ended = s.ended ++ (s.coordinator.attempts.filter P).map fun a => (a.attemptId, st))
    (count : terminal t.coordinator = terminal s.coordinator + (s.coordinator.attempts.filter P).length) :
    AccountedInv t where
  toStored := stored
  records := by
    rw [bumped, begun, attempts, hf.map_key]
    exact hs.records
  once b hb := by
    rw [attempts] at hb
    obtain ⟨a, ha, rfl⟩ := List.mem_map.mp hb
    have id : (if P a then f a else a).attemptId = a.attemptId := by
      by_cases h : P a <;> simp [h, hf.attemptId]
    have new : (((s.coordinator.attempts.filter P).map fun a => (a.attemptId, st)).filter (·.1 = a.attemptId)).map (·.2) =
        if P a then [st] else [] := by
      rw [List.filter_map, List.map_map, show ((fun e : String × AttemptState => decide (e.1 = a.attemptId)) ∘
        fun a : PredictionAttemptRecord => (a.attemptId, st)) = fun b => decide (b.attemptId = a.attemptId) from rfl,
        filter_ends hs.ids ha]
      by_cases h : P a <;> simp [h]
    rw [ended, id, List.filter_append, List.map_append, hs.once a ha, new]
    by_cases h : P a
    · have notInFlight : ¬InFlight (f a) := fun hf' => hf.terminal ((hf.state a).symm.trans hf')
      simp [h, hP a ha h, notInFlight, hf.state]
    · simp [h]
  counted := by
    have := hs.counted
    have := countP_ends hf hP
    rw [begun, bumped, attempts, count]
    omega
  named e he := by
    rw [attempts, hf.map_attemptId]
    rcases List.mem_append.mp (ended ▸ he) with he | he
    · exact hs.named e he
    · obtain ⟨a, ha, rfl⟩ := List.mem_map.mp he
      exact List.mem_map_of_mem (List.mem_of_mem_filter ha)

/-- A step that ends one record in flight. -/
theorem AccountedInv.of_one (hs : AccountedInv s) (stored : Stored t) (hf : Ends f st) (ha : a ∈ s.coordinator.attempts)
    (inFlight : InFlight a) (bumped : t.bumped = s.bumped) (begun : t.begun = s.begun)
    (attempts : t.coordinator.attempts = endIf (·.attemptId = a.attemptId) f s.coordinator.attempts)
    (ended : t.ended = s.ended ++ [(a.attemptId, st)]) (count : terminal t.coordinator = terminal s.coordinator + 1) :
    AccountedInv t := by
  have one := filter_attemptId hs.ids ha
  refine hs.of_ends stored hf (fun b hb hid => ?_) bumped begun attempts ?_ ?_
  · exact eq_of_attemptId hs.ids ha hb hid ▸ inFlight
  · rw [ended, one, List.map_singleton]
  · rw [count, one, List.length_singleton]

/-- A step that leaves records, ends and counters alone. -/
theorem AccountedInv.of_same (hs : AccountedInv s) (stored : Stored t)
    (bumped : t.bumped = s.bumped) (begun : t.begun = s.begun) (attempts : t.coordinator.attempts = s.coordinator.attempts)
    (ended : t.ended = s.ended) (count : terminal t.coordinator = terminal s.coordinator) : AccountedInv t where
  toStored := stored
  records := by
    rw [bumped, begun, attempts]
    exact hs.records
  once := by
    rw [attempts, ended]
    exact hs.once
  counted := by
    rw [bumped, begun, attempts, count]
    exact hs.counted
  named := by
    rw [attempts, ended]
    exact hs.named

/-! ### Steps -/

theorem AccountedInv.bump (hs : AccountedInv s) (req : PredictionRequest) (stored : Stored t)
    (h : Step s (.bump req) t) : AccountedInv t := by
  cases h
  exact
    { toStored := stored
      records := by
        rw [List.map_append, List.append_assoc]
        have moved : (s.bumped.map bumpedKey ++ ([(req.targetRoundId, (s.coordinator.fence.bump req.targetRoundId).2)] ++
            s.coordinator.attempts.map key)).Perm
            (s.bumped.map bumpedKey ++ s.coordinator.attempts.map key ++
              [(req.targetRoundId, (s.coordinator.fence.bump req.targetRoundId).2)]) := by
          rw [List.append_assoc]
          exact List.perm_append_comm.append_left _
        exact moved.trans (hs.records.append_right _)
      once := hs.once
      counted := by
        have := hs.counted
        simp only [List.length_append, List.length_singleton, terminal] at this ⊢
        omega
      named := hs.named }

theorem put_of_alone {c : PredictionAttemptCoordinator} (alone : a.attemptId ∉ c.attempts.map (·.attemptId)) :
    (c.put a).attempts = a :: c.attempts := by
  unfold PredictionAttemptCoordinator.put
  rw [List.filter_eq_self.mpr]
  intro b hb
  exact decide_eq_true fun h => alone (List.mem_map.mpr ⟨b, hb, h⟩)

theorem AccountedInv.store (hs : AccountedInv s) {n : Nat} {req : PredictionRequest} {generation : Nat}
    {now startedAtMs : TimestampMs} (found : s.bumped[n]? = some (req, generation))
    (alone : (newRecord req generation now startedAtMs).attemptId ∉ s.coordinator.attempts.map (·.attemptId))
    (ht : t = { s with
      coordinator := s.coordinator.put (newRecord req generation now startedAtMs)
      bumped := s.bumped.eraseIdx n
      submitting := s.submitting ++ [(newRecord req generation now startedAtMs).attemptId] }) (stored : Stored t) :
    AccountedInv t := by
  have attempts : t.coordinator.attempts = newRecord req generation now startedAtMs :: s.coordinator.attempts := by
    rw [ht]
    exact put_of_alone alone
  subst ht
  exact
    { toStored := stored
      records := by
        rw [attempts, List.map_cons]
        exact (List.perm_middle.trans ((eraseIdx_perm found).append_right _)).trans hs.records
      once := fun b hb => by
        rcases List.mem_cons.mp (attempts ▸ hb) with rfl | hb
        · have none : s.ended.filter (fun e => e.1 = (newRecord req generation now startedAtMs).attemptId) = [] :=
            List.filter_eq_nil_iff.mpr fun e he h => alone (of_decide_eq_true h ▸ hs.named e he)
          rw [none]
          rfl
        · exact hs.once b hb
      counted := by
        have := hs.counted
        have := List.length_eraseIdx_add_one (List.getElem?_eq_some_iff.mp found).1
        rw [attempts, List.countP_cons_of_pos (by rfl)]
        simp only [terminal, PredictionAttemptCoordinator.put] at *
        omega
      named := fun e he => by
        rw [attempts]
        exact List.mem_cons_of_mem _ (hs.named e he) }

theorem AccountedInv.step (hs : AccountedInv s) (ok : Alone s act) (h : Step s act t) : AccountedInv t := by
  have stored : Stored t := hs.toStored.step h
  cases h with
  | bump req => exact hs.bump req stored (.bump req)
  | @store n now startedAtMs req generation free found => exact hs.store found (ok (req, generation) found) rfl stored
  | started found => exact hs.of_same stored rfl rfl rfl rfl rfl
  | @failed n attemptId e now free found =>
    obtain ⟨a, ha, rfl⟩ := List.mem_map.mp (hs.submitting attemptId (List.mem_of_getElem? found))
    exact hs.of_one stored (ends_failed e.message now) ha (ok a.attemptId found a ha rfl) rfl rfl rfl rfl rfl
  | respond response => exact hs.of_same stored rfl rfl rfl rfl rfl
  | refused free => exact hs.of_same stored rfl rfl rfl rfl rfl
  | @fenced n k now a free ha inFlight =>
    refine hs.of_one stored (ends_fenced now) ha inFlight rfl rfl (markFenced_attempts hs.ids ha now) rfl ?_
    simp only [terminal, PredictionAttemptCoordinator.markFenced, PredictionAttemptCoordinator.setRecord]
    omega
  | accepted free found ha inFlight current => exact hs.of_same stored rfl rfl rfl rfl rfl
  | @mark now a response held =>
    obtain ⟨ha, inFlight⟩ := hs.marking a response held
    refine hs.of_one stored (ends_completed response now) ha inFlight rfl rfl
      (markCompleted_attempts hs.ids ha response now) rfl ?_
    simp only [terminal, PredictionAttemptCoordinator.markCompleted, PredictionAttemptCoordinator.setRecord]
    omega
  | @expired now free =>
    refine hs.of_ends stored (ends_timedOut now) (P := s.coordinator.Expires now) (fun a _ h => h.1) rfl rfl rfl rfl ?_
    simp only [terminal, PredictionAttemptCoordinator.expireTimeouts]
    omega

/-- A record that replaces another, and an end after an end, show. -/
theorem Alone.of_accounted (hs : AccountedInv s) (h : Step s act t) (ht : Accounted t) : Alone s act := by
  cases h with
  | @store n now startedAtMs req generation free found =>
    rintro b hb hid
    obtain rfl : b = (req, generation) := Option.some.inj (hb.symm.trans found)
    have fewer : (s.coordinator.put (newRecord req generation now startedAtMs)).attempts.length ≤
        s.coordinator.attempts.length := by
      obtain ⟨a, ha, hid⟩ := List.mem_map.mp hid
      refine List.length_filter_lt_length_iff_exists.mpr ⟨a, ha, ?_⟩
      simpa using hid
    have before := hs.records.length_eq
    have after := ht.records.length_eq
    have := List.length_eraseIdx_add_one (List.getElem?_eq_some_iff.mp found).1
    simp only [List.length_append, List.length_map] at before after
    omega
  | @failed n attemptId e now free found =>
    rintro attemptId' hid a ha rfl
    obtain rfl : attemptId = a.attemptId := Option.some.inj (found.symm.trans hid)
    by_contra ended
    have failed := ht.once _ (List.mem_map_of_mem ha)
    have before := hs.once a ha
    simp only [if_true, List.filter_append, List.map_append] at failed
    rw [before, if_neg ended] at failed
    simp [InFlight] at failed
  | _ => trivial

end

theorem accountedInv_init (fence : GenerationFence) (timeoutMs : Int) :
    AccountedInv { coordinator := { fence, timeoutMs } } where
  ids := by simp
  marking := by simp
  submitting := by simp
  records := by simp
  once := by simp
  counted := by simp [terminal]
  named := by simp

/-- A run of the calls accounts for each attempt once exactly if no record is stored over another, and no submission is
    refused after its attempt has ended. -/
theorem accounted_iff_alone (fence : GenerationFence) (timeoutMs : Int) {acts : List Act}
    (hr : run step { coordinator := { fence, timeoutMs } } acts ≠ none) :
    Along step Accounted { coordinator := { fence, timeoutMs } } acts ↔
      Meets step Alone { coordinator := { fence, timeoutMs } } acts :=
  along_iff_meets (I := AccountedInv) (fun _ hs => hs.toAccounted) (fun _ _ _ hs ok h => hs.step ok (step_cases h))
    (fun _ _ _ hs h ht => Alone.of_accounted hs (step_cases h) ht) (accountedInv_init fence timeoutMs) hr

/-- The client works for longer than the timeout and refuses then: the attempt times out and fails. -/
def refusedLate : List Act :=
  [.bump { targetRoundId := "r", gameId := "r", correlationId := "a" }, .store 0 0 0, .expireTimeouts 60,
    .submitted 0 (.error ⟨.timeout, "submit"⟩) 61]

/-- One call of `begin`, and two ends counted. -/
theorem not_accounted_refusedLate : ¬Along step Accounted { coordinator := {} } refusedLate :=
  not_along_of_last rfl fun h => absurd h.counted (by decide)

/-- The client answers in `submit`, the next attempt is refused in time. -/
def answered : List Act :=
  [.bump { targetRoundId := "r", gameId := "r", correlationId := "a" }, .store 0 0 0,
    .respond { predictionId := "p", correlationId := "a", targetRoundId := "r" }, .check 0 0 1, .mark 1,
    .submitted 0 (.ok ()) 2, .bump { targetRoundId := "r", gameId := "r", correlationId := "b" }, .store 0 3 3,
    .submitted 0 (.error ⟨.timeout, "submit"⟩) 4]

theorem accounted_answered : Along step Accounted { coordinator := {} } answered :=
  (accounted_iff_alone {} 50 (Option.isSome_iff_ne_none.mp rfl)).mpr (by decide)

end AttemptCalls
end CrashCore
