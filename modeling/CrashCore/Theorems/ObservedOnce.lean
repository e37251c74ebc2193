import CrashCore.Theorems.NoLookAhead

/-! When a round is observed once. The socket's event handler, the drain of the validation queue and the handler of the
poll worker each make an entry in the history, and the last two observe the round: an End that goes the whole way from
any source is counted twice somewhere. -/

namespace CrashCore
namespace RoundEnds
open Transition InProcessPredictionClient

variable {persistent : Bool} {s t : State} {c : Call} {next : Option Stage} {stage : Stage} {N : RoundId}
  {resp : PredictionResponse} {now : TimestampMs} {t0 : Int} {f : Faults} {a : Act} {e : CrashEvent}

/-- How often the engine observed the round. -/
def observations (N : RoundId) (s : State) : Nat := (s.client.samples.map (·.roundId)).count N

/-- How many entries the history got for the round, those included that newer rounds have pushed out. -/
def entries (N : RoundId) (s : State) : Nat := s.log.entries.count N

def ObservedOnce (N : RoundId) (s : State) : Prop := observations N s = 1 ∧ entries N s = 1

/-- An End of the round came by the socket or from the poll worker. -/
def Arrived (N : RoundId) (s : State) : Prop := N ∈ s.log.packets ∨ N ∈ s.log.polled

/-- No End of the round is under way. -/
def Quiet (N : RoundId) (s : State) : Prop :=
  (∀ c ∈ s.calls, c.event.endedRound ≠ N) ∧ ∀ e ∈ s.router.toValidation.items, e.endedRound ≠ N

instance : Decidable (Arrived N s) := inferInstanceAs (Decidable (_ ∨ _))
instance : Decidable (Quiet N s) :=
  inferInstanceAs (Decidable ((∀ c ∈ s.calls, _) ∧ ∀ e ∈ s.router.toValidation.items, _))

instance : Decidable (ObservedOnce N s) := inferInstanceAs (Decidable (_ ∧ _))

/-- No End of the round comes by the socket; one comes from the poll worker, once, and the router does not put it
    into the validation queue. -/
def OnlyPolled (N : RoundId) (s : State) : Act → Prop
  | .packet e _ => e.endedRound ≠ N
  | .poll fr _ => fr.gameId = N → N ∉ s.log.polled
  | .advance c _ _ _ _ => c.stage = .routing → c.event.endedRound = N → s.router.Refuses c.event
  | _ => True

instance : ∀ a, Decidable (OnlyPolled N s a)
  | .packet e _ => decidable_of_iff (e.endedRound ≠ N) Iff.rfl
  | .poll fr _ => decidable_of_iff (fr.gameId = N → N ∉ s.log.polled) Iff.rfl
  | .advance c _ _ _ _ =>
    decidable_of_iff (c.stage = .routing → c.event.endedRound = N → s.router.Refuses c.event) Iff.rfl
  | .popValidation => decidable_of_iff True Iff.rfl
  | .popPrediction => decidable_of_iff True Iff.rfl
  | .expireStale _ _ => decidable_of_iff True Iff.rfl
  | .outside _ _ => decidable_of_iff True Iff.rfl

/-! ### What is owed -/

def Stage.owesEntry : Stage → Bool
  | .routed | .popped => true
  | _ => false

def Stage.owesSample : Stage → Bool
  | .popped | .settling | .taking | .observing => true
  | _ => false

/-- The call will make an entry for the round. -/
def entryOwed (N : RoundId) (c : Call) : Bool := c.stage.owesEntry && decide (c.event.endedRound = N)

/-- The call will have the round observed. -/
def sampleOwed (N : RoundId) (c : Call) : Bool :=
  c.stage.owesSample && decide (c.event.endedRound = N ∧ 0 < point c.event)

def owedEntries (N : RoundId) (s : State) : Nat :=
  s.calls.countP (entryOwed N) + s.router.toValidation.items.countP fun e => e.endedRound = N

def owedSamples (N : RoundId) (s : State) : Nat :=
  s.calls.countP (sampleOwed N) + s.router.toValidation.items.countP fun e => e.endedRound = N ∧ 0 < point e

/-! ### A call goes on -/

/-- The call goes on to the stage `next`, or ends; the arrivals and the queue stay as they are. -/
structure Moves (s : State) (c : Call) (next : Option Stage) (t : State) : Prop where
  calls : t.calls = (next.map fun stage => { c with stage }).toList ++ s.calls.erase c
  queue : t.router.toValidation = s.router.toValidation
  packets : t.log.packets = s.log.packets
  polled : t.log.polled = s.log.polled
  queued : t.log.queued = s.log.queued

theorem Moves.countP (hm : Moves s c next t) (hc : c ∈ s.calls) (p : Call → Bool) :
    t.calls.countP p + (if p c then 1 else 0) =
      (next.map fun stage => { c with stage }).toList.countP p + s.calls.countP p := by
  rw [hm.calls, List.countP_append, (List.perm_cons_erase hc).countP_eq, List.countP_cons, Nat.add_assoc]

/-- What a call does to the books: its entry and its sample are made, or owed by the next stage. -/
structure Books (s : State) (c : Call) (next : Option Stage) (t : State) : Prop where
  moves : Moves s c next t
  entries : ∀ N, entries N t + (next.map fun stage => { c with stage }).toList.countP (entryOwed N) =
    entries N s + if entryOwed N c then 1 else 0
  samples : ∀ N, observations N t + (next.map fun stage => { c with stage }).toList.countP (sampleOwed N) =
    observations N s + if sampleOwed N c then 1 else 0
  client : t.client.InStep

theorem entry_gameId (he : e.EndsRound) (now : TimestampMs) :
    (RollingHistoryBuffer.entry e now).gameId = e.endedRound := by
  have hround : e.endedRound = e.roundId := if_pos (he.sameId ▸ he.named)
  rw [hround, he.sameId]
  exact if_neg he.named

theorem countP_entryOwed (next : Option Stage) (c : Call) (N : RoundId) :
    (next.map fun stage => { c with stage }).toList.countP (entryOwed N) =
      if next.any Stage.owesEntry && decide (c.event.endedRound = N) then 1 else 0 := by
  cases next <;> simp [entryOwed]

theorem countP_sampleOwed (next : Option Stage) (c : Call) (N : RoundId) :
    (next.map fun stage => { c with stage }).toList.countP (sampleOwed N) =
      if next.any Stage.owesSample && decide (c.event.endedRound = N ∧ 0 < point c.event) then 1 else 0 := by
  cases next <;> simp [sampleOwed]

/-- What the stages leave alone that neither make an entry nor a sample nor route. -/
structure Kept (s t : State) : Prop where
  calls : t.calls = s.calls
  queue : t.router.toValidation = s.router.toValidation
  packets : t.log.packets = s.log.packets
  polled : t.log.polled = s.log.polled
  queued : t.log.queued = s.log.queued
  entries : t.log.entries = s.log.entries
  client : t.client = s.client

theorem Kept.goOn (h : Kept s t) (hc : s.client.InStep) (hentry : stage.owesEntry = c.stage.owesEntry)
    (hsample : stage.owesSample = c.stage.owesSample) : Books s c (some stage) (goOn t c stage) := by
  refine ⟨⟨?_, h.queue, h.packets, h.polled, h.queued⟩, fun N => ?_, fun N => ?_, ?_⟩
  · show { c with stage } :: t.calls.erase c = _
    rw [h.calls]
    rfl
  · rw [countP_entryOwed, Option.any_some, hentry]
    exact congrArg (List.count N · + _) h.entries
  · rw [countP_sampleOwed, Option.any_some, hsample]
    exact congrArg (fun client : InProcessPredictionClient => (client.samples.map (·.roundId)).count N + _) h.client
  · show t.client.InStep
    rw [h.client]
    exact hc

theorem Kept.leave (h : Kept s t) (hc : s.client.InStep) (hentry : c.stage.owesEntry = false)
    (hsample : c.stage.owesSample = false) : Books s c none (leave t c) := by
  refine ⟨⟨?_, h.queue, h.packets, h.polled, h.queued⟩, fun N => ?_, fun N => ?_, ?_⟩
  · show t.calls.erase c = _
    rw [h.calls]
    rfl
  · rw [countP_entryOwed, entryOwed, hentry]
    exact congrArg (List.count N · + _) h.entries
  · rw [countP_sampleOwed, sampleOwed, hsample]
    exact congrArg (fun client : InProcessPredictionClient => (client.samples.map (·.roundId)).count N + _) h.client
  · show t.client.InStep
    rw [h.client]
    exact hc

theorem Kept.roundEndDone (h : Kept s t) (hc : s.client.InStep) (hentry : c.stage.owesEntry = false)
    (hsample : c.stage.owesSample = false) : ∃ next, Books s c next (roundEndDone t c) := by
  unfold RoundEnds.roundEndDone
  split
  · exact ⟨_, h.goOn hc hentry.symm hsample.symm⟩
  · exact ⟨_, h.leave hc hentry hsample⟩

theorem pushHistory_entries (he : e.EndsRound) (now : TimestampMs) :
    entries N (pushHistory s e now) = entries N s + if e.endedRound = N then 1 else 0 := by
  show (s.log.entries ++ [(RollingHistoryBuffer.entry e now).gameId]).count N = _
  rw [entry_gameId he, List.count_append, List.count_singleton]
  simp [entries]

theorem observeEnd_samples_count (he : e.EndsRound) (client : InProcessPredictionClient) (now : TimestampMs) :
    ((client.observeEnd e now).samples.map (·.roundId)).count N =
      (client.samples.map (·.roundId)).count N + if e.endedRound = N ∧ 0 < point e then 1 else 0 := by
  rw [observeEnd_samples he.valid, List.count_append]
  by_cases hp : 0 < point e
  · rw [if_pos hp, List.count_singleton]
    simp [hp]
  · simp [hp]

/-- A stage other than the routing keeps the books. -/
theorem books_advance (persistent : Bool) (resp : PredictionResponse) (now : TimestampMs) (t0 : Int) (f : Faults)
    (he : c.event.EndsRound) (hclient : s.client.InStep) (hst : c.stage ≠ .routing) :
    ∃ next, Books s c next (advance persistent s c resp now t0 f) := by
  unfold advance
  dsimp only
  rcases hstage : c.stage with _ | _ | _ | _ | _ | _ | resp' | ⟨resp', pev⟩ | resp' | pev | _ <;> dsimp only
  case routed =>
    refine ⟨none, ⟨rfl, rfl, rfl, rfl, rfl⟩, fun N => ?_, fun N => ?_, hclient⟩
    · have hpush : entries N (leave (pushHistory s c.event now) c) = _ := pushHistory_entries he now
      rw [countP_entryOwed, entryOwed, hstage, hpush]
      simp [Stage.owesEntry]
    · rw [countP_sampleOwed, sampleOwed, hstage]
      rfl
  case popped =>
    refine ⟨some .settling, ⟨rfl, rfl, rfl, rfl, rfl⟩, fun N => ?_, fun N => ?_, hclient⟩
    · have hpush : entries N (goOn (pushHistory s c.event now) c .settling) = _ := pushHistory_entries he now
      rw [countP_entryOwed, entryOwed, hstage, hpush]
      simp [Stage.owesEntry]
    · rw [countP_sampleOwed, sampleOwed, hstage]
      rfl
  case settling =>
    refine ⟨_, Kept.goOn ⟨rfl, rfl, rfl, rfl, rfl, rfl, rfl⟩ hclient ?_ ?_⟩ <;> rw [hstage] <;> split <;> rfl
  case taking => exact ⟨_, Kept.goOn ⟨rfl, rfl, rfl, rfl, rfl, rfl, rfl⟩ hclient (hstage ▸ rfl) (hstage ▸ rfl)⟩
  case observing =>
    refine ⟨some .submitting, ⟨rfl, rfl, rfl, rfl, rfl⟩, fun N => ?_, fun N => ?_, observeEnd_inStep hclient⟩
    · rw [countP_entryOwed, entryOwed, hstage]
      rfl
    · rw [countP_sampleOwed, sampleOwed, hstage]
      show ((s.client.observeEnd c.event now).samples.map (·.roundId)).count N + _ = observations N s + _
      rw [observeEnd_samples_count he]
      simp [observations, Stage.owesSample]
  case submitting =>
    have hkept : Kept s { s with client := s.client.warmUp } := ⟨rfl, rfl, rfl, rfl, rfl, rfl, warmUp_eq hclient⟩
    split
    · exact ⟨_, hkept.goOn hclient (hstage ▸ rfl) (hstage ▸ rfl)⟩
    · exact hkept.roundEndDone hclient (hstage ▸ rfl) (hstage ▸ rfl)
  case handling =>
    split
    · exact ⟨_, Kept.goOn ⟨rfl, rfl, rfl, rfl, rfl, rfl, rfl⟩ hclient (hstage ▸ rfl) (hstage ▸ rfl)⟩
    · exact ⟨_, Kept.goOn ⟨rfl, rfl, rfl, rfl, rfl, rfl, rfl⟩ hclient (hstage ▸ rfl) (hstage ▸ rfl)⟩
  case publishing => exact ⟨_, Kept.goOn ⟨rfl, rfl, rfl, rfl, rfl, rfl, rfl⟩ hclient (hstage ▸ rfl) (hstage ▸ rfl)⟩
  case coordinating =>
    split
    · exact Kept.roundEndDone ⟨rfl, rfl, rfl, rfl, rfl, rfl, rfl⟩ hclient (hstage ▸ rfl) (hstage ▸ rfl)
    · exact ⟨_, Kept.goOn ⟨rfl, rfl, rfl, rfl, rfl, rfl, rfl⟩ hclient (hstage ▸ rfl) (hstage ▸ rfl)⟩
  case handingOff => exact Kept.roundEndDone ⟨rfl, rfl, rfl, rfl, rfl, rfl, rfl⟩ hclient (hstage ▸ rfl) (hstage ▸ rfl)
  case routing => exact absurd hstage hst

/-! ### The accounts -/

theorem count_append_singleton (l : List RoundId) (roundId N : RoundId) :
    (l ++ [roundId]).count N = l.count N + if roundId = N then 1 else 0 := by
  simp [List.count_append, List.count_singleton]

/-- Every End under way or in the queue is a valid one. -/
structure Sound (s : State) : Prop where
  calls : ∀ c ∈ s.calls, c.event.EndsRound
  queue : ∀ e ∈ s.router.toValidation.items, e.EndsRound
  client : s.client.InStep

/-- Every arrival and every passage through the queue makes an entry or is to make one; every poll makes a sample, and
    a passage through the queue may. -/
structure Accounted (N : RoundId) (s : State) : Prop where
  balance : entries N s + owedEntries N s = s.log.packets.count N + s.log.polled.count N + s.log.queued.count N
  least : s.log.polled.count N ≤ observations N s + owedSamples N s
  most : observations N s + owedSamples N s ≤ s.log.polled.count N + s.log.queued.count N

theorem Sound.books (h : Sound s) (hb : Books s c next t) (hc : c ∈ s.calls) : Sound t := by
  refine ⟨fun c' hc' => ?_, ?_, hb.client⟩
  · rw [hb.moves.calls] at hc'
    rcases List.mem_append.mp hc' with hc' | hc'
    · obtain ⟨stage, -, rfl⟩ := Option.map_eq_some_iff.mp (Option.mem_toList.mp hc')
      exact h.calls c hc
    · exact h.calls c' (List.mem_of_mem_erase hc')
  · rw [hb.moves.queue]
    exact h.queue

theorem Accounted.books (h : Accounted N s) (hb : Books s c next t) (hc : c ∈ s.calls) : Accounted N t := by
  have hentry := hb.moves.countP hc (entryOwed N)
  have hsample := hb.moves.countP hc (sampleOwed N)
  have hentries := hb.entries N
  have hsamples := hb.samples N
  obtain ⟨hall, hleast, hmost⟩ := h
  unfold owedEntries at hall
  unfold owedSamples at hleast hmost
  refine ⟨?_, ?_, ?_⟩
  · rw [owedEntries, hb.moves.queue, hb.moves.packets, hb.moves.polled, hb.moves.queued]
    omega
  · rw [owedSamples, hb.moves.queue, hb.moves.polled]
    omega
  · rw [owedSamples, hb.moves.queue, hb.moves.polled, hb.moves.queued]
    omega

/-- The router puts the End behind the others, or leaves the queue alone. -/
theorem route_cases (s : State) (t0 : Int) (he : e.EndsRound) :
    (s.router.Refuses e ∧ (route s e t0).router.toValidation.items = s.router.toValidation.items ∧
      (route s e t0).log.queued = s.log.queued) ∨
    (¬s.router.Refuses e ∧
      (route s e t0).router.toValidation.items = s.router.toValidation.items ++ [{ e with routedAtNs := t0 }] ∧
      (route s e t0).log.queued = s.log.queued ++ [e.endedRound]) := by
  rcases EventRouter.route_end (r := s.router) t0 he.valid.1 he.valid.2 with ⟨href, hsame⟩ | ⟨hnot, hitems⟩
  · exact Or.inl ⟨href, congrArg SpscQueue.items hsame, if_pos href⟩
  · exact Or.inr ⟨hnot, hitems, if_neg hnot⟩

theorem Sound.route (h : Sound s) (t0 : Int) (he : e.EndsRound) : Sound (route s e t0) := by
  rcases route_cases s t0 he with ⟨-, hitems, -⟩ | ⟨-, hitems, -⟩ <;> refine ⟨h.calls, ?_, h.client⟩ <;> rw [hitems]
  · exact h.queue
  · intro e' he'
    rcases List.mem_append.mp he' with he' | he'
    · exact h.queue e' he'
    · rw [List.mem_singleton.mp he']
      exact ⟨he.valid, he.sameId, he.named⟩

theorem Accounted.route (h : Accounted N s) (t0 : Int) (he : e.EndsRound) : Accounted N (route s e t0) := by
  have hpoint : point { e with routedAtNs := t0 } = point e := rfl
  have hround : ({ e with routedAtNs := t0 } : CrashEvent).endedRound = e.endedRound := rfl
  obtain ⟨hall, hleast, hmost⟩ := h
  unfold owedEntries at hall
  unfold owedSamples at hleast hmost
  rcases route_cases s t0 he with ⟨-, hitems, hqueued⟩ | ⟨-, hitems, hqueued⟩
  · refine ⟨?_, ?_, ?_⟩
    · rw [owedEntries, hitems, hqueued]
      exact hall
    · rw [owedSamples, hitems]
      exact hleast
    · rw [owedSamples, hitems, hqueued]
      exact hmost
  · have hsample : (if e.endedRound = N ∧ 0 < point e then 1 else 0) ≤ if e.endedRound = N then 1 else 0 := by
      by_cases hN : e.endedRound = N
      · rw [if_pos hN]
        split <;> omega
      · rw [if_neg fun hc => hN hc.1]
        exact Nat.zero_le _
    refine ⟨?_, ?_, ?_⟩
    · rw [owedEntries, hitems, hqueued, count_append_singleton, List.countP_append, List.countP_singleton]
      show entries N s + (s.calls.countP _ + _) = s.log.packets.count N + s.log.polled.count N + _
      simp only [decide_eq_true_eq, hround]
      omega
    · rw [owedSamples, hitems, List.countP_append]
      show s.log.polled.count N ≤ observations N s + (s.calls.countP _ + _)
      omega
    · rw [owedSamples, hitems, hqueued, count_append_singleton, List.countP_append, List.countP_singleton]
      show observations N s + (s.calls.countP _ + _) ≤ s.log.polled.count N + _
      simp only [decide_eq_true_eq, hround, hpoint]
      omega

/-! ### The steps -/

/-- The state with the packet, before the router gets it. -/
def received (s : State) (e : CrashEvent) : State :=
  { s with
    calls := ⟨.socket, e, .routed⟩ :: s.calls
    log := { s.log with packets := s.log.packets ++ [e.endedRound] } }

theorem step_packet {t0 : Int} (hs : step persistent s (.packet e t0) = some t) :
    e.EndsRound ∧ t = route (received s e) e t0 := by
  simp only [step, Option.ite_none_right_eq_some, Option.some.injEq] at hs
  exact ⟨hs.1, hs.2.symm⟩

theorem Sound.received (h : Sound s) (he : e.EndsRound) : Sound (received s e) := by
  refine ⟨fun c hc => ?_, h.queue, h.client⟩
  rcases List.mem_cons.mp hc with rfl | hc
  · exact he
  · exact h.calls c hc

theorem Accounted.received (h : Accounted N s) (e : CrashEvent) : Accounted N (received s e) := by
  obtain ⟨hall, hleast, hmost⟩ := h
  have hentry : owedEntries N (RoundEnds.received s e) = owedEntries N s + if e.endedRound = N then 1 else 0 := by
    unfold owedEntries RoundEnds.received
    rw [List.countP_cons]
    simp [entryOwed, Stage.owesEntry]
    omega
  have hsample : owedSamples N (RoundEnds.received s e) = owedSamples N s := by
    unfold owedSamples RoundEnds.received
    rw [List.countP_cons]
    simp [sampleOwed, Stage.owesSample]
  refine ⟨?_, ?_, ?_⟩
  · rw [hentry, show (RoundEnds.received s e).log.packets = s.log.packets ++ [e.endedRound] from rfl,
      count_append_singleton]
    show RoundEnds.entries N s + _ = _ + _ + s.log.polled.count N + s.log.queued.count N
    omega
  · rw [hsample]
    exact hleast
  · rw [hsample]
    exact hmost

theorem fetched_endsRound (fr : FetchedRound) : fr.event.EndsRound := ⟨⟨rfl, rfl⟩, rfl, fr.named⟩

theorem fetched_endedRound (fr : FetchedRound) : fr.event.endedRound = fr.gameId := if_pos fr.named

theorem fetched_point (fr : FetchedRound) : 0 < point fr.event := by
  have hpos : 0 < fr.multiplier := lt_of_lt_of_le one_pos fr.inRange.1
  rwa [point, show fr.event.crashPoint = fr.multiplier from rfl, if_pos hpos]

/-- The state after a poll: the entry is made, and the call is at `observeEnd`. -/
def ingested (s : State) (fr : FetchedRound) (now : TimestampMs) : State :=
  { s with
    history := s.history.pushFromEvent fr.event now
    calls := ⟨.poll, fr.event, .observing⟩ :: s.calls
    log := { s.log with
      entries := s.log.entries ++ [(RollingHistoryBuffer.entry fr.event now).gameId]
      polled := s.log.polled ++ [fr.gameId] } }

theorem step_poll {fr : FetchedRound} (hs : step persistent s (.poll fr now) = some t) : t = ingested s fr now :=
  (Option.some.inj hs).symm

theorem Sound.ingested (h : Sound s) (fr : FetchedRound) (now : TimestampMs) : Sound (ingested s fr now) := by
  refine ⟨fun c hc => ?_, h.queue, h.client⟩
  rcases List.mem_cons.mp hc with rfl | hc
  · exact fetched_endsRound fr
  · exact h.calls c hc

/-- A poll makes its entry at once and owes its sample. -/
theorem Accounted.ingested (h : Accounted N s) (fr : FetchedRound) (now : TimestampMs) :
    Accounted N (ingested s fr now) := by
  obtain ⟨hall, hleast, hmost⟩ := h
  have hpolled : (RoundEnds.ingested s fr now).log.polled = s.log.polled ++ [fr.gameId] := rfl
  have hentries : RoundEnds.entries N (RoundEnds.ingested s fr now) =
      RoundEnds.entries N s + if fr.gameId = N then 1 else 0 := by
    rw [← fetched_endedRound fr]
    exact pushHistory_entries (fetched_endsRound fr) now
  have hentry : owedEntries N (RoundEnds.ingested s fr now) = owedEntries N s := by
    unfold owedEntries RoundEnds.ingested
    rw [List.countP_cons]
    simp [entryOwed, Stage.owesEntry]
  have hsample : owedSamples N (RoundEnds.ingested s fr now) = owedSamples N s + if fr.gameId = N then 1 else 0 := by
    unfold owedSamples RoundEnds.ingested
    rw [List.countP_cons]
    simp [sampleOwed, Stage.owesSample, fetched_endedRound, fetched_point]
    omega
  refine ⟨?_, ?_, ?_⟩
  · rw [hentries, hentry, hpolled, count_append_singleton]
    show _ = s.log.packets.count N + _ + s.log.queued.count N
    omega
  · rw [hsample, hpolled, count_append_singleton]
    show _ ≤ observations N s + _
    omega
  · rw [hsample, hpolled, count_append_singleton]
    show observations N s + _ ≤ _ + s.log.queued.count N
    omega

theorem Sound.popValidation (h : Sound s) (hs : step persistent s .popValidation = some t) : Sound t := by
  obtain ⟨⟨e, router⟩, hpop, rfl⟩ := Option.map_eq_some_iff.mp hs
  have hitems := EventRouter.popValidation_eq_some hpop
  refine ⟨fun c hc => ?_, fun e' he' => h.queue e' (hitems ▸ List.mem_cons_of_mem e he'), h.client⟩
  rcases List.mem_cons.mp hc with rfl | hc
  · exact h.queue e (hitems ▸ List.mem_cons_self)
  · exact h.calls c hc

/-- What the queue owed is owed by the call now. -/
theorem Accounted.popValidation (h : Accounted N s) (hs : step persistent s .popValidation = some t) :
    Accounted N t := by
  obtain ⟨⟨e, router⟩, hpop, rfl⟩ := Option.map_eq_some_iff.mp hs
  have hitems := EventRouter.popValidation_eq_some hpop
  obtain ⟨hall, hleast, hmost⟩ := h
  unfold owedEntries at hall
  unfold owedSamples at hleast hmost
  rw [hitems, List.countP_cons] at hall hleast hmost
  refine ⟨?_, ?_, ?_⟩
  · unfold owedEntries
    rw [List.countP_cons]
    simp only [entryOwed, Stage.owesEntry, Bool.true_and]
    show RoundEnds.entries N s + _ = _
    omega
  · unfold owedSamples
    rw [List.countP_cons]
    simp only [sampleOwed, Stage.owesSample, Bool.true_and]
    show _ ≤ observations N s + _
    omega
  · unfold owedSamples
    rw [List.countP_cons]
    simp only [sampleOwed, Stage.owesSample, Bool.true_and]
    show observations N s + _ ≤ _
    omega

/-- The last stage of a poll: the call ends behind the router. -/
theorem books_routing (hst : c.stage = .routing) (hclient : s.client.InStep) (t0 : Int) :
    Books (route s c.event t0) c none (advance persistent s c resp now t0 f) := by
  unfold advance
  dsimp only
  rw [hst]
  exact Kept.leave ⟨rfl, rfl, rfl, rfl, rfl, rfl, rfl⟩ hclient (hst ▸ rfl) (hst ▸ rfl)

theorem step_advance (hs : step persistent s (.advance c resp now t0 f) = some t) :
    c ∈ s.calls ∧ t = advance persistent s c resp now t0 f := by
  simp only [step, Option.ite_none_right_eq_some, Option.some.injEq] at hs
  exact ⟨hs.1, hs.2.symm⟩

/-- A step that is neither an arrival nor a stage of a call nor takes an End from the queue. -/
theorem quiet_step (h : Sound s) (hkept : Kept s t) : Sound t ∧ ∀ N, Accounted N s → Accounted N t := by
  obtain ⟨hcalls, hqueue, hpackets, hpolled, hqueued, hentries, hclient⟩ := hkept
  refine ⟨⟨?_, ?_, ?_⟩, fun N ha => ⟨?_, ?_, ?_⟩⟩
  · rw [hcalls]
    exact h.calls
  · rw [hqueue]
    exact h.queue
  · rw [hclient]
    exact h.client
  · have hall := ha.balance
    unfold entries owedEntries at hall ⊢
    rwa [hcalls, hqueue, hpackets, hpolled, hqueued, hentries]
  · have hleast := ha.least
    unfold observations owedSamples at hleast ⊢
    rwa [hcalls, hqueue, hpolled, hclient]
  · have hmost := ha.most
    unfold observations owedSamples at hmost ⊢
    rwa [hcalls, hqueue, hpolled, hqueued, hclient]

theorem step_kept (hs : step persistent s a = some t) :
    (∃ e t0, a = .packet e t0) ∨ (∃ fr now, a = .poll fr now) ∨ a = .popValidation ∨
      (∃ c resp now t0 f, a = .advance c resp now t0 f) ∨ Kept s t := by
  cases a with
  | packet e t0 => exact Or.inl ⟨e, t0, rfl⟩
  | poll fr now => exact Or.inr (Or.inl ⟨fr, now, rfl⟩)
  | popValidation => exact Or.inr (Or.inr (Or.inl rfl))
  | advance c resp now t0 f => exact Or.inr (Or.inr (Or.inr (Or.inl ⟨c, resp, now, t0, f, rfl⟩)))
  | popPrediction =>
    obtain ⟨⟨e, router⟩, hpop, rfl⟩ := Option.map_eq_some_iff.mp hs
    exact Or.inr (Or.inr (Or.inr (Or.inr ⟨rfl, EventRouter.popPrediction_eq_some hpop, rfl, rfl, rfl, rfl, rfl⟩)))
  | expireStale maxAgeMs now =>
    cases hs
    exact Or.inr (Or.inr (Or.inr (Or.inr ⟨rfl, rfl, rfl, rfl, rfl, rfl, rfl⟩)))
  | outside targets durableTx =>
    cases hs
    exact Or.inr (Or.inr (Or.inr (Or.inr ⟨rfl, rfl, rfl, rfl, rfl, rfl, rfl⟩)))

theorem step_accounted (h : Sound s) (hs : step persistent s a = some t) :
    Sound t ∧ ∀ N, Accounted N s → Accounted N t := by
  rcases step_kept hs with ⟨e, t0, rfl⟩ | ⟨fr, now, rfl⟩ | rfl | ⟨c, resp, now, t0, f, rfl⟩ | hkept
  · obtain ⟨he, rfl⟩ := step_packet hs
    exact ⟨(h.received he).route t0 he, fun N ha => (ha.received e).route t0 he⟩
  · obtain rfl := step_poll hs
    exact ⟨h.ingested fr now, fun N ha => ha.ingested fr now⟩
  · exact ⟨h.popValidation hs, fun N ha => ha.popValidation hs⟩
  · obtain ⟨hc, rfl⟩ := step_advance hs
    have he := h.calls c hc
    by_cases hst : c.stage = .routing
    · have hb : Books (route s c.event t0) c none (advance persistent s c resp now t0 f) :=
        books_routing hst h.client t0
      exact ⟨(h.route t0 he).books hb hc, fun N ha => (ha.route t0 he).books hb hc⟩
    · obtain ⟨next, hb⟩ := books_advance persistent resp now t0 f he h.client hst
      exact ⟨h.books hb hc, fun N ha => ha.books hb hc⟩
  · exact quiet_step h hkept

theorem run_accounted {acts : List Act} (hrun : run (step persistent) s acts = some t) (h : Sound s)
    (ha : Accounted N s) : Sound t ∧ Accounted N t :=
  run_invariant (P := fun s => Sound s ∧ Accounted N s)
    (fun _ _ _ hk hs => ⟨(step_accounted hk.1 hs).1, (step_accounted hk.1 hs).2 N hk.2⟩) ⟨h, ha⟩ hrun

theorem sound_initial (durableTx : DurablePredictionTx) (eventQueueCapacity : Nat) :
    Sound (initial durableTx eventQueueCapacity) where
  calls := fun _ hc => absurd hc List.not_mem_nil
  queue := fun _ he => absurd he List.not_mem_nil
  client := fun _ => rfl

theorem accounted_initial (durableTx : DurablePredictionTx) (eventQueueCapacity : Nat) (N : RoundId) :
    Accounted N (initial durableTx eventQueueCapacity) := ⟨rfl, le_rfl, le_rfl⟩

/-! ### The condition -/

/-- So far the round came from the poll worker only, at most once, and never through the queue. -/
structure Clean (N : RoundId) (s : State) : Prop where
  packets : N ∉ s.log.packets
  polled : s.log.polled.count N ≤ 1
  queued : N ∉ s.log.queued

theorem clean_congr (hpackets : t.log.packets = s.log.packets) (hpolled : t.log.polled = s.log.polled)
    (hqueued : t.log.queued = s.log.queued) : Clean N t ↔ Clean N s := by
  constructor
  · rintro ⟨h₁, h₂, h₃⟩
    exact ⟨hpackets ▸ h₁, hpolled ▸ h₂, hqueued ▸ h₃⟩
  · rintro ⟨h₁, h₂, h₃⟩
    exact ⟨hpackets.symm ▸ h₁, hpolled.symm ▸ h₂, hqueued.symm ▸ h₃⟩

theorem clean_step (hpackets : t.log.packets = s.log.packets) (hpolled : t.log.polled = s.log.polled)
    (hqueued : t.log.queued = s.log.queued) (hok : OnlyPolled N s a) : Clean N t ↔ Clean N s ∧ OnlyPolled N s a := by
  rw [clean_congr hpackets hpolled hqueued]
  exact (and_iff_left hok).symm

/-- The router puts the End of the round into the queue unless it refuses it. -/
theorem clean_route (he : e.EndsRound) (t0 : Int) :
    Clean N (route s e t0) ↔ Clean N s ∧ (e.endedRound = N → s.router.Refuses e) := by
  rcases route_cases s t0 he with ⟨href, -, hqueued⟩ | ⟨hnot, -, hqueued⟩
  · have hsame : Clean N (route s e t0) ↔ Clean N s := clean_congr rfl rfl hqueued
    rw [hsame]
    exact ⟨fun h => ⟨h, fun _ => href⟩, And.left⟩
  · constructor
    · rintro ⟨h₁, h₂, h₃⟩
      rw [hqueued] at h₃
      refine ⟨⟨h₁, h₂, fun hN => h₃ (List.mem_append_left _ hN)⟩, fun hN => absurd ?_ h₃⟩
      exact List.mem_append_right _ (List.mem_singleton.mpr hN.symm)
    · rintro ⟨⟨h₁, h₂, h₃⟩, himp⟩
      refine ⟨h₁, h₂, ?_⟩
      rw [hqueued]
      intro hN
      rcases List.mem_append.mp hN with hN | hN
      · exact h₃ hN
      · exact hnot (himp (List.mem_singleton.mp hN).symm)

theorem clean_received : Clean N (received s e) ↔ Clean N s ∧ e.endedRound ≠ N := by
  constructor
  · rintro ⟨h₁, h₂, h₃⟩
    refine ⟨⟨fun hN => h₁ (List.mem_append_left _ hN), h₂, h₃⟩, fun hN => h₁ ?_⟩
    exact List.mem_append_right _ (List.mem_singleton.mpr hN.symm)
  · rintro ⟨⟨h₁, h₂, h₃⟩, hne⟩
    refine ⟨fun hN => ?_, h₂, h₃⟩
    rcases List.mem_append.mp hN with hN | hN
    · exact h₁ hN
    · exact hne (List.mem_singleton.mp hN).symm

theorem clean_ingested {fr : FetchedRound} :
    Clean N (ingested s fr now) ↔ Clean N s ∧ (fr.gameId = N → N ∉ s.log.polled) := by
  have hcount := count_append_singleton s.log.polled fr.gameId N
  constructor
  · rintro ⟨h₁, h₂, h₃⟩
    have h₂' : (s.log.polled ++ [fr.gameId]).count N ≤ 1 := h₂
    refine ⟨⟨h₁, by omega, h₃⟩, fun hN => List.count_eq_zero.mp ?_⟩
    rw [if_pos hN] at hcount
    omega
  · rintro ⟨⟨h₁, h₂, h₃⟩, himp⟩
    refine ⟨h₁, ?_, h₃⟩
    show (s.log.polled ++ [fr.gameId]).count N ≤ 1
    by_cases hN : fr.gameId = N
    · have hzero := List.count_eq_zero.mpr (himp hN)
      rw [if_pos hN] at hcount
      omega
    · rw [if_neg hN] at hcount
      omega

/-- A step keeps the round clean exactly when it is `OnlyPolled`, and no step makes it clean again. -/
theorem step_clean (h : Sound s) (hs : step persistent s a = some t) :
    Clean N t ↔ Clean N s ∧ OnlyPolled N s a := by
  cases a with
  | packet e t0 =>
    obtain ⟨he, rfl⟩ := step_packet hs
    rw [clean_route he, clean_received]
    exact ⟨And.left, fun hc => ⟨hc, fun hN => absurd hN hc.2⟩⟩
  | poll fr now =>
    obtain rfl := step_poll hs
    exact clean_ingested
  | popValidation =>
    obtain ⟨_, -, rfl⟩ := Option.map_eq_some_iff.mp hs
    exact clean_step rfl rfl rfl trivial
  | advance c resp now t0 f =>
    obtain ⟨hc, rfl⟩ := step_advance hs
    by_cases hst : c.stage = .routing
    · have hm : Books (route s c.event t0) c none (advance persistent s c resp now t0 f) :=
        books_routing hst h.client t0
      rw [clean_congr hm.moves.packets hm.moves.polled hm.moves.queued, clean_route (h.calls c hc)]
      exact and_congr_right fun _ => ⟨fun himp _ => himp, fun himp => himp hst⟩
    · obtain ⟨next, hb⟩ := books_advance persistent resp now t0 f (h.calls c hc) h.client hst
      exact clean_step hb.moves.packets hb.moves.polled hb.moves.queued fun hroute => absurd hroute hst
  | popPrediction =>
    obtain ⟨_, -, rfl⟩ := Option.map_eq_some_iff.mp hs
    exact clean_step rfl rfl rfl trivial
  | expireStale maxAgeMs now =>
    cases hs
    exact clean_step rfl rfl rfl trivial
  | outside targets durableTx =>
    cases hs
    exact clean_step rfl rfl rfl trivial

/-- At the end of a run the arrivals tell whether all its steps were `OnlyPolled`. -/
theorem clean_iff (durableTx : DurablePredictionTx) (eventQueueCapacity : Nat) {acts : List Act}
    (hrun : run (step persistent) (initial durableTx eventQueueCapacity) acts = some t) :
    Clean N t ↔ Meets (step persistent) (OnlyPolled N) (initial durableTx eventQueueCapacity) acts := by
  have hfirst : Clean N (initial durableTx eventQueueCapacity) :=
    ⟨List.not_mem_nil, Nat.zero_le _, List.not_mem_nil⟩
  rw [last_iff_meets (I := Sound) (fun _ _ _ h hs => (step_accounted h hs).1) (fun _ _ _ => step_clean)
    (sound_initial durableTx eventQueueCapacity) hrun]
  exact and_iff_right hfirst

theorem Quiet.owed (h : Quiet N s) : owedEntries N s = 0 ∧ owedSamples N s = 0 := by
  refine ⟨Nat.add_eq_zero_iff.mpr ⟨?_, ?_⟩, Nat.add_eq_zero_iff.mpr ⟨?_, ?_⟩⟩
  · exact List.countP_eq_zero.mpr fun c hc => by simp [entryOwed, h.1 c hc]
  · exact List.countP_eq_zero.mpr fun e he => by simp [h.2 e he]
  · exact List.countP_eq_zero.mpr fun c hc => by simp [sampleOwed, h.1 c hc]
  · exact List.countP_eq_zero.mpr fun e he => by simp [h.2 e he]

/-- With nothing under way the round is observed once exactly when it came once, from the poll worker, and not through
    the queue. -/
theorem observedOnce_iff_clean (ha : Accounted N t) (harr : Arrived N t) (hquiet : Quiet N t) :
    ObservedOnce N t ↔ Clean N t := by
  obtain ⟨hentries, hsamples⟩ := hquiet.owed
  obtain ⟨hall, hleast, hmost⟩ := ha
  rw [hentries] at hall
  rw [hsamples] at hleast hmost
  constructor
  · rintro ⟨hobs, hent⟩
    -- a sample without a poll comes through the queue, and then the entries of the packet and of the queue are two
    have hpolled : t.log.polled.count N = 1 := by
      by_contra hne
      have hnone : N ∉ t.log.polled := List.count_eq_zero.mp (by omega)
      have hqueued : N ∈ t.log.queued := List.count_pos_iff.mp (by omega)
      have hpacket : N ∈ t.log.packets := harr.resolve_right hnone
      have hpos : 0 < t.log.packets.count N := List.count_pos_iff.mpr hpacket
      have hpos' : 0 < t.log.queued.count N := List.count_pos_iff.mpr hqueued
      omega
    exact ⟨List.count_eq_zero.mp (by omega), hpolled.le, List.count_eq_zero.mp (by omega)⟩
  · rintro ⟨hpackets, hpolled, hqueued⟩
    have hp : t.log.packets.count N = 0 := List.count_eq_zero.mpr hpackets
    have hq : t.log.queued.count N = 0 := List.count_eq_zero.mpr hqueued
    have hpos : 0 < t.log.polled.count N := List.count_pos_iff.mpr (harr.resolve_left hpackets)
    exact ⟨by omega, by omega⟩

/-- In every run in which an End of the round arrives, and that goes on until none is under way, the round is observed
    once and gets one entry exactly when its End comes from the poll worker only, once, and the router does not put it
    into the validation queue. -/
theorem observedOnce_iff (persistent : Bool) (durableTx : DurablePredictionTx) (eventQueueCapacity : Nat)
    (acts : List Act) (t : State) (N : RoundId)
    (hrun : run (step persistent) (initial durableTx eventQueueCapacity) acts = some t) (harr : Arrived N t)
    (hquiet : Quiet N t) :
    ObservedOnce N t ↔ Meets (step persistent) (OnlyPolled N) (initial durableTx eventQueueCapacity) acts := by
  obtain ⟨-, ha⟩ := run_accounted hrun (sound_initial durableTx eventQueueCapacity) (accounted_initial durableTx _ N)
  rw [observedOnce_iff_clean ha harr hquiet]
  exact clean_iff durableTx eventQueueCapacity hrun

/-! ### The history -/

/-- The history holds the last of the entries that were made. -/
structure Recorded (s : State) : Prop where
  capacity : s.history.capacity = 200
  buf : s.history.buf.map (·.gameId) = s.log.entries.popFrontTo 200

theorem Recorded.pushHistory (h : Recorded s) (he : e.EndsRound) (now : TimestampMs) :
    Recorded (pushHistory s e now) := by
  have hpush : (RoundEnds.pushHistory s e now).history = s.history.push (RollingHistoryBuffer.entry e now) :=
    if_neg (not_not_intro he.valid)
  refine ⟨?_, ?_⟩
  · rw [hpush]
    exact h.capacity
  · rw [hpush]
    show (List.popFrontTo s.history.capacity _).map _ = List.popFrontTo 200 (s.log.entries ++ [_])
    rw [List.map_popFrontTo, List.map_append, h.buf, h.capacity]
    exact List.popFrontTo_append_singleton _ _

theorem Recorded.roundEndDone (h : Recorded s) : Recorded (roundEndDone s c) := by
  unfold RoundEnds.roundEndDone
  split
  · exact ⟨h.capacity, h.buf⟩
  · exact ⟨h.capacity, h.buf⟩

theorem Recorded.advance (h : Recorded s) (he : c.event.EndsRound) :
    Recorded (advance persistent s c resp now t0 f) := by
  have hpush := h.pushHistory he now
  obtain ⟨hcapacity, hbuf⟩ := h
  unfold RoundEnds.advance
  dsimp only
  rcases c.stage with _ | _ | _ | _ | _ | _ | resp' | ⟨resp', pev⟩ | resp' | pev | _ <;> dsimp only
  case routed | popped => exact ⟨hpush.capacity, hpush.buf⟩
  case submitting =>
    split
    · exact ⟨hcapacity, hbuf⟩
    · exact Recorded.roundEndDone ⟨hcapacity, hbuf⟩
  case handling => split <;> exact ⟨hcapacity, hbuf⟩
  case coordinating =>
    split
    · exact Recorded.roundEndDone ⟨hcapacity, hbuf⟩
    · exact ⟨hcapacity, hbuf⟩
  case handingOff => exact Recorded.roundEndDone ⟨hcapacity, hbuf⟩
  all_goals exact ⟨hcapacity, hbuf⟩

theorem step_recorded (hsound : Sound s) (h : Recorded s) (hs : step persistent s a = some t) : Recorded t := by
  cases a with
  | packet e t0 =>
    obtain ⟨-, rfl⟩ := step_packet hs
    exact ⟨h.capacity, h.buf⟩
  | poll fr now =>
    obtain rfl := step_poll hs
    have hpush := h.pushHistory (fetched_endsRound fr) now
    exact ⟨hpush.capacity, hpush.buf⟩
  | advance c resp now t0 f =>
    obtain ⟨hc, rfl⟩ := step_advance hs
    exact h.advance (hsound.calls c hc)
  | popValidation | popPrediction =>
    obtain ⟨_, -, rfl⟩ := Option.map_eq_some_iff.mp hs
    exact ⟨h.capacity, h.buf⟩
  | expireStale maxAgeMs now =>
    cases hs
    exact ⟨h.capacity, h.buf⟩
  | outside targets durableTx =>
    cases hs
    exact ⟨h.capacity, h.buf⟩

/-- After a run the history holds the last 200 entries. -/
theorem run_recorded (durableTx : DurablePredictionTx) (eventQueueCapacity : Nat) {acts : List Act}
    (hrun : run (step persistent) (initial durableTx eventQueueCapacity) acts = some t) :
    t.history.buf.map (·.gameId) = t.log.entries.popFrontTo 200 := by
  have hkeep : Sound t ∧ Recorded t := run_invariant (P := fun s => Sound s ∧ Recorded s)
    (fun _ _ _ h hs => ⟨(step_accounted h.1 hs).1, step_recorded h.1 h.2 hs⟩)
    ⟨sound_initial durableTx eventQueueCapacity, rfl, rfl⟩ hrun
  exact hkeep.2.buf

/-- Up to 200 entries the history has as many for a round as were made. -/
theorem history_count (durableTx : DurablePredictionTx) (eventQueueCapacity : Nat) {acts : List Act}
    (hrun : run (step persistent) (initial durableTx eventQueueCapacity) acts = some t)
    (hlen : t.log.entries.length ≤ 200) (N : RoundId) : (t.history.buf.map (·.gameId)).count N = entries N t := by
  rw [run_recorded durableTx eventQueueCapacity hrun, List.popFrontTo_of_le hlen]
  rfl

/-! ### Whole calls -/

def polledRound (fr : FetchedRound) : List Act :=
  .poll fr 5 :: [.observing, .submitting, .routing].map (polledStage fr · .skip)

/-- A stage of the drain of the validation queue, with an engine that skips. -/
def drainedStage (fr : FetchedRound) (stage : Stage) : Act :=
  .advance ⟨.main, fr.event, stage⟩ { predictionId := "p", targetRoundId := "", decision := .skip, confidence := 1 } 5 0 {}

def drainedRound (fr : FetchedRound) : List Act :=
  .popValidation :: [.popped, .settling, .taking, .observing, .submitting].map (drainedStage fr)

/-- The second round finds the queue full. -/
theorem observedOnce_fullQueue : ∃ t, run (step false) (initial inMemory 2) (polledRound round1 ++ polledRound round2) =
    some t ∧ ObservedOnce "2" t := by
  have hsome : (run (step false) (initial inMemory 2) (polledRound round1 ++ polledRound round2)).any
      (fun t => decide (Arrived "2" t ∧ Quiet "2" t)) = true := by decide +kernel
  obtain ⟨t, ht, hend⟩ := (Option.any_eq_true _ _).mp hsome
  obtain ⟨harr, hquiet⟩ := of_decide_eq_true hend
  exact ⟨t, ht, (observedOnce_iff false inMemory 2 _ t "2" ht harr hquiet).mpr (by decide +kernel)⟩

/-- The handler of the poll worker observes the round, and the drain of the queue observes it again. -/
theorem not_observedOnce_polled : ∃ t, run (step false) (initial inMemory 8) (polledRound round1 ++ drainedRound round1) =
    some t ∧ Arrived "1" t ∧ Quiet "1" t ∧ observations "1" t = 2 ∧ entries "1" t = 2 ∧ ¬ObservedOnce "1" t := by
  have hsome : (run (step false) (initial inMemory 8) (polledRound round1 ++ drainedRound round1)).any
      (fun t => decide (Arrived "1" t ∧ Quiet "1" t ∧ observations "1" t = 2 ∧ entries "1" t = 2 ∧
        ¬ObservedOnce "1" t)) = true := by decide +kernel
  obtain ⟨t, ht, hend⟩ := (Option.any_eq_true _ _).mp hsome
  exact ⟨t, ht, of_decide_eq_true hend⟩

end RoundEnds
end CrashCore
