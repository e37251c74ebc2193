import CrashCore.Application.NextRounds
import CrashCore.Theorems.OwnResponses

/-! The coordinator of the next round beside the response handler. Before the coordinator sees a response, the handler has
registered the prediction, so its own registration finds a duplicate: everything that is published comes from the
handler. -/

namespace CrashCore

theorem nextRoundId_ne_empty (currentGameId : String) : nextRoundId currentGameId ≠ "" := by
  unfold nextRoundId
  split
  · exact fun h => (numeric_toString _).1 (by rw [h]; rfl)
  · intro h
    have hlength := congrArg String.length h
    simp at hlength

namespace PredictionRegistry
variable {r : PredictionRegistry} {ev : PredictionEvent}

theorem pruneIfNeeded_of_le (h : r.entries.length ≤ r.maxEntries) : r.pruneIfNeeded = r := by
  rw [pruneIfNeeded, if_pos h]

/-- With room in the registry a prediction is listed after its registration, whether that was refused or not. -/
theorem lists_registerPrediction (htarget : ev.targetRoundId ≠ "") (hroom : r.entries.length < r.maxEntries) :
    (r.registerPrediction ev).1.Lists ev := by
  unfold registerPrediction
  by_cases hlists : r.Lists ev
  · rw [if_neg htarget, if_pos hlists]
    exact hlists
  · rw [if_neg htarget, if_neg hlists, pruneIfNeeded_of_le (by rw [List.length_append]; exact hroom)]
    exact ⟨ev, by simp, rfl, rfl⟩

theorem registerPrediction_of_lists (htarget : ev.targetRoundId ≠ "") (h : r.Lists ev) :
    r.registerPrediction ev =
      ({ r with duplicates := r.duplicates + 1 }, .error ⟨.duplicate, "prediction already registered"⟩) := by
  rw [registerPrediction, if_neg htarget, if_pos h]

/-- A registration that finds room takes nothing out. -/
theorem Lists.registerPrediction {ev' : PredictionEvent} (h : r.Lists ev') (hroom : r.entries.length < r.maxEntries) :
    (r.registerPrediction ev).1.Lists ev' := by
  obtain ⟨e, he, hid⟩ := h
  unfold PredictionRegistry.registerPrediction
  split
  · exact ⟨e, he, hid⟩
  split
  · exact ⟨e, he, hid⟩
  · rw [pruneIfNeeded_of_le (by rw [List.length_append]; exact hroom)]
    exact ⟨e, List.mem_append_left _ he, hid⟩

/-- Only the id and the target of a prediction count. -/
theorem Lists.congr {ev' : PredictionEvent} (h : r.Lists ev) (htarget : ev.targetRoundId = ev'.targetRoundId)
    (hid : ev.predictionId = ev'.predictionId) : r.Lists ev' := by
  obtain ⟨e, he, hetarget, heid⟩ := h
  exact ⟨e, he, hetarget.trans htarget, heid.trans hid⟩

end PredictionRegistry

namespace NextRounds
open Transition
open NextRoundCalls (Caller Answer Phase)

variable {persistent : Bool} {engine : PredictionEngine} {options : ClientOptions} {s t : State} {a : Act}
  {caller : Caller} {e : CrashEvent} {resp : PredictionResponse} {registry : PredictionRegistry} {phase : Phase}
  {stage : Stage}

/-- The prediction of the response is registered. -/
def ListsResponse (registry : PredictionRegistry) (resp : PredictionResponse) : Prop :=
  registry.Lists (fromResponse resp "" 0 0)

/-- The handler is done with the registration, and the coordinator has not come to its own. -/
inductive Between (s : State) : PredictionResponse → Prop
  | publishing {caller : Caller} {e : CrashEvent} {resp : PredictionResponse} {pev : PredictionEvent} :
      s.stage caller = .publishing e resp pev → Between s resp
  | waiting {caller : Caller} {e : CrashEvent} {req : PredictionRequest} {own : Answer} : s.stage caller = .calling e →
      s.client.phase caller = .waiting req own → isActionable own.response → Between s own.response
  | coordinating {caller : Caller} {e : CrashEvent} {resp : PredictionResponse} :
      s.stage caller = .coordinating e resp → Between s resp

/-- A response is stored only with the handler set and no other call waiting for its correlation id, the handler finds
    the registry below its bound, and nobody takes out a prediction that a coordinator is still to come by. -/
def Orderly (s : State) : Act → Prop
  | .store caller => s.handler ∧ NextRoundCalls.OneWaits s.client (.store caller)
  | .handle _ _ => s.app.registry.entries.length < s.app.registry.maxEntries
  | .outside app => ∀ resp, Between s resp → ListsResponse app.registry resp
  | _ => True

/-! ### What is registered -/

/-- The request of a call. -/
def request? : Phase → Option PredictionRequest
  | .idle => none
  | .requested req | .predicted req _ _ | .answered req _ | .waiting req _ | .missed req _ => some req

def Named (client : NextRoundCalls.State) : Prop :=
  ∀ caller, ∀ req ∈ request? (client.phase caller), req.targetRoundId ≠ ""

theorem Named.step {client client' : NextRoundCalls.State} {a : NextRoundCalls.Act} (h : Named client)
    (hs : NextRoundCalls.step engine options client a = some client') : Named client' := by
  have hupdate : ∀ {caller : Caller} {phase : Phase}, client'.phase = Function.update client.phase caller phase →
      (∀ req ∈ request? phase, req.targetRoundId ≠ "") → Named client' := by
    intro caller phase heq hphase
    rw [Named, heq, Function.forall_update_iff client.phase fun _ p => ∀ req ∈ request? p, req.targetRoundId ≠ ""]
    exact ⟨hphase, fun other _ => h other⟩
  cases a with
  | begin caller e now requestTimeMs requestNs =>
    cases hphase : client.phase caller <;> simp only [NextRoundCalls.step, hphase, reduceCtorEq] at hs
    cases hs
    exact hupdate rfl fun req hreq => Option.some.inj hreq ▸ nextRoundId_ne_empty _
  | predict caller responseTimeMs | answer caller adaptive | store caller | fallback caller =>
    have hreq := h caller
    cases hphase : client.phase caller <;> simp only [NextRoundCalls.step, hphase, reduceCtorEq] at hs
    cases hs
    rw [hphase] at hreq
    first | exact hupdate rfl hreq | exact hupdate rfl (by simp [request?])
  | poll caller =>
    have hreq := h caller
    cases hphase : client.phase caller <;> simp only [NextRoundCalls.step, hphase, reduceCtorEq] at hs
    rw [hphase] at hreq
    split at hs <;> cases hs
    · exact hupdate rfl (by simp [request?])
    · exact hupdate rfl hreq

/-- How the stage of a call goes with its phase in the client, and what is registered by then. -/
def Settled (registry : PredictionRegistry) (phase : Phase) : Stage → Prop
  | .idle => phase = .idle
  | .calling _ => phase ≠ .idle ∧
      ∀ req own, phase = .waiting req own → isActionable own.response → ListsResponse registry own.response
  | .handling _ resp => ∃ req own, phase = .waiting req own ∧ own.response = resp
  | .publishing _ resp _ => (∃ req own, phase = .waiting req own ∧ own.response = resp) ∧ ListsResponse registry resp
  | .coordinating _ resp => phase = .idle ∧ resp.targetRoundId ≠ "" ∧ ListsResponse registry resp
  | .handingOff _ => False

theorem Settled.mono {registry' : PredictionRegistry} (h : Settled registry phase stage)
    (hmono : ∀ resp, ListsResponse registry resp → ListsResponse registry' resp) : Settled registry' phase stage := by
  cases stage with
  | idle | handling | handingOff => exact h
  | calling => exact ⟨h.1, fun req own hphase hact => hmono _ (h.2 req own hphase hact)⟩
  | publishing => exact ⟨h.1, hmono _ h.2⟩
  | coordinating => exact ⟨h.1, h.2.1, hmono _ h.2.2⟩

/-! ### What is counted -/

/-- The call has begun and not ended. -/
def Stage.underWay : Stage → Nat
  | .idle => 0
  | .calling _ | .handling _ _ | .publishing _ _ _ | .coordinating _ _ | .handingOff _ => 1

/-- The call has its response, which is not counted as actionable yet. -/
def Stage.answered : Stage → Nat
  | .coordinating _ _ | .handingOff _ => 1
  | .idle | .calling _ | .handling _ _ | .publishing _ _ _ => 0

def total (f : Stage → Nat) (s : State) : Nat := f (s.stage .pollHandler) + f (s.stage .mainLoop)

theorem total_update (f : Stage → Nat) (hstage : t.stage = Function.update s.stage caller stage) :
    total f t + f (s.stage caller) = total f s + f stage := by
  rw [total, total, hstage]
  cases caller with
  | pollHandler =>
    rw [Function.update_self, Function.update_of_ne (by decide)]
    omega
  | mainLoop =>
    rw [Function.update_self, Function.update_of_ne (by decide)]
    omega

/-- Every valid End is counted once, and the coordinator has registered and handed off nothing. -/
structure Counted (s : State) : Prop where
  ends : s.ends = s.n1.actionable + s.n1.skipped + total Stage.underWay s
  attempts : s.n1.n1Attempts = s.n1.actionable + s.n1.skipped + total Stage.answered s
  registered : s.n1.registered = 0
  handedOff : s.handedOff = 0

/-- What one call counts in a step. -/
theorem Counted.move (h : Counted s) (hstage : t.stage = Function.update s.stage caller stage)
    (hends : t.ends + (s.n1.actionable + s.n1.skipped) + (s.stage caller).underWay =
      s.ends + (t.n1.actionable + t.n1.skipped) + stage.underWay)
    (hattempts : t.n1.n1Attempts + (s.n1.actionable + s.n1.skipped) + (s.stage caller).answered =
      s.n1.n1Attempts + (t.n1.actionable + t.n1.skipped) + stage.answered)
    (hregistered : t.n1.registered = s.n1.registered) (hoff : t.handedOff = s.handedOff) : Counted t := by
  have hunder := total_update Stage.underWay hstage
  have hanswered := total_update Stage.answered hstage
  have hcalls := h.ends
  have hback := h.attempts
  exact ⟨by omega, by omega, hregistered.trans h.registered, hoff.trans h.handedOff⟩

/-- A stage of a call that is not counted. -/
theorem Counted.update (h : Counted s) (hstage : t.stage = Function.update s.stage caller stage)
    (hunder : stage.underWay = (s.stage caller).underWay) (hanswered : stage.answered = (s.stage caller).answered)
    (hn1 : t.n1 = s.n1) (hends : t.ends = s.ends) (hoff : t.handedOff = s.handedOff) : Counted t :=
  h.move hstage (by rw [hn1, hends, hunder]) (by rw [hn1, hanswered]) (by rw [hn1]) hoff

theorem Counted.congr (h : Counted s) (hstage : t.stage = s.stage) (hn1 : t.n1 = s.n1) (hends : t.ends = s.ends)
    (hoff : t.handedOff = s.handedOff) : Counted t :=
  h.update (hstage.trans (Function.update_eq_self Caller.mainLoop s.stage).symm) rfl rfl hn1 hends hoff

/-! ### Steps -/

structure Inv (s : State) : Prop where
  client : NextRoundCalls.Inv s.client
  kept : NextRoundCalls.Kept s.client
  named : Named s.client
  settled : ∀ caller, Settled s.app.registry (s.client.phase caller) (s.stage caller)

/-- A step of one call leaves the other one as it is, and keeps what is registered. -/
theorem settled_update (h : ∀ caller, Settled s.app.registry (s.client.phase caller) (s.stage caller))
    (hphase : t.client.phase = Function.update s.client.phase caller phase)
    (hstage : t.stage = Function.update s.stage caller stage)
    (hmono : ∀ resp, ListsResponse s.app.registry resp → ListsResponse t.app.registry resp)
    (hown : Settled t.app.registry phase stage) (other : Caller) :
    Settled t.app.registry (t.client.phase other) (t.stage other) := by
  rw [hphase, hstage]
  by_cases hne : other = caller
  · subst hne
    rwa [Function.update_self, Function.update_self]
  · rw [Function.update_of_ne hne, Function.update_of_ne hne]
    exact (h other).mono hmono

theorem Settled.eq_calling (h : Settled registry phase stage) (hidle : phase ≠ .idle)
    (hwaits : ∀ req own, phase ≠ .waiting req own) : ∃ e, stage = .calling e := by
  cases stage with
  | calling e => exact ⟨e, rfl⟩
  | idle => exact absurd h hidle
  | handling =>
    obtain ⟨req, own, hphase, -⟩ := h
    exact absurd hphase (hwaits req own)
  | publishing =>
    obtain ⟨⟨req, own, hphase, -⟩, -⟩ := h
    exact absurd hphase (hwaits req own)
  | coordinating => exact absurd h.1 hidle
  | handingOff => exact h.elim

/-- A step in the client. -/
theorem Inv.client_step (h : Inv s) {client : NextRoundCalls.State} {ca : NextRoundCalls.Act}
    (hs : NextRoundCalls.step engine options s.client ca = some client) (hok : NextRoundCalls.OneWaits s.client ca) :
    NextRoundCalls.Inv client ∧ NextRoundCalls.Kept client ∧ Named client :=
  have hstep := NextRoundCalls.inv_step h.client hs
  ⟨hstep.1, hstep.2.mpr ⟨h.kept, hok⟩, h.named.step hs⟩

theorem Inv.begin {now requestTimeMs : TimestampMs} {requestNs : Int} (h : Inv s) (hc : Counted s)
    (hs : step persistent engine options s (.begin caller e now requestTimeMs requestNs) = some t) : Inv t ∧ Counted t := by
  cases hstage : s.stage caller <;> simp only [step, hstage, reduceCtorEq] at hs
  split at hs
  · cases hs
    exact ⟨h, hc⟩
  obtain ⟨client, hclient, rfl⟩ := Option.map_eq_some_iff.mp hs
  obtain ⟨hinv, hkept, hnamed⟩ := h.client_step hclient trivial
  have hidle : s.client.phase caller = .idle := by
    have hown := h.settled caller
    rwa [hstage] at hown
  simp only [NextRoundCalls.step, hidle] at hclient
  cases hclient
  refine ⟨⟨hinv, hkept, hnamed, settled_update h.settled rfl rfl (fun _ hl => hl) ⟨by simp, by simp⟩⟩, ?_⟩
  refine hc.move rfl ?_ ?_ rfl rfl
  · simp only [hstage, setStage, Stage.underWay]
    omega
  · simp only [hstage, setStage, Stage.answered]

theorem Inv.calling (h : Inv s) (hphase : s.client.phase caller = phase) (hidle : phase ≠ .idle)
    (hwaits : ∀ req own, phase ≠ .waiting req own) : ∃ e, s.stage caller = .calling e :=
  (hphase ▸ h.settled caller).eq_calling hidle hwaits

/-- A step in the client that leaves the call in `predictNextAfterEnd`. -/
theorem Inv.goOn (h : Inv s) (hc : Counted s) {client : NextRoundCalls.State} {ca : NextRoundCalls.Act}
    (hs : NextRoundCalls.step engine options s.client ca = some client) (hok : NextRoundCalls.OneWaits s.client ca)
    (hphase : client.phase = Function.update s.client.phase caller phase) (hcalling : ∃ e, s.stage caller = .calling e)
    (hidle : phase ≠ .idle)
    (hlists : ∀ req own, phase = .waiting req own → isActionable own.response → ListsResponse s.app.registry own.response) :
    Inv { s with client } ∧ Counted { s with client } := by
  obtain ⟨hinv, hkept, hnamed⟩ := h.client_step hs hok
  obtain ⟨e, hstage⟩ := hcalling
  have hsame : s.stage = Function.update s.stage caller (.calling e) := by rw [← hstage, Function.update_eq_self]
  exact ⟨⟨hinv, hkept, hnamed, settled_update (t := { s with client }) h.settled hphase hsame (fun _ hl => hl)
    ⟨hidle, hlists⟩⟩, hc.congr rfl rfl rfl rfl⟩

theorem Inv.predict {responseTimeMs : TimestampMs} (h : Inv s) (hc : Counted s)
    (hs : step persistent engine options s (.predict caller responseTimeMs) = some t) : Inv t ∧ Counted t := by
  simp only [step] at hs
  obtain ⟨client, hclient, rfl⟩ := Option.map_eq_some_iff.mp hs
  have hstep := hclient
  cases hphase : s.client.phase caller <;> simp only [NextRoundCalls.step, hphase, reduceCtorEq] at hstep
  cases hstep
  exact h.goOn hc hclient trivial rfl (h.calling hphase (by simp) (by simp)) (by simp) (by simp)

theorem Inv.answer {adaptive : Option AdaptiveEdge} (h : Inv s) (hc : Counted s)
    (hs : step persistent engine options s (.answer caller adaptive) = some t) : Inv t ∧ Counted t := by
  simp only [step] at hs
  obtain ⟨client, hclient, rfl⟩ := Option.map_eq_some_iff.mp hs
  have hstep := hclient
  cases hphase : s.client.phase caller <;> simp only [NextRoundCalls.step, hphase, reduceCtorEq] at hstep
  cases hstep
  exact h.goOn hc hclient trivial rfl (h.calling hphase (by simp) (by simp)) (by simp) (by simp)

theorem Inv.store (h : Inv s) (hc : Counted s) (hok : Orderly s (.store caller))
    (hs : step persistent engine options s (.store caller) = some t) : Inv t ∧ Counted t := by
  simp only [step] at hs
  split at hs
  case h_2 => cases hs
  rename_i e req own hstage hphase
  obtain ⟨client, hclient, rfl⟩ := Option.map_eq_some_iff.mp hs
  have hstep := hclient
  simp only [NextRoundCalls.step, hphase] at hstep
  cases hstep
  by_cases hact : isActionable own.response
  · rw [if_pos ⟨hok.1, hact⟩]
    obtain ⟨hinv, hkept, hnamed⟩ := h.client_step hclient hok.2
    refine ⟨⟨hinv, hkept, hnamed, settled_update h.settled rfl rfl (fun _ hl => hl) ⟨req, own, rfl, rfl⟩⟩, ?_⟩
    exact hc.update rfl (by rw [hstage]; rfl) (by rw [hstage]; rfl) rfl rfl rfl
  · rw [if_neg fun hboth => hact hboth.2]
    refine h.goOn hc hclient hok.2 rfl ⟨e, hstage⟩ (by simp) fun req' own' heq hact' => ?_
    cases heq
    exact absurd hact' hact

/-- The handler registers the prediction, or finds it registered. -/
theorem Inv.handle {now : TimestampMs} (h : Inv s) (hc : Counted s) (hok : Orderly s (.handle caller now))
    (hs : step persistent engine options s (.handle caller now) = some t) : Inv t ∧ Counted t := by
  cases hstage : s.stage caller <;> simp only [step, hstage, reduceCtorEq] at hs
  rename_i e resp
  have hown := h.settled caller
  rw [hstage] at hown
  obtain ⟨req, own, hphase, hresp⟩ := hown
  have htarget : resp.targetRoundId ≠ "" := by
    have htagged := (h.client.tagged caller req own (NextRoundCalls.own_of_phase hphase rfl)).2
    have hnamed := h.named caller req (by rw [hphase]; rfl)
    rwa [← hresp, htagged]
  have hlists : (s.app.registry.registerPrediction (fromResponse resp resp.targetRoundId 0 now)).1.Lists
      (fromResponse resp resp.targetRoundId 0 now) := PredictionRegistry.lists_registerPrediction htarget hok
  have hmono : ∀ resp', ListsResponse s.app.registry resp' →
      ListsResponse (s.app.registry.registerPrediction (fromResponse resp resp.targetRoundId 0 now)).1 resp' :=
    fun _ hl => hl.registerPrediction hok
  have hsame : s.client.phase = Function.update s.client.phase caller (.waiting req own) := by
    rw [← hphase, Function.update_eq_self]
  have hlisted : ListsResponse (s.app.registry.registerPrediction (fromResponse resp resp.targetRoundId 0 now)).1 resp :=
    hlists.congr rfl rfl
  split at hs
  · rename_i registry err hreg
    rw [hreg] at hmono hlisted
    cases hs
    refine ⟨⟨h.client, h.kept, h.named, settled_update h.settled hsame rfl hmono ⟨by simp, ?_⟩⟩, ?_⟩
    · rintro req' own' heq -
      cases heq
      rwa [hresp]
    · exact hc.update rfl (by rw [hstage]; rfl) (by rw [hstage]; rfl) rfl rfl rfl
  · rename_i registry u hreg
    rw [hreg] at hmono hlisted
    cases hs
    refine ⟨⟨h.client, h.kept, h.named, settled_update h.settled hsame rfl hmono ⟨⟨req, own, rfl, hresp⟩, hlisted⟩⟩, ?_⟩
    exact hc.update rfl (by rw [hstage]; rfl) (by rw [hstage]; rfl) rfl rfl rfl

theorem Inv.publish {now : TimestampMs} {f : Faults} (h : Inv s) (hc : Counted s)
    (hs : step persistent engine options s (.publish caller now f) = some t) : Inv t ∧ Counted t := by
  cases hstage : s.stage caller <;> simp only [step, hstage, reduceCtorEq] at hs
  rename_i e resp pev
  have hown := h.settled caller
  rw [hstage] at hown
  obtain ⟨⟨req, own, hphase, hresp⟩, hlisted⟩ := hown
  have hsame : s.client.phase = Function.update s.client.phase caller (.waiting req own) := by
    rw [← hphase, Function.update_eq_self]
  cases hs
  refine ⟨⟨h.client, h.kept, h.named, settled_update h.settled hsame rfl (fun _ hl => hl) ⟨by simp, ?_⟩⟩, ?_⟩
  · rintro req' own' heq -
    cases heq
    rwa [hresp]
  · exact hc.update rfl (by rw [hstage]; rfl) (by rw [hstage]; rfl) rfl rfl rfl

/-- A call finds its own response, whose prediction is registered. -/
theorem Inv.poll (h : Inv s) (hc : Counted s) (hs : step persistent engine options s (.poll caller) = some t) :
    Inv t ∧ Counted t := by
  simp only [step] at hs
  split at hs
  case h_2 => cases hs
  rename_i e req own hstage hphase
  have hown := h.settled caller
  rw [hstage, hphase] at hown
  have hpending : s.client.pending req.correlationId = some own := by
    have hlost := h.kept.2 caller
    rw [hphase] at hlost
    exact not_not.mp hlost
  have htarget : own.response.targetRoundId ≠ "" := by
    have htagged := (h.client.tagged caller req own (NextRoundCalls.own_of_phase hphase rfl)).2
    rw [htagged]
    exact h.named caller req (by rw [hphase]; rfl)
  obtain ⟨client, hclient, rfl⟩ := Option.map_eq_some_iff.mp hs
  obtain ⟨hinv, hkept, hnamed⟩ := h.client_step hclient trivial
  simp only [NextRoundCalls.step, hphase, hpending] at hclient
  cases hclient
  simp only [hpending, returned]
  split
  · rename_i hact
    refine ⟨⟨hinv, hkept, hnamed, settled_update h.settled rfl rfl (fun _ hl => hl)
      ⟨rfl, htarget, hown.2 req own rfl hact⟩⟩, ?_⟩
    refine hc.move rfl ?_ ?_ rfl rfl
    · simp only [hstage, setStage, Stage.underWay]
    · simp only [hstage, Stage.answered]
      omega
  · refine ⟨⟨hinv, hkept, hnamed, settled_update h.settled rfl rfl (fun _ hl => hl) rfl⟩, ?_⟩
    refine hc.move rfl ?_ ?_ rfl rfl
    · simp only [hstage, setStage, Stage.underWay]
      omega
    · simp only [hstage, Stage.answered]
      omega

/-- The own registration of the coordinator finds a duplicate. -/
theorem Inv.coordinate_eq {now : TimestampMs} (h : Inv s)
    (hs : step persistent engine options s (.coordinate caller now) = some t) :
    (∃ e resp, s.stage caller = .coordinating e resp) ∧ s.client.phase caller = .idle ∧
    t = { setStage s caller .idle with
      app := { s.app with registry := { s.app.registry with duplicates := s.app.registry.duplicates + 1 } }
      n1 := { s.n1 with actionable := s.n1.actionable + 1 } } := by
  cases hstage : s.stage caller <;> simp only [step, hstage, reduceCtorEq] at hs
  rename_i e resp
  have hown := h.settled caller
  rw [hstage] at hown
  obtain ⟨hidle, htarget, hlisted⟩ := hown
  have hlists : s.app.registry.Lists (fromResponse resp e.gameId e.crashPoint now) := hlisted.congr rfl rfl
  simp only [PredictionRegistry.registerPrediction_of_lists htarget hlists] at hs
  exact ⟨⟨e, resp, rfl⟩, hidle, (Option.some.inj hs).symm⟩

theorem Inv.coordinate {now : TimestampMs} (h : Inv s) (hc : Counted s)
    (hs : step persistent engine options s (.coordinate caller now) = some t) : Inv t ∧ Counted t := by
  obtain ⟨⟨e, resp, hstage⟩, hidle, rfl⟩ := h.coordinate_eq hs
  have hsame : s.client.phase = Function.update s.client.phase caller .idle := by rw [← hidle, Function.update_eq_self]
  refine ⟨⟨h.client, h.kept, h.named, settled_update h.settled hsame rfl (fun _ hl => hl) rfl⟩, ?_⟩
  refine hc.move rfl ?_ ?_ rfl rfl
  · simp only [hstage, setStage, Stage.underWay]
    omega
  · simp only [hstage, Stage.answered]
    omega

/-- What other components do leaves the predictions in between. -/
theorem Inv.outside {app : Application} (h : Inv s) (hok : Orderly s (.outside app)) : Inv { s with app } := by
  refine ⟨h.client, h.kept, h.named, fun caller => ?_⟩
  have hown := h.settled caller
  suffices hnew : Settled app.registry (s.client.phase caller) (s.stage caller) from hnew
  cases hstage : s.stage caller with
  | idle | handling | handingOff =>
    rw [hstage] at hown
    exact hown
  | calling e =>
    rw [hstage] at hown
    exact ⟨hown.1, fun req own hphase hact => hok _ (.waiting hstage hphase hact)⟩
  | publishing e resp pev =>
    rw [hstage] at hown
    exact ⟨hown.1, hok _ (.publishing hstage)⟩
  | coordinating e resp =>
    rw [hstage] at hown
    exact ⟨hown.1, hown.2.1, hok _ (.coordinating hstage)⟩

theorem Inv.step (h : Inv s) (hc : Counted s) (hok : Orderly s a) (hs : step persistent engine options s a = some t) :
    Inv t ∧ Counted t := by
  cases a with
  | setResponseHandler =>
    cases hs
    exact ⟨⟨h.client, h.kept, h.named, h.settled⟩, hc.congr rfl rfl rfl rfl⟩
  | begin caller e now requestTimeMs requestNs => exact h.begin hc hs
  | predict caller responseTimeMs => exact h.predict hc hs
  | answer caller adaptive => exact h.answer hc hs
  | store caller => exact h.store hc hok hs
  | handle caller now => exact h.handle hc hok hs
  | publish caller now f => exact h.publish hc hs
  | poll caller => exact h.poll hc hs
  | fallback caller =>
    -- no call misses its response
    cases hstage : s.stage caller <;> simp only [NextRounds.step, hstage, reduceCtorEq] at hs
    obtain ⟨client, hclient, -⟩ := Option.map_eq_some_iff.mp hs
    have hlost := h.kept.2 caller
    cases hphase : s.client.phase caller <;> simp only [NextRoundCalls.step, hphase, reduceCtorEq] at hclient
    rw [hphase] at hlost
    exact absurd trivial hlost
  | coordinate caller now => exact h.coordinate hc hs
  | handOff caller now =>
    have hown := h.settled caller
    cases hstage : s.stage caller <;> simp only [NextRounds.step, hstage, reduceCtorEq] at hs
    rw [hstage] at hown
    exact hown.elim
  | outside app =>
    cases hs
    exact ⟨h.outside hok, hc.congr rfl rfl rfl rfl⟩

/-! ### Runs -/

/-- However the calls of the two threads and the other components take turns: the coordinator counts every valid End once,
    and never registers or hands off a prediction; what it does after the handler leaves the outboxes, the database, the
    targets and the registered predictions as they are. -/
theorem coordinator_refused {app : Application} (hr : Reaches (step persistent engine options) Orderly { app } s) :
    (s.ends = s.n1.actionable + s.n1.skipped + total Stage.underWay s ∧
      s.n1.n1Attempts = s.n1.actionable + s.n1.skipped + total Stage.answered s ∧ s.n1.registered = 0 ∧
      s.handedOff = 0) ∧
    ∀ caller now t, step persistent engine options s (.coordinate caller now) = some t →
      t.app.durableTx = s.app.durableTx ∧ t.app.targets = s.app.targets ∧
        t.app.registry.entries = s.app.registry.entries := by
  have h0 : Inv { app } ∧ Counted { app } := ⟨⟨NextRoundCalls.inv_initial, NextRoundCalls.kept_initial, nofun, fun _ => rfl⟩,
    ⟨rfl, rfl, rfl, rfl⟩⟩
  obtain ⟨hinv, hcounted⟩ := hr.invariant (P := fun s => Inv s ∧ Counted s) h0 fun _ _ _ h hok hs => h.1.step h.2 hok hs
  refine ⟨⟨hcounted.ends, hcounted.attempts, hcounted.registered, hcounted.handedOff⟩, fun caller now t hs => ?_⟩
  obtain ⟨-, -, rfl⟩ := hinv.coordinate_eq hs
  exact ⟨rfl, rfl, rfl⟩

/-- An engine that is sure of every round. -/
def sureEngine : PredictionEngine := fun _ req =>
  .ok { signal := { modelVersion := "v1", probability := 95 / 100, confidence := 9 / 10 }, output := { target := req.target } }

/-- Without a database. -/
def memoryOnly : State := { app := { durableTx := { db := .absent, handoff := some { outbox := .new 4 } } } }

def endOf (gameId : GameId) : CrashEvent := { kind := .end, valid := true, gameId, roundId := gameId, crashPoint := 2 }

/-- A step that meets the condition in every state. -/
def Act.free : Act → Bool
  | .store _ | .handle _ _ | .outside _ => false
  | _ => true

theorem meets_of_free : ∀ (as : List Act) {s : State}, as.all Act.free →
    Meets (step persistent engine options) Orderly s as
  | [], _, _ => trivial
  | a :: as, s, h => by
    obtain ⟨ha, has⟩ := Bool.and_eq_true_iff.mp h
    refine ⟨?_, fun t _ => meets_of_free as has⟩
    cases a <;> trivial

def waits : Phase → Bool
  | .waiting _ _ => true
  | _ => false

theorem oneWaits_pollHandler {client : NextRoundCalls.State} {req : PredictionRequest} {own : Answer}
    (hphase : client.phase .pollHandler = .answered req own) (h : waits (client.phase .mainLoop) = false) :
    NextRoundCalls.OneWaits client (.store .pollHandler) := by
  intro _ _ _ other req' own' hother
  cases other with
  | pollHandler => rw [hphase] at hother; cases hother
  | mainLoop => rw [hother] at h; cases h

/-- The poll thread predicts after round 7 while the main loop begins with round 8. -/
def toStore : List Act :=
  [.setResponseHandler, .begin .pollHandler (endOf "7") 1 1 1, .predict .pollHandler 1, .answer .pollHandler none,
    .begin .mainLoop (endOf "8") 1 1 1]

def fromHandler : List Act :=
  [.publish .pollHandler 1 {}, .poll .pollHandler, .coordinate .pollHandler 1]

def runFrom (s : State) (as : List Act) : State := (run (step false sureEngine { warmMinSamples := 0 }) s as).getD s

/-- A run that can happen, and meets the condition. -/
theorem reaches_runFrom {s₀ s : State} (as : List Act)
    (h : Reaches (step false sureEngine { warmMinSamples := 0 }) Orderly s₀ s)
    (hok : Meets (step false sureEngine { warmMinSamples := 0 }) Orderly s as)
    (hrun : (run (step false sureEngine { warmMinSamples := 0 }) s as).isSome) :
    Reaches (step false sureEngine { warmMinSamples := 0 }) Orderly s₀ (runFrom s as) := by
  obtain ⟨t, ht⟩ := Option.isSome_iff_exists.mp hrun
  rw [runFrom, ht]
  exact h.trans (.of_run hok ht)

def answered : State := runFrom memoryOnly toStore

def stored : State := runFrom answered [.store .pollHandler]

def handled : State := runFrom stored [.handle .pollHandler 1]

def afterOneCall : State := runFrom handled fromHandler

/-- The handler registers and publishes the prediction, and the coordinator is refused. -/
theorem coordinator_refused_one : afterOneCall.n1.actionable = 1 ∧ afterOneCall.ends = 2 ∧
    afterOneCall.app.registry.entries.length = 1 ∧ afterOneCall.app.registry.duplicates = 1 ∧
    afterOneCall.n1.registered = 0 := by
  have hanswered := reaches_runFrom toStore .refl (meets_of_free toStore (s := memoryOnly) rfl) (by decide +kernel)
  have hok : Orderly answered (.store .pollHandler) := ⟨rfl, oneWaits_pollHandler rfl rfl⟩
  have hstored := reaches_runFrom [.store .pollHandler] hanswered ⟨hok, fun _ _ => trivial⟩ (by decide +kernel)
  have hroom : stored.app.registry.entries.length < stored.app.registry.maxEntries := by decide +kernel
  have hhandled := reaches_runFrom [.handle .pollHandler 1] hstored ⟨hroom, fun _ _ => trivial⟩ (by decide +kernel)
  have hrest := reaches_runFrom fromHandler hhandled (meets_of_free fromHandler rfl) (by decide +kernel)
  obtain ⟨⟨-, -, hregistered, -⟩, -⟩ := coordinator_refused hrest
  exact ⟨by decide +kernel, by decide +kernel, by decide +kernel, by decide +kernel, hregistered⟩

end NextRounds
end CrashCore
