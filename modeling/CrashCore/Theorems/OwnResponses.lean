import CrashCore.PredictionInterface.NextRoundCalls

/-! Which calls of `predictNextAfterEnd` return their own responses: all of them, unless one stores its response while the
other thread waits for one with the same correlation id. -/

namespace CrashCore.NextRoundCalls
open Transition

/-- The call returns what its own `submit` has computed, for its own target round. -/
def Return.Own (r : Return) : Prop := r.got = r.own ∧ r.own.response.targetRoundId = r.targetRoundId

def OwnResponses (s : State) : Prop := ∀ r ∈ s.returned, r.Own

/-- No response is stored for a correlation id that another call waits for. -/
def OneWaits (s : State) : Act → Prop
  | .store caller => ∀ req own, s.phase caller = .answered req own →
    ∀ other req' own', s.phase other = .waiting req' own' → req'.correlationId ≠ req.correlationId
  | _ => True

/-! ### Lost answers -/

/-- What the call has computed. -/
def Phase.own : Phase → Option (PredictionRequest × Answer)
  | .answered req own | .waiting req own | .missed req own => some (req, own)
  | .idle | .requested _ | .predicted _ _ _ => none

/-- The call has stored its answer, and cannot take it from the pending ones any more. -/
def Phase.Lost (pending : String → Option Answer) : Phase → Prop
  | .waiting req own => pending req.correlationId ≠ some own
  | .missed _ _ => True
  | .idle | .requested _ | .predicted _ _ _ | .answered _ _ => False

/-- So far everybody gets the own response. -/
def Kept (s : State) : Prop := OwnResponses s ∧ ∀ caller, ¬(s.phase caller).Lost s.pending

/-- The answer in hand is of the call itself. -/
def Tagged (s : State) (caller : Caller) (phase : Phase) : Prop := ∀ req own, phase.own = some (req, own) →
  own.source = some (caller, s.begun caller) ∧ own.response.targetRoundId = req.targetRoundId

/-- A lost answer is not the last one stored either, unless another call has taken it. -/
def Replaced (s : State) (phase : Phase) : Prop := phase.Lost s.pending →
  ∀ req own, phase.own = some (req, own) → s.last ≠ own ∨ ¬OwnResponses s

structure Inv (s : State) : Prop where
  tagged : ∀ caller, Tagged s caller (s.phase caller)
  replaced : ∀ caller, Replaced s (s.phase caller)

variable {engine : PredictionEngine} {options : ClientOptions} {s t : State} {caller other : Caller} {a : Act}
variable {req req' : PredictionRequest} {own own' got : Answer} {phase : Phase}

theorem inv_initial : Inv {} := ⟨by rintro caller req own ⟨⟩, by rintro caller ⟨⟩⟩

theorem kept_initial : Kept {} := ⟨by rintro r ⟨⟩, by rintro caller ⟨⟩⟩

theorem Tagged.congr (h : Tagged s caller phase) (hbegun : t.begun caller = s.begun caller) : Tagged t caller phase := by
  unfold Tagged
  rw [hbegun]
  exact h

theorem own_of_phase (hphase : s.phase caller = phase) (hown : phase.own = some (req, own)) :
    (s.phase caller).own = some (req, own) := hphase ▸ hown

/-- Answers of two threads are different. -/
theorem own_ne (h : Inv s) (hne : other ≠ caller) (hown : (s.phase caller).own = some (req, own))
    (hown' : (s.phase other).own = some (req', own')) : own' ≠ own := by
  rintro rfl
  obtain ⟨hcaller, -⟩ := h.tagged caller req own' hown
  obtain ⟨hother, -⟩ := h.tagged other req' own' hown'
  exact hne (Prod.mk.inj (Option.some.inj (hother.symm.trans hcaller))).1

theorem kept_iff (caller : Caller) : Kept s ↔
    OwnResponses s ∧ ¬(s.phase caller).Lost s.pending ∧ ∀ other, other ≠ caller → ¬(s.phase other).Lost s.pending := by
  refine and_congr_right fun _ => ⟨fun h => ⟨h caller, fun other _ => h other⟩, fun h other => ?_⟩
  by_cases hne : other = caller
  · exact hne ▸ h.1
  · exact h.2 other hne

/-- A step of one thread leaves the phase of the other one alone. -/
theorem kept_update (hphase : t.phase = Function.update s.phase caller phase) : Kept t ↔
    OwnResponses t ∧ ¬phase.Lost t.pending ∧ ∀ other, other ≠ caller → ¬(s.phase other).Lost t.pending := by
  unfold Kept
  rw [hphase, Function.forall_update_iff s.phase fun _ p => ¬p.Lost t.pending]

theorem inv_update (hphase : t.phase = Function.update s.phase caller phase)
    (htagged : Tagged t caller phase) (htagged' : ∀ other, other ≠ caller → Tagged t other (s.phase other))
    (hreplaced : Replaced t phase) (hreplaced' : ∀ other, other ≠ caller → Replaced t (s.phase other)) : Inv t := by
  constructor
  · rw [hphase, Function.forall_update_iff s.phase fun c p => Tagged t c p]
    exact ⟨htagged, htagged'⟩
  · rw [hphase, Function.forall_update_iff s.phase fun _ p => Replaced t p]
    exact ⟨hreplaced, hreplaced'⟩

/-! ### Up to the store -/

theorem inv_begin (h : Inv s) {e : CrashEvent} {now requestTimeMs : TimestampMs} {requestNs : Int}
    (hs : step engine options s (.begin caller e now requestTimeMs requestNs) = some t) :
    Inv t ∧ (Kept t ↔ Kept s) := by
  cases hphase : s.phase caller <;> simp only [step, hphase, reduceCtorEq] at hs
  cases hs
  constructor
  · exact inv_update rfl (by rintro req own ⟨⟩) (fun other hne => (h.tagged other).congr (Function.update_of_ne hne ..))
      (by rintro ⟨⟩) fun other _ => h.replaced other
  · rw [kept_update rfl, kept_iff caller, hphase]
    exact Iff.rfl

theorem inv_predict (h : Inv s) {responseTimeMs : TimestampMs}
    (hs : step engine options s (.predict caller responseTimeMs) = some t) : Inv t ∧ (Kept t ↔ Kept s) := by
  cases hphase : s.phase caller <;> simp only [step, hphase, reduceCtorEq] at hs
  cases hs
  constructor
  · exact inv_update rfl (by rintro req own ⟨⟩) (fun other _ => h.tagged other) (by rintro ⟨⟩) fun other _ =>
      h.replaced other
  · rw [kept_update rfl, kept_iff caller, hphase]
    exact Iff.rfl

theorem inv_answer (h : Inv s) {adaptive : Option AdaptiveEdge}
    (hs : step engine options s (.answer caller adaptive) = some t) : Inv t ∧ (Kept t ↔ Kept s) := by
  cases hphase : s.phase caller <;> simp only [step, hphase, reduceCtorEq] at hs
  cases hs
  constructor
  · refine inv_update rfl ?_ (fun other _ => h.tagged other) (by rintro ⟨⟩) fun other _ => h.replaced other
    rintro req own ⟨⟩
    exact ⟨rfl, options.answer_targetRoundId ..⟩
  · rw [kept_update rfl, kept_iff caller, hphase]
    exact Iff.rfl

/-! ### The store -/

/-- The other call keeps its answer exactly if it waits for another correlation id. -/
theorem kept_pending_iff (h : Inv s) (hphase : s.phase caller = .answered req own) (hne : other ≠ caller) :
    ¬(s.phase other).Lost (Function.update s.pending req.correlationId (some own)) ↔
      ¬(s.phase other).Lost s.pending ∧
        ∀ req' own', s.phase other = .waiting req' own' → req'.correlationId ≠ req.correlationId := by
  cases hother : s.phase other with
  | idle | requested | predicted | answered => simp [Phase.Lost]
  | missed req' own' => simp [Phase.Lost]
  | waiting req' own' =>
    have hdiff : own ≠ own' := (own_ne h hne (own_of_phase hphase rfl) (own_of_phase hother rfl)).symm
    by_cases hid : req'.correlationId = req.correlationId <;> simp [Phase.Lost, hid, hdiff]

theorem inv_store (h : Inv s) (hs : step engine options s (.store caller) = some t) :
    Inv t ∧ (Kept t ↔ Kept s ∧ OneWaits s (.store caller)) := by
  cases hphase : s.phase caller with
  | answered req own =>
    simp only [step, hphase] at hs
    cases hs
    have hown : (s.phase caller).own = some (req, own) := own_of_phase hphase rfl
    have hwaits : OneWaits s (.store caller) ↔ ∀ other, other ≠ caller →
        ∀ req' own', s.phase other = .waiting req' own' → req'.correlationId ≠ req.correlationId := by
      constructor
      · exact fun hok other _ => hok req own hphase other
      · intro hok req₀ own₀ hcaller other req' own' hother
        obtain ⟨rfl, rfl⟩ := Phase.answered.inj (hphase.symm.trans hcaller)
        refine hok other ?_ req' own' hother
        rintro rfl
        rw [hphase] at hother
        cases hother
    constructor
    · refine inv_update rfl (fun req' own' hown' => ?_) (fun other _ => h.tagged other) (fun hlost => ?_) ?_
      · exact h.tagged caller req' own' (hown.trans hown')
      · exact absurd (Function.update_self ..) hlost
      · exact fun other hne _ req' own' hown' => .inl (own_ne h hne hown hown').symm
    · rw [kept_update rfl, kept_iff caller, hphase, hwaits]
      constructor
      · rintro ⟨hreturned, -, hothers⟩
        have hkept (other) (hne : other ≠ caller) := (kept_pending_iff h hphase hne).mp (hothers other hne)
        exact ⟨⟨hreturned, id, fun other hne => (hkept other hne).1⟩, fun other hne => (hkept other hne).2⟩
      · rintro ⟨⟨hreturned, -, hothers⟩, hok⟩
        refine ⟨hreturned, not_not_intro (Function.update_self ..), fun other hne => ?_⟩
        exact (kept_pending_iff h hphase hne).mpr ⟨hothers other hne, hok other hne⟩
  | idle | requested | predicted | waiting | missed => simp only [step, hphase, reduceCtorEq] at hs

/-! ### The poll -/

theorem ownResponses_concat {r : Return} (h : t.returned = s.returned ++ [r]) : OwnResponses t ↔ OwnResponses s ∧ r.Own := by
  simp [OwnResponses, h, or_imp, forall_and]

theorem Replaced.concat {r : Return} (h : Replaced s phase) (hreturned : t.returned = s.returned ++ [r])
    (hlast : t.last = s.last) (hlost : phase.Lost s.pending) (hown : phase.own = some (req, own)) :
    t.last ≠ own ∨ ¬OwnResponses t := by
  rcases h hlost req own hown with hreplaced | hbad
  · exact .inl (hlast ▸ hreplaced)
  · exact .inr fun ht => hbad ((ownResponses_concat hreturned).mp ht).1

/-- Who takes an answer makes it lost for the call that has computed it, and for nobody else. -/
theorem lost_taken {id : String} (hfound : s.pending id = some got) :
    phase.Lost (Function.update s.pending id none) ↔ phase.Lost s.pending ∨ ∃ req, phase = .waiting req got ∧
      req.correlationId = id := by
  cases phase with
  | idle | requested | predicted | answered => simp [Phase.Lost]
  | missed req own => simp [Phase.Lost]
  | waiting req own =>
    by_cases hid : req.correlationId = id
    · simp [Phase.Lost, hid, hfound, eq_comm, em']
    · simp [Phase.Lost, hid]

/-- The response that a call finds is its own exactly if its answer was not lost. -/
theorem finish_own (h : Inv s) (hown : (s.phase caller).own = some (req, own)) :
    (Return.mk req.targetRoundId own got).Own ↔ got = own :=
  and_iff_left (h.tagged caller req own hown).2

theorem inv_poll_found (h : Inv s) (hphase : s.phase caller = .waiting req own)
    (hfound : s.pending req.correlationId = some got)
    (ht : t = { s.finish caller req own got with pending := Function.update s.pending req.correlationId none }) :
    Inv t ∧ (Kept t ↔ Kept s) := by
  subst ht
  have hown : (s.phase caller).own = some (req, own) := own_of_phase hphase rfl
  constructor
  · refine inv_update rfl (by rintro req own ⟨⟩) (fun other _ => h.tagged other) (by rintro ⟨⟩) ?_
    intro other hne hlost req' own' hown'
    rcases (lost_taken hfound).mp hlost with hlost | ⟨req₀, hother, -⟩
    · exact (h.replaced other).concat rfl rfl hlost hown'
    · -- The answer of the other thread was found here.
      obtain ⟨rfl, rfl⟩ : req₀ = req' ∧ got = own' := by simpa [hother, Phase.own] using hown'
      refine .inr fun hall => own_ne h hne hown hown' ?_
      exact (finish_own h hown).mp ((ownResponses_concat rfl).mp hall).2
  · have hcaller : ¬(s.phase caller).Lost s.pending ↔ got = own := by
      rw [hphase]
      simp [Phase.Lost, hfound]
    rw [kept_update rfl, kept_iff caller, ownResponses_concat rfl, finish_own h hown, hcaller, and_assoc]
    refine and_congr_right fun _ => and_congr_right fun hgot => ?_
    subst hgot
    refine (and_iff_right id).trans (forall_congr' fun other => forall_congr' fun hne => not_congr ?_)
    rw [lost_taken hfound]
    refine or_iff_left ?_
    rintro ⟨req', hother, -⟩
    exact own_ne h hne hown (own_of_phase hother rfl) rfl

theorem inv_poll (h : Inv s) (hs : step engine options s (.poll caller) = some t) : Inv t ∧ (Kept t ↔ Kept s) := by
  cases hphase : s.phase caller with
  | waiting req own =>
    cases hfound : s.pending req.correlationId with
    | some got =>
      simp only [step, hphase, hfound] at hs
      exact inv_poll_found h hphase hfound (Option.some.inj hs).symm
    | none =>
      simp only [step, hphase, hfound] at hs
      cases hs
      have hlost : (s.phase caller).Lost s.pending := by
        rw [hphase]
        simp [Phase.Lost, hfound]
      constructor
      · refine inv_update rfl ?_ (fun other _ => h.tagged other) ?_ fun other _ => h.replaced other
        · exact fun req' own' hown => h.tagged caller req' own' (own_of_phase hphase hown)
        · exact fun _ req' own' hown => h.replaced caller hlost req' own' (own_of_phase hphase hown)
      · rw [kept_update rfl, kept_iff caller]
        exact iff_of_false (fun hkept => hkept.2.1 trivial) fun hkept => hkept.2.1 hlost
  | idle | requested | predicted | answered | missed => simp only [step, hphase, reduceCtorEq] at hs

/-- A response that is not found is not the last one stored. -/
theorem inv_fallback (h : Inv s) (hs : step engine options s (.fallback caller) = some t) : Inv t ∧ (Kept t ↔ Kept s) := by
  cases hphase : s.phase caller with
  | missed req own =>
    simp only [step, hphase] at hs
    cases hs
    have hown : (s.phase caller).own = some (req, own) := own_of_phase hphase rfl
    have hlost : (s.phase caller).Lost s.pending := by
      rw [hphase]
      trivial
    constructor
    · refine inv_update rfl (by rintro req own ⟨⟩) (fun other _ => h.tagged other) (by rintro ⟨⟩) ?_
      exact fun other _ hlost req' own' hown' => (h.replaced other).concat rfl rfl hlost hown'
    · rw [kept_update rfl, kept_iff caller, ownResponses_concat rfl, finish_own h hown]
      refine iff_of_false ?_ fun hkept => hkept.2.1 hlost
      rintro ⟨⟨hreturned, hlast⟩, -⟩
      exact (h.replaced caller hlost req own hown).elim (· hlast) (· hreturned)
  | idle | requested | predicted | answered | waiting => simp only [step, hphase, reduceCtorEq] at hs

/-! ### Runs -/

theorem inv_step (h : Inv s) (hs : step engine options s a = some t) : Inv t ∧ (Kept t ↔ Kept s ∧ OneWaits s a) := by
  cases a with
  | begin => exact (inv_begin h hs).imp_right fun hkept => hkept.trans (and_iff_left trivial).symm
  | predict => exact (inv_predict h hs).imp_right fun hkept => hkept.trans (and_iff_left trivial).symm
  | answer => exact (inv_answer h hs).imp_right fun hkept => hkept.trans (and_iff_left trivial).symm
  | store => exact inv_store h hs
  | poll => exact (inv_poll h hs).imp_right fun hkept => hkept.trans (and_iff_left trivial).symm
  | fallback => exact (inv_fallback h hs).imp_right fun hkept => hkept.trans (and_iff_left trivial).symm

/-- At the end of a run nothing is lost exactly if it met the condition. -/
theorem kept_iff_meets {as : List Act} (hrun : run (step engine options) {} as = some t) :
    Kept t ↔ Meets (step engine options) OneWaits {} as := by
  rw [last_iff_meets (I := Inv) (fun _ _ _ h hs => (inv_step h hs).1) (fun _ _ _ h hs => (inv_step h hs).2) inv_initial hrun]
  exact and_iff_right kept_initial

/-- With no call under way nothing is lost. -/
theorem kept_of_idle (hidle : ∀ caller, s.phase caller = .idle) (h : OwnResponses s) : Kept s := by
  refine ⟨h, fun caller hlost => ?_⟩
  rw [hidle caller] at hlost
  exact hlost

/-- Every call returns its own response when no response is stored for a correlation id that another call waits for, and
    in runs that end with no call under way only then. -/
theorem own_responses_iff (engine : PredictionEngine) (options : ClientOptions) (as : List Act) :
    (Meets (step engine options) OneWaits {} as → Along (step engine options) OwnResponses {} as) ∧
      ∀ t, run (step engine options) {} as = some t → (∀ caller, t.phase caller = .idle) →
        (Along (step engine options) OwnResponses {} as ↔ Meets (step engine options) OneWaits {} as) := by
  have hmeets : Meets (step engine options) OneWaits {} as → Along (step engine options) OwnResponses {} as :=
    Meets.along (I := fun s => Inv s ∧ Kept s) (fun _ hs => hs.2.1)
      (fun _ _ _ hs hok ht => ⟨(inv_step hs.1 ht).1, (inv_step hs.1 ht).2.mpr ⟨hs.2, hok⟩⟩) ⟨inv_initial, kept_initial⟩
  refine ⟨hmeets, fun t hrun hidle => ⟨fun hown => ?_, hmeets⟩⟩
  exact (kept_iff_meets hrun).mp (kept_of_idle hidle (hown.last hrun))

/-! ### Two calls for one End -/

/-- An engine that is the surer the more it has observed. -/
def counting : PredictionEngine := fun samples req =>
  .ok { signal := { probability := samples.length / 100 }, output := { target := req.target } }

def end7 : CrashEvent := { kind := .end, gameId := "7", roundId := "7", crashPoint := 2, valid := true }

/-- Both threads predict after the same End in one millisecond, and the poll handler finds what the main loop has
    stored. -/
def bothAfter7 : List Act :=
  [.begin .pollHandler end7 0 1000 0, .predict .pollHandler 1000, .answer .pollHandler none,
    .begin .mainLoop end7 0 1000 0, .predict .mainLoop 1000, .answer .mainLoop none,
    .store .pollHandler, .store .mainLoop, .poll .pollHandler, .poll .mainLoop, .fallback .mainLoop]

theorem not_own_responses : ¬Along (step counting {}) OwnResponses {} bothAfter7 := by
  have hrun : ∃ t r, run (step counting {}) {} bothAfter7 = some t ∧ r ∈ t.returned ∧
      r.own.response.probability = 1 / 100 ∧ r.got.response.probability = 2 / 100 :=
    ⟨_, _, rfl, .head _, by decide +kernel, by decide +kernel⟩
  obtain ⟨t, r, ht, hmem, hown, hgot⟩ := hrun
  refine not_along_of_last ht fun h => ?_
  rw [(h r hmem).1, hown] at hgot
  exact absurd hgot (by decide +kernel)

end CrashCore.NextRoundCalls
