import CrashCore.Common.Types
import Mathlib.Data.List.DropRight
import Mathlib.Data.List.GetD
import Mathlib.Data.List.Induction

/-! The statistics that the prediction engine keeps of the crash points (`pe/state/incremental_state_engine.hpp`,
`src/state/incremental_state_engine.cpp`), updated in constant time, and the full scans over the history that they replace
(`pe/features/calculators.hpp`).

Every operation on doubles is rounded. Counters are unbounded. A crash point that is not a finite number is `none`, and
the clock reading of a call is an argument. `std` and the copies that `snapshot` makes are left out, and of the
calculators the means, percentiles and times. -/

namespace CrashCore.Pe
open Double (nearest)

/-- The literal `1.3`. -/
def T13 : Double := nearest (13 / 10)

structure HitCounters where
  t13 : Nat := 0
  t20 : Nat := 0
  t50 : Nat := 0
  t100 : Nat := 0

def HitCounters.add (h : HitCounters) (crashPoint : Double) : HitCounters where
  t13 := if T13 ≤ crashPoint then h.t13 + 1 else h.t13
  t20 := if 2 ≤ crashPoint then h.t20 + 1 else h.t20
  t50 := if 5 ≤ crashPoint then h.t50 + 1 else h.t50
  t100 := if 10 ≤ crashPoint then h.t100 + 1 else h.t100

/-- Rounds since the last hit. -/
structure SinceCounters where
  t13 : Nat := 0
  t20 : Nat := 0
  t50 : Nat := 0
  t100 : Nat := 0

def SinceCounters.add (s : SinceCounters) (crashPoint : Double) : SinceCounters where
  t13 := if T13 ≤ crashPoint then 0 else s.t13 + 1
  t20 := if 2 ≤ crashPoint then 0 else s.t20 + 1
  t50 := if 5 ≤ crashPoint then 0 else s.t50 + 1
  t100 := if 10 ≤ crashPoint then 0 else s.t100 + 1

structure RunState where
  below13 : Nat := 0
  above13 : Nat := 0
  below15 : Nat := 0
  below20 : Nat := 0
  above20 : Nat := 0
  maxBelow13 : Nat := 0
  maxAbove13 : Nat := 0
  maxBelow20 : Nat := 0

def RunState.add (r : RunState) (crashPoint : Double) : RunState :=
  let r : RunState :=
    if T13 ≤ crashPoint then
      { r with above13 := r.above13 + 1, below13 := 0, maxAbove13 := max r.maxAbove13 (r.above13 + 1) }
    else { r with below13 := r.below13 + 1, above13 := 0, maxBelow13 := max r.maxBelow13 (r.below13 + 1) }
  let r : RunState := if crashPoint < 3 / 2 then { r with below15 := r.below15 + 1 } else { r with below15 := 0 }
  if 2 ≤ crashPoint then { r with above20 := r.above20 + 1, below20 := 0 }
  else { r with below20 := r.below20 + 1, above20 := 0, maxBelow20 := max r.maxBelow20 (r.below20 + 1) }

/-- `trans from to` counts the neighbours that are on these sides of 1.3. -/
structure MarkovState where
  trans : Bool → Bool → Nat := fun _ _ => 0
  lastAbove13 : Option Bool := none

def MarkovState.add (m : MarkovState) (above13 : Bool) : MarkovState where
  trans := match m.lastAbove13 with
    | some last => fun i j => if i = last ∧ j = above13 then m.trans i j + 1 else m.trans i j
    | none => m.trans
  lastAbove13 := some above13

structure WelfordState where
  n : Nat := 0
  mean : Double := 0
  m2 : Double := 0

def WelfordState.add (w : WelfordState) (crashPoint : Double) : WelfordState :=
  let n := w.n + 1
  let delta := nearest (crashPoint - w.mean)
  let mean := nearest (w.mean + nearest (delta / n))
  let delta2 := nearest (crashPoint - mean)
  { n, mean, m2 := nearest (w.m2 + nearest (delta * delta2)) }

def LAG_CAP : Nat := 512
def SHORT_CAP : Nat := 30
def EWMA_ALPHA : Double := nearest (5 / 100)
def DEGRADED_TIMEOUT_MS : Int := 5 * 60 * 1000

/-- `EWMA_ALPHA * x + (1.0 - EWMA_ALPHA) * e`. -/
def ewmaStep (e x : Double) : Double :=
  nearest (nearest (EWMA_ALPHA * x) + nearest (nearest (1 - EWMA_ALPHA) * e))

inductive EngineLifecycleState
  | cold | warming | warm | production | degraded
deriving DecidableEq, Repr

structure IncrementalStateEngine where
  count : Nat := 0
  lastCrash : Option Double := none
  welford : WelfordState := {}
  ewma : Double := T13
  ewmaHit13 : Double := nearest (65 / 100)
  hits : HitCounters := {}
  runs : RunState := {}
  since : SinceCounters := {}
  markov : MarkovState := {}
  lagRing : Nat → Double := fun _ => 0
  lagLen : Nat := 0
  lagPos : Nat := 0
  shortRing : Nat → Double := fun _ => 0
  shortLen : Nat := 0
  shortPos : Nat := 0
  shortSum : Double := 0
  shortSumSq : Double := 0
  shortHits13 : Int := 0
  lastBeganAtMs : Option TimestampMs := none
  lastGapS : Double := 0
  gapCount : Nat := 0
  updatedAt : TimestampMs := 0

namespace IncrementalStateEngine

def reset (_ : IncrementalStateEngine) : IncrementalStateEngine := {}

/-! ### Updates -/

/-- The element that leaves the short window, when it is full. -/
def evicted (e : IncrementalStateEngine) : Option Double :=
  if e.shortLen = SHORT_CAP then some (e.shortRing e.shortPos) else none

/-- The part of `update` behind its first check. -/
def observe (e : IncrementalStateEngine) (crashPoint : Double) (now : TimestampMs) : IncrementalStateEngine :=
  let above13 := T13 ≤ crashPoint
  let left : IncrementalStateEngine := match e.evicted with
    | some old => { e with
        shortSum := nearest (e.shortSum - old)
        shortSumSq := nearest (e.shortSumSq - nearest (old * old))
        shortHits13 := if T13 ≤ old then e.shortHits13 - 1 else e.shortHits13 }
    | none => { e with shortLen := e.shortLen + 1 }
  { e with
    welford := e.welford.add crashPoint
    ewma := ewmaStep e.ewma crashPoint
    ewmaHit13 := ewmaStep e.ewmaHit13 (if above13 then 1 else 0)
    hits := e.hits.add crashPoint
    since := e.since.add crashPoint
    runs := e.runs.add crashPoint
    markov := e.markov.add (decide above13)
    lagRing := Function.update e.lagRing e.lagPos crashPoint
    lagPos := (e.lagPos + 1) % LAG_CAP
    lagLen := if e.lagLen < LAG_CAP then e.lagLen + 1 else e.lagLen
    shortLen := left.shortLen
    shortRing := Function.update e.shortRing e.shortPos crashPoint
    shortPos := (e.shortPos + 1) % SHORT_CAP
    shortSum := nearest (left.shortSum + crashPoint)
    shortSumSq := nearest (left.shortSumSq + nearest (crashPoint * crashPoint))
    shortHits13 := if above13 then left.shortHits13 + 1 else left.shortHits13
    count := e.count + 1
    lastCrash := some crashPoint
    updatedAt := now }

/-- Only finite positive crash points are taken. -/
def update (e : IncrementalStateEngine) (crashPoint : Option Double) (now : TimestampMs) : IncrementalStateEngine :=
  match crashPoint with
  | none => e
  | some crashPoint => if crashPoint ≤ 0 then e else e.observe crashPoint now

def seed (e : IncrementalStateEngine) (crashPoints : List (Option Double × TimestampMs)) : IncrementalStateEngine :=
  crashPoints.foldl (fun e p => e.update p.1 p.2) e.reset

def recordBeganAt (e : IncrementalStateEngine) (beganAtMs : TimestampMs) : IncrementalStateEngine :=
  if beganAtMs ≤ 0 then e
  else
    let e : IncrementalStateEngine := match e.lastBeganAtMs with
      | some last =>
        let gapS := nearest (nearest (beganAtMs - last) / 1000)
        if last < beganAtMs ∧ 0 < gapS ∧ gapS ≤ 600 then { e with lastGapS := gapS, gapCount := e.gapCount + 1 } else e
      | none => e
    { e with lastBeganAtMs := some beganAtMs }

/-! ### Readings -/

/-- The conversions of a hit count to a share. -/
def share (hits : Int) (n : Nat) : Double := nearest (hits / n)

def variance (e : IncrementalStateEngine) : Double :=
  if 1 < e.welford.n then nearest (e.welford.m2 / (e.welford.n - 1 : Nat)) else 0

def hitRate (e : IncrementalStateEngine) (target : Double) : Double :=
  if e.count = 0 then 0
  else if target ≤ T13 then share e.hits.t13 e.count
  else if target ≤ 2 then share e.hits.t20 e.count
  else if target ≤ 5 then share e.hits.t50 e.count
  else share e.hits.t100 e.count

def roundsSince (e : IncrementalStateEngine) (target : Double) : Nat :=
  if target ≤ T13 then e.since.t13
  else if target ≤ 2 then e.since.t20
  else if target ≤ 5 then e.since.t50
  else e.since.t100

def getLagArray (e : IncrementalStateEngine) : List Double :=
  let start := if e.lagLen < LAG_CAP then 0 else e.lagPos
  (List.range e.lagLen).map fun i => e.lagRing ((start + i) % LAG_CAP)

def windowHitRate (e : IncrementalStateEngine) (window : Int) (target : Double) : Double :=
  let n := min (max 0 window).toNat e.lagLen
  if n = 0 then 0
  else share ((List.range' 1 n).countP fun i => target ≤ e.lagRing ((e.lagPos + LAG_CAP - i) % LAG_CAP)) n

/-- Index 0 is the oldest element. -/
def lagAt (e : IncrementalStateEngine) (i : Int) : Double :=
  if i < 0 ∨ e.lagLen ≤ i then 0
  else
    let start := if e.lagLen < LAG_CAP then 0 else e.lagPos
    e.lagRing ((start + i.toNat) % LAG_CAP)

def lagN (e : IncrementalStateEngine) (n : Int) : Double :=
  if n < 1 ∨ e.lagLen < n then 0 else e.lagRing ((e.lagPos + LAG_CAP - n.toNat) % LAG_CAP)

def lag1 (e : IncrementalStateEngine) : Double :=
  if e.lagLen = 0 then 0 else e.lagRing ((e.lagPos + LAG_CAP - 1) % LAG_CAP)

def getRecentPoints (e : IncrementalStateEngine) (max : Int) : List Double :=
  let n := min max e.lagLen
  let start := (e.lagPos + LAG_CAP - e.lagLen) % LAG_CAP
  (List.range n.toNat).map fun i => e.lagRing ((start + i) % LAG_CAP)

def shortHitRate13 (e : IncrementalStateEngine) : Double := if 0 < e.shortLen then share e.shortHits13 e.shortLen else 0

def shortMean (e : IncrementalStateEngine) : Double := if 0 < e.shortLen then nearest (e.shortSum / e.shortLen) else 0

def shortVariance (e : IncrementalStateEngine) : Double :=
  if e.shortLen < 2 then 0
  else
    let mean := nearest (e.shortSum / e.shortLen)
    max 0 (nearest (nearest (e.shortSumSq / e.shortLen) - nearest (mean * mean)))

def markovPNextAbove13 (e : IncrementalStateEngine) : Double :=
  match e.markov.lastAbove13 with
  | none => e.ewmaHit13
  | some last =>
    let total := e.markov.trans last false + e.markov.trans last true
    if total < 10 then e.ewmaHit13 else share (e.markov.trans last true) total

def isWarm (e : IncrementalStateEngine) (minCount : Int := 50) : Bool := minCount ≤ e.count

def getLifecycleState (e : IncrementalStateEngine) (now : TimestampMs) : EngineLifecycleState :=
  if e.count = 0 then .cold
  else if DEGRADED_TIMEOUT_MS < now - e.updatedAt then .degraded
  else if e.count < 20 then .warming
  else if e.count < 100 then .warm
  else .production

/-! ### Calls -/

inductive Call
  | update (crashPoint : Option Double) (now : TimestampMs)
  | recordBeganAt (beganAtMs : TimestampMs)
  | seed (crashPoints : List (Option Double × TimestampMs))
  | reset

def call (e : IncrementalStateEngine) : Call → IncrementalStateEngine
  | .update crashPoint now => e.update crashPoint now
  | .recordBeganAt beganAtMs => e.recordBeganAt beganAtMs
  | .seed crashPoints => e.seed crashPoints
  | .reset => e.reset

/-- What `update` takes. -/
def taken (crashPoint : Option Double) : List Double := crashPoint.toList.filter (0 < ·)

def Call.history (h : List Double) : Call → List Double
  | .update crashPoint _ => h ++ taken crashPoint
  | .recordBeganAt _ => h
  | .seed crashPoints => crashPoints.flatMap fun p => taken p.1
  | .reset => []

/-- The crash points that were taken since the state was last emptied. -/
def history (calls : List Call) : List Double := calls.foldl Call.history []

/-! ### Invariants -/

section Invariants
variable {P : IncrementalStateEngine → List Double → Prop} {e : IncrementalStateEngine} {h : List Double}

theorem holds_update (hobserve : ∀ {e h x now}, 0 < x → P e h → P (e.observe x now) (h ++ [x]))
    (crashPoint : Option Double) (now : TimestampMs) (hP : P e h) : P (e.update crashPoint now) (h ++ taken crashPoint) := by
  cases crashPoint with
  | none => simpa [update, taken] using hP
  | some x =>
    by_cases hx : x ≤ 0
    · simpa [update, taken, hx, not_lt.mpr hx] using hP
    · have hpos := not_le.mp hx
      simpa [update, taken, hx, hpos] using hobserve hpos hP

/-- What `observe` and `recordBeganAt` keep holds after any calls. -/
theorem holds_calls (hnil : P {} []) (hobserve : ∀ {e h x now}, 0 < x → P e h → P (e.observe x now) (h ++ [x]))
    (hbegan : ∀ {e h} beganAtMs, P e h → P (e.recordBeganAt beganAtMs) h) (calls : List Call) :
    P (calls.foldl call {}) (history calls) := by
  have hseed : ∀ crashPoints : List (Option Double × TimestampMs),
      P (crashPoints.foldl (fun e p => e.update p.1 p.2) {}) (crashPoints.flatMap fun p => taken p.1) := by
    intro crashPoints
    induction crashPoints using List.reverseRecOn with
    | nil => exact hnil
    | append_singleton ps p ih =>
      rw [List.foldl_concat, List.flatMap_append, List.flatMap_singleton]
      exact holds_update hobserve p.1 p.2 ih
  induction calls using List.reverseRecOn with
  | nil => exact hnil
  | append_singleton calls c ih =>
    rw [history, List.foldl_concat, List.foldl_concat]
    cases c with
    | update crashPoint now => exact holds_update hobserve crashPoint now ih
    | recordBeganAt beganAtMs => exact hbegan beganAtMs ih
    | seed crashPoints => exact hseed crashPoints
    | reset => exact hnil

end Invariants

/-- Only the times of the rounds change. -/
theorem recordBeganAt_eq (e : IncrementalStateEngine) (beganAtMs : TimestampMs) : ∃ lastBeganAtMs lastGapS gapCount,
    e.recordBeganAt beganAtMs = { e with lastBeganAtMs, lastGapS, gapCount } := by
  unfold recordBeganAt
  split
  · exact ⟨_, _, _, rfl⟩
  · dsimp only
    split
    · split
      · exact ⟨_, _, _, rfl⟩
      · exact ⟨_, _, _, rfl⟩
    · exact ⟨_, _, _, rfl⟩

end IncrementalStateEngine

/-! ### Full scans

Of a round only its crash point is read. -/

open IncrementalStateEngine (share)

/-- `hitRatePoints`, and `hitRateRounds` on the crash points of its rounds. -/
def hitRatePoints (cps : List Double) (threshold : Double) : Double :=
  if cps = [] then 0 else share (cps.countP (threshold ≤ ·)) cps.length

/-- The loop over the rounds before number `i`, from the last one on. -/
def roundsSinceRounds.loop (cps : List Double) (threshold : Double) : Nat → Nat
  | 0 => cps.length
  | i + 1 => if threshold ≤ cps.getD i 0 then cps.length - 1 - i else loop cps threshold i

def roundsSinceRounds (cps : List Double) (threshold : Double) : Nat := roundsSinceRounds.loop cps threshold cps.length

def consecutiveStreak.loop (cps : List Double) (pred : Double → Bool) : Nat → Nat → Nat
  | 0, streak => streak
  | i + 1, streak => if pred (cps.getD i 0) then loop cps pred i (streak + 1) else streak

def consecutiveStreak (cps : List Double) (pred : Double → Bool) : Nat := consecutiveStreak.loop cps pred cps.length 0

/-- The last `n` of them (`slice`, `sliceRounds`). -/
def slice (cps : List Double) (n : Nat) : List Double := cps.drop (cps.length - n)

/-! ### The loops -/

variable {cps : List Double} {threshold : Double} {pred : Double → Bool}

theorem take_succ_eq {i : Nat} (h : i < cps.length) : cps.take (i + 1) = cps.take i ++ [cps.getD i 0] := by
  rw [List.take_succ_eq_append_getElem h, List.getD_eq_getElem _ _ h]

theorem roundsSinceRounds.loop_eq : ∀ i ≤ cps.length, roundsSinceRounds.loop cps threshold i =
    cps.length - i + ((cps.take i).rtakeWhile fun c => ¬threshold ≤ c).length
  | 0, _ => by simp [loop]
  | i + 1, h => by
    rw [loop, take_succ_eq h]
    split
    · rename_i hhit
      rw [List.rtakeWhile_concat_neg _ _ _ (by simpa using hhit), List.length_nil]
      omega
    · rename_i hmiss
      rw [List.rtakeWhile_concat_pos _ _ _ (by simpa using hmiss), List.length_append, List.length_singleton,
        loop_eq i (Nat.le_of_succ_le h)]
      omega

/-- The rounds behind the last hit. -/
theorem roundsSinceRounds_eq (cps : List Double) (threshold : Double) :
    roundsSinceRounds cps threshold = (cps.rtakeWhile fun c => ¬threshold ≤ c).length := by
  rw [roundsSinceRounds, roundsSinceRounds.loop_eq _ le_rfl, Nat.sub_self, Nat.zero_add, List.take_length]

theorem consecutiveStreak.loop_eq : ∀ i ≤ cps.length, ∀ streak, consecutiveStreak.loop cps pred i streak =
    ((cps.take i).rtakeWhile pred).length + streak
  | 0, _, _ => by simp [loop]
  | i + 1, h, streak => by
    rw [loop, take_succ_eq h]
    split
    · rename_i hpred
      rw [List.rtakeWhile_concat_pos _ _ _ hpred, List.length_append, List.length_singleton,
        loop_eq i (Nat.le_of_succ_le h)]
      omega
    · rename_i hpred
      rw [List.rtakeWhile_concat_neg _ _ _ hpred, List.length_nil, Nat.zero_add]

theorem consecutiveStreak_eq (cps : List Double) (pred : Double → Bool) :
    consecutiveStreak cps pred = (cps.rtakeWhile pred).length := by
  rw [consecutiveStreak, consecutiveStreak.loop_eq _ le_rfl, Nat.add_zero, List.take_length]

end CrashCore.Pe
