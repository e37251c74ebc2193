import CrashCore.Common.Rounding
import CrashCore.Library.LongestRun
import CrashCore.Library.RingBuffer
import CrashCore.PredictionsEngine.IncrementalState
import Mathlib.Tactic.NormNum

/-! The incremental state against the history of the crash points: its counters and rings are what full scans find, and what
it computes with rounded operations stays within its bounds.

The counters: hits, rounds since the last hit, streaks, their records, and the neighbours on either side of 1.3. -/

namespace CrashCore.Pe
variable {h : List Double} {x t : Double} {now : TimestampMs}

/-- How many crash points are followed by another one, on these sides of 1.3. -/
def neighbours (h : List Double) (i j : Bool) : Nat :=
  (h.zip h.tail).countP fun p => decide (T13 ≤ p.1) = i ∧ decide (T13 ≤ p.2) = j

theorem neighbours_concat (h : List Double) (x : Double) (i j : Bool) : neighbours (h ++ [x]) i j =
    neighbours h i j + if h.getLast?.map (decide <| T13 ≤ ·) = some i ∧ decide (T13 ≤ x) = j then 1 else 0 := by
  rw [neighbours, List.zip_tail_concat, List.countP_append, neighbours]
  cases h.getLast? with
  | none => simp
  | some y => simp [List.countP_singleton]

theorem roundsSinceRounds_concat (h : List Double) (x t : Double) :
    roundsSinceRounds (h ++ [x]) t = if t ≤ x then 0 else roundsSinceRounds h t + 1 := by
  rw [roundsSinceRounds_eq, roundsSinceRounds_eq, List.length_rtakeWhile_concat]
  by_cases hx : t ≤ x <;> simp [hx]

theorem consecutiveStreak_concat (h : List Double) (x : Double) (pred : Double → Bool) :
    consecutiveStreak (h ++ [x]) pred = if pred x then consecutiveStreak h pred + 1 else 0 := by
  rw [consecutiveStreak_eq, consecutiveStreak_eq, List.length_rtakeWhile_concat]

/-! ### Hits and the rounds since the last one -/

def HitCounters.scan (h : List Double) : HitCounters where
  t13 := h.countP (T13 ≤ ·)
  t20 := h.countP (2 ≤ ·)
  t50 := h.countP (5 ≤ ·)
  t100 := h.countP (10 ≤ ·)

def SinceCounters.scan (h : List Double) : SinceCounters where
  t13 := roundsSinceRounds h T13
  t20 := roundsSinceRounds h 2
  t50 := roundsSinceRounds h 5
  t100 := roundsSinceRounds h 10

theorem countP_concat (h : List Double) (x t : Double) :
    (h ++ [x]).countP (t ≤ ·) = if t ≤ x then h.countP (t ≤ ·) + 1 else h.countP (t ≤ ·) := by
  rw [List.countP_append, List.countP_singleton]
  by_cases hx : t ≤ x <;> simp [hx]

theorem HitCounters.scan_concat (h : List Double) (x : Double) : scan (h ++ [x]) = (scan h).add x := by
  simp only [scan, add, countP_concat]

theorem SinceCounters.scan_concat (h : List Double) (x : Double) : scan (h ++ [x]) = (scan h).add x := by
  simp only [scan, add, roundsSinceRounds_concat]

/-! ### Streaks -/

structure RunState.Scan (r : RunState) (h : List Double) : Prop where
  below13 : r.below13 = consecutiveStreak h (· < T13)
  above13 : r.above13 = consecutiveStreak h (T13 ≤ ·)
  below15 : r.below15 = consecutiveStreak h (· < 3 / 2)
  below20 : r.below20 = consecutiveStreak h (· < 2)
  above20 : r.above20 = consecutiveStreak h (2 ≤ ·)
  maxBelow13 : h.IsLongestRun (· < T13) r.maxBelow13
  maxAbove13 : h.IsLongestRun (T13 ≤ ·) r.maxAbove13
  maxBelow20 : h.IsLongestRun (· < 2) r.maxBelow20

theorem RunState.scan_nil : Scan {} [] :=
  ⟨rfl, rfl, rfl, rfl, rfl, List.isLongestRun_nil, List.isLongestRun_nil, List.isLongestRun_nil⟩

/-- The record of a streak, with the streak as it is now. -/
theorem isLongestRun_concat {p : Double → Bool} {n streak : Nat} (hmax : h.IsLongestRun p n)
    (hstreak : streak = consecutiveStreak h p) (x : Double) :
    (h ++ [x]).IsLongestRun p (if p x then max n (streak + 1) else n) := by
  split
  · rename_i hx
    have hconcat := hmax.concat x
    rwa [← consecutiveStreak_eq, consecutiveStreak_concat, if_pos hx, ← hstreak] at hconcat
  · rename_i hx
    exact hmax.concat_neg hx

/-- Each streak goes on or ends, whatever the other ones do. -/
theorem RunState.add_eq (r : RunState) (x : Double) : r.add x = {
    below13 := if x < T13 then r.below13 + 1 else 0
    above13 := if T13 ≤ x then r.above13 + 1 else 0
    below15 := if x < 3 / 2 then r.below15 + 1 else 0
    below20 := if x < 2 then r.below20 + 1 else 0
    above20 := if 2 ≤ x then r.above20 + 1 else 0
    maxBelow13 := if x < T13 then max r.maxBelow13 (r.below13 + 1) else r.maxBelow13
    maxAbove13 := if T13 ≤ x then max r.maxAbove13 (r.above13 + 1) else r.maxAbove13
    maxBelow20 := if x < 2 then max r.maxBelow20 (r.below20 + 1) else r.maxBelow20 } := by
  simp only [add, ← not_le (a := T13), ← not_le (a := (2 : Double))]
  by_cases h13 : T13 ≤ x
  · by_cases h20 : 2 ≤ x
    · by_cases h15 : x < 3 / 2 <;> simp only [h13, h20, h15, not_true, if_true, if_false]
    · by_cases h15 : x < 3 / 2 <;> simp only [h13, h20, h15, not_true, not_false_eq_true, if_true, if_false]
  · by_cases h20 : 2 ≤ x
    · by_cases h15 : x < 3 / 2 <;> simp only [h13, h20, h15, not_true, not_false_eq_true, if_true, if_false]
    · by_cases h15 : x < 3 / 2 <;> simp only [h13, h20, h15, not_false_eq_true, if_true, if_false]

theorem RunState.Scan.add {r : RunState} (hr : r.Scan h) (x : Double) : (r.add x).Scan (h ++ [x]) := by
  have hbelow13 := isLongestRun_concat hr.maxBelow13 hr.below13 x
  have habove13 := isLongestRun_concat hr.maxAbove13 hr.above13 x
  have hbelow20 := isLongestRun_concat hr.maxBelow20 hr.below20 x
  rw [RunState.add_eq]
  simp only [decide_eq_true_eq] at hbelow13 habove13 hbelow20
  refine ⟨?_, ?_, ?_, ?_, ?_, hbelow13, habove13, hbelow20⟩
  · simp only [consecutiveStreak_concat, decide_eq_true_eq, hr.below13]
  · simp only [consecutiveStreak_concat, decide_eq_true_eq, hr.above13]
  · simp only [consecutiveStreak_concat, decide_eq_true_eq, hr.below15]
  · simp only [consecutiveStreak_concat, decide_eq_true_eq, hr.below20]
  · simp only [consecutiveStreak_concat, decide_eq_true_eq, hr.above20]

/-! ### Neighbours -/

structure MarkovState.Scan (m : MarkovState) (h : List Double) : Prop where
  trans : ∀ i j, m.trans i j = neighbours h i j
  lastAbove13 : m.lastAbove13 = h.getLast?.map (decide <| T13 ≤ ·)

theorem MarkovState.Scan.add {m : MarkovState} (hm : m.Scan h) (x : Double) :
    (m.add (decide (T13 ≤ x))).Scan (h ++ [x]) where
  trans i j := by
    rw [neighbours_concat, ← hm.trans, ← hm.lastAbove13]
    unfold MarkovState.add
    cases m.lastAbove13 with
    | none => simp
    | some last =>
      simp only [Option.some.injEq, eq_comm (a := i), eq_comm (a := j)]
      split <;> rfl
  lastAbove13 := by
    rw [List.getLast?_concat]
    rfl

theorem countP_sides {α : Type} (f g : α → Bool) {n : List α → Bool → Bool → Nat}
    (hn : ∀ l i j, n l i j = l.countP fun a => f a = i ∧ g a = j) (l : List α) :
    n l false false + n l false true + (n l true false + n l true true) = l.length := by
  induction l with
  | nil => simp [hn]
  | cons a l ih =>
    simp only [hn, List.countP_cons, List.length_cons] at ih ⊢
    cases hf : f a <;> cases hg : g a <;> simp at ih ⊢ <;> omega

/-- Each crash point but the last one has a next one. -/
theorem sum_neighbours (h : List Double) : neighbours h false false + neighbours h false true +
    (neighbours h true false + neighbours h true true) = h.length - 1 := by
  have hsum := countP_sides (fun p : Double × Double => decide (T13 ≤ p.1)) (fun p => decide (T13 ≤ p.2))
    (fun _ _ _ => rfl) (h.zip h.tail)
  rw [List.length_zip_tail] at hsum
  exact hsum

/-! ### The whole state -/

namespace IncrementalStateEngine
variable {e : IncrementalStateEngine}

structure Scan (e : IncrementalStateEngine) (h : List Double) : Prop where
  count : e.count = h.length
  lastCrash : e.lastCrash = h.getLast?
  n : e.welford.n = h.length
  hits : e.hits = .scan h
  since : e.since = .scan h
  runs : e.runs.Scan h
  markov : e.markov.Scan h

theorem scan_nil : Scan {} [] where
  count := rfl
  lastCrash := rfl
  n := rfl
  hits := rfl
  since := rfl
  runs := RunState.scan_nil
  markov := ⟨fun _ _ => rfl, rfl⟩

theorem Scan.observe (hs : e.Scan h) (x : Double) (now : TimestampMs) : (e.observe x now).Scan (h ++ [x]) where
  count := by
    rw [List.length_append, List.length_singleton, ← hs.count]
    rfl
  lastCrash := by
    rw [List.getLast?_concat]
    rfl
  n := by
    rw [List.length_append, List.length_singleton, ← hs.n]
    rfl
  hits := by
    rw [HitCounters.scan_concat, ← hs.hits]
    rfl
  since := by
    rw [SinceCounters.scan_concat, ← hs.since]
    rfl
  runs := hs.runs.add x
  markov := hs.markov.add x

theorem Scan.recordBeganAt (hs : e.Scan h) (beganAtMs : TimestampMs) : (e.recordBeganAt beganAtMs).Scan h := by
  obtain ⟨last, gap, n, heq⟩ := recordBeganAt_eq e beganAtMs
  rw [heq]
  exact ⟨hs.count, hs.lastCrash, hs.n, hs.hits, hs.since, hs.runs, hs.markov⟩

theorem scan_calls (calls : List Call) : (calls.foldl call {}).Scan (history calls) :=
  holds_calls scan_nil (fun _ hs => hs.observe _ _) (fun _ hs => hs.recordBeganAt _) calls

def SUPPORTED_TARGETS : List Double := [T13, 2, 5, 10]

/-- Which branch a target takes. -/
theorem cases_of_mem {target : Double} (ht : target ∈ SUPPORTED_TARGETS) : target = T13 ∨
    (target = 2 ∧ ¬target ≤ T13) ∨ (target = 5 ∧ ¬target ≤ T13 ∧ ¬target ≤ 2) ∨
    (target = 10 ∧ ¬target ≤ T13 ∧ ¬target ≤ 2 ∧ ¬target ≤ 5) := by
  have hlow : T13 < 2 := by decide +kernel
  simp only [SUPPORTED_TARGETS, List.mem_cons, List.not_mem_nil, or_false] at ht
  rcases ht with rfl | rfl | rfl | rfl
  · exact .inl rfl
  · exact .inr (.inl ⟨rfl, not_le.mpr hlow⟩)
  · exact .inr (.inr (.inl ⟨rfl, not_le.mpr (hlow.trans (by norm_num)), by norm_num⟩))
  · exact .inr (.inr (.inr ⟨rfl, not_le.mpr (hlow.trans (by norm_num)), by norm_num, by norm_num⟩))

theorem Scan.hitRate (hs : e.Scan h) {target : Double} (ht : target ∈ SUPPORTED_TARGETS) :
    e.hitRate target = hitRatePoints h target := by
  unfold IncrementalStateEngine.hitRate hitRatePoints
  simp only [hs.count, hs.hits, List.length_eq_zero_iff]
  rcases cases_of_mem ht with rfl | ⟨rfl, h₁⟩ | ⟨rfl, h₁, h₂⟩ | ⟨rfl, h₁, h₂, h₃⟩
  · rw [if_pos (le_refl T13)]
    rfl
  · rw [if_neg h₁, if_pos le_rfl]
    rfl
  · rw [if_neg h₁, if_neg h₂, if_pos le_rfl]
    rfl
  · rw [if_neg h₁, if_neg h₂, if_neg h₃]
    rfl

theorem Scan.roundsSince (hs : e.Scan h) {target : Double} (ht : target ∈ SUPPORTED_TARGETS) :
    e.roundsSince target = roundsSinceRounds h target := by
  unfold IncrementalStateEngine.roundsSince
  rw [hs.since]
  rcases cases_of_mem ht with rfl | ⟨rfl, h₁⟩ | ⟨rfl, h₁, h₂⟩ | ⟨rfl, h₁, h₂, h₃⟩
  · rw [if_pos (le_refl T13)]
    rfl
  · rw [if_neg h₁, if_pos le_rfl]
    rfl
  · rw [if_neg h₁, if_neg h₂, if_pos le_rfl]
    rfl
  · rw [if_neg h₁, if_neg h₂, if_neg h₃]
    rfl

theorem Scan.sum_trans (hs : e.Scan h) : e.markov.trans false false + e.markov.trans false true +
    (e.markov.trans true false + e.markov.trans true true) = e.count - 1 := by
  rw [hs.markov.trans, hs.markov.trans, hs.markov.trans, hs.markov.trans, hs.count]
  exact sum_neighbours h

/-- After any calls, the counters are those of full scans over what was taken since the state was last emptied. -/
theorem agrees_with_scan (calls : List Call) : (calls.foldl call {}).Scan (history calls) ∧
    (∀ target ∈ SUPPORTED_TARGETS,
      (calls.foldl call {}).hitRate target = hitRatePoints (history calls) target ∧
        (calls.foldl call {}).roundsSince target = roundsSinceRounds (history calls) target) ∧
    let trans := (calls.foldl call {}).markov.trans
    trans false false + trans false true + (trans true false + trans true true) = (calls.foldl call {}).count - 1 :=
  have hs := scan_calls calls
  ⟨hs, fun _ ht => ⟨hs.hitRate ht, hs.roundsSince ht⟩, hs.sum_trans⟩

end IncrementalStateEngine

/-! ### The rings

They hold the last crash points that were taken, so that what is read from them is what a full scan over a slice of the
history finds. `getRecentPoints` is no such slice: it returns the oldest elements of the ring. -/

namespace IncrementalStateEngine
variable {e : IncrementalStateEngine} {h : List Double} {x : Double} {now : TimestampMs} {n : Nat}

def lag (e : IncrementalStateEngine) : OverwritingRing Double := ⟨e.lagRing, e.lagPos, e.lagLen⟩

def short (e : IncrementalStateEngine) : OverwritingRing Double := ⟨e.shortRing, e.shortPos, e.shortLen⟩

theorem lag_observe : (e.observe x now).lag = e.lag.push LAG_CAP x := rfl

theorem short_observe (hle : e.shortLen ≤ SHORT_CAP) : (e.observe x now).short = e.short.push SHORT_CAP x := by
  have hlen : (e.observe x now).shortLen = if e.shortLen < SHORT_CAP then e.shortLen + 1 else e.shortLen := by
    unfold observe evicted
    by_cases hfull : e.shortLen = SHORT_CAP
    · simp [hfull]
    · simp [hfull, hle.lt_of_ne hfull]
  show OverwritingRing.mk _ _ (e.observe x now).shortLen = _
  rw [hlen]
  rfl

/-- The rings hold the last crash points, and the counter of the short one its hits. -/
structure Rings (e : IncrementalStateEngine) (h : List Double) : Prop where
  lag : e.lag.Holds LAG_CAP h
  short : e.short.Holds SHORT_CAP h
  hits : e.shortHits13 = (h.rtake SHORT_CAP).countP (T13 ≤ ·)

theorem rings_nil : Rings {} [] where
  lag := OverwritingRing.holds_nil
  short := OverwritingRing.holds_nil
  hits := rfl

theorem Rings.shortLen_le (hr : e.Rings h) : e.shortLen ≤ SHORT_CAP := by
  have hlen : e.shortLen = _ := hr.short.len
  omega

/-- The hit that leaves the short window is taken off the counter. -/
theorem Rings.hits_rest (hr : e.Rings h) : (h.rtake 29).countP (T13 ≤ ·) =
    e.shortHits13 - e.evicted.elim 0 (fun old => if T13 ≤ old then 1 else 0) := by
  have hlen : e.shortLen = min h.length SHORT_CAP := hr.short.len
  rw [hr.hits, evicted]
  by_cases hfull : e.shortLen = SHORT_CAP
  · have hlt : 29 < h.length := by
      have hcap : SHORT_CAP = 30 := rfl
      omega
    have hold : e.shortRing e.shortPos = h[h.length - 30] := hr.short.overwritten (by decide) hfull
    rw [if_pos hfull, Option.elim_some, hold, show SHORT_CAP = 29 + 1 from rfl, OverwritingRing.rtake_succ_of_lt hlt,
      List.countP_cons]
    simp
  · have hle : h.length ≤ 29 := by
      have hcap : SHORT_CAP = 30 := rfl
      omega
    rw [if_neg hfull, Option.elim_none, List.rtake, List.rtake, Nat.sub_eq_zero_of_le hle,
      Nat.sub_eq_zero_of_le (hle.trans (by decide)), sub_zero]

theorem shortHits13_observe : (e.observe x now).shortHits13 =
    e.shortHits13 - e.evicted.elim 0 (fun old => if T13 ≤ old then 1 else 0) + if T13 ≤ x then 1 else 0 := by
  unfold observe
  cases e.evicted with
  | none =>
    dsimp only [Option.elim_none]
    split <;> omega
  | some old =>
    dsimp only [Option.elim_some]
    split <;> split <;> omega

theorem Rings.observe (hr : e.Rings h) (x : Double) (now : TimestampMs) : (e.observe x now).Rings (h ++ [x]) where
  lag := by
    rw [lag_observe]
    exact hr.lag.push x
  short := by
    rw [short_observe hr.shortLen_le]
    exact hr.short.push x
  hits := by
    rw [shortHits13_observe, ← hr.hits_rest, show SHORT_CAP = 29 + 1 from rfl, List.rtake_concat_succ,
      List.countP_append, List.countP_singleton]
    simp

theorem Rings.recordBeganAt (hr : e.Rings h) (beganAtMs : TimestampMs) : (e.recordBeganAt beganAtMs).Rings h := by
  obtain ⟨last, gap, n, heq⟩ := recordBeganAt_eq e beganAtMs
  rw [heq]
  exact ⟨hr.lag, hr.short, hr.hits⟩

theorem rings_calls (calls : List Call) : (calls.foldl call {}).Rings (history calls) :=
  holds_calls rings_nil (fun _ hr => hr.observe _ _) (fun _ hr => hr.recordBeganAt _) calls

/-! ### Readings -/

theorem Rings.lagLen (hr : e.Rings h) : e.lagLen = (slice h LAG_CAP).length := by
  have hlen : e.lagLen = min h.length LAG_CAP := hr.lag.len
  rw [slice, List.length_drop]
  omega

theorem Rings.getLagArray (hr : e.Rings h) : e.getLagArray = slice h LAG_CAP := hr.lag.toList

theorem Rings.lagAt (hr : e.Rings h) (i : Int) : e.lagAt i = if i < 0 then 0 else (slice h LAG_CAP).getD i.toNat 0 := by
  have hlen := hr.lagLen
  unfold IncrementalStateEngine.lagAt
  by_cases hneg : i < 0
  · rw [if_pos (.inl hneg), if_pos hneg]
  rw [if_neg hneg, ← hr.getLagArray]
  by_cases hend : (e.lagLen : Int) ≤ i
  · rw [if_pos (.inr hend), List.getD_eq_default]
    rw [hr.getLagArray]
    omega
  · rw [if_neg (by omega), List.getD_eq_getElem _ _ (by rw [hr.getLagArray]; omega)]
    simp [IncrementalStateEngine.getLagArray]

theorem Rings.lagN (hr : e.Rings h) (n : Int) :
    e.lagN n = if n < 1 then 0 else (slice h LAG_CAP).reverse.getD (n.toNat - 1) 0 := by
  have hlen : e.lagLen = min h.length LAG_CAP := hr.lag.len
  have hslice := hr.lagLen
  unfold IncrementalStateEngine.lagN
  by_cases hlow : n < 1
  · rw [if_pos (.inl hlow), if_pos hlow]
  rw [if_neg hlow]
  by_cases hend : (e.lagLen : Int) < n
  · rw [if_pos (.inr hend), List.getD_eq_default]
    rw [List.length_reverse]
    omega
  · have hback : e.lagRing ((e.lagPos + LAG_CAP - n.toNat) % LAG_CAP) = _ :=
      hr.lag.back (k := n.toNat) (by omega) (show n.toNat ≤ e.lagLen by omega)
    rw [if_neg (by omega), hback, List.get_eq_getElem, List.getD_eq_getElem _ _ (by rw [List.length_reverse]; omega), List.getElem_reverse]
    simp only [slice, List.getElem_drop, List.length_drop]
    congr 1
    omega

theorem Rings.lag1 (hr : e.Rings h) : e.lag1 = h.getLast?.getD 0 := by
  have hlen : e.lagLen = min h.length LAG_CAP := hr.lag.len
  have hcap : LAG_CAP = 512 := rfl
  unfold IncrementalStateEngine.lag1
  by_cases hnil : e.lagLen = 0
  · obtain rfl : h = [] := List.length_eq_zero_iff.mp (by omega)
    rw [if_pos hnil]
    rfl
  · have hback : e.lagRing ((e.lagPos + LAG_CAP - 1) % LAG_CAP) = _ :=
      hr.lag.back (k := 1) Nat.one_pos (show 1 ≤ e.lagLen by omega)
    rw [if_neg hnil, hback, List.get_eq_getElem, List.getLast?_eq_getElem?, List.getElem?_eq_getElem (by omega), Option.getD_some]

theorem Rings.windowHitRate (hr : e.Rings h) (window : Int) (target : Double) :
    e.windowHitRate window target = hitRatePoints (slice h (min window.toNat LAG_CAP)) target := by
  have hlen : e.lagLen = min h.length LAG_CAP := hr.lag.len
  have hwindow : (max 0 window).toNat = window.toNat := by omega
  have hcount : (List.range' 1 (min window.toNat e.lagLen)).countP
      (fun i => decide (target ≤ e.lagRing ((e.lagPos + LAG_CAP - i) % LAG_CAP))) = _ :=
    hr.lag.countP_back (target ≤ ·) (min window.toNat e.lagLen) (Nat.min_le_right _ _)
  have hslice : slice h (min window.toNat LAG_CAP) = h.rtake (min window.toNat e.lagLen) := by
    rw [slice, List.rtake]
    congr 1
    omega
  have hlength : (h.rtake (min window.toNat e.lagLen)).length = min window.toNat e.lagLen := by
    rw [List.rtake, List.length_drop]
    omega
  unfold IncrementalStateEngine.windowHitRate hitRatePoints
  simp only [hslice, ← List.length_eq_zero_iff, hlength, hwindow, hcount]

theorem Rings.shortHitRate13 (hr : e.Rings h) : e.shortHitRate13 = hitRatePoints (slice h SHORT_CAP) T13 := by
  have hlen : e.shortLen = min h.length SHORT_CAP := hr.short.len
  have hlength : (slice h SHORT_CAP).length = e.shortLen := by
    rw [slice, List.length_drop]
    omega
  unfold IncrementalStateEngine.shortHitRate13 hitRatePoints
  simp only [← List.length_eq_zero_iff, hlength, hr.hits]
  by_cases hnil : e.shortLen = 0
  · rw [if_neg (by omega), if_pos hnil]
  · rw [if_pos (by omega), if_neg hnil]
    rfl

/-- What is called recent are the oldest elements of the ring. -/
theorem Rings.getRecentPoints (hr : e.Rings h) (max : Int) :
    e.getRecentPoints max = (slice h LAG_CAP).take max.toNat := by
  have hlen : e.lagLen = min h.length LAG_CAP := hr.lag.len
  have hpos : e.lagPos = h.length % LAG_CAP := hr.lag.pos
  have hstart : (e.lagPos + LAG_CAP - e.lagLen) % LAG_CAP = if e.lagLen < LAG_CAP then 0 else e.lagPos := by
    simp only [show LAG_CAP = 512 from rfl] at hlen hpos ⊢
    split <;> omega
  have hn : (min max (e.lagLen : Int)).toNat = min max.toNat e.lagLen := by omega
  rw [← hr.getLagArray, IncrementalStateEngine.getRecentPoints, IncrementalStateEngine.getLagArray, hstart, hn,
    ← List.map_take, List.take_range]

end IncrementalStateEngine

/-! ### Rounded operations

The shares and the smoothed hit rate stay between 0 and 1, the running mean between the crash points it is the mean of,
and the sum of squares never becomes negative, so that its root can be taken. -/

open Double

/-- A number that is not rounded. -/
def IsDouble (x : Double) : Prop := nearest x = x

instance : DecidablePred IsDouble := fun _ => inferInstanceAs (Decidable (_ = _))

/-! ### One step of the mean -/

section Mean
variable {m x : Double} {n : Nat}

/-- The correction of the mean, from two crash points on. -/
theorem correction_le (hle : m ≤ x) (hn : 2 ≤ n) : nearest (nearest (x - m) / n) ≤ x - m := by
  have hnonneg : 0 ≤ x - m := sub_nonneg.mpr hle
  have hn' : (2 : Rat) ≤ n := by exact_mod_cast hn
  have hdelta := nearest_le_mul hnonneg
  calc nearest (nearest (x - m) / n) ≤ nearest (nearest (x - m) / 2) :=
        nearest_mono (div_le_div_of_nonneg_left (nearest_nonneg hnonneg) (by norm_num) hn')
    _ ≤ nearest (x - m) / 2 * (9007199254740993 / 9007199254740992) :=
        nearest_le_mul (div_nonneg (nearest_nonneg hnonneg) (by norm_num))
    _ ≤ x - m := by linarith

theorem mean_between (hm : IsDouble m) (hx : IsDouble x) (hle : m ≤ x) (hn : 2 ≤ n) :
    m ≤ nearest (m + nearest (nearest (x - m) / n)) ∧ nearest (m + nearest (nearest (x - m) / n)) ≤ x := by
  have hcorrection : 0 ≤ nearest (nearest (x - m) / n) :=
    nearest_nonneg (div_nonneg (nearest_nonneg (sub_nonneg.mpr hle)) (Nat.cast_nonneg n))
  constructor
  · calc m = nearest m := hm.symm
      _ ≤ _ := nearest_mono (le_add_of_nonneg_right hcorrection)
  · calc _ ≤ nearest x := nearest_mono (by linarith [correction_le hle hn])
      _ = x := hx

/-- The same from above, by the symmetry of the rounding. -/
theorem mean_between_neg (hm : IsDouble m) (hx : IsDouble x) (hle : x ≤ m) (hn : 2 ≤ n) :
    x ≤ nearest (m + nearest (nearest (x - m) / n)) ∧ nearest (m + nearest (nearest (x - m) / n)) ≤ m := by
  have hneg {y : Double} (hy : IsDouble y) : IsDouble (-y) := by rw [IsDouble, nearest_neg, hy]
  have hflip : nearest (-m + nearest (nearest (-x - -m) / n)) = -nearest (m + nearest (nearest (x - m) / n)) := by
    rw [← nearest_neg, neg_add, ← nearest_neg, ← neg_div, ← nearest_neg, neg_sub, neg_sub_neg]
  obtain ⟨hlow, hhigh⟩ := mean_between (hneg hm) (hneg hx) (neg_le_neg hle) hn
  rw [hflip] at hlow hhigh
  exact ⟨neg_le_neg_iff.mp hhigh, neg_le_neg_iff.mp hlow⟩

end Mean

/-! ### The sums -/

/-- The mean lies between two of the crash points, and what has been added up is not negative. -/
structure WelfordState.Sound (w : WelfordState) (h : List Double) : Prop where
  n : w.n = h.length
  start : h = [] → w.mean = 0
  isDouble : IsDouble w.mean
  low : h ≠ [] → ∃ y ∈ h, y ≤ w.mean
  high : h ≠ [] → ∃ y ∈ h, w.mean ≤ y
  m2 : 0 ≤ w.m2

namespace WelfordState.Sound
variable {w : WelfordState} {h : List Double} {x : Double}

theorem mean_add_nil (hw : w.Sound []) (hx : IsDouble x) : (w.add x).mean = x := by
  have hx' : nearest x = x := hx
  show nearest (w.mean + nearest (nearest (x - w.mean) / (w.n + 1 : Nat))) = x
  rw [hw.start rfl, hw.n, List.length_nil, sub_zero, hx', zero_add, Nat.cast_one, div_one, hx', hx']

/-- The new mean lies between the old one and the crash point. -/
theorem add_between (hw : w.Sound h) (hne : h ≠ []) (hx : IsDouble x) :
    (w.mean ≤ (w.add x).mean ∧ (w.add x).mean ≤ x) ∨ (x ≤ (w.add x).mean ∧ (w.add x).mean ≤ w.mean) := by
  have hn : 2 ≤ w.n + 1 := by
    have hlen := List.length_pos_iff.mpr hne
    have := hw.n
    omega
  rcases le_total w.mean x with hle | hle
  · exact .inl (mean_between hw.isDouble hx hle hn)
  · exact .inr (mean_between_neg hw.isDouble hx hle hn)

/-- Both differences have the same sign. -/
theorem product_nonneg (hw : w.Sound h) (hx : IsDouble x) : 0 ≤ nearest (x - w.mean) * nearest (x - (w.add x).mean) := by
  by_cases hnil : h = []
  · subst hnil
    rw [hw.mean_add_nil hx, sub_self, nearest_zero, mul_zero]
  rcases hw.add_between hnil hx with ⟨hlow, hhigh⟩ | ⟨hlow, hhigh⟩
  · exact mul_nonneg (nearest_nonneg (by linarith)) (nearest_nonneg (by linarith))
  · exact mul_nonneg_of_nonpos_of_nonpos (nearest_nonpos (by linarith)) (nearest_nonpos (by linarith))

theorem add (hw : w.Sound h) (hx : IsDouble x) : (w.add x).Sound (h ++ [x]) where
  n := by
    rw [List.length_append, List.length_singleton, ← hw.n]
    rfl
  start hnil := absurd hnil (by simp)
  isDouble := nearest_nearest _
  low _ := by
    by_cases hnil : h = []
    · subst hnil
      exact ⟨x, by simp, (hw.mean_add_nil hx).ge⟩
    obtain ⟨y, hy, hle⟩ := hw.low hnil
    rcases hw.add_between hnil hx with ⟨hlow, -⟩ | ⟨hlow, -⟩
    · exact ⟨y, List.mem_append_left _ hy, hle.trans hlow⟩
    · exact ⟨x, by simp, hlow⟩
  high _ := by
    by_cases hnil : h = []
    · subst hnil
      exact ⟨x, by simp, (hw.mean_add_nil hx).le⟩
    obtain ⟨y, hy, hle⟩ := hw.high hnil
    rcases hw.add_between hnil hx with ⟨-, hhigh⟩ | ⟨-, hhigh⟩
    · exact ⟨x, by simp, hhigh⟩
    · exact ⟨y, List.mem_append_left _ hy, hhigh.trans hle⟩
  m2 := nearest_nonneg (add_nonneg hw.m2 (nearest_nonneg (hw.product_nonneg hx)))

end WelfordState.Sound

/-! ### Shares -/

/-- A number of 0 to 1. -/
def IsRate (p : Double) : Prop := 0 ≤ p ∧ p ≤ 1

theorem isRate_zero : IsRate 0 := ⟨le_rfl, zero_le_one⟩

namespace IncrementalStateEngine
variable {e : IncrementalStateEngine} {h : List Double} {x : Double} {now : TimestampMs}

theorem isRate_share {k n : Nat} (hle : k ≤ n) : IsRate (share k n) := by
  have hq : ((k : Int) : Rat) / n ≤ 1 := by
    refine div_le_one_of_le₀ ?_ (Nat.cast_nonneg n)
    exact_mod_cast hle
  have hnonneg : 0 ≤ ((k : Int) : Rat) / n := by positivity
  exact ⟨nearest_nonneg hnonneg, (nearest_mono hq).trans_eq nearest_one⟩

theorem isRate_hitRatePoints (cps : List Double) (threshold : Double) : IsRate (hitRatePoints cps threshold) := by
  unfold hitRatePoints
  split
  · exact isRate_zero
  · exact isRate_share List.countP_le_length

/-- Smoothing at the ends of the interval is exact. -/
theorem isRate_ewmaStep {p q : Double} (hp : IsRate p) (hq : IsRate q) : IsRate (ewmaStep p q) := by
  have hzero : ewmaStep 0 0 = 0 := by decide +kernel
  have hone : ewmaStep 1 1 = 1 := by decide +kernel
  have halpha : 0 ≤ EWMA_ALPHA ∧ 0 ≤ nearest (1 - EWMA_ALPHA) := by decide +kernel
  have hmono {p p' q q' : Double} (hp : p ≤ p') (hq : q ≤ q') : ewmaStep p q ≤ ewmaStep p' q' :=
    nearest_mono (add_le_add (nearest_mono (mul_le_mul_of_nonneg_left hq halpha.1))
      (nearest_mono (mul_le_mul_of_nonneg_left hp halpha.2)))
  exact ⟨hzero.symm.trans_le (hmono hp.1 hq.1), (hmono hp.2 hq.2).trans_eq hone⟩

/-! ### The whole state -/

structure Sound (e : IncrementalStateEngine) (h : List Double) : Prop where
  welford : e.welford.Sound h
  ewmaHit13 : IsRate e.ewmaHit13

theorem sound_nil : Sound {} [] where
  welford := ⟨rfl, fun _ => rfl, nearest_zero, fun h => absurd rfl h, fun h => absurd rfl h, le_rfl⟩
  ewmaHit13 := by
    have hstart : 0 ≤ nearest (65 / 100) ∧ nearest (65 / 100) ≤ 1 := by decide +kernel
    exact hstart

theorem Sound.observe (hs : e.Sound h) (hx : IsDouble x) : (e.observe x now).Sound (h ++ [x]) where
  welford := hs.welford.add hx
  ewmaHit13 := by
    refine isRate_ewmaStep hs.ewmaHit13 ?_
    split
    · exact ⟨zero_le_one, le_rfl⟩
    · exact isRate_zero

theorem Sound.recordBeganAt (hs : e.Sound h) (beganAtMs : TimestampMs) : (e.recordBeganAt beganAtMs).Sound h := by
  obtain ⟨last, gap, n, heq⟩ := recordBeganAt_eq e beganAtMs
  rw [heq]
  exact ⟨hs.welford, hs.ewmaHit13⟩

theorem sound_calls (calls : List Call) (hd : ∀ x ∈ history calls, IsDouble x) :
    (calls.foldl call {}).Sound (history calls) := by
  refine holds_calls (P := fun e h => (∀ x ∈ h, IsDouble x) → e.Sound h) (fun _ => sound_nil) ?_ ?_ calls hd
  · intro e h x now _ ih hd
    exact (ih fun y hy => hd y (List.mem_append_left _ hy)).observe (hd x (by simp))
  · intro e h beganAtMs ih hd
    exact (ih hd).recordBeganAt beganAtMs

theorem Sound.variance_nonneg (hs : e.Sound h) : 0 ≤ e.variance := by
  unfold variance
  split
  · exact nearest_nonneg (div_nonneg hs.welford.m2 (Nat.cast_nonneg _))
  · exact le_rfl

theorem Scan.isRate_hitRate (hs : e.Scan h) (target : Double) : IsRate (e.hitRate target) := by
  unfold IncrementalStateEngine.hitRate
  rw [hs.count, hs.hits]
  split
  · exact isRate_zero
  split
  · exact isRate_share List.countP_le_length
  split
  · exact isRate_share List.countP_le_length
  split <;> exact isRate_share List.countP_le_length

theorem Sound.isRate_markov (hs : e.Sound h) : IsRate e.markovPNextAbove13 := by
  unfold markovPNextAbove13
  split
  · exact hs.ewmaHit13
  · dsimp only
    split
    · exact hs.ewmaHit13
    · exact isRate_share (Nat.le_add_left _ _)

/-- After any calls with doubles. -/
theorem rates_calls (calls : List Call) (hd : ∀ x ∈ history calls, IsDouble x) :
    let e := calls.foldl call {}
    (∀ target, IsRate (e.hitRate target)) ∧ (∀ window target, IsRate (e.windowHitRate window target)) ∧
      IsRate e.shortHitRate13 ∧ IsRate e.ewmaHit13 ∧ IsRate e.markovPNextAbove13 ∧ 0 ≤ e.welford.m2 ∧ 0 ≤ e.variance ∧
      (history calls ≠ [] → (∃ y ∈ history calls, y ≤ e.welford.mean) ∧ ∃ y ∈ history calls, e.welford.mean ≤ y) := by
  have hscan := scan_calls calls
  have hrings := rings_calls calls
  have hs := sound_calls calls hd
  refine ⟨hscan.isRate_hitRate, fun window target => ?_, ?_, hs.ewmaHit13, hs.isRate_markov, hs.welford.m2, hs.variance_nonneg,
    fun hne => ⟨hs.welford.low hne, hs.welford.high hne⟩⟩
  · rw [hrings.windowHitRate]
    exact isRate_hitRatePoints _ _
  · rw [hrings.shortHitRate13]
    exact isRate_hitRatePoints _ _

/-- A low crash point and a high one, and one that is refused. -/
theorem rates_calls_three :
    let calls := [Call.update (some (5 / 4)) 10, .update (some 0) 20, .recordBeganAt 30, .update (some 7) 40]
    let e := calls.foldl call {}
    (∀ target, IsRate (e.hitRate target)) ∧ (∀ window target, IsRate (e.windowHitRate window target)) ∧
      IsRate e.shortHitRate13 ∧ IsRate e.ewmaHit13 ∧ IsRate e.markovPNextAbove13 ∧ 0 ≤ e.welford.m2 ∧ 0 ≤ e.variance ∧
      (history calls ≠ [] → (∃ y ∈ history calls, y ≤ e.welford.mean) ∧ ∃ y ∈ history calls, e.welford.mean ≤ y) :=
  rates_calls [.update (some (5 / 4)) 10, .update (some 0) 20, .recordBeganAt 30, .update (some 7) 40]
    (by decide +kernel)

end IncrementalStateEngine
end CrashCore.Pe
