import CrashCore.Library.LongestRun
import CrashCore.PredictionsEngine.LearnedClustering
import Mathlib.Logic.Function.Iterate

/-! What the clusters of a fit are, in the arithmetic of the computer: the centroids are the means of their rows, and when
the loop ends with a later iteration than the first, which changes nothing, a row of the fit is found again in the cluster
that it was assigned to. And how long a regime has lasted. -/

namespace CrashCore.Pe
open Binary64 (Libm)

/-! ### The nearest centroid -/

theorem nearestCluster_lt {libm : Libm} {centroids : List Row} (h : centroids ≠ []) (row : Row) :
    (nearestCluster libm centroids row).1 < centroids.length :=
  List.firstLeast_lt (List.length_pos_iff.mpr h) (by rw [List.length_map, Nat.zero_add])

/-- When some centroid is not too far off, the value of the loop is the distance of the centroid it finds. -/
theorem nearestCluster_snd {libm : Libm} {centroids : List Row} {row : Row}
    (hnear : ∃ centroid ∈ centroids, (euclidean libm row centroid).lt farOff = true) :
    (nearestCluster libm centroids row).2 =
      euclidean libm row (centroids.getD (nearestCluster libm centroids row).1 []) := by
  obtain ⟨centroid, hmem, hlt⟩ := hnear
  have hbelow : (euclidean libm row centroid).lt ((0, farOff) : Nat × Binary64).2 = true := hlt
  obtain ⟨i, hi, heq⟩ := List.firstLeast_eq_getElem Binary64.lt_trans Binary64.lt_irrefl (List.mem_map_of_mem hmem) hbelow
  rw [List.length_map] at hi
  have hfound : nearestCluster libm centroids row = (i, euclidean libm row centroids[i]) := by
    rw [nearestCluster, heq, Nat.zero_add, List.getElem_map]
  have hget : centroids.getD i [] = centroids[i] := by
    rw [List.getD_eq_getElem?_getD, List.getElem?_eq_getElem hi, Option.getD_some]
  rw [hfound, hget]

/-- No centroid is nearer than the one that is found. -/
theorem not_nearer {libm : Libm} {centroids : List Row} {row : Row}
    (hnear : ∃ centroid ∈ centroids, (euclidean libm row centroid).lt farOff = true) :
    ∀ centroid ∈ centroids, (euclidean libm row centroid).lt
      (euclidean libm row (centroids.getD (nearestCluster libm centroids row).1 [])) = false := by
  intro centroid hmem
  rw [← nearestCluster_snd hnear]
  exact List.not_lt_firstLeast Binary64.lt_trans Binary64.lt_irrefl _ (List.mem_map_of_mem hmem)

namespace KMeansResult
variable {libm : Libm} {rows : List Row} {r : KMeansResult} {dim : Nat}

/-! ### One iteration -/

theorem assignments_iterate (dim : Nat) : (r.iterate libm dim rows).assignments =
    rows.map fun row => (nearestCluster libm r.centroids row).1 := rfl

theorem length_centroids_iterate : (r.iterate libm dim rows).centroids.length = r.centroids.length := by
  simp [iterate, update, assign]

/-- The means depend on the assignments only. -/
theorem update_update : (r.update dim rows).update dim rows = r.update dim rows := by
  have hmembers (c : Nat) : (r.update dim rows).members rows c = r.members rows c := rfl
  have hcentroids : ((r.update dim rows).update dim rows).centroids = (r.update dim rows).centroids := by
    refine List.ext_getElem (by simp [update]) fun i h₁ h₂ => ?_
    simp only [update, List.getElem_map, List.getElem_zipIdx, Nat.zero_add, members] at hmembers ⊢
    split
    · rfl
    · rfl
  exact congrArg (fun centroids => { r with centroids }) hcentroids

/-- An iteration that changes no assignment, after one before it, changes nothing. -/
theorem iterate_eq_self (hupdated : r.update dim rows = r)
    (hsame : (r.iterate libm dim rows).assignments = r.assignments) : r.iterate libm dim rows = r := by
  have hassign : r.assign libm rows = r := congrArg (fun assignments => { r with assignments }) hsame
  rw [iterate, hassign, hupdated]

/-- A centroid is the mean of its rows, if it has any. -/
theorem centroid_eq_mean (hupdated : r.update dim rows = r) {c : Nat} (hc : c < r.centroids.length)
    (hmembers : r.members rows c ≠ []) : r.centroids[c] = mean dim (r.members rows c) := by
  have hcentroids : (r.update dim rows).centroids = r.centroids := congrArg centroids hupdated
  have hget : (r.update dim rows).centroids[c]? = some (mean dim (r.members rows c)) := by
    simp [update, hc, hmembers]
  rw [hcentroids, List.getElem?_eq_getElem hc] at hget
  exact Option.some.inj hget

/-! ### The loop -/

/-- Each row is where it would be found again. -/
def Consistent (libm : Libm) (rows : List Row) (r : KMeansResult) : Prop :=
  r.assignments = rows.map fun row => (nearestCluster libm r.centroids row).1

/-- The iteration behind the first `m` ones changes no assignment. -/
def Unchanged (libm : Libm) (dim : Nat) (rows : List Row) (r : KMeansResult) (m : Nat) : Prop :=
  ((iterate libm dim rows)^[m + 1] r).assignments = ((iterate libm dim rows)^[m] r).assignments

instance : DecidablePred (Unchanged libm dim rows r) := fun _ => inferInstanceAs (Decidable (_ = _))

theorem unchanged_succ {m : Nat} : Unchanged libm dim rows r (m + 1) ↔ Unchanged libm dim rows (r.iterate libm dim rows) m :=
  Iff.rfl

/-- The loop makes the iterations up to the first that changes nothing, or all of them. -/
theorem loop_eq (libm : Libm) (dim : Nat) (rows : List Row) : ∀ (maxIter : Nat) (r : KMeansResult),
    (∃ m < maxIter, Unchanged libm dim rows r m ∧ (∀ j < m, ¬Unchanged libm dim rows r j) ∧
      loop libm dim rows maxIter r = (iterate libm dim rows)^[m + 1] r) ∨
    ((∀ j < maxIter, ¬Unchanged libm dim rows r j) ∧ loop libm dim rows maxIter r = (iterate libm dim rows)^[maxIter] r)
  | 0, r => .inr ⟨fun j hj => absurd hj (Nat.not_lt_zero j), rfl⟩
  | maxIter + 1, r => by
    rw [loop]
    by_cases hsame : (r.iterate libm dim rows).assignments = r.assignments
    · rw [if_pos hsame]
      exact .inl ⟨0, Nat.succ_pos maxIter, hsame, fun j hj => absurd hj (Nat.not_lt_zero j), rfl⟩
    · rw [if_neg hsame]
      have hbefore {n : Nat} (h : ∀ j < n, ¬Unchanged libm dim rows (r.iterate libm dim rows) j) :
          ∀ j < n + 1, ¬Unchanged libm dim rows r j
        | 0, _ => hsame
        | j + 1, hj => fun hun => h j (Nat.lt_of_succ_lt_succ hj) (unchanged_succ.mp hun)
      rcases loop_eq libm dim rows maxIter (r.iterate libm dim rows) with ⟨m, hm, hun, hfirst, heq⟩ | ⟨hnone, heq⟩
      · exact .inl ⟨m + 1, Nat.succ_lt_succ hm, unchanged_succ.mpr hun, hbefore hfirst, heq⟩
      · exact .inr ⟨hbefore hnone, heq⟩

theorem update_iterations (m : Nat) :
    ((iterate libm dim rows)^[m + 1] r).update dim rows = (iterate libm dim rows)^[m + 1] r := by
  rw [Function.iterate_succ_apply', iterate, update_update]

/-- A later iteration than the first that changes no assignment ends at a consistent state. -/
theorem consistent_of_unchanged {m : Nat} (h : Unchanged libm dim rows r (m + 1)) :
    Consistent libm rows ((iterate libm dim rows)^[m + 2] r) := by
  have hsame : (((iterate libm dim rows)^[m + 1] r).iterate libm dim rows).assignments =
      ((iterate libm dim rows)^[m + 1] r).assignments := by
    rw [← Function.iterate_succ_apply' (iterate libm dim rows)]
    exact h
  have hself := iterate_eq_self (update_iterations m) hsame
  rw [Function.iterate_succ_apply', hself, Consistent, ← assignments_iterate dim, hsame]

/-- The iterations keep the number of the centroids, and assign every row to one of them. -/
structure Sized (kk : Nat) (rows : List Row) (r : KMeansResult) : Prop where
  centroids : r.centroids.length = kk
  assignments : r.assignments.length = rows.length
  range : ∀ a ∈ r.assignments, a < kk

theorem Sized.iterate {kk : Nat} (h : Sized kk rows r) (hkk : 0 < kk) : Sized kk rows (r.iterate libm dim rows) where
  centroids := length_centroids_iterate.trans h.centroids
  assignments := by rw [assignments_iterate dim, List.length_map]
  range a ha := by
    rw [assignments_iterate dim] at ha
    obtain ⟨row, -, rfl⟩ := List.mem_map.mp ha
    have hne : r.centroids ≠ [] := List.length_pos_iff.mp (h.centroids.symm ▸ hkk)
    exact h.centroids ▸ nearestCluster_lt hne row

theorem Sized.iterations {kk : Nat} (h : Sized kk rows r) (libm : Libm) (dim : Nat) (hkk : 0 < kk) :
    ∀ m, Sized kk rows ((KMeansResult.iterate libm dim rows)^[m] r)
  | 0 => h
  | m + 1 => by
    rw [Function.iterate_succ_apply']
    exact (h.iterations libm dim hkk m).iterate hkk

end KMeansResult

open KMeansResult

/-- What a result of k-means is. -/
structure Clustered (libm : Libm) (rows : List Row) (k maxIter : Nat) (r : KMeansResult) : Prop where
  centroids : r.centroids.length = min k rows.length
  assignments : r.assignments.length = rows.length
  range : ∀ a ∈ r.assignments, a < r.centroids.length
  means : 0 < maxIter → ∀ c (hc : c < r.centroids.length), r.members rows c ≠ [] →
    r.centroids[c] = mean (rows.headD []).length (r.members rows c)
  /-- An iteration that changes nothing ends the loop, and when it was not the first one each row is assigned where it would
      be found. -/
  settled : (∃ m < maxIter, Unchanged libm (rows.headD []).length rows (firstClusters rows k) m ∧
      (∀ j < m, ¬Unchanged libm (rows.headD []).length rows (firstClusters rows k) j) ∧
      r = (iterate libm (rows.headD []).length rows)^[m + 1] (firstClusters rows k) ∧ (0 < m → Consistent libm rows r)) ∨
    ((∀ j < maxIter, ¬Unchanged libm (rows.headD []).length rows (firstClusters rows k) j) ∧
      r = (iterate libm (rows.headD []).length rows)^[maxIter] (firstClusters rows k))
  nearest : ∀ row, (∃ centroid ∈ r.centroids, (euclidean libm row centroid).lt farOff = true) →
    ∀ centroid ∈ r.centroids, (euclidean libm row centroid).lt
      (euclidean libm row (r.centroids.getD (nearestCluster libm r.centroids row).1 [])) = false

theorem sized_firstClusters {rows : List Row} {k : Nat} (hrows : rows ≠ []) (hk : 0 < k) :
    Sized (min k rows.length) rows (firstClusters rows k) where
  centroids := by rw [firstClusters, firstCentroids, List.length_map, List.length_range]
  assignments := List.length_replicate
  range a ha := (List.eq_of_mem_replicate ha).symm ▸ Nat.lt_min.mpr ⟨hk, List.length_pos_iff.mpr hrows⟩

/-- The number of the iterations that the loop makes, and that they make it consistent. -/
theorem kMeans_settled (libm : Libm) {rows : List Row} (hrows : rows ≠ []) (k maxIter : Nat) :
    (∃ m < maxIter, Unchanged libm (rows.headD []).length rows (firstClusters rows k) m ∧
      (∀ j < m, ¬Unchanged libm (rows.headD []).length rows (firstClusters rows k) j) ∧
      kMeans libm rows k maxIter = (iterate libm (rows.headD []).length rows)^[m + 1] (firstClusters rows k) ∧
      (0 < m → Consistent libm rows (kMeans libm rows k maxIter))) ∨
    ((∀ j < maxIter, ¬Unchanged libm (rows.headD []).length rows (firstClusters rows k) j) ∧
      kMeans libm rows k maxIter = (iterate libm (rows.headD []).length rows)^[maxIter] (firstClusters rows k)) := by
  obtain ⟨row, rest, rfl⟩ := List.exists_cons_of_ne_nil hrows
  rcases loop_eq libm row.length (row :: rest) maxIter (firstClusters (row :: rest) k) with
    ⟨m, hm, hun, hfirst, heq⟩ | hnone
  · refine .inl ⟨m, hm, hun, hfirst, heq, fun hpos => ?_⟩
    obtain ⟨m, rfl⟩ := Nat.exists_eq_succ_of_ne_zero (Nat.ne_of_gt hpos)
    rw [show kMeans libm (row :: rest) k maxIter = _ from heq]
    exact consistent_of_unchanged hun
  · exact .inr hnone

/-- However many iterations have been made, the clusters are the rows' and each centroid is their mean. -/
theorem kMeans_clustered (libm : Libm) (rows : List Row) {k : Nat} (hrows : rows ≠ []) (hk : 0 < k) (maxIter : Nat) :
    Clustered libm rows k maxIter (kMeans libm rows k maxIter) := by
  have hkk : 0 < min k rows.length := Nat.lt_min.mpr ⟨hk, List.length_pos_iff.mpr hrows⟩
  have hsettled := kMeans_settled libm hrows k maxIter
  obtain ⟨m, hpos, heq⟩ : ∃ m, (0 < maxIter → 0 < m) ∧
      kMeans libm rows k maxIter = (iterate libm (rows.headD []).length rows)^[m] (firstClusters rows k) := by
    rcases hsettled with ⟨m, -, -, -, heq, -⟩ | ⟨-, heq⟩
    · exact ⟨m + 1, fun _ => Nat.succ_pos m, heq⟩
    · exact ⟨maxIter, id, heq⟩
  have hsized := (sized_firstClusters hrows hk).iterations libm (rows.headD []).length hkk m
  rw [← heq] at hsized
  exact {
    centroids := hsized.centroids
    assignments := hsized.assignments
    range := fun a ha => hsized.centroids.symm ▸ hsized.range a ha
    means := fun hmax c hc hmembers => by
      refine centroid_eq_mean ?_ hc hmembers
      obtain ⟨m, rfl⟩ := Nat.exists_eq_succ_of_ne_zero (Nat.ne_of_gt (hpos hmax))
      rw [heq]
      exact update_iterations m
    settled := hsettled
    nearest := fun row => not_nearer }

namespace LearnedRegimeClustering
variable {libm : Libm} {l : LearnedRegimeClustering}

/-! ### Fitting and predicting -/

theorem predict_of_fitted (hfitted : l.fitted = true) (hne : l.centroids ≠ []) (row : Row) :
    (l.predict libm row).1.clusterId = (nearestCluster libm l.centroids (transform row l.scaler)).1 := by
  simp [predict, hfitted, hne]

/-- What a fit finds. When some iteration changes nothing, but not already the first one, predicting a row of the fit gives
    the cluster that it was assigned to. -/
theorem fit_clustered (libm : Libm) (l : LearnedRegimeClustering) (t : Training) (hrows : t.rows ≠ []) :
    let scaled := t.rows.map (transform · (fitRegimeClusters libm t).scaler)
    Clustered libm scaled t.k 40 ⟨(fitRegimeClusters libm t).centroids, (fitRegimeClusters libm t).assignments⟩ ∧
    ((∃ m < 40, Unchanged libm (scaled.headD []).length scaled (firstClusters scaled t.k) m) →
      ¬Unchanged libm (scaled.headD []).length scaled (firstClusters scaled t.k) 0 →
      t.rows.map (fun row => ((l.fit libm t).predict libm row).1.clusterId) =
        (fitRegimeClusters libm t).assignments.map (Nat.cast : Nat → Int)) := by
  have hscaled : t.rows.map (transform · (fitStandardScaler libm t.rows)) ≠ [] := List.map_eq_nil_iff.not.mpr hrows
  have hclustered := kMeans_clustered libm (t.rows.map (transform · (fitStandardScaler libm t.rows))) hscaled t.pos 40
  refine ⟨hclustered, fun ⟨m, hm, hun⟩ hfirst => ?_⟩
  have hconsistent : Consistent libm (t.rows.map (transform · (fitStandardScaler libm t.rows)))
      (kMeans libm (t.rows.map (transform · (fitStandardScaler libm t.rows))) t.k 40) := by
    rcases hclustered.settled with ⟨n, -, hunn, -, -, hcons⟩ | ⟨hnone, -⟩
    · refine hcons (Nat.pos_of_ne_zero fun h => hfirst ?_)
      rwa [h] at hunn
    · exact absurd hun (hnone m hm)
  have hne : (l.fit libm t).centroids ≠ [] := by
    refine List.length_pos_iff.mp (hclustered.centroids.symm ▸ ?_)
    rw [List.length_map]
    exact Nat.lt_min.mpr ⟨t.pos, List.length_pos_iff.mpr hrows⟩
  have hassigned : (fitRegimeClusters libm t).assignments = _ := hconsistent
  rw [hassigned, List.map_map, List.map_map]
  exact List.map_congr_left fun row _ => predict_of_fitted rfl hne row

/-- Two rows, which are a cluster each from the first iteration on. -/
def twoRows : Training := { rows := [[.finite 0], [.finite 1]], k := 2, pos := by decide, sameLength := by decide, fits := by decide }

theorem fit_clustered_two : twoRows.rows.map (fun row => ((fit ⟨id, id, id⟩ {} twoRows).predict ⟨id, id, id⟩ row).1.clusterId) =
    (fitRegimeClusters ⟨id, id, id⟩ twoRows).assignments.map (Nat.cast : Nat → Int) :=
  (fit_clustered ⟨id, id, id⟩ {} twoRows (by decide)).2 ⟨1, by decide, by decide +kernel⟩ (by decide +kernel)

/-! ### Durations -/

/-- The length of the run of one cluster that the last of these states ends. -/
def lastRun (states : List RegimeClusterState) (clusterId : Int) : Nat :=
  ((states.map (·.clusterId)).rtakeWhile (· = clusterId)).length

/-- Every state says how long its cluster has been found. -/
def Durations (states : List RegimeClusterState) : Prop :=
  ∀ past s, past ++ [s] <+: states → s.regimeDuration = lastRun (past ++ [s]) s.clusterId

/-- What a clustering remembers of the states before. -/
structure Remembers (l : LearnedRegimeClustering) (past : List RegimeClusterState) : Prop where
  durations : Durations past
  clusters : ∀ s ∈ past, 0 ≤ s.clusterId
  last : ((past.getLast?).map (·.clusterId)).getD (-1) = l.lastCluster
  duration : l.duration = lastRun past l.lastCluster

theorem lastRun_concat (past : List RegimeClusterState) (s : RegimeClusterState) :
    lastRun (past ++ [s]) s.clusterId = lastRun past s.clusterId + 1 := by
  rw [lastRun, List.map_append, List.map_singleton, List.length_rtakeWhile_concat, if_pos (decide_eq_true rfl)]
  rfl

theorem Remembers.predict {past : List RegimeClusterState} (h : Remembers l past) (libm : Libm) (row : Row) :
    (l.predict libm row = ({ label := "unfitted" }, l)) ∨
      0 ≤ (l.predict libm row).1.clusterId ∧
        Remembers (l.predict libm row).2 (past ++ [(l.predict libm row).1]) := by
  unfold LearnedRegimeClustering.predict
  split
  · exact .inl rfl
  refine .inr ⟨Int.natCast_nonneg _, ?_⟩
  set best := (nearestCluster libm l.centroids (transform row l.scaler)).1
  -- the run before goes on, or there is none of this cluster
  have hrun : (if (best : Int) = l.lastCluster then l.duration + 1 else 1) = lastRun past best + 1 := by
    split
    · rename_i heq
      rw [h.duration, heq]
    · rename_i hne
      have hlast := h.last
      rcases List.eq_nil_or_concat past with rfl | ⟨before, s, rfl⟩
      · rfl
      · rw [List.concat_eq_append] at hlast ⊢
        have hs : s.clusterId = l.lastCluster := by simpa using hlast
        rw [lastRun, List.map_append, List.map_singleton, List.length_rtakeWhile_concat, if_neg]
        simpa [hs] using Ne.symm hne
  exact {
    durations := by
      intro past' s hprefix
      rcases List.prefix_concat_iff.mp hprefix with heq | hbefore
      · obtain ⟨rfl, rfl⟩ := List.append_inj' heq rfl |>.imp id (fun h => List.singleton_inj.mp h)
        rw [lastRun_concat]
        exact hrun
      · exact h.durations past' s hbefore
    clusters := by
      intro s hs
      rcases List.mem_append.mp hs with hs | hs
      · exact h.clusters s hs
      · rw [List.mem_singleton.mp hs]
        exact Int.natCast_nonneg _
    last := by simp
    duration := by
      rw [lastRun_concat]
      exact hrun }

/-- A state of a clustering that was fitted. -/
def found (s : RegimeClusterState) : Bool := 0 ≤ s.clusterId

theorem exists_remembers (libm : Libm) {l : LearnedRegimeClustering} {past : List RegimeClusterState} (h : Remembers l past) : ∀ calls,
    ∃ l', Remembers l' (past ++ (states libm l calls).filter found)
  | [] => ⟨l, by rwa [states, List.filter_nil, List.append_nil]⟩
  | .fit t :: calls => by
    have hfit : Remembers (l.fit libm t) past := ⟨h.durations, h.clusters, h.last, h.duration⟩
    exact exists_remembers libm hfit calls
  | .predict row :: calls => by
    rw [states, call]
    dsimp only
    rcases h.predict libm row with heq | ⟨hfound, hnext⟩
    · rw [heq]
      exact exists_remembers libm h calls
    · have hkeep : found (l.predict libm row).1 = true := decide_eq_true hfound
      rw [List.filter_append, List.filter_singleton, hkeep, cond_true, ← List.append_assoc]
      exact exists_remembers libm hnext calls

/-- Over any calls, also over further fits, a state says how many times in a row its cluster has been found. -/
theorem states_durations (libm : Libm) (calls : List Call) : Durations ((states libm {} calls).filter found) := by
  have hnil : Remembers {} [] := ⟨fun past s hprefix => by simp at hprefix, nofun, rfl, rfl⟩
  obtain ⟨l', hl'⟩ := exists_remembers libm hnil calls
  exact hl'.durations

end LearnedRegimeClustering
end CrashCore.Pe
