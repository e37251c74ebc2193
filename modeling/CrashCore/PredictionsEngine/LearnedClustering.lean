import CrashCore.Common.Binary64
import CrashCore.Library.FirstLeast

/-! The clusters of the regimes: a scaler, k-means, and the cluster of a row (`pe/regimes/learned_clustering.hpp`,
`pe/regimes/regime_fit_job.hpp`). What a fit is given is a `Training`; outside of it the code reads past the ends of its
vectors. -/

namespace CrashCore.Pe
open Binary64 (Libm)

abbrev Row := List Binary64

/-- The entries of the rows added up, one row after the other. -/
def sumRows (start : Row) (rows : List Row) : Row := rows.foldl (List.zipWith Binary64.add) start

structure ScalerParams where
  means : Row := []
  stds : Row := []

/-- The squares are added to 1, not to 0. -/
def fitStandardScaler (libm : Libm) (rows : List Row) : ScalerParams :=
  match rows with
  | [] => {}
  | row :: _ =>
    let dim := row.length
    let n : Binary64 := .finite rows.length
    let means := (sumRows (List.replicate dim (.finite 0)) rows).map (·.div n)
    let squares := rows.map fun r => (List.zipWith Binary64.sub r means).map fun d => d.mul d
    let stds := (sumRows (List.replicate dim (.finite 1)) squares).map fun sum =>
      let s := libm.sqrt (sum.div ((Binary64.finite 1).max (n.sub (.finite 1))))
      if s.lt (.finite (.nearest (10 ^ (-12 : Int)))) then .finite 1 else s
    { means, stds }

def transform (row : Row) (scaler : ScalerParams) : Row :=
  row.zipIdx.map fun p => (p.1.sub (scaler.means.getD p.2 (.finite 0))).div (scaler.stds.getD p.2 (.finite 1))

def euclidean (libm : Libm) (a b : Row) : Binary64 :=
  libm.sqrt ((List.zipWith Binary64.sub a b).foldl (fun sum d => sum.add (d.mul d)) (.finite 0))

/-- The distance `1e300`, which a centroid has to be below. -/
def farOff : Binary64 := .finite (.nearest (10 ^ 300))

/-- The loop over the centroids: the cluster and its distance. -/
def nearestCluster (libm : Libm) (centroids : List Row) (row : Row) : Nat × Binary64 :=
  (centroids.map (euclidean libm row)).firstLeast Binary64.lt 0 (0, farOff)

structure KMeansResult where
  centroids : List Row := []
  assignments : List Nat := []

namespace KMeansResult

/-- The rows of a cluster. -/
def members (r : KMeansResult) (rows : List Row) (c : Nat) : List Row :=
  ((rows.zip r.assignments).filter fun p => p.2 = c).map (·.1)

def mean (dim : Nat) (members : List Row) : Row :=
  (sumRows (List.replicate dim (.finite 0)) members).map (·.div (.finite members.length))

def assign (libm : Libm) (r : KMeansResult) (rows : List Row) : KMeansResult :=
  { r with assignments := rows.map fun row => (nearestCluster libm r.centroids row).1 }

/-- An empty cluster keeps its centroid. -/
def update (r : KMeansResult) (dim : Nat) (rows : List Row) : KMeansResult :=
  { r with centroids := r.centroids.zipIdx.map fun p =>
      if r.members rows p.2 = [] then p.1 else mean dim (r.members rows p.2) }

/-- One iteration. -/
def iterate (libm : Libm) (dim : Nat) (rows : List Row) (r : KMeansResult) : KMeansResult :=
  (r.assign libm rows).update dim rows

/-- The loop, which ends with the first iteration that changes no assignment. -/
def loop (libm : Libm) (dim : Nat) (rows : List Row) : Nat → KMeansResult → KMeansResult
  | 0, r => r
  | maxIter + 1, r =>
    let next := r.iterate libm dim rows
    if next.assignments = r.assignments then next else loop libm dim rows maxIter next

end KMeansResult

/-- The centroids that k-means starts with. -/
def firstCentroids (rows : List Row) (kk : Nat) : List Row :=
  (List.range kk).map fun i => rows.getD (i * rows.length / kk) []

/-- What the iterations start from. -/
def firstClusters (rows : List Row) (k : Nat) : KMeansResult :=
  { centroids := firstCentroids rows (min k rows.length), assignments := List.replicate rows.length 0 }

def kMeans (libm : Libm) (rows : List Row) (k : Nat) (maxIter : Nat := 40) : KMeansResult :=
  match rows with
  | [] => {}
  | row :: _ => KMeansResult.loop libm row.length rows maxIter (firstClusters rows k)

/-- The rows of a fit and the number of its clusters. -/
structure Training where
  rows : List Row
  k : Nat := 8
  pos : 0 < k
  sameLength : ∀ row ∈ rows, row.length = (rows.headD []).length
  /-- The first centroids are found by products of type `int`. -/
  fits : k * rows.length < 2 ^ 31

/-! ### The clustering -/

structure RegimeClusterState where
  clusterId : Int := -1
  clusterDistance : Binary64 := .finite 0
  clusterConfidence : Binary64 := .finite 0
  regimeDuration : Nat := 0
  sampleCount : Nat := 0
  label : String := ""

structure LearnedRegimeClustering where
  scaler : ScalerParams := {}
  centroids : List Row := []
  fitted : Bool := false
  lastCluster : Int := -1
  /-- An `int` in the code. -/
  duration : Nat := 0

namespace LearnedRegimeClustering

/-- What was seen before the fit stays. -/
def fit (libm : Libm) (l : LearnedRegimeClustering) (t : Training) : LearnedRegimeClustering :=
  let scaler := fitStandardScaler libm t.rows
  { l with scaler, fitted := true, centroids := (kMeans libm (t.rows.map (transform · scaler)) t.k).centroids }

def predict (libm : Libm) (l : LearnedRegimeClustering) (row : Row) : RegimeClusterState × LearnedRegimeClustering :=
  if !l.fitted || l.centroids = [] then ({ label := "unfitted" }, l)
  else
    let (best, bestD) := nearestCluster libm l.centroids (transform row l.scaler)
    let duration := if (best : Int) = l.lastCluster then l.duration + 1 else 1
    let l := { l with lastCluster := best, duration }
    ({  clusterId := best
        clusterDistance := bestD
        clusterConfidence := (Binary64.finite 1).div ((Binary64.finite 1).add bestD)
        regimeDuration := duration
        sampleCount := 1
        label := "cluster-" ++ best.repr }, l)

/-- What is done to a clustering. -/
inductive Call
  | fit (t : Training)
  | predict (row : Row)

def call (libm : Libm) (l : LearnedRegimeClustering) : Call → List RegimeClusterState × LearnedRegimeClustering
  | .fit t => ([], l.fit libm t)
  | .predict row =>
    let (state, l) := l.predict libm row
    ([state], l)

def states (libm : Libm) (l : LearnedRegimeClustering) : List Call → List RegimeClusterState
  | [] => []
  | c :: calls =>
    let (s, l) := l.call libm c
    s ++ states libm l calls

end LearnedRegimeClustering

/-- `fitRegimeClusters`. -/
structure RegimeFitResult where
  scaler : ScalerParams
  centroids : List Row
  assignments : List Nat
  k : Nat

def fitRegimeClusters (libm : Libm) (t : Training) (maxIter : Nat := 40) : RegimeFitResult :=
  let scaler := fitStandardScaler libm t.rows
  let km := kMeans libm (t.rows.map (transform · scaler)) t.k maxIter
  { scaler, centroids := km.centroids, assignments := km.assignments, k := t.k }

end CrashCore.Pe
