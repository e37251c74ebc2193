import CrashCore.Common.Binary64
import CrashCore.Config.TomlConfig
import CrashCore.Library.Codec
import CrashCore.PredictionsEngine.Sha256

/-! The logistic model and the artifacts that it is read from (`pe/ml/ml_logistic_model.hpp`,
`src/ml/ml_model_loader.cpp`, `pe/ml/ml_feature_vector.hpp`, `src/ml/ml_normalizer.cpp`), and the script that writes them
(`training/export_model.py`).

A double of a file is its 64 bits, and the host is little-endian. A file is its bytes; a file that cannot be opened is
`none`. The texts are read as one character a byte. -/

namespace CrashCore.Pe
open Binary64 (Libm)

/-! ### The model -/

structure MLInferenceResult where
  probability : Binary64 := .finite 0
  raw_score : Binary64 := .finite 0
  valid : Bool := false

structure MLModelMetadata where
  model_id : String
  version : String
  feature_count : Nat
  feature_schema_hash : String
deriving DecidableEq

structure MLLogisticModel where
  metadata : MLModelMetadata
  weights : List UInt64
  bias : UInt64
deriving DecidableEq

namespace MLLogisticModel

def featureCount (m : MLLogisticModel) : Nat := m.weights.length

def logit (m : MLLogisticModel) (features : List Binary64) : Binary64 :=
  (m.weights.zip features).foldl (fun l p => l.add ((Binary64.ofBits p.1).mul p.2)) (.ofBits m.bias)

/-- The sigmoid, on the side where it cannot overflow. -/
def sigmoid (libm : Libm) (x : Binary64) : Binary64 :=
  if (Binary64.finite 0).le x then (Binary64.finite 1).div ((Binary64.finite 1).add (libm.exp x.neg))
  else
    let e := libm.exp x
    e.div ((Binary64.finite 1).add e)

def predict (libm : Libm) (m : MLLogisticModel) (features : List Binary64) : MLInferenceResult :=
  if features.length ≠ m.weights.length then {}
  else
    let logit := m.logit features
    let p := sigmoid libm logit
    if ¬p.isFinite then {}
    else
      { raw_score := logit, valid := true,
        probability := (Binary64.finite (.nearest (99 / 100))).min ((Binary64.finite (.nearest (1 / 100))).max p) }

end MLLogisticModel

/-- The bits of `1.0`. -/
def oneBits : UInt64 := 0x3ff0000000000000

/-- A scale that is not positive and finite is replaced by 1. -/
def usableScale (s : UInt64) : UInt64 :=
  let d := Binary64.ofBits s
  if !(Binary64.finite 0).lt d || !d.isFinite then oneBits else s

structure MLNormalizer where
  mean : List UInt64
  scale : List UInt64
  sized : scale.length = mean.length
deriving DecidableEq

/-- The constructor. -/
def MLNormalizer.make (mean scale : List UInt64) : MLNormalizer where
  mean
  scale := (if scale.length ≠ mean.length then List.replicate mean.length oneBits else scale).map usableScale
  sized := by
    rw [List.length_map]
    split
    · exact List.length_replicate
    · rename_i h
      exact not_not.mp h

inductive MLCalibrator
  | platt (a b : UInt64)
  | isotonic (x y : List UInt64)
deriving DecidableEq

/-- A part that is not there is `none`. -/
structure LoadedModel where
  model : MLLogisticModel
  normalizer : Option MLNormalizer := none
  calibrator : Option MLCalibrator := none
deriving DecidableEq

def mlFeatureOrder : List String := [
  "sample_size", "quality_score", "mean_crash", "std_crash", "ewma_crash", "ewma_hit_13", "hit_1_30_20", "hit_1_30_50",
  "hit_1_30_100", "hit_1_30_200", "short_mean", "short_std", "short_hit_13", "since_13", "since_20", "since_50",
  "since_100", "lag_1", "lag_2", "lag_3", "lag_5", "lag_diff_1", "lag_ratio_1", "run_below_1_30", "run_above_1_30",
  "run_below_2_00", "run_above_2_00", "markov_p_up", "markov_p_stay_up", "markov_p_stay_down", "spectral_acf1",
  "spectral_acf2", "entropy_binary_13", "entropy_short_13", "entropy_ratio", "hour_sin", "hour_cos", "dow_sin",
  "dow_cos", "is_weekend", "hit_13", "hit_20", "hit_50", "hit_ratio_20_13", "hit_ratio_50_13", "gap_s", "log_lag_1",
  "gap_count"]

def MAX_ML_FEATURES : Nat := 128

/-- FNV-1a over the names, each with a `|` behind it. -/
def featureSchemaHash : String :=
  let step (h : UInt64) (c : Char) : UInt64 := (h ^^^ UInt64.ofNat c.toNat) * 1099511628211
  let h := mlFeatureOrder.foldl (fun h name => step (name.toList.foldl step h) '|') 14695981039346656037
  .ofList ([15, 14, 13, 12, 11, 10, 9, 8, 7, 6, 5, 4, 3, 2, 1, 0].map fun i : UInt64 =>
    Sha256.hexd.getD ((h >>> (i * 4)) &&& 0xf).toNat '0')

/-! ### Texts -/

def chars (bytes : List UInt8) : Chars := bytes.map fun b => Char.ofNat b.toNat

/-- The first word of the first line. -/
def readChecksumFile (file : Option (List UInt8)) : String :=
  match file with
  | none => ""
  | some bytes =>
    let line := ((TomlConfig.getlines (chars bytes)).head?).getD []
    .ofList ((line.takeWhile fun c => c ≠ ' ' ∧ c ≠ '\t').rdropWhile fun c => c = '\r' ∨ c = '\n')

def schemaNames (bytes : List UInt8) : List String :=
  let lines := (TomlConfig.getlines (chars bytes)).map fun line => line.rdropWhile fun c => c = '\r' ∨ c = ' ' ∨ c = '\t'
  (lines.filter fun line => line ≠ [] ∧ line.head? ≠ some '#').map String.ofList

/-- The value behind the last key `feature_schema_hash`. -/
def metaSchemaHash (bytes : List UInt8) : String :=
  (TomlConfig.getlines (chars bytes)).foldl (fun hash line =>
    if '=' ∉ line then hash
    else if line.takeWhile (· ≠ '=') = "feature_schema_hash".toList then
      .ofList (((line.dropWhile (· ≠ '=')).drop 1).rdropWhile fun c => c = '\r' ∨ c = '\n')
    else hash) ""

/-! ### The binary format -/

/-- `readPod` of a number with `k` bytes. -/
abbrev readPod (k : Nat) : List UInt8 → Option (Nat × List UInt8) := Codec.number k

def readDouble (stream : List UInt8) : Option (UInt64 × List UInt8) :=
  (readPod 8 stream).map fun p => (UInt64.ofNat p.1, p.2)

def readDoubles : Nat → List UInt8 → Option (List UInt64 × List UInt8) := Codec.many readDouble

def readHeader (stream : List UInt8) : Option (Nat × List UInt8) := do
  let (magic, stream) ← readPod 4 stream
  if magic ≠ 0x50454d4c then none
  else
  let (version, stream) ← readPod 4 stream
  if version ≠ 1 then none
  else
  let (feature_count, stream) ← readPod 4 stream
  if feature_count = 0 ∨ MAX_ML_FEATURES < feature_count then none
  else if feature_count ≠ mlFeatureOrder.length then none
  else some (feature_count, stream)

def readNormalizer (feature_count : Nat) (stream : List UInt8) : Option (Option MLNormalizer × List UInt8) := do
  let (has_norm, stream) ← readPod 1 stream
  if has_norm ≠ 0 then
    let (mean, stream) ← readDoubles feature_count stream
    let (scale, stream) ← readDoubles feature_count stream
    some (some (.make mean scale), stream)
  else some (none, stream)

def readCalibrator (stream : List UInt8) : Option (Option MLCalibrator × List UInt8) := do
  let (cal_method, stream) ← readPod 1 stream
  if cal_method = 1 then
    let (a, stream) ← readDouble stream
    let (b, stream) ← readDouble stream
    some (some (.platt a b), stream)
  else if cal_method = 2 then
    let (n, stream) ← readPod 4 stream
    if n = 0 ∨ 1024 < n then none
    else
    let (x, stream) ← readDoubles n stream
    let (y, stream) ← readDoubles n stream
    some (some (.isotonic x y), stream)
  else some (none, stream)

/-- The part of `loadModelFromBinary` that reads the model file. -/
def readModel (libm : Libm) (stream : List UInt8) : Option LoadedModel := do
  let (feature_count, stream) ← readHeader stream
  let (bias, stream) ← readDouble stream
  let (weights, stream) ← readDoubles feature_count stream
  let metadata : MLModelMetadata := {
    model_id := "logistic", version := "1", feature_count, feature_schema_hash := featureSchemaHash }
  let (normalizer, stream) ← readNormalizer feature_count stream
  let (calibrator, _) ← readCalibrator stream
  let loaded : LoadedModel := { model := { metadata, weights, bias }, normalizer, calibrator }
  if (loaded.model.predict libm (List.replicate feature_count (.finite 0))).valid then some loaded else none

/-- The files, by their paths. -/
abbrev Files := String → Option (List UInt8)

/-- The checks before the model is read. An empty path stands for no file. -/
def checksumMatches (files : Files) (modelPath checksumPath : String) : Bool :=
  let expected := readChecksumFile (files checksumPath)
  checksumPath = "" ||
    (sha256File (files modelPath)).any fun actual => !(expected = "" || actual = "" || expected ≠ actual)

def schemaMatches (files : Files) (schemaPath : String) : Bool :=
  schemaPath = "" || (files schemaPath).any fun schema => schemaNames schema = mlFeatureOrder

def metadataMatches (files : Files) (metadataPath : String) : Bool :=
  metadataPath = "" || (files metadataPath).any fun metadata =>
    let hash := metaSchemaHash metadata
    !(hash ≠ "" && hash ≠ featureSchemaHash)

def loadModelFromBinary (libm : Libm) (files : Files) (modelPath : String) (checksumPath schemaPath metadataPath : String := "") :
    Option LoadedModel :=
  if !checksumMatches files modelPath checksumPath then none
  else if !schemaMatches files schemaPath then none
  else if !metadataMatches files metadataPath then none
  else (files modelPath).bind (readModel libm)

/-! ### The exporter -/

def packDouble (d : UInt64) : List UInt8 := LittleEndian.bytes 8 d.toNat

/-- `write_model`: the bytes of the model file. -/
def write_model (bias : UInt64) (weights : List UInt64) (norm : Option (List UInt64 × List UInt64)) (platt_a platt_b : UInt64) :
    List UInt8 :=
  LittleEndian.bytes 4 0x50454d4c ++ LittleEndian.bytes 4 1 ++ LittleEndian.bytes 4 weights.length ++ packDouble bias ++
    weights.flatMap packDouble ++
    (match norm with
      | some (mean, scale) => LittleEndian.bytes 1 1 ++ mean.flatMap packDouble ++ scale.flatMap packDouble
      | none => LittleEndian.bytes 1 0) ++
    LittleEndian.bytes 1 1 ++ packDouble platt_a ++ packDouble platt_b

end CrashCore.Pe
