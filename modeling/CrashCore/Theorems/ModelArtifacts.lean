import CrashCore.PredictionsEngine.ModelLoader
import CrashCore.Theorems.Sha256Streaming
import Mathlib.Data.List.GetD

/-! Which model files are loaded, and as what: those that begin with a whole model of the right size whose inference is
a number, and whose checksum, schema and metadata fit where there are any. What the exporter writes is loaded as it was
exported. -/

namespace CrashCore.Pe
open Binary64 (Libm)

/-! ### The first inference -/

namespace MLLogisticModel
variable {libm : Libm} {m : MLLogisticModel} {x : Binary64}

theorem sigmoid_isFinite (h : libm.Lawful) : (sigmoid libm x).isFinite = true ↔ x ≠ .nan := by
  -- both branches divide by one more than an exponential that is at most 1
  have hone {e : Double} (hnonneg : 0 ≤ e) (hle : e ≤ 1) {p : Double} (hp : 0 ≤ p) (hple : p ≤ 1) :
      ((Binary64.finite p).div ((Binary64.finite 1).add (.finite e))).isFinite = true := by
    have hsum := Binary64.ofRat_of_le_two (q := 1 + e) (by linarith) (by linarith)
    have hge : 1 ≤ Double.nearest (1 + e) := by
      have hmono := Double.nearest_mono (le_add_of_nonneg_right (a := (1 : Rat)) hnonneg)
      rwa [Double.nearest_one] at hmono
    have hdiv : p / Double.nearest (1 + e) ≤ 1 := div_le_one_of_le₀ (hple.trans hge) hsum.2.1
    have hquot := Binary64.ofRat_of_le_two (div_nonneg hp hsum.2.1) (hdiv.trans (by norm_num))
    have hne : Double.nearest (1 + e) ≠ 0 := by linarith
    simp only [Binary64.add, hsum.1, Binary64.div, if_neg hne, hquot.1]
    rfl
  have hneg : (Binary64.finite 0).le x = true → x.neg.le (.finite 0) = true := by
    rcases x with _ | a | q
    · exact fun h => h
    · cases a <;> exact fun h => h
    · simp [Binary64.le, Binary64.neg]
  have hpos : ¬(Binary64.finite 0).le x = true → x ≠ .nan → x.le (.finite 0) = true := by
    rcases x with _ | a | q
    · exact fun _ h => absurd rfl h
    · cases a <;> simp [Binary64.le]
    · simpa [Binary64.le] using le_of_lt
  constructor
  · rintro hfinite rfl
    simp [sigmoid, Binary64.le, h.exp_nan, Binary64.div, Binary64.isFinite] at hfinite
  · intro hx
    unfold sigmoid
    split
    · rename_i hle
      obtain ⟨e, he, hnonneg, hle⟩ := h.exp_nonpos _ (hneg hle)
      rw [he]
      exact hone hnonneg hle zero_le_one le_rfl
    · rename_i hle
      obtain ⟨e, he, hnonneg, hle⟩ := h.exp_nonpos _ (hpos hle hx)
      dsimp only
      rw [he]
      exact hone hnonneg hle hnonneg hle

/-- A valid result is any but that of a logit that is no number, and is cut off at 1 and 99 percent. -/
theorem predict_valid_iff (h : libm.Lawful) {features : List Binary64} : (m.predict libm features).valid = true ↔
    features.length = m.weights.length ∧ m.logit features ≠ .nan := by
  unfold predict
  split
  · rename_i hlen
    simp [hlen]
  · rename_i hlen
    dsimp only
    split
    · rename_i hfinite
      rw [sigmoid_isFinite h, not_not] at hfinite
      simp [hfinite]
    · rename_i hfinite
      rw [not_not, sigmoid_isFinite h] at hfinite
      simp [not_not.mp hlen, hfinite]

/-- A valid result is a finite number between 1 and 99 percent. -/
theorem predict_eq_of_valid (h : libm.Lawful) {features : List Binary64} (hlen : features.length = m.weights.length)
    (hlogit : m.logit features ≠ .nan) : ∃ q, m.predict libm features =
      { raw_score := m.logit features, valid := true, probability := .finite q } ∧
      Double.nearest (1 / 100) ≤ q ∧ q ≤ Double.nearest (99 / 100) := by
  have hfinite : ¬¬(sigmoid libm (m.logit features)).isFinite = true := not_not.mpr ((sigmoid_isFinite h).mpr hlogit)
  have hle : Double.nearest (1 / 100) ≤ Double.nearest (99 / 100) := Double.nearest_mono (by norm_num)
  obtain ⟨q, hq, hlow, hhigh⟩ := Binary64.min_max_eq hle (sigmoid libm (m.logit features))
  refine ⟨q, ?_, hlow, hhigh⟩
  rw [predict, if_neg (not_not.mpr hlen)]
  dsimp only
  rw [if_neg hfinite, hq]

theorem foldl_zeros : ∀ (weights : List UInt64) (l : Binary64),
    (weights.zip (List.replicate weights.length (.finite 0))).foldl
      (fun l p => l.add ((Binary64.ofBits p.1).mul p.2)) l ≠ .nan ↔
      l ≠ .nan ∧ ∀ w ∈ weights, (Binary64.ofBits w).isFinite = true
  | [], l => by simp
  | w :: weights, l => by
    rw [List.length_cons, List.replicate_succ, List.zip_cons_cons, List.foldl_cons, foldl_zeros weights,
      Binary64.mul_zero_eq]
    split
    · rename_i hfinite
      simp [Binary64.add_ne_nan_iff, hfinite]
    · rename_i hfinite
      simp [Binary64.add_nan, hfinite]

/-- The inference on zeros finds weights that are not finite, but of the bias only whether it is a number. -/
theorem predict_zeros_valid_iff (h : libm.Lawful) {n : Nat} (hn : m.weights.length = n) :
    (m.predict libm (List.replicate n (.finite 0))).valid = true ↔
      Binary64.ofBits m.bias ≠ .nan ∧ ∀ w ∈ m.weights, (Binary64.ofBits w).isFinite = true := by
  subst hn
  rw [predict_valid_iff h, List.length_replicate, logit, foldl_zeros]
  simp

end MLLogisticModel

/-! ### The texts of a model file -/

def headerText : List UInt8 := LittleEndian.bytes 4 0x50454d4c ++ LittleEndian.bytes 4 1 ++ LittleEndian.bytes 4 48

inductive NormalizerText : Option MLNormalizer → List UInt8 → Prop
  | none : NormalizerText none (LittleEndian.bytes 1 0)
  | some {tag : Nat} {mean scale : List UInt64} : tag ≠ 0 → tag < 256 → mean.length = 48 → scale.length = 48 →
    NormalizerText (some (.make mean scale))
      (LittleEndian.bytes 1 tag ++ mean.flatMap packDouble ++ scale.flatMap packDouble)

inductive CalibratorText : Option MLCalibrator → List UInt8 → Prop
  | none {tag : Nat} : tag ≠ 1 → tag ≠ 2 → tag < 256 → CalibratorText none (LittleEndian.bytes 1 tag)
  | platt (a b : UInt64) : CalibratorText (some (.platt a b)) (LittleEndian.bytes 1 1 ++ packDouble a ++ packDouble b)
  | isotonic {n : Nat} {x y : List UInt64} : 0 < n → n ≤ 1024 → x.length = n → y.length = n →
    CalibratorText (some (.isotonic x y))
      (LittleEndian.bytes 1 2 ++ LittleEndian.bytes 4 n ++ x.flatMap packDouble ++ y.flatMap packDouble)

def loadedMetadata : MLModelMetadata where
  model_id := "logistic"
  version := "1"
  feature_count := 48
  feature_schema_hash := featureSchemaHash

/-- The file begins with this model. What comes behind it is not looked at. -/
structure Holds (stream : List UInt8) (loaded : LoadedModel) : Prop where
  text : ∃ normalizerText calibratorText rest,
    stream = headerText ++ packDouble loaded.model.bias ++ loaded.model.weights.flatMap packDouble ++ normalizerText ++
      calibratorText ++ rest ∧
      NormalizerText loaded.normalizer normalizerText ∧ CalibratorText loaded.calibrator calibratorText
  metadata : loaded.model.metadata = loadedMetadata
  weights : loaded.model.weights.length = 48
  finite : ∀ w ∈ loaded.model.weights, (Binary64.ofBits w).isFinite = true
  bias : Binary64.ofBits loaded.model.bias ≠ .nan

theorem Holds.append {stream : List UInt8} {loaded : LoadedModel} (h : Holds stream loaded) (more : List UInt8) :
    Holds (stream ++ more) loaded where
  text := by
    obtain ⟨nt, ct, rest, rfl, hnt, hct⟩ := h.text
    exact ⟨nt, ct, rest ++ more, by simp only [List.append_assoc], hnt, hct⟩
  metadata := h.metadata
  weights := h.weights
  finite := h.finite
  bias := h.bias

theorem exact_readDouble : Codec.Exact readDouble packDouble fun _ => True := by
  rintro stream d rest
  simp only [readDouble, Option.map_eq_some_iff, Prod.exists, Prod.mk.injEq, true_and]
  constructor
  · rintro ⟨n, rest', hread, rfl, rfl⟩
    obtain ⟨hlt, rfl⟩ := (Codec.exact_number 8 stream n rest').mp hread
    rw [packDouble, UInt64.toNat_ofNat', Nat.mod_eq_of_lt (hlt.trans_eq (by norm_num))]
  · rintro rfl
    exact ⟨d.toNat, rest, (Codec.exact_number 8 _ _ _).mpr ⟨d.toNat_lt, rfl⟩, UInt64.ofNat_toNat, rfl⟩

theorem readDoubles_iff {n : Nat} {stream rest : List UInt8} {ds : List UInt64} :
    readDoubles n stream = some (ds, rest) ↔ ds.length = n ∧ stream = ds.flatMap packDouble ++ rest := by
  have h := exact_readDouble.many n stream ds rest
  simpa [readDoubles] using h

theorem readDouble_iff {stream rest : List UInt8} {d : UInt64} :
    readDouble stream = some (d, rest) ↔ stream = packDouble d ++ rest := by
  simpa using exact_readDouble stream d rest

theorem readPod_iff {k n : Nat} {stream rest : List UInt8} :
    readPod k stream = some (n, rest) ↔ n < 256 ^ k ∧ stream = LittleEndian.bytes k n ++ rest :=
  Codec.exact_number k stream n rest

theorem readHeader_iff {n : Nat} {stream rest : List UInt8} :
    readHeader stream = some (n, rest) ↔ n = 48 ∧ stream = headerText ++ rest := by
  have hlen : mlFeatureOrder.length = 48 := rfl
  simp only [readHeader, Option.bind_eq_bind, Option.bind_eq_some_iff, Prod.exists, readPod_iff,
    Option.ite_none_left_eq_some, Option.some.injEq, Prod.mk.injEq, not_not, hlen]
  constructor
  · rintro ⟨_, _, ⟨-, rfl⟩, rfl, _, _, ⟨-, rfl⟩, rfl, _, _, ⟨-, rfl⟩, -, rfl, rfl, rfl⟩
    exact ⟨rfl, by simp [headerText]⟩
  · rintro ⟨rfl, rfl⟩
    exact ⟨_, _, ⟨by norm_num, by simp only [headerText, List.append_assoc]⟩, rfl, _, _, ⟨by norm_num, rfl⟩, rfl, _, _,
      ⟨by norm_num, rfl⟩, by decide, rfl, rfl, rfl⟩

theorem readNormalizer_iff {stream rest : List UInt8} {normalizer : Option MLNormalizer} :
    readNormalizer 48 stream = some (normalizer, rest) ↔
      ∃ text, NormalizerText normalizer text ∧ stream = text ++ rest := by
  simp only [readNormalizer, Option.bind_eq_bind, Option.bind_eq_some_iff, Prod.exists, readPod_iff]
  constructor
  · rintro ⟨tag, _, ⟨hlt, rfl⟩, h⟩
    by_cases htag : tag = 0
    · rw [if_neg (not_not.mpr htag)] at h
      obtain ⟨rfl, rfl⟩ := Prod.mk.inj (Option.some.inj h)
      subst htag
      exact ⟨_, .none, rfl⟩
    · rw [if_pos htag] at h
      simp only [Option.bind_eq_some_iff, Prod.exists, readDoubles_iff, Option.some.injEq, Prod.mk.injEq] at h
      obtain ⟨mean, _, ⟨hmean, rfl⟩, scale, _, ⟨hscale, rfl⟩, rfl, rfl⟩ := h
      exact ⟨_, .some htag hlt hmean hscale, by simp⟩
  · rintro ⟨text, htext, rfl⟩
    cases htext with
    | none => exact ⟨0, rest, ⟨by norm_num, rfl⟩, rfl⟩
    | @some tag mean scale htag hlt hmean hscale =>
      refine ⟨tag, _, ⟨hlt, by simp only [List.append_assoc]; rfl⟩, ?_⟩
      rw [if_pos htag, readDoubles_iff.mpr ⟨hmean, rfl⟩, Option.bind_some, readDoubles_iff.mpr ⟨hscale, rfl⟩]
      rfl

theorem readCalibrator_iff {stream rest : List UInt8} {calibrator : Option MLCalibrator} :
    readCalibrator stream = some (calibrator, rest) ↔ ∃ text, CalibratorText calibrator text ∧ stream = text ++ rest := by
  simp only [readCalibrator, Option.bind_eq_bind, Option.bind_eq_some_iff, Prod.exists, readPod_iff]
  constructor
  · rintro ⟨tag, _, ⟨hlt, rfl⟩, h⟩
    by_cases hplatt : tag = 1
    · rw [if_pos hplatt] at h
      simp only [Option.bind_eq_some_iff, Prod.exists, readDouble_iff, Option.some.injEq, Prod.mk.injEq] at h
      obtain ⟨a, _, rfl, b, _, rfl, rfl, rfl⟩ := h
      subst hplatt
      exact ⟨_, .platt a b, by simp⟩
    rw [if_neg hplatt] at h
    by_cases hiso : tag = 2
    · rw [if_pos hiso] at h
      simp only [Option.bind_eq_some_iff, Prod.exists, readPod_iff, Option.ite_none_left_eq_some, readDoubles_iff,
        Option.some.injEq, Prod.mk.injEq, not_or, not_lt] at h
      obtain ⟨n, _, ⟨-, rfl⟩, ⟨hpos, hle⟩, x, _, ⟨hx, rfl⟩, y, _, ⟨hy, rfl⟩, rfl, rfl⟩ := h
      subst hiso
      exact ⟨_, .isotonic (Nat.pos_of_ne_zero hpos) hle hx hy, by simp⟩
    · rw [if_neg hiso] at h
      obtain ⟨rfl, rfl⟩ := Prod.mk.inj (Option.some.inj h)
      exact ⟨_, .none hplatt hiso hlt, rfl⟩
  · rintro ⟨text, htext, rfl⟩
    cases htext with
    | @none tag hplatt hiso hlt =>
      refine ⟨tag, rest, ⟨hlt, rfl⟩, ?_⟩
      rw [if_neg hplatt, if_neg hiso]
    | platt a b =>
      refine ⟨1, _, ⟨by norm_num, by simp only [List.append_assoc]; rfl⟩, ?_⟩
      rw [if_pos rfl, readDouble_iff.mpr rfl, Option.bind_some, readDouble_iff.mpr rfl]
      rfl
    | @isotonic n x y hpos hle hx hy =>
      refine ⟨2, _, ⟨by norm_num, by simp only [List.append_assoc]; rfl⟩, ?_⟩
      have hguard : ¬(n = 0 ∨ 1024 < n) := by omega
      rw [if_neg (by norm_num), if_pos rfl, readPod_iff.mpr ⟨by omega, rfl⟩, Option.bind_some, if_neg hguard,
        readDoubles_iff.mpr ⟨hx, rfl⟩, Option.bind_some, readDoubles_iff.mpr ⟨hy, rfl⟩]
      rfl

theorem readModel_iff {libm : Libm} (hlibm : libm.Lawful) {stream : List UInt8} {loaded : LoadedModel} :
    readModel libm stream = some loaded ↔ Holds stream loaded := by
  simp only [readModel, Option.bind_eq_bind, Option.bind_eq_some_iff, Prod.exists, readHeader_iff]
  constructor
  · rintro ⟨_, _, ⟨rfl, rfl⟩, h⟩
    simp only [readDouble_iff, readDoubles_iff, readNormalizer_iff, readCalibrator_iff,
      Option.ite_none_right_eq_some, Option.some.injEq] at h
    obtain ⟨bias, _, rfl, weights, _, ⟨hweights, rfl⟩, normalizer, _, ⟨nt, hnt, rfl⟩, calibrator, rest, ⟨ct, hct, rfl⟩,
      hvalid, rfl⟩ := h
    rw [MLLogisticModel.predict_zeros_valid_iff hlibm hweights] at hvalid
    exact ⟨⟨nt, ct, rest, by simp, hnt, hct⟩, rfl, hweights, hvalid.2, hvalid.1⟩
  · rintro ⟨⟨nt, ct, rest, rfl, hnt, hct⟩, hmetadata, hweights, hfinite, hbias⟩
    refine ⟨48, _, ⟨rfl, by simp only [List.append_assoc]; rfl⟩, ?_⟩
    have hvalid := (MLLogisticModel.predict_zeros_valid_iff hlibm (m := loaded.model) hweights).mpr ⟨hbias, hfinite⟩
    simp only [readDouble_iff, readDoubles_iff, readNormalizer_iff, readCalibrator_iff,
      Option.ite_none_right_eq_some, Option.some.injEq]
    refine ⟨loaded.model.bias, _, rfl, loaded.model.weights, _, ⟨hweights, rfl⟩, loaded.normalizer, _, ⟨nt, hnt, rfl⟩,
      loaded.calibrator, rest, ⟨ct, hct, rfl⟩, ?_, ?_⟩
    · have hmodel : loaded.model = ⟨loadedMetadata, loaded.model.weights, loaded.model.bias⟩ := by
        rw [← hmetadata]
      rwa [hmodel] at hvalid
    · obtain ⟨⟨metadata, weights, bias⟩, normalizer, calibrator⟩ := loaded
      obtain rfl : metadata = loadedMetadata := hmetadata
      rfl

/-! ### All files -/

/-- The files beside the model fit it. An empty path stands for no file. -/
structure Fits (files : Files) (bytes : List UInt8) (checksumPath schemaPath metadataPath : String) : Prop where
  checksum : checksumPath ≠ "" → readChecksumFile (files checksumPath) = Sha256.hexText (Sha256.hash bytes)
  schema : schemaPath ≠ "" → ∃ schema ∈ files schemaPath, schemaNames schema = mlFeatureOrder
  metadata : metadataPath ≠ "" →
    ∃ metadata ∈ files metadataPath, metaSchemaHash metadata ≠ "" → metaSchemaHash metadata = featureSchemaHash

theorem hexText_ne_empty (m : List UInt8) : Sha256.hexText (Sha256.hash m) ≠ "" := by
  intro h
  have hlen := Sha256.length_hexText (Sha256.hash m)
  rw [h, Sha256.length_hash] at hlen
  cases hlen

theorem checksumMatches_iff {files : Files} {modelPath checksumPath : String} {bytes : List UInt8}
    (hbytes : files modelPath = some bytes) : checksumMatches files modelPath checksumPath = true ↔
      (checksumPath ≠ "" → readChecksumFile (files checksumPath) = Sha256.hexText (Sha256.hash bytes)) := by
  have hne := hexText_ne_empty bytes
  unfold checksumMatches
  rw [hbytes, (Sha256.hex_eq bytes).2.2.1]
  by_cases hpath : checksumPath = ""
  · simp [hpath]
  · simp only [hpath, decide_false, Bool.false_or, Option.any_some, ne_eq, not_false_eq_true, forall_const]
    constructor
    · intro h
      by_contra hdiff
      simp [hdiff] at h
    · intro h
      simp [h, hne]

/-- A model is loaded exactly if its file begins with it and the other files fit. -/
theorem loadModelFromBinary_iff {libm : Libm} (hlibm : libm.Lawful) (files : Files)
    (modelPath checksumPath schemaPath metadataPath : String) (loaded : LoadedModel) :
    loadModelFromBinary libm files modelPath checksumPath schemaPath metadataPath = some loaded ↔
      ∃ bytes ∈ files modelPath, Holds bytes loaded ∧ Fits files bytes checksumPath schemaPath metadataPath := by
  have hschema : schemaMatches files schemaPath = true ↔
      (schemaPath ≠ "" → ∃ schema ∈ files schemaPath, schemaNames schema = mlFeatureOrder) := by
    simp [schemaMatches, or_iff_not_imp_left, Option.any_eq_true]
  have hmetadata : metadataMatches files metadataPath = true ↔ (metadataPath ≠ "" →
      ∃ metadata ∈ files metadataPath, metaSchemaHash metadata ≠ "" → metaSchemaHash metadata = featureSchemaHash) := by
    simp [metadataMatches, or_iff_not_imp_left, Option.any_eq_true]
  unfold loadModelFromBinary
  simp only [Option.ite_none_left_eq_some, Bool.not_eq_true', Bool.not_eq_false, Option.bind_eq_some_iff,
    readModel_iff hlibm, hschema, hmetadata]
  constructor
  · rintro ⟨hcheck, hschema, hmetadata, bytes, hbytes, hholds⟩
    exact ⟨bytes, hbytes, hholds, (checksumMatches_iff hbytes).mp hcheck, hschema, hmetadata⟩
  · rintro ⟨bytes, hbytes, hholds, hfits⟩
    exact ⟨(checksumMatches_iff hbytes).mpr hfits.checksum, hfits.schema, hfits.metadata, bytes, hbytes, hholds⟩

/-! ### What the exporter writes -/

/-- The checksum file of the exporter. -/
def checksumText (bytes : List UInt8) : List UInt8 :=
  (Sha256.hexText (Sha256.hash bytes) ++ "\n").toList.map (·.toUInt8)

theorem mem_hexText {c : Char} {bytes : List UInt8} (h : c ∈ (Sha256.hexText bytes).toList) : c ∈ Sha256.hexd := by
  have hgetD (i : Nat) : Sha256.hexd.getD i '0' ∈ Sha256.hexd := by
    rcases Nat.lt_or_ge i Sha256.hexd.length with hi | hi
    · rw [List.getD_eq_getElem _ _ hi]
      exact List.getElem_mem hi
    · rw [List.getD_eq_default _ _ hi]
      decide
  rw [Sha256.hexText, String.toList_ofList, List.mem_flatMap] at h
  obtain ⟨b, -, hc⟩ := h
  simp only [List.mem_cons, List.not_mem_nil, or_false] at hc
  rcases hc with rfl | rfl <;> exact hgetD _

theorem chars_map_toUInt8 {text : List Char} (h : ∀ c ∈ text, c.toNat < 256) : chars (text.map (·.toUInt8)) = text := by
  rw [chars, List.map_map]
  refine (List.map_congr_left fun c hc => ?_).trans (List.map_id text)
  have hmod : c.toUInt8.toNat = c.toNat := Nat.mod_eq_of_lt (h c hc)
  rw [Function.comp_apply, hmod, id, Char.ofNat_toNat]

theorem getlines_concat : ∀ {text : Chars}, '\n' ∉ text → TomlConfig.getlines (text ++ ['\n']) = [text]
  | [], _ => rfl
  | c :: text, h => by
    have hne : c ≠ '\n' := fun heq => h (heq ▸ List.mem_cons_self)
    have ih := getlines_concat fun hmem => h (List.mem_cons_of_mem c hmem)
    rw [List.cons_append, TomlConfig.getlines, if_neg hne, ih]
    rfl

theorem readChecksumFile_checksumText (bytes : List UInt8) :
    readChecksumFile (some (checksumText bytes)) = Sha256.hexText (Sha256.hash bytes) := by
  have hspecial : ∀ c ∈ Sha256.hexd, c.toNat < 256 ∧ c ≠ '\n' ∧ c ≠ ' ' ∧ c ≠ '\t' ∧ c ≠ '\r' := by
    simp [Sha256.hexd]
  have hhex {c : Char} (hc : c ∈ (Sha256.hexText (Sha256.hash bytes)).toList) := hspecial c (mem_hexText hc)
  have hchars : chars (checksumText bytes) = (Sha256.hexText (Sha256.hash bytes)).toList ++ ['\n'] := by
    rw [checksumText, String.toList_append]
    refine chars_map_toUInt8 fun c hc => ?_
    rcases List.mem_append.mp hc with hc | hc
    · exact (hhex hc).1
    · obtain rfl := List.mem_singleton.mp hc
      decide
  have htake : (Sha256.hexText (Sha256.hash bytes)).toList.takeWhile (fun c => decide (c ≠ ' ' ∧ c ≠ '\t')) =
      (Sha256.hexText (Sha256.hash bytes)).toList := by
    rw [List.takeWhile_eq_self_iff]
    exact fun c hc => by simp [(hhex hc).2.2.1, (hhex hc).2.2.2.1]
  have hdrop : (Sha256.hexText (Sha256.hash bytes)).toList.rdropWhile (fun c => decide (c = '\r' ∨ c = '\n')) =
      (Sha256.hexText (Sha256.hash bytes)).toList := by
    rw [List.rdropWhile_eq_self_iff]
    exact fun hne => by simp [(hhex (List.getLast_mem hne)).2.1, (hhex (List.getLast_mem hne)).2.2.2.2]
  have hnewline : '\n' ∉ (Sha256.hexText (Sha256.hash bytes)).toList := fun hc => (hhex hc).2.1 rfl
  simp only [readChecksumFile, hchars, getlines_concat hnewline, List.head?_cons, Option.getD_some, htake, hdrop,
    String.ofList_toList]

section Exporter
variable {libm : Libm} {bias platt_a platt_b : UInt64} {weights : List UInt64} {norm : Option (List UInt64 × List UInt64)}

theorem holds_write_model (hweights : weights.length = 48) (hfinite : ∀ w ∈ weights, (Binary64.ofBits w).isFinite = true)
    (hbias : Binary64.ofBits bias ≠ .nan) (hnorm : ∀ p ∈ norm, p.1.length = 48 ∧ p.2.length = 48) :
    Holds (write_model bias weights norm platt_a platt_b) {
      model := { metadata := loadedMetadata, weights, bias }
      normalizer := norm.map fun p => .make p.1 p.2
      calibrator := some (.platt platt_a platt_b) } where
  text := by
    unfold write_model
    rw [hweights]
    rcases norm with _ | ⟨mean, scale⟩
    · refine ⟨_, _, [], ?_, .none, .platt platt_a platt_b⟩
      simp only [headerText, List.append_assoc, List.append_nil]
    · obtain ⟨hmean, hscale⟩ := hnorm _ rfl
      have htext := NormalizerText.some one_ne_zero (by norm_num) hmean hscale
      refine ⟨_, _, [], ?_, htext, .platt platt_a platt_b⟩
      simp only [headerText, List.append_assoc, List.append_nil]
  metadata := rfl
  weights := hweights
  finite := hfinite
  bias := hbias

end Exporter

/-! ### A model in a file -/

/-- A C library that is right about the exponential of zero. -/
def coarseLibm : Libm where
  exp
    | .nan => .nan
    | .inf negative => if negative then .finite 0 else .inf false
    | .finite q => if q < 0 then .finite 0 else .finite 1
  log _ := .finite 0
  sqrt x := x

theorem coarseLibm_lawful : coarseLibm.Lawful where
  exp_nan := rfl
  exp_nonpos x hx := by
    rcases x with _ | a | q
    · cases hx
    · cases a
      · cases hx
      · exact ⟨0, rfl, le_rfl, zero_le_one⟩
    · by_cases hq : q < 0
      · exact ⟨0, if_pos hq, le_rfl, zero_le_one⟩
      · exact ⟨1, if_neg hq, zero_le_one, le_rfl⟩
  log_pos _ _ := ⟨0, rfl⟩

/-- `1.2`, `-0.2`, and `0.5` for all the others. -/
def someWeights : List UInt64 := 0x3ff3333333333333 :: 0xbfc999999999999a :: List.replicate 46 0x3fe0000000000000

/-- `std::log(0.65 / 0.35)`. -/
def someBias : UInt64 := 0x3fe3cf2b50617c97

/-- The means are `1.0` and the scales `2.0`. -/
def someNorm : Option (List UInt64 × List UInt64) :=
  some (List.replicate 48 oneBits, List.replicate 48 0x4000000000000000)

/-- Calibrated with the slope `1.5` and the intercept `0.1`. -/
def someModel : LoadedModel where
  model := { metadata := loadedMetadata, weights := someWeights, bias := someBias }
  normalizer := someNorm.map fun p => .make p.1 p.2
  calibrator := some (.platt 0x3ff8000000000000 0x3fb999999999999a)

def someFile : List UInt8 := write_model someBias someWeights someNorm 0x3ff8000000000000 0x3fb999999999999a

theorem finite_someWeights : ∀ w ∈ someWeights, (Binary64.ofBits w).isFinite = true := by
  have hall : (someWeights.all fun w => (Binary64.ofBits w).isFinite) = true := by decide +kernel
  exact List.all_eq_true.mp hall

theorem someBias_ne_nan : Binary64.ofBits someBias ≠ .nan := by decide +kernel

theorem sized_someNorm : ∀ p ∈ someNorm, p.1.length = 48 ∧ p.2.length = 48 := by
  intro p hp
  obtain rfl := Option.some.inj hp
  exact ⟨List.length_replicate, List.length_replicate⟩

/-- A byte too many does no harm when there is no checksum. -/
theorem loadModelFromBinary_iff_some :
    loadModelFromBinary coarseLibm (fun _ => some (someFile ++ [7])) "model.bin" "" "" "" = some someModel :=
  have hholds := (holds_write_model rfl finite_someWeights someBias_ne_nan sized_someNorm).append [7]
  (loadModelFromBinary_iff coarseLibm_lawful _ _ _ _ _ _).mpr ⟨_, rfl, hholds, nofun, nofun, nofun⟩

/-- The model and its checksum. -/
def someFiles : Files := fun path => if path = "model.bin" then some someFile else some (checksumText someFile)

end CrashCore.Pe
