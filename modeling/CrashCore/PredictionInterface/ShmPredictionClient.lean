import CrashCore.Common.Types
import Mathlib.Data.List.TakeWhile
import Mathlib.Logic.Function.Basic

/-! The response ring of the shared-memory client (`prediction_interface/shm_prediction_client.hpp`,
`prediction_interface/shm_channel.hpp`). The answer that `submit` gives by itself is one more `writeResponse`. A `Char`
of a text stands for a byte. -/

namespace CrashCore

/-- A response with its time on the steady clock. -/
structure TimedResponse extends PredictionResponse where
  responseNs : Int64 := 0
deriving DecidableEq

/-- The arrays of characters have 64 elements, that of the model version has 32. -/
structure ShmResponseSlot where
  sequence : Nat := 0
  responseNs : UInt64 := 0
  confidence : Double := 0
  targetMult : Double := 0
  decision : PredictionDecision := .skip
  predictionId : List Char := List.replicate 64 '\x00'
  targetRound : List Char := List.replicate 64 '\x00'
  correlation : List Char := List.replicate 64 '\x00'
  modelVersion : List Char := List.replicate 32 '\x00'

structure ShmPredictionClient where
  respHead : Nat := 0
  respTail : Nat := 0
  responses : Nat → ShmResponseSlot := fun _ => {}
  /-- Bookkeeping: the responses written and polled so far. -/
  written : List TimedResponse := []
  polled : List TimedResponse := []

namespace ShmPredictionClient

def shmQueueSlots : Nat := 256

/-- What is left of an array of `size` zeros when `strncpy` has copied up to `size - 1` characters of `s.c_str()`. -/
def copied (size : Nat) (s : String) : List Char :=
  let text := (s.toList.takeWhile (· != '\x00')).take (size - 1)
  text ++ List.replicate (size - text.length) '\x00'

/-- The string that an array of characters is read as. -/
def cString (chars : List Char) : String := String.ofList (chars.takeWhile (· != '\x00'))

def writeSlot (resp : TimedResponse) (head : Nat) : ShmResponseSlot where
  sequence := head + 1
  responseNs := resp.responseNs.toUInt64
  confidence := resp.confidence
  targetMult := resp.targetMult
  decision := resp.decision
  predictionId := copied 64 resp.predictionId
  targetRound := copied 64 resp.targetRoundId
  correlation := copied 64 resp.correlationId
  modelVersion := copied 32 resp.modelVersion

def readResponseSlot (slot : ShmResponseSlot) : TimedResponse where
  predictionId := cString slot.predictionId
  targetRoundId := cString slot.targetRound
  correlationId := cString slot.correlation
  modelVersion := cString slot.modelVersion
  confidence := slot.confidence
  targetMult := slot.targetMult
  decision := slot.decision
  responseNs := slot.responseNs.toInt64
  valid := true

def writeResponse (s : ShmPredictionClient) (resp : TimedResponse) : ShmPredictionClient :=
  { s with
    responses := Function.update s.responses (s.respHead % shmQueueSlots) (writeSlot resp s.respHead)
    respHead := (s.respHead + 1) % shmQueueSlots
    written := s.written ++ [resp] }

def pollResponseSlot (s : ShmPredictionClient) : ShmPredictionClient :=
  if s.respTail = s.respHead then s
  else
    { s with
      respTail := (s.respTail + 1) % shmQueueSlots
      polled := s.polled ++ [readResponseSlot (s.responses (s.respTail % shmQueueSlots))] }

inductive Act
  | writeResponse (resp : TimedResponse)
  | pollResponseSlot

def step (s : ShmPredictionClient) : Act → Option ShmPredictionClient
  | .writeResponse resp => some (s.writeResponse resp)
  | .pollResponseSlot => some s.pollResponseSlot

/-! ### A response in a slot -/

/-- The text fits into an array of `size` characters. -/
def Fits (size : Nat) (s : String) : Prop := s.length < size ∧ '\x00' ∉ s.toList

/-- The slot has a place for all of the response. -/
structure Survives (resp : TimedResponse) : Prop where
  predictionId : Fits 64 resp.predictionId
  targetRoundId : Fits 64 resp.targetRoundId
  correlationId : Fits 64 resp.correlationId
  modelVersion : Fits 32 resp.modelVersion
  probability : resp.probability = 0
  responseTimeMs : resp.responseTimeMs = 0
  valid : resp.valid = true

/-- The response as it comes out of a slot. -/
def carried (resp : TimedResponse) : TimedResponse where
  predictionId := cString (copied 64 resp.predictionId)
  targetRoundId := cString (copied 64 resp.targetRoundId)
  correlationId := cString (copied 64 resp.correlationId)
  modelVersion := cString (copied 32 resp.modelVersion)
  confidence := resp.confidence
  targetMult := resp.targetMult
  decision := resp.decision
  responseNs := resp.responseNs
  valid := true

theorem read_writeSlot (resp : TimedResponse) (head : Nat) : readResponseSlot (writeSlot resp head) = carried resp := by
  rw [readResponseSlot, writeSlot, carried, Int64.toInt64_toUInt64]

theorem toList_cString_copied (size : Nat) (s : String) :
    (cString (copied size s)).toList = (s.toList.takeWhile (· != '\x00')).take (size - 1) := by
  have htext : ∀ c ∈ (s.toList.takeWhile (· != '\x00')).take (size - 1), (c != '\x00') = true := fun c hc =>
    List.mem_takeWhile_imp (p := (· != '\x00')) (List.mem_of_mem_take hc)
  have hzeros : ∀ n, (List.replicate n '\x00').takeWhile (· != '\x00') = [] := fun n => by cases n <;> simp
  rw [cString, copied, String.toList_ofList, List.takeWhile_append_of_pos htext, hzeros, List.append_nil]

theorem cString_copied_iff {size : Nat} (hsize : 0 < size) (s : String) : cString (copied size s) = s ↔ Fits size s := by
  rw [← String.toList_inj, toList_cString_copied, Fits, ← String.length_toList]
  constructor
  · intro hsame
    have hlen := congrArg List.length hsame
    rw [List.length_take] at hlen
    refine ⟨by omega, fun hzero => ?_⟩
    rw [← hsame] at hzero
    simpa using List.mem_takeWhile_imp (p := (· != '\x00')) (List.mem_of_mem_take hzero)
  · rintro ⟨hlen, hzero⟩
    have htext : s.toList.takeWhile (· != '\x00') = s.toList :=
      List.takeWhile_eq_self_iff.mpr fun c hc => by
        rw [bne_iff_ne]
        exact fun h => hzero (h ▸ hc)
    rw [htext]
    exact List.take_of_length_le (by omega)

/-- Nothing else is lost. -/
theorem carried_eq_iff (resp : TimedResponse) : carried resp = resp ↔ Survives resp := by
  constructor
  · intro hsame
    exact
      { predictionId := (cString_copied_iff (by decide) _).mp (congrArg (·.predictionId) hsame)
        targetRoundId := (cString_copied_iff (by decide) _).mp (congrArg (·.targetRoundId) hsame)
        correlationId := (cString_copied_iff (by decide) _).mp (congrArg (·.correlationId) hsame)
        modelVersion := (cString_copied_iff (by decide) _).mp (congrArg (·.modelVersion) hsame)
        probability := (congrArg (·.probability) hsame).symm
        responseTimeMs := (congrArg (·.responseTimeMs) hsame).symm
        valid := (congrArg (·.valid) hsame).symm }
  · intro h
    have hid := (cString_copied_iff (by decide) _).mpr h.predictionId
    have htarget := (cString_copied_iff (by decide) _).mpr h.targetRoundId
    have hcorrelation := (cString_copied_iff (by decide) _).mpr h.correlationId
    have hversion := (cString_copied_iff (by decide) _).mpr h.modelVersion
    rw [carried, hid, htarget, hcorrelation, hversion, ← h.valid]
    obtain ⟨⟨id, target, decision, confidence, probability, multiplier, time, correlation, version, valid⟩, ns⟩ := resp
    have hprobability : probability = 0 := h.probability
    have htime : time = 0 := h.responseTimeMs
    subst hprobability htime
    rfl

end ShmPredictionClient
end CrashCore
