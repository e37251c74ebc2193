import CrashCore.Common.Types
import CrashCore.Library.BoundedList
import CrashCore.Library.Decimal
import Mathlib.Data.List.TakeWhile

/-! The client of the in-process engine (`prediction_interface/in_process_prediction_client.hpp`) and the rolling buffer of
finished rounds (`prediction_interface/rolling_history.hpp`). Of the engine only its observations are kept; what it
predicts is given by the caller. -/

namespace CrashCore

structure HistoryRound where
  gameId : GameId
  multiplier : Double := 0
  crashedAtMs : TimestampMs := 0
  hash : String := ""
deriving DecidableEq

structure RollingHistoryBuffer where
  capacity : Nat := 200
  buf : List HistoryRound := []
  pushes : Nat := 0

namespace RollingHistoryBuffer

def push (h : RollingHistoryBuffer) (r : HistoryRound) : RollingHistoryBuffer :=
  { h with buf := (h.buf ++ [r]).popFrontTo h.capacity, pushes := h.pushes + 1 }

/-- The entry of an End, under its game id or else its round id. -/
def entry (e : CrashEvent) (now : TimestampMs) : HistoryRound where
  gameId := if e.gameId = "" then e.roundId else e.gameId
  multiplier := e.crashPoint
  crashedAtMs := if e.endedAtMs ≠ 0 then e.endedAtMs else now
  hash := e.hash

def pushFromEvent (h : RollingHistoryBuffer) (e : CrashEvent) (now : TimestampMs) : RollingHistoryBuffer :=
  if ¬e.IsValidEnd then h else h.push (entry e now)

def last (h : RollingHistoryBuffer) (n : Nat) : List HistoryRound := h.buf.drop (h.buf.length - n)

end RollingHistoryBuffer

/-! ### The client -/

/-- `std::isspace`. -/
def isSpace (c : Char) : Bool := c = ' ' ∨ ('\t' ≤ c ∧ c ≤ '\r')

/-- `std::stoull`: the value and the characters after it, or nothing when it throws. -/
def stoull (s : String) : Option (Nat × List Char) :=
  let (negative, rest) := match s.toList.dropWhile isSpace with
    | '-' :: rest => (true, rest)
    | '+' :: rest => (false, rest)
    | rest => (false, rest)
  let digits := rest.takeWhile Char.isDigit
  let v := digits.foldl (fun n c => 10 * n + (c.toNat - '0'.toNat)) 0
  if digits = [] ∨ 2 ^ 64 ≤ v then none
  else some (if negative then (2 ^ 64 - v) % 2 ^ 64 else v, rest.dropWhile Char.isDigit)

/-- Numeric game ids: N → N+1. Non-numeric: append ".next". -/
def nextRoundId (currentGameId : String) : RoundId :=
  match stoull currentGameId with
  | some (v, []) => toString ((v + 1) % 2 ^ 64)
  | _ => currentGameId ++ ".next"

theorem isSpace_of_isDigit {c : Char} (h : c.isDigit = true) : isSpace c = false := by
  simp only [Char.isDigit, ge_iff_le, Bool.and_eq_true, decide_eq_true_eq] at h
  have hlow : '0' ≤ c := h.1
  have hspace : ¬c = ' ' := by
    rintro rfl
    exact absurd hlow (by decide)
  have hcontrol : ¬c ≤ '\r' := fun hc => absurd (Char.le_trans hlow hc) (by decide)
  simp [isSpace, hspace, hcontrol]

/-- A string of digits, leading zeros included. -/
def Numeric (id : String) : Prop := id.toList ≠ [] ∧ ∀ c ∈ id.toList, c.isDigit = true

instance (id : String) : Decidable (Numeric id) :=
  have := List.decidableBAll (fun c : Char => c.isDigit = true) id.toList
  inferInstanceAs (Decidable (_ ∧ _))

/-- The number that a string of digits denotes. -/
def numericValue (id : String) : Nat := id.toList.foldl (fun n c => 10 * n + (c.toNat - '0'.toNat)) 0

/-- Digits are read whole, when 64 bits hold their number. -/
theorem stoull_numeric {id : String} (h : Numeric id) :
    stoull id = if numericValue id < 2 ^ 64 then some (numericValue id, []) else none := by
  obtain ⟨hne, hdigit⟩ := h
  unfold stoull numericValue
  obtain ⟨c, cs, hcs⟩ := List.exists_cons_of_ne_nil hne
  rw [hcs] at hdigit ⊢
  have hc : c.isDigit = true := hdigit c (by simp)
  have hall : cs.takeWhile Char.isDigit = cs ∧ cs.dropWhile Char.isDigit = [] := by
    have hcs : ∀ d ∈ cs, d.isDigit = true := fun d hd => hdigit d (List.mem_cons_of_mem _ hd)
    exact ⟨List.takeWhile_eq_self_iff.mpr hcs, List.dropWhile_eq_nil_iff.mpr hcs⟩
  have hsign : ∀ d : Char, d.isDigit = false → c ≠ d := by
    rintro d hd rfl
    rw [hc] at hd
    cases hd
  rw [List.dropWhile_cons_of_neg (by simp [isSpace_of_isDigit hc])]
  split
  rename_i negative rest heq
  split at heq
  · rename_i hminus
    exact absurd (List.cons.inj hminus).1 (hsign '-' rfl)
  · rename_i hplus
    exact absurd (List.cons.inj hplus).1 (hsign '+' rfl)
  · cases heq
    simp only [List.takeWhile_cons_of_pos hc, List.dropWhile_cons_of_pos hc, hall]
    by_cases hv : (c :: cs).foldl (fun n c => 10 * n + (c.toNat - '0'.toNat)) 0 < 2 ^ 64
    · have hfits : ¬(c :: cs = [] ∨ 2 ^ 64 ≤ (c :: cs).foldl (fun n c => 10 * n + (c.toNat - '0'.toNat)) 0) :=
        not_or.mpr ⟨List.cons_ne_nil _ _, Nat.not_le_of_lt hv⟩
      rw [if_neg hfits, if_pos hv, if_neg (by decide)]
    · rw [if_pos (Or.inr (Nat.le_of_not_lt hv)), if_neg hv]

theorem numeric_toString (n : Nat) : Numeric (toString n) := by
  obtain ⟨d, ds, htext, -, -⟩ := Decimal.exists_digits n
  exact ⟨htext ▸ List.cons_ne_nil d ds, fun _ => Decimal.isDigit_of_mem_nat⟩

theorem numericValue_toString (n : Nat) : numericValue (toString n) = n := Decimal.ofDigitChars_toString n

/-- What `std::to_string` writes is read back. -/
theorem stoull_toString {n : Nat} (hn : n < 2 ^ 64) : stoull (toString n) = some (n, []) := by
  rw [stoull_numeric (numeric_toString n), numericValue_toString, if_pos hn]

/-- The next round is another one. -/
theorem nextRoundId_ne (currentGameId : String) : nextRoundId currentGameId ≠ currentGameId := by
  unfold nextRoundId
  split
  · rename_i v hv
    intro h
    have hread := stoull_toString (n := (v + 1) % 2 ^ 64) (Nat.mod_lt _ (by decide))
    rw [h, hv] at hread
    have hsame : v = (v + 1) % 2 ^ 64 := by simpa using hread
    omega
  · intro h
    have hlen := congrArg String.length h
    simp at hlen

/-- An observation of the engine. -/
structure Sample where
  /-- Bookkeeping: the round it is about. -/
  roundId : RoundId
  crashPoint : Double
  began : Option TimestampMs := none
deriving DecidableEq

structure InProcessPredictionClient where
  /-- What `engine_` has observed. -/
  samples : List Sample := []
  history : RollingHistoryBuffer := { capacity := 256 }
  lastObservedRound : RoundId := ""
  observed : Nat := 0

namespace InProcessPredictionClient

/-- The crash point that `observeEnd` uses. -/
def point (e : CrashEvent) : Double := if 0 < e.crashPoint then e.crashPoint else e.currentMult

def observeEnd (c : InProcessPredictionClient) (e : CrashEvent) (now : TimestampMs) : InProcessPredictionClient :=
  if ¬e.IsValidEnd then c
  else if ¬0 < point e then c
  else
    { samples := c.samples ++ [⟨e.endedRound, point e, if 0 < e.beganAtMs then some e.beganAtMs else none⟩]
      history := c.history.pushFromEvent e now
      lastObservedRound := e.endedRound
      observed := c.observed + 1 }

/-- The warm path of `submit`: an engine without observations gets those of the history. -/
def warmUp (c : InProcessPredictionClient) : InProcessPredictionClient :=
  if c.samples ≠ [] then c
  else
    { c with
      samples := ((c.history.last 256).filter fun r => 0 < r.multiplier).map fun r => ⟨r.gameId, r.multiplier, none⟩ }

/-- The engine has seen as much as the history. -/
def InStep (c : InProcessPredictionClient) : Prop := c.samples = [] → c.history.buf = []

/-- The warm path never finds anything: an engine without observations has no history. -/
theorem warmUp_eq {c : InProcessPredictionClient} (h : c.InStep) : c.warmUp = c := by
  unfold warmUp
  by_cases hs : c.samples = []
  · obtain ⟨samples, history, lastObservedRound, observed⟩ := c
    obtain rfl : samples = [] := hs
    have hbuf : history.buf = [] := h rfl
    simp [RollingHistoryBuffer.last, hbuf]
  · rw [if_pos hs]

theorem warmUp_observed (c : InProcessPredictionClient) : c.warmUp.observed = c.observed := by
  unfold warmUp
  split <;> rfl

theorem observeEnd_inStep {c : InProcessPredictionClient} {e : CrashEvent} {now : TimestampMs} (h : c.InStep) :
    (c.observeEnd e now).InStep := by
  unfold observeEnd
  split
  · exact h
  · split
    · exact h
    · intro hs
      simp at hs

theorem observeEnd_samples {c : InProcessPredictionClient} {e : CrashEvent} {now : TimestampMs} (h : e.IsValidEnd) :
    (c.observeEnd e now).samples.map (·.roundId) =
      c.samples.map (·.roundId) ++ if 0 < point e then [e.endedRound] else [] := by
  unfold observeEnd
  rw [if_neg (not_not_intro h)]
  by_cases hp : 0 < point e
  · rw [if_neg (not_not_intro hp), if_pos hp, List.map_append]
    rfl
  · rw [if_pos hp, if_neg hp, List.append_nil]

end InProcessPredictionClient
end CrashCore
