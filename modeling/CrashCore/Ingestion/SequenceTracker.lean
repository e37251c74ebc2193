import Mathlib.Data.List.Basic
import Mathlib.Logic.Function.Basic

/-! The sequence tracker (`ingestion/sequence_tracker.hpp`): the largest number of every source, and how many numbers
were missed. The resets are left out. -/

namespace CrashCore

structure SequenceTracker where
  last : String → UInt64 := fun _ => 0
  initialized : String → Bool := fun _ => false
  missedTotal : UInt64 := 0

namespace SequenceTracker

def observe (t : SequenceTracker) (source : String) (seq : UInt64) : UInt64 × SequenceTracker :=
  let last := t.last source
  if t.initialized source = false then
    (0, { t with
      last := Function.update t.last source seq
      initialized := Function.update t.initialized source true })
  else
    -- The arithmetic is that of 64-bit words: behind the largest of them every number but zero opens a gap.
    let missed := if seq > last + 1 then seq - last - 1 else 0
    (missed, { t with
      last := Function.update t.last source (if seq > last then seq else last)
      missedTotal := t.missedTotal + missed })

/-- A new tracker after it has observed some numbers. -/
def after (obs : List (String × UInt64)) : SequenceTracker := obs.foldl (fun t p => (t.observe p.1 p.2).2) {}

variable {t : SequenceTracker} {source : String} {obs : List (String × UInt64)} {p : String × UInt64} {seq : UInt64}

theorem after_concat : after (obs ++ [p]) = ((after obs).observe p.1 p.2).2 :=
  List.foldl_concat ..

theorem observe_new (h : t.initialized source = false) : t.observe source seq = (0, { t with
    last := Function.update t.last source seq
    initialized := Function.update t.initialized source true }) := if_pos h

theorem observe_old (h : t.initialized source = true) :
    (t.observe source seq).2 = { t with
      last := Function.update t.last source (if seq > t.last source then seq else t.last source)
      missedTotal := t.missedTotal + if seq > t.last source + 1 then seq - t.last source - 1 else 0 } := by
  rw [observe, if_neg (by simp [h])]

end SequenceTracker
end CrashCore
