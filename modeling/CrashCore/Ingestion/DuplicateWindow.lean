import CrashCore.Application.PipelineLoop
import CrashCore.Library.BoundedList
import Mathlib.Data.List.Basic
import Mathlib.Logic.Function.Basic

/-! The duplicate filter with both its containers (`ingestion/duplicate_filter.hpp`), and that the filter of the pipeline
loop, which keeps only the queue of keys, does the same. -/

namespace CrashCore

structure DuplicateWindow extends SeenWindow String where
  max : Nat := 8192
  accepted : Nat := 0
  duplicates : Nat := 0

namespace DuplicateWindow

def acceptKey (d : DuplicateWindow) (key : String) : DuplicateWindow × Bool :=
  if key ∈ d.seen then ({ d with duplicates := d.duplicates + 1 }, false)
  else ({ d with toSeenWindow := d.toSeenWindow.push d.max key, accepted := d.accepted + 1 }, true)

def accept (d : DuplicateWindow) (ev : CrashEvent) : DuplicateWindow × Bool :=
  if ¬ev.valid then (d, false) else d.acceptKey (DuplicateFilter.makeKey ev)

def clear (d : DuplicateWindow) : DuplicateWindow := { d with toSeenWindow := {} }

variable {d : DuplicateWindow} {key : String} {ev : CrashEvent}

theorem acceptKey_of_seen (h : key ∈ d.seen) : d.acceptKey key = ({ d with duplicates := d.duplicates + 1 }, false) :=
  if_pos h

theorem acceptKey_of_new (h : key ∉ d.seen) : d.acceptKey key =
    ({ d with toSeenWindow := d.toSeenWindow.push d.max key, accepted := d.accepted + 1 }, true) :=
  if_neg h

theorem accept_valid (h : ev.valid = true) : d.accept ev = d.acceptKey (DuplicateFilter.makeKey ev) :=
  if_neg (not_not_intro h)

theorem accept_invalid (h : ¬ev.valid = true) : d.accept ev = (d, false) := if_pos h

/-- The filter without the set. -/
def toFilter (d : DuplicateWindow) : DuplicateFilter :=
  { max := d.max, order := d.order, accepted := d.accepted, duplicates := d.duplicates }

/-- As long as both containers have the same keys, the queue tells what the filter does. -/
theorem toFilter_accept (h : d.Agrees) (ev : CrashEvent) :
    d.toFilter.accept ev = ((d.accept ev).1.toFilter, (d.accept ev).2) := by
  unfold DuplicateFilter.accept
  by_cases hv : ev.valid = true
  · rw [accept_valid hv, if_neg (not_not_intro hv)]
    by_cases hseen : DuplicateFilter.makeKey ev ∈ d.seen
    · rw [acceptKey_of_seen hseen]
      exact if_pos ((h.mem _).mp hseen)
    · rw [acceptKey_of_new hseen]
      refine (if_neg (mt (h.mem _).mpr hseen)).trans ?_
      simp [toFilter, SeenWindow.push, SeenWindow.trim_order]
  · rw [accept_invalid hv, if_pos hv]

end DuplicateWindow
end CrashCore
