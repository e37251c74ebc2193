import CrashCore.Application.PipelineLoop
import CrashCore.Ingestion.DuplicateWindow
import CrashCore.Library.Codec
import CrashCore.Realtime.EventValidator
import Mathlib.Tactic.Common

/-! The keys by which repetitions are recognised: what they tell, and which of them are repetitions. Each is a free text with
numbers or a fixed word behind it, and the text may have colons in it. -/

namespace CrashCore

/-! ### Kinds and phases -/

theorem EventKind.toNat_injective : Function.Injective EventKind.toNat := by
  intro k k' h
  cases k <;> cases k' <;> first | rfl | cases h

theorem SignalKind.toNat_injective : Function.Injective SignalKind.toNat := by
  intro k k' h
  cases k <;> cases k' <;> first | rfl | cases h

namespace Realtime.RoundPhase

theorem notMem_toString (p : RoundPhase) : ':' ∉ p.toString.toList := by
  cases p <;> decide

theorem toString_injective : Function.Injective RoundPhase.toString := by
  intro p p' h
  cases p <;> cases p' <;> first | rfl | exact absurd h (by decide)

end Realtime.RoundPhase

/-! ### Keys -/

namespace DuplicateFilter
variable {ev ev' : CrashEvent}

/-- The id that a key begins with. -/
def idOf (ev : CrashEvent) : String := if ev.gameId ≠ "" then ev.gameId else ev.roundId

theorem makeKey_inj (h : makeKey ev = makeKey ev') : idOf ev = idOf ev' ∧ ev.kind = ev'.kind ∧
    ev.sequence = ev'.sequence ∧ ev.elapsedMs = ev'.elapsedMs := by
  obtain ⟨h, helapsed⟩ := Separator.append_int_inj rfl rfl (by decide) h
  obtain ⟨h, hsequence⟩ := Separator.append_nat_inj rfl rfl h
  obtain ⟨hid, hkind⟩ := Separator.append_nat_inj rfl rfl h
  exact ⟨hid, EventKind.toNat_injective hkind, hsequence, helapsed⟩

end DuplicateFilter

theorem EventRouter.dedupeKey_inj {ev ev' : CrashEvent} (h : dedupeKey ev = dedupeKey ev') :
    ev.gameId = ev'.gameId ∧ ev.kind = ev'.kind ∧ ev.sequence = ev'.sequence := by
  obtain ⟨h, hsequence⟩ := Separator.append_nat_inj rfl rfl h
  obtain ⟨hid, hkind⟩ := Separator.append_nat_inj rfl rfl h
  exact ⟨hid, EventKind.toNat_injective hkind, hsequence⟩

theorem Signal.dedupeKey_inj {s s' : Signal} (h : s.dedupeKey = s'.dedupeKey) :
    s.predictionId = s'.predictionId ∧ s.kind = s'.kind := by
  obtain ⟨hid, hkind⟩ := Separator.append_nat_inj rfl rfl h
  exact ⟨hid, SignalKind.toNat_injective hkind⟩

theorem Realtime.EventValidator.key_inj {n n' : NormalizedRoundEvent} (h : key n = key n') :
    n.gameId = n'.gameId ∧ n.phase = n'.phase := by
  obtain ⟨hid, hphase⟩ := Separator.append_inj rfl n.phase.notMem_toString n'.phase.notMem_toString h
  exact ⟨hid, RoundPhase.toString_injective hphase⟩

open Realtime

/-- Whatever the ids look like, equal keys are keys of events or signals that agree in every part of the key. -/
theorem dedupe_keys_injective :
    (∀ ev ev' : CrashEvent, DuplicateFilter.makeKey ev = DuplicateFilter.makeKey ev' →
      DuplicateFilter.idOf ev = DuplicateFilter.idOf ev' ∧ ev.kind = ev'.kind ∧ ev.sequence = ev'.sequence ∧
        ev.elapsedMs = ev'.elapsedMs) ∧
    (∀ ev ev' : CrashEvent, EventRouter.dedupeKey ev = EventRouter.dedupeKey ev' →
      ev.gameId = ev'.gameId ∧ ev.kind = ev'.kind ∧ ev.sequence = ev'.sequence) ∧
    (∀ s s' : Signal, s.dedupeKey = s'.dedupeKey → s.predictionId = s'.predictionId ∧ s.kind = s'.kind) ∧
    ∀ n n' : NormalizedRoundEvent, EventValidator.key n = EventValidator.key n' →
      n.gameId = n'.gameId ∧ n.phase = n'.phase :=
  ⟨fun _ _ => DuplicateFilter.makeKey_inj, fun _ _ => EventRouter.dedupeKey_inj, fun _ _ => Signal.dedupeKey_inj,
    fun _ _ => EventValidator.key_inj⟩

/-! ### Repetitions

They are exactly the last keys that were accepted, as many as the window holds. -/

/-! ### The duplicate filter -/

namespace DuplicateWindow

/-- The calls that a filter receives. -/
inductive Call
  | accept (ev : CrashEvent)
  | acceptKey (key : String)
  | clear

/-- A filter with the keys that it has accepted since it was cleared. -/
structure Run where
  filter : DuplicateWindow
  taken : List String := []

namespace Run

/-- The key that is asked for is accepted or not. -/
def offer (s : Run) (key : String) (result : DuplicateWindow × Bool) : Run :=
  { filter := result.1, taken := if result.2 then s.taken ++ [key] else s.taken }

def call (s : Run) : Call → Run
  | .accept ev => s.offer (DuplicateFilter.makeKey ev) (s.filter.accept ev)
  | .acceptKey key => s.offer key (s.filter.acceptKey key)
  | .clear => { filter := s.filter.clear }

/-- A new filter after some calls. -/
def after (max : Nat) (calls : List Call) : Run := calls.foldl call { filter := { max } }

/-- Rejected are the last keys that were accepted, and both containers hold them. -/
structure Exact (max : Nat) (s : Run) : Prop where
  key : ∀ key, (s.filter.acceptKey key).2 = false ↔ key ∈ s.taken.rtake max
  event : ∀ ev, ev.valid = true →
    ((s.filter.accept ev).2 = false ↔ DuplicateFilter.makeKey ev ∈ s.taken.rtake max)
  seen : ∀ key, key ∈ s.filter.seen ↔ key ∈ s.filter.order
  nodup : s.filter.order.Nodup
  length : s.filter.order.length ≤ max

/-- What every call keeps. -/
structure Keeps (max : Nat) (s : Run) : Prop where
  size : s.filter.max = max
  window : s.filter.Holds max s.taken

variable {max : Nat} {s : Run} {key : String}

theorem keeps_acceptKey (h : Keeps max s) : Keeps max (s.offer key (s.filter.acceptKey key)) := by
  obtain ⟨hmax, hwindow⟩ := h
  by_cases hseen : key ∈ s.filter.seen
  · rw [acceptKey_of_seen hseen]
    exact ⟨hmax, hwindow⟩
  · rw [acceptKey_of_new hseen]
    refine ⟨hmax, ?_⟩
    show SeenWindow.Holds max (s.filter.toSeenWindow.push s.filter.max key) (s.taken ++ [key])
    rw [hmax]
    exact hwindow.push hseen

theorem keeps_call (h : Keeps max s) (c : Call) : Keeps max (s.call c) := by
  cases c with
  | accept ev =>
    rw [call]
    by_cases hv : ev.valid = true
    · rw [accept_valid hv]
      exact keeps_acceptKey h
    · rw [accept_invalid hv]
      exact h
  | acceptKey key => exact keeps_acceptKey h
  | clear => exact ⟨h.size, SeenWindow.holds_nil⟩

theorem keeps_after (max : Nat) (calls : List Call) : Keeps max (after max calls) :=
  List.foldlRecOn calls call ⟨rfl, SeenWindow.holds_nil⟩ fun _ h c _ => keeps_call h c

theorem acceptKey_rejects (d : DuplicateWindow) (key : String) : (d.acceptKey key).2 = false ↔ key ∈ d.seen := by
  unfold acceptKey
  split <;> simp_all

theorem Keeps.exact (h : Keeps max s) : Exact max s where
  key key := by rw [acceptKey_rejects, h.window.mem_seen]
  event ev hv := by rw [accept_valid hv, acceptKey_rejects, h.window.mem_seen]
  seen := h.window.mem
  nodup := h.window.nodup
  length := h.window.length_le

end Run
end DuplicateWindow

/-! ### The event validator -/

namespace Realtime.EventValidator
variable {v : EventValidator} {n : NormalizedRoundEvent} {now : TimestampMs} {max : Nat}

def window (v : EventValidator) : SeenWindow String := ⟨v.seen, v.order⟩

/-- The event gets as far as the window: it is a start or an end, and its game id and age are fine. -/
def Reaches (v : EventValidator) (n : NormalizedRoundEvent) (now : TimestampMs) : Prop :=
  (n.phase = .end ∨ n.phase = .begin) ∧ Numeric n.gameId ∧ ¬v.Late n now

theorem trim_eq : ∀ seen order : List String,
    trim max seen order = ((SeenWindow.trim max seen order).seen, (SeenWindow.trim max seen order).order)
  | _, [] => rfl
  | seen, key :: order => by
    rw [trim, SeenWindow.trim]
    split
    · exact trim_eq _ order
    · rfl

/-- What the last part of `validate` makes of a start or an end. -/
theorem acceptOnce_cases (now : TimestampMs) (hphase : n.phase = .end ∨ n.phase = .begin) :
    (key n ∈ v.seen ∧ v.acceptOnce n now =
        ({ reason := "duplicate", acceptedAt := now }, { v with duplicates := v.duplicates + 1 })) ∨
      (key n ∉ v.seen ∧ (v.acceptOnce n now).1 = { ok := true, acceptedAt := now } ∧
        (v.acceptOnce n now).2.window = v.window.push v.maxSeen (key n) ∧
        (v.acceptOnce n now).2.maxSeen = v.maxSeen) := by
  unfold acceptOnce
  rw [if_pos hphase]
  by_cases hseen : key n ∈ v.seen
  · exact .inl ⟨hseen, if_pos hseen⟩
  · refine .inr ⟨hseen, ?_⟩
    rw [if_neg hseen, trim_eq]
    exact ⟨rfl, rfl, rfl⟩

/-- Events that reach the window go through the last part of `validate`, up to what is noted of their age. -/
theorem validate_of_reaches (h : v.Reaches n now) :
    ∃ lag, v.validate n now = ({ v with lastArrivalLagMs := lag } : EventValidator).acceptOnce n now := by
  obtain ⟨-, hnumeric, hlate⟩ := h
  obtain ⟨hmissing, hchar⟩ := numeric_iff.mp hnumeric
  unfold validate
  rw [if_neg fun hc => hmissing hc.2, if_neg fun hc => hchar hc.2]
  by_cases hreceived : 0 < n.receivedAt
  · rw [if_pos hreceived]
    dsimp only
    rw [if_neg fun hlag => hlate ⟨hreceived, hlag⟩]
    exact ⟨_, rfl⟩
  · rw [if_neg hreceived]
    exact ⟨v.lastArrivalLagMs, rfl⟩

/-- The others leave the window alone, and are no duplicates; as a start or an end they are not accepted. -/
structure Passes (v : EventValidator) (n : NormalizedRoundEvent) (r : ValidateResult × EventValidator) : Prop where
  reason : r.1.reason ≠ "duplicate"
  ok : r.1.ok = true → ¬(n.phase = .end ∨ n.phase = .begin)
  window : r.2.window = v.window
  maxSeen : r.2.maxSeen = v.maxSeen

theorem acceptOnce_passes (now : TimestampMs) (hphase : ¬(n.phase = .end ∨ n.phase = .begin)) : v.Passes n (v.acceptOnce n now) := by
  unfold acceptOnce
  rw [if_neg hphase]
  exact ⟨by simp, fun _ => hphase, rfl, rfl⟩

theorem validate_of_not_reaches (h : ¬v.Reaches n now) : v.Passes n (v.validate n now) := by
  unfold validate
  by_cases hmissing : n.phase ≠ .progress ∧ n.gameId = ""
  · rw [if_pos hmissing]
    exact ⟨by simp, nofun, rfl, rfl⟩
  by_cases hchar : n.phase ≠ .progress ∧ n.gameId.toList.any fun c => c < '0' ∨ '9' < c
  · rw [if_neg hmissing, if_pos hchar]
    exact ⟨by simp, nofun, rfl, rfl⟩
  rw [if_neg hmissing, if_neg hchar]
  -- a start or an end has a number here, so it can only be late
  have hlate : (n.phase = .end ∨ n.phase = .begin) → v.Late n now := by
    intro hphase
    have hprogress : n.phase ≠ .progress := by rcases hphase with hp | hp <;> simp [hp]
    have hnumeric : Numeric n.gameId := numeric_iff.mpr ⟨fun hc => hmissing ⟨hprogress, hc⟩, fun hc => hchar ⟨hprogress, hc⟩⟩
    by_contra hnot
    exact h ⟨hphase, hnumeric, hnot⟩
  by_cases hreceived : 0 < n.receivedAt
  · rw [if_pos hreceived]
    dsimp only
    by_cases hlag : v.maxSkewMs < now - n.receivedAt
    · rw [if_pos hlag]
      exact ⟨by simp, nofun, rfl, rfl⟩
    · rw [if_neg hlag]
      obtain ⟨hreason, hok, hwindow, hmax⟩ := acceptOnce_passes (v := { v with lastArrivalLagMs := now - n.receivedAt })
        now fun hphase => hlag (hlate hphase).2
      exact ⟨hreason, hok, hwindow, hmax⟩
  · rw [if_neg hreceived]
    exact acceptOnce_passes now fun hphase => hreceived (hlate hphase).1

/-- A validator with the keys that it has accepted. -/
structure Run where
  validator : EventValidator
  taken : List String := []

namespace Run

/-- An event at a reading of the clock. -/
def validate (s : Run) (e : NormalizedRoundEvent × TimestampMs) : Run where
  validator := (s.validator.validate e.1 e.2).2
  taken :=
    if (s.validator.validate e.1 e.2).1.ok ∧ (e.1.phase = .end ∨ e.1.phase = .begin) then s.taken ++ [key e.1]
    else s.taken

/-- A new validator after some events. -/
def after (maxSkewMs : Int) (maxSeen : Nat) (events : List (NormalizedRoundEvent × TimestampMs)) : Run :=
  events.foldl validate { validator := { maxSkewMs, maxSeen } }

/-- Of the events that reach the window, those are rejected whose keys are among the last that were accepted, and no
    other event is a duplicate. -/
structure Exact (maxSeen : Nat) (s : Run) : Prop where
  reaching : ∀ n now, s.validator.Reaches n now →
    ((s.validator.validate n now).1.ok = false ↔ key n ∈ s.taken.rtake maxSeen)
  duplicate : ∀ n now, (s.validator.validate n now).1.reason = "duplicate" ↔
    s.validator.Reaches n now ∧ key n ∈ s.taken.rtake maxSeen
  seen : ∀ key, key ∈ s.validator.seen ↔ key ∈ s.validator.order
  nodup : s.validator.order.Nodup
  length : s.validator.order.length ≤ maxSeen

/-- What every event keeps. -/
structure Keeps (maxSeen : Nat) (s : Run) : Prop where
  max : s.validator.maxSeen = maxSeen
  window : s.validator.window.Holds maxSeen s.taken

variable {s : Run}

theorem keeps_validate (h : Keeps max s) (e : NormalizedRoundEvent × TimestampMs) : Keeps max (s.validate e) := by
  obtain ⟨n, now⟩ := e
  obtain ⟨hmax, hwindow⟩ := h
  by_cases hreach : s.validator.Reaches n now
  · obtain ⟨lag, hvalidate⟩ := validate_of_reaches hreach
    rw [validate, hvalidate]
    rcases acceptOnce_cases (v := { s.validator with lastArrivalLagMs := lag }) now hreach.1 with
      ⟨-, heq⟩ | ⟨hnew, hresult, hpush, hmax'⟩
    · rw [heq]
      exact ⟨hmax, by simpa [window] using hwindow⟩
    · refine ⟨hmax'.trans hmax, ?_⟩
      rw [hresult, hpush, if_pos ⟨rfl, hreach.1⟩]
      show SeenWindow.Holds max (s.validator.window.push s.validator.maxSeen (key n)) _
      rw [hmax]
      exact hwindow.push hnew
  · obtain ⟨-, hok, hsame, hmax'⟩ := validate_of_not_reaches hreach
    refine ⟨hmax'.trans hmax, ?_⟩
    rw [validate, if_neg fun hc => hok hc.1 hc.2, hsame]
    exact hwindow

theorem keeps_after (maxSkewMs : Int) (maxSeen : Nat) (events : List (NormalizedRoundEvent × TimestampMs)) :
    Keeps maxSeen (after maxSkewMs maxSeen events) :=
  List.foldlRecOn events validate ⟨rfl, SeenWindow.holds_nil⟩ fun _ h e _ => keeps_validate h e

theorem Keeps.exact (h : Keeps max s) : Exact max s where
  reaching n now hreach := by
    obtain ⟨lag, hvalidate⟩ := validate_of_reaches hreach
    rw [hvalidate, ← h.window.mem_seen]
    rcases acceptOnce_cases (v := { s.validator with lastArrivalLagMs := lag }) now hreach.1 with
      ⟨hold, heq⟩ | ⟨hnew, hresult, -⟩
    · rw [heq]
      exact iff_of_true rfl hold
    · rw [hresult]
      exact iff_of_false (by simp) hnew
  duplicate n now := by
    by_cases hreach : s.validator.Reaches n now
    · obtain ⟨lag, hvalidate⟩ := validate_of_reaches hreach
      rw [hvalidate, ← h.window.mem_seen]
      rcases acceptOnce_cases (v := { s.validator with lastArrivalLagMs := lag }) now hreach.1 with
        ⟨hold, heq⟩ | ⟨hnew, hresult, -⟩
      · rw [heq]
        exact iff_of_true rfl ⟨hreach, hold⟩
      · rw [hresult]
        exact iff_of_false (by simp) fun hc => hnew hc.2
    · exact iff_of_false (validate_of_not_reaches hreach).reason fun hc => hreach hc.1
  seen := h.window.mem
  nodup := h.window.nodup
  length := h.window.length_le

end Run
end Realtime.EventValidator

/-- Both windows reject exactly the last keys that they accepted, at every size and after any calls. -/
theorem recent_keys_rejected :
    (∀ (max : Nat) (calls : List DuplicateWindow.Call), (DuplicateWindow.Run.after max calls).Exact max) ∧
    ∀ (maxSkewMs : Int) (maxSeen : Nat) (events : List (Realtime.NormalizedRoundEvent × TimestampMs)),
      (Realtime.EventValidator.Run.after maxSkewMs maxSeen events).Exact maxSeen :=
  ⟨fun max calls => (DuplicateWindow.Run.keeps_after max calls).exact,
    fun maxSkewMs maxSeen events => (Realtime.EventValidator.Run.keeps_after maxSkewMs maxSeen events).exact⟩

end CrashCore
