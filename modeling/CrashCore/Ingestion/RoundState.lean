import CrashCore.Common.Types
import CrashCore.Library.Run

/-! The state machine of live rounds (`ingestion/round_state.hpp`). A call has one clock reading. -/

namespace CrashCore

inductive RoundPhase
  | none | prepare | begin | progress | «end»
deriving DecidableEq, Repr

structure LiveRoundState where
  gameId : GameId := ""
  phase : RoundPhase := .none
  multiplier : Double := 0
  finalMult : Double := 0
  beganAtMs : TimestampMs := 0
  endedAtMs : TimestampMs := 0
  updatedAtMs : TimestampMs := 0
  hash : String := ""
  sequence : Nat := 0
  /-- End received. -/
  sealed : Bool := false
deriving DecidableEq

/-- `byId` holds each key once, in the order of the insertions. -/
structure RoundStateRegistry where
  byId : List (GameId × LiveRoundState) := []
  currentId : GameId := ""
  applied : Nat := 0
  ended : Nat := 0

namespace RoundStateRegistry

def get (r : RoundStateRegistry) (id : GameId) : Option LiveRoundState := (r.byId.find? (·.1 = id)).map (·.2)

/-- `by_id_[key] = st`. -/
def put (r : RoundStateRegistry) (key : GameId) (st : LiveRoundState) : RoundStateRegistry :=
  { r with
    byId :=
      if key ∈ r.byId.map (·.1) then r.byId.map fun e => if e.1 = key then (key, st) else e
      else r.byId ++ [(key, st)] }

/-- The key that an event stands for: progress without id attaches to current. -/
def keyOf (r : RoundStateRegistry) (ev : CrashEvent) : GameId :=
  let id := if ev.gameId ≠ "" then ev.gameId else ev.roundId
  if id = "" ∧ ev.kind = .progress then r.currentId else id

/-- Apply event; returns updated state if accepted. -/
def apply (r : RoundStateRegistry) (ev : CrashEvent) (now : TimestampMs) : RoundStateRegistry × Option LiveRoundState :=
  let key := r.keyOf ev
  if ¬ev.valid ∨ key = "" then (r, none)
  else
    let st : LiveRoundState :=
      { (r.get key).getD {} with gameId := key, updatedAtMs := now, sequence := ev.sequence }
    let accept (r : RoundStateRegistry) (st : LiveRoundState) : RoundStateRegistry × Option LiveRoundState :=
      ({ r.put key st with applied := r.applied + 1 }, some st)
    match ev.kind with
    | .prepare =>
      accept { r with currentId := key } { st with phase := .prepare, sealed := false, multiplier := 0, finalMult := 0 }
    | .start =>
      accept { r with currentId := key }
        { st with phase := .begin, beganAtMs := if ev.beganAtMs ≠ 0 then ev.beganAtMs else now, sealed := false }
    | .progress =>
      -- What is written before this look at the seal stays written.
      if st.sealed then (r.put key st, none)
      else
        accept r
          { st with phase := .progress, multiplier := if 0 < ev.currentMult then ev.currentMult else st.multiplier }
    | .end =>
      let finalMult := if 0 < ev.crashPoint then ev.crashPoint else ev.currentMult
      accept { r with ended := r.ended + 1 }
        { st with
          phase := .end
          finalMult
          multiplier := finalMult
          endedAtMs := if ev.endedAtMs ≠ 0 then ev.endedAtMs else now
          hash := if ev.hash ≠ "" then ev.hash else st.hash
          sealed := true }
    | _ => (r.put key st, none)

def size (r : RoundStateRegistry) : Nat := r.byId.length

/-- The round is older than `maxAgeMs` and sealed. -/
def Outdated (maxAgeMs now : TimestampMs) (st : LiveRoundState) : Prop :=
  st.sealed ∧ 0 < st.endedAtMs ∧ maxAgeMs < now - st.endedAtMs

instance (maxAgeMs now : TimestampMs) (st : LiveRoundState) : Decidable (Outdated maxAgeMs now st) :=
  inferInstanceAs (Decidable (_ ∧ _))

/-- Drop sealed rounds older than maxAgeMs. -/
def prune (r : RoundStateRegistry) (maxAgeMs now : TimestampMs) : RoundStateRegistry × Nat :=
  let dropped := r.byId.filter fun e => Outdated maxAgeMs now e.2
  ({ r with
      byId := r.byId.filter fun e => ¬Outdated maxAgeMs now e.2
      currentId := if r.currentId ∈ dropped.map (·.1) then "" else r.currentId },
    dropped.length)

/-! ### Rounds and keys -/

variable {r : RoundStateRegistry} {key : GameId} {st : LiveRoundState} {ev : CrashEvent} {now : TimestampMs}

theorem find?_replace_self {l : List (GameId × LiveRoundState)} (h : key ∈ l.map (·.1)) :
    ((l.map fun e => if e.1 = key then (key, st) else e).find? (·.1 = key)).map (·.2) = some st := by
  induction l with
  | nil => cases h
  | cons e l ih =>
    rw [List.map_cons]
    by_cases he : e.1 = key
    · rw [if_pos he, List.find?_cons_of_pos (by simp), Option.map_some]
    · rw [if_neg he, List.find?_cons_of_neg (by simpa using he)]
      exact ih (by simpa [Ne.symm he] using h)

theorem find?_replace_other {id : GameId} (hid : id ≠ key) (l : List (GameId × LiveRoundState)) :
    (l.map fun e => if e.1 = key then (key, st) else e).find? (·.1 = id) = l.find? (·.1 = id) := by
  induction l with
  | nil => rfl
  | cons e l ih =>
    rw [List.map_cons]
    by_cases he : e.1 = key
    · rw [if_pos he, List.find?_cons_of_neg (by simpa using hid.symm), ih,
        List.find?_cons_of_neg (by simpa [he] using hid.symm)]
    · rw [if_neg he]
      by_cases hi : e.1 = id
      · rw [List.find?_cons_of_pos (by simpa using hi), List.find?_cons_of_pos (by simpa using hi)]
      · rw [List.find?_cons_of_neg (by simpa using hi), List.find?_cons_of_neg (by simpa using hi), ih]

theorem get_put (id : GameId) : (r.put key st).get id = if id = key then some st else r.get id := by
  unfold put get
  dsimp only
  split
  · rename_i h
    by_cases hid : id = key
    · rw [if_pos hid, hid, find?_replace_self h]
    · rw [if_neg hid, find?_replace_other hid]
  · rename_i h
    rw [List.find?_append]
    by_cases hid : id = key
    · have absent : r.byId.find? (fun e => decide (e.1 = key)) = none :=
        List.find?_eq_none.mpr fun e he hk => h (List.mem_map.mpr ⟨e, he, of_decide_eq_true hk⟩)
      simp [hid, absent]
    · simp [hid, Ne.symm hid]

/-- An End seals its round. -/
theorem apply_end (r : RoundStateRegistry) (now : TimestampMs) (hv : ev.valid = true) (hk : ev.kind = .end) (hkey : r.keyOf ev ≠ "") :
    (r.apply ev now).1.currentId = r.currentId ∧ ∃ st, (r.apply ev now).1.get (r.keyOf ev) = some st ∧
      st.sealed = true ∧ st.finalMult = if 0 < ev.crashPoint then ev.crashPoint else ev.currentMult := by
  unfold apply
  simp only [hv, hkey, hk, not_true_eq_false, or_self, if_false]
  refine ⟨rfl, _, (get_put _).trans (if_pos rfl), rfl, rfl⟩

/-- Progress that belongs to no round is ignored. -/
theorem apply_of_no_key (hkey : r.keyOf ev = "") : r.apply ev now = (r, none) := by
  unfold apply
  exact if_pos (.inr hkey)

/-! ### What an event does -/

/-- The event stands for a round. -/
def Keyed (r : RoundStateRegistry) (ev : CrashEvent) : Prop := ev.valid = true ∧ r.keyOf ev ≠ ""

instance (r : RoundStateRegistry) (ev : CrashEvent) : Decidable (r.Keyed ev) := inferInstanceAs (Decidable (_ ∧ _))

def Sealed (r : RoundStateRegistry) (id : GameId) : Prop := ∃ st ∈ r.get id, st.sealed = true

instance (r : RoundStateRegistry) (id : GameId) : Decidable (r.Sealed id) := inferInstanceAs (Decidable (∃ st ∈ r.get id, _))

/-- Its round ignores the event: it is Progress after the End, or of a kind that has no phase. -/
def Ignores (r : RoundStateRegistry) (ev : CrashEvent) : Prop :=
  match ev.kind with
  | .prepare | .start | .end => False
  | .progress => r.Sealed (r.keyOf ev)
  | _ => True

instance (r : RoundStateRegistry) (ev : CrashEvent) : Decidable (r.Ignores ev) := by
  unfold Ignores
  split <;> infer_instance

/-- What every event writes to its round. -/
def stamped (r : RoundStateRegistry) (ev : CrashEvent) (now : TimestampMs) : LiveRoundState :=
  { (r.get (r.keyOf ev)).getD {} with gameId := r.keyOf ev, updatedAtMs := now, sequence := ev.sequence }

/-- The final multiplier that an End gives to its round. -/
def finalMult (ev : CrashEvent) : Double := if 0 < ev.crashPoint then ev.crashPoint else ev.currentMult

theorem sealed_stamped : (r.stamped ev now).sealed = true ↔ r.Sealed (r.keyOf ev) := by
  unfold stamped Sealed
  rcases r.get (r.keyOf ev) with _ | st
  · simp
  · simp

theorem apply_of_not_keyed (h : ¬r.Keyed ev) : r.apply ev now = (r, none) := by
  unfold apply
  refine if_pos ?_
  by_contra hc
  rw [not_or, not_not] at hc
  exact h hc

theorem guard_of_keyed (hk : r.Keyed ev) : ¬(¬ev.valid = true ∨ r.keyOf ev = "") :=
  not_or.mpr ⟨not_not_intro hk.1, hk.2⟩

theorem apply_of_ignores (hk : r.Keyed ev) (hi : r.Ignores ev) :
    r.apply ev now = (r.put (r.keyOf ev) (r.stamped ev now), none) := by
  unfold apply
  dsimp only
  rw [if_neg (guard_of_keyed hk)]
  unfold Ignores at hi
  cases hkind : ev.kind <;> rw [hkind] at hi <;> first | exact hi.elim | rfl | skip
  exact if_pos (sealed_stamped.mpr hi)

/-- What an accepted event makes of its round. -/
structure Accepted (r : RoundStateRegistry) (ev : CrashEvent) (st : LiveRoundState) : Prop where
  sealed : st.sealed = true ↔ ev.kind = .end
  final : ev.kind = .end → st.phase = .end ∧ st.finalMult = finalMult ev ∧ st.multiplier = finalMult ev

theorem apply_of_accepts (now : TimestampMs) (hk : r.Keyed ev) (hi : ¬r.Ignores ev) : ∃ st, Accepted r ev st ∧
    (r.apply ev now).2 = some st ∧ (r.apply ev now).1.byId = (r.put (r.keyOf ev) st).byId := by
  unfold apply
  dsimp only
  rw [if_neg (guard_of_keyed hk)]
  unfold Ignores at hi
  cases hkind : ev.kind <;> rw [hkind] at hi <;> first | exact absurd trivial hi | skip
  case progress =>
    have hstamped : ¬(r.stamped ev now).sealed = true := mt sealed_stamped.mp hi
    have hopen : ¬((r.get (r.keyOf ev)).getD {}).sealed = true := hstamped
    simp only [if_neg hopen]
    exact ⟨_, ⟨by simpa [hkind] using hopen, by simp [hkind]⟩, rfl, rfl⟩
  case start => exact ⟨_, ⟨by simp [hkind], by simp [hkind]⟩, rfl, rfl⟩
  case prepare => exact ⟨_, ⟨by simp [hkind], by simp [hkind]⟩, rfl, rfl⟩
  case «end» => exact ⟨_, ⟨by simp [hkind], fun _ => ⟨rfl, rfl, rfl⟩⟩, rfl, rfl⟩

end RoundStateRegistry

/-! ### Calls

Calls of a registry of rounds in any order (`ingestion/round_state.hpp`). -/

namespace RoundCalls

structure State where
  rounds : RoundStateRegistry := {}
  /-- Bookkeeping: the final multipliers of the rounds that an End has sealed, until `prune` drops them. -/
  sealedWith : GameId → Option Double := fun _ => none

/-- The calls, with the time that they read from the clock. -/
inductive Act
  | apply (ev : CrashEvent) (now : TimestampMs)
  | prune (maxAgeMs now : TimestampMs)

/-- A first End notes its multiplier. -/
def noteSeal (s : State) (ev : CrashEvent) : GameId → Option Double :=
  if s.rounds.Keyed ev ∧ ev.kind = .end ∧ s.sealedWith (s.rounds.keyOf ev) = none then
    Function.update s.sealedWith (s.rounds.keyOf ev) (some (RoundStateRegistry.finalMult ev))
  else s.sealedWith

def step (s : State) : Act → Option State
  | .apply ev now => some { rounds := (s.rounds.apply ev now).1, sealedWith := noteSeal s ev }
  | .prune maxAgeMs now =>
    let rounds := (s.rounds.prune maxAgeMs now).1
    some { rounds, sealedWith := fun id => if rounds.get id = none then none else s.sealedWith id }

/-- The call does not touch a seal: to a sealed round it applies no Prepare or Start, and no End with another
    multiplier. -/
def RespectsSeals (s : State) : Act → Prop
  | .apply ev _ => s.rounds.Keyed ev → ∀ st ∈ s.rounds.get (s.rounds.keyOf ev), st.sealed = true →
      ev.kind ≠ .prepare ∧ ev.kind ≠ .start ∧ (ev.kind = .end → RoundStateRegistry.finalMult ev = st.finalMult)
  | .prune _ _ => True

end RoundCalls
end CrashCore
