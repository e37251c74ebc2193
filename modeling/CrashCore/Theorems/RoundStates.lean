import CrashCore.Ingestion.RoundState
import Mathlib.Data.List.Nodup

/-! The registry of rounds after any calls: when sealed rounds stay sealed, which form it keeps, and which rejected events
leave it as it was. Progress is ignored after the End of a round, but a Prepare or a Start opens the round again, and
another End replaces the multiplier. -/

namespace CrashCore
namespace RoundCalls
open RoundStateRegistry Transition

variable {s t : State} {a : Act} {r : RoundStateRegistry} {id : GameId} {ev : CrashEvent} {now : TimestampMs}
  {maxAgeMs : TimestampMs} {key : GameId} {st : LiveRoundState}

/-- A round that an End has sealed is in its last phase, sealed, with the multiplier of that End. -/
def StaysSealed (s : State) : Prop :=
  ∀ id m, s.sealedWith id = some m →
    ∃ st ∈ s.rounds.get id, st.phase = .end ∧ st.sealed = true ∧ st.finalMult = m ∧ st.multiplier = m

/-! ### What a call does to a round -/

theorem get_apply_of_ignores (hk : r.Keyed ev) (hi : r.Ignores ev) (id : GameId) :
    (r.apply ev now).1.get id = if id = r.keyOf ev then some (r.stamped ev now) else r.get id := by
  rw [apply_of_ignores hk hi]
  exact get_put id

theorem get_apply_of_accepts (now : TimestampMs) (hk : r.Keyed ev) (hi : ¬r.Ignores ev) : ∃ st, Accepted r ev st ∧
    ∀ id, (r.apply ev now).1.get id = if id = r.keyOf ev then some st else r.get id := by
  obtain ⟨st, hst, -, hbyId⟩ := apply_of_accepts now hk hi
  refine ⟨st, hst, fun id => ?_⟩
  rw [RoundStateRegistry.get, hbyId]
  exact get_put id

/-- Other rounds are left alone. -/
theorem get_apply_of_ne (h : id ≠ r.keyOf ev) : (r.apply ev now).1.get id = r.get id := by
  by_cases hk : r.Keyed ev
  · by_cases hi : r.Ignores ev
    · rw [get_apply_of_ignores hk hi, if_neg h]
    · obtain ⟨st, -, hget⟩ := get_apply_of_accepts now hk hi
      rw [hget, if_neg h]
  · rw [apply_of_not_keyed hk]

/-- Each key stands once. -/
def Distinct (r : RoundStateRegistry) : Prop := (r.byId.map (·.1)).Nodup

theorem keys_put : (r.put key st).byId.map (·.1) =
    if key ∈ r.byId.map (·.1) then r.byId.map (·.1) else r.byId.map (·.1) ++ [key] := by
  unfold put
  dsimp only
  split
  · rw [List.map_map]
    refine List.map_congr_left fun e _ => ?_
    by_cases he : e.1 = key
    · simp [he]
    · simp [he]
  · rw [List.map_append, List.map_singleton]

theorem Distinct.put (h : Distinct r) : Distinct (r.put key st) := by
  rw [Distinct, keys_put]
  split
  · exact h
  · rename_i hnew
    rw [← List.concat_eq_append]
    exact List.Nodup.concat hnew h

theorem Distinct.apply (h : Distinct r) : Distinct (r.apply ev now).1 := by
  by_cases hk : r.Keyed ev
  · by_cases hi : r.Ignores ev
    · rw [apply_of_ignores hk hi]
      exact h.put
    · obtain ⟨st, -, -, hbyId⟩ := apply_of_accepts now hk hi
      rw [Distinct, hbyId]
      exact h.put
  · rwa [apply_of_not_keyed hk]

theorem Distinct.prune (h : Distinct r) : Distinct (r.prune maxAgeMs now).1 := h.sublist (List.filter_sublist.map _)

theorem find?_filter_of_nodup {l : List (GameId × LiveRoundState)} {p : GameId × LiveRoundState → Bool}
    (h : (l.map (·.1)).Nodup) (id : GameId) :
    (l.filter p).find? (·.1 = id) = (l.find? (·.1 = id)).filter p := by
  induction l with
  | nil => rfl
  | cons e l ih =>
    obtain ⟨hnew, hl⟩ := List.nodup_cons.mp h
    by_cases he : e.1 = id
    · have habsent : (l.filter p).find? (fun e => decide (e.1 = id)) = none := by
        refine List.find?_eq_none.mpr fun e' he' hid => hnew ?_
        have hsame : e'.1 = e.1 := (of_decide_eq_true hid).trans he.symm
        exact List.mem_map.mpr ⟨e', List.mem_of_mem_filter he', hsame⟩
      by_cases hp : p e = true
      · simp [Option.filter, hp, he]
      · simp [Option.filter, hp, he, habsent]
    · by_cases hp : p e = true
      · simp [hp, he, ih hl]
      · simp [hp, he, ih hl]

/-- `prune` keeps a round as it is or drops it. -/
theorem get_prune (h : Distinct r) (id : GameId) :
    (r.prune maxAgeMs now).1.get id = (r.get id).filter fun st => ¬Outdated maxAgeMs now st := by
  show ((r.byId.filter _).find? _).map _ = _
  rw [find?_filter_of_nodup h, RoundStateRegistry.get]
  cases r.byId.find? fun e => decide (e.1 = id) with
  | none => rfl
  | some e => simp [Option.filter]; split <;> simp

/-! ### The seals -/

/-- Of the states before a seal is touched. -/
structure Seals (s : State) : Prop where
  distinct : Distinct s.rounds
  stays : StaysSealed s
  noted : ∀ id, ∀ st ∈ s.rounds.get id, st.sealed = true → s.sealedWith id ≠ none

theorem noteSeal_of_ne (h : id ≠ s.rounds.keyOf ev) : noteSeal s ev id = s.sealedWith id := by
  unfold noteSeal
  split
  · exact Function.update_of_ne h ..
  · rfl

theorem noteSeal_of_kind (h : ev.kind ≠ .end) : noteSeal s ev = s.sealedWith := if_neg fun hc => h hc.2.1

theorem noteSeal_of_not_keyed (h : ¬s.rounds.Keyed ev) : noteSeal s ev = s.sealedWith := if_neg fun hc => h hc.1

/-- The multiplier that is noted for a round stays. -/
theorem noteSeal_of_some {m : Double} (h : s.sealedWith id = some m) : noteSeal s ev id = some m := by
  unfold noteSeal
  split
  · rename_i hc
    rw [Function.update_of_ne (fun heq => ?_), h]
    rw [← heq, h] at hc
    exact Option.some_ne_none m hc.2.2
  · exact h

theorem noteSeal_of_none (hk : s.rounds.Keyed ev) (hend : ev.kind = .end)
    (h : s.sealedWith (s.rounds.keyOf ev) = none) : noteSeal s ev (s.rounds.keyOf ev) = some (finalMult ev) := by
  rw [noteSeal, if_pos ⟨hk, hend, h⟩, Function.update_self]

theorem kind_of_ignores (h : r.Ignores ev) : ev.kind ≠ .end := by
  intro hend
  rw [Ignores, hend] at h
  exact h

/-- Only Progress can be accepted without a write to the seal, and not by a sealed round. -/
theorem kind_of_accepts (h : ¬r.Ignores ev) :
    ev.kind = .prepare ∨ ev.kind = .start ∨ ev.kind = .end ∨ ¬r.Sealed (r.keyOf ev) := by
  unfold Ignores at h
  cases hkind : ev.kind <;> rw [hkind] at h <;> simp_all

/-- An accepted event that respects the seals makes of its round what the noted multiplier says. -/
theorem Seals.accepted {m : Double} (h : Seals s) (hok : RespectsSeals s (.apply ev now)) (hk : s.rounds.Keyed ev)
    (hi : ¬s.rounds.Ignores ev) (hst : Accepted s.rounds ev st) (hm : noteSeal s ev (s.rounds.keyOf ev) = some m) :
    st.phase = .end ∧ st.sealed = true ∧ st.finalMult = m ∧ st.multiplier = m := by
  by_cases hend : ev.kind = .end
  · obtain ⟨hphase, hfinal, hmult⟩ := hst.final hend
    have hsame : finalMult ev = m := by
      rcases hnote : s.sealedWith (s.rounds.keyOf ev) with _ | m'
      · exact Option.some.inj ((noteSeal_of_none hk hend hnote).symm.trans hm)
      · obtain rfl : m' = m := Option.some.inj ((noteSeal_of_some hnote).symm.trans hm)
        obtain ⟨old, hold, -, hsealed, hm', -⟩ := h.stays _ m' hnote
        exact ((hok hk old hold hsealed).2.2 hend).trans hm'
    exact ⟨hphase, hst.sealed.mpr hend, hfinal.trans hsame, hmult.trans hsame⟩
  · rw [noteSeal_of_kind hend] at hm
    obtain ⟨old, hold, -, hsealed, -, -⟩ := h.stays _ m hm
    obtain ⟨hprepare, hstart, -⟩ := hok hk old hold hsealed
    rcases kind_of_accepts hi with hc | hc | hc | hc
    · exact absurd hc hprepare
    · exact absurd hc hstart
    · exact absurd hc hend
    · exact absurd ⟨old, hold, hsealed⟩ hc

theorem Seals.apply (h : Seals s) (hok : RespectsSeals s (.apply ev now))
    (hs : step s (.apply ev now) = some t) : Seals t := by
  cases hs
  by_cases hk : s.rounds.Keyed ev
  swap
  · simp only [apply_of_not_keyed hk, noteSeal_of_not_keyed hk]
    exact h
  refine ⟨h.distinct.apply, fun id m hm => ?_, fun id st hget hsealed => ?_⟩
  · by_cases hid : id = s.rounds.keyOf ev
    swap
    · rw [get_apply_of_ne hid]
      exact h.stays id m (noteSeal_of_ne hid ▸ hm)
    subst hid
    by_cases hi : s.rounds.Ignores ev
    · rw [noteSeal_of_kind (kind_of_ignores hi)] at hm
      obtain ⟨st, hst, hseal⟩ := h.stays _ m hm
      rw [get_apply_of_ignores hk hi, if_pos rfl, stamped, hst]
      exact ⟨_, rfl, hseal⟩
    · obtain ⟨st, hst, hget⟩ := get_apply_of_accepts now hk hi
      rw [hget, if_pos rfl]
      exact ⟨st, rfl, h.accepted hok hk hi hst hm⟩
  · show noteSeal s ev id ≠ none
    by_cases hid : id = s.rounds.keyOf ev
    swap
    · rw [get_apply_of_ne hid] at hget
      rw [noteSeal_of_ne hid]
      exact h.noted id st hget hsealed
    subst hid
    by_cases hi : s.rounds.Ignores ev
    · rw [get_apply_of_ignores hk hi, if_pos rfl] at hget
      cases hget
      obtain ⟨old, hold, hsealed⟩ := sealed_stamped.mp hsealed
      rw [noteSeal_of_kind (kind_of_ignores hi)]
      exact h.noted _ old hold hsealed
    · obtain ⟨st', hst, hget'⟩ := get_apply_of_accepts now hk hi
      rw [hget', if_pos rfl] at hget
      cases hget
      have hend : ev.kind = .end := hst.sealed.mp hsealed
      rcases hnote : s.sealedWith (s.rounds.keyOf ev) with _ | m
      · rw [noteSeal_of_none hk hend hnote]
        exact Option.some_ne_none _
      · rw [noteSeal_of_some hnote]
        exact Option.some_ne_none _

theorem Seals.prune (h : Seals s) (hs : step s (.prune maxAgeMs now) = some t) : Seals t := by
  cases hs
  refine ⟨h.distinct.prune, fun id m hm => ?_, fun id st hget hsealed => ?_⟩
  · dsimp only at hm ⊢
    rw [get_prune h.distinct] at hm ⊢
    split at hm
    · cases hm
    · rename_i hkept
      obtain ⟨st, hst, hseal⟩ := h.stays id m hm
      rw [hst] at hkept ⊢
      refine ⟨st, ?_, hseal⟩
      rw [Option.filter_some] at hkept ⊢
      split at hkept
      · rename_i hp
        exact if_pos hp
      · exact absurd rfl hkept
  · dsimp only at hget ⊢
    rw [if_neg (Option.ne_none_iff_exists'.mpr ⟨st, hget⟩)]
    rw [get_prune h.distinct] at hget
    exact h.noted id st (Option.mem_filter_iff.mp hget).1 hsealed

theorem Seals.step (s : State) (a : Act) (t : State) (h : Seals s) (hok : RespectsSeals s a)
    (hs : step s a = some t) : Seals t := by
  cases a with
  | apply ev now => exact h.apply hok hs
  | prune maxAgeMs now => exact h.prune hs

/-- A call that touches a seal leads to a round that is not as the seal says. -/
theorem Seals.respects (s : State) (a : Act) (t : State) (h : Seals s) (hs : RoundCalls.step s a = some t)
    (ht : StaysSealed t) : RespectsSeals s a := by
  cases a with
  | prune maxAgeMs now => exact trivial
  | apply ev now =>
    cases hs
    intro hk old hold hsealed
    obtain ⟨m, hm⟩ := Option.ne_none_iff_exists'.mp (h.noted _ old hold hsealed)
    obtain ⟨st, hget, -, hstill, hfinal, -⟩ := ht (s.rounds.keyOf ev) m (noteSeal_of_some hm)
    obtain ⟨old', hold', -, -, hm', -⟩ := h.stays _ m hm
    obtain rfl : old = old' := Option.some.inj (hold.symm.trans hold')
    by_cases hi : s.rounds.Ignores ev
    · rw [Ignores] at hi
      refine ⟨fun hc => ?_, fun hc => ?_, fun hc => ?_⟩ <;> rw [hc] at hi <;> exact hi.elim
    · obtain ⟨st', hst, hget'⟩ := get_apply_of_accepts now hk hi
      obtain rfl : st' = st := Option.some.inj ((if_pos rfl).symm.trans ((hget' _).symm.trans hget))
      have hend : ev.kind = .end := hst.sealed.mp hstill
      refine ⟨by simp [hend], by simp [hend], fun _ => ?_⟩
      rw [← (hst.final hend).2.1, hfinal, hm']

/-- In a run of calls each round stays sealed exactly if no call touches a seal. -/
theorem sealed_along_iff (as : List Act) :
    Along RoundCalls.step StaysSealed {} as ↔ Meets RoundCalls.step RespectsSeals {} as := by
  have hinit : Seals {} := ⟨List.nodup_nil, nofun, nofun⟩
  refine along_iff_meets (fun s h => h.stays) Seals.step Seals.respects hinit (run_ne_none (fun s a => ?_) as _)
  cases a <;> exact Option.some_ne_none _

/-- A Start that comes after the End. -/
theorem not_sealed_along_lateStart : ¬Along RoundCalls.step StaysSealed {}
    [.apply { kind := .end, gameId := "g", crashPoint := 2, valid := true } 1,
      .apply { kind := .start, gameId := "g", valid := true } 2] := by
  refine not_along_of_last rfl fun h => ?_
  obtain ⟨st, hget, hphase, -⟩ := h "g" 2 rfl
  cases hget
  cases hphase

end RoundCalls

/-! ### The form of the registry

Entries are made by the events themselves, Progress without an id goes to the current round, and `prune` may drop that
round. -/

namespace RoundCalls
open RoundStateRegistry Transition

variable {s t : State} {a : Act} {r : RoundStateRegistry} {id : GameId} {ev : CrashEvent} {now : TimestampMs}
  {maxAgeMs : TimestampMs} {key : GameId} {st : LiveRoundState}

/-- What an entry says of itself. -/
structure Fits (key : GameId) (st : LiveRoundState) : Prop where
  gameId : st.gameId = key
  «end» : st.sealed = true ↔ st.phase = .end
  final : st.sealed = true → st.multiplier = st.finalMult

structure WellFormed (r : RoundStateRegistry) : Prop where
  distinct : Distinct r
  current : r.currentId = "" ∨ r.currentId ∈ r.byId.map (·.1)
  entries : ∀ e ∈ r.byId, Fits e.1 e.2

/-- The sealed rounds whose end is older than the age. -/
def Old (maxAgeMs now : TimestampMs) (st : LiveRoundState) : Prop := st.sealed = true ∧ maxAgeMs < now - st.endedAtMs

/-- `prune` drops the entries with `p` and leaves all others as they are. -/
def PrunesExactly (p : LiveRoundState → Prop) (r : RoundStateRegistry) (maxAgeMs now : TimestampMs) : Prop :=
  ∀ id st, (r.prune maxAgeMs now).1.get id = some st ↔ r.get id = some st ∧ ¬p st

/-! ### What an event writes -/

theorem fits_of_get (h : WellFormed r) (hget : r.get id = some st) : Fits id st := by
  obtain ⟨e, he, rfl⟩ := Option.map_eq_some_iff.mp hget
  have hid : e.1 = id := by simpa using List.find?_some he
  exact hid ▸ h.entries e (List.mem_of_find?_eq_some he)

/-- The round of the event as it is before the event, but for what every event writes. -/
theorem fits_stamped (h : WellFormed r) : Fits (r.keyOf ev) (r.stamped ev now) := by
  unfold stamped
  rcases hget : r.get (r.keyOf ev) with _ | st
  · exact ⟨rfl, by simp, fun _ => rfl⟩
  · obtain ⟨-, hend, hfinal⟩ := fits_of_get h hget
    exact ⟨rfl, hend, hfinal⟩

/-- An event writes at most one round, its own, which is the current one after a Prepare or a Start. -/
theorem apply_writes (now : TimestampMs) (h : WellFormed r) (hk : r.Keyed ev) : ∃ st, Fits (r.keyOf ev) st ∧
    (r.apply ev now).1.byId = (r.put (r.keyOf ev) st).byId ∧
      ((r.apply ev now).1.currentId = r.currentId ∨ (r.apply ev now).1.currentId = r.keyOf ev) := by
  by_cases hi : r.Ignores ev
  · rw [apply_of_ignores hk hi]
    exact ⟨_, fits_stamped h, rfl, .inl rfl⟩
  unfold apply
  dsimp only
  rw [if_neg (guard_of_keyed hk)]
  unfold Ignores at hi
  cases hkind : ev.kind <;> rw [hkind] at hi <;> first | exact absurd trivial hi | skip
  case prepare => exact ⟨_, ⟨rfl, by simp, by simp⟩, rfl, .inr rfl⟩
  case start => exact ⟨_, ⟨rfl, by simp, by simp⟩, rfl, .inr rfl⟩
  case «end» => exact ⟨_, ⟨rfl, by simp, fun _ => rfl⟩, rfl, .inl rfl⟩
  case progress =>
    have hstamped : ¬(r.stamped ev now).sealed = true := mt sealed_stamped.mp hi
    have hopen : ¬((r.get (r.keyOf ev)).getD {}).sealed = true := hstamped
    simp only [if_neg hopen]
    refine ⟨_, ?_, rfl, .inl rfl⟩
    exact ⟨rfl, iff_of_false hopen nofun, fun hc => absurd hc hopen⟩

theorem mem_put {e : GameId × LiveRoundState} (he : e ∈ (r.put key st).byId) : e = (key, st) ∨ e ∈ r.byId := by
  unfold put at he
  dsimp only at he
  split at he
  · obtain ⟨e', he', rfl⟩ := List.mem_map.mp he
    split
    · exact .inl rfl
    · exact .inr he'
  · rcases List.mem_append.mp he with he | he
    · exact .inr he
    · exact .inl (List.mem_singleton.mp he)

theorem mem_keys_put : id ∈ (r.put key st).byId.map (·.1) ↔ id = key ∨ id ∈ r.byId.map (·.1) := by
  rw [keys_put]
  split
  · rename_i hkey
    exact ⟨.inr, fun h => h.elim (fun hid => hid ▸ hkey) fun hid => hid⟩
  · rw [List.mem_append, List.mem_singleton, or_comm]

/-! ### The calls -/

theorem WellFormed.apply (h : WellFormed r) : WellFormed (r.apply ev now).1 := by
  by_cases hk : r.Keyed ev
  swap
  · rwa [apply_of_not_keyed hk]
  obtain ⟨st, hst, hbyId, hcurrent⟩ := apply_writes now h hk
  refine ⟨h.distinct.apply, ?_, fun e he => ?_⟩
  · rw [hbyId, mem_keys_put]
    rcases hcurrent with hcurrent | hcurrent
    · exact h.current.imp (fun hc => hcurrent.trans hc) fun hc => .inr (hcurrent ▸ hc)
    · exact .inr (.inl hcurrent)
  · rw [hbyId] at he
    rcases mem_put he with rfl | he
    · exact hst
    · exact h.entries e he

/-- When the current round is dropped, no round is the current one. -/
theorem WellFormed.prune (h : WellFormed r) : WellFormed (r.prune maxAgeMs now).1 := by
  refine ⟨h.distinct.prune, ?_, fun e he => h.entries e (List.mem_of_mem_filter he)⟩
  show (if _ then "" else r.currentId) = "" ∨ (if _ then "" else r.currentId) ∈ _
  split
  · exact .inl rfl
  · rename_i hkept
    refine h.current.imp_right fun hc => ?_
    obtain ⟨e, he, hid⟩ := List.mem_map.mp hc
    refine List.mem_map.mpr ⟨e, List.mem_filter.mpr ⟨he, ?_⟩, hid⟩
    refine decide_eq_true fun hdropped => hkept (List.mem_map.mpr ⟨e, ?_, hid⟩)
    exact List.mem_filter.mpr ⟨he, decide_eq_true hdropped⟩

theorem wellFormed_empty : WellFormed {} where
  distinct := List.nodup_nil
  current := .inl rfl
  entries _ he := absurd he List.not_mem_nil

theorem WellFormed.step {a : Act} (h : WellFormed s.rounds) (hs : RoundCalls.step s a = some t) : WellFormed t.rounds := by
  cases a with
  | apply ev now =>
    cases hs
    exact h.apply
  | prune maxAgeMs now =>
    cases hs
    exact h.prune

theorem Reaches.wellFormed (hr : Reaches step anyStep {} s) : WellFormed s.rounds :=
  hr.invariant (P := fun s => WellFormed s.rounds) wellFormed_empty fun _ _ _ h _ hs => h.step hs

theorem prunesExactly (h : Distinct r) : PrunesExactly (Outdated maxAgeMs now) r maxAgeMs now := by
  intro id st
  rw [get_prune h, Option.filter_eq_some_iff]
  exact and_congr_right fun _ => decide_eq_true_iff

/-- After any calls the registry is well formed, and `prune` drops exactly the old sealed rounds whose end has a
    positive time. -/
theorem wellFormed_of_reaches (hr : Reaches step anyStep {} s) : WellFormed s.rounds ∧
    ∀ maxAgeMs now, PrunesExactly (fun st => Old maxAgeMs now st ∧ 0 < st.endedAtMs) s.rounds maxAgeMs now := by
  have hform := Reaches.wellFormed hr
  refine ⟨hform, fun maxAgeMs now id st => (prunesExactly hform.distinct id st).trans ?_⟩
  refine and_congr_right fun _ => not_congr ?_
  exact ⟨fun ⟨hsealed, hpos, hage⟩ => ⟨⟨hsealed, hage⟩, hpos⟩, fun ⟨⟨hsealed, hage⟩, hpos⟩ => ⟨hsealed, hpos, hage⟩⟩

theorem wellFormed_of_reaches_pruned : ∃ s, run step {}
      [.apply { kind := .end, gameId := "g", crashPoint := 2, valid := true } 5, .prune 1000 2000] = some s ∧
    WellFormed s.rounds := by
  have hr : Reaches step anyStep {} _ := Reaches.of_run (meets_anyStep
    [.apply { kind := .end, gameId := "g", crashPoint := 2, valid := true } 5, .prune 1000 2000] _) rfl
  exact ⟨_, rfl, (wellFormed_of_reaches hr).1⟩

/-- A round that ended before 1970 stays. -/
theorem not_prunesExactly_negative : ∃ s, run step {}
      [.apply { kind := .end, gameId := "g", crashPoint := 2, endedAtMs := -1000, valid := true } 5] = some s ∧
    ¬PrunesExactly (Old 60000 1700000000000) s.rounds 60000 1700000000000 := by
  refine ⟨_, rfl, fun h => ?_⟩
  obtain ⟨-, hkept⟩ := (h "g" _).mp rfl
  exact hkept ⟨rfl, by decide⟩

end RoundCalls

/-! ### Rejected events

A round gets the time and the sequence number of an event, and is created for it, before the event is looked at any
further. -/

namespace RoundStateRegistry

variable {r : RoundStateRegistry} {key : GameId} {st : LiveRoundState} {ev : CrashEvent} {now : TimestampMs}

/-- All that a registry tells is the same: its rounds with all their fields, the current one, and the counters. -/
structure Same (r r' : RoundStateRegistry) : Prop where
  rounds : ∀ id, r'.get id = r.get id
  size : r'.size = r.size
  currentId : r'.currentId = r.currentId
  applied : r'.applied = r.applied
  ended : r'.ended = r.ended

def RejectionChangesNothing (r : RoundStateRegistry) (ev : CrashEvent) (now : TimestampMs) : Prop :=
  (r.apply ev now).2 = none → r.Same (r.apply ev now).1

/-- The round has already the time and the sequence number that the event would write. -/
def HasStamp (r : RoundStateRegistry) (ev : CrashEvent) (now : TimestampMs) : Prop :=
  ∃ st ∈ r.get (r.keyOf ev), st.gameId = r.keyOf ev ∧ st.updatedAtMs = now ∧ st.sequence = ev.sequence

theorem Same.refl (r : RoundStateRegistry) : r.Same r := ⟨fun _ => rfl, rfl, rfl, rfl, rfl⟩

theorem get_isSome (r : RoundStateRegistry) (key : GameId) : (r.get key).isSome ↔ key ∈ r.byId.map (·.1) := by
  rw [get, Option.isSome_map, List.find?_isSome]
  simp

theorem size_put (h : (r.get key).isSome) : (r.put key st).size = r.size := by
  unfold size put
  dsimp only
  rw [if_pos ((r.get_isSome key).mp h), List.length_map]

/-- The stamp is all that the event would write. -/
theorem same_put_stamped : r.Same (r.put (r.keyOf ev) (r.stamped ev now)) ↔ r.HasStamp ev now := by
  constructor
  · intro h
    have hget : r.get (r.keyOf ev) = some (r.stamped ev now) := by
      rw [← h.rounds, get_put, if_pos rfl]
    exact ⟨_, hget, rfl, rfl, rfl⟩
  · rintro ⟨st, hget, hid, hnow, hseq⟩
    have hstamped : r.stamped ev now = st := by
      rw [stamped, hget, ← hid, ← hnow, ← hseq]
      rfl
    refine ⟨fun id => ?_, size_put (Option.isSome_of_mem hget), rfl, rfl, rfl⟩
    rw [get_put, hstamped]
    split
    · rename_i heq
      rw [heq, hget]
    · rfl

/-- An event that its round does not ignore is accepted, or is for no round; an ignored one leaves its stamp. -/
theorem rejectionChangesNothing_iff (r : RoundStateRegistry) (ev : CrashEvent) (now : TimestampMs) :
    r.RejectionChangesNothing ev now ↔ (r.Keyed ev → r.Ignores ev → r.HasStamp ev now) := by
  by_cases hk : r.Keyed ev
  · by_cases hi : r.Ignores ev
    · unfold RejectionChangesNothing
      rw [apply_of_ignores hk hi, same_put_stamped]
      exact ⟨fun h _ _ => h rfl, fun h _ => h hk hi⟩
    · obtain ⟨st, -, hsome, -⟩ := apply_of_accepts now hk hi
      refine iff_of_true (fun hnone => ?_) fun _ h => absurd h hi
      rw [hsome] at hnone
      cases hnone
  · refine iff_of_true (fun _ => ?_) fun h => absurd h hk
    rw [apply_of_not_keyed hk]
    exact Same.refl r

/-- Late Progress of a round that has ended. -/
theorem not_rejectionChangesNothing_late :
    ¬RejectionChangesNothing { byId := [("g", { gameId := "g", phase := .end, sequence := 1, sealed := true })] }
      { kind := .progress, gameId := "g", sequence := 2, valid := true } 0 := by
  intro h
  have hget := (h rfl).rounds "g"
  revert hget
  decide

end RoundStateRegistry
end CrashCore
