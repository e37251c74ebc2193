import CrashCore.Library.Firsts
import CrashCore.Validation.RegistryCalls

/-! The entries of a prediction registry and its index. The check for duplicates looks at the entries of
one round only, but the index has one round for each id: an id that is registered for a second round takes the place
of the first in the index. -/

namespace CrashCore
namespace PredictionRegistry

variable {r r' : PredictionRegistry} {ev e : PredictionEvent} {id : PredictionId}

def Pending (r : PredictionRegistry) (id : PredictionId) : Prop := ∃ e ∈ r.entries, e.predictionId = id

instance (r : PredictionRegistry) (id : PredictionId) : Decidable (r.Pending id) :=
  inferInstanceAs (Decidable (∃ e ∈ r.entries, _))

/-- Each id is pending at most once, and the index has exactly the pending ids, with their rounds. -/
structure Indexed (r : PredictionRegistry) : Prop where
  once : (r.entries.map (·.predictionId)).Nodup
  index : ∀ id roundId, r.byId id = some roundId ↔ ∃ e ∈ r.entries, e.predictionId = id ∧ e.targetRoundId = roundId

/-- The index agrees with the entries, there are no more than allowed, and an id is found exactly if it is pending. -/
structure WellIndexed (r : PredictionRegistry) : Prop extends Indexed r where
  size : r.entries.length ≤ r.maxEntries
  finds : ∀ id e, r.find id = some e ↔ e ∈ r.entries ∧ e.predictionId = id

theorem Indexed.find_eq_some (h : r.Indexed) : r.find id = some e ↔ e ∈ r.entries ∧ e.predictionId = id := by
  unfold find
  constructor
  · intro hfind
    rcases hid : r.byId id with _ | roundId <;> rw [hid] at hfind
    · cases hfind
    · have hmem := List.mem_of_find?_eq_some hfind
      exact ⟨(List.mem_filter.mp hmem).1, by simpa using List.find?_some hfind⟩
  · rintro ⟨he, rfl⟩
    rw [(h.index _ _).mpr ⟨e, he, rfl, rfl⟩]
    have hmem : e ∈ r.entries.filter (·.targetRoundId = e.targetRoundId) :=
      List.mem_filter.mpr ⟨he, decide_eq_true rfl⟩
    rcases hfind : (r.entries.filter (·.targetRoundId = e.targetRoundId)).find? (·.predictionId = e.predictionId) with
      _ | e'
    · exact absurd (List.find?_eq_none.mp hfind e hmem) (by simp)
    · have he' := (List.mem_filter.mp (List.mem_of_find?_eq_some hfind)).1
      have hid : e'.predictionId = e.predictionId := by simpa using List.find?_some hfind
      dsimp only
      rw [hfind, List.inj_on_of_nodup_map h.once he' he hid]

theorem Indexed.wellIndexed (h : r.Indexed) (hsize : r.entries.length ≤ r.maxEntries) : r.WellIndexed where
  toIndexed := h
  size := hsize
  finds _ _ := h.find_eq_some

/-! ### What is removed -/

theorem Indexed.remove (h : r.Indexed) {p : PredictionEvent → Prop} [DecidablePred p] (hr : r.Removes p r') :
    r'.Indexed where
  once := by
    rw [hr.entries]
    exact h.once.sublist (List.filter_sublist.map _)
  index id roundId := by
    rw [hr.index, hr.entries]
    split
    · rename_i hgone
      obtain ⟨e, he, rfl⟩ := hgone
      obtain ⟨he, hp⟩ := List.mem_filter.mp he
      refine iff_of_false (by simp) ?_
      rintro ⟨e', he', hid, -⟩
      obtain ⟨he', hp'⟩ := List.mem_filter.mp he'
      obtain rfl := List.inj_on_of_nodup_map h.once he' he hid
      exact of_decide_eq_true hp' (of_decide_eq_true hp)
    · rename_i hkept
      rw [h.index]
      constructor
      · rintro ⟨e, he, hid, hround⟩
        refine ⟨e, List.mem_filter.mpr ⟨he, decide_eq_true fun hp => hkept ?_⟩, hid, hround⟩
        exact ⟨e, List.mem_filter.mpr ⟨he, decide_eq_true hp⟩, hid⟩
      · rintro ⟨e, he, hid, hround⟩
        exact ⟨e, (List.mem_filter.mp he).1, hid, hround⟩

theorem Indexed.takeForRound (h : r.Indexed) (roundId : RoundId) : (r.takeForRound roundId).2.Indexed :=
  h.remove (r.takeForRound_removes roundId)

theorem Indexed.expireStale (h : r.Indexed) (maxAgeMs : Int) (now : TimestampMs) : (r.expireStale maxAgeMs now).Indexed :=
  h.remove (r.expireStale_removes maxAgeMs now)

/-- Whatever ids are dropped: exactly their entries go. -/
theorem Indexed.foldl_drop (h : r.Indexed) (ids : List PredictionId) :
    (ids.foldl drop r).Indexed ∧ (ids.foldl drop r).entries = r.entries.filter (¬·.predictionId ∈ ids) := by
  obtain ⟨hindex, hentries⟩ := PredictionRegistry.foldl_drop ids r
  have hkept : (ids.foldl drop r).entries = r.entries.filter (¬·.predictionId ∈ ids) := by
    rw [hentries]
    refine List.filter_congr fun e he => ?_
    have hat : r.byId e.predictionId = some e.targetRoundId := (h.index _ _).mpr ⟨e, he, rfl, rfl⟩
    simp [hat]
  have hremoves : r.Removes (·.predictionId ∈ ids) (ids.foldl drop r) := by
    refine ⟨hkept, fun id => ?_⟩
    rw [hindex]
    dsimp only
    by_cases hid : id ∈ ids
    · rw [if_pos hid]
      split
      · rfl
      · rename_i hnone
        rcases hat : r.byId id with _ | roundId
        · rfl
        · obtain ⟨e, he, rfl, -⟩ := (h.index _ _).mp hat
          exact absurd ⟨e, List.mem_filter.mpr ⟨he, decide_eq_true hid⟩, rfl⟩ hnone
    · rw [if_neg hid, if_neg]
      rintro ⟨e, he, rfl⟩
      exact hid (of_decide_eq_true (List.mem_filter.mp he).2)
  exact ⟨h.remove hremoves, hkept⟩

/-! ### Registrations -/

theorem Indexed.add (h : r.Indexed) (hfresh : ¬r.Pending ev.predictionId) : (r.add ev).Indexed where
  once := by
    show ((r.entries ++ [ev]).map (·.predictionId)).Nodup
    exact List.nodup_map_append_singleton h.once fun e he hid => hfresh ⟨e, he, hid⟩
  index id roundId := by
    show Function.update r.byId ev.predictionId (some ev.targetRoundId) id = _ ↔ ∃ e ∈ r.entries ++ [ev], _
    by_cases hid : id = ev.predictionId
    · subst hid
      rw [Function.update_self, Option.some.injEq]
      constructor
      · intro hround
        exact ⟨ev, List.mem_append_right _ (List.mem_singleton_self ev), rfl, hround⟩
      · rintro ⟨e, he, hid, hround⟩
        rcases List.mem_append.mp he with he | he
        · exact absurd ⟨e, he, hid⟩ hfresh
        · rwa [List.mem_singleton.mp he] at hround
    · rw [Function.update_of_ne hid, h.index]
      constructor
      · rintro ⟨e, he, hat⟩
        exact ⟨e, List.mem_append_left _ he, hat⟩
      · rintro ⟨e, he, hat⟩
        rcases List.mem_append.mp he with he | he
        · exact ⟨e, he, hat⟩
        · rw [List.mem_singleton.mp he] at hat
          exact absurd hat.1.symm hid

/-- The ids of the entries, in the order of `ages`. -/
def byAge (r : PredictionRegistry) : List PredictionId :=
  ((r.entries.map fun e => (e.createdAtMs, e.predictionId)).insertionSort Older).map (·.2)

theorem byAge_perm (r : PredictionRegistry) : r.byAge.Perm (r.entries.map (·.predictionId)) := by
  have hsort := (List.perm_insertionSort Older (r.entries.map fun e => (e.createdAtMs, e.predictionId))).map (·.2)
  rwa [List.map_map] at hsort

theorem surplus_eq (r : PredictionRegistry) : r.surplus = r.byAge.take (r.entries.length - r.maxEntries) := by
  rw [surplus, byAge, List.map_take]

/-- From distinct ids the first ones are taken away. -/
theorem length_filter_not_mem_take {ids : List PredictionId} (h : ids.Nodup) (n : Nat) :
    (ids.filter (¬· ∈ ids.take n)).length = ids.length - n := by
  have hsplit : (ids.take n ++ ids.drop n).Nodup := by rwa [List.take_append_drop]
  have hfilter : (ids.take n ++ ids.drop n).filter (¬· ∈ ids.take n) = ids.drop n := by
    rw [List.filter_append, List.filter_eq_nil_iff.mpr (by simp), List.nil_append, List.filter_eq_self]
    exact fun id hid => decide_eq_true fun htake => List.disjoint_of_nodup_append hsplit htake hid
  rw [List.take_append_drop] at hfilter
  rw [hfilter, List.length_drop]

theorem Indexed.size_of_prune (h : r.Indexed) : (r.surplus.foldl drop r).entries.length ≤ r.maxEntries := by
  have hids : (r.entries.filter (¬·.predictionId ∈ r.surplus)).length =
      (r.byAge.filter (¬· ∈ r.surplus)).length := by
    rw [((byAge_perm r).filter _).length_eq, List.filter_map, List.length_map]
    rfl
  have hlength : r.byAge.length = r.entries.length := by simpa using (byAge_perm r).length_eq
  rw [(h.foldl_drop r.surplus).2, hids, surplus_eq,
    length_filter_not_mem_take ((byAge_perm r).nodup_iff.mpr h.once), hlength]
  omega

theorem foldl_drop_maxEntries (ids : List PredictionId) (r : PredictionRegistry) :
    (ids.foldl drop r).maxEntries = r.maxEntries := by
  induction ids generalizing r with
  | nil => rfl
  | cons id ids ih =>
    rw [List.foldl_cons, ih]
    unfold drop
    split <;> rfl

/-- A prediction whose id is not pending leaves the registry well indexed. -/
theorem Indexed.register (h : r.Indexed) (hfresh : ¬r.Pending ev.predictionId) :
    ((r.add ev).surplus.foldl drop (r.add ev)).WellIndexed := by
  have hadd := h.add hfresh
  refine (hadd.foldl_drop _).1.wellIndexed ?_
  rw [foldl_drop_maxEntries]
  exact hadd.size_of_prune

/-- A prediction whose id is pending for another round makes the index forget that round. -/
theorem not_indexed_register (hlists : ¬r.Lists ev) (hpending : r.Pending ev.predictionId) :
    ¬((r.add ev).surplus.foldl drop (r.add ev)).Indexed := by
  obtain ⟨e, he, hid⟩ := hpending
  have hround : e.targetRoundId ≠ ev.targetRoundId := fun heq => hlists ⟨e, he, heq, hid⟩
  obtain ⟨hindex, hentries⟩ := PredictionRegistry.foldl_drop (r.add ev).surplus (r.add ev)
  have hat : (r.add ev).byId ev.predictionId = some ev.targetRoundId := Function.update_self ..
  intro h
  have hkept : e ∈ ((r.add ev).surplus.foldl drop (r.add ev)).entries := by
    rw [hentries, List.mem_filter]
    refine ⟨List.mem_append_left _ he, decide_eq_true fun hgone => hround ?_⟩
    rw [hid, hat] at hgone
    exact (Option.some.inj hgone.2).symm
  have hnow := (h.index ev.predictionId e.targetRoundId).mpr ⟨e, hkept, hid, rfl⟩
  rw [hindex] at hnow
  dsimp only at hnow
  split at hnow
  · cases hnow
  · rw [hat] at hnow
    exact hround (Option.some.inj hnow).symm

end PredictionRegistry

/-! ### Runs -/

namespace RegistryCalls
open Transition

variable {s t : State} {a : Act} {maxEntries : Nat}

/-- An accepted prediction has an id that is not pending, for whatever round. -/
def FreshId (s : State) : Act → Prop
  | .registerPrediction ev => s.registry.Accepts ev → ¬s.registry.Pending ev.predictionId
  | _ => True

instance (s : State) (a : Act) : Decidable (FreshId s a) := by
  unfold FreshId
  split <;> infer_instance

theorem wellIndexed_initial : (initial maxEntries).registry.WellIndexed :=
  PredictionRegistry.Indexed.wellIndexed ⟨List.nodup_nil, by simp [initial]⟩ (Nat.zero_le _)

theorem wellIndexed_step (h : s.registry.WellIndexed) (hs : step s a = some t) : t.registry.WellIndexed ↔ FreshId s a := by
  cases a with
  | registerPrediction ev =>
    obtain ⟨haccepts, heq⟩ | ⟨hno, duplicates, heq⟩ := step_registerPrediction s ev <;> rw [heq] at hs <;> cases hs
    · constructor
      · exact fun ht _ hpending => PredictionRegistry.not_indexed_register haccepts.2 hpending ht.toIndexed
      · exact fun hfresh => h.toIndexed.register (hfresh haccepts)
    · have hkept : ({ s.registry with duplicates } : PredictionRegistry).WellIndexed :=
        PredictionRegistry.Indexed.wellIndexed ⟨h.once, h.index⟩ h.size
      exact iff_of_true hkept fun haccepts => absurd haccepts hno
  | takeForRound roundId =>
    cases hs
    exact iff_of_true ((h.takeForRound roundId).wellIndexed ((List.length_filter_le _ _).trans h.size)) trivial
  | expireStale maxAgeMs now =>
    cases hs
    exact iff_of_true ((h.expireStale maxAgeMs now).wellIndexed ((List.length_filter_le _ _).trans h.size)) trivial

/-- From a new registry on, index, entries and size agree in every state of a run exactly if no id is registered that
    is pending for another round. -/
theorem wellIndexed_along_iff (maxEntries : Nat) (as : List Act) :
    Along step (·.registry.WellIndexed) (initial maxEntries) as ↔ Meets step FreshId (initial maxEntries) as :=
  along_iff_meets_of_total step_ne_none (fun _ _ _ => wellIndexed_step) wellIndexed_initial as

/-- One id for two rounds. -/
def twoRounds : List Act :=
  [.registerPrediction { predictionId := "p", targetRoundId := "r1" },
    .registerPrediction { predictionId := "p", targetRoundId := "r2" }]

theorem not_wellIndexed_along_twoRounds : ¬Along step (·.registry.WellIndexed) (initial 10000) twoRounds :=
  not_along_of_last rfl fun h => absurd h.once (by decide)

end RegistryCalls

/-! ### Conservation

Every registered prediction is pending, taken, expired or pruned, and counted there once. The index may miss an
entry, but what it has is there: so each id that the loop of `pruneIfNeeded` finds in it costs one entry. -/

namespace PredictionRegistry

variable {r r' : PredictionRegistry} {ev : PredictionEvent} {id : PredictionId}

/-- The round and the id that an entry is listed under. -/
def place (e : PredictionEvent) : RoundId × PredictionId := (e.targetRoundId, e.predictionId)

/-- In each round an id is listed once, and the index has listed ids only. -/
structure Listed (r : PredictionRegistry) : Prop where
  once : (r.entries.map place).Nodup
  indexed : ∀ id roundId, r.byId id = some roundId → (roundId, id) ∈ r.entries.map place

/-! ### What is removed -/

theorem Listed.remove (h : r.Listed) {p : PredictionEvent → Prop} [DecidablePred p] (hr : r.Removes p r') :
    r'.Listed where
  once := by
    rw [hr.entries]
    exact h.once.sublist (List.filter_sublist.map _)
  indexed id roundId hat := by
    rw [hr.index] at hat
    split at hat
    · cases hat
    · rename_i hkept
      obtain ⟨e, he, heq⟩ := List.mem_map.mp (h.indexed id roundId hat)
      rw [hr.entries]
      refine List.mem_map.mpr ⟨e, List.mem_filter.mpr ⟨he, decide_eq_true fun hp => hkept ?_⟩, heq⟩
      exact ⟨e, List.mem_filter.mpr ⟨he, decide_eq_true hp⟩, (Prod.mk.inj heq).2⟩

theorem Listed.takeForRound (h : r.Listed) (roundId : RoundId) : (r.takeForRound roundId).2.Listed :=
  h.remove (r.takeForRound_removes roundId)

theorem Listed.expireStale (h : r.Listed) (maxAgeMs : Int) (now : TimestampMs) : (r.expireStale maxAgeMs now).Listed :=
  h.remove (r.expireStale_removes maxAgeMs now)

theorem expireStale_perm (r : PredictionRegistry) (maxAgeMs : Int) (now : TimestampMs) :
    (r.stale maxAgeMs now ++ (r.expireStale maxAgeMs now).entries).Perm r.entries := by
  simpa only [stale, PredictionRegistry.expireStale, decide_not] using
    List.filter_append_perm (fun e => decide (maxAgeMs < now - e.createdAtMs)) r.entries

/-! ### Pruning -/

/-- One entry is listed under each place. -/
theorem length_filter_place {entries : List PredictionEvent} {roundId : RoundId} (h : (entries.map place).Nodup)
    (hmem : (roundId, id) ∈ entries.map place) :
    (entries.filter fun e => e.targetRoundId = roundId ∧ e.predictionId = id).length = 1 := by
  have hplace : (entries.filter fun e => e.targetRoundId = roundId ∧ e.predictionId = id) =
      entries.filter fun e => place e = (roundId, id) := by
    refine List.filter_congr fun e _ => ?_
    simp [place]
  have hcount : (entries.map place).count (roundId, id) = 1 := List.count_eq_one_of_mem h hmem
  rw [List.count, List.countP_map, List.countP_eq_length_filter] at hcount
  rw [hplace, ← hcount]
  exact congrArg List.length (List.filter_congr fun e _ => (beq_eq_decide _ _).symm)

theorem drop_perm (r : PredictionRegistry) (id : PredictionId) :
    (r.dropped id ++ (r.drop id).entries).Perm r.entries := by
  unfold dropped drop
  rcases r.byId id with _ | roundId
  · exact List.Perm.refl _
  · simpa using
      List.filter_append_perm (fun e => decide (e.targetRoundId = roundId ∧ e.predictionId = id)) r.entries

theorem Listed.drop_removes (h : r.Listed) {roundId : RoundId} (hid : r.byId id = some roundId) :
    r.Removes (fun e => e.targetRoundId = roundId ∧ e.predictionId = id) (r.drop id) := by
  refine ⟨by simp [PredictionRegistry.drop, hid], fun id' => ?_⟩
  simp only [PredictionRegistry.drop, hid]
  by_cases heq : id' = id
  · subst heq
    obtain ⟨e, he, hplace⟩ := List.mem_map.mp (h.indexed id' roundId hid)
    obtain ⟨hround, hid'⟩ := Prod.mk.inj hplace
    rw [Function.update_self, if_pos]
    exact ⟨e, List.mem_filter.mpr ⟨he, decide_eq_true ⟨hround, hid'⟩⟩, hid'⟩
  · rw [Function.update_of_ne heq, if_neg]
    rintro ⟨e, he, hid'⟩
    exact heq (hid'.symm.trans (of_decide_eq_true (List.mem_filter.mp he).2).2)

theorem Listed.drop (h : r.Listed) (id : PredictionId) : (r.drop id).Listed := by
  rcases hid : r.byId id with _ | roundId
  · rwa [show r.drop id = r by simp [PredictionRegistry.drop, hid]]
  · exact h.remove (h.drop_removes hid)

/-- The loop counts what it erases. -/
theorem Listed.drop_pruned (h : r.Listed) (id : PredictionId) :
    (r.drop id).pruned = r.pruned + (r.dropped id).length := by
  unfold dropped PredictionRegistry.drop
  rcases hid : r.byId id with _ | roundId
  · rfl
  · exact congrArg (r.pruned + ·) (length_filter_place h.once (h.indexed id roundId hid)).symm

theorem drop_registered (r : PredictionRegistry) (id : PredictionId) : (r.drop id).registered = r.registered := by
  unfold PredictionRegistry.drop
  split <;> rfl

/-- A registry after a number of ids were dropped. -/
structure DropsTo (r : PredictionRegistry) (gone : List PredictionEvent) (r' : PredictionRegistry) : Prop where
  listed : r'.Listed
  entries : (gone ++ r'.entries).Perm r.entries
  pruned : r'.pruned = r.pruned + gone.length
  registered : r'.registered = r.registered

theorem Listed.dropsTo : ∀ (ids : List PredictionId) {r : PredictionRegistry}, r.Listed →
    r.DropsTo (r.droppedBy ids) (ids.foldl PredictionRegistry.drop r)
  | [], _, h => ⟨h, List.Perm.refl _, rfl, rfl⟩
  | id :: ids, r, h => by
    obtain ⟨hlisted, hentries, hpruned, hregistered⟩ := Listed.dropsTo ids (h.drop id)
    refine ⟨hlisted, ?_, ?_, hregistered.trans (r.drop_registered id)⟩
    · rw [droppedBy, List.append_assoc]
      exact (hentries.append_left _).trans (r.drop_perm id)
    · rw [droppedBy, List.length_append, List.foldl_cons, hpruned, h.drop_pruned, Nat.add_assoc]

theorem Listed.add (h : r.Listed) (hlists : ¬r.Lists ev) : (r.add ev).Listed where
  once := by
    show ((r.entries ++ [ev]).map place).Nodup
    refine List.nodup_map_append_singleton h.once fun e he heq => ?_
    obtain ⟨hround, hid⟩ := Prod.mk.inj heq
    exact hlists ⟨e, he, hround, hid⟩
  indexed id roundId hat := by
    show (roundId, id) ∈ (r.entries ++ [ev]).map place
    rw [List.map_append, List.mem_append]
    change Function.update r.byId ev.predictionId (some ev.targetRoundId) id = some roundId at hat
    by_cases hid : id = ev.predictionId
    · rw [hid, Function.update_self] at hat
      exact Or.inr (List.mem_singleton.mpr (by rw [place, hid, Option.some.inj hat]))
    · rw [Function.update_of_ne hid] at hat
      exact Or.inl (h.indexed id roundId hat)

end PredictionRegistry

/-! ### Runs -/

namespace RegistryCalls
open Transition

variable {s t : State} {a : Act}

/-- The registered predictions are those that are pending, taken, expired or pruned, and the counters say so. -/
structure Conserved (s : State) : Prop where
  predictions : s.accepted.Perm (s.registry.entries ++ (s.taken ++ (s.expired ++ s.pruned)))
  counters : s.registry.registered =
    s.registry.entries.length + s.taken.length + s.expired.length + s.registry.pruned

structure Ledger (s : State) : Prop where
  listed : s.registry.Listed
  predictions : s.accepted.Perm (s.registry.entries ++ (s.taken ++ (s.expired ++ s.pruned)))
  registered : s.registry.registered = s.accepted.length
  pruned : s.registry.pruned = s.pruned.length

theorem Ledger.conserved (h : Ledger s) : Conserved s where
  predictions := h.predictions
  counters := by
    have hlength := h.predictions.length_eq
    simp only [List.length_append] at hlength
    rw [h.registered, h.pruned]
    omega

theorem perm_append_move (a b c : List PredictionEvent) : ((a ++ b) ++ c).Perm ((a ++ c) ++ b) := by
  rw [List.append_assoc, List.append_assoc]
  exact List.perm_append_comm.append_left a

/-- What is gone from the entries has been added to the rest. -/
theorem perm_of_moved {accepted entries entries' gone rest rest' : List PredictionEvent}
    (h : accepted.Perm (entries ++ rest)) (hgone : (gone ++ entries').Perm entries)
    (hrest : (rest ++ gone).Perm rest') : accepted.Perm (entries' ++ rest') :=
  calc List.Perm accepted (entries ++ rest) := h
    List.Perm _ ((gone ++ entries') ++ rest) := hgone.symm.append_right rest
    _ = gone ++ (entries' ++ rest) := List.append_assoc ..
    List.Perm _ ((entries' ++ rest) ++ gone) := List.perm_append_comm
    _ = entries' ++ (rest ++ gone) := List.append_assoc ..
    List.Perm _ (entries' ++ rest') := hrest.append_left entries'

theorem ledger_initial (maxEntries : Nat) : Ledger (initial maxEntries) where
  listed := ⟨List.nodup_nil, fun _ _ h => by cases h⟩
  predictions := List.Perm.refl _
  registered := rfl
  pruned := rfl

theorem ledger_step (h : Ledger s) (hs : step s a = some t) : Ledger t := by
  cases a with
  | registerPrediction ev =>
    obtain ⟨haccepts, heq⟩ | ⟨hno, duplicates, heq⟩ := step_registerPrediction s ev <;> rw [heq] at hs <;> cases hs
    · obtain ⟨hlisted, hentries, hpruned, hregistered⟩ :=
        PredictionRegistry.Listed.dropsTo (s.registry.add ev).surplus (h.listed.add haccepts.2)
      refine ⟨hlisted, ?_, ?_, ?_⟩
      · have hadded : (s.accepted ++ [ev]).Perm
            ((s.registry.add ev).entries ++ (s.taken ++ (s.expired ++ s.pruned))) :=
          (h.predictions.append_right [ev]).trans (perm_append_move _ _ _)
        exact perm_of_moved hadded hentries (by simp only [List.append_assoc, List.Perm.refl])
      · rw [List.length_append]
        exact hregistered.trans (congrArg (· + 1) h.registered)
      · rw [List.length_append, hpruned]
        exact congrArg (· + _) h.pruned
    · exact ⟨⟨h.listed.once, h.listed.indexed⟩, h.predictions, h.registered, h.pruned⟩
  | takeForRound roundId =>
    cases hs
    refine ⟨h.listed.takeForRound roundId, ?_, h.registered, h.pruned⟩
    exact perm_of_moved h.predictions (s.registry.takeForRound_perm roundId) (perm_append_move _ _ _)
  | expireStale maxAgeMs now =>
    cases hs
    refine ⟨h.listed.expireStale maxAgeMs now, ?_, h.registered, h.pruned⟩
    refine perm_of_moved h.predictions (s.registry.expireStale_perm maxAgeMs now) ?_
    rw [List.append_assoc]
    exact (perm_append_move _ _ _).append_left s.taken

/-- In every run of the calls of a new registry nothing is lost and nothing counted twice. -/
theorem registry_conserved_along (maxEntries : Nat) (as : List Act) : Along step Conserved (initial maxEntries) as :=
  Along.of_invariant (fun _ => Ledger.conserved) (fun _ _ _ => ledger_step) (ledger_initial maxEntries)

end RegistryCalls
end CrashCore
