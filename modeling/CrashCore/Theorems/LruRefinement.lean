import CrashCore.Ingestion.EventRouter
import CrashCore.Observability.RecentRoundCache

/-! The cache of recent rounds and the memory for duplicates of the router are maps that forget what was used least
recently: no call of theirs meets a node that is gone, and the list and the map stay in bijection. -/

namespace CrashCore

/-! ### The cache of recent rounds -/

namespace RoundCacheNodes
variable {c : RoundCacheNodes} {l : List CachedRound}

/-- The nodes hold the rounds of the list. -/
structure Represents (c : RoundCacheNodes) (l : List CachedRound) : Prop where
  linked : c.nodes.Linked (·.gameId)
  values : c.nodes.values = l
  bounded : l.length ≤ c.capacity

theorem represents_new (capacity : Nat) : Represents { capacity } [] :=
  ⟨⟨⟨.refl _, List.nodup_nil, List.nodup_nil⟩, nofun⟩, rfl, Nat.zero_le _⟩

theorem Represents.size (h : c.Represents l) : c.size = l.length := by
  rw [RoundCacheNodes.size, h.linked.bijective.length, ← h.values, LinkedMap.values, List.length_map]

theorem put_eq (h : c.Represents l) (r : CachedRound) (now : TimestampMs) :
    ∃ nodes, c.put r now = some { c with nodes } ∧
      Represents { c with nodes } (Lru.put (·.gameId) c.capacity l (stamped r now)) := by
  obtain ⟨hlinked, rfl, hbounded⟩ := h
  rw [put]
  rcases hf : c.nodes.find (stamped r now).gameId with _ | it
  · obtain ⟨nodes, hevict, hl, hv⟩ := (hlinked.insert hf).evict c.capacity
    rw [LinkedMap.values_insert, ← Lru.put_of_new (hlinked.find_eq_none.mp hf)] at hv
    refine ⟨nodes, ?_, hl, hv, Lru.length_put_le⟩
    simp [LinkedMap.last_pushBack, hlinked.deref_pushBack, hevict]
  · obtain ⟨v, rest, hkey, hm⟩ := hlinked.moves hf
    have hmem : (stamped r now).gameId ∈ c.nodes.values.map (·.gameId) := by
      rw [← hkey]
      exact List.mem_map_of_mem (Lru.mem_of_peek hm.found).1
    have hput := Lru.put_of_mem hbounded hmem
    refine ⟨{ c.nodes with order := rest ++ [(it, stamped r now)] }, ?_, hm.linked _ hkey.symm, ?_, Lru.length_put_le⟩
    · simp [hm.splice, LinkedMap.assign_last hm.others]
    · rw [hput, hm.touched _ hkey.symm]

theorem get_eq (h : c.Represents l) (gameId : GameId) :
    ∃ nodes, c.get gameId = some ((Lru.get (·.gameId) l gameId).1, { c with nodes }) ∧
      Represents { c with nodes } (Lru.get (·.gameId) l gameId).2 := by
  obtain ⟨hlinked, rfl, hbounded⟩ := h
  rw [get]
  rcases hf : c.nodes.find gameId with _ | it
  · have hnone : Lru.peek (·.gameId) c.nodes.values gameId = none := Lru.peek_eq_none.mpr (hlinked.find_eq_none.mp hf)
    refine ⟨c.nodes, ?_, ?_⟩
    · rw [Lru.get, hnone]
    · rw [Lru.get, hnone]
      exact ⟨hlinked, rfl, hbounded⟩
  · obtain ⟨v, rest, rfl, hm⟩ := hlinked.moves hf
    refine ⟨{ c.nodes with order := rest ++ [(it, v)] }, ?_, ?_⟩
    · rw [Lru.get, hm.found]
      simp [hm.splice, LinkedMap.deref_last hm.others]
    · rw [Lru.get, hm.found]
      refine ⟨hm.linked v rfl, hm.touched v rfl, ?_⟩
      exact Nat.le_trans (Lru.length_touch_le (List.mem_map_of_mem (Lru.mem_of_peek hm.found).1)) hbounded

theorem contains_eq (h : c.Represents l) (gameId : GameId) : c.contains gameId = Lru.contains (·.gameId) l gameId := by
  obtain ⟨hlinked, rfl, -⟩ := h
  rw [Bool.eq_iff_iff, contains, Lru.contains, Option.isSome_iff_ne_none, Option.isSome_iff_ne_none, Ne,
    hlinked.find_eq_none, Ne, Lru.peek_eq_none]

/-- Each call answers as the reference does. -/
theorem call_eq (h : c.Represents l) (a : Call) : ∃ nodes,
    c.call a = some ((lruCall c.capacity l a).1, { c with nodes }) ∧
    Represents { c with nodes } (lruCall c.capacity l a).2 := by
  cases a with
  | put r now =>
    obtain ⟨nodes, hput, hrep⟩ := put_eq h r now
    exact ⟨nodes, by rw [call, hput]; rfl, hrep⟩
  | get gameId =>
    obtain ⟨nodes, hget, hrep⟩ := get_eq h gameId
    exact ⟨nodes, by rw [call, hget]; rfl, hrep⟩
  | contains gameId => exact ⟨c.nodes, by rw [call, contains_eq h]; rfl, h⟩
  | size => exact ⟨c.nodes, by rw [call, h.size]; rfl, h⟩
  | clear => exact ⟨_, rfl, ⟨⟨.refl _, List.nodup_nil, List.nodup_nil⟩, nofun⟩, rfl, Nat.zero_le _⟩

theorem answers_eq : ∀ (calls : List Call) {c : RoundCacheNodes} {l : List CachedRound}, c.Represents l → ∃ nodes,
    c.answers calls = some ((lruAnswers c.capacity l calls).1, { c with nodes }) ∧
    Represents { c with nodes } (lruAnswers c.capacity l calls).2
  | [], c, _, h => ⟨c.nodes, rfl, h⟩
  | a :: calls, c, l, h => by
    obtain ⟨nodes, hcall, hrep⟩ := call_eq h a
    obtain ⟨nodes', hrest, hrep'⟩ := answers_eq calls hrep
    refine ⟨nodes', ?_, hrep'⟩
    simp only [answers, hcall, hrest, lruAnswers, Option.bind_eq_bind, Option.bind_some, Option.pure_def]

/-- After the calls, the answers were those of the reference and the cache has its rounds. -/
def RefinesLru (capacity : Nat) (calls : List Call) : Prop :=
  ∃ c, answers { capacity } calls = some ((lruAnswers capacity [] calls).1, c) ∧
    c.nodes.values = (lruAnswers capacity [] calls).2 ∧
    LinkedMap.Bijective (·.gameId) c.nodes.order c.nodes.map ∧ c.size ≤ capacity

theorem refinesLru (capacity : Nat) (calls : List Call) : RefinesLru capacity calls := by
  obtain ⟨nodes, hanswers, hrep⟩ := answers_eq calls (represents_new capacity)
  exact ⟨_, hanswers, hrep.values, hrep.linked.bijective, hrep.size ▸ hrep.bounded⟩

end RoundCacheNodes

/-! ### The memory for duplicates -/

namespace SeenNodes
variable {seen : SeenNodes} {ks : List String} {k : String}

/-- The nodes hold the most recent of the keys. -/
structure Represents (seen : SeenNodes) (ks : List String) : Prop where
  linked : seen.Linked id
  values : seen.values = Lru.recent EventRouter.maxSeen ks

theorem represents_new : Represents {} [] :=
  ⟨⟨⟨.refl _, List.nodup_nil, List.nodup_nil⟩, nofun⟩, rfl⟩

theorem note_eq (h : seen.Represents ks) (k : String) :
    ∃ known seen', seen.note k = some (known, seen') ∧ seen'.Represents (ks ++ [k]) ∧
      (known = true ↔ k ∈ Lru.recent EventRouter.maxSeen ks) := by
  obtain ⟨hlinked, hvalues⟩ := h
  have hnone : seen.find k = none ↔ k ∉ Lru.recent EventRouter.maxSeen ks := by
    rw [hlinked.find_eq_none, List.map_id, hvalues]
  rw [note]
  rcases hf : seen.find k with _ | it
  · obtain ⟨seen', hevict, hl, hv⟩ := (hlinked.insert (v := k) hf).evict EventRouter.maxSeen
    have hnew : k ∉ seen.values.map id := hlinked.find_eq_none.mp hf
    rw [LinkedMap.values_insert, ← Lru.put_of_new (v := k) hnew, hvalues, Lru.put_recent] at hv
    have hevict' : (LinkedMap.bind (seen.pushBack k) k seen.next).evict id EventRouter.maxSeen = some seen' := hevict
    refine ⟨false, seen', ?_, ⟨hl, hv⟩, ?_⟩
    · simp [LinkedMap.last_pushBack, hevict']
    · simpa using hnone.mp hf
  · obtain ⟨v, rest, rfl, hm⟩ := hlinked.moves hf
    have hmem : v ∈ seen.values := (Lru.mem_of_peek hm.found).1
    refine ⟨true, _, by simp [hm.splice], ⟨hm.linked v rfl, ?_⟩, ?_⟩
    · have hle : seen.values.length ≤ EventRouter.maxSeen := hvalues ▸ Lru.length_recent_le _ _
      rw [hm.touched v rfl, ← Lru.put_of_mem hle (by rwa [List.map_id]), hvalues]
      exact Lru.put_recent _ _ _
    · exact ⟨fun _ => hvalues ▸ hmem, fun _ => rfl⟩

theorem noteAll_eq : ∀ (ks : List String) {seen : SeenNodes} {before : List String}, seen.Represents before →
    ∃ seen', seen.noteAll ks = some seen' ∧ seen'.Represents (before ++ ks)
  | [], seen, before, h => ⟨seen, rfl, by rwa [List.append_nil]⟩
  | k :: ks, seen, before, h => by
    obtain ⟨known, seen', hnote, hrep, -⟩ := note_eq h k
    obtain ⟨seen'', hall, hrep'⟩ := noteAll_eq ks hrep
    refine ⟨seen'', ?_, by rwa [List.append_assoc] at hrep'⟩
    simp [noteAll, hnote, hall]

end SeenNodes

/-! ### The router -/

namespace EventRouter
variable {r : EventRouter} {ev : CrashEvent} {t0 : Int}

/-- The keys after an event was noted. -/
theorem noteSeen_seenOrder (hid : ev.gameId ≠ "") (hl : r.seenOrder.length ≤ maxSeen) (hn : r.seenOrder.Nodup) :
    (r.noteSeen ev).1.seenOrder = Lru.put id maxSeen r.seenOrder (dedupeKey ev) := by
  rw [noteSeen, if_neg hid]
  split
  · rename_i hmem
    have htouch : r.seenOrder.erase (dedupeKey ev) ++ [dedupeKey ev] = Lru.touch id r.seenOrder (dedupeKey ev) := by
      rw [hn.erase_eq_filter, Lru.touch]
      congr 1
      exact List.filter_congr fun x _ => by rw [bne, beq_eq_decide, id, id, decide_not]
    rw [Lru.put_of_mem hl (by rwa [List.map_id]), ← htouch]
  · rename_i hmem
    exact (Lru.put_of_new (by rwa [List.map_id])).symm

/-- What comes after the detection of duplicates touches neither its keys nor its counter. -/
theorem route_kept (t0 : Int) (hv : ev.valid = true) :
    (r.route ev t0).1.seenOrder = (r.noteSeen ev).1.seenOrder ∧
    (r.route ev t0).1.duplicates = (r.noteSeen ev).1.duplicates := by
  rw [route_valid t0 hv]
  rcases r.noteSeen ev with ⟨r₁, known⟩
  cases known with
  | false => exact ⟨rfl, rfl⟩
  | true =>
    dsimp only
    rw [pushValidation_eq, pushPrediction_eq]
    split
    · exact ⟨rfl, rfl⟩
    · split <;> exact ⟨rfl, rfl⟩

theorem reportsDuplicate_iff : r.ReportsDuplicate ev t0 ↔ Keyed ev ∧ dedupeKey ev ∈ r.seenOrder := by
  by_cases hv : ev.valid = true
  swap
  · have hkeep : (r.route ev t0).1.duplicates = r.duplicates := by simp [route, hv]
    refine ⟨fun h => ?_, fun h => absurd h.1.1 hv⟩
    have hcount := h.1
    omega
  by_cases hold : r.Remembers ev
  · have hcount : (r.noteSeen ev).1.duplicates = r.duplicates + 1 := by simp [noteSeen, hold.1, hold.2]
    obtain ⟨hval, hpred, hpers⟩ := noteSeen_frame r ev
    refine ⟨fun _ => ⟨⟨hv, hold.1⟩, hold.2⟩, fun _ => ?_⟩
    rw [ReportsDuplicate, route_valid t0 hv, noteSeen_of_old hold]
    exact ⟨hcount, rfl, hpred, hval, hpers⟩
  · have hcount : (r.noteSeen ev).1.duplicates = r.duplicates := by
      rw [noteSeen]
      split
      · rfl
      · rename_i hid
        rw [if_neg fun hmem => hold ⟨hid, hmem⟩]
    refine ⟨fun h => ?_, fun h => absurd ⟨h.1.2, h.2⟩ hold⟩
    have hsame := (route_kept (r := r) t0 hv).2.trans hcount
    have hmore := h.1
    omega

/-- The keys that the router remembers after the calls. -/
theorem seenOrder_calls (queueCapacity : Nat) (calls : List Call) :
    (calls.foldl call (new queueCapacity)).seenOrder = Lru.recent maxSeen (calls.filterMap Call.key) := by
  induction calls using List.reverseRecOn with
  | nil => rfl
  | append_singleton calls a ih =>
    rw [List.foldl_append, List.filterMap_append, List.foldl_cons, List.foldl_nil]
    generalize calls.foldl call (new queueCapacity) = r at ih ⊢
    cases a with
    | route ev t0 =>
      by_cases hk : Keyed ev
      · have hkey : [Call.route ev t0].filterMap Call.key = [dedupeKey ev] := by simp [Call.key, hk]
        rw [hkey, ← Lru.put_recent, ← ih, call, (route_kept t0 hk.1).1]
        exact noteSeen_seenOrder hk.2 (ih ▸ Lru.length_recent_le _ _) (ih ▸ Lru.nodup_recent _ _)
      · have hkey : [Call.route ev t0].filterMap Call.key = [] := by simp [Call.key, hk]
        rw [hkey, List.append_nil, ← ih, call]
        by_cases hv : ev.valid = true
        · have hid : ev.gameId = "" := not_not.mp fun hid => hk ⟨hv, hid⟩
          rw [(route_kept t0 hv).1, noteSeen, if_pos hid]
        · simp [route, hv]
    | popPrediction =>
      have hkeep : (r.call .popPrediction).seenOrder = r.seenOrder := by
        rw [call, popPrediction]
        cases r.toPrediction.tryPop <;> rfl
      rw [hkeep, ih, List.filterMap_cons_none rfl, List.filterMap_nil, List.append_nil]
    | popValidation =>
      have hkeep : (r.call .popValidation).seenOrder = r.seenOrder := by
        rw [call, popValidation]
        cases r.toValidation.tryPop <;> rfl
      rw [hkeep, ih, List.filterMap_cons_none rfl, List.filterMap_nil, List.append_nil]
    | popPersistence =>
      have hkeep : (r.call .popPersistence).seenOrder = r.seenOrder := by
        rw [call, popPersistence]
        cases r.toPersistence.tryPop <;> rfl
      rw [hkeep, ih, List.filterMap_cons_none rfl, List.filterMap_nil, List.append_nil]

/-- After the calls, the nodes hold the keys that the router remembers, in bijection with the map, and an event is
    reported as a duplicate exactly if its key is among the last `maxSeen` different keys that were routed. -/
def RefinesLru (queueCapacity : Nat) (calls : List Call) : Prop :=
  ∃ seen, SeenNodes.noteAll {} (calls.filterMap Call.key) = some seen ∧
    seen.values = (calls.foldl call (new queueCapacity)).seenOrder ∧
    LinkedMap.Bijective id seen.order seen.map ∧ seen.map.length ≤ maxSeen ∧
    ∀ ev t0,
      ((calls.foldl call (new queueCapacity)).ReportsDuplicate ev t0 ↔
        Keyed ev ∧ dedupeKey ev ∈ Lru.recent maxSeen (calls.filterMap Call.key)) ∧
      ((∃ seen', seen.note (dedupeKey ev) = some (true, seen')) ↔
        dedupeKey ev ∈ Lru.recent maxSeen (calls.filterMap Call.key))

theorem refinesLru (queueCapacity : Nat) (calls : List Call) : RefinesLru queueCapacity calls := by
  obtain ⟨seen, hall, hrep⟩ := SeenNodes.noteAll_eq (calls.filterMap Call.key) SeenNodes.represents_new
  rw [List.nil_append] at hrep
  refine ⟨seen, hall, ?_, hrep.linked.bijective, ?_, fun ev t0 => ⟨?_, ?_⟩⟩
  · rw [hrep.values, seenOrder_calls]
  · have hlen : seen.values.length ≤ maxSeen := hrep.values ▸ Lru.length_recent_le _ _
    rwa [hrep.linked.bijective.length, ← List.length_map]
  · rw [reportsDuplicate_iff, seenOrder_calls]
  · obtain ⟨known, seen', hnote, -, hknown⟩ := SeenNodes.note_eq hrep (dedupeKey ev)
    rw [← hknown, hnote]
    simp

end EventRouter

theorem refines_lru (capacity queueCapacity : Nat) (calls : List RoundCacheNodes.Call) (routed : List EventRouter.Call) :
    RoundCacheNodes.RefinesLru capacity calls ∧ EventRouter.RefinesLru queueCapacity routed :=
  ⟨RoundCacheNodes.refinesLru capacity calls, EventRouter.refinesLru queueCapacity routed⟩

end CrashCore
