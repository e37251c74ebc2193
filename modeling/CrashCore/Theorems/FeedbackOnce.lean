import CrashCore.Feedback.ExactlyOnceFeedback
import Mathlib.Data.List.Range

/-! Feedback once per prediction. The seen set starts over with every new id past its bound, so it holds the
current block of `maxSeen` distinct ids: an id is remembered exactly as long as its block lasts. -/

namespace CrashCore
namespace ExactlyOnceFeedback

variable {f : ExactlyOnceFeedback} {before calls : List Call} {c : Call} {k : PredictionId}

/-- The first eligible outcome of each prediction id. -/
def firsts (calls : List Call) : List Outcome :=
  ((calls.map (·.outcome)).filter Eligible).firstsBy (·.predictionId)

/-- The distinct ids of the eligible outcomes, in the order of their first occurrences. -/
def ids (calls : List Call) : List PredictionId := (firsts calls).map (·.predictionId)

/-- After the calls, the id still belongs to the newest block of `maxSeen` distinct ids. -/
def InBlock (calls : List Call) (k : PredictionId) : Prop :=
  (ids calls).idxOf k / maxSeen = ((ids calls).length - 1) / maxSeen

/-- Every eligible outcome with the id of an earlier one comes while that id's block lasts. -/
def WithinBlocks (calls : List Call) : Prop :=
  ∀ before c after, calls = before ++ c :: after → Eligible c.outcome → c.outcome.predictionId ∈ ids before →
    InBlock before c.outcome.predictionId

/-! ### First occurrences -/

theorem firsts_concat (calls : List Call) (c : Call) :
    firsts (calls ++ [c]) =
      if Eligible c.outcome ∧ c.outcome.predictionId ∉ ids calls then firsts calls ++ [c.outcome] else firsts calls := by
  by_cases he : Eligible c.outcome
  · have hconcat : firsts (calls ++ [c]) =
        if c.outcome.predictionId ∈ ids calls then firsts calls else firsts calls ++ [c.outcome] := by
      unfold ids firsts
      rw [List.map_append, List.filter_append, List.map_singleton, List.filter_singleton, decide_eq_true he]
      exact List.firstsBy_concat ..
    simp only [hconcat, he, true_and, ite_not]
  · have hconcat : firsts (calls ++ [c]) = firsts calls := by
      simp [firsts, he]
    rw [hconcat, if_neg fun h => he h.1]

theorem nodup_ids (calls : List Call) : (ids calls).Nodup := List.nodup_firstsBy _ _

theorem ids_concat_new (he : Eligible c.outcome) (hnew : c.outcome.predictionId ∉ ids calls) :
    ids (calls ++ [c]) = ids calls ++ [c.outcome.predictionId] := by
  rw [ids, firsts_concat, if_pos ⟨he, hnew⟩, List.map_append]
  rfl

theorem firsts_concat_same (h : ¬Eligible c.outcome ∨ c.outcome.predictionId ∈ ids calls) :
    firsts (calls ++ [c]) = firsts calls := by
  rw [firsts_concat, if_neg]
  rintro ⟨he, hnew⟩
  exact h.elim (fun hn => hn he) hnew

theorem WithinBlocks.of_concat (h : WithinBlocks (calls ++ [c])) : WithinBlocks calls :=
  fun before c' after heq => h before c' (after ++ [c]) (by simp [heq])

theorem WithinBlocks.last (h : WithinBlocks (calls ++ [c])) (he : Eligible c.outcome)
    (hold : c.outcome.predictionId ∈ ids calls) : InBlock calls c.outcome.predictionId :=
  h calls c [] rfl he hold

/-- The condition is decided call by call. -/
theorem withinBlocks_concat : WithinBlocks (calls ++ [c]) ↔
    WithinBlocks calls ∧
      (Eligible c.outcome → c.outcome.predictionId ∈ ids calls → InBlock calls c.outcome.predictionId) := by
  constructor
  · exact fun h => ⟨h.of_concat, h.last⟩
  · rintro ⟨h, hlast⟩ before c' after heq
    rcases List.eq_nil_or_concat after with rfl | ⟨after, c'', rfl⟩
    · obtain ⟨rfl, hc⟩ := List.append_inj' heq rfl
      obtain rfl : c = c' := (List.cons.inj hc).1
      exact hlast
    · rw [List.concat_eq_append, ← List.cons_append, ← List.append_assoc] at heq
      exact h before c' after (List.append_inj' heq rfl).1

/-! ### The seen set is the current block -/

/-- The ids of the current block. -/
def block (ids : List PredictionId) : List PredictionId := ids.drop (maxSeen * ((ids.length - 1) / maxSeen))

theorem mem_block_iff {ids : List PredictionId} (hids : ids.Nodup) (hk : k ∈ ids) :
    k ∈ block ids ↔ ids.idxOf k / maxSeen = (ids.length - 1) / maxSeen := by
  have hlt : ids.idxOf k < ids.length := List.idxOf_lt_length_iff.mpr hk
  have hdiv : ids.idxOf k / maxSeen ≤ (ids.length - 1) / maxSeen := Nat.div_le_div_right (by omega)
  have hblock : k ∈ block ids ↔ maxSeen * ((ids.length - 1) / maxSeen) ≤ ids.idxOf k :=
    List.mem_drop_iff_idxOf hids hk
  rw [hblock, Nat.mul_comm, ← Nat.le_div_iff_mul_le (by decide)]
  omega

theorem block_length (ids : List PredictionId) :
    (block ids).length = ids.length - maxSeen * ((ids.length - 1) / maxSeen) := List.length_drop

/-- A new id closes a full block, and joins any other. -/
theorem block_concat (ids : List PredictionId) (k : PredictionId) :
    block (ids ++ [k]) = if maxSeen < (block ids).length + 1 then [k] else block ids ++ [k] := by
  rw [block_length]
  have hfull : maxSeen < ids.length - maxSeen * ((ids.length - 1) / maxSeen) + 1 ↔
      maxSeen * (ids.length / maxSeen) = ids.length ∧ ids ≠ [] := by
    rw [← List.length_pos_iff_ne_nil]
    unfold maxSeen
    omega
  unfold block
  rw [List.length_append, List.length_singleton, Nat.add_sub_cancel]
  by_cases h : maxSeen * (ids.length / maxSeen) = ids.length ∧ ids ≠ []
  · rw [if_pos (hfull.mpr h), h.1, List.drop_left]
  · have hle : maxSeen * (ids.length / maxSeen) ≤ ids.length := Nat.mul_div_le ..
    have hsame : ids.length / maxSeen = (ids.length - 1) / maxSeen := by
      rw [← List.length_pos_iff_ne_nil] at h
      unfold maxSeen at h ⊢
      omega
    rw [if_neg fun hf => h (hfull.mp hf), List.drop_append_of_le_length hle, hsame]

/-- The state after the calls when every id was remembered. -/
structure Tracks (calls : List Call) (f : ExactlyOnceFeedback) : Prop where
  seen : f.seen = (block (ids calls)).toFinset
  noted : f.edge.isSome → f.noted = firsts calls

theorem Tracks.mem_seen (h : Tracks calls f) (hk : k ∈ ids calls) : k ∈ f.seen ↔ InBlock calls k := by
  rw [h.seen, List.mem_toFinset]
  exact mem_block_iff (nodup_ids calls) hk

theorem Tracks.card_seen (h : Tracks calls f) : f.seen.card = (block (ids calls)).length := by
  rw [h.seen]
  exact List.toFinset_card_of_nodup ((nodup_ids calls).sublist (List.drop_sublist ..))

theorem noted_map (edge : Option AdaptiveEdge) (o : Outcome) (h : edge.isSome) :
    ((edge.map (·.noteOutcome o)).map (·.noted)).getD [] = (edge.map (·.noted)).getD [] ++ [o] := by
  obtain ⟨e, rfl⟩ := Option.isSome_iff_exists.mp h
  exact AdaptiveEdge.noteOutcome_noted e o

theorem Tracks.apply (h : Tracks calls f)
    (hblock : Eligible c.outcome → c.outcome.predictionId ∈ ids calls → InBlock calls c.outcome.predictionId) :
    Tracks (calls ++ [c]) (f.apply c).1 := by
  by_cases hold : ¬Eligible c.outcome ∨ c.outcome.predictionId ∈ ids calls
  · have hignored : ¬Eligible c.outcome ∨ c.outcome.predictionId ∈ f.seen := by
      by_cases he : Eligible c.outcome
      · have hk := hold.resolve_left fun hn => hn he
        exact Or.inr ((h.mem_seen hk).mpr (hblock he hk))
      · exact Or.inl he
    obtain ⟨hseen, hedge, -⟩ := apply_ignored hignored
    have hfirsts := firsts_concat_same hold
    constructor
    · rw [hseen, h.seen, ids, ids, hfirsts]
    · rw [hedge, ExactlyOnceFeedback.noted, hedge, hfirsts]
      exact h.noted
  · rw [not_or, not_not] at hold
    obtain ⟨he, hnew⟩ := hold
    have hunseen : c.outcome.predictionId ∉ f.seen := by
      rw [h.seen, List.mem_toFinset]
      exact fun hk => hnew (List.mem_of_mem_drop hk)
    obtain ⟨hseen, hedge, -⟩ := apply_noted he hunseen
    constructor
    · rw [hseen, h.card_seen, ids_concat_new he hnew, block_concat, h.seen]
      split
      · rfl
      · ext k
        simp
    · intro hsome
      rw [hedge, Option.isSome_map] at hsome
      rw [firsts_concat, if_pos ⟨he, hnew⟩, ← h.noted hsome, ExactlyOnceFeedback.noted, hedge]
      exact noted_map f.edge c.outcome hsome

/-! ### Whole sequences -/

variable {db : Option FeedbackEvents} {config : Option AdaptiveEdgeConfig}

theorem tracks_create : Tracks [] (create db config) := by
  refine ⟨rfl, fun h => ?_⟩
  obtain ⟨e, he⟩ := Option.isSome_iff_exists.mp h
  rcases config with _ | config
  · cases he
  · rfl

theorem tracks_applyAll (h : WithinBlocks calls) : Tracks calls ((create db config).applyAll calls) := by
  induction calls using List.reverseRecOn with
  | nil => exact tracks_create
  | append_singleton calls c ih =>
    rw [applyAll_concat]
    exact (ih h.of_concat).apply h.last

/-- An id that comes back after its block is noted a second time. -/
theorem Tracks.not_nodup (h : Tracks calls f) (hedge : f.edge.isSome) (he : Eligible c.outcome)
    (hold : c.outcome.predictionId ∈ ids calls) (hout : ¬InBlock calls c.outcome.predictionId) :
    ¬((f.apply c).1.noted.map (·.predictionId)).Nodup := by
  have hunseen : c.outcome.predictionId ∉ f.seen := fun hk => hout ((h.mem_seen hold).mp hk)
  obtain ⟨-, hnoted, -⟩ := apply_noted he hunseen
  have hlog : (f.apply c).1.noted = firsts calls ++ [c.outcome] := by
    rw [← h.noted hedge, ExactlyOnceFeedback.noted, hnoted]
    exact noted_map f.edge c.outcome hedge
  rw [hlog, List.map_append, List.nodup_append]
  rintro ⟨-, -, hdisj⟩
  exact hdisj _ hold _ (by simp) rfl

theorem not_nodup_of_not_within (db : Option FeedbackEvents) (config : AdaptiveEdgeConfig) (h : ¬WithinBlocks calls) :
    ¬(((create db (some config)).applyAll calls).noted.map (·.predictionId)).Nodup := by
  induction calls using List.reverseRecOn with
  | nil =>
    refine absurd ?_ h
    intro before c after heq
    simp at heq
  | append_singleton calls c ih =>
    rw [applyAll_concat]
    by_cases hbefore : WithinBlocks calls
    · rw [withinBlocks_concat] at h
      have hlast : ¬(Eligible c.outcome → c.outcome.predictionId ∈ ids calls → InBlock calls c.outcome.predictionId) :=
        fun hl => h ⟨hbefore, hl⟩
      rw [Classical.not_imp, Classical.not_imp] at hlast
      obtain ⟨he, hold, hout⟩ := hlast
      refine (tracks_applyAll hbefore).not_nodup ?_ he hold hout
      rw [edge_isSome_applyAll]
      rfl
    · intro hnodup
      exact ih hbefore (hnodup.sublist (noted_prefix_apply.sublist.map _))

theorem noted_of_no_edge (calls : List Call) : ((create db none).applyAll calls).noted = [] := by
  have hnone : ((create db none).applyAll calls).edge = none := by
    rw [← Option.not_isSome_iff_eq_none, edge_isSome_applyAll]
    exact Bool.false_ne_true
  rw [noted, hnone]
  rfl

theorem mem_ids_of_eligible (hc : c ∈ calls) (he : Eligible c.outcome) : c.outcome.predictionId ∈ ids calls := by
  refine List.mem_firstsBy_keys.mpr (List.mem_map.mpr ⟨c.outcome, ?_, rfl⟩)
  exact List.mem_filter.mpr ⟨List.mem_map.mpr ⟨c, hc, rfl⟩, decide_eq_true he⟩

theorem firsts_eq_nil_iff : firsts calls = [] ↔ ∀ c ∈ calls, ¬Eligible c.outcome := by
  constructor
  · intro h c hc he
    have hk := mem_ids_of_eligible hc he
    simp [ids, h] at hk
  · intro h
    have hfilter : (calls.map (·.outcome)).filter Eligible = [] := by simpa using h
    rw [firsts, hfilter]
    rfl

/-- The edge is called exactly for the first eligible outcome of each prediction id, in order, if and only if
    there is an edge to call (or nothing to call it for) and no id comes back after its block. -/
theorem noted_eq_firsts_iff (db : Option FeedbackEvents) (config : Option AdaptiveEdgeConfig) (calls : List Call) :
    ((create db config).applyAll calls).noted = firsts calls ↔
      (config.isSome ∨ ∀ c ∈ calls, ¬Eligible c.outcome) ∧ WithinBlocks calls := by
  constructor
  · intro heq
    rcases hconfig : config with _ | config
    · rw [hconfig, noted_of_no_edge, eq_comm, firsts_eq_nil_iff] at heq
      exact ⟨Or.inr heq, fun before c after hc he => absurd he (heq c (by simp [hc]))⟩
    · subst hconfig
      refine ⟨Or.inl rfl, ?_⟩
      by_contra hn
      refine not_nodup_of_not_within db config hn ?_
      rw [heq]
      exact nodup_ids calls
  · rintro ⟨hedge, hwithin⟩
    rcases hconfig : config with _ | config
    · rw [noted_of_no_edge, eq_comm, firsts_eq_nil_iff]
      exact hedge.resolve_left (by simp [hconfig])
    · refine (tracks_applyAll hwithin).noted ?_
      rw [edge_isSome_applyAll]
      rfl

/-! ### An id that comes back after a clear -/

def win (i : Nat) : Call where
  outcome :=
    { predictionId := String.ofList (List.replicate (i + 1) 'w')
      roundId := ""
      result := .win
      isWin := true }

/-- One win more than the seen set holds. -/
def wins : List Call := (List.range (maxSeen + 1)).map win

theorem win_eligible (i : Nat) : Eligible (win i).outcome := by
  refine ⟨fun h => ?_, Or.inl rfl⟩
  have hlen := congrArg (·.toList.length) h
  simp [win] at hlen

theorem win_id_injective : Function.Injective fun i => (win i).outcome.predictionId := by
  intro i j h
  have hlen := congrArg List.length (String.ofList_inj.mp h)
  simpa using hlen

theorem ids_wins : ids wins = (List.range (maxSeen + 1)).map fun i => (win i).outcome.predictionId := by
  have hfilter : (wins.map (·.outcome)).filter Eligible = wins.map (·.outcome) := by
    refine List.filter_eq_self.mpr fun o ho => ?_
    obtain ⟨c, hc, rfl⟩ := List.mem_map.mp ho
    obtain ⟨i, -, rfl⟩ := List.mem_map.mp hc
    exact decide_eq_true (win_eligible i)
  have hnodup : ((wins.map (·.outcome)).map (·.predictionId)).Nodup := by
    rw [wins, List.map_map, List.map_map]
    exact List.nodup_range.map win_id_injective
  rw [ids, firsts, hfilter, List.firstsBy_of_nodup hnodup, wins, List.map_map, List.map_map]
  rfl

theorem not_inBlock_wins : ¬InBlock wins (win 0).outcome.predictionId := by
  rw [InBlock, ids_wins, List.length_map, List.length_range, List.range_succ_eq_map, List.map_cons, List.idxOf_cons_self]
  decide

/-- The first of `maxSeen + 1` predictions comes back and is noted again. -/
theorem noted_ne_firsts_wins :
    ((create none (some {})).applyAll (wins ++ [win 0])).noted ≠ firsts (wins ++ [win 0]) := by
  have hold : (win 0).outcome.predictionId ∈ ids wins :=
    mem_ids_of_eligible (List.mem_map.mpr ⟨0, List.mem_range.mpr (Nat.succ_pos _), rfl⟩) (win_eligible 0)
  have hforgotten : ¬WithinBlocks (wins ++ [win 0]) := fun h => not_inBlock_wins (h.last (win_eligible 0) hold)
  intro heq
  refine not_nodup_of_not_within none {} hforgotten ?_
  rw [heq]
  exact nodup_ids (wins ++ [win 0])

end ExactlyOnceFeedback
end CrashCore
