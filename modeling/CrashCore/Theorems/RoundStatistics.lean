import CrashCore.Common.Rounding
import CrashCore.Ingestion.Stats
import CrashCore.Library.LongestRun

/-! The statistics of the rounds are exact. The buckets are adjacent and without end, so each multiplier from 1 on lies
in one of them; the counters of the streaks are the runs of the whole sequence. -/

namespace CrashCore

/-! ### The buckets -/

namespace RangeBucket
variable {b b' : RangeBucket} {m low : Double} {f : RangeBucket → Nat}

/-- The buckets begin at `low`, each where the one before it ends, and the last one has no end. -/
def Adjacent : Double → List RangeBucket → Prop
  | _, [] => False
  | low, b :: bs => b.min = low ∧
    ((b.max = none ∧ bs = []) ∨ ∃ high, b.max = some high ∧ low < high ∧ Adjacent high bs)

theorem Adjacent.le_min : ∀ {bs : List RangeBucket} {low : Double}, Adjacent low bs → b ∈ bs → low ≤ b.min
  | _ :: _, _, ⟨hmin, hbs⟩, hb => by
    rcases List.mem_cons.mp hb with rfl | hb
    · exact hmin.ge
    rcases hbs with ⟨-, rfl⟩ | ⟨high, -, hlt, hbs⟩
    · cases hb
    · exact hlt.le.trans (hbs.le_min hb)

/-- Below a bucket the buckets behind it contain nothing. -/
theorem Adjacent.not_contains {bs : List RangeBucket} (h : Adjacent low bs) (hb : b ∈ bs) (hm : m < low) :
    ¬b.Contains m := fun hc => absurd (hm.trans_le (h.le_min hb)) (not_lt.mpr hc.1)

theorem Adjacent.existsUnique : ∀ {bs : List RangeBucket} {low : Double}, Adjacent low bs → low ≤ m →
    ∃! b, b ∈ bs ∧ b.Contains m
  | b :: bs, low, ⟨hmin, hbs⟩, hm => by
    rcases hbs with ⟨hmax, rfl⟩ | ⟨high, hmax, hlt, hbs⟩
    · have hcontains : b.Contains m := ⟨hmin.trans_le hm, fun max h => by rw [hmax] at h; cases h⟩
      exact ⟨b, ⟨List.mem_cons_self, hcontains⟩, fun b' h => List.mem_singleton.mp h.1⟩
    by_cases hhigh : m < high
    · have hcontains : b.Contains m := by
        refine ⟨hmin.trans_le hm, fun max h => ?_⟩
        rw [hmax] at h
        exact Option.some.inj h ▸ hhigh
      refine ⟨b, ⟨List.mem_cons_self, hcontains⟩, fun b' h => ?_⟩
      exact (List.mem_cons.mp h.1).resolve_right fun hb' => hbs.not_contains hb' hhigh h.2
    · obtain ⟨b', ⟨hb', hcontains⟩, hunique⟩ := hbs.existsUnique (not_lt.mp hhigh)
      refine ⟨b', ⟨List.mem_cons_of_mem _ hb', hcontains⟩, fun b'' h => ?_⟩
      rcases List.mem_cons.mp h.1 with rfl | hb''
      · exact absurd (h.2.2 high hmax) hhigh
      · exact hunique b'' ⟨hb'', h.2⟩

/-- The bucket with another count. -/
def withCount (f : RangeBucket → Nat) (b : RangeBucket) : RangeBucket := { b with count := f b }

theorem withCount_congr {g : RangeBucket → Nat} (h : f b = g b) : withCount f b = withCount g b := by
  rw [withCount, withCount, h]

/-- The first bucket that contains the multiplier is the only one. -/
theorem Adjacent.countIn : ∀ {bs : List RangeBucket} {low : Double}, Adjacent low bs →
    CrashStatsAccumulator.countIn m (bs.map (withCount f)) =
      bs.map (withCount fun b => f b + if b.Contains m then 1 else 0)
  | b :: bs, low, ⟨hmin, hbs⟩ => by
    rw [List.map_cons, List.map_cons, CrashStatsAccumulator.countIn]
    by_cases hc : b.Contains m
    · have hrest : ∀ b' ∈ bs, ¬b'.Contains m := by
        rcases hbs with ⟨-, rfl⟩ | ⟨high, hmax, -, hbs⟩
        · exact fun _ h => absurd h List.not_mem_nil
        · exact fun b' hb' => hbs.not_contains hb' (hc.2 high hmax)
      rw [if_pos (show (withCount f b).Contains m from hc)]
      refine congrArg₂ List.cons ?_ (List.map_congr_left fun b' hb' => withCount_congr ?_)
      · exact (congrArg (fun n => { b with count := f b + n }) (if_pos hc)).symm
      · rw [if_neg (hrest b' hb'), Nat.add_zero]
    · rw [if_neg (show ¬(withCount f b).Contains m from hc)]
      refine congrArg₂ List.cons (withCount_congr ?_) ?_
      · rw [if_neg hc, Nat.add_zero]
      · rcases hbs with ⟨-, rfl⟩ | ⟨high, -, -, hbs⟩
        · rfl
        · exact hbs.countIn

/-- A multiplier that a bucket contains is counted once. -/
theorem sum_countIn : ∀ {bs : List RangeBucket}, (∃ b ∈ bs, b.Contains m) →
    ((CrashStatsAccumulator.countIn m bs).map (·.count)).sum = (bs.map (·.count)).sum + 1
  | b :: bs, h => by
    by_cases hc : b.Contains m
    · rw [CrashStatsAccumulator.countIn, if_pos hc]
      simp only [List.map_cons, List.sum_cons]
      omega
    · obtain ⟨b', hb', hc'⟩ := h
      have hmem : b' ∈ bs := (List.mem_cons.mp hb').resolve_left fun heq => hc (heq ▸ hc')
      rw [CrashStatsAccumulator.countIn, if_neg hc]
      simp only [List.map_cons, List.sum_cons, sum_countIn ⟨b', hmem, hc'⟩]
      omega

end RangeBucket

theorem nearest_bounds : 1 < Double.nearest (6 / 5) ∧ Double.nearest (6 / 5) < 3 / 2 := by
  have hulp := Double.le_abs_of_ne_zero (by norm_num : (6 / 5 : Rat) ≠ 0)
  obtain ⟨hlow, hhigh⟩ := abs_le.mp (Double.abs_nearest_sub_le (6 / 5))
  rw [abs_of_pos (by norm_num)] at hulp
  constructor <;> linarith

theorem adjacent_defaultRangeDefs : RangeBucket.Adjacent 1 defaultRangeDefs := by
  obtain ⟨hlow, hhigh⟩ := nearest_bounds
  refine ⟨rfl, .inr ⟨_, rfl, hlow, ?_⟩⟩
  refine ⟨rfl, .inr ⟨_, rfl, hhigh, ?_⟩⟩
  refine ⟨rfl, .inr ⟨_, rfl, by norm_num, ?_⟩⟩
  refine ⟨rfl, .inr ⟨_, rfl, by norm_num, ?_⟩⟩
  refine ⟨rfl, .inr ⟨_, rfl, by norm_num, ?_⟩⟩
  refine ⟨rfl, .inr ⟨_, rfl, by norm_num, ?_⟩⟩
  refine ⟨rfl, .inr ⟨_, rfl, by norm_num, ?_⟩⟩
  exact ⟨rfl, .inl ⟨rfl, rfl⟩⟩

/-! ### The streaks -/

namespace StreakSnapshot
variable {s : StreakSnapshot} {m : Double} {ms : List Double}

/-- The side of the threshold. -/
def side (m : Double) : StreakKind := if m < HIGH_THRESHOLD then .low else .high

/-- The streaks of the sequence: the one at its end, and the longest ones. -/
structure Exact (s : StreakSnapshot) (ms : List Double) : Prop where
  kind : s.currentKind = (ms.getLast?.map side).getD .none
  current : s.currentCount = (ms.rtakeWhile fun m => side m = s.currentKind).length
  maxLow : ms.IsLongestRun (fun m => side m = .low) s.maxLow
  maxHigh : ms.IsLongestRun (fun m => side m = .high) s.maxHigh

theorem exact_nil : Exact {} [] := ⟨rfl, rfl, List.isLongestRun_nil, List.isLongestRun_nil⟩

theorem addStreak_of_low (h : side m = .low) : CrashStatsAccumulator.addStreak s m =
    let currentCount := if s.currentKind = .low then s.currentCount + 1 else 1
    { s with currentKind := .low, currentCount, maxLow := max s.maxLow currentCount } := by
  have hlow : m < HIGH_THRESHOLD := by
    by_contra hno
    rw [side, if_neg hno] at h
    cases h
  rw [CrashStatsAccumulator.addStreak, if_pos hlow]

theorem addStreak_of_high (h : side m = .high) : CrashStatsAccumulator.addStreak s m =
    let currentCount := if s.currentKind = .high then s.currentCount + 1 else 1
    { s with currentKind := .high, currentCount, maxHigh := max s.maxHigh currentCount } := by
  have hhigh : ¬m < HIGH_THRESHOLD := by
    intro hlow
    rw [side, if_pos hlow] at h
    cases h
  rw [CrashStatsAccumulator.addStreak, if_neg hhigh]

/-- The streak at the end with one more multiplier. -/
theorem Exact.current_concat (h : s.Exact ms) {k : StreakKind} (hm : side m = k) :
    (if s.currentKind = k then s.currentCount + 1 else 1) =
      ((ms ++ [m]).rtakeWhile fun m => side m = k).length := by
  rw [List.rtakeWhile_concat_pos (fun m => side m = k) ms m (decide_eq_true hm), List.length_append,
    List.length_singleton]
  by_cases hk : s.currentKind = k
  · rw [if_pos hk, h.current, hk]
  · -- the last multiplier is on the other side
    rw [if_neg hk]
    rcases List.eq_nil_or_concat ms with rfl | ⟨ms, last, rfl⟩
    · rfl
    · have hlast : side last ≠ k := by
        have hkind := h.kind
        rw [List.concat_eq_append, List.getLast?_concat] at hkind
        exact fun heq => hk (hkind.trans heq)
      rw [List.concat_eq_append, List.rtakeWhile_concat_neg (fun m => side m = k) ms last (by simpa using hlast)]
      rfl

theorem Exact.concat (h : s.Exact ms) (m : Double) : (CrashStatsAccumulator.addStreak s m).Exact (ms ++ [m]) := by
  have hkind {k : StreakKind} (hm : side m = k) : k = ((ms ++ [m]).getLast?.map side).getD .none := by
    rw [List.getLast?_concat]
    exact hm.symm
  by_cases hlow : m < HIGH_THRESHOLD
  · have hm : side m = .low := if_pos hlow
    have hcurrent := h.current_concat hm
    rw [addStreak_of_low hm]
    refine ⟨hkind hm, hcurrent, ?_, h.maxHigh.concat_neg (by simp [hm])⟩
    have hmax := h.maxLow.concat m
    rwa [← hcurrent] at hmax
  · have hm : side m = .high := if_neg hlow
    have hcurrent := h.current_concat hm
    rw [addStreak_of_high hm]
    refine ⟨hkind hm, hcurrent, h.maxLow.concat_neg (by simp [hm]), ?_⟩
    have hmax := h.maxHigh.concat m
    rwa [← hcurrent] at hmax

end StreakSnapshot

/-! ### All statistics -/

namespace CrashStatsAccumulator
variable {a : CrashStatsAccumulator} {ms : List Double} {m : Double}

/-- The statistics of the sequence. -/
structure Exact (a : CrashStatsAccumulator) (ms : List Double) : Prop where
  count : a.count = ms.length
  /-- Each round is in one bucket, the one whose range contains it, and each bucket counts its rounds. -/
  partition : ∀ m ∈ ms, ∃! b, b ∈ defaultRangeDefs ∧ b.Contains m
  ranges : a.ranges = defaultRangeDefs.map (RangeBucket.withCount fun b => ms.countP (b.Contains ·))
  total : (a.ranges.map (·.count)).sum = a.count
  highest : a.highest = ms.max?
  lowest : a.lowest = ms.min?
  streak : a.streak.Exact ms

theorem exact_nil : Exact {} [] where
  count := rfl
  partition _ h := absurd h List.not_mem_nil
  ranges := rfl
  total := rfl
  highest := rfl
  lowest := rfl
  streak := StreakSnapshot.exact_nil

theorem max?_concat (ms : List Double) (m : Double) : (ms ++ [m]).max? = some (ms.max?.elim m (max · m)) := by
  cases ms with
  | nil => rfl
  | cons x ms => simp [List.max?]

theorem min?_concat (ms : List Double) (m : Double) : (ms ++ [m]).min? = some (ms.min?.elim m (min · m)) := by
  cases ms with
  | nil => rfl
  | cons x ms => simp [List.min?]

theorem Exact.addRound (h : a.Exact ms) (hm : 1 ≤ m) : (a.addRound m).Exact (ms ++ [m]) where
  count := by rw [CrashStatsAccumulator.addRound, h.count, List.length_append, List.length_singleton]
  partition m' hm' := by
    rcases List.mem_append.mp hm' with hm' | hm'
    · exact h.partition m' hm'
    · exact List.mem_singleton.mp hm' ▸ adjacent_defaultRangeDefs.existsUnique hm
  ranges := by
    show countIn m a.ranges = _
    rw [h.ranges, adjacent_defaultRangeDefs.countIn]
    refine List.map_congr_left fun b _ => RangeBucket.withCount_congr ?_
    simp [List.countP_append, List.countP_singleton]
  total := by
    have hcontains : ∃ b ∈ a.ranges, b.Contains m := by
      obtain ⟨b, ⟨hb, hc⟩, -⟩ := adjacent_defaultRangeDefs.existsUnique hm
      rw [h.ranges]
      exact ⟨_, List.mem_map_of_mem hb, hc⟩
    show ((countIn m a.ranges).map (·.count)).sum = a.count + 1
    rw [RangeBucket.sum_countIn hcontains, h.total]
  highest := by
    show (if ∀ x ∈ a.highest, x < m then some m else a.highest) = _
    rw [h.highest, max?_concat]
    rcases ms.max? with _ | x
    · rfl
    · simp only [Option.mem_def, Option.some.injEq, forall_eq', Option.elim_some]
      split
      · rename_i hlt
        rw [max_eq_right hlt.le]
      · rename_i hge
        rw [max_eq_left (not_lt.mp hge)]
  lowest := by
    show (if ∀ x ∈ a.lowest, m < x then some m else a.lowest) = _
    rw [h.lowest, min?_concat]
    rcases ms.min? with _ | x
    · rfl
    · simp only [Option.mem_def, Option.some.injEq, forall_eq', Option.elim_some]
      split
      · rename_i hlt
        rw [min_eq_right hlt.le]
      · rename_i hge
        rw [min_eq_left (not_lt.mp hge)]
  streak := h.streak.concat m

/-- After any sequence of multipliers from 1 on. -/
theorem exact_foldl_addRound (ms : List Double) (h : ∀ m ∈ ms, 1 ≤ m) :
    (ms.foldl CrashStatsAccumulator.addRound {}).Exact ms := by
  induction ms using List.reverseRecOn with
  | nil => exact exact_nil
  | append_singleton ms m ih =>
    rw [List.foldl_append]
    exact (ih fun m' hm' => h m' (List.mem_append_left _ hm')).addRound
      (h m (List.mem_append_right _ List.mem_cons_self))

/-- A low run, a high one and the threshold itself. -/
theorem exact_foldl_addRound_four : (∀ m ∈ ([1, 3 / 2, 7, 2] : List Double), 1 ≤ m) ∧
    (([1, 3 / 2, 7, 2] : List Double).foldl CrashStatsAccumulator.addRound {}).Exact [1, 3 / 2, 7, 2] :=
  have h : ∀ m ∈ ([1, 3 / 2, 7, 2] : List Double), 1 ≤ m := by simp; norm_num
  ⟨h, exact_foldl_addRound [1, 3 / 2, 7, 2] h⟩

end CrashStatsAccumulator
end CrashCore
