import CrashCore.Library.Run
import CrashCore.Library.Threads
import CrashCore.Telemetry.Metrics
import Mathlib.Algebra.BigOperators.Group.Finset.Piecewise
import Mathlib.Algebra.BigOperators.Ring.Finset
import Mathlib.Data.BitVec

/-! What the relaxed latencies and counters add up to, whatever the order of the accesses: what is in them and what the
threads under way still owe is what was recorded, modulo `2 ^ 64`. Between `ensureCounter` and the addition a thread holds only an
address; a `reset` then leaves it with freed memory. -/

namespace CrashCore

namespace LatencyThreads
open Transition

variable {τ : Type} [DecidableEq τ]

/-- What the accesses of one step do. -/
inductive Moves (s : State τ) : State τ → Prop
  | ignore : Moves s s
  | call {i : τ} {stage : Nat} {us : Int} (h : s.places i = .idle) :
      Moves s { moveTo s i (.addCount stage us) with calls := s.calls ++ [(stage, us)] }
  | count {i : τ} {stage : Nat} {us : Int} (h : s.places i = .addCount stage us) :
      Moves s { moveTo s i (.addSum stage us) with count := Function.update s.count stage (s.count stage + 1) }
  | sum {i : τ} {stage : Nat} {us : Int} (h : s.places i = .addSum stage us) :
      Moves s { moveTo s i (.loadMax stage us) with sum := Function.update s.sum stage (s.sum stage + BitVec.ofInt 64 us) }
  | load {i : τ} {stage : Nat} {us : Int}
      (h : s.places i = .loadMax stage us ∨ ∃ cur, s.places i = .raiseMax stage us cur) :
      Moves s (moveTo s i (.raiseMax stage us (s.max stage)))
  | raise {i : τ} {stage : Nat} {us : Int} (h : s.places i = .raiseMax stage us (s.max stage)) (hlt : s.max stage < us) :
      Moves s { moveTo s i (.addBucket stage us) with max := Function.update s.max stage us }
  | pass {i : τ} {stage : Nat} {us cur : Int} (h : s.places i = .raiseMax stage us cur) (hle : us ≤ cur) :
      Moves s (moveTo s i (.addBucket stage us))
  | bucket {i : τ} {stage : Nat} {us : Int} (h : s.places i = .addBucket stage us) :
      Moves s { moveTo s i .idle with
        buckets := Function.update s.buckets stage
          (Function.update (s.buckets stage) (bucketIndex us) (s.buckets stage (bucketIndex us) + 1)) }

theorem moves_of_step {s t : State τ} {a : Act τ} (hs : step s a = some t) : Moves s t := by
  cases a with
  | record i stage us =>
    rcases hi : s.places i <;> simp only [step, hi, reduceCtorEq] at hs
    split at hs <;> cases hs
    · exact .ignore
    · exact .call hi
  | next i spurious =>
    rcases hi : s.places i with _ | ⟨stage, us⟩ | ⟨stage, us⟩ | ⟨stage, us⟩ | ⟨stage, us, cur⟩ | ⟨stage, us⟩ <;>
      simp only [step, hi, reduceCtorEq] at hs
    · cases hs
      exact .count hi
    · cases hs
      exact .sum hi
    · cases hs
      exact .load (.inl hi)
    · split at hs
      · rename_i hlt
        split at hs <;> cases hs
        · rename_i hcur
          obtain ⟨rfl, -⟩ := hcur
          exact .raise hi hlt
        · exact .load (.inr ⟨cur, hi⟩)
      · rename_i hle
        cases hs
        exact .pass hi (not_lt.mp hle)
    · cases hs
      exact .bucket hi

/-! ### Counts, sums and buckets -/

/-- The times recorded of a stage, in the order of the calls. -/
def timesOf (s : State τ) (k : Nat) : List Int := (s.calls.filter (·.1 = k)).map (·.2)

theorem ofInt_eq (us : Int) : BitVec.ofInt 64 us = (us : BitVec 64) := rfl

def owesCount (k : Nat) : Place → BitVec 64
  | .addCount stage _ => if stage = k then 1 else 0
  | _ => 0

def owesSum (k : Nat) : Place → BitVec 64
  | .addCount stage us | .addSum stage us => if stage = k then (us : BitVec 64) else 0
  | _ => 0

def owesBucket (k b : Nat) : Place → BitVec 64
  | .idle => 0
  | .addCount stage us | .addSum stage us | .loadMax stage us | .raiseMax stage us _ | .addBucket stage us =>
    if stage = k ∧ bucketIndex us = b then 1 else 0

theorem timesOf_call (s : State τ) (i : τ) (p : Place) (stage : Nat) (us : Int) (k : Nat) :
    timesOf { moveTo s i p with calls := s.calls ++ [(stage, us)] } k = timesOf s k ++ if stage = k then [us] else [] := by
  by_cases h : stage = k <;> simp [timesOf, h]

theorem bucketIndex_lt (us : Int) : bucketIndex us < 16 := by
  have hbelow {c : Prop} [Decidable c] {m n : Nat} (hm : m < 16) (hn : n < 16) : (if c then m else n) < 16 := by
    split <;> assumption
  unfold bucketIndex
  iterate 15 refine hbelow (by decide) ?_
  decide

/-- What is written and what the threads under way still owe is what was recorded. -/
structure Tallied [Fintype τ] (s : State τ) : Prop where
  count : ∀ k, s.count k + ∑ i, owesCount k (s.places i) = ((timesOf s k).length : Nat)
  sum : ∀ k, s.sum k + ∑ i, owesSum k (s.places i) = ((timesOf s k).sum : Int)
  bucket : ∀ k b, s.buckets k b + ∑ i, owesBucket k b (s.places i) = ((timesOf s k).countP (bucketIndex · = b) : Nat)

omit [DecidableEq τ] in
theorem Tallied.init [Fintype τ] : Tallied ({} : State τ) :=
  ⟨fun _ => by simp [owesCount, timesOf], fun _ => by simp [owesSum, timesOf], fun _ _ => by simp [owesBucket, timesOf]⟩

theorem Tallied.moves [Fintype τ] {s t : State τ} (h : Tallied s) (hm : Moves s t) : Tallied t := by
  -- A move within `record` calls for nothing new.
  have within {i : τ} {p : Place} {t : State τ} (hcalls : t.calls = s.calls) (hplaces : t.places = Function.update s.places i p)
      (hcount : ∀ k, t.count k + owesCount k p = s.count k + owesCount k (s.places i))
      (hsum : ∀ k, t.sum k + owesSum k p = s.sum k + owesSum k (s.places i))
      (hbucket : ∀ k b, t.buckets k b + owesBucket k b p = s.buckets k b + owesBucket k b (s.places i)) : Tallied t := by
    have htimes (k : Nat) : timesOf t k = timesOf s k := by rw [timesOf, timesOf, hcalls]
    refine ⟨fun k => ?_, fun k => ?_, fun k b => ?_⟩ <;> rw [htimes, hplaces]
    · exact Threads.sum_update_of_paid (owesCount k) (h.count k) (hcount k)
    · exact Threads.sum_update_of_paid (owesSum k) (h.sum k) (hsum k)
    · exact Threads.sum_update_of_paid (owesBucket k b) (h.bucket k b) (hbucket k b)
  cases hm with
  | ignore => exact h
  | @call i stage us hi =>
    refine ⟨fun k => ?_, fun k => ?_, fun k b => ?_⟩ <;> rw [timesOf_call]
    · rw [List.length_append, Nat.cast_add]
      exact Threads.add_sum_update (owesCount k) (h.count k) (by by_cases hk : stage = k <;> simp [hi, owesCount, moveTo, hk])
    · rw [List.sum_append, Int.cast_add]
      exact Threads.add_sum_update (owesSum k) (h.sum k) (by by_cases hk : stage = k <;> simp [hi, owesSum, moveTo, hk])
    · rw [List.countP_append, Nat.cast_add]
      refine Threads.add_sum_update (owesBucket k b) (h.bucket k b) ?_
      by_cases hk : stage = k <;> by_cases hb : bucketIndex us = b <;> simp [hi, owesBucket, moveTo, hk, hb]
  | @count i stage us hi =>
    refine within rfl rfl (fun k => ?_) (fun k => ?_) (fun k b => ?_)
    · by_cases hk : stage = k
      · subst hk
        simp [hi, owesCount]
      · simp [hi, owesCount, hk, Function.update_of_ne (Ne.symm hk)]
    · simp [hi, owesSum, moveTo]
    · simp [hi, owesBucket, moveTo]
  | @sum i stage us hi =>
    refine within rfl rfl (fun k => ?_) (fun k => ?_) (fun k b => ?_)
    · simp [hi, owesCount, moveTo]
    · by_cases hk : stage = k
      · subst hk
        simp [hi, owesSum, ofInt_eq]
      · simp [hi, owesSum, hk, Function.update_of_ne (Ne.symm hk)]
    · simp [hi, owesBucket, moveTo]
  | @load i stage us hi =>
    obtain hi | ⟨cur, hi⟩ := hi <;>
      exact within rfl rfl (fun k => by simp [hi, owesCount, moveTo]) (fun k => by simp [hi, owesSum, moveTo])
        (fun k b => by simp [hi, owesBucket, moveTo])
  | @raise i stage us hi _ =>
    exact within rfl rfl (fun k => by simp [hi, owesCount, moveTo]) (fun k => by simp [hi, owesSum, moveTo])
      (fun k b => by simp [hi, owesBucket, moveTo])
  | @pass i stage us cur hi _ =>
    exact within rfl rfl (fun k => by simp [hi, owesCount, moveTo]) (fun k => by simp [hi, owesSum, moveTo])
      (fun k b => by simp [hi, owesBucket, moveTo])
  | @bucket i stage us hi =>
    refine within rfl rfl (fun k => ?_) (fun k => ?_) (fun k b => ?_)
    · simp [hi, owesCount, moveTo]
    · simp [hi, owesSum, moveTo]
    · by_cases hk : stage = k
      · subst hk
        by_cases hb : bucketIndex us = b
        · subst hb
          simp [hi, owesBucket]
        · simp [hi, owesBucket, hb, Function.update_of_ne (Ne.symm hb)]
      · simp [hi, owesBucket, hk, Function.update_of_ne (Ne.symm hk)]

/-! ### The maximum -/

/-- A thread that is still to raise the maximum of the stage. -/
def RaisesMax (k : Nat) (us : Int) : Place → Prop
  | .addCount stage u | .addSum stage u | .loadMax stage u | .raiseMax stage u _ => stage = k ∧ u = us
  | .idle | .addBucket _ _ => False

/-- What a thread has read of the maximum is not above it. -/
def SeenBelow (m : Nat → Int) : Place → Prop
  | .raiseMax stage _ cur => cur ≤ m stage
  | _ => True

structure MaxInv (s : State τ) : Prop where
  /-- The maximum is above every time but those that are still to raise it. -/
  above : ∀ k, ∀ us ∈ timesOf s k, us ≤ s.max k ∨ ∃ i, RaisesMax k us (s.places i)
  attained : ∀ k, s.max k = 0 ∨ s.max k ∈ timesOf s k
  nonneg : ∀ k, 0 ≤ s.max k
  seen : ∀ i, SeenBelow s.max (s.places i)
  recorded : ∀ i k us, RaisesMax k us (s.places i) → us ∈ timesOf s k

omit [DecidableEq τ] in
theorem MaxInv.init : MaxInv ({} : State τ) :=
  ⟨fun _ us h => by simp [timesOf] at h, fun _ => .inl rfl, fun _ => le_refl _, fun _ => trivial, fun _ _ _ h => h.elim⟩

theorem SeenBelow.mono {m m' : Nat → Int} (h : ∀ k, m k ≤ m' k) {p : Place} (hp : SeenBelow m p) : SeenBelow m' p := by
  cases p with
  | raiseMax stage us cur => exact le_trans hp (h stage)
  | _ => trivial

/-- A thread goes on within `record` and leaves the maximum: it passes the raise only below it. -/
theorem MaxInv.moveTo {s t : State τ} {i : τ} {p : Place} (h : MaxInv s) (hcalls : t.calls = s.calls) (hmax : t.max = s.max)
    (hplaces : t.places = Function.update s.places i p)
    (hkeep : ∀ k us, RaisesMax k us (s.places i) → us ≤ s.max k ∨ RaisesMax k us p)
    (hback : ∀ k us, RaisesMax k us p → RaisesMax k us (s.places i)) (hseen : SeenBelow s.max p) : MaxInv t := by
  have htimes (k : Nat) : timesOf t k = timesOf s k := by rw [timesOf, timesOf, hcalls]
  refine ⟨fun k us hus => ?_, fun k => ?_, fun k => ?_, ?_, ?_⟩
  · rw [htimes] at hus
    rw [hmax, hplaces]
    rcases h.above k us hus with hle | hraises
    · exact .inl hle
    · by_cases hle : us ≤ s.max k
      · exact .inl hle
      · exact .inr (Threads.exists_update hraises fun hi => (hkeep k us hi).resolve_left hle)
  · rw [hmax, htimes]
    exact h.attained k
  · rw [hmax]
    exact h.nonneg k
  · rw [hmax, hplaces]
    exact Threads.forall_update (R := fun _ => SeenBelow s.max) h.seen hseen
  · rw [hplaces]
    refine Threads.forall_update (R := fun _ q => ∀ k us, RaisesMax k us q → us ∈ timesOf t k) (fun j k us hj => ?_) ?_
    · rw [htimes]
      exact h.recorded j k us hj
    · intro k us hp
      rw [htimes]
      exact h.recorded i k us (hback k us hp)

theorem MaxInv.raise {s t : State τ} {i : τ} {stage : Nat} {us : Int} (h : MaxInv s)
    (hi : s.places i = .raiseMax stage us (s.max stage)) (hlt : s.max stage < us) (hcalls : t.calls = s.calls)
    (hmax : t.max = Function.update s.max stage us) (hplaces : t.places = Function.update s.places i (.addBucket stage us)) :
    MaxInv t := by
  have htimes (k : Nat) : timesOf t k = timesOf s k := by rw [timesOf, timesOf, hcalls]
  have hself : t.max stage = us := by rw [hmax, Function.update_self]
  have hother {k : Nat} (hk : k ≠ stage) : t.max k = s.max k := by rw [hmax, Function.update_of_ne hk]
  have hgrows (k : Nat) : s.max k ≤ t.max k := by
    by_cases hk : k = stage
    · subst hk
      exact hself ▸ hlt.le
    · exact (hother hk).ge
  refine ⟨fun k u hu => ?_, fun k => ?_, fun k => le_trans (h.nonneg k) (hgrows k), ?_, ?_⟩
  · rcases h.above k u (htimes k ▸ hu) with hle | ⟨j, hj⟩
    · exact .inl (le_trans hle (hgrows k))
    · by_cases hji : j = i
      · rw [hji, hi] at hj
        obtain ⟨rfl, rfl⟩ := hj
        exact .inl hself.ge
      · exact .inr ⟨j, by rwa [hplaces, Function.update_of_ne hji]⟩
  · rw [htimes]
    by_cases hk : k = stage
    · subst hk
      exact .inr (hself ▸ h.recorded i k us (by rw [hi]; exact ⟨rfl, rfl⟩))
    · rw [hother hk]
      exact h.attained k
  · rw [hplaces]
    exact Threads.forall_update (R := fun _ => SeenBelow t.max) (fun j => (h.seen j).mono hgrows) trivial
  · rw [hplaces]
    refine Threads.forall_update (R := fun _ q => ∀ k u, RaisesMax k u q → u ∈ timesOf t k) (fun j k u hj => ?_)
      fun _ _ hp => hp.elim
    rw [htimes]
    exact h.recorded j k u hj

theorem MaxInv.moves {s t : State τ} (h : MaxInv s) (hm : Moves s t) : MaxInv t := by
  cases hm with
  | ignore => exact h
  | @call i stage us hi =>
    refine ⟨fun k u hu => ?_, fun k => ?_, h.nonneg, ?_, ?_⟩
    · rw [timesOf_call, List.mem_append] at hu
      rcases hu with hu | hu
      · rcases h.above k u hu with hle | hraises
        · exact .inl hle
        · exact .inr (Threads.exists_update hraises fun hidle => by rw [hi] at hidle; exact hidle.elim)
      · obtain ⟨rfl, rfl⟩ : stage = k ∧ u = us := by
          split at hu <;> simp_all
        exact .inr ⟨i, by simp [LatencyThreads.moveTo, RaisesMax]⟩
    · rw [timesOf_call]
      exact (h.attained k).imp_right (List.mem_append_left _)
    · exact Threads.forall_update (R := fun _ => SeenBelow s.max) h.seen trivial
    · refine Threads.forall_update (R := fun _ q => ∀ k u, RaisesMax k u q → u ∈ timesOf _ k) (fun j k u hj => ?_) ?_
      · rw [timesOf_call]
        exact List.mem_append_left _ (h.recorded j k u hj)
      · rintro k u ⟨rfl, rfl⟩
        rw [timesOf_call, if_pos rfl]
        exact List.mem_append_right _ (List.mem_singleton_self _)
  | @count i stage us hi =>
    exact h.moveTo rfl rfl rfl (by rw [hi]; exact fun _ _ => .inr) (by rw [hi]; exact fun _ _ => id) trivial
  | @sum i stage us hi =>
    exact h.moveTo rfl rfl rfl (by rw [hi]; exact fun _ _ => .inr) (by rw [hi]; exact fun _ _ => id) trivial
  | @load i stage us hi =>
    obtain hi | ⟨cur, hi⟩ := hi <;>
      exact h.moveTo rfl rfl rfl (by rw [hi]; exact fun _ _ => .inr) (by rw [hi]; exact fun _ _ => id) (le_refl _)
  | raise hi hlt => exact h.raise hi hlt rfl rfl rfl
  | @pass i stage us cur hi hle =>
    have hcur : cur ≤ s.max stage := by simpa [hi, SeenBelow] using h.seen i
    refine h.moveTo rfl rfl rfl ?_ (fun _ _ hp => hp.elim) trivial
    rw [hi]
    rintro k u ⟨rfl, rfl⟩
    exact .inl (le_trans hle hcur)
  | @bucket i stage us hi =>
    exact h.moveTo rfl rfl rfl (by rw [hi]; exact fun _ _ hp => hp.elim) (fun _ _ hp => hp.elim) trivial

/-! ### What was recorded -/

variable [Fintype τ]

theorem reaches_inv {s : State τ} (hr : Reaches step anyStep {} s) : Tallied s ∧ MaxInv s :=
  hr.invariant (P := fun s => Tallied s ∧ MaxInv s) ⟨Tallied.init, MaxInv.init⟩ fun _ _ _ h _ hs =>
    ⟨h.1.moves (moves_of_step hs), h.2.moves (moves_of_step hs)⟩

/-- The greatest of the times, and not below zero. -/
def maxOf (times : List Int) : Int := times.foldl max 0

theorem maxOf_eq {times : List Int} {m : Int} (habove : ∀ us ∈ times, us ≤ m) (h0 : 0 ≤ m) (hin : m = 0 ∨ m ∈ times) :
    maxOf times = m := by
  have hge : ∀ (us : List Int) (b : Int), b ≤ us.foldl max b ∧ ∀ u ∈ us, u ≤ us.foldl max b := by
    intro us
    induction us with
    | nil => exact fun b => ⟨le_refl _, fun _ h => by simp at h⟩
    | cons u us ih =>
      intro b
      have ⟨hb, hus⟩ := ih (max b u)
      refine ⟨le_trans (le_max_left b u) hb, List.forall_mem_cons.mpr ⟨le_trans (le_max_right b u) hb, hus⟩⟩
  have hle : ∀ (us : List Int) (b : Int), b ≤ m → (∀ u ∈ us, u ≤ m) → us.foldl max b ≤ m := by
    intro us
    induction us with
    | nil => exact fun b hb _ => hb
    | cons u us ih =>
      exact fun b hb hus => ih _ (max_le hb (hus u List.mem_cons_self)) fun v hv => hus v (List.mem_cons_of_mem _ hv)
  refine le_antisymm (hle times 0 h0 habove) ?_
  rcases hin with rfl | hin
  · exact (hge times 0).1
  · exact (hge times 0).2 m hin

/-- The buckets of what was recorded hold each time once. -/
theorem sum_countP_bucketIndex (times : List Int) :
    ∑ b ∈ Finset.range 16, times.countP (bucketIndex · = b) = times.length := by
  induction times with
  | nil => simp
  | cons us times ih =>
    have hone : ∑ b ∈ Finset.range 16, (if bucketIndex us = b then 1 else 0) = 1 := by
      rw [Finset.sum_ite_eq, if_pos (Finset.mem_range.mpr (bucketIndex_lt us))]
    simp only [List.countP_cons, Finset.sum_add_distrib, decide_eq_true_eq, ih, hone, List.length_cons]

/-- However the accesses of the threads interleave, and however often the exchanges fail, what is in the count, the sum and
    the buckets of a stage and what the threads under way still owe to them is what was recorded of it, modulo `2 ^ 64`, and
    the maximum is one of the recorded times, or zero. Once all threads are done, the maximum is the greatest of them, or zero, and the
    buckets add up to the count. -/
theorem recorded_totals {s : State τ} (hr : Reaches step anyStep {} s) (k : Nat) :
    (s.count k + ∑ i, owesCount k (s.places i) = (timesOf s k).length ∧
     s.sum k + ∑ i, owesSum k (s.places i) = (timesOf s k).sum ∧
     (∀ b, s.buckets k b + ∑ i, owesBucket k b (s.places i) = (timesOf s k).countP (bucketIndex · = b)) ∧
     (s.max k = 0 ∨ s.max k ∈ timesOf s k)) ∧
    ((∀ i, s.places i = .idle) →
      s.count k = (timesOf s k).length ∧ s.sum k = (timesOf s k).sum ∧ s.max k = maxOf (timesOf s k) ∧
      (∀ b, s.buckets k b = (timesOf s k).countP (bucketIndex · = b)) ∧
      ∑ b ∈ Finset.range 16, s.buckets k b = s.count k) := by
  obtain ⟨htallied, hmax⟩ := reaches_inv hr
  refine ⟨⟨htallied.count k, htallied.sum k, htallied.bucket k, hmax.attained k⟩, fun hidle => ?_⟩
  have hcount : s.count k = (timesOf s k).length := by simpa [hidle, owesCount] using htallied.count k
  have hbucket (b : Nat) : s.buckets k b = (timesOf s k).countP (bucketIndex · = b) := by
    simpa [hidle, owesBucket] using htallied.bucket k b
  refine ⟨hcount, by simpa [hidle, owesSum] using htallied.sum k, ?_, hbucket, ?_⟩
  · have habove : ∀ us ∈ timesOf s k, us ≤ s.max k := fun us hus =>
      (hmax.above k us hus).resolve_right fun ⟨i, hi⟩ => by rw [hidle i] at hi; exact hi
    exact (maxOf_eq habove (hmax.nonneg k) (hmax.attained k)).symm
  · simp only [hbucket, hcount]
    rw [← Nat.cast_sum, sum_countP_bucketIndex]

/-- Two threads; the second raises the maximum between the look and the exchange of the first. -/
def twoRecords : List (Act Bool) :=
  [.record false 0 30, .record true 0 70, .next false false, .next false false, .next false false, .next true false,
    .next true false, .next true false, .next true false, .next false false, .next false false, .next false false,
    .next true false]

def afterTwoRecords : State Bool := (run step {} twoRecords).getD {}

theorem recorded_totals_two :
    afterTwoRecords.count 0 = 2 ∧ afterTwoRecords.max 0 = maxOf (timesOf afterTwoRecords 0) ∧ afterTwoRecords.max 0 = 70 := by
  have hrun : run step {} twoRecords = some afterTwoRecords := rfl
  have hr : Reaches step anyStep {} afterTwoRecords := Reaches.of_run (meets_anyStep _ _) hrun
  obtain ⟨hcount, -, hmax, -⟩ := (recorded_totals hr 0).2 (by decide)
  exact ⟨hcount, hmax, by decide⟩

end LatencyThreads

namespace CounterThreads
open Transition

variable {τ : Type} [DecidableEq τ]

/-- What one step does, for a thread that holds no freed memory. -/
inductive Moves (s : State τ) : State τ → Prop
  | call {i : τ} {name : String} {n : BitVec 64} (h : s.places i = .idle) :
      Moves s { moveTo s i (.find name n) with calls := s.calls ++ [(name, n)] }
  | miss {i : τ} {name : String} {n : BitVec 64} (h : s.places i = .find name n) (hnone : s.table name = none) :
      Moves s (moveTo s i (.ensure name n))
  | hit {i : τ} {name : String} {n : BitVec 64} {address : Nat} (h : s.places i = .find name n ∨ s.places i = .ensure name n)
      (hsome : s.table name = some address) : Moves s (moveTo s i (.add name n address))
  | make {i : τ} {name : String} {n : BitVec 64} (h : s.places i = .ensure name n) (hnone : s.table name = none) :
      Moves s { moveTo s i (.add name n s.fresh) with
        table := Function.update s.table name (some s.fresh)
        cells := Function.update s.cells s.fresh (some 0)
        fresh := s.fresh + 1 }
  | add {i : τ} {name : String} {n : BitVec 64} {address : Nat} {v : BitVec 64} (h : s.places i = .add name n address)
      (hcell : s.cells address = some v) :
      Moves s { moveTo s i .idle with cells := Function.update s.cells address (some (v + n)) }
  | reset (h : NoneHolds s) : Moves s { s with
      table := fun _ => none
      cells := fun _ => none
      forgotten := fun name => s.forgotten name + counterGet s name }

omit [DecidableEq τ] in
theorem NoneHolds.ne {s : State τ} (h : NoneHolds s) (i : τ) (name : String) (n : BitVec 64) (address : Nat) :
    s.places i ≠ .add name n address := fun hi => by simpa [hi, Place.holds] using h i

/-- Every counter of the table has memory of its own, and a thread that holds an address found it in the table. -/
structure Owned (s : State τ) : Prop where
  allocated : ∀ name address, s.table name = some address → address < s.fresh ∧ s.cells address ≠ none
  distinct : ∀ a b address, s.table a = some address → s.table b = some address → a = b
  held : ∀ i name n address, s.places i = .add name n address → s.table name = some address
  sound : s.fault = false

theorem moves_of_step {s t : State τ} {a : Act τ} (h : Owned s) (hok : QuietReset s a) (hs : step s a = some t) :
    Moves s t := by
  cases a with
  | counterInc i name n =>
    rcases hi : s.places i <;> simp only [step, hi, reduceCtorEq] at hs
    cases hs
    exact .call hi
  | next i =>
    rcases hi : s.places i with _ | ⟨name, n⟩ | ⟨name, n⟩ | ⟨name, n, address⟩ <;> simp only [step, hi, reduceCtorEq] at hs
    · rcases htable : s.table name with _ | address <;> simp only [htable] at hs <;> cases hs
      · exact .miss hi htable
      · exact .hit (.inl hi) htable
    · rcases htable : s.table name with _ | address <;> simp only [htable] at hs <;> cases hs
      · exact .make hi htable
      · exact .hit (.inr hi) htable
    · rcases hcell : s.cells address with _ | v <;> simp only [hcell] at hs <;> cases hs
      · exact absurd hcell (h.allocated name address (h.held i name n address hi)).2
      · exact .add hi hcell
  | reset =>
    cases hs
    exact .reset hok

omit [DecidableEq τ] in
theorem Owned.init : Owned ({} : State τ) :=
  ⟨fun _ _ h => by simp at h, fun _ _ _ h => by simp at h, fun _ _ _ _ h => by simp at h, rfl⟩

/-- A thread moves and the table and the memory stay. -/
theorem Owned.moveTo {s t : State τ} {i : τ} {p : Place} (h : Owned s) (htable : t.table = s.table)
    (hcells : t.cells = s.cells) (hfresh : t.fresh = s.fresh) (hfault : t.fault = s.fault)
    (hplaces : t.places = Function.update s.places i p)
    (hp : ∀ name n address, p = .add name n address → s.table name = some address) : Owned t := by
  refine ⟨?_, ?_, ?_, hfault.trans h.sound⟩
  · rw [htable, hcells, hfresh]
    exact h.allocated
  · rw [htable]
    exact h.distinct
  · rw [htable, hplaces]
    exact Threads.forall_update (R := fun _ q => ∀ name n address, q = Place.add name n address → s.table name = some address)
      h.held hp

theorem Owned.moves {s t : State τ} (h : Owned s) (hm : Moves s t) : Owned t := by
  cases hm with
  | call hi => exact h.moveTo rfl rfl rfl rfl rfl fun _ _ _ hp => by cases hp
  | miss hi hnone => exact h.moveTo rfl rfl rfl rfl rfl fun _ _ _ hp => by cases hp
  | hit hi hsome =>
    refine h.moveTo rfl rfl rfl rfl rfl fun _ _ _ hp => ?_
    cases hp
    exact hsome
  | @make i name n hi hnone =>
    -- The new address is above every address of the table.
    have hnew {a : String} {address : Nat} (ha : s.table a = some address) : address ≠ s.fresh :=
      (h.allocated a address ha).1.ne
    refine ⟨fun a address ha => ?_, fun a b address ha hb => ?_, ?_, h.sound⟩
    · by_cases haname : a = name
      · subst haname
        obtain rfl : s.fresh = address := by simpa using ha
        exact ⟨Nat.lt_succ_self _, by simp⟩
      · have hold : s.table a = some address := by simpa [haname] using ha
        refine ⟨Nat.lt_succ_of_lt (h.allocated a address hold).1, ?_⟩
        simpa [hnew hold] using (h.allocated a address hold).2
    · by_cases haname : a = name <;> by_cases hbname : b = name
      · rw [haname, hbname]
      · subst haname
        obtain rfl : s.fresh = address := by simpa using ha
        exact absurd rfl (hnew (a := b) (by simpa [hbname] using hb))
      · subst hbname
        obtain rfl : s.fresh = address := by simpa using hb
        exact absurd rfl (hnew (a := a) (by simpa [haname] using ha))
      · exact h.distinct a b address (by simpa [haname] using ha) (by simpa [hbname] using hb)
    · refine Threads.forall_update (R := fun _ q => ∀ a m address, q = Place.add a m address →
        Function.update s.table name (some s.fresh) a = some address) (fun j a m address hj => ?_) fun a m address hp => ?_
      · have hold := h.held j a m address hj
        rw [Function.update_of_ne fun ha => by rw [ha, hnone] at hold; cases hold]
        exact hold
      · cases hp
        rw [Function.update_self]
  | @add i name n address v hi hcell =>
    refine ⟨fun a other ha => ⟨(h.allocated a other ha).1, ?_⟩, h.distinct, ?_, h.sound⟩
    · by_cases hother : other = address
      · simp [hother]
      · simpa [hother] using (h.allocated a other ha).2
    · exact Threads.forall_update (R := fun _ q => ∀ a m other, q = Place.add a m other → s.table a = some other) h.held
        fun _ _ _ hp => by cases hp
  | reset hnone =>
    exact ⟨fun _ _ ha => by simp at ha, fun _ _ _ ha => by simp at ha,
      fun i a m address hi => absurd hi (hnone.ne i a m address), h.sound⟩

/-! ### The totals -/

/-- What was added to the counter of this name in all. -/
def totalOf (s : State τ) (name : String) : BitVec 64 := ((s.calls.filter (·.1 = name)).map (·.2)).sum

def owes (name : String) : Place → BitVec 64
  | .find a n | .ensure a n | .add a n _ => if a = name then n else 0
  | .idle => 0

variable [Fintype τ]

def Tallied (s : State τ) : Prop :=
  ∀ name, (counterGet s name + s.forgotten name) + ∑ i, owes name (s.places i) = totalOf s name

theorem Tallied.moves {s t : State τ} (h : Tallied s) (ho : Owned s) (hm : Moves s t) : Tallied t := by
  intro name
  cases hm with
  | @call i a n hi =>
    have htotal : totalOf { CounterThreads.moveTo s i (.find a n) with calls := s.calls ++ [(a, n)] } name =
        totalOf s name + if a = name then n else 0 := by
      by_cases ha : a = name <;> simp [totalOf, ha]
    rw [htotal]
    exact Threads.add_sum_update (owes name) (h name) (by simp [hi, owes, counterGet, moveTo])
  | @miss i a n hi hnone =>
    exact Threads.sum_update_of_paid (owes name) (h name) (by simp [hi, owes, counterGet, moveTo])
  | @hit i a n address hi hsome =>
    obtain hi | hi := hi <;>
      exact Threads.sum_update_of_paid (owes name) (h name) (by simp [hi, owes, counterGet, moveTo])
  | @make i a n hi hnone =>
    refine Threads.sum_update_of_paid (owes name) (h name) ?_
    by_cases ha : name = a
    · subst ha
      simp [hi, owes, counterGet, moveTo, hnone]
    · rcases hname : s.table name with _ | address
      · simp [hi, owes, counterGet, moveTo, ha, hname]
      · have hne : address ≠ s.fresh := (ho.allocated name address hname).1.ne
        simp [hi, owes, counterGet, moveTo, ha, hname, hne]
  | @add i a n address v hi hcell =>
    have htable := ho.held i a n address hi
    refine Threads.sum_update_of_paid (owes name) (h name) ?_
    by_cases ha : name = a
    · subst ha
      simp only [hi, owes, counterGet, moveTo, htable, hcell, Option.bind_some, Function.update_self, Option.getD_some,
        if_true]
      abel
    · rcases hname : s.table name with _ | other
      · simp [hi, owes, counterGet, moveTo, Ne.symm ha, hname]
      · have hne : other ≠ address := fun heq => ha (ho.distinct name a address (heq ▸ hname) htable)
        simp [hi, owes, counterGet, moveTo, Ne.symm ha, hname, hne]
  | reset hnone =>
    have hold := h name
    simp only [counterGet, Option.bind_none, Option.getD_none, totalOf] at hold ⊢
    rw [← hold]
    abel

/-- Where `reset` comes only while no thread holds the address of a counter, no thread writes to freed memory, distinct
    names have distinct counters, and no addition is lost or made twice: what a counter shows, what was thrown away with
    it, and what the threads under way still owe is what was added to it, modulo `2 ^ 64`. -/
theorem counterInc_totals {s : State τ} (hr : Reaches step QuietReset {} s) :
    s.fault = false ∧ (∀ a b address, s.table a = some address → s.table b = some address → a = b) ∧
      ∀ name, counterGet s name + s.forgotten name + ∑ i, owes name (s.places i) = totalOf s name := by
  have hinv : Owned s ∧ Tallied s := by
    refine hr.invariant (P := fun s => Owned s ∧ Tallied s) ⟨Owned.init, fun name => ?_⟩ fun u a t h hok hs => ?_
    · simp [counterGet, owes, totalOf]
    · have hm := moves_of_step h.1 hok hs
      exact ⟨h.1.moves hm, h.2.moves h.1 hm⟩
  exact ⟨hinv.1.sound, hinv.1.distinct, hinv.2⟩

/-- Two threads make the same counter. -/
def twoIncs : List (Act Bool) :=
  [.counterInc false "a" 2, .counterInc true "a" 3, .next false, .next true, .next true, .next false, .next false, .next true,
    .reset, .counterInc true "a" 5]

def afterTwoIncs : State Bool := (run step {} twoIncs).getD {}

theorem counterInc_totals_two :
    afterTwoIncs.fault = false ∧ afterTwoIncs.forgotten "a" = 5 ∧ totalOf afterTwoIncs "a" = 10 ∧
      counterGet afterTwoIncs "a" + afterTwoIncs.forgotten "a" + ∑ i, owes "a" (afterTwoIncs.places i) =
        totalOf afterTwoIncs "a" := by
  have hrun : run step {} twoIncs = some afterTwoIncs := rfl
  have hquiet : Meets step QuietReset {} twoIncs := by decide
  obtain ⟨hsound, -, htotals⟩ := counterInc_totals (Reaches.of_run hquiet hrun)
  exact ⟨hsound, by decide, by decide, htotals "a"⟩

end CounterThreads
end CrashCore
