import Mathlib.Data.Option.Basic

/-! Runs of a partial step function. `step s a = none` says that action `a` cannot happen in `s`.

`Reaches step ok s₀ s` collects the states of all runs from `s₀` whose steps meet `ok`; an invariant is
proved once for one step and carried to them by `Reaches.invariant`. `run`, `Meets` and `Along` speak of
one given list of actions, so that a concrete run can be computed. -/

namespace Transition

variable {σ α : Type} {step : σ → α → Option σ} {ok : σ → α → Prop} {P : σ → Prop} {s s₀ t u : σ}

/-- The states reached from `s₀` by runs whose steps all meet `ok`. -/
inductive Reaches (step : σ → α → Option σ) (ok : σ → α → Prop) (s₀ : σ) : σ → Prop
  | refl : Reaches step ok s₀ s₀
  | step {s t : σ} {a : α} : Reaches step ok s₀ s → ok s a → step s a = some t → Reaches step ok s₀ t

/-- No condition on the steps. -/
def anyStep (_ : σ) (_ : α) : Prop := True

theorem Reaches.invariant (h0 : P s₀) (hstep : ∀ s a t, P s → ok s a → step s a = some t → P t)
    (hr : Reaches step ok s₀ s) : P s := by
  induction hr with
  | refl => exact h0
  | step _ hok hs ih => exact hstep _ _ _ ih hok hs

theorem Reaches.trans (h₁ : Reaches step ok s t) (h₂ : Reaches step ok t u) : Reaches step ok s u := by
  induction h₂ with
  | refl => exact h₁
  | step _ hok hs ih => exact .step ih hok hs

/-! ### Given runs -/

/-- The state after the given actions, when each of them can happen. -/
def run (step : σ → α → Option σ) : σ → List α → Option σ
  | s, [] => some s
  | s, a :: as => (step s a).bind (run step · as)

theorem run_append : ∀ (as bs : List α) (s : σ), run step s (as ++ bs) = (run step s as).bind (run step · bs)
  | [], _, _ => rfl
  | a :: as, bs, s => by
    rcases hsa : step s a with _ | t
    · simp [run, hsa]
    · simpa [run, hsa] using run_append as bs t

/-- Steps that agree under a map make runs that do. -/
theorem run_map {τ : Type} {step' : τ → α → Option τ} (f : σ → τ) (h : ∀ s a, (step s a).map f = step' (f s) a) :
    ∀ (as : List α) (s : σ), (run step s as).map f = run step' (f s) as
  | [], _ => rfl
  | a :: as, s => by
    rw [run, run, ← h, Option.map_bind, Option.bind_map]
    exact congrArg _ (funext fun t => run_map f h as t)

/-- Where every action can happen in every state, every run can. -/
theorem run_ne_none (htotal : ∀ s a, step s a ≠ none) : ∀ (as : List α) (s : σ), run step s as ≠ none
  | [], _ => Option.some_ne_none _
  | a :: as, s => by
    obtain ⟨t, ht⟩ := Option.ne_none_iff_exists'.mp (htotal s a)
    rw [run, ht, Option.bind_some]
    exact run_ne_none htotal as t

/-- A run that can happen goes on after its first step. -/
theorem exists_step_of_run {a : α} {as : List α} (hr : run step s (a :: as) ≠ none) :
    ∃ t, step s a = some t ∧ run step t as ≠ none := by
  rcases hsa : step s a with _ | t
  · simp [run, hsa] at hr
  · exact ⟨t, rfl, by simpa [run, hsa] using hr⟩

/-- Each step of the given run meets `ok` (up to the first action that cannot happen). -/
def Meets (step : σ → α → Option σ) (ok : σ → α → Prop) : σ → List α → Prop
  | _, [] => True
  | s, a :: as => ok s a ∧ ∀ t, step s a = some t → Meets step ok t as

/-- Each state of the given run satisfies `P`, the first and the last one included. -/
def Along (step : σ → α → Option σ) (P : σ → Prop) : σ → List α → Prop
  | s, [] => P s
  | s, a :: as => P s ∧ ∀ t, step s a = some t → Along step P t as

/-- A condition that is decided step by step is decided for a run. -/
instance Meets.decidable [∀ s a, Decidable (ok s a)] : ∀ (s : σ) (as : List α), Decidable (Meets step ok s as)
  | _, [] => .isTrue trivial
  | s, a :: as =>
    match hs : step s a with
    | none => decidable_of_iff (ok s a) ⟨fun h => ⟨h, fun t ht => by rw [hs] at ht; cases ht⟩, fun h => h.1⟩
    | some t =>
      have := Meets.decidable t as
      decidable_of_iff (ok s a ∧ Meets step ok t as)
        ⟨fun h => ⟨h.1, fun u hu => by rw [hs] at hu; cases hu; exact h.2⟩, fun h => ⟨h.1, h.2 t hs⟩⟩

theorem Reaches.of_run : ∀ {as : List α} {s : σ}, Meets step ok s as → run step s as = some t →
    Reaches step ok s t
  | [], s, _, hr => by
    cases hr
    exact .refl
  | a :: as, s, hm, hr => by
    obtain ⟨u, hu, hr⟩ := Option.bind_eq_some_iff.mp hr
    exact (Reaches.step .refl hm.1 hu).trans (Reaches.of_run (hm.2 u hu) hr)

theorem meets_anyStep : ∀ (as : List α) (s : σ), Meets step anyStep s as
  | [], _ => trivial
  | _ :: as, _ => ⟨trivial, fun t _ => meets_anyStep as t⟩

/-- A run of actions that all satisfy `Q`. -/
theorem meets_of_forall {Q : α → Prop} : ∀ {as : List α} (s : σ), (∀ a ∈ as, Q a) → Meets step (fun _ => Q) s as
  | [], _, _ => trivial
  | _ :: _, _, h =>
    ⟨h _ List.mem_cons_self, fun t _ => meets_of_forall t fun a ha => h a (List.mem_cons_of_mem _ ha)⟩

theorem Along.head : ∀ {as : List α} {s : σ}, Along step P s as → P s
  | [], _, h => h
  | _ :: _, _, h => h.1

theorem Along.last : ∀ {as : List α} {s : σ}, Along step P s as → run step s as = some t → P t
  | [], _, h, hr => by
    cases hr
    exact h
  | _ :: _, _, h, hr => by
    obtain ⟨u, hu, hr⟩ := Option.bind_eq_some_iff.mp hr
    exact (h.2 u hu).last hr

/-- A property that follows from an invariant of all steps holds along every run. -/
theorem Along.of_invariant {I : σ → Prop} (hI : ∀ s, I s → P s) (hstep : ∀ s a t, I s → step s a = some t → I t) :
    ∀ {as : List α} {s : σ}, I s → Along step P s as
  | [], s, hs => hI s hs
  | a :: _, s, hs => ⟨hI s hs, fun t ht => Along.of_invariant hI hstep (hstep s a t hs ht)⟩

/-- A run whose steps are `ok` keeps an invariant of the `ok` steps. -/
theorem Meets.along {I : σ → Prop} (hI : ∀ s, I s → P s) (hkeep : ∀ s a t, I s → ok s a → step s a = some t → I t) :
    ∀ {as : List α} {s : σ}, I s → Meets step ok s as → Along step P s as
  | [], s, hs, _ => hI s hs
  | a :: _, s, hs, hm => ⟨hI s hs, fun t ht => Meets.along hI hkeep (hkeep s a t hs hm.1 ht) (hm.2 t ht)⟩

/-- In a run whose states satisfy `P`, each step is `ok`, if it must be to lead from the invariant `I` to `P`. -/
theorem Along.meets {I : σ → Prop} (hkeep : ∀ s a t, I s → ok s a → step s a = some t → I t)
    (hneed : ∀ s a t, I s → step s a = some t → P t → ok s a) :
    ∀ {as : List α} {s : σ}, I s → run step s as ≠ none → Along step P s as → Meets step ok s as
  | [], _, _, _, _ => trivial
  | a :: as, s, hs, hr, h => by
    obtain ⟨t, hsa, hrest⟩ := exists_step_of_run hr
    have hok : ok s a := hneed s a t hs hsa (h.2 t hsa).head
    refine ⟨hok, fun u hu => ?_⟩
    obtain rfl : t = u := Option.some.inj (hsa.symm.trans hu)
    exact Along.meets hkeep hneed (hkeep s a t hs hok hsa) hrest (h.2 t hsa)

/-- A run that ends in a state without `P` is no run along `P`. -/
theorem not_along_of_last {as : List α} (hr : run step s as = some t) (h : ¬P t) : ¬Along step P s as :=
  fun ha => h (ha.last hr)

/-- When, from states that satisfy the invariant `I`, a step meets `ok` exactly if it leads to a state that
    satisfies `P` (and then keeps `I`), a run meets `ok` exactly if all its states satisfy `P`. -/
theorem along_iff_meets {I : σ → Prop} (hI : ∀ s, I s → P s)
    (hkeep : ∀ s a t, I s → ok s a → step s a = some t → I t)
    (hneed : ∀ s a t, I s → step s a = some t → P t → ok s a) {as : List α} {s : σ} (hs : I s)
    (hr : run step s as ≠ none) : Along step P s as ↔ Meets step ok s as :=
  ⟨Along.meets hkeep hneed hs hr, Meets.along hI hkeep hs⟩

/-- The same for every list of actions, where an action that cannot happen meets `ok`. -/
theorem along_iff_meets_of_disabled {I : σ → Prop} (hI : ∀ s, I s → P s)
    (hkeep : ∀ s a t, I s → ok s a → step s a = some t → I t)
    (hneed : ∀ s a t, I s → step s a = some t → P t → ok s a) (hdisabled : ∀ s a, step s a = none → ok s a) :
    ∀ {as : List α} {s : σ}, I s → (Along step P s as ↔ Meets step ok s as)
  | [], s, hs => iff_of_true (hI s hs) trivial
  | a :: as, s, hs => by
    rcases hsa : step s a with _ | t
    · have hno {Q : σ → Prop} : ∀ t, step s a = some t → Q t := fun t ht => by
        rw [hsa] at ht
        cases ht
      exact iff_of_true ⟨hI s hs, hno⟩ ⟨hdisabled s a hsa, hno⟩
    · have hrest (hok : ok s a) : Along step P t as ↔ Meets step ok t as :=
        along_iff_meets_of_disabled hI hkeep hneed hdisabled (hkeep s a t hs hok hsa)
      have honly {Q : σ → Prop} : (∀ u, step s a = some u → Q u) ↔ Q t :=
        ⟨fun h => h t hsa, fun h u hu => Option.some.inj (hsa.symm.trans hu) ▸ h⟩
      constructor
      · intro h
        have ht := honly.mp h.2
        have hok : ok s a := hneed s a t hs hsa ht.head
        exact ⟨hok, honly.mpr ((hrest hok).mp ht)⟩
      · intro h
        exact ⟨hI s hs, honly.mpr ((hrest h.1).mpr (honly.mp h.2))⟩

/-- The same where every action can happen and a step from `P` leads to `P` exactly if it meets `ok`. -/
theorem along_iff_meets_of_total (htotal : ∀ s a, step s a ≠ none)
    (hstep : ∀ s a t, P s → step s a = some t → (P t ↔ ok s a)) (hs : P s) (as : List α) :
    Along step P s as ↔ Meets step ok s as :=
  along_iff_meets_of_disabled (fun _ h => h) (fun s a t h hok ht => (hstep s a t h ht).mpr hok)
    (fun s a t h ht hp => (hstep s a t h ht).mp hp) (fun s a h => absurd h (htotal s a)) hs

/-- When each step keeps `P` exactly if it is `ok`, and no step brings `P` back, the end of a run tells whether all
    its steps were `ok`. -/
theorem last_iff_meets {I : σ → Prop} (hkeep : ∀ s a t, I s → step s a = some t → I t)
    (hstep : ∀ s a t, I s → step s a = some t → (P t ↔ P s ∧ ok s a)) :
    ∀ {as : List α} {s : σ}, I s → run step s as = some t → (P t ↔ P s ∧ Meets step ok s as)
  | [], s, _, hr => by
    cases hr
    exact ⟨fun h => ⟨h, trivial⟩, And.left⟩
  | a :: as, s, hs, hr => by
    obtain ⟨u, hu, hr⟩ := Option.bind_eq_some_iff.mp hr
    rw [last_iff_meets hkeep hstep (hkeep s a u hs hu) hr, hstep s a u hs hu, and_assoc]
    refine and_congr_right fun _ => and_congr_right fun _ => ⟨fun h v hv => ?_, fun h => h u hu⟩
    obtain rfl : u = v := Option.some.inj (hu.symm.trans hv)
    exact h

theorem run_invariant (hkeep : ∀ s a t, P s → step s a = some t → P t) :
    ∀ {as : List α} {s : σ}, P s → run step s as = some t → P t
  | [], _, hs, hr => by
    cases hr
    exact hs
  | _ :: _, s, hs, hr => by
    obtain ⟨u, hu, hr⟩ := Option.bind_eq_some_iff.mp hr
    exact run_invariant hkeep (hkeep s _ u hs hu) hr

/-! ### Actions that always happen -/

/-- A counter that grows by one with the actions that have `p`, and with no others, counts them. -/
theorem foldl_count {f : σ → α → σ} {p : α → Prop} [DecidablePred p] (count : σ → Nat)
    (hstep : ∀ s a, count (f s a) = count s + if p a then 1 else 0) :
    ∀ (as : List α) (s : σ), count (as.foldl f s) = count s + (as.filter p).length
  | [], _ => rfl
  | a :: as, s => by
    rw [List.foldl_cons, foldl_count count hstep as, hstep]
    by_cases h : p a
    · rw [if_pos h, List.filter_cons_of_pos (by simpa using h), List.length_cons]
      omega
    · rw [if_neg h, List.filter_cons_of_neg (by simpa using h), Nat.add_zero]

/-! ### Relations along a run -/

theorem Along.mono {Q : σ → Prop} (h : ∀ s, P s → Q s) : ∀ {as : List α} {s : σ}, Along step P s as → Along step Q s as
  | [], s, hs => h s hs
  | _ :: _, s, hs => ⟨h s hs.1, fun t ht => (hs.2 t ht).mono h⟩

/-- Each state of the given run is in relation `R` to itself and to every later one. -/
def AlongPairs (step : σ → α → Option σ) (R : σ → σ → Prop) : σ → List α → Prop
  | s, [] => R s s
  | s, a :: as => Along step (R s) s (a :: as) ∧ ∀ t, step s a = some t → AlongPairs step R t as

theorem AlongPairs.head {R : σ → σ → Prop} : ∀ {as : List α} {s : σ}, AlongPairs step R s as → Along step (R s) s as
  | [], _, h => h
  | _ :: _, _, h => h.1

/-- In a run with the invariant `I` whose states are ordered by `R`, each step is `ok`, if it must be to be in `R`. -/
theorem AlongPairs.meets {R : σ → σ → Prop} {I : σ → Prop} (hkeep : ∀ s a t, I s → step s a = some t → I t)
    (hneed : ∀ s a t, I s → step s a = some t → R s t → ok s a) :
    ∀ {as : List α} {s : σ}, I s → run step s as ≠ none → AlongPairs step R s as → Meets step ok s as
  | [], _, _, _, _ => trivial
  | a :: as, s, hs, hr, h => by
    obtain ⟨t, hsa, hrest⟩ := exists_step_of_run hr
    refine ⟨hneed s a t hs hsa (h.1.2 t hsa).head, fun u hu => ?_⟩
    obtain rfl : t = u := Option.some.inj (hsa.symm.trans hu)
    exact AlongPairs.meets hkeep hneed (hkeep s a t hs hsa) hrest (h.2 t hsa)

/-- A run whose steps are `ok`, hence in the preorder `R`, is ordered by `R`. -/
theorem Meets.alongPairs {R : σ → σ → Prop} {I : σ → Prop} (hrefl : ∀ s, R s s)
    (htrans : ∀ s t u, R s t → R t u → R s u) (hkeep : ∀ s a t, I s → step s a = some t → I t)
    (hstep : ∀ s a t, I s → step s a = some t → ok s a → R s t) :
    ∀ {as : List α} {s : σ}, I s → Meets step ok s as → AlongPairs step R s as
  | [], s, _, _ => hrefl s
  | a :: as, s, hs, h => by
    have hrest : ∀ t, step s a = some t → AlongPairs step R t as := fun t ht =>
      Meets.alongPairs hrefl htrans hkeep hstep (hkeep s a t hs ht) (h.2 t ht)
    exact ⟨⟨hrefl s, fun t ht => (hrest t ht).head.mono fun u hu => htrans s t u (hstep s a t hs ht h.1) hu⟩, hrest⟩

end Transition
