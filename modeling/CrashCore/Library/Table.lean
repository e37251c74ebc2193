import CrashCore.Library.Connection
import Mathlib.Data.List.Nodup
import Mathlib.Tactic.Common

/-! A table with a key, over arbitrary rows and keys, and a cache in front of it. The rows have pairwise distinct keys and stand
in the order of their insertion. -/

structure Table {ρ κ : Type} (key : ρ → κ) where
  rows : List ρ := []
  nodup : (rows.map key).Nodup := by exact List.nodup_nil

namespace Table
variable {ρ κ : Type} {key : ρ → κ} {t t' : Table key} {row r : ρ} {k : κ}

@[ext] theorem ext (h : t.rows = t'.rows) : t = t' := by
  cases t
  cases t'
  cases h
  rfl

instance [DecidableEq ρ] : DecidableEq (Table key) := fun _ _ => decidable_of_iff _ ⟨ext, fun h => h ▸ rfl⟩

instance : Membership ρ (Table key) := ⟨fun t row => row ∈ t.rows⟩

/-- `t` has a row with the key `k`. -/
def Has (t : Table key) (k : κ) : Prop := ∃ r ∈ t, key r = k

instance [DecidableEq κ] : Decidable (t.Has k) := inferInstanceAs (Decidable (∃ r ∈ t.rows, key r = k))

section
variable [DecidableEq κ]

def find? (t : Table key) (k : κ) : Option ρ := t.rows.find? (key · = k)

/-- `INSERT … ON CONFLICT (key) DO NOTHING`. -/
def insertIfAbsent (t : Table key) (row : ρ) : Table key :=
  if h : t.Has (key row) then t else
    { rows := t.rows ++ [row]
      nodup := by
        rw [List.map_append, List.nodup_append]
        refine ⟨t.nodup, List.nodup_singleton _, fun a ha b hb hab => h ?_⟩
        obtain ⟨r, hr, rfl⟩ := List.mem_map.mp ha
        exact ⟨r, hr, hab.trans (List.mem_singleton.mp hb)⟩ }

end

/-- `UPDATE … SET`: every row is mapped to one with the same key. -/
def update (t : Table key) (f : ρ → ρ) (hf : ∀ r, key (f r) = key r) : Table key where
  rows := t.rows.map f
  nodup := by
    have hmap : (t.rows.map f).map key = t.rows.map key := by
      rw [List.map_map]
      exact List.map_congr_left fun r _ => hf r
    rw [hmap]
    exact t.nodup

/-- `INSERT … ON CONFLICT (key) DO UPDATE`: a row with the key becomes what `merge` makes of it and the new row. -/
def upsert [DecidableEq κ] (t : Table key) (row : ρ) (merge : ρ → ρ → ρ)
    (hmerge : ∀ old new, key (merge old new) = key old) : Table key :=
  if t.Has (key row) then
    t.update (fun r => if key r = key row then merge r row else r) fun r => by
      split
      · exact hmerge r row
      · rfl
  else t.insertIfAbsent row

/-- `DELETE … WHERE`. -/
def delete (t : Table key) (where_ : ρ → Prop) [DecidablePred where_] : Table key where
  rows := t.rows.filter fun r => ¬where_ r
  nodup := t.nodup.sublist (List.filter_sublist.map key)

/-! ### Rows and keys -/

theorem has_update {f : ρ → ρ} {hf : ∀ r, key (f r) = key r} : (t.update f hf).Has k ↔ t.Has k := by
  constructor
  · rintro ⟨r, hr, hk⟩
    obtain ⟨r', hr', rfl⟩ := List.mem_map.mp hr
    exact ⟨r', hr', (hf r').symm.trans hk⟩
  · rintro ⟨r, hr, hk⟩
    exact ⟨f r, List.mem_map.mpr ⟨r, hr, rfl⟩, (hf r).trans hk⟩

section
variable [DecidableEq κ]

theorem insertIfAbsent_of_has (h : t.Has (key row)) : t.insertIfAbsent row = t := dif_pos h

theorem insertIfAbsent_rows (h : ¬t.Has (key row)) : (t.insertIfAbsent row).rows = t.rows ++ [row] := by
  rw [insertIfAbsent, dif_neg h]

theorem mem_insertIfAbsent (h : r ∈ t) : r ∈ t.insertIfAbsent row := by
  by_cases hk : t.Has (key row)
  · rwa [insertIfAbsent_of_has hk]
  · show r ∈ (t.insertIfAbsent row).rows
    rw [insertIfAbsent_rows hk]
    exact List.mem_append_left _ h

theorem insertIfAbsent_has : (t.insertIfAbsent row).Has (key row) := by
  by_cases hk : t.Has (key row)
  · rwa [insertIfAbsent_of_has hk]
  · refine ⟨row, ?_, rfl⟩
    show row ∈ (t.insertIfAbsent row).rows
    rw [insertIfAbsent_rows hk]
    exact List.mem_append_right _ (List.mem_singleton.mpr rfl)

/-- The insertion changes nothing exactly if the key is taken. -/
theorem insertIfAbsent_eq_self : t.insertIfAbsent row = t ↔ t.Has (key row) :=
  ⟨fun h => h ▸ insertIfAbsent_has, insertIfAbsent_of_has⟩

theorem find?_eq_none : t.find? k = none ↔ ¬t.Has k := by
  simp [find?, Has, Membership.mem]

theorem find?_eq_some : t.find? k = some r ↔ r ∈ t ∧ key r = k := by
  constructor
  · intro h
    exact ⟨List.mem_of_find?_eq_some h, by simpa using List.find?_some h⟩
  · rintro ⟨hr, rfl⟩
    rcases hf : t.find? (key r) with _ | r'
    · exact absurd ⟨r, hr, rfl⟩ (find?_eq_none.mp hf)
    · have hr' : r' ∈ t.rows := List.mem_of_find?_eq_some hf
      have hk : key r' = key r := by simpa using List.find?_some hf
      rw [List.inj_on_of_nodup_map t.nodup hr' hr hk]

theorem find?_update (f : ρ → ρ) (hf : ∀ r, key (f r) = key r) : (t.update f hf).find? k = (t.find? k).map f := by
  have hkey : (fun r => decide (key r = k)) ∘ f = fun r => decide (key r = k) := by
    funext r
    simp only [Function.comp_apply, hf]
  show (t.rows.map f).find? _ = _
  rw [List.find?_map, hkey]
  rfl

/-- After the insertion the key has its old row, or the new one if there was none. -/
theorem find?_insertIfAbsent (t : Table key) (row : ρ) :
    (t.insertIfAbsent row).find? (key row) = some ((t.find? (key row)).getD row) := by
  rcases hf : t.find? (key row) with _ | r
  · have hk : ¬t.Has (key row) := find?_eq_none.mp hf
    refine find?_eq_some.mpr ⟨?_, rfl⟩
    show row ∈ (t.insertIfAbsent row).rows
    rw [insertIfAbsent_rows hk]
    exact List.mem_append_right _ (List.mem_singleton.mpr rfl)
  · obtain ⟨hr, hk⟩ := find?_eq_some.mp hf
    exact find?_eq_some.mpr ⟨mem_insertIfAbsent hr, hk⟩

theorem find?_insertIfAbsent_ne (h : key row ≠ k) : (t.insertIfAbsent row).find? k = t.find? k := by
  by_cases hk : t.Has (key row)
  · rw [insertIfAbsent_of_has hk]
  · unfold find?
    rw [insertIfAbsent_rows hk, List.find?_append]
    simp [h]

/-- After the upsert the key has what `merge` makes of its old row, or the new one if there was none. -/
theorem find?_upsert (t : Table key) (row : ρ) {merge : ρ → ρ → ρ} {hmerge : ∀ old new, key (merge old new) = key old} :
    (t.upsert row merge hmerge).find? (key row) = some ((t.find? (key row)).elim row (merge · row)) := by
  by_cases hk : t.Has (key row)
  · obtain ⟨old, hold⟩ := Option.ne_none_iff_exists'.mp fun hnone => find?_eq_none.mp hnone hk
    rw [upsert, if_pos hk, find?_update, hold, Option.map_some, if_pos (find?_eq_some.mp hold).2]
    rfl
  · rw [upsert, if_neg hk, find?_insertIfAbsent, find?_eq_none.mpr hk]
    rfl

theorem find?_upsert_ne {merge : ρ → ρ → ρ} {hmerge : ∀ old new, key (merge old new) = key old} (h : key row ≠ k) :
    (t.upsert row merge hmerge).find? k = t.find? k := by
  by_cases hk : t.Has (key row)
  · rw [upsert, if_pos hk, find?_update]
    rcases hf : t.find? k with _ | r
    · rfl
    · rw [Option.map_some, if_neg fun heq => h (heq.symm.trans (find?_eq_some.mp hf).2)]
  · rw [upsert, if_neg hk, find?_insertIfAbsent_ne h]

theorem countP_insertIfAbsent (t : Table key) (row : ρ) (p : ρ → Bool) :
    (t.insertIfAbsent row).rows.countP p = t.rows.countP p + if ¬t.Has (key row) ∧ p row then 1 else 0 := by
  by_cases hk : t.Has (key row)
  · rw [insertIfAbsent_of_has hk, if_neg fun h => h.1 hk, Nat.add_zero]
  · rw [insertIfAbsent_rows hk, List.countP_append, List.countP_singleton]
    simp only [hk, not_false_eq_true, true_and]

end
end Table

/-! ### A cache

What is written goes to the table and to the cache, a value that is not in the cache is read from its row and kept. `view`
is what the rows tell of a value. -/

structure TableCache {ρ κ : Type} (key : ρ → κ) (ε : Type) where
  table : Table key
  cache : κ → Option ε := fun _ => none

namespace TableCache
variable {ρ κ ε π : Type} {key : ρ → κ} [DecidableEq κ] {read : ρ → ε} {view : ε → π} {s : TableCache key ε}
  {table : Table key} {k : κ} {e : ε} {row : ρ}

/-- The table after a write of `e` under `k`, and the cache with it. -/
def put (s : TableCache key ε) (table : Table key) (k : κ) (e : ε) : TableCache key ε where
  table := table
  cache := fun k' => if k' = k then some e else s.cache k'

def get (read : ρ → ε) (s : TableCache key ε) (k : κ) : TableCache key ε × Option ε :=
  match s.cache k with
  | some e => (s, some e)
  | none =>
    match s.table.find? k with
    | some row => (s.put s.table k (read row), some (read row))
    | none => (s, none)

/-- What the cache answers is what an empty cache in front of the same table answers. -/
def Coherent (read : ρ → ε) (view : ε → π) (s : TableCache key ε) : Prop :=
  ∀ k, s.cache k ≠ none → (s.get read k).2.map view = (get read { table := s.table } k).2.map view

theorem get_of_cached (h : s.cache k = some e) : s.get read k = (s, some e) := by
  rw [get, h]

theorem get_fresh (table : Table key) (k : κ) :
    (get read ({ table := table } : TableCache key ε) k).2 = (table.find? k).map read := by
  unfold get
  dsimp only
  rcases table.find? k with _ | row
  · rfl
  · rfl

theorem coherent_iff :
    s.Coherent read view ↔ ∀ k e, s.cache k = some e → (s.table.find? k).map (view ∘ read) = some (view e) := by
  have hview (k : κ) :
      (get read ({ table := s.table } : TableCache key ε) k).2.map view = (s.table.find? k).map (view ∘ read) := by
    rw [get_fresh, Option.map_map]
  constructor
  · intro h k e he
    have hk := h k (he ▸ Option.some_ne_none e)
    rw [get_of_cached he, hview] at hk
    exact hk.symm
  · intro h k hk
    obtain ⟨e, he⟩ := Option.ne_none_iff_exists'.mp hk
    rw [get_of_cached he, hview]
    exact (h k e he).symm

/-- An empty cache is coherent. -/
theorem coherent_fresh : ({ table := table } : TableCache key ε).Coherent read view :=
  coherent_iff.mpr fun _ _ he => nomatch he

/-- A write that leaves the rows of the other keys keeps the cache coherent exactly if the row that it leaves under
    its own key tells what was written. -/
theorem coherent_put (hs : s.Coherent read view) (hother : ∀ k', k ≠ k' → table.find? k' = s.table.find? k')
    (hrow : table.find? k = some row) : (s.put table k e).Coherent read view ↔ view (read row) = view e := by
  rw [coherent_iff]
  constructor
  · intro h
    have hk := h k e (if_pos rfl)
    have htable : (s.put table k e).table = table := rfl
    rw [htable, hrow] at hk
    exact Option.some.inj hk
  · intro h k' e' he'
    show (table.find? k').map (view ∘ read) = some (view e')
    by_cases hk : k' = k
    · obtain rfl : e = e' := Option.some.inj ((if_pos hk).symm.trans he')
      rw [hk, hrow, Option.map_some, Function.comp_apply, h]
    · rw [hother k' (Ne.symm hk)]
      exact coherent_iff.mp hs k' e' ((if_neg hk).symm.trans he')

/-- What is read may be kept. -/
theorem coherent_get (hs : s.Coherent read view) (k : κ) : (s.get read k).1.Coherent read view := by
  unfold get
  rcases s.cache k with _ | e
  · dsimp only
    rcases hrow : s.table.find? k with _ | row
    · exact hs
    · exact (coherent_put hs (fun _ _ => rfl) hrow).mpr rfl
  · exact hs

theorem get_table (s : TableCache key ε) (k : κ) : (s.get read k).1.table = s.table := by
  unfold get
  rcases s.cache k with _ | e
  · dsimp only
    rcases s.table.find? k with _ | row
    · rfl
    · rfl
  · rfl

end TableCache

/-! ### Logged contents

Database contents with a log of the writes that made them, over arbitrary contents and writes. The log is
part of the contents: it is rolled back and committed with them, so it says whose writes are in effect. A
connection to logged contents behaves as the one to the contents alone (`exec_map` and the lemmas after it). -/

structure Logged (D ω : Type) where
  data : D
  log : List ω := []
deriving DecidableEq

/-- The statement, and an entry in the log if it succeeds. -/
def Statement.logged {D ω : Type} (stmt : Statement D) (w : ω) : Statement (Logged D ω) := fun d =>
  match stmt d.data with
  | .ok e => .ok ⟨e, d.log ++ [w]⟩
  | .error m => .error m

theorem Statement.logged_ok {D ω : Type} {stmt : Statement D} {w : ω} {d e : Logged D ω}
    (h : stmt.logged w d = .ok e) : e.log = d.log ++ [w] := by
  unfold Statement.logged at h
  split at h
  · cases h
    rfl
  · cases h

namespace Connection
variable {D E ω : Type} {c : Connection D} {stmt : Statement D} {fault : Fault} {w : ω}

def map (f : D → E) (c : Connection D) : Connection E where
  committed := f c.committed
  tx :=
    match c.tx with
    | .idle => .idle
    | .inTx w => .inTx (f w)
    | .aborted => .aborted

theorem attempt_logged_ok {d : Logged D ω} {e : D} (h : attempt stmt fault d.data = .ok e) :
    attempt (stmt.logged w) fault d = .ok ⟨e, d.log ++ [w]⟩ := by
  obtain ⟨rfl, he⟩ := attempt_eq_ok.mp h
  rw [attempt_none, Statement.logged, he]

theorem attempt_logged_error {d : Logged D ω} {m : String} (h : attempt stmt fault d.data = .error m) :
    attempt (stmt.logged w) fault d = .error m := by
  cases fault with
  | none => rw [attempt_none, Statement.logged, show stmt d.data = .error m from h]
  | some m' =>
    cases h
    rfl

/-- The log does not change what a statement does to the data, nor its result. -/
theorem exec_map {c c' : Connection (Logged D ω)} {r : Except String Unit} (h : c.exec (stmt.logged w) fault = (c', r)) :
    (c.map Logged.data).exec stmt fault = (c'.map Logged.data, r) := by
  obtain ⟨d, tx⟩ := c
  cases tx with
  | idle =>
    rcases ha : attempt stmt fault d.data with m | e
    · rw [exec_idle_error (attempt_logged_error ha)] at h
      cases h
      exact exec_idle_error ha
    · rw [exec_idle_ok (attempt_logged_ok ha)] at h
      cases h
      exact exec_idle_ok ha
  | inTx e =>
    rcases ha : attempt stmt fault e.data with m | e'
    · rw [exec_inTx_error (attempt_logged_error ha)] at h
      cases h
      exact exec_inTx_error ha
    · rw [exec_inTx_ok (attempt_logged_ok ha)] at h
      cases h
      exact exec_inTx_ok ha
  | aborted =>
    cases h
    rfl

theorem beginTx_map (f : D → E) (c : Connection D) (fault : Fault) :
    (c.map f).beginTx fault = ((c.beginTx fault).1.map f, (c.beginTx fault).2) := by
  obtain ⟨d, tx⟩ := c
  cases tx <;> cases fault <;> rfl

theorem commit_map (f : D → E) (c : Connection D) (fault : Fault) :
    (c.map f).commit fault = ((c.commit fault).1.map f, (c.commit fault).2) := by
  obtain ⟨d, tx⟩ := c
  cases tx <;> cases fault <;> rfl

theorem rollback_map (f : D → E) (c : Connection D) (fault : Fault) :
    (c.map f).rollback fault = ((c.rollback fault).1.map f, (c.rollback fault).2) := by
  obtain ⟨d, tx⟩ := c
  cases tx <;> cases fault <;> rfl

end Connection
