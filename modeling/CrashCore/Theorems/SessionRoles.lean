import CrashCore.Auth.SessionStore
import CrashCore.Library.Run

/-! What a session id allows and the roles that it was created with. Two sessions of one user in one millisecond have the
same id, and the second one replaces the first. -/

namespace CrashCore.SessionStore
open Transition

inductive Entry
  | created (x : Session)
  | revoked (id : String)

/-- The store, the clock, and what was created and revoked. -/
structure State where
  store : SessionStore := {}
  now : Int
  log : List Entry := []

/-- `elapsed` milliseconds pass between the two times that `create` reads the clock. -/
inductive Act
  | create (userId role : String) (ttlMs : Int) (elapsed : Nat)
  | revoke (id : String)
  | advance (elapsed : Nat)

def next (s : State) : Act → State
  | .create userId role ttlMs elapsed =>
    { store := (s.store.create userId role s.now (s.now + elapsed) ttlMs).2
      now := s.now + elapsed
      log := s.log ++ [.created (newSession userId role s.now (s.now + elapsed) ttlMs)] }
  | .revoke id => { s with store := s.store.revoke id, log := s.log ++ [.revoked id] }
  | .advance elapsed => { s with now := s.now + elapsed }

def step (s : State) (a : Act) : Option State := some (next s a)

/-- Some unexpired session was created with the id, and the id was not revoked since. -/
def Live (s : State) (id : String) : Prop :=
  ∃ before x after, s.log = before ++ .created x :: after ∧ x.id = id ∧ s.now ≤ x.expiresAtMs ∧ .revoked id ∉ after

/-- What is allowed now follows from every creation with the id. -/
def Follows (s : State) : Prop := ∀ id minRole, s.store.authorize id minRole s.now = true →
  (∀ x, .created x ∈ s.log → x.id = id → Dominates x.role minRole) ∧ Live s id

/-- A session that is not expired at once gets no id that was created for a lower role. -/
def KeepsRoles (s : State) : Act → Prop
  | .create userId role ttlMs _ => 0 ≤ ttlMs →
    ∀ x, .created x ∈ s.log → x.id = Session.idOf userId s.now → rank role ≤ rank x.role
  | .revoke _ | .advance _ => True

/-- The stored sessions are the latest created ones, and no session with the same id has a lower role. -/
structure Kept (s : State) : Prop where
  traced : ∀ id x, s.store.sessions id = some x →
    ∃ before after, s.log = before ++ .created x :: after ∧ x.id = id ∧ .revoked id ∉ after
  lowest : ∀ id x, s.store.sessions id = some x → s.now ≤ x.expiresAtMs →
    ∀ y, .created y ∈ s.log → y.id = id → rank x.role ≤ rank y.role

variable {s t : State} {a : Act} {id : String} {x : Session} {e : Entry}

theorem Kept.follows (h : Kept s) : Follows s := by
  intro id minRole hauth
  obtain ⟨x, hstored, hfresh, hdominates⟩ := authorize_iff.mp hauth
  obtain ⟨before, after, hlog, hid, hrevoked⟩ := h.traced id x hstored
  exact ⟨fun y hy hyid => hdominates.trans (h.lowest id x hstored hfresh y hy hyid),
    before, x, after, hlog, hid, hfresh, hrevoked⟩

theorem kept_initial (now : Int) : Kept { now } := ⟨by rintro id x ⟨⟩, by rintro id x ⟨⟩⟩

/-- An entry that does not revoke the id keeps the trace of its session. -/
theorem traced_concat (h : Kept s) (hstored : s.store.sessions id = some x) (he : e ≠ .revoked id) :
    ∃ before after, s.log ++ [e] = before ++ .created x :: after ∧ x.id = id ∧ .revoked id ∉ after := by
  obtain ⟨before, after, hlog, hid, hrevoked⟩ := h.traced id x hstored
  refine ⟨before, after ++ [e], by simp [hlog], hid, ?_⟩
  simp [hrevoked, he.symm]

theorem kept_create {userId role : String} {ttlMs : Int} {elapsed : Nat} (h : Kept s)
    (hok : KeepsRoles s (.create userId role ttlMs elapsed)) : Kept (next s (.create userId role ttlMs elapsed)) := by
  let new := newSession userId role s.now (s.now + elapsed) ttlMs
  -- Either the id is the new one, or the session was stored before.
  have hcases {id x} (hstored : Function.update s.store.sessions new.id (some new) id = some x) :
      (id = new.id ∧ x = new) ∨ (id ≠ new.id ∧ s.store.sessions id = some x) := by
    by_cases hid : id = new.id
    · subst hid
      rw [Function.update_self] at hstored
      exact .inl ⟨rfl, (Option.some.inj hstored).symm⟩
    · rw [Function.update_of_ne hid] at hstored
      exact .inr ⟨hid, hstored⟩
  constructor
  · intro id x hstored
    rcases hcases hstored with ⟨rfl, rfl⟩ | ⟨-, hstored⟩
    · exact ⟨s.log, [], rfl, rfl, List.not_mem_nil⟩
    · exact traced_concat h hstored nofun
  · intro id x hstored hfresh y hy hyid
    have hy : .created y ∈ s.log ∨ y = new := by simpa [next] using hy
    have hfresh : s.now + elapsed ≤ x.expiresAtMs := hfresh
    rcases hcases hstored with ⟨rfl, rfl⟩ | ⟨hne, hstored⟩
    · rcases hy with hy | rfl
      · have hexpires : new.expiresAtMs = s.now + elapsed + ttlMs := rfl
        exact hok (by omega) y hy hyid
      · exact Nat.le_refl _
    · rcases hy with hy | rfl
      · exact h.lowest id x hstored (by omega) y hy hyid
      · exact absurd hyid.symm hne

theorem kept_revoke (h : Kept s) (revoked : String) : Kept (next s (.revoke revoked)) := by
  have hcases {id x} (hstored : Function.update s.store.sessions revoked none id = some x) :
      id ≠ revoked ∧ s.store.sessions id = some x := by
    by_cases hid : id = revoked
    · subst hid
      rw [Function.update_self] at hstored
      cases hstored
    · rw [Function.update_of_ne hid] at hstored
      exact ⟨hid, hstored⟩
  constructor
  · intro id x hstored
    obtain ⟨hne, hstored⟩ := hcases hstored
    refine traced_concat h hstored ?_
    rintro ⟨⟩
    exact hne rfl
  · intro id x hstored hfresh y hy hyid
    obtain ⟨-, hstored⟩ := hcases hstored
    exact h.lowest id x hstored hfresh y (by simpa [next] using hy) hyid

theorem kept_advance (h : Kept s) (elapsed : Nat) : Kept (next s (.advance elapsed)) := by
  refine ⟨h.traced, fun id x hstored hfresh => h.lowest id x hstored ?_⟩
  have hfresh : s.now + elapsed ≤ x.expiresAtMs := hfresh
  omega

theorem kept_next (h : Kept s) (hok : KeepsRoles s a) : Kept (next s a) := by
  cases a with
  | create => exact kept_create h hok
  | revoke revoked => exact kept_revoke h revoked
  | advance elapsed => exact kept_advance h elapsed

/-- A higher role for an id is one that the id allows and an earlier creation does not. -/
theorem keepsRoles_of_follows (h : Follows (next s a)) : KeepsRoles s a := by
  cases a with
  | revoke | advance => trivial
  | create userId role ttlMs elapsed =>
    intro httl x hx hxid
    by_contra hlt
    let new := newSession userId role s.now (s.now + elapsed) ttlMs
    have hstored : (next s (.create userId role ttlMs elapsed)).store.sessions new.id = some new :=
      Function.update_self ..
    have hfresh : s.now + elapsed ≤ new.expiresAtMs := by
      show s.now + elapsed ≤ s.now + elapsed + ttlMs
      omega
    have hself : Dominates role role := dominates_self (by omega)
    have hauth := authorize_iff.mpr ⟨new, hstored, hfresh, hself⟩
    have hdominates := (h _ _ hauth).1 x (List.mem_append_left _ hx) hxid
    exact hlt hdominates.2

/-- What is allowed follows from the creations in every state of a run exactly if no id is created for a higher role
    again. -/
theorem follows_along_iff (now : Int) (as : List Act) :
    Along step Follows { now } as ↔ Meets step KeepsRoles { now } as := by
  refine along_iff_meets_of_disabled (fun _ h => h.follows) ?_ ?_ (fun _ _ hs => ?_) (kept_initial now)
  · rintro s a _ h hok ⟨⟩
    exact kept_next h hok
  · rintro s a _ - ⟨⟩ h
    exact keepsRoles_of_follows h
  · cases hs

/-- A viewer's session is an admin's as soon as the user gets another one in the same millisecond. -/
theorem not_follows_along : ¬Along step Follows { now := 1700000000000 }
    [.create "alice" "viewer" 86400000 0, .create "alice" "admin" 86400000 0] := by
  refine not_along_of_last rfl fun h => ?_
  obtain ⟨hroles, -⟩ := h "alice-1700000000000" "admin" (by decide)
  have hviewer := hroles (newSession "alice" "viewer" 1700000000000 1700000000000) (.head _) (by decide)
  exact absurd hviewer.2 (by decide)

end CrashCore.SessionStore
