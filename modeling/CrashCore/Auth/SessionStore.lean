import CrashCore.Library.Codec
import Mathlib.Logic.Function.Basic

/-! The session store (`auth/session_store.hpp`): sessions under ids made of the user and the millisecond. -/

namespace CrashCore

structure Session where
  id : String
  userId : String
  expiresAtMs : Int := 0
  role : String := "viewer"

namespace Session

/-- The id of a session of this user that is created in this millisecond. -/
def idOf (userId : String) (ms : Int) : String := userId ++ "-" ++ toString ms

/-- Sessions have the same id only if they are of one user and one millisecond. -/
theorem idOf_inj {user other : String} {m n : Nat} (h : idOf user m = idOf other n) : user = other ∧ m = n :=
  Separator.append_nat_inj (c := '-') (by decide) (by decide) h

end Session

structure SessionStore where
  sessions : String → Option Session := fun _ => none

namespace SessionStore

/-- The session that `create` stores. The clock is read twice: for the id and for the expiry. -/
def newSession (userId role : String) (idMs expiryMs : Int) (ttlMs : Int := 86400000) : Session :=
  { id := Session.idOf userId idMs, userId, role, expiresAtMs := expiryMs + ttlMs }

def create (store : SessionStore) (userId role : String) (idMs expiryMs : Int) (ttlMs : Int := 86400000) :
    String × SessionStore :=
  let s := newSession userId role idMs expiryMs ttlMs
  (s.id, { sessions := Function.update store.sessions s.id (some s) })

def get (store : SessionStore) (id : String) (now : Int) : Option Session :=
  match store.sessions id with
  | none => none
  | some s => if s.expiresAtMs < now then none else some s

def revoke (store : SessionStore) (id : String) : SessionStore :=
  { sessions := Function.update store.sessions id none }

def authorize (store : SessionStore) (id minRole : String) (now : Int) : Bool :=
  match store.get id now with
  | none => false
  | some s =>
    if minRole = "viewer" then true
    else if minRole = "operator" then s.role = "operator" ∨ s.role = "admin"
    else if minRole = "admin" then s.role = "admin"
    else false

/-! ### Roles -/

/-- Every role that is not one of the two upper ones counts as a viewer's. -/
def rank (role : String) : Nat := if role = "admin" then 2 else if role = "operator" then 1 else 0

def Dominates (role minRole : String) : Prop := minRole ∈ ["viewer", "operator", "admin"] ∧ rank minRole ≤ rank role

variable {store : SessionStore} {id role minRole : String} {now : Int} {x : Session}

theorem get_eq_some : store.get id now = some x ↔ store.sessions id = some x ∧ now ≤ x.expiresAtMs := by
  rw [get]
  cases store.sessions id with
  | none => simp
  | some s =>
    by_cases hexpired : s.expiresAtMs < now
    · simp only [hexpired, if_true, reduceCtorEq, Option.some.injEq, false_iff]
      rintro ⟨rfl, hle⟩
      omega
    · simp only [hexpired, if_false, Option.some.injEq]
      constructor
      · rintro rfl
        exact ⟨rfl, by omega⟩
      · exact And.left

theorem one_le_rank : 1 ≤ rank role ↔ role = "operator" ∨ role = "admin" := by
  unfold rank
  split
  · simp [*]
  · split <;> simp [*]

theorem two_le_rank : 2 ≤ rank role ↔ role = "admin" := by
  unfold rank
  split
  · simp [*]
  · split <;> simp [*]

/-- Whoever ranks above a viewer has one of the roles that are asked for. -/
theorem dominates_self (h : 1 ≤ rank role) : Dominates role role := by
  refine ⟨?_, Nat.le_refl _⟩
  rcases one_le_rank.mp h with rfl | rfl <;> decide

theorem Dominates.trans {upper : String} (h : Dominates role minRole) (hle : rank role ≤ rank upper) :
    Dominates upper minRole := ⟨h.1, h.2.trans hle⟩

theorem authorize_iff : store.authorize id minRole now = true ↔
    ∃ x, store.sessions id = some x ∧ now ≤ x.expiresAtMs ∧ Dominates x.role minRole := by
  have hrole (x : Session) : (if minRole = "viewer" then true
      else if minRole = "operator" then decide (x.role = "operator" ∨ x.role = "admin")
      else if minRole = "admin" then decide (x.role = "admin")
      else false) = true ↔ Dominates x.role minRole := by
    unfold Dominates
    by_cases hviewer : minRole = "viewer"
    · subst hviewer
      simp [rank]
    by_cases hoperator : minRole = "operator"
    · subst hoperator
      have hone : rank "operator" = 1 := by decide
      simp [hone, one_le_rank]
    by_cases hadmin : minRole = "admin"
    · subst hadmin
      have htwo : rank "admin" = 2 := by decide
      simp [htwo, two_le_rank]
    · simp [hviewer, hoperator, hadmin]
  rw [authorize]
  constructor
  · intro h
    cases hget : store.get id now with
    | none =>
      rw [hget] at h
      cases h
    | some x =>
      rw [hget] at h
      obtain ⟨hstored, hfresh⟩ := get_eq_some.mp hget
      exact ⟨x, hstored, hfresh, (hrole x).mp h⟩
  · rintro ⟨x, hstored, hfresh, hdominates⟩
    rw [get_eq_some.mpr ⟨hstored, hfresh⟩]
    exact (hrole x).mpr hdominates

end SessionStore
end CrashCore
