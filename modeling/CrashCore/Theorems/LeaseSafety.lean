import CrashCore.Live.LiveSupervisor
import Mathlib.Tactic.Common

/-! Mutual exclusion and fencing by the lease. It excludes as long as the upsert of an acquisition matches a row, its
read-back succeeds before the expiry asked for, and the calls of one supervisor do not shorten or delete its
own lease behind its back; `acquire` checks none of this.

The invariant: whoever has authority under a lease that is not over, or has written its row and not yet read
it back, owns the row until that lease ends. -/

namespace CrashCore
namespace LiveSupervisor
open LeaseRow Transition

variable {cfg : String → Config} {s t : State} {w x : String} {p : Process} {ok : Bool} {now end_ : TimestampMs}

/-- An acquisition that reported success left its worker's row behind, not expired, under its epoch. -/
def Grant.Sound (g : Grant) : Prop :=
  ∃ r, g.row = some r ∧ r.ownerId = g.workerId ∧ g.clock < r.expiresAtMs ∧ g.epoch = r.epoch

/-- `w` has authority, and its most recent successful `acquire` or `renew` is younger than its lease. -/
def Holds (cfg : String → Config) (s : State) (w : String) : Prop :=
  (s.proc w).sup.hasAuthority = true ∧ s.clock < expires cfg w (s.proc w).grantedAt

instance : Decidable (Holds cfg s w) := inferInstanceAs (Decidable (_ ∧ _))

/-- Every successful acquisition was sound, and no two supervisors hold the lease. -/
structure Exclusive (cfg : String → Config) (s : State) : Prop where
  sound : ∀ g ∈ s.grants, g.Sound
  single : ∀ w x, Holds cfg s w → Holds cfg s x → w = x

/-! ### The condition on a step -/

/-- The row is not `w`'s, or it expires at `e` at the latest. -/
def NotPast (row : Option LeaseRow) (w : String) (e : TimestampMs) : Prop :=
  ∀ r ∈ row, r.ownerId = w → r.expiresAtMs ≤ e

/-- The row is not `w`'s, or it expires at `e` at the earliest. -/
def NotBefore (row : Option LeaseRow) (w : String) (e : TimestampMs) : Prop :=
  ∀ r ∈ row, r.ownerId = w → e ≤ r.expiresAtMs

/-- * The upsert of an acquisition matches a row, and does not shorten a lease under which its supervisor has
      authority.
    * The read-back succeeds, before the expiry that the acquisition has asked for.
    * The UPDATE of a renewal does not shorten the lease that it matches, and the SELECT after it finds the lease asked for.
    * A release deletes no row between the upsert and the read-back of its own supervisor. -/
def Undisturbed (cfg : String → Config) (s : State) : Action → Prop
  | .upsert w true => ∀ now ∈ (s.proc w).acquiring.upserting?,
      Claimable s.row w now ∧ ((s.proc w).sup.hasAuthority = true → NotPast s.row w (expires cfg w now))
  | .readBack w ok => ∀ now ∈ (s.proc w).acquiring.readingBack?, ok = true ∧ s.clock < expires cfg w now
  | .update w true => ∀ c ∈ (s.proc w).renewing.updating?,
      NotPast (s.row.filter (·.epoch = c.2)) w (expires cfg w c.1)
  | .verify w true => ∀ now ∈ (s.proc w).renewing.verifying?, NotBefore s.row w (expires cfg w now)
  | .delete w true => ∀ epoch ∈ (s.proc w).releasing.deleting?,
      (s.proc w).acquiring.readingBack?.isSome → LeaseRow.delete s.row w epoch = s.row
  | _ => True

instance (row : Option LeaseRow) (w : String) (e : TimestampMs) : Decidable (NotPast row w e) :=
  inferInstanceAs (Decidable (∀ r ∈ row, r.ownerId = w → r.expiresAtMs ≤ e))

instance (row : Option LeaseRow) (w : String) (e : TimestampMs) : Decidable (NotBefore row w e) :=
  inferInstanceAs (Decidable (∀ r ∈ row, r.ownerId = w → e ≤ r.expiresAtMs))

instance : DecidablePred (Undisturbed cfg s)
  | .upsert w true => inferInstanceAs (Decidable (∀ now ∈ (s.proc w).acquiring.upserting?,
      Claimable s.row w now ∧ ((s.proc w).sup.hasAuthority = true → NotPast s.row w (expires cfg w now))))
  | .readBack w ok => inferInstanceAs (Decidable (∀ now ∈ (s.proc w).acquiring.readingBack?,
      ok = true ∧ s.clock < expires cfg w now))
  | .update w true => inferInstanceAs (Decidable (∀ c ∈ (s.proc w).renewing.updating?,
      NotPast (s.row.filter (·.epoch = c.2)) w (expires cfg w c.1)))
  | .verify w true => inferInstanceAs (Decidable (∀ now ∈ (s.proc w).renewing.verifying?,
      NotBefore s.row w (expires cfg w now)))
  | .delete w true => inferInstanceAs (Decidable (∀ epoch ∈ (s.proc w).releasing.deleting?,
      (s.proc w).acquiring.readingBack?.isSome → LeaseRow.delete s.row w epoch = s.row))
  | .advance _ | .acquire _ | .renew _ | .release _ => .isTrue trivial
  | .upsert _ false | .update _ false | .verify _ false | .delete _ false => .isTrue trivial

/-! ### Ownership of the row -/

/-- The row is `w`'s until `e` at least. -/
def OwnedUntil (row : Option LeaseRow) (w : String) (e : TimestampMs) : Prop :=
  ∃ r, row = some r ∧ r.ownerId = w ∧ e ≤ r.expiresAtMs

theorem OwnedUntil.unique {row : Option LeaseRow} {e e' : TimestampMs} (h : OwnedUntil row w e)
    (h' : OwnedUntil row x e') : w = x := by
  obtain ⟨r, hr, hw, -⟩ := h
  obtain ⟨r', hr', hx, -⟩ := h'
  rw [hr] at hr'
  cases hr'
  exact hw.symm.trans hx

/-- An upsert that matches a row leaves the worker's own lease behind. -/
theorem upsert_ownedUntil {row : Option LeaseRow} {e : TimestampMs} (h : Claimable row w now) :
    OwnedUntil (LeaseRow.upsert row w e now) w e := by
  cases row with
  | none => exact ⟨_, rfl, rfl, Int.le_refl _⟩
  | some r =>
    rw [LeaseRow.upsert, if_pos (h r rfl)]
    exact ⟨_, rfl, rfl, Int.le_refl _⟩

/-- It takes no lease away that is not over. -/
theorem upsert_other {row : Option LeaseRow} {e clock : TimestampMs} (hx : x ≠ w) (ho : OwnedUntil row x end_)
    (hlive : clock < end_) (hnow : now ≤ clock) : OwnedUntil (LeaseRow.upsert row w e now) x end_ := by
  obtain ⟨r, rfl, hown, hend⟩ := ho
  have hkeep : ¬(r.expiresAtMs < now ∨ r.ownerId = w) := by
    rintro (hexp | hw)
    · have hover : r.expiresAtMs < clock := Int.lt_of_lt_of_le hexp hnow
      exact absurd (Int.lt_of_lt_of_le hlive hend) (Int.not_lt.mpr (Int.le_of_lt hover))
    · exact hx (hown.symm.trans hw)
  rw [LeaseRow.upsert, if_neg hkeep]
  exact ⟨r, rfl, hown, hend⟩

theorem renew_other {row : Option LeaseRow} {e : TimestampMs} {epoch : Nat} (hx : x ≠ w)
    (ho : OwnedUntil row x end_) : OwnedUntil (LeaseRow.renew row e w epoch) x end_ := by
  obtain ⟨r, rfl, hown, hend⟩ := ho
  rw [LeaseRow.renew, if_neg fun h => hx (hown.symm.trans h.1)]
  exact ⟨r, rfl, hown, hend⟩

theorem renew_own {row : Option LeaseRow} {e : TimestampMs} {epoch : Nat} (ho : OwnedUntil row w end_)
    (he : NotPast (row.filter (·.epoch = epoch)) w e) : OwnedUntil (LeaseRow.renew row e w epoch) w end_ := by
  obtain ⟨r, rfl, hown, hend⟩ := ho
  by_cases hm : r.ownerId = w ∧ r.epoch = epoch
  · have hle := he r (by simp [Option.filter, hm.2]) hown
    rw [LeaseRow.renew, if_pos hm]
    exact ⟨_, rfl, hown, Int.le_trans hend hle⟩
  · rw [LeaseRow.renew, if_neg hm]
    exact ⟨r, rfl, hown, hend⟩

theorem delete_other {row : Option LeaseRow} {epoch : Nat} (hx : x ≠ w) (ho : OwnedUntil row x end_) :
    OwnedUntil (LeaseRow.delete row w epoch) x end_ := by
  obtain ⟨r, rfl, hown, hend⟩ := ho
  rw [LeaseRow.delete, if_neg fun h => hx (hown.symm.trans h.1)]
  exact ⟨r, rfl, hown, hend⟩

theorem selectEpoch_of_owned {row : Option LeaseRow} (ho : OwnedUntil row w end_) :
    ∃ r, row = some r ∧ r.ownerId = w ∧ end_ ≤ r.expiresAtMs ∧ LeaseRow.selectEpoch row w = some r.epoch := by
  obtain ⟨r, rfl, hown, hend⟩ := ho
  exact ⟨r, rfl, hown, hend, by simp [LeaseRow.selectEpoch, hown]⟩

/-! ### The invariant -/

/-- `w` counts on its lease until `end_`: it has authority, or is about to take it. -/
def Counts (cfg : String → Config) (p : Process) (w : String) (end_ : TimestampMs) : Prop :=
  (p.sup.hasAuthority = true ∧ end_ = expires cfg w p.grantedAt) ∨
    ∃ now, p.acquiring = .readingBack now ∧ end_ = expires cfg w now

structure Inv (cfg : String → Config) (s : State) : Prop where
  owned : ∀ w end_, Counts cfg (s.proc w) w end_ → s.clock < end_ → OwnedUntil s.row w end_
  read : ∀ w now, (s.proc w).acquiring = .upserting now → now ≤ s.clock
  sound : ∀ g ∈ s.grants, g.Sound

theorem inv_initial (cfg : String → Config) (row : Option LeaseRow) (clock : TimestampMs) :
    Inv cfg (initial row clock) where
  owned := by
    rintro w end_ (⟨hauth, -⟩ | ⟨now, hpc, -⟩)
    · cases hauth
    · cases hpc
  read := nofun
  sound := nofun

theorem Inv.exclusive (h : Inv cfg s) : Exclusive cfg s where
  sound := h.sound
  single := fun w x hw hx =>
    (h.owned w _ (.inl ⟨hw.1, rfl⟩) hw.2).unique (h.owned x _ (.inl ⟨hx.1, rfl⟩) hx.2)

/-- A step of one supervisor that changes the row and its own process: the leases of the others are to be
    kept, and its own counted lease to be there. -/
theorem Inv.setProc (h : Inv cfg s) {row : Option LeaseRow} {grants : List Grant} {renewals : List (Nat × Nat)}
    (hother : ∀ x end_, x ≠ w → s.clock < end_ → OwnedUntil s.row x end_ → OwnedUntil row x end_)
    (hself : ∀ end_, Counts cfg p w end_ → s.clock < end_ → OwnedUntil row w end_)
    (hread : ∀ now, p.acquiring = .upserting now → now ≤ s.clock) (hsound : ∀ g ∈ grants, g.Sound) :
    Inv cfg (State.setProc { s with row, grants, renewals } w p) where
  owned := by
    intro x end_ hc hlive
    by_cases hx : x = w
    · subst hx
      rw [setProc_self] at hc
      exact hself end_ hc hlive
    · rw [setProc_other hx] at hc
      exact hother x end_ hx hlive (h.owned x end_ hc hlive)
  read := by
    intro x now hpc
    by_cases hx : x = w
    · subst hx
      rw [setProc_self] at hpc
      exact hread now hpc
    · rw [setProc_other hx] at hpc
      exact h.read x now hpc
  sound := hsound

/-- A step that leaves the row alone and lets its supervisor count on nothing new. -/
theorem Inv.setProc_same (h : Inv cfg s) (hself : ∀ end_, Counts cfg p w end_ → Counts cfg (s.proc w) w end_)
    (hread : ∀ now, p.acquiring = .upserting now → now ≤ s.clock) : Inv cfg (s.setProc w p) :=
  h.setProc (fun _ _ _ _ ho => ho) (fun end_ hc hlive => h.owned w end_ (hself end_ hc) hlive) hread h.sound

/-! ### One step -/

theorem upsert_keeps (h : Inv cfg s) (hok : Undisturbed cfg s (.upsert w ok))
    (hs : step cfg s (.upsert w ok) = some t) : Inv cfg t := by
  obtain ⟨now, hpc, ⟨rfl, rfl⟩ | ⟨rfl, rfl⟩⟩ := upsert_inv hs
  · obtain ⟨hclaim, hlong⟩ := hok now (congrArg Acquiring.upserting? hpc)
    refine h.setProc (fun x end_ hx hlive ho => upsert_other hx ho hlive (h.read w now hpc)) ?_ (by simp) h.sound
    rintro end_ (⟨hauth, rfl⟩ | ⟨now', hpc', rfl⟩) hlive
    · -- The old lease of the supervisor is its own row, and the new one is no shorter.
      obtain ⟨r, hr, hown, hend⟩ := h.owned w _ (.inl ⟨hauth, rfl⟩) hlive
      have hle := hlong hauth r hr hown
      obtain ⟨r', hr', hown', hend'⟩ := upsert_ownedUntil (e := expires cfg w now) hclaim
      exact ⟨r', hr', hown', Int.le_trans (Int.le_trans hend hle) hend'⟩
    · cases hpc'
      exact upsert_ownedUntil hclaim
  · refine h.setProc_same ?_ (by simp)
    rintro end_ (⟨hauth, -⟩ | ⟨now', hpc', -⟩)
    · cases hauth
    · cases hpc'

theorem readBack_keeps (h : Inv cfg s) (hok : Undisturbed cfg s (.readBack w ok))
    (hs : step cfg s (.readBack w ok) = some t) : Inv cfg t := by
  obtain ⟨now, hpc, rfl⟩ := readBack_inv hs
  obtain ⟨rfl, hlive⟩ := hok now (congrArg Acquiring.readingBack? hpc)
  have howned := h.owned w _ (.inr ⟨now, hpc, rfl⟩) hlive
  obtain ⟨r, hr, hown, hend, hepoch⟩ := selectEpoch_of_owned howned
  refine h.setProc (fun _ _ _ _ ho => ho) ?_ (by simp) fun g hg => ?_
  · rintro end_ (⟨-, rfl⟩ | ⟨now', hpc', -⟩) hlive
    · exact howned
    · cases hpc'
  · rcases List.mem_append.mp hg with hg | hg
    · exact h.sound g hg
    · rw [List.mem_singleton.mp hg]
      exact ⟨r, hr, hown, Int.lt_of_lt_of_le hlive hend, by simp [acquired, hepoch]⟩

theorem update_keeps (h : Inv cfg s) (hok : Undisturbed cfg s (.update w ok))
    (hs : step cfg s (.update w ok) = some t) : Inv cfg t := by
  obtain ⟨now, epoch, hpc, ⟨rfl, rfl⟩ | ⟨rfl, rfl⟩⟩ := update_inv hs
  · have hlong := hok (now, epoch) (congrArg Renewing.updating? hpc)
    refine h.setProc (fun x end_ hx _ ho => renew_other hx ho) (fun end_ hc hlive => ?_) (h.read w) h.sound
    exact renew_own (h.owned w end_ hc hlive) hlong
  · refine h.setProc_same ?_ (h.read w)
    rintro end_ (⟨hauth, -⟩ | hc)
    · cases hauth
    · exact Or.inr hc

theorem verify_keeps (h : Inv cfg s) (hok : Undisturbed cfg s (.verify w ok))
    (hs : step cfg s (.verify w ok) = some t) : Inv cfg t := by
  obtain ⟨now, hpc, ⟨rfl, r, hr, hown, rfl⟩ | rfl⟩ := verify_inv hs
  · refine h.setProc (fun _ _ _ _ ho => ho) ?_ (h.read w) h.sound
    rintro end_ (⟨-, rfl⟩ | hc) hlive
    · exact ⟨r, hr, hown, hok now (congrArg Renewing.verifying? hpc) r hr hown⟩
    · exact h.owned w end_ (.inr hc) hlive
  · refine h.setProc_same ?_ (h.read w)
    rintro end_ (⟨hauth, -⟩ | hc)
    · cases hauth
    · exact Or.inr hc

theorem delete_keeps (h : Inv cfg s) (hok : Undisturbed cfg s (.delete w ok))
    (hs : step cfg s (.delete w ok) = some t) : Inv cfg t := by
  obtain ⟨epoch, hpc, rfl⟩ := delete_inv hs
  have hother : ∀ x end_, x ≠ w → OwnedUntil s.row x end_ →
      OwnedUntil (if ok then LeaseRow.delete s.row w epoch else s.row) x end_ := by
    intro x end_ hx ho
    split
    · exact delete_other hx ho
    · exact ho
  refine h.setProc (fun x end_ hx _ ho => hother x end_ hx ho) ?_ (h.read w) h.sound
  rintro end_ (⟨hauth, -⟩ | ⟨now, hacq, rfl⟩) hlive
  · cases hauth
  · have howned := h.owned w _ (.inr ⟨now, hacq, rfl⟩) hlive
    split
    · rename_i htrue
      subst htrue
      rw [hok epoch (congrArg Releasing.deleting? hpc) (by rw [hacq]; rfl)]
      exact howned
    · exact howned

theorem step_keeps (h : Inv cfg s) {a : Action} (hok : Undisturbed cfg s a) (hs : step cfg s a = some t) :
    Inv cfg t := by
  cases a with
  | advance ms =>
    cases hs
    have hle : s.clock ≤ s.clock + ms := Int.le_add_of_nonneg_right (Int.natCast_nonneg ms)
    exact ⟨fun w end_ hc hlive => h.owned w end_ hc (Int.lt_of_le_of_lt hle hlive),
      fun w now hpc => Int.le_trans (h.read w now hpc) hle, h.sound⟩
  | acquire w =>
    obtain ⟨hidle, rfl⟩ := acquire_inv hs
    refine h.setProc_same ?_ fun now hpc => ?_
    · rintro end_ (hc | ⟨now, hpc, -⟩)
      · exact Or.inl hc
      · cases hpc
    · cases hpc
      exact Int.le_refl _
  | upsert w ok => exact upsert_keeps h hok hs
  | readBack w ok => exact readBack_keeps h hok hs
  | renew w =>
    obtain ⟨-, rfl⟩ := renew_inv hs
    exact h.setProc_same (fun _ hc => hc) (h.read w)
  | update w ok => exact update_keeps h hok hs
  | verify w ok => exact verify_keeps h hok hs
  | release w =>
    obtain rfl := release_inv hs
    exact h.setProc_same (fun _ hc => hc) (h.read w)
  | delete w ok => exact delete_keeps h hok hs

/-! ### Runs -/

/-- From any row and clock, and over all interleavings of any supervisors' statements: in a run whose steps
    meet the condition every successful acquisition is sound and at most one supervisor holds the lease. -/
theorem leaseExclusive_of_reaches (cfg : String → Config) (row : Option LeaseRow) (clock : TimestampMs)
    (hr : Reaches (step cfg) (Undisturbed cfg) (initial row clock) s) : Exclusive cfg s :=
  (hr.invariant (inv_initial cfg row clock) fun _ _ _ h hok hs => step_keeps h hok hs).exclusive

/-- `a` acquires and renews, its lease expires, and `b` takes over. -/
def takeover : List Action :=
  [.acquire "a", .upsert "a" true, .readBack "a" true, .advance 3000, .renew "a", .update "a" true,
    .verify "a" true, .advance 8001, .acquire "b", .upsert "b" true, .readBack "b" true]

theorem takeover_exclusive :
    ∃ s, run (step fun _ => {}) (initial none 0) takeover = some s ∧ Exclusive (fun _ => {}) s := by
  obtain ⟨s, hs⟩ := Option.isSome_iff_exists.mp
    (by decide : (run (step fun _ => {}) (initial none 0) takeover).isSome = true)
  exact ⟨s, hs, leaseExclusive_of_reaches (fun _ => {}) none 0 (.of_run (by decide) hs)⟩

/-- `b` acquires while `a` holds the lease: its upsert writes nothing, and its read-back finds no row. -/
def splitBrain : List Action :=
  [.acquire "a", .upsert "a" true, .readBack "a" true, .acquire "b", .upsert "b" true, .readBack "b" true]

theorem splitBrain_not_exclusive :
    ∃ s, Reaches (step fun _ => {}) anyStep (initial none 0) s ∧ ¬Exclusive (fun _ => {}) s := by
  have hboth : (run (step fun _ => {}) (initial none 0) splitBrain).map
      (fun s => (decide (Holds (fun _ => {}) s "a"), decide (Holds (fun _ => {}) s "b"))) = some (true, true) := by decide
  obtain ⟨s, hs, hh⟩ := Option.map_eq_some_iff.mp hboth
  rw [Prod.mk.injEq, decide_eq_true_iff, decide_eq_true_iff] at hh
  exact ⟨s, .of_run (meets_anyStep _ _) hs, fun he => absurd (he.single "a" "b" hh.1 hh.2) (by decide)⟩

end LiveSupervisor

/-! ### Fencing epochs

The upsert counts the epoch of an existing row up, so the epochs that successive acquisitions record increase as long as
the row is never deleted in between; a release deletes it, and the next acquisition starts again at 1. -/

namespace LiveSupervisor
open LeaseRow Transition

variable {cfg : String → Config} {s t : State} {w x : String} {p : Process} {ok : Bool} {row : Option LeaseRow}
  {renewals : List (Nat × Nat)}

/-- The epochs of the acquisitions, in their order, increase, and every renewal that succeeded was made under
    the row's epoch. -/
structure EpochsMonotone (s : State) : Prop where
  increasing : s.grants.Pairwise fun g g' => g.epoch < g'.epoch
  current : ∀ c ∈ s.renewals, c.1 = c.2

/-- An acquisition of `w` has written the row and not yet read it back. -/
def ReadingBack (p : Process) : Prop := p.acquiring.readingBack?.isSome

instance (p : Process) : Decidable (ReadingBack p) := inferInstanceAs (Decidable (_ = true))

/-- * The upsert finds a row, unless it is the one of the first acquisition.
    * The read-back finds the supervisor's own row.
    * The SELECT of a renewal does not find the row of an acquisition that the same supervisor has not read
      back yet. -/
def Fenced (s : State) : Action → Prop
  | .upsert w true => (s.proc w).acquiring.upserting?.isSome → s.row = none → s.grants = []
  | .readBack w ok => ReadingBack (s.proc w) → ok = true ∧ Owns s.row w
  | .verify w true => Owns s.row w → ¬ReadingBack (s.proc w)
  | _ => True

instance : DecidablePred (Fenced s)
  | .upsert w true =>
    inferInstanceAs (Decidable ((s.proc w).acquiring.upserting?.isSome → s.row = none → s.grants = []))
  | .readBack w ok => inferInstanceAs (Decidable (ReadingBack (s.proc w) → ok = true ∧ Owns s.row w))
  | .verify w true => inferInstanceAs (Decidable (Owns s.row w → ¬ReadingBack (s.proc w)))
  | .advance _ | .acquire _ | .renew _ | .release _ | .update .. | .delete .. => .isTrue trivial
  | .upsert _ false | .verify _ false => .isTrue trivial

/-! ### The invariant -/

/-- The supervisor has authority, or had it when its renewal in progress began. -/
def Acting (p : Process) : Prop := p.sup.hasAuthority = true ∨ p.renewing ≠ .idle

structure EpochInv (s : State) : Prop where
  /-- No acquisition has recorded an epoch above the row's. -/
  bound : ∀ r ∈ s.row, ∀ g ∈ s.grants, g.epoch ≤ r.epoch
  /-- An acquisition that is still to read back has written an epoch of its own. -/
  fresh : ∀ w, ReadingBack (s.proc w) → ∀ r ∈ s.row, r.ownerId = w → ∀ g ∈ s.grants, g.epoch < r.epoch
  /-- Outside such an acquisition the owner knows the row's epoch. -/
  known : ∀ w, Acting (s.proc w) → ¬ReadingBack (s.proc w) → ∀ r ∈ s.row, r.ownerId = w → (s.proc w).sup.epoch = r.epoch
  monotone : EpochsMonotone s

theorem epochInv_initial (row : Option LeaseRow) (clock : TimestampMs) : EpochInv (initial row clock) where
  bound := fun _ _ _ hg => absurd hg List.not_mem_nil
  fresh := fun _ hrb => absurd hrb (by simp [ReadingBack, initial, Acquiring.readingBack?])
  known := fun _ hact => absurd hact (by simp [Acting, initial])
  monotone := ⟨List.Pairwise.nil, fun _ hc => absurd hc List.not_mem_nil⟩

/-- The row may go away; if it stays, owner and epoch are the same. -/
def SameEpoch (row row' : Option LeaseRow) : Prop :=
  ∀ r' ∈ row', ∃ r ∈ row, r.ownerId = r'.ownerId ∧ r.epoch = r'.epoch

theorem sameEpoch_renew (row : Option LeaseRow) (e : TimestampMs) (w : String) (epoch : Nat) :
    SameEpoch row (LeaseRow.renew row e w epoch) := by
  cases row with
  | none => exact fun _ h => nomatch h
  | some r =>
    intro r' hr'
    unfold LeaseRow.renew at hr'
    dsimp only at hr'
    split at hr' <;> cases hr' <;> exact ⟨r, rfl, rfl, rfl⟩

theorem sameEpoch_delete (row : Option LeaseRow) (w : String) (epoch : Nat) :
    SameEpoch row (LeaseRow.delete row w epoch) := by
  cases row with
  | none => exact fun _ h => nomatch h
  | some r =>
    intro r' hr'
    unfold LeaseRow.delete at hr'
    dsimp only at hr'
    split at hr'
    · cases hr'
    · cases hr'
      exact ⟨r, rfl, rfl, rfl⟩

/-- A step that keeps owner and epoch of the row and begins nothing that counts. -/
theorem EpochInv.setProc (h : EpochInv s) (hrow : SameEpoch s.row row) (hrb : ReadingBack p → ReadingBack (s.proc w))
    (hact : Acting p → ¬ReadingBack p →
      Acting (s.proc w) ∧ ¬ReadingBack (s.proc w) ∧ p.sup.epoch = (s.proc w).sup.epoch)
    (hren : ∀ c ∈ renewals, c.1 = c.2) : EpochInv (State.setProc { s with row, renewals } w p) where
  bound := by
    intro r' hr' g hg
    obtain ⟨r, hr, -, hepoch⟩ := hrow r' hr'
    exact hepoch ▸ h.bound r hr g hg
  fresh := by
    intro x hx r' hr' hown g hg
    obtain ⟨r, hr, howner, hepoch⟩ := hrow r' hr'
    have hx' : ReadingBack (s.proc x) := by
      by_cases hxw : x = w
      · subst hxw
        rw [setProc_self] at hx
        exact hrb hx
      · rwa [setProc_other hxw] at hx
    exact hepoch ▸ h.fresh x hx' r hr (howner.trans hown) g hg
  known := by
    intro x hx hnrb r' hr' hown
    obtain ⟨r, hr, howner, hepoch⟩ := hrow r' hr'
    by_cases hxw : x = w
    · subst hxw
      rw [setProc_self] at hx hnrb ⊢
      obtain ⟨hx', hnrb', heq⟩ := hact hx hnrb
      rw [heq, ← hepoch]
      exact h.known x hx' hnrb' r hr (howner.trans hown)
    · rw [setProc_other hxw] at hx hnrb ⊢
      rw [← hepoch]
      exact h.known x hx hnrb r hr (howner.trans hown)
  monotone := ⟨h.monotone.increasing, hren⟩

theorem SameEpoch.refl (row : Option LeaseRow) : SameEpoch row row := fun r hr => ⟨r, hr, rfl, rfl⟩

/-! ### One step -/

/-- The upsert matches no row, or writes an epoch above every recorded one. -/
theorem upsert_cases (row : Option LeaseRow) (w : String) (e now : TimestampMs) :
    (LeaseRow.upsert row w e now = row ∧ ¬Owns row w) ∨
      ∃ epoch, LeaseRow.upsert row w e now = some ⟨w, epoch, e⟩ ∧ ∀ r ∈ row, r.epoch < epoch := by
  cases row with
  | none => exact Or.inr ⟨1, rfl, fun _ h => nomatch h⟩
  | some r =>
    by_cases hm : r.expiresAtMs < now ∨ r.ownerId = w
    · refine Or.inr ⟨r.epoch + 1, if_pos hm, fun r' hr' => ?_⟩
      cases hr'
      exact Nat.lt_succ_self _
    · refine Or.inl ⟨if_neg hm, ?_⟩
      rintro ⟨r', hr', hown⟩
      cases hr'
      exact hm (.inr hown)

theorem upsert_epochInv (h : EpochInv s) (hok : Fenced s (.upsert w ok))
    (hs : step cfg s (.upsert w ok) = some t) : EpochInv t := by
  obtain ⟨now, hpc, ⟨rfl, rfl⟩ | ⟨rfl, rfl⟩⟩ := upsert_inv hs
  · have hnrb : ¬ReadingBack (s.proc w) := by rw [ReadingBack, hpc]; exact Bool.false_ne_true
    have hrb : ReadingBack { s.proc w with acquiring := .readingBack now } := rfl
    have hempty : s.row = none → s.grants = [] := hok (by rw [hpc]; rfl)
    rcases upsert_cases s.row w (expires cfg w now) now with ⟨hsame, hnot⟩ | ⟨epoch, hnew, habove⟩
    · refine ⟨?_, ?_, ?_, ⟨h.monotone.increasing, h.monotone.current⟩⟩
      · intro r hr
        exact h.bound r (hsame ▸ hr)
      · intro x hx r hr hown g hg
        have hr : r ∈ s.row := hsame ▸ hr
        have hxw : x ≠ w := fun heq => hnot ⟨r, hr, hown.trans heq⟩
        rw [afterUpsert, setProc_other hxw] at hx
        exact h.fresh x hx r hr hown g hg
      · intro x hx hnrb' r hr hown
        have hr : r ∈ s.row := hsame ▸ hr
        have hxw : x ≠ w := fun heq => hnot ⟨r, hr, hown.trans heq⟩
        rw [afterUpsert, setProc_other hxw] at hx hnrb' ⊢
        exact h.known x hx hnrb' r hr hown
    · have hgrants : ∀ g ∈ s.grants, g.epoch < epoch := by
        intro g hg
        rcases hrow : s.row with _ | r
        · rw [hempty hrow] at hg
          exact absurd hg List.not_mem_nil
        · exact Nat.lt_of_le_of_lt (h.bound r hrow g hg) (habove r hrow)
      refine ⟨?_, ?_, ?_, ⟨h.monotone.increasing, h.monotone.current⟩⟩
      · intro r hr g hg
        have hr : r ∈ some (LeaseRow.mk w epoch (expires cfg w now)) := hnew ▸ hr
        cases hr
        exact Nat.le_of_lt (hgrants g hg)
      · intro x _ r hr _ g hg
        have hr : r ∈ some (LeaseRow.mk w epoch (expires cfg w now)) := hnew ▸ hr
        cases hr
        exact hgrants g hg
      · intro x _ hnrb' r hr hown
        have hr : r ∈ some (LeaseRow.mk w epoch (expires cfg w now)) := hnew ▸ hr
        cases hr
        obtain rfl : w = x := hown
        rw [afterUpsert, setProc_self] at hnrb'
        exact absurd hrb hnrb'
  · refine h.setProc (SameEpoch.refl _) (fun hrb => absurd hrb Bool.false_ne_true) ?_ h.monotone.current
    rintro (hauth | hren) -
    · cases hauth
    · exact ⟨Or.inr hren, by rw [ReadingBack, hpc]; exact Bool.false_ne_true, rfl⟩

theorem readBack_epochInv (h : EpochInv s) (hok : Fenced s (.readBack w ok))
    (hs : step cfg s (.readBack w ok) = some t) : EpochInv t := by
  obtain ⟨now, hpc, rfl⟩ := readBack_inv hs
  have hrb : ReadingBack (s.proc w) := by rw [ReadingBack, hpc]; rfl
  obtain ⟨rfl, r, hr, hown⟩ := hok hrb
  have hrow : s.row = some r := hr
  have hepoch : ((s.proc w).sup.acquired (LeaseRow.selectEpoch s.row w)).epoch = r.epoch := by
    simp [acquired, LeaseRow.selectEpoch, hrow, hown]
  have hfresh := h.fresh w hrb r hr hown
  refine ⟨?_, ?_, ?_, ⟨?_, h.monotone.current⟩⟩
  · intro r' hr' g hg
    obtain rfl : r = r' := Option.some.inj (hrow.symm.trans hr')
    rcases List.mem_append.mp hg with hg | hg
    · exact h.bound r hr g hg
    · rw [List.mem_singleton.mp hg]
      exact Nat.le_of_eq hepoch
  · intro x hx r' hr' hown'
    obtain rfl : r = r' := Option.some.inj (hrow.symm.trans hr')
    obtain rfl : w = x := hown.symm.trans hown'
    rw [afterReadBack, setProc_self] at hx
    exact absurd hx Bool.false_ne_true
  · intro x _ _ r' hr' hown'
    obtain rfl : r = r' := Option.some.inj (hrow.symm.trans hr')
    obtain rfl : w = x := hown.symm.trans hown'
    rw [afterReadBack, setProc_self]
    exact hepoch
  · refine List.pairwise_append.mpr ⟨h.monotone.increasing, List.pairwise_singleton _ _, fun g hg g' hg' => ?_⟩
    rw [List.mem_singleton.mp hg']
    exact Nat.lt_of_lt_of_eq (hfresh g hg) hepoch.symm

theorem verify_epochInv (h : EpochInv s) (hok : Fenced s (.verify w ok))
    (hs : step cfg s (.verify w ok) = some t) : EpochInv t := by
  obtain ⟨now, hpc, ⟨rfl, r, hr, hown, rfl⟩ | rfl⟩ := verify_inv hs
  · have hact : Acting (s.proc w) := Or.inr (by rw [hpc]; exact Renewing.noConfusion)
    have hnrb : ¬ReadingBack (s.proc w) := hok ⟨r, hr, hown⟩
    have hknown := h.known w hact hnrb r hr hown
    refine h.setProc (SameEpoch.refl _) (fun hrb => hrb) (fun _ _ => ⟨hact, hnrb, rfl⟩) fun c hc => ?_
    rcases List.mem_append.mp hc with hc | hc
    · exact h.monotone.current c hc
    · rw [List.mem_singleton.mp hc]
      exact hknown
  · refine h.setProc (SameEpoch.refl _) (fun hrb => hrb) ?_ h.monotone.current
    rintro (hauth | hren) -
    · cases hauth
    · exact absurd rfl hren

theorem step_epochInv (h : EpochInv s) {a : Action} (hok : Fenced s a) (hs : step cfg s a = some t) :
    EpochInv t := by
  cases a with
  | advance ms =>
    cases hs
    exact ⟨h.bound, h.fresh, h.known, ⟨h.monotone.increasing, h.monotone.current⟩⟩
  | acquire w =>
    obtain ⟨hidle, rfl⟩ := acquire_inv hs
    exact h.setProc (SameEpoch.refl _) (fun hrb => absurd hrb Bool.false_ne_true)
      (fun hact _ => ⟨hact, by rw [ReadingBack, hidle]; exact Bool.false_ne_true, rfl⟩) h.monotone.current
  | upsert w ok => exact upsert_epochInv h hok hs
  | readBack w ok => exact readBack_epochInv h hok hs
  | renew w =>
    obtain ⟨hauth, rfl⟩ := renew_inv hs
    exact h.setProc (SameEpoch.refl _) (fun hrb => hrb) (fun _ hnrb => ⟨Or.inl hauth, hnrb, rfl⟩) h.monotone.current
  | update w ok =>
    obtain ⟨now, epoch, hpc, ⟨-, rfl⟩ | ⟨-, rfl⟩⟩ := update_inv hs
    · have hact : Acting (s.proc w) := Or.inr (by rw [hpc]; exact Renewing.noConfusion)
      exact h.setProc (sameEpoch_renew _ _ _ _) (fun hrb => hrb) (fun _ hnrb => ⟨hact, hnrb, rfl⟩) h.monotone.current
    · refine h.setProc (SameEpoch.refl _) (fun hrb => hrb) ?_ h.monotone.current
      rintro (hauth | hren) -
      · cases hauth
      · exact absurd rfl hren
  | verify w ok => exact verify_epochInv h hok hs
  | release w =>
    obtain rfl := release_inv hs
    exact h.setProc (SameEpoch.refl _) (fun hrb => hrb) (fun hact hnrb => ⟨hact, hnrb, rfl⟩) h.monotone.current
  | delete w ok =>
    obtain ⟨epoch, -, rfl⟩ := delete_inv hs
    have hrow : SameEpoch s.row (if ok then LeaseRow.delete s.row w epoch else s.row) := by
      split
      · exact sameEpoch_delete _ _ _
      · exact SameEpoch.refl _
    refine h.setProc hrow (fun hrb => hrb) ?_ h.monotone.current
    rintro (hauth | hren) hnrb
    · cases hauth
    · exact ⟨Or.inr hren, hnrb, rfl⟩

/-! ### Runs -/

/-- From any row, and over all interleavings of any supervisors' statements: in a run whose steps meet the
    condition the recorded epochs increase, and renewals succeed under the row's epoch only. -/
theorem epochsMonotone_of_reaches (cfg : String → Config) (row : Option LeaseRow) (clock : TimestampMs)
    (hr : Reaches (step cfg) Fenced (initial row clock) s) : EpochsMonotone s :=
  (hr.invariant (epochInv_initial row clock) fun _ _ _ h hok hs => step_epochInv h hok hs).monotone

/-- `a` acquires twice and renews, its lease expires, and `b` acquires: the epochs are 1, 2 and 3. -/
def successiveEpochs : List Action :=
  [.acquire "a", .upsert "a" true, .readBack "a" true, .acquire "a", .upsert "a" true, .readBack "a" true,
    .renew "a", .update "a" true, .verify "a" true, .advance 8001, .acquire "b", .upsert "b" true, .readBack "b" true]

theorem successiveEpochs_monotone :
    ∃ s, run (step fun _ => {}) (initial none 0) successiveEpochs = some s ∧ EpochsMonotone s := by
  obtain ⟨s, hs⟩ := Option.isSome_iff_exists.mp
    (by decide : (run (step fun _ => {}) (initial none 0) successiveEpochs).isSome = true)
  exact ⟨s, hs, epochsMonotone_of_reaches (fun _ => {}) none 0 (.of_run (by decide) hs)⟩

/-- `a` acquires, releases and acquires again. -/
def reacquire : List Action :=
  [.acquire "a", .upsert "a" true, .readBack "a" true, .release "a", .delete "a" true,
    .acquire "a", .upsert "a" true, .readBack "a" true]

theorem reacquire_not_monotone :
    ∃ s, Reaches (step fun _ => {}) anyStep (initial none 0) s ∧ ¬EpochsMonotone s := by
  have hepochs : (run (step fun _ => {}) (initial none 0) reacquire).map (fun s => s.grants.map (·.epoch)) =
      some [1, 1] := by decide
  obtain ⟨s, hs, hh⟩ := Option.map_eq_some_iff.mp hepochs
  refine ⟨s, .of_run (meets_anyStep _ _) hs, fun hm => ?_⟩
  have hlt : (s.grants.map (·.epoch)).Pairwise (· < ·) := List.pairwise_map.mpr hm.increasing
  rw [hh] at hlt
  exact absurd hlt (by decide)

end LiveSupervisor
end CrashCore
