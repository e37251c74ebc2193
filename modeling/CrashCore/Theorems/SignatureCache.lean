import CrashCore.Ingestion.NativeSign
import CrashCore.Library.Run
import Mathlib.Data.List.Chain
import Mathlib.Data.List.Forall2

/-! A signature is made anew only when the one before it is no longer fresh. -/

namespace CrashCore
namespace NativeSign
open Transition

variable {hmacSha256Hex : Bytes → Bytes → Bytes} {s : NativeSign} {inputs : SignInputs} {now : TimestampMs} {l m : Log}

/-- There is no key to sign with. -/
def NoKey (inputs : SignInputs) : Prop := inputs.key = none ∨ inputs.key = some []

theorem localSignature_spec (hmacSha256Hex : Bytes → Bytes → Bytes) (inputs : SignInputs) (ua : Bytes) (now : TimestampMs) :
    (NoKey inputs ∧ localSignature hmacSha256Hex inputs ua now = none) ∨
      ∃ sig, localSignature hmacSha256Hex inputs ua now = some sig ∧ sig.valid = true ∧ sig.atMs = now := by
  unfold localSignature
  rcases hkey : inputs.key with _ | _ | ⟨c, key⟩
  · exact .inl ⟨.inl hkey, rfl⟩
  · exact .inl ⟨.inr hkey, rfl⟩
  · exact .inr ⟨_, rfl, rfl, rfl⟩

theorem askExternal_spec (s : NativeSign) (inputs : SignInputs) (ua : Bytes) : ∃ external answer, askExternal s inputs ua = ({ s with external }, answer) ∧
    ∀ sig, answer = some sig → sig.valid = true := by
  unfold askExternal
  split
  · exact ⟨s.external, none, rfl, fun sig h => by simp at h⟩
  · refine ⟨_, _, rfl, fun sig h => ?_⟩
    split at h
    · split at h
      · rename_i hvalid
        cases h
        exact hvalid
      · cases h
    · cases h

/-- A refresh changes the external signer only; what it makes is valid and of this moment, and it makes nothing only
    without a key. -/
theorem refreshUnlocked_spec (hmacSha256Hex : Bytes → Bytes → Bytes) (s : NativeSign) (inputs : SignInputs)
    (now : TimestampMs) : ∃ external,
    (refreshUnlocked hmacSha256Hex s inputs now = ({ s with external }, none) ∧ NoKey inputs) ∨
      ∃ sig, refreshUnlocked hmacSha256Hex s inputs now = ({ s with external }, some sig) ∧ sig.valid = true ∧
        sig.atMs = now := by
  obtain ⟨external, answer, hask, hvalid⟩ := askExternal_spec s inputs (inputs.userAgent.getD defaultUa)
  refine ⟨external, ?_⟩
  simp only [refreshUnlocked, hask]
  rcases answer with _ | sig
  · rcases localSignature_spec hmacSha256Hex inputs (inputs.userAgent.getD defaultUa) now with
      ⟨hno, hnone⟩ | ⟨sig, hsig, hspec⟩
    · exact .inl ⟨by rw [hnone], hno⟩
    · exact .inr ⟨sig, by rw [hsig], hspec⟩
  · exact .inr ⟨_, rfl, hvalid sig rfl, rfl⟩

/-- The ways a call can go. -/
inductive Call (s : NativeSign) (inputs : SignInputs) (now : TimestampMs) : NativeSign × Option SocketSignature → Prop
  | hit {sig : SocketSignature} (hcached : s.cached = some sig) (hfresh : now - sig.atMs < s.freshMs) :
      Call s inputs now ({ s with cacheHits := s.cacheHits + 1 }, some sig)
  | refresh {external : Option ExternalSignerClient} {sig : SocketSignature}
      (hold : ∀ old, s.cached = some old → s.freshMs ≤ now - old.atMs) (hvalid : sig.valid = true) (hnow : sig.atMs = now) :
      Call s inputs now ({ s with external, cached := some sig, refreshes := s.refreshes + 1 }, some sig)
  | stale {external : Option ExternalSignerClient} {sig : SocketSignature} (hcached : s.cached = some sig)
      (hstale : now - sig.atMs < s.staleMs) (hno : NoKey inputs) :
      Call s inputs now ({ s with external, staleServes := s.staleServes + 1 }, some sig)
  | fail {external : Option ExternalSignerClient} (hno : NoKey inputs)
      (hold : ∀ old, s.cached = some old → s.staleMs ≤ now - old.atMs) :
      Call s inputs now ({ s with external, failures := s.failures + 1 }, none)

theorem call_signSocketQuery (hmacSha256Hex : Bytes → Bytes → Bytes) (s : NativeSign) (inputs : SignInputs)
    (now : TimestampMs) : Call s inputs now (signSocketQuery hmacSha256Hex s inputs now) := by
  have hwithin (window : Int) : (∃ sig, s.cached = some sig ∧ now - sig.atMs < window ∧
        s.cached.filter (fun sig => now - sig.atMs < window) = some sig) ∨
      (s.cached.filter (fun sig => now - sig.atMs < window) = none ∧
        ∀ old, s.cached = some old → window ≤ now - old.atMs) := by
    rcases hcached : s.cached with _ | sig
    · exact .inr ⟨rfl, fun old h => by cases h⟩
    · by_cases hin : now - sig.atMs < window
      · exact .inl ⟨sig, rfl, hin, by simp [hin]⟩
      · refine .inr ⟨by simpa using hin, fun old h => ?_⟩
        cases h
        exact not_lt.mp hin
  unfold signSocketQuery
  rcases hwithin s.freshMs with ⟨sig, hcached, hfresh, hfilter⟩ | ⟨hfilter, hold⟩
  · rw [hfilter]
    exact .hit hcached hfresh
  rw [hfilter]
  obtain ⟨external, ⟨hrefresh, hno⟩ | ⟨sig, hrefresh, hvalid, hnow⟩⟩ := refreshUnlocked_spec hmacSha256Hex s inputs now
  · simp only [hrefresh]
    rcases hwithin s.staleMs with ⟨sig, hcached, hstale, hfilter⟩ | ⟨hfilter, hold⟩
    · rw [hfilter]
      exact .stale hcached hstale hno
    · rw [hfilter]
      exact .fail hno hold
  · simp only [hrefresh]
    exact .refresh hold hvalid hnow

/-! ### Runs -/

/-- What was returned is a signature that was made, and that was new, fresh or not too old; nothing is returned only without
    a key. -/
def Served.Honest (freshMs staleMs : Int) (made : List SocketSignature) (c : Served) : Prop :=
  match c.signature with
  | some sig => sig ∈ made ∧ sig.valid = true ∧
      (c.now = sig.atMs ∨ c.now - sig.atMs < freshMs ∨ c.now - sig.atMs < staleMs)
  | none => NoKey c.inputs

structure Kept (freshMs staleMs : Int) (l : Log) : Prop where
  fresh : l.sign.freshMs = freshMs
  stale : l.sign.staleMs = staleMs
  total : l.sign.cacheHits + l.sign.refreshes + l.sign.staleServes + l.sign.failures = l.served.length
  refreshes : l.sign.refreshes = l.made.length
  last : l.sign.cached = l.made.getLast?
  valid : ∀ sig ∈ l.made, sig.valid = true
  spaced : l.made.IsChain fun a b => a.atMs + freshMs ≤ b.atMs
  honest : ∀ c ∈ l.served, c.Honest freshMs staleMs l.made

theorem Served.Honest.mono {freshMs staleMs : Int} {made more : List SocketSignature} {c : Served}
    (h : c.Honest freshMs staleMs made) : c.Honest freshMs staleMs (made ++ more) := by
  unfold Honest at *
  split <;> rename_i hc <;> rw [hc] at h
  · exact ⟨List.mem_append_left _ h.1, h.2⟩
  · exact h

/-- A call that makes no signature. -/
theorem Kept.serve {freshMs staleMs : Int} (h : Kept freshMs staleMs l) {sign : NativeSign} {c : Served}
    (hcached : sign.cached = l.sign.cached) (hfresh : sign.freshMs = l.sign.freshMs) (hstale : sign.staleMs = l.sign.staleMs)
    (hrefreshes : sign.refreshes = l.sign.refreshes)
    (htotal : sign.cacheHits + sign.staleServes + sign.failures =
      l.sign.cacheHits + l.sign.staleServes + l.sign.failures + 1)
    (hc : c.Honest freshMs staleMs l.made) : Kept freshMs staleMs ⟨sign, l.served ++ [c], l.made⟩ := by
  refine ⟨hfresh.trans h.fresh, hstale.trans h.stale, ?_, hrefreshes.trans h.refreshes, hcached.trans h.last, h.valid,
    h.spaced, ?_⟩
  · have hold := h.total
    rw [List.length_append, List.length_singleton]
    dsimp only
    omega
  · intro d hd
    rcases List.mem_append.mp hd with hd | hd
    · exact h.honest d hd
    · rw [List.mem_singleton.mp hd]
      exact hc

theorem Kept.step {freshMs staleMs : Int} (h : Kept freshMs staleMs l) {a : SignInputs × TimestampMs}
    (hs : step hmacSha256Hex l a = some m) : Kept freshMs staleMs m := by
  have hcall := call_signSocketQuery hmacSha256Hex l.sign a.1 a.2
  unfold NativeSign.step at hs
  have hmade {sig : SocketSignature} (hcached : l.sign.cached = some sig) : sig ∈ l.made :=
    List.mem_of_getLast? (h.last ▸ hcached)
  generalize signSocketQuery hmacSha256Hex l.sign a.1 a.2 = r at hs hcall
  cases hcall with
  | @hit sig hcached hfresh =>
    simp only [lt_irrefl, if_false, List.append_nil, Option.some.injEq] at hs
    subst hs
    refine h.serve rfl rfl rfl rfl (by dsimp only; omega) ⟨hmade hcached, h.valid sig (hmade hcached), .inr (.inl ?_)⟩
    rwa [h.fresh] at hfresh
  | @refresh external sig hold hvalid hnow =>
    simp only [Nat.lt_succ_self, if_true, Option.toList_some, Option.some.injEq] at hs
    subst hs
    have hmem : sig ∈ l.made ++ [sig] := List.mem_append_right _ (List.mem_singleton_self sig)
    refine ⟨h.fresh, h.stale, ?_, ?_, ?_, ?_, ?_, ?_⟩
    · have htotal := h.total
      simp only [List.length_append, List.length_singleton]
      omega
    · simp only [List.length_append, List.length_singleton, h.refreshes]
    · simp
    · intro old hmem
      rcases List.mem_append.mp hmem with hmem | hmem
      · exact h.valid old hmem
      · rwa [List.mem_singleton.mp hmem]
    · refine h.spaced.append (List.isChain_singleton sig) fun old hlast new hnew => ?_
      obtain rfl : sig = new := by simpa using hnew
      have hgap := hold old (h.last.trans hlast)
      rw [h.fresh] at hgap
      rw [hnow]
      omega
    · intro c hc
      rcases List.mem_append.mp hc with hc | hc
      · exact (h.honest c hc).mono
      · rw [List.mem_singleton.mp hc]
        exact ⟨hmem, hvalid, .inl hnow.symm⟩
  | @stale external sig hcached hstale hno =>
    simp only [lt_irrefl, if_false, List.append_nil, Option.some.injEq] at hs
    subst hs
    refine h.serve rfl rfl rfl rfl (by dsimp only; omega) ⟨hmade hcached, h.valid sig (hmade hcached), .inr (.inr ?_)⟩
    rwa [h.stale] at hstale
  | fail hno hold =>
    simp only [lt_irrefl, if_false, List.append_nil, Option.some.injEq] at hs
    subst hs
    exact h.serve rfl rfl rfl rfl (by dsimp only; omega) hno

/-- Whatever the clock, the secrets and the external signer do: every call is counted once, as a hit, a refresh, a stale serve
    or a failure; each signature was made at least `freshMs` after the one before it; what a call returns is one of them, new,
    fresh or within `staleMs`; and a call returns nothing only when there is no key to sign with. -/
theorem signSocketQuery_log {sign : NativeSign} (hcached : sign.cached = none) (hcounts : sign.cacheHits = 0 ∧
    sign.refreshes = 0 ∧ sign.staleServes = 0 ∧ sign.failures = 0) (hr : Reaches (step hmacSha256Hex) anyStep { sign } l) :
    l.sign.cacheHits + l.sign.refreshes + l.sign.staleServes + l.sign.failures = l.served.length ∧
      l.sign.refreshes = l.made.length ∧ (l.made.IsChain fun a b => a.atMs + sign.freshMs ≤ b.atMs) ∧
      ∀ c ∈ l.served, c.Honest sign.freshMs sign.staleMs l.made := by
  obtain ⟨hhits, hrefreshes, hstale, hfailures⟩ := hcounts
  have h0 : Kept sign.freshMs sign.staleMs { sign } :=
    ⟨rfl, rfl, by simp [hhits, hrefreshes, hstale, hfailures], hrefreshes, hcached, fun _ h => absurd h List.not_mem_nil,
      List.isChain_nil, fun _ h => absurd h List.not_mem_nil⟩
  have h := hr.invariant h0 fun _ _ _ h _ hs => h.step hs
  exact ⟨h.total, h.refreshes, h.spaced, h.honest⟩

/-- A signature, a hit, a stale serve without the key, and a failure. -/
def fourCalls : List (SignInputs × TimestampMs) :=
  [({ key := some [7] }, 1000), ({}, 60999), ({}, 61000), ({}, 601000)]

def afterFourCalls : Log := (run (step fun _ _ => [1]) { sign := {} } fourCalls).getD { sign := {} }

theorem signSocketQuery_log_four : afterFourCalls.sign.cacheHits = 1 ∧ afterFourCalls.sign.staleServes = 1 ∧
    afterFourCalls.sign.failures = 1 ∧ afterFourCalls.sign.refreshes = afterFourCalls.made.length := by
  have hrun : run (step fun _ _ => [1]) { sign := {} } fourCalls = some afterFourCalls := rfl
  obtain ⟨-, hrefreshes, -⟩ := signSocketQuery_log rfl ⟨rfl, rfl, rfl, rfl⟩ (Reaches.of_run (meets_anyStep _ _) hrun)
  exact ⟨by decide, by decide, by decide, hrefreshes⟩

end NativeSign
end CrashCore
