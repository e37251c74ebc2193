import CrashCore.Persistence.MigrationRunner

/-! What the migration runner makes of a script. It splits at every `;`, the lexer only at those outside of
comments, literals and bodies, so each statement and each stretch of comments can be judged by itself. -/

namespace CrashCore
namespace MigrationRunner
open SqlScript

variable {sql piece : List Char} {segment : List (Char × Kind)}

/-- The runner sends the statements of the script, each without the blanks before it. -/
def SplitsFaithfully (sql : List Char) : Prop := executed sql = (SqlScript.statements sql).map strip

instance : DecidablePred SplitsFaithfully := fun _ => inferInstanceAs (Decidable (_ = _))

/-- A segment that the runner handles as the lexer does: a statement has no `;` in a comment, literal or body and
    consists of more than blanks and `-`; outside of the statements there is nothing but blanks, `-` and `;`. -/
def Unharmed (segment : List (Char × Kind)) : Prop :=
  if Significant segment then ';' ∉ content segment ∧ ¬Skipped (content segment)
  else ∀ c ∈ content segment, IsBlank c ∨ c = '-' ∨ c = ';'

instance : DecidablePred Unharmed := fun segment =>
  have := List.decidableBAll (fun c => IsBlank c ∨ c = '-' ∨ c = ';') (content segment)
  decidable_of_iff (if Significant segment then ';' ∉ content segment ∧ ¬Skipped (content segment)
    else ∀ c ∈ content segment, IsBlank c ∨ c = '-' ∨ c = ';') Iff.rfl

/-! ### One segment -/

theorem skipped_strip : Skipped (strip piece) ↔ Skipped piece := by
  induction piece with
  | nil => rfl
  | cons c piece ih =>
    by_cases hc : IsBlank c
    · rw [strip, List.dropWhile_cons_of_pos (by simpa using hc)]
      refine ih.trans ⟨fun h x hx => ?_, fun h x hx => h x (List.mem_cons_of_mem _ hx)⟩
      rcases List.mem_cons.mp hx with rfl | hx
      · exact Or.inl hc
      · exact h x hx
    · rw [strip, List.dropWhile_cons_of_neg (by simpa using hc)]

theorem mem_of_mem_strip {c : Char} (h : c ∈ strip piece) : c ∈ piece := (List.dropWhile_suffix _).subset h

theorem semicolon_mem_strip (h : ';' ∈ piece) : ';' ∈ strip piece := by
  induction piece with
  | nil => cases h
  | cons c piece ih =>
    by_cases hc : IsBlank c
    · rw [strip, List.dropWhile_cons_of_pos (by simpa using hc)]
      rcases List.mem_cons.mp h with rfl | h
      · exact absurd hc (by decide)
      · exact ih h
    · rwa [strip, List.dropWhile_cons_of_neg (by simpa using hc)]

theorem mem_executed {text stmt : List Char} :
    stmt ∈ executed text ↔ ∃ piece ∈ pieces text, ¬Skipped piece ∧ strip piece = stmt := by
  simp only [executed, List.mem_filter, List.mem_map, decide_eq_true_eq]
  constructor
  · rintro ⟨⟨piece, hpiece, rfl⟩, hn⟩
    exact ⟨piece, hpiece, fun h => hn (skipped_strip.mpr h), rfl⟩
  · rintro ⟨piece, hpiece, hn, rfl⟩
    exact ⟨⟨piece, hpiece, rfl⟩, fun h => hn (skipped_strip.mp h)⟩

/-- What is sent has no `;` and is no comment of dashes. -/
theorem of_mem_executed {text stmt : List Char} (h : stmt ∈ executed text) : ';' ∉ stmt ∧ ¬Skipped stmt := by
  obtain ⟨piece, hpiece, hn, rfl⟩ := mem_executed.mp h
  refine ⟨fun hc => ?_, fun hs => hn (skipped_strip.mp hs)⟩
  exact (List.of_mem_between hpiece _ (mem_of_mem_strip hc)).1 rfl

theorem executed_eq_singleton {text : List Char} (hsep : ';' ∉ text) (hn : ¬Skipped text) :
    executed text = [strip text] := by
  have hpieces : pieces text = [text] := List.between_eq_singleton fun c hc heq => hsep (heq ▸ hc)
  have hkeep : ¬Skipped (strip text) := fun h => hn (skipped_strip.mp h)
  simp [executed, hpieces, hkeep]

/-- Nothing is sent exactly for blanks, dashes and separators. -/
theorem executed_eq_nil {text : List Char} : executed text = [] ↔ ∀ c ∈ text, IsBlank c ∨ c = '-' ∨ c = ';' := by
  rw [List.eq_nil_iff_forall_not_mem]
  constructor
  · intro h c hc
    by_contra hother
    rw [not_or, not_or] at hother
    obtain ⟨piece, hpiece, hmem⟩ := List.exists_mem_between (p := (· = ';')) hc hother.2.2
    refine h _ (mem_executed.mpr ⟨piece, hpiece, fun hs => ?_, rfl⟩)
    exact (hs c hmem).elim hother.1 hother.2.1
  · rintro h stmt hstmt
    obtain ⟨piece, hpiece, hn, rfl⟩ := mem_executed.mp hstmt
    refine hn fun c hc => ?_
    obtain ⟨hne, hmem⟩ := List.of_mem_between hpiece c hc
    rcases h c hmem with hb | hd | hs
    · exact Or.inl hb
    · exact Or.inr hd
    · exact absurd hs hne

/-! ### The whole script -/

theorem executed_segments (sql : List Char) :
    executed sql = (segments sql).flatMap fun segment => executed (content segment) := by
  have hpieces : pieces sql = (segments sql).flatMap fun segment => pieces (content segment) := by
    have hmap := List.between_map (l := marks sql) (f := Prod.fst) (p := fun m : Char × Kind => m.2 = .separator)
      (q := (· = ';')) fun m hm h => marks_separator hm h
    rwa [marks_map_fst] at hmap
  rw [executed, hpieces, List.map_flatMap, List.filter_flatMap]
  rfl

theorem statements_segments (sql : List Char) :
    (SqlScript.statements sql).map strip = (segments sql).flatMap fun segment =>
      if Significant segment then [strip (content segment)] else [] := by
  unfold SqlScript.statements
  generalize segments sql = l
  induction l with
  | nil => rfl
  | cons segment l ih =>
    rw [List.flatMap_cons, ← ih]
    by_cases hs : Significant segment <;> simp [hs]

/-- A script is split as the lexer splits it exactly if every segment is unharmed. -/
theorem splitsFaithfully_iff (sql : List Char) : SplitsFaithfully sql ↔ ∀ segment ∈ segments sql, Unharmed segment := by
  unfold SplitsFaithfully
  constructor
  · intro h
    have hstatement : ∀ segment ∈ segments sql, Significant segment →
        ';' ∉ content segment ∧ ¬Skipped (content segment) := by
      intro segment hmem hs
      have hsent : strip (content segment) ∈ executed sql := by
        rw [h, statements_segments]
        exact List.mem_flatMap.mpr ⟨segment, hmem, by simp [hs]⟩
      obtain ⟨hsep, hn⟩ := of_mem_executed hsent
      exact ⟨fun hc => hsep (semicolon_mem_strip hc), fun hsk => hn (skipped_strip.mpr hsk)⟩
    -- Every statement is sent, so nothing else is.
    rw [executed_segments, statements_segments] at h
    have hlength := List.length_eq_of_flatMap (fun segment hmem => ?_) (congrArg List.length h)
    · intro segment hmem
      unfold Unharmed
      split
      · rename_i hs
        exact hstatement segment hmem hs
      · rename_i hs
        have hnone := hlength segment hmem
        rw [if_neg hs] at hnone
        exact executed_eq_nil.mp (List.length_eq_zero_iff.mp hnone)
    · split
      · rename_i hs
        obtain ⟨hsep, hn⟩ := hstatement segment hmem hs
        rw [executed_eq_singleton hsep hn]
      · exact Nat.zero_le _
  · intro h
    rw [executed_segments, statements_segments]
    refine List.flatMap_congr fun segment hmem => ?_
    have hsegment := h segment hmem
    unfold Unharmed at hsegment
    split at hsegment
    · rename_i hs
      rw [if_pos hs]
      exact executed_eq_singleton hsegment.1 hsegment.2
    · rename_i hs
      rw [if_neg hs]
      exact executed_eq_nil.mpr hsegment

/-- The end of `migrations/0039`: a comment with a `;`. -/
def provenanceScript : List Char :=
  "-- Optional provenance columns for ACIE (nullable; safe additive)
ALTER TABLE predictions ADD COLUMN IF NOT EXISTS provenance TEXT;".toList

theorem not_splitsFaithfully_provenance : Closed provenanceScript ∧ ¬SplitsFaithfully provenanceScript := by
  decide +kernel

end MigrationRunner
end CrashCore
