import Mathlib.Algebra.Order.BigOperators.Group.List
import Mathlib.Algebra.Order.Group.Nat
import Mathlib.Data.List.Basic
import Mathlib.Tactic.Common

/-! The lexical structure of an SQL script, as far as it decides where a statement ends: white space, `--` and
nested block comments, literals in single quotes, dollar-quoted bodies, and the separator `;` outside of them. -/

namespace List
variable {α β : Type} {p : α → Prop} [DecidablePred p] {q : β → Prop} [DecidablePred q] {a : α} {l l' : List α}

/-- Puts an element before the first of some lists. -/
def consFirst (a : α) : List (List α) → List (List α)
  | [] => [[a]]
  | l :: ls => (a :: l) :: ls

/-- The lists between the elements with `p`; there is one more than such elements. -/
def between (p : α → Prop) [DecidablePred p] : List α → List (List α)
  | [] => [[]]
  | a :: l => if p a then [] :: between p l else consFirst a (between p l)

theorem between_ne_nil : ∀ l : List α, between p l ≠ []
  | [] => by simp [between]
  | a :: l => by
    unfold between
    split
    · simp
    · rcases between p l with _ | ⟨x, xs⟩ <;> simp [consFirst]

theorem between_cons_of_neg (h : ¬p a) {x : List α} {xs : List (List α)} (hl : between p l = x :: xs) :
    between p (a :: l) = (a :: x) :: xs := by
  rw [between, if_neg h, hl, consFirst]

/-- No element with `p` is left. -/
theorem of_mem_between : ∀ {l l' : List α}, l' ∈ between p l → ∀ a ∈ l', ¬p a ∧ a ∈ l
  | [], l', hl', a, ha => by
    obtain rfl : l' = [] := by simpa [between] using hl'
    cases ha
  | b :: l, l', hl', a, ha => by
    by_cases hb : p b
    · rw [between, if_pos hb] at hl'
      rcases mem_cons.mp hl' with rfl | hl'
      · cases ha
      · obtain ⟨hn, hm⟩ := of_mem_between hl' a ha
        exact ⟨hn, mem_cons_of_mem _ hm⟩
    · obtain ⟨x, xs, hx⟩ : ∃ x xs, between p l = x :: xs := exists_cons_of_ne_nil (between_ne_nil l)
      rw [between_cons_of_neg hb hx] at hl'
      have hin : ∀ y ∈ between p l, ∀ c ∈ y, ¬p c ∧ c ∈ b :: l := fun y hy c hc => by
        obtain ⟨hn, hm⟩ := of_mem_between hy c hc
        exact ⟨hn, mem_cons_of_mem _ hm⟩
      rcases mem_cons.mp hl' with rfl | hl'
      · rcases mem_cons.mp ha with rfl | ha
        · exact ⟨hb, mem_cons_self⟩
        · exact hin x (hx ▸ mem_cons_self) a ha
      · exact hin l' (hx ▸ mem_cons_of_mem _ hl') a ha

theorem between_eq_singleton : ∀ {l : List α}, (∀ a ∈ l, ¬p a) → between p l = [l]
  | [], _ => rfl
  | a :: _, h =>
    between_cons_of_neg (h a mem_cons_self) (between_eq_singleton fun b hb => h b (mem_cons_of_mem _ hb))

/-- Every element without `p` is in one of the lists. -/
theorem exists_mem_between : ∀ {l : List α}, a ∈ l → ¬p a → ∃ l' ∈ between p l, a ∈ l'
  | b :: l, ha, hn => by
    by_cases hb : p b
    · rw [between, if_pos hb]
      rcases mem_cons.mp ha with rfl | ha
      · exact absurd hb hn
      · obtain ⟨l', hl', hm⟩ := exists_mem_between ha hn
        exact ⟨l', mem_cons_of_mem _ hl', hm⟩
    · obtain ⟨x, xs, hx⟩ : ∃ x xs, between p l = x :: xs := exists_cons_of_ne_nil (between_ne_nil l)
      rw [between_cons_of_neg hb hx]
      rcases mem_cons.mp ha with rfl | ha
      · exact ⟨a :: x, mem_cons_self, mem_cons_self⟩
      · obtain ⟨l', hl', hm⟩ := exists_mem_between ha hn
        rw [hx] at hl'
        rcases mem_cons.mp hl' with rfl | hl'
        · exact ⟨b :: l', mem_cons_self, mem_cons_of_mem _ hm⟩
        · exact ⟨l', mem_cons_of_mem _ hl', hm⟩

/-- A split at more places refines a split at fewer. -/
theorem between_map {f : α → β} :
    ∀ {l : List α}, (∀ a ∈ l, p a → q (f a)) → between q (l.map f) = (between p l).flatMap fun l' => between q (l'.map f)
  | [], _ => rfl
  | a :: l, h => by
    have ih := between_map (l := l) fun b hb => h b (mem_cons_of_mem _ hb)
    by_cases ha : p a
    · rw [between, if_pos ha, map_cons, between, if_pos (h a mem_cons_self ha), flatMap_cons, ih]
      rfl
    · obtain ⟨x, xs, hx⟩ : ∃ x xs, between p l = x :: xs := exists_cons_of_ne_nil (between_ne_nil l)
      rw [hx, flatMap_cons] at ih
      rw [between_cons_of_neg ha hx, flatMap_cons, map_cons, map_cons]
      by_cases hq : q (f a)
      · rw [between, if_pos hq, ih, between, if_pos hq]
        rfl
      · obtain ⟨y, ys, hy⟩ : ∃ y ys, between q (x.map f) = y :: ys := exists_cons_of_ne_nil (between_ne_nil _)
        rw [hy] at ih
        rw [between_cons_of_neg hq hy, between_cons_of_neg hq ih]
        rfl

/-- Lists that are pointwise at least as long have the same total length only if they are of the same lengths. -/
theorem length_eq_of_flatMap {f g : α → List β} :
    ∀ {l : List α}, (∀ a ∈ l, (g a).length ≤ (f a).length) → (l.flatMap f).length = (l.flatMap g).length →
      ∀ a ∈ l, (f a).length = (g a).length
  | [], _, _, a, ha => absurd ha not_mem_nil
  | b :: l, hle, heq, a, ha => by
    have hrest : ∀ a ∈ l, (g a).length ≤ (f a).length := fun a ha => hle a (mem_cons_of_mem _ ha)
    have hsum : (l.flatMap g).length ≤ (l.flatMap f).length := by
      rw [length_flatMap, length_flatMap]
      exact sum_le_sum hrest
    have hb := hle b mem_cons_self
    rw [flatMap_cons, flatMap_cons, length_append, length_append] at heq
    rcases mem_cons.mp ha with rfl | ha
    · omega
    · exact length_eq_of_flatMap hrest (by omega) a ha

end List

namespace SqlScript

inductive Context
  /-- `word`: the last character belongs to an identifier or a number. -/
  | plain (word : Bool)
  | lineComment
  /-- A block comment inside `depth` others. -/
  | blockComment (depth : Nat)
  | literal
  /-- A body quoted by `$tag$`. -/
  | body (tag : List Char)
deriving DecidableEq

/-- What a character is part of. -/
inductive Kind
  | separator | space | comment | text
deriving DecidableEq

def isSpace (c : Char) : Bool := [' ', '\t', '\n', '\r', '\x0b', '\x0c'].contains c

def isTagStart (c : Char) : Bool := c.isAlpha || c = '_' || 0x80 ≤ c.toNat

def isTagChar (c : Char) : Bool := isTagStart c || c.isDigit

/-- The tag of the dollar quote whose first `$` is before the text. -/
def dollarTag? (text : List Char) : Option (List Char) :=
  let tag := text.takeWhile isTagChar
  if (text.drop tag.length).head? = some '$' ∧ (tag.head?.all isTagStart) then some tag else none

/-- The token that a character opens or continues: the context after it, how many characters more it has, and what
    it is. -/
def token : Context → Char → List Char → Context × Nat × Kind
  | .plain word, c, rest =>
    if c = ';' then (.plain false, 0, .separator)
    else if isSpace c then (.plain false, 0, .space)
    else if c = '-' ∧ rest.head? = some '-' then (.lineComment, 1, .comment)
    else if c = '/' ∧ rest.head? = some '*' then (.blockComment 0, 1, .comment)
    else if c = '\'' then (.literal, 0, .text)
    else if c = '$' ∧ ¬word then
      match dollarTag? rest with
      | some tag => (.body tag, tag.length + 1, .text)
      | none => (.plain false, 0, .text)
    else (.plain (isTagChar c || (word && c = '$')), 0, .text)
  | .lineComment, c, _ => (if c = '\n' ∨ c = '\r' then .plain false else .lineComment, 0, .comment)
  | .blockComment depth, c, rest =>
    if c = '/' ∧ rest.head? = some '*' then (.blockComment (depth + 1), 1, .comment)
    else if c = '*' ∧ rest.head? = some '/' then
      (match depth with | 0 => .plain false | depth + 1 => .blockComment depth, 1, .comment)
    else (.blockComment depth, 0, .comment)
  | .literal, c, rest =>
    if c = '\'' then if rest.head? = some '\'' then (.literal, 1, .text) else (.plain false, 0, .text)
    else (.literal, 0, .text)
  | .body tag, c, rest =>
    if c = '$' ∧ (tag ++ ['$']).isPrefixOf rest then (.plain false, tag.length + 1, .text) else (.body tag, 0, .text)

/-- What each character is part of. `skip` characters belong to the last token, of kind `kind`. -/
def scan : Nat → Kind → Context → List Char → List (Char × Kind) × Context
  | _, _, context, [] => ([], context)
  | skip + 1, kind, context, c :: rest =>
    let (marks, last) := scan skip kind context rest
    ((c, kind) :: marks, last)
  | 0, _, context, c :: rest =>
    let (next, skip, kind) := token context c rest
    let (marks, last) := scan skip kind next rest
    ((c, kind) :: marks, last)

def marks (script : List Char) : List (Char × Kind) := (scan 0 .text (.plain false) script).1

/-- A script may end here: a line comment ends with it. -/
def Context.mayEnd : Context → Bool
  | .plain _ | .lineComment => true
  | .blockComment _ | .literal | .body _ => false

/-- Every block comment, literal and body is closed. -/
def Closed (script : List Char) : Prop := (scan 0 .text (.plain false) script).2.mayEnd = true

instance : DecidablePred Closed := fun _ => inferInstanceAs (Decidable (_ = true))

def segments (script : List Char) : List (List (Char × Kind)) := (marks script).between (·.2 = .separator)

/-- The segment holds more than white space and comments. -/
def Significant (segment : List (Char × Kind)) : Prop := ∃ m ∈ segment, m.2 = .text

instance : DecidablePred Significant := fun segment => inferInstanceAs (Decidable (∃ m ∈ segment, _))

def content (segment : List (Char × Kind)) : List Char := segment.map (·.1)

/-- The statements of the script, in order. -/
def statements (script : List Char) : List (List Char) :=
  ((segments script).filter fun segment => Significant segment).map content

/-! ### The marks -/

theorem scan_map_fst : ∀ (script : List Char) (skip : Nat) (kind : Kind) (context : Context),
    (scan skip kind context script).1.map (·.1) = script
  | [], _, _, _ => by simp [scan]
  | c :: rest, 0, kind, context => by simp [scan, scan_map_fst rest]
  | c :: rest, skip + 1, kind, context => by simp [scan, scan_map_fst rest]

theorem marks_map_fst (script : List Char) : (marks script).map (·.1) = script := scan_map_fst ..

/-- Only a `;` separates. -/
theorem token_separator {context : Context} {c : Char} {rest : List Char}
    (h : (token context c rest).2.2 = .separator) : c = ';' ∧ (token context c rest).2.1 = 0 := by
  -- outside of plain text the kind is fixed; in it only the first branch separates
  have hcomment : Kind.comment ≠ .separator := nofun
  have htext : Kind.text ≠ .separator := nofun
  cases context with
  | plain word =>
    by_cases hc : c = ';'
    · subst hc
      exact ⟨rfl, rfl⟩
    · refine absurd h ?_
      rw [token, if_neg hc]
      repeat' split
      all_goals exact nofun
  | lineComment => exact absurd h hcomment
  | blockComment depth =>
    refine absurd h ?_
    simp only [token]
    split
    · exact hcomment
    · split <;> exact hcomment
  | literal =>
    refine absurd h ?_
    rw [token]
    split
    · split <;> exact htext
    · exact htext
  | body tag =>
    refine absurd h ?_
    rw [token]
    split <;> exact htext

theorem scan_separator : ∀ (script : List Char) (skip : Nat) (kind : Kind) (context : Context),
    (kind = .separator → skip = 0) → ∀ m ∈ (scan skip kind context script).1, m.2 = .separator → m.1 = ';'
  | [], _, _, _, _, m, hm, _ => by simp [scan] at hm
  | c :: rest, 0, kind, context, _, m, hm, hsep => by
    rcases List.mem_cons.mp hm with rfl | hm
    · exact (token_separator hsep).1
    · exact scan_separator rest _ _ _ (fun h => (token_separator h).2) m hm hsep
  | c :: rest, skip + 1, kind, context, hkind, m, hm, hsep => by
    have hno : kind ≠ .separator := fun h => absurd (hkind h) (Nat.succ_ne_zero _)
    rcases List.mem_cons.mp hm with rfl | hm
    · exact absurd hsep hno
    · exact scan_separator rest _ _ _ (fun h => absurd h hno) m hm hsep

theorem marks_separator {script : List Char} {m : Char × Kind} (hm : m ∈ marks script) (h : m.2 = .separator) :
    m.1 = ';' := scan_separator script 0 .text (.plain false) (fun _ => rfl) m hm h

end SqlScript
