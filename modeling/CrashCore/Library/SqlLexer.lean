import CrashCore.Library.SqlScript
import Mathlib.Data.List.DropRight
import Mathlib.Tactic.IntervalCases

/-! The tokens of an SQL statement, with standard conforming strings: a lexer that reads one character after the other.
What a literal denotes is part of its token, so that a text between quotes cannot be taken for anything else. -/

namespace SqlLexer
open SqlScript (isSpace isTagStart isTagChar)

inductive Token
  /-- A key word or an identifier. -/
  | word (text : List Char)
  /-- An identifier in double quotes. -/
  | name (text : List Char)
  | number (text : List Char)
  /-- A string between quotes or dollar tags. -/
  | literal (value : List Char)
  /-- A literal with a letter before its quote, as it is written. -/
  | lettered (letter text : List Char)
  | operator (text : List Char)
  /-- Brackets, comma, semicolon and the like. -/
  | symbol (c : Char)
deriving DecidableEq

inductive State
  | plain
  | word (text : List Char)
  | number (text : List Char)
  | operator (text : List Char)
  | lineComment
  /-- In a comment inside `depth` others, after the character `last`. -/
  | blockComment (depth : Nat) (last : Char)
  | name (text : List Char)
  /-- After a double quote, which ends the name unless another one follows. -/
  | nameQuote (text : List Char)
  | literal (value : List Char)
  /-- After a quote, which ends the literal unless another one follows. -/
  | quote (value : List Char)
  /-- In white space after a literal, which goes on behind a line break. -/
  | gap (value : List Char) (newline : Bool)
  | lettered (letter text : List Char) (escaped : Bool)
  | letteredQuote (letter text : List Char)
  /-- In what may be the tag of a dollar quote. -/
  | dollar (tag : List Char)
  | body (tag value : List Char)
deriving DecidableEq

def isNewline (c : Char) : Bool := c = '\n' || c = '\r'

def isOperator (c : Char) : Bool := "+-*/<>=~!@#%^&|\x60?".toList.contains c

/-- An operator that ends in a sign must have one of these characters. -/
def isSpecial (c : Char) : Bool := "~!@#%^&|\x60?".toList.contains c

def isSign (c : Char) : Bool := c = '+' || c = '-'

def isWordChar (c : Char) : Bool := isTagChar c || c = '$'

/-- The characters of a number, with the sign of its exponent. -/
def isNumberChar (text : List Char) (c : Char) : Bool :=
  isTagChar c || c = '.' || (isSign c && (text.getLast? = some 'e' || text.getLast? = some 'E'))

/-- The letters that make the literal behind them another one. -/
def letters : List (List Char) := ["e", "E", "b", "B", "x", "X", "n", "N"].map (·.toList)

/-- A run of operator characters: signs at its end are operators of their own. -/
def operators (text : List Char) : List Token :=
  if text = [] then []
  else if text.any isSpecial then [.operator text]
  else
    let core := text.take 1 ++ (text.drop 1).rdropWhile isSign
    .operator core :: (text.drop core.length).map fun c => .operator [c]

/-- The first character of a token. -/
def opening (c : Char) : List Token × State :=
  if isSpace c then ([], .plain)
  else if isTagStart c then ([], .word [c])
  else if c.isDigit then ([], .number [c])
  else if isOperator c then ([], .operator [c])
  else if c = '"' then ([], .name [])
  else if c = '\'' then ([], .literal [])
  else if c = '$' then ([], .dollar [])
  else ([.symbol c], .plain)

/-- The tokens before the character are complete. -/
def close (ts : List Token) (c : Char) : List Token × State := (ts ++ (opening c).1, (opening c).2)

def step : State → Char → List Token × State
  | .plain, c => opening c
  | .word text, c =>
    if isWordChar c then ([], .word (text ++ [c]))
    else if c = '\'' ∧ text ∈ letters then ([], .lettered text [] false)
    else close [.word text] c
  | .number text, c => if isNumberChar text c then ([], .number (text ++ [c])) else close [.number text] c
  | .operator text, c =>
    if c = '-' ∧ text.getLast? = some '-' then (operators text.dropLast, .lineComment)
    else if c = '*' ∧ text.getLast? = some '/' then (operators text.dropLast, .blockComment 0 ' ')
    else if isOperator c then ([], .operator (text ++ [c]))
    else close (operators text) c
  | .lineComment, c => ([], if isNewline c then .plain else .lineComment)
  | .blockComment depth last, c =>
    if last = '/' ∧ c = '*' then ([], .blockComment (depth + 1) ' ')
    else if last = '*' ∧ c = '/' then
      ([], match depth with | 0 => .plain | depth + 1 => .blockComment depth ' ')
    else ([], .blockComment depth c)
  | .name text, c => ([], if c = '"' then .nameQuote text else .name (text ++ [c]))
  | .nameQuote text, c => if c = '"' then ([], .name (text ++ ['"'])) else close [.name text] c
  | .literal value, c => ([], if c = '\'' then .quote value else .literal (value ++ [c]))
  | .quote value, c =>
    if c = '\'' then ([], .literal (value ++ ['\'']))
    else if isSpace c then ([], .gap value (isNewline c))
    else close [.literal value] c
  | .gap value newline, c =>
    if c = '\'' ∧ newline then ([], .literal value)
    else if isSpace c then ([], .gap value (newline || isNewline c))
    else close [.literal value] c
  | .lettered letter text escaped, c =>
    if escaped then ([], .lettered letter (text ++ [c]) false)
    else if c = '\'' then ([], .letteredQuote letter text)
    else ([], .lettered letter (text ++ [c]) (c = '\\' && (letter = ['e'] || letter = ['E'])))
  | .letteredQuote letter text, c =>
    if c = '\'' then ([], .lettered letter (text ++ ['\'', '\'']) false) else close [.lettered letter text] c
  | .dollar tag, c =>
    if c = '$' then ([], .body tag [])
    else if isTagChar c then ([], .dollar (tag ++ [c]))
    else close [.word ('$' :: tag)] c
  | .body tag value, c =>
    let mark := '$' :: (tag ++ ['$'])
    if mark.isSuffixOf (value ++ [c]) then
      ([.literal ((value ++ [c]).take (value.length + 1 - mark.length))], .plain)
    else ([], .body tag (value ++ [c]))

/-- What is left at the end of the statement; comments, names and literals must be closed. -/
def finish : State → Option (List Token)
  | .plain | .lineComment => some []
  | .word text => some [.word text]
  | .number text => some [.number text]
  | .operator text => some (operators text)
  | .nameQuote text => some [.name text]
  | .quote value | .gap value _ => some [.literal value]
  | .letteredQuote letter text => some [.lettered letter text]
  | .dollar tag => some [.word ('$' :: tag)]
  | .blockComment .. | .name _ | .literal _ | .lettered .. | .body .. => none

def scan : State → List Char → List Token × State
  | s, [] => ([], s)
  | s, c :: rest => ((step s c).1 ++ (scan (step s c).2 rest).1, (scan (step s c).2 rest).2)

def tokens (text : List Char) : Option (List Token) :=
  (finish (scan .plain text).2).map ((scan .plain text).1 ++ ·)

/-! ### Texts that are put together -/

variable {s : State} {a b rest text : List Char} {value : List Char} {c : Char} {ts : List Token}

theorem scan_append : ∀ (a b : List Char) (s : State),
    scan s (a ++ b) = ((scan s a).1 ++ (scan (scan s a).2 b).1, (scan (scan s a).2 b).2)
  | [], _, _ => rfl
  | c :: a, b, s => by
    rw [List.cons_append, scan, scan, scan_append a b, List.append_assoc]

/-- A text between quotes, with each quote in it doubled. -/
def quoted (text : List Char) : List Char :=
  '\'' :: (text.flatMap (fun c => if c = '\'' then ['\'', '\''] else [c]) ++ ['\''])

theorem scan_doubled (text : List Char) : ∀ value,
    scan (.literal value) (text.flatMap fun c => if c = '\'' then ['\'', '\''] else [c]) =
      ([], .literal (value ++ text)) := by
  induction text with
  | nil =>
    intro value
    rw [List.append_nil]
    rfl
  | cons c text ih =>
    intro value
    have hchar : scan (.literal value) (if c = '\'' then ['\'', '\''] else [c]) = ([], .literal (value ++ [c])) := by
      by_cases hc : c = '\''
      · rw [if_pos hc, hc]
        rfl
      · rw [if_neg hc]
        simp [scan, step, hc]
    rw [List.flatMap_cons, scan_append, hchar]
    dsimp only
    rw [ih, List.append_assoc]
    rfl

/-- Whatever the text is, its literal is still open before the last quote, and denotes the text after it. -/
theorem scan_quoted (text : List Char) : scan .plain (quoted text) = ([], .quote text) := by
  have hopen : scan .plain (quoted text) = scan (.literal []) _ := rfl
  rw [hopen, scan_append, scan_doubled]
  rfl

/-! ### Items with commas between them -/

theorem not_mem_intercalate {α : Type} {a x : α} {ls : List (List α)} (hx : x ≠ a) (hl : ∀ l ∈ ls, x ∉ l) :
    x ∉ [a].intercalate ls := by
  induction ls with
  | nil => exact List.not_mem_nil
  | cons l ls ih =>
    rcases ls with _ | ⟨l', ls⟩
    · simpa using hl l List.mem_cons_self
    · rw [List.intercalate_cons_cons, List.mem_append, List.mem_append, not_or, not_or]
      exact ⟨⟨hl l List.mem_cons_self, List.mem_singleton.not.mpr hx⟩,
        ih fun m hm => hl m (List.mem_cons_of_mem _ hm)⟩

/-- The text is read as the tokens, when a comma or a closing bracket follows. -/
def Item (text : List Char) (ts : List Token) : Prop :=
  ∀ c ∈ [',', ')'], ∀ rest, scan .plain (text ++ c :: rest) =
    (ts ++ (scan .plain (c :: rest)).1, (scan .plain (c :: rest)).2)

/-- What is complete when a comma or a closing bracket comes. -/
theorem item_of_scan (hscan : scan .plain text = ([], s)) (hcomma : step s ',' = close ts ',')
    (hbracket : step s ')' = close ts ')') : Item text ts := by
  intro c hc rest
  have hclose : step s c = close ts c := by
    rcases List.mem_cons.mp hc with rfl | hc
    · exact hcomma
    · obtain rfl := List.mem_singleton.mp hc
      exact hbracket
  rw [scan_append, hscan]
  dsimp only
  rw [scan, hclose, scan]
  simp [close, step]

theorem item_quoted (text : List Char) : Item (quoted text) [.literal text] :=
  item_of_scan (scan_quoted text) rfl rfl

/-- A word without quotes in it. -/
theorem item_word (hscan : scan .plain text = ([], .word text)) : Item text [.word text] :=
  item_of_scan hscan rfl rfl

theorem opening_digit (h : c.isDigit = true) : opening c = ([], .number [c]) := by
  have all : ∀ n, 48 ≤ n → n ≤ 57 → opening (Char.ofNat n) = ([], .number [Char.ofNat n]) := by
    intro n hlow hhigh
    interval_cases n <;> rfl
  obtain ⟨hlow, hhigh⟩ : 48 ≤ c.toNat ∧ c.toNat ≤ 57 := by simpa [Char.isDigit, UInt32.le_iff_toNat_le] using h
  rw [← Char.ofNat_toNat c]
  exact all _ hlow hhigh

theorem scan_number : ∀ (ds : List Char) (text : List Char), (∀ c ∈ ds, c.isDigit = true ∨ c = '.') →
    scan (.number text) ds = ([], .number (text ++ ds))
  | [], text, _ => by
    rw [List.append_nil]
    rfl
  | c :: ds, text, h => by
    have hchar : isNumberChar text c = true := by
      rcases h c List.mem_cons_self with hc | rfl
      · simp [isNumberChar, isTagChar, hc]
      · simp [isNumberChar]
    rw [scan, step, if_pos hchar]
    dsimp only
    rw [scan_number ds (text ++ [c]) fun d hd => h d (List.mem_cons_of_mem _ hd), List.append_assoc]
    rfl

/-- Digits and points are one number. -/
theorem item_number {d : Char} {ds : List Char} (hd : d.isDigit = true) (h : ∀ c ∈ ds, c.isDigit = true ∨ c = '.') :
    Item (d :: ds) [.number (d :: ds)] := by
  have hscan : scan .plain (d :: ds) = ([], .number (d :: ds)) := by
    rw [scan, step, opening_digit hd]
    dsimp only
    rw [scan_number ds [d] h]
    rfl
  exact item_of_scan hscan rfl rfl

/-- A sign before it is an operator. -/
theorem item_signed {d : Char} {ds : List Char} (hd : d.isDigit = true) (h : ∀ c ∈ ds, c.isDigit = true ∨ c = '.') :
    Item ('-' :: d :: ds) [.operator ['-'], .number (d :: ds)] := by
  intro c hc rest
  have hnumber := item_number hd h c hc rest
  have hopen : step .plain d = opening d := rfl
  have hsign : step (.operator ['-']) d = close [.operator ['-']] d := by
    have hop : isOperator d = false := by
      have all : ∀ c ∈ "+-*/<>=~!@#%^&|\x60?".toList, (!c.isDigit) = true := List.all_eq_true.mp (by decide)
      by_contra hmem
      have hmem : d ∈ "+-*/<>=~!@#%^&|\x60?".toList := List.contains_iff_mem.mp (Bool.not_eq_false _ ▸ hmem)
      simpa [hd] using all d hmem
    have hminus : d ≠ '-' ∧ d ≠ '*' := by
      refine ⟨?_, ?_⟩ <;>
      · rintro rfl
        cases hd
    rw [step, if_neg fun hc => hminus.1 hc.1, if_neg fun hc => hminus.2 hc.1, hop]
    rfl
  have hminus : scan .plain ('-' :: d :: ds ++ c :: rest) = scan (.operator ['-']) (d :: ds ++ c :: rest) := rfl
  rw [List.cons_append, scan, hopen] at hnumber
  rw [hminus, List.cons_append, scan, hsign, close]
  dsimp only
  rw [List.append_assoc, (Prod.mk.inj hnumber).1, (Prod.mk.inj hnumber).2]
  rfl

/-- Items with commas between them, up to what follows them. -/
theorem scan_items {texts : List (List Char)} {tss : List (List Token)} (hitem : Item text ts)
    (h : List.Forall₂ Item texts tss) (hc : c ∈ [',', ')']) :
    scan .plain (text ++ (texts.flatMap ([',', ' '] ++ ·) ++ c :: rest)) =
      (ts ++ (tss.flatMap (.symbol ',' :: ·) ++ (scan .plain (c :: rest)).1), (scan .plain (c :: rest)).2) := by
  induction h generalizing text ts with
  | nil => exact hitem c hc rest
  | @cons text' ts' texts tss hitem' _ ih =>
    have hcomma (t : List Char) :
        scan .plain (',' :: ' ' :: t) = (.symbol ',' :: (scan .plain t).1, (scan .plain t).2) := rfl
    have htext : (text' :: texts).flatMap ([',', ' '] ++ ·) ++ c :: rest =
        ',' :: ' ' :: (text' ++ (texts.flatMap ([',', ' '] ++ ·) ++ c :: rest)) := by simp
    rw [htext, hitem ',' List.mem_cons_self, hcomma, ih hitem', List.flatMap_cons]
    simp

/-- A statement with items in it has the tokens of its fixed parts and of the items. -/
theorem tokens_items {texts : List (List Char)} {tss heads tails last : List _} {head tail : List Char}
    (hhead : scan .plain head = (heads, .plain)) (hitem : Item text ts) (h : List.Forall₂ Item texts tss)
    (hc : c ∈ [',', ')']) (htail : scan .plain (c :: tail) = (tails, s)) (hlast : finish s = some last) :
    tokens (head ++ (text ++ (texts.flatMap ([',', ' '] ++ ·) ++ c :: tail))) =
      some (heads ++ (ts ++ (tss.flatMap (.symbol ',' :: ·) ++ (tails ++ last)))) := by
  have hscan : scan .plain (head ++ (text ++ (texts.flatMap ([',', ' '] ++ ·) ++ c :: tail))) =
      (heads ++ (ts ++ (tss.flatMap (.symbol ',' :: ·) ++ tails)), s) := by
    rw [scan_append, hhead]
    dsimp only
    rw [scan_items hitem h hc, htail]
  rw [tokens, hscan, hlast]
  simp

end SqlLexer
