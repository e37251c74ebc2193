import Mathlib.Data.List.Basic
import Mathlib.Tactic.Common

/-! JSON texts as lists of bytes: the values, a reader for them, and what it makes of strings and objects that were
written byte by byte. -/

namespace JsonText

/-- A quantifier over a list is decided by its members, before the finite types are tried. -/
scoped instance (priority := 2000) decidableMembers {α : Type} (p : α → Prop) [DecidablePred p] (l : List α) :
    Decidable (∀ c ∈ l, p c) :=
  List.decidableBAll p l

/-- The bytes of an ASCII text. -/
def octets (text : String) : List UInt8 := text.toList.map (·.toUInt8)

inductive Value
  | null
  | bool (b : Bool)
  /-- A number, as it is written. -/
  | number (text : List UInt8)
  | string (text : List UInt8)
  | array (elements : List Value)
  | object (members : List (List UInt8 × Value))

/-- Reads from the start of a text; the second part is the rest of it. -/
abbrev Reader (α : Type) := List UInt8 → Option (α × List UInt8)

def isSpace (c : UInt8) : Bool := (octets " \t\n\r").contains c

/-- The rest after a byte that must come next, spaces apart. -/
def symbol (c : Char) (text : List UInt8) : Option (List UInt8) :=
  match text.dropWhile isSpace with
  | [] => none
  | d :: rest => if d = c.toUInt8 then some rest else none

/-! ### Strings -/

def hexValue (c : UInt8) : Option Nat :=
  if '0'.toUInt8 ≤ c ∧ c ≤ '9'.toUInt8 then some (c.toNat - '0'.toNat)
  else if 'a'.toUInt8 ≤ c ∧ c ≤ 'f'.toUInt8 then some (c.toNat - 'a'.toNat + 10)
  else if 'A'.toUInt8 ≤ c ∧ c ≤ 'F'.toUInt8 then some (c.toNat - 'A'.toNat + 10)
  else none

/-- The four digits after `\u`. -/
def codeUnit : Reader Nat
  | a :: b :: c :: d :: rest =>
    (hexValue a).bind fun a => (hexValue b).bind fun b => (hexValue c).bind fun c => (hexValue d).map fun d =>
      (((a * 16 + b) * 16 + c) * 16 + d, rest)
  | _ => none

/-- What is after `\u`. A high surrogate is followed by a low one. -/
def codePoint (text : List UInt8) : Option (Nat × List UInt8) :=
  (codeUnit text).bind fun (high, rest) =>
    if 0xd800 ≤ high ∧ high < 0xdc00 then
      if rest.take 2 = octets "\\u" then
        (codeUnit (rest.drop 2)).bind fun (low, rest) =>
          if 0xdc00 ≤ low ∧ low < 0xe000 then some (0x10000 + (high - 0xd800) * 0x400 + (low - 0xdc00), rest) else none
      else none
    else if 0xdc00 ≤ high ∧ high < 0xe000 then none
    else some (high, rest)

/-- The escapes of one byte. -/
def shortEscapes : List (UInt8 × UInt8) :=
  (octets "\"\\/bfnrt").zip (octets "\"\\/\x08\x0c\n\r\t")

/-- The bytes that an escape stands for; the text begins after the backslash. -/
def escape : Reader (List UInt8)
  | [] => none
  | c :: rest =>
    if c = 'u'.toUInt8 then
      (codePoint rest).map fun (n, rest) => (String.utf8EncodeChar (Char.ofNat n), rest)
    else (shortEscapes.lookup c).map fun b => ([b], rest)

/-- A string up to its closing quote; the text begins after the opening one. Each round takes a byte at least. -/
def stringFrom : Nat → Reader (List UInt8)
  | 0, _ => none
  | _ + 1, [] => none
  | fuel + 1, c :: rest =>
    if c = '"'.toUInt8 then some ([], rest)
    else if c = '\\'.toUInt8 then
      (escape rest).bind fun (bytes, rest) => (stringFrom fuel rest).map fun (s, rest) => (bytes ++ s, rest)
    else if c < 0x20 then none
    else (stringFrom fuel rest).map fun (s, rest) => (c :: s, rest)

def string (text : List UInt8) : Option (List UInt8 × List UInt8) := stringFrom text.length text

/-! ### Numbers -/

def isDigit (c : UInt8) : Bool := (octets "0123456789").contains c

def digits : Reader (List UInt8) := fun text =>
  if text.takeWhile isDigit = [] then none else some (text.takeWhile isDigit, text.dropWhile isDigit)

/-- A zero is not followed by more digits. -/
def whole : Reader (List UInt8) := fun text =>
  if text.head? = some '0'.toUInt8 then some ([text.head!], text.tail) else digits text

/-- A part that is there if the text begins with one of the bytes. -/
def optional (starts : String) (read : Reader (List UInt8)) : Reader (List UInt8)
  | [] => some ([], [])
  | c :: rest =>
    if c ∈ octets starts then (read rest).map fun (s, rest) => (c :: s, rest) else some ([], c :: rest)

def andThen (first second : Reader (List UInt8)) : Reader (List UInt8) := fun text =>
  (first text).bind fun (s, rest) => (second rest).map fun (t, rest) => (s ++ t, rest)

def nothing : Reader (List UInt8) := fun text => some ([], text)

def number : Reader (List UInt8) :=
  andThen (optional "-" nothing) (andThen whole (andThen (optional "." digits)
    (optional "eE" (andThen (optional "+-" nothing) digits))))

/-! ### Values -/

def literals : List (List UInt8 × Value) :=
  [(octets "null", .null), (octets "true", .bool true), (octets "false", .bool false)]

def literal : Reader Value := fun text =>
  (literals.find? fun l => l.1.isPrefixOf text).map fun l => (l.2, text.drop l.1.length)

/-- A name, a colon and a value. -/
def member (value : Reader Value) : Reader (List UInt8 × Value) := fun text =>
  (symbol '"' text).bind fun rest => (string rest).bind fun (name, rest) => (symbol ':' rest).bind fun rest =>
    (value rest).map fun (v, rest) => ((name, v), rest)

/-- One or more items with commas between them, up to the closing byte. -/
def items {α : Type} (item : Reader α) (close : Char) : Nat → Reader (List α)
  | 0, _ => none
  | fuel + 1, text =>
    (item text).bind fun (a, rest) =>
      match symbol close rest with
      | some rest => some ([a], rest)
      | none => (symbol ',' rest).bind fun rest => (items item close fuel rest).map fun (as, rest) => (a :: as, rest)

/-- The items between brackets of either kind. -/
def bracketed {α : Type} (item : Reader α) (close : Char) : Reader (List α) := fun text =>
  match symbol close text with
  | some rest => some ([], rest)
  | none => items item close text.length text

/-- A value, nested at most as deep as the first argument says. -/
def value : Nat → Reader Value
  | 0, _ => none
  | depth + 1, text =>
    match text.dropWhile isSpace with
    | [] => none
    | c :: rest =>
      if c = '"'.toUInt8 then (string rest).map fun (s, rest) => (.string s, rest)
      else if c = '{'.toUInt8 then
        (bracketed (member (value depth)) '}' rest).map fun (ms, rest) => (.object ms, rest)
      else if c = '['.toUInt8 then (bracketed (value depth) ']' rest).map fun (vs, rest) => (.array vs, rest)
      else if c ∈ octets "-0123456789" then (number (c :: rest)).map fun (s, rest) => (.number s, rest)
      else literal (c :: rest)

/-- The one value that a text consists of. -/
def parse (text : List UInt8) : Option Value :=
  (value text.length text).bind fun (v, rest) => if rest.all isSpace then some v else none

/-! ### Strings that are written byte by byte -/

section Strings
variable {f : UInt8 → List UInt8} {c : UInt8} {s rest : List UInt8} {fuel : Nat}

/-- What is written for `c` is read as `c`. -/
def Reads (f : UInt8 → List UInt8) (c : UInt8) : Prop :=
  ∀ fuel rest, stringFrom (fuel + 1) (f c ++ rest) = (stringFrom fuel rest).map fun (s, rest) => (c :: s, rest)

/-- No string has what is written for `c`. -/
def Rejects (f : UInt8 → List UInt8) (c : UInt8) : Prop := ∀ fuel rest, stringFrom fuel (f c ++ rest) = none

theorem stringFrom_quote : stringFrom (fuel + 1) ('"'.toUInt8 :: rest) = some ([], rest) := rfl

theorem stringFrom_escape : stringFrom (fuel + 1) ('\\'.toUInt8 :: rest) =
    (escape rest).bind fun (bytes, rest) => (stringFrom fuel rest).map fun (s, rest) => (bytes ++ s, rest) := rfl

theorem stringFrom_plain (hquote : c ≠ '"'.toUInt8) (hback : c ≠ '\\'.toUInt8) (hc : 0x20 ≤ c) :
    stringFrom (fuel + 1) (c :: rest) = (stringFrom fuel rest).map fun (s, rest) => (c :: s, rest) := by
  rw [stringFrom, if_neg hquote, if_neg hback, if_neg (UInt8.not_lt.mpr hc)]

theorem ne_of_control {d : UInt8} (hc : c < 0x20) (hd : 0x20 ≤ d) : c ≠ d := by
  rintro rfl
  exact absurd hc (UInt8.not_lt.mpr hd)

theorem stringFrom_control (hc : c < 0x20) : stringFrom fuel (c :: rest) = none := by
  have hquote : c ≠ '"'.toUInt8 := ne_of_control hc (by decide)
  have hback : c ≠ '\\'.toUInt8 := ne_of_control hc (by decide)
  cases fuel with
  | zero => rfl
  | succ fuel => rw [stringFrom, if_neg hquote, if_neg hback, if_pos hc]

/-- A byte that is written as an escape of one letter. -/
theorem reads_of_escape {e : UInt8} (htext : f c = ['\\'.toUInt8, e]) (h : ∀ rest, escape (e :: rest) = some ([c], rest)) :
    Reads f c := by
  intro fuel rest
  rw [htext, List.cons_append, List.cons_append, List.nil_append, stringFrom_escape, h]
  rfl

/-- Quotes and backslashes with a backslash in front of them. -/
theorem reads_special (hquote : f '"'.toUInt8 = octets "\\\"") (hback : f '\\'.toUInt8 = octets "\\\\")
    (hc : c = '"'.toUInt8 ∨ c = '\\'.toUInt8) : Reads f c := by
  rcases hc with rfl | rfl
  · exact reads_of_escape hquote fun _ => rfl
  · exact reads_of_escape hback fun _ => rfl

/-- Something is written for a byte that is read back. -/
theorem Reads.ne_nil (h : Reads f c) : f c ≠ [] := by
  intro hnil
  have hread := h 0 ['"'.toUInt8]
  rw [hnil] at hread
  cases hread

theorem length_le_flatMap (h : ∀ c ∈ s, Reads f c) : s.length ≤ (s.flatMap f).length := by
  induction s with
  | nil => exact Nat.le_refl _
  | cons c s ih =>
    have hc := List.length_pos_of_ne_nil (h c List.mem_cons_self).ne_nil
    have hs := ih fun d hd => h d (List.mem_cons_of_mem _ hd)
    rw [List.length_cons, List.flatMap_cons, List.length_append]
    omega

theorem stringFrom_flatMap (h : ∀ c ∈ s, Reads f c) (hfuel : s.length < fuel) :
    stringFrom fuel (s.flatMap f ++ '"'.toUInt8 :: rest) = some (s, rest) := by
  obtain ⟨fuel, rfl⟩ := Nat.exists_eq_succ_of_ne_zero (Nat.ne_zero_of_lt hfuel)
  induction s generalizing fuel with
  | nil => exact stringFrom_quote
  | cons c s ih =>
    obtain ⟨fuel, rfl⟩ : ∃ k, fuel = k + 1 := Nat.exists_eq_succ_of_ne_zero (by simp at hfuel; omega)
    rw [List.flatMap_cons, List.append_assoc, h c List.mem_cons_self,
      ih (fun d hd => h d (List.mem_cons_of_mem _ hd)) fuel (by simpa using hfuel)]
    rfl

theorem string_flatMap (h : ∀ c ∈ s, Reads f c) : string (s.flatMap f ++ '"'.toUInt8 :: rest) = some (s, rest) := by
  have hlen := length_le_flatMap h
  exact stringFrom_flatMap h (by rw [List.length_append, List.length_cons]; omega)

theorem string_rejected (h : ∀ c ∈ s, Reads f c ∨ Rejects f c) (hbad : ∃ c ∈ s, Rejects f c) :
    string (s.flatMap f ++ rest) = none := by
  unfold string
  generalize (s.flatMap f ++ rest).length = fuel
  induction s generalizing fuel with
  | nil => exact absurd hbad (by simp)
  | cons c s ih =>
    rw [List.flatMap_cons, List.append_assoc]
    rcases h c List.mem_cons_self with hc | hc
    · have hbad : ∃ c ∈ s, Rejects f c := by
        obtain ⟨d, hd, hrej⟩ := hbad
        rcases List.mem_cons.mp hd with rfl | hd
        · -- a byte is not both read and rejected
          have hread := hc 1 ['"'.toUInt8]
          rw [hrej] at hread
          cases hread
        · exact ⟨d, hd, hrej⟩
      cases fuel with
      | zero => rfl
      | succ fuel => rw [hc, ih (fun d hd => h d (List.mem_cons_of_mem _ hd)) hbad, Option.map_none]
    · exact hc ..

end Strings

/-! ### Lists of items -/

section Items
variable {α : Type} {item : Reader α} {close : Char} {fuel : Nat} {t rest : List UInt8} {ts : List (List UInt8)}
  {a : α} {as : List α}

/-- The text of a value ends here. -/
def Ends (rest : List UInt8) : Prop := ∀ c ∈ rest.head?, c ∈ octets ",\x7d]"

def ReadsItem (item : Reader α) (t : List UInt8) (a : α) : Prop := ∀ rest, Ends rest → item (t ++ rest) = some (a, rest)

def RejectsItem (item : Reader α) (t : List UInt8) : Prop := ∀ rest, item (t ++ rest) = none

/-- Texts with a comma before each. -/
def others (ts : List (List UInt8)) : List UInt8 := ts.flatMap (','.toUInt8 :: ·)

theorem symbol_self {c : Char} (h : isSpace c.toUInt8 = false) : symbol c (c.toUInt8 :: rest) = some rest := by
  rw [symbol, List.dropWhile_cons_of_neg (by simp [h])]
  exact if_pos rfl

theorem symbol_other {c d : Char} (h : isSpace d.toUInt8 = false) (hne : d.toUInt8 ≠ c.toUInt8) :
    symbol c (d.toUInt8 :: rest) = none := by
  rw [symbol, List.dropWhile_cons_of_neg (by simp [h])]
  exact if_neg hne

theorem length_le_others (ts : List (List UInt8)) : ts.length ≤ (others ts).length := by
  induction ts with
  | nil => exact Nat.le_refl _
  | cons t ts ih => simp only [others, List.flatMap_cons, List.length_append, List.length_cons] at ih ⊢; omega

theorem items_read (hclose : close = '}' ∨ close = ']') (ht : ReadsItem item t a)
    (h : List.Forall₂ (ReadsItem item) ts as) (hfuel : ts.length < fuel) :
    items item close fuel (t ++ (others ts ++ close.toUInt8 :: rest)) = some (a :: as, rest) := by
  obtain ⟨fuel, rfl⟩ := Nat.exists_eq_succ_of_ne_zero (Nat.ne_zero_of_lt hfuel)
  have hspace : isSpace close.toUInt8 = false := by rcases hclose with rfl | rfl <;> rfl
  induction h generalizing t a fuel with
  | nil =>
    have hend : Ends (close.toUInt8 :: rest) := by
      rintro c ⟨⟩
      rcases hclose with rfl | rfl <;> decide
    rw [items, others, List.flatMap_nil, List.nil_append, ht _ hend]
    simp only [Option.bind_some, symbol_self hspace]
  | @cons t' a' ts as ht' _ ih =>
    have hcomma : symbol close (','.toUInt8 :: (t' ++ (others ts ++ close.toUInt8 :: rest))) = none :=
      symbol_other rfl (by rcases hclose with rfl | rfl <;> decide)
    have hsplit : others (t' :: ts) ++ close.toUInt8 :: rest =
        ','.toUInt8 :: (t' ++ (others ts ++ close.toUInt8 :: rest)) := by simp [others]
    obtain ⟨fuel, rfl⟩ : ∃ k, fuel = k + 1 := Nat.exists_eq_succ_of_ne_zero (by simp at hfuel; omega)
    rw [items, hsplit, ht _ (by rintro c ⟨⟩; decide)]
    simp only [Option.bind_some, hcomma, symbol_self (c := ',') rfl, ih ht' fuel (by simpa using hfuel),
      Option.map_some]

/-- One bad item spoils the list. -/
theorem items_rejected (hclose : close = '}' ∨ close = ']')
    (h : ∀ t' ∈ t :: ts, (∃ a, ReadsItem item t' a) ∨ RejectsItem item t')
    (hbad : ∃ t' ∈ t :: ts, RejectsItem item t') :
    items item close fuel (t ++ (others ts ++ close.toUInt8 :: rest)) = none := by
  induction ts generalizing t fuel with
  | nil =>
    obtain ⟨t', ht', hrej⟩ := hbad
    obtain rfl := List.mem_singleton.mp ht'
    cases fuel with
    | zero => rfl
    | succ fuel => rw [items, hrej, Option.bind_none]
  | cons t' ts ih =>
    cases fuel with
    | zero => rfl
    | succ fuel =>
      have hcomma : symbol close (','.toUInt8 :: (t' ++ (others ts ++ close.toUInt8 :: rest))) = none :=
        symbol_other rfl (by rcases hclose with rfl | rfl <;> decide)
      have hsplit : others (t' :: ts) ++ close.toUInt8 :: rest =
          ','.toUInt8 :: (t' ++ (others ts ++ close.toUInt8 :: rest)) := by simp [others]
      have hends : Ends (','.toUInt8 :: (t' ++ (others ts ++ close.toUInt8 :: rest))) := by
        rintro c ⟨⟩
        decide
      rw [items, hsplit]
      rcases h t List.mem_cons_self with ⟨a, ha⟩ | hrej
      · have hbad : ∃ x ∈ t' :: ts, RejectsItem item x := by
          obtain ⟨x, hx, hrej⟩ := hbad
          rcases List.mem_cons.mp hx with rfl | hx
          · rw [RejectsItem] at hrej
            cases (ha _ hends).symm.trans (hrej _)
          · exact ⟨x, hx, hrej⟩
        rw [ha _ hends]
        simp only [Option.bind_some, hcomma, symbol_self (c := ',') rfl,
          ih (fun x hx => h x (List.mem_cons_of_mem _ hx)) hbad, Option.map_none]
      · rw [hrej, Option.bind_none]

end Items

/-! ### Objects -/

section Objects
variable {f : UInt8 → List UInt8} {name s rest t : List UInt8} {v : Value} {m : List UInt8 × Value}
  {ts : List (List UInt8)} {ms : List (List UInt8 × Value)} {depth : Nat}

def quoted (f : UInt8 → List UInt8) (s : List UInt8) : List UInt8 := '"'.toUInt8 :: (s.flatMap f ++ ['"'.toUInt8])

/-- A member: the name in quotes, a colon, the text of the value. -/
def memberText (f : UInt8 → List UInt8) (name valueText : List UInt8) : List UInt8 :=
  quoted f name ++ ':'.toUInt8 :: valueText

/-- Members with commas between them, in braces. -/
def objectText (t : List UInt8) (ts : List (List UInt8)) : List UInt8 :=
  '{'.toUInt8 :: (t ++ (others ts ++ ['}'.toUInt8]))

theorem value_quoted (h : ∀ c ∈ s, Reads f c) : ReadsItem (value (depth + 1)) (quoted f s) (.string s) := by
  intro rest _
  have htext : quoted f s ++ rest = '"'.toUInt8 :: (s.flatMap f ++ '"'.toUInt8 :: rest) := by simp [quoted]
  rw [htext]
  show (string (s.flatMap f ++ '"'.toUInt8 :: rest)).map _ = _
  rw [string_flatMap h, Option.map_some]

theorem value_quoted_rejected (h : ∀ c ∈ s, Reads f c ∨ Rejects f c) (hbad : ∃ c ∈ s, Rejects f c) :
    RejectsItem (value (depth + 1)) (quoted f s) := by
  intro rest
  have htext : quoted f s ++ rest = '"'.toUInt8 :: (s.flatMap f ++ '"'.toUInt8 :: rest) := by simp [quoted]
  rw [htext]
  show (string (s.flatMap f ++ '"'.toUInt8 :: rest)).map _ = _
  rw [string_rejected h hbad, Option.map_none]

theorem value_true : ReadsItem (value (depth + 1)) (octets "true") (.bool true) := fun _ _ => rfl

theorem member_eq (value : Reader Value) (valueText rest : List UInt8) :
    member value (memberText f name valueText ++ rest) =
    (string (name.flatMap f ++ '"'.toUInt8 :: ':'.toUInt8 :: (valueText ++ rest))).bind fun (name, rest) =>
      (symbol ':' rest).bind fun rest => (value rest).map fun (v, rest) => ((name, v), rest) := by
  have htext : memberText f name valueText ++ rest =
      '"'.toUInt8 :: (name.flatMap f ++ '"'.toUInt8 :: ':'.toUInt8 :: (valueText ++ rest)) := by
    simp [memberText, quoted]
  rw [htext]
  rfl

theorem member_read {value : Reader Value} (hname : ∀ c ∈ name, Reads f c) (h : ReadsItem value t v) :
    ReadsItem (member value) (memberText f name t) (name, v) := by
  intro rest hrest
  rw [member_eq, string_flatMap hname]
  simp only [Option.bind_some, symbol_self (c := ':') rfl, h rest hrest, Option.map_some]

theorem member_value_rejected {value : Reader Value} (hname : ∀ c ∈ name, Reads f c) (h : RejectsItem value t) :
    RejectsItem (member value) (memberText f name t) := by
  intro rest
  rw [member_eq, string_flatMap hname]
  simp only [Option.bind_some, symbol_self (c := ':') rfl, h rest, Option.map_none]

theorem member_name_rejected {value : Reader Value} (h : ∀ c ∈ name, Reads f c ∨ Rejects f c)
    (hbad : ∃ c ∈ name, Rejects f c) : RejectsItem (member value) (memberText f name t) := by
  intro rest
  rw [member_eq, string_rejected h hbad, Option.bind_none]

/-- A string under a name: one bad byte in either spoils the member. -/
theorem member_quoted_rejected (h : ∀ c, Reads f c ∨ Rejects f c) (hbad : ∃ c ∈ name ++ s, Rejects f c) :
    RejectsItem (member (value (depth + 1))) (memberText f name (quoted f s)) := by
  by_cases hname : ∃ c ∈ name, Rejects f c
  · exact member_name_rejected (fun c _ => h c) hname
  · obtain ⟨c, hc, hrej⟩ := hbad
    refine member_value_rejected (fun d hd => (h d).resolve_right fun hrej => hname ⟨d, hd, hrej⟩) ?_
    refine value_quoted_rejected (fun d _ => h d) ⟨c, ?_, hrej⟩
    exact (List.mem_append.mp hc).resolve_left fun hmem => hname ⟨c, hmem, hrej⟩

theorem member_quoted_cases (h : ∀ c, Reads f c ∨ Rejects f c) (name s : List UInt8) (depth : Nat) :
    (∃ m, ReadsItem (member (value (depth + 1))) (memberText f name (quoted f s)) m) ∨
      RejectsItem (member (value (depth + 1))) (memberText f name (quoted f s)) := by
  by_cases hbad : ∃ c ∈ name ++ s, Rejects f c
  · exact .inr (member_quoted_rejected h hbad)
  · have hread : ∀ c ∈ name ++ s, Reads f c := fun c hc => (h c).resolve_right fun hrej => hbad ⟨c, hc, hrej⟩
    exact .inl ⟨_, member_read (fun c hc => hread c (List.mem_append_left _ hc))
      (value_quoted fun c hc => hread c (List.mem_append_right _ hc))⟩

/-- A text that is an object, as far as its items are read. -/
theorem parse_objectText : ∃ depth fuel, ts.length < fuel ∧ parse (objectText (quoted f name ++ t) ts) =
    ((items (member (value (depth + 1))) '}' fuel (quoted f name ++ t ++ (others ts ++ ['}'.toUInt8]))).bind
      fun (ms, rest) => if rest.all isSpace then some (.object ms) else none) := by
  have hlen := length_le_others ts
  set inner := quoted f name ++ t ++ (others ts ++ ['}'.toUInt8]) with hinner
  have hinnerLen : ts.length < inner.length := by
    simp only [hinner, List.length_append, List.length_cons, List.length_nil]
    omega
  obtain ⟨n, hn⟩ := Nat.exists_eq_succ_of_ne_zero (Nat.ne_zero_of_lt hinnerLen)
  refine ⟨n, inner.length, hinnerLen, ?_⟩
  have hopen : symbol '}' inner = none := symbol_other (d := '"') rfl (by decide)
  have hvalue : value (inner.length + 1) ('{'.toUInt8 :: inner) =
      (bracketed (member (value inner.length)) '}' inner).map fun (ms, rest) => (.object ms, rest) := rfl
  have htext : objectText (quoted f name ++ t) ts = '{'.toUInt8 :: inner := rfl
  rw [htext, parse, List.length_cons, hvalue, bracketed, hopen, hn]
  rcases items (member (value (n + 1))) '}' (n + 1) inner with _ | ⟨ms, rest⟩ <;> rfl

/-- The value of an object text whose members are all read. -/
theorem parse_object (ht : ∀ depth, ReadsItem (member (value (depth + 1))) (memberText f name t) m)
    (h : ∀ depth, List.Forall₂ (ReadsItem (member (value (depth + 1)))) ts ms) :
    parse (objectText (memberText f name t) ts) = some (.object (m :: ms)) := by
  obtain ⟨depth, fuel, hfuel, hparse⟩ := @parse_objectText f name (':'.toUInt8 :: t) ts
  have hread : items _ '}' fuel (memberText f name t ++ (others ts ++ ['}'.toUInt8])) = _ :=
    items_read (.inl rfl) (ht depth) (h depth) hfuel
  rw [memberText] at hread ⊢
  rw [hparse, hread]
  rfl

/-- A text with a bad member has no value. -/
theorem parse_object_rejected (h : ∀ depth, ∀ t' ∈ memberText f name t :: ts,
      (∃ m, ReadsItem (member (value (depth + 1))) t' m) ∨ RejectsItem (member (value (depth + 1))) t')
    (hbad : ∃ t' ∈ memberText f name t :: ts, ∀ depth, RejectsItem (member (value (depth + 1))) t') :
    parse (objectText (memberText f name t) ts) = none := by
  obtain ⟨depth, fuel, -, hparse⟩ := @parse_objectText f name (':'.toUInt8 :: t) ts
  obtain ⟨t', ht', hrej⟩ := hbad
  have hread : items _ '}' fuel (memberText f name t ++ (others ts ++ ['}'.toUInt8])) = none :=
    items_rejected (.inl rfl) (h depth) ⟨t', ht', hrej depth⟩
  rw [memberText] at hread ⊢
  rw [hparse, hread]
  rfl

end Objects

/-! ### Integers -/

section Integers
variable {ds rest : List UInt8} {depth : Nat}

/-- Digits without a leading zero. -/
structure Numeral (ds : List UInt8) : Prop where
  ne_nil : ds ≠ []
  digits : ∀ c ∈ ds, isDigit c = true
  zero : ds.head? = some '0'.toUInt8 → ds = ['0'.toUInt8]

theorem Ends.cases (h : Ends rest) : rest = [] ∨ ∃ c rest', rest = c :: rest' ∧ c ∈ octets ",\x7d]" := by
  rcases rest with _ | ⟨c, rest⟩
  · exact .inl rfl
  · exact .inr ⟨c, rest, rfl, h c rfl⟩

theorem optional_absent {starts : String} {read : Reader (List UInt8)} (h : Ends rest)
    (hstarts : ∀ c ∈ octets ",\x7d]", c ∉ octets starts) : optional starts read rest = some ([], rest) := by
  rcases h.cases with rfl | ⟨c, rest, rfl, hc⟩
  · rfl
  · exact if_neg (hstarts c hc)

theorem takeWhile_digits (hds : ∀ c ∈ ds, isDigit c = true) (h : Ends rest) :
    (ds ++ rest).takeWhile isDigit = ds ∧ (ds ++ rest).dropWhile isDigit = rest := by
  have hrest : rest.takeWhile isDigit = [] ∧ rest.dropWhile isDigit = rest := by
    rcases h.cases with rfl | ⟨c, rest, rfl, hc⟩
    · exact ⟨rfl, rfl⟩
    · have hno : ∀ c ∈ octets ",\x7d]", isDigit c = false := by decide
      rw [List.takeWhile_cons_of_neg (by simp [hno c hc]), List.dropWhile_cons_of_neg (by simp [hno c hc])]
      exact ⟨rfl, rfl⟩
  rw [List.takeWhile_append_of_pos hds, List.dropWhile_append_of_pos hds, hrest.1, hrest.2, List.append_nil]
  exact ⟨rfl, rfl⟩

theorem whole_numeral (hds : Numeral ds) (h : Ends rest) : whole (ds ++ rest) = some (ds, rest) := by
  obtain ⟨htake, hdrop⟩ := takeWhile_digits hds.digits h
  unfold whole
  split
  · rename_i hzero
    rw [List.head?_append_of_ne_nil _ hds.ne_nil] at hzero
    rw [hds.zero hzero]
    rfl
  · rw [digits, htake, hdrop, if_neg hds.ne_nil]

theorem number_unsigned (hds : Numeral ds) (h : Ends rest) :
    andThen whole (andThen (optional "." digits) (optional "eE" (andThen (optional "+-" nothing) digits)))
      (ds ++ rest) = some (ds, rest) := by
  rw [andThen, whole_numeral hds h]
  simp only [Option.bind_some, andThen]
  rw [optional_absent h (by decide)]
  simp only [Option.bind_some]
  rw [optional_absent h (by decide)]
  simp

theorem Numeral.exists_cons (hds : Numeral ds) : ∃ c ds', ds = c :: ds' ∧ isDigit c = true := by
  obtain ⟨c, ds', rfl⟩ := List.exists_cons_of_ne_nil hds.ne_nil
  exact ⟨c, ds', rfl, hds.digits c List.mem_cons_self⟩

theorem number_numeral (hds : Numeral ds) (h : Ends rest) : number (ds ++ rest) = some (ds, rest) := by
  obtain ⟨c, ds', rfl, hc⟩ := hds.exists_cons
  have hno : ∀ c ∈ octets "0123456789", c ∉ octets "-" := by decide
  have hsign : optional "-" nothing (c :: ds' ++ rest) = some ([], c :: ds' ++ rest) :=
    if_neg (hno c (List.contains_iff_mem.mp hc))
  rw [number, andThen, hsign]
  simp only [Option.bind_some]
  rw [number_unsigned hds h]
  rfl

theorem number_negative (hds : Numeral ds) (h : Ends rest) :
    number ('-'.toUInt8 :: ds ++ rest) = some ('-'.toUInt8 :: ds, rest) := by
  have hsign : optional "-" nothing ('-'.toUInt8 :: ds ++ rest) = some (['-'.toUInt8], ds ++ rest) := rfl
  rw [number, andThen, hsign]
  simp only [Option.bind_some]
  rw [number_unsigned hds h]
  rfl

/-- What is read from the first byte of a number on. -/
theorem value_of_number {c : UInt8} (hc : c ∈ octets "-0123456789") :
    value (depth + 1) (c :: rest) = (number (c :: rest)).map fun (s, rest) => (.number s, rest) := by
  have hother : ∀ c ∈ octets "-0123456789",
      isSpace c = false ∧ c ≠ '"'.toUInt8 ∧ c ≠ '\x7b'.toUInt8 ∧ c ≠ '['.toUInt8 := by decide
  obtain ⟨hspace, hquote, hbrace, hbracket⟩ := hother c hc
  rw [value, List.dropWhile_cons_of_neg (by simp [hspace])]
  dsimp only
  rw [if_neg hquote, if_neg hbrace, if_neg hbracket, if_pos hc]

theorem value_numeral (hds : Numeral ds) : ReadsItem (value (depth + 1)) ds (.number ds) := by
  intro rest hrest
  have hmem : ∀ c ∈ octets "0123456789", c ∈ octets "-0123456789" := by decide
  have hnumber := number_numeral hds hrest
  obtain ⟨c, ds', rfl, hc⟩ := hds.exists_cons
  rw [List.cons_append] at hnumber ⊢
  rw [value_of_number (hmem c (List.contains_iff_mem.mp hc)), hnumber, Option.map_some]

theorem value_negative (hds : Numeral ds) :
    ReadsItem (value (depth + 1)) ('-'.toUInt8 :: ds) (.number ('-'.toUInt8 :: ds)) := by
  intro rest hrest
  have hnumber := number_negative hds hrest
  rw [List.cons_append] at hnumber ⊢
  rw [value_of_number (by decide), hnumber, Option.map_some]

theorem isDigit_digitChar {d : Nat} (h : d < 10) : isDigit d.digitChar.toUInt8 = true := by
  have all : ∀ d < 10, isDigit (Nat.digitChar d).toUInt8 = true := by decide
  exact all d h

theorem digitChar_ne_zero {d : Nat} (h : d < 10) (hd : d ≠ 0) : d.digitChar.toUInt8 ≠ '0'.toUInt8 := by
  have all : ∀ d < 10, d ≠ 0 → (Nat.digitChar d).toUInt8 ≠ '0'.toUInt8 := by decide
  exact all d h hd

theorem numeral_toDigits (n : Nat) : (∀ c ∈ (Nat.toDigits 10 n).map (·.toUInt8), isDigit c = true) ∧
    (n ≠ 0 → ((Nat.toDigits 10 n).map (·.toUInt8)).head? ≠ some '0'.toUInt8) := by
  induction n using Nat.strongRecOn with
  | ind n ih =>
    rcases Nat.lt_or_ge n 10 with hn | hn
    · rw [Nat.toDigits_of_lt_base hn]
      refine ⟨fun c hc => ?_, fun hzero hhead => ?_⟩
      · obtain rfl := List.mem_singleton.mp hc
        exact isDigit_digitChar hn
      · exact digitChar_ne_zero hn hzero (Option.some.inj hhead)
    · obtain ⟨hdigits, hhead⟩ := ih (n / 10) (by omega)
      rw [Nat.toDigits_of_base_le (by decide) hn, List.map_append]
      refine ⟨fun c hc => ?_, fun _ => ?_⟩
      · rcases List.mem_append.mp hc with hc | hc
        · exact hdigits c hc
        · obtain rfl := List.mem_singleton.mp hc
          exact isDigit_digitChar (Nat.mod_lt _ (by decide))
      · rw [List.head?_append_of_ne_nil _ (by simp [Nat.toDigits_ne_nil])]
        exact hhead (by omega)

theorem numeral_nat (n : Nat) : Numeral (octets (toString n)) := by
  have htext : octets (toString n) = (Nat.toDigits 10 n).map (·.toUInt8) := by
    show n.repr.toList.map _ = _
    rw [Nat.toList_repr]
  obtain ⟨hdigits, hhead⟩ := numeral_toDigits n
  rw [htext]
  refine ⟨by simp [Nat.toDigits_ne_nil], hdigits, fun hzero => ?_⟩
  by_cases hn : n = 0
  · rw [hn, Nat.toDigits_zero]
    rfl
  · exact absurd hzero (hhead hn)

theorem numeral_int (n : Int) : Numeral (octets (toString n)) ∨
    ∃ ds, Numeral ds ∧ octets (toString n) = '-'.toUInt8 :: ds := by
  cases n with
  | ofNat n => exact .inl (numeral_nat n)
  | negSucc n =>
    refine .inr ⟨octets (toString (n + 1)), numeral_nat (n + 1), ?_⟩
    show ("-" ++ (n + 1).repr).toList.map _ = _
    rw [String.toList_append]
    rfl

theorem value_int (n : Int) : ReadsItem (value (depth + 1)) (octets (toString n)) (.number (octets (toString n))) := by
  rcases numeral_int n with h | ⟨ds, h, htext⟩
  · exact value_numeral h
  · rw [htext]
    exact value_negative h

/-- An integer has no control character. -/
theorem le_int (n : Int) : ∀ c ∈ octets (toString n), 0x20 ≤ c := by
  have hdigit : ∀ c ∈ octets "0123456789", (0x20 : UInt8) ≤ c := by decide
  have hnumeral {ds : List UInt8} (h : Numeral ds) : ∀ c ∈ ds, 0x20 ≤ c := fun c hc =>
    hdigit c (List.contains_iff_mem.mp (h.digits c hc))
  rcases numeral_int n with h | ⟨ds, h, htext⟩
  · exact hnumeral h
  · rw [htext]
    intro c hc
    rcases List.mem_cons.mp hc with rfl | hc
    · decide
    · exact hnumeral h c hc

end Integers

end JsonText
