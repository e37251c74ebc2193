import CrashCore.Library.SqlScript
import Mathlib.Data.List.DropRight
import Mathlib.Logic.Function.Basic

/-! Minimal TOML-like config loader (`config/toml_config.hpp`). A text is the list of its characters. -/

namespace CrashCore

abbrev Chars := List Char

abbrev TomlConfig.Section := Chars → Option Chars

structure TomlConfig where
  sections : Chars → Option TomlConfig.Section := fun _ => none

namespace TomlConfig

/-- `std::isspace`. -/
def isSpace (c : Char) : Bool := [' ', '\t', '\n', '\x0b', '\x0c', '\r'].contains c

def trim (s : Chars) : Chars := (s.dropWhile isSpace).rdropWhile isSpace

/-- The lines that `std::getline` reads. -/
def getlines : Chars → List Chars
  | [] => []
  | c :: text => if c = '\n' then [] :: getlines text else List.consFirst c (getlines text)

/-- The line up to a comment, trimmed. -/
def content (line : Chars) : Chars := trim (line.takeWhile (· ≠ '#'))

/-- The name in a section header. -/
def header? (l : Chars) : Option Chars :=
  if l.head? = some '[' ∧ l.getLast? = some ']' then some ((l.drop 1).take (l.length - 2)) else none

/-- Quotes of one kind around the value are dropped. -/
def unquote (val : Chars) : Chars :=
  if 2 ≤ val.length ∧ ((val.head? = some '"' ∧ val.getLast? = some '"') ∨
      (val.head? = some '\'' ∧ val.getLast? = some '\'')) then
    (val.drop 1).take (val.length - 2)
  else val

/-- The key and the value on the two sides of the first `=`. -/
def assignment? (l : Chars) : Option (Chars × Chars) :=
  if '=' ∈ l then
    some (trim (l.takeWhile (· ≠ '=')), unquote (trim ((l.dropWhile (· ≠ '=')).drop 1)))
  else none

/-- `sections_[current][key] = val`. -/
def set (c : TomlConfig) (current key val : Chars) : TomlConfig where
  sections :=
    Function.update c.sections current
      (some (Function.update ((c.sections current).getD fun _ => none) key (some val)))

/-- The state of the loop of `loadString`. -/
structure Loading where
  config : TomlConfig := {}
  current : Chars := "global".toList

def readLine (s : Loading) (line : Chars) : Loading :=
  let l := content line
  if l = [] then s
  else
    match header? l with
    | some name => { s with current := name }
    | none =>
      match assignment? l with
      | none => s
      | some (key, val) => { s with config := s.config.set s.current key val }

def loadString (text : Chars) : TomlConfig := ((getlines text).foldl readLine {}).config

def get (c : TomlConfig) (name key : Chars) (fallback : Chars := []) : Chars :=
  match c.sections name with
  | none => fallback
  | some keys => (keys key).getD fallback

/-- `std::stoll`: spaces, a sign and digits, whatever follows. There is no value without a digit, and none that does not
    fit 64 bits. -/
def stoll (s : Chars) : Option Int :=
  let s := s.dropWhile isSpace
  let (negative, s) :=
    match s with
    | '-' :: rest => (true, rest)
    | '+' :: rest => (false, rest)
    | _ => (false, s)
  let digits := s.takeWhile Char.isDigit
  let magnitude : Int := Nat.ofDigitChars 10 digits 0
  let value := if negative then -magnitude else magnitude
  if digits = [] ∨ value < -2 ^ 63 ∨ 2 ^ 63 ≤ value then none else some value

def getInt (c : TomlConfig) (name key : Chars) (fallback : Int := 0) : Int :=
  let s := c.get name key
  if s = [] then fallback else (stoll s).getD fallback

def getBool (c : TomlConfig) (name key : Chars) (fallback : Bool := false) : Bool :=
  let s := c.get name key
  if s = "true".toList ∨ s = "1".toList ∨ s = "yes".toList then true
  else if s = "false".toList ∨ s = "0".toList ∨ s = "no".toList then false
  else fallback

/-! ### What is stored -/

variable {c : TomlConfig} {name key val : Chars} {s : Loading} {line : Chars}

/-- The value under a key, if there is one. -/
def stored (c : TomlConfig) (name key : Chars) : Option Chars := (c.sections name).bind (· key)

theorem get_eq (c : TomlConfig) (name key fallback : Chars) : c.get name key fallback = (c.stored name key).getD fallback := by
  unfold get stored
  cases c.sections name <;> rfl

theorem stored_set (current name' key' : Chars) : (c.set current key val).stored name' key' =
    if name' = current ∧ key' = key then some val else c.stored name' key' := by
  unfold stored set
  dsimp only
  by_cases hname : name' = current
  · subst hname
    rw [Function.update_self]
    by_cases hkey : key' = key
    · rw [if_pos ⟨rfl, hkey⟩, hkey]
      exact Function.update_self ..
    · rw [if_neg fun h => hkey h.2]
      refine (Function.update_of_ne hkey ..).trans ?_
      cases c.sections name' <;> rfl
  · rw [if_neg fun h => hname h.1, Function.update_of_ne hname]

theorem readLine_header (h : header? (content line) = some name) : readLine s line = { s with current := name } := by
  have hne : content line ≠ [] := by
    intro hnil
    rw [hnil] at h
    cases h
  simp only [readLine, if_neg hne, h]

theorem readLine_assignment (hno : header? (content line) = none) (h : assignment? (content line) = some (key, val)) :
    readLine s line = { s with config := s.config.set s.current key val } := by
  have hne : content line ≠ [] := by
    intro hnil
    rw [hnil] at h
    cases h
  simp only [readLine, if_neg hne, hno, h]

theorem readLine_other (hno : header? (content line) = none) (h : assignment? (content line) = none) :
    readLine s line = s := by
  unfold readLine
  dsimp only
  split
  · rfl
  · rw [hno, h]

end TomlConfig
end CrashCore
