import CrashCore.Ingestion.CrashHistory
import Mathlib.Data.List.TakeWhile

/-! Pages of the history service: what is written there, one object a round with its details as a string, is what
`parseHistoryBody` reads. -/

namespace CrashCore
namespace HistoryReader
open TextSearch

/-- A round with an integral rate. -/
structure Entry where
  id : Nat
  rate : Nat
  endTime : Nat
  inRange : 1 ≤ rate ∧ rate ≤ 1000000
  ended : 1000000000000 ≤ endTime

def digits (n : Nat) : List Char := Nat.toDigits 10 n

/-- `{"rate":…,"endTime":…}`. -/
def Entry.detail (e : Entry) : List Char :=
  '{' :: (field "rate" ++ digits e.rate ++ ',' :: (field "endTime" ++ digits e.endTime ++ ['}']))

def escape (text : List Char) : List Char := text.flatMap fun c => if c = '"' ∨ c = '\\' then ['\\', c] else [c]

/-- `"gameId":"…","gameDetail":"…"`. -/
def Entry.text (e : Entry) : List Char :=
  field "gameId" ++ '"' :: (digits e.id ++ '"' :: ',' :: (field "gameDetail" ++ '"' :: (escape e.detail ++ ['"'])))

def moreEntries : List Entry → List Char
  | [] => ['}', ']']
  | e :: es => ['}', ',', '{'] ++ e.text ++ moreEntries es

/-- A page. -/
def pageText : List Entry → List Char
  | [] => ['[', ']']
  | e :: es => ['[', '{'] ++ e.text ++ moreEntries es

/-- `std::strtod` reads a decimal numeral up to a comma or a brace. -/
def ReadsNumerals (reader : HistoryReader) : Prop :=
  ∀ (n : Nat) (c : Char) (rest : List Char), c = ',' ∨ c = '}' → reader.strtod (digits n ++ c :: rest) = some (n : Double)

variable {reader : HistoryReader} {e : Entry} {body gap rest : List Char} {pos : Nat}

theorem isDigit_of_mem_digits {n : Nat} {c : Char} (h : c ∈ digits n) : c.isDigit = true :=
  Nat.isDigit_of_mem_toDigits (by decide) (by decide) h

theorem not_mem_digits {n : Nat} {c : Char} (h : c.isDigit = false) : c ∉ digits n := by
  intro hc
  rw [isDigit_of_mem_digits hc] at h
  cases h

theorem drop_add {a b : List Char} (h : body.drop pos = a ++ b) : body.drop (pos + a.length) = b := by
  rw [← List.drop_drop, h, List.drop_left]

/-- What was escaped is read back, up to the closing quote. -/
theorem unescape_escape (text rest : List Char) (i : Nat) :
    unescape (escape text ++ '"' :: rest) i = (text, i + (escape text).length) := by
  induction text generalizing i with
  | nil => rfl
  | cons c text ih =>
    have hcons : escape (c :: text) = (if c = '"' ∨ c = '\\' then ['\\', c] else [c]) ++ escape text := rfl
    rw [hcons]
    split
    · rw [List.append_assoc, List.cons_append, List.cons_append, List.nil_append, unescape, ih]
      simp [Nat.add_assoc]
      exact Nat.add_comm _ _
    · rename_i hplain
      rw [List.append_assoc, List.cons_append, List.nil_append]
      have hstep : unescape (c :: (escape text ++ '"' :: rest)) i =
          (c :: (unescape (escape text ++ '"' :: rest) (i + 1)).1, (unescape (escape text ++ '"' :: rest) (i + 1)).2) := by
        rw [unescape]
        · rintro d l rfl -
          exact hplain (Or.inr rfl)
        · rintro rfl
          exact hplain (Or.inl rfl)
      rw [hstep, ih]
      simp [Nat.add_assoc]
      exact Nat.add_comm _ _

/-! ### The details of a round -/

theorem dropWhile_digits (n : Nat) (rest : List Char) :
    (digits n ++ rest).dropWhile (fun c => decide (c = ' ' ∨ c = '"')) = digits n ++ rest := by
  obtain ⟨c, cs, hcs⟩ := List.exists_cons_of_ne_nil (Nat.toDigits_ne_nil (n := n) (b := 10))
  have hc : c.isDigit = true := isDigit_of_mem_digits (n := n) (by simp [digits, hcs])
  rw [digits, hcs, List.cons_append, List.dropWhile_cons_of_neg]
  rintro h
  rcases of_decide_eq_true h with rfl | rfl <;> cases hc

theorem findNum_rate (hr : reader.ReadsNumerals) (e : Entry) : reader.findNum e.detail "rate" = some (e.rate : Double) := by
  have hfind : find e.detail (field "rate") 0 = some 1 := by
    simp [find, Entry.detail, field, findFrom, List.isPrefixOf]
  have hdrop : e.detail.drop (1 + (field "rate").length) =
      digits e.rate ++ ',' :: (field "endTime" ++ digits e.endTime ++ ['}']) := by
    simp [Entry.detail, field]
  simp only [findNum, hfind, hdrop, dropWhile_digits]
  exact hr e.rate ',' _ (Or.inl rfl)

theorem findNum_endTime (hr : reader.ReadsNumerals) (e : Entry) :
    reader.findNum e.detail "endTime" = some (e.endTime : Double) := by
  have hfind : find e.detail (field "endTime") 0 = some (8 + (digits e.rate).length + 1) := by
    have hrest : e.detail = '{' :: (field "rate" ++ (digits e.rate ++ ([','] ++ (field "endTime" ++ digits e.endTime ++ ['}'])))) := by
      simp [Entry.detail]
    have hstart : findFrom (field "endTime") e.detail 0 =
        findFrom (field "endTime") (digits e.rate ++ ([','] ++ (field "endTime" ++ digits e.endTime ++ ['}']))) 8 := by
      rw [hrest]
      simp [field, findFrom, List.isPrefixOf]
    have hquote : ∀ c : List Char, '"' ∉ c → ∀ rest i, findFrom (field "endTime") (c ++ rest) i =
        findFrom (field "endTime") rest (i + c.length) := fun _ hc _ _ => findFrom_skip hc
    rw [find_of_drop (List.drop_zero) (by simp [Entry.detail]), hstart, hquote _ (not_mem_digits rfl),
      hquote [','] (by simp), List.append_assoc]
    exact findFrom_head (by simp [field])
  have hdrop : e.detail.drop (8 + (digits e.rate).length + 1 + (field "endTime").length) = digits e.endTime ++ ['}'] := by
    have hsplit : e.detail = ('{' :: (field "rate" ++ digits e.rate ++ ',' :: field "endTime")) ++ (digits e.endTime ++ ['}']) := by
      simp [Entry.detail]
    rw [hsplit]
    refine List.drop_left' ?_
    simp [field]
    omega
  simp only [findNum, hfind, hdrop, dropWhile_digits]
  exact hr e.endTime '}' [] (Or.inr rfl)

/-- What a page says about a round. -/
def Entry.summary (e : Entry) : GameId × Double × TimestampMs := (toString e.id, e.rate, e.endTime)

def summary (r : FetchedRound) : GameId × Double × TimestampMs := (r.gameId, r.multiplier, r.crashedAtMs)

theorem crashedAtMs_detail (hr : reader.ReadsNumerals) (e : Entry) : reader.crashedAtMs e.detail = e.endTime := by
  have hms : toMs (reader.findNum e.detail "endTime") = e.endTime := by
    have hended : ¬(e.endTime : Double) < 1000000000000 := by
      rw [not_lt]
      exact_mod_cast e.ended
    rw [findNum_endTime hr, toMs, if_neg hended]
    exact Rat.floor_intCast e.endTime
  have hne : ¬((e.endTime : Int) = 0) := by
    have := e.ended
    omega
  simp only [crashedAtMs, hms, if_neg hne]

theorem parseFetchedRound_detail (hr : reader.ReadsNumerals) (e : Entry) :
    (reader.parseFetchedRound (digits e.id) e.detail).map summary = some e.summary := by
  have hid : ¬(digits e.id = [] ∨ ¬(digits e.id).all Char.isDigit ∨ e.detail = []) := by
    rintro (h | h | h)
    · exact Nat.toDigits_ne_nil h
    · exact h (List.all_eq_true.mpr fun _ => isDigit_of_mem_digits)
    · cases h
  have hrate : 1 ≤ (e.rate : Double) ∧ (e.rate : Double) ≤ 1000000 := by exact_mod_cast e.inRange
  have hcrashed : (0 : Int) < e.endTime := by
    have := e.ended
    omega
  simp only [parseFetchedRound, dif_neg hid, findNum_rate hr, dif_pos hrate, crashedAtMs_detail hr, dif_pos hcrashed]
  rfl

/-! ### The page -/

/-- A search for a string, or for a single element, that stands behind `between`. -/
theorem find_behind {c : Char} {k between after : List Char} {q : Nat} (h : body.drop pos = between ++ (c :: k ++ after))
    (hc : c ∉ between) (hq : q = pos + between.length) : find body (c :: k) pos = some q := by
  rw [find_of_drop h (by simp), findFrom_skip hc, ← hq]
  exact findFrom_head (List.cons_ne_nil c k)

theorem find_here {c : Char} {after : List Char} (h : body.drop pos = [c] ++ after) : find body [c] pos = some pos := by
  rw [find_of_drop h (by simp)]
  exact findFrom_head (List.cons_ne_nil c [])

/-- The reader passes over what stands before the next round, and reads it. -/
theorem parseHistoryBody_text (hr : reader.ReadsNumerals) (hgap : '"' ∉ gap)
    (h : body.drop pos = gap ++ (e.text ++ rest)) (fuel : Nat) : ∃ r, summary r = e.summary ∧
      reader.parseHistoryBody body (fuel + 1) pos =
        (reader.parseHistoryBody body fuel (pos + gap.length + e.text.length)).map (r :: ·) := by
  obtain ⟨r, hparse, hsummary⟩ := Option.map_eq_some_iff.mp (parseFetchedRound_detail hr e)
  refine ⟨r, hsummary, ?_⟩
  have hpos : ¬body.length ≤ pos := by
    intro hle
    rw [List.drop_eq_nil_of_le hle] at h
    simp [Entry.text, field] at h
  obtain ⟨k, hk, hkc⟩ : ∃ k, "\"gameId\"".toList = '"' :: k ∧ ':' ∉ k := ⟨_, rfl, by decide⟩
  obtain ⟨d, hd, hdc⟩ : ∃ d, "\"gameDetail\"".toList = '"' :: 'g' :: d ∧ ':' ∉ d := ⟨_, rfl, by decide⟩
  have hlength : e.text.length = k.length + (digits e.id).length + d.length + (escape e.detail).length + 10 := by
    have hfield : field "gameId" = '"' :: k ++ [':'] ∧ field "gameDetail" = '"' :: 'g' :: d ++ [':'] := by
      rw [← hk, ← hd]
      exact ⟨rfl, rfl⟩
    simp only [Entry.text, hfield, List.length_append, List.length_cons, List.length_nil]
    omega
  -- where the pieces of the text stand
  have hkey : body.drop pos = gap ++ ('"' :: k ++ ([':'] ++ (['"'] ++ (digits e.id ++ (['"'] ++ ([','] ++
      ('"' :: 'g' :: d ++ ([':'] ++ (['"'] ++ (escape e.detail ++ '"' :: rest)))))))))) := by
    rw [h, ← hk, ← hd]
    simp [Entry.text, field]
  have hgid := drop_add hkey
  have hcolon := drop_add hgid
  have hq1 := drop_add hcolon
  have hid := drop_add hq1
  have hq2 := drop_add hid
  have hdkey := drop_add (drop_add hq2)
  have hdcolon := drop_add hdkey
  have hdq1 := drop_add hdcolon
  have hdetail := drop_add hdq1
  -- what the searches find there
  have fgid := find_behind hkey hgap rfl
  have fcolon := find_behind hgid (show ':' ∉ '"' :: k by simpa using hkc) rfl
  have fq1 := find_here hq1
  have fq2 := find_behind hid (not_mem_digits rfl) rfl
  have fdcolon := find_behind hdkey (show ':' ∉ '"' :: 'g' :: d by simpa using hdc) rfl
  have fdq1 := find_here hdq1
  have fdkey : find body ('"' :: 'g' :: d) (pos + gap.length + ('"' :: k).length + [':'].length + ['"'].length +
      (digits e.id).length) = some (pos + gap.length + ('"' :: k).length + [':'].length + ['"'].length +
      (digits e.id).length + 2) := by
    have hstep : ∀ l p, findFrom ('"' :: 'g' :: d) ('"' :: ',' :: l) p = findFrom ('"' :: 'g' :: d) l (p + 2) := by
      intro l p
      simp [findFrom, List.isPrefixOf]
    rw [find_of_drop hq2 (by simp)]
    exact (hstep _ _).trans (findFrom_head (by simp))
  simp only [List.length_cons, List.length_nil, Nat.zero_add] at *
  rw [parseHistoryBody, if_neg hpos, hk, hd]
  simp only [fgid, fcolon, after, fq1, fq2, fdkey, fdcolon, fdq1, hdetail, unescape_escape]
  have hlen : ∀ a n : Nat, a + 1 + n - a - 1 = n := by
    intro a n
    omega
  have hend : pos + gap.length + e.text.length = pos + gap.length + (k.length + 1) + 1 + 1 + (digits e.id).length + 1 + 1 +
      (d.length + 1 + 1) + 1 + 1 + (escape e.detail).length + 1 := by
    rw [hlength]
    omega
  rw [if_neg (by omega), hid, hlen, List.take_left, hparse, hend]

/-- Without another quote the reader is done. -/
theorem parseHistoryBody_end (h : body.drop pos = gap) (hgap : '"' ∉ gap) (fuel : Nat) :
    reader.parseHistoryBody body (fuel + 1) pos = some [] := by
  rw [parseHistoryBody]
  split
  · rfl
  rename_i hpos
  obtain ⟨k, hk⟩ : ∃ k, "\"gameId\"".toList = '"' :: k := ⟨_, rfl⟩
  have hnone : find body "\"gameId\"".toList pos = none := by
    rw [find_of_drop h (h ▸ mt List.drop_eq_nil_iff.mp hpos), hk]
    exact findFrom_none hgap
  rw [hnone]

theorem parseHistoryBody_moreEntries (hr : reader.ReadsNumerals) (es : List Entry) (fuel pos : Nat)
    (h : body.drop pos = moreEntries es) (hfuel : es.length < fuel) :
    (reader.parseHistoryBody body fuel pos).map (List.map summary) = some (es.map Entry.summary) := by
  induction es generalizing fuel pos with
  | nil =>
    obtain ⟨fuel, rfl⟩ := Nat.exists_eq_succ_of_ne_zero (Nat.ne_of_gt hfuel)
    rw [parseHistoryBody_end h (by simp [moreEntries])]
    rfl
  | cons e es ih =>
    obtain ⟨fuel, rfl⟩ := Nat.exists_eq_succ_of_ne_zero (Nat.ne_of_gt (Nat.zero_lt_of_lt hfuel))
    have hdrop : body.drop pos = ['}', ',', '{'] ++ (e.text ++ moreEntries es) := by rw [h, moreEntries, List.append_assoc]
    obtain ⟨r, hsummary, hread⟩ := parseHistoryBody_text hr (by simp) hdrop fuel
    obtain ⟨rs, hrs, hmap⟩ := Option.map_eq_some_iff.mp
      (ih fuel _ (drop_add (drop_add hdrop)) (Nat.lt_of_succ_lt_succ hfuel))
    rw [hread, hrs, Option.map_some, Option.map_some, List.map_cons, hmap, hsummary, List.map_cons]

/-- Each round that a page has is read, in the order of the page. -/
theorem parseHistoryBody_pageText (hr : reader.ReadsNumerals) (es : List Entry) {fuel : Nat} (hfuel : es.length < fuel) :
    (reader.parseHistoryBody (pageText es) fuel 0).map (List.map summary) = some (es.map Entry.summary) := by
  obtain ⟨fuel, rfl⟩ := Nat.exists_eq_succ_of_ne_zero (Nat.ne_of_gt (Nat.zero_lt_of_lt hfuel))
  cases es with
  | nil =>
    rw [parseHistoryBody_end (List.drop_zero) (by simp [pageText])]
    rfl
  | cons e es =>
    have hdrop : (pageText (e :: es)).drop 0 = ['[', '{'] ++ (e.text ++ moreEntries es) := by
      rw [List.drop_zero, pageText, List.append_assoc]
    obtain ⟨r, hsummary, hread⟩ := parseHistoryBody_text hr (by simp) hdrop fuel
    obtain ⟨rs, hrs, hmap⟩ := Option.map_eq_some_iff.mp
      (parseHistoryBody_moreEntries hr es fuel _ (drop_add (drop_add hdrop)) (Nat.lt_of_succ_lt_succ hfuel))
    rw [hread, hrs, Option.map_some, Option.map_some, List.map_cons, hmap, hsummary, List.map_cons]

end HistoryReader
end CrashCore
