import CrashCore.Ingestion.CrashHistory
import CrashCore.Library.Run

/-! When the loop of `parseHistoryBody` ends: its turns, and the text that one goes through. A search for a ':' that finds
none gives `npos`, and the search for the string behind it starts again at the front of the body. -/

namespace CrashCore
namespace HistoryReader
open TextSearch

variable {reader : HistoryReader} {body text opened closing id behind rest key : List Char} {pos k q : Nat}

/-! ### One turn -/

/-- Where the value of the key at `keyPos` opens: the next string behind the next ':'. -/
def valueOpens (body : List Char) (keyPos : Nat) : Option Nat := find body ['"'] (after (find body [':'] keyPos))

/-- The `gameDetail` key that is near enough to an id which closes at `q2`. -/
def nearDetail (body : List Char) (q2 : Nat) : Option Nat :=
  (find body "\"gameDetail\"".toList q2).filter (· ≤ q2 + 500)

/-- The detail for an id that closes at `q2`: where its string opens, what it says and where it closes. -/
def detailOf (body : List Char) (q2 : Nat) : Option (Nat × List Char × Nat) :=
  ((nearDetail body q2).bind (valueOpens body)).map fun dq1 => (dq1, unescape (body.drop (dq1 + 1)) (dq1 + 1))

/-- An id with the detail that is read for it, and where the two strings open. -/
structure Reading where
  idAt : Nat
  gameId : List Char
  detailAt : Nat
  detail : List Char
deriving DecidableEq

/-- The round that it gives. -/
def Reading.round (reader : HistoryReader) (r : Reading) : Option FetchedRound :=
  reader.parseFetchedRound r.gameId r.detail

/-- What a turn leaves: the next position, and what was read if the id has a detail. -/
structure Turn where
  next : Nat
  reading : Option Reading
deriving DecidableEq

/-- There is none where the loop stops. -/
def turn (body : List Char) (pos : Nat) : Option Turn :=
  if body.length ≤ pos then none
  else
    (find body "\"gameId\"".toList pos).bind fun gidPos =>
      (valueOpens body gidPos).bind fun q1 => (find body ['"'] (q1 + 1)).map fun q2 =>
        match detailOf body q2 with
        | none => { next := q2 + 1, reading := none }
        | some (dq1, detail, i) =>
          { next := i + 1, reading := some ⟨q1, (body.drop (q1 + 1)).take (q2 - q1 - 1), dq1, detail⟩ }

theorem parseHistoryBody_turn (reader : HistoryReader) (body : List Char) (fuel pos : Nat) :
    reader.parseHistoryBody body (fuel + 1) pos =
      match turn body pos with
      | none => some []
      | some t => (reader.parseHistoryBody body fuel t.next).map ((t.reading.bind (·.round reader)).toList ++ ·) := by
  have hid : ∀ o : Option (List FetchedRound), o = o.map ([] ++ ·) := fun o => by simp
  rw [parseHistoryBody, turn]
  by_cases hend : body.length ≤ pos
  · rw [if_pos hend, if_pos hend]
  rw [if_neg hend, if_neg hend]
  rcases find body "\"gameId\"".toList pos with _ | gidPos
  · rfl
  rw [Option.bind_some, valueOpens]
  dsimp only
  rcases find body ['"'] (after (find body [':'] gidPos)) with _ | q1
  · rfl
  rw [Option.bind_some, after]
  rcases find body ['"'] (q1 + 1) with _ | q2
  · rfl
  rw [Option.map_some, detailOf, nearDetail]
  dsimp only
  rcases find body "\"gameDetail\"".toList q2 with _ | detailPos
  · exact hid _
  rw [Option.filter_some]
  by_cases hfar : q2 + 500 < detailPos
  · simp only [if_pos hfar, decide_eq_true_eq, if_neg (Nat.not_le.mpr hfar), Option.bind_none, Option.map_none]
    exact hid _
  simp only [if_neg hfar, decide_eq_true_eq, if_pos (Nat.le_of_not_lt hfar), Option.bind_some]
  rw [valueOpens]
  rcases find body ['"'] (after (find body [':'] detailPos)) with _ | dq1
  · exact hid _
  dsimp only [Option.map_some, Reading.round, Option.bind_some]
  cases reader.parseFetchedRound ((body.drop (q1 + 1)).take (q2 - q1 - 1))
    (unescape (body.drop (dq1 + 1)) (dq1 + 1)).1 with
  | none => exact hid _
  | some r => rfl

/-- Where the id of the turn closes is all that counts for the next position. -/
theorem turn_eq_some {t : Turn} : turn body pos = some t ↔ ∃ gidPos q1 q2,
    find body "\"gameId\"".toList pos = some gidPos ∧ valueOpens body gidPos = some q1 ∧
    find body ['"'] (q1 + 1) = some q2 ∧
    t = match detailOf body q2 with
      | none => { next := q2 + 1, reading := none }
      | some (dq1, detail, i) =>
        { next := i + 1, reading := some ⟨q1, (body.drop (q1 + 1)).take (q2 - q1 - 1), dq1, detail⟩ } := by
  rw [turn]
  split
  · rename_i hend
    refine ⟨nofun, ?_⟩
    rintro ⟨gidPos, q1, q2, hgid, -⟩
    rw [find_of_length_le hend (by simp)] at hgid
    cases hgid
  · simp only [Option.bind_eq_some_iff, Option.map_eq_some_iff]
    constructor
    · rintro ⟨gidPos, hgid, q1, hq1, q2, hq2, rfl⟩
      exact ⟨gidPos, q1, q2, hgid, hq1, hq2, rfl⟩
    · rintro ⟨gidPos, q1, q2, hgid, hq1, hq2, rfl⟩
      exact ⟨gidPos, hgid, q1, hq1, q2, hq2, rfl⟩

/-- A value that opens behind a ':' opens behind its key. -/
theorem lt_valueOpens {keyPos q : Nat} (h : valueOpens body keyPos = some q) :
    (∃ colon, find body [':'] keyPos = some colon ∧ find body ['"'] (colon + 1) = some q ∧ keyPos < q) ∨
    find body [':'] keyPos = none ∧ find body ['"'] 0 = some q := by
  rw [valueOpens] at h
  rcases hc : find body [':'] keyPos with _ | colon
  · rw [hc] at h
    exact Or.inr ⟨rfl, h⟩
  · rw [hc] at h
    have hle : keyPos ≤ colon := le_find hc
    have hlt : colon + 1 ≤ q := le_find h
    exact Or.inl ⟨colon, rfl, h, by omega⟩

/-! ### The text of a turn -/

def idKey : List Char := "\"gameId\"".toList

def detailKey : List Char := "\"gameDetail\"".toList

/-- What stands behind the opening quote of the string that is the value of the first `key`. -/
def Opens (key text opened : List Char) : Prop :=
  ∃ gap rest skip behind blank,
    FirstAt key text gap rest ∧ FirstAt [':'] rest skip behind ∧ FirstAt ['"'] behind blank opened

/-- No ':' stands behind the first `key`. -/
def BreaksOff (key text : List Char) : Prop := ∃ gap rest, FirstAt key text gap rest ∧ ':' ∉ rest

/-- The string that is taken for the value of the first `key`. -/
inductive Value (body key text : List Char) : List Char → Prop
  | own {opened : List Char} : Opens key text opened → Value body key text opened
  | front {blank opened : List Char} : BreaksOff key text → FirstAt ['"'] body blank opened → Value body key text opened

/-- The next key of a detail is near an id that closes at the front of `closing`. -/
def Near (closing : List Char) : Prop := ∃ gap rest, FirstAt detailKey closing gap rest ∧ gap.length ≤ 500

def DetailOpens (body closing opened : List Char) : Prop := Near closing ∧ Value body detailKey closing opened

/-- What stands behind the closing quote. -/
def behindString (opened : List Char) : List Char := opened.drop ((unescape opened 0).2 + 1)

/-- The position of the quote in front of `opened`. -/
def quoteAt (body opened : List Char) : Nat := body.length - opened.length - 1

theorem unescape_add (l : List Char) (i j : Nat) :
    unescape l (i + j) = ((unescape l i).1, (unescape l i).2 + j) := by
  fun_induction unescape l i with
  | case1 i => rfl
  | case2 c rest i detail k heq ih =>
    rw [heq] at ih
    rw [unescape, Nat.add_right_comm, ih]
  | case3 rest i => rfl
  | case4 c rest i hesc hquote detail k heq ih =>
    rw [heq] at ih
    rw [unescape, Nat.add_right_comm, ih]
    · exact hesc
    · exact hquote

theorem quoteAt_drop {c : Char} (h : find body [c] pos = some q) : quoteAt body (body.drop (q + 1)) = q := by
  have hlt := (occurs_of_find (List.cons_ne_nil c []) h).lt_length (List.cons_ne_nil c [])
  rw [quoteAt, List.length_drop]
  omega

/-- The ':' behind a key is found from the front of the key. -/
theorem find_colon (hcolon : ':' ∉ key) (hk : Occurs key body k) :
    find body [':'] k = find body [':'] (k + key.length) := by
  obtain ⟨rest, hrest⟩ := hk
  have hinside : ∀ j, k ≤ j → Occurs [':'] body j → k + key.length ≤ j := by
    intro j hj hocc
    by_contra hlt
    obtain ⟨i, rfl⟩ := Nat.exists_eq_add_of_le hj
    have hi := occurs_drop.mpr hocc
    obtain ⟨l, hl⟩ := hi
    rw [← hrest, List.drop_append_of_le_length (by omega)] at hl
    have hmem : ':' ∈ key.drop i := by
      rcases hd : key.drop i with _ | ⟨c, cs⟩
      · have := List.drop_eq_nil_iff.mp hd
        omega
      · rw [hd] at hl
        cases hl
        exact List.mem_cons_self
    exact hcolon (List.mem_of_mem_drop hmem)
  have hne : [':'] ≠ [] := List.cons_ne_nil _ _
  rcases hfind : find body [':'] (k + key.length) with _ | colon
  · exact (find_eq_none hne).mpr fun j hj hocc => (find_eq_none hne).mp hfind j (hinside j hj hocc) hocc
  · have hle := le_find hfind
    exact find_eq_some hne (by omega) (occurs_of_find hne hfind) fun j hj hlt hocc =>
      absurd (find_le hne hfind (hinside j hj hocc) hocc) (Nat.not_le.mpr hlt)

theorem breaksOff_iff (hne : key ≠ []) (hcolon : ':' ∉ key) :
    BreaksOff key (body.drop pos) ↔ ∃ k, find body key pos = some k ∧ find body [':'] k = none := by
  constructor
  · rintro ⟨gap, rest, hat, hnone⟩
    have hk := (find_iff_firstAt hne).mpr ⟨gap, rest, hat, rfl⟩
    refine ⟨_, hk, ?_⟩
    rw [find_colon hcolon (occurs_of_find hne hk), find_singleton_eq_none, hat.drop_eq]
    exact hnone
  · rintro ⟨k, hk, hnone⟩
    obtain ⟨gap, rest, hat, rfl⟩ := (find_iff_firstAt hne).mp hk
    refine ⟨gap, rest, hat, ?_⟩
    rwa [find_colon hcolon (occurs_of_find hne hk), find_singleton_eq_none, hat.drop_eq] at hnone

theorem opens_iff (hne : key ≠ []) (hcolon : ':' ∉ key) :
    Opens key (body.drop pos) opened ↔ ∃ k colon q, find body key pos = some k ∧ find body [':'] k = some colon ∧
      find body ['"'] (colon + 1) = some q ∧ opened = body.drop (q + 1) := by
  constructor
  · rintro ⟨gap, rest, skip, behind, blank, hkey, hskip, hblank⟩
    have hk := (find_iff_firstAt hne).mpr ⟨gap, rest, hkey, rfl⟩
    rw [← hkey.drop_eq] at hskip
    have hc := (find_iff_firstAt (List.cons_ne_nil _ _)).mpr ⟨skip, behind, hskip, rfl⟩
    rw [← hskip.drop_eq] at hblank
    have hq := (find_iff_firstAt (List.cons_ne_nil _ _)).mpr ⟨blank, opened, hblank, rfl⟩
    exact ⟨_, _, _, hk, (find_colon hcolon (occurs_of_find hne hk)).trans hc, hq, hblank.drop_eq.symm⟩
  · rintro ⟨k, colon, q, hk, hc, hq, rfl⟩
    rw [find_colon hcolon (occurs_of_find hne hk)] at hc
    obtain ⟨gap, rest, hkey, rfl⟩ := (find_iff_firstAt hne).mp hk
    obtain ⟨skip, behind, hskip, rfl⟩ := (find_iff_firstAt (List.cons_ne_nil _ _)).mp hc
    obtain ⟨blank, opened, hblank, rfl⟩ := (find_iff_firstAt (List.cons_ne_nil _ _)).mp hq
    have hrest := hkey.drop_eq
    have hbehind := hskip.drop_eq
    have hopened := hblank.drop_eq
    simp only [List.length_cons, List.length_nil, Nat.zero_add] at hrest hbehind hopened
    rw [hrest] at hskip
    rw [hbehind] at hblank
    rw [hopened]
    exact ⟨gap, rest, skip, behind, blank, hkey, hskip, hblank⟩

theorem value_iff (hne : key ≠ []) (hcolon : ':' ∉ key) :
    Value body key (body.drop pos) opened ↔ ∃ k q, find body key pos = some k ∧ valueOpens body k = some q ∧
      opened = body.drop (q + 1) := by
  constructor
  · intro h
    cases h with
    | own hopens =>
      obtain ⟨k, colon, q, hk, hc, hq, rfl⟩ := (opens_iff hne hcolon).mp hopens
      exact ⟨k, q, hk, by rw [valueOpens, hc]; exact hq, rfl⟩
    | @front blank _ hoff hfront =>
      obtain ⟨k, hk, hc⟩ := (breaksOff_iff hne hcolon).mp hoff
      have hq : find body ['"'] 0 = some (0 + blank.length) :=
        (find_iff_firstAt (List.cons_ne_nil _ _)).mpr ⟨blank, opened, hfront, rfl⟩
      have hbody : FirstAt ['"'] (body.drop 0) blank opened := hfront
      have hopened : body.drop (0 + blank.length + 1) = opened := hbody.drop_eq
      exact ⟨k, _, hk, by rw [valueOpens, hc]; exact hq, hopened.symm⟩
  · rintro ⟨k, q, hk, hq, rfl⟩
    rcases lt_valueOpens hq with ⟨colon, hc, hopen, -⟩ | ⟨hc, hopen⟩
    · exact .own ((opens_iff hne hcolon).mpr ⟨k, colon, q, hk, hc, hopen, rfl⟩)
    · obtain ⟨blank, opened, hfront, rfl⟩ := (find_iff_firstAt (List.cons_ne_nil _ _)).mp hopen
      have hopened : body.drop (0 + blank.length + 1) = opened := hfront.drop_eq
      rw [hopened]
      exact .front ((breaksOff_iff hne hcolon).mpr ⟨k, hk, hc⟩) hfront

theorem idKey_ne_nil : idKey ≠ [] := by decide

theorem detailKey_ne_nil : detailKey ≠ [] := by decide

theorem colon_not_mem_idKey : ':' ∉ idKey := by decide

theorem colon_not_mem_detailKey : ':' ∉ detailKey := by decide

theorem detailOpens_iff : DetailOpens body (body.drop q) opened ↔
    ∃ dq1, (nearDetail body q).bind (valueOpens body) = some dq1 ∧ opened = body.drop (dq1 + 1) := by
  rw [DetailOpens, value_iff detailKey_ne_nil colon_not_mem_detailKey]
  constructor
  · rintro ⟨⟨gap, rest, hat, hnear⟩, k, dq1, hk, hdq1, rfl⟩
    have hgap := (find_iff_firstAt detailKey_ne_nil).mpr ⟨gap, rest, hat, rfl⟩
    obtain rfl := Option.some.inj (hgap.symm.trans hk)
    refine ⟨dq1, Option.bind_eq_some_iff.mpr ⟨_, ?_, hdq1⟩, rfl⟩
    exact Option.filter_eq_some_iff.mpr ⟨hk, decide_eq_true (by omega)⟩
  · rintro ⟨dq1, hbind, rfl⟩
    obtain ⟨k, hk, hdq1⟩ := Option.bind_eq_some_iff.mp hbind
    obtain ⟨hfind, hnear⟩ := Option.filter_eq_some_iff.mp hk
    obtain ⟨gap, rest, hat, rfl⟩ := (find_iff_firstAt detailKey_ne_nil).mp hfind
    have hle := of_decide_eq_true hnear
    exact ⟨⟨gap, rest, hat, by omega⟩, _, dq1, hfind, hdq1, rfl⟩

/-- An id that is read, and where it closes. -/
structure IdAt (body text opened id behind : List Char) : Prop where
  opens : Value body idKey text opened
  closes : FirstAt ['"'] opened id behind

theorem IdAt.exists_turn (h : IdAt body (body.drop pos) opened id behind) : ∃ gidPos q1 q2,
    find body idKey pos = some gidPos ∧ valueOpens body gidPos = some q1 ∧ find body ['"'] (q1 + 1) = some q2 ∧
    quoteAt body opened = q1 ∧ (body.drop (q1 + 1)).take (q2 - q1 - 1) = id ∧ '"' :: behind = body.drop q2 := by
  obtain ⟨gidPos, q1, hgid, hq1, rfl⟩ := (value_iff idKey_ne_nil colon_not_mem_idKey).mp h.opens
  have hq2 := (find_iff_firstAt (List.cons_ne_nil _ _)).mpr ⟨id, behind, h.closes, rfl⟩
  have hquote : quoteAt body (body.drop (q1 + 1)) = q1 := quoteAt_drop hq1
  refine ⟨gidPos, q1, _, hgid, hq1, hq2, hquote, ?_, ?_⟩
  · rw [Nat.add_right_comm, Nat.add_assoc q1, Nat.add_sub_cancel_left, Nat.add_sub_cancel, h.closes.eq, List.take_left]
  · rw [← List.drop_drop, h.closes.eq, List.drop_left]
    rfl

/-- The turn that reads an id without a detail. -/
theorem IdAt.turn_plain (h : IdAt body (body.drop pos) opened id behind)
    (hplain : ∀ d, ¬DetailOpens body ('"' :: behind) d) :
    ∃ next, turn body pos = some ⟨next, none⟩ ∧ body.drop next = behind := by
  obtain ⟨gidPos, q1, q2, hgid, hq1, hq2, -, -, hclosing⟩ := h.exists_turn
  have hnone : detailOf body q2 = none := by
    rw [detailOf, Option.map_eq_none_iff]
    rcases hbind : (nearDetail body q2).bind (valueOpens body) with _ | dq1
    · rfl
    · exact absurd (hclosing ▸ detailOpens_iff.mpr ⟨dq1, hbind, rfl⟩) (hplain _)
  refine ⟨q2 + 1, turn_eq_some.mpr ⟨gidPos, q1, q2, hgid, hq1, hq2, by rw [hnone]⟩, ?_⟩
  rw [← List.drop_drop, ← hclosing]
  rfl

/-- The turn that reads an id with a detail. -/
theorem IdAt.turn_detailed (h : IdAt body (body.drop pos) opened id behind) {detail : List Char}
    (hdetail : DetailOpens body ('"' :: behind) detail) :
    ∃ next, turn body pos =
        some ⟨next, some ⟨quoteAt body opened, id, quoteAt body detail, (unescape detail 0).1⟩⟩ ∧
      body.drop next = behindString detail := by
  obtain ⟨gidPos, q1, q2, hgid, hq1, hq2, hquote, hid, hclosing⟩ := h.exists_turn
  rw [hclosing] at hdetail
  obtain ⟨dq1, hbind, rfl⟩ := detailOpens_iff.mp hdetail
  obtain ⟨detailPos, -, hval⟩ := Option.bind_eq_some_iff.mp hbind
  have hdquote : quoteAt body (body.drop (dq1 + 1)) = dq1 := quoteAt_drop hval
  have hshift := unescape_add (body.drop (dq1 + 1)) 0 (dq1 + 1)
  rw [Nat.zero_add] at hshift
  have hsome : detailOf body q2 = some (dq1, unescape (body.drop (dq1 + 1)) (dq1 + 1)) := by rw [detailOf, hbind]; rfl
  refine ⟨(unescape (body.drop (dq1 + 1)) 0).2 + (dq1 + 1) + 1,
    turn_eq_some.mpr ⟨gidPos, q1, q2, hgid, hq1, hq2, ?_⟩, ?_⟩
  · rw [hsome, hshift, hquote, hid, hdquote]
  · rw [behindString, List.drop_drop]
    congr 1
    omega

/-- Each turn reads an id. -/
theorem exists_idAt {t : Turn} (ht : turn body pos = some t) :
    ∃ opened id behind, IdAt body (body.drop pos) opened id behind := by
  obtain ⟨gidPos, q1, q2, hgid, hq1, hq2, -⟩ := turn_eq_some.mp ht
  obtain ⟨id, behind, hcloses, -⟩ := (find_iff_firstAt (List.cons_ne_nil _ _)).mp hq2
  exact ⟨_, id, behind, (value_iff idKey_ne_nil colon_not_mem_idKey).mpr ⟨gidPos, q1, hgid, hq1, rfl⟩, hcloses⟩

end HistoryReader

/-! ### A whole body

The records of a body are read off its front; where the body breaks off behind a key, the first string of the body is
read in place of what is missing. -/

namespace HistoryReader
open TextSearch Transition

variable {reader : HistoryReader} {body text opened id behind rest key : List Char} {pos : Nat}

/-- The positions at which a turn of the loop begins. -/
def Visited (body : List Char) : Nat → Prop := Reaches (fun pos (_ : Unit) => (turn body pos).map (·.next)) anyStep 0

/-- The loop ends, and each of its turns stops it or moves its position forwards. -/
def ScanProgresses (reader : HistoryReader) (body : List Char) : Prop :=
  (∃ fuel, reader.parseHistoryBody body fuel 0 ≠ none) ∧ ∀ pos, Visited body pos → ∀ t ∈ turn body pos, pos < t.next

/-- What is left behind an id that closes at the front of `closing`, and behind its detail if it has one. -/
inductive Ends (body closing : List Char) : List Char → Prop
  | plain : (∀ detail, ¬DetailOpens body closing detail) → Ends body closing closing.tail
  | detailed {detail : List Char} : DetailOpens body closing detail → Ends body closing (behindString detail)

/-- What is left of the body behind a number of its records. -/
inductive Behind (body : List Char) : List Char → Prop
  | start : Behind body body
  | record {text opened id behind rest : List Char} : Behind body text → Opens idKey text opened →
      FirstAt ['"'] opened id behind → Ends body ('"' :: behind) rest → Behind body rest

/-- The body breaks off behind a key, and the key of the id is also left behind the first string of the body. -/
inductive CutOff (body text : List Char) : Prop
  /-- The value of an id is missing: the first string of the body and its detail are passed over in its place. -/
  | id {blank opened id behind rest : List Char} : BreaksOff idKey text → FirstAt ['"'] body blank opened →
      FirstAt ['"'] opened id behind → Ends body ('"' :: behind) rest → idKey <:+: rest → CutOff body text
  /-- The value of a detail is missing. -/
  | detail {gap rest opened id behind blank first : List Char} : FirstAt idKey text gap rest → Opens idKey text opened →
      FirstAt ['"'] opened id behind → Near ('"' :: behind) → BreaksOff detailKey ('"' :: behind) →
      FirstAt ['"'] body blank first → idKey ++ rest <:+ behindString first → CutOff body text

/-! ### A turn -/

theorem exists_ends (body closing : List Char) : ∃ rest, Ends body closing rest := by
  by_cases h : ∃ detail, DetailOpens body closing detail
  · obtain ⟨detail, hdetail⟩ := h
    exact ⟨_, .detailed hdetail⟩
  · exact ⟨_, .plain fun detail hdetail => h ⟨detail, hdetail⟩⟩

theorem IdAt.exists_next (h : IdAt body (body.drop pos) opened id behind) (hends : Ends body ('"' :: behind) rest) :
    ∃ t, turn body pos = some t ∧ body.drop t.next = rest := by
  cases hends with
  | plain hplain =>
    obtain ⟨next, ht, hnext⟩ := h.turn_plain hplain
    exact ⟨_, ht, hnext⟩
  | detailed hdetail =>
    obtain ⟨next, ht, hnext⟩ := h.turn_detailed hdetail
    exact ⟨_, ht, hnext⟩

theorem IdAt.hasKey (h : IdAt body text opened id behind) : idKey <:+: text := by
  cases h.opens with
  | own hopens =>
    obtain ⟨gap, rest, skip, behind, blank, hkey, -⟩ := hopens
    exact hkey.isInfix
  | front hoff _ =>
    obtain ⟨gap, rest, hkey, -⟩ := hoff
    exact hkey.isInfix

theorem length_lt_of_firstAt {c : Char} (h : FirstAt [c] text opened rest) : rest.length < text.length := by
  have hlen := congrArg List.length h.eq
  simp only [List.length_append, List.length_cons] at hlen
  omega

theorem Opens.length_lt (h : Opens key text opened) : opened.length < text.length := by
  obtain ⟨gap, rest, skip, behind, blank, hkey, hskip, hblank⟩ := h
  have hlen := congrArg List.length hkey.eq
  have hrest := length_lt_of_firstAt hskip
  have hbehind := length_lt_of_firstAt hblank
  simp only [List.length_append] at hlen
  omega

/-- A turn that does not move forwards has come by the end of the body. -/
theorem cutOff_of_next_le {t : Turn} (ht : turn body pos = some t) (hle : t.next ≤ pos) : CutOff body (body.drop pos) := by
  obtain ⟨opened, id, behind, hid⟩ := exists_idAt ht
  obtain ⟨rest, hends⟩ := exists_ends body ('"' :: behind)
  obtain ⟨t', ht', hrest⟩ := hid.exists_next hends
  obtain rfl := Option.some.inj (ht.symm.trans ht')
  have hleft : body.drop pos <:+ rest := hrest ▸ List.drop_suffix_drop_left body hle
  have hcloses := length_lt_of_firstAt hid.closes
  cases hid.opens with
  | own hopens =>
    have hopened := hopens.length_lt
    have hlong := hleft.length_le
    cases hends with
    | plain hplain =>
      rw [List.tail_cons] at hlong
      omega
    | @detailed detail hdetail =>
      have hshort : (behindString detail).length ≤ detail.length := (List.drop_suffix _ _).length_le
      cases hdetail.2 with
      | own hdopens =>
        have hinside := hdopens.length_lt
        rw [List.length_cons] at hinside
        omega
      | front hoff hfirst =>
        obtain ⟨gap, rest, skip, behind', blank, hkey, hskip, hblank⟩ := hopens
        refine .detail hkey ⟨gap, rest, skip, behind', blank, hkey, hskip, hblank⟩ hid.closes hdetail.1 hoff hfirst ?_
        exact List.IsSuffix.trans ⟨gap, hkey.eq.symm⟩ hleft
  | front hoff hfirst =>
    exact .id hoff hfirst hid.closes hends (hid.hasKey.trans hleft.isInfix)

/-! ### Progress -/

/-- The loop begins a turn behind each record. -/
theorem Behind.visited (h : Behind body text) : ∃ pos, Visited body pos ∧ body.drop pos = text := by
  induction h with
  | start => exact ⟨0, .refl, rfl⟩
  | record _ hopens hcloses hends ih =>
    obtain ⟨pos, hpos, rfl⟩ := ih
    obtain ⟨t, ht, hnext⟩ := IdAt.exists_next ⟨.own hopens, hcloses⟩ hends
    exact ⟨t.next, hpos.step (a := ()) trivial (by rw [ht]; rfl), hnext⟩

/-- In a body that is not cut off, what is left is behind its records or has no id. -/
theorem behind_or_done (hcut : ∀ text, Behind body text → ¬CutOff body text) (h : Visited body pos) :
    Behind body (body.drop pos) ∨ ¬idKey <:+: body.drop pos := by
  refine Reaches.invariant (P := fun pos => Behind body (body.drop pos) ∨ ¬idKey <:+: body.drop pos)
    (Or.inl .start) (fun pos _ next hpos _ hstep => ?_) h
  obtain ⟨t, ht, rfl⟩ := Option.map_eq_some_iff.mp hstep
  obtain ⟨opened, id, behind, hid⟩ := exists_idAt ht
  obtain ⟨rest, hends⟩ := exists_ends body ('"' :: behind)
  obtain ⟨t', ht', rfl⟩ := hid.exists_next hends
  obtain rfl := Option.some.inj (ht.symm.trans ht')
  have hbehind := hpos.resolve_right fun hno => hno hid.hasKey
  cases hid.opens with
  | own hopens => exact Or.inl (hbehind.record hopens hid.closes hends)
  | front hoff hfirst => exact Or.inr fun hagain => hcut _ hbehind (.id hoff hfirst hid.closes hends hagain)

/-- A loop whose turns all move forwards reaches the end of the body. -/
theorem parseHistoryBody_ne_none (hnext : ∀ pos, Visited body pos → ∀ t ∈ turn body pos, pos < t.next) (n : Nat) :
    ∀ pos, Visited body pos → body.length ≤ pos + n → reader.parseHistoryBody body (n + 1) pos ≠ none := by
  induction n with
  | zero =>
    intro pos _ hlen
    have hend : turn body pos = none := if_pos hlen
    rw [parseHistoryBody_turn, hend]
    exact Option.some_ne_none _
  | succ n ih =>
    intro pos hpos hlen
    rw [parseHistoryBody_turn]
    rcases ht : turn body pos with _ | t
    · exact Option.some_ne_none _
    · have hlt : pos < t.next := hnext pos hpos t ht
      have hvisited : Visited body t.next := hpos.step (a := ()) trivial (by rw [ht]; rfl)
      dsimp only
      rw [Ne, Option.map_eq_none_iff]
      exact ih t.next hvisited (by omega)

/-- The turn behind one that is cut off is cut off in the same way, and is repeated. -/
theorem CutOff.exists_next_le (hpos : Visited body pos) (hcut : CutOff body (body.drop pos)) :
    ∃ pos', Visited body pos' ∧ ∃ t, turn body pos' = some t ∧ t.next ≤ pos' := by
  have hstep : ∀ {p t}, Visited body p → turn body p = some t → Visited body t.next := fun hp ht =>
    hp.step (a := ()) trivial (by rw [ht]; rfl)
  -- a turn that leaves as much as the one before it
  have hsame : ∀ {t t' : Turn}, idKey <:+: body.drop t.next → body.drop t'.next = body.drop t.next → t'.next ≤ t.next := by
    intro t t' hkey hdrop
    have hlen := congrArg List.length hdrop
    have hlong := hkey.length_le
    rw [List.length_drop, List.length_drop] at hlen
    rw [List.length_drop] at hlong
    have hidKey : idKey.length = 8 := by decide
    omega
  cases hcut with
  | @id blank opened id behind rest hoff hfirst hcloses hends hkey =>
    obtain ⟨t, ht, rfl⟩ := IdAt.exists_next ⟨.front hoff hfirst, hcloses⟩ hends
    rcases Nat.lt_or_ge pos t.next with hlt | hle
    · obtain ⟨gap, r, hat, hnone⟩ := hoff
      obtain ⟨gap', r', hat'⟩ := exists_firstAt idKey_ne_nil hkey
      have hleft := hat.suffix hat' (List.drop_suffix_drop_left body (Nat.le_of_lt hlt))
      have hoff' : BreaksOff idKey (body.drop t.next) := ⟨gap', r', hat', fun hmem => hnone (hleft.subset hmem)⟩
      obtain ⟨t', ht', hdrop⟩ := IdAt.exists_next ⟨.front hoff' hfirst, hcloses⟩ hends
      exact ⟨t.next, hstep hpos ht, t', ht', hsame hkey hdrop⟩
    · exact ⟨pos, hpos, t, ht, hle⟩
  | @detail gap rest opened id behind blank first hat hopens hcloses hnear hoff hfirst hkey =>
    have hends : Ends body ('"' :: behind) (behindString first) := .detailed ⟨hnear, .front hoff hfirst⟩
    obtain ⟨t, ht, hnext⟩ := IdAt.exists_next ⟨.own hopens, hcloses⟩ hends
    rcases Nat.lt_or_ge pos t.next with hlt | hle
    · rw [← hnext] at hkey hends
      obtain ⟨gap', hat'⟩ := hat.later (List.drop_suffix_drop_left body (Nat.le_of_lt hlt)) hkey
      have hopens' : Opens idKey (body.drop t.next) opened := by
        obtain ⟨gap₂, rest₂, skip, behind₂, blank₂, hat₂, htail⟩ := hopens
        have heq : rest₂ = rest := (hat.suffix hat₂ List.suffix_rfl).eq_of_length
          (Nat.le_antisymm (hat.suffix hat₂ List.suffix_rfl).length_le (hat₂.suffix hat List.suffix_rfl).length_le)
        subst heq
        exact ⟨gap', rest₂, skip, behind₂, blank₂, hat', htail⟩
      obtain ⟨t', ht', hdrop⟩ := IdAt.exists_next ⟨.own hopens', hcloses⟩ hends
      have hin : idKey <:+: body.drop t.next := (List.prefix_append idKey rest).isInfix.trans hkey.isInfix
      exact ⟨t.next, hstep hpos ht, t', ht', hsame hin hdrop⟩
    · exact ⟨pos, hpos, t, ht, hle⟩

/-- The scan of a body ends, and always moves forwards, exactly if the body is not cut off behind some of its
    records. -/
theorem scanProgresses_iff (reader : HistoryReader) (body : List Char) :
    reader.ScanProgresses body ↔ ∀ text, Behind body text → ¬CutOff body text := by
  constructor
  · rintro ⟨-, hnext⟩ text hbehind hcut
    obtain ⟨pos, hpos, rfl⟩ := hbehind.visited
    obtain ⟨pos', hpos', t, ht, hle⟩ := hcut.exists_next_le hpos
    exact Nat.not_lt.mpr hle (hnext pos' hpos' t ht)
  · intro h
    have hnext : ∀ pos, Visited body pos → ∀ t ∈ turn body pos, pos < t.next := by
      intro pos hpos t ht
      refine Nat.lt_of_not_le fun hle => ?_
      have hcut := cutOff_of_next_le ht hle
      obtain ⟨opened, id, behind, hid⟩ := exists_idAt ht
      exact h _ ((behind_or_done h hpos).resolve_right fun hno => hno hid.hasKey) hcut
    exact ⟨⟨_, parseHistoryBody_ne_none hnext body.length 0 .refl (Nat.le_add_left _ _)⟩, hnext⟩

/-- A turn that stays where it is is repeated for ever. -/
theorem parseHistoryBody_stays {t : Turn} (ht : turn body pos = some t) (hstay : t.next = pos) :
    ∀ fuel, reader.parseHistoryBody body fuel pos = none
  | 0 => rfl
  | fuel + 1 => by
    rw [parseHistoryBody_turn, ht]
    dsimp only
    rw [hstay, parseHistoryBody_stays ht hstay fuel]
    rfl

/-- A body that breaks off behind a key. -/
theorem not_scanProgresses_brokenOff : ¬ScanProgresses ⟨fun _ => none⟩ "\"a\" \"gameId\"".toList := by
  have hfirst : turn "\"a\" \"gameId\"".toList 0 = some ⟨3, none⟩ := by decide
  have hagain : turn "\"a\" \"gameId\"".toList 3 = some ⟨3, none⟩ := by decide
  rintro ⟨⟨fuel, hfuel⟩, -⟩
  cases fuel with
  | zero => exact hfuel rfl
  | succ fuel =>
    rw [parseHistoryBody_turn, hfirst] at hfuel
    dsimp only at hfuel
    rw [parseHistoryBody_stays hagain rfl] at hfuel
    exact hfuel rfl

end HistoryReader
end CrashCore
