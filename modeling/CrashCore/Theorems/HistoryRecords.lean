import CrashCore.Theorems.HistoryPages
import CrashCore.Theorems.HistoryScan

/-! Lists of records as the history service sends them, with what else stands in a record, and what `parseHistoryBody`
reads from one. -/

namespace CrashCore
namespace HistoryReader
open TextSearch

/-- A ':' with blanks around it. -/
structure Colon where
  before : List Char := []
  behind : List Char := []
  blank : ∀ c ∈ before ++ behind, c = ' ' ∨ c = '\t' ∨ c = '\n' ∨ c = '\r' := by simp

def Colon.text (c : Colon) : List Char := c.before ++ ':' :: c.behind

/-- The text between the quotes of a string: each quote is escaped, and the last character does not escape the closing
    quote. -/
def Closed : List Char → Prop
  | [] => True
  | ['\\'] => False
  | '\\' :: _ :: rest => Closed rest
  | '"' :: _ => False
  | _ :: rest => Closed rest

/-- What the reader makes of such a text: it drops the first backslash of each escape. -/
def bare : List Char → List Char
  | [] => []
  | '\\' :: c :: rest => c :: bare rest
  | c :: rest => c :: bare rest

/-- A `gameDetail`, and what stands between the id and its key. -/
structure Detail where
  between : List Char
  colon : Colon := {}
  raw : List Char
  closed : Closed raw

/-- A record from the end of the one before it to the end of its detail, or of its id if it has none. -/
structure Record where
  before : List Char
  colon : Colon := {}
  id : List Char
  closed : Closed id
  detail : Option Detail := none

def Detail.text (d : Detail) : List Char := d.between ++ (detailKey ++ (d.colon.text ++ '"' :: (d.raw ++ ['"'])))

def Record.head (r : Record) : List Char := r.before ++ (idKey ++ (r.colon.text ++ '"' :: (r.id ++ ['"'])))

def Record.text (r : Record) : List Char := r.head ++ (r.detail.map Detail.text).getD []

/-- The records of a body and what stands behind the last of them. -/
structure Page where
  records : List Record
  tail : List Char

def Page.text (page : Page) : List Char := page.records.flatMap Record.text ++ page.tail

/-! ### Positions -/

/-- A detail, and where its text begins. -/
structure DetailAt where
  start : Nat
  detail : Detail

def DetailAt.keyAt (d : DetailAt) : Nat := d.start + d.detail.between.length

/-- The position of the opening quote. -/
def DetailAt.opens (d : DetailAt) : Nat := d.keyAt + detailKey.length + d.detail.colon.text.length

/-- The position of the closing quote. -/
def DetailAt.closes (d : DetailAt) : Nat := d.opens + 1 + d.detail.raw.length

/-- A record, and where its text begins. -/
structure RecordAt where
  start : Nat
  record : Record

namespace RecordAt

def keyAt (x : RecordAt) : Nat := x.start + x.record.before.length

def opens (x : RecordAt) : Nat := x.keyAt + idKey.length + x.record.colon.text.length

/-- The id up to the first quote, escaped or not. -/
def shown (x : RecordAt) : List Char := x.record.id.takeWhile (· ≠ '"')

/-- The position of this quote. -/
def stop (x : RecordAt) : Nat := x.opens + 1 + x.shown.length

def detail (x : RecordAt) : Option DetailAt := x.record.detail.map (⟨x.start + x.record.head.length, ·⟩)

end RecordAt

def place : Nat → List Record → List RecordAt
  | _, [] => []
  | start, r :: rs => ⟨start, r⟩ :: place (start + r.text.length) rs

/-- `p` lies between the key of the record and the end of its own detail, which is near. -/
def RecordAt.PassesOver (x : RecordAt) (p : Nat) : Prop :=
  ∃ d ∈ x.detail, d.keyAt ≤ x.stop + 500 ∧ x.keyAt < p ∧ p ≤ d.closes

/-- The searches for the two keys meet no other texts than the keys of the records: one that looks like the key of an id
    is passed over with the record that it is in, and none that looks like the key of a detail is the first near an id. -/
structure Page.Clear (page : Page) : Prop where
  ids : ∀ p, Occurs idKey page.text p → ∃ x ∈ place 0 page.records, p = x.keyAt ∨ x.PassesOver p
  details : ∀ x ∈ place 0 page.records, ∀ p, find page.text detailKey x.stop = some p → p ≤ x.stop + 500 →
    ∃ y ∈ place 0 page.records, ∃ d ∈ y.detail, p = d.keyAt

/-- That is so where the two keys stand nowhere else. -/
theorem Page.clear_of {page : Page} (hids : occurrences idKey page.text = (place 0 page.records).map (·.keyAt))
    (hdetails : occurrences detailKey page.text = (place 0 page.records).filterMap fun x => x.detail.map (·.keyAt)) :
    page.Clear := by
  refine ⟨fun p hocc => ?_, fun _ _ p hp _ => ?_⟩
  · have hmem := (mem_occurrences (by decide)).mpr hocc
    rw [hids] at hmem
    obtain ⟨x, hx, rfl⟩ := List.mem_map.mp hmem
    exact ⟨x, hx, Or.inl rfl⟩
  · have hmem := (mem_occurrences (by decide)).mpr (occurs_of_find (by decide) hp)
    rw [hdetails] at hmem
    obtain ⟨x, hx, hd⟩ := List.mem_filterMap.mp hmem
    obtain ⟨d, hown, rfl⟩ := Option.map_eq_some_iff.mp hd
    exact ⟨x, hx, d, hown, rfl⟩

/-! ### What is read -/

/-- The first detail of the records, with its record and the records behind it. -/
def firstDetail : List RecordAt → Option (RecordAt × DetailAt × List RecordAt)
  | [] => none
  | x :: xs =>
    match x.detail with
    | some d => some (x, d, xs)
    | none => firstDetail xs

theorem firstDetail_length : ∀ {xs rest : List RecordAt} {y : RecordAt} {d : DetailAt},
    firstDetail xs = some (y, d, rest) → rest.length < xs.length
  | [], _, _, _, h => nomatch h
  | x :: xs, rest, y, d, h => by
    rw [firstDetail] at h
    split at h
    · cases h
      exact Nat.lt_succ_self _
    · exact Nat.lt_succ_of_lt (firstDetail_length h)

/-- The ids that get a detail: the first one behind the id if its key is near, whosever it is. -/
def pairs : List RecordAt → List (RecordAt × DetailAt)
  | [] => []
  | x :: xs =>
    match _h : firstDetail (x :: xs) with
    | none => pairs xs
    | some (_, d, rest) => if d.keyAt ≤ x.stop + 500 then (x, d) :: pairs rest else pairs xs
termination_by xs => xs.length
decreasing_by
  · exact Nat.lt_succ_self _
  · exact firstDetail_length _h
  · exact Nat.lt_succ_self _

/-- What the reader reads of an id and a detail. -/
def reading (p : RecordAt × DetailAt) : Reading := ⟨p.1.opens, p.1.shown, p.2.opens, bare p.2.detail.raw⟩

/-- The readings of the loop from `pos` on. There are none when it takes more than `fuel` turns. -/
def readings (body : List Char) : Nat → Nat → Option (List Reading)
  | 0, _ => none
  | fuel + 1, pos =>
    match turn body pos with
    | none => some []
    | some t => (readings body fuel t.next).map (t.reading.toList ++ ·)

theorem parseHistoryBody_readings (reader : HistoryReader) (body : List Char) : ∀ fuel pos,
    reader.parseHistoryBody body fuel pos = (readings body fuel pos).map (List.filterMap (·.round reader))
  | 0, _ => rfl
  | fuel + 1, pos => by
    rw [parseHistoryBody_turn, readings]
    rcases turn body pos with _ | t
    · rfl
    · dsimp only
      rw [parseHistoryBody_readings reader body fuel, Option.map_map, Option.map_map]
      congr 1
      funext rs
      rw [Function.comp_apply, Function.comp_apply, List.filterMap_append]
      cases t.reading with
      | none => rfl
      | some r =>
        rw [Option.bind_some, Option.toList_some, List.filterMap_cons]
        cases r.round reader <;> rfl

/-! ### The pieces of a record -/

variable {body rest : List Char} {k : List Char} {colon : Colon} {pos start : Nat}

/-- A character that is not escaped and escapes nothing is neither a backslash nor a quote. -/
theorem Closed.plain {c : Char} {raw : List Char} (h : Closed (c :: raw))
    (hesc : ∀ d l, c = '\\' → raw = d :: l → False) : c ≠ '\\' ∧ c ≠ '"' ∧ Closed raw := by
  have hback : c ≠ '\\' := by
    rintro rfl
    cases raw with
    | nil => exact h
    | cons d l => exact hesc d l rfl rfl
  have hquote : c ≠ '"' := by
    rintro rfl
    exact h
  refine ⟨hback, hquote, ?_⟩
  rwa [Closed] at h
  · exact fun hc _ => hback hc
  · exact fun _ _ hc _ => hback hc
  · exact hquote

theorem unescape_bare : ∀ (raw rest : List Char) (i : Nat), Closed raw →
    unescape (raw ++ '"' :: rest) i = (bare raw, i + raw.length) := by
  intro raw rest i h
  induction raw using bare.induct generalizing i with
  | case1 => rfl
  | case2 c raw ih =>
    have hraw : Closed raw := by simpa [Closed] using h
    rw [List.cons_append, List.cons_append, unescape, ih (i + 2) hraw, bare]
    simp only [List.length_cons, Prod.mk.injEq, true_and]
    omega
  | case3 c raw hesc ih =>
    obtain ⟨hback, hquote, hraw⟩ := h.plain hesc
    rw [List.cons_append, unescape, ih (i + 1) hraw, bare]
    · simp only [List.length_cons, Prod.mk.injEq, true_and]
      omega
    · exact hesc
    · exact fun _ _ hc _ => hback hc
    · exact hquote

/-- What is escaped can stand between quotes, and the reader gets it back. -/
theorem closed_escape : ∀ text : List Char, Closed (escape text)
  | [] => trivial
  | c :: text => by
    have hcons : escape (c :: text) = (if c = '"' ∨ c = '\\' then ['\\', c] else [c]) ++ escape text := rfl
    rw [hcons]
    split
    · exact closed_escape text
    · rename_i hplain
      rw [List.singleton_append, Closed]
      · exact closed_escape text
      · exact fun hc _ => hplain (Or.inr hc)
      · exact fun _ _ hc _ => hplain (Or.inr hc)
      · exact fun hc => hplain (Or.inl hc)

theorem bare_escape (text : List Char) : bare (escape text) = text := by
  have hread := unescape_escape text [] 0
  rw [unescape_bare _ _ _ (closed_escape text)] at hread
  exact congrArg Prod.fst hread

/-- The value of a key opens behind its ':'. -/
theorem valueOpens_colon (hk : ':' ∉ k) (h : body.drop pos = k ++ (colon.text ++ '"' :: rest)) :
    valueOpens body pos = some (pos + k.length + colon.text.length) := by
  have hblank : ∀ c ∈ colon.before ++ colon.behind, c ≠ ':' ∧ c ≠ '"' := by
    intro c hc
    rcases colon.blank c hc with rfl | rfl | rfl | rfl <;> decide
  have hcolon : ':' ∉ k ++ colon.before := fun hmem => (List.mem_append.mp hmem).elim hk fun hmem =>
    (hblank ':' (List.mem_append_left _ hmem)).1 rfl
  have hquote : '"' ∉ colon.behind := fun hmem => (hblank '"' (List.mem_append_right _ hmem)).2 rfl
  have hkey : body.drop pos = (k ++ colon.before) ++ ([':'] ++ (colon.behind ++ (['"'] ++ rest))) := by
    rw [h]
    simp [Colon.text]
  have fcolon := find_behind hkey hcolon rfl
  have fquote := find_behind (drop_add (drop_add hkey)) hquote rfl
  rw [valueOpens, fcolon, after]
  simp only [List.length_append, List.length_cons, List.length_nil, Colon.text] at fquote ⊢
  rw [show pos + (k.length + colon.before.length) + 1 = pos + (k.length + colon.before.length) + (0 + 1) by omega, fquote]
  congr 1
  omega

theorem shown_quote : ∀ raw : List Char, ∃ behind, raw ++ ['"'] = raw.takeWhile (· ≠ '"') ++ '"' :: behind
  | [] => ⟨[], rfl⟩
  | c :: raw => by
    by_cases hc : c = '"'
    · exact ⟨raw ++ ['"'], by simp [hc]⟩
    · obtain ⟨behind, h⟩ := shown_quote raw
      exact ⟨behind, by simpa [hc] using h⟩

/-- What the searches of a turn find in a record. -/
structure RecordAt.Found (x : RecordAt) (body : List Char) : Prop where
  key : Occurs idKey body x.keyAt
  opens : valueOpens body x.keyAt = some x.opens
  stop : find body ['"'] (x.opens + 1) = some x.stop
  shown : (body.drop (x.opens + 1)).take (x.stop - x.opens - 1) = x.shown

theorem RecordAt.found {x : RecordAt} (h : body.drop x.start = x.record.head ++ rest) : x.Found body := by
  have hkey : body.drop x.keyAt = idKey ++ (x.record.colon.text ++ (['"'] ++ (x.record.id ++ ['"'] ++ rest))) := by
    rw [keyAt, drop_add (h.trans (List.append_assoc _ _ _))]
    simp
  have hvalue := drop_add (drop_add (drop_add hkey))
  obtain ⟨behind, hbehind⟩ := shown_quote x.record.id
  rw [hbehind, List.append_assoc] at hvalue
  have hstop : '"' ∉ x.record.id.takeWhile (· ≠ '"') := fun hmem => by simpa using List.mem_takeWhile_imp hmem
  have hlen : x.stop - x.opens - 1 = x.shown.length := by
    rw [stop]
    omega
  refine ⟨⟨_, hkey.symm⟩, valueOpens_colon (by decide) hkey, find_behind hvalue hstop rfl, ?_⟩
  rw [hlen]
  exact (congrArg _ hvalue).trans List.take_left

/-- What they find in a detail. -/
structure DetailAt.Found (d : DetailAt) (body : List Char) : Prop where
  key : Occurs detailKey body d.keyAt
  opens : valueOpens body d.keyAt = some d.opens
  closes : unescape (body.drop (d.opens + 1)) (d.opens + 1) = (bare d.detail.raw, d.closes)

theorem DetailAt.found {d : DetailAt} (h : body.drop d.start = d.detail.text ++ rest) : d.Found body := by
  have hkey : body.drop d.keyAt = detailKey ++ (d.detail.colon.text ++ (['"'] ++ (d.detail.raw ++ '"' :: rest))) := by
    rw [keyAt, drop_add (h.trans (List.append_assoc _ _ _))]
    simp
  refine ⟨⟨_, hkey.symm⟩, valueOpens_colon (by decide) hkey, ?_⟩
  have hvalue : body.drop (d.opens + 1) = _ := drop_add (drop_add (drop_add hkey))
  rw [hvalue, unescape_bare _ _ _ d.detail.closed, closes]

/-! ### The records that are still ahead -/

variable {rs : List Record} {r : Record} {x y : RecordAt} {xs : List RecordAt} {d : DetailAt}

theorem le_start_of_mem_place : ∀ {rs : List Record} {start : Nat}, x ∈ place start rs → start ≤ x.start
  | r :: rs, start, h => by
    rcases List.mem_cons.mp h with rfl | h
    · exact Nat.le_refl _
    · have := le_start_of_mem_place h
      omega

theorem length_place : ∀ (rs : List Record) (start : Nat), (place start rs).length = rs.length
  | [], _ => rfl
  | r :: rs, start => by rw [place, List.length_cons, List.length_cons, length_place rs]

/-- A detail stands in the text of its record, behind the id. -/
theorem RecordAt.detail_bounds (h : x.detail = some d) :
    d.start = x.start + x.record.head.length ∧ x.stop < d.start ∧ d.keyAt < x.start + x.record.text.length ∧
      d.closes + 1 = x.start + x.record.text.length := by
  obtain ⟨m, hm, rfl⟩ := Option.map_eq_some_iff.mp h
  have hshown : x.shown.length ≤ x.record.id.length := (List.takeWhile_sublist _).length_le
  refine ⟨rfl, ?_⟩
  simp only [DetailAt.keyAt, DetailAt.closes, DetailAt.opens, stop, opens, keyAt, Record.text, hm, Option.map_some,
    Option.getD_some, Record.head, Detail.text, List.length_append, List.length_cons, List.length_nil]
  omega

theorem le_keyAt_of_mem_place (hx : x ∈ place start rs) (hd : x.detail = some d) : start ≤ d.keyAt := by
  have hstart := le_start_of_mem_place hx
  have hown := (RecordAt.detail_bounds hd).1
  rw [DetailAt.keyAt]
  omega

theorem RecordAt.stop_lt (x : RecordAt) : x.start ≤ x.keyAt ∧ x.keyAt < x.stop ∧ x.stop < x.start + x.record.text.length := by
  have hshown : x.shown.length ≤ x.record.id.length := (List.takeWhile_sublist _).length_le
  simp only [stop, opens, keyAt, Record.text, Record.head, List.length_append, List.length_cons, List.length_nil]
  omega

/-- From `start` on, a body has the records, and the searches meet only their keys. -/
structure Ahead (body : List Char) (start : Nat) (rs : List Record) : Prop where
  text : ∃ tail, body.drop start = rs.flatMap Record.text ++ tail
  ids : ∀ p, start ≤ p → Occurs idKey body p → ∃ x ∈ place start rs, p = x.keyAt ∨ x.PassesOver p
  details : ∀ x ∈ place start rs, ∀ p, find body detailKey x.stop = some p → p ≤ x.stop + 500 →
    ∃ y ∈ place start rs, ∃ d ∈ y.detail, p = d.keyAt

theorem Page.Clear.ahead {page : Page} (h : page.Clear) : Ahead page.text 0 page.records :=
  ⟨⟨page.tail, rfl⟩, fun p _ => h.ids p, h.details⟩

theorem RecordAt.keyAt_le {p : Nat} (h : p = x.keyAt ∨ x.PassesOver p) : x.keyAt ≤ p := by
  rcases h with rfl | ⟨d, -, -, hp, -⟩
  · exact Nat.le_refl _
  · exact Nat.le_of_lt hp

/-- A record and what it passes over end before the next one. -/
theorem RecordAt.lt_end {p : Nat} (h : p = x.keyAt ∨ x.PassesOver p) : p < x.start + x.record.text.length := by
  rcases h with rfl | ⟨d, hd, -, -, hp⟩
  · have hlt := x.stop_lt
    omega
  · have hend := (RecordAt.detail_bounds hd).2.2.2
    omega

theorem Ahead.tail (h : Ahead body start (r :: rs)) : Ahead body (start + r.text.length) rs := by
  obtain ⟨rest, htext⟩ := h.text
  refine ⟨⟨rest, drop_add (htext.trans (List.append_assoc _ _ _))⟩, fun p hp hocc => ?_, fun x hx p hp hnear => ?_⟩
  · obtain ⟨x, hx, hkey⟩ := h.ids p (Nat.le_of_add_right_le hp) hocc
    rcases List.mem_cons.mp hx with rfl | hx
    · exact absurd (RecordAt.lt_end hkey) (Nat.not_lt.mpr hp)
    · exact ⟨x, hx, hkey⟩
  · obtain ⟨y, hy, d, hd, rfl⟩ := h.details x (List.mem_cons_of_mem _ hx) p hp hnear
    rcases List.mem_cons.mp hy with rfl | hy
    · have hlt := (RecordAt.detail_bounds hd).2.2.1
      have hle : x.stop ≤ d.keyAt := le_find hp
      have hstart := le_start_of_mem_place hx
      have hstop := x.stop_lt
      dsimp only at hlt
      omega
    · exact ⟨y, hy, d, hd, rfl⟩

theorem Ahead.found (h : Ahead body start (r :: rs)) : RecordAt.Found ⟨start, r⟩ body := by
  obtain ⟨rest, htext⟩ := h.text
  have hhead : body.drop start = r.head ++ ((r.detail.map Detail.text).getD [] ++ (rs.flatMap Record.text ++ rest)) := by
    rw [htext, List.flatMap_cons, Record.text, List.append_assoc, List.append_assoc]
  exact RecordAt.found (x := ⟨start, r⟩) hhead

theorem Ahead.detail_found (h : Ahead body start (r :: rs)) (hd : RecordAt.detail ⟨start, r⟩ = some d) : d.Found body := by
  obtain ⟨rest, htext⟩ := h.text
  obtain ⟨m, hm, rfl⟩ := Option.map_eq_some_iff.mp hd
  have hhead : body.drop start = r.head ++ (m.text ++ (rs.flatMap Record.text ++ rest)) := by
    rw [htext, List.flatMap_cons, Record.text, hm]
    simp
  exact DetailAt.found (drop_add hhead)

/-- Where the next detail is, and what is behind it. -/
structure Ahead.Next (body : List Char) (start : Nat) (rs : List Record) (y : RecordAt) (d : DetailAt)
    (rest : List RecordAt) : Prop where
  mem : y ∈ place start rs
  own : y.detail = some d
  found : d.Found body
  first : ∀ z ∈ place start rs, ∀ d' ∈ z.detail, d.keyAt ≤ d'.keyAt
  behind : ∃ rs', rest = place (d.closes + 1) rs' ∧ Ahead body (d.closes + 1) rs'

theorem Ahead.firstDetail_eq_some : ∀ {rs : List Record} {start : Nat} {rest : List RecordAt}, Ahead body start rs →
    firstDetail (place start rs) = some (y, d, rest) → Ahead.Next body start rs y d rest
  | r :: rs, start, rest, h, hfirst => by
    rw [place, firstDetail] at hfirst
    split at hfirst
    · rename_i d' hd
      cases hfirst
      obtain ⟨-, -, hinside, hend⟩ := RecordAt.detail_bounds hd
      dsimp only at hinside hend
      refine ⟨List.mem_cons_self, hd, h.detail_found hd, fun z hz d' hd' => ?_, rs, by rw [hend], hend ▸ h.tail⟩
      rcases List.mem_cons.mp hz with rfl | hz
      · exact Nat.le_of_eq (congrArg DetailAt.keyAt (Option.some.inj (hd.symm.trans hd')))
      · have hlater := le_keyAt_of_mem_place hz hd'
        omega
    · rename_i hnone
      have hnext := Ahead.firstDetail_eq_some h.tail hfirst
      refine ⟨List.mem_cons_of_mem _ hnext.mem, hnext.own, hnext.found, fun z hz d' hd' => ?_, hnext.behind⟩
      rcases List.mem_cons.mp hz with rfl | hz
      · cases hnone.symm.trans hd'
      · exact hnext.first z hz d' hd'

theorem firstDetail_eq_none : ∀ {xs : List RecordAt}, firstDetail xs = none ↔ ∀ x ∈ xs, x.detail = none
  | [] => by simp [firstDetail]
  | x :: xs => by
    rw [firstDetail, List.forall_mem_cons]
    rcases x.detail with _ | d
    · dsimp only
      rw [firstDetail_eq_none, eq_self, true_and]
    · simp

theorem nearDetail_eq (body : List Char) (q2 : Nat) :
    nearDetail body q2 = (find body detailKey q2).filter (· ≤ q2 + 500) := rfl

/-- The detail that the reader finds for the first id. -/
theorem Ahead.detailOf_eq (h : Ahead body start (r :: rs)) : detailOf body (RecordAt.stop ⟨start, r⟩) =
    match firstDetail (place start (r :: rs)) with
    | none => none
    | some (_, d, _) =>
      if d.keyAt ≤ RecordAt.stop ⟨start, r⟩ + 500 then some (d.opens, bare d.detail.raw, d.closes) else none := by
  have hne : detailKey ≠ [] := by decide
  have hself : (⟨start, r⟩ : RecordAt) ∈ place start (r :: rs) := List.mem_cons_self
  rw [detailOf, nearDetail_eq]
  rcases hfirst : firstDetail (place start (r :: rs)) with _ | ⟨y, d, rest⟩
  · -- without a detail ahead, nothing near looks like its key
    have hnone : (find body detailKey (RecordAt.stop ⟨start, r⟩)).filter (· ≤ RecordAt.stop ⟨start, r⟩ + 500) = none := by
      refine Option.filter_eq_none_iff.mpr fun p hp hnear => ?_
      obtain ⟨z, hz, d, hd, -⟩ := h.details _ hself p hp (of_decide_eq_true hnear)
      rw [firstDetail_eq_none.mp hfirst z hz] at hd
      cases hd
    rw [hnone]
    rfl
  · have hnext := h.firstDetail_eq_some hfirst
    have hbehind : RecordAt.stop ⟨start, r⟩ ≤ d.keyAt := by
      have hstop := RecordAt.stop_lt ⟨start, r⟩
      dsimp only at hstop
      rcases List.mem_cons.mp hnext.mem with rfl | hy
      · exact Nat.le_trans (Nat.le_of_lt (RecordAt.detail_bounds hnext.own).2.1) (Nat.le_add_right _ _)
      · have hlater := le_keyAt_of_mem_place hy hnext.own
        omega
    rcases hfind : find body detailKey (RecordAt.stop ⟨start, r⟩) with _ | p
    · exact absurd hnext.found.key ((find_eq_none hne).mp hfind d.keyAt hbehind)
    · have hle : p ≤ d.keyAt := find_le hne hfind hbehind hnext.found.key
      dsimp only
      by_cases hnear : p ≤ RecordAt.stop ⟨start, r⟩ + 500
      · obtain ⟨z, hz, d', hd', rfl⟩ := h.details _ hself p hfind hnear
        have hkey : d'.keyAt = d.keyAt := Nat.le_antisymm hle (hnext.first z hz d' hd')
        rw [hkey] at hnear ⊢
        rw [Option.filter_some, if_pos (decide_eq_true hnear), if_pos hnear, Option.bind_some, hnext.found.opens,
          Option.map_some, hnext.found.closes]
      · have hfar : ¬d.keyAt ≤ RecordAt.stop ⟨start, r⟩ + 500 := by omega
        rw [Option.filter_some, if_neg (by simpa using hnear), if_neg hfar]
        rfl

/-- The turn that reads the first id. -/
theorem Ahead.turn_eq (h : Ahead body start (r :: rs)) (hpos : pos ≤ start)
    (hclear : ∀ p, pos ≤ p → p < start → ¬Occurs idKey body p) : turn body pos =
    match firstDetail (place start (r :: rs)) with
    | none => some ⟨RecordAt.stop ⟨start, r⟩ + 1, none⟩
    | some (_, d, _) =>
      if d.keyAt ≤ RecordAt.stop ⟨start, r⟩ + 500 then some ⟨d.closes + 1, some (reading (⟨start, r⟩, d))⟩
      else some ⟨RecordAt.stop ⟨start, r⟩ + 1, none⟩ := by
  have hfound := h.found
  have hstart := (RecordAt.stop_lt ⟨start, r⟩).1
  have hgid : find body idKey pos = some (RecordAt.keyAt ⟨start, r⟩) := by
    refine find_eq_some (by decide) (Nat.le_trans hpos hstart) hfound.key fun k hk hlt hocc => ?_
    by_cases hbefore : k < start
    · exact hclear k hk hbefore hocc
    · obtain ⟨x, hx, hkey⟩ := h.ids k (Nat.le_of_not_lt hbefore) hocc
      have hle := RecordAt.keyAt_le hkey
      rcases List.mem_cons.mp hx with rfl | hx
      · exact Nat.not_lt.mpr hle hlt
      · have hlater := le_start_of_mem_place hx
        have hx' := x.stop_lt
        have hinside := RecordAt.stop_lt ⟨start, r⟩
        dsimp only at hinside
        omega
  have hturn := turn_eq_some.mpr ⟨_, _, _, hgid, hfound.opens, hfound.stop, rfl⟩
  rw [hturn, h.detailOf_eq]
  rcases firstDetail (place start (r :: rs)) with _ | ⟨y, d, rest⟩
  · rfl
  · dsimp only
    by_cases hnear : d.keyAt ≤ RecordAt.stop ⟨start, r⟩ + 500
    · rw [if_pos hnear, if_pos hnear]
      dsimp only
      rw [hfound.shown]
      rfl
    · rw [if_neg hnear, if_neg hnear]

theorem turn_end (h : Ahead body start []) (hclear : ∀ p, pos ≤ p → p < start → ¬Occurs idKey body p) :
    turn body pos = none := by
  have hnone : find body idKey pos = none := by
    refine (find_eq_none (by decide)).mpr fun p hp hocc => ?_
    by_cases hbefore : p < start
    · exact hclear p hp hbefore hocc
    · obtain ⟨x, hx, -⟩ := h.ids p (Nat.le_of_not_lt hbefore) hocc
      cases hx
  rw [turn]
  split
  · rfl
  · refine Option.bind_eq_none_iff.mpr fun gidPos hgid => ?_
    cases hnone.symm.trans hgid

/-- The loop reads the ids with the details that they get. -/
theorem Ahead.readings_eq : ∀ (fuel : Nat) {rs : List Record} {start pos : Nat}, Ahead body start rs → pos ≤ start →
    (∀ p, pos ≤ p → p < start → ¬Occurs idKey body p) → rs.length < fuel →
    readings body fuel pos = some ((pairs (place start rs)).map reading) := by
  intro fuel
  induction fuel with
  | zero => exact fun _ _ _ hfuel => absurd hfuel (Nat.not_lt_zero _)
  | succ fuel ih =>
    intro rs start pos h hpos hclear hfuel
    cases rs with
    | nil =>
      rw [readings, turn_end h hclear, place, pairs]
      rfl
    | cons r rs =>
      -- a record without a near detail passes over nothing
      have hskip : (∀ d ∈ RecordAt.detail ⟨start, r⟩, ¬d.keyAt ≤ RecordAt.stop ⟨start, r⟩ + 500) →
          readings body fuel (RecordAt.stop ⟨start, r⟩ + 1) =
            some ((pairs (place (start + r.text.length) rs)).map reading) := by
        intro hfar
        have hstop := RecordAt.stop_lt ⟨start, r⟩
        dsimp only at hstop
        refine ih h.tail hstop.2.2 (fun p hp hlt hocc => ?_) (Nat.lt_of_succ_lt_succ hfuel)
        obtain ⟨x, hx, hkey⟩ := h.ids p (by omega) hocc
        rcases List.mem_cons.mp hx with rfl | hx
        · rcases hkey with rfl | ⟨d, hd, hnear, -⟩
          · omega
          · exact hfar d hd hnear
        · have hlater := le_start_of_mem_place hx
          have hle := RecordAt.keyAt_le hkey
          have hx' := x.stop_lt
          omega
      rw [readings, h.turn_eq hpos hclear, place, pairs]
      rcases hfirst : firstDetail (⟨start, r⟩ :: place (start + r.text.length) rs) with _ | ⟨y, d, rest⟩
      · dsimp only
        rw [hskip fun d hd => nomatch (firstDetail_eq_none.mp hfirst _ List.mem_cons_self).symm.trans hd]
        rfl
      · dsimp only
        by_cases hnear : d.keyAt ≤ RecordAt.stop ⟨start, r⟩ + 500
        · obtain ⟨rs', rfl, hbehind⟩ := (h.firstDetail_eq_some hfirst).behind
          have hshort := firstDetail_length hfirst
          rw [List.length_cons, length_place, length_place] at hshort
          have hrest := ih hbehind (Nat.le_refl _) (fun p hp hlt => absurd hp (Nat.not_le.mpr hlt))
            (Nat.lt_of_lt_of_le hshort (Nat.le_of_lt_succ hfuel))
          rw [if_pos hnear, if_pos hnear]
          dsimp only
          rw [hrest]
          rfl
        · rw [if_neg hnear, if_neg hnear]
          dsimp only
          rw [hskip fun d' hd' hnear' => hnear
            (Nat.le_trans ((h.firstDetail_eq_some hfirst).first _ List.mem_cons_self d' hd') hnear')]
          rfl

end HistoryReader
end CrashCore
