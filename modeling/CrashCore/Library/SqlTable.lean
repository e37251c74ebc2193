import CrashCore.Library.Decimal
import CrashCore.Library.SqlLexer

/-! A table with typed columns and two statements on it: an INSERT of one row of constants, and a SELECT of the rows
with a given text in one column. Both are taken from their tokens. -/

namespace SqlTable
open SqlLexer (Token)

inductive ColumnType
  | text | float8 | bigint | smallint | boolean
deriving DecidableEq

inductive Cell
  | text (s : List Char)
  | float8 (d : Rat)
  | int (i : Int)
  | bool (b : Bool)
deriving DecidableEq

/-- The type `double precision`: the number that a decimal becomes, and the text of a number. -/
structure Float8 where
  ofDecimal : Rat → Rat
  out : Rat → List Char

structure Schema where
  name : List Char
  columns : List (List Char × ColumnType)

/-- The cells of a row by their columns; a column without a cell is NULL. -/
abbrev Row := List (List Char × Cell)

variable {f : Float8} {schema : Schema}

/-- What a client gets. -/
def Cell.out (f : Float8) : Cell → List Char
  | .text s => s
  | .float8 d => f.out d
  | .int i => (toString i).toList
  | .bool b => [if b then 't' else 'f']

/-- A number with its sign. -/
def constant : List Token → Option Rat
  | [.number ds] => some (Decimal.real ds)
  | [.operator ['-'], .number ds] => some (-Decimal.real ds)
  | _ => none

/-- An integer between `-bound` and `bound`. -/
def integer (bound : Int) (q : Rat) : Option Cell :=
  if q.den = 1 ∧ -bound ≤ q.num ∧ q.num < bound then some (.int q.num) else none

/-- The cell that a value makes in a column. -/
def ColumnType.cell (f : Float8) : ColumnType → List Token → Option Cell
  | .text, [.literal s] => some (.text s)
  | .float8, ts => (constant ts).map fun q => .float8 (f.ofDecimal q)
  | .bigint, ts => (constant ts).bind (integer (2 ^ 63))
  | .smallint, ts => (constant ts).bind (integer (2 ^ 15))
  | .boolean, [.word w] =>
    if w = "TRUE".toList then some (.bool true) else if w = "FALSE".toList then some (.bool false) else none
  | _, _ => none

/-! ### Statements -/

/-- What follows the expected tokens. -/
def strip : List Token → List Token → Option (List Token)
  | [], ts => some ts
  | e :: expected, t :: ts => if t = e then strip expected ts else none
  | _ :: _, [] => none

/-- A word by itself. -/
def word : List Token → Option (List Char)
  | [.word w] => some w
  | _ => none

/-- What stands between commas, up to the token `stop`, and what is behind it. -/
def listedUpTo (stop : Token) (ts : List Token) : Option (List (List Token) × List Token) :=
  match ts.dropWhile (· ≠ stop) with
  | _ :: rest => some ((ts.takeWhile (· ≠ stop)).splitOn (.symbol ','), rest)
  | [] => none

structure Insert where
  table : List Char
  columns : List (List Char)
  values : List (List Token)
  /-- What is to happen on a conflict. -/
  onConflict : List Token

/-- `INSERT INTO table ( columns ) VALUES ( values ) …`. -/
def Insert.parse (ts : List Token) : Option Insert := do
  let ts ← strip [.word "INSERT".toList, .word "INTO".toList] ts
  let table ← word (ts.take 1)
  let ts ← strip [.symbol '('] (ts.drop 1)
  let (columns, ts) ← listedUpTo (.symbol ')') ts
  let columns ← columns.mapM word
  let ts ← strip [.word "VALUES".toList, .symbol '('] ts
  let (values, onConflict) ← listedUpTo (.symbol ')') ts
  some { table, columns, values, onConflict }

/-- The row that the statement adds when there is no conflict. -/
def Insert.row (f : Float8) (schema : Schema) (s : Insert) : Option Row :=
  if s.table = schema.name ∧ s.columns.Nodup ∧ s.columns.length = s.values.length then
    (s.columns.zip s.values).mapM fun (c, v) => do
      let type ← schema.columns.lookup c
      let cell ← type.cell f v
      some (c, cell)
  else none

structure Select where
  columns : List (List Char)
  table : List Char
  /-- The column that must have the text `value`. -/
  key : List Char
  value : List Char
  limit : Nat

/-- `SELECT columns FROM table WHERE key = value LIMIT limit`. -/
def Select.parse (ts : List Token) : Option Select := do
  let ts ← strip [.word "SELECT".toList] ts
  let (columns, ts) ← listedUpTo (.word "FROM".toList) ts
  let columns ← columns.mapM word
  let table ← word (ts.take 1)
  let ts ← strip [.word "WHERE".toList] (ts.drop 1)
  let key ← word (ts.take 1)
  match ts.drop 1 with
  | [.operator ['='], .literal value, .word w, .number ds] =>
    if w = "LIMIT".toList then some { columns, table, key, value, limit := Decimal.natural ds } else none
  | _ => none

/-- The texts of the chosen rows. -/
def Select.rows (f : Float8) (schema : Schema) (s : Select) (rows : List Row) :
    Option (List (List (Option (List Char)))) :=
  if s.table = schema.name ∧ ∀ c ∈ s.key :: s.columns, (schema.columns.lookup c).isSome then
    some (((rows.filter fun r => r.lookup s.key = some (.text s.value)).take s.limit).map fun r =>
      s.columns.map fun c => (r.lookup c).map (Cell.out f))
  else none

/-! ### Lists of values -/

section
variable {α β : Type} {g : α → Option β} {h : α → β} {l : List α}

theorem mapM_eq_some (hl : ∀ a ∈ l, g a = some (h a)) : l.mapM g = some (l.map h) := by
  induction l with
  | nil => rfl
  | cons a l ih =>
    rw [List.mapM_cons, hl a List.mem_cons_self, ih fun b hb => hl b (List.mem_cons_of_mem _ hb)]
    rfl

theorem mapM_eq_none {a : α} (ha : a ∈ l) (hnone : g a = none) : l.mapM g = none := by
  induction l with
  | nil => cases ha
  | cons b l ih =>
    rw [List.mapM_cons]
    rcases List.mem_cons.mp ha with rfl | ha
    · rw [hnone]
      rfl
    · rw [ih ha]
      cases g b <;> rfl

end

theorem strip_append : ∀ expected ts : List Token, strip expected (expected ++ ts) = some ts
  | [], _ => rfl
  | e :: expected, ts => by
    rw [List.cons_append, strip, if_pos rfl]
    exact strip_append expected ts

theorem listedUpTo_intercalate {items : List (List Token)} {stop : Token} (rest : List Token) (hne : items ≠ [])
    (hcomma : ∀ ts ∈ items, Token.symbol ',' ∉ ts) (hstop : ∀ ts ∈ items, stop ∉ ts) (hsep : stop ≠ .symbol ',') :
    listedUpTo stop ([.symbol ','].intercalate items ++ stop :: rest) = some (items, rest) := by
  have hpass : ∀ t ∈ [Token.symbol ','].intercalate items, decide (t ≠ stop) = true := by
    rintro t ht
    rw [decide_eq_true_eq]
    rintro rfl
    exact SqlLexer.not_mem_intercalate hsep hstop ht
  have hend : (stop :: rest).dropWhile (· ≠ stop) = stop :: rest := by simp
  have hnone : (stop :: rest).takeWhile (· ≠ stop) = [] := by simp
  rw [listedUpTo, List.dropWhile_append_of_pos hpass, List.takeWhile_append_of_pos hpass, hend, hnone, List.append_nil,
    List.splitOn_intercalate _ hcomma hne]

/-! ### The tokens of a statement -/

def Insert.tokens (s : Insert) : List Token :=
  [.word "INSERT".toList, .word "INTO".toList] ++ .word s.table :: .symbol '(' ::
    ([.symbol ','].intercalate (s.columns.map fun c => [.word c]) ++ .symbol ')' :: .word "VALUES".toList ::
      .symbol '(' :: ([.symbol ','].intercalate s.values ++ .symbol ')' :: s.onConflict))

theorem mapM_word (columns : List (List Char)) :
    (columns.map fun c => [Token.word c]).mapM word = some columns := by
  rw [List.mapM_map]
  have hword : columns.mapM (word ∘ fun c => [Token.word c]) = some (columns.map fun c => c) :=
    mapM_eq_some fun _ _ => rfl
  rw [hword, List.map_id']

theorem comma_not_mem_word {columns : List (List Char)} {stop : Token} (hstop : ∀ c ∈ columns, stop ≠ .word c) :
    ∀ ts ∈ columns.map fun c => [Token.word c], Token.symbol ',' ∉ ts ∧ stop ∉ ts := by
  intro ts hts
  obtain ⟨c, hc, rfl⟩ := List.mem_map.mp hts
  exact ⟨List.mem_singleton.not.mpr nofun, List.mem_singleton.not.mpr (hstop c hc)⟩

/-- The names of columns up to a token that is none of them. -/
theorem listedUpTo_columns {columns : List (List Char)} {stop : Token} (rest : List Token) (hne : columns ≠ [])
    (hstop : ∀ c ∈ columns, stop ≠ .word c) (hsep : stop ≠ .symbol ',') :
    listedUpTo stop ([.symbol ','].intercalate (columns.map fun c => [.word c]) ++ stop :: rest) =
      some (columns.map fun c => [.word c], rest) :=
  listedUpTo_intercalate rest (List.map_eq_nil_iff.not.mpr hne) (fun ts hts => (comma_not_mem_word hstop ts hts).1)
    (fun ts hts => (comma_not_mem_word hstop ts hts).2) hsep

theorem Insert.parse_tokens (s : Insert) (hcolumns : s.columns ≠ []) (hvalues : s.values ≠ [])
    (h : ∀ v ∈ s.values, Token.symbol ',' ∉ v ∧ Token.symbol ')' ∉ v) : parse s.tokens = some s := by
  have hbracket : Token.symbol ')' ≠ .symbol ',' := by decide
  have hcols (rest : List Token) := listedUpTo_columns rest hcolumns (fun _ _ heq => by cases heq) hbracket
  have hvals := listedUpTo_intercalate s.onConflict hvalues (fun v hv => (h v hv).1) (fun v hv => (h v hv).2) hbracket
  rw [parse, tokens, strip_append]
  simp only [Option.bind_eq_bind, Option.bind_some, List.take_succ_cons, List.take_zero, List.drop_succ_cons,
    List.drop_zero, word, strip, if_true, hcols, hvals, mapM_word]

def Select.tokens (s : Select) : List Token :=
  [.word "SELECT".toList] ++ ([.symbol ','].intercalate (s.columns.map fun c => [.word c]) ++ .word "FROM".toList ::
    .word s.table :: .word "WHERE".toList :: .word s.key :: .operator ['='] :: .literal s.value ::
      .word "LIMIT".toList :: [.number (toString s.limit).toList])

theorem Select.parse_tokens (s : Select) (hcolumns : s.columns ≠ []) (hfrom : "FROM".toList ∉ s.columns) :
    parse s.tokens = some s := by
  have hstop : ∀ c ∈ s.columns, Token.word "FROM".toList ≠ .word c := fun c hc heq =>
    hfrom (Token.word.inj heq ▸ hc)
  have hcols (rest : List Token) := listedUpTo_columns rest hcolumns hstop nofun
  rw [parse, tokens, strip_append]
  simp only [Option.bind_eq_bind, Option.bind_some, hcols, mapM_word, List.take_succ_cons, List.take_zero,
    List.drop_succ_cons, List.drop_zero, word, strip, if_true, Decimal.natural_toString]

/-! ### What they do -/

/-- A value in a column that makes the cell. -/
structure Field where
  column : List Char
  value : List Token
  cell : Cell

/-- The column has a type in which the value makes the cell. -/
def Field.Makes (f : Float8) (schema : Schema) (x : Field) : Prop :=
  (schema.columns.lookup x.column).bind (·.cell f x.value) = some x.cell

/-- The fields of a row with a value in each column. -/
def Schema.fields (schema : Schema) (values : List (List Token × Cell)) : List Field :=
  (schema.columns.zip values).map fun (c, v) => ⟨c.1, v.1, v.2⟩

theorem lookup_of_mem {α β : Type} [BEq α] [LawfulBEq α] {l : List (α × β)} (hnodup : (l.map Prod.fst).Nodup) {a : α}
    {b : β} (h : (a, b) ∈ l) : l.lookup a = some b := by
  obtain ⟨before, after, rfl⟩ := List.append_of_mem h
  refine List.lookup_eq_some_iff.mpr ⟨before, after, rfl, fun p hp => ?_⟩
  rw [List.map_append, List.nodup_append] at hnodup
  rw [bne_iff_ne]
  exact (hnodup.2.2 p.1 (List.mem_map.mpr ⟨p, hp, rfl⟩) a (List.mem_map.mpr ⟨_, List.mem_cons_self, rfl⟩)).symm

section
variable {values : List (List Token × Cell)}

theorem Schema.fields_columns (h : schema.columns.length = values.length) :
    (schema.fields values).map (·.column) = schema.columns.map Prod.fst := by
  rw [fields, List.map_map, ← congrArg (List.map Prod.fst) (List.map_fst_zip h.le), List.map_map]
  rfl

theorem Schema.fields_values (h : schema.columns.length = values.length) :
    (schema.fields values).map (·.value) = values.map Prod.fst := by
  rw [fields, List.map_map, ← congrArg (List.map Prod.fst) (List.map_snd_zip h.ge), List.map_map]
  rfl

theorem Schema.fields_cells (h : schema.columns.length = values.length) :
    (schema.fields values).map (·.cell) = values.map Prod.snd := by
  rw [fields, List.map_map, ← congrArg (List.map Prod.snd) (List.map_snd_zip h.ge), List.map_map]
  rfl

/-- Where each value makes its cell in the column at its place, the fields make their cells. -/
theorem Schema.makes_fields (hnodup : (schema.columns.map Prod.fst).Nodup)
    (h : List.Forall₂ (fun c v => ColumnType.cell f c.2 v.1 = some v.2) schema.columns values) :
    ∀ x ∈ schema.fields values, x.Makes f schema := by
  intro x hx
  obtain ⟨⟨c, v⟩, hcv, rfl⟩ := List.mem_map.mp hx
  rw [Field.Makes, lookup_of_mem hnodup (List.of_mem_zip hcv).1, Option.bind_some]
  exact List.forall₂_zip h hcv

end

/-- The INSERT of the fields adds the row of their cells. -/
theorem Insert.row_eq {s : Insert} {fields : List Field} (htable : s.table = schema.name)
    (hcolumns : s.columns = fields.map (·.column)) (hvalues : s.values = fields.map (·.value))
    (hnodup : (fields.map (·.column)).Nodup) (h : ∀ x ∈ fields, x.Makes f schema) :
    s.row f schema = some (fields.map fun x => (x.column, x.cell)) := by
  have hshape : s.table = schema.name ∧ s.columns.Nodup ∧ s.columns.length = s.values.length :=
    ⟨htable, hcolumns ▸ hnodup, by rw [hcolumns, hvalues, List.length_map, List.length_map]⟩
  rw [row, if_pos hshape, hcolumns, hvalues, List.zip_map', List.mapM_map]
  refine mapM_eq_some fun x hx => ?_
  obtain ⟨type, htype, hcell⟩ := Option.bind_eq_some_iff.mp (h x hx)
  simp [htype, hcell]

/-- A value that makes no cell in its column makes the statement fail. -/
theorem Insert.row_eq_none {s : Insert} {c : List Char} {v : List Token} (h : (c, v) ∈ s.columns.zip s.values)
    (hcell : (schema.columns.lookup c).bind (·.cell f v) = none) : s.row f schema = none := by
  unfold row
  split
  · refine mapM_eq_none h ?_
    rcases htype : schema.columns.lookup c with _ | type
    · simp [htype]
    · rw [htype] at hcell
      simp [htype, show type.cell f v = none from hcell]
  · rfl

theorem lookup_fields {fields : List Field} (hnodup : (fields.map (·.column)).Nodup) {x : Field} (hx : x ∈ fields) :
    (fields.map fun y => (y.column, y.cell)).lookup x.column = some x.cell := by
  refine lookup_of_mem ?_ (List.mem_map.mpr ⟨x, hx, rfl⟩)
  rw [List.map_map]
  exact hnodup

/-- The SELECT of the same columns gives their texts, if its text is that of its column in the row. -/
theorem Select.rows_eq {s : Select} {fields : List Field} {key : Field} (htable : s.table = schema.name)
    (hcolumns : s.columns = fields.map (·.column)) (hnodup : (fields.map (·.column)).Nodup)
    (hmakes : ∀ x ∈ fields, x.Makes f schema) (hkey : key ∈ fields) (hname : s.key = key.column)
    (hvalue : key.cell = .text s.value) (hlimit : 0 < s.limit) :
    s.rows f schema [fields.map fun x => (x.column, x.cell)] =
      some [fields.map fun x => some (x.cell.out f)] := by
  have hknown : ∀ x ∈ fields, (schema.columns.lookup x.column).isSome := fun x hx => by
    obtain ⟨type, htype, -⟩ := Option.bind_eq_some_iff.mp (hmakes x hx)
    rw [htype]
    rfl
  have hcols : s.table = schema.name ∧ ∀ c ∈ s.key :: s.columns, (schema.columns.lookup c).isSome := by
    refine ⟨htable, List.forall_mem_cons.mpr ⟨hname ▸ hknown key hkey, fun c hc => ?_⟩⟩
    obtain ⟨x, hx, rfl⟩ := List.mem_map.mp (hcolumns ▸ hc)
    exact hknown x hx
  have hfound : (fields.map fun x => (x.column, x.cell)).lookup s.key = some (.text s.value) := by
    rw [hname, lookup_fields hnodup hkey, hvalue]
  obtain ⟨limit, hlimit⟩ := Nat.exists_eq_succ_of_ne_zero hlimit.ne'
  rw [rows, if_pos hcols, List.filter_cons_of_pos (by rw [hfound, decide_eq_true_eq]), List.filter_nil, hlimit,
    List.take_succ_cons, List.take_nil, List.map_singleton, hcolumns, List.map_map]
  refine congrArg (fun texts => some [texts]) (List.map_congr_left fun x hx => ?_)
  rw [Function.comp_apply, lookup_fields hnodup hx, Option.map_some]

/-! ### All columns -/

/-- The INSERT that names all columns. -/
def Schema.insert (schema : Schema) (values : List (List Token)) (onConflict : List Token) : Insert where
  table := schema.name
  columns := schema.columns.map Prod.fst
  values := values
  onConflict := onConflict

/-- The SELECT of all columns of the first row with the text. -/
def Schema.select (schema : Schema) (key value : List Char) : Select where
  columns := schema.columns.map Prod.fst
  table := schema.name
  key := key
  value := value
  limit := 1

section
variable {values : List (List Token × Cell)} {onConflict : List Token} {key : List Char} {type : ColumnType}
  {v : List Token} {text : List Char}

theorem Schema.row_insert (hnodup : (schema.columns.map Prod.fst).Nodup)
    (h : List.Forall₂ (fun c v => ColumnType.cell f c.2 v.1 = some v.2) schema.columns values) :
    (schema.insert (values.map Prod.fst) onConflict).row f schema =
      some ((schema.fields values).map fun x => (x.column, x.cell)) :=
  Insert.row_eq rfl (fields_columns h.length_eq).symm (fields_values h.length_eq).symm
    (fields_columns h.length_eq ▸ hnodup) (makes_fields hnodup h)

/-- What was inserted is selected by the text in its key column: the texts of its cells. -/
theorem Schema.rows_select (hnodup : (schema.columns.map Prod.fst).Nodup)
    (h : List.Forall₂ (fun c v => ColumnType.cell f c.2 v.1 = some v.2) schema.columns values)
    (hkey : ((key, type), (v, Cell.text text)) ∈ schema.columns.zip values) :
    (schema.select key text).rows f schema [(schema.fields values).map fun x => (x.column, x.cell)] =
      some [values.map fun v => some (v.2.out f)] := by
  have hfield : (⟨key, v, .text text⟩ : Field) ∈ schema.fields values := List.mem_map.mpr ⟨_, hkey, rfl⟩
  have hcells := congrArg (List.map fun c => some (Cell.out f c)) (fields_cells h.length_eq)
  rw [List.map_map, List.map_map] at hcells
  refine (Select.rows_eq rfl (fields_columns h.length_eq).symm (fields_columns h.length_eq ▸ hnodup)
    (makes_fields hnodup h) hfield rfl rfl Nat.zero_lt_one).trans ?_
  exact congrArg (fun texts => some [texts]) hcells

end
end SqlTable
