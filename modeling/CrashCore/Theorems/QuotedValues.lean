import CrashCore.Config.TomlConfig

/-! When a quoted value comes back. A comment is cut off before anything else is looked at, so a `#` ends the line also
inside of quotes; and a key is what stands before the first `=`, trimmed. -/

namespace CrashCore
namespace TomlConfig

variable {c : TomlConfig} {name key val value : Chars} {s t : Loading} {line l : Chars} {lines mid post : List Chars}

def headerLine (name : Chars) : Chars := '[' :: (name ++ [']'])

/-- `key = "value"`. -/
def valueLine (key value : Chars) : Chars := key ++ ' ' :: '=' :: ' ' :: '"' :: (value ++ ['"'])

/-- From a line in section `current` on, no line of the section `name` is for the key. -/
def NoLater (name key : Chars) : Chars → List Chars → Prop
  | _, [] => True
  | current, line :: lines =>
    match header? (content line) with
    | some current => NoLater name key current lines
    | none => (current = name → ∀ a ∈ assignment? (content line), a.1 ≠ key) ∧ NoLater name key current lines

/-- The line `[name]`, or another one that the loader reads as this header. -/
def IsHeader (name line : Chars) : Prop := line = headerLine name ∨ header? (content line) = some name

/-- The value stands under the key in the section, for the last time. Before the first header the section is global. -/
def Contains (lines : List Chars) (name key value : Chars) : Prop :=
  ∃ mid post, (∀ line ∈ mid, header? (content line) = none) ∧ NoLater name key name post ∧
    ((∃ before header, IsHeader name header ∧ lines = before ++ header :: (mid ++ valueLine key value :: post)) ∨
      (name = "global".toList ∧ lines = mid ++ valueLine key value :: post))

/-- Name, key and value have no character that the loader gives another meaning. -/
structure Readable (name key value : Chars) : Prop where
  noComment : '#' ∉ name ∧ '#' ∉ key ∧ '#' ∉ value
  noEquals : '=' ∉ key
  trimmed : trim key = key

/-! ### Trimming -/

theorem trim_sublist (s : Chars) : (trim s).Sublist s :=
  (List.rdropWhile_prefix _ _).sublist.trans (List.dropWhile_sublist _)

theorem not_mem_trim {x : Char} {s : Chars} (h : x ∉ s) : x ∉ trim s := fun hx => h ((trim_sublist s).subset hx)

theorem dropWhile_of_head {s : Chars} (h : ∀ c ∈ s.head?, isSpace c = false) : s.dropWhile isSpace = s := by
  rcases s with _ | ⟨c, s⟩
  · rfl
  · exact List.dropWhile_cons_of_neg (by simpa using h c rfl)

theorem rdropWhile_of_last {s : Chars} (h : ∀ c ∈ s.getLast?, isSpace c = false) : s.rdropWhile isSpace = s := by
  refine List.rdropWhile_eq_self_iff.mpr fun hs => ?_
  simpa using h _ (List.getLast?_eq_some_getLast hs)

theorem trim_of_ends {s : Chars} (hhead : ∀ c ∈ s.head?, isSpace c = false) (hlast : ∀ c ∈ s.getLast?, isSpace c = false) :
    trim s = s := by
  rw [trim, dropWhile_of_head hhead, rdropWhile_of_last hlast]

/-- What is trimmed neither begins nor ends with a space. -/
theorem head_trim (s : Chars) : ∀ c ∈ (trim s).head?, isSpace c = false := by
  intro c hc
  obtain ⟨rest, hrest⟩ := List.rdropWhile_prefix isSpace (s.dropWhile isSpace)
  have hhead : (s.dropWhile isSpace).head? = some c := by
    rw [← hrest, List.head?_append]
    exact Option.or_eq_some_iff.mpr (.inl hc)
  have hnot := List.head?_dropWhile_not isSpace s
  rw [hhead] at hnot
  simpa using hnot

theorem last_trim (s : Chars) : ∀ c ∈ (trim s).getLast?, isSpace c = false := by
  intro c hc
  have hne : trim s ≠ [] := by
    intro hnil
    rw [hnil] at hc
    cases hc
  have hlast := List.rdropWhile_last_not isSpace (s.dropWhile isSpace) hne
  rw [Option.mem_def, List.getLast?_eq_some_getLast hne] at hc
  rw [← Option.some.inj hc]
  exact Bool.eq_false_iff.mpr hlast

theorem trim_trim (s : Chars) : trim (trim s) = trim s := trim_of_ends (head_trim s) (last_trim s)

/-- A space behind a trimmed text goes. -/
theorem trim_concat_space {s : Chars} (h : trim s = s) : trim (s ++ [' ']) = s := by
  rcases s with _ | ⟨c, s⟩
  · rfl
  · have hhead : isSpace c = false := head_trim (c :: s) c (by rw [h]; rfl)
    have hs : (c :: s).rdropWhile isSpace = c :: s := by
      rw [trim, dropWhile_of_head fun x hx => by cases hx; exact hhead] at h
      exact h
    rw [trim, dropWhile_of_head fun x hx => by cases hx; exact hhead, List.rdropWhile_concat_pos _ _ _ (by rfl), hs]

/-! ### What a line stores -/

theorem not_mem_content {line : Chars} : '#' ∉ content line := by
  refine not_mem_trim fun hmem => ?_
  simpa using List.mem_takeWhile_imp hmem

theorem not_mem_header (h : header? l = some name) (hl : '#' ∉ l) : '#' ∉ name := by
  obtain ⟨-, h⟩ := Option.ite_none_right_eq_some.mp h
  cases h
  exact fun hmem => hl (List.mem_of_mem_drop (List.mem_of_mem_take hmem))

theorem not_mem_unquote (h : '#' ∉ val) : '#' ∉ unquote val := by
  unfold unquote
  split
  · exact fun hmem => h (List.mem_of_mem_drop (List.mem_of_mem_take hmem))
  · exact h

theorem readable_assignment (h : assignment? l = some (key, val)) (hl : '#' ∉ l) :
    ('#' ∉ key ∧ '#' ∉ val) ∧ '=' ∉ key ∧ trim key = key := by
  obtain ⟨-, h⟩ := Option.ite_none_right_eq_some.mp h
  cases h
  refine ⟨⟨not_mem_trim fun hmem => ?_, not_mem_unquote (not_mem_trim fun hmem => ?_)⟩, not_mem_trim fun hmem => ?_,
    trim_trim _⟩
  · exact hl ((List.takeWhile_sublist _).subset hmem)
  · exact hl ((List.dropWhile_sublist _).subset (List.mem_of_mem_drop hmem))
  · simpa using List.mem_takeWhile_imp hmem

/-- Only what can be read is stored. -/
def Stores (s : Loading) : Prop :=
  '#' ∉ s.current ∧ ∀ name key val, s.config.stored name key = some val → Readable name key val

theorem Stores.readLine (h : Stores s) (line : Chars) : Stores (readLine s line) := by
  obtain ⟨hcurrent, hstored⟩ := h
  rcases hheader : header? (content line) with _ | name
  · rcases hassign : assignment? (content line) with _ | ⟨key, val⟩
    · rw [readLine_other hheader hassign]
      exact ⟨hcurrent, hstored⟩
    · rw [readLine_assignment hheader hassign]
      refine ⟨hcurrent, fun name' key' val' hval => ?_⟩
      dsimp only at hval
      rw [stored_set] at hval
      split at hval
      · rename_i hhere
        obtain ⟨rfl, rfl⟩ := hhere
        cases hval
        obtain ⟨⟨hkey, hval⟩, hequals, htrim⟩ := readable_assignment hassign not_mem_content
        exact ⟨⟨hcurrent, hkey, hval⟩, hequals, htrim⟩
      · exact hstored name' key' val' hval
  · rw [readLine_header hheader]
    exact ⟨not_mem_header hheader not_mem_content, hstored⟩

theorem Stores.readLines (h : Stores s) (lines : List Chars) : Stores (lines.foldl TomlConfig.readLine s) := by
  induction lines generalizing s with
  | nil => exact h
  | cons line lines ih => exact ih (h.readLine line)

theorem stores_empty : Stores {} := ⟨by decide, nofun⟩

/-! ### The line of the value -/

theorem takeWhile_of_not_mem {x : Char} {s : Chars} (h : x ∉ s) : s.takeWhile (· ≠ x) = s :=
  List.takeWhile_eq_self_iff.mpr fun y hy => by
    have hne : y ≠ x := fun hyx => h (hyx ▸ hy)
    simpa using hne

theorem content_headerLine (h : '#' ∉ name) : content (headerLine name) = headerLine name := by
  have hno : '#' ∉ headerLine name := by simp [headerLine, h]
  rw [content, takeWhile_of_not_mem hno]
  refine trim_of_ends (fun c hc => ?_) fun c hc => ?_
  · cases hc
    rfl
  · simp only [headerLine, ← List.cons_append, List.getLast?_concat, Option.mem_def, Option.some.injEq] at hc
    subst hc
    rfl

theorem header?_headerLine : header? (headerLine name) = some name := by
  have hlast : (headerLine name).getLast? = some ']' := by
    rw [headerLine, ← List.cons_append, List.getLast?_concat]
  rw [header?, if_pos ⟨rfl, hlast⟩]
  simp [headerLine]

theorem IsHeader.read (h : IsHeader name line) (hname : '#' ∉ name) : header? (content line) = some name := by
  rcases h with rfl | h
  · rw [content_headerLine hname, header?_headerLine]
  · exact h

/-- What stands before the `=` after trimming. -/
def stem (key : Chars) : Chars := if key = [] then [] else key ++ [' ']

theorem trim_stem (h : trim key = key) : trim (stem key) = key := by
  unfold stem
  split
  · rename_i hnil
    rw [hnil]
    rfl
  · exact trim_concat_space h

theorem getLast?_quoted (before value : Chars) : (before ++ '"' :: (value ++ ['"'])).getLast? = some '"' := by
  rw [← List.cons_append, ← List.append_assoc, List.getLast?_concat]

theorem content_valueLine (h : Readable name key value) :
    content (valueLine key value) = stem key ++ '=' :: ' ' :: '"' :: (value ++ ['"']) := by
  obtain ⟨⟨-, hkey, hvalue⟩, -, htrim⟩ := h
  have hno : '#' ∉ valueLine key value := by simp [valueLine, hkey, hvalue]
  have hlast (s : Chars) : ∀ c ∈ (s ++ '=' :: ' ' :: '"' :: (value ++ ['"'])).getLast?, isSpace c = false := by
    intro c hc
    have hsplit : s ++ '=' :: ' ' :: '"' :: (value ++ ['"']) = (s ++ ['=', ' ']) ++ '"' :: (value ++ ['"']) := by simp
    rw [hsplit, getLast?_quoted] at hc
    cases hc
    rfl
  rw [content, takeWhile_of_not_mem hno]
  rcases key with _ | ⟨c, k⟩
  · exact rdropWhile_of_last (hlast [])
  · have hhead : isSpace c = false := head_trim (c :: k) c (by rw [htrim]; rfl)
    have hstem : valueLine (c :: k) value = stem (c :: k) ++ '=' :: ' ' :: '"' :: (value ++ ['"']) := by
      simp [valueLine, stem]
    rw [hstem]
    refine trim_of_ends (fun x hx => ?_) (hlast _)
    cases hx
    exact hhead

theorem unquote_quoted (value : Chars) : unquote ('"' :: (value ++ ['"'])) = value := by
  have hlast : ('"' :: (value ++ ['"'])).getLast? = some '"' := getLast?_quoted [] value
  rw [unquote, if_pos ⟨by simp, .inl ⟨rfl, hlast⟩⟩]
  simp

theorem readLine_valueLine (h : Readable name key value) :
    readLine s (valueLine key value) = { s with config := s.config.set s.current key value } := by
  have hstem : ∀ c ∈ stem key, (decide (c ≠ '=')) = true := by
    intro c hc
    have hne : c ≠ '=' := by
      rintro rfl
      unfold stem at hc
      split at hc
      · cases hc
      · simp [h.noEquals] at hc
    simpa using hne
  refine readLine_assignment ?_ ?_
  · rw [content_valueLine h, header?, if_neg]
    rintro ⟨-, hlast⟩
    have hsplit : stem key ++ '=' :: ' ' :: '"' :: (value ++ ['"']) = (stem key ++ ['=', ' ']) ++ '"' :: (value ++ ['"']) := by
      simp
    rw [hsplit, getLast?_quoted] at hlast
    cases hlast
  · have hvalue : trim (' ' :: '"' :: (value ++ ['"'])) = '"' :: (value ++ ['"']) := by
      refine rdropWhile_of_last fun c hc => ?_
      have hlast : ('"' :: (value ++ ['"'])).getLast? = some '"' := getLast?_quoted [] value
      have hc : c ∈ ('"' :: (value ++ ['"'])).getLast? := hc
      rw [hlast] at hc
      cases hc
      rfl
    rw [content_valueLine h, assignment?, if_pos (by simp), List.takeWhile_append_of_pos hstem,
      List.dropWhile_append_of_pos hstem]
    have htake : List.takeWhile (fun c => decide (c ≠ '=')) ('=' :: ' ' :: '"' :: (value ++ ['"'])) = [] := rfl
    have hdrop : List.dropWhile (fun c => decide (c ≠ '=')) ('=' :: ' ' :: '"' :: (value ++ ['"'])) =
        '=' :: ' ' :: '"' :: (value ++ ['"']) := rfl
    rw [htake, hdrop, List.append_nil, trim_stem h.trimmed, List.drop_one, List.tail_cons, hvalue, unquote_quoted]

/-! ### The whole text -/

/-- Lines without a header stay in the section. -/
theorem current_of_no_header (hmid : ∀ line ∈ mid, header? (content line) = none) :
    (mid.foldl readLine s).current = s.current := by
  induction mid generalizing s with
  | nil => rfl
  | cons line mid ih =>
    rw [List.foldl_cons, ih fun l hl => hmid l (List.mem_cons_of_mem _ hl)]
    have hno := hmid line List.mem_cons_self
    rcases hassign : assignment? (content line) with _ | ⟨key, val⟩
    · rw [readLine_other hno hassign]
    · rw [readLine_assignment hno hassign]

/-- Without a later line for the key its value stays. -/
theorem stored_of_noLater (h : NoLater name key s.current post) :
    (post.foldl readLine s).config.stored name key = s.config.stored name key := by
  induction post generalizing s with
  | nil => rfl
  | cons line post ih =>
    rw [List.foldl_cons]
    unfold NoLater at h
    rcases hheader : header? (content line) with _ | current
    · rw [hheader] at h
      obtain ⟨hother, hrest⟩ := h
      rcases hassign : assignment? (content line) with _ | ⟨key', val⟩
      · rw [readLine_other hheader hassign]
        exact ih hrest
      · rw [readLine_assignment hheader hassign]
        refine (@ih { s with config := s.config.set s.current key' val } hrest).trans ?_
        dsimp only
        rw [stored_set, if_neg]
        rintro ⟨hname, hkey⟩
        exact hother hname.symm (key', val) hassign hkey.symm
    · rw [hheader] at h
      rw [readLine_header hheader]
      exact ih h

theorem stored_of_contains (h : Readable name key value) (hdoc : Contains lines name key value) :
    (lines.foldl readLine {}).config.stored name key = some value := by
  obtain ⟨mid, post, hmid, hpost, hlines⟩ := hdoc
  have hread : ∀ s : Loading, s.current = name →
      ((mid ++ valueLine key value :: post).foldl readLine s).config.stored name key = some value := by
    intro s hs
    rw [List.foldl_append, List.foldl_cons, readLine_valueLine h]
    have hcurrent : (mid.foldl readLine s).current = name := (current_of_no_header hmid).trans hs
    rw [stored_of_noLater (by rw [hcurrent]; exact hpost)]
    dsimp only
    rw [stored_set, if_pos ⟨hcurrent.symm, rfl⟩]
  rcases hlines with ⟨before, header, hisHeader, rfl⟩ | ⟨hname, rfl⟩
  · rw [List.foldl_append, List.foldl_cons]
    refine hread _ ?_
    rw [readLine_header (hisHeader.read h.noComment.1)]
  · exact hread {} hname.symm

/-- A quoted value comes back exactly if it is empty, or neither it nor the names have a `#`, and the key is trimmed
    and has no `=`. -/
theorem get_quoted_iff {text : Chars} (hdoc : Contains (getlines text) name key value) :
    (loadString text).get name key = value ↔ value = [] ∨ Readable name key value := by
  rw [get_eq]
  have hstores : Stores ((getlines text).foldl readLine {}) := stores_empty.readLines _
  show ((List.foldl readLine {} (getlines text)).config.stored name key).getD [] = value ↔ _
  rcases hstored : (List.foldl readLine {} (getlines text)).config.stored name key with _ | val
  · refine ⟨fun h => .inl h.symm, fun h => ?_⟩
    rcases h with h | h
    · exact h.symm
    · rw [stored_of_contains h hdoc] at hstored
      cases hstored
  · refine ⟨fun h => .inr (h ▸ hstores.2 name key val hstored), fun h => ?_⟩
    have hval := hstores.2 name key val hstored
    have hreadable : Readable name key value := by
      rcases h with rfl | h
      · exact ⟨⟨hval.noComment.1, hval.noComment.2.1, List.not_mem_nil⟩, hval.noEquals, hval.trimmed⟩
      · exact h
    rw [stored_of_contains hreadable hdoc] at hstored
    exact (Option.some.inj hstored).symm

theorem get_quoted_host :
    (loadString "[ingestion]\nheartbeat_ms = 25000\nhost = \"bc.game\"\n".toList).get "ingestion".toList "host".toList =
      "bc.game".toList := by
  have hdoc : Contains (getlines "[ingestion]\nheartbeat_ms = 25000\nhost = \"bc.game\"\n".toList) "ingestion".toList
      "host".toList "bc.game".toList :=
    ⟨["heartbeat_ms = 25000".toList], [], by decide, trivial, .inl ⟨[], _, .inl rfl, by decide⟩⟩
  exact (get_quoted_iff hdoc).mpr (.inr ⟨by decide, by decide, by decide⟩)

def commentedText : Chars := "[delivery]\nchannel = \"#alerts\"\n".toList

/-- A value with a `#` comes back as an opening quote and what is before the `#`. -/
theorem not_get_quoted_comment :
    Contains (getlines commentedText) "delivery".toList "channel".toList "#alerts".toList ∧
      (loadString commentedText).get "delivery".toList "channel".toList = ['"'] ∧
      (loadString commentedText).get "delivery".toList "channel".toList ≠ "#alerts".toList :=
  ⟨⟨[], [], nofun, trivial, .inl ⟨[], _, .inl rfl, by decide⟩⟩, by decide, by decide⟩

end TomlConfig
end CrashCore
