/-
What is written as JSON text is read back.

The reader gets as many steps as the text is long and more, so that the induction may follow the
text: each line that the writer makes is longer than what the reader spends on it.

Main results:

* `Groundwork.Json.quoted_quote` — a text in quotes is read back, whatever its characters;
* `Groundwork.Json.readsBack_of_texts` — a value is read back from the start of a text;
* `Groundwork.Json.read_render` — **data of texts, lists and records are read back**.
-/
import Groundwork.Json.Printer
import Groundwork.Json.Reader
import Groundwork.Proofs.Datum.Texts
import Mathlib.Data.Char

set_option relaxedAutoImplicit false
set_option autoImplicit false

namespace Groundwork.Json

/-! ### Quoted texts -/

/-- The pieces that control characters are read as hold units below those of surrogate pairs. -/
theorem joinPieces_unit {n : ℕ} (h : n < 0xD800) (ps : List Piece) :
    joinPieces (.unit n :: ps) = (joinPieces ps).map (Char.ofNat n :: ·) := by
  have hlead : isLead n = false := by simp [isLead]; omega
  have htrail : isTrail n = false := by simp [isTrail]; omega
  cases ps with
  | nil => simp [joinPieces, hlead, htrail]
  | cons p ps => cases p <;> simp [joinPieces, hlead, htrail]

theorem hexNumber?_control : ∀ n < 32,
    hexNumber? ['0', '0', hexChar (n / 16), hexChar (n % 16)] = some n := by
  decide

/-- An ordinary character is read as itself. -/
theorem pieces_cons {c : Char} (hquote : c ≠ '"') (hslash : c ≠ '\\') (hlow : ¬ c < ' ')
    (cs : List Char) :
    pieces (c :: cs) = (pieces cs).map fun (ps, rest) => (.char c :: ps, rest) := by
  rw [pieces.eq_def]
  split
  case h_5 heq =>
    cases heq
    rw [if_neg hlow]
    cases pieces cs <;> rfl
  all_goals simp_all

/-- A letter after a backslash is read as what it stands for. -/
theorem pieces_shortEscape {e c : Char} (h : shortEscape? e = some c) (cs : List Char) :
    pieces ('\\' :: e :: cs) = (pieces cs).map fun (ps, rest) => (.char c :: ps, rest) := by
  rw [pieces.eq_def]
  split
  case h_4 heq =>
    cases heq
    rw [h]
    cases pieces cs <;> rfl
  case h_5 hother heq =>
    cases heq
    exact absurd rfl (hother _ _ rfl)
  all_goals simp_all [shortEscape?]

/-- A character as it is written is read as one piece, which stands for the character. -/
theorem pieces_escape (c : Char) : ∃ p : Piece,
    (∀ cs, pieces (escape c ++ cs) = (pieces cs).map fun (ps, rest) => (p :: ps, rest)) ∧
      ∀ ps, joinPieces (p :: ps) = (joinPieces ps).map (c :: ·) := by
  rw [escape.eq_def]
  split
  case h_8 hquote hslash _ _ _ _ _ =>
    split
    case isTrue hlow =>
      have hsmall : c.toNat < 32 := hlow
      refine ⟨.unit c.toNat, fun cs => ?_, fun ps => ?_⟩
      · change pieces ('\\' :: 'u' :: '0' :: '0' :: _ :: _ :: cs) = _
        rw [pieces, hexNumber?_control _ hsmall]
        cases pieces cs <;> rfl
      · rw [joinPieces_unit (by omega), Char.ofNat_toNat]
    case isFalse hlow =>
      refine ⟨.char c, fun cs => pieces_cons hquote hslash hlow cs, fun ps => rfl⟩
  all_goals
    exact ⟨.char _, pieces_shortEscape rfl, fun ps => rfl⟩

theorem exists_pieces_flatMap (cs rest : List Char) : ∃ ps,
    pieces (cs.flatMap escape ++ '"' :: rest) = some (ps, rest) ∧ joinPieces ps = some cs := by
  induction cs with
  | nil => exact ⟨[], rfl, rfl⟩
  | cons c cs ih =>
      obtain ⟨ps, hpieces, hjoin⟩ := ih
      obtain ⟨p, hp, hpjoin⟩ := pieces_escape c
      refine ⟨p :: ps, ?_, ?_⟩
      · rw [List.flatMap_cons, List.append_assoc, hp, hpieces]
        rfl
      · rw [hpjoin, hjoin]
        rfl

/-- A text in quotes is read back. -/
theorem quoted_quote (s : String) (rest : List Char) :
    quoted (s.toList.flatMap escape ++ '"' :: rest) = some (some s, rest) := by
  obtain ⟨ps, hpieces, hjoin⟩ := exists_pieces_flatMap s.toList rest
  simp [quoted, hpieces, hjoin]

/-! ### Values -/

theorem toList_newLine (level : ℕ) :
    (newLine level).toList = '\n' :: List.replicate (2 * level) ' ' := by
  simp [newLine]

theorem skipBlanks_newLine (level : ℕ) (cs : List Char) :
    skipBlanks ((newLine level).toList ++ cs) = skipBlanks cs := by
  have hblank : ∀ c ∈ (newLine level).toList, isBlank c = true := by
    intro c hc
    rw [toList_newLine, List.mem_cons, List.mem_replicate] at hc
    rcases hc with rfl | ⟨-, rfl⟩ <;> rfl
  exact List.dropWhile_append_of_pos hblank

theorem toList_quote (s : String) (rest : List Char) :
    (quote s).toList ++ rest = '"' :: (s.toList.flatMap escape ++ '"' :: rest) := by
  simp [quote]

variable {P : String → Prop} {d : Datum}

/-- A value starts with a quote or an opening bracket. -/
theorem exists_cons_renderAt (h : d.Texts P) (level : ℕ) :
    ∃ c cs, (renderAt level d).toList = c :: cs ∧ isBlank c = false ∧ c ≠ ']' := by
  cases h with
  | @text s => exact ⟨'"', _, by simpa [renderAt] using toList_quote s [], rfl, by decide⟩
  | @list l => cases l <;> exact ⟨'[', _, by simp [renderAt]; rfl, rfl, by decide⟩
  | @record l => cases l <;> exact ⟨'\x7b', _, by simp [renderAt]; rfl, rfl, by decide⟩

theorem skipBlanks_renderAt (h : d.Texts P) (level : ℕ) (rest : List Char) :
    skipBlanks ((renderAt level d).toList ++ rest) = (renderAt level d).toList ++ rest := by
  obtain ⟨c, cs, heq, hblank, -⟩ := exists_cons_renderAt h level
  rw [heq, List.cons_append, skipBlanks, List.dropWhile_cons, hblank]
  rfl

section Indentation

variable (level n : ℕ) (cs : List Char)

theorem value_newLine : value n ((newLine level).toList ++ cs) = value n cs := by
  cases n with
  | zero => rfl
  | succ n => rw [value, value, skipBlanks_newLine]

theorem value_space : value n (' ' :: cs) = value n cs := by
  cases n with
  | zero => rfl
  | succ n =>
      rw [value, value]
      rfl

theorem items_newLine : items n ((newLine level).toList ++ cs) = items n cs := by
  cases n with
  | zero => rfl
  | succ n => rw [items, items, value_newLine]

theorem fields_newLine : fields n ((newLine level).toList ++ cs) = fields n cs := by
  cases n with
  | zero => rfl
  | succ n => rw [fields, fields, skipBlanks_newLine]

end Indentation

/-- The value is read back at the start of any text, with as many steps as the value is long. -/
def ReadsBack (d : Datum) : Prop :=
  ∀ (level n : ℕ) (rest : List Char), (renderAt level d).toList.length < n →
    value n ((renderAt level d).toList ++ rest) = some (d, rest)

theorem items_render {l : List Datum} (hl : ∀ d ∈ l, ReadsBack d) (hd : ReadsBack d)
    (level outer n : ℕ) (rest : List Char)
    (hn : (renderAt level d).toList.length + (renderItems level l).toList.length + 1 < n) :
    items n ((renderAt level d).toList ++ ((renderItems level l).toList ++
      ((newLine outer).toList ++ ']' :: rest))) = some (d :: l, rest) := by
  induction l generalizing d n with
  | nil =>
      obtain ⟨n, rfl⟩ : ∃ m, n = m + 1 := ⟨n - 1, by omega⟩
      have hend : skipBlanks ((newLine outer).toList ++ ']' :: rest) = ']' :: rest :=
        skipBlanks_newLine outer (']' :: rest)
      rw [items, hd level n _ (by omega)]
      simp [renderItems, hend]
  | cons e l ih =>
      obtain ⟨n, rfl⟩ : ∃ m, n = m + 1 := ⟨n - 1, by omega⟩
      rw [List.forall_mem_cons] at hl
      have htext : (renderItems level (e :: l)).toList = ',' :: ((newLine level).toList ++
          ((renderAt level e).toList ++ (renderItems level l).toList)) := by
        simp [renderItems]
      rw [htext] at hn ⊢
      simp only [List.length_cons, List.length_append] at hn
      have hcomma (cs : List Char) : skipBlanks (',' :: cs) = ',' :: cs := rfl
      rw [items, hd level n _ (by omega)]
      simp [hcomma, items_newLine, ih hl.2 hl.1 n (by omega)]

theorem fields_render {k : String} {l : List (String × Datum)} (hl : ∀ m ∈ l, ReadsBack m.2)
    (hd : ReadsBack d) (level outer n : ℕ) (rest : List Char)
    (hn : (renderAt level d).toList.length + (renderFields level l).toList.length + 1 < n) :
    fields n ((quote k).toList ++ (':' :: ' ' :: ((renderAt level d).toList ++
      ((renderFields level l).toList ++ ((newLine outer).toList ++ '\x7d' :: rest))))) =
        some ((some k, d) :: l.map fun m => (some m.1, m.2), rest) := by
  have hquote (cs : List Char) : skipBlanks ('"' :: cs) = '"' :: cs := rfl
  have hcolon (cs : List Char) : skipBlanks (':' :: cs) = ':' :: cs := rfl
  have hcomma (cs : List Char) : skipBlanks (',' :: cs) = ',' :: cs := rfl
  induction l generalizing k d n with
  | nil =>
      obtain ⟨n, rfl⟩ : ∃ m, n = m + 1 := ⟨n - 1, by omega⟩
      have hend : skipBlanks ((newLine outer).toList ++ '\x7d' :: rest) = '\x7d' :: rest :=
        skipBlanks_newLine outer ('\x7d' :: rest)
      rw [fields, toList_quote]
      simp [hquote, hcolon, quoted_quote, value_space, hd level n _ (by omega), renderFields, hend]
  | cons m l ih =>
      obtain ⟨n, rfl⟩ : ∃ m, n = m + 1 := ⟨n - 1, by omega⟩
      rw [List.forall_mem_cons] at hl
      have htext : (renderFields level (m :: l)).toList = ',' :: ((newLine level).toList ++
          ((quote m.1).toList ++ (':' :: ' ' :: ((renderAt level m.2).toList ++
            (renderFields level l).toList)))) := by
        simp [renderFields]
      rw [htext] at hn ⊢
      simp only [List.length_cons, List.length_append] at hn
      rw [fields, toList_quote]
      simp [hquote, hcolon, hcomma, quoted_quote, value_space, hd level n _ (by omega),
        fields_newLine, ih hl.2 hl.1 n (by omega)]

theorem recordOf_names (l : List (String × Datum)) :
    recordOf (l.map fun m => (some m.1, m.2)) = .record l := by
  have hnames : (l.map fun m => (some m.1, m.2)).mapM
      (fun m : Option String × Datum => m.1.map (·, m.2)) = some l :=
    mapM_map_eq_some fun _ _ => rfl
  rw [recordOf, hnames]

theorem readsBack_text (s : String) : ReadsBack (.text s) := by
  intro level n rest hn
  obtain ⟨n, rfl⟩ : ∃ m, n = m + 1 := ⟨n - 1, by omega⟩
  have hquote : skipBlanks ('"' :: (s.toList.flatMap escape ++ '"' :: rest)) =
      '"' :: (s.toList.flatMap escape ++ '"' :: rest) := rfl
  rw [renderAt, toList_quote, value, hquote]
  simp [quoted_quote]

theorem readsBack_list {l : List Datum} (hd : d.Texts P) (hl : ∀ e ∈ d :: l, ReadsBack e) :
    ReadsBack (.list (d :: l)) := by
  intro level n rest hn
  obtain ⟨n, rfl⟩ : ∃ m, n = m + 1 := ⟨n - 1, by omega⟩
  rw [List.forall_mem_cons] at hl
  have htext (rest : List Char) : (renderAt level (.list (d :: l))).toList ++ rest =
      '[' :: ((newLine (level + 1)).toList ++ ((renderAt (level + 1) d).toList ++
        ((renderItems (level + 1) l).toList ++ ((newLine level).toList ++ ']' :: rest)))) := by
    simp [renderAt]
  have hlength := congrArg List.length (htext [])
  simp only [List.length_append, List.length_cons, List.length_nil] at hlength
  have hitems := items_render hl.2 hl.1 (level + 1) level n rest (by omega)
  obtain ⟨c, cs, hcons, -, hbracket⟩ := exists_cons_renderAt hd (level + 1)
  have hskip := skipBlanks_renderAt hd (level + 1) ((renderItems (level + 1) l).toList ++
    ((newLine level).toList ++ ']' :: rest))
  have hopen (cs : List Char) : skipBlanks ('[' :: cs) = '[' :: cs := rfl
  rw [htext, value, hopen]
  simp only [skipBlanks_newLine, hskip]
  rw [hcons, List.cons_append] at hitems ⊢
  simp [hbracket, hitems]

theorem readsBack_record {m : String × Datum} {l : List (String × Datum)}
    (hl : ∀ f ∈ m :: l, ReadsBack f.2) : ReadsBack (.record (m :: l)) := by
  intro level n rest hn
  obtain ⟨n, rfl⟩ : ∃ m, n = m + 1 := ⟨n - 1, by omega⟩
  rw [List.forall_mem_cons] at hl
  have htext (rest : List Char) : (renderAt level (.record (m :: l))).toList ++ rest =
      '\x7b' :: ((newLine (level + 1)).toList ++ ((quote m.1).toList ++ (':' :: ' ' ::
        ((renderAt (level + 1) m.2).toList ++ ((renderFields (level + 1) l).toList ++
          ((newLine level).toList ++ '\x7d' :: rest)))))) := by
    simp [renderAt]
  have hlength := congrArg List.length (htext [])
  simp only [List.length_append, List.length_cons, List.length_nil] at hlength
  have hfields := fields_render (k := m.1) hl.2 hl.1 (level + 1) level n rest (by omega)
  have hopen (cs : List Char) : skipBlanks ('\x7b' :: cs) = '\x7b' :: cs := rfl
  have hquote (cs : List Char) : skipBlanks ('"' :: cs) = '"' :: cs := rfl
  have hrecord := recordOf_names (m :: l)
  rw [List.map_cons] at hrecord
  rw [htext, value, hopen]
  rw [toList_quote] at hfields ⊢
  simp only [skipBlanks_newLine, hquote]
  simp [hfields, hrecord]

/-- A value that is written alike on every level and read in one step. -/
theorem readsBack_of_value {text : String} (htext : ∀ level, renderAt level d = text)
    (hvalue : ∀ n rest, value (n + 1) (text.toList ++ rest) = some (d, rest)) : ReadsBack d := by
  intro level n rest hn
  obtain ⟨n, rfl⟩ : ∃ m, n = m + 1 := ⟨n - 1, by omega⟩
  rw [htext]
  exact hvalue n rest

/-- A value is read back at the start of any text. -/
theorem readsBack_of_texts (h : d.Texts P) : ReadsBack d := by
  induction h with
  | text => exact readsBack_text _
  | @list l hl ih =>
      cases l with
      | nil => exact readsBack_of_value (fun _ => by rw [renderAt]) fun _ _ => rfl
      | cons d l => exact readsBack_list (hl d List.mem_cons_self) ih
  | @record l _ _ ih =>
      cases l with
      | nil => exact readsBack_of_value (fun _ => by rw [renderAt]) fun _ _ => rfl
      | cons m l => exact readsBack_record ih

/-- **What is written is read back**: data of texts, lists and records. -/
theorem read_render (h : d.Texts P) : read (render d) = some d := by
  have hvalue := readsBack_of_texts h 0 (2 * (renderAt 0 d).toList.length + 2) [] (by omega)
  rw [List.append_nil] at hvalue
  rw [read, render, hvalue]
  rfl

end Groundwork.Json
