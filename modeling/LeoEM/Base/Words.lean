/-
# `Base.Words` — the words of a line, and lines that end in one way or another

`str.split()` cuts a line at white space and drops the empty pieces, `words`.  A file
that is read as text has one kind of newline, whatever it had on disk
(`universalNewlines`), and its last line may lack it (`endLines`).
-/
import LeoEM.Base.Text

/-- `str.isspace` of a character. -/
def isSpace (c : Char) : Bool :=
  let n := c.toNat
  (9 ≤ n && n ≤ 13) || (28 ≤ n && n ≤ 32) || n = 133 || n = 160 || n = 5760 ||
    (8192 ≤ n && n ≤ 8202) || n = 8232 || n = 8233 || n = 8239 || n = 8287 || n = 12288

/-- `str.split()` -/
def words (cs : List Char) : List (List Char) := (cs.splitOnP isSpace).filter fun w => w ≠ []

/-- White space at the end adds no word. -/
theorem words_concat {cs : List Char} {c : Char} (h : isSpace c = true) :
    words (cs ++ [c]) = words cs := by
  rw [words, List.splitOnP_append_cons cs [] h]
  simp [words]

theorem words_newline (cs : List Char) : words (cs ++ ['\n']) = words cs := words_concat rfl

/-- The pieces between separators have none. -/
theorem not_sep_of_mem_splitOnP {α : Type} {p : α → Bool} : ∀ {xs w : List α},
    w ∈ xs.splitOnP p → ∀ x ∈ w, p x = false := by
  intro xs
  induction xs with
  | nil =>
      intro w hw x hx
      rw [List.splitOnP_nil, List.mem_singleton] at hw
      rw [hw] at hx
      exact absurd hx List.not_mem_nil
  | cons a xs ih =>
      intro w hw x hx
      rw [List.splitOnP_cons_eq_if_modifyHead] at hw
      cases ha : p a with
      | true =>
          rw [ha, if_pos rfl] at hw
          rcases List.mem_cons.mp hw with rfl | hw
          · exact absurd hx List.not_mem_nil
          · exact ih hw x hx
      | false =>
          rw [ha, if_neg Bool.false_ne_true] at hw
          obtain ⟨v, vs, hsplit⟩ := List.exists_cons_of_ne_nil (List.splitOnP_ne_nil p xs)
          rw [hsplit] at hw ih
          rcases List.mem_cons.mp hw with rfl | hw
          · rcases List.mem_cons.mp hx with rfl | hx
            · exact ha
            · exact ih List.mem_cons_self x hx
          · exact ih (List.mem_cons_of_mem v hw) x hx

/-- A word is not empty and has no white space. -/
theorem word_of_mem {cs w : List Char} (h : w ∈ words cs) :
    w ≠ [] ∧ ∀ c ∈ w, isSpace c = false := by
  obtain ⟨hw, hne⟩ := List.mem_filter.mp h
  exact ⟨by simpa using hne, not_sep_of_mem_splitOnP hw⟩

/-- What reading a file as text makes of its newlines. -/
def universalNewlines : List Char → List Char
  | '\r' :: '\n' :: cs => '\n' :: universalNewlines cs
  | '\r' :: cs => '\n' :: universalNewlines cs
  | c :: cs => c :: universalNewlines cs
  | [] => []

theorem universalNewlines_of_not_mem {cs : List Char} (h : '\r' ∉ cs) :
    universalNewlines cs = cs := by
  induction cs with
  | nil => rfl
  | cons c cs ih =>
      have hc : c ≠ '\r' := fun hc => h (hc ▸ List.mem_cons_self)
      have hcs := ih fun hm => h (List.mem_cons_of_mem c hm)
      simp [universalNewlines, hc, hcs]

/-- A text that can stand in a line. -/
def FitsLine (c : List Char) : Prop := c ≠ [] ∧ '\n' ∉ c

theorem FitsLine.prepend {c d : List Char} (hc : '\n' ∉ c) (hd : FitsLine d) : FitsLine (c ++ d) :=
  ⟨by simp [hd.1], by simp [hc, hd.2]⟩

/-- Texts as the lines of a file, whose last line ends in a newline or not. -/
def endLines (final : Bool) : List (List Char) → List (List Char)
  | [] => []
  | [c] => [if final then c ++ ['\n'] else c]
  | c :: d :: cs => (c ++ ['\n']) :: endLines final (d :: cs)

theorem mem_endLines {final : Bool} {x : Char} : ∀ {cs : List (List Char)},
    x ∈ (endLines final cs).flatten → x = '\n' ∨ ∃ c ∈ cs, x ∈ c := by
  intro cs
  induction cs with
  | nil => intro h; cases h
  | cons c cs ih =>
      intro h
      cases cs with
      | nil =>
          cases final with
          | true => simpa [endLines, or_comm] using h
          | false => simpa [endLines] using Or.inr h
      | cons d cs =>
          rw [endLines, List.flatten_cons, List.mem_append, List.mem_append,
            List.mem_singleton] at h
          rcases h with (h | h) | h
          · exact Or.inr ⟨c, List.mem_cons_self, h⟩
          · exact Or.inl h
          · rcases ih h with h | ⟨e, he, h⟩
            · exact Or.inl h
            · exact Or.inr ⟨e, List.mem_cons_of_mem c he, h⟩

theorem fileLines_last {l : List Char} (hne : l ≠ []) (h : '\n' ∉ l) : fileLines l = [l] := by
  induction l with
  | nil => exact absurd rfl hne
  | cons c l ih =>
      have hc : c ≠ '\n' := fun hc => h (hc ▸ List.mem_cons_self)
      cases l with
      | nil => simp [fileLines, hc]
      | cons d l =>
          have hl := ih (List.cons_ne_nil d l) fun hm => h (List.mem_cons_of_mem c hm)
          rw [fileLines, if_neg hc, hl]

/-- A file is read back line by line. -/
theorem fileLines_endLines (final : Bool) : ∀ {cs : List (List Char)},
    (∀ c ∈ cs, FitsLine c) → fileLines (endLines final cs).flatten = endLines final cs := by
  intro cs
  induction cs with
  | nil => intro _; rfl
  | cons c cs ih =>
      intro h
      obtain ⟨hne, hno⟩ := h c List.mem_cons_self
      cases cs with
      | nil =>
          cases final with
          | true => simpa [endLines, fileLines] using fileLines_line [] hno
          | false => simpa [endLines] using fileLines_last hne hno
      | cons d cs =>
          have hrest := ih fun e he => h e (List.mem_cons_of_mem c he)
          rw [endLines, List.flatten_cons, List.append_assoc, List.singleton_append,
            fileLines_line _ hno, hrest]

/-- Without the newlines they end in, the lines are the texts. -/
theorem stripNewline_endLines (final : Bool) : ∀ {cs : List (List Char)},
    (∀ c ∈ cs, '\n' ∉ c) → (endLines final cs).map stripNewline = cs := by
  intro cs
  induction cs with
  | nil => intro _; rfl
  | cons c cs ih =>
      intro h
      cases cs with
      | nil =>
          cases final with
          | true => simp [endLines, stripNewline_line]
          | false => simp [endLines, stripNewline_of_not_mem (h c List.mem_cons_self)]
      | cons d cs =>
          have hrest := ih fun e he => h e (List.mem_cons_of_mem c he)
          rw [endLines, List.map_cons, stripNewline_line, hrest]

/-- A file is read back as the texts it is made of. -/
theorem texts_of_file (final : Bool) {cs : List (List Char)} (h : ∀ c ∈ cs, FitsLine c) :
    (fileLines (endLines final cs).flatten).map stripNewline = cs := by
  rw [fileLines_endLines final h, stripNewline_endLines final fun c hc => (h c hc).2]

/-- Texts of one line or more are known from their lines in a file, and so is its end. -/
theorem endLines_inj {final final' : Bool} : ∀ {cs ds : List (List Char)}, cs ≠ [] →
    (∀ c ∈ cs, '\n' ∉ c) → (∀ d ∈ ds, '\n' ∉ d) →
    (endLines final cs = endLines final' ds ↔ cs = ds ∧ final = final') := by
  intro cs ds hne hcs hds
  constructor
  · intro h
    have heq : cs = ds := by
      rw [← stripNewline_endLines final hcs, h, stripNewline_endLines final' hds]
    subst heq
    refine ⟨rfl, ?_⟩
    induction cs with
    | nil => exact absurd rfl hne
    | cons c cs ih =>
        cases cs with
        | nil => cases final <;> cases final' <;> simp [endLines] at h ⊢
        | cons d cs =>
            have hrest : ∀ e ∈ d :: cs, '\n' ∉ e := fun e he => hcs e (List.mem_cons_of_mem c he)
            exact ih (List.cons_ne_nil d cs) hrest hrest (List.cons.inj h).2
  · rintro ⟨rfl, rfl⟩
    rfl
