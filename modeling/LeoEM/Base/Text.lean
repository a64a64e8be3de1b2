/-
# `Base.Text` — lines, fields and literals of a text file

A file is read line by line, each line with its newline (`fileLines`), and a line is
split at a separator that the fields do not contain (Lean's `List.splitOn`).

A `Literal` is a way to print values, `str`, with a way to read them back,
`literalEval`.  A `Scalar` is one that can stand in a list and at the end of a line:
it prints no comma and no blank, and it is read back with a newline behind it.  From
a scalar comes the literal of its lists, `Literal.list`; `Scalar.int` are the decimal
integers, and `Scalar.rat` prints an integer as a float of that value is printed.
-/
import Mathlib.Data.List.Basic
import Mathlib.Data.Rat.Defs

/-- The lines of a file, each with the newline it ends in. -/
def fileLines : List Char → List (List Char)
  | [] => []
  | c :: cs =>
      if c = '\n' then ['\n'] :: fileLines cs
      else match fileLines cs with
        | [] => [[c]]
        | l :: ls => (c :: l) :: ls

theorem fileLines_line {l : List Char} (rest : List Char) (h : '\n' ∉ l) :
    fileLines (l ++ '\n' :: rest) = (l ++ ['\n']) :: fileLines rest := by
  induction l with
  | nil => rfl
  | cons c l ih =>
      have hc : c ≠ '\n' := fun hc => h (hc ▸ List.mem_cons_self)
      have hl := ih fun hm => h (List.mem_cons_of_mem c hm)
      simp only [List.cons_append, fileLines, if_neg hc, hl]

/-- Lines written one after the other are read back one by one. -/
theorem fileLines_flatMap {ι : Type} {f : ι → List Char} {xs : List ι} :
    (∀ x ∈ xs, '\n' ∉ f x) →
    fileLines (xs.flatMap fun x => f x ++ ['\n']) = xs.map fun x => f x ++ ['\n'] := by
  induction xs with
  | nil => intro _; rfl
  | cons x xs ih =>
      intro h
      rw [List.flatMap_cons, List.append_assoc, List.singleton_append,
        fileLines_line _ (h x List.mem_cons_self), ih fun y hy => h y (List.mem_cons_of_mem x hy),
        List.map_cons]

/-- The fields of a line as they are found in it, the newline behind the last one. -/
def endLine : List (List Char) → List (List Char)
  | [] => []
  | [f] => [f ++ ['\n']]
  | f :: g :: fs => f :: endLine (g :: fs)

/-- A line of fields is split into its fields. -/
theorem splitOn_line {sep : Char} (hsep : sep ≠ '\n') {fs : List (List Char)} : fs ≠ [] →
    (∀ f ∈ fs, sep ∉ f) → ([sep].intercalate fs ++ ['\n']).splitOn sep = endLine fs := by
  induction fs with
  | nil => intro hne _; exact absurd rfl hne
  | cons f fs ih =>
      intro _ h
      cases fs with
      | nil =>
          have hf : sep ∉ f ++ ['\n'] := by simp [h f List.mem_cons_self, hsep]
          rw [List.intercalate_singleton, List.splitOn_eq_singleton hf, endLine]
      | cons g fs =>
          have hrest := ih (List.cons_ne_nil g fs) fun t ht => h t (List.mem_cons_of_mem f ht)
          rw [List.intercalate_cons_cons, List.append_assoc, List.append_assoc,
            List.singleton_append,
            List.splitOn_append_cons_self_of_not_mem (h f List.mem_cons_self), hrest, endLine]

/-- A text without the newline it may end in. -/
def stripNewline (cs : List Char) : List Char :=
  if cs.getLast? = some '\n' then cs.dropLast else cs

theorem stripNewline_of_not_mem {cs : List Char} (h : '\n' ∉ cs) : stripNewline cs = cs :=
  if_neg fun hl => h (List.mem_of_getLast? hl)

theorem stripNewline_line (cs : List Char) : stripNewline (cs ++ ['\n']) = cs := by
  rw [stripNewline, if_pos (by simp), List.dropLast_concat]

/-- Printed values that are read back, in fields of a line. -/
structure Literal (α : Type) where
  str : α → List Char
  literalEval : List Char → Option α
  eval_str : ∀ x, literalEval (str x) = some x
  inField : ∀ x, '$' ∉ str x ∧ '\n' ∉ str x

theorem Literal.str_injective {α : Type} (c : Literal α) {x y : α} (h : c.str x = c.str y) :
    x = y := by
  have hx := c.eval_str x
  rw [h, c.eval_str] at hx
  exact (Option.some.inj hx).symm

/-- Values that can stand in a list and at the end of a line. -/
structure Scalar (α : Type) extends Literal α where
  eval_line : ∀ x, literalEval (str x ++ ['\n']) = some x
  nonempty : ∀ x, str x ≠ []
  atom : ∀ x, ',' ∉ str x ∧ ' ' ∉ str x

/-! ## Integers -/

/-- `str(i)` -/
def strInt : Int → List Char
  | .ofNat n => Nat.toDigits 10 n
  | .negSucc n => '-' :: Nat.toDigits 10 (n + 1)

/-- A text of digits. -/
def evalDigits (cs : List Char) : Option Nat :=
  if cs ≠ [] ∧ cs.all Char.isDigit then some (Nat.ofDigitChars 10 cs 0) else none

/-- `literal_eval` of a decimal integer. -/
def evalInt (cs : List Char) : Option Int :=
  match stripNewline cs with
  | '-' :: ds => (evalDigits ds).map fun n => -(n : Int)
  | ds => (evalDigits ds).map fun n => (n : Int)

theorem isDigit_toDigits {n : Nat} {c : Char} (h : c ∈ Nat.toDigits 10 n) : c.isDigit = true :=
  Nat.isDigit_of_mem_toDigits (by decide) (by decide) h

theorem evalDigits_toDigits (n : Nat) : evalDigits (Nat.toDigits 10 n) = some n := by
  rw [evalDigits, if_pos, Nat.ofDigitChars_ten_toDigits]
  exact ⟨Nat.toDigits_ne_nil, List.all_eq_true.mpr fun c hc => isDigit_toDigits hc⟩

/-- A printed integer has digits and a minus sign. -/
theorem mem_strInt {i : Int} {c : Char} (h : c ∈ strInt i) : c.isDigit = true ∨ c = '-' := by
  cases i with
  | ofNat n => exact Or.inl (isDigit_toDigits h)
  | negSucc n =>
      rcases List.mem_cons.mp h with h | h
      · exact Or.inr h
      · exact Or.inl (isDigit_toDigits h)

theorem not_mem_strInt {i : Int} {c : Char} (h : c.isDigit = false) (h' : c ≠ '-') :
    c ∉ strInt i := by
  intro hm
  rcases mem_strInt hm with hd | hd
  · rw [h] at hd
    cases hd
  · exact h' hd

/-- An integer can stand in a field, in a list and in a line. -/
theorem strInt_plain (i : Int) :
    ('$' ∉ strInt i ∧ '\n' ∉ strInt i) ∧ ',' ∉ strInt i ∧ ' ' ∉ strInt i := by
  refine ⟨⟨?_, ?_⟩, ?_, ?_⟩ <;> exact not_mem_strInt (by decide) (by decide)

theorem evalInt_line (i : Int) : evalInt (strInt i ++ ['\n']) = some i := by
  rw [evalInt, stripNewline_line]
  cases i with
  | negSucc n =>
      simp only [strInt, evalDigits_toDigits]
      rfl
  | ofNat n =>
      simp only [strInt]
      split
      · rename_i ds hds
        have hm : '-' ∈ Nat.toDigits 10 n := hds ▸ List.mem_cons_self
        exact absurd (isDigit_toDigits hm) (by decide)
      · rw [evalDigits_toDigits]
        rfl

theorem evalInt_strInt (i : Int) : evalInt (strInt i) = some i := by
  have h := evalInt_line i
  rw [evalInt, stripNewline_line] at h
  rw [evalInt, stripNewline_of_not_mem (strInt_plain i).1.2]
  exact h

theorem strInt_ne_nil (i : Int) : strInt i ≠ [] := by
  cases i with
  | ofNat n => exact Nat.toDigits_ne_nil
  | negSucc n => exact List.cons_ne_nil _ _

/-- The decimal integers. -/
def Scalar.int : Scalar Int where
  str := strInt
  literalEval := evalInt
  eval_str := evalInt_strInt
  inField i := (strInt_plain i).1
  eval_line := evalInt_line
  nonempty := strInt_ne_nil
  atom i := (strInt_plain i).2

/-! ## Rationals -/

/-- An integer as `3.0`, another number as a fraction. -/
def strRat (q : Rat) : List Char :=
  if q.den = 1 then strInt q.num ++ ['.', '0'] else strInt q.num ++ '/' :: Nat.toDigits 10 q.den

/-- The inverse of `strRat`. -/
def evalRat (cs : List Char) : Option Rat :=
  let cs := stripNewline cs
  if '/' ∈ cs then
    match cs.splitOn '/' with
    | [num, den] => do
        let a ← evalInt num
        let b ← evalDigits den
        some (mkRat a b)
    | _ => none
  else (evalInt (cs.take (cs.length - 2))).map fun a : Int => (a : Rat)

theorem not_mem_toDigits {n : Nat} {c : Char} (h : c.isDigit = false) :
    c ∉ Nat.toDigits 10 n := by
  intro hm
  rw [isDigit_toDigits hm] at h
  cases h

theorem not_mem_strRat {q : Rat} {c : Char} (h : c.isDigit = false) (h' : c ∉ ['-', '.', '/']) :
    c ∉ strRat q := by
  simp only [List.mem_cons, List.not_mem_nil, or_false, not_or] at h'
  obtain ⟨h₁, h₂, h₃⟩ := h'
  have h₀ : c ≠ '0' := by
    rintro rfl
    cases h
  have hnum : c ∉ strInt q.num := not_mem_strInt h h₁
  have hden : c ∉ Nat.toDigits 10 q.den := not_mem_toDigits h
  rw [strRat]
  split <;> simp [*]

theorem strRat_plain (q : Rat) :
    ('$' ∉ strRat q ∧ '\n' ∉ strRat q) ∧ ',' ∉ strRat q ∧ ' ' ∉ strRat q := by
  refine ⟨⟨?_, ?_⟩, ?_, ?_⟩ <;> exact not_mem_strRat (by decide) (by decide)

theorem evalRat_line (q : Rat) : evalRat (strRat q ++ ['\n']) = some q := by
  have hnum : '/' ∉ strInt q.num := not_mem_strInt (by decide) (by decide)
  have hden : '/' ∉ Nat.toDigits 10 q.den := not_mem_toDigits (by decide)
  simp only [evalRat, stripNewline_line]
  by_cases hq : q.den = 1
  · have hint : (q.num : Rat) = q := Rat.ext (by simp) (by simp [hq])
    have hno : '/' ∉ strRat q := by simp [strRat, hq, hnum]
    rw [if_neg hno]
    simp [strRat, hq, evalInt_strInt, hint]
  · have hyes : '/' ∈ strRat q := by simp [strRat, hq]
    have hsplit : (strRat q).splitOn '/' = [strInt q.num, Nat.toDigits 10 q.den] := by
      rw [strRat, if_neg hq, List.splitOn_append_cons_self_of_not_mem hnum,
        List.splitOn_eq_singleton hden]
    simp only [if_pos hyes, hsplit, evalInt_strInt, evalDigits_toDigits]
    exact congrArg some (Rat.mkRat_self q)

theorem evalRat_strRat (q : Rat) : evalRat (strRat q) = some q := by
  have h := evalRat_line q
  rw [evalRat, stripNewline_line] at h
  rw [evalRat, stripNewline_of_not_mem (strRat_plain q).1.2]
  exact h

/-- The rationals. -/
def Scalar.rat : Scalar Rat where
  str := strRat
  literalEval := evalRat
  eval_str := evalRat_strRat
  inField q := (strRat_plain q).1
  eval_line := evalRat_line
  nonempty q := by
    rw [strRat]
    split <;> simp
  atom q := (strRat_plain q).2

/-! ## Lists -/

namespace Literal

variable {α : Type}

/-- `str(xs)` of a list. -/
def strList (c : Scalar α) (xs : List α) : List Char :=
  '[' :: [',', ' '].intercalate (xs.map c.str) ++ [']']

/-- `literal_eval` of a list; blanks in front of an item are skipped. -/
def evalList (c : Scalar α) : List Char → Option (List α)
  | '[' :: rest =>
      if rest.getLast? = some ']' then
        if rest.dropLast = [] then some []
        else (rest.dropLast.splitOn ',').mapM fun t => c.literalEval (t.dropWhile (· = ' '))
      else none
  | _ => none

/-- A comma and a blank between items is a comma between items with a blank in front. -/
theorem intercalate_comma (t : List Char) (ts : List (List Char)) :
    [',', ' '].intercalate (t :: ts) = [','].intercalate (t :: ts.map fun t => ' ' :: t) := by
  induction ts generalizing t with
  | nil => simp
  | cons u us ih =>
      rw [List.intercalate_cons_cons, List.map_cons, List.intercalate_cons_cons, ih u]
      cases us with
      | nil => simp
      | cons v vs => simp [List.intercalate_cons_cons]

theorem dropWhile_str {c : Scalar α} (x : α) : (c.str x).dropWhile (· = ' ') = c.str x := by
  cases h : c.str x with
  | nil => rfl
  | cons ch cs =>
      have hne : ch ≠ ' ' := fun he => (c.atom x).2 (h ▸ he ▸ List.mem_cons_self)
      rw [List.dropWhile_cons_of_neg (by simpa using hne)]

theorem mapM_str {c : Scalar α} (xs : List α) :
    (xs.map fun x => ' ' :: c.str x).mapM (fun t => c.literalEval (t.dropWhile (· = ' '))) =
      some xs := by
  induction xs with
  | nil => rfl
  | cons x xs ih =>
      have hx : c.literalEval ((' ' :: c.str x).dropWhile (· = ' ')) = some x := by
        rw [List.dropWhile_cons_of_pos (by simp), dropWhile_str, c.eval_str]
      rw [List.map_cons, List.mapM_cons, hx, ih]
      rfl

theorem evalList_strList (c : Scalar α) (xs : List α) :
    evalList c (strList c xs) = some xs := by
  rw [strList, List.cons_append, evalList, if_pos (by simp), List.dropLast_concat]
  cases xs with
  | nil => rfl
  | cons x xs =>
      have hne : [',', ' '].intercalate ((x :: xs).map c.str) ≠ [] := by
        intro h
        rw [List.map_cons] at h
        cases hxs : xs.map c.str with
        | nil => rw [hxs] at h; exact c.nonempty x (by simpa using h)
        | cons t ts => rw [hxs] at h; simp [List.intercalate_cons_cons] at h
      rw [if_neg hne, List.map_cons, intercalate_comma, List.map_map, List.splitOn_intercalate]
      · have htail := mapM_str (c := c) xs
        rw [List.mapM_cons, dropWhile_str, c.eval_str]
        simp only [Function.comp_def, htail]
        rfl
      · intro t ht hm
        rcases List.mem_cons.mp ht with rfl | ht
        · exact (c.atom x).1 hm
        · obtain ⟨y, -, rfl⟩ := List.mem_map.mp ht
          rcases List.mem_cons.mp hm with hm | hm
          · cases hm
          · exact (c.atom y).1 hm
      · exact List.cons_ne_nil _ _

theorem not_mem_intercalate {sep : List Char} {ch : Char} (hsep : ch ∉ sep)
    {ts : List (List Char)} : (∀ t ∈ ts, ch ∉ t) → ch ∉ sep.intercalate ts := by
  induction ts with
  | nil => intro _; exact List.not_mem_nil
  | cons t ts ih =>
      intro h
      cases ts with
      | nil =>
          rw [List.intercalate_singleton]
          exact h t List.mem_cons_self
      | cons u ts =>
          have hrest := ih fun t ht => h t (List.mem_cons_of_mem _ ht)
          rw [List.intercalate_cons_cons]
          simp only [List.mem_append, not_or]
          exact ⟨⟨h t List.mem_cons_self, hsep⟩, hrest⟩

theorem not_mem_strList {c : Scalar α} {ch : Char} (h : ∀ x, ch ∉ c.str x)
    (hch : ch ∉ ['[', ']', ',', ' ']) (xs : List α) : ch ∉ strList c xs := by
  simp only [List.mem_cons, List.not_mem_nil, or_false, not_or] at hch
  obtain ⟨h₁, h₂, h₃, h₄⟩ := hch
  have hitems : ch ∉ [',', ' '].intercalate (xs.map c.str) := by
    refine not_mem_intercalate (by simp [h₃, h₄]) fun t ht => ?_
    obtain ⟨x, -, rfl⟩ := List.mem_map.mp ht
    exact h x
  rw [strList, List.cons_append]
  simp only [List.mem_cons, List.mem_append, List.not_mem_nil, or_false, not_or]
  exact ⟨h₁, hitems, h₂⟩

/-- The lists of a scalar. -/
def list (c : Scalar α) : Literal (List α) where
  str := strList c
  literalEval := evalList c
  eval_str := evalList_strList c
  inField xs := ⟨not_mem_strList (fun x => (c.inField x).1) (by decide) xs,
    not_mem_strList (fun x => (c.inField x).2) (by decide) xs⟩

end Literal
