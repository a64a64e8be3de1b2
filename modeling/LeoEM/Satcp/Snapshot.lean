/-
# `Satcp.Snapshot` — a snapshot of element sets, as `snapshot_comparison_generator.py` reads it

A line of one word with STARLINK in it is a name, any other line belongs to the name
before it.  So a record whose name has several words is taken for three further lines
of the satellite before it (`readTleLines_from`), and without a satellite before it the
script stops (`readTleLines_records`).

A `Snapshot` is a list of records, with or without a newline behind the last line.
`readSnapshot_file` says what the script makes of it: each satellite it knows with its
own lines (`tles`).
-/
import LeoEM.Base.Python
import LeoEM.Base.Words

namespace LeoEM

open PyList PyDict

/-! ## The reading loops -/

/-- `STARLINK` -/
def starlink : List Char := ['S', 'T', 'A', 'R', 'L', 'I', 'N', 'K']

/-- `len(line.split()) == 1 and "STARLINK" in line` -/
def IsNameLine (line : List Char) : Prop := (words line).length = 1 ∧ starlink <:+: line

instance (line : List Char) : Decidable (IsNameLine line) := inferInstanceAs (Decidable (_ ∧ _))

/-- A map of satellites to their lines, and `current_sat`. -/
structure ReadState where
  satTleMap : PyDict (List Char) (List (List Char))
  currentSat : Option (List Char)

/-- One round of either reading loop. -/
def readTleLine (st : ReadState) (line : List Char) : Except PyError ReadState :=
  -- if this is the satellite name line
  if IsNameLine line then do
    let sat ← getItem (words line) 0
    .ok ⟨setKey st.satTleMap sat [], some sat⟩
  -- else this is the data line for the current satellite
  else match st.currentSat with
    | none => .error .keyError
    | some sat => do
        let tle ← getKey st.satTleMap sat
        .ok ⟨setKey st.satTleMap sat (tle ++ [line]), some sat⟩

def readTleLines : ReadState → List (List Char) → Except PyError ReadState
  | st, [] => .ok st
  | st, line :: rest => do
      let st ← readTleLine st line
      readTleLines st rest

/-- A reading loop over a file; `current_sat` is what it was before. -/
def readSnapshot (currentSat : Option (List Char)) (file : List Char) : Except PyError ReadState :=
  readTleLines ⟨[], currentSat⟩ (fileLines (universalNewlines file))

/-! ## Records -/

/-- Three lines: a name and two lines of elements. -/
structure TleRecord where
  name : List Char
  line1 : List Char
  line2 : List Char
  deriving DecidableEq, Repr

def TleRecord.lines (r : TleRecord) : List (List Char) := [r.name, r.line1, r.line2]

/-- The satellite of a record, by the words of its name. -/
def TleRecord.sat (r : TleRecord) : List Char := [' '].intercalate (words r.name)

/-- The records behind a name that the script takes for lines of its satellite. -/
def attached (post : List TleRecord) : List TleRecord :=
  post.takeWhile fun r => ¬ IsNameLine r.name

/-- What the script makes of records, if the first one has a name it knows. -/
def entries : List TleRecord → PyDict (List Char) (List (List Char))
  | [] => []
  | r :: rs =>
      if IsNameLine r.name then
        (r.sat, r.line1 :: r.line2 :: (attached rs).flatMap TleRecord.lines) :: entries rs
      else entries rs

/-- The name of a record that the script knows is one word. -/
theorem words_of_isNameLine {r : TleRecord} (h : IsNameLine r.name) : words r.name = [r.sat] := by
  obtain ⟨w, hw⟩ := List.length_eq_one_iff.mp h.1
  rw [TleRecord.sat, hw, List.intercalate_singleton]

theorem sat_mem_words {r : TleRecord} (h : IsNameLine r.name) : r.sat ∈ words r.name := by
  rw [words_of_isNameLine h]
  exact List.mem_singleton_self _

theorem readTleLine_name {r : TleRecord} (h : IsNameLine r.name) (st : ReadState) :
    readTleLine st r.name = .ok ⟨setKey st.satTleMap r.sat [], some r.sat⟩ := by
  rw [readTleLine, if_pos h, words_of_isNameLine h]
  rfl

/-- A line that is no name is put behind the others of the satellite that came last. -/
theorem readTleLine_data {line sat : List Char} (h : ¬ IsNameLine line)
    {d : PyDict (List Char) (List (List Char))} (hsat : sat ∉ d.map Prod.fst)
    (tle : List (List Char)) : readTleLine ⟨d ++ [(sat, tle)], some sat⟩ line =
      .ok ⟨d ++ [(sat, tle ++ [line])], some sat⟩ := by
  rw [readTleLine, if_neg h]
  simp only [getKey_last hsat, setKey_last hsat, ok_bind]

/-- A record whose name the script knows starts an entry. -/
theorem readTleLines_known {r : TleRecord} (h : IsNameLine r.name) (h₁ : ¬ IsNameLine r.line1)
    (h₂ : ¬ IsNameLine r.line2) {st : ReadState} (hr : r.sat ∉ st.satTleMap.map Prod.fst)
    (rest : List (List Char)) : readTleLines st (r.lines ++ rest) =
      readTleLines ⟨st.satTleMap ++ [(r.sat, [r.line1, r.line2])], some r.sat⟩ rest := by
  simp only [TleRecord.lines, List.cons_append, List.nil_append, readTleLines,
    readTleLine_name h, setKey_new hr, ok_bind, readTleLine_data h₁ hr, readTleLine_data h₂ hr]

/-- Any other record goes to the satellite that came last. -/
theorem readTleLines_unknown {r : TleRecord} (h : ¬ IsNameLine r.name)
    (h₁ : ¬ IsNameLine r.line1) (h₂ : ¬ IsNameLine r.line2)
    {d : PyDict (List Char) (List (List Char))} {sat : List Char} (hsat : sat ∉ d.map Prod.fst)
    (tle rest : List (List Char)) : readTleLines ⟨d ++ [(sat, tle)], some sat⟩ (r.lines ++ rest) =
      readTleLines ⟨d ++ [(sat, tle ++ r.lines)], some sat⟩ rest := by
  simp only [TleRecord.lines, List.cons_append, List.nil_append, readTleLines, ok_bind,
    readTleLine_data h hsat, readTleLine_data h₁ hsat, readTleLine_data h₂ hsat,
    List.append_assoc]

/-- The two lines of elements are no names, and no name stands for two records. -/
structure Readable (rs : List TleRecord) : Prop where
  line1 : ∀ r ∈ rs, ¬ IsNameLine r.line1
  line2 : ∀ r ∈ rs, ¬ IsNameLine r.line2
  distinct : (rs.map TleRecord.sat).Nodup

theorem Readable.tail {r : TleRecord} {rs : List TleRecord} (h : Readable (r :: rs)) :
    Readable rs where
  line1 s hs := h.line1 s (List.mem_cons_of_mem r hs)
  line2 s hs := h.line2 s (List.mem_cons_of_mem r hs)
  distinct := (List.nodup_cons.mp h.distinct).2

theorem Readable.fresh {r : TleRecord} {rs : List TleRecord} (h : Readable (r :: rs)) :
    ∀ s ∈ rs, s.sat ≠ r.sat := by
  intro s hs hsr
  obtain ⟨hno, -⟩ := List.nodup_cons.mp h.distinct
  exact hno (hsr ▸ List.mem_map_of_mem hs)

/-- The reading loop over records, with the satellite that came last. -/
theorem readTleLines_from : ∀ {rs : List TleRecord}, Readable rs →
    ∀ {d : PyDict (List Char) (List (List Char))} {sat : List Char} (tle : List (List Char)),
      sat ∉ d.map Prod.fst → (∀ r ∈ rs, r.sat ∉ d.map Prod.fst ∧ r.sat ≠ sat) →
      ∃ currentSat, readTleLines ⟨d ++ [(sat, tle)], some sat⟩ (rs.flatMap TleRecord.lines) =
        .ok ⟨d ++ [(sat, tle ++ (attached rs).flatMap TleRecord.lines)] ++ entries rs,
          currentSat⟩ := by
  intro rs
  induction rs with
  | nil =>
      intro _ d sat tle _ _
      exact ⟨some sat, by simp [readTleLines, attached, entries]⟩
  | cons r rs ih =>
      intro hread d sat tle hsat hnew
      have h₁ := hread.line1 r List.mem_cons_self
      have h₂ := hread.line2 r List.mem_cons_self
      have hrs : ∀ s ∈ rs, s.sat ∉ d.map Prod.fst ∧ s.sat ≠ sat :=
        fun s hs => hnew s (List.mem_cons_of_mem r hs)
      rw [List.flatMap_cons]
      by_cases hname : IsNameLine r.name
      · have hr : r.sat ∉ (d ++ [(sat, tle)]).map Prod.fst := by
          simpa using hnew r List.mem_cons_self
        have hfresh : ∀ s ∈ rs, s.sat ∉ (d ++ [(sat, tle)]).map Prod.fst ∧ s.sat ≠ r.sat :=
          fun s hs => ⟨by simpa using hrs s hs, hread.fresh s hs⟩
        obtain ⟨currentSat, hrest⟩ := ih hread.tail [r.line1, r.line2] hr hfresh
        rw [readTleLines_known hname h₁ h₂ hr, hrest]
        exact ⟨currentSat, by simp [attached, entries, hname]⟩
      · obtain ⟨currentSat, hrest⟩ := ih hread.tail (tle ++ r.lines) hsat hrs
        rw [readTleLines_unknown hname h₁ h₂ hsat, hrest]
        exact ⟨currentSat, by simp [attached, entries, hname]⟩

/-- The script knows the name that comes first. -/
def KnowsFirst (rs : List TleRecord) : Prop := ∀ r ∈ rs.head?, IsNameLine r.name

instance (rs : List TleRecord) : Decidable (KnowsFirst rs) :=
  inferInstanceAs (Decidable (∀ r ∈ rs.head?, IsNameLine r.name))

/-- **What a reading loop makes of records**: their entries, if it knows the first name. -/
theorem readTleLines_records {rs : List TleRecord} (h : Readable rs) (hfirst : KnowsFirst rs)
    (currentSat : Option (List Char)) :
    ∃ last, readTleLines ⟨[], currentSat⟩ (rs.flatMap TleRecord.lines) =
      .ok ⟨entries rs, last⟩ := by
  cases rs with
  | nil => exact ⟨currentSat, rfl⟩
  | cons r rs =>
      have hname : IsNameLine r.name := hfirst r rfl
      have hr : r.sat ∉ ([] : PyDict (List Char) (List (List Char))).map Prod.fst :=
        List.not_mem_nil
      obtain ⟨last, hrest⟩ := readTleLines_from h.tail [r.line1, r.line2] hr
        fun s hs => ⟨List.not_mem_nil, h.fresh s hs⟩
      rw [List.flatMap_cons, readTleLines_known hname (h.line1 r List.mem_cons_self)
        (h.line2 r List.mem_cons_self) hr]
      exact ⟨last, hrest.trans (by simp [entries, hname])⟩

/-- Otherwise it stops at the first line: no satellite is in the map yet. -/
theorem readTleLines_stops {rs : List TleRecord} (hfirst : ¬ KnowsFirst rs)
    (currentSat : Option (List Char)) :
    readTleLines ⟨[], currentSat⟩ (rs.flatMap TleRecord.lines) = .error .keyError := by
  cases rs with
  | nil => exact absurd (fun r hr => nomatch hr) hfirst
  | cons r rs =>
      have hname : ¬ IsNameLine r.name := by simpa [KnowsFirst] using hfirst
      have hline : readTleLine ⟨[], currentSat⟩ r.name = .error .keyError := by
        rw [readTleLine, if_neg hname]
        cases currentSat with
        | none => rfl
        | some sat => rfl
      rw [List.flatMap_cons, TleRecord.lines, List.cons_append, readTleLines, hline]
      rfl

/-! ## Snapshots -/

/-- A line of elements: the number of the line with more behind it. -/
def IsElementLine (line : List Char) : Prop :=
  2 ≤ (words line).length ∧ 3 ≤ line.length ∧ '\n' ∉ line

instance (line : List Char) : Decidable (IsElementLine line) :=
  inferInstanceAs (Decidable (_ ∧ _ ∧ _))

/-- Records of satellites with different names; `final` says if the last line ends in a
newline. -/
structure Snapshot where
  records : List TleRecord
  final : Bool
  names : ∀ r ∈ records, starlink <:+: r.name ∧ '\n' ∉ r.name
  elements : ∀ r ∈ records, IsElementLine r.line1 ∧ IsElementLine r.line2
  distinct : (records.map TleRecord.sat).Nodup

/-- The text of a snapshot. -/
def Snapshot.text (s : Snapshot) : List Char :=
  (endLines s.final (s.records.flatMap TleRecord.lines)).flatten

/-- The file has the text of the snapshot, with newlines of any kind. -/
def IsFileOf (file : List Char) (s : Snapshot) : Prop := universalNewlines file = s.text

/-- The file that is written with one kind of newline. -/
theorem Snapshot.isFileOf_text {s : Snapshot}
    (h : ∀ r ∈ s.records, ∀ line ∈ r.lines, '\r' ∉ line) : IsFileOf s.text s := by
  refine universalNewlines_of_not_mem fun hm => ?_
  rcases mem_endLines hm with hm | ⟨line, hline, hm⟩
  · cases hm
  · obtain ⟨r, hr, hline⟩ := List.mem_flatMap.mp hline
    exact h r hr line hline hm

/-- A record with its newlines, `final` for the last one. -/
def TleRecord.terminate (final : Bool) (r : TleRecord) : TleRecord where
  name := r.name ++ ['\n']
  line1 := r.line1 ++ ['\n']
  line2 := if final then r.line2 ++ ['\n'] else r.line2

/-- The records as they stand in a file. -/
def terminated (final : Bool) : List TleRecord → List TleRecord
  | [] => []
  | r :: rs => r.terminate (final || !rs.isEmpty) :: terminated final rs

theorem terminated_lines (final : Bool) (rs : List TleRecord) :
    (terminated final rs).flatMap TleRecord.lines =
      endLines final (rs.flatMap TleRecord.lines) := by
  induction rs with
  | nil => rfl
  | cons r rs ih =>
      rw [terminated, List.flatMap_cons, ih]
      cases rs with
      | nil => simp [TleRecord.lines, TleRecord.terminate, endLines]
      | cons s rs => simp [TleRecord.lines, TleRecord.terminate, endLines]

theorem flatMap_lines_inj {rs rs' : List TleRecord} :
    rs.flatMap TleRecord.lines = rs'.flatMap TleRecord.lines ↔ rs = rs' := by
  constructor
  · induction rs generalizing rs' with
    | nil => cases rs' <;> simp [TleRecord.lines]
    | cons r rs ih =>
        cases rs' with
        | nil => simp [TleRecord.lines]
        | cons r' rs' =>
            intro h
            simp only [List.flatMap_cons, TleRecord.lines, List.cons_append, List.nil_append,
              List.cons.injEq] at h
            obtain ⟨hname, h₁, h₂, hrest⟩ := h
            obtain rfl : r = r' := by
              cases r
              cases r'
              simp only at hname h₁ h₂
              rw [hname, h₁, h₂]
            rw [ih hrest]
  · rintro rfl
    rfl

/-- A newline does not make a name of a line. -/
theorem isNameLine_newline (line : List Char) : IsNameLine (line ++ ['\n']) ↔ IsNameLine line := by
  have hstar : starlink <:+: line ++ ['\n'] ↔ starlink <:+: line := by
    rw [List.infix_concat_iff, List.suffix_concat_iff]
    constructor
    · rintro ((h | ⟨t, ht, -⟩) | h)
      · cases h
      · have hmem : '\n' ∈ starlink := ht ▸ List.mem_concat_self
        exact absurd hmem (by decide)
      · exact h
    · exact Or.inr
  rw [IsNameLine, IsNameLine, words_newline, hstar]

theorem terminate_name (final : Bool) (r : TleRecord) :
    IsNameLine (r.terminate final).name ↔ IsNameLine r.name := isNameLine_newline r.name

theorem terminate_sat (final : Bool) (r : TleRecord) : (r.terminate final).sat = r.sat := by
  simp [TleRecord.sat, TleRecord.terminate, words_newline]

theorem attached_cons (r : TleRecord) (rs : List TleRecord) :
    attached (r :: rs) = if IsNameLine r.name then [] else r :: attached rs := by
  by_cases h : IsNameLine r.name
  · simp [attached, h]
  · simp [attached, h]

/-- There is another satellite behind those records. -/
def Closed (post : List TleRecord) : Bool := attached post ≠ post

/-- The lines of a satellite, as the script has them. -/
def ownLines (final : Bool) (r : TleRecord) (post : List TleRecord) : List (List Char) :=
  endLines (final || Closed post) (r.line1 :: r.line2 :: (attached post).flatMap TleRecord.lines)

/-- A line ends in a newline if more lines of its satellite or another one come. -/
theorem not_isEmpty_eq (rs : List TleRecord) :
    (!rs.isEmpty) = (Closed rs || !(attached rs).isEmpty) := by
  cases rs with
  | nil => rfl
  | cons r rs => cases h : attached (r :: rs) <;> simp [Closed, h]

theorem attached_terminated (final : Bool) (rs : List TleRecord) :
    attached (terminated final rs) = terminated (final || Closed rs) (attached rs) := by
  induction rs with
  | nil => rfl
  | cons r rs ih =>
      rw [terminated, attached_cons, attached_cons]
      by_cases h : IsNameLine r.name
      · rw [if_pos ((terminate_name _ r).mpr h), if_pos h]
        rfl
      · have hclosed : Closed (r :: rs) = Closed rs := by simp [Closed, attached_cons, h]
        rw [if_neg fun hr => h ((terminate_name _ r).mp hr), if_neg h, terminated, ih, hclosed,
          not_isEmpty_eq rs, Bool.or_assoc]

theorem ownLines_eq (final : Bool) (r : TleRecord) (post : List TleRecord) :
    ownLines final r post = (r.terminate (final || !post.isEmpty)).line1 ::
      (r.terminate (final || !post.isEmpty)).line2 ::
      (attached (terminated final post)).flatMap TleRecord.lines := by
  have hown := terminated_lines (final || Closed post) (r :: attached post)
  rw [terminated, List.flatMap_cons, List.flatMap_cons, Bool.or_assoc, ← not_isEmpty_eq,
    ← attached_terminated] at hown
  exact (congrArg List.tail hown).symm

/-- The satellites that the script knows, each with its lines. -/
def tles (final : Bool) : List TleRecord → PyDict (List Char) (List (List Char))
  | [] => []
  | r :: rs =>
      if IsNameLine r.name then (r.sat, ownLines final r rs) :: tles final rs else tles final rs

theorem entries_terminated (final : Bool) (rs : List TleRecord) :
    entries (terminated final rs) = tles final rs := by
  induction rs with
  | nil => rfl
  | cons r rs ih =>
      rw [terminated, entries, tles, ih, ownLines_eq, terminate_sat]
      by_cases h : IsNameLine r.name
      · rw [if_pos ((terminate_name _ r).mpr h), if_pos h]
      · rw [if_neg fun hr => h ((terminate_name _ r).mp hr), if_neg h]

theorem mem_tles {final : Bool} {rs : List TleRecord} {sat : List Char} {tle : List (List Char)} :
    (sat, tle) ∈ tles final rs ↔ ∃ r post, r :: post <:+ rs ∧ IsNameLine r.name ∧
      sat = r.sat ∧ tle = ownLines final r post := by
  induction rs with
  | nil => simp [tles]
  | cons q rs ih =>
      rw [tles]
      constructor
      · intro h
        have hlater : (sat, tle) ∈ tles final rs → ∃ r post, r :: post <:+ q :: rs ∧
            IsNameLine r.name ∧ sat = r.sat ∧ tle = ownLines final r post := by
          intro h
          obtain ⟨r, post, hsuf, hr⟩ := ih.mp h
          exact ⟨r, post, hsuf.trans (List.suffix_cons q rs), hr⟩
        by_cases hname : IsNameLine q.name
        · rw [if_pos hname, List.mem_cons] at h
          rcases h with h | h
          · obtain ⟨rfl, rfl⟩ := Prod.mk.inj h
            exact ⟨q, rs, List.suffix_refl _, hname, rfl, rfl⟩
          · exact hlater h
        · rw [if_neg hname] at h
          exact hlater h
      · rintro ⟨r, post, hsuf, hr, rfl, rfl⟩
        rcases List.suffix_cons_iff.mp hsuf with hcons | hrest
        · obtain ⟨rfl, rfl⟩ := List.cons.inj hcons
          rw [if_pos hr]
          exact List.mem_cons_self
        · have hmem := ih.mpr ⟨r, post, hrest, hr, rfl, rfl⟩
          split
          · exact List.mem_cons_of_mem _ hmem
          · exact hmem

theorem tles_keys (final : Bool) (rs : List TleRecord) :
    ((tles final rs).map Prod.fst).Sublist (rs.map TleRecord.sat) := by
  induction rs with
  | nil => exact List.Sublist.refl _
  | cons r rs ih =>
      rw [tles]
      split
      · exact ih.cons_cons r.sat
      · exact ih.cons r.sat

/-- A line of elements has more than one word, so it is no name. -/
theorem IsElementLine.not_name {line : List Char} (h : IsElementLine line) : ¬ IsNameLine line := by
  intro hname
  have h₁ := h.1
  rw [hname.1] at h₁
  omega

theorem mem_terminated {final : Bool} {rs : List TleRecord} {r : TleRecord}
    (h : r ∈ terminated final rs) : ∃ q ∈ rs, ∃ b, r = q.terminate b := by
  induction rs with
  | nil => cases h
  | cons q rs ih =>
      rcases List.mem_cons.mp h with rfl | h
      · exact ⟨q, List.mem_cons_self, _, rfl⟩
      · obtain ⟨p, hp, hr⟩ := ih h
        exact ⟨p, List.mem_cons_of_mem q hp, hr⟩

theorem terminated_sats (final : Bool) (rs : List TleRecord) :
    (terminated final rs).map TleRecord.sat = rs.map TleRecord.sat := by
  induction rs with
  | nil => rfl
  | cons r rs ih => rw [terminated, List.map_cons, List.map_cons, ih, terminate_sat]

theorem terminated_knowsFirst {final : Bool} {rs : List TleRecord} :
    KnowsFirst (terminated final rs) ↔ KnowsFirst rs := by
  cases rs with
  | nil => rfl
  | cons r rs => simp [KnowsFirst, terminated, terminate_name]

namespace Snapshot

variable (s : Snapshot)

/-- The entries of a snapshot that the script makes. -/
def tleMap : PyDict (List Char) (List (List Char)) := tles s.final s.records

theorem tleMap_nodup : (s.tleMap.map Prod.fst).Nodup :=
  s.distinct.sublist (tles_keys s.final s.records)

theorem readable : Readable (terminated s.final s.records) where
  line1 r hr := by
    obtain ⟨q, hq, b, rfl⟩ := mem_terminated hr
    exact fun h => (s.elements q hq).1.not_name ((isNameLine_newline q.line1).mp h)
  line2 r hr := by
    obtain ⟨q, hq, b, rfl⟩ := mem_terminated hr
    intro h
    refine (s.elements q hq).2.not_name ?_
    cases b with
    | true => exact (isNameLine_newline q.line2).mp h
    | false => exact h
  distinct := by
    rw [terminated_sats]
    exact s.distinct

theorem noNewline : ∀ r ∈ s.records, ∀ line ∈ r.lines, '\n' ∉ line := by
  intro r hr
  simp only [TleRecord.lines, List.forall_mem_cons]
  exact ⟨(s.names r hr).2, (s.elements r hr).1.2.2, (s.elements r hr).2.2.2,
    fun _ h => absurd h List.not_mem_nil⟩

/-- The lines of a snapshot are read one by one. -/
theorem fileLines_file {file : List Char} (h : IsFileOf file s) :
    fileLines (universalNewlines file) =
      (terminated s.final s.records).flatMap TleRecord.lines := by
  rw [h, terminated_lines, text]
  refine fileLines_endLines s.final fun line hline => ?_
  obtain ⟨r, hr, hline⟩ := List.mem_flatMap.mp hline
  have hlen : ∀ {l : List Char}, IsElementLine l → FitsLine l := by
    intro l hl
    refine ⟨?_, hl.2.2⟩
    rintro rfl
    exact absurd hl.2.1 (by decide)
  rcases List.mem_cons.mp hline with rfl | hline
  · obtain ⟨hstar, hno⟩ := s.names r hr
    refine ⟨?_, hno⟩
    intro hnil
    rw [hnil, List.infix_nil] at hstar
    cases hstar
  · rcases List.mem_cons.mp hline with rfl | hline
    · exact hlen (s.elements r hr).1
    · rw [List.mem_singleton.mp hline]
      exact hlen (s.elements r hr).2

variable {s} {file : List Char} (currentSat : Option (List Char))

/-- **What the script makes of a snapshot.** -/
theorem readSnapshot_file (h : IsFileOf file s) (hfirst : KnowsFirst s.records) :
    ∃ last, readSnapshot currentSat file = .ok ⟨s.tleMap, last⟩ := by
  obtain ⟨last, hread⟩ := readTleLines_records s.readable (terminated_knowsFirst.mpr hfirst)
    currentSat
  rw [entries_terminated] at hread
  exact ⟨last, (congrArg _ (s.fileLines_file h)).trans hread⟩

theorem readSnapshot_stops (h : IsFileOf file s) (hfirst : ¬ KnowsFirst s.records) :
    readSnapshot currentSat file = .error .keyError :=
  (congrArg _ (s.fileLines_file h)).trans
    (readTleLines_stops (fun hf => hfirst (terminated_knowsFirst.mp hf)) currentSat)

/-- The satellites of two snapshots are told apart by name, known or not. -/
theorem name_of_sat {s' : Snapshot} {r r' : TleRecord} (hr' : r' ∈ s'.records)
    (hsat : r.sat = r'.sat) (h : IsNameLine r.name) : IsNameLine r'.name := by
  obtain ⟨hne, hspace⟩ := word_of_mem (sat_mem_words h)
  refine ⟨?_, (s'.names r' hr').1⟩
  rw [hsat, TleRecord.sat] at hne hspace
  match hws : words r'.name with
  | [] =>
      rw [hws] at hne
      exact absurd rfl hne
  | [w] => rfl
  | w :: v :: ws =>
      rw [hws, List.intercalate_cons_cons] at hspace
      cases hspace ' ' (by simp)

/-- Every line of the satellite in front of `post` ends in a newline. -/
def ends (s : Snapshot) (post : List TleRecord) : Bool := s.final || Closed post

theorem noNewline_own {r : TleRecord} {post : List TleRecord} (h : r :: post <:+ s.records) :
    ∀ line ∈ r.line1 :: r.line2 :: (attached post).flatMap TleRecord.lines, '\n' ∉ line := by
  have hr : ∀ line ∈ r.lines, '\n' ∉ line := s.noNewline r (h.subset List.mem_cons_self)
  intro line hline
  rcases List.mem_cons.mp hline with rfl | hline
  · exact hr _ (by simp [TleRecord.lines])
  · rcases List.mem_cons.mp hline with rfl | hline
    · exact hr _ (by simp [TleRecord.lines])
    · obtain ⟨q, hq, hline⟩ := List.mem_flatMap.mp hline
      have hpost : q ∈ post := (List.takeWhile_sublist _).subset hq
      exact s.noNewline q (h.subset (List.mem_cons_of_mem r hpost)) line hline

/-- When the lines of two satellites are the same in the files. -/
theorem ownLines_inj {s' : Snapshot} {r r' : TleRecord} {post post' : List TleRecord}
    (h : r :: post <:+ s.records) (h' : r' :: post' <:+ s'.records) :
    ownLines s.final r post = ownLines s'.final r' post' ↔
      (r.line1 = r'.line1 ∧ r.line2 = r'.line2 ∧ attached post = attached post') ∧
        s.ends post = s'.ends post' := by
  rw [ownLines, ownLines, endLines_inj (List.cons_ne_nil _ _) (noNewline_own h)
    (noNewline_own h'), List.cons.injEq, List.cons.injEq, flatMap_lines_inj]
  rfl

end Snapshot

end LeoEM
