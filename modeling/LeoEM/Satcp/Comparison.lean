/-
# `Satcp.Comparison` — the files that `snapshot_comparison_generator.py` writes

The script compares two snapshots satellite by satellite, each with its own lines as
they stand in the file, and writes a file where they differ.  A record whose name has
several words is among the lines of the satellite before it, and so is the missing
newline at the end of a snapshot.  `comparison_iff` says when the files are those of the
satellites whose elements have changed.
-/
import LeoEM.Satcp.Snapshot
import Mathlib.Data.List.Nodup

namespace LeoEM

open PyList PyDict

/-! ## The last loop -/

/-- `line[:2] + c + line[3:]` -/
def mark (c : Char) (line : List Char) : List Char := line.take 2 ++ [c] ++ line.drop 3

/-- What is written for a satellite. -/
def comparisonText (sat : List Char) (satNewTle satOldTle : List (List Char)) :
    Except PyError (List Char) := do
  let new₀ ← getItem satNewTle 0
  let new₁ ← getItem satNewTle 1
  let old₀ ← getItem satOldTle 0
  let old₁ ← getItem satOldTle 1
  .ok (sat ++ ['_', 'n', 'e', 'w'] ++ ['\n'] ++ mark '1' new₀ ++ mark '1' new₁ ++
    sat ++ ['_', 'o', 'l', 'd'] ++ ['\n'] ++ mark '2' old₀ ++ mark '2' old₁)

/-- `"comparsion_1_2/%s.tle" % sat` -/
def comparisonPath (sat : List Char) : List Char :=
  ['c', 'o', 'm', 'p', 'a', 'r', 's', 'i', 'o', 'n', '_', '1', '_', '2', '/'] ++ sat ++
    ['.', 't', 'l', 'e']

/-- The files that the last loop writes. -/
def comparisonLoop (oldMap : PyDict (List Char) (List (List Char))) :
    PyDict (List Char) (List (List Char)) → Except PyError (List (List Char × List Char))
  | [] => .ok []
  | (sat, satNewTle) :: rest =>
      match oldMap.lookup sat with
      | none => comparisonLoop oldMap rest
      | some satOldTle =>
          if satNewTle = satOldTle then comparisonLoop oldMap rest
          else do
            let text ← comparisonText sat satNewTle satOldTle
            let files ← comparisonLoop oldMap rest
            .ok ((comparisonPath sat, text) :: files)

/-- The script, from the two snapshot files to the comparison files. -/
def snapshotComparison (newFile oldFile : List Char) :
    Except PyError (List (List Char × List Char)) := do
  let new ← readSnapshot none newFile
  let old ← readSnapshot new.currentSat oldFile
  comparisonLoop old.satTleMap new.satTleMap

theorem comparisonText_two (sat a b c d : List Char) (as cs : List (List Char)) :
    comparisonText sat (a :: b :: as) (c :: d :: cs) =
      .ok (sat ++ ['_', 'n', 'e', 'w'] ++ ['\n'] ++ mark '1' a ++ mark '1' b ++
        sat ++ ['_', 'o', 'l', 'd'] ++ ['\n'] ++ mark '2' c ++ mark '2' d) := rfl

theorem comparisonPath_inj {sat sat' : List Char} (h : comparisonPath sat = comparisonPath sat') :
    sat = sat' := by
  rw [comparisonPath, comparisonPath] at h
  exact List.append_cancel_left (List.append_cancel_right h)

/-- The file that an entry of the new map is written to. -/
def Written (oldMap : PyDict (List Char) (List (List Char)))
    (e : List Char × List (List Char)) (path text : List Char) : Prop :=
  ∃ old, oldMap.lookup e.1 = some old ∧ e.2 ≠ old ∧ path = comparisonPath e.1 ∧
    comparisonText e.1 e.2 old = .ok text

/-- What the loop writes for two maps whose entries have a first and a second line. -/
theorem comparisonLoop_ok {oldMap : PyDict (List Char) (List (List Char))}
    (hold : ∀ e ∈ oldMap, ∃ a b as, e.2 = a :: b :: as) :
    ∀ {newMap : PyDict (List Char) (List (List Char))},
      (∀ e ∈ newMap, ∃ a b as, e.2 = a :: b :: as) →
      ∃ files, comparisonLoop oldMap newMap = .ok files ∧
        (files.map Prod.fst).Sublist ((newMap.map Prod.fst).map comparisonPath) ∧
        ∀ path text, (path, text) ∈ files ↔ ∃ e ∈ newMap, Written oldMap e path text := by
  intro newMap
  induction newMap with
  | nil => exact fun _ => ⟨[], rfl, List.Sublist.refl _, by simp⟩
  | cons e newMap ih =>
      intro hnew
      obtain ⟨files, hloop, hsub, hmem⟩ := ih fun e he => hnew e (List.mem_cons_of_mem _ he)
      obtain ⟨a, b, as, hnew⟩ := hnew e List.mem_cons_self
      obtain ⟨sat, new⟩ := e
      have hsub' := hsub.cons (comparisonPath sat)
      -- an entry for which nothing is written leaves the files as they are
      have hskip : (∀ path text, ¬ Written oldMap (sat, new) path text) → ∀ path text,
          (path, text) ∈ files ↔ ∃ e ∈ (sat, new) :: newMap, Written oldMap e path text := by
        intro hno path text
        rw [hmem, List.exists_mem_cons_iff, or_iff_right (hno path text)]
      cases hl : oldMap.lookup sat with
      | none =>
          refine ⟨files, by rw [comparisonLoop, hl]; exact hloop, hsub', hskip ?_⟩
          rintro path text ⟨old, hold, -⟩
          cases hl.symm.trans hold
      | some old =>
          by_cases heq : new = old
          · refine ⟨files, by simp [comparisonLoop, hl, heq, hloop], hsub', hskip ?_⟩
            rintro path text ⟨old', hold', hne, -⟩
            exact hne (heq.trans (Option.some.inj (hl.symm.trans hold')))
          · obtain ⟨c, d, cs, hold⟩ := hold (sat, old) (mem_of_lookup hl)
            obtain ⟨text₀, htext⟩ : ∃ text, comparisonText sat new old = .ok text := by
              simp only at hnew hold
              exact ⟨_, hnew ▸ hold ▸ comparisonText_two sat a b c d as cs⟩
            refine ⟨(comparisonPath sat, text₀) :: files, ?_, hsub.cons_cons _, ?_⟩
            · simp [comparisonLoop, hl, heq, htext, hloop, ok_bind]
            · intro path text
              rw [List.mem_cons, List.exists_mem_cons_iff, hmem]
              refine or_congr_left ?_
              constructor
              · intro h
                obtain ⟨rfl, rfl⟩ := Prod.mk.inj h
                exact ⟨old, hl, heq, rfl, htext⟩
              · rintro ⟨old', hold', -, rfl, htext'⟩
                obtain rfl := Option.some.inj (hl.symm.trans hold')
                rw [Except.ok.inj (htext.symm.trans htext')]

/-! ## What is written -/

/-- `mark` puts its character in the third place, whatever ends the line. -/
theorem mark_append {c : Char} {line : List Char} (h : 3 ≤ line.length) (ending : List Char) :
    mark c (line ++ ending) = line.set 2 c ++ ending := by
  rw [mark, List.take_append_of_le_length (by omega), List.drop_append_of_le_length h,
    List.set_eq_take_append_cons_drop, if_pos (by omega)]
  simp

theorem mark_line2 {c : Char} {r : TleRecord} (h : 3 ≤ r.line2.length) (final : Bool) :
    mark c (r.terminate final).line2 = r.line2.set 2 c ++ if final then ['\n'] else [] := by
  cases final with
  | true => exact mark_append h ['\n']
  | false => simpa [TleRecord.terminate] using mark_append (c := c) h []

/-- The lines of a comparison. -/
def comparisonLines (sat : List Char) (r r' : TleRecord) : List (List Char) :=
  [sat ++ ['_', 'n', 'e', 'w'], r.line1.set 2 '1', r.line2.set 2 '1',
    sat ++ ['_', 'o', 'l', 'd'], r'.line1.set 2 '2', r'.line2.set 2 '2']

theorem set_line {line : List Char} (h : IsElementLine line) {c : Char} (hc : c ≠ '\n') :
    FitsLine (line.set 2 c) := by
  obtain ⟨-, hlen, hno⟩ := h
  refine ⟨?_, fun hm => ?_⟩
  · rw [ne_eq, List.set_eq_nil_iff]
    rintro rfl
    exact absurd hlen (by decide)
  · rcases List.mem_or_eq_of_mem_set hm with hm | hm
    · exact hno hm
    · exact hc hm.symm

/-- The six lines stand one by one exactly if the new elements end in a newline: the name
behind them is written on the same line otherwise. -/
theorem comparisonText_lines {sat : List Char} (hsat : '\n' ∉ sat) {r r' : TleRecord}
    (hr : IsElementLine r.line1 ∧ IsElementLine r.line2)
    (hr' : IsElementLine r'.line1 ∧ IsElementLine r'.line2) {final final' : Bool}
    {new old : List (List Char)} {text : List Char}
    (h : comparisonText sat ((r.terminate final).line1 :: (r.terminate final).line2 :: new)
      ((r'.terminate final').line1 :: (r'.terminate final').line2 :: old) = .ok text) :
    (fileLines text).map stripNewline = comparisonLines sat r r' ↔ final = true := by
  have hmark : ∀ {line : List Char}, IsElementLine line →
      FitsLine (line.set 2 '1') ∧ FitsLine (line.set 2 '2') :=
    fun h => ⟨set_line h (by decide), set_line h (by decide)⟩
  have hnew : FitsLine (sat ++ ['_', 'n', 'e', 'w']) :=
    .prepend hsat ⟨List.cons_ne_nil _ _, by decide⟩
  have hold : FitsLine (sat ++ ['_', 'o', 'l', 'd']) :=
    .prepend hsat ⟨List.cons_ne_nil _ _, by decide⟩
  rw [comparisonText_two, Except.ok.injEq, mark_line2 hr.2.2.1, mark_line2 hr'.2.2.1,
    TleRecord.terminate, TleRecord.terminate, mark_append hr.1.2.1, mark_append hr'.1.2.1] at h
  cases final with
  | true =>
      have hlines : ∀ line ∈ comparisonLines sat r r', FitsLine line := by
        simp only [comparisonLines, List.forall_mem_cons]
        exact ⟨hnew, (hmark hr.1).1, (hmark hr.2).1, hold, (hmark hr'.1).2, (hmark hr'.2).2,
          fun _ h => absurd h List.not_mem_nil⟩
      have htext : text = (endLines final' (comparisonLines sat r r')).flatten := by
        rw [← h]
        cases final' <;> simp [endLines, comparisonLines]
      rw [htext, texts_of_file final' hlines]
      exact iff_of_true rfl rfl
  | false =>
      let lines := [sat ++ ['_', 'n', 'e', 'w'], r.line1.set 2 '1',
        r.line2.set 2 '1' ++ (sat ++ ['_', 'o', 'l', 'd']), r'.line1.set 2 '2', r'.line2.set 2 '2']
      have hlines : ∀ line ∈ lines, FitsLine line := by
        simp only [lines, List.forall_mem_cons]
        exact ⟨hnew, (hmark hr.1).1, .prepend (hmark hr.2).1.2 hold, (hmark hr'.1).2,
          (hmark hr'.2).2, fun _ h => absurd h List.not_mem_nil⟩
      have htext : text = (endLines final' lines).flatten := by
        rw [← h]
        cases final' <;> simp [endLines, lines]
      rw [htext, texts_of_file final' hlines]
      refine iff_of_false (fun heq => ?_) Bool.false_ne_true
      cases congrArg List.length heq

/-! ## The comparison set -/

variable {new old : Snapshot} {newFile oldFile : List Char}

/-- The satellite of the two records has other elements in the new snapshot. -/
structure Changed (new old : Snapshot) (r r' : TleRecord) : Prop where
  inNew : r ∈ new.records
  inOld : r' ∈ old.records
  sat : r.sat = r'.sat
  elements : ¬ (r.line1 = r'.line1 ∧ r.line2 = r'.line2)

/-- There is a file for each satellite whose elements have changed and no other, and it
has the six lines of the satellite. -/
def ComparisonExact (newFile oldFile : List Char) (new old : Snapshot) : Prop :=
  ∃ files, snapshotComparison newFile oldFile = .ok files ∧ (files.map Prod.fst).Nodup ∧
    (∀ path, (∃ text, (path, text) ∈ files) ↔
      ∃ r r', Changed new old r r' ∧ path = comparisonPath r.sat) ∧
    ∀ r r' text, Changed new old r r' → (comparisonPath r.sat, text) ∈ files →
      (fileLines text).map stripNewline = comparisonLines r.sat r r'

/-- What the comparison needs of the snapshots. -/
structure Comparable (new old : Snapshot) : Prop where
  newFirst : KnowsFirst new.records
  oldFirst : KnowsFirst old.records
  /-- A satellite that has changed has a name of one word, and its new elements end in a
  newline. -/
  changed : ∀ {r r' post post'}, r :: post <:+ new.records → r' :: post' <:+ old.records →
    r.sat = r'.sat → ¬ (r.line1 = r'.line1 ∧ r.line2 = r'.line2) →
    IsNameLine r.name ∧ (new.final || !post.isEmpty) = true
  /-- Behind one that has not come the same records with names of several words, and they
  end alike. -/
  unchanged : ∀ {r r' post post'}, r :: post <:+ new.records → r' :: post' <:+ old.records →
    r.sat = r'.sat → r.line1 = r'.line1 ∧ r.line2 = r'.line2 → IsNameLine r.name →
    attached post = attached post' ∧ new.ends post = old.ends post'

theorem tleMap_two (s : Snapshot) : ∀ e ∈ s.tleMap, ∃ a b as, e.2 = a :: b :: as := by
  rintro ⟨sat, tle⟩ he
  obtain ⟨r, post, -, -, -, rfl⟩ := mem_tles.mp he
  exact ⟨_, _, _, ownLines_eq s.final r post⟩

/-- The script writes what the loop writes for the entries of the snapshots. -/
theorem snapshotComparison_ok (hnew : IsFileOf newFile new) (hold : IsFileOf oldFile old)
    (hn : KnowsFirst new.records) (ho : KnowsFirst old.records) :
    ∃ files, snapshotComparison newFile oldFile = .ok files ∧ (files.map Prod.fst).Nodup ∧
      ∀ path text, (path, text) ∈ files ↔
        ∃ e ∈ new.tleMap, Written old.tleMap e path text := by
  obtain ⟨files, hloop, hsub, hmem⟩ := comparisonLoop_ok (tleMap_two old) (tleMap_two new)
  obtain ⟨lastNew, hreadNew⟩ := Snapshot.readSnapshot_file none hnew hn
  obtain ⟨lastOld, hreadOld⟩ := Snapshot.readSnapshot_file lastNew hold ho
  have hpaths : ((new.tleMap.map Prod.fst).map comparisonPath).Nodup :=
    List.Nodup.map (fun _ _ => comparisonPath_inj) new.tleMap_nodup
  refine ⟨files, ?_, hpaths.sublist hsub, hmem⟩
  rw [snapshotComparison, hreadNew, ok_bind, hreadOld, ok_bind, hloop]

theorem snapshotComparison_first {files : List (List Char × List Char)}
    (hnew : IsFileOf newFile new) (hold : IsFileOf oldFile old)
    (h : snapshotComparison newFile oldFile = .ok files) :
    KnowsFirst new.records ∧ KnowsFirst old.records := by
  by_cases hn : KnowsFirst new.records
  · refine ⟨hn, ?_⟩
    by_contra ho
    obtain ⟨lastNew, hreadNew⟩ := Snapshot.readSnapshot_file none hnew hn
    rw [snapshotComparison, hreadNew, ok_bind, Snapshot.readSnapshot_stops lastNew hold ho] at h
    cases h
  · rw [snapshotComparison, Snapshot.readSnapshot_stops none hnew hn] at h
    cases h

/-- The file of a satellite in both snapshots. -/
theorem written_iff {r r' : TleRecord} {post post' : List TleRecord} {text : List Char}
    (hr : r :: post <:+ new.records) (hr' : r' :: post' <:+ old.records) (hsat : r.sat = r'.sat) :
    (∃ e ∈ new.tleMap, Written old.tleMap e (comparisonPath r.sat) text) ↔
      IsNameLine r.name ∧ ownLines new.final r post ≠ ownLines old.final r' post' ∧
        comparisonText r.sat (ownLines new.final r post) (ownLines old.final r' post') =
          .ok text := by
  have hnew : IsNameLine r.name → (r.sat, ownLines new.final r post) ∈ new.tleMap :=
    fun h => mem_tles.mpr ⟨r, post, hr, h, rfl, rfl⟩
  have hold : IsNameLine r'.name → (r.sat, ownLines old.final r' post') ∈ old.tleMap :=
    fun h => mem_tles.mpr ⟨r', post', hr', h, hsat, rfl⟩
  have hrec : r ∈ new.records := hr.subset List.mem_cons_self
  have hrec' : r' ∈ old.records := hr'.subset List.mem_cons_self
  constructor
  · rintro ⟨⟨sat, tle⟩, he, oldTle, hl, hne, hpath, htext⟩
    obtain rfl : r.sat = sat := comparisonPath_inj hpath
    obtain ⟨q, qpost, -, hq, hqsat, -⟩ := mem_tles.mp he
    have hname : IsNameLine r.name := Snapshot.name_of_sat hrec hqsat.symm hq
    have hname' : IsNameLine r'.name := Snapshot.name_of_sat hrec' hsat hname
    have htle := (lookup_eq_some new.tleMap_nodup).mpr he
    rw [(lookup_eq_some new.tleMap_nodup).mpr (hnew hname)] at htle
    rw [(lookup_eq_some old.tleMap_nodup).mpr (hold hname')] at hl
    obtain rfl := Option.some.inj htle
    obtain rfl := Option.some.inj hl
    exact ⟨hname, hne, htext⟩
  · rintro ⟨hname, hne, htext⟩
    have hname' : IsNameLine r'.name := Snapshot.name_of_sat hrec' hsat hname
    exact ⟨_, hnew hname, _, (lookup_eq_some old.tleMap_nodup).mpr (hold hname'), hne, rfl, htext⟩

theorem exists_suffix {s : Snapshot} {r : TleRecord} (h : r ∈ s.records) :
    ∃ post, r :: post <:+ s.records := by
  obtain ⟨pre, post, heq⟩ := List.append_of_mem h
  exact ⟨post, pre, heq.symm⟩

/-- The satellite of a record has one word if the script knows it. -/
theorem newline_not_mem_sat {r : TleRecord} (h : IsNameLine r.name) : '\n' ∉ r.sat := by
  intro hm
  cases (word_of_mem (sat_mem_words h)).2 '\n' hm

theorem comparisonText_own (sat : List Char) (final final' : Bool) (r r' : TleRecord)
    (post post' : List TleRecord) : ∃ text,
      comparisonText sat (ownLines final r post) (ownLines final' r' post') = .ok text := by
  rw [ownLines_eq, ownLines_eq]
  exact ⟨_, comparisonText_two sat _ _ _ _ _ _⟩

/-- The six lines of a satellite's file. -/
theorem written_lines {r r' : TleRecord} {post post' : List TleRecord} {text : List Char}
    (hr : r :: post <:+ new.records) (hr' : r' :: post' <:+ old.records)
    (hname : IsNameLine r.name)
    (h : comparisonText r.sat (ownLines new.final r post) (ownLines old.final r' post') =
      .ok text) :
    (fileLines text).map stripNewline = comparisonLines r.sat r r' ↔
      (new.final || !post.isEmpty) = true := by
  rw [ownLines_eq, ownLines_eq] at h
  exact comparisonText_lines (newline_not_mem_sat hname)
    (new.elements r (hr.subset List.mem_cons_self))
    (old.elements r' (hr'.subset List.mem_cons_self)) h

/-- Files of the satellites that have changed show that the snapshots can be compared. -/
theorem comparable_of_exact (hnew : IsFileOf newFile new) (hold : IsFileOf oldFile old)
    (h : ComparisonExact newFile oldFile new old) : Comparable new old := by
  obtain ⟨files, hscript, -, hpaths, hlines⟩ := h
  obtain ⟨hn, ho⟩ := snapshotComparison_first hnew hold hscript
  obtain ⟨files', hscript', -, hmem⟩ := snapshotComparison_ok hnew hold hn ho
  obtain rfl : files' = files := Except.ok.inj (hscript'.symm.trans hscript)
  refine ⟨hn, ho, ?_, ?_⟩
  · intro r r' post post' hr hr' hsat hne
    have hch : Changed new old r r' :=
      ⟨hr.subset List.mem_cons_self, hr'.subset List.mem_cons_self, hsat, hne⟩
    obtain ⟨text, htext⟩ := (hpaths _).mpr ⟨r, r', hch, rfl⟩
    obtain ⟨hname, -, hok⟩ := (written_iff hr hr' hsat).mp ((hmem _ _).mp htext)
    exact ⟨hname, (written_lines hr hr' hname hok).mp (hlines r r' text hch htext)⟩
  · intro r r' post post' hr hr' hsat heq hname
    -- a file for a satellite with the same elements would be one too many
    by_contra hdiff
    have hne : ownLines new.final r post ≠ ownLines old.final r' post' := by
      rw [ne_eq, Snapshot.ownLines_inj hr hr']
      exact fun h => hdiff ⟨h.1.2.2, h.2⟩
    obtain ⟨text, hok⟩ := comparisonText_own r.sat new.final old.final r r' post post'
    have hfile := (hmem _ _).mpr ((written_iff hr hr' hsat).mpr ⟨hname, hne, hok⟩)
    obtain ⟨q, q', hch, hpath⟩ := (hpaths _).mp ⟨text, hfile⟩
    have hq : r.sat = q.sat := comparisonPath_inj hpath
    have hq' : r'.sat = q'.sat := hsat.symm.trans (hq.trans hch.sat)
    obtain rfl := List.inj_on_of_nodup_map new.distinct (hr.subset List.mem_cons_self) hch.inNew hq
    obtain rfl :=
      List.inj_on_of_nodup_map old.distinct (hr'.subset List.mem_cons_self) hch.inOld hq'
    exact hch.elements heq

theorem exact_of_comparable (hnew : IsFileOf newFile new) (hold : IsFileOf oldFile old)
    (hcomp : Comparable new old) : ComparisonExact newFile oldFile new old := by
  obtain ⟨files, hscript, hnodup, hmem⟩ :=
    snapshotComparison_ok hnew hold hcomp.newFirst hcomp.oldFirst
  refine ⟨files, hscript, hnodup, fun path => ⟨?_, ?_⟩, ?_⟩
  · rintro ⟨text, htext⟩
    obtain ⟨⟨sat, tle⟩, he, oldTle, hl, hne, rfl, -⟩ := (hmem _ _).mp htext
    obtain ⟨r, post, hr, hname, rfl, rfl⟩ := mem_tles.mp he
    obtain ⟨r', post', hr', -, hsat, rfl⟩ := mem_tles.mp (mem_of_lookup hl)
    refine ⟨r, r', ⟨hr.subset List.mem_cons_self, hr'.subset List.mem_cons_self, hsat, ?_⟩, rfl⟩
    intro heq
    obtain ⟨hatt, hends⟩ := hcomp.unchanged hr hr' hsat heq hname
    exact hne ((Snapshot.ownLines_inj hr hr').mpr ⟨⟨heq.1, heq.2, hatt⟩, hends⟩)
  · rintro ⟨r, r', hch, rfl⟩
    obtain ⟨post, hr⟩ := exists_suffix hch.inNew
    obtain ⟨post', hr'⟩ := exists_suffix hch.inOld
    obtain ⟨hname, -⟩ := hcomp.changed hr hr' hch.sat hch.elements
    have hne : ownLines new.final r post ≠ ownLines old.final r' post' := by
      rw [ne_eq, Snapshot.ownLines_inj hr hr']
      exact fun h => hch.elements ⟨h.1.1, h.1.2.1⟩
    obtain ⟨text, hok⟩ := comparisonText_own r.sat new.final old.final r r' post post'
    exact ⟨text, (hmem _ _).mpr ((written_iff hr hr' hch.sat).mpr ⟨hname, hne, hok⟩)⟩
  · intro r r' text hch htext
    obtain ⟨post, hr⟩ := exists_suffix hch.inNew
    obtain ⟨post', hr'⟩ := exists_suffix hch.inOld
    obtain ⟨hname, -, hok⟩ := (written_iff hr hr' hch.sat).mp ((hmem _ _).mp htext)
    exact (written_lines hr hr' hname hok).mpr (hcomp.changed hr hr' hch.sat hch.elements).2

/-- **When the files are those of the satellites that have changed.** -/
theorem comparison_iff (hnew : IsFileOf newFile new) (hold : IsFileOf oldFile old) :
    ComparisonExact newFile oldFile new old ↔ Comparable new old :=
  ⟨comparable_of_exact hnew hold, exact_of_comparable hnew hold⟩

/-! ### Two days -/

/-- A line from its fields, each with the blanks behind it. -/
def ofFields (fields : List String) : List Char := fields.flatMap String.toList

/-- STARLINK-1128 in the new snapshot. -/
def starlink1128New : TleRecord where
  name := ofFields ["STARLINK-1128", "           "]
  line1 := ofFields ["1 44931C ", "20001T   ", "21326.16787881  ", ".00061450  ", "00000-0  ",
    "40216-2 0  3269"]
  line2 := ofFields ["2 44931  ", "53.0538 187.9678 ", "0001404  ", "73.9317 153.4169 ",
    "15.07204673    17"]

def starlink1128Old : TleRecord where
  name := ofFields ["STARLINK-1128", "           "]
  line1 := ofFields ["1 44931C ", "20001T   ", "21325.09380002  ", ".00044735  ", "00000-0  ",
    "29413-2 0  3256"]
  line2 := ofFields ["2 44931  ", "53.0538 192.7948 ", "0001384  ", "73.9737  82.6791 ",
    "15.07051151    19"]

/-- The satellite behind it, with a name of two words. -/
def starlink1130New : TleRecord where
  name := ofFields ["STARLINK-1130 ", "(DARKSAT) "]
  line1 := ofFields ["1 44932C ", "20001U   ", "21326.11182911  ", ".00007949  ", "00000-0  ",
    "53274-3 0  3260"]
  line2 := ofFields ["2 44932  ", "53.0508 188.2507 ", "0002089  ", "77.8136 136.2608 ",
    "15.06378904    17"]

def starlink1130Old : TleRecord where
  name := ofFields ["STARLINK-1130 ", "(DARKSAT) "]
  line1 := ofFields ["1 44932C ", "20001U   ", "21325.11492299  ", ".00007449  ", "00000-0  ",
    "49929-3 0  3258"]
  line2 := ofFields ["2 44932  ", "53.0513 192.7261 ", "0002038  ", "76.5709 128.3113 ",
    "15.06374566    19"]

def snapshot1130New : Snapshot :=
  ⟨[starlink1128New, starlink1130New], true, by decide +kernel, by decide +kernel, by decide⟩

def snapshot1130Old : Snapshot :=
  ⟨[starlink1128Old, starlink1130Old], true, by decide +kernel, by decide +kernel, by decide⟩

theorem noReturn_new : ∀ r ∈ snapshot1130New.records, ∀ line ∈ r.lines, '\r' ∉ line := by
  decide +kernel

theorem noReturn_old : ∀ r ∈ snapshot1130Old.records, ∀ line ∈ r.lines, '\r' ∉ line := by
  decide +kernel

/-- There is no file for STARLINK-1130 (DARKSAT). -/
theorem comparison_darksat : ¬ ∀ newFile oldFile new old, IsFileOf newFile new →
    IsFileOf oldFile old → ComparisonExact newFile oldFile new old := by
  intro h
  have hnew : IsFileOf snapshot1130New.text snapshot1130New := Snapshot.isFileOf_text noReturn_new
  have hold : IsFileOf snapshot1130Old.text snapshot1130Old := Snapshot.isFileOf_text noReturn_old
  have hcomp := comparable_of_exact hnew hold (h _ _ _ _ hnew hold)
  have hr : [starlink1130New] <:+ snapshot1130New.records := ⟨[starlink1128New], rfl⟩
  have hr' : [starlink1130Old] <:+ snapshot1130Old.records := ⟨[starlink1128Old], rfl⟩
  have hname := (hcomp.changed hr hr' (by decide) (by decide)).1
  exact absurd hname (by decide)

/-- The first satellite of a snapshot. -/
def Snapshot.front (s : Snapshot) : Snapshot where
  records := s.records.take 1
  final := true
  names r hr := s.names r (List.mem_of_mem_take hr)
  elements r hr := s.elements r (List.mem_of_mem_take hr)
  distinct := s.distinct.sublist ((List.take_sublist 1 s.records).map TleRecord.sat)

theorem eq_of_suffix_singleton {q r : TleRecord} {post : List TleRecord} (h : r :: post <:+ [q]) :
    r = q ∧ post = [] := by
  rcases List.suffix_cons_iff.mp h with h | h
  · exact List.cons.inj h
  · cases List.suffix_nil.mp h

/-- Without it, the files are right. -/
theorem comparison_1128 : ComparisonExact snapshot1130New.front.text snapshot1130Old.front.text
    snapshot1130New.front snapshot1130Old.front := by
  have hnew : IsFileOf snapshot1130New.front.text snapshot1130New.front :=
    Snapshot.isFileOf_text fun r hr => noReturn_new r (List.mem_of_mem_take hr)
  have hold : IsFileOf snapshot1130Old.front.text snapshot1130Old.front :=
    Snapshot.isFileOf_text fun r hr => noReturn_old r (List.mem_of_mem_take hr)
  refine (comparison_iff hnew hold).mpr ⟨by decide, by decide, ?_, ?_⟩
  · intro r r' post post' hr _ _ _
    obtain ⟨rfl, rfl⟩ := eq_of_suffix_singleton hr
    exact ⟨by decide, rfl⟩
  · intro r r' post post' hr hr' _ heq _
    obtain ⟨rfl, rfl⟩ := eq_of_suffix_singleton hr
    obtain ⟨rfl, rfl⟩ := eq_of_suffix_singleton hr'
    exact absurd heq (by decide)

end LeoEM
