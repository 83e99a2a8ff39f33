-- Two spellings of one file. A relative file is looked up from the directory of its
-- record, but an absolute one is taken by its text. So the two spellings lead to the
-- same source file, unless a link leads the lookup elsewhere than the text.
import CompileCommands.Proofs.Database.Writing
import CompileCommands.Proofs.FileSystem.Walk
import CompileCommands.Proofs.Path.Normal

namespace CompileCommands.Database

open CompileCommands.Path FileSystem Record Utf8

/-! ## Lookups and texts -/

section Lookup

variable {fs : FileSystem} {p : Path}

theorem canonicalOrNormal_of_follow {names : List String}
    (h : fs.follow .stepwise p = .ok names) : canonicalOrNormal fs p = pathOf names := by
  unfold canonicalOrNormal canonical
  rw [h]
  rfl

theorem canonicalOrNormal_of_not_isDiverted (habsolute : p.isAbsolute = true)
    (h : ¬ fs.IsDiverted p) : canonicalOrNormal fs p = p.normalize := by
  cases hfollow : fs.follow .stepwise p with
  | error e =>
    unfold canonicalOrNormal canonical
    rw [hfollow]
    rfl
  | ok names =>
    have hnames : names = textNames p :=
      Decidable.byContradiction fun hne => h ⟨names, hfollow, hne⟩
    rw [canonicalOrNormal_of_follow hfollow, hnames, normalize_eq_pathOf habsolute, textNames]

theorem not_same_of_isDiverted (habsolute : p.isAbsolute = true) (h : fs.IsDiverted p) :
    (canonicalOrNormal fs p).same p.normalize = false := by
  obtain ⟨names, hfollow, hne⟩ := h
  have hnames := follow_areNames habsolute hfollow
  rw [canonicalOrNormal_of_follow hfollow, normalize_eq_pathOf habsolute, ← textNames,
    ← Bool.not_eq_true, pathOf_same_iff hnames (textNames_areNames p)]
  exact hne

end Lookup

/-! ## Records of one file -/

/-- The second record names the file of the first one, but with the absolute
directory of the first one before it. -/
structure IsRespelled (d d' : Draft) : Prop where
  named : d.fileText ≠ ""
  relative : (ofNative d.fileText).isAbsolute = false
  directory : (ofNative d.directoryText).isAbsolute = true
  joined : ofNative d'.fileText = (ofNative d.directoryText).join (ofNative d.fileText)

theorem exists_recordOf (fs : FileSystem) {d : Draft} (h : d.fileText ≠ "") :
    ∃ r, recordOf fs d = some r := by
  unfold recordOf
  rw [if_neg h]
  exact ⟨_, rfl⟩

namespace IsRespelled

variable {fs : FileSystem} {d d' : Draft} {r r' : PlainRecord}

theorem absolute (h : IsRespelled d d') : (ofNative d'.fileText).isAbsolute = true := by
  rw [h.joined, isAbsolute_join, h.directory, Bool.or_true]

theorem named_absolute (h : IsRespelled d d') : d'.fileText ≠ "" :=
  ne_of_isAbsolute_ofNative h.absolute

theorem sourceFile_relative (h : IsRespelled d d') (hr : recordOf fs d = some r) :
    r.sourceFile = canonicalOrNormal fs (ofNative d'.fileText) := by
  obtain ⟨hdirectory, hfile, -⟩ := recordOf_eq_some hr
  rw [hfile, sourceFileOf, if_neg (Bool.eq_false_iff.mp h.relative), hdirectory, h.joined]

theorem sourceFile_absolute (h : IsRespelled d d') (hr : recordOf fs d' = some r') :
    r'.sourceFile = (ofNative d'.fileText).normalize := by
  obtain ⟨-, hfile, -⟩ := recordOf_eq_some hr
  rw [hfile, sourceFileOf, if_pos h.absolute]

end IsRespelled

/-- Both spellings of a file are read. Their records have the same source file just if
the lookup ends where the text leads, or does not end. Else they have different ones,
and the text comes to a link. -/
theorem sourceFile_eq_iff_not_isDiverted (fs : FileSystem) (source : Path) (bytes : List UInt8)
    {d d' : Draft} (hd : d ∈ drafts bytes) (hd' : d' ∈ drafts bytes) (h : IsRespelled d d') :
    ∃ r r', recordOf fs d = some r ∧ recordOf fs d' = some r' ∧
      r ∈ (readRecords fs source bytes).plain ∧ r' ∈ (readRecords fs source bytes).plain ∧
      (r.sourceFile = r'.sourceFile ↔ ¬ fs.IsDiverted (ofNative d'.fileText)) ∧
      (fs.IsDiverted (ofNative d'.fileText) → r.sourceFile.same r'.sourceFile = false ∧
        fs.MeetsLink (ofNative d'.fileText)) := by
  obtain ⟨r, hr⟩ := exists_recordOf fs h.named
  obtain ⟨r', hr'⟩ := exists_recordOf fs h.named_absolute
  refine ⟨r, r', hr, hr', mem_plain_of_recordOf hd hr, mem_plain_of_recordOf hd' hr', ?_⟩
  rw [h.sourceFile_relative hr, h.sourceFile_absolute hr']
  constructor
  · constructor
    · intro heq hdiverted
      have hsame := not_same_of_isDiverted h.absolute hdiverted
      rw [heq] at hsame
      exact absurd hsame (by simp [same])
    · exact canonicalOrNormal_of_not_isDiverted h.absolute
  · intro hdiverted
    exact ⟨not_same_of_isDiverted h.absolute hdiverted, hdiverted.meetsLink h.absolute⟩

/-! ## A directory behind a link -/

/-- A directory with a file in it, and a link to the directory. -/
def linkedDirectory : FileSystem :=
  ⟨.directory [("proj", .directory [("real", .directory [("a.c", .file [])]),
    ("link", .link "real")])], none⟩

/-- A file that is seen from the link. -/
def seenFromLink (file : String) : Written := ⟨"/proj/link", file, ["cc"]⟩

/-- The text of a database that names a file below the link in both ways. -/
def bothSpellings (file : String) : List UInt8 :=
  ofText (writtenText [seenFromLink file, seenFromLink ("/proj/link/" ++ file)])

theorem mem_drafts_bothSpellings (file : String) :
    (seenFromLink file).draft ∈ drafts (bothSpellings file) ∧
      (seenFromLink ("/proj/link/" ++ file)).draft ∈ drafts (bothSpellings file) := by
  rw [bothSpellings, drafts_writtenText]
  simp

theorem isRespelled_ofLink :
    IsRespelled (seenFromLink "a.c").draft (seenFromLink "/proj/link/a.c").draft where
  named := (by decide : "a.c" ≠ "")
  relative := by decide
  directory := by decide
  joined := by decide

theorem isRespelled_besideLink :
    IsRespelled (seenFromLink "../real/a.c").draft
      (seenFromLink "/proj/link/../real/a.c").draft where
  named := (by decide : "../real/a.c" ≠ "")
  relative := by decide
  directory := by decide
  joined := by decide

/-- Below the link, the file has two places. Named from the directory above, it has
one, though both spellings go through the link. -/
theorem sourceFile_eq_iff_not_isDiverted_ofLink :
    linkedDirectory.IsDiverted ⟨"/proj/link/a.c"⟩ ∧
      ¬ linkedDirectory.IsDiverted ⟨"/proj/link/../real/a.c"⟩ ∧
      (∃ r r', recordOf linkedDirectory (seenFromLink "a.c").draft = some r ∧
        recordOf linkedDirectory (seenFromLink "/proj/link/a.c").draft = some r' ∧
        r.sourceFile.same r'.sourceFile = false) ∧
      ∃ r r', recordOf linkedDirectory (seenFromLink "../real/a.c").draft = some r ∧
        recordOf linkedDirectory (seenFromLink "/proj/link/../real/a.c").draft = some r' ∧
        r.sourceFile = r'.sourceFile := by
  have hfollow : ∀ p ∈ [(⟨"/proj/link/a.c"⟩ : Path), ⟨"/proj/link/../real/a.c"⟩],
      linkedDirectory.follow .stepwise p = .ok ["proj", "real", "a.c"] := by decide +kernel
  have hdiverted : linkedDirectory.IsDiverted ⟨"/proj/link/a.c"⟩ :=
    ⟨_, hfollow _ (by simp), by decide +kernel⟩
  have hstraight : ¬ linkedDirectory.IsDiverted ⟨"/proj/link/../real/a.c"⟩ := by
    rintro ⟨names, hnames, hne⟩
    rw [hfollow _ (by simp)] at hnames
    obtain rfl := Except.ok.inj hnames
    exact hne (by decide +kernel)
  obtain ⟨hd, hd'⟩ := mem_drafts_bothSpellings "a.c"
  obtain ⟨r, r', hr, hr', -, -, -, hapart⟩ := sourceFile_eq_iff_not_isDiverted linkedDirectory
    ⟨"db"⟩ (bothSpellings "a.c") hd hd' isRespelled_ofLink
  obtain ⟨hb, hb'⟩ := mem_drafts_bothSpellings "../real/a.c"
  obtain ⟨q, q', hq, hq', -, -, hone, -⟩ := sourceFile_eq_iff_not_isDiverted linkedDirectory
    ⟨"db"⟩ (bothSpellings "../real/a.c") hb hb' isRespelled_besideLink
  exact ⟨hdiverted, hstraight, ⟨r, r', hr, hr', (hapart hdiverted).1⟩, q, q', hq, hq',
    hone.mpr hstraight⟩

/-- One file gets two source files, if its directory is behind a link. -/
theorem not_sourceFile_eq_of_isRespelled :
    ¬ ∀ (fs : FileSystem) (bytes : List UInt8), ∀ d ∈ drafts bytes, ∀ d' ∈ drafts bytes,
      d'.directoryText = d.directoryText → IsRespelled d d' → ∀ r r',
        recordOf fs d = some r → recordOf fs d' = some r' → r.sourceFile = r'.sourceFile := by
  intro hall
  obtain ⟨hd, hd'⟩ := mem_drafts_bothSpellings "a.c"
  obtain ⟨r, hr⟩ := exists_recordOf linkedDirectory isRespelled_ofLink.named
  obtain ⟨r', hr'⟩ := exists_recordOf linkedDirectory isRespelled_ofLink.named_absolute
  have heq := hall linkedDirectory _ _ hd _ hd' rfl isRespelled_ofLink r r' hr hr'
  rw [isRespelled_ofLink.sourceFile_relative hr, isRespelled_ofLink.sourceFile_absolute hr'] at heq
  exact absurd heq (by decide +kernel)

end CompileCommands.Database
