-- Records of one command template. They have the same flags once the files of
-- their own unit are dropped, so they stand in one group, and in one part.
import CompileCommands.Proofs.BuildPart.Partition
import CompileCommands.Proofs.Database.Writing
import CompileCommands.Proofs.Flags.Template

namespace CompileCommands

open Database Flags Record

/-! ## Units of a template -/

/-- The draft is read as the record, and its tokens are the template with the
base name of its file. -/
structure IsUnit (fs : FileSystem) (template : List TemplateToken) (baseName : String)
    (d : Draft) (r : PlainRecord) : Prop where
  record : recordOf fs d = some r
  named : r.sourceFile.baseName = baseName
  tokens : tokensOf d = fillAll template baseName

/-- The part is made of a group with both records in it, and has both files. -/
def BuildPart.IsShared (ctx : BuildContext) (contents : Contents) (part : BuildPart)
    (r r' : PlainRecord) : Prop :=
  ∃ g ∈ groupRecords contents.records, part.IsOf ctx contents g ∧
    ∀ s ∈ [r, r'], s ∈ plainMembers contents g ∧
      ∃ file ∈ part.files.toList, file.same s.sourceFile = true

theorem IsUnit.flags {fs : FileSystem} {template : List TemplateToken} {baseName : String}
    {d : Draft} {r : PlainRecord} (h : IsUnit fs template baseName d r) :
    r.flags = withoutUnit (fillAll template baseName) baseName := by
  obtain ⟨-, -, hflags⟩ := recordOf_eq_some h.record
  rw [hflags, h.tokens, h.named]

/-- What is left of a template is the same for all units. So in any database the
records of two units have the same flags, and one part holds both of them. -/
theorem template_units_share_part {template : List TemplateToken} {base base' : String}
    (hbase : Fits template base) (hbase' : Fits template base') :
    withoutUnit (fillAll template base) base = withoutUnit (fillAll template base') base' ∧
      ∀ (fs : FileSystem) (database : Path) (suffix : String) (bytes : List UInt8)
        (ctx : BuildContext) (env : BuildEnvironment) (d d' : Draft) (r r' : PlainRecord),
        d ∈ drafts bytes → d' ∈ drafts bytes →
        IsUnit fs template base d r → IsUnit fs template base' d' r' →
        let contents := (parse fs database suffix bytes).1
        r.flags = r'.flags ∧
          ∃ part ∈ (BuildDescription.ofContentsIn ctx env contents).1.parts,
            part.IsShared ctx contents r r' := by
  have hsame : withoutUnit (fillAll template base) base =
      withoutUnit (fillAll template base') base' := by
    rw [withoutUnit_fillAll hbase, withoutUnit_fillAll hbase']
  refine ⟨hsame, ?_⟩
  intro fs database suffix bytes ctx env d d' r r' hd hd' hunit hunit' contents
  have hflags : r.flags = r'.flags := by rw [hunit.flags, hunit'.flags, hsame]
  refine ⟨hflags, ?_⟩
  have hr : r ∈ (readRecords fs database bytes).plain := mem_plain_of_recordOf hd hunit.record
  have hr' : r' ∈ (readRecords fs database bytes).plain := mem_plain_of_recordOf hd' hunit'.record
  obtain ⟨g, hg, hgroup⟩ := exists_group suffix hr
  obtain ⟨part, hpart, hof⟩ := exists_part ctx env hg
  refine ⟨part, hpart, g, hg, hof, ?_⟩
  have hmem := (mem_plainMembers hg).mpr ⟨hr, hgroup⟩
  have hmem' := (mem_plainMembers hg).mpr ⟨hr', hflags.symm.trans hgroup⟩
  simp only [List.forall_mem_cons]
  exact ⟨⟨hmem, exists_file hof hmem⟩, ⟨hmem', exists_file hof hmem'⟩, nofun⟩

/-- A unit with an object and a list of its headers, each called like it. -/
def objectTemplate : List TemplateToken :=
  [.fixed "cc", .fixed "-MF", .ownFile ⟨"deps/", "d", .inr ⟨'/', rfl, rfl⟩, by decide⟩,
    .fixed "-o", .ownFile ⟨"", "o", .inl rfl, by decide⟩,
    .fixed "-c", .ownFile ⟨"src\\", "c", .inr ⟨'\\', rfl, rfl⟩, by decide⟩]

/-- Two units of the template, in two directories. -/
def unitA : Written := ⟨"/proj", "/proj/src/a.c", fillAll objectTemplate "a"⟩

def unitB : Written := ⟨"/lib", "/lib/src/b2.c", fillAll objectTemplate "b2"⟩

/-- The two units, with a record of no template between them. -/
def twoUnits : List Written := [unitA, ⟨"/proj", "/proj/x.c", ["cc"]⟩, unitB]

theorem template_units_share_part_twoUnits :
    let bytes := Utf8.ofText (writtenText twoUnits)
    let contents := (parse .empty ⟨"/proj/db"⟩ ".files" bytes).1
    let ctx : BuildContext := ⟨⟨"/proj/db"⟩, .empty, .unix⟩
    let env : BuildEnvironment := ⟨⟨none, none⟩, some ⟨"/sysroot"⟩⟩
    Fits objectTemplate "a" ∧ Fits objectTemplate "b2" ∧
      unitA.draft ∈ drafts bytes ∧ unitB.draft ∈ drafts bytes ∧
      IsUnit .empty objectTemplate "a" unitA.draft (plainOf unitA) ∧
      IsUnit .empty objectTemplate "b2" unitB.draft (plainOf unitB) ∧
      (plainOf unitA).flags = (plainOf unitB).flags ∧
      ∃ part ∈ (BuildDescription.ofContentsIn ctx env contents).1.parts,
        part.IsShared ctx contents (plainOf unitA) (plainOf unitB) := by
  intro bytes contents ctx env
  have hfits : ∀ base ∈ ["a", "b2"], Fits objectTemplate base := by
    have hnames : ∀ base ∈ ["a", "b2"], base ≠ "" ∧ IsPlain base := by decide
    have hfixed : ∀ base ∈ ["a", "b2"], ∀ text ∈ ["cc", "-MF", "-o", "-c"],
        mentions base text = false := by decide
    intro base hbase
    refine ⟨(hnames base hbase).1, (hnames base hbase).2, fun text htext => ?_⟩
    exact hfixed base hbase text (by simpa [objectTemplate] using htext)
  have hdrafts : drafts bytes = twoUnits.map Written.draft := drafts_writtenText twoUnits
  have hA : unitA.draft ∈ drafts bytes := by simp [hdrafts, twoUnits]
  have hB : unitB.draft ∈ drafts bytes := by simp [hdrafts, twoUnits]
  have habsolute : ∀ w ∈ [unitA, unitB], (Path.ofNative w.file).isAbsolute = true := by decide
  have hmissing : ∀ w ∈ [unitA, unitB], IsMissing .empty w :=
    fun w hw => IsMissing.of_isAbsolute .empty (habsolute w hw)
  have hunitA : IsUnit .empty objectTemplate "a" unitA.draft (plainOf unitA) :=
    ⟨recordOf_draft (hmissing unitA (by simp)), by decide +kernel, tokensOf_draft unitA⟩
  have hunitB : IsUnit .empty objectTemplate "b2" unitB.draft (plainOf unitB) :=
    ⟨recordOf_draft (hmissing unitB (by simp)), by decide +kernel, tokensOf_draft unitB⟩
  have hfitsA := hfits "a" (by simp)
  have hfitsB := hfits "b2" (by simp)
  refine ⟨hfitsA, hfitsB, hA, hB, hunitA, hunitB, ?_⟩
  exact (template_units_share_part hfitsA hfitsB).2 .empty ⟨"/proj/db"⟩ ".files" bytes ctx
    env unitA.draft unitB.draft _ _ hA hB hunitA hunitB

end CompileCommands
