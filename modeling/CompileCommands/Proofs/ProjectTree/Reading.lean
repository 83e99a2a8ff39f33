-- Trees and how names are read. A tree looks names up as they are read. If the
-- names below its root are read as they stand, it is the tree of those names
-- themselves. Names that are Unicode are read so, and others are not.
import CompileCommands.ProjectTree.Building
import CompileCommands.Proofs.Path.NormalForm
import CompileCommands.Proofs.Utf8.Decoding
import Mathlib.Data.List.Basic

namespace CompileCommands

/-! ## Names that are read as they stand -/

namespace Reading

/-- No character of the name stands for a byte. -/
def IsUnicode (name : String) : Prop := ∀ c ∈ name.toList, byte? c = none

instance : DecidablePred IsUnicode := fun name =>
  List.decidableBAll (fun c => byte? c = none) name.toList

theorem bytesOf_of_unicode {name : String} (h : IsUnicode name) :
    bytesOf name = Utf8.ofText name := by
  unfold bytesOf Utf8.ofText Utf8.encode
  apply List.flatMap_congr
  intro c hc
  rw [h c hc]

/-- The character for a byte in a name that is not Unicode. -/
def stray (b : UInt8) : Char := Char.ofNat (b.toNat + 0x10FE00)

theorem byte?_stray {b : UInt8} (h : 0x80 ≤ b) : byte? (stray b) = some b := by
  have hlow : 0x80 ≤ b.toNat := UInt8.le_iff_toNat_le.mp h
  have hhigh : b.toNat < 256 := b.toNat_lt
  have hvalid : (b.toNat + 0x10FE00).isValidChar := Or.inr ⟨by omega, by omega⟩
  have hnumber : (stray b).toNat = b.toNat + 0x10FE00 := by
    unfold stray
    rw [Char.ofNat, dif_pos hvalid]
    rfl
  unfold byte?
  rw [hnumber, if_pos (by simp; omega), Nat.add_sub_cancel, UInt8.ofNat_toNat]

/-- All bytes that are no characters on their own are read as the same one. -/
theorem lossy_read_stray {b : UInt8} (h : 0x80 ≤ b) :
    lossy.read (String.ofList [stray b]) = "\uFFFD" := by
  have hbytes : bytesOf (String.ofList [stray b]) = [b] := by
    simp [bytesOf, byte?_stray h]
  have hlossy : Utf8.lossy (bytesOf (String.ofList [stray b])) = [Utf8.replacement] := by
    rw [hbytes, Utf8.lossy_byte h]
  exact congrArg String.ofList hlossy

/-- No byte of a Unicode name is replaced. -/
theorem lossy_read {name : String} (h : IsUnicode name) : lossy.read name = name := by
  have hbytes : Utf8.lossy (bytesOf name) = name.toList := by
    rw [bytesOf_of_unicode h]
    exact Utf8.lossy_encode name.toList
  exact (congrArg String.ofList hbytes).trans String.ofList_toList

end Reading

namespace Path

/-- The names that lead from `root` to the path are read as they stand. -/
def IsReadFrom [Reading] (p root : Path) : Prop :=
  ∀ name ∈ (p.components.drop root.components.length).filterMap Component.name?,
    Reading.read name = name

/-- The text of the path and its last name are read as they stand. -/
def IsRead [Reading] (p : Path) : Prop :=
  Reading.read p.text = p.text ∧
    Reading.read (p.fileName?.getD p.text) = p.fileName?.getD p.text

section Unicode

variable {p : Path} (h : Reading.IsUnicode p.text)
include h

theorem isReadFrom_lossy (root : Path) : @IsReadFrom .lossy p root := by
  intro name hname
  obtain ⟨c, hc, hname⟩ := List.mem_filterMap.mp hname
  cases c <;> cases hname
  have hmem : .normal name ∈ p.components := List.mem_of_mem_drop hc
  exact Reading.lossy_read fun c hc => h c (mem_text_of_normal hmem hc)

theorem isRead_lossy : @IsRead .lossy p := by
  refine ⟨Reading.lossy_read h, Reading.lossy_read fun c hc => ?_⟩
  cases hname : p.fileName? with
  | none => exact h c (by rwa [hname] at hc)
  | some name =>
    rw [hname] at hc
    obtain ⟨last, hlast, hnormal⟩ := Option.bind_eq_some_iff.mp hname
    cases last <;> cases hnormal
    exact h c (mem_text_of_normal (List.mem_of_getLast? hlast) hc)

end Unicode

variable [Reading] {p root : Path}

theorem IsReadFrom.congr {q : Path} (h : p.IsReadFrom root) (hsame : p.same q = true) :
    q.IsReadFrom root := by
  unfold IsReadFrom at h ⊢
  rwa [← beq_iff_eq.mp hsame]

theorem Leads.isReadFrom_iff {names : List String} (h : root.Leads names p) :
    p.IsReadFrom root ↔ ∀ name ∈ names, Reading.read name = name := by
  have hnames : (names.map Component.normal).filterMap Component.name? = names := by
    simp [List.filterMap_map, Function.comp_def, Component.name?]
  unfold Leads at h
  unfold IsReadFrom
  rw [h, List.drop_left, hnames]

theorem IsReadFrom.namesBelow? (h : p.IsReadFrom root) :
    p.namesBelow? root = @Path.namesBelow? .unicode p root := by
  have hmap := List.map_congr_left h
  unfold Path.namesBelow?
  split
  · exact congrArg some hmap
  · rfl

theorem Leads.displayName_unicode {names : List String} {name : String}
    (h : root.Leads (names ++ [name]) p) (hread : p.IsReadFrom root) :
    p.displayName = @Path.displayName .unicode p := by
  rw [h.displayName]
  unfold Path.displayName
  rw [h.fileName?, Option.getD_some]
  exact h.isReadFrom_iff.mp hread name (by simp)

/-- The way to the folder of a path is that of its names themselves. -/
theorem IsReadFrom.parent (h : p.IsReadFrom root) (hnamed : p.IsNamedFrom root) :
    p.parent?.bind (·.namesBelow? root) =
      p.parent?.bind (@Path.namesBelow? .unicode · root) := by
  cases hdirs : p.parent?.bind (@Path.namesBelow? .unicode · root) with
  | some dirs =>
    obtain ⟨name, hleads⟩ := hnamed.exists_leads_of_parent hdirs
    obtain ⟨q, hparent, hq⟩ := hleads.exists_parent
    have hread : q.IsReadFrom root := hq.isReadFrom_iff.mpr fun dir hdir =>
      hleads.isReadFrom_iff.mp h dir (List.mem_append_left _ hdir)
    rw [hparent, Option.bind_some, hread.namesBelow?, hq.namesBelow?]
  | none =>
    -- Whether there is a way does not depend on the names on it.
    cases hparent : p.parent? with
    | none => rfl
    | some q =>
      rw [hparent, Option.bind_some] at hdirs
      rw [Option.bind_some]
      unfold Path.namesBelow? at hdirs ⊢
      split at hdirs
      · cases hdirs
      · rename_i hstarts
        exact if_neg hstarts

end Path

/-- The path below `/p` that is called by one byte. -/
def strayPath (b : UInt8) : Path := ⟨"/p/" ++ String.ofList [Reading.stray b]⟩

/-! ## Requests to a tree -/

namespace Folder

variable [Reading] {f : Folder}

theorem folderFor_unicode {dir : Path} (h : dir.IsReadFrom f.path) :
    f.folderFor dir = @folderFor .unicode f dir := by
  unfold folderFor
  rw [h.namesBelow?]

theorem insertFile_unicode {file : FileNode}
    (h : file.path.displayName = @Path.displayName .unicode file.path) :
    insertFile file = @insertFile .unicode file := by
  unfold insertFile
  rw [h]

theorem addFile_unicode {file : FileNode} (h : file.path.IsReadFrom f.path)
    (hnamed : file.path.IsNamedFrom f.path) : f.addFile file = @addFile .unicode f file := by
  unfold addFile
  rw [h.parent hnamed]
  cases hdirs : file.path.parent?.bind (@Path.namesBelow? .unicode · f.path) with
  | none => rfl
  | some dirs =>
    obtain ⟨name, hleads⟩ := hnamed.exists_leads_of_parent hdirs
    simp only [insertFile_unicode (hleads.displayName_unicode h)]

theorem addMarker_unicode {m : Path} (h : m.IsRead) : f.addMarker m = @addMarker .unicode f m := by
  have hname : m.displayName = @Path.displayName .unicode m := h.2
  have htext : Reading.read (Node.file ⟨m, .project, true⟩).path.text = m.text := h.1
  unfold addMarker addChild
  rw [hname, htext]
  rfl

theorem foldl_addMarker_unicode {markers : List Path} (h : ∀ m ∈ markers, m.IsRead) :
    markers.foldl addMarker f = markers.foldl (@addMarker .unicode) f := by
  induction markers generalizing f with
  | nil => rfl
  | cons m markers ih =>
    obtain ⟨hm, hrest⟩ := List.forall_mem_cons.mp h
    rw [List.foldl_cons, addMarker_unicode hm]
    exact ih hrest

end Folder

end CompileCommands
