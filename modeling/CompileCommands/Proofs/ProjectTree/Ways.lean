-- The ways to the files of a tree. Each file stands at the end of one way of names,
-- and the files are listed in the order of their ways: depth first, and in each
-- folder name by name.
import CompileCommands.Proofs.ProjectTree.Listing
import CompileCommands.Proofs.Utf8.Order
import Mathlib.Data.List.Basic

namespace CompileCommands

open Std

/-! ## Ways -/

mutual

/-- The names that lead down from a node to each of its files. -/
def Node.ways : Node → List (List String)
  | .file _ => [[]]
  | .folder _ _ children => waysOfEach children

/-- The names that lead to each file of some children. -/
def waysOfEach : List (String × Node) → List (List String)
  | [] => []
  | (name, node) :: rest => node.ways.map (name :: ·) ++ waysOfEach rest

end

theorem waysOfEach_eq (children : List (String × Node)) :
    waysOfEach children = children.flatMap fun child => child.2.ways.map (child.1 :: ·) := by
  induction children with
  | nil => rfl
  | cons child rest ih => rw [waysOfEach, ih, List.flatMap_cons]

theorem compare_cons_lt {name : String} {names more : List String} (h : compare names more = .lt) :
    compare (name :: names) (name :: more) = .lt := by
  rw [List.compare_cons_cons, ReflOrd.compare_self, Ordering.eq_then, h]

theorem compare_cons_lt_of_lt {name other : String} (h : compare name other = .lt)
    (names more : List String) : compare (name :: names) (other :: more) = .lt := by
  rw [List.compare_cons_cons, h, Ordering.lt_then]

namespace Node

variable {node : Node}

/-- The ways stand in the order of their names, so none of them stands twice. -/
theorem IsOrdered.ways_pairwise (h : node.IsOrdered) :
    node.ways.Pairwise fun a b => compare a b = .lt := by
  induction h with
  | file x => exact List.pairwise_singleton _ _
  | @folder path displayName children hnames _ ih =>
    rw [ways, waysOfEach_eq, List.pairwise_flatMap]
    refine ⟨fun child hchild => ?_, hnames.imp fun {child other} hlt => ?_⟩
    · exact List.pairwise_map.mpr ((ih child hchild).imp compare_cons_lt)
    · intro a ha b hb
      obtain ⟨names, -, rfl⟩ := List.mem_map.mp ha
      obtain ⟨more, -, rfl⟩ := List.mem_map.mp hb
      exact compare_cons_lt_of_lt hlt names more

/-- At the ends of the ways stand the files, one after another. -/
theorem IsOrdered.map_labelAt?_ways (h : node.IsOrdered) :
    node.ways.map node.labelAt? = node.files.map fun x => some (.file x) := by
  induction h with
  | file x => rfl
  | @folder path displayName children hnames _ ih =>
    rw [ways, waysOfEach_eq, files, filesOfEach_eq, nodesOf, List.flatMap_map, List.map_flatMap,
      List.map_flatMap]
    refine List.flatMap_congr fun child hchild => ?_
    rw [List.map_map, ← ih child hchild]
    refine List.map_congr_left fun names _ => ?_
    show labelAt? _ (child.1 :: names) = _
    rw [labelAt?, hnames.lookup hchild, Option.bind_some]

theorem mem_ways_of_labelAt? {names : List String} {x : FileNode}
    (h : node.labelAt? names = some (.file x)) : names ∈ node.ways := by
  induction names generalizing node with
  | nil =>
    cases node with
    | file y => exact List.mem_singleton_self _
    | folder path displayName children => cases h
  | cons name rest ih =>
    cases node with
    | file y => cases h
    | folder path displayName children =>
      obtain ⟨child, hchild, hlabel⟩ := Option.bind_eq_some_iff.mp h
      rw [ways, waysOfEach_eq]
      exact List.mem_flatMap.mpr
        ⟨(name, child), mem_of_lookup hchild, List.mem_map_of_mem (ih hlabel)⟩

theorem IsOrdered.mem_ways_iff (h : node.IsOrdered) {names : List String} :
    names ∈ node.ways ↔ ∃ x, node.labelAt? names = some (.file x) := by
  refine ⟨fun hnames => ?_, fun ⟨_, hlabel⟩ => mem_ways_of_labelAt? hlabel⟩
  have hlabel : node.labelAt? names ∈ node.ways.map node.labelAt? := List.mem_map_of_mem hnames
  rw [h.map_labelAt?_ways] at hlabel
  obtain ⟨x, -, hx⟩ := List.mem_map.mp hlabel
  exact ⟨x, hx.symm⟩

/-! ## The listing of a tree -/

/-- A file by itself, or what a folder lists. -/
def listing : Node → List FileNode
  | .file x => [x]
  | .folder path displayName children => Folder.files ⟨path, displayName, children⟩

theorem listing_eq (node : Node) : node.listing = node.files := by
  cases node with
  | file x => rfl
  | folder path displayName children => exact Folder.files_eq _

end Node

namespace Folder

/-- A folder lists its children one after another, each file by itself and each
folder as that one lists it. So there is one place in the listing for each way that
leads to a file, and the places are in the order of the bytes of the names. -/
theorem files_follow_ways (f : Folder) (h : f.IsOrdered) :
    f.files = f.children.flatMap (·.2.listing) ∧
      ∃ ways : List (List String),
        ways.Pairwise (fun a b => a.map Utf8.ofText < b.map Utf8.ofText) ∧
        (∀ names, names ∈ ways ↔ ∃ x, f.labelAt? names = some (.file x)) ∧
        ways.map f.labelAt? = f.files.map fun x => some (.file x) := by
  refine ⟨?_, f.toNode.ways, ?_, fun names => h.mem_ways_iff, ?_⟩
  · simp only [Node.listing_eq]
    rw [files, filesOfStack_eq, nodesOf, List.flatMap_map]
  · exact h.ways_pairwise.imp Utf8.map_ofText_lt_of_compare
  · rw [files_eq]
    exact h.map_labelAt?_ways

/-- Three roots under one top, of which one is empty and one stands under its whole
path because its name was taken. -/
def umbrella : Folder :=
  (((named ⟨""⟩ "roots").addChild "p"
    (((named ⟨"/p"⟩ "p").addFile ⟨⟨"/p/a.c"⟩, .source, true⟩).2.addFile
      ⟨⟨"/p/a/z.c"⟩, .source, true⟩).2.toNode).addChild "p"
    ((named ⟨"/q/p"⟩ "p").addFile ⟨⟨"/q/p/b.h"⟩, .header, false⟩).2.toNode).addChild "empty"
    (named ⟨"/empty"⟩ "empty").toNode

theorem files_follow_ways_umbrella :
    umbrella.IsOrdered ∧
      umbrella.files.map (·.path.text) = ["/q/p/b.h", "/p/a/z.c", "/p/a.c"] ∧
      umbrella.files = umbrella.children.flatMap (·.2.listing) ∧
      ∃ ways : List (List String),
        ways.Pairwise (fun a b => a.map Utf8.ofText < b.map Utf8.ofText) ∧
        ["p", "a", "z.c"] ∈ ways ∧ ["empty"] ∉ ways ∧
        ways.map umbrella.labelAt? = umbrella.files.map fun x => some (.file x) := by
  have hordered : umbrella.IsOrdered :=
    (((named_isOrdered _ _).addChild (((named_isOrdered _ _).addFile _).addFile _)).addChild
      ((named_isOrdered _ _).addFile _)).addChild (named_isOrdered _ _)
  obtain ⟨hchildren, ways, hsorted, hmem, hlabels⟩ := umbrella.files_follow_ways hordered
  have hfile : umbrella.labelAt? ["p", "a", "z.c"] =
      some (.file ⟨⟨"/p/a/z.c"⟩, .source, true⟩) := by decide +kernel
  have hempty : umbrella.labelAt? ["empty"] = some (.folder ⟨"/empty"⟩ "empty") := by
    decide +kernel
  refine ⟨hordered, ?_, hchildren, ways, hsorted, (hmem _).mpr ⟨_, hfile⟩, fun hways => ?_, hlabels⟩
  · rw [files_eq]
    decide +kernel
  · obtain ⟨x, hx⟩ := (hmem _).mp hways
    rw [hempty] at hx
    cases hx

end Folder

end CompileCommands
