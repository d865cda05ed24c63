import Mathlib.Data.List.Sort
import Mathlib.Data.String.Basic
import U2os.Lib.Table

/-!
# File trees

Directories and files by their paths.  A file has a content, of any type; links and special files
are only known to be there.

## Main results

* `FileTree.node?_set`, `FileTree.node?_remove`, `FileTree.node?_rename` : reading after writing.
-/

namespace U2os

open List Option

/-- What is found at a path. -/
inductive Node (β : Type*) where
  /-- A regular file with one link. -/
  | file (content : β)
  | dir
  /-- A link, a special file, or a file with several links. -/
  | other

/-- The content of a file. -/
def Node.content? {β : Type*} : Node β → Option β
  | file content => some content
  | _ => none

/-- The node is a directory. -/
def Node.isDir {β : Type*} : Node β → Bool
  | dir => true
  | _ => false

/-- A node at its path. -/
structure FileEntry (β : Type*) where
  path : List String
  node : Node β

/-- The nodes of a file tree. -/
abbrev FileTree (β : Type*) := Table (FileEntry β) FileEntry.path

namespace FileTree

variable {β : Type*} {t : FileTree β} {p q x : List String} {n : Node β}

/-- What is found at a path. -/
def node? (t : FileTree β) (p : List String) : Option (Node β) := (t.find p).map FileEntry.node

/-- The content of the file at a path. -/
def read? (t : FileTree β) (p : List String) : Option β := (t.node? p).bind Node.content?

/-- The names in a directory. -/
def names (t : FileTree β) (p : List String) : List String :=
  t.rows.filterMap fun e => if e.path.dropLast = p then e.path.getLast? else none

/-- `readdirSync`, which sorts the names. -/
def readdir (t : FileTree β) (p : List String) : List String :=
  (t.names p).insertionSort (· ≤ ·)

/-- The paths that satisfy a condition are gone. -/
def removeAll (t : FileTree β) (c : List String → Bool) : FileTree β where
  rows := t.rows.filter fun e => !c e.path
  nodup := t.nodup.sublist (List.filter_sublist.map _)

/-- The node at a path is gone. -/
def remove (t : FileTree β) (p : List String) : FileTree β := t.removeAll fun x => x = p

/-- The node at a path is gone, and what is in it. -/
def removeTree (t : FileTree β) (p : List String) : FileTree β := t.removeAll p.isPrefixOf

/-- A node is put at a path. -/
def set (t : FileTree β) (p : List String) (n : Node β) : FileTree β where
  rows := (t.remove p).rows ++ [⟨p, n⟩]
  nodup := by
    rw [List.map_append]
    refine List.nodup_append.2 ⟨(t.remove p).nodup, by simp, ?_⟩
    intro x hx y hy hxy
    obtain ⟨e, he, rfl⟩ := List.mem_map.1 hx
    obtain rfl : y = p := by simpa using hy
    simp [remove, removeAll, hxy] at he

/-- `rename`: a node goes to another path. -/
def rename (t : FileTree β) (p q : List String) : FileTree β :=
  match t.node? p with
  | some n => (t.remove p).set q n
  | none => t

/-- A name denotes just what the tree has there. -/
theorem node?_eq_some : t.node? p = some n ↔ (⟨p, n⟩ : FileEntry β) ∈ t := by
  unfold node?
  constructor
  · intro h
    obtain ⟨e, he, rfl⟩ := map_eq_some_iff.1 h
    obtain ⟨hmem, rfl⟩ := Table.find_eq_some.1 he
    exact hmem
  · intro h
    rw [Table.find_eq_some.2 ⟨h, rfl⟩, map_some]

@[simp] theorem node?_removeAll {c : List String → Bool} :
    (t.removeAll c).node? x = if c x then none else t.node? x := by
  refine Option.ext fun n => ?_
  rw [node?_eq_some, ← Table.mem_rows]
  simp only [removeAll, mem_filter, Bool.not_eq_true', Table.mem_rows]
  split_ifs with hc
  · simp [hc]
  · rw [node?_eq_some]
    simp [hc]

@[simp] theorem node?_remove : (t.remove p).node? x = if x = p then none else t.node? x := by
  simp [remove]

@[simp] theorem node?_removeTree :
    (t.removeTree p).node? x = if p <+: x then none else t.node? x := by
  simp [removeTree, isPrefixOf_iff_prefix]

@[simp] theorem node?_set : (t.set p n).node? x = if x = p then some n else t.node? x := by
  refine Option.ext fun m => ?_
  rw [node?_eq_some, ← Table.mem_rows]
  simp only [set, List.mem_append, mem_singleton, FileEntry.mk.injEq, Table.mem_rows]
  rw [← node?_eq_some, node?_remove]
  split_ifs with hx
  · simp [hx, eq_comm]
  · simp [hx]

theorem node?_rename (h : t.node? p = some n) :
    (t.rename p q).node? x = if x = q then some n else if x = p then none else t.node? x := by
  unfold rename
  rw [h]
  simp

theorem mem_names {name : String} : name ∈ t.names p ↔ (t.node? (p ++ [name])).isSome := by
  simp only [names, mem_filterMap, ite_none_right_eq_some, isSome_iff_exists,
    node?_eq_some]
  constructor
  · rintro ⟨⟨path, n⟩, hmem, rfl, hlast⟩
    obtain ⟨directory, rfl⟩ := getLast?_eq_some_iff.1 hlast
    rw [dropLast_concat]
    exact ⟨n, hmem⟩
  · rintro ⟨n, hmem⟩
    exact ⟨_, hmem, by simp, by simp⟩

theorem nodup_names : (t.names p).Nodup := by
  have hnames : t.names p =
      (t.rows.map FileEntry.path).filterMap fun x => if x.dropLast = p then x.getLast? else none := by
    rw [names, filterMap_map]
    rfl
  rw [hnames]
  refine t.nodup.filterMap fun x y name hx hy => ?_
  obtain ⟨hxp, hxn⟩ := ite_none_right_eq_some.1 hx
  obtain ⟨hyp, hyn⟩ := ite_none_right_eq_some.1 hy
  obtain ⟨u, rfl⟩ := getLast?_eq_some_iff.1 hxn
  obtain ⟨v, rfl⟩ := getLast?_eq_some_iff.1 hyn
  rw [dropLast_concat] at hxp hyp
  rw [hxp, hyp]

theorem mem_readdir {name : String} :
    name ∈ t.readdir p ↔ (t.node? (p ++ [name])).isSome = true := by
  rw [readdir, mem_insertionSort, mem_names]

theorem readdir_congr {u : FileTree β}
    (h : ∀ name, (t.node? (p ++ [name])).isSome = (u.node? (p ++ [name])).isSome) :
    t.readdir p = u.readdir p := by
  refine Perm.eq_of_pairwise' (pairwise_insertionSort (· ≤ ·) _)
    (pairwise_insertionSort (· ≤ ·) _) ?_
  refine (perm_insertionSort _ _).trans (.trans ?_ (perm_insertionSort _ _).symm)
  refine (perm_ext_iff_of_nodup nodup_names nodup_names).2 fun name => ?_
  rw [mem_names, mem_names, h]

end FileTree

end U2os
