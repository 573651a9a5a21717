import Jst.Verif.FileRoots
/-!
# Lookups in git trees without special entries

The flag is passed on to the first tree on a path only, and what is read first is kept. So a lookup
in a tree that was read without special entries is right if every tree further down has been read
that way before, or is read with its special entries and this makes no difference.
-/
namespace Jst.Verif.GitLookups

open SortedMap FileSystem Runs FileRoots

/-- What is found along a path through the tree from which all special entries are removed at every
level. -/
def follow : Entries → List Str → Option Node
  | _, [] => none
  | entries, name :: rest =>
    match find name (readDirectTree entries true) with
    | none => none
    | some node =>
      if rest = [] then some node
      else
        match node with
        | .directory entries => follow entries rest
        | _ => none

/-- When a lookup is right: what is not special is reached through trees that are read without their
special entries or have no link that leads upwards, and what is special stands in a tree that is
read without its special entries, or behind one that cannot be read. -/
def Right (root : RootGit) (names : List Str) : Prop :=
  ∀ node, walk root.content names = some node →
    if node.type = .symlink then
      ¬(Passable root [] root.content names ∧ treeFlag root names.dropLast = false)
    else Passable root [] root.content names

end Jst.Verif.GitLookups
