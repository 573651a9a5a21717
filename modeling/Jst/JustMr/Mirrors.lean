import Jst.Data.Bytes
import Jst.Data.SortedMap
/-!
# Mirrors

The mirrors of a file are tried in the order of the preferred hosts. They are put into one group for
each preferred host, and one group without name for the others. How the host is found in a URL is a
parameter.
-/
namespace Jst.JustMr

open SortedMap

/-- `mirrors_by_hostname`. -/
abbrev MirrorGroups := List (Str × List Str)

/-- The groups of known hosts, which have no mirrors yet. -/
def knownHosts (hostnames : List Str) : MirrorGroups :=
  hostnames.foldl (fun groups hostname => emplace hostname [] groups) []

section Extraction

variable (getHostname : Str → Option Str)

/-- Add a mirror to the group of its host, or to the fallback list. -/
def fillMirror (groups : MirrorGroups) (mirror : Str) : MirrorGroups :=
  let hostname := (getHostname mirror).getD []
  match find hostname groups with
  | some list => insert hostname (list ++ [mirror]) groups
  | none => insert [] ((find [] groups).getD [] ++ [mirror]) groups

/-- Move the mirrors of a host to the result; the group is cleared, as hosts may be given twice. -/
def moveMirrors (state : MirrorGroups × List Str) (hostname : Str) : MirrorGroups × List Str :=
  match find hostname state.1 with
  | some list => (insert hostname [] state.1, state.2 ++ list)
  | none => state

def sortByHostname (mirrors hostnames : List Str) : List Str :=
  let groups := mirrors.foldl (fillMirror getHostname) (knownHosts hostnames)
  let moved := hostnames.foldl moveMirrors (groups, [])
  match find [] moved.1 with
  | some list => moved.2 ++ list
  | none => moved.2

end Extraction

end Jst.JustMr
