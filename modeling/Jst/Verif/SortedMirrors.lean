import Jst.Data.Sorting
import Jst.JustMr.Mirrors
import Mathlib.Data.List.Induction
/-!
# The order of mirrors

The mirrors of a group are those of one rank, and the groups are moved to the result in the order of
the ranks. So mirrors are sorted by rank, and keep their order where the rank is the same.
-/
namespace Jst.Verif.SortedMirrors

open SortedMap Sorting JustMr

variable {getHostname : Str → Option Str} {hostnames : List Str}

/-- The position of the host of a mirror; all unlisted or missing hosts have the last one. -/
def rank (getHostname : Str → Option Str) (hostnames : List Str) (mirror : Str) : Nat :=
  match getHostname mirror with
  | some hostname => hostnames.idxOf hostname
  | none => hostnames.length

theorem rank_lt (getHostname : Str → Option Str) (hostnames : List Str) (mirror : Str) :
    rank getHostname hostnames mirror < hostnames.length + 1 := by
  unfold rank
  split
  · exact Nat.lt_succ_of_le List.idxOf_le_length
  · exact Nat.lt_succ_self _

/-- The mirrors of a group. -/
def content (groups : MirrorGroups) (hostname : Str) : List Str := (find hostname groups).getD []

theorem find_knownHosts (hostnames : List Str) (hostname : Str) :
    find hostname (knownHosts hostnames) = if hostname ∈ hostnames then some [] else none := by
  unfold knownHosts
  induction hostnames using List.reverseRecOn with
  | nil => rfl
  | append_singleton hosts host step =>
    rw [foldl_append, foldl_cons, List.foldl_nil, find_emplace, step]
    by_cases inside : hostname ∈ hosts
    · simp [inside]
    · by_cases same : host = hostname
      · subst same
        simp [inside]
      · simp [inside, same, Ne.symm same]

/-- What the groups are while mirrors are added: every host has the mirrors of its rank, and mirrors
of the last rank have no host. -/
structure Filled (getHostname : Str → Option Str) (hostnames mirrors : List Str)
    (groups : MirrorGroups) : Prop where
  known : ∀ hostname ∈ hostnames, find hostname groups = some
    (mirrors.filter fun mirror => rank getHostname hostnames mirror = hostnames.idxOf hostname)
  fallback : content groups [] =
    mirrors.filter fun mirror => rank getHostname hostnames mirror = hostnames.length
  unknown : ∀ hostname ∉ hostnames, hostname ≠ [] → find hostname groups = none

variable {hostname mirror : Str}

theorem ne_nil_of_mem (named : [] ∉ hostnames) (inside : hostname ∈ hostnames) : hostname ≠ [] :=
  fun empty => named (empty ▸ inside)

theorem filled_knownHosts (named : [] ∉ hostnames) :
    Filled getHostname hostnames [] (knownHosts hostnames) where
  known hostname inside := by rw [find_knownHosts, if_pos inside, List.filter_nil]
  fallback := by rw [content, find_knownHosts, if_neg named, getD_none, List.filter_nil]
  unknown hostname outside _ := by rw [find_knownHosts, if_neg outside]

variable {mirrors : List Str} {groups : MirrorGroups}

theorem Filled.listed
    (filled : Filled getHostname hostnames mirrors groups) (named : [] ∉ hostnames)
    (host : getHostname mirror = some hostname) (inside : hostname ∈ hostnames) :
    Filled getHostname hostnames (mirrors ++ [mirror]) (fillMirror getHostname groups mirror) := by
  have place : rank getHostname hostnames mirror = hostnames.idxOf hostname := by
    rw [rank, host]
  have small := List.idxOf_lt_length_of_mem inside
  have added : fillMirror getHostname groups mirror = insert hostname
      (mirrors.filter (fun mirror => rank getHostname hostnames mirror = hostnames.idxOf hostname)
        ++ [mirror]) groups := by
    simp only [fillMirror, host, getD_some, filled.known hostname inside]
  rw [added]
  constructor
  · intro other listed
    rw [find_insert, filter_append, List.filter_singleton, place]
    by_cases same : hostname = other
    · subst same
      simp
    · have apart : hostnames.idxOf hostname ≠ hostnames.idxOf other := fun equal =>
        same ((List.idxOf_inj inside).mp equal)
      simp [same, apart, filled.known other listed]
  · have differ : hostnames.idxOf hostname ≠ hostnames.length := small.ne
    rw [content, find_insert, if_neg (ne_nil_of_mem named inside), filter_append,
      List.filter_singleton, place]
    simp only [differ, decide_false, cond_false, append_nil]
    exact filled.fallback
  · intro other outside nonempty
    rw [find_insert, if_neg (fun same : hostname = other => outside (same ▸ inside))]
    exact filled.unknown other outside nonempty

theorem Filled.unlisted
    (filled : Filled getHostname hostnames mirrors groups) (named : [] ∉ hostnames)
    (outside : (getHostname mirror).getD [] ∉ hostnames) :
    Filled getHostname hostnames (mirrors ++ [mirror]) (fillMirror getHostname groups mirror) := by
  have place : rank getHostname hostnames mirror = hostnames.length := by
    unfold rank
    cases host : getHostname mirror with
    | none => rfl
    | some hostname =>
      rw [host, getD_some] at outside
      exact List.idxOf_eq_length outside
  have added : fillMirror getHostname groups mirror =
      insert [] (content groups [] ++ [mirror]) groups := by
    unfold fillMirror content
    dsimp only
    split
    · next list found =>
      -- The only group of a host that is not listed is the fallback list.
      have empty : (getHostname mirror).getD [] = [] := by
        by_contra nonempty
        have absent := filled.unknown _ outside nonempty
        exact absurd (found.symm.trans absent) nofun
      rw [empty] at found ⊢
      rw [found, getD_some]
    · rfl
  rw [added]
  constructor
  · intro other listed
    have differ : hostnames.length ≠ hostnames.idxOf other :=
      (List.idxOf_lt_length_of_mem listed).ne'
    rw [find_insert, if_neg (ne_nil_of_mem named listed).symm, filled.known other listed,
      filter_append, List.filter_singleton, place]
    simp [differ]
  · rw [content, find_insert, if_pos rfl, getD_some, filled.fallback, filter_append,
      List.filter_singleton, place]
    simp
  · intro other unknown nonempty
    rw [find_insert, if_neg nonempty.symm]
    exact filled.unknown other unknown nonempty

theorem filled_all (named : [] ∉ hostnames) (mirrors : List Str) :
    Filled getHostname hostnames mirrors
      (mirrors.foldl (fillMirror getHostname) (knownHosts hostnames)) := by
  induction mirrors using List.reverseRecOn with
  | nil => exact filled_knownHosts named
  | append_singleton mirrors mirror step =>
    rw [foldl_append, foldl_cons, List.foldl_nil]
    by_cases inside : (getHostname mirror).getD [] ∈ hostnames
    · cases host : getHostname mirror with
      | none =>
        rw [host, getD_none] at inside
        exact absurd inside named
      | some hostname =>
        rw [host, getD_some] at inside
        exact step.listed named host inside
    · exact step.unlisted named inside

theorem moveMirrors_spec (state : MirrorGroups × List Str) (hostname : Str) :
    (moveMirrors state hostname).2 = state.2 ++ content state.1 hostname ∧
      ∀ other, content (moveMirrors state hostname).1 other =
        if hostname = other then [] else content state.1 other := by
  unfold moveMirrors content
  split
  · next list found =>
    refine ⟨by rw [found, getD_some], fun other => ?_⟩
    rw [find_insert]
    split
    · rfl
    · rfl
  · next absent =>
    refine ⟨by rw [absent, getD_none, append_nil], fun other => ?_⟩
    split
    · next same => rw [← same, absent, getD_none]
    · rfl

theorem rank_ne_of_again {front back : List Str} {host : Str}
    (parts : hostnames = front ++ host :: back) (again : host ∈ front) (mirror : Str) :
    rank getHostname hostnames mirror ≠ front.length := by
  have early : hostnames.idxOf host < front.length := by
    rw [parts, List.idxOf_append_of_mem again]
    exact List.idxOf_lt_length_of_mem again
  have short : front.length < hostnames.length := by simp [parts]
  have repeated : hostnames[front.length]? = some host := by simp [parts]
  unfold rank
  split
  · next name _ =>
    intro same
    have found : hostnames[hostnames.idxOf name]? = some name := by
      rw [List.getElem?_eq_getElem (same ▸ short), List.getElem_idxOf]
    rw [same, repeated] at found
    rw [← some.inj found] at same
    omega
  · exact short.ne'

theorem moved_spec (filled : Filled getHostname hostnames mirrors groups) (front back : List Str)
    (parts : hostnames = front ++ back) : (front.foldl moveMirrors (groups, [])).2 =
        distribute (rank getHostname hostnames) front.length mirrors ∧
      ∀ other, content (front.foldl moveMirrors (groups, [])).1 other =
        if other ∈ front then [] else content groups other := by
  induction front using List.reverseRecOn generalizing back with
  | nil => exact ⟨rfl, fun other => rfl⟩
  | append_singleton front host step =>
    obtain ⟨ordered, remaining⟩ := step (host :: back) (by rw [parts, append_assoc]; rfl)
    obtain ⟨moved, cleared⟩ := moveMirrors_spec (front.foldl moveMirrors (groups, [])) host
    rw [foldl_append, foldl_cons, List.foldl_nil]
    have inside : host ∈ hostnames := by simp [parts]
    refine ⟨?_, fun other => ?_⟩
    · rw [moved, ordered, remaining, length_append, length_singleton, distribute_succ]
      congr 1
      by_cases again : host ∈ front
      · rw [if_pos again, eq_comm, List.filter_eq_nil_iff]
        intro mirror _ same
        exact rank_ne_of_again (by rw [parts, append_assoc]; rfl) again mirror
          (of_decide_eq_true same)
      · have first : hostnames.idxOf host = front.length := by
          rw [parts, append_assoc, List.idxOf_append_of_notMem again]
          simp
        rw [if_neg again, content, filled.known host inside, getD_some, first]
    · rw [cleared, remaining]
      by_cases same : host = other
      · simp [same]
      · simp [same, Ne.symm same]

theorem sortByHostname_eq (named : [] ∉ hostnames) (mirrors : List Str) :
    sortByHostname getHostname mirrors hostnames =
      distribute (rank getHostname hostnames) (hostnames.length + 1) mirrors := by
  have filled : Filled getHostname hostnames mirrors _ := filled_all named mirrors
  obtain ⟨ordered, remaining⟩ := moved_spec filled hostnames [] (append_nil _).symm
  have last := remaining []
  rw [if_neg named, filled.fallback] at last
  rw [distribute_succ, ← ordered, ← last]
  unfold sortByHostname content
  dsimp only
  split
  · next list found => rw [found, getD_some]
  · next absent => rw [absent, getD_none, append_nil]

/-- Mirrors are permuted, sorted by the position of their host, and keep their order where it is the
same. -/
theorem mirrors_sorted (getHostname : Str → Option Str) (mirrors hostnames : List Str)
    (named : [] ∉ hostnames) :
    (sortByHostname getHostname mirrors hostnames).Perm mirrors ∧
      ((sortByHostname getHostname mirrors hostnames).Pairwise fun first second =>
        rank getHostname hostnames first ≤ rank getHostname hostnames second) ∧
      ∀ index, (sortByHostname getHostname mirrors hostnames).filter
          (fun mirror => rank getHostname hostnames mirror = index) =
        mirrors.filter fun mirror => rank getHostname hostnames mirror = index := by
  have bounded : ∀ mirror ∈ mirrors, rank getHostname hostnames mirror < hostnames.length + 1 :=
    fun mirror _ => rank_lt getHostname hostnames mirror
  rw [sortByHostname_eq named]
  exact ⟨distribute_perm bounded, distribute_sorted _ _ _, filter_distribute bounded⟩

/-- The host of the URLs below. -/
def sampleHost (url : Str) : Option Str :=
  if url = lit "https://keep.me/here" then some (lit "keep.me")
  else if url = lit "http://user@bar.baz/foobar" then some (lit "bar.baz")
  else none

theorem mirrors_sorted_preferred :
    (sortByHostname sampleHost [lit "./testing", lit "https://keep.me/here",
      lit "http://user@bar.baz/foobar", lit "http://user@bar.baz/foobar"]
      [lit "bar.baz", lit "example.com", lit "bar.baz"]).Perm
      [lit "./testing", lit "https://keep.me/here", lit "http://user@bar.baz/foobar",
        lit "http://user@bar.baz/foobar"] :=
  (mirrors_sorted sampleHost _ _ (by decide)).1

end Jst.Verif.SortedMirrors
