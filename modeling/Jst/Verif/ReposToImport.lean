import Jst.Tools.Import
import Jst.Data.Loops
/-!
# Which repositories are imported

What an import needs is derived from the descriptions: repositories in full, repositories whose root
is referred to by name, and layers. The traversal collects exactly what is needed, although a
repository may be needed in several ways and is met in any order.
-/
namespace Jst.Verif.ReposToImport

open SortedMap Tools.Import

variable {Value : Type}

variable {reached next : Reached} {name : Str} {rank : Str → Nat} {desc : Repository Value}
  {use : Use} {bound depth : Nat}

/-! ## What is needed -/

/-- The repositories that a root refers to. -/
def kindMentions : RootKind Value → List Str
  | .distdir repositories => repositories
  | .computed repo _ => [repo]
  | _ => []

/-- The repositories that `"repository"` refers to. -/
def rootMentions : RootReference Value → List Str
  | .named name => [name]
  | .root root => kindMentions root.kind

/-- The repositories that a description refers to. -/
def mentions (desc : Repository Value) : List Str :=
  rootMentions desc.repository ++ desc.layers ++ desc.links.map (·.2)

/-- All references name existing repositories, and chains of root references are acyclic. -/
structure Closed (repos : Repositories Value) : Prop where
  present : ∀ name desc, find name repos = some desc → ∀ other ∈ mentions desc,
    ∃ target, find other repos = some target
  acyclic : ∃ rank : Str → Nat, ∀ name desc other, find name repos = some desc →
    desc.repository = .named other → rank other < rank name

/-- The base repository at the end of a chain of root references. -/
inductive ChainBase (repos : Repositories Value) : RootReference Value → Option Str → Prop where
  | root (root : Root Value) : ChainBase repos (.root root) root.kind.base
  | named {name : Str} {desc : Repository Value} {base : Option Str}
    (described : find name repos = some desc) (chain : ChainBase repos desc.repository base) :
    ChainBase repos (.named name) base

/-- What a repository is needed for. -/
inductive Use where
  | full
  | visited
  | layer
deriving DecidableEq

/-- What is needed for an entry, if some repositories are mapped to existing ones. -/
inductive Needed (repos : Repositories Value) (entry : Str) (known : List Str) :
    Use → Str → Prop where
  | entry (unknown : entry ∉ known) : Needed repos entry known .full entry
  | link {name other : Str} {desc : Repository Value} (source : Needed repos entry known .full name)
    (described : find name repos = some desc) (member : other ∈ desc.links.map (·.2))
    (unknown : other ∉ known) : Needed repos entry known .full other
  | reference {use : Use} {name other : Str} {desc : Repository Value} (proper : use ≠ .layer)
    (source : Needed repos entry known use name) (described : find name repos = some desc)
    (named : desc.repository = .named other) (unknown : other ∉ known) :
    Needed repos entry known .visited other
  | base {use : Use} {name other : Str} {desc : Repository Value} {root : Root Value}
    (proper : use ≠ .layer) (source : Needed repos entry known use name)
    (described : find name repos = some desc) (inPlace : desc.repository = .root root)
    (computed : root.kind.base = some other) (unknown : other ∉ known) :
    Needed repos entry known .full other
  | layer {use : Use} {name other : Str} {desc : Repository Value} (proper : use ≠ .layer)
    (source : Needed repos entry known use name) (described : find name repos = some desc)
    (member : other ∈ desc.layers) (unknown : other ∉ known) : Needed repos entry known .layer other
  | layerBase {use : Use} {name layer other : Str} {desc layerDesc : Repository Value}
    (proper : use ≠ .layer) (source : Needed repos entry known use name)
    (described : find name repos = some desc) (member : layer ∈ desc.layers)
    (found : find layer repos = some layerDesc)
    (chain : ChainBase repos layerDesc.repository (some other)) (unknown : other ∉ known) :
    Needed repos entry known .full other

section

variable {repos : Repositories Value} {entry : Str} {known : List Str}

theorem Needed.unknown (need : Needed repos entry known use name) : name ∉ known := by
  cases need <;> assumption

theorem ChainBase.unique {reference : RootReference Value} {left right : Option Str}
    (first : ChainBase repos reference left) (second : ChainBase repos reference right) :
    left = right := by
  induction first with
  | root root =>
    cases second
    rfl
  | named described _ step =>
    cases second with
    | named again chain =>
      rw [described] at again
      cases again
      exact step chain

theorem ChainBase.present (closed : Closed repos) {base : Str}
    (described : find name repos = some desc) (chain : ChainBase repos desc.repository (some base)) :
    ∃ target, find base repos = some target := by
  generalize found : desc.repository = reference at chain
  generalize wanted : some base = end_ at chain
  induction chain generalizing name desc with
  | root root =>
    refine closed.present name desc described base ?_
    rw [mentions, found]
    cases kind : root.kind <;> simp_all [RootKind.base, rootMentions, kindMentions]
  | named inner _ step => exact step inner rfl wanted

theorem Needed.present (closed : Closed repos) (main : ∃ target, find entry repos = some target)
    (need : Needed repos entry known use name) : ∃ target, find name repos = some target := by
  cases need with
  | entry => exact main
  | link _ described member =>
    exact closed.present _ _ described _ (mem_append_right _ member)
  | reference _ _ described named =>
    exact closed.present _ _ described _ (by simp [mentions, rootMentions, named])
  | @base _ _ _ _ root _ _ described inPlace computed =>
    refine closed.present _ _ described _ ?_
    rw [mentions, inPlace]
    cases kind : root.kind <;> simp_all [RootKind.base, rootMentions, kindMentions]
  | layer _ _ described member =>
    exact closed.present _ _ described _ (by simp [mentions, member])
  | layerBase _ _ _ _ found chain => exact chain.present closed found

theorem ranks_bounded (repos : Repositories Value) (rank : Str → Nat) :
    ∃ bound, ∀ name desc, find name repos = some desc → rank name < bound := by
  have entries : ∃ bound, ∀ item ∈ repos, rank item.1 < bound := by
    induction repos with
    | nil => exact ⟨0, by simp⟩
    | cons first rest step =>
      obtain ⟨bound, below⟩ := step
      refine ⟨max bound (rank first.1 + 1), fun item member => ?_⟩
      cases mem_cons.mp member with
      | inl same =>
        rw [same]
        omega
      | inr later =>
        have := below item later
        omega
  obtain ⟨bound, below⟩ := entries
  exact ⟨bound, fun name desc described => below (name, desc) (mem_of_find described)⟩

theorem getBaseRepoIfComputed_works (closed : Closed repos)
    (descends : ∀ name desc other, find name repos = some desc → desc.repository = .named other →
      rank other < rank name) (depth : Nat) (reference : RootReference Value)
    (short : ∀ name, reference = .named name →
      rank name < depth ∧ ∃ desc, find name repos = some desc) :
    ∃ base, getBaseRepoIfComputed repos depth reference = some base ∧
      ChainBase repos reference base := by
  induction depth generalizing reference with
  | zero =>
    cases reference with
    | named name => exact absurd (short name rfl).1 (Nat.not_lt_zero _)
    | root root => exact ⟨root.kind.base, rfl, .root root⟩
  | succ depth step =>
    cases reference with
    | root root => exact ⟨root.kind.base, rfl, .root root⟩
    | named name =>
      obtain ⟨low, desc, described⟩ := short name rfl
      obtain ⟨base, found, chain⟩ := step desc.repository fun other named => by
        have lower := descends name desc other described named
        exact ⟨by omega,
          closed.present name desc described other (by simp [mentions, rootMentions, named])⟩
      refine ⟨base, ?_, .named described chain⟩
      simp only [getBaseRepoIfComputed, described]
      exact found

/-! ## What is done -/

/-- A layer is imported, and so is the base of its root. -/
def LayerDone (repos : Repositories Value) (known : List Str) (layer : Str) (reached : Reached) :
    Prop :=
  (layer ∈ known ∨ layer ∈ reached.toImport ∨ layer ∈ reached.extraImports) ∧
    ∀ desc base, find layer repos = some desc → ChainBase repos desc.repository (some base) →
      base ∈ known ∨ base ∈ reached.toImport

/-- The root of a repository is done, and so are the roots it refers to, up to a repository that is
fully imported; and the layers of all these are done. -/
inductive Done (repos : Repositories Value) (known : List Str) (reached : Reached) : Str → Prop where
  | done {name : Str} {desc : Repository Value} (described : find name repos = some desc)
    (bases : ∀ root base, desc.repository = .root root → root.kind.base = some base →
      base ∈ known ∨ base ∈ reached.toImport)
    (added : ∀ other, desc.repository = .named other → other ∉ known → other ∉ reached.toImport →
      other ∈ reached.extraImports)
    (further : ∀ other, desc.repository = .named other → other ∉ known → other ∉ reached.toImport →
      Done repos known reached other)
    (layers : ∀ layer ∈ desc.layers, LayerDone repos known layer reached) :
    Done repos known reached name

/-- The links of a repository are done as well. -/
def Complete (repos : Repositories Value) (known : List Str) (reached : Reached) (name : Str) :
    Prop :=
  Done repos known reached name ∧ ∀ desc, find name repos = some desc →
    ∀ other ∈ desc.links.map (·.2), other ∈ known ∨ other ∈ reached.toImport

/-- What is reached stays reached. -/
structure Below (reached next : Reached) : Prop where
  imports : ∀ name ∈ reached.toImport, name ∈ next.toImport
  extras : ∀ name ∈ reached.extraImports, name ∈ next.extraImports ∨ name ∈ next.toImport

theorem Below.refl (reached : Reached) : Below reached reached :=
  ⟨fun _ member => member, fun _ member => .inl member⟩

theorem Below.trans {last : Reached} (first : Below reached next) (second : Below next last) :
    Below reached last := by
  refine ⟨fun name member => second.imports name (first.imports name member), ?_⟩
  intro name member
  cases first.extras name member with
  | inl extra => exact second.extras name extra
  | inr full => exact .inr (second.imports name full)

theorem LayerDone.mono {layer : Str} (layerDone : LayerDone repos known layer reached)
    (below : Below reached next) : LayerDone repos known layer next := by
  refine ⟨?_, fun desc base found chain =>
    (layerDone.2 desc base found chain).imp_right (below.imports base)⟩
  rcases layerDone.1 with mapped | full | extra
  · exact .inl mapped
  · exact .inr (.inl (below.imports layer full))
  · exact .inr (below.extras layer extra).symm

theorem Done.mono (isDone : Done repos known reached name) (below : Below reached next) :
    Done repos known next name := by
  induction isDone with
  | done described bases added _ layers step =>
    have open_ : ∀ other, other ∉ next.toImport → other ∉ reached.toImport :=
      fun other absent present => absent (below.imports other present)
    refine .done described
      (fun root base inPlace computed => (bases root base inPlace computed).imp_right
        (below.imports base)) ?_
      (fun other named unknown absent => step other named unknown (open_ other absent))
      (fun layer member => (layers layer member).mono below)
    intro other named unknown absent
    exact (below.extras other (added other named unknown (open_ other absent))).resolve_right absent

theorem Complete.mono (complete : Complete repos known reached name) (below : Below reached next) :
    Complete repos known next name :=
  ⟨complete.1.mono below, fun desc described other member =>
    (complete.2 desc described other member).imp_right (below.imports other)⟩

/-- More is reached, and what is newly imported is complete. -/
def Grows (repos : Repositories Value) (known : List Str) (reached next : Reached) : Prop :=
  Below reached next ∧
    ∀ name ∈ next.toImport, name ∉ reached.toImport → Complete repos known next name

theorem Grows.refl (reached : Reached) : Grows repos known reached reached :=
  ⟨.refl reached, fun _ member new => absurd member new⟩

theorem Grows.trans {last : Reached} (first : Grows repos known reached next)
    (second : Grows repos known next last) : Grows repos known reached last := by
  refine ⟨first.1.trans second.1, fun name member new => ?_⟩
  by_cases present : name ∈ next.toImport
  · exact (first.2 name present new).mono second.1
  · exact second.2 name member present

/-- Only what is needed is collected, and nothing twice. -/
structure Sound (repos : Repositories Value) (entry : Str) (known : List Str) (reached : Reached) :
    Prop where
  imports_nodup : reached.toImport.Nodup
  extras_nodup : reached.extraImports.Nodup
  disjoint : ∀ name ∈ reached.toImport, name ∉ reached.extraImports
  imports : ∀ name ∈ reached.toImport, Needed repos entry known .full name
  extras : ∀ name ∈ reached.extraImports,
    Needed repos entry known .visited name ∨ Needed repos entry known .layer name

theorem Sound.discard (sound : Sound repos entry known reached) (name : Str) :
    Sound repos entry known (reached.discard name) :=
  ⟨sound.imports_nodup, sound.extras_nodup.filter _,
    fun other member extra => sound.disjoint other member (List.mem_of_mem_filter extra),
    sound.imports, fun other extra => sound.extras other (List.mem_of_mem_filter extra)⟩

theorem Sound.below_discard (sound : Sound repos entry known reached)
    (settled : name ∈ known ∨ name ∈ reached.toImport) : Below reached (reached.discard name) := by
  refine ⟨fun _ member => member, fun other extra => .inl ?_⟩
  refine mem_filter.mpr ⟨extra, decide_eq_true fun same => ?_⟩
  subst same
  cases settled with
  | inl mapped =>
    cases sound.extras other extra with
    | inl need => exact need.unknown mapped
    | inr need => exact need.unknown mapped
  | inr full => exact sound.disjoint other full extra

theorem Sound.addExtra (sound : Sound repos entry known reached) (absent : name ∉ reached.toImport)
    (need : Needed repos entry known .visited name ∨ Needed repos entry known .layer name) :
    Sound repos entry known (reached.addExtra name) where
  imports_nodup := sound.imports_nodup
  extras_nodup := by
    refine nodup_cons.mpr ⟨fun member => ?_, sound.extras_nodup.filter _⟩
    exact of_decide_eq_true (mem_filter.mp member).2 rfl
  disjoint := by
    intro other member extra
    cases mem_cons.mp extra with
    | inl same => exact absent (same ▸ member)
    | inr old => exact sound.disjoint other member (List.mem_of_mem_filter old)
  imports := sound.imports
  extras := by
    intro other extra
    cases mem_cons.mp extra with
    | inl same => exact same ▸ need
    | inr old => exact sound.extras other (List.mem_of_mem_filter old)

theorem grows_addExtra (reached : Reached) (name : Str) :
    Grows repos known reached (reached.addExtra name) := by
  refine ⟨⟨fun _ member => member, fun other extra => .inl ?_⟩,
    fun _ member new => absurd member new⟩
  by_cases same : other = name
  · exact same ▸ mem_cons_self
  · exact mem_cons_of_mem _ (mem_filter.mpr ⟨extra, decide_eq_true same⟩)

/-! ## The traversal -/

/-- The number of repositories that are not fully imported. -/
def missing (repos : Repositories Value) (reached : Reached) : Nat :=
  (repos.map (·.1)).countP fun name => name ∉ reached.toImport

theorem missing_mono (below : Below reached next) : missing repos next ≤ missing repos reached := by
  refine List.countP_mono_left fun name _ absent => ?_
  exact decide_eq_true fun present => of_decide_eq_true absent (below.imports name present)

variable (repos entry known) in
/-- Full imports work as long as not too much is missing. -/
def FullWorks (visit : Reached → Str → Option Reached) (bound : Nat) : Prop :=
  ∀ reached other, Sound repos entry known reached → missing repos reached ≤ bound →
    (other ∉ known → Needed repos entry known .full other) →
    ∃ next, visit (reached.discard other) other = some next ∧ Sound repos entry known next ∧
      Grows repos known reached next ∧ (other ∈ known ∨ other ∈ next.toImport)

variable (repos entry known) in
/-- A repository whose root is needed is visited. -/
def VisitWorks (visit : Reached → Str → Option Reached) (bound : Nat) (name : Str) : Prop :=
  ∀ reached, Sound repos entry known reached → missing repos reached ≤ bound →
    name ∈ reached.extraImports → Needed repos entry known .visited name →
    ∃ next, visit reached name = some next ∧ Sound repos entry known next ∧
      Grows repos known reached next ∧ Done repos known next name

theorem visitBase_works {visit : Reached → Str → Option Reached}
    (full : FullWorks repos entry known visit bound) (sound : Sound repos entry known reached)
    (few : missing repos reached ≤ bound) (base : Option Str)
    (need : ∀ name, base = some name → name ∉ known → Needed repos entry known .full name) :
    ∃ next, visitBase visit reached base = some next ∧ Sound repos entry known next ∧
      Grows repos known reached next ∧
      ∀ name, base = some name → name ∈ known ∨ name ∈ next.toImport := by
  cases base with
  | none => exact ⟨reached, rfl, sound, .refl reached, fun _ absurd => nomatch absurd⟩
  | some name =>
    obtain ⟨next, called, kept, grows, settled⟩ := full reached name sound few (need name rfl)
    refine ⟨next, called, kept, grows, ?_⟩
    rintro _ ⟨⟩
    exact settled

theorem visitRoot_works {visit : Reached → Str → Option Reached}
    (full : FullWorks repos entry known visit bound) (sound : Sound repos entry known reached)
    (few : missing repos reached ≤ bound) (proper : use ≠ .layer)
    (source : Needed repos entry known use name) (described : find name repos = some desc)
    (visited : ∀ other, desc.repository = .named other →
      VisitWorks repos entry known visit bound other) :
    ∃ next, visitRoot known visit reached desc.repository = some next ∧
      Sound repos entry known next ∧ Grows repos known reached next ∧
      (∀ root base, desc.repository = .root root → root.kind.base = some base →
        base ∈ known ∨ base ∈ next.toImport) ∧
      ∀ other, desc.repository = .named other → other ∉ known → other ∉ next.toImport →
        other ∈ next.extraImports ∧ Done repos known next other := by
  cases reference : desc.repository with
  | named other =>
    simp only [visitRoot]
    by_cases open_ : other ∉ known ∧ other ∉ reached.toImport
    · have need := Needed.reference proper source described reference open_.1
      obtain ⟨next, called, kept, grows, isDone⟩ := visited other reference (reached.addExtra other)
        (sound.addExtra open_.2 (.inl need)) few mem_cons_self need
      refine ⟨next, by rw [if_pos open_, called], kept, (grows_addExtra reached other).trans grows,
        (fun _ _ absurd => nomatch absurd), ?_⟩
      rintro _ ⟨⟩ _ absent
      exact ⟨(grows.1.extras other mem_cons_self).resolve_right absent, isDone⟩
    · refine ⟨reached, by rw [if_neg open_], sound, .refl reached,
        (fun _ _ absurd => nomatch absurd), ?_⟩
      rintro _ ⟨⟩ unknown absent
      exact absurd ⟨unknown, absent⟩ open_
  | root root =>
    obtain ⟨next, called, kept, grows, settled⟩ := visitBase_works full sound few root.kind.base
      fun base computed unknown => .base proper source described reference computed unknown
    refine ⟨next, called, kept, grows, ?_, fun _ absurd => nomatch absurd⟩
    rintro _ base ⟨⟩ computed
    exact settled base computed

section

variable (closed : Closed repos)
  (descends : ∀ name desc other, find name repos = some desc → desc.repository = .named other →
      rank other < rank name)
  (deep : ∀ name desc, find name repos = some desc → rank name < depth)
include closed descends deep

theorem visitLayer_works {visit : Reached → Str → Option Reached}
    (full : FullWorks repos entry known visit bound) (sound : Sound repos entry known reached)
    (few : missing repos reached ≤ bound) {layer : Str} (proper : use ≠ .layer)
    (source : Needed repos entry known use name) (described : find name repos = some desc)
    (member : layer ∈ desc.layers) :
    ∃ next, visitLayer repos known depth visit reached layer = some next ∧
      Sound repos entry known next ∧ Grows repos known reached next ∧
      LayerDone repos known layer next := by
  obtain ⟨layerDesc, found⟩ := closed.present name desc described layer (by simp [mentions, member])
  obtain ⟨base, computed, chain⟩ := getBaseRepoIfComputed_works closed descends depth
    layerDesc.repository fun other named => by
      obtain ⟨target, present⟩ := closed.present layer layerDesc found other
        (by simp [mentions, rootMentions, named])
      exact ⟨deep other target present, target, present⟩
  have added : ∃ next, (if layer ∉ known ∧ layer ∉ reached.toImport then reached.addExtra layer
        else reached) = next ∧ Sound repos entry known next ∧ Grows repos known reached next ∧
      (layer ∈ known ∨ layer ∈ next.toImport ∨ layer ∈ next.extraImports) := by
    by_cases open_ : layer ∉ known ∧ layer ∉ reached.toImport
    · exact ⟨_, if_pos open_,
        sound.addExtra open_.2 (.inr (.layer proper source described member open_.1)),
        grows_addExtra reached layer, .inr (.inr mem_cons_self)⟩
    · refine ⟨_, if_neg open_, sound, .refl reached, ?_⟩
      by_cases mapped : layer ∈ known
      · exact .inl mapped
      · exact .inr (.inl (not_not.mp fun absent => open_ ⟨mapped, absent⟩))
  obtain ⟨start, same, startSound, startGrows, here⟩ := added
  obtain ⟨next, called, kept, grows, settled⟩ := visitBase_works full startSound
    ((missing_mono startGrows.1).trans few) base fun other ends unknown =>
      .layerBase proper source described member found (ends ▸ chain) unknown
  refine ⟨next, ?_, kept, startGrows.trans grows, ?_, ?_⟩
  · simp only [visitLayer, same, found, computed, bind_eq_bind, bind_some, called]
  · rcases here with mapped | imported | extra
    · exact .inl mapped
    · exact .inr (.inl (grows.1.imports layer imported))
    · exact .inr (grows.1.extras layer extra).symm
  · intro other end_ again otherChain
    rw [found] at again
    cases again
    exact settled end_ (chain.unique otherChain)

theorem visitRoots_works {visit : Reached → Str → Option Reached}
    (full : FullWorks repos entry known visit bound) (sound : Sound repos entry known reached)
    (few : missing repos reached ≤ bound) (proper : use ≠ .layer)
    (source : Needed repos entry known use name) (described : find name repos = some desc)
    (visited : ∀ other, desc.repository = .named other →
      VisitWorks repos entry known visit bound other) :
    ∃ next, (visitRoot known visit reached desc.repository).bind
        (fun reached => desc.layers.foldlM (visitLayer repos known depth visit) reached) =
          some next ∧ Sound repos entry known next ∧ Grows repos known reached next ∧
      Done repos known next name := by
  obtain ⟨middle, called, middleSound, middleGrows, bases, references⟩ :=
    visitRoot_works full sound few proper source described visited
  obtain ⟨next, ran, ⟨kept, _⟩, grows, layers⟩ :=
    @Loops.foldlM_reaches Str Reached desc.layers (visitLayer repos known depth visit)
      (fun state => Sound repos entry known state ∧ missing repos state ≤ bound)
      (Grows repos known) (LayerDone repos known) Grows.refl Grows.trans
      (fun layerDone grows => layerDone.mono grows.1)
      (fun state layer member holds => by
        obtain ⟨next, called, kept, grows, layerDone⟩ := visitLayer_works closed descends deep full
          holds.1 holds.2 proper source described member
        exact ⟨next, called, ⟨kept, (missing_mono grows.1).trans holds.2⟩, grows, layerDone⟩)
      middle ⟨middleSound, (missing_mono middleGrows.1).trans few⟩
  refine ⟨next, by rw [called]; exact ran, kept, middleGrows.trans grows, .done described
    (fun root base inPlace computed =>
      (bases root base inPlace computed).imp_right (grows.1.imports base)) ?_ ?_ layers⟩
  · intro other named unknown absent
    have open_ : other ∉ middle.toImport := fun present => absent (grows.1.imports other present)
    exact (grows.1.extras other (references other named unknown open_).1).resolve_right absent
  · intro other named unknown absent
    have open_ : other ∉ middle.toImport := fun present => absent (grows.1.imports other present)
    exact (references other named unknown open_).2.mono grows.1

theorem visit_visited_works (full : FullWorks repos entry known (visit repos known depth) bound)
    (main : ∃ target, find entry repos = some target) (visited : ∀ other, rank other < rank name →
      VisitWorks repos entry known (visit repos known depth) bound other) :
    VisitWorks repos entry known (visit repos known (depth + 1)) bound name := by
  intro reached sound few extra need
  obtain ⟨desc, described⟩ := need.present closed main
  have open_ : ¬(name ∈ known ∨ name ∈ reached.toImport) := by
    rintro (mapped | present)
    · exact need.unknown mapped
    · exact sound.disjoint name present extra
  obtain ⟨next, ran, kept, grows, isDone⟩ := visitRoots_works closed descends deep full sound few
    (by decide) need described fun other named => visited other (descends _ _ _ described named)
  refine ⟨next, ?_, kept, grows, isDone⟩
  simp only [visit, if_neg open_, described, if_pos extra, bind_eq_bind, bind_some]
  exact ran

theorem visit_full_works (main : ∃ target, find entry repos = some target)
    (previous : ∀ less < bound, FullWorks repos entry known (visit repos known depth) less ∧
      ∀ other, VisitWorks repos entry known (visit repos known depth) less other) :
    FullWorks repos entry known (visit repos known (depth + 1)) bound := by
  intro reached name sound few need
  by_cases settled : name ∈ known ∨ name ∈ reached.toImport
  · refine ⟨reached.discard name, by simp only [visit]; exact if_pos settled, sound.discard name,
      ⟨sound.below_discard settled, fun _ member new => absurd member new⟩, settled⟩
  · obtain ⟨unknown, absent⟩ := not_or.mp settled
    have source := need unknown
    obtain ⟨desc, described⟩ := source.present closed main
    generalize begun : (Reached.mk (name :: reached.toImport) (reached.discard name).extraImports) =
      start
    have notExtra : name ∉ (reached.discard name).extraImports := fun member =>
      of_decide_eq_true (mem_filter.mp member).2 rfl
    have startSound : Sound repos entry known start := by
      subst begun
      refine ⟨nodup_cons.mpr ⟨absent, sound.imports_nodup⟩, (sound.discard name).extras_nodup,
        ?_, ?_, (sound.discard name).extras⟩
      · intro other member
        cases mem_cons.mp member with
        | inl same => exact same ▸ notExtra
        | inr old => exact (sound.discard name).disjoint other old
      · intro other member
        cases mem_cons.mp member with
        | inl same => exact same ▸ source
        | inr old => exact sound.imports other old
    have startBelow : Below reached start := by
      subst begun
      refine ⟨fun other member => mem_cons_of_mem _ member, fun other extra => ?_⟩
      by_cases same : other = name
      · exact .inr (same ▸ mem_cons_self)
      · exact .inl (mem_filter.mpr ⟨extra, decide_eq_true same⟩)
    have fewer : missing repos start < missing repos reached := by
      subst begun
      have key : name ∈ repos.map (·.1) := mem_map.mpr ⟨(name, desc), mem_of_find described, rfl⟩
      refine Loops.countP_lt ?_ key (decide_eq_true absent)
        (decide_eq_false fun new => new mem_cons_self)
      intro other absentNow
      exact decide_eq_true fun present =>
        of_decide_eq_true absentNow (mem_cons_of_mem _ present)
    obtain ⟨full, visited⟩ := previous (missing repos start) (by omega)
    obtain ⟨middle, linked, ⟨middleSound, _⟩, middleGrows, links⟩ :=
      @Loops.foldlM_reaches Str Reached (desc.links.map (·.2))
        (fun reached other => visit repos known depth (reached.discard other) other)
        (fun state => Sound repos entry known state ∧ missing repos state ≤ missing repos start)
        (Grows repos known) (fun other state => other ∈ known ∨ other ∈ state.toImport) Grows.refl
        Grows.trans (fun settled grows => settled.imp_right (grows.1.imports _))
        (fun state other member holds => by
          obtain ⟨next, called, kept, grows, here⟩ := full state other holds.1 holds.2 fun unknown =>
            .link source described member unknown
          exact ⟨next, called, ⟨kept, (missing_mono grows.1).trans holds.2⟩, grows, here⟩)
        start ⟨startSound, le_refl _⟩
    obtain ⟨next, ran, kept, grows, isDone⟩ := visitRoots_works closed descends deep full middleSound
      (missing_mono middleGrows.1) (by decide) source described fun other _ => visited other
    have allGrows := middleGrows.trans grows
    have imported : name ∈ next.toImport := by
      subst begun
      exact allGrows.1.imports name mem_cons_self
    refine ⟨next, ?_, kept, ⟨startBelow.trans allGrows.1, ?_⟩, .inr imported⟩
    · have open_ : ¬(name ∈ known ∨ name ∈ (reached.discard name).toImport) := settled
      simp only [visit, if_neg open_, described, if_neg notExtra, bind_eq_bind, bind_some]
      change ((List.foldlM (fun reached other => visit repos known depth (reached.discard other) other)
        (Reached.mk (name :: reached.toImport) (reached.discard name).extraImports)
        (desc.links.map (·.2))).bind _) = _
      rw [begun, linked]
      exact ran
    · intro other member new
      by_cases same : other = name
      · subst same
        refine ⟨isDone, fun desc' again link member => ?_⟩
        rw [described] at again
        cases again
        exact (links link member).imp_right (grows.1.imports link)
      · refine allGrows.2 other member fun old => ?_
        subst begun
        exact new ((mem_cons.mp old).resolve_left same)

end

theorem visit_works (closed : Closed repos) (main : ∃ target, find entry repos = some target)
    (bound : Nat) : ∃ enough, ∀ depth, enough ≤ depth →
      FullWorks repos entry known (visit repos known depth) bound ∧
        ∀ name, VisitWorks repos entry known (visit repos known depth) bound name := by
  obtain ⟨rank, descends⟩ := closed.acyclic
  obtain ⟨top, ranked⟩ := ranks_bounded repos rank
  have deep : ∀ depth, top ≤ depth → ∀ name desc, find name repos = some desc → rank name < depth :=
    fun depth large name desc described => Nat.lt_of_lt_of_le (ranked name desc described) large
  -- With the full imports settled, the visits follow by the rank of the repository.
  have visits : ∀ bound, (∃ enough, ∀ depth, enough ≤ depth →
      FullWorks repos entry known (visit repos known depth) bound) → ∀ height, ∃ enough, ∀ depth,
      enough ≤ depth → ∀ name, rank name < height →
        VisitWorks repos entry known (visit repos known depth) bound name := by
    rintro bound ⟨first, full⟩ height
    induction height with
    | zero => exact ⟨0, fun _ _ _ low => absurd low (Nat.not_lt_zero _)⟩
    | succ height step =>
      obtain ⟨second, visited⟩ := step
      refine ⟨top + first + second + 1, fun depth large name low => ?_⟩
      obtain ⟨depth, rfl⟩ := Nat.exists_eq_add_of_le' (show 1 ≤ depth by omega)
      exact visit_visited_works closed descends (deep depth (by omega)) (full depth (by omega)) main
        fun other lower => visited depth (by omega) other (by omega)
  have both : ∀ bound, (∃ enough, ∀ depth, enough ≤ depth →
      FullWorks repos entry known (visit repos known depth) bound) → ∃ enough, ∀ depth,
      enough ≤ depth → FullWorks repos entry known (visit repos known depth) bound ∧
        ∀ name, VisitWorks repos entry known (visit repos known depth) bound name := by
    intro bound works
    obtain ⟨second, visited⟩ := visits bound works top
    obtain ⟨first, full⟩ := works
    refine ⟨first + second, fun depth large => ⟨full depth (by omega), ?_⟩⟩
    intro name reached sound few extra need
    obtain ⟨desc, described⟩ := need.present closed main
    exact visited depth (by omega) name (ranked name desc described) reached sound few extra need
  induction bound with
  | zero =>
    refine both 0 ⟨top + 1, fun depth large => ?_⟩
    obtain ⟨depth, rfl⟩ := Nat.exists_eq_add_of_le' (show 1 ≤ depth by omega)
    exact visit_full_works closed descends (deep depth (by omega)) main fun less low =>
      absurd low (Nat.not_lt_zero _)
  | succ bound step =>
    obtain ⟨enough, works⟩ := step
    refine both (bound + 1) ⟨top + enough + 1, fun depth large => ?_⟩
    obtain ⟨depth, rfl⟩ := Nat.exists_eq_add_of_le' (show 1 ≤ depth by omega)
    refine visit_full_works closed descends (deep depth (by omega)) main fun less low => ?_
    obtain ⟨full, visited⟩ := works depth (by omega)
    exact ⟨fun reached other sound few => full reached other sound (by omega),
      fun other reached sound few => visited other reached sound (by omega)⟩

/-! ## What is collected -/

/-- A repository is collected for its use. -/
def CollectedFor (repos : Repositories Value) (known : List Str) (reached : Reached) (name : Str) :
    Use → Prop
  | .full => name ∈ reached.toImport
  | .visited => name ∈ reached.toImport ∨
      name ∈ reached.extraImports ∧ Done repos known reached name
  | .layer => name ∈ reached.toImport ∨ name ∈ reached.extraImports

theorem CollectedFor.isDone
    (complete : ∀ name ∈ reached.toImport, Complete repos known reached name)
    (proper : use ≠ .layer) (collected : CollectedFor repos known reached name use) :
    Done repos known reached name := by
  cases use with
  | full => exact (complete name collected).1
  | visited =>
    cases collected with
    | inl imported => exact (complete name imported).1
    | inr visited => exact visited.2
  | layer => exact absurd rfl proper

theorem needed_collected (complete : ∀ name ∈ reached.toImport, Complete repos known reached name)
    (main : entry ∈ known ∨ entry ∈ reached.toImport) (need : Needed repos entry known use name) :
    CollectedFor repos known reached name use := by
  induction need with
  | entry unknown => exact main.resolve_left unknown
  | link _ described member unknown step =>
    exact ((complete _ step).2 _ described _ member).resolve_left unknown
  | @reference _ _ other _ proper _ described named unknown step =>
    cases step.isDone complete proper with
    | done again _ added further _ =>
      rw [described] at again
      cases again
      by_cases imported : other ∈ reached.toImport
      · exact .inl imported
      · exact .inr ⟨added _ named unknown imported, further _ named unknown imported⟩
  | base proper _ described inPlace computed unknown step =>
    cases step.isDone complete proper with
    | done again bases _ _ _ =>
      rw [described] at again
      cases again
      exact (bases _ _ inPlace computed).resolve_left unknown
  | layer proper _ described member unknown step =>
    cases step.isDone complete proper with
    | done again _ _ _ layers =>
      rw [described] at again
      cases again
      exact (layers _ member).1.resolve_left unknown
  | layerBase proper _ described member found chain unknown step =>
    cases step.isDone complete proper with
    | done again _ _ _ layers =>
      rw [described] at again
      cases again
      exact ((layers _ member).2 _ _ found chain).resolve_left unknown

/-- What the traversal collects: what is needed in full, and what else is needed. -/
structure Collected (repos : Repositories Value) (entry : Str) (known : List Str)
    (reached : Reached) : Prop where
  imports_nodup : reached.toImport.Nodup
  extras_nodup : reached.extraImports.Nodup
  imports : ∀ name, name ∈ reached.toImport ↔ Needed repos entry known .full name
  extras : ∀ name, name ∈ reached.extraImports ↔
    (Needed repos entry known .visited name ∨ Needed repos entry known .layer name) ∧
      ¬Needed repos entry known .full name

theorem reposToImport_collects (closed : Closed repos)
    (main : ∃ target, find entry repos = some target) : ∃ enough, ∀ depth, enough ≤ depth →
      ∃ reached, reposToImport repos depth entry known = some reached ∧
        Collected repos entry known reached := by
  have empty : Sound repos entry known ⟨[], []⟩ := ⟨.nil, .nil, by simp, by simp, by simp⟩
  obtain ⟨enough, works⟩ := @visit_works _ repos entry known closed main (missing repos ⟨[], []⟩)
  refine ⟨enough, fun depth large => ?_⟩
  obtain ⟨reached, called, sound, grows, here⟩ := (works depth large).1 ⟨[], []⟩ entry empty
    (le_refl _) fun unknown => .entry unknown
  have complete : ∀ name ∈ reached.toImport, Complete repos known reached name :=
    fun name member => grows.2 name member not_mem_nil
  have imports : ∀ name, name ∈ reached.toImport ↔ Needed repos entry known .full name :=
    fun name => ⟨sound.imports name, fun need => needed_collected complete here need⟩
  refine ⟨reached, called, sound.imports_nodup, sound.extras_nodup, imports, fun name => ?_⟩
  constructor
  · intro extra
    exact ⟨sound.extras name extra, fun need =>
      sound.disjoint name ((imports name).mpr need) extra⟩
  · rintro ⟨need | need, notFull⟩
    · cases needed_collected complete here need with
      | inl full => exact absurd ((imports name).mp full) notFull
      | inr visited => exact visited.1
    · exact (needed_collected complete here need).resolve_left fun full =>
        notFull ((imports name).mp full)

end

end Jst.Verif.ReposToImport
