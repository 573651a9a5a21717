import Jst.Expression.Value
/-!
# Configurations

A configuration is the environment of an evaluation: a map from variable names to values. Reading a
variable that is not in the map yields null, so two configurations are alike for an evaluation if
they give the same value to every variable it reads.
-/
namespace Jst.Expression

open SortedMap

/-- A `Configuration`, by the items of its map. -/
abbrev Configuration := List (Str × Value)

namespace Configuration

/-- `Configuration::operator[]` — a missing variable is null. -/
def get (env : Configuration) (key : Str) : Value := (find key env).getD .none

/-- `Configuration::Prune` — the given variables only; those that are missing become null. -/
def prune (env : Configuration) (vars : List Str) : Configuration :=
  emplaceAll (vars.map fun key => (key, (find key env).getD .none)) []

/-- `Configuration::Update` with one variable. -/
def update (env : Configuration) (name : Str) (value : Value) : Configuration :=
  insert name value env

/-- `Configuration::Update` with several variables. -/
def updateAll (env update : Configuration) : Configuration := union update env

@[simp]
theorem get_update (env : Configuration) (name key : Str) (value : Value) :
    get (update env name value) key = if name = key then value else get env key := by
  rw [get, update, find_insert]
  split
  · rfl
  · rfl

theorem get_updateAll (env update : Configuration) (key : Str) :
    get (updateAll env update) key = ((find key update).or (find key env)).getD .none := by
  rw [get, updateAll, find_union]

variable {vars : List Str}

theorem get_prune (env : Configuration) {key : Str} (listed : key ∈ vars) :
    get (prune env vars) key = get env key := by
  have found : find key (prune env vars) = some (get env key) := by
    rw [prune, find_emplaceAll, find_nil, none_or]
    refine find_of_unique (mem_map.mpr ⟨key, listed, rfl⟩) fun other member => ?_
    obtain ⟨name, -, same⟩ := mem_map.mp member
    cases same
    rfl
  rw [get, found, getD_some]

theorem get_prune_of_not_mem (env : Configuration) {key : Str}
    (missing : key ∉ vars) : get (prune env vars) key = .none := by
  have absent : find key (prune env vars) = none := by
    rw [prune, find_emplaceAll, find_nil, none_or, find_eq_none]
    intro entry member same
    obtain ⟨name, listed, made⟩ := mem_map.mp member
    rw [← made] at same
    exact missing (same ▸ listed)
  rw [get, absent, getD_none]

theorem prune_congr {env other : Configuration}
    (agree : ∀ key ∈ vars, get env key = get other key) : prune env vars = prune other vars := by
  have entries : (vars.map fun key => (key, (find key env).getD .none)) =
      vars.map fun key => (key, (find key other).getD .none) :=
    map_congr_left fun key listed => congrArg (key, ·) (agree key listed)
  rw [prune, entries, prune]

end Configuration

end Jst.Expression
