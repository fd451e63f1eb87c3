import DecisionTable.Key.Path
import DecisionTable.Error

/-!
# Merging at a key path

Merging walks down two trees at once and keeps the key path of its position. When it fails, the path
stays where it failed, which is where the conflict is. Filling is merging into one level of a tree:
the level is changed in place, so that a failure leaves it as far as the work had come.

* `Merging` : computations that move along a key path;
* `Filling` : computations that also change the level at that path;
* `Filling.merging`, `Filling.into` : from one to the other and back.
-/

namespace DecisionTable

/-- A computation that merges structures at a key path. -/
abbrev Merging (α : Type) := EStateM TableError KeyPath α

/-- A level of a tree that is being filled, and the key path of its position. -/
structure Site (L : Type) where
  level : L
  path : KeyPath

/-- A computation that fills a level. -/
abbrev Filling (L α : Type) := EStateM TableError (Site L) α

namespace Filling

variable {L α : Type}

/-- Steps one segment down. -/
def push (segment : String) : Filling L Unit :=
  modify fun site => { site with path := site.path.push segment }

/-- Steps one segment up. -/
def pop : Filling L Unit :=
  modify fun site => { site with path := site.path.pop }

/-- Replaces the level. -/
def setLevel (level : L) : Filling L Unit :=
  modify fun site => { site with level }

/-- Merges at the path of the level, without touching the level. -/
def merging (act : Merging α) : Filling L α := fun site =>
  match act site.path with
  | .ok a path => .ok a { site with path }
  | .error e path => .error e { site with path }

/-- Fills a level, and gives it back filled. -/
def into (level : L) (act : Filling L Unit) : Merging L := fun path =>
  match act { level, path } with
  | .ok _ site => .ok site.level site.path
  | .error e site => .error e site.path

end Filling

end DecisionTable
