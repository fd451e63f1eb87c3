import DecisionTable.Tree.Merging

/-!
# Running a merge

One equation per step of a computation that merges or fills, so that running one is rewriting.

* `Filling.siteAfter` : where filling a level ends, which a failure tells too;
* `Filling.Keeps` : properties of a level that filling it keeps, whether it succeeds or fails;
* `Merging.Returns` : a success ends at the key path where it began.
-/

namespace DecisionTable

variable {ε σ L α β : Type}

theorem bind_run (x : EStateM ε σ α) (f : α → EStateM ε σ β) (s : σ) :
    (x >>= f) s = match x s with
      | .ok a s => f a s
      | .error e s => .error e s := rfl

theorem map_run (f : α → β) (x : EStateM ε σ α) (s : σ) :
    (f <$> x) s = match x s with
      | .ok a s => .ok (f a) s
      | .error e s => .error e s := rfl

theorem get_run (s : σ) : (get : EStateM ε σ σ) s = .ok s s := rfl

namespace Filling

variable (site : Site L)

theorem push_run (segment : String) : (push segment : Filling L Unit) site =
    .ok () { site with path := site.path.push segment } := rfl

theorem pop_run : (pop : Filling L Unit) site = .ok () { site with path := site.path.pop } := rfl

theorem setLevel_run (level : L) :
    (setLevel level : Filling L Unit) site = .ok () { site with level } := rfl

theorem merging_run (act : Merging α) :
    (merging act : Filling L α) site = match act site.path with
      | .ok a path => .ok a { site with path }
      | .error e path => .error e { site with path } := rfl

theorem into_run (level : L) (act : Filling L Unit) (path : KeyPath) :
    into level act path = match act ⟨level, path⟩ with
      | .ok _ site => .ok site.level site.path
      | .error e site => .error e site.path := rfl

/-- The outcome of replacing a child, after merging it one step down. -/
def settle (put : α → L) (spoiled : L) :
    EStateM.Result TableError KeyPath α → EStateM.Result TableError (Site L) Unit
  | .ok merged path => .ok () ⟨put merged, path.pop⟩
  | .error e path => .error e ⟨spoiled, path⟩

/-! ## Where filling ends -/

def siteAfter : EStateM.Result TableError (Site L) Unit → Site L
  | .ok _ site => site
  | .error _ site => site

/-- Filling a level keeps a property of it, also where it fails. -/
def Keeps (Q : L → Prop) (act : Filling L Unit) : Prop :=
  ∀ site, Q site.level → Q (siteAfter (act site)).level

variable {Q : L → Prop}

theorem keeps_pure : Keeps Q (pure ()) := fun _ h => h

theorem Keeps.seq {act act' : Filling L Unit} (hact : Keeps Q act) (hact' : Keeps Q act') :
    Keeps Q (do act; act') := by
  intro site h
  have hlevel := hact site h
  rw [bind_run]
  cases hrun : act site with
  | ok _ site' =>
      rw [hrun] at hlevel
      exact hact' site' hlevel
  | error e site' =>
      rw [hrun] at hlevel
      exact hlevel

/-- A level whose child is replaced has a property that it has with any child there. -/
theorem level_settle {put : α → L} {spoiled : L} (hput : ∀ c, Q (put c)) (hspoiled : Q spoiled)
    (result : EStateM.Result TableError KeyPath α) :
    Q (siteAfter (settle put spoiled result)).level := by
  cases result with
  | ok merged path => exact hput merged
  | error e path => exact hspoiled

end Filling

/-! ## Where a success ends -/

/-- A merge that succeeds ends at the path where it began. -/
def Merging.Returns (act : Merging α) : Prop :=
  ∀ path a path', act path = .ok a path' → path' = path

end DecisionTable
