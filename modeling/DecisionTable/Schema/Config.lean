/-!
# Build configuration

Two settings of a build: whether keys must be of the declared types, and the number of rows above
which a build gives a warning.
-/

namespace DecisionTable

structure BuildConfig where
  checkKeyTypes : Bool := true
  largeTableWarning : Nat := 100000
  deriving DecidableEq, Inhabited

namespace BuildConfig

/-- The configuration with type checks switched on or off. -/
def withCheckKeyTypes (config : BuildConfig) (value : Bool) : BuildConfig :=
  { config with checkKeyTypes := value }

/-- The configuration with another warning threshold. -/
def withLargeTableWarning (config : BuildConfig) (rows : Nat) : BuildConfig :=
  { config with largeTableWarning := rows }

end BuildConfig

end DecisionTable
