namespace EventSourcing

/-- How often a command is tried again after a lost race. -/
structure OptimisticRetryLimit where
  value : Nat
  le_max : value ≤ 100
  deriving DecidableEq, Repr

/-- How often an operation repeats a step that others keep undoing. -/
structure LiveLockLimit where
  value : Nat
  pos : 1 ≤ value
  le_max : value ≤ 1000000
  deriving DecidableEq, Repr

inductive LimitError where
  | retryTooBig
  | liveLockTooSmall
  | liveLockTooBig
  deriving DecidableEq, Repr

namespace LimitError

def message : LimitError → String
  | retryTooBig => "OptimisticRetryLimit is too big. The value must be less or equal to 100."
  | liveLockTooSmall => "LiveLockLimit is too small. The value must be greater or equal to 1."
  | liveLockTooBig => "LiveLockLimit is too big. The value must be less or equal to 1000000."

/-- The name of the type that refuses. -/
def typeName : LimitError → String
  | retryTooBig => "OptimisticRetryLimit"
  | liveLockTooSmall | liveLockTooBig => "LiveLockLimit"

end LimitError

namespace OptimisticRetryLimit

def ofNat (n : Nat) : Except LimitError OptimisticRetryLimit :=
  if h : n ≤ 100 then .ok ⟨n, h⟩ else .error .retryTooBig

def standard : OptimisticRetryLimit :=
  ⟨10, by decide⟩

end OptimisticRetryLimit

namespace LiveLockLimit

def ofNat (n : Nat) : Except LimitError LiveLockLimit :=
  if hpos : 1 ≤ n then
    if hmax : n ≤ 1000000 then .ok ⟨n, hpos, hmax⟩ else .error .liveLockTooBig
  else
    .error .liveLockTooSmall

def standard : LiveLockLimit :=
  ⟨10000, by decide, by decide⟩

/-- There is always a first pass. -/
theorem exists_value_eq_succ (limit : LiveLockLimit) : ∃ passes, limit.value = passes + 1 :=
  Nat.exists_eq_add_of_le' limit.pos

end LiveLockLimit

/-- The configuration of command processing. -/
structure StoreConfig where
  retryLimit : OptimisticRetryLimit := .standard
  deriving DecidableEq, Repr

structure RepositoryConfig where
  liveLockLimit : LiveLockLimit := .standard
  deriving DecidableEq, Repr

namespace StoreConfig

def standard : StoreConfig :=
  {}

/-- A command is tried once more than it may be retried. -/
def maxAttempts (config : StoreConfig) : Nat :=
  config.retryLimit.value + 1

end StoreConfig

namespace RepositoryConfig

def standard : RepositoryConfig :=
  {}

end RepositoryConfig

end EventSourcing
