import Maqistor.Adaptive.Controller
import Maqistor.Types

/-! The options of the writers as the configuration file gives them: what it leaves out keeps its
default, and all of it is validated before a writer starts. -/

namespace Maqistor

inductive DurabilityMode where
  | none
  | balanced
  | strict
deriving DecidableEq, Repr

structure SqliteWriteOptions where
  durability : DurabilityMode
  enqueue : BatchOptions
  completion : BatchOptions

namespace SqliteWriteOptions

/-- `SqliteWriteOptions::default()`. -/
def defaults : SqliteWriteOptions :=
  { durability := .none, enqueue := .enqueueDefaults, completion := .completionDefaults }

def validate (options : SqliteWriteOptions) : Except String Unit := do
  options.enqueue.validate "persistence.enqueue"
  options.completion.validate "persistence.completion"

end SqliteWriteOptions

/-- A section of the configuration file; each value may be left out. -/
structure BatchConfig where
  batchSizeMin : Option UInt64
  batchSizeMax : Option UInt64
  batchWaitMinMs : Option UInt64
  batchWaitMaxMs : Option UInt64
  ewmaWindow : Option UInt64
  batchProbeFactor : Option Float
  batchBackoffFactor : Option Float

/-- `Duration::from_millis`. -/
def fromMillis (millis : UInt64) : Nat := millis.toNat * nanosPerMilli

/-- `as_millis() as u64`. -/
def asMillis (duration : Nat) : UInt64 := (duration / nanosPerMilli).toUInt64

namespace BatchConfig

def empty : BatchConfig :=
  { batchSizeMin := none, batchSizeMax := none, batchWaitMinMs := none, batchWaitMaxMs := none
    ewmaWindow := none, batchProbeFactor := none, batchBackoffFactor := none }

def apply (config : BatchConfig) (options : BatchOptions) : BatchOptions :=
  { batchSizeMin := config.batchSizeMin.getD options.batchSizeMin
    batchSizeMax := config.batchSizeMax.getD options.batchSizeMax
    batchWaitMin := fromMillis (config.batchWaitMinMs.getD (asMillis options.batchWaitMin))
    batchWaitMax := fromMillis (config.batchWaitMaxMs.getD (asMillis options.batchWaitMax))
    ewmaWindow := config.ewmaWindow.getD options.ewmaWindow
    batchProbeFactor := config.batchProbeFactor.getD options.batchProbeFactor
    batchBackoffFactor := config.batchBackoffFactor.getD options.batchBackoffFactor }

end BatchConfig

/-- What `write_options` reads of the section `persistence`. -/
structure PersistenceConfig where
  durability : DurabilityMode
  enqueue : BatchConfig
  completion : BatchConfig

namespace PersistenceConfig

def writeOptions (config : PersistenceConfig) : Except String SqliteWriteOptions := do
  let options : SqliteWriteOptions :=
    { durability := config.durability
      enqueue := config.enqueue.apply .enqueueDefaults
      completion := config.completion.apply .completionDefaults }
  options.validate
  return options

end PersistenceConfig

/-! ### What is validated -/

/-- What `validate` lets through. -/
theorem BatchOptions.validate_ok {options : BatchOptions} {sectionName : String}
    (h : options.validate sectionName = .ok ()) :
    (options.batchProbeFactor.isFinite = true ∧ ¬options.batchProbeFactor ≤ 1.0) ∧
      (0.0 ≤ options.batchBackoffFactor ∧ options.batchBackoffFactor < 1.0) ∧
      (options.batchSizeMin ≠ 0 ∧ options.batchSizeMin ≤ options.batchSizeMax) ∧
      options.batchWaitMin ≤ options.batchWaitMax := by
  unfold validate at h
  split at h
  · cases h
  · split at h
    · cases h
    · next hprobe =>
      split at h
      · cases h
      · next hbackoff =>
        split at h
        · cases h
        · next hsize =>
          split at h
          · cases h
          · next hwait =>
            obtain ⟨hfinite, habove⟩ := not_or.mp hprobe
            obtain ⟨hpos, hmax⟩ := not_or.mp hsize
            exact ⟨⟨Bool.eq_true_of_not_eq_false hfinite, habove⟩, not_not.mp (not_or.mp hbackoff).2,
              ⟨hpos, UInt64.not_lt.mp hmax⟩, Nat.not_lt.mp (not_or.mp hwait).2⟩

/-- An error names the section that it is about. -/
theorem BatchOptions.validate_error {options : BatchOptions} {sectionName error : String}
    (h : options.validate sectionName = .error error) :
    ∃ rest, error = sectionName ++ ("." ++ rest) := by
  unfold validate at h
  split at h
  · exact ⟨"ewma_window must be greater than zero", (Except.error.inj h).symm⟩
  · split at h
    · exact ⟨"batch_probe_factor must be greater than one", (Except.error.inj h).symm⟩
    · split at h
      · exact ⟨"batch_backoff_factor must be greater than zero and less than one",
          (Except.error.inj h).symm⟩
      · split at h
        · exact ⟨"batch_size_min must be positive and not exceed batch_size_max",
            (Except.error.inj h).symm⟩
        · split at h
          · exact ⟨"batch_wait_min_ms must be positive and not exceed batch_wait_max_ms",
              (Except.error.inj h).symm⟩
          · cases h

theorem SqliteWriteOptions.validate_ok {options : SqliteWriteOptions} (h : options.validate = .ok ()) :
    options.enqueue.validate "persistence.enqueue" = .ok () ∧
      options.completion.validate "persistence.completion" = .ok () := by
  unfold validate at h
  cases henqueue : options.enqueue.validate "persistence.enqueue" with
  | error error =>
    rw [henqueue] at h
    cases h
  | ok =>
    rw [henqueue] at h
    exact ⟨rfl, h⟩

/-- An error names the option that it is about. -/
theorem PersistenceConfig.writeOptions_error {config : PersistenceConfig} {error : String}
    (h : config.writeOptions = .error error) :
    ∃ rest, error = "persistence.enqueue" ++ ("." ++ rest) ∨
      error = "persistence.completion" ++ ("." ++ rest) := by
  unfold writeOptions SqliteWriteOptions.validate at h
  dsimp only at h
  cases henqueue : (config.enqueue.apply .enqueueDefaults).validate "persistence.enqueue" with
  | error text =>
    rw [henqueue] at h
    obtain ⟨rest, hrest⟩ := BatchOptions.validate_error henqueue
    exact ⟨rest, Or.inl ((Except.error.inj h).symm.trans hrest)⟩
  | ok =>
    rw [henqueue] at h
    cases hcompletion : (config.completion.apply .completionDefaults).validate "persistence.completion" with
    | error text =>
      rw [hcompletion] at h
      obtain ⟨rest, hrest⟩ := BatchOptions.validate_error hcompletion
      exact ⟨rest, Or.inr ((Except.error.inj h).symm.trans hrest)⟩
    | ok =>
      rw [hcompletion] at h
      cases h

/-- An empty section `persistence` leaves the defaults, and they are valid. -/
theorem PersistenceConfig.writeOptions_empty :
    writeOptions { durability := .none, enqueue := .empty, completion := .empty } = .ok .defaults := by
  rfl

end Maqistor
