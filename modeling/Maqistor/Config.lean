import Maqistor.Lib.Outcome
import Mathlib.Data.List.Nodup
import Mathlib.Data.List.Infix

/-! The queues of the configuration file, and the part of `AppConfig::validate` that looks at them.
What the file system says about a path is a parameter. -/

namespace Maqistor

structure ContainerMountConfig where
  source : String
  target : String
  readOnly : Bool
deriving DecidableEq, Repr

/-- `env_vars` is a map, in the order of its iteration. -/
structure ManagedConfig where
  image : String
  replicas : UInt32
  envFile : Option String
  envVars : Option (List (String × String))
  mounts : Option (List ContainerMountConfig)
deriving DecidableEq, Repr

structure QueueConfig where
  name : String
  maxRetries : UInt32
  timeoutSecs : UInt64
  managedConfig : Option ManagedConfig
deriving DecidableEq, Repr

/-- The errors of `validate` about queues, each with the value that its text shows. -/
inductive ConfigError where
  /-- "queue names must be nonempty and unique" -/
  | queueNames
  /-- "queue {name} must have a positive timeout" -/
  | timeout (queue : String)
  /-- "managed queue {name} requires an image and positive replicas" -/
  | managedQueue (queue : String)
  /-- "managed image {image} must use an explicit version tag or immutable digest" -/
  | untaggedImage (image : String)
  /-- "managed image {image} uses unsupported floating tag; .." -/
  | floatingTag (image : String)
  /-- "managed env file {path} does not exist" -/
  | envFile (path : String)
  /-- "managed env vars must be nonempty" -/
  | envVars
  /-- "managed mount source and target must be nonempty" -/
  | emptyMount
  /-- "managed mount target {target} must be an absolute container path" -/
  | relativeTarget (target : String)
  /-- "managed mount source {source} does not exist" -/
  | mountSource (source : String)
  /-- "managed mount target {target} is duplicated" -/
  | duplicateTarget (target : String)
deriving DecidableEq, Repr

/-- What `Path::is_file` and `Path::exists` answer. -/
structure Files where
  isFile : String → Bool
  pathExists : String → Bool

/-- `char::is_whitespace`: the Unicode property `White_Space`. -/
def isWhitespace (c : Char) : Bool :=
  (9 ≤ c.toNat && c.toNat ≤ 13) || c.toNat == 0x20 || c.toNat == 0x85 || c.toNat == 0xA0 ||
    c.toNat == 0x1680 || (0x2000 ≤ c.toNat && c.toNat ≤ 0x200A) || c.toNat == 0x2028 ||
    c.toNat == 0x2029 || c.toNat == 0x202F || c.toNat == 0x205F || c.toNat == 0x3000

/-- `text.trim().is_empty()`. -/
def blank (text : String) : Bool := text.toList.all isWhitespace

/-- The characters behind the last `c`, or all of them. -/
def behindLast (c : Char) (chars : List Char) : List Char :=
  (chars.reverse.takeWhile (· ≠ c)).reverse

/-- The tag of an image reference: `rsplit('/').next()`, then `rsplit_once(':')`. -/
def imageTag (image : String) : Option String :=
  let reference := behindLast '/' image.toList
  if ':' ∈ reference then some (String.ofList (behindLast ':' reference)) else none

def validateManagedImage (image : String) : Except ConfigError Unit :=
  let digest : Bool := "@sha256:".toList <:+: image.toList
  if !digest ∧ imageTag image = none then .error (.untaggedImage image)
  else if imageTag image = some "latest" ∨ imageTag image = some "stable" then
    .error (.floatingTag image)
  else .ok ()

def validateManagedEnvFile (files : Files) : Option String → Except ConfigError Unit
  | some path => if files.isFile path then .ok () else .error (.envFile path)
  | none => .ok ()

def validateManagedEnvVars : Option (List (String × String)) → Except ConfigError Unit
  | some vars =>
    if vars.any fun entry => entry.1 = "" ∨ entry.2 = "" then .error .envVars else .ok ()
  | none => .ok ()

/-- The loop of `validate_managed_mounts`, with the targets so far. -/
def validateMounts (files : Files) : List String → List ContainerMountConfig →
    Except ConfigError Unit
  | _, [] => .ok ()
  | targets, mount :: mounts =>
    if blank mount.source ∨ blank mount.target then .error .emptyMount
    else if mount.target.toList.head? ≠ some '/' then .error (.relativeTarget mount.target)
    else if !files.pathExists mount.source then .error (.mountSource mount.source)
    else if mount.target ∈ targets then .error (.duplicateTarget mount.target)
    else validateMounts files (mount.target :: targets) mounts

def validateManagedMounts (files : Files) : Option (List ContainerMountConfig) →
    Except ConfigError Unit
  | none => .ok ()
  | some mounts => validateMounts files [] mounts

/-- The checks of a queue's `managed_config`. -/
def validateManaged (files : Files) (queue : String) : Option ManagedConfig →
    Except ConfigError Unit
  | none => .ok ()
  | some config =>
    if config.image = "" ∨ config.replicas = 0 then .error (.managedQueue queue)
    else do
      validateManagedImage config.image
      validateManagedEnvFile files config.envFile
      validateManagedEnvVars config.envVars
      validateManagedMounts files config.mounts

/-- The loop of `validate` over the queues, with the names so far. -/
def validateQueuesFrom (files : Files) : List String → List QueueConfig → Except ConfigError Unit
  | _, [] => .ok ()
  | names, queue :: queues =>
    if blank queue.name ∨ queue.name ∈ names then .error .queueNames
    else if queue.timeoutSecs = 0 then .error (.timeout queue.name)
    else do
      validateManaged files queue.name queue.managedConfig
      validateQueuesFrom files (queue.name :: names) queues

def validateQueues (files : Files) (queues : List QueueConfig) : Except ConfigError Unit :=
  validateQueuesFrom files [] queues

/-! ### What is valid -/

theorem validateManaged_replicas {files : Files} {queue : String} {config : ManagedConfig}
    (h : validateManaged files queue (some config) = .ok ()) : config.replicas ≠ 0 := by
  simp only [validateManaged] at h
  split at h
  · cases h
  · next hvalid => exact (not_or.mp hvalid).2

theorem validateQueuesFrom_ok {files : Files} {names : List String} {queues : List QueueConfig}
    (h : validateQueuesFrom files names queues = .ok ()) :
    (queues.map QueueConfig.name).Nodup ∧ (∀ queue ∈ queues, queue.name ∉ names) ∧
      ∀ queue ∈ queues, ∀ config, queue.managedConfig = some config → config.replicas ≠ 0 := by
  induction queues generalizing names with
  | nil => simp
  | cons queue queues ih =>
    rw [validateQueuesFrom] at h
    split at h
    · cases h
    · next hname =>
      split at h
      · cases h
      · obtain ⟨_, hmanaged, hrest⟩ := Outcome.bind_eq_ok.mp h
        obtain ⟨hnodup, hnames, hreplicas⟩ := ih hrest
        refine ⟨List.nodup_cons.mpr ⟨fun hmem => ?_, hnodup⟩, ?_, ?_⟩
        · obtain ⟨other, hother, hsame⟩ := List.mem_map.mp hmem
          exact hnames other hother (hsame ▸ List.mem_cons_self)
        · intro other hother
          rcases List.mem_cons.mp hother with rfl | hother
          · exact (not_or.mp hname).2
          · exact fun hmem => hnames other hother (List.mem_cons_of_mem _ hmem)
        · intro other hother config hconfig
          rcases List.mem_cons.mp hother with rfl | hother
          · rw [hconfig] at hmanaged
            exact validateManaged_replicas hmanaged
          · exact hreplicas other hother config hconfig

/-- Valid queues have distinct names, and a managed one has a replica. -/
theorem validateQueues_ok {files : Files} {queues : List QueueConfig}
    (h : validateQueues files queues = .ok ()) :
    (queues.map QueueConfig.name).Nodup ∧
      ∀ queue ∈ queues, ∀ config, queue.managedConfig = some config → config.replicas ≠ 0 := by
  obtain ⟨hnodup, -, hreplicas⟩ := validateQueuesFrom_ok h
  exact ⟨hnodup, hreplicas⟩

end Maqistor
