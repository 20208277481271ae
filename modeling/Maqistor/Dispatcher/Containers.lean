import Maqistor.Config

/-! The containers of managed queues. `reconcile` goes through the replicas of every managed queue
and asks Docker for the container of each by its name, so two replicas are kept apart by their names
alone. The name is the queue's with every character but ASCII letters and digits replaced, and the
number of the replica behind it. -/

namespace Maqistor

structure ContainerMount where
  source : String
  target : String
  readOnly : Bool
deriving DecidableEq, Repr

structure ManagedQueue where
  name : String
  image : String
  replicas : UInt32
  env : List String
  mounts : List ContainerMount
deriving DecidableEq, Repr

/-- The managed queues of a configuration. `resolve` reads the environment and the mounts of one
from the file system. -/
def managedQueues (resolve : ManagedConfig → List String × List ContainerMount)
    (queues : List QueueConfig) : List ManagedQueue :=
  queues.filterMap fun queue => queue.managedConfig.map fun config =>
    { name := queue.name, image := config.image, replicas := config.replicas
      env := (resolve config).1, mounts := (resolve config).2 }

/-! ### Names -/

/-- The character that stands for another one in the name of a container. -/
def nameChar (c : Char) : Char := if c.isAlphanum then c else '-'

def sanitized (queue : String) : String := String.ofList (queue.toList.map nameChar)

def containerName (queue : String) (ordinal : UInt32) : String :=
  "maqistor-" ++ sanitized queue ++ "-" ++ toString ordinal

/-- Two queue names that differ only where neither has an ASCII letter or digit. -/
def Confusable (name other : String) : Prop :=
  List.Forall₂ (fun c d => c = d ∨ c.isAlphanum = false ∧ d.isAlphanum = false)
    name.toList other.toList

/-! ### The supervisor -/

/-- What Docker says about a container. -/
structure Inspected where
  image : Option String
  env : List String
  mounts : List ContainerMount
  labels : List (String × String)
deriving DecidableEq, Repr

/-- What `create_container` is given. -/
structure ContainerConfig where
  image : String
  env : List String
  mounts : List ContainerMount
  labels : List (String × String)
deriving DecidableEq, Repr

/-- A request to Docker about a container. -/
inductive DockerCall where
  | inspect (container : String)
  | remove (container : String)
  | create (container : String) (config : ContainerConfig)
  | start (container : String)
deriving DecidableEq, Repr

/-- The container that a request is about. -/
def DockerCall.container : DockerCall → String
  | .inspect container | .remove container | .create container _ | .start container => container

/-- The replies that `ensure` may get: the id of the image, the container if there is one, and
whether the other requests succeed. -/
structure DockerReplies where
  imageId : Option String
  inspected : Option Inspected
  removed : Bool
  created : Bool
  started : Bool
deriving DecidableEq, Repr

/-- Whether a container has to be replaced. -/
def needUpdate (queue : ManagedQueue) (imageId : String) (container : Inspected) : Bool :=
  container.image ≠ some imageId ∨ ¬(∀ wanted ∈ queue.env, wanted ∈ container.env) ∨
    ¬(∀ wanted ∈ queue.mounts, wanted ∈ container.mounts)

def containerConfig (queue : ManagedQueue) (ordinal : UInt32) : ContainerConfig :=
  { image := queue.image, env := queue.env, mounts := queue.mounts
    labels := [("io.maqistor.managed", "true"), ("io.maqistor.queue", queue.name),
      ("io.maqistor.replica", toString ordinal)] }

/-- The last two requests of `ensure`. -/
def createAndStart (queue : ManagedQueue) (ordinal : UInt32) (replies : DockerReplies) :
    List DockerCall × Bool :=
  let name := containerName queue.name ordinal
  if replies.created then
    ([.create name (containerConfig queue ordinal), .start name], replies.started)
  else ([.create name (containerConfig queue ordinal)], false)

/-- `ensure`: its requests about containers, and whether it succeeds. -/
def ensure (queue : ManagedQueue) (ordinal : UInt32) (replies : DockerReplies) :
    List DockerCall × Bool :=
  let name := containerName queue.name ordinal
  match replies.imageId with
  | none => ([], false)
  | some imageId =>
    match replies.inspected with
    | none =>
      let (calls, ok) := createAndStart queue ordinal replies
      (.inspect name :: calls, ok)
    | some container =>
      if needUpdate queue imageId container then
        if container.labels.lookup "io.maqistor.managed" = some "true" then
          if replies.removed then
            let (calls, ok) := createAndStart queue ordinal replies
            (.inspect name :: .remove name :: calls, ok)
          else ([.inspect name, .remove name], false)
        else ([.inspect name], false)
      else ([.inspect name, .start name], true)

/-- A replica of a managed queue. -/
abbrev Replica := ManagedQueue × UInt32

/-- The replicas that `reconcile` goes through. -/
def replicas (queues : List ManagedQueue) : List Replica :=
  queues.flatMap fun queue =>
    (List.range queue.replicas.toNat).map fun ordinal => (queue, UInt32.ofNat ordinal)

/-- `reconcile` over the replicas that are left, each request with the replica it is made for. The
first failure ends it. -/
def reconcileFrom (replies : Replica → DockerReplies) :
    List Replica → List (Replica × DockerCall)
  | [] => []
  | replica :: rest =>
    let (calls, ok) := ensure replica.1 replica.2 (replies replica)
    let requests := calls.map fun call => (replica, call)
    if ok then requests ++ reconcileFrom replies rest else requests

def reconcile (replies : Replica → DockerReplies) (queues : List ManagedQueue) :
    List (Replica × DockerCall) :=
  reconcileFrom replies (replicas queues)

def Replica.container (replica : Replica) : String := containerName replica.1.name replica.2

/-- Two entries of `replicas` that stand for one replica. -/
def Replica.Same (replica other : Replica) : Prop :=
  replica.1.name = other.1.name ∧ replica.2 = other.2

/-- Different replicas have containers of different names, and a request made for a replica is never
about the container of another one. -/
def Separate (queues : List ManagedQueue) : Prop :=
  (∀ replica ∈ replicas queues, ∀ other ∈ replicas queues, ¬replica.Same other →
    replica.container ≠ other.container) ∧
  ∀ replies, ∀ request ∈ reconcile replies queues, ∀ other ∈ replicas queues,
    ¬request.1.Same other → request.2.container ≠ other.container

/-- No two managed queues of different names have names that can be taken for each other. -/
def Distinguishable (queues : List ManagedQueue) : Prop :=
  ∀ queue ∈ queues, ∀ other ∈ queues, queue.name ≠ other.name → ¬Confusable queue.name other.name

/-! ### When two names are the same -/

theorem nameChar_eq {c d : Char} : nameChar c = nameChar d ↔
    c = d ∨ c.isAlphanum = false ∧ d.isAlphanum = false := by
  have hdash : '-'.isAlphanum = false := rfl
  unfold nameChar
  cases hc : c.isAlphanum with
  | true =>
    cases hd : d.isAlphanum with
    | true => simp
    | false =>
      have hne : c ≠ '-' := fun heq => by simp [heq, hdash] at hc
      have hne' : c ≠ d := fun heq => by simp [heq, hd] at hc
      simp [hne, hne']
  | false =>
    cases hd : d.isAlphanum with
    | true =>
      have hne : '-' ≠ d := fun heq => by simp [← heq, hdash] at hd
      have hne' : c ≠ d := fun heq => by simp [heq, hd] at hc
      simp [hne, hne']
    | false => simp

theorem sanitized_eq {name other : String} :
    sanitized name = sanitized other ↔ Confusable name other := by
  rw [sanitized, sanitized, String.ofList_inj, ← List.forall₂_eq_eq_eq, List.forall₂_map_left_iff,
    List.forall₂_map_right_iff, Confusable]
  simp only [nameChar_eq]

/-- Two lists that are cut at their first `x` are the same only part by part. -/
theorem split_at_first {α : Type*} {x : α} {front rest front' rest' : List α} (hfront : x ∉ front)
    (hfront' : x ∉ front') (h : front ++ x :: rest = front' ++ x :: rest') :
    front = front' ∧ rest = rest' := by
  induction front generalizing front' with
  | nil =>
    cases front' with
    | nil => exact ⟨rfl, (List.cons.inj h).2⟩
    | cons y front' =>
      have hhead : x = y := (List.cons.inj h).1
      exact absurd List.mem_cons_self (hhead ▸ hfront')
  | cons y front ih =>
    cases front' with
    | nil =>
      have hhead : y = x := (List.cons.inj h).1
      exact absurd List.mem_cons_self (hhead ▸ hfront)
    | cons z front' =>
      obtain ⟨hhead, htail⟩ := List.cons.inj h
      obtain ⟨hfronts, hrests⟩ := ih (List.not_mem_of_not_mem_cons hfront)
        (List.not_mem_of_not_mem_cons hfront') htail
      exact ⟨by rw [hhead, hfronts], hrests⟩

theorem dash_notMem_digits (n : Nat) : '-' ∉ (toString n).toList := by
  rw [Nat.toString_eq_repr, Nat.toList_repr]
  intro hmem
  have hdigit := Nat.isDigit_of_mem_toDigits (by decide) (by decide) hmem
  revert hdigit
  decide

theorem toString_injective {n m : Nat} (h : toString n = toString m) : n = m := by
  have hdigits : Nat.toDigits 10 n = Nat.toDigits 10 m := by
    rw [← Nat.toList_repr, ← Nat.toList_repr, ← Nat.toString_eq_repr, ← Nat.toString_eq_repr, h]
  rw [← @Nat.ofDigitChars_ten_toDigits n, hdigits, Nat.ofDigitChars_ten_toDigits]

theorem containerName_toList (name : String) (ordinal : UInt32) :
    (containerName name ordinal).toList = "maqistor-".toList ++
      ((sanitized name).toList ++ '-' :: (toString ordinal.toNat).toList) := by
  have hdash : "-".toList = ['-'] := rfl
  have hordinal : toString ordinal = toString ordinal.toNat := rfl
  rw [containerName, String.toList_append, String.toList_append, String.toList_append, hdash,
    hordinal, List.append_assoc, List.append_assoc, List.singleton_append]

/-- A name gives the number of the replica away, as what stands behind its last dash. -/
theorem containerName_inj {name other : String} {ordinal ordinal' : UInt32}
    (h : containerName name ordinal = containerName other ordinal') :
    sanitized name = sanitized other ∧ ordinal = ordinal' := by
  have hlists : (sanitized name).toList ++ '-' :: (toString ordinal.toNat).toList =
      (sanitized other).toList ++ '-' :: (toString ordinal'.toNat).toList := by
    have hchars := congrArg String.toList h
    rw [containerName_toList, containerName_toList] at hchars
    exact List.append_cancel_left hchars
  have hdash : ∀ n : Nat, '-' ∉ (toString n).toList.reverse := by
    intro n hmem
    exact dash_notMem_digits n (List.mem_reverse.mp hmem)
  have hreversed : (toString ordinal.toNat).toList.reverse ++ '-' :: (sanitized name).toList.reverse =
      (toString ordinal'.toNat).toList.reverse ++ '-' :: (sanitized other).toList.reverse := by
    have h := congrArg List.reverse hlists
    rwa [List.reverse_append, List.reverse_append, List.reverse_cons, List.reverse_cons,
      List.append_assoc, List.append_assoc, List.singleton_append, List.singleton_append] at h
  obtain ⟨hdigits, hsanitized⟩ := split_at_first (hdash _) (hdash _) hreversed
  have hordinal := String.toList_inj.mp (List.reverse_inj.mp hdigits)
  exact ⟨String.toList_inj.mp (List.reverse_inj.mp hsanitized),
    UInt32.toNat_inj.mp (toString_injective hordinal)⟩

theorem containerName_eq {name other : String} {ordinal ordinal' : UInt32} :
    containerName name ordinal = containerName other ordinal' ↔
      Confusable name other ∧ ordinal = ordinal' := by
  rw [← sanitized_eq]
  constructor
  · exact containerName_inj
  · rintro ⟨hname, rfl⟩
    rw [containerName, hname, containerName]

/-! ### The requests of a replica -/

theorem createAndStart_container {queue : ManagedQueue} {ordinal : UInt32}
    {replies : DockerReplies} {call : DockerCall} (h : call ∈ (createAndStart queue ordinal replies).1) :
    call.container = containerName queue.name ordinal := by
  unfold createAndStart at h
  split at h
  · rcases List.mem_cons.mp h with rfl | h
    · rfl
    · rw [List.mem_singleton.mp h, DockerCall.container]
  · rw [List.mem_singleton.mp h, DockerCall.container]

/-- `ensure` asks about one container only. -/
theorem ensure_container {queue : ManagedQueue} {ordinal : UInt32} {replies : DockerReplies}
    {call : DockerCall} (h : call ∈ (ensure queue ordinal replies).1) :
    call.container = containerName queue.name ordinal := by
  unfold ensure at h
  split at h
  · cases h
  · split at h
    · rcases List.mem_cons.mp h with rfl | h
      · rfl
      · exact createAndStart_container h
    · split at h
      · split at h
        · split at h
          · rcases List.mem_cons.mp h with rfl | h
            · rfl
            · rcases List.mem_cons.mp h with rfl | h
              · rfl
              · exact createAndStart_container h
          · rcases List.mem_cons.mp h with rfl | h
            · rfl
            · rw [List.mem_singleton.mp h, DockerCall.container]
        · rw [List.mem_singleton.mp h, DockerCall.container]
      · rcases List.mem_cons.mp h with rfl | h
        · rfl
        · rw [List.mem_singleton.mp h, DockerCall.container]

theorem reconcileFrom_container {replies : Replica → DockerReplies} {left : List Replica}
    {request : Replica × DockerCall} (h : request ∈ reconcileFrom replies left) :
    request.1 ∈ left ∧ request.2.container = request.1.container := by
  induction left with
  | nil => cases h
  | cons replica rest ih =>
    have hown : ∀ request ∈ (ensure replica.1 replica.2 (replies replica)).1.map
        fun call => (replica, call), request.1 ∈ replica :: rest ∧
          request.2.container = request.1.container := by
      intro request hrequest
      obtain ⟨call, hcall, rfl⟩ := List.mem_map.mp hrequest
      exact ⟨List.mem_cons_self, ensure_container hcall⟩
    simp only [reconcileFrom] at h
    split at h
    · rcases List.mem_append.mp h with h | h
      · exact hown request h
      · obtain ⟨hmem, hcontainer⟩ := ih h
        exact ⟨List.mem_cons_of_mem _ hmem, hcontainer⟩
    · exact hown request h

/-- The requests of a replica are about its own container. -/
theorem reconcile_container {replies : Replica → DockerReplies} {queues : List ManagedQueue}
    {request : Replica × DockerCall} (h : request ∈ reconcile replies queues) :
    request.1 ∈ replicas queues ∧ request.2.container = request.1.container :=
  reconcileFrom_container h

theorem mem_replicas {queues : List ManagedQueue} {replica : Replica}
    (h : replica ∈ replicas queues) : replica.1 ∈ queues := by
  obtain ⟨queue, hqueue, hordinal⟩ := List.mem_flatMap.mp h
  obtain ⟨ordinal, -, rfl⟩ := List.mem_map.mp hordinal
  exact hqueue

theorem first_mem_replicas {queues : List ManagedQueue} {queue : ManagedQueue} (h : queue ∈ queues)
    (hreplicas : queue.replicas ≠ 0) : (queue, 0) ∈ replicas queues := by
  refine List.mem_flatMap.mpr ⟨queue, h, List.mem_map.mpr ⟨0, ?_, rfl⟩⟩
  refine List.mem_range.mpr (Nat.pos_of_ne_zero fun hzero => hreplicas ?_)
  exact UInt32.toNat_inj.mp hzero

/-- Replicas are kept apart exactly when the names of their queues can be told apart by their
letters and digits and by where these stand. -/
theorem separate_iff {queues : List ManagedQueue} (hreplicas : ∀ queue ∈ queues, queue.replicas ≠ 0) :
    Separate queues ↔ Distinguishable queues := by
  constructor
  · rintro ⟨hnames, -⟩ queue hqueue other hother hne hconfusable
    have hdifferent := hnames (queue, 0) (first_mem_replicas hqueue (hreplicas queue hqueue))
      (other, 0) (first_mem_replicas hother (hreplicas other hother)) fun hsame => hne hsame.1
    exact hdifferent (containerName_eq.mpr ⟨hconfusable, rfl⟩)
  · intro hdistinguishable
    have hnames : ∀ replica ∈ replicas queues, ∀ other ∈ replicas queues, ¬replica.Same other →
        replica.container ≠ other.container := by
      intro replica hreplica other hother hdifferent hsame
      obtain ⟨hconfusable, hordinal⟩ := containerName_eq.mp hsame
      have hne : replica.1.name ≠ other.1.name := fun hname => hdifferent ⟨hname, hordinal⟩
      exact hdistinguishable _ (mem_replicas hreplica) _ (mem_replicas hother) hne hconfusable
    refine ⟨hnames, fun replies request hrequest other hother hdifferent => ?_⟩
    obtain ⟨hmem, hcontainer⟩ := reconcile_container hrequest
    rw [hcontainer]
    exact hnames request.1 hmem other hother hdifferent

theorem managedQueues_replicas {files : Files} {queues : List QueueConfig}
    {resolve : ManagedConfig → List String × List ContainerMount}
    (h : validateQueues files queues = .ok ()) :
    ∀ queue ∈ managedQueues resolve queues, queue.replicas ≠ 0 := by
  intro queue hqueue
  obtain ⟨source, hsource, hmanaged⟩ := List.mem_filterMap.mp hqueue
  obtain ⟨config, hconfig, rfl⟩ := Option.map_eq_some_iff.mp hmanaged
  exact (validateQueues_ok h).2 source hsource config hconfig

/-- With valid queues, containers are kept apart exactly when no two managed queues have names that
differ only in characters which the names of containers do not show. -/
theorem containers_separate {files : Files} {queues : List QueueConfig}
    {resolve : ManagedConfig → List String × List ContainerMount}
    (h : validateQueues files queues = .ok ()) :
    Separate (managedQueues resolve queues) ↔ Distinguishable (managedQueues resolve queues) :=
  separate_iff (managedQueues_replicas h)

/-- A configuration with a queue of each name, all managed with one replica. -/
def managedNamed (names : List String) : List QueueConfig :=
  names.map fun name =>
    { name := name, maxRetries := 3, timeoutSecs := 30
      managedConfig := some { image := "worker:1.0", replicas := 1, envFile := none,
                              envVars := none, mounts := none } }

theorem containers_separate_mail_and_bulk :
    Distinguishable (managedQueues (fun _ => ([], [])) (managedNamed ["mail", "bulk"])) ∧
      Separate (managedQueues (fun _ => ([], [])) (managedNamed ["mail", "bulk"])) := by
  have hvalid : validateQueues ⟨fun _ => true, fun _ => true⟩ (managedNamed ["mail", "bulk"]) =
      .ok () := by decide
  have hapart : Distinguishable
      (managedQueues (fun _ => ([], [])) (managedNamed ["mail", "bulk"])) := by
    unfold Distinguishable Confusable
    decide
  exact ⟨hapart, (containers_separate hvalid).mpr hapart⟩

/-- The queues `mail.eu` and `mail-eu` are valid together and share the container
`maqistor-mail-eu-0`. -/
theorem containers_collide :
    validateQueues ⟨fun _ => true, fun _ => true⟩ (managedNamed ["mail.eu", "mail-eu"]) = .ok () ∧
      ¬Separate (managedQueues (fun _ => ([], [])) (managedNamed ["mail.eu", "mail-eu"])) := by
  refine ⟨by decide, ?_⟩
  rintro ⟨hnames, -⟩
  unfold Replica.Same Replica.container at hnames
  revert hnames
  decide

end Maqistor
