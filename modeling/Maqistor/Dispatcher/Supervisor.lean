import Maqistor.Dispatcher.Containers

/-! The supervisor of managed workers against a Docker daemon. What the daemon does is a parameter;
the supervisor's own state is the ids of the images that it has resolved, which it keeps for
good. -/

namespace Maqistor

variable {σ : Type}

/-- What the supervisor asks a Docker daemon with states `σ`, and whether a request succeeds. -/
structure DockerApi (σ : Type) where
  inspectContainer : σ → String → Option Inspected
  /-- The id in the answer of `inspect_image`, if there is an answer. -/
  inspectImage : σ → String → Option (Option String)
  createImage : σ → String → σ × Bool
  removeContainer : σ → String → σ × Bool
  createContainer : σ → String → ContainerConfig → σ × Bool
  startContainer : σ → String → σ × Bool

/-- An absolute path that a daemon keeps as it is: it has no empty component, no `.` and no `..`. -/
def CleanPath (path : String) : Prop :=
  match path.toList.splitOn '/' with
  | [] :: parts => parts ≠ [] ∧ ∀ part ∈ parts, part ≠ [] ∧ part ≠ ['.'] ∧ part ≠ ['.', '.']
  | _ => False

instance (path : String) : Decidable (CleanPath path) := by
  unfold CleanPath
  split <;> infer_instance

/-- A mount whose paths a daemon keeps as they are. -/
def ContainerMount.Clean (mount : ContainerMount) : Prop := CleanPath mount.source ∧ CleanPath mount.target

instance (mount : ContainerMount) : Decidable mount.Clean :=
  inferInstanceAs (Decidable (CleanPath mount.source ∧ CleanPath mount.target))

/-- What the supervisor relies on. A request about a container or an image leaves the others alone,
only a pull changes images, and a container that was created is what it was created to be, of the
image that its reference names at that time; the paths of its mounts are as they were given if they
are clean. -/
structure DockerApi.Lawful (api : DockerApi σ) : Prop where
  remove_other : ∀ docker name other, other ≠ name →
    api.inspectContainer (api.removeContainer docker name).1 other = api.inspectContainer docker other
  remove_image : ∀ docker name image,
    api.inspectImage (api.removeContainer docker name).1 image = api.inspectImage docker image
  create_other : ∀ docker name config other, other ≠ name →
    api.inspectContainer (api.createContainer docker name config).1 other =
      api.inspectContainer docker other
  create_image : ∀ docker name config image,
    api.inspectImage (api.createContainer docker name config).1 image = api.inspectImage docker image
  created : ∀ docker name config, (api.createContainer docker name config).2 = true →
    ∃ container, api.inspectContainer (api.createContainer docker name config).1 name =
        some container ∧
      (∀ id, api.inspectImage docker config.image = some (some id) → container.image = some id) ∧
      (∀ entry ∈ config.env, entry ∈ container.env) ∧
      ∀ mount ∈ config.mounts, mount.Clean → mount ∈ container.mounts
  start_container : ∀ docker name other,
    api.inspectContainer (api.startContainer docker name).1 other = api.inspectContainer docker other
  start_image : ∀ docker name image,
    api.inspectImage (api.startContainer docker name).1 image = api.inspectImage docker image
  pull_container : ∀ docker image name,
    api.inspectContainer (api.createImage docker image).1 name = api.inspectContainer docker name
  pull_other : ∀ docker image other, other ≠ image →
    api.inspectImage (api.createImage docker image).1 other = api.inspectImage docker other

/-- `DockerWorkerSupervisor`, with the state of its daemon. -/
structure Supervisor (σ : Type) where
  docker : σ
  desiredImages : List (String × String)
deriving DecidableEq, Repr

section Run

variable (api : DockerApi σ)

/-- The end of `resolve_image_id`. -/
def Supervisor.remember (supervisor : Supervisor σ) (image : String) (id : Option String) :
    Supervisor σ × Option String :=
  match id with
  | none => (supervisor, none)
  | some id =>
    ({ supervisor with desiredImages := (image, id) :: supervisor.desiredImages }, some id)

/-- `resolve_image_id`, with `none` for a failure. -/
def Supervisor.resolveImageId (supervisor : Supervisor σ) (image : String) :
    Supervisor σ × Option String :=
  match supervisor.desiredImages.lookup image with
  | some id => (supervisor, some id)
  | none =>
    match api.inspectImage supervisor.docker image with
    | some id => supervisor.remember image id
    | none =>
      let (docker, pulled) := api.createImage supervisor.docker image
      let supervisor := { supervisor with docker := docker }
      if pulled then
        match api.inspectImage docker image with
        | some id => supervisor.remember image id
        | none => (supervisor, none)
      else (supervisor, none)

/-- What the daemon answers to the requests that `ensure` may make. -/
def dockerReplies (docker : σ) (imageId : Option String) (replica : Replica) : DockerReplies :=
  let name := replica.container
  let inspected := api.inspectContainer docker name
  let removed := api.removeContainer docker name
  let created := api.createContainer (if inspected.isSome then removed.1 else docker) name
    (containerConfig replica.1 replica.2)
  { imageId := imageId, inspected := inspected, removed := removed.2, created := created.2
    started := (api.startContainer created.1 name).2 }

/-- What a request does to the daemon. -/
def DockerCall.apply (docker : σ) : DockerCall → σ
  | .inspect _ => docker
  | .remove container => (api.removeContainer docker container).1
  | .create container config => (api.createContainer docker container config).1
  | .start container => (api.startContainer docker container).1

/-- `ensure` for a replica: its requests about the container, and whether it succeeds. -/
def Supervisor.ensure (supervisor : Supervisor σ) (replica : Replica) :
    Supervisor σ × List DockerCall × Bool :=
  let (supervisor, imageId) := supervisor.resolveImageId api replica.1.image
  let (calls, ok) := Maqistor.ensure replica.1 replica.2
    (dockerReplies api supervisor.docker imageId replica)
  ({ supervisor with docker := calls.foldl (DockerCall.apply api) supervisor.docker }, calls, ok)

/-- `reconcile` over the replicas that are left. -/
def Supervisor.reconcile : List Replica → Supervisor σ → Supervisor σ × List DockerCall × Bool
  | [], supervisor => (supervisor, [], true)
  | replica :: rest, supervisor =>
    let (supervisor, calls, ok) := supervisor.ensure api replica
    if ok then
      let (supervisor, more, ok) := Supervisor.reconcile rest supervisor
      (supervisor, calls ++ more, ok)
    else (supervisor, calls, false)

/-- The supervisor after some rounds of the loop of `spawn`. -/
def Supervisor.after (queues : List ManagedQueue) : Nat → Supervisor σ → Supervisor σ
  | 0, supervisor => supervisor
  | rounds + 1, supervisor =>
    (Supervisor.reconcile api (replicas queues) (Supervisor.after queues rounds supervisor)).1

/-- The requests of the round that comes after some others, and whether it succeeds. -/
def Supervisor.round (queues : List ManagedQueue) (rounds : Nat) (supervisor : Supervisor σ) :
    List DockerCall × Bool :=
  (Supervisor.reconcile api (replicas queues) (Supervisor.after api queues rounds supervisor)).2

end Run

/-! ### What `ensure` does -/

theorem needUpdate_eq_false {queue : ManagedQueue} {id : String} {container : Inspected} :
    needUpdate queue id container = false ↔ container.image = some id ∧
      (∀ wanted ∈ queue.env, wanted ∈ container.env) ∧
      ∀ wanted ∈ queue.mounts, wanted ∈ container.mounts := by
  rw [needUpdate, decide_eq_false_iff_not, not_or, not_or, not_not, not_not, not_not]

/-- The requests for a replica whose container is as it should be. -/
def quietCalls (replica : Replica) : List DockerCall :=
  [.inspect replica.container, .start replica.container]

/-- The last two requests for a container that was missing or has been removed. -/
def creationCalls (replica : Replica) : List DockerCall :=
  [.create replica.container (containerConfig replica.1 replica.2), .start replica.container]

theorem createAndStart_ok {replica : Replica} {replies : DockerReplies} {calls : List DockerCall}
    (h : createAndStart replica.1 replica.2 replies = (calls, true)) :
    replies.created = true ∧ calls = creationCalls replica := by
  unfold createAndStart at h
  split at h
  · next hcreated =>
    obtain ⟨rfl, -⟩ := Prod.mk.inj h
    exact ⟨hcreated, rfl⟩
  · cases (Prod.mk.inj h).2

/-- `ensure` that succeeds has found the container as it should be, or has created it. -/
theorem ensure_ok {replica : Replica} {replies : DockerReplies} {calls : List DockerCall}
    (h : ensure replica.1 replica.2 replies = (calls, true)) :
    ∃ id, replies.imageId = some id ∧
      ((∃ container, replies.inspected = some container ∧ needUpdate replica.1 id container = false ∧
          calls = quietCalls replica) ∨
        (replies.inspected = none ∧ replies.created = true ∧
          calls = .inspect replica.container :: creationCalls replica) ∨
        ∃ container, replies.inspected = some container ∧ needUpdate replica.1 id container = true ∧
          replies.created = true ∧
          calls = .inspect replica.container :: .remove replica.container :: creationCalls replica) := by
  unfold ensure at h
  split at h
  · cases (Prod.mk.inj h).2
  · next id hid =>
    refine ⟨id, hid, ?_⟩
    split at h
    · next hinspected =>
      obtain ⟨rfl, hok⟩ := Prod.mk.inj h
      obtain ⟨hcreated, hcalls⟩ := createAndStart_ok (Prod.ext rfl hok)
      exact Or.inr (Or.inl ⟨hinspected, hcreated, congrArg _ hcalls⟩)
    · next container hinspected =>
      split at h
      · next hupdate =>
        split at h
        · split at h
          · obtain ⟨rfl, hok⟩ := Prod.mk.inj h
            obtain ⟨hcreated, hcalls⟩ := createAndStart_ok (Prod.ext rfl hok)
            exact Or.inr (Or.inr ⟨container, hinspected, hupdate, hcreated,
              congrArg (fun calls => _ :: _ :: calls) hcalls⟩)
          · cases (Prod.mk.inj h).2
        · cases (Prod.mk.inj h).2
      · next hcurrent =>
        obtain ⟨rfl, -⟩ := Prod.mk.inj h
        exact Or.inl ⟨container, hinspected, Bool.not_eq_true _ ▸ hcurrent, rfl⟩

/-- `ensure` of a container that is as it should be. -/
theorem ensure_quiet {replica : Replica} {replies : DockerReplies} {id : String}
    {container : Inspected} (hid : replies.imageId = some id)
    (hinspected : replies.inspected = some container)
    (hcurrent : needUpdate replica.1 id container = false) :
    ensure replica.1 replica.2 replies = (quietCalls replica, true) := by
  unfold ensure
  simp only [hid, hinspected, hcurrent, Bool.false_eq_true, if_false]
  rfl

namespace Supervisor

variable {api : DockerApi σ} {supervisor : Supervisor σ} {replica other : Replica} {image : String}
  {docker : σ}

/-- The id that the supervisor wants the containers of an image to have is the one that the daemon
has for it. -/
def Agrees (api : DockerApi σ) (supervisor : Supervisor σ) (image : String) : Prop :=
  ∀ id, supervisor.desiredImages.lookup image = some id →
    api.inspectImage supervisor.docker image = some (some id)

/-- The container of the replica is there and need not be replaced. -/
def UpToDate (api : DockerApi σ) (supervisor : Supervisor σ) (replica : Replica) : Prop :=
  ∃ id container, supervisor.desiredImages.lookup replica.1.image = some id ∧
    api.inspectContainer supervisor.docker replica.container = some container ∧
    needUpdate replica.1 id container = false

/-- What a step leaves as it is: the ids that the supervisor has, what the daemon has for these
images, and the containers that the step is not about. -/
structure Keeps (api : DockerApi σ) (about : String → Prop) (before after : Supervisor σ) : Prop where
  desired : ∀ image id, before.desiredImages.lookup image = some id →
    after.desiredImages.lookup image = some id
  images : ∀ image id, before.desiredImages.lookup image = some id →
    api.inspectImage after.docker image = api.inspectImage before.docker image
  containers : ∀ name, ¬about name →
    api.inspectContainer after.docker name = api.inspectContainer before.docker name

namespace Keeps

variable {about more : String → Prop} {before middle after : Supervisor σ}

theorem refl (about : String → Prop) (before : Supervisor σ) : Keeps api about before before :=
  ⟨fun _ _ h => h, fun _ _ _ => rfl, fun _ _ => rfl⟩

theorem trans (h : Keeps api about before middle) (h' : Keeps api more middle after) :
    Keeps api (fun name => about name ∨ more name) before after where
  desired image id hid := h'.desired image id (h.desired image id hid)
  images image id hid := (h'.images image id (h.desired image id hid)).trans (h.images image id hid)
  containers name hname := by
    rw [not_or] at hname
    exact (h'.containers name hname.2).trans (h.containers name hname.1)

theorem mono (h : Keeps api about before after) (himp : ∀ name, about name → more name) :
    Keeps api more before after :=
  ⟨h.desired, h.images, fun name hname => h.containers name fun habout => hname (himp name habout)⟩

/-- A container that the step is not about stays up to date. -/
theorem upToDate (h : Keeps api about before after) (hother : ¬about replica.container)
    (hcurrent : UpToDate api before replica) : UpToDate api after replica := by
  obtain ⟨id, container, hid, hinspected, hneed⟩ := hcurrent
  exact ⟨id, container, h.desired _ _ hid, (h.containers _ hother).trans hinspected, hneed⟩

end Keeps

/-! ### Images -/

/-- A pull has at most changed what the daemon has for one image. -/
structure Pulled (api : DockerApi σ) (image : String) (before after : σ) : Prop where
  images : ∀ other, other ≠ image → api.inspectImage after other = api.inspectImage before other
  containers : ∀ name, api.inspectContainer after name = api.inspectContainer before name

/-- `resolve_image_id` knows the id, or learns it from the daemon, or fails. -/
theorem resolveImageId_cases (hlawful : api.Lawful) (supervisor : Supervisor σ) (image : String) :
    (∃ id, supervisor.desiredImages.lookup image = some id ∧
        supervisor.resolveImageId api image = (supervisor, some id)) ∨
      supervisor.desiredImages.lookup image = none ∧
        ∃ docker, Pulled api image supervisor.docker docker ∧
          ((∃ id, api.inspectImage docker image = some (some id) ∧
              supervisor.resolveImageId api image =
                ({ docker := docker, desiredImages := (image, id) :: supervisor.desiredImages },
                  some id)) ∨
            supervisor.resolveImageId api image =
              ({ supervisor with docker := docker }, none)) := by
  have hremember : ∀ (docker : σ) (found : Option String),
      api.inspectImage docker image = some found →
        (∃ id, api.inspectImage docker image = some (some id) ∧
            { supervisor with docker := docker }.remember image found =
              ({ docker := docker, desiredImages := (image, id) :: supervisor.desiredImages },
                some id)) ∨
          { supervisor with docker := docker }.remember image found =
            ({ supervisor with docker := docker }, none) := by
    intro docker found hfound
    cases found with
    | none => exact Or.inr rfl
    | some id => exact Or.inl ⟨id, hfound, rfl⟩
  unfold resolveImageId
  split
  · next id hid => exact Or.inl ⟨id, hid, rfl⟩
  · next hnone =>
    refine Or.inr ⟨hnone, ?_⟩
    split
    · next found hfound =>
      exact ⟨supervisor.docker, ⟨fun _ _ => rfl, fun _ => rfl⟩, hremember _ found hfound⟩
    · have hpulled : Pulled api image supervisor.docker (api.createImage supervisor.docker image).1 :=
        ⟨hlawful.pull_other _ _, hlawful.pull_container _ _⟩
      refine ⟨_, hpulled, ?_⟩
      dsimp only
      split
      · split
        · next found hfound => exact hremember _ found hfound
        · exact Or.inr rfl
      · exact Or.inr rfl

theorem resolveImageId_keeps (hlawful : api.Lawful) (supervisor : Supervisor σ) (image : String)
    (about : String → Prop) : Keeps api about supervisor (supervisor.resolveImageId api image).1 := by
  have hne : ∀ {other id}, supervisor.desiredImages.lookup image = none →
      supervisor.desiredImages.lookup other = some id → other ≠ image := by
    rintro other id hnone hid rfl
    rw [hnone] at hid
    cases hid
  rcases resolveImageId_cases hlawful supervisor image with
    ⟨id, -, heq⟩ | ⟨hnone, docker, hpulled, ⟨id, -, heq⟩ | heq⟩
  · rw [heq]
    exact .refl about supervisor
  · rw [heq]
    refine ⟨fun other wanted hwanted => ?_, fun other wanted hwanted => ?_, fun name _ => ?_⟩
    · simp only [List.lookup_cons, beq_eq_false_iff_ne.mpr (hne hnone hwanted)]
      exact hwanted
    · exact hpulled.images other (hne hnone hwanted)
    · exact hpulled.containers name
  · rw [heq]
    exact ⟨fun _ _ h => h, fun other wanted hwanted => hpulled.images other (hne hnone hwanted),
      fun name _ => hpulled.containers name⟩

/-- `resolve_image_id` answers with the id that the supervisor has from then on. -/
theorem resolveImageId_lookup (hlawful : api.Lawful) {id : String}
    (h : (supervisor.resolveImageId api image).2 = some id) :
    (supervisor.resolveImageId api image).1.desiredImages.lookup image = some id := by
  rcases resolveImageId_cases hlawful supervisor image with
    ⟨found, hfound, heq⟩ | ⟨-, docker, -, ⟨found, -, heq⟩ | heq⟩
  · rw [heq] at h ⊢
    exact h ▸ hfound
  · rw [heq] at h ⊢
    simpa using h
  · rw [heq] at h
    cases h

/-- What the supervisor learns agrees with the daemon. -/
theorem resolveImageId_agrees (hlawful : api.Lawful) (image : String) {wanted : String}
    (hagrees : Agrees api supervisor wanted) :
    Agrees api (supervisor.resolveImageId api image).1 wanted := by
  rcases resolveImageId_cases hlawful supervisor image with
    ⟨id, -, heq⟩ | ⟨hnone, docker, hpulled, ⟨id, hid, heq⟩ | heq⟩
  · rw [heq]
    exact hagrees
  · rw [heq]
    intro other hother
    by_cases hsame : wanted = image
    · subst hsame
      obtain rfl : id = other := by simpa using hother
      exact hid
    · simp only [List.lookup_cons, beq_eq_false_iff_ne.mpr hsame] at hother
      exact (hpulled.images wanted hsame).trans (hagrees other hother)
  · rw [heq]
    intro other hother
    refine (hpulled.images wanted ?_).trans (hagrees other hother)
    rintro rfl
    rw [hnone] at hother
    cases hother

theorem Keeps.agrees {about : String → Prop} {before after : Supervisor σ} {id : String}
    (h : Keeps api about before after) (hid : before.desiredImages.lookup image = some id)
    (hagrees : Agrees api before image) : Agrees api after image := by
  intro other hother
  obtain rfl : id = other := Option.some.inj ((h.desired _ _ hid).symm.trans hother)
  exact (h.images _ _ hid).trans (hagrees id hid)

/-! ### Containers -/

theorem apply_container (hlawful : api.Lawful) {call : DockerCall} {name : String}
    (hne : name ≠ call.container) :
    api.inspectContainer (call.apply api docker) name = api.inspectContainer docker name := by
  cases call with
  | inspect => rfl
  | remove => exact hlawful.remove_other _ _ _ hne
  | create => exact hlawful.create_other _ _ _ _ hne
  | start => exact hlawful.start_container _ _ _

theorem apply_image (hlawful : api.Lawful) (call : DockerCall) (image : String) :
    api.inspectImage (call.apply api docker) image = api.inspectImage docker image := by
  cases call with
  | inspect => rfl
  | remove => exact hlawful.remove_image _ _ _
  | create => exact hlawful.create_image _ _ _ _
  | start => exact hlawful.start_image _ _ _

/-- Requests about one container leave the others alone. -/
theorem foldl_apply_container (hlawful : api.Lawful) {calls : List DockerCall} {name other : String}
    (hcalls : ∀ call ∈ calls, call.container = name) (hne : other ≠ name) :
    api.inspectContainer (calls.foldl (DockerCall.apply api) docker) other =
      api.inspectContainer docker other := by
  induction calls generalizing docker with
  | nil => rfl
  | cons call calls ih =>
    have hcall : other ≠ call.container := (hcalls call List.mem_cons_self).symm ▸ hne
    exact (ih fun call hmem => hcalls call (List.mem_cons_of_mem _ hmem)).trans
      (apply_container hlawful hcall)

theorem foldl_apply_image (hlawful : api.Lawful) (calls : List DockerCall) (image : String) :
    api.inspectImage (calls.foldl (DockerCall.apply api) docker) image =
      api.inspectImage docker image := by
  induction calls generalizing docker with
  | nil => rfl
  | cons call calls ih => exact ih.trans (apply_image hlawful call image)

/-- The calls of `ensure` for the replies of the daemon. -/
def ensureCalls (api : DockerApi σ) (supervisor : Supervisor σ) (replica : Replica) :
    List DockerCall × Bool :=
  Maqistor.ensure replica.1 replica.2
    (dockerReplies api (supervisor.resolveImageId api replica.1.image).1.docker
      (supervisor.resolveImageId api replica.1.image).2 replica)

theorem ensure_eq (supervisor : Supervisor σ) (replica : Replica) :
    supervisor.ensure api replica =
      ({ (supervisor.resolveImageId api replica.1.image).1 with
          docker := (ensureCalls api supervisor replica).1.foldl (DockerCall.apply api)
            (supervisor.resolveImageId api replica.1.image).1.docker },
        ensureCalls api supervisor replica) := rfl

theorem ensure_keeps (hlawful : api.Lawful) (supervisor : Supervisor σ) (replica : Replica) :
    Keeps api (· = replica.container) supervisor (supervisor.ensure api replica).1 := by
  have hresolved := resolveImageId_keeps hlawful supervisor replica.1.image
    (· = replica.container)
  refine ⟨hresolved.desired, fun image id hid => ?_, fun name hname => ?_⟩
  · exact (foldl_apply_image hlawful _ image).trans (hresolved.images image id hid)
  · exact (foldl_apply_container hlawful (fun call hcall => ensure_container hcall) hname).trans
      (hresolved.containers name hname)

theorem ensure_agrees (hlawful : api.Lawful) (replica : Replica)
    (hagrees : Agrees api supervisor image) :
    Agrees api (supervisor.ensure api replica).1 image := by
  have hresolved := resolveImageId_agrees hlawful replica.1.image hagrees
  exact fun id hid => (foldl_apply_image hlawful _ image).trans (hresolved id hid)

/-- A container that is up to date is only asked for and started. -/
theorem ensure_upToDate (hlawful : api.Lawful) (hcurrent : UpToDate api supervisor replica) :
    (supervisor.ensure api replica).2 = (quietCalls replica, true) ∧
      Keeps api (fun _ => False) supervisor (supervisor.ensure api replica).1 := by
  obtain ⟨id, container, hid, hinspected, hneed⟩ := hcurrent
  have hresolved : supervisor.resolveImageId api replica.1.image = (supervisor, some id) := by
    rcases resolveImageId_cases hlawful supervisor replica.1.image with
      ⟨found, hfound, heq⟩ | ⟨hnone, -⟩
    · rw [heq, Option.some.inj (hfound.symm.trans hid)]
    · rw [hid] at hnone
      cases hnone
  have hcalls : ensureCalls api supervisor replica = (quietCalls replica, true) := by
    rw [ensureCalls, hresolved]
    exact ensure_quiet rfl hinspected hneed
  rw [ensure_eq, hcalls, hresolved]
  refine ⟨rfl, fun _ _ h => h, fun image _ _ => hlawful.start_image _ _ _, fun name _ => ?_⟩
  exact hlawful.start_container _ _ _

/-- The container of the replica is there and is what it was created to be. -/
def Fresh (api : DockerApi σ) (supervisor : Supervisor σ) (replica : Replica) : Prop :=
  ∃ container, api.inspectContainer supervisor.docker replica.container = some container ∧
    (∀ id, api.inspectImage supervisor.docker replica.1.image = some (some id) →
      container.image = some id) ∧
    (∀ wanted ∈ replica.1.env, wanted ∈ container.env) ∧
    ∀ wanted ∈ replica.1.mounts, wanted.Clean → wanted ∈ container.mounts

theorem Fresh.upToDate {id : String} (hfresh : Fresh api supervisor replica)
    (hclean : ∀ mount ∈ replica.1.mounts, mount.Clean)
    (hid : supervisor.desiredImages.lookup replica.1.image = some id)
    (himage : api.inspectImage supervisor.docker replica.1.image = some (some id)) :
    UpToDate api supervisor replica := by
  obtain ⟨container, hinspected, hcreated, henv, hmounts⟩ := hfresh
  exact ⟨id, container, hid, hinspected, needUpdate_eq_false.mpr
    ⟨hcreated id himage, henv, fun mount hmount => hmounts mount hmount (hclean mount hmount)⟩⟩

/-- What `ensure` has created is what `create_container` was asked for. -/
theorem fresh_of_created (hlawful : api.Lawful) (calls : List DockerCall)
    (hcreated : (api.createContainer (calls.foldl (DockerCall.apply api) docker) replica.container
      (containerConfig replica.1 replica.2)).2 = true) :
    Fresh api { supervisor with docker :=
      (calls ++ creationCalls replica).foldl (DockerCall.apply api) docker } replica := by
  obtain ⟨container, hinspected, himage, henv, hmounts⟩ := hlawful.created _ _ _ hcreated
  refine ⟨container, ?_, fun id hid => himage id ?_, henv, hmounts⟩
  · rw [List.foldl_append]
    exact (hlawful.start_container _ _ _).trans hinspected
  · rw [← hid]
    exact (foldl_apply_image hlawful calls _).trans (foldl_apply_image hlawful _ _).symm

/-- When `ensure` succeeds, the container was as it should be, or it has been created, and removed
before if there was one. -/
theorem ensure_succeeds (hlawful : api.Lawful) (hok : (supervisor.ensure api replica).2.2 = true) :
    ∃ id, (supervisor.ensure api replica).1.desiredImages.lookup replica.1.image = some id ∧
      ((∃ container, api.inspectContainer supervisor.docker replica.container = some container ∧
          needUpdate replica.1 id container = false ∧
          UpToDate api (supervisor.ensure api replica).1 replica ∧
          (supervisor.ensure api replica).2.1 = quietCalls replica) ∨
        Fresh api (supervisor.ensure api replica).1 replica ∧
          .create replica.container (containerConfig replica.1 replica.2) ∈
            (supervisor.ensure api replica).2.1 ∧
          ((api.inspectContainer supervisor.docker replica.container).isSome = true →
            .remove replica.container ∈ (supervisor.ensure api replica).2.1)) := by
  have hbefore : ∀ name,
      api.inspectContainer (supervisor.resolveImageId api replica.1.image).1.docker name =
        api.inspectContainer supervisor.docker name :=
    fun name => (resolveImageId_keeps hlawful supervisor replica.1.image
      fun _ => False).containers name not_false
  have hensured : ensureCalls api supervisor replica =
      ((ensureCalls api supervisor replica).1, true) := Prod.ext rfl hok
  obtain ⟨id, hid, hcases⟩ := Maqistor.ensure_ok hensured
  have hlookup := resolveImageId_lookup hlawful hid
  rw [ensure_eq]
  refine ⟨id, hlookup, ?_⟩
  rcases hcases with ⟨container, hinspected, hcurrent, hcalls⟩ | ⟨hinspected, hcreated, hcalls⟩ |
    ⟨container, hinspected, -, hcreated, hcalls⟩
  · refine Or.inl ⟨container, (hbefore _).symm.trans hinspected, hcurrent, ?_, hcalls⟩
    refine ⟨id, container, hlookup, ?_, hcurrent⟩
    rw [hcalls]
    exact (hlawful.start_container _ _ _).trans hinspected
  · rw [hcalls]
    refine Or.inr ⟨?_, by simp [creationCalls], fun hsome => ?_⟩
    · refine fresh_of_created hlawful [.inspect replica.container] ?_
      simp only [dockerReplies] at hinspected hcreated
      rwa [hinspected] at hcreated
    · have hnone : api.inspectContainer supervisor.docker replica.container = none :=
        (hbefore _).symm.trans hinspected
      rw [hnone] at hsome
      cases hsome
  · rw [hcalls]
    refine Or.inr ⟨?_, by simp [creationCalls], fun _ => List.mem_cons_of_mem _ List.mem_cons_self⟩
    refine fresh_of_created hlawful [.inspect replica.container, .remove replica.container] ?_
    simp only [dockerReplies] at hinspected hcreated
    rwa [hinspected] at hcreated

/-! ### Rounds -/

theorem reconcile_cons {rest : List Replica}
    (hok : (supervisor.reconcile api (replica :: rest)).2.2 = true) :
    (supervisor.ensure api replica).2.2 = true ∧
      ((supervisor.ensure api replica).1.reconcile api rest).2.2 = true ∧
      supervisor.reconcile api (replica :: rest) =
        (((supervisor.ensure api replica).1.reconcile api rest).1,
          (supervisor.ensure api replica).2.1 ++
            ((supervisor.ensure api replica).1.reconcile api rest).2.1, true) := by
  simp only [reconcile] at hok ⊢
  split at hok
  · next hensure =>
    rw [if_pos hensure]
    exact ⟨hensure, hok, Prod.ext rfl (Prod.ext rfl hok)⟩
  · cases hok

theorem reconcile_keeps (hlawful : api.Lawful) (left : List Replica) (supervisor : Supervisor σ) :
    Keeps api (· ∈ left.map Replica.container) supervisor (supervisor.reconcile api left).1 := by
  induction left generalizing supervisor with
  | nil => exact .refl _ supervisor
  | cons replica rest ih =>
    have hensured := ensure_keeps hlawful supervisor replica
    simp only [reconcile]
    split
    · refine (hensured.trans (ih _)).mono fun name hname => ?_
      rcases hname with rfl | hname
      · exact List.mem_cons_self
      · exact List.mem_cons_of_mem _ hname
    · exact hensured.mono fun name hname => hname ▸ List.mem_cons_self

theorem reconcile_agrees (hlawful : api.Lawful) (left : List Replica)
    (hagrees : Agrees api supervisor image) :
    Agrees api (supervisor.reconcile api left).1 image := by
  induction left generalizing supervisor with
  | nil => exact hagrees
  | cons replica rest ih =>
    have hensured := ensure_agrees hlawful replica hagrees
    simp only [reconcile]
    split
    · exact ih hensured
    · exact hensured

/-- The requests of `reconcile` are about the containers of its replicas. -/
theorem reconcile_call {left : List Replica} {call : DockerCall}
    (h : call ∈ (supervisor.reconcile api left).2.1) : call.container ∈ left.map Replica.container := by
  induction left generalizing supervisor with
  | nil => cases h
  | cons replica rest ih =>
    have hown : ∀ call ∈ (supervisor.ensure api replica).2.1,
        call.container ∈ (replica :: rest).map Replica.container :=
      fun call hcall => (ensure_container hcall).symm ▸ List.mem_cons_self
    simp only [reconcile] at h
    split at h
    · rcases List.mem_append.mp h with h | h
      · exact hown call h
      · exact List.mem_cons_of_mem _ (ih h)
    · exact hown call h

/-- What a round that succeeds is for one replica: one `ensure` of it, between steps that are not
about its container. -/
theorem reconcile_member (hlawful : api.Lawful) {left : List Replica}
    (hapart : (left.map Replica.container).Nodup) (hmem : replica ∈ left)
    (hok : (supervisor.reconcile api left).2.2 = true) :
    ∃ middle : Supervisor σ, Keeps api (· ≠ replica.container) supervisor middle ∧
      (∀ image, Agrees api supervisor image → Agrees api middle image) ∧
      (middle.ensure api replica).2.2 = true ∧
      Keeps api (· ≠ replica.container) (middle.ensure api replica).1
        (supervisor.reconcile api left).1 ∧
      ∀ call : DockerCall, call.container = replica.container →
        (call ∈ (supervisor.reconcile api left).2.1 ↔ call ∈ (middle.ensure api replica).2.1) := by
  induction left generalizing supervisor with
  | nil => cases hmem
  | cons first rest ih =>
    obtain ⟨hfirst, hrest, heq⟩ := reconcile_cons hok
    obtain ⟨hnotMem, hapart⟩ := List.nodup_cons.mp hapart
    rw [heq]
    rcases List.mem_cons.mp hmem with rfl | hmem
    · refine ⟨supervisor, .refl _ supervisor, fun _ h => h, hfirst, ?_, fun call hcall => ?_⟩
      · exact (reconcile_keeps hlawful rest _).mono fun name hname hsame => hnotMem (hsame ▸ hname)
      · rw [List.mem_append]
        exact ⟨fun h => h.resolve_right fun h => hnotMem (hcall ▸ reconcile_call h), Or.inl⟩
    · have hne : replica.container ≠ first.container :=
        fun hsame => hnotMem (hsame ▸ List.mem_map_of_mem hmem)
      obtain ⟨middle, hbefore, hagrees, hensured, hafter, hcalls⟩ := ih hapart hmem hrest
      refine ⟨middle, ?_, fun image h => hagrees image (ensure_agrees hlawful first h), hensured,
        hafter, fun call hcall => ?_⟩
      · refine ((ensure_keeps hlawful supervisor first).trans hbefore).mono fun name hname => ?_
        rcases hname with rfl | hname
        · exact hne.symm
        · exact hname
      · rw [List.mem_append, ← hcalls call hcall]
        refine ⟨fun h => h.resolve_left fun h => hne (hcall ▸ ensure_container h), Or.inr⟩

/-- A round that finds every container up to date only asks for them and starts them. -/
theorem reconcile_upToDate (hlawful : api.Lawful) {left : List Replica}
    (hcurrent : ∀ replica ∈ left, UpToDate api supervisor replica) :
    (supervisor.reconcile api left).2 = (left.flatMap quietCalls, true) ∧
      Keeps api (fun _ => False) supervisor (supervisor.reconcile api left).1 := by
  induction left generalizing supervisor with
  | nil => exact ⟨rfl, .refl _ supervisor⟩
  | cons replica rest ih =>
    obtain ⟨hfirst, hkeeps⟩ := ensure_upToDate hlawful (hcurrent replica List.mem_cons_self)
    obtain ⟨hrest, hkeeps'⟩ := ih fun other hother =>
      hkeeps.upToDate not_false (hcurrent other (List.mem_cons_of_mem _ hother))
    simp only [reconcile, hfirst, if_true, hrest, List.flatMap_cons]
    exact ⟨trivial, (hkeeps.trans hkeeps').mono fun _ h => h.elim id id⟩

/-- After a round that succeeds, a container is up to date if the supervisor and the daemon agree on
its image. -/
theorem reconcile_settled (hlawful : api.Lawful) {left : List Replica}
    (hapart : (left.map Replica.container).Nodup) (hmem : replica ∈ left)
    (hok : (supervisor.reconcile api left).2.2 = true)
    (hclean : ∀ mount ∈ replica.1.mounts, mount.Clean)
    (hagrees : Agrees api supervisor replica.1.image) :
    UpToDate api (supervisor.reconcile api left).1 replica := by
  obtain ⟨middle, -, hmiddle, hensured, hafter, -⟩ := reconcile_member hlawful hapart hmem hok
  refine hafter.upToDate (fun h => h rfl) ?_
  obtain ⟨id, hid, ⟨container, -, -, hcurrent, -⟩ | ⟨hfresh, -⟩⟩ := ensure_succeeds hlawful hensured
  · exact hcurrent
  · exact hfresh.upToDate hclean hid (ensure_agrees hlawful replica (hmiddle _ hagrees) id hid)

variable {queues : List ManagedQueue}

theorem after_agrees (hlawful : api.Lawful) (rounds : Nat) (hagrees : Agrees api supervisor image) :
    Agrees api (supervisor.after api queues rounds) image := by
  induction rounds with
  | zero => exact hagrees
  | succ rounds ih => exact reconcile_agrees hlawful _ ih

/-- Once every container is up to date, every round only asks for them and starts them. -/
theorem after_upToDate (hlawful : api.Lawful) {first : Nat}
    (hcurrent : ∀ replica ∈ replicas queues, UpToDate api (supervisor.after api queues first) replica)
    (more : Nat) :
    (∀ replica ∈ replicas queues, UpToDate api (supervisor.after api queues (first + more)) replica) ∧
      supervisor.round api queues (first + more) = ((replicas queues).flatMap quietCalls, true) := by
  have hstay : ∀ replica ∈ replicas queues,
      UpToDate api (supervisor.after api queues (first + more)) replica := by
    induction more with
    | zero => exact hcurrent
    | succ more ih =>
      intro replica hreplica
      exact (reconcile_upToDate hlawful ih).2.upToDate not_false (ih replica hreplica)
  exact ⟨hstay, (reconcile_upToDate hlawful hstay).1⟩

/-! ### A tag that has moved -/

/-- The supervisor has one id for an image and the daemon another. -/
structure Moved (api : DockerApi σ) (supervisor : Supervisor σ) (image id other : String) : Prop where
  desired : supervisor.desiredImages.lookup image = some id
  daemon : api.inspectImage supervisor.docker image = some (some other)

theorem Keeps.moved {about : String → Prop} {before after : Supervisor σ} {id other : String}
    (h : Keeps api about before after) (hmoved : Moved api before image id other) :
    Moved api after image id other :=
  ⟨h.desired _ _ hmoved.desired, (h.images _ _ hmoved.desired).trans hmoved.daemon⟩

theorem UpToDate.of_keeps {about : String → Prop} {before after : Supervisor σ} {id other : String}
    (h : Keeps api about before after) (habout : ¬about replica.container)
    (hmoved : Moved api before replica.1.image id other) (hcurrent : UpToDate api after replica) :
    UpToDate api before replica := by
  obtain ⟨found, container, hfound, hinspected, hneed⟩ := hcurrent
  obtain rfl : id = found := Option.some.inj ((h.moved hmoved).desired.symm.trans hfound)
  exact ⟨id, container, hmoved.desired, (h.containers _ habout).symm.trans hinspected, hneed⟩

/-- A container that is up to date is not removed. -/
theorem reconcile_leaves (hlawful : api.Lawful) {left : List Replica}
    (hapart : (left.map Replica.container).Nodup) (hmem : replica ∈ left)
    (hok : (supervisor.reconcile api left).2.2 = true) (hcurrent : UpToDate api supervisor replica) :
    .remove replica.container ∉ (supervisor.reconcile api left).2.1 ∧
      UpToDate api (supervisor.reconcile api left).1 replica := by
  obtain ⟨middle, hbefore, -, -, hafter, hcalls⟩ := reconcile_member hlawful hapart hmem hok
  have hmiddle : UpToDate api middle replica := hbefore.upToDate (fun h => h rfl) hcurrent
  obtain ⟨hquiet, hkeeps⟩ := ensure_upToDate hlawful hmiddle
  refine ⟨fun hremove => ?_, hafter.upToDate (fun h => h rfl) (hkeeps.upToDate not_false hmiddle)⟩
  have hmem := (hcalls _ rfl).mp hremove
  rw [hquiet] at hmem
  simp [quietCalls] at hmem

/-- A container that is not up to date is created again of the image that the daemon has, so that it
is not up to date afterwards either. -/
theorem reconcile_replaces (hlawful : api.Lawful) {left : List Replica}
    (hapart : (left.map Replica.container).Nodup) (hmem : replica ∈ left)
    (hok : (supervisor.reconcile api left).2.2 = true) {id other : String} (hne : id ≠ other)
    (hmoved : Moved api supervisor replica.1.image id other)
    (hstale : ¬UpToDate api supervisor replica) :
    .create replica.container (containerConfig replica.1 replica.2) ∈
        (supervisor.reconcile api left).2.1 ∧
      ((api.inspectContainer supervisor.docker replica.container).isSome = true →
        .remove replica.container ∈ (supervisor.reconcile api left).2.1) ∧
      (api.inspectContainer (supervisor.reconcile api left).1.docker replica.container).isSome = true ∧
      ¬UpToDate api (supervisor.reconcile api left).1 replica := by
  obtain ⟨middle, hbefore, -, hensured, hafter, hcalls⟩ := reconcile_member hlawful hapart hmem hok
  have hmiddle : ¬UpToDate api middle replica :=
    fun hcurrent => hstale (hcurrent.of_keeps hbefore (fun h => h rfl) hmoved)
  have hmoved' := (ensure_keeps hlawful middle replica).moved (hbefore.moved hmoved)
  obtain ⟨found, hfound, ⟨container, hinspected, hneed, -, -⟩ | ⟨hfresh, hcreated, hremoved⟩⟩ :=
    ensure_succeeds hlawful hensured
  · obtain rfl : id = found := Option.some.inj (hmoved'.desired.symm.trans hfound)
    exact absurd ⟨id, container, (hbefore.moved hmoved).desired, hinspected, hneed⟩ hmiddle
  · obtain ⟨container, hinspected, himage, -, -⟩ := hfresh
    have hinspected' := (hafter.containers replica.container fun h => h rfl).trans hinspected
    refine ⟨(hcalls _ rfl).mpr hcreated, fun hsome => (hcalls _ rfl).mpr (hremoved ?_), ?_, ?_⟩
    · rw [hbefore.containers _ fun h => h rfl]
      exact hsome
    · rw [hinspected']
      rfl
    · rintro ⟨wanted, current, hwanted, hcurrent, hneed⟩
      obtain rfl : id = wanted :=
        Option.some.inj ((hafter.moved hmoved').desired.symm.trans hwanted)
      obtain rfl : container = current := Option.some.inj (hinspected'.symm.trans hcurrent)
      have hid := (needUpdate_eq_false.mp hneed).1
      exact hne (Option.some.inj (hid.symm.trans (himage other hmoved'.daemon)))

section Successful

variable (hlawful : api.Lawful) (hapart : ((replicas queues).map Replica.container).Nodup)
  (hmem : replica ∈ replicas queues) (hok : ∀ rounds, (supervisor.round api queues rounds).2 = true)
include hlawful hapart hmem hok

theorem after_leaves {first : Nat} (hcurrent : UpToDate api (supervisor.after api queues first) replica)
    (more : Nat) :
    UpToDate api (supervisor.after api queues (first + more)) replica ∧
      .remove replica.container ∉ (supervisor.round api queues (first + more)).1 := by
  have hstay : UpToDate api (supervisor.after api queues (first + more)) replica := by
    induction more with
    | zero => exact hcurrent
    | succ more ih => exact (reconcile_leaves hlawful hapart hmem (hok _) ih).2
  exact ⟨hstay, (reconcile_leaves hlawful hapart hmem (hok _) hstay).1⟩

theorem after_replaces {id other : String} (hne : id ≠ other)
    (hmoved : Moved api supervisor replica.1.image id other)
    (hstale : ¬UpToDate api supervisor replica) (rounds : Nat) :
    Moved api (supervisor.after api queues rounds) replica.1.image id other ∧
      ¬UpToDate api (supervisor.after api queues rounds) replica ∧
      (0 < rounds → (api.inspectContainer (supervisor.after api queues rounds).docker
        replica.container).isSome = true) := by
  induction rounds with
  | zero => exact ⟨hmoved, hstale, fun h => absurd h (Nat.lt_irrefl 0)⟩
  | succ rounds ih =>
    obtain ⟨hmoved, hstale, -⟩ := ih
    obtain ⟨-, -, hthere, hstale⟩ :=
      reconcile_replaces hlawful hapart hmem (hok rounds) hne hmoved hstale
    exact ⟨(reconcile_keeps hlawful _ _).moved hmoved, hstale, fun _ => hthere⟩

end Successful

end Supervisor

/-- The replicas of valid queues that can be told apart have containers of different names. -/
theorem replicas_apart {files : Files} {queues : List QueueConfig}
    {resolve : ManagedConfig → List String × List ContainerMount}
    (hvalid : validateQueues files queues = .ok ())
    (hdistinguishable : Distinguishable (managedQueues resolve queues)) :
    ((replicas (managedQueues resolve queues)).map Replica.container).Nodup := by
  have hnames : (managedQueues resolve queues).Pairwise fun queue other => queue.name ≠ other.name := by
    refine List.pairwise_filterMap.mpr ?_
    refine (List.pairwise_map.mp (validateQueues_ok hvalid).1).imp fun {source source'} hne => ?_
    intro queue hqueue other hother
    obtain ⟨config, -, rfl⟩ := Option.map_eq_some_iff.mp hqueue
    obtain ⟨config', -, rfl⟩ := Option.map_eq_some_iff.mp hother
    exact hne
  refine List.pairwise_map.mpr (List.pairwise_flatMap.mpr ⟨fun queue _ => ?_, ?_⟩)
  · have hbound : ∀ ordinal ∈ List.range queue.replicas.toNat,
        (UInt32.ofNat ordinal).toNat = ordinal := fun ordinal hordinal =>
      UInt32.toNat_ofNat_of_lt' ((List.mem_range.mp hordinal).trans (UInt32.toNat_lt _))
    refine List.pairwise_map.mpr (List.nodup_range.imp_of_mem fun hordinal hother hne hsame => ?_)
    have hordinals := congrArg UInt32.toNat (containerName_eq.mp hsame).2
    rw [hbound _ hordinal, hbound _ hother] at hordinals
    exact hne hordinals
  · refine hnames.imp_of_mem fun {queue other} hqueue hother hne => ?_
    intro replica hreplica replica' hreplica' hsame
    obtain ⟨ordinal, -, rfl⟩ := List.mem_map.mp hreplica
    obtain ⟨ordinal', -, rfl⟩ := List.mem_map.mp hreplica'
    exact hdistinguishable queue hqueue other hother hne (containerName_eq.mp hsame).1

/-! ### A daemon -/

/-- A daemon that has all its containers and images in tables, and can pull nothing. -/
structure LocalDocker where
  containers : List (String × Inspected)
  images : List (String × String)
deriving DecidableEq, Repr

/-- The container that `create_container` makes of an image with some id. -/
def ContainerConfig.create (config : ContainerConfig) (id : Option String) : Inspected :=
  { image := id, env := config.env, mounts := config.mounts, labels := config.labels }

def localDocker : DockerApi LocalDocker where
  inspectContainer docker name := docker.containers.lookup name
  inspectImage docker image := (docker.images.lookup image).map some
  createImage docker _ := (docker, false)
  removeContainer docker name :=
    ({ docker with containers := docker.containers.filter (·.1 != name) },
      (docker.containers.lookup name).isSome)
  createContainer docker name config :=
    match docker.containers.lookup name with
    | some _ => (docker, false)
    | none =>
      ({ docker with
          containers := (name, config.create (docker.images.lookup config.image)) :: docker.containers },
        true)
  startContainer docker name := (docker, (docker.containers.lookup name).isSome)

theorem lookup_filter_ne {containers : List (String × Inspected)} {name other : String}
    (hne : other ≠ name) :
    (containers.filter (·.1 != name)).lookup other = containers.lookup other := by
  induction containers with
  | nil => rfl
  | cons entry containers ih =>
    obtain ⟨key, container⟩ := entry
    by_cases hkey : key = name
    · subst hkey
      simp [List.lookup_cons, ih, beq_eq_false_iff_ne.mpr hne]
    · simp [List.lookup_cons, ih, hkey]

theorem localDocker_lawful : localDocker.Lawful where
  remove_other docker name other hne := lookup_filter_ne hne
  remove_image _ _ _ := rfl
  create_other docker name config other hne := by
    simp only [localDocker]
    split
    · rfl
    · simp [List.lookup_cons, beq_eq_false_iff_ne.mpr hne]
  create_image docker name config image := by
    simp only [localDocker]
    split <;> rfl
  created docker name config hcreated := by
    simp only [localDocker] at hcreated ⊢
    split at hcreated
    · cases hcreated
    · next hnone =>
      refine ⟨config.create (docker.images.lookup config.image), ?_, fun id hid => ?_,
        fun _ h => h, fun _ h _ => h⟩
      · simp
      · obtain ⟨found, hfound, hsome⟩ := Option.map_eq_some_iff.mp hid
        exact hfound.trans hsome
  start_container _ _ _ := rfl
  start_image _ _ _ := rfl
  pull_container _ _ _ := rfl
  pull_other _ _ _ _ := rfl

/-- The daemon with an id for the image of `managedNamed`, and the container of its first replica
made of an image with some id. -/
def mailDocker (id : String) (container : Option String) : LocalDocker :=
  { containers := container.toList.map fun image =>
      ("maqistor-mail-0", { image := some image, env := [], mounts := [], labels := [
        ("io.maqistor.managed", "true"), ("io.maqistor.queue", "mail"), ("io.maqistor.replica", "0")] })
    images := [("worker:1.0", id)] }

section Settling

variable {api : DockerApi σ} {files : Files} {queues : List QueueConfig}
  {resolve : ManagedConfig → List String × List ContainerMount}

/-- From the first round that succeeds on, whatever the daemon had at the start, every container is
as its queue wants it, and a round only asks for each and starts it, if the paths of the mounts are
clean. -/
theorem reconcile_settles (hlawful : api.Lawful) (hvalid : validateQueues files queues = .ok ())
    (hdistinguishable : Distinguishable (managedQueues resolve queues))
    (hclean : ∀ queue ∈ managedQueues resolve queues, ∀ mount ∈ queue.mounts, mount.Clean) (docker : σ)
    {first later : Nat}
    (hok : (Supervisor.round api (managedQueues resolve queues) first ⟨docker, []⟩).2 = true)
    (hlater : first < later) :
    (∀ replica ∈ replicas (managedQueues resolve queues), Supervisor.UpToDate api
        (Supervisor.after api (managedQueues resolve queues) later ⟨docker, []⟩) replica) ∧
      Supervisor.round api (managedQueues resolve queues) later ⟨docker, []⟩ =
        ((replicas (managedQueues resolve queues)).flatMap quietCalls, true) := by
  have hsettled : ∀ replica ∈ replicas (managedQueues resolve queues), Supervisor.UpToDate api
      (Supervisor.after api (managedQueues resolve queues) (first + 1) ⟨docker, []⟩) replica := by
    intro replica hreplica
    refine Supervisor.reconcile_settled hlawful (replicas_apart hvalid hdistinguishable) hreplica hok
      (hclean _ (mem_replicas hreplica)) (Supervisor.after_agrees hlawful first fun id hid => ?_)
    cases hid
  obtain ⟨more, rfl⟩ := Nat.exists_eq_add_of_lt hlater
  rw [Nat.add_right_comm]
  exact Supervisor.after_upToDate hlawful hsettled more

/-- A mount of certificates. -/
def certsMount : ContainerMount :=
  { source := "/etc/maqistor/certs", target := "/certs", readOnly := true }

/-- The container that the daemon has at the start is of another image and has no mount. -/
theorem reconcile_settles_mail :
    Supervisor.round localDocker (managedQueues (fun _ => ([], [certsMount])) (managedNamed ["mail"]))
        40 ⟨mailDocker "sha256:2" (some "sha256:1"), []⟩ =
      ([.inspect "maqistor-mail-0", .start "maqistor-mail-0"], true) := by
  have hvalid : validateQueues ⟨fun _ => true, fun _ => true⟩ (managedNamed ["mail"]) = .ok () := by
    decide
  have hapart : Distinguishable
      (managedQueues (fun _ => ([], [certsMount])) (managedNamed ["mail"])) := by
    unfold Distinguishable Confusable
    decide
  have hclean : ∀ queue ∈ managedQueues (fun _ => ([], [certsMount])) (managedNamed ["mail"]),
      ∀ mount ∈ queue.mounts, mount.Clean := by
    decide +kernel
  exact (reconcile_settles localDocker_lawful hvalid hapart hclean (mailDocker "sha256:2" (some "sha256:1"))
    (by decide : (Supervisor.round localDocker _ 0 _).2 = true) (by decide)).2

/-- While rounds succeed, the container of a replica is removed in every one but the first exactly
when it was not up to date and the id that the supervisor has for its image is no longer the
daemon's; and it is created again in the same round. -/
theorem moved_tag_replaces (hlawful : api.Lawful) (hvalid : validateQueues files queues = .ok ())
    (hdistinguishable : Distinguishable (managedQueues resolve queues)) {supervisor : Supervisor σ}
    (hok : ∀ rounds,
      (Supervisor.round api (managedQueues resolve queues) rounds supervisor).2 = true)
    {replica : Replica} (hmem : replica ∈ replicas (managedQueues resolve queues))
    (hclean : ∀ mount ∈ replica.1.mounts, mount.Clean) {id other : String}
    (hmoved : Supervisor.Moved api supervisor replica.1.image id other) {later : Nat}
    (hlater : 0 < later) :
    (.remove replica.container ∈
        (Supervisor.round api (managedQueues resolve queues) later supervisor).1 ↔
      id ≠ other ∧ ¬Supervisor.UpToDate api supervisor replica) ∧
    (.remove replica.container ∈
        (Supervisor.round api (managedQueues resolve queues) later supervisor).1 →
      .create replica.container (containerConfig replica.1 replica.2) ∈
        (Supervisor.round api (managedQueues resolve queues) later supervisor).1) := by
  have hapart := replicas_apart hvalid hdistinguishable
  have hreplaces : id ≠ other ∧ ¬Supervisor.UpToDate api supervisor replica →
      .create replica.container (containerConfig replica.1 replica.2) ∈
        (Supervisor.round api (managedQueues resolve queues) later supervisor).1 ∧
      .remove replica.container ∈
        (Supervisor.round api (managedQueues resolve queues) later supervisor).1 := by
    rintro ⟨hne, hstale⟩
    obtain ⟨hmoved, hstale, hthere⟩ :=
      Supervisor.after_replaces hlawful hapart hmem hok hne hmoved hstale later
    obtain ⟨hcreate, hremove, -⟩ :=
      Supervisor.reconcile_replaces hlawful hapart hmem (hok later) hne hmoved hstale
    exact ⟨hcreate, hremove (hthere hlater)⟩
  have hcause : .remove replica.container ∈
      (Supervisor.round api (managedQueues resolve queues) later supervisor).1 →
      id ≠ other ∧ ¬Supervisor.UpToDate api supervisor replica := by
    intro hremove
    refine ⟨?_, fun hcurrent => ?_⟩
    · rintro rfl
      have hagrees : Supervisor.Agrees api supervisor replica.1.image := by
        intro found hfound
        obtain rfl : id = found := Option.some.inj (hmoved.desired.symm.trans hfound)
        exact hmoved.daemon
      have hsettled : Supervisor.UpToDate api
          (Supervisor.after api (managedQueues resolve queues) 1 supervisor) replica :=
        Supervisor.reconcile_settled hlawful hapart hmem (hok 0) hclean hagrees
      obtain ⟨more, rfl⟩ := Nat.exists_eq_add_of_le hlater
      exact (Supervisor.after_leaves hlawful hapart hmem hok hsettled more).2 hremove
    · have hstart : Supervisor.UpToDate api
          (Supervisor.after api (managedQueues resolve queues) 0 supervisor) replica := hcurrent
      have hleaves := (Supervisor.after_leaves hlawful hapart hmem hok hstart later).2
      rw [Nat.zero_add] at hleaves
      exact hleaves hremove
  exact ⟨⟨hcause, fun h => (hreplaces h).2⟩, fun hremove => (hreplaces (hcause hremove)).1⟩

/-- The tag of the image has moved from `sha256:1` to `sha256:2` since the supervisor has asked for
it. -/
theorem moved_tag_replaces_mail :
    .create "maqistor-mail-0" { image := "worker:1.0", env := [], mounts := [], labels := [
        ("io.maqistor.managed", "true"), ("io.maqistor.queue", "mail"), ("io.maqistor.replica", "0")] } ∈
      (Supervisor.round localDocker (managedQueues (fun _ => ([], [])) (managedNamed ["mail"])) 40
        ⟨mailDocker "sha256:2" (some "sha256:2"), [("worker:1.0", "sha256:1")]⟩).1 := by
  have hvalid : validateQueues ⟨fun _ => true, fun _ => true⟩ (managedNamed ["mail"]) = .ok () := by
    decide
  have hapart : Distinguishable (managedQueues (fun _ => ([], [])) (managedNamed ["mail"])) := by
    unfold Distinguishable Confusable
    decide
  have hround : Supervisor.reconcile localDocker
      (replicas (managedQueues (fun _ => ([], [])) (managedNamed ["mail"])))
      ⟨mailDocker "sha256:2" (some "sha256:2"), [("worker:1.0", "sha256:1")]⟩ =
      (⟨mailDocker "sha256:2" (some "sha256:2"), [("worker:1.0", "sha256:1")]⟩,
        [.inspect "maqistor-mail-0", .remove "maqistor-mail-0", .create "maqistor-mail-0"
            { image := "worker:1.0", env := [], mounts := [], labels := [
              ("io.maqistor.managed", "true"), ("io.maqistor.queue", "mail"),
              ("io.maqistor.replica", "0")] },
          .start "maqistor-mail-0"], true) := by
    decide
  have hafter : ∀ rounds, Supervisor.after localDocker
      (managedQueues (fun _ => ([], [])) (managedNamed ["mail"])) rounds
      ⟨mailDocker "sha256:2" (some "sha256:2"), [("worker:1.0", "sha256:1")]⟩ =
      ⟨mailDocker "sha256:2" (some "sha256:2"), [("worker:1.0", "sha256:1")]⟩ := by
    intro rounds
    induction rounds with
    | zero => rfl
    | succ rounds ih => rw [Supervisor.after, ih, hround]
  have hmem : ((⟨"mail", "worker:1.0", 1, [], []⟩, 0) : Replica) ∈
      replicas (managedQueues (fun _ => ([], [])) (managedNamed ["mail"])) := by
    decide
  have hmoved : Supervisor.Moved localDocker
      ⟨mailDocker "sha256:2" (some "sha256:2"), [("worker:1.0", "sha256:1")]⟩ "worker:1.0"
      "sha256:1" "sha256:2" := ⟨by decide, by decide⟩
  have hok : ∀ rounds, (Supervisor.round localDocker
      (managedQueues (fun _ => ([], [])) (managedNamed ["mail"])) rounds
      ⟨mailDocker "sha256:2" (some "sha256:2"), [("worker:1.0", "sha256:1")]⟩).2 = true := by
    intro rounds
    rw [Supervisor.round, hafter, hround]
  obtain ⟨hiff, hcreate⟩ := moved_tag_replaces localDocker_lawful hvalid hapart hok hmem (by decide) hmoved
    (by decide : 0 < 40)
  refine hcreate (hiff.mpr ⟨by decide, ?_⟩)
  rintro ⟨id, container, hid, hinspected, hneed⟩
  obtain rfl : "sha256:1" = id := Option.some.inj hid
  have himage : container.image = some "sha256:2" := by
    obtain rfl := Option.some.inj hinspected
    rfl
  have hwanted := (needUpdate_eq_false.mp hneed).1
  rw [himage] at hwanted
  revert hwanted
  decide

end Settling

end Maqistor
