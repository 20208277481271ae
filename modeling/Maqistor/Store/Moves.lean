import Maqistor.Store.System
import Maqistor.Lib.Lists

/-! How a step moves the calls in flight: an action brings in new calls, or one call takes its next
step, or the store is closed and opened again. -/

namespace Maqistor

variable {α : Type}

/-- What the calls in flight have under way. -/
def collect {α : Type} (f : Stage → List α) (pool : List (Nat × Stage)) : List α :=
  pool.flatMap fun entry => f entry.2

/-- The cutoff of a cleanup that has its second delete still to do. -/
def Stage.cutoffs : Stage → List Int
  | .cleanupResults cutoff _ => [cutoff]
  | _ => []

def Progress.collect (f : Stage → List α) : Progress → List α
  | .wait stage => f stage
  | .done _ => []

theorem collect_append (f : Stage → List α) (pool more : List (Nat × Stage)) :
    collect f (pool ++ more) = collect f pool ++ collect f more := by
  simp [collect]

theorem collect_perm (f : Stage → List α) {pool pool' : List (Nat × Stage)}
    (h : pool.Perm pool') : (collect f pool).Perm (collect f pool') :=
  h.flatMap_right _

theorem collect_waiting (f : Stage → List α) (items : List (Progress × Nat)) :
    collect f (System.waiting items) = items.flatMap fun item => item.1.collect f := by
  induction items with
  | nil => rfl
  | cons item items ih =>
    obtain ⟨progress, id⟩ := item
    rw [List.flatMap_cons, ← ih]
    cases progress <;> rfl

theorem collect_enter (f : Stage → List α) (sys : System) (store : Store)
    (progress : List Progress) :
    collect f (sys.enter store progress).1.pool =
      progress.flatMap (Progress.collect f) ++ collect f sys.pool := by
  have hitems : ∀ n, ((progress.zipIdx n).flatMap fun item => item.1.collect f) =
      progress.flatMap (Progress.collect f) := by
    intro n
    conv_rhs => rw [← List.zipIdx_map_fst n progress, List.flatMap_map]
  rw [System.enter, collect_append, collect_waiting, hitems]

theorem collect_proceed (f : Stage → List α) (sys : System) (i id : Nat) (store : Store)
    (progress : Progress) :
    collect f (sys.proceed i id store progress).1.pool =
      progress.collect f ++ collect f (sys.pool.eraseIdx i) := by
  rw [System.proceed, collect_append, collect_waiting, List.flatMap_singleton]

/-- What the calls in flight have under way is what the `i`-th of them has, and the others. -/
theorem mem_collect_iff (f : Stage → List α) {pool : List (Nat × Stage)} {i id : Nat}
    {stage : Stage} (h : pool[i]? = some (id, stage)) {x : α} :
    x ∈ collect f pool ↔ x ∈ f stage ∨ x ∈ collect f (pool.eraseIdx i) :=
  (collect_perm f (Lists.perm_eraseIdx h)).mem_iff.trans List.mem_append

theorem flatMap_nil {β : Type} {f : α → List β} {xs : List α} (h : ∀ x ∈ xs, f x = []) :
    xs.flatMap f = [] :=
  List.flatMap_eq_nil_iff.mpr h

theorem eq_of_some_eq {β γ : Type} {result : β × γ} {b : β} {c : γ} (h : some result = some (b, c)) :
    b = result.1 ∧ c = result.2 := by
  obtain rfl := Option.some.inj h
  exact ⟨rfl, rfl⟩

/-- The first steps of the calls that an action brings in. -/
def Store.start (store : Store) : Action → Option (Store × List Progress)
  | .upsertQueue env queue =>
    some ((store.upsertQueue env queue).1, [(store.upsertQueue env queue).2])
  | .enqueue batch => some (store.enqueueBatch batch)
  | .claimBatch env newDispatchId claimedAt queueName limit =>
    some ((store.claimBatch env newDispatchId claimedAt queueName limit).1,
      [(store.claimBatch env newDispatchId claimedAt queueName limit).2])
  | .complete env batch => some (store.completeBatch env batch)
  | .releaseClaim jobId dispatchId => some (store, [store.releaseClaim jobId dispatchId])
  | .recoverStaleLeases choice now =>
    some ((store.recoverStaleLeases choice now).1, [(store.recoverStaleLeases choice now).2])
  | .cleanupExpiredRecords cutoff =>
    some ((store.cleanupIngest cutoff).1, [(store.cleanupIngest cutoff).2])
  | .getJob jobId => some (store, [store.composedJob .getJob jobId])
  | _ => none

inductive Moves (sys : System) : Action → System → Replied → Prop
  | start {action : Action} {store : Store} {progress : List Progress}
      (issued : List (Int × String)) (hphase : sys.phase = .serving)
      (hstart : sys.store.start action = some (store, progress)) :
      Moves sys action { (sys.enter store progress).1 with issued := issued }
        (sys.enter store progress).2
  | resume {i id : Nat} {stage : Stage} (env : Env) (hphase : sys.phase = .serving)
      (hentry : sys.pool[i]? = some (id, stage)) :
      Moves sys (.resume env i)
        (sys.proceed i id (sys.store.advance env stage).1 (sys.store.advance env stage).2).1
        (sys.proceed i id (sys.store.advance env stage).1 (sys.store.advance env stage).2).2
  | fault {i id : Nat} {stage : Stage} (error : StoreError) (hphase : sys.phase = .serving)
      (hentry : sys.pool[i]? = some (id, stage)) :
      Moves sys (.fault error i) (sys.proceed i id sys.store (Store.faulted error stage)).1
        (sys.proceed i id sys.store (Store.faulted error stage)).2
  | crash (hphase : sys.phase = .serving) :
      Moves sys .crash { sys with phase := .closed, pool := [] } []
  | close (hphase : sys.phase ≠ .serving) : Moves sys .crash { sys with phase := .closed } []
  | reopen (choice : Table.Choice) (hphase : sys.phase = .closed) :
      Moves sys (.reopen choice) { sys with
        store := { sys.store with queueNames := sys.store.ingest.queueNames }
        phase := .healing (sys.store.claims choice) } []
  | heal {key : Int × String} {rest : List (Int × String)} (env : Env)
      (hphase : sys.phase = .healing (key :: rest)) :
      Moves sys (.heal env) { sys with
        store := sys.store.healOrphan env key, phase := .healing rest } []
  | opened (env : Env) (hphase : sys.phase = .healing []) :
      Moves sys (.heal env) { sys with phase := .serving } []

theorem serve_resume {sys sys' : System} {env : Env} {i : Nat} {replied : Replied}
    (hstep : sys.serve (.resume env i) = some (sys', replied)) :
    ∃ id stage, sys.pool[i]? = some (id, stage) ∧
      sys' = (sys.proceed i id (sys.store.advance env stage).1
        (sys.store.advance env stage).2).1 ∧
      replied = (sys.proceed i id (sys.store.advance env stage).1
        (sys.store.advance env stage).2).2 := by
  simp only [System.serve] at hstep
  split at hstep
  · cases hstep
  · next id stage hentry => exact ⟨id, stage, hentry, eq_of_some_eq hstep⟩

theorem serve_fault {sys sys' : System} {error : StoreError} {i : Nat} {replied : Replied}
    (hstep : sys.serve (.fault error i) = some (sys', replied)) :
    ∃ id stage, sys.pool[i]? = some (id, stage) ∧
      sys' = (sys.proceed i id sys.store (Store.faulted error stage)).1 ∧
      replied = (sys.proceed i id sys.store (Store.faulted error stage)).2 := by
  simp only [System.serve] at hstep
  split at hstep
  · cases hstep
  · next id stage hentry => exact ⟨id, stage, hentry, eq_of_some_eq hstep⟩

theorem serve_moves {sys sys' : System} {action : Action} {replied : Replied}
    (hphase : sys.phase = .serving) (hstep : sys.serve action = some (sys', replied)) :
    Moves sys action sys' replied := by
  cases action with
  | claimBatch env newDispatchId claimedAt queueName limit =>
    simp only [System.serve] at hstep
    split at hstep
    · obtain ⟨rfl, rfl⟩ := eq_of_some_eq hstep
      exact .start _ hphase rfl
    · cases hstep
  | resume env i =>
    obtain ⟨id, stage, hentry, rfl, rfl⟩ := serve_resume hstep
    exact .resume env hphase hentry
  | fault error i =>
    obtain ⟨id, stage, hentry, rfl, rfl⟩ := serve_fault hstep
    exact .fault error hphase hentry
  | crash =>
    obtain ⟨rfl, rfl⟩ := eq_of_some_eq hstep
    exact .crash hphase
  | reopen choice => cases hstep
  | heal env => cases hstep
  | _ =>
    obtain ⟨rfl, rfl⟩ := eq_of_some_eq hstep
    exact .start sys.issued hphase rfl

theorem step_moves {sys sys' : System} {action : Action} {replied : Replied}
    (hstep : sys.step action = some (sys', replied)) : Moves sys action sys' replied := by
  unfold System.step at hstep
  split at hstep
  · next hphase => exact serve_moves hphase hstep
  · next choice hphase =>
    obtain ⟨rfl, rfl⟩ := eq_of_some_eq hstep
    exact .reopen choice hphase
  · next env hphase =>
    obtain ⟨rfl, rfl⟩ := eq_of_some_eq hstep
    exact .opened env hphase
  · next key rest env hphase =>
    obtain ⟨rfl, rfl⟩ := eq_of_some_eq hstep
    exact .heal env hphase
  · next hphase =>
    obtain ⟨hsys, rfl⟩ := eq_of_some_eq hstep
    have hclosed : sys' = { sys with phase := .closed } := by rw [hsys, ← hphase]
    exact hclosed ▸ .close (by simp [hphase])
  · next orphans hphase =>
    obtain ⟨rfl, rfl⟩ := eq_of_some_eq hstep
    exact .close (by simp [hphase])
  · cases hstep

section Pool

variable {sys : System} {store : Store} {i id : Nat} {entry : Nat × Stage} {reply : Reply}

theorem mem_enter_pool (store : Store) {progress : List Progress} :
    entry ∈ (sys.enter store progress).1.pool →
      entry ∈ sys.pool ∨ .wait entry.2 ∈ progress ∧ sys.nextCall ≤ entry.1 ∧
        entry.1 < sys.nextCall + progress.length := by
  intro h
  rcases List.mem_append.mp h with hnew | hold
  · obtain ⟨⟨item, n⟩, hitem, heq⟩ := List.mem_filterMap.mp hnew
    have hbounds := List.mem_zipIdx hitem
    cases item with
    | wait stage =>
      obtain rfl := Option.some.inj heq
      exact Or.inr ⟨List.fst_mem_of_mem_zipIdx hitem, hbounds.1, hbounds.2.1⟩
    | done reply => cases heq
  · exact Or.inl hold

theorem mem_enter_replied {progress : List Progress} :
    (id, reply) ∈ (sys.enter store progress).2 → .done reply ∈ progress ∧ sys.nextCall ≤ id := by
  intro h
  obtain ⟨⟨item, n⟩, hitem, heq⟩ := List.mem_filterMap.mp h
  cases item with
  | wait stage => cases heq
  | done other =>
    obtain ⟨rfl, rfl⟩ := Prod.mk.inj (Option.some.inj heq)
    exact ⟨List.fst_mem_of_mem_zipIdx hitem, (List.mem_zipIdx hitem).1⟩

theorem mem_proceed_pool {progress : Progress} :
    entry ∈ (sys.proceed i id store progress).1.pool →
      entry ∈ sys.pool ∨ entry.1 = id ∧ progress = .wait entry.2 := by
  intro h
  rcases List.mem_append.mp h with hnew | hold
  · cases progress with
    | wait stage =>
      obtain rfl := List.mem_singleton.mp hnew
      exact Or.inr ⟨rfl, rfl⟩
    | done reply => cases hnew
  · exact Or.inl (List.mem_of_mem_eraseIdx hold)

theorem mem_proceed_replied {n : Nat} {progress : Progress} :
    (n, reply) ∈ (sys.proceed i id store progress).2 → n = id ∧ progress = .done reply := by
  intro h
  cases progress with
  | wait stage => cases h
  | done other =>
    obtain ⟨rfl, rfl⟩ := Prod.mk.inj (List.mem_singleton.mp h)
    exact ⟨rfl, rfl⟩

end Pool

end Maqistor
