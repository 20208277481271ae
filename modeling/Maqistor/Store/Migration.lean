import Maqistor.Lib.Script
import Maqistor.Types

/-! The schemas of the two database files, and what opening them does to files that an earlier
opening has left unfinished. SQLite commits each statement of a migration by itself, so the process
may stop between any two of them. -/

namespace Maqistor

/-- `CREATE TABLE` or `CREATE [UNIQUE] INDEX`. -/
structure Create where
  object : String
  /-- The table of an index. -/
  onTable : Option String
  ifNotExists : Bool
deriving DecidableEq, Repr

/-- A statement of `migrate_schema`. -/
inductive Statement where
  | create (create : Create)
  /-- `DELETE FROM schema_version`. -/
  | deleteVersions
  /-- `INSERT INTO schema_version`. -/
  | insertVersion (version : Int)
deriving DecidableEq, Repr

/-- A database file: the names of its tables and indexes, and the rows of `schema_version`. -/
structure DbFile where
  objects : List String
  versions : List Int
deriving DecidableEq, Repr

/-- What SQLite has against a `CREATE`. -/
inductive SqlError where
  | alreadyExists (object : String)
  | noSuchTable (table : String)
deriving DecidableEq, Repr

def DbFile.empty : DbFile := { objects := [], versions := [] }

def Create.exec (create : Create) (file : DbFile) : Except SqlError DbFile :=
  if create.object ∈ file.objects then
    if create.ifNotExists then .ok file else .error (.alreadyExists create.object)
  else
    match create.onTable.filter (· ∉ file.objects) with
    | some table => .error (.noSuchTable table)
    | none => .ok { file with objects := file.objects ++ [create.object] }

def Statement.exec : Statement → DbFile → Except SqlError DbFile
  | .create item, file => item.exec file
  | .deleteVersions, file => .ok { file with versions := [] }
  | .insertVersion version, file => .ok { file with versions := file.versions ++ [version] }

/-- `SCHEMA_VERSION`. -/
def schemaVersion : Int := 1

def createSchemaVersion : Create :=
  { object := "schema_version", onTable := none, ifNotExists := true }

/-- `apply_acceptance_schema`. -/
def acceptanceSchema : List Create :=
  [{ object := "meta", onTable := none, ifNotExists := true },
    { object := "idx_meta_key", onTable := some "meta", ifNotExists := false },
    { object := "job_queues", onTable := none, ifNotExists := false },
    { object := "accepted_jobs", onTable := none, ifNotExists := false },
    { object := "idx_accepted_jobs_queue_available", onTable := some "accepted_jobs"
      ifNotExists := false }]

/-- `apply_executions_schema`. -/
def executionsSchema : List Create :=
  [{ object := "execution_queues", onTable := none, ifNotExists := false },
    { object := "executions", onTable := none, ifNotExists := false },
    { object := "idx_executions_job_id", onTable := some "executions", ifNotExists := false },
    { object := "idx_executions_stale_leases", onTable := some "executions", ifNotExists := false }]

/-- What a migration ends with when it does not succeed: a crash or an error of the store. -/
abbrev Migrating := Script.Ran DbFile Statement StoreError

section Open

-- what `err.to_string()` says of an error of SQLite
variable (text : SqlError → String)

def Statement.run (statement : Statement) (file : DbFile) : Except StoreError DbFile :=
  (statement.exec file).mapError fun error => .internal (.text (text error))

/-- The version that a file has recorded, or -1. -/
def DbFile.version (file : DbFile) : Int := file.versions.head?.getD (-1)

/-- What follows in `migrate_schema` once it has read the version. -/
def applySchema (schema : List Create) (crash : Option Nat) (file : DbFile) : Migrating :=
  if file.version = -1 then
    Script.run (Statement.run text) crash
      (schema.map .create ++ [.deleteVersions, .insertVersion schemaVersion]) file
  else if file.version ≠ schemaVersion then
    ⟨file, [], .error (.failed (.internal (.text
      (s!"unsupported database schema version {file.version}; expected {schemaVersion} — " ++
        "delete the database file and restart"))))⟩
  else ⟨file, [], .ok crash⟩

/-- `migrate_schema`, with a crash after some statements, if that is a number. -/
def migrateSchema (schema : List Create) (crash : Option Nat) (file : DbFile) : Migrating :=
  (Script.run (Statement.run text) crash [.create createSchemaVersion] file).andThen
    (applySchema text schema)

structure DbFiles where
  ingest : DbFile
  results : DbFile
deriving DecidableEq, Repr

def DbFiles.empty : DbFiles := { ingest := .empty, results := .empty }

/-- An attempt to open the store: the files after it, the statements that it has executed on each of
them, and how it ended. -/
structure Opening where
  files : DbFiles
  ingest : List Statement
  results : List Statement
  outcome : Except (Script.Stop StoreError) Unit

/-- `open_with_options_pair` up to `heal_on_open`, with a crash after some statements, if that is a
number. -/
def openStore (crash : Option Nat) (files : DbFiles) : Opening :=
  let ingest := migrateSchema text acceptanceSchema crash files.ingest
  match ingest.outcome with
  | .error stop =>
    { files := { files with ingest := ingest.state }, ingest := ingest.executed, results := []
      outcome := .error stop }
  | .ok left =>
    let results := migrateSchema text executionsSchema left files.results
    { files := { ingest := ingest.state, results := results.state }, ingest := ingest.executed
      results := results.executed, outcome := results.outcome.map fun _ => () }

/-- The attempts to open a store, the first on no files and each with its crash, newest first. -/
def openings : List (Option Nat) → List Opening
  | [] => []
  | crash :: earlier =>
    openStore text crash (((openings earlier).head?.map Opening.files).getD .empty) ::
      openings earlier

/-- The files that the attempts have left. -/
def filesAfter (crashes : List (Option Nat)) : DbFiles :=
  ((openings text crashes).head?.map Opening.files).getD .empty

end Open

/-- A migration that has created something for good and has not come to record the version. -/
def CutShort (executed : List Statement) : Prop :=
  (∃ item : Create, .create item ∈ executed ∧ item.ifNotExists = false) ∧
    .insertVersion schemaVersion ∉ executed

/-! ### One file -/

/-- What a migration creates. -/
def script (schema : List Create) : List Create := createSchemaVersion :: schema

/-- No two objects of the schema have one name, an index comes after its table, and some object must
not exist before. -/
structure Lawful (schema : List Create) : Prop where
  nodup : ((script schema).map Create.object).Nodup
  tables : ∀ k : Fin (script schema).length, ∀ table ∈ (script schema)[k].onTable,
    table ∈ ((script schema).take k).map Create.object
  bare : ∃ item ∈ schema, item.ifNotExists = false

theorem acceptanceSchema_lawful : Lawful acceptanceSchema :=
  ⟨by decide, by decide, by decide⟩

theorem executionsSchema_lawful : Lawful executionsSchema :=
  ⟨by decide, by decide, by decide⟩

/-- The file has the first objects of the schema, and no version. -/
structure Unversioned (schema done : List Create) (file : DbFile) : Prop where
  first : done <+: script schema
  objects : file.objects = done.map Create.object
  versions : file.versions = []

/-- The file has the schema. -/
structure Migrated (schema : List Create) (file : DbFile) : Prop where
  objects : file.objects = (script schema).map Create.object
  versions : file.versions = [schemaVersion]

/-- The file has nothing yet that a migration cannot create again. -/
def Untouched (schema : List Create) (file : DbFile) : Prop :=
  ∃ done, Unversioned schema done file ∧ ∀ item ∈ done, item.ifNotExists = true

/-- The file has something that a migration cannot create again, and no version. -/
def Stuck (schema : List Create) (file : DbFile) : Prop :=
  ∃ done, Unversioned schema done file ∧ ∃ item ∈ done, item.ifNotExists = false

section File

variable {text : SqlError → String} {schema done more : List Create} {file file' : DbFile}
  {item : Create} {crash : Option Nat}

theorem run_existing (h : item.object ∈ file.objects) :
    Statement.run text (.create item) file =
      if item.ifNotExists then .ok file
      else .error (.internal (.text (text (.alreadyExists item.object)))) := by
  rw [Statement.run, Statement.exec, Create.exec, if_pos h]
  split <;> rfl

theorem run_new (h : item.object ∉ file.objects)
    (htable : ∀ table ∈ item.onTable, table ∈ file.objects) :
    Statement.run text (.create item) file =
      .ok { file with objects := file.objects ++ [item.object] } := by
  have hnone : item.onTable.filter (· ∉ file.objects) = none := by
    rw [Option.filter_eq_none_iff]
    intro table hmem
    simpa using htable table hmem
  rw [Statement.run, Statement.exec, Create.exec, if_neg h, hnone]
  rfl

/-- Statements for objects that the file has succeed when they allow for that, and change
nothing. -/
theorem execAll_existing (h : ∀ item ∈ more, item.object ∈ file.objects)
    (hexec : Script.execAll (Statement.run text) (more.map .create) file = .ok file') :
    file' = file ∧ ∀ item ∈ more, item.ifNotExists = true := by
  induction more with
  | nil => exact ⟨(Except.ok.inj hexec).symm, fun _ hitem => absurd hitem List.not_mem_nil⟩
  | cons item more ih =>
    rw [List.map_cons, Script.execAll, run_existing (h item List.mem_cons_self)] at hexec
    cases hexists : item.ifNotExists with
    | false => simp [hexists] at hexec
    | true =>
      simp only [hexists, if_true] at hexec
      obtain ⟨hsame, hall⟩ := ih (fun other hother => h other (List.mem_cons_of_mem _ hother)) hexec
      exact ⟨hsame, List.forall_mem_cons.mpr ⟨hexists, hall⟩⟩

theorem execAll_repeatable (h : ∀ item ∈ more, item.object ∈ file.objects)
    (hall : ∀ item ∈ more, item.ifNotExists = true) :
    Script.execAll (Statement.run text) (more.map .create) file = .ok file := by
  induction more with
  | nil => rfl
  | cons item more ih =>
    have hitem : Statement.run text (.create item) file = .ok file := by
      rw [run_existing (h item List.mem_cons_self), hall item List.mem_cons_self, if_pos rfl]
    rw [List.map_cons, Script.execAll, hitem]
    exact ih (fun other hother => h other (List.mem_cons_of_mem _ hother))
      fun other hother => hall other (List.mem_cons_of_mem _ hother)

/-- The next objects of a schema can be created, one after another. -/
theorem execAll_new (hlawful : Lawful schema) (hfirst : done ++ more <+: script schema)
    (hobjects : file.objects = done.map Create.object) :
    Script.execAll (Statement.run text) (more.map .create) file =
      .ok { file with objects := (done ++ more).map Create.object } := by
  induction more generalizing done file with
  | nil =>
    rw [List.append_nil, ← hobjects]
    rfl
  | cons item more ih =>
    obtain ⟨rest, hrest⟩ := hfirst
    have hnodup := hlawful.nodup
    rw [← hrest, List.append_assoc, List.map_append, List.cons_append, List.map_cons] at hnodup
    have hnew : item.object ∉ file.objects := by
      rw [hobjects]
      exact fun hmem => (List.nodup_append.mp hnodup).2.2 _ hmem _ List.mem_cons_self rfl
    have htable : ∀ table ∈ item.onTable, table ∈ file.objects := by
      have hlength : done.length < (script schema).length := by
        rw [← hrest]
        simp
      have hat : (script schema)[(⟨done.length, hlength⟩ : Fin _)] = item := by
        simp [← hrest]
      have htables := hlawful.tables ⟨done.length, hlength⟩
      rw [hat] at htables
      intro table hmem
      have htaken := htables table hmem
      rw [hobjects]
      simpa [← hrest] using htaken
    rw [List.map_cons, Script.execAll, run_new hnew htable]
    have hstep : done ++ [item] ++ more <+: script schema := ⟨rest, by simpa using hrest⟩
    have hmore : ({ file with objects := file.objects ++ [item.object] } : DbFile).objects =
        (done ++ [item]).map Create.object := by simp [hobjects]
    refine (ih hstep hmore).trans ?_
    rw [List.append_assoc, List.singleton_append]

/-- The first statements of a migration leave a file alone whose objects they find, or add what
comes next. -/
theorem execAll_first (hlawful : Lawful schema) (hfile : Unversioned schema done file)
    (hmore : more <+: script schema)
    (hexec : Script.execAll (Statement.run text) (more.map .create) file = .ok file') :
    (more <+: done ∧ file' = file ∧ ∀ item ∈ more, item.ifNotExists = true) ∨
      (done <+: more ∧ Unversioned schema more file' ∧ ∀ item ∈ done, item.ifNotExists = true) := by
  rcases List.prefix_or_prefix_of_prefix hmore hfile.first with hbefore | ⟨new, rfl⟩
  · obtain ⟨rfl, hall⟩ := execAll_existing (fun item hitem => by
      rw [hfile.objects]
      exact List.mem_map_of_mem (hbefore.subset hitem)) hexec
    exact Or.inl ⟨hbefore, rfl, hall⟩
  · rw [List.map_append, Script.execAll_append] at hexec
    split at hexec
    · cases hexec
    · next hdone =>
      obtain ⟨rfl, hall⟩ := execAll_existing (fun item hitem => by
        rw [hfile.objects]
        exact List.mem_map_of_mem hitem) hdone
      rw [execAll_new hlawful hmore hfile.objects] at hexec
      obtain rfl := Except.ok.inj hexec
      exact Or.inr ⟨List.prefix_append _ _, ⟨hmore, rfl, hfile.versions⟩, hall⟩

theorem versions_run_create (hrun : Statement.run text (.create item) file = .ok file') :
    file'.versions = file.versions := by
  rw [Statement.run, Statement.exec, Create.exec] at hrun
  split at hrun
  · split at hrun
    · rw [← Except.ok.inj hrun]
    · cases hrun
  · split at hrun
    · cases hrun
    · rw [← Except.ok.inj hrun]

theorem versions_run {ran : Migrating}
    (hran : ran = Script.run (Statement.run text) crash [.create item] file) :
    ran.state.versions = file.versions := by
  obtain ⟨rest, hbegins, hstate, -⟩ :=
    Script.run_spec (Statement.run text) crash [.create item] file
  rw [← hran] at hbegins hstate
  cases hexecuted : ran.executed with
  | nil =>
    rw [hexecuted] at hstate
    rw [← Except.ok.inj hstate]
  | cons statement others =>
    rw [hexecuted, List.cons_append] at hbegins
    obtain ⟨rfl, hrest⟩ := List.cons.inj hbegins
    obtain ⟨rfl, -⟩ := List.append_eq_nil_iff.mp hrest.symm
    rw [hexecuted, Script.execAll] at hstate
    split at hstate
    · cases hstate
    · next hrun =>
      obtain rfl := Except.ok.inj hstate
      exact versions_run_create hrun

/-- What a migration executes on a file without a version. -/
def wholeScript (schema : List Create) : List Statement :=
  (script schema).map .create ++ [.deleteVersions, .insertVersion schemaVersion]

/-- On a file without a version, `migrate_schema` executes the whole script. -/
theorem migrateSchema_unversioned (hversions : file.versions = []) :
    migrateSchema text schema crash file =
      Script.run (Statement.run text) crash (wholeScript schema) file := by
  have hwhole : wholeScript schema = [.create createSchemaVersion] ++
      (schema.map .create ++ [.deleteVersions, .insertVersion schemaVersion]) := rfl
  rw [hwhole, Script.run_append, migrateSchema]
  unfold Script.Ran.andThen
  split
  · rfl
  · have hversion : (Script.run (Statement.run text) crash
        [.create createSchemaVersion] file).state.version = -1 := by
      rw [DbFile.version, versions_run rfl, hversions]
      rfl
    dsimp only
    rw [applySchema, if_pos hversion]

/-- What a migration has executed before it stopped: some creations, or all of them and more. -/
theorem prefix_wholeScript {executed rest : List Statement}
    (h : wholeScript schema = executed ++ rest) :
    (∃ first others, script schema = first ++ others ∧ executed = first.map .create ∧
        rest = others.map .create ++ [.deleteVersions, .insertVersion schemaVersion]) ∨
      executed = (script schema).map .create ++ [.deleteVersions] ∨
      executed = wholeScript schema := by
  rcases List.append_eq_append_iff.mp h with ⟨tail, hexecuted, htail⟩ | ⟨tail, hcreates, hrest⟩
  · cases tail with
    | nil =>
      rw [List.append_nil] at hexecuted
      exact Or.inl ⟨script schema, [], (List.append_nil _).symm, hexecuted, htail.symm⟩
    | cons statement tail =>
      simp only [List.cons_append, List.cons.injEq] at htail
      obtain ⟨rfl, htail⟩ := htail
      cases tail with
      | nil => exact Or.inr (Or.inl hexecuted)
      | cons statement tail =>
        simp only [List.cons_append, List.cons.injEq] at htail
        obtain ⟨rfl, htail⟩ := htail
        obtain ⟨rfl, -⟩ := List.append_eq_nil_iff.mp htail.symm
        exact Or.inr (Or.inr hexecuted)
  · obtain ⟨first, others, hscript, rfl, rfl⟩ := List.map_eq_append_iff.mp hcreates
    exact Or.inl ⟨first, others, hscript, rfl, hrest⟩

/-! ### Complete and interrupted migrations -/

theorem bare_mem_script (hlawful : Lawful schema) :
    ∃ item ∈ script schema, item.ifNotExists = false := by
  obtain ⟨item, hitem, hbare⟩ := hlawful.bare
  exact ⟨item, List.mem_cons_of_mem _ hitem, hbare⟩

theorem mem_map_create {items : List Create} {item : Create} :
    Statement.create item ∈ items.map Statement.create ↔ item ∈ items := by
  simp

theorem not_cutShort_creates {items : List Create} (h : ∀ item ∈ items, item.ifNotExists = true) :
    ¬CutShort (items.map .create) := by
  rintro ⟨⟨item, hitem, hbare⟩, -⟩
  rw [mem_map_create] at hitem
  rw [h item hitem] at hbare
  cases hbare

/-- Without a crash a file without traces gets its schema. -/
theorem execAll_whole (hlawful : Lawful schema) (huntouched : Untouched schema file) :
    Script.execAll (Statement.run text) (wholeScript schema) file =
      .ok { objects := (script schema).map Create.object, versions := [schemaVersion] } := by
  obtain ⟨done, hfile, hall⟩ := huntouched
  obtain ⟨new, hnew⟩ := hfile.first
  have hcreates : Script.execAll (Statement.run text) ((script schema).map .create) file =
      .ok { file with objects := (script schema).map Create.object } := by
    have hdone : Script.execAll (Statement.run text) (done.map .create) file = .ok file :=
      execAll_repeatable (fun item hitem => by
        rw [hfile.objects]
        exact List.mem_map_of_mem hitem) hall
    rw [← hnew, List.map_append, Script.execAll_append, hdone]
    exact execAll_new hlawful (hnew ▸ List.prefix_rfl) hfile.objects
  rw [wholeScript, Script.execAll_append, hcreates]
  rfl

/-- All objects of a schema, without a version, leave a file stuck. -/
theorem stuck_of_objects (hlawful : Lawful schema) (hfile : Unversioned schema (script schema) file) :
    Stuck schema file :=
  ⟨script schema, hfile, bare_mem_script hlawful⟩

/-- A migration of a file without traces leaves none behind, or leaves it stuck, or gets to its
end. -/
theorem migrate_untouched (hlawful : Lawful schema) (huntouched : Untouched schema file)
    {ran : Migrating} (hran : ran = migrateSchema text schema crash file) :
    (Untouched schema ran.state ∧ ¬CutShort ran.executed ∧ ran.outcome = .error .crashed ∧
        crash ≠ none) ∨
      (Stuck schema ran.state ∧ CutShort ran.executed ∧ ran.outcome = .error .crashed ∧
        crash ≠ none) ∨
      (Migrated schema ran.state ∧ ¬CutShort ran.executed ∧
        ∃ left, ran.outcome = .ok left ∧ (crash = none → left = none)) := by
  have hwhole : Script.execAll (Statement.run text) (wholeScript schema) file = _ :=
    execAll_whole hlawful huntouched
  obtain ⟨done, hfile, hall⟩ := huntouched
  rw [migrateSchema_unversioned hfile.versions] at hran
  rcases Script.run_of_execAll crash hwhole with
    ⟨hexecuted, hstate, hleft⟩ | ⟨hcrashed, hcrash⟩
  · rw [← hran] at hexecuted hstate hleft
    refine Or.inr (Or.inr ⟨?_, ?_, hleft⟩)
    · rw [hstate]
      exact ⟨rfl, rfl⟩
    · rintro ⟨-, hversion⟩
      rw [hexecuted] at hversion
      exact hversion (by simp [wholeScript])
  · obtain ⟨rest, hbegins, hstate, houtcome⟩ :=
      Script.run_spec (Statement.run text) crash (wholeScript schema) file
    rw [← hran] at hbegins hstate houtcome hcrashed
    rw [hcrashed] at houtcome
    rcases prefix_wholeScript hbegins with
      ⟨first, others, hscript, hexecuted, -⟩ | hexecuted | hexecuted
    · rw [hexecuted] at hstate ⊢
      have hfirst : first <+: script schema := ⟨others, hscript.symm⟩
      rcases execAll_first hlawful hfile hfirst hstate with ⟨-, hsame, hrepeat⟩ | ⟨-, hfirstFile, -⟩
      · rw [hsame]
        exact Or.inl ⟨⟨done, hfile, hall⟩, not_cutShort_creates hrepeat, hcrashed, hcrash⟩
      · by_cases hrepeat : ∀ item ∈ first, item.ifNotExists = true
        · exact Or.inl ⟨⟨first, hfirstFile, hrepeat⟩, not_cutShort_creates hrepeat, hcrashed, hcrash⟩
        · push Not at hrepeat
          obtain ⟨item, hitem, hbare⟩ := hrepeat
          rw [ne_eq, Bool.not_eq_true] at hbare
          refine Or.inr (Or.inl ⟨⟨first, hfirstFile, item, hitem, hbare⟩, ?_, hcrashed, hcrash⟩)
          exact ⟨⟨item, mem_map_create.mpr hitem, hbare⟩, by simp⟩
    · obtain ⟨item, hitem, hbare⟩ := bare_mem_script hlawful
      rw [hexecuted, Script.execAll_append] at hstate
      split at hstate
      · cases hstate
      · next middle hcreates =>
        rcases execAll_first hlawful hfile List.prefix_rfl hcreates with
          ⟨-, -, hrepeat⟩ | ⟨-, hmiddle, -⟩
        · rw [hrepeat item hitem] at hbare
          cases hbare
        · have hcleared : ran.state = { middle with versions := [] } := (Except.ok.inj hstate).symm
          refine Or.inr (Or.inl ⟨?_, ?_, hcrashed, hcrash⟩)
          · rw [hcleared]
            exact stuck_of_objects hlawful ⟨List.prefix_rfl, hmiddle.objects, rfl⟩
          · rw [hexecuted]
            exact ⟨⟨item, by simp [hitem], hbare⟩, by simp⟩
    · rw [hexecuted] at hbegins
      exact absurd (List.append_cancel_left ((List.append_nil _).trans hbegins)).symm houtcome.2

/-- A script that has not got to the end of what the file has from a script before goes on within
it. -/
theorem next_of_repeats {done first others : List Create} {next item : Create}
    (hdone : done <+: script schema) (hitem : item ∈ done) (hbare : item.ifNotExists = false)
    (hsplit : script schema = first ++ next :: others)
    (hrepeat : ∀ item ∈ first, item.ifNotExists = true) : next ∈ done := by
  have hnext : first ++ [next] <+: script schema := ⟨others, by simp [hsplit]⟩
  rcases List.prefix_or_prefix_of_prefix hnext hdone with hbefore | hafter
  · exact hbefore.subset (by simp)
  · rcases List.prefix_concat_iff.mp hafter with rfl | hafter
    · simp
    · rw [hrepeat item (hafter.subset hitem)] at hbare
      cases hbare

/-- What the file has already fails only by a bare `CREATE` of the schema. -/
theorem run_again_fails {done : List Create} {next : Create} {error : StoreError}
    (hfile : Unversioned schema done file) (hdone : next ∈ done)
    (herror : Statement.run text (.create next) file = .error error) :
    ∃ item ∈ schema, item.ifNotExists = false ∧
      error = .internal (.text (text (.alreadyExists item.object))) := by
  have hexists : next.object ∈ file.objects := by
    rw [hfile.objects]
    exact List.mem_map_of_mem hdone
  rw [run_existing hexists] at herror
  cases hbare : next.ifNotExists with
  | true => simp [hbare] at herror
  | false =>
    simp only [hbare, Bool.false_eq_true, if_false, Except.error.injEq] at herror
    have hschema : next ∈ schema := by
      rcases List.mem_cons.mp (hfile.first.subset hdone) with rfl | hmem
      · cases hbare
      · exact hmem
    exact ⟨next, hschema, hbare, herror.symm⟩

/-- A migration of a stuck file leaves it as it is, and fails if it is not interrupted. -/
theorem migrate_stuck (hlawful : Lawful schema) (hstuck : Stuck schema file) {ran : Migrating}
    (hran : ran = migrateSchema text schema crash file) :
    ran.state = file ∧ ¬CutShort ran.executed ∧ (∀ left, ran.outcome ≠ .ok left) ∧
      (crash = none → ∃ item ∈ schema, item.ifNotExists = false ∧
        ran.outcome = .error (.failed (.internal (.text (text (.alreadyExists item.object)))))) := by
  obtain ⟨done, hfile, item, hitem, hbare⟩ := hstuck
  rw [migrateSchema_unversioned hfile.versions] at hran
  obtain ⟨rest, hbegins, hstate, houtcome⟩ :=
    Script.run_spec (Statement.run text) crash (wholeScript schema) file
  rw [← hran] at hbegins hstate houtcome
  -- what is executed does not reach the first object that must not exist
  have hcreates : ∀ first, first <+: script schema → ∀ file',
      Script.execAll (Statement.run text) (first.map .create) file = .ok file' →
      first <+: done ∧ file' = file ∧ ∀ item ∈ first, item.ifNotExists = true := by
    intro first hfirst file' hexec
    rcases execAll_first hlawful hfile hfirst hexec with hbefore | ⟨-, -, hall⟩
    · exact hbefore
    · rw [hall item hitem] at hbare
      cases hbare
  have hscript : ∀ file', Script.execAll (Statement.run text) ((script schema).map .create) file ≠
      .ok file' := by
    intro file' hexec
    obtain ⟨other, hother, hotherBare⟩ := bare_mem_script hlawful
    rw [(hcreates _ List.prefix_rfl file' hexec).2.2 other hother] at hotherBare
    cases hotherBare
  have hmore : ∀ more, Script.execAll (Statement.run text)
      ((script schema).map .create ++ more) file ≠ .ok ran.state := by
    intro more hexec
    rw [Script.execAll_append] at hexec
    split at hexec
    · cases hexec
    · next middle hmiddle => exact hscript middle hmiddle
  rcases prefix_wholeScript hbegins with
    ⟨first, others, hsplit, hexecuted, hrest⟩ | hexecuted | hexecuted
  · rw [hexecuted] at hstate
    obtain ⟨hbefore, hsame, hrepeat⟩ := hcreates first ⟨others, hsplit.symm⟩ _ hstate
    refine ⟨hsame, hexecuted ▸ not_cutShort_creates hrepeat, fun left hleft => ?_, fun hnone => ?_⟩
    · rw [hleft] at houtcome
      rw [houtcome.1] at hrest
      simp at hrest
    · split at houtcome
      · rw [houtcome.1] at hrest
        simp at hrest
      · exact absurd hnone houtcome.1
      · next error heq =>
        obtain ⟨statement, more, rfl, herror⟩ := houtcome
        cases others with
        | nil =>
          rw [List.append_nil] at hsplit
          rw [← hsplit] at hstate
          exact absurd hstate (hscript _)
        | cons next others =>
          simp only [List.map_cons, List.cons_append, List.cons.injEq] at hrest
          obtain ⟨rfl, -⟩ := hrest
          have hdone := next_of_repeats hfile.first hitem hbare hsplit hrepeat
          rw [hsame] at herror
          obtain ⟨other, hother, hotherBare, rfl⟩ := run_again_fails hfile hdone herror
          exact ⟨other, hother, hotherBare, heq⟩
  · rw [hexecuted] at hstate
    exact absurd hstate (hmore _)
  · rw [hexecuted] at hstate
    exact absurd hstate (hmore _)

/-- A migration of a file that has its schema changes nothing. -/
theorem migrate_migrated (hmigrated : Migrated schema file) {ran : Migrating}
    (hran : ran = migrateSchema text schema crash file) :
    ran.state = file ∧ ¬CutShort ran.executed ∧ (crash = none → ran.outcome = .ok none) := by
  have hexists : createSchemaVersion.object ∈ file.objects := by
    rw [hmigrated.objects]
    exact List.mem_cons_self
  have hversion : file.version = schemaVersion := by
    rw [DbFile.version, hmigrated.versions]
    rfl
  have hempty : ¬CutShort [] := fun hcut => by simpa using hcut.1
  by_cases hcrash : crash = some 0
  · subst hcrash
    rw [hran]
    exact ⟨rfl, hempty, fun hnone => by cases hnone⟩
  · have happly : applySchema text schema (crash.map Nat.pred) file =
        ⟨file, [], .ok (crash.map Nat.pred)⟩ := by
      rw [applySchema, hversion]
      rfl
    have hcreate : Statement.run text (.create createSchemaVersion) file = .ok file := by
      rw [run_existing hexists]
      rfl
    rw [migrateSchema, Script.run_cons_ok hcrash hcreate] at hran
    simp only [Script.run, Script.Ran.andThen, happly, List.append_nil] at hran
    rw [hran]
    have hcut : ¬CutShort ([createSchemaVersion].map .create) :=
      not_cutShort_creates (by simp [createSchemaVersion])
    exact ⟨rfl, hcut, fun hnone => by rw [hnone]; rfl⟩

/-! ### All attempts -/

/-- A file is stuck if and only if a migration of it was cut short. -/
def ShowsCuts (schema : List Create) (file : DbFile) (past : List (List Statement)) : Prop :=
  ((Untouched schema file ∨ Migrated schema file) ∧ ∀ executed ∈ past, ¬CutShort executed) ∨
    Stuck schema file ∧ ∃ executed ∈ past, CutShort executed

variable {past : List (List Statement)}

theorem ShowsCuts.skip (h : ShowsCuts schema file past) : ShowsCuts schema file ([] :: past) := by
  rcases h with ⟨hfile, hpast⟩ | ⟨hstuck, executed, hmem, hcut⟩
  · have hempty : ¬CutShort [] := fun hcut => by simpa using hcut.1
    exact Or.inl ⟨hfile, List.forall_mem_cons.mpr ⟨hempty, hpast⟩⟩
  · exact Or.inr ⟨hstuck, executed, List.mem_cons_of_mem _ hmem, hcut⟩

theorem ShowsCuts.migrate (hlawful : Lawful schema) (h : ShowsCuts schema file past)
    {ran : Migrating} (hran : ran = migrateSchema text schema crash file) :
    ShowsCuts schema ran.state (ran.executed :: past) := by
  rcases h with ⟨huntouched | hmigrated, hpast⟩ | ⟨hstuck, executed, hmem, hcut⟩
  · rcases migrate_untouched hlawful huntouched hran with
      ⟨hfile, hcut, -⟩ | ⟨hstuck, hcut, -⟩ | ⟨hmigrated, hcut, -⟩
    · exact Or.inl ⟨Or.inl hfile, List.forall_mem_cons.mpr ⟨hcut, hpast⟩⟩
    · exact Or.inr ⟨hstuck, _, List.mem_cons_self, hcut⟩
    · exact Or.inl ⟨Or.inr hmigrated, List.forall_mem_cons.mpr ⟨hcut, hpast⟩⟩
  · obtain ⟨hsame, hcut, -⟩ := migrate_migrated hmigrated hran
    rw [hsame]
    exact Or.inl ⟨Or.inr hmigrated, List.forall_mem_cons.mpr ⟨hcut, hpast⟩⟩
  · obtain ⟨hsame, -, -⟩ := migrate_stuck hlawful hstuck hran
    rw [hsame]
    exact Or.inr ⟨hstuck, executed, List.mem_cons_of_mem _ hmem, hcut⟩

/-- An uninterrupted migration succeeds unless an earlier one was cut short. -/
theorem ShowsCuts.complete (hlawful : Lawful schema) (h : ShowsCuts schema file past)
    {ran : Migrating} (hran : ran = migrateSchema text schema none file) :
    ((∀ executed ∈ past, ¬CutShort executed) ∧ Migrated schema ran.state ∧
        ran.outcome = .ok none) ∨
      (∃ executed ∈ past, CutShort executed) ∧ ∃ item ∈ schema, item.ifNotExists = false ∧
        ran.outcome = .error (.failed (.internal (.text (text (.alreadyExists item.object))))) := by
  rcases h with ⟨huntouched | hmigrated, hpast⟩ | ⟨hstuck, hpast⟩
  · rcases migrate_untouched hlawful huntouched hran with
      ⟨-, -, -, hcrash⟩ | ⟨-, -, -, hcrash⟩ | ⟨hmigrated, -, hleft⟩
    · exact absurd rfl hcrash
    · exact absurd rfl hcrash
    · obtain ⟨left, hok, hnone⟩ := hleft
      exact Or.inl ⟨hpast, hmigrated, hnone rfl ▸ hok⟩
  · obtain ⟨hsame, -, hleft⟩ := migrate_migrated hmigrated hran
    exact Or.inl ⟨hpast, hsame ▸ hmigrated, hleft rfl⟩
  · exact Or.inr ⟨hpast, (migrate_stuck hlawful hstuck hran).2.2.2 rfl⟩

/-- A migration that succeeds leaves the schema behind. -/
theorem ShowsCuts.opened (hlawful : Lawful schema) (h : ShowsCuts schema file past) {ran : Migrating}
    (hran : ran = migrateSchema text schema crash file) {left : Option Nat}
    (hleft : ran.outcome = .ok left) : Migrated schema ran.state := by
  rcases h with ⟨huntouched | hmigrated, -⟩ | ⟨hstuck, -⟩
  · rcases migrate_untouched hlawful huntouched hran with
      ⟨-, -, hcrashed, -⟩ | ⟨-, -, hcrashed, -⟩ | ⟨hmigrated, -⟩
    · rw [hleft] at hcrashed
      cases hcrashed
    · rw [hleft] at hcrashed
      cases hcrashed
    · exact hmigrated
  · rw [(migrate_migrated hmigrated hran).1]
    exact hmigrated
  · exact absurd hleft ((migrate_stuck hlawful hstuck hran).2.2.1 left)

end File

section Attempts

variable {text : SqlError → String}

theorem empty_untouched (schema : List Create) : Untouched schema .empty :=
  ⟨[], ⟨List.nil_prefix, rfl, rfl⟩, fun _ hitem => absurd hitem List.not_mem_nil⟩

theorem openStore_showsCuts {crash : Option Nat} {files : DbFiles} {ingest results : List (List Statement)}
    (hingest : ShowsCuts acceptanceSchema files.ingest ingest)
    (hresults : ShowsCuts executionsSchema files.results results) :
    ShowsCuts acceptanceSchema (openStore text crash files).files.ingest
        ((openStore text crash files).ingest :: ingest) ∧
      ShowsCuts executionsSchema (openStore text crash files).files.results
        ((openStore text crash files).results :: results) := by
  unfold openStore
  dsimp only
  split
  · exact ⟨hingest.migrate acceptanceSchema_lawful rfl, hresults.skip⟩
  · exact ⟨hingest.migrate acceptanceSchema_lawful rfl,
      hresults.migrate executionsSchema_lawful rfl⟩

theorem openings_showCuts (text : SqlError → String) (crashes : List (Option Nat)) :
    ShowsCuts acceptanceSchema (filesAfter text crashes).ingest
        ((openings text crashes).map Opening.ingest) ∧
      ShowsCuts executionsSchema (filesAfter text crashes).results
        ((openings text crashes).map Opening.results) := by
  induction crashes with
  | nil =>
    have hnone : ∀ executed ∈ ([] : List (List Statement)), ¬CutShort executed :=
      fun _ hexecuted => absurd hexecuted List.not_mem_nil
    exact ⟨Or.inl ⟨Or.inl (empty_untouched _), hnone⟩, Or.inl ⟨Or.inl (empty_untouched _), hnone⟩⟩
  | cons crash earlier ih => exact openStore_showsCuts ih.1 ih.2

/-- An attempt that succeeds leaves both schemas behind. -/
theorem openStore_opened {crash : Option Nat} {files : DbFiles} {ingest results : List (List Statement)}
    (hingest : ShowsCuts acceptanceSchema files.ingest ingest)
    (hresults : ShowsCuts executionsSchema files.results results)
    (hopened : (openStore text crash files).outcome = .ok ()) :
    Migrated acceptanceSchema (openStore text crash files).files.ingest ∧
      Migrated executionsSchema (openStore text crash files).files.results := by
  unfold openStore at hopened ⊢
  dsimp only at hopened ⊢
  split at hopened
  · cases hopened
  · next left hleft =>
    refine ⟨hingest.opened acceptanceSchema_lawful rfl hleft, ?_⟩
    cases houtcome : (migrateSchema text executionsSchema left files.results).outcome with
    | error stop =>
      rw [houtcome] at hopened
      cases hopened
    | ok more => exact hresults.opened executionsSchema_lawful rfl houtcome

/-- Files that have their schemas keep them. -/
theorem openStore_migrated {crash : Option Nat} {files : DbFiles}
    (hingest : Migrated acceptanceSchema files.ingest)
    (hresults : Migrated executionsSchema files.results) :
    (openStore text crash files).files = files ∧
      (crash = none → (openStore text crash files).outcome = .ok ()) := by
  obtain ⟨hsameIngest, -, hokIngest⟩ := migrate_migrated hingest
    (rfl : _ = migrateSchema text acceptanceSchema crash files.ingest)
  unfold openStore
  dsimp only
  split
  · next stop hstop =>
    refine ⟨by rw [hsameIngest], fun hnone => ?_⟩
    rw [hokIngest hnone] at hstop
    cases hstop
  · next left hleft =>
    obtain ⟨hsameResults, -, hokResults⟩ := migrate_migrated hresults
      (rfl : _ = migrateSchema text executionsSchema left files.results)
    refine ⟨by rw [hsameIngest, hsameResults], fun hnone => ?_⟩
    rw [hokIngest hnone] at hleft
    dsimp only
    rw [hokResults (Except.ok.inj hleft).symm]
    rfl

theorem openings_migrated {crashes : List (Option Nat)} {opening : Opening}
    (hopening : opening ∈ openings text crashes) (hopened : opening.outcome = .ok ()) :
    Migrated acceptanceSchema (filesAfter text crashes).ingest ∧
      Migrated executionsSchema (filesAfter text crashes).results := by
  induction crashes with
  | nil => cases hopening
  | cons crash earlier ih =>
    rcases List.mem_cons.mp hopening with rfl | hopening
    · obtain ⟨hingest, hresults⟩ := openings_showCuts text earlier
      exact openStore_opened hingest hresults hopened
    · obtain ⟨hingest, hresults⟩ := ih hopening
      have hsame : filesAfter text (crash :: earlier) = filesAfter text earlier :=
        (openStore_migrated hingest hresults).1
      rw [hsame]
      exact ⟨hingest, hresults⟩

/-- The outcome of an uninterrupted attempt, by the migrations of its two files. -/
theorem openStore_none {files : DbFiles} {ingest results : List (List Statement)}
    (hingest : ShowsCuts acceptanceSchema files.ingest ingest)
    (hresults : ShowsCuts executionsSchema files.results results) :
    ((openStore text none files).outcome = .ok () ∧
        (∀ executed ∈ ingest, ¬CutShort executed) ∧ ∀ executed ∈ results, ¬CutShort executed) ∨
      (∃ item ∈ acceptanceSchema ++ executionsSchema, item.ifNotExists = false ∧
        (openStore text none files).outcome =
          .error (.failed (.internal (.text (text (.alreadyExists item.object)))))) ∧
        ((∃ executed ∈ ingest, CutShort executed) ∨ ∃ executed ∈ results, CutShort executed) := by
  have hingestRan := hingest.complete acceptanceSchema_lawful
    (rfl : _ = migrateSchema text acceptanceSchema none files.ingest)
  have hresultsRan := hresults.complete executionsSchema_lawful
    (rfl : _ = migrateSchema text executionsSchema none files.results)
  unfold openStore
  dsimp only
  rcases hingestRan with ⟨hclean, -, hok⟩ | ⟨hcut, item, hitem, hbare, herror⟩
  · rcases hresultsRan with
      ⟨hcleanResults, -, hokResults⟩ | ⟨hcut, item, hitem, hbare, herror⟩
    · simp only [hok, hokResults]
      exact Or.inl ⟨rfl, hclean, hcleanResults⟩
    · simp only [hok, herror]
      exact Or.inr ⟨⟨item, List.mem_append_right _ hitem, hbare, rfl⟩, Or.inr hcut⟩
  · simp only [herror]
    exact Or.inr ⟨⟨item, List.mem_append_left _ hitem, hbare, rfl⟩, Or.inl hcut⟩

end Attempts

/-- Whether a store opens depends on how earlier attempts to open it have ended. However often the
process has stopped while it opened the store, and after whatever statements, the next attempt
succeeds if and only if no earlier one had created something for good in a file without recording
the version there. It then leaves both files with all tables and indexes, and every later attempt
succeeds as well. Otherwise it fails over something that exists already. -/
theorem reopening_succeeds_iff (text : SqlError → String) (crashes : List (Option Nat)) :
    ((openStore text none (filesAfter text crashes)).outcome = .ok () ↔
      ∀ opening ∈ openings text crashes, ¬CutShort opening.ingest ∧ ¬CutShort opening.results) ∧
    ((openStore text none (filesAfter text crashes)).outcome = .ok () →
      Migrated acceptanceSchema (openStore text none (filesAfter text crashes)).files.ingest ∧
        Migrated executionsSchema (openStore text none (filesAfter text crashes)).files.results) ∧
    ((∃ opening ∈ openings text crashes, opening.outcome = .ok ()) →
      (openStore text none (filesAfter text crashes)).outcome = .ok ()) ∧
    ((openStore text none (filesAfter text crashes)).outcome ≠ .ok () →
      ∃ item ∈ acceptanceSchema ++ executionsSchema, item.ifNotExists = false ∧
        (openStore text none (filesAfter text crashes)).outcome =
          .error (.failed (.internal (.text (text (.alreadyExists item.object)))))) := by
  obtain ⟨hingest, hresults⟩ := openings_showCuts text crashes
  refine ⟨⟨fun hopened opening hopening => ?_, fun hclean => ?_⟩, openStore_opened hingest hresults,
    fun ⟨opening, hopening, hopened⟩ => ?_, fun hfailed => ?_⟩
  · rcases openStore_none hingest hresults with ⟨-, hclean, hcleanResults⟩ | ⟨⟨_, -, -, herror⟩, -⟩
    · exact ⟨hclean _ (List.mem_map_of_mem hopening), hcleanResults _ (List.mem_map_of_mem hopening)⟩
    · rw [hopened] at herror
      cases herror
  · rcases openStore_none hingest hresults with ⟨hok, -⟩ | ⟨-, hcut | hcut⟩
    · exact hok
    · obtain ⟨executed, hmem, hcut⟩ := hcut
      obtain ⟨opening, hopening, rfl⟩ := List.mem_map.mp hmem
      exact absurd hcut (hclean opening hopening).1
    · obtain ⟨executed, hmem, hcut⟩ := hcut
      obtain ⟨opening, hopening, rfl⟩ := List.mem_map.mp hmem
      exact absurd hcut (hclean opening hopening).2
  · obtain ⟨hmigratedIngest, hmigratedResults⟩ := openings_migrated hopening hopened
    exact (openStore_migrated hmigratedIngest hmigratedResults).2 rfl
  · rcases openStore_none hingest hresults with ⟨hok, -⟩ | ⟨herror, -⟩
    · exact absurd hok hfailed
    · exact herror

/-- A crash after the third statement leaves the index of `meta` behind, and nothing opens the store
again; after the second one the store can still be opened. -/
example (text : SqlError → String) :
    (openStore text none (filesAfter text [some 3])).outcome =
      .error (.failed (.internal (.text (text (.alreadyExists "idx_meta_key"))))) ∧
    (openStore text none (filesAfter text [some 2])).outcome = .ok () :=
  ⟨rfl, rfl⟩

end Maqistor
