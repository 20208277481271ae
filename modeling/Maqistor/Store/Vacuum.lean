import Maqistor.Config
import Maqistor.Lib.Decimal
import Maqistor.Lib.Runs
import Maqistor.Lib.Table
import Maqistor.Types

/-! The schedule of `VACUUM`: the cleanup task asks after each of its intervals whether one is due,
by the time of day and by the time that the last one has left in the table `meta` of the ingest
database. The process may end at any time and start again with other settings. Times are in
nanoseconds since the epoch, and what is stored is in milliseconds. -/

namespace Maqistor

open Decimal Runs

structure VacuumConfig where
  every : String
  timeAt : String
deriving DecidableEq, Repr

/-- `humantime::parse_duration`, and the time of day in UTC of what chrono reads as a date and
time. -/
structure TimeParsers where
  duration : String → Except String Nat
  timeOfDay : String → Except String Nat

inductive VacuumError where
  /-- "invalid vacuum.every {every}: {error}" -/
  | every (text error : String)
  /-- The error of the parser. -/
  | timeAt (error : String)
  /-- "vacuum.every too large" -/
  | tooLarge
deriving DecidableEq, Repr

def nanosPerDay : Nat := 86400 * 1000 * nanosPerMilli

/-- `text.trim()`. -/
def trim (text : List Char) : List Char :=
  ((text.dropWhile isWhitespace).reverse.dropWhile isWhitespace).reverse

namespace VacuumConfig

/-- The text that `at` gives to the parser: with an offset that the setting may name. -/
def stamped (config : VacuumConfig) : String :=
  let text := config.timeAt.toList
  if '+' ∈ text ∨ '-' ∈ text.tail then
    String.ofList ("1970-01-01T".toList ++ (trim text).erase ' ' ++ ":00".toList)
  else String.ofList ("1970-01-01T".toList ++ trim text ++ ":00+00:00".toList)

def parsedAt (parsers : TimeParsers) (config : VacuumConfig) : Except VacuumError Nat :=
  (parsers.timeOfDay config.stamped).mapError .timeAt

def parsedEvery (parsers : TimeParsers) (config : VacuumConfig) : Except VacuumError Nat :=
  (parsers.duration config.every).mapError (.every config.every)

/-- Whether the spacing lets a vacuum begin. -/
def spacingOk (every now : Nat) : Option Int → Except VacuumError Bool
  | none => .ok true
  | some last =>
    if InI64 (every / nanosPerMilli : Nat) then
      .ok (saturatingAdd last (every / nanosPerMilli : Nat) ≤ (now / nanosPerMilli : Nat))
    else .error .tooLarge

/-- `is_due`. -/
def isDue (parsers : TimeParsers) (config : VacuumConfig) (now : Nat) (lastRun : Option Int) :
    Except VacuumError Bool := do
  let timeAt ← config.parsedAt parsers
  let every ← config.parsedEvery parsers
  let spacingOk ← spacingOk every now lastRun
  return spacingOk && timeAt ≤ now % nanosPerDay

end VacuumConfig

/-! ### The table -/

structure Meta where
  key : String
  value : String
deriving DecidableEq, Repr

/-- The upsert of `vacuum`. -/
def upsertMeta (entry : Meta) (rows : List Meta) : List Meta :=
  match Table.lookup Meta.key entry.key rows with
  | none => rows ++ [entry]
  | some _ => rows.map fun row => if row.key = entry.key then entry else row

def lastVacuumKey : String := "last_vacuum_run"

/-- `last_vacuum_run`; `none` where the text is no number and `unwrap` panics. -/
def lastVacuumRun (rows : List Meta) : Option (Option Int) :=
  match Table.lookup Meta.key lastVacuumKey rows with
  | none => some none
  | some row => (parseI64 row.value).map some

/-! ### The task -/

inductive VacuumPhase where
  | sleeping
  /-- `results.vacuum` is next. -/
  | results (begun : Nat)
  /-- `ingest.vacuum` is next. -/
  | ingest (begun : Nat)
  /-- The task has panicked. -/
  | dead
deriving DecidableEq, Repr

/-- The task with the table and the last reading of the clock. -/
structure Maintenance where
  vacuum : Option VacuumConfig
  metaRows : List Meta
  phase : VacuumPhase
  clock : Nat
deriving DecidableEq, Repr

inductive MaintenanceAction where
  /-- `last_vacuum_run` and `is_due`, unless the read fails. -/
  | check (now : Nat) (fault : Bool)
  | compactResults (fault : Bool)
  /-- `VACUUM` and the upsert, unless one of them fails. -/
  | compactIngest (now : Nat) (fault : Bool)
  /-- The process ends and starts with other settings. -/
  | restart (vacuum : Option VacuumConfig)
deriving DecidableEq, Repr

/-- A vacuum that has been recorded: by which settings, when it began, and the time that was
stored. -/
structure Vacuumed where
  config : VacuumConfig
  begun : Nat
  recorded : Nat
deriving DecidableEq, Repr

namespace Maintenance

def initial (vacuum : Option VacuumConfig) : Maintenance :=
  { vacuum := vacuum, metaRows := [], phase := .sleeping, clock := 0 }

/-- What follows a look at the table. -/
def checked (parsers : TimeParsers) (config : VacuumConfig) (now : Nat) (rows : List Meta) : VacuumPhase :=
  match lastVacuumRun rows with
  | none => .dead
  | some lastRun =>
    match config.isDue parsers now lastRun with
    | .ok true => .results now
    | _ => .sleeping

def step (parsers : TimeParsers) (state : Maintenance) :
    MaintenanceAction → Option (Maintenance × Option Vacuumed)
  | .check now fault =>
    match state.vacuum, state.phase with
    | some config, .sleeping =>
      some ({ state with
        phase := if fault then .sleeping else checked parsers config now state.metaRows
        clock := now }, none)
    | _, _ => none
  | .compactResults fault =>
    match state.phase with
    | .results begun => some ({ state with phase := if fault then .sleeping else .ingest begun }, none)
    | _ => none
  | .compactIngest now fault =>
    match state.vacuum, state.phase with
    | some config, .ingest begun =>
      if fault then some ({ state with phase := .sleeping, clock := now }, none)
      else
        some ({ state with
          metaRows := upsertMeta ⟨lastVacuumKey, (now / nanosPerMilli : Nat).repr⟩ state.metaRows
          phase := .sleeping, clock := now },
          some { config := config, begun := begun, recorded := now / nanosPerMilli })
    | _, _ => none
  | .restart vacuum => some ({ state with vacuum := vacuum, phase := .sleeping }, none)

/-- The clock does not go back, and its milliseconds stay below the largest `i64`. -/
def Admits (state : Maintenance) : MaintenanceAction → Prop
  | .check now _ | .compactIngest now _ =>
    state.clock ≤ now ∧ now / nanosPerMilli < 9223372036854775807
  | _ => True

end Maintenance

/-! ### What a check finds -/

/-- A vacuum of a configuration may begin at a time: the time of day has come. -/
def VacuumConfig.InTime (parsers : TimeParsers) (config : VacuumConfig) (begun : Nat) : Prop :=
  ∃ timeAt, config.parsedAt parsers = .ok timeAt ∧ timeAt ≤ begun % nanosPerDay

/-- The vacuum before has been recorded long enough ago. -/
def VacuumConfig.After (parsers : TimeParsers) (config : VacuumConfig) (begun recorded : Nat) : Prop :=
  ∃ every, config.parsedEvery parsers = .ok every ∧ recorded + every / nanosPerMilli ≤ begun / nanosPerMilli

theorem bind_eq_ok {ε α β : Type} {x : Except ε α} {f : α → Except ε β} {b : β} (h : x >>= f = .ok b) :
    ∃ a, x = .ok a ∧ f a = .ok b := by
  cases x with
  | error e => cases h
  | ok a => exact ⟨a, rfl, h⟩

/-- Below the end of the range, a sum that stops there is small only if the sum is. -/
theorem le_of_saturatingAdd_le {last every now : Nat} (hnow : now < 9223372036854775807)
    (h : saturatingAdd last every ≤ now) : last + every ≤ now := by
  unfold saturatingAdd at h
  omega

theorem VacuumConfig.isDue_ok {parsers : TimeParsers} {config : VacuumConfig} {now : Nat}
    {lastRun : Option Int} (hnow : now / nanosPerMilli < 9223372036854775807)
    (h : config.isDue parsers now lastRun = .ok true) :
    config.InTime parsers now ∧
      ∀ recorded : Nat, lastRun = some (recorded : Int) → config.After parsers now recorded := by
  obtain ⟨timeAt, htimeAt, h⟩ := bind_eq_ok h
  obtain ⟨every, hevery, h⟩ := bind_eq_ok h
  obtain ⟨spacing, hspacing, h⟩ := bind_eq_ok h
  have hboth := Except.ok.inj h
  rw [Bool.and_eq_true, decide_eq_true_eq] at hboth
  refine ⟨⟨timeAt, htimeAt, hboth.2⟩, fun recorded hrecorded => ⟨every, hevery, ?_⟩⟩
  rw [hrecorded, spacingOk, hboth.1] at hspacing
  split at hspacing
  · have hle := of_decide_eq_true (Except.ok.inj hspacing)
    exact le_of_saturatingAdd_le hnow hle
  · cases hspacing

/-! ### The table holds the last vacuum -/

theorem lookup_upsertMeta (entry : Meta) (rows : List Meta) :
    Table.lookup Meta.key entry.key (upsertMeta entry rows) = some entry := by
  unfold upsertMeta
  split
  · next hnone => rw [Table.lookup_append, hnone, Table.lookup_cons]; simp
  · next row hrow =>
    rw [Table.lookup_map]
    · rw [hrow]
      simp [Table.key_of_lookup hrow]
    · intro other
      split
      · next hkey => exact hkey.symm
      · rfl

/-- The row of a vacuum. -/
def Vacuumed.row (vacuum : Vacuumed) : Meta := ⟨lastVacuumKey, (vacuum.recorded : Int).repr⟩

theorem lastVacuumRun_row {rows : List Meta} {vacuum : Option Vacuumed}
    (h : Table.lookup Meta.key lastVacuumKey rows = vacuum.map Vacuumed.row)
    (hfits : ∀ v ∈ vacuum, v.recorded < 9223372036854775807) :
    lastVacuumRun rows = some (vacuum.map fun v => (v.recorded : Int)) := by
  rw [lastVacuumRun, h]
  cases vacuum with
  | none => rfl
  | some v =>
    have hlt := hfits v rfl
    show (parseI64 (v.recorded : Int).repr).map some = some (some (v.recorded : Int))
    rw [parseI64_repr ⟨by omega, by omega⟩, Option.map_some]

/-! ### Runs -/

namespace Maintenance

/-- When the vacuum that is under way has begun. -/
def begun (state : Maintenance) : Option Nat :=
  match state.phase with
  | .results begun | .ingest begun => some begun
  | .sleeping | .dead => none

/-- What holds of the task, its table and the vacuums that it has recorded. -/
structure OnSchedule (parsers : TimeParsers) (state : Maintenance) (vacuums : List Vacuumed) : Prop where
  stored : Table.lookup Meta.key lastVacuumKey state.metaRows = vacuums.getLast?.map Vacuumed.row
  fits : state.clock / nanosPerMilli < 9223372036854775807
  past : ∀ v ∈ vacuums, v.recorded ≤ state.clock / nanosPerMilli
  latest : ∀ v ∈ vacuums, ∀ last ∈ vacuums.getLast?, v.recorded ≤ last.recorded
  spaced : vacuums.Pairwise fun earlier later => later.config.After parsers later.begun earlier.recorded
  inTime : ∀ v ∈ vacuums, v.config.InTime parsers v.begun ∧ v.begun / nanosPerMilli ≤ v.recorded
  alive : state.phase ≠ .dead
  underWay : ∀ begun ∈ state.begun, begun ≤ state.clock ∧ ∀ config ∈ state.vacuum,
    config.InTime parsers begun ∧ ∀ v ∈ vacuums, config.After parsers begun v.recorded

theorem initial_onSchedule (parsers : TimeParsers) (vacuum : Option VacuumConfig) :
    OnSchedule parsers (initial vacuum) [] := by
  refine ⟨rfl, ?_, ?_, ?_, List.Pairwise.nil, ?_, by simp [initial], ?_⟩
  · show 0 / nanosPerMilli < 9223372036854775807
    decide
  · intro v hv
    cases hv
  · intro v hv
    cases hv
  · intro v hv
    cases hv
  · intro begun hbegun
    cases hbegun

variable {parsers : TimeParsers} {state next : Maintenance} {vacuums : List Vacuumed}

/-- A later reading of the clock, with nothing under way. -/
theorem OnSchedule.sleep (h : OnSchedule parsers state vacuums) {now : Nat} (hclock : state.clock ≤ now)
    (hfits : now / nanosPerMilli < 9223372036854775807) (vacuum : Option VacuumConfig) :
    OnSchedule parsers { state with vacuum := vacuum, phase := .sleeping, clock := now } vacuums := by
  refine ⟨h.stored, hfits, fun v hv => ?_, h.latest, h.spaced, h.inTime, by simp, ?_⟩
  · exact Nat.le_trans (h.past v hv) (Nat.div_le_div_right hclock)
  · intro begun hbegun
    cases hbegun

/-- The time that is looked up is the one of the last vacuum. -/
theorem OnSchedule.lastVacuumRun (h : OnSchedule parsers state vacuums) :
    lastVacuumRun state.metaRows = some (vacuums.getLast?.map fun v => (v.recorded : Int)) := by
  refine lastVacuumRun_row h.stored fun v hv => ?_
  have hpast := h.past v (List.mem_of_getLast? hv)
  exact Nat.lt_of_le_of_lt hpast h.fits

/-- A vacuum that is due comes after all that have been recorded. -/
theorem OnSchedule.after_all (h : OnSchedule parsers state vacuums) {config : VacuumConfig} {now : Nat}
    (hafter : ∀ recorded : Nat, (vacuums.getLast?.map fun v => (v.recorded : Int)) = some (recorded : Int) →
      config.After parsers now recorded) : ∀ v ∈ vacuums, config.After parsers now v.recorded := by
  intro v hv
  cases hlast : vacuums.getLast? with
  | none =>
    rw [List.getLast?_eq_none_iff.mp hlast] at hv
    cases hv
  | some last =>
    obtain ⟨every, hevery, hle⟩ := hafter last.recorded (by rw [hlast, Option.map_some])
    have hlatest := h.latest v hv last hlast
    exact ⟨every, hevery, by omega⟩

theorem OnSchedule.checked (h : OnSchedule parsers state vacuums) {config : VacuumConfig} {now : Nat}
    (hvacuum : state.vacuum = some config) (hclock : state.clock ≤ now)
    (hfits : now / nanosPerMilli < 9223372036854775807) :
    OnSchedule parsers
      { state with phase := checked parsers config now state.metaRows, clock := now } vacuums := by
  have hsleep := h.sleep hclock hfits state.vacuum
  unfold Maintenance.checked
  rw [h.lastVacuumRun]
  dsimp only
  split
  · next hdue =>
    obtain ⟨hinTime, hafter⟩ := VacuumConfig.isDue_ok hfits hdue
    refine ⟨hsleep.stored, hfits, hsleep.past, h.latest, h.spaced, h.inTime, by simp, ?_⟩
    intro begun hbegun
    obtain rfl := Option.some.inj hbegun
    refine ⟨Nat.le_refl _, fun config' hconfig' => ?_⟩
    obtain rfl := Option.some.inj (hvacuum.symm.trans hconfig')
    exact ⟨hinTime, h.after_all hafter⟩
  · exact hsleep

/-- A vacuum that is recorded. -/
theorem OnSchedule.recorded (h : OnSchedule parsers state vacuums) {config : VacuumConfig} {begun now : Nat}
    (hvacuum : state.vacuum = some config) (hphase : state.phase = .ingest begun)
    (hclock : state.clock ≤ now) (hfits : now / nanosPerMilli < 9223372036854775807) :
    OnSchedule parsers
      { state with
        metaRows := upsertMeta ⟨lastVacuumKey, (now / nanosPerMilli : Nat).repr⟩ state.metaRows
        phase := .sleeping, clock := now }
      (vacuums ++ [{ config := config, begun := begun, recorded := now / nanosPerMilli }]) := by
  have hpast : ∀ v ∈ vacuums, v.recorded ≤ now / nanosPerMilli := fun v hv =>
    Nat.le_trans (h.past v hv) (Nat.div_le_div_right hclock)
  obtain ⟨hbegun, hconfig⟩ := h.underWay begun (by rw [Maintenance.begun, hphase]; rfl)
  obtain ⟨hinTime, hafter⟩ := hconfig config hvacuum
  have hmem : ∀ {P : Vacuumed → Prop}, (∀ v ∈ vacuums, P v) →
      P { config := config, begun := begun, recorded := now / nanosPerMilli } →
      ∀ v ∈ vacuums ++ [{ config := config, begun := begun, recorded := now / nanosPerMilli }], P v := by
    intro P hall hlast v hv
    rcases List.mem_append.mp hv with hv | hv
    · exact hall v hv
    · rw [List.mem_singleton.mp hv]
      exact hlast
  refine ⟨?_, hfits, hmem hpast (Nat.le_refl _), hmem ?_ ?_, ?_, hmem h.inTime ⟨hinTime, ?_⟩, by simp, ?_⟩
  · rw [List.getLast?_concat]
    exact lookup_upsertMeta ⟨lastVacuumKey, _⟩ state.metaRows
  · intro v hv last hlast
    rw [List.getLast?_concat] at hlast
    rw [← Option.some.inj hlast]
    exact hpast v hv
  · intro last hlast
    rw [List.getLast?_concat] at hlast
    rw [← Option.some.inj hlast]
  · rw [List.pairwise_append]
    refine ⟨h.spaced, List.pairwise_singleton _ _, fun v hv later hlater => ?_⟩
    rw [List.mem_singleton.mp hlater]
    exact hafter v hv
  · exact Nat.div_le_div_right (Nat.le_trans hbegun hclock)
  · intro other hother
    cases hother

theorem OnSchedule.step {action : MaintenanceAction} {event : Option Vacuumed}
    (h : OnSchedule parsers state vacuums) (hadmits : Admits state action)
    (hstep : state.step parsers action = some (next, event)) :
    OnSchedule parsers next (vacuums ++ event.toList) := by
  cases action with
  | check now fault =>
    obtain ⟨hclock, hfits⟩ := hadmits
    simp only [Maintenance.step] at hstep
    split at hstep
    · next config hvacuum hphase =>
      obtain ⟨rfl, rfl⟩ := Prod.mk.inj (Option.some.inj hstep)
      rw [Option.toList_none, List.append_nil]
      cases fault with
      | true => exact h.sleep hclock hfits state.vacuum
      | false => exact h.checked hvacuum hclock hfits
    · cases hstep
  | compactResults fault =>
    simp only [Maintenance.step] at hstep
    split at hstep
    · next begun hphase =>
      obtain ⟨rfl, rfl⟩ := Prod.mk.inj (Option.some.inj hstep)
      rw [Option.toList_none, List.append_nil]
      cases fault with
      | true => exact h.sleep (Nat.le_refl _) h.fits state.vacuum
      | false =>
        refine ⟨h.stored, h.fits, h.past, h.latest, h.spaced, h.inTime, by simp, ?_⟩
        intro other hother
        obtain rfl := Option.some.inj hother
        exact h.underWay begun (by rw [Maintenance.begun, hphase]; rfl)
    · cases hstep
  | compactIngest now fault =>
    obtain ⟨hclock, hfits⟩ := hadmits
    simp only [Maintenance.step] at hstep
    split at hstep
    · next config begun hvacuum hphase =>
      split at hstep
      · obtain ⟨rfl, rfl⟩ := Prod.mk.inj (Option.some.inj hstep)
        rw [Option.toList_none, List.append_nil]
        exact h.sleep hclock hfits state.vacuum
      · obtain ⟨rfl, rfl⟩ := Prod.mk.inj (Option.some.inj hstep)
        exact h.recorded hvacuum hphase hclock hfits
    · cases hstep
  | restart vacuum =>
    obtain ⟨rfl, rfl⟩ := Prod.mk.inj (Option.some.inj hstep)
    rw [Option.toList_none, List.append_nil]
    exact h.sleep (Nat.le_refl _) h.fits vacuum

theorem run_onSchedule {vacuum : Option VacuumConfig} {events : List (Option Vacuumed)}
    (h : Run (step parsers) Admits (initial vacuum) events state) :
    OnSchedule parsers state (events.filterMap id) := by
  refine h.history (fun state events => OnSchedule parsers state (events.filterMap id))
    (initial_onSchedule parsers vacuum) ?_
  intro state next action event events hsofar hadmits hstep
  have hnext := hsofar.step hadmits hstep
  rw [List.filterMap_append]
  cases event with
  | none => exact hnext
  | some v => exact hnext

/-- Over any runs of the cleanup task, with failed calls, and with the process ending at any time
and starting again with other settings, while the clock does not go back: what `vacuum` stores is
always read back, as the time of the last one, and the task does not panic at it. Any two vacuums
that have been recorded are apart by the `every` that the later one was checked with, and each began
at its time of day or later. -/
theorem vacuums_on_schedule {vacuum : Option VacuumConfig} {events : List (Option Vacuumed)}
    (h : Run (step parsers) Admits (initial vacuum) events state) :
    state.phase ≠ .dead ∧
      Maqistor.lastVacuumRun state.metaRows =
        some ((events.filterMap id).getLast?.map fun v => (v.recorded : Int)) ∧
      ((events.filterMap id).Pairwise fun earlier later =>
        later.config.After parsers later.begun earlier.recorded) ∧
      ∀ v ∈ events.filterMap id, v.config.InTime parsers v.begun ∧ v.begun / nanosPerMilli ≤ v.recorded :=
  have hsofar := run_onSchedule h
  ⟨hsofar.alive, hsofar.lastVacuumRun, hsofar.spaced, hsofar.inTime⟩

instance (state : Maintenance) (action : MaintenanceAction) : Decidable (Admits state action) :=
  match action with
  | .check _ _ | .compactIngest _ _ => inferInstanceAs (Decidable (_ ∧ _))
  | .compactResults _ | .restart _ => isTrue trivial

/-- A vacuum a day, at three at night or later. -/
def nightly : VacuumConfig := { every := "1day", timeAt := "03:00" }

def nightlyParsers : TimeParsers :=
  { duration := fun text => if text = "1day" then .ok nanosPerDay else .error "expected number at 0"
    timeOfDay := fun text =>
      if text = "1970-01-01T03:00:00+00:00" then .ok (nanosPerDay / 8) else .error "premature end of input" }

/-- Looks at four and five hours of one day and at four of the next, with a restart between them. -/
def twoNights : List MaintenanceAction :=
  [.check (4 * nanosPerDay / 24) false, .compactResults false, .compactIngest (4 * nanosPerDay / 24) false,
    .check (5 * nanosPerDay / 24) false, .restart (some nightly), .check (28 * nanosPerDay / 24) false,
    .compactResults false, .compactIngest (29 * nanosPerDay / 24) false]

theorem vacuums_on_schedule_nightly :
    ∃ state : Maintenance, ∃ events : List (Option Vacuumed),
      exec (step nightlyParsers) Admits (initial (some nightly)) twoNights = some (state, events) ∧
        state.phase ≠ .dead ∧ Maqistor.lastVacuumRun state.metaRows = some (some 104400000) ∧
        (events.filterMap id).map Vacuumed.recorded = [14400000, 104400000] := by
  obtain ⟨⟨state, events⟩, hexec⟩ : ∃ ran, exec (step nightlyParsers) Admits (initial (some nightly))
      twoNights = some ran := Option.isSome_iff_exists.mp (by decide +kernel)
  have hrecorded : ((exec (step nightlyParsers) Admits (initial (some nightly)) twoNights).map fun ran =>
      (ran.2.filterMap id).map Vacuumed.recorded) = some [14400000, 104400000] := by decide +kernel
  rw [hexec, Option.map_some, Option.some.injEq] at hrecorded
  obtain ⟨halive, hlast, -, -⟩ := vacuums_on_schedule (Run.of_exec hexec)
  refine ⟨state, events, hexec, halive, ?_, hrecorded⟩
  have hmillis : (events.filterMap id).getLast?.map Vacuumed.recorded = some 104400000 := by
    rw [← List.getLast?_map, hrecorded]
    rfl
  obtain ⟨last, hlast', heq⟩ := Option.map_eq_some_iff.mp hmillis
  rw [hlast, hlast', Option.map_some, heq]
  rfl

end Maintenance

end Maqistor
