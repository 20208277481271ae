import Maqistor.Adaptive.Options
import Maqistor.Lib.Runs

/-! What a controller may do over any calls: the size of the batches and their wait stay within the
limits of the options, and neither changes but for three commits in a row that speak for the
change. -/

namespace Maqistor

open Runs

inductive ControllerCall where
  | observeRequest (now : Nat)
  | commit (report : CommitReport)
  | completionCommit (report : CommitReport)
deriving DecidableEq, Repr

/-- What a commit has decided: whether its batch counts as badly filled, what becomes of the size,
and the direction in which the wait should go, if one is known. -/
structure CommitRecord where
  lowFill : Bool
  decision : SizeDecision
  waitDirection : Option Int
deriving DecidableEq, Repr

/-- The direction that the streak of the size is told. Backing off tells it to start again. -/
def SizeDecision.direction? : SizeDecision → Option Int
  | .keep => none
  | .backOff => some 0
  | .observe direction => some direction

def SizeDecision.apply (batch : AdaptiveBatch) : SizeDecision → AdaptiveBatch
  | .keep => batch
  | .backOff => (batch.setSize (batch.resized (-1))).resetDirection
  | .observe direction => (batch.observeDirection direction).1

namespace AdaptiveBatchController

/-- The direction that `adjust_batch_wait` finds. -/
def waitDirection? (controller : AdaptiveBatchController) : Option Int :=
  match controller.requestRate.value with
  | some requestRate =>
    if 0.0 < requestRate then (controller.desiredWait requestRate).map controller.waitDirection else none
  | none => none

/-- A call, with what is recorded of a commit. -/
def step (controller : AdaptiveBatchController) :
    ControllerCall → Option (AdaptiveBatchController × Option CommitRecord)
  | .observeRequest now => some (controller.observeRequest now, none)
  | .commit report =>
    let observed := controller.observeCommit report
    (controller.recordSuccessfulCommit report).map fun next =>
      (next, some { lowFill := controller.lowFill report, decision := observed.sizeDecision
                    waitDirection := observed.adjustBatchSize.waitDirection? })
  | .completionCommit report =>
    let observed := controller.observeCompletionCommit report
    (controller.recordSuccessfulCompletionCommit report).map fun next =>
      (next, some { lowFill := controller.lowFill report, decision := observed.completionDecision
                    waitDirection := observed.adjustCompletionBatchSize.waitDirection? })

end AdaptiveBatchController

/-! ### Histories -/

def sizeDirections (events : List (Option CommitRecord)) : List Int :=
  events.filterMap fun event => event.bind fun record => record.decision.direction?

def waitDirections (events : List (Option CommitRecord)) : List Int :=
  events.filterMap fun event => event.bind CommitRecord.waitDirection

def lowFills (events : List (Option CommitRecord)) : List Bool :=
  events.filterMap fun event => event.map CommitRecord.lowFill

/-- The last three of a history are the same. -/
def LastThree {α : Type} (value : α) (history : List α) : Prop := [value, value, value] <:+ history

/-! ### What a step changes -/

namespace AdaptiveBatchController

/-- The size of the batches after a decision, and what the decision leaves as it was. -/
structure Decided (controller next : AdaptiveBatchController) (decision : SizeDecision) : Prop where
  batch : next.batch = decision.apply controller.batch
  lowFillTimeouts : next.lowFillTimeouts = if decision = .backOff then 0 else controller.lowFillTimeouts
  limits : next.limits = controller.limits
  batchWait : next.batchWait = controller.batchWait
  waitDirectionStreak : next.waitDirectionStreak = controller.waitDirectionStreak

variable {controller next : AdaptiveBatchController}

theorem decided_keep (controller : AdaptiveBatchController) : Decided controller controller .keep :=
  ⟨rfl, rfl, rfl, rfl, rfl⟩

theorem decided_backOff (h : controller.batch.backoffFactor = controller.limits.batchBackoffFactor) :
    Decided controller controller.backOff .backOff := by
  refine ⟨?_, rfl, rfl, rfl, rfl⟩
  rw [backOff, ← h]
  rfl

theorem adjustBatchSize_decided
    (h : controller.batch.backoffFactor = controller.limits.batchBackoffFactor) :
    Decided controller controller.adjustBatchSize controller.sizeDecision := by
  unfold adjustBatchSize
  split
  · next hdecision =>
    rw [hdecision]
    exact decided_keep controller
  · next hdecision =>
    rw [hdecision]
    exact decided_backOff h
  · next direction hdecision =>
    rw [hdecision]
    exact ⟨rfl, rfl, rfl, rfl, rfl⟩

theorem adjustCompletionBatchSize_decided
    (h : controller.batch.backoffFactor = controller.limits.batchBackoffFactor) :
    Decided controller controller.adjustCompletionBatchSize controller.completionDecision := by
  unfold adjustCompletionBatchSize
  split
  · next goodput hgoodput hdecision =>
    rw [hdecision]
    obtain ⟨hbatch, hfill, hlimits, hwait, hstreak⟩ := decided_backOff h
    exact ⟨hbatch, hfill, hlimits, hwait, hstreak⟩
  · next goodput direction hgoodput hdecision =>
    rw [hdecision]
    exact ⟨rfl, rfl, rfl, rfl, rfl⟩
  · next hbackOff hobserve =>
    have hkeep : controller.completionDecision = .keep := by
      cases hgoodput : controller.completionGoodput.value with
      | none => rw [completionDecision, hgoodput]
      | some goodput =>
        cases hdecision : controller.completionDecision with
        | keep => rfl
        | backOff => exact absurd hdecision (hbackOff goodput hgoodput)
        | observe direction => exact absurd hdecision (hobserve goodput direction hgoodput)
    rw [hkeep]
    exact decided_keep controller

/-- What is known of a commit before the adjustments. -/
structure Observed (controller next : AdaptiveBatchController) (lowFill : Bool) : Prop where
  batch : next.batch = controller.batch
  lowFillTimeouts : next.lowFillTimeouts = if lowFill then min (controller.lowFillTimeouts + 1) 255 else 0
  limits : next.limits = controller.limits
  batchWait : next.batchWait = controller.batchWait
  waitDirectionStreak : next.waitDirectionStreak = controller.waitDirectionStreak

theorem observeCommit_observed (controller : AdaptiveBatchController) (report : CommitReport) :
    Observed controller (controller.observeCommit report) (controller.lowFill report) := by
  unfold observeCommit
  dsimp only
  split
  · exact ⟨rfl, rfl, rfl, rfl, rfl⟩
  · split
    · exact ⟨rfl, rfl, rfl, rfl, rfl⟩
    · exact ⟨rfl, rfl, rfl, rfl, rfl⟩

theorem observeCompletionCommit_observed (controller : AdaptiveBatchController) (report : CommitReport) :
    Observed controller (controller.observeCompletionCommit report) (controller.lowFill report) := by
  unfold observeCompletionCommit
  dsimp only
  generalize asSecsF64 _ = seconds
  split
  · exact ⟨rfl, rfl, rfl, rfl, rfl⟩
  · exact ⟨rfl, rfl, rfl, rfl, rfl⟩

/-- What `adjust_batch_wait` may do. -/
structure Waited (controller next : AdaptiveBatchController) : Prop where
  batch : next.batch = controller.batch
  lowFillTimeouts : next.lowFillTimeouts = controller.lowFillTimeouts
  limits : next.limits = controller.limits
  streak : next.waitDirectionStreak = match controller.waitDirection? with
    | none => controller.waitDirectionStreak
    | some direction => (controller.waitDirectionStreak.confirm direction).1
  wait : next.batchWait = controller.batchWait ∨
    ∃ direction wait, controller.waitDirection? = some direction ∧
      (controller.waitDirectionStreak.confirm direction).2 = true ∧
      next.batchWait = clampDuration wait controller.limits.batchWaitMin controller.limits.batchWaitMax

theorem adjustBatchWait_waited (h : controller.adjustBatchWait = some next) : Waited controller next := by
  unfold adjustBatchWait at h
  split at h
  · next hrate =>
    obtain rfl := Option.some.inj h
    refine ⟨rfl, rfl, rfl, ?_, Or.inl rfl⟩
    rw [waitDirection?, hrate]
  · next requestRate hrate =>
    split at h
    · next hpos =>
      obtain ⟨desired, hdesired, h⟩ := Option.bind_eq_some_iff.mp h
      have hdirection : controller.waitDirection? = some (controller.waitDirection desired) := by
        rw [waitDirection?, hrate]
        simp only [hpos, if_true, hdesired, Option.map_some]
      dsimp only at h
      split at h
      · next hconfirmed =>
        obtain ⟨wait, hwait, h⟩ := Option.bind_eq_some_iff.mp h
        obtain rfl := Option.some.inj h
        obtain ⟨unclamped, -, rfl⟩ := Option.map_eq_some_iff.mp hwait
        refine ⟨rfl, rfl, rfl, ?_, Or.inr ⟨_, unclamped, hdirection, hconfirmed, rfl⟩⟩
        rw [hdirection]
      · obtain rfl := Option.some.inj h
        refine ⟨rfl, rfl, rfl, ?_, Or.inl rfl⟩
        rw [hdirection]
    · next hpos =>
      obtain rfl := Option.some.inj h
      refine ⟨rfl, rfl, rfl, ?_, Or.inl rfl⟩
      rw [waitDirection?, hrate]
      simp only [hpos, if_false]

end AdaptiveBatchController

/-! ### Sizes -/

namespace AdaptiveBatch

variable {batch : AdaptiveBatch}

theorem Valid.apply (h : batch.Valid) (decision : SizeDecision) : (decision.apply batch).Valid := by
  cases decision with
  | keep => exact h
  | backOff => exact (h.setSize _).withDirection _
  | observe direction => exact h.observeDirection direction

/-- A decision changes the size only by backing off or by a direction that is confirmed. -/
theorem Valid.apply_size (h : batch.Valid) {decision : SizeDecision}
    (hdirection : ∀ direction, decision = .observe direction →
      direction = 1 ∨ direction = 0 ∨ direction = -1) :
    (decision.apply batch).size = batch.size ∨
      decision = .backOff ∧ (decision.apply batch).size < batch.size ∨
      ∃ direction, decision = .observe direction ∧ (batch.direction.confirm direction).2 = true ∧
        (direction = 1 ∧ batch.size < (decision.apply batch).size ∨
          direction = -1 ∧ (decision.apply batch).size < batch.size) := by
  cases decision with
  | keep => exact Or.inl rfl
  | backOff =>
    by_cases hsame : (SizeDecision.backOff.apply batch).size = batch.size
    · exact Or.inl hsame
    · refine Or.inr (Or.inl ⟨rfl, ?_⟩)
      have hne : (SizeDecision.backOff.apply batch).size.toNat ≠ batch.size.toNat :=
        fun heq => hsame (UInt64.toNat_inj.mp heq)
      have hroom := h.room_resized (Or.inr rfl)
      have hmin := UInt64.le_iff_toNat_le.mp h.min_le
      have hmin' := UInt64.le_iff_toNat_le.mp (h.setSize (batch.resized (-1))).min_le
      rw [UInt64.lt_iff_toNat_lt]
      simp only [room_down, SizeDecision.apply, resetDirection, AdaptiveBatch.setSize] at hroom hne hmin' ⊢
      omega
  | observe direction =>
    rcases h.observeDirection_size (hdirection direction rfl) with hsame | ⟨hconfirmed, hmoved⟩
    · exact Or.inl hsame
    · exact Or.inr (Or.inr ⟨direction, rfl, hconfirmed, hmoved⟩)

/-- The streak after a decision counts its direction. -/
theorem apply_counts {history : List Int} (h : batch.direction.Counts history) (decision : SizeDecision) :
    (decision.apply batch).direction.Counts (history ++ decision.direction?.toList) := by
  cases decision with
  | keep =>
    rw [SizeDecision.direction?, Option.toList_none, List.append_nil]
    exact h
  | backOff => exact DirectionStreak.confirm_counts h 0
  | observe direction =>
    show ((batch.observeDirection direction).1.direction).Counts _
    rw [observeDirection_direction]
    exact DirectionStreak.confirm_counts h direction

end AdaptiveBatch

/-! ### Steps -/

/-- The directions that a decision may tell the streak. -/
def SizeDecision.Known (decision : SizeDecision) : Prop :=
  ∀ direction, decision = .observe direction → direction = 1 ∨ direction = 0 ∨ direction = -1

namespace AdaptiveBatchController

variable {controller next : AdaptiveBatchController}

theorem sizeDecision_known (controller : AdaptiveBatchController) : controller.sizeDecision.Known := by
  intro direction hdirection
  unfold sizeDecision at hdirection
  split at hdirection
  · dsimp only at hdirection
    split at hdirection
    · cases hdirection
    · split at hdirection
      · exact Or.inr (Or.inr (SizeDecision.observe.inj hdirection).symm)
      · split at hdirection
        · exact Or.inl (SizeDecision.observe.inj hdirection).symm
        · exact Or.inr (Or.inl (SizeDecision.observe.inj hdirection).symm)
  · cases hdirection

theorem completionDecision_known (controller : AdaptiveBatchController) :
    controller.completionDecision.Known := by
  intro direction hdirection
  unfold completionDecision at hdirection
  split at hdirection
  · cases hdirection
  · split at hdirection
    · cases hdirection
    · split at hdirection
      · exact Or.inr (Or.inl (SizeDecision.observe.inj hdirection).symm)
      · split at hdirection
        · exact Or.inr (Or.inr (SizeDecision.observe.inj hdirection).symm)
        · exact Or.inl (SizeDecision.observe.inj hdirection).symm

/-- The size backs off only when the batches were badly filled three times. -/
theorem sizeDecision_backOff (h : controller.sizeDecision = .backOff) :
    3 ≤ controller.lowFillTimeouts := by
  unfold sizeDecision at h
  split at h
  · dsimp only at h
    split at h
    · next hlow => exact hlow.1
    · split at h
      · cases h
      · split at h <;> cases h
  · cases h

theorem completionDecision_backOff (h : controller.completionDecision = .backOff) :
    3 ≤ controller.lowFillTimeouts := by
  unfold completionDecision at h
  split at h
  · cases h
  · split at h
    · next hlow => exact hlow.1
    · split at h
      · cases h
      · split at h <;> cases h

theorem waitDirection_known {direction : Int} (h : controller.waitDirection? = some direction) :
    direction = 1 ∨ direction = 0 ∨ direction = -1 := by
  unfold waitDirection? at h
  split at h
  · split at h
    · obtain ⟨desired, -, rfl⟩ := Option.map_eq_some_iff.mp h
      unfold waitDirection
      split
      · exact Or.inl rfl
      · split
        · exact Or.inr (Or.inr rfl)
        · exact Or.inr (Or.inl rfl)
    · cases h
  · cases h

/-- A commit with what it has recorded: it is observed, then the size is decided on, then the
wait. -/
structure Committed (controller next : AdaptiveBatchController) (record : CommitRecord)
    (observed decided : AdaptiveBatchController) : Prop where
  observe : Observed controller observed record.lowFill
  decide : Decided observed decided record.decision
  wait : Waited decided next
  known : record.decision.Known
  low : record.decision = .backOff → 3 ≤ observed.lowFillTimeouts
  waitDirection : record.waitDirection = decided.waitDirection?

theorem Committed.batch {record : CommitRecord} {observed decided : AdaptiveBatchController}
    (h : Committed controller next record observed decided) :
    next.batch = record.decision.apply controller.batch := by
  rw [h.wait.batch, h.decide.batch, h.observe.batch]

theorem step_cases {call : ControllerCall} {event : Option CommitRecord}
    (hbackoff : controller.batch.backoffFactor = controller.limits.batchBackoffFactor)
    (h : controller.step call = some (next, event)) :
    (event = none ∧ ∃ now, next = controller.observeRequest now) ∨
      ∃ record observed decided, event = some record ∧
        Committed controller next record observed decided := by
  cases call with
  | observeRequest now =>
    obtain ⟨rfl, rfl⟩ := Prod.mk.inj (Option.some.inj h)
    exact Or.inl ⟨rfl, now, rfl⟩
  | commit report =>
    obtain ⟨after, hafter, heq⟩ := Option.map_eq_some_iff.mp h
    obtain ⟨rfl, rfl⟩ := Prod.mk.inj heq
    have hobserved := observeCommit_observed controller report
    have hbackoff' : (controller.observeCommit report).batch.backoffFactor =
        (controller.observeCommit report).limits.batchBackoffFactor := by
      rw [hobserved.batch, hobserved.limits, hbackoff]
    exact Or.inr ⟨_, _, _, rfl, hobserved, adjustBatchSize_decided hbackoff',
      adjustBatchWait_waited hafter, sizeDecision_known _, sizeDecision_backOff, rfl⟩
  | completionCommit report =>
    obtain ⟨after, hafter, heq⟩ := Option.map_eq_some_iff.mp h
    obtain ⟨rfl, rfl⟩ := Prod.mk.inj heq
    have hobserved := observeCompletionCommit_observed controller report
    have hbackoff' : (controller.observeCompletionCommit report).batch.backoffFactor =
        (controller.observeCompletionCommit report).limits.batchBackoffFactor := by
      rw [hobserved.batch, hobserved.limits, hbackoff]
    exact Or.inr ⟨_, _, _, rfl, hobserved, adjustCompletionBatchSize_decided hbackoff',
      adjustBatchWait_waited hafter, completionDecision_known _,
      completionDecision_backOff, rfl⟩

/-- A request changes only what is known of the requests. -/
theorem observeRequest_same (controller : AdaptiveBatchController) (now : Nat) :
    (controller.observeRequest now).batch = controller.batch ∧
      (controller.observeRequest now).limits = controller.limits ∧
      (controller.observeRequest now).batchWait = controller.batchWait ∧
      (controller.observeRequest now).lowFillTimeouts = controller.lowFillTimeouts ∧
      (controller.observeRequest now).waitDirectionStreak = controller.waitDirectionStreak := by
  unfold observeRequest
  dsimp only
  split
  · exact ⟨rfl, rfl, rfl, rfl, rfl⟩
  · split
    · exact ⟨rfl, rfl, rfl, rfl, rfl⟩
    · exact ⟨rfl, rfl, rfl, rfl, rfl⟩

/-! ### Runs -/

/-- What the controller has in common with the options and with what has been recorded. -/
structure Tracks (options : BatchOptions) (controller : AdaptiveBatchController)
    (events : List (Option CommitRecord)) : Prop where
  valid : controller.batch.Valid
  limits : controller.limits = options
  sizeMin : controller.batch.min = options.batchSizeMin
  sizeMax : controller.batch.max = options.batchSizeMax
  backoff : controller.batch.backoffFactor = options.batchBackoffFactor
  waitMin : options.batchWaitMin ≤ controller.batchWait
  waitMax : controller.batchWait ≤ options.batchWaitMax
  size : controller.batch.direction.Counts (sizeDirections events)
  wait : controller.waitDirectionStreak.Counts (waitDirections events)
  fills : List.replicate controller.lowFillTimeouts true <:+ lowFills events

variable {options : BatchOptions} {events : List (Option CommitRecord)}

theorem sizeDirections_append (events : List (Option CommitRecord)) (record : CommitRecord) :
    sizeDirections (events ++ [some record]) =
      sizeDirections events ++ record.decision.direction?.toList := by
  rw [sizeDirections, List.filterMap_append]
  cases hdirection : record.decision.direction? with
  | none =>
    rw [List.filterMap_cons_none (by exact hdirection)]
    rfl
  | some direction =>
    rw [List.filterMap_cons_some (by exact hdirection)]
    rfl

theorem waitDirections_append (events : List (Option CommitRecord)) (record : CommitRecord) :
    waitDirections (events ++ [some record]) = waitDirections events ++ record.waitDirection.toList := by
  rw [waitDirections, List.filterMap_append]
  cases hdirection : record.waitDirection with
  | none =>
    rw [List.filterMap_cons_none (by exact hdirection)]
    rfl
  | some direction =>
    rw [List.filterMap_cons_some (by exact hdirection)]
    rfl

theorem lowFills_append (events : List (Option CommitRecord)) (record : CommitRecord) :
    lowFills (events ++ [some record]) = lowFills events ++ [record.lowFill] := by
  rw [lowFills, List.filterMap_append]
  rfl

theorem Tracks.backoff_limits (h : Tracks options controller events) :
    controller.batch.backoffFactor = controller.limits.batchBackoffFactor := by
  rw [h.backoff, h.limits]

theorem apply_limits (batch : AdaptiveBatch) (decision : SizeDecision) :
    (decision.apply batch).min = batch.min ∧ (decision.apply batch).max = batch.max ∧
      (decision.apply batch).backoffFactor = batch.backoffFactor := by
  cases decision with
  | keep => exact ⟨rfl, rfl, rfl⟩
  | backOff => exact ⟨rfl, rfl, rfl⟩
  | observe direction =>
    show (batch.observeDirection direction).1.min = _ ∧ (batch.observeDirection direction).1.max = _ ∧
      (batch.observeDirection direction).1.backoffFactor = _
    cases h : (batch.direction.confirm direction).2 with
    | true =>
      rw [AdaptiveBatch.observeDirection_of_confirmed h]
      exact ⟨rfl, rfl, rfl⟩
    | false =>
      rw [AdaptiveBatch.observeDirection_of_not_confirmed h]
      exact ⟨rfl, rfl, rfl⟩

/-- The count of badly filled batches counts the last ones that have been recorded. -/
theorem fills_observed {timeouts : Nat} {lowFill : Bool} {history : List Bool}
    (h : List.replicate timeouts true <:+ history) :
    List.replicate (if lowFill then min (timeouts + 1) 255 else 0) true <:+ history ++ [lowFill] := by
  cases lowFill with
  | false => exact List.nil_suffix
  | true =>
    obtain ⟨earlier, rfl⟩ := h
    have hmore : List.replicate (min (timeouts + 1) 255) true <:+ List.replicate (timeouts + 1) true :=
      ⟨List.replicate (timeouts + 1 - min (timeouts + 1) 255) true, by
        rw [List.replicate_append_replicate, Nat.sub_add_cancel (Nat.min_le_left _ _)]⟩
    refine hmore.trans ⟨earlier, ?_⟩
    rw [List.replicate_succ', List.append_assoc]

/-- A request leaves alone what is tracked. -/
theorem Tracks.observeRequest (h : Tracks options controller events) (now : Nat) :
    Tracks options (controller.observeRequest now) (events ++ [none]) := by
  obtain ⟨hbatch, hlimits, hwait, hfill, hstreak⟩ := observeRequest_same controller now
  have hnone : ∀ {α : Type} (f : Option CommitRecord → Option α), f none = none →
      (events ++ [none]).filterMap f = events.filterMap f := by
    intro α f hf
    rw [List.filterMap_append, List.filterMap_cons_none hf, List.filterMap_nil, List.append_nil]
  refine ⟨?_, ?_, ?_, ?_, ?_, ?_, ?_, ?_, ?_, ?_⟩
  · rw [hbatch]
    exact h.valid
  · rw [hlimits]
    exact h.limits
  · rw [hbatch]
    exact h.sizeMin
  · rw [hbatch]
    exact h.sizeMax
  · rw [hbatch]
    exact h.backoff
  · rw [hwait]
    exact h.waitMin
  · rw [hwait]
    exact h.waitMax
  · rw [hbatch, sizeDirections, hnone _ rfl]
    exact h.size
  · rw [hstreak, waitDirections, hnone _ rfl]
    exact h.wait
  · rw [hfill, lowFills, hnone _ rfl]
    exact h.fills

theorem Tracks.committed {record : CommitRecord} {observed decided : AdaptiveBatchController}
    (h : Tracks options controller events) (hlimits : options.batchWaitMin ≤ options.batchWaitMax)
    (hcommit : Committed controller next record observed decided) :
    Tracks options next (events ++ [some record]) := by
  have hbatch := hcommit.batch
  obtain ⟨hobserve, hdecide, hwait, -, -, hdirection⟩ := hcommit
  have hbounds : options.batchWaitMin ≤ next.batchWait ∧ next.batchWait ≤ options.batchWaitMax := by
    rcases hwait.wait with hsame | ⟨direction, wait, -, -, hclamp⟩
    · rw [hsame, hdecide.batchWait, hobserve.batchWait]
      exact ⟨h.waitMin, h.waitMax⟩
    · rw [hclamp, hdecide.limits, hobserve.limits, h.limits]
      unfold clampDuration
      omega
  obtain ⟨hmin, hmax, hback⟩ := apply_limits controller.batch record.decision
  refine ⟨?_, ?_, ?_, ?_, ?_, hbounds.1, hbounds.2, ?_, ?_, ?_⟩
  · rw [hbatch]
    exact h.valid.apply _
  · rw [hwait.limits, hdecide.limits, hobserve.limits, h.limits]
  · rw [hbatch, hmin, h.sizeMin]
  · rw [hbatch, hmax, h.sizeMax]
  · rw [hbatch, hback, h.backoff]
  · rw [hbatch, sizeDirections_append]
    exact AdaptiveBatch.apply_counts h.size record.decision
  · have hcounts : decided.waitDirectionStreak.Counts (waitDirections events) := by
      rw [hdecide.waitDirectionStreak, hobserve.waitDirectionStreak]
      exact h.wait
    rw [waitDirections_append, hdirection, hwait.streak]
    cases decided.waitDirection? with
    | none =>
      rw [Option.toList_none, List.append_nil]
      exact hcounts
    | some direction => exact DirectionStreak.confirm_counts hcounts direction
  · rw [lowFills_append, hwait.lowFillTimeouts, hdecide.lowFillTimeouts]
    split
    · exact List.nil_suffix
    · rw [hobserve.lowFillTimeouts]
      exact fills_observed h.fills

theorem Tracks.step {call : ControllerCall} {event : Option CommitRecord}
    (h : Tracks options controller events) (hlimits : options.batchWaitMin ≤ options.batchWaitMax)
    (hstep : controller.step call = some (next, event)) : Tracks options next (events ++ [event]) := by
  rcases step_cases h.backoff_limits hstep with
    ⟨rfl, now, rfl⟩ | ⟨record, observed, decided, rfl, hcommit⟩
  · exact h.observeRequest now
  · exact h.committed hlimits hcommit

/-! ### The limits -/

theorem tracks_new {sectionName : String} (h : options.validate sectionName = .ok ()) :
    Tracks options (new options) [] := by
  obtain ⟨⟨hfinite, habove⟩, ⟨hnonneg, hbelow⟩, ⟨hpos, hsizes⟩, hwaits⟩ := BatchOptions.validate_ok h
  have hclamp := @toNat_clamp
    (Binary64.roundToUInt64 (options.batchSizeMin.toFloat * options.batchSizeMax.toFloat).sqrt) _ _ hsizes
  rw [UInt64.le_iff_toNat_le] at hsizes
  refine ⟨⟨hpos, ?_, ?_, hfinite, habove, hnonneg, hbelow⟩, rfl, rfl, rfl, rfl, Nat.le_refl _, hwaits,
    DirectionStreak.counts_fresh _, DirectionStreak.counts_fresh _, List.nil_suffix⟩
  · rw [UInt64.le_iff_toNat_le]
    show options.batchSizeMin.toNat ≤ (clamp _ options.batchSizeMin options.batchSizeMax).toNat
    omega
  · rw [UInt64.le_iff_toNat_le]
    show (clamp _ options.batchSizeMin options.batchSizeMax).toNat ≤ options.batchSizeMax.toNat
    omega

theorem tracks_run {sectionName : String} (hvalid : options.validate sectionName = .ok ())
    (hrun : Run AdaptiveBatchController.step (fun _ _ => True) (new options) events controller) :
    Tracks options controller events :=
  hrun.history (Tracks options) (tracks_new hvalid) fun h _ hstep =>
    h.step (BatchOptions.validate_ok hvalid).2.2.2 hstep

theorem lastThree_of_confirmed {streak : DirectionStreak} {history : List Int} {direction : Int}
    (h : streak.Counts history) (hconfirmed : (streak.confirm direction).2 = true) :
    LastThree direction (history ++ [direction]) := by
  obtain ⟨earlier, rfl⟩ := DirectionStreak.confirm_recent h hconfirmed
  exact ⟨earlier, by rw [List.append_assoc]; rfl⟩

theorem lastThree_of_count {timeouts : Nat} {history : List Bool} (hcount : 3 ≤ timeouts)
    (h : List.replicate timeouts true <:+ history) : LastThree true history := by
  refine List.IsSuffix.trans ⟨List.replicate (timeouts - 3) true, ?_⟩ h
  show List.replicate (timeouts - 3) true ++ List.replicate 3 true = _
  rw [List.replicate_append_replicate, Nat.sub_add_cancel hcount]

/-- The size changes in a step only for the directions or for the badly filled batches of the last
three commits. -/
theorem Tracks.step_size {call : ControllerCall} {event : Option CommitRecord}
    (h : Tracks options controller events) (hstep : controller.step call = some (next, event)) :
    next.batchSize = controller.batchSize ∨
      controller.batchSize < next.batchSize ∧ LastThree 1 (sizeDirections (events ++ [event])) ∨
      next.batchSize < controller.batchSize ∧
        (LastThree (-1) (sizeDirections (events ++ [event])) ∨
          LastThree true (lowFills (events ++ [event]))) := by
  rcases step_cases h.backoff_limits hstep with
    ⟨rfl, now, rfl⟩ | ⟨record, observed, decided, rfl, hcommit⟩
  · rw [batchSize, (observeRequest_same controller now).1]
    exact Or.inl rfl
  · rw [batchSize, batchSize, hcommit.batch, sizeDirections_append, lowFills_append]
    rcases h.valid.apply_size hcommit.known with
      hsame | ⟨hbackOff, hless⟩ | ⟨direction, hdirection, hconfirmed, hmoved⟩
    · exact Or.inl hsame
    · have hcount := hcommit.low hbackOff
      rw [hcommit.observe.lowFillTimeouts] at hcount
      exact Or.inr (Or.inr ⟨hless, Or.inr (lastThree_of_count hcount (fills_observed h.fills))⟩)
    · have hlast := lastThree_of_confirmed h.size hconfirmed
      rw [hdirection, SizeDecision.direction?, Option.toList_some]
      rw [hdirection] at hmoved
      rcases hmoved with ⟨rfl, hless⟩ | ⟨rfl, hless⟩
      · exact Or.inr (Or.inl ⟨hless, hlast⟩)
      · exact Or.inr (Or.inr ⟨hless, Or.inl hlast⟩)

theorem Tracks.step_wait {call : ControllerCall} {event : Option CommitRecord}
    (h : Tracks options controller events) (hstep : controller.step call = some (next, event)) :
    next.batchWait = controller.batchWait ∨
      LastThree 1 (waitDirections (events ++ [event])) ∨
      LastThree (-1) (waitDirections (events ++ [event])) := by
  rcases step_cases h.backoff_limits hstep with
    ⟨rfl, now, rfl⟩ | ⟨record, observed, decided, rfl, hobserve, hdecide, hwait, -, -, hrecord⟩
  · exact Or.inl (observeRequest_same controller now).2.2.1
  · rcases hwait.wait with hsame | ⟨direction, wait, hdirection, hconfirmed, -⟩
    · rw [hsame, hdecide.batchWait, hobserve.batchWait]
      exact Or.inl rfl
    · rw [hdecide.waitDirectionStreak, hobserve.waitDirectionStreak] at hconfirmed
      have hlast := lastThree_of_confirmed h.wait hconfirmed
      rw [waitDirections_append, hrecord, hdirection, Option.toList_some]
      rcases waitDirection_known hdirection with rfl | rfl | rfl
      · exact Or.inr (Or.inl hlast)
      · cases hconfirmed
      · exact Or.inr (Or.inr hlast)

/-- Over any calls, the size of the batches and their wait stay within the limits of options that
have passed the validation. The size grows only for three commits in a row that have asked for more,
and shrinks only for three that have asked for less or for three batches in a row that were badly
filled. The wait changes only for three commits in a row that agree. -/
theorem batching_within_limits {sectionName : String} {call : ControllerCall}
    {event : Option CommitRecord} (hvalid : options.validate sectionName = .ok ())
    (hrun : Run AdaptiveBatchController.step (fun _ _ => True) (new options) events controller)
    (hstep : controller.step call = some (next, event)) :
    (options.batchSizeMin ≤ next.batchSize ∧ next.batchSize ≤ options.batchSizeMax) ∧
      (options.batchWaitMin ≤ next.batchWait ∧ next.batchWait ≤ options.batchWaitMax) ∧
      (next.batchSize = controller.batchSize ∨
        controller.batchSize < next.batchSize ∧ LastThree 1 (sizeDirections (events ++ [event])) ∨
        next.batchSize < controller.batchSize ∧
          (LastThree (-1) (sizeDirections (events ++ [event])) ∨
            LastThree true (lowFills (events ++ [event])))) ∧
      (next.batchWait = controller.batchWait ∨
        LastThree 1 (waitDirections (events ++ [event])) ∨
        LastThree (-1) (waitDirections (events ++ [event]))) := by
  have htracks := tracks_run hvalid hrun
  have hnext := htracks.step (BatchOptions.validate_ok hvalid).2.2.2 hstep
  refine ⟨⟨?_, ?_⟩, ⟨hnext.waitMin, hnext.waitMax⟩, htracks.step_size hstep, htracks.step_wait hstep⟩
  · rw [← hnext.sizeMin]
    exact hnext.valid.min_le
  · rw [← hnext.sizeMax]
    exact hnext.valid.le_max

/-- A full batch of 1024 completions in four milliseconds, with more of them waiting. -/
def fullCommit (completedAt : Nat) : ControllerCall :=
  .completionCommit { filled := 1024, elapsed := 4000000, completedAt := completedAt
                      backlog := 5000, reason := .fullBatch }

/-- The third of three full batches in a row lets the size grow by a quarter. -/
theorem batching_within_limits_third :
    ∃ controller next : AdaptiveBatchController, ∃ events : List (Option CommitRecord),
      (controller.batchSize = 1024 ∧ next.batchSize = 1280) ∧ next.batchSize ≤ 8192 ∧
        LastThree 1 (sizeDirections events) := by
  have hran : ((exec step (fun _ _ => True) (new .completionDefaults)
      [fullCommit 4000000, fullCommit 8000000]).bind fun ran =>
        (ran.1.step (fullCommit 12000000)).map fun last =>
          (ran.1.batchSize, last.1.batchSize)) = some (1024, 1280) := by
    decide +kernel
  obtain ⟨⟨controller, events⟩, htwo, hthird⟩ := Option.bind_eq_some_iff.mp hran
  obtain ⟨⟨next, event⟩, hstep, hsizes⟩ := Option.map_eq_some_iff.mp hthird
  obtain ⟨hsize, hsize'⟩ := Prod.mk.inj hsizes
  have hvalid : BatchOptions.completionDefaults.validate "persistence.completion" = .ok () := by
    decide
  obtain ⟨hlimits, -, hmoved, -⟩ := batching_within_limits hvalid (Run.of_exec htwo) hstep
  refine ⟨controller, next, events ++ [event], ⟨hsize, hsize'⟩, hlimits.2, ?_⟩
  rcases hmoved with hsame | ⟨-, hlast⟩ | ⟨hless, -⟩
  · rw [hsize, hsize'] at hsame
    cases hsame
  · exact hlast
  · rw [hsize, hsize'] at hless
    exact absurd hless (by decide)

end AdaptiveBatchController

end Maqistor
