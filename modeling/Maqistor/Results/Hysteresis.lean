import Maqistor.Results.Lanes
import Mathlib.Data.List.Induction

/-! The preference of the lane controller over any calls of `select` and `record_turn`. The streak
counts comparisons of one direction that follow each other; a call of `select` that finds rows in
one lane only makes no comparison and leaves the streak alone. -/

namespace Maqistor

namespace DirectionStreak

variable {streak : DirectionStreak} {history : List Int} {direction : Int}

/-- The streak counts the last comparisons of a history. It holds less than three: the third one
confirms the direction, and the count starts again. -/
structure Counts (streak : DirectionStreak) (history : List Int) : Prop where
  few : streak.samples < 3
  recent : List.replicate streak.samples streak.direction <:+ history

theorem counts_fresh (history : List Int) : Counts fresh history where
  few := by decide
  recent := List.nil_suffix

theorem sample_suffix (h : Counts streak history) (direction : Int) :
    List.replicate (streak.sample direction).samples direction <:+ history ++ [direction] := by
  obtain ⟨earlier, hearlier⟩ := h.recent
  have hfew := h.few
  unfold sample
  split
  · next hsame =>
    have hsamples : min (streak.samples + 1) 255 = streak.samples + 1 := by omega
    refine ⟨earlier, ?_⟩
    rw [hsamples, List.replicate_succ', ← List.append_assoc, ← hsame, hearlier]
  · exact ⟨history, rfl⟩

theorem sample_direction (streak : DirectionStreak) (direction : Int) :
    (streak.sample direction).direction = direction := by
  unfold sample
  split
  · next hsame => exact hsame
  · rfl

theorem confirm_counts (h : Counts streak history) (direction : Int) :
    Counts (streak.confirm direction).1 (history ++ [direction]) := by
  unfold confirm
  split
  · exact counts_fresh _
  · split
    · exact ⟨Nat.zero_lt_succ _, List.nil_suffix⟩
    · next hfew =>
      refine ⟨Nat.lt_of_not_le hfew, ?_⟩
      rw [sample_direction]
      exact sample_suffix h direction

/-- A direction is confirmed by the third comparison in a row that has it. -/
theorem confirm_recent (h : Counts streak history) (hconfirmed : (streak.confirm direction).2 = true) :
    [direction, direction] <:+ history := by
  have hfew := h.few
  unfold confirm at hconfirmed
  split at hconfirmed
  · cases hconfirmed
  · split at hconfirmed
    · next hthird =>
      have hrecent := h.recent
      unfold sample at hthird
      split at hthird
      · next hsame =>
        have htwo : streak.samples = 2 := by
          simp only at hthird
          omega
        rw [htwo, hsame] at hrecent
        exact hrecent
      · simp at hthird
    · cases hconfirmed

end DirectionStreak

/-- The direction of the comparisons that speak for a lane. -/
def ResultsLane.direction : ResultsLane → Int
  | .completion => 1
  | .dispatch => -1

namespace LaneTurn

variable {P : Type} [LT P]

/-- Both pressures are known, and that of the lane is higher. -/
def Favours (turn : LaneTurn P) (lane : ResultsLane) : Prop :=
  ∃ dispatch completion, turn.dispatchPressure = some dispatch ∧
    turn.completionPressure = some completion ∧
    match lane with
    | .completion => dispatch < completion
    | .dispatch => completion < dispatch

/-- No pressure is higher: one is not known, or they are equal. -/
def Even (turn : LaneTurn P) : Prop :=
  turn.dispatchPressure = none ∨ turn.completionPressure = none ∨
    ∃ dispatch completion, turn.dispatchPressure = some dispatch ∧
      turn.completionPressure = some completion ∧ ¬dispatch < completion ∧ ¬completion < dispatch

theorem favours_of_direction [DecidableLT P] {turn : LaneTurn P} {lane : ResultsLane}
    (h : turn.direction = lane.direction) : turn.Favours lane := by
  unfold direction at h
  split at h
  · next dispatch completion hdispatch hcompletion =>
    refine ⟨dispatch, completion, hdispatch, hcompletion, ?_⟩
    split at h
    · next hlt =>
      cases lane with
      | completion => exact hlt
      | dispatch => cases h
    · split at h
      · next hlt =>
        cases lane with
        | completion => cases h
        | dispatch => exact hlt
      · cases lane <;> cases h
  · cases lane <;> cases h

theorem direction_of_even [DecidableLT P] {turn : LaneTurn P} (h : turn.Even) :
    turn.direction = 0 := by
  unfold direction
  split
  · next hdispatch hcompletion =>
    rcases h with hnone | hnone | ⟨dispatch, completion, hdispatch', hcompletion', hequal⟩
    · cases hdispatch.symm.trans hnone
    · cases hcompletion.symm.trans hnone
    · obtain rfl := Option.some.inj (hdispatch.symm.trans hdispatch')
      obtain rfl := Option.some.inj (hcompletion.symm.trans hcompletion')
      rw [if_neg hequal.1, if_neg hequal.2]
  · rfl

end LaneTurn

namespace ResultsLaneController

/-- A call of the controller. -/
inductive Call (P : Type) where
  | select (turn : LaneTurn P)
  | recordTurn (lane : ResultsLane)

/-- What a `select` found, when both lanes had rows. -/
def Call.contest {P : Type} : Call P → Option (LaneTurn P)
  | .select turn => if turn.Contested then some turn else none
  | .recordTurn _ => none

/-- The calls of `select` that found rows in both lanes. -/
def contests {P : Type} (calls : List (Call P)) : List (LaneTurn P) := calls.filterMap Call.contest

theorem contests_append {P : Type} (calls later : List (Call P)) :
    contests (calls ++ later) = contests calls ++ contests later :=
  List.filterMap_append

theorem contests_snoc {P : Type} (calls : List (Call P)) (last : Call P) :
    contests (calls ++ [last]) = contests calls ++ last.contest.toList := by
  rw [contests_append]
  cases hlast : last.contest <;> simp [contests, hlast]

section Calls

variable {P : Type} [LT P] [DecidableLT P] {controller : ResultsLaneController} {turn : LaneTurn P}
  {lane : ResultsLane}

/-- The controller after a call. -/
def call (controller : ResultsLaneController) : Call P → ResultsLaneController
  | .select turn => (controller.select turn).1
  | .recordTurn lane => controller.recordTurn lane

/-- The controller after some calls of a new one. -/
def afterCalls (calls : List (Call P)) : ResultsLaneController := calls.foldl call new

/-! ### One call -/

theorem select_contested (h : turn.Contested) :
    (controller.select turn).1 = controller.follow turn.direction := by
  unfold select
  rw [decide_eq_true h.1, decide_eq_true h.2]

/-- Without rows in both lanes there is no comparison. -/
theorem select_uncontested (h : ¬turn.Contested) :
    (controller.select turn).1.directionStreak = controller.directionStreak ∧
      (controller.select turn).1.preferred = controller.preferred := by
  unfold select
  split
  · exact ⟨rfl, rfl⟩
  · exact ⟨rfl, rfl⟩
  · exact ⟨rfl, rfl⟩
  · next hdispatch hcompletion =>
    exact absurd ⟨of_decide_eq_true hdispatch, of_decide_eq_true hcompletion⟩ h

theorem recordTurn_fields (controller : ResultsLaneController) (lane : ResultsLane) :
    (controller.recordTurn lane).directionStreak = controller.directionStreak ∧
      (controller.recordTurn lane).preferred = controller.preferred := by
  unfold recordTurn
  split <;> exact ⟨rfl, rfl⟩

theorem confirmation_eq_some {streak : DirectionStreak} {direction : Int}
    (h : confirmation streak direction = some lane) :
    (streak.confirm direction).2 = true ∧ direction = lane.direction := by
  unfold confirmation at h
  split at h
  · next hconfirmed =>
    refine ⟨hconfirmed, ?_⟩
    split at h
    · next hone =>
      cases h
      exact hone
    · split at h
      · next hminus =>
        cases h
        exact hminus
      · cases h
  · cases h

/-- A preference that changes follows a comparison that confirms it. -/
theorem follow_changes {direction : Int}
    (h : (controller.follow direction).preferred ≠ controller.preferred) :
    ∃ lane, (controller.follow direction).preferred = some lane ∧
      confirmation controller.directionStreak direction = some lane := by
  have hpreferred := (follow_fields controller direction).2.1
  cases hconfirmed : confirmation controller.directionStreak direction with
  | none =>
    rw [hconfirmed, Option.none_or] at hpreferred
    exact absurd hpreferred h
  | some lane =>
    rw [hconfirmed, Option.some_or] at hpreferred
    exact ⟨lane, hpreferred, rfl⟩

/-- A call with a comparison adds it to the history that the streak counts. -/
theorem call_counts {history : List Int} (h : controller.directionStreak.Counts history)
    (last : Call P) : (controller.call last).directionStreak.Counts
      (history ++ last.contest.toList.map LaneTurn.direction) := by
  cases last with
  | recordTurn lane =>
    rw [call, (recordTurn_fields controller lane).1, Call.contest]
    simpa using h
  | select turn =>
    rw [call, Call.contest]
    by_cases hcontested : turn.Contested
    · rw [select_contested hcontested, (follow_fields controller turn.direction).1,
        if_pos hcontested]
      exact DirectionStreak.confirm_counts h turn.direction
    · rw [(select_uncontested hcontested).1, if_neg hcontested]
      simpa using h

/-! ### Any calls -/

theorem afterCalls_snoc (calls : List (Call P)) (last : Call P) :
    afterCalls (calls ++ [last]) = (afterCalls calls).call last := by
  simp only [afterCalls, List.foldl_append, List.foldl_cons, List.foldl_nil]

theorem afterCalls_counts (calls : List (Call P)) :
    (afterCalls calls).directionStreak.Counts ((contests calls).map LaneTurn.direction) := by
  induction calls using List.reverseRecOn with
  | nil => exact DirectionStreak.counts_fresh _
  | append_singleton calls last ih =>
    rw [afterCalls_snoc, contests_snoc, List.map_append]
    exact call_counts ih last

/-- The last two of the turns whose directions end so. -/
theorem exists_of_suffix {turns : List (LaneTurn P)} {direction : Int}
    (h : [direction, direction] <:+ turns.map LaneTurn.direction) :
    ∃ earlier first second, turns = earlier ++ [first, second] ∧ first.direction = direction ∧
      second.direction = direction := by
  obtain ⟨before, hbefore⟩ := h
  obtain ⟨earlier, recent, rfl, -, hrecent⟩ := List.map_eq_append_iff.mp hbefore.symm
  obtain ⟨first, rest, rfl, hfirst, hrest⟩ := List.map_eq_cons_iff.mp hrecent
  obtain ⟨second, rest, rfl, hsecond, hnil⟩ := List.map_eq_cons_iff.mp hrest
  obtain rfl := List.map_eq_nil_iff.mp hnil
  exact ⟨earlier, first, second, rfl, hfirst, hsecond⟩

/-- After any calls of `select` and `record_turn` of a new controller: when a `select` changes the
preference to a lane, it found rows in both lanes, and its comparison and those of the last two
calls of `select` that found rows in both lanes all favoured that lane. A `select` where no pressure
is higher leaves the preference alone, and so does `record_turn`. -/
theorem preference_hysteresis {P : Type} [LT P] [DecidableLT P] (calls : List (Call P))
    (turn : LaneTurn P) :
    (((afterCalls calls).select turn).1.preferred ≠ (afterCalls calls).preferred →
      ∃ lane, ((afterCalls calls).select turn).1.preferred = some lane ∧
        turn.Contested ∧ turn.Favours lane ∧
        ∃ earlier first second, contests calls = earlier ++ [first, second] ∧
          first.Favours lane ∧ second.Favours lane) ∧
    (turn.Even →
      ((afterCalls calls).select turn).1.preferred = (afterCalls calls).preferred) ∧
    ∀ lane, ((afterCalls calls).recordTurn lane).preferred = (afterCalls calls).preferred := by
  have hcounts := afterCalls_counts calls
  generalize afterCalls calls = controller at *
  refine ⟨fun hchanged => ?_, fun heven => ?_, fun lane => (recordTurn_fields _ lane).2⟩
  · by_cases hcontested : turn.Contested
    · rw [select_contested hcontested] at hchanged ⊢
      obtain ⟨lane, hpreferred, hconfirmation⟩ := follow_changes hchanged
      obtain ⟨hconfirmed, hdirection⟩ := confirmation_eq_some hconfirmation
      obtain ⟨earlier, first, second, hcontests, hfirst, hsecond⟩ :=
        exists_of_suffix (DirectionStreak.confirm_recent hcounts hconfirmed)
      refine ⟨lane, hpreferred, hcontested, LaneTurn.favours_of_direction hdirection, earlier, first,
        second, hcontests, ?_, ?_⟩
      · exact LaneTurn.favours_of_direction (hfirst.trans hdirection)
      · exact LaneTurn.favours_of_direction (hsecond.trans hdirection)
    · exact absurd (select_uncontested hcontested).2 hchanged
  · by_cases hcontested : turn.Contested
    · have hpreferred := (follow_fields controller turn.direction).2.1
      rw [select_contested hcontested, hpreferred, LaneTurn.direction_of_even heven]
      rfl
    · exact (select_uncontested hcontested).2

/-- The calls of a turn: `select`, and `record_turn` of the lane that it chose. -/
def turnCalls (controller : ResultsLaneController) (turn : LaneTurn P) : List (Call P) :=
  .select turn :: ((controller.select turn).2.map fun chosen => .recordTurn chosen.1).toList

theorem takeTurn_calls (controller : ResultsLaneController) (turn : LaneTurn P) :
    (controller.takeTurn turn).1 = (controller.turnCalls turn).foldl call controller := by
  unfold takeTurn turnCalls
  rw [List.foldl_cons, call]
  split
  · next hselect => simp [hselect]
  · next hselect => simp [hselect, call]

theorem contests_turnCalls (controller : ResultsLaneController) (turn : LaneTurn P) :
    contests (controller.turnCalls turn) = [turn].filter fun turn => turn.Contested := by
  unfold turnCalls contests
  cases (controller.select turn).2 <;> by_cases hcontested : turn.Contested <;>
    simp [Call.contest, hcontested]

/-- The turns of the writer are such calls, with one `select` for each turn. -/
theorem takeTurns_calls (controller : ResultsLaneController) (turns : List (LaneTurn P)) :
    ∃ calls : List (Call P), (controller.takeTurns turns).1 = calls.foldl call controller ∧
      contests calls = turns.filter fun turn => turn.Contested := by
  induction turns generalizing controller with
  | nil => exact ⟨[], rfl, rfl⟩
  | cons turn rest ih =>
    obtain ⟨later, hlater, hrest⟩ := ih (controller.takeTurn turn).1
    refine ⟨controller.turnCalls turn ++ later, ?_, ?_⟩
    · rw [List.foldl_append, ← takeTurn_calls]
      exact hlater
    · rw [contests_append, contests_turnCalls, hrest, ← List.filter_append, List.singleton_append]

end Calls

/-- The third comparison changes the preference; neither the `select` without completions nor the
turns that are recorded between them start the count again. -/
example :
    let turn : LaneTurn Nat :=
      { dispatchRows := 1, completionRows := 1, dispatchPressure := some 2
        completionPressure := some 1 }
    let calls := [.select turn, .recordTurn .completion, .select { turn with completionRows := 0 },
      .select turn, .recordTurn .completion]
    (afterCalls calls).preferred = none ∧
      ((afterCalls calls).select turn).1.preferred = some .dispatch := by
  decide

end ResultsLaneController

end Maqistor
