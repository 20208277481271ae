import Maqistor.Adaptive.Limits

/-! A controller whose commits keep on speaking for one direction gets to the limit there: it does
not stop at a size that the factor and the rounding would leave as it is. -/

namespace Maqistor

open Runs

/-- How many commits have been recorded. -/
def commits (events : List (Option CommitRecord)) : Nat := (events.filterMap id).length

/-- All commits have spoken for one direction. -/
def SpeakFor (direction : Int) (events : List (Option CommitRecord)) : Prop :=
  ∀ record, some record ∈ events → record.decision = .observe direction

theorem commits_append_none (events : List (Option CommitRecord)) :
    commits (events ++ [none]) = commits events := by
  unfold commits
  rw [List.filterMap_append, List.filterMap_cons_none rfl, List.filterMap_nil, List.append_nil]

theorem commits_append_some (events : List (Option CommitRecord)) (record : CommitRecord) :
    commits (events ++ [some record]) = commits events + 1 := by
  unfold commits
  rw [List.filterMap_append, List.length_append]
  rfl

theorem SpeakFor.earlier {direction : Int} {events more : List (Option CommitRecord)}
    (h : SpeakFor direction (events ++ more)) : SpeakFor direction events :=
  fun record hrecord => h record (List.mem_append_left _ hrecord)

namespace AdaptiveBatch

variable {batch : AdaptiveBatch} {direction : Int}

/-- At the limit of a direction the size stays there while the direction is told again. -/
theorem Valid.observeDirection_room (h : batch.Valid) (hdirection : direction = 1 ∨ direction = -1) :
    (batch.observeDirection direction).1.room direction ≤ batch.room direction := by
  cases hconfirm : (batch.direction.confirm direction).2 with
  | true =>
    rw [observeDirection_of_confirmed hconfirm]
    exact Nat.le_trans (h.room_resized hdirection) (Nat.sub_le _ _)
  | false =>
    rw [observeDirection_of_not_confirmed hconfirm]
    exact Nat.le_refl _

/-- Where a batch with no room has its size. -/
theorem Valid.size_of_room (h : batch.Valid) (hdirection : direction = 1 ∨ direction = -1)
    (hroom : batch.room direction = 0) :
    batch.size = if direction = 1 then batch.max else batch.min := by
  have hmin := UInt64.le_iff_toNat_le.mp h.min_le
  have hmax := UInt64.le_iff_toNat_le.mp h.le_max
  rcases hdirection with rfl | rfl
  · rw [room_up] at hroom
    rw [if_pos rfl, ← UInt64.toNat_inj]
    omega
  · rw [room_down] at hroom
    rw [if_neg (by decide), ← UInt64.toNat_inj]
    omega

end AdaptiveBatch

namespace AdaptiveBatchController

variable {options : BatchOptions} {controller last : AdaptiveBatchController}
  {earlier events : List (Option CommitRecord)} {direction : Int}

/-- Either the limit is reached, or each commit so far has brought it closer. -/
def Closer (start : AdaptiveBatch) (direction : Int) (batch : AdaptiveBatch) (commits : Nat) : Prop :=
  batch.room direction = 0 ∨ batch.lag direction + commits ≤ start.lag direction

theorem Closer.observeDirection {start batch : AdaptiveBatch} {count : Nat}
    (h : Closer start direction batch count) (hvalid : batch.Valid) (hfew : batch.direction.samples < 3)
    (hdirection : direction = 1 ∨ direction = -1) :
    Closer start direction (batch.observeDirection direction).1 (count + 1) := by
  rcases h with hroom | hlag
  · have hstays := hvalid.observeDirection_room hdirection
    exact Or.inl (by omega)
  · rcases hvalid.observeDirection_lag hfew hdirection with hroom | hless
    · exact Or.inl hroom
    · exact Or.inr (by omega)

/-- When all commits of a run speak for one direction, every one of them brings the limit closer. -/
theorem closer_run (htracks : Tracks options controller earlier)
    (hwaits : options.batchWaitMin ≤ options.batchWaitMax)
    (hdirection : direction = 1 ∨ direction = -1)
    (hrun : Run AdaptiveBatchController.step (fun _ _ => True) controller events last)
    (hspeak : SpeakFor direction events) :
    Tracks options last (earlier ++ events) ∧
      Closer controller.batch direction last.batch (commits events) := by
  refine hrun.history (fun state sofar => SpeakFor direction sofar →
    Tracks options state (earlier ++ sofar) ∧
      Closer controller.batch direction state.batch (commits sofar)) ?_ ?_ hspeak
  · intro _
    rw [List.append_nil]
    exact ⟨htracks, Or.inr (Nat.le_refl _)⟩
  · intro state next call event sofar ih _ hstep hspeak
    obtain ⟨htracks, hcloser⟩ := ih hspeak.earlier
    have hnext := htracks.step hwaits hstep
    rw [List.append_assoc] at hnext
    refine ⟨hnext, ?_⟩
    rcases step_cases htracks.backoff_limits hstep with
      ⟨rfl, now, rfl⟩ | ⟨record, observed, decided, rfl, hcommit⟩
    · rw [(observeRequest_same state now).1, commits_append_none]
      exact hcloser
    · have hdecision := hspeak record (List.mem_append_right _ (List.mem_singleton.mpr rfl))
      have hbatch : next.batch = (state.batch.observeDirection direction).1 := by
        rw [hcommit.batch, hdecision]
        rfl
      rw [hbatch, commits_append_some]
      exact hcloser.observeDirection htracks.valid htracks.size.few hdirection

/-- From any state that a controller with valid options gets to: when the commits from there on all
speak for a larger (or all for a smaller) batch, the size is at the upper (or the lower) limit after
three commits for every request that it was away from it, and stays there. -/
theorem batch_size_reaches_limit {sectionName : String}
    (hvalid : options.validate sectionName = .ok ())
    (hstart : Run AdaptiveBatchController.step (fun _ _ => True) (new options) earlier controller)
    (hrun : Run AdaptiveBatchController.step (fun _ _ => True) controller events last)
    (hdirection : direction = 1 ∨ direction = -1) (hspeak : SpeakFor direction events)
    (henough : 3 * controller.batch.room direction ≤ commits events) :
    last.batchSize = if direction = 1 then options.batchSizeMax else options.batchSizeMin := by
  obtain ⟨htracks, hcloser⟩ := closer_run (tracks_run hvalid hstart)
    (BatchOptions.validate_ok hvalid).2.2.2 hdirection hrun hspeak
  have hroom : last.batch.room direction = 0 := by
    rcases hcloser with hroom | hlag
    · exact hroom
    · unfold AdaptiveBatch.lag at hlag
      omega
  rw [batchSize, htracks.valid.size_of_room hdirection hroom, htracks.sizeMax, htracks.sizeMin]

/-- Batches of one to three completions, which start with two. -/
def fewOptions : BatchOptions := { BatchOptions.completionDefaults with batchSizeMin := 1, batchSizeMax := 3 }

/-- Three full batches with more waiting take the size from two to the limit. -/
theorem batch_size_reaches_limit_few :
    ∃ last : AdaptiveBatchController, ∃ events : List (Option CommitRecord),
      exec step (fun _ _ => True) (new fewOptions)
        [fullCommit 4000000, fullCommit 8000000, fullCommit 12000000] = some (last, events) ∧
      (new fewOptions).batchSize = 2 ∧ last.batchSize = 3 := by
  have hran : (exec step (fun _ _ => True) (new fewOptions)
      [fullCommit 4000000, fullCommit 8000000, fullCommit 12000000]).map Prod.snd =
        some (List.replicate 3 (some ⟨false, .observe 1, none⟩)) := by
    decide +kernel
  obtain ⟨⟨last, events⟩, hexec, hevents⟩ := Option.map_eq_some_iff.mp hran
  obtain rfl : events = List.replicate 3 (some ⟨false, .observe 1, none⟩) := hevents
  have hspeak : SpeakFor 1 (List.replicate 3 (some ⟨false, .observe 1, none⟩)) := fun record hrecord => by
    rw [Option.some.inj (List.eq_of_mem_replicate hrecord)]
  have hvalid : fewOptions.validate "persistence.completion" = .ok () := by decide
  exact ⟨last, _, hexec, by decide +kernel,
    batch_size_reaches_limit hvalid (Run.refl _) (Run.of_exec hexec) (Or.inl rfl) hspeak
      (by decide +kernel)⟩

end AdaptiveBatchController

end Maqistor
