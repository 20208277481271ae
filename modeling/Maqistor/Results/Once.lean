import Maqistor.Results.Fence

/-! How often a dispatch's result is accepted. The dispositions of a statement are read off the set
of keys it updated, so requests with one key that fall into the same statement are answered alike.
All later ones are ignored. -/

namespace Maqistor

open ResultsConn

namespace ResultsConn

/-- The entries of a statement for a key. -/
def named (key : Int × String) (chunk : List Entry) : Nat :=
  chunk.countP fun entry => entry.1.key = key

/-- How often the first statement that names a key names it. -/
def timesNamed (key : Int × String) (chunks : List (List Entry)) : Nat :=
  ((chunks.find? fun chunk => 0 < named key chunk).map (named key)).getD 0

/-- A request for the key that is not answered `Ignored`. -/
def accepts (key : Int × String) (request : PendingCompletion)
    (disposition : CompletionDisposition) : Bool :=
  request.key = key ∧ disposition ≠ .ignored

/-- A statement that names a running key finishes its row, and otherwise leaves it running. -/
theorem running_statement {env : Env} {chunk : List Entry} {executions : List Execution}
    {key : Int × String} (h : running executions key = true) :
    running (executions.map (statementRow env chunk)) key = true ↔ named key chunk = 0 := by
  rw [named, List.countP_eq_zero]
  constructor
  · intro hafter entry hentry
    obtain ⟨row', hrow', hkey, hstatus⟩ := running_iff.mp hafter
    obtain ⟨row, hrow, rfl⟩ := List.mem_map.mp hrow'
    rcases statementRow_cases env chunk row with ⟨hnone, heq⟩ | ⟨other, -, -, heq⟩
    · rw [heq] at hkey hstatus
      have hmiss := hnone entry hentry
      rw [Bool.eq_false_iff, ne_eq, fences_iff, not_and_or] at hmiss
      intro hsame
      rw [decide_eq_true_eq] at hsame
      rcases hmiss with hmiss | hmiss
      · exact hmiss (hkey.trans hsame.symm)
      · exact hmiss hstatus
    · rw [heq] at hstatus
      exact absurd hstatus (finished_not_running env.now row _)
  · intro hnone
    obtain ⟨row, hrow, hkey, hstatus⟩ := running_iff.mp h
    refine running_iff.mpr ⟨row, List.mem_map.mpr ⟨row, hrow, ?_⟩, hkey, hstatus⟩
    rcases statementRow_cases env chunk row with ⟨-, heq⟩ | ⟨entry, hentry, hfences, -⟩
    · exact heq
    · have hmiss := hnone entry hentry
      rw [decide_eq_true_eq] at hmiss
      exact absurd ((fences_iff.mp hfences).1.symm.trans hkey) hmiss

/-- The accepted answers of some statements for a key: as many as the first statement that names it
has, if the key runs. -/
theorem countP_answers (env : Env) (queues : List JobQueue) (chunks : List (List Entry))
    (executions : List Execution) (key : Int × String) :
    (answers env queues chunks executions).countP (fun answer => accepts key answer.1.1 answer.2) =
      if running executions key then timesNamed key chunks else 0 := by
  cases hrunning : running executions key with
  | false =>
    rw [if_neg Bool.false_ne_true, List.countP_eq_zero]
    intro answer hanswer haccepts
    simp only [accepts, decide_eq_true_eq] at haccepts
    exact haccepts.2 (answers_ignored hrunning hanswer haccepts.1)
  | true =>
    rw [if_pos rfl]
    induction chunks generalizing executions with
    | nil => rfl
    | cons chunk chunks ih =>
      have hfirst : (chunk.map fun entry => (entry, dispose queues executions entry.1)).countP
          (fun answer => accepts key answer.1.1 answer.2) = named key chunk := by
        rw [List.countP_map, named]
        apply List.countP_congr
        intro entry _
        simp only [Function.comp_apply, accepts, decide_eq_true_eq]
        refine ⟨And.left, fun hkey => ⟨hkey, fun hignored => ?_⟩⟩
        rw [dispose_eq_ignored, hkey, hrunning] at hignored
        cases hignored
      rw [answers, List.countP_append, hfirst, timesNamed, List.find?_cons]
      by_cases hnamed : named key chunk = 0
      · rw [ih _ ((running_statement hrunning).mpr hnamed)]
        simp [hnamed, timesNamed]
      · have hlater : running (executions.map (statementRow env chunk)) key = false := by
          rw [Bool.eq_false_iff]
          exact mt (running_statement hrunning).mp hnamed
        have hrest : (answers env queues chunks (executions.map (statementRow env chunk))).countP
            (fun answer => accepts key answer.1.1 answer.2) = 0 := by
          rw [List.countP_eq_zero]
          intro answer hanswer haccepts
          simp only [accepts, decide_eq_true_eq] at haccepts
          exact haccepts.2 (answers_ignored hlater hanswer haccepts.1)
        have hpos : 0 < named key chunk := Nat.pos_of_ne_zero hnamed
        simp [hrest, hpos]

/-- A running key that the batch names no longer runs after it. -/
theorem running_batch {env : Env} {batch : List PendingCompletion} {executions : List Execution}
    {request : PendingCompletion} (hrequest : request ∈ batch) :
    running (executions.map (batchRow env batch)) request.key = false := by
  rw [Bool.eq_false_iff, ne_eq, running_iff]
  rintro ⟨row', hrow', hkey, hstatus⟩
  obtain ⟨row, -, rfl⟩ := List.mem_map.mp hrow'
  rcases batchRow_cases env batch row with ⟨hnone, heq⟩ | ⟨other, -, -, heq⟩
  · rw [heq] at hkey hstatus
    have hmiss := hnone request hrequest
    rw [fences_iff.mpr ⟨hkey, hstatus⟩] at hmiss
    cases hmiss
  · rw [heq] at hstatus
    exact finished_not_running env.now row _ hstatus

end ResultsConn

namespace Writer

/-- The completion requests for a key that were answered with something other than `Ignored`. -/
def accepted (key : Int × String) (events : List Replies) : Nat :=
  events.flatten.countP fun reply => accepts key reply.1 reply.2

/-- Any call is admitted. -/
def Any (_ : Writer) (_ : Call) : Prop := True

instance (writer : Writer) (call : Call) : Decidable (Any writer call) := .isTrue trivial

/-- The first statement of a batch that names a running attempt names it once. -/
def Twinless (writer : Writer) : Call → Prop
  | .completeBatch _ batch => ∀ row ∈ writer.conn.executions, row.status = .running →
      timesNamed row.key (statements batch) ≤ 1
  | .handle _ _ => True

instance (writer : Writer) (call : Call) : Decidable (Twinless writer call) :=
  match call with
  | .completeBatch _ batch => inferInstanceAs (Decidable (∀ row ∈ writer.conn.executions,
      row.status = .running → timesNamed row.key (statements batch) ≤ 1))
  | .handle _ _ => .isTrue trivial

theorem accepted_append (key : Int × String) (events : List Replies) (answered : Replies) :
    accepted key (events ++ [answered]) = accepted key events + accepted key [answered] := by
  simp [accepted]

theorem accepted_batch {writer writer' : Writer} (hinv : Inv writer) {env : Env}
    {batch : List PendingCompletion} {answered : Replies}
    (h : step writer (.completeBatch env batch) = some (writer', answered)) (key : Int × String) :
    accepted key [answered] =
      if running writer.conn.executions key then timesNamed key (statements batch) else 0 := by
  obtain ⟨dispositions, hstep, -, -, hperm⟩ := completeBatch_step hinv env batch
  rw [hstep, Option.some.injEq, Prod.mk.injEq] at h
  obtain ⟨-, rfl⟩ := h
  rw [accepted, List.flatten_singleton, hperm.countP_eq, List.countP_map]
  exact countP_answers env writer.conn.executionQueues (statements batch) _ key

/-- The completions of a call are those of one batch; every other call answers none. -/
theorem step_replies {writer writer' : Writer} {call : Call} {answered : Replies}
    (h : step writer call = some (writer', answered)) :
    (∃ env batch, step writer (.completeBatch env batch) = some (writer', answered) ∧
      (call = .completeBatch env batch ∨ ∃ pending, batch = [pending] ∧
        call = .handle env (.complete pending))) ∨ answered = [] := by
  cases call with
  | completeBatch env batch => exact Or.inl ⟨env, batch, h, Or.inl rfl⟩
  | handle env request =>
    cases request with
    | complete pending => exact Or.inl ⟨env, [pending], h, Or.inr ⟨pending, rfl, rfl⟩⟩
    | dispatch rows =>
      simp only [step] at h
      split at h
      · exact Or.inr (Prod.mk.inj (Option.some.inj h)).2.symm
      · cases h
    | _ => exact Or.inr (Prod.mk.inj (Option.some.inj h)).2.symm

theorem timesNamed_le (key : Int × String) (chunks : List (List Entry)) :
    timesNamed key chunks ≤ chunks.flatten.countP fun entry => entry.1.key = key := by
  induction chunks with
  | nil => exact Nat.le_refl 0
  | cons chunk chunks ih =>
    rw [timesNamed, List.find?_cons, List.flatten_cons, List.countP_append]
    by_cases hnamed : named key chunk = 0
    · simp only [hnamed, Nat.lt_irrefl, decide_false]
      exact Nat.le_trans ih (Nat.le_add_left _ _)
    · have hpos : 0 < named key chunk := Nat.pos_of_ne_zero hnamed
      simp only [hpos, decide_true, Option.map_some, Option.getD_some]
      exact Nat.le_add_right _ _

/-- A key that some completion of the call is accepted for runs before the call and not after. -/
theorem step_accepted {writer writer' : Writer} {call : Call} {answered : Replies}
    (hinv : Inv writer) (h : step writer call = some (writer', answered)) {key : Int × String}
    (haccepted : 0 < accepted key [answered]) :
    running writer.conn.executions key = true ∧ running writer'.conn.executions key = false := by
  rcases step_replies h with ⟨env, batch, hstep, -⟩ | rfl
  · have hcount := accepted_batch hinv hstep key
    have hrunning : running writer.conn.executions key = true := by
      by_contra hnot
      rw [if_neg hnot] at hcount
      omega
    refine ⟨hrunning, ?_⟩
    rw [if_pos hrunning] at hcount
    -- The key is named, so the batch finishes its row.
    have hnamed := timesNamed_le key (statements batch)
    rw [← hcount] at hnamed
    obtain ⟨entry, hentry, hkey⟩ := List.countP_pos_iff.mp (Nat.lt_of_lt_of_le haccepted hnamed)
    rw [decide_eq_true_eq] at hkey
    have hrequest : entry.1 ∈ batch := mem_statements.mp ⟨entry, hentry, rfl⟩
    obtain ⟨dispositions, hstep', -⟩ := completeBatch_step hinv env batch
    rw [hstep', Option.some.injEq, Prod.mk.injEq] at hstep
    rw [← hstep.1, ← hkey]
    exact running_batch hrequest
  · simp [accepted] at haccepted

/-- A key that was accepted does not run, now or later. -/
theorem run_accepted {admits : Writer → Call → Prop} {writer writer' : Writer}
    {events : List Replies} (h : Run admits writer events writer') (hinv : Inv writer)
    {key : Int × String} (haccepted : 0 < accepted key events) :
    key.2 ∈ writer'.issued ∧ running writer'.conn.executions key = false := by
  induction h with
  | refl => simp [accepted] at haccepted
  | @step middle last events call answered hrun hok hstep ih =>
    have hinv' := run_inv hrun hinv
    rw [accepted_append] at haccepted
    by_cases hearlier : 0 < accepted key events
    · obtain ⟨hissued, hleft⟩ := ih hearlier
      exact step_left hinv' hstep hissued hleft
    · have hnow : 0 < accepted key [answered] := by omega
      obtain ⟨hrunning, hleft⟩ := step_accepted hinv' hstep hnow
      have hissued := issued_of_running hinv' hrunning
      exact ⟨run_issued (Runs.Run.one hok hstep) hinv' hissued, hleft⟩

/-- One call accepts at most one completion of each key exactly when its batch is twinless. -/
theorem step_accepted_le_one {writer writer' : Writer} {call : Call} {answered : Replies}
    (hinv : Inv writer) (h : step writer call = some (writer', answered)) :
    (∀ key, accepted key [answered] ≤ 1) ↔ Twinless writer call := by
  rcases step_replies h with ⟨env, batch, hstep, hcall⟩ | rfl
  · have hcount := accepted_batch hinv hstep
    rcases hcall with rfl | ⟨pending, rfl, rfl⟩
    · constructor
      · intro hle row hrow hstatus
        have hrunning := running_iff.mpr ⟨row, hrow, rfl, hstatus⟩
        have := hle row.key
        rwa [hcount, if_pos hrunning] at this
      · intro htwinless key
        rw [hcount]
        split
        · next hrunning =>
          obtain ⟨row, hrow, rfl, hstatus⟩ := running_iff.mp hrunning
          exact htwinless row hrow hstatus
        · exact Nat.zero_le 1
    · refine ⟨fun _ => trivial, fun _ key => ?_⟩
      rw [hcount]
      split
      · have hle := timesNamed_le key (statements [pending])
        rw [(statements_perm [pending]).countP_eq] at hle
        exact Nat.le_trans hle (List.countP_le_length)
      · exact Nat.zero_le 1
  · refine ⟨fun _ => ?_, fun _ key => by simp [accepted]⟩
    cases call with
    | handle env request => trivial
    | completeBatch env batch =>
      intro row hrow hstatus
      have hcount := accepted_batch hinv h row.key
      rw [if_pos (running_iff.mpr ⟨row, hrow, rfl, hstatus⟩)] at hcount
      rw [← hcount]
      simp [accepted]

/-- Over a whole run of the writer, at most one completion of each dispatch is accepted exactly when
no batch has two requests for a running attempt in the first statement that names it. -/
theorem accepted_once_iff {queues : List JobQueue} {events : List Replies} {writer : Writer}
    (h : Run Any (initial queues) events writer) :
    (∀ key, accepted key events ≤ 1) ↔ Run Twinless (initial queues) events writer := by
  constructor
  · intro honce
    induction h with
    | refl => exact Runs.Run.refl _
    | @step middle last events call answered hrun hok hstep ih =>
      have hinv := run_inv hrun (initial_inv queues)
      have hsplit := fun key => accepted_append key events answered ▸ honce key
      refine Runs.Run.step (ih fun key => ?_) ((step_accepted_le_one hinv hstep).mp ?_) hstep
      · exact Nat.le_trans (Nat.le_add_right _ _) (hsplit key)
      · exact fun key => Nat.le_trans (Nat.le_add_left _ _) (hsplit key)
  · intro htwinless key
    clear h
    induction htwinless with
    | refl => exact Nat.zero_le 1
    | @step middle last events call answered hrun hok hstep ih =>
      have hinv := run_inv hrun (initial_inv queues)
      have hnow := (step_accepted_le_one hinv hstep).mpr hok key
      rw [accepted_append]
      by_cases hearlier : 0 < accepted key events
      · -- The attempt was accepted before, so it runs no more and the call accepts nothing for it.
        have hleft := (run_accepted hrun (initial_inv queues) hearlier).2
        have hnone : ¬0 < accepted key [answered] := by
          intro hpos
          rw [(step_accepted hinv hstep hpos).1] at hleft
          cases hleft
        omega
      · omega

/-- The same result submitted in two batches: the second one is ignored. -/
theorem accepted_once_iff_second_batch : ∃ events writer,
    Runs.exec step Twinless (initial [mailQueue])
      [.handle (.atTime 0) (.dispatch [⟨1, "mail", "d", 30⟩]),
        .completeBatch (.atTime 1) [⟨1, "d", .succeeded [7]⟩],
        .completeBatch (.atTime 2) [⟨1, "d", .failed "late"⟩]] = some (writer, events) ∧
    ∀ key, accepted key events ≤ 1 := by
  have hrun : Runs.exec step Twinless (initial [mailQueue])
      [.handle (.atTime 0) (.dispatch [⟨1, "mail", "d", 30⟩]),
        .completeBatch (.atTime 1) [⟨1, "d", .succeeded [7]⟩],
        .completeBatch (.atTime 2) [⟨1, "d", .failed "late"⟩]] =
      some (⟨⟨[mailQueue], [⟨1, 1, "mail", .completed, 1, none, "d", some [7], none, 0, 1⟩]⟩,
        ["d"]⟩, [[], [(⟨1, "d", .succeeded [7]⟩, .completed)],
          [(⟨1, "d", .failed "late"⟩, .ignored)]]) := by decide
  refine ⟨_, _, hrun, (accepted_once_iff ?_).mpr (Runs.Run.of_exec hrun)⟩
  exact (Runs.Run.of_exec hrun).mono fun _ _ _ => trivial

/-- The same result twice in one batch: both are answered `Completed`. -/
theorem accepted_twice_in_one_batch : ¬∀ (queues : List JobQueue) (events : List Replies)
    (writer : Writer), Run Any (initial queues) events writer → ∀ key, accepted key events ≤ 1 := by
  intro h
  have hrun : Runs.exec step Any (initial [mailQueue])
      [.handle (.atTime 0) (.dispatch [⟨1, "mail", "d", 30⟩]),
        .completeBatch (.atTime 1) [⟨1, "d", .succeeded [7]⟩, ⟨1, "d", .succeeded [8]⟩]] =
      some (⟨⟨[mailQueue], [⟨1, 1, "mail", .completed, 1, none, "d", some [7], none, 0, 1⟩]⟩,
        ["d"]⟩, [[], [(⟨1, "d", .succeeded [7]⟩, .completed),
          (⟨1, "d", .succeeded [8]⟩, .completed)]]) := by decide
  have htwice := h _ _ _ (Runs.Run.of_exec hrun) (1, "d")
  revert htwice
  decide

end Writer

end Maqistor
