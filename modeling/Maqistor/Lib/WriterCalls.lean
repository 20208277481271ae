import Maqistor.Lib.WriterLoop

/-! What the calls of a writer loop do on the connection. A relation says what one call may do and
answer; the connection of a loop is then where its calls have led it, and the replies are the
answers of those calls. -/

namespace WriterLoop

variable {ρ σ ω : Type} {τ : Type*}

/-- What a call with these requests does to the connection and answers. -/
abbrev Does (ρ σ ω : Type) (τ : Type*) := τ → σ → List ρ → σ → List ω → Prop

/-- The writer's calls are as `does` says, for a request of the first two lanes on its own and for a
batch. -/
structure Spec.Performs (spec : Spec ρ σ ω τ) (does : Does ρ σ ω τ) : Prop where
  alone : ∀ env conn {request}, spec.lane request ≠ .batched →
    does env conn [request] (spec.handle env conn request).1 [(spec.handle env conn request).2]
  batch : ∀ env conn {requests}, (∀ request ∈ requests, spec.lane request = .batched) →
    does env conn requests (spec.batch env conn requests).1 (spec.batch env conn requests).2

/-- Calls that lead from a connection to another, each with what it takes from outside, and their
answers, each at the number of the request it is for. -/
inductive Executed (does : Does ρ σ ω τ) (conn : σ) :
    List (List (Ticket ρ)) → σ → List (Nat × ω) → Prop
  | start : Executed does conn [] conn []
  | call {calls tickets conn' conn'' replies answers} (env : τ) :
      Executed does conn calls conn' replies → does env conn' (tickets.map Prod.snd) conn'' answers →
      answers.length = tickets.length →
      Executed does conn (calls ++ [tickets]) conn'' (replies ++ (tickets.map Prod.fst).zip answers)

namespace Loop

/-- A step makes at most one call, with what the step takes from outside, and replies to the
requests of that call. -/
inductive Makes (does : Does ρ σ ω τ) (env : τ) (loop loop' : Loop ρ σ ω) : Prop
  | none (conn : loop'.conn = loop.conn) (calls : loop'.calls = loop.calls)
      (replies : loop'.replies = loop.replies)
  | call {tickets : List (Ticket ρ)} {answers : List ω}
      (does : does env loop.conn (tickets.map Prod.snd) loop'.conn answers)
      (length : answers.length = tickets.length) (calls : loop'.calls = loop.calls ++ [tickets])
      (replies : loop'.replies = loop.replies ++ (tickets.map Prod.fst).zip answers)

section Step

variable {spec : Spec ρ σ ω τ} {does : Does ρ σ ω τ} {accepts : ρ → Prop} {loop loop' after : Loop ρ σ ω}
  {tick : Tick τ}

/-- What the step does besides the call does not matter. -/
theorem Makes.congr (h : Makes does tick.env loop after) (hconn : loop'.conn = after.conn)
    (hcalls : loop'.calls = after.calls) (hreplies : loop'.replies = after.replies) :
    Makes does tick.env loop loop' := by
  cases h with
  | none conn calls replies =>
    exact .none (hconn.trans conn) (hcalls.trans calls) (hreplies.trans replies)
  | call hdoes length calls replies =>
    exact .call (hconn ▸ hdoes) length (hcalls.trans calls) (hreplies.trans replies)

theorem handle_makes (hperforms : spec.Performs does) (tick : Tick τ) {ticket : Ticket ρ}
    (hlane : spec.lane ticket.2 ≠ .batched) :
    Makes does tick.env loop (loop.handle spec tick ticket) := by
  have hdoes : does tick.env loop.conn ([ticket].map Prod.snd) (loop.handle spec tick ticket).conn _ :=
    hperforms.alone tick.env loop.conn hlane
  exact .call hdoes rfl rfl rfl

theorem flush_makes (hsound : spec.Sound accepts) (hperforms : spec.Performs does) (tick : Tick τ)
    {tickets : List (Ticket ρ)} (hlane : ∀ ticket ∈ tickets, spec.lane ticket.2 = .batched) :
    Makes does tick.env loop (loop.flush spec tick tickets) := by
  have hrequests : ∀ request ∈ tickets.map Prod.snd, spec.lane request = .batched := by
    intro request hrequest
    obtain ⟨ticket, hticket, rfl⟩ := List.mem_map.mp hrequest
    exact hlane ticket hticket
  have hlength := hsound.batch_length tick.env loop.conn hrequests
  rw [List.length_map] at hlength
  exact .call (hperforms.batch tick.env loop.conn hrequests) hlength rfl rfl

/-- A request at the front of one of the first two lanes is not one for a batch. -/
theorem Books.lane_ne (hbooks : loop.Books spec) {lane : Lane} {ticket : Ticket ρ}
    (hmem : ticket ∈ loop.waiting lane) (hne : lane ≠ .batched) : spec.lane ticket.2 ≠ .batched := by
  rw [(hbooks.mem_lane hmem).2]
  exact hne

theorem choose_makes (hperforms : spec.Performs does) (hbooks : loop.Books spec) :
    Makes does tick.env loop (loop.choose spec tick) := by
  unfold choose
  split
  · next ticket rest hfirst =>
    have hmem : ticket ∈ loop.waiting .first := by simp [waiting, hfirst]
    exact (handle_makes hperforms tick (hbooks.lane_ne hmem (by simp))).congr rfl rfl rfl
  · split
    · split
      · next ticket rest hsingle =>
        have hmem : ticket ∈ loop.waiting .single := by simp [waiting, hsingle]
        exact (handle_makes hperforms tick (hbooks.lane_ne hmem (by simp))).congr rfl rfl rfl
      · exact .none rfl rfl rfl
    · split <;> exact .none rfl rfl rfl
    · exact .none rfl rfl rfl

theorem shutDown_makes (hsound : spec.Sound accepts) (hperforms : spec.Performs does)
    (hbooks : loop.Books spec) {disconnected : Bool} :
    Makes does tick.env loop (loop.shutDown spec tick disconnected) := by
  unfold shutDown
  split
  · next ticket rest hbatched =>
    refine (flush_makes hsound hperforms tick fun other hother => ?_).congr rfl rfl rfl
    exact (hbooks.mem_lane (List.mem_append_right _ (hbatched ▸ hother))).2
  · split
    · next ticket rest hfirst =>
      have hmem : ticket ∈ loop.waiting .first := by simp [waiting, hfirst]
      exact (handle_makes hperforms tick (hbooks.lane_ne hmem (by simp))).congr rfl rfl rfl
    · split
      · next ticket rest hsingle =>
        have hmem : ticket ∈ loop.waiting .single := by simp [waiting, hsingle]
        split
        · exact (handle_makes hperforms tick (hbooks.lane_ne hmem (by simp))).congr rfl rfl rfl
        · exact .none rfl rfl rfl
      · exact .none rfl rfl rfl

theorem fill_makes (hsound : spec.Sound accepts) (hperforms : spec.Performs does)
    (hbooks : loop.Books spec) {pending : List (Ticket ρ)} {target : Nat}
    (hphase : loop.phase = .turn pending target) (h : loop.fill spec tick pending target = some loop') :
    Makes does tick.env loop loop' := by
  have hlane : ∀ ticket ∈ pending, spec.lane ticket.2 = .batched := by
    intro ticket hticket
    have hmem : ticket ∈ loop.waiting .batched := by simp [waiting, Loop.pending, hphase, hticket]
    exact (hbooks.mem_lane hmem).2
  unfold fill at h
  split at h
  · obtain rfl := Option.some.inj h
    exact (flush_makes hsound hperforms tick hlane).congr rfl rfl rfl
  · split at h
    · next ticket rest hchannel =>
      split at h
      · obtain rfl := Option.some.inj h
        exact .none rfl rfl rfl
      · split at h
        · -- the request that preempts the batch is queued, and not yet executed
          obtain rfl := Option.some.inj h
          have hflush : Makes does tick.env ((loop.take ticket rest).push spec ticket) _ :=
            flush_makes hsound hperforms tick hlane
          cases hflush with
          | none conn calls replies =>
            exact .none (conn.trans (push_conn ..)) (calls.trans (push_calls ..))
              (replies.trans (push_replies ..))
          | call hdoes length calls replies =>
            rw [push_conn] at hdoes
            rw [push_calls] at calls
            rw [push_replies] at replies
            exact .call hdoes length calls replies
        · obtain rfl := Option.some.inj h
          exact .none (push_conn ..) (push_calls ..) (push_replies ..)
    · split at h
      · obtain rfl := Option.some.inj h
        exact (flush_makes hsound hperforms tick hlane).congr rfl rfl rfl
      · cases h

/-- A step of the loop makes at most one call, on the connection that the calls before have left. -/
theorem work_makes (hsound : spec.Sound accepts) (hperforms : spec.Performs does)
    (hbooks : loop.Books spec) (h : loop.work spec tick = some loop') :
    Makes does tick.env loop loop' := by
  unfold work at h
  split at h
  · split at h
    · split at h
      · obtain rfl := Option.some.inj h
        exact .none (push_conn ..) (push_calls ..) (push_replies ..)
      · split at h
        · obtain rfl := Option.some.inj h
          exact .none rfl rfl rfl
        · cases h
    · obtain rfl := Option.some.inj h
      exact .none rfl rfl rfl
  · split at h
    · obtain rfl := Option.some.inj h
      exact .none (push_conn ..) (push_calls ..) (push_replies ..)
    · obtain rfl := Option.some.inj h
      exact choose_makes hperforms hbooks
  · next hphase => exact fill_makes hsound hperforms hbooks hphase h
  · obtain rfl := Option.some.inj h
    exact shutDown_makes hsound hperforms hbooks
  · cases h

end Step

/-! ### Runs -/

section Run

variable {spec : Spec ρ σ ω τ} {does : Does ρ σ ω τ} {accepts : ρ → Prop} {loop loop' : Loop ρ σ ω}
  {conn : σ}

theorem Makes.executed {env : τ} (hmakes : Makes does env loop loop')
    (h : Executed does conn loop.calls loop.conn loop.replies) :
    Executed does conn loop'.calls loop'.conn loop'.replies := by
  cases hmakes with
  | none hconn hcalls hreplies => rwa [hconn, hcalls, hreplies]
  | call hdoes hlength hcalls hreplies =>
    rw [hcalls, hreplies]
    exact h.call env hdoes hlength

/-- The connection of a loop is where its calls have led it, and its replies are their answers. -/
theorem reachable_executed (hsound : spec.Sound accepts) (hperforms : spec.Performs does)
    (h : Runs.Reachable (step spec) (Admits accepts) (initial conn) loop) :
    Executed does conn loop.calls loop.conn loop.replies := by
  obtain ⟨events, hrun⟩ := h
  refine (hrun.invariant (fun loop => Inv spec accepts loop ∧
    Executed does conn loop.calls loop.conn loop.replies) ⟨initial_inv spec accepts conn, .start⟩
    ?_).2
  intro loop loop' action event ⟨hinv, hexecuted⟩ hadmits hstep
  refine ⟨step_inv hsound hinv hadmits hstep, ?_⟩
  cases action with
  | arrive request =>
    simp only [step] at hstep
    split at hstep
    · cases hstep
    · obtain ⟨rfl, -⟩ := Prod.mk.inj (Option.some.inj hstep)
      exact hexecuted
  | close =>
    obtain ⟨rfl, -⟩ := Prod.mk.inj (Option.some.inj hstep)
    exact hexecuted
  | work tick =>
    obtain ⟨after, hwork, heq⟩ := Option.map_eq_some_iff.mp hstep
    obtain ⟨rfl, -⟩ := Prod.mk.inj heq
    exact (work_makes hsound hperforms hinv.books hwork).executed hexecuted

/-- The requests are answered: each is executed in at most one call of the connection, which leaves
the connection as `does` says and answers the request, in the order of the channel within its lane;
and it is only a question of finitely many steps until the loop has nothing left to execute, at the
latest when it ends. -/
structure Answers (spec : Spec ρ σ ω τ) (does : Does ρ σ ω τ) (conn : σ) (loop : Loop ρ σ ω) : Prop where
  channel : loop.taken ++ loop.channel = loop.arrived
  once : (loop.calls.flatten.map Prod.fst).Nodup
  order : ∀ lane, spec.ofLane lane loop.calls.flatten ++ loop.waiting lane =
    spec.ofLane lane loop.taken
  executed : Executed does conn loop.calls loop.conn loop.replies
  makes : ∀ {tick loop'}, loop.work spec tick = some loop' → Makes does tick.env loop loop'
  replies : loop.replies.map Prod.fst = loop.calls.flatten.map Prod.fst
  ended : loop.phase = .ended → loop.calls.flatten.Perm loop.arrived
  closes : ∀ tick, loop.closed = true → loop.phase ≠ .ended → (loop.work spec tick).isSome
  idle : ∀ tick, tick.expired = true → loop.work spec tick = none →
    loop.calls.flatten.Perm loop.arrived
  bounded : ∀ {events loop'}, Runs.Run (step spec) Works loop events loop' →
    events.length ≤ loop.measure

/-- A loop over a sound writer answers its requests, in every state it reaches. -/
theorem reachable_answers (hsound : spec.Sound accepts) (hperforms : spec.Performs does)
    (h : Runs.Reachable (step spec) (Admits accepts) (initial conn) loop) :
    Answers spec does conn loop := by
  have hinv := reachable_inv hsound h
  refine ⟨hinv.books.channel, hinv.once, hinv.books.lanes, reachable_executed hsound hperforms h,
    fun hwork => work_makes hsound hperforms hinv.books hwork, hinv.books.replies, hinv.ended, ?_, ?_,
    fun hrun => ?_⟩
  · intro tick hclosed hphase
    cases hwork : loop.work spec tick with
    | some after => rfl
    | none =>
      rcases work_none hwork with hended | ⟨hopen, -⟩
      · exact absurd hended hphase
      · rw [hopen] at hclosed
        cases hclosed
  · intro tick hexpired hnone
    rcases work_none hnone with hended | ⟨-, hchannel, hbacklog⟩
    · exact hinv.ended hended
    · exact hinv.all_done hchannel (hbacklog hexpired)
  · have hbound := (run_bounded hsound hinv hrun).2
    omega

end Run

end Loop

end WriterLoop
