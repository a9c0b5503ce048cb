import NeuroWealth.Agent.Scheduler

/-!
# One scheduled rebalance per interval

A running replica that has a scheduled job owns the lease from the grant to the release, so no other
running replica has one. The ticks of a replica take turns, so `lastRunAt` is at least the clock
reading of the tick of its last scheduled start, and the next tick that asks for the lease is an
interval later.
-/

namespace NeuroWealth.Scheduler

open Interleaving

variable {ι ρ : Type} [DecidableEq ι] [DecidableEq ρ] {env : Env ι ρ}
  {s t : System ι (Shared ρ) Stage} {x y : Shared ρ} {p q : Stage} {i j : ι} {r r' : ρ} {n now : ℕ}
  {u : Replica} {job : RebalanceJob}

/-! ## Where a scheduled job is -/

/-- The clock reading of the tick whose lease a stage carries, while the job has not started. -/
def Stage.unstarted : Stage → Option ℕ
  | renewed now true => some now
  | acquired now true => some now
  | emitting now true => some now
  | pricing _ job => if job.trigger = .scheduled then some job.grantedAt else none
  | _ => none

/-- The number of the start a stage is in. -/
def Stage.number : Stage → Option ℕ
  | executing _ job number => if job.trigger = .scheduled then some number else none
  | _ => none

inductive Place (ι ρ : Type) where
  | tick (i : ι)
  | queue (r : ρ)

def Place.replica (env : Env ι ρ) : Place ι ρ → ρ
  | tick i => env.replica i
  | queue r => r

def scheduled (queue : List RebalanceJob) : List RebalanceJob :=
  queue.filter fun job => job.trigger = .scheduled

/-- A running replica has a scheduled job at a place. -/
def Busy (env : Env ι ρ) (s : System ι (Shared ρ) Stage) : Place ι ρ → Prop
  | .tick i => s.shared.Live (env.replica i) ∧ (s.proc i).busy = true
  | .queue r => s.shared.Live r ∧ scheduled (s.shared.replica r).queue ≠ []

/-- The job at a place has not started; the tick that got the lease for it began at `n`. -/
def Token (env : Env ι ρ) (s : System ι (Shared ρ) Stage) (n : ℕ) : Place ι ρ → Prop
  | .tick i => s.shared.Live (env.replica i) ∧ (s.proc i).unstarted = some n
  | .queue r => s.shared.Live r ∧
      ∃ job ∈ scheduled (s.shared.replica r).queue, job.grantedAt = n

/-- Running replicas have one scheduled job, at one place, and its replica owns the lease. -/
structure Lone (env : Env ι ρ) (s : System ι (Shared ρ) Stage) : Prop where
  place : ∀ P Q, Busy env s P → Busy env s Q → P = Q
  single : ∀ r, s.shared.Live r → (scheduled (s.shared.replica r).queue).length ≤ 1
  owner : ∀ P, Busy env s P → s.shared.Owns (P.replica env)

theorem Stage.busy_of_unstarted (h : p.unstarted = some n) : p.busy = true := by
  cases p with
  | renewed now ok => cases ok <;> simp_all [unstarted, busy]
  | acquired now ok => cases ok <;> simp_all [unstarted, busy]
  | emitting now owned => cases owned <;> simp_all [unstarted, busy]
  | pricing now job =>
    simp only [unstarted, Option.ite_none_right_eq_some] at h
    simpa [busy] using h.1
  | _ => cases h

theorem Stage.now_of_busy (h : p.busy = true) : p.now.isSome = true := by
  cases p with
  | idle => cases h
  | done => cases h
  | _ => rfl

theorem Stage.now_of_asking (h : n ∈ p.asking) : n ∈ p.now := by
  cases p with
  | renewing now => exact h
  | renewed now ok => exact h
  | acquiring now => exact h
  | _ => cases h

theorem Stage.busy_of_number (h : p.number = some n) : p.busy = true := by
  cases p with
  | executing now job k =>
    simp only [number, Option.ite_none_right_eq_some] at h
    simpa [busy] using h.1
  | _ => cases h

omit [DecidableEq ι] [DecidableEq ρ] in
theorem busy_of_token {P : Place ι ρ} (h : Token env s n P) : Busy env s P := by
  cases P with
  | tick i => exact ⟨h.1, Stage.busy_of_unstarted h.2⟩
  | queue r =>
    obtain ⟨hlive, job, hjob, -⟩ := h
    exact ⟨hlive, List.ne_nil_of_mem hjob⟩

omit [DecidableEq ι] [DecidableEq ρ] in
/-- A running replica with a scheduled job is at work. -/
theorem working_of_busy {P : Place ι ρ} (h : Busy env s P) : Working env s (P.replica env) := by
  cases P with
  | tick i => exact .inr ⟨i, rfl, h.2⟩
  | queue r =>
    obtain ⟨job, hjob⟩ := List.exists_mem_of_ne_nil _ h.2
    obtain ⟨hqueued, htrigger⟩ := List.mem_filter.mp hjob
    exact .inl ⟨job, hqueued, of_decide_eq_true htrigger⟩

/-! ## One replica changes -/

@[simp]
theorem Shared.set_replica_self : (x.set r u).replica r = u := by
  simp [set]

@[simp]
theorem Shared.set_replica_other (h : r' ≠ r) : (x.set r u).replica r' = x.replica r' := by
  simp [set, h]

theorem Shared.set_self : x.set r (x.replica r) = x := by
  simp [set]

theorem Shared.live_set (hcrash : u.crashed = (x.replica r).crashed) :
    (x.set r u).Live r' ↔ x.Live r' := by
  unfold Live
  by_cases h : r' = r
  · rw [h, set_replica_self, hcrash]
  · rw [set_replica_other h]

theorem Shared.abandoned_set {a : Start ρ} (hcrash : u.crashed = (x.replica r).crashed) :
    (x.set r u).Abandoned a ↔ x.Abandoned a := by
  unfold Abandoned
  rw [live_set hcrash]
  rfl

/-- Where jobs can be after tick `i` and its replica have moved. -/
theorem busy_put {P : Place ι ρ} (hcrash : u.crashed = (s.shared.replica r).crashed)
    (h : Busy env (s.put (s.shared.set r u) i q) P) :
    (P = .tick i ∧ q.busy = true) ∨ (P = .queue r ∧ scheduled u.queue ≠ []) ∨
      (P ≠ .tick i ∧ P ≠ .queue r ∧ Busy env s P) := by
  cases P with
  | tick j =>
    obtain ⟨hlive, hbusy⟩ := h
    by_cases hj : j = i
    · rw [hj, System.put_self] at hbusy
      exact .inl ⟨by rw [hj], hbusy⟩
    · rw [System.put_other hj] at hbusy
      refine .inr (.inr ⟨?_, nofun, (Shared.live_set hcrash).mp hlive, hbusy⟩)
      rintro ⟨⟩
      exact hj rfl
  | queue r' =>
    obtain ⟨hlive, hqueue⟩ := h
    rw [System.put_shared] at hqueue
    by_cases hr : r' = r
    · rw [hr, Shared.set_replica_self] at hqueue
      exact .inr (.inl ⟨by rw [hr], hqueue⟩)
    · rw [Shared.set_replica_other hr] at hqueue
      refine .inr (.inr ⟨nofun, ?_, (Shared.live_set hcrash).mp hlive, hqueue⟩)
      rintro ⟨⟩
      exact hr rfl

/-- Where unstarted jobs can be after tick `i` and its replica have moved. -/
theorem token_put {P : Place ι ρ} (hcrash : u.crashed = (s.shared.replica r).crashed)
    (h : Token env (s.put (s.shared.set r u) i q) n P) :
    (P = .tick i ∧ q.unstarted = some n) ∨
      (P = .queue r ∧ ∃ job ∈ scheduled u.queue, job.grantedAt = n) ∨ Token env s n P := by
  cases P with
  | tick j =>
    obtain ⟨hlive, htoken⟩ := h
    by_cases hj : j = i
    · rw [hj, System.put_self] at htoken
      exact .inl ⟨by rw [hj], htoken⟩
    · rw [System.put_other hj] at htoken
      exact .inr (.inr ⟨(Shared.live_set hcrash).mp hlive, htoken⟩)
  | queue r' =>
    obtain ⟨hlive, htoken⟩ := h
    rw [System.put_shared] at htoken
    by_cases hr : r' = r
    · rw [hr, Shared.set_replica_self] at htoken
      exact .inr (.inl ⟨by rw [hr], htoken⟩)
    · rw [Shared.set_replica_other hr] at htoken
      exact .inr (.inr ⟨(Shared.live_set hcrash).mp hlive, htoken⟩)

omit [DecidableEq ι] in
theorem single_put (h : Lone env s) (hcrash : u.crashed = (s.shared.replica r).crashed)
    (hsingle : s.shared.Live r → (scheduled u.queue).length ≤ 1) (r' : ρ)
    (hlive : (s.shared.set r u).Live r') :
    (scheduled ((s.shared.set r u).replica r').queue).length ≤ 1 := by
  have hbefore : s.shared.Live r' := (Shared.live_set hcrash).mp hlive
  by_cases hr : r' = r
  · rw [hr, Shared.set_replica_self]
    rw [hr] at hbefore
    exact hsingle hbefore
  · rw [Shared.set_replica_other hr]
    exact h.single r' hbefore

omit [DecidableEq ι] [DecidableEq ρ] in
/-- Where no new place has a job, there is still at most one. -/
theorem Lone.mono (h : Lone env s) (hlease : t.shared.lease = s.shared.lease)
    (hbusy : ∀ P, Busy env t P → Busy env s P)
    (hsingle : ∀ r, t.shared.Live r → (scheduled (t.shared.replica r).queue).length ≤ 1) :
    Lone env t := by
  refine ⟨fun P Q hP hQ => h.place P Q (hbusy P hP) (hbusy Q hQ), hsingle, ?_⟩
  intro P hP
  unfold Shared.Owns
  rw [hlease]
  exact h.owner P (hbusy P hP)

omit [DecidableEq ι] [DecidableEq ρ] in
/-- The job moves from one place to another. -/
theorem Lone.move {P P' : Place ι ρ} (h : Lone env s) (hlease : t.shared.lease = s.shared.lease)
    (hP : Busy env s P) (hreplica : P'.replica env = P.replica env)
    (hmove : ∀ Q, Busy env t Q → Q = P' ∨ (Q ≠ P ∧ Busy env s Q))
    (hsingle : ∀ r, t.shared.Live r → (scheduled (t.shared.replica r).queue).length ≤ 1) :
    Lone env t := by
  have hplace : ∀ Q, Busy env t Q → Q = P' := by
    intro Q hQ
    rcases hmove Q hQ with hto | ⟨hne, hbefore⟩
    · exact hto
    · exact absurd (h.place Q P hbefore hP) hne
  refine ⟨?_, hsingle, ?_⟩
  · intro Q R hQ hR
    rw [hplace Q hQ, hplace R hR]
  · intro Q hQ
    unfold Shared.Owns
    rw [hlease, hplace Q hQ, hreplica]
    exact h.owner P hP

/-! ## The lease and the starts -/

/-- The lease of a job is in the store or expired. -/
def Held (env : Env ι ρ) (x : Shared ρ) (r : ρ) (n : ℕ) : Prop :=
  n + env.leaseTtlMs ≤ x.clock ∨ x.lease = some (r, n + env.leaseTtlMs)

/-- A start, or the tick of a start of the replica itself, lies an interval before `n`, or the start
    was abandoned and its lease expired. -/
def Past (env : Env ι ρ) (x : Shared ρ) (r : ρ) (n : ℕ) (a : Start ρ) : Prop :=
  a.time + env.interval ≤ n ∨ (a.replica = r ∧ a.now + env.interval ≤ n) ∨
    (x.Abandoned a ∧ a.grantedAt + env.leaseTtlMs ≤ x.clock)

/-- `b` starts an interval after `a`, or takes over from a crashed owner whose lease has expired. -/
def Apart (env : Env ι ρ) (x : Shared ρ) (b a : Start ρ) : Prop :=
  a.time + env.interval ≤ b.time ∨ (x.Abandoned a ∧ a.grantedAt + env.leaseTtlMs ≤ b.time)
deriving Decidable

/-- A job whose gas price a tick asks for was granted when the tick had begun. -/
def Stage.Timed : Stage → Prop
  | pricing now job => job.grantedAt ≤ now
  | _ => True

/-- The ticks of a replica take turns, and what they find when they ask for the lease. -/
structure Turns (env : Env ι ρ) (s : System ι (Shared ρ) Stage) : Prop where
  alone : ∀ i j, env.replica i = env.replica j → (s.proc i).now.isSome = true →
    (s.proc j).now.isSome = true → i = j
  recent : ∀ i, ∀ n ∈ (s.proc i).now, n ≤ s.shared.clock ∧
    ∀ a ∈ s.shared.starts, a.replica = env.replica i → a.now ≤ n
  past : ∀ a ∈ s.shared.starts, a.now ≤ s.shared.clock
  ran : ∀ a ∈ s.shared.starts, a.number ∈ s.shared.finished →
    ∃ last ∈ (s.shared.replica a.replica).lastRunAt, a.now ≤ last
  asked : ∀ i, ∀ n ∈ (s.proc i).asking, scheduled (s.shared.replica (env.replica i)).queue = [] ∧
    ∀ a ∈ s.shared.starts, a.replica = env.replica i → a.number ∈ s.shared.finished →
      a.now + env.interval ≤ n
  due : ∀ r, ∀ job ∈ scheduled (s.shared.replica r).queue, job.grantedAt ≤ job.dueAt
  timed : ∀ i, (s.proc i).Timed
  closed : ∀ k ∈ s.shared.finished, k < s.shared.starts.length

structure Sound (env : Env ι ρ) (s : System ι (Shared ρ) Stage) : Prop where
  lone : Lone env s
  turns : Turns env s
  token : ∀ P n, Token env s n P → n ≤ s.shared.clock ∧ Held env s.shared (P.replica env) n ∧
    ∀ a ∈ s.shared.starts, Past env s.shared (P.replica env) n a
  held : ∀ a ∈ s.shared.starts, a.number ∉ s.shared.finished →
    Held env s.shared a.replica a.grantedAt
  executing : ∀ a ∈ s.shared.starts, a.number ∉ s.shared.finished → s.shared.Live a.replica →
    ∃ i, env.replica i = a.replica ∧ (s.proc i).number = some a.number
  numbered : ∀ i, ∀ k ∈ (s.proc i).number, k < s.shared.starts.length ∧
    ∀ a ∈ s.shared.starts, a.number = k → a.replica = env.replica i
  fresh : ∀ a ∈ s.shared.starts, a.number < s.shared.starts.length
  apart : s.shared.starts.Pairwise (Apart env s.shared)

omit [DecidableEq ι] [DecidableEq ρ] in
/-- A change under which no tick starts and no executor is called or comes back. -/
theorem Turns.mono (h : Turns env s) (hclock : s.shared.clock ≤ t.shared.clock)
    (hstarts : t.shared.starts = s.shared.starts) (hfinished : t.shared.finished = s.shared.finished)
    (hnow : ∀ j, ∀ n ∈ (t.proc j).now, n ∈ (s.proc j).now)
    (hasking : ∀ j, ∀ n ∈ (t.proc j).asking, n ∈ (s.proc j).asking ∧
      scheduled (t.shared.replica (env.replica j)).queue = [])
    (htimed : ∀ j, (t.proc j).Timed)
    (hdue : ∀ r, ∀ job ∈ scheduled (t.shared.replica r).queue, job.grantedAt ≤ job.dueAt)
    (hran : ∀ a ∈ s.shared.starts, a.number ∈ s.shared.finished →
      ∃ last ∈ (t.shared.replica a.replica).lastRunAt, a.now ≤ last) : Turns env t := by
  have hsome : ∀ j, (t.proc j).now.isSome = true → (s.proc j).now.isSome = true := by
    intro j hj
    obtain ⟨n, hn⟩ := Option.isSome_iff_exists.mp hj
    exact Option.isSome_of_mem (hnow j n hn)
  refine ⟨?_, ?_, ?_, ?_, ?_, hdue, htimed, ?_⟩
  · intro i j hij hi hj
    exact h.alone i j hij (hsome i hi) (hsome j hj)
  · intro j n hn
    rw [hstarts]
    obtain ⟨hle, hbefore⟩ := h.recent j n (hnow j n hn)
    exact ⟨hle.trans hclock, hbefore⟩
  · rw [hstarts]
    exact fun a ha => (h.past a ha).trans hclock
  · rw [hstarts, hfinished]
    exact hran
  · intro j n hn
    rw [hstarts, hfinished]
    obtain ⟨hbefore, hempty⟩ := hasking j n hn
    exact ⟨hempty, (h.asked j n hbefore).2⟩
  · rw [hstarts, hfinished]
    exact h.closed

omit [DecidableEq ι] in
/-- What a replica knows of its last run, when another may change. -/
theorem Turns.ran_set (h : Turns env s)
    (hran : ∀ a ∈ s.shared.starts, a.replica = r → a.number ∈ s.shared.finished →
      ∃ last ∈ u.lastRunAt, a.now ≤ last) (a : Start ρ) (ha : a ∈ s.shared.starts)
    (hfinished : a.number ∈ s.shared.finished) :
    ∃ last ∈ ((s.shared.set r u).replica a.replica).lastRunAt, a.now ≤ last := by
  by_cases hr : a.replica = r
  · rw [hr, Shared.set_replica_self]
    exact hran a ha hr hfinished
  · rw [Shared.set_replica_other hr]
    exact h.ran a ha hfinished

omit [DecidableEq ι] [DecidableEq ρ] in
/-- Nothing changes for a replica that keeps its last run. -/
theorem Turns.ran_kept (h : Turns env s) (hlast : u.lastRunAt = (s.shared.replica r).lastRunAt)
    (a : Start ρ) (ha : a ∈ s.shared.starts) (hr : a.replica = r)
    (hfinished : a.number ∈ s.shared.finished) : ∃ last ∈ u.lastRunAt, a.now ≤ last := by
  rw [hlast, ← hr]
  exact h.ran a ha hfinished

omit [DecidableEq ι] in
/-- A change that leaves the clock, the lease and the starts alone. Unstarted jobs stay in their
    replica. -/
theorem Sound.carry (h : Sound env s) (stages : ι → Stage)
    (hcrash : u.crashed = (s.shared.replica r).crashed)
    (hnumber : ∀ j, (stages j).number = (s.proc j).number)
    (hlone : Lone env ⟨s.shared.set r u, stages⟩) (hturns : Turns env ⟨s.shared.set r u, stages⟩)
    (htoken : ∀ P n, Token env ⟨s.shared.set r u, stages⟩ n P →
      ∃ P', P'.replica env = P.replica env ∧ Token env s n P') :
    Sound env ⟨s.shared.set r u, stages⟩ := by
  have hpast : ∀ r' n a, Past env s.shared r' n a → Past env (s.shared.set r u) r' n a := by
    intro r' n a ha
    exact ha.imp_right fun hrest => hrest.imp_right fun hgone =>
      ⟨(Shared.abandoned_set hcrash).mpr hgone.1, hgone.2⟩
  refine ⟨hlone, hturns, ?_, h.held, ?_, ?_, h.fresh, ?_⟩
  · intro P n hP
    obtain ⟨P', hreplica, hbefore⟩ := htoken P n hP
    obtain ⟨hle, hheld, hstarts⟩ := h.token P' n hbefore
    rw [hreplica] at hheld hstarts
    exact ⟨hle, hheld, fun a ha => hpast _ n a (hstarts a ha)⟩
  · intro a ha hopen hlive
    obtain ⟨j, hj, hrunning⟩ := h.executing a ha hopen ((Shared.live_set hcrash).mp hlive)
    exact ⟨j, hj, (hnumber j).trans hrunning⟩
  · intro j k hk
    rw [hnumber j] at hk
    exact h.numbered j k hk
  · refine h.apart.imp ?_
    intro b a hba
    exact hba.imp_right fun hgone => ⟨(Shared.abandoned_set hcrash).mpr hgone.1, hgone.2⟩

/-- A stage with no more of a scheduled job than another. -/
structure Stage.Follows (q p : Stage) : Prop where
  number : q.number = p.number
  asking : ∀ n ∈ q.asking, n ∈ p.asking
  unstarted : ∀ n, q.unstarted = some n → p.unstarted = some n
  busy : q.busy = true → p.busy = true
  now : ∀ n ∈ q.now, n ∈ p.now
  timed : p.Timed → q.Timed

theorem Stage.Follows.rfl : p.Follows p :=
  ⟨Eq.refl _, fun _ hn => hn, fun _ hn => hn, fun hbusy => hbusy, fun _ hn => hn,
    fun htimed => htimed⟩

/-- A tick that neither has a scheduled job any more nor asks for the lease. -/
theorem Stage.Follows.of_jobless (hp : p.number = none) (hnow : q.now = p.now)
    (hbusy : q.busy = false) (hasking : q.asking = none) (htimed : q.Timed) : q.Follows p := by
  have hfree : q.busy ≠ true := by
    rw [hbusy]
    nofun
  refine ⟨?_, ?_, ?_, fun h => absurd h hfree, ?_, fun _ => htimed⟩
  · rw [hp]
    exact Option.eq_none_iff_forall_ne_some.mpr fun n hn => hfree (busy_of_number hn)
  · rw [hasking]
    nofun
  · exact fun n hn => absurd (busy_of_unstarted hn) hfree
  · rw [hnow]
    exact fun _ hn => hn

omit [DecidableEq ι] in
/-- A change that moves no scheduled job. -/
theorem Sound.quiet (h : Sound env s) {stages : ι → Stage}
    (hcrash : u.crashed = (s.shared.replica r).crashed)
    (hqueue : (scheduled u.queue).Perm (scheduled (s.shared.replica r).queue))
    (hran : ∀ a ∈ s.shared.starts, a.replica = r → a.number ∈ s.shared.finished →
      ∃ last ∈ u.lastRunAt, a.now ≤ last)
    (hstages : ∀ j, (stages j).Follows (s.proc j)) :
    Sound env ⟨s.shared.set r u, stages⟩ := by
  have hlive : ∀ r', (s.shared.set r u).Live r' → s.shared.Live r' :=
    fun r' => (Shared.live_set hcrash).mp
  have hqueues : ∀ r', (scheduled ((s.shared.set r u).replica r').queue).Perm
      (scheduled (s.shared.replica r').queue) := by
    intro r'
    by_cases hr : r' = r
    · rw [hr, Shared.set_replica_self]
      exact hqueue
    · rw [Shared.set_replica_other hr]
  apply h.carry stages hcrash (fun j => (hstages j).number)
  · apply h.lone.mono (t := ⟨s.shared.set r u, stages⟩) rfl
    · intro P hP
      cases P with
      | tick j => exact ⟨hlive _ hP.1, (hstages j).busy hP.2⟩
      | queue r' =>
        refine ⟨hlive _ hP.1, ?_⟩
        intro hnil
        have hperm := hqueues r'
        rw [hnil] at hperm
        exact hP.2 hperm.eq_nil
    · intro r' hr'
      rw [(hqueues r').length_eq]
      exact h.lone.single r' (hlive r' hr')
  · refine h.turns.mono le_rfl rfl rfl (fun j => (hstages j).now) ?_
      (fun j => (hstages j).timed (h.turns.timed j)) ?_ (h.turns.ran_set hran)
    · intro j n hn
      have hbefore := (hstages j).asking n hn
      have hempty := hqueues (env.replica j)
      rw [(h.turns.asked j n hbefore).1] at hempty
      exact ⟨hbefore, hempty.eq_nil⟩
    · intro r' job hjob
      exact h.turns.due r' job ((hqueues r').mem_iff.mp hjob)
  · intro P n hP
    refine ⟨P, rfl, ?_⟩
    cases P with
    | tick j => exact ⟨hlive _ hP.1, (hstages j).unstarted n hP.2⟩
    | queue r' =>
      obtain ⟨hr', job, hjob, hgranted⟩ := hP
      exact ⟨hlive _ hr', job, (hqueues r').mem_iff.mp hjob, hgranted⟩

/-- A tick goes on without moving a scheduled job. -/
theorem Sound.goOn (h : Sound env s) (hcrash : u.crashed = (s.shared.replica r).crashed)
    (hqueue : scheduled u.queue = scheduled (s.shared.replica r).queue)
    (hran : ∀ a ∈ s.shared.starts, a.replica = r → a.number ∈ s.shared.finished →
      ∃ last ∈ u.lastRunAt, a.now ≤ last)
    (hq : q.Follows (s.proc i)) : Sound env (s.put (s.shared.set r u) i q) := by
  apply h.quiet hcrash (.of_eq hqueue) hran
  exact System.put_forall (x := s.shared.set r u)
    (P := fun j (q : Stage) => q.Follows (s.proc j)) hq fun j _ => .rfl

/-- A tick goes on and nothing else changes. -/
theorem Sound.keep (h : Sound env s) (hq : q.Follows (s.proc i)) :
    Sound env (s.put s.shared i q) := by
  have hgoes := h.goOn (r := env.replica i) rfl rfl (h.turns.ran_kept rfl) hq
  rw [Shared.set_self] at hgoes
  exact hgoes

/-! ## A scheduled job moves -/

omit [DecidableEq ρ] in
/-- A step that leaves the replicas alone, of a tick that keeps its job or gives it up. -/
theorem Lone.stay (h : Lone env s) (hreplica : y.replica = s.shared.replica)
    (hlease : y.lease = s.shared.lease) (hbusy : q.busy = true → (s.proc i).busy = true) :
    Lone env (s.put y i q) := by
  have hlive : ∀ r, y.Live r → s.shared.Live r := by
    intro r hr
    unfold Shared.Live at hr
    rw [hreplica] at hr
    exact hr
  apply h.mono hlease
  · intro P hP
    cases P with
    | tick j =>
      obtain ⟨hjlive, hjbusy⟩ := hP
      by_cases hj : j = i
      · rw [hj, System.put_self] at hjbusy
        rw [hj] at hjlive ⊢
        exact ⟨hlive _ hjlive, hbusy hjbusy⟩
      · rw [System.put_other hj] at hjbusy
        exact ⟨hlive _ hjlive, hjbusy⟩
    | queue r =>
      obtain ⟨hr, hqueue⟩ := hP
      rw [System.put_shared, hreplica] at hqueue
      exact ⟨hlive r hr, hqueue⟩
  · intro r hr
    rw [System.put_shared, hreplica]
    exact h.single r (hlive r hr)

omit [DecidableEq ρ] in
/-- Once the only job has started, none is left to start. -/
theorem Lone.token_gone {P : Place ι ρ} (h : Lone env s) (hreplica : y.replica = s.shared.replica)
    (hbusy : Busy env s (.tick i)) (hq : q.unstarted = none) :
    ¬ Token env (s.put y i q) n P := by
  have hlive : ∀ r, y.Live r → s.shared.Live r := by
    intro r hr
    unfold Shared.Live at hr
    rw [hreplica] at hr
    exact hr
  intro hP
  cases P with
  | tick j =>
    obtain ⟨hjlive, hn⟩ := hP
    by_cases hj : j = i
    · rw [hj, System.put_self, hq] at hn
      cases hn
    · rw [System.put_other hj] at hn
      have htoken : Token env s n (.tick j) := ⟨hlive _ hjlive, hn⟩
      have hsame := h.place (.tick j) (.tick i) (busy_of_token htoken) hbusy
      cases hsame
      exact hj rfl
  | queue r =>
    obtain ⟨hr, job, hjob, hgranted⟩ := hP
    rw [System.put_shared, hreplica] at hjob
    have htoken : Token env s n (.queue r) := ⟨hlive r hr, job, hjob, hgranted⟩
    exact absurd (h.place (.queue r) (.tick i) (busy_of_token htoken) hbusy) nofun

/-- A tick goes on, with a new queue for its replica, where no other tick is under way. -/
theorem Turns.replace (h : Turns env s) (hi : (s.proc i).now.isSome = true)
    (hnow : ∀ n ∈ q.now, n ∈ (s.proc i).now) (hasking : ∀ n, n ∉ q.asking) (htimed : q.Timed)
    (hdue : ∀ job ∈ scheduled u.queue, job.grantedAt ≤ job.dueAt)
    (hran : ∀ a ∈ s.shared.starts, a.replica = env.replica i → a.number ∈ s.shared.finished →
      ∃ last ∈ u.lastRunAt, a.now ≤ last) :
    Turns env (s.put (s.shared.set (env.replica i) u) i q) := by
  refine h.mono le_rfl rfl rfl ?_ ?_ ?_ ?_ (h.ran_set hran)
  · exact System.put_forall (x := s.shared.set (env.replica i) u)
      (P := fun j (q : Stage) => ∀ n ∈ q.now, n ∈ (s.proc j).now) hnow fun j _ n hn => hn
  · intro j n hn
    by_cases hj : j = i
    · rw [hj, System.put_self] at hn
      exact absurd hn (hasking n)
    · rw [System.put_other hj] at hn
      have hother : env.replica j ≠ env.replica i := by
        intro hsame
        exact hj (h.alone j i hsame (Option.isSome_of_mem (Stage.now_of_asking hn)) hi)
      rw [System.put_shared, Shared.set_replica_other hother]
      exact ⟨hn, (h.asked j n hn).1⟩
  · exact System.put_forall (x := s.shared.set (env.replica i) u)
      (P := fun _ (q : Stage) => q.Timed) htimed fun j _ => h.timed j
  · intro r job hjob
    rw [System.put_shared] at hjob
    by_cases hr : r = env.replica i
    · rw [hr, Shared.set_replica_self] at hjob
      exact hdue job hjob
    · rw [Shared.set_replica_other hr] at hjob
      exact h.due r job hjob

/-- The job a tick got the lease for is queued. -/
theorem Sound.emit (h : Sound env s) (hlive : s.shared.Live (env.replica i))
    (hi : s.proc i = .emitting now true)
    (hcrash : u.crashed = (s.shared.replica (env.replica i)).crashed)
    (hlast : u.lastRunAt = (s.shared.replica (env.replica i)).lastRunAt)
    (hadded : u.queue = ((s.shared.replica (env.replica i)).queue ++
      [RebalanceJob.mk .scheduled s.shared.clock now]).mergeSort RebalanceJob.before) :
    Sound env (s.put (s.shared.set (env.replica i) u) i (.looping now)) := by
  have hbusy : Busy env s (.tick i) := ⟨hlive, by rw [hi]; rfl⟩
  have hnone : scheduled (s.shared.replica (env.replica i)).queue = [] := by
    by_contra hsome
    exact absurd (h.lone.place (.queue (env.replica i)) (.tick i) ⟨hlive, hsome⟩ hbusy) nofun
  have hqueue : scheduled u.queue = [⟨.scheduled, s.shared.clock, now⟩] := by
    rw [hadded]
    refine List.perm_singleton.mp (((List.mergeSort_perm _ _).filter _).trans (.of_eq ?_))
    rw [List.filter_append]
    show scheduled _ ++ _ = _
    rw [hnone]
    rfl
  apply h.carry _ hcrash
  · exact System.put_forall (x := s.shared.set (env.replica i) u)
      (P := fun j (q : Stage) => q.number = (s.proc j).number) (by rw [hi]; rfl) fun _ _ => rfl
  · have hreplica : (Place.queue (env.replica i)).replica env = (Place.tick i).replica env := rfl
    refine h.lone.move (t := s.put (s.shared.set (env.replica i) u) i (.looping now)) rfl hbusy
      hreplica ?_ ?_
    · intro P hP
      rcases busy_put hcrash hP with ⟨-, hq⟩ | ⟨rfl, -⟩ | ⟨hne, -, hbefore⟩
      · cases hq
      · exact .inl rfl
      · exact .inr ⟨hne, hbefore⟩
    · apply single_put h.lone hcrash
      intro _
      rw [hqueue]
      rfl
  · refine h.turns.replace (by rw [hi]; rfl) (by rw [hi]; exact fun _ hn => hn) nofun trivial ?_
      (h.turns.ran_kept hlast)
    intro job hjob
    rw [hqueue] at hjob
    obtain rfl := List.mem_singleton.mp hjob
    exact (h.turns.recent i now (by rw [hi]; rfl)).1
  · intro P n hP
    rcases token_put hcrash hP with ⟨-, hq⟩ | ⟨rfl, job, hjob, hgranted⟩ | hbefore
    · cases hq
    · rw [hqueue] at hjob
      obtain rfl := List.mem_singleton.mp hjob
      obtain rfl : now = n := hgranted
      exact ⟨.tick i, rfl, hlive, by rw [hi]; rfl⟩
    · exact ⟨P, rfl, hbefore⟩

/-- A tick takes the scheduled job from its replica's queue. -/
theorem Sound.pop (h : Sound env s) (hlive : s.shared.Live (env.replica i))
    (hi : s.proc i = .looping now) {rest : List RebalanceJob} (hjob : job.trigger = .scheduled)
    (hqueue : (s.shared.replica (env.replica i)).queue = job :: rest) (hdue : job.dueAt ≤ now)
    (hcrash : u.crashed = (s.shared.replica (env.replica i)).crashed)
    (hlast : u.lastRunAt = (s.shared.replica (env.replica i)).lastRunAt) (hrest : u.queue = rest) :
    Sound env (s.put (s.shared.set (env.replica i) u) i (.pricing now job)) := by
  have hfirst : scheduled (s.shared.replica (env.replica i)).queue = job :: scheduled rest := by
    rw [hqueue]
    simp [scheduled, hjob]
  have hnone : scheduled u.queue = [] := by
    have hsingle := h.lone.single _ hlive
    rw [hfirst, List.length_cons] at hsingle
    rw [hrest]
    exact List.length_eq_zero_iff.mp (by omega)
  have hbusy : Busy env s (.queue (env.replica i)) := ⟨hlive, by rw [hfirst]; nofun⟩
  apply h.carry _ hcrash
  · exact System.put_forall (x := s.shared.set (env.replica i) u)
      (P := fun j (q : Stage) => q.number = (s.proc j).number) (by rw [hi]; rfl) fun _ _ => rfl
  · have hreplica : (Place.tick i).replica env = (Place.queue (env.replica i)).replica env := rfl
    refine h.lone.move (t := s.put (s.shared.set (env.replica i) u) i (.pricing now job)) rfl hbusy
      hreplica ?_ ?_
    · intro P hP
      rcases busy_put hcrash hP with ⟨rfl, -⟩ | ⟨-, hnonempty⟩ | ⟨-, hne, hbefore⟩
      · exact .inl rfl
      · exact absurd hnone hnonempty
      · exact .inr ⟨hne, hbefore⟩
    · apply single_put h.lone hcrash
      intro _
      rw [hnone]
      exact Nat.zero_le _
  · have hgranted : job.grantedAt ≤ job.dueAt :=
      h.turns.due (env.replica i) job (by rw [hfirst]; exact List.mem_cons_self)
    refine h.turns.replace (by rw [hi]; rfl) (by rw [hi]; exact fun _ hn => hn) nofun
      (hgranted.trans hdue) ?_ (h.turns.ran_kept hlast)
    rw [hnone]
    nofun
  · intro P n hP
    rcases token_put hcrash hP with ⟨rfl, hq⟩ | ⟨-, other, hother, -⟩ | hbefore
    · simp only [Stage.unstarted, hjob, if_true, Option.some.injEq] at hq
      exact ⟨.queue (env.replica i), rfl, hlive, job, by rw [hfirst]; exact List.mem_cons_self, hq⟩
    · rw [hnone] at hother
      cases hother
    · exact ⟨P, rfl, hbefore⟩

/-! ## The lease is granted, the executor runs, the lease is released -/

omit [DecidableEq ι] in
/-- The store grants the lease: nobody has a scheduled job, as a running replica with one owns the
    lease, and this one would not ask. -/
theorem Sound.nobody (h : Sound env s) (htakes : TakesOver env s i)
    (hfree : s.shared.Free (env.replica i)) (hasked : now ∈ (s.proc i).asking)
    (hbusy : (s.proc i).busy = false) (P : Place ι ρ) : ¬ Busy env s P := by
  intro hP
  obtain ⟨lease, hlease, howner⟩ := h.lone.owner P hP
  by_cases hown : P.replica env = env.replica i
  · cases P with
    | tick j =>
      have hsame := h.turns.alone j i hown (Stage.now_of_busy hP.2)
        (Option.isSome_of_mem (Stage.now_of_asking hasked))
      have hjbusy := hP.2
      rw [hsame, hbusy] at hjbusy
      cases hjbusy
    | queue r =>
      have hempty := (h.turns.asked i now hasked).1
      rw [← hown] at hempty
      exact hP.2 hempty
  · rcases hfree lease hlease with hexpired | hsame
    · have hlive : s.shared.Live lease.1 := by
        rw [howner]
        cases P with
        | tick j => exact hP.1
        | queue r => exact hP.1
      rcases htakes.1 lease hlease hexpired hlive with hsame | hidle
      · exact hown (howner.symm.trans hsame)
      · rw [howner] at hidle
        exact hidle (working_of_busy hP)
    · exact hown (howner.symm.trans hsame)

omit [DecidableEq ι] [DecidableEq ρ] in
/-- What `lastRunAt` says of the replica's own starts, and the condition of those of the others. -/
theorem Sound.starts_past (h : Sound env s) (hlive : s.shared.Live (env.replica i))
    (htakes : TakesOver env s i) (hasked : now ∈ (s.proc i).asking) (hbusy : (s.proc i).busy = false)
    (a : Start ρ) (ha : a ∈ s.shared.starts) :
    a.time + env.interval ≤ now ∨ (a.replica = env.replica i ∧ a.now + env.interval ≤ now) ∨
      s.shared.Abandoned a := by
  rcases htakes.2 now hasked a ha with hown | habandoned | hbefore
  · refine .inr (.inl ⟨hown, (h.turns.asked i now hasked).2 a ha hown ?_⟩)
    by_contra hopen
    obtain ⟨j, hj, hnumber⟩ := h.executing a ha hopen (by rw [hown]; exact hlive)
    have hjbusy := Stage.busy_of_number hnumber
    have hsame := h.turns.alone j i (hj.trans hown) (Stage.now_of_busy hjbusy)
      (Option.isSome_of_mem (Stage.now_of_asking hasked))
    rw [hsame, hbusy] at hjbusy
    cases hjbusy
  · exact .inr (.inr habandoned)
  · exact .inl hbefore

/-- The store grants the lease while nobody has a scheduled job. -/
theorem Sound.grant (h : Sound env s) (hlive : s.shared.Live (env.replica i))
    (htakes : TakesOver env s i) (hfree : s.shared.Free (env.replica i))
    (hasked : now ∈ (s.proc i).asking) (hbusy : (s.proc i).busy = false)
    (hunstarted : q.unstarted = some now) (hasking : ∀ n ∈ q.asking, n ∈ (s.proc i).asking)
    (hnow : q.now = some now) (htimed : q.Timed) (hnumber : q.number = none) :
    Sound env (s.put (s.shared.grant (env.replica i) (now + env.leaseTtlMs)) i q) := by
  have hnobody := h.nobody htakes hfree hasked hbusy
  have hpast := h.starts_past hlive htakes hasked hbusy
  have hidle : ∀ j, s.shared.Live (env.replica j) → (s.proc j).busy = false := by
    intro j hj
    exact Bool.eq_false_iff.mpr fun hjbusy => hnobody (.tick j) ⟨hj, hjbusy⟩
  have hplace : ∀ P, Busy env (s.put (s.shared.grant (env.replica i) (now + env.leaseTtlMs)) i q) P →
      P = .tick i := by
    intro P hP
    cases P with
    | tick j =>
      by_cases hj : j = i
      · rw [hj]
      · obtain ⟨hjlive, hbusy⟩ := hP
        rw [System.put_other hj, hidle j hjlive] at hbusy
        cases hbusy
    | queue r => exact absurd hP (hnobody (.queue r))
  -- an open start belongs to a crashed replica, so its lease has expired
  have hexpired : ∀ a ∈ s.shared.starts, a.number ∉ s.shared.finished →
      a.grantedAt + env.leaseTtlMs ≤ s.shared.clock := by
    intro a ha hopen
    by_cases hrunning : s.shared.Live a.replica
    · obtain ⟨j, hj, hnumber⟩ := h.executing a ha hopen hrunning
      rw [← hj] at hrunning
      have hbusy := Stage.busy_of_number hnumber
      rw [hidle j hrunning] at hbusy
      cases hbusy
    · rcases h.held a ha hopen with hpassed | hlease
      · exact hpassed
      · rcases hfree _ hlease with hpassed | howner
        · exact hpassed
        · have hsame : a.replica = env.replica i := howner
          rw [hsame] at hrunning
          exact absurd hlive hrunning
  refine ⟨⟨?_, ?_, ?_⟩, ?_, ?_, ?_, ?_, ?_, h.fresh, h.apart⟩
  · intro P Q hP hQ
    rw [hplace P hP, hplace Q hQ]
  · exact h.lone.single
  · intro P hP
    rw [hplace P hP]
    exact ⟨(env.replica i, now + env.leaseTtlMs), rfl, rfl⟩
  · refine h.turns.mono le_rfl rfl rfl ?_ ?_ ?_ h.turns.due h.turns.ran
    · refine System.put_forall (x := s.shared.grant (env.replica i) (now + env.leaseTtlMs))
        (P := fun j (q : Stage) => ∀ n ∈ q.now, n ∈ (s.proc j).now) ?_ fun j _ n hn => hn
      intro n hn
      rw [hnow] at hn
      obtain rfl := Option.some.inj hn
      exact Stage.now_of_asking hasked
    · exact System.put_forall (x := s.shared.grant (env.replica i) (now + env.leaseTtlMs))
        (P := fun j (q : Stage) => ∀ n ∈ q.asking, n ∈ (s.proc j).asking ∧
          scheduled (s.shared.replica (env.replica j)).queue = [])
        (fun n hn => ⟨hasking n hn, (h.turns.asked i n (hasking n hn)).1⟩)
        fun j _ n hn => ⟨hn, (h.turns.asked j n hn).1⟩
    · exact System.put_forall (x := s.shared.grant (env.replica i) (now + env.leaseTtlMs))
        (P := fun _ (q : Stage) => q.Timed) htimed fun j _ => h.turns.timed j
  · intro P n hP
    obtain rfl := hplace P (busy_of_token hP)
    obtain ⟨-, hn⟩ := hP
    rw [System.put_self, hunstarted, Option.some.injEq] at hn
    subst hn
    refine ⟨(h.turns.recent i now (Stage.now_of_asking hasked)).1, .inr rfl, ?_⟩
    intro a ha
    rcases hpast a ha with hbefore | hown | habandoned
    · exact .inl hbefore
    · exact .inr (.inl hown)
    · exact .inr (.inr ⟨habandoned, hexpired a ha habandoned.2⟩)
  · intro a ha hopen
    exact .inl (hexpired a ha hopen)
  · intro a ha hopen hrunning
    obtain ⟨j, hj, hnumber⟩ := h.executing a ha hopen hrunning
    have hbusy := Stage.busy_of_number hnumber
    have hjlive : s.shared.Live (env.replica j) := by
      rw [hj]
      exact hrunning
    rw [hidle j hjlive] at hbusy
    cases hbusy
  · exact System.put_forall (x := s.shared.grant (env.replica i) (now + env.leaseTtlMs))
      (P := fun j (q : Stage) => ∀ k ∈ q.number, k < s.shared.starts.length ∧
        ∀ a ∈ s.shared.starts, a.number = k → a.replica = env.replica j)
      (by rw [hnumber]; nofun) fun j _ => h.numbered j

omit [DecidableEq ρ] in
/-- A tick calls the executor for a scheduled job. -/
theorem Turns.start (h : Turns env s) (hi : (s.proc i).now = some now) :
    Turns env (s.put { s.shared with starts :=
      ⟨s.shared.starts.length, env.replica i, s.shared.clock, now, job.grantedAt⟩ :: s.shared.starts }
      i (.executing now job s.shared.starts.length)) := by
  have hsome : (s.proc i).now.isSome = true := Option.isSome_of_mem hi
  have hnew : ∀ k ∈ s.shared.finished, s.shared.starts.length ≠ k :=
    fun k hk => (h.closed k hk).ne'
  refine ⟨?_, ?_, ?_, ?_, ?_, h.due, ?_, ?_⟩
  · intro j j' hsame hj hj'
    refine h.alone j j' hsame ?_ ?_
    · by_cases hji : j = i
      · rw [hji]
        exact hsome
      · rwa [System.put_other hji] at hj
    · by_cases hji : j' = i
      · rw [hji]
        exact hsome
      · rwa [System.put_other hji] at hj'
  · intro j n hn
    have hbefore : n ∈ (s.proc j).now := by
      by_cases hj : j = i
      · rw [hj, System.put_self] at hn
        rw [hj, hi]
        exact hn
      · rwa [System.put_other hj] at hn
    obtain ⟨hle, hstarts⟩ := h.recent j n hbefore
    refine ⟨hle, ?_⟩
    intro a ha hown
    rcases List.mem_cons.mp ha with rfl | hold
    · obtain rfl := h.alone i j hown hsome (Option.isSome_of_mem hbefore)
      rw [hi] at hbefore
      exact (Option.some.inj hbefore).le
    · exact hstarts a hold hown
  · intro a ha
    rcases List.mem_cons.mp ha with rfl | hold
    · exact (h.recent i now hi).1
    · exact h.past a hold
  · intro a ha hfinished
    rcases List.mem_cons.mp ha with rfl | hold
    · exact absurd rfl (hnew _ hfinished)
    · exact h.ran a hold hfinished
  · intro j n hn
    by_cases hj : j = i
    · rw [hj, System.put_self] at hn
      cases hn
    · rw [System.put_other hj] at hn
      obtain ⟨hempty, hstarts⟩ := h.asked j n hn
      refine ⟨hempty, ?_⟩
      intro a ha hown hfinished
      rcases List.mem_cons.mp ha with rfl | hold
      · exact absurd rfl (hnew _ hfinished)
      · exact hstarts a hold hown hfinished
  · exact System.put_forall (x := s.shared) (P := fun _ (q : Stage) => q.Timed) trivial
      fun j _ => h.timed j
  · intro k hk
    exact Nat.lt_succ_of_lt (h.closed k hk)

/-- The executor is called for a scheduled job. -/
theorem Sound.start (h : Sound env s) (hlive : s.shared.Live (env.replica i))
    (hi : s.proc i = .pricing now job) (hjob : job.trigger = .scheduled)
    (hpunctual : Punctual env s.shared i now) :
    Sound env (s.put { s.shared with starts :=
      ⟨s.shared.starts.length, env.replica i, s.shared.clock, now, job.grantedAt⟩ :: s.shared.starts }
      i (.executing now job s.shared.starts.length)) := by
  have hbusy : Busy env s (.tick i) := ⟨hlive, by rw [hi]; simp [Stage.busy, hjob]⟩
  have hnumber : (Stage.executing now job s.shared.starts.length).number =
      some s.shared.starts.length := by simp [Stage.number, hjob]
  obtain ⟨hle, hheld, hpast⟩ := h.token (.tick i) job.grantedAt
    ⟨hlive, by rw [hi]; simp [Stage.unstarted, hjob]⟩
  have htimed : job.grantedAt ≤ now := by
    have hstage := h.turns.timed i
    rw [hi] at hstage
    exact hstage
  refine ⟨?_, ?_, ?_, ?_, ?_, ?_, ?_, ?_⟩
  · exact h.lone.stay rfl rfl fun _ => hbusy.2
  · exact h.turns.start (by rw [hi]; rfl)
  · intro P n hP
    exact absurd hP (h.lone.token_gone rfl hbusy rfl)
  · intro a ha hopen
    rcases List.mem_cons.mp ha with rfl | hold
    · exact hheld
    · exact h.held a hold hopen
  · intro a ha hopen hrunning
    rcases List.mem_cons.mp ha with rfl | hold
    · exact ⟨i, rfl, by rw [System.put_self]; exact hnumber⟩
    · obtain ⟨j, hj, hjnumber⟩ := h.executing a hold hopen hrunning
      have hne : j ≠ i := by
        rintro rfl
        rw [hi] at hjnumber
        cases hjnumber
      exact ⟨j, hj, by rw [System.put_other hne]; exact hjnumber⟩
  · intro j k hk
    by_cases hj : j = i
    · rw [hj, System.put_self, hnumber] at hk
      obtain rfl := Option.some.inj hk
      refine ⟨Nat.lt_succ_self _, ?_⟩
      intro a ha hsame
      rcases List.mem_cons.mp ha with rfl | hold
      · rw [hj]
      · have hlt := h.fresh a hold
        omega
    · rw [System.put_other hj] at hk
      obtain ⟨hlt, hsame⟩ := h.numbered j k hk
      refine ⟨Nat.lt_succ_of_lt hlt, ?_⟩
      intro a ha hak
      rcases List.mem_cons.mp ha with rfl | hold
      · have hnew : s.shared.starts.length = k := hak
        omega
      · exact hsame a hold hak
  · intro a ha
    rcases List.mem_cons.mp ha with rfl | hold
    · exact Nat.lt_succ_self _
    · exact Nat.lt_succ_of_lt (h.fresh a hold)
  · refine List.pairwise_cons.mpr ⟨?_, h.apart⟩
    intro a ha
    rcases hpast a ha with hbefore | ⟨hown, hbefore⟩ | habandoned
    · exact .inl (hbefore.trans hle)
    · have hdelay := hpunctual a ha hown
      left
      show a.time + env.interval ≤ s.shared.clock
      omega
    · exact .inr habandoned

omit [DecidableEq ρ] in
/-- The executor of a scheduled job has come back, and its replica has noted the run. -/
theorem Turns.finish (h : Turns env s) {k : ℕ} (hi : (s.proc i).now = some now)
    (hnumber : k < s.shared.starts.length)
    (hown : ∀ a ∈ s.shared.starts, a.number = k → a.replica = env.replica i)
    (hlast : (s.shared.replica (env.replica i)).lastRunAt = some now) :
    Turns env (s.put { s.shared with finished := k :: s.shared.finished } i (.releasing now)) := by
  have hsome : (s.proc i).now.isSome = true := Option.isSome_of_mem hi
  have hkept : Turns env (s.put s.shared i (.releasing now)) := by
    refine h.mono le_rfl rfl rfl ?_ ?_ ?_ h.due h.ran
    · exact System.put_forall (x := s.shared)
        (P := fun j (q : Stage) => ∀ n ∈ q.now, n ∈ (s.proc j).now)
        (by rw [hi]; exact fun _ hn => hn) fun j _ n hn => hn
    · exact System.put_forall (x := s.shared)
        (P := fun j (q : Stage) => ∀ n ∈ q.asking, n ∈ (s.proc j).asking ∧
          scheduled (s.shared.replica (env.replica j)).queue = [])
        nofun fun j _ n hn => ⟨hn, (h.asked j n hn).1⟩
    · exact System.put_forall (x := s.shared) (P := fun _ (q : Stage) => q.Timed) trivial
        fun j _ => h.timed j
  refine ⟨hkept.alone, hkept.recent, hkept.past, ?_, ?_, hkept.due, hkept.timed, ?_⟩
  · intro a ha hfinished
    rcases List.mem_cons.mp hfinished with hk | hold
    · refine ⟨now, ?_, (h.recent i now hi).2 a ha (hown a ha hk)⟩
      rw [hown a ha hk]
      exact hlast
    · exact h.ran a ha hold
  · intro j n hn
    by_cases hj : j = i
    · rw [hj, System.put_self] at hn
      cases hn
    · rw [System.put_other hj] at hn
      obtain ⟨hempty, hstarts⟩ := h.asked j n hn
      refine ⟨hempty, ?_⟩
      intro a ha hreplica hfinished
      rcases List.mem_cons.mp hfinished with hk | hold
      · have hsame := (hown a ha hk).symm.trans hreplica
        exact absurd (h.alone i j hsame hsome (Option.isSome_of_mem (Stage.now_of_asking hn))).symm hj
      · exact hstarts a ha hreplica hold
  · intro k' hk'
    rcases List.mem_cons.mp hk' with rfl | hold
    · exact hnumber
    · exact h.closed k' hold

omit [DecidableEq ρ] in
/-- The executor of a scheduled job has come back. -/
theorem Sound.finish (h : Sound env s) (hlive : s.shared.Live (env.replica i)) {k : ℕ}
    (hi : s.proc i = .executing now job k) (hjob : job.trigger = .scheduled)
    (hlast : (s.shared.replica (env.replica i)).lastRunAt = some now) :
    Sound env (s.put { s.shared with finished := k :: s.shared.finished } i (.releasing now)) := by
  have hbusy : Busy env s (.tick i) := ⟨hlive, by rw [hi]; simp [Stage.busy, hjob]⟩
  have hnumber : (s.proc i).number = some k := by
    rw [hi]
    simp [Stage.number, hjob]
  obtain ⟨hlt, hown⟩ := h.numbered i k hnumber
  refine ⟨?_, ?_, ?_, ?_, ?_, ?_, h.fresh, ?_⟩
  · exact h.lone.stay rfl rfl fun _ => hbusy.2
  · exact h.turns.finish (by rw [hi]; rfl) hlt hown hlast
  · intro P n hP
    exact absurd hP (h.lone.token_gone rfl hbusy rfl)
  · intro a ha hopen
    exact h.held a ha fun hfinished => hopen (List.mem_cons_of_mem _ hfinished)
  · intro a ha hopen hrunning
    obtain ⟨j, hj, hjnumber⟩ := h.executing a ha
      (fun hfinished => hopen (List.mem_cons_of_mem _ hfinished)) hrunning
    have hne : j ≠ i := by
      rintro rfl
      rw [hnumber, Option.some.injEq] at hjnumber
      rw [hjnumber] at hopen
      exact hopen List.mem_cons_self
    exact ⟨j, hj, by rw [System.put_other hne]; exact hjnumber⟩
  · exact System.put_forall (x := s.shared)
      (P := fun j (q : Stage) => ∀ k ∈ q.number, k < s.shared.starts.length ∧
        ∀ a ∈ s.shared.starts, a.number = k → a.replica = env.replica j)
      nofun fun j _ => h.numbered j
  · refine h.apart.imp_of_mem ?_
    intro b a _ ha hba
    refine hba.imp_right ?_
    rintro ⟨⟨hcrashed, hopen⟩, hexpired⟩
    refine ⟨⟨hcrashed, ?_⟩, hexpired⟩
    intro hfinished
    rcases List.mem_cons.mp hfinished with hk | hold
    · rw [hown a ha hk] at hcrashed
      exact hcrashed hlive
    · exact hopen hold

/-- The store drops the lease of the job's replica. -/
theorem Sound.release (h : Sound env s) (hlive : s.shared.Live (env.replica i))
    (hi : s.proc i = .releasing now) :
    Sound env (s.put (s.shared.release (env.replica i)) i (.released now)) := by
  have hkept : Sound env (s.put s.shared i (.released now)) :=
    h.keep (.of_jobless (by rw [hi]; rfl) (by rw [hi]; rfl) rfl rfl trivial)
  have hbusy : Busy env s (.tick i) := ⟨hlive, by rw [hi]; rfl⟩
  unfold Shared.release
  by_cases howns : s.shared.Owns (env.replica i)
  · rw [if_pos howns]
    refine ⟨⟨hkept.lone.place, hkept.lone.single, ?_⟩, ?_, ?_, ?_, hkept.executing,
      hkept.numbered, h.fresh, h.apart⟩
    · intro P hP
      exfalso
      cases P with
      | tick j =>
        obtain ⟨hjlive, hjbusy⟩ := hP
        by_cases hj : j = i
        · rw [hj, System.put_self] at hjbusy
          cases hjbusy
        · rw [System.put_other hj] at hjbusy
          have hsame := h.lone.place (.tick j) (.tick i) ⟨hjlive, hjbusy⟩ hbusy
          cases hsame
          exact hj rfl
      | queue r => exact absurd (h.lone.place (.queue r) (.tick i) hP hbusy) nofun
    · exact hkept.turns.mono le_rfl rfl rfl (fun _ _ hn => hn)
        (fun j n hn => ⟨hn, (hkept.turns.asked j n hn).1⟩) hkept.turns.timed hkept.turns.due
        hkept.turns.ran
    · intro P n hP
      exact absurd hP (h.lone.token_gone (y := { s.shared with lease := none }) rfl hbusy rfl)
    · intro a ha hopen
      rcases h.held a ha hopen with hexpired | hlease
      · exact .inl hexpired
      · obtain ⟨lease, hown, howner⟩ := howns
        have hsame : a.replica = env.replica i := by
          rw [Option.mem_def, hlease, Option.some.injEq] at hown
          rw [← howner, ← hown]
        have hrunning : s.shared.Live a.replica := by
          rw [hsame]
          exact hlive
        obtain ⟨j, hj, hnumber⟩ := h.executing a ha hopen hrunning
        have hplace := h.lone.place (.tick j) (.tick i)
          ⟨by rw [hj]; exact hrunning, Stage.busy_of_number hnumber⟩ hbusy
        cases hplace
        rw [hi] at hnumber
        cases hnumber
  · rw [if_neg howns]
    exact hkept

/-! ## A tick between two awaits -/

omit [DecidableEq ι] in
theorem drain_nil (hqueue : (x.replica (env.replica i)).queue = []) :
    drain env i x now = (x, .done) := by
  simp [drain, hqueue]

omit [DecidableEq ι] in
theorem drain_cons {rest : List RebalanceJob}
    (hqueue : (x.replica (env.replica i)).queue = job :: rest) :
    drain env i x now =
      if job.dueAt ≤ now ∧ (x.replica (env.replica i)).circuitBreakerTripped = false then
        runJob env i (x.set (env.replica i)
          { x.replica (env.replica i) with queue := rest }) now job
      else (x, .done) := by
  simp [drain, hqueue]

/-- The `while` loop: the first job is popped and, if no gas price is asked for, started. -/
theorem Sound.drain (h : Sound env s) (hlive : s.shared.Live (env.replica i))
    (hi : s.proc i = .looping now)
    (hpunctual : s.shared.Pending (env.replica i) → Punctual env s.shared i now) :
    Sound env (s.put (drain env i s.shared now).1 i (drain env i s.shared now).2) := by
  have hdone : Sound env (s.put s.shared i .done) :=
    h.keep ⟨by rw [hi]; rfl, nofun, nofun, nofun, nofun, fun _ => trivial⟩
  cases hqueue : (s.shared.replica (env.replica i)).queue with
  | nil =>
    rw [drain_nil hqueue]
    exact hdone
  | cons job rest =>
    rw [drain_cons hqueue]
    by_cases hdue : job.dueAt ≤ now ∧
        (s.shared.replica (env.replica i)).circuitBreakerTripped = false
    · rw [if_pos hdue, runJob]
      by_cases hjob : job.trigger = .scheduled
      · have hpop := h.pop hlive hi hjob hqueue hdue.1
          (u := { s.shared.replica (env.replica i) with queue := rest }) rfl rfl rfl
        by_cases hprice : job.trigger = .scheduled ∧ env.hasGasPriceProvider = true
        · rw [if_pos hprice]
          exact hpop
        · have hrunning : (s.shared.set (env.replica i)
              { s.shared.replica (env.replica i) with queue := rest }).Live (env.replica i) := by
            refine (Shared.live_set ?_).mpr hlive
            rfl
          have hpending : s.shared.Pending (env.replica i) :=
            ⟨job, by rw [hqueue]; exact List.mem_cons_self, hjob⟩
          have hstart := hpop.start hrunning System.put_self hjob (hpunctual hpending)
          rw [System.put_put] at hstart
          rw [if_neg hprice, execute, if_pos hjob]
          exact hstart
      · have hprice : ¬ (job.trigger = .scheduled ∧ env.hasGasPriceProvider = true) :=
          fun hboth => hjob hboth.1
        rw [if_neg hprice, execute, if_neg hjob]
        refine h.goOn ?_ ?_ (h.turns.ran_kept ?_) ⟨?_, nofun, nofun, ?_, ?_, fun _ => trivial⟩
        · rfl
        · rw [hqueue]
          simp [scheduled, hjob]
        · rfl
        · rw [hi]
          simp [Stage.number, hjob]
        · simp [Stage.busy, hjob]
        · rw [hi]
          exact fun _ hn => hn
    · rw [if_neg hdue]
      exact hdone

/-- The executor is called after the gas price was asked for. -/
theorem Sound.execute (h : Sound env s) (hlive : s.shared.Live (env.replica i))
    (hi : s.proc i = .pricing now job)
    (hpunctual : job.trigger = .scheduled → Punctual env s.shared i now) :
    Sound env (s.put (execute env i s.shared now job).1 i (execute env i s.shared now job).2) := by
  unfold Scheduler.execute
  by_cases hjob : job.trigger = .scheduled
  · rw [if_pos hjob]
    exact h.start hlive hi hjob (hpunctual hjob)
  · rw [if_neg hjob]
    refine h.keep (.of_jobless ?_ ?_ ?_ rfl trivial)
    · rw [hi]
      rfl
    · rw [hi]
      rfl
    · simp [Stage.busy, hjob]

/-- A tick goes into the `while` loop. -/
theorem Sound.loop (h : Sound env s) (hlive : s.shared.Live (env.replica i))
    (hnumber : (s.proc i).number = none) (hnow : (s.proc i).now = some now)
    (hpunctual : s.shared.Pending (env.replica i) → Punctual env s.shared i now) :
    Sound env (s.put (Scheduler.drain env i s.shared now).1 i
      (Scheduler.drain env i s.shared now).2) := by
  have hloops : Sound env (s.put s.shared i (.looping now)) :=
    h.keep (.of_jobless hnumber hnow.symm rfl rfl trivial)
  have hdrained := hloops.drain hlive System.put_self hpunctual
  rw [System.put_put] at hdrained
  exact hdrained

/-- A tick starts when no other one of its replica is under way. -/
theorem Sound.begin (h : Sound env s) (hi : s.proc i = .idle) (halone : Alone env s i) :
    Sound env (s.put s.shared i (.looping s.shared.clock)) := by
  have hloops := h.carry (r := env.replica i) (u := s.shared.replica (env.replica i))
    (s.put s.shared i (.looping s.shared.clock)).proc rfl
  rw [Shared.set_self] at hloops
  apply hloops
  · exact System.put_forall (x := s.shared)
      (P := fun j (q : Stage) => q.number = (s.proc j).number) (by rw [hi]; rfl) fun _ _ => rfl
  · exact h.lone.stay rfl rfl nofun
  · have hother : ∀ j, env.replica j = env.replica i →
        ((s.put s.shared i (.looping s.shared.clock)).proc j).now.isSome = true → j = i := by
      intro j hsame hj
      by_contra hji
      rw [System.put_other hji, halone j hsame] at hj
      cases hj
    refine ⟨?_, ?_, h.turns.past, h.turns.ran, ?_, h.turns.due, ?_, h.turns.closed⟩
    · intro j j' hsame hj hj'
      by_cases hji : env.replica j = env.replica i
      · rw [hother j hji hj, hother j' (hsame.symm.trans hji) hj']
      · have hne : j ≠ i := fun hsame => hji (by rw [hsame])
        have hne' : j' ≠ i := fun hsame' => hji (by rw [hsame, hsame'])
        rw [System.put_other hne] at hj
        rw [System.put_other hne'] at hj'
        exact h.turns.alone j j' hsame hj hj'
    · refine System.put_forall (x := s.shared)
        (P := fun j (q : Stage) => ∀ n ∈ q.now, n ≤ s.shared.clock ∧
          ∀ a ∈ s.shared.starts, a.replica = env.replica j → a.now ≤ n) ?_
        fun j _ => h.turns.recent j
      rintro _ ⟨⟩
      exact ⟨le_rfl, fun a ha _ => h.turns.past a ha⟩
    · exact System.put_forall (x := s.shared)
        (P := fun j (q : Stage) => ∀ n ∈ q.asking,
          scheduled (s.shared.replica (env.replica j)).queue = [] ∧
          ∀ a ∈ s.shared.starts, a.replica = env.replica j → a.number ∈ s.shared.finished →
            a.now + env.interval ≤ n) nofun fun j _ => h.turns.asked j
    · exact System.put_forall (x := s.shared) (P := fun _ (q : Stage) => q.Timed) trivial
        fun j _ => h.turns.timed j
  · intro P n hP
    cases P with
    | tick j =>
      obtain ⟨hlive, hn⟩ := hP
      by_cases hj : j = i
      · rw [hj, System.put_self] at hn
        cases hn
      · rw [System.put_other hj] at hn
        exact ⟨.tick j, rfl, hlive, hn⟩
    | queue r => exact ⟨.queue r, rfl, hP⟩

/-- A tick asks for the lease: none of its replica's jobs is pending, and an interval has passed
    since `lastRunAt`. -/
theorem Sound.ask (h : Sound env s) (hi : s.proc i = .looping now)
    (hq : q = .renewing now ∨ q = .acquiring now)
    (hempty : scheduled (s.shared.replica (env.replica i)).queue = [])
    (hlast : ∀ lastRunAt ∈ (s.shared.replica (env.replica i)).lastRunAt,
      lastRunAt + env.interval ≤ now) :
    Sound env (s.put s.shared i q) := by
  have hstage : q.number = none ∧ q.unstarted = none ∧ q.busy = false ∧ q.now = some now ∧
      q.asking = some now ∧ q.Timed := by
    rcases hq with rfl | rfl
    · exact ⟨rfl, rfl, rfl, rfl, rfl, trivial⟩
    · exact ⟨rfl, rfl, rfl, rfl, rfl, trivial⟩
  obtain ⟨hnumber, hunstarted, hbusy, hnow, hasking, htimed⟩ := hstage
  have hasks := h.carry (r := env.replica i) (u := s.shared.replica (env.replica i))
    (s.put s.shared i q).proc rfl
  rw [Shared.set_self] at hasks
  apply hasks
  · exact System.put_forall (x := s.shared)
      (P := fun j (q : Stage) => q.number = (s.proc j).number) (by rw [hi, hnumber]; rfl)
      fun _ _ => rfl
  · exact h.lone.stay rfl rfl (by rw [hbusy]; nofun)
  · have hsame : ∀ j, ((s.put s.shared i q).proc j).now = (s.proc j).now :=
      System.put_forall (x := s.shared) (P := fun j (q : Stage) => q.now = (s.proc j).now)
        (by rw [hi, hnow]; rfl) fun _ _ => rfl
    refine ⟨?_, ?_, h.turns.past, h.turns.ran, ?_, h.turns.due, ?_, h.turns.closed⟩
    · intro j j' hreplica hj hj'
      rw [hsame] at hj hj'
      exact h.turns.alone j j' hreplica hj hj'
    · intro j n hn
      rw [hsame] at hn
      exact h.turns.recent j n hn
    · refine System.put_forall (x := s.shared)
        (P := fun j (q : Stage) => ∀ n ∈ q.asking,
          scheduled (s.shared.replica (env.replica j)).queue = [] ∧
          ∀ a ∈ s.shared.starts, a.replica = env.replica j → a.number ∈ s.shared.finished →
            a.now + env.interval ≤ n) ?_ fun j _ => h.turns.asked j
      intro n hn
      rw [hasking] at hn
      obtain rfl := Option.some.inj hn
      refine ⟨hempty, ?_⟩
      intro a ha hown hfinished
      obtain ⟨last, hmem, hle⟩ := h.turns.ran a ha hfinished
      rw [hown] at hmem
      have hinterval := hlast last hmem
      omega
    · exact System.put_forall (x := s.shared) (P := fun _ (q : Stage) => q.Timed) htimed
        fun j _ => h.turns.timed j
  · intro P n hP
    cases P with
    | tick j =>
      obtain ⟨hlive, hn⟩ := hP
      by_cases hj : j = i
      · rw [hj, System.put_self, hunstarted] at hn
        cases hn
      · rw [System.put_other hj] at hn
        exact ⟨.tick j, rfl, hlive, hn⟩
    | queue r => exact ⟨.queue r, rfl, hP⟩

theorem Sound.tick (h : Sound env s) (hlive : s.shared.Live (env.replica i))
    (hi : s.proc i = .idle) (halone : Alone env s i)
    (hpunctual : s.shared.Pending (env.replica i) → Punctual env s.shared i s.shared.clock) :
    Sound env (s.put (tick env i s.shared).1 i (tick env i s.shared).2) := by
  have hbegun := h.begin hi halone
  have hasks : ∀ q, (q = .renewing s.shared.clock ∨ q = .acquiring s.shared.clock) →
      ((∀ job ∈ (s.shared.replica (env.replica i)).queue, job.trigger ≠ .scheduled) ∧
        ∀ lastRunAt ∈ (s.shared.replica (env.replica i)).lastRunAt,
          lastRunAt + env.interval ≤ s.shared.clock) →
      Sound env (s.put s.shared i q) := by
    intro q hq ⟨hnone, hlast⟩
    have hempty : scheduled (s.shared.replica (env.replica i)).queue = [] :=
      List.filter_eq_nil_iff.mpr fun job hjob => by simpa using hnone job hjob
    have hasked := hbegun.ask System.put_self hq hempty hlast
    rw [System.put_put] at hasked
    exact hasked
  unfold Scheduler.tick
  by_cases htripped : (s.shared.replica (env.replica i)).circuitBreakerTripped = true
  · simp only [htripped, if_true]
    have hdone : Sound env ((s.put s.shared i (.looping s.shared.clock)).put s.shared i .done) :=
      hbegun.keep ⟨by rw [System.put_self]; rfl, nofun, nofun, nofun, nofun, fun _ => trivial⟩
    rw [System.put_put] at hdone
    exact hdone
  · simp only [if_neg htripped]
    split_ifs with hdue hheld
    · exact hasks _ (.inl rfl) hdue
    · exact hasks _ (.inr rfl) hdue
    · have hdrained := hbegun.drain hlive System.put_self hpunctual
      rw [System.put_put] at hdrained
      exact hdrained

theorem Sound.afterRun (h : Sound env s) (hlive : s.shared.Live (env.replica i)) {k : ℕ}
    {success : Bool} (hi : s.proc i = .executing now job k) :
    Sound env (s.put (afterRun env i s.shared now job k success).1 i
      (afterRun env i s.shared now job k success).2) := by
  have hran : ∀ u : Replica, u.lastRunAt = some now → ∀ a ∈ s.shared.starts,
      a.replica = env.replica i → a.number ∈ s.shared.finished →
      ∃ last ∈ u.lastRunAt, a.now ≤ last := by
    intro u hlast a ha hown _
    rw [hlast]
    exact ⟨now, rfl, (h.turns.recent i now (by rw [hi]; rfl)).2 a ha hown⟩
  unfold Scheduler.afterRun
  by_cases hjob : job.trigger = .scheduled
  · simp only [if_pos hjob]
    have hset : ∀ u : Replica, u.crashed = (s.shared.replica (env.replica i)).crashed →
        u.queue = (s.shared.replica (env.replica i)).queue → u.lastRunAt = some now →
        Sound env (s.put { s.shared.set (env.replica i) u with
          finished := k :: s.shared.finished } i (.releasing now)) := by
      intro u hcrash hqueue hlast
      have hnoted := h.goOn hcrash (by rw [hqueue]) (hran u hlast) (.rfl (p := s.proc i))
      have hfinished := hnoted.finish (i := i) ((Shared.live_set hcrash).mpr hlive)
        (by rw [System.put_self]; exact hi) hjob
        (by rw [System.put_shared, Shared.set_replica_self]; exact hlast)
      rw [System.put_put] at hfinished
      exact hfinished
    have hnext : ∀ u : Replica, u.crashed = (s.shared.replica (env.replica i)).crashed →
        u.queue = (s.shared.replica (env.replica i)).queue → u.lastRunAt = some now → ∀ held : Bool,
        Sound env (s.put { s.shared.set (env.replica i) u with
          finished := k :: s.shared.finished } i
          (if held = true then .releasing now else .looping now)) := by
      intro u hcrash hqueue hlast held
      have hreleases := hset u hcrash hqueue hlast
      cases held with
      | true => exact hreleases
      | false =>
        have hloops := hreleases.keep (i := i) (q := .looping now)
          (.of_jobless (by rw [System.put_self]; rfl) (by rw [System.put_self]; rfl) rfl rfl trivial)
        rw [System.put_put] at hloops
        exact hloops
    exact hnext _ (by rfl) (by rfl) (by rfl) _
  · simp only [if_neg hjob]
    have hnumber : (s.proc i).number = none := by
      rw [hi]
      simp [Stage.number, hjob]
    refine h.goOn ?_ ?_ (hran _ ?_) (.of_jobless hnumber (by rw [hi]; rfl) rfl rfl trivial)
    · rfl
    · rfl
    · rfl

/-- One step of a tick. -/
theorem Sound.act (h : Sound env s) {o : Outcome} (hok : Undisturbed env s (.act i o))
    (hact : act env i s.shared (s.proc i) o = some (x, q)) : Sound env (s.put x i q) := by
  obtain ⟨hlive, hstep⟩ : s.shared.Live (env.replica i) ∧
      step env i s.shared (s.proc i) o = some (x, q) := by
    unfold Scheduler.act at hact
    split_ifs at hact with hcrashed
    exact ⟨Bool.eq_false_iff.mpr hcrashed, hact⟩
  obtain ⟨halone, htakes, hpunctual⟩ := hok
  cases hi : s.proc i with
  | idle =>
    rw [hi] at hstep
    cases o with
    | start =>
      obtain ⟨rfl, rfl⟩ := Prod.mk.inj (Option.some.inj hstep)
      exact h.tick hlive hi (halone rfl) fun hpending =>
        hpunctual _ (by rw [hi]; rfl) (.inr hpending)
    | _ => cases hstep
  | renewing now =>
    rw [hi] at hstep
    have hnumber : (s.proc i).number = none := by rw [hi]; rfl
    cases o with
    | granted =>
      obtain ⟨howns, rfl, rfl⟩ : s.shared.Owns (env.replica i) ∧ _ = x ∧ _ = q := by
        simpa [step] using hstep
      refine h.grant hlive (htakes rfl) ?_ (by rw [hi]; rfl) (by rw [hi]; rfl) rfl
        (by rw [hi]; exact fun _ hn => hn) rfl trivial rfl
      obtain ⟨lease, hlease, howner⟩ := howns
      intro other hother
      rw [Option.mem_unique hother hlease]
      exact .inr howner
    | refused =>
      obtain ⟨rfl, rfl⟩ : s.shared = x ∧ _ = q := by simpa [step] using hstep
      exact h.keep ⟨by rw [hnumber]; rfl, by rw [hi]; exact fun _ hn => hn, nofun, nofun,
        by rw [hi]; exact fun _ hn => hn, fun _ => trivial⟩
    | throws =>
      obtain ⟨rfl, rfl⟩ : s.shared = x ∧ _ = q := by simpa [step] using hstep
      exact h.keep (.of_jobless hnumber (by rw [hi]; rfl) rfl rfl trivial)
    | _ => cases hstep
  | renewed now ok =>
    rw [hi] at hstep
    have hnumber : (s.proc i).number = none := by rw [hi]; cases ok <;> rfl
    cases o with
    | ok =>
      cases ok with
      | true =>
        obtain ⟨rfl, rfl⟩ : s.shared = x ∧ _ = q := by simpa [step] using hstep
        exact h.keep ⟨by rw [hnumber]; rfl, nofun, fun n hn => by rw [hi]; exact hn,
          fun _ => by rw [hi]; rfl, by rw [hi]; exact fun _ hn => hn, fun _ => trivial⟩
      | false =>
        obtain ⟨rfl, rfl⟩ := Prod.mk.inj (Option.some.inj hstep)
        refine h.goOn ?_ ?_ (h.turns.ran_kept ?_) ⟨by rw [hnumber]; rfl,
          by rw [hi]; exact fun _ hn => hn, nofun, nofun, by rw [hi]; exact fun _ hn => hn,
          fun _ => trivial⟩
        · rfl
        · rfl
        · rfl
    | throws =>
      obtain ⟨rfl, rfl⟩ : s.shared = x ∧ _ = q := by cases ok <;> simpa [step] using hstep
      exact h.keep (.of_jobless hnumber (by rw [hi]; rfl) rfl rfl trivial)
    | _ => cases ok <;> cases hstep
  | acquiring now =>
    rw [hi] at hstep
    have hnumber : (s.proc i).number = none := by rw [hi]; rfl
    cases o with
    | granted =>
      obtain ⟨hfree, rfl, rfl⟩ : s.shared.Free (env.replica i) ∧ _ = x ∧ _ = q := by
        simpa [step] using hstep
      exact h.grant hlive (htakes rfl) hfree (by rw [hi]; rfl) (by rw [hi]; rfl) rfl nofun rfl trivial
        rfl
    | refused =>
      obtain ⟨rfl, rfl⟩ : s.shared = x ∧ _ = q := by simpa [step] using hstep
      exact h.keep (.of_jobless hnumber (by rw [hi]; rfl) rfl rfl trivial)
    | throws =>
      obtain ⟨rfl, rfl⟩ : s.shared = x ∧ _ = q := by simpa [step] using hstep
      exact h.keep (.of_jobless hnumber (by rw [hi]; rfl) rfl rfl trivial)
    | _ => cases hstep
  | acquired now ok =>
    rw [hi] at hstep
    have hnumber : (s.proc i).number = none := by rw [hi]; cases ok <;> rfl
    cases o with
    | ok =>
      cases ok with
      | true =>
        obtain ⟨rfl, rfl⟩ := Prod.mk.inj (Option.some.inj hstep)
        refine h.goOn ?_ ?_ (h.turns.ran_kept ?_) ⟨by rw [hnumber]; rfl, nofun,
          fun n hn => by rw [hi]; exact hn, fun _ => by rw [hi]; rfl,
          by rw [hi]; exact fun _ hn => hn, fun _ => trivial⟩
        · rfl
        · rfl
        · rfl
      | false =>
        obtain ⟨rfl, rfl⟩ : s.shared = x ∧ _ = q := by simpa [step] using hstep
        exact h.keep (.of_jobless hnumber (by rw [hi]; rfl) rfl rfl trivial)
    | throws =>
      obtain ⟨rfl, rfl⟩ : s.shared = x ∧ _ = q := by cases ok <;> simpa [step] using hstep
      exact h.keep (.of_jobless hnumber (by rw [hi]; rfl) rfl rfl trivial)
    | _ => cases ok <;> cases hstep
  | emitting now owned =>
    rw [hi] at hstep
    cases o with
    | ok =>
      cases owned with
      | true =>
        obtain ⟨rfl, rfl⟩ := Prod.mk.inj (Option.some.inj hstep)
        have hemitted : Sound env (s.put
            (s.shared.enqueue (env.replica i) .scheduled now) i (.looping now)) :=
          h.emit hlive hi rfl rfl rfl
        have hrunning : (s.shared.enqueue (env.replica i) .scheduled now).Live (env.replica i) := by
          refine (Shared.live_set ?_).mpr hlive
          rfl
        have hcalls : Punctual env s.shared i now :=
          hpunctual now (by rw [hi]; rfl) (.inl (by rw [hi]; rfl))
        have hdrained := hemitted.drain hrunning System.put_self fun _ => hcalls
        rw [System.put_put] at hdrained
        exact hdrained
      | false =>
        obtain ⟨rfl, rfl⟩ := Prod.mk.inj (Option.some.inj hstep)
        exact h.loop hlive (by rw [hi]; rfl) (by rw [hi]; rfl) fun hpending =>
          hpunctual now (by rw [hi]; rfl) (.inr hpending)
    | _ => cases owned <;> cases hstep
  | pricing now job =>
    rw [hi] at hstep
    have hcalls : job.trigger = .scheduled → Punctual env s.shared i now := by
      intro hjob
      exact hpunctual now (by rw [hi]; rfl) (.inl (by rw [hi]; simpa [Stage.busy] using hjob))
    cases o with
    | price stroops =>
      simp only [step] at hstep
      split_ifs at hstep
      · obtain ⟨rfl, rfl⟩ := Prod.mk.inj (Option.some.inj hstep)
        exact h.keep (.of_jobless (by rw [hi]; rfl) (by rw [hi]; rfl) rfl rfl trivial)
      · obtain ⟨rfl, rfl⟩ := Prod.mk.inj (Option.some.inj hstep)
        exact h.execute hlive hi hcalls
    | throws =>
      obtain ⟨rfl, rfl⟩ := Prod.mk.inj (Option.some.inj hstep)
      exact h.execute hlive hi hcalls
    | _ => cases hstep
  | executing now job k =>
    rw [hi] at hstep
    cases o with
    | finished success =>
      obtain ⟨rfl, rfl⟩ := Prod.mk.inj (Option.some.inj hstep)
      exact h.afterRun hlive hi
    | _ => cases hstep
  | releasing now =>
    rw [hi] at hstep
    cases o with
    | ok =>
      obtain ⟨rfl, rfl⟩ := Prod.mk.inj (Option.some.inj hstep)
      exact h.release hlive hi
    | throws =>
      obtain ⟨rfl, rfl⟩ : s.shared = x ∧ _ = q := by simpa [step] using hstep
      exact h.keep (.of_jobless (by rw [hi]; rfl) (by rw [hi]; rfl) rfl rfl trivial)
    | _ => cases hstep
  | released now =>
    rw [hi] at hstep
    cases o with
    | ok =>
      obtain ⟨rfl, rfl⟩ := Prod.mk.inj (Option.some.inj hstep)
      refine h.goOn ?_ ?_ (h.turns.ran_kept ?_)
        (.of_jobless (by rw [hi]; rfl) (by rw [hi]; rfl) rfl rfl trivial)
      · rfl
      · rfl
      · rfl
    | throws =>
      obtain ⟨rfl, rfl⟩ : s.shared = x ∧ _ = q := by simpa [step] using hstep
      exact h.keep (.of_jobless (by rw [hi]; rfl) (by rw [hi]; rfl) rfl rfl trivial)
    | _ => cases hstep
  | looping now =>
    rw [hi] at hstep
    cases o with
    | ok =>
      obtain ⟨rfl, rfl⟩ := Prod.mk.inj (Option.some.inj hstep)
      exact h.drain hlive hi fun hpending => hpunctual now (by rw [hi]; rfl) (.inr hpending)
    | _ => cases hstep
  | done =>
    rw [hi] at hstep
    cases o <;> cases hstep

/-! ## Time, crashes and events -/

omit [DecidableEq ι] [DecidableEq ρ] in
theorem Sound.passes (h : Sound env s) (time : ℕ) :
    Sound env ⟨{ s.shared with clock := s.shared.clock + time }, s.proc⟩ := by
  have hclock : s.shared.clock ≤ s.shared.clock + time := Nat.le_add_right _ _
  refine ⟨⟨h.lone.place, h.lone.single, h.lone.owner⟩, ?_, ?_, ?_, h.executing, h.numbered, h.fresh,
    h.apart⟩
  · exact h.turns.mono hclock rfl rfl (fun _ _ hn => hn)
      (fun j n hn => ⟨hn, (h.turns.asked j n hn).1⟩) h.turns.timed h.turns.due h.turns.ran
  · intro P n hP
    obtain ⟨hle, hheld, hpast⟩ := h.token P n hP
    refine ⟨hle.trans hclock, hheld.imp_left fun hexpired => hexpired.trans hclock, ?_⟩
    intro a ha
    exact (hpast a ha).imp_right fun hrest => hrest.imp_right fun hgone =>
      ⟨hgone.1, hgone.2.trans hclock⟩
  · intro a ha hopen
    exact (h.held a ha hopen).imp_left fun hexpired => hexpired.trans hclock

omit [DecidableEq ι] in
/-- A crashed replica's jobs are gone; its unfinished starts are abandoned. -/
theorem Sound.crash (h : Sound env s) (r : ρ) :
    Sound env ⟨s.shared.set r { s.shared.replica r with crashed := true }, s.proc⟩ := by
  have hlive : ∀ r', (s.shared.set r { s.shared.replica r with crashed := true }).Live r' →
      s.shared.Live r' := by
    intro r' hr'
    unfold Shared.Live at hr'
    by_cases hr : r' = r
    · rw [hr, Shared.set_replica_self] at hr'
      cases hr'
    · rw [Shared.set_replica_other hr] at hr'
      exact hr'
  have hqueue : ∀ r', ((s.shared.set r
      { s.shared.replica r with crashed := true }).replica r').queue =
        (s.shared.replica r').queue := by
    intro r'
    by_cases hr : r' = r
    · rw [hr, Shared.set_replica_self]
    · rw [Shared.set_replica_other hr]
  have htoken : ∀ P n, Token env
      ⟨s.shared.set r { s.shared.replica r with crashed := true }, s.proc⟩ n P →
      Token env s n P := by
    intro P n hP
    cases P with
    | tick i => exact ⟨hlive _ hP.1, hP.2⟩
    | queue r' =>
      obtain ⟨hr', job, hjob, hgranted⟩ := hP
      rw [hqueue] at hjob
      exact ⟨hlive _ hr', job, hjob, hgranted⟩
  refine ⟨?_, ?_, ?_, h.held, ?_, h.numbered, h.fresh, ?_⟩
  · apply h.lone.mono (t := ⟨s.shared.set r { s.shared.replica r with crashed := true }, s.proc⟩) rfl
    · intro P hP
      cases P with
      | tick i => exact ⟨hlive _ hP.1, hP.2⟩
      | queue r' =>
        obtain ⟨hr', hnonempty⟩ := hP
        rw [hqueue] at hnonempty
        exact ⟨hlive _ hr', hnonempty⟩
    · intro r' hr'
      rw [hqueue]
      exact h.lone.single r' (hlive _ hr')
  · refine h.turns.mono le_rfl rfl rfl (fun _ _ hn => hn) ?_ h.turns.timed ?_
      (h.turns.ran_set (h.turns.ran_kept rfl))
    · intro j n hn
      rw [hqueue]
      exact ⟨hn, (h.turns.asked j n hn).1⟩
    · intro r' job hjob
      rw [hqueue] at hjob
      exact h.turns.due r' job hjob
  · intro P n hP
    obtain ⟨hle, hheld, hpast⟩ := h.token P n (htoken P n hP)
    refine ⟨hle, hheld, ?_⟩
    intro a ha
    exact (hpast a ha).imp_right fun hrest => hrest.imp_right fun hgone =>
      ⟨⟨fun hr => hgone.1.1 (hlive _ hr), hgone.1.2⟩, hgone.2⟩
  · intro a ha hopen hr
    exact h.executing a ha hopen (hlive _ hr)
  · refine h.apart.imp ?_
    intro b a hba
    exact hba.imp_right fun hgone => ⟨⟨fun hr => hgone.1.1 (hlive _ hr), hgone.1.2⟩, hgone.2⟩

omit [DecidableEq ι] in
theorem Sound.world (h : Sound env s) {c : Change ρ} (hc : around s.shared c = some x) :
    Sound env ⟨x, s.proc⟩ := by
  cases c with
  | passes time =>
    obtain rfl := Option.some.inj hc
    exact h.passes time
  | crash r =>
    obtain rfl := Option.some.inj hc
    exact h.crash r
  | enqueue r trigger =>
    simp only [around] at hc
    by_cases hscheduled : trigger = .scheduled
    · rw [if_pos hscheduled] at hc
      cases hc
    · rw [if_neg hscheduled] at hc
      obtain rfl := Option.some.inj hc
      refine h.quiet ?_ ?_ (h.turns.ran_kept ?_) fun j => .rfl
      · rfl
      · refine ((List.mergeSort_perm _ _).filter _).trans (.of_eq ?_)
        simp [scheduled, hscheduled]
      · rfl

theorem sound_of_reaches (h : Reaches (rules env) (Undisturbed env) fresh s) : Sound env s := by
  apply h.invariant
  · refine ⟨⟨?_, ?_, ?_⟩, ?_, ?_, nofun, nofun, nofun, nofun, List.Pairwise.nil⟩
    · rintro (i | r) Q ⟨-, hP⟩
      · cases hP
      · exact absurd rfl hP
    · intro r _
      exact Nat.zero_le _
    · rintro (i | r) ⟨-, hP⟩
      · cases hP
      · exact absurd rfl hP
    · exact ⟨nofun, nofun, nofun, nofun, nofun, nofun, fun _ => trivial, nofun⟩
    · rintro (i | r) n ⟨-, hP⟩
      · cases hP
      · obtain ⟨job, hjob, -⟩ := hP
        cases hjob
  · intro t i o x q hok ht hact
    exact ht.act hok hact
  · intro t c x _ ht hc
    exact ht.world hc

/-- While the ticks of each replica take turns, the lease is taken over from no working replica and
    not within an interval of another's start, and the delay from a tick to its start does not
    shrink, scheduled rebalances start an interval apart or take over from a crashed owner whose
    lease has expired. -/
theorem interval_apart_when_undisturbed (h : Reaches (rules env) (Undisturbed env) fresh s) :
    s.shared.starts.Pairwise (Apart env s.shared) :=
  (sound_of_reaches h).apart

namespace Sample

/-- Two replicas with two ticks each, an hourly interval and the default lease. -/
def hourly : Env (Bool × Bool) Bool := ⟨Prod.fst, 3600000, 120000, 3, false, none⟩

/-- The first replica rebalances, and again an hour later, when it crashes in its rebalance; the
    second gets the lease when it has expired. -/
def hours : List (Move (Bool × Bool) Outcome (Change Bool)) :=
  [.act (false, false) .start, .act (false, false) .granted, .act (false, false) .ok,
    .act (false, false) .ok, .act (false, false) (.finished true), .act (false, false) .ok,
    .act (false, false) .ok, .act (false, false) .ok, .world (.passes 3600000),
    .act (false, true) .start, .act (false, true) .granted, .act (false, true) .ok,
    .act (false, true) .ok, .world (.crash false), .world (.passes 120000), .act (true, false) .start,
    .act (true, false) .granted, .act (true, false) .ok, .act (true, false) .ok]

theorem hours_apart :
    (hours.foldl (rules hourly).after fresh).shared.starts =
        [⟨2, true, 3720000, 3720000, 3720000⟩, ⟨1, false, 3600000, 3600000, 3600000⟩,
          ⟨0, false, 0, 0, 0⟩] ∧
      (hours.foldl (rules hourly).after fresh).shared.starts.Pairwise
        (Apart hourly (hours.foldl (rules hourly).after fresh).shared) := by
  have hreaches : Reaches (rules hourly) (Undisturbed hourly) fresh
      (hours.foldl (rules hourly).after fresh) := .of_admits (by decide +kernel)
  exact ⟨by decide +kernel, interval_apart_when_undisturbed hreaches⟩

/-- The first replica rebalances and releases the lease; the second, which has never run, does so
    a minute later. -/
def repeated : System (Bool × Bool) (Shared Bool) Stage :=
  [.act (false, false) .start, .act (false, false) .granted, .act (false, false) .ok,
    .act (false, false) .ok, .act (false, false) (.finished true), .act (false, false) .ok,
    .act (false, false) .ok, .act (false, false) .ok, .world (.passes 60000),
    .act (true, false) .start, .act (true, false) .granted, .act (true, false) .ok,
    .act (true, false) .ok].foldl (rules hourly).after fresh

theorem repeated_within_a_minute :
    Reaches (rules hourly) (fun _ _ => True) fresh repeated ∧
      repeated.shared.starts = [⟨1, true, 60000, 60000, 60000⟩, ⟨0, false, 0, 0, 0⟩] ∧
      ¬ repeated.shared.starts.Pairwise (Apart hourly repeated.shared) :=
  ⟨.of_steps _, by decide +kernel, by decide +kernel⟩

end Sample

end NeuroWealth.Scheduler
