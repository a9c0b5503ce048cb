import NeuroWealth.Agent.TransactionSubmission

/-!
# A queued payment and the account's sequence number

Before the first inclusion, every transaction built for the job has at most the next sequence
number; after it, none of them can be included any more.
-/

namespace NeuroWealth.TransactionQueue.Submission

open Interleaving

variable {ι : Type} [DecidableEq ι] {env : Env} {s : System ι (Shared ι) Stage} {x : Shared ι}
  {p : Stage} {i : ι}

/-- The transaction a run has signed and not sent. -/
def Stage.pending : Stage → Option Transaction
  | signed _ _ transaction => some transaction
  | _ => none

/-- A bound on the sequence numbers of what was built for the job. -/
structure Below (s : System ι (Shared ι) Stage) (bound : ℕ) : Prop where
  sent : ∀ t ∈ s.shared.sent, t.sequence ≤ bound
  pending : ∀ i, ∀ t ∈ (s.proc i).pending, t.sequence ≤ bound

/-- Nothing was included and everything built is at most next, or one transaction was and
    everything built is past. -/
def Single (s : System ι (Shared ι) Stage) : Prop :=
  s.shared.included = [] ∧ Below s (s.shared.sequence + 1) ∨
    s.shared.included.length = 1 ∧ Below s s.shared.sequence

theorem caught_pending (agent : String) (attempt : ℕ) (message : String) :
    (caught agent attempt message).pending = none := by
  unfold caught
  split <;> rfl

/-- What was built stays as it was; only what the mover signs is new. -/
theorem Below.put {bound : ℕ} (h : Below s bound)
    (hsent : ∀ t ∈ x.sent, t ∈ s.shared.sent ∨ t ∈ (s.proc i).pending)
    (hp : ∀ t ∈ p.pending, t.sequence ≤ bound) : Below (s.put x i p) bound := by
  refine ⟨?_, ?_⟩
  · intro t ht
    rcases hsent t ht with hold | hnew
    · exact h.sent t hold
    · exact h.pending i t hnew
  · exact System.put_forall (P := fun _ (p : Stage) => ∀ t ∈ p.pending, t.sequence ≤ bound) hp
      fun j _ => h.pending j

/-- A step that signs nothing. -/
theorem Single.put (h : Single s) (hsequence : x.sequence = s.shared.sequence)
    (hincluded : x.included = s.shared.included)
    (hsent : ∀ t ∈ x.sent, t ∈ s.shared.sent ∨ t ∈ (s.proc i).pending) (hp : p.pending = none) :
    Single (s.put x i p) := by
  have hnothing : ∀ bound, ∀ t ∈ p.pending, t.sequence ≤ bound := by
    rw [hp]
    nofun
  unfold Single
  rw [System.put_shared, hsequence, hincluded]
  rcases h with ⟨hnone, hbelow⟩ | ⟨hone, hbelow⟩
  · exact .inl ⟨hnone, hbelow.put hsent (hnothing _)⟩
  · exact .inr ⟨hone, hbelow.put hsent (hnothing _)⟩

/-- One step of a run that loads the account only before any inclusion. -/
theorem Single.act (h : Single s) (hdata : truthy env.data.xdrEnvelope = none) {o : Outcome}
    (hok : Undisturbed s (.act i o)) (hstep : step env i s.shared (s.proc i) o = some (x, p)) :
    Single (s.put x i p) := by
  cases hi : s.proc i with
  | idle =>
    rw [hi] at hstep
    cases o with
    | start =>
      simp only [step] at hstep
      by_cases hwaiting : s.shared.job = .waiting
      · rw [if_pos hwaiting] at hstep
        obtain ⟨rfl, rfl⟩ := Prod.mk.inj (Option.some.inj hstep)
        apply h.put (x := { s.shared with job := .active i }) rfl rfl (fun _ ht => .inl ht)
        cases env.agent <;> rfl
      · rw [if_neg hwaiting] at hstep
        cases hstep
    | _ => cases hstep
  | loading agent attempt =>
    rw [hi] at hstep
    cases o with
    | account sequence =>
      have hnone : s.shared.included = [] := hok
      simp only [step, buildAndSignTransaction, hdata] at hstep
      by_cases hle : sequence ≤ s.shared.sequence
      · rw [if_pos hle] at hstep
        obtain ⟨rfl, rfl⟩ := Prod.mk.inj (Option.some.inj hstep)
        rcases h with ⟨-, hbelow⟩ | ⟨hone, -⟩
        · refine .inl ⟨hnone, hbelow.put (fun _ ht => .inl ht) ?_⟩
          intro t ht
          obtain rfl : _ = t := Option.some.inj ht
          exact Nat.succ_le_succ hle
        · rw [hnone] at hone
          cases hone
      · rw [if_neg hle] at hstep
        cases hstep
    | throws message =>
      obtain ⟨rfl, rfl⟩ : s.shared = x ∧ caught agent attempt message = p := by
        simpa [step] using hstep
      exact h.put rfl rfl (fun _ ht => .inl ht) (caught_pending _ _ _)
    | _ => cases hstep
  | signed agent attempt transaction =>
    rw [hi] at hstep
    cases o with
    | ok =>
      obtain ⟨rfl, rfl⟩ : _ = x ∧ Stage.submitting agent attempt transaction = p := by
        simpa [step] using hstep
      refine h.put rfl rfl ?_ rfl
      intro t ht
      rcases List.mem_cons.mp ht with rfl | ht
      · right
        rw [hi]
        rfl
      · exact .inl ht
    | _ => cases hstep
  | submitting agent attempt transaction =>
    rw [hi] at hstep
    cases o with
    | ok =>
      simp only [step] at hstep
      by_cases hincluded : transaction ∈ s.shared.included
      · rw [if_pos hincluded] at hstep
        obtain ⟨rfl, rfl⟩ := Prod.mk.inj (Option.some.inj hstep)
        exact h.put rfl rfl (fun _ ht => .inl ht) rfl
      · rw [if_neg hincluded] at hstep
        cases hstep
    | throws message =>
      obtain ⟨rfl, rfl⟩ : s.shared = x ∧ caught agent attempt message = p := by
        simpa [step] using hstep
      exact h.put rfl rfl (fun _ ht => .inl ht) (caught_pending _ _ _)
    | _ => cases hstep
  | resolved =>
    rw [hi] at hstep
    cases o with
    | ok =>
      obtain ⟨rfl, rfl⟩ : _ = x ∧ Stage.done = p := by simpa [step] using hstep
      by_cases hactive : s.shared.job = .active i
      · rw [if_pos hactive]
        exact h.put rfl rfl (fun _ ht => .inl ht) rfl
      · rw [if_neg hactive]
        exact h.put rfl rfl (fun _ ht => .inl ht) rfl
    | _ => cases hstep
  | rejected =>
    rw [hi] at hstep
    cases o with
    | ok =>
      obtain ⟨rfl, rfl⟩ : _ = x ∧ Stage.done = p := by simpa [step] using hstep
      by_cases hactive : s.shared.job = .active i
      · rw [if_pos hactive]
        exact h.put rfl rfl (fun _ ht => .inl ht) rfl
      · rw [if_neg hactive]
        exact h.put rfl rfl (fun _ ht => .inl ht) rfl
    | _ => cases hstep
  | done =>
    rw [hi] at hstep
    cases o <;> cases hstep

omit [DecidableEq ι] in
/-- The ledger moves on: what was next is past, and what is past cannot be included. -/
theorem Single.world (h : Single s) {c : Change} (hc : around s.shared c = some x) :
    Single ⟨x, s.proc⟩ := by
  have hgrow : ∀ {bound bound'}, Below s bound → bound ≤ bound' → Below s bound' := by
    intro bound bound' hb hle
    exact ⟨fun t ht => (hb.sent t ht).trans hle, fun i t ht => (hb.pending i t ht).trans hle⟩
  cases c with
  | includes transaction =>
    simp only [around] at hc
    by_cases hnext : transaction ∈ s.shared.sent ∧ transaction.sequence = s.shared.sequence + 1
    · rw [if_pos hnext] at hc
      obtain rfl := Option.some.inj hc
      rcases h with ⟨hnone, hbelow⟩ | ⟨hone, hbelow⟩
      · refine .inr ⟨?_, hbelow.sent, hbelow.pending⟩
        show (transaction :: s.shared.included).length = 1
        rw [hnone]
        rfl
      · have hpast := hbelow.sent transaction hnext.1
        rw [hnext.2] at hpast
        exact absurd hpast (Nat.not_succ_le_self _)
    · rw [if_neg hnext] at hc
      cases hc
  | other =>
    obtain rfl := Option.some.inj hc
    rcases h with ⟨hnone, hbelow⟩ | ⟨hone, hbelow⟩
    · have hbelow' := hgrow hbelow (Nat.le_succ _)
      exact .inl ⟨hnone, hbelow'.sent, hbelow'.pending⟩
    · have hbelow' := hgrow hbelow (Nat.le_succ _)
      exact .inr ⟨hone, hbelow'.sent, hbelow'.pending⟩
  | timeout =>
    simp only [around] at hc
    split at hc
    · obtain rfl := Option.some.inj hc
      exact h.imp (fun hn => ⟨hn.1, hn.2.sent, hn.2.pending⟩)
        fun hn => ⟨hn.1, hn.2.sent, hn.2.pending⟩
    · cases hc

/-- While the account is loaded only before any inclusion, at most one transaction of a job without
    an envelope is included. -/
theorem applied_once_when_undisturbed {sequence : ℕ} (hdata : truthy env.data.xdrEnvelope = none)
    (h : Reaches (rules ι env) Undisturbed (fresh sequence) s) :
    s.shared.included.length ≤ 1 := by
  have hs : Single s := by
    apply h.invariant
    · exact .inl ⟨rfl, nofun, nofun⟩
    · intro t i o x p hok ht hstep
      exact ht.act hdata hok hstep
    · intro t c x _ ht hc
      exact ht.world hc
  rcases hs with ⟨hnone, -⟩ | ⟨hone, -⟩
  · rw [hnone]
    exact Nat.zero_le _
  · exact hone.le

namespace Sample

/-- A withdrawal of one unit. -/
def withdrawal : Env where
  data := ⟨"withdrawal-1", .withdrawal, "10000000", some "GDEST", none⟩
  agent := some "GAGENT"
  toAmount _ := "1.0000000"
  sequenceOf _ := none

def payment (sequence : ℕ) : Transaction := ⟨sequence, .payment "GDEST" "1.0000000"⟩

/-- The submission is answered. -/
def answered : System ℕ (Shared ℕ) Stage :=
  [.act 0 .start, .act 0 (.account 5), .act 0 .ok, .world (.includes (payment 6)), .act 0 .ok,
    .act 0 .ok].foldl (rules ℕ withdrawal).after (fresh 5)

theorem answered_once : answered.shared.job = .completed ∧ answered.shared.included.length ≤ 1 := by
  have hreaches : Reaches (rules ℕ withdrawal) Undisturbed (fresh 5) answered :=
    .of_admits ⟨trivial, rfl, trivial, trivial, trivial, trivial, trivial⟩
  exact ⟨by decide +kernel, applied_once_when_undisturbed (by rfl) hreaches⟩

/-- The payment is included and its answer lost; the next run loads, signs and pays anew. -/
def lost : System ℕ (Shared ℕ) Stage :=
  [.act 0 .start, .act 0 (.account 5), .act 0 .ok, .world (.includes (payment 6)),
    .act 0 (.throws "timeout of 60000ms exceeded"), .act 0 .ok, .act 1 .start, .act 1 (.account 6),
    .act 1 .ok, .world (.includes (payment 7)), .act 1 .ok, .act 1 .ok].foldl
    (rules ℕ withdrawal).after (fresh 5)

/-- Two payments of the one job are included. -/
theorem lost_pays_twice : Reaches (rules ℕ withdrawal) (fun _ _ => True) (fresh 5) lost ∧
    lost.shared.included = [payment 7, payment 6] ∧ lost.shared.job = .completed :=
  ⟨.of_steps _, by decide +kernel, by decide +kernel⟩

end Sample

end NeuroWealth.TransactionQueue.Submission
