import NeuroWealth.Agent.RebalanceSubmission

/-!
# One rebalance in flight, and what a returned hash stands for

A transaction whose end is not known is the one in the slot, and a call goes on to send only when it
found the slot empty or learned the end of what was in it. Calls that have read the slot since the
last send are about that one transaction.
-/

namespace NeuroWealth.YieldCheck.Submission

open Interleaving
open Vault (Protocol)

variable {ι η : Type} [DecidableEq ι] [DecidableEq η] {env : Env ι η}
  {s : System ι (Shared η) (Stage η)} {x : Shared η} {p q : Stage η} {i : ι} {hash : η}
  {asked : Option η} {status : Status}

/-- The transaction a call has sent is its own, and a hash it resolved with succeeded. -/
def Stage.Owned (env : Env ι η) (i : ι) (ledger : η → Status) : Stage η → Prop
  | sending hash => (env.call i).Fits (env.carries hash)
  | polling txHash _ => ∀ hash ∈ txHash, (env.call i).Fits (env.carries hash)
  | resolved txHash =>
    ∀ hash ∈ txHash, ledger hash = .success ∧ (env.call i).Fits (env.carries hash)
  | _ => True

/-- The hash a call is about. -/
def Stage.subject : Stage η → Option η
  | prior hash => some hash
  | sending hash => some hash
  | polling txHash _ => txHash
  | reconciling pendingHash => pendingHash
  | _ => none

/-- A submission on its way to a send. -/
def Stage.unsent : Stage η → Bool
  | loading => true
  | preparing => true
  | _ => false

/-- The slot holds nothing but the hash, and no other end is unknown. -/
structure Only (x : Shared η) (hash : η) : Prop where
  slot : ∀ other ∈ x.pendingRebalanceHash, other = hash
  unresolved : ∀ other ∈ x.unresolved, other = hash
  sent : ∃ send ∈ x.sends, send.hash = hash

structure Sound (env : Env ι η) (s : System ι (Shared η) (Stage η)) : Prop where
  pending : ∀ hash ∈ s.shared.unresolved, s.shared.pendingRebalanceHash = some hash
  sent : ∀ hash ∈ s.shared.pendingRebalanceHash, ∃ send ∈ s.shared.sends, send.hash = hash
  calm : ∀ send ∈ s.shared.sends, send.unresolved = []
  carried : ∀ send ∈ s.shared.sends, send.call.Fits (env.carries send.hash)
  clear : ∀ i, (s.proc i).unsent = true → s.shared.unresolved = []
  only : ∀ i, ∀ hash ∈ (s.proc i).subject, Only s.shared hash
  agree : ∀ i, ∀ hash ∈ (s.proc i).subject, ∀ j, ∀ other ∈ (s.proc j).subject, other = hash
  owned : ∀ i, (s.proc i).Owned env i s.shared.ledger

theorem Shared.mem_unresolved :
    hash ∈ x.unresolved ↔ hash ∈ x.sends.map Send.hash ∧ hash ∉ x.known := by
  simp [unresolved]

omit [DecidableEq η] in
theorem Stage.active_of_subject (h : hash ∈ p.subject) : p.active = true := by
  cases p with
  | prior hash => rfl
  | sending hash => rfl
  | polling txHash round => rfl
  | reconciling pendingHash => rfl
  | _ => cases h

omit [DecidableEq η] in
theorem Stage.active_of_unsent (h : p.unsent = true) : p.active = true := by
  cases p with
  | loading => rfl
  | preparing => rfl
  | _ => cases h

/-- A submission that repeats another one's arguments is for the same contract call. -/
theorem Call.Repeats.fits {call sender : Call} {c : RebalanceCall} (h : call.Repeats sender)
    (hsender : sender.Fits c) : call.Fits c := by
  cases sender with
  | reconcileRebalance protocol => cases call <;> cases h
  | submitRebalance protocol' expectedApy' minOut' =>
    have hcarries : c = YieldCheck.submitRebalance protocol' expectedApy' minOut' := hsender
    cases call with
    | submitRebalance protocol expectedApy minOut => exact hcarries.trans h.symm
    | reconcileRebalance protocol =>
      show c.protocol = protocol
      rw [hcarries]
      exact h.symm

/-! ## What a step does to the slot -/

omit [DecidableEq ι] in
/-- What a call finds in the slot. -/
theorem Sound.found (h : Sound env s) (hhash : hash ∈ s.shared.pendingRebalanceHash) :
    Only s.shared hash := by
  refine ⟨fun other hother => Option.mem_unique hother hhash, ?_, h.sent hash hhash⟩
  intro other hother
  rw [Option.mem_def, h.pending other hother] at hhash
  exact Option.some.inj hhash

/-- The subject of a call is the one that it had, or what is in the slot. -/
theorem Sound.agree_put (h : Sound env s) (hsubject : ∀ hash ∈ q.subject,
      hash ∈ (s.proc i).subject ∨ hash ∈ s.shared.pendingRebalanceHash) (j : ι) (hash : η)
    (hhash : hash ∈ ((s.put y i q).proc j).subject) (k : ι) (other : η)
    (hother : other ∈ ((s.put y i q).proc k).subject) : other = hash := by
  have hbefore : ∀ j, ∀ hash ∈ ((s.put y i q).proc j).subject,
      (∃ j, hash ∈ (s.proc j).subject) ∨ hash ∈ s.shared.pendingRebalanceHash := by
    intro j hash hhash
    by_cases hj : j = i
    · rw [hj, System.put_self] at hhash
      exact (hsubject hash hhash).imp_left fun hown => ⟨i, hown⟩
    · rw [System.put_other hj] at hhash
      exact .inl ⟨j, hhash⟩
  rcases hbefore j hash hhash with ⟨j', hj'⟩ | hslot
  · rcases hbefore k other hother with ⟨k', hk'⟩ | hslot'
    · exact h.agree j' hash hj' k' other hk'
    · exact (h.only j' hash hj').slot other hslot'
  · rcases hbefore k other hother with ⟨k', hk'⟩ | hslot'
    · exact ((h.only k' other hk').slot hash hslot).symm
    · exact Option.mem_unique hslot' hslot

/-- A step that leaves the slot alone. -/
theorem Sound.keep (h : Sound env s) (hclear : q.unsent = true → s.shared.unresolved = [])
    (hsubject : ∀ hash ∈ q.subject,
      hash ∈ (s.proc i).subject ∨ hash ∈ s.shared.pendingRebalanceHash)
    (hq : q.Owned env i s.shared.ledger) : Sound env (s.put s.shared i q) := by
  refine ⟨h.pending, h.sent, h.calm, h.carried, ?_, ?_, h.agree_put hsubject, ?_⟩
  · exact System.put_forall (x := s.shared)
      (P := fun _ (q : Stage η) => q.unsent = true → s.shared.unresolved = []) hclear
      fun j _ => h.clear j
  · refine System.put_forall (x := s.shared)
      (P := fun _ (q : Stage η) => ∀ hash ∈ q.subject, Only s.shared hash) ?_ fun j _ => h.only j
    intro hash hhash
    rcases hsubject hash hhash with hown | hslot
    · exact h.only i hash hown
    · exact h.found hslot
  · exact System.put_forall (x := s.shared)
      (P := fun j (q : Stage η) => q.Owned env j s.shared.ledger) hq fun j _ => h.owned j

/-- The end of a call's transaction becomes known, so that of every transaction is. -/
theorem Sound.settle (h : Sound env s) (hasked : hash ∈ (s.proc i).subject)
    (hsubject : ∀ hash ∈ q.subject, hash ∈ (s.proc i).subject)
    (hq : q.Owned env i s.shared.ledger) :
    Sound env (s.put (s.shared.settle (some hash)) i q) := by
  have hnone : (s.shared.settle (some hash)).unresolved = [] := by
    refine List.eq_nil_iff_forall_not_mem.mpr fun other hother => ?_
    obtain ⟨hsent, hunknown⟩ := Shared.mem_unresolved.mp hother
    simp only [Shared.settle, List.mem_append, Option.mem_toList, not_or] at hsent hunknown
    have hbefore : other ∈ s.shared.unresolved := Shared.mem_unresolved.mpr ⟨hsent, hunknown.2⟩
    exact hunknown.1 (congrArg some ((h.only i hash hasked).unresolved other hbefore).symm)
  refine ⟨?_, nofun, h.calm, h.carried, fun _ _ => hnone, ?_,
    h.agree_put fun hash hhash => .inl (hsubject hash hhash), ?_⟩
  · intro other hother
    rw [System.put_shared, hnone] at hother
    cases hother
  · have honly : ∀ other, Only s.shared other → Only (s.shared.settle (some hash)) other := by
      intro other hother
      refine ⟨nofun, ?_, hother.sent⟩
      rw [hnone]
      nofun
    exact System.put_forall (x := s.shared.settle (some hash))
      (P := fun _ (q : Stage η) => ∀ hash' ∈ q.subject, Only (s.shared.settle (some hash)) hash')
      (fun other hother => honly other (h.only i other (hsubject other hother)))
      fun j _ other hother => honly other (h.only j other hother)
  · exact System.put_forall (x := s.shared.settle (some hash))
      (P := fun j (q : Stage η) => q.Owned env j s.shared.ledger) hq fun j _ => h.owned j

/-- What a call is told about its transaction. -/
theorem Sound.learn (h : Sound env s) (hanswer : s.shared.Answers asked status)
    (hasked : asked = (s.proc i).subject)
    (hclear : q.unsent = true → status ≠ .notFound)
    (hsubject : ∀ hash ∈ q.subject, hash ∈ (s.proc i).subject)
    (hq : q.Owned env i s.shared.ledger) :
    Sound env (s.put (s.shared.learn asked status) i q) := by
  by_cases hstatus : status = .notFound
  · subst hstatus
    exact h.keep (fun hunsent => absurd rfl (hclear hunsent))
      (fun hash hhash => .inl (hsubject hash hhash)) hq
  · rcases hanswer with hnone | ⟨hash, hhash, -⟩
    · exact absurd hnone hstatus
    · have hown : hash ∈ (s.proc i).subject := hasked ▸ hhash
      have hsettled := h.settle hown hsubject hq
      obtain rfl : asked = some hash := hhash
      cases status with
      | notFound => exact absurd rfl hstatus
      | success => exact hsettled
      | failed => exact hsettled

/-- A transaction is sent by the only call that has read the slot. -/
theorem Sound.send (h : Sound env s) (hi : (s.proc i).unsent = true)
    (halone : ∀ j, j ≠ i → (s.proc j).active = false)
    (hfits : (env.call i).Fits (env.carries hash)) :
    Sound env (s.put (s.shared.send (env.call i) hash) i (.sending hash)) := by
  have hbefore := h.clear i hi
  have hunresolved : ∀ other ∈ (s.shared.send (env.call i) hash).unresolved, other = hash := by
    intro other hother
    obtain ⟨hsent, hunknown⟩ := Shared.mem_unresolved.mp hother
    simp only [Shared.send, List.map_cons, List.mem_cons, List.mem_filter, decide_eq_true_eq,
      not_and, not_not] at hsent hunknown
    by_contra hsame
    have hopen : other ∈ s.shared.unresolved := by
      refine Shared.mem_unresolved.mpr ⟨hsent.resolve_left hsame, ?_⟩
      intro hknown
      exact hsame (hunknown hknown)
    rw [hbefore] at hopen
    cases hopen
  have hsubject : ∀ j, ∀ other ∈ ((s.put (s.shared.send (env.call i) hash) i
      (.sending hash)).proc j).subject, other = hash := by
    intro j other hother
    by_cases hj : j = i
    · rw [hj, System.put_self] at hother
      exact (Option.some.inj hother).symm
    · rw [System.put_other hj] at hother
      have hactive := Stage.active_of_subject hother
      rw [halone j hj] at hactive
      cases hactive
  have hlast : ∃ send ∈ (s.shared.send (env.call i) hash).sends, send.hash = hash :=
    ⟨_, List.mem_cons_self, rfl⟩
  refine ⟨?_, ?_, ?_, ?_, ?_, ?_, ?_, ?_⟩
  · intro other hother
    rw [hunresolved other hother]
    rfl
  · intro other hother
    obtain rfl := Option.some.inj hother
    exact hlast
  · intro send hsend
    rcases List.mem_cons.mp hsend with rfl | hold
    · exact hbefore
    · exact h.calm send hold
  · intro send hsend
    rcases List.mem_cons.mp hsend with rfl | hold
    · exact hfits
    · exact h.carried send hold
  · intro j hj
    by_cases hji : j = i
    · rw [hji, System.put_self] at hj
      cases hj
    · rw [System.put_other hji] at hj
      have hactive := Stage.active_of_unsent hj
      rw [halone j hji] at hactive
      cases hactive
  · intro j other hother
    rw [hsubject j other hother]
    exact ⟨fun _ hslot => (Option.some.inj hslot).symm, hunresolved, hlast⟩
  · intro j hash' hhash k other hother
    rw [hsubject j hash' hhash, hsubject k other hother]
  · exact System.put_forall (x := s.shared.send (env.call i) hash)
      (P := fun j (q : Stage η) => q.Owned env j s.shared.ledger) hfits fun j _ => h.owned j

/-- The RPC's answer to a send puts the call's hash back into the slot. -/
theorem Sound.respond (h : Sound env s) (hown : hash ∈ (s.proc i).subject)
    (hasked : asked = none ∨ asked = some hash) {round : ℕ}
    (hq : (Stage.polling asked round).Owned env i s.shared.ledger) :
    Sound env (s.put { s.shared with
      pendingRebalanceHash := asked.or s.shared.pendingRebalanceHash } i (.polling asked round)) := by
  have honly := h.only i hash hown
  rcases hasked with rfl | rfl
  · exact h.keep nofun nofun hq
  · refine ⟨?_, ?_, h.calm, h.carried, ?_, ?_, ?_, ?_⟩
    · intro other hother
      rw [honly.unresolved other hother]
      rfl
    · intro other hother
      obtain rfl := Option.some.inj hother
      exact honly.sent
    · exact System.put_forall (x := s.shared)
        (P := fun _ (q : Stage η) => q.unsent = true → s.shared.unresolved = []) nofun
        fun j _ => h.clear j
    · have hsame : ∀ j, ∀ other ∈ ((s.put s.shared i (.polling (some hash) round)).proc j).subject,
          other = hash := by
        intro j other hother
        by_cases hj : j = i
        · rw [hj, System.put_self] at hother
          exact (Option.some.inj hother).symm
        · rw [System.put_other hj] at hother
          exact h.agree i hash hown j other hother
      intro j other hother
      rw [hsame j other hother]
      exact ⟨fun _ hslot => (Option.some.inj hslot).symm, honly.unresolved, honly.sent⟩
    · refine h.agree_put fun other hother => .inl ?_
      obtain rfl := Option.some.inj hother
      exact hown
    · exact System.put_forall (x := s.shared)
        (P := fun j (q : Stage η) => q.Owned env j s.shared.ledger) hq fun j _ => h.owned j

omit [DecidableEq ι] in
/-- A call learns that the pending transaction that it asked about succeeded. -/
theorem Sound.fits (h : Sound env s)
    (hok : Undisturbed env s (.act i (.answer .success))) (hasks : hash ∈ (s.proc i).asks)
    (hsubject : hash ∈ (s.proc i).subject) : (env.call i).Fits (env.carries hash) := by
  obtain ⟨send, hsend, rfl⟩ := (h.only i hash hsubject).sent
  have hrepeats : (env.call i).Repeats send.call := hok send.hash hasks send hsend rfl
  exact hrepeats.fits (h.carried send hsend)

/-! ## What a stage leads to -/

omit [DecidableEq η] in
/-- What the RPC calls a success is one. -/
theorem Shared.Answers.success (h : x.Answers asked .success) (hhash : hash ∈ asked) :
    x.ledger hash = .success := by
  rcases h with hnone | ⟨other, hother, hledger⟩
  · cases hnone
  · rw [Option.mem_unique hhash hother]
    exact hledger

omit [DecidableEq ι] [DecidableEq η] in
theorem owned_nextPoll {txHash : Option η} {round : ℕ} {ledger : η → Status}
    (h : ∀ hash ∈ txHash, (env.call i).Fits (env.carries hash)) :
    (nextPoll txHash round).Owned env i ledger := by
  unfold nextPoll
  split_ifs
  · exact h
  · trivial

omit [DecidableEq η] in
theorem nextPoll_unsent {txHash : Option η} {round : ℕ} : (nextPoll txHash round).unsent = false := by
  unfold nextPoll
  split_ifs <;> rfl

omit [DecidableEq η] in
theorem mem_nextPoll {txHash : Option η} {round : ℕ} (h : hash ∈ (nextPoll txHash round).subject) :
    hash ∈ txHash := by
  unfold nextPoll at h
  split_ifs at h
  · exact h
  · cases h

/-- A call starts: a submission goes on to send only if it finds the slot empty. -/
theorem Sound.start (h : Sound env s) :
    Sound env (s.put s.shared i (Submission.start env i s.shared)) := by
  have hclear : s.shared.pendingRebalanceHash = none → s.shared.unresolved = [] := by
    intro hnone
    refine List.eq_nil_iff_forall_not_mem.mpr fun other hother => ?_
    have hpending := h.pending other hother
    rw [hnone] at hpending
    cases hpending
  unfold Submission.start
  cases env.call i with
  | submitRebalance protocol expectedApy minOut =>
    dsimp only
    split
    · exact h.keep nofun nofun trivial
    · refine h.keep nofun ?_ trivial
      intro hash hhash
      obtain rfl := Option.some.inj hhash
      exact .inr (by assumption)
    · exact h.keep (fun _ => hclear (by assumption)) nofun trivial
  | reconcileRebalance protocol =>
    dsimp only
    split_ifs
    · exact h.keep nofun nofun nofun
    · exact h.keep nofun nofun trivial

/-- One step of a call. -/
theorem Sound.act (h : Sound env s) {o : Outcome η} (hok : Undisturbed env s (.act i o))
    (hstep : step env i s.shared (s.proc i) o = some (x, q)) : Sound env (s.put x i q) := by
  have howned := h.owned i
  cases hi : s.proc i with
  | idle =>
    rw [hi] at hstep
    cases o with
    | start =>
      obtain ⟨rfl, rfl⟩ : s.shared = x ∧ Submission.start env i s.shared = q := by
        simpa [step] using hstep
      exact h.start
    | _ => cases hstep
  | prior asked =>
    rw [hi] at hstep
    have hsubject : asked ∈ (s.proc i).subject := by rw [hi]; rfl
    cases o with
    | answer status =>
      obtain ⟨hanswer, rfl, rfl⟩ : s.shared.Answers (some asked) status ∧ _ = x ∧ _ = q := by
        simpa [step] using hstep
      cases status with
      | notFound => exact h.learn hanswer hsubject.symm nofun nofun trivial
      | failed => exact h.learn hanswer hsubject.symm nofun nofun trivial
      | success =>
        refine h.learn hanswer hsubject.symm nofun nofun ?_
        intro hash hhash
        obtain rfl := (h.only i asked hsubject).slot hash hhash
        exact ⟨hanswer.success rfl, h.fits hok (by rw [hi]; rfl) hsubject⟩
    | throws =>
      obtain ⟨rfl, rfl⟩ : s.shared = x ∧ Stage.rejected = q := by simpa [step] using hstep
      exact h.keep nofun nofun trivial
    | _ => cases hstep
  | loading =>
    rw [hi] at hstep
    cases o with
    | ok =>
      obtain ⟨rfl, rfl⟩ : s.shared = x ∧ Stage.preparing = q := by simpa [step] using hstep
      exact h.keep (fun _ => h.clear i (by rw [hi]; rfl)) nofun trivial
    | throws =>
      obtain ⟨rfl, rfl⟩ : s.shared = x ∧ Stage.rejected = q := by simpa [step] using hstep
      exact h.keep nofun nofun trivial
    | _ => cases hstep
  | preparing =>
    rw [hi] at hstep
    cases o with
    | prepared hash =>
      obtain ⟨hfits, rfl, rfl⟩ : (env.call i).Fits (env.carries hash) ∧ _ = x ∧ _ = q := by
        simpa [step] using hstep
      exact h.send (by rw [hi]; rfl) hok hfits
    | throws =>
      obtain ⟨rfl, rfl⟩ : s.shared = x ∧ Stage.rejected = q := by simpa [step] using hstep
      exact h.keep nofun nofun trivial
    | _ => cases hstep
  | sending hash =>
    rw [hi] at hstep howned
    have hsubject : hash ∈ (s.proc i).subject := by rw [hi]; rfl
    cases o with
    | error =>
      obtain ⟨rfl, rfl⟩ : _ = x ∧ Stage.rejected = q := by simpa [step] using hstep
      exact h.settle hsubject nofun trivial
    | response txHash =>
      obtain ⟨hhash, rfl, rfl⟩ : (txHash = none ∨ txHash = some hash) ∧ _ = x ∧ _ = q := by
        simpa [step] using hstep
      refine h.respond hsubject hhash ?_
      intro other hother
      rcases hhash with rfl | rfl
      · cases hother
      · obtain rfl := Option.some.inj hother
        exact howned
    | throws =>
      obtain ⟨rfl, rfl⟩ : s.shared = x ∧ Stage.rejected = q := by simpa [step] using hstep
      exact h.keep nofun nofun trivial
    | _ => cases hstep
  | polling txHash round =>
    rw [hi] at hstep howned
    have hsubject : txHash = (s.proc i).subject := by rw [hi]; rfl
    have hnext : ∀ hash ∈ (nextPoll txHash round).subject, hash ∈ (s.proc i).subject := by
      intro hash hhash
      rw [← hsubject]
      exact mem_nextPoll hhash
    have hunsent : ∀ status : Status, (nextPoll txHash round).unsent = true → status ≠ .notFound := by
      intro status hcontra
      rw [nextPoll_unsent] at hcontra
      cases hcontra
    cases o with
    | answer status =>
      obtain ⟨hanswer, rfl, rfl⟩ : s.shared.Answers txHash status ∧ _ = x ∧ _ = q := by
        simpa [step] using hstep
      cases status with
      | notFound => exact h.learn hanswer hsubject (hunsent _) hnext (owned_nextPoll howned)
      | failed => exact h.learn hanswer hsubject (hunsent _) hnext (owned_nextPoll howned)
      | success =>
        refine h.learn hanswer hsubject nofun nofun ?_
        intro hash hhash
        exact ⟨hanswer.success hhash, howned hash hhash⟩
    | throws =>
      obtain ⟨rfl, rfl⟩ : s.shared = x ∧ nextPoll txHash round = q := by simpa [step] using hstep
      refine h.keep ?_ (fun hash hhash => .inl (hnext hash hhash)) (owned_nextPoll howned)
      intro hcontra
      rw [nextPoll_unsent] at hcontra
      cases hcontra
    | _ => cases hstep
  | importing =>
    rw [hi] at hstep
    cases o with
    | ok =>
      obtain ⟨rfl, rfl⟩ : s.shared = x ∧ Stage.reconciling s.shared.pendingRebalanceHash = q := by
        simpa [step] using hstep
      exact h.keep nofun (fun hash hhash => .inr hhash) trivial
    | _ => cases hstep
  | reconciling pendingHash =>
    rw [hi] at hstep
    have hsubject : pendingHash = (s.proc i).subject := by rw [hi]; rfl
    cases o with
    | answer status =>
      obtain ⟨hanswer, rfl, rfl⟩ : s.shared.Answers pendingHash status ∧ _ = x ∧ _ = q := by
        simpa [step] using hstep
      cases status with
      | notFound => exact h.learn hanswer hsubject nofun nofun nofun
      | failed => exact h.learn hanswer hsubject nofun nofun nofun
      | success =>
        refine h.learn hanswer hsubject nofun nofun ?_
        intro hash hhash
        have hasks : hash ∈ (s.proc i).asks := by rw [hi]; exact hhash
        exact ⟨hanswer.success hhash, h.fits hok hasks (hsubject ▸ hhash)⟩
    | throws =>
      obtain ⟨rfl, rfl⟩ : s.shared = x ∧ Stage.rejected = q := by simpa [step] using hstep
      exact h.keep nofun nofun trivial
    | _ => cases hstep
  | resolved _ =>
    rw [hi] at hstep
    cases o <;> cases hstep
  | rejected =>
    rw [hi] at hstep
    cases o <;> cases hstep

omit [DecidableEq ι] in
/-- A success on chain is final. -/
theorem Sound.world (h : Sound env s) {c : Change η} (hc : around s.shared c = some x) :
    Sound env ⟨x, s.proc⟩ := by
  cases c with
  | includes hash succeeded =>
    obtain ⟨⟨-, hopen⟩, rfl⟩ :
        (hash ∈ s.shared.sends.map Send.hash ∧ s.shared.ledger hash = .notFound) ∧ _ = x := by
      simpa only [around, Option.ite_none_right_eq_some, Option.some.injEq] using hc
    refine ⟨h.pending, h.sent, h.calm, h.carried, h.clear, ?_, h.agree, ?_⟩
    · intro i other hother
      obtain ⟨hslot, hunresolved, hsent⟩ := h.only i other hother
      exact ⟨hslot, hunresolved, hsent⟩
    intro i
    have howned := h.owned i
    cases hi : s.proc i with
    | resolved txHash =>
      rw [hi] at howned
      intro other hother
      obtain ⟨hledger, hfits⟩ := howned other hother
      have hne : other ≠ hash := by
        rintro rfl
        rw [hopen] at hledger
        cases hledger
      refine ⟨?_, hfits⟩
      simp only [Function.update_of_ne hne]
      exact hledger
    | _ =>
      rw [hi] at howned
      exact howned

theorem sound_of_reaches (h : Reaches (rules env) (Undisturbed env) fresh s) : Sound env s := by
  apply h.invariant
  · exact ⟨nofun, nofun, nofun, nofun, nofun, nofun, nofun, fun _ => trivial⟩
  · intro t i o x q hok ht hstep
    exact ht.act hok hstep
  · intro t c x _ ht hc
    exact ht.world hc

/-- While no call sends before every other one that has read the slot has ended, and another's
    transaction is found to have succeeded only by a call for the same rebalance, a rebalance is sent
    only when the end of every earlier one is known, and a hash a call resolves with is a success of
    what was asked. -/
theorem one_in_flight_when_undisturbed
    (h : Reaches (rules env) (Undisturbed env) fresh s) :
    (∀ send ∈ s.shared.sends, send.unresolved = []) ∧
      ∀ i hash, s.proc i = .resolved (some hash) →
        s.shared.ledger hash = .success ∧ (env.call i).Fits (env.carries hash) := by
  have hs := sound_of_reaches h
  refine ⟨hs.calm, ?_⟩
  intro i hash hi
  have howned := hs.owned i
  rw [hi] at howned
  exact howned hash rfl

namespace Sample

def first : Option Bool := some false

def second : Option Bool := some true

def check : Option Bool := none

/-- Two submissions for different protocols, and a reconciliation of the first; transaction `0` is
    the first's, every other the second's. -/
def threeCalls : Env (Option Bool) ℕ where
  call
    | some false => .submitRebalance .dex 0 1
    | some true => .submitRebalance .blend 0 1
    | none => .reconcileRebalance .dex
  agentSecret := some "SAGENT"
  carries hash := if hash = 0 then submitRebalance .dex 0 1 else submitRebalance .blend 0 1

/-- The answer to a send is lost; a reconciliation finds that it succeeded, and the second
    submission is sent and found. -/
def reconciled : System (Option Bool) (Shared ℕ) (Stage ℕ) :=
  [.act first .start, .act first .ok, .act first (.prepared 0), .act first .throws,
    .world (.includes 0 true), .act check .start, .act check .ok, .act check (.answer .success),
    .act second .start, .act second .ok, .act second (.prepared 1), .act second (.response (some 1)),
    .act second (.answer .notFound), .world (.includes 1 true),
    .act second (.answer .success)].foldl (rules threeCalls).after fresh

theorem reconciled_succeeded :
    reconciled.proc check = .resolved (some 0) ∧ reconciled.shared.ledger 0 = .success ∧
      reconciled.proc second = .resolved (some 1) ∧ reconciled.shared.ledger 1 = .success ∧
      reconciled.shared.sends.map Send.hash = [1, 0] ∧
      ∀ send ∈ reconciled.shared.sends, send.unresolved = [] := by
  have hreaches : Reaches (rules threeCalls) (Undisturbed threeCalls) fresh reconciled :=
    .of_admits (by decide +kernel)
  have hcheck : reconciled.proc check = .resolved (some 0) := by decide +kernel
  have hsecond : reconciled.proc second = .resolved (some 1) := by decide +kernel
  obtain ⟨hcalm, hreturned⟩ := one_in_flight_when_undisturbed hreaches
  exact ⟨hcheck, (hreturned check 0 hcheck).1, hsecond, (hreturned second 1 hsecond).1,
    by decide +kernel, hcalm⟩

/-- Two submissions find the slot empty and both send. -/
def crossed : System (Option Bool) (Shared ℕ) (Stage ℕ) :=
  [.act first .start, .act second .start, .act first .ok, .act second .ok, .act first (.prepared 0),
    .act second (.prepared 1)].foldl (rules threeCalls).after fresh

/-- The answer to a send is lost; the next submission returns that transaction as its own. -/
def mistaken : System (Option Bool) (Shared ℕ) (Stage ℕ) :=
  [.act first .start, .act first .ok, .act first (.prepared 0), .act first .throws,
    .world (.includes 0 true), .act second .start,
    .act second (.answer .success)].foldl (rules threeCalls).after fresh

theorem overlaps_and_misreports :
    (Reaches (rules threeCalls) (fun _ _ => True) fresh crossed ∧
      crossed.shared.sends.map Send.hash = [1, 0] ∧
      crossed.shared.sends.map Send.unresolved = [[0], []]) ∧
    Reaches (rules threeCalls) (fun _ _ => True) fresh mistaken ∧
      mistaken.proc second = .resolved (some 0) ∧
      ¬ (threeCalls.call second).Fits (threeCalls.carries 0) :=
  ⟨⟨.of_steps _, by decide +kernel, by decide +kernel⟩, .of_steps _, by decide +kernel,
    by decide +kernel⟩

end Sample

end NeuroWealth.YieldCheck.Submission
