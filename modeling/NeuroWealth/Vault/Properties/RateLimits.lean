import NeuroWealth.Vault.Machine
import NeuroWealth.Vault.Proofs.RateLimitsProofs

/-!
# Rate-limit windows

Whatever the pattern of attempts at a bucket, the calls it admits in any window are bounded, it
rejects only what is above the allowance, and its read-only view tells which of the two comes next.
-/

namespace NeuroWealth.Vault

open Transaction MachineInt RateWindow

variable {env : Env} {w w' w0 : World} {category : RateLimitCategory} {user : Option Address}
  {M W : ℕ} {log : List Attempt}

/-- An attempt to spend one call of a bucket. -/
def World.attempt (w : World) (env : Env) (category : RateLimitCategory)
    (user : Option Address) : Attempt where
  time := w.chain.sequence
  admitted := (enforceRateLimit category user).succeeds env w
  opens := decide ((w.running user category).calls = 0)

/-- Attempts at a bucket that was never used, under a policy of `M` calls in `W` ledgers. In
    between anything may happen that leaves the bucket alone, and the ledger does not turn back. -/
inductive Attempts (category : RateLimitCategory) (user : Option Address) (M W : ℕ)
    (w0 : World) : List Attempt → World → Prop
  | start (hunused : w0.buckets.state user category = none) : Attempts category user M W w0 [] w0
  | attempt {log : List Attempt} {w : World} (h : Attempts category user M W w0 log w)
      (hpolicy : w.rateLimit category = ⟨M, W⟩) (env : Env) :
      Attempts category user M W w0 (log ++ [w.attempt env category user])
        ((enforceRateLimit category user).commit env w)
  | meanwhile {log : List Attempt} {w w' : World} (h : Attempts category user M W w0 log w)
      (hbucket : w'.buckets.state user category = w.buckets.state user category)
      (hledger : w.chain.sequence ≤ w'.chain.sequence) : Attempts category user M W w0 log w'

/-- An attempt is one at a fixed-window limiter. -/
theorem attempt_eq (hvalid : category.isValid = true) (hM : 0 < M) (hmax : M ≤ 4294967295)
    (hpolicy : w.rateLimit category = ⟨M, W⟩) :
    w.attempt env category user = attemptAt M W w.chain.sequence (w.window user category) ∧
      ((enforceRateLimit category user).commit env w).window user category =
        afterAttempt M W w.chain.sequence (w.window user category) ∧
      ((enforceRateLimit category user).commit env w).chain = w.chain := by
  have henabled : (w.rateLimit category).maxCalls ≠ 0 := by
    rw [hpolicy]
    exact hM.ne'
  have hwindow : current W w.chain.sequence (w.window user category) = _ :=
    current_window hpolicy
  have hlimit : (w.rateLimit category).maxCalls = M := by rw [hpolicy]
  unfold attemptAt afterAttempt
  rw [hwindow]
  by_cases hcalls : (w.running user category).calls < M
  · have hrun : (enforceRateLimit category user).Ok env w () _ :=
      (ok_enforceRateLimit hvalid henabled).mpr ⟨hlimit ▸ hcalls, rfl⟩
    have hsucceeds := Tx.succeeds_of_ok hrun
    rw [if_pos hcalls, decide_eq_true hcalls, Tx.commit_of_ok hrun]
    refine ⟨?_, ?_, rfl⟩
    · unfold World.attempt
      rw [hsucceeds]
    · unfold World.window Buckets.set Window.spend
      simp only [and_self, if_true, Option.map_some, Option.some.injEq, Window.mk.injEq, true_and]
      exact Nat.min_eq_left (by omega)
  · have hfails : (enforceRateLimit category user).succeeds env w = false := by
      by_contra hne
      have hok := Tx.ok_commit (Bool.eq_true_of_not_eq_false hne)
      have hbelow := ((ok_enforceRateLimit hvalid henabled).mp hok).1
      rw [hlimit] at hbelow
      exact hcalls hbelow
    rw [if_neg hcalls, decide_eq_false hcalls, Tx.commit_of_fails hfails]
    refine ⟨?_, rfl, rfl⟩
    unfold World.attempt
    rw [hfails]

/-- The attempts of a bucket are attempts at its limiter, and lie in the past. -/
theorem Attempts.attempted (h : Attempts category user M W w0 log w)
    (hvalid : category.isValid = true) (hM : 0 < M) (hmax : M ≤ 4294967295) :
    Attempted M W log (w.window user category) ∧ ∀ a ∈ log, a.time ≤ w.chain.sequence := by
  induction h with
  | start hunused =>
    refine ⟨?_, fun a ha => absurd ha List.not_mem_nil⟩
    unfold World.window
    rw [hunused]
    exact .nil
  | @attempt log w h hpolicy env ih =>
    obtain ⟨hattempted, hpast⟩ := ih
    obtain ⟨hattempt, hwindow, hchain⟩ : w.attempt env category user = _ ∧ _ ∧ _ :=
      attempt_eq hvalid hM hmax hpolicy
    rw [hattempt, hwindow, hchain]
    refine ⟨hattempted.next hpast, fun a ha => ?_⟩
    rcases List.mem_append.mp ha with ha | ha
    · exact hpast a ha
    · rw [List.mem_singleton.mp ha]
      exact le_rfl
  | @meanwhile log w w' h hbucket hledger ih =>
    obtain ⟨hattempted, hpast⟩ := ih
    refine ⟨?_, fun a ha => (hpast a ha).trans hledger⟩
    unfold World.window at hattempted ⊢
    rw [hbucket]
    exact hattempted

/-- Of the attempts at a bucket any `W` consecutive ledgers admit at most `2 * M`, and the first `W`
    ledgers of a window at most `M`; a rejected attempt comes after `M` admitted ones in the `W`
    ledgers that end with it. In any state the view has calls left exactly if the next attempt
    passes. -/
theorem rate_limit_windows (hvalid : category.isValid = true) (hM : 0 < M)
    (hmax : M ≤ 4294967295) (hW : 0 < W) :
    (∀ w0 log w, Attempts category user M W w0 log w →
      (∀ n, countFrom W n (admittedTimes log) ≤ 2 * M) ∧
      (∀ a ∈ log, a.admitted = true → a.opens = true →
        countFrom W a.time (admittedTimes log) ≤ M) ∧
      ∀ pre a post, log = pre ++ a :: post → a.admitted = false →
        M ≤ countUntil W a.time (admittedTimes pre)) ∧
    ∀ env w, w.rateLimit category = ⟨M, W⟩ →
      ∃ state, (readRateLimitState category user).Ok env w state w ∧
        (state.calls < M ↔ ∃ w', (enforceRateLimit category user).Ok env w () w') := by
  constructor
  · intro w0 log w h
    obtain ⟨hattempted, -⟩ := h.attempted hvalid hM hmax
    refine ⟨hattempted.toAdmitted.countFrom_le, ?_⟩
    rcases hattempted.windowed hM hW with ⟨-, rfl⟩ | ⟨window, -, hwindowed⟩
    · refine ⟨fun a ha => absurd ha List.not_mem_nil, fun pre a post heq => ?_⟩
      simp at heq
    · exact ⟨fun a ha hadmitted hopens => (hwindowed.opened a ha hadmitted hopens).1,
        hwindowed.rejected⟩
  · intro env w hpolicy
    have henabled : (w.rateLimit category).maxCalls ≠ 0 := by
      rw [hpolicy]
      exact hM.ne'
    have hlimit : (w.rateLimit category).maxCalls = M := by rw [hpolicy]
    refine ⟨_, (ok_readRateLimitState hvalid henabled).mpr ⟨rfl, rfl⟩, ?_⟩
    rw [viewedWindow_calls, ← hlimit]
    constructor
    · intro hcalls
      exact ⟨_, (ok_enforceRateLimit hvalid henabled).mpr ⟨hcalls, rfl⟩⟩
    · rintro ⟨w', hok⟩
      exact ((ok_enforceRateLimit hvalid henabled).mp hok).1

namespace Sample

/-- A vault whose preview bucket admits two calls in three ledgers. -/
def previewing : World :=
  opened.after (.call honest (.setRateLimit .preview 2 3))

def preview (w : World) : World := (enforceRateLimit .preview none).commit honest w

/-- The same vault some ledgers later. -/
def later (w : World) (ledgers : ℕ) : World :=
  { w with chain := { w.chain with sequence := w.chain.sequence + ledgers } }

/-- Three previews at one ledger, the last of them rejected, and one when the window is over. -/
def previewed : World := preview (later (preview (preview (preview previewing))) 3)

theorem rate_limit_windows_previewed :
    ∃ log, Attempts .preview none 2 3 previewing log previewed ∧
      admittedTimes log = [1000, 1000, 1003] ∧
      ∀ n, countFrom 3 n (admittedTimes log) ≤ 2 * 2 := by
  have hwindows := @rate_limit_windows .preview none 2 3 (by decide) (by decide) (by decide)
    (by decide)
  have hstart : Attempts .preview none 2 3 previewing [] previewing := .start (by decide +kernel)
  have hthree := ((hstart.attempt (by decide +kernel) honest).attempt (by decide +kernel)
    honest).attempt (by decide +kernel) honest
  have hlater : Attempts .preview none 2 3 previewing _ (later _ 3) :=
    hthree.meanwhile rfl (Nat.le_add_right _ 3)
  have hlog := hlater.attempt (by decide +kernel) honest
  exact ⟨_, hlog, by decide +kernel, (hwindows.1 _ _ _ hlog).1⟩

end Sample

end NeuroWealth.Vault
