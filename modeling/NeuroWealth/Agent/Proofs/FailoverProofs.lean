import NeuroWealth.Agent.Failover

/-!
# Failover converges

Until the first write of two rounds of checks, every instance that has checked is a standby. From
that write on the lease names the least primary among those that have checked, and stays fresh.
-/

namespace NeuroWealth.Failover

open Interleaving

variable {ι α : Type} [LinearOrder α] {ttl now : ℕ} {x x0 : Shared α} {a m : α}

/-! ## One check -/

/-- An undisturbed check: load, decide, save. -/
def check (ttl : ℕ) (x : Shared α) (agentId : α) : Shared α :=
  match x.checkAndFailover ttl agentId x.lease with
  | (x, some lease, _) => { x with lease := some lease }
  | (x, none, _) => x

/-- What a check does: a primary yields to a lease of a lower id and otherwise writes its own; a
    standby writes its own when the lease is stale. -/
theorem check_cases (ttl : ℕ) (x : Shared α) (a : α) :
    (check ttl x a).clock = x.clock ∧ (check ttl x a).life = x.life ∧
    ((x.primary a = true ∧ (∃ l ∈ x.lease, l.primaryId < a) ∧ (check ttl x a).lease = x.lease ∧
        (check ttl x a).primary = Function.update x.primary a false) ∨
      ((x.primary a = true ∧ (∀ l ∈ x.lease, a ≤ l.primaryId) ∨
          x.primary a = false ∧ stale ttl x.clock x.lease) ∧
        (∃ seq, (check ttl x a).lease = some ⟨a, x.clock, seq⟩) ∧
        (check ttl x a).primary = Function.update x.primary a true) ∨
      (x.primary a = false ∧ ¬ stale ttl x.clock x.lease ∧ (check ttl x a).lease = x.lease ∧
        (check ttl x a).primary = x.primary)) := by
  cases hp : x.primary a with
  | true =>
    have hself : x.primary = Function.update x.primary a true := by
      rw [← hp, Function.update_eq_self]
    by_cases hlower : ∃ l ∈ x.lease, l.primaryId < a
    · obtain ⟨l, hl, hlt⟩ := hlower
      have hl' : x.lease = some l := hl
      have hcheck : check ttl x a = x.stepDown a := by
        simp [check, Shared.checkAndFailover, hp, hl', hlt.ne, hlt.le]
      rw [hcheck]
      exact ⟨rfl, rfl, .inl ⟨rfl, ⟨l, hl, hlt⟩, rfl, rfl⟩⟩
    · have hge : ∀ l ∈ x.lease, a ≤ l.primaryId := by
        intro l hl
        by_contra hlt
        exact hlower ⟨l, hl, not_le.mp hlt⟩
      have hcheck : check ttl x a = { (x.beat a).1 with lease := some (x.beat a).2 } := by
        cases hl : x.lease with
        | none => simp [check, Shared.checkAndFailover, hp, hl]
        | some l =>
          have hal := hge l hl
          have hkeep : l.primaryId = a ∨ ¬ l.primaryId ≤ a := by
            rcases hal.eq_or_lt with h | h
            · exact .inl h.symm
            · exact .inr (not_le.mpr h)
          rcases hkeep with h | h
          · simp [check, Shared.checkAndFailover, hp, hl, h]
          · simp [check, Shared.checkAndFailover, hp, hl, h]
      rw [hcheck]
      exact ⟨rfl, rfl, .inr (.inl ⟨.inl ⟨rfl, hge⟩, ⟨_, rfl⟩, hself⟩)⟩
  | false =>
    by_cases hstale : stale ttl x.clock x.lease
    · have hfree : x.lease.any (fun lease => lease.primaryId ≠ a ∧
          ¬ lease.beatAt + ttl < x.clock ∧ lease.primaryId < a) = false := by
        cases hl : x.lease with
        | none => rfl
        | some l =>
          rw [hl] at hstale
          have : l.beatAt + ttl < x.clock := hstale
          simp [this]
      simp only [check, Shared.checkAndFailover, hp, hstale, Shared.acquireLease, hfree]
      exact ⟨rfl, rfl, .inr (.inl ⟨.inr ⟨trivial, trivial⟩, ⟨_, rfl⟩, rfl⟩)⟩
    · simp only [check, Shared.checkAndFailover, hp, hstale]
      exact ⟨rfl, rfl, .inr (.inr ⟨trivial, not_false, rfl, rfl⟩)⟩

omit [LinearOrder α] in
/-- A stale lease stays stale. -/
theorem stale_mono {now' : ℕ} {lease : Option (FailoverLease α)} (hle : now ≤ now')
    (h : stale ttl now lease) : stale ttl now' lease := by
  cases lease with
  | none => trivial
  | some l =>
    have : l.beatAt + ttl < now := h
    show l.beatAt + ttl < now'
    omega

/-! ## The first round -/

/-- No check has written yet: the lease is the first one, and the instances in `checked` are
    standbys, none of them a primary the lease named. -/
structure Unwritten (x0 x : Shared α) (checked : List α) : Prop where
  lease : x.lease = x0.lease
  standby : ∀ a ∈ checked, x.primary a = false
  others : ∀ a, a ∉ checked → x.primary a = x0.primary a
  unnamed : ∀ a ∈ checked, ∀ l ∈ x0.lease, l.primaryId = a → x0.primary a = false

/-- A check has written since `start`: the lease names `m`, the least primary among `checked`. -/
structure Led (start : ℕ) (x : Shared α) (checked : List α) (m : α) : Prop where
  named : ∃ l ∈ x.lease, l.primaryId = m ∧ start ≤ l.beatAt
  mem : m ∈ checked
  primary : x.primary m = true
  least : ∀ a ∈ checked, x.primary a = true → m ≤ a

/-- A lease written since `start` is fresh for one time to live. -/
theorem Led.fresh {start : ℕ} {checked : List α} (h : Led start x checked m)
    (hnow : now ≤ start + ttl) : ¬ stale ttl now x.lease := by
  obtain ⟨l, hl, -, hstart⟩ := h.named
  have hl' : x.lease = some l := hl
  rw [hl']
  show ¬ l.beatAt + ttl < now
  omega

/-- An instance's first check before any write. -/
theorem Unwritten.check {start : ℕ} {checked : List α} (h : Unwritten x0 x checked)
    (ha : a ∉ checked) (hstart : start ≤ x.clock) :
    Unwritten x0 (check ttl x a) (a :: checked) ∨
      Led start (Failover.check ttl x a) (a :: checked) a := by
  have hother : ∀ b ∈ checked, b ≠ a := by
    rintro b hb rfl
    exact ha hb
  obtain ⟨-, -, hcases⟩ := check_cases ttl x a
  rcases hcases with ⟨hp, ⟨l, hl, hlt⟩, hlease, hprimary⟩ | ⟨-, ⟨seq, hlease⟩, hprimary⟩ |
    ⟨hp, -, hlease, hprimary⟩
  · left
    refine ⟨hlease.trans h.lease, ?_, ?_, ?_⟩
    · intro b hb
      rw [hprimary]
      rcases List.mem_cons.mp hb with rfl | hb
      · exact Function.update_self ..
      · rw [Function.update_of_ne (hother b hb)]
        exact h.standby b hb
    · intro b hb
      rw [List.mem_cons, not_or] at hb
      rw [hprimary, Function.update_of_ne hb.1]
      exact h.others b hb.2
    · intro b hb l' hl' hname
      rcases List.mem_cons.mp hb with rfl | hb
      · rw [← h.lease, Option.mem_def.mp hl] at hl'
        obtain rfl : l = l' := Option.some.inj hl'
        exact absurd hname hlt.ne
      · exact h.unnamed b hb l' hl' hname
  · right
    refine ⟨⟨_, hlease, rfl, hstart⟩, List.mem_cons_self, ?_, ?_⟩
    · rw [hprimary]
      exact Function.update_self ..
    · intro b hb hbp
      rcases List.mem_cons.mp hb with rfl | hb
      · exact le_rfl
      · rw [hprimary, Function.update_of_ne (hother b hb), h.standby b hb] at hbp
        exact absurd hbp (by decide)
  · left
    refine ⟨hlease.trans h.lease, ?_, ?_, ?_⟩
    · intro b hb
      rw [hprimary]
      rcases List.mem_cons.mp hb with rfl | hb
      · exact hp
      · exact h.standby b hb
    · intro b hb
      rw [List.mem_cons, not_or] at hb
      rw [hprimary]
      exact h.others b hb.2
    · intro b hb l' hl' hname
      rcases List.mem_cons.mp hb with rfl | hb
      · rw [← h.others b ha]
        exact hp
      · exact h.unnamed b hb l' hl' hname

/-- An instance's first check after a write. -/
theorem Led.check {start : ℕ} {checked : List α} (h : Led start x checked m)
    (ha : a ∉ checked) (hstart : start ≤ x.clock) (hnow : x.clock ≤ start + ttl) :
    ∃ m, Led start (check ttl x a) (a :: checked) m := by
  have hother : ∀ b ∈ checked, b ≠ a := by
    rintro b hb rfl
    exact ha hb
  obtain ⟨l0, hl0, hname, hbeat⟩ := h.named
  obtain ⟨-, -, hcases⟩ := check_cases ttl x a
  rcases hcases with ⟨-, -, hlease, hprimary⟩ | ⟨hwhy, ⟨seq, hlease⟩, hprimary⟩ |
    ⟨hp, -, hlease, hprimary⟩
  · refine ⟨m, ⟨l0, by rw [hlease]; exact hl0, hname, hbeat⟩, List.mem_cons_of_mem _ h.mem, ?_, ?_⟩
    · rw [hprimary, Function.update_of_ne (hother m h.mem)]
      exact h.primary
    · intro b hb hbp
      rw [hprimary] at hbp
      rcases List.mem_cons.mp hb with rfl | hb
      · rw [Function.update_self] at hbp
        exact absurd hbp (by decide)
      · rw [Function.update_of_ne (hother b hb)] at hbp
        exact h.least b hb hbp
  · -- the writer is a primary with a lower id: a standby would have found the lease fresh
    have ham : a ≤ m := by
      rcases hwhy with ⟨-, hge⟩ | ⟨-, hstale⟩
      · rw [← hname]
        exact hge l0 hl0
      · exact absurd hstale (h.fresh hnow)
    refine ⟨a, ⟨_, hlease, rfl, hstart⟩, List.mem_cons_self, ?_, ?_⟩
    · rw [hprimary]
      exact Function.update_self ..
    · intro b hb hbp
      rcases List.mem_cons.mp hb with rfl | hb
      · exact le_rfl
      · rw [hprimary, Function.update_of_ne (hother b hb)] at hbp
        exact ham.trans (h.least b hb hbp)
  · refine ⟨m, ⟨l0, by rw [hlease]; exact hl0, hname, hbeat⟩, List.mem_cons_of_mem _ h.mem, ?_, ?_⟩
    · rw [hprimary]
      exact h.primary
    · intro b hb hbp
      rw [hprimary] at hbp
      rcases List.mem_cons.mp hb with rfl | hb
      · rw [hp] at hbp
        exact absurd hbp (by decide)
      · exact h.least b hb hbp

/-! ## The second round -/

/-- The second round so far: a standby everywhere and a fresh lease, or one leader left among
    `checked`. -/
inductive Settling (start0 start : ℕ) (ttl : ℕ) (x0 x : Shared α) (live checked : List α) : Prop
  | quiet (lease : x.lease = x0.lease) (standby : ∀ a ∈ live, x.primary a = false)
      (unnamed : ∀ a ∈ live, ∀ l ∈ x0.lease, l.primaryId = a → x0.primary a = false)
      (fresh : checked ≠ [] → ¬ stale ttl start0 x0.lease)
  | led (m : α) (led : Led start x live m) (alone : ∀ a ∈ checked, x.primary a = true → a = m)

/-- A check of the second round. -/
theorem Settling.check {start0 start : ℕ} {live checked : List α}
    (h : Settling start0 start ttl x0 x live checked) (ha : a ∈ live)
    (hsub : ∀ b ∈ checked, b ∈ live) (hstart0 : start0 ≤ x.clock) (hstart : start ≤ x.clock)
    (hnow : x.clock ≤ start + ttl) :
    Settling start0 start ttl x0 (check ttl x a) live (a :: checked) := by
  obtain ⟨-, -, hcases⟩ := check_cases ttl x a
  cases h with
  | quiet hsame hstandby hunnamed hfresh =>
    rcases hcases with ⟨hp, -, -, -⟩ | ⟨-, ⟨seq, hlease⟩, hprimary⟩ | ⟨-, hns, hlease, hprimary⟩
    · rw [hstandby a ha] at hp
      exact absurd hp (by decide)
    · have honly : ∀ b ∈ live, (Failover.check ttl x a).primary b = true → b = a := by
        intro b hb hbp
        by_contra hne
        rw [hprimary, Function.update_of_ne hne, hstandby b hb] at hbp
        exact absurd hbp (by decide)
      refine .led a ⟨⟨_, hlease, rfl, hstart⟩, ha, ?_, ?_⟩ ?_
      · rw [hprimary]
        exact Function.update_self ..
      · intro b hb hbp
        exact (honly b hb hbp).ge
      · intro b hb hbp
        rcases List.mem_cons.mp hb with rfl | hb
        · rfl
        · exact honly b (hsub b hb) hbp
    · refine .quiet (hlease.trans hsame) ?_ hunnamed ?_
      · rw [hprimary]
        exact hstandby
      · intro _ hstale
        rw [hsame] at hns
        exact hns (stale_mono hstart0 hstale)
  | led m hled halone =>
    obtain ⟨l0, hl0, hname, hbeat⟩ := hled.named
    rcases hcases with ⟨hp, ⟨l, hl, hlt⟩, hlease, hprimary⟩ | ⟨hwhy, ⟨seq, hlease⟩, hprimary⟩ |
      ⟨hp, -, hlease, hprimary⟩
    · have hma : m ≠ a := by
        obtain rfl : l0 = l := Option.some.inj (hl0.symm.trans hl)
        rw [hname] at hlt
        exact hlt.ne
      refine .led m ⟨⟨l0, by rw [hlease]; exact hl0, hname, hbeat⟩, hled.mem, ?_, ?_⟩ ?_
      · rw [hprimary, Function.update_of_ne hma]
        exact hled.primary
      · intro b hb hbp
        by_cases hba : b = a
        · rw [hprimary, hba, Function.update_self] at hbp
          exact absurd hbp (by decide)
        · rw [hprimary, Function.update_of_ne hba] at hbp
          exact hled.least b hb hbp
      · intro b hb hbp
        by_cases hba : b = a
        · rw [hprimary, hba, Function.update_self] at hbp
          exact absurd hbp (by decide)
        · rw [hprimary, Function.update_of_ne hba] at hbp
          exact halone b (List.mem_of_ne_of_mem hba hb) hbp
    · -- only the leader itself finds nothing above it to yield to
      obtain rfl : a = m := by
        rcases hwhy with ⟨hp, hge⟩ | ⟨-, hstale⟩
        · have h1 : a ≤ l0.primaryId := hge l0 hl0
          rw [hname] at h1
          exact le_antisymm h1 (hled.least a ha hp)
        · exact absurd hstale (hled.fresh hnow)
      have hsame : (Failover.check ttl x a).primary = x.primary := by
        rw [hprimary, ← hled.primary, Function.update_eq_self]
      refine .led a ⟨⟨_, hlease, rfl, hstart⟩, ha, ?_, ?_⟩ ?_
      · rw [hsame]
        exact hled.primary
      · rw [hsame]
        exact hled.least
      · intro b hb hbp
        rw [hsame] at hbp
        rcases List.mem_cons.mp hb with rfl | hb
        · rfl
        · exact halone b hb hbp
    · refine .led m ⟨⟨l0, by rw [hlease]; exact hl0, hname, hbeat⟩, hled.mem, ?_, ?_⟩ ?_
      · rw [hprimary]
        exact hled.primary
      · rw [hprimary]
        exact hled.least
      · intro b hb hbp
        rw [hprimary] at hbp
        rcases List.mem_cons.mp hb with rfl | hb
        · rw [hp] at hbp
          exact absurd hbp (by decide)
        · exact halone b hb hbp

/-! ## Rounds -/

/-- The checks of a list, each at its time. -/
def checks (ttl : ℕ) (x : Shared α) (cs : List (Check ι α)) : Shared α :=
  cs.foldl (fun x c => check ttl { x with clock := c.now } c.agentId) x

theorem checks_life (cs : List (Check ι α)) : (checks ttl x cs).life = x.life := by
  induction cs generalizing x with
  | nil => rfl
  | cons c cs ih => exact ih.trans (check_cases ttl _ c.agentId).2.1

/-- After a first round nothing was written, or the lease names the least primary. -/
theorem first_round {start : ℕ} {checked : List α} {cs : List (Check ι α)}
    (h : Unwritten x0 x checked ∨ ∃ m, Led start x checked m)
    (honce : (cs.map Check.agentId).Nodup) (hnew : ∀ c ∈ cs, c.agentId ∉ checked)
    (hstart : ∀ c ∈ cs, start ≤ c.now) (hnow : ∀ c ∈ cs, c.now ≤ start + ttl) :
    Unwritten x0 (checks ttl x cs) ((cs.map Check.agentId).reverse ++ checked) ∨
      ∃ m, Led start (checks ttl x cs) ((cs.map Check.agentId).reverse ++ checked) m := by
  induction cs generalizing x checked with
  | nil => exact h
  | cons c cs ih =>
    rw [List.map_cons, List.nodup_cons] at honce
    have hstart' := hstart c List.mem_cons_self
    have hnow' := hnow c List.mem_cons_self
    have hnew' := hnew c List.mem_cons_self
    rw [List.map_cons, List.reverse_cons, List.append_assoc, List.singleton_append]
    apply ih ?_ honce.2 ?_ (fun d hd => hstart d (List.mem_cons_of_mem _ hd))
      (fun d hd => hnow d (List.mem_cons_of_mem _ hd))
    · rcases h with h | ⟨m, h⟩
      · have hw : Unwritten x0 { x with clock := c.now } checked :=
          ⟨h.lease, h.standby, h.others, h.unnamed⟩
        rcases hw.check hnew' hstart' with hw | hl
        · exact .inl hw
        · exact .inr ⟨_, hl⟩
      · have hl : Led start { x with clock := c.now } checked m :=
          ⟨h.named, h.mem, h.primary, h.least⟩
        exact .inr (hl.check hnew' hstart' hnow')
    · intro d hd hmem
      rcases List.mem_cons.mp hmem with heq | hmem
      · exact honce.1 (by rw [← heq]; exact List.mem_map_of_mem hd)
      · exact hnew d (List.mem_cons_of_mem _ hd) hmem

/-- After a second round the instances have settled. -/
theorem second_round {start0 start : ℕ} {live checked : List α} {cs : List (Check ι α)}
    (h : Settling start0 start ttl x0 x live checked)
    (hlive : ∀ c ∈ cs, c.agentId ∈ live) (hsub : ∀ b ∈ checked, b ∈ live)
    (hstart0 : ∀ c ∈ cs, start0 ≤ c.now) (hstart : ∀ c ∈ cs, start ≤ c.now)
    (hnow : ∀ c ∈ cs, c.now ≤ start + ttl) :
    Settling start0 start ttl x0 (checks ttl x cs) live
      ((cs.map Check.agentId).reverse ++ checked) := by
  induction cs generalizing x checked with
  | nil => exact h
  | cons c cs ih =>
    have hhead := List.mem_cons_self (a := c) (l := cs)
    rw [List.map_cons, List.reverse_cons, List.append_assoc, List.singleton_append]
    apply ih ?_ (fun d hd => hlive d (List.mem_cons_of_mem _ hd)) ?_
      (fun d hd => hstart0 d (List.mem_cons_of_mem _ hd))
      (fun d hd => hstart d (List.mem_cons_of_mem _ hd))
      (fun d hd => hnow d (List.mem_cons_of_mem _ hd))
    · have hs : Settling start0 start ttl x0 { x with clock := c.now } live checked := by
        cases h with
        | quiet hsame hstandby hunnamed hfresh =>
          exact .quiet hsame hstandby hunnamed hfresh
        | led m hled halone =>
          exact .led m ⟨hled.named, hled.mem, hled.primary, hled.least⟩ halone
      exact hs.check (hlive c hhead) hsub (hstart0 c hhead) (hstart c hhead) (hnow c hhead)
    · intro b hb
      rcases List.mem_cons.mp hb with rfl | hb
      · exact hlive c hhead
      · exact hsub b hb

section Machine

variable [DecidableEq ι] {s : System ι (Shared α) (Stage α)}

/-- An undisturbed check is five moves of the machine. -/
theorem check_moves {c : Check ι α} (hidle : s.proc c.call = .idle)
    (hlive : s.shared.life c.agentId = .live) (hclock : s.shared.clock ≤ c.now) :
    ∃ p, c.moves.foldl (rules ι ttl).after s =
      s.put (check ttl { s.shared with clock := c.now } c.agentId) c.call p := by
  have h1 : (rules ι ttl).after s (.world (.elapse c.now)) =
      ⟨{ s.shared with clock := c.now }, s.proc⟩ := by
    simp [Rules.after, rules, around, hclock]
  set y : Shared α := { s.shared with clock := c.now } with hy
  have h2 : (rules ι ttl).after ⟨y, s.proc⟩ (.act c.call (.invoke c.agentId .checkAndFailover)) =
      s.put y c.call (.loading c.agentId .checkAndFailover) := by
    simp [Rules.after, rules, hidle, step, hlive, hy, invoke, System.put]
  have h3 : (rules ι ttl).after (s.put y c.call (.loading c.agentId .checkAndFailover))
      (.act c.call .ok) = s.put y c.call (.loaded c.agentId .checkAndFailover y.lease) := by
    simp [Rules.after, rules, step]
  have h4 : (rules ι ttl).after (s.put y c.call (.loaded c.agentId .checkAndFailover y.lease))
      (.act c.call .ok) =
      s.put (proceed (y.checkAndFailover ttl c.agentId y.lease)).1 c.call
        (proceed (y.checkAndFailover ttl c.agentId y.lease)).2 := by
    have hlive' : y.life c.agentId = .live := hlive
    simp [Rules.after, rules, step, hlive']
  simp only [Check.moves, List.foldl_cons, List.foldl_nil, h1, h2, h3, h4]
  rcases hnext : y.checkAndFailover ttl c.agentId y.lease with ⟨z, saved, answer⟩
  cases saved with
  | none =>
    refine ⟨.done (.action answer), ?_⟩
    simp [proceed, Rules.after, rules, step, check, hnext]
  | some lease =>
    refine ⟨.done (.action answer), ?_⟩
    simp [proceed, Rules.after, rules, step, check, hnext]

/-- Rounds of undisturbed checks act on the shared state as the checks do one after the other. -/
theorem runChecks_shared {cs : List (Check ι α)} (hcalls : (cs.map Check.call).Nodup)
    (hidle : ∀ c ∈ cs, s.proc c.call = .idle)
    (hlive : ∀ c ∈ cs, s.shared.life c.agentId = .live)
    (htimes : (s.shared.clock :: cs.map Check.now).Pairwise (· ≤ ·)) :
    (runChecks ttl s cs).shared = checks ttl s.shared cs := by
  induction cs generalizing s with
  | nil => rfl
  | cons c cs ih =>
    rw [List.map_cons, List.nodup_cons] at hcalls
    rw [List.map_cons, List.pairwise_cons] at htimes
    obtain ⟨p, hmoves⟩ : ∃ p, c.moves.foldl (rules ι ttl).after s =
        s.put (check ttl { s.shared with clock := c.now } c.agentId) c.call p :=
      check_moves (hidle c List.mem_cons_self) (hlive c List.mem_cons_self)
        (htimes.1 c.now List.mem_cons_self)
    obtain ⟨hclock, hlife, -⟩ :=
      check_cases ttl { s.shared with clock := c.now } c.agentId
    have hrest : runChecks ttl s (c :: cs) = runChecks ttl
        (s.put (check ttl { s.shared with clock := c.now } c.agentId) c.call p) cs := by
      rw [← hmoves, runChecks, runChecks, List.flatMap_cons, List.foldl_append]
    rw [hrest]
    apply ih hcalls.2
    · intro d hd
      rw [System.put_other]
      · exact hidle d (List.mem_cons_of_mem _ hd)
      · rintro heq
        exact hcalls.1 (by rw [← heq]; exact List.mem_map_of_mem hd)
    · intro d hd
      rw [System.put_shared, hlife]
      exact hlive d (List.mem_cons_of_mem _ hd)
    · rw [System.put_shared, hclock]
      exact htimes.2

/-- From any reachable state, two rounds of undisturbed checks of the live instances, within one
    time to live, leave at most one primary; and exactly one, the one the lease names, when the
    lease was missing, stale, or named a live primary. -/
theorem failover_converges {clock : ℕ} {s t : System ι (Shared α) (Stage α)}
    (h : Reaches (rules ι ttl) (fun _ _ => True) (fresh clock) s) {round1 round2 : List (Check ι α)}
    (hround1 : Round s.shared round1) (hround2 : Round s.shared round2) (hsome : round1 ≠ [])
    (hcalls : ((round1 ++ round2).map Check.call).Nodup)
    (hidle : ∀ c ∈ round1 ++ round2, s.proc c.call = .idle)
    (htimes : (s.shared.clock :: (round1 ++ round2).map Check.now).Pairwise (· ≤ ·))
    (hwithin : ∀ c ∈ round1 ++ round2, ∀ d ∈ round1 ++ round2, d.now ≤ c.now + ttl)
    (ht : t = runChecks ttl s (round1 ++ round2)) :
    Reaches (rules ι ttl) (fun _ _ => True) (fresh clock) t ∧
      (∀ a b, t.shared.life a = .live → t.shared.primary a = true →
        t.shared.life b = .live → t.shared.primary b = true → a = b) ∧
      ((stale ttl s.shared.clock s.shared.lease ∨ ∃ l ∈ s.shared.lease,
          s.shared.life l.primaryId = .live ∧ s.shared.primary l.primaryId = true) →
        ∃ l ∈ t.shared.lease,
          t.shared.life l.primaryId = .live ∧ t.shared.primary l.primaryId = true) := by
  refine ⟨ht ▸ h.trans (.of_steps _), ?_⟩
  have hlive : ∀ c ∈ round1 ++ round2, s.shared.life c.agentId = .live := by
    intro c hc
    rcases List.mem_append.mp hc with hc | hc
    · exact (hround1.covers _).mpr (List.mem_map_of_mem hc)
    · exact (hround2.covers _).mpr (List.mem_map_of_mem hc)
  have hshared : t.shared = checks ttl (checks ttl s.shared round1) round2 := by
    rw [ht, runChecks_shared hcalls hidle hlive htimes]
    exact List.foldl_append
  have hlife : t.shared.life = s.shared.life := by
    rw [hshared, checks_life, checks_life]
  obtain ⟨c0, rest, rfl⟩ := List.exists_cons_of_ne_nil hsome
  have hclock : ∀ c ∈ c0 :: rest ++ round2, s.shared.clock ≤ c.now := by
    intro c hc
    exact (List.pairwise_cons.mp htimes).1 _ (List.mem_map_of_mem hc)
  have hstart : ∀ c ∈ c0 :: rest ++ round2, c0.now ≤ c.now := by
    intro c hc
    rcases List.mem_cons.mp hc with rfl | hc
    · exact le_rfl
    · exact (List.pairwise_cons.mp (List.pairwise_cons.mp htimes).2).1 _ (List.mem_map_of_mem hc)
  have hnow : ∀ c ∈ c0 :: rest ++ round2, c.now ≤ c0.now + ttl :=
    fun c hc => hwithin c0 (by simp) c hc
  have hinit : Unwritten s.shared s.shared [] := ⟨rfl, nofun, fun _ _ => rfl, nofun⟩
  have hfirst : Unwritten s.shared (checks ttl s.shared (c0 :: rest))
      (((c0 :: rest).map Check.agentId).reverse ++ []) ∨ ∃ m, Led c0.now
        (checks ttl s.shared (c0 :: rest)) (((c0 :: rest).map Check.agentId).reverse ++ []) m :=
    first_round (.inl hinit) hround1.once (fun _ _ => List.not_mem_nil)
      (fun c hc => hstart c (List.mem_append_left _ hc))
      (fun c hc => hnow c (List.mem_append_left _ hc))
  rw [List.append_nil] at hfirst
  set live := ((c0 :: rest).map Check.agentId).reverse with hlivedef
  have hmem : ∀ a, s.shared.life a = .live ↔ a ∈ live := by
    intro a
    rw [hlivedef, List.mem_reverse]
    exact hround1.covers a
  have hsettling : Settling s.shared.clock c0.now ttl s.shared
      (checks ttl s.shared (c0 :: rest)) live [] := by
    rcases hfirst with hw | ⟨m, hl⟩
    · exact .quiet hw.lease hw.standby hw.unnamed (fun hne => absurd rfl hne)
    · exact .led m hl nofun
  have hsettled := second_round hsettling
    (fun c hc => (hmem _).mp (hlive c (List.mem_append_right _ hc))) nofun
    (fun c hc => hclock c (List.mem_append_right _ hc))
    (fun c hc => hstart c (List.mem_append_right _ hc))
    (fun c hc => hnow c (List.mem_append_right _ hc))
  rw [List.append_nil, ← hshared] at hsettled
  have hchecked : ∀ a, s.shared.life a = .live → a ∈ (round2.map Check.agentId).reverse := by
    intro a ha
    rw [List.mem_reverse]
    exact (hround2.covers a).mp ha
  rw [hlife]
  cases hsettled with
  | quiet hsame hstandby hunnamed hfresh =>
    refine ⟨?_, ?_⟩
    · intro a b ha hap
      rw [hstandby a ((hmem a).mp ha)] at hap
      exact absurd hap (by decide)
    · rintro (hstale | ⟨l, hl, hllive, hlp⟩)
      · have hne : (round2.map Check.agentId).reverse ≠ [] := by
          intro hnil
          have := hchecked c0.agentId (hlive c0 (by simp))
          rw [hnil] at this
          exact absurd this List.not_mem_nil
        exact absurd hstale (hfresh hne)
      · -- a primary that the lease names writes when it first checks
        rw [hunnamed _ ((hmem _).mp hllive) l hl rfl] at hlp
        exact absurd hlp (by decide)
  | led m hled halone =>
    obtain ⟨l, hl, hname, -⟩ := hled.named
    refine ⟨?_, ?_⟩
    · intro a b ha hap hb hbp
      rw [halone a (hchecked a ha) hap, halone b (hchecked b hb) hbp]
    · intro _
      refine ⟨l, hl, ?_⟩
      rw [hname]
      exact ⟨(hmem m).mpr hled.mem, hled.primary⟩

namespace Sample

/-- Two of three instances took a free lease at once; the third died. -/
def split : System ℕ (Shared (Fin 3)) (Stage (Fin 3)) :=
  [.world (.boot 0), .world (.boot 1), .world (.boot 2), .act 0 (.invoke 0 .bootstrap),
    .act 1 (.invoke 1 .bootstrap), .act 0 .ok, .act 1 .ok, .act 0 .ok, .act 1 .ok, .act 0 .ok,
    .act 1 .ok, .world (.die 2)].foldl (rules ℕ 60000).after (fresh 1000)

def firstRound : List (Check ℕ (Fin 3)) := [⟨10, 0, 2000⟩, ⟨11, 1, 2000⟩]

def secondRound : List (Check ℕ (Fin 3)) := [⟨12, 1, 9000⟩, ⟨13, 0, 9500⟩]

/-- The rounds leave one of the two primaries. -/
theorem split_heals : split.shared.primary 0 = true ∧ split.shared.primary 1 = true ∧
    ∀ a b, (runChecks 60000 split (firstRound ++ secondRound)).shared.life a = .live →
      (runChecks 60000 split (firstRound ++ secondRound)).shared.primary a = true →
      (runChecks 60000 split (firstRound ++ secondRound)).shared.life b = .live →
      (runChecks 60000 split (firstRound ++ secondRound)).shared.primary b = true → a = b := by
  refine ⟨by decide, by decide, ?_⟩
  have h1 : Round split.shared firstRound := ⟨by decide, by decide⟩
  have h2 : Round split.shared secondRound := ⟨by decide, by decide⟩
  have hidle : ∀ c ∈ firstRound ++ secondRound, split.proc c.call = .idle := by
    intro c hc
    fin_cases hc <;> rfl
  exact (failover_converges (.of_steps _) h1 h2 (by simp [firstRound]) (by decide) hidle
    (by decide) (by decide) rfl).2.1

end Sample

end Machine

end NeuroWealth.Failover
