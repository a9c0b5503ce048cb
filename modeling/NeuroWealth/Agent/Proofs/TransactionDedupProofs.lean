import NeuroWealth.Agent.TransactionDedup

/-!
# When deduplication neither doubles nor drops

A mark is found until it expires, so a call that found none and has not set its own is alone among
the calls near it; a mark belongs to a call that has added its job or is about to.
-/

namespace NeuroWealth.TransactionQueue.Dedup

open Interleaving

variable {ι : Type} {s : System ι Shared Stage} {x : Shared} {p : Stage} {i : ι} {c d : Call}

theorem Near.symm (h : Near c d) : Near d c := ⟨h.1.symm, h.2.2, h.2.1⟩

/-- The job of a call is in the queue, or adding it is what the call does next. -/
def Queued (s : System ι Shared Stage) (c : Call) : Prop :=
  c ∈ s.shared.queue ∨ ∃ j, s.proc j = .adding c

/-- The calls that have set a mark. -/
def Shared.owners (x : Shared) : List Call := x.marked.map Mark.owner

/-- Near calls do not both mark. -/
structure Apart (s : System ι Shared Stage) : Prop where
  marking_alone : ∀ i j c d, s.proc i = .marking c → s.proc j = .marking d → Near c d → i = j
  marking_first : ∀ i c, s.proc i = .marking c → ∀ d ∈ s.shared.owners, ¬ Near d c
  marked_apart : ∀ c ∈ s.shared.owners, ∀ d ∈ s.shared.owners, Near c d → c = d
  adding_marked : ∀ i c, s.proc i = .adding c → c ∈ s.shared.owners
  queue_marked : ∀ c ∈ s.shared.queue, c ∈ s.shared.owners

/-- The last mark of a key is in the store, and the others have expired no later. -/
structure Stored (x : Shared) : Prop where
  kept : ∀ m ∈ x.marked, ∃ last, x.marks m.owner.data.deduplicationKey = some last ∧
    m.expires ≤ last.expires
  bounded : ∀ m ∈ x.marked, m.expires ≤ x.clock + DEDUP_TTL_MS
  marked : ∀ k m, x.marks k = some m → m ∈ x.marked

/-- The owner of a mark has queued its job, and so has the call that a dropped one gave way to. -/
structure Kept (s : System ι Shared Stage) : Prop where
  owner : ∀ k m, s.shared.marks k = some m → m.owner.data.deduplicationKey = k ∧ Queued s m.owner
  dropped : ∀ i c, s.proc i = .done c .duplicate → ∃ d, d.number < c.number ∧
    d.data.deduplicationKey = c.data.deduplicationKey ∧ Queued s d

/-! ## The store -/

/-- A call sets its mark. -/
theorem Stored.mark (h : Stored x) (c : Call) : Stored (x.mark c) := by
  refine ⟨?_, ?_, ?_⟩
  · intro m hm
    by_cases hkey : m.owner.data.deduplicationKey = c.data.deduplicationKey
    · refine ⟨⟨x.clock + DEDUP_TTL_MS, c⟩, ?_, ?_⟩
      · rw [hkey]
        exact Function.update_self _ _ _
      · rcases List.mem_cons.mp hm with rfl | hold
        · exact le_rfl
        · exact h.bounded m hold
    · rcases List.mem_cons.mp hm with rfl | hold
      · exact absurd rfl hkey
      · obtain ⟨last, hlast, hle⟩ := h.kept m hold
        refine ⟨last, ?_, hle⟩
        rw [← hlast]
        exact Function.update_of_ne hkey _ _
  · intro m hm
    rcases List.mem_cons.mp hm with rfl | hold
    · exact le_rfl
    · exact h.bounded m hold
  · intro k m hm
    by_cases hkey : k = c.data.deduplicationKey
    · subst hkey
      simp only [Shared.mark, Function.update_self] at hm
      obtain rfl : _ = m := Option.some.inj hm
      exact List.mem_cons_self
    · simp only [Shared.mark, Function.update_of_ne hkey] at hm
      exact List.mem_cons_of_mem _ (h.marked k m hm)

/-- A call finds no mark only when each one of its key has expired. -/
theorem Stored.expired (h : Stored x) {key : String} (hseen : x.seen key = none) {m : Mark}
    (hm : m ∈ x.marked) (hkey : m.owner.data.deduplicationKey = key) : m.expires < x.clock := by
  obtain ⟨last, hlast, hle⟩ := h.kept m hm
  rw [hkey] at hlast
  unfold Shared.seen at hseen
  rw [hlast, Option.filter_some] at hseen
  by_contra halive
  have hfound : x.clock ≤ last.expires := (not_lt.mp halive).trans hle
  simp [hfound] at hseen

section Steps

variable [DecidableEq ι]

/-- A mover that neither marks nor adds next. -/
theorem Apart.keep (h : Apart s) (hmarked : x.marked = s.shared.marked)
    (hqueue : ∀ c ∈ x.queue, c ∈ s.shared.queue ∨ c ∈ s.shared.owners)
    (hmarking : ∀ c, p ≠ .marking c) (hadding : ∀ c, p ≠ .adding c) : Apart (s.put x i p) := by
  have hproc : ∀ j q, (s.put x i p).proc j = q → p ≠ q → j ≠ i := by
    rintro j q hj hne rfl
    rw [System.put_self] at hj
    exact hne hj
  have howners : x.owners = s.shared.owners := by
    unfold Shared.owners
    rw [hmarked]
  refine ⟨?_, ?_, ?_, ?_, ?_⟩
  · intro j k c d hj hk
    have hji := hproc j _ hj (hmarking c)
    have hki := hproc k _ hk (hmarking d)
    rw [System.put_other hji] at hj
    rw [System.put_other hki] at hk
    exact h.marking_alone j k c d hj hk
  · intro j c hj
    have hji := hproc j _ hj (hmarking c)
    rw [System.put_other hji] at hj
    rw [System.put_shared, howners]
    exact h.marking_first j c hj
  · rw [System.put_shared, howners]
    exact h.marked_apart
  · intro j c hj
    have hji := hproc j _ hj (hadding c)
    rw [System.put_other hji] at hj
    rw [System.put_shared, howners]
    exact h.adding_marked j c hj
  · intro c hc
    rw [System.put_shared, howners]
    rcases hqueue c hc with hold | hnew
    · exact h.queue_marked c hold
    · exact hnew

/-- A call finds no mark. -/
theorem Apart.pass (h : Apart s) (hmarking : ∀ j d, s.proc j = .marking d →
      d.data.deduplicationKey ≠ c.data.deduplicationKey)
    (hmarked : ∀ d ∈ s.shared.owners, ¬ Near d c) : Apart (s.put s.shared i (.marking c)) := by
  refine ⟨?_, ?_, h.marked_apart, ?_, h.queue_marked⟩
  · intro j k d e hj hk hnear
    by_cases hji : j = i
    · by_cases hki : k = i
      · rw [hji, hki]
      · rw [hji, System.put_self] at hj
        rw [System.put_other hki] at hk
        obtain rfl : c = d := Stage.marking.inj hj
        exact absurd hnear.1.symm (hmarking k e hk)
    · by_cases hki : k = i
      · rw [System.put_other hji] at hj
        rw [hki, System.put_self] at hk
        obtain rfl : c = e := Stage.marking.inj hk
        exact absurd hnear.1 (hmarking j d hj)
      · rw [System.put_other hji] at hj
        rw [System.put_other hki] at hk
        exact h.marking_alone j k d e hj hk hnear
  · intro j d hj
    by_cases hji : j = i
    · rw [hji, System.put_self] at hj
      obtain rfl : c = d := Stage.marking.inj hj
      exact hmarked
    · rw [System.put_other hji] at hj
      exact h.marking_first j d hj
  · intro j d hj
    by_cases hji : j = i
    · rw [hji, System.put_self] at hj
      cases hj
    · rw [System.put_other hji] at hj
      exact h.adding_marked j d hj

/-- A call sets its mark. -/
theorem Apart.mark (h : Apart s) (hi : s.proc i = .marking c) :
    Apart (s.put (s.shared.mark c) i (.adding c)) := by
  have hfirst := h.marking_first i c hi
  refine ⟨?_, ?_, ?_, ?_, ?_⟩
  · intro j k d e hj hk
    by_cases hji : j = i
    · rw [hji, System.put_self] at hj
      cases hj
    · by_cases hki : k = i
      · rw [hki, System.put_self] at hk
        cases hk
      · rw [System.put_other hji] at hj
        rw [System.put_other hki] at hk
        exact h.marking_alone j k d e hj hk
  · intro j d hj e he hnear
    by_cases hji : j = i
    · rw [hji, System.put_self] at hj
      cases hj
    · rw [System.put_other hji] at hj
      rcases List.mem_cons.mp he with rfl | he
      · exact hji (h.marking_alone j i d e hj hi hnear.symm)
      · exact h.marking_first j d hj e he hnear
  · intro d hd e he hnear
    rcases List.mem_cons.mp hd with rfl | hd'
    · rcases List.mem_cons.mp he with rfl | he'
      · rfl
      · exact absurd hnear.symm (hfirst e he')
    · rcases List.mem_cons.mp he with rfl | he'
      · exact absurd hnear (hfirst d hd')
      · exact h.marked_apart d hd' e he' hnear
  · intro j d hj
    by_cases hji : j = i
    · rw [hji, System.put_self] at hj
      obtain rfl : c = d := Stage.adding.inj hj
      exact List.mem_cons_self
    · rw [System.put_other hji] at hj
      exact List.mem_cons_of_mem _ (h.adding_marked j d hj)
  · intro d hd
    exact List.mem_cons_of_mem _ (h.queue_marked d hd)

/-- What is queued stays queued. -/
theorem Queued.put (h : Queued s d) (hqueue : ∀ e ∈ s.shared.queue, e ∈ x.queue)
    (hi : ∀ e, s.proc i = .adding e → e ∈ x.queue) : Queued (s.put x i p) d := by
  rcases h with hd | ⟨j, hj⟩
  · exact .inl (hqueue d hd)
  · by_cases hji : j = i
    · rw [hji] at hj
      exact .inl (hi d hj)
    · refine .inr ⟨j, ?_⟩
      rw [System.put_other hji]
      exact hj

/-- A mover that does not drop its job; a new mark is its own, and it adds next. -/
theorem Kept.step (h : Kept s) (hqueue : ∀ e ∈ s.shared.queue, e ∈ x.queue)
    (hi : ∀ e, s.proc i = .adding e → e ∈ x.queue)
    (hmarks : ∀ k m, x.marks k = some m → s.shared.marks k = some m ∨
      m.owner.data.deduplicationKey = k ∧ p = .adding m.owner)
    (hp : ∀ c, p = .done c .duplicate → ∃ d, d.number < c.number ∧
      d.data.deduplicationKey = c.data.deduplicationKey ∧ Queued s d) : Kept (s.put x i p) := by
  refine ⟨?_, ?_⟩
  · intro k m hm
    rcases hmarks k m hm with hold | ⟨hkey, hadding⟩
    · obtain ⟨hkey, hqueued⟩ := h.owner k m hold
      exact ⟨hkey, hqueued.put hqueue hi⟩
    · refine ⟨hkey, .inr ⟨i, ?_⟩⟩
      rw [System.put_self]
      exact hadding
  · intro j c hj
    have hold : ∃ d, d.number < c.number ∧
        d.data.deduplicationKey = c.data.deduplicationKey ∧ Queued s d := by
      by_cases hji : j = i
      · rw [hji, System.put_self] at hj
        exact hp c hj
      · rw [System.put_other hji] at hj
        exact h.dropped j c hj
    obtain ⟨d, hnumber, hkey, hqueued⟩ := hold
    exact ⟨d, hnumber, hkey, hqueued.put hqueue hi⟩

/-- One step of an undisturbed run. -/
theorem step_keeps (ha : Apart s) (hk : Kept s) (hm : Stored s.shared) {o : Outcome}
    (hok : Undisturbed s (.act i o)) (hstep : step s.shared (s.proc i) o = some (x, p)) :
    Apart (s.put x i p) ∧ Kept (s.put x i p) ∧ Stored x := by
  cases hi : s.proc i with
  | idle =>
    rw [hi] at hstep
    cases o with
    | enqueueTransaction data =>
      obtain ⟨rfl, rfl⟩ : _ = x ∧ _ = p := by simpa [step] using hstep
      exact ⟨ha.keep rfl (fun _ hc => .inl hc) nofun nofun,
        hk.step (fun _ he => he) (by rw [hi]; nofun) (fun _ _ hm => .inl hm) nofun,
        ⟨hm.kept, hm.bounded, hm.marked⟩⟩
    | ok => cases hstep
    | throws effect => cases hstep
  | reading call =>
    rw [hi] at hstep
    cases o with
    | enqueueTransaction data => cases hstep
    | ok =>
      obtain ⟨rfl, rfl⟩ : s.shared = x ∧ _ = p := by simpa [step] using hstep
      obtain ⟨halone, hmarks⟩ := hok call hi
      cases hseen : s.shared.seen call.data.deduplicationKey with
      | none =>
        simp only [Option.isSome_none, Bool.false_eq_true, if_false]
        refine ⟨ha.pass halone ?_,
          hk.step (fun _ he => he) (by rw [hi]; nofun) (fun _ _ hm => .inl hm) nofun, hm⟩
        -- the mark of a near call is alive, so it would have been found
        intro d hd hnear
        obtain ⟨m, hmem, rfl⟩ := List.mem_map.mp hd
        have hexpired := hm.expired hseen hmem hnear.1
        have halive := (hmarks m hmem hnear.1).1 hnear
        omega
      | some mark =>
        simp only [Option.isSome_some, if_true]
        refine ⟨ha.keep rfl (fun _ hc => .inl hc) nofun nofun,
          hk.step (fun _ he => he) (by rw [hi]; nofun) (fun _ _ hm => .inl hm) ?_, hm⟩
        intro c hc
        obtain rfl : call = c := (Stage.done.inj hc).1
        obtain ⟨hmark, halive⟩ := Option.filter_eq_some_iff.mp hseen
        obtain ⟨hkey, hqueued⟩ := hk.owner _ mark hmark
        have hearlier := (hmarks mark (hm.marked _ mark hmark) hkey).2 (of_decide_eq_true halive)
        exact ⟨mark.owner, hearlier, hkey, hqueued⟩
    | throws effect =>
      obtain ⟨rfl, rfl⟩ : s.shared = x ∧ .done call .threw = p := by simpa [step] using hstep
      exact ⟨ha.keep rfl (fun _ hc => .inl hc) nofun nofun,
        hk.step (fun _ he => he) (by rw [hi]; nofun) (fun _ _ hm => .inl hm) nofun,
        ⟨hm.kept, hm.bounded, hm.marked⟩⟩
  | marking call =>
    rw [hi] at hstep
    cases o with
    | enqueueTransaction data => cases hstep
    | ok =>
      obtain ⟨rfl, rfl⟩ : s.shared.mark call = x ∧ .adding call = p := by simpa [step] using hstep
      refine ⟨ha.mark hi, hk.step (fun _ he => he) (by rw [hi]; nofun) ?_ nofun, hm.mark call⟩
      intro k m hkm
      by_cases hkey : k = call.data.deduplicationKey
      · subst hkey
        simp only [Shared.mark, Function.update_self] at hkm
        obtain rfl : _ = m := Option.some.inj hkm
        exact .inr ⟨rfl, rfl⟩
      · simp only [Shared.mark, Function.update_of_ne hkey] at hkm
        exact .inl hkm
    | throws effect =>
      obtain rfl : effect = false := hok.1 call hi
      obtain ⟨rfl, rfl⟩ : s.shared = x ∧ .done call .threw = p := by simpa [step] using hstep
      exact ⟨ha.keep rfl (fun _ hc => .inl hc) nofun nofun,
        hk.step (fun _ he => he) (by rw [hi]; nofun) (fun _ _ hm => .inl hm) nofun,
        ⟨hm.kept, hm.bounded, hm.marked⟩⟩
  | adding call =>
    rw [hi] at hstep
    have hmarked := ha.adding_marked i call hi
    have hadd : x = s.shared.add call ∧ (∀ c, p ≠ .marking c) ∧ (∀ c, p ≠ .adding c) ∧
        ∀ c, p ≠ .done c .duplicate := by
      cases o with
      | enqueueTransaction data => cases hstep
      | ok =>
        obtain ⟨rfl, rfl⟩ : s.shared.add call = x ∧ .done call .job = p := by
          simpa [step] using hstep
        exact ⟨rfl, nofun, nofun, nofun⟩
      | throws effect =>
        obtain rfl : effect = true := hok.2 call hi
        obtain ⟨rfl, rfl⟩ : s.shared.add call = x ∧ .done call .threw = p := by
          simpa [step] using hstep
        exact ⟨rfl, nofun, nofun, nofun⟩
    obtain ⟨rfl, hmarking, hadding, hduplicate⟩ := hadd
    refine ⟨ha.keep rfl ?_ hmarking hadding, hk.step ?_ ?_ (fun _ _ hm => .inl hm) ?_,
      ⟨hm.kept, hm.bounded, hm.marked⟩⟩
    · intro c hc
      rcases List.mem_cons.mp hc with rfl | hc
      · exact .inr hmarked
      · exact .inl hc
    · exact fun e he => List.mem_cons_of_mem _ he
    · intro e he
      rw [hi] at he
      obtain rfl : call = e := Stage.adding.inj he
      exact List.mem_cons_self
    · exact fun c hc => absurd hc (hduplicate c)
  | done call result =>
    rw [hi] at hstep
    cases o <;> cases hstep

/-- While the calls of a key run from `get` to `set` one after another, no `get` outlasts the mark
    of a near call and nothing fails in between, two calls of one key that start less than the time
    to live apart do not both add a job, and a dropped call gave way to an earlier one of its key
    that has added its job or adds it next. -/
theorem deduplicates_when_undisturbed {clock : ℕ}
    (h : Reaches (rules ι) Undisturbed (fresh clock) s) :
    (∀ c ∈ s.shared.queue, ∀ d ∈ s.shared.queue, Near c d → c = d) ∧
    ∀ i c, s.proc i = .done c .duplicate → ∃ d, d.number < c.number ∧
      d.data.deduplicationKey = c.data.deduplicationKey ∧
      (d ∈ s.shared.queue ∨ ∃ j, s.proc j = .adding d) := by
  have hs : Apart s ∧ Kept s ∧ Stored s.shared := by
    apply h.invariant (P := fun t => Apart t ∧ Kept t ∧ Stored t.shared)
    · exact ⟨⟨nofun, nofun, nofun, nofun, nofun⟩, ⟨nofun, nofun⟩, ⟨nofun, nofun, nofun⟩⟩
    · intro t i o x p hok ⟨ha, hk, hm⟩ hstep
      exact step_keeps ha hk hm hok hstep
    · rintro t ⟨milliseconds⟩ x _ ⟨ha, hk, hm⟩ hc
      obtain rfl : _ = x := Option.some.inj hc
      refine ⟨⟨ha.marking_alone, ha.marking_first, ha.marked_apart, ha.adding_marked,
        ha.queue_marked⟩, ⟨hk.owner, hk.dropped⟩, hm.kept, ?_, hm.marked⟩
      intro m hmem
      have hbound := hm.bounded m hmem
      show m.expires ≤ t.shared.clock + milliseconds + DEDUP_TTL_MS
      omega
  refine ⟨?_, hs.2.1.dropped⟩
  intro c hc d hd
  exact hs.1.marked_apart c (hs.1.queue_marked c hc) d (hs.1.queue_marked d hd)

end Steps

namespace Sample

def payment : TransactionJobData := ⟨"deposit-1", .deposit, "10000000", none, none⟩

/-- A call adds its job; a second one finds its mark. -/
def dropped : System ℕ Shared Stage :=
  [.act 0 (.enqueueTransaction payment), .act 0 .ok, .act 0 .ok, .act 0 .ok,
    .world (.elapse 1000), .act 1 (.enqueueTransaction payment), .act 1 .ok].foldl
    (rules ℕ).after (fresh 0)

theorem dropped_after_added : dropped.proc 1 = .done ⟨payment, 1000, 1⟩ .duplicate ∧
    ∃ d, d.number < 1 ∧ d.data.deduplicationKey = "deposit-1" ∧
      (d ∈ dropped.shared.queue ∨ ∃ j, dropped.proc j = .adding d) := by
  have hreaches : Reaches (rules ℕ) Undisturbed (fresh 0) dropped := by
    refine .of_admits ⟨trivial, ?_, nofun, nofun, trivial, trivial, ?_, trivial⟩
    · intro call hcall
      obtain rfl : _ = call := Stage.reading.inj hcall
      refine ⟨?_, nofun⟩
      intro j other hj
      rcases j with _ | j <;> cases hj
    · intro call hcall
      obtain rfl : _ = call := Stage.reading.inj hcall
      refine ⟨?_, ?_⟩
      · intro j other hj
        rcases j with _ | _ | j <;> cases hj
      · intro mark hmark _
        obtain rfl := List.mem_singleton.mp hmark
        exact ⟨fun _ => by decide, fun _ => Nat.zero_lt_one⟩
  exact ⟨rfl, (deduplicates_when_undisturbed hreaches).2 1 ⟨payment, 1000, 1⟩ rfl⟩

/-- Two calls at one time both find no mark. -/
def doubled : System ℕ Shared Stage :=
  [.act 0 (.enqueueTransaction payment), .act 1 (.enqueueTransaction payment), .act 0 .ok,
    .act 1 .ok, .act 0 .ok, .act 1 .ok, .act 0 .ok, .act 1 .ok].foldl (rules ℕ).after
    (fresh 0)

/-- A call marks, its `add` throws, and its retry is dropped. -/
def lost : System ℕ Shared Stage :=
  [.act 0 (.enqueueTransaction payment), .act 0 .ok, .act 0 .ok, .act 0 (.throws false),
    .act 1 (.enqueueTransaction payment), .act 1 .ok].foldl (rules ℕ).after (fresh 0)

/-- Near calls both add a job; and a call is dropped with nothing queued and nobody adding. -/
theorem doubles_and_loses :
    (Reaches (rules ℕ) (fun _ _ => True) (fresh 0) doubled ∧
      doubled.shared.queue = [⟨payment, 0, 1⟩, ⟨payment, 0, 0⟩]) ∧
    Reaches (rules ℕ) (fun _ _ => True) (fresh 0) lost ∧
      lost.proc 1 = .done ⟨payment, 0, 1⟩ .duplicate ∧ lost.shared.queue = [] ∧
      ∀ j d, lost.proc j ≠ .adding d := by
  refine ⟨⟨.of_steps _, rfl⟩, .of_steps _, rfl, rfl, ?_⟩
  intro j d
  rcases j with _ | _ | j <;> nofun

end Sample

end NeuroWealth.TransactionQueue.Dedup
