import NeuroWealth.Agent.Reconcile

/-!
# What the reconciliation reports

The number read back from the text of a sum is the sum. The sum itself counts each deposit once for
every withdrawal of the user and the other way round, and a query that fails reads as no shares.
-/

namespace NeuroWealth.Reconcile

open Decimal Tables

variable {ι κ : Type} [DecidableEq ι] [LinearOrder κ] [OrderBot κ] {db : Database ι κ}
  {u : User ι κ} {query : κ → Query} {ledger limit fuel : ℕ} {startAfter : Option κ}

/-! ## Reading a sum back -/

theorem bigInt_zero : bigInt ['0'] = some 0 := by
  simp [bigInt, Digits, value, Nat.ofDigitChars_cons]

/-- What is left of a run of digits without its leading zeros, `0` standing for nothing left. -/
theorem parse_stripped {l : List Char} (hl : Digits l) :
    bigInt ((if l.dropWhile (· = '0') = [] then ['0'] else l.dropWhile (· = '0')).erase '-') =
      some (value l) := by
  have hdigits : Digits (l.dropWhile (· = '0')) := fun c hc =>
    hl c ((List.dropWhile_suffix _).subset hc)
  by_cases hnil : l.dropWhile (· = '0') = []
  · have hone : (['0'] : List Char).erase '-' = ['0'] := by decide
    rw [if_pos hnil, ← value_dropWhile (l := l), hnil, hone, bigInt_zero, value_nil]
  · rw [if_neg hnil, List.erase_of_not_mem (hdigits.not_mem (by decide))]
    unfold bigInt
    rw [if_pos hdigits, value_dropWhile]

theorem head_pointed {k n : ℕ} : (pointed k n).head? ≠ some '-' := by
  unfold pointed
  rw [List.head?_append_of_ne_nil _ Nat.toDigits_ne_nil]
  intro h
  exact digits_toDigits.not_mem (by decide) (List.mem_of_head? h)

theorem stripLeadingZeros_digits {l : List Char} (hl : Digits l) :
    stripLeadingZeros l = l.dropWhile (· = '0') := by
  unfold stripLeadingZeros
  split
  · rename_i m
    exact absurd (hl '-' (by simp)) (by decide)
  · rfl

/-- A negative sum: its sign goes with the zeros behind it, or is erased afterwards. -/
theorem parse_negative {l : List Char} (hl : Digits l) :
    bigInt ((if stripLeadingZeros ('-' :: l) = [] then ['0'] else
      stripLeadingZeros ('-' :: l)).erase '-') = some (value l) := by
  by_cases hzero : ∃ m, l = '0' :: m
  · obtain ⟨m, rfl⟩ := hzero
    have hm : Digits m := fun c hc => hl c (List.mem_cons_of_mem _ hc)
    have hstrip : stripLeadingZeros ('-' :: '0' :: m) = m.dropWhile (· = '0') := rfl
    have hvalue : value ('0' :: m) = value m := by
      rw [← value_dropWhile (l := '0' :: m), List.dropWhile_cons_of_pos (by simp), value_dropWhile]
    rw [hstrip, parse_stripped hm, hvalue]
  · have hstrip : stripLeadingZeros ('-' :: l) = '-' :: l := by
      unfold stripLeadingZeros
      split
      · rename_i m heq
        exact absurd ⟨m, (List.cons.inj heq).2⟩ hzero
      · rfl
    rw [hstrip, if_neg (List.cons_ne_nil _ _), List.erase_cons_head]
    unfold bigInt
    rw [if_pos hl]

/-- A text without a sign reads as its digits. -/
theorem parseShares_digits {text : List Char} (hdigits : Digits (text.erase '.'))
    (hhead : text.head? ≠ some '-') : parseShares text = some (value (text.erase '.') : ℤ) := by
  unfold parseShares
  dsimp only
  rw [stripLeadingZeros_digits hdigits, parse_stripped hdigits, if_neg hhead, Option.map_some,
    one_mul]

theorem parseShares_numeric {x : ℤ} : parseShares (numeric x) = some x := by
  have hdigits : Digits ((pointed 7 x.natAbs).erase '.') := digits_pointed
  have hvalue : value ((pointed 7 x.natAbs).erase '.') = x.natAbs := value_pointed (by decide)
  unfold numeric
  by_cases hneg : x < 0
  · rw [if_pos hneg, List.singleton_append]
    unfold parseShares
    dsimp only
    rw [List.erase_cons_tail (by decide), parse_negative hdigits, hvalue]
    simp only [List.head?_cons, if_true, Option.map_some, Option.some.injEq]
    omega
  · rw [if_neg hneg, List.nil_append, parseShares_digits hdigits head_pointed, hvalue]
    simp only [Option.some.injEq]
    omega

/-! ## The sums of a user -/

def Database.deposited (db : Database ι κ) (u : User ι κ) : ℤ :=
  ((u.rows db.deposits).map Entry.shares).sum

def Database.withdrawn (db : Database ι κ) (u : User ι κ) : ℤ :=
  ((u.rows db.withdrawals).map Entry.shares).sum

/-- The number of rows a user has in the join for each row of `entries`. -/
def User.partners (u : User ι κ) (entries : List (Entry ι)) : ℤ := max 1 (u.rows entries).length

/-- The balance the query comes to. -/
def Database.joinedShares (db : Database ι κ) (u : User ι κ) : ℤ :=
  db.deposited u * u.partners db.withdrawals - db.withdrawn u * u.partners db.deposits

omit [LinearOrder κ] [OrderBot κ] in
theorem parseShares_netShares : parseShares (db.netShares u) = some (db.joinedShares u) := by
  have hd : (sumOf Entry.shares ((joined (u.rows db.deposits) (u.rows db.withdrawals)).map
      Prod.fst)).getD 0 = db.deposited u * u.partners db.withdrawals := by
    rw [sumOf_joined_fst]
    push_cast
    rfl
  have hw : (sumOf Entry.shares ((joined (u.rows db.deposits) (u.rows db.withdrawals)).map
      Prod.snd)).getD 0 = db.withdrawn u * u.partners db.deposits := by
    rw [sumOf_joined_snd]
    push_cast
    rfl
  unfold Database.netShares Database.joinedShares
  rw [← hd, ← hw]
  dsimp only
  split
  · rename_i hnone hnone'
    have hzero : (['0'] : List Char).erase '.' = ['0'] := by decide
    have hdigits : Digits ((['0'] : List Char).erase '.') := by
      rw [hzero]
      exact digits_replicate_zero (n := 1)
    rw [hnone, hnone', parseShares_digits hdigits (by simp), hzero]
    simp [value, Nat.ofDigitChars_cons]
  · exact parseShares_numeric

/-! ## A run -/

/-- The addresses of a page with the balances the query comes to. -/
def Database.positions (db : Database ι κ) (page : List (User ι κ)) : List (κ × ℤ) :=
  page.map fun u => (u.stellarAddress, db.joinedShares u)

def Database.result (db : Database ι κ) (query : κ → Query) (ledger : ℕ)
    (page : List (User ι κ)) : ReconciliationResult κ where
  ledger := ledger
  checked := page.map User.stellarAddress
  mismatches := (db.positions page).filterMap (compare query ledger)

theorem reconcilePositions_eq : db.reconcilePositions query ledger startAfter limit =
    some (db.result query ledger
      ((after User.stellarAddress startAfter db.ordered).take limit)) := by
  have hpage : ∀ page : List (User ι κ), (page.mapM fun u =>
      (parseShares (db.netShares u)).map fun dbShares => (u.stellarAddress, dbShares)) =
        some (db.positions page) := by
    intro page
    induction page with
    | nil => rfl
    | cons u page ih =>
      rw [List.mapM_cons, parseShares_netShares, ih]
      rfl
  unfold Database.reconcilePositions Database.loadDbPositions
  rw [hpage, Option.map_some]
  unfold Database.result Database.positions
  rw [List.map_map]
  rfl

/-- A sweep makes one run for each page. -/
theorem sweep_eq : db.sweep query ledger limit fuel startAfter =
    some ((pages User.stellarAddress limit db.ordered fuel startAfter).map
      (db.result query ledger)) := by
  induction fuel generalizing startAfter with
  | zero => rfl
  | succ fuel ih =>
    unfold Database.sweep
    rw [reconcilePositions_eq]
    have hchecked : ∀ page : List (User ι κ), (db.result query ledger page).checked.getLast? =
        page.getLast?.map User.stellarAddress := fun page => List.getLast?_map
    cases hlast : ((after User.stellarAddress startAfter db.ordered).take limit).getLast? with
    | none =>
      rw [pages_nil hlast]
      simp [hchecked, hlast]
    | some last =>
      rw [pages_cons hlast]
      simp [hchecked, hlast, ih]

/-! ## All runs of a sweep -/

/-- The shares of a user by the tables: deposited less withdrawn. -/
def Database.netBalance (db : Database ι κ) (u : User ι κ) : ℤ := db.deposited u - db.withdrawn u

/-- The results of a sweep are right: the balances are the tables', a user is reported exactly when
    the vault was read and has another balance, and each user is checked once. -/
structure Exact (db : Database ι κ) (query : κ → Query)
    (results : List (ReconciliationResult κ)) : Prop where
  shares : ∀ u ∈ db.users, parseShares (db.netShares u) = some (db.netBalance u)
  reported : ∀ u ∈ db.users,
    (∃ result ∈ results, ∃ m ∈ result.mismatches, m.address = u.stellarAddress) ↔
      ∃ v, (query u.stellarAddress).read = some v ∧ v ≠ db.netBalance u
  once : (results.flatMap ReconciliationResult.checked).Perm (db.users.map User.stellarAddress)

/-- The joins count every row once or their surpluses cancel, a user who cannot be read has nothing,
    and pages advance: the first one is not empty and does not end at the empty address. -/
structure Reconcilable (db : Database ι κ) (query : κ → Query) (limit : ℕ) : Prop where
  joins : ∀ u ∈ db.users, db.deposited u * (u.partners db.withdrawals - 1) =
    db.withdrawn u * (u.partners db.deposits - 1)
  queries : ∀ u ∈ db.users, (query u.stellarAddress).read = none → db.netBalance u = 0
  advances : db.users ≠ [] → 0 < limit
  pages : ∀ last ∈ (db.ordered.take limit).getLast?, last.stellarAddress ≠ ⊥

omit [DecidableEq ι] [OrderBot κ] in
theorem ordered_perm : db.ordered.Perm db.users := List.perm_insertionSort _ _

omit [DecidableEq ι] [OrderBot κ] in
theorem ordered_sorted : db.ordered.Pairwise fun a b => a.stellarAddress < b.stellarAddress := by
  have hle : db.ordered.Pairwise fun a b => a.stellarAddress ≤ b.stellarAddress := by
    have : Std.Total fun a b : User ι κ => a.stellarAddress ≤ b.stellarAddress :=
      ⟨fun a b => le_total _ _⟩
    have : IsTrans (User ι κ) fun a b => a.stellarAddress ≤ b.stellarAddress :=
      ⟨fun _ _ _ => le_trans⟩
    exact List.pairwise_insertionSort _ _
  have hne : db.ordered.Pairwise fun a b => a.stellarAddress ≠ b.stellarAddress :=
    List.pairwise_map.mp ((ordered_perm.map User.stellarAddress).nodup_iff.mpr db.unique)
  exact (hle.and hne).imp fun h => lt_of_le_of_ne h.1 h.2

omit [LinearOrder κ] [OrderBot κ] in
theorem joinedShares_eq_iff : db.joinedShares u = db.netBalance u ↔
    db.deposited u * (u.partners db.withdrawals - 1) =
      db.withdrawn u * (u.partners db.deposits - 1) := by
  unfold Database.joinedShares Database.netBalance
  rw [mul_sub, mul_sub, mul_one, mul_one]
  omega

omit [LinearOrder κ] [OrderBot κ] in
/-- A user of a checked page is in the results exactly when the two balances differ. -/
theorem reported_iff {checked : List (List (User ι κ))}
    (hmem : ∀ v ∈ checked.flatten, v ∈ db.users) (hu : u ∈ db.users)
    (hchecked : u ∈ checked.flatten) :
    (∃ result ∈ checked.map (db.result query ledger), ∃ m ∈ result.mismatches,
        m.address = u.stellarAddress) ↔
      db.joinedShares u ≠ (query u.stellarAddress).getOnchainShares := by
  constructor
  · rintro ⟨_, hresult, m, hm, haddress⟩
    obtain ⟨page, hpage, rfl⟩ := List.mem_map.mp hresult
    obtain ⟨position, hposition, hcompare⟩ := List.mem_filterMap.mp hm
    obtain ⟨v, hv, rfl⟩ := List.mem_map.mp hposition
    unfold compare at hcompare
    dsimp only at hcompare
    split_ifs at hcompare with hdiffers
    obtain rfl := Option.some.inj hcompare
    have hvmem : v ∈ db.users := hmem v (List.mem_flatten.mpr ⟨page, hpage, hv⟩)
    have hvu : v = u := List.inj_on_of_nodup_map db.unique hvmem hu haddress
    rwa [hvu] at hdiffers
  · intro hdiffers
    obtain ⟨page, hpage, hin⟩ := List.mem_flatten.mp hchecked
    refine ⟨db.result query ledger page, List.mem_map_of_mem hpage, _,
      List.mem_filterMap.mpr ⟨_, List.mem_map_of_mem hin, if_pos hdiffers⟩, rfl⟩

omit [LinearOrder κ] [OrderBot κ] in
theorem checked_eq {checked : List (List (User ι κ))} :
    (checked.map (db.result query ledger)).flatMap ReconciliationResult.checked =
      checked.flatten.map User.stellarAddress := by
  rw [List.flatMap_map, List.map_flatten, List.flatMap_def]
  rfl

theorem sweep_exact_iff_of_pos (hlimit : 0 < limit) (hfuel : db.users.length < fuel) :
    Exact db query ((pages User.stellarAddress limit db.ordered fuel none).map
        (db.result query ledger)) ↔ Reconcilable db query limit := by
  have hlength : db.ordered.length < fuel := by
    rw [ordered_perm.length_eq]
    exact hfuel
  have hread : ∀ u : User ι κ, (query u.stellarAddress).read = none →
      (query u.stellarAddress).getOnchainShares = 0 := fun u hnone => by
    unfold Query.getOnchainShares
    rw [hnone]
    rfl
  -- with every user on some page, a report compares the joined balance with the answer
  have hreports : (pages User.stellarAddress limit db.ordered fuel none).flatten = db.ordered →
      ∀ u ∈ db.users, (∃ result ∈ (pages User.stellarAddress limit db.ordered fuel none).map
        (db.result query ledger), ∃ m ∈ result.mismatches, m.address = u.stellarAddress) ↔
          db.joinedShares u ≠ (query u.stellarAddress).getOnchainShares := by
    intro hflat u hu
    refine reported_iff (fun v hv => ?_) hu ?_
    · rw [hflat] at hv
      exact ordered_perm.mem_iff.mp hv
    · rw [hflat]
      exact ordered_perm.mem_iff.mpr hu
  constructor
  · intro h
    have hjoins : ∀ u ∈ db.users, db.joinedShares u = db.netBalance u := fun u hu =>
      Option.some.inj (parseShares_netShares.symm.trans (h.shares u hu))
    have hpages : ∀ last ∈ (db.ordered.take limit).getLast?, last.stellarAddress ≠ ⊥ := by
      intro last hlast hbot
      refine not_nodup_pages hlast hbot hlength ?_
      have honce := h.once
      rw [checked_eq] at honce
      exact (honce.nodup_iff.mpr db.unique).of_map _
    refine ⟨fun u hu => joinedShares_eq_iff.mp (hjoins u hu), fun u hu hnone => ?_,
      fun _ => hlimit, hpages⟩
    have hflat := flatten_pages ordered_sorted hlimit hlength hpages
    by_contra hnonzero
    obtain ⟨v, hv, -⟩ := (h.reported u hu).mp ((hreports hflat u hu).mpr (by
      rw [hjoins u hu, hread u hnone]
      exact hnonzero))
    rw [hnone] at hv
    cases hv
  · intro h
    have hjoins : ∀ u ∈ db.users, db.joinedShares u = db.netBalance u := fun u hu =>
      joinedShares_eq_iff.mpr (h.joins u hu)
    have hflat := flatten_pages ordered_sorted hlimit hlength h.pages
    refine ⟨fun u hu => ?_, fun u hu => ?_, ?_⟩
    · rw [parseShares_netShares, hjoins u hu]
    · rw [hreports hflat u hu, hjoins u hu]
      cases hq : (query u.stellarAddress).read with
      | none =>
        rw [hread u hq, h.queries u hu hq]
        simp
      | some v =>
        unfold Query.getOnchainShares
        rw [hq]
        simp [eq_comm]
    · rw [checked_eq, hflat]
      exact ordered_perm.map _

/-- Empty pages check nobody. -/
theorem sweep_exact_iff_of_zero : Exact db query ((pages User.stellarAddress 0 db.ordered fuel
    none).map (db.result query ledger)) ↔ Reconcilable db query 0 := by
  have hpages : pages User.stellarAddress 0 db.ordered fuel none = [] := by
    cases fuel with
    | zero => rfl
    | succ fuel => exact pages_nil (by simp)
  rw [hpages]
  constructor
  · intro h
    have hnone : db.users = [] := List.map_eq_nil_iff.mp h.once.nil_eq.symm
    refine ⟨?_, ?_, fun hne => absurd hnone hne, by simp⟩
    all_goals rw [hnone]; exact nofun
  · intro h
    have hnone : db.users = [] := by
      by_contra hne
      exact absurd (h.advances hne) (lt_irrefl 0)
    refine ⟨?_, ?_, ?_⟩
    all_goals rw [hnone]
    · exact nofun
    · exact nofun
    · exact List.Perm.refl _

/-- A sweep is exact if and only if the tables and the queries can be reconciled. -/
theorem sweep_exact_iff (hfuel : db.users.length < fuel) :
    ∃ results, db.sweep query ledger limit fuel none = some results ∧
      (Exact db query results ↔ Reconcilable db query limit) := by
  refine ⟨_, sweep_eq, ?_⟩
  rcases Nat.eq_zero_or_pos limit with rfl | hlimit
  · exact sweep_exact_iff_of_zero
  · exact sweep_exact_iff_of_pos hlimit hfuel

namespace Sample

/-- Two users, each with one deposit; addresses are numbers here, zero the empty one. -/
def plain : Database ℕ ℕ where
  users := [⟨1, 7⟩, ⟨2, 5⟩]
  deposits := [⟨1, 30⟩, ⟨2, 20⟩]
  withdrawals := []
  unique := by decide

/-- The vault has the balance of the first user and another one of the second. -/
def answers (address : ℕ) : Query := if address = 7 then .bigint 30 else .bigint 15

theorem plain_swept : ∃ results, plain.sweep answers 100 1 3 none = some results ∧
    (Exact plain answers results ↔ Reconcilable plain answers 1) :=
  sweep_exact_iff (by decide)

/-- One deposit of ten shares and two withdrawals of three. -/
def split : Database ℕ ℕ where
  users := [⟨1, 7⟩]
  deposits := [⟨1, 10⟩]
  withdrawals := [⟨1, 3⟩, ⟨1, 3⟩]
  unique := by decide

/-- The deposit counts twice: fourteen shares instead of four. -/
theorem split_miscounted : parseShares (split.netShares ⟨1, 7⟩) = some 14 ∧
    split.netBalance ⟨1, 7⟩ = 4 ∧ ∀ query results, ¬ Exact split query results := by
  have hparsed : parseShares (split.netShares ⟨1, 7⟩) = some 14 := by
    rw [parseShares_netShares]
    decide
  have hnet : split.netBalance ⟨1, 7⟩ = 4 := by decide
  refine ⟨hparsed, hnet, fun query results h => ?_⟩
  have hshares := h.shares ⟨1, 7⟩ (by simp [split])
  rw [hparsed, hnet] at hshares
  exact absurd hshares (by decide)

end Sample

end NeuroWealth.Reconcile
