import NeuroWealth.Foundation.Proofs.SharePoolProofs
import NeuroWealth.Vault.Proofs.HoldersProofs
import NeuroWealth.Vault.Proofs.ReportingProofs

/-!
# Attributing a yield

A report that raises the total tells every holder its part of the raise. The loop runs over the
holder index, so it reaches every holder once; and while the books add up the parts are the
holders' claims on the raise.
-/

namespace NeuroWealth.Vault

open Transaction MachineInt SharePool

variable {env : Env} {w w0 w' : World} {reporter : Address} {new y : Int} {allow : Bool} {bps : Nat}
  {users : List Address}

/-! ## What a call announces -/

def Event.toYield : Event → Option (Address × Int)
  | .yieldAttributed user _ amount _ => some (user, amount)
  | _ => none

/-- The yields the last call attributed, in order. -/
def World.yields (w : World) : List (Address × Int) := w.events.filterMap Event.toYield

/-- Users with shares. -/
def Book.holders (b : Book) : Set Address := Function.support b.shares

/-- A raise of `y` was attributed to the holders of `w`: each is named at most once and gets its
    part, rounded down, and the parts leave less than one for each holder. -/
structure Attributed (w w' : World) (y : Int) : Prop where
  once : (w'.yields.map Prod.fst).Nodup
  holders : ∀ u ∈ w'.yields.map Prod.fst, 0 < w.book.shares u
  parts : ∀ u amount, (u, amount) ∈ w'.yields ↔
    amount = y * w.book.shares u / w.book.totalShares ∧ amount ≠ 0
  sum_le : (w'.yields.map Prod.snd).sum ≤ y
  lt_sum : y - (w.book.holders.ncard : Int) < (w'.yields.map Prod.snd).sum

/-! ## The loop -/

/-- A holder's part of a yield, if it is not zero. -/
def World.part (w : World) (y : Int) (user : Address) : Option (Address × Int) :=
  if w.book.yieldOf y user = 0 then none else some (user, w.book.yieldOf y user)

theorem yields_attributions :
    (users.flatMap (w.attribution y)).filterMap Event.toYield = users.filterMap (w.part y) := by
  induction users with
  | nil => rfl
  | cons user users ih =>
    rw [List.flatMap_cons, List.filterMap_append, ih]
    unfold World.attribution
    by_cases hzero : w.book.yieldOf y user = 0
    · have hnone : w.part y user = none := if_pos hzero
      rw [if_pos hzero, List.filterMap_cons_none hnone, List.filterMap_nil, List.nil_append]
    · have hsome : w.part y user = some (user, w.book.yieldOf y user) := if_neg hzero
      rw [if_neg hzero, List.filterMap_cons_some hsome]
      rfl

theorem part_users : (users.filterMap (w.part y)).map Prod.fst =
    users.filter fun u => !decide (w.book.yieldOf y u = 0) := by
  induction users with
  | nil => rfl
  | cons user users ih =>
    by_cases hzero : w.book.yieldOf y user = 0
    · simp [World.part, hzero, ← ih]
    · simp [World.part, hzero, ← ih]

theorem part_sum : ((users.filterMap (w.part y)).map Prod.snd).sum =
    (users.map (w.book.yieldOf y)).sum := by
  induction users with
  | nil => rfl
  | cons user users ih =>
    by_cases hzero : w.book.yieldOf y user = 0
    · simp [World.part, hzero, ← ih]
    · simp [World.part, hzero, ← ih]

/-- A part of a yield is the holder's claim on it. -/
theorem yieldOf_eq_claim (hb : w.book.Tallied) (hy : 0 ≤ y) (u : Address) :
    w.book.yieldOf y u = (w.book.pool.revalue y).claim u := by
  have hnonneg : 0 ≤ w.book.shares u := hb.conserved.nonneg u
  unfold Book.yieldOf Pool.claim
  rw [Int.tdiv_eq_ediv_of_nonneg (mul_nonneg hy hnonneg), mul_comm]
  rfl

/-- The parts of all listed users are the claims of all holders. -/
theorem sum_yieldOf (hb : w.book.Tallied) (hw : w.Indexed) (hy : 0 ≤ y) :
    (w.holders.map (w.book.yieldOf y)).sum = ∑ᶠ u, (w.book.pool.revalue y).claim u := by
  have hsupport : Function.support (w.book.pool.revalue y).claim ⊆ ↑w.holders.toFinset := by
    intro u hu
    rw [List.coe_toFinset]
    apply hw.listed
    intro hzero
    exact hu (by
      show w.book.shares u * _ / _ = 0
      rw [hzero, zero_mul, Int.zero_ediv])
  rw [finsum_eq_sum_of_support_subset _ hsupport, List.sum_toFinset _ hw.nodup]
  congr 1
  exact List.map_congr_left fun u _ => yieldOf_eq_claim hb hy u

/-- While the books add up and the index is complete, a positive yield is attributed in full up to
    rounding. -/
theorem attributed_of_parts (hb : w.book.Tallied) (hw : w.Indexed) (hS : 0 < w.book.totalShares)
    (hy : 0 < y) (hyields : w'.yields = w.holders.filterMap (w.part y)) : Attributed w w' y := by
  have hpool : (w.book.pool.revalue y).Conserved :=
    ⟨hb.conserved.finite, hb.conserved.sum, hb.conserved.nonneg⟩
  have hsum : (w'.yields.map Prod.snd).sum = ∑ᶠ u, (w.book.pool.revalue y).claim u := by
    rw [hyields, part_sum, sum_yieldOf hb hw hy.le]
  have hpart : ∀ u, w.book.yieldOf y u = y * w.book.shares u / w.book.totalShares := fun u =>
    Int.tdiv_eq_ediv_of_nonneg (mul_nonneg hy.le (hb.conserved.nonneg u))
  have hholder : ∀ u, w.book.yieldOf y u ≠ 0 → 0 < w.book.shares u := by
    intro u hne
    have hnonneg : 0 ≤ w.book.shares u := hb.conserved.nonneg u
    by_contra hnone
    have hzero : w.book.shares u = 0 := by omega
    rw [hpart, hzero, mul_zero, Int.zero_ediv] at hne
    exact hne rfl
  constructor
  · rw [hyields, part_users]
    exact hw.nodup.filter _
  · intro u hu
    rw [hyields, part_users, List.mem_filter] at hu
    exact hholder u (by simpa using hu.2)
  · intro u amount
    rw [hyields, List.mem_filterMap, ← hpart]
    constructor
    · rintro ⟨v, -, hv⟩
      unfold World.part at hv
      split_ifs at hv with hzero
      cases hv
      exact ⟨rfl, hzero⟩
    · rintro ⟨rfl, hne⟩
      exact ⟨u, hw.listed u (hholder u hne).ne', if_neg hne⟩
  · rw [hsum]
    exact Pool.finsum_claim_le hpool hy.le
  · rw [hsum]
    have hbelow := Pool.lt_finsum_claim_add hpool hS
    change y < _ + (w.book.holders.ncard : Int) at hbelow
    omega

/-! ## Reports -/

/-- An accepted report of more is announced with the parts of the raise. -/
theorem report_yields (hi : w.Initialized) (hrise : w.book.assets < new)
    (hfits : i128.Fits (new - w.book.assets)) (hS : w.book.totalShares ≠ 0)
    (h : (invoke (.updateTotalAssets reporter new allow bps)).Ok env w () w') :
    w'.yields = w.holders.filterMap (w.part (new - w.book.assets)) := by
  have hrun : (updateTotalAssets reporter new allow bps).Ok env w.entered () w' := ok_invoke.mp h
  obtain ⟨-, -, -, rfl⟩ := (ok_updateTotalAssets (w := w.entered) hi hrise.le).mp hrun
  have hraise : i128.saturatingSub new w.entered.book.assets = new - w.book.assets :=
    saturate_of_fits hfits
  have hpos : 0 < new - w.book.assets := by omega
  have hall : w.entered.attributions (new - w.book.assets) =
      w.entered.holders.flatMap (w.entered.attribution (new - w.book.assets)) := if_pos ⟨hpos, hS⟩
  have hevents : (w.entered.reported new).events =
      w.holders.flatMap (w.attribution (new - w.book.assets)) ++
        [.assetsUpdated w.book.assets new] := by
    unfold World.reported
    rw [hraise, hall]
    exact List.nil_append _
  unfold World.yields
  rw [hevents, List.filterMap_append, yields_attributions]
  exact List.append_nil _

/-! ## Along a run -/

/-- In every run in which no batch is deposited while the total is negative, an accepted report
    that raises the total attributes the raise to the holders. -/
theorem yield_attributed (h0 : w0.Opened) (h : Reaches (fun t step => step.BatchesSolvent t) w0 w)
    (hS : 0 < w.book.totalShares) (hrise : w.book.assets < new)
    (hfits : i128.Fits (new - w.book.assets))
    (hok : (invoke (.updateTotalAssets reporter new allow bps)).Ok env w () w') :
    Attributed w w' (new - w.book.assets) := by
  obtain ⟨hb, hi⟩ := tallied_of_reaches h0 h
  have hw : w.Indexed := indexed_of_reaches h0 h
  exact attributed_of_parts hb hw hS (by omega) (report_yields hi hrise hfits hS.ne' hok)

/-! ## Runs -/

namespace Sample

/-- Alice and bob deposit, and a donation leaves twenty USDC with the vault. -/
def donated : List Step :=
  [.call honest (.deposit alice 5000000), .call honest (.deposit bob 7000000),
    .ambient { opened.chain with balances := fun _ _ => 20000000 }]

/-- The report of two of them. -/
def reportRise : Step := .call honest (.updateTotalAssets Sample.agent 14000001 false 0)

theorem donated_attributed :
    Attributed (opened.replay donated) ((opened.replay donated).after reportRise) 2000001 ∧
      ((opened.replay donated).after reportRise).yields = [(alice, 833333), (bob, 1166667)] := by
  have hassets : (opened.replay donated).book.assets = 12000000 := by decide +kernel
  have hreach : Reaches (fun t step => step.BatchesSolvent t) opened (opened.replay donated) :=
    .of_admits ⟨trivial, trivial, trivial, trivial⟩
  have hok : (invoke (.updateTotalAssets Sample.agent 14000001 false 0)).Ok honest
      (opened.replay donated) () ((opened.replay donated).after reportRise) :=
    ok_after (by decide +kernel)
  have hparts := yield_attributed opened_opened hreach (by decide +kernel) (by omega)
    (by rw [hassets]; decide) hok
  rw [hassets] at hparts
  exact ⟨hparts, by decide +kernel⟩

/-- A co-signed loss far below zero, and a batch for bob on top of it. -/
def sunk : List Step :=
  [.call honest (.deposit alice 5000000),
    .call honest (.updateTotalAssets Sample.agent (-2000000000000) true 4294967295),
    .call honest (.batchDeposit Sample.agent [⟨bob, 1000000⟩])]

def reportBack : Step := .call honest (.updateTotalAssets Sample.agent 5000000 false 0)

/-- The batch left bob two shares short of none, and the report names him with a loss. -/
theorem sunk_misattributed :
    opened.Opened ∧ Reaches (fun _ _ => True) opened (opened.replay sunk) ∧
      0 < (opened.replay sunk).book.totalShares ∧ (opened.replay sunk).book.assets < 5000000 ∧
      (invoke (.updateTotalAssets Sample.agent 5000000 false 0)).Ok honest (opened.replay sunk) ()
        ((opened.replay sunk).after reportBack) ∧
      ¬ Attributed (opened.replay sunk) ((opened.replay sunk).after reportBack)
        (5000000 - (opened.replay sunk).book.assets) := by
  have hreach : Reaches (fun _ _ => True) opened (opened.replay sunk) :=
    .of_admits ⟨trivial, trivial, trivial, trivial⟩
  refine ⟨opened_opened, hreach, by decide +kernel, by decide +kernel,
    ok_after (by decide +kernel), ?_⟩
  intro hattributed
  have hbob : 0 < (opened.replay sunk).book.shares bob :=
    hattributed.holders bob (by decide +kernel)
  revert hbob
  decide +kernel

end Sample

end NeuroWealth.Vault
