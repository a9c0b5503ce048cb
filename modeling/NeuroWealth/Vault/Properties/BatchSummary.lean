import NeuroWealth.Vault.Properties.Batch

/-!
# The summary of a batch

`batch_deposit` announces what its validation pass counted, but its effects pass judges every entry
again on the book the earlier entries leave, and hands back what would mint nothing. The summary is
true exactly when both come to the same totals.
-/

namespace NeuroWealth.Vault

open Transaction MachineInt SharePool

variable {env : Env} {w w0 w' t : World} {agent user : Address} {item : BatchDepositItem}
  {entries rest : List BatchDepositItem} {minted : Int}

/-! ## What a call announces -/

def Event.toDeposit : Event → Option BatchDepositItem
  | .deposit user amount _ => some ⟨user, amount⟩
  | _ => none

/-- The deposits the last call announced. -/
def World.deposits (w : World) : List BatchDepositItem := w.events.filterMap Event.toDeposit

/-- The figures of a batch summary. -/
structure BatchFigures where
  count : Nat
  totalAmount : Int
  skipped : Nat
deriving DecidableEq

def Event.toFigures : Event → Option BatchFigures
  | .batchDeposited _ count totalAmount skipped => some ⟨count, totalAmount, skipped⟩
  | _ => none

/-- The batch summaries the last call announced. -/
def World.summaries (w : World) : List BatchFigures := w.events.filterMap Event.toFigures

def totalAmount (entries : List BatchDepositItem) : Int :=
  (entries.map BatchDepositItem.amount).sum

/-- There is one summary, and it says how many deposits were announced, what they add up to and
    what the vault gained; the other entries are counted as skipped. -/
def Summarised (w w' : World) (entries : List BatchDepositItem) : Prop :=
  ∃ figures, w'.summaries = [figures] ∧ figures.count = w'.deposits.length ∧
    figures.totalAmount = totalAmount w'.deposits ∧
    figures.totalAmount = w'.idle - w.idle ∧
    figures.count + figures.skipped = entries.length

/-! ## Entries in turn -/

/-- An entry passes the checks and mints shares. -/
def World.Fills (w : World) (item : BatchDepositItem) : Prop :=
  w.AdmitsEntry item ∧ Pool.sharesFor w.book.totalShares w.book.assets item.amount ≠ 0

instance : Decidable (w.Fills item) := inferInstanceAs (Decidable (_ ∧ _))

/-- The book with an entry credited at the current price. -/
def World.booking (w : World) (item : BatchDepositItem) : World :=
  { w with
    book := w.book.credited item.user item.amount
      (Pool.sharesFor w.book.totalShares w.book.assets item.amount) }

/-- The entries that fill when their turn comes, each on the book that the earlier ones leave. -/
def World.filled (w : World) : List BatchDepositItem → List BatchDepositItem
  | [] => []
  | item :: rest =>
    if w.Fills item then item :: (w.booking item).filled rest else w.filled rest

/-- The entries valid at the start and those that fill in turn are equally many and have the same
    sum. -/
def World.SameTotals (w : World) (entries : List BatchDepositItem) : Prop :=
  (w.filled entries).length = (w.valid entries).length ∧
    totalAmount (w.filled entries) = totalAmount (w.valid entries)

instance : Decidable (w.SameTotals entries) := inferInstanceAs (Decidable (_ ∧ _))

theorem admitsEntry_congr (hlimits : t.limits = w.limits) (hbook : t.book = w.book) :
    t.AdmitsEntry item ↔ w.AdmitsEntry item := by
  unfold World.AdmitsEntry World.exposure
  rw [hlimits, hbook]

/-- Only the limits and the book decide what fills. -/
theorem filled_congr (hlimits : t.limits = w.limits) (hbook : t.book = w.book) :
    t.filled entries = w.filled entries := by
  induction entries generalizing t w with
  | nil => rfl
  | cons item rest ih =>
    have hfills : t.Fills item ↔ w.Fills item := by
      unfold World.Fills
      rw [admitsEntry_congr hlimits hbook, hbook]
    have hbooking : (t.booking item).book = (w.booking item).book := by
      show t.book.credited _ _ _ = w.book.credited _ _ _
      rw [hbook]
    unfold World.filled
    simp only [hfills]
    rw [ih (t := t.booking item) (w := w.booking item) hlimits hbooking, ih hlimits hbook]

theorem valid_congr (hlimits : t.limits = w.limits) (hbook : t.book = w.book) :
    t.valid entries = w.valid entries := by
  unfold World.valid
  simp only [admitsEntry_congr hlimits hbook]

/-! ## One entry -/

/-- A call announces nothing a summary is about. -/
structure Unannounced (w w' : World) : Prop where
  deposits : w'.deposits = w.deposits
  summaries : w'.summaries = w.summaries

def unannounced : Footprint Env World where
  rel _ w w' := Unannounced w w'
  refl _ _ := ⟨rfl, rfl⟩
  trans h1 h2 := ⟨h2.deposits.trans h1.deposits, h2.summaries.trans h1.summaries⟩

theorem unannounced_publish {e : Event} (hdeposit : e.toDeposit = none)
    (hfigures : e.toFigures = none) : Keeps unannounced (publish e) :=
  .modify fun _ w => by
    constructor
    · simp [World.deposits, hdeposit]
    · simp [World.summaries, hfigures]

theorem unannounced_modifyProfiles {f : Profiles → Profiles} :
    Keeps unannounced (modifyProfiles f) :=
  .modify fun _ _ => ⟨rfl, rfl⟩

theorem unannounced_transfer {token sender recipient : Address} {amount : Int} :
    Keeps unannounced (transfer token sender recipient amount) :=
  .bind .get fun _ => .bind .require fun _ => .bind (.modify fun _ _ => ⟨rfl, rfl⟩) fun _ =>
    unannounced_publish rfl rfl

theorem unannounced_recordFirstBatchDeposit :
    Keeps unannounced (recordFirstBatchDeposit user) :=
  .bind unannounced_modifyProfiles fun _ => .bind .get fun _ =>
    .ite (.bind unannounced_modifyProfiles fun _ => unannounced_publish rfl rfl) (.pure _)

/-- A credit announces its entry. -/
theorem creditBatchItem_announces {u : Unit} (h : (creditBatchItem item minted).Ok env w u w') :
    w'.deposits = w.deposits ++ [item] ∧ w'.summaries = w.summaries := by
  simp only [creditBatchItem, Tx.ok_bind, Tx.ok_get, ok_checkedAdd, ok_readShares,
    ok_getTotalSharesInternal, ok_getTotalAssetsInternal, ok_setUserShares, ok_setTotalDeposits,
    ok_setTotalShares, ok_setTotalAssets, ok_recordDepositLedger, ok_publish, existsAndEq,
    exists_const, and_assoc, true_and] at h
  obtain ⟨-, _, t, hfirst, -, -, -, rfl⟩ := h
  have hquiet : Unannounced _ t :=
    (Keeps.onlyIf unannounced_recordFirstBatchDeposit : Keeps unannounced _) hfirst
  have hdeposits : t.deposits = w.deposits := hquiet.deposits
  have hsummaries : t.summaries = w.summaries := hquiet.summaries
  constructor
  · rw [← hdeposits]
    simp [World.deposits, Event.toDeposit]
  · rw [← hsummaries]
    simp [World.summaries, Event.toFigures]

/-- An entry that fills is announced, paid for and booked; any other leaves nothing. -/
structure Settles (w w' : World) (item : BatchDepositItem) : Prop where
  deposits : w'.deposits = w.deposits ++ if w.Fills item then [item] else []
  summaries : w'.summaries = w.summaries
  idle : w'.idle = w.idle + if w.Fills item then item.amount else 0
  book : w'.book = if w.Fills item then (w.booking item).book else w.book

theorem EntryStep.settles (h : EntryStep env agent item w w') (hself : agent ≠ w.self) :
    Settles w w' item := by
  cases h with
  | skipped hrejects heq =>
    have hnot : ¬ w.Fills item := fun hfills => hrejects hfills.1
    subst heq
    constructor
    · rw [if_neg hnot, List.append_nil]
    · rfl
    · rw [if_neg hnot, add_zero]
    · rw [if_neg hnot]
  | @returned token t hvalid htoken h1 hzero h2 =>
    have hnot : ¬ w.Fills item := fun hfills => hfills.2 hzero
    have hin := transfer_ok h1
    have hout := transfer_ok h2
    have hannounced := unannounced.trans (r := env) (unannounced_transfer h1)
      (unannounced_transfer h2)
    rw [← hin.self] at hout
    have hidle1 := hin.idle_in htoken hself
    have hidle2 := hout.idle_out (hin.usdcToken.trans htoken) (by rwa [hin.self])
    constructor
    · rw [if_neg hnot, List.append_nil]
      exact hannounced.deposits
    · exact hannounced.summaries
    · rw [if_neg hnot]
      omega
    · rw [if_neg hnot, hout.book, hin.book]
  | @credited token t minted hvalid htoken h1 hminted _ hne h2 =>
    have hfills : w.Fills item := ⟨admitsEntry_of_valid hvalid, hminted ▸ hne⟩
    have hin := transfer_ok h1
    have hcredit := creditBatchItem_ok h2
    have hannounced := unannounced_transfer h1
    obtain ⟨hdeposits, hsummaries⟩ := creditBatchItem_announces h2
    have hidle1 := hin.idle_in htoken hself
    constructor
    · rw [if_pos hfills, hdeposits, hannounced.deposits]
    · rw [hsummaries, hannounced.summaries]
    · rw [if_pos hfills, hcredit.accounting.idle, hidle1]
    · rw [if_pos hfills, hcredit.book, hin.book, hminted]
      rfl

/-! ## The effects pass -/

/-- The pass announces and takes in just the entries that fill. -/
theorem pass_fills {u : Unit} (hself : agent ≠ w.self)
    (h : (Tx.each (depositBatchItem agent) entries).Ok env w u w') :
    w'.deposits = w.deposits ++ w.filled entries ∧ w'.summaries = w.summaries ∧
      w'.idle = w.idle + totalAmount (w.filled entries) := by
  induction entries generalizing w with
  | nil =>
    obtain rfl := Tx.ok_each_nil.mp h
    exact ⟨(List.append_nil _).symm, rfl, (add_zero _).symm⟩
  | cons item rest ih =>
    obtain ⟨t, hitem, hrest⟩ := Tx.ok_each_cons.mp h
    have hentry := depositBatchItem_ok hitem
    have hframe := hentry.crediting
    have hsettles := hentry.settles hself
    obtain ⟨hdeposits, hsummaries, hidle⟩ := ih (by rwa [hframe.self]) hrest
    rw [hsettles.deposits] at hdeposits
    rw [hsettles.idle] at hidle
    have hbook := hsettles.book
    unfold World.filled
    by_cases hfills : w.Fills item
    · rw [if_pos hfills] at hdeposits hidle hbook ⊢
      have hnext : t.filled rest = (w.booking item).filled rest := filled_congr hframe.limits hbook
      rw [hnext] at hdeposits hidle
      refine ⟨?_, hsummaries.trans hsettles.summaries, ?_⟩
      · rw [hdeposits, List.append_assoc, List.singleton_append]
      · show w'.idle = w.idle + (item.amount + totalAmount ((w.booking item).filled rest))
        omega
    · rw [if_neg hfills] at hdeposits hidle hbook ⊢
      have hnext : t.filled rest = w.filled rest := filled_congr hframe.limits hbook
      rw [hnext] at hdeposits hidle
      rw [List.append_nil] at hdeposits
      rw [add_zero] at hidle
      exact ⟨hdeposits, hsummaries.trans hsettles.summaries, hidle⟩

/-- What a successful batch announces and takes in. -/
theorem batch_announces {u : Unit} (h : (invoke (.batchDeposit agent entries)).Ok env w u w') :
    w'.deposits = w.filled entries ∧ w'.idle = w.idle + totalAmount (w.filled entries) ∧
      ∃ skipped, (w.valid entries).length + skipped = entries.length ∧
        w'.summaries = [⟨(w.valid entries).length, totalAmount (w.valid entries), skipped⟩] := by
  obtain ⟨w0, hself, htoll, -, t, heach, skipped, hall, rfl⟩ := batchDeposit_passes (ok_invoke.mp h)
  have hsame : w0 = { w.entered with buckets := w0.buckets } := tollOnly_enforceRateLimit htoll
  have hlimits : w0.limits = w.limits := by rw [hsame]; rfl
  have hbook : w0.book = w.book := by rw [hsame]; rfl
  have hidle0 : w0.idle = w.idle := by rw [hsame]; rfl
  have hevents : w0.events = [] := by rw [hsame]; rfl
  have hself0 : w0.self = w.entered.self := by rw [hsame]
  obtain ⟨hdeposits, hsummaries, hidle⟩ := pass_fills (by rwa [hself0]) heach
  have hnone : w0.deposits = [] ∧ w0.summaries = [] := by
    simp only [World.deposits, World.summaries, hevents, List.filterMap_nil, and_self]
  rw [hnone.1, List.nil_append] at hdeposits
  rw [hnone.2] at hsummaries
  rw [hidle0] at hidle
  rw [admitted_eq_sum]
  rw [valid_congr hlimits hbook] at hall ⊢
  rw [filled_congr hlimits hbook] at hdeposits hidle
  refine ⟨?_, hidle, skipped, hall, ?_⟩
  · rw [← hdeposits]
    simp [World.deposits, Event.toDeposit]
  · have hlast : World.summaries { t with events := t.events ++
        [.batchDeposited agent (w.valid entries).length (totalAmount (w.valid entries)) skipped] } =
        t.summaries ++
          [⟨(w.valid entries).length, totalAmount (w.valid entries), skipped⟩] := by
      simp [World.summaries, Event.toFigures]
    rw [hsummaries] at hlast
    exact hlast

theorem summarised_iff {u : Unit} (h : (invoke (.batchDeposit agent entries)).Ok env w u w') :
    Summarised w w' entries ↔ w.SameTotals entries := by
  obtain ⟨hdeposits, hidle, skipped, hall, hsummaries⟩ := batch_announces h
  unfold Summarised World.SameTotals
  rw [hdeposits, hsummaries, hidle]
  constructor
  · rintro ⟨figures, hfigures, hcount, htotal, -, -⟩
    rw [List.singleton_inj] at hfigures
    subst hfigures
    exact ⟨hcount.symm, htotal.symm⟩
  · rintro ⟨hcount, htotal⟩
    refine ⟨_, rfl, hcount.symm, htotal.symm, ?_, hall⟩
    show totalAmount (w.valid entries) = w.idle + totalAmount (w.filled entries) - w.idle
    omega

/-! ## Regular books -/

/-- On a regular book an entry that fills in turn was valid at the start. -/
theorem filled_sublist (h0 : w0.book.Regular) (h : w.book.Regular) (hlimits : w.limits = w0.limits)
    (hclaims : ∀ v, w0.claim v ≤ w.claim v) :
    (w.filled entries).Sublist (w0.valid entries) := by
  induction entries generalizing w with
  | nil => exact List.Sublist.slnil
  | cons item rest ih =>
    unfold World.filled
    by_cases hfills : w.Fills item
    · have hamount : 0 ≤ item.amount := hfills.1.1.1.le
      have hminted := h.sharesFor_nonneg hamount
      rw [if_pos hfills, valid_cons_of_pos (admits_of_claims h0 h hlimits hclaims hfills.1)]
      apply List.Sublist.cons_cons
      apply ih (w := w.booking item) (h.credited hamount hminted) hlimits
      intro v
      exact (hclaims v).trans (claim_le_of_credited h hamount rfl rfl)
    · rw [if_neg hfills]
      have hrest := ih h hlimits hclaims
      by_cases hvalid : w0.AdmitsEntry item
      · rw [valid_cons_of_pos hvalid]
        exact hrest.cons item
      · rw [valid_cons_of_neg hvalid]
        exact hrest

theorem sameTotals_iff (h : w.book.Regular) :
    w.SameTotals entries ↔ w.filled entries = w.valid entries := by
  constructor
  · rintro ⟨hlength, -⟩
    exact (filled_sublist h h rfl fun _ => le_rfl).eq_of_length hlength
  · intro hsame
    unfold World.SameTotals
    rw [hsame]
    exact ⟨rfl, rfl⟩

/-- A batch summary is true exactly when the entries that fill in turn come to the totals of those
    valid at the start; on a regular book, exactly when every entry valid at the start still is
    when its turn comes, and mints shares. -/
theorem batch_summary_iff {u : Unit} (h : (invoke (.batchDeposit agent entries)).Ok env w u w') :
    (Summarised w w' entries ↔ w.SameTotals entries) ∧
      (w.book.Regular → (w.SameTotals entries ↔ w.filled entries = w.valid entries)) :=
  ⟨summarised_iff h, sameTotals_iff⟩

namespace Sample

/-- Alice twice, within her cap only once. -/
def twice : List BatchDepositItem := [⟨alice, 5000000⟩, ⟨alice, 5000000⟩]

def capped : World := opened.after (.call honest (.setUserDepositCap 6000000))

theorem gathered_summary :
    (Summarised opened (opened.after (.call honest (.batchDeposit Sample.agent gathered))) gathered ↔
        opened.SameTotals gathered) ∧
      (opened.SameTotals gathered ↔ opened.filled gathered = opened.valid gathered) := by
  have hok : (invoke (.batchDeposit Sample.agent gathered)).Ok honest opened ()
      (opened.after (.call honest (.batchDeposit Sample.agent gathered))) :=
    ok_after (by decide +kernel)
  obtain ⟨hsummary, hregular⟩ := batch_summary_iff hok
  exact ⟨hsummary, hregular opened_opened.fresh.sound.regular⟩

/-- The summary tells of two deposits of ten USDC, where one of five was made. -/
theorem twice_misreported :
    (invoke (.batchDeposit Sample.agent twice)).Ok honest capped ()
        (capped.after (.call honest (.batchDeposit Sample.agent twice))) ∧
      ¬ Summarised capped (capped.after (.call honest (.batchDeposit Sample.agent twice))) twice := by
  refine ⟨ok_after (by decide +kernel), ?_⟩
  rintro ⟨figures, hfigures, hcount, -⟩
  have hsummaries : (capped.after (.call honest (.batchDeposit Sample.agent twice))).summaries =
      [⟨2, 10000000, 0⟩] := by decide +kernel
  rw [hsummaries, List.singleton_inj] at hfigures
  subst hfigures
  revert hcount
  decide +kernel

end Sample

end NeuroWealth.Vault
