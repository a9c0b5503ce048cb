import NeuroWealth.Vault.Proofs.HoldersProofs
import NeuroWealth.Vault.Proofs.BookProofs

/-!
# Walking the holder index

A client that asks for one page after the other, of any size, is given every holder once, with
the current balance and in the order of the index.
-/

namespace NeuroWealth.Vault

open Transaction MachineInt SharePool

variable {env : Env} {w w0 : World} {b : Book} {limit start : Nat}
  {index : List Address} {listing : List (Address × Int)}

/-- What a client is given that asks for pages of `limit` slots from `start` on, until `start` is
    past the index. -/
inductive PageWalk (env : Env) (w : World) (limit : Nat) : Nat → List (Address × Int) → Prop
  | done {start : Nat} (hend : w.holders.length ≤ start) : PageWalk env w limit start []
  | page {start : Nat} {page rest : List (Address × Int)} (hmore : start < w.holders.length)
    (hpage : (getUsersWithShares start limit).Ok env w page w)
    (hrest : PageWalk env w limit (start + limit) rest) : PageWalk env w limit start (page ++ rest)

/-- A complete list of holders and balances. -/
structure World.Lists (w : World) (listing : List (Address × Int)) : Prop where
  holders : ∀ u s, (u, s) ∈ listing ↔ 0 < w.book.shares u ∧ s = w.book.shares u
  once : (listing.map Prod.fst).Nodup
  ordered : (listing.map Prod.fst).Sublist w.holders
  total : (listing.map Prod.snd).sum = w.book.totalShares

/-! ## The walk -/

/-- A walk lists the holders among the remaining slots. -/
theorem PageWalk.eq_holdersIn (h : PageWalk env w limit start listing) (hlimit : 1 ≤ limit)
    (hlen : u32.Fits (w.holders.length : Int)) :
    listing = w.book.holdersIn (w.holders.drop start) := by
  induction h with
  | done hend =>
    rw [List.drop_eq_nil_of_le hend]
    rfl
  | page hmore hpage _ ih =>
    obtain ⟨-, -, rfl⟩ := (ok_getUsersWithShares hlimit hmore).mp hpage
    rw [ih, ← holdersIn_append, window_append w.holders hlen]

/-- There is a walk from every slot. -/
theorem exists_pageWalk (hi : w.Initialized) (hlimit : 1 ≤ limit) (start : Nat) :
    ∃ listing, PageWalk env w limit start listing := by
  induction hleft : w.holders.length - start using Nat.strong_induction_on generalizing start with
  | _ left ih =>
    by_cases hend : w.holders.length ≤ start
    · exact ⟨[], .done hend⟩
    · have hmore : start < w.holders.length := Nat.not_le.mp hend
      have hless : w.holders.length - (start + limit) < left := by omega
      obtain ⟨rest, hrest⟩ := ih _ hless (start + limit) rfl
      exact ⟨_, .page hmore ((ok_getUsersWithShares hlimit hmore).mpr ⟨hi, rfl, rfl⟩) hrest⟩

theorem pageWalk_iff (hi : w.Initialized) (hlimit : 1 ≤ limit)
    (hlen : u32.Fits (w.holders.length : Int)) :
    PageWalk env w limit 0 listing ↔ listing = w.book.holdersIn w.holders := by
  constructor
  · intro h
    exact h.eq_holdersIn hlimit hlen
  · rintro rfl
    obtain ⟨other, hother⟩ : ∃ other, PageWalk env w limit 0 other := exists_pageWalk hi hlimit 0
    have hsame := hother.eq_holdersIn hlimit hlen
    rwa [hsame] at hother

/-! ## The listing -/

theorem mem_holdersIn {u : Address} {s : Int} :
    (u, s) ∈ b.holdersIn index ↔ u ∈ index ∧ 0 < b.shares u ∧ s = b.shares u := by
  unfold Book.holdersIn
  rw [List.mem_filterMap]
  constructor
  · rintro ⟨v, hv, hpair⟩
    by_cases hpos : 0 < b.shares v
    · rw [if_pos hpos] at hpair
      cases hpair
      exact ⟨hv, hpos, rfl⟩
    · rw [if_neg hpos] at hpair
      cases hpair
  · rintro ⟨hu, hpos, rfl⟩
    exact ⟨u, hu, if_pos hpos⟩

/-- The users listed are the index without those who left. -/
theorem holdersIn_users : (b.holdersIn index).map Prod.fst =
    index.filter fun u => decide (0 < b.shares u) := by
  induction index with
  | nil => rfl
  | cons u index ih =>
    unfold Book.holdersIn at ih ⊢
    by_cases hpos : 0 < b.shares u
    · simp [hpos, ih]
    · simp [hpos, ih]

/-- Who left has no balance to miss. -/
theorem holdersIn_sum (hnonneg : ∀ u, 0 ≤ b.shares u) :
    ((b.holdersIn index).map Prod.snd).sum = (index.map b.shares).sum := by
  induction index with
  | nil => rfl
  | cons u index ih =>
    unfold Book.holdersIn at ih ⊢
    by_cases hpos : 0 < b.shares u
    · simp [hpos, ih]
    · have hzero : b.shares u = 0 := by
        have hu := hnonneg u
        omega
      simp [hzero, ih]

theorem World.Indexed.lists (h : w.Indexed) (hb : w.book.Sound) :
    w.Lists (w.book.holdersIn w.holders) := by
  have hsub : (w.book.holdersIn w.holders).map Prod.fst |>.Sublist w.holders := by
    rw [holdersIn_users]
    exact List.filter_sublist
  refine ⟨fun u s => ?_, hsub.nodup h.nodup, hsub, ?_⟩
  · rw [mem_holdersIn]
    constructor
    · rintro ⟨-, hpos, hs⟩
      exact ⟨hpos, hs⟩
    · rintro ⟨hpos, hs⟩
      exact ⟨h.listed u hpos.ne', hpos, hs⟩
  · have hsupport : Function.support w.book.shares ⊆ ↑w.holders.toFinset := by
      intro u hu
      have hlisted := h.listed u hu
      simpa using hlisted
    have hsupply : ∑ᶠ u, w.book.shares u = w.book.totalShares := hb.conserved.sum
    rw [holdersIn_sum hb.conserved.nonneg, ← hsupply,
      finsum_eq_sum_of_support_subset _ hsupport, List.sum_toFinset _ h.nodup]

/-- In every run without negative reports, the index lists each user with shares once, and a walk
    of any page size lists every holder once, with its balance and in index order. The length of a
    host vector is a 32-bit number. -/
theorem holder_walk_complete (h0 : w0.Opened)
    (h : Reaches (fun _ step => step.ReportsNonNegative) w0 w)
    (hlen : u32.Fits (w.holders.length : Int)) :
    w.holders.Nodup ∧ (∀ u, 0 < w.book.shares u → u ∈ w.holders) ∧
      ∀ env limit, 1 ≤ limit → ∃ listing,
        (∀ other, PageWalk env w limit 0 other ↔ other = listing) ∧ w.Lists listing := by
  have hindexed := indexed_of_reaches h0 h
  obtain ⟨hsound, hi⟩ := sound_of_reaches h0 h fun _ _ hadm => hadm
  refine ⟨hindexed.nodup, fun u hpos => hindexed.listed u hpos.ne', fun env limit hlimit => ?_⟩
  refine ⟨w.book.holdersIn w.holders, fun other => ?_, hindexed.lists hsound⟩
  exact pageWalk_iff hi hlimit hlen

namespace Sample

/-- Alice leaves, bob stays, and alice comes back. -/
def returning : List Step :=
  [.call honest (.deposit alice 5000000), .call honest (.deposit bob 7000000),
    .call honest (.withdrawAll alice), .call honest (.deposit alice 2000000)]

theorem returning_walk_complete :
    (opened.replay returning).holders = [alice, bob] ∧
      ((opened.replay returning).holders.Nodup ∧
        (∀ u, 0 < (opened.replay returning).book.shares u →
          u ∈ (opened.replay returning).holders) ∧
        ∀ env limit, 1 ≤ limit → ∃ listing,
          (∀ other, PageWalk env (opened.replay returning) limit 0 other ↔ other = listing) ∧
            (opened.replay returning).Lists listing) := by
  have hholders : (opened.replay returning).holders = [alice, bob] := by decide +kernel
  have hreach : Reaches (fun _ step => step.ReportsNonNegative) opened (opened.replay returning) :=
    .of_admits ⟨trivial, trivial, trivial, trivial, trivial⟩
  refine ⟨hholders, holder_walk_complete opened_opened hreach ?_⟩
  rw [hholders]
  decide

end Sample

end NeuroWealth.Vault
