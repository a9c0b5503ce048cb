import Mathlib

/-!
# Share pools

A pool of assets owned in shares by holders of any kind. Shares are minted against assets paid in,
burned against assets paid out, and repriced by a new valuation of the assets. The claim of a
holder is the value of its shares, rounded down.
-/

namespace SharePool

/-- A ledger of shares with the totals it is priced by. -/
@[ext]
structure Pool (ι : Type*) where
  shares : ι → ℤ
  supply : ℤ
  assets : ℤ

namespace Pool

variable {ι : Type*} [DecidableEq ι] (p : Pool ι)

/-- What a holder's shares are worth, rounded down. -/
def claim (i : ι) : ℤ := p.shares i * p.assets / p.supply

def addShares (i : ι) (x : ℤ) : ι → ℤ := fun j => if j = i then p.shares j + x else p.shares j

/-- `amount` is paid in and `minted` shares are created for it. -/
def mint (i : ι) (amount minted : ℤ) : Pool ι :=
  ⟨p.addShares i minted, p.supply + minted, p.assets + amount⟩

/-- `burned` shares are destroyed and `amount` is paid out. -/
def burn (i : ι) (amount burned : ℤ) : Pool ι :=
  ⟨p.addShares i (-burned), p.supply - burned, p.assets - amount⟩

/-- The assets are valued anew. -/
def revalue (assets : ℤ) : Pool ι := { p with assets }

/-- The supply is the sum of non-negative holdings, finitely many of them positive. -/
structure Conserved : Prop where
  finite : (Function.support p.shares).Finite
  sum : ∑ᶠ i, p.shares i = p.supply
  nonneg : ∀ i, 0 ≤ p.shares i

/-- A conserved ledger whose assets are not negative and, without shares, absent. -/
structure WellFormed : Prop extends p.Conserved where
  assets_nonneg : 0 ≤ p.assets
  no_orphans : p.supply = 0 → p.assets = 0

/-- A conserved ledger in which every share is worth one. -/
structure AtPar : Prop extends p.Conserved where
  par : p.assets = p.supply

/-- Everyone's rounding absorbs a change of the assets: the part of a claim that was rounded off
    has room for the holder's part of the change. -/
def Absorbs (change : ℤ) : Prop :=
  p.supply ≠ 0 → ∀ i, 0 ≤ p.shares i * p.assets % p.supply + p.shares i * change ∧
    p.shares i * p.assets % p.supply + p.shares i * change < |p.supply|

/-- Shares minted for an amount: its value in shares, rounded down, or one each at the start. -/
def sharesFor (supply assets amount : ℤ) : ℤ :=
  if amount = 0 then 0
  else if supply = 0 ∨ assets = 0 then amount
  else (amount * supply).tdiv assets

/-- Shares burned for an amount: its value in shares, rounded up. -/
def sharesForUp (supply assets amount : ℤ) : ℤ :=
  if amount = 0 then 0
  else if supply = 0 ∨ assets = 0 then amount
  else (amount * supply + (assets - 1)).tdiv assets

/-- The value of shares, rounded down. -/
def assetsFor (supply assets shares : ℤ) : ℤ :=
  if shares = 0 then 0
  else if supply = 0 ∨ assets = 0 then 0
  else (shares * assets).tdiv supply

/-- Some number of shares is worth exactly `amount`, rounded down. -/
def WholeValue (supply assets amount : ℤ) : Prop :=
  ∃ shares, amount * supply ≤ shares * assets ∧ shares * assets < (amount + 1) * supply

end Pool

end SharePool
