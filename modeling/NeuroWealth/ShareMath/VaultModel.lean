import NeuroWealth.Foundation.MachineInt

/-!
# The verified share model

The arithmetic of the `share-math` crate and its two-user vault. `none` is a rejected operation.
-/

namespace NeuroWealth.ShareMath

open MachineInt

/-! ## Conversions -/

/-- `floor(assets * totalShares / totalAssets)`, one to one while either total is zero. -/
def sharesFloor (assets totalShares totalAssets : Int) : Option Int :=
  if assets = 0 then some 0
  else if totalShares = 0 ∨ totalAssets = 0 then some assets
  else do
    let product ← i128.checkedMul assets totalShares
    i128.checkedDiv product totalAssets

/-- `ceil(assets * totalShares / totalAssets)`, one to one while either total is zero. -/
def sharesCeil (assets totalShares totalAssets : Int) : Option Int :=
  if assets = 0 then some 0
  else if totalShares = 0 ∨ totalAssets = 0 then some assets
  else do
    let product ← i128.checkedMul assets totalShares
    let round ← i128.checkedSub totalAssets 1
    let numerator ← i128.checkedAdd product round
    i128.checkedDiv numerator totalAssets

/-- `floor(shares * totalAssets / totalShares)`, nothing while either total is zero. -/
def assetsFromShares (shares totalShares totalAssets : Int) : Option Int :=
  if shares = 0 then some 0
  else if totalShares = 0 ∨ totalAssets = 0 then some 0
  else do
    let product ← i128.checkedMul shares totalAssets
    i128.checkedDiv product totalShares

/-! ## The model -/

/-- A vault of two users. A `tvlCap` of zero is no cap. -/
structure VaultModel where
  totalShares : Int
  totalAssets : Int
  userShares : Fin 2 → Int
  totalDeposits : Int
  tvlCap : Int

namespace VaultModel

def withTvlCap (tvlCap : Int) : VaultModel := ⟨0, 0, fun _ => 0, 0, tvlCap⟩

def empty : VaultModel := withTvlCap 0

/-- The slot of a user index, for the two users there are. -/
def slot (user : Nat) : Option (Fin 2) := if h : user < 2 then some ⟨user, h⟩ else none

def accrueYield (m : VaultModel) (yieldAmount : Int) : Option VaultModel :=
  if yieldAmount < 0 then none
  else do
    let totalAssets ← i128.checkedAdd m.totalAssets yieldAmount
    some { m with totalAssets }

/-- The cap bounds the principal, not the assets. -/
def capAllows (m : VaultModel) (assets : Int) : Option Unit :=
  if 0 < m.tvlCap then do
    let newDeposits ← i128.checkedAdd m.totalDeposits assets
    guard (newDeposits ≤ m.tvlCap)
  else some ()

def setShares (m : VaultModel) (i : Fin 2) (x : Int) : Fin 2 → Int :=
  fun j => if j = i then x else m.userShares j

def deposit (m : VaultModel) (user : Nat) (assets : Int) : Option VaultModel := do
  let i ← slot user
  guard (0 < assets)
  m.capAllows assets
  let minted ← sharesFloor assets m.totalShares m.totalAssets
  guard (0 ≤ minted)
  let userShares ← i128.checkedAdd (m.userShares i) minted
  let totalShares ← i128.checkedAdd m.totalShares minted
  let totalAssets ← i128.checkedAdd m.totalAssets assets
  let totalDeposits ← i128.checkedAdd m.totalDeposits assets
  some ⟨totalShares, totalAssets, m.setShares i userShares, totalDeposits, m.tvlCap⟩

def withdraw (m : VaultModel) (user : Nat) (assets : Int) : Option VaultModel := do
  let i ← slot user
  guard (0 < assets)
  let burned ← sharesCeil assets m.totalShares m.totalAssets
  guard (0 ≤ burned ∧ burned ≤ m.userShares i)
  let returned ← assetsFromShares burned m.totalShares m.totalAssets
  let userShares ← i128.checkedSub (m.userShares i) burned
  let totalShares ← i128.checkedSub m.totalShares burned
  let totalAssets ← i128.checkedSub m.totalAssets returned
  some ⟨totalShares, totalAssets, m.setShares i userShares,
    i128.saturatingSub m.totalDeposits returned, m.tvlCap⟩

end VaultModel

/-! ## Runs -/

inductive Operation where
  | deposit (user : Nat) (assets : Int)
  | withdraw (user : Nat) (assets : Int)
  | accrueYield (yieldAmount : Int)
deriving DecidableEq, Repr

def Operation.run : Operation → VaultModel → Option VaultModel
  | .deposit user assets, m => m.deposit user assets
  | .withdraw user assets, m => m.withdraw user assets
  | .accrueYield yieldAmount, m => m.accrueYield yieldAmount

/-- The model after an operation; a rejected one changes nothing. -/
def VaultModel.after (m : VaultModel) (op : Operation) : VaultModel := (op.run m).getD m

/-- The model after a sequence of operations. -/
def VaultModel.replay (m : VaultModel) (ops : List Operation) : VaultModel :=
  ops.foldl VaultModel.after m

end NeuroWealth.ShareMath
