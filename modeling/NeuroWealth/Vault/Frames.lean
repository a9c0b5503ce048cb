import NeuroWealth.Foundation.SharePool
import NeuroWealth.Vault.Machine

/-!
# Views and frames

What the properties look at (the share pool behind the book, the vault's funds, the token
movements of a call) and the two frames most code stays within.
-/

namespace NeuroWealth.Vault

open Transaction MachineInt SharePool

/-! ## Views -/

/-- The book as a share pool. -/
def Book.pool (b : Book) : Pool Address := ⟨b.shares, b.totalShares, b.assets⟩

/-- A user's claim: `floor(Shares(u) * TotalAssets / TotalShares)`. -/
def World.claim (w : World) (user : Address) : Int := w.book.pool.claim user

/-- The vault's own USDC. -/
def World.idle (w : World) : Int :=
  match w.usdcToken with
  | some token => w.chain.balances token w.self
  | none => 0

/-- The vault's position in a venue's configured pool. -/
def World.position (w : World) (venue : Venue) : Int :=
  match w.deployment.pool venue with
  | some pool => w.chain.positions venue pool w.self
  | none => 0

/-- All USDC of the vault. -/
def World.backing (w : World) : Int := w.idle + w.position .blend + w.position .dex

/-- A token movement between two holders. -/
structure Transfer where
  token : Address
  sender : Address
  recipient : Address
  amount : Int

def Event.toTransfer : Event → Option Transfer
  | .transfer token sender recipient amount => some ⟨token, sender, recipient, amount⟩
  | _ => none

/-- The transfers of the last successful call, oldest first. -/
def World.transfers (w : World) : List Transfer := w.events.filterMap Event.toTransfer

/-- The USDC that transfers moved from one holder to another, or to anyone. -/
def World.moved (w : World) (sender : Address) (recipient : Option Address) : Int :=
  ((w.transfers.filter fun t =>
    some t.token = w.usdcToken ∧ t.sender = sender ∧ ∀ r ∈ recipient, t.recipient = r).map
    Transfer.amount).sum

/-- The USDC the vault transferred out during the last call. -/
def World.paidOut (w : World) : Int := w.moved w.self none

/-- The USDC a user transferred to the vault during the last call. -/
def World.paidIn (w : World) (user : Address) : Int := w.moved user (some w.self)

/-! ## Effects on the book -/

/-- The book after `amount` was deposited for `minted` shares. While `totalAssets` was never
    stored its reader sees the new principal already. -/
def Book.credited (b : Book) (user : Address) (amount minted : Int) : Book where
  shares := fun u => if u = user then b.shares u + minted else b.shares u
  totalShares := b.totalShares + minted
  totalAssets := some (b.totalAssets.getD (b.totalDeposits + amount) + amount)
  totalDeposits := b.totalDeposits + amount

/-- The book after `burned` shares were redeemed for `amount`, with the principal that leaves. -/
def Book.debited (b : Book) (user : Address) (amount burned deposits : Int) : Book where
  shares := fun u => if u = user then b.shares u - burned else b.shares u
  totalShares := b.totalShares - burned
  totalAssets := some (b.assets - amount)
  totalDeposits := deposits

/-! ## Frames -/

/-- Nothing but configuration, roles, allowances of use and the event log may change. -/
structure Quiet (w w' : World) : Prop where
  self : w'.self = w.self
  chain : w'.chain = w.chain
  usdcToken : w'.usdcToken = w.usdcToken
  book : w'.book = w.book
  assets : w'.assets = w.assets
  locks : w'.locks = w.locks
  holding : w'.holding = w.holding
  deployment : w'.deployment = w.deployment
  transfers : w'.transfers = w.transfers
  initialized : w.Initialized → w'.Initialized
  legs : w'.legs = w.legs

def quiet : Footprint Env World where
  rel _ w w' := Quiet w w'
  refl _ _ := ⟨rfl, rfl, rfl, rfl, rfl, rfl, rfl, rfl, rfl, id, rfl⟩
  trans h1 h2 :=
    ⟨h2.self.trans h1.self, h2.chain.trans h1.chain, h2.usdcToken.trans h1.usdcToken,
      h2.book.trans h1.book, h2.assets.trans h1.assets, h2.locks.trans h1.locks,
      h2.holding.trans h1.holding, h2.deployment.trans h1.deployment,
      h2.transfers.trans h1.transfers, h2.initialized ∘ h1.initialized, h2.legs.trans h1.legs⟩

/-- Calls that only set limits, roles, flags or reports, or only read. -/
def Call.isConfiguration : Call → Bool
  | .initializeVault .. => false
  | .deposit .. => false
  | .batchDeposit .. => false
  | .withdraw .. => false
  | .withdrawAll .. => false
  | .depositAsset .. => false
  | .withdrawAsset .. => false
  | .migrateShares .. => false
  | .lockShares .. => false
  | .unlockShares .. => false
  | .emergencyWithdraw .. => false
  | .rebalance .. => false
  | .enableMultiProtocol .. => false
  | .rebalanceMulti .. => false
  | .harvest .. => false
  | .emergencyHarvest .. => false
  | .updateTotalAssets .. => false
  | .setVenuePool .. => false
  | .setMinHoldingPeriod .. => false
  | .addSupportedAsset .. => false
  | .updateAssetLimits .. => false
  | .removeSupportedAsset .. => false
  | _ => true

/-- Only funds may move through the pools: the accounts of the holders and the configured pools
    stay as they are. -/
structure PoolStep (w w' : World) : Prop where
  self : w'.self = w.self
  sequence : w'.chain.sequence = w.chain.sequence
  usdcToken : w'.usdcToken = w.usdcToken
  book : w'.book = w.book
  assets : w'.assets = w.assets
  locks : w'.locks = w.locks
  holding : w'.holding = w.holding
  pool : w'.deployment.pool = w.deployment.pool
  transfers : w'.transfers = w.transfers
  initialized : w.Initialized → w'.Initialized

def poolStep : Footprint Env World where
  rel _ w w' := PoolStep w w'
  refl _ _ := ⟨rfl, rfl, rfl, rfl, rfl, rfl, rfl, rfl, rfl, id⟩
  trans h1 h2 :=
    ⟨h2.self.trans h1.self, h2.sequence.trans h1.sequence, h2.usdcToken.trans h1.usdcToken,
      h2.book.trans h1.book, h2.assets.trans h1.assets, h2.locks.trans h1.locks,
      h2.holding.trans h1.holding, h2.pool.trans h1.pool,
      h2.transfers.trans h1.transfers, h2.initialized ∘ h1.initialized⟩

/-- Only the book and the holding records may change, besides what quiet code changes. -/
structure Accounting (w w' : World) : Prop where
  self : w'.self = w.self
  chain : w'.chain = w.chain
  usdcToken : w'.usdcToken = w.usdcToken
  assets : w'.assets = w.assets
  locks : w'.locks = w.locks
  deployment : w'.deployment = w.deployment
  transfers : w'.transfers = w.transfers
  initialized : w.Initialized → w'.Initialized
  legs : w'.legs = w.legs

def accounting : Footprint Env World where
  rel _ w w' := Accounting w w'
  refl _ _ := ⟨rfl, rfl, rfl, rfl, rfl, rfl, rfl, id, rfl⟩
  trans h1 h2 :=
    ⟨h2.self.trans h1.self, h2.chain.trans h1.chain, h2.usdcToken.trans h1.usdcToken,
      h2.assets.trans h1.assets, h2.locks.trans h1.locks, h2.deployment.trans h1.deployment,
      h2.transfers.trans h1.transfers, h2.initialized ∘ h1.initialized, h2.legs.trans h1.legs⟩

theorem Quiet.accounting {w w' : World} (h : Quiet w w') : Accounting w w' :=
  ⟨h.self, h.chain, h.usdcToken, h.assets, h.locks, h.deployment, h.transfers, h.initialized,
    h.legs⟩

/-- Funds stay where they are; the marker, the trackers and allowances may change. -/
structure Unmoved (w w' : World) : Prop extends PoolStep w w' where
  balances : w'.chain.balances = w.chain.balances
  positions : w'.chain.positions = w.chain.positions
  legs : w'.legs = w.legs

/-- Funds and allowances stay as they are; the marker and the trackers may change. -/
structure Settled (w w' : World) : Prop extends Unmoved w w' where
  allowances : w'.chain.allowances = w.chain.allowances

def settled : Footprint Env World where
  rel _ w w' := Settled w w'
  refl env w := ⟨⟨poolStep.refl env w, rfl, rfl, rfl⟩, rfl⟩
  trans {env _ _ _} h1 h2 :=
    ⟨⟨poolStep.trans (r := env) h1.toPoolStep h2.toPoolStep, h2.balances.trans h1.balances,
      h2.positions.trans h1.positions, h2.legs.trans h1.legs⟩, h2.allowances.trans h1.allowances⟩

/-- A transfer of `amount` of a token and nothing else. -/
structure Paid (token : Address) (w w' : World) (sender recipient : Address) (amount : Int) :
    Prop where
  self : w'.self = w.self
  chain : w'.chain = w.chain.move token sender recipient amount
  usdcToken : w'.usdcToken = w.usdcToken
  book : w'.book = w.book
  assets : w'.assets = w.assets
  locks : w'.locks = w.locks
  holding : w'.holding = w.holding
  deployment : w'.deployment = w.deployment
  transfers : w'.transfers = w.transfers ++ [⟨token, sender, recipient, amount⟩]
  initialized : w.Initialized → w'.Initialized
  nonneg : 0 ≤ amount
  funded : amount ≤ w.chain.balances token sender
  legs : w'.legs = w.legs

theorem Quiet.settled {w w' : World} (h : Quiet w w') : Settled w w' where
  self := h.self
  sequence := by rw [h.chain]
  usdcToken := h.usdcToken
  book := h.book
  assets := h.assets
  locks := h.locks
  holding := h.holding
  pool := by rw [h.deployment]
  transfers := h.transfers
  initialized := h.initialized
  balances := by rw [h.chain]
  positions := by rw [h.chain]
  legs := h.legs
  allowances := by rw [h.chain]

end NeuroWealth.Vault
