import NeuroWealth.Vault.Frames

/-!
# Assumptions on the pools

How pools may answer the vault, and how what they report may change between its calls.
-/

namespace NeuroWealth.Vault

open Transaction

/-- The position a call leaves before any growth. -/
def PoolCall.settled (c : PoolCall) (r : PoolReply) : Int := c.position + c.kind.taken r.moved

/-- The reported position changes by exactly the USDC moved, or grows beyond that. -/
structure PoolCall.Exact (c : PoolCall) (r : PoolReply) : Prop where
  nonneg : 0 ≤ r.position
  settled_le : c.settled r ≤ r.position

/-- The pool also moves no more than it was asked to and has, and only what is left grows. -/
structure PoolCall.Tame (c : PoolCall) (r : PoolReply) : Prop where
  moved_nonneg : 0 ≤ r.moved
  moved_le : r.moved ≤ c.amount
  settled_nonneg : 0 ≤ c.settled r
  settled_le : c.settled r ≤ r.position
  grounded : c.settled r = 0 → r.position = 0

/-- The pool moves no more than it was asked to, and the position changes by what it moved. -/
structure PoolCall.Metered (c : PoolCall) (r : PoolReply) : Prop where
  moved_nonneg : 0 ≤ r.moved
  moved_le : r.moved ≤ c.amount
  position : r.position = c.settled r

/-- The pool moves exactly what it was asked to. -/
structure PoolCall.Honest (c : PoolCall) (r : PoolReply) : Prop where
  moved : r.moved = c.amount
  position : r.position = c.settled r

/-- A withdrawal of no more than the position is paid in full. -/
def PoolCall.PaidInFull (c : PoolCall) (answer : Option PoolReply) : Prop :=
  c.kind = .withdraw → c.amount ≤ c.position → ∃ r, answer = some r ∧ r.moved = c.amount

/-- Calls the vault can make: of a positive amount, on a position that is not negative. -/
structure PoolCall.Proper (c : PoolCall) : Prop where
  amount : 0 < c.amount
  position : 0 ≤ c.position

def Env.ExactPools (env : Env) : Prop :=
  ∀ (c : PoolCall) r, c.Proper → env.pool c = some r → c.Exact r

def Env.TamePools (env : Env) : Prop :=
  ∀ (c : PoolCall) r, c.Proper → env.pool c = some r → c.Tame r

def Env.PayingPools (env : Env) : Prop :=
  ∀ c : PoolCall, c.Proper → c.PaidInFull (env.pool c)

/-- Calls a pool can answer to the letter: it is asked for no more than the position. -/
def PoolCall.Covered (c : PoolCall) : Prop := c.kind = .withdraw → c.amount ≤ c.position

def Env.HonestPools (env : Env) : Prop :=
  ∀ (c : PoolCall) r, c.Proper → c.Covered → env.pool c = some r → c.Honest r

theorem PoolCall.Tame.exact {c : PoolCall} {r : PoolReply} (h : c.Tame r) : c.Exact r :=
  ⟨h.settled_nonneg.trans h.settled_le, h.settled_le⟩

theorem PoolCall.Honest.metered {c : PoolCall} {r : PoolReply} (h : c.Honest r)
    (hpos : 0 < c.amount) : c.Metered r :=
  ⟨h.moved ▸ hpos.le, h.moved.le, h.position⟩

/-- The pools move anything between nothing and what they are asked for. -/
def Env.MeteredPools (env : Env) : Prop :=
  ∀ (c : PoolCall) r, 0 < c.amount → c.Covered → env.pool c = some r → c.Metered r

theorem Env.TamePools.exact {env : Env} (h : env.TamePools) : env.ExactPools :=
  fun c r hc hr => (h c r hc hr).exact

/-- The positions of the vault stay as they are, or grow where they are positive. -/
def Chain.Drifts (vault : Address) (c c' : Chain) : Prop :=
  ∀ v p, c'.positions v p vault = c.positions v p vault ∨
    0 < c.positions v p vault ∧ c.positions v p vault ≤ c'.positions v p vault

/-- The migration target's `deposit` lets the positions drift at most. -/
def Env.TargetDrifts (env : Env) (vault : Address) : Prop :=
  ∀ chain target user amount chain', env.targetDeposit chain target user amount = some chain' →
    chain.Drifts vault chain'

/-- A configured pool is not replaced. -/
def Step.KeepsPools (w : World) : Step → Prop
  | .call _ (.setVenuePool venue _ pool) => ∀ p, w.deployment.pool venue = some p → p = pool
  | _ => True

namespace Sample

def dexPool : Address := ⟨8⟩

/-- Pools that take what they are offered and pay what they are asked for, if they have it. -/
def tamePool (c : PoolCall) : Option PoolReply :=
  match c.kind with
  | .supply => some ⟨c.amount, c.position + c.amount⟩
  | .withdraw => some ⟨min c.amount c.position, c.position - min c.amount c.position⟩

def tame : Env := { honest with pool := tamePool }

/-- Pools without liquidity pay nothing. -/
def drainedPool (c : PoolCall) : Option PoolReply :=
  match c.kind with
  | .supply => some ⟨c.amount, c.position + c.amount⟩
  | .withdraw => some ⟨0, c.position⟩

def drained : Env := { honest with pool := drainedPool }

theorem tame_tamePools : tame.TamePools := by
  rintro c r ⟨hamount, hposition⟩ hreply
  have hr : tamePool c = some r := hreply
  unfold tamePool at hr
  cases hkind : c.kind with
  | supply =>
    simp only [hkind, Option.some.injEq] at hr
    subst hr
    constructor <;> simp only [PoolCall.settled, LegKind.taken, hkind] <;> omega
  | withdraw =>
    simp only [hkind, Option.some.injEq] at hr
    subst hr
    constructor <;> simp only [PoolCall.settled, LegKind.taken, hkind] <;> omega

theorem drained_tamePools : drained.TamePools := by
  rintro c r ⟨hamount, hposition⟩ hreply
  have hr : drainedPool c = some r := hreply
  unfold drainedPool at hr
  cases hkind : c.kind with
  | supply =>
    simp only [hkind, Option.some.injEq] at hr
    subst hr
    constructor <;> simp only [PoolCall.settled, LegKind.taken, hkind] <;> omega
  | withdraw =>
    simp only [hkind, Option.some.injEq] at hr
    subst hr
    constructor <;> simp only [PoolCall.settled, LegKind.taken, hkind] <;> omega

theorem tame_honest {c : PoolCall} {r : PoolReply} (hcovered : c.Covered)
    (hanswer : tame.pool c = some r) : c.Honest r := by
  have hr : tamePool c = some r := hanswer
  unfold tamePool at hr
  cases hkind : c.kind with
  | supply =>
    simp only [hkind, Option.some.injEq] at hr
    subst hr
    constructor <;> simp only [PoolCall.settled, LegKind.taken, hkind]
  | withdraw =>
    have hle := hcovered hkind
    simp only [hkind, Option.some.injEq] at hr
    subst hr
    constructor <;> simp only [PoolCall.settled, LegKind.taken, hkind] <;> omega

theorem tame_honestPools : tame.HonestPools := fun _ _ _ hcovered hanswer =>
  tame_honest hcovered hanswer

theorem tame_meteredPools : tame.MeteredPools := fun _ _ hpos hcovered hanswer =>
  (tame_honest hcovered hanswer).metered hpos

theorem tame_targetDrifts {v : Address} : tame.TargetDrifts v := by
  intro chain target user amount chain' h
  cases h

end Sample

end NeuroWealth.Vault
