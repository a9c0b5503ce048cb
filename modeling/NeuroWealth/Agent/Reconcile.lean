import NeuroWealth.Foundation.Decimal
import NeuroWealth.Foundation.Tables

/-!
# The reconciliation job

The share balances of the database are compared with `get_shares` of the vault, page after page.
Addresses are ordered by the database's collation, in which the empty text comes first. Shares are
units of the seventh decimal.
-/

namespace NeuroWealth.Reconcile

open Decimal Tables

variable {ι κ : Type} [DecidableEq ι] [LinearOrder κ] [OrderBot κ]

structure User (ι κ : Type) where
  id : ι
  stellarAddress : κ

/-- A row of `deposits` or `withdrawals`. -/
structure Entry (ι : Type) where
  userId : ι
  shares : ℤ

/-- The tables the job reads. Addresses are unique. -/
structure Database (ι κ : Type) where
  users : List (User ι κ)
  deposits : List (Entry ι)
  withdrawals : List (Entry ι)
  unique : (users.map User.stellarAddress).Nodup

/-! ## Positions of the database -/

def User.rows (u : User ι κ) (entries : List (Entry ι)) : List (Entry ι) :=
  entries.filter fun e => e.userId = u.id

/-- A NUMERIC with seven decimals as text. -/
def numeric (x : ℤ) : List Char :=
  (if x < 0 then ['-'] else []) ++ pointed 7 x.natAbs

/-- `COALESCE(SUM(d.shares), 0) - COALESCE(SUM(w.shares), 0)` over the rows of the two left joins;
    the integer zero where both sums are null. -/
def Database.netShares (db : Database ι κ) (u : User ι κ) : List Char :=
  let rows := joined (u.rows db.deposits) (u.rows db.withdrawals)
  match sumOf Entry.shares (rows.map Prod.fst), sumOf Entry.shares (rows.map Prod.snd) with
  | none, none => ['0']
  | d, w => numeric (d.getD 0 - w.getD 0)

/-- `replace(/^-?0+/, '')`. -/
def stripLeadingZeros : List Char → List Char
  | '-' :: '0' :: l => l.dropWhile (· = '0')
  | l => l.dropWhile (· = '0')

/-- `BigInt` of a run of digits. Any other text counts as one it throws on. -/
def bigInt (l : List Char) : Option ℕ := if Digits l then some (value l) else none

def parseShares (text : List Char) : Option ℤ :=
  let stripped := stripLeadingZeros (text.erase '.')
  let raw := if stripped = [] then ['0'] else stripped
  let sign : ℤ := if text.head? = some '-' then -1 else 1
  (bigInt (raw.erase '-')).map fun n : ℕ => sign * n

/-- `ORDER BY u.stellar_address`. -/
def Database.ordered (db : Database ι κ) : List (User ι κ) :=
  db.users.insertionSort fun a b => a.stellarAddress ≤ b.stellarAddress

/-- The addresses after `startAfter` with their shares; an empty `startAfter` is none. -/
def Database.loadDbPositions (db : Database ι κ) (startAfter : Option κ) (limit : ℕ) :
    Option (List (κ × ℤ)) :=
  ((after User.stellarAddress startAfter db.ordered).take limit).mapM fun u =>
    (parseShares (db.netShares u)).map fun dbShares => (u.stellarAddress, dbShares)

/-! ## Positions on chain -/

/-- How the query of `get_shares` for an address goes. -/
inductive Query where
  | throws
  | simulationError
  | noReturnValue
  | bigint (native : ℤ)
  | number (native : ℚ)
  | other
deriving DecidableEq

/-- What was read, unless the query failed. -/
def Query.read : Query → Option ℤ
  | .bigint native => some native
  | .number native => some (if native < 0 then ⌈native⌉ else ⌊native⌋)
  | _ => none

/-- A query that failed counts as zero shares. -/
def Query.getOnchainShares (q : Query) : ℤ := q.read.getD 0

/-! ## Comparing -/

structure ReconciliationMismatch (κ : Type) where
  address : κ
  asset : String
  ledger : ℕ
  dbShares : ℤ
  onchainShares : ℤ
  delta : ℤ

/-- The mismatches of a run, with the addresses it checked. -/
structure ReconciliationResult (κ : Type) where
  ledger : ℕ
  checked : List κ
  mismatches : List (ReconciliationMismatch κ)

def compare (query : κ → Query) (ledger : ℕ) (position : κ × ℤ) :
    Option (ReconciliationMismatch κ) :=
  let onchainShares := (query position.1).getOnchainShares
  if position.2 ≠ onchainShares then
    some
      { address := position.1
        asset := "USDC"
        ledger := ledger
        dbShares := position.2
        onchainShares := onchainShares
        delta := position.2 - onchainShares }
  else none

/-- A run whose ledger lookup succeeded. -/
def Database.reconcilePositions (db : Database ι κ) (query : κ → Query) (ledger : ℕ)
    (startAfter : Option κ) (limit : ℕ) : Option (ReconciliationResult κ) :=
  (db.loadDbPositions startAfter limit).map fun positions =>
    { ledger := ledger
      checked := positions.map Prod.fst
      mismatches := positions.filterMap (compare query ledger) }

/-- Run after run, each from the last address the one before checked, until one checks none. -/
def Database.sweep (db : Database ι κ) (query : κ → Query) (ledger limit : ℕ) :
    ℕ → Option κ → Option (List (ReconciliationResult κ))
  | 0, _ => some []
  | fuel + 1, startAfter => do
    let result ← db.reconcilePositions query ledger startAfter limit
    match result.checked.getLast? with
    | none => pure []
    | some last => do
      let rest ← db.sweep query ledger limit fuel (some last)
      pure (result :: rest)

end NeuroWealth.Reconcile
