import Mathlib

/-!
# Custodial keypairs

Generation, decryption and rotation of the keypairs of users without a wallet of their own, over the
`users` table and the audit log. Calls follow each other; any step of one may fail.

Encryption is ideal: an encrypted secret is what it decrypts to.
-/

namespace NeuroWealth.CustodialKeypair

/-- A public key; the n-th keypair drawn has the public key n and the secret n. -/
abbrev PublicKey := ℕ

abbrev Secret := ℕ

structure EncryptedKeypairSecret where
  secret : Secret
  kmsKeyId : String
  version : ℕ
deriving DecidableEq

structure GeneratedKeypair where
  publicKey : PublicKey
  encryptedSecret : EncryptedKeypairSecret
deriving DecidableEq

/-- A row of `users`. -/
structure Row where
  stellar_address : PublicKey
  encrypted_secret : Option EncryptedKeypairSecret
deriving DecidableEq

/-- A field of the details of an audit entry. -/
inductive Detail where
  | text (value : String)
  | key (value : Option PublicKey)
  | number (value : ℕ)
  | blob (value : EncryptedKeypairSecret)

structure AuditEntry where
  action : String
  user_id : String
  details : List (String × Detail)

/-- The tables, the number of keypairs drawn, and the public keys that a call has stored, each with
    its user, newest first. -/
structure Store where
  users : String → Option Row
  auditLog : List AuditEntry
  generated : ℕ
  stored : List (String × PublicKey)

/-- A statement returns, or fails with or without effect. -/
inductive QueryOutcome where
  | ok
  | fails (effect : Bool)
deriving DecidableEq

def QueryOutcome.effective : QueryOutcome → Bool
  | ok => true
  | fails effect => effect

inductive Exception where
  | kms
  | database
  | typeError
deriving DecidableEq

/-- What becomes of the steps of a generation; `audit` says whether the audit entry is written. -/
structure GenerateOutcome where
  kms : Bool
  update : QueryOutcome
  audit : Bool

namespace Store

variable (x : Store)

/-- `Keypair.random()`. -/
def draw : Store := { x with generated := x.generated + 1 }

/-- The update of the user's row, if there is one. -/
def persist (userId : String) (publicKey : PublicKey) (blob : EncryptedKeypairSecret) : Store :=
  if (x.users userId).isSome then
    { x with
      users := Function.update x.users userId (some ⟨publicKey, some blob⟩)
      stored := (userId, publicKey) :: x.stored }
  else x

/-- A failed insert is caught. -/
def writeAuditLog (written : Bool) (action userId : String) (details : List (String × Detail)) :
    Store :=
  if written then { x with auditLog := x.auditLog ++ [⟨action, userId, details⟩] } else x

/-- A blob kept in the `users` table or in the audit log. -/
def Keeps (blob : EncryptedKeypairSecret) : Prop :=
  (∃ userId row, x.users userId = some row ∧ row.encrypted_secret = some blob) ∨
    ∃ entry ∈ x.auditLog, ∃ detail ∈ entry.details, detail.2 = .blob blob

end Store

/-- `KMS_KEY_ID`, when it is set to something. -/
abbrev Config := Option String

def kmsKeyId (config : Config) : Option String := config.filter (· ≠ "")

/-- The envelope encryption, or the local one without KMS. -/
def encrypt (config : Config) (kms : Bool) (secret : Secret) : Option EncryptedKeypairSecret :=
  match kmsKeyId config with
  | some keyId => if kms then some ⟨secret, keyId, 1⟩ else none
  | none => some ⟨secret, "local-dev", 1⟩

/-- `secretKey.fill('\0')`: a string has no method `fill`. -/
def zeroSecret : Except Exception Unit := .error .typeError

/-- `try … finally …`: an exception of the cleanup replaces what the body returned or threw. -/
def tryFinally {α : Type} (body : Except Exception α) (cleanup : Except Exception Unit) :
    Except Exception α :=
  match cleanup with
  | .error e => .error e
  | .ok () => body

def generateCustodialKeypair (config : Config) (x : Store) (userId phoneHash : String)
    (o : GenerateOutcome) : Store × Except Exception GeneratedKeypair :=
  let keypair := x.generated
  match encrypt config o.kms keypair with
  | none => (x.draw, tryFinally (.error .kms) zeroSecret)
  | some blob =>
    match o.update with
    | .fails effect =>
      (if effect then x.draw.persist userId keypair blob else x.draw,
        tryFinally (.error .database) zeroSecret)
    | .ok =>
      ((x.draw.persist userId keypair blob).writeAuditLog o.audit "keypair_generated" userId
        [("publicKey", .key (some keypair)), ("phoneHash", .text phoneHash),
          ("kmsKeyId", .text blob.kmsKeyId), ("version", .number blob.version)],
        tryFinally (.ok ⟨keypair, blob⟩) zeroSecret)

/-- Decryption; `kms` says whether KMS answers. -/
def decryptKeypairForSigning (x : Store) (userId : String) (encryptedSecret : EncryptedKeypairSecret)
    (reason : String) (kms audit : Bool) : Store × Except Exception Secret :=
  if encryptedSecret.kmsKeyId ≠ "local-dev" ∧ ¬ kms then
    (x.writeAuditLog audit "keypair_decrypt_failed" userId [("reason", .text reason)],
      .error .kms)
  else
    (x.writeAuditLog audit "keypair_decrypted" userId
      [("reason", .text reason), ("kmsKeyId", .text encryptedSecret.kmsKeyId),
        ("version", .number encryptedSecret.version)],
      .ok encryptedSecret.secret)

/-- What becomes of the steps of a rotation. -/
structure RotateOutcome where
  select : Bool
  started : Bool
  generate : GenerateOutcome
  completed : Bool

def rotateCustodialKeypair (config : Config) (x : Store) (userId phoneHash : String)
    (o : RotateOutcome) : Store × Except Exception GeneratedKeypair :=
  if o.select then
    let oldPublicKey := (x.users userId).map Row.stellar_address
    let started := x.writeAuditLog o.started "keypair_rotation_started" userId
      [("oldPublicKey", .key oldPublicKey), ("phoneHash", .text phoneHash)]
    match generateCustodialKeypair config started userId phoneHash o.generate with
    | (y, .error e) => (y, .error e)
    | (y, .ok newKeypair) =>
      (y.writeAuditLog o.completed "keypair_rotation_completed" userId
        [("oldPublicKey", .key oldPublicKey), ("newPublicKey", .key (some newKeypair.publicKey)),
          ("phoneHash", .text phoneHash)],
        .ok newKeypair)
  else (x, .error .database)

/-- A call, with what becomes of its steps. -/
inductive Call where
  | generate (userId phoneHash : String) (o : GenerateOutcome)
  | rotate (userId phoneHash : String) (o : RotateOutcome)

def after (config : Config) (x : Store) : Call → Store
  | .generate userId phoneHash o => (generateCustodialKeypair config x userId phoneHash o).1
  | .rotate userId phoneHash o => (rotateCustodialKeypair config x userId phoneHash o).1

/-- The users as the first call finds them: each has an address and no custodial keypair. -/
def start (users : String → Option PublicKey) : Store :=
  ⟨fun userId => (users userId).map fun address => ⟨address, none⟩, [], 0, []⟩

/-- The store after a sequence of calls. -/
def run (config : Config) (users : String → Option PublicKey) (calls : List Call) : Store :=
  calls.foldl (after config) (start users)

/-- The secret of a public key can be decrypted from a blob that is kept. -/
def Recoverable (x : Store) (publicKey : PublicKey) : Prop :=
  ∃ blob, x.Keeps blob ∧ ∃ userId reason,
    (decryptKeypairForSigning x userId blob reason true true).2 = .ok publicKey

/-- A generation returns a keypair only when the user's row holds it, and leaves the row unchanged
    when it throws. -/
def Reports (config : Config) (x : Store) (userId phoneHash : String) (o : GenerateOutcome) :
    Prop :=
  match (generateCustodialKeypair config x userId phoneHash o).2 with
  | .ok keypair => (generateCustodialKeypair config x userId phoneHash o).1.users userId =
      some ⟨keypair.publicKey, some keypair.encryptedSecret⟩
  | .error _ =>
    (generateCustodialKeypair config x userId phoneHash o).1.users userId = x.users userId

instance (config : Config) (x : Store) (userId phoneHash : String) (o : GenerateOutcome) :
    Decidable (Reports config x userId phoneHash o) := by
  unfold Reports
  split <;> infer_instance

/-- The update of a generation reaches a row: the secret is encrypted, the user exists and the
    statement takes effect. -/
def Updates (config : Config) (users : String → Option PublicKey) (userId : String)
    (o : GenerateOutcome) : Prop :=
  ((kmsKeyId config).isSome → o.kms = true) ∧ (users userId).isSome ∧ o.update.effective = true

instance (config : Config) (users : String → Option PublicKey) (userId : String)
    (o : GenerateOutcome) : Decidable (Updates config users userId o) :=
  inferInstanceAs (Decidable (_ ∧ _ ∧ _))

/-- The user whose row a call updates. -/
def updatedUser (config : Config) (users : String → Option PublicKey) : Call → Option String
  | .generate userId _ o => if Updates config users userId o then some userId else none
  | .rotate userId _ o =>
    if o.select = true ∧ Updates config users userId o.generate then some userId else none

end NeuroWealth.CustodialKeypair
