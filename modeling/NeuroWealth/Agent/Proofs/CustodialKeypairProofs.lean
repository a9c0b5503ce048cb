import NeuroWealth.Agent.CustodialKeypair

/-!
# When custodial keys stay recoverable

A user's row holds the key stored last for that user, and nothing else holds a key: a stored key is
recoverable until its row is updated again.
-/

namespace NeuroWealth.CustodialKeypair

variable {config : Config} {users : String → Option PublicKey} {x y : Store}
  {userId phoneHash action other : String} {publicKey : PublicKey} {o : GenerateOutcome}
  {blob : EncryptedKeypairSecret} {calls : List Call} {details : List (String × Detail)}
  {written : Bool}

/-! ## The invariant -/

/-- No field of the details is a blob. -/
def Blobless (details : List (String × Detail)) : Prop :=
  ∀ detail ∈ details, ∀ blob, detail.2 ≠ .blob blob

/-- Only the rows hold blobs: each the key stored last for its user. -/
structure Sound (users : String → Option PublicKey) (x : Store) : Prop where
  rows : ∀ userId, (x.users userId).isSome = (users userId).isSome
  held : ∀ userId, ((x.users userId).bind Row.encrypted_secret).map EncryptedKeypairSecret.secret =
    x.stored.lookup userId
  drawn : ∀ entry ∈ x.stored, entry.2 < x.generated
  distinct : (x.stored.map Prod.snd).Nodup
  log : ∀ entry ∈ x.auditLog, Blobless entry.details

theorem sound_start : Sound users (start users) := by
  refine ⟨?_, ?_, nofun, List.nodup_nil, nofun⟩
  · intro userId
    simp [start]
  · intro userId
    cases h : users userId <;> simp [start, h]

theorem Sound.draw (h : Sound users x) : Sound users x.draw :=
  ⟨h.rows, h.held, fun entry hentry => Nat.lt_succ_of_lt (h.drawn entry hentry), h.distinct,
    h.log⟩

theorem Sound.writeAuditLog (h : Sound users x)
    (hdetails : Blobless details) :
    Sound users (x.writeAuditLog written action userId details) := by
  unfold Store.writeAuditLog
  split_ifs
  · refine ⟨h.rows, h.held, h.drawn, h.distinct, ?_⟩
    intro entry hentry
    rcases List.mem_append.mp hentry with hold | hnew
    · exact h.log entry hold
    · rw [List.mem_singleton.mp hnew]
      exact hdetails
  · exact h

/-- The key of a new keypair takes the place of the user's last one. -/
theorem Sound.persist (h : Sound users x) (hblob : blob.secret = x.generated) :
    Sound users (x.draw.persist userId x.generated blob) := by
  unfold Store.persist
  split_ifs with hrow
  · refine ⟨?_, ?_, ?_, ?_, h.log⟩
    · intro other
      by_cases hsame : other = userId
      · subst hsame
        have hexists := h.rows other
        simp only [Store.draw] at hrow
        rw [hrow] at hexists
        simp [← hexists]
      · simpa [hsame, Store.draw] using h.rows other
    · intro other
      by_cases hsame : other = userId
      · simp [hsame, hblob]
      · have hother := h.held other
        have hlookup : (other == userId) = false := by simpa using hsame
        simpa [hsame, Store.draw, List.lookup_cons, hlookup] using hother
    · intro entry hentry
      rcases List.mem_cons.mp hentry with rfl | hold
      · exact Nat.lt_succ_self _
      · exact Nat.lt_succ_of_lt (h.drawn entry hold)
    · rw [List.map_cons, List.nodup_cons]
      refine ⟨?_, h.distinct⟩
      intro hmem
      obtain ⟨entry, hentry, hsame⟩ := List.mem_map.mp hmem
      have hlt : entry.2 < x.generated := h.drawn entry hentry
      rw [hsame] at hlt
      exact absurd hlt (lt_irrefl _)
  · exact h.draw

/-! ## One call -/

theorem encrypt_secret (h : encrypt config o.kms publicKey = some blob) :
    blob.secret = publicKey := by
  unfold encrypt at h
  split at h
  · split_ifs at h
    rw [← Option.some.inj h]
  · rw [← Option.some.inj h]

theorem encrypt_isSome :
    (encrypt config o.kms publicKey).isSome ↔ ((kmsKeyId config).isSome → o.kms = true) := by
  unfold encrypt
  cases kmsKeyId config with
  | none => simp
  | some keyId =>
    cases o.kms <;> simp

/-- A generation whose update takes effect stores the new keypair. -/
theorem generate_updates (h : Updates config users userId o) :
    ∃ blob written details, blob.secret = x.generated ∧ Blobless details ∧
      (generateCustodialKeypair config x userId phoneHash o).1 =
        (x.draw.persist userId x.generated blob).writeAuditLog written "keypair_generated" userId
          details := by
  obtain ⟨hkms, -, heffective⟩ := h
  have hsome : (encrypt config o.kms x.generated).isSome := encrypt_isSome.mpr hkms
  obtain ⟨blob, hblob⟩ := Option.isSome_iff_exists.mp hsome
  have hsecret := encrypt_secret hblob
  cases hupdate : o.update with
  | ok =>
    simp only [generateCustodialKeypair, hblob, hupdate]
    refine ⟨blob, o.audit, _, hsecret, ?_, rfl⟩
    simp [Blobless]
  | fails effect =>
    rw [hupdate] at heffective
    obtain rfl : effect = true := heffective
    simp only [generateCustodialKeypair, hblob, hupdate]
    exact ⟨blob, false, [], hsecret, nofun, rfl⟩

/-- Any other generation stores nothing. -/
theorem generate_other (hrow : (x.users userId).isSome = (users userId).isSome)
    (h : ¬ Updates config users userId o) :
    ∃ written details, Blobless details ∧
      (generateCustodialKeypair config x userId phoneHash o).1 =
        x.draw.writeAuditLog written "keypair_generated" userId details := by
  cases hblob : encrypt config o.kms x.generated with
  | none =>
    simp only [generateCustodialKeypair, hblob]
    exact ⟨false, [], nofun, rfl⟩
  | some blob =>
    have hkms := encrypt_isSome.mp (Option.isSome_iff_exists.mpr ⟨blob, hblob⟩)
    have hmissing : o.update.effective = true → x.draw.persist userId x.generated blob = x.draw := by
      intro heffective
      refine if_neg ?_
      intro hexists
      have huser : (users userId).isSome := by
        rw [← hrow]
        exact hexists
      exact h ⟨hkms, huser, heffective⟩
    cases hupdate : o.update with
    | fails effect =>
      simp only [generateCustodialKeypair, hblob, hupdate]
      refine ⟨false, [], nofun, ?_⟩
      cases effect with
      | false => rfl
      | true => exact hmissing (by rw [hupdate]; rfl)
    | ok =>
      simp only [generateCustodialKeypair, hblob, hupdate, hmissing (by rw [hupdate]; rfl)]
      refine ⟨o.audit, _, ?_, rfl⟩
      simp [Blobless]

/-- A generation never returns: its cleanup throws. -/
theorem generate_throws :
    (generateCustodialKeypair config x userId phoneHash o).2 = .error .typeError := by
  cases hblob : encrypt config o.kms x.generated with
  | none => simp only [generateCustodialKeypair, hblob, tryFinally, zeroSecret]
  | some blob =>
    cases hupdate : o.update with
    | ok => simp only [generateCustodialKeypair, hblob, hupdate, tryFinally, zeroSecret]
    | fails effect => simp only [generateCustodialKeypair, hblob, hupdate, tryFinally, zeroSecret]

theorem sound_generate (h : Sound users x) :
    Sound users (generateCustodialKeypair config x userId phoneHash o).1 := by
  by_cases hupdates : Updates config users userId o
  · obtain ⟨blob, written, details, hsecret, hdetails, heq⟩ := generate_updates hupdates
    rw [heq]
    exact (h.persist hsecret).writeAuditLog hdetails
  · obtain ⟨written, details, hdetails, heq⟩ := generate_other (h.rows userId) hupdates
    rw [heq]
    exact h.draw.writeAuditLog hdetails

@[simp]
theorem stored_writeAuditLog :
    (x.writeAuditLog written action userId details).stored = x.stored := by
  unfold Store.writeAuditLog
  split_ifs <;> rfl

@[simp]
theorem users_writeAuditLog : (x.writeAuditLog written action userId details).users = x.users := by
  unfold Store.writeAuditLog
  split_ifs <;> rfl

/-- What a generation adds to the stored keys. -/
theorem stored_generate (h : Sound users x) :
    (generateCustodialKeypair config x userId phoneHash o).1.stored.map Prod.fst =
      (if Updates config users userId o then [userId] else []) ++ x.stored.map Prod.fst := by
  by_cases hupdates : Updates config users userId o
  · obtain ⟨blob, written, details, -, -, heq⟩ := generate_updates hupdates
    have hrow : (x.draw.users userId).isSome := by
      rw [Store.draw, h.rows userId]
      exact hupdates.2.1
    rw [heq, stored_writeAuditLog, Store.persist, if_pos hrow, if_pos hupdates]
    rfl
  · obtain ⟨written, details, -, heq⟩ := generate_other (h.rows userId) hupdates
    rw [heq, stored_writeAuditLog, if_neg hupdates]
    rfl

/-- A rotation is a generation after an audit entry, or nothing. -/
theorem rotate_cases {r : RotateOutcome} :
    r.select = true ∧ (∃ written details, Blobless details ∧
        (rotateCustodialKeypair config x userId phoneHash r).1 =
          (generateCustodialKeypair config
            (x.writeAuditLog written "keypair_rotation_started" userId details) userId phoneHash
            r.generate).1) ∨
      r.select = false ∧ (rotateCustodialKeypair config x userId phoneHash r).1 = x := by
  unfold rotateCustodialKeypair
  cases hselect : r.select with
  | false => exact .inr ⟨rfl, rfl⟩
  | true =>
    refine .inl ⟨rfl, r.started, [("oldPublicKey", .key ((x.users userId).map Row.stellar_address)),
      ("phoneHash", .text phoneHash)], by simp [Blobless], ?_⟩
    simp only [if_true]
    split
    · rename_i heq
      rw [heq]
    · rename_i heq
      have hthrows := congrArg Prod.snd heq
      rw [generate_throws] at hthrows
      cases hthrows

/-! ## A sequence of calls -/

theorem sound_after {call : Call} (h : Sound users x) : Sound users (after config x call) := by
  cases call with
  | generate userId phoneHash o => exact sound_generate h
  | rotate userId phoneHash r =>
    simp only [after]
    rcases rotate_cases with ⟨-, written, details, hdetails, heq⟩ | ⟨-, heq⟩
    · rw [heq]
      exact sound_generate (h.writeAuditLog hdetails)
    · rw [heq]
      exact h

theorem run_snoc {call : Call} :
    run config users (calls ++ [call]) = after config (run config users calls) call := by
  simp [run]

theorem sound_run : Sound users (run config users calls) := by
  induction calls using List.reverseRecOn with
  | nil => exact sound_start
  | append_singleton calls call ih =>
    rw [run_snoc]
    exact sound_after ih

theorem stored_after {call : Call} (h : Sound users x) :
    (after config x call).stored.map Prod.fst =
      (updatedUser config users call).toList ++ x.stored.map Prod.fst := by
  cases call with
  | generate userId phoneHash o =>
    simp only [after, stored_generate h, updatedUser]
    split_ifs <;> rfl
  | rotate userId phoneHash r =>
    simp only [after, updatedUser]
    rcases rotate_cases with ⟨hselect, written, details, hdetails, heq⟩ | ⟨hselect, heq⟩
    · rw [heq, stored_generate (h.writeAuditLog hdetails), stored_writeAuditLog]
      simp only [hselect, true_and]
      split_ifs <;> rfl
    · rw [heq]
      simp [hselect]

/-- The users of the stored keys are those whose rows the calls updated, newest first. -/
theorem stored_run : (run config users calls).stored.map Prod.fst =
    (calls.filterMap (updatedUser config users)).reverse := by
  induction calls using List.reverseRecOn with
  | nil => rfl
  | append_singleton calls call ih =>
    rw [run_snoc, stored_after sound_run, ih, List.filterMap_append, List.reverse_append]
    congr 1
    cases h : updatedUser config users call <;> simp [h]

/-! ## What is recoverable -/

theorem mem_of_lookup {stored : List (String × PublicKey)}
    (h : stored.lookup userId = some publicKey) : (userId, publicKey) ∈ stored := by
  obtain ⟨before, rest, rfl, -⟩ := List.lookup_eq_some_iff.mp h
  simp

/-- Every entry is the first of its user exactly when no user has two. -/
theorem lookup_iff_nodup {stored : List (String × PublicKey)}
    (hdistinct : (stored.map Prod.snd).Nodup) :
    (∀ entry ∈ stored, stored.lookup entry.1 = some entry.2) ↔ (stored.map Prod.fst).Nodup := by
  induction stored with
  | nil => simp
  | cons first rest ih =>
    rw [List.map_cons, List.nodup_cons] at hdistinct ⊢
    obtain ⟨hfresh, hrest⟩ := hdistinct
    constructor
    · intro h
      have hnew : first.1 ∉ rest.map Prod.fst := by
        intro hmem
        obtain ⟨entry, hentry, hsame⟩ := List.mem_map.mp hmem
        have hlookup := h entry (List.mem_cons_of_mem _ hentry)
        rw [List.lookup_cons, hsame, beq_self_eq_true] at hlookup
        apply hfresh
        rw [Option.some.inj hlookup]
        exact List.mem_map_of_mem hentry
      refine ⟨hnew, (ih hrest).mp ?_⟩
      intro entry hentry
      have hlookup := h entry (List.mem_cons_of_mem _ hentry)
      have hother : (entry.1 == first.1) = false := by
        rw [beq_eq_false_iff_ne]
        intro hsame
        exact hnew (hsame ▸ List.mem_map_of_mem hentry)
      rwa [List.lookup_cons, hother] at hlookup
    · rintro ⟨hnew, hnodup⟩ entry hentry
      rcases List.mem_cons.mp hentry with rfl | hmem
      · exact List.lookup_cons_self
      · have hother : (entry.1 == first.1) = false := by
          rw [beq_eq_false_iff_ne]
          intro hsame
          exact hnew (hsame ▸ List.mem_map_of_mem hmem)
        rw [List.lookup_cons, hother]
        exact (ih hrest).mpr hnodup entry hmem

/-- The keys that can be recovered are those of the kept blobs. -/
theorem recoverable_iff_keeps : Recoverable x publicKey ↔
    ∃ blob, x.Keeps blob ∧ blob.secret = publicKey := by
  constructor
  · rintro ⟨blob, hkept, userId, reason, hdecrypt⟩
    refine ⟨blob, hkept, ?_⟩
    simpa [decryptKeypairForSigning] using hdecrypt
  · rintro ⟨blob, hkept, rfl⟩
    exact ⟨blob, hkept, "", "", by simp [decryptKeypairForSigning]⟩

/-- A stored key is recoverable exactly while it is the last one of its user. -/
theorem Sound.recoverable_iff (h : Sound users x) (hmem : (userId, publicKey) ∈ x.stored) :
    Recoverable x publicKey ↔ x.stored.lookup userId = some publicKey := by
  rw [recoverable_iff_keeps]
  constructor
  · rintro ⟨blob, ⟨other, row, hrow, hblob⟩ | ⟨entry, hentry, detail, hdetail, hblob⟩, hsecret⟩
    · have hlookup := h.held other
      rw [hrow, Option.bind_some, hblob, Option.map_some, hsecret] at hlookup
      have hother := mem_of_lookup hlookup.symm
      have hsame : (other, publicKey) = (userId, publicKey) :=
        List.inj_on_of_nodup_map h.distinct hother hmem rfl
      rw [← (Prod.mk.inj hsame).1]
      exact hlookup.symm
    · exact absurd hblob (h.log entry hentry detail hdetail blob)
  · intro hlookup
    rw [← h.held userId] at hlookup
    obtain ⟨blob, hblob, hsecret⟩ := Option.map_eq_some_iff.mp hlookup
    obtain ⟨row, hrow, hheld⟩ := Option.bind_eq_some_iff.mp hblob
    exact ⟨blob, .inl ⟨userId, row, hrow, hheld⟩, hsecret⟩

/-! ## What a generation reports -/

/-- A generation throws after its update as before it. -/
theorem Sound.reports_iff (h : Sound users x) :
    Reports config x userId phoneHash o ↔ ¬ Updates config users userId o := by
  have hreports : Reports config x userId phoneHash o ↔
      (generateCustodialKeypair config x userId phoneHash o).1.users userId = x.users userId := by
    rw [Reports, generate_throws]
  rw [hreports]
  by_cases hupdates : Updates config users userId o
  · refine iff_of_false ?_ (not_not.mpr hupdates)
    obtain ⟨blob, written, details, hsecret, -, heq⟩ := generate_updates hupdates
    have hrow : (x.draw.users userId).isSome := by
      rw [Store.draw, h.rows userId]
      exact hupdates.2.1
    rw [heq, users_writeAuditLog, Store.persist, if_pos hrow]
    intro hsame
    have hheld := h.held userId
    rw [← hsame] at hheld
    have hmem : (userId, x.generated) ∈ x.stored := by
      apply mem_of_lookup
      rw [← hheld]
      simp [hsecret]
    exact absurd (h.drawn _ hmem) (lt_irrefl _)
  · refine iff_of_true ?_ hupdates
    obtain ⟨written, details, -, heq⟩ := generate_other (h.rows userId) hupdates
    rw [heq, users_writeAuditLog]
    rfl

/-- After a sequence of calls every stored key is recoverable exactly when no user's row was updated
    twice; and a generation reports what became of the row exactly when its update does not reach
    it. -/
theorem recoverable_and_reported_iff (config : Config) (users : String → Option PublicKey)
    (calls : List Call) :
    ((∀ entry ∈ (run config users calls).stored, Recoverable (run config users calls) entry.2) ↔
      (calls.filterMap (updatedUser config users)).Nodup) ∧
    ∀ userId phoneHash o, Reports config (run config users calls) userId phoneHash o ↔
      ¬ Updates config users userId o := by
  have hsound : Sound users (run config users calls) := sound_run
  constructor
  · rw [← List.nodup_reverse, ← stored_run, ← lookup_iff_nodup hsound.distinct]
    constructor
    · intro h entry hentry
      exact (hsound.recoverable_iff hentry).mp (h entry hentry)
    · intro h entry hentry
      exact (hsound.recoverable_iff hentry).mpr (h entry hentry)
  · intro userId phoneHash o
    exact hsound.reports_iff

namespace Sample

def fine : GenerateOutcome := ⟨true, .ok, true⟩

/-- One user, with an address of its own. -/
def table : String → Option PublicKey := fun name => if name = "u1" then some 1000 else none

/-- A generation and a rotation, without any failure. -/
def rotation : List Call :=
  [.generate "u1" "hash" fine, .rotate "u1" "hash" ⟨true, true, fine, true⟩]

/-- The generation throws with the row updated; after the rotation no kept blob holds the first
    key. -/
theorem first_key_lost :
    ¬ Reports (some "alias/agent") (run (some "alias/agent") table []) "u1" "hash" fine ∧
      ("u1", 0) ∈ (run (some "alias/agent") table rotation).stored ∧
      ¬ Recoverable (run (some "alias/agent") table rotation) 0 := by
  have hsound : Sound table (run (some "alias/agent") table rotation) := sound_run
  have hstored : (run (some "alias/agent") table rotation).stored = [("u1", 1), ("u1", 0)] := rfl
  have hmem : ("u1", 0) ∈ (run (some "alias/agent") table rotation).stored := by
    rw [hstored]
    decide
  refine ⟨by decide, hmem, ?_⟩
  rw [hsound.recoverable_iff hmem, hstored]
  decide

end Sample

end NeuroWealth.CustodialKeypair
