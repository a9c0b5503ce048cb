import NeuroWealth.Foundation.Aborts
import NeuroWealth.ShareMath.Proofs.PlainVaultProofs

/-!
# The vault's conversions

On the way in the vault rounds to the most shares an amount pays for, on the way out to the fewest
shares worth it. Its conversions return what the share model computes and panic exactly where the
model rejects.
-/

namespace NeuroWealth.ShareMath

open Transaction Vault MachineInt SharePool

variable {env : Env} {w w' : World} {x y z a s S A : Int}

/-! ## Conversions that fit -/

theorem sharesFloor_of_fits (hS : 0 < S) (hA : 0 < A) (ha : 0 ≤ a) (hfits : i128.Fits (a * S)) :
    sharesFloor a S A = some (Pool.sharesFor S A a) := by
  have hprod : 0 ≤ a * S := mul_nonneg ha hS.le
  unfold sharesFloor Pool.sharesFor
  split_ifs
  · rfl
  · rfl
  · rw [checkedMul_eq_some.mpr ⟨rfl, hfits⟩]
    have hle : (a * S).tdiv A ≤ a * S := Int.tdiv_le_self A hprod
    exact checkedDiv_eq_some.mpr
      ⟨hA.ne', rfl, fits_of_le (Int.tdiv_nonneg hprod hA.le) hle hfits⟩

theorem sharesCeil_of_fits (hS : 0 < S) (hA : 0 < A) (ha : 0 ≤ a)
    (hfits : i128.Fits (a * S + (A - 1))) : sharesCeil a S A = some (Pool.sharesForUp S A a) := by
  have hprod : 0 ≤ a * S := mul_nonneg ha hS.le
  unfold sharesCeil Pool.sharesForUp
  split_ifs
  · rfl
  · rfl
  · have hproduct : i128.Fits (a * S) := fits_of_le hprod (by omega) hfits
    have hround : i128.Fits (A - 1) := fits_of_le (by omega) (by omega) hfits
    have hsum : 0 ≤ a * S + (A - 1) := by omega
    have hle : (a * S + (A - 1)).tdiv A ≤ a * S + (A - 1) := Int.tdiv_le_self A hsum
    rw [checkedMul_eq_some.mpr ⟨rfl, hproduct⟩, checkedSub_eq_some.mpr ⟨rfl, hround⟩]
    show (i128.checkedAdd (a * S) (A - 1)).bind _ = _
    rw [checkedAdd_eq_some.mpr ⟨rfl, hfits⟩]
    exact checkedDiv_eq_some.mpr
      ⟨hA.ne', rfl, fits_of_le (Int.tdiv_nonneg hsum hA.le) hle hfits⟩

theorem assetsFromShares_of_fits (hS : 0 < S) (hA : 0 < A) (hs : 0 ≤ s)
    (hfits : i128.Fits (s * A)) : assetsFromShares s S A = some (Pool.assetsFor S A s) := by
  have hprod : 0 ≤ s * A := mul_nonneg hs hA.le
  unfold assetsFromShares Pool.assetsFor
  split_ifs
  · rfl
  · rfl
  · rw [checkedMul_eq_some.mpr ⟨rfl, hfits⟩]
    have hle : (s * A).tdiv S ≤ s * A := Int.tdiv_le_self S hprod
    exact checkedDiv_eq_some.mpr
      ⟨hS.ne', rfl, fits_of_le (Int.tdiv_nonneg hprod hS.le) hle hfits⟩

/-! ## Panics -/

/-- A conversion of the vault returns what the model computes, changes nothing, and panics exactly
    where the model rejects. -/
structure Agrees (env : Env) (w : World) (conversion : Contract Int) (model : Option Int) :
    Prop where
  returns : ∀ z w', conversion.Ok env w z w' ↔ model = some z ∧ w' = w
  panics : (∃ text, conversion.Aborts env w (.panic text)) ↔ model = none

/-- An error other than a panic. -/
def Orderly (e : VaultError) : Prop := ∀ text, e ≠ .panic text

theorem never_mulDivDown {texts : ConversionTexts} : Never Orderly (mulDivDown texts x y z) :=
  .bind (.expect fun h => h _ rfl) fun _ => .expect fun h => h _ rfl

theorem never_mulDivUp {texts : ConversionTexts} : Never Orderly (mulDivUp texts x y z) :=
  .bind (.expect fun h => h _ rfl) fun _ => .bind (.expect fun h => h _ rfl) fun _ =>
    .bind (.expect fun h => h _ rfl) fun _ => .expect fun h => h _ rfl

/-- A conversion that returns what the model computes and only ever panics, panics exactly where the
    model rejects. -/
theorem Agrees.of_never {conversion : Contract Int} {model : Option Int}
    (hreturns : ∀ z w', conversion.Ok env w z w' ↔ model = some z ∧ w' = w)
    (hnever : Never Orderly conversion) : Agrees env w conversion model := by
  refine ⟨hreturns, ?_, fun hnone => ?_⟩
  · rintro ⟨text, haborts⟩
    cases hmodel : model with
    | none => rfl
    | some z => exact absurd haborts ((hreturns z w).mpr ⟨hmodel, rfl⟩).not_aborts
  · rcases Tx.ok_or_aborts conversion env w with ⟨z, w', hok⟩ | ⟨e, haborts⟩
    · have hsome := ((hreturns z w').mp hok).1
      rw [hnone] at hsome
      cases hsome
    · by_contra hpanics
      refine hnever haborts fun text htext => hpanics ⟨text, ?_⟩
      rwa [← htext]

theorem agrees_sharesFloor :
    Agrees env w (convertToSharesInternal a)
      (sharesFloor a w.book.totalShares w.book.assets) :=
  .of_never (fun _ _ => convertToSharesInternal_iff)
    (.bind .get fun _ => .ite (.pure _) (.ite (.pure _) never_mulDivDown))

theorem agrees_sharesCeil :
    Agrees env w (convertToSharesInternalCeil a)
      (sharesCeil a w.book.totalShares w.book.assets) :=
  .of_never (fun _ _ => convertToSharesInternalCeil_iff)
    (.bind .get fun _ => .ite (.pure _) (.ite (.pure _) never_mulDivUp))

theorem agrees_assetsFromShares :
    Agrees env w (convertToAssetsInternal a)
      (assetsFromShares a w.book.totalShares w.book.assets) :=
  .of_never (fun _ _ => convertToAssetsInternal_iff)
    (.bind .get fun _ => .ite (.pure _) (.ite (.pure _) never_mulDivDown))

/-! ## Rounding -/

/-- `s` shares are worth `v` in the vault. -/
def Worth (env : Env) (w : World) (s v : Int) : Prop := (convertToAssetsInternal s).Ok env w v w

/-- Rounded down: `s` is what an amount mints, the most shares it pays for. -/
structure RoundsDown (env : Env) (w : World) (a s : Int) : Prop where
  returned : (convertToSharesInternal a).Ok env w s w
  greatest : IsGreatest {t | t * w.book.assets ≤ a * w.book.totalShares} s
  worth : ∃ v, Worth env w s v ∧ v ≤ a

/-- Rounded up: `s` is what an amount burns, the fewest shares that pay for it. -/
structure RoundsUp (env : Env) (w : World) (a s : Int) : Prop where
  returned : (convertToSharesInternalCeil a).Ok env w s w
  least : IsLeast {t | a * w.book.totalShares ≤ t * w.book.assets} s
  least_worth : IsLeast {t | 0 ≤ t ∧ ∃ v, Worth env w t v ∧ a ≤ v} s
  worth : ∃ v, Worth env w s v ∧ a ≤ v

theorem worth_of_fits (hS : 0 < w.book.totalShares) (hA : 0 < w.book.assets) (hs : 0 ≤ s)
    (hfits : i128.Fits (s * w.book.assets)) :
    Worth env w s (Pool.assetsFor w.book.totalShares w.book.assets s) :=
  convertToAssetsInternal_iff.mpr ⟨assetsFromShares_of_fits hS hA hs hfits, rfl⟩

theorem roundsDown (hS : 0 < w.book.totalShares) (hA : 0 < w.book.assets) (ha : 0 ≤ a)
    (hfits : i128.Fits (a * w.book.totalShares)) :
    RoundsDown env w a (Pool.sharesFor w.book.totalShares w.book.assets a) := by
  have hnonneg := Pool.sharesFor_nonneg hS.le hA.le ha
  have hle := Pool.sharesFor_mul_le (A := w.book.assets) hS ha
  refine ⟨convertToSharesInternal_iff.mpr ⟨sharesFloor_of_fits hS hA ha hfits, rfl⟩, ⟨hle, ?_⟩, ?_⟩
  · intro t ht
    exact (Pool.le_sharesFor_iff hS hA ha).mpr ht
  · have hvalue := fits_of_le (mul_nonneg hnonneg hA.le) hle hfits
    exact ⟨_, worth_of_fits hS hA hnonneg hvalue, Pool.assetsFor_sharesFor_le hS hA ha⟩

theorem roundsUp (hS : 0 < w.book.totalShares) (hA : 0 < w.book.assets) (ha : 0 ≤ a)
    (hfits : i128.Fits (a * w.book.totalShares + (w.book.assets - 1))) :
    RoundsUp env w a (Pool.sharesForUp w.book.totalShares w.book.assets a) := by
  have hnonneg := Pool.sharesForUp_nonneg hS hA ha
  have hlow := Pool.le_sharesForUp_mul hS hA ha
  have hlt := Pool.sharesForUp_mul_lt hS hA ha
  have hvalue := fits_of_le (mul_nonneg hnonneg hA.le) (by omega) hfits
  have hworth : ∃ v, Worth env w (Pool.sharesForUp w.book.totalShares w.book.assets a) v ∧ a ≤ v :=
    ⟨_, worth_of_fits hS hA hnonneg hvalue, Pool.le_assetsFor_sharesForUp hS hA ha⟩
  refine ⟨convertToSharesInternalCeil_iff.mpr ⟨sharesCeil_of_fits hS hA ha hfits, rfl⟩,
    ⟨hlow, fun t ht => (Pool.sharesForUp_le_iff hS hA ha).mpr ht⟩, ⟨⟨hnonneg, hworth⟩, ?_⟩, hworth⟩
  rintro t ⟨ht, v, hv, hle⟩
  rcases ha.eq_or_lt with rfl | hpos
  · rwa [Pool.sharesForUp, if_pos rfl]
  · rw [assetsFromShares_some (convertToAssetsInternal_iff.mp hv).1] at hle
    exact (Pool.le_assetsFor_iff hS hA hpos).mp hle

/-- The vault's conversions agree with the share model everywhere, and where their products fit they
    round an amount to the most shares it pays for and to the fewest that pay for it, which are at
    most one share apart. -/
theorem conversions_adjoint (env : Env) (w : World) (a : Int) :
    (Agrees env w (convertToSharesInternal a)
        (sharesFloor a w.book.totalShares w.book.assets) ∧
      Agrees env w (convertToSharesInternalCeil a)
        (sharesCeil a w.book.totalShares w.book.assets) ∧
      Agrees env w (convertToAssetsInternal a)
        (assetsFromShares a w.book.totalShares w.book.assets)) ∧
    (1 ≤ w.book.totalShares → 1 ≤ w.book.assets → 0 ≤ a →
      (i128.Fits (a * w.book.totalShares) → ∃ down, RoundsDown env w a down) ∧
      (i128.Fits (a * w.book.totalShares + (w.book.assets - 1)) → ∃ down up,
        RoundsDown env w a down ∧ RoundsUp env w a up ∧ down ≤ up ∧ up ≤ down + 1)) := by
  refine ⟨⟨agrees_sharesFloor, agrees_sharesCeil, agrees_assetsFromShares⟩, ?_⟩
  intro hS hA ha
  constructor
  · intro hfits
    exact ⟨_, roundsDown hS hA ha hfits⟩
  · intro hfits
    have hprod : i128.Fits (a * w.book.totalShares) :=
      fits_of_le (mul_nonneg ha (by omega)) (by omega) hfits
    exact ⟨_, _, roundsDown hS hA ha hprod, roundsUp hS hA ha hfits,
      Pool.sharesFor_le_sharesForUp hS hA ha, Pool.sharesForUp_le_sharesFor_add_one hS hA ha⟩

namespace Sample

open Vault.Sample

/-- Seven shares of ten stroops. -/
def uneven : World :=
  { opened with book := { opened.book with totalShares := 7, totalAssets := some 10 } }

/-- Five stroops pay for three shares, and four shares pay for them. -/
theorem uneven_adjoint :
    ∃ down up, RoundsDown honest uneven 5 down ∧ RoundsUp honest uneven 5 up ∧
      down ≤ up ∧ up ≤ down + 1 :=
  ((conversions_adjoint honest uneven 5).2 (by decide) (by decide) (by decide)).2 (by decide)

end Sample

end NeuroWealth.ShareMath
