import Subtensor.Emission.Distribution
import Subtensor.Emission.PendingSplit
import Subtensor.Staking.Inherited

/-!
# The shares of the parents

`get_parent_child_dividends_distribution` pays every parent its part of the
dividends less the take of the child, and the child what remains and the
takes. In the fixed-point format nothing is lost; every payment is truncated
to a word, so fewer units than payments are missing in the end.
-/

namespace Subtensor.Chain

open Lib

variable {A B P : Type} [DecidableEq A] {rt : Runtime A B P} {chain : Chain A B P} {hotkey : A}
  {netuid : NetUid}

/-! ## The loop -/

/-- What was paid to parents so far. -/
def ParentShares.paid (shares : ParentShares A) : ℕ :=
  (shares.dividendTuples.map fun tuple => tuple.2.val).sum

/-- Paid or still there: all of the emission, but for the fractions of the
payments. -/
structure ParentShares.Conserves (emission : ℕ) (shares : ParentShares A) : Prop where
  upper : shares.paid * 2 ^ 32 + shares.remainingEmission.bits +
    shares.totalChildEmissionTake.bits ≤ emission
  lower : emission ≤ shares.paid * 2 ^ 32 + shares.remainingEmission.bits +
    shares.totalChildEmissionTake.bits + shares.dividendTuples.length * (2 ^ 32 - 1)

/-- The part of a contribution in the total, as a factor. -/
def emissionFactor (totalContribution contribution : U96F32) : U96F32 :=
  (contribution.checkedDiv totalContribution).getD 0

omit [DecidableEq A] in
theorem normalizedTake_le (take : U16) :
    ((UFixed.ofNat take.val : U96F32).safeDiv (.ofNat (2 ^ 16 - 1))).bits ≤ 2 ^ 32 := by
  have htake := take.isLt
  have hwhole : (UFixed.ofNat (2 ^ 16 - 1) : U96F32).bits = (2 ^ 16 - 1) * 2 ^ 32 :=
    UFixed.bits_ofNat_of_lt (by norm_num)
  refine (UFixed.bits_safeDiv_le _ _).trans ?_
  rw [UFixed.bits_ofNat_of_lt (by omega), hwhole]
  exact Nat.div_le_of_le_mul (by omega)

omit [DecidableEq A] in
theorem toWord_val_of_lt {a : U96F32} (h : a.bits < 2 ^ 96) : (a.toWord 64).val = a.bits / 2 ^ 32 :=
  Word.val_sat_of_lt (Nat.div_lt_of_lt_mul (lt_of_lt_of_eq h (by norm_num)))

/-- The emission of a parent is exact: the dividends are whole. -/
theorem bits_parentEmission (dividends : U64) {factor : U96F32} (h : factor.bits ≤ 2 ^ 32) :
    ((UFixed.ofNat dividends.val : U96F32).satMul factor).bits = dividends.val * factor.bits := by
  have hlt := dividends.isLt
  have hbits : (UFixed.ofNat dividends.val : U96F32).bits = dividends.val * 2 ^ 32 :=
    UFixed.bits_ofNat_of_lt (by omega)
  have hdiv : dividends.val * 2 ^ 32 * factor.bits / 2 ^ 32 = dividends.val * factor.bits := by
    rw [mul_right_comm]
    exact Nat.mul_div_cancel _ (by norm_num)
  have hle : dividends.val * factor.bits ≤ 2 ^ 64 * 2 ^ 32 := Nat.mul_le_mul hlt.le h
  rw [UFixed.bits_satMul, hbits, hdiv]
  omega

omit [DecidableEq A] in
theorem ParentShares.Conserves.start (emission : U96F32) :
    ParentShares.Conserves emission.bits (⟨emission, 0, []⟩ : ParentShares A) := by
  have hpaid : (⟨emission, 0, []⟩ : ParentShares A).paid = 0 := rfl
  constructor
  · rw [hpaid, zero_mul, zero_add, UFixed.bits_zero, add_zero]
  · rw [hpaid, zero_mul, zero_add, UFixed.bits_zero, add_zero]
    exact Nat.le_add_right _ _

omit [DecidableEq A] in
/-- An emission `e` is taken out of what remains: `t` of it is the take of the
child, the rest is paid. -/
theorem ParentShares.Conserves.pay {emission : ℕ} {shares : ParentShares A} {e t : U96F32}
    (h : shares.Conserves emission) (he : e.bits ≤ shares.remainingEmission.bits)
    (ht : t.bits ≤ e.bits) (hlt : emission < 2 ^ 96) (parent : A) :
    ParentShares.Conserves emission
      { remainingEmission := shares.remainingEmission.satSub e
        totalChildEmissionTake := shares.totalChildEmissionTake.satAdd t
        dividendTuples := shares.dividendTuples ++ [(parent, (e.satSub t).toWord 64)] } := by
  obtain ⟨hupper, hlower⟩ := h
  have htotal : (shares.totalChildEmissionTake.satAdd t).bits =
      shares.totalChildEmissionTake.bits + t.bits := by
    rw [UFixed.bits_satAdd]
    omega
  have hword : ((e.satSub t).toWord 64).val = (e.bits - t.bits) / 2 ^ 32 :=
    toWord_val_of_lt (by rw [UFixed.bits_satSub]; omega)
  have hpaid : ((shares.dividendTuples ++ [(parent, (e.satSub t).toWord 64)]).map
      fun tuple => tuple.2.val).sum = shares.paid + (e.bits - t.bits) / 2 ^ 32 := by
    rw [List.map_append, List.sum_append, List.map_singleton, List.sum_singleton, hword]
    rfl
  constructor
  · rw [ParentShares.paid, hpaid, htotal, UFixed.bits_satSub]
    grind
  · rw [ParentShares.paid, hpaid, htotal, UFixed.bits_satSub, List.length_append,
      List.length_singleton]
    grind

theorem payParent_conserves (rt : Runtime A B P) (chain : Chain A B P) (hotkey : A)
    (netuid : NetUid)
    (dividends : U64) {totalContribution : U96F32}
    {shares : ParentShares A} (parent : A × U96F32)
    (hfactor : (emissionFactor totalContribution parent.2).bits ≤ 2 ^ 32)
    (hfits : dividends.val * (emissionFactor totalContribution parent.2).bits ≤
      shares.remainingEmission.bits)
    (h : shares.Conserves (dividends.val * 2 ^ 32)) :
    (chain.payParent rt hotkey netuid (.ofNat dividends.val) totalContribution shares
        parent).Conserves (dividends.val * 2 ^ 32) ∧
      (chain.payParent rt hotkey netuid (.ofNat dividends.val) totalContribution shares
        parent).remainingEmission.bits =
        shares.remainingEmission.bits -
          dividends.val * (emissionFactor totalContribution parent.2).bits := by
  have hemission := bits_parentEmission dividends hfactor
  have hlt := dividends.isLt
  rw [← hemission] at hfits
  refine ⟨h.pay hfits ?_ (by omega) parent.1,
    congrArg (shares.remainingEmission.bits - ·) hemission⟩
  split_ifs
  · exact Nat.zero_le _
  · exact UFixed.bits_satMul_le_of_le_one' (normalizedTake_le _)

/-- All parents are paid, while their factors together are at most what
remains of one. -/
theorem foldl_payParent_conserves (dividends : U64) {totalContribution : U96F32}
    (l : List (A × U96F32)) {shares : ParentShares A}
    (hfactors : (l.map fun parent => (emissionFactor totalContribution parent.2).bits).sum ≤
      2 ^ 32)
    (hfits : dividends.val *
      (l.map fun parent => (emissionFactor totalContribution parent.2).bits).sum ≤
        shares.remainingEmission.bits)
    (h : shares.Conserves (dividends.val * 2 ^ 32)) :
    (l.foldl (chain.payParent rt hotkey netuid (.ofNat dividends.val) totalContribution)
      shares).Conserves (dividends.val * 2 ^ 32) := by
  induction l generalizing shares with
  | nil => exact h
  | cons parent l ih =>
      rw [List.map_cons, List.sum_cons] at hfactors hfits
      rw [mul_add] at hfits
      have hfirst : (emissionFactor totalContribution parent.2).bits ≤ 2 ^ 32 :=
        (Nat.le_add_right _ _).trans hfactors
      obtain ⟨hpaid, hremaining⟩ := payParent_conserves rt chain hotkey netuid
        dividends parent hfirst
        ((Nat.le_add_right _ _).trans hfits) h
      refine ih ((Nat.le_add_left _ _).trans hfactors) ?_ hpaid
      rw [hremaining]
      exact Nat.le_sub_of_add_le' hfits

/-! ## The distribution -/

/-- What the parents contribute, as the loop before the payments computes it. -/
def parentContributions (chain : Chain A B P) (hotkey : A) (netuid : NetUid) :
    List (A × U96F32) :=
  ((chain.graph netuid).parentKeys hotkey).map fun parent =>
    (parent.2, chain.contribution parent.2 netuid (normalizedProportion parent.1))

/-- The contributions of the hotkey itself and of its parents, not clamped. -/
def contributions (chain : Chain A B P) (hotkey : A) (netuid : NetUid) : ℕ :=
  (UFixed.ofNat (chain.getSelfContribution hotkey netuid).val : U96F32).bits +
    ((chain.parentContributions hotkey netuid).map fun parent => parent.2.bits).sum

omit [DecidableEq A] in
/-- The factors of the parents are together at most one. -/
theorem sum_emissionFactor_le (total : U96F32) (l : List (A × U96F32))
    (h : (l.map fun parent => parent.2.bits).sum ≤ total.bits) :
    (l.map fun parent => (emissionFactor total parent.2).bits).sum ≤ 2 ^ 32 := by
  have hfactor : ∀ parent ∈ l, (emissionFactor total parent.2).bits ≤
      2 ^ 32 * parent.2.bits / total.bits := by
    intro parent _
    rw [mul_comm]
    exact UFixed.bits_safeDiv_le parent.2 total
  exact (List.sum_le_sum hfactor).trans
    (sum_div_le (fun parent : A × U96F32 => parent.2.bits) (2 ^ 32) total.bits l h)

/-- What was paid to the parents, and the child, out of some dividends. -/
theorem paidShares_conserves (rt : Runtime A B P) (dividends : U64)
    (h : chain.contributions hotkey netuid < 2 ^ 128) :
    ∃ shares : ParentShares A, shares.Conserves (dividends.val * 2 ^ 32) ∧
      shares.dividendTuples.length = ((chain.graph netuid).parentKeys hotkey).length ∧
      chain.getParentChildDividendsDistribution rt hotkey netuid dividends =
        shares.dividendTuples ++ [(hotkey,
          (shares.remainingEmission.satAdd shares.totalChildEmissionTake).toWord 64)] := by
  have hdividends := dividends.isLt
  have hemission : (UFixed.ofNat dividends.val : U96F32).bits = dividends.val * 2 ^ 32 :=
    UFixed.bits_ofNat_of_lt (by omega)
  refine ⟨_, ?_, ?_, rfl⟩
  · -- the total is not clamped, so it is what the factors are divided by
    have htotal := UFixed.bits_foldl_satAdd (fun parent : A × U96F32 => parent.2)
      (chain.parentContributions hotkey netuid)
      (UFixed.ofNat (chain.getSelfContribution hotkey netuid).val)
    unfold contributions at h
    rw [min_eq_left (by omega)] at htotal
    have hfactors := sum_emissionFactor_le _ (chain.parentContributions hotkey netuid)
      ((Nat.le_add_left _ _).trans htotal.ge)
    refine foldl_payParent_conserves dividends _ hfactors ?_ ?_
    · rw [hemission]
      exact Nat.mul_le_mul_left _ hfactors
    · rw [← hemission]
      exact .start _
  · rw [foldl_payParent_length, List.length_map]
    exact Nat.zero_add _

/-- **The dividends are shared out.** While the contributions are not clamped,
the parents and the hotkey get at most the dividends, and miss less than one
unit each. -/
theorem getParentChildDividendsDistribution_bounds {dividends : U64}
    (h : chain.contributions hotkey netuid < 2 ^ 128) :
    ((chain.getParentChildDividendsDistribution rt hotkey netuid dividends).map
        fun tuple => tuple.2.val).sum ≤ dividends.val ∧
      dividends.val < ((chain.getParentChildDividendsDistribution rt hotkey netuid dividends).map
        fun tuple => tuple.2.val).sum + (((chain.graph netuid).parentKeys hotkey).length + 1) := by
  obtain ⟨shares, ⟨hupper, hlower⟩, hlength, heq⟩ :=
    paidShares_conserves rt dividends h
  have hdividends := dividends.isLt
  have hlast : ((shares.remainingEmission.satAdd shares.totalChildEmissionTake).toWord 64).val =
      (shares.remainingEmission.bits + shares.totalChildEmissionTake.bits) / 2 ^ 32 := by
    have hsum : (shares.remainingEmission.satAdd shares.totalChildEmissionTake).bits =
        shares.remainingEmission.bits + shares.totalChildEmissionTake.bits := by
      rw [UFixed.bits_satAdd]
      omega
    rw [toWord_val_of_lt (by omega), hsum]
  rw [heq, List.map_append, List.sum_append, List.map_singleton, List.sum_singleton, hlast,
    ← hlength]
  rw [add_assoc] at hupper
  rw [add_assoc (shares.paid * 2 ^ 32)] at hlower
  change shares.paid + _ ≤ _ ∧ _ < shares.paid + _ + _
  generalize shares.remainingEmission.bits + shares.totalChildEmissionTake.bits = rest at *
  generalize shares.paid = paid at *
  constructor
  · grind
  · grind

/-! ## The take of the child -/

/-- The chain with other childkey takes. -/
def withChildkeyTake (chain : Chain A B P) (childkeyTake : A → NetUid → U16) : Chain A B P :=
  chain.withAccounts { chain.accounts with childkeyTake := childkeyTake }

/-- From parents of the same coldkey nothing is taken. -/
theorem getParentChildDividendsDistribution_withChildkeyTake {dividends : U64}
    (h : ∀ parent ∈ (chain.graph netuid).parentKeys hotkey,
      chain.getOwningColdkeyForHotkey rt parent.2 = chain.getOwningColdkeyForHotkey rt hotkey)
    (childkeyTake : A → NetUid → U16) :
    (chain.withChildkeyTake childkeyTake).getParentChildDividendsDistribution rt hotkey netuid
        dividends =
      chain.getParentChildDividendsDistribution rt hotkey netuid dividends := by
  have hpay : ∀ (emission total : U96F32) (shares : ParentShares A),
      ∀ parent ∈ chain.parentContributions hotkey netuid,
        (chain.withChildkeyTake childkeyTake).payParent rt hotkey netuid emission total shares
            parent =
          chain.payParent rt hotkey netuid emission total shares parent := by
    intro emission total shares parent hmem
    obtain ⟨key, hkey, rfl⟩ := List.mem_map.mp hmem
    have howner := h key hkey
    have howner' : (chain.withChildkeyTake childkeyTake).getOwningColdkeyForHotkey rt key.2 =
        (chain.withChildkeyTake childkeyTake).getOwningColdkeyForHotkey rt hotkey := howner
    unfold payParent
    simp only [if_pos howner, if_pos howner']
  have hloop := List.foldl_ext _ _ (⟨.ofNat dividends.val, 0, []⟩ : ParentShares A)
    (hpay (.ofNat dividends.val)
      ((chain.parentContributions hotkey netuid).foldl
        (fun total parent => total.satAdd parent.2)
        (UFixed.ofNat (chain.getSelfContribution hotkey netuid).val)))
  exact congrArg (fun shares : ParentShares A => shares.dividendTuples ++
    [(hotkey, (shares.remainingEmission.satAdd shares.totalChildEmissionTake).toWord 64)]) hloop

/-- **Parents and child share the dividends.** While the contributions are not
clamped, what is paid sums to at most the dividends and to more than the
dividends less the number of payments; when all parents belong to the coldkey
of the hotkey, its take has no part in it. -/
theorem getParentChildDividendsDistribution_conservative (rt : Runtime A B P)
    (chain : Chain A B P) (hotkey : A) (netuid : NetUid) (dividends : U64) :
    (chain.contributions hotkey netuid < 2 ^ 128 →
        ((chain.getParentChildDividendsDistribution rt hotkey netuid dividends).map
            fun tuple => tuple.2.val).sum ≤ dividends.val ∧
          dividends.val <
            ((chain.getParentChildDividendsDistribution rt hotkey netuid dividends).map
              fun tuple => tuple.2.val).sum +
                (((chain.graph netuid).parentKeys hotkey).length + 1)) ∧
      ((∀ parent ∈ (chain.graph netuid).parentKeys hotkey,
          chain.getOwningColdkeyForHotkey rt parent.2 =
            chain.getOwningColdkeyForHotkey rt hotkey) →
        ∀ childkeyTake : A → NetUid → U16,
          (chain.withChildkeyTake childkeyTake).getParentChildDividendsDistribution rt hotkey
              netuid dividends =
            chain.getParentChildDividendsDistribution rt hotkey netuid dividends) :=
  ⟨getParentChildDividendsDistribution_bounds,
    getParentChildDividendsDistribution_withChildkeyTake⟩

/-- A hotkey and its parent, of one coldkey, share a thousand. -/
theorem getParentChildDividendsDistribution_conservative_inheritingChain :
    let chain := inheritingChain (.sat 1000) (.sat (2 ^ 63))
    (((chain.getParentChildDividendsDistribution runtime 2 (.sat 1) (.sat 1000)).map
        fun tuple => tuple.2.val).sum ≤ (Word.sat 1000 : U64).val ∧
      (Word.sat 1000 : U64).val <
        ((chain.getParentChildDividendsDistribution runtime 2 (.sat 1) (.sat 1000)).map
          fun tuple => tuple.2.val).sum + 2) ∧
      (chain.withChildkeyTake fun _ _ => .sat 11796).getParentChildDividendsDistribution runtime 2
          (.sat 1) (.sat 1000) =
        chain.getParentChildDividendsDistribution runtime 2 (.sat 1) (.sat 1000) := by
  intro chain
  obtain ⟨hbounds, htake⟩ := getParentChildDividendsDistribution_conservative runtime chain 2
    (.sat 1) (.sat 1000)
  exact ⟨hbounds (by decide +kernel), htake (by decide +kernel) _⟩

end Subtensor.Chain
