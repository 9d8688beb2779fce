import Subtensor.Emission.Issuance
import Subtensor.Emission.Supply
import Subtensor.Pallet.Instances

/-!
# The split of the alpha of a block

The alpha that a block adds to `SubnetAlphaOut` is split into the cut of the
owner, the part of root that is sold, and the rest. Each of the three is
truncated to a word by itself, so together they never exceed what was added;
and root earns at most as much as the rest, so the alpha that was sold stays
within the pending emission.
-/

namespace Subtensor

open Lib

/-! ## Truncated parts -/

/-- The words of three parts of an amount fit into the word of the amount. -/
theorem UFixed.toWord_parts_le {a c r : U96F32} (hc : c.bits ≤ a.bits)
    (hr : r.bits ≤ (a.satSub c).bits) (ha : a.bits < 2 ^ 96) :
    (c.toWord 64).val + (r.toWord 64).val + (((a.satSub c).satSub r).toWord 64).val ≤
      (a.toWord 64).val := by
  simp only [UFixed.toWord, Word.val_sat, UFixed.bits_satSub] at *
  omega

theorem UFixed.toWord_mono {a b : U96F32} (h : a.bits ≤ b.bits) :
    (a.toWord 64).val ≤ (b.toWord 64).val := by
  simp only [UFixed.toWord, Word.val_sat]
  omega

theorem UFixed.bits_satMul_le_of_le_one {a b : U96F32} (hb : b.bits ≤ 2 ^ 32) :
    (a.satMul b).bits ≤ a.bits := by
  calc (a.satMul b).bits ≤ a.bits * b.bits / 2 ^ 32 := UFixed.bits_sat_le _
    _ ≤ a.bits * 2 ^ 32 / 2 ^ 32 := Nat.div_le_div_right (Nat.mul_le_mul_left _ hb)
    _ = a.bits := Nat.mul_div_cancel _ (by norm_num)

theorem UFixed.bits_satMul_le_of_le_one' {a b : U96F32} (ha : a.bits ≤ 2 ^ 32) :
    (a.satMul b).bits ≤ b.bits := by
  rw [UFixed.bits_satMul, mul_comm a.bits, ← UFixed.bits_satMul]
  exact UFixed.bits_satMul_le_of_le_one ha

theorem UFixed.bits_satMul_half_le (a : U96F32) {half : U96F32} (h : half.bits = 2 ^ 31) :
    2 * (a.satMul half).bits ≤ a.bits := by
  rw [UFixed.bits_satMul, h]
  omega

theorem UFixed.bits_le_satAdd (a b : U96F32) : a.bits ≤ (a.satAdd b).bits := by
  have hlt := a.isLt
  rw [UFixed.bits_satAdd]
  omega

theorem UFixed.bits_safeDiv_le_one {a b : U96F32} (h : a.bits ≤ b.bits) :
    (a.safeDiv b).bits ≤ 2 ^ 32 := by
  refine (UFixed.bits_safeDiv_le a b).trans (Nat.div_le_of_le_mul ?_)
  rw [mul_comm b.bits]
  exact (Nat.mul_le_mul_right _ h).trans_eq (mul_comm _ _)

theorem Word.le_satAdd {w : ℕ} (a b : Word w) : a.val ≤ (a.satAdd b).val := by
  have hlt := a.isLt
  rw [Word.val_satAdd]
  omega

/-! ## The emission of a block -/

theorem emissionMultiplier_one_le (n : ℕ) : 2 ^ 32 ≤ (emissionMultiplier n).bits := by
  induction n with
  | zero => decide +kernel
  | succ n ih =>
      have htwo : (IFixed.ofInt 2 : I96F32).bits = 2 ^ 33 := by decide +kernel
      have hstep : emissionMultiplier (n + 1) = (emissionMultiplier n).satMul (.ofInt 2) :=
        Function.iterate_succ_apply' _ _ _
      rw [hstep, IFixed.satMul, htwo, IFixed.bits_sat]
      omega

theorem toWord_sat_le {z : ℤ} (h0 : 0 ≤ z) (h : z ≤ 1000000000 * 2 ^ 32) :
    ((IFixed.sat z : I96F32).toWord 64).val ≤ 1000000000 := by
  have hbits : (IFixed.sat z : I96F32).bits = z := IFixed.bits_sat_of_mem (by omega) (by omega)
  refine (Word.val_sat_le _).trans ?_
  rw [hbits]
  omega

theorem safeDiv_one_bounds {b : I96F32} (h : 2 ^ 32 ≤ b.bits) :
    0 ≤ ((IFixed.ofInt 1 : I96F32).safeDiv b).bits ∧
      ((IFixed.ofInt 1 : I96F32).safeDiv b).bits ≤ 2 ^ 32 := by
  have hone : (IFixed.ofInt 1 : I96F32).bits = (2 ^ 32 : ℕ) := by decide +kernel
  obtain ⟨m, hm⟩ : ∃ m : ℕ, b.bits = m := Int.eq_ofNat_of_zero_le (by omega)
  have hm32 : 2 ^ 32 ≤ m := by omega
  have hquotient : 2 ^ 32 * 2 ^ 32 / m ≤ 2 ^ 32 :=
    Nat.div_le_of_le_mul (Nat.mul_le_mul_right _ hm32)
  obtain ⟨q, hq, hbits⟩ := IFixed.checkedDiv_of_nat hone hm (by omega)
    (lt_of_le_of_lt hquotient (by norm_num))
  rw [IFixed.safeDiv, hq, Option.getD_some, hbits]
  exact ⟨Int.natCast_nonneg _, by exact_mod_cast hquotient⟩

/-- No block emits more than one TAO, whatever the residual. -/
theorem emissionForResidual_le (residual : I96F32) :
    (emissionForResidual residual).val ≤ 1000000000 := by
  have hrao : (IFixed.ofInt 1000000000 : I96F32).bits = 1000000000 * 2 ^ 32 := by decide +kernel
  obtain ⟨h0, hone⟩ := safeDiv_one_bounds (emissionMultiplier_one_le (residual.toWord 64).val)
  unfold emissionForResidual IFixed.satMul
  rw [hrao]
  exact toWord_sat_le (by omega) (by omega)

theorem blockEmissionForIssuance_le (log2 : I96F32 → Option I96F32) (issuance : U64) :
    ((blockEmissionForIssuance log2 issuance).getD 0).val ≤ 1000000000 ∧
      (totalSupply.val ≤ issuance.val →
        ((blockEmissionForIssuance log2 issuance).getD 0).val = 0) := by
  unfold blockEmissionForIssuance
  split_ifs with h
  · simp
  · refine ⟨?_, fun hle => absurd hle h⟩
    cases (residualArgument issuance).bind log2 with
    | none => simp
    | some residual => exact emissionForResidual_le residual

namespace Chain

variable {A B P : Type} {rt : Runtime A B P} {chain chain₁ chain' : Chain A B P} {netuid : NetUid}

/-! ## The terms of a subnet -/

theorem alphaOut_eq (blockEmission : U96F32) :
    (chain.emissionTerms rt blockEmission netuid).alphaOut =
      .ofNat ((blockEmissionForIssuance rt.log2 (chain.getAlphaIssuance netuid)).getD 0).val := rfl

/-- All of `alpha_out` is added: below the supply there is room for it. -/
theorem injection_subnetAlphaOut (blockEmission : U96F32) (h : netuid ∈ chain.subnetsToEmitTo) :
    ((chain.injection rt blockEmission).reserves netuid).subnetAlphaOut.val =
      (chain.reserves netuid).subnetAlphaOut.val +
        ((chain.emissionTerms rt blockEmission netuid).alphaOut.toWord 64).val := by
  rw [injection_reserves, if_pos h]
  refine Word.val_satAdd_of_lt ?_
  rw [alphaOut_eq]
  obtain ⟨hle, hzero⟩ := blockEmissionForIssuance_le rt.log2 (chain.getAlphaIssuance netuid)
  generalize (blockEmissionForIssuance rt.log2 (chain.getAlphaIssuance netuid)).getD 0 = e at *
  have hword : ((UFixed.ofNat e.val : U96F32).toWord 64).val = e.val := by
    have hlt := e.isLt
    rw [UFixed.toWord, UFixed.bits_ofNat_of_lt (by omega),
      Nat.mul_div_cancel _ (by norm_num), Word.val_sat_of_lt hlt]
  rw [hword]
  have hout := (chain.reserves netuid).subnetAlphaOut.isLt
  by_cases hsupply : totalSupply.val ≤ (chain.getAlphaIssuance netuid).val
  · rw [hzero hsupply]
    omega
  · rw [totalSupply_val, getAlphaIssuance, Word.val_satAdd] at hsupply
    omega

/-- The owner takes at most everything: the cut is a part of `u16::MAX`. -/
theorem bits_ownerCut_le (chain : Chain A B P) (alphaOut : U96F32) :
    (chain.ownerCut alphaOut).bits ≤ alphaOut.bits := by
  have hcut := chain.params.subnetOwnerCut.isLt
  refine UFixed.bits_satMul_le_of_le_one (UFixed.bits_safeDiv_le_one ?_)
  rw [UFixed.bits_ofNat_of_lt (by omega), UFixed.bits_ofNat_of_lt (by norm_num)]
  exact Nat.mul_le_mul_right _ (by omega)

/-- The part of root is half of a share of what the owner leaves. -/
theorem rootAlpha_eq (chain : Chain A B P) (netuid : NetUid) (alphaOut : U96F32) :
    ∃ proportion : U96F32, proportion.bits ≤ 2 ^ 32 ∧
      chain.rootAlpha netuid alphaOut =
        (proportion.satMul alphaOut).satMul ⟨2 ^ 31, half_lt⟩ :=
  ⟨_, UFixed.bits_safeDiv_le_one (UFixed.bits_le_satAdd _ _), rfl⟩

/-- Root earns at most half of what the owner leaves. -/
theorem bits_rootAlpha_le (chain : Chain A B P) (netuid : NetUid) (alphaOut : U96F32) :
    2 * (chain.rootAlpha netuid alphaOut).bits ≤ alphaOut.bits := by
  obtain ⟨proportion, hone, heq⟩ := chain.rootAlpha_eq netuid alphaOut
  rw [heq]
  exact (UFixed.bits_satMul_half_le _ rfl).trans (UFixed.bits_satMul_le_of_le_one' hone)

/-! ## What accrues -/

structure PendingAlpha where
  ownerCut : U64
  swapped : U64
  emission : U64

def pendingAlphaOf (chain : Chain A B P) (netuid : NetUid) : PendingAlpha where
  ownerCut := chain.pending.pendingOwnerCut netuid
  swapped := chain.pending.pendingAlphaSwapped netuid
  emission := chain.pending.pendingEmission netuid

/-- Nothing is taken out, and at most an amount each is added. -/
structure PendingAlpha.Adds (p p' : PendingAlpha) (cut root rest : ℕ) : Prop where
  ownerCut : p.ownerCut.val ≤ p'.ownerCut.val
  swapped : p.swapped.val ≤ p'.swapped.val
  emission : p.emission.val ≤ p'.emission.val
  ownerCut_le : p'.ownerCut.val ≤ p.ownerCut.val + cut
  swapped_le : p'.swapped.val ≤ p.swapped.val + root
  emission_le : p'.emission.val ≤ p.emission.val + rest

/-- What was pending grows by at most `alphaOut` altogether. -/
structure PendingAlpha.Splits (p p' : PendingAlpha) (alphaOut : ℕ) : Prop where
  ownerCut : p.ownerCut.val ≤ p'.ownerCut.val
  swapped : p.swapped.val ≤ p'.swapped.val
  emission : p.emission.val ≤ p'.emission.val
  sum_le : p'.ownerCut.val + p'.swapped.val + p'.emission.val ≤
    p.ownerCut.val + p.swapped.val + p.emission.val + alphaOut

theorem PendingAlpha.Adds.splits {p p₁ p' : PendingAlpha} {cut root rest alphaOut : ℕ}
    (hcut : p.Adds p₁ cut 0 0) (hsale : p₁.Adds p' 0 root rest)
    (h : cut + root + rest ≤ alphaOut) :
    p.Splits p' alphaOut := by
  obtain ⟨h₁, h₂, h₃, h₄, h₅, h₆⟩ := hcut
  obtain ⟨g₁, g₂, g₃, g₄, g₅, g₆⟩ := hsale
  constructor <;> omega

theorem addPendingOwnerCut_adds (terms : NetUid → EmissionTerms) (chain : Chain A B P)
    (netuid : NetUid) :
    (chain.pendingAlphaOf netuid).Adds
      ((addPendingOwnerCut terms chain netuid).pendingAlphaOf netuid)
      ((chain.ownerCut (terms netuid).alphaOut).toWord 64).val 0 0 := by
  have hcut : ((addPendingOwnerCut terms chain netuid).pendingAlphaOf netuid).ownerCut =
      (chain.pending.pendingOwnerCut netuid).satAdd
        ((chain.ownerCut (terms netuid).alphaOut).toWord 64) := Function.update_self _ _ _
  have hlt := (chain.pending.pendingOwnerCut netuid).isLt
  constructor
  · rw [hcut, Word.val_satAdd]
    show (chain.pending.pendingOwnerCut netuid).val ≤ _
    omega
  · exact le_rfl
  · exact le_rfl
  · rw [hcut]
    exact Word.val_sat_le _
  · exact le_rfl
  · exact le_rfl

theorem addPendingOwnerCut_of_ne (terms : NetUid → EmissionTerms) (chain : Chain A B P)
    {n : NetUid} (hn : n ≠ netuid) :
    (addPendingOwnerCut terms chain n).pendingAlphaOf netuid = chain.pendingAlphaOf netuid := by
  unfold addPendingOwnerCut withPending pendingAlphaOf
  simp only [Function.update_of_ne hn.symm]

/-- What is left for root and for the subnet when the owner took the cut. -/
def remainingAlpha (chain : Chain A B P) (terms : NetUid → EmissionTerms) (netuid : NetUid) :
    U96F32 :=
  (terms netuid).alphaOut.satSub (chain.ownerCut (terms netuid).alphaOut)

theorem swapAlphaForTao_params {alpha priceLimit : U64} {result : Except Error Swap.SwapResult}
    (h : chain.swapAlphaForTao rt netuid alpha priceLimit = (chain', result)) :
    chain'.params = chain.params := by
  rcases swapAlphaForTao_cases rt chain netuid alpha priceLimit with
    ⟨-, heq⟩ | ⟨-, swap, result', -, ⟨e, -, heq⟩ | ⟨r, -, heq⟩⟩
  all_goals
    rw [heq] at h
    cases h
    rfl

/-- A failed sale leaves what is pending, a sale adds root alpha and the rest. -/
theorem sellRootAlpha_pending (rt : Runtime A B P) (terms : NetUid → EmissionTerms)
    (chain : Chain A B P) (netuid : NetUid) :
    (sellRootAlpha rt terms chain netuid).params = chain.params ∧
      ((sellRootAlpha rt terms chain netuid).pending = chain.pending ∨
        ∃ rootTao, (sellRootAlpha rt terms chain netuid).pending =
          addPendingEmission netuid
            ((chain.rootAlpha netuid (chain.remainingAlpha terms netuid)).toWord 64)
            (((chain.remainingAlpha terms netuid).satSub
              (chain.rootAlpha netuid (chain.remainingAlpha terms netuid))).toWord 64)
            rootTao chain.pending) := by
  unfold sellRootAlpha
  rcases hsold : chain.swapAlphaForTao rt netuid ((chain.rootAlpha netuid
    ((terms netuid).alphaOut.satSub (chain.ownerCut (terms netuid).alphaOut))).toWord 64)
    rt.swap.minPrice with ⟨chain₁, e | result⟩
  all_goals
    have hpending := swapAlphaForTao_pending hsold
    have hparams := swapAlphaForTao_params hsold
    simp only [hsold]
  · exact ⟨hparams, Or.inl hpending⟩
  · refine ⟨hparams, Or.inr ⟨result.amountPaidOut, ?_⟩⟩
    rw [← hpending]
    rfl

theorem sellRootAlpha_adds (rt : Runtime A B P) (terms : NetUid → EmissionTerms)
    (chain : Chain A B P) (netuid : NetUid) :
    (chain.pendingAlphaOf netuid).Adds ((sellRootAlpha rt terms chain netuid).pendingAlphaOf netuid)
      0 ((chain.rootAlpha netuid (chain.remainingAlpha terms netuid)).toWord 64).val
      (((chain.remainingAlpha terms netuid).satSub
        (chain.rootAlpha netuid (chain.remainingAlpha terms netuid))).toWord 64).val := by
  unfold pendingAlphaOf
  obtain ⟨-, hpending | ⟨rootTao, hpending⟩⟩ := sellRootAlpha_pending rt terms chain netuid
  · rw [hpending]
    exact ⟨le_rfl, le_rfl, le_rfl, Nat.le_add_right _ _, Nat.le_add_right _ _,
      Nat.le_add_right _ _⟩
  · rw [hpending, addPendingEmission]
    simp only [Function.update_self]
    generalize (chain.rootAlpha netuid (chain.remainingAlpha terms netuid)).toWord 64 = root
    generalize ((chain.remainingAlpha terms netuid).satSub
      (chain.rootAlpha netuid (chain.remainingAlpha terms netuid))).toWord 64 = rest
    exact ⟨le_rfl, Word.le_satAdd _ _, Word.le_satAdd _ _, le_rfl, Word.val_sat_le _,
      Word.val_sat_le _⟩

theorem sellRootAlpha_of_ne (rt : Runtime A B P) (terms : NetUid → EmissionTerms)
    (chain : Chain A B P) {n : NetUid} (hn : n ≠ netuid) :
    (sellRootAlpha rt terms chain n).pendingAlphaOf netuid = chain.pendingAlphaOf netuid := by
  unfold pendingAlphaOf
  obtain ⟨-, hpending | ⟨rootTao, hpending⟩⟩ := sellRootAlpha_pending rt terms chain n
  · rw [hpending]
  · rw [hpending, addPendingEmission]
    simp only [Function.update_of_ne hn.symm]

/-! ## A whole phase -/

theorem foldl_of_notMem {V : Type} {f : Chain A B P → NetUid → Chain A B P}
    (v : Chain A B P → V) (hother : ∀ c n, n ≠ netuid → v (f c n) = v c) {l : List NetUid}
    (h : netuid ∉ l) : v (l.foldl f chain) = v chain := by
  induction l generalizing chain with
  | nil => rfl
  | cons n l ih =>
      rw [List.mem_cons, not_or] at h
      exact (ih h.2).trans (hother chain n (Ne.symm h.1))

/-- In a loop over distinct subnets, what belongs to a subnet changes in its
own turn only; `p` is kept by every turn. -/
theorem foldl_at {V : Type} {f : Chain A B P → NetUid → Chain A B P} (v : Chain A B P → V)
    (R : V → V → Prop) (p : Chain A B P → Prop) {l : List NetUid} (hnodup : l.Nodup)
    (hmem : netuid ∈ l) (hkeep : ∀ c n, p c → p (f c n))
    (hother : ∀ c n, n ≠ netuid → v (f c n) = v c)
    (hstep : ∀ c, p c → R (v c) (v (f c netuid))) (hp : p chain) :
    R (v chain) (v (l.foldl f chain)) := by
  induction l generalizing chain with
  | nil => cases hmem
  | cons n l ih =>
      obtain ⟨hnotin, hnodup⟩ := List.nodup_cons.mp hnodup
      rcases List.mem_cons.mp hmem with rfl | hmem
      · rw [List.foldl_cons, foldl_of_notMem v hother hnotin]
        exact hstep chain hp
      · have hne : n ≠ netuid := by
          rintro rfl
          exact hnotin hmem
        have hview := ih hnodup hmem (hkeep chain n hp)
        rwa [hother chain n hne] at hview

theorem injection_pending (blockEmission : U96F32) :
    (chain.injection rt blockEmission).pending = chain.pending := by
  have hinject := foldl_keeps (f := inject rt (chain.emissionTerms rt blockEmission))
    (fun c : Chain A B P => c.pending) fun _ _ => rfl
  have hrecord := foldl_keeps (f := fun (c : Chain A B P) n =>
    c.recordBlockEmission rt (chain.getAlphaIssuance n)) (fun c => c.pending)
    fun _ _ => recordBlockEmission_pending _
  exact (hinject _ _).trans (hrecord _ _)

/-- The parts of the alpha of an emitting subnet, after both loops. -/
theorem rootSale_splits {terms : NetUid → EmissionTerms} {emitting : List NetUid}
    (hnodup : emitting.Nodup) (hmem : netuid ∈ emitting)
    (hout : (terms netuid).alphaOut.bits < 2 ^ 96) :
    (chain.pendingAlphaOf netuid).Splits
      ((chain.rootSale rt emitting terms).pendingAlphaOf netuid)
      ((terms netuid).alphaOut.toWord 64).val := by
  have hcut : ∀ c : Chain A B P, c.params = chain.params →
      c.ownerCut (terms netuid).alphaOut = chain.ownerCut (terms netuid).alphaOut := by
    intro c hc
    unfold ownerCut
    rw [hc]
  have hcuts : (chain.pendingAlphaOf netuid).Adds
      ((emitting.foldl (addPendingOwnerCut terms) chain).pendingAlphaOf netuid)
      ((chain.ownerCut (terms netuid).alphaOut).toWord 64).val 0 0 :=
    foldl_at (fun c => c.pendingAlphaOf netuid)
      (fun p p' => p.Adds p' ((chain.ownerCut (terms netuid).alphaOut).toWord 64).val 0 0)
      (fun c => c.params = chain.params) hnodup hmem (fun _ _ hc => hc)
      (fun c n hn => addPendingOwnerCut_of_ne terms c hn)
      (fun c hc => hcut c hc ▸ addPendingOwnerCut_adds terms c netuid) rfl
  have hparams : (emitting.foldl (addPendingOwnerCut terms) chain).params = chain.params :=
    foldl_keeps (f := addPendingOwnerCut terms) (fun c : Chain A B P => c.params)
      (fun _ _ => rfl) emitting chain
  -- what root and the subnet get fits beside the cut, whatever the state of the sale
  have hsales : ∃ root rest, ((chain.ownerCut (terms netuid).alphaOut).toWord 64).val + root +
      rest ≤ ((terms netuid).alphaOut.toWord 64).val ∧
        ((emitting.foldl (addPendingOwnerCut terms) chain).pendingAlphaOf netuid).Adds
          ((chain.rootSale rt emitting terms).pendingAlphaOf netuid) 0 root rest := by
    refine foldl_at (fun c => c.pendingAlphaOf netuid)
      (fun p p' => ∃ root rest, ((chain.ownerCut (terms netuid).alphaOut).toWord 64).val + root +
        rest ≤ ((terms netuid).alphaOut.toWord 64).val ∧ p.Adds p' 0 root rest)
      (fun c => c.params = chain.params) hnodup hmem
      (fun c n hc => (sellRootAlpha_pending rt terms c n).1.trans hc)
      (fun c n hn => sellRootAlpha_of_ne rt terms c hn) ?_ hparams
    intro c hc
    refine ⟨_, _, ?_, sellRootAlpha_adds rt terms c netuid⟩
    have hroot := c.bits_rootAlpha_le netuid (c.remainingAlpha terms netuid)
    unfold remainingAlpha at hroot ⊢
    rw [hcut c hc] at hroot ⊢
    exact UFixed.toWord_parts_le (chain.bits_ownerCut_le _) (by omega) hout
  obtain ⟨root, rest, hle, hsale⟩ := hsales
  exact hcuts.splits hsale hle

/-- In one block: each emitting subnet splits the alpha it was given. -/
theorem accrual_splits (blockEmission : U96F32) (h : netuid ∈ chain.subnetsToEmitTo) :
    ∃ alphaOut, ((chain.injection rt blockEmission).reserves netuid).subnetAlphaOut.val =
        (chain.reserves netuid).subnetAlphaOut.val + alphaOut ∧
      (chain.pendingAlphaOf netuid).Splits
        (((chain.injection rt blockEmission).rootSale rt chain.subnetsToEmitTo
          (chain.emissionTerms rt blockEmission)).pendingAlphaOf netuid) alphaOut := by
  have hnodup : chain.subnetsToEmitTo.Nodup := (chain.networksAdded.keys_nodup.filter _).filter _
  have hout : (chain.emissionTerms rt blockEmission netuid).alphaOut.bits < 2 ^ 96 := by
    obtain ⟨hle, -⟩ := blockEmissionForIssuance_le rt.log2 (chain.getAlphaIssuance netuid)
    rw [alphaOut_eq, UFixed.bits_ofNat_of_lt (by omega)]
    omega
  have hpending : (chain.injection rt blockEmission).pendingAlphaOf netuid =
      chain.pendingAlphaOf netuid := by
    unfold pendingAlphaOf
    rw [injection_pending]
  refine ⟨_, injection_subnetAlphaOut blockEmission h, ?_⟩
  rw [← hpending]
  exact rootSale_splits hnodup h hout

/-! ## Runs -/

/-- The alpha that was sold for root is at most what is pending besides. -/
def SwappedWithinEmission (chain : Chain A B P) : Prop :=
  ∀ n, (chain.pending.pendingAlphaSwapped n).val ≤ (chain.pending.pendingEmission n).val

theorem SwappedWithinEmission.of_pending (h : chain.SwappedWithinEmission)
    (hpending : chain'.pending = chain.pending) : chain'.SwappedWithinEmission := by
  unfold SwappedWithinEmission
  rwa [hpending]

theorem SwappedWithinEmission.sellRootAlpha {terms : NetUid → EmissionTerms}
    (h : chain.SwappedWithinEmission) :
    (sellRootAlpha rt terms chain netuid).SwappedWithinEmission := by
  obtain ⟨-, hpending | ⟨rootTao, hpending⟩⟩ := sellRootAlpha_pending rt terms chain netuid
  · exact h.of_pending hpending
  · intro n
    rw [hpending, addPendingEmission]
    by_cases hn : n = netuid
    · subst hn
      have hroot := chain.bits_rootAlpha_le n (chain.remainingAlpha terms n)
      have hword := UFixed.toWord_mono (a := chain.rootAlpha n (chain.remainingAlpha terms n))
        (b := (chain.remainingAlpha terms n).satSub
          (chain.rootAlpha n (chain.remainingAlpha terms n)))
        (by rw [UFixed.bits_satSub]; omega)
      have hle := h n
      simp only [Function.update_self, Word.val_satAdd]
      omega
    · simp only [Function.update_of_ne hn]
      exact h n

variable [DecidableEq A] {epoch : Epoch A B P}

theorem drainIfDue_pending (rt : Runtime A B P) (epoch : Epoch A B P) (chain : Chain A B P)
    (netuid : NetUid) :
    (drainIfDue rt epoch chain netuid).pending = chain.pending ∨
      (drainIfDue rt epoch chain netuid).pending = clearPending netuid chain.pending := by
  unfold drainIfDue
  split_ifs
  · exact Or.inr drainPendingEmission_pays.pending
  · exact Or.inl rfl

theorem SwappedWithinEmission.drainIfDue (h : chain.SwappedWithinEmission) :
    (drainIfDue rt epoch chain netuid).SwappedWithinEmission := by
  rcases drainIfDue_pending rt epoch chain netuid with hpending | hpending
  · exact h.of_pending hpending
  · intro n
    rw [hpending, clearPending]
    by_cases hn : n = netuid
    · subst hn
      simp only [Function.update_self, le_refl]
    · simp only [Function.update_of_ne hn]
      exact h n

theorem SwappedWithinEmission.runCoinbase (h : chain.SwappedWithinEmission)
    (blockEmission : U96F32) :
    (chain.runCoinbase rt epoch blockEmission).SwappedWithinEmission := by
  refine runCoinbase_induction (motive := SwappedWithinEmission) blockEmission h ?_ ?_ ?_ ?_ ?_ ?_
  · intro c issuance hc
    exact hc.of_pending (recordBlockEmission_pending issuance)
  · intro c terms n _ hc
    exact hc.of_pending rfl
  · intro c terms n hc
    exact hc
  · intro c terms n _ hc
    exact hc.sellRootAlpha
  · intro c n hc
    exact hc.of_pending rfl
  · intro c n _ hc
    exact hc.drainIfDue

/-- A block of a run, or anything between two blocks that leaves alone what is
pending. -/
inductive PendingStep (rt : Runtime A B P) : Chain A B P → Chain A B P → Prop where
  | block {chain : Chain A B P} (epoch : Epoch A B P) (blockEmission : U96F32) :
      PendingStep rt chain (chain.runCoinbase rt epoch blockEmission)
  | other {chain chain' : Chain A B P} : chain'.pending = chain.pending →
      PendingStep rt chain chain'

theorem SwappedWithinEmission.of_run (h : chain.SwappedWithinEmission)
    (hrun : Relation.ReflTransGen (PendingStep rt) chain chain') :
    chain'.SwappedWithinEmission := by
  induction hrun with
  | refl => exact h
  | tail _ hstep ih =>
      cases hstep with
      | block epoch blockEmission => exact ih.runCoinbase blockEmission
      | other hpending => exact ih.of_pending hpending

/-- After the sales, a block takes out everything that is pending on a subnet or
leaves it. -/
theorem runCoinbase_pendingAlphaOf (epoch : Epoch A B P) (blockEmission : U96F32)
    (netuid : NetUid) :
    (chain.runCoinbase rt epoch blockEmission).pendingAlphaOf netuid =
        ((chain.injection rt blockEmission).rootSale rt chain.subnetsToEmitTo
          (chain.emissionTerms rt blockEmission)).pendingAlphaOf netuid ∨
      (chain.runCoinbase rt epoch blockEmission).pendingAlphaOf netuid = ⟨0, 0, 0⟩ := by
  unfold runCoinbase
  extract_lets sold priced
  have hpriced : priced.pendingAlphaOf netuid = sold.pendingAlphaOf netuid :=
    foldl_keeps (f := updateMovingPrice rt) (fun c => c.pendingAlphaOf netuid) (fun _ _ => rfl) _ _
  refine List.foldlRecOn (motive := fun c : Chain A B P =>
    c.pendingAlphaOf netuid = sold.pendingAlphaOf netuid ∨
      c.pendingAlphaOf netuid = ⟨0, 0, 0⟩)
    _ _ (Or.inl hpriced) ?_
  intro c hc n _
  rcases drainIfDue_pending rt epoch c n with hpending | hpending
  · unfold pendingAlphaOf at hc ⊢
    rwa [hpending]
  · by_cases hn : netuid = n
    · subst hn
      refine Or.inr ?_
      unfold pendingAlphaOf
      rw [hpending, clearPending]
      simp only [Function.update_self]
    · unfold pendingAlphaOf at hc ⊢
      rw [hpending, clearPending]
      simpa only [Function.update_of_ne hn] using hc

/-- **The alpha of a block is split, not multiplied.** In every block, what an
emitting subnet adds to its owner cut, to the alpha it sells for root and to
its pending emission is altogether at most what was added to its
`SubnetAlphaOut`, and the rest of the block leaves it or takes all of it out.
In every run the alpha that was sold stays within the pending emission. -/
theorem pendingAlpha_split (rt : Runtime A B P) :
    (∀ (chain : Chain A B P) (epoch : Epoch A B P) (blockEmission : U96F32) (netuid : NetUid),
      netuid ∈ chain.subnetsToEmitTo →
        ∃ alphaOut accrued,
          ((chain.injection rt blockEmission).reserves netuid).subnetAlphaOut.val =
            (chain.reserves netuid).subnetAlphaOut.val + alphaOut ∧
          accrued = ((chain.injection rt blockEmission).rootSale rt chain.subnetsToEmitTo
            (chain.emissionTerms rt blockEmission)).pendingAlphaOf netuid ∧
          (chain.pendingAlphaOf netuid).Splits accrued alphaOut ∧
          ((chain.runCoinbase rt epoch blockEmission).pendingAlphaOf netuid = accrued ∨
            (chain.runCoinbase rt epoch blockEmission).pendingAlphaOf netuid = ⟨0, 0, 0⟩)) ∧
      ∀ chain chain' : Chain A B P, Relation.ReflTransGen (PendingStep rt) chain chain' →
        chain.SwappedWithinEmission → chain'.SwappedWithinEmission := by
  constructor
  · intro chain epoch blockEmission netuid hmem
    obtain ⟨alphaOut, hout, hsplits⟩ := accrual_splits blockEmission hmem
    exact ⟨alphaOut, _, hout, rfl, hsplits,
      runCoinbase_pendingAlphaOf epoch blockEmission netuid⟩
  · intro chain chain' hrun h
    exact h.of_run hrun

theorem pendingAlpha_split_smallChain :
    (smallChain.runCoinbase runtime idleEpoch (.ofNat 1000000000)).SwappedWithinEmission ∧
      ∃ alphaOut accrued,
        ((smallChain.injection runtime (.ofNat 1000000000)).reserves (.sat 1)).subnetAlphaOut.val =
          (smallChain.reserves (.sat 1)).subnetAlphaOut.val + alphaOut ∧
        (smallChain.pendingAlphaOf (.sat 1)).Splits accrued alphaOut := by
  obtain ⟨hsplit, hrun⟩ := pendingAlpha_split runtime
  refine ⟨hrun smallChain _ (.single (.block idleEpoch _)) ?_, ?_⟩
  · intro n
    exact le_rfl
  · obtain ⟨alphaOut, accrued, hout, -, hsplits, -⟩ :=
      hsplit smallChain idleEpoch (.ofNat 1000000000) (.sat 1) (by decide +kernel)
    exact ⟨alphaOut, accrued, hout, hsplits⟩

end Chain

end Subtensor
