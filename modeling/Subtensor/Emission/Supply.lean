import Subtensor.Emission.Frame
import Subtensor.Lib.Shares
import Subtensor.Pallet.Instances

/-!
# The supply caps

A block raises `TotalIssuance` by the TAO that it injects. The shares of the
subnets are quotients that are rounded down, so they sum to at most the
emission of the block, as long as the sum of the moving prices is not clamped;
when it is clamped, a share is at most one RAO. Either way the total supply is
never passed, and neither is it by the alpha of a subnet.
-/

namespace Subtensor.Chain

open Lib

variable {A B P : Type}

/-! ## The TAO of a block -/

/-- There are at most `2 ^ 16` subnets. -/
theorem subnetsToEmitTo_length (chain : Chain A B P) : chain.subnetsToEmitTo.length ≤ 65536 := by
  have hnodup : (chain.networksAdded.keys.map (·.val)).Nodup := by
    apply List.Nodup.map
    · intro a b hab
      exact Word.ext hab
    · exact chain.networksAdded.keys_nodup
  have hsub : chain.networksAdded.keys.map (·.val) ⊆ List.range 65536 := by
    intro n hn
    obtain ⟨a, -, rfl⟩ := List.mem_map.mp hn
    exact List.mem_range.mpr a.isLt
  have hlength := (List.subperm_of_subset hnodup hsub).length_le
  rw [List.length_map, List.length_range] at hlength
  exact ((List.length_filter_le _ _).trans (List.length_filter_le _ _)).trans hlength

/-- The TAO that a subnet gets in a block with the emission `e`. -/
def taoInjected (rt : Runtime A B P) (chain : Chain A B P) (e : U64) (netuid : NetUid) : ℕ :=
  ((chain.emissionTerms rt (.ofNat e.val) netuid).taoIn.toWord 64).val

def totalTaoInjected (rt : Runtime A B P) (chain : Chain A B P) (e : U64) : ℕ :=
  (chain.subnetsToEmitTo.map (chain.taoInjected rt e)).sum

variable {rt : Runtime A B P} {chain chain' : Chain A B P} {netuid : NetUid} {e : U64}

theorem taoIn_bits_le :
    (chain.emissionTerms rt (.ofNat e.val) netuid).taoIn.bits ≤
      ((UFixed.ofNat e.val : U96F32).satMul (chain.getMovingAlphaPrice netuid)).bits * 2 ^ 32 /
        chain.totalMovingPrices.bits := by
  unfold emissionTerms
  simp only
  split_ifs
  · exact Nat.zero_le _
  · exact UFixed.bits_safeDiv_le _ _

theorem taoInjected_le_div : chain.taoInjected rt e netuid ≤
    e.val * (chain.getMovingAlphaPrice netuid).bits / chain.totalMovingPrices.bits := by
  have he : (UFixed.ofNat e.val : U96F32).bits = e.val * 2 ^ 32 :=
    UFixed.bits_ofNat_of_lt (lt_of_lt_of_le e.isLt (by norm_num))
  have hmul : ((UFixed.ofNat e.val : U96F32).satMul (chain.getMovingAlphaPrice netuid)).bits ≤
      e.val * (chain.getMovingAlphaPrice netuid).bits := by
    refine (UFixed.bits_sat_le _).trans ?_
    rw [he, Nat.mul_right_comm, Nat.mul_div_cancel _ (by norm_num)]
  have hbits : (chain.emissionTerms rt (.ofNat e.val) netuid).taoIn.bits ≤
      e.val * (chain.getMovingAlphaPrice netuid).bits * 2 ^ 32 / chain.totalMovingPrices.bits :=
    taoIn_bits_le.trans (Nat.div_le_div_right (Nat.mul_le_mul_right (2 ^ 32) hmul))
  refine (Word.val_sat_le _).trans ((Nat.div_le_div_right hbits).trans ?_)
  rw [Nat.div_div_eq_div_mul, Nat.mul_div_mul_right _ _ (by norm_num)]

/-- When the sum of the prices is clamped, a share is at most one RAO. -/
theorem taoInjected_le_one (h : chain.totalMovingPrices.bits = 2 ^ 128 - 1) :
    chain.taoInjected rt e netuid ≤ 1 := by
  have hmul := ((UFixed.ofNat e.val : U96F32).satMul (chain.getMovingAlphaPrice netuid)).isLt
  have hbits : (chain.emissionTerms rt (.ofNat e.val) netuid).taoIn.bits ≤ 2 ^ 32 := by
    refine taoIn_bits_le.trans ?_
    rw [h]
    exact Nat.div_le_of_le_mul (by omega)
  exact (Word.val_sat_le _).trans ((Nat.div_le_div_right hbits).trans (by norm_num))

/-- **The TAO of a block.** It is at most the emission, when the sum of the
moving prices is in the range of its type. -/
theorem totalTaoInjected_le
    (h : (chain.subnetsToEmitTo.map fun n => (chain.getMovingAlphaPrice n).bits).sum < 2 ^ 128) :
    chain.totalTaoInjected rt e ≤ e.val := by
  have htotal : (chain.subnetsToEmitTo.map fun n => (chain.getMovingAlphaPrice n).bits).sum ≤
      chain.totalMovingPrices.bits := by
    rw [totalMovingPrices, UFixed.bits_foldl_satAdd, UFixed.bits_zero]
    omega
  refine le_trans (List.sum_le_sum fun n _ => taoInjected_le_div) ?_
  exact sum_div_le (fun n => (chain.getMovingAlphaPrice n).bits) e.val _ _ htotal

/-- In every block the TAO is small against what is left of the supply. -/
theorem totalTaoInjected_le_million : chain.totalTaoInjected rt e ≤ 1000000 * e.val := by
  by_cases h : (chain.subnetsToEmitTo.map fun n => (chain.getMovingAlphaPrice n).bits).sum < 2 ^ 128
  · exact (totalTaoInjected_le h).trans (by omega)
  · have htotal : chain.totalMovingPrices.bits = 2 ^ 128 - 1 := by
      rw [totalMovingPrices, UFixed.bits_foldl_satAdd, UFixed.bits_zero]
      omega
    rcases Nat.eq_zero_or_pos e.val with hzero | hpos
    · have hnone : chain.totalTaoInjected rt e ≤ 0 := by
        refine le_trans (List.sum_le_sum fun n _ => taoInjected_le_div) ?_
        rw [hzero]
        simp
      omega
    · have hcount : chain.totalTaoInjected rt e ≤ 1 * chain.subnetsToEmitTo.length :=
        sum_map_le_mul_length _ 1 _ fun n _ => taoInjected_le_one htotal
      have hlength := chain.subnetsToEmitTo_length
      omega

/-! ## The injection -/

theorem inject_totalIssuance {terms : NetUid → EmissionTerms} :
    (inject rt terms chain netuid).ledger.totalIssuance =
      chain.ledger.totalIssuance.satAdd ((terms netuid).taoIn.toWord 64) := rfl

theorem foldl_inject_totalIssuance {terms : NetUid → EmissionTerms} {l : List NetUid}
    (h : chain.ledger.totalIssuance.val +
      (l.map fun n => ((terms n).taoIn.toWord 64).val).sum < 2 ^ 64) :
    (l.foldl (inject rt terms) chain).ledger.totalIssuance.val =
      chain.ledger.totalIssuance.val + (l.map fun n => ((terms n).taoIn.toWord 64).val).sum := by
  induction l generalizing chain with
  | nil => rfl
  | cons n l ih =>
      simp only [List.map_cons, List.sum_cons] at h ⊢
      have hval : (inject rt terms chain n).ledger.totalIssuance.val =
          chain.ledger.totalIssuance.val + ((terms n).taoIn.toWord 64).val := by
        rw [inject_totalIssuance]
        exact Word.val_satAdd_of_lt (by omega)
      rw [List.foldl_cons, ih (by rw [hval]; omega), hval]
      omega

/-- A block raises the total issuance by the TAO that it injects. -/
theorem injection_totalIssuance
    (h : chain.ledger.totalIssuance.val + chain.totalTaoInjected rt e < 2 ^ 64) :
    (chain.injection rt (.ofNat e.val)).ledger.totalIssuance.val =
      chain.ledger.totalIssuance.val + chain.totalTaoInjected rt e := by
  have hrecord := foldl_keeps (f := fun (c : Chain A B P) netuid =>
      c.recordBlockEmission rt (chain.getAlphaIssuance netuid))
    (fun c => c.ledger) (fun _ _ => recordBlockEmission_ledger _) chain.subnetsToEmitTo chain
  unfold injection
  rw [foldl_inject_totalIssuance]
  · rw [hrecord]
    rfl
  · rw [hrecord]
    exact h

/-! ## The alpha of a subnet -/

theorem foldl_inject_reserves {terms : NetUid → EmissionTerms} {l : List NetUid}
    (hnodup : l.Nodup) :
    (l.foldl (inject rt terms) chain).reserves netuid =
      if netuid ∈ l then injectReserves (terms netuid) (chain.reserves netuid)
      else chain.reserves netuid := by
  induction l generalizing chain with
  | nil => rfl
  | cons n l ih =>
      obtain ⟨hnotin, hnodup⟩ := List.nodup_cons.mp hnodup
      rw [List.foldl_cons, ih hnodup]
      by_cases hn : netuid = n
      · subst hn
        rw [if_neg hnotin, if_pos List.mem_cons_self]
        exact Function.update_self _ _ _
      · have hreserves : (inject rt terms chain n).reserves netuid = chain.reserves netuid :=
          Function.update_of_ne hn _ _
        rw [hreserves]
        simp only [List.mem_cons, hn, false_or]

theorem recordBlockEmission_reserves (issuance : U64) :
    (chain.recordBlockEmission rt issuance).reserves = chain.reserves := by
  unfold recordBlockEmission
  split_ifs
  · rfl
  · cases blockEmissionForIssuance rt.log2 issuance with
    | none => rfl
    | some emission => rfl

theorem injection_reserves {blockEmission : U96F32} :
    (chain.injection rt blockEmission).reserves netuid =
      if netuid ∈ chain.subnetsToEmitTo then
        injectReserves (chain.emissionTerms rt blockEmission netuid) (chain.reserves netuid)
      else chain.reserves netuid := by
  have hrecord := foldl_keeps (f := fun (c : Chain A B P) netuid =>
      c.recordBlockEmission rt (chain.getAlphaIssuance netuid))
    (fun c => c.reserves) (fun _ _ => recordBlockEmission_reserves _) chain.subnetsToEmitTo chain
  have hnodup : chain.subnetsToEmitTo.Nodup :=
    (chain.networksAdded.keys_nodup.filter _).filter _
  unfold injection
  rw [foldl_inject_reserves hnodup, hrecord]

/-- The alpha that a subnet gets, in and out, is at most its emission each. -/
theorem alphaTerms_le (blockEmission : U96F32) {alphaEmission : U64}
    (h : blockEmissionForIssuance rt.log2 (chain.getAlphaIssuance netuid) = some alphaEmission) :
    ((chain.emissionTerms rt blockEmission netuid).alphaIn.toWord 64).val ≤ alphaEmission.val ∧
      ((chain.emissionTerms rt blockEmission netuid).alphaOut.toWord 64).val ≤
        alphaEmission.val := by
  have hout : (chain.emissionTerms rt blockEmission netuid).alphaOut =
      .ofNat alphaEmission.val := by
    unfold emissionTerms
    rw [h]
    rfl
  have hin : (chain.emissionTerms rt blockEmission netuid).alphaIn.bits ≤
      (chain.emissionTerms rt blockEmission netuid).alphaOut.bits := by
    unfold emissionTerms UFixed.least
    simp only
    split_ifs with hle
    · exact hle
    · exact le_refl _
  have hbits : (UFixed.ofNat alphaEmission.val : U96F32).bits = alphaEmission.val * 2 ^ 32 :=
    UFixed.bits_ofNat_of_lt (lt_of_lt_of_le alphaEmission.isLt (by norm_num))
  rw [hout, hbits] at hin
  constructor
  · refine (Word.val_sat_le _).trans ?_
    exact Nat.div_le_of_le_mul (by rw [mul_comm]; exact hin)
  · rw [hout]
    refine (Word.val_sat_le _).trans ?_
    rw [hbits, Nat.mul_div_cancel _ (by norm_num)]

/-- The alpha of a subnet does not pass the total supply. -/
theorem injection_alpha_le (hlog : Log2Spec rt.log2) {blockEmission : U96F32}
    (h : (chain.reserves netuid).subnetAlphaIn.val + (chain.reserves netuid).subnetAlphaOut.val <
      totalSupply.val) :
    ((chain.injection rt blockEmission).reserves netuid).subnetAlphaIn.val +
      ((chain.injection rt blockEmission).reserves netuid).subnetAlphaOut.val ≤
        totalSupply.val := by
  rw [injection_reserves]
  split_ifs
  · have hissuance : (chain.getAlphaIssuance netuid).val =
        (chain.reserves netuid).subnetAlphaIn.val + (chain.reserves netuid).subnetAlphaOut.val :=
      Word.val_satAdd_of_lt (lt_trans h totalSupply.isLt)
    obtain ⟨alphaEmission, heq, hle⟩ := blockEmission_add_le hlog (hissuance ▸ h)
    obtain ⟨hin, hout⟩ := alphaTerms_le blockEmission heq
    rw [hissuance] at hle
    have hsumIn := Word.val_sat_le (w := 64) ((chain.reserves netuid).subnetAlphaIn.val +
      ((chain.emissionTerms rt blockEmission netuid).alphaIn.toWord 64).val)
    have hsumOut := Word.val_sat_le (w := 64) ((chain.reserves netuid).subnetAlphaOut.val +
      ((chain.emissionTerms rt blockEmission netuid).alphaOut.toWord 64).val)
    unfold injectReserves Word.satAdd
    simp only
    omega
  · exact h.le

/-! ## Blocks -/

theorem adjustRegistrationTerms_ledger :
    (chain.adjustRegistrationTerms netuid).ledger = chain.ledger := by
  unfold adjustRegistrationTerms
  simp only
  split_ifs <;> rfl

theorem beforeCoinbase_ledger : (chain.beforeCoinbase rt).ledger = chain.ledger := by
  unfold beforeCoinbase
  rw [recordBlockEmission_ledger]
  exact foldl_keeps (f := adjustRegistrationTerms) (fun c => c.ledger)
    (fun _ _ => adjustRegistrationTerms_ledger) _ chain

theorem getBlockEmission_le (hlog : Log2Spec rt.log2)
    (h : chain.ledger.totalIssuance.val ≤ totalSupply.val) :
    ∃ e, chain.getBlockEmission rt = some e ∧
      chain.ledger.totalIssuance.val + 1000000 * e.val ≤ totalSupply.val := by
  rcases Nat.lt_or_ge chain.ledger.totalIssuance.val totalSupply.val with hlt | hge
  · exact blockEmission_add_le hlog hlt
  · refine ⟨0, ?_, ?_⟩
    · rw [getBlockEmission, blockEmissionForIssuance, if_pos hge]
    · rw [Word.val_zero, Nat.mul_zero, Nat.add_zero]
      exact h

variable [DecidableEq A] {epoch : Epoch A B P}

theorem trySetPendingChildren_ledger : chain.trySetPendingChildren.ledger = chain.ledger := by
  apply foldl_keeps (fun c : Chain A B P => c.ledger)
  intro c n
  split_ifs <;> rfl

/-- A block raises the total issuance by the TAO that it injects, and the
total supply is not passed. -/
theorem blockStep_totalIssuance (hlog : Log2Spec rt.log2)
    (h : chain.ledger.totalIssuance.val ≤ totalSupply.val) {e : U64}
    (he : chain.getBlockEmission rt = some e) :
    (chain.blockStep rt epoch).ledger.totalIssuance.val =
        chain.ledger.totalIssuance.val + (chain.beforeCoinbase rt).totalTaoInjected rt e ∧
      (chain.blockStep rt epoch).ledger.totalIssuance.val ≤ totalSupply.val := by
  obtain ⟨e', he', hle⟩ := getBlockEmission_le hlog h
  rw [he] at he'
  cases he'
  have hinjected : (chain.beforeCoinbase rt).totalTaoInjected rt e ≤ 1000000 * e.val :=
    totalTaoInjected_le_million
  have hlt := totalSupply.isLt
  have hval : (chain.blockStep rt epoch).ledger.totalIssuance.val =
      chain.ledger.totalIssuance.val + (chain.beforeCoinbase rt).totalTaoInjected rt e := by
    unfold blockStep
    rw [trySetPendingChildren_ledger, runCoinbase_totalIssuance, he, Option.getD_some,
      injection_totalIssuance, beforeCoinbase_ledger]
    rw [beforeCoinbase_ledger]
    omega
  exact ⟨hval, by omega⟩

/-- A step of the chain: a block, or anything that leaves the total issuance
alone. -/
inductive SupplyStep (rt : Runtime A B P) : Chain A B P → Chain A B P → Prop where
  | block {chain : Chain A B P} (epoch : Epoch A B P) :
      SupplyStep rt chain (chain.blockStep rt epoch)
  | other {chain chain' : Chain A B P} :
      chain'.ledger.totalIssuance = chain.ledger.totalIssuance → SupplyStep rt chain chain'

theorem totalIssuance_le_of_run (hlog : Log2Spec rt.log2)
    (hrun : Relation.ReflTransGen (SupplyStep rt) chain chain')
    (h : chain.ledger.totalIssuance.val ≤ totalSupply.val) :
    chain'.ledger.totalIssuance.val ≤ totalSupply.val := by
  induction hrun with
  | refl => exact h
  | tail _ hstep ih =>
      cases hstep with
      | block epoch =>
          obtain ⟨e, he, -⟩ := getBlockEmission_le hlog ih
          exact (blockStep_totalIssuance hlog ih he).2
      | other hsame =>
          rw [hsame]
          exact ih

/-- **The supply caps.** Below the total supply there is an emission, it does
not rise with the issuance and does not pass the supply. In every run the
total issuance stays within the supply; a block raises it by the injected TAO,
which is at most the emission of the block when the sum of the moving prices
fits its type. The injection keeps the alpha of a subnet within the supply. -/
theorem supplyCaps (hlog : Log2Spec rt.log2) :
    (∀ issuance : U64, issuance.val < totalSupply.val →
        ∃ e, blockEmissionForIssuance rt.log2 issuance = some e ∧
          issuance.val + e.val ≤ totalSupply.val) ∧
      (∀ issuance issuance' : U64, issuance.val ≤ issuance'.val →
        issuance'.val < totalSupply.val → ∀ e e' : U64,
          blockEmissionForIssuance rt.log2 issuance = some e →
          blockEmissionForIssuance rt.log2 issuance' = some e' → e'.val ≤ e.val) ∧
      (∀ chain chain' : Chain A B P, Relation.ReflTransGen (SupplyStep rt) chain chain' →
        chain.ledger.totalIssuance.val ≤ totalSupply.val →
          chain'.ledger.totalIssuance.val ≤ totalSupply.val) ∧
      (∀ (chain : Chain A B P) (epoch : Epoch A B P),
        chain.ledger.totalIssuance.val ≤ totalSupply.val →
          ∃ e, chain.getBlockEmission rt = some e ∧
            (chain.blockStep rt epoch).ledger.totalIssuance.val =
              chain.ledger.totalIssuance.val + (chain.beforeCoinbase rt).totalTaoInjected rt e ∧
            (((chain.beforeCoinbase rt).subnetsToEmitTo.map fun n =>
                ((chain.beforeCoinbase rt).getMovingAlphaPrice n).bits).sum < 2 ^ 128 →
              (chain.beforeCoinbase rt).totalTaoInjected rt e ≤ e.val)) ∧
      (∀ (chain : Chain A B P) (blockEmission : U96F32) (netuid : NetUid),
        (chain.reserves netuid).subnetAlphaIn.val + (chain.reserves netuid).subnetAlphaOut.val <
          totalSupply.val →
          ((chain.injection rt blockEmission).reserves netuid).subnetAlphaIn.val +
            ((chain.injection rt blockEmission).reserves netuid).subnetAlphaOut.val ≤
              totalSupply.val) := by
  refine ⟨?_, ?_, ?_, ?_, ?_⟩
  · intro issuance hlt
    obtain ⟨e, he, hle⟩ := blockEmission_add_le hlog hlt
    exact ⟨e, he, by omega⟩
  · intro issuance issuance' hle hlt e e' he he'
    exact blockEmission_antitone hlog hle hlt he he'
  · intro chain chain' hrun h
    exact totalIssuance_le_of_run hlog hrun h
  · intro chain epoch h
    obtain ⟨e, he, -⟩ := getBlockEmission_le hlog h
    exact ⟨e, he, (blockStep_totalIssuance hlog h he).1, totalTaoInjected_le⟩
  · intro chain blockEmission netuid h
    exact injection_alpha_le hlog h

/-! ## The last RAO -/

/-- The logarithm of the examples is monotone and exact on powers of two. -/
theorem floorLog2_spec : Log2Spec floorLog2 where
  defined := by
    intro x hx
    unfold floorLog2
    rw [if_neg (not_le.mpr hx)]
    exact ⟨_, rfl⟩
  mono := by
    intro x y a b hx hle ha hb
    unfold floorLog2 at ha hb
    rw [if_neg (not_le.mpr hx)] at ha
    rw [if_neg (not_le.mpr (lt_of_lt_of_le hx hle))] at hb
    cases ha
    cases hb
    have hlog : Nat.log 2 x.bits.toNat ≤ Nat.log 2 y.bits.toNat :=
      Nat.log_mono_right (Int.toNat_le_toNat hle)
    unfold IFixed.ofInt
    rw [IFixed.bits_sat, IFixed.bits_sat]
    omega
  two_pow := by
    intro j x hx
    have hpos : (0 : ℤ) < 2 ^ (32 + j) := by positivity
    have hnat : x.bits.toNat = 2 ^ (32 + j) := by
      rw [hx]
      exact_mod_cast Int.toNat_natCast (2 ^ (32 + j))
    have hj : 32 + j < 127 := by
      have hupper := x.upper
      rw [hx] at hupper
      exact (Nat.pow_lt_pow_iff_right (a := 2) (by norm_num)).mp (by exact_mod_cast hupper)
    unfold floorLog2
    rw [if_neg (not_le.mpr (hx ▸ hpos)), hnat, Nat.log_pow (by norm_num)]
    refine ⟨_, rfl, ?_⟩
    unfold IFixed.ofInt
    rw [IFixed.bits_sat_of_mem]
    · push_cast
      ring
    · push_cast
      norm_num
      omega
    · push_cast
      norm_num
      omega

/-- An epoch in which nobody earns anything. -/
def idleEpoch : Epoch A B P := fun chain netuid _ => (chain.neurons netuid, [])

theorem supplyCaps_smallChain :
    smallChain.ledger.totalIssuance.val = 11000000000 ∧
      ∃ e, smallChain.getBlockEmission runtime = some e ∧
        (smallChain.blockStep runtime idleEpoch).ledger.totalIssuance.val =
          smallChain.ledger.totalIssuance.val +
            (smallChain.beforeCoinbase runtime).totalTaoInjected runtime e ∧
        (smallChain.blockStep runtime idleEpoch).ledger.totalIssuance.val ≤ totalSupply.val := by
  have hlog : Log2Spec runtime.log2 := floorLog2_spec
  have hissuance : smallChain.ledger.totalIssuance.val ≤ totalSupply.val := by decide
  obtain ⟨-, -, hrun, hblock, -⟩ := supplyCaps (A := ℕ) (B := Balances ℕ) (P := SwapStorage ℕ) hlog
  obtain ⟨e, he, hinjected, -⟩ := hblock smallChain idleEpoch hissuance
  exact ⟨by decide, e, he, hinjected,
    hrun _ _ (Relation.ReflTransGen.single (.block idleEpoch)) hissuance⟩

/-- Four subnets whose moving prices are the largest that can be stored, when
little is left of the supply. -/
def pricedChain : Chain ℕ (Balances ℕ) (SwapStorage ℕ) :=
  { smallChain with
    ledger := { smallChain.ledger with totalIssuance := .sat 20999999954000000 }
    networksAdded := [1, 2, 3, 4].foldl (fun added n => added.insert (.sat n) true) ∅
    subnets := fun _ => { smallSubnet (.sat 1) with subnetMovingPrice := .sat (2 ^ 127) } }

/-- The sum of the prices is clamped, and every subnet gets one RAO: four of
an emission of three. -/
theorem blockStep_passes_emission :
    Log2Spec runtime.log2 ∧
      pricedChain.ledger.totalIssuance.val ≤ totalSupply.val ∧
      (pricedChain.getBlockEmission runtime).map (·.val) = some 3 ∧
      (pricedChain.blockStep runtime idleEpoch).ledger.totalIssuance.val =
        pricedChain.ledger.totalIssuance.val + 4 :=
  ⟨floorLog2_spec, by decide +kernel⟩

end Subtensor.Chain
