import Subtensor.Registration.UidRuns

/-!
# Proof of work

`do_registration` and `do_faucet` turn the work of the caller into a hash and
compare it with the seal of the block, the nonce and the account
(`subnets/registration.rs`). Each conversion between byte strings, hashes and
block numbers traps when it does not fit; a trap is `none`. The work that was used
is recorded and never read; the record comes in with the runs.
-/

namespace Subtensor.Work

open Lib

variable {A B P : Type}

/-! ## Hashes and conversions -/

structure H256 where
  bytes : List UInt8
  length_bytes : bytes.length = 32
deriving DecidableEq

/-- `H256::from_slice`, which traps on another length. -/
def H256.fromSlice (bytes : List UInt8) : Option H256 :=
  if h : bytes.length = 32 then some ⟨bytes, h⟩ else none

/-- The hash functions, the hashes of past blocks and the encoding of accounts,
which takes at least 32 bytes. -/
structure Hashing (A : Type) where
  encode : A → List UInt8
  encode_length : ∀ account, 32 ≤ (encode account).length
  blockHash : U32 → H256
  keccak256 : List UInt8 → H256
  sha2256 : List UInt8 → H256

/-- `TryInto<BlockNumber>`, with the `expect` on it. -/
def expectBlockNumber (blockNumber : U64) : Option U32 :=
  if blockNumber.val < 2 ^ 32 then some (.wrap blockNumber.val) else none

/-- `split_at`, which traps beyond the end. -/
def splitAt (bytes : List UInt8) (mid : ℕ) : Option (List UInt8 × List UInt8) :=
  if mid ≤ bytes.length then some (bytes.take mid, bytes.drop mid) else none

/-- `copy_from_slice`: the chunk with other bytes; it traps unless there are as
many. -/
def copyFromSlice (chunk source : List UInt8) : Option (List UInt8) :=
  if source.length = chunk.length then some source else none

def toLeBytes (n : U64) : List UInt8 :=
  (List.range 8).map fun i => UInt8.ofNat (n.val / 256 ^ i)

/-! ## The seal -/

def vecToHash (vecHash : List UInt8) : Option H256 := H256.fromSlice vecHash

def getBlockHashFromU64 (hashing : Hashing A) (blockNumber : U64) : Option H256 := do
  let blockNumber ← expectBlockNumber blockNumber
  let vecHash := (hashing.blockHash blockNumber).bytes
  H256.fromSlice vecHash

def hashBlockAndHotkey (hashing : Hashing A) (blockHashBytes : List UInt8) (hotkey : A) :
    Option H256 := do
  let (hotkeyBytes, _) ← splitAt (hashing.encode hotkey) 32
  let (firstHalf, secondHalf) ← splitAt (List.replicate 64 0) 32
  let firstHalf ← copyFromSlice firstHalf blockHashBytes
  let secondHalf ← copyFromSlice secondHalf hotkeyBytes
  H256.fromSlice (hashing.keccak256 (firstHalf ++ secondHalf)).bytes

def createSealHash (hashing : Hashing A) (blockNumber nonce : U64) (hotkey : A) :
    Option H256 := do
  let blockHashAtNumber ← getBlockHashFromU64 hashing blockNumber
  let blockAndHotkeyHash ← hashBlockAndHotkey hashing blockHashAtNumber.bytes hotkey
  let (firstChunk, secondChunk) ← splitAt (List.replicate 40 0) 8
  let firstChunk ← copyFromSlice firstChunk (toLeBytes nonce)
  let secondChunk ← copyFromSlice secondChunk blockAndHotkeyHash.bytes
  let sha256SealHash := hashing.sha2256 (firstChunk ++ secondChunk)
  H256.fromSlice (hashing.keccak256 sha256SealHash.bytes).bytes

/-! ## The calls -/

section

variable [DecidableEq A]

/-- `register_neuron`, with the assertion of `set_pruning_score_for_uid` on the uid
that is pruned. -/
def registerNeuron (rt : Runtime A B P) (chain : Chain A B P) (netuid : NetUid) (hotkey : A) :
    Option (Chain A B P) :=
  let subnet := chain.subnets netuid
  let neurons := chain.neurons netuid
  if neurons.subnetworkN.val < subnet.maxAllowedUids.val ∨ neurons.subnetworkN.val = 0 ∨
      (neurons.getNeuronToPrune subnet.subnetOwnerHotkey chain.block
        subnet.immunityPeriod).1.val < neurons.subnetworkN.val then
    some (chain.registerNeuron rt netuid hotkey)
  else none

/-- What `do_registration` does with the hash of the work. -/
def registerByHash (rt : Runtime A B P) (hashing : Hashing A) (chain : Chain A B P)
    (netuid : NetUid) (blockNumber nonce : U64) (hotkey coldkey : A) (workHash : H256) :
    Option (Except Error (Chain A B P)) :=
  let subnet := chain.subnets netuid
  if ¬Chain.hashMeetsDifficulty workHash.bytes subnet.difficulty then
    some (.error .invalidDifficulty)
  else (createSealHash hashing blockNumber nonce hotkey).bind fun sealHash =>
    if ¬sealHash = workHash then some (.error .invalidSeal)
    else
      let chain := chain.createAccountIfNonExistent coldkey hotkey
      if ¬chain.coldkeyOwnsHotkey coldkey hotkey then some (.error .nonAssociatedColdKey)
      else if subnet.maxAllowedUids.val = 0 then some (.error .noNeuronIdAvailable)
      else (registerNeuron rt chain netuid hotkey).map fun chain =>
        .ok (chain.countPowRegistration netuid)

def doRegistration (rt : Runtime A B P) (hashing : Hashing A) (chain : Chain A B P)
    (signingOrigin : A) (netuid : NetUid) (blockNumber nonce : U64) (work : List UInt8)
    (hotkey coldkey : A) : Option (Except Error (Chain A B P)) :=
  let subnet := chain.subnets netuid
  let registrations := chain.registrations netuid
  if ¬signingOrigin = hotkey then some (.error .transactorAccountShouldBeHotKey)
  else if netuid.isRoot then some (.error .registrationNotPermittedOnRootSubnet)
  else if ¬chain.ifSubnetExist netuid then some (.error .subNetworkDoesNotExist)
  else if ¬subnet.networkPowRegistrationAllowed then some (.error .subNetRegistrationDisabled)
  else if ¬registrations.thisBlock.val < subnet.maxRegistrationsPerBlock.val then
    some (.error .tooManyRegistrationsThisBlock)
  else if ¬registrations.thisInterval.val <
      (Word.sat (subnet.targetRegistrationsPerInterval.val * 3) : U16).val then
    some (.error .tooManyRegistrationsThisInterval)
  else if ((chain.neurons netuid).uids hotkey).isSome then
    some (.error .hotKeyAlreadyRegisteredInSubNet)
  else if ¬blockNumber.val ≤ chain.block.val then some (.error .invalidWorkBlock)
  else if ¬(chain.block.satSub blockNumber).val < 3 then some (.error .invalidWorkBlock)
  else (vecToHash work).bind
    (registerByHash rt hashing chain netuid blockNumber nonce hotkey coldkey)

end

def doFaucet (rt : Runtime A B P) (hashing : Hashing A) (chain : Chain A B P) (coldkey : A)
    (blockNumber nonce : U64) (work : List UInt8) : Option (Except Error (Chain A B P)) :=
  if ¬blockNumber.val ≤ chain.block.val then some (.error .invalidWorkBlock)
  else if ¬(chain.block.satSub blockNumber).val < 3 then some (.error .invalidWorkBlock)
  else (vecToHash work).bind fun workHash =>
    if ¬Chain.hashMeetsDifficulty workHash.bytes (.sat 1000000) then
      some (.error .invalidDifficulty)
    else (createSealHash hashing blockNumber nonce coldkey).bind fun sealHash =>
      if ¬sealHash = workHash then some (.error .invalidSeal)
      else
        some (.ok ((chain.withLedger (·.addIssuance (.sat 100000000000))).addBalanceToColdkeyAccount
          rt coldkey (.sat 1000000000000)))

/-! ## No conversion of the seal traps -/

theorem H256.fromSlice_bytes (hash : H256) : H256.fromSlice hash.bytes = some hash :=
  dif_pos hash.length_bytes

theorem H256.fromSlice_isSome_iff {bytes : List UInt8} :
    (H256.fromSlice bytes).isSome = true ↔ bytes.length = 32 := by
  unfold fromSlice
  split_ifs with h <;> simp [h]

theorem hashBlockAndHotkey_eq (hashing : Hashing A) (blockHash : H256) (hotkey : A) :
    hashBlockAndHotkey hashing blockHash.bytes hotkey =
      some (hashing.keccak256 (blockHash.bytes ++ (hashing.encode hotkey).take 32)) := by
  have hencode : splitAt (hashing.encode hotkey) 32 =
      some ((hashing.encode hotkey).take 32, (hashing.encode hotkey).drop 32) :=
    if_pos (hashing.encode_length hotkey)
  have hhalves : splitAt (List.replicate 64 0) 32 =
      some (List.replicate 32 0, List.replicate 32 0) := by decide
  have hfirst : copyFromSlice (List.replicate 32 0) blockHash.bytes = some blockHash.bytes :=
    if_pos (by rw [blockHash.length_bytes, List.length_replicate])
  have hsecond : copyFromSlice (List.replicate 32 0) ((hashing.encode hotkey).take 32) =
      some ((hashing.encode hotkey).take 32) :=
    if_pos (by
      rw [List.length_take, List.length_replicate]
      exact min_eq_left (hashing.encode_length hotkey))
  unfold hashBlockAndHotkey
  simp only [hencode, hhalves, hfirst, hsecond, Option.bind_eq_bind, Option.bind_some,
    H256.fromSlice_bytes]

/-- The seal of a block number that fits has a value, which takes in the hash of the block,
the nonce and the key. -/
theorem createSealHash_eq (hashing : Hashing A) {blockNumber : U64}
    (h : blockNumber.val < 2 ^ 32) (nonce : U64) (hotkey : A) :
    createSealHash hashing blockNumber nonce hotkey =
      some (hashing.keccak256 (hashing.sha2256 (toLeBytes nonce ++ (hashing.keccak256
        ((hashing.blockHash (.wrap blockNumber.val)).bytes ++
          (hashing.encode hotkey).take 32)).bytes)).bytes) := by
  have hblock : getBlockHashFromU64 hashing blockNumber =
      some (hashing.blockHash (.wrap blockNumber.val)) := by
    unfold getBlockHashFromU64 expectBlockNumber
    rw [if_pos h]
    exact H256.fromSlice_bytes _
  have hchunks : splitAt (List.replicate 40 0) 8 =
      some (List.replicate 8 0, List.replicate 32 0) := by decide
  have hfirst : copyFromSlice (List.replicate 8 0) (toLeBytes nonce) = some (toLeBytes nonce) :=
    if_pos (by rw [toLeBytes, List.length_map, List.length_range, List.length_replicate])
  have hsecond : ∀ hash : H256, copyFromSlice (List.replicate 32 0) hash.bytes =
      some hash.bytes :=
    fun hash => if_pos (by rw [hash.length_bytes, List.length_replicate])
  unfold createSealHash
  simp only [hblock, hchunks, hfirst, hsecond, hashBlockAndHotkey_eq, Option.bind_eq_bind,
    Option.bind_some, H256.fromSlice_bytes]

theorem createSealHash_isSome (hashing : Hashing A) {blockNumber : U64}
    (h : blockNumber.val < 2 ^ 32) (nonce : U64) (hotkey : A) :
    ∃ sealHash, createSealHash hashing blockNumber nonce hotkey = some sealHash :=
  ⟨_, createSealHash_eq hashing h nonce hotkey⟩

/-! ## What traps -/

/-- The call got as far as reading the work: every check before it passed. -/
structure ReadsWork [DecidableEq A] (chain : Chain A B P) (signingOrigin : A) (netuid : NetUid)
    (blockNumber : U64) (hotkey : A) : Prop where
  signer : signingOrigin = hotkey
  notRoot : ¬netuid.isRoot
  exists_subnet : chain.ifSubnetExist netuid
  allowed : (chain.subnets netuid).networkPowRegistrationAllowed
  blockLimit : (chain.registrations netuid).thisBlock.val <
    (chain.subnets netuid).maxRegistrationsPerBlock.val
  intervalLimit : (chain.registrations netuid).thisInterval.val <
    (Word.sat ((chain.subnets netuid).targetRegistrationsPerInterval.val * 3) : U16).val
  unregistered : ¬((chain.neurons netuid).uids hotkey).isSome
  notFuture : blockNumber.val ≤ chain.block.val
  recent : (chain.block.satSub blockNumber).val < 3

/-- The block of the work is one of the last three. -/
structure RecentWork (chain : Chain A B P) (blockNumber : U64) : Prop where
  notFuture : blockNumber.val ≤ chain.block.val
  recent : (chain.block.satSub blockNumber).val < 3

variable {rt : Runtime A B P} {chain : Chain A B P} {blockNumber nonce : U64}
  {work : List UInt8} {hotkey coldkey signingOrigin : A} {netuid : NetUid}

theorem ite_some_eq_none_iff {α : Type} {c : Prop} [Decidable c] {e : Error}
    {x : Option (Except Error α)} :
    (if c then some (.error e) else x) = none ↔ ¬c ∧ x = none := by
  by_cases hc : c
  · simp [hc]
  · simp [hc]

/-- Reading the work traps when it has not the length of a hash, and else only what
follows can trap. -/
theorem vecToHash_bind_eq_none_iff {α : Type} {next : H256 → Option α}
    (hnext : ∀ hash, next hash ≠ none) : (vecToHash work).bind next = none ↔ work.length ≠ 32 := by
  unfold vecToHash
  cases h : H256.fromSlice work with
  | none =>
      refine iff_of_true rfl fun hlen => ?_
      have hsome := H256.fromSlice_isSome_iff.mpr hlen
      rw [h] at hsome
      cases hsome
  | some hash =>
      refine iff_of_false (hnext hash) fun hlen => hlen ?_
      exact H256.fromSlice_isSome_iff.mp (by rw [h]; rfl)

theorem recentWork_iff : RecentWork chain blockNumber ↔
    blockNumber.val ≤ chain.block.val ∧ (chain.block.satSub blockNumber).val < 3 :=
  ⟨fun h => ⟨h.notFuture, h.recent⟩, fun h => ⟨h.1, h.2⟩⟩

theorem doFaucet_eq_none_iff (hashing : Hashing A) (hblock : chain.block.val < 2 ^ 32) :
    doFaucet rt hashing chain coldkey blockNumber nonce work = none ↔
      RecentWork chain blockNumber ∧ work.length ≠ 32 := by
  unfold doFaucet
  rw [ite_some_eq_none_iff, ite_some_eq_none_iff, not_not, not_not, ← and_assoc, ← recentWork_iff]
  refine and_congr_right fun hrecent => vecToHash_bind_eq_none_iff fun hash => ?_
  obtain ⟨sealHash, hseal⟩ := createSealHash_isSome hashing
    (hrecent.notFuture.trans_lt hblock) nonce coldkey
  rw [hseal, Option.bind_some]
  split_ifs <;> exact nofun

section

variable [DecidableEq A]

/-- The uid that is pruned passes the assertion. -/
theorem registerNeuron_eq (hmax : (chain.subnets netuid).maxAllowedUids.val ≠ 0) :
    registerNeuron rt chain netuid hotkey = some (chain.registerNeuron rt netuid hotkey) := by
  refine if_pos ?_
  by_cases hlt : (chain.neurons netuid).subnetworkN.val <
      (chain.subnets netuid).maxAllowedUids.val
  · exact Or.inl hlt
  · exact Or.inr (Or.inr (Neurons.getNeuronToPrune_lt (by omega)))

theorem readsWork_iff : ReadsWork chain signingOrigin netuid blockNumber hotkey ↔
    signingOrigin = hotkey ∧ ¬netuid.isRoot ∧ chain.ifSubnetExist netuid ∧
      (chain.subnets netuid).networkPowRegistrationAllowed ∧
      (chain.registrations netuid).thisBlock.val <
        (chain.subnets netuid).maxRegistrationsPerBlock.val ∧
      (chain.registrations netuid).thisInterval.val <
        (Word.sat ((chain.subnets netuid).targetRegistrationsPerInterval.val * 3) : U16).val ∧
      ¬((chain.neurons netuid).uids hotkey).isSome ∧
      blockNumber.val ≤ chain.block.val ∧ (chain.block.satSub blockNumber).val < 3 := by
  constructor
  · rintro ⟨h1, h2, h3, h4, h5, h6, h7, h8, h9⟩
    exact ⟨h1, h2, h3, h4, h5, h6, h7, h8, h9⟩
  · rintro ⟨h1, h2, h3, h4, h5, h6, h7, h8, h9⟩
    exact ⟨h1, h2, h3, h4, h5, h6, h7, h8, h9⟩

def sealBytes (hashing : Hashing A) (blockNumber nonce : U64) (hotkey : A) : List UInt8 :=
  ((createSealHash hashing blockNumber nonce hotkey).map (·.bytes)).getD []

theorem registerByHash_eq (hashing : Hashing A) (hblock : blockNumber.val < 2 ^ 32)
    (workHash : H256) :
    registerByHash rt hashing chain netuid blockNumber nonce hotkey coldkey workHash =
      if ¬Chain.hashMeetsDifficulty workHash.bytes (chain.subnets netuid).difficulty then
        some (.error .invalidDifficulty)
      else if ¬sealBytes hashing blockNumber nonce hotkey = workHash.bytes then
        some (.error .invalidSeal)
      else if ¬(chain.createAccountIfNonExistent coldkey hotkey).coldkeyOwnsHotkey coldkey
          hotkey then some (.error .nonAssociatedColdKey)
      else if (chain.subnets netuid).maxAllowedUids.val = 0 then
        some (.error .noNeuronIdAvailable)
      else some (.ok (((chain.createAccountIfNonExistent coldkey hotkey).registerNeuron rt netuid
        hotkey).countPowRegistration netuid)) := by
  obtain ⟨sealHash, hseal⟩ := createSealHash_isSome hashing hblock nonce hotkey
  obtain ⟨accounts, haccounts⟩ : ∃ accounts, chain.createAccountIfNonExistent coldkey hotkey =
      chain.withAccounts accounts := Chain.createAccountIfNonExistent_frame
  have hbytes : sealBytes hashing blockNumber nonce hotkey = sealHash.bytes := by
    rw [sealBytes, hseal]
    rfl
  have hiff : sealHash = workHash ↔ sealHash.bytes = workHash.bytes := by
    cases sealHash
    cases workHash
    simp
  unfold registerByHash
  simp only [hseal, Option.bind_some, haccounts, hbytes, hiff]
  refine ite_congr rfl (fun _ => rfl) fun _ => ite_congr rfl (fun _ => rfl) fun _ =>
    ite_congr rfl (fun _ => rfl) fun _ => ite_congr rfl (fun _ => rfl) fun hmax => ?_
  have hsome : registerNeuron rt (chain.withAccounts accounts) netuid hotkey =
      some ((chain.withAccounts accounts).registerNeuron rt netuid hotkey) :=
    registerNeuron_eq hmax
  rw [hsome]
  rfl

/-- The call with its conversions is the one that takes the seal as given. -/
theorem doRegistration_eq (hashing : Hashing A) (hblock : chain.block.val < 2 ^ 32) :
    doRegistration rt hashing chain signingOrigin netuid blockNumber nonce work hotkey coldkey =
      chain.doRegistration rt (sealBytes hashing) signingOrigin netuid blockNumber nonce work
        hotkey coldkey := by
  unfold doRegistration Chain.doRegistration Chain.doRegistrationEvent
  refine ite_eq_apply_ite _ (fun _ => rfl) fun _ => ite_eq_apply_ite _ (fun _ => rfl) fun _ =>
    ite_eq_apply_ite _ (fun _ => rfl) fun _ => ite_eq_apply_ite _ (fun _ => rfl) fun _ =>
    ite_eq_apply_ite _ (fun _ => rfl) fun _ => ite_eq_apply_ite _ (fun _ => rfl) fun _ =>
    ite_eq_apply_ite _ (fun _ => rfl) fun _ => ite_eq_apply_ite _ (fun _ => rfl) fun hfuture =>
    ite_eq_apply_ite _ (fun _ => rfl) fun _ => ?_
  unfold vecToHash H256.fromSlice
  by_cases hlen : work.length = 32
  · rw [dif_pos hlen, if_neg (not_not.mpr hlen), Option.bind_some,
      registerByHash_eq hashing ((not_not.mp hfuture).trans_lt hblock)]
    exact ite_eq_apply_ite _ (fun _ => rfl) fun _ => ite_eq_apply_ite _ (fun _ => rfl) fun _ =>
      ite_eq_apply_ite _ (fun _ => rfl) fun _ => ite_eq_apply_ite _ (fun _ => rfl) fun _ => rfl
  · rw [dif_neg hlen, if_pos hlen]
    rfl

theorem registerByHash_ne_none (hashing : Hashing A) (hblock : blockNumber.val < 2 ^ 32)
    (workHash : H256) :
    registerByHash rt hashing chain netuid blockNumber nonce hotkey coldkey workHash ≠ none := by
  rw [registerByHash_eq hashing hblock]
  simp only [Ne, ite_some_eq_none_iff]
  rintro ⟨-, -, -, -, hsome⟩
  cases hsome

theorem doRegistration_eq_none_iff (hashing : Hashing A) (hblock : chain.block.val < 2 ^ 32) :
    doRegistration rt hashing chain signingOrigin netuid blockNumber nonce work hotkey coldkey =
        none ↔
      ReadsWork chain signingOrigin netuid blockNumber hotkey ∧ work.length ≠ 32 := by
  have hread : ReadsWork chain signingOrigin netuid blockNumber hotkey →
      ((vecToHash work).bind
          (registerByHash rt hashing chain netuid blockNumber nonce hotkey coldkey) = none ↔
        work.length ≠ 32) :=
    fun h => vecToHash_bind_eq_none_iff
      (registerByHash_ne_none hashing (h.notFuture.trans_lt hblock))
  rw [← and_congr_right hread, readsWork_iff]
  unfold doRegistration
  simp only [ite_some_eq_none_iff, not_not, and_assoc]

/-- **Proof of work.** Neither call traps unless it gets as far as reading work that has not
the length of a hash. -/
theorem proofOfWork_ne_none_iff (rt : Runtime A B P) (hashing : Hashing A) (chain : Chain A B P)
    (hblock : chain.block.val < 2 ^ 32) :
    (∀ signingOrigin netuid blockNumber nonce work hotkey coldkey,
      doRegistration rt hashing chain signingOrigin netuid blockNumber nonce work hotkey coldkey ≠
          none ↔
        (ReadsWork chain signingOrigin netuid blockNumber hotkey → work.length = 32)) ∧
    ∀ coldkey blockNumber nonce work,
      doFaucet rt hashing chain coldkey blockNumber nonce work ≠ none ↔
        (RecentWork chain blockNumber → work.length = 32) := by
  constructor
  · intro signingOrigin netuid blockNumber nonce work hotkey coldkey
    rw [Ne, doRegistration_eq_none_iff hashing hblock, not_and, not_not]
  · intro coldkey blockNumber nonce work
    rw [Ne, doFaucet_eq_none_iff hashing hblock, not_and, not_not]

end

/-- Accounts that are numbers, hash functions that answer zero. -/
def zeroHashing : Hashing ℕ where
  encode account := List.replicate 32 (UInt8.ofNat account)
  encode_length account := by rw [List.length_replicate]
  blockHash _ := ⟨List.replicate 32 0, by decide⟩
  keccak256 _ := ⟨List.replicate 32 0, by decide⟩
  sha2256 _ := ⟨List.replicate 32 0, by decide⟩

theorem proofOfWork_ne_none_iff_smallChain :
    doRegistration runtime zeroHashing smallChain 2 (.sat 1) (.sat 999) 0 (List.replicate 32 0) 2
        10 ≠ none ∧
      doFaucet runtime zeroHashing smallChain 10 (.sat 999) 0 (List.replicate 32 0) ≠ none := by
  obtain ⟨hregistration, hfaucet⟩ := proofOfWork_ne_none_iff runtime zeroHashing smallChain
    (by decide)
  exact ⟨(hregistration _ _ _ _ _ _ _).mpr fun _ => by decide,
    (hfaucet _ _ _ _).mpr fun _ => by decide⟩

/-- Work without bytes, on a block that is recent. -/
theorem proofOfWork_traps :
    doRegistration runtime zeroHashing smallChain 2 (.sat 1) (.sat 999) 0 [] 2 10 = none ∧
      doFaucet runtime zeroHashing smallChain 10 (.sat 999) 0 [] = none := by
  decide +kernel

end Subtensor.Work
