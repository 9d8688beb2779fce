import Subtensor.Lib.Run
import Subtensor.Registration.Work

/-!
# Used work

`do_registration` and `do_faucet` record the work that they accept in `UsedWork`
(`subnets/registration.rs`) and never look it up: work is used again whenever a call
that succeeds carries work that is on record. Work is the seal of a block hash, a
nonce and a key, whatever the subnet and the purpose, so that this happens when the
same three are sealed again.
-/

namespace Subtensor.Work

open Lib Lib.Run

variable {A B P : Type}

/-! ## Calls and runs -/

/-- What the calls work on: the chain, the hashes that `frame_system` has of past
blocks, and the block at which some work was last used. -/
structure WorkState (A B P : Type) where
  chain : Chain A B P
  blockHash : U32 → H256
  usedWork : StorageMap (List UInt8) U64

inductive WorkCall (A : Type)
  | registration (signingOrigin : A) (netuid : NetUid) (blockNumber nonce : U64)
      (work : List UInt8) (hotkey coldkey : A)
  | faucet (coldkey : A) (blockNumber nonce : U64) (work : List UInt8)

/-- A step of a run: one of the two calls, or whatever the rest of the runtime does to
the chain and to the hashes of past blocks; it does not touch `UsedWork`. -/
inductive WorkStep (A B P : Type)
  | call (call : WorkCall A)
  | other (chain : Chain A B P) (blockHash : U32 → H256)

/-- What is sealed: the hash of a block, a nonce and a key. -/
structure SealInput (A : Type) where
  blockHash : H256
  nonce : U64
  key : A
deriving DecidableEq

namespace WorkCall

def work : WorkCall A → List UInt8
  | registration _ _ _ _ work _ _ => work
  | faucet _ _ _ work => work

def blockNumber : WorkCall A → U64
  | registration _ _ blockNumber _ _ _ _ => blockNumber
  | faucet _ blockNumber _ _ => blockNumber

def nonce : WorkCall A → U64
  | registration _ _ _ nonce _ _ _ => nonce
  | faucet _ _ nonce _ => nonce

/-- The key in the seal: the hotkey that registers, or the coldkey at the faucet. -/
def key : WorkCall A → A
  | registration _ _ _ _ _ hotkey _ => hotkey
  | faucet coldkey _ _ _ => coldkey

end WorkCall

namespace WorkState

/-- What a call seals, with the block hashes of the moment. -/
def sealInput (s : WorkState A B P) (call : WorkCall A) : SealInput A :=
  ⟨s.blockHash (.wrap call.blockNumber.val), call.nonce, call.key⟩

/-- The hash functions, with the block hashes of the moment. -/
def hashing (hashing : Hashing A) (s : WorkState A B P) : Hashing A :=
  { hashing with blockHash := s.blockHash }

/-- `UsedWork::insert` at the current block. -/
def recordWork (s : WorkState A B P) (work : List UInt8) (chain : Chain A B P) :
    WorkState A B P :=
  { s with chain := chain, usedWork := s.usedWork.insert work s.chain.block }

def runOnChain [DecidableEq A] (rt : Runtime A B P) (hashing : Hashing A) (s : WorkState A B P) :
    WorkCall A → Option (Except Error (Chain A B P))
  | .registration signingOrigin netuid blockNumber nonce work hotkey coldkey =>
      doRegistration rt (s.hashing hashing) s.chain signingOrigin netuid blockNumber nonce work
        hotkey coldkey
  | .faucet coldkey blockNumber nonce work =>
      doFaucet rt (s.hashing hashing) s.chain coldkey blockNumber nonce work

def runCall [DecidableEq A] (rt : Runtime A B P) (hashing : Hashing A) (s : WorkState A B P)
    (call : WorkCall A) : Option (Except Error (WorkState A B P)) :=
  (s.runOnChain rt hashing call).map fun result => result.map (s.recordWork call.work)

/-- A step of a run; a call that fails changes nothing. -/
def apply [DecidableEq A] (rt : Runtime A B P) (hashing : Hashing A) (s : WorkState A B P) :
    WorkStep A B P → WorkState A B P
  | .other chain blockHash => { s with chain := chain, blockHash := blockHash }
  | .call call =>
      match s.runCall rt hashing call with
      | some (.ok s') => s'
      | _ => s

/-- A call whose work is on record does not succeed. -/
def RefusesUsedWork [DecidableEq A] (rt : Runtime A B P) (hashing : Hashing A)
    (s : WorkState A B P) : WorkStep A B P → Prop
  | .other _ _ => True
  | .call call => call.work ∈ s.usedWork → ∀ s', s.runCall rt hashing call ≠ some (.ok s')

/-- A call that succeeded: what it sealed, and its work. -/
structure Accepted (A : Type) where
  sealed : SealInput A
  work : List UInt8

/-- The calls of a run that succeed, in order. -/
def accepted [DecidableEq A] (rt : Runtime A B P) (hashing : Hashing A) :
    WorkState A B P → List (WorkStep A B P) → List (Accepted A)
  | _, [] => []
  | s, .other chain blockHash :: steps =>
      accepted rt hashing { s with chain := chain, blockHash := blockHash } steps
  | s, .call call :: steps =>
      match s.runCall rt hashing call with
      | some (.ok s') => ⟨s.sealInput call, call.work⟩ :: accepted rt hashing s' steps
      | _ => accepted rt hashing s steps

end WorkState

/-! ## The seal of an input -/

/-- The strings that are hashed for a seal, and the seal. -/
def SealInput.keyBytes (hashing : Hashing A) (input : SealInput A) : List UInt8 :=
  input.blockHash.bytes ++ (hashing.encode input.key).take 32

def SealInput.nonceBytes (hashing : Hashing A) (input : SealInput A) : List UInt8 :=
  toLeBytes input.nonce ++ (hashing.keccak256 (input.keyBytes hashing)).bytes

def SealInput.sealHash (hashing : Hashing A) (input : SealInput A) : H256 :=
  hashing.keccak256 (hashing.sha2256 (input.nonceBytes hashing)).bytes

/-- The hash functions do not collide on what is hashed for these seals, and the 32 bytes
of a key tell it from the others. -/
structure Hashing.CollisionFree (hashing : Hashing A) (inputs : List (SealInput A)) : Prop where
  key : ∀ x ∈ inputs, ∀ y ∈ inputs,
    (hashing.encode x.key).take 32 = (hashing.encode y.key).take 32 → x.key = y.key
  blockAndKey : ∀ x ∈ inputs, ∀ y ∈ inputs,
    hashing.keccak256 (x.keyBytes hashing) = hashing.keccak256 (y.keyBytes hashing) →
      x.keyBytes hashing = y.keyBytes hashing
  sha : ∀ x ∈ inputs, ∀ y ∈ inputs,
    hashing.sha2256 (x.nonceBytes hashing) = hashing.sha2256 (y.nonceBytes hashing) →
      x.nonceBytes hashing = y.nonceBytes hashing
  keccak : ∀ x ∈ inputs, ∀ y ∈ inputs, x.sealHash hashing = y.sealHash hashing →
    hashing.sha2256 (x.nonceBytes hashing) = hashing.sha2256 (y.nonceBytes hashing)

variable {hashing : Hashing A}

theorem H256.ext_bytes {a b : H256} (h : a.bytes = b.bytes) : a = b := by
  cases a
  cases b
  simpa using h

theorem length_toLeBytes (n : U64) : (toLeBytes n).length = 8 := by
  rw [toLeBytes, List.length_map, List.length_range]

theorem ofDigits_toLeBytes (n : U64) :
    Nat.ofDigits 256 ((toLeBytes n).map UInt8.toNat) = n.val := by
  have hlt := n.isLt
  simp [toLeBytes, List.range, List.range.loop, Nat.ofDigits_cons]
  omega

theorem toLeBytes_inj {m n : U64} (h : toLeBytes m = toLeBytes n) : m = n := by
  apply Word.ext
  rw [← ofDigits_toLeBytes, ← ofDigits_toLeBytes, h]

theorem SealInput.sealHash_inj {inputs : List (SealInput A)} (h : hashing.CollisionFree inputs)
    {x y : SealInput A} (hx : x ∈ inputs) (hy : y ∈ inputs)
    (heq : x.sealHash hashing = y.sealHash hashing) : x = y := by
  have hnonceBytes := h.sha x hx y hy (h.keccak x hx y hy heq)
  obtain ⟨hnonce, hinner⟩ := List.append_inj hnonceBytes (by rw [length_toLeBytes, length_toLeBytes])
  have hinner' : hashing.keccak256 (x.keyBytes hashing) = hashing.keccak256 (y.keyBytes hashing) :=
    H256.ext_bytes hinner
  obtain ⟨hblock, hkey⟩ := List.append_inj (h.blockAndKey x hx y hy hinner')
    (by rw [x.blockHash.length_bytes, y.blockHash.length_bytes])
  have hblockHash : x.blockHash = y.blockHash := H256.ext_bytes hblock
  have hkey' := h.key x hx y hy hkey
  have hnonce' := toLeBytes_inj hnonce
  cases x
  cases y
  simp_all

theorem vecToHash_bytes {work : List UInt8} {workHash : H256}
    (h : vecToHash work = some workHash) : workHash.bytes = work := by
  unfold vecToHash H256.fromSlice at h
  split at h
  · cases h
    rfl
  · cases h

theorem expectBlockNumber_eq_some {blockNumber : U64} {n : U32}
    (h : expectBlockNumber blockNumber = some n) : blockNumber.val < 2 ^ 32 := by
  by_contra hle
  rw [expectBlockNumber, if_neg hle] at h
  cases h

/-- A seal that has a value is the one of what was sealed. -/
theorem sealHash_of_createSealHash {blockNumber nonce : U64} {key : A} {sealHash : H256}
    (h : createSealHash hashing blockNumber nonce key = some sealHash) :
    sealHash = (⟨hashing.blockHash (.wrap blockNumber.val), nonce, key⟩ :
      SealInput A).sealHash hashing := by
  have hblock : blockNumber.val < 2 ^ 32 := by
    unfold createSealHash getBlockHashFromU64 at h
    simp only [Option.bind_eq_bind, Option.bind_eq_some_iff] at h
    obtain ⟨_, ⟨_, hn, -⟩, -⟩ := h
    exact expectBlockNumber_eq_some hn
  rw [createSealHash_eq hashing hblock] at h
  exact (Option.some.inj h).symm

/-! ## Calls that succeed -/

section

variable [DecidableEq A] {rt : Runtime A B P} {s s' : WorkState A B P} {call : WorkCall A}

namespace WorkState

omit [DecidableEq A] in
theorem work_eq_of_seal {blockNumber nonce : U64} {key : A} {work : List UInt8}
    {workHash sealHash : H256} (hwork : vecToHash work = some workHash) (heq : sealHash = workHash)
    (hseal : createSealHash (s.hashing hashing) blockNumber nonce key = some sealHash) :
    work = ((⟨s.blockHash (.wrap blockNumber.val), nonce, key⟩ :
      SealInput A).sealHash hashing).bytes := by
  have hsealed := sealHash_of_createSealHash hseal
  rw [← vecToHash_bytes hwork, ← heq, hsealed]
  rfl

theorem work_of_runOnChain {chain : Chain A B P}
    (h : s.runOnChain rt hashing call = some (.ok chain)) :
    call.work = ((s.sealInput call).sealHash hashing).bytes := by
  cases call with
  | registration signingOrigin netuid blockNumber nonce work hotkey coldkey =>
      unfold runOnChain doRegistration at h
      simp only [ite_some_error_eq_ok] at h
      obtain ⟨-, -, -, -, -, -, -, -, -, h⟩ := h
      obtain ⟨workHash, hwork, h⟩ := Option.bind_eq_some_iff.mp h
      unfold registerByHash at h
      obtain ⟨-, h⟩ := ite_some_error_eq_ok.mp h
      obtain ⟨sealHash, hseal, h⟩ := Option.bind_eq_some_iff.mp h
      obtain ⟨heq, -⟩ := ite_some_error_eq_ok.mp h
      exact work_eq_of_seal hwork (not_not.mp heq) hseal
  | faucet coldkey blockNumber nonce work =>
      unfold runOnChain doFaucet at h
      simp only [ite_some_error_eq_ok] at h
      obtain ⟨-, -, h⟩ := h
      obtain ⟨workHash, hwork, h⟩ := Option.bind_eq_some_iff.mp h
      obtain ⟨-, h⟩ := ite_some_error_eq_ok.mp h
      obtain ⟨sealHash, hseal, h⟩ := Option.bind_eq_some_iff.mp h
      obtain ⟨heq, -⟩ := ite_some_error_eq_ok.mp h
      exact work_eq_of_seal hwork (not_not.mp heq) hseal

theorem runCall_ok (h : s.runCall rt hashing call = some (.ok s')) :
    call.work = ((s.sealInput call).sealHash hashing).bytes ∧
      s'.usedWork = s.usedWork.insert call.work s.chain.block := by
  obtain ⟨result, hrun, h⟩ := Option.map_eq_some_iff.mp h
  cases result with
  | error e => cases h
  | ok chain =>
      cases h
      exact ⟨work_of_runOnChain hrun, rfl⟩

/-- The work of what is accepted is the seal of its input. -/
theorem accepted_work (s : WorkState A B P) (steps : List (WorkStep A B P)) :
    (s.accepted rt hashing steps).map Accepted.work =
      ((s.accepted rt hashing steps).map Accepted.sealed).map fun input =>
        (input.sealHash hashing).bytes := by
  induction steps generalizing s with
  | nil => rfl
  | cons step steps ih =>
      cases step with
      | other chain blockHash => exact ih _
      | call call =>
          rw [accepted]
          split
          · rename_i s' hcall
            rw [List.map_cons, List.map_cons, List.map_cons, ih, (runCall_ok hcall).1]
          · exact ih s

theorem mem_usedWork_apply {work : List UInt8} (h : work ∈ s.usedWork) (step : WorkStep A B P) :
    work ∈ (s.apply rt hashing step).usedWork := by
  cases step with
  | other chain blockHash => exact h
  | call call =>
      rw [apply]
      split
      · rename_i s' hcall
        rw [(runCall_ok hcall).2, AList.mem_insert]
        exact Or.inr h
      · exact h

theorem mem_usedWork_foldl {work : List UInt8} (h : work ∈ s.usedWork)
    (steps : List (WorkStep A B P)) :
    work ∈ (steps.foldl (apply rt hashing) s).usedWork := by
  induction steps generalizing s with
  | nil => exact h
  | cons step steps ih => exact ih (mem_usedWork_apply h step)

/-- What is accepted is on record, so that its use could be refused. -/
theorem accepted_recorded (s : WorkState A B P) (steps : List (WorkStep A B P)) :
    ∀ x ∈ s.accepted rt hashing steps,
      x.work ∈ (steps.foldl (apply rt hashing) s).usedWork := by
  induction steps generalizing s with
  | nil => exact nofun
  | cons step steps ih =>
      cases step with
      | other chain blockHash => exact ih _
      | call call =>
          rw [accepted, List.foldl_cons, apply]
          split
          · rename_i s' hcall
            rintro x (_ | ⟨_, hx⟩)
            · refine mem_usedWork_foldl ?_ steps
              rw [(runCall_ok hcall).2, AList.mem_insert]
              exact Or.inl rfl
            · exact ih s' x hx
          · exact ih s

/-- Along a run in which no work on record is accepted, and only there, the calls that
succeed have different work that was not on record at the start. -/
theorem allInputs_refusesUsedWork_iff (s : WorkState A B P) (steps : List (WorkStep A B P)) :
    AllInputs (apply rt hashing) (RefusesUsedWork rt hashing) s steps ↔
      ((s.accepted rt hashing steps).map Accepted.work).Nodup ∧
        ∀ x ∈ s.accepted rt hashing steps, x.work ∉ s.usedWork := by
  induction steps generalizing s with
  | nil => simp [AllInputs, accepted]
  | cons step steps ih =>
      cases step with
      | other chain blockHash =>
          rw [AllInputs, ih]
          exact and_iff_right trivial
      | call call =>
          rw [AllInputs, ih]
          cases hcall : s.runCall rt hashing call with
          | none =>
              simp only [apply, accepted, RefusesUsedWork, hcall]
              exact and_iff_right fun _ _ => nofun
          | some result =>
              cases result with
              | error e =>
                  simp only [apply, accepted, RefusesUsedWork, hcall]
                  exact and_iff_right fun _ _ => nofun
              -- the record of the rest of the run holds the work of this call, so that
              -- what is new to that record is different from it
              | ok s' =>
                  have hused := (runCall_ok hcall).2
                  simp only [apply, accepted, RefusesUsedWork, hcall, hused, List.map_cons,
                    List.nodup_cons, List.mem_cons, forall_eq_or_imp, AList.mem_insert, not_or]
                  constructor
                  · rintro ⟨hrefused, hnodup, hnew⟩
                    refine ⟨⟨?_, hnodup⟩, fun hmem => hrefused hmem s' rfl, fun x hx => (hnew x hx).2⟩
                    intro hmem
                    obtain ⟨x, hx, heq⟩ := List.mem_map.mp hmem
                    exact (hnew x hx).1 heq
                  · rintro ⟨⟨hnotMem, hnodup⟩, hfirst, hrest⟩
                    refine ⟨fun hmem => absurd hmem hfirst, hnodup, fun x hx => ⟨?_, hrest x hx⟩⟩
                    intro heq
                    exact hnotMem (heq ▸ List.mem_map_of_mem hx)

/-- **Work is used once as long as work on record is refused.** In every run whose calls
that succeed carry work that is not on record when they are made, no two of them have the
same work. From a start without a record the converse holds too. -/
theorem accepted_work_nodup_iff (rt : Runtime A B P) (hashing : Hashing A)
    (s : WorkState A B P) (steps : List (WorkStep A B P)) :
    (AllInputs (apply rt hashing) (RefusesUsedWork rt hashing) s steps →
        ((s.accepted rt hashing steps).map Accepted.work).Nodup) ∧
      (s.usedWork = ∅ →
        (((s.accepted rt hashing steps).map Accepted.work).Nodup ↔
          AllInputs (apply rt hashing) (RefusesUsedWork rt hashing) s steps)) := by
  refine ⟨fun h => ((allInputs_refusesUsedWork_iff s steps).mp h).1, ?_⟩
  intro hnone
  rw [allInputs_refusesUsedWork_iff, hnone]
  refine (and_iff_left ?_).symm
  intro x _
  exact AList.notMem_empty x.work

/-- The calls that succeed have different work exactly if no two of them seal the same
block hash, nonce and key. -/
theorem accepted_work_nodup_iff_sealed (s : WorkState A B P) (steps : List (WorkStep A B P))
    (hfree : hashing.CollisionFree ((s.accepted rt hashing steps).map Accepted.sealed)) :
    ((s.accepted rt hashing steps).map Accepted.work).Nodup ↔
      ((s.accepted rt hashing steps).map Accepted.sealed).Nodup := by
  rw [accepted_work]
  constructor
  · exact List.Nodup.of_map _
  · intro hnodup
    refine hnodup.map_on fun x hx y hy heq => ?_
    exact SealInput.sealHash_inj hfree hx hy (H256.ext_bytes heq)

end WorkState

end

/-- The faucet gives again for work that it has accepted, as long as its block is recent. -/
theorem doFaucet_again {rt : Runtime A B P} {chain chain' after : Chain A B P} {coldkey : A}
    {blockNumber nonce : U64} {work : List UInt8}
    (h : doFaucet rt hashing chain coldkey blockNumber nonce work = some (.ok after))
    (hrecent : RecentWork chain' blockNumber) :
    ∃ again, doFaucet rt hashing chain' coldkey blockNumber nonce work = some (.ok again) := by
  unfold doFaucet at h ⊢
  simp only [ite_some_error_eq_ok] at h
  obtain ⟨-, -, h⟩ := h
  obtain ⟨workHash, hwork, h⟩ := Option.bind_eq_some_iff.mp h
  obtain ⟨hdifficulty, h⟩ := ite_some_error_eq_ok.mp h
  obtain ⟨sealHash, hseal, h⟩ := Option.bind_eq_some_iff.mp h
  obtain ⟨heq, -⟩ := ite_some_error_eq_ok.mp h
  rw [if_neg (not_not.mpr hrecent.notFuture), if_neg (not_not.mpr hrecent.recent), hwork,
    Option.bind_some, if_neg hdifficulty, hseal, Option.bind_some, if_neg heq]
  exact ⟨_, rfl⟩

/-! ## A run that uses work twice -/

def numberBytes (n : ℕ) : List UInt8 := (List.range 32).map fun i => UInt8.ofNat (n / 256 ^ i)

/-- A hash of strings of at most 64 bytes: the sum of the bytes that are 32 apart. -/
def foldHash (bytes : List UInt8) : H256 where
  bytes := (List.range 32).map fun i => bytes.getD i 0 + bytes.getD (i + 32) 0
  length_bytes := by rw [List.length_map, List.length_range]

/-- Accounts and block hashes that are numbers, and hashes that fold. -/
def foldHashing : Hashing ℕ where
  encode := numberBytes
  encode_length account := by rw [numberBytes, List.length_map, List.length_range]
  blockHash n := ⟨numberBytes n.val, by rw [numberBytes, List.length_map, List.length_range]⟩
  keccak256 := foldHash
  sha2256 := foldHash

/-- A chain with the subnets `1` and `2`. -/
def twoSubnets : WorkState ℕ (Balances ℕ) (SwapStorage ℕ) where
  chain := { smallChain with networksAdded := smallChain.networksAdded.insert (.sat 2) true }
  blockHash := foldHashing.blockHash
  usedWork := ∅

/-- What the key seals with the nonce and the hash of the last block. -/
def sealNow (nonce : U64) (key : ℕ) : SealInput ℕ := ⟨foldHashing.blockHash (.sat 999), nonce, key⟩

def workNow (nonce : U64) (key : ℕ) : List UInt8 :=
  ((sealNow nonce key).sealHash foldHashing).bytes

/-- Work at the faucet, and new work there. -/
def freshSteps : List (WorkStep ℕ (Balances ℕ) (SwapStorage ℕ)) :=
  [.call (.faucet 10 (.sat 999) 0 (workNow 0 10)),
    .call (.faucet 10 (.sat 999) (.sat 1) (workNow (.sat 1) 10))]

/-- Neither work is on record when it is used, and both are afterwards. -/
theorem accepted_work_nodup_iff_freshSteps :
    (twoSubnets.accepted runtime foldHashing freshSteps).map WorkState.Accepted.work =
        [workNow 0 10, workNow (.sat 1) 10] ∧
      ((twoSubnets.accepted runtime foldHashing freshSteps).map
        WorkState.Accepted.work).Nodup := by
  refine ⟨by decide +kernel, ?_⟩
  refine (WorkState.accepted_work_nodup_iff runtime foldHashing twoSubnets freshSteps).1 ?_
  refine ⟨fun hmem => absurd hmem (AList.notMem_empty _), fun hmem => ?_, trivial⟩
  have hfresh : workNow (.sat 1) 10 ∉ (twoSubnets.apply runtime foldHashing
      (.call (.faucet 10 (.sat 999) 0 (workNow 0 10)))).usedWork := by
    decide +kernel
  exact absurd hmem hfresh

/-- A hotkey registers on two subnets with the same work, and a coldkey is at the faucet
twice with the same work. -/
def replayedSteps : List (WorkStep ℕ (Balances ℕ) (SwapStorage ℕ)) :=
  [.call (.registration 2 (.sat 1) (.sat 999) 0 (workNow 0 2) 2 10),
    .call (.registration 2 (.sat 2) (.sat 999) 0 (workNow 0 2) 2 10),
    .call (.faucet 10 (.sat 999) 0 (workNow 0 10)),
    .call (.faucet 10 (.sat 999) 0 (workNow 0 10))]

/-- All four calls succeed, and no hash collides. -/
theorem accepted_work_replayed :
    (twoSubnets.accepted runtime foldHashing replayedSteps).map WorkState.Accepted.work =
        [workNow 0 2, workNow 0 2, workNow 0 10, workNow 0 10] ∧
      foldHashing.CollisionFree ((twoSubnets.accepted runtime foldHashing replayedSteps).map
        WorkState.Accepted.sealed) ∧
      ¬((twoSubnets.accepted runtime foldHashing replayedSteps).map
        WorkState.Accepted.work).Nodup := by
  have hsealed : (twoSubnets.accepted runtime foldHashing replayedSteps).map
      WorkState.Accepted.sealed = [sealNow 0 2, sealNow 0 2, sealNow 0 10, sealNow 0 10] := by
    decide +kernel
  have hwork : (twoSubnets.accepted runtime foldHashing replayedSteps).map
      WorkState.Accepted.work = [workNow 0 2, workNow 0 2, workNow 0 10, workNow 0 10] := by
    decide +kernel
  refine ⟨hwork, ?_, ?_⟩
  · rw [hsealed]
    exact ⟨by decide +kernel, by decide +kernel, by decide +kernel, by decide +kernel⟩
  · rw [hwork]
    decide +kernel

end Subtensor.Work
