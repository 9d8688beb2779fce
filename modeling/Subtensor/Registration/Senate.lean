import Subtensor.Lib.Run
import Subtensor.Registration.UidRuns

/-!
# The Senate and the root network

The members of the Senate are registered on root, as long as no member loses
its slot there while it stays a member. Registrations on root join the Senate,
but take nobody out of it who lost the slot; and a swap on root alone leaves the
Senate as it is.
-/

namespace Subtensor

open Lib Run

/-- `SenateMembers` is a set with exact operations. -/
structure Senate.Exact {A B P : Type} [DecidableEq A] (rt : Runtime A B P) (senate : Senate A) :
    Prop where
  addMember : ∀ {members : List A} {key : A}, members.Nodup → key ∉ members →
    members.length < senate.maxMembers →
      ∃ members', senate.addMember members key = .ok members' ∧ members'.Perm (key :: members)
  swapMember : ∀ {members : List A} {remove add : A}, members.Nodup → remove ∈ members →
    add ∉ members → ∃ members', rt.swapSenateMember members remove add = .ok members' ∧
      members'.Perm (add :: members.erase remove)

namespace Chain

variable {A B P : Type} [DecidableEq A] {rt : Runtime A B P} {senate : Senate A}
  {chain chain' : Chain A B P} {coldkey hotkey oldHotkey newHotkey : A}

def RegisteredOnRoot (chain : Chain A B P) (hotkey : A) : Prop := chain.Registered .ROOT hotkey

/-! ## Runs -/

/-- A call of a run, or anything that leaves slots and Senate alone. -/
inductive RootCall (A B P : Type) where
  | rootRegister (coldkey hotkey : A)
  | adjustSenate (coldkey hotkey : A)
  | swapHotkey (coldkey oldHotkey newHotkey : A) (onSubnet : Option NetUid)
  | other (environment : Chain A B P)

/-- A call that fails is rolled back. -/
def applyRootCall (rt : Runtime A B P) (senate : Senate A) (chain : Chain A B P) :
    RootCall A B P → Chain A B P
  | .rootRegister coldkey hotkey =>
      (chain.doRootRegister rt senate coldkey hotkey).toOption.getD chain
  | .adjustSenate coldkey hotkey =>
      (chain.doAdjustSenate rt senate coldkey hotkey).toOption.getD chain
  | .swapHotkey coldkey oldHotkey newHotkey onSubnet =>
      (chain.doSwapHotkey rt coldkey oldHotkey newHotkey onSubnet).toOption.getD chain
  | .other environment =>
      { environment with
        neurons := chain.neurons
        isNetworkMember := chain.isNetworkMember
        networksAdded := chain.networksAdded
        senateMembers := chain.senateMembers }

/-! ## Statements -/

/-- Another registration on root is allowed in this block and interval. -/
def RootOpen (chain : Chain A B P) : Prop :=
  (chain.registrations .ROOT).thisBlock.val < (chain.subnets .ROOT).maxRegistrationsPerBlock.val ∧
    (chain.registrations .ROOT).thisInterval.val <
      (Word.sat ((chain.subnets .ROOT).targetRegistrationsPerInterval.val * 3) : U16).val

/-- There is a slot for the hotkey: a new one, or one of less stake. -/
def EnoughRootStake (chain : Chain A B P) (hotkey : A) : Prop :=
  (chain.neurons .ROOT).subnetworkN.val < (chain.subnets .ROOT).maxAllowedUids.val ∨
    ∃ pruned, (chain.neurons .ROOT).keys chain.lowestRootStake.2 = some pruned ∧
      (chain.subnets .ROOT).subnetOwnerHotkey ≠ some pruned ∧
      chain.lowestRootStake.1.val < (chain.getStakeForHotkeyOnSubnet hotkey .ROOT).val

/-- The members of the Senate are root validators, and who is not registered
on root can be. -/
structure SenateOnRoot (rt : Runtime A B P) (senate : Senate A) (chain : Chain A B P) : Prop where
  registered : ∀ member ∈ chain.senateMembers, chain.RegisteredOnRoot member
  size : chain.senateMembers.length ≤ senate.maxMembers
  registers : ∀ coldkey hotkey, ¬chain.RegisteredOnRoot hotkey → chain.RootOpen →
    chain.EnoughRootStake hotkey → (chain.doRootRegister rt senate coldkey hotkey).isOk = true

/-! ## The condition -/

/-- The hotkey that loses its slot on root to the next registration. -/
def prunedOnRoot (chain : Chain A B P) : Option A :=
  if (chain.neurons .ROOT).subnetworkN.val < (chain.subnets .ROOT).maxAllowedUids.val then none
  else (chain.neurons .ROOT).keys chain.lowestRootStake.2

/-- The member with the least stake on root, the last one among equals. -/
def lowestSenator (chain : Chain A B P) : Option A :=
  (chain.senateMembers.mergeSort fun a b =>
    (chain.getStakeForHotkeyOnSubnet b .ROOT).val ≤
      (chain.getStakeForHotkeyOnSubnet a .ROOT).val).getLast?

/-- The member that makes room for a hotkey in a full Senate. -/
def replacedSenator (senate : Senate A) (chain : Chain A B P) (hotkey : A) : Option A :=
  if chain.senateMembers.length = senate.maxMembers then
    chain.lowestSenator.filter fun last =>
      (chain.getStakeForHotkeyOnSubnet last .ROOT).val <
        (chain.getStakeForHotkeyOnSubnet hotkey .ROOT).val
  else none

/-- No member of the Senate loses its slot on root and stays a member: a
registration that succeeds replaces no member but the one that makes room for
the hotkey, and no member is swapped on root alone. -/
def RootCall.KeepsSenate (rt : Runtime A B P) (senate : Senate A) (chain : Chain A B P) :
    RootCall A B P → Prop
  | .rootRegister coldkey hotkey =>
      (chain.doRootRegister rt senate coldkey hotkey).isOk = true →
        ∀ pruned, chain.prunedOnRoot = some pruned → pruned ∈ chain.senateMembers →
          chain.replacedSenator senate hotkey = some pruned
  | .swapHotkey coldkey oldHotkey newHotkey onSubnet =>
      (chain.doSwapHotkey rt coldkey oldHotkey newHotkey onSubnet).isOk = true →
        onSubnet = some .ROOT → oldHotkey ∉ chain.senateMembers
  | _ => True

/-! ## Joining -/

/-- The members after a hotkey joined that is none yet. -/
def senateAfter (senate : Senate A) (chain : Chain A B P) (hotkey : A) : List A :=
  match chain.replacedSenator senate hotkey with
  | some last => hotkey :: chain.senateMembers.erase last
  | none =>
      if chain.senateMembers.length = senate.maxMembers then chain.senateMembers
      else hotkey :: chain.senateMembers

theorem mem_of_lowestSenator {member : A} (h : chain.lowestSenator = some member) :
    member ∈ chain.senateMembers :=
  List.mem_mergeSort.mp (List.mem_of_getLast? h)

theorem mem_of_replacedSenator {last : A} (h : chain.replacedSenator senate hotkey = some last) :
    last ∈ chain.senateMembers := by
  unfold replacedSenator at h
  split at h
  · exact mem_of_lowestSenator (Option.filter_eq_some_iff.mp h).1
  · cases h

/-- A hotkey on root that is no member joins, or finds no room. -/
theorem joinSenateIfEligible_of_new (hexact : senate.Exact rt)
    (hregistered : chain.RegisteredOnRoot hotkey) (hnew : hotkey ∉ chain.senateMembers)
    (hnodup : chain.senateMembers.Nodup)
    (hsize : chain.senateMembers.length ≤ senate.maxMembers) :
    ∃ members, chain.joinSenateIfEligible rt senate hotkey =
        .ok { chain with senateMembers := members } ∧
      members.Perm (chain.senateAfter senate hotkey) := by
  unfold RegisteredOnRoot Registered at hregistered
  unfold joinSenateIfEligible senateAfter replacedSenator
  dsimp only
  rw [if_neg (not_not.mpr hregistered), if_neg (by simpa using hnew)]
  by_cases hfull : chain.senateMembers.length = senate.maxMembers
  · rw [if_pos hfull, if_pos hfull]
    cases hlast : chain.lowestSenator with
    | none =>
        have hsorted := hlast
        unfold lowestSenator at hsorted
        rw [hsorted]
        exact ⟨chain.senateMembers, rfl, by simp [hfull]⟩
    | some last =>
        have hsorted := hlast
        unfold lowestSenator at hsorted
        rw [hsorted, Option.filter_some]
        dsimp only
        by_cases hless : (chain.getStakeForHotkeyOnSubnet last .ROOT).val <
            (chain.getStakeForHotkeyOnSubnet hotkey .ROOT).val
        · obtain ⟨members, hswap, hperm⟩ :=
            hexact.swapMember hnodup (mem_of_lowestSenator hlast) hnew
          rw [if_pos hless, hswap, if_pos (decide_eq_true hless)]
          exact ⟨members, rfl, hperm⟩
        · rw [if_neg hless, if_neg (by simpa using hless)]
          exact ⟨chain.senateMembers, rfl, by simp [hfull]⟩
  · rw [if_neg hfull, if_neg hfull]
    obtain ⟨members, hadd, hperm⟩ :=
      hexact.addMember hnodup hnew (lt_of_le_of_ne hsize hfull)
    rw [hadd]
    exact ⟨members, rfl, by simpa [hfull] using hperm⟩

/-- What has to hold of a chain for the Senate to be on root. -/
structure RootSenate (senate : Senate A) (chain : Chain A B P) : Prop where
  uids : UidsAgree chain
  root : chain.ifSubnetExist .ROOT = true
  nodup : chain.senateMembers.Nodup
  registered : ∀ member ∈ chain.senateMembers, chain.RegisteredOnRoot member
  size : chain.senateMembers.length ≤ senate.maxMembers

/-! ## Registration on root -/

/-- No registered hotkey has less stake than the one to prune, whose uid is in
use if any is. -/
theorem lowestRootStake_spec (chain : Chain A B P) :
    (∀ uid hotkey, (chain.neurons .ROOT).keys uid = some hotkey → chain.lowestRootStake.1.val ≤
        (chain.getStakeForHotkeyOnSubnet hotkey .ROOT).val) ∧
      (chain.lowestRootStake.2 = 0 ∨
        ((chain.neurons .ROOT).keys chain.lowestRootStake.2).isSome = true) := by
  have hloop : ∀ (entries : List (U16 × A)) (lowest : U64 × U16),
      (∀ entry ∈ entries, (chain.neurons .ROOT).keys entry.1 = some entry.2) →
      (lowest.2 = 0 ∨ ((chain.neurons .ROOT).keys lowest.2).isSome = true) →
      let last := entries.foldl (fun lowest entry =>
        let stake := chain.getStakeForHotkeyOnSubnet entry.2 .ROOT
        if stake.val < lowest.1.val then (stake, entry.1) else lowest) lowest
      last.1.val ≤ lowest.1.val ∧
        (∀ entry ∈ entries,
          last.1.val ≤ (chain.getStakeForHotkeyOnSubnet entry.2 .ROOT).val) ∧
        (last.2 = 0 ∨ ((chain.neurons .ROOT).keys last.2).isSome = true) := by
    intro entries
    induction entries with
    | nil =>
        intro lowest _ huid
        exact ⟨le_rfl, fun _ hmem => absurd hmem List.not_mem_nil, huid⟩
    | cons first rest ih =>
        intro lowest hstored huid
        have hrest := fun entry hmem => hstored entry (List.mem_cons_of_mem first hmem)
        dsimp only
        rw [List.foldl_cons]
        split
        · rename_i hless
          have hfirst := hstored first List.mem_cons_self
          obtain ⟨hle, hall, hlast⟩ := ih (_, first.1) hrest (.inr (by rw [hfirst]; rfl))
          refine ⟨hle.trans hless.le, ?_, hlast⟩
          intro entry hmem
          rcases List.mem_cons.mp hmem with rfl | hmem
          · exact hle
          · exact hall entry hmem
        · rename_i hless
          obtain ⟨hle, hall, hlast⟩ := ih lowest hrest huid
          refine ⟨hle, ?_, hlast⟩
          intro entry hmem
          rcases List.mem_cons.mp hmem with rfl | hmem
          · exact hle.trans (not_lt.mp hless)
          · exact hall entry hmem
  have hstored : ∀ uid hotkey, (uid, hotkey) ∈ (chain.neurons .ROOT).storedKeys ↔
      (chain.neurons .ROOT).keys uid = some hotkey := fun _ _ => Neurons.mem_storedKeys
  unfold lowestRootStake
  generalize (chain.neurons .ROOT).storedKeys = entries at hstored ⊢
  obtain ⟨-, hall, huid⟩ := hloop entries (.maxVal, 0)
    (fun entry hmem => (hstored entry.1 entry.2).mp hmem) (.inl rfl)
  exact ⟨fun uid hotkey hkey => hall (uid, hotkey) ((hstored uid hotkey).mpr hkey), huid⟩

theorem takeRootSlot_frame (h : chain.takeRootSlot rt hotkey = .ok chain') :
    ∃ neurons members, chain' = chain.withNeurons .ROOT neurons members := by
  unfold takeRootSlot at h
  split at h
  · exact ⟨_, _, (Except.ok.inj h).symm⟩
  · extract_lets lowest at h
    split at h
    · cases h
    · obtain ⟨-, h⟩ := ite_error_eq_ok.mp h
      exact ⟨_, _, (Except.ok.inj h).symm⟩

theorem appendNeuron_uids (chain : Chain A B P) (hotkey : A) :
    ((chain.appendNeuron .ROOT hotkey).neurons .ROOT).uids =
      Function.update (chain.neurons .ROOT).uids hotkey
        (some (chain.neurons .ROOT).subnetworkN) := by
  unfold appendNeuron withNeurons
  dsimp only
  rw [Function.update_self]
  rfl

theorem replaceNeuron_neurons (chain : Chain A B P) (uid : U16) (hotkey : A) :
    (chain.replaceNeuron rt .ROOT uid hotkey).neurons .ROOT =
      ((chain.neurons .ROOT).replaceNeuron rt.defaultAccount
        (chain.subnets .ROOT).subnetOwnerHotkey uid hotkey chain.block).1 := by
  unfold replaceNeuron withNeurons
  dsimp only
  rw [Function.update_self]

/-- A hotkey that is registered now has taken the slot of the pruned one. -/
theorem takeRootSlot_registered (h : chain.takeRootSlot rt hotkey = .ok chain')
    (hfree : ¬chain.RegisteredOnRoot hotkey) (hregistered : chain'.RegisteredOnRoot hotkey)
    (other : A) : chain'.RegisteredOnRoot other ↔
      other = hotkey ∨ chain.RegisteredOnRoot other ∧ chain.prunedOnRoot ≠ some other := by
  unfold takeRootSlot at h
  unfold prunedOnRoot
  split at h
  · rename_i hroom
    obtain rfl := Except.ok.inj h
    unfold RegisteredOnRoot Registered
    rw [appendNeuron_uids, if_pos hroom]
    by_cases heq : other = hotkey
    · subst heq
      simp
    · simp [heq]
  · rename_i hroom
    extract_lets lowest at h
    split at h
    · cases h
    · rename_i pruned hpruned
      obtain ⟨-, h⟩ := ite_error_eq_ok.mp h
      obtain rfl := Except.ok.inj h
      unfold RegisteredOnRoot Registered at hregistered hfree ⊢
      rw [replaceNeuron_neurons] at hregistered ⊢
      rcases (chain.neurons .ROOT).replaceNeuron_cases rt.defaultAccount
          (chain.subnets .ROOT).subnetOwnerHotkey lowest.2 hotkey chain.block with
        heq | ⟨neurons', heq, -, huids, -⟩
      · -- the slot of the owner of the subnet is not given away
        rw [heq] at hregistered
        exact absurd hregistered hfree
      · rw [hpruned, Option.getD_some] at huids
        rw [heq, huids, if_neg hroom, hpruned]
        by_cases hnew : other = hotkey
        · subst hnew
          simp
        · by_cases hold : other = pruned
          · subst hold
            simp [hnew]
          · simp [hnew, hold, Ne.symm hold]

theorem enoughRootStake_withAccounts (accounts : Accounts A) (h : chain.EnoughRootStake hotkey) :
    (chain.withAccounts accounts).EnoughRootStake hotkey := by
  have hlowest : (chain.withAccounts accounts).lowestRootStake = chain.lowestRootStake := rfl
  unfold EnoughRootStake
  rw [hlowest]
  exact h

theorem takeRootSlot_of_enough (h : chain.EnoughRootStake hotkey) :
    ∃ slotted, chain.takeRootSlot rt hotkey = .ok slotted ∧ slotted.RegisteredOnRoot hotkey := by
  unfold takeRootSlot
  by_cases hroom : (chain.neurons .ROOT).subnetworkN.val <
      (chain.subnets .ROOT).maxAllowedUids.val
  · rw [if_pos hroom]
    refine ⟨_, rfl, ?_⟩
    unfold RegisteredOnRoot Registered
    rw [appendNeuron_uids, Function.update_self]
    rfl
  · rw [if_neg hroom]
    obtain ⟨pruned, hpruned, howner, hless⟩ := h.resolve_left hroom
    dsimp only
    rw [hpruned]
    dsimp only
    rw [if_neg (not_not.mpr hless)]
    refine ⟨_, rfl, ?_⟩
    unfold RegisteredOnRoot Registered
    rw [replaceNeuron_neurons]
    unfold Neurons.replaceNeuron
    dsimp only
    rw [hpruned, Option.getD_some, if_neg howner]
    unfold Neurons.clearNeuron
    dsimp only
    rw [Function.update_self]
    rfl

theorem doRootRegister_ok (h : chain.doRootRegister rt senate coldkey hotkey = .ok chain') :
    chain.ifSubnetExist .ROOT = true ∧ ¬chain.RegisteredOnRoot hotkey ∧
      ∃ accounts slotted joined,
        (chain.withAccounts accounts).takeRootSlot rt hotkey = .ok slotted ∧
          slotted.joinSenateIfEligible rt senate hotkey = .ok joined ∧
          chain'.neurons = joined.neurons ∧ chain'.networksAdded = joined.networksAdded ∧
          chain'.senateMembers = joined.senateMembers := by
  obtain ⟨event, h⟩ := map_fst_eq_ok.mp h
  unfold doRootRegisterEvent at h
  obtain ⟨hexists, h⟩ := ite_error_eq_ok.mp h
  obtain ⟨-, h⟩ := ite_error_eq_ok.mp h
  obtain ⟨-, h⟩ := ite_error_eq_ok.mp h
  obtain ⟨hfree, h⟩ := ite_error_eq_ok.mp h
  obtain ⟨accounts, haccounts⟩ : ∃ accounts, chain.createAccountIfNonExistent coldkey hotkey =
      chain.withAccounts accounts := createAccountIfNonExistent_frame
  rw [haccounts] at h
  refine ⟨not_not.mp hexists, hfree, accounts, ?_⟩
  extract_lets chain₁ uid at h
  split at h
  · cases h
  · rename_i slotted hslot
    split at h
    · cases h
    · rename_i joined hjoin
      obtain ⟨rfl, -⟩ := Prod.mk.inj (Except.ok.inj h)
      refine ⟨slotted, joined, hslot, hjoin, ?_⟩
      unfold delegateHotkey
      split
      · exact ⟨rfl, rfl, rfl⟩
      · exact ⟨rfl, rfl, rfl⟩

theorem joinSenateIfEligible_ok (h : chain.joinSenateIfEligible rt senate hotkey = .ok chain') :
    chain.RegisteredOnRoot hotkey ∧ hotkey ∉ chain.senateMembers := by
  unfold joinSenateIfEligible at h
  dsimp only at h
  obtain ⟨hregistered, h⟩ := ite_error_eq_ok.mp h
  obtain ⟨hnew, -⟩ := ite_error_eq_ok.mp h
  exact ⟨not_not.mp hregistered, by simpa using hnew⟩

/-- What a registration on root does to the slots and to the Senate. -/
theorem doRootRegister_senate (hexact : senate.Exact rt) (hroot : RootSenate senate chain)
    (h : chain.doRootRegister rt senate coldkey hotkey = .ok chain') :
    ¬chain.RegisteredOnRoot hotkey ∧
      (∀ other, chain'.RegisteredOnRoot other ↔
        other = hotkey ∨ chain.RegisteredOnRoot other ∧ chain.prunedOnRoot ≠ some other) ∧
      chain'.senateMembers.Perm (chain.senateAfter senate hotkey) ∧
      chain'.networksAdded = chain.networksAdded := by
  obtain ⟨-, hfree, accounts, slotted, joined, hslot, hjoin, hneurons, hadded, hmembers⟩ :=
    doRootRegister_ok h
  obtain ⟨hregistered, hnew⟩ := joinSenateIfEligible_ok hjoin
  have hslots := takeRootSlot_registered hslot hfree hregistered
  obtain ⟨neurons, members, rfl⟩ := takeRootSlot_frame hslot
  obtain ⟨after, hafter, hperm⟩ := joinSenateIfEligible_of_new hexact hregistered hnew hroot.nodup
    hroot.size
  cases hafter.symm.trans hjoin
  refine ⟨hfree, ?_, hmembers ▸ hperm, hadded⟩
  intro other
  unfold RegisteredOnRoot Registered
  rw [hneurons]
  exact hslots other

theorem nodup_senateAfter (hroot : RootSenate senate chain) (hnew : hotkey ∉ chain.senateMembers) :
    (chain.senateAfter senate hotkey).Nodup := by
  unfold senateAfter
  split
  · exact List.nodup_cons.mpr
      ⟨fun hmem => hnew (List.mem_of_mem_erase hmem), hroot.nodup.erase _⟩
  · split
    · exact hroot.nodup
    · exact List.nodup_cons.mpr ⟨hnew, hroot.nodup⟩

theorem length_senateAfter (hroot : RootSenate senate chain) :
    (chain.senateAfter senate hotkey).length ≤ senate.maxMembers := by
  have hsize := hroot.size
  unfold senateAfter
  split
  · rename_i last hlast
    have hmem := mem_of_replacedSenator hlast
    have hpos := List.length_pos_of_mem hmem
    rw [List.length_cons, List.length_erase_of_mem hmem]
    omega
  · split
    · exact hsize
    · rw [List.length_cons]
      omega

/-- The members after a hotkey joined: some of the former ones, all but the
replaced one, and perhaps the hotkey. -/
theorem mem_senateAfter (hroot : RootSenate senate chain) {member : A} (hne : member ≠ hotkey) :
    member ∈ chain.senateAfter senate hotkey ↔
      member ∈ chain.senateMembers ∧ chain.replacedSenator senate hotkey ≠ some member := by
  unfold senateAfter
  cases hreplaced : chain.replacedSenator senate hotkey with
  | none =>
      dsimp only
      split
      · simp
      · simp [hne]
  | some last =>
      dsimp only
      rw [List.mem_cons, hroot.nodup.mem_erase_iff]
      constructor
      · rintro (rfl | ⟨hlast, hmem⟩)
        · exact absurd rfl hne
        · exact ⟨hmem, fun heq => hlast (Option.some.inj heq).symm⟩
      · rintro ⟨hmem, hlast⟩
        exact .inr ⟨fun heq => hlast (by rw [heq]), hmem⟩

/-- A hotkey that is not on root is no member. -/
theorem RootSenate.not_mem (hroot : RootSenate senate chain)
    (hfree : ¬chain.RegisteredOnRoot hotkey) : hotkey ∉ chain.senateMembers :=
  fun hmem => hfree (hroot.registered hotkey hmem)

/-- A registration keeps the Senate on root exactly if the pruned hotkey is no
member that stays. -/
theorem doRootRegister_keeps (hexact : senate.Exact rt) (hroot : RootSenate senate chain)
    (h : chain.doRootRegister rt senate coldkey hotkey = .ok chain')
    (hpruned : ∀ pruned, chain.prunedOnRoot = some pruned → pruned ∈ chain.senateMembers →
      chain.replacedSenator senate hotkey = some pruned) : RootSenate senate chain' := by
  obtain ⟨hfree, hslots, hperm, hadded⟩ := doRootRegister_senate hexact hroot h
  refine ⟨doRootRegister_uidsAgree hroot.uids h, ?_, ?_, ?_, ?_⟩
  · unfold ifSubnetExist
    rw [hadded]
    exact hroot.root
  · exact hperm.nodup_iff.mpr (nodup_senateAfter hroot (hroot.not_mem hfree))
  · intro member hmem
    rw [hslots]
    by_cases heq : member = hotkey
    · exact .inl heq
    · obtain ⟨hmember, hstays⟩ := (mem_senateAfter hroot heq).mp (hperm.mem_iff.mp hmem)
      refine .inr ⟨hroot.registered member hmember, ?_⟩
      intro hlost
      exact hstays (hpruned member hlost hmember)
  · rw [hperm.length_eq]
    exact length_senateAfter hroot

/-- A member that lost its slot and stays is not on root. -/
theorem doRootRegister_breaks (hexact : senate.Exact rt) (hroot : RootSenate senate chain)
    (h : chain.doRootRegister rt senate coldkey hotkey = .ok chain')
    (hmembers : ∀ member ∈ chain'.senateMembers, chain'.RegisteredOnRoot member) {pruned : A}
    (hpruned : chain.prunedOnRoot = some pruned) (hmember : pruned ∈ chain.senateMembers) :
    chain.replacedSenator senate hotkey = some pruned := by
  obtain ⟨hfree, hslots, hperm, -⟩ := doRootRegister_senate hexact hroot h
  have hne : pruned ≠ hotkey := by
    rintro rfl
    exact hfree (hroot.registered pruned hmember)
  by_contra hstays
  have hmem := hperm.mem_iff.mpr ((mem_senateAfter hroot hne).mpr ⟨hmember, hstays⟩)
  rcases (hslots pruned).mp (hmembers pruned hmem) with heq | ⟨-, hkept⟩
  · exact hne heq
  · exact hkept hpruned

/-- Who is not on root and has enough stake is registered there. -/
theorem RootSenate.registers (hexact : senate.Exact rt) (hroot : RootSenate senate chain)
    (coldkey : A) (hfree : ¬chain.RegisteredOnRoot hotkey) (hopen : chain.RootOpen)
    (henough : chain.EnoughRootStake hotkey) :
    (chain.doRootRegister rt senate coldkey hotkey).isOk = true := by
  obtain ⟨accounts, haccounts⟩ : ∃ accounts, chain.createAccountIfNonExistent coldkey hotkey =
      chain.withAccounts accounts := createAccountIfNonExistent_frame
  obtain ⟨slotted, hslot, hregistered⟩ :
      ∃ slotted, (chain.withAccounts accounts).takeRootSlot rt hotkey = .ok slotted ∧
        slotted.RegisteredOnRoot hotkey :=
    takeRootSlot_of_enough (enoughRootStake_withAccounts accounts henough)
  obtain ⟨neurons, members, rfl⟩ := takeRootSlot_frame hslot
  obtain ⟨after, hjoin, -⟩ := joinSenateIfEligible_of_new hexact hregistered
    (hroot.not_mem hfree) hroot.nodup hroot.size
  obtain ⟨hblock, hinterval⟩ := hopen
  unfold RegisteredOnRoot Registered at hfree
  unfold doRootRegister doRootRegisterEvent
  dsimp only
  rw [if_neg (not_not.mpr hroot.root), if_neg (not_not.mpr hblock),
    if_neg (not_not.mpr hinterval), if_neg hfree, haccounts, hslot]
  dsimp only
  rw [hjoin]
  rfl

theorem RootSenate.senateOnRoot (hexact : senate.Exact rt) (hroot : RootSenate senate chain) :
    SenateOnRoot rt senate chain :=
  ⟨hroot.registered, hroot.size, fun coldkey _ hfree hopen henough =>
    hroot.registers hexact coldkey hfree hopen henough⟩

/-- Anything that leaves the slots alone leaves the Senate on root. -/
theorem RootSenate.of_eq (hroot : RootSenate senate chain) (hneurons : chain'.neurons = chain.neurons)
    (hmember : chain'.isNetworkMember = chain.isNetworkMember)
    (hadded : chain'.networksAdded = chain.networksAdded)
    (hsenate : chain'.senateMembers = chain.senateMembers) : RootSenate senate chain' := by
  refine ⟨hroot.uids.of_eq hneurons hmember hadded, ?_, ?_, ?_, ?_⟩
  · unfold ifSubnetExist
    rw [hadded]
    exact hroot.root
  · rw [hsenate]
    exact hroot.nodup
  · intro member hmem
    unfold RegisteredOnRoot Registered
    rw [hneurons]
    exact hroot.registered member (hsenate ▸ hmem)
  · rw [hsenate]
    exact hroot.size

/-- Joining alone keeps the Senate on root. -/
theorem doAdjustSenate_keeps (hexact : senate.Exact rt) (hroot : RootSenate senate chain)
    (h : chain.doAdjustSenate rt senate coldkey hotkey = .ok chain') :
    RootSenate senate chain' := by
  unfold doAdjustSenate at h
  obtain ⟨-, h⟩ := ite_error_eq_ok.mp h
  obtain ⟨-, h⟩ := ite_error_eq_ok.mp h
  obtain ⟨accounts, haccounts⟩ : ∃ accounts, chain.createAccountIfNonExistent coldkey hotkey =
      chain.withAccounts accounts := createAccountIfNonExistent_frame
  rw [haccounts] at h
  split at h
  · cases h
  · rename_i joined hjoin
    obtain ⟨-, h⟩ := ite_error_eq_ok.mp h
    obtain rfl := Except.ok.inj h
    obtain ⟨hregistered, hnew⟩ := joinSenateIfEligible_ok hjoin
    have hstart : RootSenate senate (chain.withAccounts accounts) := hroot.of_eq rfl rfl rfl rfl
    obtain ⟨members, hafter, hperm⟩ := joinSenateIfEligible_of_new hexact hregistered hnew
      hstart.nodup hstart.size
    cases hafter.symm.trans hjoin
    refine ⟨hroot.uids.of_eq rfl rfl rfl, hroot.root, ?_, ?_, ?_⟩
    · exact hperm.nodup_iff.mpr (nodup_senateAfter hstart hnew)
    · intro member hmem
      by_cases heq : member = hotkey
      · subst heq
        exact hregistered
      · exact hstart.registered member
          ((mem_senateAfter hstart heq).mp (hperm.mem_iff.mp hmem)).1
    · show members.length ≤ senate.maxMembers
      rw [hperm.length_eq]
      exact length_senateAfter hstart

/-! ## Hotkey swaps -/

theorem performHotkeySwapOnSubnets_senate (oldHotkey newHotkey : A) (netuids : List NetUid)
    (chain : Chain A B P) :
    (chain.performHotkeySwapOnSubnets oldHotkey newHotkey netuids).senateMembers =
      chain.senateMembers := by
  induction netuids generalizing chain with
  | nil => rfl
  | cons netuid netuids ih => exact ih (chain.performHotkeySwapOnOneSubnet _ _ _)

/-- The Senate is swapped with the hotkey on all subnets only. -/
theorem doSwapHotkey_senate {onSubnet : Option NetUid}
    (h : chain.doSwapHotkey rt coldkey oldHotkey newHotkey onSubnet = .ok chain') :
    chain'.senateMembers = chain.senateMembers ∧
        (oldHotkey ∈ chain.senateMembers → onSubnet ≠ none) ∨
      onSubnet = none ∧ oldHotkey ∈ chain.senateMembers ∧
        rt.swapSenateMember chain.senateMembers oldHotkey newHotkey = .ok chain'.senateMembers := by
  unfold doSwapHotkey at h
  obtain ⟨-, h⟩ := ite_error_eq_ok.mp h
  obtain ⟨-, h⟩ := ite_error_eq_ok.mp h
  obtain ⟨-, h⟩ := ite_error_eq_ok.mp h
  obtain ⟨-, h⟩ := ite_error_eq_ok.mp h
  extract_lets chain₁ at h
  cases onSubnet with
  | some netuid =>
      simp only [swapHotkeyOnSubnet] at h
      obtain ⟨-, h⟩ := ite_error_eq_ok.mp h
      obtain ⟨-, h⟩ := ite_error_eq_ok.mp h
      split at h
      · cases h
      · rename_i chain₂ hpay
        obtain ⟨ledger, rfl⟩ := paySwapCost_frame hpay
        obtain rfl := Except.ok.inj h
        exact .inl ⟨rfl, fun _ => Option.some_ne_none _⟩
  | none =>
      simp only at h
      split at h
      · cases h
      · rename_i chain₂ hpay
        obtain ⟨ledger, rfl⟩ := paySwapCost_frame hpay
        split at h
        · cases h
        · rename_i chain₃ hperform
          obtain rfl := Except.ok.inj h
          unfold performHotkeySwapOnAllSubnets at hperform
          dsimp only at hperform
          rw [performHotkeySwapOnSubnets_senate] at hperform
          split at hperform
          · cases hperform
          · rename_i members hmembers
            obtain rfl := Except.ok.inj hperform
            split at hmembers
            · rename_i hmember
              exact .inr ⟨rfl, by simpa using hmember, hmembers⟩
            · rename_i hmember
              refine .inl ⟨(Except.ok.inj hmembers).symm, ?_⟩
              intro hmem
              exact absurd (by simpa using hmem) hmember

omit [DecidableEq A] in
theorem root_mem_netuids (h : chain.ifSubnetExist .ROOT = true) :
    .ROOT ∈ chain.getAllSubnetNetuids := by
  have hlookup := ifSubnetExist_lookup h
  exact AList.mem_keys.mp (not_not.mp (mt AList.lookup_eq_none.mpr hlookup))

/-- A swap keeps the Senate on root unless a member is swapped on root alone. -/
theorem doSwapHotkey_keeps (hexact : senate.Exact rt) (hroot : RootSenate senate chain)
    {onSubnet : Option NetUid}
    (h : chain.doSwapHotkey rt coldkey oldHotkey newHotkey onSubnet = .ok chain')
    (hkeeps : onSubnet = some .ROOT → oldHotkey ∉ chain.senateMembers) :
    RootSenate senate chain' := by
  obtain ⟨hfree, hother, hswapped, hsame⟩ := doSwapHotkey_registered hroot.uids h .ROOT
  have hnew := hroot.not_mem hfree
  have hexists : chain'.ifSubnetExist .ROOT = true := by
    unfold ifSubnetExist
    rw [doSwapHotkey_networksAdded h]
    exact hroot.root
  rcases doSwapHotkey_senate h with ⟨hsenate, hall⟩ | ⟨hall, hmember, hswap⟩
  · -- the Senate is as before
    refine ⟨doSwapHotkey_uidsAgree hroot.uids h, hexists, ?_, ?_, ?_⟩
    · rw [hsenate]
      exact hroot.nodup
    · rw [hsenate]
      intro member hmem
      have hmemberNew : member ≠ newHotkey := fun heq => hnew (heq ▸ hmem)
      by_cases hold : member = oldHotkey
      · subst hold
        refine (hsame ?_ member).mpr (hroot.registered member hmem)
        cases onSubnet with
        | none => exact absurd rfl (hall hmem)
        | some netuid =>
            intro hroot
            cases List.mem_singleton.mp hroot
            exact hkeeps rfl hmem
      · exact (hother member hold hmemberNew).mpr (hroot.registered member hmem)
    · rw [hsenate]
      exact hroot.size
  · -- the new hotkey is a member in place of the old one
    subst hall
    obtain ⟨members, hok, hperm⟩ := hexact.swapMember hroot.nodup hmember hnew
    cases hswap.symm.trans hok
    refine ⟨doSwapHotkey_uidsAgree hroot.uids h, hexists, ?_, ?_, ?_⟩
    · refine hperm.nodup_iff.mpr (List.nodup_cons.mpr ⟨?_, hroot.nodup.erase _⟩)
      exact fun hmem => hnew (List.mem_of_mem_erase hmem)
    · intro member hmem
      rcases List.mem_cons.mp (hperm.mem_iff.mp hmem) with rfl | hmem
      · exact (hswapped (root_mem_netuids hroot.root)).2.mpr (hroot.registered _ hmember)
      · obtain ⟨hold, hmem⟩ := hroot.nodup.mem_erase_iff.mp hmem
        have hmemberNew : member ≠ newHotkey := fun heq => hnew (heq ▸ hmem)
        exact (hother member hold hmemberNew).mpr (hroot.registered member hmem)
    · have hpos := List.length_pos_of_mem hmember
      have hsize := hroot.size
      rw [hperm.length_eq, List.length_cons, List.length_erase_of_mem hmember]
      omega

/-- A member that is swapped on root alone is not on root any more. -/
theorem doSwapHotkey_breaks (hroot : RootSenate senate chain)
    (h : chain.doSwapHotkey rt coldkey oldHotkey newHotkey (some .ROOT) = .ok chain')
    (hmembers : ∀ member ∈ chain'.senateMembers, chain'.RegisteredOnRoot member) :
    oldHotkey ∉ chain.senateMembers := by
  intro hmem
  obtain ⟨-, -, hswapped, -⟩ := doSwapHotkey_registered hroot.uids h .ROOT
  rcases doSwapHotkey_senate h with ⟨hsenate, -⟩ | ⟨hall, -⟩
  · exact (hswapped (List.mem_singleton.mpr rfl)).1 (hmembers oldHotkey (hsenate.symm ▸ hmem))
  · cases hall

/-! ## Whole runs -/

theorem applyRootCall_keeps (hexact : senate.Exact rt) (hroot : RootSenate senate chain)
    (call : RootCall A B P) (hkeeps : call.KeepsSenate rt senate chain) :
    RootSenate senate (applyRootCall rt senate chain call) := by
  cases call with
  | rootRegister coldkey hotkey =>
      simp only [RootCall.KeepsSenate] at hkeeps
      cases h : chain.doRootRegister rt senate coldkey hotkey with
      | error e => rwa [applyRootCall, h]
      | ok chain' =>
          rw [h] at hkeeps
          rw [applyRootCall, h]
          exact doRootRegister_keeps hexact hroot h (hkeeps rfl)
  | adjustSenate coldkey hotkey =>
      cases h : chain.doAdjustSenate rt senate coldkey hotkey with
      | error e => rwa [applyRootCall, h]
      | ok chain' =>
          rw [applyRootCall, h]
          exact doAdjustSenate_keeps hexact hroot h
  | swapHotkey coldkey oldHotkey newHotkey onSubnet =>
      simp only [RootCall.KeepsSenate] at hkeeps
      cases h : chain.doSwapHotkey rt coldkey oldHotkey newHotkey onSubnet with
      | error e => rwa [applyRootCall, h]
      | ok chain' =>
          rw [h] at hkeeps
          rw [applyRootCall, h]
          exact doSwapHotkey_keeps hexact hroot h (hkeeps rfl)
  | other environment => exact hroot.of_eq rfl rfl rfl rfl

theorem applyRootCall_breaks (hexact : senate.Exact rt) (hroot : RootSenate senate chain)
    (call : RootCall A B P)
    (hmembers : ∀ member ∈ (applyRootCall rt senate chain call).senateMembers,
      (applyRootCall rt senate chain call).RegisteredOnRoot member) :
    call.KeepsSenate rt senate chain := by
  cases call with
  | rootRegister coldkey hotkey =>
      simp only [RootCall.KeepsSenate]
      cases h : chain.doRootRegister rt senate coldkey hotkey with
      | error e => rintro ⟨⟩
      | ok chain' =>
          rw [applyRootCall, h] at hmembers
          intro _ pruned hpruned hmember
          exact doRootRegister_breaks hexact hroot h hmembers hpruned hmember
  | adjustSenate coldkey hotkey => trivial
  | swapHotkey coldkey oldHotkey newHotkey onSubnet =>
      simp only [RootCall.KeepsSenate]
      cases h : chain.doSwapHotkey rt coldkey oldHotkey newHotkey onSubnet with
      | error e => rintro ⟨⟩
      | ok chain' =>
          rw [applyRootCall, h] at hmembers
          rintro - rfl
          exact doSwapHotkey_breaks hroot h hmembers
  | other environment => trivial

/-- **The Senate stays on root exactly while no member is pruned or swapped on
root alone.** From a chain on which it is: in every state of a run all members
are registered on root, they are not too many, and whoever is not on root and
has enough stake can register there, if and only if no registration replaces a
member that stays one, and no swap on root alone is of a member. -/
theorem senateOnRoot_run_iff (hexact : senate.Exact rt) (hroot : RootSenate senate chain)
    (calls : List (RootCall A B P)) :
    AllStates (applyRootCall rt senate) (SenateOnRoot rt senate) chain calls ↔
      AllInputs (applyRootCall rt senate) (fun chain call => call.KeepsSenate rt senate chain)
        chain calls :=
  allStates_iff_of_kept (p := SenateOnRoot rt senate) (q := RootSenate senate)
    (c := fun chain call => call.KeepsSenate rt senate chain)
    (fun _ hroot => hroot.senateOnRoot hexact)
    (fun _ call hroot hnext => applyRootCall_breaks hexact hroot call hnext.registered)
    (fun _ call hroot hkeeps => applyRootCall_keeps hexact hroot call hkeeps) hroot calls

/-! ## A member is pruned -/

/-- A Senate of two members. -/
def smallSenate : Senate ℕ := ⟨2, fun members key => .ok (key :: members)⟩

theorem swapSenateMember_perm {members : List ℕ} {remove add : ℕ} (hnodup : members.Nodup)
    (hmem : remove ∈ members) :
    (members.map fun m => if m = remove then add else m).Perm (add :: members.erase remove) := by
  induction members with
  | nil => cases hmem
  | cons first rest ih =>
      obtain ⟨hfirst, hrest⟩ := List.nodup_cons.mp hnodup
      by_cases heq : first = remove
      · subst heq
        have hsame : (rest.map fun m => if m = first then add else m) = rest := by
          refine (List.map_congr_left ?_).trans (List.map_id rest)
          intro m hm
          refine if_neg ?_
          rintro rfl
          exact hfirst hm
        rw [List.map_cons, if_pos rfl, hsame, List.erase_cons_head]
      · rw [List.map_cons, if_neg heq, List.erase_cons_tail (by simpa using heq)]
        exact ((ih hrest ((List.mem_cons.mp hmem).resolve_left (Ne.symm heq))).cons first).trans
          (List.Perm.swap add first _)

theorem smallSenate_exact : smallSenate.Exact runtime where
  addMember := fun _ _ _ => ⟨_, rfl, List.Perm.refl _⟩
  swapMember := fun hnodup hmem _ => ⟨_, rfl, swapSenateMember_perm hnodup hmem⟩

/-- Root has one slot. The hotkey `2` has it and is in the Senate; the hotkey
`3` has more stake. -/
def senateChain : Chain ℕ (Balances ℕ) (SwapStorage ℕ) :=
  { ({ smallChain with
      stakes := { smallChain.stakes with
        totalHotkeyAlpha := ((∅ : StorageMap (ℕ × NetUid) U64).insert (2, .ROOT) (.sat 10)).insert
          (3, .ROOT) (.sat 20) }
      subnets := fun netuid => { smallChain.subnets netuid with maxAllowedUids := .sat 1 } } :
        Chain ℕ (Balances ℕ) (SwapStorage ℕ)).appendNeuron .ROOT 2 with
    senateMembers := [2] }

theorem senateChain_rootSenate : RootSenate smallSenate senateChain := by
  have hstart : UidsAgree ({ smallChain with
      stakes := { smallChain.stakes with
        totalHotkeyAlpha := ((∅ : StorageMap (ℕ × NetUid) U64).insert (2, .ROOT) (.sat 10)).insert
          (3, .ROOT) (.sat 20) }
      subnets := fun netuid => { smallChain.subnets netuid with maxAllowedUids := .sat 1 } } :
        Chain ℕ (Balances ℕ) (SwapStorage ℕ)) :=
    smallChain_noNeurons.uidsAgree.of_eq rfl rfl rfl
  refine ⟨?_, rfl, List.nodup_singleton 2, ?_, by decide⟩
  · exact (appendNeuron_uidsAgree hstart (by decide) (by decide) rfl).of_eq rfl rfl rfl
  · intro member hmem
    cases List.mem_singleton.mp hmem
    unfold RegisteredOnRoot Registered
    decide +kernel

/-- The hotkey `2` is the one to prune. -/
theorem senateChain_lowest : senateChain.lowestRootStake.2 = 0 ∧
    senateChain.lowestRootStake.1.val ≤ 10 := by
  obtain ⟨hleast, huid⟩ := senateChain.lowestRootStake_spec
  refine ⟨?_, hleast 0 2 rfl⟩
  generalize senateChain.lowestRootStake.2 = uid at huid ⊢
  by_contra hne
  have hnone : (senateChain.neurons .ROOT).keys uid = none := Function.update_of_ne hne _ _
  rw [hnone] at huid
  exact huid.elim hne nofun

/-- The hotkey `3` takes the slot of the hotkey `2`, which stays a member. -/
theorem senateOnRoot_run_pruned :
    ¬AllStates (applyRootCall runtime smallSenate) (SenateOnRoot runtime smallSenate) senateChain
      [.rootRegister 10 3] := by
  rintro ⟨-, hlast⟩
  obtain ⟨huid, hstake⟩ := senateChain_lowest
  have hkeeps := applyRootCall_breaks smallSenate_exact senateChain_rootSenate _ hlast.registered
  have hok : (senateChain.doRootRegister runtime smallSenate 10 3).isOk = true := by
    refine senateChain_rootSenate.registers smallSenate_exact 10 ?_ ⟨by decide, by decide⟩ ?_
    · unfold RegisteredOnRoot Registered
      decide
    · refine .inr ⟨2, by rw [huid]; rfl, by decide, ?_⟩
      have hmore : (senateChain.getStakeForHotkeyOnSubnet 3 .ROOT).val = 20 := by decide
      omega
  have hpruned : senateChain.prunedOnRoot = some 2 := by
    unfold prunedOnRoot
    rw [huid]
    rfl
  cases hkeeps hok 2 hpruned (List.mem_singleton.mpr rfl)

/-- A swap on all subnets takes the Senate along. -/
theorem senateOnRoot_run_iff_swapped :
    AllStates (applyRootCall runtime smallSenate) (SenateOnRoot runtime smallSenate) senateChain
        [.swapHotkey 10 2 4 none] ∧
      (applyRootCall runtime smallSenate senateChain (.swapHotkey 10 2 4 none)).senateMembers =
        [4] := by
  refine ⟨?_, by decide +kernel⟩
  rw [senateOnRoot_run_iff smallSenate_exact senateChain_rootSenate]
  exact ⟨fun _ => nofun, trivial⟩

end Chain

end Subtensor
