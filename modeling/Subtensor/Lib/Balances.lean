import Subtensor.Lib.StorageMap

/-!
# Balances that can be reserved and transferred

The free and the reserved balance of every account. A reservation and a
transfer move exactly what is asked for or fail; a release frees as much of it
as is reserved.
-/

namespace Subtensor.Lib

structure Balances (A : Type) where
  free : A → ℕ
  reserved : StorageMap A ℕ

namespace Balances

variable {A : Type} [DecidableEq A]

def reservedOf (balances : Balances A) (who : A) : ℕ := (balances.reserved.lookup who).getD 0

/-- What is reserved from all accounts together. -/
def totalReserved (balances : Balances A) : ℕ :=
  StorageMap.sumBy (fun _ amount => amount) balances.reserved

/-! ## Operations -/

def reserve (balances : Balances A) (who : A) (amount : ℕ) : Option (Balances A) :=
  if amount ≤ balances.free who then
    some {
      free := Function.update balances.free who (balances.free who - amount)
      reserved := balances.reserved.insert who (balances.reservedOf who + amount) }
  else none

/-- What a release frees. -/
def released (balances : Balances A) (who : A) (amount : ℕ) : ℕ :=
  min amount (balances.reservedOf who)

/-- Frees what is reserved, up to the amount. -/
def release (balances : Balances A) (who : A) (amount : ℕ) : Balances A where
  free := Function.update balances.free who (balances.free who + balances.released who amount)
  reserved := balances.reserved.insert who
    (balances.reservedOf who - balances.released who amount)

/-- A transfer of free balance. -/
def transfer (balances : Balances A) (source dest : A) (amount : ℕ) : Option (Balances A) :=
  if amount ≤ balances.free source then
    let withdrawn := Function.update balances.free source (balances.free source - amount)
    some { balances with free := Function.update withdrawn dest (withdrawn dest + amount) }
  else none

/-! ## Reserves -/

/-- A release of no more than is reserved is exact. -/
theorem released_eq_iff {balances : Balances A} {who : A} {amount : ℕ} :
    balances.released who amount = amount ↔ amount ≤ balances.reservedOf who := min_eq_left_iff

theorem released_le (balances : Balances A) (who : A) (amount : ℕ) :
    balances.released who amount ≤ balances.reservedOf who := min_le_right _ _

theorem reservedOf_insert (reserved : StorageMap A ℕ) (free : A → ℕ) (who : A) (amount : ℕ) :
    reservedOf ⟨free, reserved.insert who amount⟩ =
      Function.update (fun other => (reserved.lookup other).getD 0) who amount := by
  funext other
  unfold reservedOf
  by_cases heq : other = who
  · subst heq
    rw [Function.update_self, AList.lookup_insert, Option.getD_some]
  · rw [Function.update_of_ne heq, AList.lookup_insert_ne heq]

theorem totalReserved_insert (balances : Balances A) (free : A → ℕ) (who : A) (amount : ℕ) :
    totalReserved ⟨free, balances.reserved.insert who amount⟩ + balances.reservedOf who =
      amount + balances.totalReserved :=
  StorageMap.sumBy_insert_add (fun _ amount => amount) balances.reserved who amount rfl

theorem reserve_eq_some {balances balances' : Balances A} {who : A} {amount : ℕ}
    (h : balances.reserve who amount = some balances') :
    ∃ free, balances' =
      ⟨free, balances.reserved.insert who (balances.reservedOf who + amount)⟩ := by
  unfold reserve at h
  split at h
  · cases h
    exact ⟨_, rfl⟩
  · cases h

theorem reservedOf_of_reserve {balances balances' : Balances A} {who : A} {amount : ℕ}
    (h : balances.reserve who amount = some balances') :
    balances'.reservedOf =
      Function.update balances.reservedOf who (balances.reservedOf who + amount) := by
  obtain ⟨free, rfl⟩ := reserve_eq_some h
  exact reservedOf_insert _ _ _ _

theorem reservedOf_release (balances : Balances A) (who : A) (amount : ℕ) :
    (balances.release who amount).reservedOf = Function.update balances.reservedOf who
      (balances.reservedOf who - balances.released who amount) :=
  reservedOf_insert _ _ _ _

theorem totalReserved_of_reserve {balances balances' : Balances A} {who : A} {amount : ℕ}
    (h : balances.reserve who amount = some balances') :
    balances'.totalReserved = balances.totalReserved + amount := by
  obtain ⟨free, rfl⟩ := reserve_eq_some h
  have := totalReserved_insert balances free who (balances.reservedOf who + amount)
  omega

theorem totalReserved_release (balances : Balances A) (who : A) (amount : ℕ) :
    (balances.release who amount).totalReserved + balances.released who amount =
      balances.totalReserved := by
  have hle := balances.released_le who amount
  have := totalReserved_insert balances
    (Function.update balances.free who (balances.free who + balances.released who amount)) who
    (balances.reservedOf who - balances.released who amount)
  unfold release
  omega

/-! ## Transfers -/

theorem le_free_of_transfer {balances balances' : Balances A} {source dest : A} {amount : ℕ}
    (h : balances.transfer source dest amount = some balances') :
    amount ≤ balances.free source := by
  unfold transfer at h
  split at h
  · assumption
  · cases h

theorem exists_transfer {balances : Balances A} {source : A} (dest : A) {amount : ℕ}
    (h : amount ≤ balances.free source) :
    ∃ balances', balances.transfer source dest amount = some balances' := by
  unfold transfer
  rw [if_pos h]
  exact ⟨_, rfl⟩

/-- Between two accounts a transfer takes from one and gives to the other. -/
theorem free_of_transfer {balances balances' : Balances A} {source dest : A} {amount : ℕ}
    (h : balances.transfer source dest amount = some balances') (hne : source ≠ dest) :
    balances'.free = Function.update
      (Function.update balances.free source (balances.free source - amount)) dest
      (balances.free dest + amount) := by
  unfold transfer at h
  rw [if_pos (le_free_of_transfer h)] at h
  cases h
  dsimp only
  rw [Function.update_of_ne hne.symm]

/-- A transfer takes from no other account than its source. -/
theorem free_le_of_transfer {balances balances' : Balances A} {source dest : A} {amount : ℕ}
    (h : balances.transfer source dest amount = some balances') {who : A} (hne : who ≠ source) :
    balances.free who ≤ balances'.free who := by
  unfold transfer at h
  rw [if_pos (le_free_of_transfer h)] at h
  cases h
  dsimp only
  by_cases hdest : who = dest
  · subst hdest
    rw [Function.update_self, Function.update_of_ne hne]
    exact Nat.le_add_right _ _
  · rw [Function.update_of_ne hdest, Function.update_of_ne hne]

end Balances

end Subtensor.Lib
