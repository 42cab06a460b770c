import LedgerAppendix.Table
import LedgerAppendix.Transaction

/-!
# The account ledger

A ledger knows the balance, the asset holdings and the bound key of every account. An account that
it has never met counts as one with nothing in it; it is kept apart from an empty one only by
`debit`, which refuses an account that nothing has touched.

A key is bound at a height. Binding it again keeps the earlier height, and a different key is never
put in its place. A credit that would pass the greatest balance leaves the ledger as it is.
-/

namespace LedgerAppendix

inductive LedgerError where
  | accountNotFound (account : AccountId)
  | insufficientBalance (account : AccountId) (required available : UInt64)
  | balanceOverflow (account : AccountId)
  | backend (reason : String)
deriving DecidableEq, Repr

def LedgerError.message : LedgerError → String
  | .accountNotFound account => "Account not found: " ++ toString account
  | .insufficientBalance account required available =>
    "Insufficient balance on " ++ toString account ++ ": required " ++ toString required ++
      ", available " ++ toString available
  | .balanceOverflow account => "Balance overflow on account " ++ toString account
  | .backend reason => "Ledger backend error: " ++ reason

/-- A key bound to an account, and the height of the earliest binding. -/
structure KeyBinding where
  key : PublicKey
  height : UInt32
deriving DecidableEq, Repr

/-- The binding after a request to bind a key at a height, or `none` where a different key is
bound. -/
def KeyBinding.rebind? (bound : Option KeyBinding) (key : PublicKey) (height : UInt32) :
    Option KeyBinding :=
  match bound with
  | none => some ⟨key, height⟩
  | some b => if b.key = key then some ⟨key, min b.height height⟩ else none

structure Account where
  balance : UInt64
  assets : Table UInt64
  binding : Option KeyBinding
deriving DecidableEq, Repr

def Account.fresh : Account := ⟨0, .empty, none⟩

/-- The accounts and what each of them has (`InMemoryLedger`). -/
structure Ledger where
  accounts : Table Account
deriving DecidableEq, Repr

namespace Ledger

def empty : Ledger := ⟨.empty⟩

/-- What the ledger knows of an account, which is nothing before it is touched. -/
def account (l : Ledger) (a : AccountId) : Account := (l.accounts.get? a).getD .fresh

def setAccount (l : Ledger) (a : AccountId) (record : Account) : Ledger :=
  ⟨l.accounts.insert a record⟩

theorem account_setAccount (l : Ledger) (a : AccountId) (record : Account) (b : AccountId) :
    (l.setAccount a record).account b = if a = b then record else l.account b := by
  unfold account setAccount
  rw [Table.get?_insert]
  split <;> rfl

/-! ### Looking up -/

def balance (l : Ledger) (a : AccountId) : UInt64 := (l.account a).balance

def assetBalance (l : Ledger) (a : AccountId) (asset : AssetId) : UInt64 :=
  ((l.account a).assets.get? asset).getD 0

def publicKey? (l : Ledger) (a : AccountId) : Option PublicKey := (l.account a).binding.map (·.key)

def keyHeight? (l : Ledger) (a : AccountId) : Option UInt32 := (l.account a).binding.map (·.height)

/-! ### Changing -/

def setBalance (l : Ledger) (a : AccountId) (balance : UInt64) : Ledger :=
  l.setAccount a { l.account a with balance }

def setAssetBalance (l : Ledger) (a : AccountId) (asset : AssetId) (amount : UInt64) : Ledger :=
  l.setAccount a { l.account a with assets := (l.account a).assets.insert asset amount }

/-- Add an amount to a balance (the ledger's `credit`), unless it passes the greatest one. -/
def credit (l : Ledger) (a : AccountId) (amount : UInt64) : Except LedgerError Ledger :=
  if (l.balance a).toNat + amount.toNat < UInt64.size then
    .ok (l.setBalance a (l.balance a + amount))
  else .error (.balanceOverflow a)

/-- Take an amount off a balance (the ledger's `debit`), if it is there. -/
def debit (l : Ledger) (a : AccountId) (amount : UInt64) : Except LedgerError Ledger :=
  if !l.accounts.contains a then .error (.accountNotFound a)
  else if l.balance a < amount then .error (.insufficientBalance a amount (l.balance a))
  else .ok (l.setBalance a (l.balance a - amount))

/-- Bind a key to an account at a height (the ledger's `bind_public_key`). The answer says whether
the key is bound now. -/
def bindKey (l : Ledger) (a : AccountId) (key : PublicKey) (height : UInt32) : Bool × Ledger :=
  match KeyBinding.rebind? (l.account a).binding key height with
  | some binding => (true, l.setAccount a { l.account a with binding := some binding })
  | none => (false, l)

/-! ### What the changes leave alone -/

theorem balance_setBalance (l : Ledger) (a : AccountId) (n : UInt64) (b : AccountId) :
    (l.setBalance a n).balance b = if a = b then n else l.balance b := by
  unfold balance setBalance
  rw [account_setAccount]
  split <;> rfl

theorem balance_bindKey (l : Ledger) (a : AccountId) (key : PublicKey) (height : UInt32)
    (b : AccountId) : (l.bindKey a key height).2.balance b = l.balance b := by
  unfold bindKey
  split
  · unfold balance
    rw [account_setAccount]
    split
    · next h => rw [h]
    · rfl
  · rfl

end Ledger

end LedgerAppendix
