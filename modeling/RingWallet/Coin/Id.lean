import RingWallet.HashId

/-!
# Coin and account names

A coin is named by the transaction that made it and its place among that transaction's outputs. An
account is named by a number that the wallet gives it.
-/

set_option autoImplicit false

namespace RingWallet

/-- One transaction output. -/
structure CoinId where
  txid : TxId
  index : UInt8
  deriving DecidableEq

namespace CoinId

/-- A coin's name as shown to users. -/
def display (coin : CoinId) : String := coin.txid.toHex ++ ":" ++ toString coin.index.toNat

/-- Coins are ordered by transaction, then by index. -/
instance : OrderKey CoinId where
  key coin := key coin.txid ++ [coin.index.toNat]
  key_injective a b h := by
    obtain ⟨htx, hindex⟩ := List.append_inj' h rfl
    cases a; cases b
    exact congr (congrArg CoinId.mk (OrderKey.key_injective _ _ htx))
      (UInt8.toNat.inj (List.cons.inj hindex).1)

end CoinId

/-- An account of the wallet. -/
structure AccountId where
  number : UInt64
  deriving DecidableEq

namespace AccountId

/-- Accounts are ordered by number. -/
instance : OrderKey AccountId where
  key account := key account.number
  key_injective a b h := by
    cases a; cases b
    exact congrArg AccountId.mk (OrderKey.key_injective _ _ h)

end AccountId

end RingWallet
