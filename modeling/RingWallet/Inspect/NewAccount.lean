import RingWallet.HashScheme.Output
import RingWallet.Inspect.Keys

/-!
# Views of a new account

A new account is tried out: it makes two addresses, is made again from the seed that was handed out
for it, and is offered an output to itself and one to a stranger of the same level.
-/

set_option autoImplicit false

namespace RingWallet.Inspect

/-- The value of the outputs that are offered. -/
def offeredValue : UInt64 := 77

/-- A stranger's address of a level. -/
def strangerAddress {σ : Type} (provider : Provider σ) (level : AccountLevel)
    (stream : ByteStream) : WalletM σ CryptoAddress := do
  let (drawn, _) := (Seed.generate level.scheme level.privacyLevel stream).run.run 0
  let seed ← drawn
  let keys ← consult (provider.derive seed)
  CryptoAddress.parse provider keys.address

/-- What an account makes of an output to an address. -/
def offer {σ : Type} (provider : Provider σ) (account : Account) (address : CryptoAddress) :
    WalletM σ (Option UInt64) :=
  account.view.receive provider 1
    (HashScheme.Output.serialize ⟨address.level, address.coin.bytes, offeredValue⟩)

/-- A new account of a level, tried out. The streams are those of the owner and of the stranger. -/
def newAccount {σ : Type} (provider : Provider σ) (level : AccountLevel)
    (stream strangerStream : ByteStream) : WalletM σ Json := do
  let (account, seed) ← Account.generate provider level stream
  let address ← account.makeAddress provider
  let another ← account.makeAddress provider
  let restored ← Account.ofSeedBytes provider seed
  let stranger ← strangerAddress provider level strangerStream
  return .object [
    ("kind", view account.view.kind.label), ("scheme", view account.view.scheme),
    ("level", view account.view.level), ("account_scheme", view level.scheme),
    ("account_level", view level.privacyLevel), ("seed_len", view seed.length),
    ("seed_kind", view account.seed.kind.label),
    ("dump_is_seed", view (decide (account.dump = seed))),
    ("address_len", view address.bytes.length),
    ("abel_len", view (AppAddress.mk .main address).bytes.length),
    ("restored", view (← offer provider restored address)),
    ("fresh", view (decide (address.bytes ≠ another.bytes))),
    ("random_len", view stranger.bytes.length),
    ("random_valid", view (← consult (provider.validateAddress stranger.bytes))),
    ("receive_random", view (← offer provider account stranger))]

end RingWallet.Inspect
