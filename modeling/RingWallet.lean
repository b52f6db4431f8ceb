import RingWallet.Amount
import RingWallet.Inspect.Log
import RingWallet.Inspect.NewAccount
import RingWallet.Inspect.Node
import RingWallet.Proofs.Chain.Maturity
import RingWallet.Proofs.Tracker.SentCoins
import RingWallet.Proofs.Tracker.Window
import RingWallet.Proofs.Tracker.Follow
import RingWallet.Proofs.Tracker.Linkage
import RingWallet.Proofs.Tracker.Progress
import RingWallet.Proofs.Tracker.SeenSpend
import RingWallet.Seed.Rederive
import RingWallet.Proofs.Store.Writes
import RingWallet.Proofs.Tracker.BlockWrites
import RingWallet.Proofs.Tracker.Retry
import RingWallet.Proofs.Store.Share
import RingWallet.Proofs.Tracker.Separation
import RingWallet.Proofs.Seed.Codec
import RingWallet.Proofs.Coin.RingIdentity
import RingWallet.Proofs.HashScheme.Addresses
import RingWallet.Proofs.HashScheme.Context
import RingWallet.Proofs.HashScheme.OneTime
import RingWallet.Proofs.Tracker.Report
import RingWallet.Proofs.HashScheme.Stages
import RingWallet.Proofs.Store.SerialIndex
import RingWallet.Proofs.Tracker.Confirmation
import RingWallet.Proofs.Address.Short
import RingWallet.Proofs.HashScheme.ShortAddresses
import RingWallet.Proofs.Address.Reference
import RingWallet.Proofs.Tracker.FirstInput
import RingWallet.Proofs.Tracker.Marking
import RingWallet.Proofs.Tracker.Attribution
import RingWallet.Proofs.Transaction.Building
import RingWallet.Proofs.HashScheme.Regenerate
import RingWallet.Proofs.HashScheme.Detection
import RingWallet.Proofs.HashScheme.RingPartition
import RingWallet.Proofs.HashScheme.SerialBatches
import RingWallet.Proofs.HashScheme.AddressTable
import RingWallet.Proofs.Seed.Parts
import RingWallet.Proofs.HashScheme.Restoring
import RingWallet.Proofs.Provider.ChecksFirst
import RingWallet.Proofs.Tracker.Fetching
import RingWallet.Proofs.Tracker.Balances
import RingWallet.Proofs.Node.Conversion
import RingWallet.Proofs.HashScheme.BlockBounds
import RingWallet.Proofs.Seed.Generate
import RingWallet.Proofs.Transaction.Signing
import RingWallet.Proofs.HashScheme.RingSize
import RingWallet.Proofs.Config
import RingWallet.Proofs.HashScheme.HexForms
