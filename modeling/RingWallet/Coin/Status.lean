/-!
# The life of a coin

A tracked coin starts immature and moves forward: spendable, spent, confirmed. Any coin that is not
at its end can become invalid. Confirmed and invalid are the ends (`not_canBecome_of_isTerminal`).
-/

set_option autoImplicit false

namespace RingWallet

/-- Where a tracked coin stands. -/
inductive CoinStatus
  /-- Received, and not usable yet. -/
  | immature
  | spendable
  /-- Spent by a transaction that was sent or seen. -/
  | spent
  /-- Spent by a transaction on the chain whose ring lists the coin. -/
  | confirmed
  /-- Its serial number was used with a ring that does not list the coin. -/
  | invalid
  deriving DecidableEq, Repr

namespace CoinStatus

/-- The number that stands for a status in records. -/
def code : CoinStatus → UInt8
  | immature => 0
  | spendable => 1
  | spent => 2
  | confirmed => 3
  | invalid => 4

/-- The status with a given number. -/
def ofCode? (code : UInt8) : Option CoinStatus :=
  if code = 0 then some immature
  else if code = 1 then some spendable
  else if code = 2 then some spent
  else if code = 3 then some confirmed
  else if code = 4 then some invalid
  else none

/-- The name shown in messages. -/
def label : CoinStatus → String
  | immature => "Immature"
  | spendable => "Spendable"
  | spent => "Spent"
  | confirmed => "Confirmed"
  | invalid => "Invalid"

/-- Whether a status is never left. -/
def isTerminal (status : CoinStatus) : Bool := status == confirmed || status == invalid

/-- Whether one step leads from the first status to the second. -/
def canBecome : CoinStatus → CoinStatus → Bool
  | immature, spendable | spendable, spent | spent, confirmed => true
  | status, invalid => !status.isTerminal
  | _, _ => false

/-- Every status. -/
def all : List CoinStatus := [immature, spendable, spent, confirmed, invalid]

theorem not_canBecome_of_isTerminal {status : CoinStatus} (h : status.isTerminal = true)
    (next : CoinStatus) : status.canBecome next = false := by
  revert h
  cases status <;> cases next <;> decide

end CoinStatus

end RingWallet
