import RingWallet.HashScheme.Failure

/-!
# Outputs of the stand-in scheme

```text
level(1) coin address length(4) coin address value(8)
```
-/

set_option autoImplicit false

namespace RingWallet.HashScheme

/-- An output in the clear. -/
structure Output where
  level : PrivacyLevel
  coinAddress : Bytes
  value : UInt64
  deriving DecidableEq

namespace Output

/-- The serialized form. -/
def serialize (output : Output) : Bytes :=
  output.level.code ::
    (Bytes.ofNatLE 4 output.coinAddress.length ++ output.coinAddress ++ Bytes.ofUInt64 output.value)

/-- The output with a given serialized form. -/
def parse (data : Bytes) : Except Failure Output :=
  match data with
  | [] => .error .malformedOutput
  | code :: behind =>
    match PrivacyLevel.ofCode? code with
    | none => .error .unknownOutputLevel
    | some level =>
      let length := Bytes.toNatLE (behind.take 4)
      if behind.length = 4 + length + 8 then
        .ok {
          level
          coinAddress := (behind.drop 4).take length
          value := UInt64.ofNat (Bytes.toNatLE (behind.drop (4 + length))) }
      else .error .malformedOutput

end Output

end RingWallet.HashScheme
