import RingWallet.Config
import RingWallet.Proofs.Except
import RingWallet.Proofs.Json.Fields
import RingWallet.Proofs.Json.RoundTrip

/-!
# Saving and reloading a configuration

A configuration is valid if no constant of the chain is zero, no range ends before it starts and the
database has a name (`WalletConfig.IsValid`). The checks accept exactly the valid ones
(`WalletConfig.check_eq_ok_iff`). The text of a configuration is read as the configuration whatever
its settings are, so saved settings are reloaded exactly if they are valid, and nothing else is ever
loaded (`WalletConfig.reload_iff_isValid`).
-/

set_option autoImplicit false

namespace RingWallet

open Json (OfNaturals)
open JsonDecoder (uint64_ofUInt64 uint8_ofUInt8)
open JsonRecord (ofTree?_object required_written withDefault_written optional_written)

/-! ## Records of the settings -/

namespace HeightRange

theorem ofNaturals_toJson (range : HeightRange) : OfNaturals range.toJson :=
  .field (.natural _) (.field (.ofOption OfNaturals.natural _) .noFields)

theorem decode_toJson (range : HeightRange) : decode range.toJson.toTree = some range := by
  have hnodup : ["start", "end"].Nodup := by decide
  rw [decode, toJson, ofTree?_object hnodup rfl, Option.bind_eq_bind, Option.bind_some]
  refine Option.bind_eq_some_iff.mpr
    ⟨range.start, required_written hnodup (by simp) (uint64_ofUInt64 _), ?_⟩
  refine Option.bind_eq_some_iff.mpr ⟨range.stop?, ?_, rfl⟩
  exact optional_written hnodup (by simp) uint64_ofUInt64 fun _ heq => nomatch heq

end HeightRange

namespace ChainParams

theorem ofNaturals_toJson (params : ChainParams) : OfNaturals params.toJson :=
  .field (.natural _) (.field (.natural _) (.field (.natural _) .noFields))

theorem decode_toJson (params : ChainParams) : decode params.toJson.toTree = some params := by
  have hnodup : [ChainSetting.coinbaseMaturity.name, ChainSetting.blocksPerGroup.name,
      ChainSetting.ringSize.name].Nodup := by decide
  rw [decode, toJson, ofTree?_object hnodup rfl, Option.bind_eq_bind, Option.bind_some]
  refine Option.bind_eq_some_iff.mpr
    ⟨params.coinbaseMaturity, withDefault_written hnodup (by simp) (uint64_ofUInt64 _), ?_⟩
  refine Option.bind_eq_some_iff.mpr ⟨params.blocksPerGroup, ?_, ?_⟩
  · exact withDefault_written hnodup (by simp) (uint8_ofUInt8 _)
  refine Option.bind_eq_some_iff.mpr ⟨params.ringSize, ?_, rfl⟩
  exact withDefault_written hnodup (by simp) (uint8_ofUInt8 _)

end ChainParams

namespace Network

theorem decode_toJson (network : Network) : decode network.toJson.toTree = some network := by
  rw [decode, toJson, uint8_ofUInt8]
  exact ofCode?_code network

end Network

namespace WalletConfig

theorem ofNaturals_toJson (config : WalletConfig) : OfNaturals config.toJson :=
  .field (.natural _) (.field config.chain.ofNaturals_toJson
    (.field config.coinScan.ofNaturals_toJson (.field config.txTrack.ofNaturals_toJson
      (.field (.string _) .noFields))))

theorem decode_toJson (config : WalletConfig) : decode config.toJson.toTree = some config := by
  have hnodup : ["network_id", "chain", ScanRange.coinScan.name, ScanRange.txTrack.name,
      "db_file_name"].Nodup := by decide
  rw [decode, toJson, ofTree?_object hnodup rfl, Option.bind_eq_bind, Option.bind_some]
  refine Option.bind_eq_some_iff.mpr ⟨config.network, ?_, ?_⟩
  · exact withDefault_written hnodup (by simp) config.network.decode_toJson
  refine Option.bind_eq_some_iff.mpr ⟨config.chain, ?_, ?_⟩
  · exact withDefault_written hnodup (by simp) config.chain.decode_toJson
  refine Option.bind_eq_some_iff.mpr ⟨config.coinScan, ?_, ?_⟩
  · exact withDefault_written hnodup (by simp) config.coinScan.decode_toJson
  refine Option.bind_eq_some_iff.mpr ⟨config.txTrack, ?_, ?_⟩
  · exact withDefault_written hnodup (by simp) config.txTrack.decode_toJson
  refine Option.bind_eq_some_iff.mpr ⟨config.databaseName, ?_, rfl⟩
  have htext : JsonDecoder.text (Json.string config.databaseName).toTree = _ := rfl
  exact withDefault_written hnodup (by simp) htext

end WalletConfig

/-! ## Checks -/

theorem ChainParams.check_eq_ok_iff (params : ChainParams) :
    params.check = .ok () ↔
      params.coinbaseMaturity ≠ 0 ∧ params.blocksPerGroup ≠ 0 ∧ params.ringSize ≠ 0 := by
  unfold ChainParams.check
  split
  · simp_all
  split
  · simp_all
  split
  · simp_all
  · simp_all

/-- A range that has an end is accepted if it does not end before it starts. -/
theorem HeightRange.check_eq_ok_iff (range : HeightRange) (name : ScanRange) :
    range.check name = .ok () ↔ ∀ stop ∈ range.stop?, range.start ≤ stop := by
  unfold HeightRange.check
  cases range.stop? with
  | none => simp
  | some stop =>
    by_cases hlt : stop < range.start
    · simp [hlt, UInt64.not_le.mpr hlt]
    · simp [hlt, UInt64.not_lt.mp hlt]

namespace WalletConfig

/-- The settings of a wallet that make sense. -/
structure IsValid (config : WalletConfig) : Prop where
  coinbaseMaturity_ne_zero : config.chain.coinbaseMaturity ≠ 0
  blocksPerGroup_ne_zero : config.chain.blocksPerGroup ≠ 0
  ringSize_ne_zero : config.chain.ringSize ≠ 0
  coinScan_start_le : ∀ stop ∈ config.coinScan.stop?, config.coinScan.start ≤ stop
  txTrack_start_le : ∀ stop ∈ config.txTrack.stop?, config.txTrack.start ≤ stop
  databaseName_ne_empty : config.databaseName ≠ ""

/-- The checks accept exactly the valid configurations. -/
theorem check_eq_ok_iff (config : WalletConfig) : config.check = .ok () ↔ config.IsValid := by
  have hname : (if config.databaseName.isEmpty then throw (.config .emptyDatabaseName)
      else pure () : Except WalletError Unit) = .ok () ↔ config.databaseName ≠ "" := by
    by_cases hempty : config.databaseName = ""
    · simp [hempty]
    · simp [hempty, pure, Except.pure]
  have hstep : ∀ {first : Except WalletError Unit} {next : Unit → Except WalletError Unit},
      first >>= next = .ok () ↔ first = .ok () ∧ next () = .ok () :=
    bind_eq_ok_iff.trans Unique.exists_iff
  unfold check
  rw [hstep, hstep, hstep, hname, ChainParams.check_eq_ok_iff, HeightRange.check_eq_ok_iff,
    HeightRange.check_eq_ok_iff]
  constructor
  · rintro ⟨⟨hmaturity, hblocks, hring⟩, hcoinScan, htxTrack, hname⟩
    exact ⟨hmaturity, hblocks, hring, hcoinScan, htxTrack, hname⟩
  · intro h
    exact ⟨⟨h.coinbaseMaturity_ne_zero, h.blocksPerGroup_ne_zero, h.ringSize_ne_zero⟩,
      h.coinScan_start_le, h.txTrack_start_le, h.databaseName_ne_empty⟩

/-! ## Text of a configuration -/

/-- The text of a configuration is read as it, whatever its settings are. -/
theorem readText_toText (config : WalletConfig) :
    JsonDecoder.readText decode config.toText = some config := by
  rw [JsonDecoder.readText, toText, Json.read_pretty config.ofNaturals_toJson]
  exact config.decode_toJson

/-- What is loaded has been checked. -/
theorem check_of_ofText {text : String} {config : WalletConfig} (h : ofText text = .ok config) :
    config.check = .ok () := by
  unfold ofText at h
  split at h
  · cases h
  · rename_i found _
    split at h
    · rename_i hcheck
      cases h
      exact hcheck
    · cases h

/-- Saved settings are reloaded exactly if they are valid, and whatever is loaded has passed the
checks. -/
theorem reload_iff_isValid :
    (∀ config : WalletConfig, ofText config.toText = .ok config ↔ config.IsValid) ∧
    ∀ (text : String) (config : WalletConfig),
      ofText text = .ok config → config.check = .ok () := by
  refine ⟨fun config => ?_, fun text config => check_of_ofText⟩
  constructor
  · intro h
    exact config.check_eq_ok_iff.mp (check_of_ofText h)
  · intro h
    rw [ofText, config.readText_toText]
    dsimp only
    rw [config.check_eq_ok_iff.mpr h]

/-- Settings at the ends of their domains, under a name of quotes, backslashes, controls and
characters behind ASCII. -/
def extreme : WalletConfig where
  network := .simulation
  chain := ⟨0xFFFFFFFFFFFFFFFF, 255, 1⟩
  coinScan := ⟨0xFFFFFFFFFFFFFFFF, some 0xFFFFFFFFFFFFFFFF⟩
  txTrack := ⟨0, none⟩
  databaseName := "\"\\/\x00\x08\n\x1f\x7fü𐍈"

theorem extreme_reloads :
    extreme.IsValid ∧ ofText extreme.toText = .ok extreme ∧ extreme.check = .ok () := by
  have hvalid : extreme.IsValid :=
    { coinbaseMaturity_ne_zero := by decide
      blocksPerGroup_ne_zero := by decide
      ringSize_ne_zero := by decide
      coinScan_start_le := by
        rintro stop ⟨⟩
        exact UInt64.le_refl _
      txTrack_start_le := by
        rintro stop ⟨⟩
      databaseName_ne_empty := by decide }
  have hreload := (reload_iff_isValid.1 extreme).mpr hvalid
  exact ⟨hvalid, hreload, reload_iff_isValid.2 extreme.toText extreme hreload⟩

end WalletConfig

end RingWallet
