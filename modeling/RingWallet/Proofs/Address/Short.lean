import RingWallet.Address.Short
import RingWallet.Proofs.Address.Parse

/-!
# Short addresses are read from what they are written as

A short address that was read has the bytes it was read from (`ShortAddress.bytes_of_parse`). The
other way round, from its bytes a short address is read back with the header that its header bytes
stand for (`ShortAddress.parse_bytes`), and this need not be its own: the second metadata byte of a
legacy address is zero, which is read as a header without fields, or not at all
(`ShortHeader.reread_v2`). So the forms of version one and of the scheme's own version are always
read back, and the form of version two exactly for the current scheme
(`ShortAddress.renderings_read_back`).

A short address refers to the addresses with the same bytes, up to collisions of its hash
(`ShortAddress.refersTo_or_collision`).
-/

set_option autoImplicit false

namespace RingWallet

/-! ## Headers -/

/-- The two halves of a byte. -/
theorem byte_of_halves (byte : UInt8) :
    (byte &&& (0x0F : UInt8)) ||| (byte >>> (4 : UInt8)) <<< (4 : UInt8) = byte := by
  obtain ⟨bits⟩ := byte
  revert bits
  decide +kernel

/-- The two upper pairs of bits of a byte whose lower half is zero. -/
theorem byte_of_upper_pairs {byte : UInt8} (h : byte &&& (0x0F : UInt8) = 0) :
    ((byte >>> (4 : UInt8)) &&& (0x03 : UInt8)) <<< (4 : UInt8) |||
      (byte >>> (6 : UInt8)) <<< (6 : UInt8) = byte := by
  obtain ⟨bits⟩ := byte
  revert bits
  decide +kernel

namespace ShortMetadata

/-- Metadata are read from exactly their bytes, if they are of the current version and their level
belongs to their scheme. -/
theorem ofBytes_eq_ok_iff {first second : UInt8} {metadata : ShortMetadata} :
    ofBytes first second = .ok metadata ↔
      metadata.version = currentVersion ∧ metadata.level.scheme = metadata.scheme ∧
        metadata.bytes = (first, second) := by
  constructor
  · intro h
    simp only [ofBytes] at h
    -- The fields are asked for one after the other, and the first that is refused ends the reading.
    split at h
    · cases h
    rename_i hversion
    split at h
    · cases h
    rename_i hreserved
    split at h
    · cases h
    rename_i network hnetwork
    split at h
    · cases h
    rename_i scheme hscheme
    split at h
    · cases h
    rename_i level hlevel
    split at h
    · rename_i hsupports
      cases h
      rw [Decidable.not_not] at hversion hreserved
      refine ⟨hversion, by simpa [CryptoScheme.supports] using hsupports, ?_⟩
      simp only [bytes, ← Network.ofCode?_eq_some_iff.mp hnetwork,
        ← CryptoScheme.ofCode?_eq_some_iff.mp hscheme,
        ← PrivacyLevel.ofCode?_eq_some_iff.mp hlevel, UInt8.and_assoc, UInt8.and_self,
        UInt8.toUInt8_toUInt32]
      rw [byte_of_halves, byte_of_upper_pairs hreserved]
    · cases h
  · rintro ⟨hversion, hscheme, hbytes⟩
    obtain ⟨version, network, scheme, level⟩ := metadata
    obtain rfl : version = currentVersion := hversion
    obtain rfl : level.scheme = scheme := hscheme
    obtain ⟨rfl, rfl⟩ := Prod.mk.inj hbytes
    cases network <;> cases level <;> rfl

end ShortMetadata

namespace ShortHeader

theorem networkOfV1Byte?_eq_some_iff {byte : UInt8} {network : Network} :
    networkOfV1Byte? byte = some network ↔ byte = v1Base + network.code := by
  constructor
  · intro h
    unfold networkOfV1Byte? at h
    split at h
    · cases h
    · rw [← Network.ofCode?_eq_some_iff.mp h, UInt8.add_comm, UInt8.sub_add_cancel]
  · rintro rfl
    cases network <;> rfl

/-- What the bytes of a header stand for. -/
def reread : ShortHeader → Except WalletError ShortHeader
  | v1 network => .ok (v1 network)
  | v2 metadata => ofMetadata metadata.bytes.1 metadata.bytes.2
  | v2Unspecified version => ofMetadata version 0

/-- A header that was read from metadata bytes has these bytes. -/
theorem bytes_of_ofMetadata {first second : UInt8} {header : ShortHeader}
    (h : ofMetadata first second = .ok header) :
    header.bytes = [mark, v2Marker, first, second] := by
  unfold ofMetadata at h
  split at h
  · rename_i hzero
    obtain rfl := hzero
    split at h
    · cases h
      rfl
    · cases h
  · obtain ⟨metadata, hread, rfl⟩ := map_eq_ok_iff.mp h
    obtain ⟨-, -, hbytes⟩ := ShortMetadata.ofBytes_eq_ok_iff.mp hread
    simp [bytes, hbytes]

/-- The version-two header of an address stands for itself under the current scheme. Under the
legacy scheme its second metadata byte is zero: on the main network it stands for a header without
fields, and on the others for none. -/
theorem reread_v2 (network : Network) (level : PrivacyLevel) :
    (v2 ⟨ShortMetadata.currentVersion, network, level.scheme, level⟩).reread =
      match level.scheme with
      | .pqRingCtX => .ok (v2 ⟨ShortMetadata.currentVersion, network, level.scheme, level⟩)
      | .pqRingCt =>
        if network = .main then .ok (v2Unspecified ShortMetadata.currentVersion)
        else .error (.invalidAddress
          (.shortMetadata (ShortMetadata.currentVersion ||| network.code <<< (4 : UInt8)) 0)) := by
  cases level <;> cases network <;> rfl

end ShortHeader

namespace ShortAddress

/-! ## Reading -/

theorem readHeader_bytes_append (header : ShortHeader) {rest : Bytes} (hlength : rest.length = 64) :
    readHeader (header.bytes ++ rest) = header.reread.map (·, rest) := by
  cases header with
  | v1 network =>
    have hnetwork : ShortHeader.networkOfV1Byte? (ShortHeader.v1Base + network.code) =
        some network := ShortHeader.networkOfV1Byte?_eq_some_iff.mpr rfl
    simp [readHeader, ShortHeader.bytes, ShortHeader.reread, hlength, hnetwork, Except.map]
  | v2 metadata =>
    simp [readHeader, ShortHeader.bytes, ShortHeader.reread, hlength, v1Length, v2Length]
  | v2Unspecified version =>
    simp [readHeader, ShortHeader.bytes, ShortHeader.reread, hlength, v1Length, v2Length]

theorem parse_of_readHeader {data : Bytes} {header : ShortHeader} {fingerprint hash : Digest}
    (h : readHeader data = .ok (header, fingerprint.toList ++ hash.toList)) :
    parse data = .ok ⟨header, fingerprint, hash⟩ := by
  have hfingerprint : FixedBytes.ofList? 32 ((fingerprint.toList ++ hash.toList).take 32) =
      some fingerprint := by
    rw [List.take_left' fingerprint.length_eq, FixedBytes.ofList?_toList]
  have hhash : FixedBytes.ofList? 32 ((fingerprint.toList ++ hash.toList).drop 32) =
      some hash := by
    rw [List.drop_left' fingerprint.length_eq, FixedBytes.ofList?_toList]
  simp only [parse, h, bind, Except.bind, hfingerprint, hhash]
  rfl

/-- From its bytes a short address is read back with the header that its header bytes stand for. -/
theorem parse_bytes (short : ShortAddress) :
    parse short.bytes = short.header.reread.map fun header => { short with header } := by
  have hlength : (short.fingerprint.toList ++ short.hash.toList).length = 64 := by simp
  have hheader := readHeader_bytes_append short.header hlength
  rw [← List.append_assoc] at hheader
  cases hread : short.header.reread with
  | error e =>
    rw [hread] at hheader
    rw [parse, bytes, hheader]
    rfl
  | ok header =>
    rw [hread] at hheader
    exact parse_of_readHeader hheader

theorem bytes_append_of_readHeader {data rest : Bytes} {header : ShortHeader}
    (h : readHeader data = .ok (header, rest)) : header.bytes ++ rest = data := by
  unfold readHeader at h
  split at h
  · cases h
  rename_i hmark
  rw [Decidable.not_not, List.head?_eq_some_iff] at hmark
  obtain ⟨behindMark, rfl⟩ := hmark
  split at h
  · rename_i second behind hdrop
    obtain rfl : behindMark = second :: behind := hdrop
    split at h
    · -- Version one: the second byte is the network's.
      split at h
      · rename_i network hnetwork
        cases h
        rw [ShortHeader.networkOfV1Byte?_eq_some_iff.mp hnetwork]
        rfl
      · cases h
    · split at h
      · -- Version two: two metadata bytes stand behind the marker.
        split at h
        · cases h
        rename_i hmarker
        rw [Decidable.not_not] at hmarker
        obtain rfl := hmarker
        split at h
        · obtain ⟨found, hfound, hpair⟩ := map_eq_ok_iff.mp h
          cases hpair
          rw [ShortHeader.bytes_of_ofMetadata hfound]
          rfl
        · cases h
      · cases h
  · cases h

/-- A short address that was read has the bytes it was read from. -/
theorem bytes_of_parse {data : Bytes} {short : ShortAddress} (h : parse data = .ok short) :
    short.bytes = data := by
  obtain ⟨⟨header, rest⟩, hheader, h⟩ := bind_eq_ok_iff.mp h
  dsimp only at h
  split at h
  · rename_i fingerprint hash hfingerprint hhash
    cases h
    rw [bytes, ← FixedBytes.ofList?_eq_some_iff.mp hfingerprint,
      ← FixedBytes.ofList?_eq_some_iff.mp hhash, List.append_assoc, List.take_append_drop]
    exact bytes_append_of_readHeader hheader
  · cases h

/-! ## The forms of an address -/

/-- A short address is read back from its bytes exactly if its header stands for itself. -/
theorem parse_bytes_eq_iff (short : ShortAddress) :
    parse short.bytes = .ok short ↔ short.header.reread = .ok short.header := by
  rw [parse_bytes, map_eq_ok_iff]
  constructor
  · rintro ⟨header, hread, hsame⟩
    rw [hread, ← hsame]
  · exact fun hread => ⟨short.header, hread, rfl⟩

theorem parse_v1 (address : AppAddress) : parse (v1 address).bytes = .ok (v1 address) :=
  (parse_bytes_eq_iff _).mpr rfl

theorem parse_v2 (address : AppAddress) :
    parse (v2 address).bytes =
      match address.scheme with
      | .pqRingCtX => .ok (v2 address)
      | .pqRingCt =>
        if address.network = .main then
          .ok { v2 address with header := .v2Unspecified ShortMetadata.currentVersion }
        else .error (.invalidAddress (.shortMetadata
          (ShortMetadata.currentVersion ||| address.network.code <<< (4 : UInt8)) 0)) := by
  have hreread : (v2 address).header.reread = _ :=
    ShortHeader.reread_v2 address.network address.level
  have hscheme : address.level.scheme = address.scheme := rfl
  rw [parse_bytes, hreread, hscheme]
  cases hcase : address.scheme with
  | pqRingCtX =>
    rw [v2, hcase]
    rfl
  | pqRingCt =>
    dsimp only
    split
    · rfl
    · rfl

/-- The form that belongs to the scheme of an address is read back. -/
theorem parse_ofAddress (address : AppAddress) :
    parse (ofAddress address).bytes = .ok (ofAddress address) := by
  unfold ofAddress
  cases hscheme : address.scheme with
  | pqRingCt => exact parse_v1 address
  | pqRingCtX => exact (parse_v2 address).trans (by rw [hscheme])

/-- For every application address, the short address of version one and the one of the version that
belongs to the address's scheme are read back from their bytes. The short address of version two is
read back exactly if the address is of the current scheme. For an address of the legacy scheme, one
with another header is read instead on the main network, and none on the others. -/
theorem renderings_read_back (address : AppAddress) :
    parse (v1 address).bytes = .ok (v1 address) ∧
      parse (ofAddress address).bytes = .ok (ofAddress address) ∧
      (parse (v2 address).bytes = .ok (v2 address) ↔ address.scheme = .pqRingCtX) ∧
      parse (v2 address).bytes =
        match address.scheme with
        | .pqRingCtX => .ok (v2 address)
        | .pqRingCt =>
          if address.network = .main then
            .ok { v2 address with header := .v2Unspecified ShortMetadata.currentVersion }
          else .error (.invalidAddress (.shortMetadata
            (ShortMetadata.currentVersion ||| address.network.code <<< (4 : UInt8)) 0)) := by
  refine ⟨parse_v1 address, parse_ofAddress address, ?_, parse_v2 address⟩
  rw [parse_v2]
  cases address.scheme with
  | pqRingCtX => simp
  | pqRingCt =>
    -- What is read instead has another header.
    dsimp only
    split
    · simp [v2, ofHeader]
    · simp

/-- A legacy address of zeros. -/
def blankLegacy (network : Network) : AppAddress where
  network := network
  crypto :=
    { bytes := CryptoScheme.pqRingCt.tag ++ List.replicate 10692 0
      coin := ⟨.ringCtPre, List.replicate 9504 0, List.length_replicate⟩
      tag_eq := CryptoScheme.ofTag?_tag_append .pqRingCt _
      length_eq := by
        rw [List.length_append, List.length_replicate]
        rfl }

/-- The version-two short address of a legacy address is read back as another one on the main
network, and not at all on the test network. -/
theorem not_every_rendering_read_back :
    parse (v2 (blankLegacy .main)).bytes ≠ .ok (v2 (blankLegacy .main)) ∧
      parse (v2 (blankLegacy .test)).bytes =
        .error (.invalidAddress (.shortMetadata 0x21 0)) := by
  refine ⟨?_, ?_⟩
  · rw [ne_eq, parse_bytes_eq_iff]
    decide +kernel
  · rw [parse_v2]
    rfl

/-! ## References -/

theorem network?_ofAddress (address : AppAddress) :
    (ofAddress address).network? = some address.network := by
  unfold ofAddress
  split
  · rfl
  · rfl

theorem ofAddress_refersTo_iff (a b : AppAddress) :
    (ofAddress a).refersTo b = true ↔
      a.network = b.network ∧ a.crypto.fingerprint = b.crypto.fingerprint ∧
        sha256 a.bytes = sha256 b.bytes := by
  have hparts : (ofAddress a).fingerprint = a.crypto.fingerprint ∧
      (ofAddress a).hash = sha256 a.bytes := by
    unfold ofAddress
    split
    · exact ⟨rfl, rfl⟩
    · exact ⟨rfl, rfl⟩
  simp [refersTo, network?_ofAddress, hparts, and_assoc]

/-- A short address refers to exactly the addresses with the bytes of its own, or the two collide.
With its bytes an address shares network and hash; its fingerprint it shares as well if its crypto
address was taken apart in the same way. -/
theorem refersTo_or_collision {a b : AppAddress}
    (hcoin : b.crypto.bytes = a.crypto.bytes → b.crypto.coin = a.crypto.coin) :
    ((ofAddress a).refersTo b = true ↔ b.bytes = a.bytes) ∨ Collision sha256 b.bytes a.bytes := by
  by_cases hcollision : Collision sha256 b.bytes a.bytes
  · exact .inr hcollision
  · refine .inl ⟨fun href => ?_, fun hsame => ?_⟩
    · obtain ⟨-, -, hhash⟩ := (ofAddress_refersTo_iff a b).mp href
      exact (hash_eq_iff.mp hhash.symm).resolve_right hcollision
    · obtain ⟨hnetwork, hcrypto⟩ := AppAddress.parts_eq_of_bytes_eq hsame
      refine (ofAddress_refersTo_iff a b).mpr ⟨hnetwork.symm, ?_, by rw [hsame]⟩
      exact congrArg CoinAddress.fingerprint (hcoin hcrypto).symm

end ShortAddress

end RingWallet
