import RingWallet.Proofs.Outcome
import RingWallet.Proofs.Seed.Codec
import RingWallet.Seed.Generate

/-!
# Seeds drawn from a stream

The fields of a new seed are drawn, put into the seed and written in the same order at every level,
so that side by side they are one stretch of the random stream (`KeySeeds.exists_draw`). No byte of
it is passed over, and none stands in two fields.

`Seed.generate_spends_stream` says so of the whole operation: the serialized seed is the header of
its level and the stretch behind it, as long as the level has fields, and a pair of scheme and level
that does not exist draws nothing.
-/

set_option autoImplicit false

namespace RingWallet

namespace ByteStream

/-- So many bytes of the stream, from a place on. -/
def stretch (stream : ByteStream) (place count : Nat) : Bytes :=
  (List.range' place count).map stream

/-- A stretch ends where the next one starts. -/
theorem stretch_append (stream : ByteStream) (place count more : Nat) :
    stream.stretch place count ++ stream.stretch (place + count) more =
      stream.stretch place (count + more) := by
  unfold stretch
  rw [← List.map_append, List.range'_append_1]

theorem toList_fieldAt (stream : ByteStream) (place : Nat) :
    (stream.fieldAt place).toList = stream.stretch place CryptoScheme.seedLength := by
  unfold stretch
  rw [List.range'_eq_map_range, List.map_map]
  rfl

end ByteStream

/-- Fields taken one behind the other are one stretch, cut at every field's length. -/
theorem ByteStream.flatMap_fieldAt (stream : ByteStream) (place count : Nat) :
    ((List.range' place count CryptoScheme.seedLength).map stream.fieldAt).flatMap
        FixedBytes.toList =
      stream.stretch place (CryptoScheme.seedLength * count) := by
  induction count generalizing place with
  | zero => rfl
  | succ count ih =>
    rw [List.range'_succ, List.map_cons, List.flatMap_cons, ih, toList_fieldAt, stretch_append,
      Nat.mul_succ, Nat.add_comm (CryptoScheme.seedLength * count)]

/-- Key seeds of a level are drawn as the next stretch of the stream. -/
theorem KeySeeds.exists_draw (level : PrivacyLevel) (stream : ByteStream) (place : Nat) :
    ∃ keys : KeySeeds,
      (draw level stream).run place =
        (keys, place + CryptoScheme.seedLength * level.fieldCount) ∧
      keys.level = level ∧
      keys.fields.flatMap FixedBytes.toList =
        stream.stretch place (CryptoScheme.seedLength * level.fieldCount) := by
  -- At each level the fields as they are written are those at the next places, in order.
  cases level with
  | ringCtPre =>
    exact ⟨.legacy (stream.fieldAt place) (stream.fieldAt (place + 64)), rfl, rfl,
      stream.flatMap_fieldAt place 2⟩
  | ringCt =>
    exact ⟨.fullPrivacy (stream.fieldAt place) (stream.fieldAt (place + 64))
      (stream.fieldAt (place + 64 + 64)) (stream.fieldAt (place + 64 + 64 + 64)), rfl, rfl,
      stream.flatMap_fieldAt place 4⟩
  | pseudonym =>
    exact ⟨.pseudonym (stream.fieldAt place) (stream.fieldAt (place + 64)), rfl, rfl,
      stream.flatMap_fieldAt place 2⟩

namespace Seed

/-- A seed without public randomness is written as the header of its level and its key seeds. -/
theorem serialize_of_publicRand?_eq_none {seed : Seed} (h : seed.publicRand? = none) :
    seed.serialize = seed.level.header ++ seed.keys.fields.flatMap FixedBytes.toList := by
  rw [serialize_eq, h, Option.map_none, Option.getD_none, List.append_nil]

/-- The seed that is drawn has the key seeds drawn for its level, and is of the kind its scheme has
without public randomness. -/
theorem outcome_generate_of_supports {scheme : CryptoScheme} {level : PrivacyLevel}
    (hsupports : scheme.supports level = true) {stream : ByteStream} {place after : Nat}
    {keys : KeySeeds} (hdraw : (KeySeeds.draw level stream).run place = (keys, after))
    (hlevel : keys.level = level) :
    ∃ seed, outcome (generate scheme level stream) place = (.ok seed, after) ∧
      seed.keys = keys ∧
      seed.kind = (if scheme = .pqRingCt then .oneTime else .root) ∧
      seed.publicRand? = none := by
  have hscheme : keys.scheme = scheme := by
    unfold KeySeeds.scheme
    rw [hlevel]
    exact eq_of_beq hsupports
  unfold generate
  rw [if_pos hsupports, outcome_bind, outcome_liftState, hdraw]
  cases scheme with
  | pqRingCt =>
    have hkeys : OneTimeSeed.ofKeys keys none = .ok ⟨keys, none, by rw [hscheme]; rfl⟩ :=
      OneTimeSeed.ofKeys_eq_ok_iff.mpr ⟨rfl, rfl⟩
    dsimp only
    rw [outcome_lift, hkeys]
    exact ⟨_, rfl, rfl, rfl, rfl⟩
  | pqRingCtX =>
    have hkeys : RootSeed.ofKeys keys = .ok ⟨keys, hscheme⟩ := RootSeed.ofKeys_eq_ok_iff.mpr rfl
    dsimp only
    rw [outcome_lift, hkeys]
    exact ⟨_, rfl, rfl, rfl, rfl⟩

/-- A new seed takes from the stream what it is written with. At a supported pair of scheme and
level the draw succeeds wherever it starts, takes one field's length for each field of the level,
and the serialized seed is the header of the level and that stretch of the stream. The seed is
long-lived under the current scheme and for one use under the legacy scheme, has no public
randomness, and is read back from its serialized form. At any other pair the draw fails and takes
nothing. -/
theorem generate_spends_stream (scheme : CryptoScheme) (level : PrivacyLevel)
    (stream : ByteStream) (place : Nat) :
    (scheme.supports level = true →
      ∃ seed, outcome (generate scheme level stream) place =
          (.ok seed, place + CryptoScheme.seedLength * level.fieldCount) ∧
        seed.scheme = scheme ∧ seed.level = level ∧
        seed.serialize =
          level.header ++ stream.stretch place (CryptoScheme.seedLength * level.fieldCount) ∧
        seed.kind = (if scheme = .pqRingCt then .oneTime else .root) ∧
        seed.publicRand? = none ∧
        deserialize seed.serialize = .ok seed) ∧
    (scheme.supports level = false →
      outcome (generate scheme level stream) place = (.error .invalidPrivacyLevel, place)) := by
  constructor
  · intro hsupports
    obtain ⟨keys, hdraw, hlevel, hfields⟩ := KeySeeds.exists_draw level stream place
    obtain ⟨seed, hseed, rfl, hkind, hrand⟩ :=
      outcome_generate_of_supports hsupports hdraw hlevel
    refine ⟨seed, hseed, ?_, hlevel, ?_, hkind, hrand, deserialize_eq_ok_iff.mpr rfl⟩
    · unfold Seed.scheme KeySeeds.scheme
      rw [hlevel]
      exact eq_of_beq hsupports
    · rw [serialize_of_publicRand?_eq_none hrand, hfields, Seed.level, hlevel]
  · intro hsupports
    unfold generate
    rw [if_neg (by rw [hsupports]; exact Bool.false_ne_true)]
    rfl

/-- A fresh full-privacy seed is its header and the first 256 bytes of the stream; the level does
not exist under the legacy scheme, where nothing is taken. -/
theorem generate_ringCt_from_start :
    (∃ seed, outcome (generate .pqRingCtX .ringCt UInt8.ofNat) 0 = (.ok seed, 256) ∧
      seed.serialize =
        PrivacyLevel.ringCt.header ++ (List.range 256).map UInt8.ofNat) ∧
    outcome (generate .pqRingCt .ringCt UInt8.ofNat) 0 = (.error .invalidPrivacyLevel, 0) := by
  refine ⟨?_, (generate_spends_stream .pqRingCt .ringCt UInt8.ofNat 0).2 rfl⟩
  obtain ⟨seed, hseed, -, -, hserialize, -⟩ :=
    (generate_spends_stream .pqRingCtX .ringCt UInt8.ofNat 0).1 rfl
  refine ⟨seed, hseed, hserialize.trans ?_⟩
  rw [List.range_eq_range']
  rfl

end Seed

end RingWallet
