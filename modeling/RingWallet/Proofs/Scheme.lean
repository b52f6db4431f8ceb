import RingWallet.Scheme

/-!
# Tags and headers

A scheme is read from exactly the byte strings that start with its tag, and a level from exactly its
number.
-/

set_option autoImplicit false

namespace RingWallet

namespace CryptoScheme

theorem ofCode?_eq_some_iff {code : UInt32} {scheme : CryptoScheme} :
    ofCode? code = some scheme ↔ code = scheme.code := by
  constructor
  · intro h
    unfold ofCode? at h
    split at h
    · cases h
      assumption
    · split at h
      · cases h
        assumption
      · cases h
  · rintro rfl
    exact ofCode?_code scheme

/-- A tag has four bytes. -/
theorem drop_tag_append (scheme : CryptoScheme) (rest : Bytes) :
    (scheme.tag ++ rest).drop tagLength = rest := by
  cases scheme <;> rfl

/-- A scheme is read exactly where its tag stands in front. -/
theorem ofTag?_eq_some_iff {data : Bytes} {scheme : CryptoScheme} :
    ofTag? data = some scheme ↔ ∃ rest, data = scheme.tag ++ rest := by
  constructor
  · intro h
    simp only [ofTag?] at h
    split at h
    · cases h
    · rename_i hlength
      have htake : (data.take tagLength).length = 4 :=
        List.length_take_of_le (Nat.le_of_not_lt hlength)
      have hcode := ofCode?_eq_some_iff.mp h
      -- The first four bytes are the digits of the scheme's number.
      have hnumber : Bytes.toNatLE (data.take tagLength) = scheme.code.toNat := by
        have hlt := Bytes.toNatLE_lt (data.take tagLength)
        rw [htake] at hlt
        rw [← hcode, UInt32.toNat_ofNat_of_lt' hlt]
      have htag : data.take tagLength = scheme.tag := by
        have hback := Bytes.ofNatLE_toNatLE (data.take tagLength)
        rw [htake, hnumber] at hback
        exact hback.symm
      exact ⟨data.drop tagLength, by rw [← htag, List.take_append_drop]⟩
  · rintro ⟨rest, rfl⟩
    exact ofTag?_tag_append scheme rest

end CryptoScheme

namespace PrivacyLevel

theorem ofCode?_eq_some_iff {code : UInt8} {level : PrivacyLevel} :
    ofCode? code = some level ↔ code = level.code := by
  constructor
  · intro h
    unfold ofCode? at h
    split at h
    · cases h
      assumption
    · split at h
      · cases h
        assumption
      · split at h
        · cases h
          assumption
        · cases h
  · rintro rfl
    exact ofCode?_code level

end PrivacyLevel

end RingWallet
