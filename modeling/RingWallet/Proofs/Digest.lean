import RingWallet.Digest

/-!
# Collisions

Hashes are functions like any other here, so that two byte strings may have one hash. Statements
that rest on a hash name the two byte strings that would have to collide.
-/

set_option autoImplicit false

namespace RingWallet

theorem digest_ne_nil (digest : Digest) : digest.toList ≠ [] := by
  intro hnil
  have hlength := digest.length_eq
  rw [hnil, List.length_nil] at hlength
  omega

/-- Two different byte strings with one hash. -/
structure Collision (hash : Bytes → Digest) (a b : Bytes) : Prop where
  ne : a ≠ b
  hash_eq : hash a = hash b

/-- Byte strings with one hash are the same or collide. -/
theorem hash_eq_iff {hash : Bytes → Digest} {a b : Bytes} :
    hash a = hash b ↔ a = b ∨ Collision hash a b := by
  constructor
  · intro h
    by_cases hsame : a = b
    · exact .inl hsame
    · exact .inr ⟨hsame, h⟩
  · rintro (rfl | hcollision)
    · rfl
    · exact hcollision.hash_eq

end RingWallet
