import Screech.Params

/-!
# What the name parser accepts

`NoiseParams::from_str` takes five pieces from the split on `_` and parses
each in turn; it never asks the split for a sixth. So a name is accepted
exactly when it has at least five fields and its first five parse, and every
field after the fifth is ignored (`fromStr_eq_ok`). The DH field under the
`hfs` feature is alike: at most two pieces are taken from its split on `+`
(`fromStrHfs_eq_ok`). The whole name, trailing fields included, is kept in
`name`, which `HandshakeState::new` hashes into the handshake, so a name with
a trailing field parses to the primitives of the name without it and yet
gives another transcript (`fromStr_ignores_trailing_fields`).

Both inversions follow the `do` blocks step by step: one `except_bind_eq_ok`
per `?`, one `nextField_eq_ok` per `split.next()`.
-/

namespace Screech

theorem except_bind_eq_ok {ε α β : Type} {x : Except ε α} {f : α → Except ε β} {b : β} :
    x.bind f = .ok b ↔ ∃ a, x = .ok a ∧ f a = .ok b := by
  cases x <;> simp [Except.bind]

theorem nextField_eq_ok {l : List String} {f : String} {rest : List String} :
    nextField l = .ok (f, rest) ↔ l = f :: rest := by
  cases l <;> simp [nextField, eq_comm]

theorem parseKem_eq_ok {fields : List String} {kem : Option KemChoice} :
    parseKem fields = .ok kem ↔ (fields = [] ∧ kem = none) ∨
      ∃ k more choice, fields = k :: more ∧ KemChoice.fromStr k = .ok choice ∧
        kem = some choice := by
  constructor
  · intro ok
    rcases fields with _ | ⟨k, more⟩
    · exact .inl ⟨rfl, (Except.ok.inj ok).symm⟩
    · cases kemChoice : KemChoice.fromStr k with
      | error e => rw [parseKem, kemChoice] at ok; cases ok
      | ok choice =>
        rw [parseKem, kemChoice] at ok
        exact .inr ⟨k, more, choice, rfl, kemChoice, (Except.ok.inj ok).symm⟩
  · rintro (⟨rfl, rfl⟩ | ⟨k, more, choice, rfl, kemChoice, rfl⟩)
    · rfl
    · rw [parseKem, kemChoice]; rfl

namespace NoiseParams

/-- Without `hfs`, a name is accepted exactly when its split on `_` has at
least five fields and the first five parse; the parameters are those five
choices and the whole name. -/
theorem fromStr_eq_ok {s : String} {p : NoiseParams} :
    fromStr s = .ok p ↔
      ∃ b h d c hs rest base handshake dh cipher hash,
        splitOn s '_' = b :: h :: d :: c :: hs :: rest ∧ BaseChoice.fromStr b = .ok base ∧
        HandshakeChoice.fromStr h = .ok handshake ∧ DHChoice.fromStr d = .ok dh ∧
        CipherChoice.fromStr c = .ok cipher ∧ HashChoice.fromStr hs = .ok hash ∧
        p = NoiseParams.new s base handshake dh cipher hash := by
  constructor
  · intro ok
    obtain ⟨⟨b, split⟩, hb, ok⟩ := except_bind_eq_ok.mp ok
    obtain ⟨base, base_ok, ok⟩ := except_bind_eq_ok.mp ok
    obtain ⟨⟨h, split⟩, hh, ok⟩ := except_bind_eq_ok.mp ok
    obtain ⟨handshake, handshake_ok, ok⟩ := except_bind_eq_ok.mp ok
    obtain ⟨⟨d, split⟩, hd, ok⟩ := except_bind_eq_ok.mp ok
    obtain ⟨dh, dh_ok, ok⟩ := except_bind_eq_ok.mp ok
    obtain ⟨⟨c, split⟩, hc, ok⟩ := except_bind_eq_ok.mp ok
    obtain ⟨cipher, cipher_ok, ok⟩ := except_bind_eq_ok.mp ok
    obtain ⟨⟨hs, rest⟩, hhs, ok⟩ := except_bind_eq_ok.mp ok
    obtain ⟨hash, hash_ok, built⟩ := except_bind_eq_ok.mp ok
    rw [nextField_eq_ok] at hb hh hd hc hhs
    subst hhs hc hd hh
    exact ⟨_, _, _, _, _, _, _, _, _, _, _, hb, base_ok, handshake_ok, dh_ok, cipher_ok, hash_ok,
      (Except.ok.inj built).symm⟩
  · rintro ⟨b, h, d, c, hs, rest, base, handshake, dh, cipher, hash, split, hb, hh, hd, hc, hhs, rfl⟩
    simp only [fromStr, split, bind, Except.bind, nextField, hb, hh, hd, hc, hhs]
    rfl

/-- With `hfs`, the DH field is split again on `+`: its first piece is the DH
choice, a second piece, if any, the KEM, and later pieces are ignored; a KEM
must be given exactly when the `hfs` modifier is. -/
theorem fromStrHfs_eq_ok {s : String} {p : NoiseParams} :
    fromStrHfs s = .ok p ↔
      ∃ b h d c hs rest base handshake dhField kemFields dh kem cipher hash,
        splitOn s '_' = b :: h :: d :: c :: hs :: rest ∧ BaseChoice.fromStr b = .ok base ∧
        HandshakeChoice.fromStr h = .ok handshake ∧
        splitOn d '+' = dhField :: kemFields ∧ DHChoice.fromStr dhField = .ok dh ∧
        parseKem kemFields = .ok kem ∧
        CipherChoice.fromStr c = .ok cipher ∧ HashChoice.fromStr hs = .ok hash ∧
        handshake.isHfs = kem.isSome ∧
        p = { NoiseParams.new s base handshake dh cipher hash with kem } := by
  constructor
  · intro ok
    obtain ⟨⟨b, split⟩, hb, ok⟩ := except_bind_eq_ok.mp ok
    obtain ⟨base, base_ok, ok⟩ := except_bind_eq_ok.mp ok
    obtain ⟨⟨h, split⟩, hh, ok⟩ := except_bind_eq_ok.mp ok
    obtain ⟨handshake, handshake_ok, ok⟩ := except_bind_eq_ok.mp ok
    obtain ⟨⟨d, split⟩, hd, ok⟩ := except_bind_eq_ok.mp ok
    obtain ⟨⟨dhField, kemFields⟩, hdh, ok⟩ := except_bind_eq_ok.mp ok
    obtain ⟨dh, dh_ok, ok⟩ := except_bind_eq_ok.mp ok
    obtain ⟨kem, kem_ok, ok⟩ := except_bind_eq_ok.mp ok
    obtain ⟨⟨c, split⟩, hc, ok⟩ := except_bind_eq_ok.mp ok
    obtain ⟨cipher, cipher_ok, ok⟩ := except_bind_eq_ok.mp ok
    obtain ⟨⟨hs, rest⟩, hhs, ok⟩ := except_bind_eq_ok.mp ok
    obtain ⟨hash, hash_ok, built⟩ := except_bind_eq_ok.mp ok
    dsimp only at built
    split at built
    · cases built
    rename_i hfs
    rw [nextField_eq_ok] at hb hh hd hdh hc hhs
    subst hhs hc hd hh
    exact ⟨_, _, _, _, _, _, _, _, _, _, _, _, _, _, hb, base_ok, handshake_ok, hdh, dh_ok, kem_ok,
      cipher_ok, hash_ok, by simpa using hfs, (Except.ok.inj built).symm⟩
  · rintro ⟨b, h, d, c, hs, rest, base, handshake, dhField, kemFields, dh, kem, cipher, hash, split,
      hb, hh, hdh, hd, hkem, hc, hhs, hfs, rfl⟩
    simp only [fromStrHfs, split, bind, Except.bind, nextField, hb, hh, hdh, hd, hkem, hc, hhs, hfs,
      bne_self_eq_false]
    rfl

end NoiseParams

/-- The protocol-name grammar `from_str` accepts, in both configurations: at
least five fields, of which the first five parse, and under `hfs` a DH field
whose first piece is a DH choice and whose second, if any, a KEM, given
exactly when the `hfs` modifier is. -/
theorem name_grammar :
    (∀ s p, NoiseParams.fromStr s = .ok p ↔
      ∃ b h d c hs rest base handshake dh cipher hash,
        splitOn s '_' = b :: h :: d :: c :: hs :: rest ∧ BaseChoice.fromStr b = .ok base ∧
        HandshakeChoice.fromStr h = .ok handshake ∧ DHChoice.fromStr d = .ok dh ∧
        CipherChoice.fromStr c = .ok cipher ∧ HashChoice.fromStr hs = .ok hash ∧
        p = NoiseParams.new s base handshake dh cipher hash) ∧
    (∀ s p, NoiseParams.fromStrHfs s = .ok p ↔
      ∃ b h d c hs rest base handshake dhField kemFields dh kem cipher hash,
        splitOn s '_' = b :: h :: d :: c :: hs :: rest ∧ BaseChoice.fromStr b = .ok base ∧
        HandshakeChoice.fromStr h = .ok handshake ∧
        splitOn d '+' = dhField :: kemFields ∧ DHChoice.fromStr dhField = .ok dh ∧
        ((kemFields = [] ∧ kem = none) ∨
          ∃ k more choice, kemFields = k :: more ∧ KemChoice.fromStr k = .ok choice ∧
            kem = some choice) ∧
        CipherChoice.fromStr c = .ok cipher ∧ HashChoice.fromStr hs = .ok hash ∧
        handshake.isHfs = kem.isSome ∧
        p = { NoiseParams.new s base handshake dh cipher hash with kem }) := by
  refine ⟨fun s p => NoiseParams.fromStr_eq_ok, fun s p => ?_⟩
  simp only [NoiseParams.fromStrHfs_eq_ok, parseKem_eq_ok]

/-- A sixth field is ignored, and so is a third piece of the DH field under
`hfs`: both names are accepted, with the parameters of the names without
them. -/
theorem fromStr_ignores_trailing_fields :
    (splitOn "Noise_XX_25519_AESGCM_SHA256_extra" '_').length = 6 ∧
      NoiseParams.fromStr "Noise_XX_25519_AESGCM_SHA256_extra" =
        .ok (NoiseParams.new "Noise_XX_25519_AESGCM_SHA256_extra" .Noise ⟨.XX, ⟨[]⟩⟩ .Curve25519
          .AESGCM .SHA256) ∧
      (splitOn "25519+Kyber1024+x" '+').length = 3 ∧
      NoiseParams.fromStrHfs "Noise_XXhfs_25519+Kyber1024+x_AESGCM_SHA256" =
        .ok { NoiseParams.new "Noise_XXhfs_25519+Kyber1024+x_AESGCM_SHA256" .Noise
          ⟨.XX, ⟨[.Hfs]⟩⟩ .Curve25519 .AESGCM .SHA256 with kem := some .Kyber1024 } :=
  ⟨by decide, rfl, by decide, rfl⟩

end Screech
