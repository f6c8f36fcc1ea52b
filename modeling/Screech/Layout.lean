import Screech.Progress

/-!
# Wire layout

§6 of the spec describes a handshake message as its token fields in order and
a payload trailer: `DHLEN` bytes for `E`, `DHLEN` bytes and a tag once a key
is set for `S`, nothing for a PSK or DH token, and the payload with a tag once
a key is set. Whether a key is set changes inside a message (a DH or PSK token
installs one, and so does `E` in a PSK handshake), so the length of a field
depends on the tokens before it. `fieldTotal` and `keyedAfterAll` follow the
spec's description, token by token.

Both ends of the code meet it: the writer's cursor advances by exactly these
lengths and the reader's `ptr` drops exactly these lengths, one lemma per
token and one induction per loop (`writeTokens_layout`, `readTokens_layout`),
so that a successful write returns the fields and the payload with its tag,
and a successful read returns the message less the fields and the tag
(`wire_layout`). The writer needs the contract of the primitives and `e` of
the length of `s`, since it sizes `E` by `e` and `S` by `s`; the reader sizes
both by `dh_len`.
-/

namespace Screech

/-! ## The layout of the spec -/

/-- The tag an encryption appends: `TAGLEN` bytes once a key is set. -/
def tagLen (keyed : Bool) : Nat := if keyed then TAGLEN else 0

/-- Whether a key is set after one token: `E` installs one in a PSK
handshake, `S` leaves the key state as it is, a PSK or DH token installs one. -/
def keyedAfter (isPsk keyed : Bool) : Token → Bool
  | .E => keyed || isPsk
  | .S => keyed
  | _ => true

/-- The bytes one token's field takes on the wire. -/
def fieldLength (dhLen : Nat) (keyed : Bool) : Token → Nat
  | .E => dhLen
  | .S => dhLen + tagLen keyed
  | _ => 0

/-- Whether a key is set after a list of tokens. -/
def keyedAfterAll (isPsk : Bool) : Bool → List Token → Bool
  | keyed, [] => keyed
  | keyed, token :: tokens => keyedAfterAll isPsk (keyedAfter isPsk keyed token) tokens

/-- The bytes the token fields of a message take, summed in order. -/
def fieldTotal (dhLen : Nat) (isPsk : Bool) : Bool → List Token → Nat
  | _, [] => 0
  | keyed, token :: tokens =>
    fieldLength dhLen keyed token + fieldTotal dhLen isPsk (keyedAfter isPsk keyed token) tokens

/-- `X`'s message: `e` in the clear, `es` installs a key, `s` is encrypted. -/
example : fieldTotal 32 false false [.E, .Dhes, .S, .Dhss] = 32 + (32 + 16) := by decide

/-- Under the contract, decryption strips exactly the tag it checks. -/
theorem SymmetricState.length_of_decrypt {P : Primitives} (lawful : P.Lawful)
    {ss : SymmetricState} {data plaintext : Bytes} {cs : CipherState}
    (h : ss.decrypt P data = some (plaintext, cs)) :
    data.length = plaintext.length + tagLen ss.hasKey := by
  unfold decrypt at h
  split at h
  · rename_i keyed
    obtain ⟨_, decrypted, ⟨⟩⟩ := Option.map_eq_some'.mp h
    simp only [tagLen, hasKey, keyed, if_true]
    exact lawful.decrypt_length _ _ _ _ _ decrypted
  · rename_i keyed
    cases h
    simp [tagLen, hasKey, keyed]

namespace HandshakeState

variable (P : Primitives) {hs hs' : HandshakeState}

/-! ## Tokens without a field -/

/-- A DH token that succeeds mixes the shared secret's first `dh_len` bytes
into the key and moves no cursor. -/
theorem dhToken_eq_ok {α : Type} {dhLen : Nat} {localS remoteS : Bool} {cursor cursor' : α}
    (h : hs.dhToken P dhLen localS remoteS cursor = .ok cursor' hs') :
    cursor' = cursor ∧ ∃ dhOut, hs.dh P localS remoteS = .ok dhOut ∧
      hs' = { hs with symmetricstate := hs.symmetricstate.mixKey P (dhOut.take dhLen) } := by
  unfold dhToken at h
  split at h
  · cases h
  · cases h; exact ⟨rfl, _, ‹_›, rfl⟩

/-- A PSK token that succeeds mixes the key of its slot and moves no cursor. -/
theorem pskToken_eq_ok {α : Type} {n : UInt8} {cursor cursor' : α}
    (h : hs.pskToken P n cursor = .ok cursor' hs') :
    cursor' = cursor ∧ ∃ psk, hs.psks.slots[n.toNat]? = some (some psk) ∧
      hs' = { hs with symmetricstate := hs.symmetricstate.mixKeyAndHash P psk } := by
  unfold pskToken at h
  split at h
  · cases h
  · cases h
  · cases h; exact ⟨rfl, _, ‹_›, rfl⟩

/-- The ephemeral key an `E` token writes, fixed or fresh, keeps the slot's
DH choice. -/
theorem ephemeral_choice (hs : HandshakeState) :
    (if hs.fixedEphemeral = true then (hs.e.inner, hs.rng)
      else hs.e.inner.generate P hs.rng).1.choice = hs.e.inner.choice := by
  split <;> simp

/-! ## The writer -/

section Writer

variable {P} (lawful : P.Lawful)
include lawful

/-- One token of the write loop advances the cursor by its field, sets the key
as the spec says, and keeps `e` of length `dh_len`. -/
theorem writeToken_layout {dhLen byteIndex byteIndex' : Nat} {message message' : Bytes}
    {token : Token} (eLen : hs.e.inner.pubLen = dhLen) (sLen : hs.s.inner.pubLen = dhLen)
    (h : hs.writeToken P dhLen message byteIndex token = .ok (message', byteIndex') hs') :
    byteIndex' = byteIndex + fieldLength dhLen hs.symmetricstate.hasKey token ∧
      hs'.symmetricstate.hasKey =
        keyedAfter hs.params.handshake.isPsk hs.symmetricstate.hasKey token ∧
      hs'.e.inner.pubLen = dhLen := by
  cases token with
  | E =>
    simp only [writeToken] at h
    split at h
    · cases h
    split at h
    · cases h
    cases h
    have choice := ephemeral_choice P hs
    refine ⟨?_, ?_, ?_⟩
    · rw [Dh.pubkey_length lawful, ← eLen]; simp only [Dh.pubLen, choice, fieldLength]
    · cases hs.params.handshake.isPsk <;> simp [keyedAfter]
    · simp only [Toggle.enable_inner, Dh.pubLen, choice]; exact eLen
  | S =>
    simp only [writeToken] at h
    split at h
    · cases h
    split at h
    · cases h
    split at h
    · cases h
    rename_i written out ss encrypted
    cases h
    obtain ⟨-, rfl, -, rfl⟩ := (SymmetricState.encryptAndMixHash_eq_some P).mp encrypted
    refine ⟨?_, ?_, eLen⟩
    · rw [SymmetricState.length_encrypt lawful, Dh.pubkey_length lawful, sLen]; rfl
    · simp [keyedAfter]
  | Psk n =>
    obtain ⟨⟨⟩, psk, -, rfl⟩ := pskToken_eq_ok P h
    exact ⟨rfl, by simp [keyedAfter], eLen⟩
  | Dhee | Dhes | Dhse | Dhss =>
    obtain ⟨⟨⟩, dhOut, -, rfl⟩ := dhToken_eq_ok P h
    exact ⟨rfl, by simp [keyedAfter], eLen⟩

/-- The write loop advances the cursor by the token fields of the spec. -/
theorem writeTokens_layout {dhLen byteIndex byteIndex' : Nat} {message message' : Bytes}
    {tokens : List Token} (eLen : hs.e.inner.pubLen = dhLen) (sLen : hs.s.inner.pubLen = dhLen)
    (h : hs.writeTokens P dhLen message byteIndex tokens = .ok (message', byteIndex') hs') :
    byteIndex' = byteIndex +
        fieldTotal dhLen hs.params.handshake.isPsk hs.symmetricstate.hasKey tokens ∧
      hs'.symmetricstate.hasKey =
        keyedAfterAll hs.params.handshake.isPsk hs.symmetricstate.hasKey tokens := by
  induction tokens generalizing hs message byteIndex with
  | nil => cases h; exact ⟨rfl, rfl⟩
  | cons token tokens ih =>
    rw [writeTokens] at h
    obtain ⟨⟨message₁, byteIndex₁⟩, mid, step, rest⟩ := Outcome.bind_eq_ok.mp h
    obtain ⟨advance, keyed, eLen₁⟩ := writeToken_layout lawful eLen sLen step
    have frame := writeToken_frame P (by rw [step]; rfl)
    obtain ⟨advance₁, keyed₁⟩ := ih eLen₁ (by rw [frame.s, sLen]) rest
    rw [frame.params, keyed] at advance₁ keyed₁
    exact ⟨by rw [advance₁, advance, fieldTotal]; omega, keyed₁⟩

/-- The payload trailer is the payload and, once a key is set, its tag. -/
theorem writePayload_layout {payload message message' : Bytes} {byteIndex n : Nat}
    (h : hs.writePayload P payload message byteIndex = .ok (n, message') hs') :
    n = byteIndex + payload.length + tagLen hs.symmetricstate.hasKey := by
  unfold writePayload at h
  split at h
  · cases h
  split at h
  · cases h
  rename_i written out ss encrypted
  split at h
  · cases h
  cases h
  obtain ⟨-, rfl, -⟩ := (SymmetricState.encryptAndMixHash_eq_some P).mp encrypted
  rw [SymmetricState.length_encrypt lawful, Nat.add_assoc]; rfl

end Writer

/-! ## The reader -/

/-- One token of the read loop drops its field from the unread message and
sets the key as the spec says. -/
theorem readToken_layout {dhLen : Nat} {ptr ptr' : Bytes} {token : Token}
    (h : hs.readToken P dhLen ptr token = .ok ptr' hs') :
    fieldLength dhLen hs.symmetricstate.hasKey token ≤ ptr.length ∧
      ptr' = ptr.drop (fieldLength dhLen hs.symmetricstate.hasKey token) ∧
      hs'.symmetricstate.hasKey =
        keyedAfter hs.params.handshake.isPsk hs.symmetricstate.hasKey token := by
  cases token with
  | E =>
    simp only [readToken] at h
    split at h
    · cases h
    cases h
    refine ⟨by simp only [fieldLength]; omega, rfl, ?_⟩
    cases hs.params.handshake.isPsk <;> simp [keyedAfter]
  | S =>
    have field : fieldLength dhLen hs.symmetricstate.hasKey .S =
        if hs.symmetricstate.hasKey = true then dhLen + TAGLEN else dhLen := by
      simp only [fieldLength, tagLen]; split <;> rfl
    simp only [readToken, ← field] at h
    split at h
    · cases h
    split at h
    · rename_i long written out ss decrypted
      cases h
      obtain ⟨plaintext, cs, decrypt, -, -, -, rfl⟩ :=
        (SymmetricState.decryptAndMixHash_eq_ok P).mp decrypted
      exact ⟨by omega, rfl, by simp [keyedAfter, SymmetricState.hasKey_of_decrypt P decrypt]⟩
    · cases h
    · cases h
  | Psk n =>
    obtain ⟨rfl, psk, -, rfl⟩ := pskToken_eq_ok P h
    exact ⟨Nat.zero_le _, rfl, by simp [keyedAfter]⟩
  | Dhee | Dhes | Dhse | Dhss =>
    obtain ⟨rfl, dhOut, -, rfl⟩ := dhToken_eq_ok P h
    exact ⟨Nat.zero_le _, rfl, by simp [keyedAfter]⟩

/-- The read loop drops the token fields of the spec from the message. -/
theorem readTokens_layout {dhLen : Nat} {ptr ptr' : Bytes} {tokens : List Token}
    (h : hs.readTokens P dhLen ptr tokens = .ok ptr' hs') :
    fieldTotal dhLen hs.params.handshake.isPsk hs.symmetricstate.hasKey tokens ≤ ptr.length ∧
      ptr' = ptr.drop (fieldTotal dhLen hs.params.handshake.isPsk hs.symmetricstate.hasKey tokens) ∧
      hs'.symmetricstate.hasKey =
        keyedAfterAll hs.params.handshake.isPsk hs.symmetricstate.hasKey tokens := by
  induction tokens generalizing hs ptr with
  | nil => cases h; exact ⟨Nat.zero_le _, rfl, rfl⟩
  | cons token tokens ih =>
    rw [readTokens] at h
    obtain ⟨ptr₁, mid, step, rest⟩ := Outcome.bind_eq_ok.mp h
    obtain ⟨fits, rfl, keyed⟩ := readToken_layout P step
    have frame := readToken_frame P (by rw [step]; rfl)
    obtain ⟨fits₁, rfl, keyed₁⟩ := ih rest
    rw [frame.params, keyed] at fits₁ keyed₁ ⊢
    rw [List.length_drop] at fits₁
    refine ⟨by rw [fieldTotal]; omega, by rw [List.drop_drop, fieldTotal, Nat.add_comm], keyed₁⟩

/-- The trailer's length less its tag is the payload length a read returns;
the trailer holds the tag whenever a key is set. -/
theorem readPayload_layout {last : Bool} {ptr payload payload' : Bytes} {n : Nat}
    (h : hs.readPayload P last ptr payload = .ok (n, payload') hs') :
    tagLen hs.symmetricstate.hasKey ≤ ptr.length ∧
      n = ptr.length - tagLen hs.symmetricstate.hasKey := by
  simp only [readPayload] at h
  split at h
  · cases h
  · cases h
  rename_i written out ss decrypted
  obtain ⟨plaintext, cs, decrypt, -, -, -, rfl⟩ :=
    (SymmetricState.decryptAndMixHash_eq_ok P).mp decrypted
  have keyed := SymmetricState.hasKey_of_decrypt P decrypt
  simp only [splitIf_eq] at h
  split at h
  · split at h
    · cases h
    · cases h
      rename_i hasKey long
      have : hs.symmetricstate.hasKey = true := by simpa [keyed] using hasKey
      simp only [tagLen, this, if_true, and_true]; omega
  · cases h
    rename_i hasKey
    have : hs.symmetricstate.hasKey = false := by simpa [keyed] using hasKey
    simp [tagLen, this]

end HandshakeState

open HandshakeState

/-- Wire layout: with `e` of the length of `s`, a successful write at position
`i` returns the token fields of `message_patterns[i]`, the payload and, once a
key is set, its tag; a successful read at position `i` finds the same fields
and a tagged trailer in the message and returns the message's length less
both. -/
theorem wire_layout {P : Primitives} (lawful : P.Lawful) {hs : HandshakeState}
    (sameLen : hs.e.inner.pubLen = hs.s.inner.pubLen) :
    (∀ payload message n message' hs',
      hs.writeHandshakeMessage P payload message = .ok (n, message') hs' →
        ∃ tokens, hs.messagePatterns[hs.patternPosition]? = some tokens ∧
          n = fieldTotal hs.dhLen hs.params.handshake.isPsk hs.symmetricstate.hasKey tokens +
            payload.length + tagLen
              (keyedAfterAll hs.params.handshake.isPsk hs.symmetricstate.hasKey tokens)) ∧
    (∀ message payload n payload' hs',
      hs.readHandshakeMessage P message payload = .ok (n, payload') hs' →
        ∃ tokens, hs.messagePatterns[hs.patternPosition]? = some tokens ∧
          fieldTotal hs.dhLen hs.params.handshake.isPsk hs.symmetricstate.hasKey tokens +
              tagLen (keyedAfterAll hs.params.handshake.isPsk hs.symmetricstate.hasKey tokens) ≤
            message.length ∧
          n = message.length -
            fieldTotal hs.dhLen hs.params.handshake.isPsk hs.symmetricstate.hasKey tokens -
            tagLen (keyedAfterAll hs.params.handshake.isPsk hs.symmetricstate.hasKey tokens)) := by
  constructor
  · intro payload message n message' hs' h
    obtain ⟨tokens, cursor, mid, inner, index, loop, payloadOk, -⟩ := writeHandshakeMessage_eq_ok P h
    obtain ⟨advance, keyed⟩ :=
      writeTokens_layout lawful (sameLen : hs.e.inner.pubLen = hs.dhLen) rfl loop
    refine ⟨tokens, index, ?_⟩
    rw [writePayload_layout lawful payloadOk, advance, keyed, dhLen]; omega
  · intro message payload n payload' hs' h
    obtain ⟨tokens, ptr, mid, inner, index, loop, payloadOk, -⟩ := readHandshakeMessage_eq_ok P h
    obtain ⟨fits, rfl, keyed⟩ := readTokens_layout P loop
    obtain ⟨tagged, rfl⟩ := readPayload_layout P payloadOk
    rw [keyed, List.length_drop] at tagged ⊢
    exact ⟨tokens, index, by omega, by omega⟩

/-- The `X` initiator writes its message into a 96-byte buffer and returns
`Ok(96)`: its fields take 80 bytes, and the empty payload's tag the other 16. -/
theorem xInitiator_wire_layout :
    Primitives.sample.Lawful ∧ xInitiator.e.inner.pubLen = xInitiator.s.inner.pubLen ∧
      ∃ message w', xInitiator.writeHandshakeMessage Primitives.sample [] (List.replicate 96 0) =
          .ok (96, message) w' ∧
        ∃ tokens, xInitiator.messagePatterns[xInitiator.patternPosition]? = some tokens ∧
          96 = fieldTotal xInitiator.dhLen xInitiator.params.handshake.isPsk
              xInitiator.symmetricstate.hasKey tokens + ([] : Bytes).length +
            tagLen (keyedAfterAll xInitiator.params.handshake.isPsk
              xInitiator.symmetricstate.hasKey tokens) := by
  obtain ⟨message, w', written⟩ : ∃ message w',
      xInitiator.writeHandshakeMessage Primitives.sample [] (List.replicate 96 0) =
        .ok (96, message) w' :=
    ⟨_, _, rfl⟩
  exact ⟨Primitives.sample_lawful, rfl, message, w', written,
    (@wire_layout Primitives.sample Primitives.sample_lawful xInitiator rfl).1 _ _ _ _ _ written⟩

end Screech
