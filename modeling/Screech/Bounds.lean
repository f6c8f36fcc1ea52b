import Screech.Progress

/-!
# Buffer bounds and panics

`write_handshake_message` checks the room for each field before writing it,
and every `Ok(n)` it returns is within the message buffer and within
`MAXMSGLEN` (`writeHandshakeMessage_ok_bounds`). Two of its guards are weaker
than the writes they guard, and two places of `read_handshake_message` have
no guard at all:

* the check before an `S` field (line 194) leaves room for the public key but
  not for the tag `encrypt_and_mix_hash` appends once a key is set, so the `X`
  initiator panics on a buffer with room for both keys but not the tag
  (`xInitiator_static_tag_overflows`);
* `_read_handshake_message` indexes `message_patterns` at `pattern_position`
  without the `HandshakeAlreadyFinished` check of its sibling, so every read
  after the last message panics (`readHandshakeMessage_of_finished`,
  `xInitiator_read_after_finish_panics`).
-/

namespace Screech

namespace HandshakeState

variable (P : Primitives) {hs hs' : HandshakeState}

/-! ## Every field of a write lands in the buffer -/

/-- The cursor of the write loop stays inside the buffer, whose length it
keeps. -/
theorem writeToken_cursor {dhLen : Nat} {message message' : Bytes} {byteIndex byteIndex' : Nat}
    {token : Token} (inside : byteIndex ≤ message.length)
    (h : hs.writeToken P dhLen message byteIndex token = .ok (message', byteIndex') hs') :
    message'.length = message.length ∧ byteIndex ≤ byteIndex' ∧ byteIndex' ≤ message'.length := by
  cases token with
  | E =>
    simp only [writeToken] at h
    split at h
    · cases h
    · split at h
      · cases h
      · rename_i written write
        cases h
        obtain ⟨fits, rfl⟩ := writeAt_eq_some.mp write
        simp only [List.length_append, List.length_take, List.length_drop]
        omega
  | S =>
    simp only [writeToken] at h
    split at h
    · cases h
    split at h
    · cases h
    split at h
    · cases h
    · rename_i written out ss encrypted
      cases h
      obtain ⟨fits, rfl, rfl, -⟩ := (SymmetricState.encryptAndMixHash_eq_some P).mp encrypted
      simp only [List.length_append, List.length_take, List.length_drop] at fits ⊢
      omega
  | Psk n =>
    simp only [writeToken, pskToken] at h
    split at h <;> cases h
    exact ⟨rfl, le_refl _, inside⟩
  | Dhee | Dhes | Dhse | Dhss =>
    simp only [writeToken, dhToken] at h
    split at h <;> cases h
    exact ⟨rfl, le_refl _, inside⟩

theorem writeTokens_cursor {dhLen : Nat} {message message' : Bytes} {byteIndex byteIndex' : Nat}
    {tokens : List Token} (inside : byteIndex ≤ message.length)
    (h : hs.writeTokens P dhLen message byteIndex tokens = .ok (message', byteIndex') hs') :
    message'.length = message.length ∧ byteIndex ≤ byteIndex' ∧ byteIndex' ≤ message'.length := by
  induction tokens generalizing hs message byteIndex with
  | nil => cases h; exact ⟨rfl, le_refl _, inside⟩
  | cons token tokens ih =>
    rw [writeTokens] at h
    obtain ⟨⟨message₁, byteIndex₁⟩, mid, step, rest⟩ := Outcome.bind_eq_ok.mp h
    obtain ⟨length₁, forward₁, inside₁⟩ := writeToken_cursor P inside step
    obtain ⟨length₂, forward₂, inside₂⟩ := ih inside₁ rest
    exact ⟨length₂.trans length₁, forward₁.trans forward₂, inside₂⟩

/-- Every `Ok(n)` of `write_handshake_message` lies within the message buffer
and within `MAXMSGLEN`, and the buffer keeps its length. -/
theorem writeHandshakeMessage_ok_bounds {payload message message' : Bytes} {n : Nat}
    (h : hs.writeHandshakeMessage P payload message = .ok (n, message') hs') :
    n ≤ message.length ∧ n ≤ MAXMSGLEN ∧ message'.length = message.length := by
  unfold writeHandshakeMessage at h
  split at h
  · rename_i mid inner
    cases h
    unfold _writeHandshakeMessage at inner
    split at inner
    · cases inner
    split at inner
    · cases inner
    obtain ⟨⟨message₁, byteIndex⟩, loopState, loop, payloadOk⟩ := Outcome.bind_eq_ok.mp inner
    obtain ⟨length₁, -, inside⟩ := writeTokens_cursor P (Nat.zero_le _) loop
    simp only [writePayload] at payloadOk
    split at payloadOk
    · cases payloadOk
    split at payloadOk
    · cases payloadOk
    · rename_i written out ss encrypted
      split at payloadOk
      · cases payloadOk
      · rename_i small
        cases payloadOk
        obtain ⟨fits, rfl, rfl, -⟩ := (SymmetricState.encryptAndMixHash_eq_some P).mp encrypted
        simp only [List.length_append, List.length_take, List.length_drop] at fits ⊢
        omega
  · cases h
  · cases h

/-! ## The static key's tag -/

/-- The `X` initiator writes `e` (32 bytes), mixes `es`, which installs a key,
and reaches `s` with 32 bytes left: the check at line 194 passes, and the
48-byte ciphertext of the static key overruns the buffer. -/
theorem xInitiator_static_tag_overflows :
    Reachable Primitives.sample sampleExpand xInitiator ∧
      xInitiator.writeHandshakeMessage Primitives.sample [] (List.replicate 64 0) = .panic :=
  ⟨.new new_xInitiator, rfl⟩

/-! ## Reading after the last message -/

/-- A read on a finished handshake indexes `message_patterns` past its end:
whatever the message (within `MAXMSGLEN`) and the payload buffer, it panics. -/
theorem readHandshakeMessage_of_finished {message payload : Bytes}
    (finished : hs.isFinished = true) (short : message.length ≤ MAXMSGLEN) :
    hs.readHandshakeMessage P message payload = .panic := by
  rw [isFinished_iff] at finished
  have index : hs.messagePatterns[hs.patternPosition]? = none := List.getElem?_eq_none (by omega)
  have inner : hs._readHandshakeMessage P message payload = .panic := by
    unfold _readHandshakeMessage
    rw [if_neg (by omega)]
    split
    · rfl
    · simp only [index]
  simp only [readHandshakeMessage, inner]

/-- The `X` initiator finishes the handshake with its one message; a read
after it panics. -/
theorem xInitiator_read_after_finish_panics :
    ∃ v hs', xInitiator.writeHandshakeMessage Primitives.sample [] (List.replicate 96 0) =
        .ok v hs' ∧ Reachable Primitives.sample sampleExpand hs' ∧ hs'.isFinished = true ∧
      hs'.readHandshakeMessage Primitives.sample [] [] = .panic :=
  ⟨_, _, rfl, .call (.write [] (List.replicate 96 0)) (.new new_xInitiator) rfl, rfl,
    readHandshakeMessage_of_finished _ rfl (by decide)⟩

end HandshakeState

end Screech
