import Screech.Transcript
import Screech.Robustness

/-!
# The key state

`has_key` says whether the symmetric state holds a cipher key, and
`was_write_payload_encrypted` reports it. Every token that installs a key
sets it: `mix_key` for a DH token and for `E` in a PSK handshake,
`mix_key_and_hash` for a PSK token. Nothing clears it: `mix_hash`,
`encrypt_and_mix_hash`, `decrypt_and_mix_hash` and `split` keep it, and a
failed call restores the checkpoint taken before it. So once a key is set it
stays set, whatever calls follow and whether they succeed
(`wasWritePayloadEncrypted_stays`).

What the flag reports is true of the bytes on the wire. After a write, the
payload's trailer follows the token fields. It is the payload itself when the
flag is off, and its encryption under the state's key when it is on
(`wasWritePayloadEncrypted_spec`). Along a handshake the flag is fixed by the
pattern: after `k` messages both parties report the key state the tokens of
the first `k` messages leave (`wasWritePayloadEncrypted_of_session`), PSK
tokens included.

The key state also decides the payload's second bound check: the buffer must
have room for the payload and a tag whether or not a key is set, but the
message with its trailer is held to `MAXMSGLEN` with the tag counted only once
a key is set (`writePayload_bounds`).
-/

namespace Screech

/-- Once a key is set, the tokens of a message leave it set. -/
theorem keyedAfterAll_true (isPsk : Bool) : ∀ ts, keyedAfterAll isPsk true ts = true
  | [] => rfl
  | t :: ts => by cases t <;> exact keyedAfterAll_true isPsk ts

namespace HandshakeState

variable (P : Primitives) {hs hs' : HandshakeState} {dhLen : Nat}

/-! ## One call -/

/-- One token of the write loop sets the key as the layout says. -/
theorem writeToken_hasKey {message : Bytes} {byteIndex : Nat} {token : Token}
    {cursor : Bytes × Nat} (h : hs.writeToken P dhLen message byteIndex token = .ok cursor hs') :
    hs'.symmetricstate.hasKey =
      keyedAfter hs.params.handshake.isPsk hs.symmetricstate.hasKey token := by
  cases token with
  | E =>
    simp only [writeToken] at h
    split at h
    · cases h
    split at h
    · cases h
    cases h
    show (if _ then _ else _ : SymmetricState).hasKey = _
    split <;> simp_all [keyedAfter]
  | S =>
    simp only [writeToken] at h
    split at h
    · cases h
    split at h
    · cases h
    split at h
    · cases h
    rename_i encrypted
    cases h
    obtain ⟨-, -, -, rfl⟩ := (SymmetricState.encryptAndMixHash_eq_some P).mp encrypted
    simp [keyedAfter]
  | Psk n =>
    obtain ⟨-, psk, -, rfl⟩ := pskToken_eq_ok P h
    rfl
  | Dhee | Dhes | Dhse | Dhss =>
    obtain ⟨-, dhOut, -, rfl⟩ := dhToken_eq_ok P h
    rfl

theorem writeTokens_hasKey {message : Bytes} {byteIndex : Nat} {tokens : List Token}
    {cursor : Bytes × Nat} (h : hs.writeTokens P dhLen message byteIndex tokens = .ok cursor hs') :
    hs'.symmetricstate.hasKey =
      keyedAfterAll hs.params.handshake.isPsk hs.symmetricstate.hasKey tokens := by
  induction tokens generalizing hs message byteIndex with
  | nil => cases h; rfl
  | cons token tokens ih =>
    rw [writeTokens] at h
    obtain ⟨⟨message₁, byteIndex₁⟩, mid, step, rest⟩ := Outcome.bind_eq_ok.mp h
    have frame := writeToken_frame P (by rw [step]; rfl)
    rw [ih rest, frame.params, writeToken_hasKey P step, keyedAfterAll]

/-- The trailer's decryption keeps whether a key is set. -/
theorem readPayload_hasKey {last : Bool} {ptr payload : Bytes} {v : Nat × Bytes}
    (h : hs.readPayload P last ptr payload = .ok v hs') :
    hs'.symmetricstate.hasKey = hs.symmetricstate.hasKey := by
  simp only [readPayload] at h
  split at h
  · cases h
  · cases h
  rename_i written out ss decrypted
  obtain ⟨plaintext, cs, decrypt, -, -, -, rfl⟩ :=
    (SymmetricState.decryptAndMixHash_eq_ok P).mp decrypted
  have keyed := SymmetricState.hasKey_of_decrypt P decrypt
  simp only [splitIf_eq] at h
  split at h
  · split at h
    · cases h
    · cases h; exact keyed
  · cases h; exact keyed

/-- A successful write sets the key as the tokens of its message say. -/
theorem writeHandshakeMessage_hasKey {payload message : Bytes} {v : Nat × Bytes}
    (h : hs.writeHandshakeMessage P payload message = .ok v hs') :
    ∃ tokens, hs.messagePatterns[hs.patternPosition]? = some tokens ∧
      hs'.symmetricstate.hasKey =
        keyedAfterAll hs.params.handshake.isPsk hs.symmetricstate.hasKey tokens ∧
      hs'.params = hs.params := by
  obtain ⟨tokens, cursor, mid, inner, index, loop, paid, rfl⟩ := writeHandshakeMessage_eq_ok P h
  obtain ⟨-, -, -, -, -, paidKeyed, -, paidParams⟩ := writePayload_h P paid
  exact ⟨tokens, index, paidKeyed.trans (writeTokens_hasKey P loop),
    paidParams.trans (writeTokens_frame P (by rw [loop]; rfl)).params⟩

/-- A successful read sets the key as the tokens of its message say, as the
write did. -/
theorem readHandshakeMessage_hasKey {message payload : Bytes} {v : Nat × Bytes}
    (h : hs.readHandshakeMessage P message payload = .ok v hs') :
    ∃ tokens, hs.messagePatterns[hs.patternPosition]? = some tokens ∧
      hs'.symmetricstate.hasKey =
        keyedAfterAll hs.params.handshake.isPsk hs.symmetricstate.hasKey tokens ∧
      hs'.params = hs.params := by
  obtain ⟨tokens, ptr, mid, inner, index, loop, paid, rfl⟩ := readHandshakeMessage_eq_ok P h
  have frame := readTokens_frame P (by rw [loop]; rfl)
  exact ⟨tokens, index, (readPayload_hasKey P paid).trans (readTokens_layout P loop).2.2,
    (congrArg HandshakeState.params (readPayload_ok P paid)).trans frame.params⟩

/-- A pre-message loop of `new` mixes hashes only. -/
theorem mixPremsg_hasKey {own : Bool} {s e : Toggle Dh} {rs re : Toggle DhBuf} {d : Nat}
    {ts : List Token} {ss ss' : SymmetricState} (h : mixPremsg P own s e rs re d ss ts = .ok ss') :
    ss'.hasKey = ss.hasKey := by
  induction ts generalizing ss with
  | nil => cases h; rfl
  | cons t ts ih =>
    obtain ⟨k, -, rest⟩ := Result.bind_eq_ok.mp h
    rw [ih rest]; rfl

/-- `new` sets no key: `initialize` clears it, and the pre-messages only mix
hashes. -/
theorem new_hasKey {expand : HandshakeChoice → Except Error HandshakeTokens} {rng : Nat}
    {cs : CipherState} {s e : Toggle Dh} {fixed : Bool} {rs re : Toggle DhBuf} {initiator : Bool}
    {params : NoiseParams} {psks : Psks} {prologue : Bytes} {css : CipherStates}
    (h : new P expand rng cs s e fixed rs re initiator params psks prologue css = .ok hs) :
    hs.symmetricstate.hasKey = false := by
  obtain ⟨tokens, ss, ss', -, first, second, rfl⟩ := new_eq_ok h
  exact (mixPremsg_hasKey P second).trans (mixPremsg_hasKey P first)

/-- A call, successful or not, never clears the key: a write or a read sets it
as its tokens say, a failed one restores the checkpoint, and `set_psk` leaves
the symmetric state alone. -/
theorem Call.run_hasKey {c : Call} (h : c.run P hs = some hs')
    (keyed : hs.symmetricstate.hasKey = true) : hs'.symmetricstate.hasKey = true := by
  cases c with
  | write payload message =>
    simp only [Call.run] at h
    cases call : hs.writeHandshakeMessage P payload message <;> rw [call] at h <;> cases h
    · obtain ⟨tokens, -, set, -⟩ := writeHandshakeMessage_hasKey P call
      rw [set, keyed, keyedAfterAll_true]
    · rw [writeHandshakeMessage_err P call]
      exact keyed
  | read message payload =>
    simp only [Call.run] at h
    cases call : hs.readHandshakeMessage P message payload <;> rw [call] at h <;> cases h
    · obtain ⟨tokens, -, set, -⟩ := readHandshakeMessage_hasKey P call
      rw [set, keyed, keyedAfterAll_true]
    · rw [readHandshakeMessage_err P call]
      exact keyed
  | setPsk location key =>
    simp only [Call.run] at h
    unfold HandshakeState.setPsk at h
    split at h <;> cases h <;> exact keyed

end HandshakeState

open HandshakeState

/-! ## Whole runs -/

/-- Once `was_write_payload_encrypted` returns `true`, it returns `true` in
every state that follows, whatever calls are made and whether they succeed or
fail. -/
theorem wasWritePayloadEncrypted_stays (P : Primitives) {hs : HandshakeState}
    (encrypted : hs.wasWritePayloadEncrypted = true) :
    ∀ (calls : List Call), ∀ hs' ∈ trace P hs calls, hs'.wasWritePayloadEncrypted = true :=
  fun _ => trace_preserves P (fun _ _ _ _ run keyed => Call.run_hasKey P run keyed) encrypted

/-- The `X` initiator's one message ends with a key set, and no later call
clears it. -/
theorem xInitiator_stays_encrypted :
    ∃ message w', xInitiator.writeHandshakeMessage Primitives.sample [] (List.replicate 96 0) =
        .ok (96, message) w' ∧ w'.wasWritePayloadEncrypted = true ∧
      ∀ (calls : List Call), ∀ hs' ∈ trace Primitives.sample w' calls,
        hs'.wasWritePayloadEncrypted = true := by
  obtain ⟨message, w', written, encrypted⟩ : ∃ message w',
      xInitiator.writeHandshakeMessage Primitives.sample [] (List.replicate 96 0) =
        .ok (96, message) w' ∧ w'.wasWritePayloadEncrypted = true :=
    ⟨_, _, rfl, rfl⟩
  exact ⟨message, w', written, encrypted,
    wasWritePayloadEncrypted_stays Primitives.sample encrypted⟩

/-! ## What the flag reports -/

/-- `was_write_payload_encrypted` after a write tells the truth about the
message just written. The message is the token fields of its pattern, then
the trailer. The flag is the key state those tokens leave; the trailer is the
payload in the clear when the flag is off, and an encryption of the payload
under the key the state now holds when it is on. -/
theorem wasWritePayloadEncrypted_spec {P : Primitives} (lawful : P.Lawful)
    {hs hs' : HandshakeState} {payload message message' : Bytes} {n : Nat}
    (sameLen : hs.e.inner.pubLen = hs.s.inner.pubLen)
    (h : hs.writeHandshakeMessage P payload message = .ok (n, message') hs') :
    ∃ tokens fields trailer nonce ad, hs.messagePatterns[hs.patternPosition]? = some tokens ∧
      message'.take n = fields ++ trailer ∧
      fields.length =
        fieldTotal hs.dhLen hs.params.handshake.isPsk hs.symmetricstate.hasKey tokens ∧
      hs'.wasWritePayloadEncrypted =
        keyedAfterAll hs.params.handshake.isPsk hs.symmetricstate.hasKey tokens ∧
      trailer = if hs'.wasWritePayloadEncrypted then
        P.encrypt hs'.symmetricstate.cipherstate.k nonce ad payload else payload := by
  obtain ⟨tokens, ⟨message₁, byteIndex₁⟩, mid, inner, index, loop, paid, rfl⟩ :=
    writeHandshakeMessage_eq_ok P h
  obtain ⟨fields, written, rfl, len, -⟩ := writeTokens_h lawful sameLen rfl (Nat.zero_le _) loop
  obtain ⟨ct, rfl, written', rfl, -, paidKeyed, paidCipher, -⟩ := writePayload_h P paid
  have key : inner.symmetricstate.cipherstate.k = mid.symmetricstate.cipherstate.k := by
    rw [paidCipher, SymmetricState.encrypt]; split <;> rfl
  refine ⟨tokens, fields, _, mid.symmetricstate.cipherstate.n, mid.symmetricstate.h, index,
    take_of_writeAt_append written written', len, paidKeyed.trans (writeTokens_hasKey P loop), ?_⟩
  show _ = if inner.symmetricstate.hasKey then _ else _
  rw [paidKeyed, key, SymmetricState.encrypt_fst]

/-- The `X` initiator's message: `e` and the encrypted `s` take 80 bytes, and
the empty payload follows encrypted, since `es` has set the key. -/
theorem xInitiator_payload_encrypted :
    ∃ message w', xInitiator.writeHandshakeMessage Primitives.sample [] (List.replicate 96 0) =
        .ok (96, message) w' ∧
      ∃ tokens fields trailer nonce ad,
        xInitiator.messagePatterns[xInitiator.patternPosition]? = some tokens ∧
        message.take 96 = fields ++ trailer ∧
        fields.length = fieldTotal xInitiator.dhLen xInitiator.params.handshake.isPsk
          xInitiator.symmetricstate.hasKey tokens ∧
        w'.wasWritePayloadEncrypted = keyedAfterAll xInitiator.params.handshake.isPsk
          xInitiator.symmetricstate.hasKey tokens ∧
        trailer = if w'.wasWritePayloadEncrypted then
          Primitives.sample.encrypt w'.symmetricstate.cipherstate.k nonce ad [] else [] := by
  obtain ⟨message, w', written⟩ : ∃ message w',
      xInitiator.writeHandshakeMessage Primitives.sample [] (List.replicate 96 0) =
        .ok (96, message) w' :=
    ⟨_, _, rfl⟩
  exact ⟨message, w', written,
    wasWritePayloadEncrypted_spec Primitives.sample_lawful rfl written⟩

/-! ## The flag along a handshake -/

/-- A party after `k` messages of a run over the messages `patterns`: at
position `k`, with the key state the first `k` messages leave. -/
structure KeyedAt (isPsk : Bool) (patterns : List (List Token)) (k : Nat)
    (hs : HandshakeState) : Prop where
  position : hs.patternPosition = k
  listed : hs.messagePatterns = patterns
  psk : hs.params.handshake.isPsk = isPsk
  keyed : hs.symmetricstate.hasKey = keyedRun isPsk false (patterns.take k)

/-- The state `new` builds is at the start of its messages, with no key. -/
theorem KeyedAt.new {P : Primitives} {expand : HandshakeChoice → Except Error HandshakeTokens}
    {params : NoiseParams} {tokens : HandshakeTokens} {rng : Nat} {cs : CipherState}
    {s e : Toggle Dh} {fixed : Bool} {rs re : Toggle DhBuf} {initiator : Bool} {psks : Psks}
    {prologue : Bytes} {css : CipherStates} {hs : HandshakeState}
    (expanded : expand params.handshake = .ok tokens)
    (h : HandshakeState.new P expand rng cs s e fixed rs re initiator params psks prologue css =
      .ok hs) :
    KeyedAt params.handshake.isPsk tokens.msgPatterns 0 hs :=
  ⟨(new_ok P expand h).1, (new_fields expanded h).2.2,
    by obtain ⟨-, -, -, -, -, -, rfl⟩ := new_eq_ok h; rfl, new_hasKey P h⟩

/-- A message, written or read, takes a party from `k` messages to `k + 1`. -/
theorem KeyedAt.next {isPsk : Bool} {patterns : List (List Token)} {k : Nat}
    {hs hs' : HandshakeState} {tokens : List Token} (now : KeyedAt isPsk patterns k hs)
    (index : hs.messagePatterns[hs.patternPosition]? = some tokens)
    (set : hs'.symmetricstate.hasKey =
      keyedAfterAll hs.params.handshake.isPsk hs.symmetricstate.hasKey tokens)
    (kept : hs'.params = hs.params) (advanced : hs'.patternPosition = hs.patternPosition + 1)
    (listed : hs'.messagePatterns = hs.messagePatterns) :
    KeyedAt isPsk patterns (k + 1) hs' := by
  rw [now.listed, now.position] at index
  exact ⟨by rw [advanced, now.position], listed.trans now.listed, by rw [kept, now.psk],
    by rw [set, now.psk, now.keyed, keyedRun_take_succ index]⟩

/-- Along a run, both parties are `KeyedAt` the number of messages sent. -/
theorem LoggedSession.keyedAt {P : Primitives} {isPsk : Bool} {patterns : List (List Token)}
    {i₀ r₀ w r : HandshakeState} {sent : List Bytes} (initiator : KeyedAt isPsk patterns 0 i₀)
    (responder : KeyedAt isPsk patterns 0 r₀) (session : LoggedSession P i₀ r₀ w r sent) :
    KeyedAt isPsk patterns sent.length w ∧ KeyedAt isPsk patterns sent.length r := by
  induction session with
  | start => exact ⟨initiator, responder⟩
  | message _ write read ih =>
    obtain ⟨writer, reader⟩ := ih
    obtain ⟨ts, index, set, kept⟩ := writeHandshakeMessage_hasKey P write
    obtain ⟨-, -, advanced, listed, -⟩ := writeHandshakeMessage_ok P write
    obtain ⟨ts', index', set', kept'⟩ := readHandshakeMessage_hasKey P read
    obtain ⟨-, advanced', listed', -⟩ := readHandshakeMessage_ok P read
    rw [List.length_append, List.length_singleton]
    exact ⟨reader.next index' set' kept' advanced' listed',
      writer.next index set kept advanced listed⟩

/-- Whether each payload of a handshake travels encrypted is fixed by the
pattern. For two parties that `new` builds from the same parameters, at every
pair of states a run of successful writes and reads reaches, both parties'
`was_write_payload_encrypted` is the key state the tokens of the messages so
far leave, from no key: whatever the keys, the PSKs, the prologues and the
payloads, and for PSK patterns too. -/
theorem wasWritePayloadEncrypted_of_session {P : Primitives}
    {expand : HandshakeChoice → Except Error HandshakeTokens} {params : NoiseParams}
    {tokens : HandshakeTokens} {rngI rngR : Nat} {csI csR : CipherState} {sI eI sR eR : Toggle Dh}
    {fixedI fixedR : Bool} {rsI reI rsR reR : Toggle DhBuf} {psksI psksR : Psks}
    {prologueI prologueR : Bytes} {cssI cssR : CipherStates} {i₀ r₀ : HandshakeState}
    (expanded : expand params.handshake = .ok tokens)
    (initiator : HandshakeState.new P expand rngI csI sI eI fixedI rsI reI true params psksI
      prologueI cssI = .ok i₀)
    (responder : HandshakeState.new P expand rngR csR sR eR fixedR rsR reR false params psksR
      prologueR cssR = .ok r₀)
    {w r : HandshakeState} {sent : List Bytes} (session : LoggedSession P i₀ r₀ w r sent) :
    w.wasWritePayloadEncrypted =
        keyedRun params.handshake.isPsk false (tokens.msgPatterns.take sent.length) ∧
      r.wasWritePayloadEncrypted = w.wasWritePayloadEncrypted := by
  obtain ⟨writer, reader⟩ :=
    session.keyedAt (.new expanded initiator) (.new expanded responder)
  exact ⟨writer.keyed, reader.keyed.trans writer.keyed.symm⟩

/-- `X` after its one message: the responder, about to write, and the
initiator both report a key, since `es` set one. -/
theorem x_payloads_encrypted :
    ∃ message w' v r',
      xInitiator.writeHandshakeMessage Primitives.sample [] (List.replicate 96 0) =
        .ok (96, message) w' ∧
      xResponder.readHandshakeMessage Primitives.sample (message.take 96) [] = .ok v r' ∧
      r'.wasWritePayloadEncrypted =
        keyedRun false false ([[.E, .Dhes, .S, .Dhss]].take ([] ++ [message.take 96]).length) ∧
      w'.wasWritePayloadEncrypted = r'.wasWritePayloadEncrypted := by
  obtain ⟨message, w', v, r', written, read⟩ : ∃ message w' v r',
      xInitiator.writeHandshakeMessage Primitives.sample [] (List.replicate 96 0) =
        .ok (96, message) w' ∧
      xResponder.readHandshakeMessage Primitives.sample (message.take 96) [] = .ok v r' :=
    ⟨_, _, _, _, rfl, rfl⟩
  exact ⟨message, w', v, r', written, read,
    wasWritePayloadEncrypted_of_session
      (show sampleExpand (sampleParams .X "Noise_X_25519_ChaChaPoly_SHA256").handshake =
        .ok xTokens from rfl) new_xInitiator new_xResponder
      (.message .start written read)⟩

/-! ## The payload's bounds -/

namespace HandshakeState

section Bounds

variable {P : Primitives} (lawful : P.Lawful)
include lawful

/-- The payload's two checks, exactly: the buffer must have room for the
payload and a tag; the message with the trailer it then writes, whose tag is
there only once a key is set, must fit in `MAXMSGLEN`. -/
theorem writePayload_bounds (hs : HandshakeState) (payload message : Bytes) (byteIndex : Nat) :
    (message.length < byteIndex + payload.length + TAGLEN ∨
        MAXMSGLEN < byteIndex + payload.length + tagLen hs.symmetricstate.hasKey →
      ∃ hs', hs.writePayload P payload message byteIndex = .err .Input hs') ∧
    (byteIndex + payload.length + TAGLEN ≤ message.length →
      byteIndex + payload.length + tagLen hs.symmetricstate.hasKey ≤ MAXMSGLEN →
      ∃ message' hs', hs.writePayload P payload message byteIndex =
        .ok (byteIndex + payload.length + tagLen hs.symmetricstate.hasKey, message') hs') := by
  unfold writePayload
  by_cases short : message.length < byteIndex + payload.length + TAGLEN
  · rw [if_pos short]
    exact ⟨fun _ => ⟨hs, rfl⟩, fun room => absurd room (by omega)⟩
  rw [if_neg short]
  have tag : tagLen hs.symmetricstate.hasKey ≤ TAGLEN := by unfold tagLen; split <;> simp [TAGLEN]
  have fits :
      payload.length + tagLen hs.symmetricstate.hasKey ≤ (message.drop byteIndex).length := by
    rw [List.length_drop]; omega
  obtain ⟨⟨written, out, ss⟩, encrypted⟩ :=
    Option.ne_none_iff_exists'.mp (SymmetricState.encryptAndMixHash_ne_none lawful fits)
  obtain ⟨-, rfl, -, -⟩ := (SymmetricState.encryptAndMixHash_eq_some P).mp encrypted
  have written : (hs.symmetricstate.encrypt P payload).1.length =
      payload.length + tagLen hs.symmetricstate.hasKey := SymmetricState.length_encrypt lawful _ _
  rw [encrypted]
  dsimp only
  rw [written, ← Nat.add_assoc]
  exact ⟨fun over => ⟨_, if_pos (over.resolve_left short)⟩,
    fun _ bounded => ⟨_, _, if_neg (by omega)⟩⟩

end Bounds

end HandshakeState

end Screech
