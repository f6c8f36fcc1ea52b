import Screech.Layout
import Screech.Bounds

/-!
# Calls that do not panic

The specification asks for no panic on user-supplied input (§7). The model
shows when each of the two message calls meets it, under the contract of the
primitives.

A read before the end of the handshake does not panic on any message,
provided the PSK tokens name one of the ten slots and the payload buffer has
room for the message (`readHandshakeMessage_ne_panic`). Every field it
decrypts then fits where it is written: `rs` for an `S` field, the payload
buffer for the trailer. A keyed trailer that decrypts carries its tag, so the
`TAGLEN` subtraction does not underflow. Past the last message the read
indexes `message_patterns` out of bounds (`readHandshakeMessage_of_finished`),
a PSK token past the ten slots indexes `psks` out of bounds, and a plaintext
longer than the payload buffer is written past its end.

A write does not panic when the PSK tokens name one of the ten slots, `e` has
the length of `s`, and the message buffer has room for the token fields of
the layout of §6 (`writeHandshakeMessage_ne_panic`). The payload needs no
such room: its bound check counts the tag. The check before an `S` field does
not, which is why the room must come from the caller.
-/

namespace Screech

/-- Under the contract, `decrypt_and_mix_hash` panics only when the plaintext
does not fit in the output buffer: room for the data less its tag is enough. -/
theorem SymmetricState.decryptAndMixHash_ne_panic {P : Primitives} (lawful : P.Lawful)
    {ss : SymmetricState} {data out : Bytes}
    (room : data.length ≤ out.length + tagLen ss.hasKey) :
    ss.decryptAndMixHash P data out ≠ .panic := by
  unfold decryptAndMixHash
  split
  · nofun
  · rename_i plaintext cs decrypted
    have stripped := length_of_decrypt lawful decrypted
    rw [(writeAt_eq_some.mpr ⟨by omega, rfl⟩ : writeAt out 0 plaintext = some _)]
    nofun

/-- Under the contract, `encrypt_and_mix_hash` writes its ciphertext whenever
the output buffer has room for the plaintext and, once a key is set, its tag. -/
theorem SymmetricState.encryptAndMixHash_ne_none {P : Primitives} (lawful : P.Lawful)
    {ss : SymmetricState} {plaintext out : Bytes}
    (room : plaintext.length + tagLen ss.hasKey ≤ out.length) :
    ss.encryptAndMixHash P plaintext out ≠ none := by
  have fits : (ss.encrypt P plaintext).1.length ≤ out.length := by
    rw [length_encrypt lawful]; exact room
  rw [(encryptAndMixHash_eq_some P).mpr ⟨fits, rfl, rfl, rfl⟩]
  nofun

namespace HandshakeState

section Calls

variable {P : Primitives} (lawful : P.Lawful)
include lawful

/-- One token of the read loop does not panic when its PSK slot exists, and
leaves at most the bytes it was given. -/
theorem readToken_ne_panic {hs : HandshakeState} {dhLen : Nat} (short : dhLen ≤ MAXDHLEN)
    {ptr : Bytes} {token : Token} (slot : ∀ n, token = .Psk n → n.toNat < 10) :
    hs.readToken P dhLen ptr token ≠ .panic ∧
      ∀ ptr' hs', hs.readToken P dhLen ptr token = .ok ptr' hs' →
        ptr'.length ≤ ptr.length := by
  cases token with
  | E =>
    simp only [readToken]
    split
    · exact ⟨nofun, fun _ _ => Outcome.noConfusion⟩
    · exact ⟨nofun, fun ptr' hs' h => by cases h; simp⟩
  | S =>
    simp only [readToken]
    generalize field : (if hs.symmetricstate.hasKey then dhLen + TAGLEN else dhLen) = fieldLen
    have fits : hs.symmetricstate.decryptAndMixHash P (ptr.take fieldLen)
        (hs.rs.inner.bytes.take dhLen) ≠ .panic := by
      refine SymmetricState.decryptAndMixHash_ne_panic lawful ?_
      simp only [List.length_take, hs.rs.inner.length_eq, tagLen, ← field]
      split <;> omega
    split
    · exact ⟨nofun, fun _ _ => Outcome.noConfusion⟩
    split
    · exact ⟨nofun, fun ptr' hs' h => by cases h; simp⟩
    · exact ⟨nofun, fun _ _ => Outcome.noConfusion⟩
    · contradiction
  | Psk n =>
    have present : hs.psks.slots[n.toNat]? ≠ none := by
      rw [Ne, List.getElem?_eq_none_iff, hs.psks.length_eq]
      exact Nat.not_le.mpr (slot n rfl)
    simp only [readToken, pskToken]
    split
    · contradiction
    · exact ⟨nofun, fun _ _ => Outcome.noConfusion⟩
    · exact ⟨nofun, fun ptr' hs' h => by cases h; rfl⟩
  | Dhee | Dhes | Dhse | Dhss =>
    simp only [readToken, dhToken]
    split
    · exact ⟨nofun, fun _ _ => Outcome.noConfusion⟩
    · exact ⟨nofun, fun ptr' hs' h => by cases h; rfl⟩

/-- The read loop does not panic when its PSK slots exist, and leaves at most
the bytes of the message. -/
theorem readTokens_ne_panic {hs : HandshakeState} {dhLen : Nat} (short : dhLen ≤ MAXDHLEN)
    {ptr : Bytes} {ts : List Token} (slots : ∀ n, Token.Psk n ∈ ts → n.toNat < 10) :
    hs.readTokens P dhLen ptr ts ≠ .panic ∧
      ∀ ptr' hs', hs.readTokens P dhLen ptr ts = .ok ptr' hs' → ptr'.length ≤ ptr.length := by
  induction ts generalizing hs ptr with
  | nil => exact ⟨nofun, fun ptr' hs' h => by cases h; rfl⟩
  | cons t ts ih =>
    have slot : ∀ n, t = .Psk n → n.toNat < 10 :=
      fun n h => slots n (h ▸ List.mem_cons_self _ _)
    have tail : ∀ n, Token.Psk n ∈ ts → n.toNat < 10 :=
      fun n h => slots n (List.mem_cons_of_mem _ h)
    rw [readTokens]
    cases first : hs.readToken P dhLen ptr t with
    | panic => exact absurd first (readToken_ne_panic lawful short slot).1
    | err e hs₁ => exact ⟨nofun, fun _ _ => Outcome.noConfusion⟩
    | ok ptr₁ hs₁ =>
      have bound := (readToken_ne_panic lawful short slot).2 ptr₁ hs₁ first
      simp only [Outcome.ok_bind]
      exact ⟨(ih tail).1, fun ptr' hs' h => ((ih tail).2 ptr' hs' h).trans bound⟩

/-- The trailer does not panic into a payload buffer with room for it. -/
theorem readPayload_ne_panic {hs : HandshakeState} {last : Bool} {ptr payload : Bytes}
    (room : ptr.length ≤ payload.length) : hs.readPayload P last ptr payload ≠ .panic := by
  simp only [readPayload]
  split
  · nofun
  · rename_i panicked
    exact absurd panicked (SymmetricState.decryptAndMixHash_ne_panic lawful (by omega))
  · rename_i opened
    obtain ⟨plaintext, cs, decrypted, -, -, -, rfl⟩ :=
      (SymmetricState.decryptAndMixHash_eq_ok P).mp opened
    have stripped := SymmetricState.length_of_decrypt lawful decrypted
    have keyed := SymmetricState.hasKey_of_decrypt P decrypted
    simp only [splitIf_eq, SymmetricState.hasKey_mixHash, SymmetricState.hasKey_mk, keyed]
    split
    · rename_i hasKey
      simp only [tagLen, hasKey, if_true] at stripped
      rw [if_neg (by unfold TAGLEN at stripped ⊢; omega)]
      nofun
    · nofun

/-- Under the contract, a read before the end of the handshake does not panic
on any message, when the PSK tokens name one of the ten slots and the payload
buffer has room for the message. -/
theorem readHandshakeMessage_ne_panic {hs : HandshakeState} {message payload : Bytes}
    (inside : hs.patternPosition < hs.messagePatterns.length)
    (slots : ∀ ts ∈ hs.messagePatterns, ∀ n, Token.Psk n ∈ ts → n.toNat < 10)
    (room : message.length ≤ payload.length) :
    hs.readHandshakeMessage P message payload ≠ .panic := by
  have inner : hs._readHandshakeMessage P message payload ≠ .panic := by
    unfold _readHandshakeMessage
    split
    · nofun
    rw [if_neg (by omega), List.getElem?_eq_getElem inside]
    dsimp only
    have short : hs.dhLen ≤ MAXDHLEN := DHChoice.pubLen_le _
    have tokenSlots := slots _ (List.getElem_mem inside)
    cases loop : hs.readTokens P hs.dhLen message hs.messagePatterns[hs.patternPosition] with
    | panic => exact absurd loop (readTokens_ne_panic lawful short tokenSlots).1
    | err e hs₁ => exact Outcome.noConfusion
    | ok ptr hs₁ =>
      have shorter := (readTokens_ne_panic lawful short tokenSlots).2 ptr hs₁ loop
      exact readPayload_ne_panic lawful (shorter.trans room)
  unfold readHandshakeMessage
  split
  · nofun
  · nofun
  · contradiction

/-- One token of the write loop does not panic when its PSK slot exists and
the buffer has room for its field from the cursor on. -/
theorem writeToken_ne_panic {hs : HandshakeState} {dhLen byteIndex : Nat} {message : Bytes}
    {token : Token} (sLen : hs.s.inner.pubLen = dhLen)
    (slot : ∀ n, token = .Psk n → n.toNat < 10)
    (room : byteIndex + fieldLength dhLen hs.symmetricstate.hasKey token ≤ message.length) :
    hs.writeToken P dhLen message byteIndex token ≠ .panic := by
  cases token with
  | E =>
    have keyChoice := ephemeral_choice P hs
    simp only [writeToken]
    split
    · nofun
    generalize (if hs.fixedEphemeral = true then (hs.e.inner, hs.rng)
      else hs.e.inner.generate P hs.rng) = key at keyChoice ⊢
    have keyLen : (key.1.pubkey P).length = hs.e.inner.pubLen := by
      rw [Dh.pubkey_length lawful, Dh.pubLen, keyChoice]; rfl
    rw [(writeAt_eq_some.mpr ⟨by omega, rfl⟩ :
      writeAt message byteIndex (key.1.pubkey P) = some _)]
    nofun
  | S =>
    have encrypts : hs.symmetricstate.encryptAndMixHash P (hs.s.inner.pubkey P)
        (message.drop byteIndex) ≠ none := by
      refine SymmetricState.encryptAndMixHash_ne_none lawful ?_
      rw [Dh.pubkey_length lawful, List.length_drop, sLen]
      simp only [fieldLength] at room
      omega
    simp only [writeToken]
    split
    · nofun
    split
    · nofun
    split
    · contradiction
    · nofun
  | Psk n =>
    have present : hs.psks.slots[n.toNat]? ≠ none := by
      rw [Ne, List.getElem?_eq_none_iff, hs.psks.length_eq]
      exact Nat.not_le.mpr (slot n rfl)
    simp only [writeToken, pskToken]
    split
    · contradiction
    · nofun
    · nofun
  | Dhee | Dhes | Dhse | Dhss =>
    simp only [writeToken, dhToken]
    split <;> nofun

/-- The write loop does not panic when its PSK slots exist and the buffer has
room for the token fields of the spec from the cursor on. -/
theorem writeTokens_ne_panic {hs : HandshakeState} {dhLen byteIndex : Nat} {message : Bytes}
    {ts : List Token} (eLen : hs.e.inner.pubLen = dhLen) (sLen : hs.s.inner.pubLen = dhLen)
    (slots : ∀ n, Token.Psk n ∈ ts → n.toNat < 10)
    (room : byteIndex + fieldTotal dhLen hs.params.handshake.isPsk hs.symmetricstate.hasKey ts ≤
      message.length) :
    hs.writeTokens P dhLen message byteIndex ts ≠ .panic := by
  induction ts generalizing hs message byteIndex with
  | nil => nofun
  | cons t ts ih =>
    rw [fieldTotal] at room
    rw [writeTokens]
    cases step : hs.writeToken P dhLen message byteIndex t with
    | panic =>
      exact absurd step (writeToken_ne_panic lawful sLen
        (fun n h => slots n (h ▸ List.mem_cons_self _ _)) (by omega))
    | err e hs₁ => exact Outcome.noConfusion
    | ok cursor hs₁ =>
      obtain ⟨message₁, byteIndex₁⟩ := cursor
      obtain ⟨advance, keyed, eLen₁⟩ := writeToken_layout lawful eLen sLen step
      obtain ⟨length₁, -, -⟩ := writeToken_cursor P (by omega) step
      have frame := writeToken_frame P (by rw [step]; rfl)
      refine ih eLen₁ (by rw [frame.s, sLen]) (fun n h => slots n (List.mem_cons_of_mem _ h)) ?_
      rw [frame.params, keyed, advance, length₁]
      omega

/-- The payload of a write does not panic: its bound check counts the tag. -/
theorem writePayload_ne_panic {hs : HandshakeState} {payload message : Bytes} {byteIndex : Nat} :
    hs.writePayload P payload message byteIndex ≠ .panic := by
  unfold writePayload
  split
  · nofun
  rename_i fits
  cases encrypted : hs.symmetricstate.encryptAndMixHash P payload (message.drop byteIndex) with
  | none =>
    refine absurd encrypted (SymmetricState.encryptAndMixHash_ne_none lawful ?_)
    simp only [List.length_drop, tagLen]
    split <;> omega
  | some result =>
    obtain ⟨written, out, ss⟩ := result
    dsimp only
    split <;> nofun

/-- Under the contract, a write does not panic when the PSK tokens name one of
the ten slots, `e` has the length of `s`, and the message buffer has room for
the token fields of the message to write. -/
theorem writeHandshakeMessage_ne_panic {hs : HandshakeState} {payload message : Bytes}
    (eLen : hs.e.inner.pubLen = hs.dhLen)
    (slots : ∀ ts ∈ hs.messagePatterns, ∀ n, Token.Psk n ∈ ts → n.toNat < 10)
    (room : ∀ tokens, hs.messagePatterns[hs.patternPosition]? = some tokens →
      fieldTotal hs.dhLen hs.params.handshake.isPsk hs.symmetricstate.hasKey tokens ≤
        message.length) :
    hs.writeHandshakeMessage P payload message ≠ .panic := by
  have inner : hs._writeHandshakeMessage P payload message ≠ .panic := by
    unfold _writeHandshakeMessage
    split
    · nofun
    split
    · nofun
    rename_i finished
    have inside := Nat.lt_of_not_ge finished
    simp only [List.get_eq_getElem]
    cases loop : hs.writeTokens P hs.dhLen message 0 hs.messagePatterns[hs.patternPosition] with
    | panic =>
      refine absurd loop
        (writeTokens_ne_panic lawful eLen rfl (slots _ (List.getElem_mem inside)) ?_)
      rw [Nat.zero_add]
      exact room _ (List.getElem?_eq_getElem inside)
    | err e hs₁ => exact Outcome.noConfusion
    | ok cursor hs₁ => exact writePayload_ne_panic lawful
  unfold writeHandshakeMessage
  split
  · nofun
  · nofun
  · contradiction

end Calls

/-- The responder of `X` does not panic on a message of zeros. -/
theorem xResponder_reads_zeros_without_panic :
    xResponder.patternPosition < xResponder.messagePatterns.length ∧
      (∀ ts ∈ xResponder.messagePatterns, ∀ n, Token.Psk n ∈ ts → n.toNat < 10) ∧
      xResponder.readHandshakeMessage Primitives.sample (List.replicate 96 0)
        (List.replicate 96 0) ≠ .panic := by
  have slots : ∀ ts ∈ xResponder.messagePatterns, ∀ n, Token.Psk n ∈ ts → n.toNat < 10 :=
    fun ts mem n held => absurd held (xTokens_no_psk ts mem n)
  exact ⟨by decide, slots,
    readHandshakeMessage_ne_panic Primitives.sample_lawful (by decide) slots le_rfl⟩

/-- The initiator of `X` writes its first message into 96 bytes, room for the
80 bytes of its fields, without panic. -/
theorem xInitiator_writes_without_panic :
    xInitiator.e.inner.pubLen = xInitiator.dhLen ∧
      (∀ ts ∈ xInitiator.messagePatterns, ∀ n, Token.Psk n ∈ ts → n.toNat < 10) ∧
      (∀ tokens, xInitiator.messagePatterns[xInitiator.patternPosition]? = some tokens →
        fieldTotal xInitiator.dhLen xInitiator.params.handshake.isPsk
          xInitiator.symmetricstate.hasKey tokens ≤ (List.replicate 96 0).length) ∧
      xInitiator.writeHandshakeMessage Primitives.sample [] (List.replicate 96 0) ≠ .panic := by
  have slots : ∀ ts ∈ xInitiator.messagePatterns, ∀ n, Token.Psk n ∈ ts → n.toNat < 10 :=
    fun ts mem n held => absurd held (xTokens_no_psk ts mem n)
  have room : ∀ tokens, xInitiator.messagePatterns[xInitiator.patternPosition]? = some tokens →
      fieldTotal xInitiator.dhLen xInitiator.params.handshake.isPsk
        xInitiator.symmetricstate.hasKey tokens ≤ (List.replicate 96 0).length := by
    intro tokens index
    simp only [xInitiator, xTokens] at index
    cases index
    decide
  exact ⟨rfl, slots, room,
    writeHandshakeMessage_ne_panic Primitives.sample_lawful rfl slots room⟩

end HandshakeState

end Screech
