import Screech.Calls

/-!
# What a call may change

Every iteration of the two token loops writes at most the symmetric state,
the key slots `e`, `re`, `rs` and the generator (`TokenFrame`). The checks
that precede the loops, the bound checks after them, and the `Err` arm of
`write_handshake_message` and `read_handshake_message` then give the error
atomicity of the two calls: a failed call leaves everything as it was except
those three slots and the generator, since the arm restores the symmetric
state from its checkpoint (`writeHandshakeMessage_err`,
`readHandshakeMessage_err`).

The generator is among them: an `E` token draws a fresh ephemeral key before a
later token or the payload fails, and nothing rewinds the draw
(`writeHandshakeMessage_err_advances_rng`).
-/

namespace Screech

namespace HandshakeState

/-- `a` with the fields a token may write taken from `b`. -/
def withSlots (a b : HandshakeState) : HandshakeState :=
  { a with symmetricstate := b.symmetricstate, e := b.e, re := b.re, rs := b.rs, rng := b.rng }

/-- `b` differs from `a` at most in the symmetric state, the key slots `e`,
`re`, `rs` and the generator. -/
def TokenFrame (a b : HandshakeState) : Prop := b = a.withSlots b

theorem TokenFrame.refl (a : HandshakeState) : TokenFrame a a := rfl

theorem TokenFrame.trans {a b c : HandshakeState} (left : TokenFrame a b)
    (right : TokenFrame b c) : TokenFrame a c := by
  unfold TokenFrame withSlots at *
  rw [right, left]

namespace TokenFrame

variable {a b : HandshakeState}

theorem patternPosition (frame : TokenFrame a b) : b.patternPosition = a.patternPosition := by
  rw [frame]; rfl

theorem messagePatterns (frame : TokenFrame a b) : b.messagePatterns = a.messagePatterns := by
  rw [frame]; rfl

theorem myTurn (frame : TokenFrame a b) : b.myTurn = a.myTurn := by
  rw [frame]; rfl

theorem cipherstates (frame : TokenFrame a b) : b.cipherstates = a.cipherstates := by
  rw [frame]; rfl

theorem initiator (frame : TokenFrame a b) : b.initiator = a.initiator := by
  rw [frame]; rfl

theorem s (frame : TokenFrame a b) : b.s = a.s := by
  rw [frame]; rfl

theorem params (frame : TokenFrame a b) : b.params = a.params := by
  rw [frame]; rfl

theorem fixedEphemeral (frame : TokenFrame a b) : b.fixedEphemeral = a.fixedEphemeral := by
  rw [frame]; rfl

theorem psks (frame : TokenFrame a b) : b.psks = a.psks := by
  rw [frame]; rfl

end TokenFrame

variable (P : Primitives) {hs hs' : HandshakeState} {dhLen : Nat}

theorem dhToken_frame {α : Type} {localS remoteS : Bool} {cursor : α}
    (h : (hs.dhToken P dhLen localS remoteS cursor).state? = some hs') : TokenFrame hs hs' := by
  unfold dhToken at h
  split at h <;> cases h <;> rfl

theorem pskToken_frame {α : Type} {n : UInt8} {cursor : α}
    (h : (hs.pskToken P n cursor).state? = some hs') : TokenFrame hs hs' := by
  unfold pskToken at h
  split at h <;> cases h <;> rfl

/-- One iteration of the write loop stays inside the token frame. -/
theorem writeToken_frame {message : Bytes} {byteIndex : Nat} {token : Token}
    (h : (hs.writeToken P dhLen message byteIndex token).state? = some hs') :
    TokenFrame hs hs' := by
  cases token with
  | Psk n => exact pskToken_frame P h
  | Dhee | Dhes | Dhse | Dhss => exact dhToken_frame P h
  | E | S =>
    simp only [writeToken] at h
    repeat' split at h
    all_goals (cases h <;> rfl)

/-- One iteration of the read loop stays inside the token frame. -/
theorem readToken_frame {ptr : Bytes} {token : Token}
    (h : (hs.readToken P dhLen ptr token).state? = some hs') : TokenFrame hs hs' := by
  cases token with
  | Psk n => exact pskToken_frame P h
  | Dhee | Dhes | Dhse | Dhss => exact dhToken_frame P h
  | E | S =>
    simp only [readToken] at h
    repeat' split at h
    all_goals (cases h <;> rfl)

theorem writeTokens_frame {message : Bytes} {byteIndex : Nat} {tokens : List Token}
    (h : (hs.writeTokens P dhLen message byteIndex tokens).state? = some hs') :
    TokenFrame hs hs' := by
  induction tokens generalizing hs message byteIndex with
  | nil => cases h; rfl
  | cons token tokens ih =>
    rw [writeTokens] at h
    rcases Outcome.state?_bind h with first | ⟨cursor, mid, step, rest⟩
    · exact writeToken_frame P first
    · exact (writeToken_frame P (by rw [step]; rfl)).trans (ih rest)

theorem readTokens_frame {ptr : Bytes} {tokens : List Token}
    (h : (hs.readTokens P dhLen ptr tokens).state? = some hs') : TokenFrame hs hs' := by
  induction tokens generalizing hs ptr with
  | nil => cases h; rfl
  | cons token tokens ih =>
    rw [readTokens] at h
    rcases Outcome.state?_bind h with first | ⟨ptr', mid, step, rest⟩
    · exact readToken_frame P first
    · exact (readToken_frame P (by rw [step]; rfl)).trans (ih rest)

/-- The payload's bound checks fail only inside the token frame. -/
theorem writePayload_err {payload message : Bytes} {byteIndex : Nat} {e : Error}
    (h : hs.writePayload P payload message byteIndex = .err e hs') : TokenFrame hs hs' := by
  unfold writePayload at h
  repeat' split at h
  all_goals (cases h <;> rfl)

theorem readPayload_err {last : Bool} {ptr payload : Bytes} {e : Error}
    (h : hs.readPayload P last ptr payload = .err e hs') : TokenFrame hs hs' := by
  simp only [readPayload] at h
  split at h
  · cases h; rfl
  · cases h
  · split at h
    · split at h <;> cases h
    · cases h

theorem _writeHandshakeMessage_err {payload message : Bytes} {e : Error}
    (h : hs._writeHandshakeMessage P payload message = .err e hs') : TokenFrame hs hs' := by
  unfold _writeHandshakeMessage at h
  split at h
  · cases h; rfl
  split at h
  · cases h; rfl
  rcases Outcome.bind_eq_err.mp h with loop | ⟨cursor, mid, loop, payloadErr⟩
  · exact writeTokens_frame P (by rw [loop]; rfl)
  · exact (writeTokens_frame P (by rw [loop]; rfl)).trans (writePayload_err P payloadErr)

theorem _readHandshakeMessage_err {message payload : Bytes} {e : Error}
    (h : hs._readHandshakeMessage P message payload = .err e hs') : TokenFrame hs hs' := by
  unfold _readHandshakeMessage at h
  split at h
  · cases h; rfl
  split at h
  · cases h
  split at h
  · cases h
  rcases Outcome.bind_eq_err.mp h with loop | ⟨ptr, mid, loop, payloadErr⟩
  · exact readTokens_frame P (by rw [loop]; rfl)
  · exact (readTokens_frame P (by rw [loop]; rfl)).trans (readPayload_err P payloadErr)

/-- Restoring the symmetric state after a token frame leaves only the slots
and the generator changed. -/
theorem TokenFrame.restore {a b : HandshakeState} (frame : TokenFrame a b) :
    { b with symmetricstate := a.symmetricstate } =
      { a with e := b.e, re := b.re, rs := b.rs, rng := b.rng } := by
  rw [frame]; rfl

theorem writeHandshakeMessage_err {payload message : Bytes} {e : Error}
    (h : hs.writeHandshakeMessage P payload message = .err e hs') :
    hs' = { hs with e := hs'.e, re := hs'.re, rs := hs'.rs, rng := hs'.rng } := by
  unfold writeHandshakeMessage at h
  split at h
  · cases h
  · rename_i mid inner
    cases h
    exact (_writeHandshakeMessage_err P inner).restore
  · cases h

theorem readHandshakeMessage_err {message payload : Bytes} {e : Error}
    (h : hs.readHandshakeMessage P message payload = .err e hs') :
    hs' = { hs with e := hs'.e, re := hs'.re, rs := hs'.rs, rng := hs'.rng } := by
  unfold readHandshakeMessage at h
  split at h
  · cases h
  · rename_i mid inner
    cases h
    exact (_readHandshakeMessage_err P inner).restore
  · cases h

end HandshakeState

open HandshakeState

/-- Error atomicity: a failed `write_handshake_message` or
`read_handshake_message` leaves the symmetric state, the position, the turn,
the transport pair, the PSKs and every other field as they were; only the key
slots `e`, `re`, `rs` and the generator may have moved. -/
theorem failed_call_changes_only_slots_and_rng (P : Primitives) {hs hs' : HandshakeState}
    {e : Error}
    (failed : (∃ payload message, hs.writeHandshakeMessage P payload message = .err e hs') ∨
      ∃ message payload, hs.readHandshakeMessage P message payload = .err e hs') :
    hs' = { hs with e := hs'.e, re := hs'.re, rs := hs'.rs, rng := hs'.rng } := by
  rcases failed with ⟨payload, message, write⟩ | ⟨message, payload, read⟩
  · exact writeHandshakeMessage_err P write
  · exact readHandshakeMessage_err P read

/-- The `NN` initiator writing into a 32-byte buffer: the ephemeral key fits,
the payload's bound check fails, and the state is the old one but for `e` and
the generator. -/
theorem nnInitiator_short_write_restores :
    ∃ hs', nnInitiator.writeHandshakeMessage Primitives.sample [] (List.replicate 32 0) =
        .err .Input hs' ∧
      hs' = { nnInitiator with e := hs'.e, re := hs'.re, rs := hs'.rs, rng := hs'.rng } :=
  ⟨_, rfl, failed_call_changes_only_slots_and_rng Primitives.sample
    (.inl ⟨[], List.replicate 32 0, rfl⟩)⟩

/-- The generator is not restored: the failed write above drew its ephemeral
key, so the state after it is not the old one with only `e`, `re`, `rs`
changed. -/
theorem failed_write_advances_rng :
    ¬ ∀ (hs hs' : HandshakeState) (payload message : Bytes) (e : Error),
      hs.writeHandshakeMessage Primitives.sample payload message = .err e hs' →
        hs' = { hs with e := hs'.e, re := hs'.re, rs := hs'.rs } := by
  intro onlySlots
  have restored := onlySlots nnInitiator _ [] (List.replicate 32 0) .Input rfl
  exact absurd (congrArg HandshakeState.rng restored) (by decide)

end Screech
