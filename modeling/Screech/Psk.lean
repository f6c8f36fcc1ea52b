import Screech.Liveness

/-!
# PSK slots

The ten PSK slots are filled by `set_psk` and read by the `Psk(n)` token of
either token loop, which bails with `MissingPsk` on an empty slot. Nothing
else touches them: the token loops and the payload leave `psks` alone, and a
failed call restores only the symmetric state, which does not hold them.

So a message with a `Psk(n)` token completes only if slot `n` is full when it
is written or read (`writeHandshakeMessage_psk`, `readHandshakeMessage_psk`),
and a slot that starts empty stays empty until a call of `set_psk` names it
(`trace_psk_slot`). Together: without a `set_psk(n, _)`, no message with
`Psk(n)` ever completes (`missing_psk_blocks_message`).
-/

namespace Screech

namespace HandshakeState

variable (P : Primitives) {hs hs' : HandshakeState} {dhLen : Nat} {n : UInt8}

/-! ## One message -/

/-- The write loop passes a `Psk(n)` token only with slot `n` full. -/
theorem writeTokens_psk {message : Bytes} {byteIndex : Nat} {tokens : List Token}
    {cursor : Bytes × Nat} (h : hs.writeTokens P dhLen message byteIndex tokens = .ok cursor hs')
    (mem : Token.Psk n ∈ tokens) : ∃ psk, hs.psks.slots[n.toNat]? = some (some psk) := by
  induction tokens generalizing hs message byteIndex with
  | nil => cases mem
  | cons token tokens ih =>
    rw [writeTokens] at h
    obtain ⟨⟨message₁, byteIndex₁⟩, mid, step, rest⟩ := Outcome.bind_eq_ok.mp h
    rcases List.mem_cons.mp mem with rfl | later
    · obtain ⟨-, psk, slot, -⟩ := pskToken_eq_ok P step
      exact ⟨psk, slot⟩
    · rw [← (writeToken_frame P (by rw [step]; rfl)).psks]
      exact ih rest later

/-- The read loop passes a `Psk(n)` token only with slot `n` full. -/
theorem readTokens_psk {ptr : Bytes} {tokens : List Token} {ptr' : Bytes}
    (h : hs.readTokens P dhLen ptr tokens = .ok ptr' hs') (mem : Token.Psk n ∈ tokens) :
    ∃ psk, hs.psks.slots[n.toNat]? = some (some psk) := by
  induction tokens generalizing hs ptr with
  | nil => cases mem
  | cons token tokens ih =>
    rw [readTokens] at h
    obtain ⟨ptr₁, mid, step, rest⟩ := Outcome.bind_eq_ok.mp h
    rcases List.mem_cons.mp mem with rfl | later
    · obtain ⟨-, psk, slot, -⟩ := pskToken_eq_ok P step
      exact ⟨psk, slot⟩
    · rw [← (readToken_frame P (by rw [step]; rfl)).psks]
      exact ih rest later

theorem writeHandshakeMessage_psk {payload message : Bytes} {v : Nat × Bytes} {tokens : List Token}
    (h : hs.writeHandshakeMessage P payload message = .ok v hs')
    (index : hs.messagePatterns[hs.patternPosition]? = some tokens) (mem : Token.Psk n ∈ tokens) :
    ∃ psk, hs.psks.slots[n.toNat]? = some (some psk) := by
  obtain ⟨tokens', cursor, mid, inner, index', loop, -, -⟩ := writeHandshakeMessage_eq_ok P h
  obtain rfl : tokens = tokens' := Option.some_injective _ (index.symm.trans index')
  exact writeTokens_psk P loop mem

theorem readHandshakeMessage_psk {message payload : Bytes} {v : Nat × Bytes} {tokens : List Token}
    (h : hs.readHandshakeMessage P message payload = .ok v hs')
    (index : hs.messagePatterns[hs.patternPosition]? = some tokens) (mem : Token.Psk n ∈ tokens) :
    ∃ psk, hs.psks.slots[n.toNat]? = some (some psk) := by
  obtain ⟨tokens', ptr, mid, inner, index', loop, -, -⟩ := readHandshakeMessage_eq_ok P h
  obtain rfl : tokens = tokens' := Option.some_injective _ (index.symm.trans index')
  exact readTokens_psk P loop mem

/-! ## One call -/

/-- Slot `k` changes only in a call of `set_psk` that names it. -/
theorem Call.run_psk_slot {c : Call} {k : Nat} (h : c.run P hs = some hs')
    (notSet : ∀ key, c ≠ .setPsk k key) : hs'.psks.slots[k]? = hs.psks.slots[k]? := by
  cases c with
  | write payload message =>
    simp only [Call.run] at h
    cases call : hs.writeHandshakeMessage P payload message <;> rw [call] at h <;> cases h
    · rw [(writeHandshakeMessage_keeps call).2]
    · rw [writeHandshakeMessage_err P call]
  | read message payload =>
    simp only [Call.run] at h
    cases call : hs.readHandshakeMessage P message payload <;> rw [call] at h <;> cases h
    · rw [(readHandshakeMessage_keeps call).2]
    · rw [readHandshakeMessage_err P call]
  | setPsk location key =>
    have other : location ≠ k := fun same => notSet key (by rw [same])
    simp only [Call.run] at h
    unfold HandshakeState.setPsk at h
    split at h <;> cases h
    · rfl
    · exact List.getElem?_set_ne other

end HandshakeState

open HandshakeState

/-! ## Whole runs -/

/-- Along calls none of which is a `set_psk` of slot `k`, slot `k` keeps its
content. -/
theorem trace_psk_slot (P : Primitives) {k : Nat} {hs : HandshakeState} (calls : List Call)
    (notSet : ∀ key, Call.setPsk k key ∉ calls) :
    ∀ hs' ∈ trace P hs calls, hs'.psks.slots[k]? = hs.psks.slots[k]? :=
  trace_preserves P (fun _ held _ _ run kept =>
    (Call.run_psk_slot P run fun key same => notSet key (same ▸ held)).trans kept) rfl

/-- PSK absence: from a state whose slot `n` is empty, along any calls that do
not call `set_psk` on slot `n`, no write and no read of a message with a
`Psk(n)` token returns `Ok`. -/
theorem missing_psk_blocks_message (P : Primitives) {hs : HandshakeState} {n : UInt8}
    (empty : hs.psks.slots[n.toNat]? = some none) (calls : List Call)
    (notSet : ∀ key, Call.setPsk n.toNat key ∉ calls) :
    ∀ hs' ∈ hs :: trace P hs calls, ∀ tokens,
      hs'.messagePatterns[hs'.patternPosition]? = some tokens → Token.Psk n ∈ tokens →
      (∀ payload message v hs'', hs'.writeHandshakeMessage P payload message ≠ .ok v hs'') ∧
      (∀ message payload v hs'', hs'.readHandshakeMessage P message payload ≠ .ok v hs'') := by
  intro hs' mem tokens index held
  have stillEmpty : hs'.psks.slots[n.toNat]? = some none := by
    rcases List.mem_cons.mp mem with rfl | later
    · exact empty
    · rw [trace_psk_slot P calls notSet hs' later, empty]
  refine ⟨fun payload message v hs'' write => ?_, fun message payload v hs'' read => ?_⟩
  · obtain ⟨psk, slot⟩ := writeHandshakeMessage_psk P write index held
    simp [stillEmpty] at slot
  · obtain ⟨psk, slot⟩ := readHandshakeMessage_psk P read index held
    simp [stillEmpty] at slot

/-- The `NN` initiator with the token lists of `NNpsk0`, `-> psk, e` and
`<- e, ee`, and no PSK set. -/
def nnPsk0Initiator : HandshakeState :=
  { nnInitiator with messagePatterns := [[.Psk 0, .E], [.E, .Dhee]] }

/-- Without `set_psk(0, _)`, the `NNpsk0` initiator's first message can be
neither written nor read, before or after a failed first write. -/
theorem nnPsk0_blocked_without_psk :
    nnPsk0Initiator.psks.slots[(0 : UInt8).toNat]? = some none ∧
      (∀ key, Call.setPsk (0 : UInt8).toNat key ∉ [Call.write [] []]) ∧
      ∀ hs' ∈ nnPsk0Initiator :: trace Primitives.sample nnPsk0Initiator [Call.write [] []],
        ∀ tokens, hs'.messagePatterns[hs'.patternPosition]? = some tokens →
        Token.Psk 0 ∈ tokens →
        (∀ payload message v hs'',
          hs'.writeHandshakeMessage Primitives.sample payload message ≠ .ok v hs'') ∧
        (∀ message payload v hs'',
          hs'.readHandshakeMessage Primitives.sample message payload ≠ .ok v hs'') :=
  ⟨rfl, by simp, @missing_psk_blocks_message Primitives.sample nnPsk0Initiator 0 rfl
    [Call.write [] []] (by simp)⟩

end Screech
