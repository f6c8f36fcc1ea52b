import Screech.Agreement
import Screech.Retry

/-!
# The remote static key

`get_remote_static` returns the first `dh_len` bytes of `rs` while `rs` is on.
Along a handshake between two parties that `new` builds as in
`Agreement.start`, it returns the other party's static public key and nothing
else (`remote_static_of_session`). `rs` is on from the start only where `new`
was given the other party's key, and it is turned on later only by an `S`
field, which under the contract the reader decrypts to the writer's key
(`TokenAgreement.ownOn`). The key is returned from the point at which the
pre-messages and the messages so far carry it (`Carried.after`): from the
start for a pre-message `s`, and from the message with the `S` token
otherwise.

When `new` is given a remote static key only where the pattern's pre-message
has one, the law is exact (`remote_static_eq_carried`): `get_remote_static`
returns nothing before that point, as the source's comment on it says ("if
the remote static key is not yet known"). A write never touches `rs`, and a
read turns it on only at an `S` token (`Session.rs_carried`).
-/

namespace Screech

namespace HandshakeState

/-- `get_remote_static` returns the start of `rs` while `rs` is on. -/
theorem getRemoteStatic_of_on {hs : HandshakeState} (rsOn : hs.rs.isOn = true) :
    hs.getRemoteStatic = some (hs.rs.inner.bytes.take hs.dhLen) := by
  simp [getRemoteStatic, Toggle.get, rsOn]

theorem getRemoteStatic_of_off {hs : HandshakeState} (rsOff : hs.rs.isOn = false) :
    hs.getRemoteStatic = none := by
  simp [getRemoteStatic, Toggle.get, rsOff]

/-- No iteration of the write loop touches `rs`. -/
theorem writeToken_rs (P : Primitives) {hs hs' : HandshakeState} {dhLen byteIndex : Nat}
    {message : Bytes} {token : Token}
    (h : (hs.writeToken P dhLen message byteIndex token).state? = some hs') : hs'.rs = hs.rs := by
  cases token with
  | Psk n =>
    simp only [writeToken, pskToken] at h
    split at h <;> cases h <;> rfl
  | Dhee | Dhes | Dhse | Dhss =>
    simp only [writeToken, dhToken] at h
    split at h <;> cases h <;> rfl
  | E | S =>
    simp only [writeToken] at h
    repeat' split at h
    all_goals (cases h <;> rfl)

theorem writeTokens_rs (P : Primitives) {hs hs' : HandshakeState} {dhLen byteIndex : Nat}
    {message : Bytes} {tokens : List Token}
    (h : (hs.writeTokens P dhLen message byteIndex tokens).state? = some hs') : hs'.rs = hs.rs := by
  induction tokens generalizing hs message byteIndex with
  | nil => cases h; rfl
  | cons token tokens ih =>
    rw [writeTokens] at h
    rcases Outcome.state?_bind h with first | ⟨cursor, mid, step, rest⟩
    · exact writeToken_rs P first
    · exact (ih rest).trans (writeToken_rs P (by rw [step]; rfl))

/-- A write leaves `rs` as it was. -/
theorem writeHandshakeMessage_rs (P : Primitives) {hs hs' : HandshakeState}
    {payload message : Bytes} {v : Nat × Bytes}
    (h : hs.writeHandshakeMessage P payload message = .ok v hs') : hs'.rs = hs.rs := by
  obtain ⟨tokens, cursor, mid, inner, -, loop, paid, rfl⟩ := writeHandshakeMessage_eq_ok P h
  have loopRs := writeTokens_rs P (by rw [loop]; rfl)
  rw [writePayload_ok P paid]
  exact loopRs

/-- A read changes `rs` only if its message has an `S` token. -/
theorem readHandshakeMessage_rs (P : Primitives) {hs hs' : HandshakeState}
    {message payload : Bytes} {v : Nat × Bytes}
    (h : hs.readHandshakeMessage P message payload = .ok v hs') :
    ∃ tokens, hs.messagePatterns[hs.patternPosition]? = some tokens ∧
      (hs'.rs = hs.rs ∨ Token.S ∈ tokens) := by
  obtain ⟨tokens, ptr, mid, inner, index, loop, paid, rfl⟩ := readHandshakeMessage_eq_ok P h
  have effect := readTokens_effect (show hs.dhLen ≤ MAXDHLEN from DHChoice.pubLen_le _)
    (by rw [loop]; rfl)
  rw [readPayload_ok P paid]
  exact ⟨tokens, index, effect.2.2.1⟩

end HandshakeState

open HandshakeState

/-- A message turns `ownS` on exactly when it has an `S` token, and leaves
`peerS` as it was. -/
theorem Carried.message_ownS {c c' : Carried} {ts : List Token} (h : c.message ts = some c') :
    c'.ownS = (c.ownS || decide (Token.S ∈ ts)) ∧ c'.peerS = c.peerS := by
  induction ts generalizing c with
  | nil => cases h; simp
  | cons t ts ih =>
    obtain ⟨c₁, first, rest⟩ := message_cons h
    obtain ⟨own, peer⟩ := ih rest
    have step : c₁.ownS = (c.ownS || decide (t = .S)) ∧ c₁.peerS = c.peerS := by
      cases t with
      | E | S | Psk n => cases first; simp
      | Dhee | Dhes | Dhse | Dhss => obtain ⟨rfl, -⟩ := token_dh first; simp
    refine ⟨?_, by rw [peer, step.2]⟩
    rw [own, step.1]
    simp [Bool.or_assoc, eq_comm]

namespace Agreement

variable {P : Primitives} {dh : DHChoice} {c : Carried} {w r : HandshakeState}

/-- While the reader's `rs` is on, it returns the writer's static key. -/
theorem reader_remoteStatic (agree : Agreement P dh c w r) (rsOn : r.rs.isOn = true) :
    r.getRemoteStatic = some (w.s.inner.pubkey P) := by
  rw [getRemoteStatic_of_on rsOn, agree.dhLen_eq.2]
  exact congrArg some (agree.ownOn true rsOn)

/-- While the writer's `rs` is on, it returns the reader's static key. -/
theorem writer_remoteStatic (agree : Agreement P dh c w r) (rsOn : w.rs.isOn = true) :
    w.getRemoteStatic = some (r.s.inner.pubkey P) := by
  rw [getRemoteStatic_of_on rsOn, agree.dhLen_eq.1]
  exact congrArg some (agree.peerOn true rsOn)

end Agreement

/-- Along a run, each party's `rs` is on only where the pre-messages and the
messages so far carried the other party's static key, if so at the start. -/
theorem Session.rs_carried {P : Primitives} (lawful : P.Lawful) {dh : DHChoice} {c₀ : Carried}
    {i₀ r₀ w r : HandshakeState} (start : Agreement P dh c₀ i₀ r₀)
    (fresh : i₀.patternPosition = 0)
    (initial : (r₀.rs.isOn = true → c₀.ownS = true) ∧ (i₀.rs.isOn = true → c₀.peerS = true))
    (session : Session P i₀ r₀ w r) :
    ∀ c, c₀.after (i₀.messagePatterns.take w.patternPosition) = some c →
      (r.rs.isOn = true → c.ownS = true) ∧ (w.rs.isOn = true → c.peerS = true) := by
  induction session with
  | start =>
    intro c carried
    rw [fresh] at carried
    cases carried
    exact initial
  | @message w r w' r' payload buf buf' out n v prev write read ih =>
    obtain ⟨c, listed, carried, agree⟩ := prev.agreement lawful start fresh
    obtain ⟨rHeld, wHeld⟩ := ih c carried
    obtain ⟨tokens, rIndex, rsRead⟩ := readHandshakeMessage_rs P read
    have index : i₀.messagePatterns[w.patternPosition]? = some tokens := by
      rw [← listed, agree.messagePatterns, agree.patternPosition]; exact rIndex
    intro c' carried'
    rw [(readHandshakeMessage_ok P read).2.1, ← agree.patternPosition,
      Carried.after_take_succ index, carried, Option.some_bind] at carried'
    obtain ⟨c₁, next, rfl⟩ := Option.map_eq_some'.mp carried'
    obtain ⟨own, peer⟩ := Carried.message_ownS next
    refine ⟨fun rsOn => ?_, fun rsOn => ?_⟩
    · show c₁.peerS = true
      rw [peer]
      exact wHeld (by rwa [← writeHandshakeMessage_rs P write])
    · show c₁.ownS = true
      rw [own]
      rcases rsRead with same | mem
      · rw [rHeld (by rwa [← same]), Bool.true_or]
      · simp [mem]

/-- Two parties that `new` builds from the same parameters and prologue, with
the pre-message and message patterns in order, keys of one DH function,
remote buffers that hold the other party's keys where they are on,
and the same PSK for every PSK token: at every pair of states a run reaches,
each party's `get_remote_static` returns nothing or the other party's static
public key, and it returns the key once the pre-messages and the messages so
far carry it. -/
theorem remote_static_of_session {P : Primitives} (lawful : P.Lawful)
    {expand : HandshakeChoice → Except Error HandshakeTokens} {params : NoiseParams}
    {dh : DHChoice} {tokens : HandshakeTokens} {prologue : Bytes} {rngI rngR : Nat} {csI csR : CipherState}
    {sI eI sR eR : Toggle Dh} {fixedI fixedR : Bool} {rsI reI rsR reR : Toggle DhBuf}
    {psksI psksR : Psks} {cssI cssR : CipherStates} {i₀ r₀ : HandshakeState}
    (expanded : expand params.handshake = .ok tokens)
    (ordered : (Carried.premsg tokens).messages tokens.msgPatterns = true)
    (choice : sI.inner.choice = dh ∧ eI.inner.choice = dh ∧
      sR.inner.choice = dh ∧ eR.inner.choice = dh)
    (premsgKeys : (rsI.isOn = true → rsI.inner.bytes.take dh.pubLen = sR.inner.pubkey P) ∧
      (reI.isOn = true → reI.inner.bytes.take dh.pubLen = eR.inner.pubkey P) ∧
      (rsR.isOn = true → rsR.inner.bytes.take dh.pubLen = sI.inner.pubkey P) ∧
      (reR.isOn = true → reR.inner.bytes.take dh.pubLen = eI.inner.pubkey P))
    (psks : ∀ ts ∈ tokens.msgPatterns, ∀ n, Token.Psk n ∈ ts →
      psksI.slots[n.toNat]? = psksR.slots[n.toNat]?)
    (initiator : HandshakeState.new P expand rngI csI sI eI fixedI rsI reI true params psksI
      prologue cssI = .ok i₀)
    (responder : HandshakeState.new P expand rngR csR sR eR fixedR rsR reR false params psksR
      prologue cssR = .ok r₀)
    {w r : HandshakeState} (session : Session P i₀ r₀ w r) :
    (r.getRemoteStatic = none ∨ r.getRemoteStatic = some (w.s.inner.pubkey P)) ∧
      (w.getRemoteStatic = none ∨ w.getRemoteStatic = some (r.s.inner.pubkey P)) ∧
      ∀ c, (Carried.premsg tokens).after (tokens.msgPatterns.take w.patternPosition) = some c →
        (c.ownS = true → r.getRemoteStatic = some (w.s.inner.pubkey P)) ∧
        (c.peerS = true → w.getRemoteStatic = some (r.s.inner.pubkey P)) := by
  obtain ⟨c, -, carried, agree⟩ := session.agreement lawful
    (Agreement.start expanded ordered choice premsgKeys psks initiator responder)
    (new_ok P expand initiator).1
  rw [(new_fields expanded initiator).2.2] at carried
  refine ⟨?_, ?_, fun c' carried' => ?_⟩
  · cases rsOn : r.rs.isOn
    · exact .inl (getRemoteStatic_of_off rsOn)
    · exact .inr (agree.reader_remoteStatic rsOn)
  · cases rsOn : w.rs.isOn
    · exact .inl (getRemoteStatic_of_off rsOn)
    · exact .inr (agree.writer_remoteStatic rsOn)
  · obtain rfl : c = c' := Option.some_injective _ (carried.symm.trans carried')
    exact ⟨fun held => agree.reader_remoteStatic (agree.own true held).2.1,
      fun held => agree.writer_remoteStatic (agree.peer true held).2.1⟩

/-- `X` over the sample primitives: after the initiator's one message, the
responder returns the initiator's static key, which the message carried, and
the initiator the responder's, which it was given. -/
theorem xResponder_learns_initiator_static :
    ∃ message w' v r', xInitiator.writeHandshakeMessage Primitives.sample [] (List.replicate 96 0) =
        .ok (96, message) w' ∧
      xResponder.readHandshakeMessage Primitives.sample (message.take 96) [] = .ok v r' ∧
      r'.getRemoteStatic = some (w'.s.inner.pubkey Primitives.sample) ∧
      w'.getRemoteStatic = some (r'.s.inner.pubkey Primitives.sample) := by
  obtain ⟨message, w', v, r', written, read⟩ : ∃ message w' v r',
      xInitiator.writeHandshakeMessage Primitives.sample [] (List.replicate 96 0) =
        .ok (96, message) w' ∧
      xResponder.readHandshakeMessage Primitives.sample (message.take 96) [] = .ok v r' :=
    ⟨_, _, _, _, rfl, rfl⟩
  have position : r'.patternPosition = 1 := (readHandshakeMessage_ok Primitives.sample read).2.1
  obtain ⟨-, -, known⟩ := remote_static_of_session Primitives.sample_lawful (by rfl) (by decide)
    (by exact ⟨rfl, rfl, rfl, rfl⟩)
    (by exact ⟨fun _ => rfl, fun h => absurd h Bool.false_ne_true,
      fun h => absurd h Bool.false_ne_true, fun h => absurd h Bool.false_ne_true⟩)
    (fun ts mem n held => absurd held (xTokens_no_psk ts mem n))
    new_xInitiator new_xResponder (.message .start written read)
  obtain ⟨initiatorKnown, responderKnown⟩ :=
    known ⟨false, true, true, true⟩ (by rw [position]; decide)
  exact ⟨message, w', v, r', written, read, responderKnown rfl, initiatorKnown rfl⟩

/-- Two parties as in `remote_static_of_session`, with `new` given a remote
static key only where the pattern's pre-message has one: at every pair of
states a run reaches, each party's `get_remote_static` returns the other
party's static public key once the pre-messages and the messages so far carry
it, and nothing before. -/
theorem remote_static_eq_carried {P : Primitives} (lawful : P.Lawful)
    {expand : HandshakeChoice → Except Error HandshakeTokens} {params : NoiseParams}
    {dh : DHChoice} {tokens : HandshakeTokens} {prologue : Bytes} {rngI rngR : Nat} {csI csR : CipherState}
    {sI eI sR eR : Toggle Dh} {fixedI fixedR : Bool} {rsI reI rsR reR : Toggle DhBuf}
    {psksI psksR : Psks} {cssI cssR : CipherStates} {i₀ r₀ : HandshakeState}
    (expanded : expand params.handshake = .ok tokens)
    (ordered : (Carried.premsg tokens).messages tokens.msgPatterns = true)
    (choice : sI.inner.choice = dh ∧ eI.inner.choice = dh ∧
      sR.inner.choice = dh ∧ eR.inner.choice = dh)
    (premsgKeys : (rsI.isOn = true → rsI.inner.bytes.take dh.pubLen = sR.inner.pubkey P) ∧
      (reI.isOn = true → reI.inner.bytes.take dh.pubLen = eR.inner.pubkey P) ∧
      (rsR.isOn = true → rsR.inner.bytes.take dh.pubLen = sI.inner.pubkey P) ∧
      (reR.isOn = true → reR.inner.bytes.take dh.pubLen = eI.inner.pubkey P))
    (psks : ∀ ts ∈ tokens.msgPatterns, ∀ n, Token.Psk n ∈ ts →
      psksI.slots[n.toNat]? = psksR.slots[n.toNat]?)
    (remoteOnly : (rsI.isOn = true → Token.S ∈ tokens.premsgPatternR) ∧
      (rsR.isOn = true → Token.S ∈ tokens.premsgPatternI))
    (initiator : HandshakeState.new P expand rngI csI sI eI fixedI rsI reI true params psksI
      prologue cssI = .ok i₀)
    (responder : HandshakeState.new P expand rngR csR sR eR fixedR rsR reR false params psksR
      prologue cssR = .ok r₀)
    {w r : HandshakeState} (session : Session P i₀ r₀ w r) :
    ∀ c, (Carried.premsg tokens).after (tokens.msgPatterns.take w.patternPosition) = some c →
      r.getRemoteStatic = (if c.ownS then some (w.s.inner.pubkey P) else none) ∧
      w.getRemoteStatic = (if c.peerS then some (r.s.inner.pubkey P) else none) := by
  have start := Agreement.start expanded ordered choice premsgKeys psks initiator responder
  have fresh := (new_ok P expand initiator).1
  have initial : (r₀.rs.isOn = true → (Carried.premsg tokens).ownS = true) ∧
      (i₀.rs.isOn = true → (Carried.premsg tokens).peerS = true) := by
    obtain ⟨-, -, -, -, -, -, rfl⟩ := new_eq_ok initiator
    obtain ⟨-, -, -, -, -, -, rfl⟩ := new_eq_ok responder
    exact ⟨fun rsOn => decide_eq_true (remoteOnly.2 rsOn),
      fun rsOn => decide_eq_true (remoteOnly.1 rsOn)⟩
  intro c carried
  rw [← (new_fields expanded initiator).2.2] at carried
  obtain ⟨c', -, carried', agree⟩ := session.agreement lawful start fresh
  obtain rfl : c' = c := Option.some_injective _ (carried'.symm.trans carried)
  obtain ⟨rHeld, wHeld⟩ := session.rs_carried lawful start fresh initial c' carried
  constructor
  · cases own : c'.ownS
    · exact getRemoteStatic_of_off (Bool.eq_false_iff.mpr fun rsOn => by
        simpa [own] using rHeld rsOn)
    · exact agree.reader_remoteStatic (agree.own true own).2.1
  · cases peer : c'.peerS
    · exact getRemoteStatic_of_off (Bool.eq_false_iff.mpr fun rsOn => by
        simpa [peer] using wHeld rsOn)
    · exact agree.writer_remoteStatic (agree.peer true peer).2.1

/-- `X` over the sample primitives: the responder returns no remote static key
before the initiator's message, and the initiator's key after it. -/
theorem xResponder_learns_static_from_message :
    xResponder.getRemoteStatic = none ∧
      ∃ message w' v r',
        xInitiator.writeHandshakeMessage Primitives.sample [] (List.replicate 96 0) =
          .ok (96, message) w' ∧
        xResponder.readHandshakeMessage Primitives.sample (message.take 96) [] = .ok v r' ∧
        r'.getRemoteStatic = some (w'.s.inner.pubkey Primitives.sample) := by
  obtain ⟨message, w', v, r', written, read⟩ : ∃ message w' v r',
      xInitiator.writeHandshakeMessage Primitives.sample [] (List.replicate 96 0) =
        .ok (96, message) w' ∧
      xResponder.readHandshakeMessage Primitives.sample (message.take 96) [] = .ok v r' :=
    ⟨_, _, _, _, rfl, rfl⟩
  have position : r'.patternPosition = 1 := (readHandshakeMessage_ok Primitives.sample read).2.1
  have known := fun {w r : HandshakeState}
      (session : Session Primitives.sample xInitiator xResponder w r) =>
    remote_static_eq_carried Primitives.sample_lawful (by rfl) (by decide)
      (by exact ⟨rfl, rfl, rfl, rfl⟩)
      (by exact ⟨fun _ => rfl, fun h => absurd h Bool.false_ne_true,
        fun h => absurd h Bool.false_ne_true, fun h => absurd h Bool.false_ne_true⟩)
      (fun ts mem n held => absurd held (xTokens_no_psk ts mem n))
      (by exact ⟨fun _ => by decide, fun h => absurd h Bool.false_ne_true⟩)
      new_xInitiator new_xResponder session
  exact ⟨(known .start ⟨false, false, false, true⟩ rfl).1, message, w', v, r', written, read,
    (known (.message .start written read) ⟨false, true, true, true⟩
      (by rw [position]; decide)).2.trans (if_pos rfl)⟩

end Screech
