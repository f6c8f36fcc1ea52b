import Screech.Agreement
import Screech.Robustness

/-!
# A handshake does not get stuck

Between two parties that `new` builds as in `Agreement.start`, the writer's
next `write_handshake_message` succeeds at every pair of states a run reaches
before the last message (`handshake_progress`), and by `Agreement.message`
the reader then reads what it wrote. Four things are needed beyond the
agreement.
* The DH function succeeds on a private key and a public key of its own
  kind. The contract of `Primitives.Lawful` does not say so: a DH that
  rejects some public keys meets it.
* Every party that writes an `S` token holds a static key.
* Every PSK token names a slot that holds a key.
* The buffer has room for the message as §6 lays it out, with the tag of the
  payload, and so does `MAXMSGLEN`.

The DH tokens need no hypothesis of their own: the agreement keeps every key
a DH token uses on at both ends, with the other party's public key in the
remote buffer (`TokenAgreement.own`, `peer`).
-/

namespace Screech

open HandshakeState

namespace HandshakeState

variable {P : Primitives}

/-- The writer's `dh(local_s, remote_s)` succeeds when its key is on and its
remote buffer holds the reader's key of the same DH function, and the DH
function succeeds on public keys of its own kind. -/
theorem dh_ok (lawful : P.Lawful) (dhOk : ∀ c a b, P.dh c a (P.pubkey c b) ≠ none)
    {w r : HandshakeState} {localS remoteS : Bool}
    (same : (w.localKey localS).inner.choice = (r.localKey remoteS).inner.choice)
    (mine : (w.localKey localS).isOn = true)
    (theirs : Holds P (w.remoteKey remoteS) (r.localKey remoteS)) :
    ∃ out, w.dh P localS remoteS = .ok out := by
  obtain ⟨-, bufOn, held⟩ := theirs
  have succeeds : (w.localKey localS).inner.dh P (w.remoteKey remoteS).inner.bytes ≠ none := by
    unfold Dh.dh
    rw [lawful.dh_take, same]
    unfold Dh.pubLen Dh.pubkey at held
    rw [held]
    exact dhOk _ _ _
  obtain ⟨out, opened⟩ := Option.ne_none_iff_exists'.mp succeeds
  refine ⟨out, ?_⟩
  cases localS <;> cases remoteS <;> simp_all [HandshakeState.dh, localKey, remoteKey]

/-- A write's `s` and PSKs are those of the state it started from. -/
theorem writeHandshakeMessage_keeps {hs hs' : HandshakeState} {payload message : Bytes}
    {v : Nat × Bytes} (h : hs.writeHandshakeMessage P payload message = .ok v hs') :
    hs'.s = hs.s ∧ hs'.psks = hs.psks := by
  obtain ⟨tokens, cursor, mid, inner, -, loop, paid, rfl⟩ := writeHandshakeMessage_eq_ok P h
  have frame := writeTokens_frame P (by rw [loop]; rfl)
  rw [writePayload_ok P paid]
  exact ⟨frame.s, frame.psks⟩

/-- A read's `s` and PSKs are those of the state it started from. -/
theorem readHandshakeMessage_keeps {hs hs' : HandshakeState} {message payload : Bytes}
    {v : Nat × Bytes} (h : hs.readHandshakeMessage P message payload = .ok v hs') :
    hs'.s = hs.s ∧ hs'.psks = hs.psks := by
  obtain ⟨tokens, ptr, mid, inner, -, loop, paid, rfl⟩ := readHandshakeMessage_eq_ok P h
  have frame := readTokens_frame P (by rw [loop]; rfl)
  rw [readPayload_ok P paid]
  exact ⟨frame.s, frame.psks⟩

/-- Under the contract, the payload of a write succeeds when the buffer and
`MAXMSGLEN` have room for it and a tag from the cursor on. -/
theorem writePayload_ok_of_room (lawful : P.Lawful) {hs : HandshakeState}
    {payload message : Bytes} {byteIndex : Nat}
    (room : byteIndex + payload.length + TAGLEN ≤ message.length)
    (bounded : byteIndex + payload.length + TAGLEN ≤ MAXMSGLEN) :
    ∃ v hs', hs.writePayload P payload message byteIndex = .ok v hs' := by
  have fits :
      payload.length + tagLen hs.symmetricstate.hasKey ≤ (message.drop byteIndex).length := by
    simp only [List.length_drop, tagLen]
    split <;> omega
  obtain ⟨⟨written, out, ss⟩, encrypted⟩ :=
    Option.ne_none_iff_exists'.mp (SymmetricState.encryptAndMixHash_ne_none lawful fits)
  obtain ⟨-, rfl, -, -⟩ := (SymmetricState.encryptAndMixHash_eq_some P).mp encrypted
  have ctLen := SymmetricState.length_encrypt lawful hs.symmetricstate payload
  unfold writePayload
  rw [if_neg (by omega), encrypted]
  dsimp only
  rw [if_neg (by split at ctLen <;> omega)]
  exact ⟨_, _, rfl⟩

end HandshakeState

/-- A message's fields are longest when a key is set from its first token on,
whether or not the handshake has a PSK. -/
theorem fieldTotal_le_keyed (dhLen : Nat) (isPsk isPsk' : Bool) :
    ∀ (keyed : Bool) (ts : List Token),
      fieldTotal dhLen isPsk keyed ts ≤ fieldTotal dhLen isPsk' true ts
  | _, [] => le_rfl
  | keyed, t :: ts => by
    have head : fieldLength dhLen keyed t ≤ fieldLength dhLen true t := by
      cases t <;> cases keyed <;> simp [fieldLength, tagLen]
    have stays : keyedAfter isPsk' true t = true := by cases t <;> simp [keyedAfter]
    simp only [fieldTotal, stays]
    exact Nat.add_le_add head (fieldTotal_le_keyed dhLen isPsk isPsk' _ ts)

namespace TokenAgreement

variable {P : Primitives} {dh : DHChoice} {c c' : Carried} {w r : HandshakeState}

/-- One token of the writer succeeds when the keys it carries allow it, the
writer holds a static key for `S` and a key in the slot of a PSK token, and
the buffer has room for the token's field from the cursor on. -/
theorem writeToken_ok (lawful : P.Lawful) (dhOk : ∀ c a b, P.dh c a (P.pubkey c b) ≠ none)
    (agree : TokenAgreement P dh c w r) {token : Token} (next : c.token token = some c')
    (sOn : token = .S → w.s.isOn = true)
    (pskSet : ∀ n, token = .Psk n → ∃ key, w.psks.slots[n.toNat]? = some (some key))
    {m : Bytes} {b : Nat}
    (room : b + fieldLength dh.pubLen w.symmetricstate.hasKey token ≤ m.length) :
    ∃ m' b' w', w.writeToken P dh.pubLen m b token = .ok (m', b') w' := by
  cases token with
  | E =>
    have eLen : w.e.inner.pubLen = dh.pubLen := by rw [Dh.pubLen, agree.choice.2.1]
    have keyChoice := ephemeral_choice P w
    simp only [fieldLength] at room
    simp only [writeToken]
    rw [if_neg (by omega)]
    generalize (if w.fixedEphemeral = true then (w.e.inner, w.rng)
      else w.e.inner.generate P w.rng) = key at keyChoice ⊢
    have keyLen : (key.1.pubkey P).length = dh.pubLen := by
      rw [Dh.pubkey_length lawful, Dh.pubLen, keyChoice, agree.choice.2.1]
    rw [(writeAt_eq_some.mpr ⟨by omega, rfl⟩ : writeAt m b (key.1.pubkey P) = some _)]
    exact ⟨_, _, _, rfl⟩
  | S =>
    have sLen : w.s.inner.pubLen = dh.pubLen := by rw [Dh.pubLen, agree.choice.1]
    simp only [fieldLength] at room
    have encrypts :
        w.symmetricstate.encryptAndMixHash P (w.s.inner.pubkey P) (m.drop b) ≠ none := by
      refine SymmetricState.encryptAndMixHash_ne_none lawful ?_
      rw [Dh.pubkey_length lawful, List.length_drop, sLen]
      omega
    obtain ⟨⟨written, out, ss⟩, encrypted⟩ := Option.ne_none_iff_exists'.mp encrypts
    simp only [writeToken, sOn rfl, Bool.not_true, Bool.false_eq_true, if_false]
    rw [if_neg (by omega), encrypted]
    exact ⟨_, _, _, rfl⟩
  | Psk n =>
    obtain ⟨key, slot⟩ := pskSet n rfl
    simp only [writeToken, HandshakeState.pskToken, slot]
    exact ⟨_, _, _, rfl⟩
  | Dhee | Dhes | Dhse | Dhss =>
    obtain ⟨rfl, own, peer⟩ := Carried.token_dh next
    obtain ⟨out, opened⟩ := dh_ok lawful dhOk (agree.localKey_choice _ _) (agree.own _ own).1
      (agree.peer _ peer)
    simp only [writeToken, HandshakeState.dhToken, opened]
    exact ⟨_, _, _, rfl⟩

/-- The writer's token loop succeeds over a message whose DH tokens use
carried keys, with a static key for `S`, keys in the PSK slots, and room in
the buffer for the fields of the spec from the cursor on. -/
theorem writeTokens_ok (lawful : P.Lawful) (dhOk : ∀ c a b, P.dh c a (P.pubkey c b) ≠ none)
    {ts : List Token} (agree : TokenAgreement P dh c w r) (next : c.message ts = some c')
    (sOn : Token.S ∈ ts → w.s.isOn = true)
    (pskSet : ∀ n, Token.Psk n ∈ ts → ∃ key, w.psks.slots[n.toNat]? = some (some key))
    (psk : ∀ n, Token.Psk n ∈ ts → w.psks.slots[n.toNat]? = r.psks.slots[n.toNat]?)
    {m : Bytes} {b : Nat}
    (room : b + fieldTotal dh.pubLen w.params.handshake.isPsk w.symmetricstate.hasKey ts ≤
      m.length) :
    ∃ m' b' w', w.writeTokens P dh.pubLen m b ts = .ok (m', b') w' := by
  induction ts generalizing c w r m b with
  | nil => exact ⟨m, b, w, rfl⟩
  | cons t ts ih =>
    obtain ⟨c₁, first, after⟩ := Carried.message_cons next
    rw [fieldTotal] at room
    have head : ∀ {x : Token}, t = x → x ∈ t :: ts := fun h => h ▸ List.mem_cons_self _ _
    have roomHead : b + fieldLength dh.pubLen w.symmetricstate.hasKey t ≤ m.length := by omega
    obtain ⟨m₁, b₁, w₁, step⟩ := agree.writeToken_ok lawful dhOk first
      (fun h => sOn (head h)) (fun n h => pskSet n (head h)) roomHead
    obtain ⟨field, r₁, written, -, read, agree₁⟩ :=
      agree.token lawful first (fun n h => psk n (head h)) (by omega) step
    obtain ⟨advance, keyed, -⟩ := writeToken_layout lawful
      (by rw [Dh.pubLen, agree.choice.2.1]) (by rw [Dh.pubLen, agree.choice.1]) step
    have wFrame := writeToken_frame P (by rw [step]; rfl)
    have rFrame := readToken_frame P (by rw [read []]; rfl)
    have room₁ : b₁ + fieldTotal dh.pubLen w₁.params.handshake.isPsk
        w₁.symmetricstate.hasKey ts ≤ m₁.length := by
      rw [wFrame.params, keyed, advance, length_of_writeAt written]
      omega
    obtain ⟨m', b', w', rest⟩ := ih agree₁ after
      (fun h => by rw [wFrame.s]; exact sOn (List.mem_cons_of_mem _ h))
      (fun n h => by rw [wFrame.psks]; exact pskSet n (List.mem_cons_of_mem _ h))
      (fun n h => by rw [wFrame.psks, rFrame.psks]; exact psk n (List.mem_cons_of_mem _ h))
      room₁
    exact ⟨m', b', w', by rw [writeTokens, step, Outcome.ok_bind]; exact rest⟩

end TokenAgreement

/-- Along a run, the writer holds the static key and the PSKs of the initiator
after an even number of messages and those of the responder after an odd
number, and the reader those of the other. -/
theorem Session.roles {P : Primitives} {i₀ r₀ w r : HandshakeState}
    (freshI : i₀.patternPosition = 0) (freshR : r₀.patternPosition = 0)
    (session : Session P i₀ r₀ w r) :
    r.patternPosition = w.patternPosition ∧
      (w.patternPosition % 2 = 0 →
        w.s = i₀.s ∧ w.psks = i₀.psks ∧ r.s = r₀.s ∧ r.psks = r₀.psks) ∧
      (w.patternPosition % 2 = 1 →
        w.s = r₀.s ∧ w.psks = r₀.psks ∧ r.s = i₀.s ∧ r.psks = i₀.psks) := by
  induction session with
  | start =>
    exact ⟨by rw [freshI, freshR], fun _ => ⟨rfl, rfl, rfl, rfl⟩, fun odd => by omega⟩
  | message _ write read ih =>
    obtain ⟨position, even, odd⟩ := ih
    obtain ⟨wS, wPsks⟩ := writeHandshakeMessage_keeps write
    obtain ⟨rS, rPsks⟩ := readHandshakeMessage_keeps read
    have wNext := (writeHandshakeMessage_ok P write).2.2.1
    have rNext := (readHandshakeMessage_ok P read).2.1
    rw [wS, wPsks, rS, rPsks, rNext, position]
    refine ⟨by omega, fun parity => ?_, fun parity => ?_⟩
    · obtain ⟨a, b, c, d⟩ := odd (by omega)
      exact ⟨c, d, a, b⟩
    · obtain ⟨a, b, c, d⟩ := even (by omega)
      exact ⟨c, d, a, b⟩

namespace Agreement

variable {P : Primitives} {dh : DHChoice} {c : Carried} {w r : HandshakeState}

/-- The writer of a pair in agreement writes its next message when it holds a
static key for `S` and keys in its PSK slots, and the buffer and `MAXMSGLEN`
have room for the message. -/
theorem write_ok (lawful : P.Lawful) (dhOk : ∀ c a b, P.dh c a (P.pubkey c b) ≠ none)
    (agree : Agreement P dh c w r) (running : w.patternPosition < w.messagePatterns.length)
    (sOn : Token.S ∈ w.messagePatterns[w.patternPosition] → w.s.isOn = true)
    (slots : ∀ n, Token.Psk n ∈ w.messagePatterns[w.patternPosition] →
      ∃ key, w.psks.slots[n.toNat]? = some (some key))
    {payload buf : Bytes}
    (fits : fieldTotal dh.pubLen w.params.handshake.isPsk w.symmetricstate.hasKey
      w.messagePatterns[w.patternPosition] + payload.length + TAGLEN ≤ buf.length)
    (bounded : fieldTotal dh.pubLen w.params.handshake.isPsk w.symmetricstate.hasKey
      w.messagePatterns[w.patternPosition] + payload.length + TAGLEN ≤ MAXMSGLEN) :
    ∃ n buf' w', w.writeHandshakeMessage P payload buf = .ok (n, buf') w' := by
  have later : w.messagePatterns.drop w.patternPosition =
      w.messagePatterns[w.patternPosition] :: w.messagePatterns.drop (w.patternPosition + 1) :=
    List.drop_eq_getElem_cons running
  have carries := agree.carries
  rw [later] at carries
  obtain ⟨c₁, next, -⟩ := Carried.messages_cons carries
  have roomTokens : 0 + fieldTotal dh.pubLen w.params.handshake.isPsk
      w.symmetricstate.hasKey w.messagePatterns[w.patternPosition] ≤ buf.length := by omega
  obtain ⟨m', b', w₁, loop⟩ := agree.toTokenAgreement.writeTokens_ok lawful dhOk next
    sOn slots (agree.psks _ (List.getElem_mem running)) roomTokens
  obtain ⟨advance, -⟩ := writeTokens_layout lawful (by rw [Dh.pubLen, agree.choice.2.1])
    (by rw [Dh.pubLen, agree.choice.1]) loop
  obtain ⟨length', -, -⟩ := writeTokens_cursor P (Nat.zero_le _) loop
  have paid : ∃ v w₂, w₁.writePayload P payload m' b' = .ok v w₂ :=
    writePayload_ok_of_room lawful (by omega) (by omega)
  obtain ⟨⟨n, buf'⟩, w₂, paid⟩ := paid
  refine ⟨n, buf', { w₂ with patternPosition := w₂.patternPosition + 1 }, ?_⟩
  unfold writeHandshakeMessage _writeHandshakeMessage
  rw [if_neg (by simp [agree.myTurn.1]), dif_neg (by omega)]
  simp only [List.get_eq_getElem]
  rw [agree.dhLen_eq.1, loop, Outcome.ok_bind]
  dsimp only
  rw [paid]

end Agreement

/-- Along a run between two parties that `new` builds, the writer holds a
static key for every `S` token of its next message and a key in the slot of
every PSK token, when the initiator does for the messages of even index, the
responder for those of odd index, and both hold the same PSKs. -/
theorem Session.writer_keys {P : Primitives}
    {expand : HandshakeChoice → Except Error HandshakeTokens} {params : NoiseParams}
    {tokens : HandshakeTokens} {prologue : Bytes} {rngI rngR : Nat} {csI csR : CipherState}
    {sI eI sR eR : Toggle Dh} {fixedI fixedR : Bool} {rsI reI rsR reR : Toggle DhBuf}
    {psksI psksR : Psks} {cssI cssR : CipherStates} {i₀ r₀ w r : HandshakeState}
    (expanded : expand params.handshake = .ok tokens)
    (psks : ∀ ts ∈ tokens.msgPatterns, ∀ n, Token.Psk n ∈ ts →
      psksI.slots[n.toNat]? = psksR.slots[n.toNat]?)
    (statics : ∀ k ts, tokens.msgPatterns[k]? = some ts → Token.S ∈ ts →
      (if k % 2 = 0 then sI else sR).isOn = true)
    (pskSet : ∀ ts ∈ tokens.msgPatterns, ∀ n, Token.Psk n ∈ ts →
      ∃ key, psksI.slots[n.toNat]? = some (some key))
    (initiator : HandshakeState.new P expand rngI csI sI eI fixedI rsI reI true params psksI
      prologue cssI = .ok i₀)
    (responder : HandshakeState.new P expand rngR csR sR eR fixedR rsR reR false params psksR
      prologue cssR = .ok r₀)
    (session : Session P i₀ r₀ w r) (sameList : w.messagePatterns = i₀.messagePatterns)
    {ts : List Token} (index : w.messagePatterns[w.patternPosition]? = some ts) :
    (Token.S ∈ ts → w.s.isOn = true) ∧
      ∀ n, Token.Psk n ∈ ts → ∃ key, w.psks.slots[n.toNat]? = some (some key) := by
  obtain ⟨sI₀, psksI₀, listed⟩ := new_fields expanded initiator
  obtain ⟨sR₀, psksR₀, -⟩ := new_fields expanded responder
  obtain ⟨-, even, odd⟩ :=
    session.roles (new_ok P expand initiator).1 (new_ok P expand responder).1
  rw [sameList, listed] at index
  have mem := List.getElem?_mem index
  refine ⟨fun held => ?_, fun n held => ?_⟩
  · have writerS := statics _ _ index held
    rcases Nat.mod_two_eq_zero_or_one w.patternPosition with parity | parity
    · rw [if_pos parity] at writerS
      rw [(even parity).1, sI₀]; exact writerS
    · rw [if_neg (by omega)] at writerS
      rw [(odd parity).1, sR₀]; exact writerS
  · obtain ⟨key, slot⟩ := pskSet _ mem n held
    rcases Nat.mod_two_eq_zero_or_one w.patternPosition with parity | parity
    · exact ⟨key, by rw [(even parity).2.1, psksI₀]; exact slot⟩
    · exact ⟨key, by rw [(odd parity).2.1, psksR₀, ← psks _ mem n held]; exact slot⟩

/-- Two parties that `new` builds from the same parameters and prologue, as
for the agreement of the two, where the DH function succeeds on public keys of
its own kind, the writer of every `S` token holds a static key, and every PSK
token names a slot that holds a key: at every pair of states a run reaches
before the last message, the writer's `write_handshake_message` succeeds into
any buffer with room, as is `MAXMSGLEN`, for the token fields of the message
and the payload with a tag. -/
theorem handshake_progress {P : Primitives} (lawful : P.Lawful)
    (dhOk : ∀ c a b, P.dh c a (P.pubkey c b) ≠ none)
    {expand : HandshakeChoice → Except Error HandshakeTokens} {params : NoiseParams}
    {dh : DHChoice} {tokens : HandshakeTokens} {prologue : Bytes} {rngI rngR : Nat} {csI csR : CipherState}
    {sI eI sR eR : Toggle Dh} {fixedI fixedR : Bool} {rsI reI rsR reR : Toggle DhBuf}
    {psksI psksR : Psks} {cssI cssR : CipherStates} {i₀ r₀ : HandshakeState}
    (expanded : expand params.handshake = .ok tokens)
    (ordered : (Carried.premsg tokens).messages tokens.msgPatterns = true)
    (choice : sI.inner.choice = dh ∧ eI.inner.choice = dh ∧
      sR.inner.choice = dh ∧ eR.inner.choice = dh)
    (premsgKeys : (rsI.isOn = true → rsI.inner.bytes.take dh.pubLen = sR.inner.pubkey P) ∧
      (reI.isOn = true → reI.inner.bytes.take dh.pubLen = eR.inner.pubkey P) ∧
      (rsR.isOn = true → rsR.inner.bytes.take dh.pubLen = sI.inner.pubkey P) ∧
      (reR.isOn = true → reR.inner.bytes.take dh.pubLen = eI.inner.pubkey P))
    (psks : ∀ ts ∈ tokens.msgPatterns, ∀ n, Token.Psk n ∈ ts →
      psksI.slots[n.toNat]? = psksR.slots[n.toNat]?)
    (statics : ∀ k ts, tokens.msgPatterns[k]? = some ts → Token.S ∈ ts →
      (if k % 2 = 0 then sI else sR).isOn = true)
    (pskSet : ∀ ts ∈ tokens.msgPatterns, ∀ n, Token.Psk n ∈ ts →
      ∃ key, psksI.slots[n.toNat]? = some (some key))
    (initiator : HandshakeState.new P expand rngI csI sI eI fixedI rsI reI true params psksI
      prologue cssI = .ok i₀)
    (responder : HandshakeState.new P expand rngR csR sR eR fixedR rsR reR false params psksR
      prologue cssR = .ok r₀)
    {w r : HandshakeState} (session : Session P i₀ r₀ w r)
    (running : w.patternPosition < w.messagePatterns.length) {payload buf : Bytes}
    (room : ∀ ts, w.messagePatterns[w.patternPosition]? = some ts →
      fieldTotal w.dhLen w.params.handshake.isPsk w.symmetricstate.hasKey ts + payload.length +
        TAGLEN ≤ buf.length ∧
      fieldTotal w.dhLen w.params.handshake.isPsk w.symmetricstate.hasKey ts + payload.length +
        TAGLEN ≤ MAXMSGLEN) :
    ∃ n buf' w', w.writeHandshakeMessage P payload buf = .ok (n, buf') w' := by
  have freshI := (new_ok P expand initiator).1
  obtain ⟨c, sameList, -, agree⟩ := session.agreement lawful
    (Agreement.start expanded ordered choice premsgKeys psks initiator responder) freshI
  have windex := List.getElem?_eq_getElem running
  obtain ⟨sOn, slots⟩ := session.writer_keys expanded psks statics pskSet initiator responder
    sameList windex
  obtain ⟨fits, bounded⟩ := room _ windex
  rw [agree.dhLen_eq.1] at fits bounded
  exact agree.write_ok lawful dhOk running sOn slots fits bounded

/-- In `X` only the initiator writes, and it holds a static key. -/
theorem x_statics : ∀ k ts, xTokens.msgPatterns[k]? = some ts → Token.S ∈ ts →
    (if k % 2 = 0 then sampleKey [1] true else sampleKey [2] true).isOn = true
  | 0, _, _, _ => rfl
  | _ + 1, _, index, _ => by simp [xTokens] at index

/-- The initiator of `X` writes its message into 96 bytes, room for its
fields and the tag of an empty payload. -/
theorem xInitiator_writes_first_message :
    ∃ n buf' w', xInitiator.writeHandshakeMessage Primitives.sample [] (List.replicate 96 0) =
      .ok (n, buf') w' := by
  exact handshake_progress Primitives.sample_lawful (fun _ _ _ => Option.some_ne_none _) (by rfl)
    (by decide) (by exact ⟨rfl, rfl, rfl, rfl⟩)
    (by exact ⟨fun _ => rfl, fun h => absurd h Bool.false_ne_true,
      fun h => absurd h Bool.false_ne_true, fun h => absurd h Bool.false_ne_true⟩)
    (fun ts mem n held => absurd held (xTokens_no_psk ts mem n))
    x_statics
    (fun ts mem n held => absurd held (xTokens_no_psk ts mem n))
    new_xInitiator new_xResponder .start (by decide)
    (fun ts index => by
      simp only [xInitiator, xTokens] at index
      cases index
      decide)

/-- Two parties that `new` builds as for their agreement and progress, over
messages that each fit `MAXMSGLEN` with every field keyed: the handshake runs
to its end, where both parties are finished with the same handshake hash and
the same transport pair. The run writes empty payloads into buffers of
`MAXMSGLEN` bytes. -/
theorem handshake_completes {P : Primitives} (lawful : P.Lawful)
    (dhOk : ∀ c a b, P.dh c a (P.pubkey c b) ≠ none)
    {expand : HandshakeChoice → Except Error HandshakeTokens} {params : NoiseParams}
    {dh : DHChoice} {tokens : HandshakeTokens} {prologue : Bytes} {rngI rngR : Nat} {csI csR : CipherState}
    {sI eI sR eR : Toggle Dh} {fixedI fixedR : Bool} {rsI reI rsR reR : Toggle DhBuf}
    {psksI psksR : Psks} {cssI cssR : CipherStates} {i₀ r₀ : HandshakeState}
    (expanded : expand params.handshake = .ok tokens)
    (ordered : (Carried.premsg tokens).messages tokens.msgPatterns = true)
    (choice : sI.inner.choice = dh ∧ eI.inner.choice = dh ∧
      sR.inner.choice = dh ∧ eR.inner.choice = dh)
    (premsgKeys : (rsI.isOn = true → rsI.inner.bytes.take dh.pubLen = sR.inner.pubkey P) ∧
      (reI.isOn = true → reI.inner.bytes.take dh.pubLen = eR.inner.pubkey P) ∧
      (rsR.isOn = true → rsR.inner.bytes.take dh.pubLen = sI.inner.pubkey P) ∧
      (reR.isOn = true → reR.inner.bytes.take dh.pubLen = eI.inner.pubkey P))
    (psks : ∀ ts ∈ tokens.msgPatterns, ∀ n, Token.Psk n ∈ ts →
      psksI.slots[n.toNat]? = psksR.slots[n.toNat]?)
    (statics : ∀ k ts, tokens.msgPatterns[k]? = some ts → Token.S ∈ ts →
      (if k % 2 = 0 then sI else sR).isOn = true)
    (pskSet : ∀ ts ∈ tokens.msgPatterns, ∀ n, Token.Psk n ∈ ts →
      ∃ key, psksI.slots[n.toNat]? = some (some key))
    (short : ∀ ts ∈ tokens.msgPatterns,
      fieldTotal dh.pubLen params.handshake.isPsk true ts + TAGLEN ≤ MAXMSGLEN)
    (nonempty : tokens.msgPatterns ≠ [])
    (initiator : HandshakeState.new P expand rngI csI sI eI fixedI rsI reI true params psksI
      prologue cssI = .ok i₀)
    (responder : HandshakeState.new P expand rngR csR sR eR fixedR rsR reR false params psksR
      prologue cssR = .ok r₀) :
    ∃ w r, Session P i₀ r₀ w r ∧ w.isFinished = true ∧ r.isFinished = true ∧
      w.getHandshakeHash = r.getHandshakeHash ∧ w.cipherstates = r.cipherstates := by
  have start := Agreement.start expanded ordered choice premsgKeys psks initiator responder
  have freshI := (new_ok P expand initiator).1
  have listed := (new_fields expanded initiator).2.2
  have reach : ∀ k ≤ tokens.msgPatterns.length,
      ∃ w r, Session P i₀ r₀ w r ∧ w.patternPosition = k := by
    intro k
    induction k with
    | zero => exact fun _ => ⟨i₀, r₀, .start, freshI⟩
    | succ k ih =>
      intro within
      obtain ⟨w, r, session, position⟩ := ih (by omega)
      obtain ⟨c, sameList, -, agree⟩ := session.agreement lawful start freshI
      have running : w.patternPosition < w.messagePatterns.length := by
        rw [sameList, listed, position]; omega
      have windex := List.getElem?_eq_getElem running
      obtain ⟨sOn, slots⟩ :=
        session.writer_keys expanded psks statics pskSet initiator responder sameList windex
      have mem : w.messagePatterns[w.patternPosition] ∈ tokens.msgPatterns := by
        rw [← listed, ← sameList]; exact List.getElem_mem running
      have within : fieldTotal dh.pubLen w.params.handshake.isPsk w.symmetricstate.hasKey
          w.messagePatterns[w.patternPosition] + ([] : Bytes).length + TAGLEN ≤ MAXMSGLEN := by
        have keyed := fieldTotal_le_keyed dh.pubLen w.params.handshake.isPsk
          params.handshake.isPsk w.symmetricstate.hasKey w.messagePatterns[w.patternPosition]
        have fitsMax := short _ mem
        simp only [List.length_nil, Nat.add_zero]
        omega
      have fits : fieldTotal dh.pubLen w.params.handshake.isPsk w.symmetricstate.hasKey
          w.messagePatterns[w.patternPosition] + ([] : Bytes).length + TAGLEN ≤
            (List.replicate MAXMSGLEN (0 : UInt8)).length := by
        rw [List.length_replicate]; exact within
      obtain ⟨n, buf', w', written⟩ := agree.write_ok lawful dhOk running sOn slots fits within
      obtain ⟨c', r', -, reads, agree'⟩ := agree.message lawful written
      have read := reads []
      rw [if_pos le_rfl] at read
      refine ⟨r', w', .message session written read, ?_⟩
      rw [agree'.patternPosition, (writeHandshakeMessage_ok P written).2.2.1, position]
  obtain ⟨w, r, session, finished⟩ := reach _ le_rfl
  obtain ⟨c, sameList, -, agree⟩ := session.agreement lawful start freshI
  have done : w.patternPosition = w.messagePatterns.length := by rw [sameList, listed, finished]
  refine ⟨w, r, session, isFinished_iff.mpr done, isFinished_iff.mpr ?_, agree.symmetricstate.1,
    agree.cipherstates done ?_⟩
  · rw [← agree.patternPosition, ← agree.messagePatterns]; exact done
  · rw [finished]; exact List.length_pos.mpr nonempty

/-- The `X` handshake over the sample primitives runs to its end. -/
theorem x_handshake_completes :
    ∃ w r, Session Primitives.sample xInitiator xResponder w r ∧ w.isFinished = true ∧
      r.isFinished = true ∧ w.getHandshakeHash = r.getHandshakeHash ∧
      w.cipherstates = r.cipherstates := by
  exact handshake_completes Primitives.sample_lawful (fun _ _ _ => Option.some_ne_none _) (by rfl)
    (by decide) (by exact ⟨rfl, rfl, rfl, rfl⟩)
    (by exact ⟨fun _ => rfl, fun h => absurd h Bool.false_ne_true,
      fun h => absurd h Bool.false_ne_true, fun h => absurd h Bool.false_ne_true⟩)
    (fun ts mem n held => absurd held (xTokens_no_psk ts mem n))
    x_statics
    (fun ts mem n held => absurd held (xTokens_no_psk ts mem n))
    (fun ts mem => by
      simp only [xTokens, List.mem_singleton] at mem
      subst mem
      decide)
    (by decide) new_xInitiator new_xResponder

end Screech
