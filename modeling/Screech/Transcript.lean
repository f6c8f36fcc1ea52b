import Screech.Agreement

/-!
# The transcript

The handshake hash binds the bytes on the wire. A message without PSK tokens
mixes into `h`, in order, each of its `E` and `S` fields and then its payload
trailer, as `mix_hash` does: `h = HASH(h || field)` (`hashChain`). A DH token
mixes only into the chaining key, and so does `E` in a PSK handshake. The
fields are cut from the message's bytes by the layout of the spec
(`messageFields`), the one `wire_layout` shows both ends keep.

Both ends mix what is on the wire rather than what it decrypts to. The reader
mixes the field it consumed, since `decrypt_and_mix_hash` mixes the
ciphertext (`readHandshakeMessage_transcript`). The writer mixes the bytes it
returns (`writeHandshakeMessage_transcript`). A PSK token also mixes an HKDF
output of the chaining key into `h` (`mix_key_and_hash`), which the wire does
not show. So both results are for messages without one.
-/

namespace Screech

/-- `mix_hash` of each field in turn. -/
def hashChain (P : Primitives) (h : Bytes) (fields : List Bytes) : Bytes :=
  fields.foldl (fun h field => P.hash (h ++ field)) h

@[simp] theorem hashChain_nil (P : Primitives) (h : Bytes) : hashChain P h [] = h := rfl

theorem hashChain_append (P : Primitives) (h : Bytes) (xs ys : List Bytes) :
    hashChain P h (xs ++ ys) = hashChain P (hashChain P h xs) ys :=
  List.foldl_append _ _ _ _

/-- The bytes of one token that the handshake hash absorbs, from the start of
the unread message: the field of an `E` or `S` token, nothing for the others. -/
def tokenField (dhLen : Nat) (keyed : Bool) (token : Token) (message : Bytes) : List Bytes :=
  match token with
  | .E | .S => [message.take (fieldLength dhLen keyed token)]
  | _ => []

/-- The token fields of a message in order, each cut at its length on the wire. -/
def tokenFields (dhLen : Nat) (isPsk : Bool) : Bool → List Token → Bytes → List Bytes
  | _, [], _ => []
  | keyed, token :: tokens, message =>
    tokenField dhLen keyed token message ++
      tokenFields dhLen isPsk (keyedAfter isPsk keyed token) tokens
        (message.drop (fieldLength dhLen keyed token))

/-- What a message adds to the handshake hash: its token fields, then the
payload trailer after them. -/
def messageFields (dhLen : Nat) (isPsk keyed : Bool) (tokens : List Token) (message : Bytes) :
    List Bytes :=
  tokenFields dhLen isPsk keyed tokens message ++
    [message.drop (fieldTotal dhLen isPsk keyed tokens)]

/-- An `E` of two bytes, an `S` sent in the clear, and a one-byte trailer. -/
example : messageFields 2 false false [.E, .S] [1, 2, 3, 4, 5] = [[1, 2], [3, 4], [5]] := by
  decide

/-- A token's field lies in its first `fieldLength` bytes. -/
theorem tokenField_append {dhLen : Nat} {keyed : Bool} {token : Token} {x : Bytes} (y : Bytes)
    (inside : fieldLength dhLen keyed token ≤ x.length) :
    tokenField dhLen keyed token (x ++ y) = tokenField dhLen keyed token x := by
  cases token <;> simp [tokenField, List.take_append_of_le_length inside]

/-- A field that is exactly as long as the layout says is absorbed whole. -/
theorem tokenField_of_length {dhLen : Nat} {keyed : Bool} {token : Token} {field : Bytes}
    (len : field.length = fieldLength dhLen keyed token) :
    tokenField dhLen keyed token field = if token = .E ∨ token = .S then [field] else [] := by
  cases token <;> simp [tokenField, ← len]

/-- The token fields lie in the first `fieldTotal` bytes. -/
theorem tokenFields_append (dhLen : Nat) (isPsk : Bool) :
    ∀ (keyed : Bool) (tokens : List Token) {x : Bytes} (y : Bytes),
      fieldTotal dhLen isPsk keyed tokens ≤ x.length →
        tokenFields dhLen isPsk keyed tokens (x ++ y) = tokenFields dhLen isPsk keyed tokens x
  | _, [], _, _, _ => rfl
  | keyed, token :: tokens, x, y, within => by
    rw [fieldTotal] at within
    rw [tokenFields, tokenFields, tokenField_append y (by omega),
      List.drop_append_of_le_length (by omega),
      tokenFields_append dhLen isPsk _ tokens y (by rw [List.length_drop]; omega)]

/-- The public keys a pre-message pattern names, `s` for `S` and `e` for `E`,
in order. -/
def premsgPublic (P : Primitives) (s e : Dh) (tokens : List Token) : List Bytes :=
  tokens.map fun token => if token = .S then s.pubkey P else e.pubkey P

theorem SymmetricState.h_mixKey (P : Primitives) (ss : SymmetricState) (ikm : Bytes) :
    (ss.mixKey P ikm).h = ss.h := rfl

namespace HandshakeState

variable (P : Primitives) {hs hs' : HandshakeState} {dhLen : Nat}

/-! ## The reader -/

/-- One token of the read loop mixes the field it consumes, and a DH token
nothing. -/
theorem readToken_h (short : dhLen ≤ MAXDHLEN) {ptr ptr' : Bytes} {token : Token}
    (noPsk : ∀ n, token ≠ .Psk n) (h : hs.readToken P dhLen ptr token = .ok ptr' hs') :
    hs'.symmetricstate.h =
      hashChain P hs.symmetricstate.h (tokenField dhLen hs.symmetricstate.hasKey token ptr) := by
  cases token with
  | E =>
    simp only [readToken] at h
    split at h
    · cases h
    cases h
    have key : (hs.re.inner.setPrefix (ptr.take dhLen)).bytes.take dhLen = ptr.take dhLen := by
      have len : (ptr.take dhLen).length = dhLen := by simp only [List.length_take]; omega
      have prefixed := DhBuf.take_setPrefix hs.re.inner (len.symm ▸ short)
      rwa [len] at prefixed
    show (if _ then _ else _ : SymmetricState).h = _
    split <;> simp only [SymmetricState.h_mixKey, SymmetricState.mixHash, key] <;> rfl
  | S =>
    have field : fieldLength dhLen hs.symmetricstate.hasKey .S =
        if hs.symmetricstate.hasKey = true then dhLen + TAGLEN else dhLen := by
      simp only [fieldLength, tagLen]; split <;> rfl
    simp only [readToken, ← field] at h
    split at h
    · cases h
    split at h
    · rename_i long written out ss decrypted
      cases h
      obtain ⟨-, -, -, -, -, -, rfl⟩ := (SymmetricState.decryptAndMixHash_eq_ok P).mp decrypted
      rfl
    · cases h
    · cases h
  | Psk n => exact absurd rfl (noPsk n)
  | Dhee | Dhes | Dhse | Dhss =>
    obtain ⟨rfl, dhOut, -, rfl⟩ := dhToken_eq_ok P h
    rfl

/-- The read loop mixes the token fields of the message in order. -/
theorem readTokens_h (short : dhLen ≤ MAXDHLEN) {ptr ptr' : Bytes} {tokens : List Token}
    (noPsk : ∀ n, Token.Psk n ∉ tokens) (h : hs.readTokens P dhLen ptr tokens = .ok ptr' hs') :
    hs'.symmetricstate.h = hashChain P hs.symmetricstate.h
      (tokenFields dhLen hs.params.handshake.isPsk hs.symmetricstate.hasKey tokens ptr) := by
  induction tokens generalizing hs ptr with
  | nil => cases h; rfl
  | cons token tokens ih =>
    rw [readTokens] at h
    obtain ⟨ptr₁, mid, step, rest⟩ := Outcome.bind_eq_ok.mp h
    have first := readToken_h P short (fun n same => noPsk n (same ▸ List.mem_cons_self _ _)) step
    obtain ⟨-, rfl, keyed⟩ := readToken_layout P step
    have frame := readToken_frame P (by rw [step]; rfl)
    rw [ih (fun n mem => noPsk n (List.mem_cons_of_mem _ mem)) rest, first, frame.params, keyed,
      tokenFields, hashChain_append]

/-- The trailer is mixed as it came, not as it decrypts. -/
theorem readPayload_h {last : Bool} {ptr payload : Bytes} {v : Nat × Bytes}
    (h : hs.readPayload P last ptr payload = .ok v hs') :
    hs'.symmetricstate.h = P.hash (hs.symmetricstate.h ++ ptr) := by
  simp only [readPayload] at h
  split at h
  · cases h
  · cases h
  rename_i written out ss decrypted
  obtain ⟨plaintext, cs, -, -, -, -, rfl⟩ :=
    (SymmetricState.decryptAndMixHash_eq_ok P).mp decrypted
  simp only [splitIf_eq] at h
  split at h
  · split at h
    · cases h
    · cases h; rfl
  · cases h; rfl

/-- A read of a message without PSK tokens moves the handshake hash by the
message's `E` and `S` fields and its trailer, cut from the bytes read. -/
theorem readHandshakeMessage_transcript {message payload : Bytes} {v : Nat × Bytes}
    {tokens : List Token} (index : hs.messagePatterns[hs.patternPosition]? = some tokens)
    (noPsk : ∀ n, Token.Psk n ∉ tokens)
    (h : hs.readHandshakeMessage P message payload = .ok v hs') :
    hs'.getHandshakeHash = hashChain P hs.getHandshakeHash
      (messageFields hs.dhLen hs.params.handshake.isPsk hs.symmetricstate.hasKey tokens
        message) := by
  obtain ⟨tokens', ptr, mid, inner, index', loop, paid, rfl⟩ := readHandshakeMessage_eq_ok P h
  obtain rfl : tokens = tokens' := Option.some_injective _ (index.symm.trans index')
  have fields := readTokens_h P (DHChoice.pubLen_le hs.s.inner.choice) noPsk loop
  obtain ⟨-, rfl, -⟩ := readTokens_layout P loop
  show inner.symmetricstate.h = _
  rw [readPayload_h P paid, fields, messageFields, hashChain_append]
  rfl

/-! ## The writer -/

section Writer

variable {P} (lawful : P.Lawful)
include lawful

/-- One token of the write loop writes its field at the cursor and, unless it
is a PSK token, mixes exactly those bytes, and a DH token nothing. -/
theorem writeToken_h {message message' : Bytes} {byteIndex byteIndex' : Nat} {token : Token}
    (eLen : hs.e.inner.pubLen = dhLen) (sLen : hs.s.inner.pubLen = dhLen)
    (fits : byteIndex ≤ message.length)
    (h : hs.writeToken P dhLen message byteIndex token = .ok (message', byteIndex') hs') :
    ∃ field, writeAt message byteIndex field = some message' ∧
      field.length = fieldLength dhLen hs.symmetricstate.hasKey token ∧
      ((∀ n, token ≠ .Psk n) → hs'.symmetricstate.h =
        hashChain P hs.symmetricstate.h
          (tokenField dhLen hs.symmetricstate.hasKey token field)) := by
  cases token with
  | E =>
    simp only [writeToken] at h
    split at h
    · cases h
    split at h
    · cases h
    rename_i written
    cases h
    have choice := ephemeral_choice P hs
    generalize (if hs.fixedEphemeral = true then (hs.e.inner, hs.rng)
      else hs.e.inner.generate P hs.rng) = key at written choice ⊢
    have len : (key.1.pubkey P).length = fieldLength dhLen hs.symmetricstate.hasKey .E := by
      rw [Dh.pubkey_length lawful, ← eLen]; simp only [Dh.pubLen, choice, fieldLength]
    refine ⟨_, written, len, fun _ => ?_⟩
    rw [tokenField_of_length len]
    show (if _ then _ else _ : SymmetricState).h = _
    split <;> rfl
  | S =>
    simp only [writeToken] at h
    split at h
    · cases h
    split at h
    · cases h
    split at h
    · cases h
    rename_i encrypted
    cases h
    obtain ⟨fitsCt, rfl, rfl, rfl⟩ := (SymmetricState.encryptAndMixHash_eq_some P).mp encrypted
    rw [List.length_drop] at fitsCt
    have len : (hs.symmetricstate.encrypt P (hs.s.inner.pubkey P)).1.length =
        fieldLength dhLen hs.symmetricstate.hasKey .S := by
      rw [SymmetricState.length_encrypt lawful, Dh.pubkey_length lawful, sLen]; rfl
    refine ⟨_, writeAt_eq_some.mpr ⟨by omega, by rw [List.drop_drop, List.append_assoc]⟩, len,
      fun _ => ?_⟩
    rw [tokenField_of_length len]
    rfl
  | Psk n =>
    obtain ⟨⟨⟩, psk, -, rfl⟩ := pskToken_eq_ok P h
    exact ⟨[], writeAt_nil fits, rfl, fun noPsk => absurd rfl (noPsk n)⟩
  | Dhee | Dhes | Dhse | Dhss =>
    obtain ⟨⟨⟩, dhOut, -, rfl⟩ := dhToken_eq_ok P h
    exact ⟨[], writeAt_nil fits, rfl, fun _ => rfl⟩

/-- The write loop writes the token fields from the cursor and, without PSK
tokens, mixes them in order. -/
theorem writeTokens_h {message message' : Bytes} {byteIndex byteIndex' : Nat}
    {tokens : List Token} (eLen : hs.e.inner.pubLen = dhLen) (sLen : hs.s.inner.pubLen = dhLen)
    (fits : byteIndex ≤ message.length)
    (h : hs.writeTokens P dhLen message byteIndex tokens = .ok (message', byteIndex') hs') :
    ∃ fields, writeAt message byteIndex fields = some message' ∧
      byteIndex' = byteIndex + fields.length ∧
      fields.length = fieldTotal dhLen hs.params.handshake.isPsk hs.symmetricstate.hasKey tokens ∧
      ((∀ n, Token.Psk n ∉ tokens) → hs'.symmetricstate.h = hashChain P hs.symmetricstate.h
        (tokenFields dhLen hs.params.handshake.isPsk hs.symmetricstate.hasKey tokens fields)) := by
  induction tokens generalizing hs message byteIndex with
  | nil => cases h; exact ⟨[], writeAt_nil fits, rfl, rfl, fun _ => rfl⟩
  | cons token tokens ih =>
    rw [writeTokens] at h
    obtain ⟨⟨message₁, byteIndex₁⟩, mid, step, rest⟩ := Outcome.bind_eq_ok.mp h
    obtain ⟨field, written, len, first⟩ := writeToken_h lawful eLen sLen fits step
    obtain ⟨advance, keyed, eLen₁⟩ := writeToken_layout lawful eLen sLen step
    have frame := writeToken_frame P (by rw [step]; rfl)
    have fits₁ : byteIndex₁ ≤ message₁.length := by
      rw [advance, ← len, length_of_writeAt written]; exact (writeAt_eq_some.mp written).1
    obtain ⟨fields, written', rfl, lens, mixed⟩ :=
      ih eLen₁ (by rw [frame.s, sLen]) fits₁ rest
    rw [frame.params, keyed] at lens mixed
    rw [advance, ← len] at written'
    refine ⟨field ++ fields, writeAt_append written written', by rw [advance, ← len,
      List.length_append, Nat.add_assoc], by rw [List.length_append, len, lens, fieldTotal],
      fun noPsk => ?_⟩
    rw [mixed fun n mem => noPsk n (List.mem_cons_of_mem _ mem),
      first fun n same => noPsk n (same ▸ List.mem_cons_self _ _), tokenFields,
      tokenField_append _ len.ge, ← len, List.drop_left, hashChain_append]

end Writer

/-- The payload's ciphertext is written at the cursor and mixed; the cipher
state is the one the encryption leaves, so whether a key is set stays as it
was. -/
theorem writePayload_h {payload message message' : Bytes} {byteIndex n : Nat}
    (h : hs.writePayload P payload message byteIndex = .ok (n, message') hs') :
    ∃ ct, ct = (hs.symmetricstate.encrypt P payload).1 ∧
      writeAt message byteIndex ct = some message' ∧ n = byteIndex + ct.length ∧
      hs'.symmetricstate.h = P.hash (hs.symmetricstate.h ++ ct) ∧
      hs'.symmetricstate.hasKey = hs.symmetricstate.hasKey ∧
      hs'.symmetricstate.cipherstate = (hs.symmetricstate.encrypt P payload).2 ∧
      hs'.params = hs.params := by
  unfold writePayload at h
  split at h
  · cases h
  split at h
  · cases h
  rename_i encrypted
  split at h
  · cases h
  cases h
  obtain ⟨fitsCt, rfl, rfl, rfl⟩ := (SymmetricState.encryptAndMixHash_eq_some P).mp encrypted
  rw [List.length_drop] at fitsCt
  refine ⟨_, rfl, writeAt_eq_some.mpr ⟨by omega, by rw [List.drop_drop, List.append_assoc]⟩,
    rfl, by simp only [splitIf_eq]; rfl, by simp [splitIf_eq], by simp only [splitIf_eq]; rfl,
    by simp only [splitIf_eq]⟩

/-- Two writes end to end from the start of a buffer: its first bytes are both. -/
theorem take_of_writeAt_append {message message₁ message' fields ct : Bytes}
    (first : writeAt message 0 fields = some message₁)
    (second : writeAt message₁ (0 + fields.length) ct = some message') :
    message'.take (0 + fields.length + ct.length) = fields ++ ct := by
  obtain ⟨-, rfl⟩ := writeAt_eq_some.mp (writeAt_append first second)
  rw [List.take_zero, List.nil_append, Nat.zero_add, ← List.length_append, List.take_left]

/-- A write of a message without PSK tokens, with `e` of the length of `s`,
moves the handshake hash by the message's `E` and `S` fields and its trailer,
cut from the bytes it returns, sets the key as the layout says, and keeps the
parameters. -/
theorem writeHandshakeMessage_transcript (lawful : P.Lawful) {payload message message' : Bytes}
    {n : Nat} {tokens : List Token} (sameLen : hs.e.inner.pubLen = hs.s.inner.pubLen)
    (index : hs.messagePatterns[hs.patternPosition]? = some tokens)
    (noPsk : ∀ k, Token.Psk k ∉ tokens)
    (h : hs.writeHandshakeMessage P payload message = .ok (n, message') hs') :
    hs'.getHandshakeHash = hashChain P hs.getHandshakeHash
        (messageFields hs.dhLen hs.params.handshake.isPsk hs.symmetricstate.hasKey tokens
          (message'.take n)) ∧
      hs'.symmetricstate.hasKey =
        keyedAfterAll hs.params.handshake.isPsk hs.symmetricstate.hasKey tokens ∧
      hs'.params = hs.params := by
  obtain ⟨tokens', ⟨message₁, byteIndex₁⟩, mid, inner, index', loop, paid, rfl⟩ :=
    writeHandshakeMessage_eq_ok P h
  obtain rfl : tokens = tokens' := Option.some_injective _ (index.symm.trans index')
  obtain ⟨fields, written, rfl, len, mixed⟩ :=
    writeTokens_h lawful sameLen rfl (Nat.zero_le _) loop
  obtain ⟨ct, -, written', rfl, paidH, paidKeyed, -, paidParams⟩ := writePayload_h P paid
  have frame := writeTokens_frame P (by rw [loop]; rfl)
  have keyed := (writeTokens_layout lawful sameLen rfl loop).2
  refine ⟨?_, paidKeyed.trans keyed, paidParams.trans frame.params⟩
  show inner.symmetricstate.h = _
  rw [take_of_writeAt_append written written', messageFields, HandshakeState.dhLen,
    tokenFields_append _ _ _ _ _ len.ge, ← len, List.drop_left, paidH, mixed noPsk,
    hashChain_append]
  rfl

/-- `X`'s message over the sample primitives: the responder's hash moves by the
initiator's ephemeral key, its encrypted static key and the tag of the empty
payload. -/
theorem xResponder_mixes_fields :
    xResponder.messagePatterns[xResponder.patternPosition]? = some [.E, .Dhes, .S, .Dhss] ∧
      (∀ n, Token.Psk n ∉ [Token.E, .Dhes, .S, .Dhss]) ∧
      ∃ message w' v r',
        xInitiator.writeHandshakeMessage Primitives.sample [] (List.replicate 96 0) =
          .ok (96, message) w' ∧
        xResponder.readHandshakeMessage Primitives.sample (message.take 96) [] = .ok v r' ∧
        r'.getHandshakeHash = hashChain Primitives.sample xResponder.getHandshakeHash
          (messageFields 32 false false [.E, .Dhes, .S, .Dhss] (message.take 96)) := by
  obtain ⟨message, w', v, r', written, read⟩ : ∃ message w' v r',
      xInitiator.writeHandshakeMessage Primitives.sample [] (List.replicate 96 0) =
        .ok (96, message) w' ∧
      xResponder.readHandshakeMessage Primitives.sample (message.take 96) [] = .ok v r' :=
    ⟨_, _, _, _, rfl, rfl⟩
  have noPsk := xTokens_no_psk _ (List.mem_singleton_self _)
  exact ⟨rfl, noPsk, message, w', v, r', written, read,
    readHandshakeMessage_transcript Primitives.sample rfl noPsk read⟩

/-! ## The start -/

/-- The key `new` mixes for its own pre-message token: the public key of `s`
for `S`, of `e` for `E`. -/
theorem premsgKey_own {s e : Toggle Dh} {rs re : Toggle DhBuf} {d : Nat} {t : Token} {k : Bytes}
    (h : premsgKey P true s e rs re d t = .ok k) :
    k = if t = .S then s.inner.pubkey P else e.inner.pubkey P := by
  cases t with
  | S | E =>
    simp only [premsgKey, ↓reduceIte] at h
    split at h <;> cases h
    rename_i held
    obtain ⟨-, rfl⟩ := Toggle.get_eq_some.mp held
    rfl
  | _ => cases h

/-- The key `new` mixes for the other party's pre-message token: the start of
`rs` or `re`, which is the other party's key when the buffer holds it. -/
theorem premsgKey_remote {s e : Toggle Dh} {rs re : Toggle DhBuf} {d : Nat} {sX eX : Dh}
    (sKey : rs.isOn = true → rs.inner.bytes.take d = sX.pubkey P)
    (eKey : re.isOn = true → re.inner.bytes.take d = eX.pubkey P) {t : Token} {k : Bytes}
    (h : premsgKey P false s e rs re d t = .ok k) :
    k = if t = .S then sX.pubkey P else eX.pubkey P := by
  cases t with
  | S | E =>
    simp only [premsgKey, Bool.false_eq_true, ↓reduceIte] at h
    split at h <;> cases h
    rename_i held
    obtain ⟨bufOn, rfl⟩ := Toggle.get_eq_some.mp held
    first | exact sKey bufOn | exact eKey bufOn
  | _ => cases h

/-- A pre-message loop of `new` mixes the key of each token in order and sets
no key. -/
theorem mixPremsg_h {own : Bool} {s e : Toggle Dh} {rs re : Toggle DhBuf} {d : Nat}
    {key : Token → Bytes} (keyOf : ∀ t k, premsgKey P own s e rs re d t = .ok k → k = key t)
    {ts : List Token} {ss ss' : SymmetricState} (h : mixPremsg P own s e rs re d ss ts = .ok ss') :
    ss'.h = hashChain P ss.h (ts.map key) ∧ ss'.hasKey = ss.hasKey := by
  induction ts generalizing ss with
  | nil => cases h; exact ⟨rfl, rfl⟩
  | cons t ts ih =>
    obtain ⟨k, first, rest⟩ := Result.bind_eq_ok.mp h
    rw [keyOf t k first] at rest
    exact ih rest

/-- The initiator `new` builds: its handshake hash is the hash chain, from the
initial hash of the name, over the prologue and the public keys of the
pre-messages in order, with the other party's keys from the remote buffers
that hold them; no key is set. -/
theorem new_hash {expand : HandshakeChoice → Except Error HandshakeTokens} {params : NoiseParams}
    {tokens : HandshakeTokens} {rng : Nat} {cs : CipherState} {s e : Toggle Dh} {fixed : Bool}
    {rs re : Toggle DhBuf} {psks : Psks} {prologue : Bytes} {css : CipherStates} {sR eR : Dh}
    {hs : HandshakeState} (expanded : expand params.handshake = .ok tokens)
    (sKey : rs.isOn = true → rs.inner.bytes.take s.inner.pubLen = sR.pubkey P)
    (eKey : re.isOn = true → re.inner.bytes.take s.inner.pubLen = eR.pubkey P)
    (h : new P expand rng cs s e fixed rs re true params psks prologue css = .ok hs) :
    hs.getHandshakeHash =
        hashChain P ((SymmetricState.new cs).initialise P (nameBytes params.name)).h
        (prologue :: (premsgPublic P s.inner e.inner tokens.premsgPatternI ++
          premsgPublic P sR eR tokens.premsgPatternR)) ∧
      hs.symmetricstate.hasKey = false ∧ hs.params = params := by
  obtain ⟨tokens', ss, ss', expanded', first, second, rfl⟩ := new_eq_ok h
  rw [expanded] at expanded'
  cases expanded'
  obtain ⟨hashI, keyedI⟩ := mixPremsg_h P (fun _ _ key => premsgKey_own P key) first
  obtain ⟨hashR, keyedR⟩ :=
    mixPremsg_h P (fun _ _ key => premsgKey_remote P sKey eKey key) second
  refine ⟨?_, keyedR.trans keyedI, rfl⟩
  show ss'.h = _
  rw [hashR, hashI, ← hashChain_append]
  rfl

end HandshakeState

open HandshakeState

/-! ## Whole runs -/

/-- Whether a key is set after the messages `ms`. -/
def keyedRun (isPsk keyed : Bool) (ms : List (List Token)) : Bool :=
  ms.foldl (keyedAfterAll isPsk) keyed

/-- The fields of the messages of a run, message by message, with whether a
key is set carried from one message to the next. -/
def runFields (dhLen : Nat) (isPsk : Bool) :
    Bool → List (List Token) → List Bytes → List Bytes
  | keyed, ts :: rest, message :: sent =>
    messageFields dhLen isPsk keyed ts message ++
      runFields dhLen isPsk (keyedAfterAll isPsk keyed ts) rest sent
  | _, _, _ => []

@[simp] theorem runFields_nil (dhLen : Nat) (isPsk keyed : Bool) (ms : List (List Token)) :
    runFields dhLen isPsk keyed ms [] = [] := by
  cases ms <;> rfl

theorem keyedRun_take_succ {isPsk keyed : Bool} {ms : List (List Token)} {k : Nat}
    {ts : List Token} (index : ms[k]? = some ts) :
    keyedRun isPsk keyed (ms.take (k + 1)) =
      keyedAfterAll isPsk (keyedRun isPsk keyed (ms.take k)) ts := by
  rw [keyedRun, keyedRun, List.take_succ, index, Option.toList_some, List.foldl_append]
  rfl

/-- One message more: its fields follow those of the run so far. -/
theorem runFields_snoc (dhLen : Nat) (isPsk : Bool) :
    ∀ (keyed : Bool) (ms : List (List Token)) (sent : List Bytes) {ts : List Token}
      (message : Bytes), ms[sent.length]? = some ts →
      runFields dhLen isPsk keyed ms (sent ++ [message]) =
        runFields dhLen isPsk keyed ms sent ++
          messageFields dhLen isPsk (keyedRun isPsk keyed (ms.take sent.length)) ts message
  | _, [], _, _, _, index => by cases index
  | keyed, ts' :: rest, [], ts, message, index => by
    rw [List.length_nil, List.getElem?_cons_zero] at index
    obtain rfl : ts' = ts := Option.some_injective _ index
    simp [runFields, keyedRun]
  | keyed, ts' :: rest, message' :: sent, ts, message, index => by
    rw [List.length_cons, List.getElem?_cons_succ] at index
    rw [List.cons_append, runFields, runFields,
      runFields_snoc dhLen isPsk _ rest sent message index, List.append_assoc]
    rfl

/-- The pairs of states a handshake reaches, as in `Session`, with the bytes
of each message read so far, in order. -/
inductive LoggedSession (P : Primitives) (i₀ r₀ : HandshakeState) :
    HandshakeState → HandshakeState → List Bytes → Prop
  | start : LoggedSession P i₀ r₀ i₀ r₀ []
  | message {w r w' r' : HandshakeState} {payload buf buf' out : Bytes} {n : Nat}
      {v : Nat × Bytes} {sent : List Bytes} :
    LoggedSession P i₀ r₀ w r sent →
    w.writeHandshakeMessage P payload buf = .ok (n, buf') w' →
    r.readHandshakeMessage P (buf'.take n) out = .ok v r' →
    LoggedSession P i₀ r₀ r' w' (sent ++ [buf'.take n])

theorem LoggedSession.session {P : Primitives} {i₀ r₀ w r : HandshakeState} {sent : List Bytes}
    (logged : LoggedSession P i₀ r₀ w r sent) : Session P i₀ r₀ w r := by
  induction logged with
  | start => exact .start
  | message _ write read ih => exact .message ih write read

/-- The party about to write after the messages `sent`: at the position after
them, with the handshake hash the chain from `h₀` over their fields, and the
key state and the PSK flag the run gives it. -/
structure Transcribed (P : Primitives) (params : NoiseParams) (dh : DHChoice) (h₀ : Bytes)
    (patterns : List (List Token)) (sent : List Bytes) (w : HandshakeState) : Prop where
  position : w.patternPosition = sent.length
  hash : w.getHandshakeHash =
    hashChain P h₀ (runFields dh.pubLen params.handshake.isPsk false patterns sent)
  keyed : w.symmetricstate.hasKey =
    keyedRun params.handshake.isPsk false (patterns.take sent.length)
  isPsk : w.params.handshake.isPsk = params.handshake.isPsk

/-- A message of a run keeps `Transcribed`, the roles swapped. -/
theorem Transcribed.message {P : Primitives} (lawful : P.Lawful) {params : NoiseParams}
    {dh : DHChoice} {h₀ : Bytes} {patterns : List (List Token)} {sent : List Bytes} {c : Carried}
    {w r w' r' : HandshakeState} {payload buf buf' out : Bytes} {n : Nat} {v : Nat × Bytes}
    (noPsk : ∀ ts ∈ patterns, ∀ k, Token.Psk k ∉ ts) (listed : w.messagePatterns = patterns)
    (agree : Agreement P dh c w r) (now : Transcribed P params dh h₀ patterns sent w)
    (write : w.writeHandshakeMessage P payload buf = .ok (n, buf') w')
    (read : r.readHandshakeMessage P (buf'.take n) out = .ok v r') :
    Transcribed P params dh h₀ patterns (sent ++ [buf'.take n]) r' := by
  obtain ⟨c₁, r'', ⟨ts, index, -⟩, reads, agree'⟩ := agree.message lawful write
  obtain rfl : r'' = r' := by
    rw [reads] at read
    split at read
    · cases read; rfl
    · cases read
  have sameLen : w.e.inner.pubLen = w.s.inner.pubLen := by
    simp only [Dh.pubLen, agree.choice.1, agree.choice.2.1]
  have next : patterns[sent.length]? = some ts := by rwa [← listed, ← now.position]
  obtain ⟨mixed, keyed, kept⟩ := writeHandshakeMessage_transcript P lawful sameLen index
    (noPsk ts (List.getElem?_mem next)) write
  have advanced := (writeHandshakeMessage_ok P write).2.2.1
  refine ⟨?_, ?_, ?_, ?_⟩
  · rw [agree'.patternPosition, advanced, now.position, List.length_append, List.length_singleton]
  · show r''.symmetricstate.h = _
    rw [agree'.symmetricstate.1, show w'.symmetricstate.h = w'.getHandshakeHash from rfl, mixed,
      now.hash, ← hashChain_append, agree.dhLen_eq.1, now.isPsk, now.keyed,
      runFields_snoc _ _ _ _ _ _ next]
  · rw [agree'.symmetricstate.2.2.1, keyed, now.isPsk, now.keyed, List.length_append,
      List.length_singleton, keyedRun_take_succ next]
  · rw [agree'.isPsk, kept, now.isPsk]

/-- Along a run whose messages have no PSK token, `Transcribed` holds of the
party about to write if it holds at the start. -/
theorem LoggedSession.transcribed {P : Primitives} (lawful : P.Lawful) {params : NoiseParams}
    {dh : DHChoice} {c₀ : Carried} {h₀ : Bytes} {patterns : List (List Token)}
    {i₀ r₀ w r : HandshakeState}
    {sent : List Bytes} (start : Agreement P dh c₀ i₀ r₀)
    (fresh : i₀.patternPosition = 0) (listed : i₀.messagePatterns = patterns)
    (noPsk : ∀ ts ∈ patterns, ∀ k, Token.Psk k ∉ ts)
    (initial : Transcribed P params dh h₀ patterns [] i₀)
    (session : LoggedSession P i₀ r₀ w r sent) : Transcribed P params dh h₀ patterns sent w := by
  induction session with
  | start => exact initial
  | message prev write read ih =>
    obtain ⟨c, sameList, -, agree⟩ := prev.session.agreement lawful start fresh
    exact ih.message lawful noPsk (sameList.trans listed) agree write read

/-- Transcript of a handshake without PSK tokens: for two parties that `new`
builds as in `handshake_agreement`, at every pair of states a run reaches,
both handshake hashes are the hash chain, from the initial hash of the
protocol name, over the prologue, the public keys of the pre-messages in
order, and the `E` and `S` fields and the payload trailer of every message
read so far, cut from the bytes sent. -/
theorem handshake_transcript {P : Primitives} (lawful : P.Lawful)
    {expand : HandshakeChoice → Except Error HandshakeTokens} {params : NoiseParams}
    {dh : DHChoice} {tokens : HandshakeTokens} {prologue : Bytes} {rngI rngR : Nat} {csI csR : CipherState}
    {sI eI sR eR : Toggle Dh} {fixedI fixedR : Bool} {rsI reI rsR reR : Toggle DhBuf}
    {psksI psksR : Psks} {cssI cssR : CipherStates} {i₀ r₀ : HandshakeState}
    (expanded : expand params.handshake = .ok tokens)
    (ordered : (Carried.premsg tokens).messages tokens.msgPatterns = true)
    (choice : sI.inner.choice = dh ∧ eI.inner.choice = dh ∧
      sR.inner.choice = dh ∧ eR.inner.choice = dh)
    (premsgKeys : (rsI.isOn = true → rsI.inner.bytes.take dh.pubLen = sR.inner.pubkey P) ∧
      (reI.isOn = true → reI.inner.bytes.take dh.pubLen = eR.inner.pubkey P) ∧
      (rsR.isOn = true → rsR.inner.bytes.take dh.pubLen = sI.inner.pubkey P) ∧
      (reR.isOn = true → reR.inner.bytes.take dh.pubLen = eI.inner.pubkey P))
    (noPsk : ∀ ts ∈ tokens.msgPatterns, ∀ n, Token.Psk n ∉ ts)
    (initiator : HandshakeState.new P expand rngI csI sI eI fixedI rsI reI true params psksI
      prologue cssI = .ok i₀)
    (responder : HandshakeState.new P expand rngR csR sR eR fixedR rsR reR false params psksR
      prologue cssR = .ok r₀)
    {w r : HandshakeState} {sent : List Bytes} (session : LoggedSession P i₀ r₀ w r sent) :
    w.getHandshakeHash =
        hashChain P ((SymmetricState.new csI).initialise P (nameBytes params.name)).h
          (prologue :: (premsgPublic P sI.inner eI.inner tokens.premsgPatternI ++
              premsgPublic P sR.inner eR.inner tokens.premsgPatternR) ++
            runFields dh.pubLen params.handshake.isPsk false tokens.msgPatterns sent) ∧
      r.getHandshakeHash = w.getHandshakeHash := by
  have start := Agreement.start expanded ordered choice premsgKeys
    (fun ts mem n held => absurd held (noPsk ts mem n)) initiator responder
  have fresh := (new_ok P expand initiator).1
  have listed := (new_fields expanded initiator).2.2
  have dI : sI.inner.pubLen = dh.pubLen := by rw [Dh.pubLen, choice.1]
  obtain ⟨initialHash, initialKeyed, initialParams⟩ := new_hash P expanded
    (fun bufOn => dI ▸ premsgKeys.1 bufOn) (fun bufOn => dI ▸ premsgKeys.2.1 bufOn) initiator
  have initial : Transcribed P params dh
      (hashChain P ((SymmetricState.new csI).initialise P (nameBytes params.name)).h
        (prologue :: (premsgPublic P sI.inner eI.inner tokens.premsgPatternI ++
          premsgPublic P sR.inner eR.inner tokens.premsgPatternR)))
      tokens.msgPatterns [] i₀ :=
    ⟨fresh, by rw [runFields_nil, hashChain_nil]; exact initialHash, initialKeyed,
      by rw [initialParams]⟩
  obtain ⟨c, -, -, agree⟩ := session.session.agreement lawful start fresh
  exact ⟨by rw [hashChain_append]; exact (session.transcribed lawful start fresh listed noPsk
    initial).hash, agree.symmetricstate.1.symm⟩

/-- `X` over the sample primitives, after its one message: both parties' hash
is the chain over the empty prologue, the responder's static key of the
pre-message, and the message's fields. -/
theorem x_transcript :
    ∃ message w' v r',
      xInitiator.writeHandshakeMessage Primitives.sample [] (List.replicate 96 0) =
        .ok (96, message) w' ∧
      xResponder.readHandshakeMessage Primitives.sample (message.take 96) [] = .ok v r' ∧
      r'.getHandshakeHash = hashChain Primitives.sample
          ((SymmetricState.new emptyCipher).initialise Primitives.sample
            (nameBytes "Noise_X_25519_ChaChaPoly_SHA256")).h
          ([] :: (premsgPublic Primitives.sample (sampleKey [1] true).inner
                (sampleKey [] false).inner [] ++
              premsgPublic Primitives.sample (sampleKey [2] true).inner
                (sampleKey [] false).inner [.S]) ++
            runFields 32 false false [[.E, .Dhes, .S, .Dhss]] ([] ++ [message.take 96])) ∧
      w'.getHandshakeHash = r'.getHandshakeHash := by
  obtain ⟨message, w', v, r', written, read⟩ : ∃ message w' v r',
      xInitiator.writeHandshakeMessage Primitives.sample [] (List.replicate 96 0) =
        .ok (96, message) w' ∧
      xResponder.readHandshakeMessage Primitives.sample (message.take 96) [] = .ok v r' :=
    ⟨_, _, _, _, rfl, rfl⟩
  exact ⟨message, w', v, r', written, read,
    handshake_transcript Primitives.sample_lawful (by rfl) (by decide)
      (show (sampleKey [1] true).inner.choice = DHChoice.Curve25519 ∧
        (sampleKey [] false).inner.choice = .Curve25519 ∧
        (sampleKey [2] true).inner.choice = .Curve25519 ∧
        (sampleKey [] false).inner.choice = .Curve25519 from ⟨rfl, rfl, rfl, rfl⟩)
      (by exact ⟨fun _ => rfl, fun h => absurd h Bool.false_ne_true,
        fun h => absurd h Bool.false_ne_true, fun h => absurd h Bool.false_ne_true⟩)
      xTokens_no_psk new_xInitiator new_xResponder (.message .start written read)⟩

end Screech
