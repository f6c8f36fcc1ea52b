import Screech.SymmetricState

/-!
# The handshake state machine (`handshakestate.rs`)

`HandshakeState` and its methods, line by line. A method taking `&mut self`
takes the state and returns an `Outcome`; a `&mut [u8]` buffer it writes is
passed in and returned with the value. The two token loops are structural
recursions over the current message's tokens, one function per iteration
(`writeToken`, `readToken`), so that every proof about a whole message is an
induction over the token list with one case per token.

`new` takes the expander `HandshakeTokens::try_from` as its argument `expand`,
and every method is generic over the primitives `P`.

The `rng` field is the position of the generator in its stream of draws
(`Primitives.random`); the `rs` and `re` buffers are `[u8; MAXDHLEN]` arrays,
`DhBuf`, and the ten PSK slots are `Psks`. Both carry their length as a field,
so that the slicing of `handshakestate.rs` on them is in bounds by
construction.
-/

namespace Screech

/-- A `[u8; MAXDHLEN]` buffer of `rs` or `re`. -/
structure DhBuf where
  bytes : Bytes
  length_eq : bytes.length = MAXDHLEN
  deriving DecidableEq

/-- `buf[..data.len()].copy_from_slice(data)`: `data` replaces the start of the
buffer (the call sites copy at most `dh_len ≤ MAXDHLEN` bytes). -/
def DhBuf.setPrefix (b : DhBuf) (data : Bytes) : DhBuf :=
  ⟨(data ++ b.bytes.drop data.length).take MAXDHLEN, by
    simp only [List.length_take, List.length_append, List.length_drop, b.length_eq]; omega⟩

theorem DhBuf.take_setPrefix (b : DhBuf) {data : Bytes} (short : data.length ≤ MAXDHLEN) :
    (b.setPrefix data).bytes.take data.length = data := by
  simp only [setPrefix, List.take_take]
  rw [min_eq_left short, List.take_left]

/-- `psks: [Option<[u8; PSKLEN]>; 10]`. -/
structure Psks where
  slots : List (Option Bytes)
  length_eq : slots.length = 10
  deriving DecidableEq

/-- `psks[location] = Some(key)`. -/
def Psks.set (psks : Psks) (location : Nat) (key : Bytes) : Psks :=
  ⟨psks.slots.set location (some key), by simp [psks.length_eq]⟩

/-- `HandshakeState`. -/
structure HandshakeState where
  rng : Nat
  symmetricstate : SymmetricState
  cipherstates : CipherStates
  s : Toggle Dh
  e : Toggle Dh
  fixedEphemeral : Bool
  rs : Toggle DhBuf
  re : Toggle DhBuf
  initiator : Bool
  params : NoiseParams
  psks : Psks
  myTurn : Bool
  messagePatterns : MessagePatterns
  patternPosition : Nat
  deriving DecidableEq

namespace HandshakeState

variable (P : Primitives)

/-! ## Construction -/

/-- The key `new` mixes for one pre-message token (lines 69-95): the public key
of a local slot when the token is the party's own, the first `dh_len` bytes of
a remote buffer otherwise; any other token is `unreachable!()`. -/
def premsgKey (own : Bool) (s e : Toggle Dh) (rs re : Toggle DhBuf) (dhLen : Nat) :
    Token → Result Bytes
  | .S =>
    if own then (match s.get with
      | some d => .ok (d.pubkey P)
      | none => .err (.State .MissingKeyMaterial))
    else (match rs.get with
      | some b => .ok (b.bytes.take dhLen)
      | none => .err (.State .MissingKeyMaterial))
  | .E =>
    if own then (match e.get with
      | some d => .ok (d.pubkey P)
      | none => .err (.State .MissingKeyMaterial))
    else (match re.get with
      | some b => .ok (b.bytes.take dhLen)
      | none => .err (.State .MissingKeyMaterial))
  | _ => .panic

/-- One `for token in ...` loop over a pre-message pattern of `new`. -/
def mixPremsg (own : Bool) (s e : Toggle Dh) (rs re : Toggle DhBuf) (dhLen : Nat)
    (ss : SymmetricState) : List Token → Result SymmetricState
  | [] => .ok ss
  | token :: tokens =>
    (premsgKey P own s e rs re dhLen token).bind fun key =>
      mixPremsg own s e rs re dhLen (ss.mixHash P key) tokens

/-- The UTF-8 bytes of a `String`, as `&params.name` passes them. -/
def nameBytes (name : String) : Bytes := name.toList.flatMap String.utf8EncodeChar

/-- `HandshakeState::new` (lines 37-115). -/
def new (expand : HandshakeChoice → Except Error HandshakeTokens) (rng : Nat)
    (cipherstate : CipherState) (s e : Toggle Dh) (fixedEphemeral : Bool)
    (rs re : Toggle DhBuf) (initiator : Bool) (params : NoiseParams) (psks : Psks)
    (prologue : Bytes) (cipherstates : CipherStates) : Result HandshakeState :=
  if (s.isOn && e.isOn && s.inner.pubLen != e.inner.pubLen)
      || (s.isOn && rs.isOn && decide (s.inner.pubLen > rs.inner.bytes.length))
      || (s.isOn && re.isOn && decide (s.inner.pubLen > re.inner.bytes.length)) then
    .err (.Init .ValidateKeyLengths)
  else
    match expand params.handshake with
    | .error err => .err err
    | .ok tokens =>
      let symmetricstate :=
        ((SymmetricState.new cipherstate).initialise P (nameBytes params.name)).mixHash P prologue
      let dhLen := s.inner.pubLen
      let mixed := (mixPremsg P initiator s e rs re dhLen symmetricstate tokens.premsgPatternI).bind
        fun ss => mixPremsg P (!initiator) s e rs re dhLen ss tokens.premsgPatternR
      mixed.bind fun symmetricstate =>
        .ok { rng, symmetricstate, cipherstates, s, e, fixedEphemeral, rs, re, initiator, params,
              psks, myTurn := initiator, messagePatterns := tokens.msgPatterns,
              patternPosition := 0 }

/-- `dh_len`: the public-key length of `s`. -/
def dhLen (hs : HandshakeState) : Nat := hs.s.inner.pubLen

/-- `HandshakeState::dh` (lines 121-138): both slots the pair names must be on. -/
def dh (hs : HandshakeState) (localS remoteS : Bool) : Except Error Bytes :=
  if !((!localS || hs.s.isOn) && (localS || hs.e.isOn) &&
      (!remoteS || hs.rs.isOn) && (remoteS || hs.re.isOn)) then
    .error (.State .MissingKeyMaterial)
  else
    let (dh, key) := match localS, remoteS with
      | true, true => (hs.s, hs.rs)
      | true, false => (hs.s, hs.re)
      | false, true => (hs.e, hs.rs)
      | false, false => (hs.e, hs.re)
    match dh.inner.dh P key.inner.bytes with
    | none => .error .Dh
    | some dhOut => .ok dhOut

/-- A DH token of either loop: `let dh_out = self.dh(local_s, remote_s)?;
self.symmetricstate.mix_key(&dh_out[..dh_len]);`, the cursor unchanged. -/
def dhToken {α : Type} (hs : HandshakeState) (dhLen : Nat) (localS remoteS : Bool) (cursor : α) :
    Outcome HandshakeState α :=
  match hs.dh P localS remoteS with
  | .error err => .err err hs
  | .ok dhOut => .ok cursor { hs with symmetricstate := hs.symmetricstate.mixKey P (dhOut.take dhLen) }

/-- A `Psk(n)` token of either loop: `self.psks[n]` is indexed unchecked. -/
def pskToken {α : Type} (hs : HandshakeState) (n : UInt8) (cursor : α) : Outcome HandshakeState α :=
  match hs.psks.slots[n.toNat]? with
  | none => .panic
  | some none => .err (.State .MissingPsk) hs
  | some (some psk) => .ok cursor { hs with symmetricstate := hs.symmetricstate.mixKeyAndHash P psk }

/-- `if last { self.symmetricstate.split(&mut self.cipherstates.0,
&mut self.cipherstates.1) }`, after the last message of either side. -/
def splitIf (hs : HandshakeState) (last : Bool) : HandshakeState :=
  if last then { hs with cipherstates := hs.symmetricstate.split P hs.cipherstates } else hs

theorem splitIf_eq (hs : HandshakeState) (last : Bool) :
    hs.splitIf P last =
      { hs with cipherstates := if last then hs.symmetricstate.split P hs.cipherstates
                                else hs.cipherstates } := by
  unfold splitIf; split <;> rfl

/-! ## Writing a message -/

/-- One iteration of the token loop of `_write_handshake_message` (lines
173-226) on the message buffer and `byte_index`. -/
def writeToken (hs : HandshakeState) (dhLen : Nat) (message : Bytes) (byteIndex : Nat) :
    Token → Outcome HandshakeState (Bytes × Nat)
  | .E =>
    if byteIndex + hs.e.inner.pubLen > message.length then .err .Input hs
    else
      let (e, rng) := if hs.fixedEphemeral then (hs.e.inner, hs.rng) else hs.e.inner.generate P hs.rng
      let pubkey := e.pubkey P
      match writeAt message byteIndex pubkey with
      | none => .panic
      | some message =>
        let ss := hs.symmetricstate.mixHash P pubkey
        let ss := if hs.params.handshake.isPsk then ss.mixKey P pubkey else ss
        .ok (message, byteIndex + pubkey.length)
          { hs with rng, e := { hs.e with inner := e }.enable, symmetricstate := ss }
  | .S =>
    if !hs.s.isOn then .err (.State .MissingKeyMaterial) hs
    else if byteIndex + hs.s.inner.pubLen > message.length then .err .Input hs
    else
      match hs.symmetricstate.encryptAndMixHash P (hs.s.inner.pubkey P) (message.drop byteIndex) with
      | none => .panic
      | some (written, out, ss) =>
        .ok (message.take byteIndex ++ out, byteIndex + written) { hs with symmetricstate := ss }
  | .Psk n => hs.pskToken P n (message, byteIndex)
  | .Dhee => hs.dhToken P dhLen false false (message, byteIndex)
  | .Dhes => hs.dhToken P dhLen false true (message, byteIndex)
  | .Dhse => hs.dhToken P dhLen true false (message, byteIndex)
  | .Dhss => hs.dhToken P dhLen true true (message, byteIndex)

/-- The token loop of `_write_handshake_message`. -/
def writeTokens (hs : HandshakeState) (dhLen : Nat) (message : Bytes) (byteIndex : Nat) :
    List Token → Outcome HandshakeState (Bytes × Nat)
  | [] => .ok (message, byteIndex) hs
  | token :: tokens =>
    (hs.writeToken P dhLen message byteIndex token).bind fun cursor hs =>
      hs.writeTokens dhLen cursor.1 cursor.2 tokens

/-- The payload and the end of `_write_handshake_message` (lines 229-240): the
bound check, the payload's encryption, `MAXMSGLEN`, the split after the last
message, and the turn. -/
def writePayload (hs : HandshakeState) (payload message : Bytes) (byteIndex : Nat) :
    Outcome HandshakeState (Nat × Bytes) :=
  if byteIndex + payload.length + TAGLEN > message.length then .err .Input hs
  else
    match hs.symmetricstate.encryptAndMixHash P payload (message.drop byteIndex) with
    | none => .panic
    | some (written, out, ss) =>
      let hs := { hs with symmetricstate := ss }
      if byteIndex + written > MAXMSGLEN then .err .Input hs
      else
        let hs := hs.splitIf P (decide (hs.patternPosition = hs.messagePatterns.length - 1))
        .ok (byteIndex + written, message.take byteIndex ++ out) { hs with myTurn := false }

/-- `_write_handshake_message(payload, message)` (lines 161-241); the value is
`byte_index` and the message buffer. -/
def _writeHandshakeMessage (hs : HandshakeState) (payload message : Bytes) :
    Outcome HandshakeState (Nat × Bytes) :=
  if !hs.myTurn then .err (.State .NotTurnToWrite) hs
  else if finished : hs.patternPosition ≥ hs.messagePatterns.length then
    .err (.State .HandshakeAlreadyFinished) hs
  else
    (hs.writeTokens P hs.dhLen message 0
        (hs.messagePatterns.get ⟨hs.patternPosition, Nat.lt_of_not_ge finished⟩)).bind
      fun cursor hs => hs.writePayload P payload cursor.1 cursor.2

/-- `write_handshake_message` (lines 145-159), with its arguments named by
their role: the source calls the payload `message` and the output buffer
`payload`, and passes them on to `_write_handshake_message` in that order. -/
def writeHandshakeMessage (hs : HandshakeState) (payload message : Bytes) :
    Outcome HandshakeState (Nat × Bytes) :=
  let checkpoint := hs.symmetricstate.checkpoint
  match hs._writeHandshakeMessage P payload message with
  | .ok res hs => .ok res { hs with patternPosition := hs.patternPosition + 1 }
  | .err err hs => .err err { hs with symmetricstate := hs.symmetricstate.restore checkpoint }
  | .panic => .panic

/-! ## Reading a message -/

/-- One iteration of the token loop of `_read_handshake_message` (lines
271-329) on the unread rest `ptr` of the message. -/
def readToken (hs : HandshakeState) (dhLen : Nat) (ptr : Bytes) :
    Token → Outcome HandshakeState Bytes
  | .E =>
    if ptr.length < dhLen then .err .Input hs
    else
      let re := { hs.re with inner := hs.re.inner.setPrefix (ptr.take dhLen) }
      let key := re.inner.bytes.take dhLen
      let ss := hs.symmetricstate.mixHash P key
      let ss := if hs.params.handshake.isPsk then ss.mixKey P key else ss
      .ok (ptr.drop dhLen) { hs with re := re.enable, symmetricstate := ss }
  | .S =>
    let fieldLen := if hs.symmetricstate.hasKey then dhLen + TAGLEN else dhLen
    if ptr.length < fieldLen then .err .Input hs
    else
      match hs.symmetricstate.decryptAndMixHash P (ptr.take fieldLen) (hs.rs.inner.bytes.take dhLen) with
      | .ok (_, out) ss =>
        .ok (ptr.drop fieldLen)
          { hs with rs := { hs.rs with inner := hs.rs.inner.setPrefix out }.enable, symmetricstate := ss }
      | .err _ _ => .err .Decrypt hs
      | .panic => .panic
  | .Psk n => hs.pskToken P n ptr
  | .Dhee => hs.dhToken P dhLen false false ptr
  | .Dhes => hs.dhToken P dhLen true false ptr
  | .Dhse => hs.dhToken P dhLen false true ptr
  | .Dhss => hs.dhToken P dhLen true true ptr

/-- The token loop of `_read_handshake_message`. -/
def readTokens (hs : HandshakeState) (dhLen : Nat) (ptr : Bytes) :
    List Token → Outcome HandshakeState Bytes
  | [] => .ok ptr hs
  | token :: tokens =>
    (hs.readToken P dhLen ptr token).bind fun ptr hs => hs.readTokens dhLen ptr tokens

/-- The payload and the end of `_read_handshake_message` (lines 332-338): the
trailer is decrypted into `payload`, the turn passes, the split follows the
last message, and the payload's length is the trailer's less the tag. -/
def readPayload (hs : HandshakeState) (last : Bool) (ptr payload : Bytes) :
    Outcome HandshakeState (Nat × Bytes) :=
  match hs.symmetricstate.decryptAndMixHash P ptr payload with
  | .err _ _ => .err .Decrypt hs
  | .panic => .panic
  | .ok (_, payload) ss =>
    let hs := { hs with symmetricstate := ss, myTurn := true }.splitIf P last
    if hs.symmetricstate.hasKey then
      if ptr.length < TAGLEN then .panic else .ok (ptr.length - TAGLEN, payload) hs
    else .ok (ptr.length, payload) hs

/-- `_read_handshake_message(message, payload)` (lines 259-339); the value is
`payload_len` and the payload buffer. `message_patterns.len() - 1` underflows
on an empty pattern list, and the index at `pattern_position` is unchecked. -/
def _readHandshakeMessage (hs : HandshakeState) (message payload : Bytes) :
    Outcome HandshakeState (Nat × Bytes) :=
  if message.length > MAXMSGLEN then .err .Input hs
  else if hs.messagePatterns.length = 0 then .panic
  else
    let last := decide (hs.patternPosition = hs.messagePatterns.length - 1)
    match hs.messagePatterns[hs.patternPosition]? with
    | none => .panic
    | some tokens =>
      (hs.readTokens P hs.dhLen message tokens).bind fun ptr hs => hs.readPayload P last ptr payload

/-- `read_handshake_message` (lines 243-257). -/
def readHandshakeMessage (hs : HandshakeState) (message payload : Bytes) :
    Outcome HandshakeState (Nat × Bytes) :=
  let checkpoint := hs.symmetricstate.checkpoint
  match hs._readHandshakeMessage P message payload with
  | .ok res hs => .ok res { hs with patternPosition := hs.patternPosition + 1 }
  | .err err hs => .err err { hs with symmetricstate := hs.symmetricstate.restore checkpoint }
  | .panic => .panic

/-! ## PSKs and observers -/

/-- `set_psk` (lines 343-353). -/
def setPsk (hs : HandshakeState) (location : Nat) (key : Bytes) : Outcome HandshakeState Unit :=
  if key.length ≠ PSKLEN ∨ hs.psks.slots.length ≤ location then .err .Input hs
  else .ok () { hs with psks := hs.psks.set location key }

/-- `get_remote_static`: the first `dh_len` bytes of `rs`, if it is on. -/
def getRemoteStatic (hs : HandshakeState) : Option Bytes :=
  hs.rs.get.map fun rs => rs.bytes.take hs.dhLen

/-- `was_write_payload_encrypted`: whether a key is set, so that a payload
written now would be encrypted. -/
def wasWritePayloadEncrypted (hs : HandshakeState) : Bool := hs.symmetricstate.hasKey

/-- `get_handshake_hash`. -/
def getHandshakeHash (hs : HandshakeState) : Bytes := hs.symmetricstate.handshakeHash

/-- `is_initiator`. -/
def isInitiator (hs : HandshakeState) : Bool := hs.initiator

/-- `is_finished`. -/
def isFinished (hs : HandshakeState) : Bool := hs.patternPosition == hs.messagePatterns.length

end HandshakeState

end Screech
