import Screech.HandshakeState

/-!
# Runs of the public API

A handshake is driven by the three mutating calls of its public API:
`write_handshake_message`, `read_handshake_message` and `set_psk`. A `Call`
is one of them with its arguments, `Call.run` the state it leaves, whether it
returned `Ok` or `Err`; a panic leaves no state and ends the run. `Reachable`
collects the states `new` builds and every state a call leaves from one of
them, and `trace` lists the states a sequence of calls passes through.

The last section builds two handshakes over `Primitives.sample`: `NN` and `X`
(`-> e, es, s, ss` after the responder's static key as a pre-message), with
the expander's tokens for them. The witnesses and counterexamples of the
later modules start from these states.
-/

namespace Screech

/-- One call of the public API, with its arguments. -/
inductive Call where
  | write (payload message : Bytes)
  | read (message payload : Bytes)
  | setPsk (location : Nat) (key : Bytes)
  deriving DecidableEq, Repr

namespace Call

variable (P : Primitives)

/-- The state a call leaves; `none` when it panics. -/
def run : Call → HandshakeState → Option HandshakeState
  | write payload message, hs => (hs.writeHandshakeMessage P payload message).state?
  | read message payload, hs => (hs.readHandshakeMessage P message payload).state?
  | setPsk location key, hs => (hs.setPsk location key).state?

end Call

variable (P : Primitives) (expand : HandshakeChoice → Except Error HandshakeTokens)

/-- The states reachable from `HandshakeState::new` by any sequence of calls,
successful or failing. -/
inductive Reachable : HandshakeState → Prop where
  | new {rng : Nat} {cipherstate : CipherState} {s e : Toggle Dh} {fixedEphemeral : Bool}
      {rs re : Toggle DhBuf} {initiator : Bool} {params : NoiseParams} {psks : Psks}
      {prologue : Bytes} {cipherstates : CipherStates} {hs : HandshakeState} :
      HandshakeState.new P expand rng cipherstate s e fixedEphemeral rs re initiator params psks
        prologue cipherstates = .ok hs → Reachable hs
  | call {hs hs' : HandshakeState} (c : Call) :
      Reachable hs → c.run P hs = some hs' → Reachable hs'

/-- The states a sequence of calls passes through after `hs`, up to the first
panic. -/
def trace (hs : HandshakeState) : List Call → List HandshakeState
  | [] => []
  | c :: cs =>
    match c.run P hs with
    | none => []
    | some hs' => hs' :: trace hs' cs

/-- Every state of a trace from a reachable state is reachable. -/
theorem Reachable.trace {hs : HandshakeState} (reachable : Reachable P expand hs) (cs : List Call) :
    ∀ hs' ∈ Screech.trace P hs cs, Reachable P expand hs' := by
  induction cs generalizing hs with
  | nil => simp [Screech.trace]
  | cons c cs ih =>
    simp only [Screech.trace]
    split
    · simp
    · rename_i hs' step
      have next := Reachable.call c reachable step
      simpa [next] using ih next

/-! ## Two sample handshakes -/

/-- A buffer of `MAXDHLEN` bytes holding `data` at its start. -/
def DhBuf.ofBytes (data : Bytes) : DhBuf :=
  ⟨(data ++ List.replicate MAXDHLEN 0).take MAXDHLEN, by
    simp only [List.length_take, List.length_append, List.length_replicate]; omega⟩

/-- A Curve25519 key slot holding the private key `k`. -/
def sampleKey (k : Bytes) (isOn : Bool) : Toggle Dh := ⟨⟨.Curve25519, k⟩, isOn⟩

/-- A cipher state with no key. -/
def emptyCipher : CipherState := ⟨[], 0, false⟩

/-- Ten empty PSK slots. -/
def noPsks : Psks := ⟨List.replicate 10 none, rfl⟩

/-- The parameters of `Noise_<pattern>_25519_ChaChaPoly_SHA256`. -/
def sampleParams (pattern : HandshakePattern) (name : String) : NoiseParams :=
  NoiseParams.new name .Noise ⟨pattern, ⟨[]⟩⟩ .Curve25519 .ChaChaPoly .SHA256

/-- The tokens of `NN`: `-> e`, `<- e, ee`. -/
def nnTokens : HandshakeTokens := ⟨[], [], [[.E], [.E, .Dhee]]⟩

/-- The tokens of `X`: `<- s` before the handshake, then `-> e, es, s, ss`. -/
def xTokens : HandshakeTokens := ⟨[], [.S], [[.E, .Dhes, .S, .Dhss]]⟩

/-- The expander on `NN` and `X`. -/
def sampleExpand (handshake : HandshakeChoice) : Except Error HandshakeTokens :=
  match handshake.pattern with
  | .NN => .ok nnTokens
  | .X => .ok xTokens
  | _ => .error (.Pattern .UnsupportedHandshakeType)

/-- The symmetric state after `initialize(name)` and an empty prologue. -/
def sampleStart (name : String) : SymmetricState :=
  ((SymmetricState.new emptyCipher).initialise Primitives.sample
    (HandshakeState.nameBytes name)).mixHash Primitives.sample []

/-- The `NN` initiator, with fresh ephemerals from draw `0` on. -/
def nnInitiator : HandshakeState where
  rng := 0
  symmetricstate := sampleStart "Noise_NN_25519_ChaChaPoly_SHA256"
  cipherstates := (emptyCipher, emptyCipher)
  s := sampleKey [] false
  e := sampleKey [] false
  fixedEphemeral := false
  rs := ⟨DhBuf.ofBytes [], false⟩
  re := ⟨DhBuf.ofBytes [], false⟩
  initiator := true
  params := sampleParams .NN "Noise_NN_25519_ChaChaPoly_SHA256"
  psks := noPsks
  myTurn := true
  messagePatterns := nnTokens.msgPatterns
  patternPosition := 0

theorem new_nnInitiator :
    HandshakeState.new Primitives.sample sampleExpand 0 emptyCipher (sampleKey [] false)
      (sampleKey [] false) false ⟨DhBuf.ofBytes [], false⟩ ⟨DhBuf.ofBytes [], false⟩ true
      (sampleParams .NN "Noise_NN_25519_ChaChaPoly_SHA256") noPsks [] (emptyCipher, emptyCipher) =
      .ok nnInitiator := rfl

/-- The `X` initiator: static key `[1]`, the responder's static public key in
`rs`, fresh ephemerals from draw `0` on. -/
def xInitiator : HandshakeState where
  rng := 0
  symmetricstate := (sampleStart "Noise_X_25519_ChaChaPoly_SHA256").mixHash Primitives.sample
    ((DhBuf.ofBytes ((sampleKey [2] true).inner.pubkey Primitives.sample)).bytes.take 32)
  cipherstates := (emptyCipher, emptyCipher)
  s := sampleKey [1] true
  e := sampleKey [] false
  fixedEphemeral := false
  rs := ⟨DhBuf.ofBytes ((sampleKey [2] true).inner.pubkey Primitives.sample), true⟩
  re := ⟨DhBuf.ofBytes [], false⟩
  initiator := true
  params := sampleParams .X "Noise_X_25519_ChaChaPoly_SHA256"
  psks := noPsks
  myTurn := true
  messagePatterns := xTokens.msgPatterns
  patternPosition := 0

theorem new_xInitiator :
    HandshakeState.new Primitives.sample sampleExpand 0 emptyCipher (sampleKey [1] true)
      (sampleKey [] false) false
      ⟨DhBuf.ofBytes ((sampleKey [2] true).inner.pubkey Primitives.sample), true⟩
      ⟨DhBuf.ofBytes [], false⟩ true (sampleParams .X "Noise_X_25519_ChaChaPoly_SHA256") noPsks []
      (emptyCipher, emptyCipher) = .ok xInitiator := rfl

/-- The `X` responder: static key `[2]`, fresh ephemerals from draw `100` on. -/
def xResponder : HandshakeState where
  rng := 100
  symmetricstate := (sampleStart "Noise_X_25519_ChaChaPoly_SHA256").mixHash Primitives.sample
    ((sampleKey [2] true).inner.pubkey Primitives.sample)
  cipherstates := (emptyCipher, emptyCipher)
  s := sampleKey [2] true
  e := sampleKey [] false
  fixedEphemeral := false
  rs := ⟨DhBuf.ofBytes [], false⟩
  re := ⟨DhBuf.ofBytes [], false⟩
  initiator := false
  params := sampleParams .X "Noise_X_25519_ChaChaPoly_SHA256"
  psks := noPsks
  myTurn := false
  messagePatterns := xTokens.msgPatterns
  patternPosition := 0

theorem new_xResponder :
    HandshakeState.new Primitives.sample sampleExpand 100 emptyCipher (sampleKey [2] true)
      (sampleKey [] false) false ⟨DhBuf.ofBytes [], false⟩ ⟨DhBuf.ofBytes [], false⟩ false
      (sampleParams .X "Noise_X_25519_ChaChaPoly_SHA256") noPsks [] (emptyCipher, emptyCipher) =
      .ok xResponder := rfl

/-- `X` has no PSK token. -/
theorem xTokens_no_psk : ∀ ts ∈ xTokens.msgPatterns, ∀ n, Token.Psk n ∉ ts := by
  intro ts mem n held
  simp only [xTokens, List.mem_singleton] at mem
  subst mem
  simp at held

end Screech
