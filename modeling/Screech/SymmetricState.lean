import Screech.Primitives

/-!
# The symmetric state

Modelled from the spec: `symmetricstate.rs` and `cipherstate.rs` are not among
the sources. The state and its operations follow §3 and §4.D: the running
hash `h`, the chaining key `ck`, and a cipher state with its key, its nonce
and whether a key is set; `mix_hash`, `mix_key`, `mix_key_and_hash`,
`encrypt_and_mix_hash`, `decrypt_and_mix_hash`, `split`, and the
`checkpoint`/`restore` pair, which snapshots and rewinds the whole state.

`encrypt_and_mix_hash` and `decrypt_and_mix_hash` write into a caller's
buffer; a write past its end is a panic (`writeAt`). The `Err(())` of
`decrypt_and_mix_hash` is mapped to `Error::Decrypt` at every call site, so
the model returns that error directly.
-/

namespace Screech

/-- Modelled from the spec: a `CipherState`: the key its cipher holds, the
nonce, and whether a key is set. -/
structure CipherState where
  k : Bytes
  n : Nat
  hasKey : Bool
  deriving DecidableEq, Repr

/-- `CipherState::set`: install a key and reset the nonce. -/
def CipherState.set (cs : CipherState) (key : Bytes) : CipherState :=
  { cs with k := key, n := 0, hasKey := true }

/-- `CipherStates`: the transport pair `split` fills. -/
abbrev CipherStates := CipherState × CipherState

/-- Modelled from the spec: a `SymmetricState`. -/
structure SymmetricState where
  cipherstate : CipherState
  h : Bytes
  ck : Bytes
  deriving DecidableEq, Repr

namespace SymmetricState

variable (P : Primitives)

/-- `SymmetricState::new`: the cipher state it is given, before `initialise`. -/
def new (cipherstate : CipherState) : SymmetricState := ⟨cipherstate, [], []⟩

/-- `initialize(handshake_name)`, spelt `initialise` since `initialize` is a Lean
keyword: a name of at most `HASHLEN` bytes padded with
zeros, a longer one hashed; `ck = h`, and no key. -/
def initialise (ss : SymmetricState) (handshakeName : Bytes) : SymmetricState :=
  let h :=
    if handshakeName.length ≤ P.hashLen then
      handshakeName ++ List.replicate (P.hashLen - handshakeName.length) 0
    else P.hash handshakeName
  { ss with h, ck := h, cipherstate := { ss.cipherstate with hasKey := false } }

/-- `has_key`. -/
def hasKey (ss : SymmetricState) : Bool := ss.cipherstate.hasKey

/-- `handshake_hash`. -/
def handshakeHash (ss : SymmetricState) : Bytes := ss.h

/-- `mix_hash(data)`: `h = HASH(h || data)`. -/
def mixHash (ss : SymmetricState) (data : Bytes) : SymmetricState :=
  { ss with h := P.hash (ss.h ++ data) }

/-- `HKDF(chaining_key, input_key_material)`: three outputs, each `HASHLEN`
bytes of an HMAC under the extracted key. -/
def hkdf (chainingKey inputKeyMaterial : Bytes) : Bytes × Bytes × Bytes :=
  let tempKey := P.hmac chainingKey inputKeyMaterial
  let out1 := (P.hmac tempKey [1]).take P.hashLen
  let out2 := (P.hmac tempKey (out1 ++ [2])).take P.hashLen
  let out3 := (P.hmac tempKey (out2 ++ [3])).take P.hashLen
  (out1, out2, out3)

/-- `mix_key(ikm)`: a new chaining key, and the second output installed as the
cipher key. -/
def mixKey (ss : SymmetricState) (inputKeyMaterial : Bytes) : SymmetricState :=
  let (ck, tempK, _) := hkdf P ss.ck inputKeyMaterial
  { ss with ck, cipherstate := ss.cipherstate.set (tempK.take CIPHERKEYLEN) }

/-- `mix_key_and_hash(ikm)`: a new chaining key, the second output mixed into
`h`, the third installed as the cipher key. -/
def mixKeyAndHash (ss : SymmetricState) (inputKeyMaterial : Bytes) : SymmetricState :=
  let (ck, tempH, tempK) := hkdf P ss.ck inputKeyMaterial
  { ({ ss with ck }.mixHash P tempH) with
    cipherstate := ss.cipherstate.set (tempK.take CIPHERKEYLEN) }

/-- The ciphertext `encrypt_and_mix_hash` produces and the cipher state after
it: an encryption under `h` at the current nonce when a key is set, the
plaintext itself otherwise. -/
def encrypt (ss : SymmetricState) (plaintext : Bytes) : Bytes × CipherState :=
  if ss.cipherstate.hasKey then
    (P.encrypt ss.cipherstate.k ss.cipherstate.n ss.h plaintext,
      { ss.cipherstate with n := ss.cipherstate.n + 1 })
  else (plaintext, ss.cipherstate)

/-- `encrypt_and_mix_hash(plaintext, out)`: the ciphertext is written at the
start of `out` and mixed into `h`; the length written, the buffer, the state. -/
def encryptAndMixHash (ss : SymmetricState) (plaintext out : Bytes) :
    Option (Nat × Bytes × SymmetricState) :=
  let encrypted := ss.encrypt P plaintext
  (writeAt out 0 encrypted.1).map fun out =>
    (encrypted.1.length, out, { ss with cipherstate := encrypted.2 }.mixHash P encrypted.1)

/-- The plaintext `decrypt_and_mix_hash` recovers and the cipher state after
it: a decryption under `h` at the current nonce when a key is set, the data
itself otherwise; `none` when the tag does not verify. -/
def decrypt (ss : SymmetricState) (data : Bytes) : Option (Bytes × CipherState) :=
  if ss.cipherstate.hasKey then
    (P.decrypt ss.cipherstate.k ss.cipherstate.n ss.h data).map fun plaintext =>
      (plaintext, { ss.cipherstate with n := ss.cipherstate.n + 1 })
  else some (data, ss.cipherstate)

/-- `decrypt_and_mix_hash(data, out)`: the plaintext is written at the start of
`out`, and the data, not the plaintext, is mixed into `h`. An `out` shorter
than the plaintext is a panic, as `copy_memory` of `utils.rs` panics on a short
output. -/
def decryptAndMixHash (ss : SymmetricState) (data out : Bytes) :
    Outcome SymmetricState (Nat × Bytes) :=
  match ss.decrypt P data with
  | none => .err .Decrypt ss
  | some (plaintext, cs) =>
    match writeAt out 0 plaintext with
    | none => .panic
    | some out => .ok (plaintext.length, out) ({ ss with cipherstate := cs }.mixHash P data)

/-- `split(c1, c2)`: the first two HKDF outputs of `ck` and no input key
material, installed in the two transport cipher states. -/
def split (ss : SymmetricState) (cs : CipherStates) : CipherStates :=
  let (k1, k2, _) := hkdf P ss.ck []
  (cs.1.set (k1.take CIPHERKEYLEN), cs.2.set (k2.take CIPHERKEYLEN))

/-- `checkpoint()`: a copy of the whole state. -/
def checkpoint (ss : SymmetricState) : SymmetricState := ss

/-- `restore(checkpoint)`: the state goes back to the copy. -/
def restore (_ss checkpoint : SymmetricState) : SymmetricState := checkpoint

/-! ## Small facts -/

@[simp] theorem restore_checkpoint (ss ss' : SymmetricState) :
    ss'.restore ss.checkpoint = ss := rfl

@[simp] theorem hasKey_mk (cs : CipherState) (h ck : Bytes) :
    (SymmetricState.mk cs h ck).hasKey = cs.hasKey := rfl

@[simp] theorem hasKey_mixHash (ss : SymmetricState) (data : Bytes) :
    (ss.mixHash P data).hasKey = ss.hasKey := rfl

@[simp] theorem hasKey_mixKey (ss : SymmetricState) (ikm : Bytes) :
    (ss.mixKey P ikm).hasKey = true := rfl

@[simp] theorem hasKey_mixKeyAndHash (ss : SymmetricState) (ikm : Bytes) :
    (ss.mixKeyAndHash P ikm).hasKey = true := rfl

theorem encrypt_fst {ss : SymmetricState} {plaintext : Bytes} :
    (ss.encrypt P plaintext).1 =
      if ss.hasKey then P.encrypt ss.cipherstate.k ss.cipherstate.n ss.h plaintext
      else plaintext := by
  unfold encrypt hasKey; split <;> rfl

/-- Under the contract, the ciphertext is the plaintext and a tag exactly when
a key is set. -/
theorem length_encrypt {P : Primitives} (lawful : P.Lawful) (ss : SymmetricState)
    (plaintext : Bytes) :
    (ss.encrypt P plaintext).1.length =
      plaintext.length + if ss.hasKey then TAGLEN else 0 := by
  rw [encrypt_fst]; split
  · exact lawful.encrypt_length _ _ _ _
  · rfl

@[simp] theorem hasKey_encrypt (ss : SymmetricState) (plaintext : Bytes) :
    (ss.encrypt P plaintext).2.hasKey = ss.hasKey := by
  unfold encrypt hasKey; split <;> simp_all

/-- Inversion of `encrypt_and_mix_hash`: the ciphertext fits in `out`, and the
result is its length, the buffer with it written, and the state after mixing. -/
theorem encryptAndMixHash_eq_some {ss : SymmetricState} {plaintext out : Bytes}
    {written : Nat} {out' : Bytes} {ss' : SymmetricState} :
    ss.encryptAndMixHash P plaintext out = some (written, out', ss') ↔
      (ss.encrypt P plaintext).1.length ≤ out.length ∧
      written = (ss.encrypt P plaintext).1.length ∧
      out' = (ss.encrypt P plaintext).1 ++ out.drop (ss.encrypt P plaintext).1.length ∧
      ss' = { ss with cipherstate := (ss.encrypt P plaintext).2 }.mixHash P
        (ss.encrypt P plaintext).1 := by
  simp only [encryptAndMixHash, Option.map_eq_some', writeAt_eq_some, List.take_zero,
    List.nil_append, zero_add, Prod.mk.injEq]
  constructor
  · rintro ⟨o, ⟨fits, rfl⟩, rfl, rfl, rfl⟩; exact ⟨fits, rfl, rfl, rfl⟩
  · rintro ⟨fits, rfl, rfl, rfl⟩; exact ⟨_, ⟨fits, rfl⟩, rfl, rfl, rfl⟩

theorem encryptAndMixHash_eq_none {ss : SymmetricState} {plaintext out : Bytes} :
    ss.encryptAndMixHash P plaintext out = none ↔
      out.length < (ss.encrypt P plaintext).1.length := by
  simp only [encryptAndMixHash, Option.map_eq_none', writeAt_eq_none, zero_add]

theorem hasKey_of_decrypt {ss : SymmetricState} {data plaintext : Bytes} {cs : CipherState}
    (h : ss.decrypt P data = some (plaintext, cs)) : cs.hasKey = ss.hasKey := by
  unfold decrypt at h
  split at h
  · obtain ⟨_, -, h⟩ := Option.map_eq_some'.mp h
    cases h; simp_all [hasKey]
  · cases h; rfl

/-- Under the contract, decryption with the same state undoes encryption. -/
theorem decrypt_encrypt {P : Primitives} (lawful : P.Lawful) (ss : SymmetricState)
    (plaintext : Bytes) :
    ss.decrypt P (ss.encrypt P plaintext).1 = some (plaintext, (ss.encrypt P plaintext).2) := by
  unfold decrypt encrypt
  split <;> simp_all [lawful.decrypt_encrypt]

/-- Inversion of `decrypt_and_mix_hash` at `Ok`: the data decrypts, the
plaintext fits in `out`, and the result is its length, the buffer with it
written, and the state after mixing the data. -/
theorem decryptAndMixHash_eq_ok {ss : SymmetricState} {data out : Bytes} {n : Nat}
    {out' : Bytes} {ss' : SymmetricState} :
    ss.decryptAndMixHash P data out = .ok (n, out') ss' ↔
      ∃ plaintext cs, ss.decrypt P data = some (plaintext, cs) ∧
        plaintext.length ≤ out.length ∧ n = plaintext.length ∧
        out' = plaintext ++ out.drop plaintext.length ∧
        ss' = { ss with cipherstate := cs }.mixHash P data := by
  unfold decryptAndMixHash
  split
  · simp_all
  · rename_i plaintext cs decrypted
    split
    · rename_i none
      rw [writeAt_eq_none] at none
      simp only [reduceCtorEq, false_iff, not_exists, not_and]
      intro p c h; simp only [decrypted, Option.some.injEq, Prod.mk.injEq] at h
      obtain ⟨rfl, rfl⟩ := h; omega
    · rename_i written write
      obtain ⟨fits, rfl⟩ := writeAt_eq_some.mp write
      simp only [Outcome.ok.injEq, Prod.mk.injEq, decrypted, Option.some.injEq, List.take_zero,
        List.nil_append, zero_add]
      constructor
      · rintro ⟨⟨rfl, rfl⟩, rfl⟩; exact ⟨_, _, ⟨rfl, rfl⟩, by omega, rfl, rfl, rfl⟩
      · rintro ⟨_, _, ⟨rfl, rfl⟩, -, rfl, rfl, rfl⟩; exact ⟨⟨rfl, rfl⟩, rfl⟩

end SymmetricState

end Screech
