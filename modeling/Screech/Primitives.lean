import Mathlib.Data.UInt
import Screech.Params

/-!
# Cryptographic primitives

Modelled from the spec: `types.rs`, which declares the `Dh`, `Hash`, `Cipher`
and `Random` traits, is not among the sources, nor are their implementations.
The handshake is generic over them (§4.A, §9), and so is the model:
`Primitives` holds one implementation of each capability as plain functions,
and `Primitives.Lawful` is the contract the handshake's correctness rests on:
public keys are `DHLEN` bytes, a DH reads only the first `DHLEN` bytes of the
remote buffer and agrees from both ends, a ciphertext is its plaintext and a
16-byte tag, and decryption inverts encryption.

`Primitives.sample` is one lawful implementation over byte addition. It shows
that the contract is satisfiable, and the witnesses and counterexamples of
the later modules run the handshake over it.
-/

namespace Screech

/-- `Dh::pub_len` of each DH choice: `DHLEN`. -/
def DHChoice.pubLen : DHChoice → Nat
  | .Curve25519 => 32
  | .Ed448 => 56

theorem DHChoice.pubLen_le (c : DHChoice) : c.pubLen ≤ MAXDHLEN := by
  cases c <;> decide

/-- The primitives a handshake is generic over. -/
structure Primitives where
  /-- `Hash::hash_len`: `HASHLEN`. -/
  hashLen : Nat
  /-- The hash of one input. -/
  hash : Bytes → Bytes
  /-- `HMAC(key, data)` over the hash. -/
  hmac : Bytes → Bytes → Bytes
  /-- `Cipher::encrypt` under a key, at a nonce, with associated data. -/
  encrypt : Bytes → Nat → Bytes → Bytes → Bytes
  /-- `Cipher::decrypt`; `none` when the tag does not verify. -/
  decrypt : Bytes → Nat → Bytes → Bytes → Option Bytes
  /-- `Dh::pubkey` of a private key. -/
  pubkey : DHChoice → Bytes → Bytes
  /-- `Dh::dh`: a private key and a remote public-key buffer to the shared
  secret; `none` is its `Err`. -/
  dh : DHChoice → Bytes → Bytes → Option Bytes
  /-- `Random::fill`: the bytes of the generator's `n`-th draw. -/
  random : Nat → Bytes

/-- The contract of the primitives. -/
structure Primitives.Lawful (P : Primitives) : Prop where
  pubkey_length : ∀ c k, (P.pubkey c k).length = c.pubLen
  dh_take : ∀ c k r, P.dh c k r = P.dh c k (r.take c.pubLen)
  dh_comm : ∀ c a b, P.dh c a (P.pubkey c b) = P.dh c b (P.pubkey c a)
  encrypt_length : ∀ k n ad pt, (P.encrypt k n ad pt).length = pt.length + TAGLEN
  decrypt_encrypt : ∀ k n ad pt, P.decrypt k n ad (P.encrypt k n ad pt) = some pt
  decrypt_length : ∀ k n ad ct pt, P.decrypt k n ad ct = some pt → ct.length = pt.length + TAGLEN

/-! ## A `Box<Dh>` -/

/-- A `Box<Dh>`: the DH function it implements and the private key it holds. -/
structure Dh where
  choice : DHChoice
  privkey : Bytes
  deriving DecidableEq, Repr

namespace Dh

variable (P : Primitives)

/-- `Dh::pub_len`. -/
def pubLen (d : Dh) : Nat := d.choice.pubLen

/-- `Dh::pubkey`. -/
def pubkey (d : Dh) : Bytes := P.pubkey d.choice d.privkey

/-- `Dh::dh`. -/
def dh (d : Dh) (remote : Bytes) : Option Bytes := P.dh d.choice d.privkey remote

/-- `Dh::generate`: a fresh private key from the generator's next draw. -/
def generate (d : Dh) (rng : Nat) : Dh × Nat := ({ d with privkey := P.random rng }, rng + 1)

@[simp] theorem generate_choice (d : Dh) (rng : Nat) : (d.generate P rng).1.choice = d.choice :=
  rfl

theorem pubkey_length {P : Primitives} (lawful : P.Lawful) (d : Dh) :
    (d.pubkey P).length = d.pubLen :=
  lawful.pubkey_length _ _

end Dh

/-! ## A lawful sample -/

namespace Primitives

/-- The first `n` bytes of a key, padded with zeros. -/
def padKey (n : Nat) (k : Bytes) : Bytes := (k ++ List.replicate n 0).take n

/-- The 16-byte tag of the sample cipher. -/
def sampleTag (k : Bytes) (n : Nat) : Bytes := List.replicate 16 (k.foldl (· + ·) n.toUInt8)

/-- Byte sums for the hash and the MAC, a tag appended by the cipher, and DH
as the byte-wise sum of two padded keys. -/
def sample : Primitives where
  hashLen := 32
  hash x := [x.foldl (· + ·) 0]
  hmac k x := [k.foldl (· + ·) 0 + x.foldl (· + ·) 0]
  encrypt k n _ pt := pt ++ sampleTag k n
  decrypt k n _ ct :=
    if TAGLEN ≤ ct.length ∧ ct.drop (ct.length - TAGLEN) = sampleTag k n then
      some (ct.take (ct.length - TAGLEN))
    else none
  pubkey c k := padKey c.pubLen k
  dh c a r := some (List.zipWith (· + ·) (padKey c.pubLen a) (r.take c.pubLen))
  random n := List.replicate 32 n.toUInt8

theorem length_padKey (n : Nat) (k : Bytes) : (padKey n k).length = n := by
  simp [padKey]

theorem sample_lawful : sample.Lawful where
  pubkey_length c k := length_padKey _ _
  dh_take c k r := by simp [sample, List.take_take]
  dh_comm c a b := by
    simp only [sample, Option.some.injEq]
    rw [List.take_of_length_le (length_padKey _ _).le, List.take_of_length_le (length_padKey _ _).le,
      List.zipWith_comm_of_comm _ add_comm]
  encrypt_length k n ad pt := by simp [sample, sampleTag, TAGLEN]
  decrypt_encrypt k n ad pt := by simp [sample, sampleTag, TAGLEN]
  decrypt_length k n ad ct pt h := by
    simp only [sample] at h
    split at h
    · cases h; simp only [List.length_take]; omega
    · cases h

end Primitives

end Screech
