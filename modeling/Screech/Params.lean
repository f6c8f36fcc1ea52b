import Screech.Params.Patterns

/-!
# Protocol names (`params/mod.rs`)

The primitive choices of a protocol name and `NoiseParams::from_str`, in both
of its configurations: without the `hfs` feature (`fromStr`) and with it
(`fromStrHfs`). The name is split on `_` as Rust's `str::split('_')` does,
which is `List.splitOn` over the name's characters: an empty name is one empty
field, and two adjacent separators make an empty field between them.
-/

namespace Screech

/-- `BaseChoice`. -/
inductive BaseChoice where
  | Noise
  deriving DecidableEq, Repr

/-- `BaseChoice::from_str`. -/
def BaseChoice.fromStr (s : String) : Except Error BaseChoice :=
  match s with
  | "Noise" => .ok .Noise
  | _ => .error (.Pattern .UnsupportedBaseType)

/-- `DHChoice`: `25519` or `448`. -/
inductive DHChoice where
  | Curve25519
  | Ed448
  deriving DecidableEq, Repr

/-- `DHChoice::from_str`. -/
def DHChoice.fromStr (s : String) : Except Error DHChoice :=
  match s with
  | "25519" => .ok .Curve25519
  | "448" => .ok .Ed448
  | _ => .error (.Pattern .UnsupportedDhType)

/-- `CipherChoice`: `ChaChaPoly` or `AESGCM`. -/
inductive CipherChoice where
  | ChaChaPoly
  | AESGCM
  deriving DecidableEq, Repr

/-- `CipherChoice::from_str`. -/
def CipherChoice.fromStr (s : String) : Except Error CipherChoice :=
  match s with
  | "ChaChaPoly" => .ok .ChaChaPoly
  | "AESGCM" => .ok .AESGCM
  | _ => .error (.Pattern .UnsupportedCipherType)

/-- `HashChoice`. -/
inductive HashChoice where
  | SHA256
  | SHA512
  | Blake2s
  | Blake2b
  deriving DecidableEq, Repr

/-- `HashChoice::from_str`. -/
def HashChoice.fromStr (s : String) : Except Error HashChoice :=
  match s with
  | "SHA256" => .ok .SHA256
  | "SHA512" => .ok .SHA512
  | "BLAKE2s" => .ok .Blake2s
  | "BLAKE2b" => .ok .Blake2b
  | _ => .error (.Pattern .UnsupportedHashType)

/-- `KemChoice` (feature `hfs`). -/
inductive KemChoice where
  | Kyber1024
  deriving DecidableEq, Repr

/-- `KemChoice::from_str` (feature `hfs`). -/
def KemChoice.fromStr (s : String) : Except Error KemChoice :=
  match s with
  | "Kyber1024" => .ok .Kyber1024
  | _ => .error (.Pattern .UnsupportedKemType)

/-- `NoiseParams`. The `kem` field exists under the `hfs` feature only; without
it every value has `kem = none`. -/
structure NoiseParams where
  name : String
  base : BaseChoice
  handshake : HandshakeChoice
  dh : DHChoice
  kem : Option KemChoice
  cipher : CipherChoice
  hash : HashChoice
  deriving DecidableEq, Repr

/-- `NoiseParams::new`, which leaves `kem` at `None`. -/
def NoiseParams.new (name : String) (base : BaseChoice) (handshake : HandshakeChoice)
    (dh : DHChoice) (cipher : CipherChoice) (hash : HashChoice) : NoiseParams :=
  { name, base, handshake, dh, kem := none, cipher, hash }

/-- The pieces `s.split(sep)` yields, in order. -/
def splitOn (s : String) (sep : Char) : List String :=
  (s.toList.splitOn sep).map String.mk

/-- `split.next().ok_or(PatternProblem::TooFewParameters)`: the next piece and
the rest of the iterator. -/
def nextField : List String → Except Error (String × List String)
  | [] => .error (.Pattern .TooFewParameters)
  | f :: rest => .ok (f, rest)

/-- `NoiseParams::from_str` without the `hfs` feature (lines 166-174): five
pieces are taken from the split, each parsed in turn. -/
def NoiseParams.fromStr (s : String) : Except Error NoiseParams := do
  let (f, split) ← nextField (splitOn s '_')
  let base ← BaseChoice.fromStr f
  let (f, split) ← nextField split
  let handshake ← HandshakeChoice.fromStr f
  let (f, split) ← nextField split
  let dh ← DHChoice.fromStr f
  let (f, split) ← nextField split
  let cipher ← CipherChoice.fromStr f
  let (f, _) ← nextField split
  let hash ← HashChoice.fromStr f
  pure (NoiseParams.new s base handshake dh cipher hash)

/-- The `kem` of `NoiseParams::from_str` with the `hfs` feature (lines
183-187): the next piece of the DH field's split on `+`, parsed, if there is
one. -/
def parseKem : List String → Except Error (Option KemChoice)
  | [] => .ok none
  | k :: _ => some <$> KemChoice.fromStr k

/-- `NoiseParams::from_str` with the `hfs` feature (lines 177-197): the third
piece is split again on `+` into the DH choice and an optional KEM, and a KEM
must be given exactly when the `hfs` modifier is. -/
def NoiseParams.fromStrHfs (s : String) : Except Error NoiseParams := do
  let (f, split) ← nextField (splitOn s '_')
  let base ← BaseChoice.fromStr f
  let (f, split) ← nextField split
  let handshake ← HandshakeChoice.fromStr f
  let (f, split) ← nextField split
  let (d, pkcSplit) ← nextField (splitOn f '+')
  let dh ← DHChoice.fromStr d
  let kem ← parseKem pkcSplit
  let (f, split) ← nextField split
  let cipher ← CipherChoice.fromStr f
  let (f, _) ← nextField split
  let hash ← HashChoice.fromStr f
  if handshake.isHfs != kem.isSome then throw (.Pattern .TooFewParameters)
  pure { NoiseParams.new s base handshake dh cipher hash with kem }

end Screech
