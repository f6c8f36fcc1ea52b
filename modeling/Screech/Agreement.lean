import Screech.Layout

/-!
# Two parties agree

An initiator and a responder built by `HandshakeState::new` from the same
parameters and prologue run a handshake: message by message the party whose
turn it is writes, and the other reads the bytes written. This module shows
that every read of such a run succeeds, returns the payload written, and
leaves the two symmetric states in agreement at the same position, and that
the two parties end the handshake with the same transport pair.

The two token loops of `handshakestate.rs` read a DH token from the writer's
side. `ES` is `dh(false, true)` on write, the writer's `e` and `rs`, and
`dh(true, false)` on read, the reader's `s` and `re`: at both ends the
writer's ephemeral key and the reader's static key. `SE` is the reverse, the
writer's static key and the reader's ephemeral key. So the messages of a
handshake are in order when every DH token comes after the tokens or
pre-messages that carry the keys it uses, counted from the writer's side and
with the roles swapped after each message (`Carried.messages`).

The proof is a simulation of the reader by the writer. `TokenAgreement`
relates the two inside a message: symmetric states that agree, and every
carried key where the other party's DH looks for it (`Holds`). One lemma per
token shows that the reader consumes exactly the field the writer wrote and
keeps the relation (`token_agreement`), one induction covers the token loop,
one lemma the payload, and `Agreement` adds what a whole message keeps:
position, patterns, turn, PSKs and, after the last message, the transport
pair (`message_agreement`). `Session` collects the pairs of states a run
reaches, writer first, and `handshake_agreement` is the invariant over them.

The symmetric states agree rather than coincide: `initialize` clears
`has_key` but keeps the key and the nonce of the cipher state `new` was
given, and neither is read until the first `mix_key` installs a key. Two
parties built over different cipher states keep different unused keys until
then (`unkeyed_ciphers_differ`).
-/

namespace Screech

/-! ## Symmetric states that agree -/

namespace SymmetricState

variable (P : Primitives)

/-- Two symmetric states that hash, derive, encrypt and decrypt alike: the same
`h`, `ck` and `has_key`, and the same cipher key and nonce once a key is set. -/
def Agree (a b : SymmetricState) : Prop :=
  a.h = b.h ∧ a.ck = b.ck ∧ a.hasKey = b.hasKey ∧ (a.hasKey = true → a.cipherstate = b.cipherstate)

namespace Agree

variable {P} {a b : SymmetricState}

theorem symm (agree : a.Agree b) : b.Agree a := by
  obtain ⟨h, ck, key, cs⟩ := agree
  exact ⟨h.symm, ck.symm, key.symm, fun keyed => (cs (key ▸ keyed)).symm⟩

theorem mixHash (agree : a.Agree b) (data : Bytes) :
    (a.mixHash P data).Agree (b.mixHash P data) := by
  obtain ⟨h, ck, key, cs⟩ := agree
  exact ⟨by simp only [SymmetricState.mixHash, h], ck, key, cs⟩

/-- `mix_key` installs a key cut from `ck` alone, whatever key was set. -/
theorem mixKey (agree : a.Agree b) (ikm : Bytes) : (a.mixKey P ikm).Agree (b.mixKey P ikm) := by
  obtain ⟨h, ck, -, -⟩ := agree
  exact ⟨h, by simp only [SymmetricState.mixKey, ck], rfl, fun _ => by
    simp only [SymmetricState.mixKey, ck, CipherState.set]⟩

theorem mixKeyAndHash (agree : a.Agree b) (ikm : Bytes) :
    (a.mixKeyAndHash P ikm).Agree (b.mixKeyAndHash P ikm) := by
  obtain ⟨h, ck, -, -⟩ := agree
  exact ⟨by simp only [SymmetricState.mixKeyAndHash, SymmetricState.mixHash, h, ck],
    by simp only [SymmetricState.mixKeyAndHash, SymmetricState.mixHash, ck], rfl, fun _ => by
    simp only [SymmetricState.mixKeyAndHash, SymmetricState.mixHash, ck, CipherState.set]⟩

/-- `split` reads `ck` alone and overwrites both transport states. -/
theorem split (agree : a.Agree b) (cs cs' : CipherStates) : a.split P cs = b.split P cs' := by
  simp only [SymmetricState.split, agree.2.1, CipherState.set]

/-- Under the contract, what one side encrypts the other decrypts, and the two
states after it agree. -/
theorem decrypt_encrypt (lawful : P.Lawful) (agree : a.Agree b) (plaintext : Bytes) :
    ∃ cs, b.decrypt P (a.encrypt P plaintext).1 = some (plaintext, cs) ∧
      ({ a with cipherstate := (a.encrypt P plaintext).2 } : SymmetricState).Agree
        { b with cipherstate := cs } := by
  obtain ⟨h, ck, key, cs⟩ := agree
  unfold SymmetricState.encrypt SymmetricState.decrypt
  unfold hasKey at key cs
  by_cases keyed : a.cipherstate.hasKey = true
  · have same := cs keyed
    rw [if_pos keyed, if_pos (same ▸ keyed)]
    simp only [← same, ← h, lawful.decrypt_encrypt, Option.map_some']
    exact ⟨_, rfl, ⟨rfl, ck, rfl, fun _ => rfl⟩⟩
  · have unkeyed : b.cipherstate.hasKey = false := by rw [← key]; simpa using keyed
    simp only [keyed, unkeyed, if_false, Bool.false_eq_true]
    exact ⟨_, rfl, ⟨h, ck, by simpa [hasKey] using key, fun k => absurd k keyed⟩⟩

end Agree

end SymmetricState

/-! ## Which keys the other party holds -/

/-- Which keys the reader holds, seen from the party about to write: its own
ephemeral and static keys, and which of the reader's own keys the writer
holds. -/
structure Carried where
  ownE : Bool
  ownS : Bool
  peerE : Bool
  peerS : Bool
  deriving DecidableEq, Repr

namespace Carried

/-- Whether the writer's static (`true`) or ephemeral key is held by the reader. -/
def own (c : Carried) (isS : Bool) : Bool := if isS then c.ownS else c.ownE

/-- Whether the reader's static (`true`) or ephemeral key is held by the writer. -/
def peer (c : Carried) (isS : Bool) : Bool := if isS then c.peerS else c.peerE

/-- After a message the reader writes. -/
def swap (c : Carried) : Carried := ⟨c.peerE, c.peerS, c.ownE, c.ownS⟩

@[simp] theorem swap_own (c : Carried) (isS : Bool) : c.swap.own isS = c.peer isS := by
  cases isS <;> rfl

@[simp] theorem swap_peer (c : Carried) (isS : Bool) : c.swap.peer isS = c.own isS := by
  cases isS <;> rfl

/-- A DH token of the writer, `dh(local_s, remote_s)`: the writer's own key
and the reader's key must both be held by the other party. -/
def dh (c : Carried) (localS remoteS : Bool) : Option Carried :=
  if c.own localS && c.peer remoteS then some c else none

/-- What one token of the writer adds: `E` and `S` carry the writer's keys,
a PSK token needs nothing, and a DH token needs the keys `writeToken` reads. -/
def token (c : Carried) : Token → Option Carried
  | .E => some { c with ownE := true }
  | .S => some { c with ownS := true }
  | .Psk _ => some c
  | .Dhee => c.dh false false
  | .Dhes => c.dh false true
  | .Dhse => c.dh true false
  | .Dhss => c.dh true true

/-- The tokens of one message, in order; `none` when a DH token comes too
early. -/
def message (c : Carried) : List Token → Option Carried
  | [] => some c
  | t :: ts => (c.token t).bind fun c => c.message ts

/-- The messages of a handshake, the roles swapped after each. -/
def messages (c : Carried) : List (List Token) → Bool
  | [] => true
  | ts :: rest =>
    match c.message ts with
    | none => false
    | some c => c.swap.messages rest

/-- The keys carried once the messages `ms` are through, seen from the party
to write next; `none` when a DH token comes too early. -/
def after (c : Carried) : List (List Token) → Option Carried
  | [] => some c
  | ts :: rest => (c.message ts).bind fun c => c.swap.after rest

/-- The keys the pre-messages carry, seen from the initiator, which writes
first. -/
def premsg (tokens : HandshakeTokens) : Carried :=
  ⟨decide (Token.E ∈ tokens.premsgPatternI), decide (Token.S ∈ tokens.premsgPatternI),
    decide (Token.E ∈ tokens.premsgPatternR), decide (Token.S ∈ tokens.premsgPatternR)⟩

/-- `X`: `es` and `ss` follow the `e` and `s` of the initiator and the
responder's static key of the pre-message. -/
example :
    (premsg ⟨[], [.S], [[.E, .Dhes, .S, .Dhss]]⟩).messages [[.E, .Dhes, .S, .Dhss]] = true := by
  decide

/-- After `X`'s message the responder, next to write, holds the initiator's
keys, and the initiator holds the responder's static key. -/
example : (premsg ⟨[], [.S], [[.E, .Dhes, .S, .Dhss]]⟩).after [[.E, .Dhes, .S, .Dhss]] =
    some ⟨false, true, true, true⟩ := by
  decide

/-- `XX` as the Noise specification writes it: the responder's `es` is the
initiator's ephemeral key and the responder's static key, which this code
reads as `se` from the responder's side. -/
example :
    (premsg ⟨[], [], []⟩).messages [[.E], [.E, .Dhee, .S, .Dhes], [.S, .Dhse]] = false := by
  decide

example :
    (premsg ⟨[], [], []⟩).messages [[.E], [.E, .Dhee, .S, .Dhse], [.S, .Dhse]] = true := by
  decide

theorem token_dh {c c' : Carried} {localS remoteS : Bool} (h : c.dh localS remoteS = some c') :
    c' = c ∧ c.own localS = true ∧ c.peer remoteS = true := by
  unfold dh at h
  split at h
  · cases h; simp_all
  · cases h

theorem message_cons {c c' : Carried} {t : Token} {ts : List Token}
    (h : c.message (t :: ts) = some c') :
    ∃ c₁, c.token t = some c₁ ∧ c₁.message ts = some c' :=
  Option.bind_eq_some.mp h

theorem messages_cons {c : Carried} {ts : List Token} {rest : List (List Token)}
    (h : c.messages (ts :: rest) = true) :
    ∃ c', c.message ts = some c' ∧ c'.swap.messages rest = true := by
  unfold messages at h
  split at h
  · cases h
  · exact ⟨_, ‹_›, h⟩

/-- One message more: the keys carried after it, from the other side. -/
theorem after_take_succ {c : Carried} {ms : List (List Token)} {k : Nat} {ts : List Token}
    (index : ms[k]? = some ts) :
    c.after (ms.take (k + 1)) = (c.after (ms.take k)).bind fun c => (c.message ts).map swap := by
  rw [List.take_succ, index, Option.toList_some]
  generalize ms.take k = front
  induction front generalizing c with
  | nil =>
    show (c.message ts).bind _ = (c.message ts).map swap
    cases c.message ts <;> rfl
  | cons ts' front ih =>
    show (c.message ts').bind _ = ((c.message ts').bind _).bind _
    cases c.message ts' with
    | none => rfl
    | some c₁ => exact ih

end Carried

/-- The remote buffer `buf` holds the public key of the slot `key`: both are on,
and the buffer starts with the key's public key. -/
def Holds (P : Primitives) (buf : Toggle DhBuf) (key : Toggle Dh) : Prop :=
  key.isOn = true ∧ buf.isOn = true ∧ buf.inner.bytes.take key.inner.pubLen = key.inner.pubkey P

/-- Under the contract, two keys of one DH function agree from both ends when
each remote buffer starts with the other's public key. -/
theorem Dh.dh_agree {P : Primitives} (lawful : P.Lawful) {a b : Dh} (same : a.choice = b.choice)
    {bufA bufB : Bytes} (holdsA : bufB.take a.pubLen = a.pubkey P)
    (holdsB : bufA.take b.pubLen = b.pubkey P) : a.dh P bufA = b.dh P bufB := by
  unfold Dh.pubLen Dh.pubkey at holdsA holdsB
  calc a.dh P bufA = P.dh b.choice a.privkey (P.pubkey b.choice b.privkey) := by
        rw [Dh.dh, lawful.dh_take, same, holdsB]
    _ = P.dh b.choice b.privkey (P.pubkey b.choice a.privkey) := lawful.dh_comm _ _ _
    _ = b.dh P bufB := by rw [Dh.dh, lawful.dh_take b.choice b.privkey bufB, ← same, holdsA]

namespace HandshakeState

/-- The slot `dh(local_s, _)` reads: `s` or `e`. -/
def localKey (hs : HandshakeState) (isS : Bool) : Toggle Dh := if isS then hs.s else hs.e

/-- The buffer `dh(_, remote_s)` reads: `rs` or `re`. -/
def remoteKey (hs : HandshakeState) (isS : Bool) : Toggle DhBuf := if isS then hs.rs else hs.re

variable {P : Primitives}

/-- The writer's `dh(local_s, remote_s)` and the reader's `dh(remote_s,
local_s)` agree when each uses a key the other holds. -/
theorem dh_of_holds (lawful : P.Lawful) {w r : HandshakeState} {localS remoteS : Bool}
    (same : (w.localKey localS).inner.choice = (r.localKey remoteS).inner.choice)
    (mine : Holds P (r.remoteKey localS) (w.localKey localS))
    (theirs : Holds P (w.remoteKey remoteS) (r.localKey remoteS)) :
    r.dh P remoteS localS = w.dh P localS remoteS := by
  obtain ⟨wOn, rBufOn, rBuf⟩ := mine
  obtain ⟨rOn, wBufOn, wBuf⟩ := theirs
  have agree := Dh.dh_agree lawful same.symm wBuf rBuf
  cases localS <;> cases remoteS <;> simp_all [dh, localKey, remoteKey]

/-! ## The reader's fields -/

/-- The reader's `E` on a field of `dh_len` bytes: `re` starts with the field
and is on, and the field is mixed as the writer mixed it. -/
theorem readToken_E {r : HandshakeState} {dhLen : Nat} {field rest : Bytes}
    (short : dhLen ≤ MAXDHLEN) (len : field.length = dhLen) :
    r.readToken P dhLen (field ++ rest) .E = .ok rest { r with
      re := { r.re with inner := r.re.inner.setPrefix field }.enable
      symmetricstate := if r.params.handshake.isPsk then
          (r.symmetricstate.mixHash P field).mixKey P field
        else r.symmetricstate.mixHash P field } := by
  subst len
  simp only [readToken, List.length_append, List.take_left, List.drop_left,
    DhBuf.take_setPrefix _ short]
  rw [if_neg (by omega)]

/-- The reader's `S` on a field that decrypts to `dh_len` bytes: `rs` starts
with the plaintext and is on, and the field is mixed. -/
theorem readToken_S {r : HandshakeState} {dhLen : Nat} {field rest plaintext : Bytes}
    {cs : CipherState} (short : dhLen ≤ MAXDHLEN)
    (len : field.length = if r.symmetricstate.hasKey then dhLen + TAGLEN else dhLen)
    (decrypted : r.symmetricstate.decrypt P field = some (plaintext, cs))
    (plainLen : plaintext.length = dhLen) :
    r.readToken P dhLen (field ++ rest) .S = .ok rest { r with
      rs := { r.rs with inner := r.rs.inner.setPrefix plaintext }.enable
      symmetricstate := { r.symmetricstate with cipherstate := cs }.mixHash P field } := by
  have fitsOut : plaintext.length ≤ (r.rs.inner.bytes.take dhLen).length := by
    rw [List.length_take, r.rs.inner.length_eq]; omega
  have opened := (SymmetricState.decryptAndMixHash_eq_ok P).mpr
    ⟨plaintext, cs, decrypted, fitsOut, rfl, rfl, rfl⟩
  simp only [readToken, List.length_append, ← len]
  rw [if_neg (by omega), List.take_left, List.drop_left, opened]
  have filled : (r.rs.inner.bytes.take dhLen).drop plaintext.length = [] :=
    List.drop_eq_nil_of_le (by rw [List.length_take]; omega)
  rw [filled, List.append_nil]

end HandshakeState

open HandshakeState

/-! ## One token -/

/-- The writer `w` and the reader `r` at the same token of a message: their
symmetric states agree, they mix `E` alike, their key slots belong to the DH
function `dh`, every key `c` counts as held is where the other party's DH
looks for it, and every remote buffer that is on starts with the other
party's key. -/
structure TokenAgreement (P : Primitives) (dh : DHChoice) (c : Carried) (w r : HandshakeState) :
    Prop where
  symmetricstate : w.symmetricstate.Agree r.symmetricstate
  isPsk : w.params.handshake.isPsk = r.params.handshake.isPsk
  choice : w.s.inner.choice = dh ∧ w.e.inner.choice = dh ∧ r.s.inner.choice = dh ∧
    r.e.inner.choice = dh
  own : ∀ isS, c.own isS = true → Holds P (r.remoteKey isS) (w.localKey isS)
  peer : ∀ isS, c.peer isS = true → Holds P (w.remoteKey isS) (r.localKey isS)
  ownOn : ∀ isS, (r.remoteKey isS).isOn = true →
    (r.remoteKey isS).inner.bytes.take dh.pubLen = (w.localKey isS).inner.pubkey P
  peerOn : ∀ isS, (w.remoteKey isS).isOn = true →
    (w.remoteKey isS).inner.bytes.take dh.pubLen = (r.localKey isS).inner.pubkey P

namespace TokenAgreement

variable {P : Primitives} {dh : DHChoice} {c c' : Carried} {w r w' : HandshakeState}

theorem localKey_choice (agree : TokenAgreement P dh c w r) (localS remoteS : Bool) :
    (w.localKey localS).inner.choice = (r.localKey remoteS).inner.choice := by
  obtain ⟨ws, we, rs, re⟩ := agree.choice
  cases localS <;> cases remoteS <;> simp [localKey, ws, we, rs, re]

/-- Both parties mix the same thing: the relation holds of the states after it. -/
theorem mix (agree : TokenAgreement P dh c w r) {x y : SymmetricState} (xy : x.Agree y) :
    TokenAgreement P dh c { w with symmetricstate := x } { r with symmetricstate := y } :=
  { agree with symmetricstate := xy }

/-- A DH token: the reader computes the writer's secret and mixes it. -/
theorem dhToken (lawful : P.Lawful) (agree : TokenAgreement P dh c w r) {localS remoteS : Bool}
    (own : c.own localS = true) (peer : c.peer remoteS = true) {cursor cursor' : Bytes × Nat}
    (write : w.dhToken P dh.pubLen localS remoteS cursor = .ok cursor' w') :
    cursor' = cursor ∧
      ∃ r', (∀ ptr : Bytes, r.dhToken P dh.pubLen remoteS localS ptr = .ok ptr r') ∧
        TokenAgreement P dh c w' r' := by
  obtain ⟨rfl, dhOut, written, rfl⟩ := dhToken_eq_ok P write
  have read : r.dh P remoteS localS = .ok dhOut :=
    (dh_of_holds lawful (agree.localKey_choice localS remoteS) (agree.own _ own)
      (agree.peer _ peer)).trans written
  exact ⟨rfl, _, fun ptr => by simp only [HandshakeState.dhToken, read],
    agree.mix (agree.symmetricstate.mixKey _)⟩

/-- A PSK token: both parties mix the key of the same slot. -/
theorem pskToken (agree : TokenAgreement P dh c w r) {n : UInt8}
    (slot : w.psks.slots[n.toNat]? = r.psks.slots[n.toNat]?) {cursor cursor' : Bytes × Nat}
    (write : w.pskToken P n cursor = .ok cursor' w') :
    cursor' = cursor ∧ ∃ r', (∀ ptr : Bytes, r.pskToken P n ptr = .ok ptr r') ∧
      TokenAgreement P dh c w' r' := by
  obtain ⟨rfl, psk, held, rfl⟩ := pskToken_eq_ok P write
  exact ⟨rfl, _, fun ptr => by simp only [HandshakeState.pskToken, ← slot, held],
    agree.mix (agree.symmetricstate.mixKeyAndHash _)⟩

/-- One token of the writer against the reader: the writer writes a field at
its cursor, the reader reads exactly that field from the front of what is
left, and the relation holds after both, with the keys the token carries. -/
theorem token (lawful : P.Lawful) (agree : TokenAgreement P dh c w r) {token : Token}
    (next : c.token token = some c')
    (psk : ∀ n, token = .Psk n → w.psks.slots[n.toNat]? = r.psks.slots[n.toNat]?)
    {m m' : Bytes} {b b' : Nat} (fits : b ≤ m.length)
    (write : w.writeToken P dh.pubLen m b token = .ok (m', b') w') :
    ∃ field r', writeAt m b field = some m' ∧ b' = b + field.length ∧
      (∀ rest, r.readToken P dh.pubLen (field ++ rest) token = .ok rest r') ∧
      TokenAgreement P dh c' w' r' := by
  have short := DHChoice.pubLen_le dh
  cases token with
  | E =>
    cases next
    simp only [writeToken] at write
    split at write
    · cases write
    split at write
    · cases write
    rename_i written
    cases write
    have keyChoice := ephemeral_choice P w
    generalize (if w.fixedEphemeral = true then (w.e.inner, w.rng)
      else w.e.inner.generate P w.rng) = key at written keyChoice ⊢
    have keyLen : (key.1.pubkey P).length = dh.pubLen := by
      rw [Dh.pubkey_length lawful, Dh.pubLen, keyChoice, agree.choice.2.1]
    have fresh : (r.re.inner.setPrefix (key.1.pubkey P)).bytes.take dh.pubLen = key.1.pubkey P := by
      rw [← keyLen]; exact DhBuf.take_setPrefix _ (keyLen ▸ short)
    refine ⟨_, _, written, rfl, fun rest => readToken_E short keyLen, ?_, agree.isPsk,
      ⟨agree.choice.1, keyChoice.trans agree.choice.2.1, agree.choice.2.2⟩, ?_, agree.peer, ?_,
      agree.peerOn⟩
    · rw [agree.isPsk]
      split
      · exact (agree.symmetricstate.mixHash _).mixKey _
      · exact agree.symmetricstate.mixHash _
    · intro isS held
      cases isS
      · refine ⟨rfl, rfl, ?_⟩
        simp only [localKey, remoteKey, Bool.false_eq_true, if_false, Toggle.enable_inner]
        rw [← Dh.pubkey_length lawful]
        exact DhBuf.take_setPrefix _ (keyLen ▸ short)
      · exact agree.own true held
    · intro isS bufOn
      cases isS
      · exact fresh
      · exact agree.ownOn true bufOn
  | S =>
    cases next
    simp only [writeToken] at write
    split at write
    · cases write
    rename_i sOn
    split at write
    · cases write
    split at write
    · cases write
    rename_i encrypted
    cases write
    obtain ⟨fitsCt, rfl, rfl, rfl⟩ := (SymmetricState.encryptAndMixHash_eq_some P).mp encrypted
    obtain ⟨cs, decrypted, agreeCs⟩ :=
      agree.symmetricstate.decrypt_encrypt lawful (w.s.inner.pubkey P)
    have keyLen : (w.s.inner.pubkey P).length = dh.pubLen := by
      rw [Dh.pubkey_length lawful, Dh.pubLen, agree.choice.1]
    have fieldLen : (w.symmetricstate.encrypt P (w.s.inner.pubkey P)).1.length =
        if r.symmetricstate.hasKey then dh.pubLen + TAGLEN else dh.pubLen := by
      rw [SymmetricState.length_encrypt lawful, keyLen, agree.symmetricstate.2.2.1]
      split <;> rfl
    rw [List.length_drop] at fitsCt
    refine ⟨_, _,
      writeAt_eq_some.mpr ⟨by omega, by rw [List.drop_drop, List.append_assoc]⟩, rfl,
      fun rest => readToken_S short fieldLen decrypted keyLen, agreeCs.mixHash _, agree.isPsk,
      agree.choice, ?_, agree.peer, ?_, agree.peerOn⟩
    · intro isS held
      cases isS
      · exact agree.own false held
      · refine ⟨by simpa using sOn, rfl, ?_⟩
        simp only [localKey, remoteKey, if_true, Toggle.enable_inner]
        rw [← Dh.pubkey_length lawful]
        exact DhBuf.take_setPrefix _ (keyLen ▸ short)
    · intro isS bufOn
      cases isS
      · exact agree.ownOn false bufOn
      · show (r.rs.inner.setPrefix (w.s.inner.pubkey P)).bytes.take dh.pubLen = w.s.inner.pubkey P
        rw [← keyLen]
        exact DhBuf.take_setPrefix _ (keyLen ▸ short)
  | Psk n =>
    cases next
    obtain ⟨same, r', read, agree'⟩ := agree.pskToken (psk n rfl) write
    cases same
    exact ⟨[], r', writeAt_nil fits, rfl, read, agree'⟩
  | Dhee | Dhes | Dhse | Dhss =>
    obtain ⟨rfl, own, peer⟩ := Carried.token_dh next
    obtain ⟨same, r', read, agree'⟩ := agree.dhToken lawful own peer write
    cases same
    exact ⟨[], r', writeAt_nil fits, rfl, read, agree'⟩

/-- The token loop: the writer writes the fields of the message one after the
other from its cursor, and the reader reads them in order. -/
theorem tokens (lawful : P.Lawful) {ts : List Token} (agree : TokenAgreement P dh c w r)
    (next : c.message ts = some c')
    (psk : ∀ n, Token.Psk n ∈ ts → w.psks.slots[n.toNat]? = r.psks.slots[n.toNat]?)
    {m m' : Bytes} {b b' : Nat} (fits : b ≤ m.length)
    (write : w.writeTokens P dh.pubLen m b ts = .ok (m', b') w') :
    ∃ fields r', writeAt m b fields = some m' ∧ b' = b + fields.length ∧
      (∀ rest, r.readTokens P dh.pubLen (fields ++ rest) ts = .ok rest r') ∧
      TokenAgreement P dh c' w' r' := by
  induction ts generalizing c w r m b with
  | nil =>
    cases next
    cases write
    exact ⟨[], r, writeAt_nil fits, rfl, fun _ => rfl, agree⟩
  | cons t ts ih =>
    obtain ⟨c₁, first, after⟩ := Carried.message_cons next
    rw [writeTokens] at write
    obtain ⟨⟨m₁, b₁⟩, w₁, step, loop⟩ := Outcome.bind_eq_ok.mp write
    obtain ⟨field, r₁, written, rfl, read, agree₁⟩ :=
      agree.token lawful first (fun n h => psk n (h ▸ List.mem_cons_self _ _)) fits step
    have wFrame := writeToken_frame P (by rw [step]; rfl)
    have rFrame := readToken_frame P (by rw [read []]; rfl)
    have fits₁ := (writeAt_eq_some.mp written).1
    rw [← length_of_writeAt written] at fits₁
    obtain ⟨fields, r', written', rfl, read', agree'⟩ := ih agree₁ after
      (fun n h => by rw [wFrame.psks, rFrame.psks]; exact psk n (List.mem_cons_of_mem _ h))
      fits₁ loop
    refine ⟨field ++ fields, r', writeAt_append written written',
      by rw [List.length_append, Nat.add_assoc], fun rest => ?_, agree'⟩
    rw [readTokens, List.append_assoc, read, Outcome.ok_bind, read']

/-- The payload: the writer writes its ciphertext at the cursor, and the reader
decrypts it into any buffer large enough for the payload, and panics on a
smaller one; the two symmetric states after it agree. -/
theorem payload (lawful : P.Lawful) (agree : TokenAgreement P dh c w r) (last : Bool)
    {payload m m' : Bytes} {b n : Nat} (write : w.writePayload P payload m b = .ok (n, m') w') :
    ∃ ct ssw ssr, writeAt m b ct = some m' ∧ n = b + ct.length ∧ n ≤ MAXMSGLEN ∧
      w' = { w with
        symmetricstate := ssw
        cipherstates := if w.patternPosition = w.messagePatterns.length - 1 then
          ssw.split P w.cipherstates else w.cipherstates
        myTurn := false } ∧
      ssr.Agree ssw ∧
      ∀ out, r.readPayload P last ct out =
        if payload.length ≤ out.length then
          .ok (payload.length, payload ++ out.drop payload.length)
            ({ r with symmetricstate := ssr, myTurn := true }.splitIf P last)
        else .panic := by
  unfold writePayload at write
  split at write
  · cases write
  split at write
  · cases write
  rename_i encrypted
  split at write
  · cases write
  rename_i bounded
  cases write
  obtain ⟨fitsCt, rfl, rfl, rfl⟩ := (SymmetricState.encryptAndMixHash_eq_some P).mp encrypted
  obtain ⟨cs, decrypted, agreeCs⟩ := agree.symmetricstate.decrypt_encrypt lawful payload
  rw [List.length_drop] at fitsCt
  refine ⟨_,
    { w.symmetricstate with cipherstate := (w.symmetricstate.encrypt P payload).2 }.mixHash P
      (w.symmetricstate.encrypt P payload).1, _,
    writeAt_eq_some.mpr ⟨by omega, by rw [List.drop_drop, List.append_assoc]⟩, rfl, by omega,
    by simp only [splitIf_eq, decide_eq_true_eq], (agreeCs.mixHash _).symm, fun out => ?_⟩
  have keyed : cs.hasKey = w.symmetricstate.hasKey :=
    (SymmetricState.hasKey_of_decrypt P decrypted).trans agree.symmetricstate.2.2.1.symm
  have ctLen := SymmetricState.length_encrypt lawful w.symmetricstate payload
  split
  · rename_i fitsOut
    have opened := (SymmetricState.decryptAndMixHash_eq_ok P).mpr
      ⟨payload, cs, decrypted, fitsOut, rfl, rfl, rfl⟩
    simp only [readPayload, opened, splitIf_eq, SymmetricState.hasKey_mixHash,
      SymmetricState.hasKey_mk, keyed]
    split
    · rename_i hasKey
      simp only [hasKey, if_true] at ctLen
      rw [if_neg (by unfold TAGLEN at ctLen ⊢; omega), ctLen, Nat.add_sub_cancel]
    · rename_i hasKey
      simp only [hasKey, Bool.false_eq_true, if_false, Nat.add_zero] at ctLen
      rw [ctLen]
  · rename_i small
    have unwritten : writeAt out 0 payload = none := writeAt_eq_none.mpr (by omega)
    simp only [readPayload, SymmetricState.decryptAndMixHash, decrypted, unwritten]

end TokenAgreement

/-! ## One message -/

/-- Two parties between messages, `w` about to write and `r` about to read:
they agree token by token, are at the same position of the same messages
with the turn on `w`, hold the same PSK for every PSK token, the messages
still to come use only keys the other party will hold, and once the last
message is through they hold the same transport pair. -/
structure Agreement (P : Primitives) (dh : DHChoice) (c : Carried) (w r : HandshakeState)
    extends TokenAgreement P dh c w r : Prop where
  patternPosition : w.patternPosition = r.patternPosition
  messagePatterns : w.messagePatterns = r.messagePatterns
  psks : ∀ ts ∈ w.messagePatterns, ∀ n, Token.Psk n ∈ ts →
    w.psks.slots[n.toNat]? = r.psks.slots[n.toNat]?
  myTurn : w.myTurn = true ∧ r.myTurn = false
  carries : c.messages (w.messagePatterns.drop w.patternPosition) = true
  cipherstates : w.patternPosition = w.messagePatterns.length → 0 < w.patternPosition →
    w.cipherstates = r.cipherstates

namespace Agreement

variable {P : Primitives} {dh : DHChoice} {c : Carried} {w r w' : HandshakeState}

theorem dhLen_eq (agree : Agreement P dh c w r) : w.dhLen = dh.pubLen ∧ r.dhLen = dh.pubLen := by
  simp only [HandshakeState.dhLen, Dh.pubLen, agree.choice.1, agree.choice.2.2.1, and_self]

/-- A message: whatever the writer writes, the reader reads from the bytes
written, returning the payload into any buffer large enough for it and
panicking on a smaller one, and the two parties agree again with the roles
swapped. -/
theorem message (lawful : P.Lawful) (agree : Agreement P dh c w r) {payload buf buf' : Bytes}
    {n : Nat} (write : w.writeHandshakeMessage P payload buf = .ok (n, buf') w') :
    ∃ c' r', (∃ tokens, w.messagePatterns[w.patternPosition]? = some tokens ∧
        c.message tokens = some c') ∧
      (∀ out, r.readHandshakeMessage P (buf'.take n) out =
        if payload.length ≤ out.length then .ok (payload.length, payload ++ out.drop payload.length) r'
        else .panic) ∧
      Agreement P dh c'.swap r' w' := by
  obtain ⟨tokens, ⟨m₁, b₁⟩, w₁, w₂, index, loop, paid, rfl⟩ :=
    writeHandshakeMessage_eq_ok P write
  obtain ⟨inside, listed⟩ := List.getElem?_eq_some_iff.mp index
  have later : w.messagePatterns.drop w.patternPosition =
      tokens :: w.messagePatterns.drop (w.patternPosition + 1) := by
    rw [List.drop_eq_getElem_cons inside, listed]
  have carries := agree.carries
  rw [later] at carries
  obtain ⟨c₁, next, after⟩ := Carried.messages_cons carries
  rw [agree.dhLen_eq.1] at loop
  obtain ⟨fields, r₁, written, rfl, read, agree₁⟩ :=
    agree.toTokenAgreement.tokens lawful next
      (fun n mem => agree.psks tokens (List.getElem?_mem index) n mem) (Nat.zero_le _) loop
  have wFrame := writeTokens_frame P (by rw [loop]; rfl)
  have rFrame := readTokens_frame P (by rw [read []]; rfl)
  obtain ⟨ct, ssw, ssr, written', rfl, bounded, rfl, agreeSs, readPaid⟩ :=
    agree₁.payload lawful
      (decide (r.patternPosition = r.messagePatterns.length - 1)) paid
  have sent : buf'.take (0 + fields.length + ct.length) = fields ++ ct := by
    obtain ⟨-, rfl⟩ := writeAt_eq_some.mp (writeAt_append written written')
    rw [List.take_zero, List.nil_append, Nat.zero_add, ← List.length_append, List.take_left]
  have rIndex : r.messagePatterns[r.patternPosition]? = some tokens := by
    rw [← agree.messagePatterns, ← agree.patternPosition]; exact index
  have rInside : r.patternPosition < r.messagePatterns.length :=
    (List.getElem?_eq_some_iff.mp rIndex).1
  refine ⟨c₁, { r₁ with
      symmetricstate := ssr
      cipherstates := if r.patternPosition = r.messagePatterns.length - 1 then
        ssr.split P r₁.cipherstates else r₁.cipherstates
      myTurn := true
      patternPosition := r₁.patternPosition + 1 }, ⟨tokens, index, next⟩, fun out => ?_, ?_⟩
  · have inner : r._readHandshakeMessage P (fields ++ ct) out =
        r₁.readPayload P (decide (r.patternPosition = r.messagePatterns.length - 1)) ct out := by
      unfold _readHandshakeMessage
      rw [if_neg (by rw [List.length_append]; omega), if_neg (by omega), rIndex]
      dsimp only
      rw [agree.dhLen_eq.2, read ct, Outcome.ok_bind]
    unfold readHandshakeMessage
    rw [sent, inner, readPaid out]
    by_cases fitsOut : payload.length ≤ out.length
    · simp only [if_pos fitsOut, splitIf_eq, decide_eq_true_eq]
    · simp only [if_neg fitsOut]
  · have position : r₁.patternPosition = w₁.patternPosition := by
      rw [rFrame.patternPosition, wFrame.patternPosition, agree.patternPosition]
    have patterns : r₁.messagePatterns = w₁.messagePatterns := by
      rw [rFrame.messagePatterns, wFrame.messagePatterns, agree.messagePatterns]
    exact {
      symmetricstate := agreeSs
      isPsk := agree₁.isPsk.symm
      choice :=
        ⟨agree₁.choice.2.2.1, agree₁.choice.2.2.2, agree₁.choice.1, agree₁.choice.2.1⟩
      own := fun isS held => agree₁.peer isS (by simpa using held)
      peer := fun isS held => agree₁.own isS (by simpa using held)
      ownOn := agree₁.peerOn
      peerOn := agree₁.ownOn
      patternPosition := congrArg (· + 1) position
      messagePatterns := patterns
      psks := fun ts mem n held => by
        show r₁.psks.slots[n.toNat]? = w₁.psks.slots[n.toNat]?
        rw [rFrame.psks, wFrame.psks]
        refine (agree.psks ts ?_ n held).symm
        rwa [agree.messagePatterns, ← rFrame.messagePatterns]
      myTurn := ⟨rfl, rfl⟩
      carries := by
        show c₁.swap.messages (r₁.messagePatterns.drop (r₁.patternPosition + 1)) = true
        rwa [rFrame.messagePatterns, rFrame.patternPosition, ← agree.messagePatterns,
          ← agree.patternPosition]
      cipherstates := fun finished _ => by
        have last : r.patternPosition = r.messagePatterns.length - 1 := by
          have : r₁.patternPosition + 1 = r₁.messagePatterns.length := finished
          rw [rFrame.patternPosition, rFrame.messagePatterns] at this
          omega
        show (if r.patternPosition = r.messagePatterns.length - 1 then ssr.split P r₁.cipherstates
            else r₁.cipherstates) =
          if w₁.patternPosition = w₁.messagePatterns.length - 1 then ssw.split P w₁.cipherstates
            else w₁.cipherstates
        have last₁ : w₁.patternPosition = w₁.messagePatterns.length - 1 := by
          rw [← position, ← patterns, rFrame.patternPosition, rFrame.messagePatterns]
          exact last
        rw [if_pos last, if_pos last₁]
        exact agreeSs.split _ _ }

end Agreement

/-! ## The start -/

namespace HandshakeState

variable {P : Primitives}

/-- A pre-message token read by the party it belongs to and by the other
party: the same key, when the other party's buffer holds the owner's public
key, and both slots are on. -/
theorem premsgKey_agree {sA eA sB eB : Toggle Dh} {rsA reA rsB reB : Toggle DhBuf} {dA d : Nat}
    {t : Token} {k₁ k₂ : Bytes}
    (sKey : rsB.isOn = true → rsB.inner.bytes.take d = sA.inner.pubkey P)
    (eKey : reB.isOn = true → reB.inner.bytes.take d = eA.inner.pubkey P)
    (own : premsgKey P true sA eA rsA reA dA t = .ok k₁)
    (remote : premsgKey P false sB eB rsB reB d t = .ok k₂) :
    k₁ = k₂ ∧ (t = .S → sA.isOn = true ∧ rsB.isOn = true) ∧
      (t = .E → eA.isOn = true ∧ reB.isOn = true) := by
  cases t with
  | S =>
    simp only [premsgKey, ↓reduceIte, Bool.false_eq_true] at own remote
    split at own <;> split at remote <;> cases own <;> cases remote
    rename_i key held _ buf heldBuf
    obtain ⟨sOn, rfl⟩ := Toggle.get_eq_some.mp held
    obtain ⟨rsOn, rfl⟩ := Toggle.get_eq_some.mp heldBuf
    exact ⟨(sKey rsOn).symm, fun _ => ⟨sOn, rsOn⟩, fun h => by cases h⟩
  | E =>
    simp only [premsgKey, ↓reduceIte, Bool.false_eq_true] at own remote
    split at own <;> split at remote <;> cases own <;> cases remote
    rename_i key held _ buf heldBuf
    obtain ⟨eOn, rfl⟩ := Toggle.get_eq_some.mp held
    obtain ⟨reOn, rfl⟩ := Toggle.get_eq_some.mp heldBuf
    exact ⟨(eKey reOn).symm, (fun h => by cases h), fun _ => ⟨eOn, reOn⟩⟩
  | _ => cases own

/-- A pre-message pattern mixed by the party it belongs to and by the other
party: states that agreed still agree, and every key the pattern names is on
at both ends. -/
theorem mixPremsg_agree {sA eA sB eB : Toggle Dh} {rsA reA rsB reB : Toggle DhBuf} {dA d : Nat}
    (sKey : rsB.isOn = true → rsB.inner.bytes.take d = sA.inner.pubkey P)
    (eKey : reB.isOn = true → reB.inner.bytes.take d = eA.inner.pubkey P)
    {ts : List Token} {x y x' y' : SymmetricState} (start : x.Agree y)
    (own : mixPremsg P true sA eA rsA reA dA x ts = .ok x')
    (remote : mixPremsg P false sB eB rsB reB d y ts = .ok y') :
    x'.Agree y' ∧ (Token.S ∈ ts → sA.isOn = true ∧ rsB.isOn = true) ∧
      (Token.E ∈ ts → eA.isOn = true ∧ reB.isOn = true) := by
  induction ts generalizing x y with
  | nil =>
    cases own
    cases remote
    exact ⟨start, fun h => absurd h (List.not_mem_nil _),
      fun h => absurd h (List.not_mem_nil _)⟩
  | cons t ts ih =>
    obtain ⟨k₁, key₁, own⟩ := Result.bind_eq_ok.mp own
    obtain ⟨k₂, key₂, remote⟩ := Result.bind_eq_ok.mp remote
    obtain ⟨rfl, sFirst, eFirst⟩ := premsgKey_agree sKey eKey key₁ key₂
    obtain ⟨agree, sRest, eRest⟩ := ih (start.mixHash k₁) own remote
    refine ⟨agree, fun mem => ?_, fun mem => ?_⟩
    · rcases List.mem_cons.mp mem with rfl | mem
      · exact sFirst rfl
      · exact sRest mem
    · rcases List.mem_cons.mp mem with rfl | mem
      · exact eFirst rfl
      · exact eRest mem

/-- Inversion of `new` at `Ok`: the expander's tokens, the two pre-message
patterns mixed in order, and the state built from them. -/
theorem new_eq_ok {expand : HandshakeChoice → Except Error HandshakeTokens} {rng : Nat}
    {cipherstate : CipherState} {s e : Toggle Dh} {fixedEphemeral : Bool} {rs re : Toggle DhBuf}
    {initiator : Bool} {params : NoiseParams} {psks : Psks} {prologue : Bytes}
    {cipherstates : CipherStates} {hs : HandshakeState}
    (h : new P expand rng cipherstate s e fixedEphemeral rs re initiator params psks prologue
      cipherstates = .ok hs) :
    ∃ tokens ss ss', expand params.handshake = .ok tokens ∧
      mixPremsg P initiator s e rs re s.inner.pubLen
        (((SymmetricState.new cipherstate).initialise P (nameBytes params.name)).mixHash P prologue)
        tokens.premsgPatternI = .ok ss ∧
      mixPremsg P (!initiator) s e rs re s.inner.pubLen ss tokens.premsgPatternR = .ok ss' ∧
      hs = { rng, symmetricstate := ss', cipherstates, s, e, fixedEphemeral, rs, re, initiator,
             params, psks, myTurn := initiator, messagePatterns := tokens.msgPatterns,
             patternPosition := 0 } := by
  unfold new at h
  split at h
  · cases h
  split at h
  · cases h
  rename_i tokens expanded
  obtain ⟨ss', mixed, built⟩ := Result.bind_eq_ok.mp h
  obtain ⟨ss, first, second⟩ := Result.bind_eq_ok.mp mixed
  cases built
  exact ⟨tokens, ss, ss', expanded, first, second, rfl⟩

/-- The static slot, the PSKs and the messages of the state `new` builds. -/
theorem new_fields {expand : HandshakeChoice → Except Error HandshakeTokens} {rng : Nat}
    {cipherstate : CipherState} {s e : Toggle Dh} {fixedEphemeral : Bool} {rs re : Toggle DhBuf}
    {initiator : Bool} {params : NoiseParams} {psks : Psks} {prologue : Bytes}
    {cipherstates : CipherStates} {tokens : HandshakeTokens} {hs : HandshakeState}
    (expanded : expand params.handshake = .ok tokens)
    (h : new P expand rng cipherstate s e fixedEphemeral rs re initiator params psks prologue
      cipherstates = .ok hs) :
    hs.s = s ∧ hs.psks = psks ∧ hs.messagePatterns = tokens.msgPatterns := by
  obtain ⟨tokens', -, -, expanded', -, -, rfl⟩ := new_eq_ok h
  rw [expanded] at expanded'
  cases expanded'
  exact ⟨rfl, rfl, rfl⟩

end HandshakeState

/-- `initialize` and the prologue: the same name and prologue give states that
agree, whatever cipher state each party was built over. -/
theorem SymmetricState.initialise_agree (P : Primitives) (name prologue : Bytes)
    (cs cs' : CipherState) :
    (((SymmetricState.new cs).initialise P name).mixHash P prologue).Agree
      (((SymmetricState.new cs').initialise P name).mixHash P prologue) :=
  ⟨rfl, rfl, rfl, fun keyed => absurd keyed Bool.false_ne_true⟩

/-- A buffer that holds a key, from the key's slot, the buffer's on bit and the
consistency of the two. -/
theorem Holds.of_consistent {P : Primitives} {dh : DHChoice} {buf : Toggle DhBuf} {key : Toggle Dh}
    (choice : key.inner.choice = dh) (keyOn : key.isOn = true) (bufOn : buf.isOn = true)
    (consistent : buf.isOn = true → buf.inner.bytes.take dh.pubLen = key.inner.pubkey P) :
    Holds P buf key :=
  ⟨keyOn, bufOn, by rw [Dh.pubLen, choice]; exact consistent bufOn⟩

section Start

variable {P : Primitives} {expand : HandshakeChoice → Except Error HandshakeTokens}
  {params : NoiseParams} {dh : DHChoice} {tokens : HandshakeTokens} {prologue : Bytes}
  {rngI rngR : Nat} {csI csR : CipherState} {sI eI sR eR : Toggle Dh} {fixedI fixedR : Bool}
  {rsI reI rsR reR : Toggle DhBuf} {psksI psksR : Psks} {cssI cssR : CipherStates}
  {i₀ r₀ : HandshakeState}

/-- Two parties that `new` builds from the same parameters and prologue, with
keys of one DH function, remote buffers that hold the other
party's keys where they are on, and the same PSK for every PSK token, agree
before the first message, with the keys of the pre-messages carried. -/
theorem Agreement.start (expanded : expand params.handshake = .ok tokens)
    (ordered : (Carried.premsg tokens).messages tokens.msgPatterns = true)
    (choice : sI.inner.choice = dh ∧ eI.inner.choice = dh ∧
      sR.inner.choice = dh ∧ eR.inner.choice = dh)
    (premsgKeys : (rsI.isOn = true → rsI.inner.bytes.take dh.pubLen = sR.inner.pubkey P) ∧
      (reI.isOn = true → reI.inner.bytes.take dh.pubLen = eR.inner.pubkey P) ∧
      (rsR.isOn = true → rsR.inner.bytes.take dh.pubLen = sI.inner.pubkey P) ∧
      (reR.isOn = true → reR.inner.bytes.take dh.pubLen = eI.inner.pubkey P))
    (psks : ∀ ts ∈ tokens.msgPatterns, ∀ n, Token.Psk n ∈ ts →
      psksI.slots[n.toNat]? = psksR.slots[n.toNat]?)
    (initiator : HandshakeState.new P expand rngI csI sI eI fixedI rsI reI true params psksI
      prologue cssI = .ok i₀)
    (responder : HandshakeState.new P expand rngR csR sR eR fixedR rsR reR false params psksR
      prologue cssR = .ok r₀) :
    Agreement P dh (Carried.premsg tokens) i₀ r₀ := by
  obtain ⟨tokensI, ssI, ssI', expandedI, firstI, secondI, rfl⟩ := new_eq_ok initiator
  obtain ⟨tokensR, ssR, ssR', expandedR, firstR, secondR, rfl⟩ := new_eq_ok responder
  rw [expanded] at expandedI expandedR
  cases expandedI
  cases expandedR
  obtain ⟨rsIKey, reIKey, rsRKey, reRKey⟩ := premsgKeys
  have dI : sI.inner.pubLen = dh.pubLen := by rw [Dh.pubLen, choice.1]
  have dR : sR.inner.pubLen = dh.pubLen := by rw [Dh.pubLen, choice.2.2.1]
  rw [dI] at firstI secondI
  rw [dR] at firstR secondR
  obtain ⟨agreeI, sIOn, eIOn⟩ := mixPremsg_agree rsRKey reRKey
    (SymmetricState.initialise_agree P _ prologue csI csR) firstI firstR
  obtain ⟨agreeR, sROn, eROn⟩ := mixPremsg_agree rsIKey reIKey agreeI.symm secondR secondI
  refine {
    symmetricstate := agreeR.symm
    isPsk := rfl
    choice := choice
    own := fun isS held => ?_
    peer := fun isS held => ?_
    ownOn := fun isS => by cases isS; exacts [reRKey, rsRKey]
    peerOn := fun isS => by cases isS; exacts [reIKey, rsIKey]
    patternPosition := rfl
    messagePatterns := rfl
    psks := psks
    myTurn := ⟨rfl, rfl⟩
    carries := ordered
    cipherstates := fun _ started => absurd started (Nat.lt_irrefl 0) }
  · cases isS
    · obtain ⟨keyOn, bufOn⟩ := eIOn (by simpa [Carried.own, Carried.premsg] using held)
      exact Holds.of_consistent choice.2.1 keyOn bufOn reRKey
    · obtain ⟨keyOn, bufOn⟩ := sIOn (by simpa [Carried.own, Carried.premsg] using held)
      exact Holds.of_consistent choice.1 keyOn bufOn rsRKey
  · cases isS
    · obtain ⟨keyOn, bufOn⟩ := eROn (by simpa [Carried.peer, Carried.premsg] using held)
      exact Holds.of_consistent choice.2.2.2 keyOn bufOn reIKey
    · obtain ⟨keyOn, bufOn⟩ := sROn (by simpa [Carried.peer, Carried.premsg] using held)
      exact Holds.of_consistent choice.2.2.1 keyOn bufOn rsIKey

end Start

/-! ## Whole runs -/

/-- The pairs of states a handshake between `i₀` and `r₀` reaches, the party
about to write first: `i₀` writes the first message, and after each message,
written into a buffer and read from the bytes the write returned, the reader
writes next. -/
inductive Session (P : Primitives) (i₀ r₀ : HandshakeState) :
    HandshakeState → HandshakeState → Prop
  | start : Session P i₀ r₀ i₀ r₀
  | message {w r w' r' : HandshakeState} {payload buf buf' out : Bytes} {n : Nat} {v : Nat × Bytes} :
    Session P i₀ r₀ w r → w.writeHandshakeMessage P payload buf = .ok (n, buf') w' →
    r.readHandshakeMessage P (buf'.take n) out = .ok v r' → Session P i₀ r₀ r' w'

/-- Agreement at the start holds at every pair of states a run reaches, with
the messages of the start and the keys that the pre-messages and the messages
so far carry. -/
theorem Session.agreement {P : Primitives} (lawful : P.Lawful) {dh : DHChoice} {c₀ : Carried}
    {i₀ r₀ w r : HandshakeState} (start : Agreement P dh c₀ i₀ r₀)
    (fresh : i₀.patternPosition = 0)
    (session : Session P i₀ r₀ w r) :
    ∃ c, w.messagePatterns = i₀.messagePatterns ∧
      c₀.after (i₀.messagePatterns.take w.patternPosition) = some c ∧
      Agreement P dh c w r := by
  induction session with
  | start => exact ⟨c₀, rfl, by rw [fresh]; rfl, start⟩
  | message _ write read ih =>
    obtain ⟨c, listed, carried, agree⟩ := ih
    obtain ⟨c₁, r', ⟨tokens, index, next⟩, reads, agree'⟩ := agree.message lawful write
    rw [reads] at read
    split at read
    · cases read
      obtain ⟨-, -, position, patterns, -⟩ := writeHandshakeMessage_ok P write
      refine ⟨c₁.swap, by rw [agree'.messagePatterns, patterns, listed], ?_, agree'⟩
      rw [listed] at index
      rw [agree'.patternPosition, position, Carried.after_take_succ index, carried]
      simp only [Option.some_bind, next, Option.map_some']
    · cases read

/-- Two parties that `new` builds from the same parameters and prologue, with
the pre-message and message patterns in order, keys of one DH function,
remote buffers that hold the other party's keys where they are on,
and the same PSK for every PSK token: at every pair of states a run reaches,
the turn is on the writer, the symmetric states agree at the same position,
the transport pairs are equal once the last message is through, and the next
message written is read back with its payload into any buffer large enough,
after which the two agree again. -/
theorem handshake_agreement {P : Primitives} (lawful : P.Lawful)
    {expand : HandshakeChoice → Except Error HandshakeTokens} {params : NoiseParams}
    {dh : DHChoice} {tokens : HandshakeTokens} {prologue : Bytes} {rngI rngR : Nat} {csI csR : CipherState}
    {sI eI sR eR : Toggle Dh} {fixedI fixedR : Bool} {rsI reI rsR reR : Toggle DhBuf}
    {psksI psksR : Psks} {cssI cssR : CipherStates} {i₀ r₀ : HandshakeState}
    (expanded : expand params.handshake = .ok tokens)
    (ordered : (Carried.premsg tokens).messages tokens.msgPatterns = true)
    (choice : sI.inner.choice = dh ∧ eI.inner.choice = dh ∧
      sR.inner.choice = dh ∧ eR.inner.choice = dh)
    (premsgKeys : (rsI.isOn = true → rsI.inner.bytes.take dh.pubLen = sR.inner.pubkey P) ∧
      (reI.isOn = true → reI.inner.bytes.take dh.pubLen = eR.inner.pubkey P) ∧
      (rsR.isOn = true → rsR.inner.bytes.take dh.pubLen = sI.inner.pubkey P) ∧
      (reR.isOn = true → reR.inner.bytes.take dh.pubLen = eI.inner.pubkey P))
    (psks : ∀ ts ∈ tokens.msgPatterns, ∀ n, Token.Psk n ∈ ts →
      psksI.slots[n.toNat]? = psksR.slots[n.toNat]?)
    (initiator : HandshakeState.new P expand rngI csI sI eI fixedI rsI reI true params psksI
      prologue cssI = .ok i₀)
    (responder : HandshakeState.new P expand rngR csR sR eR fixedR rsR reR false params psksR
      prologue cssR = .ok r₀)
    {w r : HandshakeState} (session : Session P i₀ r₀ w r) :
    w.myTurn = true ∧ r.myTurn = false ∧ w.symmetricstate.Agree r.symmetricstate ∧
      w.patternPosition = r.patternPosition ∧
      (w.patternPosition = w.messagePatterns.length → 0 < w.patternPosition →
        w.cipherstates = r.cipherstates) ∧
      ∀ payload buf n buf' w' out, w.writeHandshakeMessage P payload buf = .ok (n, buf') w' →
        payload.length ≤ out.length →
        ∃ r', r.readHandshakeMessage P (buf'.take n) out =
            .ok (payload.length, payload ++ out.drop payload.length) r' ∧
          r'.symmetricstate.Agree w'.symmetricstate ∧ r'.patternPosition = w'.patternPosition := by
  obtain ⟨c, -, -, agree⟩ := session.agreement lawful
    (Agreement.start expanded ordered choice premsgKeys psks initiator responder)
    (new_ok P expand initiator).1
  refine ⟨agree.myTurn.1, agree.myTurn.2, agree.symmetricstate, agree.patternPosition,
    agree.cipherstates, fun payload buf n buf' w' out write fits => ?_⟩
  obtain ⟨c', r', -, reads, agree'⟩ := agree.message lawful write
  exact ⟨r', by rw [reads, if_pos fits], agree'.symmetricstate, agree'.patternPosition⟩

/-- The `X` handshake over the sample primitives: the responder reads the
initiator's only message, with an empty payload, and the two agree after it. -/
theorem xResponder_reads_xInitiator :
    ∃ message w', xInitiator.writeHandshakeMessage Primitives.sample [] (List.replicate 96 0) =
        .ok (96, message) w' ∧
      ∃ r', xResponder.readHandshakeMessage Primitives.sample (message.take 96) [] = .ok (0, []) r' ∧
        r'.symmetricstate.Agree w'.symmetricstate ∧ r'.patternPosition = w'.patternPosition := by
  obtain ⟨-, -, -, -, -, next⟩ := handshake_agreement Primitives.sample_lawful (by rfl)
    (by decide) (by exact ⟨rfl, rfl, rfl, rfl⟩)
    (by exact ⟨fun _ => rfl, fun h => absurd h Bool.false_ne_true,
      fun h => absurd h Bool.false_ne_true, fun h => absurd h Bool.false_ne_true⟩)
    (fun ts mem n held => absurd held (xTokens_no_psk ts mem n))
    new_xInitiator new_xResponder .start
  obtain ⟨message, w', written⟩ : ∃ message w',
      xInitiator.writeHandshakeMessage Primitives.sample [] (List.replicate 96 0) =
        .ok (96, message) w' := ⟨_, _, rfl⟩
  exact ⟨message, w', written, next [] _ 96 message w' [] written le_rfl⟩

/-- Two `NN` parties built over cipher states with different unused keys:
after the first message, which installs no key, the two symmetric states have
the same `h` and no key set, but different cipher keys. -/
theorem unkeyed_ciphers_differ :
    ∃ r₀ n message i₁ r₁ v,
      HandshakeState.new Primitives.sample sampleExpand 0 emptyCipher (sampleKey [] false)
          (sampleKey [] false) false ⟨DhBuf.ofBytes [], false⟩ ⟨DhBuf.ofBytes [], false⟩ true
          (sampleParams .NN "Noise_NN_25519_ChaChaPoly_SHA256") noPsks [] (emptyCipher, emptyCipher) =
        .ok nnInitiator ∧
      HandshakeState.new Primitives.sample sampleExpand 100 ⟨[7], 0, false⟩ (sampleKey [] false)
          (sampleKey [] false) false ⟨DhBuf.ofBytes [], false⟩ ⟨DhBuf.ofBytes [], false⟩ false
          (sampleParams .NN "Noise_NN_25519_ChaChaPoly_SHA256") noPsks [] (emptyCipher, emptyCipher) =
        .ok r₀ ∧
      nnInitiator.writeHandshakeMessage Primitives.sample [] (List.replicate 48 0) =
        .ok (n, message) i₁ ∧
      r₀.readHandshakeMessage Primitives.sample (message.take n) [] = .ok v r₁ ∧
      i₁.symmetricstate.h = r₁.symmetricstate.h ∧ i₁.symmetricstate.hasKey = false ∧
      r₁.symmetricstate.hasKey = false ∧ i₁.symmetricstate.cipherstate.k = [] ∧
      r₁.symmetricstate.cipherstate.k = [7] :=
  ⟨_, _, _, _, _, _, new_nnInitiator, rfl, rfl, rfl, rfl, rfl, rfl, rfl, rfl⟩

end Screech
