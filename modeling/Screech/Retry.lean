import Screech.Layout

/-!
# A retry after a failed call

A failed `read_handshake_message` restores the symmetric state but not the
slots: the message may have overwritten the start of `re` or `rs` and turned
it on before the failure. A second read at the same position starts from that
state. It cannot tell the difference as long as every DH token of the message
comes after the `E` or `S` token that carries the remote key it reads
(`keysBeforeUse`): the second read overwrites each slot before it reads it,
and the overwrite depends only on the slot's tail, which the first read left
alone. So the two runs go in lockstep, token by token
(`readToken_retry`, `readTokens_retry`), and a retry that succeeds ends in the
same state as a read without the failed one (`readHandshakeMessage_retry`).

A retry that fails as well keeps what the failed read left in the slots, so
`get_remote_static()` can report a key from a rejected message
(`failed_retry_keeps_remote_static`).

A failed `write_handshake_message` with a fixed ephemeral key leaves `e` on
and nothing else changed: the write of the same position goes in lockstep
with a write without it, since a message that carries `e` writes it before
any DH token uses it (`writeHandshakeMessage_retry`).
-/

namespace Screech

/-! ## Messages whose keys come before their use -/

/-- The DH tokens whose first key is the writer's ephemeral, `ee` and `es`:
the writer computes them with `e`, the reader with `re`. -/
def withWriterE : Token → Bool
  | .Dhee | .Dhes => true
  | _ => false

/-- The DH tokens whose first key is the writer's static, `se` and `ss`: the
writer computes them with `s`, the reader with `rs`. -/
def withWriterS : Token → Bool
  | .Dhse | .Dhss => true
  | _ => false

/-- No DH token of the message comes before the `E` or `S` token that carries
the writer's key it uses, when the message carries it. -/
def keysBeforeUse : List Token → Bool
  | [] => true
  | token :: tokens =>
    (!withWriterE token || !decide (Token.E ∈ tokens)) &&
      (!withWriterS token || !decide (Token.S ∈ tokens)) && keysBeforeUse tokens

example : keysBeforeUse [.E, .Dhes, .S, .Dhss] = true := by decide

example : keysBeforeUse [.Dhee, .E] = false := by decide

theorem keysBeforeUse_cons {token : Token} {tokens : List Token}
    (valid : keysBeforeUse (token :: tokens) = true) :
    (withWriterE token = true → Token.E ∉ tokens) ∧
      (withWriterS token = true → Token.S ∉ tokens) ∧ keysBeforeUse tokens = true := by
  simp only [keysBeforeUse, Bool.and_eq_true, Bool.or_eq_true, Bool.not_eq_true',
    decide_eq_false_iff_not] at valid
  obtain ⟨⟨e, s⟩, rest⟩ := valid
  exact ⟨fun h => e.resolve_left (by simp [h]), fun h => s.resolve_left (by simp [h]), rest⟩

/-! ## Two runs in lockstep -/

/-- Two runs of one call that go the same way: both panic, both fail with the
same error and states related by `onErr`, or both succeed with the same value
and states related by `onOk`. -/
def Lockstep {α : Type} (onOk onErr : HandshakeState → HandshakeState → Prop) :
    Outcome HandshakeState α → Outcome HandshakeState α → Prop
  | .ok v a, .ok w b => v = w ∧ onOk a b
  | .err e a, .err f b => e = f ∧ onErr a b
  | .panic, .panic => True
  | _, _ => False

namespace Lockstep

variable {α β : Type} {onOk onOk' onErr onErr' : HandshakeState → HandshakeState → Prop}

theorem refl (ok : ∀ a, onOk a a) (err : ∀ a, onErr a a) (x : Outcome HandshakeState α) :
    Lockstep onOk onErr x x := by
  cases x with
  | ok v a => exact ⟨rfl, ok a⟩
  | err e a => exact ⟨rfl, err a⟩
  | panic => trivial

theorem mono {x y : Outcome HandshakeState α} (ok : ∀ a b, onOk a b → onOk' a b)
    (err : ∀ a b, onErr a b → onErr' a b) (h : Lockstep onOk onErr x y) :
    Lockstep onOk' onErr' x y := by
  cases x <;> cases y <;> first
    | exact False.elim h
    | exact trivial
    | exact ⟨h.1, ok _ _ h.2⟩
    | exact ⟨h.1, err _ _ h.2⟩

/-- Related first steps and related continuations give related binds. -/
theorem bind {x y : Outcome HandshakeState α} {f g : α → HandshakeState → Outcome HandshakeState β}
    (first : Lockstep onOk onErr x y)
    (next : ∀ v a b, onOk a b → Lockstep onOk' onErr (f v a) (g v b)) :
    Lockstep onOk' onErr (x.bind f) (y.bind g) := by
  cases x with
  | ok v a =>
    cases y with
    | ok w b => obtain ⟨rfl, related⟩ := first; exact next v a b related
    | err | panic => exact False.elim first
  | err e a =>
    cases y with
    | err f b => exact first
    | ok | panic => exact False.elim first
  | panic =>
    cases y with
    | panic => trivial
    | ok | err => exact False.elim first

end Lockstep

/-! ## Buffers and primitives seen through a retry -/

/-- Writing `data` over the start of a buffer depends only on the buffer's
bytes after it. -/
theorem DhBuf.setPrefix_congr {b c : DhBuf} {data : Bytes}
    (tail : b.bytes.drop data.length = c.bytes.drop data.length) :
    b.setPrefix data = c.setPrefix data := by
  simp only [DhBuf.setPrefix, tail]

/-- ... and leaves those bytes as they were. -/
theorem DhBuf.drop_setPrefix (b : DhBuf) {data : Bytes} (short : data.length ≤ MAXDHLEN) :
    (b.setPrefix data).bytes.drop data.length = b.bytes.drop data.length := by
  have length := b.length_eq
  simp only [DhBuf.setPrefix, List.drop_take, List.drop_left']
  rw [List.take_of_length_le (by simp only [List.length_drop]; omega)]

/-- `decrypt_and_mix_hash` into two buffers of one length that the plaintext
fills: the same outcome. -/
theorem SymmetricState.decryptAndMixHash_congr (P : Primitives) {ss : SymmetricState}
    {data out₁ out₂ : Bytes} (length : out₁.length = out₂.length)
    (fills : ∀ plaintext cs, ss.decrypt P data = some (plaintext, cs) →
      out₁.length ≤ plaintext.length) :
    ss.decryptAndMixHash P data out₁ = ss.decryptAndMixHash P data out₂ := by
  unfold decryptAndMixHash
  split
  · rfl
  · rename_i plaintext cs decrypted
    have fill := fills _ _ decrypted
    have drop₁ : out₁.drop plaintext.length = [] := List.drop_eq_nil_of_le fill
    have drop₂ : out₂.drop plaintext.length = [] := List.drop_eq_nil_of_le (length ▸ fill)
    simp only [writeAt, zero_add, length, drop₁, drop₂, List.take_zero]

namespace HandshakeState

variable (P : Primitives)

/-- A DH computation reads only the remote slot its pair names. -/
theorem dh_with_remote {hs : HandshakeState} {re rs : Toggle DhBuf} (localS remoteS : Bool)
    (sameRe : remoteS = false → hs.re = re) (sameRs : remoteS = true → hs.rs = rs) :
    { hs with re, rs }.dh P localS remoteS = hs.dh P localS remoteS := by
  cases localS <;> cases remoteS <;> simp_all [dh]

/-- A DH computation reads `e` only when its pair names it. -/
theorem dh_with_e {hs : HandshakeState} {e : Toggle Dh} (localS remoteS : Bool)
    (sameE : localS = false → hs.e = e) :
    { hs with e }.dh P localS remoteS = hs.dh P localS remoteS := by
  cases localS <;> cases remoteS <;> simp_all [dh]

/-- The length of an `S` field, as the read loop computes it. -/
theorem sFieldLength (keyed : Bool) (dhLen : Nat) :
    (if keyed = true then dhLen + TAGLEN else dhLen) = dhLen + tagLen keyed := by
  cases keyed <;> rfl

/-! ## The read loop after a failed read -/

variable {P} {dhLen : Nat}

/-- The retried read starts from `a`, the direct one from `b`: `b` is `a` with
other `re` and `rs`, which differ only while the token that overwrites them is
still ahead in `ts`, and only in their first `dh_len` bytes and their `on`
bit. -/
def RemoteAgree (dhLen : Nat) (ts : List Token) (a b : HandshakeState) : Prop :=
  ∃ re rs, b = { a with re, rs } ∧ (a.re = re ∨ Token.E ∈ ts) ∧ (a.rs = rs ∨ Token.S ∈ ts) ∧
    a.re.inner.bytes.drop dhLen = re.inner.bytes.drop dhLen ∧
    a.rs.inner.bytes.drop dhLen = rs.inner.bytes.drop dhLen

/-- Two states equal but for `re` and `rs`. -/
def SameButRemote (a b : HandshakeState) : Prop := ∃ re rs, b = { a with re, rs }

theorem RemoteAgree.sameButRemote {ts : List Token} {a b : HandshakeState}
    (agree : RemoteAgree dhLen ts a b) : SameButRemote a b :=
  let ⟨re, rs, same, _⟩ := agree
  ⟨re, rs, same⟩

/-- Once every token has run, the two states are one. -/
theorem RemoteAgree.eq_of_nil {a b : HandshakeState} (agree : RemoteAgree dhLen [] a b) :
    b = a := by
  obtain ⟨re, rs, rfl, sameRe, sameRs, -, -⟩ := agree
  obtain rfl := sameRe.resolve_right (List.not_mem_nil _)
  obtain rfl := sameRs.resolve_right (List.not_mem_nil _)
  rfl

/-- One token of the two read loops: a token that overwrites a slot makes the
two slots equal, and a DH token reads only slots that are already equal. -/
theorem readToken_retry (lawful : P.Lawful) (short : dhLen ≤ MAXDHLEN) {a b : HandshakeState}
    {token : Token} {ts : List Token} {ptr : Bytes} (valid : keysBeforeUse (token :: ts) = true)
    (agree : RemoteAgree dhLen (token :: ts) a b) :
    Lockstep (RemoteAgree dhLen ts) (RemoteAgree dhLen (token :: ts))
      (a.readToken P dhLen ptr token) (b.readToken P dhLen ptr token) := by
  obtain ⟨eFirst, sFirst, -⟩ := keysBeforeUse_cons valid
  have unchanged := agree
  obtain ⟨re, rs, rfl, sameRe, sameRs, reTail, rsTail⟩ := agree
  have keepRe : token ≠ .E → a.re = re ∨ Token.E ∈ ts :=
    fun other => sameRe.imp_right (List.mem_of_ne_of_mem (Ne.symm other))
  have keepRs : token ≠ .S → a.rs = rs ∨ Token.S ∈ ts :=
    fun other => sameRs.imp_right (List.mem_of_ne_of_mem (Ne.symm other))
  cases token with
  | E =>
    simp only [readToken]
    split
    · exact ⟨rfl, unchanged⟩
    · rename_i long
      have fresh : re.inner.setPrefix (ptr.take dhLen) = a.re.inner.setPrefix (ptr.take dhLen) :=
        DhBuf.setPrefix_congr (by rw [List.length_take, min_eq_left (by omega)]; exact reTail.symm)
      refine ⟨rfl, _, rs, ?_, .inl rfl, keepRs (by decide), rfl, rsTail⟩
      simp only [fresh]
      rfl
  | S =>
    have outLength : (rs.inner.bytes.take dhLen).length = (a.rs.inner.bytes.take dhLen).length := by
      simp only [List.length_take, rs.inner.length_eq, a.rs.inner.length_eq]
    simp only [readToken, sFieldLength]
    split
    · exact ⟨rfl, unchanged⟩
    · rename_i long
      have fills : ∀ plaintext cs, a.symmetricstate.decrypt P
          (ptr.take (dhLen + tagLen a.symmetricstate.hasKey)) = some (plaintext, cs) →
          (rs.inner.bytes.take dhLen).length ≤ plaintext.length := by
        intro plaintext cs decrypted
        have stripped := SymmetricState.length_of_decrypt lawful decrypted
        simp only [List.length_take, rs.inner.length_eq] at stripped ⊢
        omega
      rw [SymmetricState.decryptAndMixHash_congr P outLength fills]
      split
      · rename_i written out ss decrypted
        obtain ⟨plaintext, cs, -, fits, -, rfl, -⟩ :=
          (SymmetricState.decryptAndMixHash_eq_ok P).mp decrypted
        have tail : rs.inner.bytes.drop (plaintext ++ (a.rs.inner.bytes.take dhLen).drop
            plaintext.length).length = a.rs.inner.bytes.drop (plaintext ++
            (a.rs.inner.bytes.take dhLen).drop plaintext.length).length := by
          simp only [List.length_append, List.length_drop, List.length_take,
            a.rs.inner.length_eq] at fits ⊢
          rw [show plaintext.length + (min dhLen MAXDHLEN - plaintext.length) = dhLen by omega]
          exact rsTail.symm
        refine ⟨rfl, re, _, ?_, keepRe (by decide), .inl rfl, reTail, rfl⟩
        simp only [DhBuf.setPrefix_congr tail]
        rfl
      · exact ⟨rfl, unchanged⟩
      · trivial
  | Psk n =>
    simp only [readToken, pskToken]
    split
    · trivial
    · exact ⟨rfl, unchanged⟩
    · exact ⟨rfl, re, rs, rfl, keepRe (by simp), keepRs (by simp), reTail, rsTail⟩
  | Dhee | Dhes =>
    have same : a.re = re :=
      sameRe.resolve_right fun mem => eFirst rfl (List.mem_of_ne_of_mem (by decide) mem)
    simp only [readToken, dhToken,
      dh_with_remote P _ false (fun _ => same) (fun h => absurd h Bool.false_ne_true)]
    split
    · exact ⟨rfl, unchanged⟩
    · exact ⟨rfl, re, rs, rfl, keepRe (by decide), keepRs (by decide), reTail, rsTail⟩
  | Dhse | Dhss =>
    have same : a.rs = rs :=
      sameRs.resolve_right fun mem => sFirst rfl (List.mem_of_ne_of_mem (by decide) mem)
    simp only [readToken, dhToken,
      dh_with_remote P _ true (fun h => absurd h.symm Bool.false_ne_true) (fun _ => same)]
    split
    · exact ⟨rfl, unchanged⟩
    · exact ⟨rfl, re, rs, rfl, keepRe (by decide), keepRs (by decide), reTail, rsTail⟩

/-- The two read loops go in lockstep, and end in one state when they
succeed. -/
theorem readTokens_retry (lawful : P.Lawful) (short : dhLen ≤ MAXDHLEN) {a b : HandshakeState}
    {ts : List Token} {ptr : Bytes} (valid : keysBeforeUse ts = true)
    (agree : RemoteAgree dhLen ts a b) :
    Lockstep (RemoteAgree dhLen []) SameButRemote
      (a.readTokens P dhLen ptr ts) (b.readTokens P dhLen ptr ts) := by
  induction ts generalizing a b ptr with
  | nil => exact ⟨rfl, agree⟩
  | cons token ts ih =>
    simp only [readTokens]
    exact ((readToken_retry lawful short valid agree).mono (fun _ _ => id)
      fun _ _ => RemoteAgree.sameButRemote).bind
      fun _ _ _ next => ih (keysBeforeUse_cons valid).2.2 next

/-! ## What a failed read leaves -/

/-- What the read loop does over the tokens `ts`: every field but the
symmetric state, `re` and `rs` as it was; `re` (`rs`) overwritten only if an
`E` (`S`) token ran, and then only in its first `dh_len` bytes. -/
def RemoteEffect (dhLen : Nat) (ts : List Token) (a b : HandshakeState) : Prop :=
  b = { a with symmetricstate := b.symmetricstate, re := b.re, rs := b.rs } ∧
    (b.re = a.re ∨ Token.E ∈ ts) ∧ (b.rs = a.rs ∨ Token.S ∈ ts) ∧
    b.re.inner.bytes.drop dhLen = a.re.inner.bytes.drop dhLen ∧
    b.rs.inner.bytes.drop dhLen = a.rs.inner.bytes.drop dhLen

theorem RemoteEffect.refl (ts : List Token) (a : HandshakeState) : RemoteEffect dhLen ts a a :=
  ⟨rfl, .inl rfl, .inl rfl, rfl, rfl⟩

theorem RemoteEffect.cons {token : Token} {ts : List Token} {a b c : HandshakeState}
    (first : RemoteEffect dhLen [token] a b) (rest : RemoteEffect dhLen ts b c) :
    RemoteEffect dhLen (token :: ts) a c := by
  obtain ⟨sameB, reB, rsB, reTailB, rsTailB⟩ := first
  obtain ⟨sameC, reC, rsC, reTailC, rsTailC⟩ := rest
  have widen : ∀ x, x ∈ [token] → x ∈ token :: ts := fun x mem => by
    rw [List.mem_singleton.mp mem]; exact List.mem_cons_self _ _
  refine ⟨by rw [sameC, sameB], ?_, ?_, reTailC.trans reTailB, rsTailC.trans rsTailB⟩
  · rcases reC with same | mem
    · exact (reB.imp_left same.trans).imp_right (widen _)
    · exact .inr (List.mem_cons_of_mem _ mem)
  · rcases rsC with same | mem
    · exact (rsB.imp_left same.trans).imp_right (widen _)
    · exact .inr (List.mem_cons_of_mem _ mem)

theorem readToken_effect (short : dhLen ≤ MAXDHLEN) {hs hs' : HandshakeState} {ptr : Bytes}
    {token : Token} (h : (hs.readToken P dhLen ptr token).state? = some hs') :
    RemoteEffect dhLen [token] hs hs' := by
  cases token with
  | E =>
    simp only [readToken] at h
    split at h
    · cases h; exact .refl _ _
    · rename_i long
      cases h
      have len : (ptr.take dhLen).length = dhLen := by simp only [List.length_take]; omega
      have tail := DhBuf.drop_setPrefix hs.re.inner
        (show (ptr.take dhLen).length ≤ MAXDHLEN by rw [len]; exact short)
      rw [len] at tail
      exact ⟨rfl, .inr (List.mem_singleton_self _), .inl rfl, tail, rfl⟩
  | S =>
    simp only [readToken, sFieldLength] at h
    split at h
    · cases h; exact .refl _ _
    split at h
    · rename_i written out ss decrypted
      cases h
      obtain ⟨plaintext, cs, -, fits, -, rfl, -⟩ :=
        (SymmetricState.decryptAndMixHash_eq_ok P).mp decrypted
      have len : (plaintext ++ (hs.rs.inner.bytes.take dhLen).drop plaintext.length).length =
          dhLen := by
        simp only [List.length_append, List.length_drop, List.length_take,
          hs.rs.inner.length_eq] at fits ⊢
        omega
      have tail := DhBuf.drop_setPrefix hs.rs.inner
        (show (plaintext ++ (hs.rs.inner.bytes.take dhLen).drop plaintext.length).length ≤
          MAXDHLEN by rw [len]; exact short)
      rw [len] at tail
      exact ⟨rfl, .inl rfl, .inr (List.mem_singleton_self _), rfl, tail⟩
    · cases h; exact .refl _ _
    · cases h
  | Psk n =>
    simp only [readToken, pskToken] at h
    split at h <;> cases h <;> exact ⟨rfl, .inl rfl, .inl rfl, rfl, rfl⟩
  | Dhee | Dhes | Dhse | Dhss =>
    simp only [readToken, dhToken] at h
    split at h <;> cases h <;> exact ⟨rfl, .inl rfl, .inl rfl, rfl, rfl⟩

theorem readTokens_effect (short : dhLen ≤ MAXDHLEN) {hs hs' : HandshakeState} {ptr : Bytes}
    {ts : List Token} (h : (hs.readTokens P dhLen ptr ts).state? = some hs') :
    RemoteEffect dhLen ts hs hs' := by
  induction ts generalizing hs ptr with
  | nil => cases h; exact .refl _ _
  | cons token ts ih =>
    rw [readTokens] at h
    rcases Outcome.state?_bind h with first | ⟨ptr', mid, step, rest⟩
    · exact (readToken_effect short first).cons (.refl _ _)
    · exact (readToken_effect short (by rw [step]; rfl)).cons (ih rest)

/-- A failed decryption of the trailer leaves the state as the loop left it. -/
theorem readPayload_err_eq {hs hs' : HandshakeState} {last : Bool} {ptr payload : Bytes}
    {e : Error} (h : hs.readPayload P last ptr payload = .err e hs') : hs' = hs := by
  simp only [readPayload] at h
  split at h
  · cases h; rfl
  · cases h
  · split at h
    · split at h <;> cases h
    · cases h

/-- A failed read leaves a state that a read at the same position cannot tell
from the state before it. -/
theorem readHandshakeMessage_err_agree {hs hs₁ : HandshakeState} {tokens : List Token}
    {message payload : Bytes} {e : Error}
    (index : hs.messagePatterns[hs.patternPosition]? = some tokens)
    (failed : hs.readHandshakeMessage P message payload = .err e hs₁) :
    RemoteAgree hs.dhLen tokens hs₁ hs := by
  have short : hs.dhLen ≤ MAXDHLEN := DHChoice.pubLen_le _
  unfold readHandshakeMessage at failed
  split at failed
  · cases failed
  · rename_i inner read
    cases failed
    have effect : RemoteEffect hs.dhLen tokens hs inner := by
      unfold _readHandshakeMessage at read
      split at read
      · cases read; exact .refl _ _
      split at read
      · cases read
      rw [index] at read
      rcases Outcome.bind_eq_err.mp read with loop | ⟨ptr, mid, loop, payloadErr⟩
      · exact readTokens_effect short (by rw [loop]; rfl)
      · rw [readPayload_err_eq payloadErr]
        exact readTokens_effect short (by rw [loop]; rfl)
    obtain ⟨same, re, rs, reTail, rsTail⟩ := effect
    refine ⟨hs.re, hs.rs, ?_, re, rs, reTail, rsTail⟩
    rw [same]
    rfl
  · cases failed

/-- A read from a state a failed read left goes in lockstep with the same
read from the state before it: a success ends in the same state, and a
failure in the same state but for `re` and `rs`. -/
theorem readHandshakeMessage_retry (lawful : P.Lawful) {a b : HandshakeState}
    {tokens : List Token} {message payload : Bytes}
    (index : b.messagePatterns[b.patternPosition]? = some tokens)
    (valid : keysBeforeUse tokens = true) (agree : RemoteAgree b.dhLen tokens a b) :
    Lockstep Eq (fun a b => a = { b with re := a.re, rs := a.rs })
      (a.readHandshakeMessage P message payload) (b.readHandshakeMessage P message payload) := by
  have loops : ∀ ptr, Lockstep (RemoteAgree b.dhLen []) SameButRemote
      (a.readTokens P b.dhLen ptr tokens) (b.readTokens P b.dhLen ptr tokens) :=
    fun _ => readTokens_retry lawful (DHChoice.pubLen_le _) valid agree
  obtain ⟨re, rs, rfl, -⟩ := agree
  have inner : Lockstep Eq SameButRemote (a._readHandshakeMessage P message payload)
      ({ a with re, rs }._readHandshakeMessage P message payload) := by
    unfold _readHandshakeMessage
    dsimp only at index ⊢
    split
    · exact ⟨rfl, re, rs, rfl⟩
    split
    · trivial
    rw [index]
    exact (loops message).bind fun _ _ _ agree' => by
      rw [agree'.eq_of_nil]
      exact Lockstep.refl (fun _ => rfl) (fun c => ⟨c.re, c.rs, rfl⟩) _
  unfold readHandshakeMessage
  cases x : a._readHandshakeMessage P message payload <;>
    cases y : ({ a with re, rs })._readHandshakeMessage P message payload <;>
    rw [x, y] at inner <;> first | exact False.elim inner | trivial | skip
  · obtain ⟨rfl, rfl⟩ := inner
    exact ⟨rfl, rfl⟩
  · obtain ⟨rfl, re', rs', rfl⟩ := inner
    exact ⟨rfl, rfl⟩

/-! ## The write loop after a failed write -/

/-- The retried write starts from `a`, the direct one from `b`, both with a
fixed ephemeral key: `b` is `a` with another `e` slot holding the same key,
whose `on` bit differs only while the `E` token is still ahead in `ts`. -/
def EphemeralAgree (ts : List Token) (a b : HandshakeState) : Prop :=
  a.fixedEphemeral = true ∧ ∃ e, b = { a with e } ∧ (a.e = e ∨ Token.E ∈ ts) ∧ a.e.inner = e.inner

/-- Two states equal but for `e`. -/
def SameButE (a b : HandshakeState) : Prop := ∃ e, b = { a with e }

theorem EphemeralAgree.sameButE {ts : List Token} {a b : HandshakeState}
    (agree : EphemeralAgree ts a b) : SameButE a b :=
  let ⟨_, e, same, _⟩ := agree
  ⟨e, same⟩

theorem EphemeralAgree.eq_of_nil {a b : HandshakeState} (agree : EphemeralAgree [] a b) :
    b = a := by
  obtain ⟨-, e, rfl, sameE, -⟩ := agree
  obtain rfl := sameE.resolve_right (List.not_mem_nil _)
  rfl

/-- One token of the two write loops with a fixed ephemeral key: `E` writes
the same key and turns `e` on in both, and a DH token reads `e` only once it
is on in both. -/
theorem writeToken_retry {a b : HandshakeState} {message : Bytes} {byteIndex : Nat}
    {token : Token} {ts : List Token} (valid : keysBeforeUse (token :: ts) = true)
    (agree : EphemeralAgree (token :: ts) a b) :
    Lockstep (EphemeralAgree ts) (EphemeralAgree (token :: ts))
      (a.writeToken P dhLen message byteIndex token) (b.writeToken P dhLen message byteIndex token) := by
  obtain ⟨eFirst, -, -⟩ := keysBeforeUse_cons valid
  have unchanged := agree
  obtain ⟨fixed, ⟨key, onBit⟩, rfl, sameE, rfl⟩ := agree
  have keepE : token ≠ .E → a.e = ⟨a.e.inner, onBit⟩ ∨ Token.E ∈ ts :=
    fun other => sameE.imp_right (List.mem_of_ne_of_mem (Ne.symm other))
  cases token with
  | E =>
    simp only [writeToken, if_pos fixed]
    split
    · exact ⟨rfl, unchanged⟩
    split
    · trivial
    · exact ⟨rfl, fixed, _, rfl, .inl rfl, rfl⟩
  | S =>
    simp only [writeToken]
    split
    · exact ⟨rfl, unchanged⟩
    split
    · exact ⟨rfl, unchanged⟩
    split
    · trivial
    · exact ⟨rfl, fixed, _, rfl, keepE (by decide), rfl⟩
  | Psk n =>
    simp only [writeToken, pskToken]
    split
    · trivial
    · exact ⟨rfl, unchanged⟩
    · exact ⟨rfl, fixed, _, rfl, keepE (by simp), rfl⟩
  | Dhee | Dhes =>
    have same : a.e = ⟨a.e.inner, onBit⟩ :=
      sameE.resolve_right fun mem => eFirst rfl (List.mem_of_ne_of_mem (by decide) mem)
    simp only [writeToken, dhToken, dh_with_e P false _ (fun _ => same)]
    split
    · exact ⟨rfl, unchanged⟩
    · exact ⟨rfl, fixed, _, rfl, keepE (by decide), rfl⟩
  | Dhse | Dhss =>
    simp only [writeToken, dhToken, dh_with_e P true _ (fun h => absurd h.symm Bool.false_ne_true)]
    split
    · exact ⟨rfl, unchanged⟩
    · exact ⟨rfl, fixed, _, rfl, keepE (by decide), rfl⟩

theorem writeTokens_retry {a b : HandshakeState} {message : Bytes} {byteIndex : Nat}
    {ts : List Token} (valid : keysBeforeUse ts = true) (agree : EphemeralAgree ts a b) :
    Lockstep (EphemeralAgree []) SameButE
      (a.writeTokens P dhLen message byteIndex ts) (b.writeTokens P dhLen message byteIndex ts) := by
  induction ts generalizing a b message byteIndex with
  | nil => exact ⟨rfl, agree⟩
  | cons token ts ih =>
    simp only [writeTokens]
    exact ((writeToken_retry valid agree).mono (fun _ _ => id)
      fun _ _ => EphemeralAgree.sameButE).bind
      fun _ _ _ next => ih (keysBeforeUse_cons valid).2.2 next

/-! ## What a failed write leaves -/

/-- What the write loop does with a fixed ephemeral key over the tokens `ts`:
every field but the symmetric state and `e` as it was; `e` keeps its key and
is turned on only if the `E` token ran. -/
def EphemeralEffect (ts : List Token) (a b : HandshakeState) : Prop :=
  b = { a with symmetricstate := b.symmetricstate, e := b.e } ∧ (b.e = a.e ∨ Token.E ∈ ts) ∧
    b.e.inner = a.e.inner

theorem EphemeralEffect.refl (ts : List Token) (a : HandshakeState) : EphemeralEffect ts a a :=
  ⟨rfl, .inl rfl, rfl⟩

theorem EphemeralEffect.cons {token : Token} {ts : List Token} {a b c : HandshakeState}
    (first : EphemeralEffect [token] a b) (rest : EphemeralEffect ts b c) :
    EphemeralEffect (token :: ts) a c := by
  obtain ⟨sameB, eB, keyB⟩ := first
  obtain ⟨sameC, eC, keyC⟩ := rest
  refine ⟨by rw [sameC, sameB], ?_, keyC.trans keyB⟩
  rcases eC with same | mem
  · exact (eB.imp_left same.trans).imp_right fun mem => by
      rw [List.mem_singleton.mp mem]; exact List.mem_cons_self _ _
  · exact .inr (List.mem_cons_of_mem _ mem)

theorem writeToken_effect {hs hs' : HandshakeState} {message : Bytes} {byteIndex : Nat}
    {token : Token} (fixed : hs.fixedEphemeral = true)
    (h : (hs.writeToken P dhLen message byteIndex token).state? = some hs') :
    EphemeralEffect [token] hs hs' := by
  cases token with
  | E =>
    simp only [writeToken, if_pos fixed] at h
    split at h
    · cases h; exact .refl _ _
    split at h
    · cases h
    · cases h; exact ⟨rfl, .inr (List.mem_singleton_self _), rfl⟩
  | S =>
    simp only [writeToken] at h
    repeat' split at h
    all_goals (cases h <;> exact ⟨rfl, .inl rfl, rfl⟩)
  | Psk n =>
    simp only [writeToken, pskToken] at h
    split at h <;> cases h <;> exact ⟨rfl, .inl rfl, rfl⟩
  | Dhee | Dhes | Dhse | Dhss =>
    simp only [writeToken, dhToken] at h
    split at h <;> cases h <;> exact ⟨rfl, .inl rfl, rfl⟩

theorem writeTokens_effect {hs hs' : HandshakeState} {message : Bytes} {byteIndex : Nat}
    {ts : List Token} (fixed : hs.fixedEphemeral = true)
    (h : (hs.writeTokens P dhLen message byteIndex ts).state? = some hs') :
    EphemeralEffect ts hs hs' := by
  induction ts generalizing hs message byteIndex with
  | nil => cases h; exact .refl _ _
  | cons token ts ih =>
    rw [writeTokens] at h
    rcases Outcome.state?_bind h with first | ⟨cursor, mid, step, rest⟩
    · exact (writeToken_effect fixed first).cons (.refl _ _)
    · have effect := writeToken_effect fixed (by rw [step]; rfl)
      exact effect.cons (ih (by rw [effect.1]; exact fixed) rest)

/-- A failed payload leaves the state as the loop left it, but for the
symmetric state. -/
theorem writePayload_err_eq {hs hs' : HandshakeState} {payload message : Bytes}
    {byteIndex : Nat} {e : Error} (h : hs.writePayload P payload message byteIndex = .err e hs') :
    hs' = { hs with symmetricstate := hs'.symmetricstate } := by
  unfold writePayload at h
  repeat' split at h
  all_goals (cases h <;> rfl)

/-- A failed write with a fixed ephemeral key leaves a state that a write at
the same position cannot tell from the state before it. -/
theorem writeHandshakeMessage_err_agree {hs hs₁ : HandshakeState} {tokens : List Token}
    {payload message : Bytes} {e : Error} (fixed : hs.fixedEphemeral = true)
    (index : hs.messagePatterns[hs.patternPosition]? = some tokens)
    (failed : hs.writeHandshakeMessage P payload message = .err e hs₁) :
    EphemeralAgree tokens hs₁ hs := by
  obtain ⟨inside, listed⟩ := List.getElem?_eq_some_iff.mp index
  unfold writeHandshakeMessage at failed
  split at failed
  · cases failed
  · rename_i inner written
    cases failed
    have effect : EphemeralEffect tokens hs inner := by
      unfold _writeHandshakeMessage at written
      split at written
      · cases written; exact .refl _ _
      split at written
      · cases written; exact .refl _ _
      rw [List.get_eq_getElem, listed] at written
      rcases Outcome.bind_eq_err.mp written with loop | ⟨cursor, mid, loop, payloadErr⟩
      · exact writeTokens_effect fixed (by rw [loop]; rfl)
      · obtain ⟨same, sameE, key⟩ := writeTokens_effect fixed (by rw [loop]; rfl)
        rw [writePayload_err_eq payloadErr]
        refine ⟨?_, sameE, key⟩
        rw [same]
    obtain ⟨same, sameE, key⟩ := effect
    refine ⟨by rw [same]; exact fixed, hs.e, ?_, sameE, key⟩
    rw [same]
    rfl
  · cases failed

/-- A write from a state a failed write left, with a fixed ephemeral key, goes
in lockstep with the same write from the state before it: a success ends in
the same state, and a failure in the same state but for `e`. -/
theorem writeHandshakeMessage_retry {a b : HandshakeState} {tokens : List Token}
    {payload message : Bytes} (index : b.messagePatterns[b.patternPosition]? = some tokens)
    (valid : keysBeforeUse tokens = true) (agree : EphemeralAgree tokens a b) :
    Lockstep Eq (fun a b => a = { b with e := a.e })
      (a.writeHandshakeMessage P payload message) (b.writeHandshakeMessage P payload message) := by
  have loops : ∀ message, Lockstep (EphemeralAgree []) SameButE
      (a.writeTokens P b.dhLen message 0 tokens) (b.writeTokens P b.dhLen message 0 tokens) :=
    fun _ => writeTokens_retry valid agree
  obtain ⟨inside, listed⟩ := List.getElem?_eq_some_iff.mp index
  obtain ⟨-, e, rfl, -⟩ := agree
  have inner : Lockstep Eq SameButE (a._writeHandshakeMessage P payload message)
      ({ a with e }._writeHandshakeMessage P payload message) := by
    unfold _writeHandshakeMessage
    dsimp only at listed ⊢
    split
    · exact ⟨rfl, e, rfl⟩
    split
    · exact ⟨rfl, e, rfl⟩
    rw [List.get_eq_getElem, listed]
    exact (loops message).bind fun _ _ _ agree' => by
      rw [agree'.eq_of_nil]
      exact Lockstep.refl (fun _ => rfl) (fun c => ⟨c.e, rfl⟩) _
  unfold writeHandshakeMessage
  cases x : a._writeHandshakeMessage P payload message <;>
    cases y : ({ a with e })._writeHandshakeMessage P payload message <;>
    rw [x, y] at inner <;> first | exact False.elim inner | trivial | skip
  · obtain ⟨rfl, rfl⟩ := inner
    exact ⟨rfl, rfl⟩
  · obtain ⟨rfl, e', rfl⟩ := inner
    exact ⟨rfl, rfl⟩

/-- Past the last message a call fails only before it touches the state. -/
theorem readHandshakeMessage_err_of_finished {hs hs₁ : HandshakeState} {message payload : Bytes}
    {e : Error} (finished : hs.messagePatterns[hs.patternPosition]? = none)
    (failed : hs.readHandshakeMessage P message payload = .err e hs₁) : hs₁ = hs := by
  unfold readHandshakeMessage _readHandshakeMessage at failed
  rw [finished] at failed
  dsimp only at failed
  split at failed <;> rename_i inner
  · split at inner <;> (try split at inner) <;> cases inner
  · split at inner
    · cases inner; cases failed; rfl
    · split at inner <;> cases inner
  · cases failed

theorem writeHandshakeMessage_err_of_finished {hs hs₁ : HandshakeState} {payload message : Bytes}
    {e : Error} (finished : hs.messagePatterns[hs.patternPosition]? = none)
    (failed : hs.writeHandshakeMessage P payload message = .err e hs₁) : hs₁ = hs := by
  have past : hs.patternPosition ≥ hs.messagePatterns.length := List.getElem?_eq_none_iff.mp finished
  unfold writeHandshakeMessage _writeHandshakeMessage at failed
  rw [dif_pos past] at failed
  split at failed <;> rename_i inner
  · split at inner <;> cases inner
  · split at inner <;> (cases inner; cases failed; rfl)
  · cases failed

end HandshakeState

open HandshakeState

/-- Under lawful primitives and messages whose keys come before their use, a
call after a failed call of the same kind goes in lockstep with the call
alone: both panic, both succeed with the same value and state, or both fail
with the same error and states equal but for the slots the failed call may
have filled, `re` and `rs` for a read and `e` for a write with a fixed
ephemeral key. -/
theorem retry_after_failed_call {P : Primitives} (lawful : P.Lawful) {hs : HandshakeState}
    (valid : ∀ tokens ∈ hs.messagePatterns, keysBeforeUse tokens = true) :
    (∀ m₁ p₁ e₁ hs₁ m₂ p₂, hs.readHandshakeMessage P m₁ p₁ = .err e₁ hs₁ →
      Lockstep Eq (fun a b => a = { b with re := a.re, rs := a.rs })
        (hs₁.readHandshakeMessage P m₂ p₂) (hs.readHandshakeMessage P m₂ p₂)) ∧
    (hs.fixedEphemeral = true → ∀ p₁ m₁ e₁ hs₁ p₂ m₂,
      hs.writeHandshakeMessage P p₁ m₁ = .err e₁ hs₁ →
      Lockstep Eq (fun a b => a = { b with e := a.e })
        (hs₁.writeHandshakeMessage P p₂ m₂) (hs.writeHandshakeMessage P p₂ m₂)) := by
  cases index : hs.messagePatterns[hs.patternPosition]? with
  | none =>
    refine ⟨fun _ _ _ _ _ _ failed => ?_, fun _ _ _ _ _ _ _ failed => ?_⟩
    · rw [readHandshakeMessage_err_of_finished index failed]
      apply Lockstep.refl <;> intro <;> rfl
    · rw [writeHandshakeMessage_err_of_finished index failed]
      apply Lockstep.refl <;> intro <;> rfl
  | some tokens =>
    have keys := valid tokens (List.getElem?_mem index)
    exact ⟨fun _ _ _ _ _ _ failed =>
        readHandshakeMessage_retry lawful index keys (readHandshakeMessage_err_agree index failed),
      fun fixed _ _ _ _ _ _ failed =>
        writeHandshakeMessage_retry index keys (writeHandshakeMessage_err_agree fixed index failed)⟩

/-- The first 80 bytes of the `X` initiator's first message: `e`, the
encrypted `s` and its tag, without the payload's tag. -/
def xTruncated : Bytes := List.replicate 32 0 ++ [1] ++ List.replicate 31 0 ++ List.replicate 16 33

/-- The `X` responder rejects the truncated message only at the payload, after
`rs` holds the initiator's static key; a read of an empty message then fails
at `e` and keeps that key, where a read of it alone has no remote static. -/
theorem failed_retry_keeps_remote_static :
    Reachable Primitives.sample sampleExpand xResponder ∧
      keysBeforeUse [.E, .Dhes, .S, .Dhss] = true ∧
      ∃ hs₁ a b, xResponder.readHandshakeMessage Primitives.sample xTruncated [] = .err .Decrypt hs₁ ∧
        hs₁.readHandshakeMessage Primitives.sample [] [] = .err .Input a ∧
        xResponder.readHandshakeMessage Primitives.sample [] [] = .err .Input b ∧
        a.getRemoteStatic = some ((sampleKey [1] true).inner.pubkey Primitives.sample) ∧
        b.getRemoteStatic = none :=
  ⟨.new new_xResponder, rfl, _, _, _, rfl, rfl, rfl, rfl, rfl⟩

/-- The `X` initiator with the fixed ephemeral key `[3]`. -/
def xFixedInitiator : HandshakeState :=
  { xInitiator with e := sampleKey [3] true, fixedEphemeral := true }

/-- Both halves of a retry over `X`. After the truncated message, the
responder reads the whole message in lockstep with a read of it alone. The
fixed-ephemeral initiator's write into 95 bytes fails at the payload's tag;
its write into 96 bytes then goes in lockstep with the same write from the
start, which succeeds. -/
theorem x_retry :
    Primitives.sample.Lawful ∧
      (∀ tokens ∈ xResponder.messagePatterns, keysBeforeUse tokens = true) ∧
      (∀ hs₁, xResponder.readHandshakeMessage Primitives.sample xTruncated [] = .err .Decrypt hs₁ →
        Lockstep Eq (fun a b => a = { b with re := a.re, rs := a.rs })
          (hs₁.readHandshakeMessage Primitives.sample (xTruncated ++ List.replicate 16 41) [])
          (xResponder.readHandshakeMessage Primitives.sample (xTruncated ++ List.replicate 16 41)
            [])) ∧
      xFixedInitiator.fixedEphemeral = true ∧
      (∀ tokens ∈ xFixedInitiator.messagePatterns, keysBeforeUse tokens = true) ∧
      ∃ hs₁ n message w',
        xFixedInitiator.writeHandshakeMessage Primitives.sample [] (List.replicate 95 0) =
          .err .Input hs₁ ∧
        xFixedInitiator.writeHandshakeMessage Primitives.sample [] (List.replicate 96 0) =
          .ok (n, message) w' ∧
        Lockstep Eq (fun a b => a = { b with e := a.e })
          (hs₁.writeHandshakeMessage Primitives.sample [] (List.replicate 96 0))
          (xFixedInitiator.writeHandshakeMessage Primitives.sample [] (List.replicate 96 0)) := by
  obtain ⟨hs₁, n, message, w', failed, written⟩ : ∃ hs₁ n message w',
      xFixedInitiator.writeHandshakeMessage Primitives.sample [] (List.replicate 95 0) =
        .err .Input hs₁ ∧
      xFixedInitiator.writeHandshakeMessage Primitives.sample [] (List.replicate 96 0) =
        .ok (n, message) w' :=
    ⟨_, _, _, _, rfl, rfl⟩
  exact ⟨Primitives.sample_lawful, by decide, fun hs₁ failed =>
      (retry_after_failed_call Primitives.sample_lawful (by decide)).1 _ _ _ hs₁ _ _ failed,
    rfl, by decide, hs₁, n, message, w', failed, written,
    (retry_after_failed_call Primitives.sample_lawful (by decide)).2 rfl _ _ _ hs₁ _ _ failed⟩

end Screech
