import Screech.Atomicity

/-!
# Position, turn and split

A successful `write_handshake_message` or `read_handshake_message` moves
`pattern_position` by exactly one, and only from a position inside the
message list: the write checks it, and the read indexes the list at it and
panics past the end. So no reachable state is past the end
(`position_le_length`), the transport pair is assigned exactly in the call
that completes the last message (`cipherstates_of_run`), a trace completes the
handshake at most once (`completions_trace`), and a finished handshake stays
finished with its transport pair (`run_of_finished`).

The turn is another matter. `_write_handshake_message` refuses to write out of
turn, but `_read_handshake_message` has no turn check: the `NN` initiator
accepts a first message of its own, after which it holds the turn at an odd
position and writes the responder's message (`nnInitiator_reads_out_of_turn`).
-/

namespace Screech

namespace HandshakeState

variable (P : Primitives) {hs hs' : HandshakeState}

/-! ## One successful call -/

theorem writePayload_ok {payload message : Bytes} {byteIndex : Nat} {v : Nat × Bytes}
    (h : hs.writePayload P payload message byteIndex = .ok v hs') :
    hs' = { hs with
      symmetricstate := hs'.symmetricstate
      cipherstates := if hs.patternPosition = hs.messagePatterns.length - 1 then
          hs'.symmetricstate.split P hs.cipherstates else hs.cipherstates
      myTurn := false } := by
  unfold writePayload at h
  split at h
  · cases h
  split at h
  · cases h
  split at h
  · cases h
  cases h
  simp only [splitIf_eq, decide_eq_true_eq]

theorem readPayload_ok {last : Bool} {ptr payload : Bytes} {v : Nat × Bytes}
    (h : hs.readPayload P last ptr payload = .ok v hs') :
    hs' = { hs with
      symmetricstate := hs'.symmetricstate
      cipherstates := if last then hs'.symmetricstate.split P hs.cipherstates else hs.cipherstates
      myTurn := true } := by
  simp only [readPayload] at h
  split at h
  · cases h
  · cases h
  · split at h
    · split at h
      · cases h
      · cases h; simp only [splitIf_eq]
    · cases h; simp only [splitIf_eq]

/-- A successful write is the token loop of the current message from the
start of the buffer, then the payload; the position then moves on. -/
theorem writeHandshakeMessage_eq_ok {payload message : Bytes} {v : Nat × Bytes}
    (h : hs.writeHandshakeMessage P payload message = .ok v hs') :
    ∃ tokens cursor mid inner, hs.messagePatterns[hs.patternPosition]? = some tokens ∧
      hs.writeTokens P hs.dhLen message 0 tokens = .ok cursor mid ∧
      mid.writePayload P payload cursor.1 cursor.2 = .ok v inner ∧
      hs' = { inner with patternPosition := inner.patternPosition + 1 } := by
  unfold writeHandshakeMessage at h
  split at h
  · rename_i inner written
    cases h
    unfold _writeHandshakeMessage at written
    split at written
    · cases written
    split at written
    · cases written
    rename_i inside
    obtain ⟨cursor, mid, loop, payloadOk⟩ := Outcome.bind_eq_ok.mp written
    exact ⟨_, cursor, mid, inner, List.getElem?_eq_getElem (by omega), loop, payloadOk, rfl⟩
  · cases h
  · cases h

/-- A successful read is the token loop of the current message over the
whole message, then the trailer; the position then moves on. -/
theorem readHandshakeMessage_eq_ok {message payload : Bytes} {v : Nat × Bytes}
    (h : hs.readHandshakeMessage P message payload = .ok v hs') :
    ∃ tokens ptr mid inner, hs.messagePatterns[hs.patternPosition]? = some tokens ∧
      hs.readTokens P hs.dhLen message tokens = .ok ptr mid ∧
      mid.readPayload P (decide (hs.patternPosition = hs.messagePatterns.length - 1)) ptr payload =
        .ok v inner ∧
      hs' = { inner with patternPosition := inner.patternPosition + 1 } := by
  unfold readHandshakeMessage at h
  split at h
  · rename_i inner read
    cases h
    unfold _readHandshakeMessage at read
    split at read
    · cases read
    split at read
    · cases read
    split at read
    · cases read
    rename_i tokens index
    obtain ⟨ptr, mid, loop, payloadOk⟩ := Outcome.bind_eq_ok.mp read
    exact ⟨tokens, ptr, mid, inner, index, loop, payloadOk, rfl⟩
  · cases h
  · cases h

/-- What a successful `_write_handshake_message` requires and changes. -/
theorem _writeHandshakeMessage_ok {payload message : Bytes} {v : Nat × Bytes}
    (h : hs._writeHandshakeMessage P payload message = .ok v hs') :
    hs.myTurn = true ∧ hs.patternPosition < hs.messagePatterns.length ∧
      hs'.patternPosition = hs.patternPosition ∧ hs'.messagePatterns = hs.messagePatterns ∧
      hs'.initiator = hs.initiator ∧ hs'.myTurn = false ∧
      hs'.cipherstates = if hs.patternPosition + 1 = hs.messagePatterns.length then
        hs'.symmetricstate.split P hs.cipherstates else hs.cipherstates := by
  unfold _writeHandshakeMessage at h
  split at h
  · cases h
  rename_i turn
  split at h
  · cases h
  rename_i inside
  obtain ⟨cursor, mid, loop, payloadOk⟩ := Outcome.bind_eq_ok.mp h
  have frame := writeTokens_frame P (by rw [loop]; rfl)
  have after := writePayload_ok P payloadOk
  have last : (mid.patternPosition = mid.messagePatterns.length - 1) ↔
      (hs.patternPosition + 1 = hs.messagePatterns.length) := by
    rw [frame.patternPosition, frame.messagePatterns]; omega
  refine ⟨by simpa using turn, by omega, ?_, ?_, ?_, ?_, ?_⟩
  · rw [after, frame.patternPosition]
  · rw [after, frame.messagePatterns]
  · rw [after, frame.initiator]
  · rw [after]
  · rw [after]; simp only [last, frame.cipherstates]

/-- What a successful `_read_handshake_message` requires and changes: the
position it reads at is inside the message list, and the turn is taken. -/
theorem _readHandshakeMessage_ok {message payload : Bytes} {v : Nat × Bytes}
    (h : hs._readHandshakeMessage P message payload = .ok v hs') :
    hs.patternPosition < hs.messagePatterns.length ∧
      hs'.patternPosition = hs.patternPosition ∧ hs'.messagePatterns = hs.messagePatterns ∧
      hs'.initiator = hs.initiator ∧ hs'.myTurn = true ∧
      hs'.cipherstates = if hs.patternPosition + 1 = hs.messagePatterns.length then
        hs'.symmetricstate.split P hs.cipherstates else hs.cipherstates := by
  unfold _readHandshakeMessage at h
  split at h
  · cases h
  split at h
  · cases h
  rename_i nonempty
  split at h
  · cases h
  rename_i tokens index
  obtain ⟨ptr, mid, loop, payloadOk⟩ := Outcome.bind_eq_ok.mp h
  have frame := readTokens_frame P (by rw [loop]; rfl)
  have after := readPayload_ok P payloadOk
  have inside := (List.getElem?_eq_some_iff.mp index).1
  refine ⟨inside, ?_, ?_, ?_, ?_, ?_⟩
  · rw [after, frame.patternPosition]
  · rw [after, frame.messagePatterns]
  · rw [after, frame.initiator]
  · rw [after]
  · rw [after, frame.cipherstates]
    simp only [decide_eq_true_eq]
    congr 1
    apply propext; omega

/-- A successful write advances the position by one and hands the turn over. -/
theorem writeHandshakeMessage_ok {payload message : Bytes} {v : Nat × Bytes}
    (h : hs.writeHandshakeMessage P payload message = .ok v hs') :
    hs.myTurn = true ∧ hs.patternPosition < hs.messagePatterns.length ∧
      hs'.patternPosition = hs.patternPosition + 1 ∧ hs'.messagePatterns = hs.messagePatterns ∧
      hs'.initiator = hs.initiator ∧ hs'.myTurn = false ∧
      hs'.cipherstates = if hs.patternPosition + 1 = hs.messagePatterns.length then
        hs'.symmetricstate.split P hs.cipherstates else hs.cipherstates := by
  unfold writeHandshakeMessage at h
  split at h
  · rename_i mid inner
    cases h
    obtain ⟨turn, inside, position, patterns, initiator, myTurn, split⟩ :=
      _writeHandshakeMessage_ok P inner
    exact ⟨turn, inside, by simp [position], patterns, initiator, myTurn, split⟩
  · cases h
  · cases h

/-- A successful read advances the position by one and takes the turn. -/
theorem readHandshakeMessage_ok {message payload : Bytes} {v : Nat × Bytes}
    (h : hs.readHandshakeMessage P message payload = .ok v hs') :
    hs.patternPosition < hs.messagePatterns.length ∧
      hs'.patternPosition = hs.patternPosition + 1 ∧ hs'.messagePatterns = hs.messagePatterns ∧
      hs'.initiator = hs.initiator ∧ hs'.myTurn = true ∧
      hs'.cipherstates = if hs.patternPosition + 1 = hs.messagePatterns.length then
        hs'.symmetricstate.split P hs.cipherstates else hs.cipherstates := by
  unfold readHandshakeMessage at h
  split at h
  · rename_i mid inner
    cases h
    obtain ⟨inside, position, patterns, initiator, myTurn, split⟩ := _readHandshakeMessage_ok P inner
    exact ⟨inside, by simp [position], patterns, initiator, myTurn, split⟩
  · cases h
  · cases h

end HandshakeState

namespace HandshakeState

variable (P : Primitives) (expand : HandshakeChoice → Except Error HandshakeTokens)

/-- `new` starts at position 0 with the turn on the initiator. -/
theorem new_ok {rng : Nat} {cipherstate : CipherState} {s e : Toggle Dh} {fixedEphemeral : Bool}
    {rs re : Toggle DhBuf} {initiator : Bool} {params : NoiseParams} {psks : Psks}
    {prologue : Bytes} {cipherstates : CipherStates} {hs : HandshakeState}
    (h : new P expand rng cipherstate s e fixedEphemeral rs re initiator params psks prologue
      cipherstates = .ok hs) :
    hs.patternPosition = 0 ∧ hs.myTurn = hs.initiator := by
  unfold new at h
  split at h
  · cases h
  split at h
  · cases h
  obtain ⟨ss, -, built⟩ := Result.bind_eq_ok.mp h
  cases built
  exact ⟨rfl, rfl⟩

theorem isFinished_iff {hs : HandshakeState} :
    hs.isFinished = true ↔ hs.patternPosition = hs.messagePatterns.length := by
  simp [isFinished]

end HandshakeState

open HandshakeState

variable (P : Primitives) (expand : HandshakeChoice → Except Error HandshakeTokens)

/-- What any call does to the position, the message list, the role and the
transport pair: a failed call or `set_psk` leaves them, a successful write or
read advances the position from inside the list and assigns the pair exactly
when it reaches the end. -/
theorem Call.run_spec {c : Call} {hs hs' : HandshakeState} (h : c.run P hs = some hs') :
    hs'.messagePatterns = hs.messagePatterns ∧ hs'.initiator = hs.initiator ∧
      ((hs'.patternPosition = hs.patternPosition ∧ hs'.cipherstates = hs.cipherstates) ∨
        (hs.patternPosition < hs.messagePatterns.length ∧
          hs'.patternPosition = hs.patternPosition + 1 ∧
          hs'.cipherstates = if hs.patternPosition + 1 = hs.messagePatterns.length then
            hs'.symmetricstate.split P hs.cipherstates else hs.cipherstates)) := by
  cases c with
  | write payload message =>
    simp only [Call.run] at h
    cases call : hs.writeHandshakeMessage P payload message <;> rw [call] at h <;> cases h
    · obtain ⟨-, inside, position, patterns, initiator, -, split⟩ := writeHandshakeMessage_ok P call
      exact ⟨patterns, initiator, .inr ⟨inside, position, split⟩⟩
    · rw [writeHandshakeMessage_err P call]
      exact ⟨rfl, rfl, .inl ⟨rfl, rfl⟩⟩
  | read message payload =>
    simp only [Call.run] at h
    cases call : hs.readHandshakeMessage P message payload <;> rw [call] at h <;> cases h
    · obtain ⟨inside, position, patterns, initiator, -, split⟩ := readHandshakeMessage_ok P call
      exact ⟨patterns, initiator, .inr ⟨inside, position, split⟩⟩
    · rw [readHandshakeMessage_err P call]
      exact ⟨rfl, rfl, .inl ⟨rfl, rfl⟩⟩
  | setPsk location key =>
    simp only [Call.run] at h
    unfold HandshakeState.setPsk at h
    split at h <;> cases h <;> exact ⟨rfl, rfl, .inl ⟨rfl, rfl⟩⟩

/-- The call from `a` to `b` completes the last message: the position moves
from `len - 1` to `len`. -/
def Completes (a b : HandshakeState) : Prop :=
  a.patternPosition + 1 = a.messagePatterns.length ∧ b.patternPosition = a.patternPosition + 1

instance (a b : HandshakeState) : Decidable (Completes a b) :=
  inferInstanceAs (Decidable (_ ∧ _))

/-- The transport pair is assigned, by `split`, exactly in the call that
completes the last message. -/
theorem cipherstates_of_run {c : Call} {hs hs' : HandshakeState} (h : c.run P hs = some hs') :
    hs'.cipherstates =
      if Completes hs hs' then hs'.symmetricstate.split P hs.cipherstates else hs.cipherstates := by
  obtain ⟨-, -, ⟨position, same⟩ | ⟨inside, position, split⟩⟩ := Call.run_spec P h
  · rw [if_neg (by unfold Completes; omega), same]
  · rw [split]
    unfold Completes
    simp only [position, and_true]

theorem position_le_length {hs : HandshakeState} (reachable : Reachable P expand hs) :
    hs.patternPosition ≤ hs.messagePatterns.length := by
  induction reachable with
  | new built => rw [(new_ok P expand built).1]; omega
  | call c _ step ih =>
    obtain ⟨patterns, -, ⟨position, -⟩ | ⟨inside, position, -⟩⟩ := Call.run_spec P step <;>
      rw [patterns, position] <;> omega

/-- A finished handshake stays finished, with its transport pair. -/
theorem run_of_finished {c : Call} {hs hs' : HandshakeState} (finished : hs.isFinished = true)
    (h : c.run P hs = some hs') : hs'.isFinished = true ∧ hs'.cipherstates = hs.cipherstates := by
  rw [isFinished_iff] at finished ⊢
  obtain ⟨patterns, -, ⟨position, same⟩ | ⟨inside, -, -⟩⟩ := Call.run_spec P h
  · exact ⟨by rw [patterns, position, finished], same⟩
  · omega

theorem trace_cons (hs : HandshakeState) (c : Call) (cs : List Call) :
    trace P hs (c :: cs) =
      match c.run P hs with
      | none => []
      | some hs' => hs' :: trace P hs' cs := rfl

/-- A property that each call of a sequence keeps holds at every state of its
trace: the induction behind every whole-run fact about call sequences. -/
theorem trace_preserves {I : HandshakeState → Prop} {hs : HandshakeState} {calls : List Call}
    (step : ∀ c ∈ calls, ∀ {a b : HandshakeState}, c.run P a = some b → I a → I b)
    (start : I hs) : ∀ hs' ∈ trace P hs calls, I hs' := by
  induction calls generalizing hs with
  | nil => simp [trace]
  | cons c calls ih =>
    rw [trace_cons]
    cases run : c.run P hs with
    | none => simp
    | some hs₁ =>
      have next := step c (List.mem_cons_self _ _) run start
      intro hs' mem
      rcases List.mem_cons.mp mem with rfl | later
      · exact next
      · exact ih (fun c held => step c (List.mem_cons_of_mem _ held)) next hs' later

theorem trace_last_finished {hs : HandshakeState} (finished : hs.isFinished = true)
    (cs : List Call) : ((trace P hs cs).getLastD hs).isFinished = true := by
  induction cs generalizing hs with
  | nil => exact finished
  | cons c cs ih =>
    rw [trace_cons]
    cases step : c.run P hs with
    | none => exact finished
    | some hs' =>
      dsimp only
      rw [List.getLastD_cons]
      exact ih (run_of_finished P finished step).1

/-- The calls of a trace that complete the last message. -/
def completions : HandshakeState → List HandshakeState → Nat
  | _, [] => 0
  | a, b :: rest => (if Completes a b then 1 else 0) + completions b rest

/-- Over a whole trace from a state inside the message list, exactly one call
completes the handshake if the trace ends finished and did not start so, and
none otherwise. -/
theorem completions_trace {hs : HandshakeState}
    (bound : hs.patternPosition ≤ hs.messagePatterns.length) (cs : List Call) :
    completions hs (trace P hs cs) =
      if !hs.isFinished && ((trace P hs cs).getLastD hs).isFinished then 1 else 0 := by
  induction cs generalizing hs with
  | nil => simp [trace, completions]
  | cons c cs ih =>
    rw [trace_cons]
    cases step : c.run P hs with
    | none => simp [completions]
    | some hs' =>
      dsimp only
      simp only [completions, List.getLastD_cons]
      obtain ⟨patterns, -, ⟨position, -⟩ | ⟨inside, position, -⟩⟩ := Call.run_spec P step
      · have stays : ¬ Completes hs hs' := by unfold Completes; omega
        have same : hs'.isFinished = hs.isFinished := by simp [isFinished, position, patterns]
        rw [ih (by rw [patterns, position]; exact bound), same, if_neg stays]
        simp
      · by_cases last : hs.patternPosition + 1 = hs.messagePatterns.length
        · have done : hs'.isFinished = true := isFinished_iff.mpr (by rw [patterns]; omega)
          have before : hs.isFinished = false := by simp [isFinished]; omega
          rw [ih (by rw [patterns]; omega), if_pos ⟨last, position⟩, done, before,
            trace_last_finished P done]
          simp
        · have stays : ¬ Completes hs hs' := by unfold Completes; omega
          have before : hs.isFinished = false := by simp [isFinished]; omega
          have after : hs'.isFinished = false := by simp [isFinished, patterns]; omega
          rw [ih (by rw [patterns]; omega), after, before, if_neg stays]
          simp

/-- Only a successful write or read moves the position. -/
theorem Call.run_advances {c : Call} {hs hs' : HandshakeState} (h : c.run P hs = some hs')
    (advanced : hs'.patternPosition = hs.patternPosition + 1) :
    (∃ payload message v, c = .write payload message ∧
      hs.writeHandshakeMessage P payload message = .ok v hs') ∨
    (∃ message payload v, c = .read message payload ∧
      hs.readHandshakeMessage P message payload = .ok v hs') := by
  cases c with
  | write payload message =>
    simp only [Call.run] at h
    cases call : hs.writeHandshakeMessage P payload message <;> rw [call] at h <;> cases h
    · exact .inl ⟨_, _, _, rfl, call⟩
    · rw [writeHandshakeMessage_err P call] at advanced; simp at advanced
  | read message payload =>
    simp only [Call.run] at h
    cases call : hs.readHandshakeMessage P message payload <;> rw [call] at h <;> cases h
    · exact .inr ⟨_, _, _, rfl, call⟩
    · rw [readHandshakeMessage_err P call] at advanced; simp at advanced
  | setPsk location key =>
    obtain ⟨-, -, ⟨position, -⟩ | ⟨-, -, -⟩⟩ := Call.run_spec P h
    · omega
    · simp only [Call.run] at h
      unfold HandshakeState.setPsk at h
      split at h <;> cases h <;> simp at advanced

/-- Position and split. No reachable state is past the end of the message
list. A successful write or read advances the position by exactly one, and
nothing else moves it. The transport pair is assigned, by `split`, exactly in
the call that takes the position from `len - 1` to `len`; over any trace from a
reachable state that happens once if the trace ends finished and did not start
so, and never otherwise. A finished handshake stays finished, and no later
call changes its transport pair. -/
theorem position_and_split_invariant :
    (∀ hs, Reachable P expand hs → hs.patternPosition ≤ hs.messagePatterns.length) ∧
    (∀ (hs hs' : HandshakeState) (payload message : Bytes) (v : Nat × Bytes),
      hs.writeHandshakeMessage P payload message = .ok v hs' →
        hs'.patternPosition = hs.patternPosition + 1) ∧
    (∀ (hs hs' : HandshakeState) (message payload : Bytes) (v : Nat × Bytes),
      hs.readHandshakeMessage P message payload = .ok v hs' →
        hs'.patternPosition = hs.patternPosition + 1) ∧
    (∀ (c : Call) (hs hs' : HandshakeState), c.run P hs = some hs' →
      hs'.patternPosition = hs.patternPosition + 1 →
        (∃ payload message v, c = .write payload message ∧
          hs.writeHandshakeMessage P payload message = .ok v hs') ∨
        (∃ message payload v, c = .read message payload ∧
          hs.readHandshakeMessage P message payload = .ok v hs')) ∧
    (∀ (c : Call) (hs hs' : HandshakeState), c.run P hs = some hs' →
      hs'.cipherstates =
        if Completes hs hs' then hs'.symmetricstate.split P hs.cipherstates else hs.cipherstates) ∧
    (∀ (hs : HandshakeState) (cs : List Call), Reachable P expand hs →
      completions hs (trace P hs cs) =
        if !hs.isFinished && ((trace P hs cs).getLastD hs).isFinished then 1 else 0) ∧
    (∀ (c : Call) (hs hs' : HandshakeState), hs.isFinished = true → c.run P hs = some hs' →
      hs'.isFinished = true ∧ hs'.cipherstates = hs.cipherstates) :=
  ⟨fun _ reachable => position_le_length P expand reachable,
    fun _ _ _ _ _ write => (writeHandshakeMessage_ok P write).2.2.1,
    fun _ _ _ _ _ read => (readHandshakeMessage_ok P read).2.1,
    fun _ _ _ step advanced => Call.run_advances P step advanced,
    fun _ _ _ step => cipherstates_of_run P step,
    fun _ cs reachable => completions_trace P (position_le_length P expand reachable) cs,
    fun _ _ _ finished step => run_of_finished P finished step⟩

/-! ## The turn -/

/-- `_read_handshake_message` does not check the turn. The `NN` initiator,
whose turn it is at position 0, reads a 32-byte message as the responder's
`e`; it then holds the turn at the odd position 1 and completes a write of
the responder's message `e, ee`. -/
theorem nnInitiator_reads_out_of_turn :
    Reachable Primitives.sample sampleExpand nnInitiator ∧
      ∃ hs', nnInitiator.readHandshakeMessage Primitives.sample (List.replicate 32 0) [] =
        .ok (0, []) hs' ∧
      nnInitiator.myTurn = true ∧ hs'.initiator = true ∧ hs'.myTurn = true ∧
      hs'.patternPosition = 1 ∧
      ∃ v hs'', hs'.writeHandshakeMessage Primitives.sample [] (List.replicate 48 0) = .ok v hs'' :=
  ⟨.new new_nnInitiator, _, rfl, rfl, rfl, rfl, rfl, _, _, rfl⟩

end Screech
