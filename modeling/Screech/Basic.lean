import Mathlib.Data.List.Basic

/-!
# Bytes, errors, toggled slots and outcomes

The vocabulary the rest of the handshake model shares: byte strings and the
bounded write into a buffer, with `copy_memory` of `utils.rs` as a byte loop
equal to it; the crate's size constants, its error kinds, the `Toggle` slot of
`utils.rs`, and the ways a call of the crate ends.

`constants.rs` and `error.rs` are not among the sources. Their constants and
error kinds are taken from the specification (§3, §6, §7) and from the names
`handshakestate.rs` uses: only the variants some modelled function raises are
kept.

A call of the crate either returns `Ok`, returns `Err` after whatever mutations
it made before the `bail!`, or panics (a slice or an index out of bounds, an
arithmetic underflow, an `unreachable!()`). `Outcome` keeps the three apart,
so that "never panics" and "a failed call changes nothing" are statements
about the model.
-/

namespace Screech

/-- A byte string: the model of a `&[u8]`, a `&mut [u8]` or a `[u8; N]`. -/
abbrev Bytes := List UInt8

/-- `TAGLEN`: the length of an AEAD tag. -/
def TAGLEN : Nat := 16

/-- `MAXMSGLEN`: the largest handshake message. -/
def MAXMSGLEN : Nat := 65535

/-- `PSKLEN`: the length of a pre-shared key. -/
def PSKLEN : Nat := 32

/-- `MAXDHLEN`: the length of the `rs` and `re` buffers, the largest public key
of the DH choices (`448`). -/
def MAXDHLEN : Nat := 56

/-- `CIPHERKEYLEN`: the length of a cipher key cut from an HKDF output. -/
def CIPHERKEYLEN : Nat := 32

/-- `buf[offset..offset + data.len()].copy_from_slice(data)`: `none` when the
range is out of bounds, where Rust panics. -/
def writeAt (buf : Bytes) (offset : Nat) (data : Bytes) : Option Bytes :=
  if offset + data.length ≤ buf.length then
    some (buf.take offset ++ data ++ buf.drop (offset + data.length))
  else none

theorem writeAt_eq_some {buf data out : Bytes} {offset : Nat} :
    writeAt buf offset data = some out ↔
      offset + data.length ≤ buf.length ∧
        out = buf.take offset ++ data ++ buf.drop (offset + data.length) := by
  unfold writeAt; split <;> simp_all [eq_comm]

theorem writeAt_eq_none {buf data : Bytes} {offset : Nat} :
    writeAt buf offset data = none ↔ buf.length < offset + data.length := by
  unfold writeAt; split <;> simp_all

/-- A write in bounds leaves the buffer's length. -/
theorem length_of_writeAt {buf data out : Bytes} {offset : Nat}
    (write : writeAt buf offset data = some out) : out.length = buf.length := by
  obtain ⟨fits, rfl⟩ := writeAt_eq_some.mp write
  simp only [List.length_append, List.length_take, List.length_drop]
  omega

/-- Writing nothing is the identity, inside the buffer. -/
theorem writeAt_nil {buf : Bytes} {offset : Nat} (fits : offset ≤ buf.length) :
    writeAt buf offset [] = some buf :=
  writeAt_eq_some.mpr ⟨fits, by simp⟩

/-- Two writes end to end are one write of both. -/
theorem writeAt_append {buf mid out first second : Bytes} {offset : Nat}
    (front : writeAt buf offset first = some mid)
    (back : writeAt mid (offset + first.length) second = some out) :
    writeAt buf offset (first ++ second) = some out := by
  obtain ⟨fits, rfl⟩ := writeAt_eq_some.mp front
  obtain ⟨fits', rfl⟩ := writeAt_eq_some.mp back
  have len : (buf.take offset ++ first).length = offset + first.length := by simp; omega
  refine writeAt_eq_some.mpr ⟨by simp at fits' ⊢; omega, ?_⟩
  rw [List.take_left' len, ← len, List.drop_append, len, List.drop_drop, List.length_append]
  simp only [List.append_assoc, Nat.add_assoc]

/-- One byte, then the rest after it: a write is a byte store followed by a
write one place further on. -/
theorem writeAt_cons {buf rest : Bytes} {offset : Nat} {byte : UInt8}
    (inside : offset < buf.length) :
    writeAt buf offset (byte :: rest) = writeAt (buf.set offset byte) (offset + 1) rest := by
  have first : writeAt buf offset [byte] = some (buf.set offset byte) :=
    writeAt_eq_some.mpr ⟨inside, by rw [List.set_eq_take_cons_drop _ inside]; simp⟩
  cases second : writeAt (buf.set offset byte) (offset + 1) rest with
  | some out => exact writeAt_append first second
  | none =>
    rw [writeAt_eq_none] at second ⊢
    simp only [List.length_set, List.length_cons] at second ⊢
    omega

/-- The loop of `copy_memory` (`utils.rs`) from index `count` on, with the
bytes of `input` from `count` on: `out[count] = input[count]`, where an index
past the end of `out` panics. -/
def copyLoop (count : Nat) : Bytes → Bytes → Option Bytes
  | [], out => some out
  | byte :: input, out =>
    if count < out.length then copyLoop (count + 1) input (out.set count byte) else none

/-- `copy_memory(input, out)`: the loop over `0..input.len()`, then
`input.len()`. -/
def copyMemory (input out : Bytes) : Option (Nat × Bytes) :=
  (copyLoop 0 input out).map fun out => (input.length, out)

/-- The byte loop is the slice write from where it starts. -/
theorem copyLoop_eq {count : Nat} {input out : Bytes} (fits : count ≤ out.length) :
    copyLoop count input out = writeAt out count input := by
  induction input generalizing count out with
  | nil => exact (writeAt_nil fits).symm
  | cons byte input ih =>
    rw [copyLoop]
    split
    · rename_i inside
      rw [ih (by rw [List.length_set]; omega), writeAt_cons inside]
    · exact (writeAt_eq_none.mpr (by simp only [List.length_cons]; omega)).symm

/-- `copy_memory` copies `input` over the start of `out`, leaves the rest of
`out`, and returns `input.len()`; it panics exactly when `out` is shorter than
`input`. -/
theorem copyMemory_spec (input out : Bytes) :
    copyMemory input out =
      if input.length ≤ out.length then some (input.length, input ++ out.drop input.length)
      else none := by
  rw [copyMemory, copyLoop_eq (Nat.zero_le _), writeAt, Nat.zero_add]
  split <;> simp

example : copyMemory [1, 2] [0, 0, 0] = some (2, [1, 2, 0]) := by decide

/-! ## Errors -/

/-- `error::PatternProblem`: a protocol name the parser rejects. -/
inductive PatternProblem where
  | TooFewParameters
  | UnsupportedBaseType
  | UnsupportedHandshakeType
  | UnsupportedModifier
  | UnsupportedDhType
  | UnsupportedKemType
  | UnsupportedCipherType
  | UnsupportedHashType
  deriving DecidableEq, Repr

/-- `error::InitStage`: a construction failure. -/
inductive InitStage where
  | ValidateKeyLengths
  deriving DecidableEq, Repr

/-- `error::StateProblem`: a call the handshake's state does not allow. -/
inductive StateProblem where
  | MissingKeyMaterial
  | MissingPsk
  | NotTurnToWrite
  | HandshakeAlreadyFinished
  deriving DecidableEq, Repr

/-- `error::Error`; `bail!(x)` returns `Err(x.into())`. -/
inductive Error where
  | Pattern (problem : PatternProblem)
  | Init (stage : InitStage)
  | State (problem : StateProblem)
  | Input
  | Dh
  | Decrypt
  deriving DecidableEq, Repr

/-! ## Toggled slots -/

/-- `utils::Toggle`: an always-allocated inner value and its `on` bit, which
`is_on()` reads. -/
structure Toggle (α : Type) where
  inner : α
  isOn : Bool
  deriving DecidableEq, Repr

namespace Toggle

variable {α : Type}

/-- `Toggle::enable`. -/
def enable (t : Toggle α) : Toggle α := { t with isOn := true }

/-- `Toggle::as_option_ref`, which `handshakestate.rs` calls as `get()`. -/
def get (t : Toggle α) : Option α := if t.isOn then some t.inner else none

@[simp] theorem enable_inner (t : Toggle α) : t.enable.inner = t.inner := rfl

@[simp] theorem enable_isOn (t : Toggle α) : t.enable.isOn = true := rfl

theorem get_eq_some {t : Toggle α} {a : α} : t.get = some a ↔ t.isOn = true ∧ t.inner = a := by
  unfold get; split <;> simp_all

end Toggle

/-! ## Outcomes -/

/-- How a `&mut self` call ends: `Ok(value)` with the state it leaves, `Err(error)`
with the state it leaves (the mutations made before the `bail!` stay), or a
panic, after which there is no state. -/
inductive Outcome (σ α : Type) where
  | ok (value : α) (state : σ)
  | err (error : Error) (state : σ)
  | panic
  deriving DecidableEq, Repr

/-- How a call without a receiver ends. -/
inductive Result (α : Type) where
  | ok (value : α)
  | err (error : Error)
  | panic
  deriving DecidableEq, Repr

/-- `?` on a call without a receiver. -/
def Result.bind {α β : Type} (x : Result α) (f : α → Result β) : Result β :=
  match x with
  | .ok a => f a
  | .err e => .err e
  | .panic => .panic

theorem Result.bind_eq_ok {α β : Type} {x : Result α} {f : α → Result β} {b : β} :
    x.bind f = .ok b ↔ ∃ a, x = .ok a ∧ f a = .ok b := by
  cases x <;> simp [Result.bind]

namespace Outcome

variable {σ α β : Type}

/-- Run `f` on the value and state of an `Ok`; `?` passes an `Err` on, and a
panic stops everything. -/
def bind (x : Outcome σ α) (f : α → σ → Outcome σ β) : Outcome σ β :=
  match x with
  | ok a s => f a s
  | err e s => err e s
  | panic => panic

/-- The state a call leaves, if it did not panic. -/
def state? : Outcome σ α → Option σ
  | ok _ s => some s
  | err _ s => some s
  | panic => none

@[simp] theorem ok_bind (a : α) (s : σ) (f : α → σ → Outcome σ β) :
    (ok a s).bind f = f a s := rfl

@[simp] theorem err_bind (e : Error) (s : σ) (f : α → σ → Outcome σ β) :
    (err e s : Outcome σ α).bind f = err e s := rfl

@[simp] theorem panic_bind (f : α → σ → Outcome σ β) :
    (panic : Outcome σ α).bind f = panic := rfl

/-- Inversion of `bind` at an `Ok`. -/
theorem bind_eq_ok {x : Outcome σ α} {f : α → σ → Outcome σ β} {b : β} {s : σ} :
    x.bind f = ok b s ↔ ∃ a t, x = ok a t ∧ f a t = ok b s := by
  cases x <;> simp [bind, and_assoc]

/-- Inversion of `bind` at an `Err`: the first computation failed, or it
succeeded and the second one failed. -/
theorem bind_eq_err {x : Outcome σ α} {f : α → σ → Outcome σ β} {e : Error} {s : σ} :
    x.bind f = err e s ↔ x = err e s ∨ ∃ a t, x = ok a t ∧ f a t = err e s := by
  cases x <;> simp [bind, and_assoc]

theorem bind_eq_panic {x : Outcome σ α} {f : α → σ → Outcome σ β} :
    x.bind f = panic ↔ x = panic ∨ ∃ a t, x = ok a t ∧ f a t = panic := by
  cases x <;> simp [bind, and_assoc]

/-- A bound computation leaves a state only if its first part left one and
stopped there, or succeeded and the rest left it. -/
theorem state?_bind {x : Outcome σ α} {f : α → σ → Outcome σ β} {s : σ}
    (h : (x.bind f).state? = some s) :
    x.state? = some s ∨ ∃ a t, x = ok a t ∧ (f a t).state? = some s := by
  cases x with
  | ok a t => exact .inr ⟨a, t, rfl, h⟩
  | err e t => exact .inl h
  | panic => cases h

end Outcome

end Screech
