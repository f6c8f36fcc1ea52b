import Screech.Basic

/-!
# Handshake patterns, modifiers and tokens

Modelled from the spec: `params/patterns.rs` is not among the sources. What
`params/mod.rs` and `handshakestate.rs` use of it is modelled here from the
specification's §3 and §4.B: the pattern names, the modifiers `fallback`,
`psk<n>` and `hfs`, the parser of the pattern-and-modifiers field of a
protocol name, the predicates `is_psk` and `is_hfs`, and the tokens.

The expander `HandshakeTokens::try_from` (§4.C) is not modelled: its tables
are not in the specification. `HandshakeState.new` takes it as a parameter,
so every result about the handshake holds for every table.
-/

namespace Screech

/-- `HandshakePattern`: the one-way, interactive and deferred patterns of the
Noise specification. -/
inductive HandshakePattern where
  | N | K | X
  | NN | NK | NX | XN | XK | XX | KN | KK | KX | IN | IK | IX
  | NK1 | NX1 | X1N | X1K | XK1 | X1K1 | X1X | XX1 | X1X1
  | K1N | K1K | KK1 | K1K1 | K1X | KX1 | K1X1
  | I1N | I1K | IK1 | I1K1 | I1X | IX1 | I1X1
  deriving DecidableEq, Repr

/-- `HandshakePattern::from_str`: an exact match on the pattern's name. -/
def HandshakePattern.fromStr (s : String) : Except Error HandshakePattern :=
  match s with
  | "N" => .ok .N | "K" => .ok .K | "X" => .ok .X
  | "NN" => .ok .NN | "NK" => .ok .NK | "NX" => .ok .NX
  | "XN" => .ok .XN | "XK" => .ok .XK | "XX" => .ok .XX
  | "KN" => .ok .KN | "KK" => .ok .KK | "KX" => .ok .KX
  | "IN" => .ok .IN | "IK" => .ok .IK | "IX" => .ok .IX
  | "NK1" => .ok .NK1 | "NX1" => .ok .NX1 | "X1N" => .ok .X1N
  | "X1K" => .ok .X1K | "XK1" => .ok .XK1 | "X1K1" => .ok .X1K1
  | "X1X" => .ok .X1X | "XX1" => .ok .XX1 | "X1X1" => .ok .X1X1
  | "K1N" => .ok .K1N | "K1K" => .ok .K1K | "KK1" => .ok .KK1
  | "K1K1" => .ok .K1K1 | "K1X" => .ok .K1X | "KX1" => .ok .KX1
  | "K1X1" => .ok .K1X1 | "I1N" => .ok .I1N | "I1K" => .ok .I1K
  | "IK1" => .ok .IK1 | "I1K1" => .ok .I1K1 | "I1X" => .ok .I1X
  | "IX1" => .ok .IX1 | "I1X1" => .ok .I1X1
  | _ => .error (.Pattern .UnsupportedHandshakeType)

/-- `HandshakeModifier`: `psk<n>`, `fallback` or `hfs`. -/
inductive HandshakeModifier where
  | Psk (n : UInt8)
  | Fallback
  | Hfs
  deriving DecidableEq, Repr

/-- The value of a string of decimal digits, read from the left. -/
def decimalValue : List Char → Nat → Option Nat
  | [], acc => some acc
  | c :: cs, acc => if c.isDigit then decimalValue cs (10 * acc + (c.toNat - '0'.toNat)) else none

/-- `HandshakeModifier::from_str`: `fallback`, `hfs`, or `psk` followed by a
decimal number of at most 255. -/
def HandshakeModifier.fromStr (s : String) : Except Error HandshakeModifier :=
  match s with
  | "fallback" => .ok .Fallback
  | "hfs" => .ok .Hfs
  | _ =>
    match s.toList with
    | 'p' :: 's' :: 'k' :: d :: ds =>
      match decimalValue (d :: ds) 0 with
      | some n => if n ≤ 255 then .ok (.Psk n.toUInt8) else .error (.Pattern .UnsupportedModifier)
      | none => .error (.Pattern .UnsupportedModifier)
    | _ => .error (.Pattern .UnsupportedModifier)

/-- `HandshakeModifierList`: the modifiers of a protocol name, in order. -/
structure HandshakeModifierList where
  list : List HandshakeModifier
  deriving DecidableEq, Repr

/-- `HandshakeChoice`: a pattern and its modifiers. -/
structure HandshakeChoice where
  pattern : HandshakePattern
  modifiers : HandshakeModifierList
  deriving DecidableEq, Repr

namespace HandshakeChoice

/-- `HandshakeChoice::is_psk`: some modifier is `psk<n>`. -/
def isPsk (h : HandshakeChoice) : Bool :=
  h.modifiers.list.any fun | .Psk _ => true | _ => false

/-- `HandshakeChoice::is_hfs`: the `hfs` modifier is present. -/
def isHfs (h : HandshakeChoice) : Bool :=
  h.modifiers.list.any fun | .Hfs => true | _ => false

/-- `HandshakeChoice::from_str`: the leading run of uppercase letters and
digits names the pattern; what follows, if anything, is split on `+` into
modifiers. -/
def fromStr (s : String) : Except Error HandshakeChoice := do
  let (name, rest) := s.toList.span fun c => c.isUpper || c.isDigit
  let pattern ← HandshakePattern.fromStr (String.mk name)
  let list ← if rest.isEmpty then pure [] else
    (rest.splitOn '+').mapM fun m => HandshakeModifier.fromStr (String.mk m)
  pure ⟨pattern, ⟨list⟩⟩

end HandshakeChoice

/-! ## Tokens -/

/-- `Token`: the tokens `handshakestate.rs` dispatches on. The DH tokens name
the writer's key first: the writer of `Dhes` uses its `e` and the reader's `s`. -/
inductive Token where
  | E
  | S
  | Dhee
  | Dhes
  | Dhse
  | Dhss
  | Psk (n : UInt8)
  deriving DecidableEq, Repr

/-- `MessagePatterns`: the tokens of each handshake message, in order. -/
abbrev MessagePatterns := List (List Token)

/-- `HandshakeTokens`: what the expander makes of a `HandshakeChoice`. -/
structure HandshakeTokens where
  premsgPatternI : List Token
  premsgPatternR : List Token
  msgPatterns : MessagePatterns
  deriving DecidableEq, Repr

end Screech
