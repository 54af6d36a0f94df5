import Piggy.Card.Session
import Piggy.Markl.Purpose

/-!
# Algorithms and policies of slot keys

The algorithm of a slot key decides what the card is given to sign. A key may need the PIN and
a touch at every use; the card attests to both.
-/

namespace Piggy.Card

open Piggy.Box Piggy.Markl

/-- A text as the debug format prints it. -/
def debugStr (s : String) : String :=
  "\"" ++ String.join (s.toList.map PurposeId.debugChar) ++ "\""

/-- The key algorithms of PIV. -/
inductive PivAlgorithm where
  | rsa1024
  | rsa2048
  | ecP256
  | ecP384
  | ed25519
  deriving DecidableEq

/-- The byte of an algorithm. -/
def PivAlgorithm.toByte : PivAlgorithm → UInt8
  | rsa1024 => 0x06
  | rsa2048 => 0x07
  | ecP256 => 0x11
  | ecP384 => 0x14
  | ed25519 => 0xE0

theorem PivAlgorithm.toByte_inj {a b : PivAlgorithm} (h : a.toByte = b.toByte) : a = b := by
  cases a <;> cases b <;> first | rfl | exact absurd h (by decide)

/-- When the PIN is asked for. -/
inductive PinPolicy where
  | default
  | never
  | once
  | always
  deriving DecidableEq

/-- The name of a policy. -/
def PinPolicy.asStr : PinPolicy → String
  | default => "default"
  | never => "never"
  | once => "once"
  | always => "always"

/-- When a touch is asked for. -/
inductive TouchPolicy where
  | default
  | never
  | always
  | cached
  deriving DecidableEq

/-- The name of a policy. -/
def TouchPolicy.asStr : TouchPolicy → String
  | default => "default"
  | never => "never"
  | always => "always"
  | cached => "cached"

/-- A policy by its name. -/
def PinPolicy.fromStr (s : String) : Except String PinPolicy :=
  if s = "default" then .ok .default
  else if s = "never" then .ok .never
  else if s = "once" then .ok .once
  else if s = "always" then .ok .always
  else .error s!"unknown PIN policy {debugStr s} (expected default, never, once or always)"

/-- The policy of a name. -/
def TouchPolicy.fromStr (s : String) : Except String TouchPolicy :=
  if s = "default" then .ok .default
  else if s = "never" then .ok .never
  else if s = "always" then .ok .always
  else if s = "cached" then .ok .cached
  else .error s!"unknown touch policy {debugStr s} (expected default, never, always or cached)"

/-- The policies of a key. -/
structure KeyPolicy where
  pin : PinPolicy
  touch : TouchPolicy
  deriving DecidableEq

namespace KeyPolicy

/-- No policy: what the card does for the slot. -/
def cardDefault : KeyPolicy := ⟨.default, .default⟩

/-- The policy of a key for operator acts: every use needs the PIN and a touch. -/
def operatorAct : KeyPolicy := ⟨.always, .always⟩

/-- The policy of a key for operator acts. -/
def servesOperatorActs (policy : KeyPolicy) : Bool := policy = operatorAct

/-- The policies in a text. -/
def text (policy : KeyPolicy) : String := s!"PIN {policy.pin.asStr}, touch {policy.touch.asStr}"

/-- The PIN policy that the card applies to a slot. -/
def effectivePin (policy : KeyPolicy) (slot : UInt8) : PinPolicy :=
  if policy.pin = .default then
    if slot = 0x9C then .always else if slot = 0x9E then .never else .once
  else policy.pin

/-- Whether a use of the key waits for a touch. -/
def needsTouch (policy : KeyPolicy) : Bool := policy.touch = .always || policy.touch = .cached

end KeyPolicy

/-! ## Refusals of the card -/

/-- What a refusal for want of security status means. -/
inductive SecurityStatusRefusal where
  | touchTimedOut
  | pinStateNotSatisfied
  deriving DecidableEq

/-- How long a refusal takes at least that is the end of waiting for a touch, in milliseconds. -/
def touchTimeoutFloor : Nat := 250

/-- Whether a refusal came late enough to be a missed touch. -/
def SecurityStatusRefusal.classify (millis : Nat) (needsTouch : Bool) : SecurityStatusRefusal :=
  if needsTouch ∧ touchTimeoutFloor ≤ millis then .touchTimedOut else .pinStateNotSatisfied

/-- The text of a refusal. -/
def SecurityStatusRefusal.describe (millis : Nat) : SecurityStatusRefusal → String
  | touchTimedOut => s!"the card was not touched in time (it gave up waiting after " ++
      s!"{(millis + 50) / 1000}.{(millis + 50) / 100 % 10} s)"
  | pinStateNotSatisfied =>
    s!"the card refused the operation after {millis} ms with SW=0x6982 (security status " ++
      "not satisfied): too soon to be a missed touch, so the verified PIN was no longer in force"

end Piggy.Card
