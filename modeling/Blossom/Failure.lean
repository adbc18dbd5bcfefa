import Blossom.CheckedSteps

/-!
# Errors and panics

Fallible functions return one of the crate's errors. A panic is kept apart from an
error: it is an outcome of its own, which no caller handles.
-/

namespace Blossom

inductive BlossomError where
  | missingSecretKey
  | signatureError
  | keyMismatch
  | unknownSender
  | emptyEpochChain
  | invalidEpochNonce
  | invalidBlockHash
  | invalidBlockLastEpoch
  | invalidBlockNonce (expected actual : ℕ)
  | blockApplicationStateTooLarge (max actual : ℕ)
  | duplicateBlock
  | blockQueueFull
  | io (message : String)
  | invalidQuorumSize (size : ℕ)
  | invalidHighAvailabilityNodeCount (size : ℕ)
  | epochSealed (target sealed writable : ℕ)
  | invalidConfiguration (message : String)
  | consensusParametersMismatch (configured committed : ℕ)
  | wireProtocol (message : String)
  | externalService (message : String)
  | failedConsensus
  deriving DecidableEq

inductive Failure where
  | error (e : BlossomError)
  | panicked (message : String)
  deriving DecidableEq

def Failure.IsPanic : Failure → Prop
  | error _ => False
  | panicked _ => True

/-- The result of a call that may return an error or panic. -/
abbrev Result (α : Type) := Except Failure α

def wireProtocol (message : String) : Failure := .error (.wireProtocol message)

def externalService (message : String) : Failure := .error (.externalService message)

def invalidConfiguration (message : String) : Failure := .error (.invalidConfiguration message)

end Blossom
