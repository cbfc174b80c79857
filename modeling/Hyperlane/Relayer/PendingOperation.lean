/-
What the relayer's queues and its operations say to each other (hyperlane-core/src/traits/pending_operation.rs): the answers
of an operation, and the status it is queued with.
-/
import Mathlib.Tactic

namespace Hyperlane.Relayer

inductive ApplicationReport where
  | AmountBelowMinimum
  | MalformedMessage
  | ZeroAmount
deriving DecidableEq

inductive ReprepareReason where
  | Manual
  | ErrorCheckingDeliveryStatus
  | ErrorCheckingIfRecipientIsContract
  | ErrorFetchingIsmAddress
  | ErrorGettingMetadataBuilder
  | ErrorSubmitting
  | ErrorBuildingMetadata
  | CouldNotFetchMetadata
  | ErrorEstimatingGas
  | ErrorCheckingGasRequirement
  | GasPaymentRequirementNotMet
  | GasPaymentNotFound
  | ExceedsMaxGasLimit
  | RevertedOrReorged
  | MessageMetadataRefused
  | ApplicationReport (report : ApplicationReport)
  | ErrorCreatingPayload
  | ErrorStoringPayloadUuidsByMessageId
  | ErrorRetrievingPayloadUuids
  | ErrorRetrievingPayloadStatus
  | ErrorPersistingTerminalMessage
  | ErrorCreatingPayloadSuccessCriteria
  | AwaitingValidatorSignatures
  | AwaitingIcaReveal
deriving DecidableEq

inductive ConfirmReason where
  | SubmittedBySelf
  | AlreadySubmitted
  | ErrorConfirmingDelivery
  | ErrorRecordingProcessSuccess
deriving DecidableEq

inductive PendingOperationStatus where
  | FirstPrepareAttempt
  | Retry (reason : ReprepareReason)
  | ReadyToSubmit
  | Confirm (reason : ConfirmReason)
deriving DecidableEq

inductive PendingOperationResult where
  /-- promote to the next step -/
  | Success
  /-- not ready to be attempted again yet -/
  | NotReady
  /-- to be started from scratch again -/
  | Reprepare (reason : ReprepareReason)
  /-- not to be attempted again -/
  | Drop
  /-- straight to the confirm queue -/
  | Confirm (reason : ConfirmReason)
deriving DecidableEq

/-- the queues of a destination -/
inductive Queue where
  | prepare
  | submit
  | confirm
deriving DecidableEq

end Hyperlane.Relayer
