/-!
The status codes that the engine returns and those that a client is given, with their names
and numbers. Every engine status has a client status.
-/
namespace AccessList.Statuses

inductive EngineStatus
  | success
  | failure
  | notSupported
  | noMemory
  | insufficientResources
  | invalidParameter
  | itemAlreadyExists
  | itemNotFound
  | invalidHandle
  | resourceInUse
  | tableFull
  | hwFailure
  deriving DecidableEq, Repr

inductive ClientStatus
  | success
  | failure
  | notSupported
  | noMemory
  | insufficientResources
  | invalidParameter
  | itemAlreadyExists
  | itemNotFound
  | tableFull
  | mandatoryAttributeMissing
  | objectInUse
  | invalidObjectId
  | invalidAttribute
  deriving DecidableEq, Repr

namespace EngineStatus

def all : List EngineStatus :=
  [.success, .failure, .notSupported, .noMemory, .insufficientResources, .invalidParameter,
    .itemAlreadyExists, .itemNotFound, .invalidHandle, .resourceInUse, .tableFull, .hwFailure]

/-- Statuses are numbered from zero in their order. -/
def code (s : EngineStatus) : Nat := all.idxOf s

def name : EngineStatus → String
  | .success => "SWITCH_STATUS_SUCCESS"
  | .failure => "SWITCH_STATUS_FAILURE"
  | .notSupported => "SWITCH_STATUS_NOT_SUPPORTED"
  | .noMemory => "SWITCH_STATUS_NO_MEMORY"
  | .insufficientResources => "SWITCH_STATUS_INSUFFICIENT_RESOURCES"
  | .invalidParameter => "SWITCH_STATUS_INVALID_PARAMETER"
  | .itemAlreadyExists => "SWITCH_STATUS_ITEM_ALREADY_EXISTS"
  | .itemNotFound => "SWITCH_STATUS_ITEM_NOT_FOUND"
  | .invalidHandle => "SWITCH_STATUS_INVALID_HANDLE"
  | .resourceInUse => "SWITCH_STATUS_RESOURCE_IN_USE"
  | .tableFull => "SWITCH_STATUS_TABLE_FULL"
  | .hwFailure => "SWITCH_STATUS_HW_FAILURE"

def client : EngineStatus → ClientStatus
  | .success => .success
  | .failure | .hwFailure => .failure
  | .notSupported => .notSupported
  | .noMemory => .noMemory
  | .insufficientResources => .insufficientResources
  | .invalidParameter => .invalidParameter
  | .itemAlreadyExists => .itemAlreadyExists
  | .itemNotFound => .itemNotFound
  | .invalidHandle => .invalidObjectId
  | .resourceInUse => .objectInUse
  | .tableFull => .tableFull

theorem client_eq_success_iff {s : EngineStatus} : s.client = .success ↔ s = .success := by
  cases s <;> simp [client]

end EngineStatus

namespace ClientStatus

def all : List ClientStatus :=
  [.success, .failure, .notSupported, .noMemory, .insufficientResources, .invalidParameter,
    .itemAlreadyExists, .itemNotFound, .tableFull, .mandatoryAttributeMissing, .objectInUse,
    .invalidObjectId, .invalidAttribute]

/-- Every status but success has a negative number. -/
def code : ClientStatus → Int
  | .success => 0
  | .failure => -1
  | .notSupported => -2
  | .noMemory => -3
  | .insufficientResources => -4
  | .invalidParameter => -5
  | .itemAlreadyExists => -6
  | .itemNotFound => -7
  | .tableFull => -13
  | .mandatoryAttributeMissing => -14
  | .objectInUse => -17
  | .invalidObjectId => -19
  | .invalidAttribute => -24

def name : ClientStatus → String
  | .success => "SAI_STATUS_SUCCESS"
  | .failure => "SAI_STATUS_FAILURE"
  | .notSupported => "SAI_STATUS_NOT_SUPPORTED"
  | .noMemory => "SAI_STATUS_NO_MEMORY"
  | .insufficientResources => "SAI_STATUS_INSUFFICIENT_RESOURCES"
  | .invalidParameter => "SAI_STATUS_INVALID_PARAMETER"
  | .itemAlreadyExists => "SAI_STATUS_ITEM_ALREADY_EXISTS"
  | .itemNotFound => "SAI_STATUS_ITEM_NOT_FOUND"
  | .tableFull => "SAI_STATUS_TABLE_FULL"
  | .mandatoryAttributeMissing => "SAI_STATUS_MANDATORY_ATTRIBUTE_MISSING"
  | .objectInUse => "SAI_STATUS_OBJECT_IN_USE"
  | .invalidObjectId => "SAI_STATUS_INVALID_OBJECT_ID"
  | .invalidAttribute => "SAI_STATUS_INVALID_ATTRIBUTE"

end ClientStatus

end AccessList.Statuses
