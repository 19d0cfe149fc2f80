import Mathlib.Data.Finset.Basic
import ShareCli.Foundation.Machine
import ShareCli.Foundation.Word

/-!
# Admission predicates (`crates/sharecli-core/src/transaction_contract.rs`)

A pool of reserved units, a producer shared by consumers, and the versioned set of a parent's children. A
method that can fail has the state after the call in both cases.
-/

namespace ShareCli.Core

open Foundation

/-- Why a call was refused. -/
inductive GuardError where
  | duplicate
  | insufficientCapacity
  | overflow
  | unknownReservation
  | unknownConsumer
  | invalidUnits
  | notReclaimed
  | producerStopping
  | staleGeneration
  | ineligibleShare
  | staleMembership
  | unfinishedChild
deriving DecidableEq

/-- The units that are reserved under each id. -/
structure ReservationPool where
  capacity : UInt64
  active : AList fun _ : String => UInt64

namespace ReservationPool

def new (capacity : UInt64) : ReservationPool := { capacity, active := ∅ }

variable (pool : ReservationPool)

def values : List UInt64 := pool.active.entries.map Sigma.snd

/-- The sum of the active reservations; nothing where the addition overflows. -/
def admitted : Option UInt64 := Word.checkedSumFrom 0 pool.values

def reserve (reservationId : String) (units : UInt64) :
    Except GuardError Unit × ReservationPool :=
  if (pool.active.lookup reservationId).isSome then (.error .duplicate, pool)
  else if units = 0 then (.error .invalidUnits, pool)
  else
    match Word.checkedSumFrom 0 pool.values with
    | none => (.error .overflow, pool)
    | some used =>
      match Word.checkedAdd used units with
      | none => (.error .overflow, pool)
      | some next =>
        if next > pool.capacity then (.error .insufficientCapacity, pool)
        else (.ok (), { pool with active := pool.active.insert reservationId units })

def release (reservationId : String) (reclaimed : Bool) :
    Except GuardError Unit × ReservationPool :=
  if (pool.active.lookup reservationId).isNone then (.error .unknownReservation, pool)
  else if !reclaimed then (.error .notReclaimed, pool)
  else (.ok (), { pool with active := pool.active.erase reservationId })

inductive Call where
  | reserve (reservationId : String) (units : UInt64)
  | release (reservationId : String) (reclaimed : Bool)
deriving DecidableEq

def call : Call → Except GuardError Unit × ReservationPool
  | .reserve reservationId units => pool.reserve reservationId units
  | .release reservationId reclaimed => pool.release reservationId reclaimed

def machine (capacity : UInt64) : Machine ReservationPool Call where
  init := new capacity
  step pool call := some (pool.call call).2

end ReservationPool

inductive ProducerState where
  | running
  | stopping
deriving DecidableEq

/-- One generation of a producer and the consumers that share it. -/
structure SharedProducer where
  generation : UInt64
  state : ProducerState
  consumers : Finset String
deriving DecidableEq

namespace SharedProducer

def new (generation : UInt64) : SharedProducer := { generation, state := .running, consumers := ∅ }

variable (producer : SharedProducer)

def join (generation : UInt64) (consumerId : String)
    (equivalent shareAllowed outputAuthorized : Bool) : Except GuardError Unit × SharedProducer :=
  if generation ≠ producer.generation then (.error .staleGeneration, producer)
  else if producer.state ≠ .running then (.error .producerStopping, producer)
  else if !(equivalent && shareAllowed && outputAuthorized) then (.error .ineligibleShare, producer)
  else (.ok (), { producer with consumers := insert consumerId producer.consumers })

/-- Whether the producer has become empty and is stopping. -/
def detach (generation : UInt64) (consumerId : String) :
    Except GuardError Bool × SharedProducer :=
  if generation ≠ producer.generation then (.error .staleGeneration, producer)
  else if consumerId ∉ producer.consumers then (.error .unknownConsumer, producer)
  else
    let producer := { producer with consumers := producer.consumers.erase consumerId }
    if producer.consumers = ∅ ∧ producer.state = .running then
      (.ok true, { producer with state := .stopping })
    else (.ok false, producer)

inductive Call where
  | join (generation : UInt64) (consumerId : String) (equivalent shareAllowed outputAuthorized : Bool)
  | detach (generation : UInt64) (consumerId : String)
deriving DecidableEq

def refuses : Call → Bool
  | .join generation _ equivalent shareAllowed outputAuthorized =>
    decide (generation ≠ producer.generation) ||
      !(equivalent && shareAllowed && outputAuthorized)
  | .detach generation consumerId =>
    decide (generation ≠ producer.generation) || decide (consumerId ∉ producer.consumers)

def call : Call → SharedProducer
  | .join generation consumerId equivalent shareAllowed outputAuthorized =>
    (producer.join generation consumerId equivalent shareAllowed outputAuthorized).2
  | .detach generation consumerId => (producer.detach generation consumerId).2

def stopsAt : Call → Bool
  | .join .. => false
  | .detach generation consumerId =>
    match (producer.detach generation consumerId).1 with
    | .ok stopped => stopped
    | .error _ => false

/-- The producer with the number of calls of `detach` that have returned true. -/
structure Run where
  producer : SharedProducer
  stops : Nat
deriving DecidableEq

def machine (generation : UInt64) : Machine Run Call where
  init := { producer := new generation, stops := 0 }
  step run call :=
    some
      { producer := run.producer.call call
        stops := run.stops + if run.producer.stopsAt call then 1 else 0 }

end SharedProducer

/-- The children of a parent and whether each has been accepted; the version changes with every new child. -/
structure ParentMembership where
  version : UInt64
  sealed : Bool
  required : AList fun _ : String => Bool

namespace ParentMembership

def default : ParentMembership := { version := 0, sealed := false, required := ∅ }

variable (parent : ParentMembership)

def addChild (id : String) : Except GuardError Unit × ParentMembership :=
  if parent.sealed then (.error .staleMembership, parent)
  else if (parent.required.lookup id).isSome then (.error .duplicate, parent)
  else
    match Word.checkedAdd parent.version 1 with
    | none => (.error .overflow, parent)
    | some version => (.ok (), { parent with version, required := parent.required.insert id false })

def markAccepted (id : String) : Except GuardError Unit × ParentMembership :=
  if parent.sealed then (.error .staleMembership, parent)
  else
    match parent.required.lookup id with
    | none => (.error .unknownReservation, parent)
    | some _ => (.ok (), { parent with required := parent.required.insert id true })

def isComplete : Bool := parent.required.entries.all fun child => child.2

def sealAt (expectedVersion : UInt64) :
    Except GuardError Unit × ParentMembership :=
  if parent.sealed ∨ expectedVersion ≠ parent.version then (.error .staleMembership, parent)
  else if !parent.isComplete then (.error .unfinishedChild, parent)
  else (.ok (), { parent with sealed := true })

inductive Call where
  | addChild (id : String)
  | markAccepted (id : String)
  | sealAt (expectedVersion : UInt64)
deriving DecidableEq

def call : Call → Except GuardError Unit × ParentMembership
  | .addChild id => parent.addChild id
  | .markAccepted id => parent.markAccepted id
  | .sealAt expectedVersion => parent.sealAt expectedVersion

def adds : Call → Bool
  | .addChild id => (parent.addChild id).1.toBool
  | _ => false

def accepts : Call → List String
  | .markAccepted id => if (parent.markAccepted id).1.toBool then [id] else []
  | _ => []

/-- The membership with the number of children added and the ids for which `mark_accepted` has succeeded. -/
structure Run where
  parent : ParentMembership
  added : Nat
  marked : List String

def machine : Machine Run Call where
  init := { parent := .default, added := 0, marked := [] }
  step run call :=
    some
      { parent := (run.parent.call call).2
        added := run.added + if run.parent.adds call then 1 else 0
        marked := run.parent.accepts call ++ run.marked }

end ParentMembership

end ShareCli.Core
