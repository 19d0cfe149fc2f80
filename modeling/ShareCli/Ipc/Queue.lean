import Mathlib.Algebra.Order.Ring.Nat
import Mathlib.Data.List.MinMax
import Mathlib.Data.String.Basic
import ShareCli.Foundation.Decimal
import ShareCli.Foundation.Time

/-!
# Whose turn it is in a lane (`crates/sharecli-ipc/src/queue.rs`)

The name of a ticket carries its priority, the wall-clock second of its creation, a process id and a sequence
number. `is_my_turn` ranks the caller by its own monotonic clock and every ticket, the caller's included, by the
wall clock. The whole seconds waited are truncated to a byte before they are added to the priority, and the sum
saturates.
-/

namespace ShareCli.Ipc

open Foundation

inductive QueuePriority where
  | critical
  | high
  | normal
  | low
  | background
deriving DecidableEq

def QueuePriority.asU8 : QueuePriority → Nat
  | .critical => 0
  | .high => 1
  | .normal => 2
  | .low => 3
  | .background => 4

def ticketName (priority : QueuePriority) (secs pid seq : Nat) : String :=
  String.ofList (Decimal.pad2 priority.asU8 ++ '.' :: (Nat.toDigits 10 secs ++
    '.' :: (Nat.toDigits 10 pid ++ '.' :: Nat.toDigits 10 seq)))

def ticketSegment (ticket : String) (i : Nat) : Option (List Char) := (ticket.toList.splitOn '.')[i]?

def ticketPriority (ticket : String) : Nat :=
  ((ticketSegment ticket 0).bind (Decimal.parseUnsigned 256)).getD QueuePriority.normal.asU8

/-- The second in a ticket name; a name without one counts as created now. -/
def ticketSecs (ticket : String) (nowSecs : Nat) : Nat :=
  ((ticketSegment ticket 1).bind (Decimal.parseUnsigned (2 ^ 64))).getD nowSecs

def agingStepMs : Nat := 1000

def effectiveRank (basePriority : QueuePriority) (waited : Nat) : Nat :=
  -- the number of steps is cast to a byte, so it starts again at 256
  let decaySteps := Duration.asMillis waited / agingStepMs % 256
  min (basePriority.asU8 + decaySteps) 255

/-- Zero for a ticket from the future. -/
def peerWaitedMs (nowSecs ticketSecs : Nat) : Nat :=
  if ticketSecs ≤ nowSecs then
    let ms := (nowSecs - ticketSecs) * 1000
    if 2 ^ 64 - 1 < ms then 2 ^ 64 - 1 else ms
  else 0

def peerBasePriority : Nat → QueuePriority
  | 0 => .critical
  | 1 => .high
  | 2 => .normal
  | 3 => .low
  | _ => .background

def peerEffective (nowSecs : Nat) (ticket : String) : Nat :=
  effectiveRank (peerBasePriority (ticketPriority ticket))
    (Duration.fromMillis (peerWaitedMs nowSecs (ticketSecs ticket nowSecs)))

/-- A ticket and when it was made. -/
structure WaitingEntry where
  name : String
  isFile : Bool
deriving DecidableEq

def scanEntry (nowSecs : Nat) (acc : Nat × List String) (entry : WaitingEntry) : Nat × List String :=
  if !entry.isFile then acc
  else if entry.name.toList.head? = some '.' then acc
  else
    let rank := peerEffective nowSecs entry.name
    if rank < acc.1 then (rank, [entry.name])
    else if rank = acc.1 then (acc.1, acc.2 ++ [entry.name])
    else acc

/-- `entries` is `none` when the directory does not exist; `waited` is the time since the caller enqueued. -/
def isMyTurn (entries : Option (List WaitingEntry)) (nowSecs : Nat) (myPriority : QueuePriority)
    (myTicket : String) (waited : Nat) : Bool :=
  match entries with
  | none => true
  | some entries =>
    let myEffective := effectiveRank myPriority waited
    let (bestEffective, ticketsAtBest) := entries.foldl (scanEntry nowSecs) (255, [])
    if bestEffective = 255 then true
    else if bestEffective < myEffective then false
    else if myEffective < bestEffective then true
    else ticketsAtBest.min?.getD myTicket = myTicket

/-- The last second whose milliseconds fit 64 bits, in 584 million years. -/
def clockLimit : Nat := (2 ^ 64 - 1) / 1000

/-- The wall clock is read well inside the range in which ages in milliseconds fit 64 bits. -/
structure Ticket where
  priority : QueuePriority
  secs : Nat
  pid : Nat
  seq : Nat
  inRange : secs + 512 ≤ clockLimit
deriving DecidableEq

def Ticket.name (t : Ticket) : String := ticketName t.priority t.secs t.pid t.seq

/-- It stamps a ticket, enqueues it and then reads `enqueuedAt` off the monotonic clock; both clocks advance
together. -/
structure Waiter where
  ticket : Ticket
  stamp : Nat
  secs_eq : ticket.secs = Duration.asSecs stamp
  enqueuedAt : Nat
  stamp_le : stamp ≤ enqueuedAt
  inRange : Duration.asSecs enqueuedAt + 512 ≤ clockLimit

def Waiter.isTurn (w : Waiter) (entries : List WaitingEntry) (now : Nat) : Bool :=
  isMyTurn (some entries) (Duration.asSecs now) w.ticket.priority w.ticket.name (now - w.enqueuedAt)

def ticketFiles (tickets : List Ticket) : List WaitingEntry := tickets.map fun t => ⟨t.name, true⟩

def Lists (entries : List WaitingEntry) (tickets : List Ticket) : Prop :=
  ∀ e, e ∈ entries ↔ e ∈ ticketFiles tickets

end ShareCli.Ipc
