import Provision.Table

/-!
# Locks on stacks

Operations on one stack that must not overlap take turns by a lock of the stack. A registry maps the
identifier of a stack to the slot whose lock it is; slots come into being when they are first asked
for and leave the registry when the last holder gives the lock back with nobody waiting.

A claim is a wish for a slot. Claims on one slot are served in the order in which they were made: a
lock that is given back is handed to the claim that has queued longest, and is its own from then
on, before its owner has even looked. A claim that is dropped after that hands the lock on.
-/

namespace Provision

/-- How far a claim is. -/
inductive ClaimStage where
  /-- Others come first. -/
  | queued
  /-- The lock has been handed over, and the owner of the claim has yet to look. -/
  | handed
  /-- The owner holds the lock and knows it. -/
  | held
  deriving DecidableEq

/-- A claim, known by its ticket. -/
structure Claim where
  ticket : Nat
  stack : String
  slot : Nat
  stage : ClaimStage
  deriving DecidableEq

/-- Whether a claim has the lock of its slot. -/
def Claim.owns (c : Claim) : Bool := c.stage != .queued

/-- A registry of locks, with the claims on them, the oldest first. -/
structure Locks where
  nextTicket : Nat
  nextSlot : Nat
  registry : Table Nat
  claims : List Claim

namespace Locks

/-- No lock has been asked for. -/
def empty : Locks := ⟨0, 0, .empty, []⟩

/-- The number of stacks in the registry. -/
def size (l : Locks) : Nat := l.registry.size

/-- Whether the registry has no stack. -/
def isEmpty (l : Locks) : Bool := l.registry.isEmpty

/-- The claim with a ticket. -/
def claim? (l : Locks) (ticket : Nat) : Option Claim := l.claims.find? fun c => c.ticket == ticket

/-- The claims on a slot. -/
def claimsOn (l : Locks) (slot : Nat) : List Claim := l.claims.filter fun c => c.slot == slot

/-- Whether nobody has the lock of a slot. -/
def isFree (l : Locks) (slot : Nat) : Bool := !(l.claimsOn slot).any Claim.owns

/-- The slot of a stack; one that is not in the registry gets a new one. -/
def slotOf (l : Locks) (stack : String) : Nat × Locks :=
  match l.registry.get? stack with
  | some slot => (slot, l)
  | none =>
    (l.nextSlot, { l with nextSlot := l.nextSlot + 1, registry := l.registry.put stack l.nextSlot })

/-- Makes a claim on a slot. -/
def addClaim (l : Locks) (stack : String) (slot : Nat) (stage : ClaimStage) : Nat × Locks :=
  (l.nextTicket,
    { l with
      nextTicket := l.nextTicket + 1
      claims := l.claims ++ [⟨l.nextTicket, stack, slot, stage⟩] })

/-- Claims the lock of a stack: at once if it is free, or else in the queue. The new claim is told
by its ticket and its stage. -/
def acquire (l : Locks) (stack : String) : Nat × ClaimStage × Locks :=
  let (slot, l) := l.slotOf stack
  let stage : ClaimStage := if l.isFree slot then .held else .queued
  let (ticket, l) := l.addClaim stack slot stage
  (ticket, stage, l)

/-- Claims the lock of a stack only if it is free. -/
def tryAcquire (l : Locks) (stack : String) : Option Nat × Locks :=
  let (slot, l) := l.slotOf stack
  if l.isFree slot then
    let (ticket, l) := l.addClaim stack slot .held
    (some ticket, l)
  else (none, l)

/-- Changes the stage of a claim. -/
def setStage (l : Locks) (ticket : Nat) (stage : ClaimStage) : Locks :=
  { l with
    claims := l.claims.map fun c => if c.ticket = ticket then { c with stage := stage } else c }

/-- Looks whether a claim has been served; a lock that has been handed over is held from then on. -/
def look (l : Locks) (ticket : Nat) : Locks :=
  match l.claim? ticket with
  | some c => if c.stage = .handed then l.setStage ticket .held else l
  | none => l

/-- Takes a claim away. -/
def dropClaim (l : Locks) (ticket : Nat) : Locks :=
  { l with claims := l.claims.filter fun c => c.ticket != ticket }

/-- Hands the lock of a slot to the claim that has queued longest, if any. -/
def handOn (l : Locks) (slot : Nat) : Locks :=
  match (l.claimsOn slot).find? fun c => c.stage == .queued with
  | some c => l.setStage c.ticket .handed
  | none => l

/-- Gives up a claim that its owner still waits for, whether or not the lock has been handed over.
The answer says whether there was such a claim. The registry stays as it is. -/
def cancel (l : Locks) (ticket : Nat) : Bool × Locks :=
  match l.claim? ticket with
  | none => (false, l)
  | some c =>
    match c.stage with
    | .held => (false, l)
    | .queued => (true, l.dropClaim ticket)
    | .handed => (true, (l.dropClaim ticket).handOn c.slot)

/-- The registry without a stack, if the claim is the only one on the slot that the stack has
there. -/
def prune (l : Locks) (c : Claim) : Locks :=
  if l.registry.get? c.stack = some c.slot ∧ (l.claimsOn c.slot).length = 1 then
    { l with registry := l.registry.erase c.stack }
  else l

/-- Gives back a lock that is held. The answer says whether it was. -/
def release (l : Locks) (ticket : Nat) : Bool × Locks :=
  match l.claim? ticket with
  | none => (false, l)
  | some c =>
    if c.stage = .held then (true, ((l.prune c).dropClaim ticket).handOn c.slot) else (false, l)

/-- Takes a stack out of the registry, unless somebody has its lock. The answer says whether the
stack is out of it. -/
def forget (l : Locks) (stack : String) : Bool × Locks :=
  match l.registry.get? stack with
  | none => (true, l)
  | some slot =>
    if l.isFree slot then (true, { l with registry := l.registry.erase stack }) else (false, l)

end Locks

end Provision
