import FrameEngine.IoFailure
import FrameEngine.Octets
import FrameEngine.Span

/-!
# FrameEngine.Bench.Script

A stream that follows a script: what each read gives, what each write and each flush comes to, and
how long they are left without an answer. Where the script is silent, reads wait, writes take all
they are offered, and flushes succeed.
-/

namespace FrameEngine

inductive Turn (α : Type) where
  | answer (r : Except IoFailure α)
  /-- No answer for so long, from the call that first meets it. -/
  | stall (d : Span)

structure Part (α : Type) where
  turns : List (Turn α)
  /-- When the stall in front ends, once a call has met it. -/
  resume : Option Span

namespace Part

variable {α : Type}

def silent : Part α := ⟨[], none⟩

def add (p : Part α) (turns : List (Turn α)) : Part α := { p with turns := p.turns ++ turns }

/-- What a call at a time comes to when these turns lie ahead, and what lies ahead after it; no
answer while it is stalled. -/
def ask (now : Span) (otherwise : α) :
    List (Turn α) → Option Span → Option (Except IoFailure α) × Part α
  | [], _ => (some (.ok otherwise), silent)
  | .answer r :: rest, _ => (some r, ⟨rest, none⟩)
  | .stall d :: rest, met =>
    let resume := met.getD (now + d)
    if resume ≤ now then ask now otherwise rest none else (none, ⟨.stall d :: rest, some resume⟩)

def call (p : Part α) (now : Span) (otherwise : α) : Option (Except IoFailure α) × Part α :=
  ask now otherwise p.turns p.resume

end Part

structure Script where
  /-- What reads give; no octets mark the end of the stream. -/
  reads : List (Except IoFailure Octets)
  writes : Part Nat
  flushes : Part Unit

namespace Script

def silent : Script := ⟨[], .silent, .silent⟩

/-- A read of so many octets at most. Octets that it leaves are there for the next. -/
def read (s : Script) (size : Nat) : Option (Except IoFailure Octets × Script) :=
  match s.reads with
  | [] => none
  | .ok d :: rest =>
    let left := d.drop size
    some (.ok (d.take size), { s with reads := if left.isEmpty then rest else .ok left :: rest })
  | .error f :: rest => some (.error f, { s with reads := rest })

def write (s : Script) (now : Span) (offered : Nat) : Option (Except IoFailure Nat) × Script :=
  let (r, writes) := s.writes.call now offered
  (r.map fun r => r.map (min offered), { s with writes })

def flush (s : Script) (now : Span) : Option (Except IoFailure Unit) × Script :=
  let (r, flushes) := s.flushes.call now ()
  (r, { s with flushes })

def resumes (s : Script) : List Span := s.writes.resume.toList ++ s.flushes.resume.toList

end Script
end FrameEngine
