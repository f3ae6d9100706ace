import Chiptune.Track
/-!
# Hosts

A host takes calls and answers nothing. Here it is a value that each call turns into the next one:
`Silence` ignores calls, `Recorder capacity` keeps the first `capacity` of them and counts the rest,
and `Callback` hands them to a function.
-/
namespace Chiptune

/-- Something that takes calls. -/
class Host (σ : Type) where
  /-- The host after a call. -/
  call : σ → HostCall → σ

/-- Requests a tone, in one call. -/
def Tone.request {σ : Type} [Host σ] (t : Tone) (host : σ) : σ := Host.call host t.pack

/-- The host that ignores every call. -/
structure Silence where

instance : Host Silence := ⟨fun host _ => host⟩

/-- A function as a host, with the state it has reached. -/
structure Callback (α : Type) where
  state : α
  take : α → HostCall → α

instance {α : Type} : Host (Callback α) := ⟨fun host c => { host with state := host.take host.state c }⟩

/-- The first calls, as many as there is room for. -/
structure Recorder (capacity : Nat) where
  calls : List HostCall := []
  /-- Calls that found no room. -/
  dropped : Nat := 0
  fits : calls.length ≤ capacity := by simp

namespace Recorder

variable {capacity : Nat}

/-- The recorder that has taken no call yet. -/
def new : Recorder capacity := {}

/-- Keeps the call if there is room and counts it otherwise. -/
def push (r : Recorder capacity) (c : HostCall) : Recorder capacity :=
  if h : r.calls.length < capacity then
    { r with calls := r.calls ++ [c], fits := by rw [List.length_append]; exact h }
  else { r with dropped := r.dropped + 1 }

instance : Host (Recorder capacity) := ⟨push⟩

def size (r : Recorder capacity) : Nat := r.calls.length

def isEmpty (r : Recorder capacity) : Bool := r.calls.isEmpty

def last? (r : Recorder capacity) : Option HostCall := r.calls.getLast?

def clear (_ : Recorder capacity) : Recorder capacity := {}

end Recorder

/-- One tick of a track, its tone requested from a host. -/
def Track.play {σ : Type} [Host σ] (t : Track) (bank : Soundbank) (host : σ) : Step × σ :=
  let s := t.tick bank
  match s.outcome with
  | .played tone => (s, tone.request host)
  | .waited _ | .rest | .looped => (s, host)

end Chiptune
