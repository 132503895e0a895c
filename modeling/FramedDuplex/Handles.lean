/-!
# Things known by a number

Callers name what they hold, wait for or opened by a number of their own. A
number names at most one thing of a kind.
-/

namespace FramedDuplex

/-- Things that callers know by a number. -/
structure Handles (β : Type) where
  entries : List (Nat × β)

namespace Handles

variable {β : Type}

/-- Nothing has a number. -/
def empty : Handles β := ⟨[]⟩

/-- The thing that a number names. -/
def find? (h : Handles β) (handle : Nat) : Option β :=
  (h.entries.find? (·.1 = handle)).map (·.2)

/-- Whether a number names a thing. -/
def contains (h : Handles β) (handle : Nat) : Bool :=
  (h.find? handle).isSome

/-- Forgets what a number names. -/
def erase (h : Handles β) (handle : Nat) : Handles β :=
  ⟨h.entries.filter (·.1 ≠ handle)⟩

/-- Lets a number name a thing, and nothing else any more. -/
def insert (h : Handles β) (handle : Nat) (thing : β) : Handles β :=
  ⟨(h.erase handle).entries ++ [(handle, thing)]⟩

/-- Changes every thing. -/
def map {γ : Type} (f : β → γ) (h : Handles β) : Handles γ :=
  ⟨h.entries.map fun (handle, thing) => (handle, f thing)⟩

/-- All things. -/
def things (h : Handles β) : List β :=
  h.entries.map (·.2)

/-- A number that names nothing. -/
def unused (h : Handles β) : Nat :=
  (h.entries.map (·.1)).foldl max 0 + 1

/-- Whether some thing has a property. -/
def any (p : β → Bool) (h : Handles β) : Bool :=
  h.things.any p

@[simp] theorem find?_erase_self (h : Handles β) (handle : Nat) :
    (h.erase handle).find? handle = none := by
  simp [find?, erase]

/-- **A number names what it was given last.** -/
@[simp] theorem find?_insert_self (h : Handles β) (handle : Nat) (thing : β) :
    (h.insert handle thing).find? handle = some thing := by
  have none : (h.entries.filter (·.1 ≠ handle)).find? (·.1 = handle) = none := by simp
  simp only [find?, insert, erase]
  rw [List.find?_append, none]
  simp

theorem find?_erase_of_ne (h : Handles β) {handle other : Nat} (ne : other ≠ handle) :
    (h.erase handle).find? other = h.find? other := by
  simp only [find?, erase, List.find?_filter]
  congr 2
  funext e
  by_cases he : e.1 = other
  · simp [he, ne]
  · simp [he]

/-- **Naming one thing leaves the others named.** -/
theorem find?_insert_of_ne (h : Handles β) {handle other : Nat} (thing : β)
    (ne : other ≠ handle) : (h.insert handle thing).find? other = h.find? other := by
  have hne : ¬ handle = other := fun e => ne e.symm
  rw [← find?_erase_of_ne h ne]
  simp only [find?, insert]
  rw [List.find?_append]
  simp [hne]

end Handles

end FramedDuplex
