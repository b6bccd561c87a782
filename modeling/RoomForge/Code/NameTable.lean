import Std.Data.TreeMap

set_option autoImplicit false

/-! # Tables of names

A table lists things that have names, the latest first, and a later one hides an earlier one of its
name. The list is what a table means: `find?_eq` says that looking up a name finds the first thing
of the list that has it. An ordered index makes the look-up quick however long the list is.

Section 4.2 of the specification asks for the list and the first match alone. The index is an
addition of this library, and no other module opens it.
-/

namespace RoomForge.Code

/-- Things with names, the latest first. -/
structure NameTable (α : Type) (name : α → String) where
  entries : List α := []
  /-- The latest thing of every name. -/
  index : Std.TreeMap String α := {}
  index_eq : ∀ key : String, index[key]? = entries.find? fun entry => name entry == key := by simp

namespace NameTable

variable {α : Type} {name : α → String}

instance : Inhabited (NameTable α name) := ⟨{}⟩

/-- The latest thing called `key`. -/
def find? (table : NameTable α name) (key : String) : Option α :=
  table.index[key]?

/-- Looking up a name finds the first entry that has it. -/
theorem find?_eq (table : NameTable α name) (key : String) :
    table.find? key = table.entries.find? fun entry => name entry == key :=
  table.index_eq key

/-- Adds a thing, which hides those of its name. -/
def push (table : NameTable α name) (entry : α) : NameTable α name where
  entries := entry :: table.entries
  index := table.index.insert (name entry) entry
  index_eq key := by
    rw [Std.TreeMap.getElem?_insert, List.find?_cons, table.index_eq key]
    by_cases h : name entry = key
    · simp [h]
    · have hfalse : (name entry == key) = false := by simp [h]
      simp [h, hfalse]

/-- The table of a list whose first thing is the latest. -/
def ofList (entries : List α) : NameTable α name :=
  entries.foldr (fun entry table => table.push entry) {}

@[simp] theorem entries_push (table : NameTable α name) (entry : α) :
    (table.push entry).entries = entry :: table.entries := rfl

@[simp] theorem entries_ofList (entries : List α) :
    (ofList entries : NameTable α name).entries = entries := by
  induction entries with
  | nil => rfl
  | cons entry rest ih => rw [ofList, List.foldr_cons, entries_push, ← ofList, ih]

end NameTable

end RoomForge.Code
