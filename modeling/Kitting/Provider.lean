import Kitting.Error

namespace Kitting

inductive Note (α : Type)
  | remark (text : String)
  | provider (value : α)

/-- A type to provide a value of, by the text that messages show; `notes` is missing where the type stands
by itself. -/
structure Declaration (α : Type) where
  shown : String
  notes : Option (List (Note α))

namespace Note

variable {α : Type}

def provided? : Note α → Option α
  | remark _ => none
  | provider value => some value

end Note

def Declaration.provide {α : Type} (d : Declaration α) : Except Error α :=
  match d.notes with
  | none => .error (.notAnnotated d.shown)
  | some notes => match notes.findSome? Note.provided? with
    | some value => .ok value
    | none => .error (.noProvider d.shown)

end Kitting
