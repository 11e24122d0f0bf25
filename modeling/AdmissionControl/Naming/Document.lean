import AdmissionControl.Error
import AdmissionControl.Json.Place
import AdmissionControl.Json.Reader

/-!
# Names as documents

A name alone may be a document: a JSON string.  What the string says is looked up before anything after the
string is looked at.
-/

namespace AdmissionControl

/-- Why a document is not the name that was expected. -/
inductive NameFault
  /-- The document is not one readable string. -/
  | unreadable
  /-- Nothing has this name. -/
  | unknown (error : Error)
  deriving DecidableEq, Repr

/-- What is said of a name that nothing has.  The name stands at the end, and if it ends in a place, that is
taken for the place in the document that the whole is about. -/
def NameFault.message? : NameFault → Option String
  | unreadable => none
  | unknown error => some (Json.Place.restate error.message)

/-- The owner of the name in a document. -/
def readNameDocument {α : Type} (read : String → Except Error α) (document : String) :
    Except NameFault α :=
  match Json.front? document.toList with
  | some (.string (some name), rest) =>
      match read name with
      | .error error => .error (.unknown error)
      | .ok owner => if (Json.skipSpace rest).isEmpty then .ok owner else .error .unreadable
  | _ => .error .unreadable

end AdmissionControl
