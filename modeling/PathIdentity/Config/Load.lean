import PathIdentity.Config.Settings
import PathIdentity.Toml.Reader

/-!
# Loading a configuration

`SearchSettings.load` goes from the text of a document to valid settings, and
`SearchSettings.loadFile` from what is found at a path. What can go wrong falls into three classes:
the text cannot be had, it is no document of settings, or a setting is out of range. The first is
reported before the second and the second before the third.
-/

namespace PathIdentity

/-! ## Failures -/

/-- Why the text of a file cannot be had. -/
inductive ReadFault where
  | notFound
  | isDirectory
  | notUtf8

/-- Why settings cannot be loaded. -/
inductive LoadError where
  /-- The text cannot be had. -/
  | unreadable (fault : ReadFault)
  /-- The text is no TOML document. -/
  | malformed
  /-- The document is none of settings. -/
  | mismatched (cause : DecodeError)
  /-- The capacity of pools is too great. -/
  | capacityExceeded (capacity : Nat)

/-- The classes of failure. -/
inductive FailureClass where
  | reading
  | parsing
  | validation

/-- The class of a failure. -/
def LoadError.failureClass : LoadError → FailureClass
  | unreadable _ => .reading
  | malformed => .parsing
  | mismatched _ => .parsing
  | capacityExceeded _ => .validation

/-! ## Texts -/

/-- The words of a fault. -/
def ReadFault.text : ReadFault → String
  | notFound => "No such file or directory (os error 2)"
  | isDirectory => "Is a directory (os error 21)"
  | notUtf8 => "stream did not contain valid UTF-8"

namespace FailureClass

/-- The words before the detail of a failure. -/
def heading : FailureClass → String
  | reading => "failed to read search configuration: "
  | parsing => "failed to parse search configuration: "
  | validation => "validation error: "

/-- The text of a failure of the class. -/
def display (c : FailureClass) (detail : String) : String := c.heading ++ detail

/-- The text of what caused a failure of the class; only a failure to read has a cause apart. -/
def source? (c : FailureClass) (detail : String) : Option String :=
  match c with
  | reading => some detail
  | _ => none

end FailureClass

/-- Configuration failures write every double positionally. -/
def SearchSettings.floatStyle : FloatStyle := ⟨.up, none⟩

namespace LoadError

/-- The detail of a failure; a malformed text has none that is laid down. -/
def detail? : LoadError → Option String
  | unreadable fault => some fault.text
  | malformed => none
  | mismatched cause => some (cause.message SearchSettings.floatStyle)
  | capacityExceeded capacity => some ("pool.initial_capacity " ++ toString capacity ++
      " exceeds " ++ toString SearchSettings.greatestCapacity)

/-- The text of a failure. -/
def display? (e : LoadError) : Option String := e.detail?.map e.failureClass.display

end LoadError

/-! ## Loading -/

/-- What is found at a path. -/
inductive FileContent where
  | missing
  | directory
  | bytes (content : ByteArray)

/-- The text of a file. -/
def FileContent.text : FileContent → Except ReadFault String
  | missing => .error .notFound
  | directory => .error .isDirectory
  | bytes content =>
    match String.fromUTF8? content with
    | some s => .ok s
    | none => .error .notUtf8

namespace SearchSettings

/-- Refuses settings that are out of range. -/
def validate (s : SearchSettings) : Except LoadError SearchSettings :=
  if greatestCapacity < s.poolCapacity then .error (.capacityExceeded s.poolCapacity) else .ok s

/-- The settings of a document, if they are in range. -/
def loadDocument (document : Toml.Document) : Except LoadError SearchSettings := do
  let s ← (ofDocument document).mapError .mismatched
  s.validate

/-- The settings that a text writes. -/
def load (text : String) : Except LoadError SearchSettings :=
  match Toml.read? text with
  | none => .error .malformed
  | some document => loadDocument document

/-- The settings that a file holds. -/
def loadFile (file : FileContent) : Except LoadError SearchSettings := do
  let text ← file.text.mapError .unreadable
  load text

end SearchSettings

end PathIdentity
