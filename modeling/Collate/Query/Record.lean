import Collate.Json.Reader
import Collate.Query.Error
import Collate.Text.Blank
import Collate.Text.Lines

/-!
# Record texts

Records come as one JSON array or as JSON lines. A text whose first character that is not
blank opens an array is read whole; any other is read line by line, blank lines left out. What
makes a value of a JSON text is a parameter of this (`readRecords`); `parseRecords` is given
`Json.parseChars?`.
-/

set_option autoImplicit false

namespace Collate.Query

section Reading

variable (parse : List Char → Option Json)

/-- Records given as a JSON array. -/
def arrayRecords? (cs : List Char) : Option (List Json) :=
  match parse cs with
  | some (.array items) => some items
  | _ => none

/-- Records given as JSON lines. -/
def lineRecords? (cs : List Char) : Option (List Json) :=
  ((Text.lines cs).filter fun line => !Text.allBlank line).mapM parse

/-- The records of a text, in either form. -/
def records? (source : String) : Option (List Json) :=
  let cs := Text.trimStart source.toList
  if cs.head? = some '[' then arrayRecords? parse cs else lineRecords? parse source.toList

/-- The records of a text, or an error. -/
def readRecords (source : String) : Except QueryError (List Json) :=
  match records? parse source with
  | some records => .ok records
  | none => .error (.json "not a sequence of records")

end Reading

/-- The records of a text. -/
def parseRecords (source : String) : Except QueryError (List Json) := readRecords Json.parseChars? source

/-- The text of a file's bytes. -/
def decodeText (bytes : ByteArray) : Except FileFault String :=
  match String.fromUTF8? bytes with
  | some text => .ok text
  | none => .error .notText

/-- The records of a file that has been read, or has not. -/
def loadRecords (file : Except FileFault String) : Except QueryError (List Json) :=
  match file with
  | .ok text => parseRecords text
  | .error fault => .error (.io fault)

end Collate.Query
