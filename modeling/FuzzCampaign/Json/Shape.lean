import FuzzCampaign.Json.Skip

/-!
Reading values of a known shape. A structure is written as an object, whose members come in any
order and may include others, or as a list of its fields in order. Each field says what its absence
means. A structure is read up to its end even when a field was repeated or is absent, and the fault
is placed there.
-/

namespace FuzzCampaign.Json

/-- The fault of a value of another type than expected. A scalar is read first. -/
def mismatch {α : Type} (expected : String) : List UInt8 → Except Fault α
  | [] => faultIn .endInValue []
  | b :: rest =>
    if b = ascii '[' then faultAt (.wrongType "sequence" expected) (b :: rest)
    else if b = ascii '\x7b' then faultAt (.wrongType "map" expected) (b :: rest)
    else if b = ascii '"' then
      match readText rest with
      | .error fault => .error fault
      | .ok (s, rest) => faultAt (.wrongType ("string " ++ Text.quoted s) expected) rest
    else if startsNumber b then
      match readNumeral (b :: rest) with
      | .error fault => .error fault
      | .ok (n, rest) => faultAt (.wrongType n.text expected) rest
    else match wordAfter? b with
      | none => faultIn .valueExpected (b :: rest)
      | some letters =>
        match readWord letters rest with
        | .error fault => .error fault
        | .ok rest =>
          let found :=
            if b = ascii 'n' then "null"
            else if b = ascii 't' then "boolean " ++ named "true"
            else "boolean " ++ named "false"
          faultAt (.wrongType found expected) rest

/-- Reads a natural below a bound of that many bits. -/
def readNatural (bits : Nat) : Reader Nat := fun bytes =>
  let expected := "u" ++ natText bits
  match skipBlanks bytes with
  | [] => faultIn .endInValue []
  | b :: rest =>
    if startsNumber b then
      match readNumeral (b :: rest) with
      | .error fault => .error fault
      | .ok (.natural n, rest) =>
        if n < Nat.pow 2 bits then .ok (n, rest)
        else faultAt (.wrongValue (Numeral.natural n).text expected) rest
      | .ok (.negative n, rest) =>
        faultAt (.wrongValue (Numeral.negative n).text expected) rest
      | .ok (.float x, rest) => faultAt (.wrongType (Numeral.float x).text expected) rest
    else mismatch expected (b :: rest)

/-- Reads a string. -/
def readString : Reader String := fun bytes =>
  match skipBlanks bytes with
  | [] => faultIn .endInValue []
  | b :: rest => if b = ascii '"' then readText rest else mismatch "a string" (b :: rest)

/-- Reads a value or `null`. -/
def readOption {α : Type} (read : Reader α) : Reader (Option α) := fun bytes =>
  let present : Except Fault (Option α × List UInt8) :=
    match read (skipBlanks bytes) with
    | .error fault => .error fault
    | .ok (a, rest) => .ok (some a, rest)
  match skipBlanks bytes with
  | [] => present
  | b :: rest =>
    if b = ascii 'n' then
      match readWord [ascii 'u', ascii 'l', ascii 'l'] rest with
      | .error fault => .error fault
      | .ok rest => .ok (none, rest)
    else present

/-- What it means that a field is absent: a fault, a fault in a list only, or nothing. -/
inductive Absence where
  | fault
  | faultInList
  | allowed
deriving DecidableEq, Repr

/-- A field, which is read into what was read so far. -/
structure Field (σ : Type) where
  name : String
  absence : Absence
  read : σ → Reader σ

/-- A field whose value is stored by a function. -/
def Field.of {σ α : Type} (name : String) (absence : Absence) (read : Reader α)
    (store : σ → α → σ) : Field σ where
  name := name
  absence := absence
  read draft bytes :=
    match read bytes with
    | .error fault => .error fault
    | .ok (a, rest) => .ok (store draft a, rest)

/-- A structure: its name, what it is when it has no field, and its fields in order. -/
structure Shape (σ : Type) where
  name : String
  blank : σ
  fields : List (Field σ)

namespace Shape

variable {σ : Type}

/-- What is expected in place of another value. -/
def expectation (shape : Shape σ) : String := "struct " ++ shape.name

/-- Reads the colon behind a key. -/
def readColon (bytes : List UInt8) : Except Fault (List UInt8) :=
  match skipBlanks bytes with
  | [] => faultIn .endInObject []
  | b :: rest => if b = ascii ':' then .ok rest else faultIn .colonExpected (b :: rest)

/-- What an object has given so far: the names of the fields that were seen, and their values. -/
structure Progress (σ : Type) where
  seen : List String
  draft : σ

/-- Reads a member behind its key. -/
def readMemberValue (shape : Shape σ) (p : Progress σ) (key : String) : Reader (Progress σ) :=
  fun bytes =>
    match shape.fields.find? (·.name = key) with
    | some field =>
      if key ∈ p.seen then .error (.pending (.repeatedField key) bytes)
      else match readColon bytes with
        | .error fault => .error fault
        | .ok rest =>
          match field.read p.draft rest with
          | .error fault => .error fault
          | .ok (draft, rest) => .ok (⟨key :: p.seen, draft⟩, rest)
    | none =>
      match readColon bytes with
      | .error fault => .error fault
      | .ok rest =>
        match skipValue rest with
        | .error fault => .error fault
        | .ok rest => .ok (p, rest)

/-- Reads a member. -/
def readMember (shape : Shape σ) (p : Progress σ) : Reader (Progress σ)
  | [] => faultIn .endInValue []
  | b :: rest =>
    if b = ascii '"' then
      match readText rest with
      | .error fault => .error fault
      | .ok (key, rest) => readMemberValue shape p key rest
    else faultIn .keyExpected (b :: rest)

/-- Reads a comma and the member behind it. -/
def readNextMember (shape : Shape σ) (p : Progress σ) : Reader (Progress σ)
  | [] => faultIn .endInObject []
  | b :: rest =>
    if b = ascii ',' then
      match skipBlanks rest with
      | [] => faultIn .endInValue []
      | c :: rest =>
        if c = ascii '\x7d' then faultIn .trailingComma (c :: rest)
        else readMember shape p (c :: rest)
    else faultIn .commaOrObjectEndExpected (b :: rest)

/-- Whether the next token ends an object. -/
def atObjectEnd (bytes : List UInt8) : Bool := bytes.head? == some (ascii '\x7d')

/-- Reads the members behind the first one, up to the end of the object. Each takes some bytes, so
the number of bytes bounds the number of members, and at the bound none are left. -/
def readMoreMembers (shape : Shape σ) : (bound : Nat) → Progress σ → Reader (Progress σ)
  | 0, _, bytes => faultIn .endInObject bytes
  | bound + 1, p, bytes =>
    let here := skipBlanks bytes
    if atObjectEnd here then .ok (p, here)
    else match readNextMember shape p here with
      | .error fault => .error fault
      | .ok (p, rest) => readMoreMembers shape bound p rest

/-- Reads the members of an object, up to its end. -/
def readMembers (shape : Shape σ) : Reader (Progress σ) := fun bytes =>
  match skipBlanks bytes with
  | [] => faultIn .endInObject []
  | b :: rest =>
    if b = ascii '\x7d' then .ok (⟨[], shape.blank⟩, b :: rest)
    else match readMember shape ⟨[], shape.blank⟩ (b :: rest) with
      | .error fault => .error fault
      | .ok (p, rest) => readMoreMembers shape rest.length p rest

/-- The first field that may not be absent and was not seen. -/
def absentField? (shape : Shape σ) (seen : List String) : Option (Field σ) :=
  shape.fields.find? fun f => f.absence = .fault ∧ f.name ∉ seen

/-- The bytes behind the end of an object, or those at which the end is looked for in vain. -/
def pastObject (bytes : List UInt8) : List UInt8 :=
  match skipBlanks bytes with
  | [] => []
  | b :: rest => if b = ascii '\x7d' then rest else b :: rest

/-- Reads a structure that is an object, behind its opening. -/
def readObject (shape : Shape σ) : Reader σ := fun bytes =>
  match readMembers shape bytes with
  | .error fault => .error (fault.settle pastObject)
  | .ok (p, rest) =>
    match absentField? shape p.seen with
    | some field => .error ((Fault.pending (.absentField field.name) rest).settle pastObject)
    | none => .ok (p.draft, pastObject rest)

/-- Reads the elements for some fields, of which `count` came before. A list that has ended gives no
more values. -/
def readElements (shape : Shape σ) : List (Field σ) → (count : Nat) → σ → Reader σ
  | [], _, draft, bytes => .ok (draft, bytes)
  | field :: fields, count, draft, bytes =>
    let element (bytes : List UInt8) : Except Fault (σ × List UInt8) :=
      match field.read draft bytes with
      | .error fault => .error fault
      | .ok (draft, rest) => readElements shape fields (count + 1) draft rest
    match skipBlanks bytes with
    | [] => faultIn .endInList []
    | b :: rest =>
      if b = ascii ']' then
        if field.absence = .allowed then readElements shape fields (count + 1) draft (b :: rest)
        else .error (.located (.tooFewElements count
          (shape.expectation ++ " with " ++ natText shape.fields.length ++ " elements")) rest)
      else if count = 0 then element (b :: rest)
      else if b = ascii ',' then
        match skipBlanks rest with
        | [] => faultIn .endInValue []
        | c :: rest =>
          if c = ascii ']' then faultIn .trailingComma (c :: rest) else element (c :: rest)
      else faultIn .commaOrListEndExpected (b :: rest)

/-- Reads the end of a list that has given all that was asked for. -/
def readListEnd (bytes : List UInt8) : Except Fault (List UInt8) :=
  match skipBlanks bytes with
  | [] => faultIn .endInList []
  | b :: rest =>
    if b = ascii ']' then .ok rest
    else if b = ascii ',' then
      match skipBlanks rest with
      | [] => faultIn .trailingCharacters []
      | c :: rest =>
        if c = ascii ']' then faultIn .trailingComma (c :: rest)
        else faultIn .trailingCharacters (c :: rest)
    else faultIn .trailingCharacters (b :: rest)

/-- Reads a structure that is a list, behind its opening. -/
def readList (shape : Shape σ) : Reader σ := fun bytes =>
  match readElements shape shape.fields 0 shape.blank bytes with
  | .error fault => .error fault
  | .ok (draft, rest) =>
    match readListEnd rest with
    | .error fault => .error fault
    | .ok rest => .ok (draft, rest)

/-- Reads a structure in either form. -/
def read (shape : Shape σ) : Reader σ := fun bytes =>
  match skipBlanks bytes with
  | [] => faultIn .endInValue []
  | b :: rest =>
    if b = ascii '\x7b' then readObject shape rest
    else if b = ascii '[' then readList shape rest
    else mismatch shape.expectation (b :: rest)

/-- Reads a whole text that holds one structure and nothing else. -/
def parse (shape : Shape σ) (text : List UInt8) : Except Fault σ :=
  match read shape text with
  | .error fault => .error fault
  | .ok (value, rest) =>
    match skipBlanks rest with
    | [] => .ok value
    | b :: rest => faultIn .trailingCharacters (b :: rest)

end Shape

end FuzzCampaign.Json
