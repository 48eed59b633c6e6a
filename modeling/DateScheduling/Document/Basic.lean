/-!
# Documents

The tree of values in which models, configurations and results are exchanged.
A structure is written as a record of its fields; when it is read, it may also
be a list of all its fields in order.  A record in which the name of a field
stands twice is not read.  A choice without contents is written as
its name; when it is read, it may also be a record with that name as its only
field and nothing in it.

Main results:

- Theorem `Document.natural?_ofNat`: a number that fits 64 bits is read back.
-/

namespace DateScheduling

/-- A value in the exchange format. -/
inductive Document where
  | null
  | bool (value : Bool)
  /-- The number `digits / 10 ^ places`, written with that many decimal places. -/
  | number (digits : Int) (places : Nat)
  | text (value : String)
  | list (items : List Document)
  | record (fields : List (String × Document))
deriving Inhabited

namespace Document

/-- Numbers are exchanged as unsigned words of 64 bits. -/
def wordBound : Nat := Nat.pow 2 64

/-- A natural number as a document. -/
def ofNat (n : Nat) : Document :=
  number n 0

/-- The natural number of a document; it has no decimal places and fits 64
bits. -/
def natural? : Document → Option Nat
  | number (.ofNat n) 0 => if n < wordBound then some n else none
  | _ => none

/-- The truth value of a document. -/
def bool? : Document → Option Bool
  | bool value => some value
  | _ => none

/-- The text of a document. -/
def text? : Document → Option String
  | text value => some value
  | _ => none

/-- The items of a list, each read in the same way. -/
def list? {α : Type} (read : Document → Option α) : Document → Option (List α)
  | list items => items.mapM read
  | _ => none

/-- An optional value; an absent one is null. -/
def option? {α : Type} (read : Document → Option α) : Document → Option (Option α)
  | null => some none
  | doc => (read doc).map some

/-- The values that stand under a name in a record. -/
def valuesOf (fields : List (String × Document)) (name : String) : List Document :=
  (fields.filter (·.1 = name)).map Prod.snd

/-- A field of a structure: its name, and what it is taken to be in a record
that lacks it, if it may be missing. -/
structure FieldSpec where
  name : String
  default? : Option Document

/-- A field that has to be there. -/
def required (name : String) : FieldSpec :=
  ⟨name, none⟩

/-- A field that is null when it is missing. -/
def nullable (name : String) : FieldSpec :=
  ⟨name, some null⟩

/-- The value of a field in a record; its name must not stand there twice. -/
def FieldSpec.find? (spec : FieldSpec) (fields : List (String × Document)) : Option Document :=
  match valuesOf fields spec.name with
  | [] => spec.default?
  | [value] => some value
  | _ => none

/-- The fields of a structure written as a record.  Other fields do not
matter. -/
def recordFields? (specs : List FieldSpec) : Document → Option (List Document)
  | record fields => specs.mapM (·.find? fields)
  | _ => none

/-- The fields of a structure written as a record, or as a list of all fields in
order. -/
def structFields? (specs : List FieldSpec) : Document → Option (List Document)
  | list items => if items.length = specs.length then some items else none
  | doc => recordFields? specs doc

/-- The name of a choice without contents. -/
def choice? : Document → Option String
  | text name => some name
  | record [(name, null)] => some name
  | _ => none

/-- Natural numbers that fit 64 bits are read back. -/
theorem natural?_ofNat {n : Nat} (h : n < wordBound) : natural? (ofNat n) = some n := by
  change (if n < wordBound then some n else none) = some n
  simp [h]

end Document
end DateScheduling
