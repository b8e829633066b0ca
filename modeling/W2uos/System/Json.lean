import Mathlib.Algebra.Order.Field.Rat

/-!
# JSON values and derived decoders

A record is written as an object with a value for each of its fields, and a variant without data as
its name, with data as an object of one entry.  A derived decoder is a little more liberal: it also
takes a record as the array of its values, ignores the fields it does not know, takes an optional
field that is not there for empty, and a variant without data also as an object of its name and
null.

A field of a record is read from what `asStruct` makes of the value: the value of every field that
is there.

* `Json.decodeOption_encodeOption`, `Json.decodeEnum_name`, `Json.decodeEnum_text` : what is encoded
  is decoded;
* `Json.field_absent` : a record without the field is not decoded.
-/

/-- A JSON value.  The names in an object are those of its entries, in their order. -/
inductive Json
  | null
  | bool (b : Bool)
  | number (q : ℚ)
  | string (s : String)
  | array (elems : List Json)
  | object (fields : List (String × Json))

namespace Json

variable {α : Type}

/-! ### Numbers and texts -/

/-- The number a value is. -/
def decodeNumber : Json → Option ℚ
  | number q => some q
  | _ => none

/-- The text a value is. -/
def decodeString : Json → Option String
  | string s => some s
  | _ => none

@[simp] theorem decodeNumber_number (q : ℚ) : (number q).decodeNumber = some q := rfl

@[simp] theorem decodeString_string (s : String) : (string s).decodeString = some s := rfl

/-! ### Optional values -/

/-- An optional value: null, if there is none. -/
def encodeOption (encode : α → Json) : Option α → Json
  | none => null
  | some a => encode a

/-- An optional value: null for none. -/
def decodeOption (decode : Json → Option α) : Json → Option (Option α)
  | null => some none
  | value => (decode value).map some

theorem decodeOption_of_decode {decode : Json → Option α} {value : Json} {a : α}
    (hvalue : value ≠ null) (hdecode : decode value = some a) :
    decodeOption decode value = some (some a) := by
  cases value <;> simp_all [decodeOption]

/-- **An optional value is read back**, if the values it can have are, and none is written as
null. -/
theorem decodeOption_encodeOption {encode : α → Json} {decode : Json → Option α}
    (hdecode : ∀ a, decode (encode a) = some a) (hnull : ∀ a, encode a ≠ null) (a : Option α) :
    decodeOption decode (encodeOption encode a) = some a := by
  cases a with
  | none => rfl
  | some a => exact decodeOption_of_decode (hnull a) (hdecode a)

@[simp] theorem decodeOption_string (s : Option String) :
    decodeOption decodeString (encodeOption string s) = some s :=
  @decodeOption_encodeOption String string decodeString (fun _ => rfl) (fun _ h => by cases h) s

/-! ### Records -/

/-- The value of an entry. -/
def entry (fields : List (String × Json)) (name : String) : Option Json := fields.lookup name

/-- The fields a value has as a record with these names: those of an object, or those of an array
with as many elements. -/
def asStruct (names : List String) : Json → Option (String → Option Json)
  | object fields => some (entry fields)
  | array elems => if elems.length = names.length then some (entry (names.zip elems)) else none
  | _ => none

/-- A field of a record. -/
def field (fields : String → Option Json) (name : String) (decode : Json → Option α) : Option α :=
  (fields name).bind decode

/-- An optional field of a record. -/
def optField (fields : String → Option Json) (name : String) (decode : Json → Option α) :
    Option (Option α) :=
  (fields name).elim (some none) (decodeOption decode)

@[simp] theorem entry_nil (name : String) : entry [] name = none := rfl

@[simp] theorem entry_self (name : String) (value : Json) (fields : List (String × Json)) :
    entry ((name, value) :: fields) name = some value := by
  simp [entry]

@[simp] theorem entry_other {name other : String} (h : name ≠ other) (value : Json)
    (fields : List (String × Json)) :
    entry ((other, value) :: fields) name = entry fields name := by
  rw [entry, entry, List.lookup_cons, beq_false_of_ne h]

@[simp] theorem asStruct_object (names : List String) (fields : List (String × Json)) :
    (object fields).asStruct names = some (entry fields) := rfl

variable {fields : String → Option Json} {name : String} {value : Json}

theorem field_eq (h : fields name = some value) (decode : Json → Option α) :
    field fields name decode = decode value := by
  rw [field, h, Option.bind_some]

theorem optField_eq (h : fields name = some value) (decode : Json → Option α) :
    optField fields name decode = decodeOption decode value := by
  rw [optField, h, Option.elim_some]

theorem field_absent (h : fields name = none) (decode : Json → Option α) :
    field fields name decode = none := by
  rw [field, h, Option.bind_none]

/-! ### Variants -/

/-- The name of the variant a value is, with its data. -/
def asVariant : Json → Option (String × Option Json)
  | string name => some (name, none)
  | object [(name, value)] => some (name, some value)
  | _ => none

/-- The data of a variant without data: nothing, or null. -/
def unitData : Option Json → Bool
  | none => true
  | some null => true
  | some _ => false

/-- A value of an enumeration: one of the named variants, which have no data, or the variant with a
text, if there is one. -/
def decodeEnum (units : List (String × α)) (text : Option (String × (String → α)))
    (value : Json) : Option α := do
  let (name, data) ← value.asVariant
  match units.lookup name with
  | some a => if unitData data then some a else none
  | none =>
    let (textName, mk) ← text
    if name = textName then (data.bind decodeString).map mk else none

theorem decodeEnum_name {units : List (String × α)} {text : Option (String × (String → α))}
    {name : String} {a : α} (h : units.lookup name = some a) :
    decodeEnum units text (string name) = some a := by
  simp [decodeEnum, asVariant, h, unitData]

theorem decodeEnum_text {units : List (String × α)} {mk : String → α} {name s : String}
    (h : units.lookup name = none) :
    decodeEnum units (some (name, mk)) (object [(name, string s)]) = some (mk s) := by
  simp [decodeEnum, asVariant, h]

end Json
