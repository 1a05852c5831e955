import ShadeIndexer.Lib.F64
import ShadeIndexer.Lib.Json

/-!
The schema module of the TypeScript SDK, and what a schema is documented to
parse. A JavaScript string is its code units, a number is a binary64 value, and
a value that may be `undefined` is an option.
-/

namespace ShadeIndexer.Sdk

open Lib (F64)
open Lib.Json (Units utf16)

abbrev JsValue := Lib.Json.Value F64 Units

inductive StringCheck where
  | regex (pattern : Units → Bool) (message : String)

def StringCheck.test (s : Units) : StringCheck → Bool
  | .regex pattern _ => pattern s

inductive NumberCheck where
  | int
  | nonnegative

def NumberCheck.test (x : F64) : NumberCheck → Bool
  | .int =>
    match x with
    | .finite q => q.den = 1
    | _ => false
  | .nonnegative =>
    match x with
    | .nan => false
    | .inf negative => !negative
    | .finite q => 0 ≤ q

inductive Schema where
  | enum (options : List String)
  | string (checks : List StringCheck)
  | number (checks : List NumberCheck)
  | unknown
  | nullable (inner : Schema)
  | optional (inner : Schema)
  | object (shape : List (String × Schema))

/-- An object with one more property, unless the property is `undefined`. -/
def attach (key : String) (v : Option JsValue) (data : List (Units × JsValue)) :
    List (Units × JsValue) :=
  match v with
  | some v => (utf16 key, v) :: data
  | none => data

mutual

/-- What a schema is documented to make of a value that it accepts. An object
keeps the properties of its shape, in that order, and drops the others. -/
inductive Parses : Schema → Option JsValue → Option JsValue → Prop where
  | enum {options : List String} {s : String} (h : s ∈ options) :
      Parses (.enum options) (some (.string (utf16 s))) (some (.string (utf16 s)))
  | string {checks : List StringCheck} {s : Units} (h : ∀ c ∈ checks, c.test s = true) :
      Parses (.string checks) (some (.string s)) (some (.string s))
  | number {checks : List NumberCheck} {x : F64} (hx : x ≠ .nan)
      (h : ∀ c ∈ checks, c.test x = true) :
      Parses (.number checks) (some (.number x)) (some (.number x))
  | unknown {v : Option JsValue} : Parses .unknown v v
  | null {inner : Schema} : Parses (.nullable inner) (some .null) (some .null)
  | notNull {inner : Schema} {v out : Option JsValue} (hv : v ≠ some .null)
      (h : Parses inner v out) : Parses (.nullable inner) v out
  | undefined {inner : Schema} : Parses (.optional inner) none none
  | defined {inner : Schema} {v : JsValue} {out : Option JsValue} (h : Parses inner (some v) out) :
      Parses (.optional inner) (some v) out
  | object {shape : List (String × Schema)} {fields data : List (Units × JsValue)}
      (h : ParsesShape shape fields data) :
      Parses (.object shape) (some (.object fields)) (some (.object data))

inductive ParsesShape :
    List (String × Schema) → List (Units × JsValue) → List (Units × JsValue) → Prop where
  | nil {fields : List (Units × JsValue)} : ParsesShape [] fields []
  | cons {key : String} {t : Schema} {shape : List (String × Schema)}
      {fields data : List (Units × JsValue)} {out : Option JsValue}
      (h : Parses t (fields.lookup (utf16 key)) out) (hrest : ParsesShape shape fields data) :
      ParsesShape ((key, t) :: shape) fields (attach key out data)

end

/-- The properties of a shape that an object has, in the order of the shape. -/
def keep (shape : List (String × Schema)) (fields : List (Units × JsValue)) :
    List (Units × JsValue) :=
  shape.foldr (fun property data => attach property.1 (fields.lookup (utf16 property.1)) data) []

/-- An object whose properties all parse to themselves is kept as it is, but for
the properties outside the shape. -/
theorem ParsesShape.same {shape : List (String × Schema)} {fields : List (Units × JsValue)}
    (h : ∀ property ∈ shape, Parses property.2 (fields.lookup (utf16 property.1))
      (fields.lookup (utf16 property.1))) : ParsesShape shape fields (keep shape fields) := by
  induction shape with
  | nil => exact .nil
  | cons property rest ih =>
      have hrest := ih fun other hother => h other (List.mem_cons_of_mem _ hother)
      exact .cons (h property (List.mem_cons_self ..)) hrest

/-- The members of `z.enum([..])`. -/
def Launchpad.options : List String := ["clanker", "flaunch", "bankr", "zora"]

/-- A launchpad is one of the four literals, so a value of the type carries its
membership. -/
abbrev Launchpad := { literal : String // literal ∈ Launchpad.options }

/-- `["clanker", "flaunch", "bankr", "zora"] as Launchpad[]` -/
def Launchpad.all : List Launchpad := Launchpad.options.attach

/-- `[a-fA-F0-9]` -/
def isHexUnit (u : UInt16) : Bool :=
  (97 ≤ u.toNat && u.toNat ≤ 102) || (65 ≤ u.toNat && u.toNat ≤ 70) ||
    (48 ≤ u.toNat && u.toNat ≤ 57)

/-- `/^0x[a-fA-F0-9]{n}$/` -/
def hexPattern (n : Nat) : Units → Bool
  | 0x30 :: 0x78 :: rest => rest.length = n && rest.all isHexUnit
  | _ => false

def Address : Schema := .string [.regex (hexPattern 40) "0x-prefixed 20-byte address"]

def TxHash : Schema := .string [.regex (hexPattern 64) "0x-prefixed 32-byte hash"]

def Deploy.shape : List (String × Schema) :=
  [("launchpad", .enum Launchpad.options),
    ("token", Address),
    ("deployer", Address),
    ("block_number", .number [.int, .nonnegative]),
    ("block_timestamp", .number [.int, .nonnegative]),
    ("tx_hash", TxHash),
    ("log_index", .number [.int, .nonnegative]),
    ("initial_supply", .optional (.nullable (.string []))),
    ("raw", .optional .unknown)]

def Deploy : Schema := .object Deploy.shape

def TOPIC_PREFIX : String := "shade.launches."

def allTopics (lps : List Launchpad) : List String := lps.map fun l => TOPIC_PREFIX ++ l.val

end ShadeIndexer.Sdk
