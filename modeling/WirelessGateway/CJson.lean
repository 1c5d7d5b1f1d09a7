import Mathlib.Data.Rat.Defs
import Mathlib.Data.List.Basic

namespace WirelessGateway.CJson

abbrev Bytes := List UInt8

/-- The values of cJSON. A number carries both of the fields that cJSON keeps
for it: valueint, which is saturated to int, and valuedouble. -/
inductive Json
  | null
  | bool (b : Bool)
  | number (valueint : Int32) (valuedouble : ℚ)
  | string (valuestring : Bytes)
  | array (items : List Json)
  | object (fields : List (Bytes × Json))

/-- What lies outside the repository: the parser and printer of cJSON and the
tick conversion of FreeRTOS. -/
structure Platform where
  parse : Bytes → Option Json
  print : Json → Bytes
  msToTicks : UInt32 → UInt32

def bytes (text : List Char) : Bytes := text.map (fun c => c.toNat.toUInt8)

def toLower (b : UInt8) : UInt8 := if 65 ≤ b ∧ b ≤ 90 then b + 32 else b

def Json.getObjectItem (json : Json) (name : List Char) : Option Json :=
  match json with
  | .object fields =>
      (fields.find? (fun f => f.1.map toLower == (bytes name).map toLower)).map (fun f => f.2)
  | _ => none

/-- A string of cJSON as its readers in C take it: up to its first terminator. -/
def cString (valuestring : Bytes) : Bytes := valuestring.takeWhile (fun b => decide (b ≠ 0))

def Json.createNumber (n : Int) : Json :=
  .number (Int32.ofInt (max (-2147483648) (min n 2147483647))) n

/-- The field valueint of a cJSON item, which cJSON_Parse sets to 1 for true. -/
def Json.valueint : Json → Int32
  | .number valueint _ => valueint
  | .bool b => if b then 1 else 0
  | _ => 0

def hexDigit (b : UInt8) : Option Nat :=
  if 48 ≤ b ∧ b ≤ 57 then some (b.toNat - 48)
  else if 97 ≤ toLower b ∧ toLower b ≤ 102 then some ((toLower b).toNat - 87)
  else none

def hexValue (acc : Nat) : Bytes → Nat
  | [] => acc
  | b :: bs => match hexDigit b with
    | some d => hexValue (acc * 16 + d) bs
    | none => acc

def isSpace (b : UInt8) : Bool := b == 32 || (9 ≤ b && b ≤ 13)

def strtolPrefix : Bytes → Bytes
  | 48 :: x :: bs => if toLower x = 120 then bs else 48 :: x :: bs
  | bs => bs

def strtol16 (s : Bytes) : Int :=
  match s.dropWhile isSpace with
  | 45 :: bs => max (-(hexValue 0 (strtolPrefix bs) : Int)) (-2147483648)
  | 43 :: bs => min (hexValue 0 (strtolPrefix bs)) 2147483647
  | bs => min (hexValue 0 (strtolPrefix bs)) 2147483647

/-- cJSON_ParseInt, that is json_parse_int: a number, or a string read as hex. -/
def Json.parseInt (json : Json) (name : List Char) : Option UInt32 :=
  match json.getObjectItem name with
  | some (.number i _) => some i.toUInt32
  | some (.string v) => some (UInt32.ofInt (strtol16 v))
  | _ => none

example : strtol16 (bytes ['0', 'x', '1', '0', '1', '2']) = 0x1012 := by decide

section Samples

def fieldsText : List (List Char × Nat) → List Char
  | [] => []
  | [f] => '"' :: f.1 ++ ['"', ':'] ++ Nat.toDigits 10 f.2
  | f :: g :: fs => '"' :: f.1 ++ ['"', ':'] ++ Nat.toDigits 10 f.2 ++ ',' :: fieldsText (g :: fs)

def argText (fields : List (List Char × Nat)) : List Char := '\x7b' :: fieldsText fields ++ ['\x7d']

def argJson (fields : List (List Char × Nat)) : Json :=
  .object (fields.map (fun f => (bytes f.1, .number (Int32.ofNat f.2) f.2)))

def reads (objects : List (List (List Char × Nat))) : Platform where
  parse text := (objects.find? (fun fields => bytes (argText fields) == text)).map argJson
  print _ := []
  msToTicks t := t

end Samples

end WirelessGateway.CJson
