import DeviceRegisters.Definition.Basic
import DeviceRegisters.Definition.Words

/-!
# DeviceRegisters.Definition.FieldLines

The lines beneath a register:

```
.NAME [WIDTH] [@OFFSET] [MODE]     a field, of one bit unless a width is given
- [WIDTH]                          bits that are skipped
```

A field without an offset starts where the line before it ended.  No two fields
share a bit, and none leaves the register.
-/

namespace DeviceRegisters.Definition

open Outline (Node)

/-- The fields with one more behind them, which must not share a bit with
any. -/
def addField (fields : List Field) (field : Field) : Except Error (List Field) :=
  match fields.find? (·.overlaps field) with
  | some other => refuse (.overlap field.name other.name) field.line
  | none => .ok (fields ++ [field])

/-- Adds fields in order. -/
def addFields (fields : List Field) : List Field → Except Error (List Field)
  | [] => .ok fields
  | field :: more => do
    let fields ← addField fields field
    addFields fields more

/-- Reads the number of bits to skip. -/
def readSkip (tokens : List String) (children : List Node) (line : Nat) : Except Error Nat := do
  checkLeaf children line
  checkCount tokens 0 1 line
  match tokens with
  | [] => .ok 1
  | width :: _ => readNumber width line

/-- Reads a width in front of other words, if there is one. -/
def readWidth (tokens : List String) (line : Nat) : Except Error (Option Nat × List String) :=
  match tokens with
  | [] => .ok (none, [])
  | token :: rest =>
    if Numeral.startsLikeOne token then do
      let width ← readNumber token line
      .ok (some width, rest)
    else .ok (none, tokens)

/-- Reads an offset after `@` in front of other words, if there is one. -/
def readOffset (tokens : List String) (line : Nat) : Except Error (Option Nat × List String) :=
  match tokens with
  | [] => .ok (none, [])
  | token :: rest =>
    match token.toList with
    | '@' :: number => do
      let offset ← readNumber (String.ofList number) line
      .ok (some offset, rest)
    | _ => .ok (none, tokens)

/-- Reads an access mode as the only word, if there is one. -/
def readOwnAccess (tokens : List String) (line : Nat) : Except Error (Option Access) := do
  checkCount tokens 0 1 line
  match tokens with
  | [] => .ok none
  | token :: _ => do
    let mode ← readAccess token line
    .ok (some mode)

/-- Reads a field that starts at `cursor` unless its line says otherwise. -/
def readField (cursor : Nat) (token : String) (tokens doc : List String) (children : List Node)
    (line : Nat) : Except Error Field := do
  checkLeaf children line
  match token.toList with
  | '.' :: name =>
    let name := String.ofList name
    checkName name line
    let (width?, tokens) ← readWidth tokens line
    let (offset?, tokens) ← readOffset tokens line
    let width := width?.getD 1
    let offset := offset?.getD cursor
    if width = 0 then refuse .emptyField line
    else if registerBits < offset + width then refuse (.fieldTooFar offset width) line
    else do
      let access ← readOwnAccess tokens line
      .ok ⟨name, offset, width, width?.isNone, access, doc, line⟩
  | _ => refuse .notAField line

/-- Reads field lines after the given fields, from the bit `cursor` on. -/
def readFieldsFrom (fields : List Field) (cursor : Nat) : List Node → Except Error (List Field)
  | [] => .ok fields
  | ⟨line, text, doc, children⟩ :: nodes => do
    let (token, tokens) ← readTokens text line
    if token = "-" then do
      let skip ← readSkip tokens children line
      if registerBits < cursor + skip then refuse .skipTooFar line
      else readFieldsFrom fields (cursor + skip) nodes
    else do
      let field ← readField cursor token tokens doc children line
      let fields ← addField fields field
      readFieldsFrom fields field.stop nodes

/-- Reads the field lines beneath a register. -/
def readFields (nodes : List Node) : Except Error (List Field) := readFieldsFrom [] 0 nodes

end DeviceRegisters.Definition
