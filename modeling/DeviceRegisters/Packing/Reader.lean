import DeviceRegisters.Error
import DeviceRegisters.Packing.Basic
import DeviceRegisters.Text.Blank
import DeviceRegisters.Text.Lines

/-!
# DeviceRegisters.Packing.Reader

Reading a field list.

```
NAME        REGISTER  BITS  INITIAL  [R]     a field
            REGISTER  BITS  INITIAL  [R]     its next slice
NAME        REGISTER  VALUE                  a constant
REGISTER =  VALUE                            a constant named by its register
```

`BITS` is `bit` or `high:low`, and text from a `#` on is left out.  All lines
are gathered before the first entry is read, so a line that belongs nowhere is
reported before any malformed entry.
-/

namespace DeviceRegisters.Packing

/-- Refuses a line. -/
def refuse {α : Type} (problem : Problem) (line : Nat) : Except Error α :=
  .error (.refused (.packing problem) line)

/-! ## gathering lines -/

/-- A line that is not empty, in words: one that starts an entry, or one that
starts with white space and continues the entry before it. -/
inductive Row where
  | first (line : Nat) (name : String) (tokens : List String)
  | more (line : Nat) (tokens : List String)
  deriving DecidableEq, Repr

/-- A line of text as a row, unless it is empty without its comment. -/
def Row.ofText? (line : Nat) (cs : List Char) : Option Row :=
  let content := Text.trimEnd (cs.takeWhile (· ≠ '#'))
  let tokens := (Text.words content).map String.ofList
  match tokens with
  | [] => none
  | name :: rest =>
    if content.head?.any Text.isBlank then some (.more line tokens) else some (.first line name rest)

/-- An entry's name and rows, each row with its line. -/
structure Block where
  name : String
  line : Nat
  rows : List (Nat × List String)
  deriving DecidableEq, Repr

/-- Puts a row in front of rows that wait for their entry and the blocks after
them. -/
def Block.attach : Row → List (Nat × List String) × List Block → List (Nat × List String) × List Block
  | .more line tokens, (waiting, blocks) => ((line, tokens) :: waiting, blocks)
  | .first line name tokens, (waiting, blocks) => ([], ⟨name, line, (line, tokens) :: waiting⟩ :: blocks)

/-- The blocks of a text. -/
def gather (text : String) : Except Error (List Block) :=
  let lines := Text.Lines.ofText text.toList
  let rows := lines.ended.zipIdx.filterMap fun (cs, index) => Row.ofText? (index + 1) cs
  match rows.foldr Block.attach ([], []) with
  | ((line, _) :: _, _) => refuse .nothingToContinue line
  | ([], blocks) => if lines.rest.isEmpty then .ok blocks else refuse .unendedLine (lines.ended.length + 1)

/-! ## reading entries -/

/-- Reads a numeral. -/
def readNumber (token : String) (line : Nat) : Except Error UInt64 :=
  match Numeral.parse token.toList with
  | .ok value => .ok value
  | .error problem => refuse (.notANumber problem token) line

/-- Reads a numeral of 32 bits. -/
def readWord (token : String) (line : Nat) : Except Error Nat := do
  let value ← readNumber token line
  if value.toNat < UInt32.size then .ok value.toNat else refuse (.numberTooLarge token) line

/-- Reads `bit` or `high:low` as an offset and a width. -/
def readRange (token : String) (line : Nat) : Except Error (Nat × Nat) :=
  let cs := token.toList
  match cs.dropWhile (· ≠ ':') with
  | [] => do
    let offset ← readWord token line
    .ok (offset, 1)
  | _ :: low => do
    let high ← readWord (String.ofList (cs.takeWhile (· ≠ ':'))) line
    let low ← readWord (String.ofList low) line
    if high < low then refuse (.invertedRange token) line else .ok (low, high - low + 1)

/-- Reads the words after a slice: nothing, or `R`. -/
def readMarker (tokens : List String) (line : Nat) : Except Error Bool :=
  match tokens with
  | [] => .ok false
  | [marker] => if marker = "R" then .ok true else refuse (.invalidMarker marker) line
  | _ => refuse .tooManyWords line

/-- Reads a slice: its register, its bits, its initial value and its marker. -/
def readSlice (line : Nat) (tokens : List String) : Except Error Slice :=
  match tokens with
  | register :: range :: initial :: rest => do
    let readOnly ← readMarker rest line
    let register ← readWord register line
    let (offset, width) ← readRange range line
    if 32 < offset + width then refuse (.rangeTooFar range) line
    else
      let initial ← readNumber initial line
      if Word.fits initial width then .ok ⟨register, offset, width, initial, readOnly⟩
      else refuse (.initialTooWide initial width) line
  | _ => refuse .malformedLine line

/-- Reads a constant from two words: an equals sign in place of the register
makes the name the register. -/
def readConstant (name register value : String) (line : Nat) : Except Error Meaning := do
  let register ← readWord (if register = "=" then name else register) line
  let value ← readWord value line
  .ok (.constant register (UInt32.ofNat value))

/-- Reads what a block stands for. -/
def readMeaning (block : Block) : Except Error Meaning :=
  match block.rows with
  | [(line, [register, value])] => readConstant block.name register value line
  | rows => do
    let slices ← rows.mapM fun (line, tokens) => readSlice line tokens
    .ok (.field slices)

/-- Reads blocks in order, after entries of the given names. -/
def readBlocks (seen : List String) : List Block → Except Error (List Item)
  | [] => .ok []
  | block :: blocks =>
    if block.name ∈ seen then refuse (.repeatedName block.name) block.line
    else do
      let meaning ← readMeaning block
      let items ← readBlocks (block.name :: seen) blocks
      .ok (⟨block.name, meaning, block.line⟩ :: items)

/-- Reads a field list. -/
def parse (text : String) : Except Error (List Item) := do
  let blocks ← gather text
  readBlocks [] blocks

end DeviceRegisters.Packing
