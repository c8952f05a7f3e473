import DeviceRegisters.Definition.FieldLines
import DeviceRegisters.Definition.Library

/-!
# DeviceRegisters.Definition.EntryLines

The lines beneath a group:

```
NAME MODE                    a register; fields beneath
NAME MODE COUNT              a bank of registers; their fields beneath
:TEMPLATE [NAME | -] [MODE]  a use of a template; more fields beneath
*RW                          a register to read and one to write beneath
*OVERLAY NAME MODE           the registers of an overlay beneath
*UNION [NAME]                the entries of a union beneath
!NAME, !!NAME                a group, or a hidden group; its entries beneath
```

The entries of a group follow one another without gaps from its base on; those
of a union all start at its base.
-/

namespace DeviceRegisters.Definition

open Outline (Node)

/-! ## registers -/

/-- Reads a register, `NAME [MODE]`.  `wanted` lists the modes it may have, all
if it is empty; `otherwise` is the mode if none is written. -/
def readRegister (offset : Nat) (wanted : List Access) (otherwise : Option Access) (node : Node) :
    Except Error Register := do
  let line := node.number
  let (name, tokens) ← readTokens node.text line
  checkCount tokens 0 1 line
  checkName name line
  let access ← match tokens, otherwise with
    | token :: _, _ => readAccess token line
    | [], some mode => .ok mode
    | [], none => refuse .missingAccess line
  checkAccess access wanted line
  let fields ← readFields node.children
  .ok ⟨name, offset, access, fields, none, node.doc, line⟩

/-- Whether the words after a line's first make it a bank: the second of them
starts like a number. -/
def isBank (tokens : List String) : Bool :=
  match tokens with
  | _ :: count :: _ => Numeral.startsLikeOne count
  | _ => false

/-- Reads a bank, `NAME MODE COUNT`. -/
def readBank (offset : Nat) (name : String) (tokens : List String) (node : Node) :
    Except Error Bank := do
  let line := node.number
  match tokens with
  | [mode, count] =>
    checkName name line
    let access ← readAccess mode line
    let count ← readNumber count line
    let fields ← readFields node.children
    .ok ⟨name, offset, count, access, fields, node.doc⟩
  | _ => refuse (if tokens.length < 2 then .tooFewWords else .tooManyWords) line

/-! ## uses of templates -/

/-- A template put to use. -/
inductive Use where
  | group (head : GroupHead)
  | register (register : Register)

/-- A use as an entry; what it stands for is not filled in yet. -/
def Use.entry : Use → Entry
  | .group head => .group head []
  | .register r => .register r

/-- Reads the mode of a use, the template's if none is written. -/
def readUseAccess (tokens : List String) (otherwise : Access) (line : Nat) : Except Error Access :=
  match tokens with
  | _ :: mode :: _ => readAccess mode line
  | _ => .ok otherwise

/-- Reads a use of a template, `:TEMPLATE [NAME | -] [MODE]`. -/
def readUse (library : Library) (offset : Nat) (node : Node) : Except Error Use := do
  let line := node.number
  let (token, tokens) ← readTokens node.text line
  checkCount tokens 0 2 line
  let key := String.ofList (token.toList.dropWhile (· = ':'))
  let name := match tokens with
    | own :: _ => if own = "-" then key else own
    | [] => key
  checkName name line
  match library.numberOf? key with
  | none => refuse (.unknownTemplate key) line
  | some number =>
    match library.get? number with
    | some (.group template) =>
      if 1 < tokens.length then refuse .accessOfGroup line
      else do
        checkLeaf node.children line
        .ok (.group ⟨name, offset, template.head.span, false, some number, node.doc⟩)
    | some (.register template) => do
      let access ← readUseAccess tokens template.access line
      let fields ← readFields node.children
      .ok (.register ⟨name, offset, access, fields, some number, node.doc, line⟩)
    | none => refuse (.unknownTemplate key) line

/-- Reads a register that is spelled out or a use of one. -/
def readRegisterOrUse (library : Library) (offset : Nat) (wanted : List Access)
    (otherwise : Option Access) (node : Node) : Except Error Register :=
  if node.text.toList.head? = some ':' then do
    match ← readUse library offset node with
    | .register r => do
      checkAccess r.access wanted node.number
      .ok r
    | .group head => refuse (.notARegister head.name) node.number
  else readRegister offset wanted otherwise node

/-! ## registers at one address -/

/-- Reads a pair from the two lines beneath `*RW`. -/
def readPair (library : Library) (offset : Nat) (tokens : List String) (children : List Node)
    (line : Nat) : Except Error Pair := do
  checkCount tokens 0 0 line
  match children with
  | [first, second] => do
    let read ← readRegisterOrUse library offset [.readOnly] none first
    let write ← readRegisterOrUse library offset [.writeOnly, .writePulse] none second
    .ok ⟨read, write⟩
  | _ => refuse .notAPair line

/-- Reads the registers of an overlay, numbered from `index` on.  An index has as
many bits as an address and is cut to them. -/
def readOverlaid (library : Library) (access : Access) (index : Nat) :
    List Node → Except Error (List Register)
  | [] => .ok []
  | node :: nodes => do
    let (_, tokens) ← readTokens node.text node.number
    if isBank tokens then refuse .bankInOverlay node.number
    else do
      let register ← readRegisterOrUse library (index % UInt32.size) [] (some access) node
      let registers ← readOverlaid library access (index + 1) nodes
      .ok (register :: registers)

/-- Reads an overlay, `*OVERLAY NAME MODE`. -/
def readOverlay (library : Library) (offset : Nat) (tokens : List String) (node : Node) :
    Except Error Overlay := do
  let line := node.number
  match tokens with
  | [name, mode] =>
    checkName name line
    let access ← readAccess mode line
    let registers ← readOverlaid library access 0 node.children
    .ok ⟨name, offset, access, registers, node.doc⟩
  | _ => refuse (if tokens.length < 2 then .tooFewWords else .tooManyWords) line

/-! ## groups and unions -/

/-- Reads the name of a group, `!NAME`, or of a hidden one, `!!NAME`. -/
def readGroupName (token : String) (tokens : List String) (line : Nat) :
    Except Error (String × Bool) := do
  let (name, hidden) := match token.toList with
    | '!' :: '!' :: name => (String.ofList name, true)
    | cs => (String.ofList (cs.dropWhile (· = '!')), false)
  checkName name line
  checkCount tokens 0 0 line
  .ok (name, hidden)

/-- Reads the name of a union, `*UNION [NAME]`. -/
def readUnionName (tokens : List String) (line : Nat) : Except Error (Option String) := do
  checkCount tokens 0 1 line
  match tokens with
  | [] => .ok none
  | name :: _ => do
    checkName name line
    .ok (some name)

/-- The addresses that entries take one after the other. -/
def totalSpan : List Entry → Nat
  | [] => 0
  | entry :: entries => entry.span + totalSpan entries

/-- The addresses that entries take one over the other. -/
def greatestSpan : List Entry → Nat
  | [] => 0
  | entry :: entries => max entry.span (greatestSpan entries)

mutual
/-- Reads an entry that starts at an address. -/
def readEntry (library : Library) (offset : Nat) : Node → Except Error Entry
  | ⟨line, text, doc, children⟩ => do
    let (token, tokens) ← readTokens text line
    match token.toList.head? with
    | some '.' => refuse .fieldOutsideRegister line
    | some '-' => refuse .fieldOutsideRegister line
    | some ':' => do
      let use ← readUse library offset ⟨line, text, doc, children⟩
      .ok use.entry
    | some '*' =>
      if token = "*RW" then do
        let pair ← readPair library offset tokens children line
        .ok (.pair pair)
      else if token = "*OVERLAY" then do
        let overlay ← readOverlay library offset tokens ⟨line, text, doc, children⟩
        .ok (.overlay overlay)
      else if token = "*UNION" then do
        let name ← readUnionName tokens line
        let content ← readAlternatives library offset children
        .ok (.union ⟨name, offset, greatestSpan content, doc⟩ content)
      else refuse .unknownDirective line
    | some '!' => do
      let (name, hidden) ← readGroupName token tokens line
      let content ← readMembers library offset 0 children
      .ok (.group ⟨name, offset, totalSpan content, hidden, none, doc⟩ content)
    | _ =>
      if isBank tokens then do
        let bank ← readBank offset token tokens ⟨line, text, doc, children⟩
        .ok (.bank bank)
      else do
        let register ← readRegister offset [] none ⟨line, text, doc, children⟩
        .ok (.register register)

/-- Reads the entries of a group at `offset`, after entries that take `taken`
addresses.  The address after an entry has to exist. -/
def readMembers (library : Library) (offset taken : Nat) : List Node → Except Error (List Entry)
  | [] => .ok []
  | node :: nodes => do
    let entry ← readEntry library (offset + taken) node
    if Address.last < offset + taken + entry.span then refuse .addressOverflow node.number
    else do
      let entries ← readMembers library offset (taken + entry.span) nodes
      .ok (entry :: entries)

/-- Reads the entries of a union at `offset`. -/
def readAlternatives (library : Library) (offset : Nat) : List Node → Except Error (List Entry)
  | [] => .ok []
  | node :: nodes => do
    let entry ← readEntry library offset node
    match entry with
    | .bank _ => refuse .bankInUnion node.number
    | entry => do
      let entries ← readAlternatives library offset nodes
      .ok (entry :: entries)
end

/-- Reads a group that stands by itself, from address 0. -/
def readGroup (library : Library) (node : Node) : Except Error Group := do
  let (token, tokens) ← readTokens node.text node.number
  let (name, hidden) ← readGroupName token tokens node.number
  let content ← readMembers library 0 0 node.children
  .ok ⟨⟨name, 0, totalSpan content, hidden, none, node.doc⟩, content⟩

end DeviceRegisters.Definition
