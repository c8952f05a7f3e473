import DeviceRegisters.Device.Backend
import DeviceRegisters.Text.Digits

/-!
# DeviceRegisters.Device.Memory

A device made of words that keep what is written to them.  It keeps the log
lines it takes, and logs its own accesses that succeed.

`peek_write` says what a write does to every word, `fst_read` what a read
answers.
-/

namespace DeviceRegisters.Device

/-- The log line of a successful access: the name, the address in at least
three digits, an arrow that points where the word goes, the word in eight. -/
def traceLine (name : String) (address : Nat) (action : Action) (word : UInt32) : LogLine :=
  let arrow := match action with
    | .read => "] => "
    | .write => "] <= "
  ⟨.trace, name ++ "[" ++ String.ofList (Text.hexUpperPadded 3 address) ++ arrow ++
    String.ofList (Text.hexUpperPadded 8 word.toNat)⟩

/-- Words in memory, from address 0. -/
structure Memory where
  name : String
  words : Array UInt32
  log : List LogLine
  deriving DecidableEq, Repr

namespace Memory

/-- A memory of `size` words that are all zero. -/
def zeroed (name : String) (size : Nat) : Memory := ⟨name, Array.replicate size 0, []⟩

/-- The number of words. -/
def size (m : Memory) : Nat := m.words.size

/-- The word at an address, seen without an access. -/
def peek (m : Memory) (address : Nat) : Option UInt32 := m.words[address]?

/-- The memory with one more log line. -/
def note (m : Memory) (line : LogLine) : Memory := { m with log := m.log ++ [line] }

/-- Reads a word. -/
def read (m : Memory) (address : Nat) : Except Fault UInt32 × Memory :=
  match m.words[address]? with
  | some word => (.ok word, m.note (traceLine m.name address .read word))
  | none => (.error (.outOfRange address m.size), m)

/-- Writes a word. -/
def write (m : Memory) (address : Nat) (word : UInt32) : Except Fault Unit × Memory :=
  if h : address < m.words.size then
    (.ok (), { m with words := m.words.set address word }.note
      (traceLine m.name address .write word))
  else (.error (.outOfRange address m.size), m)

/-- A write keeps the number of words. -/
theorem size_write (m : Memory) (a : Nat) (w : UInt32) : (m.write a w).2.size = m.size := by
  simp only [write]
  split <;> simp [size, note]

/-- A write inside the memory changes the word at its address and no other. -/
theorem peek_write (m : Memory) (a b : Nat) (w : UInt32) :
    (m.write a w).2.peek b = if b = a ∧ a < m.size then some w else m.peek b := by
  simp only [write, size]
  split
  · simp only [peek, note, Array.getElem?_set]
    grind
  · next h => simp [h]

/-- A read answers the word at its address, or refuses an address outside. -/
theorem fst_read (m : Memory) (a : Nat) :
    (m.read a).1 = match m.peek a with
      | some w => .ok w
      | none => .error (.outOfRange a m.size) := by
  simp only [read, peek]
  split <;> simp_all

/-- A write succeeds at the addresses of the memory, and refuses the others. -/
theorem fst_write (m : Memory) (a : Nat) (w : UInt32) :
    (m.write a w).1 = if a < m.size then .ok () else .error (.outOfRange a m.size) := by
  by_cases h : a < m.words.size <;> simp [write, size, h]

/-- A read changes no word. -/
theorem peek_read (m : Memory) (a b : Nat) : (m.read a).2.peek b = m.peek b := by
  simp only [read]
  split <;> rfl

/-- Writes several words in order; those outside the memory are passed over. -/
def fill (m : Memory) (contents : List (Nat × UInt32)) : Memory :=
  contents.foldl (fun m (address, word) => (m.write address word).2) m

/-- The words that are not zero, with their addresses in ascending order. -/
def nonzero (m : Memory) : List (Nat × UInt32) :=
  (m.words.toList.zipIdx.filter (·.1 ≠ 0)).map fun (word, address) => (address, word)

instance : Backend Memory where
  read := read
  write := write
  note := note

end Memory
end DeviceRegisters.Device
