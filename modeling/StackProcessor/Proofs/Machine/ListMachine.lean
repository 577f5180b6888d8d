import StackProcessor.Machine.Processor
import StackProcessor.Proofs.Basic

/-!
# StackProcessor — the list machine

The processor as a programmer sees it: a `ListMachine` has a list of words for its stack, the top
first and at most `capacity` long, lists for memory, input and output, and one step for each
instruction, with neither signals nor ticks nor cells that are out of use. It is written without
reference to the datapath. `exec?` says where an operation leads, `step?` where a step leads, and
`Refuses` why there is none. The cause is an `Interrupt`, and at most one of the causes applies: an
operation that `grows` is refused on a full stack, also when a word is missing on it; any operation
that `needs` more words than there are is refused next, and the address is looked at last.

## Results
- `ListMachine.Refuses.step?_eq_none`, `ListMachine.Refuses.unique` : what is refused has no step,
  and is refused for one cause.
-/

namespace StackProcessor

namespace Operation

/-- How many words the operation takes from the stack or looks at. -/
def needs : Operation → Nat
  | halt | jump _ | push _ => 0
  | jz _ | push2 _ | load | drop | dup | inc => 1
  | pop | alu _ => 2

/-- Whether the operation leaves one word more than it finds. -/
def grows : Operation → Bool
  | push _ | push2 _ | dup => true
  | halt | jump _ | jz _ | pop | load | drop | inc | alu _ => false

end Operation

/-- A machine with a list for its stack. -/
structure ListMachine where
  code : List Instruction
  /-- The stack holds no more words than this. -/
  capacity : Nat
  pc : Nat
  /-- The stack, the top first. -/
  stack : List Word
  memory : List Word
  input : List Char
  output : List Word
  deriving DecidableEq, Repr, Inhabited

namespace ListMachine

/-- The machine before the first step. -/
def initial (image : Image) (capacity : Nat) (input : List Char) : ListMachine where
  code := image.code
  capacity := capacity
  pc := 0
  stack := []
  memory := image.data
  input := input
  output := []

/-- The same machine with another stack, unless that is too long. -/
def withStack? (m : ListMachine) (s : List Word) : Option ListMachine :=
  if s.length ≤ m.capacity then some { m with stack := s } else none

/-- Whether the memory has a cell with this address. -/
def HasCell (m : ListMachine) (a : Word) : Prop := 0 ≤ a.toInt ∧ a.toInt < m.memory.length

instance (m : ListMachine) (a : Word) : Decidable (m.HasCell a) :=
  inferInstanceAs (Decidable (_ ∧ _))

/-- Puts what an address holds on the stack `s`: the next input character, or a memory cell. -/
def load? (m : ListMachine) (a : Word) (s : List Word) : Option ListMachine :=
  if a = 0 then
    match m.input with
    | c :: rest => some { m with stack := Word.ofChar c :: s, input := rest }
    | [] => none
  else if m.HasCell a then some { m with stack := m.memory.getD a.toInt.toNat 0 :: s }
  else none

/-- Sends a word to the output or stores it in memory, and leaves the stack `s`. -/
def store? (m : ListMachine) (v a : Word) (s : List Word) : Option ListMachine :=
  if a = 1 then some { m with stack := s, output := m.output ++ [v] }
  else if m.HasCell a then some { m with stack := s, memory := m.memory.set a.toInt.toNat v }
  else none

/-- The machine at the next instruction. -/
def next (m : ListMachine) : ListMachine := { m with pc := m.pc + 1 }

/-- Where an operation leads. -/
def exec? (m : ListMachine) : Operation → Option ListMachine
  | .push v => m.next.withStack? (v :: m.stack)
  | .dup =>
    match m.stack with
    | x :: s => m.next.withStack? (x :: x :: s)
    | [] => none
  | .push2 v =>
    match m.stack with
    | x :: s => m.next.withStack? (x :: v :: s)
    | [] => none
  | .drop =>
    match m.stack with
    | _ :: s => some { m.next with stack := s }
    | [] => none
  | .inc =>
    match m.stack with
    | x :: s => some { m.next with stack := Word.wrap (x.toInt + 1) :: s }
    | [] => none
  | .alu op =>
    match m.stack with
    | l :: r :: s => some { m.next with stack := op.eval l r :: s }
    | _ => none
  | .jz target =>
    match m.stack with
    | x :: _ => some (if x = 0 then { m with pc := target } else m.next)
    | [] => none
  | .load =>
    match m.stack with
    | a :: s => m.next.load? a s
    | [] => none
  | .pop =>
    match m.stack with
    | v :: a :: s => m.next.store? v a s
    | _ => none
  | .jump target => some { m with pc := target }
  | .halt => none

/-- The operation that the machine is at. -/
def operation? (m : ListMachine) : Option Operation :=
  match m.code[m.pc]? with
  | some inst =>
    match inst.operation with
    | .ok op => some op
    | .error _ => none
  | none => none

/-- Where a step leads. -/
def step? (m : ListMachine) : Option ListMachine := m.operation?.bind m.exec?

/-- Where `n` steps lead. -/
def steps? (m : ListMachine) : Nat → Option ListMachine
  | 0 => some m
  | n + 1 => m.step?.bind fun m' => m'.steps? n

/-- Why there is no step. -/
inductive Refuses (m : ListMachine) : Interrupt → Prop where
  | pcOutOfRange : m.code.length ≤ m.pc → Refuses m (.ofRuntime (.pcOutOfRange m.pc))
  | undecodable {inst : Instruction} {fault : DecodeFault} :
    m.code[m.pc]? = some inst → inst.operation = .error fault → Refuses m (.fault (.decode fault))
  | halt : m.operation? = some .halt → Refuses m .halt
  /-- A full stack is refused first, also when a word is missing on it. -/
  | overflow {op : Operation} :
    m.operation? = some op → op.grows = true → m.capacity ≤ m.stack.length →
    Refuses m (.ofRuntime (.stackOverflow m.capacity))
  | underflow {op : Operation} :
    m.operation? = some op → m.stack.length < op.needs →
    (op.grows = true → m.stack.length < m.capacity) → Refuses m (.ofRuntime .stackUnderflow)
  | inputExhausted {s : List Word} :
    m.operation? = some .load → m.stack = 0 :: s → m.input = [] → Refuses m .inputExhausted
  | loadOutside {a : Word} {s : List Word} :
    m.operation? = some .load → m.stack = a :: s → a ≠ 0 → ¬ m.HasCell a →
    Refuses m (.ofRuntime (.badAddress a))
  | storeOutside {v a : Word} {s : List Word} :
    m.operation? = some .pop → m.stack = v :: a :: s → a ≠ 1 → ¬ m.HasCell a →
    Refuses m (.ofRuntime (.badAddress a))

-- ---------------------------------------------------------------------------
-- What is refused has no step
-- ---------------------------------------------------------------------------

variable {m : ListMachine}

theorem operation?_of_le (hPc : m.code.length ≤ m.pc) : m.operation? = none := by
  simp only [operation?, List.getElem?_eq_none hPc]

theorem operation?_of_error {inst : Instruction} {fault : DecodeFault}
    (hCode : m.code[m.pc]? = some inst) (hOp : inst.operation = .error fault) :
    m.operation? = none := by
  simp only [operation?, hCode, hOp]

theorem step?_of_operation? {op : Operation} (hOp : m.operation? = some op) :
    m.step? = m.exec? op := by
  rw [step?, hOp, Option.bind_some]

theorem withStack?_of_lt {s : List Word} (hLong : m.capacity < s.length) :
    m.withStack? s = none := by
  rw [withStack?, if_neg (by omega)]

theorem exec?_of_full {op : Operation} (hGrows : op.grows = true)
    (hFull : m.capacity ≤ m.stack.length) : m.exec? op = none := by
  cases op with
  | push v =>
    apply withStack?_of_lt
    show m.capacity < (v :: m.stack).length
    rw [List.length_cons]
    omega
  | dup | push2 =>
    cases hStack : m.stack with
    | nil => simp only [exec?, hStack]
    | cons x s =>
      rw [hStack, List.length_cons] at hFull
      simp only [exec?, hStack]
      apply withStack?_of_lt
      show m.capacity < s.length + 2
      omega
  | _ => cases hGrows

theorem exec?_of_underflow {op : Operation} (hNeeds : m.stack.length < op.needs) :
    m.exec? op = none := by
  match hStack : m.stack with
  | [] | [_] => cases op <;> simp_all [exec?, Operation.needs]
  | x :: y :: s =>
    rw [hStack] at hNeeds
    cases op <;> simp only [Operation.needs, List.length_cons] at hNeeds <;> omega

theorem Refuses.step?_eq_none {cause : Interrupt} (h : m.Refuses cause) : m.step? = none := by
  cases h with
  | pcOutOfRange hPc => rw [step?, operation?_of_le hPc, Option.bind_none]
  | undecodable hCode hOp => rw [step?, operation?_of_error hCode hOp, Option.bind_none]
  | halt hOp => exact step?_of_operation? hOp
  | overflow hOp hGrows hFull => rw [step?_of_operation? hOp, exec?_of_full hGrows hFull]
  | underflow hOp hNeeds _ => rw [step?_of_operation? hOp, exec?_of_underflow hNeeds]
  | inputExhausted hOp hStack hInput =>
    have hInput' : m.next.input = [] := hInput
    rw [step?_of_operation? hOp]
    simp only [exec?, hStack, load?, if_true, hInput']
  | @loadOutside a s hOp hStack hPort hCell =>
    have hCell' : ¬ m.next.HasCell a := hCell
    rw [step?_of_operation? hOp]
    simp only [exec?, hStack, load?, if_neg hPort, if_neg hCell']
  | @storeOutside v a s hOp hStack hPort hCell =>
    have hCell' : ¬ m.next.HasCell a := hCell
    rw [step?_of_operation? hOp]
    simp only [exec?, hStack, store?, if_neg hPort, if_neg hCell']

/-- There is one reason only: the conditions exclude one another. -/
theorem Refuses.unique {i j : Interrupt} (hi : m.Refuses i) (hj : m.Refuses j) : i = j := by
  cases hi with
  | pcOutOfRange hPc =>
    -- every other reason has a record, and most of them an operation
    have hNone := operation?_of_le hPc
    cases hj <;> grind
  | undecodable hCode hOp =>
    have hNone := operation?_of_error hCode hOp
    cases hj <;> grind
  | _ =>
    cases hj <;>
      grind [operation?_of_le, operation?_of_error, Operation.needs, Operation.grows]

-- ---------------------------------------------------------------------------
-- Runs
-- ---------------------------------------------------------------------------

theorem steps?_succ_of_step? {m' : ListMachine} (h : m.step? = some m') (n : Nat) :
    m.steps? (n + 1) = m'.steps? n := by
  simp only [steps?, h, Option.bind_some]

end ListMachine

end StackProcessor
