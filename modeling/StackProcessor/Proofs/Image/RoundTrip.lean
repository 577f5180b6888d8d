import StackProcessor.Image.Printer
import StackProcessor.Image.Reader
import StackProcessor.Proofs.Basic
import StackProcessor.Proofs.Json.Range
import StackProcessor.Proofs.Json.Spelling

/-!
# StackProcessor — images that survive their text

The text of an image spells a JSON array (`Json.Spells`), and reading it gives the image back
exactly if every record has an operand when its opcode takes one and only then
(`Instruction.hasProperArity`). Otherwise the first record that does not is named, by `arityFault?`.
The one hypothesis is `Image.Representable`: the numbers that the image is written with, its size
and those of its records, fit into 64 bits. Every image that is read at all has proper records, so
that reading what was written for it gives the same image.

A surplus operand is reported in words that no other report of it uses: `arityReport` is the wording
that `DecodeReason.message` has for both kinds, and only for a missing operand it is also the
loader's.

## Results
- `Image.ofText_render` : what becomes of the text of an image.
- `Image.wellFormed_of_ofText` : the records of an image that was read.
- `Image.reads_back_exactly` : both, with the wording of the faults.
-/

namespace StackProcessor

open Json (Spells IntegerInRange)

-- ---------------------------------------------------------------------------
-- Words and operands
-- ---------------------------------------------------------------------------

theorem Word.inRange_toInt (w : Word) : IntegerInRange w.toInt := by
  have hLow := Int32.le_toInt w
  have hHigh := Int32.toInt_lt w
  unfold IntegerInRange
  omega

/-- A word, as it is written. -/
def Word.json (w : Word) : Json := .number (.integer w.toInt)

theorem Word.spells_json (w : Word) : Spells 0 w.render.toList w.json :=
  Json.spells_integer w.inRange_toInt

theorem Word.ofJson_json (address : Nat) (w : Word) : Word.ofJson address w.json = .ok w := by
  simp only [Word.ofJson, Word.json, Json.integer?, Option.bind_some, Word.ofInt?_toInt]

/-- A natural number, as it is written. -/
def naturalJson (n : Nat) : Json := .number (.integer n)

theorem natural?_naturalJson (n : Nat) : (naturalJson n).natural? = some n := by
  simp [naturalJson, Json.natural?, Json.integer?]

theorem spells_naturalJson {n : Nat} (h : n < 2 ^ 64) :
    Spells 0 (toString n).toList (naturalJson n) := by
  have hRange : IntegerInRange n := by
    unfold IntegerInRange
    omega
  have hText : (toString (n : Int)).toList = (toString n).toList := by
    rw [Json.Number.toList_toString_ofNat, Json.Number.toList_toString_nat]
  have hSpells := Json.spells_integer hRange
  rwa [hText] at hSpells

/-- An operand, as it is written. -/
def argJson : Option Word → Json
  | some w => w.json
  | none => .null

theorem spells_argJson (arg : Option Word) : Spells 0 (renderArg arg).toList (argJson arg) := by
  cases arg with
  | none => exact Json.spells_null
  | some w => exact w.spells_json

theorem arg?_argJson (arg : Option Word) :
    RawRecord.arg? (argJson arg) = some (arg.map Int32.toInt) := by
  cases arg with
  | none => rfl
  | some w =>
    have hHigh := Int32.toInt_lt w
    have hSigned : w.toInt < 1 <<< 63 := by omega
    simp only [argJson, Word.json, RawRecord.arg?, if_pos hSigned, Option.map_some]

theorem word_map_toInt (position : Nat) (arg : Option Word) :
    RawRecord.word position (arg.map Int32.toInt) = .ok arg := by
  cases arg with
  | none => rfl
  | some w => simp only [Option.map_some, RawRecord.word, Word.ofInt?_toInt]

-- ---------------------------------------------------------------------------
-- Records
-- ---------------------------------------------------------------------------

namespace Instruction

/-- What is wrong with the operand of a record: it has one that its opcode does not take, or none
although its opcode takes one. -/
def arityFault? (inst : Instruction) : Option LoadFault :=
  match inst.opcode.takesOperand, inst.arg with
  | true, none => some (.missingArg inst.index inst.opcode)
  | false, some _ => some (.surplusArg inst.index inst.opcode)
  | _, _ => none

theorem arityFault?_eq_none_iff (inst : Instruction) :
    inst.arityFault? = none ↔ inst.hasProperArity = true := by
  cases hTakes : inst.opcode.takesOperand <;> cases hArg : inst.arg <;>
    simp [arityFault?, hasProperArity, hTakes, hArg]

/-- The record, as it is written and then read: the keys are sorted. -/
def json (inst : Instruction) : Json :=
  .object [("arg", argJson inst.arg), ("index", naturalJson inst.index),
    ("opcode", .string inst.opcode.mnemonic)]

theorem isPlain_mnemonic (op : Opcode) : ∀ c ∈ op.mnemonic.toList, Json.isPlain c = true := by
  apply List.all_eq_true.mp
  cases op <;> decide

/-- The keys of the record in the order in which they are written, with their values. -/
def members (inst : Instruction) : List (String × List Char × Json) :=
  [("index", (toString inst.index).toList, naturalJson inst.index),
    ("opcode", '"' :: inst.opcode.mnemonic.toList ++ ['"'], .string inst.opcode.mnemonic),
    ("arg", (renderArg inst.arg).toList, argJson inst.arg)]

theorem toList_render (inst : Instruction) :
    inst.render.toList =
      '\x7b' :: [',', ' '].intercalate (inst.members.map Json.memberText) ++ ['\x7d'] := by
  simp [render, members, Json.memberText]

theorem insertAll_members (inst : Instruction) :
    .object (Json.insertAll inst.members []) = inst.json := by
  have hOpcode : ¬ "opcode" < "index" := by decide
  have hArg : "arg" < "index" := by decide
  have hNe : "opcode" ≠ "index" := by decide
  simp only [members, Json.insertAll, List.foldl_cons, List.foldl_nil, Json.insertMember,
    if_neg hOpcode, if_neg hNe, if_pos hArg, json]

theorem spellsMember_of_mem {inst : Instruction} (h : inst.index < 2 ^ 64) :
    ∀ p ∈ inst.members, Json.SpellsMember 0 p := by
  have hIndex : ∀ c ∈ "index".toList, Json.isPlain c = true := List.all_eq_true.mp (by decide)
  have hOpcode : ∀ c ∈ "opcode".toList, Json.isPlain c = true := List.all_eq_true.mp (by decide)
  have hArg : ∀ c ∈ "arg".toList, Json.isPlain c = true := List.all_eq_true.mp (by decide)
  have hMnemonic := Json.spells_quoted (isPlain_mnemonic inst.opcode)
  rw [String.ofList_toList] at hMnemonic
  intro p hp
  simp only [members, List.mem_cons, List.not_mem_nil, or_false] at hp
  rcases hp with rfl | rfl | rfl
  · exact ⟨hIndex, spells_naturalJson h⟩
  · exact ⟨hOpcode, hMnemonic⟩
  · exact ⟨hArg, spells_argJson inst.arg⟩

theorem spells_json {inst : Instruction} (h : inst.index < 2 ^ 64) :
    Spells 1 inst.render.toList inst.json := by
  have hGaps : ∀ c ∈ [' '], Json.isGap c = true := List.all_eq_true.mp (by decide)
  have hObject := Json.spells_object hGaps (spellsMember_of_mem h)
  rw [toList_render, ← insertAll_members]
  exact hObject

/-- What the record of the instruction says. -/
def raw (inst : Instruction) : RawRecord :=
  ⟨inst.index, inst.opcode.mnemonic, inst.arg.map Int32.toInt⟩

/-- What is read for a record that says what an instruction says. -/
theorem instruction_raw (position : Nat) (inst : Instruction) :
    inst.raw.instruction position =
      match inst.arityFault? with
      | some fault => .error fault
      | none => .ok inst := by
  simp only [RawRecord.instruction, raw, Opcode.ofMnemonic?_mnemonic, word_map_toInt]
  obtain ⟨index, opcode, arg⟩ := inst
  simp only [arityFault?]
  cases opcode.takesOperand <;> cases arg <;> rfl

/-- What is read for the text of a record. -/
theorem ofJson_json (position : Nat) (inst : Instruction) :
    Instruction.ofJson position inst.json =
      match inst.arityFault? with
      | some fault => .error fault
      | none => .ok inst := by
  have hRaw : RawRecord.ofJson? inst.json = some inst.raw := by
    have hKeys : inst.json = .object [("arg", argJson inst.arg),
      ("index", naturalJson inst.index), ("opcode", .string inst.opcode.mnemonic)] := rfl
    simp [hKeys, RawRecord.ofJson?, RawRecord.keys, List.lookup_cons, natural?_naturalJson,
      Json.string?, arg?_argJson, raw]
  simp only [Instruction.ofJson, hRaw, instruction_raw]

end Instruction

-- ---------------------------------------------------------------------------
-- Lists
-- ---------------------------------------------------------------------------

namespace Image

theorem readAll_data (position : Nat) (data : List Word) :
    readAll Word.ofJson position (data.map Word.json) = .ok data := by
  induction data generalizing position with
  | nil => rfl
  | cons w rest ih =>
    rw [List.map_cons, readAll, Word.ofJson_json, ih]
    rfl

/-- The first record with a wrong operand is reported. -/
theorem readAll_code (position : Nat) (code : List Instruction) :
    readAll Instruction.ofJson position (code.map Instruction.json) =
      match code.findSome? Instruction.arityFault? with
      | some fault => .error fault
      | none => .ok code := by
  induction code generalizing position with
  | nil => rfl
  | cons inst rest ih =>
    rw [List.map_cons, readAll, Instruction.ofJson_json, List.findSome?_cons]
    cases inst.arityFault? with
    | some fault => rfl
    | none =>
      rw [ih]
      cases rest.findSome? Instruction.arityFault? <;> rfl

/-- The numbers that an image is written with fit into 64 bits. -/
structure Representable (image : Image) : Prop where
  length : image.data.length < 2 ^ 64
  index : ∀ inst ∈ image.code, inst.index < 2 ^ 64

/-- The elements behind the number of data words, as they are written and read. -/
def body (image : Image) : List (List Char × Json) :=
  image.data.map (fun w => (w.render.toList, w.json)) ++
    image.code.map fun inst => (inst.render.toList, inst.json)

/-- The number of data words, as it is written and read. -/
def head (image : Image) : List Char × Json :=
  ((toString image.data.length).toList, naturalJson image.data.length)

theorem toList_render (image : Image) :
    image.render.toList =
      '[' :: [',', '\n', ' '].intercalate ((image.head :: image.body).map Prod.fst) ++ [']'] := by
  simp [render, elements, String.toList_intercalate, head, body, Function.comp_def]

theorem spells_of_mem {image : Image} (h : image.Representable) :
    ∀ p ∈ image.head :: image.body, Spells 1 p.1 p.2 := by
  intro p hp
  rcases List.mem_cons.mp hp with rfl | hp
  · exact (spells_naturalJson h.length).mono (Nat.zero_le 1)
  · rcases List.mem_append.mp hp with hData | hCode
    · obtain ⟨w, _, rfl⟩ := List.mem_map.mp hData
      exact w.spells_json.mono (Nat.zero_le 1)
    · obtain ⟨inst, hMem, rfl⟩ := List.mem_map.mp hCode
      dsimp only
      exact Instruction.spells_json (h.index inst hMem)

theorem spells_json {image : Image} (h : image.Representable) :
    Spells 2 image.render.toList (.array ((image.head :: image.body).map Prod.snd)) := by
  have hGaps : ∀ c ∈ ['\n', ' '], Json.isGap c = true :=
    List.all_eq_true.mp (by decide)
  rw [toList_render]
  exact Json.spells_array hGaps (spells_of_mem h)

/-- The image in the elements that its text spells. -/
theorem ofElements_json (image : Image) :
    ofElements ((image.head :: image.body).map Prod.snd) =
      match image.code.findSome? Instruction.arityFault? with
      | some fault => .error fault
      | none => .ok image := by
  have hBody : image.body.map Prod.snd =
      image.data.map Word.json ++ image.code.map Instruction.json := by
    simp [body, Function.comp_def]
  have hLength : ¬ (image.data.map Word.json ++ image.code.map Instruction.json).length <
      image.data.length := by
    simp
  have hTake : (image.data.map Word.json ++ image.code.map Instruction.json).take
      image.data.length = image.data.map Word.json := List.take_left' (by simp)
  have hDrop : (image.data.map Word.json ++ image.code.map Instruction.json).drop
      image.data.length = image.code.map Instruction.json := List.drop_left' (by simp)
  simp only [List.map_cons, hBody, head, ofElements, natural?_naturalJson, if_neg hLength, hTake,
    hDrop, readAll_data, readAll_code]
  cases image.code.findSome? Instruction.arityFault? <;> rfl

/-- What becomes of the text of an image. -/
theorem ofText_render {image : Image} (h : image.Representable) :
    ofText image.render =
      match image.code.findSome? Instruction.arityFault? with
      | some fault => .error fault
      | none => .ok image := by
  have hText := Json.ofText?_of_spells (spells_json h) (by decide)
  rw [ofText, hText]
  exact ofElements_json image

end Image

-- ---------------------------------------------------------------------------
-- What is read
-- ---------------------------------------------------------------------------

theorem RawRecord.hasProperArity_of_instruction {position : Nat} {r : RawRecord}
    {inst : Instruction} (h : r.instruction position = .ok inst) :
    inst.hasProperArity = true ∧ inst.index = r.index := by
  unfold RawRecord.instruction at h
  split at h
  · cases h
  · rename_i opcode _
    obtain ⟨arg, _, hArity⟩ := exists_of_bind_eq_ok h
    cases hTakes : opcode.takesOperand <;> cases arg <;> simp only [hTakes] at hArity <;>
      cases hArity <;> simp [Instruction.hasProperArity, hTakes]

theorem Json.natural?_lt {j : Json} (h : j.InRange) {n : Nat} (hNatural : j.natural? = some n) :
    n < 2 ^ 64 := by
  unfold natural? integer? at hNatural
  split at hNatural
  · rename_i k hInteger
    split at hInteger
    · cases hInteger
      cases h with
      | number hRange =>
        have hBounds : IntegerInRange k := hRange
        unfold IntegerInRange at hBounds
        split at hNatural
        · cases hNatural
          omega
        · cases hNatural
    · cases hInteger
  · cases hNatural

theorem RawRecord.index_lt_of_ofJson? {j : Json} (h : j.InRange) {r : RawRecord}
    (hRaw : ofJson? j = some r) : r.index < 2 ^ 64 := by
  unfold ofJson? at hRaw
  split at hRaw
  -- a record is an object, or an array of two or of three elements
  · rename_i members
    cases h with
    | object hMembers =>
      simp only [Option.bind_eq_bind] at hRaw
      split at hRaw
      · obtain ⟨value, hLookup, hRaw⟩ := Option.bind_eq_some_iff.mp hRaw
        obtain ⟨index, hIndex, hRaw⟩ := Option.bind_eq_some_iff.mp hRaw
        obtain ⟨_, _, hRaw⟩ := Option.bind_eq_some_iff.mp hRaw
        obtain ⟨_, _, hRaw⟩ := Option.bind_eq_some_iff.mp hRaw
        obtain ⟨_, _, hRaw⟩ := Option.bind_eq_some_iff.mp hRaw
        cases hRaw
        obtain ⟨before, after, rfl, _⟩ := List.lookup_eq_some_iff.mp hLookup
        exact Json.natural?_lt (hMembers ("index", value) (by simp)) hIndex
      · cases hRaw
  · cases h with
    | array hItems =>
      simp only [Option.bind_eq_bind] at hRaw
      obtain ⟨index, hIndex, hRaw⟩ := Option.bind_eq_some_iff.mp hRaw
      obtain ⟨_, _, hRaw⟩ := Option.bind_eq_some_iff.mp hRaw
      cases hRaw
      exact Json.natural?_lt (hItems _ List.mem_cons_self) hIndex
  · cases h with
    | array hItems =>
      simp only [Option.bind_eq_bind] at hRaw
      obtain ⟨index, hIndex, hRaw⟩ := Option.bind_eq_some_iff.mp hRaw
      obtain ⟨_, _, hRaw⟩ := Option.bind_eq_some_iff.mp hRaw
      obtain ⟨_, _, hRaw⟩ := Option.bind_eq_some_iff.mp hRaw
      cases hRaw
      exact Json.natural?_lt (hItems _ List.mem_cons_self) hIndex
  · cases hRaw

/-- A record that was read has a proper operand and a number of 64 bits. -/
theorem Instruction.properties_of_ofJson {position : Nat} {j : Json} (h : j.InRange)
    {inst : Instruction} (hRead : ofJson position j = .ok inst) :
    inst.hasProperArity = true ∧ inst.index < 2 ^ 64 := by
  unfold ofJson at hRead
  split at hRead
  · cases hRead
  · rename_i r hRaw
    obtain ⟨hArity, hIndex⟩ := RawRecord.hasProperArity_of_instruction hRead
    rw [hIndex]
    exact ⟨hArity, RawRecord.index_lt_of_ofJson? h hRaw⟩

namespace Image

/-- Every element that was read came out of the reader. -/
theorem forall_mem_of_readAll {α : Type} {read : Nat → Json → Except LoadFault α} {P : α → Prop}
    {elements : List Json} (hRead : ∀ position, ∀ j ∈ elements, ∀ a, read position j = .ok a → P a)
    {position : Nat} {values : List α} (h : readAll read position elements = .ok values) :
    values.length = elements.length ∧ ∀ a ∈ values, P a := by
  induction elements generalizing position values with
  | nil =>
    cases h
    exact ⟨rfl, fun _ ha => absurd ha List.not_mem_nil⟩
  | cons j rest ih =>
    rw [readAll] at h
    obtain ⟨a, hFirst, h⟩ := exists_of_bind_eq_ok h
    obtain ⟨others, hRest, h⟩ := exists_of_bind_eq_ok h
    cases h
    have hOthers : ∀ position, ∀ k ∈ rest, ∀ b, read position k = .ok b → P b := by
      intro position k hk
      exact hRead position k (List.mem_cons_of_mem j hk)
    obtain ⟨hLength, hAll⟩ := ih hOthers hRest
    refine ⟨by simp [hLength], List.forall_mem_cons.mpr ⟨?_, hAll⟩⟩
    exact hRead position j List.mem_cons_self a hFirst

/-- An image that was read has proper records, and numbers of 64 bits. -/
theorem wellFormed_of_ofText {text : String} {image : Image} (h : ofText text = .ok image) :
    (∀ inst ∈ image.code, inst.hasProperArity = true) ∧ image.Representable := by
  unfold ofText at h
  split at h
  case h_2 => cases h
  case h_1 elements hText =>
  have hRange : ∀ j ∈ elements, j.InRange := by
    cases Json.inRange_of_ofText? hText with
    | array hItems => exact hItems
  match elements with
  | [] => cases h
  | first :: rest =>
    rw [ofElements] at h
    split at h
    · cases h
    · rename_i length hLength
      split at h
      · cases h
      · rename_i hLong
        obtain ⟨data, hData, h⟩ := exists_of_bind_eq_ok h
        obtain ⟨code, hCode, h⟩ := exists_of_bind_eq_ok h
        cases h
        -- of the data only the number of words is needed, of the code every record
        obtain ⟨hSize, _⟩ := forall_mem_of_readAll (P := fun _ => True)
          (fun _ _ _ _ _ => trivial) hData
        obtain ⟨_, hRecords⟩ := forall_mem_of_readAll
          (P := fun inst => inst.hasProperArity = true ∧ inst.index < 2 ^ 64)
          (fun _ j hj _ hRead => Instruction.properties_of_ofJson
            (hRange j (List.mem_cons_of_mem first (List.mem_of_mem_drop hj))) hRead) hCode
        have hFirst := Json.natural?_lt (hRange first List.mem_cons_self) hLength
        refine ⟨fun inst hMem => (hRecords inst hMem).1, ?_, fun inst hMem =>
          (hRecords inst hMem).2⟩
        rw [hSize, List.length_take]
        omega

end Image

-- ---------------------------------------------------------------------------
-- The round trip
-- ---------------------------------------------------------------------------

theorem undecodable_injective (index : Nat) : Function.Injective (undecodable index) := by
  intro reason other hEq
  unfold undecodable at hEq
  exact (String.append_right_inj _).mp hEq

namespace LoadFault

theorem message_missingArg (index : Nat) (op : Opcode) :
    (missingArg index op).message = DecodeFault.message ⟨index, .missingOperand op⟩ := by
  unfold DecodeFault.message DecodeReason.message
  rfl

/-- A surplus operand is worded in its own way here, not as it is when the record is executed. -/
theorem message_surplusArg_ne (index : Nat) (op : Opcode) :
    (surplusArg index op).message ≠ DecodeFault.message ⟨index, .unexpectedOperand op⟩ := by
  intro hEq
  have hMessage : (surplusArg index op).message =
      undecodable index s!"`{op.mnemonic}` takes no an operand" := rfl
  have hReason := undecodable_injective index (hMessage.symm.trans hEq)
  unfold DecodeReason.message at hReason
  -- the two begin with the opcode and part only in the words behind it
  exact absurd ((String.append_right_inj _).mp hReason) (by decide)

end LoadFault

namespace Instruction

/-- What a record whose operand is wrong is to be reported with. -/
def arityReport (inst : Instruction) : String :=
  DecodeFault.message ⟨inst.index,
    if inst.arg.isSome then .unexpectedOperand inst.opcode else .missingOperand inst.opcode⟩

theorem arityFault?_of_improper {inst : Instruction} (h : inst.hasProperArity = false) :
    inst.arityFault? = some (if inst.arg.isSome then .surplusArg inst.index inst.opcode
      else .missingArg inst.index inst.opcode) := by
  obtain ⟨index, opcode, arg⟩ := inst
  simp only [hasProperArity, arityFault?] at h ⊢
  cases hTakes : opcode.takesOperand <;> cases arg <;> simp [hTakes] at h ⊢

/-- The report is the right one exactly for a record that misses its operand. -/
theorem message_eq_arityReport_iff (inst : Instruction) :
    (if inst.arg.isSome then LoadFault.surplusArg inst.index inst.opcode
      else .missingArg inst.index inst.opcode).message = inst.arityReport ↔ inst.arg = none := by
  obtain ⟨index, opcode, arg⟩ := inst
  cases arg with
  | none => exact iff_of_true (LoadFault.message_missingArg index opcode) rfl
  | some w => exact iff_of_false (LoadFault.message_surplusArg_ne index opcode) (by simp)

end Instruction

namespace Image

theorem findSome?_arityFault?_eq_none {code : List Instruction}
    (h : ∀ inst ∈ code, inst.hasProperArity = true) :
    code.findSome? Instruction.arityFault? = none := by
  apply List.findSome?_eq_none_iff.mpr
  intro inst hMem
  exact inst.arityFault?_eq_none_iff.mpr (h inst hMem)

/-- The text of an image reads back exactly if every record has its proper operand; otherwise the
fault names the first record that has not, as one that misses an operand or as one that has one too
many, and only the former is worded as it is to be. An image that was read has proper operands, so
that its text gives it back. -/
theorem reads_back_exactly (image : Image) (text : String) :
    (image.Representable →
      ((∀ inst ∈ image.code, inst.hasProperArity = true) → ofText image.render = .ok image) ∧
      ∀ before inst after, image.code = before ++ inst :: after →
        (∀ i ∈ before, i.hasProperArity = true) → inst.hasProperArity = false →
        ∃ fault : LoadFault, ofText image.render = .error fault ∧
          fault = (if inst.arg.isSome then .surplusArg inst.index inst.opcode
            else .missingArg inst.index inst.opcode) ∧
          (fault.message = inst.arityReport ↔ inst.arg = none)) ∧
    (ofText text = .ok image →
      (∀ inst ∈ image.code, inst.hasProperArity = true) ∧ ofText image.render = .ok image) := by
  refine ⟨fun hImage => ⟨?_, ?_⟩, ?_⟩
  · intro hCode
    rw [ofText_render hImage, findSome?_arityFault?_eq_none hCode]
  · intro before inst after hSplit hBefore hInst
    refine ⟨_, ?_, rfl, inst.message_eq_arityReport_iff⟩
    rw [ofText_render hImage, hSplit, List.findSome?_append,
      findSome?_arityFault?_eq_none hBefore, List.findSome?_cons,
      Instruction.arityFault?_of_improper hInst]
    rfl
  · intro hText
    obtain ⟨hCode, hImage⟩ := wellFormed_of_ofText hText
    refine ⟨hCode, ?_⟩
    rw [ofText_render hImage, findSome?_arityFault?_eq_none hCode]

/-- The two records carry the same number, and the data word is negative. -/
theorem reads_back_exactly_jump :
    let image : Image := ⟨[-5], [⟨7, .jump, some 0⟩, ⟨7, .div, none⟩]⟩
    image.Representable ∧ (∀ inst ∈ image.code, inst.hasProperArity = true) ∧
      ofText image.render = .ok image := by
  intro image
  have hImage : image.Representable := ⟨by decide, by decide⟩
  have hCode : ∀ inst ∈ image.code, inst.hasProperArity = true := by decide
  exact ⟨hImage, hCode, ((reads_back_exactly image image.render).1 hImage).1 hCode⟩

/-- The wording of a surplus operand is not the one that the execution of the record has for it. -/
theorem surplus_operand_wording :
    ofText (render ⟨[], [⟨0, .add, some 1⟩]⟩) = .error (.surplusArg 0 .add) ∧
      (LoadFault.surplusArg 0 .add).message =
        "cannot decode instruction 0: `add` takes no an operand" ∧
      DecodeFault.message ⟨0, .unexpectedOperand .add⟩ =
        "cannot decode instruction 0: `add` takes no operand" ∧
      (LoadFault.surplusArg 0 .add).message ≠ DecodeFault.message ⟨0, .unexpectedOperand .add⟩ := by
  have hImage : Representable ⟨[], [⟨0, .add, some 1⟩]⟩ := ⟨by decide, by decide⟩
  refine ⟨?_, by decide, by decide, by decide⟩
  rw [ofText_render hImage]
  rfl

end Image

end StackProcessor
