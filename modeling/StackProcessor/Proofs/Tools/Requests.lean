import Mathlib.Data.List.Basic
import StackProcessor.Tools.Assembler
import StackProcessor.Tools.Simulator

/-!
# StackProcessor — what arguments ask for

The simulator is called with a code file, perhaps an input file, and options that set the bounds of
the run (`Simulator.arguments`). A `Setting` is one of these options, and a list of them, each with
the text of its value, is `Accepted` if no option occurs twice and every value is a number
(`isCount`); then the run has the bounds `boundsOf`. Whether the code file holds an image or a
source text is told by one more option, and makes no other difference to what the arguments ask for.

## Results
- `Assembler.request_eq` : a source file and the file to which the image goes, if neither of the
  paths looks like an option.
- `Simulator.read_settings`, `Simulator.exists_usage_of_not_accepted` : how options that set bounds
  are read, and when they are refused.
- `Simulator.request_image`, `Simulator.request_source` : a run of an image and of a source text.
-/

namespace StackProcessor.Tools

-- ---------------------------------------------------------------------------
-- Arguments, one by one
-- ---------------------------------------------------------------------------

namespace CommandSpec

variable {spec : CommandSpec} {a : Arguments} {arg : String}

theorem readFrom_operand (h : looksLikeOption arg = false) (rest : List String) :
    spec.readFrom a none (arg :: rest) =
      (a.addOperand spec arg).bind fun a => spec.readFrom a none rest := by
  rw [readFrom.eq_def]
  simp only [h]
  rfl

theorem readFrom_value (h : looksLikeOption arg = false) (o : OptionSpec) (rest : List String) :
    spec.readFrom a (some o) (arg :: rest) =
      (a.addOption o arg).bind fun a => spec.readFrom a none rest := by
  rw [readFrom.eq_def]
  simp only [h]
  rfl

/-- What looks like an option is not the value of the option before it. -/
theorem readFrom_option (h : looksLikeOption arg = true) (o : OptionSpec) (rest : List String) :
    spec.readFrom a (some o) (arg :: rest) =
      .error (.usage s!"a value is required for '--{o.name}'") := by
  rw [readFrom.eq_def]
  simp only [h]

theorem readFrom_long {c : Char} {cs : List Char} (h : arg.toList = '-' :: '-' :: c :: cs)
    (rest : List String) :
    spec.readFrom a none (arg :: rest) =
      (spec.readLong a (c :: cs)).bind fun p => spec.readFrom p.1 p.2 rest := by
  have hOption : looksLikeOption arg = true := by
    simp only [looksLikeOption, h]
  rw [readFrom.eq_def]
  simp only [hOption, h]
  rfl

theorem readFrom_short {c : Char} {cs : List Char} (h : arg.toList = '-' :: c :: cs)
    (hDash : c ≠ '-') (rest : List String) :
    spec.readFrom a none (arg :: rest) =
      (spec.readShort a (c :: cs)).bind fun p => spec.readFrom p.1 p.2 rest := by
  have hOption : looksLikeOption arg = true := by
    simp only [looksLikeOption, h]
  rw [readFrom.eq_def]
  simp only [hOption, h]
  split
  · rename_i hSame
    cases hSame
    exact absurd rfl hDash
  · rename_i hSame
    cases hSame
    exact absurd rfl hDash
  · rfl

end CommandSpec

/-- The assembler is asked to write the image of a source file to another file. -/
theorem Assembler.request_eq {source target : String}
    (hSource : CommandSpec.looksLikeOption source = false)
    (hTarget : CommandSpec.looksLikeOption target = false) :
    request [source, "-o", target] = .ok ⟨source, target, some .error⟩ := by
  have hRead : spec.read [source, "-o", target] = .ok ⟨[source], [("output", target)]⟩ := by
    show spec.readFrom .empty none [source, "-o", target] = _
    have hShort : "-o".toList = ['-', 'o'] := rfl
    rw [CommandSpec.readFrom_operand hSource]
    show spec.readFrom ⟨[source], []⟩ none ["-o", target] = _
    rw [CommandSpec.readFrom_short hShort (by decide)]
    show spec.readFrom ⟨[source], []⟩ (some ⟨"output", some 'o', .value fun _ => true⟩) [target] = _
    rw [CommandSpec.readFrom_value hTarget]
    rfl
  rw [request, hRead]
  rfl

namespace Simulator

-- ---------------------------------------------------------------------------
-- Settings
-- ---------------------------------------------------------------------------

/-- An option that sets a bound of the run. -/
inductive Setting where
  | stackSize
  | debugLimit
  | limit
  deriving DecidableEq, Repr

namespace Setting

/-- The name of the option. -/
def name : Setting → String
  | stackSize => "stack-size"
  | debugLimit => "debug-limit"
  | limit => "limit"

/-- All names of these options. -/
def names : List String := ["stack-size", "debug-limit", "limit"]

theorem name_mem_names (s : Setting) : s.name ∈ names := by
  cases s <;> simp [name, names]

theorem name_inj {s t : Setting} (h : s.name = t.name) : s = t := by
  cases s <;> cases t <;> simp [name] at h ⊢

end Setting

/-- The arguments that give each of these options the value beside it. -/
def settingArguments (settings : List (Setting × String)) : List String :=
  settings.flatMap fun p => ["--" ++ p.1.name, p.2]

/-- The arguments that ask for a run of what is in a code file. -/
def arguments (code : String) (input : Option String) (settings : List (Setting × String)) :
    List String :=
  code :: (input.toList ++ settingArguments settings)

/-- No option is given twice, and all are given numbers. -/
structure Accepted (settings : List (Setting × String)) : Prop where
  nodup : (settings.map Prod.fst).Nodup
  counts : ∀ p ∈ settings, isCount p.2 = true

/-- The number that is given for a bound, or the usual one. -/
def settingOr (settings : List (Setting × String)) (s : Setting) (usual : Nat) : Nat :=
  ((settings.lookup s).bind count?).getD usual

/-- The bounds that are asked for. -/
def boundsOf (settings : List (Setting × String)) : Options :=
  let usual : Options := {}
  { stackSize := settingOr settings .stackSize usual.stackSize
    debugLimit := settingOr settings .debugLimit usual.debugLimit
    tickLimit := settingOr settings .limit usual.tickLimit }

/-- The options as they are read. -/
def readings (settings : List (Setting × String)) : List (String × String) :=
  settings.map fun p => (p.1.name, p.2)

/-- A number does not look like an option. -/
theorem looksLikeOption_of_isCount {value : String} (h : isCount value = true) :
    CommandSpec.looksLikeOption value = false := by
  unfold CommandSpec.looksLikeOption
  split
  · rename_i c rest hChars
    have hNone : count? value = none := by
      simp [count?, hChars]
    rw [isCount, hNone] at h
    cases h
  · rfl

/-- The option, as it is understood. -/
def Setting.spec (s : Setting) : OptionSpec := ⟨s.name, none, .value isCount⟩

theorem addOption_setting {a : Arguments} {s : Setting} {value : String}
    (hValue : isCount value = true) (hNew : a.count s.name = 0) :
    a.addOption s.spec value = .ok { a with options := a.options ++ [(s.name, value)] } := by
  simp [Arguments.addOption, Setting.spec, hNew, hValue]

theorem exists_usage_of_addOption_setting {a : Arguments} {s : Setting} {value : String}
    (h : ¬(isCount value = true ∧ a.count s.name = 0)) :
    ∃ message, a.addOption s.spec value = .error (.usage message) := by
  by_cases hNew : a.count s.name = 0
  · have hValue : isCount value = false := by simpa [hNew] using h
    exact ⟨_, by simp [Arguments.addOption, Setting.spec, hNew, hValue]; rfl⟩
  · exact ⟨_, by simp [Arguments.addOption, Setting.spec, hNew]; rfl⟩

/-- The argument after the name of a setting is looked at as its value. -/
theorem readFrom_name (a : Arguments) (s : Setting) (rest : List String) :
    spec.readFrom a none (("--" ++ s.name) :: rest) = spec.readFrom a (some s.spec) rest := by
  have hName : ∃ c cs, ("--" ++ s.name).toList = '-' :: '-' :: c :: cs ∧
      spec.readLong a (c :: cs) = .ok (a, some s.spec) := by
    cases s
    · exact ⟨'s', "tack-size".toList, rfl, rfl⟩
    · exact ⟨'d', "ebug-limit".toList, rfl, rfl⟩
    · exact ⟨'l', "imit".toList, rfl, rfl⟩
  obtain ⟨c, cs, hChars, hLong⟩ := hName
  rw [CommandSpec.readFrom_long hChars, hLong]
  rfl

theorem readFrom_setting {a : Arguments} {s : Setting} {value : String}
    (hValue : isCount value = true) (hNew : a.count s.name = 0) (rest : List String) :
    spec.readFrom a none (("--" ++ s.name) :: value :: rest) =
      spec.readFrom { a with options := a.options ++ [(s.name, value)] } none rest := by
  rw [readFrom_name, CommandSpec.readFrom_value (looksLikeOption_of_isCount hValue),
    addOption_setting hValue hNew]
  rfl

theorem exists_usage_of_setting {a : Arguments} {s : Setting} {value : String}
    (h : ¬(isCount value = true ∧ a.count s.name = 0)) (rest : List String) :
    ∃ message, spec.readFrom a none (("--" ++ s.name) :: value :: rest) =
      .error (.usage message) := by
  rw [readFrom_name]
  cases hLooks : CommandSpec.looksLikeOption value with
  | true => exact ⟨_, CommandSpec.readFrom_option hLooks _ _⟩
  | false =>
    obtain ⟨message, hRefused⟩ := exists_usage_of_addOption_setting h
    rw [CommandSpec.readFrom_value hLooks, hRefused]
    exact ⟨message, rfl⟩

/-- An option that was added counts, and the others count as before. -/
theorem count_append (a : Arguments) (s t : Setting) (value : String) :
    Arguments.count { a with options := a.options ++ [(s.name, value)] } t.name =
      a.count t.name + if s = t then 1 else 0 := by
  have hSame : (s.name == t.name) = decide (s = t) := by
    rw [Bool.eq_iff_iff, beq_iff_eq, decide_eq_true_iff]
    exact ⟨Setting.name_inj, congrArg Setting.name⟩
  simp only [Arguments.count, List.countP_append, List.countP_singleton, hSame, decide_eq_true_iff]

/-- Options that set bounds are read one after the other. -/
theorem read_settings {settings : List (Setting × String)} (h : Accepted settings) (a : Arguments)
    (hNew : ∀ p ∈ settings, a.count p.1.name = 0) :
    spec.readFrom a none (settingArguments settings) =
      .ok { a with options := a.options ++ readings settings } := by
  induction settings generalizing a with
  | nil => simp [settingArguments, readings, CommandSpec.readFrom]
  | cons p rest ih =>
    obtain ⟨s, value⟩ := p
    obtain ⟨hFirst, hNodup⟩ := List.nodup_cons.mp h.nodup
    obtain ⟨hValue, hValues⟩ := List.forall_mem_cons.mp h.counts
    obtain ⟨hHere, hLater⟩ := List.forall_mem_cons.mp hNew
    have hArguments : settingArguments ((s, value) :: rest) =
        ("--" ++ s.name) :: value :: settingArguments rest := rfl
    rw [hArguments, readFrom_setting hValue hHere, ih ⟨hNodup, hValues⟩]
    · simp [readings]
    · -- the options that follow are others
      intro q hMem
      have hOther : s ≠ q.1 := fun hSame => hFirst (List.mem_map.mpr ⟨q, hMem, hSame.symm⟩)
      rw [count_append, if_neg hOther, hLater q hMem]

/-- Options that set bounds are refused if one is given twice, or is not given a number. -/
theorem exists_usage_of_not_accepted {settings : List (Setting × String)} (a : Arguments)
    (h : ¬(Accepted settings ∧ ∀ p ∈ settings, a.count p.1.name = 0)) :
    ∃ message, spec.readFrom a none (settingArguments settings) = .error (.usage message) := by
  induction settings generalizing a with
  | nil => exact absurd ⟨⟨List.nodup_nil, nofun⟩, nofun⟩ h
  | cons p rest ih =>
    obtain ⟨s, value⟩ := p
    have hArguments : settingArguments ((s, value) :: rest) =
        ("--" ++ s.name) :: value :: settingArguments rest := rfl
    rw [hArguments]
    by_cases hHere : isCount value = true ∧ a.count s.name = 0
    · rw [readFrom_setting hHere.1 hHere.2]
      refine ih _ fun ⟨hRest, hNew⟩ => h ⟨⟨?_, ?_⟩, ?_⟩
      · -- an option that was read before is not new
        refine List.nodup_cons.mpr ⟨fun hMem => ?_, hRest.nodup⟩
        obtain ⟨q, hLater, hSame⟩ := List.mem_map.mp hMem
        have hCount := hNew q hLater
        rw [count_append, if_pos hSame.symm] at hCount
        cases hCount
      · exact List.forall_mem_cons.mpr ⟨hHere.1, hRest.counts⟩
      · refine List.forall_mem_cons.mpr ⟨hHere.2, fun q hMem => ?_⟩
        have hCount := hNew q hMem
        rw [count_append] at hCount
        exact Nat.eq_zero_of_add_eq_zero_right hCount
    · exact exists_usage_of_setting hHere _

-- ---------------------------------------------------------------------------
-- Requests
-- ---------------------------------------------------------------------------

/-- Nothing but bounds is among the options that set bounds. -/
theorem countP_readings {name : String} (hName : name ∉ Setting.names)
    (settings : List (Setting × String)) :
    (readings settings).countP (fun option => option.1 == name) = 0 := by
  rw [List.countP_eq_zero]
  intro option hMem hSame
  obtain ⟨p, _, rfl⟩ := List.mem_map.mp hMem
  exact hName (beq_iff_eq.mp hSame ▸ p.1.name_mem_names)

theorem lookup_readings_of_not_mem {name : String} (hName : name ∉ Setting.names)
    (settings : List (Setting × String)) : (readings settings).lookup name = none := by
  rw [List.lookup_eq_none_iff]
  intro option hMem
  obtain ⟨p, _, rfl⟩ := List.mem_map.mp hMem
  simp only [bne_iff_ne]
  rintro rfl
  exact hName p.1.name_mem_names

theorem lookup_readings (settings : List (Setting × String)) (s : Setting) :
    (readings settings).lookup s.name = settings.lookup s := by
  induction settings with
  | nil => rfl
  | cons p rest ih =>
    obtain ⟨t, value⟩ := p
    have hSame : (s.name == t.name) = (s == t) := by
      rw [Bool.eq_iff_iff, beq_iff_eq, beq_iff_eq]
      exact ⟨Setting.name_inj, congrArg Setting.name⟩
    show List.lookup s.name ((t.name, value) :: readings rest) = _
    rw [List.lookup_cons, List.lookup_cons, hSame, ih]

section

variable {options : List (String × String)} (hOptions : ∀ option ∈ options, option.1 = "asm")
  {name : String} (hName : name ≠ "asm")

include hOptions

theorem countP_asm : options.countP (fun option => option.1 == "asm") = options.length :=
  List.countP_eq_length.mpr fun option hMem => beq_iff_eq.mpr (hOptions option hMem)

include hName

theorem countP_of_ne : options.countP (fun option => option.1 == name) = 0 := by
  rw [List.countP_eq_zero]
  intro option hMem hSame
  exact hName ((beq_iff_eq.mp hSame).symm.trans (hOptions option hMem))

theorem lookup_of_ne : options.lookup name = none := by
  rw [List.lookup_eq_none_iff]
  intro option hMem
  rw [hOptions option hMem]
  exact bne_iff_ne.mpr hName

end

/-- What is asked for by arguments that were read as these files and options. -/
theorem request_of_read {args : List String} {code : String} {input : Option String}
    {options : List (String × String)} {settings : List (Setting × String)}
    (hRead : spec.read args = .ok ⟨code :: input.toList, options ++ readings settings⟩)
    (hOptions : ∀ option ∈ options, option.1 = "asm") :
    request args =
      .ok ⟨code, input, options.length ≠ 0, none, boundsOf settings, some .error⟩ := by
  let a : Arguments := ⟨code :: input.toList, options ++ readings settings⟩
  have hAsm : a.count "asm" = options.length := by
    show (options ++ readings settings).countP _ = _
    rw [List.countP_append, countP_asm hOptions, countP_readings (by decide), Nat.add_zero]
  have hCount : ∀ name, name ≠ "asm" → name ∉ Setting.names → a.count name = 0 := by
    intro name hName hNames
    show (options ++ readings settings).countP _ = _
    rw [List.countP_append, countP_of_ne hOptions hName, countP_readings hNames]
  have hValue : ∀ name, name ≠ "asm" → a.value? name = (readings settings).lookup name := by
    intro name hName
    show (options ++ readings settings).lookup name = _
    rw [List.lookup_append, lookup_of_ne hOptions hName]
    rfl
  have hBound : ∀ (s : Setting) (usual : Nat), s.name ≠ "asm" →
      countOr a s.name usual = settingOr settings s usual := by
    intro s usual hName
    rw [countOr, hValue s.name hName, lookup_readings]
    rfl
  have hLevel : a.level = .ok (some .error) := by
    rw [Arguments.level, hCount "verbose" (by decide) (by decide),
      hCount "quiet" (by decide) (by decide)]
    rfl
  have hLog : a.value? "log-file" = none := by
    rw [hValue "log-file" (by decide), lookup_readings_of_not_mem (by decide)]
  have hStack := hBound .stackSize ({} : Options).stackSize (by decide)
  have hDebug := hBound .debugLimit ({} : Options).debugLimit (by decide)
  have hLimit := hBound .limit ({} : Options).tickLimit (by decide)
  have hInput : input.toList.head? = input := by cases input <;> rfl
  rw [request, hRead]
  show (a.level.bind fun level => .ok
    (⟨code, input.toList.head?, a.count "asm" ≠ 0, a.value? "log-file",
      ⟨countOr a "stack-size" ({} : Options).stackSize,
        countOr a "debug-limit" ({} : Options).debugLimit,
        countOr a "limit" ({} : Options).tickLimit⟩, level⟩ : Request)) = _
  rw [hLevel, hInput, hAsm, hLog]
  show Except.ok (⟨code, input, _, none, ⟨_, _, _⟩, some .error⟩ : Request) = _
  rw [boundsOf, ← hStack, ← hDebug, ← hLimit]
  rfl

section

variable {code : String} {input : Option String} {settings : List (Setting × String)}
  (hCode : CommandSpec.looksLikeOption code = false)
  (hInput : ∀ path, input = some path → CommandSpec.looksLikeOption path = false)

include hCode hInput

/-- The files are the operands, and the options follow them. -/
theorem readFrom_arguments (options : List (String × String)) :
    spec.readFrom ⟨[], options⟩ none (arguments code input settings) =
      spec.readFrom ⟨code :: input.toList, options⟩ none (settingArguments settings) := by
  rw [arguments, CommandSpec.readFrom_operand hCode]
  cases input with
  | none => rfl
  | some path =>
    show spec.readFrom ⟨[code], options⟩ none (path :: settingArguments settings) = _
    rw [CommandSpec.readFrom_operand (hInput path rfl)]
    rfl

theorem read_image :
    spec.read (arguments code input settings) =
      spec.readFrom ⟨code :: input.toList, []⟩ none (settingArguments settings) :=
  readFrom_arguments hCode hInput []

theorem read_source :
    spec.read ("--asm" :: arguments code input settings) =
      spec.readFrom ⟨code :: input.toList, [("asm", "")]⟩ none (settingArguments settings) := by
  have hDashes : "--asm".toList = '-' :: '-' :: 'a' :: ['s', 'm'] := rfl
  have hLong : spec.readLong .empty ['a', 's', 'm'] = .ok (⟨[], [("asm", "")]⟩, none) := rfl
  show spec.readFrom .empty none ("--asm" :: arguments code input settings) = _
  rw [CommandSpec.readFrom_long hDashes, hLong]
  exact readFrom_arguments hCode hInput [("asm", "")]

/-- A run of the image in the code file. -/
theorem request_image (hSettings : Accepted settings) :
    request (arguments code input settings) =
      .ok ⟨code, input, false, none, boundsOf settings, some .error⟩ := by
  refine @request_of_read _ code input [] settings ?_ nofun
  rw [read_image hCode hInput]
  exact read_settings hSettings _ fun _ _ => rfl

/-- A run of the source text in the code file. -/
theorem request_source (hSettings : Accepted settings) :
    request ("--asm" :: arguments code input settings) =
      .ok ⟨code, input, true, none, boundsOf settings, some .error⟩ := by
  refine @request_of_read _ code input [("asm", "")] settings ?_ (by simp)
  rw [read_source hCode hInput]
  refine read_settings hSettings _ fun p _ => ?_
  cases p.1 <;> rfl

/-- Whatever is in the code file, other settings are refused. -/
theorem request_not_accepted (hSettings : ¬Accepted settings) :
    (∃ message, request (arguments code input settings) = .error (.usage message)) ∧
      ∃ message, request ("--asm" :: arguments code input settings) = .error (.usage message) := by
  have hRefused : ∀ a : Arguments,
      ∃ message, spec.readFrom a none (settingArguments settings) = .error (.usage message) :=
    fun a => exists_usage_of_not_accepted a fun h => hSettings h.1
  obtain ⟨message, hImage⟩ := hRefused ⟨code :: input.toList, []⟩
  obtain ⟨other, hSource⟩ := hRefused ⟨code :: input.toList, [("asm", "")]⟩
  rw [← read_image hCode hInput] at hImage
  rw [← read_source hCode hInput] at hSource
  refine ⟨⟨message, ?_⟩, ⟨other, ?_⟩⟩
  · rw [request, hImage]
    rfl
  · rw [request, hSource]
    rfl

end

end Simulator

end StackProcessor.Tools
