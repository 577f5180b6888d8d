import Mathlib
import StackProcessor.Proofs.Assembly.Size
import StackProcessor.Proofs.Tools.Folder
import StackProcessor.Proofs.Tools.Requests

/-!
# StackProcessor — two ways to run a source text

A source text can be assembled to an image that is run later, or it can be run at once. Both ways
show the same: the image that is read from the file is the one that was assembled, and what a run
shows (`Outcome.Tells`) depends on nothing but the image, the text of the input file and the bounds.
A source text that cannot be assembled leaves all files as they are, and cannot be run at once
either.

What a path stands for in a `Folder` is said without the tools: its text (`Folder.text?`), the
object of this text (`Folder.object?`), the image that it spells (`Folder.image?`), and the report
of a run (`Folder.report?`). The tools are then compared with these.

## Results
- `Assembler.run_of_object?`, `Assembler.run_of_object?_eq_none` : what the assembler does.
- `Simulator.tells_run_image`, `Simulator.tells_run_source` : what the simulator shows.
- `toolchain_paths_agree` : the two ways show the same.
-/

namespace StackProcessor.Tools

-- ---------------------------------------------------------------------------
-- What is in a folder
-- ---------------------------------------------------------------------------

namespace Folder

/-- The text of a file, if it can be read and is UTF-8. -/
def text? (f : Folder) (path : String) : Option String :=
  (f.read? path).bind String.fromUTF8?

/-- What the source text in a file assembles to. -/
def object? (f : Folder) (path : String) : Option Assembly.Object :=
  (f.text? path).bind fun text => (Assembly.assemble text false).result.toOption

/-- The image in a file. -/
def image? (f : Folder) (path : String) : Option Image :=
  (f.text? path).bind fun text => (Image.ofText text).toOption

/-- The characters at the input port, if the input file can be read. -/
def input? (f : Folder) : Option String → Option (List Char)
  | none => some (Display.inputQueue none)
  | some path => (f.text? path).map fun text => Display.inputQueue (some text)

/-- The report of a run, if the input file can be read and there is no fault. -/
def report? (f : Folder) (image : Image) (input : Option String) (options : Options) :
    Option Report :=
  (f.input? input).bind fun chars => (simulate image chars options).result.toOption

variable {f f' : Folder}

/-- An object is that of the text in the file. -/
theorem exists_assemble_of_object? {path : String} {object : Assembly.Object}
    (h : f.object? path = some object) :
    ∃ text, f.text? path = some text ∧ (Assembly.assemble text false).result = .ok object := by
  obtain ⟨text, hText, hObject⟩ := Option.bind_eq_some_iff.mp h
  refine ⟨text, hText, ?_⟩
  cases hResult : (Assembly.assemble text false).result with
  | error e =>
    rw [hResult] at hObject
    cases hObject
  | ok other =>
    rw [hResult] at hObject
    cases hObject
    rfl

theorem text?_write?_self {path text : String} (h : f.write? path text.toUTF8 = some f') :
    f'.text? path = some text := by
  rw [text?, read?_write?_self h]
  exact fromUTF8?_toUTF8 text

theorem text?_write?_of_ne {path other : String} {contents : ByteArray}
    (h : f.write? path contents = some f') (hOther : f.locate other ≠ f.locate path) :
    f'.text? other = f.text? other := by
  rw [text?, text?, read?_write?_of_ne h hOther]

end Folder

-- ---------------------------------------------------------------------------
-- The assembler
-- ---------------------------------------------------------------------------

theorem readText_apply (f : Folder) (path : String) :
    (readText path : StateM Folder (Option String)) f = (f.text? path, f) := rfl

theorem writeText_apply (f : Folder) (path text : String) :
    (writeText path text : StateM Folder Bool) f =
      match f.write? path text.toUTF8 with
      | some f' => (true, f')
      | none => (false, f) := by
  show (match f.write? path text.toUTF8 with
    | some f' => (do set f'; return true : StateM Folder Bool)
    | none => return false) f = _
  cases f.write? path text.toUTF8 <;> rfl

namespace Assembler

variable {source target : String} (hSource : CommandSpec.looksLikeOption source = false)
  (hTarget : CommandSpec.looksLikeOption target = false) {f : Folder}

include hSource hTarget

/-- Without an object there is an error, and the folder stays as it is. -/
theorem run_of_object?_eq_none (h : f.object? source = none) :
    ∃ o, (run [source, "-o", target] : StateM Folder Outcome) f = (o, f) ∧ o.exitCode = 1 := by
  rw [run, request_eq hSource hTarget]
  simp only [perform, bind, StateT.bind, readText_apply]
  cases hText : f.text? source with
  | none => exact ⟨_, rfl, rfl⟩
  | some text =>
    cases hResult : (Assembly.assemble text false).result with
    | error e =>
      simp only [Assembly.result_verbose, hResult]
      exact ⟨_, rfl, rfl⟩
    | ok object => simp [Folder.object?, hText, hResult, Except.toOption] at h

/-- The image of an object goes to the file that was named, if that can be written. -/
theorem run_of_object? {object : Assembly.Object} (h : f.object? source = some object) :
    ∃ o f', (run [source, "-o", target] : StateM Folder Outcome) f = (o, f') ∧
      match f.write? target object.image.render.toUTF8 with
      | some written => f' = written ∧ o.exitCode = 0 ∧ o.output = summary object
      | none => f' = f ∧ o.exitCode = 1 := by
  obtain ⟨text, hText, hResult⟩ := Folder.exists_assemble_of_object? h
  rw [run, request_eq hSource hTarget]
  simp only [perform, bind, StateT.bind, readText_apply, hText, Assembly.result_verbose, hResult,
    writeText_apply]
  cases f.write? target object.image.render.toUTF8 with
  | none => exact ⟨_, _, rfl, rfl, rfl⟩
  | some written => exact ⟨_, _, rfl, rfl, rfl, rfl⟩

/-- The assembler is done only if it has written the image of an object. -/
theorem write?_of_run {o : Outcome} {f' : Folder}
    (hRun : (run [source, "-o", target] : StateM Folder Outcome) f = (o, f'))
    (hDone : o.exitCode = 0) :
    ∃ object, f.object? source = some object ∧
      f.write? target object.image.render.toUTF8 = some f' := by
  cases hObject : f.object? source with
  | none =>
    obtain ⟨_, hRefused, hExit⟩ := run_of_object?_eq_none hSource hTarget hObject
    cases hRun.symm.trans hRefused
    rw [hExit] at hDone
    cases hDone
  | some object =>
    obtain ⟨_, _, hOutcome, hWritten⟩ := run_of_object? hSource hTarget hObject
    cases hRun.symm.trans hOutcome
    refine ⟨object, rfl, ?_⟩
    cases hWrite : f.write? target object.image.render.toUTF8 with
    | none =>
      rw [hWrite] at hWritten
      rw [hWritten.2] at hDone
      cases hDone
    | some written =>
      rw [hWrite] at hWritten
      rw [hWritten.1]

end Assembler

-- ---------------------------------------------------------------------------
-- The simulator
-- ---------------------------------------------------------------------------

/-- The outcome tells of a report, or that there is none. -/
def Outcome.Tells (o : Outcome) : Option Report → Prop
  | some report => o.exitCode = 0 ∧ o.output = Simulator.summary report
  | none => o.exitCode = 1 ∧ o.output = ""

namespace Simulator

variable {f : Folder}

/-- A run that is over tells of its report, if there is one. -/
theorem tells_conclude (r : Request) (image : Image) (input : Option String)
    (entries : List Log.Entry) :
    (conclude r (simulateOn r image input entries)).Tells
      (simulate image (Display.inputQueue input) r.options).result.toOption := by
  cases hResult : (simulate image (Display.inputQueue input) r.options).result <;>
    simp only [conclude, simulateOn, hResult] <;> exact ⟨rfl, rfl⟩

/-- A program is run on the text of the input file. -/
theorem readInput_apply (f : Folder) (r : Request) :
    (∃ input, (readInput r : StateM Folder (Except String (Option String))) f = (.ok input, f) ∧
        f.input? r.input = some (Display.inputQueue input)) ∨
      ∃ cause, (readInput r : StateM Folder (Except String (Option String))) f = (.error cause, f) ∧
        f.input? r.input = none := by
  cases hInput : r.input with
  | none =>
    left
    refine ⟨none, ?_, rfl⟩
    rw [readInput, hInput]
    rfl
  | some path =>
    rw [readInput, hInput]
    simp only [bind, StateT.bind, readText_apply, Folder.input?]
    cases hText : f.text? path with
    | none => exact Or.inr ⟨_, rfl, rfl⟩
    | some text => exact Or.inl ⟨some text, rfl, rfl⟩

/-- A run without a log file leaves the folder as it is. -/
theorem tells_perform {f : Folder} {r : Request} (h : r.logFile = none) :
    ∃ o, (perform r : StateM Folder Outcome) f = (o, f) ∧
      o.Tells ((f.text? r.code).bind fun text => (program r text).1.toOption.bind fun image =>
        f.report? image r.input r.options) := by
  rw [perform, h]
  simp only [loadAndRun, bind, StateT.bind, readText_apply]
  cases hText : f.text? r.code with
  | none => exact ⟨_, rfl, rfl, rfl⟩
  | some text =>
    rcases hProgram : program r text with ⟨loaded, entries⟩
    cases loaded with
    | error cause =>
      simp only [hProgram]
      refine ⟨_, rfl, ?_⟩
      simp only [Option.bind_some, hProgram]
      exact ⟨rfl, rfl⟩
    | ok image =>
      rcases readInput_apply f r with ⟨input, hRead, hInput⟩ | ⟨cause, hRead, hInput⟩
      · simp only [hProgram, StateT.bind, hRead]
        refine ⟨_, rfl, ?_⟩
        simp only [Option.bind_some, hProgram, Except.toOption, Folder.report?, hInput]
        exact tells_conclude r image input entries
      · simp only [hProgram, StateT.bind, hRead]
        refine ⟨_, rfl, ?_⟩
        simp only [Option.bind_some, hProgram, Except.toOption, Folder.report?, hInput]
        exact ⟨rfl, rfl⟩

theorem toOption_program_image {r : Request} (h : r.isSource = false) (text : String) :
    (program r text).1.toOption = (Image.ofText text).toOption := by
  rw [program, h]
  cases Image.ofText text <;> rfl

theorem toOption_program_source {r : Request} (h : r.isSource = true) (text : String) :
    (program r text).1.toOption =
      (Assembly.assemble text false).result.toOption.map Assembly.Object.image := by
  rw [program, h, if_pos rfl, ← Assembly.result_verbose text (tracesAssembly r.level)]
  cases hResult : (Assembly.assemble text (tracesAssembly r.level)).result <;>
    simp only [hResult] <;> rfl

section

variable (f : Folder) {code : String} {input : Option String} (settings : List (Setting × String))
  (hCode : CommandSpec.looksLikeOption code = false)
  (hInput : ∀ path, input = some path → CommandSpec.looksLikeOption path = false)

include hCode hInput

/-- What the simulator shows of the image in a file. -/
theorem tells_run_image :
    ∃ o, (run (arguments code input settings) : StateM Folder Outcome) f = (o, f) ∧
      (Accepted settings → o.Tells ((f.image? code).bind fun image =>
        f.report? image input (boundsOf settings))) ∧
      (¬Accepted settings → o.exitCode = 2 ∧ o.output = "") := by
  by_cases hSettings : Accepted settings
  · obtain ⟨o, hRun, hTells⟩ := @tells_perform f
      ⟨code, input, false, none, boundsOf settings, some .error⟩ rfl
    refine ⟨o, ?_, fun _ => ?_, absurd hSettings⟩
    · rw [run, request_image hCode hInput hSettings]
      exact hRun
    · simpa only [Folder.image?, Option.bind_assoc, toOption_program_image] using hTells
  · obtain ⟨⟨message, hRefused⟩, _⟩ := request_not_accepted hCode hInput hSettings
    refine ⟨Outcome.refusal usage version (.usage message), ?_, fun h => absurd h hSettings,
      fun _ => ⟨rfl, rfl⟩⟩
    rw [run, hRefused]
    rfl

/-- What the simulator shows of the source text in a file. -/
theorem tells_run_source :
    ∃ o, (run ("--asm" :: arguments code input settings) : StateM Folder Outcome) f = (o, f) ∧
      (Accepted settings → o.Tells ((f.object? code).bind fun object =>
        f.report? object.image input (boundsOf settings))) ∧
      (¬Accepted settings → o.exitCode = 2 ∧ o.output = "") := by
  by_cases hSettings : Accepted settings
  · obtain ⟨o, hRun, hTells⟩ := @tells_perform f
      ⟨code, input, true, none, boundsOf settings, some .error⟩ rfl
    refine ⟨o, ?_, fun _ => ?_, absurd hSettings⟩
    · rw [run, request_source hCode hInput hSettings]
      exact hRun
    · simpa only [Folder.object?, Option.bind_assoc, toOption_program_source, Option.bind_map,
        Function.comp_def] using hTells
  · obtain ⟨_, ⟨message, hRefused⟩⟩ := request_not_accepted hCode hInput hSettings
    refine ⟨Outcome.refusal usage version (.usage message), ?_, fun h => absurd h hSettings,
      fun _ => ⟨rfl, rfl⟩⟩
    rw [run, hRefused]
    rfl

end

end Simulator

-- ---------------------------------------------------------------------------
-- Both ways
-- ---------------------------------------------------------------------------

theorem Outcome.Tells.unique {o o' : Outcome} {report? : Option Report} (h : o.Tells report?)
    (h' : o'.Tells report?) : o.exitCode = o'.exitCode ∧ o.output = o'.output := by
  cases report? <;> exact ⟨h.1.trans h'.1.symm, h.2.trans h'.2.symm⟩

namespace Folder

variable {f f' : Folder} {path : String} {contents : ByteArray}

/-- An object reads back from the file to which its image is written. -/
theorem image?_write?_self {source : String} {object : Assembly.Object}
    (hObject : f.object? source = some object)
    (hSize : ∀ contents, f.read? source = some contents → contents.size < 2 ^ 63)
    (h : f.write? path object.image.render.toUTF8 = some f') :
    f'.image? path = some object.image := by
  obtain ⟨text, hText, hResult⟩ := exists_assemble_of_object? hObject
  obtain ⟨bytes, hBytes, hDecoded⟩ := Option.bind_eq_some_iff.mp hText
  have hShort : text.toList.length < 2 ^ 63 :=
    Nat.lt_of_le_of_lt (length_le_of_fromUTF8? hDecoded) (hSize bytes hBytes)
  rw [image?, text?_write?_self h, Option.bind_some,
    Assembly.ofText_render_of_assemble hResult hShort]
  rfl

/-- A run that does not read the file is the same as before. -/
theorem report?_write?_of_ne (h : f.write? path contents = some f') {input : Option String}
    (hInput : ∀ other, input = some other → f.locate other ≠ f.locate path) (image : Image)
    (options : Options) : f'.report? image input options = f.report? image input options := by
  cases input with
  | none => rfl
  | some other => rw [report?, report?, input?, input?, text?_write?_of_ne h (hInput other rfl)]

end Folder

/-- If the assembler is done, the simulator shows of the image that was written what it shows of the
source text. If there is no object of the source text, the assembler leaves all files as they are,
and the simulator has nothing to show. A file has fewer than `2 ^ 63` bytes.

The files are those of a `Folder`: regular files under one directory, with relative paths, changed
by the tools alone. Of absolute paths and of devices, pipes and links nothing is said. -/
theorem toolchain_paths_agree (f : Folder) {source target : String} {input : Option String}
    (settings : List (Simulator.Setting × String))
    (hSource : CommandSpec.looksLikeOption source = false)
    (hTarget : CommandSpec.looksLikeOption target = false)
    (hInput : ∀ path, input = some path → CommandSpec.looksLikeOption path = false)
    (hSize : ∀ contents, f.read? source = some contents → contents.size < 2 ^ 63) :
    ∃ o f', (Assembler.run [source, "-o", target] : StateM Folder Outcome) f = (o, f') ∧
      ∃ fromImage fromSource,
        (Simulator.run (Simulator.arguments target input settings) : StateM Folder Outcome) f' =
          (fromImage, f') ∧
        (Simulator.run ("--asm" :: Simulator.arguments source input settings) :
          StateM Folder Outcome) f' = (fromSource, f') ∧
        (o.exitCode = 0 → f.locate source ≠ f.locate target →
          (∀ path, input = some path → f.locate path ≠ f.locate target) →
            fromImage.exitCode = fromSource.exitCode ∧ fromImage.output = fromSource.output ∧
            ∃ object, f.object? source = some object ∧
              f'.text? target = some object.image.render ∧
              f'.image? target = some object.image ∧
              (Simulator.Accepted settings →
                fromImage.Tells (f.report? object.image input (Simulator.boundsOf settings)))) ∧
        (f.object? source = none → o.exitCode = 1 ∧ f' = f ∧
          (Simulator.Accepted settings → fromSource.exitCode = 1 ∧ fromSource.output = "")) := by
  obtain ⟨o, f', hRun⟩ : ∃ o f',
      (Assembler.run [source, "-o", target] : StateM Folder Outcome) f = (o, f') := ⟨_, _, rfl⟩
  obtain ⟨fromImage, hImageRun, hFromImage, hImageRefused⟩ :=
    Simulator.tells_run_image f' settings hTarget hInput
  obtain ⟨fromSource, hSourceRun, hFromSource, hSourceRefused⟩ :=
    Simulator.tells_run_source f' settings hSource hInput
  refine ⟨o, f', hRun, fromImage, fromSource, hImageRun, hSourceRun,
    fun hDone hOther hInputOther => ?_, fun hNone => ?_⟩
  · obtain ⟨object, hObject, hWrite⟩ := Assembler.write?_of_run hSource hTarget hRun hDone
    have hReadBack := Folder.image?_write?_self hObject hSize hWrite
    have hSame : f'.object? source = some object := by
      rw [Folder.object?, Folder.text?_write?_of_ne hWrite hOther]
      exact hObject
    rw [hReadBack] at hFromImage
    rw [hSame] at hFromSource
    simp only [Option.bind_some, Folder.report?_write?_of_ne hWrite hInputOther] at hFromImage
    simp only [Option.bind_some, Folder.report?_write?_of_ne hWrite hInputOther] at hFromSource
    have hAgree : fromImage.exitCode = fromSource.exitCode ∧
        fromImage.output = fromSource.output := by
      by_cases hSettings : Simulator.Accepted settings
      · exact (hFromImage hSettings).unique (hFromSource hSettings)
      · obtain ⟨hExit, hOutput⟩ := hImageRefused hSettings
        obtain ⟨hExit', hOutput'⟩ := hSourceRefused hSettings
        exact ⟨hExit.trans hExit'.symm, hOutput.trans hOutput'.symm⟩
    exact ⟨hAgree.1, hAgree.2, object, hObject, Folder.text?_write?_self hWrite, hReadBack,
      hFromImage⟩
  · obtain ⟨_, hRefused, hExit⟩ := Assembler.run_of_object?_eq_none hSource hTarget hNone
    cases hRun.symm.trans hRefused
    rw [hNone] at hFromSource
    exact ⟨hExit, rfl, hFromSource⟩

/-- A folder with a program that sends the first character of its input, and an input file. -/
def echoing : Folder :=
  .ofFiles [("p", "section .code:\ninp\nout\nhlt\n".toUTF8), ("i", "ab".toUTF8)]

/-- The image of the program, and then the program itself, sends the first character. -/
theorem toolchain_paths_agree_echo :
    CommandSpec.looksLikeOption "p" = false ∧ CommandSpec.looksLikeOption "q" = false ∧
      CommandSpec.looksLikeOption "i" = false ∧
      (∀ contents, echoing.read? "p" = some contents → contents.size < 2 ^ 63) ∧
      ∃ o f', (Assembler.run ["p", "-o", "q"] : StateM Folder Outcome) echoing = (o, f') ∧
        o.exitCode = 0 ∧
        ∃ fromImage fromSource,
          (Simulator.run ["q", "i", "--limit", "50"] : StateM Folder Outcome) f' =
            (fromImage, f') ∧
          (Simulator.run ["--asm", "p", "i", "--limit", "50"] : StateM Folder Outcome) f' =
            (fromSource, f') ∧
          fromImage.exitCode = 0 ∧ fromImage.output = "a\nInstructions: 5 Ticks: 14\n" ∧
          fromSource.exitCode = 0 ∧ fromSource.output = "a\nInstructions: 5 Ticks: 14\n" := by
  have hSource : CommandSpec.looksLikeOption "p" = false := by decide
  have hTarget : CommandSpec.looksLikeOption "q" = false := by decide
  have hInput : CommandSpec.looksLikeOption "i" = false := by decide
  have hRead : echoing.read? "p" = some "section .code:\ninp\nout\nhlt\n".toUTF8 := by cbv
  have hSize : ∀ contents, echoing.read? "p" = some contents → contents.size < 2 ^ 63 := by
    intro contents hContents
    cases hRead.symm.trans hContents
    decide
  have hPlaces : echoing.locate "p" = some ["p"] ∧ echoing.locate "q" = some ["q"] ∧
      echoing.locate "i" = some ["i"] := ⟨by cbv, by cbv, by cbv⟩
  have hFree : echoing.isDirectory ["q"] = false := by cbv
  have hSettings : Simulator.Accepted [(.limit, "50")] := ⟨by decide, by decide⟩
  have hImage : (echoing.object? "p").map Assembly.Object.image = some ⟨[0, 0],
      [⟨0, .push, some 0⟩, ⟨1, .load, none⟩, ⟨2, .push2, some 1⟩, ⟨3, .pop, none⟩,
        ⟨4, .halt, none⟩]⟩ := by cbv
  have hReport : echoing.report? ⟨[0, 0], [⟨0, .push, some 0⟩, ⟨1, .load, none⟩,
      ⟨2, .push2, some 1⟩, ⟨3, .pop, none⟩, ⟨4, .halt, none⟩]⟩ (some "i")
      (Simulator.boundsOf [(.limit, "50")]) = some ⟨[97], 5, 14, .halted⟩ := by cbv
  have hSummary : Simulator.summary ⟨[97], 5, 14, .halted⟩ =
      "a\nInstructions: 5 Ticks: 14\n" := by cbv
  obtain ⟨object, hObject, hObjectImage⟩ := Option.map_eq_some_iff.mp hImage
  obtain ⟨o, f', hRun, fromImage, fromSource, hFromImage, hFromSource, hAgree, -⟩ :=
    toolchain_paths_agree echoing [(.limit, "50")] hSource hTarget
      (fun path hPath => (Option.some.inj hPath) ▸ hInput) hSize
  have hDone : o.exitCode = 0 := by
    obtain ⟨o', f'', hRun', hWritten⟩ := Assembler.run_of_object? hSource hTarget hObject
    obtain ⟨rfl, rfl⟩ := Prod.mk.inj (hRun.symm.trans hRun')
    simp only [Folder.write?, hPlaces.2.1, hFree] at hWritten
    exact hWritten.2.1
  obtain ⟨hExit, hOutput, object', hObject', -, -, hTells⟩ := hAgree hDone
    (by rw [hPlaces.1, hPlaces.2.1]; decide)
    (fun path hPath => by cases hPath; rw [hPlaces.2.2, hPlaces.2.1]; decide)
  cases hObject.symm.trans hObject'
  have hShown := hTells hSettings
  rw [hObjectImage, hReport] at hShown
  have hText := hShown.2.trans hSummary
  exact ⟨hSource, hTarget, hInput, hSize, o, f', hRun, hDone, fromImage, fromSource, hFromImage,
    hFromSource, hShown.1, hText, hExit.symm.trans hShown.1, hOutput.symm.trans hText⟩

end StackProcessor.Tools
