import ManagementScript.Proofs.Document.Writing
import ManagementScript.Proofs.Run.Arguments
import ManagementScript.Proofs.Run.Loading

/-!
Where the script of a run goes: all of it to the one place that is asked for, and nothing anywhere if
there is no script.
-/

namespace ManagementScript

namespace FileAccess

/-- What a path leads to in a state of the files. -/
def look (files : FileAccess (StateM σ)) (s : σ) (path : String) : Entry := (files.entry path s).1

/-- Files that change by writing only, and a path leads to what was written to it. -/
structure Faithful (files : FileAccess (StateM σ)) : Prop where
  entry_eq : ∀ path s, files.entry path s = (files.look s path, s)
  look_of_write : ∀ path bytes s s', files.write path bytes s = (.ok (), s') →
    ∃ place, files.look s' path = .file place bytes

end FileAccess

theorem Store.faithful_access : Store.access.Faithful where
  entry_eq := fun _ _ => rfl
  look_of_write := by
    intro path bytes s s' h
    simp only [access] at h
    split at h
    · next hwrite =>
      cases h
      exact entry_of_write hwrite
    · cases h

namespace CommandLine

open FileAccess

/-- What an invocation leaves behind whose translation comes to the given result: the outcome of the
program and the files. -/
inductive Leaves (files : FileAccess (StateM σ)) (i : Invocation) (before : σ) :
    Except RunError RunResult → Outcome → σ → Prop where
  | untranslated : Leaves files i before (.error e) ⟨1, "", errors⟩ before
  | printed (h : i.output = none) :
      Leaves files i before (.ok result) ⟨0, (i.format.render result).push '\n', ""⟩ before
  | written (h : i.output = some target)
      (hfile : files.look after target = .file place (i.format.render result).toUTF8) :
      Leaves files i before (.ok result) ⟨0, "", ""⟩ after
  | unwritten (h : i.output = some target)
      (hwrite : files.write target (i.format.render result).toUTF8 before = (.error e, after)) :
      Leaves files i before (.ok result) ⟨1, "", errors⟩ after

/-- What the translation of an invocation comes to in the state of the files. -/
def translation (files : FileAccess (StateM σ)) (p : Preferences) (timing : Timing) (i : Invocation)
    (s : σ) : Except RunError RunResult :=
  (Run.ofEntry ⟨i.options p, p.logging, timing⟩ i.file (files.look s i.file)).outcome.1

/-- Work that comes to `a` goes on with it. -/
theorem bind_of_eq {work : StateM σ α} {s s' : σ} (h : work s = (a, s')) (f : α → StateM σ β) :
    (work >>= f) s = f a s' := by
  change f (work s).1 (work s).2 = f a s'
  rw [h]

theorem leaves_deliver {files : FileAccess (StateM σ)} (hfiles : files.Faithful) (i : Invocation)
    (result : RunResult) (journal : Journal) (before : σ) : ∃ outcome after,
      deliver files i.output (i.format.render result) journal before = (outcome, after) ∧
      Leaves files i before (.ok result) outcome after := by
  cases houtput : i.output with
  | none => exact ⟨_, _, rfl, .printed houtput⟩
  | some target =>
    rw [deliver]
    cases hwrite : files.write target (i.format.render result).toUTF8 before with
    | mk answer after =>
      rw [bind_of_eq hwrite]
      cases answer with
      | ok _ =>
        obtain ⟨place, hfile⟩ := hfiles.look_of_write _ _ _ _ hwrite
        exact ⟨_, after, rfl, .written houtput hfile⟩
      | error e => exact ⟨_, after, rfl, .unwritten houtput hwrite⟩

theorem leaves_perform {files : FileAccess (StateM σ)} (hfiles : files.Faithful) (p : Preferences)
    (timing : Timing) (i : Invocation) (before : σ) : ∃ outcome after,
      perform files p timing i before = (outcome, after) ∧
      Leaves files i before (translation files p timing i before) outcome after := by
  rw [perform, bind_of_eq (hfiles.entry_eq i.file before), Run.recorded, translation]
  generalize (Run.ofEntry ⟨i.options p, p.logging, timing⟩ i.file
    (files.look before i.file)).outcome = translated
  obtain ⟨result, events⟩ := translated
  cases result with
  | error e => exact ⟨_, before, rfl, .untranslated⟩
  | ok result => exact leaves_deliver hfiles i result _ before

/-- A run whose arguments are understood is all or nothing. What it works with is what its arguments
say, and else what the environment says. -/
theorem run_all_or_nothing :
    Store.access.Faithful ∧
    (∀ i : Invocation, i.file ≠ "" → i.output ≠ some "" → Invocation.parse i.arguments = .ok i) ∧
    ∀ {σ : Type} (files : FileAccess (StateM σ)), files.Faithful →
      ∀ (before : σ) (env : Environment) (timing : Timing) (arguments : List String) (i : Invocation),
        Invocation.parse arguments = .ok i →
        let p := Preferences.ofEnvironment env
        let options := (i.options p).compilation
        (∃ outcome after, run files env timing arguments before = (outcome, after) ∧
          Leaves files i before (translation files p timing i before) outcome after) ∧
        options.hostName = i.host.or ((env.lookup "MGMT_HOST_NAME").filter (· ≠ "")) ∧
        (options.requireNativeInterface = true ↔ i.requireNativeInterface = true ∨
          env.lookup "MGMT_REQUIRE_NATIVE_INTERFACE" = some "true") := by
  refine ⟨Store.faithful_access, fun i hf ho => Invocation.parse_arguments hf ho, ?_⟩
  intro σ files hfiles before env timing arguments i hparse
  refine ⟨?_, ?_, ?_⟩
  · rw [run, hparse]
    exact leaves_perform hfiles _ timing i before
  · have hgiven : (fun name : String => !name.isEmpty) = (decide <| · ≠ "") := by
      funext name
      rw [Bool.eq_iff_iff, Bool.not_eq_true', decide_eq_true_iff, String.isEmpty_eq_false_iff]
    rw [Invocation.options_eq]
    simp only [Preferences.ofEnvironment, CompilationPreferences.ofEnvironment, hgiven]
  · rw [Invocation.options_eq]
    simp only [Preferences.ofEnvironment, CompilationPreferences.ofEnvironment, Bool.or_eq_true,
      Environment.flag_eq_true_iff]

namespace DeliverySample

open Run

/-- A working directory with a document and with a script from before. -/
def before : Store :=
  ((Store.empty "/work").addFile ["d.xml"] EmptySample.source.toUTF8).addFile ["out"] "old".toUTF8

def timing : Timing := ⟨⟨0, 0⟩, 0⟩

/-- Asks for the commands of a file in lines of text. -/
def ofFile (file : String) (output : Option String) : Invocation := ⟨file, none, false, .text, output⟩

theorem look_document :
    Store.access.look before "d.xml" = .file "/work/d.xml" EmptySample.source.toUTF8 := by
  have hpath : Store.isPath "d.xml" = true := by cbv
  have hparts : Path.parts "d.xml" = ["d.xml"] := by cbv
  change before.entry "d.xml" = _
  rw [Store.entry, hpath, hparts]
  rfl

theorem look_missing : Store.access.look before "x" = .missing := by
  have hpath : Store.isPath "x" = true := by cbv
  have hparts : Path.parts "x" = ["x"] := by cbv
  change before.entry "x" = _
  rw [Store.entry, hpath, hparts]
  rfl

def request : Request := ⟨⟨⟨false, false, none⟩, .plain⟩, .ofEnvironment [], timing⟩

theorem size_eq :
    (ofSource request EmptySample.source).outcome.1.toOption.map (·.script.size) = some 0 := by
  decide +kernel

def document : Document := ⟨EmptySample.source, ⟨"/work/d.xml", 43, 1⟩⟩

theorem loads : Document.Loads .plain "d.xml" (Store.access.look before "d.xml") document := by
  refine ⟨by decide, look_document, by decide, ?_, ⟨by decide, by decide, nofun⟩, by decide⟩
  cbv

theorem translation_document (output : Option String) : ∃ result, Format.text.render result = "" ∧
    translation Store.access (.ofEnvironment []) timing (ofFile "d.xml" output) before = .ok result := by
  obtain ⟨result, hresult, hsize⟩ := Option.map_eq_some_iff.1 size_eq
  have hnone : result.script.toList = [] := List.eq_nil_of_length_eq_zero hsize
  have hinner : (ofSource request document.source).outcome.1 = .ok result :=
    toOption_eq_some_iff.1 hresult
  refine ⟨{ result with metadata := some document.metadata }, ?_, ?_⟩
  · exact congrArg (fun cs : List Command => "\n".intercalate (cs.map toString)) hnone
  · exact (outcome_of_loads (r := request) loads).trans (map_eq_ok_iff.2 ⟨result, hinner, rfl⟩)

theorem translation_missing (output : Option String) :
    translation Store.access (.ofEnvironment []) timing (ofFile "x" output) before =
      .error (.loading (.fileNotFound "x")) := by
  have hpath : "x" ≠ "" := by decide
  refine outcome_of_refused ?_
  change Document.Refused _ _ (Store.access.look before "x") _
  rw [look_missing]
  exact .missing hpath

theorem write_out (bytes : ByteArray) :
    Store.access.write "out" bytes before = (.ok (), before.addFile ["out"] bytes) := by
  have hpath : Store.isPath "out" = true := by cbv
  have hparts : Path.parts "out" = ["out"] := by cbv
  have hwrite : before.write "out" bytes = .ok (before.addFile ["out"] bytes) := by
    rw [Store.write, hpath, hparts]
    rfl
  simp only [Store.access, hwrite]

end DeliverySample

open DeliverySample in
/-- An empty document gives an empty script, which is printed or written over the script from before. A
missing document leaves that as it was. -/
theorem run_all_or_nothing_samples :
    run Store.access [] timing (ofFile "d.xml" none).arguments before = (⟨0, "\n", ""⟩, before) ∧
    (∃ after place,
      run Store.access [] timing (ofFile "d.xml" (some "out")).arguments before =
        (⟨0, "", ""⟩, after) ∧
      Store.access.look after "out" = .file place "".toUTF8) ∧
    ∃ errors, run Store.access [] timing (ofFile "x" (some "out")).arguments before =
      (⟨1, "", errors⟩, before) := by
  obtain ⟨hfaithful, hparse, hrun⟩ := run_all_or_nothing
  refine ⟨?_, ?_, ?_⟩
  · have hi := hparse (ofFile "d.xml" none) (by decide) nofun
    obtain ⟨⟨outcome, after, hafter, hleaves⟩, _⟩ := hrun _ hfaithful before [] timing _ _ hi
    obtain ⟨result, hrendered, htranslation⟩ := translation_document none
    rw [htranslation] at hleaves
    cases hleaves with
    | printed =>
      have htext : ((ofFile "d.xml" none).format.render result).push '\n' = "\n" :=
        congrArg (·.push '\n') hrendered
      rw [hafter, htext]
    | written h | unwritten h => cases h
  · have hi := hparse (ofFile "d.xml" (some "out")) (by decide) (by decide)
    obtain ⟨⟨outcome, after, hafter, hleaves⟩, _⟩ := hrun _ hfaithful before [] timing _ _ hi
    obtain ⟨result, hrendered, htranslation⟩ := translation_document (some "out")
    rw [htranslation] at hleaves
    cases hleaves with
    | printed h => cases h
    | written h hfile =>
      cases h
      exact ⟨after, _, hafter, hrendered ▸ hfile⟩
    | unwritten h hwrite =>
      cases h
      cases hwrite.symm.trans (write_out _)
  · have hi := hparse (ofFile "x" (some "out")) (by decide) (by decide)
    obtain ⟨⟨outcome, after, hafter, hleaves⟩, _⟩ := hrun _ hfaithful before [] timing _ _ hi
    rw [translation_missing] at hleaves
    cases hleaves with
    | untranslated => exact ⟨_, hafter⟩

end CommandLine

end ManagementScript
