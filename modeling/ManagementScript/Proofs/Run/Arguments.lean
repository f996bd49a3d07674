import Mathlib.Data.List.TakeDrop
import ManagementScript.CommandLine
import ManagementScript.Proofs.Result

/-!
What can be asked for on the command line: everything that a run can be told can be written as
arguments, and its options are those of the environment but for what the arguments say.
-/

namespace ManagementScript

namespace Invocation

/-- An option and its value in one argument. -/
def joined (option value : String) : String := option ++ "=" ++ value

/-- The arguments that ask for the invocation. -/
def arguments (i : Invocation) : List String :=
  i.host.toList.map (joined "--host") ++ joined "--format" i.format.name ::
    (i.output.toList.map (joined "--output") ++
      ((if i.requireNativeInterface then ["--require-native-interface"] else []) ++ ["--", i.file]))

theorem toList_joined (option value : String) :
    (joined option value).toList = option.toList ++ '=' :: value.toList := by
  simp [joined]

theorem splitOption?_joined (hname : '=' ∉ option.toList) (value : String) :
    splitOption? (joined option value) = some (option, value) := by
  have hbefore : ∀ c ∈ option.toList, (c != '=') = true := by
    intro c hc
    rw [bne_iff_ne]
    rintro rfl
    exact hname hc
  rw [splitOption?, toList_joined, List.span_eq_takeWhile_dropWhile,
    List.takeWhile_append_of_pos hbefore, List.dropWhile_append_of_pos hbefore]
  simp

theorem isPlain_joined (hdashes : ['-', '-'] <+: option.toList) (value : String) :
    isPlain (joined option value) = false := by
  obtain ⟨name, hname⟩ := hdashes
  have hsingle : joined option value ≠ "-" := by
    intro h
    have htexts := congrArg String.toList h
    rw [toList_joined, ← hname] at htexts
    simp at htexts
  have hstart : (joined option value).startsWith "-" = true := by
    rw [String.startsWith_string_iff, toList_joined, ← hname]
    exact ⟨'-' :: name ++ '=' :: value.toList, rfl⟩
  rw [isPlain, beq_eq_false_iff_ne.2 hsingle, hstart]
  rfl

theorem parseFrom_joined {found found' : Found} {rest : List String}
    (hdashes : ['-', '-'] <+: option.toList) (hname : '=' ∉ option.toList)
    (h : found.withValue option value = .ok found') (hne : rest ≠ []) :
    parseFrom found (joined option value :: rest) = parseFrom found' rest := by
  have hdouble : joined option value ≠ "--" := by
    intro h
    have hmem : '=' ∈ (joined option value).toList := by
      rw [toList_joined]
      simp
    rw [h] at hmem
    revert hmem
    decide
  cases rest with
  | nil => exact absurd rfl hne
  | cons next rest =>
    rw [parseFrom, isPlain_joined hdashes value]
    · simp only [splitOption?_joined hname, Bool.false_eq_true, ↓reduceIte, h]
      rfl
    · exact hdouble

theorem parseFrom_file {found : Found} {file : String} (hfound : found.file = none) (hf : file ≠ "") :
    parseFrom found ["--", file] = .ok { found with file := some file } := by
  have hempty : file.isEmpty = false := by simpa using hf
  simp [parseFrom, Found.withFile, hfound, hempty]

theorem parseFrom_host {found : Found} {rest : List String} (h : found.host = none)
    (host : Option String) (hne : rest ≠ []) :
    parseFrom found (host.toList.map (joined "--host") ++ rest) = parseFrom { found with host } rest := by
  obtain ⟨_, _, _, _, _⟩ := found
  obtain rfl := h
  cases host with
  | none => rfl
  | some host => exact parseFrom_joined (by decide) (by decide) rfl hne

theorem parseFrom_output {found : Found} {rest : List String} (h : found.output = none)
    {output : Option String} (ho : output ≠ some "") (hne : rest ≠ []) :
    parseFrom found (output.toList.map (joined "--output") ++ rest) =
      parseFrom { found with output } rest := by
  obtain ⟨_, _, _, _, _⟩ := found
  obtain rfl := h
  cases output with
  | none => rfl
  | some path =>
    have hempty : path.isEmpty = false := by simpa using ho
    exact parseFrom_joined (by decide) (by decide) (by simp [Found.withValue, hempty]) hne

theorem parseFrom_format {found : Found} {rest : List String} (h : found.format = none)
    (format : Format) (hne : rest ≠ []) :
    parseFrom found (joined "--format" format.name :: rest) =
      parseFrom { found with format := some format } rest := by
  have hvalue : found.withValue "--format" format.name = .ok { found with format := some format } := by
    cases format <;> simp [Found.withValue, Format.ofName?, Format.name, h]
  exact parseFrom_joined (by decide) (by decide) hvalue hne

theorem parseFrom_flag {found : Found} {rest : List String} (h : found.requireNativeInterface = false)
    (required : Bool) (hne : rest ≠ []) :
    parseFrom found ((if required then ["--require-native-interface"] else []) ++ rest) =
      parseFrom { found with requireNativeInterface := required } rest := by
  have hplain : isPlain "--require-native-interface" = false := by decide +kernel
  have hsplit : splitOption? "--require-native-interface" = none := by decide +kernel
  have htakes : takesValue "--require-native-interface" = false := by decide +kernel
  obtain ⟨_, _, _, _, _⟩ := found
  obtain rfl := h
  cases required with
  | false => rfl
  | true =>
    cases rest with
    | nil => exact absurd rfl hne
    | cons next rest =>
      rw [if_pos rfl, List.singleton_append, parseFrom, hplain]
      · simp only [hsplit, htakes, Bool.false_eq_true, ↓reduceIte]
        rfl
      · decide

/-- Every invocation can be asked for that has a document and, where it has an output, a path for it. -/
theorem parse_arguments {i : Invocation} (hf : i.file ≠ "") (ho : i.output ≠ some "") :
    parse i.arguments = .ok i := by
  obtain ⟨file, host, required, format, output⟩ := i
  have hfound : parseFrom .nothing (arguments ⟨file, host, required, format, output⟩) =
      .ok ⟨some file, host, required, some format, output⟩ := by
    rw [arguments, parseFrom_host (by rfl) host (by simp), parseFrom_format (by rfl) format (by simp),
      parseFrom_output (by rfl) ho (by simp), parseFrom_flag (by rfl) required (by simp),
      parseFrom_file (by rfl) hf]
  rw [parse, hfound]
  rfl

/-! ### Options -/

/-- The host is the one that the arguments give, or else that of the environment. -/
theorem options_eq (i : Invocation) (p : Preferences) : i.options p =
    ⟨{ p.compilation with
        hostName := i.host.or p.compilation.hostName
        requireNativeInterface := i.requireNativeInterface || p.compilation.requireNativeInterface },
      p.document⟩ := by
  obtain ⟨_, host, required, _, _⟩ := i
  cases host <;> cases required <;> rfl

end Invocation

namespace Environment

theorem flag_eq_true_iff {env : Environment} :
    env.flag name false = true ↔ env.lookup name = some "true" := by
  rw [flag]
  split
  · next h => simp [h]
  · next h => simp [h]
  · next htrue _ => simpa using htrue

end Environment

end ManagementScript
