import ManagementScript.CommandLine
import ManagementScript.Proofs.Command.TextForm
import ManagementScript.Proofs.Management.Naming
import ManagementScript.Proofs.Management.Typing
import ManagementScript.Proofs.Run.Results

/-!
The commands as lines of text. A command is one line where no text in it has a line break; keys and the
names of parameters never have one.
-/

namespace ManagementScript

open Text (Breaks)

theorem ResourceKind.parameters_unbroken (kind : ResourceKind) :
    ∀ d ∈ kind.signature.parameters, ¬Breaks d.parameter := by
  cases kind <;> decide

theorem Element.keys_unbroken : ∀ key ∈ Element.keys, ¬Breaks key := by decide

theorem RunOptions.base_unbroken (o : RunOptions) : ∀ s ∈ o.base.segments, ¬Breaks s.key := by
  rw [base]
  cases o.compilation.hostName with
  | none => exact List.forall_mem_nil _
  | some host => exact List.forall_mem_singleton.2 (show ¬Breaks "host" by decide)

theorem Element.IsManagement.plain {e : Element} (h : e.IsManagement grammar) {base : Address}
    (hbase : ∀ s ∈ base.segments, ¬Breaks s.key) : ∀ c ∈ e.commands base, c.IsPlain := by
  intro c hc
  apply Command.IsPlain.mk
  · obtain ⟨path, _, hp, hplaces, _⟩ :=
      Resource.throughout_of_mem_commandsOfAll _ (throughout_resources h) hc
    rw [hp]
    intro s hs
    cases List.mem_append.1 hs with
    | inl hs =>
      cases List.mem_append.1 hs with
      | inl hs => exact hbase s hs
      | inr hs =>
        rw [List.mem_singleton.1 hs]
        decide
    | inr hs =>
      obtain ⟨_, hmakes⟩ := hplaces s hs
      exact keys_unbroken _ hmakes.place.key_mem
  · obtain ⟨_, kind, _, _, hadmits⟩ :=
      Resource.typed_of_mem_commandsOfAll _ (typed_resources h) hc
    intro x hx
    obtain ⟨d, hd, hn, _⟩ := hadmits.declared x hx
    exact hn ▸ kind.parameters_unbroken d hd

namespace Run

theorem Gives.plain {r : Request} (h : Gives r source result) :
    ∀ c ∈ result.script.toList, c.IsPlain := by
  obtain ⟨e, _, hcompiled⟩ := h.exists_management
  have hscript : result.script.toList = e.commands r.options.base := hcompiled.script
  rw [hscript]
  exact hcompiled.management.plain r.options.base_unbroken

/-- The text form of a script that is not empty has one line for each command, the text form of that
command, exactly where no text in a command has a line break. -/
theorem lines_of_commands {r : Request} {source : String} {result : RunResult}
    (h : Gives r source result) (hne : result.script.isEmpty = false) :
    Text.lines (Format.text.render result) = result.script.toList.map toString ↔
      ∀ c ∈ result.script.toList, ∀ t ∈ c.texts, ¬Breaks t := by
  have hnonempty : result.script.toList.map toString ≠ [] := by
    rw [Ne, List.map_eq_nil_iff, Script.toList, Array.toList_eq_nil_iff]
    simpa [Script.isEmpty] using hne
  refine (Text.lines_intercalate_iff hnonempty).trans ?_
  rw [List.forall_mem_map]
  refine forall₂_congr fun c hc => ?_
  rw [Command.breaks_toString (h.plain c hc)]
  simp

/-! ### A value with line breaks -/

namespace LineSample

/-- A document with one command, whose parameter is written as given. -/
def source (value : String) : String :=
  "<management xmlns='urn:jboss:domain:4.2'><configuration-changes max-history='" ++ value ++
    "'/></management>"

def outcome (value : String) : Option RunResult :=
  (ofSource EmptySample.request (source value)).outcome.1.toOption

theorem gives (h : outcome value = some result) : Gives EmptySample.request (source value) result :=
  .text (toOption_eq_some_iff.1 h)

/-- An expression, and behind it a line that reads like a command. -/
def forging : String := "$\x7bx\x7d&#10;/core-service=management/security-realm=b:add&#10;"

theorem commands_plain : (outcome "5").map (·.script.toList.map fun c => (toString c, c.texts)) =
    some [("/core-service=management/service=configuration-changes:add(max-history=5)",
      ["management", "configuration-changes"])] := by
  decide +kernel

theorem lines_forging : (outcome forging).map
      (fun result => (result.script.size, Text.lines (Format.text.render result))) =
    some (1, ["/core-service=management/service=configuration-changes:add(max-history=expression " ++
      "\"$\x7bx\x7d", "/core-service=management/security-realm=b:add", "\")"]) := by
  decide +kernel

end LineSample

theorem lines_of_commands_changes : ∃ result, Gives EmptySample.request (LineSample.source "5") result ∧
    Text.lines (Format.text.render result) =
      ["/core-service=management/service=configuration-changes:add(max-history=5)"] := by
  obtain ⟨result, hr, hcommands⟩ := Option.map_eq_some_iff.1 LineSample.commands_plain
  have hgives := LineSample.gives hr
  obtain ⟨c, hc, hpair⟩ := List.map_eq_singleton_iff.1 hcommands
  obtain ⟨htext, htexts⟩ := Prod.mk.inj hpair
  have hne : result.script.isEmpty = false := by
    rw [Script.isEmpty, ← Array.isEmpty_toList, ← Script.toList, hc]
    rfl
  refine ⟨result, hgives, ((lines_of_commands hgives hne).2 ?_).trans ?_⟩
  · rw [hc, List.forall_mem_singleton, htexts]
    decide
  · rw [hc, List.map_singleton, htext]

/-- The one command of a document is written as three lines, one of which reads like another command. -/
theorem line_forged : ∃ result, Gives EmptySample.request (LineSample.source LineSample.forging) result ∧
    result.script.size = 1 ∧ (Text.lines (Format.text.render result)).length = 3 ∧
    "/core-service=management/security-realm=b:add" ∈ Text.lines (Format.text.render result) := by
  obtain ⟨result, hr, hlines⟩ := Option.map_eq_some_iff.1 LineSample.lines_forging
  obtain ⟨hsize, hlines⟩ := Prod.mk.inj hlines
  refine ⟨result, LineSample.gives hr, hsize, ?_, ?_⟩
  · rw [hlines]
    rfl
  · rw [hlines]
    decide

end Run

end ManagementScript
