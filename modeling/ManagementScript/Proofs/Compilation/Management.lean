import ManagementScript.Compilation.Management
import ManagementScript.Proofs.Compilation.Realm

/-!
The compilation of the management element, where no delegate takes a part of it: which elements are
compiled, and what the state is behind them.
-/

namespace ManagementScript.Compilation

open Resource (commandsOfAll)

theorem offer_declining (category : Category) (address : Address) (builtIn : Compilation Unit Unit) :
    offer .declining category address builtIn = builtIn := rfl

/-- The reports on a part of the management element. -/
def partReports (management : Address) (c : Element) : List LogEvent :=
  match c.kind with
  | .securityRealms => c.children.map (realmReport management)
  | .outboundConnections => c.children.map connectionReport
  | _ => []

theorem reads_managementContent (grammar : GrammarNamespace) (management : Address) :
    Reads (forChildren grammar ElementSet.empty (managementChild grammar .declining management))
      (·.HoldsApart grammar [] (Element.IsManagementPart grammar))
      (fun e => .ofList (e.children.map (·.kind)))
      fun e => ⟨commandsOfAll management e.resources,
        e.children.flatMap (partReports management)⟩ := by
  have hchanges : Construct.configurationChanges.Regular := by decide
  simp only [Element.resources, Resource.commandsOfAll_flatMap, ← Output.concat_mk]
  apply reads_apart
  intro seen element
  cases element with
  | securityRealms =>
    exact (compiles_securityRealms grammar management).once (by simp)
      (fun e he => by simp only [Element.IsManagementPart, he])
      fun e he => by simp only [Element.managementPart, partReports, he]
  | outboundConnections =>
    exact (compiles_outboundConnections grammar management).once (by simp)
      (fun e he => by simp only [Element.IsManagementPart, he])
      fun e he => by simp only [Element.managementPart, partReports, he]
  | configurationChanges =>
    exact (compiles_leaf hchanges _).once (by simp)
      (fun e he => by simp only [Element.IsManagementPart, he])
      fun e he => by simp only [Element.managementPart, partReports, he]; rfl
  | managementInterfaces =>
    -- The part is recorded before it is refused.
    have hrefused : Compiles (unexpectedElement : Compilation Unit Unit) (fun _ => False)
        fun c => ⟨commandsOfAll management c.managementPart, partReports management c⟩ :=
      reads_unexpectedElement fun _ => id
    exact hrefused.once (by simp) (fun e he => by simp only [Element.IsManagementPart, he])
      fun _ _ => rfl
  | _ =>
    exact takes_unexpectedElement fun e he => by
      simp only [Element.IsManagementPart, he, not_false_eq_true]

/-- What is reported when the commands are added. -/
def managementSummary (grammar : GrammarNamespace) (commands : Nat) : LogEvent :=
  (LogEvent.success .managementCompiled "Management element translated").withFacts
    [("namespace", grammar.uri), ("operations", toString commands)]

/-- What is reported while a management element is read. -/
def contentReports (grammar : GrammarNamespace) (base : Address) (e : Element) : List LogEvent :=
  (LogEvent.debug "Translating management element").withFact "namespace" grammar.uri ::
    e.children.flatMap (partReports (base.append "core-service" "management"))

/-- Everything that is reported on a management element. -/
def managementReports (grammar : GrammarNamespace) (base : Address) (e : Element) : List LogEvent :=
  contentReports grammar base e ++ [managementSummary grammar (e.commands base).length]

theorem management_interfaces_notMem {grammar : GrammarNamespace} {e : Element}
    (h : e.IsManagement grammar) :
    (ElementSet.ofList (e.children.map (·.kind))).contains .managementInterfaces = false := by
  rw [ElementSet.contains_ofList, decide_eq_false_iff_not]
  intro hmem
  obtain ⟨c, hc, hk⟩ := List.mem_map.1 hmem
  have ha := h.inside.accepted c hc
  simp only [Element.IsManagementPart, hk] at ha

/-- The part of the compilation that reads the element. The commands are not added yet. -/
def managementScript (grammar : GrammarNamespace) (base : Address) :
    Compilation Unit (ElementSet × Script) := do
  requireNoAttributes
  emit ((LogEvent.debug "Translating management element").withFact "namespace" grammar.uri)
  isolated (forChildren grammar ElementSet.empty
    (managementChild grammar .declining (base.append "core-service" "management")))

theorem reads_managementScript (grammar : GrammarNamespace) (base : Address) :
    Reads (managementScript grammar base)
      (fun e => e.IsManagement grammar ∧ (e.commands base).length ≤ Limits.commands)
      (fun e => (.ofList (e.children.map (·.kind)), .ofList (e.commands base)))
      fun e => ⟨[], contentReports grammar base e⟩ := by
  apply Reads.congr
  · apply Reads.requireNoAttributes_bind
    exact (adds_emit _).bind_reads (reads_managementContent grammar _).isolated
  · intro e _
    exact ⟨fun h => ⟨⟨h.1, h.2.2.1⟩, h.2.2.2⟩, fun h => ⟨h.1.tag, trivial, h.1.inside, h.2⟩⟩
  · intro e _
    rfl
  · intro e _
    rfl

/-- The rest of the compilation, which adds the commands, all of them or none. -/
def addManagement (grammar : GrammarNamespace) (native : Bool) (seen : ElementSet)
    (commands : Script) : Compilation Unit Unit := do
  if native && !seen.contains .managementInterfaces then
    throw (.missingElement [ElementName.managementInterfaces.localName] (← location))
  extend commands
  succeed .managementCompiled "Management element translated"
    [("namespace", grammar.uri), ("operations", toString commands.size)]

theorem management_eq (grammar : GrammarNamespace) (base : Address) (native : Bool) :
    management grammar .declining base native = (do
      let (seen, commands) ← managementScript grammar base
      addManagement grammar native seen commands) := by
  simp only [managementScript, bind_assoc]
  rfl

theorem extend_succeed_eq_ok {commands : Script} {s s' : CompilationState δ} :
    (extend commands >>= fun _ => succeed code message facts) s = (.ok (), s') ↔
      s.script.size + commands.size ≤ Limits.commands ∧
        s.After s.cursor ⟨commands.toList, [(LogEvent.success code message).withFacts facts]⟩ s' := by
  have hsplit : Output.mk commands.toList [(LogEvent.success code message).withFacts facts] =
      .ofCommands commands.toList ++ ⟨[], [(LogEvent.success code message).withFacts facts]⟩ :=
    Output.ext (List.append_nil _).symm rfl
  rw [hsplit, bind_eq_ok]
  apply Iff.intro
  · intro h
    obtain ⟨_, s₁, he, hs⟩ := h
    obtain ⟨hroom, hs₁⟩ := extend_eq_ok.1 he
    obtain ⟨_, _, hs₂⟩ := (adds_succeed ..).1 hs
    rw [hs₁.cursor] at hs₂
    exact ⟨hroom, hs₁.trans hs₂⟩
  · intro h
    obtain ⟨hroom, hs⟩ := h
    obtain ⟨s₁, hs₁, hs₂⟩ := hs.between s.cursor
    rw [← hs₁.cursor] at hs₂
    exact ⟨(), s₁, extend_eq_ok.2 ⟨hroom, hs₁⟩, (adds_succeed ..).2 ⟨trivial, rfl, hs₂⟩⟩

theorem addManagement_eq_ok {grammar : GrammarNamespace} {native : Bool} {seen : ElementSet}
    {commands : Script} {s s' : CompilationState Unit}
    (h : seen.contains .managementInterfaces = false) :
    addManagement grammar native seen commands s = (.ok (), s') ↔
      native = false ∧ s.script.size + commands.size ≤ Limits.commands ∧
        s.After s.cursor ⟨commands.toList, [managementSummary grammar commands.size]⟩ s' := by
  cases native with
  | true =>
    apply Iff.intro
    · intro hm
      rw [addManagement, h, if_pos (by rfl)] at hm
      obtain ⟨_, _, _, hm⟩ := bind_eq_ok.1 hm
      obtain ⟨_, _, ht, _⟩ := bind_eq_ok.1 hm
      exact absurd ht throw_ne_ok
    · intro hm
      cases hm.1
  | false =>
    rw [addManagement, if_neg (by simp)]
    exact extend_succeed_eq_ok.trans (and_iff_right rfl).symm

theorem management_eq_ok_of_distinct {grammar : GrammarNamespace} {base : Address} {native : Bool}
    {s s' : CompilationState Unit} (hd : s.cursor.Distinct) :
    management grammar .declining base native s = (.ok (), s') ↔
      ∃ e d, s.cursor.Spans e d ∧ e.IsManagement grammar ∧ native = false ∧
        s.script.size + (e.commands base).length ≤ Limits.commands ∧
        s.After d ⟨e.commands base, managementReports grammar base e⟩ s' := by
  rw [management_eq, bind_eq_ok]
  apply Iff.intro
  · intro h
    obtain ⟨⟨seen, commands⟩, s₁, hm, h⟩ := h
    obtain ⟨nodes, d, hn, ⟨ha, hlen⟩, hr, hs₁⟩ := (reads_managementScript grammar base hd).1 hm
    cases hr
    obtain ⟨hnative, hroom, hs⟩ := (addManagement_eq_ok (management_interfaces_notMem ha)).1 h
    rw [hs₁.cursor] at hs
    rw [Script.grows_nil_iff.1 hs₁.script] at hroom
    exact ⟨_, d, ⟨rfl, hn⟩, ha, hnative, hroom, hs₁.trans hs⟩
  · intro h
    obtain ⟨e, d, ⟨he, hn⟩, ha, hnative, hroom, hs⟩ := h
    have hlen : (e.commands base).length ≤ Limits.commands := hs.fits
    have hs : s.After d (⟨[], _⟩ ++ ⟨e.commands base, [_]⟩) s' := hs
    obtain ⟨s₁, hs₁, hs₂⟩ := hs.between d
    rw [he] at ha hlen hs₁
    refine ⟨_, s₁, (reads_managementScript grammar base hd).2 ⟨_, d, hn, ⟨ha, hlen⟩, rfl, hs₁⟩, ?_⟩
    refine (addManagement_eq_ok (management_interfaces_notMem ha)).2 ⟨hnative, ?_, ?_⟩
    · rw [Script.grows_nil_iff.1 hs₁.script, ← he]
      exact hroom
    · rw [hs₁.cursor, ← he]
      exact hs₂

theorem attributes_eq_nil_of_management {grammar : GrammarNamespace} {delegate : Delegate δ}
    {s s' : CompilationState δ} (h : management grammar delegate base native s = (.ok (), s')) :
    s.cursor.attributes = [] := by
  rw [management, bind_eq_ok] at h
  obtain ⟨_, _, h, _⟩ := h
  exact (requireNoAttributes_eq_ok.1 h).1

/-- An element is compiled if it is one of the grammar, no native interface is asked for, and there
is room for its commands. They are added behind what is there. -/
theorem management_eq_ok_iff {grammar : GrammarNamespace} {base : Address} {native : Bool}
    {s s' : CompilationState Unit} :
    management grammar .declining base native s = (.ok (), s') ↔
      ∃ e d, s.cursor.Spans e d ∧ e.IsManagement grammar ∧ native = false ∧
        s.script.size + (e.commands base).length ≤ Limits.commands ∧
        s.After d ⟨e.commands base, managementReports grammar base e⟩ s' := by
  apply Iff.intro
  · intro h
    have hd := Cursor.distinct_of_attributes_eq_nil (attributes_eq_nil_of_management h)
    exact (management_eq_ok_of_distinct hd).1 h
  · intro h
    obtain ⟨e, d, he, hm, _⟩ := id h
    exact (management_eq_ok_of_distinct (he.distinct hm.tag)).2 h

/-- Where only the room for the commands is missing, this is the error. -/
theorem management_eq_limitExceeded {grammar : GrammarNamespace} {base : Address}
    {s : CompilationState Unit} (hd : s.cursor.Spans e d) (ha : e.IsManagement grammar)
    (hfit : (e.commands base).length ≤ Limits.commands)
    (hfull : Limits.commands < s.script.size + (e.commands base).length) :
    (management grammar .declining base false s).1 =
      .error (.limitExceeded CompilationError.commandList Limits.commands) := by
  obtain ⟨s₁, hs₁⟩ := s.exists_after (fun h => absurd rfl h) d (contentReports grammar base e)
  have hread : managementScript grammar base s =
      (.ok (.ofList (e.children.map (·.kind)), .ofList (e.commands base)), s₁) := by
    refine (reads_managementScript grammar base (hd.distinct ha.tag)).2 ⟨_, d, hd.inside, ?_⟩
    rw [← hd.start]
    exact ⟨⟨ha, hfit⟩, rfl, hs₁⟩
  have hfull₁ : Limits.commands < s₁.script.size + (Script.ofList (e.commands base)).size := by
    rw [Script.grows_nil_iff.1 hs₁.script]
    exact hfull
  rw [management_eq, bind_apply, hread]
  simp only [addManagement, Bool.false_and, Bool.false_eq_true, ↓reduceIte]
  rw [bind_apply, extend_of_full hfull₁]

end ManagementScript.Compilation
