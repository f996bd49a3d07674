import ManagementScript.Proofs.Compilation.Prefix
import ManagementScript.Proofs.Run.Truncation

/-!
Runs below a host. The host only stands before the addresses of the commands: a document is accepted,
or refused with one error, whether its commands are below a host or not.
-/

namespace ManagementScript

namespace DocumentCompilation

open Compilation (Prefixes)
open Compilation.Prefixes (bind discard)

variable {base : Address} {grammar : GrammarNamespace} {o o' : RunOptions}

theorem prefixes_getCursor : Prefixes base getCursor getCursor := fun _ => rfl

theorem prefixes_move (step : Cursor → Cursor.Moved α) : Prefixes base (move step) (move step) := by
  intro s
  have hcursor : (s.prefixedBy base).cursor = s.cursor := rfl
  simp only [move, hcursor]
  split <;> rfl

theorem prefixes_ofCompilation {t t' : Compilation Unit α} (h : Prefixes base t t') :
    Prefixes base (ofCompilation t) (ofCompilation t') := by
  have happly (t : Compilation Unit α) (s : CompilationState Unit) :
      ofCompilation t s = ((t s).1.mapError .compilation, (t s).2) := rfl
  intro s
  rw [happly, happly, h s]

/-- The same is asked for with the two options, below addresses of which one is the other below
`base`. -/
structure Rebased (base : Address) (o o' : RunOptions) : Prop where
  base : o'.base = o.base.prefixedBy base
  native : o'.compilation.requireNativeInterface = o.compilation.requireNativeInterface

theorem Rebased.management (h : Rebased base o o') :
    Prefixes base (management grammar o) (management grammar o') := by
  apply prefixes_ofCompilation
  rw [h.base, h.native]
  exact .management Compilation.Prefixes.respects_declining _ _

theorem Rebased.readSection (h : Rebased base o o') (found : Bool) :
    Prefixes base (readSection grammar o found) (readSection grammar o' found) := by
  apply prefixes_getCursor.bind
  intro cursor
  split
  · split
    · exact bind (.throw _) fun _ => h.management.bind fun _ => .pure _
    · exact h.management.bind fun _ => .pure _
  · exact (prefixes_move _).bind fun _ => .pure _

theorem Rebased.sectionsAmong (h : Rebased base o o') (found : Bool) (pending : List Xml.Event) :
    Prefixes base (sectionsAmong grammar o found pending) (sectionsAmong grammar o' found pending) := by
  induction pending generalizing found with
  | nil => exact (prefixes_move _).discard.bind fun _ => .pure _
  | cons event pending ih =>
    apply (prefixes_move _).bind
    intro tag
    cases tag with
    | start => exact (h.readSection found).bind ih
    | finish => exact .pure _
    | endOfDocument => exact .pure _

theorem prefixes_requireGrammar : Prefixes base requireGrammar requireGrammar := by
  apply prefixes_getCursor.bind
  intro cursor
  dsimp only
  split
  · exact .pure _
  · exact .throw _

theorem Rebased.readRoot (h : Rebased base o o') :
    Prefixes base (readRoot grammar o) (readRoot grammar o') := by
  apply prefixes_getCursor.bind
  intro cursor
  dsimp only
  split
  · exact h.management
  · split
    · apply (h.sectionsAmong false cursor.pending).bind
      intro found
      split
      · exact .throw _
      · exact .pure _
    · exact .throw _

theorem Rebased.document (h : Rebased base o o') : Prefixes base (document o) (document o') := by
  apply (prefixes_move _).bind
  intro tag
  cases tag with
  | start =>
    apply prefixes_requireGrammar.bind
    intro grammar
    apply prefixes_getCursor.bind
    intro cursor
    apply (prefixes_ofCompilation (.emit _)).bind
    intro _
    exact h.readRoot.bind fun _ => .pure _
  | finish => exact .throw _
  | endOfDocument => exact .throw _

theorem rebased_withHost (ho : o.compilation.hostName = none) (host : String) :
    Rebased (Address.root.append "host" host) o (o.withHost host) where
  base := by
    simp only [RunOptions.base, ho]
    rfl
  native := rfl

end DocumentCompilation

namespace Run

/-- The same request, for addresses below the given host. -/
def Request.withHost (r : Request) (host : String) : Request :=
  { r with options := r.options.withHost host }

theorem compile_withHost {o : RunOptions} (ho : o.compilation.hostName = none)
    (host source : String) : (compile (o.withHost host) source #[]).1 =
      (compile o source #[]).1.map fun x => (x.1.prefixedBy (Address.root.append "host" host), x.2) := by
  have h := (DocumentCompilation.rebased_withHost ho host).document (Compilation.start source ())
  have hstart : (Compilation.start source ()).prefixedBy (Address.root.append "host" host) =
      Compilation.start source () :=
    congrArg (CompilationState.mk _ · _ _) (Script.prefixedBy_empty _)
  rw [hstart] at h
  rw [compile_apply, compile_apply, h]
  cases (DocumentCompilation.document o (Compilation.start source ())).1 <;> rfl

/-- The outcomes are one error, or results with one grammar and the same commands, which are below
`base` in the second of them. -/
inductive SameBelow (base : Address) : Except RunError RunResult → Except RunError RunResult → Prop where
  | error (e : RunError) : SameBelow base (.error e) (.error e)
  | ok (hg : result'.grammar = result.grammar)
      (hs : result'.script.toList = result.script.toList.map (·.prefixedBy base)) :
      SameBelow base (.ok result) (.ok result')

theorem SameBelow.exists_of_size {outcome outcome' : Except RunError RunResult}
    (h : SameBelow base outcome outcome') (hsize : outcome.toOption.map (·.script.size) = some n) :
    ∃ result result', outcome = .ok result ∧ outcome' = .ok result' ∧ result.script.size = n ∧
      result'.script.toList = result.script.toList.map (·.prefixedBy base) := by
  cases h with
  | error e => cases hsize
  | ok hg hs => exact ⟨_, _, rfl, rfl, Option.some.inj hsize, hs⟩

/-- With a host a run over a text fails where it fails without one, with the same error, and otherwise
it finds the same grammar and gives the same commands below the host. Below every address a management
element comes to the result that it comes to at the root, behind whatever commands there are, and adds
the same commands below that address, with every delegate that does the same below every address. -/
theorem base_only_prefixes :
    (∀ (r : Request) (host source : String), r.options.compilation.hostName = none →
      SameBelow (Address.root.append "host" host) (ofSource r source).outcome.1
        (ofSource (r.withHost host) source).outcome.1) ∧
    Compilation.Prefixes.Respects Delegate.declining ∧
    ∀ {δ : Type} (delegate : Delegate δ), Compilation.Prefixes.Respects delegate →
      ∀ (grammar : GrammarNamespace) (base : Address) (native : Bool),
        Compilation.Relocates base (Compilation.management grammar delegate .root native)
          (Compilation.management grammar delegate base native) := by
  refine ⟨?_, Compilation.Prefixes.respects_declining, ?_⟩
  · intro r host source ho
    rw [ofSource_apply, ofSource_apply, Request.withHost, compile_withHost ho]
    cases (compile r.options source #[]).1 with
    | ok x => exact .ok rfl (Script.toList_prefixedBy _ _)
    | error e => exact .error e
  · intro δ delegate hd grammar base native
    have h := Compilation.relocates_management grammar hd .root base native
    rwa [Address.root_prefixedBy] at h

namespace HostedSample

def source : String :=
  "<management xmlns='urn:jboss:domain:4.2'><configuration-changes max-history='5'/></management>"

theorem size_eq : (ofSource EmptySample.request source).outcome.1.toOption.map (·.script.size) =
    some 1 := by decide +kernel

end HostedSample

/-- The command of the configuration changes is below the host with a host. -/
theorem base_only_prefixes_changes :
    (∃ result hosted,
      (ofSource EmptySample.request HostedSample.source).outcome.1 = .ok result ∧
      (ofSource (EmptySample.request.withHost "primary") HostedSample.source).outcome.1 = .ok hosted ∧
      result.script.size = 1 ∧ hosted.script.toList =
        result.script.toList.map (·.prefixedBy (Address.root.append "host" "primary"))) ∧
    Compilation.Relocates (Address.root.append "host" "primary")
      (Compilation.management .domain42 .declining .root false)
      (Compilation.management .domain42 .declining (Address.root.append "host" "primary") false) := by
  have h := base_only_prefixes.1 EmptySample.request "primary" HostedSample.source rfl
  exact ⟨h.exists_of_size HostedSample.size_eq,
    base_only_prefixes.2.2 _ base_only_prefixes.2.1 .domain42 _ false⟩

end Run

end ManagementScript
