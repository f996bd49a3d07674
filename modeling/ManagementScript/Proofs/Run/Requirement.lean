import ManagementScript.Proofs.Management.Delegation
import ManagementScript.Proofs.Run.Results
import ManagementScript.Proofs.Run.Truncation

/-!
What it means to ask for management interfaces: an element whose interfaces no delegate has taken is
refused before its commands are added, and nothing else changes. Where no delegate is asked, every
document is refused.
-/

namespace ManagementScript

namespace Compilation

/-- While children are visited that begin among the events `pending`, the delegate takes one of the
category. -/
inductive TakesAmong (grammar : GrammarNamespace) (D : Delegate δ) (management : Address)
    (category : Category) : ElementSet → List Xml.Event → CompilationState δ → Prop where
  | here (hn : nextElement grammar s = (.ok (some category.element), t))
      (hm : mark seen category t = (.ok seen', t))
      (ha : D.offer category management t = (.ok true, t')) :
      TakesAmong grammar D management category seen (event :: pending) s
  | later (hn : nextElement grammar s = (.ok (some element), t))
      (hc : managementChild grammar D management seen element t = (.ok seen₁, s₁))
      (h : TakesAmong grammar D management category seen₁ pending s₁) :
      TakesAmong grammar D management category seen (event :: pending) s

/-- The delegate takes management interfaces of the element that is compiled from `s`. -/
structure TakesInterfaces (grammar : GrammarNamespace) (D : Delegate δ) (base : Address)
    (s : CompilationState δ) : Prop where
  tag : s.cursor.attributes = []
  inside : TakesAmong grammar D (base.append "core-service" "management") .managementInterfaces .empty
    s.cursor.pending (opening grammar s)

/-- What stands inside the element is compiled. The script of `t` is what has to be added. -/
structure Inside (grammar : GrammarNamespace) (D : Delegate δ) (base : Address)
    (s : CompilationState δ) (seen : ElementSet) (t : CompilationState δ) : Prop where
  tag : s.cursor.attributes = []
  content : forChildren grammar .empty (managementChild grammar D
    (base.append "core-service" "management")) (opening grammar s) = (.ok seen, t)

/-- What stands inside the element is compiled, but there is no room for its commands. -/
def Overflows (grammar : GrammarNamespace) (D : Delegate δ) (base : Address)
    (s : CompilationState δ) : Prop :=
  ∃ seen t, Inside grammar D base s seen t ∧ Limits.commands < s.script.size + t.script.size

/-- Interfaces are found missing, at the place where the element ends, and nothing is added. -/
def MissesInterfaces (s : CompilationState δ)
    (outcome : Except CompilationError Unit × CompilationState δ) : Prop :=
  ∃ t, outcome = (.error (.missingElement ["management-interfaces"] t.cursor.position), t) ∧
    t.script = s.script

variable {grammar : GrammarNamespace} {D : Delegate δ} {base address : Address}

/-! ### What is recorded of the interfaces -/

theorem contains_of_mark {category : Category} {s s' : CompilationState δ}
    (h : mark seen category s = (.ok seen', s')) :
    seen'.contains .managementInterfaces =
      (seen.contains .managementInterfaces || decide (category = .managementInterfaces)) := by
  cases category with
  | auditLog | accessControl =>
    obtain ⟨rfl, _⟩ := pure_eq_ok.1 h
    simp
  | _ =>
    obtain ⟨_, rfl, _⟩ := (adds_once ..).1 h
    rw [ElementSet.contains_insert]
    rfl

/-- A child that is compiled is recorded, and where it is interfaces the delegate has taken them. -/
theorem contains_of_managementChild {s s' : CompilationState δ}
    (h : managementChild grammar D address seen element s = (.ok seen', s')) :
    seen'.contains .managementInterfaces =
        (seen.contains .managementInterfaces || decide (element = .managementInterfaces)) ∧
      (element = .managementInterfaces → mark seen .managementInterfaces s = (.ok seen', s) ∧
        ∃ t, D.offer .managementInterfaces address s = (.ok true, t)) := by
  rcases @managementChild_cases _ grammar D address element with ⟨category, rfl⟩ | rfl | hrefused
  · rw [managementChild_offer] at h
    obtain ⟨_, s₁, hmark, hrest⟩ := bind_eq_ok.1 h
    obtain rfl := mark_eq_ok hmark
    obtain ⟨_, s₂, hoffer, hrest⟩ := bind_eq_ok.1 hrest
    obtain ⟨rfl, _⟩ := pure_eq_ok.1 hrest
    refine ⟨?_, ?_⟩
    · rw [contains_of_mark hmark]
      cases category <;> rfl
    · intro hinterfaces
      obtain rfl : category = .managementInterfaces := by
        cases category with
        | managementInterfaces => rfl
        | _ => cases hinterfaces
      obtain ⟨t, ⟨ha, _⟩ | ⟨_, hb⟩⟩ := offer_eq_ok hoffer
      · exact ⟨hmark, t, ha⟩
      · exact absurd hb unexpectedElement_ne_ok
  · obtain ⟨_, s₁, honce, hrest⟩ := bind_eq_ok.1 h
    obtain ⟨_, s₂, _, hrest⟩ := bind_eq_ok.1 hrest
    obtain ⟨rfl, _⟩ := pure_eq_ok.1 hrest
    obtain ⟨_, rfl, _⟩ := (adds_once ..).1 honce
    exact ⟨ElementSet.contains_insert .., nofun⟩
  · rw [hrefused] at h
    exact absurd h unexpectedElement_ne_ok

/-- Interfaces are recorded exactly where the delegate takes them. -/
theorem contains_of_visitAmong {s s' : CompilationState δ} {ahead : List Xml.Event}
    (h : visitAmong grammar (managementChild grammar D address) seen ahead s = (.ok seen', s')) :
    seen'.contains .managementInterfaces = true ↔ seen.contains .managementInterfaces = true ∨
      TakesAmong grammar D address .managementInterfaces seen ahead s := by
  induction ahead generalizing seen s with
  | nil =>
    obtain ⟨_, _, _, h⟩ := bind_eq_ok.1 h
    obtain ⟨rfl, _⟩ := pure_eq_ok.1 h
    exact (or_iff_left nofun).symm
  | cons event ahead ih =>
    obtain ⟨next, t, hn, h⟩ := bind_eq_ok.1 h
    cases next with
    | none =>
      obtain ⟨rfl, _⟩ := pure_eq_ok.1 h
      refine (or_iff_left fun ht => ?_).symm
      cases ht with
      | here hn' | later hn' => cases hn.symm.trans hn'
    | some element =>
      obtain ⟨seen₁, s₁, hchild, hrest⟩ := bind_eq_ok.1 h
      obtain ⟨hseen, htaken⟩ := contains_of_managementChild hchild
      rw [ih hrest, hseen]
      by_cases he : element = .managementInterfaces
      · obtain ⟨hmark, _, hoffer⟩ := htaken he
        subst he
        simp only [decide_true, Bool.or_true, true_or, true_iff]
        exact .inr (.here hn hmark hoffer)
      · simp only [he, decide_false, Bool.or_false]
        refine or_congr_right ⟨.later hn hchild, fun ht => ?_⟩
        cases ht with
        | here hn' => cases hn.symm.trans hn'; exact absurd rfl he
        | later hn' hchild' ht =>
          cases hn.symm.trans hn'
          cases hchild.symm.trans hchild'
          exact ht

theorem not_takesAmong_declining {s : CompilationState Unit} {ahead : List Xml.Event} :
    ¬ TakesAmong grammar .declining address category seen ahead s := by
  intro h
  induction h with
  | here _ _ ha => cases ha
  | later _ _ _ ih => exact ih

theorem Inside.takes_iff {s t : CompilationState δ} (h : Inside grammar D base s seen t) :
    TakesInterfaces grammar D base s ↔ seen.contains .managementInterfaces = true := by
  have hvisit := h.content
  rw [forChildren, getCursor_bind] at hvisit
  rw [contains_of_visitAmong hvisit, ElementSet.contains_empty]
  simp only [Bool.false_eq_true, false_or]
  exact ⟨fun ht => ht.inside, fun ht => ⟨h.tag, ht⟩⟩

/-! ### The two runs -/

theorem isolated_of_ok {m : Compilation δ α} {s t : CompilationState δ}
    (h : m { s with script := .empty } = (.ok a, t)) :
    isolated m s = (.ok (a, t.script), { t with script := s.script }) :=
  isolated_eq_ok.2 ⟨h, rfl⟩

/-- Behind what stands inside, the commands are added unless interfaces are missing that are asked for. -/
theorem Inside.management_eq {s t : CompilationState δ} (h : Inside grammar D base s seen t)
    (native : Bool) :
    management grammar D base native s =
      if native && !seen.contains .managementInterfaces then
        (.error (.missingElement ["management-interfaces"] t.cursor.position),
          { t with script := s.script })
      else (do
        extend t.script
        succeed .managementCompiled "Management element translated"
          [("namespace", grammar.uri), ("operations", toString t.script.size)] :
          Compilation δ Unit) { t with script := s.script } := by
  rw [management, bind_apply, (requireNoAttributes_eq_ok (u := ())).2 ⟨h.tag, rfl⟩]
  simp only
  rw [emit_bind, bind_apply, isolated_of_ok h.content]
  simp only
  split
  · rfl
  · rfl

/-- What stands inside is compiled, or the compilation fails whatever is asked for. -/
theorem inside_or_error (grammar : GrammarNamespace) (D : Delegate δ) (base : Address)
    (s : CompilationState δ) :
    (∃ seen t, Inside grammar D base s seen t) ∨
      ∃ e s', ∀ native, management grammar D base native s = (.error e, s') := by
  cases ha : s.cursor.attributes with
  | cons a as =>
    refine .inr ⟨.unexpectedAttribute a.localName s.cursor.localName s.cursor.position, s, ?_⟩
    intro native
    rw [management, bind_apply, requireNoAttributes, getCursor_bind, ha]
    rfl
  | nil =>
    cases hc : forChildren grammar .empty (managementChild grammar D
        (base.append "core-service" "management")) (opening grammar s) with
    | mk result t =>
      cases result with
      | ok seen => exact .inl ⟨seen, t, ha, hc⟩
      | error e => exact .inr ⟨e, _, fun _ => management_of_opening_error ha hc⟩

theorem Inside.requiring_eq {s t : CompilationState δ} (h : Inside grammar D base s seen t)
    (ht : TakesInterfaces grammar D base s) :
    management grammar D base true s = management grammar D base false s := by
  rw [h.management_eq true, h.management_eq false, h.takes_iff.1 ht]
  rfl

theorem Inside.misses {s t : CompilationState δ} (h : Inside grammar D base s seen t)
    (hn : ¬ TakesInterfaces grammar D base s) :
    MissesInterfaces s (management grammar D base true s) := by
  have hseen : seen.contains .managementInterfaces = false := by
    rw [← Bool.not_eq_true, ← h.takes_iff]
    exact hn
  refine ⟨{ t with script := s.script }, ?_, rfl⟩
  rw [h.management_eq true, hseen]
  rfl

/-- Where nothing is asked for, the element fails only for want of room. -/
theorem Inside.overflows {s t s' : CompilationState δ} (h : Inside grammar D base s seen t)
    (he : management grammar D base false s = (.error e, s')) : Overflows grammar D base s := by
  refine ⟨seen, t, h, Nat.lt_of_not_le fun hroom => ?_⟩
  obtain ⟨s₁, hs⟩ := ({ t with script := s.script } : CompilationState δ).exists_after
    (fun _ => hroom) t.cursor [(LogEvent.success .managementCompiled
      "Management element translated").withFacts
        [("namespace", grammar.uri), ("operations", toString t.script.size)]]
  have hok := (h.management_eq false).trans (extend_succeed_eq_ok.2 ⟨hroom, hs⟩)
  cases he.symm.trans hok

theorem Overflows.limitExceeded {s : CompilationState δ} (h : Overflows grammar D base s) :
    (management grammar D base false s).1 =
      .error (.limitExceeded CompilationError.commandList Limits.commands) := by
  obtain ⟨seen, t, h, hfull⟩ := h
  rw [h.management_eq false, Bool.false_and, if_neg Bool.false_ne_true, bind_apply,
    extend_of_full (s := { t with script := s.script }) hfull]

/-- Missing interfaces are found before missing room. -/
theorem Overflows.changes_error {s : CompilationState δ} (h : Overflows grammar D base s)
    (hn : ¬ TakesInterfaces grammar D base s) :
    ¬ ∀ e s', management grammar D base false s = (.error e, s') →
      management grammar D base true s = (.error e, s') := by
  intro hsame
  obtain ⟨seen, t, hinside, _⟩ := id h
  obtain ⟨_, hmissing, _⟩ := hinside.misses hn
  cases hmissing.symm.trans (hsame _ _ (Prod.ext h.limitExceeded rfl))

theorem management_requiring_eq_ok {s s' : CompilationState δ} :
    management grammar D base true s = (.ok (), s') ↔
      management grammar D base false s = (.ok (), s') ∧ TakesInterfaces grammar D base s := by
  rcases inside_or_error grammar D base s with ⟨seen, t, h⟩ | ⟨e, s₁, he⟩
  · by_cases ht : TakesInterfaces grammar D base s
    · rw [h.requiring_eq ht, and_iff_left ht]
    · obtain ⟨_, hm, _⟩ := h.misses ht
      rw [hm]
      exact ⟨nofun, fun hboth => absurd hboth.2 ht⟩
  · rw [he true, he false]
    exact ⟨nofun, fun hboth => nomatch hboth.1⟩

theorem misses_of_management {s s' : CompilationState δ}
    (h : management grammar D base false s = (.ok (), s'))
    (hn : ¬ TakesInterfaces grammar D base s) :
    MissesInterfaces s (management grammar D base true s) := by
  rcases inside_or_error grammar D base s with ⟨seen, t, hinside⟩ | ⟨e, s₁, he⟩
  · exact hinside.misses hn
  · cases h.symm.trans (he false)

theorem management_requiring_eq_error {s s' : CompilationState δ}
    (h : management grammar D base false s = (.error e, s'))
    (ht : Overflows grammar D base s → TakesInterfaces grammar D base s) :
    management grammar D base true s = (.error e, s') := by
  rcases inside_or_error grammar D base s with ⟨seen, t, hinside⟩ | ⟨e, s₁, he⟩
  · rw [hinside.requiring_eq (ht (hinside.overflows h)), h]
  · rw [he true, ← he false, h]

end Compilation

namespace Run

open Compilation

theorem Gives.not_required {r : Request} (h : Gives r source result) :
    r.options.compilation.requireNativeInterface = false := by
  obtain ⟨_, _, hcompiled⟩ := h.exists_management
  exact hcompiled.native

/-- Asking for management interfaces only refuses elements: those that compile and whose interfaces no
delegate takes. What is compiled is the same as without it, and so is the error, except that missing
interfaces are found before missing room. A run asks no delegate, and none of them that asks for
interfaces succeeds. -/
theorem requirement_only_refuses :
    (∀ {δ : Type} (grammar : GrammarNamespace) (D : Delegate δ) (base : Address)
        (s : CompilationState δ),
      let run native := management grammar D base native s
      (∀ s', run true = (.ok (), s') ↔
        run false = (.ok (), s') ∧ TakesInterfaces grammar D base s) ∧
      (∀ s', run false = (.ok (), s') → ¬ TakesInterfaces grammar D base s →
        MissesInterfaces s (run true)) ∧
      (∀ e s', run false = (.error e, s') →
        (Overflows grammar D base s → TakesInterfaces grammar D base s) →
        run true = (.error e, s')) ∧
      (Overflows grammar D base s →
        (run false).1 = .error (.limitExceeded CompilationError.commandList 50000) ∧
        (¬ TakesInterfaces grammar D base s → MissesInterfaces s (run true)))) ∧
    ∀ r : Request, r.options.compilation.requireNativeInterface = true →
      (∀ source result, (ofSource r source).outcome.1 ≠ .ok result) ∧
      ∀ path entry result, (ofEntry r path entry).outcome.1 ≠ .ok result := by
  refine ⟨?_, ?_⟩
  · intro δ grammar D base s run
    refine ⟨fun s' => management_requiring_eq_ok, fun s' => misses_of_management,
      fun e s' => management_requiring_eq_error, fun hfull => ⟨hfull.limitExceeded, ?_⟩⟩
    obtain ⟨seen, t, hinside, _⟩ := hfull
    exact hinside.misses
  · intro r hr
    have hnever {source result} (h : Gives r source result) : False := by
      rw [h.not_required] at hr
      cases hr
    refine ⟨fun source result h => hnever (.text h), fun path entry result h => ?_⟩
    obtain ⟨place, bytes, source, rfl, hb, _⟩ := ofEntry_eq_ok h
    exact hnever (.file hb h)

end Run

namespace Compilation

/-! ### A list without room -/

namespace FullSample

def command : Command := ⟨.root, .empty⟩

/-- As many commands as a list has room for. -/
def script : Script := ⟨Array.replicate Limits.commands command⟩

/-- The element of a realm behind a list without room. -/
def state : CompilationState Unit := RealmSample.state script

theorem overflows_of_le {script : Script} (h : Limits.commands ≤ script.size) :
    Overflows .domain42 .declining .root (RealmSample.state script) := by
  obtain ⟨_, hs⟩ := RealmSample.compiles
  obtain ⟨seen, t, hcontent, _⟩ := opening_of_management hs
  have hinside : Inside .domain42 .declining .root (RealmSample.state script) seen t :=
    ⟨rfl, hcontent⟩
  obtain ⟨_, hspans⟩ := RealmSample.spans script
  have htwo : (RealmSample.management.commands .root).length = 2 := by decide
  have hfit : (RealmSample.management.commands .root).length ≤ Limits.commands := by decide
  have hfull : Limits.commands < script.size + (RealmSample.management.commands .root).length := by
    omega
  have herror := management_eq_limitExceeded hspans RealmSample.isManagement hfit hfull
  exact hinside.overflows (Prod.ext herror rfl)

theorem overflows : Overflows .domain42 .declining .root state :=
  overflows_of_le (Nat.le_of_eq Array.size_replicate.symm)

end FullSample

/-- Behind a list without room, an element without interfaces fails in one way, and in another where
interfaces are asked for. -/
theorem requirement_changes_error :
    ¬ ∀ e s', management .domain42 .declining .root false FullSample.state = (.error e, s') →
      management .domain42 .declining .root true FullSample.state = (.error e, s') :=
  FullSample.overflows.changes_error fun h => not_takesAmong_declining h.inside

end Compilation

namespace Run

open Compilation

/-- The request of the empty document, where interfaces are asked for. -/
def requiring : Request :=
  { EmptySample.request with options := EmptySample.request.options.requiringNativeInterface }

theorem requirement_only_refuses_samples :
    (∃ s', management .domain42 DelegateSample.delegate .root false DelegateSample.taken =
        (.ok (), s') ∧
      TakesInterfaces .domain42 DelegateSample.delegate .root DelegateSample.taken) ∧
    MissesInterfaces (RealmSample.state .empty)
      (management .domain42 .declining .root true (RealmSample.state .empty)) ∧
    (management .domain42 DelegateSample.delegate .root true DelegateSample.refused).1 =
      .error (.unexpectedElement "audit-log" DelegateSample.auditLog.cursor.position) ∧
    (management .domain42 .declining .root false FullSample.state).1 =
      .error (.limitExceeded CompilationError.commandList 50000) ∧
    ∀ result, (ofSource requiring EmptySample.source).outcome.1 ≠ .ok result := by
  obtain ⟨hdelegate, hrun⟩ := requirement_only_refuses
  refine ⟨?_, ?_, ?_, ?_, (hrun requiring rfl).1 EmptySample.source⟩
  · obtain ⟨s', hs, _⟩ := DelegateSample.compiles
    exact ⟨s', ((hdelegate .domain42 _ .root DelegateSample.taken).1 s').1 hs⟩
  · obtain ⟨s', hs⟩ := RealmSample.compiles
    exact (hdelegate .domain42 .declining .root _).2.1 s' hs fun h =>
      not_takesAmong_declining h.inside
  · have hrefused : (management .domain42 DelegateSample.delegate .root false
        DelegateSample.refused).1 =
          .error (.unexpectedElement "audit-log" DelegateSample.auditLog.cursor.position) :=
      management_of_declined DelegateSample.fair DelegateSample.offers rfl rfl
    have hsame := (hdelegate .domain42 _ .root DelegateSample.refused).2.2.1 _ _
      (Prod.ext hrefused rfl) fun hfull => nomatch hrefused.symm.trans hfull.limitExceeded
    exact congrArg Prod.fst hsame
  · exact ((hdelegate .domain42 .declining .root _).2.2.2 FullSample.overflows).1

end Run

end ManagementScript
