import Mathlib
import ManagementScript.Proofs.Compilation.Consumption

/-!
The compilations of the management element and of everything in it take exactly the element that they
are begun on: they end on the end tag that closes it, with what follows that tag before them. A
document that ends early is reported by the reader, at its end and inside the innermost open element.
-/

namespace ManagementScript

namespace Cursor

/-- The cursor is on a start tag of the document, that of the innermost open element, and reads on
behind it. -/
structure OnStart (source : String) (name : Xml.ResolvedName) (c : Cursor) : Prop where
  lines : c.lines = .ofString source
  opened : c.opened.head? = some name.localName
  ahead : ∃ past offset tag scope,
    Xml.events source = past ++ .start offset name tag scope :: c.pending

/-- From the start tag that `c` is on, everything was read up to the end tag that closes it, which
`d` is on. What is not read follows that end tag. -/
structure Closes (name : Xml.ResolvedName) (c d : Cursor) : Prop where
  balanced : ∃ inside offset, c.pending = inside ++ .finish offset name :: d.pending ∧
    Xml.Balanced inside ∧ d.position = d.lines.positionAt offset
  localName : d.localName = name.localName
  opened : d.opened = c.opened.tail
  depth : d.depth = c.depth - 1

theorem OnStart.closes {c d : Cursor} (h : c.OnStart source name) (hn : c.Encloses nodes d) :
    c.Closes name d := by
  obtain ⟨past, offset, tag, scope, he⟩ := h.ahead
  have hf := Xml.events_follows source
  rw [he] at hf
  obtain ⟨state, hf⟩ := hf.of_append
  cases hf with
  | start hf =>
    obtain ⟨inside, offset, hp, hb, _, hname, hpos⟩ := hn.balanced hf rfl
    obtain ⟨ho, _⟩ := hn.moves
    exact ⟨⟨inside, offset, hp, hb, hpos⟩, hname, ho, by rw [depth, ho, List.length_tail]; rfl⟩

end Cursor

namespace Compilation

/-- The compilations that are begun on the start tag of what they compile. -/
inductive Translator (grammar : GrammarNamespace) : {α : Type} → Compilation Unit α → Prop where
  | management (base : Address) (native : Bool) :
      Translator grammar (management grammar .declining base native)
  | managementChild (address : Address) (seen : ElementSet) (element : ElementName) :
      Translator grammar (managementChild grammar .declining address seen element)
  | securityRealms (address : Address) : Translator grammar (securityRealms grammar address)
  | securityRealm (address : Address) (names : NameSet) :
      Translator grammar (securityRealm grammar address names)
  | realmContent (realm : Address) : Translator grammar (realmContent grammar realm)
  | plugIns (realm : Address) : Translator grammar (plugIns grammar realm)
  | plugIn (realm : Address) (modules : NameSet) : Translator grammar (plugIn realm modules)
  | leaf (construct : Construct) (address : Address) : Translator grammar (leaf construct address)
  | partOf (construct : Construct) (ps : Parameters) : Translator grammar (partOf construct ps)
  | serverIdentities (realm : Address) : Translator grammar (serverIdentities grammar realm)
  | ssl (realm : Address) : Translator grammar (ssl grammar realm)
  | kerberosIdentity (realm : Address) : Translator grammar (kerberosIdentity grammar realm)
  | keytab (kerberos : Address) : Translator grammar (keytab kerberos)
  | authentication (realm : Address) : Translator grammar (authentication grammar realm)
  | authenticationSource (realm : Address) (element : ElementName) :
      Translator grammar (authenticationSource grammar realm element)
  | users (realm : Address) : Translator grammar (users grammar realm)
  | user (address : Address) (names : NameSet) : Translator grammar (user grammar address names)
  | password : Translator grammar (password grammar)
  | plugInSource (address : Address) (withMechanism : Bool) :
      Translator grammar (plugInSource grammar address withMechanism)
  | ldapAuthentication (realm : Address) : Translator grammar (ldapAuthentication grammar realm)
  | authorization (realm : Address) : Translator grammar (authorization grammar realm)
  | ldapAuthorization (realm : Address) : Translator grammar (ldapAuthorization grammar realm)
  | usernameToDn (ldap : Address) : Translator grammar (usernameToDn grammar ldap)
  | groupSearch (ldap : Address) : Translator grammar (groupSearch grammar ldap)
  | groupToPrincipal (ps : Parameters) : Translator grammar (groupToPrincipal grammar ps)
  | cache : Translator grammar cache
  | properties (owner : Address) (valueRequired : Bool) :
      Translator grammar (properties grammar owner valueRequired)
  | onlyProperties (owner : Address) (valueRequired : Bool) :
      Translator grammar (onlyProperties grammar owner valueRequired)
  | property (owner : Address) (valueRequired : Bool) (names : NameSet) :
      Translator grammar (property owner valueRequired names)
  | outboundConnections (address : Address) :
      Translator grammar (outboundConnections grammar address)
  | ldapConnection (address : Address) (names : NameSet) :
      Translator grammar (ldapConnection grammar address names)

theorem Translator.scans {grammar : GrammarNamespace} {α : Type} {m : Compilation Unit α}
    (h : Translator grammar m) : ∃ admits stage, Scans admits grammar stage m := by
  cases h with
  | management base native => exact ⟨_, _, .management base native⟩
  | managementChild address seen element => exact ⟨_, _, .managementChild address seen element⟩
  | securityRealms address => exact ⟨_, _, .securityRealms address⟩
  | securityRealm address names => exact ⟨_, _, .securityRealm address names⟩
  | realmContent realm => exact ⟨_, _, .realmContent realm⟩
  | plugIns realm => exact ⟨_, _, .plugIns realm⟩
  | plugIn realm modules => exact ⟨_, _, .plugIn realm modules⟩
  | leaf construct address => exact ⟨fun _ => True, _, .leaf trivial address⟩
  | partOf construct ps => exact ⟨fun _ => True, _, .partOf trivial ps⟩
  | serverIdentities realm => exact ⟨_, _, .serverIdentities realm⟩
  | ssl realm => exact ⟨_, _, .ssl realm⟩
  | kerberosIdentity realm => exact ⟨_, _, .kerberosIdentity realm⟩
  | keytab kerberos => exact ⟨_, _, .keytab kerberos⟩
  | authentication realm => exact ⟨_, _, .authentication realm⟩
  | authenticationSource realm element => exact ⟨_, _, .authenticationSource realm element⟩
  | users realm => exact ⟨_, _, .users realm⟩
  | user address names => exact ⟨_, _, .user address names⟩
  | password => exact ⟨_, _, .password⟩
  | plugInSource address withMechanism => exact ⟨_, _, .plugInSource address withMechanism⟩
  | ldapAuthentication realm => exact ⟨_, _, .ldapAuthentication realm⟩
  | authorization realm => exact ⟨_, _, .authorization realm⟩
  | ldapAuthorization realm => exact ⟨_, _, .ldapAuthorization realm⟩
  | usernameToDn ldap => exact ⟨_, _, .usernameToDn ldap⟩
  | groupSearch ldap => exact ⟨_, _, .groupSearch ldap⟩
  | groupToPrincipal ps => exact ⟨_, _, .groupToPrincipal ps⟩
  | cache => exact ⟨_, _, .cache⟩
  | properties owner valueRequired => exact ⟨_, _, .properties owner valueRequired⟩
  | onlyProperties owner valueRequired => exact ⟨_, _, .onlyProperties owner valueRequired⟩
  | property owner valueRequired names => exact ⟨_, _, .property owner valueRequired names⟩
  | outboundConnections address => exact ⟨_, _, .outboundConnections address⟩
  | ldapConnection address names => exact ⟨_, _, .ldapConnection address names⟩

/-- The error and the cursor that are left where a move inside an element finds the document at its
end as such. Nothing is compiled behind it. -/
def EndMet (e : CompilationError) (c : Cursor) : Prop :=
  ∃ t t' : CompilationState Unit, t.cursor.next.1 = .ok .endOfDocument ∧
    nextInside t = (.error e, t') ∧ t'.cursor = c

theorem EndMet.opened_eq_nil (h : EndMet e c) :
    c.opened = [] ∧ ∃ innermost p, e = .reader (.unexpectedEnd innermost p) := by
  obtain ⟨t, t', hn, hm, rfl⟩ := h
  have hnext : t.cursor.next = (.ok .endOfDocument, t.cursor.next.2) := Prod.ext hn rfl
  have hmove : move Cursor.next t = (.ok .endOfDocument, { t with cursor := t.cursor.next.2 }) :=
    move_eq_ok.2 ⟨_, hnext, CompilationState.after_nil_iff.2 rfl⟩
  rw [nextInside, bind_apply, hmove] at hm
  cases hm
  exact ⟨(Cursor.opened_eq_nil_of_next hnext).2, _, _, rfl⟩

/-- Begun on a start tag, a compilation that succeeds ends on the end tag that closes the element, at
the depth around it and with everything behind that tag unread. None ever meets the end of the
document as such: where the document ends early the error is that of the reader, at the end of the
document, and names the innermost of the open elements. -/
theorem translator_consumes_element {grammar : GrammarNamespace} {α : Type} {m : Compilation Unit α}
    (h : Translator grammar m) {s : CompilationState Unit} (hs : s.cursor.OnStart source name) :
    match m s with
    | (.ok _, s') => s.cursor.Closes name s'.cursor
    | (.error e, s') => ¬EndMet e s'.cursor ∧
      ∀ innermost p, e = .reader (.unexpectedEnd innermost p) →
        p = (LineIndex.ofString source).finish ∧ s'.cursor.pending = [] ∧
          s'.cursor.opened.head? = some innermost ∧ s.cursor.depth ≤ s'.cursor.depth := by
  obtain ⟨_, stage, hscans⟩ := h.scans
  have hopen : s.cursor.opened ≠ [] := by
    intro ho
    have := hs.opened
    rw [ho] at this
    cases this
  split
  · next hm =>
    obtain ⟨nodes, hn⟩ := hscans.encloses hm
    exact hs.closes hn
  · next e s' hm =>
    apply And.intro
    · intro hmet
      obtain ⟨hnil, innermost, p, rfl⟩ := hmet.opened_eq_nil
      have hsuffix := (hscans.endsEarly hopen hm).opened
      rw [hnil, List.suffix_nil] at hsuffix
      exact hopen hsuffix
    · rintro innermost p rfl
      have hends := hscans.endsEarly hopen hm
      obtain ⟨rfl, rfl⟩ := ReadError.unexpectedEnd.inj hends.error
      refine ⟨by rw [hs.lines], hends.pending, ?_, hends.opened.length_le⟩
      cases ho : s'.cursor.opened with
      | nil =>
        have hsuffix := hends.opened
        rw [ho, List.suffix_nil] at hsuffix
        exact absurd hsuffix hopen
      | cons innermost outer => rfl

namespace EmptySample

def source : String := "<management xmlns='urn:jboss:domain:4.2'/>"

def name : Xml.ResolvedName := ⟨.ok (some "urn:jboss:domain:4.2"), "management"⟩

def tag : Xml.TagText := ⟨"management".toList, " xmlns='urn:jboss:domain:4.2'".toList⟩

def scope : Xml.Scope := ⟨none, "urn:jboss:domain:4.2".toList⟩ :: Xml.Scope.initial

/-- The state on the first start tag of the document. -/
def state : CompilationState Unit := ⟨(Cursor.ofString source).next.2, .empty, (), #[]⟩

theorem events : Xml.events source = [.start 0 name tag scope, .finish 0 name] := by cbv

theorem onStart : state.cursor.OnStart source name where
  lines := by
    have hn : (Cursor.ofString source).next = (.ok .start, state.cursor) :=
      Prod.ext (by cbv) rfl
    exact (Cursor.next_start_moves hn).2
  opened := by cbv
  ahead := by
    have hp : state.cursor.pending = [.finish 0 name] := by cbv
    rw [hp, events]
    exact ⟨[], 0, tag, scope, rfl⟩

theorem compiles : (management .domain42 .declining .root false state).1 = .ok () := by cbv

end EmptySample

theorem management_consumes_empty : ∃ s' : CompilationState Unit,
    management .domain42 .declining .root false EmptySample.state = (.ok (), s') ∧
      EmptySample.state.cursor.Closes EmptySample.name s'.cursor := by
  have htranslator : Translator .domain42 (management .domain42 .declining .root false) :=
    .management .root false
  have h := translator_consumes_element htranslator EmptySample.onStart
  have hok := EmptySample.compiles
  generalize management .domain42 .declining .root false EmptySample.state = outcome at h hok ⊢
  obtain ⟨result, s'⟩ := outcome
  cases hok
  exact ⟨s', rfl, h⟩

end Compilation

end ManagementScript
