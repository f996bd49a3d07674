import ManagementScript.Proofs.Compilation.Atomicity
import ManagementScript.Proofs.Compilation.Intrusion
import ManagementScript.Proofs.Management.Semantics

/-!
Nothing that is not of the grammar is passed over. Where a management element is compiled, it is not
compiled any more once one such thing is put into it.
-/

namespace ManagementScript.Compilation

theorem refuses_children {grammar : GrammarNamespace} (address : Address)
    {s s' t : CompilationState Unit} {d : Cursor}
    (h : forChildren grammar ElementSet.empty (managementChild grammar .declining address) s =
      (.ok seen, s'))
    (hd : s.cursor.Encloses nodes d) (hst : Alike grammar d.pending.length s t) :
    ∃ err t', forChildren grammar ElementSet.empty (managementChild grammar .declining address) t =
      (.error err, t') ∧ err.IsRefusal := by
  have hscans : Scans Construct.Regular grammar .content
      (forChildren grammar ElementSet.empty (managementChild grammar .declining address)) :=
    .children (.managementChild address) fun _ => refusesConstruct_unexpectedElement
  have hfares := hscans.fares h hst
  generalize forChildren grammar ElementSet.empty (managementChild grammar .declining address) t =
    outcome at hfares ⊢
  cases hfares with
  | error he => exact ⟨_, _, rfl, he⟩
  | ok h₁ =>
    -- All of the element is read, and what spoils it lies before its end.
    obtain ⟨_, hn⟩ := hscans.encloses h
    obtain ⟨-, rfl⟩ := hd.unique hn
    have hlt := h₁.spoiled.lt_length
    rw [Cursor.ahead, List.length_map] at hlt
    exact absurd hlt (Nat.lt_irrefl _)

theorem managementScript_refuses {grammar : GrammarNamespace} {base : Address}
    {s s' t : CompilationState Unit} (h : managementScript grammar base s = (.ok r, s'))
    (he : s.cursor.Spans e d) (hg : e.Gains grammar e') (ht : t.cursor.Faces e') :
    ∃ err t', managementScript grammar base t = (.error err, t') ∧ err.IsRefusal := by
  have hattributes : t.cursor.attributes = e'.attributes := by rw [ht.start, Cursor.element]
  obtain ⟨behind, hahead⟩ := ht.inside
  obtain ⟨-, -, hunknown | ⟨hsame, hinside⟩⟩ := hg.spoils (n := d.pending.length)
  · obtain ⟨err, herr, hkind⟩ := requireNoAttributes_unexpectedConstruct (hattributes ▸ hunknown)
    rw [managementScript, bind_apply, herr]
    exact ⟨err, t, rfl, .inl hkind⟩
  · have hlength : d.ahead.length = d.pending.length := List.length_map ..
    have hspoiled := hinside d.ahead behind (Nat.le_of_eq hlength.symm)
    have hbefore : s.cursor.ahead = e.tokensInside.map some ++ d.ahead := he.inside.ahead
    rw [← hbefore, ← hahead] at hspoiled
    have hattrs : e.attributes = s.cursor.attributes := by rw [he.start, Cursor.element]
    obtain ⟨u, s₁, hnone, hrest⟩ := bind_eq_ok.1 h
    obtain ⟨hnone, rfl⟩ := requireNoAttributes_eq_ok.1 hnone
    rw [emit_bind] at hrest
    obtain ⟨hchildren, -⟩ := isolated_eq_ok.1 hrest
    have hnone' : requireNoAttributes t = (.ok u, t) :=
      requireNoAttributes_eq_ok.2 ⟨by rw [hattributes, hsame, hattrs, hnone], rfl⟩
    rw [managementScript, bind_apply, hnone']
    simp only [emit_bind]
    generalize t.events.push _ = entered
    have halike (events : Array LogEvent) : Alike grammar d.pending.length
        { s₁ with script := .empty, events } { t with script := .empty, events := entered } :=
      ⟨rfl, by rw [hattributes, hsame, hattrs], hspoiled⟩
    obtain ⟨err, t', herr, hrefusal⟩ := refuses_children _ hchildren he.inside (halike _)
    refine ⟨err, { t' with script := t.script }, ?_, hrefusal⟩
    simp only [isolated, herr]

/-- A management element that is compiled and then gains an attribute or a child that is not of the
grammar, anywhere in it, is refused as an unexpected construct, unless a limit of the reader is
passed, and nothing is added. The reader passes no limit where it can read the element to its end. -/
theorem management_refuses_unknown {grammar : GrammarNamespace} {base : Address} {native : Bool}
    {s s' t : CompilationState Unit}
    (h : management grammar .declining base native s = (.ok (), s')) (he : s.cursor.Spans e d)
    (hg : e.Gains grammar e') (ht : t.cursor.Faces e') :
    ∃ err t', management grammar .declining base native t = (.error err, t') ∧ err.IsRefusal ∧
      (∀ d', t.cursor.Spans e' d' → err.kind = .unexpectedConstruct) ∧ t'.script = t.script := by
  rw [management_eq] at h
  obtain ⟨r, s₁, hscript, -⟩ := bind_eq_ok.1 h
  obtain ⟨err, t', herr, hrefusal⟩ := managementScript_refuses hscript he hg ht
  have hfails : management grammar .declining base native t = (.error err, t') := by
    rw [management_eq, bind_apply, herr]
  refine ⟨err, t', hfails, hrefusal, fun d' hd => ?_, ?_⟩
  · have hne := (Scans.management base native).ne_reader hd.inside hfails
    rcases hrefusal with hkind | ⟨r, he, -⟩
    · exact hkind
    · exact absurd he (hne r)
  · have hkeeps := atomic_management grammar .declining base native t
    rw [hfails] at hkeeps
    exact hkeeps

/-! ### A realm whose secret has a child -/

namespace IntrusionSample

open RealmSample (element node tags cursor)

def intruder : Element := element "hint" [] []

def secret : Element := { RealmSample.secret with content := [node intruder] }

def identities : Element := { RealmSample.identities with content := [node secret] }

def realm : Element := { RealmSample.realm with content := [node identities] }

def realms : Element := { RealmSample.realms with content := [node realm] }

def management : Element := { RealmSample.management with content := [node realms] }

def state : CompilationState Unit where
  cursor := cursor ["management"] [] <|
    tags "security-realms" "" (tags "security-realm" " name='r'"
      (tags "server-identities" "" (tags "secret" " value='s'" (tags "hint" "" [])))) ++
    [.finish 0 ⟨.ok none, "management"⟩]
  script := .empty
  delegate := ()
  events := #[]

theorem spans : ∃ d, state.cursor.Spans management d := by
  apply Exists.intro
  apply Cursor.Spans.mk rfl
  apply Cursor.Encloses.element (i := cursor ["security-realms", "management"] [] _) rfl (by rfl)
  · apply Cursor.Encloses.element rfl (by rfl)
      (i := cursor ["security-realm", "security-realms", "management"] realm.attributes _)
    · apply Cursor.Encloses.element rfl (by rfl)
        (i := cursor ["server-identities", "security-realm", "security-realms", "management"] [] _)
      · apply Cursor.Encloses.element rfl (by rfl) (i := cursor
          ["secret", "server-identities", "security-realm", "security-realms", "management"]
          secret.attributes _)
        · apply Cursor.Encloses.element rfl (by rfl) (i := cursor
            ["hint", "secret", "server-identities", "security-realm", "security-realms",
              "management"] [] _)
          · exact .finish rfl (by rfl)
          · exact .finish rfl (by rfl)
        · exact .finish rfl (by rfl)
      · exact .finish rfl (by rfl)
    · exact .finish rfl (by rfl)
  · exact .finish rfl (by rfl)

theorem gains_of_only {grammar : GrammarNamespace} {e e' : Element} (h : e.Gains grammar e')
    (f : Element) : Element.Gains grammar { f with content := [e.node] }
      { f with content := [e'.node] } := by
  have hinside : Element.Gains grammar { f with content := [] ++ e.node :: [] }
    { f with content := [] ++ e'.node :: [] } := .inside h
  exact hinside

theorem gains : RealmSample.management.Gains .domain42 management := by
  have hforeign : intruder.IsForeign .domain42 := .inr (by decide)
  have hchild : Element.Gains .domain42
      { secret with content := [] ++ ([].map .text ++ []) }
      { secret with content := [] ++ ([].map .text ++ intruder.node :: ([].map .text ++ [])) } :=
    .child intruder hforeign [] [] []
  have hsecret : RealmSample.secret.Gains .domain42 secret := hchild
  have hidentities := gains_of_only hsecret RealmSample.identities
  have hrealm := gains_of_only hidentities RealmSample.realm
  have hrealms := gains_of_only hrealm RealmSample.realms
  exact gains_of_only hrealms RealmSample.management

end IntrusionSample

theorem management_refuses_hint : ∃ err t',
    management .domain42 .declining .root false IntrusionSample.state = (.error err, t') ∧
      err.kind = .unexpectedConstruct ∧ t'.script = .empty := by
  obtain ⟨d, hd⟩ := RealmSample.spans .empty
  obtain ⟨s', hs⟩ := RealmSample.compiles
  obtain ⟨d', hd'⟩ := IntrusionSample.spans
  obtain ⟨err, t', herr, _, hkind, hscript⟩ :=
    management_refuses_unknown hs hd IntrusionSample.gains hd'.faces
  exact ⟨err, t', herr, hkind d' hd', hscript⟩

end ManagementScript.Compilation
