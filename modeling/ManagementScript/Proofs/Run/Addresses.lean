import ManagementScript.CommandLine
import ManagementScript.Proofs.Management.Naming
import ManagementScript.Proofs.Run.Results

/-!
The addresses of commands. Keys are words of the vocabulary; a step has no value only where an element of
the document is named by an attribute without text.
-/

namespace ManagementScript

theorem Element.keys_nonempty : ∀ key ∈ Element.keys, key ≠ "" := by decide

/-- A step below the management resource that has no value. -/
theorem Element.Places.exists_named {e : Element} (h : e.Places s) (hv : s.value = "") :
    ∃ d attr, e.Around d ∧ (d.kind, attr, s.key) ∈ namings ∧ d.attribute? attr = some "" := by
  cases h with
  | fixed _ hne => exact absurd hv hne
  | named hd hn ha => exact ⟨_, _, hd, hn, hv ▸ ha⟩

namespace Run

/-- The step of a host without a name. -/
def namelessHost : Segment := ⟨"host", ""⟩

theorem mem_base {o : RunOptions} (h : s ∈ o.base.segments) :
    ∃ host, o.compilation.hostName = some host ∧ s = ⟨"host", host⟩ := by
  rw [RunOptions.base] at h
  cases hh : o.compilation.hostName with
  | none =>
    rw [hh] at h
    cases h
  | some host =>
    rw [hh] at h
    exact ⟨host, rfl, List.mem_singleton.1 h⟩

theorem hostName_ofEnvironment (env : Environment) :
    (CompilationPreferences.ofEnvironment env).hostName ≠ some "" := by
  intro h
  have hfilter := (Option.filter_eq_some_iff.1 h).2
  revert hfilter
  decide

theorem hostName_options {i : Invocation} (h : i.host ≠ some "") (env : Environment) :
    (i.options (.ofEnvironment env)).compilation.hostName ≠ some "" := by
  cases hh : i.host with
  | none =>
    cases hn : i.requireNativeInterface with
    | false | true =>
      simp only [Invocation.options, hh, hn]
      exact hostName_ofEnvironment env
  | some host =>
    have hoption : (i.options (.ofEnvironment env)).compilation.hostName = some host := by
      cases hn : i.requireNativeInterface with
      | false | true =>
        simp only [Invocation.options, hh, hn]
        rfl
    rw [hoption, ← hh]
    exact h

/-- The environment gives no host without a name. In every address no key is empty, and neither is a
value, apart from that of a host and from those of elements whose name in the document is empty. -/
theorem address_steps_named :
    (∀ (env : Environment) (i : Invocation), i.host ≠ some "" →
      namelessHost ∉ (i.options (.ofEnvironment env)).base.segments) ∧
    ∀ {r : Request} {source : String} {result : RunResult}, Gives r source result →
      ∃ e, HasManagement source result.grammar e ∧
        ∀ c ∈ result.script.toList, ∀ s ∈ c.address.segments, s.key ≠ "" ∧
          (s ≠ namelessHost → s.value = "" → ∃ d attr, e.Around d ∧
            (d.kind, attr, s.key) ∈ Element.namings ∧ d.attribute? attr = some "") := by
  apply And.intro
  · intro env i hi hmem
    obtain ⟨host, hhost, hs⟩ := mem_base hmem
    obtain rfl : "" = host := (Segment.mk.inj hs).2
    exact hostName_options hi env hhost
  · intro r source result h
    obtain ⟨e, he, hcompiled⟩ := h.exists_management
    refine ⟨e, he, ?_⟩
    intro c hc s hs
    rw [show result.script.toList = e.commands r.options.base from hcompiled.script] at hc
    obtain ⟨path, _, hp, hplaces, _⟩ := Resource.throughout_of_mem_commandsOfAll _
      (Element.throughout_resources hcompiled.management) hc
    rw [hp, Address.append, List.append_assoc] at hs
    cases List.mem_append.1 hs with
    | inl hs =>
      obtain ⟨host, _, rfl⟩ := mem_base hs
      refine ⟨show "host" ≠ "" by decide, ?_⟩
      intro hne hv
      exact absurd (congrArg (Segment.mk "host") hv) hne
    | inr hs =>
      cases List.mem_cons.1 hs with
      | inl hs =>
        rw [hs]
        exact ⟨show "core-service" ≠ "" by decide, fun _ hv => absurd hv (by decide)⟩
      | inr hs =>
        obtain ⟨_, hmakes⟩ := hplaces s hs
        exact ⟨Element.keys_nonempty _ hmakes.place.key_mem, fun _ => hmakes.place.exists_named⟩

/-! ### A realm without a name -/

namespace NamelessSample

def source : String := "<management xmlns='urn:jboss:domain:4.2'><security-realms>" ++
  "<security-realm name=''/></security-realms></management>"

def addresses (r : RunResult) : List Address := r.script.toList.map (·.address)

theorem addresses_eq : (ofSource EmptySample.request source).outcome.1.toOption.map addresses =
    some [⟨[⟨"core-service", "management"⟩, ⟨"security-realm", ""⟩]⟩] := by
  cbv

theorem gives : ∃ result c, Gives EmptySample.request source result ∧ c ∈ result.script.toList ∧
    ⟨"security-realm", ""⟩ ∈ c.address.segments := by
  obtain ⟨result, hr, haddresses⟩ := Option.map_eq_some_iff.1 addresses_eq
  obtain ⟨c, hc, ha⟩ := List.map_eq_singleton_iff.1 haddresses
  refine ⟨result, c, .text (toOption_eq_some_iff.1 hr), hc ▸ List.mem_cons_self .., ?_⟩
  rw [ha]
  decide

end NamelessSample

/-- A variable without a text is no host, and the document has a realm whose name is empty. -/
theorem address_steps_named_realm :
    namelessHost ∉ (Invocation.options ⟨"d.xml", none, false, .text, none⟩
      (.ofEnvironment [("MGMT_HOST_NAME", "")])).base.segments ∧
    ∃ grammar e d, HasManagement NamelessSample.source grammar e ∧ e.Around d ∧
      d.kind = .securityRealm ∧ d.attribute? .name = some "" := by
  refine ⟨address_steps_named.1 _ _ (by decide), ?_⟩
  obtain ⟨result, c, hgives, hc, hs⟩ := NamelessSample.gives
  obtain ⟨e, he, hsteps⟩ := address_steps_named.2 hgives
  obtain ⟨d, attr, hd, hn, ha⟩ := (hsteps c hc _ hs).2 (by decide) rfl
  have hnaming : ∀ kind attr, (kind, attr, "security-realm") ∈ Element.namings →
      kind = .securityRealm ∧ attr = .name := by
    simp [Element.namings]
  obtain ⟨hk, rfl⟩ := hnaming _ _ hn
  exact ⟨_, e, d, he, hd, hk, ha⟩

theorem nameless_realm_added : ¬∀ (r : Request) (source : String) (result : RunResult),
    Gives r source result → ∀ c ∈ result.script.toList, ∀ s ∈ c.address.segments,
      s.key ≠ "" ∧ s.value ≠ "" := by
  intro h
  obtain ⟨result, c, hgives, hc, hs⟩ := NamelessSample.gives
  exact (h _ _ _ hgives c hc _ hs).2 rfl

end Run

end ManagementScript
