import Mathlib
import ManagementScript.Proofs.Management.CommandTree

/-!
Which resources are added twice. The grammar names the children of every scope apart but the principals
of a server, so two commands for one address are those of principals with one name.
-/

namespace ManagementScript.Element

open Resource (Distinct)

theorem mem_kerberosIdentities {e k : Element} : k ∈ e.kerberosIdentities ↔
    ∃ realms ∈ e.ofKind .securityRealms, ∃ realm ∈ realms.children,
      ∃ part ∈ realm.ofKind .serverIdentities, k ∈ part.ofKind .kerberos := by
  simp only [kerberosIdentities, realmKerberos, List.mem_flatMap]

/-- The resources of an identity are below the management resource, three steps down. -/
theorem distinct_keytabs_of_resources {e k : Element} (h : Distinct shared e.resources)
    (hk : k ∈ e.kerberosIdentities) : Distinct shared (k.children.map keytab) := by
  obtain ⟨realms, hrealms, realm, hrealm, part, hpart, hkerberos⟩ := mem_kerberosIdentities.1 hk
  obtain ⟨hrealms, hrealmsKind⟩ := mem_ofKind.1 hrealms
  obtain ⟨hpart, hpartKind⟩ := mem_ofKind.1 hpart
  obtain ⟨hkerberos, hkerberosKind⟩ := mem_ofKind.1 hkerberos
  have hrealm : realm.securityRealm ∈ e.resources := by
    refine List.mem_flatMap.2 ⟨realms, hrealms, ?_⟩
    simp only [managementPart, hrealmsKind]
    exact List.mem_map_of_mem hrealm
  have hidentity : k.serverIdentity ∈ realm.securityRealm.children := by
    refine List.mem_flatMap.2 ⟨part, hpart, ?_⟩
    simp only [realmPart, hpartKind]
    exact List.mem_map_of_mem hkerberos
  have hinside := (h.inside hrealm).inside hidentity
  simp only [serverIdentity, hkerberosKind] at hinside
  exact hinside

theorem distinct_resources_iff (h : IsManagement grammar e) :
    Distinct (fun _ => False) e.resources ↔
      ∀ k ∈ e.kerberosIdentities, k.children.Pairwise (Unlike .principal) := by
  apply Iff.intro
  · intro hd k hk
    have hp := List.pairwise_map.1 (distinct_keytabs_of_resources hd hk).here
    apply hp.imp
    intro c d hcd he
    exact (hcd (congrArg (Segment.mk "keytab") he)).2
  · intro hk
    exact distinct_resources h hk

end ManagementScript.Element

namespace ManagementScript.Compilation

/-- Two commands that are added for one address are those of principals. No address is added to twice
exactly if the principals of each server have different names. -/
theorem management_adds_distinct {grammar : GrammarNamespace} {base : Address} {native : Bool}
    {s s' : CompilationState Unit}
    (h : management grammar .declining base native s = (.ok (), s')) :
    ∃ e d commands, s.cursor.Spans e d ∧ s'.script.toList = s.script.toList ++ commands ∧
      (commands.Pairwise fun c c' => c.address = c'.address → c.kind = "keytab") ∧
      ((commands.map (·.address)).Nodup ↔
        ∀ k ∈ e.kerberosIdentities, k.children.Pairwise (Element.Unlike .principal)) := by
  obtain ⟨e, d, hspans, he, _, _, hs⟩ := management_eq_ok_iff.1 h
  refine ⟨e, d, e.commands base, hspans, hs.script.toList, ?_, ?_⟩
  · apply ((Element.distinct_resources_keytabs he).pairwise _).imp
    intro c c' hcc' heq
    obtain ⟨s, hlast, hkey⟩ := hcc' heq
    rw [Command.kind, hlast]
    exact hkey
  · exact Resource.nodup_addresses_iff.trans (Element.distinct_resources_iff he)

theorem management_adds_distinct_realm : ∃ s' commands,
    management .domain42 .declining .root false (RealmSample.state .empty) = (.ok (), s') ∧
      s'.script.toList = commands ∧
      commands.Pairwise fun c c' => c.address = c'.address → c.kind = "keytab" := by
  obtain ⟨s', hs⟩ := RealmSample.compiles
  obtain ⟨_, _, commands, _, hc, hp, _⟩ := management_adds_distinct hs
  exact ⟨s', commands, hs, hc, hp⟩

/-! ### A server with a principal given twice -/

namespace KeytabSample

open RealmSample (tags)

def state : CompilationState Unit where
  cursor := RealmSample.cursor ["management"] [] <|
    tags "security-realms" "" (tags "security-realm" " name='r'"
      (tags "server-identities" "" (tags "kerberos" ""
        (tags "keytab" " principal='p' path='a'" [] ++
          tags "keytab" " principal='p' path='b'" [])))) ++
    [.finish 0 ⟨.ok none, "management"⟩]
  script := .empty
  delegate := ()
  events := #[]

def kerberos : Address :=
  ⟨[⟨"core-service", "management"⟩, ⟨"security-realm", "r"⟩, ⟨"server-identity", "kerberos"⟩]⟩

theorem compiles : (management .domain42 .declining .root false state).1 = .ok () := by cbv

theorem keytabs : ((management .domain42 .declining .root false state).2.script.toList.drop 2).map
    (·.address) = [kerberos.append "keytab" "p", kerberos.append "keytab" "p"] := by cbv

end KeytabSample

/-- The grammar lets a principal be given twice, and then its resource is added twice. -/
theorem management_adds_keytab_twice : ∃ s' : CompilationState Unit,
    management .domain42 .declining .root false KeytabSample.state = (.ok (), s') ∧
      ¬∃ commands, s'.script.toList = KeytabSample.state.script.toList ++ commands ∧
        (commands.map (·.address)).Nodup := by
  have hempty : KeytabSample.state.script.toList = [] := rfl
  have hok := KeytabSample.compiles
  have hk := KeytabSample.keytabs
  generalize management .domain42 .declining .root false KeytabSample.state = outcome at hok hk ⊢
  obtain ⟨result, s'⟩ := outcome
  have hok : result = .ok () := hok
  refine ⟨s', by rw [hok], ?_⟩
  intro h
  obtain ⟨commands, hc, hn⟩ := h
  rw [hc, hempty, List.nil_append, List.map_drop] at hk
  have hsub := hn.sublist (List.drop_sublist 2 _)
  rw [hk] at hsub
  simp at hsub

end ManagementScript.Compilation
