import ManagementScript.Proofs.Diagnostics.Collection
import ManagementScript.Proofs.Management.CommandTree

/-!
The successes that the log tells of when a management element is translated: one for each realm, one for
each connection, and one at the end. Their counts are those of the commands that were added.
-/

namespace ManagementScript

/-! ### The commands at an address and below it -/

/-- Whether an address is `a` itself or lies below it. -/
def Address.covers (a b : Address) : Bool := a == b || a.isStrictPrefixOf b

theorem Address.covers_iff {a b : Address} :
    a.covers b = true ↔ ∃ path, b.segments = a.segments ++ path := by
  rw [covers, Bool.or_eq_true, beq_iff_eq, isStrictPrefixOf_iff]
  apply Iff.intro
  · intro h
    rcases h with rfl | ⟨s, path, hpath⟩
    · exact ⟨[], (List.append_nil _).symm⟩
    · exact ⟨s :: path, hpath⟩
  · intro h
    obtain ⟨path, hpath⟩ := h
    cases path with
    | nil =>
      rw [List.append_nil] at hpath
      exact .inl (congrArg Address.mk hpath.symm)
    | cons s path => exact .inr ⟨s, path, hpath⟩

namespace Resource

/-- The address of a resource. -/
def addressBelow (r : Resource) (owner : Address) : Address := owner.append r.segment.key r.segment.value

theorem covers_own {r : Resource} {owner : Address} (h : c ∈ r.commands owner) :
    (r.addressBelow owner).covers c.address = true := by
  obtain ⟨path, hpath⟩ := address_of_mem_commands r h
  exact Address.covers_iff.2 ⟨path, by simp [hpath, addressBelow, Address.append]⟩

theorem segment_eq_of_covers {r r' : Resource} {owner : Address} (h : c ∈ r'.commands owner)
    (hc : (r.addressBelow owner).covers c.address = true) : r.segment = r'.segment := by
  obtain ⟨path, hpath⟩ := address_of_mem_commands r' h
  obtain ⟨path', hpath'⟩ := Address.covers_iff.1 hc
  rw [hpath, addressBelow, Address.append, List.append_assoc, List.append_cancel_left_eq] at hpath'
  exact (List.cons.inj hpath').1.symm

theorem countP_covers_of_ne {r : Resource} {rs : List Resource}
    (h : ∀ r' ∈ rs, r.segment ≠ r'.segment) (owner : Address) :
    (commandsOfAll owner rs).countP (fun c => (r.addressBelow owner).covers c.address) = 0 := by
  rw [List.countP_eq_zero]
  intro c hc hcovers
  obtain ⟨r', hr', hc⟩ := mem_commandsOfAll.1 hc
  exact h r' hr' (segment_eq_of_covers hc hcovers)

/-- Of the commands of resources in different places, those at the address of one of them and below it are
its own. -/
theorem countP_covers {rs : List Resource} (h : rs.Pairwise fun r r' => r.segment ≠ r'.segment)
    (hr : r ∈ rs) (owner : Address) :
    (commandsOfAll owner rs).countP (fun c => (r.addressBelow owner).covers c.address) =
      (r.commands owner).length := by
  obtain ⟨before, after, rfl⟩ := List.append_of_mem hr
  obtain ⟨-, hafter, hbefore⟩ := List.pairwise_append.1 h
  have hown : (r.commands owner).countP (fun c => (r.addressBelow owner).covers c.address) =
      (r.commands owner).length := List.countP_eq_length.2 fun c hc => covers_own hc
  have hfront := countP_covers_of_ne (fun r' hr' => (hbefore r' hr' r (List.mem_cons_self ..)).symm) owner
  have hback := countP_covers_of_ne (List.pairwise_cons.1 hafter).1 owner
  rw [commandsOfAll_append, commandsOfAll_cons, List.countP_append, List.countP_append, hfront, hown, hback,
    Nat.zero_add, Nat.add_zero]

end Resource

namespace Element

variable {grammar : GrammarNamespace} {e c d : Element}

/-- The resources of a management element are in different places: those that may share one are further
down. -/
theorem pairwise_segment_ne (h : e.IsManagement grammar) :
    e.resources.Pairwise fun r r' => r.segment ≠ r'.segment := by
  refine (distinct_resources_keytabs h).here.imp_of_mem ?_
  intro r r' hr _ hshared he
  obtain ⟨c, hc, hr⟩ := List.mem_flatMap.1 hr
  have hkey := key_of_mem_managementPart (h.inside.accepted c hc) hr
  obtain ⟨hk, -⟩ | ⟨hk, -⟩ | ⟨hk, -⟩ := kind_of_isManagementPart (h.inside.accepted c hc)
  all_goals
    rw [(hshared he).2, hk] at hkey
    exact absurd hkey (by decide)

theorem attribute?_name {construct : Construct} (h : construct.Accepts d)
    (hname : .name ∈ construct.required) : d.attribute? .name = some (d.nameBy .name) := by
  cases ha : d.attribute? .name with
  | some name => rw [nameBy, ha, Option.getD_some]
  | none =>
    obtain ⟨a, hmem, he⟩ := List.mem_map.1 (h.complete _ hname)
    exact absurd (beq_iff_eq.2 he.symm) (by simpa using List.lookup_eq_none_iff.1 ha a hmem)

end Element

/-! ### What an event tells -/

/-- The event tells of a success, and these facts about it. -/
structure LogEvent.Tells (event : LogEvent) (code : Code) (facts : List (String × String)) : Prop where
  level : event.level = .info
  code : event.code = code
  facts : ∀ fact ∈ facts, event.context.get? fact.1 = some fact.2

section

variable {event : LogEvent} {code : Code} {facts : List (String × String)}

namespace LogEvent

theorem Tells.mono {facts' : List (String × String)} (h : Tells event code facts)
    (hsub : facts' ⊆ facts) : Tells event code facts' :=
  ⟨h.level, h.code, fun fact hfact => h.facts fact (hsub hfact)⟩

/-- A fact of another name leaves the ones before as they are. -/
theorem Tells.withFact (h : Tells event code facts) (hname : name ∉ facts.map Prod.fst) (value : String) :
    Tells (event.withFact name value) code (facts ++ [(name, value)]) := by
  refine ⟨h.level, h.code, fun fact hfact => ?_⟩
  rcases List.mem_append.1 hfact with hfact | hfact
  · have hne : fact.1 ≠ name := fun he => hname (he ▸ List.mem_map_of_mem hfact)
    exact (Dictionary.get?_set_of_ne _ _ hne).trans (h.facts fact hfact)
  · rw [List.mem_singleton.1 hfact]
    exact Dictionary.get?_set_self ..

/-- A success tells the facts that it is given, if they have different names. -/
theorem tells_success (code : Code) (message : String) (h : (facts.map Prod.fst).Nodup) :
    Tells ((success code message).withFacts facts) code facts := by
  induction facts using List.reverseRecOn with
  | nil => exact ⟨rfl, rfl, List.forall_mem_nil _⟩
  | append_singleton facts fact ih =>
    rw [List.map_append, List.nodup_append] at h
    obtain ⟨hfacts, -, hne⟩ := h
    rw [withFacts, List.foldl_append]
    exact (ih hfacts).withFact (fun hmem => hne _ hmem _ (List.mem_singleton_self _) rfl) fact.2

end LogEvent

namespace Journal

variable {p : LoggingPreferences}

/-- The facts about the document have names of their own. -/
theorem tells_withDocumentFacts (h : LogEvent.Tells event code facts)
    (hpath : "document" ∉ facts.map Prod.fst) (hid : "document_id" ∉ facts.map Prod.fst)
    (document : Option DocumentContext) : (withDocumentFacts p document event).Tells code facts := by
  cases document with
  | none => exact h
  | some d =>
    simp only [withDocumentFacts]
    split
    · have hid' : "document_id" ∉ (facts ++ [("document", d.path)]).map Prod.fst := by
        simpa using hid
      exact ((h.withFact hpath d.path).withFact hid' _).mono fun fact hfact =>
        List.mem_append_left _ (List.mem_append_left _ hfact)
    · exact h

/-- What reaches the log of some events: those that are wanted, with the facts about the document. -/
def told (p : LoggingPreferences) (document : Option DocumentContext) (events : List LogEvent) :
    List LogEvent :=
  (events.filter fun event => !(event.level == .debug && p.effectiveLevel != .debug)).map
    (withDocumentFacts p document)

theorem logged_logAll (journal : Journal) (events : List LogEvent) :
    (journal.logAll p events).logged.toList = journal.logged.toList ++ told p journal.document events := by
  induction events generalizing journal with
  | nil => exact (List.append_nil _).symm
  | cons event events ih =>
    have hrest := ih (journal.log p event)
    rw [document_log] at hrest
    rw [logAll, List.foldl_cons]
    refine hrest.trans ?_
    rw [log, told, told]
    cases hskip : event.level == .debug && p.effectiveLevel != .debug with
    | true => rw [List.filter_cons_of_neg (by simp [hskip])]; rfl
    | false =>
      rw [List.filter_cons_of_pos (by simp [hskip]), List.map_cons]
      simp [dispatch]

/-- All successes are wanted. -/
theorem infos_told (document : Option DocumentContext) (events : List LogEvent) :
    (told p document events).filter (·.level == .info) =
      (events.filter (·.level == .info)).map (withDocumentFacts p document) := by
  have hlevel : ((·.level == .info) ∘ withDocumentFacts p document) = fun event => event.level == .info :=
    funext fun event => by simp only [Function.comp, (withDocumentFacts_keeps document event).1]
  rw [told, List.filter_map, List.filter_filter, hlevel]
  congr 1
  apply List.filter_congr
  intro event _
  cases hinfo : event.level == .info with
  | true => simp [eq_of_beq hinfo]
  | false => simp [hinfo]

end Journal

end

/-! ### One success for each element -/

namespace Compilation

/-- The success that a realm or a connection is reported with, where these commands were added below the
management resource. -/
inductive Announces (management : Address) (commands : List Command) (c : Element) (event : LogEvent) :
    Prop where
  | realm (kind : c.kind = .securityRealm) (named : c.attribute? .name = some name)
      (tells : event.Tells .realmCompiled [("realm", name), ("operations",
        toString (commands.countP fun command =>
          (management.append "security-realm" name).covers command.address))])
  | connection (kind : c.kind = .ldap) (named : c.attribute? .name = some name)
      (tells : event.Tells .connectionCompiled [("connection", name)])

variable {grammar : GrammarNamespace} {base : Address} {e c : Element} {p : LoggingPreferences}
  (document : Option DocumentContext)

theorem announces_realm (he : e.IsManagement grammar) (hc : c ∈ e.children)
    (hk : c.kind = .securityRealms) (hr : r ∈ c.children) (hkind : r.kind = .securityRealm)
    (hrealm : r.IsSecurityRealm grammar) :
    Announces (base.append "core-service" "management") (e.commands base) r
      (Journal.withDocumentFacts p document
        (realmReport (base.append "core-service" "management") r)) := by
  have hname := Element.attribute?_name hrealm.tag (by decide)
  have hmem : r.securityRealm ∈ e.resources := by
    refine List.mem_flatMap.2 ⟨c, hc, ?_⟩
    simp only [Element.managementPart, hk]
    exact List.mem_map_of_mem hr
  have hcount : (e.commands base).countP (fun command => ((base.append "core-service" "management").append
      "security-realm" (r.nameBy .name)).covers command.address) =
        (r.securityRealm.commands (base.append "core-service" "management")).length :=
    Resource.countP_covers (Element.pairwise_segment_ne he) hmem _
  refine .realm hkind hname (Journal.tells_withDocumentFacts ?_ (by simp) (by simp) document)
  rw [hcount]
  exact LogEvent.tells_success _ _ (by simp)

theorem announces_connection (hkind : c.kind = .ldap) (hconnection : c.IsLdapConnection grammar)
    (management : Address) (commands : List Command) :
    Announces management commands c (Journal.withDocumentFacts p document (connectionReport c)) := by
  refine .connection hkind (Element.attribute?_name hconnection.tag (by decide)) ?_
  exact Journal.tells_withDocumentFacts (LogEvent.tells_success _ _ (by simp)) (by simp) (by simp)
    document

/-- The children of each part are reported one by one. -/
theorem announces_part (he : e.IsManagement grammar) (hc : c ∈ e.children) :
    List.Forall₂ (Announces (base.append "core-service" "management") (e.commands base)) c.children
      ((partReports (base.append "core-service" "management") c).map
        (Journal.withDocumentFacts p document)) := by
  obtain ⟨hk, hpart⟩ | ⟨hk, hpart⟩ | ⟨hk, hpart⟩ :=
    Element.kind_of_isManagementPart (he.inside.accepted c hc)
  · simp only [partReports, hk, List.map_map]
    refine List.forall₂_map_right_iff.2 (List.forall₂_same.2 fun r hr => ?_)
    obtain ⟨hkind, hrealm⟩ := hpart.inside.accepted r hr
    exact announces_realm document he hc hk hr hkind hrealm
  · simp only [partReports, hk, List.map_map]
    refine List.forall₂_map_right_iff.2 (List.forall₂_same.2 fun r hr => ?_)
    obtain ⟨hkind, hconnection⟩ := hpart.inside.accepted r hr
    exact announces_connection document hkind hconnection _ _
  · simp only [partReports, hk, hpart.empty.2]
    exact .nil

theorem forall₂_flatMap {R : β → γ → Prop} {f : α → List β} {g : α → List γ} {xs : List α}
    (h : ∀ x ∈ xs, List.Forall₂ R (f x) (g x)) : List.Forall₂ R (xs.flatMap f) (xs.flatMap g) := by
  induction xs with
  | nil => exact .nil
  | cons x xs ih =>
    obtain ⟨hx, hxs⟩ := List.forall_mem_cons.1 h
    exact List.rel_append hx (ih hxs)

theorem infos_partReports (management : Address) (c : Element) :
    (partReports management c).filter (·.level == .info) = partReports management c := by
  rw [List.filter_eq_self]
  intro event hevent
  have hsuccess (code : Code) (message : String) (facts : List (String × String)) :
      ((LogEvent.success code message).withFacts facts).level = .info :=
    (LogEvent.withFacts_keeps _ _).1
  simp only [partReports] at hevent
  split at hevent
  · obtain ⟨r, _, rfl⟩ := List.mem_map.1 hevent
    exact beq_iff_eq.2 (hsuccess ..)
  · obtain ⟨r, _, rfl⟩ := List.mem_map.1 hevent
    exact beq_iff_eq.2 (hsuccess ..)
  · cases hevent

theorem infos_managementReports (grammar : GrammarNamespace) (base : Address) (e : Element) :
    (managementReports grammar base e).filter (·.level == .info) =
      e.children.flatMap (partReports (base.append "core-service" "management")) ++
        [managementSummary grammar (e.commands base).length] := by
  rw [managementReports, contentReports, List.cons_append, List.filter_cons_of_neg Bool.false_ne_true,
    List.filter_append, List.filter_flatMap]
  simp only [infos_partReports]
  rfl

/-- A management element that is translated, and what the log tells of it, at whatever level it is kept and
whether or not a document is being worked on. Of the successes there is one for each realm and each
connection, in their order, and one at the end. A realm's tells its name, and how many of the commands that
were added are at the address of the realm or below it; a connection's tells its name; the last tells how many
commands were added. -/
theorem successes_exact (h : management grammar .declining base native s = (.ok (), s'))
    (p : LoggingPreferences) (journal : Journal) :
    ∃ e d commands emitted told successes last, s.cursor.Spans e d ∧
      s'.script.toList = s.script.toList ++ commands ∧
      s'.events.toList = s.events.toList ++ emitted ∧
      (journal.logAll p emitted).logged.toList = journal.logged.toList ++ told ∧
      told.filter (·.level == .info) = successes ++ [last] ∧
      List.Forall₂ (Announces (base.append "core-service" "management") commands)
        (e.children.flatMap (·.children)) successes ∧
      last.Tells .managementCompiled [("operations", toString commands.length)] := by
  obtain ⟨e, d, hspans, he, -, -, hafter⟩ := management_eq_ok_iff.1 h
  refine ⟨e, d, e.commands base, managementReports grammar base e,
    Journal.told p journal.document (managementReports grammar base e),
    (e.children.flatMap (partReports (base.append "core-service" "management"))).map
      (Journal.withDocumentFacts p journal.document),
    Journal.withDocumentFacts p journal.document (managementSummary grammar (e.commands base).length),
    hspans, hafter.script.toList, hafter.events, Journal.logged_logAll .., ?_, ?_, ?_⟩
  · rw [Journal.infos_told, infos_managementReports, List.map_append, List.map_singleton]
  · rw [List.map_flatMap]
    exact forall₂_flatMap fun c hc => announces_part journal.document he hc
  · refine Journal.tells_withDocumentFacts ?_ (by simp) (by simp) journal.document
    refine (LogEvent.tells_success _ _ ?_).mono (List.subset_cons_self _ _)
    simp

theorem realm_successes_exact : ∃ s' told realm last,
    management .domain42 .declining .root false (RealmSample.state .empty) = (.ok (), s') ∧
      (Journal.empty.logAll (.ofEnvironment []) s'.events.toList).logged.toList = told ∧
      told.filter (·.level == .info) = [realm, last] ∧
      realm.Tells .realmCompiled [("realm", "r"), ("operations", "2")] ∧
      last.Tells .managementCompiled [("operations", "2")] := by
  obtain ⟨s', hs⟩ := RealmSample.compiles
  obtain ⟨e, d, commands, emitted, told, successes, last, hspans, hscript, hevents, htold, hinfos, hannounces,
    hlast⟩ := successes_exact hs (.ofEnvironment []) .empty
  obtain ⟨d', hsample⟩ := RealmSample.spans .empty
  obtain ⟨rfl, -⟩ := hsample.unique hspans
  obtain ⟨e', d', hspans', -, -, -, hafter⟩ := management_eq_ok_iff.1 hs
  obtain ⟨rfl, -⟩ := hsample.unique hspans'
  have hcommands : commands = RealmSample.management.commands .root := by
    have h := hscript.symm.trans hafter.script.toList
    exact List.append_cancel_left h
  subst hcommands
  obtain ⟨realm, hrealm, rfl⟩ : ∃ realm, Announces _ _ RealmSample.realm realm ∧ successes = [realm] := by
    cases hannounces with
    | cons hrealm hnil =>
      cases hnil with
      | nil => exact ⟨_, hrealm, rfl⟩
  refine ⟨s', told, realm, last, hs, ?_, hinfos, ?_, hlast⟩
  · rw [show s'.events.toList = emitted from hevents]
    exact htold
  · cases hrealm with
    | realm _ named tells =>
      obtain rfl : "r" = _ := Option.some.inj named
      exact tells
    | connection kind => exact absurd kind (by decide)

end Compilation

end ManagementScript
