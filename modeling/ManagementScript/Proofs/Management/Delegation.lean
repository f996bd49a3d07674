import Mathlib
import ManagementScript.Proofs.Compilation.Consumption
import ManagementScript.Proofs.Management.Semantics
import ManagementScript.Proofs.Tree.Heads

/-!
A delegate has the first refusal of the parts of a management element. Nothing is known of it but that
it keeps to its contract, whatever its state is and however it decides.
-/

namespace ManagementScript

/-- The cursor is on the start tag of an element of the category. -/
def Category.IsAt (category : Category) (c : Cursor) : Prop :=
  c.opened.head? = some c.localName ∧ .ofString c.localName = category.element

/-- The delegate keeps to its contract: where it takes an element it moves over that element, where it
declines it does not move, and in either case it only adds commands. -/
structure Delegate.Fair (D : Delegate δ) : Prop where
  taken : category.IsAt s.cursor → D.offer category address s = (.ok true, s') →
    s.cursor.skipElement = (.ok (), s'.cursor)
  declined : category.IsAt s.cursor → D.offer category address s = (.ok false, s') →
    s'.cursor = s.cursor
  adds : category.IsAt s.cursor → D.offer category address s = (.ok answer, s') →
    s.script.toList <+: s'.script.toList

namespace Compilation

/-- What a part of a management element adds, and what is there when the part is reached. -/
structure Part (δ : Type) where
  /-- The cursor on the start tag. -/
  head : Cursor
  given : List Command
  before : δ
  after : δ
  /-- The commands of the delegate. -/
  offered : List Command
  /-- The commands of the built-in compilation. -/
  builtIn : List Command

namespace Part

variable {δ : Type}

def kind (part : Part δ) : ElementName := .ofString part.head.localName

def commands (part : Part δ) : List Command := part.offered ++ part.builtIn

/-- The parts are compiled one after the other: each begins with the delegate and with the commands
that the one before has left. -/
inductive Follow : δ → List Command → List (Part δ) → δ → Prop where
  | nil : Follow d above [] d
  | cons (h : Follow part.after (part.given ++ part.commands) parts d) :
      Follow part.before part.given (part :: parts) d

end Part

/-- The delegate is asked to take the part, on its start tag, and answers. -/
def Answers (D : Delegate δ) (category : Category) (management : Address) (part : Part δ)
    (answer : Bool) : Prop :=
  ∃ t t', D.offer category management t = (.ok answer, t') ∧ t.cursor = part.head ∧
    t.delegate = part.before ∧ t.script.toList = part.given ∧
    t'.delegate = part.after ∧ t'.script.toList = part.given ++ part.offered

/-- What is compiled of a category that the delegate declines, if anything is. -/
def builtIn? (grammar : GrammarNamespace) (management : Address) :
    Category → Option (Compilation δ Unit)
  | .securityRealms => some (securityRealms grammar management)
  | .outboundConnections => some (outboundConnections grammar management)
  | .managementInterfaces | .auditLog | .accessControl => none

/-- The commands that a compilation adds for the element at the cursor, where it is compiled alone. -/
def Yields (m : Compilation Unit Unit) (head : Cursor) (commands : List Command) : Prop :=
  ∃ t, m ⟨head, .empty, (), #[]⟩ = (.ok (), t) ∧ t.script.toList = commands

/-- How a part is compiled: by the delegate, by the built-in compilation behind the delegate, or
without asking the delegate. -/
inductive Part.Compiled (grammar : GrammarNamespace) (D : Delegate δ) (management : Address)
    (part : Part δ) : Prop where
  | taken (hk : part.kind = category.element) (ha : Answers D category management part true)
      (hb : part.builtIn = [])
  | declined (hk : part.kind = category.element) (ha : Answers D category management part false)
      (hm : builtIn? grammar management category = some m) (hb : Yields m part.head part.builtIn)
  | unasked (hk : part.kind = .configurationChanges) (hd : part.after = part.before)
      (ho : part.offered = [])
      (hb : Yields (leaf .configurationChanges (management.append "service" "configuration-changes"))
        part.head part.builtIn) (hone : ∃ c, part.builtIn = [c])

variable {grammar : GrammarNamespace} {D : Delegate δ} {address : Address}

/-- What a compilation adds behind commands that are there, it adds alone. -/
theorem yields_of_compiles {m : Compilation δ Unit} {m' : Compilation Unit Unit}
    (h : Compiles m A f) (h' : Compiles m' A f) {s s' : CompilationState δ} (hd : s.cursor.Distinct)
    (ho : s.cursor.opened ≠ []) (hm : m s = (.ok (), s')) :
    ∃ commands, Yields m' s.cursor commands ∧ s'.script.toList = s.script.toList ++ commands ∧
      s'.delegate = s.delegate ∧ s.cursor.skipElement = (.ok (), s'.cursor) := by
  obtain ⟨nodes, c, hn, ha, _, hs⟩ := (h hd).1 hm
  have hroom : Script.empty.size + (f (s.cursor.element nodes)).commands.length ≤
      Limits.commands := (Nat.zero_add _).symm ▸ hs.fits
  obtain ⟨t, ht⟩ := CompilationState.exists_after (s := ⟨s.cursor, .empty, (), #[]⟩)
    (fun _ => hroom) c (f (s.cursor.element nodes)).events
  refine ⟨_, ⟨t, (@h' ⟨s.cursor, .empty, (), #[]⟩ _ _ hd).2 ⟨nodes, c, hn, ha, rfl, ht⟩, rfl⟩,
    ?_, hs.delegate, ?_⟩
  · rw [hs.script.toList, ht.script.toList]
    rfl
  · rw [hs.cursor]
    exact hn.skipElement ho

theorem yields_of_builtIn {m : Compilation δ Unit} (hm : builtIn? grammar address category = some m)
    {s s' : CompilationState δ} (hd : s.cursor.Distinct) (ho : s.cursor.opened ≠ [])
    (h : m s = (.ok (), s')) :
    ∃ m' commands, builtIn? grammar address category = some m' ∧ Yields m' s.cursor commands ∧
      s'.script.toList = s.script.toList ++ commands ∧ s'.delegate = s.delegate ∧
      s.cursor.skipElement = (.ok (), s'.cursor) := by
  cases category with
  | securityRealms =>
    cases hm
    obtain ⟨commands, hy⟩ := yields_of_compiles (compiles_securityRealms grammar address)
      (compiles_securityRealms grammar address) hd ho h
    exact ⟨_, commands, rfl, hy⟩
  | outboundConnections =>
    cases hm
    obtain ⟨commands, hy⟩ := yields_of_compiles (compiles_outboundConnections grammar address)
      (compiles_outboundConnections grammar address) hd ho h
    exact ⟨_, commands, rfl, hy⟩
  | managementInterfaces | auditLog | accessControl => cases hm

/-- Records a category where it may not occur again. -/
def mark (seen : ElementSet) : Category → Compilation δ ElementSet
  | .auditLog | .accessControl => return seen
  | category => once seen category.element

theorem mark_eq_ok {s s' : CompilationState δ} (h : mark seen category s = (.ok seen', s')) :
    s' = s := by
  have honce {element : ElementName} (h : once seen element s = (.ok seen', s')) : s' = s :=
    CompilationState.after_self_iff.1 ((adds_once seen element).1 h).2.2
  cases category with
  | auditLog | accessControl => exact (pure_eq_ok.1 h).2
  | _ => exact honce h

theorem managementChild_offer (seen : ElementSet) (category : Category) :
    managementChild grammar D address seen category.element = do
      let seen ← mark seen category
      offer D category address ((builtIn? grammar address category).getD unexpectedElement)
      return seen := by
  cases category <;> rfl

theorem managementChild_cases (element : ElementName) :
    (∃ category : Category, element = category.element) ∨ element = .configurationChanges ∨
      ∀ seen, managementChild grammar D address seen element = unexpectedElement := by
  cases element with
  | securityRealms => exact .inl ⟨.securityRealms, rfl⟩
  | outboundConnections => exact .inl ⟨.outboundConnections, rfl⟩
  | managementInterfaces => exact .inl ⟨.managementInterfaces, rfl⟩
  | auditLog => exact .inl ⟨.auditLog, rfl⟩
  | accessControl => exact .inl ⟨.accessControl, rfl⟩
  | configurationChanges => exact .inr (.inl rfl)
  | _ => exact .inr (.inr fun _ => rfl)

/-- The part that is at the cursor of `s` has led to `s'`. -/
structure Part.Leads (part : Part δ) (s s' : CompilationState δ) : Prop where
  head : part.head = s.cursor
  given : part.given = s.script.toList
  before : part.before = s.delegate
  after : part.after = s'.delegate
  script : s'.script.toList = s.script.toList ++ part.commands
  cursor : s.cursor.skipElement = (.ok (), s'.cursor)

theorem offer_eq_ok {builtIn : Compilation δ Unit} {s s' : CompilationState δ}
    (h : offer D category address builtIn s = (.ok (), s')) :
    ∃ t, D.offer category address s = (.ok true, t) ∧ s'.cursor = t.cursor ∧
        s'.script = t.script ∧ s'.delegate = t.delegate ∨
      D.offer category address s = (.ok false, t) ∧ builtIn t = (.ok (), s') := by
  obtain ⟨answer, t, ha, h⟩ := bind_eq_ok.1 h
  cases answer with
  | true =>
    obtain ⟨_, _, hs⟩ := (adds_succeed ..).1 h
    exact ⟨t, .inl ⟨ha, hs.cursor, Script.grows_nil_iff.1 hs.script, hs.delegate⟩⟩
  | false => exact ⟨t, .inr ⟨ha, h⟩⟩

theorem unexpectedElement_ne_ok {s s' : CompilationState δ} :
    (unexpectedElement : Compilation δ α) s ≠ (.ok a, s') := by
  intro h
  obtain ⟨_, _, he, _⟩ := refuses_unexpectedElement s
  rw [he] at h
  cases h

theorem opened_ne_nil {c : Cursor} (h : c.opened.head? = some name) : c.opened ≠ [] := by
  intro hnil
  rw [hnil] at h
  cases h

/-- A category is compiled by the delegate, or by what is built in where the delegate declines. -/
theorem exists_part_of_offer (hD : D.Fair) {s s' : CompilationState δ} (hd : s.cursor.Distinct)
    (hat : category.IsAt s.cursor)
    (h : offer D category address ((builtIn? grammar address category).getD unexpectedElement) s =
      (.ok (), s')) :
    ∃ part : Part δ, part.Leads s s' ∧ part.Compiled grammar D address := by
  have hk : .ofString s.cursor.localName = category.element := hat.2
  obtain ⟨t, ⟨ha, hc, hs, hdel⟩ | ⟨ha, hb⟩⟩ := offer_eq_ok h
  · obtain ⟨offered, hadds⟩ := hD.adds hat ha
    refine ⟨⟨s.cursor, s.script.toList, s.delegate, s'.delegate, offered, []⟩, ?_,
      .taken hk ⟨s, t, ha, rfl, rfl, rfl, hdel.symm, hadds.symm⟩ rfl⟩
    refine ⟨rfl, rfl, rfl, rfl, ?_, hc ▸ hD.taken hat ha⟩
    rw [hs, ← hadds, Part.commands, List.append_nil]
  · obtain ⟨offered, hadds⟩ := hD.adds hat ha
    have hcursor := hD.declined hat ha
    cases hm : builtIn? (δ := δ) grammar address category with
    | none =>
      rw [hm] at hb
      exact absurd hb unexpectedElement_ne_ok
    | some m =>
      rw [hm] at hb
      obtain ⟨m', commands, hm', hy, hscript, hdel, hskip⟩ :=
        yields_of_builtIn hm (hcursor.symm ▸ hd) (hcursor.symm ▸ opened_ne_nil hat.1) hb
      rw [hcursor] at hy hskip
      refine ⟨⟨s.cursor, s.script.toList, s.delegate, s'.delegate, offered, commands⟩, ?_,
        .declined hk ⟨s, t, ha, rfl, rfl, rfl, hdel.symm, hadds.symm⟩ hm' hy⟩
      refine ⟨rfl, rfl, rfl, rfl, ?_, hskip⟩
      rw [hscript, ← hadds, Part.commands, List.append_assoc]

theorem exists_part_of_changes {s s' : CompilationState δ} (hd : s.cursor.Distinct)
    (ho : s.cursor.opened.head? = some s.cursor.localName)
    (hk : .ofString s.cursor.localName = ElementName.configurationChanges)
    (h : leaf .configurationChanges (address.append "service" "configuration-changes") s =
      (.ok (), s')) :
    ∃ part : Part δ, part.Leads s s' ∧ part.Compiled grammar D address := by
  have hchanges : Construct.configurationChanges.Regular := by decide
  have hleaf := compiles_leaf (δ := Unit) hchanges
    (address.append "service" "configuration-changes")
  obtain ⟨commands, hy, hs, hdel, hskip⟩ :=
    yields_of_compiles (compiles_leaf hchanges _) hleaf hd (opened_ne_nil ho) h
  have hone : ∃ c, commands = [c] := by
    obtain ⟨t, ht, rfl⟩ := hy
    obtain ⟨_, _, _, _, _, hgrows⟩ := (@hleaf ⟨s.cursor, .empty, (), #[]⟩ _ _ hd).1 ht
    exact ⟨_, hgrows.script.toList⟩
  refine ⟨⟨s.cursor, s.script.toList, s.delegate, s'.delegate, [], commands⟩,
    ⟨rfl, rfl, rfl, rfl, hs, hskip⟩, .unasked hk hdel rfl hy hone⟩

theorem exists_part (hD : D.Fair) {s s' : CompilationState δ} (hd : s.cursor.Distinct)
    (ho : s.cursor.opened.head? = some s.cursor.localName)
    (h : managementChild grammar D address seen (.ofString s.cursor.localName) s = (.ok seen', s')) :
    ∃ part : Part δ, part.Leads s s' ∧ part.Compiled grammar D address := by
  rcases @managementChild_cases _ grammar D address (.ofString s.cursor.localName) with ⟨category, hk⟩ | hk | hrefused
  · rw [hk, managementChild_offer] at h
    obtain ⟨_, s₁, hmark, hrest⟩ := bind_eq_ok.1 h
    obtain rfl := mark_eq_ok hmark
    obtain ⟨_, s₂, hoffer, hrest⟩ := bind_eq_ok.1 hrest
    obtain ⟨_, rfl⟩ := pure_eq_ok.1 hrest
    exact exists_part_of_offer hD hd ⟨ho, hk⟩ hoffer
  · rw [hk] at h
    obtain ⟨_, s₁, honce, hrest⟩ := bind_eq_ok.1 h
    obtain rfl := CompilationState.after_self_iff.1 ((adds_once ..).1 honce).2.2
    obtain ⟨_, s₂, hleaf, hrest⟩ := bind_eq_ok.1 hrest
    obtain ⟨_, rfl⟩ := pure_eq_ok.1 hrest
    exact exists_part_of_changes hd ho hk hleaf
  · rw [hrefused] at h
    exact absurd h unexpectedElement_ne_ok

/-- The children that are visited are parts, each behind those before it. -/
theorem exists_parts (hD : D.Fair) {ahead : List Xml.Event} {s s' : CompilationState δ}
    (hlen : s.cursor.pending.length ≤ ahead.length)
    (h : visitAmong grammar (managementChild grammar D address) seen ahead s = (.ok seen', s')) :
    ∃ parts : List (Part δ), s.cursor.Heads (parts.map (·.head)) s'.cursor ∧
      Part.Follow s.delegate s.script.toList parts s'.delegate ∧
      (∀ part ∈ parts, part.Compiled grammar D address) ∧
      s'.script.toList = s.script.toList ++ parts.flatMap (·.commands) := by
  induction ahead generalizing seen s with
  | nil => exact absurd h (visitAmong_nil_ne_ok (List.eq_nil_of_length_eq_zero (Nat.le_zero.1 hlen)))
  | cons event ahead ih =>
    rcases visitAmong_cons_eq_ok.1 h with ⟨d, hd, _, hs⟩ | ⟨i, seen₁, s₁, hi, _, hvisit, hrest⟩
    · obtain rfl := CompilationState.after_nil_iff.1 hs
      exact ⟨[], .finish hd, .nil, List.forall_mem_nil _, (List.append_nil _).symm⟩
    · have ho : i.opened.head? = some i.localName := by simp [(Cursor.next_start_moves hi).1]
      obtain ⟨part, hpart, hcompiled⟩ :=
        exists_part (s := { s with cursor := i }) hD (Cursor.distinct_of_next hi) ho hvisit
      have hlt := Cursor.next_pending_lt hi (by simp)
      have hle : s₁.cursor.pending.length ≤ i.pending.length :=
        Cursor.skipElement_pending_le hpart.cursor
      rw [List.length_cons] at hlen
      obtain ⟨parts, hheads, hfollow, hall, hscript⟩ := ih (by omega) hrest
      obtain ⟨hhead, hgiven, hbefore, hafter, hcommands, hskip⟩ := hpart
      refine ⟨part :: parts, ?_, ?_, List.forall_mem_cons.2 ⟨hcompiled, hall⟩, ?_⟩
      · rw [List.map_cons, hhead]
        exact .child hi hskip hheads
      · rw [hcommands, ← hafter] at hfollow
        exact hbefore ▸ hgiven ▸ .cons (hgiven.symm ▸ hfollow)
      · rw [hscript, hcommands, List.flatMap_cons, List.append_assoc]

/-! ### From child to child -/

/-- The compilation gets from a state between two children of the element to another such state. -/
inductive Reaches (grammar : GrammarNamespace) (D : Delegate δ) (management : Address) :
    ElementSet → CompilationState δ → ElementSet → CompilationState δ → Prop where
  | refl : Reaches grammar D management seen s seen s
  | child (hn : nextElement grammar s = (.ok (some element), t))
      (hc : managementChild grammar D management seen element t = (.ok seen₁, s₁))
      (h : Reaches grammar D management seen₁ s₁ seen' s') :
      Reaches grammar D management seen s seen' s'

/-- The state in which the children of a management element begin to be compiled. -/
def opening (grammar : GrammarNamespace) (s : CompilationState δ) : CompilationState δ where
  cursor := s.cursor
  script := .empty
  delegate := s.delegate
  events := s.events.push
    ((LogEvent.debug "Translating management element").withFact "namespace" grammar.uri)

/-- While the management element is compiled from `s`, the category is offered to the delegate in the
state `t`: a child of that name is reached that may still occur. -/
structure Offers (grammar : GrammarNamespace) (D : Delegate δ) (base : Address)
    (s : CompilationState δ) (category : Category) (t : CompilationState δ) : Prop where
  tag : s.cursor.attributes = []
  reached : ∃ seen s', Reaches grammar D (base.append "core-service" "management") .empty
      (opening grammar s) seen s' ∧
    nextElement grammar s' = (.ok (some category.element), t) ∧
    (category ∈ [.auditLog, .accessControl] ∨ seen.contains category.element = false)

theorem opening_of_management {s s' : CompilationState δ}
    (h : management grammar D base native s = (.ok (), s')) :
    ∃ seen t, forChildren grammar .empty (managementChild grammar D
        (base.append "core-service" "management")) (opening grammar s) = (.ok seen, t) ∧
      s'.cursor = t.cursor ∧ s'.delegate = t.delegate ∧
      s'.script.toList = s.script.toList ++ t.script.toList := by
  obtain ⟨_, s₁, hattributes, hrest⟩ := bind_eq_ok.1 h
  obtain rfl := (requireNoAttributes_eq_ok.1 hattributes).2
  rw [emit_bind] at hrest
  obtain ⟨⟨seen, commands⟩, s₂, hinner, hadd⟩ := bind_eq_ok.1 hrest
  obtain ⟨hinner, hs₂⟩ := isolated_eq_ok.1 hinner
  refine ⟨seen, { s₂ with script := commands }, hinner, ?_⟩
  simp only at hadd
  split at hadd
  · rw [location_bind] at hadd
    obtain ⟨_, _, hthrow, _⟩ := bind_eq_ok.1 hadd
    exact absurd hthrow throw_ne_ok
  · obtain ⟨_, hs⟩ := extend_succeed_eq_ok.1 hadd
    exact ⟨hs.cursor, hs.delegate, by rw [hs.script.toList, hs₂]⟩

theorem isolated_of_error {m : Compilation δ α} {s t : CompilationState δ}
    (h : m { s with script := .empty } = (.error e, t)) :
    isolated m s = (.error e, { t with script := s.script }) := by
  obtain ⟨cursor, outer, delegate, events⟩ := s
  rw [isolated, h]

theorem management_of_opening_error {s t : CompilationState δ} (ha : s.cursor.attributes = [])
    (h : forChildren grammar .empty (managementChild grammar D
      (base.append "core-service" "management")) (opening grammar s) = (.error e, t)) :
    management grammar D base native s = (.error e, { t with script := s.script }) := by
  rw [management, bind_apply, (requireNoAttributes_eq_ok (u := ())).2 ⟨ha, rfl⟩]
  simp only
  rw [emit_bind, bind_apply, isolated_of_error h]

theorem child_pending_lt (hD : D.Fair) {s t s₁ : CompilationState δ}
    (hn : nextElement grammar s = (.ok (some element), t))
    (hc : managementChild grammar D address seen element t = (.ok seen₁, s₁)) :
    s₁.cursor.pending.length < s.cursor.pending.length := by
  have hlt := nextElement_pending_lt hn
  obtain ⟨hnone, _⟩ | ⟨i, hi, _, he, hs⟩ := nextElement_eq_ok.1 hn
  · cases hnone
  obtain rfl := Option.some.inj he
  obtain rfl := CompilationState.after_nil_iff.1 hs
  have ho : i.opened.head? = some i.localName := by simp [(Cursor.next_start_moves hi).1]
  obtain ⟨part, hpart, _⟩ :=
    exists_part (s := { s with cursor := i }) hD (Cursor.distinct_of_next hi) ho hc
  exact Nat.lt_of_le_of_lt (Cursor.skipElement_pending_le hpart.cursor) hlt

/-- The rest of a visit is the same from every state that it reaches. -/
theorem Reaches.visitAmong_eq (hD : D.Fair) {s s' : CompilationState δ}
    (h : Reaches grammar D address seen s seen' s') {ahead : List Xml.Event}
    (hlen : s.cursor.pending.length ≤ ahead.length) :
    ∃ ahead' : List Xml.Event, s'.cursor.pending.length ≤ ahead'.length ∧
      visitAmong grammar (managementChild grammar D address) seen ahead s =
        visitAmong grammar (managementChild grammar D address) seen' ahead' s' := by
  induction h generalizing ahead with
  | refl => exact ⟨ahead, hlen, rfl⟩
  | child hn hc _ ih =>
    have hlt := Nat.lt_of_lt_of_le (child_pending_lt hD hn hc) hlen
    cases ahead with
    | nil => exact absurd hlt (Nat.not_lt_zero _)
    | cons event ahead =>
      obtain ⟨ahead', hlen', hvisit⟩ := ih (Nat.le_of_lt_succ hlt)
      refine ⟨ahead', hlen', ?_⟩
      rw [← hvisit, visitAmong, bind_apply, hn]
      simp only
      rw [bind_apply, hc]

theorem mark_of_free {category : Category} {t : CompilationState δ}
    (h : category ∈ [.auditLog, .accessControl] ∨ seen.contains category.element = false) :
    ∃ seen', mark seen category t = (.ok seen', t) := by
  have honce (hfree : seen.contains category.element = false) :
      once seen category.element t = (.ok (seen.insert category.element), t) :=
    (adds_once seen category.element).2 ⟨hfree, rfl, CompilationState.after_self_iff.2 rfl⟩
  cases category with
  | auditLog | accessControl => exact ⟨seen, rfl⟩
  | _ => exact ⟨_, honce (h.resolve_left (by decide))⟩

/-- Where nothing is compiled of a category that the delegate declines, the part is refused. -/
theorem managementChild_of_declined (hD : D.Fair) {category : Category} {t t' : CompilationState δ}
    (hat : category.IsAt t.cursor)
    (hfree : category ∈ [.auditLog, .accessControl] ∨ seen.contains category.element = false)
    (hnone : builtIn? (δ := δ) grammar address category = none)
    (hd : D.offer category address t = (.ok false, t')) :
    managementChild grammar D address seen category.element t =
      (.error (.unexpectedElement t.cursor.localName t.cursor.position), t') := by
  obtain ⟨seen', hmark⟩ := mark_of_free (t := t) hfree
  rw [managementChild_offer, bind_apply, hmark, hnone]
  simp only [offer]
  rw [bind_apply, bind_apply, hd, ← hD.declined hat hd]
  rfl

theorem isAt_of_nextElement {category : Category} {s t : CompilationState δ}
    (h : nextElement grammar s = (.ok (some category.element), t)) : category.IsAt t.cursor := by
  obtain ⟨hnone, _⟩ | ⟨i, hi, _, he, hs⟩ := nextElement_eq_ok.1 h
  · cases hnone
  · rw [hs.cursor]
    exact ⟨by simp [(Cursor.next_start_moves hi).1], (Option.some.inj he).symm⟩

theorem Category.localName_of_isAt {category : Category} {c : Cursor} (h : category.IsAt c) :
    c.localName = category.element.localName := by
  have hne : ElementName.ofString c.localName ≠ .unknown := by
    rw [h.2]
    cases category <;> decide
  rw [← h.2, ElementName.localName_ofString hne]

/-- An offer that is declined, where nothing is built in, is the end of the compilation. -/
theorem management_of_declined (hD : D.Fair) {s t t' : CompilationState δ}
    (ho : Offers grammar D base s category t)
    (hnone : builtIn? (δ := δ) grammar (base.append "core-service" "management") category = none)
    (hd : D.offer category (base.append "core-service" "management") t = (.ok false, t')) :
    (management grammar D base native s).1 =
      .error (.unexpectedElement category.element.localName t.cursor.position) := by
  obtain ⟨ha, seen, s₁, hreached, hn, hfree⟩ := ho
  have hat := isAt_of_nextElement hn
  refine congrArg Prod.fst (management_of_opening_error ha (t := t') ?_)
  obtain ⟨ahead, hlen, hvisit⟩ := hreached.visitAmong_eq hD (Nat.le_refl _)
  rw [forChildren, getCursor_bind, hvisit]
  cases ahead with
  | nil => exact absurd (Nat.lt_of_lt_of_le (nextElement_pending_lt hn) hlen) (Nat.not_lt_zero _)
  | cons event ahead =>
    rw [visitAmong, bind_apply, hn]
    simp only
    rw [bind_apply, managementChild_of_declined hD hat hfree hnone hd, Category.localName_of_isAt hat]

/-- The children of a management element are offered one after the other, each of a category once and on
its start tag. What is added is for each of them what the delegate adds and, where it declines, what the
built-in compilation of the child adds alone. A child that is declined and for which nothing is built in
is refused. -/
theorem management_offers_parts {grammar : GrammarNamespace} {D : Delegate δ} (hD : D.Fair)
    (base : Address) (native : Bool) (s : CompilationState δ) :
    let address := base.append "core-service" "management"
    (∀ s', management grammar D base native s = (.ok (), s') →
      ∃ parts : List (Part δ), s.cursor.Heads (parts.map (·.head)) s'.cursor ∧
        Part.Follow s.delegate [] parts s'.delegate ∧
        (∀ part ∈ parts, part.Compiled grammar D address) ∧
        s'.script.toList = s.script.toList ++ parts.flatMap (·.commands)) ∧
    ∀ category ∈ [.managementInterfaces, .auditLog, .accessControl], ∀ t t',
      Offers grammar D base s category t → D.offer category address t = (.ok false, t') →
        (management grammar D base native s).1 =
          .error (.unexpectedElement category.element.localName t.cursor.position) := by
  intro address
  refine ⟨?_, ?_⟩
  · intro s' h
    obtain ⟨seen, t, hvisit, hcursor, hdelegate, hscript⟩ := opening_of_management h
    rw [forChildren, getCursor_bind] at hvisit
    obtain ⟨parts, hheads, hfollow, hcompiled, hadded⟩ := exists_parts hD (Nat.le_refl _) hvisit
    refine ⟨parts, hcursor ▸ hheads, hdelegate ▸ hfollow, hcompiled, ?_⟩
    rw [hscript, hadded]
    rfl
  · intro category hcategory t t' ho hd
    have hnone : builtIn? (δ := δ) grammar address category = none := by
      simp only [List.mem_cons, List.not_mem_nil, or_false] at hcategory
      rcases hcategory with rfl | rfl | rfl <;> rfl
    exact management_of_declined hD ho hnone hd

/-! ### A delegate that takes management interfaces -/

namespace DelegateSample

open RealmSample (tags)

def record (category : Category) : Compilation (List Category) Unit := fun s =>
  (.ok (), { s with delegate := s.delegate ++ [category] })

/-- The delegate takes management interfaces. It knows what it was offered. -/
def delegate : Delegate (List Category) where
  offer category _ := do
    record category
    if category = .managementInterfaces then
      move Cursor.skipElement
      return true
    else return false

theorem offer_cases {s s' : CompilationState (List Category)}
    (h : delegate.offer category address s = (.ok answer, s')) :
    s'.script = s.script ∧ ((answer = true ∧ s.cursor.skipElement = (.ok (), s'.cursor)) ∨
      answer = false ∧ s'.cursor = s.cursor) := by
  obtain ⟨_, s₁, hrecord, h⟩ := bind_eq_ok.1 h
  cases hrecord
  split at h
  · obtain ⟨_, s₂, hm, h⟩ := bind_eq_ok.1 h
    obtain ⟨c, hc, hs⟩ := move_eq_ok.1 hm
    obtain ⟨rfl, rfl⟩ := pure_eq_ok.1 h
    exact ⟨Script.grows_nil_iff.1 hs.script, .inl ⟨rfl, hs.cursor ▸ hc⟩⟩
  · obtain ⟨rfl, rfl⟩ := pure_eq_ok.1 h
    exact ⟨rfl, .inr ⟨rfl, rfl⟩⟩

theorem fair : delegate.Fair where
  taken _ h := by simpa using (offer_cases h).2
  declined _ h := by simpa using (offer_cases h).2
  adds _ h := (offer_cases h).1 ▸ List.prefix_refl _

def state (content : List Xml.Event) : CompilationState (List Category) where
  cursor := RealmSample.cursor ["management"] [] <|
    content ++ [.finish 0 ⟨.ok none, "management"⟩]
  script := .empty
  delegate := []
  events := #[]

def taken : CompilationState (List Category) :=
  state (tags "security-realms" "" (tags "security-realm" " name='r'" []) ++
    tags "management-interfaces" "" (tags "http-interface" "" []))

def refused : CompilationState (List Category) := state (tags "audit-log" "" [])

theorem result : (management .domain42 delegate .root true taken).1 = .ok () := by cbv

theorem asked : (management .domain42 delegate .root true taken).2.delegate =
    [.securityRealms, .managementInterfaces] := by cbv

theorem compiles : ∃ s', management .domain42 delegate .root true taken = (.ok (), s') ∧
    s'.delegate = [.securityRealms, .managementInterfaces] := by
  have hok := result
  have hasked := asked
  generalize management .domain42 delegate .root true taken = outcome at hok hasked ⊢
  obtain ⟨_, s'⟩ := outcome
  cases hok
  exact ⟨s', rfl, hasked⟩

/-- The state in which the audit log is offered. -/
def auditLog : CompilationState (List Category) where
  cursor := ((opening .domain42 refused).cursor.next).2
  script := .empty
  delegate := []
  events := (opening .domain42 refused).events

theorem offers : Offers .domain42 delegate .root refused .auditLog auditLog where
  tag := rfl
  reached := ⟨.empty, _, .refl, by rfl, .inl (by decide)⟩

end DelegateSample

theorem management_offers_interfaces : ∃ (s' : CompilationState (List Category))
    (parts : List (Part (List Category))),
    management .domain42 DelegateSample.delegate .root true DelegateSample.taken = (.ok (), s') ∧
      s'.delegate = [.securityRealms, .managementInterfaces] ∧
      DelegateSample.taken.cursor.Heads (parts.map (·.head)) s'.cursor ∧
      s'.script.toList = parts.flatMap (·.commands) ∧
      ∃ p, (management .domain42 DelegateSample.delegate .root false DelegateSample.refused).1 =
        .error (.unexpectedElement "audit-log" p) := by
  obtain ⟨s', hs, hasked⟩ := DelegateSample.compiles
  obtain ⟨parts, hheads, _, _, hscript⟩ :=
    (management_offers_parts DelegateSample.fair .root true DelegateSample.taken).1 s' hs
  refine ⟨s', parts, hs, hasked, hheads, hscript, DelegateSample.auditLog.cursor.position, ?_⟩
  exact (management_offers_parts DelegateSample.fair .root false DelegateSample.refused).2 .auditLog
    (by simp) DelegateSample.auditLog _ DelegateSample.offers rfl

end Compilation

end ManagementScript
