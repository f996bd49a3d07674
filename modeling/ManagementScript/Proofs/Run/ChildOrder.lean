import ManagementScript.Proofs.Management.ChildOrder
import ManagementScript.Proofs.Run.Results

/-!
Documents in which the children of an element change places. Where the grammar does not ask for an order,
such a document is accepted like the first one, and in its script only the commands of these children
change places.
-/

namespace ManagementScript

namespace Xml

/-- The documents are the same but for the order of the children of one element, to which the names lead
from the root. -/
inductive RearrangesRoot (root : ResolvedName) (path : List ResolvedName) (source source' : String) :
    Prop where
  | mk (hpast : ∀ event ∈ past, event.IsText)
      (ht : Passes .initial start (past ++ [.start 0 root tag scope]) state)
      (hr : Rearranges state path cs cs')
      (hs : withoutMark source.toList = start ++ cs) (hs' : withoutMark source'.toList = start ++ cs')

end Xml

/-- The management element is the root or a section of it; of the names that lead on from the root, the
last ones lead on from the management element. -/
inductive GrammarNamespace.InManagement (grammar : GrammarNamespace) (root : Xml.ResolvedName) :
    List Xml.ResolvedName → List Xml.ResolvedName → Prop where
  | ofRoot (hroot : root.kind = .management) : grammar.InManagement root path path
  | ofSection (hroot : root.kind.isDocumentRoot = true) (hn : grammar.isManagement name = true) :
      grammar.InManagement root (name :: path) path

variable {grammar : GrammarNamespace}

namespace Run

/-- The tag of the root may have been read in another document. -/
theorem HasManagement.of_sameTag {source : String} {c c' : Cursor}
    (hc : (Cursor.ofString source).next = (.ok .start, c')) (hsame : c.SameTag c')
    (hg : c.namespaceUri.bind GrammarNamespace.ofUri? = some grammar)
    (hm : ElementName.ofString c.localName = .management ∧ (∃ d, c'.Spans m d) ∨
      (ElementName.ofString c.localName).isDocumentRoot = true ∧
        c'.HoldsOne grammar.isManagement m) : HasManagement source grammar m :=
  ⟨c', hc, hsame.namespaceUri ▸ hg, hsame.localName ▸ hm⟩

/-- In the management element of the other document the same children are in another order. -/
theorem HasManagement.rearrange {source source' : String} (h : HasManagement source grammar m)
    (hr : Xml.RearrangesRoot root path source source') (hin : grammar.InManagement root path inside) :
    ∃ m', HasManagement source' grammar m' ∧ Element.Rearranges (inside.map (·.kind)) m m' := by
  obtain ⟨c, hc, hg, hm⟩ := h
  obtain @⟨past, start, state, cs, cs', tag, scope, hpast, ht, hr, hs, hs'⟩ := hr
  have hmarks {source : String} {cs : List Char} (hs : Xml.withoutMark source.toList = start ++ cs) :
      (Cursor.ofString source).marks = past ++ .start 0 root tag scope :: Xml.reading state cs := by
    rw [Cursor.marks_ofString, hs, ht.reading_concat]
  have hname := Cursor.tagName_of_next hpast (hmarks hs) hc
  obtain ⟨_, hrest, c', hc', hsame, hrest'⟩ :=
    @Cursor.next_transfer _ _ _ _ (.ofString source) (.ofString source') _ _ _ _ hpast (hmarks hs)
      (hmarks hs') rfl hc
  have hkind : ElementName.ofString c.localName = root.kind := by
    rw [← hname]
    rfl
  rw [hkind] at hm
  cases hin with
  | ofRoot hmanagement =>
    obtain ⟨_, d, hspans⟩ | ⟨hdocument, _⟩ := hm
    · obtain ⟨m', d', hspans', _, _, hrearranges⟩ := hspans.rearrange hr hsame hrest hrest'
      exact ⟨m', .of_sameTag hc' hsame hg (.inl ⟨hkind.trans hmanagement, d', hspans'⟩), hrearranges⟩
    · rw [hmanagement] at hdocument
      cases hdocument
  | ofSection hdocument hn =>
    obtain ⟨hmanagement, _⟩ | ⟨_, hone⟩ := hm
    · rw [hmanagement] at hdocument
      cases hdocument
    · obtain ⟨m', hone', hrearranges⟩ := hone.rearrange hn hr hsame.opened hrest hrest'
      rw [← hkind] at hdocument
      exact ⟨m', .of_sameTag hc' hsame hg (.inr ⟨hdocument, hone'⟩), hrearranges⟩

end Run

namespace DocumentCompilation

open Element

/-- With the children of an element inside in another order, a management element can still be added to the
script, and only their commands change places in it. -/
theorem IsCompiled.rearrange {m m' p p' : Element} {o : RunOptions} {script : Script}
    (h : IsCompiled grammar o .empty m script) (hd : Differs p p' path m m') (hp : p.Reorders p')
    (hany : Role.AnyOrder path) : ∃ script', IsCompiled grammar o .empty m' script' ∧
      ∃ r, Role.Leads .management path r ∧ r.Permutes p p' script.toList script'.toList := by
  have hmanagement : Role.Is grammar .management m := h.management
  obtain ⟨hkeeps, r, hleads, hpermutes⟩ :=
    hd.keeps hp hmanagement fun _ hleads => hleads.not_endsInFilter hany
  have hcommands : r.Permutes p p' (m.commands o.base) (m'.commands o.base) := hpermutes _
  have hscript : script.toList = m.commands o.base := h.script
  have hscript' : (Script.mk (m'.commands o.base).toArray).toList = m'.commands o.base := by
    simp [Script.toList]
  refine ⟨⟨(m'.commands o.base).toArray⟩, ⟨hkeeps.is, h.native, ?_, hscript'⟩, r, hleads, ?_⟩
  · rw [hcommands.length_eq hp]
    exact h.room
  · rw [hscript, hscript']
    exact hcommands

end DocumentCompilation

namespace Run

open Element in
/-- When the children of an element inside the management element of an accepted document change places,
the document is still accepted. The commands of each of them are next to each other, in the order of the
children; all other commands are the same. -/
theorem child_order_permutes_blocks {r : Request} {source source' : String}
    (h : Yields r source script grammar) (hr : Xml.RearrangesRoot root path source source')
    (hin : grammar.InManagement root path inside) (hany : Role.AnyOrder (inside.map (·.kind))) :
    ∃ script', Yields r source' script' grammar ∧ ∃ m m' p p' role,
      HasManagement source grammar m ∧ HasManagement source' grammar m' ∧
      p.Reorders p' ∧ Differs p p' (inside.map (·.kind)) m m' ∧
      Role.Leads .management (inside.map (·.kind)) role ∧
      role.Permutes p p' script.toList script'.toList := by
  obtain ⟨m, hm, hcompiled⟩ := DocumentCompilation.document_iff_management.1 (yields_iff.1 h)
  obtain ⟨m', hm', p, p', hp, hd⟩ := hm.rearrange hr hin
  obtain ⟨script', hcompiled', role, hleads, hpermutes⟩ := hcompiled.rearrange hd hp hany
  exact ⟨script', yields_iff.2 (DocumentCompilation.document_iff_management.2 ⟨m', hm', hcompiled'⟩),
    m, m', p, p', role, hm, hm', hp, hd, hleads, hpermutes⟩

namespace ConnectionsSample

open Xml

def source : String := "<management xmlns='urn:jboss:domain:4.2'><outbound-connections>" ++
  "<ldap name='a' url='u'/> <ldap name='b' url='u'></ldap></outbound-connections></management>"

def swapped : String := "<management xmlns='urn:jboss:domain:4.2'><outbound-connections>" ++
  "<ldap name='b' url='u'></ldap> <ldap name='a' url='u'/></outbound-connections></management>"

set_option maxRecDepth 2000 in
theorem grammar_eq : (ofSource EmptySample.request source).outcome.1.toOption.map (·.grammar) =
    some .domain42 := by
  cbv

theorem yields : ∃ script, Yields EmptySample.request source script .domain42 := by
  obtain ⟨result, hr, hgrammar⟩ := Option.map_eq_some_iff.1 grammar_eq
  exact ⟨result.script, result, toOption_eq_some_iff.1 hr, rfl, hgrammar⟩

/-- The text of a tag. -/
def tag (content : String) : List Char := '<' :: (content.toList ++ ['>'])

def name (localName : String) : ResolvedName := ⟨.ok (some "urn:jboss:domain:4.2"), localName⟩

def rootTag : TagText := ⟨"management".toList, " xmlns='urn:jboss:domain:4.2'".toList⟩

def sectionTag : TagText := ⟨"outbound-connections".toList, []⟩

def firstTag : TagText := ⟨"ldap".toList, " name='a' url='u'".toList⟩

def secondTag : TagText := ⟨"ldap".toList, " name='b' url='u'".toList⟩

def scope : Scope := (Scope.initial.declareAll (rootTag.attributes false).1).1

def inRoot : ScanState := ⟨["management".toList], [scope, .initial], 0⟩

def inSection : ScanState :=
  ⟨["outbound-connections".toList, "management".toList], [scope, scope, .initial], 0⟩

def inConnection : ScanState :=
  ⟨["ldap".toList, "outbound-connections".toList, "management".toList],
    [scope, scope, scope, .initial], 0⟩

theorem passes_root : Passes .initial (tag "management xmlns='urn:jboss:domain:4.2'")
    [.start 0 (name "management") rootTag scope] inRoot :=
  Passes.markup (p := .startTag rootTag false) (fun _ => rfl) rfl

theorem passes_section : Passes inRoot (tag "outbound-connections")
    [.start 0 (name "outbound-connections") sectionTag scope] inSection :=
  Passes.markup (p := .startTag sectionTag false) (fun _ => rfl) rfl

/-- A connection that is written as one tag. -/
def first : List Char := tag "ldap name='a' url='u'/"

theorem isContent_first : IsContent inSection first :=
  .leaf (Passes.markup (p := .startTag firstTag true) (fun _ => rfl) rfl)

/-- A connection with an end tag. -/
def second : List Char := tag "ldap name='b' url='u'" ++ [] ++ tag "/ldap"

theorem isContent_second : IsContent inSection second := by
  have hstart : Passes inSection (tag "ldap name='b' url='u'")
      [.start 0 (name "ldap") secondTag scope] inConnection :=
    Passes.markup (p := .startTag secondTag false) (fun _ => rfl) rfl
  have hfinish : Passes inConnection (tag "/ldap") [.finish 0 (name "ldap")] inSection :=
    Passes.markup (p := .endTag "ldap".toList) (fun _ => rfl) rfl
  exact .element hstart (.blank rfl) hfinish

def ends : List Char := "</outbound-connections></management>".toList

theorem rearranges :
    RearrangesRoot (name "management") [name "outbound-connections"] source swapped := by
  have hp : [first, [' '], second].Perm [second, [' '], first] := (List.reverse_perm _).symm
  have hcontent : ∀ piece ∈ [first, [' '], second], IsContent inSection piece :=
    List.forall_mem_cons.2 ⟨isContent_first,
      List.forall_mem_cons.2 ⟨.blank rfl, List.forall_mem_singleton.2 isContent_second⟩⟩
  have helement : ∃ piece ∈ [first, [' '], second], ∃ event ∈ reading inSection piece,
      ¬event.IsText :=
    ⟨first, .head _, .start 0 (name "ldap") firstTag scope, .head _, id⟩
  have hinside : Rearranges inSection [] ([first, [' '], second].flatten ++ ends)
      ([second, [' '], first].flatten ++ ends) := .pieces hp hcontent helement
  exact .mk (List.forall_mem_nil _) passes_root (.into .nil passes_section hinside)
    (by decide +kernel) (by decide +kernel)

end ConnectionsSample

open ConnectionsSample in
/-- The connections of a section may change places. -/
theorem child_order_permutes_connections : ∃ script script',
    Yields EmptySample.request source script .domain42 ∧
    Yields EmptySample.request swapped script' .domain42 := by
  obtain ⟨script, h⟩ := yields
  obtain ⟨script', h', _⟩ := child_order_permutes_blocks h rearranges (.ofRoot rfl) (by decide)
  exact ⟨script, script', h, h'⟩

end Run

end ManagementScript
