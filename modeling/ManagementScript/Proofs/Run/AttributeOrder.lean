import Mathlib
import ManagementScript.Proofs.Run.Echo
import ManagementScript.Proofs.Tree.Resemblance

/-!
Documents that differ in the order of attributes. A run over one of them gives what a run over the
other gives, unless the order changes which default namespace a tag declares.
-/

namespace ManagementScript

namespace Xml

/-- The second text is the first one with some of its start tags changed. -/
inductive Retagged (change : TagText → TagText → Prop) : List Char → List Char → Prop where
  | refl (cs : List Char) : Retagged change cs cs
  | text (hc : c ≠ '<') (h : Retagged change cs cs') : Retagged change (c :: cs) (c :: cs')
  | markup (he : enclosed cs = .ok (content, rest)) (he' : enclosed cs' = .ok (content, rest'))
      (h : Retagged change rest rest') : Retagged change ('<' :: cs) ('<' :: cs')
  | startTag (he : enclosed cs = .ok (content, rest)) (he' : enclosed cs' = .ok (content', rest'))
      (hp : piece content = .ok (.startTag tag empty))
      (hp' : piece content' = .ok (.startTag tag' empty)) (ht : change tag tag')
      (h : Retagged change rest rest') : Retagged change ('<' :: cs) ('<' :: cs')

namespace Retagged

variable {change : TagText → TagText → Prop} {cs cs' : List Char}

theorem symm (hc : ∀ tag tag', change tag tag' → change tag' tag) (h : Retagged change cs cs') :
    Retagged change cs' cs := by
  induction h with
  | refl cs => exact refl cs
  | text hc _ ih => exact text hc ih
  | markup he he' _ ih => exact markup he' he ih
  | startTag he he' hp hp' ht _ ih => exact startTag he' he hp' hp (hc _ _ ht) ih

theorem withoutMark (h : Retagged change cs cs') :
    Retagged change (withoutMark cs) (withoutMark cs') := by
  cases h with
  | refl cs => exact refl _
  | @text c _ _ hc h =>
    by_cases hm : c = '\ufeff'
    · subst hm
      exact h
    · simpa [Xml.withoutMark, hm] using text hc h
  | markup he he' h => exact markup he he' h
  | startTag he he' hp hp' ht h => exact startTag he he' hp hp' ht h

theorem resembles (hc : ∀ tag tag', change tag tag' → tag.Alike tag') (h : Retagged change cs cs')
    (depth : Nat) : Resembles depth cs cs' := by
  induction h generalizing depth with
  | refl cs => exact .refl depth cs
  | text hc _ ih => exact .text hc (ih depth)
  | markup he he' _ ih => exact .of_enclosed he he' ih
  | startTag he he' hp hp' ht _ ih =>
    exact .markup he he' hp hp' (.startTag (hc _ _ ht)) fun d _ => ih d

end Retagged

end Xml

namespace Run

theorem Yields.of_retagged {r : Request} {source source' : String}
    (h : Xml.Retagged (fun tag tag' => tag.Reorders tag' ∧ tag.SameDefault tag') source.toList
      source'.toList)
    (hy : Yields r source script grammar) : Yields r source' script grammar :=
  hy.of_echo (Xml.events_echo (h.withoutMark.resembles (fun _ _ ht => ht.1.alike ht.2) 0))

/-- The order of the attributes of a tag does not matter, as long as the last declaration of the
default namespace in it stays the same. -/
theorem attribute_order_irrelevant {r : Request} {source source' : String}
    (h : Xml.Retagged (fun tag tag' => tag.Reorders tag' ∧ tag.SameDefault tag') source.toList
      source'.toList) :
    ((∃ result, (ofSource r source).outcome.1 = .ok result) ↔
      ∃ result, (ofSource r source').outcome.1 = .ok result) ∧
    ∀ result result', (ofSource r source).outcome.1 = .ok result →
      (ofSource r source').outcome.1 = .ok result' →
        result'.script = result.script ∧ result'.grammar = result.grammar := by
  have hsymm := h.symm fun tag tag' ht => ⟨ht.1.symm, ht.2.symm⟩
  refine ⟨⟨fun hr => ?_, fun hr => ?_⟩, fun result result' hr hr' => ?_⟩
  · obtain ⟨result, hr⟩ := hr
    obtain ⟨result', hr', _⟩ := Yields.of_retagged h ⟨result, hr, rfl, rfl⟩
    exact ⟨result', hr'⟩
  · obtain ⟨result, hr⟩ := hr
    obtain ⟨result', hr', _⟩ := Yields.of_retagged hsymm ⟨result, hr, rfl, rfl⟩
    exact ⟨result', hr'⟩
  · obtain ⟨found, hfound, hscript, hgrammar⟩ := Yields.of_retagged h ⟨result, hr, rfl, rfl⟩
    obtain rfl := Except.ok.inj (hfound.symm.trans hr')
    exact ⟨hscript, hgrammar⟩

namespace OrderSample

def connection : String := "<management xmlns='urn:jboss:domain:4.2'><outbound-connections>" ++
  "<ldap name='l' url='u'/></outbound-connections></management>"

def swapped : String := "<management xmlns='urn:jboss:domain:4.2'><outbound-connections>" ++
  "<ldap url='u' name='l'/></outbound-connections></management>"

theorem accepted : ∃ result, (ofSource EmptySample.request connection).outcome.1 = .ok result := by
  rw [← isSome_toOption_iff]
  cbv

def tag : Xml.TagText := ⟨"ldap".toList, " name='l' url='u'".toList⟩

def swappedTag : Xml.TagText := ⟨"ldap".toList, " url='u' name='l'".toList⟩

theorem reorders : tag.Reorders swappedTag ∧ tag.SameDefault swappedTag :=
  ⟨⟨rfl, rfl, rfl, by decide⟩, by unfold Xml.TagText.SameDefault; decide⟩

theorem piece_tag : Xml.piece "ldap name='l' url='u'/".toList = .ok (.startTag tag true) := rfl

theorem piece_swappedTag :
    Xml.piece "ldap url='u' name='l'/".toList = .ok (.startTag swappedTag true) := rfl

/-- A document with one tag in it. -/
def around (tag : List Char) : List Char :=
  '<' :: ("management xmlns='urn:jboss:domain:4.2'>".toList ++
    '<' :: ("outbound-connections>".toList ++
      '<' :: (tag ++ '>' :: "</outbound-connections></management>".toList)))

theorem around_retagged {change : Xml.TagText → Xml.TagText → Prop} {tag tag' : List Char}
    (he : ∀ rest, Xml.enclosed (tag ++ '>' :: rest) = .ok (tag, rest))
    (he' : ∀ rest, Xml.enclosed (tag' ++ '>' :: rest) = .ok (tag', rest))
    (hp : Xml.piece tag = .ok (.startTag t empty)) (hp' : Xml.piece tag' = .ok (.startTag t' empty))
    (ht : change t t') : Xml.Retagged change (around tag) (around tag') :=
  .markup rfl rfl (.markup rfl rfl (.startTag (he _) (he' _) hp hp' ht (.refl _)))

end OrderSample

theorem attribute_order_irrelevant_ldap :
    Xml.Retagged (fun tag tag' => tag.Reorders tag' ∧ tag.SameDefault tag')
      OrderSample.connection.toList OrderSample.swapped.toList ∧
    ∃ result, (ofSource EmptySample.request OrderSample.swapped).outcome.1 = .ok result := by
  have hconnection : OrderSample.connection.toList =
      OrderSample.around "ldap name='l' url='u'/".toList := by decide +kernel
  have hswapped : OrderSample.swapped.toList =
      OrderSample.around "ldap url='u' name='l'/".toList := by decide +kernel
  have h : Xml.Retagged (fun tag tag' => tag.Reorders tag' ∧ tag.SameDefault tag')
      OrderSample.connection.toList OrderSample.swapped.toList :=
    (congrArg₂ (Xml.Retagged _) hconnection hswapped).mpr <|
      OrderSample.around_retagged (fun _ => rfl) (fun _ => rfl) OrderSample.piece_tag
        OrderSample.piece_swappedTag OrderSample.reorders
  exact ⟨h, (attribute_order_irrelevant h).1.1 OrderSample.accepted⟩

/-! ### Two declarations of the default namespace -/

namespace DefaultSample

def kept : String := "<management xmlns:" ++ "='x' xmlns='urn:jboss:domain:4.2'/>"

def lost : String := "<management xmlns='urn:jboss:domain:4.2' xmlns:" ++ "='x'/>"

theorem kept_accepted : ∃ result, (ofSource EmptySample.request kept).outcome.1 = .ok result := by
  rw [← isSome_toOption_iff]
  decide +kernel

theorem lost_refused : ¬∃ result, (ofSource EmptySample.request lost).outcome.1 = .ok result := by
  rw [← isSome_toOption_iff]
  decide +kernel

end DefaultSample

/-- An empty prefix declares the default namespace too, and then the order tells which one counts. -/
theorem default_order_matters : ¬∀ (r : Request) (source source' : String),
    Xml.Retagged Xml.TagText.Reorders source.toList source'.toList →
      ((∃ result, (ofSource r source).outcome.1 = .ok result) ↔
        ∃ result, (ofSource r source').outcome.1 = .ok result) := by
  intro h
  have hretagged : Xml.Retagged Xml.TagText.Reorders DefaultSample.kept.toList
      DefaultSample.lost.toList :=
    .startTag rfl rfl rfl rfl ⟨rfl, rfl, rfl, by decide⟩ (.refl _)
  have haccepted := (h EmptySample.request _ _ hretagged).1 DefaultSample.kept_accepted
  exact absurd haccepted DefaultSample.lost_refused

end Run

end ManagementScript
