import ManagementScript.Proofs.Run.Echo
import ManagementScript.Proofs.Tree.Resemblance

/-!
What stands behind the end of the root. A run does not read it: whatever it is, the run gives what it
gives without it.
-/

namespace ManagementScript

namespace Xml

/-- Nothing but white space, comments and processing instructions. -/
inductive IsMisc : List Char → Prop where
  | nil : IsMisc []
  | blank (hc : Text.isBlank c = true) (h : IsMisc cs) : IsMisc (c :: cs)
  | comment (he : enclosed ('!' :: '-' :: '-' :: cs) = .ok (content, rest)) (h : IsMisc rest) :
      IsMisc ('<' :: '!' :: '-' :: '-' :: cs)
  | instruction (he : enclosed ('?' :: cs) = .ok (content, rest)) (hp : piece content = .ok .aside)
      (h : IsMisc rest) : IsMisc ('<' :: '?' :: cs)

/-! ### The text up to the end of the root -/

/-- Texts that begin with one root say the same up to its end. -/
theorem behindRoot_split {cs : List Char} (h : behindRoot steps depth cs = some rest) :
    ∃ front, cs = front ++ rest ∧ front ≠ [] ∧
      ∀ back back', Resembles depth (front ++ back) (front ++ back') := by
  induction steps generalizing depth cs with
  | zero => cases h
  | succ steps ih =>
    obtain ⟨run, markup, content, p, remaining, rfl, hrun, he, hp, hbehind⟩ := behindRoot_eq_some h
    obtain ⟨used, rfl, hused⟩ := enclosed_split he
    cases hd : p.depthBehind depth with
    | none =>
      rw [hd] at hbehind
      cases hbehind
      refine ⟨run ++ '<' :: used, by simp, by simp, fun back back' => ?_⟩
      rw [List.append_assoc, List.append_assoc]
      refine .append hrun (.markup (hused back) (hused back') hp hp (.refl p) fun d hd' => ?_)
      cases hd.symm.trans hd'
    | some d =>
      rw [hd] at hbehind
      obtain ⟨front, rfl, _, hfront⟩ := ih hbehind
      refine ⟨run ++ '<' :: (used ++ front), by simp, by simp, fun back back' => ?_⟩
      simp only [List.append_assoc, List.cons_append]
      refine .append hrun (.markup (hused _) (hused _) hp hp (.refl p) fun d' hd' => ?_)
      cases hd.symm.trans hd'
      exact hfront back back'

theorem exists_mark (cs : List Char) : ∃ mark, cs = mark ++ withoutMark cs := by
  unfold withoutMark
  split
  · exact ⟨['\ufeff'], rfl⟩
  · exact ⟨[], rfl⟩

/-- A root ends behind a part of the text, and texts that begin with this part say the same. -/
theorem exists_of_rootEnd? {source : String} (he : rootEnd? source = some e) :
    ∃ front back, source.toList = front ++ back ∧ Text.byteCount front = e ∧
      ∀ tail tail', Resembles 0 (withoutMark (front ++ tail)) (withoutMark (front ++ tail')) := by
  obtain ⟨back, hback, rfl⟩ := Option.map_eq_some_iff.1 he
  obtain ⟨read, hread, hne, hresembles⟩ := behindRoot_split hback
  obtain ⟨mark, hmark⟩ := exists_mark source.toList
  have hs : source.toList = mark ++ read ++ back := by
    rw [List.append_assoc, ← hread]
    exact hmark
  have hfront : mark ++ read ≠ [] := by simp [hne]
  refine ⟨mark ++ read, back, hs, ?_, fun tail tail' => ?_⟩
  · rw [hs, Text.byteCount_append _ back, Nat.add_sub_cancel]
  · rw [hs, withoutMark_append hfront] at hread
    rw [withoutMark_append hfront, withoutMark_append hfront, List.append_cancel_right hread]
    exact hresembles tail tail'

end Xml

namespace Run

/-- A run over the text succeeds only if nothing but white space, comments and processing instructions
stands behind the end of its root. -/
def ChecksBehindRoot (r : Request) (source : String) : Prop :=
  (∃ result, (ofSource r source).outcome.1 = .ok result) →
    ∀ front back, source.toList = front ++ back →
      Xml.rootEnd? source = some (Text.byteCount front) → Xml.IsMisc back

/-- What is put behind the end of the root changes nothing. -/
theorem yields_behind_root {r : Request} {source : String} {front back : List Char}
    (hs : source.toList = front ++ back) (he : Xml.rootEnd? source = some (Text.byteCount front))
    (tail : List Char) :
    Yields r (String.ofList (front ++ tail)) script grammar ↔ Yields r source script grammar := by
  have hecho (tail tail' : List Char) :
      Xml.Echo 0 (Xml.events (String.ofList (front ++ tail)))
        (Xml.events (String.ofList (front ++ tail'))) := by
    apply Xml.events_echo
    rw [String.toList_ofList, String.toList_ofList]
    obtain ⟨front', back', hs', hbytes, hresembles⟩ := Xml.exists_of_rootEnd? he
    obtain ⟨rfl, _⟩ := Text.append_inj_of_byteCount (hs'.symm.trans hs) hbytes
    exact hresembles tail tail'
  have hsource : source = String.ofList (front ++ back) := by rw [← hs, String.ofList_toList]
  rw [hsource]
  exact ⟨fun h => h.of_echo (hecho tail back), fun h => h.of_echo (hecho back tail)⟩

theorem Yields.accepted {r : Request} {source : String} (h : Yields r source script grammar) :
    ∃ result, (ofSource r source).outcome.1 = .ok result := by
  obtain ⟨result, hr, _⟩ := h
  exact ⟨result, hr⟩

/-- A document that is accepted has a root. What stands behind it is not read, so that the run checks it
only where there is nothing to check, or where the text is refused up to the end of the root. -/
theorem nothing_behind_root_read (r : Request) (source : String) :
    ((∃ result, (ofSource r source).outcome.1 = .ok result) →
      ∃ front back, source.toList = front ++ back ∧
        Xml.rootEnd? source = some (Text.byteCount front)) ∧
    ∀ front back, source.toList = front ++ back →
      Xml.rootEnd? source = some (Text.byteCount front) →
        (∀ tail script grammar, Yields r (String.ofList (front ++ tail)) script grammar ↔
          Yields r source script grammar) ∧
        (ChecksBehindRoot r source ↔
          Xml.IsMisc back ∨ ∃ e, (ofSource r (String.ofList front)).outcome.1 = .error e) := by
  refine ⟨fun haccepted => ?_, fun front back hs he => ⟨fun tail script grammar => ?_, ?_⟩⟩
  · obtain ⟨result, hr⟩ := haccepted
    obtain ⟨_, _, hdocument⟩ := document_of_ofSource hr
    obtain ⟨e, he⟩ := Xml.rootEnd?_of_events (DocumentCompilation.endsRoot_of_document hdocument)
    obtain ⟨front, back, hs, rfl, _⟩ := Xml.exists_of_rootEnd? he
    exact ⟨front, back, hs, he⟩
  · exact yields_behind_root hs he tail
  have hfront (script : Script) (grammar : GrammarNamespace) :
      Yields r (String.ofList front) script grammar ↔ Yields r source script grammar := by
    have hyields := @yields_behind_root script grammar r _ _ _ hs he []
    rwa [List.append_nil] at hyields
  apply Iff.intro
  · intro hchecks
    cases hr : (ofSource r (String.ofList front)).outcome.1 with
    | error e => exact .inr ⟨e, rfl⟩
    | ok result =>
      have hyields := (hfront _ _).1 ⟨result, hr, rfl, rfl⟩
      exact .inl (hchecks hyields.accepted front back hs he)
  · intro h haccepted front' back' hs' he'
    obtain ⟨rfl, rfl⟩ := Text.append_inj_of_byteCount (hs.symm.trans hs')
      (Option.some.inj (he.symm.trans he'))
    rcases h with hmisc | ⟨e, hrefused⟩
    · exact hmisc
    · obtain ⟨result, hr⟩ := haccepted
      obtain ⟨_, hr', _⟩ := (hfront _ _).2 ⟨result, hr, rfl, rfl⟩
      rw [hrefused] at hr'
      cases hr'

theorem nothing_behind_root_read_empty : Xml.rootEnd? EmptySample.source = some 42 ∧
    ∃ result, (ofSource EmptySample.request
      (String.ofList (EmptySample.source.toList.take 42 ++ "x".toList))).outcome.1 = .ok result := by
  obtain ⟨_, hresult⟩ := EmptySample.accepted
  have hbytes : Text.byteCount (EmptySample.source.toList.take 42) = 42 := by decide
  have hunread := (nothing_behind_root_read EmptySample.request EmptySample.source).2 _ _
    (List.take_append_drop 42 _).symm (hbytes.symm ▸ EmptySample.rootEnd?_eq)
  have hyields := (hunread.1 "x".toList _ _).2 ⟨_, hresult, rfl, rfl⟩
  exact ⟨EmptySample.rootEnd?_eq, hyields.accepted⟩

/-! ### A root with text behind it -/

namespace TrailingSample

def source : String := "<management xmlns='urn:jboss:domain:4.2'/>x"

theorem accepted : ∃ result, (ofSource EmptySample.request source).outcome.1 = .ok result := by
  rw [← isSome_toOption_iff]
  decide +kernel

theorem rootEnd?_eq : Xml.rootEnd? source = some 42 := by decide +kernel

end TrailingSample

/-- Text behind the root is accepted. -/
theorem trailing_text_accepted : ¬∀ (r : Request) (source : String), ChecksBehindRoot r source := by
  intro h
  have hbytes : Text.byteCount (TrailingSample.source.toList.take 42) = 42 := by decide
  have hmisc := h EmptySample.request TrailingSample.source TrailingSample.accepted _ _
    (List.take_append_drop 42 _).symm (hbytes.symm ▸ TrailingSample.rootEnd?_eq)
  have hbehind : TrailingSample.source.toList.drop 42 = ['x'] := by decide
  rw [hbehind] at hmisc
  cases hmisc with
  | blank hc => exact absurd hc (by decide)

end Run

end ManagementScript
