import ManagementScript.Proofs.Tree.Attributes
import ManagementScript.Proofs.Tree.Heads
import ManagementScript.Proofs.Tree.Root
import ManagementScript.Proofs.Tree.Tokens

/-!
Documents that say the same up to the end of their roots. They may differ in the places of what they
say, in the order of the attributes of a tag, and in everything behind the root. What a cursor reads in
one of them it reads in the other.
-/

namespace ManagementScript

namespace Xml

/-- The events on the right say what those on the left say, as far as these can be read, up to the end
of the root; `depth` elements are open before them. -/
inductive Echo : Nat → List Event → List Event → Prop where
  | ended : Echo depth [] other
  | fault : Echo depth (.fault offset defect :: ahead) other
  | unread (h : ∀ p attrs, Cursor.readAttributes p tag scope ≠ .ok attrs) :
      Echo depth (.start offset name tag scope :: ahead) other
  | text (h : Echo depth ahead ahead') :
      Echo depth (.text offset raw :: ahead) (.text offset' raw :: ahead')
  | cdata (h : Echo depth ahead ahead') :
      Echo depth (.cdata offset content :: ahead) (.cdata offset' content :: ahead')
  | start (ha : ∀ p, Cursor.readAttributes p tag scope = .ok attrs)
      (ha' : ∀ p, Cursor.readAttributes p tag' scope' = .ok attrs') (hp : attrs.Perm attrs')
      (h : Echo (depth + 1) ahead ahead') :
      Echo depth (.start offset name tag scope :: ahead) (.start offset' name tag' scope' :: ahead')
  | finish (h : 1 < depth → Echo (depth - 1) ahead ahead') :
      Echo depth (.finish offset name :: ahead) (.finish offset' name :: ahead')

end Xml

namespace Cursor

/-- The cursors are on tags that say the same, inside elements of the same names. -/
structure Alike (c c' : Cursor) : Prop where
  opened : c'.opened = c.opened
  localName : c'.localName = c.localName
  namespaceUri : c'.namespaceUri = c.namespaceUri
  attributes : c.attributes.Perm c'.attributes
  distinct : c.Distinct

/-- The cursor `c'` is where `c` is, in a document that says the same. -/
structure Echo (c c' : Cursor) : Prop extends Alike c c' where
  pending : c.opened ≠ [] → Xml.Echo c.depth c.pending c'.pending

theorem Alike.before {c c' : Cursor} (h : c.Alike c') (events events' : List Xml.Event) :
    (c.before events).Alike (c'.before events') :=
  ⟨h.opened, h.localName, h.namespaceUri, h.attributes, h.distinct⟩

theorem Echo.before {c c' : Cursor} (h : c.Echo c') (hevents : Xml.Echo c.depth events events') :
    (c.before events).Echo (c'.before events') :=
  ⟨h.toAlike.before _ _, fun _ => hevents⟩

theorem openElement_eq_ok {c i : Cursor} : c.openElement offset name tag scope = .ok i ↔
    ∃ uri attrs, namespaceOf (c.lines.positionAt offset) name = .ok uri ∧
      readAttributes (c.lines.positionAt offset) tag scope = .ok attrs ∧
      c.depth + 1 ≤ Limits.openElements ∧ attrs.length ≤ Limits.attributes ∧
      i = { c with
        opened := name.localName :: c.opened
        localName := name.localName
        namespaceUri := uri
        attributes := attrs
        position := c.lines.positionAt offset } := by
  simp only [openElement, bind_eq_ok_iff]
  apply Iff.intro
  · intro h
    obtain ⟨uri, huri, h⟩ := h
    split at h
    · cases h
    next hdepth =>
    obtain ⟨attrs, hattrs, h⟩ := bind_eq_ok_iff.1 h
    split at h
    · cases h
    next hlength =>
    cases h
    exact ⟨uri, attrs, huri, hattrs, Nat.not_lt.1 hdepth, Nat.not_lt.1 hlength, rfl⟩
  · intro h
    obtain ⟨uri, attrs, huri, hattrs, hdepth, hlength, rfl⟩ := h
    refine ⟨uri, huri, ?_⟩
    rw [if_neg (Nat.not_lt.2 hdepth), hattrs]
    exact if_neg (Nat.not_lt.2 hlength)

theorem closeElement_eq_ok {c d : Cursor} : c.closeElement offset name = .ok d ↔
    ∃ uri, namespaceOf (c.lines.positionAt offset) name = .ok uri ∧
      d = { c with
        opened := c.opened.tail
        localName := name.localName
        namespaceUri := uri
        attributes := []
        position := c.lines.positionAt offset } := by
  simp only [closeElement]
  rw [bind_eq_ok_iff]
  simp only [Except.ok.injEq, eq_comm (b := d)]

/-- A start tag that is read is read in the other document too. -/
theorem Alike.openElement {c c' i : Cursor} (h : c.Alike c')
    (ha : ∀ p, readAttributes p tag scope = .ok attrs)
    (ha' : ∀ p, readAttributes p tag' scope' = .ok attrs') (hp : attrs.Perm attrs')
    (hevents : Xml.Echo (c.depth + 1) events events')
    (hi : (c.before events).openElement offset name tag scope = .ok i) :
    ∃ i', (c'.before events').openElement offset' name tag' scope' = .ok i' ∧ i.Echo i' := by
  have hdistinct := distinct_of_openElement hi
  obtain ⟨uri, _, huri, hattrs, hdepth, hlength, rfl⟩ := openElement_eq_ok.1 hi
  obtain rfl := Except.ok.inj ((ha _).symm.trans hattrs)
  have hdepth' : c'.depth = c.depth := congrArg List.length h.opened
  refine ⟨_, openElement_eq_ok.2 ⟨uri, attrs', namespaceOf_eq_ok.2 (namespaceOf_eq_ok.1 huri), ha' _,
    hdepth'.symm ▸ hdepth, hp.length_eq ▸ hlength, rfl⟩, ?_⟩
  exact ⟨⟨congrArg (_ :: ·) h.opened, rfl, rfl, hp, hdistinct⟩, fun _ => hevents⟩

theorem Alike.closeElement {c c' d : Cursor} (h : c.Alike c')
    (hevents : 1 < c.depth → Xml.Echo (c.depth - 1) events events')
    (hd : (c.before events).closeElement offset name = .ok d) :
    ∃ d', (c'.before events').closeElement offset' name = .ok d' ∧ d.Echo d' := by
  obtain ⟨uri, huri, rfl⟩ := closeElement_eq_ok.1 hd
  refine ⟨_, closeElement_eq_ok.2 ⟨uri, namespaceOf_eq_ok.2 (namespaceOf_eq_ok.1 huri), rfl⟩, ?_⟩
  refine ⟨⟨congrArg List.tail h.opened, rfl, rfl, .refl _, .nil⟩, fun hopened => ?_⟩
  have hinner : 0 < c.depth - 1 := by
    have hlength := List.length_pos_iff.2 hopened
    rwa [List.length_tail] at hlength
  rw [depth, List.length_tail]
  exact hevents (by omega)

theorem readText_eq_ok {c : Cursor} : c.readText offset raw = .ok content ↔
    Xml.resolveReferences raw = .ok content := by
  rw [readText]
  cases Xml.resolveReferences raw with
  | ok => simp [Except.mapError]
  | error => simp [Except.mapError]

/-! ### Moves -/

/-- A move over text goes on only behind blank text. -/
theorem readText_of_next {c d : Cursor} (hp : c.pending = .text offset raw :: events)
    (h : c.next = (.ok tag, d)) :
    ∃ content, Xml.resolveReferences raw = .ok content ∧ Text.trimmed content = "" := by
  cases ht : c.readText offset raw with
  | error e =>
    simp only [next, hp, nextAmong, ht] at h
    cases h
  | ok content =>
    by_cases hb : Text.trimmed content = ""
    · exact ⟨content, readText_eq_ok.1 ht, hb⟩
    · rw [next_stray_text hp ht hb] at h
      cases h

theorem Echo.next {c c' d : Cursor} (h : c.Echo c')
    (hevents : Xml.Echo c.depth c.pending c'.pending) (hnext : c.next = (.ok tag, d))
    (htag : tag ≠ .endOfDocument) : ∃ d', c'.next = (.ok tag, d') ∧ d.Echo d' := by
  generalize hp : c.pending = ahead, hp' : c'.pending = ahead', hn : c.depth = depth at hevents
  induction hevents generalizing c c' with
  | ended =>
    simp only [Cursor.next, hp, nextAmong] at hnext
    split at hnext
    · cases hnext
      exact absurd rfl htag
    · cases hnext
  | fault =>
    rw [Cursor.next, hp] at hnext
    cases hnext
  | unread hunread =>
    rw [next_eq_settle_start hp] at hnext
    obtain ⟨_, attrs, _, hattrs, _⟩ := openElement_eq_ok.1 (settle_eq_ok hnext)
    exact absurd hattrs (hunread _ _)
  | text hrest ih =>
    obtain ⟨content, ht, hb⟩ := readText_of_next hp hnext
    rw [next_text hp (readText_eq_ok.2 ht) hb] at hnext
    rw [next_text hp' (readText_eq_ok.2 ht) hb]
    exact ih (h.before (hn ▸ hrest)) hnext rfl rfl hn
  | @cdata _ _ _ _ content _ hrest ih =>
    by_cases hb : Text.trimmed (String.ofList content) = ""
    · rw [next_cdata hp hb] at hnext
      rw [next_cdata hp' hb]
      exact ih (h.before (hn ▸ hrest)) hnext rfl rfl hn
    · rw [next_stray_cdata hp hb] at hnext
      cases hnext
  | start ha ha' hperm hrest _ =>
    subst hn
    rw [next_eq_settle_start hp] at hnext
    have hi := settle_eq_ok hnext
    rw [hi] at hnext
    cases hnext
    obtain ⟨i', hi', hecho⟩ := h.toAlike.openElement ha ha' hperm hrest hi
    exact ⟨i', next_start hp' hi', hecho⟩
  | finish hrest _ =>
    subst hn
    rw [next_eq_settle_finish hp] at hnext
    have hd := settle_eq_ok hnext
    rw [hd] at hnext
    cases hnext
    obtain ⟨d', hd', hecho⟩ := h.toAlike.closeElement hrest hd
    exact ⟨d', next_finish hp' hd', hecho⟩

theorem Echo.textBehind {c c' d : Cursor} (h : c.Echo c')
    (hevents : Xml.Echo c.depth c.pending c'.pending)
    (hread : c.textBehind start = (.ok text, d)) :
    ∃ d', c'.textBehind start = (.ok text, d') ∧ d.Echo d' := by
  generalize hp : c.pending = ahead, hp' : c'.pending = ahead', hn : c.depth = depth at hevents
  induction hevents generalizing c c' start with
  | ended | fault | unread | start =>
    rw [Cursor.textBehind, hp] at hread
    cases hread
  | text hrest ih =>
    rw [Cursor.textBehind, hp] at hread
    simp only [textAmong] at hread
    split at hread
    · cases hread
    next content ht =>
    rw [Cursor.textBehind, hp']
    simp only [textAmong, readText_eq_ok.2 (readText_eq_ok.1 ht)]
    rw [← textAmong_before] at hread ⊢
    exact ih (h.before (hn ▸ hrest)) hread rfl rfl hn
  | cdata hrest ih =>
    rw [Cursor.textBehind, hp, textAmong, ← textAmong_before] at hread
    rw [Cursor.textBehind, hp', textAmong, ← textAmong_before]
    exact ih (h.before (hn ▸ hrest)) hread rfl rfl hn
  | finish hrest _ =>
    subst hn
    rw [textBehind_eq_settle hp] at hread
    have hd := settle_eq_ok hread
    rw [hd] at hread
    cases hread
    obtain ⟨d', hd', hecho⟩ := h.toAlike.closeElement hrest hd
    refine ⟨d', ?_, hecho⟩
    rw [textBehind_eq_settle hp', hd']
    rfl

theorem Echo.elementText {c c' d : Cursor} (h : c.Echo c') (ho : c.opened ≠ [])
    (htext : c.elementText = (.ok text, d)) : ∃ d', c'.elementText = (.ok text, d') ∧ d.Echo d' :=
  h.textBehind (h.pending ho) htext

theorem Alike.skipAmong {c c' d : Cursor} (h : c.Alike c') (ht : target < c.depth)
    (hevents : Xml.Echo c.depth events events')
    (hskip : skipAmong target c events = (.ok (), d)) :
    ∃ d', Cursor.skipAmong target c' events' = (.ok (), d') ∧ d.Echo d' := by
  have hdepth {c c' : Cursor} (h : c.Alike c') : c'.depth = c.depth := congrArg List.length h.opened
  generalize hn : c.depth = depth at hevents
  induction hevents generalizing c c' with
  | ended => cases (skipAmong_nil ht).symm.trans hskip
  | fault => cases (skipAmong_cons ht).symm.trans hskip
  | unread hunread =>
    obtain ⟨i, hi, _⟩ := (skipAmong_start_eq_ok ht).1 hskip
    obtain ⟨_, attrs, _, hattrs, _⟩ := openElement_eq_ok.1 hi
    exact absurd hattrs (hunread _ _)
  | text hrest ih | cdata hrest ih =>
    rw [skipAmong_cons ht] at hskip
    rw [skipAmong_cons ((hdepth h).symm ▸ ht)]
    refine ih (h.before _ _) ?_ hskip hn
    exact ht
  | start ha ha' hperm hrest ih =>
    subst hn
    obtain ⟨i, hi, hskip⟩ := (skipAmong_start_eq_ok ht).1 hskip
    obtain ⟨i', hi', hecho⟩ := h.openElement ha ha' hperm hrest hi
    have hinside : i.depth = c.depth + 1 := openElement_depth hi
    obtain ⟨d', hd', hout⟩ := ih hecho.toAlike (by omega) hskip hinside
    exact ⟨d', (skipAmong_start_eq_ok ((hdepth h).symm ▸ ht)).2 ⟨i', hi', hd'⟩, hout⟩
  | finish hrest ih =>
    subst hn
    obtain ⟨o, hclose, hskip⟩ := (skipAmong_finish_eq_ok ht).1 hskip
    obtain ⟨o', hclose', hecho⟩ := h.closeElement hrest hclose
    have houtside : o.depth = c.depth - 1 := closeElement_depth hclose
    obtain ⟨d', hd', hout⟩ : ∃ d', Cursor.skipAmong target o' _ = (.ok (), d') ∧ d.Echo d' := by
      by_cases hreached : o.depth ≤ target
      · have hstop := skipAmong_of_le hreached
        have hstop' := skipAmong_of_le ((hdepth hecho.toAlike).trans_le hreached)
        rw [(closeElement_pending hclose).1] at hstop
        rw [(closeElement_pending hclose').1] at hstop'
        cases hstop.symm.trans hskip
        exact ⟨o', hstop', hecho⟩
      · exact ih (by omega) hecho.toAlike (by omega) hskip houtside
    exact ⟨d', (skipAmong_finish_eq_ok ((hdepth h).symm ▸ ht)).2 ⟨o', hclose', hd'⟩, hout⟩

/-- What is skipped in a document is skipped in the other one. -/
theorem Echo.skipElement {c c' d : Cursor} (h : c.Echo c') (ho : c.opened ≠ [])
    (hskip : c.skipElement = (.ok (), d)) : ∃ d', c'.skipElement = (.ok (), d') ∧ d.Echo d' := by
  have hopen : 0 < c.depth := List.length_pos_iff.2 ho
  have hdepth : c'.depth = c.depth := congrArg List.length h.opened
  rw [Cursor.skipElement, hdepth]
  exact h.toAlike.skipAmong (by omega) (h.pending ho) hskip

end Cursor

end ManagementScript
