import ManagementScript.Proofs.Tree.Tokens

/-!
Trees with one thing in them that is not of the grammar, and how a cursor comes upon it. Up to there
its moves are those over the tree without it.
-/

namespace ManagementScript

/-- The grammar has no attributes in namespaces, and none under names outside the vocabulary. -/
def Attribute.IsUnknown (a : Attribute) : Prop :=
  a.namespaceUri.isSome ∨ AttributeName.ofString a.localName = .unknown

namespace Element

/-- The element is in another namespace, or its name is not in the vocabulary. -/
def IsForeign (grammar : GrammarNamespace) (e : Element) : Prop :=
  e.namespaceUri ≠ some grammar.uri ∨ e.kind = .unknown

def node (e : Element) : Node := .element e.namespaceUri e.localName e.attributes e.content

/-- The second element is the first with one thing more that is not of the grammar: an attribute of
some start tag, or a child somewhere inside. The text around such a child may be cut in another way,
because it is read in two parts. -/
inductive Gains (grammar : GrammarNamespace) : Element → Element → Prop where
  | tag (a : Attribute) (ha : a.IsUnknown) :
      Gains grammar ⟨uri, name, before ++ after, nodes⟩ ⟨uri, name, before ++ a :: after, nodes⟩
  | child (c : Element) (hc : c.IsForeign grammar) (texts left right : List String) :
      Gains grammar ⟨uri, name, attrs, before ++ (texts.map .text ++ after)⟩
        ⟨uri, name, attrs, before ++ (left.map .text ++ c.node :: (right.map .text ++ after))⟩
  | inside (h : Gains grammar c c') :
      Gains grammar ⟨uri, name, attrs, before ++ c.node :: after⟩
        ⟨uri, name, attrs, before ++ c'.node :: after⟩

end Element

/-- Before the last `n` tokens on the left the sequences part, where the one on the right comes to
something that is not of the grammar. -/
inductive Spoiled (grammar : GrammarNamespace) (n : Nat) :
    List (Option Token) → List (Option Token) → Prop where
  | same (h : Spoiled grammar n p q) : Spoiled grammar n (x :: p) (x :: q)
  | tag (ha : ∃ a ∈ attrs', Attribute.IsUnknown a) (hn : n ≤ p.length) :
      Spoiled grammar n (some (.start uri label attrs) :: p) (some (.start uri label attrs') :: q)
  | child (left : List String) (c : Element) (hc : c.IsForeign grammar) (hn : n < p.length) :
      Spoiled grammar n p ((left.map Token.text).map some ++
        some (.start c.namespaceUri c.localName c.attributes) :: q)

namespace Spoiled

variable {grammar : GrammarNamespace}

theorem lt_length (h : Spoiled grammar n p q) : n < p.length := by
  induction h with
  | same _ ih => exact Nat.lt_succ_of_lt ih
  | tag _ hn => exact Nat.lt_succ_of_le hn
  | child _ _ _ hn => exact hn

theorem length_pos (h : Spoiled grammar n p q) : 0 < q.length := by
  cases h with
  | same | tag => exact Nat.succ_pos _
  | child left =>
    rw [List.length_append]
    exact Nat.lt_of_lt_of_le (Nat.succ_pos _) (Nat.le_add_left ..)

theorem append (h : Spoiled grammar n p q) (xs : List (Option Token)) :
    Spoiled grammar n (xs ++ p) (xs ++ q) := by
  induction xs with
  | nil => exact h
  | cons x xs ih => exact ih.same

end Spoiled

namespace Element

variable {grammar : GrammarNamespace}

theorem tokens_node (e : Element) : e.node.tokens =
    .start e.namespaceUri e.localName e.attributes :: e.tokensInside := by
  rw [node, Node.tokens, tokensInside]

/-- What an element gains is an attribute of its own, or it is met among what stands inside. -/
theorem Gains.spoils (h : Gains grammar e e') :
    e'.namespaceUri = e.namespaceUri ∧ e'.localName = e.localName ∧
      ((∃ a ∈ e'.attributes, Attribute.IsUnknown a) ∨ e'.attributes = e.attributes ∧
        ∀ more more', n ≤ more.length →
          Spoiled grammar n (e.tokensInside.map some ++ more) (e'.tokensInside.map some ++ more')) := by
  induction h with
  | tag a ha =>
    exact ⟨rfl, rfl, .inl ⟨a, List.mem_append_right _ (List.mem_cons_self ..), ha⟩⟩
  | @child _ _ _ before after c hc texts left right =>
    refine ⟨rfl, rfl, .inr ⟨rfl, fun more more' hn => ?_⟩⟩
    simp only [tokensInside, Node.tokensOfAll_append, Node.tokensOfAll_texts, Node.tokensOfAll,
      tokens_node, List.map_append, List.append_assoc, List.cons_append, List.map_cons]
    refine (Spoiled.child left c hc ?_).append _
    simp only [List.length_append, List.length_cons]
    omega
  | @inside c c' _ _ _ before after _ ih =>
    obtain ⟨huri, hname, hspoiled⟩ := ih
    refine ⟨rfl, rfl, .inr ⟨rfl, fun more more' hn => ?_⟩⟩
    simp only [tokensInside, Node.tokensOfAll_append, Node.tokensOfAll, tokens_node,
      List.map_append, List.append_assoc, List.cons_append, List.map_cons, huri, hname]
    apply Spoiled.append
    rcases hspoiled with ha | ⟨hattributes, hinside⟩
    · refine .tag ha ?_
      simp only [List.length_append, List.length_cons]
      omega
    · rw [hattributes]
      apply Spoiled.same
      have hmore := hinside (((Node.tokensOfAll after ++ [Token.finish]).map some) ++ more)
        (((Node.tokensOfAll after ++ [Token.finish]).map some) ++ more') (by
          rw [List.length_append]
          omega)
      simpa [tokensInside] using hmore

end Element

namespace Cursor

variable {grammar : GrammarNamespace}

/-- Where a move leads over spoiled tokens, if it leads to the tag `c` over those that are not
spoiled. -/
inductive Meets (grammar : GrammarNamespace) (n : Nat) (c : Cursor) : Tag → Moved Tag → Prop where
  | limit (he : e.IsLimit) : Meets grammar n c tag (.error e, d)
  | stray : Meets grammar n c tag (.error (.stray shown p), d)
  | foreign (hi : (i.element []).IsForeign grammar) : Meets grammar n c tag (.ok .start, i)
  | tag (huri : i.namespaceUri = c.namespaceUri) (hname : i.localName = c.localName)
      (ha : ∃ a ∈ i.attributes, Attribute.IsUnknown a) : Meets grammar n c .start (.ok .start, i)
  | start (huri : i.namespaceUri = c.namespaceUri) (hname : i.localName = c.localName)
      (ha : i.attributes = c.attributes) (h : Spoiled grammar n c.ahead i.ahead) :
      Meets grammar n c .start (.ok .start, i)
  | finish (ha : d.attributes = c.attributes) (h : Spoiled grammar n c.ahead d.ahead) :
      Meets grammar n c .finish (.ok .finish, d)

theorem meets_child {c i : Cursor} (left : List String) {e : Element} (he : e.IsForeign grammar)
    (h : i.ahead = (left.map Token.text).map some ++
      some (.start e.namespaceUri e.localName e.attributes) :: q) :
    Meets grammar n c tag i.next := by
  induction left generalizing i with
  | nil =>
    rcases next_of_start h with ⟨e, d, hd, hlimit⟩ | ⟨i', hi, huri, hname, -, -⟩
    · rw [hd]
      exact .limit hlimit
    · rw [hi]
      refine .foreign ?_
      rw [Element.IsForeign, Element.kind, element, huri, hname]
      exact he
  | cons content left ih =>
    obtain ⟨i', hi, hblank, hstray⟩ := next_of_text h
    by_cases hb : Text.trimmed content = ""
    · rw [hblank hb]
      exact ih hi
    · obtain ⟨position, hd⟩ := hstray hb
      rw [hd]
      exact .stray

theorem meets_next {c d i : Cursor} (h : Spoiled grammar n c.ahead i.ahead)
    (hc : c.next = (.ok tag, d)) : Meets grammar n d tag i.next := by
  generalize hp : c.ahead = p at h
  generalize hq : i.ahead = q at h
  -- By the tokens in front: over blank text both cursors go on, and a tag ends the move of both.
  induction h generalizing c i with
  | @same _ _ x h ih =>
    match x with
    | none => exact absurd hc (next_ne_ok_of_none hp)
    | some (.text content) =>
      obtain ⟨c', hc', hblank, hstray⟩ := next_of_text hp
      obtain ⟨i', hi', hblank', -⟩ := next_of_text hq
      by_cases hb : Text.trimmed content = ""
      · rw [hblank' hb]
        exact ih (hblank hb ▸ hc) hc' hi'
      · obtain ⟨_, hd⟩ := hstray hb
        rw [hd] at hc
        cases hc
    | some (.start uri label attrs) =>
      rcases next_of_start hp with ⟨_, _, hd, -⟩ | ⟨c', hd, rfl, rfl, rfl, hahead⟩
      · rw [hd] at hc
        cases hc
      rw [hd] at hc
      cases hc
      rcases next_of_start hq with ⟨_, _, hd, hlimit⟩ | ⟨i', hd, huri, hname, ha, hahead'⟩
      · rw [hd]
        exact .limit hlimit
      · rw [hd]
        exact .start huri hname ha (hahead ▸ hahead' ▸ h)
    | some .finish =>
      obtain ⟨c', hd, ha, hahead⟩ := next_of_finish hp
      obtain ⟨i', hd', ha', hahead'⟩ := next_of_finish hq
      rw [hd] at hc
      cases hc
      rw [hd']
      exact .finish (ha'.trans ha.symm) (hahead ▸ hahead' ▸ h)
  | tag ha =>
    rcases next_of_start hp with ⟨_, _, hd, -⟩ | ⟨c', hd, rfl, rfl, rfl, -⟩
    · rw [hd] at hc
      cases hc
    rw [hd] at hc
    cases hc
    rcases next_of_start hq with ⟨_, _, hd, hlimit⟩ | ⟨i', hd, huri, hname, rfl, -⟩
    · rw [hd]
      exact .limit hlimit
    · rw [hd]
      exact .tag huri hname ha
  | child left e he => exact meets_child left he hq

theorem stray_textBehind {c : Cursor} (left : List String)
    (h : c.ahead = (left.map Token.text).map some ++ some (.start uri label attrs) :: q)
    (text : String) :
    ∃ content position d, c.textBehind text = (.error (.stray content position), d) := by
  induction left generalizing c text with
  | nil =>
    obtain ⟨position, d, hd⟩ := textBehind_of_start h text
    exact ⟨_, position, d, hd⟩
  | cons content left ih =>
    obtain ⟨c', hc, hd⟩ := textBehind_of_text h text
    rw [hd]
    exact ih hc _

/-- The text of an element is read up to the end tag, unless an element stands inside. -/
theorem meets_textBehind {c d i : Cursor} (h : Spoiled grammar n c.ahead i.ahead)
    (hc : c.textBehind text = (.ok result, d)) :
    (∃ content position i', i.textBehind text = (.error (.stray content position), i')) ∨
      ∃ i', i.textBehind text = (.ok result, i') ∧ i'.attributes = d.attributes ∧
        Spoiled grammar n d.ahead i'.ahead := by
  generalize hp : c.ahead = p at h
  generalize hq : i.ahead = q at h
  induction h generalizing c i text with
  | @same _ _ x h ih =>
    match x with
    | none => exact absurd hc (textBehind_ne_ok_of_none hp)
    | some (.text content) =>
      obtain ⟨c', hc', hd⟩ := textBehind_of_text hp text
      obtain ⟨i', hi', hd'⟩ := textBehind_of_text hq text
      rw [hd] at hc
      rw [hd']
      exact ih hc hc' hi'
    | some (.start uri label attrs) =>
      obtain ⟨_, _, hd⟩ := textBehind_of_start hp text
      rw [hd] at hc
      cases hc
    | some .finish =>
      obtain ⟨c', hd, ha, hahead⟩ := textBehind_of_finish hp text
      obtain ⟨i', hd', ha', hahead'⟩ := textBehind_of_finish hq text
      rw [hd] at hc
      cases hc
      exact .inr ⟨i', hd', ha'.trans ha.symm, hahead ▸ hahead' ▸ h⟩
  | tag =>
    obtain ⟨_, _, hd⟩ := textBehind_of_start hp text
    rw [hd] at hc
    cases hc
  | child left => exact .inl (stray_textBehind left hq text)

end Cursor

end ManagementScript
