import ManagementScript.Proofs.Tree.Ending

/-!
What a cursor reads, told without the places it is read at. A tree is a sequence of tokens, and two
cursors with the same tokens before them move alike.
-/

namespace ManagementScript

inductive Token where
  | text (content : String)
  | start (namespaceUri : Option String) (localName : String) (attributes : List Attribute)
  | finish

namespace Node

mutual

def tokens : Node → List Token
  | .text content => [.text content]
  | .element uri name attributes content =>
    .start uri name attributes :: (tokensOfAll content ++ [.finish])

def tokensOfAll : List Node → List Token
  | [] => []
  | node :: nodes => node.tokens ++ tokensOfAll nodes

end

theorem tokensOfAll_append (nodes nodes' : List Node) :
    tokensOfAll (nodes ++ nodes') = tokensOfAll nodes ++ tokensOfAll nodes' := by
  induction nodes with
  | nil => rfl
  | cons node nodes ih => rw [List.cons_append, tokensOfAll, tokensOfAll, ih, List.append_assoc]

theorem tokensOfAll_texts (texts : List String) :
    tokensOfAll (texts.map .text) = texts.map .text := by
  induction texts with
  | nil => rfl
  | cons content texts ih =>
    rw [List.map_cons, List.map_cons, tokensOfAll, ih, tokens]
    rfl

end Node

/-- A limit of the reader is passed. -/
def ReadError.IsLimit : ReadError → Prop
  | nestingTooDeep depth max _ => max = Limits.openElements ∧ max < depth
  | tooManyAttributes _ count max _ => max = Limits.attributes ∧ max < count
  | _ => False

/-- The tokens of what stands inside the element and of its end tag. -/
def Element.tokensInside (e : Element) : List Token := Node.tokensOfAll e.content ++ [.finish]

namespace Cursor

/-- What an event says, if it can be read. -/
def token (lines : LineIndex) : Xml.Event → Except ReadError Token
  | .start offset name tag scope => do
    let uri ← namespaceOf (lines.positionAt offset) name
    let attributes ← readAttributes (lines.positionAt offset) tag scope
    return .start uri name.localName attributes
  | .finish offset name => do
    discard (namespaceOf (lines.positionAt offset) name)
    return .finish
  | .text offset raw => do
    match Xml.resolveReferences raw with
    | .error defect => .error (.malformed defect.message (lines.positionAt offset))
    | .ok content => return .text content
  | .cdata _ content => return .text (String.ofList content)
  | .fault offset defect => .error (.malformed defect.message (lines.positionAt offset))

/-- The tokens that are not read yet. -/
def ahead (c : Cursor) : List (Option Token) :=
  c.pending.map fun event => (token c.lines event).toOption

/-- The cursor is on the start tag of `e`, and what stands inside `e` is before it. Whether the limits
of the reader let it be read is left open. -/
structure Faces (c : Cursor) (e : Element) : Prop where
  start : e = c.element e.content
  inside : ∃ behind, c.ahead = e.tokensInside.map some ++ behind

/-! ### From events to tokens -/

theorem token_of_openElement {c i : Cursor} (h : c.openElement offset name tag scope = .ok i) :
    token c.lines (.start offset name tag scope) =
      .ok (.start i.namespaceUri i.localName i.attributes) := by
  simp only [openElement] at h
  obtain ⟨uri, huri, h⟩ := bind_eq_ok_iff.1 h
  split at h
  · cases h
  obtain ⟨attributes, hattributes, h⟩ := bind_eq_ok_iff.1 h
  split at h
  · cases h
  cases h
  simp only [token, huri, hattributes]
  rfl

theorem token_of_closeElement {c d : Cursor} (h : c.closeElement offset name = .ok d) :
    token c.lines (.finish offset name) = .ok .finish := by
  simp only [closeElement] at h
  obtain ⟨uri, huri, _⟩ := bind_eq_ok_iff.1 h
  simp only [token, huri]
  rfl

theorem token_of_readText {c : Cursor} (h : c.readText offset raw = .ok content) :
    token c.lines (.text offset raw) = .ok (.text content) := by
  simp only [readText] at h
  simp only [token]
  cases hr : Xml.resolveReferences raw with
  | error e =>
    rw [hr] at h
    cases h
  | ok content' =>
    rw [hr] at h
    cases h
    rfl

theorem ahead_of_pending {c : Cursor} (hp : c.pending = event :: events) :
    c.ahead = (token c.lines event).toOption :: (c.before events).ahead := by
  rw [ahead, hp, List.map_cons]
  rfl

theorem ahead_of_openElement {c i : Cursor} (h : c.openElement offset name tag scope = .ok i) :
    i.ahead = c.ahead := by
  rw [ahead, ahead, (openElement_reads h).1, (openElement_moves h).2.2]

theorem ahead_of_closeElement {c d : Cursor} (h : c.closeElement offset name = .ok d) :
    d.ahead = c.ahead := by
  rw [ahead, ahead, (closeElement_pending h).1, (closeElement_moves h).2.2.1]

/-- What is enclosed is before the cursor as tokens. -/
theorem Encloses.ahead {c d : Cursor} (h : c.Encloses nodes d) :
    c.ahead = (Node.tokensOfAll nodes ++ [Token.finish]).map some ++ d.ahead := by
  induction h with
  | finish hp hd =>
    rw [ahead_of_pending hp, ahead_of_closeElement hd]
    exact congrArg (·.toOption :: _) (token_of_closeElement hd)
  | text hp ht _ ih =>
    rw [ahead_of_pending hp, token_of_readText ht, ih]
    rfl
  | cdata hp _ ih =>
    rw [ahead_of_pending hp, ih]
    rfl
  | element hp hi _ _ ihin ih =>
    rw [ahead_of_pending hp, ← ahead_of_openElement hi, ihin, ih]
    apply (congrArg (·.toOption :: _) (token_of_openElement hi)).trans
    simp [Node.tokensOfAll, Node.tokens, Except.toOption]

theorem Spans.faces {c d : Cursor} (h : c.Spans e d) : c.Faces e :=
  ⟨h.start, d.ahead, h.inside.ahead⟩

theorem pending_of_ahead {c : Cursor} (h : c.ahead = x :: p) :
    ∃ event events, c.pending = event :: events ∧ (token c.lines event).toOption = x ∧
      (c.before events).ahead = p := by
  obtain ⟨event, events, hp, hx, hrest⟩ := List.map_eq_cons_iff.1 h
  exact ⟨event, events, hp, hx, hrest⟩

/-! ### From tokens to events -/

theorem token_eq_text {c : Cursor} (h : token c.lines event = .ok (.text content)) :
    (∃ offset raw, event = .text offset raw ∧ c.readText offset raw = .ok content) ∨
      ∃ offset written, event = .cdata offset written ∧ String.ofList written = content := by
  cases event with
  | text offset raw =>
    refine .inl ⟨offset, raw, rfl, ?_⟩
    rw [readText]
    cases hr : Xml.resolveReferences raw with
    | error defect =>
      simp only [token, hr] at h
      cases h
    | ok content' =>
      simp only [token, hr] at h
      cases h
      rfl
  | cdata offset written =>
    cases h
    exact .inr ⟨offset, written, rfl, rfl⟩
  | start offset name tag scope =>
    obtain ⟨_, _, h⟩ := bind_eq_ok_iff.1 h
    obtain ⟨_, _, h⟩ := bind_eq_ok_iff.1 h
    cases h
  | finish offset name =>
    obtain ⟨_, _, h⟩ := bind_eq_ok_iff.1 h
    cases h
  | fault => cases h

/-- An element can be opened unless a limit is passed. -/
theorem token_eq_start {c : Cursor} (h : token c.lines event = .ok (.start uri label attrs)) :
    ∃ offset name tag scope, event = .start offset name tag scope ∧ name.localName = label ∧
      ((∃ e, c.openElement offset name tag scope = .error e ∧ e.IsLimit) ∨
        ∃ i, c.openElement offset name tag scope = .ok i ∧ i.namespaceUri = uri ∧
          i.localName = label ∧ i.attributes = attrs) := by
  cases event with
  | start offset name tag scope =>
    obtain ⟨uri', huri, h⟩ := bind_eq_ok_iff.1 h
    obtain ⟨attrs', hattrs, h⟩ := bind_eq_ok_iff.1 h
    cases h
    refine ⟨offset, name, tag, scope, rfl, rfl, ?_⟩
    simp only [openElement, huri, hattrs, bind, Except.bind]
    split
    · next hdepth => exact .inl ⟨_, rfl, rfl, hdepth⟩
    split
    · next hcount => exact .inl ⟨_, rfl, rfl, hcount⟩
    · exact .inr ⟨_, rfl, rfl, rfl, rfl⟩
  | text offset raw =>
    simp only [token] at h
    split at h <;> cases h
  | cdata => cases h
  | finish offset name =>
    obtain ⟨_, _, h⟩ := bind_eq_ok_iff.1 h
    cases h
  | fault => cases h

theorem token_eq_finish {c : Cursor} (h : token c.lines event = .ok .finish) :
    ∃ offset name d, event = .finish offset name ∧ c.closeElement offset name = .ok d := by
  cases event with
  | finish offset name =>
    cases hn : namespaceOf (c.lines.positionAt offset) name with
    | ok uri =>
      have hclose : ∃ d, c.closeElement offset name = .ok d := by
        simp only [closeElement, hn]
        exact ⟨_, rfl⟩
      obtain ⟨d, hd⟩ := hclose
      exact ⟨offset, name, d, rfl, hd⟩
    | error e =>
      simp only [token, hn] at h
      cases h
  | text offset raw =>
    simp only [token] at h
    split at h <;> cases h
  | cdata => cases h
  | start offset name tag scope =>
    obtain ⟨_, _, h⟩ := bind_eq_ok_iff.1 h
    obtain ⟨_, _, h⟩ := bind_eq_ok_iff.1 h
    cases h
  | fault => cases h

/-- What is no token cannot be opened, closed or read as text. -/
theorem stuck_of_none {c : Cursor} (h : (token c.lines event).toOption = none) :
    (∀ offset name tag scope i, event = .start offset name tag scope →
      c.openElement offset name tag scope ≠ .ok i) ∧
    (∀ offset name d, event = .finish offset name → c.closeElement offset name ≠ .ok d) ∧
    (∀ offset raw content, event = .text offset raw → c.readText offset raw ≠ .ok content) ∧
    ∀ offset content, event ≠ .cdata offset content := by
  have hne (t : Token) (ht : token c.lines event = .ok t) : False := by
    rw [ht] at h
    cases h
  refine ⟨?_, ?_, ?_, ?_⟩
  · rintro offset name tag scope i rfl hi
    exact hne _ (token_of_openElement hi)
  · rintro offset name d rfl hd
    exact hne _ (token_of_closeElement hd)
  · rintro offset raw content rfl ht
    exact hne _ (token_of_readText ht)
  · rintro offset content rfl
    exact hne _ rfl

/-! ### Moves over tokens -/

/-- Blank text is passed over, and other text is refused. -/
theorem next_of_text {c : Cursor} (h : c.ahead = some (.text content) :: p) :
    ∃ c₁ : Cursor, c₁.ahead = p ∧ (Text.trimmed content = "" → c.next = c₁.next) ∧
      (Text.trimmed content ≠ "" → ∃ position,
        c.next = (.error (.stray (Text.trimmed content) position), c₁)) := by
  obtain ⟨event, events, hp, htoken, hrest⟩ := pending_of_ahead h
  rcases token_eq_text (toOption_eq_some_iff.1 htoken) with ⟨o, raw, rfl, ht⟩ | ⟨o, written, rfl, rfl⟩
  · exact ⟨_, hrest, next_text hp ht, fun hb => ⟨_, next_stray_text hp ht hb⟩⟩
  · exact ⟨_, hrest, next_cdata hp, fun hb => ⟨_, next_stray_cdata hp hb⟩⟩

theorem next_eq_settle_start {c : Cursor} (hp : c.pending = .start offset name tag scope :: events) :
    c.next = settle (c.before events) .start
      ((c.before events).openElement offset name tag scope) := by
  rw [next, hp, nextAmong]
  rfl

theorem next_eq_settle_finish {c : Cursor} (hp : c.pending = .finish offset name :: events) :
    c.next = settle (c.before events) .finish ((c.before events).closeElement offset name) := by
  rw [next, hp, nextAmong]
  rfl

theorem settle_eq_ok {c d : Cursor} {moved : Except ReadError Cursor}
    (h : c.settle result moved = (.ok a, d)) : moved = .ok d := by
  cases moved with
  | ok d' =>
    cases h
    rfl
  | error e => cases h

theorem next_of_start {c : Cursor} (h : c.ahead = some (.start uri label attrs) :: p) :
    (∃ e d, c.next = (.error e, d) ∧ e.IsLimit) ∨
      ∃ i, c.next = (.ok .start, i) ∧ i.namespaceUri = uri ∧ i.localName = label ∧
        i.attributes = attrs ∧ i.ahead = p := by
  obtain ⟨event, events, hp, htoken, hrest⟩ := pending_of_ahead h
  obtain ⟨offset, name, tag, scope, rfl, -, hopen⟩ :=
    @token_eq_start _ _ _ _ (c.before events) (toOption_eq_some_iff.1 htoken)
  rw [next_eq_settle_start hp]
  rcases hopen with ⟨e, he, hlimit⟩ | ⟨i, hi, hu, hl, ha⟩
  · rw [he]
    exact .inl ⟨e, _, rfl, hlimit⟩
  · rw [hi]
    exact .inr ⟨i, rfl, hu, hl, ha, (ahead_of_openElement hi).trans hrest⟩

theorem next_of_finish {c : Cursor} (h : c.ahead = some .finish :: p) :
    ∃ d, c.next = (.ok .finish, d) ∧ d.attributes = [] ∧ d.ahead = p := by
  obtain ⟨event, events, hp, htoken, hrest⟩ := pending_of_ahead h
  obtain ⟨offset, name, d, rfl, hd⟩ :=
    @token_eq_finish _ (c.before events) (toOption_eq_some_iff.1 htoken)
  exact ⟨d, next_finish hp hd, (closeElement_pending hd).2, (ahead_of_closeElement hd).trans hrest⟩

/-- Nothing is moved over that cannot be read. -/
theorem next_ne_ok_of_none {c d : Cursor} (h : c.ahead = none :: p) : c.next ≠ (.ok tag, d) := by
  intro hnext
  obtain ⟨event, events, hp, htoken, -⟩ := pending_of_ahead h
  obtain ⟨hopen, hclose, htext, hcdata⟩ := @stuck_of_none _ (c.before events) htoken
  cases event with
  | start offset name tag scope =>
    rw [next_eq_settle_start hp] at hnext
    exact hopen _ _ _ _ _ rfl (settle_eq_ok hnext)
  | finish offset name =>
    rw [next_eq_settle_finish hp] at hnext
    exact hclose _ _ _ rfl (settle_eq_ok hnext)
  | text offset raw =>
    simp only [next, hp, nextAmong] at hnext
    split at hnext
    · cases hnext
    · next ht => exact htext _ _ _ rfl ht
  | cdata offset written => exact hcdata _ _ rfl
  | fault =>
    rw [next, hp, nextAmong] at hnext
    cases hnext

/-! ### Text over tokens -/

/-- Reads the rest of the text of the current element, behind `text`. -/
def textBehind (c : Cursor) (text : String) : Moved String := c.textAmong text c.pending

theorem textBehind_of_text {c : Cursor} (h : c.ahead = some (.text content) :: p) (text : String) :
    ∃ c₁ : Cursor, c₁.ahead = p ∧ c.textBehind text = c₁.textBehind (text ++ content) := by
  obtain ⟨event, events, hp, htoken, hrest⟩ := pending_of_ahead h
  refine ⟨c.before events, hrest, ?_⟩
  rw [textBehind, textBehind, textAmong_before, hp]
  rcases token_eq_text (toOption_eq_some_iff.1 htoken) with ⟨o, raw, rfl, ht⟩ | ⟨o, written, rfl, rfl⟩
  · simp only [textAmong, ht]
    rfl
  · rfl

/-- An element inside is refused whatever its tag is. -/
theorem textBehind_of_start {c : Cursor} (h : c.ahead = some (.start uri label attrs) :: p)
    (text : String) : ∃ position d,
      c.textBehind text = (.error (.stray s!"<{label}>" position), d) := by
  obtain ⟨event, events, hp, htoken, -⟩ := pending_of_ahead h
  obtain ⟨offset, name, tag, scope, rfl, rfl, -⟩ := token_eq_start (toOption_eq_some_iff.1 htoken)
  rw [textBehind, hp]
  exact ⟨_, _, rfl⟩

theorem textBehind_eq_settle {c : Cursor} (hp : c.pending = .finish offset name :: events)
    (text : String) : c.textBehind text =
      settle (c.before events) text ((c.before events).closeElement offset name) := by
  rw [textBehind, hp, textAmong]
  rfl

theorem textBehind_of_finish {c : Cursor} (h : c.ahead = some .finish :: p) (text : String) :
    ∃ d, c.textBehind text = (.ok text, d) ∧ d.attributes = [] ∧ d.ahead = p := by
  obtain ⟨event, events, hp, htoken, hrest⟩ := pending_of_ahead h
  obtain ⟨offset, name, d, rfl, hd⟩ :=
    @token_eq_finish _ (c.before events) (toOption_eq_some_iff.1 htoken)
  rw [textBehind_eq_settle hp, hd]
  exact ⟨d, rfl, (closeElement_pending hd).2, (ahead_of_closeElement hd).trans hrest⟩

theorem textBehind_ne_ok_of_none {c d : Cursor} (h : c.ahead = none :: p) :
    c.textBehind text ≠ (.ok result, d) := by
  intro hread
  obtain ⟨event, events, hp, htoken, -⟩ := pending_of_ahead h
  obtain ⟨-, hclose, htext, hcdata⟩ := @stuck_of_none _ (c.before events) htoken
  cases event with
  | start =>
    rw [textBehind, hp] at hread
    cases hread
  | finish offset name =>
    rw [textBehind_eq_settle hp] at hread
    exact hclose _ _ _ rfl (settle_eq_ok hread)
  | text offset raw =>
    simp only [textBehind, hp, textAmong] at hread
    split at hread
    · cases hread
    · next ht => exact htext _ _ _ rfl ht
  | cdata offset written => exact hcdata _ _ rfl
  | fault =>
    rw [textBehind, hp] at hread
    cases hread

end Cursor

end ManagementScript
