import ManagementScript.Proofs.Compilation.Authentication
import ManagementScript.Proofs.Compilation.Translators
import ManagementScript.Proofs.Tree.CharacterData
import ManagementScript.Proofs.Tree.Ending

/-!
Where the text of an element is a secret: the password of a user is what is read of the character data
of one element, and the blanks that are not read of it are not in the command either.
-/

namespace ManagementScript.Compilation

variable {δ : Type} {grammar : GrammarNamespace} {users : Address} {names names' : NameSet}

/-- What is read of the content of an element is its text with blanks left out, and the same up to
white space at the ends exactly if none of those blanks stands inside the text. -/
theorem trimmed_kept_iff {content : Xml.CharacterData} {marked : List (Char × Bool)}
    (h : content.marked = .ok marked) (hmap : marked.map (·.1) = text.toList) :
    Text.trimmed (String.ofList (Text.kept marked)) = Text.trimmed text ↔
      Text.IsTight Text.isWhiteSpace marked := by
  have hblank (x : Char × Bool) (hx : x ∈ marked) (hleft : x.2 = false) :
      Text.isWhiteSpace x.1 = true :=
    Text.isWhiteSpace_of_isSeparator
      (Text.isSeparator_of_isBlank (Xml.CharacterData.blank_of_marked h x hx hleft))
  rw [← Text.trim_kept_eq_iff hblank, hmap, Text.trimmed, Text.trimmed, String.toList_ofList,
    String.ofList_inj]

/-- The command of a user has the trimmed text of the element inside. -/
theorem push_of_user {s s' : CompilationState δ} {i : Cursor} (hs : s.cursor.Distinct)
    (hi : s.cursor.next = (.ok .start, i)) (h : user grammar users names s = (.ok names', s')) :
    ∃ text d, i.elementText = (.ok text, d) ∧ s'.script.toList = s.script.toList ++
      [⟨users.append "user" ((s.cursor.element []).nameBy .username),
        Dictionary.empty.set "password" (if isExpression (Text.trimmed text)
          then .expression (Text.trimmed text) else .string (Text.trimmed text))⟩] := by
  obtain ⟨nodes, c, hn, ⟨_, huser⟩, rfl, hafter⟩ := (takes_user grammar users names hs).1 h
  obtain ⟨e, he, hblank, _, _, _, hchildren, _⟩ := huser.2
  obtain ⟨d, htext⟩ : ∃ d, i.elementText = (.ok e.text, d) := by
    cases Cursor.visits_iff.2 ⟨nodes, hn, hblank, he⟩ with
    | child hi' hin _ =>
      rw [hi] at hi'
      cases hi'
      exact ⟨_, Cursor.elementText_eq_ok_iff.2 ⟨_, hin, hchildren, rfl⟩⟩
  have hpassword : ((s.cursor.element nodes).children.map (·.trimmedText)).headD "" =
      Text.trimmed e.text := by
    rw [he]
    rfl
  refine ⟨e.text, d, htext, ?_⟩
  rw [hafter.script.toList]
  simp only [Element.user, hpassword]
  rfl

/-- A user is accepted whose name is not taken, if the password is. -/
theorem user_of_password {s : CompilationState δ}
    (hread : ((readNamed .user : Compilation δ _) s).1.map (·.1) = .ok name)
    (hname : names.contains name = false) (hpassword : (password grammar s).1 = .ok value)
    (hroom : (password grammar s).2.script.size < Limits.commands) :
    ∃ names' s', user grammar users names s = (.ok names', s') := by
  obtain ⟨ps, hread⟩ : ∃ ps, readNamed .user s = (.ok (name, ps), s) := by
    have hstate := readNamed_state .user s
    generalize readNamed .user s = read at hread hstate
    obtain ⟨_ | ⟨name, ps⟩, s⟩ := read <;> cases hread
    exact ⟨ps, congrArg _ hstate⟩
  have hreserve (p : Position) : names.reserve .user name p = .ok ⟨names.names.insert name⟩ :=
    NameSet.reserve_eq_ok_iff.2 ⟨hname, rfl⟩
  have hpush (c : Command) : ∃ s₂, push c (password grammar s).2 = (.ok (), s₂) := by
    simp only [push, Script.push, Nat.not_le.2 hroom, ↓reduceIte]
    exact ⟨_, rfl⟩
  obtain ⟨s₂, hs₂⟩ := hpush ⟨users.append "user" name, Dictionary.empty.set "password"
    (if isExpression value then .expression value else .string value)⟩
  refine ⟨⟨names.names.insert name⟩, s₂, ?_⟩
  rw [user, location_bind, bind_eq_ok]
  refine ⟨_, _, hread, bind_eq_ok.2 ⟨_, _, check_eq_ok.2 ⟨hreserve _, rfl⟩, ?_⟩⟩
  refine bind_eq_ok.2 ⟨_, _, Prod.ext hpassword rfl, ?_⟩
  exact bind_eq_ok.2 ⟨_, _, hs₂, pure_eq_ok.2 ⟨rfl, rfl⟩⟩

/-- The text of an element without other elements inside is its character data, with references
resolved, and the content of its sections, in order, without the blanks at the ends of each run; so it
is also the password of a user. Up to white space at both ends it is all that is written exactly if
none of those blanks stands inside the text. -/
theorem character_data_kept {content : Xml.CharacterData} {text : String}
    (hw : content.IsWellFormed) (ht : content.text = .ok text) :
    ∃ marked, content.marked = .ok marked ∧ marked.map (·.1) = text.toList ∧
      (Text.trimmed (String.ofList (Text.kept marked)) = Text.trimmed text ↔
        Text.IsTight Text.isWhiteSpace marked) ∧
      (∀ b c d : Cursor, b.next = (.ok .start, c) → c.Contains content →
        c.skipElement = (.ok (), d) → c.elementText = (.ok (String.ofList (Text.kept marked)), d)) ∧
      ∀ (b i : Cursor) (s s' : CompilationState δ) password, b.next = (.ok .start, s.cursor) →
        s.cursor.next = (.ok .start, i) → i.Contains content →
        password = Text.trimmed (String.ofList (Text.kept marked)) →
        user grammar users names s = (.ok names', s') →
        s'.script.toList = s.script.toList ++
          [⟨users.append "user" ((s.cursor.element []).nameBy .username),
            Dictionary.empty.set "password"
              (if isExpression password then .expression password else .string password)⟩] := by
  obtain ⟨marked, hmarked, hmap⟩ := content.map_marked ht
  have htext (b c d : Cursor) (hc : b.next = (.ok .start, c)) (hin : c.Contains content)
      (hskip : c.skipElement = (.ok (), d)) :
      c.elementText = (.ok (String.ofList (Text.kept marked)), d) := by
    have hopened : c.opened ≠ [] := by simp [(Cursor.next_start_moves hc).1]
    exact hin.elementText hopened hw hskip hmarked
  refine ⟨marked, hmarked, hmap, trimmed_kept_iff hmarked hmap, htext, ?_⟩
  intro b i s s' password hs hi hin hpassword h
  obtain ⟨result, d, hresult, hscript⟩ := push_of_user (Cursor.distinct_of_next hs) hi h
  obtain ⟨nodes, hnodes, _⟩ := Cursor.elementText_eq_ok_iff.1 hresult
  have hopened : i.opened ≠ [] := by simp [(Cursor.next_start_moves hi).1]
  rw [htext _ i d hi hin (hnodes.skipElement hopened)] at hresult
  cases hresult
  rw [hscript, hpassword]

/-! ### A password in two runs -/

namespace SecretSample

/-- A user, whose password is written as `content`. -/
def source (content : String) : String :=
  "<user xmlns='urn:jboss:domain:4.2' username='u'><password>" ++ content ++ "</password></user>"

def state (content : String) : CompilationState Unit :=
  let s := start (source content) ()
  { s with cursor := s.cursor.next.2 }

/-- What is remembered behind the start tag of the password. -/
def opened : Xml.ScanState :=
  let user : Xml.TagText := .ofContent "user xmlns='urn:jboss:domain:4.2' username='u'".toList
  ((Xml.ScanState.initial.find (.startTag user false)).1.find
    (.startTag (.ofContent "password".toList) false)).1

/-- ` p&amp;<![CDATA[ <w]]> `, with blanks at both ends. -/
def framed : Xml.CharacterData :=
  .insert [' ', 'p', '&', 'a', 'm', 'p', ';'] (.cdata [' ', '<', 'w']) (.last [' '])

/-- `p <!--c--> w`, with blanks inside. -/
def parted : Xml.CharacterData := .insert ['p', ' '] (.comment ['c']) (.last [' ', 'w'])

theorem contains_framed :
    (state (String.ofList framed.written)).cursor.next.2.Contains framed :=
  @Cursor.Contains.written _ opened "password></user>".toList _ rfl

theorem contains_parted :
    (state (String.ofList parted.written)).cursor.next.2.Contains parted :=
  @Cursor.Contains.written _ opened "password></user>".toList _ rfl

/-- The document is read up to the password, and the text there is `value`. -/
def IsRead (content value : String) : Prop :=
  (start (source content) ()).cursor.next.1 = .ok .start ∧
    (state content).cursor.next.1 = .ok .start ∧
    (state content).cursor.attributes = [⟨none, "username", "u"⟩] ∧
    (state content).cursor.next.2.elementText.1 = .ok value ∧
    ((readNamed .user : Compilation Unit _) (state content)).1.map (·.1) = .ok "u" ∧
    (password .domain42 (state content)).1 = .ok (Text.trimmed value) ∧
    (password .domain42 (state content)).2.script.size < Limits.commands

instance : Decidable (IsRead content value) :=
  inferInstanceAs (Decidable (_ ∧ _ ∧ _ ∧ _ ∧ _ ∧ _ ∧ _))

theorem reads_framed : IsRead (String.ofList framed.written) "p& <w" := by decide +kernel

theorem reads_parted : IsRead (String.ofList parted.written) "pw" := by decide +kernel

theorem IsRead.opened (h : IsRead content value) :
    (start (source content) ()).cursor.next = (.ok .start, (state content).cursor) ∧
      (state content).cursor.next = (.ok .start, (state content).cursor.next.2) :=
  ⟨Prod.ext h.1 rfl, Prod.ext h.2.1 rfl⟩

theorem IsRead.name_eq (h : IsRead content value) :
    ((state content).cursor.element []).nameBy .username = "u" := by
  rw [Element.nameBy, Element.attribute?, Element.named, Cursor.element, h.2.2.1]
  rfl

theorem IsRead.accepted (h : IsRead content value) :
    ∃ names s', user .domain42 .root .empty (state content) = (.ok names, s') := by
  obtain ⟨-, -, -, -, hread, hpassword, hroom⟩ := h
  exact user_of_password hread (by simp [NameSet.contains, NameSet.empty]) hpassword hroom

end SecretSample

open SecretSample in
/-- Blanks around a password are not part of it, and a section in it is. -/
theorem character_data_kept_framed : framed.text = .ok " p& <w " ∧ ∃ names s',
    user .domain42 .root .empty (state (String.ofList framed.written)) = (.ok names, s') ∧
      s'.script.toList = [⟨Address.root.append "user" "u",
        Dictionary.empty.set "password" (.string (Text.trimmed " p& <w "))⟩] := by
  have htext : framed.text = .ok " p& <w " := by decide +kernel
  have htrimmed : framed.marked.map (fun m => Text.trimmed (String.ofList (Text.kept m))) =
      .ok (Text.trimmed " p& <w ") := by decide +kernel
  obtain ⟨names, s', h⟩ := reads_framed.accepted
  obtain ⟨marked, hmarked, -, -, -, huser⟩ := character_data_kept (by decide +kernel) htext
  rw [hmarked] at htrimmed
  obtain ⟨hs, hi⟩ := reads_framed.opened
  have hscript := huser _ _ _ s' (Text.trimmed " p& <w ") hs hi contains_framed
    (Except.ok.inj htrimmed).symm h
  rw [reads_framed.name_eq, if_neg (by decide +kernel)] at hscript
  exact ⟨htext, names, s', h, hscript⟩

open SecretSample in
/-- Blanks inside a password that a comment is written between are not part of it either. -/
theorem blanks_between_runs_lost : parted.IsWellFormed ∧ parted.text = .ok "p  w" ∧
    (state (String.ofList parted.written)).cursor.next.2.Contains parted ∧
    (state (String.ofList parted.written)).cursor.next.2.elementText.1 = .ok "pw" ∧
    (∀ front back, "p  w".toList ≠ front ++ "pw".toList ++ back) ∧
    Text.trimmed "p  w" = "p  w" ∧ ∃ names s',
      user .domain42 .root .empty (state (String.ofList parted.written)) = (.ok names, s') ∧
        s'.script.toList = [⟨Address.root.append "user" "u",
          Dictionary.empty.set "password" (.string "pw")⟩] := by
  have hinside : ¬"pw".toList <:+: "p  w".toList := by decide +kernel
  obtain ⟨names, s', h⟩ := reads_parted.accepted
  obtain ⟨hs, hi⟩ := reads_parted.opened
  have hread := reads_parted.2.2.2.1
  refine ⟨by decide +kernel, by decide +kernel, contains_parted, hread, ?_, by decide +kernel, names,
    s', h, ?_⟩
  · intro front back he
    exact hinside ⟨front, back, he.symm⟩
  · obtain ⟨text, d, htext, hscript⟩ := push_of_user (Cursor.distinct_of_next hs) hi h
    rw [htext] at hread
    cases hread
    rw [reads_parted.name_eq, if_neg (by decide +kernel)] at hscript
    exact hscript

end ManagementScript.Compilation
