import ManagementScript.Proofs.Tree.BlankRun
import ManagementScript.Proofs.Tree.Location

/-!
Text where only tags may stand. The first such text is refused, and it is told where the part of the
document begins that it stands in, the white space before it included.
-/

namespace ManagementScript

namespace Xml

/-- A text whose meaning is cut is cut itself. -/
theorem Resolves.exists_split {cs front back : List Char} (h : Resolves cs (front ++ back)) :
    ∃ skipped rest, cs = skipped ++ rest ∧ Resolves skipped front ∧ Resolves rest back := by
  induction front generalizing cs with
  | nil => exact ⟨[], cs, rfl, .nil, h⟩
  | cons c front ih =>
    cases h with
    | char hc h =>
      obtain ⟨skipped, rest, rfl, hs, hr⟩ := ih h
      exact ⟨c :: skipped, rest, rfl, .char hc hs, hr⟩
    | @reference name _ _ _ hname hr h =>
      obtain ⟨skipped, rest, rfl, hs, hrest⟩ := ih h
      exact ⟨'&' :: (name ++ ';' :: skipped), rest, by simp, .reference hname hr hs, hrest⟩

/-- The text that is written in a part: character data with its references resolved, or a section. -/
inductive Part.Says (p : Part) : String → Prop where
  | run (hp : p.form = .run raw) (hr : Resolves (p.blanks ++ raw) out) : Says p (String.ofList out)
  | cdata (hp : p.form = .markup content (.cdata data)) : Says p (String.ofList data)

/-- What stands before the first character of the part that is not white space, or before its section. A
byte order mark is left out. -/
inductive Part.BeginsBehind (p : Part) : List Char → Prop where
  | run (hp : p.form = .run (skipped ++ rest)) (hs : IsBlankRun skipped)
      (hr : Resolves rest (c :: out)) (hc : Text.isWhiteSpace c = false) :
      BeginsBehind p (p.front ++ skipped)
  | cdata (hp : p.form = .markup content (.cdata data)) : BeginsBehind p p.front

theorem Part.BeginsBehind.exists_append {p : Part} {front : List Char} (h : p.BeginsBehind front) :
    ∃ more, front = p.before ++ more := by
  cases h with
  | run => exact ⟨_, List.append_assoc ..⟩
  | cdata => exact ⟨_, rfl⟩

/-- The text that is read from a part, with the place it is told. -/
inductive Event.Says : Event → Nat → String → Prop where
  | text (hr : resolveReferences raw = .ok content) : Says (.text offset raw) offset content
  | cdata : Says (.cdata offset data) offset (String.ofList data)

theorem exists_first {p : Char → Bool} {cs : List Char} (h : ¬∀ c ∈ cs, p c = true) :
    ∃ front c back, cs = front ++ c :: back ∧ (∀ x ∈ front, p x = true) ∧ p c = false := by
  have hcs := (List.takeWhile_append_dropWhile (p := p) (l := cs)).symm
  have hhead := Text.head_dropWhile (p := p) cs
  cases hback : cs.dropWhile p with
  | nil => exact absurd (List.dropWhile_eq_nil_iff.1 hback) h
  | cons c back =>
    rw [hback] at hcs hhead
    exact ⟨_, c, back, hcs, fun x hx => List.mem_takeWhile_imp hx, hhead c rfl⟩

/-- What is read from a part is the text written there, but for white space around it. -/
theorem Part.Gives.says {p : Part} {locate : Nat → Nat} (h : p.Gives locate event)
    (hb : ∀ c ∈ p.blanks, Text.isBlank c = true) (hs : event.Says offset content) :
    offset = Text.byteCount p.before ∧
      (∃ text, p.Says text ∧ Text.trimmed text = Text.trimmed content) ∧
      (Text.trimmed content ≠ "" → ∃ front, p.BeginsBehind front) := by
  cases hs with
  | cdata =>
    cases h with
    | cdata hp => exact ⟨rfl, ⟨_, .cdata hp, rfl⟩, fun _ => ⟨_, .cdata hp⟩⟩
  | text hr =>
    cases h with
    | @text raw hp =>
      -- The blanks at the end of a run are not read, and they are white space around what is.
      have hraw : raw = Text.trimEnd Text.isBlank raw ++ raw.rtakeWhile Text.isBlank :=
        List.rdropWhile_append_rtakeWhile.symm
      have htrail (c : Char) (hc : c ∈ raw.rtakeWhile Text.isBlank) : Text.isBlank c = true :=
        List.mem_rtakeWhile_imp hc
      generalize Text.trimEnd Text.isBlank raw = inner at hr hraw
      generalize raw.rtakeWhile Text.isBlank = trail at hraw htrail
      subst hraw
      have hself (cs : List Char) (h : ∀ c ∈ cs, Text.isBlank c = true) : Resolves cs cs :=
        resolves_self fun c hc => (ne_of_isBlank (h c hc)).2
      have hwhite (cs : List Char) (h : ∀ c ∈ cs, Text.isBlank c = true) :
          ∀ c ∈ cs, Text.isWhiteSpace c = true :=
        fun c hc => Text.isWhiteSpace_of_isSeparator (Text.isSeparator_of_isBlank (h c hc))
      have hinner := resolveReferences_eq_ok_iff.1 hr
      refine ⟨rfl, ⟨_, .run hp ((hself _ hb).append (hinner.append (hself _ htrail))), ?_⟩, ?_⟩
      · rw [Text.trimmed, String.toList_ofList,
          Text.trim_surrounded (hwhite _ hb) (hwhite _ htrail)]
        rfl
      · intro hne
        rw [Ne, Text.trimmed_eq_empty_iff] at hne
        obtain ⟨front, c, back, hcontent, hfront, hc⟩ := exists_first hne
        rw [hcontent] at hinner
        obtain ⟨skipped, rest, rfl, hskipped, hrest⟩ := hinner.exists_split
        rw [List.append_assoc] at hp
        exact ⟨_, .run hp ⟨front, hskipped, hfront⟩ (hrest.append (hself _ htrail)) hc⟩

end Xml

/-- Content is shown by its first 40 characters, with dots behind them if there are more. -/
def abridged (content : String) : String :=
  if content.length ≤ 40 then content else String.ofList (content.toList.take 40) ++ "..."

theorem stray_eq (content : String) (position : Position) :
    ReadError.stray content position = .strayContent (abridged content) position := by
  have hcut := congrArg Text.byteCount (List.take_append_drop 40 content.toList)
  rw [Text.byteCount_append] at hcut
  rw [ReadError.stray, abridged]
  simp only [Text.utf8ByteSize_ofList, Text.utf8ByteSize_eq content]
  by_cases h : content.length ≤ 40
  · have hlength : content.toList.length ≤ 40 := content.length_toList ▸ h
    rw [List.take_of_length_le hlength, if_neg (Nat.lt_irrefl _), if_pos h, String.ofList_toList]
  · rw [if_neg h, if_pos]
    have hdrop : Text.byteCount (content.toList.drop 40) ≠ 0 := by
      intro hzero
      have hnil := List.drop_eq_nil_iff.1 (Text.eq_nil_of_byteCount hzero)
      exact h (content.length_toList ▸ hnil)
    omega

namespace Cursor

/-- Where text is met that is refused, behind text that is nothing but white space. -/
inductive MeetsStray (c : Cursor) : List Xml.Event → String → Position → Cursor → Prop where
  | here (hs : event.Says offset content) (hne : Text.trimmed content ≠ "") :
      MeetsStray c (event :: events) (abridged (Text.trimmed content)) (c.lines.positionAt offset)
        (c.before events)
  | behind (hs : event.Says offset content) (hb : Text.trimmed content = "")
      (h : MeetsStray c events shown place d) : MeetsStray c (event :: events) shown place d

theorem not_stray_of_settle {c d : Cursor} {moved : Except ReadError Cursor}
    (hm : ∀ e, moved = .error e → OfMarkup e) :
    c.settle result moved ≠ (.error (.strayContent shown place), d) := by
  intro h
  cases moved with
  | ok => cases h
  | error e =>
    cases h
    exact hm _ rfl

theorem meetsStray_of_stray? {c d : Cursor} (hs : event.Says offset content)
    (he : c.stray? offset content = some e)
    (h : (.error e, c.before events) = ((.error (.strayContent shown place), d) : Moved Tag)) :
    c.MeetsStray (event :: events) shown place d := by
  simp only [stray?] at he
  split at he
  · cases he
  · next hne =>
    rw [Option.some.injEq, stray_eq] at he
    subst he
    simp only [Prod.mk.injEq, Except.error.injEq, ReadError.strayContent.injEq] at h
    obtain ⟨⟨rfl, rfl⟩, rfl⟩ := h
    exact .here hs fun hempty => hne (String.isEmpty_iff.2 hempty)

theorem meetsStray_of_nextAmong {c d : Cursor}
    (h : c.nextAmong events = (.error (.strayContent shown place), d)) :
    c.MeetsStray events shown place d := by
  induction events with
  | nil =>
    simp only [nextAmong] at h
    split at h
    · cases h
    · cases h
  | cons event events ih =>
    cases event with
    | start => exact absurd h (not_stray_of_settle fun _ => ofMarkup_openElement)
    | finish => exact absurd h (not_stray_of_settle fun _ => ofMarkup_closeElement)
    | text offset raw =>
      simp only [nextAmong] at h
      split at h
      · next he =>
        cases h
        exact (ofMarkup_readText he).elim
      next content hread =>
      have hs : Xml.Event.Says (.text offset raw) offset content := .text (readText_eq_ok.1 hread)
      split at h
      · next he => exact meetsStray_of_stray? hs he h
      · next hnone => exact .behind hs ((stray?_eq_none_iff ..).1 hnone) (ih h)
    | cdata offset data =>
      simp only [nextAmong] at h
      split at h
      · next he => exact meetsStray_of_stray? .cdata he h
      · next hnone => exact .behind .cdata ((stray?_eq_none_iff ..).1 hnone) (ih h)
    | fault => cases h

/-- The part `p` has text in it that is refused, and its place is told. -/
structure Refuses (source : String) (p : Xml.Part) (shown : String) (place : Position) : Prop where
  shown : ∃ text, p.Says text ∧ Text.trimmed text ≠ "" ∧ shown = abridged (Text.trimmed text)
  place : place = (LineIndex.ofString source).positionAt (Text.byteCount p.before)
  begins : ∃ front, p.BeginsBehind front

theorem MeetsStray.exists_part {c d : Cursor} {ps : List Xml.Part} {locate : Nat → Nat}
    (h : c.MeetsStray events shown place d) (hlines : c.lines = .ofString source)
    (hg : List.Forall₂ (Xml.Part.Gives locate) ps events)
    (hb : ∀ p ∈ ps, ∀ x ∈ p.blanks, Text.isBlank x = true) :
    ∃ gap p behind, ps = gap ++ p :: behind ∧ behind.length = d.pending.length ∧
      (∀ q ∈ gap, ∃ text, q.Says text ∧ Text.trimmed text = "") ∧ Refuses source p shown place := by
  induction h generalizing ps with
  | here hs hne =>
    cases hg with
    | @cons p _ behind _ hgives hg =>
      obtain ⟨rfl, ⟨text, htext, htrimmed⟩, hbegins⟩ := hgives.says (hb p (by simp)) hs
      exact ⟨[], p, behind, rfl, hg.length_eq, nofun,
        ⟨text, htext, htrimmed ▸ hne, by rw [htrimmed]⟩, by rw [hlines], hbegins hne⟩
  | behind hs hblank _ ih =>
    cases hg with
    | @cons q _ behind _ hgives hg =>
      obtain ⟨-, ⟨text, htext, htrimmed⟩, -⟩ := hgives.says (hb q (by simp)) hs
      obtain ⟨gap, p, behind, rfl, hlength, hgap, hrefuses⟩ :=
        ih hg fun p hp => hb p (List.mem_cons_of_mem _ hp)
      exact ⟨q :: gap, p, behind, rfl, hlength,
        List.forall_mem_cons.2 ⟨⟨text, htext, htrimmed.trans hblank⟩, hgap⟩, hrefuses⟩

/-- The place that is told is right if the part begins with its first character that is not white space,
and no byte order mark is left out. -/
theorem Refuses.place_eq_iff {p : Xml.Part} {shown : String} {place : Position}
    (h : Refuses source p shown place) (hp : p ∈ Xml.readings source) (hf : p.BeginsBehind front) :
    place = .behind (Xml.byteOrderMark source.toList ++ front) ↔
      Xml.byteOrderMark source.toList = [] ∧ front = p.before := by
  obtain ⟨more, rfl⟩ := hf.exists_append
  obtain ⟨rest, hs⟩ := Xml.exists_behind_of_reading hp
  rw [h.place]
  apply Iff.intro
  · intro heq
    -- What is left out before the text has no bytes, so there is nothing of it.
    have hplace : min (Text.byteCount p.before) (LineIndex.ofString source).size =
        Text.byteCount (Xml.byteOrderMark source.toList ++ (p.before ++ more)) :=
      congrArg Position.offset heq
    rw [Text.byteCount_append, Text.byteCount_append] at hplace
    have hmark := Text.eq_nil_of_byteCount
      (show Text.byteCount (Xml.byteOrderMark source.toList) = 0 by omega)
    have hmore := Text.eq_nil_of_byteCount (show Text.byteCount more = 0 by omega)
    exact ⟨hmark, by rw [hmore, List.append_nil]⟩
  · rintro ⟨hmark, hfront⟩
    rw [hmark, List.nil_append, Xml.Part.behind, Xml.Part.front, List.append_assoc,
      List.append_assoc] at hs
    rw [hmark, List.nil_append, hfront, LineIndex.positionAt_behind hs]

/-- A move from tag to tag that is stopped by text is stopped by the first part behind the cursor that
has more than white space in it. Its text is shown, and it is told where the part begins. -/
theorem stray_located {c d : Cursor} (h : Visited source c)
    (hn : c.next = (.error (.strayContent shown place), d)) :
    ∃ gap p behind, Xml.readings source = c.passed source ++ (gap ++ p :: behind) ∧
      behind.length = d.pending.length ∧
      (∀ q ∈ gap, ∃ text, q.Says text ∧ Text.trimmed text = "") ∧ Refuses source p shown place ∧
      ∀ front, p.BeginsBehind front →
        (place = .behind (Xml.byteOrderMark source.toList ++ front) ↔
          Xml.byteOrderMark source.toList = [] ∧ front = p.before) := by
  obtain ⟨passed, hread⟩ := h.hasRead
  obtain ⟨ahead, he, hgiven⟩ := hread.ahead
  have hmem (p : Xml.Part) (hp : p ∈ ahead) : p ∈ Xml.readings source :=
    he ▸ List.mem_append_right _ hp
  obtain ⟨gap, p, behind, rfl, hlength, hgap, hrefuses⟩ := (meetsStray_of_nextAmong hn).exists_part
    hread.lines hgiven fun p hp => Xml.blank_of_reading (hmem p hp)
  rw [hread.passed_eq]
  exact ⟨gap, p, behind, he, hlength, hgap, hrefuses,
    fun front hf => hrefuses.place_eq_iff (hmem p (by simp)) hf⟩

theorem next_stray_run {c : Cursor} (hp : c.pending = .text offset raw :: events)
    (hr : Xml.resolveReferences raw = .ok content) (hb : Text.trimmed content ≠ "") :
    c.next = (.error (.strayContent (abridged (Text.trimmed content)) (c.lines.positionAt offset)),
      c.before events) := by
  rw [next_stray_text hp (readText_eq_ok.2 hr) hb, stray_eq]

namespace BehindSection

def source : String := "<a>\n <![CDATA[ ]]>stray</a>"

def cursor : Cursor := (ofString source).next.2

theorem visited : Visited source cursor := Visited.start.next

theorem refused : ∃ events,
    cursor.next = (.error (.strayContent "stray" ⟨18, 2, 15⟩), cursor.before events) := by
  have hp : cursor.pending =
      .cdata 3 [' '] :: .text 18 "stray".toList :: cursor.pending.tail.tail := by cbv
  have hr : Xml.resolveReferences "stray".toList = .ok "stray" := by cbv
  have hplace : cursor.lines.positionAt 18 = ⟨18, 2, 15⟩ := by cbv
  have hshown : abridged (Text.trimmed "stray") = "stray" := by cbv
  have hnext := next_stray_run (c := cursor.before (.text 18 "stray".toList :: cursor.pending.tail.tail))
    rfl hr (by decide)
  rw [← next_cdata hp (by decide), hshown] at hnext
  exact ⟨_, hplace ▸ hnext⟩

end BehindSection

theorem stray_located_behind_section :
    ∃ p ∈ Xml.readings BehindSection.source, Refuses BehindSection.source p "stray" ⟨18, 2, 15⟩ := by
  obtain ⟨events, hnext⟩ := BehindSection.refused
  obtain ⟨gap, p, behind, he, -, -, hrefuses, -⟩ := stray_located BehindSection.visited hnext
  exact ⟨p, he ▸ by simp, hrefuses⟩

namespace BehindBlanks

def source : String := "<a>\n  stray</a>"

def cursor : Cursor := (ofString source).next.2

theorem visited : Visited source cursor := Visited.start.next

theorem refused : ∃ events,
    cursor.next = (.error (.strayContent "stray" ⟨3, 1, 4⟩), cursor.before events) := by
  have hp : cursor.pending = .text 3 "stray".toList :: cursor.pending.tail := by cbv
  have hr : Xml.resolveReferences "stray".toList = .ok "stray" := by cbv
  have hplace : cursor.lines.positionAt 3 = ⟨3, 1, 4⟩ := by cbv
  have hshown : abridged (Text.trimmed "stray") = "stray" := by cbv
  have hnext := next_stray_run hp hr (by decide)
  rw [hplace, hshown] at hnext
  exact ⟨_, hnext⟩

def text : Xml.Part := ⟨"<a>".toList, "\n  ".toList, .run "stray".toList⟩

theorem readings : ∃ behind, Xml.readings source = cursor.passed source ++ text :: behind :=
  ⟨(Xml.readings source).drop 2, by cbv⟩

theorem text_begins : text.BeginsBehind "<a>\n  ".toList := by
  have hform : text.form = .run ([] ++ "stray".toList) := rfl
  have hself : Xml.Resolves "stray".toList "stray".toList := Xml.resolves_self (by simp)
  have hfront : "<a>\n  ".toList = text.front ++ [] := by cbv
  rw [hfront]
  exact .run hform Xml.isBlankRun_nil hself (by decide)

end BehindBlanks

/-- Text that has white space before it is not told where it begins. -/
theorem not_located_at_text :
    ¬∀ source c shown place d p behind front, Visited source c →
      c.next = (.error (.strayContent shown place), d) →
      Xml.readings source = c.passed source ++ p :: behind → p.BeginsBehind front →
      place = .behind (Xml.byteOrderMark source.toList ++ front) := by
  intro h
  obtain ⟨events, hnext⟩ := BehindBlanks.refused
  obtain ⟨behind, he⟩ := BehindBlanks.readings
  have hplace := h _ _ _ _ _ _ _ _ BehindBlanks.visited hnext he BehindBlanks.text_begins
  exact absurd hplace (by decide)

end Cursor

end ManagementScript
