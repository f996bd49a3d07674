import ManagementScript.Proofs.Compilation.Consumption
import ManagementScript.Proofs.Schema.Permutation
import ManagementScript.Proofs.Tree.Echo

/-!
Compilations of documents that say the same. What is compiled of an element is compiled of it in the
other document too, with the same result and the same commands.
-/

namespace ManagementScript

/-- The compilation at `t` is where it is at `s`, in a document that says the same. -/
structure CompilationState.Echo (s t : CompilationState δ) : Prop where
  cursor : s.cursor.Echo t.cursor
  script : s.script = t.script

namespace Compilation

variable {δ α σ : Type} {grammar : GrammarNamespace}

/-- Inside an element, what the compilation succeeds with in a document it succeeds with in every
document that says the same. -/
def Echoes (m : Compilation δ α) : Prop :=
  ∀ ⦃s t a s'⦄, s.Echo t → s.cursor.opened ≠ [] → m s = (.ok a, s') →
    ∃ t', m t = (.ok a, t') ∧ s'.Echo t'

/-- The attributes of a tag may come in another order. -/
theorem readInto_echo {c : Construct} (hc : c.Regular) {s t s' : CompilationState δ} (h : s.Echo t)
    (hr : readInto c ps s = (.ok r, s')) : s' = s ∧ readInto c ps t = (.ok r, t) := by
  rw [readInto, getCursor_bind, bind_eq_ok] at hr
  obtain ⟨attrs, s₁, hattrs, hread⟩ := hr
  obtain ⟨hknown, rfl, rfl⟩ := (attributes_eq_ok []).1 hattrs
  obtain ⟨hread, rfl⟩ := check_eq_ok.1 hread
  have hperm := h.cursor.attributes
  have hnamed : (s'.cursor.element []).named.Perm (t.cursor.element []).named := hperm.map _
  have hnodup := h.cursor.distinct.nodup_named [] (fun a ha => (hknown a ha).1)
    fun a ha => (hknown a ha).2
  have hread' := hc.read_perm hnamed hnodup hread
  have hagrees := c.read_agrees ps (t.cursor.element []).named s'.cursor.localName
    t.cursor.localName s'.cursor.position t.cursor.position
  have hknown' := fun a ha => hknown a (hperm.mem_iff.2 ha)
  refine ⟨rfl, ?_⟩
  rw [readInto, getCursor_bind, bind_eq_ok]
  exact ⟨_, t, (attributes_eq_ok []).2 ⟨hknown', rfl, rfl⟩,
    check_eq_ok.2 ⟨hagrees.eq_ok hread', rfl⟩⟩

theorem visitAmong_echo {visit : σ → ElementName → Compilation δ σ} {events events' : List Xml.Event}
    (hv : ∀ seen element, Echoes (visit seen element))
    (hn : ∀ seen element s seen' s', visit seen element s = (.ok seen', s') →
      ∃ nodes, s.cursor.Encloses nodes s'.cursor)
    {s t s' : CompilationState δ} (h : s.Echo t) (ho : s.cursor.opened ≠ [])
    (hlen : s.cursor.pending.length ≤ events.length)
    (hlen' : t.cursor.pending.length ≤ events'.length)
    (hm : visitAmong grammar visit seen events s = (.ok seen', s')) :
    ∃ t', visitAmong grammar visit seen events' t = (.ok seen', t') ∧ s'.Echo t' := by
  induction events generalizing seen s t events' with
  | nil => exact absurd hm (visitAmong_nil_ne_ok (List.eq_nil_of_length_eq_zero (Nat.le_zero.1 hlen)))
  | cons event events ih =>
    rcases visitAmong_cons_eq_ok.1 hm with ⟨d, hd, rfl, hs⟩ | ⟨i, seen₁, s₁, hi, hns, hvisit, hrest⟩
    · obtain ⟨d', hd', hecho⟩ := h.cursor.next (h.cursor.pending ho) hd (by simp)
      obtain rfl := CompilationState.after_nil_iff.1 hs
      have hlt := Cursor.next_pending_lt hd' (by simp)
      obtain ⟨event', events', rfl⟩ := List.exists_cons_of_length_pos (Nat.zero_lt_of_lt
        (Nat.lt_of_lt_of_le hlt hlen'))
      exact ⟨{ t with cursor := d' }, visitAmong_cons_eq_ok.2
        (.inl ⟨d', hd', rfl, CompilationState.after_nil_iff.2 rfl⟩), hecho, h.script⟩
    · obtain ⟨i', hi', hecho⟩ := h.cursor.next (h.cursor.pending ho) hi (by simp)
      have hlt := Cursor.next_pending_lt hi (by simp)
      have hlt' := Cursor.next_pending_lt hi' (by simp)
      obtain ⟨event', events', rfl⟩ := List.exists_cons_of_length_pos (Nat.zero_lt_of_lt
        (Nat.lt_of_lt_of_le hlt' hlen'))
      have hopened := (Cursor.next_start_moves hi).1
      have hin : CompilationState.Echo { s with cursor := i } { t with cursor := i' } :=
        ⟨hecho, h.script⟩
      obtain ⟨t₁, hvisit', h₁⟩ := hv _ _ hin (by simp [hopened]) hvisit
      obtain ⟨nodes, hnodes⟩ := hn _ _ _ _ _ hvisit
      obtain ⟨nodes', hnodes'⟩ := hn _ _ _ _ _ hvisit'
      have hlt₁ := hnodes.pending_lt
      have hlt₁' := hnodes'.pending_lt
      have hopened₁ : s₁.cursor.opened = s.cursor.opened := by
        rw [hnodes.moves.1, hopened, List.tail_cons]
      simp only [List.length_cons] at hlen hlen' hlt₁ hlt₁'
      have hlen₁' : t₁.cursor.pending.length ≤ events'.length := by omega
      obtain ⟨t', hrest', h'⟩ := ih h₁ (hopened₁ ▸ ho) (by omega) hlen₁' hrest
      rw [← hecho.localName] at hvisit'
      exact ⟨t', visitAmong_cons_eq_ok.2 (.inr ⟨i', seen₁, t₁, hi', hecho.namespaceUri ▸ hns,
        hvisit', hrest'⟩), h'⟩

theorem Stays.echo {m : Compilation δ α} {s t s' : CompilationState δ} (h : Stays m)
    (hs : s.Echo t) (hm : m s = (.ok a, s')) :
    ∃ t', m t = (.ok a, t') ∧ s'.Echo t' ∧ s'.cursor = s.cursor := by
  obtain ⟨t', hm', hc, hc', hscript⟩ := h.eq_ok hs.script hm
  exact ⟨t', hm', ⟨hc ▸ hc' ▸ hs.cursor, hscript⟩, hc⟩

/-- What reads an element reads the same of it in a document that says the same. -/
theorem Scans.echoes {m : Compilation δ α} (h : Scans Construct.Regular grammar stage m) :
    Echoes m := by
  induction h with
  | noContent =>
    intro s t u s' hs ho hm
    obtain ⟨i, hi, hafter⟩ := requireNoContent_eq_ok.1 hm
    obtain rfl := CompilationState.after_nil_iff.1 hafter
    obtain ⟨i', hi', hecho⟩ := hs.cursor.next (hs.cursor.pending ho) hi (by simp)
    exact ⟨{ t with cursor := i' }, requireNoContent_eq_ok.2
      ⟨i', hi', CompilationState.after_nil_iff.2 rfl⟩, hecho, hs.script⟩
  | text =>
    intro s t text s' hs ho hm
    obtain ⟨d, hd, hafter⟩ := move_eq_ok.1 hm
    obtain rfl := CompilationState.after_nil_iff.1 hafter
    obtain ⟨d', hd', hecho⟩ := hs.cursor.elementText ho hd
    exact ⟨{ t with cursor := d' }, move_eq_ok.2 ⟨d', hd', CompilationState.after_nil_iff.2 rfl⟩,
      hecho, hs.script⟩
  | children h _ ih =>
    intro s t seen s' hs ho hm
    rw [forChildren, getCursor_bind] at hm ⊢
    exact visitAmong_echo ih (fun seen element _ _ _ => (h seen element).encloses) hs ho
      (Nat.le_refl _) (Nat.le_refl _) hm
  | bare _ ih =>
    intro s t a s' hs ho hm
    obtain ⟨_, s₁, hnone, hrest⟩ := bind_eq_ok.1 hm
    obtain ⟨hempty, rfl⟩ := requireNoAttributes_eq_ok.1 hnone
    have hempty' := List.perm_nil.1 (hempty ▸ hs.cursor.attributes).symm
    obtain ⟨t', hrest', h'⟩ := ih hs ho hrest
    exact ⟨t', bind_eq_ok.2 ⟨(), t, requireNoAttributes_eq_ok.2 ⟨hempty', rfl⟩, hrest'⟩, h'⟩
  | tagged hc _ ih =>
    intro s t a s' hs ho hm
    obtain ⟨r, s₁, hr, hrest⟩ := bind_eq_ok.1 hm
    obtain ⟨rfl, hr'⟩ := readInto_echo hc hs hr
    obtain ⟨t', hrest', h'⟩ := ih r hs ho hrest
    exact ⟨t', bind_eq_ok.2 ⟨r, t, hr', hrest'⟩, h'⟩
  | refuse h =>
    intro s t a s' _ _ hm
    obtain ⟨e, s₁, he, _⟩ := h s
    rw [he] at hm
    cases hm
  | isolated _ ih =>
    intro s t x s' hs ho hm
    obtain ⟨a, script⟩ := x
    obtain ⟨hin, houter⟩ := isolated_eq_ok.1 hm
    have hs' : CompilationState.Echo { s with script := .empty } { t with script := .empty } :=
      ⟨hs.cursor, rfl⟩
    obtain ⟨t', hin', h'⟩ := ih hs' ho hin
    obtain rfl : script = t'.script := h'.script
    exact ⟨{ t' with script := t.script }, isolated_eq_ok.2 ⟨hin', rfl⟩, h'.cursor,
      houter.trans hs.script⟩
  | before h _ ih =>
    intro s t b s' hs ho hm
    obtain ⟨a, s₁, hfirst, hrest⟩ := bind_eq_ok.1 hm
    obtain ⟨t₁, hfirst', hs₁, hc⟩ := h.echo hs hfirst
    obtain ⟨t', hrest', h'⟩ := ih a hs₁ (hc ▸ ho) hrest
    exact ⟨t', bind_eq_ok.2 ⟨a, t₁, hfirst', hrest'⟩, h'⟩
  | after _ hg ih =>
    intro s t b s' hs ho hm
    obtain ⟨a, s₁, hfirst, hrest⟩ := bind_eq_ok.1 hm
    obtain ⟨t₁, hfirst', hs₁⟩ := ih hs ho hfirst
    obtain ⟨t', hrest', h', _⟩ := (hg a).echo hs₁ hrest
    exact ⟨t', bind_eq_ok.2 ⟨a, t₁, hfirst', hrest'⟩, h'⟩

end Compilation

end ManagementScript
