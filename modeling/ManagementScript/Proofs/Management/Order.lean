import ManagementScript.Proofs.Command.Address
import ManagementScript.Proofs.Management.Resource

/-!
The order of the commands of a tree of resources. A resource is added before those below it, and
after a resource nothing above it is added any more, if of two resources in one place the first has
nothing below it.
-/

namespace ManagementScript

/-- Each command is one step below an address that is known or that of a command before it. -/
def Founded (known : List Address) : List Command → Prop
  | [] => True
  | c :: cs => (∃ owner ∈ known, ∃ key value, c.address = owner.append key value) ∧
    Founded (c.address :: known) cs

theorem Founded.mono (h : Founded known cs) (hk : known ⊆ known') : Founded known' cs := by
  induction cs generalizing known known' with
  | nil => trivial
  | cons c cs ih =>
    obtain ⟨⟨owner, ho, hc⟩, hcs⟩ := h
    exact ⟨⟨owner, hk ho, hc⟩, ih hcs (List.cons_subset_cons _ hk)⟩

theorem Founded.append (h : Founded known cs) (h' : Founded known cs') :
    Founded known (cs ++ cs') := by
  induction cs generalizing known with
  | nil => exact h'
  | cons c cs ih =>
    obtain ⟨hc, hcs⟩ := h
    exact ⟨hc, ih hcs (h'.mono (List.subset_cons_self ..))⟩

theorem Founded.exists_owner (h : Founded known (before ++ c :: after)) :
    ∃ owner, (owner ∈ known ∨ ∃ b ∈ before, b.address = owner) ∧
      ∃ key value, c.address = owner.append key value := by
  induction before generalizing known with
  | nil =>
    obtain ⟨⟨owner, ho, hc⟩, _⟩ := h
    exact ⟨owner, .inl ho, hc⟩
  | cons b before ih =>
    obtain ⟨owner, ho, hc⟩ := ih h.2
    refine ⟨owner, ?_, hc⟩
    cases ho with
    | inl ho =>
      cases ho with
      | head => exact .inr ⟨b, List.mem_cons_self .., rfl⟩
      | tail _ ho => exact .inl ho
    | inr ho =>
      obtain ⟨b', hb, he⟩ := ho
      exact .inr ⟨b', List.mem_cons_of_mem _ hb, he⟩

namespace Resource

mutual

theorem founded_commands {owner : Address} (ho : owner ∈ known) :
    ∀ r : Resource, Founded known (r.commands owner)
  | mk ⟨key, value⟩ _ children =>
    ⟨⟨owner, ho, key, value, rfl⟩, founded_commandsOfAll (List.mem_cons_self ..) children⟩

theorem founded_commandsOfAll {owner : Address} (ho : owner ∈ known) :
    ∀ rs : List Resource, Founded known (commandsOfAll owner rs)
  | [] => trivial
  | r :: rs => (founded_commands ho r).append (founded_commandsOfAll ho rs)

end

mutual

theorem address_of_mem_commands {owner : Address} :
    ∀ r : Resource, c ∈ r.commands owner →
      ∃ path, c.address.segments = owner.segments ++ r.segment :: path
  | mk ⟨key, value⟩ _ children, h => by
    cases h with
    | head => exact ⟨[], rfl⟩
    | tail _ h =>
      obtain ⟨r, _, path, hp⟩ := address_of_mem_commandsOfAll children h
      refine ⟨r.segment :: path, ?_⟩
      rw [hp]
      simp [Address.append, segment]

/-- The address of a command begins with that of the owner, followed by one of the resources. -/
theorem address_of_mem_commandsOfAll {owner : Address} :
    ∀ rs : List Resource, c ∈ commandsOfAll owner rs →
      ∃ r ∈ rs, ∃ path, c.address.segments = owner.segments ++ r.segment :: path
  | r :: rs, h => by
    cases List.mem_append.1 h with
    | inl h =>
      obtain ⟨path, hp⟩ := address_of_mem_commands r h
      exact ⟨r, List.mem_cons_self .., path, hp⟩
    | inr h =>
      obtain ⟨r', hr, path, hp⟩ := address_of_mem_commandsOfAll rs h
      exact ⟨r', List.mem_cons_of_mem _ hr, path, hp⟩

end

section Pairwise

variable {R : Command → Command → Prop}
  (hbelow : ∀ c d s path, d.address.segments = c.address.segments ++ s :: path → R c d)

include hbelow

theorem pairwise_commands (r : Resource)
    (h : ∀ owner, (commandsOfAll owner r.children).Pairwise R) (owner : Address) :
    (r.commands owner).Pairwise R := by
  obtain ⟨⟨key, value⟩, ps, children⟩ := r
  apply List.Pairwise.cons
  · intro d hd
    obtain ⟨r, _, path, hp⟩ := address_of_mem_commandsOfAll _ hd
    exact hbelow _ _ _ _ hp
  · exact h _

/-- A relation that holds between a resource and those below it holds between all commands of a tree
if it does between those of resources that stand side by side. -/
theorem pairwise_commandsOfAll {rs : List Resource}
    (here : rs.Pairwise fun r r' => ∀ owner c d path, c ∈ r.commands owner →
      d.address.segments = owner.segments ++ r'.segment :: path → R c d)
    (below : ∀ r ∈ rs, ∀ owner, (commandsOfAll owner r.children).Pairwise R) (owner : Address) :
    (commandsOfAll owner rs).Pairwise R := by
  induction rs with
  | nil => exact .nil
  | cons r rs ih =>
    obtain ⟨hr, hrs⟩ := List.pairwise_cons.1 here
    obtain ⟨hb, hbs⟩ := List.forall_mem_cons.1 below
    apply List.pairwise_append.2 ⟨pairwise_commands hbelow r hb owner, ih hrs hbs, ?_⟩
    intro c hc d hd
    obtain ⟨r', hr', path, hp⟩ := address_of_mem_commandsOfAll rs hd
    exact hr r' hr' owner c d path hc hp

end Pairwise

/-- Of two resources in one place the first has nothing below it, here and further down. -/
inductive Ordered : List Resource → Prop where
  | intro (here : rs.Pairwise fun r r' => r.segment = r'.segment → r.children = [])
      (below : ∀ r ∈ rs, Ordered r.children) : Ordered rs

/-- A command of a resource that has nothing below it, if another resource is in its place. -/
theorem address_of_siblings {r r' : Resource} {owner : Address} {c : Command}
    (h : r.segment = r'.segment → r.children = []) (hc : c ∈ r.commands owner)
    (hp : c.address.segments = owner.segments ++ r'.segment :: path) :
    r.segment = r'.segment ∧ path = [] := by
  obtain ⟨path', hp'⟩ := address_of_mem_commands r hc
  rw [hp', List.append_cancel_left_eq] at hp
  obtain ⟨he, rfl⟩ := List.cons.inj hp
  obtain ⟨⟨key, value⟩, ps, children⟩ := r
  have hnil : children = [] := h he
  subst hnil
  rw [commands, commandsOfAll_nil, List.mem_singleton] at hc
  subst hc
  exact ⟨he, by simpa [Address.append, segment] using hp'⟩

/-- Below the first of two resources nothing is above the second. -/
theorem not_above_of_siblings {r r' : Resource} {owner : Address} {c d : Command}
    (h : r.segment = r'.segment → r.children = []) (hc : c ∈ r.commands owner)
    (hd : d.address.segments = owner.segments ++ r'.segment :: path) :
    d.address.isStrictPrefixOf c.address = false := by
  rw [Bool.eq_false_iff]
  intro hs
  obtain ⟨s, rest, hs⟩ := Address.isStrictPrefixOf_iff.1 hs
  rw [hd, List.append_assoc, List.cons_append] at hs
  obtain ⟨_, hnil⟩ := address_of_siblings h hc hs
  simp at hnil

theorem Ordered.pairwise (h : Ordered rs) (owner : Address) :
    (commandsOfAll owner rs).Pairwise fun c d => d.address.isStrictPrefixOf c.address = false := by
  induction h generalizing owner with
  | intro here _ ih =>
    refine pairwise_commandsOfAll ?_ ?_ ih owner
    · intro c d s path hp
      apply Address.isStrictPrefixOf_of_le
      simp [Address.length, hp]
    · apply here.imp
      intro r r' hr owner c d path hc hp
      exact not_above_of_siblings hr hc hp

/-! ### Resources in places of their own -/

/-- Several resources are in one place only where its segment may be shared, and only the last of
them has others below it; here and further down. -/
inductive Distinct (shared : Segment → Prop) : List Resource → Prop where
  | intro (here : rs.Pairwise fun r r' =>
        r.segment = r'.segment → r.children = [] ∧ shared r.segment)
      (inside : ∀ r ∈ rs, Distinct shared r.children) : Distinct shared rs

theorem Distinct.here (h : Distinct shared rs) :
    rs.Pairwise fun r r' => r.segment = r'.segment → r.children = [] ∧ shared r.segment := by
  cases h with
  | intro here _ => exact here

theorem Distinct.inside (h : Distinct shared rs) (hr : r ∈ rs) : Distinct shared r.children := by
  cases h with
  | intro _ inside => exact inside r hr

theorem Distinct.ordered (h : Distinct shared rs) : Ordered rs := by
  induction h with
  | intro here _ ih => exact .intro (here.imp fun h he => (h he).1) ih

/-- Commands for one address are for a place that may be shared. -/
theorem Distinct.pairwise (h : Distinct shared rs) (owner : Address) :
    (commandsOfAll owner rs).Pairwise fun c d =>
      c.address = d.address → ∃ s, c.address.last? = some s ∧ shared s := by
  induction h generalizing owner with
  | intro here _ ih =>
    refine pairwise_commandsOfAll ?_ ?_ ih owner
    · intro c d s path hp he
      simp [he] at hp
    · apply here.imp
      intro r r' hr owner c d path hc hd he
      rw [← he] at hd
      obtain ⟨hsegment, rfl⟩ := address_of_siblings (fun h => (hr h).1) hc hd
      refine ⟨r'.segment, by simp [Address.last?, hd], ?_⟩
      rw [← hsegment]
      exact (hr hsegment).2

theorem mem_commandsOfAll {owner : Address} {rs : List Resource} :
    c ∈ commandsOfAll owner rs ↔ ∃ r ∈ rs, c ∈ r.commands owner := by
  rw [← List.mem_flatMap, ← commandsOfAll_map owner (fun r => r), List.map_id']

theorem own_mem_commands (r : Resource) (owner : Address) :
    owner.append r.segment.key r.segment.value ∈ (r.commands owner).map (·.address) := by
  obtain ⟨⟨key, value⟩, ps, children⟩ := r
  exact List.mem_cons_self ..

mutual

theorem distinct_children_of_nodup {owner : Address} :
    ∀ r : Resource, ((r.commands owner).map (·.address)).Nodup →
      Distinct (fun _ => False) r.children
  | mk ⟨_, _⟩ _ children, h => distinct_of_nodup children (List.nodup_cons.1 h).2

/-- Where no address occurs twice, every resource is in a place of its own. -/
theorem distinct_of_nodup {owner : Address} :
    ∀ rs : List Resource, ((commandsOfAll owner rs).map (·.address)).Nodup →
      Distinct (fun _ => False) rs
  | [], _ => .intro .nil (List.forall_mem_nil _)
  | r :: rs, h => by
    rw [commandsOfAll_cons, List.map_append, List.nodup_append] at h
    obtain ⟨hr, hrs, hne⟩ := h
    have hd := distinct_of_nodup rs hrs
    refine .intro (.cons ?_ hd.here)
      (List.forall_mem_cons.2 ⟨distinct_children_of_nodup r hr, fun _ => hd.inside⟩)
    intro r' hr' he
    have hown := own_mem_commands r' owner
    rw [← he] at hown
    apply absurd rfl (hne _ (own_mem_commands r owner) _ _)
    obtain ⟨c, hc, hc'⟩ := List.mem_map.1 hown
    exact List.mem_map.2 ⟨c, mem_commandsOfAll.2 ⟨r', hr', hc⟩, hc'⟩

end

theorem nodup_addresses_iff {owner : Address} {rs : List Resource} :
    ((commandsOfAll owner rs).map (·.address)).Nodup ↔ Distinct (fun _ => False) rs := by
  apply Iff.intro
  · exact distinct_of_nodup rs
  · intro h
    apply List.pairwise_map.2
    apply (h.pairwise owner).imp
    intro c d hcd he
    obtain ⟨_, _, hf⟩ := hcd he
    exact hf

end Resource

end ManagementScript
