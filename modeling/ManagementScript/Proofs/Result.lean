/-!
When computations with errors succeed and when they fail: a sequence succeeds where each of its steps
does, and fails with the first of them that fails.
-/

namespace ManagementScript

theorem bind_eq_ok_iff {x : Except ε α} {f : α → Except ε β} {b : β} :
    x >>= f = .ok b ↔ ∃ a, x = .ok a ∧ f a = .ok b := by
  cases x with
  | error e => simp [bind, Except.bind]
  | ok a => simp [bind, Except.bind]

theorem bind_eq_error_iff {x : Except ε α} {f : α → Except ε β} {e : ε} :
    x >>= f = .error e ↔ x = .error e ∨ ∃ a, x = .ok a ∧ f a = .error e := by
  cases x with
  | error e => simp [bind, Except.bind]
  | ok a => simp [bind, Except.bind]

theorem ite_error_eq_ok_iff [Decidable p] {a b : α} {e : ε} :
    (if p then .error e else .ok a : Except ε α) = .ok b ↔ ¬p ∧ b = a := by
  split
  · next h => simp [h]
  · next h => simp [h, eq_comm]

theorem ite_error_eq_error_iff [Decidable p] {a : α} {e e' : ε} :
    (if p then .error e else .ok a : Except ε α) = .error e' ↔ p ∧ e' = e := by
  split
  · next h => simp [h, eq_comm]
  · next h => simp [h]

theorem toOption_eq_some_iff {x : Except ε α} : x.toOption = some a ↔ x = .ok a := by
  cases x with
  | error e => simp [Except.toOption]
  | ok b => simp [Except.toOption]

theorem isSome_toOption_iff {x : Except ε α} : x.toOption.isSome = true ↔ ∃ a, x = .ok a := by
  simp only [Option.isSome_iff_exists, toOption_eq_some_iff]

theorem mem_of_mapM {f : α → Except ε β} {xs : List α} {ys : List β} (h : xs.mapM f = .ok ys)
    (hy : y ∈ ys) : ∃ x ∈ xs, f x = .ok y := by
  induction xs generalizing ys with
  | nil =>
    cases h
    cases hy
  | cons x xs ih =>
    rw [List.mapM_cons] at h
    obtain ⟨z, hz, h⟩ := bind_eq_ok_iff.1 h
    obtain ⟨zs, hzs, h⟩ := bind_eq_ok_iff.1 h
    cases h
    rcases List.mem_cons.1 hy with rfl | hy
    · exact ⟨x, List.mem_cons_self .., hz⟩
    · obtain ⟨x', hx', he⟩ := ih hzs hy
      exact ⟨x', List.mem_cons_of_mem _ hx', he⟩

theorem mem_of_mapM_error {f : α → Except ε β} {xs : List α} (h : xs.mapM f = .error e) :
    ∃ x ∈ xs, f x = .error e := by
  induction xs with
  | nil => cases h
  | cons x xs ih =>
    rw [List.mapM_cons] at h
    rcases bind_eq_error_iff.1 h with h | ⟨y, _, h⟩
    · exact ⟨x, List.mem_cons_self .., h⟩
    rcases bind_eq_error_iff.1 h with h | ⟨ys, _, h⟩
    · obtain ⟨x', hx', h⟩ := ih h
      exact ⟨x', List.mem_cons_of_mem _ hx', h⟩
    · cases h

theorem mapM_eq_ok_iff {f : α → Except ε β} {p : α → Prop} {g : α → β}
    (hf : ∀ a b, f a = .ok b ↔ p a ∧ b = g a) {xs : List α} {ys : List β} :
    xs.mapM f = .ok ys ↔ (∀ x ∈ xs, p x) ∧ ys = xs.map g := by
  induction xs generalizing ys with
  | nil =>
    rw [List.mapM_nil]
    simp [pure, Except.pure, eq_comm]
  | cons x xs ih =>
    rw [List.mapM_cons, bind_eq_ok_iff, List.forall_mem_cons, List.map_cons]
    apply Iff.intro
    · intro h
      obtain ⟨y, hx, h⟩ := h
      obtain ⟨zs, hxs, h⟩ := bind_eq_ok_iff.1 h
      obtain ⟨hp, rfl⟩ := (hf _ _).1 hx
      obtain ⟨hps, rfl⟩ := ih.1 hxs
      cases h
      exact ⟨⟨hp, hps⟩, rfl⟩
    · intro h
      obtain ⟨⟨hp, hps⟩, rfl⟩ := h
      exact ⟨_, (hf _ _).2 ⟨hp, rfl⟩, bind_eq_ok_iff.2 ⟨_, ih.2 ⟨hps, rfl⟩, rfl⟩⟩

theorem pairwise_of_mapM {f : α → Except ε β} {R : α → α → Prop} {S : β → β → Prop}
    (hf : ∀ a a' b b', R a a' → f a = .ok b → f a' = .ok b' → S b b') {xs : List α} {ys : List β}
    (h : xs.mapM f = .ok ys) (hx : xs.Pairwise R) : ys.Pairwise S := by
  induction xs generalizing ys with
  | nil =>
    cases h
    exact .nil
  | cons x xs ih =>
    rw [List.mapM_cons] at h
    obtain ⟨z, hz, h⟩ := bind_eq_ok_iff.1 h
    obtain ⟨zs, hzs, h⟩ := bind_eq_ok_iff.1 h
    cases h
    obtain ⟨hhead, htail⟩ := List.pairwise_cons.1 hx
    refine .cons (fun y hy => ?_) (ih hzs htail)
    obtain ⟨x', hx', he⟩ := mem_of_mapM hzs hy
    exact hf _ _ _ _ (hhead x' hx') hz he

theorem mapM_of_eq_ok {f g : α → Except ε β} (hf : ∀ a b, f a = .ok b → g a = .ok b) {xs : List α}
    {ys : List β} (h : xs.mapM f = .ok ys) : xs.mapM g = .ok ys := by
  induction xs generalizing ys with
  | nil => exact h
  | cons x xs ih =>
    rw [List.mapM_cons] at h ⊢
    obtain ⟨y, hy, h⟩ := bind_eq_ok_iff.1 h
    obtain ⟨zs, hzs, h⟩ := bind_eq_ok_iff.1 h
    exact bind_eq_ok_iff.2 ⟨y, hf _ _ hy, bind_eq_ok_iff.2 ⟨zs, ih hzs, h⟩⟩

theorem mapM_perm {f : α → Except ε β} {xs xs' : List α} {ys : List β} (hp : xs.Perm xs')
    (h : xs.mapM f = .ok ys) : ∃ ys', xs'.mapM f = .ok ys' ∧ ys.Perm ys' := by
  induction hp generalizing ys with
  | nil => exact ⟨ys, h, .refl _⟩
  | cons x _ ih =>
    rw [List.mapM_cons] at h
    obtain ⟨y, hy, h⟩ := bind_eq_ok_iff.1 h
    obtain ⟨zs, hzs, h⟩ := bind_eq_ok_iff.1 h
    cases h
    obtain ⟨zs', hzs', hperm⟩ := ih hzs
    refine ⟨y :: zs', ?_, hperm.cons y⟩
    rw [List.mapM_cons]
    exact bind_eq_ok_iff.2 ⟨y, hy, bind_eq_ok_iff.2 ⟨zs', hzs', rfl⟩⟩
  | swap x x' xs =>
    simp only [List.mapM_cons, bind_eq_ok_iff] at h
    obtain ⟨y, hy, _, ⟨y', hy', zs, hzs, hinner⟩, houter⟩ := h
    cases hinner
    cases houter
    refine ⟨y' :: y :: zs, ?_, .swap ..⟩
    simp only [List.mapM_cons, bind_eq_ok_iff]
    exact ⟨y', hy', _, ⟨y, hy, zs, hzs, rfl⟩, rfl⟩
  | trans _ _ ih ih' =>
    obtain ⟨zs, hzs, hperm⟩ := ih h
    obtain ⟨ws, hws, hperm'⟩ := ih' hzs
    exact ⟨ws, hws, hperm.trans hperm'⟩

theorem stateful_bind_apply (m : ExceptT ε (StateM σ) α) (f : α → ExceptT ε (StateM σ) β) (s : σ) :
    (m >>= f) s = (match m s with
      | (.ok a, s₁) => f a s₁
      | (.error e, s₁) => (.error e, s₁) : Except ε β × σ) := by
  simp only [bind, ExceptT.bind, ExceptT.mk, StateT.bind]
  cases m s with
  | mk result s₁ => cases result <;> rfl

theorem stateful_bind_eq_ok {m : ExceptT ε (StateM σ) α} {f : α → ExceptT ε (StateM σ) β}
    {s s' : σ} :
    (m >>= f) s = (.ok b, s') ↔ ∃ a s₁, m s = (.ok a, s₁) ∧ f a s₁ = (.ok b, s') := by
  rw [stateful_bind_apply]
  apply Iff.intro
  · intro h
    split at h
    · next a s₁ hm => exact ⟨a, s₁, hm, h⟩
    · cases h
  · intro h
    obtain ⟨a, s₁, hm, hf⟩ := h
    rw [hm]
    exact hf

theorem stateful_bind_eq_error {m : ExceptT ε (StateM σ) α} {f : α → ExceptT ε (StateM σ) β}
    {s s' : σ} :
    (m >>= f) s = (.error e, s') ↔
      m s = (.error e, s') ∨ ∃ a s₁, m s = (.ok a, s₁) ∧ f a s₁ = (.error e, s') := by
  rw [stateful_bind_apply]
  apply Iff.intro
  · intro h
    split at h
    · next a s₁ hm => exact .inr ⟨a, s₁, hm, h⟩
    · next hm =>
      cases h
      exact .inl hm
  · intro h
    obtain hm | ⟨a, s₁, hm, hf⟩ := h
    · rw [hm]
    · rw [hm]
      exact hf

end ManagementScript
